import OurOS.PutInt

namespace OurOS.Driver

def vgaWhite : ℕ := 0xFFF

def vgaBlack : ℕ := 0

def vgaScreenMaxCol : ℤ := 128

def vgaCommandMaxRow : ℤ := 26

def vgaDisplayMaxCol : ℤ := 80

def blank : ℕ := 0x000fff00

/-- `vram` is the character memory by cell number, and `written` the rows and columns of the cells
that were written. -/
structure VgaSys where
  row : ℤ
  col : ℤ
  freq : ℤ
  gpioCursor : ℤ
  vram : ℤ → ℕ
  written : List (ℤ × ℤ)

def kernelSetCursor (s : VgaSys) : VgaSys :=
  { s with gpioCursor := s.freq % 0x100 * 2 ^ 16 + s.row % 0x100 * 2 ^ 8 + s.col % 0x100 }

def poke (cell : ℤ) (value : ℕ) (s : VgaSys) : VgaSys :=
  { s with
    vram := Function.update s.vram cell value
    written := s.written ++ [(cell / vgaScreenMaxCol, cell % vgaScreenMaxCol)] }

def cellsTo (cell : ℕ) : List (ℤ × ℤ) :=
  (List.range cell).map fun c : ℕ => ((c : ℤ) / vgaScreenMaxCol, (c : ℤ) % vgaScreenMaxCol)

-- every row is moved and the last one filled, over all of its 128 columns
def kernelScrollScreen (s : VgaSys) : VgaSys :=
  let offset := vgaCommandMaxRow * vgaScreenMaxCol
  { s with
    vram := fun cell =>
      if 0 ≤ cell ∧ cell < offset then s.vram (cell + vgaScreenMaxCol)
      else if offset ≤ cell ∧ cell < offset + vgaScreenMaxCol then blank
      else s.vram cell
    written := s.written ++ cellsTo (offset + vgaScreenMaxCol).toNat }

def kernelPutcharAtColor (ch fgColor bgColor : ℕ) (row col : ℤ) (s : VgaSys) : VgaSys :=
  poke (row % 32 * 2 ^ 7 + col % 128)
    ((bgColor % 0x1000 * 2 ^ 20 + fgColor % 0x1000 * 2 ^ 8 + ch % 0x100) % uintRange) s

def kernelPutcharAt (ch : ℕ) (row col : ℤ) (s : VgaSys) : VgaSys :=
  kernelPutcharAtColor ch vgaWhite vgaBlack row col s

def newLine (s : VgaSys) : VgaSys :=
  let s := { s with col := 0 }
  if s.row = vgaCommandMaxRow then kernelScrollScreen s else { s with row := s.row + 1 }

def kernelMemsetUint (value : ℕ) : ℤ → ℕ → VgaSys → VgaSys
  | _, 0, s => s
  | cell, len + 1, s => kernelMemsetUint value (cell + 1) len (poke cell value s)

/-- The calls that `kernel_putch` makes of itself put a newline. -/
def kernelPutch (ch fgColor bgColor : ℕ) (s : VgaSys) : VgaSys :=
  kernelSetCursor <|
    if ch = '\r'.toNat then s
    else if ch = '\n'.toNat then newLine s
    else if ch = '\t'.toNat then
      if vgaDisplayMaxCol - 4 ≤ s.col then kernelSetCursor (newLine s)
      else
        let s := kernelMemsetUint blank (s.row * vgaScreenMaxCol + s.col) ((4 - s.col) % 4).toNat s
        { s with col := (s.col + 4) / 4 * 4 }
    else
      let s := if s.col = vgaDisplayMaxCol then kernelSetCursor (newLine s) else s
      let s := kernelPutcharAtColor ch fgColor bgColor s.row s.col s
      { s with col := s.col + 1 }

section Strings

variable {σ ε : Type} (putch : ℕ → ℕ → ℕ → Prog σ ε Unit)

def kernelPutstring (string : List ℕ) (fgColor bgColor : ℕ) : Prog σ ε ℕ := do
  Prog.forEach (putch · fgColor bgColor) string
  return string.length

def kernelPutint (num : ℤ) (fgColor bgColor : ℕ) : Prog σ ε ℤ := do
  if magnitude num = 0 then putch '0'.toNat vgaWhite vgaBlack
  else
    let text ← Prog.fromOption (intBuffer num)
    let _ ← kernelPutstring putch text fgColor bgColor
  return 0

end Strings

section CommandArea

/-- The rows and columns of the command area, with the column in which the next character wraps. -/
def InArea (row col : ℤ) : Prop :=
  (0 ≤ row ∧ row ≤ vgaCommandMaxRow) ∧ 0 ≤ col ∧ col ≤ vgaDisplayMaxCol

instance (row col : ℤ) : Decidable (InArea row col) :=
  inferInstanceAs (Decidable ((_ ∧ _) ∧ _ ∧ _))

structure VgaSys.Bounded (s : VgaSys) : Prop where
  cursor : InArea s.row s.col
  cells : ∀ cell ∈ s.written, InArea cell.1 cell.2

variable {s : VgaSys}

theorem VgaSys.Bounded.kernelSetCursor (h : s.Bounded) : (kernelSetCursor s).Bounded := ⟨h.cursor, h.cells⟩

theorem VgaSys.Bounded.poke (h : s.Bounded) {row col : ℤ} (hcell : InArea row col) (value : ℕ) :
    (poke (row * vgaScreenMaxCol + col) value s).Bounded := by
  refine ⟨h.cursor, fun cell hmem => ?_⟩
  obtain ⟨hrow, hcol⟩ := hcell
  rcases List.mem_append.mp hmem with hmem | hmem
  · exact h.cells cell hmem
  · obtain rfl := List.mem_singleton.mp hmem
    simp only [InArea, vgaScreenMaxCol, vgaDisplayMaxCol] at *
    omega

theorem VgaSys.Bounded.newLine (h : s.Bounded) (hlast : s.row ≠ vgaCommandMaxRow) :
    (newLine s).Bounded := by
  obtain ⟨⟨hrow, hcol⟩, hcells⟩ := h
  have h80 : (0 : ℤ) ≤ vgaDisplayMaxCol := by decide
  have hlt : s.row < vgaCommandMaxRow := lt_of_le_of_ne hrow.2 hlast
  rw [Driver.newLine, if_neg hlast]
  exact ⟨⟨⟨Int.add_nonneg hrow.1 one_pos.le, hlt⟩, le_rfl, h80⟩, hcells⟩

theorem newLine_col (s : VgaSys) : (newLine s).col = 0 := by
  rw [newLine]
  split <;> rfl

theorem VgaSys.Bounded.memset (h : s.Bounded) (value : ℕ) {row col : ℤ} (len : ℕ)
    (hcells : ∀ i < len, InArea row (col + i)) :
    (kernelMemsetUint value (row * vgaScreenMaxCol + col) len s).Bounded := by
  induction len generalizing s col with
  | zero => exact h
  | succ len ih =>
    have hfirst := hcells 0 len.succ_pos
    rw [Nat.cast_zero, add_zero] at hfirst
    rw [kernelMemsetUint, add_assoc]
    refine ih (h.poke hfirst value) fun i hi => ?_
    have hnext := hcells (i + 1) (Nat.succ_lt_succ hi)
    rwa [Nat.cast_succ, add_comm (i : ℤ), ← add_assoc] at hnext

theorem kernelMemsetUint_cursor (value : ℕ) (cell : ℤ) (len : ℕ) (s : VgaSys) :
    (kernelMemsetUint value cell len s).row = s.row ∧
      (kernelMemsetUint value cell len s).col = s.col := by
  induction len generalizing s cell with
  | zero => exact ⟨rfl, rfl⟩
  | succ len ih => exact ih (cell + 1) (poke cell value s)

theorem VgaSys.Bounded.putcharAtColor (h : s.Bounded) {row col : ℤ} (hcell : InArea row col)
    (ch fg bg : ℕ) : (kernelPutcharAtColor ch fg bg row col s).Bounded := by
  have hrow : row % 32 = row := Int.emod_eq_of_lt hcell.1.1 (hcell.1.2.trans_lt (by decide))
  have hcol : col % 128 = col := Int.emod_eq_of_lt hcell.2.1 (hcell.2.2.trans_lt (by decide))
  rw [kernelPutcharAtColor, hrow, hcol]
  exact h.poke hcell _

/-- The character ends the line in which the cursor stands. -/
def endsLine (ch : ℕ) (col : ℤ) : Bool :=
  if ch = '\r'.toNat then false
  else if ch = '\n'.toNat then true
  else if ch = '\t'.toNat then vgaDisplayMaxCol - 4 ≤ col
  else col == vgaDisplayMaxCol

theorem VgaSys.Bounded.wrap (h : s.Bounded) (hlast : s.col = vgaDisplayMaxCol → s.row ≠ vgaCommandMaxRow) :
    ∃ t : VgaSys, (if s.col = vgaDisplayMaxCol then Driver.kernelSetCursor (Driver.newLine s) else s) = t ∧
      t.Bounded ∧ t.col < vgaDisplayMaxCol := by
  by_cases hfull : s.col = vgaDisplayMaxCol
  · refine ⟨_, if_pos hfull, (h.newLine (hlast hfull)).kernelSetCursor, ?_⟩
    exact (newLine_col s).trans_lt (by decide)
  · exact ⟨s, if_neg hfull, h, lt_of_le_of_ne h.cursor.2.2 hfull⟩

theorem VgaSys.Bounded.putch (h : s.Bounded) (ch fg bg : ℕ)
    (hlast : endsLine ch s.col = true → s.row ≠ vgaCommandMaxRow) :
    (kernelPutch ch fg bg s).Bounded := by
  refine VgaSys.Bounded.kernelSetCursor ?_
  obtain ⟨hrow, hcol⟩ := h.cursor
  rw [endsLine] at hlast
  by_cases hcr : ch = '\r'.toNat
  · rw [if_pos hcr]
    exact h
  rw [if_neg hcr] at hlast ⊢
  by_cases hnl : ch = '\n'.toNat
  · rw [if_pos hnl] at hlast ⊢
    exact h.newLine (hlast rfl)
  rw [if_neg hnl] at hlast ⊢
  by_cases htab : ch = '\t'.toNat
  · rw [if_pos htab] at hlast ⊢
    by_cases hedge : vgaDisplayMaxCol - 4 ≤ s.col
    · rw [if_pos hedge]
      exact (h.newLine (hlast (decide_eq_true hedge))).kernelSetCursor
    · rw [if_neg hedge]
      simp only [vgaDisplayMaxCol] at hedge hcol
      have hcells (i : ℕ) (hi : i < ((4 - s.col) % 4).toNat) : InArea s.row (s.col + i) :=
        ⟨hrow, by omega, by simp only [vgaDisplayMaxCol]; omega⟩
      have hfill := h.memset blank ((4 - s.col) % 4).toNat hcells
      obtain ⟨h1, h2⟩ := kernelMemsetUint_cursor blank (s.row * vgaScreenMaxCol + s.col)
        ((4 - s.col) % 4).toNat s
      refine ⟨⟨?_, ?_⟩, hfill.cells⟩
      · simp only [h1]
        exact hrow
      · simp only [h2, vgaDisplayMaxCol]
        omega
  · rw [if_neg htab] at hlast ⊢
    obtain ⟨t, ht, hb, hcol⟩ := h.wrap fun hfull => hlast (beq_iff_eq.mpr hfull)
    simp only [ht]
    obtain ⟨hrow, hcol0, -⟩ := hb.cursor
    have hput := hb.putcharAtColor hb.cursor ch fg bg
    exact ⟨⟨hrow, Int.add_nonneg hcol0 one_pos.le, hcol⟩, hput.cells⟩

theorem mem_cellsTo {cell n : ℕ} (h : cell < n) :
    ((cell : ℤ) / vgaScreenMaxCol, (cell : ℤ) % vgaScreenMaxCol) ∈ cellsTo n :=
  List.mem_map_of_mem (List.mem_range.mpr h)

/-- A scroll writes the columns right of the display, too. -/
theorem newLine_scrolls (hlast : s.row = vgaCommandMaxRow) : (0, 127) ∈ (newLine s).written := by
  have hlt : 127 < (vgaCommandMaxRow * vgaScreenMaxCol + vgaScreenMaxCol).toNat := by
    simp only [vgaCommandMaxRow, vgaScreenMaxCol]
    omega
  rw [newLine, if_pos hlast]
  exact List.mem_append_right _ (mem_cellsTo hlt)

theorem kernelPutch_scrolls (ch fg bg : ℕ) (hend : endsLine ch s.col = true)
    (hlast : s.row = vgaCommandMaxRow) : (0, 127) ∈ (kernelPutch ch fg bg s).written := by
  rw [endsLine] at hend
  rw [kernelPutch, kernelSetCursor]
  by_cases hcr : ch = '\r'.toNat
  · rw [if_pos hcr] at hend
    cases hend
  rw [if_neg hcr] at hend ⊢
  by_cases hnl : ch = '\n'.toNat
  · rw [if_pos hnl]
    exact newLine_scrolls hlast
  rw [if_neg hnl] at hend ⊢
  by_cases htab : ch = '\t'.toNat
  · rw [if_pos htab] at hend ⊢
    rw [if_pos (of_decide_eq_true hend)]
    exact newLine_scrolls hlast
  · rw [if_neg htab] at hend ⊢
    rw [if_pos (beq_iff_eq.mp hend)]
    exact List.mem_append_left _ (newLine_scrolls hlast)

end CommandArea

end OurOS.Driver
