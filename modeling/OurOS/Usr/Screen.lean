import OurOS.Usr.ReadLine

namespace OurOS.Usr

open Driver

structure ScreenSys where
  line : LineSys
  reading : Option ℕ

inductive ScreenOp where
  | putch (ch fgColor bgColor : ℕ)
  | readLine (length : ℕ)
  | key (c : ℤ)

def screenStep (s : ScreenSys) : ScreenOp → Option ScreenSys
  | .putch ch fg bg => some { s with line := { s.line with vga := kernelPutch ch fg bg s.line.vga } }
  | .readLine length =>
    if s.reading.isSome then none
    else some { line := { s.line with index := 0 }, reading := some length }
  | .key c =>
    s.reading.map fun length =>
      match readKey length c s.line with
      | (none, line) => { s with line := line }
      | (some _, line) => { line := line, reading := none }

def deletes (s : ScreenSys) : ScreenOp → Bool
  | .key c => s.reading.isSome && c == backspaceKey && s.line.index != 0
  | _ => false

def DeletesInRow (s : ScreenSys) (op : ScreenOp) : Prop := deletes s op → 0 < s.line.vga.col

instance (s : ScreenSys) (op : ScreenOp) : Decidable (DeletesInRow s op) :=
  inferInstanceAs (Decidable (_ → _))

def typed (s : ScreenSys) : ScreenOp → Option ℕ
  | .putch ch _ _ => some ch
  | .readLine _ => none
  | .key c =>
    s.reading.bind fun length =>
      if c = newlineKey ∨ c = backspaceKey ∨ c = eofKey then none
      else if s.line.index < length - 1 then some (wrapByte c)
      else none

/-- No line ends in the last row, where the screen would scroll. -/
def StaysInRow (s : ScreenSys) (op : ScreenOp) : Prop :=
  (typed s op).any (endsLine · s.line.vga.col) → s.line.vga.row ≠ vgaCommandMaxRow

instance (s : ScreenSys) (op : ScreenOp) : Decidable (StaysInRow s op) :=
  inferInstanceAs (Decidable (_ → _))

def KeepsInArea (s : ScreenSys) (op : ScreenOp) : Prop := DeletesInRow s op ∧ StaysInRow s op

instance (s : ScreenSys) (op : ScreenOp) : Decidable (KeepsInArea s op) :=
  inferInstanceAs (Decidable (_ ∧ _))

theorem readKey_vga (length : ℕ) (c : ℤ) (s : LineSys) :
    (readKey length c s).2.vga = s.vga ∨
      ((¬ (c = newlineKey ∨ c = backspaceKey ∨ c = eofKey) ∧ s.index < length - 1) ∧
        (readKey length c s).2.vga = kernelPutch (wrapByte c) vgaWhite vgaBlack s.vga) ∨
      c = backspaceKey ∧ s.index ≠ 0 ∧ (readKey length c s).2.vga =
        kernelSetCursor { kernelPutcharAt ' '.toNat s.vga.row (s.vga.col - 1) s.vga with
          col := s.vga.col - 1 } := by
  rw [readKey]
  by_cases hnl : c = newlineKey
  · rw [if_pos hnl]
    exact .inl rfl
  rw [if_neg hnl]
  by_cases hback : c = backspaceKey
  · rw [if_pos hback]
    by_cases hzero : s.index = 0
    · rw [if_neg (not_not_intro hzero)]
      exact .inl rfl
    · rw [if_pos hzero]
      exact .inr (.inr ⟨hback, hzero, rfl⟩)
  rw [if_neg hback]
  by_cases heof : c = eofKey
  · rw [if_pos heof]
    exact .inl rfl
  rw [if_neg heof]
  by_cases hroom : s.index < length - 1
  · rw [if_pos hroom]
    exact .inr (.inl ⟨⟨by simp [hnl, hback, heof], hroom⟩, rfl⟩)
  · rw [if_neg hroom]
    exact .inl rfl

theorem screenStep_key {s t : ScreenSys} {c : ℤ} (h : screenStep s (.key c) = some t) :
    ∃ length, s.reading = some length ∧ t.line = (readKey length c s.line).2 := by
  obtain ⟨length, hlength, ht⟩ := Option.map_eq_some_iff.mp h
  refine ⟨length, hlength, ?_⟩
  rcases hkey : readKey length c s.line with ⟨_ | b, line⟩ <;> rw [hkey] at ht <;> rw [← ht]

theorem deletes_key {s : ScreenSys} {length : ℕ} (h : s.reading = some length)
    (hindex : s.line.index ≠ 0) : deletes s (.key backspaceKey) = true := by
  simp [deletes, h, hindex]

theorem typed_key {s : ScreenSys} {length : ℕ} {c : ℤ} (h : s.reading = some length)
    (hc : ¬ (c = newlineKey ∨ c = backspaceKey ∨ c = eofKey)) (hroom : s.line.index < length - 1) :
    typed s (.key c) = some (wrapByte c) := by
  rw [typed, h, Option.bind_some, if_neg hc, if_pos hroom]

theorem screenStep_bounded {s t : ScreenSys} {op : ScreenOp} (h : s.line.vga.Bounded)
    (hkeeps : KeepsInArea s op) (hstep : screenStep s op = some t) : t.line.vga.Bounded := by
  obtain ⟨hdel, hstays⟩ := hkeeps
  cases op with
  | putch ch fg bg =>
    obtain rfl := Option.some.inj hstep
    exact h.putch ch fg bg hstays
  | readLine length =>
    rw [screenStep] at hstep
    split at hstep
    · cases hstep
    · obtain rfl := Option.some.inj hstep
      exact h
  | key c =>
    obtain ⟨length, hlength, hline⟩ := screenStep_key hstep
    rw [hline]
    rcases readKey_vga length c s.line with e | ⟨⟨hc, hroom⟩, e⟩ | ⟨rfl, hindex, e⟩
    · rwa [e]
    · rw [StaysInRow, typed_key hlength hc hroom] at hstays
      rw [e]
      exact h.putch _ _ _ hstays
    · have hpos : 0 < s.line.vga.col := hdel (deletes_key hlength hindex)
      obtain ⟨hrow, hcol⟩ := h.cursor
      have hleft : InArea s.line.vga.row (s.line.vga.col - 1) := ⟨hrow, by omega, by omega⟩
      rw [e]
      have hput := h.putcharAtColor hleft ' '.toNat vgaWhite vgaBlack
      exact VgaSys.Bounded.kernelSetCursor ⟨hleft, hput.cells⟩

theorem screenStep_deletes {s t : ScreenSys} {op : ScreenOp}
    (hdel : ¬ DeletesInRow s op) (hstep : screenStep s op = some t) : ¬ t.line.vga.Bounded := by
  obtain ⟨hdeletes, hcol⟩ := Classical.not_imp.mp hdel
  cases op with
  | putch ch fg bg => cases hdeletes
  | readLine length => cases hdeletes
  | key c =>
    obtain ⟨length, hlength, hline⟩ := screenStep_key hstep
    simp only [deletes, hlength, Option.isSome_some, Bool.true_and, Bool.and_eq_true, beq_iff_eq,
      bne_iff_ne] at hdeletes
    obtain ⟨rfl, hindex⟩ := hdeletes
    have hvga : t.line.vga.col = s.line.vga.col - 1 := by
      rw [hline, readKey, if_neg (by decide), if_pos rfl, if_pos hindex]
      rfl
    intro ht
    have hnonneg := ht.cursor.2.1
    omega

theorem screenStep_scrolls {s t : ScreenSys} {op : ScreenOp}
    (hstays : ¬ StaysInRow s op) (hstep : screenStep s op = some t) : ¬ t.line.vga.Bounded := by
  obtain ⟨htyped, hlast⟩ := Classical.not_imp.mp hstays
  have hlast := of_not_not hlast
  -- the cell in the last column of the first row is one of those that the scroll writes
  suffices hcell : (0, 127) ∈ t.line.vga.written by
    intro ht
    exact absurd (ht.cells _ hcell) (by decide)
  cases op with
  | putch ch fg bg =>
    obtain rfl := Option.some.inj hstep
    exact kernelPutch_scrolls ch fg bg htyped hlast
  | readLine length => cases htyped
  | key c =>
    obtain ⟨length, hlength, hline⟩ := screenStep_key hstep
    rw [typed, hlength, Option.bind_some] at htyped
    split_ifs at htyped with hc hroom
    · cases htyped
    · have hvga : t.line.vga = kernelPutch (wrapByte c) vgaWhite vgaBlack s.line.vga := by
        rw [not_or, not_or] at hc
        rw [hline, readKey, if_neg hc.1, if_neg hc.2.1, if_neg hc.2.2, if_pos hroom]
        rfl
      rw [hvga]
      exact kernelPutch_scrolls _ _ _ htyped hlast
    · cases htyped

theorem screenStep_leaves {s t : ScreenSys} {op : ScreenOp}
    (hkeeps : ¬ KeepsInArea s op) (hstep : screenStep s op = some t) : ¬ t.line.vga.Bounded := by
  rw [KeepsInArea, not_and_or] at hkeeps
  rcases hkeeps with hdel | hstays
  · exact screenStep_deletes hdel hstep
  · exact screenStep_scrolls hstays hstep

theorem screenRun_bounded_iff {s t : ScreenSys} {ops : List ScreenOp} (h : s.line.vga.Bounded)
    (hrun : runOps screenStep s ops = some t) :
    (∀ k u, runOps screenStep s (ops.take k) = some u → u.line.vga.Bounded) ↔
      RunMeets screenStep KeepsInArea s ops :=
  runAlways_iff (fun _ => id) (fun _ _ _ => screenStep_bounded) (fun _ _ _ _ => screenStep_leaves)
    h hrun

def screenAt (row col : ℤ) : ScreenSys :=
  ⟨⟨⟨row, col, 31, 0, fun _ => blank, []⟩, fun _ => 0, [], 0⟩, none⟩

/-- The line wraps, and one of its characters is deleted. -/
def wrapOps : List ScreenOp :=
  [.putch 120 vgaWhite vgaBlack, .readLine 64, .key 97, .key 98, .key backspaceKey, .key newlineKey]

theorem screenRun_bounded_small : ∃ t, runOps screenStep (screenAt 25 79) wrapOps = some t ∧
    ∀ k u, runOps screenStep (screenAt 25 79) (wrapOps.take k) = some u → u.line.vga.Bounded := by
  have hsome : (runOps screenStep (screenAt 25 79) wrapOps).isSome := by decide +kernel
  obtain ⟨t, ht⟩ := Option.isSome_iff_exists.mp hsome
  exact ⟨t, ht, (screenRun_bounded_iff ⟨by decide, by simp [screenAt]⟩ ht).mpr (by decide +kernel)⟩

/-- A tab near the right edge moves the cursor to the next row, and a backspace then left of it. -/
theorem screenRun_not_bounded :
    ∃ t, runOps screenStep (screenAt 0 76) [.readLine 64, .key 9, .key backspaceKey] = some t ∧
      ¬ t.line.vga.Bounded := by
  refine ⟨_, rfl, fun h => ?_⟩
  exact absurd h.cursor (by decide +kernel)

end OurOS.Usr
