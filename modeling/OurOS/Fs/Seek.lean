import OurOS.Fs.ByteFile
import OurOS.Fs.SizeRun

namespace OurOS.Fs

def seekBase (f : File) : SeekFlag → ℕ
  | .cur => f.fPos
  | .head => 0
  | .tail => f.fSize

def toWord (i : ℤ) : ℕ := (i % uintRange).toNat

/-- The position is inside the file and is that of the current block and the offset in it. -/
structure Positioned (s : FsSys) (fp : ℕ) : Prop where
  cur : ∃ b map, (fileMaps s fp)[b]? = some map ∧ (s.files fp).fCurMap = some map ∧
    (s.files fp).fPos = b * fileBlksize s fp + (s.files fp).fCurOff
  off_le : (s.files fp).fCurOff ≤ fileBlksize s fp
  pos_le : (s.files fp).fPos ≤ (s.files fp).fSize
  size_lt : (s.files fp).fSize < uintRange
  blksize_pos : 0 < fileBlksize s fp
  blksize_lt : fileBlksize s fp < 2 ^ 31

/-- The sum of position and offset does not wrap, and what remains of it within the file is neither
negative as a signed word nor past the blocks. -/
def seekFits (s : FsSys) (fp : ℕ) (flag : SeekFlag) (offset : ℤ) : Prop :=
  let size := (s.files fp).fSize
  let target : ℤ := seekBase (s.files fp) flag + offset
  let room : ℕ := (fileMaps s fp).length * fileBlksize s fp
  (0 ≤ target ∨ size = 0) ∧ target < 2 ^ 32 ∧ (target < 2 ^ 31 ∨ size < 2 ^ 31) ∧
    (target ≤ room ∨ size ≤ room)

structure SeekMeets (s t : FsSys) (fp : ℕ) (flag : SeekFlag) (offset : ℤ) : Prop where
  pos : ((t.files fp).fPos : ℤ) =
    max 0 (min (seekBase (s.files fp) flag + offset) (s.files fp).fSize)
  positioned : Positioned t fp

section Walk

variable {blkSize : ℕ} {maps : List ℕ} {cnt : ℕ}

theorem seekWalk_fits (hpos : 0 < blkSize) (hcnt : cnt < 2 ^ 31) (hne : maps ≠ [])
    (hfit : cnt ≤ maps.length * blkSize) :
    ∃ j map, maps[j]? = some map ∧ (seekWalk blkSize maps cnt).1 = some map ∧
      cnt = j * blkSize + (seekWalk blkSize maps cnt).2 ∧ (seekWalk blkSize maps cnt).2 ≤ blkSize := by
  induction maps generalizing cnt with
  | nil => exact absurd rfl hne
  | cons map maps ih =>
    rw [seekWalk]
    by_cases hle : cnt ≤ blkSize
    · rw [if_pos (.inl hle)]
      exact ⟨0, map, rfl, rfl, by simp, hle⟩
    · rw [if_neg (by omega)]
      rw [List.length_cons, Nat.succ_mul] at hfit
      have hmaps : maps ≠ [] := by
        rintro rfl
        simp only [List.length_nil, Nat.zero_mul] at hfit
        omega
      obtain ⟨j, m, h1, h2, h3, h4⟩ := ih (show cnt - blkSize < 2 ^ 31 by omega) hmaps (by omega)
      refine ⟨j + 1, m, h1, h2, ?_, h4⟩
      rw [Nat.succ_mul]
      omega

theorem seekWalk_past (hcnt : cnt < 2 ^ 31) (hpast : maps.length * blkSize < cnt) :
    (seekWalk blkSize maps cnt).1 = none := by
  induction maps generalizing cnt with
  | nil => rfl
  | cons map maps ih =>
    rw [List.length_cons, Nat.succ_mul] at hpast
    rw [seekWalk, if_neg (by omega)]
    exact ih (by omega) (by omega)

theorem seekWalk_negative (hcnt : 2 ^ 31 ≤ cnt) : (seekWalk blkSize maps cnt).2 = cnt := by
  cases maps with
  | nil => rfl
  | cons map maps => rw [seekWalk, if_pos (.inr hcnt)]

end Walk

section Seek

variable {s : FsSys} {fp : ℕ}

/-- Where the code puts the position, before and after it is looked up in the block list. -/
def seekPos (s : FsSys) (fp : ℕ) (flag : SeekFlag) (offset : ℤ) : ℕ :=
  min ((seekBase (s.files fp) flag + toWord offset) % uintRange) (s.files fp).fSize

def sought (s : FsSys) (fp pos : ℕ) : FsSys :=
  let r := seekWalk (fileBlksize s fp) (fileMaps s fp) pos
  s.setFile fp fun f => { f with fPos := pos, fCurMap := r.1, fCurOff := r.2 }

theorem fsSeek_run (s : FsSys) (fp : ℕ) (flag : SeekFlag) (offset : ℤ) :
    fsSeek fp flag (toWord offset) s = some (.ok (), sought s fp (seekPos s fp flag offset)) := by
  rw [fsSeek, Prog.get_bind_run]
  cases flag <;> rfl

theorem seekBase_le (h : Positioned s fp) (flag : SeekFlag) :
    seekBase (s.files fp) flag ≤ (s.files fp).fSize := by
  cases flag
  exacts [h.pos_le, Nat.zero_le _, le_rfl]

theorem seekPos_eq_iff (h : Positioned s fp) (flag : SeekFlag) {offset : ℤ}
    (hlo : -2 ^ 31 ≤ offset) (hhi : offset < 2 ^ 31) :
    (seekPos s fp flag offset : ℤ) =
        max 0 (min (seekBase (s.files fp) flag + offset) (s.files fp).fSize) ↔
      (0 ≤ seekBase (s.files fp) flag + offset ∨ (s.files fp).fSize = 0) ∧
        seekBase (s.files fp) flag + offset < 2 ^ 32 := by
  have hbase := seekBase_le h flag
  have hsize := h.size_lt
  rw [uintRange] at hsize
  rw [seekPos, toWord, uintRange]
  omega

theorem positioned_sought_iff (h : Positioned s fp) {pos : ℕ} (hpos : pos ≤ (s.files fp).fSize) :
    Positioned (sought s fp pos) fp ↔
      pos < 2 ^ 31 ∧ pos ≤ (fileMaps s fp).length * fileBlksize s fp := by
  set r := seekWalk (fileBlksize s fp) (fileMaps s fp) pos with hr
  have hfile : (sought s fp pos).files fp =
      { s.files fp with fPos := pos, fCurMap := r.1, fCurOff := r.2 } := Function.update_self ..
  have hblk : fileBlksize (sought s fp pos) fp = fileBlksize s fp := by
    rw [fileBlksize, fileSb, hfile]
    rfl
  have hmaps : fileMaps (sought s fp pos) fp = fileMaps s fp := by
    rw [fileMaps, hfile]
    rfl
  have hblk_lt := h.blksize_lt
  constructor
  · intro ht
    obtain ⟨b, map, -, hcur, -⟩ := ht.cur
    have hoff := ht.off_le
    rw [hfile] at hcur hoff
    rw [hblk] at hoff
    have hlt : pos < 2 ^ 31 := by
      by_contra hge
      rw [hr, seekWalk_negative (Nat.le_of_not_lt hge)] at hoff
      dsimp only at hoff
      omega
    refine ⟨hlt, ?_⟩
    by_contra hpast
    rw [hr, seekWalk_past hlt (Nat.lt_of_not_le hpast)] at hcur
    exact absurd hcur (by simp)
  · rintro ⟨hlt, hle⟩
    have hne : fileMaps s fp ≠ [] := by
      obtain ⟨b, map, hb, -⟩ := h.cur
      exact List.ne_nil_of_mem (List.mem_of_getElem? hb)
    obtain ⟨j, map, h1, h2, h3, h4⟩ := seekWalk_fits h.blksize_pos hlt hne hle
    refine ⟨⟨j, map, ?_⟩, ?_, ?_, ?_, ?_, ?_⟩
    · rw [hmaps, hblk, hfile]
      exact ⟨h1, h2, h3⟩
    · rw [hblk, hfile]
      exact h4
    · rw [hfile]
      exact hpos
    · rw [hfile]
      exact h.size_lt
    · rw [hblk]
      exact h.blksize_pos
    · rwa [hblk]

theorem fsSeek_meets_iff (h : Positioned s fp) (flag : SeekFlag) {offset : ℤ}
    (hlo : -2 ^ 31 ≤ offset) (hhi : offset < 2 ^ 31) :
    ∃ t, fsSeek fp flag (toWord offset) s = some (.ok (), t) ∧
      (SeekMeets s t fp flag offset ↔ seekFits s fp flag offset) := by
  have hle : seekPos s fp flag offset ≤ (s.files fp).fSize := min_le_right _ _
  have hpos := seekPos_eq_iff h flag hlo hhi
  have hin := positioned_sought_iff h hle
  have hfile : ((sought s fp (seekPos s fp flag offset)).files fp).fPos =
      seekPos s fp flag offset := by
    rw [sought, FsSys.setFile]
    dsimp only
    rw [Function.update_self]
  set room := (fileMaps s fp).length * fileBlksize s fp
  refine ⟨_, fsSeek_run s fp flag offset, ?_⟩
  constructor
  · rintro ⟨h1, h2⟩
    rw [hfile] at h1
    obtain ⟨h3, h4⟩ := hpos.mp h1
    obtain ⟨h5, h6⟩ := hin.mp h2
    refine ⟨h3, h4, ?_, ?_⟩
    · omega
    · change _ ≤ (room : ℤ) ∨ _ ≤ room
      omega
  · rintro ⟨h1, h2, h3, h4⟩
    have h5 := hpos.mpr ⟨h1, h2⟩
    change _ ≤ (room : ℤ) ∨ _ ≤ room at h4
    refine ⟨by rwa [hfile], hin.mpr ⟨?_, ?_⟩⟩
    · omega
    · omega

end Seek

def tenBytes : FsSys :=
  emptyFile.setFile 7 fun f => { f with fSize := 10, fPos := 5, fCurOff := 5, fCurMap := some 1 }

theorem tenBytes_positioned : Positioned tenBytes 7 :=
  ⟨⟨0, 1, rfl, rfl, rfl⟩, by decide, by decide, by decide, by decide, by decide⟩

theorem fsSeek_meets_small : ∃ t, fsSeek 7 .cur (toWord (-3)) tenBytes = some (.ok (), t) ∧
    SeekMeets tenBytes t 7 .cur (-3) := by
  obtain ⟨t, ht, hiff⟩ := fsSeek_meets_iff tenBytes_positioned .cur (show -2 ^ 31 ≤ (-3 : ℤ) by decide)
    (by decide)
  exact ⟨t, ht, hiff.mpr ⟨by decide, by decide, by decide, by decide⟩⟩

/-- Six bytes back from the position 5 of ten bytes ends at the end of the file. -/
theorem fsSeek_not_meets :
    ¬ ∀ (s : FsSys) (fp : ℕ) (flag : SeekFlag) (offset : ℤ), Positioned s fp →
      -2 ^ 31 ≤ offset → offset < 2 ^ 31 →
      ∀ t, fsSeek fp flag (toWord offset) s = some (.ok (), t) → SeekMeets s t fp flag offset := by
  intro h
  have hm := h tenBytes 7 .cur (-6) tenBytes_positioned (by decide) (by decide) _
    (fsSeek_run tenBytes 7 .cur (-6))
  exact absurd hm.pos (by decide)

end OurOS.Fs
