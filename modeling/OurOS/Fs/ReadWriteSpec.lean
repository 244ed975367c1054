import OurOS.Fs.ReadWrite

namespace OurOS.Fs

def writeEnd (s : FsSys) (fp len : ℕ) : ℕ := ((s.files fp).fPos + len) % uintRange

/-- `f_pos` is moved before the first block is looked at. -/
def advanced (fp len : ℕ) (s : FsSys) : FsSys :=
  s.setFile fp fun f => { f with fPos := (f.fPos + len) % uintRange }

def writeRest (env : FsEnv) (fp off : ℕ) (buf : List ℕ) : FsProg Unit := do
  Prog.modify (advanced fp buf.length)
  let s ← Prog.get
  writeLoop env fp (fileSb s fp).sBlocksize (mapsFrom s fp) off buf

/-- `fs_write` comes to its walk in the state `u`, with the position not moved yet. -/
structure WriteStarts (env : FsEnv) (s : FsSys) (fp : ℕ) (buf : List ℕ) (u : FsSys) : Prop where
  mode : hasMode (s.files fp).fMode fModeWriteMask = true
  expand : (s.files fp).fSize < writeEnd s fp buf.length ∧
      fileExpandTo env fp (writeEnd s fp buf.length) s = some (.ok (), u) ∨
    writeEnd s fp buf.length ≤ (s.files fp).fSize ∧ u = s

variable {env : FsEnv} {s t u : FsSys} {fp len : ℕ} {buf : List ℕ}

theorem fsRead_unreadable (h : hasMode (s.files fp).fMode fModeReadMask ≠ true) :
    fsRead env fp len s = some (.error errorAccessAuthority, s) := by
  rw [fsRead, Prog.get_bind_run]
  simp [h]

theorem fsRead_past (h : hasMode (s.files fp).fMode fModeReadMask = true)
    (hsize : (s.files fp).fSize < ((s.files fp).fPos + len) % uintRange) :
    fsRead env fp len s = some (.error errorEndOfFile, s) := by
  rw [fsRead, Prog.get_bind_run]
  simp [h, hsize]

theorem fsRead_within (h : hasMode (s.files fp).fMode fModeReadMask = true)
    (hsize : ((s.files fp).fPos + len) % uintRange ≤ (s.files fp).fSize) :
    fsRead env fp len s = readLoop env fp (fileSb s fp).sBlocksize (mapsFrom s fp)
      (s.files fp).fCurOff len (advanced fp len s) := by
  rw [fsRead, Prog.get_bind_run]
  simp only [h, Bool.not_true, Bool.false_eq_true, if_false, Nat.not_lt.mpr hsize]
  rfl

theorem fsWrite_unwritable (h : hasMode (s.files fp).fMode fModeWriteMask ≠ true) :
    fsWrite env fp buf s = some (.error errorAccessAuthority, s) := by
  rw [fsWrite, Prog.get_bind_run]
  simp [h]

theorem fsWrite_expands (h : hasMode (s.files fp).fMode fModeWriteMask = true)
    (hsize : (s.files fp).fSize < writeEnd s fp buf.length) : fsWrite env fp buf s = (do
      fileExpandTo env fp (writeEnd s fp buf.length)
      writeRest env fp (s.files fp).fCurOff buf : FsProg Unit) s := by
  rw [writeEnd] at hsize
  rw [fsWrite, Prog.get_bind_run]
  simp only [h, Bool.not_true, Bool.false_eq_true, if_false, if_pos hsize]
  rfl

theorem fsWrite_within (h : hasMode (s.files fp).fMode fModeWriteMask = true)
    (hsize : writeEnd s fp buf.length ≤ (s.files fp).fSize) :
    fsWrite env fp buf s = writeRest env fp (s.files fp).fCurOff buf s := by
  rw [writeEnd] at hsize
  rw [fsWrite, Prog.get_bind_run]
  simp only [h, Bool.not_true, Bool.false_eq_true, if_false, Nat.not_lt.mpr hsize]
  rfl

theorem WriteStarts.run (h : WriteStarts env s fp buf u) :
    fsWrite env fp buf s = writeRest env fp (s.files fp).fCurOff buf u := by
  rcases h.expand with ⟨hsize, hexp⟩ | ⟨hsize, rfl⟩
  · rw [fsWrite_expands h.mode hsize, Prog.bind_ok hexp]
  · exact fsWrite_within h.mode hsize

theorem fsWrite_inv {r : Except ℕ Unit} (h : fsWrite env fp buf s = some (r, t)) :
    (hasMode (s.files fp).fMode fModeWriteMask ≠ true ∧ r = .error errorAccessAuthority ∧ t = s) ∨
      (hasMode (s.files fp).fMode fModeWriteMask = true ∧
        (s.files fp).fSize < writeEnd s fp buf.length ∧ ∃ e, r = .error e ∧
          fileExpandTo env fp (writeEnd s fp buf.length) s = some (.error e, t)) ∨
      ∃ u, WriteStarts env s fp buf u ∧
        writeRest env fp (s.files fp).fCurOff buf u = some (r, t) := by
  by_cases hmode : hasMode (s.files fp).fMode fModeWriteMask = true
  · rcases Nat.lt_or_ge (s.files fp).fSize (writeEnd s fp buf.length) with hsize | hsize
    · rw [fsWrite_expands hmode hsize] at h
      rcases Prog.bind_cases h with ⟨_, u, h1, h2⟩ | ⟨e, h1, rfl⟩
      · exact .inr (.inr ⟨u, ⟨hmode, .inl ⟨hsize, h1⟩⟩, h2⟩)
      · exact .inr (.inl ⟨hmode, hsize, e, rfl, h1⟩)
    · rw [fsWrite_within hmode hsize] at h
      exact .inr (.inr ⟨s, ⟨hmode, .inr ⟨hsize, rfl⟩⟩, h⟩)
  · rw [fsWrite_unwritable hmode] at h
    cases h
    exact .inl ⟨hmode, rfl, rfl⟩

end OurOS.Fs
