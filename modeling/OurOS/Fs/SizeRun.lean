import OurOS.Fs.ChainOps
import OurOS.Fs.Sizes
import OurOS.Lib.Run

namespace OurOS.Fs

inductive SizeOp
  | open (entry mode : ℕ)
  | seek (fp : ℕ) (flag : SeekFlag) (offset : ℕ)
  | read (fp len : ℕ)
  | write (fp : ℕ) (buf : List ℕ)
deriving DecidableEq, Repr

/-- `handles` are the open handles of the file and `top` is the greatest of its size at the start
and the ends of all writes. -/
structure SizeSys where
  sys : FsSys
  handles : List ℕ
  top : ℕ

/-- Only opens that do not clear the file; a call on a handle that may write is to return no error. -/
def sizeStep (env : FsEnv) (node : ℕ) (x : SizeSys) : SizeOp → Option SizeSys
  | .open entry mode =>
    if (x.sys.dentries entry).dInode = node ∧
        (hasMode mode fModeAppendMask ∨ hasMode mode fModeReadMask) then
      match dentryOpenFile env entry mode x.sys with
      | some (.ok fp, t) => some { x with sys := t, handles := fp :: x.handles }
      | _ => none
    else none
  | .seek fp flag offset =>
    if fp ∈ x.handles then
      (fsSeek fp flag offset x.sys).map fun r => { x with sys := r.2 }
    else none
  | .read fp len =>
    if fp ∈ x.handles then (fsRead env fp len x.sys).map fun r => { x with sys := r.2 } else none
  | .write fp buf =>
    if fp ∈ x.handles then
      if hasMode (x.sys.files fp).fMode fModeWriteMask then
        match fsWrite env fp buf x.sys with
        | some (.ok (), t) =>
          some { x with sys := t, top := max x.top ((x.sys.files fp).fPos + buf.length) }
        | _ => none
      else (fsWrite env fp buf x.sys).map fun r => { x with sys := r.2 }
    else none

def sizeStart (node : ℕ) (s : FsSys) : SizeSys := ⟨s, [], (s.inodes node).iSize⟩

def SizeKept (node : ℕ) (x : SizeSys) : Prop := (x.sys.inodes node).iSize = x.top

/-- A write that goes past what its handle takes for the size ends in no smaller size. -/
def growsPast (node : ℕ) (x : SizeSys) : SizeOp → Prop
  | .write fp buf => hasMode (x.sys.files fp).fMode fModeWriteMask = true →
      (x.sys.files fp).fPos + buf.length < uintRange ∧
        ((x.sys.files fp).fSize < (x.sys.files fp).fPos + buf.length →
          (x.sys.inodes node).iSize ≤ (x.sys.files fp).fPos + buf.length)
  | _ => True

structure SizeInv (node : ℕ) (x : SizeSys) : Prop where
  kept : SizeKept node x
  handles : ∀ fp ∈ x.handles, fileInode x.sys fp = node ∧
    (x.sys.files fp).fSize ≤ (x.sys.inodes node).iSize
  small : (x.sys.inodes node).iSize < uintRange

section Invariant

variable {env : FsEnv} {node : ℕ} {x y : SizeSys} {t : FsSys}

theorem SameSizes.fileInode (h : SameSizes x.sys t) (fp : ℕ) :
    fileInode t fp = fileInode x.sys fp := by
  rw [OurOS.Fs.fileInode, h.fDentry, h.dInode]
  rfl

theorem SizeInv.of_same (hi : SizeInv node x) (h : SameSizes x.sys t) :
    SizeInv node { x with sys := t } := by
  refine ⟨(h.iSize node).trans hi.kept, fun fp hfp => ?_, ?_⟩
  · rw [h.fileInode, h.fSize, h.iSize]
    exact hi.handles fp hfp
  · rw [h.iSize]
    exact hi.small

structure OpenedSizes (s t : FsSys) (entry fp : ℕ) : Prop where
  iSize : ∀ n, (t.inodes n).iSize = (s.inodes n).iSize
  dInode : ∀ d, (t.dentries d).dInode = (s.dentries d).dInode
  fDentry : (t.files fp).fDentry = entry
  fSize : (t.files fp).fSize = (s.inodes (s.dentries entry).dInode).iSize
  other : ∀ g, g ≠ fp → (t.files g).fDentry = (s.files g).fDentry ∧
    (t.files g).fSize = (s.files g).fSize

theorem openHandle_sizes {s : FsSys} {entry mode fp : ℕ}
    (h : openHandle env entry mode s = some (.ok fp, t)) : OpenedSizes s t entry fp := by
  rcases openHandle_cases h with ⟨hr, -⟩ | ⟨hr, rfl⟩
  · cases hr
  · cases hr
    have hd : ∀ d, ((dIncCount entry (grabbed s)).dentries d).dInode = (s.dentries d).dInode := by
      intro d
      by_cases e : d = entry
      · subst e
        simp [dIncCount, grabbed, FsSys.setDentry]
      · simp [dIncCount, grabbed, FsSys.setDentry, e]
    refine ⟨fun _ => rfl, hd, ?_, ?_, fun g hg => ?_⟩
    · simp [FsSys.setFile, newFile]
    · simp only [FsSys.setFile, Function.update_self, newFile, hd]
      rfl
    · simp [FsSys.setFile, hg, dIncCount, grabbed, FsSys.setDentry]

theorem dentryOpenFile_sizes {s : FsSys} {entry mode fp : ℕ}
    (hmode : hasMode mode fModeAppendMask ∨ hasMode mode fModeReadMask)
    (h : dentryOpenFile env entry mode s = some (.ok fp, t)) : OpenedSizes s t entry fp := by
  obtain ⟨ret, u, h1, h⟩ := Prog.bind_ok_cases h
  have ho := openHandle_sizes h1
  by_cases happ : hasMode mode fModeAppendMask = true
  · simp only [happ, if_true] at h
    cases h
    have hs : SameSizes u (atEnd fp entry u) := by
      simp only [atEnd]
      exact .setFile fp u
    refine ⟨fun n => (hs.iSize n).trans (ho.iSize n), fun d => (hs.dInode d).trans (ho.dInode d),
      (hs.fDentry fp).trans ho.fDentry, (hs.fSize fp).trans ho.fSize, fun g hg => ?_⟩
    exact ⟨(hs.fDentry g).trans (ho.other g hg).1, (hs.fSize g).trans (ho.other g hg).2⟩
  · have hread := hmode.resolve_left happ
    simp only [happ, hread, Bool.not_true, Bool.false_eq_true, if_false] at h
    cases h
    exact ho

theorem SizeInv.opened (hi : SizeInv node x) {entry fp : ℕ}
    (hentry : (x.sys.dentries entry).dInode = node) (h : OpenedSizes x.sys t entry fp) :
    SizeInv node { x with sys := t, handles := fp :: x.handles } := by
  refine ⟨(h.iSize node).trans hi.kept, fun g hg => ?_, ?_⟩
  · rw [h.iSize]
    by_cases e : g = fp
    · rw [fileInode, e, h.fDentry, h.dInode, h.fSize, hentry]
      exact ⟨rfl, le_rfl⟩
    · rw [fileInode, (h.other g e).1, (h.other g e).2, h.dInode]
      exact hi.handles g ((List.mem_cons.mp hg).resolve_left e)
  · rw [h.iSize]
    exact hi.small

theorem SizeInv.written (hi : SizeInv node x) {fp : ℕ} {buf : List ℕ} (hfp : fp ∈ x.handles)
    (hend : (x.sys.files fp).fPos + buf.length < uintRange)
    (hc : (x.sys.files fp).fSize < (x.sys.files fp).fPos + buf.length →
      (x.sys.inodes node).iSize ≤ (x.sys.files fp).fPos + buf.length)
    (h : SameSizes (writtenTo x.sys fp ((x.sys.files fp).fPos + buf.length)) t) :
    SizeInv node { x with sys := t, top := max x.top ((x.sys.files fp).fPos + buf.length) } := by
  obtain ⟨hnode, hle⟩ := hi.handles fp hfp
  have hkept : (x.sys.inodes node).iSize = x.top := hi.kept
  rw [writtenTo, hnode] at h
  split_ifs at h with hgrow
  · have hsize : (t.inodes node).iSize = (x.sys.files fp).fPos + buf.length := by
      rw [h.iSize, sizedTo_iSize, if_pos rfl]
    refine ⟨?_, fun g hg => ?_, hsize.trans_lt hend⟩
    · rw [SizeKept, hsize, ← hkept, max_eq_right (hc hgrow)]
    · dsimp only
      rw [fileInode, h.fDentry, h.dInode, h.fSize, hsize, (sizedTo_file _ _ _ _ g).1,
        (sizedTo_file _ _ _ _ g).2]
      refine ⟨(hi.handles g hg).1, ?_⟩
      split_ifs
      · exact le_rfl
      · exact (hi.handles g hg).2.trans (hc hgrow)
  · have hsame := hi.of_same h
    refine ⟨?_, hsame.handles, hsame.small⟩
    rw [SizeKept, h.iSize, hkept, max_eq_left (by omega)]

theorem sizeStep_keeps (hi : SizeInv node x) {op : SizeOp} (hc : growsPast node x op)
    (hs : sizeStep env node x op = some y) : SizeInv node y := by
  cases op with
  | «open» entry mode =>
    simp only [sizeStep] at hs
    split_ifs at hs with hmode
    split at hs
    · rename_i fp t hopen
      cases hs
      exact hi.opened hmode.1 (dentryOpenFile_sizes hmode.2 hopen)
    · cases hs
  | seek fp flag offset =>
    simp only [sizeStep] at hs
    split_ifs at hs
    obtain ⟨⟨r, t⟩, hrun, rfl⟩ := Option.map_eq_some_iff.mp hs
    exact hi.of_same (fsSeek_sizes fp flag offset _ _ _ hrun)
  | read fp len =>
    simp only [sizeStep] at hs
    split_ifs at hs
    obtain ⟨⟨r, t⟩, hrun, rfl⟩ := Option.map_eq_some_iff.mp hs
    exact hi.of_same (sizes_frame.fsRead env fp len _ _ _ hrun)
  | write fp buf =>
    simp only [sizeStep] at hs
    split_ifs at hs with hfp hmode
    · split at hs
      · rename_i t hrun
        cases hs
        obtain ⟨-, hsizes⟩ := fsWrite_sizes hrun
        obtain ⟨hend, hgrow⟩ := hc hmode
        rw [Nat.mod_eq_of_lt hend] at hsizes
        exact hi.written hfp hend hgrow hsizes
      · cases hs
    · rw [fsWrite_unwritable hmode] at hs
      cases hs
      exact hi

theorem sizeStep_breaks (hi : SizeInv node x) {op : SizeOp} (hc : ¬ growsPast node x op)
    (hs : sizeStep env node x op = some y) : ¬ SizeKept node y := by
  cases op with
  | write fp buf =>
    obtain ⟨hmode, hbad⟩ := Classical.not_imp.mp hc
    simp only [sizeStep, hmode, if_true] at hs
    split_ifs at hs with hfp
    split at hs
    · rename_i t hrun
      cases hs
      obtain ⟨hnode, -⟩ := hi.handles fp hfp
      have hkept : (x.sys.inodes node).iSize = x.top := hi.kept
      have hsmall := hi.small
      obtain ⟨-, hsizes⟩ := fsWrite_sizes hrun
      rw [SizeKept, hsizes.iSize]
      dsimp only
      rcases Nat.lt_or_ge ((x.sys.files fp).fPos + buf.length) uintRange with hend | hover
      · have hgrow : (x.sys.files fp).fSize < (x.sys.files fp).fPos + buf.length ∧
            (x.sys.files fp).fPos + buf.length < (x.sys.inodes node).iSize := by
          by_contra hn
          exact hbad ⟨hend, fun h1 => Nat.le_of_not_lt fun h2 => hn ⟨h1, h2⟩⟩
        rw [writtenTo, Nat.mod_eq_of_lt hend, if_pos hgrow.1, hnode, sizedTo_iSize, if_pos rfl]
        omega
      · have hmod : ((x.sys.files fp).fPos + buf.length) % uintRange < uintRange :=
          Nat.mod_lt _ (by decide)
        have hsize : ((writtenTo x.sys fp (((x.sys.files fp).fPos + buf.length) %
            uintRange)).inodes node).iSize < uintRange := by
          rw [writtenTo]
          split_ifs
          · rwa [hnode, sizedTo_iSize, if_pos rfl]
          · exact hsmall
        omega
    · cases hs
  | «open» entry mode => exact absurd trivial hc
  | seek fp flag offset => exact absurd trivial hc
  | read fp len => exact absurd trivial hc

theorem sizeRun_kept_iff {s : FsSys} {ops : List SizeOp} {x : SizeSys}
    (hsmall : (s.inodes node).iSize < uintRange)
    (hr : runOps (sizeStep env node) (sizeStart node s) ops = some x) :
    (∀ k y, runOps (sizeStep env node) (sizeStart node s) (ops.take k) = some y →
      SizeKept node y) ↔ RunMeets (sizeStep env node) (growsPast node) (sizeStart node s) ops :=
  runAlways_iff (I := SizeInv node) (fun _ hi => hi.kept)
    (fun _ _ _ hi hc hs => sizeStep_keeps hi hc hs) (fun _ _ _ hi hc hs => sizeStep_breaks hi hc hs)
    ⟨rfl, fun _ h => absurd h List.not_mem_nil, hsmall⟩ hr

end Invariant

def emptyFile : FsSys :=
  { blankSys with
    brk := 8
    maps := fun m => ⟨8 * m, none⟩
    inodes := fun _ => ⟨0, 0, 0, 1, false, false, [], [1], 0⟩ }

theorem emptyRun_isSome : (runOps (sizeStep soundEnv 0) (sizeStart 0 emptyFile)
    [.open 0 3, .open 0 3, .write 8 [1, 2, 3], .write 9 [4]]).isSome = true := by
  decide +kernel

/-- The second handle still takes the file to be empty when it writes its byte. -/
theorem emptyRun_shrinks : ∀ x ∈ runOps (sizeStep soundEnv 0) (sizeStart 0 emptyFile)
    [.open 0 3, .open 0 3, .write 8 [1, 2, 3], .write 9 [4]],
      (x.sys.inodes 0).iSize = 1 ∧ x.top = 3 := by
  decide +kernel

theorem sizeRun_kept_iff_small :
    (∀ k y, runOps (sizeStep soundEnv 0) (sizeStart 0 emptyFile)
      (List.take k [.open 0 3, .open 0 3, .write 8 [1, 2, 3], .write 9 [4]]) = some y →
        SizeKept 0 y) ↔ RunMeets (sizeStep soundEnv 0) (growsPast 0) (sizeStart 0 emptyFile)
          [.open 0 3, .open 0 3, .write 8 [1, 2, 3], .write 9 [4]] :=
  sizeRun_kept_iff (by decide) (Option.some_get emptyRun_isSome).symm

theorem sizeRun_not_kept :
    ¬ ∀ (env : FsEnv) (node : ℕ) (s : FsSys) (ops : List SizeOp) (x : SizeSys),
      (s.inodes node).iSize < uintRange →
      runOps (sizeStep env node) (sizeStart node s) ops = some x → SizeKept node x := by
  intro h
  obtain ⟨x, hx⟩ := Option.isSome_iff_exists.mp emptyRun_isSome
  have hkept := h soundEnv 0 emptyFile _ x (by decide) hx
  obtain ⟨h1, h2⟩ := emptyRun_shrinks x hx
  rw [SizeKept, h1, h2] at hkept
  exact absurd hkept (by decide)

end OurOS.Fs
