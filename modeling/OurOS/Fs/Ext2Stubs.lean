import OurOS.Fs.Transfer
import OurOS.Fs.Vfs

namespace OurOS.Fs

def errorNotImplement : ℕ := 12

/-- The address that `ERR_PTR` makes of the code. -/
def createDentryExt2 (_sb _parent : ℕ) (_name : List ℕ) (_isdir : Bool) : ℕ := errorNotImplement

def expandExt2 (_node _num : ℕ) : ℕ := errorNotImplement

def clearExt2 (_node : ℕ) (_parent : Except ℕ ℕ) (_name : List ℕ) : ℕ := errorNotImplement

def deleteExt2 (_node : ℕ) (_parent : Except ℕ ℕ) (_name : List ℕ) : ℕ := errorNotImplement

def ext2Ops (env : FsEnv) (info : InfoExt2) : FsOps where
  createDentry sb parent name isdir := pure (.address (createDentryExt2 sb parent name isdir))
  lookup := lookupExt2 env info
  expand node num := pure (expandExt2 node num)
  clear node parent name := pure (clearExt2 node parent name)
  delete node parent name := pure (deleteExt2 node parent name)
  compare := compareExt2
  listDir := listDirExt2 env info

inductive FsCall
  | lookup (path : List ℕ) (create isdir : Bool)
  | open (path : List ℕ) (mode : ℕ)
  | write (fp : ℕ) (buf : List ℕ)
  | delete (fp : ℕ)

section Calls

variable (env : FsEnv) (ops : ℕ → FsOps)

def runCall : FsCall → FsProg Unit
  | .lookup path create isdir => do let _ ← Vfs.pathLookup env ops path create isdir
  | .open path mode => do let _ ← Vfs.fsOpen env ops path mode
  | .write fp buf => do let _ ← Vfs.fsWrite env ops fp buf
  | .delete fp => do let _ ← Vfs.fsDelete ops fp

def IsExt2 (sb : ℕ) : Prop := ∃ info, ops sb = ext2Ops env info

def Creates (path : List ℕ) (create : Bool) (s : FsSys) : Prop :=
  ∃ r t, Vfs.startWalk ops path s = some (.ok r, t) ∧ createsEntry env path create r.2 = true ∧
    IsExt2 env ops (t.dentries r.2.nd.ndDentry).dSb

def Truncates (entry mode : ℕ) (s : FsSys) : Prop :=
  ¬ hasMode mode fModeAppendMask ∧ ¬ hasMode mode fModeReadMask ∧
    ∃ fp t parent u, openHandle env entry mode s = some (.ok fp, t) ∧
      Prog.attempt (Vfs.getDentryParent ops entry) t = some (.ok parent, u) ∧
        IsExt2 env ops (u.inodes (u.dentries entry).dInode).iSb

def Requests : FsCall → FsSys → Prop
  | .lookup path create _, s => Creates env ops path create s
  | .open path mode, s =>
    Creates env ops path (hasMode mode fModeWriteMask) s ∨
      ∃ nd t, Vfs.pathLookup env ops path (hasMode mode fModeWriteMask)
        (hasMode mode fModeDirMask) s = some (.ok nd, t) ∧ Truncates env ops nd.ndDentry mode t
  | .write fp buf, s =>
    hasMode (s.files fp).fMode fModeWriteMask ∧ (s.files fp).fSize < writeEnd s fp buf.length ∧
      IsExt2 env ops (s.inodes (fileInode s fp)).iSb
  | .delete fp, s =>
    ∃ parent t, Vfs.checkDelete ops fp s = some (.ok parent, t) ∧
      IsExt2 env ops (t.inodes (fileInode s fp)).iSb

structure Unaltered (s t : FsSys) : Prop where
  fSize : ∀ fp, s.live fp → (t.files fp).fSize = (s.files fp).fSize
  fPos : ∀ fp, s.live fp → (t.files fp).fPos = (s.files fp).fPos
  iSize : ∀ node, s.live node → (t.inodes node).iSize = (s.inodes node).iSize
  sector : t.sd.sector = s.sd.sector

/-- The call returns an error code, and nothing was changed. -/
def Refuses (call : FsCall) (s : FsSys) : Prop :=
  ∃ e t, runCall env ops call s = some (.error e, t) ∧ isErrValue (errValue e) ∧ Unaltered s t

def GoesOn : FsCall → FsSys → Prop
  | .lookup path create isdir, s => Vfs.pathLookup env ops path create isdir s = none
  | .open path mode, s =>
    Vfs.fsOpen env ops path mode s = none ∨
      ∃ fp t, Vfs.fsOpen env ops path mode s = some (.ok fp, t) ∧ (t.files fp).fSize = 0
  | .write fp buf, s =>
    Vfs.fsWrite env ops fp buf s = none ∨
      ∃ error t, Vfs.fsWrite env ops fp buf s = some (.ok error, t) ∧
        (t.files fp).fSize = writeEnd s fp buf.length ∧
          (t.inodes (fileInode s fp)).iSize = writeEnd s fp buf.length
  | .delete fp, s =>
    ∃ t, Vfs.fsDelete ops fp s = some (.ok errorNotImplement, t) ∧ (t.files fp).fDirt = false

end Calls

section Stubs

variable {env : FsEnv} {ops : ℕ → FsOps} {s : FsSys}

theorem Creates.pathLookup {path : List ℕ} {create : Bool} (h : Creates env ops path create s)
    (isdir : Bool) : Vfs.pathLookup env ops path create isdir s = none := by
  obtain ⟨r, t, hwalk, hcreate, info, hops⟩ := h
  rw [Vfs.pathLookup, Prog.bind_ok hwalk, if_pos hcreate]
  refine Vfs.createLast_address (t := t) (x := errorNotImplement) env ?_
  rw [hops]
  rfl

theorem Truncates.dentryOpenFile {entry mode : ℕ} (h : Truncates env ops entry mode s) :
    ∃ fp t, Vfs.dentryOpenFile env ops entry mode s = some (.ok fp, t) ∧
      (t.files fp).fSize = 0 := by
  obtain ⟨happend, hread, fp, t, parent, u, hopen, hparent, info, hops⟩ := h
  have hclear : Prog.attempt ((Vfs.entryOps ops u entry).clear (u.dentries entry).dInode parent
      (u.dentries entry).dName) u = some (.ok (.ok errorNotImplement), u) := by
    rw [Vfs.entryOps, Vfs.nodeOps, hops]
    rfl
  refine ⟨fp, u.setFile fp fun f => { f with fSize := 0 }, ?_, by simp [FsSys.setFile]⟩
  have hwrite : (!hasMode mode fModeReadMask) = true := by simpa using hread
  rw [Vfs.dentryOpenFile, Prog.bind_ok hopen]
  simp only [if_neg happend, if_pos hwrite]
  rw [Prog.bind_ok hparent, Prog.get_bind_run, Prog.bind_ok hclear]
  rfl

theorem expandNode_ext2 {node : ℕ} (h : IsExt2 env ops (s.inodes node).iSb) (num : ℕ) :
    Vfs.expandNode ops node num s = some (.ok errorNotImplement, s) := by
  obtain ⟨info, hops⟩ := h
  rw [Vfs.expandNode, Prog.get_bind_run, Vfs.nodeOps, hops]
  rfl

theorem fileExpandTo_ext2 {fp size : ℕ} (hsize : (s.files fp).fSize < size)
    (h : IsExt2 env ops (s.inodes (fileInode s fp)).iSb) :
    ∃ error, Vfs.fileExpandTo ops fp size s =
      some (.ok error, sizedTo (fileInode s fp) fp size s) := by
  rw [Vfs.fileExpandTo, Prog.get_bind_run]
  simp only [if_neg hsize.not_ge]
  split_ifs
  · rw [Prog.bind_ok (expandNode_ext2 h _)]
    exact ⟨_, rfl⟩
  · exact ⟨_, rfl⟩

theorem fsWrite_grows {fp : ℕ} {buf : List ℕ}
    (hmode : hasMode (s.files fp).fMode fModeWriteMask = true)
    (hsize : (s.files fp).fSize < writeEnd s fp buf.length) {error : ℕ} {t : FsSys}
    (h : Vfs.fileExpandTo ops fp (writeEnd s fp buf.length) s = some (.ok error, t)) :
    Vfs.fsWrite env ops fp buf s =
      (writeRest env fp (s.files fp).fCurOff buf >>= fun _ => pure error) t := by
  rw [writeEnd] at hsize h
  rw [Vfs.fsWrite, Prog.get_bind_run]
  simp only [hmode, Bool.not_true, Bool.false_eq_true, if_false, if_pos hsize]
  rw [Prog.bind_ok h, writeRest]
  simp only [bind_assoc]
  rfl

theorem grows_goesOn {fp : ℕ} {buf : List ℕ}
    (hmode : hasMode (s.files fp).fMode fModeWriteMask = true)
    (hsize : (s.files fp).fSize < writeEnd s fp buf.length)
    (h : IsExt2 env ops (s.inodes (fileInode s fp)).iSb) : GoesOn env ops (.write fp buf) s := by
  obtain ⟨error, hexpand⟩ := fileExpandTo_ext2 hsize h
  have hrun := @fsWrite_grows env ops s fp buf hmode hsize error _ hexpand
  cases hrest : writeRest env fp (s.files fp).fCurOff buf
    (sizedTo (fileInode s fp) fp (writeEnd s fp buf.length) s) with
  | none =>
    left
    rw [hrun, Prog.bind_none hrest]
  | some result =>
    obtain ⟨r, t⟩ := result
    have hsame := sizes_frame.handles.writeRest env _ _ _ _ _ _ hrest
    obtain ⟨_, rfl⟩ : ∃ a, r = .ok a := by
      rw [writeRest, Prog.modify_bind_run, Prog.get_bind_run] at hrest
      exact writeLoop_ok hrest
    refine .inr ⟨error, t, ?_, ?_, ?_⟩
    · rw [hrun, Prog.bind_ok hrest]
      rfl
    · rw [hsame.fSize, (sizedTo_file _ _ _ _ fp).1, if_pos rfl]
    · rw [hsame.iSize, sizedTo_iSize, if_pos rfl]

theorem fsDelete_ext2 {fp : ℕ} {parent : Except ℕ ℕ} {t : FsSys}
    (hcheck : Vfs.checkDelete ops fp s = some (.ok parent, t))
    (h : IsExt2 env ops (t.inodes (fileInode s fp)).iSb) :
    Vfs.fsDelete ops fp s = some (.ok errorNotImplement,
      t.setFile fp fun f => { f with fDirt := false }) := by
  obtain ⟨info, hops⟩ := h
  have hdelete : (Vfs.nodeOps ops t (fileInode s fp)).delete (fileInode s fp) parent
      (t.dentries (s.files fp).fDentry).dName t = some (.ok errorNotImplement, t) := by
    rw [Vfs.nodeOps, hops]
    rfl
  rw [Vfs.fsDelete, Prog.get_bind_run]
  refine (Prog.bind_ok hcheck).trans ?_
  rw [Prog.get_bind_run]
  exact Prog.bind_ok hdelete

theorem Requests.goesOn {call : FsCall} (h : Requests env ops call s) : GoesOn env ops call s := by
  cases call with
  | lookup path create isdir => exact h.pathLookup isdir
  | «open» path mode =>
    rcases h with hcreate | ⟨nd, t, hlookup, htruncates⟩
    · exact .inl (Prog.bind_none (hcreate.pathLookup _))
    · obtain ⟨fp, u, hopen, hsize⟩ := htruncates.dentryOpenFile
      exact .inr ⟨fp, u, (Prog.bind_ok hlookup).trans hopen, hsize⟩
  | write fp buf => exact grows_goesOn h.1 h.2.1 h.2.2
  | delete fp =>
    obtain ⟨parent, t, hcheck, hext2⟩ := h
    exact ⟨_, fsDelete_ext2 hcheck hext2, by simp [FsSys.setFile]⟩

theorem GoesOn.not_refuses {call : FsCall} (h : GoesOn env ops call s) :
    ¬ Refuses env ops call s := by
  rintro ⟨e, t, hrun, -⟩
  cases call with
  | lookup path create isdir =>
    rw [runCall, Prog.bind_none h] at hrun
    cases hrun
  | «open» path mode =>
    rcases h with hnone | ⟨fp, u, hopen, -⟩
    · rw [runCall, Prog.bind_none hnone] at hrun
      cases hrun
    · rw [runCall, Prog.bind_ok hopen] at hrun
      cases hrun
  | write fp buf =>
    rcases h with hnone | ⟨error, u, hwrite, -⟩
    · rw [runCall, Prog.bind_none hnone] at hrun
      cases hrun
    · rw [runCall, Prog.bind_ok hwrite] at hrun
      cases hrun
  | delete fp =>
    obtain ⟨u, hdelete, -⟩ := h
    rw [runCall, Prog.bind_ok hdelete] at hrun
    cases hrun

theorem requests_not_refused {call : FsCall} (h : Requests env ops call s) :
    ¬ Refuses env ops call s := h.goesOn.not_refuses

end Stubs

section Examples

def partInfo : InfoExt2 := ⟨2048, 2052, 2048, 128⟩

def smallOps : ℕ → FsOps := fun _ => ext2Ops soundEnv partInfo

def ext2File : FsSys :=
  { blankSys with
    sbs := fun _ => ⟨1024, 10, 0, none, none, 0, 0, 0, 0⟩
    inodes := fun _ => ⟨12, 0, 100, 1, false, false, [], [2], 0⟩
    dentries := fun _ => ⟨1, false, false, [], 0, 0, some 1, [97]⟩
    files := fun _ => ⟨100, fModeReadMask ||| fModeWriteMask, 0, 0, some 2, 0, 0, true⟩ }

theorem requests_not_refused_small : ¬ Refuses soundEnv smallOps (.delete 0) ext2File :=
  requests_not_refused ⟨.ok 1, ext2File, rfl, partInfo, rfl⟩

theorem delete_not_refused : ¬ ∀ (env : FsEnv) (ops : ℕ → FsOps) (call : FsCall) (s : FsSys),
    Requests env ops call s → Refuses env ops call s := by
  intro h
  obtain ⟨e, t, hrun, -⟩ := h soundEnv smallOps (.delete 0) ext2File
    ⟨.ok 1, ext2File, rfl, partInfo, rfl⟩
  have hreturns : (runCall soundEnv smallOps (.delete 0) ext2File).map (·.1.isOk) = some true := rfl
  rw [hrun] at hreturns
  cases hreturns

end Examples

end OurOS.Fs
