import OurOS.Fs.Ext2
import OurOS.Fs.PathCreate

namespace OurOS.Fs

/-- A pointer to a dentry, or an address that was made of a code. -/
inductive EntryPtr
  | entry (d : ℕ)
  | address (x : ℕ)

def EntryPtr.isErrPtr : EntryPtr → Bool
  | .entry _ => false
  | .address x => isErrValue x

def EntryPtr.follow : EntryPtr → FsProg ℕ
  | .entry d => pure d
  | .address _ => Prog.stuck

/-- The functions of a file system. `expand`, `clear` and `delete` return a word, where it is not
already thrown as an error code. -/
structure FsOps where
  createDentry : ℕ → ℕ → List ℕ → Bool → FsProg EntryPtr
  lookup : ℕ → List ℕ → FsProg ℕ
  expand : ℕ → ℕ → FsProg ℕ
  clear : ℕ → Except ℕ ℕ → List ℕ → FsProg ℕ
  delete : ℕ → Except ℕ ℕ → List ℕ → FsProg ℕ
  compare : List ℕ → List ℕ → ℤ
  listDir : ℕ → FsProg ℕ

def noError : ℕ := 0

/-- A word that is tested with `IS_ERR_VALUE`. -/
def tested (error : ℕ) : FsProg ℕ :=
  if isErrValue error then Prog.throw (uintRange - error) else pure error

def fat32Ops (env : FsEnv) : FsOps where
  createDentry sb parent name isdir := do
    match ← Prog.attempt (createDentryFat32 env sb parent name isdir) with
    | .ok entry => pure (.entry entry)
    | .error e => pure (.address (errValue e))
  lookup := lookupFat32 env
  expand node num := do
    expandFat32 env node num
    pure noError
  clear node parent name := do
    let parent ← follow (Prog.ofExcept parent)
    clearFat32 env node parent name
    pure noError
  delete node parent name := do
    let parent ← follow (Prog.ofExcept parent)
    deleteFat32 env node parent name
    pure noError
  compare := compareFat32
  listDir := listDirFat32 env

namespace Vfs

variable (env : FsEnv) (ops : ℕ → FsOps)

def nodeOps (s : FsSys) (node : ℕ) : FsOps := ops (s.inodes node).iSb

def entryOps (s : FsSys) (entry : ℕ) : FsOps := nodeOps ops s (s.dentries entry).dInode

section Walk

def realLookup (entry : ℕ) (name : List ℕ) : FsProg ℕ := do
  let s ← Prog.get
  (entryOps ops s entry).lookup entry name

def getDentryParent (entry : ℕ) : FsProg ℕ := do
  let s ← Prog.get
  match (s.dentries entry).dParent with
  | none => realLookup ops entry dotdotName
  | some parent => pure parent

def lookupDCache (s : FsSys) (dir : ℕ) (name : List ℕ) : Option ℕ :=
  (s.dCache.hash (hashString name)).find? fun e =>
    (s.dentries e).dParent == some dir &&
      (ops (s.dentries e).dSb).compare (s.dentries e).dName name == 0

def findEntry (nd : Nameidata) : FsProg ℕ := do
  let s ← Prog.get
  match lookupDCache ops s nd.ndDentry nd.ndCurName with
  | some entry => pure entry
  | none => realLookup ops nd.ndDentry nd.ndCurName

def doLookup (nd : Nameidata) : FsProg Nameidata := do
  let s ← Prog.get
  if !(s.inodes (s.dentries nd.ndDentry).dInode).iIsdir then Prog.throw errorNotDir
  else
    let entry ← findEntry ops nd
    let r ← followMounts uintRange entry nd.ndMnt
    moveTo nd r.1 r.2

def followDotdot (nd : Nameidata) : FsProg Nameidata := do
  match ← leaveMounts uintRange nd.ndDentry nd.ndMnt with
  | none => pure nd
  | some (entry, mnt) =>
    let parent ← getDentryParent ops entry
    moveTo nd parent mnt

def walkComponent (nd : Nameidata) : FsProg Nameidata :=
  if qstrEquals nd.ndCurName dotName then pure nd
  else if qstrEquals nd.ndCurName dotdotName then followDotdot ops nd
  else doLookup ops nd

def linkPathWalk (path : List ℕ) : ℕ → ℕ → Nameidata → Qstr → FsProg WalkEnd
  | 0, _, _, _ => Prog.stuck
  | n + 1, filename, nd, cur =>
    let filename := skipBlanks path path.length filename
    if charAt path filename = 0 then pure ⟨none, nd, cur⟩
    else do
      let stop := componentEnd path path.length filename
      let cur : Qstr := ⟨filename, stop - filename⟩
      let nd := { nd with ndCurName := cur.text path }
      match ← Prog.attempt (walkComponent ops nd) with
      | .error e => pure ⟨some e, nd, cur⟩
      | .ok nd => linkPathWalk path n stop nd cur

/-- The first part of `path_lookup`: the entry it starts from and the end of the walk. -/
def startWalk (path : List ℕ) : FsProg (ℕ × WalkEnd) := do
  let s ← Prog.get
  let entry := if charAt path 0 = slash then s.rootDentry else s.pwdDentry
  Prog.modify (dIncCount entry)
  let r ← linkPathWalk ops path uintRange 0 ⟨entry, (s.dentries entry).dSb, []⟩ ⟨0, 0⟩
  pure (entry, r)

/-- The count of what `create_dentry` returned goes down at the exit, error pointer or not. -/
def createLast (nd : Nameidata) (name : List ℕ) (isdir : Bool) : FsProg Nameidata := do
  let s ← Prog.get
  let sb := (s.dentries nd.ndDentry).dSb
  let ptr ← (ops sb).createDentry sb nd.ndDentry name isdir
  if ptr.isErrPtr then
    let entry ← ptr.follow
    Prog.modify (dDecCount entry)
    pure nd
  else
    if isdir then
      let entry ← ptr.follow
      let s ← Prog.get
      Prog.forEach (clearDir env (s.sbs sb).sBlocksize) (dirMaps s entry)
    Prog.modify (dDecCount nd.ndDentry)
    let entry ← ptr.follow
    Prog.modify (dIncCount entry)
    Prog.modify (dDecCount entry)
    pure { nd with ndDentry := entry, ndCurName := [] }

def pathLookup (path : List ℕ) (create isdir : Bool) : FsProg Nameidata := do
  let r ← startWalk ops path
  if createsEntry env path create r.2 then createLast env ops r.2.nd r.2.nd.ndCurName isdir
  else do
    Prog.modify (dDecCount r.1)
    match r.2.error with
    | some e => Prog.throw e
    | none => pure r.2.nd

end Walk

section Handles

/-- What `clear` returns is not looked at. -/
def dentryOpenFile (entry mode : ℕ) : FsProg ℕ := do
  let ret ← openHandle env entry mode
  if hasMode mode fModeAppendMask then Prog.modify (atEnd ret entry)
  else if !hasMode mode fModeReadMask then
    let parent ← Prog.attempt (getDentryParent ops entry)
    let s ← Prog.get
    let _ ← Prog.attempt
      ((entryOps ops s entry).clear (s.dentries entry).dInode parent (s.dentries entry).dName)
    Prog.modify (·.setFile ret fun f => { f with fSize := 0 })
  pure ret

def fsOpen (path : List ℕ) (mode : ℕ) : FsProg ℕ := do
  let nd ← pathLookup env ops path (hasMode mode fModeWriteMask) (hasMode mode fModeDirMask)
  dentryOpenFile env ops nd.ndDentry mode

def expandNode (node num : ℕ) : FsProg ℕ := do
  let s ← Prog.get
  let error ← (nodeOps ops s node).expand node num
  tested error

def fileExpandTo (fp size : ℕ) : FsProg ℕ := do
  let s ← Prog.get
  let f := s.files fp
  if size ≤ f.fSize then pure noError
  else
    let node := fileInode s fp
    let expand := expandBytes s fp size
    let error ← if 0 < expand ∧ expand < 2 ^ 31 then
        expandNode ops node (expandBlks (s.sbs (s.inodes node).iSb) expand)
      else pure noError
    Prog.modify fun s => (s.setInode node fun n => { n with iSize := size }).setFile fp fun f =>
      { f with fSize := size }
    pure error

def fsWrite (fp : ℕ) (buf : List ℕ) : FsProg ℕ := do
  let s ← Prog.get
  let f := s.files fp
  if !hasMode f.fMode fModeWriteMask then Prog.throw errorAccessAuthority
  else
    let error ← if f.fSize < (f.fPos + buf.length) % uintRange then
        fileExpandTo ops fp ((f.fPos + buf.length) % uintRange)
      else pure noError
    Prog.modify (·.setFile fp fun f => { f with fPos := (f.fPos + buf.length) % uintRange })
    let s ← Prog.get
    writeLoop env fp (fileSb s fp).sBlocksize (mapsFrom s fp) f.fCurOff buf
    pure error

/-- The first part of `fs_delete`: the parent of the file, which is no directory that holds files. -/
def checkDelete (fp : ℕ) : FsProg (Except ℕ ℕ) := do
  let s ← Prog.get
  let node := fileInode s fp
  let parent ← Prog.attempt (getDentryParent ops (s.files fp).fDentry)
  if (s.inodes node).iIsdir then
    let entry ← (nodeOps ops s node).listDir fp
    let s ← Prog.get
    if (s.dentries entry).dSubdirs ≠ [] then Prog.throw errorNotEmpty
  pure parent

def fsDelete (fp : ℕ) : FsProg ℕ := do
  let s ← Prog.get
  let curfile := (s.files fp).fDentry
  let node := (s.dentries curfile).dInode
  let parent ← checkDelete ops fp
  let s ← Prog.get
  let code ← (nodeOps ops s node).delete node parent (s.dentries curfile).dName
  let error ← tested code
  Prog.modify (·.setFile fp fun f => { f with fDirt := false })
  pure error

end Handles

section Fat32

def allFat32 (env : FsEnv) : ℕ → FsOps := fun _ => fat32Ops env

variable (env : FsEnv)

theorem linkPathWalk_fat32 (path : List ℕ) (n filename : ℕ) (nd : Nameidata) (cur : Qstr) :
    linkPathWalk (allFat32 env) path n filename nd cur =
      Fs.linkPathWalk env path n filename nd cur := by
  induction n generalizing filename nd cur with
  | zero => rfl
  | succ n ih =>
    rw [linkPathWalk, Fs.linkPathWalk]
    refine if_congr Iff.rfl rfl (congrArg (Prog.attempt _ >>= ·) (funext fun r => ?_))
    cases r with
    | error e => rfl
    | ok nd => exact ih _ nd _

theorem createLast_address {ops : ℕ → FsOps} {nd : Nameidata} {name : List ℕ} {isdir : Bool}
    {s t : FsSys} {x : ℕ}
    (h : (ops (s.dentries nd.ndDentry).dSb).createDentry (s.dentries nd.ndDentry).dSb nd.ndDentry
      name isdir s = some (.ok (.address x), t)) : createLast env ops nd name isdir s = none := by
  rw [createLast, Prog.get_bind_run, Prog.bind_ok h]
  cases (EntryPtr.address x).isErrPtr with
  | true => rfl
  | false => cases isdir <;> rfl

theorem createLast_fat32 (nd : Nameidata) (name : List ℕ) (isdir : Bool) :
    createLast env (allFat32 env) nd name isdir = Fs.createLast env nd name isdir := by
  funext s
  rcases hc : createDentryFat32 env (s.dentries nd.ndDentry).dSb nd.ndDentry name isdir s with
    _ | ⟨e | entry, t⟩
  · have hnone : Prog.attempt (createDentryFat32 env (s.dentries nd.ndDentry).dSb nd.ndDentry name
      isdir) s = none := by rw [Prog.attempt, hc]
    rw [createLast, Fs.createLast, Prog.get_bind_run, Prog.get_bind_run]
    exact (Prog.bind_none (Prog.bind_none hnone)).trans
      (Prog.bind_none (Prog.bind_none hnone)).symm
  · have hptr : (allFat32 env (s.dentries nd.ndDentry).dSb).createDentry (s.dentries nd.ndDentry).dSb
        nd.ndDentry name isdir s = some (.ok (.address (errValue e)), t) :=
      Prog.bind_ok (Prog.attempt_run hc)
    rw [createLast_address env hptr, Fs.createLast, Prog.get_bind_run]
    exact (Prog.bind_none (Prog.bind_ok (Prog.attempt_run hc))).symm
  · have hptr : (allFat32 env (s.dentries nd.ndDentry).dSb).createDentry (s.dentries nd.ndDentry).dSb
        nd.ndDentry name isdir s = some (.ok (.entry entry), t) :=
      Prog.bind_ok (Prog.attempt_run hc)
    have hfollow : follow (createDentryFat32 env (s.dentries nd.ndDentry).dSb nd.ndDentry name isdir)
        s = some (.ok entry, t) := Prog.bind_ok (Prog.attempt_run hc)
    have hvalid : ¬ (EntryPtr.entry entry).isErrPtr = true := Bool.false_ne_true
    rw [createLast, Fs.createLast, Prog.get_bind_run, Prog.get_bind_run, Prog.bind_ok hptr,
      Prog.bind_ok hfollow, Prog.get_bind_run, if_neg hvalid]
    simp only [EntryPtr.follow, pure_bind]
    cases isdir with
    | false => simp only [Bool.false_eq_true, if_false]
    | true => simp only [if_true, Prog.get_bind_run]

theorem pathLookup_fat32 (path : List ℕ) (create isdir : Bool) :
    pathLookup env (allFat32 env) path create isdir = Fs.pathLookup env path create isdir := by
  funext s
  rw [pathLookup, Fs.pathLookup, startWalk, Prog.get_bind_run]
  simp only [linkPathWalk_fat32, createLast_fat32, bind_assoc, pure_bind]
  rfl

theorem getDentryParent_fat32 (entry : ℕ) :
    getDentryParent (allFat32 env) entry = Fs.getDentryParent env entry := rfl

theorem dentryOpenFile_fat32 (entry mode : ℕ) :
    dentryOpenFile env (allFat32 env) entry mode = Fs.dentryOpenFile env entry mode := by
  rw [dentryOpenFile, Fs.dentryOpenFile]
  refine congrArg _ (funext fun ret => ?_)
  by_cases happend : hasMode mode fModeAppendMask = true
  · simp only [if_pos happend]
  · by_cases hread : (!hasMode mode fModeReadMask) = true
    · simp only [if_neg happend, if_pos hread, getDentryParent_fat32]
      funext s
      rcases hparent : Fs.getDentryParent env entry s with _ | ⟨e | parent, t⟩
      · have hnone : Prog.attempt (Fs.getDentryParent env entry) s = none := by
          rw [Prog.attempt, hparent]
        exact (Prog.bind_none hnone).trans (Prog.bind_none (Prog.bind_none hnone)).symm
      · have herror := Prog.attempt_run hparent
        exact (Prog.bind_ok herror).trans (Prog.bind_none (Prog.bind_ok herror)).symm
      · have hok := Prog.attempt_run hparent
        refine (Prog.bind_ok hok).trans (Eq.trans ?_ (Prog.bind_ok (Prog.bind_ok hok)).symm)
        rw [Prog.get_bind_run, Prog.get_bind_run]
        exact congrFun (Prog.attempt_discard _ _ _) t
    · simp only [if_neg happend, if_neg hread]

theorem fsOpen_fat32 (path : List ℕ) (mode : ℕ) :
    fsOpen env (allFat32 env) path mode = Fs.fsOpen env path mode := by
  simp only [fsOpen, Fs.fsOpen, pathLookup_fat32, dentryOpenFile_fat32]

theorem expandNode_fat32 (node num : ℕ) :
    expandNode (allFat32 env) node num = expandFat32 env node num >>= fun _ => pure noError := by
  change (expandFat32 env node num >>= fun _ => pure noError) >>= tested = _
  rw [bind_assoc]
  rfl

theorem fileExpandTo_fat32 (fp size : ℕ) :
    fileExpandTo (allFat32 env) fp size = Fs.fileExpandTo env fp size >>= fun _ => pure noError := by
  funext s
  by_cases hsize : size ≤ (s.files fp).fSize
  · simp only [fileExpandTo, Fs.fileExpandTo, bind_assoc, Prog.get_bind_run, if_pos hsize]
    rfl
  · by_cases hexpand : 0 < expandBytes s fp size ∧ expandBytes s fp size < 2 ^ 31
    · simp only [fileExpandTo, Fs.fileExpandTo, bind_assoc, Prog.get_bind_run, if_neg hsize,
        if_pos hexpand, expandNode_fat32, pure_bind]
    · simp only [fileExpandTo, Fs.fileExpandTo, bind_assoc, Prog.get_bind_run, if_neg hsize,
        if_neg hexpand, pure_bind]

theorem fsWrite_fat32 (fp : ℕ) (buf : List ℕ) :
    fsWrite env (allFat32 env) fp buf = Fs.fsWrite env fp buf >>= fun _ => pure noError := by
  funext s
  by_cases hmode : (!hasMode (s.files fp).fMode fModeWriteMask) = true
  · simp only [fsWrite, Fs.fsWrite, bind_assoc, Prog.get_bind_run, if_pos hmode]
    rfl
  · by_cases hgrow : (s.files fp).fSize < ((s.files fp).fPos + buf.length) % uintRange
    · simp only [fsWrite, Fs.fsWrite, bind_assoc, Prog.get_bind_run, if_neg hmode, if_pos hgrow,
        fileExpandTo_fat32, pure_bind]
    · simp only [fsWrite, Fs.fsWrite, bind_assoc, Prog.get_bind_run, if_neg hmode, if_neg hgrow,
        pure_bind]

theorem fsDelete_fat32 (fp : ℕ) :
    fsDelete (allFat32 env) fp = Fs.fsDelete env fp >>= fun _ => pure noError := by
  have hdelete (node curfile : ℕ) (parent : Except ℕ ℕ) : (do
      let s ← Prog.get
      let code ← (nodeOps (allFat32 env) s node).delete node parent (s.dentries curfile).dName
      let error ← tested code
      Prog.modify (·.setFile fp fun f => { f with fDirt := false })
      pure error : FsProg ℕ) = (do
      let s ← Prog.get
      let p ← follow (Prog.ofExcept parent)
      deleteFat32 env node p (s.dentries curfile).dName
      Prog.modify (·.setFile fp fun f => { f with fDirt := false }) : FsProg Unit) >>= fun _ =>
        pure noError := by
    funext s
    rw [bind_assoc, Prog.get_bind_run, Prog.get_bind_run]
    change ((follow (Prog.ofExcept parent) >>= fun p => deleteFat32 env node p _ >>= fun _ =>
      pure noError) >>= _) s = _
    simp only [bind_assoc, pure_bind]
    rfl
  funext s
  have hnode : fileInode s fp = (s.dentries (s.files fp).fDentry).dInode := rfl
  simp only [fsDelete, checkDelete, Fs.fsDelete, bind_assoc, Prog.get_bind_run, hnode,
    getDentryParent_fat32]
  refine congrFun (congrArg (Prog.attempt _ >>= ·) (funext fun parent => ?_)) s
  by_cases hdir : (s.inodes (s.dentries (s.files fp).fDentry).dInode).iIsdir = true
  · simp only [if_pos hdir, bind_assoc]
    refine congrArg (listDirFat32 env fp >>= ·) (funext fun entry => ?_)
    funext u
    rw [Prog.get_bind_run, Prog.get_bind_run]
    by_cases hempty : (u.dentries entry).dSubdirs ≠ []
    · simp only [if_pos hempty]
      rfl
    · simp only [if_neg hempty, pure_bind]
      exact congrFun (hdelete _ _ parent) u
  · simp only [if_neg hdir, pure_bind]
    exact hdelete _ _ parent

end Fat32

end Vfs

end OurOS.Fs
