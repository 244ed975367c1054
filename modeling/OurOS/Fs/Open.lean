import OurOS.Fs.Directory

namespace OurOS.Fs

/-- The state of a path walk; a mount record is named by its super block. -/
structure Nameidata where
  ndDentry : ℕ
  ndMnt : ℕ
  ndCurName : List ℕ
deriving DecidableEq, Repr

section Walk

variable (env : FsEnv)

/-- Mount points are followed until an entry is none; the loop does not stop by itself. -/
def followMounts : ℕ → ℕ → ℕ → FsProg (ℕ × ℕ)
  | 0, _, _ => Prog.stuck
  | n + 1, entry, mnt => do
    let s ← Prog.get
    if (s.dentries entry).dMounted then
      match s.sbList.find? fun sb =>
          (s.sbs sb).mntMntpoint == some entry && (s.sbs sb).mntParent == some mnt with
      | some sb => followMounts n (s.sbs sb).sRoot sb
      | none => Prog.throw errorVfsmount
    else pure (entry, mnt)

def moveTo (nd : Nameidata) (entry mnt : ℕ) : FsProg Nameidata := do
  Prog.modify (dDecCount nd.ndDentry)
  Prog.modify (dIncCount entry)
  pure { nd with ndDentry := entry, ndMnt := mnt }

def findEntry (nd : Nameidata) : FsProg ℕ := do
  let s ← Prog.get
  match lookupDCache s nd.ndDentry nd.ndCurName with
  | some entry => pure entry
  | none => lookupFat32 env nd.ndDentry nd.ndCurName

def doLookup (nd : Nameidata) : FsProg Nameidata := do
  let s ← Prog.get
  if !(s.inodes (s.dentries nd.ndDentry).dInode).iIsdir then Prog.throw errorNotDir
  else
    let entry ← findEntry env nd
    let r ← followMounts uintRange entry nd.ndMnt
    moveTo nd r.1 r.2

/-- From the root of a mounted volume up to its mount point, but not beyond the root. -/
def leaveMounts : ℕ → ℕ → ℕ → FsProg (Option (ℕ × ℕ))
  | 0, _, _ => Prog.stuck
  | n + 1, entry, mnt => do
    let s ← Prog.get
    if (s.sbs (s.dentries entry).dSb).sRoot = entry then
      if entry = s.rootDentry then pure none
      else
        match (s.sbs mnt).mntMntpoint with
        | some point => leaveMounts n point (s.dentries point).dSb
        | none => Prog.stuck
    else pure (some (entry, mnt))

def followDotdot (nd : Nameidata) : FsProg Nameidata := do
  match ← leaveMounts uintRange nd.ndDentry nd.ndMnt with
  | none => pure nd
  | some (entry, mnt) =>
    let parent ← getDentryParent env entry
    moveTo nd parent mnt

/-- The loop of `cd` that puts the path together. -/
def climb : ℕ → ℕ → FsProg ℕ
  | 0, entry => pure entry
  | n + 1, entry => do
    let s ← Prog.get
    if entry = s.rootDentry then pure entry
    else
      let parent ← getDentryParent env entry
      climb n parent

end Walk

end OurOS.Fs
