import OurOS.Fs.EvolveDir
import OurOS.Fs.PathCreate
import OurOS.Usr.Command

namespace OurOS.Usr

open Fs

def pwdBufSize : ℤ := 500

def homePath : List ℕ := nameOf "/home"

/-- `mem` is the memory around `pwd_buffer`, by the distance from its first byte, `pwdPath` the place
to which `pwd_path` points, and `stores` the places that the last `cd` has written. -/
structure PwdText where
  mem : ℤ → ℕ
  pwdPath : ℤ
  stores : List ℤ

def decAndPut (c : ℕ) (p : PwdText) : PwdText where
  mem := Function.update p.mem (p.pwdPath - 1) c
  pwdPath := p.pwdPath - 1
  stores := (p.pwdPath - 1) :: p.stores

/-- From the last byte of the name to the first. -/
def putName (name : List ℕ) (p : PwdText) : PwdText := name.foldr decAndPut p

def cdTarget (dirname : Option (List ℕ)) : List ℕ :=
  match dirname with
  | none => homePath
  | some name => if name = [] ∨ name = nameOf "~" then homePath else name

/-- `pwd_path` at the end of the buffer, with the zero byte put. -/
def startText (p : PwdText) : PwdText := decAndPut 0 { p with pwdPath := pwdBufSize, stores := [] }

def setPwdDentry (entry : ℕ) (s : FsSys) : FsSys := { s with pwdDentry := entry }

section Cd

variable (env : FsEnv)

/-- The loop stops at the root only. An error pointer in place of a parent is followed. -/
def climbPath : ℕ → ℕ → PwdText → FsProg PwdText
  | 0, _, _ => Prog.stuck
  | n + 1, entry, p => do
    let s ← Prog.get
    if entry = s.rootDentry then pure p
    else
      let p := decAndPut slash (putName (s.dentries entry).dName p)
      let parent ← follow (getDentryParent env entry)
      climbPath n parent p

/-- The code of the error that is printed is returned, if there is one. -/
def cd (n : ℕ) (dirname : Option (List ℕ)) (p : PwdText) : FsProg (Option ℕ × PwdText) := do
  match ← Prog.attempt (fsOpen env (cdTarget dirname) fModeRead) with
  | .error e => pure (some e, p)
  | .ok dir =>
    Prog.modify fun s => setPwdDentry (s.files dir).fDentry s
    let s ← Prog.get
    if s.pwdDentry = s.rootDentry then pure (none, decAndPut slash (startText p))
    else
      let p ← climbPath env n s.pwdDentry (startText p)
      let _ ← Prog.attempt (fsClose env dir)
      pure (none, p)

end Cd

/-- What can stand in a path for an entry of that name. -/
structure IsComponent (name : List ℕ) : Prop where
  ne_nil : name ≠ []
  noSlash : slash ∉ name
  noZero : 0 ∉ name
  noBlank : isBlank (name.headD 0) = false
  notDot : name ≠ dotName
  notDotdot : name ≠ dotdotName

/-- The dentries from the root down to an entry, each of them the one that the cache holds for its
name in the directory before it, and their names. -/
inductive DirPath (s : FsSys) : ℕ → List (List ℕ) → Prop
  | root : DirPath s s.rootDentry []
  | entry {d p : ℕ} {names : List (List ℕ)} (parent : DirPath s p names)
      (ne_root : d ≠ s.rootDentry)
      (isdir : (s.inodes (s.dentries p).dInode).iIsdir = true)
      (cached : lookupDCache s p (s.dentries d).dName = some d)
      (mounted : (s.dentries d).dMounted = false)
      (name : IsComponent (s.dentries d).dName) :
      DirPath s d (names ++ [(s.dentries d).dName])

def slashNames (names : List (List ℕ)) : List ℕ := names.flatMap (slash :: ·)

def absolutePath (names : List (List ℕ)) : List ℕ := if names = [] then [slash] else slashNames names

/-- The current directory is the entry under the root by these names, and `pwd_path` is its path. -/
structure PathKept (env : FsEnv) (p : PwdText) (s : FsSys) (names : List (List ℕ)) : Prop where
  inside : ∀ i ∈ p.stores, 0 ≤ i ∧ i < pwdBufSize
  text : ∀ i ≤ (absolutePath names).length, p.mem (p.pwdPath + i) = charAt (absolutePath names) i
  resolves : ∃ nd t, pathLookup env (absolutePath names) false false s = some (.ok nd, t) ∧
    nd.ndDentry = s.pwdDentry

section Text

variable {p : PwdText}

@[simp] theorem decAndPut_mem (c : ℕ) (p : PwdText) :
    (decAndPut c p).mem = Function.update p.mem (p.pwdPath - 1) c := rfl

@[simp] theorem decAndPut_pwdPath (c : ℕ) (p : PwdText) :
    (decAndPut c p).pwdPath = p.pwdPath - 1 := rfl

@[simp] theorem decAndPut_stores (c : ℕ) (p : PwdText) :
    (decAndPut c p).stores = (p.pwdPath - 1) :: p.stores := rfl

theorem puts_pwdPath (bytes : List ℕ) (p : PwdText) :
    (bytes.foldr decAndPut p).pwdPath = p.pwdPath - bytes.length := by
  induction bytes with
  | nil => simp
  | cons c bytes ih =>
    rw [List.foldr_cons, decAndPut_pwdPath, ih, List.length_cons]
    omega

theorem mem_puts_stores (bytes : List ℕ) (p : PwdText) (i : ℤ) :
    i ∈ (bytes.foldr decAndPut p).stores ↔
      i ∈ p.stores ∨ p.pwdPath - bytes.length ≤ i ∧ i < p.pwdPath := by
  induction bytes with
  | nil => simp
  | cons c bytes ih =>
    rw [List.foldr_cons, decAndPut_stores, List.mem_cons, ih, puts_pwdPath, List.length_cons]
    constructor
    · rintro (h | h | h)
      · exact .inr (by omega)
      · exact .inl h
      · exact .inr (by omega)
    · rintro (h | h)
      · exact .inr (.inl h)
      · by_cases e : i = p.pwdPath - bytes.length - 1
        · exact .inl e
        · exact .inr (.inr (by omega))

theorem puts_mem_above (bytes : List ℕ) (p : PwdText) {i : ℤ} (hi : p.pwdPath ≤ i) :
    (bytes.foldr decAndPut p).mem i = p.mem i := by
  induction bytes with
  | nil => rfl
  | cons c bytes ih =>
    have hne : i ≠ (bytes.foldr decAndPut p).pwdPath - 1 := by
      rw [puts_pwdPath]
      omega
    rw [List.foldr_cons, decAndPut_mem, Function.update_of_ne hne, ih]

theorem puts_mem (bytes : List ℕ) (p : PwdText) {i : ℕ} (hi : i < bytes.length) :
    (bytes.foldr decAndPut p).mem (p.pwdPath - bytes.length + i) = charAt bytes i := by
  induction bytes generalizing i with
  | nil => simp at hi
  | cons c bytes ih =>
    rw [List.foldr_cons, decAndPut_mem, puts_pwdPath, List.length_cons]
    cases i with
    | zero =>
      have he : p.pwdPath - ((bytes.length + 1 : ℕ) : ℤ) + (0 : ℕ) =
          p.pwdPath - bytes.length - 1 := by omega
      rw [he, Function.update_self]
      rfl
    | succ i =>
      have he : p.pwdPath - ((bytes.length + 1 : ℕ) : ℤ) + ((i + 1 : ℕ) : ℤ) =
          p.pwdPath - bytes.length + i := by omega
      rw [he, Function.update_of_ne (by omega), ih (Nat.lt_of_succ_lt_succ hi)]
      rfl

theorem startText_zero (p : PwdText) : (startText p).mem (startText p).pwdPath = 0 := by
  rw [startText, decAndPut_mem, decAndPut_pwdPath, Function.update_self]

end Text

/-- A path walk changes no more than this. -/
structure SamePaths (s t : FsSys) : Prop where
  root : t.rootDentry = s.rootDentry
  dentry : ∀ d, t.dentries d = { s.dentries d with dCount := (t.dentries d).dCount }
  inodes : t.inodes = s.inodes
  hash : t.dCache.hash = s.dCache.hash

namespace SamePaths

variable {s t u : FsSys}

theorem refl (s : FsSys) : SamePaths s s := ⟨rfl, fun _ => rfl, rfl, rfl⟩

theorem trans (h₁ : SamePaths s t) (h₂ : SamePaths t u) : SamePaths s u :=
  ⟨h₂.root.trans h₁.root, fun d => by rw [h₂.dentry, h₁.dentry],
    h₂.inodes.trans h₁.inodes, h₂.hash.trans h₁.hash⟩

theorem count (d : ℕ) (g : BitVec 32 → BitVec 32) (s : FsSys) : SamePaths s
    { s.setDentry d fun x => { x with dCount := g x.dCount } with dCache := s.dCache.touch d } := by
  refine ⟨rfl, fun e => ?_, rfl, rfl⟩
  by_cases he : e = d
  · subst he
    simp [FsSys.setDentry]
  · simp [FsSys.setDentry, he]

theorem lookup (h : SamePaths s t) (dir : ℕ) (name : List ℕ) :
    lookupDCache t dir name = lookupDCache s dir name := by
  have hparent : ∀ e, (t.dentries e).dParent = (s.dentries e).dParent := fun e => by rw [h.dentry]
  have hname : ∀ e, (t.dentries e).dName = (s.dentries e).dName := fun e => by rw [h.dentry]
  simp only [lookupDCache, h.hash, hparent, hname]

theorem dirPath (h : SamePaths s t) {d : ℕ} {names : List (List ℕ)} (hd : DirPath s d names) :
    DirPath t d names := by
  have hdentry : ∀ e, (t.dentries e).dName = (s.dentries e).dName ∧
      (t.dentries e).dInode = (s.dentries e).dInode ∧
      (t.dentries e).dMounted = (s.dentries e).dMounted := by
    intro e
    rw [h.dentry]
    exact ⟨rfl, rfl, rfl⟩
  induction hd with
  | root => exact h.root ▸ .root
  | @entry d p names _ ne_root isdir cached mounted name ih =>
    rw [← (hdentry d).1] at cached name ⊢
    refine .entry ih (h.root ▸ ne_root) ?_ ((h.lookup _ _).trans cached)
      ((hdentry d).2.2.trans mounted) name
    rw [h.inodes, (hdentry p).2.1]
    exact isdir

end SamePaths

theorem components_name {name : List ℕ} (h : IsComponent name) {rest : List ℕ}
    (hrest : rest = [] ∨ ∃ more, rest = slash :: more) :
    components (slash :: name ++ rest) = name :: components rest := by
  obtain ⟨c, cs, rfl⟩ := List.exists_cons_of_ne_nil h.ne_nil
  have hc : c ≠ slash := fun e => h.noSlash (e ▸ List.mem_cons_self)
  have hcs : ∀ x ∈ cs, decide (x ≠ slash) = true := by
    intro x hx
    have hne : x ≠ slash := fun e => h.noSlash (e ▸ List.mem_cons_of_mem c hx)
    simpa using hne
  have hstop : rest.takeWhile (· ≠ slash) = [] ∧ rest.dropWhile (· ≠ slash) = rest := by
    rcases hrest with rfl | ⟨more, rfl⟩ <;> simp
  rw [List.cons_append, components_slash, List.cons_append, components_cons hc h.noBlank,
    List.takeWhile_append_of_pos hcs, List.dropWhile_append_of_pos hcs, hstop.1, hstop.2,
    List.append_nil]

theorem components_slashNames {names : List (List ℕ)} (h : ∀ name ∈ names, IsComponent name) :
    components (slashNames names) = names := by
  induction names with
  | nil => decide
  | cons name names ih =>
    obtain ⟨hname, hnames⟩ := List.forall_mem_cons.mp h
    have hrest : slashNames names = [] ∨ ∃ more, slashNames names = slash :: more := by
      cases names with
      | nil => exact .inl rfl
      | cons name names => exact .inr ⟨name ++ slashNames names, rfl⟩
    have hsplit := components_name hname hrest
    rw [ih hnames] at hsplit
    exact hsplit

theorem components_absolutePath {names : List (List ℕ)} (h : ∀ name ∈ names, IsComponent name) :
    components (absolutePath names) = names := by
  rw [absolutePath]
  split_ifs with he
  · rw [he]
    decide
  · exact components_slashNames h

theorem absolutePath_noZero {names : List (List ℕ)} (h : ∀ name ∈ names, IsComponent name) :
    0 ∉ absolutePath names := by
  rw [absolutePath]
  split_ifs
  · decide
  · intro hm
    obtain ⟨name, hname, hm⟩ := List.mem_flatMap.mp hm
    rcases List.mem_cons.mp hm with he | hm
    · exact absurd he (by decide)
    · exact (h name hname).noZero hm

theorem absolutePath_head (names : List (List ℕ)) : charAt (absolutePath names) 0 = slash := by
  cases names <;> rfl

theorem DirPath.names {s : FsSys} {d : ℕ} {names : List (List ℕ)} (h : DirPath s d names) :
    ∀ name ∈ names, IsComponent name := by
  induction h with
  | root => exact fun name hm => absurd hm List.not_mem_nil
  | entry _ _ _ _ _ name ih =>
    intro other hm
    rcases List.mem_append.mp hm with hm | hm
    · exact ih other hm
    · exact List.mem_singleton.mp hm ▸ name

theorem DirPath.parent_eq {s : FsSys} {d p : ℕ} {name : List ℕ}
    (h : lookupDCache s p name = some d) : (s.dentries d).dParent = some p := by
  have hfound := List.find?_some h
  simp only [Bool.and_eq_true, beq_iff_eq] at hfound
  exact hfound.1

section Resolve

variable (env : FsEnv) {s t : FsSys} {nd nd' : Nameidata}

theorem walkComponents_append {as : List (List ℕ)} (bs : List (List ℕ))
    (h : walkComponents env as nd s = some (.ok (none, nd'), t)) :
    walkComponents env (as ++ bs) nd s = walkComponents env bs nd' t := by
  induction as generalizing nd s with
  | nil =>
    cases h
    rfl
  | cons name as ih =>
    rw [walkComponents] at h
    rw [List.cons_append, walkComponents]
    obtain ⟨r, u, hstep, h⟩ := Prog.bind_ok_cases h
    rw [Prog.bind_ok hstep]
    cases r with
    | error e => cases h
    | ok nd₁ => exact ih h

theorem doLookup_cached (nd : Nameidata) {d : ℕ}
    (hdir : (s.inodes (s.dentries nd.ndDentry).dInode).iIsdir = true)
    (hd : lookupDCache s nd.ndDentry nd.ndCurName = some d)
    (hmount : (s.dentries d).dMounted = false) :
    doLookup env nd s = some (.ok { nd with ndDentry := d }, dIncCount d (dDecCount nd.ndDentry s)) := by
  have hfollow : ∀ n, followMounts (n + 1) d nd.ndMnt s = some (.ok (d, nd.ndMnt), s) := by
    intro n
    rw [followMounts, Prog.get_bind_run, hmount]
    rfl
  obtain ⟨n, hn⟩ := Nat.exists_eq_succ_of_ne_zero (show uintRange ≠ 0 by decide)
  have hfind : findEntry env nd s = some (.ok d, s) := by
    rw [findEntry, Prog.get_bind_run, hd]
    rfl
  rw [doLookup, Prog.get_bind_run, hdir, hn, Nat.succ_eq_add_one]
  simp only [Bool.not_true, Bool.false_eq_true, if_false]
  rw [Prog.bind_ok hfind, Prog.bind_ok (hfollow n)]
  rfl

theorem DirPath.walks {d : ℕ} {names : List (List ℕ)} (h : DirPath s d names)
    (hnd : nd.ndDentry = s.rootDentry) : ∃ nd' t,
      walkComponents env names nd s = some (.ok (none, nd'), t) ∧ nd'.ndDentry = d ∧
        SamePaths s t := by
  induction h with
  | root => exact ⟨nd, s, rfl, hnd, .refl s⟩
  | @entry d p names parent ne_root isdir cached mounted name ih =>
    obtain ⟨nd', t, hwalk, rfl, hsame⟩ := ih
    have hd : (t.dentries d).dMounted = false := by
      rw [hsame.dentry]
      exact mounted
    have hdir : (t.inodes (t.dentries nd'.ndDentry).dInode).iIsdir = true := by
      rw [hsame.inodes, hsame.dentry]
      exact isdir
    have hstep := doLookup_cached env { nd' with ndCurName := (s.dentries d).dName } hdir
      ((hsame.lookup _ _).trans cached) hd
    refine ⟨{ nd' with ndDentry := d, ndCurName := (s.dentries d).dName }, _, ?_, rfl,
      hsame.trans ((SamePaths.count nd'.ndDentry (· - 1) t).trans (.count d (· + 1) _))⟩
    rw [walkComponents_append env _ hwalk, walkComponents, processComponent, if_neg name.notDot,
      if_neg name.notDotdot, Prog.bind_ok (Prog.attempt_run hstep)]
    rfl

theorem DirPath.resolves {d : ℕ} {names : List (List ℕ)} (h : DirPath s d names)
    (hlen : (absolutePath names).length < uintRange) : ∃ nd t,
      pathLookup env (absolutePath names) false false s = some (.ok nd, t) ∧ nd.ndDentry = d := by
  have hroot : SamePaths s (dIncCount s.rootDentry s) := .count s.rootDentry (· + 1) s
  have hstart : (⟨s.rootDentry, (s.dentries s.rootDentry).dSb, []⟩ : Nameidata).ndDentry =
      (dIncCount s.rootDentry s).rootDentry := rfl
  obtain ⟨nd, t, hwalk, hd, -⟩ := (hroot.dirPath h).walks env hstart
  have hcomps := (linkPathWalk_components env (absolutePath_noZero h.names) hlen
    ⟨s.rootDentry, (s.dentries s.rootDentry).dSb, []⟩ ⟨0, 0⟩ (dIncCount s.rootDentry s)).walk
  rw [components_absolutePath h.names, hwalk] at hcomps
  obtain ⟨r, u, hlink, hr⟩ := Prog.bind_ok_cases hcomps
  obtain ⟨⟨herr, rfl⟩, rfl⟩ : (r.error = none ∧ r.nd = nd) ∧ u = t := by
    simpa using hr
  refine ⟨r.nd, dDecCount s.rootDentry u, ?_, hd⟩
  rw [pathLookup, Prog.get_bind_run, absolutePath_head, if_pos rfl, Prog.modify_bind_run,
    Prog.bind_ok hlink, createsEntry, Bool.and_false, Bool.false_and, if_neg (by decide),
    Prog.modify_bind_run, herr]
  rfl

end Resolve

section Run

variable {env : FsEnv} {s t : FsSys}

theorem DirPath.climbs {d : ℕ} {names : List (List ℕ)} (h : DirPath s d names) {n : ℕ}
    (hn : names.length < n) (p : PwdText) :
    climbPath env n d p s = some (.ok ((slashNames names).foldr decAndPut p), s) := by
  induction h generalizing n p with
  | root =>
    obtain ⟨n, rfl⟩ := Nat.exists_eq_succ_of_ne_zero (Nat.ne_zero_of_lt hn)
    rw [climbPath, Prog.get_bind_run, if_pos rfl]
    rfl
  | @entry d q names _ ne_root isdir cached mounted name ih =>
    obtain ⟨n, rfl⟩ := Nat.exists_eq_succ_of_ne_zero (Nat.ne_zero_of_lt hn)
    rw [List.length_append, List.length_singleton] at hn
    have hget : getDentryParent env d s = some (.ok q, s) := by
      rw [getDentryParent, Prog.get_bind_run, DirPath.parent_eq cached]
      rfl
    have hparent : follow (getDentryParent env d) s = some (.ok q, s) := by
      rw [follow, Prog.bind_ok (Prog.attempt_run hget)]
      rfl
    have hput : (slashNames (names ++ [(s.dentries d).dName])).foldr decAndPut p =
        (slashNames names).foldr decAndPut
          (decAndPut slash (putName (s.dentries d).dName p)) := by
      simp only [slashNames, List.flatMap_append, List.flatMap_singleton, List.foldr_append,
        List.foldr_cons, putName]
    rw [climbPath, Prog.get_bind_run, if_neg ne_root, Prog.bind_ok hparent,
      ih (Nat.lt_of_succ_lt_succ hn), hput]

theorem climb_of_climbPath {n entry : ℕ} {p p' : PwdText}
    (h : climbPath env n entry p s = some (.ok p', t)) :
    climb env n entry s = some (.ok t.rootDentry, t) := by
  induction n generalizing entry p s with
  | zero => cases h
  | succ n ih =>
    rw [climbPath, Prog.get_bind_run] at h
    rw [climb, Prog.get_bind_run]
    split_ifs at h ⊢ with hroot
    · cases h
      exact hroot ▸ rfl
    · obtain ⟨parent, u, hfollow, h⟩ := Prog.bind_ok_cases h
      obtain ⟨_, hr, hget⟩ := follow_cases hfollow
      cases hr
      rw [Prog.bind_ok hget]
      exact ih h

theorem fsOpen_read {path : List ℕ} {fp : ℕ} (h : fsOpen env path fModeRead s = some (.ok fp, t)) :
    (t.files fp).fDirt = false := by
  obtain ⟨nd, u, -, h⟩ := Prog.bind_ok_cases h
  obtain ⟨ret, v, hopen, h⟩ := Prog.bind_ok_cases h
  rw [if_neg (by decide), if_neg (by decide)] at h
  cases h
  rcases openHandle_cases hopen with ⟨hr, -⟩ | ⟨hr, rfl⟩
  · cases hr
  · cases hr
    simp [FsSys.setFile, newFile]

theorem fsClose_clean {fp : ℕ} (h : (s.files fp).fDirt = false) :
    fsClose env fp s = some (.ok (), releaseFile fp s) := by
  rw [fsClose, Prog.get_bind_run, h]
  rfl

theorem SamePaths.release (fp : ℕ) (s : FsSys) : SamePaths s (releaseFile fp s) := by
  have hcount : SamePaths s (dDecCount (s.files fp).fDentry s) := .count _ (· - 1) s
  exact hcount.trans ⟨rfl, fun _ => rfl, rfl, rfl⟩

theorem DirPath.root_iff {d : ℕ} {names : List (List ℕ)} (h : DirPath s d names) :
    d = s.rootDentry ↔ names = [] := by
  cases h with
  | root => exact iff_of_true rfl rfl
  | entry _ ne_root => exact iff_of_false ne_root (by simp)

theorem cd_run {dirname : Option (List ℕ)} {fp : ℕ} {names : List (List ℕ)}
    (hopen : fsOpen env (cdTarget dirname) fModeRead s = some (.ok fp, t))
    (htree : DirPath t (t.files fp).fDentry names) {n : ℕ} (hn : names.length < n) (p : PwdText) :
    ∃ u, cd env n dirname p s =
        some (.ok (none, (absolutePath names).foldr decAndPut (startText p)), u) ∧
      u.pwdDentry = (t.files fp).fDentry ∧ DirPath u (t.files fp).fDentry names := by
  have hset : SamePaths t (setPwdDentry (t.files fp).fDentry t) := ⟨rfl, fun _ => rfl, rfl, rfl⟩
  have hclean := fsOpen_read hopen
  have hfile : ((setPwdDentry (t.files fp).fDentry t).files fp).fDirt = false := hclean
  have hcur : (setPwdDentry (t.files fp).fDentry t).pwdDentry = (t.files fp).fDentry := rfl
  rw [cd, Prog.bind_ok (Prog.attempt_run hopen)]
  dsimp only
  rw [Prog.modify_bind_run, Prog.get_bind_run]
  generalize setPwdDentry (t.files fp).fDentry t = u at hset hfile hcur ⊢
  have hpath := hset.dirPath htree
  rw [← hcur] at hpath ⊢
  by_cases hroot : u.pwdDentry = u.rootDentry
  · obtain rfl := hpath.root_iff.mp hroot
    refine ⟨u, ?_, rfl, hpath⟩
    rw [if_pos hroot]
    rfl
  · have habs : absolutePath names = slashNames names := if_neg (mt hpath.root_iff.mpr hroot)
    refine ⟨releaseFile fp u, ?_, rfl, (SamePaths.release fp u).dirPath hpath⟩
    rw [if_neg hroot, Prog.bind_ok (hpath.climbs hn _),
      Prog.bind_ok (Prog.attempt_run (fsClose_clean hfile)), habs]
    rfl

theorem pathKept_iff {names : List (List ℕ)} {p : PwdText} (h : DirPath s s.pwdDentry names) :
    PathKept env ((absolutePath names).foldr decAndPut (startText p)) s names ↔
      ((absolutePath names).length : ℤ) < pwdBufSize := by
  set bytes := absolutePath names
  have hstart : (startText p).pwdPath = pwdBufSize - 1 := rfl
  have hstores : ∀ i, i ∈ (bytes.foldr decAndPut (startText p)).stores ↔
      i = pwdBufSize - 1 ∨ pwdBufSize - 1 - bytes.length ≤ i ∧ i < pwdBufSize - 1 := by
    intro i
    rw [mem_puts_stores, hstart, startText, decAndPut_stores, List.mem_singleton]
  constructor
  · intro hk
    by_contra hlen
    have hlow := (hk.inside (pwdBufSize - 1 - bytes.length) ((hstores _).mpr (.inr ?_))).1
    · omega
    · have hpos : (0 : ℤ) < pwdBufSize := by decide
      omega
  · intro hlen
    refine ⟨fun i hi => ?_, fun i hi => ?_, ?_⟩
    · have hpos : (0 : ℤ) < pwdBufSize := by decide
      have := (hstores i).mp hi
      omega
    · rw [puts_pwdPath]
      rcases Nat.lt_or_eq_of_le hi with hlt | rfl
      · exact puts_mem bytes _ hlt
      · rw [Int.sub_add_cancel, puts_mem_above _ _ le_rfl, charAt,
          List.getD_eq_default _ _ le_rfl]
        exact startText_zero p
    · have hbound : bytes.length < uintRange := by
        simp only [pwdBufSize, uintRange] at hlen ⊢
        omega
      exact h.resolves env hbound

end Run

theorem cd_path_iff (env : FsEnv) {s t : FsSys} {dirname : Option (List ℕ)} {fp : ℕ}
    {names : List (List ℕ)}
    (hopen : fsOpen env (cdTarget dirname) fModeRead s = some (.ok fp, t))
    (htree : DirPath t (t.files fp).fDentry names) {n : ℕ} (hn : names.length < n) (p : PwdText) :
    ∃ p' u, cd env n dirname p s = some (.ok (none, p'), u) ∧
      u.pwdDentry = (t.files fp).fDentry ∧
      (PathKept env p' u names ↔ ((absolutePath names).length : ℤ) < pwdBufSize) := by
  obtain ⟨u, hrun, hpwd, hpath⟩ := cd_run hopen htree hn p
  exact ⟨_, u, hrun, hpwd, pathKept_iff (hpwd.symm ▸ hpath)⟩

section Small

/-- A directory in the root, one in it, and so on, all of one name. -/
def chainTree (name : List ℕ) (depth pwd : ℕ) : FsSys :=
  { blankSys with
    brk := 100
    pwdDentry := pwd
    inodes := fun n => ⟨n, 1, 0, 1, true, true, [], [], 0⟩
    dentries := fun d =>
      if d = 0 then ⟨0, true, false, [], 0, 0, some 0, [slash]⟩
      else ⟨0, false, false, [], 0, d, some (d - 1), name⟩
    dCache := ⟨depth, [], fun b => if b = hashString name then (List.range depth).map (· + 1) else []⟩ }

def chainOf (s : FsSys) (name : List ℕ) (depth : ℕ) : Bool :=
  s.rootDentry == 0 && (List.range depth).all fun d =>
    (s.inodes (s.dentries d).dInode).iIsdir && lookupDCache s d name == some (d + 1) &&
      !(s.dentries (d + 1)).dMounted && (s.dentries (d + 1)).dName == name

theorem dirPath_of_chainOf {s : FsSys} {name : List ℕ} (hname : IsComponent name) {depth : ℕ}
    (h : chainOf s name depth = true) : DirPath s depth (List.replicate depth name) := by
  simp only [chainOf, Bool.and_eq_true, List.all_eq_true, List.mem_range, beq_iff_eq,
    Bool.not_eq_true'] at h
  obtain ⟨hroot, hlinks⟩ := h
  induction depth with
  | zero =>
    have hstart : DirPath s s.rootDentry [] := .root
    rwa [hroot] at hstart
  | succ d ih =>
    obtain ⟨⟨⟨hdir, hcached⟩, hmount⟩, hd⟩ := hlinks d (Nat.lt_succ_self d)
    rw [List.replicate_succ']
    rw [← hd] at hcached hname ⊢
    exact .entry (hd.symm ▸ ih fun e he => hlinks e (Nat.lt_succ_of_lt he))
      (hroot ▸ Nat.succ_ne_zero d) hdir hcached hmount hname

def opensChain (s : FsSys) (dirname : Option (List ℕ)) (name : List ℕ) (depth : ℕ) : Bool :=
  (fsOpen soundEnv (cdTarget dirname) fModeRead s).any fun out =>
    match out.1 with
    | .ok fp => (out.2.files fp).fDentry == depth && chainOf out.2 name depth
    | .error _ => false

theorem opensChain_cases {s : FsSys} {dirname : Option (List ℕ)} {name : List ℕ} {depth : ℕ}
    (hname : IsComponent name) (h : opensChain s dirname name depth = true) : ∃ fp t,
      fsOpen soundEnv (cdTarget dirname) fModeRead s = some (.ok fp, t) ∧
        DirPath t (t.files fp).fDentry (List.replicate depth name) := by
  obtain ⟨⟨r, t⟩, hrun, hfacts⟩ := (Option.any_eq_true _ _).mp h
  cases r with
  | error e => cases hfacts
  | ok fp =>
    obtain ⟨hd, hchain⟩ := Bool.and_eq_true_iff.mp hfacts
    exact ⟨fp, t, hrun, (beq_iff_eq.mp hd).symm ▸ dirPath_of_chainOf hname hchain⟩

theorem cd_path_small : ∃ n p p' u, cd soundEnv n none p (chainTree (nameOf "home") 1 0) =
    some (.ok (none, p'), u) ∧ PathKept soundEnv p' u [nameOf "home"] := by
  have hname : IsComponent (nameOf "home") := by
    constructor <;> decide
  have hopens : opensChain (chainTree (nameOf "home") 1 0) none (nameOf "home") 1 = true := by
    decide +kernel
  obtain ⟨fp, t, hopen, htree⟩ := opensChain_cases hname hopens
  have hfits : ((absolutePath [nameOf "home"]).length : ℤ) < pwdBufSize := by decide
  obtain ⟨p', u, hrun, -, hiff⟩ := cd_path_iff soundEnv hopen htree (Nat.lt_succ_self 1)
    ⟨fun _ => 0, 0, []⟩
  exact ⟨2, _, p', u, hrun, hiff.mpr hfits⟩

def storesAt (i : ℤ) : Except ℕ (Option ℕ × PwdText) → Bool
  | .ok (none, p) => p.stores.contains i
  | _ => false

theorem storesAt_cases {i : ℤ} {r : Except ℕ (Option ℕ × PwdText)} (h : storesAt i r = true) :
    ∃ p, r = .ok (none, p) ∧ i ∈ p.stores := by
  rcases r with e | ⟨_ | n, p⟩
  · cases h
  · exact ⟨p, rfl, List.contains_iff_mem.mp h⟩
  · cases h

def longName : List ℕ := nameOf "abcdefgh.dir"

/-- The path of the directory at depth 38 has 494 bytes, that of the one in it has 507. -/
theorem cd_overflows : ¬ ∀ (env : FsEnv) (s t u : FsSys) (dirname : Option (List ℕ)) (fp n : ℕ)
    (names : List (List ℕ)) (p p' : PwdText),
      fsOpen env (cdTarget dirname) fModeRead s = some (.ok fp, t) →
      DirPath t (t.files fp).fDentry names →
      cd env n dirname p s = some (.ok (none, p'), u) → PathKept env p' u names := by
  intro h
  have hname : IsComponent longName := by
    constructor <;> decide
  have hopens : opensChain (chainTree longName 39 38) (some longName) longName 39 = true := by
    decide +kernel
  obtain ⟨fp, t, hopen, htree⟩ := opensChain_cases hname hopens
  have hrun : (cd soundEnv 40 (some longName) ⟨fun _ => 0, 0, []⟩ (chainTree longName 39 38)).any
      (fun out => storesAt (-8) out.1) = true := by
    decide +kernel
  obtain ⟨⟨r, u⟩, hcd, hfacts⟩ := (Option.any_eq_true _ _).mp hrun
  obtain ⟨p', rfl, hstored⟩ := storesAt_cases hfacts
  have hkept := h _ _ _ _ _ _ _ _ _ _ hopen htree hcd
  exact absurd (hkept.inside _ hstored).1 (by decide)

end Small

end OurOS.Usr
