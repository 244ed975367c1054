import OurOS.Fs.EvolveDir
import OurOS.Lib.Run

namespace OurOS.Fs

/-- `dir` gives the first sector of the directory in which a dentry has been found or made. -/
structure TreeSys where
  sys : FsSys
  dir : ℕ → ℕ

inductive TreeOp
  | hold (entry : ℕ)
  | drop (entry : ℕ)
  | lookup (nd : Nameidata)
  | dotdot (nd : Nameidata)
  | create (sb parent : ℕ) (name : List ℕ) (isdir : Bool)
  | open (entry mode : ℕ)
  | close (fp : ℕ)
  | evictDentries
  | evictInodes
  | evictPages
deriving DecidableEq, Repr

namespace TreeOp

def run (env : FsEnv) : TreeOp → FsProg Unit
  | hold entry => Prog.modify (dIncCount entry)
  | drop entry => Prog.modify (dDecCount entry)
  | lookup nd => do let _ ← doLookup env nd
  | dotdot nd => do let _ ← followDotdot env nd
  | create sb parent name isdir => do let _ ← createDentryFat32 env sb parent name isdir
  | .open entry mode => do let _ ← dentryOpenFile env entry mode
  | close fp => fsClose env fp
  | evictDentries => do let _ ← flushDCache
  | evictInodes => do let _ ← flushICache
  | evictPages => do let _ ← flushPCache env

def operand (s : FsSys) : TreeOp → ℕ
  | hold entry | drop entry | .open entry _ => entry
  | lookup nd | dotdot nd => nd.ndDentry
  | create _ parent _ _ => parent
  | close fp => (s.files fp).fDentry
  | evictDentries | evictInodes | evictPages => s.rootDentry

/-- A path walk does not look up "..", and only a handle is closed. -/
def typed (s : FsSys) : TreeOp → Prop
  | lookup nd => compareFat32 nd.ndCurName dotdotName ≠ 0
  | close fp => fp < s.brk
  | _ => True

instance (s : FsSys) : DecidablePred (typed s) := fun op => by
  cases op <;> simp only [typed] <;> infer_instance

end TreeOp

def dirSector (s : FsSys) (entry : ℕ) : ℕ := (s.inodes (s.dentries entry).dInode).iIno

def treeStep (env : FsEnv) (x : TreeSys) (op : TreeOp) : Option TreeSys :=
  if op.typed x.sys then
    (op.run env x.sys).map fun out =>
      { sys := out.2
        dir := fun d => if d < x.sys.brk then x.dir d else dirSector x.sys (op.operand x.sys) }
  else none

/-- `get_dentry_parent` gives the directory of every cached dentry but the root, and the loop of `cd`
comes to the root. -/
def ParentsFound (env : FsEnv) (x : TreeSys) : Prop :=
  ∀ e, InCache x.sys.dCache e → e ≠ x.sys.rootDentry →
    (∃ p, getDentryParent env e x.sys = some (.ok p, x.sys) ∧ InCache x.sys.dCache p ∧
      InCache x.sys.iCache (x.sys.dentries p).dInode ∧ dirSector x.sys p = x.dir e) ∧
    ∃ n, climb env n e x.sys = some (.ok x.sys.rootDentry, x.sys)

/-- The operand is cached, and a dentry that the step evicts is not the operand and leaves no child
in the cache. -/
def evictsLeaves (env : FsEnv) (x : TreeSys) (op : TreeOp) : Prop :=
  InCache x.sys.dCache (op.operand x.sys) ∧ ∀ y, treeStep env x op = some y →
    ∀ q, InCache x.sys.dCache q → ¬ InCache y.sys.dCache q →
      q ≠ op.operand x.sys ∧ ∀ c ∈ (x.sys.dentries q).dSubdirs, ¬ InCache y.sys.dCache c

structure JustMounted (s : FsSys) : Prop where
  cached : ∀ d, InCache s.dCache d ↔ d = s.rootDentry
  nodup : ∀ b, (s.dCache.hash b).Nodup
  root_lt : s.rootDentry < s.brk
  node : InCache s.iCache (s.dentries s.rootDentry).dInode
  iHash : ∀ n, InCache s.iCache n → n < s.brk
  listed : s.rootDentry ∈ (s.inodes (s.dentries s.rootDentry).dInode).iDentry
  iDentry : ∀ n, ∀ d ∈ (s.inodes n).iDentry, d < s.brk ∧ (s.dentries d).dInode = n
  subdirs : ∀ d, (s.dentries d).dSubdirs = []
  dLru : ∀ d ∈ s.dCache.lru, d < s.brk
  sRoot : ∀ sb, (s.sbs sb).sRoot < s.brk
  parent : (s.dentries s.rootDentry).dParent = some s.rootDentry
  dPinned : (s.dentries s.rootDentry).dPinned = true
  iPinned : (s.inodes (s.dentries s.rootDentry).dInode).iPinned = true

structure TreeInv (x : TreeSys) : Prop where
  sound : SoundLists x.sys
  root : InCache x.sys.dCache x.sys.rootDentry
  rootParent : (x.sys.dentries x.sys.rootDentry).dParent = some x.sys.rootDentry
  dPinned : (x.sys.dentries x.sys.rootDentry).dPinned = true
  iPinned : (x.sys.inodes (x.sys.dentries x.sys.rootDentry).dInode).iPinned = true
  node : ∀ d, InCache x.sys.dCache d → InCache x.sys.iCache (x.sys.dentries d).dInode ∧
    d ∈ (x.sys.inodes (x.sys.dentries d).dInode).iDentry
  iDentry : ∀ n, ∀ d ∈ (x.sys.inodes n).iDentry, d < x.sys.brk ∧ (x.sys.dentries d).dInode = n
  children : ∀ v, ∀ c ∈ (x.sys.dentries v).dSubdirs, InCache x.sys.dCache c →
    (x.sys.dentries c).dParent = some v
  parent : ∀ d, InCache x.sys.dCache d → d ≠ x.sys.rootDentry → ∃ p,
    (x.sys.dentries d).dParent = some p ∧ p < d ∧ InCache x.sys.dCache p ∧
      d ∈ (x.sys.dentries p).dSubdirs ∧ dirSector x.sys p = x.dir d
  notRoot : ∀ d, InCache x.sys.dCache d → d ≠ x.sys.rootDentry →
    (x.sys.sbs (x.sys.dentries d).dSb).sRoot ≠ d

theorem JustMounted.inv {s : FsSys} (h : JustMounted s) (dir : ℕ → ℕ) : TreeInv ⟨s, dir⟩ where
  sound :=
    ⟨h.nodup, fun d hd => (h.cached d).mp hd ▸ h.root_lt, h.iHash,
      fun v c hc => absurd hc (by rw [h.subdirs]; exact List.not_mem_nil), h.dLru, h.sRoot⟩
  root := (h.cached _).mpr rfl
  rootParent := h.parent
  dPinned := h.dPinned
  iPinned := h.iPinned
  node d hd := by
    obtain rfl := (h.cached d).mp hd
    exact ⟨h.node, h.listed⟩
  iDentry := h.iDentry
  children v c hc := absurd hc (by rw [h.subdirs]; exact List.not_mem_nil)
  parent d hd hne := absurd ((h.cached d).mp hd) hne
  notRoot d hd hne := absurd ((h.cached d).mp hd) hne

section Parents

variable {env : FsEnv} {x : TreeSys}

variable (env) in
theorem TreeInv.getParent (h : TreeInv x) {d : ℕ} (hd : InCache x.sys.dCache d) :
    ∃ p, (x.sys.dentries d).dParent = some p ∧ InCache x.sys.dCache p ∧
      getDentryParent env d x.sys = some (.ok p, x.sys) := by
  have hparent : ∃ p, (x.sys.dentries d).dParent = some p ∧ InCache x.sys.dCache p := by
    by_cases hroot : d = x.sys.rootDentry
    · subst hroot
      exact ⟨_, h.rootParent, h.root⟩
    · obtain ⟨p, h1, -, h2, -⟩ := h.parent d hd hroot
      exact ⟨p, h1, h2⟩
  obtain ⟨p, h1, h2⟩ := hparent
  refine ⟨p, h1, h2, ?_⟩
  rw [getDentryParent, Prog.get_bind_run, h1]
  rfl

theorem TreeInv.climbs (h : TreeInv x) (d : ℕ) (hd : InCache x.sys.dCache d) :
    ∃ n, climb env n d x.sys = some (.ok x.sys.rootDentry, x.sys) := by
  induction d using Nat.strong_induction_on with
  | _ d ih =>
    by_cases hroot : d = x.sys.rootDentry
    · exact ⟨0, by rw [climb, hroot]; rfl⟩
    · obtain ⟨p, h1, hlt, h2, -⟩ := h.parent d hd hroot
      obtain ⟨p', h1', -, hget⟩ := h.getParent env hd
      rw [h1] at h1'
      cases h1'
      obtain ⟨n, hn⟩ := ih p hlt h2
      refine ⟨n + 1, ?_⟩
      rw [climb, Prog.get_bind_run, if_neg hroot, Prog.bind_ok hget]
      exact hn

theorem TreeInv.parentsFound (h : TreeInv x) : ParentsFound env x := by
  intro e he hroot
  obtain ⟨p, h1, -, h2, -, hdir⟩ := h.parent e he hroot
  obtain ⟨p', h1', -, hget⟩ := h.getParent env he
  rw [h1] at h1'
  cases h1'
  exact ⟨⟨p, hget, h2, (h.node p h2).1, hdir⟩, h.climbs e he⟩

structure TreeStep (p : ℕ) (V : List ℕ) (x y : TreeSys) : Prop where
  sound : SoundLists y.sys
  evolved : Evolved p V x.sys y.sys
  unpinned : ∀ v ∈ V, Unpinned x.sys v
  cached : InCache x.sys.dCache p
  leaves : ∀ q, InCache x.sys.dCache q → ¬ InCache y.sys.dCache q →
    q ≠ p ∧ ∀ c ∈ (x.sys.dentries q).dSubdirs, ¬ InCache y.sys.dCache c
  dirOld : ∀ d < x.sys.brk, y.dir d = x.dir d
  dirNew : ∀ d, x.sys.brk ≤ d → y.dir d = dirSector x.sys p

section Step

variable {p : ℕ} {V : List ℕ} {x y : TreeSys} (h : TreeInv x) (hs : TreeStep p V x y)

include h hs

theorem TreeStep.operand_lt : p < x.sys.brk := h.sound.dHash p hs.cached

omit h in
theorem TreeStep.operand_cached : InCache y.sys.dCache p := by
  by_contra hnot
  exact (hs.leaves p hs.cached hnot).1 rfl

theorem TreeStep.operand_not_evicted : p ∉ V := fun hm =>
  hs.evolved.gone p hm (hs.operand_lt h) hs.operand_cached

theorem TreeStep.root_not_evicted : x.sys.rootDentry ∉ V := by
  intro hm
  have hlt := h.sound.dHash _ h.root
  rcases hs.unpinned _ hm hlt with hpin | ⟨n, hn, hpin⟩
  · rw [h.dPinned] at hpin
    cases hpin
  · rw [← (h.iDentry n _ hn).2, h.iPinned] at hpin
    have := hpin (h.sound.iHash _ (h.node _ h.root).1)
    cases this

theorem TreeStep.dirSector_eq {q : ℕ} (hq : InCache x.sys.dCache q) :
    dirSector y.sys q = dirSector x.sys q := by
  rw [dirSector, dirSector, (hs.evolved.dentry q (h.sound.dHash q hq)).1]
  exact (hs.evolved.inode _ (h.sound.iHash _ (h.node q hq).1)).1

theorem TreeStep.parent_kept {d : ℕ} (hlt : d < x.sys.brk) (hd : InCache y.sys.dCache d)
    (hroot : d ≠ x.sys.rootDentry) : ∃ q, (y.sys.dentries d).dParent = some q ∧ q < d ∧
      InCache y.sys.dCache q ∧ d ∈ (y.sys.dentries q).dSubdirs ∧ dirSector y.sys q = y.dir d ∧
      (x.sys.dentries d).dParent = some q := by
  have hold := hs.evolved.old d hlt hd
  obtain ⟨q, h1, h2, h3, h4, h5⟩ := h.parent d hold hroot
  have hcached : InCache y.sys.dCache q := by
    by_contra hnot
    exact (hs.leaves q h3 hnot).2 d h4 hd
  have hq := h.sound.dHash q h3
  have hnot : q ∉ V := fun hm => hs.evolved.gone q hm hq hcached
  refine ⟨q, ?_, h2, hcached, hs.evolved.subKept q hq d h4 fun hm => hs.evolved.gone d hm hlt hd,
    ?_, h1⟩
  · rcases hs.evolved.parent d hlt with h6 | ⟨v, hv, hmem⟩
    · exact h6.trans h1
    · have h7 := h.children v d hmem hold
      rw [h1] at h7
      cases h7
      exact absurd hv hnot
  · rw [hs.dirSector_eq h h3, h5, hs.dirOld d hlt]

theorem TreeStep.new_parent {d : ℕ} (hlo : x.sys.brk ≤ d) (hd : InCache y.sys.dCache d) :
    (y.sys.dentries d).dParent = some p :=
  (hs.evolved.new d hlo hd).parent.resolve_right (hs.operand_not_evicted h)

theorem TreeStep.root_kept : InCache y.sys.dCache x.sys.rootDentry :=
  hs.evolved.kept _ h.root (hs.root_not_evicted h)

theorem TreeStep.rootParent_kept :
    (y.sys.dentries x.sys.rootDentry).dParent = some x.sys.rootDentry := by
  rcases hs.evolved.parent _ (h.sound.dHash _ h.root) with h1 | ⟨v, hv, hmem⟩
  · exact h1.trans h.rootParent
  · have h2 := h.children v _ hmem h.root
    rw [h.rootParent] at h2
    cases h2
    exact absurd hv (hs.root_not_evicted h)

theorem TreeStep.node_cached {d : ℕ} (hd : InCache y.sys.dCache d) :
    InCache y.sys.iCache (y.sys.dentries d).dInode ∧
      d ∈ (y.sys.inodes (y.sys.dentries d).dInode).iDentry := by
  have hev := hs.evolved
  rcases lt_or_ge d x.sys.brk with hlt | hge
  · obtain ⟨h1, h2⟩ := h.node d (hev.old d hlt hd)
    have hnot : d ∉ V := fun hm => hev.gone d hm hlt hd
    rw [(hev.dentry d hlt).1]
    exact ⟨(hev.node _ h1).resolve_right fun hall => hnot (hall d h2),
      hev.iKept _ (h.sound.iHash _ h1) d h2 hnot⟩
  · have hnew := hev.new d hge hd
    exact ⟨hnew.node, hnew.iDentry⟩

theorem TreeStep.child_parent {v c : ℕ} (hc : c ∈ (y.sys.dentries v).dSubdirs)
    (hd : InCache y.sys.dCache c) : (y.sys.dentries c).dParent = some v := by
  have hev := hs.evolved
  rcases lt_or_ge c x.sys.brk with hlt | hge
  · have h1 := h.children v c (hev.subOld v c hlt hc) (hev.old c hlt hd)
    by_cases hr : c = x.sys.rootDentry
    · subst hr
      rw [hs.rootParent_kept h, ← h.rootParent, h1]
    · obtain ⟨q, h2, -, -, -, -, h3⟩ := hs.parent_kept h hlt hd hr
      rw [h2, ← h3, h1]
  · rw [hev.subNew v c hc hge]
    exact hs.new_parent h hge hd

theorem TreeStep.inv : TreeInv y where
  sound := hs.sound
  root := hs.evolved.root ▸ hs.root_kept h
  rootParent := by
    rw [hs.evolved.root]
    exact hs.rootParent_kept h
  dPinned := by
    rw [hs.evolved.root, (hs.evolved.dentry _ (h.sound.dHash _ h.root)).2.2]
    exact h.dPinned
  iPinned := by
    rw [hs.evolved.root, (hs.evolved.dentry _ (h.sound.dHash _ h.root)).1,
      (hs.evolved.inode _ (h.sound.iHash _ (h.node _ h.root).1)).2]
    exact h.iPinned
  node d hd := hs.node_cached h hd
  iDentry n d hd := by
    rcases hs.evolved.iOld n d hd with hold | ⟨-, hnew⟩
    · obtain ⟨h1, h2⟩ := h.iDentry n d hold
      exact ⟨h1.trans_le hs.evolved.brk, (hs.evolved.dentry d h1).1.trans h2⟩
    · exact hnew
  children v c hc hd := hs.child_parent h hc hd
  parent d hd hne := by
    rw [hs.evolved.root] at hne
    rcases lt_or_ge d x.sys.brk with hlt | hge
    · obtain ⟨q, h1, h2, h3, h4, h5, -⟩ := hs.parent_kept h hlt hd hne
      exact ⟨q, h1, h2, h3, h4, h5⟩
    · refine ⟨p, hs.new_parent h hge hd, (hs.operand_lt h).trans_le hge, hs.operand_cached,
        (hs.evolved.new d hge hd).subdir, ?_⟩
      rw [hs.dirSector_eq h hs.cached, hs.dirNew d hge]
  notRoot d hd hne := by
    rw [hs.evolved.root] at hne
    rw [hs.evolved.sRoot]
    rcases lt_or_ge d x.sys.brk with hlt | hge
    · rw [(hs.evolved.dentry d hlt).2.1]
      exact h.notRoot d (hs.evolved.old d hlt hd) hne
    · exact fun e => absurd (h.sound.sRoot _) (by rw [e]; exact hge.not_gt)

end Step

/-- Under the root nothing is a root of its own, so ".." asks for the parent of the operand. -/
theorem followDotdot_evolves {nd : Nameidata} {r : Except ℕ Nameidata} {t : FsSys} (h : TreeInv x)
    (hnd : InCache x.sys.dCache nd.ndDentry) (hr : followDotdot env nd x.sys = some (r, t)) :
    SameTree x.sys t := by
  have hmove : ∀ mnt : ℕ, (do
      let parent ← getDentryParent env nd.ndDentry
      moveTo nd parent mnt : FsProg Nameidata) x.sys = some (r, t) → SameTree x.sys t := by
    intro mnt hr
    obtain ⟨p, -, hp, hget⟩ := h.getParent env hnd
    rw [Prog.bind_ok hget] at hr
    exact moveTo_tree (h.sound.dHash _ hnd) (h.sound.dHash _ hp) hr
  have hleave : ∀ n, leaveMounts (n + 1) nd.ndDentry nd.ndMnt x.sys =
      some (.ok (if (x.sys.sbs (x.sys.dentries nd.ndDentry).dSb).sRoot = nd.ndDentry then none
        else some (nd.ndDentry, nd.ndMnt)), x.sys) := by
    intro n
    rw [leaveMounts, Prog.get_bind_run]
    split_ifs with h1 h2
    · rfl
    · exact absurd h1 (h.notRoot _ hnd h2)
    · rfl
  obtain ⟨n, hn⟩ := Nat.exists_eq_succ_of_ne_zero (show uintRange ≠ 0 by decide)
  rw [followDotdot, hn, Nat.succ_eq_add_one, Prog.bind_ok (hleave n)] at hr
  split_ifs at hr
  · cases hr
    exact refl _
  · exact hmove _ hr

theorem treeOp_evolves {op : TreeOp} {r : Except ℕ Unit} {t : FsSys} (h : TreeInv x)
    (hop : op.typed x.sys) (hcached : InCache x.sys.dCache (op.operand x.sys))
    (hr : op.run env x.sys = some (r, t)) : Evolves (op.operand x.sys) x.sys t := by
  have hlt := h.sound.dHash _ hcached
  cases op with
  | hold entry =>
    cases hr
    exact (SameTree.touchD hlt (· + 1)).evolves _
  | drop entry =>
    cases hr
    exact (SameTree.touchD hlt (· - 1)).evolves _
  | lookup nd =>
    obtain ⟨r', hr, -⟩ := discard_cases hr
    exact doLookup_evolves hr
  | dotdot nd =>
    obtain ⟨r', hr, -⟩ := discard_cases hr
    exact (followDotdot_evolves h hcached hr).evolves _
  | create sb parent name isdir =>
    obtain ⟨r', hr, -⟩ := discard_cases hr
    exact createDentryFat32_evolves hr
  | «open» entry mode =>
    obtain ⟨r', hr, -⟩ := discard_cases hr
    exact dentryOpenFile_evolves hr
  | close fp => exact fsClose_evolves hop rfl hr
  | evictDentries =>
    obtain ⟨r', hr, -⟩ := discard_cases hr
    exact flushDCache_evolves _ _ _ _ hr
  | evictInodes =>
    obtain ⟨r', hr, -⟩ := discard_cases hr
    exact flushICache_evolves _ _ _ _ hr
  | evictPages =>
    obtain ⟨r', hr, -⟩ := discard_cases hr
    exact (SameTree.frame.flushPCache env _ _ _ hr).evolves _

theorem treeStep_inv {y : TreeSys} {op : TreeOp} (h : TreeInv x) (hc : evictsLeaves env x op)
    (hstep : treeStep env x op = some y) : TreeInv y := by
  have hleaves := hc.2 y hstep
  rw [treeStep] at hstep
  split_ifs at hstep with hop
  obtain ⟨⟨r, t⟩, hr, rfl⟩ := Option.map_eq_some_iff.mp hstep
  obtain ⟨hsound, V, hV, hpin⟩ :=
    treeOp_evolves h hop hc.1 hr (h.sound.dHash _ hc.1) h.sound
  exact TreeStep.inv (p := op.operand x.sys) h
    ⟨hsound, hV, hpin, hc.1, hleaves, fun d hd => if_pos hd, fun d hd => if_neg hd.not_gt⟩

end Parents

theorem treeRun_parents {env : FsEnv} {s : FsSys} {dir : ℕ → ℕ} {ops : List TreeOp} {y : TreeSys}
    (hs : JustMounted s) (hc : RunMeets (treeStep env) (evictsLeaves env) ⟨s, dir⟩ ops)
    (hr : runOps (treeStep env) ⟨s, dir⟩ ops = some y) : ParentsFound env y :=
  (runOps_invariant_of_meets (fun _ _ _ => treeStep_inv) (hs.inv dir) hc hr).parentsFound

section Small

def shortSfn (name attr clu o : ℕ) : ℕ :=
  if o = 0 then name else if o < 11 then dummyChar8dot3 else if o = 11 then attr
    else if o = 26 then clu else 0

def treeDisk : SdCard where
  sector sec o :=
    if sec < 1000 then endedDisk.sector sec o
    else if sec = 1000 ∧ o < 32 then shortSfn 68 sfnAttrDir 3 o
    else if sec = 1008 ∧ o < 32 then shortSfn 70 sfnAttrWrite 4 o
    else 0
  accesses := 0

def treeVolume : FsSys :=
  { blankSys with
    sd := treeDisk
    brk := 3
    sbs := fun _ => ⟨4096, 12, 0, none, none, 1, 0, 1000, 5⟩
    maps := fun _ => ⟨1000, none⟩
    inodes := fun n => if n = 1 then ⟨1000, 1, 0, 1, true, true, [0], [2], 0⟩
      else ⟨0, 0, 0, 0, false, false, [], [], 0⟩
    dentries := fun _ => ⟨0, true, false, [], 0, 1, some 0, [47]⟩
    dCache := ⟨1, [0], fun b => if b = hashString [47] then [0] else []⟩
    iCache := ⟨1, [1], fun b => if b = hashInt 1000 then [1] else []⟩ }

theorem treeVolume_mounted : JustMounted treeVolume := by
  have hd : ∀ b, treeVolume.dCache.hash b = if b = hashString [47] then [0] else [] := fun _ => rfl
  have hi : ∀ b, treeVolume.iCache.hash b = if b = hashInt 1000 then [1] else [] := fun _ => rfl
  have hn : ∀ n, (treeVolume.inodes n).iDentry = if n = 1 then [0] else [] := by
    intro n
    change (if n = 1 then _ else _ : Inode).iDentry = _
    split_ifs <;> rfl
  refine ⟨fun d => ⟨fun ⟨b, hb⟩ => ?_, ?_⟩, fun b => ?_, by decide, ⟨hashInt 1000, ?_⟩,
    fun n ⟨b, hb⟩ => ?_, by decide, fun n d hm => ?_, fun _ => rfl, by decide, fun _ => Nat.succ_pos _, rfl,
    rfl, rfl⟩
  · rw [hd] at hb
    split_ifs at hb
    · exact List.mem_singleton.mp hb
    · exact absurd hb List.not_mem_nil
  · rintro rfl
    exact ⟨hashString [47], by rw [hd, if_pos rfl]; exact List.mem_singleton_self _⟩
  · rw [hd]
    split_ifs <;> simp
  · rw [hi, if_pos rfl]
    exact List.mem_singleton_self _
  · rw [hi] at hb
    split_ifs at hb
    · obtain rfl := List.mem_singleton.mp hb
      decide
    · exact absurd hb List.not_mem_nil
  · rw [hn] at hm
    split_ifs at hm with e
    · obtain rfl := List.mem_singleton.mp hm
      exact ⟨by decide, e.symm⟩
    · exact absurd hm List.not_mem_nil

/-- A file is opened through its directory, and the cache evicts what no handle holds. -/
def orphaning : List TreeOp :=
  [.lookup ⟨0, 0, [100]⟩, .lookup ⟨8, 0, [102]⟩, .open 14 fModeRead, .evictDentries]

theorem orphaning_run : (runOps (treeStep soundEnv) ⟨treeVolume, fun _ => 0⟩ orphaning).any (fun y =>
    (y.sys.dCache.hash (hashString [102])).contains 14 && y.sys.rootDentry != 14 &&
      (getDentryParent soundEnv 14 y.sys).any fun out => !out.1.isOk) = true := by decide +kernel

/-- The file that is still open has lost its parent, and its own block has no entry "..". -/
theorem treeRun_orphaned : ¬ ∀ (env : FsEnv) (s : FsSys) (dir : ℕ → ℕ) (ops : List TreeOp)
    (y : TreeSys), JustMounted s → runOps (treeStep env) ⟨s, dir⟩ ops = some y →
      ParentsFound env y := by
  intro h
  obtain ⟨y, hy, hfacts⟩ := (Option.any_eq_true _ _).mp orphaning_run
  simp only [Bool.and_eq_true, List.contains_iff_mem, bne_iff_ne] at hfacts
  obtain ⟨⟨hmem, hroot⟩, herror⟩ := hfacts
  obtain ⟨out, hout, hbad⟩ := (Option.any_eq_true _ _).mp herror
  obtain ⟨⟨p, hget, -⟩, -⟩ := h _ _ _ _ _ treeVolume_mounted hy 14 ⟨_, hmem⟩ hroot.symm
  rw [hget] at hout
  cases hout
  cases hbad

/-- The operand is in the bucket of its name, and an entry that is not in that of its own name after
the step is not the operand and has no children. -/
def bareStep (env : FsEnv) (x : TreeSys) (op : TreeOp) : Prop :=
  let p := op.operand x.sys
  p ∈ x.sys.dCache.hash (hashString (x.sys.dentries p).dName) ∧ ∀ y ∈ treeStep env x op,
    ∀ q < x.sys.brk, q ∈ y.sys.dCache.hash (hashString (x.sys.dentries q).dName) ∨
      q ≠ p ∧ (x.sys.dentries q).dSubdirs = []

instance (env : FsEnv) (x : TreeSys) (op : TreeOp) : Decidable (bareStep env x op) := by
  unfold bareStep
  infer_instance

theorem bareStep.leaves {env : FsEnv} {x : TreeSys} {op : TreeOp} (h : bareStep env x op)
    (hx : TreeInv x) : evictsLeaves env x op := by
  refine ⟨⟨_, h.1⟩, fun y hy q hq hnot => ?_⟩
  rcases h.2 y hy q (hx.sound.dHash q hq) with hin | ⟨hne, hbare⟩
  · exact absurd ⟨_, hin⟩ hnot
  · rw [hbare]
    exact ⟨hne, fun c hc => absurd hc List.not_mem_nil⟩

theorem runMeets_leaves {env : FsEnv} {x : TreeSys} {ops : List TreeOp} (hx : TreeInv x)
    (h : RunMeets (treeStep env) (bareStep env) x ops) :
    RunMeets (treeStep env) (evictsLeaves env) x ops := by
  induction ops generalizing x with
  | nil => trivial
  | cons op ops ih =>
    have hleaves := h.1.leaves hx
    exact ⟨hleaves, fun y hy => ih (treeStep_inv hx hleaves hy) (h.2 y hy)⟩

/-- The directory is held by a handle and stays, and the file in it is evicted. -/
def pruning : List TreeOp :=
  [.lookup ⟨0, 0, [100]⟩, .lookup ⟨8, 0, [102]⟩, .open 8 fModeRead, .evictDentries]

theorem pruning_run : (runOps (treeStep soundEnv) ⟨treeVolume, fun _ => 0⟩ pruning).any (fun y =>
    (y.sys.dCache.hash (hashString [100])).contains 8 &&
      !(y.sys.dCache.hash (hashString [102])).contains 14) = true := by decide +kernel

theorem treeRun_parents_small : ∃ y, runOps (treeStep soundEnv) ⟨treeVolume, fun _ => 0⟩ pruning =
    some y ∧ 8 ∈ y.sys.dCache.hash (hashString [100]) ∧
      14 ∉ y.sys.dCache.hash (hashString [102]) ∧ ParentsFound soundEnv y := by
  obtain ⟨y, hy, hfacts⟩ := (Option.any_eq_true _ _).mp pruning_run
  simp only [Bool.and_eq_true, Bool.not_eq_true', List.contains_iff_mem] at hfacts
  have hmeets : RunMeets (treeStep soundEnv) (bareStep soundEnv) ⟨treeVolume, fun _ => 0⟩ pruning := by
    decide +kernel
  exact ⟨y, hy, hfacts.1, by simpa using hfacts.2, treeRun_parents treeVolume_mounted
    (runMeets_leaves (treeVolume_mounted.inv _) hmeets) hy⟩

end Small

end OurOS.Fs
