import OurOS.Fs.Listing
import OurOS.Fs.ShortName
import OurOS.Fs.TreeRun

namespace OurOS.Fs

/-- The dentry `c` is a child of `dir` with the name of an entry. -/
structure IsChild (s : FsSys) (dir : ℕ) (name : List ℕ) (c : ℕ) : Prop where
  cached : InCache s.dCache c
  parent : (s.dentries c).dParent = some dir
  subdir : c ∈ (s.dentries dir).dSubdirs
  named : compareFat32 (s.dentries c).dName name = 0

structure PinnedChild (s : FsSys) (dir : ℕ) (name : List ℕ) (c : ℕ) : Prop
    extends IsChild s dir name c where
  dPinned : (s.dentries c).dPinned = true
  iPinned : (s.inodes (s.dentries c).dInode).iPinned = true

/-- The lists of the cached dentries and inodes agree around the directory `dir`, and `dir` itself has
none of the `names`. -/
structure DirTree (names : List (List ℕ)) (dir : ℕ) (s : FsSys) : Prop where
  sound : SoundLists s
  cached : InCache s.dCache dir
  node : ∀ d, InCache s.dCache d → InCache s.iCache (s.dentries d).dInode ∧
    d ∈ (s.inodes (s.dentries d).dInode).iDentry
  iDentry : ∀ n, ∀ d ∈ (s.inodes n).iDentry, d < s.brk ∧ (s.dentries d).dInode = n
  parent : ∀ v, ∀ c ∈ (s.dentries v).dSubdirs, InCache s.dCache c →
    (s.dentries c).dParent = some v ∨ (s.dentries c).dParent = none
  children : ∀ c, c ≠ dir → InCache s.dCache c → (s.dentries c).dParent = some dir →
    c ∈ (s.dentries dir).dSubdirs
  own : (s.dentries dir).dParent = some dir → ∀ name ∈ names,
    compareFat32 (s.dentries dir).dName name ≠ 0

/-- The trees that the operations of the file system build are such ones. -/
theorem TreeInv.dirTree {x : TreeSys} {names : List (List ℕ)} {dir : ℕ} (h : TreeInv x)
    (hdir : InCache x.sys.dCache dir) (hown : dir = x.sys.rootDentry → ∀ name ∈ names,
      compareFat32 (x.sys.dentries dir).dName name ≠ 0) : DirTree names dir x.sys where
  sound := h.sound
  cached := hdir
  node := h.node
  iDentry := h.iDentry
  parent v c hc hd := .inl (h.children v c hc hd)
  children c hne hc hp := by
    by_cases hroot : c = x.sys.rootDentry
    · subst hroot
      rw [h.rootParent] at hp
      exact absurd (Option.some.inj hp) hne
    · obtain ⟨p, h1, -, -, h2, -⟩ := h.parent c hc hroot
      rw [h1] at hp
      cases hp
      exact h2
  own hp := by
    refine hown ?_
    by_contra hroot
    obtain ⟨p, h1, hlt, -⟩ := h.parent dir hdir hroot
    rw [h1] at hp
    cases hp
    exact lt_irrefl _ hlt

variable {env : FsEnv} {names : List (List ℕ)} {name : List ℕ} {dir c d k : ℕ} {s t : FsSys}

section Load

theorem DirTree.loaded (h : DirTree names dir s) (hn : SameNames s t) (ht : SameTree s t) :
    DirTree names dir t := by
  have hi : ∀ x, InCache t.iCache x ↔ InCache s.iCache x := fun x => by
    rw [InCache, InCache, ht.iHash]
  refine ⟨ht.sound h.sound, ?_, fun d hd => ?_, fun n d hd => ?_, ?_, ?_, ?_⟩
  · rw [hn.dCache]
    exact h.cached
  · rw [hn.dCache] at hd
    rw [hn.dentries, hn.inodes, hi]
    exact h.node d hd
  · rw [hn.inodes] at hd
    rw [hn.dentries]
    obtain ⟨h1, h2⟩ := h.iDentry n d hd
    exact ⟨h1.trans_le hn.brk, h2⟩
  · rw [hn.dentries, hn.dCache]
    exact h.parent
  · rw [hn.dentries, hn.dCache]
    exact h.children
  · rw [hn.dentries]
    exact h.own

theorem PinnedChild.loaded (h : PinnedChild s dir name k) (hn : SameNames s t) :
    PinnedChild t dir name k := by
  refine ⟨⟨?_, ?_, ?_, ?_⟩, ?_, ?_⟩
  · rw [hn.dCache]
    exact h.cached
  · rw [hn.dentries]
    exact h.parent
  · rw [hn.dentries]
    exact h.subdir
  · rw [hn.dentries]
    exact h.named
  · rw [hn.dentries]
    exact h.dPinned
  · rw [hn.dentries, hn.inodes]
    exact h.iPinned

end Load

section Pin

theorem pinned_sound (isdir : Bool) (h : SoundLists s) (hc : c < s.brk) :
    SoundLists (pinned c isdir s) := by
  refine ⟨fun b => ?_, fun d hd => ?_, fun n hn => ?_, fun v d hd => ?_, fun d hd => ?_, fun sb => ?_⟩
  · rw [pinned_dHash]
    exact h.nodup b
  · rw [pinned_inCache] at hd
    rw [pinned_brk]
    exact h.dHash d hd
  · rw [pinned_iCache] at hn
    rw [pinned_brk]
    exact h.iHash n hn
  · rw [pinned_dentry] at hd
    rw [pinned_brk]
    exact h.subdirs v d hd
  · rw [pinned_brk]
    rw [pinned_dLru] at hd
    rcases List.mem_cons.mp hd with rfl | hd
    · exact hc
    · exact h.dLru d (List.mem_of_mem_erase hd)
  · rw [pinned_sbs, pinned_brk]
    exact h.sRoot sb

theorem DirTree.pinned (h : DirTree names dir s) (isdir : Bool) (hc : c < s.brk) :
    DirTree names dir (pinned c isdir s) := by
  refine ⟨pinned_sound isdir h.sound hc, ?_, fun d hd => ?_, fun n d hd => ?_,
    fun v d hd hin => ?_, fun d hne hin hp => ?_, fun hp => ?_⟩
  · rw [pinned_inCache]
    exact h.cached
  · rw [pinned_inCache] at hd
    rw [pinned_dentry, pinned_inode, pinned_iCache]
    exact h.node d hd
  · rw [pinned_inode] at hd
    rw [pinned_dentry, pinned_brk]
    exact h.iDentry n d hd
  · rw [pinned_inCache] at hin
    rw [pinned_dentry] at hd ⊢
    exact h.parent v d hd hin
  · rw [pinned_inCache] at hin
    rw [pinned_dentry] at hp ⊢
    exact h.children d hne hin hp
  · rw [pinned_dentry] at hp ⊢
    exact h.own hp

theorem IsChild.pinned (h : IsChild s dir name k) (c : ℕ) (isdir : Bool) :
    IsChild (pinned c isdir s) dir name k := by
  refine ⟨?_, ?_, ?_, ?_⟩
  · rw [pinned_inCache]
    exact h.cached
  · rw [pinned_dentry]
    exact h.parent
  · rw [pinned_dentry]
    exact h.subdir
  · rw [pinned_dentry]
    exact h.named

theorem PinnedChild.pinned (h : PinnedChild s dir name k) (c : ℕ) (isdir : Bool) :
    PinnedChild (pinned c isdir s) dir name k := by
  refine ⟨h.toIsChild.pinned c isdir, ?_, ?_⟩
  · rw [pinned_dentry]
    simp [h.dPinned]
  · rw [pinned_dentry, pinned_inode]
    simp [h.iPinned]

theorem IsChild.pins (h : IsChild s dir name k) (isdir : Bool) :
    PinnedChild (Fs.pinned k isdir s) dir name k := by
  refine ⟨h.pinned k isdir, ?_, ?_⟩
  · rw [pinned_dentry]
    simp
  · rw [pinned_dentry, pinned_inode]
    simp

end Pin

section Read

variable {data : ℕ → ℕ} {off sb node : ℕ} {parent : Option ℕ}

theorem allocDentryFat32_named (h : allocDentryFat32 env sb node parent name s = some (.ok d, t)) :
    (t.dentries d).dName = name := by
  cases hk : env.kmallocFails s.brk with
  | true =>
    rw [allocDentryFat32_noMemory hk] at h
    cases h
  | false =>
    rw [allocDentryFat32_eq hk] at h
    obtain ⟨room, u, hadd, h⟩ := Prog.bind_ok_cases h
    cases room with
    | false => cases h
    | true =>
      cases h
      have hadded : Unmoved (s.brk + 1) _ t := Unmoved.addToDCache _ _ _ _ hadd
      rw [hadded.dentry _ (Nat.lt_succ_self _), linked_dentries, if_pos rfl]
      rfl

def sfnInode (env : FsEnv) (data : ℕ → ℕ) (off dir : ℕ) : FsProg ℕ := do
  let s ← Prog.get
  let sb := (s.dentries dir).dSb
  let clu := sfn1stclu data off
  let isdir := sfnAttr data off == sfnAttrDir
  match lookupICache s (cluToSec (s.sbs sb).infoCluBase clu (s.sbs sb).sBlockbits) with
  | some node => pure node
  | none => allocInodeFat32 env sb clu (sfnFileSize data off) isdir

theorem readDentryFromSfn_eq (hname : compareFat32 name dotdotName ≠ 0) :
    readDentryFromSfn env data off dir name s = (sfnInode env data off dir >>= fun node =>
      allocDentryFat32 env (s.dentries dir).dSb node (some dir) name) s := by
  have hend : ∀ (node : ℕ) (v : FsSys), (do
      let retEntry ← allocDentryFat32 env (s.dentries dir).dSb node (some dir) name
      if compareFat32 name dotdotName = 0 then readDotdotName env retEntry (sfn1stclu data off)
      pure retEntry : FsProg ℕ) v = allocDentryFat32 env (s.dentries dir).dSb node (some dir) name v := by
    intro node v
    simp only [if_neg hname]
    cases h : allocDentryFat32 env (s.dentries dir).dSb node (some dir) name v with
    | none => rw [Prog.bind_none h]
    | some out =>
      obtain ⟨r, w⟩ := out
      cases r with
      | ok d =>
        rw [Prog.bind_ok h]
        rfl
      | error e => rw [Prog.bind_error h]
  rw [readDentryFromSfn, Prog.get_bind_run]
  dsimp only
  cases hlook : lookupICache s (cluToSec (s.sbs (s.dentries dir).dSb).infoCluBase
      (sfn1stclu data off) (s.sbs (s.dentries dir).dSb).sBlockbits) with
  | some node =>
    have hnode : sfnInode env data off dir s = some (.ok node, s) := by
      rw [sfnInode, Prog.get_bind_run]
      simp only [hlook, Prog.pure_run]
    rw [Prog.bind_ok hnode]
    exact hend node s
  | none =>
    have hnode : sfnInode env data off dir s = allocInodeFat32 env (s.dentries dir).dSb
        (sfn1stclu data off) (sfnFileSize data off) (sfnAttr data off == sfnAttrDir) s := by
      rw [sfnInode, Prog.get_bind_run]
      simp only [hlook]
    rw [Prog.bind_run_congr hnode]
    exact Prog.bind_run_congr_right fun node v _ => hend node v

theorem readDentryFromSfn_named (hname : compareFat32 name dotdotName ≠ 0)
    (h : readDentryFromSfn env data off dir name s = some (.ok d, t)) :
    (t.dentries d).dName = name := by
  rw [readDentryFromSfn_eq hname] at h
  obtain ⟨node, v, -, h⟩ := Prog.bind_ok_cases h
  exact allocDentryFat32_named h

/-- A cache that is full has an object that is not pinned. -/
def HasRoom (cache : Fscache) (capacity : ℕ) (pinned : ℕ → Bool) : Prop :=
  cache.size = capacity → ∃ x ∈ cache.lru, pinned x = false

/-- `read_dentry_from_sfn` takes a cached inode for the entry at `off`, or it has the memory, the chain
and the room in the cache for a new one. -/
inductive SfnInode (env : FsEnv) (data : ℕ → ℕ) (off dir : ℕ) (s : FsSys) : ℕ → FsSys → Prop where
  | cached {node : ℕ} (hlook : lookupICache s (cluToSec (s.sbs (s.dentries dir).dSb).infoCluBase
      (sfn1stclu data off) (s.sbs (s.dentries dir).dSb).sBlockbits) = some node) :
    SfnInode env data off dir s node s
  | new {u v : FsSys} {r : Except ℕ Bool} (hlook : lookupICache s
      (cluToSec (s.sbs (s.dentries dir).dSb).infoCluBase (sfn1stclu data off)
        (s.sbs (s.dentries dir).dSb).sBlockbits) = none)
      (hmem : env.kmallocFails s.brk = false)
      (hchain : buildDataMap env s.brk (s.sbs (s.dentries dir).dSb) uintRange (sfn1stclu data off)
        (begun (s.dentries dir).dSb (sfn1stclu data off) (sfnFileSize data off)
          (sfnAttr data off == sfnAttrDir) s) = some (.ok (), v))
      (hroom : HasRoom v.iCache icacheCapacity fun n => (v.inodes n).iPinned)
      (hadd : addToICache s.brk v = some (r, u)) : SfnInode env data off dir s s.brk u

/-- There is the memory and the room for the dentry of the entry at `off`, too. -/
def CanRead (env : FsEnv) (data : ℕ → ℕ) (off dir : ℕ) (s : FsSys) : Prop :=
  ∃ node u, SfnInode env data off dir s node u ∧ env.kmallocFails u.brk = false ∧
    HasRoom u.dCache dcacheCapacity fun d => (u.dentries d).dPinned

theorem hasRoom_iff {cache : Fscache} {capacity : ℕ} {pinned unused : ℕ → Bool} :
    HasRoom cache capacity pinned ↔ (cache.size = capacity → victims pinned unused cache.lru ≠ []) := by
  refine imp_congr_right fun _ => ?_
  rw [Ne, victims_eq_nil]
  push Not
  simp only [ne_eq, Bool.not_eq_true]

theorem Flushed.room_iff {cache : Fscache} {capacity : ℕ} {pinned unused : ℕ → Bool}
    {objects : List ℕ} {room : Bool} (h : Flushed (cache.size = capacity)
      (victims pinned unused cache.lru) objects s t room) :
    room = true ↔ HasRoom cache capacity pinned := by
  rw [@hasRoom_iff cache capacity pinned unused]
  by_cases hfull : cache.size = capacity
  · rw [(h.flushed hfull).2, imp_iff_right hfull, Bool.not_eq_true', List.isEmpty_eq_false_iff]
  · exact ⟨fun _ hf => absurd hf hfull, fun _ => (h.notFull hfull).2⟩

theorem sfnInode_iff {u : FsSys} : sfnInode env data off dir s = some (.ok node, u) ↔
    SfnInode env data off dir s node u := by
  rw [sfnInode, Prog.get_bind_run]
  cases hlook : lookupICache s (cluToSec (s.sbs (s.dentries dir).dSb).infoCluBase
      (sfn1stclu data off) (s.sbs (s.dentries dir).dSb).sBlockbits) with
  | some node' =>
    constructor
    · intro h
      cases h
      exact .cached hlook
    · rintro (h | ⟨h, -⟩)
      · rw [hlook] at h
        cases h
        rfl
      · rw [hlook] at h
        cases h
  | none =>
    dsimp only
    constructor
    · intro h
      cases hmem : env.kmallocFails s.brk with
      | true =>
        rw [allocInodeFat32_noMemory hmem] at h
        cases h
      | false =>
        rw [allocInodeFat32_eq hmem] at h
        obtain ⟨_, v, hchain, h⟩ := Prog.bind_ok_cases h
        obtain ⟨room, w, hadd, h⟩ := Prog.bind_ok_cases h
        obtain ⟨_, room', hflush, hr, -⟩ := addToICache_spec hadd
        cases hr
        cases room with
        | false => cases h
        | true =>
          cases h
          exact .new hlook hmem hchain (hflush.room_iff.mp rfl) hadd
    · rintro (h | ⟨-, hmem, hchain, hroom, hadd⟩)
      · rw [hlook] at h
        cases h
      · rw [allocInodeFat32_eq hmem, Prog.bind_ok hchain]
        obtain ⟨_, room, hflush, rfl, -⟩ := addToICache_spec hadd
        rw [Prog.bind_ok hadd, if_pos (hflush.room_iff.mpr hroom)]
        rfl

theorem allocDentryFat32_ok_iff (hlru : ∀ d ∈ s.dCache.lru, d < s.brk) :
    (∃ d t, allocDentryFat32 env sb node parent name s = some (.ok d, t)) ↔
      env.kmallocFails s.brk = false ∧ HasRoom s.dCache dcacheCapacity fun d => (s.dentries d).dPinned := by
  cases hmem : env.kmallocFails s.brk with
  | true =>
    refine iff_of_false ?_ (by simp)
    rintro ⟨d, t, h⟩
    rw [allocDentryFat32_noMemory hmem] at h
    cases h
  | false =>
    rw [allocDentryFat32_eq hmem, eq_self, true_and]
    obtain ⟨u, room, hflush, hadd⟩ := addToDCache_spec s.brk (linked sb node parent name s)
    have hcache := (@linked_same s sb node parent name).2.2.2.1
    have hpins : HasRoom s.dCache dcacheCapacity (fun d => (s.dentries d).dPinned) ↔
        HasRoom s.dCache dcacheCapacity fun d => ((linked sb node parent name s).dentries d).dPinned := by
      refine imp_congr_right fun _ => exists_congr fun d => and_congr_right fun hd => ?_
      dsimp only
      rw [linked_dentries, if_neg (hlru d hd).ne]
    have hroom := hflush.room_iff
    rw [hcache] at hroom
    rw [hpins, ← hroom, Prog.bind_ok hadd]
    cases room with
    | true => exact iff_of_true ⟨_, _, rfl⟩ rfl
    | false =>
      refine iff_of_false ?_ (by simp)
      rintro ⟨d, t, h⟩
      cases h

theorem readDentryFromSfn_ok_iff (hname : compareFat32 name dotdotName ≠ 0) (hs : SoundLists s)
    (hdir : dir < s.brk) : (∃ d t, readDentryFromSfn env data off dir name s = some (.ok d, t)) ↔
      CanRead env data off dir s := by
  have hsound : ∀ {node u}, sfnInode env data off dir s = some (.ok node, u) → SoundLists u := by
    intro node u h
    rw [sfnInode, Prog.get_bind_run] at h
    cases hlook : lookupICache s (cluToSec (s.sbs (s.dentries dir).dSb).infoCluBase
        (sfn1stclu data off) (s.sbs (s.dentries dir).dSb).sBlockbits) with
    | some node' =>
      simp only [hlook] at h
      cases h
      exact hs
    | none =>
      simp only [hlook] at h
      exact ((allocInodeFat32_evolves h).1 hdir hs).1
  rw [readDentryFromSfn_eq hname]
  constructor
  · rintro ⟨d, t, h⟩
    obtain ⟨node, u, h1, h2⟩ := Prog.bind_ok_cases h
    exact ⟨node, u, sfnInode_iff.mp h1, (allocDentryFat32_ok_iff (hsound h1).dLru).mp ⟨d, t, h2⟩⟩
  · rintro ⟨node, u, h1, h2⟩
    have h1 := sfnInode_iff.mpr h1
    rw [Prog.bind_ok h1]
    exact (allocDentryFat32_ok_iff (hsound h1).dLru).mpr h2

theorem DirTree.read (h : DirTree names dir s) (hname : compareFat32 name dotdotName ≠ 0)
    (hr : readDentryFromSfn env data off dir name s = some (.ok d, t)) (hin : InCache t.dCache dir) :
    DirTree names dir t ∧ IsChild t dir name d ∧
      ∀ {nm k}, PinnedChild s dir nm k → PinnedChild t dir nm k := by
  obtain ⟨hevolves, -⟩ := readDentryFromSfn_evolves hr
  obtain ⟨hmoved, hnew⟩ := Unmoved.readDentryFromSfn (B := s.brk) le_rfl hr
  obtain ⟨hlo, hd⟩ := hnew d rfl
  have hlt : dir < s.brk := h.sound.dHash dir h.cached
  obtain ⟨hsound, V, he, hV⟩ := hevolves hlt h.sound
  have hdir : dir ∉ V := fun hm => he.gone dir hm hlt hin
  have hlive : ∀ c < s.brk, InCache t.dCache c → c ∉ V := fun c hc hct hm => he.gone c hm hc hct
  have hinode : ∀ c < s.brk, (t.dentries c).dInode = (s.dentries c).dInode := fun c hc =>
    (he.dentry c hc).1
  have hpar : ∀ c < s.brk, ∀ v, (t.dentries c).dParent = some v → (s.dentries c).dParent = some v :=
    fun c hc v hp => (hmoved.parent c hc).elim (fun e => e ▸ hp) fun e => by
      rw [e] at hp
      cases hp
  have hdot : ∀ c, s.brk ≤ c → InCache t.dCache c → (t.dentries c).dParent = some dir :=
    fun c hc hct => (he.new c hc hct).parent.resolve_right hdir
  refine ⟨⟨hsound, hin, fun c hc => ?_, fun n c hc => ?_, fun v c hc hct => ?_,
    fun c hne hct hp => ?_, fun hp => ?_⟩, ?_, fun {nm k} hk => ?_⟩
  · rcases lt_or_ge c s.brk with hold | hnew
    · obtain ⟨h1, h2⟩ := h.node c (he.old c hold hc)
      rw [hinode c hold]
      exact ⟨(he.node _ h1).resolve_right fun hall => hlive c hold hc (hall c h2),
        he.iKept _ (h.sound.iHash _ h1) c h2 (hlive c hold hc)⟩
    · exact ⟨(he.new c hnew hc).node, (he.new c hnew hc).iDentry⟩
  · rcases he.iOld n c hc with hc | ⟨-, h1, h2⟩
    · obtain ⟨h1, h2⟩ := h.iDentry n c hc
      exact ⟨h1.trans_le he.brk, (hinode c h1).trans h2⟩
    · exact ⟨h1, h2⟩
  · rcases lt_or_ge c s.brk with hold | hnew
    · have hp := h.parent v c (he.subOld v c hold hc) (he.old c hold hct)
      exact (hmoved.parent c hold).elim (fun e => e ▸ hp) .inr
    · rw [he.subNew v c hc hnew]
      exact .inl (hdot c hnew hct)
  · rcases lt_or_ge c s.brk with hold | hnew
    · exact he.subKept dir hlt c (h.children c hne (he.old c hold hct) (hpar c hold dir hp))
        (hlive c hold hct)
    · exact (he.new c hnew hct).subdir
  · rw [hmoved.dentry dir hlt]
    exact h.own (hpar dir hlt dir hp)
  · refine ⟨hd, hdot d hlo hd, (he.new d hlo hd).subdir, ?_⟩
    rw [readDentryFromSfn_named hname hr]
    exact compareFat32_of_sameLetters rfl
  · have hold : k < s.brk := h.sound.dHash k hk.cached
    obtain ⟨h1, h2⟩ := h.node k hk.cached
    -- neither the pinned dentry nor its pinned inode is evicted
    have hkept : k ∉ V := fun hm => by
      rcases hV k hm hold with h3 | ⟨n, h3, h4⟩
      · rw [hk.dPinned] at h3
        cases h3
      · rw [← (h.iDentry n k h3).2, hk.iPinned] at h4
        cases h4 (h.sound.iHash _ h1)
    refine ⟨⟨he.kept k hk.cached hkept, ?_, he.subKept dir hlt k hk.subdir hkept, ?_⟩, ?_, ?_⟩
    · rcases he.parent k hold with h3 | ⟨v, hv, h3⟩
      · exact h3.trans hk.parent
      · rcases h.parent v k h3 hk.cached with h4 | h4
        · rw [hk.parent] at h4
          cases h4
          exact absurd hv hdir
        · rw [hk.parent] at h4
          cases h4
    · rw [hmoved.dentry k hold]
      exact hk.named
    · exact (he.dentry k hold).2.2.trans hk.dPinned
    · rw [hinode k hold, (he.inode _ (h.sound.iHash _ h1)).2]
      exact hk.iPinned

end Read

/-- From `s` to `t` the children named in `new` have been pinned, and those that were pinned before
still are. -/
structure ListedTo (names new : List (List ℕ)) (dir : ℕ) (s t : FsSys) : Prop where
  tree : DirTree names dir t
  kept : ∀ {nm k}, PinnedChild s dir nm k → PinnedChild t dir nm k
  listed : ∀ nm ∈ new, ∃ k, PinnedChild t dir nm k

/-- The loop over the entries of a block reaches its end in the state `t`: there is memory for each
name, each entry that is listed is in the cache or can be read, and the directory stays in the cache. -/
inductive ListsEntries (env : FsEnv) (dir : ℕ) (data : ℕ → ℕ) : List ℕ → FsSys → FsSys → Prop where
  | nil (s : FsSys) : ListsEntries env dir data [] s s
  | dotted {off : ℕ} {offs : List ℕ} {s t : FsSys}
    (hmem : env.kmallocFails s.brk = false) (hdot : isDotted (sfnName data off) = true)
    (hrest : ListsEntries env dir data offs (grabbed s) t) :
    ListsEntries env dir data (off :: offs) s t
  | cached {off d : ℕ} {offs : List ℕ} {s t : FsSys}
    (hmem : env.kmallocFails s.brk = false) (hdot : isDotted (sfnName data off) = false)
    (hlook : lookupDCache (grabbed s) dir (sfnName data off) = some d)
    (hrest : ListsEntries env dir data offs (pinned d (sfnAttr data off == sfnAttrDir) (grabbed s)) t) :
    ListsEntries env dir data (off :: offs) s t
  | read {off d : ℕ} {offs : List ℕ} {s t u : FsSys}
    (hmem : env.kmallocFails s.brk = false) (hdot : isDotted (sfnName data off) = false)
    (hlook : lookupDCache (grabbed s) dir (sfnName data off) = none)
    (hcan : CanRead env data off dir (grabbed s))
    (hread : readDentryFromSfn env data off dir (sfnName data off) (grabbed s) = some (.ok d, u))
    (hdir : InCache u.dCache dir)
    (hrest : ListsEntries env dir data offs (pinned d (sfnAttr data off == sfnAttrDir) u) t) :
    ListsEntries env dir data (off :: offs) s t

section Entries

variable {new new' : List (List ℕ)} {data : ℕ → ℕ} {off cnt page : ℕ} {offs : List ℕ} {u : FsSys}
  {I : FsSys → Prop}

theorem ListedTo.trans (h : ListedTo names new dir s t) (h' : ListedTo names new' dir t u) :
    ListedTo names (new ++ new') dir s u where
  tree := h'.tree
  kept hk := h'.kept (h.kept hk)
  listed nm hnm := by
    rcases List.mem_append.mp hnm with hnm | hnm
    · obtain ⟨k, hk⟩ := h.listed nm hnm
      exact ⟨k, h'.kept hk⟩
    · exact h'.listed nm hnm

theorem DirTree.cached_child (h : DirTree names dir s) (hname : name ∈ names)
    (hlook : lookupDCache s dir name = some d) : IsChild s dir name d := by
  have hd : InCache s.dCache d := ⟨_, List.mem_of_find?_eq_some hlook⟩
  have htest := List.find?_some hlook
  simp only [Bool.and_eq_true, beq_iff_eq] at htest
  obtain ⟨hparent, hnamed⟩ := htest
  have hne : d ≠ dir := by
    rintro rfl
    exact h.own hparent name hname hnamed
  exact ⟨hd, hparent, h.children d hne hd hparent, hnamed⟩

theorem DirTree.lists_cached (h : DirTree names dir s) (hname : name ∈ names)
    (hlook : lookupDCache s dir name = some d) (isdir : Bool) :
    ListedTo names [name] dir s (Fs.pinned d isdir s) := by
  have hchild := h.cached_child hname hlook
  refine ⟨h.pinned isdir (h.sound.dHash d hchild.cached), fun hk => hk.pinned d isdir,
    fun nm hnm => ?_⟩
  rw [List.mem_singleton.mp hnm]
  exact ⟨d, hchild.pins isdir⟩

theorem DirTree.lists_read (h : DirTree names dir s) (hname : compareFat32 name dotdotName ≠ 0)
    (hr : readDentryFromSfn env data off dir name s = some (.ok d, u)) (hin : InCache u.dCache dir)
    (isdir : Bool) : ListedTo names [name] dir s (Fs.pinned d isdir u) := by
  obtain ⟨htree, hchild, hkept⟩ := h.read hname hr hin
  refine ⟨htree.pinned isdir (htree.sound.dHash d hchild.cached), fun hk => (hkept hk).pinned d isdir,
    fun nm hnm => ?_⟩
  rw [List.mem_singleton.mp hnm]
  exact ⟨d, hchild.pins isdir⟩

theorem not_dotdot (h : isDotted name = false) : compareFat32 name dotdotName ≠ 0 := by
  rw [isDotted, Bool.or_eq_false_iff] at h
  exact beq_eq_false_iff_ne.mp h.2

theorem listSfn_cached (hdata : (s.pages page).pData = data)
    (hlook : lookupDCache s dir (sfnName data off) = some d) : listSfn env dir page off s =
      some (.ok (), pinned d (sfnAttr data off == sfnAttrDir) s) := by
  rw [listSfn, Prog.get_bind_run]
  simp only [hdata, hlook]
  rfl

theorem listSfn_read (hdata : (s.pages page).pData = data)
    (hlook : lookupDCache s dir (sfnName data off) = none)
    (hread : readDentryFromSfn env data off dir (sfnName data off) s = some (.ok d, u)) :
    listSfn env dir page off s = some (.ok (), pinned d (sfnAttr data off == sfnAttrDir) u) := by
  have hfollow : follow (readDentryFromSfn env data off dir (sfnName data off)) s =
      some (.ok d, u) := by
    rw [follow, Prog.bind_ok (Prog.attempt_run hread)]
    rfl
  rw [listSfn, Prog.get_bind_run]
  simp only [hdata, hlook]
  rw [Prog.bind_ok hfollow]
  rfl

theorem grabbed_tree (s : FsSys) : SameTree s (grabbed s) := SameTree.frame.same _ _ (grabbed_same s)

theorem DirTree.grabs (h : DirTree names dir s) : ListedTo names [] dir s (grabbed s) :=
  ⟨h.loaded (grabbed_names s) (grabbed_tree s), fun hk => hk.loaded (grabbed_names s),
    fun _ hnm => absurd hnm List.not_mem_nil⟩

def newNames (data : ℕ → ℕ) (offs : List ℕ) : List (List ℕ) :=
  (offs.filter fun off => !isDotted (sfnName data off)).map (sfnName data)

theorem newNames_dotted (hdot : isDotted (sfnName data off) = true) :
    newNames data (off :: offs) = newNames data offs := by
  rw [newNames, List.filter_cons, hdot, Bool.not_true, if_neg Bool.false_ne_true, newNames]

theorem newNames_cons (hdot : isDotted (sfnName data off) = false) :
    newNames data (off :: offs) = sfnName data off :: newNames data offs := by
  rw [newNames, List.filter_cons, hdot, Bool.not_false, if_pos rfl, List.map_cons, newNames]

theorem ListsEntries.run (hI : Steady env cnt I) (hdata : ∀ s, I s → (s.pages page).pData = data)
    (h : ListsEntries env dir data offs s t) (hs : I s) (ht : DirTree names dir s)
    (hoffs : ∀ nm ∈ newNames data offs, nm ∈ names) :
    Prog.forEach (listEntry env dir page) offs s = some (.ok (), t) ∧ I t ∧
      ListedTo names (newNames data offs) dir s t := by
  induction h with
  | nil s => exact ⟨rfl, hs, ht, id, fun nm hnm => absurd hnm List.not_mem_nil⟩
  | @dotted off offs s t hmem hdot hrest ih =>
    have hstep : listEntry env dir page off s = some (.ok (), grabbed s) :=
      listEntry_dotted hmem (by rw [hdata s hs]; exact hdot)
    rw [newNames_dotted hdot] at hoffs ⊢
    obtain ⟨hrun, hIt, hrest⟩ := ih (hI.listEntry dir page off _ _ _ hs hstep).1 ht.grabs.tree hoffs
    exact ⟨(Prog.bind_ok hstep).trans hrun, hIt, ht.grabs.trans hrest⟩
  | @cached off d offs s t hmem hdot hlook hrest ih =>
    have hstep : listEntry env dir page off s =
        some (.ok (), pinned d (sfnAttr data off == sfnAttrDir) (grabbed s)) :=
      (listEntry_listed hmem (by rw [hdata s hs]; exact hdot)).trans
        (listSfn_cached (hdata s hs) hlook)
    rw [newNames_cons hdot] at hoffs ⊢
    have hlist := ht.grabs.trans (ht.grabs.tree.lists_cached (hoffs _ List.mem_cons_self) hlook
      (sfnAttr data off == sfnAttrDir))
    obtain ⟨hrun, hIt, hrest⟩ := ih (hI.listEntry dir page off _ _ _ hs hstep).1 hlist.tree
      fun nm hnm => hoffs nm (List.mem_cons_of_mem _ hnm)
    exact ⟨(Prog.bind_ok hstep).trans hrun, hIt, hlist.trans hrest⟩
  | @read off d offs s t u hmem hdot hlook _ hread hdir hrest ih =>
    have hstep : listEntry env dir page off s =
        some (.ok (), pinned d (sfnAttr data off == sfnAttrDir) u) :=
      (listEntry_listed hmem (by rw [hdata s hs]; exact hdot)).trans
        (listSfn_read (hdata s hs) hlook hread)
    rw [newNames_cons hdot] at hoffs ⊢
    have hlist := ht.grabs.trans (ht.grabs.tree.lists_read (not_dotdot hdot) hread hdir
      (sfnAttr data off == sfnAttrDir))
    obtain ⟨hrun, hIt, hrest⟩ := ih (hI.listEntry dir page off _ _ _ hs hstep).1 hlist.tree
      fun nm hnm => hoffs nm (List.mem_cons_of_mem _ hnm)
    exact ⟨(Prog.bind_ok hstep).trans hrun, hIt, hlist.trans hrest⟩

theorem ListsEntries.unlisted (h : ListsEntries env dir data offs s t) (hnil : newNames data offs = []) :
    SameNames s t ∧ SameTree s t := by
  induction h with
  | nil s => exact ⟨refl _, refl _⟩
  | dotted _ hdot _ ih =>
    rw [newNames_dotted hdot] at hnil
    obtain ⟨h1, h2⟩ := ih hnil
    exact ⟨IsTrans.trans _ _ _ (grabbed_names _) h1, IsTrans.trans _ _ _ (grabbed_tree _) h2⟩
  | cached _ hdot =>
    rw [newNames_cons hdot] at hnil
    cases hnil
  | read _ hdot =>
    rw [newNames_cons hdot] at hnil
    cases hnil

structure Evicted (dir : ℕ) (s : FsSys) : Prop where
  sound : SoundLists s
  lt : dir < s.brk
  gone : ¬ InCache s.dCache dir

theorem Evicted.of_tree (h : Evicted dir s) (ht : SameTree s t) : Evicted dir t :=
  ⟨ht.sound h.sound, h.lt.trans_le ht.brk, fun hc => h.gone (by rwa [InCache, ht.dHash] at hc)⟩

theorem Evicted.pinned (h : Evicted dir s) (isdir : Bool) (hc : c < s.brk) :
    Evicted dir (pinned c isdir s) := by
  refine ⟨pinned_sound isdir h.sound hc, ?_, ?_⟩
  · rw [pinned_brk]
    exact h.lt
  · rw [pinned_inCache]
    exact h.gone

theorem Evicted.listSfn (page off : ℕ) : Prog.Stays (Evicted dir) (listSfn env dir page off) := by
  intro s r t h hr
  refine ⟨?_, fun _ _ => trivial⟩
  obtain ⟨-, d, u, rfl, ⟨hlook, rfl⟩ | ⟨-, hread⟩⟩ := listSfn_cases hr
  · have hd := h.sound.dHash d ⟨_, List.mem_of_find?_eq_some hlook⟩
    exact h.pinned _ hd
  · obtain ⟨hevolves, hlt⟩ := readDentryFromSfn_evolves hread
    obtain ⟨hsound, V, he, -⟩ := hevolves h.lt h.sound
    have hgone : Evicted dir u :=
      ⟨hsound, h.lt.trans_le he.brk, fun hc => h.gone (he.old dir h.lt hc)⟩
    exact hgone.pinned _ (hlt d rfl)

theorem Evicted.listEntry (page off : ℕ) : Prog.Stays (Evicted dir) (listEntry env dir page off) := by
  intro s r t h hr
  have hgrabbed := h.of_tree (grabbed_tree s)
  obtain ⟨-, ⟨-, rfl, rfl⟩ | ⟨-, hsfn⟩⟩ := listEntry_cases hr
  · exact ⟨hgrabbed, fun _ _ => trivial⟩
  · exact Evicted.listSfn page off _ _ _ hgrabbed hsfn

theorem listPage_or (hI : Steady env cnt I) (hdata : ∀ s, I s → (s.pages page).pData = data)
    (hs : I s) (ht : DirTree names dir s) (hoffs : ∀ nm ∈ newNames data offs, nm ∈ names)
    {r : Except ℕ Unit} (h : Prog.forEach (Fs.listEntry env dir page) offs s = some (r, t)) :
    ListsEntries env dir data offs s t ∨ Evicted dir t := by
  induction offs generalizing s with
  | nil =>
    cases h
    exact .inl (.nil _)
  | cons off offs ih =>
    have hevicted : ∀ {w : FsSys}, Evicted dir w →
        Prog.forEach (Fs.listEntry env dir page) offs w = some (r, t) → Evicted dir t := fun hw hrun =>
      (Prog.Ensures.forEach offs (fun o _ => Evicted.listEntry page o) _ _ _ hw hrun).1
    rw [Prog.forEach] at h
    rcases Prog.bind_cases h with ⟨_, w, h1, h2⟩ | ⟨e, h1, -⟩
    · have hw := (hI.listEntry dir page off _ _ _ hs h1).1
      obtain ⟨hmem, hcase⟩ := listEntry_cases h1
      rw [hdata s hs] at hcase
      rcases hcase with ⟨hdot, -, rfl⟩ | ⟨hdot, hsfn⟩
      · rw [newNames_dotted hdot] at hoffs
        exact (ih hw ht.grabs.tree hoffs h2).imp_left (.dotted hmem hdot)
      rw [newNames_cons hdot] at hoffs
      have hnames := fun nm hnm => hoffs nm (List.mem_cons_of_mem _ hnm)
      have htree := ht.grabs.tree
      obtain ⟨-, d, u, rfl, hcase⟩ := listSfn_cases hsfn
      rw [show (grabbed s).pages = s.pages from rfl, hdata s hs] at hcase hw h2
      rcases hcase with ⟨hlook, rfl⟩ | ⟨hlook, hread⟩
      · exact (ih hw (htree.lists_cached (hoffs _ List.mem_cons_self) hlook _).tree hnames h2).imp_left
          (.cached hmem hdot hlook)
      · have hdir := htree.sound.dHash dir htree.cached
        by_cases hin : InCache u.dCache dir
        · have hcan := (readDentryFromSfn_ok_iff (not_dotdot hdot) htree.sound hdir).mp ⟨d, u, hread⟩
          exact (ih hw (htree.lists_read (not_dotdot hdot) hread hin _).tree hnames h2).imp_left
            (.read hmem hdot hlook hcan hread hin)
        · obtain ⟨hevolves, hlt⟩ := readDentryFromSfn_evolves hread
          obtain ⟨hsound, V, he, -⟩ := hevolves hdir htree.sound
          have hgone : Evicted dir u := ⟨hsound, hdir.trans_le he.brk, hin⟩
          exact .inr (hevicted (hgone.pinned _ (hlt d rfl)) h2)
    · obtain ⟨hr, -⟩ := listEntry_marks le_rfl h1
      cases hr

end Entries

/-- The loop over the blocks reaches its end, or the first thing that fails is the load of a block
before any entry has been `listed`. -/
inductive ListsBlocks (env : FsEnv) (dir blksize : ℕ) (c : ℕ → ℕ → ℕ) :
    Bool → List ℕ → FsSys → Prop where
  | nil (listed : Bool) (s : FsSys) : ListsBlocks env dir blksize c listed [] s
  | unread {m e : ℕ} {ms : List ℕ} {s t : FsSys}
    (hload : getFspage env m blksize s = some (.error e, t)) :
    ListsBlocks env dir blksize c false (m :: ms) s
  | block {listed : Bool} {m page : ℕ} {ms : List ℕ} {s u v : FsSys}
    (hload : getFspage env m blksize s = some (.ok page, u))
    (hentries : ListsEntries env dir (u.pages page).pData
      (visibleSfn scanSkips (c m) (sfnOffsets blksize)) u v)
    (hrest : ListsBlocks env dir blksize c
      (listed || !(listedSfn (c m) (sfnOffsets blksize)).isEmpty) ms v) :
    ListsBlocks env dir blksize c listed (m :: ms) s

section Blocks

variable {maps ms : List ℕ} {cnt m page : ℕ} {a : ℕ → ℕ} {c : ℕ → ℕ → ℕ} {listed : Bool} {u : FsSys}

theorem newNames_block {data : ℕ → ℕ} {blksize : ℕ}
    (hsame : SameSfns data (c m) (sfnOffsets blksize)) :
    newNames data (visibleSfn scanSkips (c m) (sfnOffsets blksize)) =
      (listedSfn (c m) (sfnOffsets blksize)).map fun off => entryName c (m, off) := by
  rw [newNames, hsame.filter_listed]
  exact List.map_congr_left fun off hoff => hsame.name (mem_visibleSfn (List.mem_filter.mp hoff).1)

theorem block_names {data : ℕ → ℕ} {blksize : ℕ} (hsame : SameSfns data (c m) (sfnOffsets blksize))
    (hnames : ∀ e ∈ listedEntries blksize c (m :: ms), entryName c e ∈ names) :
    ∀ nm ∈ newNames data (visibleSfn scanSkips (c m) (sfnOffsets blksize)), nm ∈ names := by
  intro nm hnm
  rw [newNames_block hsame] at hnm
  obtain ⟨off, hoff, rfl⟩ := List.mem_map.mp hnm
  exact hnames (m, off) (List.mem_append_left _ (List.mem_map.mpr ⟨off, hoff, rfl⟩))

theorem block_loaded (hs : Shows maps cnt a c s) (ht : DirTree names dir s) (hm : m ∈ maps)
    (hload : getFspage env m (sectorSize * cnt) s = some (.ok page, u)) :
    (Shows maps cnt a c u ∧ page < u.brk) ∧ ListedTo names [] dir s u ∧
      SameSfns (u.pages page).pData (c m) (sfnOffsets (sectorSize * cnt)) := by
  obtain ⟨hsu, hp⟩ := getFspage_shows hs (sectors_shiftRight cnt).le hload
  have hp := hp page rfl
  have hnames := SameNames.frame.getFspage env m _ _ _ _ hload
  have htree := SameTree.frame.getFspage env m _ _ _ _ hload
  exact ⟨⟨hsu, (hsu.page m hm page hp).1⟩, ⟨ht.loaded hnames htree, fun hk => hk.loaded hnames,
    fun nm hnm => absurd hnm List.not_mem_nil⟩, hsu.sameSfns hm hp⟩

theorem listEntries_cons {blksize : ℕ} {v : FsSys}
    (hload : getFspage env m blksize s = some (.ok page, u))
    (hrun : Prog.forEach (listEntry env dir page) (visibleSfn scanSkips (c m) (sfnOffsets blksize)) u =
      some (.ok (), v)) :
    listEntries env dir blksize c (m :: ms) s = listEntries env dir blksize c ms v :=
  Prog.bind_ok ((Prog.bind_ok hload).trans hrun)

theorem ListsBlocks.run (h : ListsBlocks env dir (sectorSize * cnt) c listed ms s)
    (hs : Shows maps cnt a c s) (ht : DirTree names dir s) (hms : ∀ m ∈ ms, m ∈ maps)
    (hnames : ∀ e ∈ listedEntries (sectorSize * cnt) c ms, entryName c e ∈ names) :
    (∃ t, listEntries env dir (sectorSize * cnt) c ms s = some (.ok (), t) ∧
      ListedTo names ((listedEntries (sectorSize * cnt) c ms).map (entryName c)) dir s t) ∨
    listed = false ∧ ∃ e t, listEntries env dir (sectorSize * cnt) c ms s = some (.error e, t) ∧
      SameNames s t ∧ SameTree s t := by
  induction h with
  | nil listed s => exact .inl ⟨s, rfl, ht, id, fun nm hnm => absurd hnm List.not_mem_nil⟩
  | @unread m e ms s t hload =>
    exact .inr ⟨rfl, e, t, Prog.bind_error (Prog.bind_error hload),
      SameNames.frame.getFspage env m _ _ _ _ hload, SameTree.frame.getFspage env m _ _ _ _ hload⟩
  | @block listed m page ms s u v hload hentries hrest ih =>
    obtain ⟨hu, hlu, hsame⟩ := block_loaded hs ht (hms m List.mem_cons_self) hload
    obtain ⟨hrun, hv, hlv⟩ := hentries.run (Steady.showsPage env maps cnt a c page _)
      (fun _ hs => hs.2.2) ⟨hu.1, hu.2, rfl⟩ hlu.tree (block_names hsame hnames)
    rw [listEntries_cons hload hrun, listedEntries_cons, List.map_append, List.map_map]
    rw [newNames_block hsame] at hlv
    rcases ih hv.1 hlv.tree (fun k hk => hms k (List.mem_cons_of_mem _ hk))
      (fun e he => hnames e (List.mem_append_right _ he)) with ⟨t, ht, hlt⟩ | ⟨hnone, e, t, ht, h1, h2⟩
    · exact .inl ⟨t, ht, (hlu.trans hlv).trans hlt⟩
    · rw [Bool.or_eq_false_iff, Bool.not_eq_false', List.isEmpty_iff] at hnone
      obtain ⟨h3, h4⟩ := hentries.unlisted (by rw [newNames_block hsame, hnone.2, List.map_nil])
      exact .inr ⟨hnone.1, e, t, ht,
        IsTrans.trans _ _ _ (SameNames.frame.getFspage env m _ _ _ _ hload) (IsTrans.trans _ _ _ h3 h1),
        IsTrans.trans _ _ _ (SameTree.frame.getFspage env m _ _ _ _ hload) (IsTrans.trans _ _ _ h4 h2)⟩

theorem Evicted.listEntries (blksize : ℕ) (ms : List ℕ) :
    Prog.Stays (Evicted dir) (Fs.listEntries env dir blksize c ms) := by
  refine Prog.Ensures.forEach ms fun m _ => ?_
  have hload : Prog.Stays (Evicted dir) (getFspage env m blksize) := fun s r t h hr =>
    ⟨h.of_tree (SameTree.frame.getFspage env m blksize _ _ _ hr), fun _ _ => trivial⟩
  exact hload.bind fun page _ => .forEach _ fun off _ => Evicted.listEntry page off

theorem listEntries_or (listed : Bool) {B : ℕ} {r : Except ℕ Unit} (hB : B ≤ s.brk) (hs : Shows maps cnt a c s)
    (ht : DirTree names dir s) (hms : ∀ m ∈ ms, m ∈ maps)
    (hnames : ∀ e ∈ listedEntries (sectorSize * cnt) c ms, entryName c e ∈ names)
    (h : Fs.listEntries env dir (sectorSize * cnt) c ms s = some (r, t)) :
    ListsBlocks env dir (sectorSize * cnt) c listed ms s ∨ Evicted dir t ∨ ∃ e, r = .error e ∧
      (listed = true ∨ ∃ k, Marked B (listedEntries (sectorSize * cnt) c ms).length s t k) := by
  induction ms generalizing s listed with
  | nil => exact .inl (.nil listed s)
  | cons m ms ih =>
    have hm := hms m List.mem_cons_self
    have hrest := fun k (hk : k ∈ ms) => hms k (List.mem_cons_of_mem _ hk)
    rw [listedEntries_cons, List.length_append, List.length_map]
    rw [Fs.listEntries, Prog.forEach] at h
    rcases Prog.bind_cases h with ⟨_, v, h1, h2⟩ | ⟨e, h1, rfl⟩
    · obtain ⟨page, u, hload, hentries⟩ := Prog.bind_ok_cases h1
      obtain ⟨hu, hlu, hsame⟩ := block_loaded hs ht hm hload
      have hI := Steady.showsPage env maps cnt a c page (u.pages page).pData
      have hoffs := block_names hsame hnames
      obtain ⟨-, hsv, hcase⟩ := loaded_marks hs hm hB hload hentries
      rcases listPage_or hI (fun _ hs => hs.2.2) ⟨hu.1, hu.2, rfl⟩ hlu.tree hoffs hentries with
        hlists | hgone
      · obtain ⟨-, -, hlv⟩ := hlists.run hI (fun _ hs => hs.2.2) ⟨hu.1, hu.2, rfl⟩ hlu.tree hoffs
        have hBv : B ≤ v.brk := by
          rcases hcase with ⟨-, hkept⟩ | ⟨hkept, -⟩
          · exact hB.trans hkept.brk
          · exact hB.trans hkept.brk
        rcases ih (listed || !(listedSfn (c m) (sfnOffsets (sectorSize * cnt))).isEmpty)
          hBv hsv hlv.tree hrest (fun e he => hnames e (List.mem_append_right _ he)) h2 with
          hblocks | hgone | ⟨e, rfl, hfail⟩
        · exact .inl (.block hload hlists hblocks)
        · exact .inr (.inl hgone)
        · refine .inr (.inr ⟨e, rfl, ?_⟩)
          rcases hcase with ⟨hnil, hkept⟩ | ⟨hmarks, k, hk⟩
          · rw [hnil, List.isEmpty_nil, Bool.not_true, Bool.or_false] at hfail
            rw [hnil, List.length_nil]
            rcases hfail with hlisted | ⟨k, hk⟩
            · exact .inl hlisted
            · exact .inr ⟨k, hkept.listed.marked hk⟩
          · refine .inr ?_
            -- what the block has marked is still marked at the end
            rcases (listEntries_marks hsv hrest hBv h2).2 with ⟨k', hk'⟩ | ⟨hkept, -⟩
            · exact ⟨k', hmarks.marked hk'⟩
            · exact ⟨k, (hk.of_sameNames hkept).mono (Nat.le_add_right _ _)⟩
      · exact .inr (.inl (Evicted.listEntries _ ms _ _ _ hgone h2).1)
    · rcases Prog.bind_cases h1 with ⟨page, u, hload, hentries⟩ | ⟨e', hload, hr⟩
      · obtain ⟨hr, -⟩ := loaded_marks hs hm hB hload hentries
        cases hr
      · cases hr
        cases listed with
        | false => exact .inl (.unread hload)
        | true => exact .inr (.inr ⟨e, rfl, .inl rfl⟩)

end Blocks

end OurOS.Fs
