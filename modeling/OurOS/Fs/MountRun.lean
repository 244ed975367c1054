import OurOS.Fs.DeleteDir
import OurOS.Fs.Mount
import OurOS.Fs.TreeRun
import OurOS.Fs.MapBuild

namespace OurOS.Fs

section Card

variable (sd : SdCard)

def baseOf : ℕ := dptBaseAddr (readSectors sd 0)

def dbrOf : ℕ → ℕ := readSectors sd (baseOf sd)

def volumeOf : SuperBlock :=
  initSb (baseOf sd) (readSectors sd ((baseOf sd + 1) % uintRange)) (dbrOf sd)
    ⟨0, 0, 0, none, none, 0, 0, 0, 0⟩

theorem mounted_volumeOf : Mounted (volumeOf sd) (dbrSecPerClu (dbrOf sd)) := ⟨rfl, rfl⟩

def usedBytes (blksize : ℕ) (data : ℕ → ℕ) : ℕ :=
  sfnSize * (usedSfn data (sfnOffsets blksize)).length

def chainBytes (b : SuperBlock) (cs : List ℕ) : ℕ :=
  (cs.map fun c => usedBytes b.sBlocksize (readSectors sd (cluSec b c))).sum

/-- The chain of a directory, of which no link looks like an error code. -/
structure ReadChain (b : SuperBlock) (clu : ℕ) (cs : List ℕ) : Prop where
  follows : FollowsTo (fatOf b sd) clu cs
  links : ∀ c ∈ cs, isErrValue (fatOf b sd c) = false

def poweredOn : FsSys := { blankSys with sd := sd }

end Card

section Sizes

variable {data : ℕ → ℕ} {offs : List ℕ} {iSize : ℕ}

theorem sizeEntries_eq (h : iSize < uintRange) : sizeEntries data offs iSize =
    (iSize + sfnSize * (usedSfn data offs).length) % uintRange := by
  induction offs generalizing iSize with
  | nil => exact (Nat.mod_eq_of_lt h).symm
  | cons off offs ih =>
    rw [sizeEntries, usedSfn, List.takeWhile_cons]
    by_cases hoff : data off = sfnMarkUnused
    · rw [if_pos hoff, if_neg (by simp [hoff])]
      exact (Nat.mod_eq_of_lt h).symm
    · rw [if_neg hoff, if_pos (by simp [hoff]), ih (Nat.mod_lt _ (by decide)), Nat.mod_add_mod,
        List.length_cons, ← usedSfn]
      congr 1
      rw [Nat.mul_succ]
      omega

end Sizes

section Chain

variable {env : FsEnv} {b : SuperBlock} {node clu : ℕ} {s t : FsSys}

theorem readSectors_eq {sd sd' : SdCard} (h : sd'.sector = sd.sector) :
    readSectors sd' = readSectors sd := by
  funext addr o
  rw [readSectors, readSectors, h]

theorem chainBytes_eq {sd sd' : SdCard} (b : SuperBlock) (cs : List ℕ)
    (h : sd'.sector = sd.sector) : chainBytes sd' b cs = chainBytes sd b cs := by
  rw [chainBytes, chainBytes, readSectors_eq h]

theorem ReadChain.congr {sd sd' : SdCard} {cs : List ℕ} (h : ReadChain sd b clu cs)
    (hs : sd'.sector = sd.sector) : ReadChain sd' b clu cs := by
  have hfat : fatOf b sd' = fatOf b sd := by
    funext c
    rw [fatOf, fatOf, readSectors_eq hs]
  exact ⟨hfat ▸ h.follows, hfat ▸ h.links⟩

theorem ReadChain.cons {sd : SdCard} {cs : List ℕ} (hend : clu ≠ fatItemEnd)
    (herr : isErrValue (fatOf b sd clu) = false) (h : ReadChain sd b (fatOf b sd clu) cs) :
    ReadChain sd b clu (clu :: cs) := by
  refine ⟨⟨rfl, hend, h.follows⟩, fun c hc => ?_⟩
  rcases List.mem_cons.mp hc with rfl | hc
  · exact herr
  · exact h.links c hc

structure MapRead (b : SuperBlock) (node : ℕ) (s t : FsSys) (cs new : List ℕ) : Prop where
  same : t = { s with
    brk := t.brk, live := t.live, sd := t.sd, maps := t.maps, inodes := t.inodes }
  brk : s.brk ≤ t.brk
  card : t.sd.sector = s.sd.sector
  other : ∀ n, n ≠ node → t.inodes n = s.inodes n
  inode : t.inodes node = { s.inodes node with
    iBlocks := ((s.inodes node).iBlocks + cs.length) % uintRange
    iDataMap := (s.inodes node).iDataMap ++ new }
  old : ∀ m < s.brk, t.maps m = s.maps m
  addrs : new.map (fun m => (t.maps m).mapAddr) = cs.map (cluSec b)
  fresh : ∀ m ∈ new, s.brk ≤ m ∧ m < t.brk ∧ (t.maps m).mapPage = none
  nodup : new.Nodup

theorem MapRead.nil (h : (s.inodes node).iBlocks < uintRange) : MapRead b node s s [] [] where
  same := rfl
  brk := le_rfl
  card := rfl
  other _ _ := rfl
  inode := by
    have hblk : ((s.inodes node).iBlocks + 0) % uintRange = (s.inodes node).iBlocks := by
      rw [Nat.add_zero, Nat.mod_eq_of_lt h]
    simp only [List.length_nil, hblk, List.append_nil]
  old _ _ := rfl
  addrs := by rw [List.map_nil, List.map_nil]
  fresh m hm := absurd hm List.not_mem_nil
  nodup := List.nodup_nil

theorem MapRead.turn {cs new : List ℕ} (h : MapRead b node (turned node b clu s) t cs new) :
    MapRead b node s t (clu :: cs) (s.brk :: new) := by
  have hbrk := h.brk
  have hlt : s.brk + 2 ≤ t.brk := hbrk
  have hold {m : ℕ} (hm : m < s.brk + 2) : t.maps m = (turned node b clu s).maps m := h.old m hm
  have hmap (m : ℕ) : (turned node b clu s).maps m = if m = s.brk then newMap b clu else s.maps m :=
    Function.update_apply ..
  have hnode : (turned node b clu s).inodes node = { s.inodes node with
      iBlocks := ((s.inodes node).iBlocks + 1) % uintRange
      iDataMap := (s.inodes node).iDataMap ++ [s.brk] } := Function.update_self ..
  have hnew : t.maps s.brk = newMap b clu := by
    rw [hold (by omega), hmap, if_pos rfl]
  refine ⟨?_, by omega, h.card, fun n hn => ?_, ?_, fun m hm => ?_, ?_, fun m hm => ?_, ?_⟩
  · exact h.same
  · exact (h.other n hn).trans (Function.update_of_ne hn ..)
  · rw [h.inode, hnode]
    simp only [List.length_cons, List.append_assoc, List.singleton_append, Nat.mod_add_mod]
    congr 2
    omega
  · rw [hold (by omega), hmap, if_neg hm.ne]
  · rw [List.map_cons, List.map_cons, h.addrs, hnew]
    rfl
  · rcases List.mem_cons.mp hm with rfl | hm
    · exact ⟨le_rfl, by omega, by rw [hnew]; rfl⟩
    · obtain ⟨h1, h2⟩ := h.fresh m hm
      exact ⟨Nat.le_of_add_right_le (k := 2) h1, h2⟩
  · refine List.nodup_cons.mpr ⟨fun hm => ?_, h.nodup⟩
    have h1 : s.brk + 2 ≤ s.brk := (h.fresh s.brk hm).1
    omega

theorem buildDataMap_reads {fuel : ℕ} (hblk : (s.inodes node).iBlocks < uintRange)
    (h : buildDataMap env node b fuel clu s = some (.ok (), t)) :
    ∃ cs new, cs.length < fuel ∧ ReadChain s.sd b clu cs ∧ MapRead b node s t cs new := by
  induction fuel generalizing clu s with
  | zero => cases h
  | succ fuel ih =>
    by_cases hend : clu = fatItemEnd
    · rw [buildDataMap, if_pos hend] at h
      cases h
      exact ⟨[], [], Nat.succ_pos _, ⟨hend, fun c hc => absurd hc List.not_mem_nil⟩, .nil hblk⟩
    · cases herr : isErrValue (walk env b s clu 1) with
      | true =>
        obtain ⟨e, u, hrun⟩ := (turn_error node herr hend fuel).1
        rw [hrun] at h
        cases h
      | false =>
        obtain ⟨-, -, hval⟩ := turn_ok node herr
        rw [buildDataMap_turn herr hend] at h
        obtain ⟨cs, new, hlen, hchain, hread⟩ := ih
          (by simp [turned, accessed, grabbed, appendBlock, FsSys.setInode, uintRange,
            Nat.mod_lt]) h
        refine ⟨clu :: cs, s.brk :: new, Nat.succ_lt_succ hlen, ?_, hread.turn⟩
        rw [hval] at hchain herr
        exact .cons hend herr (hchain.congr rfl)

end Chain

structure SameNodes (s t : FsSys) : Prop where
  sbList : t.sbList = s.sbList
  inodes : t.inodes = s.inodes
  dentries : t.dentries = s.dentries
  dCache : t.dCache = s.dCache
  iCache : t.iCache = s.iCache

instance sameNodes_refl : Std.Refl SameNodes := ⟨fun _ => ⟨rfl, rfl, rfl, rfl, rfl⟩⟩

instance sameNodes_trans : IsTrans FsSys SameNodes where
  trans _ _ _ h₁ h₂ := ⟨h₂.sbList.trans h₁.sbList, h₂.inodes.trans h₁.inodes,
    h₂.dentries.trans h₁.dentries, h₂.dCache.trans h₁.dCache, h₂.iCache.trans h₁.iCache⟩

theorem SameNodes.frame : PageFrame SameNodes where
  same _ _ h := ⟨h.sbList, h.inodes, h.dentries, h.dCache, h.iCache⟩
  paged _ _ _ _ _ := ⟨rfl, rfl, rfl, rfl, rfl⟩

def Clean (s : FsSys) : Prop := ∀ p, (s.pages p).pDirt = false

section Load

variable {env : FsEnv} {s t : FsSys} {node m blksize p : ℕ}

theorem Quiet.clean (h : Quiet s t) (hc : Clean s) : Clean t := by
  intro p
  by_contra hp
  have hdirt : (t.pages p).pDirt = true := by simpa using hp
  have hold := hc p
  rw [h.dirty p hdirt, hold] at hdirt
  cases hdirt

theorem Quiet.card (h : Quiet s t) (hc : Clean s) : t.sd.sector = s.sd.sector := by
  funext sec
  refine h.sectors (fun _ => True) (fun p hp => ?_) sec trivial
  rw [hc p] at hp
  cases hp

structure BlockRead (m p : ℕ) (s t : FsSys) : Prop where
  nodes : SameNodes s t
  sbs : t.sbs = s.sbs
  brk : s.brk ≤ t.brk
  card : t.sd.sector = s.sd.sector
  clean : Clean t
  data : (t.pages p).pData = readSectors s.sd (s.maps m).mapAddr
  mapAddr : ∀ x < s.brk, (t.maps x).mapAddr = (s.maps x).mapAddr
  mapPage : ∀ x < s.brk, x ≠ m → (t.maps x).mapPage = (s.maps x).mapPage

theorem getFspage_blockRead (hc : Clean s) (hnone : (s.maps m).mapPage = none)
    (h : getFspage env m blksize s = some (.ok p, t)) : BlockRead m p s t := by
  have hnodes := SameNodes.frame.getFspage env m blksize _ _ _ h
  rcases getFspage_cases h with ⟨hp, -⟩ | ⟨-, u, halloc, rfl⟩
  · rw [hnone] at hp
    cases hp
  obtain ⟨rfl, -, d, hpage⟩ := allocFspage_page halloc
  have hq := (allocFspage_quiet env _ _ _ _ _ (.refl s) halloc).1
  refine ⟨hnodes, hq.sbs, hq.brk, hq.card hc, hq.clean hc, ?_, fun x hx => ?_, fun x hx hne => ?_⟩
  · change (u.pages s.brk).pData = _
    rw [hpage]
    rfl
  · rw [← hq.maps x hx]
    by_cases e : x = m
    · subst e
      simp [FsSys.setMap]
    · simp [FsSys.setMap, e]
  · rw [← hq.maps x hx]
    simp [FsSys.setMap, hne]

end Load

structure Sized (node blksize : ℕ) (maps : List ℕ) (s t : FsSys) : Prop where
  sbList : t.sbList = s.sbList
  dentries : t.dentries = s.dentries
  dCache : t.dCache = s.dCache
  iCache : t.iCache = s.iCache
  sbs : t.sbs = s.sbs
  brk : s.brk ≤ t.brk
  card : t.sd.sector = s.sd.sector
  clean : Clean t
  inode : t.inodes = Function.update s.inodes node { s.inodes node with
    iSize := ((s.inodes node).iSize + (maps.map fun m =>
      usedBytes blksize (readSectors s.sd (s.maps m).mapAddr)).sum) % uintRange }
  mapAddr : ∀ x < s.brk, (t.maps x).mapAddr = (s.maps x).mapAddr

section Root

variable {env : FsEnv} {s t u : FsSys} {node m blksize p : ℕ} {maps : List ℕ}

theorem Sized.nil (hc : Clean s) (h : (s.inodes node).iSize < uintRange) :
    Sized node blksize [] s s := by
  have hsize : ((s.inodes node).iSize + 0) % uintRange = (s.inodes node).iSize := by
    rw [Nat.add_zero, Nat.mod_eq_of_lt h]
  refine ⟨rfl, rfl, rfl, rfl, rfl, le_rfl, rfl, hc, ?_, fun _ _ => rfl⟩
  rw [List.map_nil, List.sum_nil, hsize, Function.update_eq_self]

theorem BlockRead.sized (h : BlockRead m p s u) (hm : ∀ x ∈ maps, x < s.brk)
    (hsize : (s.inodes node).iSize < uintRange)
    (hs : Sized node blksize maps (sizePage node p blksize u) t) :
    Sized node blksize (m :: maps) s t := by
  have hcount : ((sizePage node p blksize u).inodes node).iSize = ((s.inodes node).iSize +
      usedBytes blksize (readSectors s.sd (s.maps m).mapAddr)) % uintRange := by
    simp only [sizePage, FsSys.setInode, Function.update_self, h.nodes.inodes, h.data]
    exact sizeEntries_eq hsize
  have hrest : (maps.map fun x => usedBytes blksize (readSectors (sizePage node p blksize u).sd
        ((sizePage node p blksize u).maps x).mapAddr)) =
      maps.map fun x => usedBytes blksize (readSectors s.sd (s.maps x).mapAddr) := by
    refine List.map_congr_left fun x hx => ?_
    change usedBytes blksize (readSectors u.sd (u.maps x).mapAddr) = _
    rw [readSectors_eq h.card, h.mapAddr x (hm x hx)]
  refine ⟨hs.sbList.trans h.nodes.sbList, hs.dentries.trans h.nodes.dentries,
    hs.dCache.trans h.nodes.dCache, hs.iCache.trans h.nodes.iCache, hs.sbs.trans h.sbs,
    h.brk.trans hs.brk, hs.card.trans h.card, hs.clean, ?_, fun x hx => ?_⟩
  · rw [hs.inode, hcount, hrest, List.map_cons, List.sum_cons, Nat.mod_add_mod, Nat.add_assoc]
    simp only [sizePage, FsSys.setInode, Function.update_self, Function.update_idem,
      h.nodes.inodes]
  · exact (hs.mapAddr x (hx.trans_le h.brk)).trans (h.mapAddr x hx)

theorem sizeRoot_sized (hc : Clean s) (hnd : maps.Nodup)
    (hm : ∀ x ∈ maps, x < s.brk ∧ (s.maps x).mapPage = none)
    (hsize : (s.inodes node).iSize < uintRange)
    (h : sizeRoot env node blksize maps s = some (.ok (), t)) :
    Sized node blksize maps s t := by
  induction maps generalizing s with
  | nil =>
    cases h
    exact .nil hc hsize
  | cons m maps ih =>
    obtain ⟨p, u, hload, h⟩ := Prog.bind_ok_cases h
    rw [Prog.modify_bind_run] at h
    obtain ⟨hnot, hnd⟩ := List.nodup_cons.mp hnd
    have hl := getFspage_blockRead hc (hm m List.mem_cons_self).2 hload
    have hold : ∀ x ∈ maps, x < s.brk := fun x hx => (hm x (List.mem_cons_of_mem m hx)).1
    refine hl.sized hold hsize (ih hl.clean hnd (fun x hx => ⟨?_, ?_⟩) ?_ h)
    · exact (hold x hx).trans_le hl.brk
    · refine (hl.mapPage x (hold x hx) fun e => hnot (e ▸ hx)).trans ?_
      exact (hm x (List.mem_cons_of_mem m hx)).2
    · simp only [sizePage, FsSys.setInode, Function.update_self]
      rw [hl.nodes.inodes, sizeEntries_eq hsize]
      exact Nat.mod_lt _ (by decide)

end Root

/-- Nothing of a tree is there yet. -/
structure Bare (s : FsSys) : Prop where
  clean : Clean s
  iDentry : ∀ n, (s.inodes n).iDentry = []
  subdirs : ∀ d, (s.dentries d).dSubdirs = []
  sRoot : ∀ sb, (s.sbs sb).sRoot = 0
  dCache : s.dCache = ⟨0, [], fun _ => []⟩
  iCache : s.iCache = ⟨0, [], fun _ => []⟩

def rootInode (sd : SdCard) (b : SuperBlock) (sb clu root : ℕ) (cs maps : List ℕ) : Inode where
  iIno := cluSec b clu
  iCount := 1
  iSize := chainBytes sd b cs % uintRange
  iBlocks := cs.length
  iPinned := true
  iIsdir := true
  iDentry := [root]
  iDataMap := maps
  iSb := sb

def rootEntry (sb node root : ℕ) : Dentry where
  dCount := 0
  dPinned := true
  dMounted := false
  dSubdirs := []
  dSb := sb
  dInode := node
  dParent := some root
  dName := [slash]

structure RootBuilt (b : SuperBlock) (sb clu node root : ℕ) (cs maps : List ℕ) (s t : FsSys) :
    Prop where
  node_lt : node < t.brk
  root_lt : root < t.brk
  sbList : t.sbList = s.sbList
  sbs : t.sbs = Function.update s.sbs sb
    { b with sRoot := root, mntParent := none, mntMntpoint := none }
  card : t.sd.sector = s.sd.sector
  clean : Clean t
  inodes : t.inodes = Function.update s.inodes node (rootInode s.sd b sb clu root cs maps)
  dentries : t.dentries = Function.update s.dentries root (rootEntry sb node root)
  dCache : t.dCache = s.dCache.add (hashString [slash]) root
  iCache : t.iCache = (s.iCache.add (hashInt (cluSec b clu)) node).touch node
  addrs : maps.map (fun m => (t.maps m).mapAddr) = cs.map (cluSec b)

section Mounting

variable {env : FsEnv} {b : SuperBlock} {sb clu : ℕ} {s t : FsSys}

theorem allocInodeFat32_read {node : ℕ} (hi : s.iCache.size = 0)
    (h : allocInodeFat32 env sb clu 0 true s = some (.ok node, t)) : node = s.brk ∧
      ∃ cs new v, cs.length < uintRange ∧ ReadChain s.sd (s.sbs sb) clu cs ∧
        MapRead (s.sbs sb) s.brk (begun sb clu 0 true s) v cs new ∧ t = enteredI s.brk v := by
  rcases allocInodeFat32_cases h with ⟨-, he, -⟩ | ⟨-, v, r, hb, hrun, ⟨e, -, he, -⟩ | ⟨rfl, u, room,
    hf, hr, ht⟩⟩
  · cases he
  · cases he
  have hroom : ¬ v.iCache.size = icacheCapacity := by
    rw [hb.iCache]
    change ¬ s.iCache.size = icacheCapacity
    rw [hi]
    decide
  obtain ⟨rfl, rfl⟩ := hf.notFull hroom
  have hblk : ((begun sb clu 0 true s).inodes s.brk).iBlocks < uintRange := by
    rw [begun_inodes, if_pos rfl]
    exact Nat.two_pow_pos 32
  obtain ⟨cs, new, hlen, hchain, hread⟩ := buildDataMap_reads hblk hrun
  cases hr
  exact ⟨rfl, cs, new, _, hlen, hchain.congr rfl, hread, ht⟩

def mappedRoot (b : SuperBlock) (sb clu : ℕ) (cs maps : List ℕ) : Inode :=
  { newInode sb b clu 0 true with iPinned := true, iBlocks := cs.length, iDataMap := maps }

theorem MapRead.pinned {v : FsSys} {cs new : List ℕ} (hlen : cs.length < uintRange)
    (h : MapRead (s.sbs sb) s.brk (begun sb clu 0 true s) v cs new) :
    (pinInode s.brk (enteredI s.brk v)).inodes =
      Function.update s.inodes s.brk (mappedRoot (s.sbs sb) sb clu cs new) := by
  funext n
  by_cases e : n = s.brk
  · subst e
    change Function.update v.inodes s.brk { v.inodes s.brk with iPinned := true } s.brk = _
    rw [Function.update_self, Function.update_self]
    have hmod : (0 + cs.length) % uintRange = cs.length := by
      rw [Nat.zero_add, Nat.mod_eq_of_lt hlen]
    rw [h.inode, begun_inodes, if_pos rfl]
    simp only [newInode, hmod, mappedRoot, List.nil_append]
  · rw [Function.update_of_ne e]
    change Function.update v.inodes s.brk _ n = _
    rw [Function.update_of_ne e, h.other n e, begun_inodes, if_neg e]

theorem MapRead.rootAt {v : FsSys} {cs new : List ℕ} (hlen : cs.length < uintRange)
    (h : MapRead (s.sbs sb) s.brk (begun sb clu 0 true s) v cs new) :
    (pinInode s.brk (enteredI s.brk v)).inodes s.brk = mappedRoot (s.sbs sb) sb clu cs new := by
  rw [h.pinned hlen, Function.update_self]

theorem MapRead.pinnedClean {v : FsSys} {cs new : List ℕ} (hs : Bare s)
    (h : MapRead (s.sbs sb) s.brk (begun sb clu 0 true s) v cs new) :
    Clean (pinInode s.brk (enteredI s.brk v)) := by
  intro p
  change (v.pages p).pDirt = false
  rw [h.same]
  exact hs.clean p

theorem linked_root {node : ℕ} {name : List ℕ} :
    (linked sb node none name s).dentries =
      Function.update s.dentries s.brk (newDentry sb node s.brk none name) ∧
    (linked sb node none name s).iCache = s.iCache.touch node ∧
    (linked sb node none name s).inodes = Function.update s.inodes node { s.inodes node with
      iCount := (s.inodes node).iCount + 1
      iDentry := s.brk :: (s.inodes node).iDentry } := by
  refine ⟨rfl, rfl, ?_⟩
  funext n
  rw [linked_inodes]
  by_cases e : n = node
  · subst e
    simp
  · simp [e]

theorem MapRead.rootBuilt {v u : FsSys} {cs new : List ℕ} (hlen : cs.length < uintRange)
    (h : MapRead (s.sbs sb) s.brk (begun sb clu 0 true s) v cs new)
    (hu : Sized s.brk (s.sbs sb).sBlocksize new (pinInode s.brk (enteredI s.brk v)) u) :
    RootBuilt (s.sbs sb) sb clu s.brk u.brk cs new s
      (setRoot sb u.brk (enteredD u.brk (linked sb s.brk none [slash] u))) := by
  obtain ⟨hdentries, hicache, hlinked⟩ := @linked_root sb u s.brk [slash]
  have hrest : v.sbList = s.sbList ∧ v.dentries = s.dentries ∧ v.dCache = s.dCache ∧
      v.iCache = s.iCache ∧ v.sbs = s.sbs := by
    rw [h.same]
    exact ⟨rfl, rfl, rfl, rfl, rfl⟩
  obtain ⟨hsbList, hold, hdc, hic, hsbs⟩ := hrest
  have hiIno : (v.inodes s.brk).iIno = cluSec (s.sbs sb) clu := by
    rw [h.inode, begun_inodes, if_pos rfl]
    rfl
  have haddrs : new.map (fun m => (u.maps m).mapAddr) = cs.map (cluSec (s.sbs sb)) := by
    rw [← h.addrs]
    exact List.map_congr_left fun m hm => hu.mapAddr m (h.fresh m hm).2.1
  have hlow : s.brk < u.brk := h.brk.trans hu.brk
  refine ⟨hlow.trans (Nat.lt_succ_self _), Nat.lt_succ_self _, hu.sbList.trans hsbList, ?_,
    hu.card.trans h.card, hu.clean, ?_, ?_, ?_, ?_, haddrs⟩
  · have hsb : u.sbs = s.sbs := hu.sbs.trans hsbs
    change Function.update u.sbs sb { u.sbs sb with
      sRoot := u.brk, mntParent := none, mntMntpoint := none } = _
    rw [hsb]
  · change (linked sb s.brk none [slash] u).inodes = _
    rw [hlinked, hu.inode, h.pinned hlen]
    simp only [Function.update_self, Function.update_idem]
    have hbytes : (new.map fun m => usedBytes (s.sbs sb).sBlocksize (readSectors
          (pinInode s.brk (enteredI s.brk v)).sd
          ((pinInode s.brk (enteredI s.brk v)).maps m).mapAddr)).sum =
        chainBytes s.sd (s.sbs sb) cs := by
      change (new.map fun m => usedBytes (s.sbs sb).sBlocksize
        (readSectors v.sd (v.maps m).mapAddr)).sum = _
      have hcomp := congrArg (List.map fun a => usedBytes (s.sbs sb).sBlocksize
        (readSectors s.sd a)) h.addrs
      rw [List.map_map, List.map_map] at hcomp
      rw [readSectors_eq (h.card.trans rfl : v.sd.sector = s.sd.sector)]
      exact congrArg List.sum hcomp
    rw [hbytes]
    simp only [mappedRoot, newInode, Nat.zero_add]
    rfl
  · change Function.update (linked sb s.brk none [slash] u).dentries u.brk
      { (linked sb s.brk none [slash] u).dentries u.brk with dPinned := true } = _
    rw [hdentries, hu.dentries, Function.update_self, Function.update_idem]
    change Function.update v.dentries _ _ = _
    rw [hold]
    rfl
  · change u.dCache.add (hashString ((linked sb s.brk none [slash] u).dentries u.brk).dName) u.brk = _
    rw [hdentries, Function.update_self, hu.dCache]
    change v.dCache.add (hashString [slash]) u.brk = _
    rw [hdc]
  · change (linked sb s.brk none [slash] u).iCache = _
    rw [hicache, hu.iCache]
    change (v.iCache.add (hashInt (v.inodes s.brk).iIno) s.brk).touch s.brk = _
    rw [hic, hiIno]

theorem rootFat32_built {vol : ℕ} (hs : Bare s)
    (h : rootFat32 env sb clu s = some (.ok vol, t)) : vol = sb ∧ ∃ cs maps root,
      ReadChain s.sd (s.sbs sb) clu cs ∧ RootBuilt (s.sbs sb) sb clu s.brk root cs maps s t := by
  obtain ⟨node, t1, h1, h⟩ := Prog.bind_ok_cases h
  obtain ⟨rfl, cs, new, v, hlen, hchain, hread, rfl⟩ :=
    allocInodeFat32_read (by rw [hs.iCache]) h1
  rw [Prog.modify_bind_run, Prog.get_bind_run] at h
  obtain ⟨_, u, h2, h⟩ := Prog.bind_ok_cases h
  have hblk : ((pinInode s.brk (enteredI s.brk v)).sbs sb).sBlocksize = (s.sbs sb).sBlocksize := by
    change (v.sbs sb).sBlocksize = _
    rw [hread.same]
    rfl
  have hmaps : ((pinInode s.brk (enteredI s.brk v)).inodes s.brk).iDataMap = new := by
    rw [hread.rootAt hlen]
    rfl
  rw [hmaps, hblk] at h2
  have hsized := sizeRoot_sized (hread.pinnedClean hs) hread.nodup
    (fun m hm => (hread.fresh m hm).2)
    (by rw [hread.rootAt hlen]; exact Nat.two_pow_pos 32) h2
  obtain ⟨root, w, h3, h⟩ := Prog.bind_ok_cases h
  cases h
  have hdc : u.dCache = s.dCache := by
    rw [hsized.dCache]
    change v.dCache = _
    rw [hread.same]
    rfl
  have hroom : ¬ u.dCache.size = dcacheCapacity := by
    rw [hdc, hs.dCache]
    decide
  rcases allocDentryFat32_cases (fun d hd => absurd hd (by simp [hdc, hs.dCache])) h3 with
    ⟨-, he, -⟩ | ⟨-, x, room, hf, hr, hw⟩
  · cases he
  obtain ⟨rfl, rfl⟩ := hf.notFull hroom
  cases hr
  rw [if_pos rfl] at hw
  subst hw
  exact ⟨rfl, cs, new, u.brk, hchain, hread.rootBuilt hlen hsized⟩

end Mounting

structure MountedAs (sd : SdCard) (vol node root : ℕ) (cs maps : List ℕ) (t : FsSys) : Prop where
  just : JustMounted t
  sbList : t.sbList = [vol]
  sb : t.sbs vol = { volumeOf sd with sRoot := root, mntParent := none, mntMntpoint := none }
  rootDentry : t.rootDentry = root
  pwdDentry : t.pwdDentry = root
  dentry : t.dentries root = { rootEntry vol node root with dCount := 1 }
  inode : t.inodes node = rootInode sd (volumeOf sd) vol (dbrRootClu (dbrOf sd)) root cs maps
  addrs : maps.map (fun m => (t.maps m).mapAddr) = cs.map (cluSec (volumeOf sd))
  card : t.sd.sector = sd.sector
  clean : Clean t

section Boot

variable {env : FsEnv} {b : SuperBlock} {sb clu node root : ℕ} {cs maps : List ℕ} {s t u : FsSys}

theorem RootBuilt.entered (h : RootBuilt b sb clu node root cs maps s u) (d : ℕ) :
    (enterRoot root u).dentries d =
      if d = root then { rootEntry sb node root with dCount := 1 } else s.dentries d := by
  change Function.update u.dentries root
    { u.dentries root with dCount := (u.dentries root).dCount + 1 } d = _
  rw [h.dentries, Function.update_self, Function.update_idem, Function.update_apply]
  rfl

theorem RootBuilt.inodeAt (h : RootBuilt b sb clu node root cs maps s u) (n : ℕ) :
    u.inodes n = if n = node then rootInode s.sd b sb clu root cs maps else s.inodes n := by
  rw [h.inodes, Function.update_apply]

theorem RootBuilt.just (hs : Bare s) (h : RootBuilt b sb clu node root cs maps s u) :
    JustMounted (enterRoot root u) := by
  have hhash : (enterRoot root u).dCache.hash =
      Function.update (fun _ => []) (hashString [slash]) [root] := by
    change (u.dCache.touch root).hash = _
    rw [h.dCache, hs.dCache]
    rfl
  have hlru : (enterRoot root u).dCache.lru = [root] := by
    change (u.dCache.touch root).lru = _
    rw [h.dCache, hs.dCache]
    simp [Fscache.add, Fscache.touch]
  have hihash : (enterRoot root u).iCache.hash =
      Function.update (fun _ => []) (hashInt (cluSec b clu)) [node] := by
    change u.iCache.hash = _
    rw [h.iCache, hs.iCache]
    rfl
  have hdentry : (enterRoot root u).dentries root = { rootEntry sb node root with dCount := 1 } := by
    rw [h.entered, if_pos rfl]
  have hmem {l : ℕ} {x a : ℕ} : (∃ i, x ∈ Function.update (fun _ => ([] : List ℕ)) l [a] i) ↔
      x = a := by
    constructor
    · rintro ⟨i, hi⟩
      rw [Function.update_apply] at hi
      split_ifs at hi
      · exact List.mem_singleton.mp hi
      · exact absurd hi List.not_mem_nil
    · rintro rfl
      refine ⟨l, ?_⟩
      rw [Function.update_self]
      exact List.mem_singleton_self x
  have hnode : ((enterRoot root u).dentries (enterRoot root u).rootDentry).dInode = node := by
    change ((enterRoot root u).dentries root).dInode = node
    rw [hdentry]
    rfl
  refine ⟨fun d => ?_, fun i => ?_, h.root_lt, ?_, fun n hn => ?_, ?_, fun n d hd => ?_, fun d => ?_,
    fun d hd => ?_, fun v => ?_, ?_, ?_, ?_⟩
  · rw [InCache, hhash]
    exact hmem
  · rw [hhash, Function.update_apply]
    split_ifs
    · exact List.nodup_singleton root
    · exact List.nodup_nil
  · rw [hnode, InCache, hihash]
    exact hmem.mpr rfl
  · rw [InCache, hihash] at hn
    obtain rfl := hmem.mp hn
    exact h.node_lt
  · rw [hnode]
    change root ∈ (u.inodes node).iDentry
    rw [h.inodeAt, if_pos rfl]
    exact List.mem_singleton_self root
  · change d ∈ (u.inodes n).iDentry at hd
    rw [h.inodeAt] at hd
    split_ifs at hd with e
    · obtain rfl : d = root := List.mem_singleton.mp hd
      exact ⟨h.root_lt, by rw [hdentry, e]; rfl⟩
    · rw [hs.iDentry] at hd
      exact absurd hd List.not_mem_nil
  · rw [h.entered]
    split_ifs
    · rfl
    · exact hs.subdirs d
  · rw [hlru] at hd
    obtain rfl := List.mem_singleton.mp hd
    exact h.root_lt
  · change (u.sbs v).sRoot < u.brk
    rw [h.sbs, Function.update_apply]
    split_ifs
    · exact h.root_lt
    · rw [hs.sRoot]
      exact Nat.zero_lt_of_lt h.root_lt
  · exact congrArg Dentry.dParent hdentry
  · exact congrArg Dentry.dPinned hdentry
  · rw [hnode]
    change (u.inodes node).iPinned = true
    rw [h.inodeAt, if_pos rfl]
    rfl

theorem Bare.same (h : Bare s) (ht : SameObjects s t) : Bare t where
  clean p := by rw [ht.pages]; exact h.clean p
  iDentry n := by rw [ht.inodes]; exact h.iDentry n
  subdirs d := by rw [ht.dentries]; exact h.subdirs d
  sRoot sb := by rw [ht.sbs]; exact h.sRoot sb
  dCache := ht.dCache.trans h.dCache
  iCache := ht.iCache.trans h.iCache

theorem sdReadBlock_some {addr count : ℕ} {data : ℕ → ℕ}
    (h : sdReadBlock env addr count s = some (.ok (some data), t)) :
    data = readSectors s.sd addr ∧ t = accessed s count := by
  rw [sdReadBlock] at h
  split at h
  · cases h
  · cases h
    exact ⟨rfl, rfl⟩

theorem withBuf_ok {α : Type} {m : FsProg α} {a : α}
    (h : withBuf env m s = some (.ok a, t)) :
    env.kmallocFails s.brk = false ∧ ∃ u, m (grabbed s) = some (.ok a, u) ∧ t = u.kfree s.brk := by
  cases hk : env.kmallocFails s.brk with
  | true =>
    rw [withBuf, Prog.bind_ok (kmalloc_null hk)] at h
    cases h
  | false =>
    rw [withBuf, Prog.bind_ok (kmalloc_grabs hk)] at h
    rcases Prog.bind_cases h with ⟨r', u, h1, h2⟩ | ⟨e, h1, -⟩
    · obtain ⟨r'', hr, h1⟩ := Prog.attempt_cases h1
      cases hr
      rw [Prog.modify_bind_run] at h2
      refine ⟨rfl, u, ?_⟩
      cases r' with
      | ok b =>
        cases h2
        exact ⟨h1, rfl⟩
      | error e => cases h2
    · obtain ⟨_, hr, -⟩ := Prog.attempt_cases h1
      cases hr

def begunSb (s : FsSys) (vol base : ℕ) : SuperBlock :=
  initSb base (readSectors s.sd ((base + 1) % uintRange)) (readSectors s.sd base) (s.sbs vol)

def sbMade (base : ℕ) (s : FsSys) : FsSys :=
  (grabbed (accessed (accessed s 1) 1)).setSb s.brk
    (initSb base (readSectors s.sd ((base + 1) % uintRange)) (readSectors s.sd base))

theorem sbMade_sbs (base x : ℕ) :
    (sbMade base s).sbs x = if x = s.brk then begunSb s s.brk base else s.sbs x :=
  Function.update_apply ..

theorem Bare.sbMade (hs : Bare s) (base : ℕ) : Bare (sbMade base s) := by
  refine ⟨hs.clean, hs.iDentry, hs.subdirs, fun x => ?_, hs.dCache, hs.iCache⟩
  rw [sbMade_sbs]
  split_ifs
  · exact hs.sRoot s.brk
  · exact hs.sRoot x

theorem readSbFat32_ok {base vol : ℕ} (h : readSbFat32 env base s = some (.ok vol, t)) :
    rootFat32 env (s.brk + 1) (dbrRootClu (readSectors s.sd base)) (sbMade base (grabbed s)) =
      some (.ok vol, t) := by
  obtain ⟨fsInfo, s1, h1, h⟩ := Prog.bind_ok_cases h
  obtain ⟨info, s2, h2, h⟩ := Prog.bind_ok_cases h
  cases info with
  | none => cases h
  | some info =>
    obtain ⟨rfl, rfl⟩ := sdReadBlock_some h2
    cases fsInfo with
    | none => cases h
    | some fsInfo =>
      obtain ⟨rfl, rfl⟩ := kmalloc_some h1
      dsimp only at h
      rw [if_neg (Option.some_ne_none _)] at h
      obtain ⟨dbr, s3, h3, h⟩ := Prog.bind_ok_cases h
      cases dbr with
      | none => cases h
      | some dbr =>
        obtain ⟨rfl, rfl⟩ := sdReadBlock_some h3
        obtain ⟨sb, s4, h4, h⟩ := Prog.bind_ok_cases h
        cases sb with
        | none => cases h
        | some sb =>
          obtain ⟨rfl, rfl⟩ := kmalloc_some h4
          exact h

theorem readSbFat32_built {base vol : ℕ} (hs : Bare s)
    (h : readSbFat32 env base s = some (.ok vol, t)) : ∃ v cs maps root, Bare v ∧
      v.sbList = s.sbList ∧ v.sd.sector = s.sd.sector ∧
      ReadChain s.sd (begunSb s vol base) (dbrRootClu (readSectors s.sd base)) cs ∧
      RootBuilt (begunSb s vol base) vol (dbrRootClu (readSectors s.sd base)) v.brk root cs maps v
        t := by
  have hbare := (hs.same (grabbed_same s)).sbMade base
  obtain ⟨rfl, cs, maps, root, hchain, hbuilt⟩ := rootFat32_built hbare (readSbFat32_ok h)
  have hsb : (sbMade base (grabbed s)).sbs (s.brk + 1) = begunSb s (s.brk + 1) base := by
    rw [sbMade_sbs]
    exact if_pos rfl
  rw [hsb] at hchain hbuilt
  exact ⟨_, cs, maps, root, hbare, rfl, rfl, hchain.congr rfl, hbuilt⟩

variable {getSbExt2 : ℕ → FsProg ℕ}

def tableRead (s : FsSys) : FsSys := { grabbed (accessed s 1) with sbList := [] }

theorem readTable_ok (htype : getFsType (dptSystemID (readSectors s.sd 0)) = some .fat32)
    (h : readTable env getSbExt2 s = some (.ok (), t)) :
    dptBaseAddr (readSectors s.sd 0) = 0 ∧ t = tableRead s ∨
      dptBaseAddr (readSectors s.sd 0) ≠ 0 ∧ ∃ vol u,
        getSbFat32 env (dptBaseAddr (readSectors s.sd 0)) (tableRead s) = some (.ok vol, u) ∧
          t = addSb vol u := by
  obtain ⟨mbr, s1, h1, h⟩ := Prog.bind_ok_cases h
  cases mbr with
  | none => cases h
  | some mbr =>
    obtain ⟨rfl, rfl⟩ := sdReadBlock_some h1
    obtain ⟨l, s2, h2, h⟩ := Prog.bind_ok_cases h
    cases l with
    | none => cases h
    | some l =>
      obtain ⟨rfl, rfl⟩ := kmalloc_some h2
      dsimp only at h
      rw [Prog.modify_bind_run, htype] at h
      split_ifs at h with hbase
      · obtain ⟨vol, u, h3, h⟩ := Prog.bind_ok_cases h
        cases h
        exact .inr ⟨hbase, vol, u, h3, rfl⟩
      · cases h
        exact .inl ⟨not_not.mp hbase, rfl⟩

theorem initFscacheInfo_ok {c : Fscache} (h : initFscacheInfo env s = some (.ok c, t)) :
    c = ⟨0, [], fun _ => []⟩ ∧ t = grabbed s := by
  obtain ⟨p, u, h1, h⟩ := Prog.bind_ok_cases h
  cases p with
  | none => cases h
  | some p =>
    obtain ⟨-, rfl⟩ := kmalloc_some h1
    cases h
    exact ⟨rfl, rfl⟩

def cachesMade (s : FsSys) : FsSys :=
  { grabbed (grabbed (grabbed (grabbed s))) with
    dCache := ⟨0, [], fun _ => []⟩, iCache := ⟨0, [], fun _ => []⟩, pCache := ⟨0, [], fun _ => []⟩ }

theorem initFscache_ok (h : initFscache env s = some (.ok (), t)) : t = cachesMade s := by
  obtain ⟨p, u, h1, h⟩ := Prog.bind_ok_cases h
  cases p with
  | none => cases h
  | some p =>
    obtain ⟨-, rfl⟩ := kmalloc_some h1
    obtain ⟨d, v, h2, h⟩ := Prog.bind_ok_cases h
    obtain ⟨rfl, rfl⟩ := initFscacheInfo_ok h2
    rw [Prog.modify_bind_run] at h
    obtain ⟨i, v, h3, h⟩ := Prog.bind_ok_cases h
    obtain ⟨rfl, rfl⟩ := initFscacheInfo_ok h3
    rw [Prog.modify_bind_run] at h
    obtain ⟨i, v, h4, h⟩ := Prog.bind_ok_cases h
    obtain ⟨rfl, rfl⟩ := initFscacheInfo_ok h4
    cases h
    rfl

def tableFound (sd : SdCard) : FsSys :=
  grabbed (tableRead (grabbed (cachesMade (poweredOn sd))))

theorem tableFound_bare (sd : SdCard) : Bare (tableFound sd) :=
  ⟨fun _ => rfl, fun _ => rfl, fun _ => rfl, fun _ => rfl, rfl, rfl⟩

theorem mountFs_ok {sd : SdCard}
    (htype : getFsType (dptSystemID (readSectors sd 0)) = some .fat32)
    (h : mountFs env getSbExt2 (poweredOn sd) = some (.ok (), t)) :
    baseOf sd ≠ 0 ∧ ∃ vol u live, readSbFat32 env (baseOf sd) (tableFound sd) = some (.ok vol, u) ∧
      (u.sbList = [] → t = enterRoot (u.sbs vol).sRoot { u with live := live, sbList := [vol] }) := by
  obtain ⟨_, s1, h1, h⟩ := Prog.bind_ok_cases h
  obtain rfl := initFscache_ok h1
  obtain ⟨_, s2, h2, h⟩ := Prog.bind_ok_cases h
  obtain ⟨-, s3, h3, rfl⟩ := withBuf_ok h2
  rw [Prog.get_bind_run] at h
  rcases readTable_ok htype h3 with ⟨-, rfl⟩ | ⟨hbase, vol, s4, h4, rfl⟩
  · cases h
  obtain ⟨-, u, h5, rfl⟩ := withBuf_ok h4
  have hstate (x y : ℕ) (hlist : u.sbList = []) : (addSb vol (u.kfree x)).kfree y =
      { u with live := ((addSb vol (u.kfree x)).kfree y).live, sbList := [vol] } := by
    simp only [addSb, FsSys.kfree, hlist, List.nil_append]
  refine ⟨hbase, vol, u, ((addSb vol (u.kfree (tableRead (grabbed (cachesMade
    (poweredOn sd)))).brk)).kfree (cachesMade (poweredOn sd)).brk).live, h5, fun hlist => ?_⟩
  rw [hstate _ _ hlist] at h
  cases h
  rfl

theorem JustMounted.relisted {live : ℕ → Bool} {l : List ℕ} (h : JustMounted (enterRoot root u)) :
    JustMounted (enterRoot root { u with live := live, sbList := l }) :=
  ⟨h.cached, h.nodup, h.root_lt, h.node, h.iHash, h.listed, h.iDentry, h.subdirs, h.dLru, h.sRoot,
    h.parent, h.dPinned, h.iPinned⟩

end Boot

/-- The card is as it was, and no page waits to be written to it. -/
structure CardKept (sector : ℕ → ℕ → ℕ) (s : FsSys) : Prop where
  clean : Clean s
  card : s.sd.sector = sector

section Card

variable {env : FsEnv} {sector : ℕ → ℕ → ℕ} {α : Type} {m : FsProg α}

theorem CardKept.of_quiet (h : ∀ s₀, Prog.Stays (Quiet s₀) m) : Prog.Stays (CardKept sector) m := by
  intro s r t hs hr
  have hq := (h s s r t (.refl s) hr).1
  exact ⟨⟨hq.clean hs.clean, (hq.card hs.clean).trans hs.card⟩, fun _ _ => trivial⟩

theorem CardKept.modify {f : FsSys → FsSys}
    (hf : ∀ s, (f s).pages = s.pages ∧ (f s).sd = s.sd := by intro; exact ⟨rfl, rfl⟩) :
    Prog.Stays (CardKept sector) (Prog.modify f : FsProg Unit) :=
  .modify fun s h => ⟨fun p => by rw [(hf s).1]; exact h.clean p, by rw [(hf s).2]; exact h.card⟩

theorem kmalloc_card : Prog.Stays (CardKept sector) (kmalloc env) :=
  CardKept.of_quiet fun _ => (kmalloc_quiet env).stays

theorem sdReadBlock_card (addr count : ℕ) :
    Prog.Ensures (CardKept sector) (sdReadBlock env addr count) fun r =>
      ∀ data, r = some data → data = readSectors ⟨sector, 0⟩ addr := by
  intro s r t hs hr
  refine ⟨(CardKept.of_quiet (fun _ => sdReadBlock_quiet env addr count) s r t hs hr).1, ?_⟩
  rintro a rfl data rfl
  have hcard : s.sd.sector = (SdCard.mk sector 0).sector := hs.card
  rw [(sdReadBlock_some hr).1, readSectors_eq hcard]

theorem sizeRoot_card (node blksize : ℕ) (maps : List ℕ) :
    Prog.Stays (CardKept sector) (sizeRoot env node blksize maps) := by
  induction maps with
  | nil => exact .pure trivial
  | cons map maps ih =>
    have hload : Prog.Stays (CardKept sector) (getFspage env map blksize) := by
      refine Prog.Ensures.get.bind fun s _ => ?_
      split
      · exact .ofExcept fun _ _ => trivial
      · refine (CardKept.of_quiet fun _ => allocFspage_quiet env _ _).attempt.bind fun r _ => ?_
        exact Prog.Ensures.bind CardKept.modify fun _ _ =>
          .ofExcept fun _ _ => trivial
    exact hload.bind fun page _ => Prog.Ensures.bind CardKept.modify fun _ _ => ih

theorem rootFat32_card (sb clu : ℕ) : Prog.Stays (CardKept sector) (rootFat32 env sb clu) := by
  refine (CardKept.of_quiet fun _ => allocInodeFat32_quiet env _ _ _ _).bind fun node _ => ?_
  refine Prog.Ensures.bind CardKept.modify fun _ _ => ?_
  refine Prog.Ensures.get.bind fun s _ => (sizeRoot_card _ _ _).bind fun _ _ => ?_
  refine (CardKept.of_quiet fun _ => allocDentryFat32_quiet env _ _ _ _).bind fun root _ => ?_
  exact Prog.Ensures.bind CardKept.modify fun _ _ => .pure trivial

theorem withBuf_card (h : Prog.Stays (CardKept sector) m) :
    Prog.Stays (CardKept sector) (withBuf env m) := by
  refine kmalloc_card.bind fun buf _ => ?_
  cases buf with
  | none => exact .throw
  | some buf =>
    refine h.attempt.bind fun r _ => ?_
    exact Prog.Ensures.bind CardKept.modify fun _ _ => .ofExcept fun _ _ => trivial

theorem getSbFat32_card (base : ℕ) : Prog.Stays (CardKept sector) (getSbFat32 env base) := by
  refine withBuf_card (kmalloc_card.bind fun fsInfo _ => ?_)
  refine (sdReadBlock_card _ 1).bind fun info _ => ?_
  cases info with
  | none => exact .throw
  | some info =>
    dsimp only
    split_ifs
    · exact .stuck
    · refine (sdReadBlock_card base 1).bind fun dbr _ => ?_
      cases dbr with
      | none => exact .throw
      | some dbr =>
        refine kmalloc_card.bind fun sb _ => ?_
        cases sb with
        | none => exact .throw
        | some sb =>
          exact Prog.Ensures.bind CardKept.modify fun _ _ => rootFat32_card _ _

theorem initFscache_card : Prog.Stays (CardKept sector) (initFscache env) := by
  have hinfo : Prog.Stays (CardKept sector) (initFscacheInfo env) := by
    refine kmalloc_card.bind fun p _ => ?_
    cases p with
    | none => exact .stuck
    | some p => exact .pure trivial
  refine kmalloc_card.bind fun p _ => ?_
  cases p with
  | none => exact .throw
  | some p =>
    refine hinfo.bind fun d _ => Prog.Ensures.bind CardKept.modify fun _ _ => ?_
    refine hinfo.bind fun i _ => Prog.Ensures.bind CardKept.modify fun _ _ => ?_
    exact hinfo.bind fun p _ => CardKept.modify

variable {getSbExt2 : ℕ → FsProg ℕ}

theorem readTable_card
    (htype : getFsType (dptSystemID (readSectors ⟨sector, 0⟩ 0)) ≠ some .ext2) :
    Prog.Stays (CardKept sector) (readTable env getSbExt2) := by
  refine (sdReadBlock_card 0 1).bind fun mbr hmbr => ?_
  cases mbr with
  | none => exact .throw
  | some mbr =>
    obtain rfl := hmbr mbr rfl
    refine kmalloc_card.bind fun l _ => ?_
    cases l with
    | none => exact .stuck
    | some l =>
      refine Prog.Ensures.bind CardKept.modify fun _ _ => ?_
      split_ifs
      · cases hfs : getFsType (dptSystemID (readSectors ⟨sector, 0⟩ 0)) with
        | none => exact .throw
        | some type =>
          cases type with
          | ext2 => exact absurd hfs htype
          | fat32 =>
            exact (getSbFat32_card _).bind fun sb _ => CardKept.modify
      · exact .pure trivial

end Card

end OurOS.Fs
