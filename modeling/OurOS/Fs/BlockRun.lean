import OurOS.Fs.ChainRun

namespace OurOS.Fs

def firstClu (b : SuperBlock) (s : FsSys) (node : ℕ) : ℕ := secClu b (s.inodes node).iIno

/-- The chain on the disk, from the first cluster of the inode to the end mark, is the list of blocks
that the inode records. -/
structure Mirrored (b : SuperBlock) (s : FsSys) (node : ℕ) (l : List ℕ) : Prop where
  head : l.head? = some (firstClu b s node)
  chain : Chain (fatOf b s.sd) fatItemEnd l
  addrs : blockAddrs s node = l.map (cluSec b)
  blocks : (s.inodes node).iBlocks = l.length

structure Recorded (b : SuperBlock) (s : FsSys) (node : ℕ) (l : List ℕ) : Prop where
  addrs : blockAddrs s node = l.map (cluSec b)
  blocks : (s.inodes node).iBlocks = l.length
  small : ∀ m ∈ (s.inodes node).iDataMap, m < s.brk

structure Tracked (b : SuperBlock) (n B : ℕ) (s : FsSys) (gs : List (ℕ × List ℕ)) : Prop where
  entries : 2 ≤ n
  apart : Apart (InTable b n) B s
  reserved : Reserved (fatOf b s.sd)
  chains : FileChains n (fatOf b s.sd) (gs.map fun g => firstClu b s g.1) (gs.map Prod.snd)
  file : ∀ g ∈ gs, g.1 < s.brk ∧ ∃ c, FileAt b n s g.1 c
  recorded : ∀ g ∈ gs, s.live g.1 = true → Recorded b s g.1 g.2

section Keep

variable {env : FsEnv} {b : SuperBlock} {n B node p : ℕ} {s t : FsSys} {l cs xs : List ℕ}
  {gs as bs : List (ℕ × List ℕ)} {F X : ℕ → Prop} {W : Prop}

theorem FileAt.firstClu (h : FileAt b n s node p) (hv : Volume b n) : firstClu b s node = p := by
  rw [Fs.firstClu, h.ino]
  exact hv.clusters p h.two_le h.lt

theorem Recorded.of_kept (h : Recorded b s node l) (hk : Kept F B X W s t) (hn : node < s.brk)
    (hx : ¬ X node) (hl : t.live node = true) : Recorded b t node l := by
  have hmap := hk.dataMap node hn hx hl
  refine ⟨?_, (hk.blocks node hn hx).trans h.blocks, fun m hm => ?_⟩
  · rw [← h.addrs, blockAddrs, blockAddrs, hmap]
    exact List.map_congr_left fun m hm => hk.mapAddr m (h.small m hm)
  · rw [hmap] at hm
    exact (h.small m hm).trans_le hk.brk

theorem Tracked.head (h : Tracked b n B s gs) {g : ℕ × List ℕ} (hg : g ∈ gs) :
    g.2.head? = some (firstClu b s g.1) := by
  obtain ⟨as, bs, rfl⟩ := List.append_of_mem hg
  have hh := h.chains.heads
  simp only [List.map_append, List.map_cons, List.map_map] at hh
  exact (List.cons.inj (List.append_inj_right hh (by simp))).1

theorem Tracked.mirrored (h : Tracked b n B s gs) {g : ℕ × List ℕ} (hg : g ∈ gs)
    (hl : s.live g.1 = true) : Mirrored b s g.1 g.2 := by
  have hr := h.recorded g hg hl
  exact ⟨h.head hg, h.chains.chains.chain _ (List.mem_map_of_mem hg), hr.addrs, hr.blocks⟩

theorem Tracked.split (h : Tracked b n B s gs) (hv : Volume b n) (hn : node ∈ gs.map Prod.fst) :
    ∃ as bs p cs, gs = as ++ (node, p :: cs) :: bs ∧ FileAt b n s node p ∧
      ∀ g ∈ as ++ bs, g.1 ≠ node := by
  obtain ⟨⟨nd, l⟩, hg, rfl⟩ := List.mem_map.mp hn
  obtain ⟨as, bs, rfl⟩ := List.append_of_mem hg
  obtain ⟨-, p, hf⟩ := h.file _ hg
  have hhead := h.head hg
  rw [hf.firstClu hv] at hhead
  obtain ⟨cs, rfl⟩ := List.head?_eq_some_iff.mp hhead
  refine ⟨as, bs, p, cs, rfl, hf, fun g hm e => ?_⟩
  have hm' : g ∈ as ++ (nd, p :: cs) :: bs := by
    simp only [List.mem_append, List.mem_cons] at hm ⊢
    tauto
  have hg2 := h.head hm'
  rw [e, hf.firstClu hv] at hg2
  have hc := h.chains.chains
  simp only [List.map_append, List.map_cons] at hc
  refine hc.apart List.mem_cons_self (List.mem_flatten.mpr ⟨g.2, ?_, List.mem_of_head? hg2⟩)
  rw [← List.map_append]
  exact List.mem_map_of_mem hm

theorem Tracked.of_table (h : Tracked b n B s gs)
    (hk : Kept (InTable b n) B (fun _ => False) W s t) {fat : ℕ → ℕ}
    (hc : FileChains n fat (gs.map fun g => firstClu b s g.1) (gs.map Prod.snd) ∧ Reserved fat)
    (hfat : ∀ d < n, fatOf b t.sd d = fat d) : Tracked b n B t gs := by
  have hfirst : gs.map (fun g => firstClu b t g.1) = gs.map fun g => firstClu b s g.1 :=
    List.map_congr_left fun g hg => by
      rw [firstClu, hk.ino g.1 (h.file g hg).1]
      rfl
  refine ⟨h.entries, hk.apart, hc.2.congr h.entries hfat, ?_, fun g hg => ?_, fun g hg hl => ?_⟩
  · rw [hfirst]
    exact hc.1.congr hfat
  · obtain ⟨h1, c, h2⟩ := h.file g hg
    exact ⟨h1.trans_le hk.brk, c, h2.of_kept hk h1⟩
  · have hlt := (h.file g hg).1
    exact (h.recorded g hg (hk.live g.1 hlt hl)).of_kept hk hlt not_false hl

theorem Tracked.of_kept (h : Tracked b n B s gs) (hv : Volume b n)
    (hk : Kept (InTable b n) B (fun _ => False) False s t) : Tracked b n B t gs :=
  h.of_table hk ⟨h.chains, h.reserved⟩ fun _ hd => hk.fatOf hv hd

theorem chains_split (as bs : List (ℕ × List ℕ)) (g : ℕ × List ℕ) :
    (as ++ g :: bs).map Prod.snd = as.map Prod.snd ++ g.2 :: bs.map Prod.snd := by simp

theorem Tracked.relink (h : Tracked b n B s (as ++ (node, p :: cs) :: bs))
    (hne : ∀ g ∈ as ++ bs, g.1 ≠ node)
    (hk : Kept (InTable b n) B (fun i => i = node) True s t) {fat : ℕ → ℕ}
    (hc : FileChains n fat ((as ++ (node, p :: cs) :: bs).map fun g => firstClu b s g.1)
      (as.map Prod.snd ++ (p :: xs) :: bs.map Prod.snd) ∧ Reserved fat)
    (hfat : ∀ d < n, fatOf b t.sd d = fat d)
    (hrec : t.live node = true → Recorded b t node (p :: xs)) :
    Tracked b n B t (as ++ (node, p :: xs) :: bs) := by
  have hold : ∀ g ∈ as ++ (node, p :: xs) :: bs, g = (node, p :: xs) ∨
      g ∈ as ++ bs ∧ g ∈ as ++ (node, p :: cs) :: bs := by
    intro g hg
    simp only [List.mem_append, List.mem_cons] at hg ⊢
    tauto
  have hnode := h.file (node, p :: cs) (by simp)
  have hfirst : (as ++ (node, p :: xs) :: bs).map (fun g => firstClu b t g.1) =
      (as ++ (node, p :: cs) :: bs).map fun g => firstClu b s g.1 := by
    have hsame : ∀ g ∈ as ++ (node, p :: cs) :: bs, firstClu b t g.1 = firstClu b s g.1 := by
      intro g hg
      rw [firstClu, hk.ino g.1 (h.file g hg).1]
      rfl
    rw [← List.map_congr_left hsame]
    simp
  refine ⟨h.entries, hk.apart, hc.2.congr h.entries hfat, ?_, fun g hg => ?_, fun g hg hl => ?_⟩
  · rw [hfirst, chains_split]
    exact hc.1.congr hfat
  · rcases hold g hg with rfl | ⟨-, hg⟩
    · obtain ⟨h1, c, h2⟩ := hnode
      exact ⟨h1.trans_le hk.brk, c, h2.of_kept hk h1⟩
    · obtain ⟨h1, c, h2⟩ := h.file g hg
      exact ⟨h1.trans_le hk.brk, c, h2.of_kept hk h1⟩
  · rcases hold g hg with rfl | ⟨hg1, hg⟩
    · exact hrec hl
    · have hlt := (h.file g hg).1
      exact (h.recorded g hg (hk.live g.1 hlt hl)).of_kept hk hlt (hne g hg1) hl

theorem Lengthened.recorded (h : Lengthened b node s t xs) (hr : Recorded b s node l) :
    Recorded b t node (l ++ xs) := by
  obtain ⟨new, hlen, hg, haddr⟩ := h.grown
  refine ⟨?_, ?_, fun m hm => ?_⟩
  · rw [blockAddrs, hg.dataMap, List.map_append, List.map_append, haddr, ← hr.addrs, blockAddrs]
    congr 1
    exact List.map_congr_left fun m hm => by rw [hg.maps m (hr.small m hm)]
  · rw [hg.blocks, hr.blocks, List.length_append, hlen]
  · rw [hg.dataMap] at hm
    rcases List.mem_append.mp hm with hm | hm
    · exact (hr.small m hm).trans_le hg.brk
    · exact (hg.fresh m hm).2.1

theorem Tracked.expand (h : Tracked b n B s gs) (he : Reliable env) (hv : Volume b n)
    (hn : node ∈ gs.map Prod.fst) (hone : (s.inodes node).iBlocks = 1) {num : ℕ}
    (hrun : Found (fatOf b s.sd) n num (nextClu s node)) {r : Except ℕ Unit}
    (hr : expandFat32 env node num s = some (r, t)) :
    ∃ gs', gs'.map Prod.fst = gs.map Prod.fst ∧ Tracked b n B t gs' := by
  obtain ⟨as, bs, p, cs, rfl, hf, hne⟩ := h.split hv hn
  obtain ⟨xs, hxs⟩ := Option.isSome_iff_exists.mp hrun
  have hmem : (node, p :: cs) ∈ as ++ (node, p :: cs) :: bs := by simp
  have hp : p ∈ (as ++ (node, p :: cs) :: bs).map fun g => firstClu b s g.1 :=
    List.mem_map.mpr ⟨_, hmem, hf.firstClu hv⟩
  obtain ⟨u, h1, h2, -, h3⟩ := expandFat32_spec he hv hf (h.reserved.freeRun_ne hxs)
    (h.chains.head_ok hv hp) hxs fun _ _ => rfl
  obtain ⟨rfl, rfl⟩ : r = .ok () ∧ t = u := by simpa using hr.symm.trans h1
  have hk := (expandFat32_kept (W := True) (X := fun i => i = node) env trivial rfl num _ _ _
    (Kept.refl h.apart) h1).1
  have hc := h.chains
  rw [chains_split] at hc
  have hexp := hc.expand h.reserved hxs
  refine ⟨as ++ (node, p :: xs) :: bs, by simp, h.relink hne hk hexp h3 fun hl => ?_⟩
  have hrec := h.recorded _ hmem (hk.live node (h.file _ hmem).1 hl)
  have hcs : cs = [] := by
    have hlen := hone.symm.trans hrec.blocks
    simpa using hlen.symm
  subst hcs
  obtain ⟨hlen, hnd, hlt⟩ := freeRun_spec hxs
  have hle := length_lt_uintRange hv hnd fun c hc => (hlt c hc).2.1
  refine (h2 ?_).recorded hrec
  have hn28 := (hnd.subperm fun c hc => List.mem_range.mpr (hlt c hc).2.1).length_le
  have hend := hv.entries
  rw [List.length_range] at hn28
  rw [fatItemEnd] at hend
  rw [hone, uintRange]
  omega

theorem Tracked.sized (h : Tracked b n B s gs) (i fp size : ℕ) :
    Tracked b n B ((s.setInode i fun n => { n with iSize := size }).setFile fp fun f =>
      { f with fSize := size }) gs := by
  let t := (s.setInode i fun n => { n with iSize := size }).setFile fp fun f =>
    { f with fSize := size }
  have hin : ∀ j, (t.inodes j).iIno = (s.inodes j).iIno ∧ (t.inodes j).iSb = (s.inodes j).iSb ∧
      (t.inodes j).iBlocks = (s.inodes j).iBlocks ∧ (t.inodes j).iDataMap = (s.inodes j).iDataMap := by
    intro j
    by_cases e : j = i
    · subst e
      simp [t, FsSys.setInode, FsSys.setFile]
    · simp [t, FsSys.setInode, FsSys.setFile, e]
  have hfirst : gs.map (fun g => Fs.firstClu b t g.1) = gs.map fun g => Fs.firstClu b s g.1 :=
    List.map_congr_left fun g _ => by rw [Fs.firstClu, (hin g.1).1, Fs.firstClu]
  refine ⟨h.entries, ⟨h.apart.blksize, h.apart.clusters, h.apart.maps, h.apart.pages⟩, h.reserved,
    ?_, fun g hg => ?_, fun g hg hl => ?_⟩
  · have hchains := h.chains
    rw [← hfirst] at hchains
    exact hchains
  · obtain ⟨h1, c, h2⟩ := h.file g hg
    refine ⟨h1, c, ?_, (hin g.1).1.trans h2.ino, h2.two_le, h2.lt⟩
    change IsVolume b t (t.inodes g.1).iSb
    rw [(hin g.1).2.1]
    exact h2.volume
  · obtain ⟨h1, h2, h3⟩ := h.recorded g hg hl
    refine ⟨?_, (hin g.1).2.2.1.trans h2, fun m hm => h3 m ?_⟩
    · rw [← h1, blockAddrs, (hin g.1).2.2.2]
      rfl
    · rwa [(hin g.1).2.2.2] at hm

theorem Tracked.grows (h : Tracked b n B s gs) (he : Reliable env) (hv : Volume b n) {fp size : ℕ}
    (hn : fileInode s fp ∈ gs.map Prod.fst)
    (hgrow : ∀ k, growth s fp size = some k → (s.inodes (fileInode s fp)).iBlocks = 1 ∧
      Found (fatOf b s.sd) n k (nextClu s (fileInode s fp))) {u v : FsSys}
    (hg : Grows env s fp size u v) : ∃ gs', gs'.map Prod.fst = gs.map Prod.fst ∧ Tracked b n B v gs' := by
  have hu : ∃ gs', gs'.map Prod.fst = gs.map Prod.fst ∧ Tracked b n B u gs' := by
    cases hk : growth s fp size with
    | none =>
      rw [hg.same hk]
      exact ⟨gs, rfl, h⟩
    | some k =>
      obtain ⟨r, hr⟩ := hg.expanded k hk
      exact h.expand he hv hn (hgrow k hk).1 (hgrow k hk).2 hr
  obtain ⟨gs', hfst, hu⟩ := hu
  rcases hg.sized with rfl | rfl
  · exact ⟨gs', hfst, hu⟩
  · exact ⟨gs', hfst, hu.sized _ _ _⟩

end Keep

section Scan

variable {env : FsEnv} {s t : FsSys}

theorem flushPages_ok (he : Reliable env) {k : ℕ} {pages : List ℕ} {r : Except ℕ Bool}
    (h : flushPages env k pages s = some (r, t)) : r = .ok true ∧ t.maps = s.maps := by
  induction k generalizing pages s with
  | zero =>
    cases h
    exact ⟨rfl, rfl⟩
  | succ k ih =>
    cases pages with
    | nil => cases h
    | cons p pages =>
      rw [flushPages, Prog.bind_ok (Prog.attempt_run (flushFspage_run he s p))] at h
      dsimp only at h
      rw [Prog.modify_bind_run] at h
      obtain ⟨h1, h2⟩ := ih h
      refine ⟨h1, h2.trans ?_⟩
      change (flushed s p).maps = s.maps
      rw [flushed]
      split_ifs <;> rfl

theorem pCacheRoom_ok (he : Reliable env) {r : Except ℕ Bool}
    (h : pCacheRoom env s = some (r, t)) : r = .ok true ∧ t.maps = s.maps := by
  rw [pCacheRoom, Prog.get_bind_run] at h
  split_ifs at h
  · exact flushPages_ok he h
  · cases h
    exact ⟨rfl, rfl⟩

theorem allocFspage_ok (he : Reliable env) {addr blksize : ℕ} {r : Except ℕ ℕ}
    (h : allocFspage env addr blksize s = some (r, t)) : (∃ p, r = .ok p) ∧ t.maps = s.maps := by
  rw [allocFspage, Prog.bind_ok (kmalloc_run he s)] at h
  dsimp only at h
  rw [Prog.bind_ok (kmalloc_run he _)] at h
  dsimp only at h
  rw [Prog.bind_ok (sdReadBlock_run he _ _ _)] at h
  dsimp only at h
  rw [Prog.modify_bind_run] at h
  rcases Prog.bind_cases h with ⟨room, u, h1, h⟩ | ⟨e, h1, -⟩
  · obtain ⟨hroom, hm⟩ := pCacheRoom_ok he h1
    cases hroom
    cases h
    exact ⟨⟨_, rfl⟩, hm⟩
  · cases (pCacheRoom_ok he h1).1

def NoErrorPages (s : FsSys) (maps : List ℕ) : Prop :=
  ∀ m ∈ maps, ∀ e, (s.maps m).mapPage ≠ some (.error e)

theorem getFspage_ok (he : Reliable env) {m blksize : ℕ} {r : Except ℕ ℕ}
    (hm : ∀ e, (s.maps m).mapPage ≠ some (.error e))
    (h : getFspage env m blksize s = some (r, t)) : (∃ p, r = .ok p) ∧
      ∀ maps, NoErrorPages s maps → NoErrorPages t maps := by
  rw [getFspage, Prog.get_bind_run] at h
  rcases hp : (s.maps m).mapPage with _ | e | p <;> simp only [hp] at h
  · rcases Prog.bind_cases h with ⟨r1, u, h1, h⟩ | ⟨e, h1, -⟩
    · obtain ⟨r2, hr, h1⟩ := Prog.attempt_cases h1
      cases hr
      obtain ⟨⟨p, rfl⟩, hmaps⟩ := allocFspage_ok he h1
      cases h
      refine ⟨⟨p, rfl⟩, fun maps hn m' hm' e => ?_⟩
      by_cases heq : m' = m
      · subst heq
        simp [FsSys.setMap]
      · simp only [FsSys.setMap, Function.update_of_ne heq, hmaps]
        exact hn m' hm' e
    · obtain ⟨_, hr, -⟩ := Prog.attempt_cases h1
      cases hr
  · exact absurd hp (hm e)
  · cases h
    exact ⟨⟨p, rfl⟩, fun _ hn => hn⟩

theorem scanDir_ok (he : Reliable env) {skips : ℕ → Bool} {test : List ℕ → Bool} {blksize : ℕ}
    {maps : List ℕ} (hm : NoErrorPages s maps) {r : Except ℕ (Option (ℕ × ℕ))}
    (h : scanDir env skips test blksize maps s = some (r, t)) : ∃ a, r = .ok a := by
  induction maps generalizing s with
  | nil =>
    cases h
    exact ⟨_, rfl⟩
  | cons m maps ih =>
    rcases Prog.bind_cases h with ⟨page, u, h1, h⟩ | ⟨e, h1, -⟩
    · rw [Prog.get_bind_run] at h
      cases hs : scanSfn skips test (u.pages page).pData (sfnOffsets blksize) with
      | some off =>
        simp only [hs] at h
        cases h
        exact ⟨_, rfl⟩
      | none =>
        simp only [hs] at h
        refine ih ?_ h
        exact (getFspage_ok he (hm m List.mem_cons_self) h1).2 maps fun m' hm' =>
          hm m' (List.mem_cons_of_mem _ hm')
    · obtain ⟨p, hp⟩ := (getFspage_ok he (hm m List.mem_cons_self) h1).1
      cases hp

end Scan

section Clear

variable {env : FsEnv} {b : SuperBlock} {n B node p : ℕ} {s t : FsSys} {gs : List (ℕ × List ℕ)}
  {F : ℕ → Prop}

theorem clearSfn_cases (he : Reliable env) {parent sb : ℕ} {name : List ℕ} (hap : Apart F B s)
    (hm : NoErrorPages s (dirMaps s parent)) {r : Except ℕ Unit}
    (h : clearSfn env node parent sb name s = some (r, t)) :
    ∃ u, Kept F B (fun _ => False) False s u ∧ t = truncated node u := by
  have hend : ∀ (r' : Except ℕ Unit) {u : FsSys}, (do
      Prog.modify (truncated node)
      Prog.ofExcept r' : FsProg Unit) u = some (r, t) → t = truncated node u := by
    intro r' u h
    rw [Prog.modify_bind_run] at h
    cases r' <;> cases h <;> rfl
  rcases Prog.bind_cases h with ⟨found, u, h1, h⟩ | ⟨e, h1, -⟩
  · have k1 := (findSfn_kept (X := fun _ => False) (W := False) env _ _ _ _ _ _ (Kept.refl hap) h1).1
    rcases found with _ | ⟨page, off⟩
    · exact ⟨u, k1, hend (.ok ()) h⟩
    · dsimp only at h
      rcases Prog.bind_cases h with ⟨r2, u2, h2, h⟩ | ⟨e, h2, -⟩
      · obtain ⟨r3, hr, h2⟩ := Prog.attempt_cases h2
        cases hr
        exact ⟨u2, (updateSfn_kept env _ _ _ _ _ k1 h2).1, hend _ h⟩
      · obtain ⟨_, hr, -⟩ := Prog.attempt_cases h2
        cases hr
  · rw [findSfn, Prog.get_bind_run] at h1
    obtain ⟨a, ha⟩ := scanDir_ok he hm h1
    cases ha

theorem truncated_inode (s : FsSys) (node : ℕ) : (truncated node s).inodes node =
    { s.inodes node with
      iBlocks := 1, iSize := 0, iDataMap := (s.inodes node).iDataMap.take 1 } := by
  have hfree : ∀ (maps : List ℕ) (u : FsSys), (maps.foldl FsSys.kfree u).inodes = u.inodes := by
    intro maps
    induction maps with
    | nil => exact fun _ => rfl
    | cons m maps ih => exact fun u => ih (u.kfree m)
  dsimp only [truncated]
  rw [hfree]
  simp [FsSys.setInode]

theorem truncated_live {i : ℕ} (h : (truncated node s).live i = true) : s.live i = true := by
  have hfree : ∀ (maps : List ℕ) (u : FsSys), (maps.foldl FsSys.kfree u).live i = true →
      u.live i = true := by
    intro maps
    induction maps with
    | nil => exact fun _ h => h
    | cons m maps ih =>
      intro u h
      have h := ih (u.kfree m) h
      by_cases e : i = m
      · simp [FsSys.kfree, e] at h
      · simpa [FsSys.kfree, e] using h
  exact hfree ((s.inodes node).iDataMap.drop 1) (s.setInode node fun n =>
    { n with iBlocks := 1, iSize := 0, iDataMap := (s.inodes node).iDataMap.take 1 }) h

theorem Tracked.clear (h : Tracked b n B s gs) (he : Reliable env) (hv : Volume b n)
    (hn : node ∈ gs.map Prod.fst) {parent : ℕ} {name : List ℕ}
    (hm : NoErrorPages s (dirMaps s parent)) {r : Except ℕ Unit}
    (hr : clearFat32 env node parent name s = some (r, t)) :
    ∃ gs', gs'.map Prod.fst = gs.map Prod.fst ∧ Tracked b n B t gs' := by
  obtain ⟨as, bs, p, cs, rfl, hf, hne⟩ := h.split hv hn
  have hmem : (node, p :: cs) ∈ as ++ (node, p :: cs) :: bs := by simp
  have hc := h.chains
  rw [chains_split] at hc
  have hpc : p :: cs ∈ as.map Prod.snd ++ (p :: cs) :: bs.map Prod.snd := by simp
  have hch := hc.chains.chain _ hpc
  have hnd := (List.nodup_flatten.mp hc.chains.nodup).1 _ hpc
  have hlt : ∀ d ∈ cs, d < n := fun d hd => (hc.bounds _ hpc d (List.mem_cons_of_mem _ hd)).2
  have hk := (clearFat32_kept (W := True) (X := fun i => i = node) env trivial rfl parent name _ _ _
    (Kept.refl h.apart) hr).1
  refine ⟨as ++ (node, [p]) :: bs, by simp, h.relink hne hk (hc.clear h.reserved)
    (clearFat32_table he hv hf h.apart (fun _ h => h) hch hnd hlt (fun _ _ => rfl) hr).table
    fun hl => ?_⟩
  have hrec := h.recorded _ hmem (hk.live node (h.file _ hmem).1 hl)
  obtain ⟨s1, h1, t1, -⟩ := clearBlocks_run he hv hf.counted hch hnd hlt (fun _ _ => rfl) parent name
  have h2 := t1.same
  have hap' : Apart (InTable b n) B (iIncCount node s) :=
    ⟨h.apart.blksize, h.apart.clusters, h.apart.maps, h.apart.pages⟩
  have hcut : (t.inodes node).iBlocks = 1 ∧
      (t.inodes node).iDataMap = (s.inodes node).iDataMap.take 1 := by
    rw [clearFat32, Prog.modify_bind_run] at hr
    rcases Prog.bind_cases hr with ⟨r1, s2, h4, hr⟩ | ⟨e, h4, -⟩
    · obtain ⟨r2, hr2, h4⟩ := Prog.attempt_cases h4
      cases hr2
      rw [h1] at h4
      have hm1 : NoErrorPages s1 (dirMaps s1 parent) := by
        have hdir : dirMaps s1 parent = dirMaps s parent := by
          rw [dirMaps, h2.inodes, h2.dentries, iIncCount_inodes]
          rfl
        rw [hdir]
        intro m hmm e
        rw [h2.maps]
        exact hm m hmm e
      obtain ⟨u, hu, rfl⟩ := clearSfn_cases he (hap'.of_same h2) hm1 h4
      rw [Prog.modify_bind_run] at hr
      obtain rfl : t = iDecCount node (truncated node u) := by
        cases r1 <;> cases hr <;> rfl
      have hin : (u.inodes node).iDataMap = (s.inodes node).iDataMap := by
        rw [hu.dataMap node ((h.file _ hmem).1.trans_le h2.brk) not_false (truncated_live hl),
          h2.inodes, iIncCount_inodes]
      rw [iDecCount_inodes, truncated_inode, hin]
      exact ⟨rfl, rfl⟩
    · obtain ⟨_, hr2, -⟩ := Prog.attempt_cases h4
      cases hr2
  refine ⟨?_, hcut.1, fun m hmm => ?_⟩
  · have haddr := hrec.addrs
    have htake : blockAddrs t node = (blockAddrs s node).take 1 := by
      rw [blockAddrs, hcut.2, blockAddrs, ← List.map_take]
      exact List.map_congr_left fun m hmm =>
        hk.mapAddr m (hrec.small m (List.mem_of_mem_take hmm))
    rw [htake, haddr]
    rfl
  · rw [hcut.2] at hmm
    exact (hrec.small m (List.mem_of_mem_take hmm)).trans_le hk.brk

end Clear

section Create

variable {env : FsEnv} {b : SuperBlock} {n B node c : ℕ} {s t : FsSys} {gs : List (ℕ × List ℕ)}

variable (node) in
theorem buildDataMap_single (he : Reliable env) (hc : c ≠ fatItemEnd)
    (hend : fatOf b s.sd c = fatItemEnd) :
    buildDataMap env node b uintRange c s =
      some (.ok (), accessed (grabbed (appendBlock node s.brk b c (grabbed s))) 1) := by
  have hfuel : uintRange = 4294967294 + 1 + 1 := rfl
  rw [hfuel, buildDataMap, if_neg hc, Prog.bind_ok (kmalloc_run he s)]
  dsimp only
  rw [Prog.modify_bind_run, Prog.bind_ok (readFat_run he _ _)]
  have hend' : fatOf b (appendBlock node s.brk b c (grabbed s)).sd c = fatItemEnd := hend
  rw [hend', not_err_end]
  simp only [Bool.false_eq_true, if_false]
  rw [buildDataMap, if_pos rfl]
  rfl

theorem allocInodeFat32_new (he : Reliable env) (hv : Volume b n) {vol size : ℕ} {isdir : Bool}
    (hb : IsVolume b s vol) (hap : Apart (InTable b n) B s) (hc : 2 ≤ c ∧ c < n)
    (hend : fatOf b s.sd c = fatItemEnd)
    (h : allocInodeFat32 env vol c size isdir s = some (.ok node, t)) :
    node < t.brk ∧ FileAt b n t node c ∧ (t.live node = true → Recorded b t node [c]) ∧
      Kept (InTable b n) B (fun _ => False) False s t := by
  have hkept := (allocInodeFat32_kept (X := fun _ => False) (W := False) env _ _ _ _ _ _ _
    (Kept.refl hap) h).1
  rw [allocInodeFat32, Prog.bind_ok (kmalloc_run he s)] at h
  dsimp only at h
  rw [Prog.get_bind_run, Prog.modify_bind_run] at h
  let s1 := (grabbed s).setInode s.brk fun _ => newInode vol (s.sbs vol) c size isdir
  have hend1 : fatOf (s.sbs vol) s1.sd c = fatItemEnd := (hb.fatOf _ _).trans hend
  have hrun := buildDataMap_single s.brk he (hv.ne_end hc.2) hend1
  let s2 := accessed (grabbed (appendBlock s.brk s1.brk (s.sbs vol) c (grabbed s1))) 1
  have h2 : (do
      if ← addToICache s.brk then pure s.brk else Prog.throw errorCacheFull : FsProg ℕ) s2 =
      some (.ok node, t) := (Prog.bind_ok hrun).symm.trans h
  have hap2 : Apart (InTable b n) B s2 := by
    have k1 : Kept (InTable b n) B (fun _ => False) False s s1 :=
      (((Kept.refl hap).of_same (grabbed_same s) (fun _ _ _ => rfl) fun _ => rfl).setInode s.brk
        (fun h => absurd h (lt_irrefl _)) fun h => absurd h (lt_irrefl _))
    exact (buildDataMap_kept env le_rfl (hap.clusters vol) _ _ _ _ _ k1 hrun).1.apart
  obtain ⟨room, t', h3, h4⟩ := Prog.bind_ok_cases h2
  cases room with
  | false => cases h4
  | true =>
    cases h4
    have k3 := (addToICache_kept (X := fun _ => False) (W := False) s.brk _ _ _ (Kept.refl hap2) h3).1
    have hlt : s.brk < s2.brk := by
      change s.brk < s.brk + 1 + 1 + 1
      omega
    have hin : s2.inodes s.brk = { newInode vol (s.sbs vol) c size isdir with
        iBlocks := 1, iDataMap := [s.brk + 1] } := by
      simp [s2, s1, accessed, grabbed, appendBlock, FsSys.setInode, FsSys.setMap, newInode, uintRange]
    have hsbs : s2.sbs = s.sbs := rfl
    refine ⟨hlt.trans_le k3.brk, ⟨?_, ?_, hc.1, hc.2⟩, fun hl => ?_, hkept⟩
    · rw [k3.iSb _ hlt, IsVolume, k3.nextClu not_false, hsbs, hin]
      exact hb
    · rw [k3.ino _ hlt, hin]
      change cluSec (s.sbs vol) c = _
      rw [hb]
      rfl
    · have hmap := k3.dataMap _ hlt not_false hl
      rw [hin] at hmap
      refine ⟨?_, ?_, fun m hm => ?_⟩
      · have haddr := k3.mapAddr (s.brk + 1) (by change s.brk + 1 < s.brk + 1 + 1 + 1; omega)
        rw [blockAddrs, hmap, List.map_singleton, haddr, List.map_singleton]
        congr 1
        have hm : s2.maps (s.brk + 1) = newMap (s.sbs vol) c := by
          simp [s2, s1, accessed, grabbed, appendBlock, FsSys.setInode, FsSys.setMap]
        rw [hm]
        change cluSec (s.sbs vol) c = _
        rw [hb]
        rfl
      · rw [k3.blocks _ hlt not_false, hin]
        rfl
      · rw [hmap] at hm
        obtain rfl := List.mem_singleton.mp hm
        refine lt_of_lt_of_le ?_ k3.brk
        change s.brk + 1 < s.brk + 1 + 1 + 1
        omega

theorem allocDentryFat32_dInode {vol : ℕ} {parent : Option ℕ} {name : List ℕ} {F : ℕ → Prop}
    (hap : Apart F B s) {d : ℕ} (h : allocDentryFat32 env vol node parent name s = some (.ok d, t)) :
    d < t.brk ∧ (t.dentries d).dInode = node := by
  rw [allocDentryFat32] at h
  obtain ⟨p, u, h1, h⟩ := Prog.bind_ok_cases h
  rcases kmalloc_cases h1 with ⟨rfl, -⟩ | ⟨rfl, rfl⟩
  · cases h
  · dsimp only at h
    rw [Prog.modify_bind_run] at h
    let s1 := (grabbed s).setDentry s.brk fun _ => newDentry vol node s.brk parent name
    have k1 : Kept F B (fun _ => False) False s s1 :=
      ((Kept.refl hap).of_same (grabbed_same s) (fun _ _ _ => rfl) fun _ => rfl).setDentry s.brk
        (fun h => absurd h (lt_irrefl _)) fun h => absurd h (lt_irrefl _)
    have k2 : Kept F B (fun _ => False) False s1 (linkDentry node s.brk parent s1) :=
      (Kept.refl k1.apart).linkDentry node s.brk parent
    rw [Prog.modify_bind_run] at h
    obtain ⟨room, t', h3, h4⟩ := Prog.bind_ok_cases h
    have k3 := (addToDCache_kept s.brk _ _ _ k2 h3).1
    have hlt : s.brk < s1.brk := Nat.lt_succ_self _
    cases room with
    | false => cases h4
    | true =>
      cases h4
      refine ⟨hlt.trans_le k3.brk, (k3.dInode _ hlt).trans ?_⟩
      simp [s1, FsSys.setDentry, newDentry]

theorem Tracked.insert (h : Tracked b n B s gs) (hv : Volume b n) (hn : node < s.brk)
    (hf : FileAt b n s node c) (hend : fatOf b s.sd c = fatItemEnd)
    (hout : c ∉ (gs.map Prod.snd).flatten) (hr : s.live node = true → Recorded b s node [c]) :
    Tracked b n B s (gs ++ [(node, [c])]) := by
  refine ⟨h.entries, h.apart, h.reserved, ?_, fun g hg => ?_, fun g hg hl => ?_⟩
  · rw [List.map_append, List.map_append, List.map_singleton, List.map_singleton, hf.firstClu hv]
    exact h.chains.insert ⟨hf.two_le, hf.lt⟩ hend hout
  · rcases List.mem_append.mp hg with hg | hg
    · exact h.file g hg
    · obtain rfl := List.mem_singleton.mp hg
      exact ⟨hn, c, hf⟩
  · rcases List.mem_append.mp hg with hg | hg
    · exact h.recorded g hg hl
    · obtain rfl := List.mem_singleton.mp hg
      exact hr hl

def created (s : FsSys) (nodes : List ℕ) : Except ℕ ℕ → List ℕ
  | .ok d => nodes ++ [(s.dentries d).dInode]
  | .error _ => nodes

theorem Found.congr {fat fat' : ℕ → ℕ} {num start : ℕ} (h : Found fat n num start)
    (he : ∀ d < n, fat' d = fat d) : Found fat' n num start := by
  rw [Found, freeRun_congr fun d _ hd => by rw [he d hd]; exact ⟨Iff.rfl, Iff.rfl⟩]
  exact h

theorem appendSfn_kept {F : ℕ → Prop} {parent : ℕ} {sfn : List ℕ} {r : Except ℕ Unit}
    (hap : Apart F B s) (h : appendSfn env parent sfn s = some (r, t)) :
    Kept F B (fun _ => True) True s t := by
  have hstays : Prog.Stays (Kept F B (fun _ => True) True s) (appendSfn env parent sfn) := by
    refine (follow_ensures (dentryOpenFile_kept env trivial (fun _ => trivial) parent _)).bind
      fun fp _ => ?_
    refine (fsWrite_kept env trivial (fun _ => trivial) fp _).attempt.bind fun _ _ => ?_
    exact (fsClose_kept env fp).attempt.bind fun _ _ => .pure trivial
  exact (hstays _ _ _ (Kept.refl hap) h).1

theorem Tracked.append (h : Tracked b n B s gs) (he : Reliable env) (hv : Volume b n)
    {parent : ℕ} {sfn : List ℕ} (hlen : sfn.length = sfnSize)
    (hn : (s.dentries parent).dInode ∈ gs.map Prod.fst) (hlt : (s.dentries parent).dInode < s.brk)
    (hgrow : ∀ k, appendGrowth s parent = some k →
      (s.inodes (s.dentries parent).dInode).iBlocks = 1 ∧
      Found (fatOf b s.sd) n k (nextClu s (s.dentries parent).dInode)) {r : Except ℕ Unit}
    (hr : appendSfn env parent sfn s = some (r, t)) :
    ∃ gs', gs'.map Prod.fst = gs.map Prod.fst ∧ Tracked b n B t gs' := by
  obtain ⟨u, v, hg, hk⟩ := appendSfn_cases h.apart hr
  rw [hlen] at hg
  have k1 := (Kept.refl (X := fun _ => False) (W := False) h.apart).openedAtEnd parent
  have hgrow' : ∀ k, growth (openedAtEnd parent s) s.brk
        (writeEnd (openedAtEnd parent s) s.brk sfnSize) = some k →
      ((openedAtEnd parent s).inodes (fileInode (openedAtEnd parent s) s.brk)).iBlocks = 1 ∧
      Found (fatOf b (openedAtEnd parent s).sd) n k
        (nextClu (openedAtEnd parent s) (fileInode (openedAtEnd parent s) s.brk)) := by
    intro k hgk
    obtain ⟨h1, h2⟩ := hgrow k hgk
    rw [openedAtEnd_inode, k1.blocks _ hlt not_false, nextClu, k1.iSb _ hlt, k1.nextClu not_false]
    exact ⟨h1, h2.congr fun d hd => k1.fatOf hv hd⟩
  obtain ⟨gs', hfst, hv'⟩ := (h.of_kept hv k1).grows he hv (by rw [openedAtEnd_inode]; exact hn)
    hgrow' hg
  exact ⟨gs', hfst, hv'.of_kept hv hk⟩

theorem Tracked.create (h : Tracked b n B s gs) (he : Reliable env) (hv : Volume b n)
    {parent : ℕ} {name : List ℕ} {isdir : Bool} (hn : (s.dentries parent).dInode ∈ gs.map Prod.fst)
    (hparent : parent < s.brk)
    (hsb : (s.inodes (s.dentries parent).dInode).iSb = (s.dentries parent).dSb)
    (hone : appendGrowth s parent ≠ none → (s.inodes (s.dentries parent).dInode).iBlocks = 1)
    (hrun : Found (fatOf b s.sd) n ((appendGrowth s parent).getD 0 + 1)
      (nextClu s (s.dentries parent).dInode)) {r : Except ℕ ℕ}
    (hr : createDentryFat32 env (s.dentries parent).dSb parent name isdir s = some (r, t)) :
    ∃ gs', gs'.map Prod.fst = created t (gs.map Prod.fst) r ∧ Tracked b n B t gs' := by
  obtain ⟨ys, hys⟩ := Option.isSome_iff_exists.mp hrun
  obtain ⟨c, hc, hrest⟩ := Option.bind_eq_some_iff.mp hys
  obtain ⟨xs, hxs, hrest⟩ := Option.bind_eq_some_iff.mp hrest
  obtain rfl : c :: xs = ys := by simpa using hrest
  obtain ⟨as, bs, p, cs, hsplit, hf, -⟩ := h.split hv hn
  have hnode : (s.dentries parent).dInode < s.brk := (h.file (_, p :: cs) (by simp [hsplit])).1
  have hb := hf.volume
  rw [hsb] at hb
  have hstart : (s.sbs (s.dentries parent).dSb).infoNextClu =
      nextClu s (s.dentries parent).dInode := by rw [nextClu, hsb]
  obtain ⟨hle, hlt, hfree⟩ := nextFree_spec hc
  have hcn : c < n := by omega
  obtain ⟨s2, t2, hrest⟩ := createDentryFat32_cases he hv hb (by rw [hstart]; exact hc)
    (fun _ _ => rfl) hr
  have hs2 := t2.same
  have hsbs := t2.sbs
  have ht2 := t2.table
  have hout := h.chains.not_free hfree
  have k2 : Kept (InTable b n) B (fun _ => False) True s s2 :=
    (Kept.refl h.apart).of_same hs2 (absurd trivial) (absurd trivial)
  have h2 := h.of_table k2 (h.chains.fill (v := fatItemEnd) h.reserved hfree) ht2
  have hb2 : IsVolume b s2 (s.dentries parent).dSb := by
    rw [IsVolume, hsbs]
    exact hb
  have hend2 : fatOf b s2.sd c = fatItemEnd := (ht2 c hcn).trans (Function.update_self _ _ _)
  rcases hrest with ⟨e, rfl, h3⟩ | ⟨nd, s3, s4, r5, h3, h4, h5⟩
  · have k3 := (allocInodeFat32_kept (X := fun _ => False) (W := False) env _ _ _ _ _ _ _
      (Kept.refl h2.apart) h3).1
    exact ⟨gs, rfl, h2.of_kept hv k3⟩
  · obtain ⟨hnd, hfnew, hrec, k3⟩ := allocInodeFat32_new he hv hb2 h2.apart
      ⟨h.reserved.two_le hfree, hcn⟩ hend2 h3
    have k4 := (allocDentryFat32_kept (X := fun _ => False) (W := False) env _ _ _ _ _ _ _
      (Kept.refl k3.apart) h4).1
    have h4' := (h2.of_kept hv k3).of_kept hv k4
    have k24 := k3.trans k4
    have hd4 : (s4.dentries parent).dInode = (s.dentries parent).dInode := by
      rw [k24.dInode parent (hparent.trans_le hs2.brk), hs2.dentries]
    have hn2 := hnode.trans_le hs2.brk
    have hnew : Tracked b n B s4 (gs ++ [(nd, [c])]) := by
      refine h4'.insert hv (hnd.trans_le k4.brk) (hfnew.of_kept k4 hnd)
        ((k24.fatOf hv hcn).trans hend2) hout fun hl => ?_
      exact (hrec (k4.live nd hnd hl)).of_kept k4 hnd not_false hl
    have hgrow : ∀ k, appendGrowth s4 parent = some k →
        (s4.inodes (s4.dentries parent).dInode).iBlocks = 1 ∧
        Found (fatOf b s4.sd) n k (nextClu s4 (s4.dentries parent).dInode) := by
      intro k hk
      rw [appendGrowth_kept hs2 hsbs hparent hnode k24] at hk
      rw [hd4, k24.blocks _ hn2 not_false, hs2.inodes]
      refine ⟨hone (by rw [hk]; simp), ?_⟩
      rw [nextClu, k24.iSb _ hn2, k24.nextClu not_false, hs2.inodes, hsbs]
      rw [hk] at hys
      have hskip := freeRun_skip (v := fatItemEnd) (by decide) (by decide) hys
      have hfound : Found (Function.update (fatOf b s.sd) c fatItemEnd) n k
          (nextClu s (s.dentries parent).dInode) := by
        rw [Found]
        exact Option.isSome_iff_exists.mpr ⟨xs, hskip⟩
      exact hfound.congr fun d hd => (k24.fatOf hv hd).trans (ht2 d hd)
    have hmem : ∀ gs1 : List (ℕ × List ℕ), (∀ g ∈ gs, g ∈ gs1) →
        (s4.dentries parent).dInode ∈ gs1.map Prod.fst := by
      intro gs1 hsub
      rw [hd4]
      obtain ⟨g, hg, hgn⟩ := List.mem_map.mp hn
      exact List.mem_map.mpr ⟨g, hsub g hg, hgn⟩
    have hlt4 : (s4.dentries parent).dInode < s4.brk := by
      rw [hd4]
      exact hn2.trans_le k24.brk
    cases r with
    | error e =>
      obtain ⟨gs', hfst, ht⟩ := h4'.append he hv (newSfn_length _ _ _) (hmem gs fun _ hg => hg) hlt4
        hgrow h5
      exact ⟨gs', hfst, ht⟩
    | ok d =>
      obtain ⟨hd, hdn⟩ := allocDentryFat32_dInode k3.apart h4
      obtain ⟨gs', hfst, ht⟩ := hnew.append he hv (newSfn_length _ _ _)
        (hmem _ fun _ hg => List.mem_append_left _ hg) hlt4 hgrow h5
      refine ⟨gs', ?_, ht⟩
      rw [hfst, created, (appendSfn_kept k4.apart h5).dInode d hd, hdn, List.map_append]
      rfl

end Create

inductive BlockOp
  | create (parent : ℕ) (name : List ℕ) (isdir : Bool)
  | write (fp : ℕ) (buf : List ℕ)
  | expandTo (fp size : ℕ)
  | expand (node num : ℕ)
  | clear (node parent : ℕ) (name : List ℕ)

def blockStep (env : FsEnv) : FsSys × List ℕ → BlockOp → Option (FsSys × List ℕ)
  | (s, nodes), .create parent name isdir =>
    (createDentryFat32 env (s.dentries parent).dSb parent name isdir s).map fun r =>
      (r.2, created r.2 nodes r.1)
  | (s, nodes), .write fp buf => (fsWrite env fp buf s).map fun r => (r.2, nodes)
  | (s, nodes), .expandTo fp size => (fileExpandTo env fp size s).map fun r => (r.2, nodes)
  | (s, nodes), .expand node num => (expandFat32 env node num s).map fun r => (r.2, nodes)
  | (s, nodes), .clear node parent name =>
    (clearFat32 env node parent name s).map fun r => (r.2, nodes)

/-- The inode has the number of blocks that `may` allows, and the search for `num` clusters finds
them. -/
def Expandable (may : ℕ → Prop) (b : SuperBlock) (n : ℕ) (s : FsSys) (node num : ℕ) : Prop :=
  may (s.inodes node).iBlocks ∧ Found (fatOf b s.sd) n num (nextClu s node)

def BlockOp.Meets (may : ℕ → Prop) (b : SuperBlock) (n : ℕ) : FsSys × List ℕ → BlockOp → Prop
  | (s, nodes), .create parent _ _ =>
    let node := (s.dentries parent).dInode
    node ∈ nodes ∧ parent < s.brk ∧ (s.inodes node).iSb = (s.dentries parent).dSb ∧
      (appendGrowth s parent ≠ none → may (s.inodes node).iBlocks) ∧
      Found (fatOf b s.sd) n ((appendGrowth s parent).getD 0 + 1) (nextClu s node)
  | (s, nodes), .write fp buf => fileInode s fp ∈ nodes ∧
      ∀ k, growth s fp (writeEnd s fp buf.length) = some k → Expandable may b n s (fileInode s fp) k
  | (s, nodes), .expandTo fp size => fileInode s fp ∈ nodes ∧
      ∀ k, growth s fp size = some k → Expandable may b n s (fileInode s fp) k
  | (s, nodes), .expand node num => node ∈ nodes ∧ Expandable may b n s node num
  | (s, nodes), .clear node parent _ => node ∈ nodes ∧ NoErrorPages s (dirMaps s parent)

section Run

variable {env : FsEnv} {b : SuperBlock} {n B : ℕ}

theorem blockStep_tracked (he : Reliable env) (hv : Volume b n) {v w : FsSys × List ℕ}
    {op : BlockOp} (h : ∃ gs, gs.map Prod.fst = v.2 ∧ Tracked b n B v.1 gs)
    (hc : op.Meets (· = 1) b n v) (hs : blockStep env v op = some w) :
    ∃ gs, gs.map Prod.fst = w.2 ∧ Tracked b n B w.1 gs := by
  obtain ⟨s, nodes⟩ := v
  obtain ⟨gs, rfl, h⟩ := h
  cases op with
  | create parent name isdir =>
    obtain ⟨hn, hparent, hsb, hone, hrun⟩ := hc
    obtain ⟨⟨r, t⟩, hrt, rfl⟩ := Option.map_eq_some_iff.mp hs
    exact h.create he hv hn hparent hsb hone hrun hrt
  | write fp buf =>
    obtain ⟨hn, hgrow⟩ := hc
    obtain ⟨⟨r, t⟩, hrt, rfl⟩ := Option.map_eq_some_iff.mp hs
    by_cases hw : hasMode (s.files fp).fMode fModeWriteMask = true
    · obtain ⟨u, v, hg, hk⟩ := fsWrite_cases hw h.apart hrt
      obtain ⟨gs', hfst, hv'⟩ := h.grows he hv hn hgrow hg
      exact ⟨gs', hfst, hv'.of_kept hv hk⟩
    · rw [fsWrite_unwritable hw] at hrt
      cases hrt
      exact ⟨gs, rfl, h⟩
  | expandTo fp size =>
    obtain ⟨hn, hgrow⟩ := hc
    obtain ⟨⟨r, t⟩, hrt, rfl⟩ := Option.map_eq_some_iff.mp hs
    obtain ⟨u, hg⟩ := fileExpandTo_cases hrt
    exact h.grows he hv hn hgrow hg
  | expand node num =>
    obtain ⟨hn, hone, hrun⟩ := hc
    obtain ⟨⟨r, t⟩, hrt, rfl⟩ := Option.map_eq_some_iff.mp hs
    exact h.expand he hv hn hone hrun hrt
  | clear node parent name =>
    obtain ⟨hn, hm⟩ := hc
    obtain ⟨⟨r, t⟩, hrt, rfl⟩ := Option.map_eq_some_iff.mp hs
    exact h.clear he hv hn hm hrt

theorem blockRun_mirrored (he : Reliable env) (hv : Volume b n) {s t : FsSys}
    {nodes nodes' : List ℕ} {ops : List BlockOp}
    (h : ∃ gs, gs.map Prod.fst = nodes ∧ Tracked b n B s gs)
    (hc : RunMeets (blockStep env) (fun v op => op.Meets (· = 1) b n v) (s, nodes) ops)
    (hr : runOps (blockStep env) (s, nodes) ops = some (t, nodes')) :
    ∀ node ∈ nodes', t.live node = true → ∃ l, Mirrored b t node l := by
  obtain ⟨gs, hfst, ht⟩ := runOps_invariant_of_meets
    (P := fun v => ∃ gs, gs.map Prod.fst = v.2 ∧ Tracked b n B v.1 gs)
    (fun _ _ _ hi hm hs => blockStep_tracked he hv hi hm hs) h hc hr
  intro node hn hl
  rw [← show gs.map Prod.fst = nodes' from hfst] at hn
  obtain ⟨g, hg, rfl⟩ := List.mem_map.mp hn
  exact ⟨g.2, ht.mirrored hg hl⟩

end Run

theorem smallVolume_tracked {entries : List ℕ} {next : ℕ}
    (hr : Reserved (fatOf eightSectors (smallVolume entries next).sd))
    (h : fatOf eightSectors (smallVolume entries next).sd 2 = fatItemEnd) :
    Tracked eightSectors 8 8 (smallVolume entries next) [(5, [2])] := by
  have hfirst : firstClu eightSectors (smallVolume entries next) 5 = 2 :=
    (smallVolume_file _ _).firstClu eightSectors_volume
  refine ⟨by decide, smallVolume_apart _ _, hr, ?_, fun g hg => ?_, fun g hg _ => ?_⟩
  · rw [List.map_singleton, List.map_singleton, hfirst]
    exact smallVolume_chains h
  · obtain rfl := List.mem_singleton.mp hg
    exact ⟨by change 5 < 10; decide, 2, smallVolume_file _ _⟩
  · obtain rfl := List.mem_singleton.mp hg
    refine ⟨?_, rfl, fun m hm => ?_⟩
    · change [16384] = [cluSec eightSectors 2]
      decide
    · obtain rfl := List.mem_singleton.mp hm
      change 6 < 10
      decide

theorem blockRun_mirrored_small : ∃ t nodes', runOps (blockStep soundEnv)
    (smallVolume freshTable 3, [5]) [.expand 5 2] = some (t, nodes') ∧
    ∀ node ∈ nodes', t.live node = true → ∃ l, Mirrored eightSectors t node l := by
  have hrun : (runOps (blockStep soundEnv) (smallVolume freshTable 3, [5]) [.expand 5 2]).isSome := by
    decide +kernel
  obtain ⟨⟨t, nodes'⟩, hrun⟩ := Option.isSome_iff_exists.mp hrun
  have hmeets : RunMeets (blockStep soundEnv) (fun v op => op.Meets (· = 1) eightSectors 8 v)
      (smallVolume freshTable 3, [5]) [.expand 5 2] :=
    ⟨⟨by decide, rfl, by rw [Found]; decide +kernel⟩, fun _ _ => trivial⟩
  exact ⟨t, nodes', hrun, blockRun_mirrored soundEnv_reliable eightSectors_volume
    ⟨_, rfl, smallVolume_tracked ⟨by decide +kernel, by decide +kernel⟩ (by decide +kernel)⟩
    hmeets hrun⟩

/-- The second expansion links its cluster to the first one of the chain. -/
theorem expandTwice_run : (runOps (blockStep soundEnv) (smallVolume freshTable 3, [5])
    [.expand 5 1, .expand 5 1]).map (fun v => (v.2, v.1.live 5, fatOf eightSectors v.1.sd 2,
      blockAddrs v.1 5, firstClu eightSectors v.1 5)) =
    some ([5], true, 4, [16384, 16392, 16400], 2) := by decide +kernel

theorem expandTwice_found : (blockStep soundEnv (smallVolume freshTable 3, [5]) (.expand 5 1)).map
    (fun v => (v.2, (freeRun (fatOf eightSectors v.1.sd) 8 1 (nextClu v.1 5)).isSome)) =
    some ([5], true) := by decide +kernel

theorem blockRun_not_mirrored : ¬ ∀ (env : FsEnv) (b : SuperBlock) (n B : ℕ) (s t : FsSys)
    (nodes nodes' : List ℕ) (ops : List BlockOp), Reliable env → Volume b n →
    (∃ gs, gs.map Prod.fst = nodes ∧ Tracked b n B s gs) →
    RunMeets (blockStep env) (fun v op => op.Meets (fun _ => True) b n v) (s, nodes) ops →
    runOps (blockStep env) (s, nodes) ops = some (t, nodes') →
    ∀ node ∈ nodes', t.live node = true → ∃ l, Mirrored b t node l := by
  intro h
  obtain ⟨⟨t, nodes'⟩, hrun, hval⟩ := Option.map_eq_some_iff.mp expandTwice_run
  have hmeets : RunMeets (blockStep soundEnv) (fun v op => op.Meets (fun _ => True) eightSectors 8 v)
      (smallVolume freshTable 3, [5]) [.expand 5 1, .expand 5 1] := by
    refine ⟨⟨by decide, trivial, by rw [Found]; decide +kernel⟩, fun v hv => ⟨?_, fun _ _ => trivial⟩⟩
    have hfound := expandTwice_found
    rw [hv] at hfound
    obtain ⟨s1, nodes1⟩ := v
    obtain ⟨rfl, h1⟩ : nodes1 = [5] ∧ (freeRun (fatOf eightSectors s1.sd) 8 1
        (nextClu s1 5)).isSome = true := by simpa using hfound
    exact ⟨by decide, trivial, h1⟩
  simp only [Prod.mk.injEq] at hval
  obtain ⟨rfl, hlive, hfat, haddr, hfirst⟩ := hval
  obtain ⟨l, hl⟩ := h soundEnv eightSectors 8 8 _ t [5] [5] [.expand 5 1, .expand 5 1]
    soundEnv_reliable eightSectors_volume
    ⟨_, rfl, smallVolume_tracked ⟨by decide +kernel, by decide +kernel⟩ (by decide +kernel)⟩
    hmeets hrun 5 (by decide) hlive
  have hmap := haddr.symm.trans hl.addrs
  have hhead := hl.head
  rw [hfirst] at hhead
  obtain ⟨l', rfl⟩ := List.head?_eq_some_iff.mp hhead
  rcases l' with _ | ⟨c, l'⟩
  · simp at hmap
  · have hc : c = 4 := hl.chain.1.symm.trans hfat
    subst hc
    have h2 := congrArg (fun m => m[1]?) hmap
    exact absurd h2 (by simp; decide)

end OurOS.Fs
