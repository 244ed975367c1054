import OurOS.Fs.Fscache

namespace OurOS.Fs

section Policy

variable {α : Type} (pinned unused : α → Bool)

/-- What a flush of the LRU list frees, in the order in which it does: the objects that are neither
pinned nor referenced or, where there are none, the oldest one that is not pinned. -/
def victims (lru : List α) : List α :=
  let idle := lru.reverse.filter fun x => !pinned x && unused x
  if idle.isEmpty then (lru.reverse.find? fun x => !pinned x).toList else idle

variable {pinned unused} {lru : List α} {x : α}

theorem not_pinned_of_mem_victims (h : x ∈ victims pinned unused lru) : pinned x = false := by
  rw [victims] at h
  split_ifs at h with hidle
  · simpa using List.find?_some (Option.mem_toList.mp h)
  · simpa using And.left (by simpa using (List.mem_filter.mp h).2)

theorem mem_of_mem_victims (h : x ∈ victims pinned unused lru) : x ∈ lru := by
  rw [victims] at h
  split_ifs at h with hidle
  · exact List.mem_reverse.mp (List.mem_of_find?_eq_some (Option.mem_toList.mp h))
  · exact List.mem_reverse.mp (List.mem_of_mem_filter h)

theorem victims_eq_nil : victims pinned unused lru = [] ↔ ∀ x ∈ lru, pinned x = true := by
  constructor
  · intro h x hx
    by_contra hp
    rw [victims] at h
    split_ifs at h with hidle
    · rw [Option.toList_eq_nil_iff, List.find?_eq_none] at h
      exact h x (List.mem_reverse.mpr hx) (by simpa using hp)
    · exact hidle (by rw [h]; rfl)
  · intro h
    rw [List.eq_nil_iff_forall_not_mem]
    intro x hx
    have hp := not_pinned_of_mem_victims hx
    rw [h x (mem_of_mem_victims hx)] at hp
    cases hp

theorem unused_of_mem_victims (hidle : ∃ y ∈ lru, pinned y = false ∧ unused y = true)
    (h : x ∈ victims pinned unused lru) : unused x = true := by
  obtain ⟨y, hy, hp, hu⟩ := hidle
  have hmem : y ∈ lru.reverse.filter fun x => !pinned x && unused x :=
    List.mem_filter.mpr ⟨List.mem_reverse.mpr hy, by simp [hp, hu]⟩
  rw [victims, if_neg (by rw [List.isEmpty_iff]; exact List.ne_nil_of_mem hmem)] at h
  simpa using And.right (by simpa using (List.mem_filter.mp h).2)

end Policy

section Walk

variable {pinned unused : FsSys → ℕ → Bool} {free : ℕ → FsProg Unit}

def KeepsMarks (pinned unused : FsSys → ℕ → Bool) (free : ℕ → FsProg Unit) : Prop :=
  ∀ item s r t, free item s = some (r, t) → pinned t = pinned s ∧ unused t = unused s

theorem flushWalk_eq (hfree : KeepsMarks pinned unused free) (walk : List ℕ) (target : Option ℕ)
    (s : FsSys) : flushWalk pinned unused free walk target s = (do
      Prog.forEach free (walk.filter fun x => !pinned s x && unused s x)
      pure (walk.any fun x => !pinned s x && unused s x,
        target.or (walk.find? fun x => !pinned s x && !unused s x)) : FsProg _) s := by
  induction walk generalizing target s with
  | nil => simp [flushWalk, Prog.forEach]
  | cons item rest ih =>
    rw [flushWalk, Prog.get_bind_run]
    cases hp : pinned s item with
    | true => simp [hp, ih]
    | false =>
      cases hu : unused s item with
      | false =>
        simp only [Bool.false_eq_true, if_false, ih]
        simp [hp, hu]
      | true =>
        have hfilter : (item :: rest).filter (fun x => !pinned s x && unused s x) =
            item :: rest.filter fun x => !pinned s x && unused s x := by simp [hp, hu]
        simp only [Bool.false_eq_true, if_false, if_true, hfilter, Prog.forEach]
        rw [bind_assoc]
        refine Prog.bind_run_congr_right fun _ t hrun => ?_
        obtain ⟨h1, h2⟩ := hfree item s _ t hrun
        have hrest := ih target t
        rw [h1, h2] at hrest
        rw [Prog.bind_run_congr hrest, bind_assoc]
        simp [hp, hu]

theorem flushLru_eq (hfree : KeepsMarks pinned unused free) (lru : List ℕ) (s : FsSys) :
    flushLru pinned unused free lru s = (do
      Prog.forEach free (victims (pinned s) (unused s) lru)
      pure !(victims (pinned s) (unused s) lru).isEmpty : FsProg _) s := by
  rw [flushLru, Prog.bind_run_congr (flushWalk_eq hfree _ _ s), bind_assoc, victims]
  by_cases hidle : (lru.reverse.filter fun x => !pinned s x && unused s x).isEmpty = true
  · have hnone := List.filter_eq_nil_iff.mp (List.isEmpty_iff.mp hidle)
    have hany : lru.reverse.any (fun x => !pinned s x && unused s x) = false := by
      rw [List.any_eq_false]
      exact hnone
    have hfind : (lru.reverse.find? fun x => !pinned s x && !unused s x) =
        lru.reverse.find? fun x => !pinned s x := by
      rw [← List.head?_filter, ← List.head?_filter]
      refine congrArg List.head? (List.filter_congr fun x hx => ?_)
      have := hnone x hx
      cases hp : pinned s x <;> simp_all
    simp only [List.isEmpty_iff.mp hidle, hany, hfind]
    cases lru.reverse.find? fun x => !pinned s x <;> simp [Prog.forEach]
  · have hany : lru.reverse.any (fun x => !pinned s x && unused s x) = true := by
      rw [List.any_eq_true]
      obtain ⟨x, hx⟩ := List.exists_mem_of_ne_nil _ (mt List.isEmpty_iff.mpr hidle)
      exact ⟨x, List.mem_of_mem_filter hx, (List.mem_filter.mp hx).2⟩
    rw [if_neg hidle]
    simp only [hany, pure_bind, Bool.eq_false_iff.mpr hidle, Bool.not_false]

end Walk

structure KeptRest (s t : FsSys) : Prop where
  brk : t.brk = s.brk
  maps : t.maps = s.maps
  dentry : ∀ d, t.dentries d = { s.dentries d with
    dSubdirs := (t.dentries d).dSubdirs, dParent := (t.dentries d).dParent }
  inode : ∀ n, t.inodes n = { s.inodes n with
    iDentry := (t.inodes n).iDentry, iDataMap := (t.inodes n).iDataMap }
  iDentry : ∀ n, ∀ d ∈ (t.inodes n).iDentry, d ∈ (s.inodes n).iDentry
  iDataMap : ∀ n, ∀ m ∈ (t.inodes n).iDataMap, m ∈ (s.inodes n).iDataMap
  dLru : ∀ d ∈ t.dCache.lru, d ∈ s.dCache.lru
  iLru : ∀ n ∈ t.iCache.lru, n ∈ s.iCache.lru

instance : Std.Refl KeptRest :=
  ⟨fun _ => ⟨rfl, rfl, fun _ => rfl, fun _ => rfl, fun _ _ h => h, fun _ _ h => h, fun _ h => h,
    fun _ h => h⟩⟩

theorem KeptRest.of_same {s t : FsSys} (hbrk : t.brk = s.brk) (hmaps : t.maps = s.maps)
    (hdentries : t.dentries = s.dentries) (hinodes : t.inodes = s.inodes)
    (hd : t.dCache.lru = s.dCache.lru) (hi : t.iCache.lru = s.iCache.lru) : KeptRest s t := by
  refine ⟨hbrk, hmaps, fun d => by rw [hdentries], fun n => by rw [hinodes], fun n d h => ?_,
    fun n m h => ?_, fun d h => hd ▸ h, fun n h => hi ▸ h⟩
  · rwa [hinodes] at h
  · rwa [hinodes] at h

instance : IsTrans FsSys KeptRest where
  trans _ _ _ h₁ h₂ :=
    ⟨h₂.brk.trans h₁.brk, h₂.maps.trans h₁.maps, fun d => by rw [h₂.dentry, h₁.dentry],
      fun n => by rw [h₂.inode, h₁.inode], fun n d h => h₁.iDentry n d (h₂.iDentry n d h),
      fun n m h => h₁.iDataMap n m (h₂.iDataMap n m h),
      fun d h => h₁.dLru d (h₂.dLru d h), fun n h => h₁.iLru n (h₂.iLru n h)⟩

def Freed (xs : List ℕ) (s t : FsSys) : Prop := ∀ x, t.live x = true ↔ s.live x = true ∧ x ∉ xs

theorem Freed.refl (s : FsSys) : Freed [] s s := fun x => by simp

theorem Freed.trans {xs ys : List ℕ} {s t u : FsSys} (h₁ : Freed xs s t) (h₂ : Freed ys t u) :
    Freed (xs ++ ys) s u := fun x => by
  rw [h₂ x, h₁ x, List.mem_append, not_or, and_assoc]

theorem freed_kfree (s : FsSys) (p : ℕ) : Freed [p] s (s.kfree p) := by
  intro x
  by_cases e : x = p
  · subst e
    simp [FsSys.kfree]
  · simp [FsSys.kfree, e]

section FreeDentry

variable (entry : ℕ) (s : FsSys)

theorem freeDentry_live : (freeDentry entry s).live = (s.kfree entry).live := by
  rw [freeDentry]
  cases (s.dentries entry).dParent <;> rfl

theorem freeDentry_inodes : (freeDentry entry s).inodes =
    (s.setInode (s.dentries entry).dInode fun n =>
      { n with iDentry := n.iDentry.erase entry }).inodes := by
  rw [freeDentry]
  cases (s.dentries entry).dParent <;> rfl

theorem freeDentry_iDentry (n : ℕ) : ((freeDentry entry s).inodes n).iDentry =
    if n = (s.dentries entry).dInode then (s.inodes n).iDentry.erase entry
      else (s.inodes n).iDentry := by
  rw [freeDentry_inodes]
  by_cases e : n = (s.dentries entry).dInode
  · subst e
    simp [FsSys.setInode]
  · simp [FsSys.setInode, e]

theorem freeDentry_iDataMap (n : ℕ) :
    ((freeDentry entry s).inodes n).iDataMap = (s.inodes n).iDataMap := by
  rw [freeDentry_inodes]
  by_cases e : n = (s.dentries entry).dInode
  · subst e
    simp [FsSys.setInode]
  · simp [FsSys.setInode, e]

theorem freeDentry_dentries (d : ℕ) : (freeDentry entry s).dentries d = { s.dentries d with
    dSubdirs := ((freeDentry entry s).dentries d).dSubdirs
    dParent := ((freeDentry entry s).dentries d).dParent } := by
  rw [freeDentry]
  cases (s.dentries entry).dParent with
  | none =>
    simp only [FsSys.kfree, FsSys.setInode]
    split_ifs <;> rfl
  | some p =>
    simp only [FsSys.kfree, FsSys.setInode, FsSys.setDentry]
    by_cases e : d = p
    · subst e
      simp only [Function.update_self]
      split_ifs <;> rfl
    · simp only [Function.update_of_ne e]
      split_ifs <;> rfl

theorem freeDentry_kept : KeptRest s (freeDentry entry s) := by
  refine ⟨?_, ?_, freeDentry_dentries entry s, fun n => ?_, fun n d => ?_,
    fun n m => by rw [freeDentry_iDataMap]; exact id, ?_, ?_⟩
  · rw [freeDentry]
    cases (s.dentries entry).dParent <;> rfl
  · rw [freeDentry]
    cases (s.dentries entry).dParent <;> rfl
  · rw [freeDentry_inodes]
    by_cases e : n = (s.dentries entry).dInode
    · subst e
      simp [FsSys.setInode]
    · simp [FsSys.setInode, e]
  · rw [freeDentry_iDentry]
    split_ifs
    · exact List.mem_of_mem_erase
    · exact id
  · have hlru : (freeDentry entry s).dCache.lru = s.dCache.lru.erase entry := by
      rw [freeDentry]
      cases (s.dentries entry).dParent <;> rfl
    rw [hlru]
    exact fun _ => List.mem_of_mem_erase
  · rw [freeDentry]
    cases (s.dentries entry).dParent <;> exact fun _ h => h

end FreeDentry

def mapObjects (s : FsSys) (map : ℕ) : List ℕ :=
  map :: match (s.maps map).mapPage with
    | some (.ok page) => [page]
    | _ => []

def inodeObjects (s : FsSys) (node : ℕ) : List ℕ :=
  node :: ((s.inodes node).iDentry ++ (s.inodes node).iDataMap.flatMap (mapObjects s))

section FreeInode

variable {s t : FsSys}

theorem mapObjects_congr (h : t.maps = s.maps) : mapObjects t = mapObjects s := by
  funext m
  rw [mapObjects, mapObjects, h]

theorem freeDentries_spec (entries : List ℕ) (s : FsSys) :
    KeptRest s (entries.foldl (fun s entry => freeDentry entry s) s) ∧
      Freed entries s (entries.foldl (fun s entry => freeDentry entry s) s) ∧
      ∀ n, ((entries.foldl (fun s entry => freeDentry entry s) s).inodes n).iDataMap =
          (s.inodes n).iDataMap ∧ ∀ d ∈ (s.inodes n).iDentry, d ∉ entries →
        d ∈ ((entries.foldl (fun s entry => freeDentry entry s) s).inodes n).iDentry := by
  induction entries generalizing s with
  | nil => exact ⟨refl s, .refl s, fun _ => ⟨rfl, fun _ h _ => h⟩⟩
  | cons entry entries ih =>
    obtain ⟨h1, h2, h3⟩ := ih (freeDentry entry s)
    have hfreed : Freed [entry] s (freeDentry entry s) := by
      intro x
      rw [freeDentry_live]
      exact freed_kfree s entry x
    refine ⟨IsTrans.trans _ _ _ (freeDentry_kept entry s) h1, hfreed.trans h2, fun n => ⟨?_, ?_⟩⟩
    · exact (h3 n).1.trans (freeDentry_iDataMap entry s n)
    · intro d hd hnot
      obtain ⟨hne, hnot⟩ := List.ne_and_not_mem_of_not_mem_cons hnot
      refine (h3 n).2 d ?_ hnot
      rw [freeDentry_iDentry]
      split_ifs
      · exact (List.mem_erase_of_ne hne).mpr hd
      · exact hd

theorem freeMap_spec {map : ℕ} {r : Except ℕ Unit} (h : freeMap map s = some (r, t)) :
    r = .ok () ∧ KeptRest s t ∧ Freed (mapObjects s map) s t ∧ t.inodes = s.inodes := by
  rw [freeMap, Prog.get_bind_run] at h
  cases hp : (s.maps map).mapPage with
  | none =>
    rw [hp] at h
    cases h
    refine ⟨rfl, .of_same rfl rfl rfl rfl rfl rfl, ?_, rfl⟩
    rw [mapObjects, hp]
    exact freed_kfree s map
  | some page =>
    cases page with
    | error e =>
      rw [hp] at h
      cases h
    | ok page =>
      rw [hp] at h
      cases h
      refine ⟨rfl, .of_same rfl rfl rfl rfl rfl rfl, ?_, rfl⟩
      have h1 : Freed [page] s (freeFspage page s) := freed_kfree s page
      have h2 := h1.trans (freed_kfree (freeFspage page s) map)
      rw [mapObjects, hp]
      intro x
      rw [h2 x]
      simp [or_comm]

theorem freeMaps_spec {ms : List ℕ} {r : Except ℕ Unit}
    (h : Prog.forEach freeMap ms s = some (r, t)) :
    r = .ok () ∧ KeptRest s t ∧ Freed (ms.flatMap (mapObjects s)) s t ∧ t.inodes = s.inodes := by
  induction ms generalizing s with
  | nil =>
    cases h
    exact ⟨rfl, refl _, .refl _, rfl⟩
  | cons m ms ih =>
    rw [Prog.forEach] at h
    rcases Prog.bind_cases h with ⟨_, u, h1, h2⟩ | ⟨e, h1, -⟩
    · obtain ⟨-, k1, f1, n1⟩ := freeMap_spec h1
      obtain ⟨hr, k2, f2, n2⟩ := ih h2
      rw [mapObjects_congr k1.maps] at f2
      exact ⟨hr, IsTrans.trans _ _ _ k1 k2, f1.trans f2, n2.trans n1⟩
    · obtain ⟨h1, -⟩ := freeMap_spec h1
      cases h1

structure FreedInode (node : ℕ) (s t : FsSys) : Prop where
  kept : KeptRest s t
  freed : Freed (inodeObjects s node) s t
  objects : ∀ n, ∀ x ∈ inodeObjects t n, x ∈ inodeObjects s n
  others : ∀ n, ∀ x ∈ inodeObjects s n, x ∈ inodeObjects t n ∨ x ∈ inodeObjects s node

theorem unlink_kept (node : ℕ) (s : FsSys) :
    KeptRest s { s with iCache := s.iCache.unlink node } :=
  ⟨rfl, rfl, fun _ => rfl, fun _ => rfl, fun _ _ h => h, fun _ _ h => h, fun _ h => h,
    fun _ => List.mem_of_mem_erase⟩

theorem clearMaps_inodes (node : ℕ) (s : FsSys) (n : ℕ) :
    (s.setInode node fun n => { n with iDataMap := [] }).inodes n = { s.inodes n with
      iDataMap := if n = node then [] else (s.inodes n).iDataMap } := by
  by_cases e : n = node
  · subst e
    simp [FsSys.setInode]
  · simp [FsSys.setInode, e]

theorem clearMaps_kept (node : ℕ) (s : FsSys) :
    KeptRest s (s.setInode node fun n => { n with iDataMap := [] }) := by
  have h := clearMaps_inodes node s
  refine ⟨rfl, rfl, fun _ => rfl, fun n => by rw [h], fun n d hd => ?_, fun n m hm => ?_,
    fun _ h => h, fun _ h => h⟩
  · rw [h] at hd
    exact hd
  · rw [h] at hm
    split_ifs at hm with e
    · exact absurd hm List.not_mem_nil
    · exact hm

theorem kfree_kept (p : ℕ) (s : FsSys) : KeptRest s (s.kfree p) :=
  .of_same rfl rfl rfl rfl rfl rfl

theorem freeInode_spec {node : ℕ} {r : Except ℕ Unit} (h : freeInode node s = some (r, t)) :
    r = .ok () ∧ FreedInode node s t := by
  rw [freeInode, Prog.get_bind_run, Prog.modify_bind_run, Prog.modify_bind_run,
    Prog.modify_bind_run] at h
  set s1 : FsSys := { s with iCache := s.iCache.unlink node }
  obtain ⟨k2, f2, n2⟩ := freeDentries_spec (s.inodes node).iDentry s1
  set s2 := (s.inodes node).iDentry.foldl (fun s entry => freeDentry entry s) s1
  have k12 : KeptRest s s2 := IsTrans.trans _ _ _ (unlink_kept node s) k2
  have k13 := IsTrans.trans _ _ _ k12 (clearMaps_kept node s2)
  have hclear := clearMaps_inodes node s2
  set s3 := s2.setInode node fun n => { n with iDataMap := [] }
  rcases Prog.bind_cases h with ⟨_, u, h1, h2⟩ | ⟨e, h1, -⟩
  · obtain ⟨-, k4, f4, n4⟩ := freeMaps_spec h1
    cases h2
    have kt := IsTrans.trans _ _ _ (IsTrans.trans _ _ _ k13 k4) (kfree_kept node u)
    have hobj := mapObjects_congr kt.maps
    have hmap3 := mapObjects_congr k13.maps
    rw [hmap3] at f4
    have hdentry : ∀ n, ((u.kfree node).inodes n).iDentry = (s2.inodes n).iDentry := by
      intro n
      change (u.inodes n).iDentry = _
      rw [n4, hclear]
    have hmap : ∀ n, ((u.kfree node).inodes n).iDataMap =
        if n = node then [] else (s.inodes n).iDataMap := by
      intro n
      change (u.inodes n).iDataMap = _
      rw [n4, hclear, (n2 n).1]
    refine ⟨rfl, kt, fun x => ?_, fun n x hx => ?_, fun n x hx => ?_⟩
    · have hall := ((Freed.trans f2 f4).trans (freed_kfree u node)) x
      rw [hall]
      simp only [inodeObjects, List.mem_append, List.mem_cons, List.not_mem_nil, or_false]
      tauto
    · rw [inodeObjects, hobj, hmap] at hx
      rw [inodeObjects]
      rcases List.mem_cons.mp hx with rfl | hx
      · exact List.mem_cons_self
      rcases List.mem_append.mp hx with hx | hx
      · exact List.mem_cons_of_mem _ (List.mem_append_left _ (kt.iDentry n x hx))
      · split_ifs at hx with e
        · exact absurd hx List.not_mem_nil
        · exact List.mem_cons_of_mem _ (List.mem_append_right _ hx)
    · rw [inodeObjects, hobj, hmap, hdentry]
      rw [inodeObjects] at hx
      by_cases e : n = node
      · subst e
        exact .inr hx
      by_cases hd : x ∈ (s.inodes node).iDentry
      · exact .inr (List.mem_cons_of_mem _ (List.mem_append_left _ hd))
      rw [if_neg e]
      rcases List.mem_cons.mp hx with rfl | hx
      · exact .inl List.mem_cons_self
      rcases List.mem_append.mp hx with hx | hx
      · exact .inl (List.mem_cons_of_mem _ (List.mem_append_left _ ((n2 n).2 x hx hd)))
      · exact .inl (List.mem_cons_of_mem _ (List.mem_append_right _ hx))
  · obtain ⟨h1, -⟩ := freeMaps_spec h1
    cases h1

theorem freeInodes_spec {vs : List ℕ} {r : Except ℕ Unit}
    (h : Prog.forEach (fun n => do
      freeInode n
      Prog.modify shrinkI : ℕ → FsProg Unit) vs s = some (r, t)) :
    r = .ok () ∧ KeptRest s t ∧ Freed (vs.flatMap (inodeObjects s)) s t := by
  induction vs generalizing s with
  | nil =>
    cases h
    exact ⟨rfl, refl _, .refl _⟩
  | cons v vs ih =>
    rw [Prog.forEach, bind_assoc] at h
    rcases Prog.bind_cases h with ⟨_, u, h1, h2⟩ | ⟨e, h1, -⟩
    · obtain ⟨-, hv⟩ := freeInode_spec h1
      obtain ⟨hr, k2, f2⟩ := ih h2
      have kshrink : KeptRest u (shrinkI u) :=
        .of_same rfl rfl rfl rfl rfl rfl
      refine ⟨hr, IsTrans.trans _ _ _ (IsTrans.trans _ _ _ hv.kept kshrink) k2, fun x => ?_⟩
      rw [f2 x]
      change (u.live x = true ∧ x ∉ vs.flatMap (inodeObjects u)) ↔ _
      rw [hv.freed x, List.flatMap_cons, List.mem_append, not_or, and_assoc]
      refine and_congr_right fun _ => and_congr_right fun hnot => not_congr ?_
      simp only [List.mem_flatMap]
      constructor
      · rintro ⟨n, hn, hx⟩
        exact ⟨n, hn, hv.objects n x hx⟩
      · rintro ⟨n, hn, hx⟩
        exact ⟨n, hn, (hv.others n x hx).resolve_right hnot⟩
    · obtain ⟨h1, -⟩ := freeInode_spec h1
      cases h1

end FreeInode

section Insert

variable {s t : FsSys}

def dVictims (s : FsSys) : List ℕ :=
  victims (fun d => (s.dentries d).dPinned) (fun d => (s.dentries d).dCount == 0) s.dCache.lru

def iVictims (s : FsSys) : List ℕ :=
  victims (fun n => (s.inodes n).iPinned) (fun n => (s.inodes n).iCount == 0) s.iCache.lru

theorem KeptRest.dMarks (h : KeptRest s t) :
    ((fun d => (t.dentries d).dPinned) = fun d => (s.dentries d).dPinned) ∧
      (fun d => (t.dentries d).dCount == 0) = fun d => (s.dentries d).dCount == 0 :=
  ⟨funext fun d => by rw [h.dentry], funext fun d => by rw [h.dentry]⟩

theorem KeptRest.iMarks (h : KeptRest s t) :
    ((fun n => (t.inodes n).iPinned) = fun n => (s.inodes n).iPinned) ∧
      (fun n => (t.inodes n).iCount == 0) = fun n => (s.inodes n).iCount == 0 :=
  ⟨funext fun n => by rw [h.inode], funext fun n => by rw [h.inode]⟩

theorem shrinkD_kept (s : FsSys) : KeptRest s (shrinkD s) :=
  .of_same rfl rfl rfl rfl rfl rfl

theorem flushDentries_spec (vs : List ℕ) (s : FsSys) :
    KeptRest s (vs.foldl (fun s d => shrinkD (freeDentry d s)) s) ∧
      Freed vs s (vs.foldl (fun s d => shrinkD (freeDentry d s)) s) := by
  induction vs generalizing s with
  | nil => exact ⟨refl s, .refl s⟩
  | cons v vs ih =>
    obtain ⟨h1, h2⟩ := ih (shrinkD (freeDentry v s))
    have hk : KeptRest s (shrinkD (freeDentry v s)) :=
      IsTrans.trans _ _ _ (freeDentry_kept v s) (shrinkD_kept _)
    have hf : Freed [v] s (shrinkD (freeDentry v s)) := by
      intro x
      change (freeDentry v s).live x = true ↔ _
      rw [freeDentry_live]
      exact freed_kfree s v x
    exact ⟨IsTrans.trans _ _ _ hk h1, hf.trans h2⟩

theorem flushDCache_run (s : FsSys) : flushDCache s = some (.ok !(dVictims s).isEmpty,
    (dVictims s).foldl (fun s d => shrinkD (freeDentry d s)) s) := by
  have hkeep : KeepsMarks (fun s d => (s.dentries d).dPinned) (fun s d => (s.dentries d).dCount == 0)
      fun d => Prog.modify fun s => shrinkD (freeDentry d s) := by
    intro item s r t h
    cases h
    exact (freeDentry_kept item s).dMarks
  rw [flushDCache, Prog.get_bind_run, flushLru_eq hkeep]
  exact Prog.bind_ok (Prog.forEach_modify (fun d s => shrinkD (freeDentry d s)) (dVictims s) s)

theorem flushDCache_spec (s : FsSys) : ∃ t, flushDCache s = some (.ok !(dVictims s).isEmpty, t) ∧
    KeptRest s t ∧ Freed (dVictims s) s t ∧ (dVictims s = [] → t = s) := by
  obtain ⟨h1, h2⟩ := flushDentries_spec (dVictims s) s
  exact ⟨_, flushDCache_run s, h1, h2, fun hnil => by rw [hnil]; rfl⟩

theorem flushICache_eq (s : FsSys) : flushICache s = (do
    Prog.forEach (fun n => do
      freeInode n
      Prog.modify shrinkI) (iVictims s)
    pure !(iVictims s).isEmpty : FsProg _) s := by
  have hkeep : KeepsMarks (fun s n => (s.inodes n).iPinned) (fun s n => (s.inodes n).iCount == 0)
      fun n => (do
        freeInode n
        Prog.modify shrinkI) := by
    intro item s r t h
    rcases Prog.bind_cases h with ⟨_, u, h1, h2⟩ | ⟨e, h1, -⟩
    · obtain ⟨-, hv⟩ := freeInode_spec h1
      cases h2
      exact hv.kept.iMarks
    · obtain ⟨h1, -⟩ := freeInode_spec h1
      cases h1
  rw [flushICache, Prog.get_bind_run, flushLru_eq hkeep]
  rfl

theorem flushICache_spec {r : Except ℕ Bool} (h : flushICache s = some (r, t)) :
    r = .ok !(iVictims s).isEmpty ∧ KeptRest s t ∧
      Freed ((iVictims s).flatMap (inodeObjects s)) s t := by
  rw [flushICache_eq] at h
  rcases Prog.bind_cases h with ⟨_, u, h1, h2⟩ | ⟨e, h1, -⟩
  · obtain ⟨-, hk, hf⟩ := freeInodes_spec h1
    cases h2
    exact ⟨rfl, hk, hf⟩
  · obtain ⟨h1, -⟩ := freeInodes_spec h1
    cases h1

structure Flushed (full : Prop) (vs objects : List ℕ) (s u : FsSys) (room : Bool) : Prop where
  kept : KeptRest s u
  flushed : full → Freed objects s u ∧ room = !vs.isEmpty
  notFull : ¬ full → u = s ∧ room = true

def enteredD (entry : ℕ) (s : FsSys) : FsSys :=
  { s with dCache := s.dCache.add (hashString (s.dentries entry).dName) entry }

def enteredI (node : ℕ) (s : FsSys) : FsSys :=
  { s with iCache := s.iCache.add (hashInt (s.inodes node).iIno) node }

theorem addToDCache_spec (entry : ℕ) (s : FsSys) : ∃ u room,
    Flushed (s.dCache.size = dcacheCapacity) (dVictims s) (dVictims s) s u room ∧
      addToDCache entry s = some (.ok room, if room then enteredD entry u else u) := by
  rw [addToDCache, Prog.get_bind_run]
  by_cases hfull : s.dCache.size = dcacheCapacity
  · obtain ⟨u, h1, hk, hf, -⟩ := flushDCache_spec s
    refine ⟨u, _, ⟨hk, fun _ => ⟨hf, rfl⟩, fun h => absurd hfull h⟩, ?_⟩
    rw [if_pos hfull, Prog.bind_ok h1]
    cases (dVictims s).isEmpty <;> rfl
  · refine ⟨s, true, ⟨refl s, fun h => absurd h hfull, fun _ => ⟨rfl, rfl⟩⟩, ?_⟩
    rw [if_neg hfull]
    rfl

theorem addToICache_spec {node : ℕ} {r : Except ℕ Bool} (h : addToICache node s = some (r, t)) :
    ∃ u room, Flushed (s.iCache.size = icacheCapacity) (iVictims s)
        ((iVictims s).flatMap (inodeObjects s)) s u room ∧ r = .ok room ∧
      t = if room then enteredI node u else u := by
  rw [addToICache, Prog.get_bind_run] at h
  by_cases hfull : s.iCache.size = icacheCapacity
  · rw [if_pos hfull] at h
    rcases Prog.bind_cases h with ⟨room, u, h1, h2⟩ | ⟨e, h1, -⟩
    · obtain ⟨hr, hk, hf⟩ := flushICache_spec h1
      cases hr
      refine ⟨u, _, ⟨hk, fun _ => ⟨hf, rfl⟩, fun h => absurd hfull h⟩, ?_⟩
      cases hv : (iVictims s).isEmpty <;>
        · rw [hv] at h2
          cases h2
          exact ⟨rfl, rfl⟩
    · obtain ⟨h1, -⟩ := flushICache_spec h1
      cases h1
  · rw [if_neg hfull] at h
    cases h
    exact ⟨_, true, ⟨refl _, fun h => absurd h hfull, fun _ => ⟨rfl, rfl⟩⟩, rfl, rfl⟩

end Insert

end OurOS.Fs
