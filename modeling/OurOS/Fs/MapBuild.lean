import OurOS.Fs.ChainRun
import OurOS.Fs.FreeSearch

namespace OurOS.Fs

/-- The clusters at which the loop of `alloc_inode_fat32` has been, in the order of its turns. -/
inductive MapVisits (env : FsEnv) (node : ℕ) (b : SuperBlock) : ℕ → FsSys → List ℕ → Prop
  | last {cluNum : ℕ} (s : FsSys) : cluNum ≠ fatItemEnd → MapVisits env node b cluNum s [cluNum]
  | next {cluNum nextClu map : ℕ} {s t u : FsSys} {cs : List ℕ} : cluNum ≠ fatItemEnd →
      kmalloc env s = some (.ok (some map), t) →
      readFat env b.infoFatSec cluNum (appendBlock node map b cluNum t) = some (.ok nextClu, u) →
      isErrValue nextClu = false → MapVisits env node b nextClu u cs →
      MapVisits env node b cluNum s (cluNum :: cs)

/-- Following the table from a cluster passes through the list and comes to the end mark. -/
def FollowsTo (fat : ℕ → ℕ) : ℕ → List ℕ → Prop
  | c, [] => c = fatItemEnd
  | c, d :: ds => c = d ∧ c ≠ fatItemEnd ∧ FollowsTo fat (fat c) ds

structure BuildsMap (env : FsEnv) (node : ℕ) (b : SuperBlock) (n start : ℕ) (s : FsSys) : Prop where
  once : ∀ cs, MapVisits env node b start s cs → cs.Nodup
  result : ∃ r t, buildDataMap env node b uintRange start s = some (r, t) ∧
    (r = .ok () → ∃ cs new, FollowsTo (fatOf b s.sd) start cs ∧ (∀ c ∈ cs, 2 ≤ c ∧ c < n) ∧
      (t.inodes node).iDataMap = (s.inodes node).iDataMap ++ new ∧
      new.map (fun m => (t.maps m).mapAddr) = cs.map (cluSec b))

def linkValue (env : FsEnv) (b : SuperBlock) (s : FsSys) (k clu : ℕ) : ℕ :=
  if env.kmallocFails (s.brk + 2 * k) then errValue errorNoMemory
  else readValue env b s.sd (s.brk + 2 * k + 1) (s.sd.accesses + k) clu

def walk (env : FsEnv) (b : SuperBlock) (s : FsSys) (start : ℕ) : ℕ → ℕ
  | 0 => start
  | k + 1 => linkValue env b s k (walk env b s start k)

/-- The first cluster is not compared with the error codes. -/
def WalkStops (env : FsEnv) (b : SuperBlock) (s : FsSys) (start k : ℕ) : Prop :=
  walk env b s start k = fatItemEnd ∨ 0 < k ∧ isErrValue (walk env b s start k)

/-- The walk comes to the end mark or to an error code before it comes to a cluster again, and to
the end mark only through clusters of the volume. -/
def WalkEnds (env : FsEnv) (b : SuperBlock) (n : ℕ) (s : FsSys) (start : ℕ) : Prop :=
  ∃ k, WalkStops env b s start k ∧ (∀ j < k, ¬ WalkStops env b s start j) ∧
    ((List.range k).map (walk env b s start)).Nodup ∧
    (walk env b s start k = fatItemEnd → ∀ j < k, 2 ≤ walk env b s start j ∧ walk env b s start j < n)

section Turn

variable {env : FsEnv} {b : SuperBlock} {node start : ℕ} {s : FsSys}

def turned (node : ℕ) (b : SuperBlock) (clu : ℕ) (s : FsSys) : FsSys :=
  accessed (grabbed (appendBlock node s.brk b clu (grabbed s))) 1

theorem walk_turned (k : ℕ) :
    walk env b (turned node b start s) (walk env b s start 1) k = walk env b s start (k + 1) := by
  induction k with
  | zero => rfl
  | succ k ih =>
    have hcall : s.brk + 1 + 1 + 2 * k = s.brk + 2 * (k + 1) := by omega
    have haccess : s.sd.accesses + 1 + k = s.sd.accesses + (k + 1) := by omega
    rw [walk, ih]
    change (if env.kmallocFails (s.brk + 1 + 1 + 2 * k) then errValue errorNoMemory
      else readValue env b s.sd (s.brk + 1 + 1 + 2 * k + 1) (s.sd.accesses + 1 + k) _) = _
    rw [hcall, haccess]
    rfl

variable (node) in
theorem walkStops_turned (herr : isErrValue (walk env b s start 1) = false) (k : ℕ) :
    WalkStops env b (turned node b start s) (walk env b s start 1) k ↔
      WalkStops env b s start (k + 1) := by
  rw [WalkStops, WalkStops, walk_turned]
  cases k with
  | zero => simp [herr]
  | succ k => simp

theorem not_stops_turned {k : ℕ} (h : ∀ j < k + 1, ¬ WalkStops env b s start j)
    (herr : isErrValue (walk env b s start 1) = false) :
    ∀ j < k, ¬ WalkStops env b (turned node b start s) (walk env b s start 1) j := by
  intro j hj
  rw [walkStops_turned _ herr]
  exact h (j + 1) (by omega)

variable (node) in
theorem turn_error (herr : isErrValue (walk env b s start 1)) (hstart : start ≠ fatItemEnd)
    (fuel : ℕ) : (∃ e t, buildDataMap env node b (fuel + 1) start s = some (.error e, t)) ∧
      ∀ cs, MapVisits env node b start s cs → cs = [start] := by
  have hval : walk env b s start 1 = linkValue env b s 0 start := rfl
  rw [hval, linkValue] at herr
  by_cases h1 : env.kmallocFails s.brk
  · have hrun := kmalloc_null h1
    refine ⟨⟨errorNoMemory, { s with brk := s.brk + 1 }, ?_⟩, fun cs hcs => ?_⟩
    · rw [buildDataMap, if_neg hstart, Prog.bind_ok hrun]
      rfl
    · cases hcs with
      | last => rfl
      | next _ hk => simp [hrun] at hk
  · have hrun := kmalloc_grabs (Bool.not_eq_true _ ▸ h1)
    rw [if_neg (by simpa using h1)] at herr
    obtain ⟨t, hread, -⟩ := readFat_value env b (appendBlock node s.brk b start (grabbed s)) start
    refine ⟨⟨uintRange - readValue env b s.sd (s.brk + 1) s.sd.accesses start, t, ?_⟩,
      fun cs hcs => ?_⟩
    · rw [buildDataMap, if_neg hstart, Prog.bind_ok hrun]
      dsimp only
      rw [Prog.modify_bind_run, Prog.bind_ok hread]
      exact congrFun (if_pos herr) t
    · cases hcs with
      | last => rfl
      | next _ hk hr he _ =>
        obtain ⟨rfl, rfl⟩ : s.brk = _ ∧ grabbed s = _ := by simpa using hrun.symm.trans hk
        obtain ⟨rfl, rfl⟩ : _ = _ ∧ t = _ := by simpa using hread.symm.trans hr
        exact absurd (herr.symm.trans he) (by decide)

variable (node) in
theorem turn_ok (herr : isErrValue (walk env b s start 1) = false) :
    kmalloc env s = some (.ok (some s.brk), grabbed s) ∧
      readFat env b.infoFatSec start (appendBlock node s.brk b start (grabbed s)) =
        some (.ok (walk env b s start 1), turned node b start s) ∧
      walk env b s start 1 = fatOf b s.sd start := by
  have hval : walk env b s start 1 = linkValue env b s 0 start := rfl
  rw [hval, linkValue] at herr ⊢
  by_cases h1 : env.kmallocFails s.brk
  · rw [if_pos (by simpa using h1)] at herr
    exact absurd herr (by decide)
  · rw [if_neg (by simpa using h1)] at herr ⊢
    obtain ⟨t, hread, hnext⟩ :=
      readFat_value env b (appendBlock node s.brk b start (grabbed s)) start
    obtain rfl := hnext herr
    exact ⟨kmalloc_grabs (Bool.not_eq_true _ ▸ h1), hread, readValue_eq herr⟩

theorem buildDataMap_turn (herr : isErrValue (walk env b s start 1) = false)
    (hstart : start ≠ fatItemEnd) (fuel : ℕ) : buildDataMap env node b (fuel + 1) start s =
      buildDataMap env node b fuel (walk env b s start 1) (turned node b start s) := by
  obtain ⟨hrun, hread, -⟩ := turn_ok node herr
  rw [buildDataMap, if_neg hstart, Prog.bind_ok hrun]
  dsimp only
  rw [Prog.modify_bind_run, Prog.bind_ok hread, if_neg (by simp [herr])]

variable (node) in
theorem range_walk (k : ℕ) : (List.range (k + 1)).map (walk env b s start) =
    start :: (List.range k).map
      (walk env b (turned node b start s) (walk env b s start 1)) := by
  rw [List.range_succ_eq_map, List.map_cons, List.map_map]
  exact congrArg _ (List.map_congr_left fun j _ => (walk_turned j).symm)

end Turn

section Walk

variable {env : FsEnv} {b : SuperBlock} {node start n : ℕ} {s : FsSys}

theorem FollowsTo.unique {fat : ℕ → ℕ} {c : ℕ} {l l' : List ℕ} (h : FollowsTo fat c l)
    (h' : FollowsTo fat c l') : l = l' := by
  induction l generalizing c l' with
  | nil =>
    cases l' with
    | nil => rfl
    | cons d' ds' => exact absurd h h'.2.1
  | cons d ds ih =>
    cases l' with
    | nil => exact absurd h' h.2.1
    | cons d' ds' => rw [← h.1, ← h'.1, ih h.2.2 h'.2.2]

theorem walk_err {k : ℕ} (h : ¬ WalkStops env b s start (k + 1)) :
    isErrValue (walk env b s start (k + 1)) = false := by
  simpa using (not_or.mp h).2

theorem mapVisits_walk {k : ℕ} (h : ∀ j ≤ k, ¬ WalkStops env b s start j) :
    MapVisits env node b start s ((List.range (k + 1)).map (walk env b s start)) := by
  have hstart : start ≠ fatItemEnd := (not_or.mp (h 0 (Nat.zero_le k))).1
  induction k generalizing start s with
  | zero => exact .last s hstart
  | succ k ih =>
    have herr := walk_err (h 1 (by omega))
    obtain ⟨hrun, hread, -⟩ := turn_ok node herr
    rw [range_walk node]
    refine .next hstart hrun hread herr (ih (fun j hj => ?_) (not_or.mp (h 1 (by omega))).1)
    rw [walkStops_turned _ herr]
    exact h (j + 1) (by omega)

theorem MapVisits.walked {cs : List ℕ} (h : MapVisits env node b start s cs) :
    ∃ k, cs = (List.range (k + 1)).map (walk env b s start) ∧
      ∀ j ≤ k, ¬ WalkStops env b s start j := by
  have hzero : ∀ {c : ℕ} {u : FsSys}, c ≠ fatItemEnd → ∀ j ≤ 0, ¬ WalkStops env b u c j := by
    intro c u hc j hj
    obtain rfl := Nat.le_zero.mp hj
    exact not_or.mpr ⟨hc, fun h => absurd h.1 (lt_irrefl 0)⟩
  induction h with
  | last s hc => exact ⟨0, rfl, hzero hc⟩
  | @next c v m s t u cs hc hk hr he hrest ih =>
    cases herr : isErrValue (walk env b s c 1) with
    | true =>
      have hone := (turn_error node herr hc 0).2 _ (.next hc hk hr he hrest)
      obtain rfl : cs = [] := by simpa using hone
      cases hrest
    | false =>
      obtain ⟨hrun, hread, -⟩ := turn_ok node herr
      obtain ⟨rfl, rfl⟩ : s.brk = m ∧ grabbed s = t := by simpa using hrun.symm.trans hk
      obtain ⟨rfl, rfl⟩ : walk env b s c 1 = v ∧ turned node b c s = u := by
        simpa using hread.symm.trans hr
      obtain ⟨k, rfl, hbefore⟩ := ih
      refine ⟨k + 1, (range_walk _ (k + 1)).symm, fun j hj => ?_⟩
      cases j with
      | zero => exact hzero hc 0 le_rfl
      | succ j =>
        rw [← walkStops_turned node herr]
        exact hbefore j (by omega)

theorem followsTo_walk {k : ℕ} (h : ∀ j < k, ¬ WalkStops env b s start j)
    (hend : walk env b s start k = fatItemEnd) :
    FollowsTo (fatOf b s.sd) start ((List.range k).map (walk env b s start)) := by
  induction k generalizing start s with
  | zero => exact hend
  | succ k ih =>
    have herr : isErrValue (walk env b s start 1) = false := by
      cases k with
      | zero =>
        rw [hend]
        decide
      | succ k => exact walk_err (h 1 (by omega))
    obtain ⟨-, -, hval⟩ := turn_ok 0 herr
    rw [range_walk 0]
    refine ⟨rfl, (not_or.mp (h 0 (Nat.succ_pos k))).1, ?_⟩
    rw [← hval]
    exact ih (not_stops_turned h herr) ((walk_turned k).trans hend)

variable (node) in
theorem buildDataMap_stops {k fuel : ℕ} (hk : WalkStops env b s start k)
    (h : ∀ j < k, ¬ WalkStops env b s start j) (hf : k < fuel) :
    ∃ r t, buildDataMap env node b fuel start s = some (r, t) ∧
      (walk env b s start k = fatItemEnd → r = .ok ()) ∧
      (r = .ok () → walk env b s start k = fatItemEnd ∧
        (∀ m < s.brk, t.maps m = s.maps m) ∧
        ∃ new, (t.inodes node).iDataMap = (s.inodes node).iDataMap ++ new ∧
          new.map (fun m => (t.maps m).mapAddr) =
            ((List.range k).map (walk env b s start)).map (cluSec b)) := by
  induction k generalizing start s fuel with
  | zero =>
    obtain ⟨fuel, rfl⟩ := Nat.exists_eq_succ_of_ne_zero (Nat.ne_of_gt hf)
    have hend : start = fatItemEnd := hk.resolve_right fun h => absurd h.1 (lt_irrefl 0)
    refine ⟨.ok (), s, ?_, fun _ => rfl, fun _ => ⟨hend, fun _ _ => rfl, [], by simp, by simp⟩⟩
    rw [buildDataMap, if_pos hend]
    rfl
  | succ k ih =>
    obtain ⟨fuel, rfl⟩ := Nat.exists_eq_succ_of_ne_zero (Nat.ne_of_gt (Nat.zero_lt_of_lt hf))
    have hstart : start ≠ fatItemEnd := (not_or.mp (h 0 (Nat.succ_pos k))).1
    cases herr : isErrValue (walk env b s start 1) with
    | true =>
      obtain ⟨⟨e, t, hrun⟩, -⟩ := turn_error node herr hstart fuel
      refine ⟨_, t, hrun, fun hend => ?_, fun hr => by cases hr⟩
      cases k with
      | zero =>
        rw [hend] at herr
        exact absurd herr (by decide)
      | succ k => exact absurd (.inr ⟨Nat.one_pos, herr⟩) (h 1 (by omega))
    | false =>
      obtain ⟨r, t, hrun, hends, hok⟩ := ih ((walkStops_turned node herr k).mpr hk)
        (not_stops_turned h herr) (Nat.lt_of_succ_lt_succ hf)
      refine ⟨r, t, (buildDataMap_turn herr hstart fuel).trans hrun,
        fun hend => hends ((walk_turned k).trans hend), fun hr => ?_⟩
      obtain ⟨hend, hold, new, hnew, haddr⟩ := hok hr
      have hbrk : (turned node b start s).brk = s.brk + 2 := rfl
      have hmap : ∀ m, (turned node b start s).maps m =
          if m = s.brk then newMap b start else s.maps m := by
        intro m
        change Function.update s.maps s.brk (newMap b start) m = _
        rw [Function.update_apply]
      refine ⟨(walk_turned k).symm.trans hend, fun m hm => ?_, s.brk :: new, ?_, ?_⟩
      · rw [hold m (by omega), hmap, if_neg (by omega)]
      · rw [hnew]
        simp [turned, accessed, grabbed, appendBlock, FsSys.setInode, FsSys.setMap]
      · rw [List.map_cons, haddr, hold _ (by omega), hmap, if_pos rfl, range_walk node]
        rfl

theorem walk_lt {k j : ℕ} (hstart : start < uintRange) (h : ∀ j < k, ¬ WalkStops env b s start j)
    (hj : j < k) : walk env b s start j < uintRange := by
  cases j with
  | zero => exact hstart
  | succ j =>
    have herr := walk_err (h (j + 1) hj)
    rw [isErrValue, decide_eq_false_iff_not] at herr
    rw [uintRange] at herr ⊢
    omega

theorem walk_length {k : ℕ} (hstart : start < uintRange)
    (h : ∀ j < k, ¬ WalkStops env b s start j)
    (hnd : ((List.range k).map (walk env b s start)).Nodup) : k < uintRange := by
  have hout : fatItemEnd ∉ (List.range k).map (walk env b s start) := by
    intro hm
    obtain ⟨j, hj, e⟩ := List.mem_map.mp hm
    exact h j (List.mem_range.mp hj) (.inl e)
  have hsub : (fatItemEnd :: (List.range k).map (walk env b s start)) ⊆ List.range uintRange := by
    intro c hc
    rcases List.mem_cons.mp hc with rfl | hc
    · exact List.mem_range.mpr (by decide)
    · obtain ⟨j, hj, rfl⟩ := List.mem_map.mp hc
      exact List.mem_range.mpr (walk_lt hstart h (List.mem_range.mp hj))
  have hlen := ((List.nodup_cons.mpr ⟨hout, hnd⟩).subperm hsub).length_le
  rw [List.length_cons, List.length_map, List.length_range, List.length_range] at hlen
  omega

theorem walk_stops_of_once (hstart : start < uintRange)
    (h : ∀ cs, MapVisits env node b start s cs → cs.Nodup) :
    ∃ k, WalkStops env b s start k ∧ ∀ j < k, ¬ WalkStops env b s start j := by
  classical
  by_cases hex : ∃ k, WalkStops env b s start k
  · exact ⟨Nat.find hex, Nat.find_spec hex, fun j hj => Nat.find_min hex hj⟩
  · have hnever : ∀ j, ¬ WalkStops env b s start j := fun j hj => hex ⟨j, hj⟩
    have hnd := h _ (mapVisits_walk (k := uintRange) fun j _ => hnever j)
    have hlen := walk_length hstart (fun j _ => hnever j) hnd
    omega

theorem buildDataMap_builds_iff (hstart : start < uintRange) :
    BuildsMap env node b n start s ↔ WalkEnds env b n s start := by
  constructor
  · intro h
    obtain ⟨k, hk, hbefore⟩ := walk_stops_of_once hstart h.once
    have hnd : ((List.range k).map (walk env b s start)).Nodup := by
      cases k with
      | zero => exact List.nodup_nil
      | succ k => exact h.once _ (mapVisits_walk fun j hj => hbefore j (Nat.lt_succ_of_le hj))
    refine ⟨k, hk, hbefore, hnd, fun hend j hj => ?_⟩
    obtain ⟨r, t, hrun, hok⟩ := h.result
    obtain ⟨r', t', hrun', hends, -⟩ :=
      buildDataMap_stops node hk hbefore (walk_length hstart hbefore hnd)
    obtain ⟨rfl, rfl⟩ : r = r' ∧ t = t' := by simpa using hrun.symm.trans hrun'
    obtain ⟨cs, -, hcs, hin, -⟩ := hok (hends hend)
    obtain rfl := hcs.unique (followsTo_walk hbefore hend)
    exact hin _ (List.mem_map_of_mem (List.mem_range.mpr hj))
  · rintro ⟨k, hk, hbefore, hnd, hin⟩
    refine ⟨fun cs hcs => ?_, ?_⟩
    · obtain ⟨j, rfl, hj⟩ := hcs.walked
      have hjk : j < k := by
        by_contra hle
        exact hj k (by omega) hk
      exact hnd.sublist ((List.range_sublist.mpr hjk).map _)
    · obtain ⟨r, t, hrun, -, hok⟩ :=
        buildDataMap_stops node hk hbefore (walk_length hstart hbefore hnd)
      refine ⟨r, t, hrun, fun hr => ?_⟩
      obtain ⟨hend, -, new, hnew, haddr⟩ := hok hr
      refine ⟨_, new, followsTo_walk hbefore hend, fun c hc => ?_, hnew, haddr⟩
      obtain ⟨j, hj, rfl⟩ := List.mem_map.mp hc
      exact hin hend j (List.mem_range.mp hj)

end Walk

theorem buildDataMap_builds_small :
    BuildsMap soundEnv 5 eightSectors 8 2 (smallVolume linkedTable 6) :=
  (buildDataMap_builds_iff (by decide)).mpr ⟨3, .inl (by decide +kernel), by
    have h : ∀ j < 3, ¬ (walk soundEnv eightSectors (smallVolume linkedTable 6) 2 j = fatItemEnd ∨
        0 < j ∧ isErrValue (walk soundEnv eightSectors (smallVolume linkedTable 6) 2 j)) := by
      decide +kernel
    exact h, by decide +kernel, by decide +kernel⟩

/-- The clusters 2 and 3 follow each other. -/
def cyclicTable : List ℕ := [0x0FFFFFF8, 0x0FFFFFFF, 3, 2, 0, 0, 0, 0]

theorem buildDataMap_not_builds :
    ¬ BuildsMap soundEnv 5 eightSectors 8 2 (smallVolume cyclicTable 3) := by
  intro h
  have hon : ∀ j ≤ 2, ¬ (walk soundEnv eightSectors (smallVolume cyclicTable 3) 2 j = fatItemEnd ∨
      0 < j ∧ isErrValue (walk soundEnv eightSectors (smallVolume cyclicTable 3) 2 j)) := by
    decide +kernel
  exact absurd (h.once _ (mapVisits_walk hon)) (by decide +kernel)

end OurOS.Fs
