import OurOS.Pc.TaskRun

namespace OurOS

open Links

def Follows (l : Links TaskNode) : TaskNode → List ℕ → TaskNode → Prop
  | a, [], b => l.next a = b
  | a, t :: ts, b => l.next a = .inr (.node, t) ∧ Follows l (.inr (.node, t)) ts b

/-- A task that has neither called `task_exit` nor been terminated by a signal. -/
def PcSys.live (s : PcSys) (t : ℕ) : Prop :=
  t < s.created ∧ (s.task t).status ≠ .zombie ∧ t ∉ s.tasksOn .taskExitList

instance (s : PcSys) (t : ℕ) : Decidable (s.live t) := inferInstanceAs (Decidable (_ ∧ _ ∧ _))

def PcSys.addSignal (s : PcSys) (t : ℕ) (sig : Signal) : PcSys :=
  s.setTask t { s.task t with signals := (s.task t).signals ||| sig.value }

/-- The call returns, and the signal reaches the live task with that pid and nothing else. -/
def KillDelivers (s : PcSys) (pid : ℕ) (sig : Signal) : Prop :=
  ∃ s', kill pid sig s = some s' ∧
    (∀ t, s.live t → (s.task t).pid = pid → s' = s.addSignal t sig) ∧
    ((∀ t, s.live t → (s.task t).pid ≠ pid) → s' = s)

/-- The walk of the task list from its head meets the tasks `0` to `n - 1`, and then the head again
or, where task `n - 1` has called `task_exit`, the head of the exit list. -/
structure Roll (s : PcSys) (n : ℕ) (last : TaskNode) : Prop where
  walk : Follows s.links (.inl .taskList) (List.range n) last
  le : n ≤ s.created
  ends : last = .inl .taskList ∧ n = s.created ∧ (∀ t < s.created, (s.task t).status ≠ .zombie) ∨
    last = .inl .taskExitList ∧
      ∃ c, n = c + 1 ∧ (s.task c).status = .zombie ∧ ∀ t < c, (s.task t).status ≠ .zombie
  waiters : containerOf .node (s.links.next (.inl .taskWaitList)) = none
  pids : ∀ t < s.created, ∀ u < s.created, (s.task t).pid = (s.task u).pid → t = u

section Walk

variable {l : Links TaskNode} {a b : TaskNode} {s : PcSys} {ts us : List ℕ} {t : ℕ}

theorem follows_append : Follows l a (ts ++ t :: us) b ↔
    Follows l a ts (.inr (.node, t)) ∧ Follows l (.inr (.node, t)) us b := by
  induction ts generalizing a with
  | nil => rfl
  | cons u ts ih => simp only [List.cons_append, Follows, ih, and_assoc]

theorem follows_of_path (h : Path l a (ts.map fun t => .inr (.node, t)) b) : Follows l a ts b := by
  induction ts generalizing a with
  | nil => exact h.1
  | cons t ts ih => exact ⟨h.1.1, ih h.2⟩

theorem Follows.congr {m : Links TaskNode} (h : Follows l a ts b) (ha : m.next a = l.next a)
    (hn : ∀ t ∈ ts, m.next (.inr (.node, t)) = l.next (.inr (.node, t))) : Follows m a ts b := by
  induction ts generalizing a with
  | nil => exact ha.trans h
  | cons t ts ih =>
    exact ⟨ha.trans h.1, ih h.2 (hn t List.mem_cons_self) fun u hu =>
      hn u (List.mem_cons_of_mem _ hu)⟩

theorem findTaskPid_follows (list : TaskList) (pid : ℕ) (h : Follows s.links a ts b) (fuel : ℕ) :
    findTaskPid s list pid (ts.length + fuel) (s.links.next a) =
      match ts.find? fun t => (s.task t).pid = pid with
      | some t => some (some t)
      | none => findTaskPid s list pid fuel b := by
  induction ts generalizing a with
  | nil => rw [List.find?_nil, List.length_nil, Nat.zero_add, h]
  | cons t ts ih =>
    rw [h.1, List.length_cons, Nat.succ_add, findTaskPid, if_neg (by simp), containerOf_self,
      List.find?_cons]
    dsimp only [Option.bind_eq_bind, Option.bind_some]
    by_cases e : (s.task t).pid = pid
    · simp [e]
    · simpa [e] using ih h.2

theorem kill_follows {n pid : ℕ} {last : TaskNode}
    (h : Follows s.links (.inl .taskList) (List.range n) last) (hn : n ≤ s.created)
    (hlast : last = .inl .taskList ∨ last = .inl .taskExitList)
    (hw : containerOf .node (s.links.next (.inl .taskWaitList)) = none) (sig : Signal) :
    kill pid sig s =
      ((List.range n).find? fun t => (s.task t).pid = pid).map (s.addSignal · sig) := by
  obtain ⟨fuel, hfuel⟩ := Nat.exists_eq_add_of_le hn
  have hwalk := findTaskPid_follows .taskList pid h (fuel + 1)
  rw [List.length_range, ← Nat.add_assoc, ← hfuel] at hwalk
  rw [kill, hwalk]
  cases (List.range n).find? fun t => (s.task t).pid = pid with
  | some t => rfl
  | none =>
    rcases hlast with rfl | rfl
    · dsimp only
      rw [findTaskPid, if_pos rfl]
      dsimp only [Option.bind_eq_bind, Option.bind_some]
      rw [findTaskPid, hw]
      split_ifs <;> rfl
    · rfl

theorem Roll.kill_eq {n pid : ℕ} {last : TaskNode} (h : Roll s n last) (sig : Signal) :
    kill pid sig s =
      ((List.range n).find? fun t => (s.task t).pid = pid).map (s.addSignal · sig) :=
  kill_follows h.walk h.le (h.ends.imp And.left And.left) h.waiters sig

end Walk

section Signals

variable {s : PcSys} {n pid t : ℕ} {last : TaskNode} {sig : Signal}

theorem has_iff_or_eq (task : Task) (sig : Signal) :
    task.has sig = true ↔ task.signals ||| sig.value = task.signals := by
  constructor
  · intro h
    rw [Task.has_eq] at h
    refine BitVec.eq_of_getLsbD_eq fun i hi => ?_
    rw [BitVec.getLsbD_or, Signal.value_eq, BitVec.getLsbD_twoPow]
    by_cases e : i = sig.bit
    · rw [e, h, Bool.true_or]
    · simp [hi, Ne.symm e]
  · intro h
    have hor : task.has sig = (task.has sig || decide (sig = sig)) := Task.has_or h.symm
    rwa [decide_eq_true rfl, Bool.or_true] at hor

theorem addSignal_eq_self : s.addSignal t sig = s ↔ (s.task t).has sig = true := by
  rw [has_iff_or_eq]
  constructor
  · intro h
    have htask := congrArg (fun u : PcSys => (u.task t).signals) h
    simpa [PcSys.addSignal, PcSys.setTask] using htask
  · intro h
    rw [PcSys.addSignal, h, PcSys.setTask]
    exact congrArg (fun task => ({ s with task := task } : PcSys)) (Function.update_eq_self t s.task)

theorem Roll.alive (h : Roll s n last) (ht : t < n) : ∀ u < t, (s.task u).status ≠ .zombie := by
  intro u hu
  rcases h.ends with ⟨-, rfl, halive⟩ | ⟨-, c, rfl, -, halive⟩
  · exact halive u (hu.trans ht)
  · exact halive u (by omega)

theorem Roll.found (h : Roll s n last) (ht : t < s.created)
    (hz : ∀ u < t, (s.task u).status ≠ .zombie) :
    (List.range n).find? (fun u => (s.task u).pid = (s.task t).pid) = some t := by
  have hn : t < n := by
    by_contra hge
    rcases h.ends with ⟨-, rfl, -⟩ | ⟨-, c, rfl, hzombie, -⟩
    · exact hge ht
    · exact hz c (by omega) hzombie
  have hsome : ((List.range n).find? fun u => (s.task u).pid = (s.task t).pid).isSome :=
    List.find?_isSome.mpr ⟨t, List.mem_range.mpr hn, by simp⟩
  obtain ⟨u, hu⟩ := Option.isSome_iff_exists.mp hsome
  have hlt := (List.mem_range.mp (List.mem_of_find?_eq_some hu)).trans_le h.le
  rw [hu, h.pids u hlt t ht (by simpa using List.find?_some hu)]

theorem Roll.delivers_iff (h : Roll s n last) (pid : ℕ) (sig : Signal) :
    KillDelivers s pid sig ↔ ∃ t < s.created, (s.task t).pid = pid ∧
      (∀ u < t, (s.task u).status ≠ .zombie) ∧ (s.live t ∨ (s.task t).has sig = true) := by
  constructor
  · rintro ⟨s', hrun, hlive, hnone⟩
    rw [h.kill_eq] at hrun
    obtain ⟨t, ht, rfl⟩ := Option.map_eq_some_iff.mp hrun
    have hn := List.mem_range.mp (List.mem_of_find?_eq_some ht)
    have hpid : (s.task t).pid = pid := by simpa using List.find?_some ht
    have hlt := hn.trans_le h.le
    refine ⟨t, hlt, hpid, h.alive hn, or_iff_not_imp_left.mpr fun hdead => ?_⟩
    refine addSignal_eq_self.mp (hnone fun u hu hp => hdead ?_)
    rwa [← h.pids u hu.1 t hlt (hp.trans hpid.symm)]
  · rintro ⟨t, ht, rfl, hz, hor⟩
    refine ⟨s.addSignal t sig, ?_, fun u hu hp => ?_, fun hnone => ?_⟩
    · rw [h.kill_eq, h.found ht hz]
      rfl
    · rw [h.pids u hu.1 t ht hp]
    · exact addSignal_eq_self.mpr (hor.resolve_left fun hlive => hnone t hlive rfl)

end Signals

/-- Every task is on the task list, the oldest first, and through `node_shedule` on one of the other
lists. -/
structure Enrolled (s : PcSys) (L : TaskList → List (ListMember × ℕ)) : Prop where
  rings : Rings Set.univ s.links L
  all : L .taskList = (List.range s.created).map fun t => (.node, t)
  shedule : ∀ list ≠ .taskList, ∀ e ∈ L list, e.1 = .nodeShedule ∧ e.2 < s.created
  placed : ∀ t < s.created, ∃ list, (.nodeShedule, t) ∈ L list
  current : ∃ c < s.created, s.current = some c
  alive : ∀ t < s.created, (s.task t).status ≠ .zombie
  pids : ∀ t < s.created, ∀ u < s.created, (s.task t).pid = (s.task u).pid → t = u
  marked : ∀ t < s.created, pidBit s.pidStatus (s.task t).pid = true

structure SameRoll (s s' : PcSys) : Prop where
  created : s'.created = s.created
  pid : ∀ t, (s'.task t).pid = (s.task t).pid
  zombie : ∀ t, (s'.task t).status = .zombie → (s.task t).status = .zombie
  marks : ∀ pid, pidBit s.pidStatus pid = true → pidBit s'.pidStatus pid = true

theorem sameRoll_setTask {s s' : PcSys} {t : ℕ} {task : Task} (h : s'.task = Function.update s.task t task)
    (hcreated : s'.created = s.created) (hpid : task.pid = (s.task t).pid)
    (hstatus : task.status = .zombie → (s.task t).status = .zombie)
    (hmarks : ∀ pid, pidBit s.pidStatus pid = true → pidBit s'.pidStatus pid = true) :
    SameRoll s s' := by
  refine ⟨hcreated, fun u => ?_, fun u hu => ?_, hmarks⟩
  · rw [h]
    by_cases e : u = t
    · subst e
      rw [Function.update_self, hpid]
    · rw [Function.update_of_ne e]
  · rw [h] at hu
    by_cases e : u = t
    · subst e
      rw [Function.update_self] at hu
      exact hstatus hu
    · rwa [Function.update_of_ne e] at hu

namespace Enrolled

variable {s s' : PcSys} {L : TaskList → List (ListMember × ℕ)} {t c : ℕ} {list k : TaskList}

theorem roll (h : Enrolled s L) : Roll s s.created (.inl .taskList) := by
  have hpath := (h.rings.ring .taskList (Set.mem_univ _)).2
  rw [h.all, List.map_map] at hpath
  refine ⟨follows_of_path hpath, le_rfl, .inl ⟨rfl, rfl, h.alive⟩, ?_, h.pids⟩
  have hfirst := h.rings.first_eq (Set.mem_univ .taskWaitList)
  cases hn : s.links.next (.inl .taskWaitList) with
  | inl => rfl
  | inr e =>
    rw [hn] at hfirst
    obtain ⟨m, u⟩ := e
    obtain ⟨rfl, -⟩ := h.shedule _ (by decide) _ (List.mem_of_head? hfirst.symm)
    rfl

theorem sameLinks (h : Enrolled s L) (hs : SameRoll s s') (hlinks : s'.links = s.links)
    (hcurrent : ∃ c < s.created, s'.current = some c) : Enrolled s' L where
  rings := by rw [hlinks]; exact h.rings
  all := by rw [hs.created]; exact h.all
  shedule := by rw [hs.created]; exact h.shedule
  placed := by rw [hs.created]; exact h.placed
  current := by rw [hs.created]; exact hcurrent
  alive t ht := fun hz => h.alive t (hs.created ▸ ht) (hs.zombie t hz)
  pids t ht u hu e := h.pids t (hs.created ▸ ht) u (hs.created ▸ hu) (by rwa [hs.pid, hs.pid] at e)
  marked t ht := by rw [hs.pid]; exact hs.marks _ (h.marked t (hs.created ▸ ht))

theorem not_taskList (h : Enrolled s L) (hx : (.nodeShedule, t) ∈ L list) : list ≠ .taskList := by
  rintro rfl
  rw [h.all] at hx
  obtain ⟨u, -, hu⟩ := List.mem_map.mp hx
  cases hu

theorem moved (h : Enrolled s L) (ht : t < s.created) (hk : k ≠ .taskList) (hs : SameRoll s s')
    (hlinks : s'.links = (s.move t k).links) (hcurrent : s'.current = s.current) :
    ∃ L', Enrolled s' L' := by
  obtain ⟨list, hx⟩ := h.placed t ht
  have hl := h.not_taskList hx
  have hmem (j : TaskList) (y : ListMember × ℕ) :
      y ∈ relist L list k (.nodeShedule, t) j ↔ _ := h.rings.mem_relist hx j y
  refine ⟨relist L list k (.nodeShedule, t), ?_, ?_, fun j hj e he => ?_, fun u hu => ?_, ?_,
    fun u hu hz => h.alive u (hs.created ▸ hu) (hs.zombie u hz), fun u hu v hv e => ?_,
    fun u hu => ?_⟩
  · rw [hlinks]
    exact h.rings.unlink_link_last hx (Set.mem_univ _)
  · rw [relist_of_ne hl.symm hk.symm, hs.created, h.all]
  · rw [hs.created]
    rcases (hmem j e).mp he with ⟨-, he⟩ | ⟨rfl, -⟩
    · exact h.shedule j hj e he
    · exact ⟨rfl, ht⟩
  · by_cases e : u = t
    · exact ⟨k, (hmem k _).mpr (.inr ⟨by rw [e], rfl⟩)⟩
    · obtain ⟨j, hj⟩ := h.placed u (hs.created ▸ hu)
      exact ⟨j, (hmem j _).mpr (.inl ⟨by simpa using e, hj⟩)⟩
  · rw [hs.created, hcurrent]
    exact h.current
  · rw [hs.pid, hs.pid] at e
    exact h.pids u (hs.created ▸ hu) v (hs.created ▸ hv) e
  · rw [hs.pid]
    exact hs.marks _ (h.marked u (hs.created ▸ hu))

theorem setTask_same (h : Enrolled s L) {task : Task} (hpid : task.pid = (s.task t).pid)
    (hstatus : task.status = (s.task t).status) : Enrolled (s.setTask t task) L :=
  h.sameLinks (sameRoll_setTask rfl rfl hpid (hstatus ▸ id) fun _ h => h) rfl h.current

theorem rotate (h : Enrolled s L) (hc : c < s.created) : ∃ L', Enrolled (s.rotate c) L' := by
  rw [PcSys.rotate]
  split_ifs
  · exact h.moved hc (by decide) ⟨rfl, fun _ => rfl, fun _ h => h, fun _ h => h⟩ rfl rfl
  · exact ⟨L, h⟩

theorem stop (h : Enrolled s L) (ht : t < s.created) : ∃ L', Enrolled (s.stop t) L' := by
  refine h.moved ht (by decide) (sameRoll_setTask rfl rfl rfl id fun pid hp => ?_) rfl rfl
  change pidBit (pidDelete _ s.pidStatus) pid = true
  rw [pidBit_delete, hp, Bool.true_or]

theorem wait (h : Enrolled s L) (ht : t < s.created) : ∃ L', Enrolled (s.wait t) L' :=
  h.moved ht (by decide) (sameRoll_setTask rfl rfl rfl (by simp) fun _ hp => hp) rfl rfl

theorem wake (h : Enrolled s L) (ht : t < s.created) : ∃ L', Enrolled (s.wake t) L' := by
  rw [PcSys.wake]
  split_ifs
  · exact h.moved ht (by decide) (sameRoll_setTask rfl rfl rfl (by simp) fun _ hp => hp) rfl rfl
  · exact ⟨L, h⟩

theorem wake_created (s : PcSys) (t : ℕ) : (s.wake t).created = s.created := by
  rw [PcSys.wake]
  split_ifs <;> rfl

theorem next_shedule (h : Enrolled s L) (hl : list ≠ .taskList) {x : TaskNode}
    (hx : x ∈ (.inl list :: (L list).map .inr : List TaskNode))
    (ht : containerOf .nodeShedule x = some t) : t < s.created := by
  rcases List.mem_cons.mp hx with rfl | hx
  · cases ht
  · obtain ⟨e, he, rfl⟩ := List.mem_map.mp hx
    obtain ⟨hm, hlt⟩ := h.shedule list hl e he
    obtain ⟨m, u⟩ := e
    obtain rfl : m = .nodeShedule := hm
    rw [containerOf_self] at ht
    exact Option.some.inj ht ▸ hlt

theorem scanWaiters (h : Enrolled s L) {fuel : ℕ} {it : TaskNode}
    (hit : it ∈ (.inl .taskWaitList :: (L .taskWaitList).map .inr : List TaskNode))
    {finded : Option ℕ} (hs : scanWaiters fuel it s = some (finded, s')) :
    (∃ L', Enrolled s' L') ∧ ∀ t ∈ finded, t < s'.created := by
  induction fuel generalizing it with
  | zero => cases hs
  | succ fuel ih =>
    rw [OurOS.scanWaiters] at hs
    split_ifs at hs with hend
    · obtain ⟨rfl, rfl⟩ := Prod.mk.inj (Option.some.inj hs)
      exact ⟨⟨L, h⟩, by simp⟩
    · obtain ⟨next, hnext, hs⟩ := Option.bind_eq_some_iff.mp hs
      have hlt := h.next_shedule (by decide) hit hnext
      have hstep := ring_next_mem (h.rings.ring .taskWaitList (Set.mem_univ _)) hit
      split_ifs at hs
      · exact ih hstep hs
      · obtain ⟨rfl, rfl⟩ := Prod.mk.inj (Option.some.inj hs)
        exact ⟨h.stop hlt, by simp⟩
      · obtain ⟨rfl, rfl⟩ := Prod.mk.inj (Option.some.inj hs)
        refine ⟨h.wake hlt, fun t ht => ?_⟩
        rw [wake_created, ← Option.some.inj ht]
        exact hlt
      · exact ih hstep hs

theorem findRunnable {fuel next : ℕ} {f : Option (BitVec 32)} (h : ∃ L, Enrolled s L)
    (hs : findRunnable fuel s = some (next, f, s')) : (∃ L', Enrolled s' L') ∧ next < s'.created := by
  induction fuel generalizing s with
  | zero => cases hs
  | succ fuel ih =>
    obtain ⟨L, h⟩ := h
    rw [OurOS.findRunnable] at hs
    obtain ⟨x, hx, hs⟩ := Option.bind_eq_some_iff.mp hs
    have hlist : TaskList.taskScheduleList ≠ .taskList := by decide
    have hlt := h.next_shedule hlist
      (ring_next_mem (h.rings.ring _ (Set.mem_univ _)) List.mem_cons_self) hx
    dsimp only at hs
    split_ifs at hs
    · cases hs
      exact ⟨⟨L, h⟩, hlt⟩
    · exact ih (h.stop hlt) hs
    · exact ih (h.wait hlt) hs
    · cases hs
      exact ⟨h.wake hlt, by rwa [wake_created]⟩
    · cases hs
      exact ⟨⟨L, h.setTask_same rfl rfl⟩, hlt⟩
    · cases hs
      exact ⟨⟨L, h⟩, hlt⟩

theorem switchTo (h : Enrolled s L) {next : ℕ} (hlt : next < s.created) (f : Option (BitVec 32)) :
    Enrolled (switchTo c next f s) L := by
  by_cases hne : next = c
  · rwa [OurOS.switchTo, if_pos hne]
  · rw [switchTo_of_ne s f hne]
    exact h.sameLinks (sameRoll_setTask rfl rfl rfl id fun _ hp => hp) rfl ⟨next, hlt, rfl⟩

theorem tick (h : Enrolled s L) (hs : pcSchedule s = some s') : ∃ L', Enrolled s' L' := by
  obtain ⟨c, hc, hcur⟩ := h.current
  rw [pcSchedule] at hs
  obtain ⟨s1, h1, hrest⟩ := Option.bind_eq_some_iff.mp hs
  obtain rfl : s1 = s := by
    by_cases hn : s.links.next (.inl .taskExitList) = .inl .taskExitList
    · rw [hn, clearup, if_pos rfl] at h1
      exact (Option.some.inj h1).symm
    · rw [clearup_stuck hn] at h1
      cases h1
  rw [hcur] at hrest
  obtain ⟨L1, hr⟩ := h.rotate hc
  simp only [Option.bind_eq_bind, Option.bind_some] at hrest
  obtain ⟨⟨finded, s2⟩, hscan, hrest⟩ := Option.bind_eq_some_iff.mp hrest
  obtain ⟨⟨L2, h2⟩, hfind⟩ := hr.scanWaiters
    (ring_next_mem (hr.rings.ring _ (Set.mem_univ _)) List.mem_cons_self) hscan
  dsimp only at hrest
  cases finded with
  | some t =>
    obtain rfl := Option.some.inj hrest
    exact ⟨L2, h2.switchTo (hfind t rfl) none⟩
  | none =>
    obtain ⟨⟨next, f, s3⟩, hrun, hrest⟩ := Option.bind_eq_some_iff.mp hrest
    obtain ⟨⟨L3, h3⟩, hlt⟩ := findRunnable ⟨L2, h2⟩ hrun
    obtain rfl := Option.some.inj hrest
    exact ⟨L3, h3.switchTo hlt f⟩

theorem init (memory : Links TaskNode) (idle : Task) (mm : Option ℕ) (pt : RegsContext) :
    ∃ L, Enrolled (initPc memory idle mm pt) L := by
  have hmem := @mem_enlisted (fun _ => []) 0
  refine ⟨_, initPc_rings memory idle mm pt, rfl, fun j hj e he => ?_, fun u hu => ?_,
    ⟨0, Nat.one_pos, rfl⟩, fun _ _ => by simp [initPc], fun u hu v hv _ => ?_, fun u hu => ?_⟩
  · obtain ⟨-, rfl⟩ | ⟨rfl, -⟩ := ((hmem e j).mp he).resolve_left (by simp)
    · exact absurd rfl hj
    · exact ⟨rfl, Nat.one_pos⟩
  · obtain rfl := Nat.lt_one_iff.mp hu
    exact ⟨.taskScheduleList, by simp [hmem]⟩
  · rw [Nat.lt_one_iff.mp hu, Nat.lt_one_iff.mp hv]
  · simp [initPc]
    decide

theorem taskCreate (h : Enrolled s L) {args : CreateArgs} (hs : taskCreate args s = some s') :
    ∃ L', Enrolled s' L' := by
  rcases taskCreate_cases hs with rfl | ⟨task, status, -, hrun, -, hclear, hbits, rfl⟩
  · exact ⟨L, h⟩
  · have hnew : ∀ u < s.created, (s.task u).pid ≠ task.pid := by
      intro u hu e
      have hset := h.marked u hu
      rw [e, hclear] at hset
      cases hset
    have hcase : ∀ u < s.created + 1, u ≠ s.created → u < s.created := fun u h1 h2 => by omega
    have hfresh : ∀ m k, (m, s.created) ∉ L k := by
      intro m k he
      by_cases hk : k = .taskList
      · rw [hk, h.all] at he
        obtain ⟨u, hu, e⟩ := List.mem_map.mp he
        exact absurd (List.mem_range.mp hu) (by rw [(Prod.mk.inj e).2]; exact lt_irrefl _)
      · exact absurd (h.shedule k hk _ he).2 (lt_irrefl _)
    refine ⟨_, enlisted_rings h.rings hfresh, ?_, fun j hj e he => ?_, fun u hu => ?_, ?_,
      fun u hu => ?_, fun u hu v hv e => ?_, fun u hu => ?_⟩
    · rw [enlisted, Function.update_of_ne (by decide), Function.update_self, h.all, List.range_succ,
        List.map_append]
      rfl
    · rcases (mem_enlisted e j).mp he with he | ⟨-, rfl⟩ | ⟨rfl, -⟩
      · exact (h.shedule j hj e he).imp_right Nat.lt_succ_of_lt
      · exact absurd rfl hj
      · exact ⟨rfl, Nat.lt_succ_self _⟩
    · by_cases e : u = s.created
      · exact ⟨.taskScheduleList, (mem_enlisted _ _).mpr (.inr (.inr ⟨by rw [e], rfl⟩))⟩
      · obtain ⟨j, hj⟩ := h.placed u (hcase u hu e)
        exact ⟨j, (mem_enlisted _ _).mpr (.inl hj)⟩
    · obtain ⟨c, hc, hcur⟩ := h.current
      exact ⟨c, Nat.lt_succ_of_lt hc, hcur⟩
    · change ((s.setTask s.created task).task u).status ≠ .zombie
      rw [setTask_task]
      split_ifs with e
      · rw [hrun]
        decide
      · exact h.alive u (hcase u hu e)
    · change ((s.setTask s.created task).task u).pid = ((s.setTask s.created task).task v).pid at e
      rw [setTask_task, setTask_task] at e
      split_ifs at e with e1 e2 e2
      · rw [e1, e2]
      · exact absurd e.symm (hnew v (hcase v hv e2))
      · exact absurd e (hnew u (hcase u hu e1))
      · exact h.pids u (hcase u hu e1) v (hcase v hv e2) e
    · change pidBit status ((s.setTask s.created task).task u).pid = true
      rw [setTask_task]
      split_ifs with e
      · rw [hbits, decide_eq_true rfl, Bool.or_true]
      · rw [hbits, h.marked u (hcase u hu e), Bool.true_or]

theorem kill (h : Enrolled s L) {pid : ℕ} {sig : Signal} (hs : kill pid sig s = some s') :
    Enrolled s' L := by
  rw [h.roll.kill_eq] at hs
  obtain ⟨t, -, rfl⟩ := Option.map_eq_some_iff.mp hs
  exact h.setTask_same rfl rfl

theorem sigHandler (h : Enrolled s L) {sig : Signal} {handler : BitVec 32}
    (hs : sigHandler sig handler s = some s') : Enrolled s' L := by
  obtain ⟨c, hc, hs⟩ := Option.bind_eq_some_iff.mp hs
  obtain ⟨r, hr, hs⟩ := Option.bind_eq_some_iff.mp hs
  split_ifs at hs
  · obtain ⟨t, ht, hs⟩ := Option.bind_eq_some_iff.mp hs
    obtain rfl := Option.some.inj hs
    exact h.setTask_same rfl rfl
  · obtain rfl := Option.some.inj hs
    exact h

theorem waitpid (h : Enrolled s L) (hs : waitpid s = some s') : ∃ L', Enrolled s' L' := by
  obtain ⟨c, hc, hcur⟩ := h.current
  simp only [OurOS.waitpid, hcur, Option.bind_eq_bind, Option.bind_some] at hs
  obtain rfl := Option.some.inj hs
  exact h.moved hc (by decide) (sameRoll_setTask rfl rfl rfl (by simp) fun _ hp => hp) rfl rfl

end Enrolled

/-- `task_exit` leaves no task as `current`, and the exit list is never empty again. -/
structure Halted (s : PcSys) (n : ℕ) : Prop where
  roll : Roll s n (.inl .taskExitList)
  current : s.current = none
  exits : s.links.next (.inl .taskExitList) ≠ .inl .taskExitList

section Exit

variable {s s' : PcSys} {L : TaskList → List (ListMember × ℕ)} {n pid : ℕ} {last : TaskNode}
  {sig : Signal}

theorem addSignal_frame (s : PcSys) (t : ℕ) (sig : Signal) (u : ℕ) :
    ((s.addSignal t sig).task u).pid = (s.task u).pid ∧
      ((s.addSignal t sig).task u).status = (s.task u).status := by
  rw [PcSys.addSignal, setTask_task]
  split_ifs with e
  · rw [e]
    exact ⟨rfl, rfl⟩
  · exact ⟨rfl, rfl⟩

theorem Roll.addSignal (h : Roll s n last) (t : ℕ) (sig : Signal) :
    Roll (s.addSignal t sig) n last := by
  refine ⟨h.walk, h.le, ?_, h.waiters, fun u hu v hv e => ?_⟩
  · simp only [addSignal_frame]
    exact h.ends
  · rw [(addSignal_frame s t sig u).1, (addSignal_frame s t sig v).1] at e
    exact h.pids u hu v hv e

theorem Halted.kill (h : Halted s n) (hs : kill pid sig s = some s') : Halted s' n := by
  rw [h.roll.kill_eq] at hs
  obtain ⟨t, -, rfl⟩ := Option.map_eq_some_iff.mp hs
  exact ⟨h.roll.addSignal t sig, h.current, h.exits⟩

theorem Halted.step (h : Halted s n) {op : PcOp} (hs : pcStep s op = some s') : Halted s' n := by
  cases op with
  | taskCreate args =>
    rcases taskCreate_cases hs with rfl | ⟨-, -, hcur, -⟩
    · exact h
    · exact absurd h.current hcur
  | kill pid sig => exact h.kill hs
  | sigHandler sig handler => simp [pcStep, sigHandler, h.current] at hs
  | waitpid => simp [pcStep, waitpid, h.current] at hs
  | taskExit => simp [pcStep, taskExit, h.current] at hs
  | tick pt =>
    have hexits : ({ s with ptContext := pt } : PcSys).links.next (.inl .taskExitList) ≠
        .inl .taskExitList := h.exits
    cases (pcSchedule_stuck hexits).symm.trans hs

theorem Enrolled.exitLinks (h : Enrolled s L) {c : ℕ} (hc : c < s.created) :
    let l := taskListAdd (taskListDelete s.links (.inr (.nodeShedule, c))) .taskExitList
      (.inr (.node, c))
    Follows l (.inl .taskList) (List.range (c + 1)) (.inl .taskExitList) ∧
      containerOf .node (l.next (.inl .taskWaitList)) = none ∧
      containerOf .node (l.next (.inl .taskScheduleList)) = none ∧
      l.next (.inl .taskExitList) ≠ .inl .taskExitList := by
  intro l
  obtain ⟨list, hx⟩ := h.placed c hc
  have hl := h.not_taskList hx
  set m := taskListDelete s.links (.inr (.nodeShedule, c))
  obtain ⟨L1, hL1, hr⟩ : ∃ L1, L1 = _ ∧ Rings Set.univ m L1 := ⟨_, rfl, h.rings.unlink hx⟩
  have hall : L1 .taskList = (List.range s.created).map fun t => (.node, t) := by
    rw [hL1, Function.update_of_ne hl.symm, h.all]
  have hshedule : ∀ k ≠ .taskList, ∀ e ∈ L1 k, e.1 = .nodeShedule := by
    intro k hk e he
    rw [hL1] at he
    exact (h.shedule k hk e (Rings.mem_of_mem_erase he)).1
  have hnode : ∀ k ≠ .taskList, ∀ x ∈ (.inl k :: (L1 k).map .inr : List TaskNode),
      x = .inl k ∨ ∃ t, x = .inr (.nodeShedule, t) := by
    intro k hk x hx
    rcases List.mem_cons.mp hx with rfl | hx
    · exact .inl rfl
    · obtain ⟨⟨mem, t⟩, he, rfl⟩ := List.mem_map.mp hx
      obtain rfl : mem = .nodeShedule := hshedule k hk _ he
      exact .inr ⟨t, rfl⟩
  have hnext : ∀ k ≠ .taskList, containerOf .node (m.next (.inl k)) = none := by
    intro k hk
    rcases hnode k hk _ (ring_next_mem (hr.ring k (Set.mem_univ _)) List.mem_cons_self) with e | ⟨t, e⟩
    · rw [e]
      rfl
    · rw [e]
      rfl
  have hprev := ring_prev_mem (hr.ring .taskExitList (Set.mem_univ _)) List.mem_cons_self
  have hp := hnode _ (by decide) _ hprev
  have hother : ∀ x, x ≠ .inr (.node, c) → x ≠ m.prev (.inl .taskExitList) → l.next x = m.next x :=
    fun x h1 h2 => (Function.update_of_ne h2 _ _).trans (Function.update_of_ne h1 _ _)
  have hkeep : ∀ x, x ≠ .inr (.node, c) → x ≠ .inl .taskExitList →
      (∀ t, x ≠ .inr (.nodeShedule, t)) → l.next x = m.next x := by
    intro x h1 h2 h3
    refine hother x h1 fun e => ?_
    rcases hp with e' | ⟨t, e'⟩
    · exact h2 (e.trans e')
    · exact h3 t (e.trans e')
  have hlast : l.next (.inr (.node, c)) = .inl .taskExitList := by
    refine (Function.update_of_ne ?_ _ _).trans (Function.update_self ..)
    rcases hp with e | ⟨t, e⟩
    · rw [e]
      simp
    · rw [e]
      simp
  refine ⟨?_, ?_, ?_, ?_⟩
  · have hpath := (hr.ring .taskList (Set.mem_univ _)).2
    rw [hall, List.map_map] at hpath
    have hwalk : Follows m (.inl .taskList) (List.range s.created) (.inl .taskList) :=
      follows_of_path hpath
    obtain ⟨k, hk⟩ := Nat.exists_eq_add_of_le (Nat.succ_le_of_lt hc)
    rw [hk, List.range_add, List.range_succ, List.append_assoc, List.singleton_append,
      follows_append] at hwalk
    rw [List.range_succ, follows_append]
    refine ⟨hwalk.1.congr (hkeep _ (by simp) (by simp) (by simp)) fun t ht => ?_, hlast⟩
    have hne : t ≠ c := Nat.ne_of_lt (List.mem_range.mp ht)
    exact hkeep _ (by simpa using hne) (by simp) (by simp)
  · rw [hkeep _ (by simp) (by simp) (by simp)]
    exact hnext _ (by decide)
  · rw [hkeep _ (by simp) (by simp) (by simp)]
    exact hnext _ (by decide)
  · intro hself
    rcases hp with e | ⟨t, e⟩
    · have hnew : l.next (.inl .taskExitList) = .inr (.node, c) := by
        rw [← e]
        exact Function.update_self ..
      rw [hnew] at hself
      cases hself
    · rw [hother _ (by simp) (by rw [e]; simp)] at hself
      have hempty := (hr.next_eq_self (Set.mem_univ .taskExitList)).mp hself
      rw [hempty, List.map_nil, e] at hprev
      simp at hprev

theorem Enrolled.taskExit (h : Enrolled s L) (hs : taskExit s = some s') : ∃ n, Halted s' n := by
  obtain ⟨c, hc, hcur⟩ := h.current
  simp only [OurOS.taskExit, hcur, Option.bind_eq_bind, Option.bind_some] at hs
  set z : Task := { s.task c with status := .zombie }
  obtain ⟨s2, hwake, hs⟩ := Option.bind_eq_some_iff.mp hs
  obtain ⟨c', hc', hkill⟩ := Option.bind_eq_some_iff.mp hwake
  rw [kill_follows (s := s.setTask c z) h.roll.walk h.roll.le (.inl rfl) h.roll.waiters] at hkill
  obtain ⟨t, -, rfl⟩ := Option.map_eq_some_iff.mp hkill
  obtain ⟨hwalk, hw, hnext, hexit⟩ := h.exitLinks hc
  obtain rfl := Option.some.inj hs
  have hframe := addSignal_frame (s.setTask c z) t .sigchild
  have hpid : ∀ u, (((s.setTask c z).addSignal t .sigchild).task u).pid = (s.task u).pid := by
    intro u
    rw [(hframe u).1, setTask_task]
    split_ifs with e
    · rw [e]
    · rfl
  have hstatus : ∀ u, (((s.setTask c z).addSignal t .sigchild).task u).status =
      if u = c then .zombie else (s.task u).status := by
    intro u
    rw [(hframe u).2, setTask_task]
    exact apply_ite Task.status _ _ _
  refine ⟨c + 1, ⟨hwalk, hc, .inr ⟨rfl, c, rfl, ?_, fun u hu => ?_⟩, hw, fun u hu v hv e => ?_⟩,
    hnext, hexit⟩
  · exact (hstatus c).trans (if_pos rfl)
  · rw [show _ = _ from hstatus u, if_neg (Nat.ne_of_lt hu)]
    exact h.alive u (hu.trans hc)
  · exact h.pids u hu v hv ((hpid u).symm.trans (Eq.trans e (hpid v)))

theorem Enrolled.step (h : Enrolled s L) {op : PcOp} (hs : pcStep s op = some s') :
    (∃ L', Enrolled s' L') ∨ ∃ n, Halted s' n := by
  cases op with
  | taskCreate args => exact .inl (h.taskCreate hs)
  | kill pid sig => exact .inl ⟨L, h.kill hs⟩
  | sigHandler sig handler => exact .inl ⟨L, h.sigHandler hs⟩
  | waitpid => exact .inl (h.waitpid hs)
  | taskExit => exact .inr (h.taskExit hs)
  | tick pt =>
    have hpt : Enrolled { s with ptContext := pt } L :=
      h.sameLinks ⟨rfl, fun _ => rfl, fun _ h => h, fun _ h => h⟩ rfl h.current
    exact .inl (hpt.tick hs)

theorem pcRun_roll {memory : Links TaskNode} {idle : Task} {mm : Option ℕ} {pt : RegsContext}
    {ops : List PcOp} (hs : runOps pcStep (initPc memory idle mm pt) ops = some s) :
    ∃ n last, Roll s n last := by
  have hinv : (∃ L, Enrolled s L) ∨ ∃ n, Halted s n := by
    refine runOps_invariant (P := fun s => (∃ L, Enrolled s L) ∨ ∃ n, Halted s n) ?_
      (.inl (Enrolled.init memory idle mm pt)) hs
    rintro s op t (⟨L, h⟩ | ⟨n, h⟩) ht
    · exact h.step ht
    · exact .inr ⟨n, h.step ht⟩
  rcases hinv with ⟨L, h⟩ | ⟨n, h⟩
  · exact ⟨_, _, h.roll⟩
  · exact ⟨_, _, h.roll⟩

theorem kill_delivers_iff {memory : Links TaskNode} {idle : Task} {mm : Option ℕ}
    {pt : RegsContext} {ops : List PcOp}
    (hs : runOps pcStep (initPc memory idle mm pt) ops = some s) (pid : ℕ) (sig : Signal) :
    KillDelivers s pid sig ↔ ∃ t < s.created, (s.task t).pid = pid ∧
      (∀ u < t, (s.task u).status ≠ .zombie) ∧ (s.live t ∨ (s.task t).has sig = true) := by
  obtain ⟨n, last, h⟩ := pcRun_roll hs
  exact h.delivers_iff pid sig

theorem exitRun_isSome : (runOps pcStep blankPc [.taskCreate someArgs, .taskCreate someArgs,
    .tick .zero, .taskExit]).isSome = true := by
  decide +kernel

/-- Task 1 has exited; tasks 0 and 2 are live. -/
def exitRun : PcSys := Option.get _ exitRun_isSome

theorem exitRun_eq : runOps pcStep blankPc [.taskCreate someArgs, .taskCreate someArgs,
    .tick .zero, .taskExit] = some exitRun :=
  Option.some_get _ ▸ rfl

theorem kill_delivers_exitRun : KillDelivers exitRun 0 .sigwait :=
  (kill_delivers_iff exitRun_eq 0 .sigwait).mpr (by decide +kernel)

/-- The live task 2 stands behind a task that has exited, and no task has pid 7. -/
theorem kill_not_delivered :
    ¬ (∀ (memory : Links TaskNode) (idle : Task) (mm : Option ℕ) (pt : RegsContext)
      (ops : List PcOp) (s : PcSys), runOps pcStep (initPc memory idle mm pt) ops = some s →
        ∀ pid sig, KillDelivers s pid sig) ∧
      (exitRun.live 2 ∧ (exitRun.task 2).pid = 2 ∧ kill 2 .sigwait exitRun = none) ∧
      kill 7 .sigwait blankPc = none := by
  have hlost : kill 2 .sigwait exitRun = none := Option.isNone_iff_eq_none.mp (by decide +kernel)
  have hnone : kill 7 .sigwait blankPc = none := Option.isNone_iff_eq_none.mp (by decide +kernel)
  refine ⟨fun hall => ?_, ⟨by decide +kernel, by decide +kernel, hlost⟩, hnone⟩
  obtain ⟨s', hs, -⟩ := hall _ _ _ _ [] blankPc rfl 7 .sigwait
  cases hnone.symm.trans hs

end Exit

end OurOS
