import OurOS.Pc.TaskRun

namespace OurOS

open Links

/-- The task at the head of the schedule list once `current` has been moved to its end. -/
def PcSys.selected (s : PcSys) : Option ℕ := (s.rotated.tasksOn .taskScheduleList).head?

def PcSys.reserved (s : PcSys) (t : ℕ) : Bool :=
  !(s.task t).has .sigchild && (s.task t).has .sigreserve

def PcSys.unreserve (s : PcSys) (t : ℕ) : PcSys :=
  if s.reserved t then
    s.setTask t { s.task t with signals := (s.task t).signals ^^^ Signal.sigreserve.value }
  else s

/-- No waiting task is woken or terminated by the next tick, and no task of the schedule list is
terminated or suspended; `tasks` is the schedule list. -/
structure Rolling (s : PcSys) (c : ℕ) (tasks : List ℕ) : Prop where
  linked : ∃ L, TasksLinked s L ∧ L .taskExitList = []
  current : s.current = some c
  listed : s.tasksOn .taskScheduleList = tasks
  mem : c ∈ tasks
  waiters : ∀ t ∈ s.tasksOn .taskWaitList, s.flagged t = false
  signals : ∀ t ∈ tasks, (s.task t).has .sigstop = false ∧ (s.task t).has .sigwait = false

section Tick

variable {s m : PcSys} {L : TaskList → List (ListMember × ℕ)} {c t next : ℕ} {tasks rest : List ℕ}

theorem TasksLinked.rotate_queue (h : TasksLinked s L) (hq : L .taskExitList = [])
    (hx : (.nodeShedule, c) ∈ L .taskScheduleList) :
    ∃ L', TasksLinked (s.rotate c) L' ∧ L' .taskExitList = [] ∧
      L' .taskWaitList = L .taskWaitList ∧
      (s.rotate c).tasksOn .taskScheduleList = (s.tasksOn .taskScheduleList).erase c ++ [c] := by
  have hrun := (h.running c (h.lt_created hx)).mpr hx
  have hl : TasksLinked (s.rotate c)
      (relist L .taskScheduleList .taskScheduleList (.nodeShedule, c)) := by
    rw [PcSys.rotate, if_pos hrun]
    exact h.moved hx (.inr rfl) rfl rfl rfl (fun _ _ => rfl) hrun
  refine ⟨_, hl, relist_of_nil hq (by decide), relist_of_ne (by decide) (by decide), ?_⟩
  rw [hl.tasksOn_eq (by decide), h.tasksOn_eq (by decide), relist, Function.update_self,
    Function.update_self, List.map_append, List.map_singleton]
  congr 1
  conv_lhs => rw [h.nodes_eq (by decide)]
  rw [← nodes_erase, List.map_map]
  exact List.map_id _

theorem TasksLinked.next_of_head (h : TasksLinked s L)
    (ht : (s.tasksOn .taskScheduleList).head? = some next) :
    s.links.next (.inl .taskScheduleList) = .inr (.nodeShedule, next) ∧
      (s.task next).status = .running := by
  have hmem := (h.mem_tasksOn (by decide)).mp (List.mem_of_head? ht)
  refine ⟨?_, (h.running next (h.lt_created hmem)).mpr hmem⟩
  have hfirst := h.rings.first_eq (Set.mem_univ .taskScheduleList)
  rw [h.nodes_eq (by decide), List.head?_map, ← h.tasksOn_eq (by decide), ht] at hfirst
  exact Sum.getRight?_eq_some_iff.mp hfirst

theorem unreserve_task (s : PcSys) {u : ℕ} (hu : u ≠ t) : (s.unreserve t).task u = s.task u := by
  rw [PcSys.unreserve]
  split_ifs
  · exact Function.update_of_ne hu _ _
  · rfl

theorem unreserve_has (s : PcSys) (t : ℕ) (sig : Signal) : ((s.unreserve t).task t).has sig =
    ((s.task t).has sig && !(s.reserved t && decide (Signal.sigreserve = sig))) := by
  rw [PcSys.unreserve]
  split_ifs with hr
  · have hset : ((s.task t).has .sigreserve) = true := (Bool.and_eq_true_iff.mp hr).2
    rw [Task.has_xor (t := s.task t) (by simp [PcSys.setTask]) hset, hr]
    simp
  · simp [Bool.not_eq_true _ ▸ hr]

theorem unreserve_frame (s : PcSys) (t u : ℕ) : (s.unreserve t).links = s.links ∧
    (s.unreserve t).created = s.created ∧ (s.unreserve t).current = s.current ∧
    (s.unreserve t).called = s.called ∧ ((s.unreserve t).task u).status = (s.task u).status := by
  rw [PcSys.unreserve]
  split_ifs
  · refine ⟨rfl, rfl, rfl, rfl, ?_⟩
    by_cases e : u = t
    · subst e
      simp [PcSys.setTask]
    · simp [PcSys.setTask, e]
  · exact ⟨rfl, rfl, rfl, rfl, rfl⟩

theorem findRunnable_head (h : TasksLinked s L)
    (ht : (s.tasksOn .taskScheduleList).head? = some next)
    (hstop : (s.task next).has .sigstop = false) (hwait : (s.task next).has .sigwait = false)
    (fuel : ℕ) : findRunnable (fuel + 1) s = some (next,
      if s.reserved next then some (s.task next).handler else none, s.unreserve next) := by
  obtain ⟨hnext, hrun⟩ := h.next_of_head ht
  have hwake : s.wake next = s := by simp [PcSys.wake, hrun]
  rw [findRunnable, hnext, containerOf_self]
  simp only [Option.bind_eq_bind, Option.bind_some, hstop, hwait, hwake, Bool.false_eq_true,
    if_false, PcSys.unreserve, PcSys.reserved]
  by_cases hz : (s.task next).signals = 0
  · simp [hz, Task.has_of_zero hz]
  · rw [if_neg hz]
    by_cases hchild : (s.task next).has .sigchild = true
    · simp [hchild]
    by_cases hreserve : (s.task next).has .sigreserve = true
    · simp [hchild, hreserve]
    · simp [hchild, hreserve]

theorem rotate_reserved (s : PcSys) (c t : ℕ) : (s.rotate c).reserved t = s.reserved t := by
  rw [PcSys.reserved, PcSys.reserved, rotate_task]

def PcSys.ticked (s : PcSys) (c next : ℕ) : PcSys :=
  switchTo c next (if s.reserved next then some (s.task next).handler else none)
    ((s.rotate c).unreserve next)

theorem TasksLinked.tasksOn_same (h : TasksLinked s L) (hm : TasksLinked m L) {list : TaskList}
    (hl : list ≠ .taskList) : m.tasksOn list = s.tasksOn list := by
  rw [hm.tasksOn_eq hl, h.tasksOn_eq hl]

theorem switchTo_has (c t : ℕ) (f : Option (BitVec 32)) (s : PcSys) (u : ℕ) (sig : Signal) :
    ((switchTo c t f s).task u).has sig = (s.task u).has sig := by
  by_cases hne : t = c
  · rw [switchTo, if_pos hne]
  · rw [switchTo_of_ne s f hne]
    by_cases e : u = c
    · subst e
      simp [Task.has]
    · simp [Task.has, e]

theorem ticked_has (s : PcSys) (c t u : ℕ) (sig : Signal) : ((s.ticked c t).task u).has sig =
    ((s.task u).has sig && !(decide (u = t) && s.reserved t && decide (Signal.sigreserve = sig))) := by
  rw [PcSys.ticked, switchTo_has]
  by_cases e : u = t
  · subst e
    rw [unreserve_has, rotate_task, rotate_reserved]
    simp
  · rw [unreserve_task _ e, rotate_task]
    simp [e]

theorem ticked_called (s : PcSys) (c t : ℕ) : (s.ticked c t).called = s.called ++
    (if t ≠ c ∧ s.reserved t = true then [(s.task t).handler] else []) := by
  have hcalled : ((s.rotate c).unreserve t).called = s.called := by
    rw [(unreserve_frame _ t t).2.2.2.1, PcSys.rotate]
    split_ifs <;> rfl
  rw [PcSys.ticked]
  by_cases hne : t = c
  · simp [switchTo, hne, ← hcalled]
  · rw [switchTo_of_ne _ _ hne]
    by_cases hr : s.reserved t = true
    · simp [hcalled, hne, hr]
    · simp [hcalled, hr]

theorem Rolling.tick (h : Rolling s c tasks) (hn : tasks.erase c ++ [c] = next :: rest) :
    pcSchedule s = some (s.ticked c next) ∧ Rolling (s.ticked c next) next (next :: rest) := by
  obtain ⟨L, hl, hq⟩ := h.linked
  have hx := (hl.mem_tasksOn (by decide)).mp (h.listed ▸ h.mem)
  obtain ⟨L', hl', hq', hw', hlist⟩ := hl.rotate_queue hq hx
  rw [h.listed, hn] at hlist
  have hwaits : (s.rotate c).tasksOn .taskWaitList = s.tasksOn .taskWaitList := by
    rw [hl'.tasksOn_eq (by decide), hl.tasksOn_eq (by decide), hw']
  have htasks : ∀ t ∈ next :: rest, t ∈ tasks := by
    intro t ht
    rw [← hn, List.mem_append, List.mem_singleton] at ht
    rcases ht with ht | rfl
    exacts [List.mem_of_mem_erase ht, h.mem]
  have hhead : ((s.rotate c).tasksOn .taskScheduleList).head? = some next := by rw [hlist]; rfl
  obtain ⟨hstop, hwait⟩ := h.signals next (htasks next List.mem_cons_self)
  have hfind := findRunnable_head hl' hhead (by rwa [rotate_task]) (by rwa [rotate_task]) s.created
  have hpath := (hl'.rings.ring .taskWaitList (Set.mem_univ _)).2
  rw [hl'.nodes_eq (by decide), List.map_map, ← hl'.tasksOn_eq (by decide), hwaits] at hpath
  have hlen : (s.tasksOn .taskWaitList).length < s.created + 1 := by
    rw [hl.tasksOn_eq (by decide), List.length_map]
    exact Nat.lt_succ_of_le hl.length_le
  have hcalm : (s.tasksOn .taskWaitList).find? (s.rotate c).flagged = none := by
    refine List.find?_eq_none.mpr fun t ht => ?_
    rw [PcSys.flagged, rotate_task]
    simpa [PcSys.flagged] using h.waiters t ht
  have hcreated := (rotate_undisturbed s c).created
  have hscan := scanWaiters_eq hpath hlen
  rw [hcalm] at hscan
  have hmoved : TasksLinked ((s.rotate c).unreserve next) L' :=
    hl'.sameLinks (unreserve_frame _ next 0).1 (unreserve_frame _ next 0).2.1
      (unreserve_frame _ next 0).2.2.1 fun u => (unreserve_frame _ next u).2.2.2.2
  have hmem : (.nodeShedule, next) ∈ L' .taskScheduleList :=
    (hl'.mem_tasksOn (by decide)).mp (List.mem_of_head? hhead)
  have hend : TasksLinked (s.ticked c next) L' := switchTo_linked hmoved hmem
  refine ⟨?_, ⟨L', hend, hq'⟩, ?_, ?_, List.mem_cons_self, fun t ht => ?_, fun t ht => ?_⟩
  · rw [pcSchedule, clearup_eq hl hq]
    simp only [Option.bind_eq_bind, Option.bind_some, h.current, hscan, hcreated, hfind,
      rotate_reserved, rotate_task]
    rfl
  · have hcur : ((s.rotate c).unreserve next).current = some c :=
      (unreserve_frame _ next 0).2.2.1.trans ((rotate_undisturbed s c).current.trans h.current)
    exact switchTo_current hcur next _
  · rw [hl'.tasksOn_same hend (by decide), hlist]
  · rw [hl'.tasksOn_same hend (by decide), hwaits] at ht
    have hflag := h.waiters t ht
    simp only [PcSys.flagged, ticked_has, Bool.or_eq_false_iff] at hflag ⊢
    simp [hflag]
  · obtain ⟨h1, h2⟩ := h.signals t (htasks t ht)
    simp [ticked_has, h1, h2]

theorem Rolling.interrupt (h : Rolling s c tasks) (pt : RegsContext) :
    Rolling { s with ptContext := pt } c tasks := by
  obtain ⟨L, hl, hq⟩ := h.linked
  exact ⟨⟨L, hl.sameLinks rfl rfl rfl fun _ => rfl, hq⟩, h.current, h.listed, h.mem, h.waiters,
    h.signals⟩

end Tick

def tickSelects (s : PcSys) (ptContext : RegsContext) : Option (ℕ × PcSys) := do
  let s ← pcStep s (.tick ptContext)
  let next ← s.current
  return (next, s)

section Round

variable {s : PcSys} {L : TaskList → List (ListMember × ℕ)} {c next : ℕ}
  {tasks rest ahead behind : List ℕ}

theorem Rolling.select (h : Rolling s c tasks) (hn : tasks.erase c ++ [c] = next :: rest)
    (pt : RegsContext) :
    ∃ s', tickSelects s pt = some (next, s') ∧ Rolling s' next (next :: rest) := by
  obtain ⟨hrun, hroll⟩ := (h.interrupt pt).tick hn
  refine ⟨_, ?_, hroll⟩
  rw [tickSelects, pcStep, hrun]
  simp [hroll.current]

/-- The tasks `ahead` of the running one follow it in turn, and those that have run line up
behind. -/
theorem Rolling.turns (h : Rolling s c (c :: (ahead ++ behind))) (pts : List RegsContext)
    (hl : pts.length = ahead.length) : ∃ s' last others, runOutputs tickSelects s pts =
      some (ahead, s') ∧ Rolling s' last (last :: others) ∧
        others ++ [last] = behind ++ c :: ahead := by
  induction ahead generalizing s c behind pts with
  | nil =>
    obtain rfl := List.eq_nil_of_length_eq_zero hl
    exact ⟨s, c, behind, rfl, h, rfl⟩
  | cons a ahead ih =>
    obtain ⟨pt, pts, rfl⟩ := List.exists_cons_of_length_eq_add_one hl
    have hn : (c :: (a :: ahead ++ behind)).erase c ++ [c] = a :: (ahead ++ (behind ++ [c])) := by
      simp
    obtain ⟨t, ht, hroll⟩ := h.select hn pt
    obtain ⟨s', last, others, h1, h2, h3⟩ := ih hroll pts (by simpa using hl)
    refine ⟨s', last, others, ?_, h2, ?_⟩
    · simp [runOutputs, ht, h1]
    · rw [h3, List.append_assoc, List.singleton_append]

theorem Rolling.round (h : Rolling s c tasks) (pts : List RegsContext)
    (hl : pts.length = tasks.length) :
    ∃ s', runOutputs tickSelects s pts = some (tasks.erase c ++ [c], s') ∧
      Rolling s' c (c :: tasks.erase c) := by
  have hlen : (tasks.erase c ++ [c]).length = tasks.length := by
    rw [List.length_append, List.length_erase_of_mem h.mem, List.length_singleton]
    exact Nat.succ_pred_eq_of_pos (List.length_pos_of_mem h.mem)
  cases hn : tasks.erase c ++ [c] with
  | nil => simp at hn
  | cons next rest =>
    rw [hn, List.length_cons] at hlen
    obtain ⟨pt, pts, rfl⟩ := List.exists_cons_of_length_eq_add_one (hl.trans hlen.symm)
    obtain ⟨t, ht, hroll⟩ := h.select hn pt
    rw [← List.append_nil rest] at hroll
    obtain ⟨s', last, others, h1, h2, h3⟩ := hroll.turns pts (by simpa using hl.trans hlen.symm)
    rw [List.nil_append, ← hn] at h3
    obtain ⟨rfl, hlast⟩ := List.append_inj' h3 rfl
    obtain rfl := List.singleton_inj.mp hlast
    exact ⟨s', by simp [runOutputs, ht, h1], h2⟩

theorem tick_round_robin (h : TasksLinked s L)
    (hq : L .taskExitList = []) (hc : s.current = some c)
    (hmem : c ∈ s.tasksOn .taskScheduleList)
    (hw : ∀ t ∈ s.tasksOn .taskWaitList, (s.task t).has .sigstop = false ∧
      (s.task t).has .sigchild = false)
    (hs : ∀ t ∈ s.tasksOn .taskScheduleList, (s.task t).has .sigstop = false ∧
      (s.task t).has .sigwait = false)
    (pts : List RegsContext) (hl : pts.length = (s.tasksOn .taskScheduleList).length) :
    ∃ order s', order = (s.tasksOn .taskScheduleList).erase c ++ [c] ∧
      runOutputs tickSelects s pts = some (order, s') ∧
      order.Nodup ∧ order.Perm (s.tasksOn .taskScheduleList) ∧
      (s'.tasksOn .taskScheduleList).Perm (s.tasksOn .taskScheduleList) ∧
      (s'.tasksOn .taskScheduleList).head? = order.getLast? ∧ s'.current = order.getLast? := by
  have hroll : Rolling s c (s.tasksOn .taskScheduleList) := by
    refine ⟨⟨L, h, hq⟩, hc, rfl, hmem, fun t ht => ?_, hs⟩
    rw [PcSys.flagged, (hw t ht).1, (hw t ht).2, Bool.false_or]
  obtain ⟨s', hrun, hend⟩ := hroll.round pts hl
  have hperm : ((s.tasksOn .taskScheduleList).erase c ++ [c]).Perm
      (s.tasksOn .taskScheduleList) :=
    (List.perm_append_singleton c _).trans (List.perm_cons_erase hmem).symm
  have hnd : (s.tasksOn .taskScheduleList).Nodup := by
    rw [h.tasksOn_eq (by decide)]
    refine List.Nodup.map_on (fun x hx y hy e => Prod.ext ?_ e) (h.rings.nodup _)
    exact (h.shedule _ (by decide) x hx).1.trans (h.shedule _ (by decide) y hy).1.symm
  refine ⟨_, s', rfl, hrun, hperm.nodup_iff.mpr hnd, hperm, ?_, ?_, ?_⟩
  · rw [hend.listed]
    exact (List.perm_cons_erase hmem).symm
  · rw [hend.listed, List.head?_cons, List.getLast?_concat]
  · rw [hend.current, List.getLast?_concat]

theorem TasksLinked.list_nil (h : TasksLinked s L) {list : TaskList} (hl : list ≠ .taskList)
    (hn : s.tasksOn list = []) : L list = [] := by
  rwa [h.tasksOn_eq hl, List.map_eq_nil_iff] at hn

theorem pcRun_lists {memory : Links TaskNode} {idle : Task} {mm : Option ℕ} {pt : RegsContext}
    {ops : List PcOp} (hc : RunMeets pcStep PcRuns (initPc memory idle mm pt) ops)
    (hs : runOps pcStep (initPc memory idle mm pt) ops = some s) : ∃ L, TasksLinked s L := by
  obtain ⟨t, ht, hl⟩ := pcRun_linked memory idle mm pt ops hc
  obtain rfl := Option.some.inj (hs.symm.trans ht)
  exact hl

theorem turnRun_isSome : (runOps pcStep blankPc [.taskCreate someArgs, .taskCreate someArgs,
    .taskCreate someArgs, .kill 3 .sigwait, .tick .zero, .tick .zero, .tick .zero]).isSome = true := by
  decide +kernel

/-- Task 3 waits and task 0 is running, at the head of the schedule list. -/
def turnRun : PcSys := Option.get _ turnRun_isSome

theorem turnRun_eq : runOps pcStep blankPc [.taskCreate someArgs, .taskCreate someArgs,
    .taskCreate someArgs, .kill 3 .sigwait, .tick .zero, .tick .zero, .tick .zero] = some turnRun :=
  Option.some_get _ ▸ rfl

theorem tick_round_robin_three : ∃ order s', order = [1, 2, 0] ∧
    runOutputs tickSelects turnRun [.zero, .zero, .zero] = some (order, s') ∧
      (s'.tasksOn .taskScheduleList).head? = order.getLast? := by
  obtain ⟨L, h⟩ := pcRun_lists (by decide +kernel) turnRun_eq
  have hlist : turnRun.tasksOn .taskScheduleList = [0, 1, 2] := by decide +kernel
  obtain ⟨order, s', h1, h2, -, -, -, h3, -⟩ := tick_round_robin (c := 0) h
    (h.list_nil (by decide) (by decide +kernel)) (by decide +kernel) (by decide +kernel)
    (by decide +kernel) (by decide +kernel) [.zero, .zero, .zero] (by decide +kernel)
  rw [hlist] at h1
  exact ⟨order, s', h1, h2, h3⟩

end Round

section Reserve

/-- A task with `SIGRESERVE` pending that the tick selects has its handler called, once, and the bit
is cleared nowhere else. -/
structure ReserveHandled (s s' : PcSys) (next : ℕ) : Prop where
  handled : (s.task next).has .sigreserve = true →
    s'.called = s.called ++ [(s.task next).handler] ∧ (s'.task next).has .sigreserve = false
  cleared : ∀ t, (s.task t).has .sigreserve = true → (s'.task t).has .sigreserve = false →
    s'.called = s.called ++ [(s.task t).handler]

variable {s : PcSys} {L : TaskList → List (ListMember × ℕ)} {c next : ℕ}

theorem reserveHandled_iff (s : PcSys) (c next : ℕ) :
    ReserveHandled s (s.ticked c next) next ↔ ((s.task next).has .sigreserve = true →
      next ≠ c ∧ (s.task next).has .sigchild = false) := by
  constructor
  · intro h hset
    have hcall := (h.handled hset).1
    rw [ticked_called] at hcall
    split_ifs at hcall with hr
    · exact ⟨hr.1, by simpa using (Bool.and_eq_true_iff.mp hr.2).1⟩
    · simp at hcall
  · intro h
    have hcase : (s.task next).has .sigreserve = true → next ≠ c ∧ s.reserved next = true := by
      intro hset
      obtain ⟨hne, hchild⟩ := h hset
      exact ⟨hne, by rw [PcSys.reserved, hchild, hset]; rfl⟩
    refine ⟨fun hset => ⟨?_, ?_⟩, fun t hset hclear => ?_⟩
    · rw [ticked_called, if_pos (hcase hset)]
    · rw [ticked_has, (hcase hset).2]
      simp
    · rw [ticked_has, hset] at hclear
      obtain rfl : t = next := by
        by_contra hne
        simp [hne] at hclear
      rw [ticked_called, if_pos (hcase hset)]

theorem TasksLinked.current_scheduled (h : TasksLinked s L) (hw : L .taskWaitList = [])
    (hc : s.current = some c) : c ∈ s.tasksOn .taskScheduleList := by
  obtain ⟨c', hlt, hcur, hout⟩ := h.current
  obtain rfl := Option.some.inj (hc.symm.trans hcur)
  obtain ⟨list, hl, hx⟩ := h.placed c hlt
  cases list with
  | taskList => exact absurd rfl hl
  | taskWaitList =>
    rw [hw] at hx
    cases hx
  | taskExitList => exact absurd hx hout
  | taskScheduleList => exact (h.mem_tasksOn (by decide)).mpr hx

theorem tick_reserve_iff (h : TasksLinked s L) (hw : L .taskWaitList = [])
    (hq : L .taskExitList = [])
    (hs : ∀ t < s.created, (s.task t).has .sigstop = false ∧ (s.task t).has .sigwait = false)
    (pt : RegsContext) : ∃ next s', s.selected = some next ∧ pcStep s (.tick pt) = some s' ∧
      s'.current = some next ∧
      (ReserveHandled s s' next ↔ ((s.task next).has .sigreserve = true →
        s.current ≠ some next ∧ (s.task next).has .sigchild = false)) := by
  obtain ⟨c, hlt, hc, -⟩ := h.current
  have hmem := h.current_scheduled hw hc
  have hroll : Rolling s c (s.tasksOn .taskScheduleList) := by
    refine ⟨⟨L, h, hq⟩, hc, rfl, hmem, fun t ht => ?_, fun t ht => ?_⟩
    · rw [h.tasksOn_eq (by decide), hw] at ht
      cases ht
    · exact hs t (h.lt_created ((h.mem_tasksOn (by decide)).mp ht))
  obtain ⟨L', hl', -, -, hqueue⟩ := h.rotate_queue hq ((h.mem_tasksOn (by decide)).mp hmem)
  cases hn : (s.tasksOn .taskScheduleList).erase c ++ [c] with
  | nil => simp at hn
  | cons next rest =>
    obtain ⟨hrun, hend⟩ := (hroll.interrupt pt).tick hn
    refine ⟨next, _, ?_, hrun, hend.current, ?_⟩
    · rw [PcSys.selected, PcSys.rotated, hc, hqueue, hn]
      rfl
    · have hcur : next ≠ c ↔ s.current ≠ some next := by
        rw [hc, ne_eq, ne_eq, Option.some_inj, eq_comm]
      have hiff := reserveHandled_iff { s with ptContext := pt } c next
      refine Iff.trans ⟨fun h => hiff.mp ⟨h.handled, h.cleared⟩, fun h => ?_⟩
        (imp_congr_right fun _ => and_congr_left' hcur)
      exact ⟨(hiff.mpr h).handled, (hiff.mpr h).cleared⟩

theorem handlerRun_isSome : (runOps pcStep blankPc [.taskCreate someArgs,
    .sigHandler .sigreserve 0x80100400, .kill 0 .sigreserve, .tick .zero]).isSome = true := by
  decide +kernel

def handlerRun : PcSys := Option.get _ handlerRun_isSome

theorem handlerRun_eq : runOps pcStep blankPc [.taskCreate someArgs,
    .sigHandler .sigreserve 0x80100400, .kill 0 .sigreserve, .tick .zero] = some handlerRun :=
  Option.some_get _ ▸ rfl

theorem tick_reserve_handled : ∃ next s', handlerRun.selected = some next ∧
    pcStep handlerRun (.tick .zero) = some s' ∧ ReserveHandled handlerRun s' next := by
  obtain ⟨L, h⟩ := pcRun_lists (by decide +kernel) handlerRun_eq
  obtain ⟨next, s', h1, h2, -, h3⟩ := tick_reserve_iff h
    (h.list_nil (by decide) (by decide +kernel)) (h.list_nil (by decide) (by decide +kernel))
    (by decide +kernel) .zero
  have hnext : handlerRun.selected = some 0 := by decide +kernel
  obtain rfl := Option.some.inj (hnext.symm.trans h1)
  exact ⟨0, s', h1, h2, h3.mpr (by decide +kernel)⟩

theorem loneRun_isSome : (runOps pcStep blankPc
    [.sigHandler .sigreserve 0x80100400, .kill 0 .sigreserve]).isSome = true := by
  decide +kernel

def loneRun : PcSys := Option.get _ loneRun_isSome

theorem loneRun_eq : runOps pcStep blankPc
    [.sigHandler .sigreserve 0x80100400, .kill 0 .sigreserve] = some loneRun :=
  Option.some_get _ ▸ rfl

/-- The only task sends itself `SIGRESERVE`: the next tick clears the bit and calls nothing. -/
theorem tick_reserve_lost : ¬ ∀ (s : PcSys) (L : TaskList → List (ListMember × ℕ)),
    TasksLinked s L → L .taskWaitList = [] → L .taskExitList = [] →
    (∀ t < s.created, (s.task t).has .sigstop = false ∧ (s.task t).has .sigwait = false) →
    ∀ (pt : RegsContext) (next : ℕ) (s' : PcSys), s.selected = some next →
      pcStep s (.tick pt) = some s' → ReserveHandled s s' next := by
  intro hall
  obtain ⟨L, h⟩ := pcRun_lists (by decide +kernel) loneRun_eq
  obtain ⟨s', hs⟩ := Option.isSome_iff_exists.mp
    (show (pcStep loneRun (.tick .zero)).isSome by decide +kernel)
  have hhandled := hall loneRun L h (h.list_nil (by decide) (by decide +kernel))
    (h.list_nil (by decide) (by decide +kernel)) (by decide +kernel) .zero 0 s' (by decide +kernel) hs
  have hcall := (hhandled.handled (by decide +kernel)).1
  have hnone : ∀ u ∈ pcStep loneRun (.tick .zero), u.called = [] := by decide +kernel
  rw [hnone s' hs] at hcall
  exact absurd (congrArg List.length hcall) (by decide +kernel)

end Reserve

end OurOS
