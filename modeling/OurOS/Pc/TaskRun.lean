import OurOS.Pc.TaskLists

namespace OurOS

open Links

def enlisted (L : TaskList → List (ListMember × ℕ)) (t : ℕ) : TaskList → List (ListMember × ℕ) :=
  let L := Function.update L .taskList (L .taskList ++ [(.node, t)])
  Function.update L .taskScheduleList (L .taskScheduleList ++ [(.nodeShedule, t)])

section Enlist

variable {L : TaskList → List (ListMember × ℕ)} {t : ℕ}

theorem mem_enlisted (e : ListMember × ℕ) (k : TaskList) : e ∈ enlisted L t k ↔
    e ∈ L k ∨ e = (.node, t) ∧ k = .taskList ∨ e = (.nodeShedule, t) ∧ k = .taskScheduleList := by
  rw [enlisted, Rings.mem_update_append, Rings.mem_update_append, or_assoc]

theorem enlisted_exit (hq : L .taskExitList = []) : enlisted L t .taskExitList = [] := by
  rw [enlisted, Function.update_of_ne (by decide), Function.update_of_ne (by decide), hq]

theorem enlisted_rings {l : Links TaskNode} (h : Rings Set.univ l L) (ht : ∀ m k, (m, t) ∉ L k) :
    Rings Set.univ (taskListAdd (taskListAdd l .taskList (.inr (.node, t))) .taskScheduleList
      (.inr (.nodeShedule, t))) (enlisted L t) := by
  refine (h.link_last (Set.mem_univ .taskList) (ht .node)).link_last
    (Set.mem_univ .taskScheduleList) fun k he => ?_
  rcases (Rings.mem_update_append k _).mp he with he | ⟨he, -⟩
  · exact ht .nodeShedule k he
  · simp at he

end Enlist

theorem initPc_rings (memory : Links TaskNode) (idle : Task) (mm : Option ℕ) (pt : RegsContext) :
    Rings Set.univ (initPc memory idle mm pt).links (enlisted (fun _ => []) 0) := by
  have h1 := ((Rings.none (ε := ListMember × ℕ) memory).reset_head (h := .taskList) rfl).reset_head
    (h := .taskWaitList) rfl
  have h2 := (h1.reset_head (h := .taskExitList) rfl).reset_head (h := .taskScheduleList) rfl
  have hall : (insert TaskList.taskScheduleList (insert .taskExitList
      (insert .taskWaitList (insert .taskList ∅))) : Set TaskList) = Set.univ := by
    ext x
    cases x <;> simp
  rw [hall] at h2
  exact enlisted_rings h2 (by simp)

theorem initPc_linked (memory : Links TaskNode) (idle : Task) (mm : Option ℕ)
    (pt : RegsContext) : ∃ L, TasksLinked (initPc memory idle mm pt) L ∧ L .taskExitList = [] := by
  have hmem := mem_enlisted (L := fun _ => []) (t := 0)
  refine ⟨_, ⟨initPc_rings memory idle mm pt, fun e => ?_, fun j hj e he => ?_, fun u hu => ?_,
    fun u hu => ?_, fun u hu => ?_, 0, Nat.one_pos, rfl, ?_⟩, enlisted_exit rfl⟩
  · obtain ⟨m, u⟩ := e
    simp [hmem, initPc]
  · obtain ⟨-, rfl⟩ | ⟨rfl, -⟩ := ((hmem e j).mp he).resolve_left (by simp)
    · exact absurd rfl hj
    · exact ⟨rfl, Nat.one_pos⟩
  · obtain rfl := Nat.lt_one_iff.mp hu
    exact ⟨.taskScheduleList, by decide, by simp [hmem]⟩
  · obtain rfl := Nat.lt_one_iff.mp hu
    simp [hmem, initPc]
  · simp [hmem, initPc]
  · simp [hmem]

section Steps

variable {s : PcSys} {L : TaskList → List (ListMember × ℕ)} {args : CreateArgs}

theorem createMm_some (hm : args.mode = .user → args.mmNew.isSome) : ∃ mm, args.mm = some mm := by
  rw [CreateArgs.mm]
  split
  · exact ⟨none, rfl⟩
  · obtain ⟨mm, hmm⟩ := Option.isSome_iff_exists.mp (hm ‹_›)
    exact ⟨some mm, by rw [hmm, Option.map_some]⟩

theorem taskCreate_cases {s' : PcSys} (hs : taskCreate args s = some s') :
    s' = s ∨ ∃ (task : Task) (status : PidStatus), s.current ≠ none ∧ task.status = .running ∧
      task.signals = 0 ∧
      pidBit s.pidStatus task.pid = false ∧
      (∀ pid, pidBit status pid = (pidBit s.pidStatus pid || decide (pid = task.pid))) ∧
      s' = { s.setTask s.created task with
        links := taskListAdd (taskListAdd s.links .taskList (.inr (.node, s.created)))
          .taskScheduleList (.inr (.nodeShedule, s.created))
        created := s.created + 1
        pidStatus := status } := by
  rw [taskCreate] at hs
  split at hs
  · rename_i status hp
    have hn := (pidAlloc_none (show (pidAlloc s.pidStatus).1 = none by rw [hp])).1
    rw [hp] at hn
    obtain rfl := Option.some.inj hs
    rw [show status = s.pidStatus from hn]
    exact .inl rfl
  · rename_i pid status hp
    obtain ⟨taskNew, ht, hs⟩ := Option.bind_eq_some_iff.mp hs
    obtain ⟨c, hcur, hs⟩ := Option.bind_eq_some_iff.mp hs
    obtain ⟨mm, hm, hs⟩ := Option.bind_eq_some_iff.mp hs
    obtain ⟨-, hclear, hbits⟩ := pidAlloc_some (show (pidAlloc s.pidStatus).1 = some pid by rw [hp])
    rw [hp] at hbits
    exact .inr ⟨_, status, by simp [hcur], rfl, rfl, hclear, hbits, (Option.some.inj hs).symm⟩

theorem created_linked {s' : PcSys} (h : TasksLinked s L)
    (hlinks : s'.links = taskListAdd (taskListAdd s.links .taskList (.inr (.node, s.created)))
      .taskScheduleList (.inr (.nodeShedule, s.created)))
    (hcreated : s'.created = s.created + 1) (hcurrent : s'.current = s.current)
    (hold : ∀ u ≠ s.created, (s'.task u).status = (s.task u).status)
    (hnew : (s'.task s.created).status = .running) : TasksLinked s' (enlisted L s.created) := by
  have hfresh : ∀ m k, (m, s.created) ∉ L k := fun m k he =>
    absurd (h.lt_created he) (Nat.lt_irrefl _)
  have hother : ∀ m u k, u ≠ s.created → ((m, u) ∈ enlisted L s.created k ↔ (m, u) ∈ L k) := by
    intro m u k hu
    simp [mem_enlisted, hu]
  have hself : ∀ m k, (m, s.created) ∈ enlisted L s.created k ↔
      m = .node ∧ k = .taskList ∨ m = .nodeShedule ∧ k = .taskScheduleList := by
    intro m k
    simp [mem_enlisted, hfresh]
  have hcase : ∀ u < s'.created, u = s.created ∨ u < s.created := fun u hu => by
    rw [hcreated] at hu
    exact (Nat.lt_succ_iff_lt_or_eq.mp hu).symm
  refine ⟨?_, fun ⟨m, u⟩ => ?_, fun j hj ⟨m, u⟩ he => ?_, fun u hu => ?_, fun u hu => ?_,
    fun u hu => ?_, ?_⟩
  · rw [hlinks]
    exact enlisted_rings h.rings hfresh
  · rw [hcreated]
    by_cases e : u = s.created
    · subst e
      rw [hself]
      simp
    · rw [hother m u _ e, h.all]
      exact and_congr_right fun _ => by dsimp only; omega
  · rw [hcreated]
    by_cases e : u = s.created
    · subst e
      rcases (hself m j).mp he with ⟨-, rfl⟩ | ⟨rfl, -⟩
      · exact absurd rfl hj
      · exact ⟨rfl, Nat.lt_succ_self _⟩
    · obtain ⟨h1, h2⟩ := h.shedule j hj _ ((hother m u j e).mp he)
      exact ⟨h1, Nat.lt_succ_of_lt h2⟩
  · rcases hcase u hu with rfl | hu
    · exact ⟨.taskScheduleList, by decide, by simp [hself]⟩
    · obtain ⟨j, hj, he⟩ := h.placed u hu
      exact ⟨j, hj, (hother _ u j (Nat.ne_of_lt hu)).mpr he⟩
  · rcases hcase u hu with rfl | hu
    · simp [hself, hnew]
    · rw [hother _ u _ (Nat.ne_of_lt hu), hold u (Nat.ne_of_lt hu), h.running u hu]
  · rcases hcase u hu with rfl | hu
    · simp [hself, hnew]
    · rw [hother _ u _ (Nat.ne_of_lt hu), hold u (Nat.ne_of_lt hu), h.interruptible u hu]
  · obtain ⟨c, hc, hcur, hout⟩ := h.current
    refine ⟨c, hcreated ▸ Nat.lt_succ_of_lt hc, hcurrent.trans hcur, ?_⟩
    rwa [hother _ c _ (Nat.ne_of_lt hc)]

theorem taskCreate_linked (h : TasksLinked s L) (hq : L .taskExitList = [])
    (ht : args.taskNew.isSome) (hm : args.mode = .user → args.mmNew.isSome) :
    ∃ s' L', taskCreate args s = some s' ∧ TasksLinked s' L' ∧ L' .taskExitList = [] := by
  obtain ⟨taskNew, htask⟩ := Option.isSome_iff_exists.mp ht
  obtain ⟨mm, hmm⟩ := createMm_some hm
  obtain ⟨c, hc, hcur, hout⟩ := h.current
  rw [taskCreate]
  split
  · exact ⟨_, L, rfl, h.sameLinks rfl rfl rfl fun _ => rfl, hq⟩
  · simp only [htask, hcur, hmm, Option.bind_eq_bind, Option.bind_some]
    refine ⟨_, _, rfl, created_linked h rfl rfl rfl (fun u hu => ?_) ?_, enlisted_exit hq⟩
    · exact congrArg Task.status (Function.update_of_ne hu _ _)
    · simp [PcSys.setTask]

theorem findTaskPid_live (h : TasksLinked s L) {pid : ℕ} (hp : ∃ t < s.created, (s.task t).pid = pid) :
    ∃ t < s.created, findTaskPid s .taskList pid (s.created + 1)
      (s.links.next (.inl .taskList)) = some (some t) := by
  have hpath := (h.rings.ring .taskList (Set.mem_univ _)).2
  rw [h.nodes_all, List.map_map] at hpath
  have hlen : ((L .taskList).map Prod.snd).length < s.created + 1 := by
    rw [List.length_map]
    exact Nat.lt_succ_of_le h.length_le
  obtain ⟨t, ht, hpid⟩ := hp
  have hmem : t ∈ (L .taskList).map Prod.snd :=
    List.mem_map.mpr ⟨(.node, t), (h.all _).mpr ⟨rfl, ht⟩, rfl⟩
  have hsome : (((L .taskList).map Prod.snd).find? fun t => (s.task t).pid = pid).isSome :=
    List.find?_isSome.mpr ⟨t, hmem, by simpa using hpid⟩
  obtain ⟨u, hu⟩ := Option.isSome_iff_exists.mp hsome
  obtain ⟨e, he, rfl⟩ := List.mem_map.mp (List.mem_of_find?_eq_some hu)
  exact ⟨e.2, h.lt_created he, by rw [findTaskPid_eq hpath hlen, hu]⟩

theorem setTask_linked {t : ℕ} {task : Task} (h : TasksLinked s L)
    (hst : task.status = (s.task t).status) : TasksLinked (s.setTask t task) L := by
  refine h.sameLinks rfl rfl rfl fun u => ?_
  by_cases e : u = t
  · subst e
    simpa [PcSys.setTask] using hst
  · simp [PcSys.setTask, e]

theorem kill_eq (h : TasksLinked s L) {pid : ℕ} (sig : Signal)
    (hp : ∃ t < s.created, (s.task t).pid = pid) : ∃ t < s.created, kill pid sig s =
      some (s.setTask t { s.task t with signals := (s.task t).signals ||| sig.value }) := by
  obtain ⟨t, ht, hfind⟩ := findTaskPid_live h hp
  refine ⟨t, ht, ?_⟩
  rw [kill]
  simp [hfind]

theorem sigHandler_eq (h : TasksLinked s L) (sig : Signal) (handler : BitVec 32) :
    sigHandler sig handler s = some s ∨ ∃ t < s.created, sigHandler sig handler s =
      some (s.setTask t { s.task t with handler := handler }) := by
  obtain ⟨c, hc, hcur, -⟩ := h.current
  obtain ⟨t, ht, hfind⟩ := findTaskPid_live h ⟨c, hc, rfl⟩
  simp only [sigHandler, hcur, Option.bind_eq_bind, Option.bind_some, hfind]
  split_ifs
  · exact .inr ⟨t, ht, rfl⟩
  · exact .inl rfl

theorem waitpid_linked (h : TasksLinked s L) (hq : L .taskExitList = []) :
    ∃ s' L', waitpid s = some s' ∧ TasksLinked s' L' ∧ L' .taskExitList = [] := by
  obtain ⟨c, hc, hcur, hout⟩ := h.current
  obtain ⟨j, hj, hx⟩ := h.placed c hc
  simp only [waitpid, hcur, Option.bind_eq_bind, Option.bind_some]
  refine ⟨_, _, rfl, h.moved hx (.inl rfl) rfl rfl rfl (fun u hu => ?_) ?_,
    relist_of_nil hq (by decide)⟩
  · exact congrArg Task.status (Function.update_of_ne hu _ _)
  · simp [PcSys.setTask]

end Steps

/-- The memory allocations succeed, the pids are live, no task exits and the ticks run a task. -/
def PcRuns (s : PcSys) : PcOp → Prop
  | .taskCreate args => args.taskNew.isSome ∧ (args.mode = .user → args.mmNew.isSome)
  | .kill pid _ => ∃ t < s.created, (s.task t).pid = pid
  | .sigHandler _ _ => True
  | .waitpid => True
  | .taskExit => False
  | .tick ptContext => ({ s with ptContext := ptContext } : PcSys).tickRuns = true

instance (s : PcSys) : ∀ op, Decidable (PcRuns s op)
  | .taskCreate args => inferInstanceAs (Decidable (_ ∧ (args.mode = .user → _)))
  | .kill pid _ => inferInstanceAs (Decidable (∃ t < s.created, (s.task t).pid = pid))
  | .sigHandler _ _ => .isTrue trivial
  | .waitpid => .isTrue trivial
  | .taskExit => .isFalse id
  | .tick _ => inferInstanceAs (Decidable (_ = true))

theorem pcStep_linked {s : PcSys} {op : PcOp}
    (h : ∃ L, TasksLinked s L ∧ L .taskExitList = []) (hc : PcRuns s op) :
    ∃ s', pcStep s op = some s' ∧ ∃ L, TasksLinked s' L ∧ L .taskExitList = [] := by
  obtain ⟨L, h, hq⟩ := h
  cases op with
  | taskCreate args =>
    obtain ⟨s', L', h1, h2⟩ := taskCreate_linked h hq hc.1 hc.2
    exact ⟨s', h1, L', h2⟩
  | kill pid sig =>
    obtain ⟨t, -, ht⟩ := kill_eq h sig hc
    exact ⟨_, ht, L, setTask_linked h rfl, hq⟩
  | sigHandler sig handler =>
    rcases sigHandler_eq h sig handler with he | ⟨t, -, ht⟩
    · exact ⟨s, he, L, h, hq⟩
    · exact ⟨_, ht, L, setTask_linked h rfl, hq⟩
  | waitpid =>
    obtain ⟨s', L', h1, h2⟩ := waitpid_linked h hq
    exact ⟨s', h1, L', h2⟩
  | taskExit => exact hc.elim
  | tick pt =>
    obtain ⟨c, -, hcur, -⟩ := h.current
    have hpt : TasksLinked { s with ptContext := pt } L := h.sameLinks rfl rfl rfl fun _ => rfl
    obtain ⟨m, next, f, L', h1, -, h2, hq', hx⟩ := pcSchedule_linked hpt hq hcur hc
    exact ⟨_, h1, L', switchTo_linked h2 hx, hq'⟩

theorem pcRun_linked (memory : Links TaskNode) (idle : Task) (mm : Option ℕ) (pt : RegsContext)
    (ops : List PcOp) (hc : RunMeets pcStep PcRuns (initPc memory idle mm pt) ops) :
    ∃ s, runOps pcStep (initPc memory idle mm pt) ops = some s ∧ ∃ L, TasksLinked s L := by
  obtain ⟨s, h1, L, h2, -⟩ := runOps_of_meets (fun _ _ => pcStep_linked)
    (initPc_linked memory idle mm pt) hc
  exact ⟨s, h1, L, h2⟩

theorem clearup_stuck {node : TaskNode} (hn : node ≠ .inl .taskExitList) (fuel : ℕ) (s : PcSys) :
    clearup fuel node s = none := by
  induction fuel generalizing s with
  | zero => rfl
  | succ fuel ih =>
    rw [clearup, if_neg hn]
    exact Option.bind_eq_none_iff.mpr fun _ _ => ih _

theorem pcSchedule_stuck {s : PcSys} (hn : s.links.next (.inl .taskExitList) ≠ .inl .taskExitList) :
    pcSchedule s = none := by
  rw [pcSchedule, clearup_stuck hn]
  rfl

section Fixed

def blankNodes : Links TaskNode := ⟨fun x => x, fun x => x⟩

def blankTask : Task := ⟨0, 0, .preparing, RegsContext.zero, none, 0, 0⟩

def blankPc : PcSys := initPc blankNodes blankTask none RegsContext.zero

def someArgs : CreateArgs := ⟨0x80100000, 0, 0, .kernel, some 0x80200000, none, 0x80008000⟩

theorem pcRun_linked_small : ∃ s, runOps pcStep blankPc
    [.taskCreate someArgs, .tick .zero, .waitpid, .tick .zero, .kill 1 .sigchild, .tick .zero] =
      some s ∧ ∃ L, TasksLinked s L :=
  pcRun_linked _ _ _ _ _ (by decide +kernel)

theorem TasksLinked.running_mem {s : PcSys} {L : TaskList → List (ListMember × ℕ)}
    (h : TasksLinked s L) {t : ℕ} (ht : t < s.created) (hr : (s.task t).status = .running) :
    t ∈ s.tasksOn .taskScheduleList := by
  rw [h.tasksOn_eq (by decide)]
  exact List.mem_map.mpr ⟨(.nodeShedule, t), (h.running t ht).mp hr, rfl⟩

/-- A task that exits leaves no task as `current`. A task that is stopped keeps the status RUNNING
on the exit list, where the next tick does not return. -/
theorem pcRun_not_linked :
    (∃ s, runOps pcStep blankPc [.taskCreate someArgs, .tick .zero, .taskExit] = some s ∧
      s.current = none ∧ ¬ ∃ L, TasksLinked s L) ∧
    ∃ s, runOps pcStep blankPc [.taskCreate someArgs, .kill 1 .sigstop, .tick .zero] = some s ∧
      (¬ ∃ L, TasksLinked s L) ∧ ∀ pt, pcStep s (.tick pt) = none := by
  constructor
  · obtain ⟨s, hs⟩ := Option.isSome_iff_exists.mp (show (runOps pcStep blankPc
      [.taskCreate someArgs, .tick .zero, .taskExit]).isSome by decide +kernel)
    have hcur : ∀ u ∈ runOps pcStep blankPc [.taskCreate someArgs, .tick .zero, .taskExit],
        u.current = none := by decide +kernel
    refine ⟨s, hs, hcur s hs, fun ⟨L, h⟩ => ?_⟩
    obtain ⟨c, -, hc, -⟩ := h.current
    exact absurd ((hcur s hs).symm.trans hc) (by simp)
  · obtain ⟨s, hs⟩ := Option.isSome_iff_exists.mp (show (runOps pcStep blankPc
      [.taskCreate someArgs, .kill 1 .sigstop, .tick .zero]).isSome by decide +kernel)
    have hfact : ∀ u ∈ runOps pcStep blankPc [.taskCreate someArgs, .kill 1 .sigstop, .tick .zero],
        1 < u.created ∧ (u.task 1).status = .running ∧ 1 ∉ u.tasksOn .taskScheduleList ∧
          u.links.next (.inl .taskExitList) ≠ .inl .taskExitList := by decide +kernel
    obtain ⟨h1, h2, h3, h4⟩ := hfact s hs
    refine ⟨s, hs, fun ⟨L, h⟩ => h3 (h.running_mem h1 h2), fun pt => ?_⟩
    exact pcSchedule_stuck h4

end Fixed

end OurOS
