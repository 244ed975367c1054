import OurOS.Pc.TaskRun

namespace OurOS

/-- The registers each task was last switched away with, at first those it was created with. -/
def recordContext (saved : ℕ → RegsContext) (s : PcSys) (op : PcOp) (s' : PcSys) :
    ℕ → RegsContext :=
  match op with
  | .taskCreate args =>
    if s'.created = s.created then saved
    else Function.update saved s.created (initialContext args (args.taskNew.getD 0))
  | .tick ptContext =>
    match s.current with
    | some c => if s'.current = some c then saved else Function.update saved c ptContext
    | none => saved
  | _ => saved

def contextStep (x : PcSys × (ℕ → RegsContext)) (op : PcOp) : Option (PcSys × (ℕ → RegsContext)) :=
  (pcStep x.1 op).map fun s' => (s', recordContext x.2 x.1 op s')

/-- No task is terminated, and at every tick a task of the schedule list has no SIGWAIT pending. -/
def Traffic (s : PcSys) : PcOp → Prop
  | .taskCreate args => args.taskNew.isSome ∧ (args.mode = .user → args.mmNew.isSome)
  | .kill pid sig => (∃ t < s.created, (s.task t).pid = pid) ∧ sig ≠ .sigstop
  | .sigHandler _ _ => True
  | .waitpid => True
  | .taskExit => False
  | .tick _ => ∃ t ∈ s.tasksOn .taskScheduleList, (s.task t).has .sigwait = false

instance (s : PcSys) : ∀ op, Decidable (Traffic s op)
  | .taskCreate args => inferInstanceAs (Decidable (_ ∧ (args.mode = .user → _)))
  | .kill pid _ => inferInstanceAs (Decidable ((∃ t < s.created, (s.task t).pid = pid) ∧ _))
  | .sigHandler _ _ => .isTrue trivial
  | .waitpid => .isTrue trivial
  | .taskExit => .isFalse id
  | .tick _ => inferInstanceAs (Decidable (∃ t ∈ s.tasksOn .taskScheduleList, _))

structure Restores (saved : ℕ → RegsContext) (pt : RegsContext) (s s' : PcSys) (c next : ℕ) :
    Prop where
  before : s.current = some c
  after : s'.current = some next
  restored : next ≠ c → s'.ptContext = saved next
  stayed : next = c → s'.ptContext = pt
  stored : next ≠ c → (s'.task c).context = pt
  others : ∀ t, t ≠ c ∨ next = c → (s'.task t).context = (s.task t).context
  space : ∀ mm, (s'.task next).mm = some mm → s'.mmCurrent = some mm

structure ContextInv (s : PcSys) (saved : ℕ → RegsContext) : Prop where
  linked : ∃ L, TasksLinked s L ∧ L .taskExitList = []
  unstopped : ∀ t < s.created, (s.task t).has .sigstop = false
  saved : ∀ t < s.created, s.current ≠ some t → (s.task t).context = saved t
  space : ∀ c, s.current = some c → ∀ mm, (s.task c).mm = some mm → s.mmCurrent = some mm

section Steps

variable {s : PcSys} {L : TaskList → List (ListMember × ℕ)} {saved : ℕ → RegsContext} {t : ℕ}
  {task : Task} {pt : RegsContext}

theorem tickRuns_of_unstopped (h : TasksLinked s L) (hq : L .taskExitList = [])
    (hn : ∀ t < s.created, (s.task t).has .sigstop = false)
    (hr : ∃ t ∈ s.tasksOn .taskScheduleList, (s.task t).has .sigwait = false) :
    s.tickRuns = true := by
  obtain ⟨c, hc, hcur, -⟩ := h.current
  obtain ⟨L1, h1, hq1, -, hsame⟩ := rotate_linked h hq hc
  obtain ⟨t, ht, hw⟩ := hr
  have hlive : ∀ list, ∀ u ∈ (L1 list).map Prod.snd, (s.task u).has .sigstop = false := by
    intro list u hu
    obtain ⟨e, he, rfl⟩ := List.mem_map.mp hu
    exact hn _ (h.lt_created ((hsame list e).mp he))
  have htask := rotate_task s c
  rw [PcSys.tickRuns, PcSys.rotated, hcur]
  dsimp only
  rw [h1.tasksOn_eq (by decide), h1.tasksOn_eq (by decide), htask]
  split
  · rename_i u hu
    simpa using hlive _ u (List.mem_of_find?_eq_some hu)
  · have hmem : t ∈ (L1 .taskScheduleList).map Prod.snd := by
      rw [h.tasksOn_eq (by decide)] at ht
      obtain ⟨e, he, rfl⟩ := List.mem_map.mp ht
      exact List.mem_map_of_mem ((hsame _ e).mpr he)
    have hsome : (((L1 .taskScheduleList).map Prod.snd).find? (s.rotate c).picked).isSome := by
      refine List.find?_isSome.mpr ⟨t, hmem, ?_⟩
      simp [PcSys.picked, htask, hw]
    obtain ⟨u, hu⟩ := Option.isSome_iff_exists.mp hsome
    rw [hu, Option.any_some]
    simpa using hlive _ u (List.mem_of_find?_eq_some hu)

variable (pt) in
theorem pcSchedule_restores (hi : ContextInv s saved)
    (hr : ∃ t ∈ s.tasksOn .taskScheduleList, (s.task t).has .sigwait = false) :
    ∃ s' c next, pcStep s (.tick pt) = some s' ∧ Restores saved pt s s' c next ∧
      ContextInv s' (recordContext saved s (.tick pt) s') := by
  obtain ⟨L, h, hq⟩ := hi.linked
  obtain ⟨c, hc, hcur, -⟩ := h.current
  have hpt : TasksLinked { s with ptContext := pt } L := h.sameLinks rfl rfl rfl fun _ => rfl
  have hruns := tickRuns_of_unstopped hpt hq hi.unstopped hr
  obtain ⟨m, next, f, L', h1, hu, h2, hq', hx⟩ := pcSchedule_linked hpt hq hcur hruns
  have hlinked := switchTo_linked (c := c) (f := f) h2 hx
  have hmcur : m.current = some c := hu.current.trans hcur
  have hmpt : m.ptContext = pt := hu.ptContext
  have hunstopped : ∀ t < m.created, (m.task t).has .sigstop = false := by
    intro t ht
    rw [← Bool.not_eq_true]
    intro hs
    have h3 := hu.signals t _ hs
    rw [hi.unstopped t (hu.created ▸ ht)] at h3
    cases h3
  refine ⟨_, c, next, h1, ?_⟩
  by_cases hne : next = c
  · rw [switchTo, if_pos hne] at hlinked ⊢
    have hspace : ∀ mm, (m.task next).mm = some mm → m.mmCurrent = some mm := by
      intro mm hmm
      rw [hu.mmCurrent]
      exact hi.space c hcur mm (by rw [← hmm, hu.mm, hne])
    refine ⟨⟨hcur, by rw [hmcur, hne], fun e => absurd hne e, fun _ => hmpt,
      fun e => absurd hne e, fun t _ => hu.context t, hspace⟩, ⟨L', hlinked, hq'⟩, hunstopped,
      fun t ht htc => ?_, fun c' hc' => ?_⟩
    · rw [recordContext, hcur]
      dsimp only
      rw [if_pos hmcur, hu.context]
      exact hi.saved t (hu.created ▸ ht) (by rwa [← hu.current])
    · obtain rfl := Option.some.inj (hc'.symm.trans hmcur)
      rwa [← hne]
  · rw [switchTo_of_ne m f hne] at hlinked ⊢
    have hnext : (m.task next).context = saved next := by
      rw [hu.context]
      refine hi.saved next (hu.created ▸ h2.lt_created hx) ?_
      rw [hcur]
      exact fun e => hne (Option.some.inj e).symm
    have hspace : ∀ mm, (m.task next).mm = some mm →
        (if (m.task next).mm.isSome then (m.task next).mm else m.mmCurrent) = some mm := by
      intro mm hmm
      rw [if_pos (by rw [hmm, Option.isSome_some]), hmm]
    refine ⟨⟨hcur, rfl, fun _ => hnext, fun e => absurd e hne, fun _ => ?_, fun t ht => ?_, ?_⟩,
      ⟨L', hlinked, hq'⟩, fun t ht => ?_, fun t ht htc => ?_, fun c' hc' => ?_⟩
    · simp [hmpt]
    · simp [ht.resolve_right hne, hu.context]
    · simpa [Function.update_of_ne hne] using hspace
    · by_cases e : t = c
      · subst e
        simpa [Task.has] using hunstopped t ht
      · simpa [e] using hunstopped t ht
    · rw [recordContext, hcur]
      dsimp only
      rw [if_neg fun e => hne (Option.some.inj e)]
      by_cases e : t = c
      · subst e
        simp [hmpt]
      · simp only [Function.update_of_ne e]
        rw [hu.context]
        refine hi.saved t (hu.created ▸ ht) ?_
        rw [hcur]
        exact fun e' => e (Option.some.inj e').symm
    · obtain rfl := Option.some.inj hc'
      simpa [Function.update_of_ne hne] using hspace

theorem ContextInv.kept {l : Links TaskNode} (hi : ContextInv s saved)
    (hl : ∃ L, TasksLinked (({ s with links := l } : PcSys).setTask t task) L ∧
      L .taskExitList = []) (hcontext : task.context = (s.task t).context)
    (hmm : task.mm = (s.task t).mm) (hstop : task.has .sigstop = (s.task t).has .sigstop) :
    ContextInv (({ s with links := l } : PcSys).setTask t task) saved := by
  have h1 : ∀ u, (Function.update s.task t task u).context = (s.task u).context ∧
      (Function.update s.task t task u).mm = (s.task u).mm ∧
        (Function.update s.task t task u).has .sigstop = (s.task u).has .sigstop := by
    intro u
    by_cases e : u = t
    · subst e
      simp [hcontext, hmm, hstop]
    · simp [e]
  refine ⟨hl, fun u hu => ?_, fun u hu hc => ?_, fun c hc mm hm => hi.space c hc mm ?_⟩
  · exact (h1 u).2.2.trans (hi.unstopped u hu)
  · exact (h1 u).1.trans (hi.saved u hu hc)
  · exact (h1 c).2.1.symm.trans hm

theorem taskCreate_context {args : CreateArgs} (hi : ContextInv s saved) (ht : args.taskNew.isSome)
    (hm : args.mode = .user → args.mmNew.isSome) : ∃ s', taskCreate args s = some s' ∧
      ContextInv s' (recordContext saved s (.taskCreate args) s') := by
  obtain ⟨taskNew, htask⟩ := Option.isSome_iff_exists.mp ht
  obtain ⟨mm, hmm⟩ := createMm_some hm
  obtain ⟨L, h, hq⟩ := hi.linked
  obtain ⟨c, hc, hcur, -⟩ := h.current
  obtain ⟨s', L', h1, h2, hq'⟩ := taskCreate_linked h hq ht hm
  refine ⟨s', h1, ?_⟩
  rw [taskCreate] at h1
  split at h1
  · obtain rfl := Option.some.inj h1
    rw [recordContext, if_pos rfl]
    exact ⟨⟨L', h2, hq'⟩, hi.unstopped, hi.saved, hi.space⟩
  · simp only [htask, hcur, hmm, Option.bind_eq_bind, Option.bind_some] at h1
    obtain rfl := Option.some.inj h1
    rw [recordContext, if_neg (Nat.succ_ne_self _), htask, Option.getD_some]
    refine ⟨⟨L', h2, hq'⟩, fun u hu => ?_, fun u hu huc => ?_, fun c' hc' => ?_⟩
    · by_cases e : u = s.created
      · subst e
        simp [PcSys.setTask, Task.has]
      · have hlt : u < s.created := by
          dsimp only at hu
          omega
        simpa [PcSys.setTask, e] using hi.unstopped u hlt
    · by_cases e : u = s.created
      · subst e
        simp [PcSys.setTask]
      · have hlt : u < s.created := by
          dsimp only at hu
          omega
        simpa [PcSys.setTask, e] using hi.saved u hlt huc
    · obtain rfl := Option.some.inj (hc'.symm.trans hcur)
      simpa [PcSys.setTask, Nat.ne_of_lt hc] using hi.space c' hcur

theorem waitpid_context (hi : ContextInv s saved) :
    ∃ s', waitpid s = some s' ∧ ContextInv s' saved := by
  obtain ⟨L, h, hq⟩ := hi.linked
  obtain ⟨c, hc, hcur, -⟩ := h.current
  obtain ⟨s', L', h1, h2, hq'⟩ := waitpid_linked h hq
  refine ⟨s', h1, ?_⟩
  simp only [waitpid, hcur, Option.bind_eq_bind, Option.bind_some] at h1
  obtain rfl := Option.some.inj h1
  exact hi.kept ⟨L', h2, hq'⟩ rfl rfl rfl

theorem contextStep_inv {x : PcSys × (ℕ → RegsContext)} {op : PcOp} (hi : ContextInv x.1 x.2)
    (hc : Traffic x.1 op) : ∃ y, contextStep x op = some y ∧ ContextInv y.1 y.2 := by
  obtain ⟨s, saved⟩ := x
  suffices h : ∃ s', pcStep s op = some s' ∧ ContextInv s' (recordContext saved s op s') by
    obtain ⟨s', h1, h2⟩ := h
    exact ⟨(s', recordContext saved s op s'), by rw [contextStep, h1, Option.map_some], h2⟩
  obtain ⟨L, h, hq⟩ := hi.linked
  cases op with
  | taskCreate args => exact taskCreate_context hi hc.1 hc.2
  | kill pid sig =>
    obtain ⟨t, -, ht⟩ := kill_eq h sig hc.1
    refine ⟨_, ht, hi.kept ⟨L, setTask_linked h rfl, hq⟩ rfl rfl ?_⟩
    rw [Task.has_or rfl, decide_eq_false hc.2, Bool.or_false]
  | sigHandler sig handler =>
    rcases sigHandler_eq h sig handler with he | ⟨t, -, ht⟩
    · exact ⟨s, he, hi⟩
    · exact ⟨_, ht, hi.kept ⟨L, setTask_linked h rfl, hq⟩ rfl rfl rfl⟩
  | waitpid => exact waitpid_context hi
  | taskExit => exact hc.elim
  | tick pt =>
    obtain ⟨s', c, next, h1, -, h2⟩ := pcSchedule_restores pt hi hc
    exact ⟨s', h1, h2⟩

end Steps

theorem initPc_context (memory : Links TaskNode) (idle : Task) (mm : Option ℕ) (pt : RegsContext) :
    ContextInv (initPc memory idle mm pt) fun _ => idle.context := by
  refine ⟨initPc_linked memory idle mm pt, fun t _ => ?_, fun _ _ _ => rfl, fun c _ mm hmm => ?_⟩
  · exact Task.has_of_zero rfl _
  · cases hmm

theorem contextRun_restores (memory : Links TaskNode) (idle : Task) (mm : Option ℕ)
    (pt₀ : RegsContext) (ops : List PcOp)
    (hc : RunMeets contextStep (fun x op => Traffic x.1 op)
      (initPc memory idle mm pt₀, fun _ => idle.context) ops) :
    ∃ s saved, runOps contextStep (initPc memory idle mm pt₀, fun _ => idle.context) ops =
      some (s, saved) ∧ ∀ pt, Traffic s (.tick pt) →
        ∃ s' c next, pcStep s (.tick pt) = some s' ∧ Restores saved pt s s' c next := by
  obtain ⟨⟨s, saved⟩, h1, hi⟩ := runOps_of_meets (fun _ _ => contextStep_inv)
    (initPc_context memory idle mm pt₀) hc
  refine ⟨s, saved, h1, fun pt hpt => ?_⟩
  obtain ⟨s', c, next, h2, h3, -⟩ := pcSchedule_restores _ hi hpt
  exact ⟨s', c, next, h2, h3⟩

def userArgs : CreateArgs := ⟨0x80100000, 3, 4, .user, some 0x80200000, some 7, 0x80008000⟩

theorem contextRun_restores_small : ∃ s saved, runOps contextStep
    (blankPc, fun _ => RegsContext.zero)
      [.taskCreate userArgs, .tick { RegsContext.zero with s0 := 5 }, .waitpid] = some (s, saved) ∧
    ∃ s' c next, pcStep s (.tick .zero) = some s' ∧ Restores saved .zero s s' c next := by
  obtain ⟨s, saved, h1, h2⟩ := contextRun_restores blankNodes blankTask none RegsContext.zero
    [.taskCreate userArgs, .tick { RegsContext.zero with s0 := 5 }, .waitpid] (by decide +kernel)
  have hrun : ∀ x ∈ runOps contextStep (blankPc, fun _ => RegsContext.zero)
      [.taskCreate userArgs, .tick { RegsContext.zero with s0 := 5 }, .waitpid],
      Traffic x.1 (.tick .zero) := by decide +kernel
  exact ⟨s, saved, h1, h2 .zero (hrun _ h1)⟩

end OurOS
