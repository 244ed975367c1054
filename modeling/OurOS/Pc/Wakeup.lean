import OurOS.Pc.TaskRun

namespace OurOS

open Links

/-- The tasks in `waitpid`, in the order they called it, and the tasks that were sent a SIGCHILD
which has not ended a wait. -/
structure WaitBook where
  waiting : List ℕ
  owed : ℕ → Bool

namespace WaitBook

def wait (b : WaitBook) (t : ℕ) : WaitBook := { b with waiting := b.waiting.erase t ++ [t] }

def send (b : WaitBook) (tasks : ℕ → Bool) : WaitBook :=
  { b with owed := fun t => b.owed t || tasks t }

@[simp] theorem send_owed (b : WaitBook) (tasks : ℕ → Bool) (t : ℕ) :
    (b.send tasks).owed t = (b.owed t || tasks t) := rfl

def first (b : WaitBook) : Option ℕ := b.waiting.find? b.owed

def tick (b : WaitBook) : WaitBook :=
  match b.first with
  | some t => ⟨b.waiting.erase t, Function.update b.owed t false⟩
  | none => b

end WaitBook

structure WaitRun where
  sys : PcSys
  book : WaitBook

def hasPid (s : PcSys) (pid t : ℕ) : Bool := t < s.created && (s.task t).pid == pid

def recordWait (s : PcSys) (b : WaitBook) : PcOp → WaitBook
  | .waitpid => (s.current.map b.wait).getD b
  | .kill pid .sigchild => b.send (hasPid s pid)
  | .tick _ => b.tick
  | _ => b

def waitStep (r : WaitRun) (op : PcOp) : Option WaitRun :=
  (pcStep r.sys op).map fun s => ⟨s, recordWait r.sys r.book op⟩

def ChildOnly : PcOp → Prop
  | .taskCreate _ => True
  | .kill _ sig => sig = .sigchild
  | .waitpid => True
  | .tick _ => True
  | _ => False

structure WaitInv (s : PcSys) (b : WaitBook) (L : TaskList → List (ListMember × ℕ)) : Prop where
  linked : TasksLinked s L
  exits : L .taskExitList = []
  waiting : L .taskWaitList = b.waiting.map fun t => (.nodeShedule, t)
  owed : ∀ t < s.created, (s.task t).has .sigchild = b.owed t
  fresh : ∀ t, s.created ≤ t → b.owed t = false
  child : ∀ t < s.created, ∀ sig ≠ .sigchild, (s.task t).has sig = false
  pids : ∀ t < s.created, ∀ u < s.created, (s.task t).pid = (s.task u).pid → t = u
  marked : ∀ t < s.created, pidBit s.pidStatus (s.task t).pid = true

theorem TasksLinked.tasksOn_nodup {s : PcSys} {L : TaskList → List (ListMember × ℕ)}
    (h : TasksLinked s L) {list : TaskList} (hl : list ≠ .taskList) : (s.tasksOn list).Nodup := by
  rw [h.tasksOn_eq hl]
  refine List.Nodup.map_on (fun x hx y hy e => Prod.ext ?_ e) (h.rings.nodup list)
  exact (h.shedule list hl x hx).1.trans (h.shedule list hl y hy).1.symm

theorem TasksLinked.waiting_unscheduled {s : PcSys} {L : TaskList → List (ListMember × ℕ)}
    (h : TasksLinked s L) {t : ℕ} (ht : t ∈ s.tasksOn .taskWaitList) :
    t ∉ s.tasksOn .taskScheduleList := by
  rw [h.tasksOn_eq (by decide)] at ht ⊢
  intro hin
  obtain ⟨e, he, rfl⟩ := List.mem_map.mp hin
  obtain ⟨e', he', heq⟩ := List.mem_map.mp ht
  have hsame : e' = e := Prod.ext
    ((h.shedule _ (by decide) e' he').1.trans (h.shedule _ (by decide) e he).1.symm) heq
  exact absurd (h.rings.disjoint _ _ _ he (hsame ▸ he')) (by decide)

section Scan

variable {s s' : PcSys} {b : WaitBook} {L : TaskList → List (ListMember × ℕ)} {c t u : ℕ}

theorem WaitInv.waiting_mem (h : WaitInv s b L) (ht : t ∈ b.waiting) :
    (.nodeShedule, t) ∈ L .taskWaitList := by
  rw [h.waiting]
  exact List.mem_map_of_mem ht

theorem WaitInv.waiting_lt (h : WaitInv s b L) (ht : t ∈ b.waiting) : t < s.created :=
  h.linked.lt_created (h.waiting_mem ht)

theorem WaitInv.tasksOn_wait (h : WaitInv s b L) : s.tasksOn .taskWaitList = b.waiting := by
  rw [h.linked.tasksOn_eq (by decide), h.waiting, List.map_map]
  exact List.map_id _

theorem WaitInv.first_mem (h : WaitInv s b L) (ht : b.first = some t) :
    t ∈ b.waiting ∧ t < s.created ∧ b.owed t = true := by
  have hmem := List.mem_of_find?_eq_some ht
  exact ⟨hmem, h.waiting_lt hmem, List.find?_some ht⟩

theorem WaitInv.scan (h : WaitInv s b L) :
    scanWaiters (s.created + 1) (s.links.next (.inl .taskWaitList)) s =
      match b.first with
      | none => some (none, s)
      | some t => some (some t, s.wake t) := by
  have hpath := (h.linked.rings.ring .taskWaitList (Set.mem_univ _)).2
  rw [h.waiting, List.map_map] at hpath
  have hlen : b.waiting.length < s.created + 1 := by
    have hle : (L .taskWaitList).length ≤ s.created := h.linked.length_le
    rw [h.waiting, List.length_map] at hle
    exact Nat.lt_succ_of_le hle
  have hfind : b.waiting.find? s.flagged = b.first := by
    refine List.find?_congr fun u hu => ?_
    have hlt := h.waiting_lt hu
    rw [PcSys.flagged, h.child u hlt _ (by decide), Bool.false_or, h.owed u hlt]
  rw [scanWaiters_eq hpath hlen, hfind]
  cases hf : b.first with
  | none => rfl
  | some t =>
    have hstop := h.child t (h.first_mem hf).2.1 .sigstop (by decide)
    simp only [hstop, Bool.false_eq_true, if_false]

end Scan

section Tick

variable {s s' : PcSys} {b : WaitBook} {L : TaskList → List (ListMember × ℕ)} {c t u : ℕ}
  {f : Option (BitVec 32)} {pt : RegsContext}

structure SameTasks (s s' : PcSys) : Prop where
  created : s'.created = s.created
  pidStatus : s'.pidStatus = s.pidStatus
  pid : ∀ t, (s'.task t).pid = (s.task t).pid
  signals : ∀ t, (s'.task t).signals = (s.task t).signals

theorem SameTasks.has (h : SameTasks s s') (t : ℕ) (sig : Signal) :
    (s'.task t).has sig = (s.task t).has sig := by
  rw [Task.has, Task.has, h.signals]

theorem WaitInv.of_same (h : WaitInv s b L) {L' : TaskList → List (ListMember × ℕ)}
    (hs : SameTasks s s') (hl : TasksLinked s' L') (hq : L' .taskExitList = [])
    (hw : L' .taskWaitList = L .taskWaitList) : WaitInv s' b L' where
  linked := hl
  exits := hq
  waiting := hw.trans h.waiting
  owed t ht := (hs.has t _).trans (h.owed t (hs.created ▸ ht))
  fresh t ht := h.fresh t (hs.created ▸ ht)
  child t ht sig hne := (hs.has t sig).trans (h.child t (hs.created ▸ ht) sig hne)
  pids t ht u hu e := h.pids t (hs.created ▸ ht) u (hs.created ▸ hu) (by rwa [hs.pid, hs.pid] at e)
  marked t ht := by rw [hs.pidStatus, hs.pid]; exact h.marked t (hs.created ▸ ht)

theorem switchTo_same (c t : ℕ) (f : Option (BitVec 32)) (s : PcSys) :
    SameTasks s (switchTo c t f s) := by
  by_cases hne : t = c
  · rw [switchTo, if_pos hne]
    exact ⟨rfl, rfl, fun _ => rfl, fun _ => rfl⟩
  · rw [switchTo_of_ne s f hne]
    refine ⟨rfl, rfl, fun u => ?_, fun u => ?_⟩
    · by_cases e : u = c
      · subst e
        simp
      · simp [e]
    · by_cases e : u = c
      · subst e
        simp
      · simp [e]

theorem findRunnable_child (h : WaitInv s b L) :
    L .taskScheduleList = [] ∧ findRunnable (s.created + 1) s = none ∨
      ∃ t, (.nodeShedule, t) ∈ L .taskScheduleList ∧
        findRunnable (s.created + 1) s = some (t, none, s) := by
  have hfirst := h.linked.rings.first_eq (Set.mem_univ .taskScheduleList)
  cases hl : L .taskScheduleList with
  | nil =>
    have hself := (h.linked.rings.next_eq_self (Set.mem_univ .taskScheduleList)).mpr hl
    refine .inl ⟨rfl, ?_⟩
    rw [findRunnable, hself]
    rfl
  | cons e rest =>
    obtain ⟨m, x⟩ := e
    have hx : (m, x) ∈ L .taskScheduleList := by rw [hl]; exact List.mem_cons_self
    obtain ⟨rfl, hlt⟩ := h.linked.shedule _ (by decide) _ hx
    rw [hl, List.head?_cons] at hfirst
    have hnext := Sum.getRight?_eq_some_iff.mp hfirst
    have hrun := (h.linked.running x hlt).mpr hx
    have hwake : s.wake x = s := by simp [PcSys.wake, hrun]
    refine .inr ⟨x, List.mem_cons_self, ?_⟩
    rw [findRunnable, hnext, containerOf_self]
    simp only [Option.bind_eq_bind, Option.bind_some, h.child x hlt .sigstop (by decide),
      h.child x hlt .sigwait (by decide), h.child x hlt .sigreserve (by decide), hwake,
      Bool.false_eq_true, if_false, ite_self]

theorem WaitInv.rotate (h : WaitInv s b L) (hc : c < s.created) :
    ∃ L', WaitInv (s.rotate c) b L' ∧ ∀ j e, e ∈ L' j ↔ e ∈ L j := by
  obtain ⟨L', hl, hq, hw, hmem⟩ := rotate_linked h.linked h.exits hc
  have htask := rotate_task s c
  have hpids : (s.rotate c).pidStatus = s.pidStatus := by
    rw [PcSys.rotate]
    split_ifs <;> rfl
  exact ⟨L', h.of_same ⟨(rotate_undisturbed s c).created, hpids, fun t => by rw [htask],
    fun t => by rw [htask]⟩ hl hq hw, hmem⟩

structure Wakes (s s' : PcSys) (t : ℕ) : Prop where
  current : s'.current = some t
  status : (s'.task t).status = .running
  left : s'.tasksOn .taskWaitList = (s.tasksOn .taskWaitList).erase t
  absent : (s.tasksOn .taskScheduleList).count t = 0
  once : (s'.tasksOn .taskScheduleList).count t = 1
  cleared : (s'.task t).has .sigchild = false
  others : ∀ u < s.created, u ≠ t → (s'.task u).has .sigchild = (s.task u).has .sigchild

structure Passes (s s' : PcSys) : Prop where
  current : ∃ t, s'.current = some t ∧ t ∉ s.tasksOn .taskWaitList
  waiting : s'.tasksOn .taskWaitList = s.tasksOn .taskWaitList
  signals : ∀ u < s.created, (s'.task u).has .sigchild = (s.task u).has .sigchild

theorem WaitBook.tick_of_first (ht : b.first = some t) :
    b.tick.waiting = b.waiting.erase t ∧ b.tick.owed = Function.update b.owed t false := by
  rw [WaitBook.tick, ht]
  exact ⟨rfl, rfl⟩

theorem WaitBook.tick_of_none (ht : b.first = none) : b.tick = b := by
  rw [WaitBook.tick, ht]

theorem wake_signals (hst : (s.task t).status = .interruptible) (u : ℕ) :
    ((s.wake t).task u).signals =
      if u = t then (s.task t).signals ^^^ Signal.sigchild.value else (s.task u).signals := by
  rw [PcSys.wake, if_pos hst]
  by_cases e : u = t
  · subst e
    simp [PcSys.setTask, PcSys.move]
  · simp [PcSys.setTask, PcSys.move, e]

theorem wake_frame (s : PcSys) (t : ℕ) : (s.wake t).created = s.created ∧
    (s.wake t).current = s.current ∧ (s.wake t).pidStatus = s.pidStatus := by
  rw [PcSys.wake]
  split_ifs
  · exact ⟨rfl, rfl, rfl⟩
  · exact ⟨rfl, rfl, rfl⟩

theorem wake_pid (s : PcSys) (t u : ℕ) : ((s.wake t).task u).pid = (s.task u).pid := by
  rw [PcSys.wake]
  split_ifs
  · by_cases e : u = t
    · subst e
      simp [PcSys.setTask, PcSys.move]
    · simp [PcSys.setTask, PcSys.move, e]
  · rfl

theorem WaitInv.wake (h : WaitInv s b L) (ht : b.first = some t) :
    WaitInv (s.wake t) b.tick (relist L .taskWaitList .taskScheduleList (.nodeShedule, t)) := by
  obtain ⟨hmem, hlt, howed⟩ := h.first_mem ht
  have hx := h.waiting_mem hmem
  have hst := (h.linked.interruptible t hlt).mpr hx
  have hchild : (s.task t).has .sigchild = true := (h.owed t hlt).trans howed
  obtain ⟨hcreated, -, hpids⟩ := wake_frame s t
  obtain ⟨hwaits, howes⟩ := WaitBook.tick_of_first ht
  have hother : ∀ u ≠ t, ∀ sig, ((s.wake t).task u).has sig = (s.task u).has sig := by
    intro u hu sig
    rw [Task.has, Task.has, wake_signals hst, if_neg hu]
  have hself : ∀ sig, ((s.wake t).task t).has sig =
      ((s.task t).has sig && decide (Signal.sigchild ≠ sig)) := fun sig =>
    Task.has_xor (by rw [wake_signals hst, if_pos rfl]) hchild
  refine ⟨wake_relinked h.linked hx, relist_of_nil h.exits (by decide), ?_, fun u hu => ?_,
    fun u hu => ?_, fun u hu sig hne => ?_, fun u hu v hv e => ?_, fun u hu => ?_⟩
  · rw [relist, Function.update_of_ne (by decide), Function.update_self, h.waiting, hwaits]
    exact (nodes_erase b.waiting t).symm
  · by_cases e : u = t
    · subst e
      rw [hself, howes, Function.update_self]
      simp
    · rw [hother u e, howes, Function.update_of_ne e, h.owed u (hcreated ▸ hu)]
  · have hne : u ≠ t := by omega
    rw [howes, Function.update_of_ne hne, h.fresh u (hcreated ▸ hu)]
  · by_cases e : u = t
    · subst e
      rw [hself, h.child u hlt sig hne, Bool.false_and]
    · rw [hother u e, h.child u (hcreated ▸ hu) sig hne]
  · rw [wake_pid, wake_pid] at e
    exact h.pids u (hcreated ▸ hu) v (hcreated ▸ hv) e
  · rw [hpids, wake_pid]
    exact h.marked u (hcreated ▸ hu)

theorem pcSchedule_scanned (h : WaitInv s b L) (hcur : s.current = some c) :
    ∃ L', WaitInv (s.rotate c) b L' ∧ (∀ j e, e ∈ L' j ↔ e ∈ L j) ∧
      pcSchedule s = match b.first with
        | some t => some (switchTo c t none ((s.rotate c).wake t))
        | none => (findRunnable (s.created + 1) (s.rotate c)).map fun r =>
            switchTo c r.1 r.2.1 r.2.2 := by
  obtain ⟨c', hc, hcur', -⟩ := h.linked.current
  obtain rfl := Option.some.inj (hcur.symm.trans hcur')
  obtain ⟨L', hr, hmem⟩ := h.rotate hc
  refine ⟨L', hr, hmem, ?_⟩
  rw [pcSchedule, clearup_eq h.linked h.exits]
  simp only [Option.bind_eq_bind, Option.bind_some, hcur, hr.scan]
  cases hf : b.first with
  | some t => rfl
  | none =>
    rw [← (rotate_undisturbed s c).created]
    exact (Option.map_eq_bind).symm

theorem tick_wakes (h : WaitInv s b L) (ht : b.first = some t) (pt : RegsContext) :
    ∃ s', pcStep s (.tick pt) = some s' ∧ Wakes s s' t ∧ ∃ L', WaitInv s' b.tick L' := by
  obtain ⟨c, hc, hcur, -⟩ := h.linked.current
  have hpt : WaitInv { s with ptContext := pt } b L :=
    h.of_same ⟨rfl, rfl, fun _ => rfl, fun _ => rfl⟩ (h.linked.sameLinks rfl rfl rfl fun _ => rfl)
      h.exits rfl
  obtain ⟨L1, h1, hmem, hrun⟩ := pcSchedule_scanned hpt hcur
  set m := ({ s with ptContext := pt } : PcSys).rotate c with hm
  have h2 := h1.wake ht
  have hsw := switchTo_same c t none (m.wake t)
  obtain ⟨hwait, hlt, howed⟩ := h1.first_mem ht
  have hx := h1.waiting_mem hwait
  have hx2 : (.nodeShedule, t) ∈
      relist L1 .taskWaitList .taskScheduleList (.nodeShedule, t) .taskScheduleList :=
    (h1.linked.rings.mem_relist hx _ _).mpr (.inr ⟨rfl, rfl⟩)
  have h3 := switchTo_linked (c := c) (f := none) h2.linked hx2
  have hinv := h2.of_same hsw h3 h2.exits rfl
  rw [ht] at hrun
  obtain ⟨hcreated, hcurrent, -⟩ := wake_frame m t
  have hundisturbed := rotate_undisturbed { s with ptContext := pt } c
  have hcur3 : (m.wake t).current = some c := hcurrent.trans (hundisturbed.current.trans hcur)
  have hall := hsw.created.trans (hcreated.trans hundisturbed.created)
  have hnot := h.linked.waiting_unscheduled (t := t) (by rwa [h.tasksOn_wait])
  refine ⟨_, hrun, ⟨switchTo_current hcur3 t none, ?_, ?_, List.count_eq_zero.mpr hnot, ?_, ?_,
    fun u hu hne => ?_⟩, _, hinv⟩
  · exact (h3.running t (h3.lt_created hx2)).mpr hx2
  · rw [hinv.tasksOn_wait, h.tasksOn_wait, (WaitBook.tick_of_first ht).1]
  · refine List.count_eq_one_of_mem (h3.tasksOn_nodup (by decide)) ?_
    rw [h3.tasksOn_eq (by decide)]
    exact List.mem_map_of_mem hx2
  · rw [hinv.owed t (h3.lt_created hx2), (WaitBook.tick_of_first ht).2, Function.update_self]
  · rw [hinv.owed u (hall ▸ hu), (WaitBook.tick_of_first ht).2, Function.update_of_ne hne,
      h.owed u hu]

theorem tick_passes (h : WaitInv s b L) (ht : b.first = none) (pt : RegsContext) :
    s.tasksOn .taskScheduleList = [] ∧ pcStep s (.tick pt) = none ∨
      s.tasksOn .taskScheduleList ≠ [] ∧ ∃ s', pcStep s (.tick pt) = some s' ∧ Passes s s' ∧
        ∃ L', WaitInv s' b L' := by
  obtain ⟨c, hc, hcur, -⟩ := h.linked.current
  have hpt : WaitInv { s with ptContext := pt } b L :=
    h.of_same ⟨rfl, rfl, fun _ => rfl, fun _ => rfl⟩ (h.linked.sameLinks rfl rfl rfl fun _ => rfl)
      h.exits rfl
  obtain ⟨L1, h1, hmem, hrun⟩ := pcSchedule_scanned hpt hcur
  set m := ({ s with ptContext := pt } : PcSys).rotate c with hm
  have hundisturbed := rotate_undisturbed { s with ptContext := pt } c
  have hcreated : m.created = s.created := hundisturbed.created
  have hrun : pcStep s (.tick pt) = _ := hrun
  rw [ht] at hrun
  have hlist := h.linked.tasksOn_eq (show TaskList.taskScheduleList ≠ .taskList by decide)
  rcases findRunnable_child h1 with ⟨hnil, hn⟩ | ⟨x, hx, hn⟩
  · rw [hcreated] at hn
    refine .inl ⟨?_, ?_⟩
    · rw [hlist, List.map_eq_nil_iff, List.eq_nil_iff_forall_not_mem]
      intro e he
      rw [← hmem, hnil] at he
      cases he
    · rw [hrun]
      dsimp only
      rw [hn]
      rfl
  · rw [hcreated] at hn
    have hsw := switchTo_same c x none m
    have h3 := switchTo_linked (c := c) (f := none) h1.linked hx
    have hinv := h1.of_same hsw h3 h1.exits rfl
    have hstep : pcStep s (.tick pt) = some (switchTo c x none m) := by
      rw [hrun]
      dsimp only
      rw [hn]
      rfl
    refine .inr ⟨?_, _, hstep, ⟨⟨x, switchTo_current (hundisturbed.current.trans hcur) x none,
      fun hin => ?_⟩, ?_, fun u hu => ?_⟩, L1, hinv⟩
    · rw [hlist]
      exact List.ne_nil_of_mem (List.mem_map_of_mem ((hmem _ _).mp hx))
    · rw [h.tasksOn_wait, ← h1.tasksOn_wait] at hin
      refine h1.linked.waiting_unscheduled hin ?_
      rw [h1.linked.tasksOn_eq (by decide)]
      exact List.mem_map_of_mem hx
    · rw [hinv.tasksOn_wait, h.tasksOn_wait]
    · rw [hinv.owed u (hsw.created.trans hcreated ▸ hu), h.owed u hu]

end Tick

section Calls

variable {s s' : PcSys} {b : WaitBook} {L : TaskList → List (ListMember × ℕ)} {c t pid : ℕ}
  {args : CreateArgs}

theorem relist_waiting (h : WaitInv s b L) {list : TaskList} (hx : (.nodeShedule, c) ∈ L list) :
    relist L list .taskWaitList (.nodeShedule, c) .taskWaitList =
      (b.wait c).waiting.map fun t => (.nodeShedule, t) := by
  rw [relist, Function.update_self, WaitBook.wait, List.map_append, List.map_singleton]
  congr 1
  by_cases e : list = .taskWaitList
  · subst e
    rw [Function.update_self, h.waiting]
    exact (nodes_erase b.waiting c).symm
  · have hnot : c ∉ b.waiting := fun hin =>
      e (h.linked.rings.disjoint _ _ _ hx (h.waiting_mem hin))
    rw [Function.update_of_ne (Ne.symm e), h.waiting, List.erase_of_not_mem hnot]

theorem waitpid_inv (h : WaitInv s b L) (hs : waitpid s = some s') :
    ∃ c L', s.current = some c ∧ WaitInv s' (b.wait c) L' := by
  obtain ⟨c, hc, hcur, hout⟩ := h.linked.current
  obtain ⟨list, hl, hx⟩ := h.linked.placed c hc
  simp only [waitpid, hcur, Option.bind_eq_bind, Option.bind_some] at hs
  obtain rfl := Option.some.inj hs
  have hsame : SameTasks s ((s.move c .taskWaitList).setTask c
      { (s.move c .taskWaitList).task c with status := .interruptible }) := by
    refine ⟨rfl, rfl, fun u => ?_, fun u => ?_⟩
    · by_cases e : u = c
      · subst e
        simp [PcSys.setTask, PcSys.move]
      · simp [PcSys.setTask, PcSys.move, e]
    · by_cases e : u = c
      · subst e
        simp [PcSys.setTask, PcSys.move]
      · simp [PcSys.setTask, PcSys.move, e]
  refine ⟨c, _, hcur, h.linked.moved hx (.inl rfl) rfl rfl rfl (fun u hu => ?_) ?_,
    relist_of_nil h.exits (by decide), relist_waiting h hx, fun u hu => ?_, h.fresh,
    fun u hu sig hne => ?_, fun u hu v hv e => ?_, fun u hu => ?_⟩
  · exact congrArg Task.status (Function.update_of_ne hu _ _)
  · simp [PcSys.setTask]
  · exact (hsame.has u _).trans (h.owed u hu)
  · exact (hsame.has u sig).trans (h.child u hu sig hne)
  · rw [hsame.pid, hsame.pid] at e
    exact h.pids u hu v hv e
  · rw [hsame.pidStatus, hsame.pid]
    exact h.marked u hu

theorem kill_found (h : WaitInv s b L) (hs : kill pid .sigchild s = some s') :
    ∃ t < s.created, (s.task t).pid = pid ∧
      s' = s.setTask t { s.task t with signals := (s.task t).signals ||| Signal.sigchild.value } := by
  have hpath := (h.linked.rings.ring .taskList (Set.mem_univ _)).2
  rw [h.linked.nodes_all, List.map_map] at hpath
  have hlen : ((L .taskList).map Prod.snd).length < s.created + 1 := by
    rw [List.length_map]
    exact Nat.lt_succ_of_le h.linked.length_le
  rw [kill, findTaskPid_eq hpath hlen] at hs
  cases hf : ((L .taskList).map Prod.snd).find? fun t => (s.task t).pid = pid with
  | none =>
    rw [hf] at hs
    cases hw : b.waiting with
    | nil =>
      have hself := (h.linked.rings.next_eq_self (Set.mem_univ .taskWaitList)).mpr
        (by rw [h.waiting, hw]; rfl)
      simp [hself, findTaskPid] at hs
    | cons x xs =>
      have hfirst := h.linked.rings.first_eq (Set.mem_univ .taskWaitList)
      rw [h.waiting, hw] at hfirst
      have hnext := Sum.getRight?_eq_some_iff.mp hfirst
      simp [hnext, findTaskPid, containerOf] at hs
  | some t =>
    rw [hf] at hs
    obtain rfl := Option.some.inj hs
    obtain ⟨e, he, rfl⟩ := List.mem_map.mp (List.mem_of_find?_eq_some hf)
    exact ⟨e.2, h.linked.lt_created he, by simpa using List.find?_some hf, rfl⟩

theorem kill_inv (h : WaitInv s b L) (hs : kill pid .sigchild s = some s') :
    WaitInv s' (b.send (hasPid s pid)) L := by
  obtain ⟨x, hlt, hpid, rfl⟩ := kill_found h hs
  have hiff : ∀ u < s.created, hasPid s pid u = decide (u = x) := by
    intro u hu
    rw [hasPid, decide_eq_true hu, Bool.true_and]
    refine decide_eq_decide.mpr ⟨fun e => ?_, fun e => e ▸ hpid⟩
    exact h.pids u hu _ hlt (e.trans hpid.symm)
  set task : Task := { s.task x with signals := (s.task x).signals ||| Signal.sigchild.value }
    with htask
  have hhas : ∀ u < s.created, ∀ sig, ((s.setTask x task).task u).has sig =
      ((s.task u).has sig || (decide (u = x) && decide (Signal.sigchild = sig))) := by
    intro u hu sig
    rw [setTask_task]
    by_cases hu : u = x
    · rw [if_pos hu, hu, Task.has_or rfl, decide_eq_true rfl, Bool.true_and]
    · rw [if_neg hu, decide_eq_false hu, Bool.false_and, Bool.or_false]
  have hpids : ∀ u, ((s.setTask x task).task u).pid = (s.task u).pid := by
    intro u
    rw [setTask_task]
    split_ifs with hu
    · rw [hu]
    · rfl
  refine ⟨setTask_linked h.linked rfl, h.exits, h.waiting, fun u hu => ?_, fun u hu => ?_,
    fun u hu sig hne => ?_, fun u hu v hv heq => ?_, fun u hu => ?_⟩
  · rw [hhas u hu, h.owed u hu, WaitBook.send_owed, hiff u hu, decide_eq_true rfl, Bool.and_true]
  · have hnot : hasPid s pid u = false := by
      have hnlt : ¬u < s.created := not_lt.mpr hu
      rw [hasPid, decide_eq_false hnlt, Bool.false_and]
    rw [WaitBook.send_owed, hnot, h.fresh u hu, Bool.or_false]
  · rw [hhas u hu, h.child u hu sig hne, decide_eq_false hne.symm, Bool.and_false]
    rfl
  · rw [hpids, hpids] at heq
    exact h.pids u hu v hv heq
  · rw [hpids]
    exact h.marked u hu

theorem taskCreate_inv (h : WaitInv s b L) (hs : taskCreate args s = some s') :
    ∃ L', WaitInv s' b L' := by
  rcases taskCreate_cases hs with rfl | ⟨task, status, -, hrun, hsig, hclear, hbits, rfl⟩
  · exact ⟨L, h⟩
  · have hnew : ∀ u < s.created, (s.task u).pid ≠ task.pid := by
      intro u hu e
      have hset := h.marked u hu
      rw [e, hclear] at hset
      cases hset
    have hcase : ∀ u < s.created + 1, u ≠ s.created → u < s.created := fun u h1 h2 => by omega
    refine ⟨_, created_linked h.linked rfl rfl rfl (fun u hu => ?_) ?_, enlisted_exit h.exits, ?_,
      fun u hu => ?_, fun u hu => h.fresh u (Nat.le_of_succ_le hu), fun u hu sig hne => ?_,
      fun u hu v hv e => ?_, fun u hu => ?_⟩
    · exact congrArg Task.status ((setTask_task _ _ _ u).trans (if_neg hu))
    · exact (congrArg Task.status ((setTask_task _ _ _ _).trans (if_pos rfl))).trans hrun
    · rw [enlisted, Function.update_of_ne (by decide), Function.update_of_ne (by decide), h.waiting]
    · change ((s.setTask s.created _).task u).has .sigchild = b.owed u
      rw [setTask_task]
      split_ifs with e
      · rw [e, h.fresh _ le_rfl]
        exact Task.has_of_zero hsig _
      · exact h.owed u (hcase u hu e)
    · change ((s.setTask s.created _).task u).has sig = false
      rw [setTask_task]
      split_ifs with e
      · exact Task.has_of_zero hsig _
      · exact h.child u (hcase u hu e) sig hne
    · change ((s.setTask s.created _).task u).pid = ((s.setTask s.created _).task v).pid at e
      rw [setTask_task, setTask_task] at e
      split_ifs at e with e1 e2 e2
      · rw [e1, e2]
      · exact absurd e.symm (hnew v (hcase v hv e2))
      · exact absurd e (hnew u (hcase u hu e1))
      · exact h.pids u (hcase u hu e1) v (hcase v hv e2) e
    · change pidBit status ((s.setTask s.created _).task u).pid = true
      rw [setTask_task]
      split_ifs with e
      · rw [hbits, decide_eq_true rfl, Bool.or_true]
      · rw [hbits, h.marked u (hcase u hu e), Bool.true_or]

end Calls

section Run

variable {r r' : WaitRun} {op : PcOp}

theorem waitStep_inv (hop : ChildOnly op) (h : ∃ L, WaitInv r.sys r.book L)
    (hs : waitStep r op = some r') : ∃ L, WaitInv r'.sys r'.book L := by
  obtain ⟨L, h⟩ := h
  obtain ⟨s', hp, rfl⟩ := Option.map_eq_some_iff.mp hs
  cases op with
  | taskCreate args => exact taskCreate_inv h hp
  | kill pid sig =>
    obtain rfl : sig = .sigchild := hop
    exact ⟨L, kill_inv h hp⟩
  | sigHandler sig handler => exact hop.elim
  | waitpid =>
    obtain ⟨c, L', hcur, h'⟩ := waitpid_inv h hp
    refine ⟨L', ?_⟩
    rwa [recordWait, hcur]
  | taskExit => exact hop.elim
  | tick pt =>
    cases hf : r.book.first with
    | none =>
      obtain ⟨-, hnone⟩ | ⟨-, s'', hs'', -, L', h'⟩ := tick_passes h hf pt
      · rw [hnone] at hp
        cases hp
      obtain rfl := Option.some.inj (hp.symm.trans hs'')
      refine ⟨L', ?_⟩
      rwa [recordWait, WaitBook.tick_of_none hf]
    | some t =>
      obtain ⟨s'', hs'', -, L', h'⟩ := tick_wakes h hf pt
      obtain rfl := Option.some.inj (hp.symm.trans hs'')
      exact ⟨L', h'⟩

def initWaits (memory : Links TaskNode) (idle : Task) (mm : Option ℕ) (pt : RegsContext) : WaitRun :=
  ⟨initPc memory idle mm pt, ⟨[], fun _ => false⟩⟩

theorem initWaits_inv (memory : Links TaskNode) (idle : Task) (mm : Option ℕ) (pt : RegsContext) :
    ∃ L, WaitInv (initWaits memory idle mm pt).sys (initWaits memory idle mm pt).book L := by
  obtain ⟨L, hl, hq⟩ := initPc_linked memory idle mm pt
  have hzero : ∀ t < (initPc memory idle mm pt).created, t = 0 := fun t ht => Nat.lt_one_iff.mp ht
  have hwait : L .taskWaitList = [] := by
    refine List.eq_nil_iff_forall_not_mem.mpr fun e he => ?_
    have hlt := hl.lt_created he
    have hst := (hl.interruptible e.2 hlt).mpr ((hl.shedule _ (by decide) e he).1 ▸ he)
    cases hst
  refine ⟨L, hl, hq, hwait, fun t _ => Task.has_of_zero rfl _, fun _ _ => rfl,
    fun t _ sig _ => Task.has_of_zero rfl _, fun t ht u hu _ => ?_, fun t _ => ?_⟩
  · rw [hzero t ht, hzero u hu]
  · change pidBit initPidStatus 0 = true
    decide

/-- The bits that are pending are those of the tasks that were sent a SIGCHILD since they last left
`waitpid`. A tick runs the first waiting task among them, and no waiting task where there is none. -/
structure WakesInOrder (r : WaitRun) : Prop where
  waiting : r.sys.tasksOn .taskWaitList = r.book.waiting
  pending : ∀ t < r.sys.created, (r.sys.task t).has .sigchild = r.book.owed t
  wakes : ∀ regs t, r.book.first = some t → ∃ s', pcStep r.sys (.tick regs) = some s' ∧ Wakes r.sys s' t
  passes : ∀ regs, r.book.first = none → ∀ s', pcStep r.sys (.tick regs) = some s' → Passes r.sys s'

theorem WaitInv.wakesInOrder {L : TaskList → List (ListMember × ℕ)} (h : WaitInv r.sys r.book L) :
    WakesInOrder r where
  waiting := h.tasksOn_wait
  pending := h.owed
  wakes regs t ht := by
    obtain ⟨s', hs, hw, -⟩ := tick_wakes h ht regs
    exact ⟨s', hs, hw⟩
  passes regs ht s' hs := by
    obtain ⟨-, hnone⟩ | ⟨-, s'', hs'', hp, -⟩ := tick_passes h ht regs
    · rw [hnone] at hs
      cases hs
    · rwa [Option.some.inj (hs.symm.trans hs'')]

/-- The memory allocations succeed, the pids are live and the ticks find a task. -/
def WaitRuns (s : PcSys) : PcOp → Prop
  | .taskCreate args => (pidAlloc s.pidStatus).1.isSome →
    args.taskNew.isSome ∧ (args.mode = .user → args.mmNew.isSome)
  | .kill pid _ => ∃ t < s.created, (s.task t).pid = pid
  | .tick _ => (∃ t ∈ s.tasksOn .taskWaitList, (s.task t).has .sigchild = true) ∨
    s.tasksOn .taskScheduleList ≠ []
  | _ => True

instance (s : PcSys) : ∀ op, Decidable (WaitRuns s op)
  | .taskCreate args => inferInstanceAs (Decidable (_ → _ ∧ (args.mode = .user → _)))
  | .kill pid _ => inferInstanceAs (Decidable (∃ t < s.created, (s.task t).pid = pid))
  | .sigHandler _ _ => .isTrue trivial
  | .waitpid => .isTrue trivial
  | .taskExit => .isTrue trivial
  | .tick _ => inferInstanceAs (Decidable (_ ∨ _))

theorem taskCreate_isSome {s : PcSys} {args : CreateArgs} {c : ℕ} (hcur : s.current = some c) :
    (taskCreate args s).isSome ↔ WaitRuns s (.taskCreate args) := by
  rw [taskCreate, WaitRuns]
  rcases hp : pidAlloc s.pidStatus with ⟨_ | pid, status⟩
  · simp
  · cases htask : args.taskNew with
    | none => simp [hcur]
    | some taskNew =>
      have hmm : args.mm.isSome ↔ (args.mode = .user → args.mmNew.isSome) := by
        rw [CreateArgs.mm]
        cases args.mode <;> simp
      cases hm : args.mm with
      | none =>
        rw [hm] at hmm
        simpa [hcur] using hmm
      | some mm =>
        rw [hm] at hmm
        simpa [hcur] using hmm

theorem WaitInv.first_isSome {s : PcSys} {b : WaitBook} {L : TaskList → List (ListMember × ℕ)}
    (h : WaitInv s b L) :
    b.first.isSome ↔ ∃ t ∈ s.tasksOn .taskWaitList, (s.task t).has .sigchild = true := by
  rw [WaitBook.first, List.find?_isSome, h.tasksOn_wait]
  exact exists_congr fun t => and_congr_right fun ht => by rw [h.owed t (h.waiting_lt ht)]

theorem waitStep_isSome (hop : ChildOnly op) (h : ∃ L, WaitInv r.sys r.book L) :
    (waitStep r op).isSome ↔ WaitRuns r.sys op := by
  obtain ⟨L, h⟩ := h
  rw [waitStep, Option.isSome_map]
  obtain ⟨c, -, hcur, -⟩ := h.linked.current
  cases op with
  | taskCreate args => exact taskCreate_isSome hcur
  | kill pid sig =>
    obtain rfl : sig = .sigchild := hop
    constructor
    · intro hs
      obtain ⟨s', hs⟩ := Option.isSome_iff_exists.mp hs
      obtain ⟨t, ht, hpid, -⟩ := kill_found h hs
      exact ⟨t, ht, hpid⟩
    · intro hlive
      obtain ⟨t, -, hs⟩ := kill_eq h.linked .sigchild hlive
      exact Option.isSome_of_eq_some hs
  | sigHandler sig handler => exact hop.elim
  | waitpid =>
    obtain ⟨s', L', hs, -⟩ := waitpid_linked h.linked h.exits
    exact iff_of_true (Option.isSome_of_eq_some hs) trivial
  | taskExit => exact hop.elim
  | tick pt =>
    rw [WaitRuns, ← h.first_isSome]
    cases hf : r.book.first with
    | some t =>
      obtain ⟨s', hs, -⟩ := tick_wakes h hf pt
      exact iff_of_true (Option.isSome_of_eq_some hs) (.inl rfl)
    | none =>
      obtain ⟨hempty, hnone⟩ | ⟨hne, s', hs, -⟩ := tick_passes h hf pt
      · rw [hnone]
        simp [hempty]
      · exact iff_of_true (Option.isSome_of_eq_some hs) (.inr hne)

theorem waitRun_wakes_iff (memory : Links TaskNode) (idle : Task) (mm : Option ℕ) (pt : RegsContext)
    (ops : List PcOp) (hops : ∀ op ∈ ops, ChildOnly op) :
    (∃ r, runOps waitStep (initWaits memory idle mm pt) ops = some r ∧ WakesInOrder r) ↔
      RunMeets waitStep (fun r => WaitRuns r.sys) (initWaits memory idle mm pt) ops := by
  have hinv := initWaits_inv memory idle mm pt
  constructor
  · rintro ⟨r, hr, -⟩
    refine runMeets_of_run (fun q op q' hq hop hs => ⟨?_, waitStep_inv hop hq hs⟩) hinv
      (runMeets_of_forall hops _) hr
    exact (waitStep_isSome hop hq).mp (Option.isSome_of_eq_some hs)
  · intro hmeets
    have hstep (q : WaitRun) (op : PcOp) (hq : ∃ L, WaitInv q.sys q.book L)
        (hc : ChildOnly op ∧ WaitRuns q.sys op) :
        ∃ q', waitStep q op = some q' ∧ ∃ L, WaitInv q'.sys q'.book L := by
      obtain ⟨q', hs⟩ := Option.isSome_iff_exists.mp ((waitStep_isSome hc.1 hq).mpr hc.2)
      exact ⟨q', hs, waitStep_inv hc.1 hq hs⟩
    obtain ⟨r, hr, L, h⟩ := runOps_of_meets hstep hinv
      (runMeets_and (runMeets_of_forall hops (initWaits memory idle mm pt)) hmeets)
    exact ⟨r, hr, h.wakesInOrder⟩

/-- The second of two waiting tasks is sent a SIGCHILD and woken. -/
theorem waitRun_wakes_small : ∃ r, runOps waitStep (initWaits blankNodes blankTask none .zero)
    [.taskCreate someArgs, .taskCreate someArgs, .tick .zero, .waitpid, .tick .zero, .waitpid,
      .kill 2 .sigchild, .tick .zero] = some r ∧ WakesInOrder r :=
  (waitRun_wakes_iff _ _ _ _ _ (by simp [ChildOnly])).mpr (by decide +kernel)

/-- The only task waits, and the list head is taken for the next one. -/
theorem waitRun_not_wakes : ¬ ∃ r, runOps waitStep (initWaits blankNodes blankTask none .zero)
    [.waitpid, .tick .zero] = some r ∧ WakesInOrder r := by
  have hnone : runOps waitStep (initWaits blankNodes blankTask none .zero) [.waitpid, .tick .zero] =
      none := Option.isNone_iff_eq_none.mp (by decide +kernel)
  rintro ⟨r, hr, -⟩
  rw [hnone] at hr
  cases hr

end Run

end OurOS
