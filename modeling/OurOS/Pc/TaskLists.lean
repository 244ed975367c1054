import Mathlib.Data.List.Find
import OurOS.Pc.Schedule

namespace OurOS

open Links

section Walks

variable {l : Links TaskNode} {head a : TaskNode} {s : PcSys}

theorem listNodes_eq {xs : List TaskNode} (hp : Path l a xs head) (hn : head ∉ xs) {fuel : ℕ}
    (hf : xs.length < fuel) : listNodes l head fuel (l.next a) = xs := by
  induction xs generalizing a fuel with
  | nil =>
    obtain ⟨fuel, rfl⟩ := Nat.exists_eq_succ_of_ne_zero (Nat.ne_of_gt hf)
    rw [listNodes, if_pos hp.1]
  | cons x xs ih =>
    obtain ⟨fuel, rfl⟩ := Nat.exists_eq_succ_of_ne_zero (Nat.ne_of_gt (Nat.zero_lt_of_lt hf))
    obtain ⟨hx, hxs⟩ := not_or.mp fun e => hn (List.mem_cons.mpr e)
    rw [listNodes, hp.1.1, if_neg (Ne.symm hx), ih hp.2 hxs (Nat.lt_of_succ_lt_succ hf)]

theorem findTaskPid_eq {list : TaskList} {pid : ℕ} {xs : List ℕ}
    (hp : Path s.links a (xs.map fun t => .inr (.node, t)) (.inl list)) {fuel : ℕ}
    (hf : xs.length < fuel) : findTaskPid s list pid fuel (s.links.next a) =
      some (xs.find? fun t => (s.task t).pid = pid) := by
  induction xs generalizing a fuel with
  | nil =>
    obtain ⟨fuel, rfl⟩ := Nat.exists_eq_succ_of_ne_zero (Nat.ne_of_gt hf)
    rw [findTaskPid, if_pos hp.1, List.find?_nil]
  | cons x xs ih =>
    obtain ⟨fuel, rfl⟩ := Nat.exists_eq_succ_of_ne_zero (Nat.ne_of_gt (Nat.zero_lt_of_lt hf))
    rw [findTaskPid, hp.1.1, if_neg (by simp), containerOf_self, List.find?_cons]
    by_cases e : (s.task x).pid = pid
    · simp [e]
    · simpa [e] using ih hp.2 (Nat.lt_of_succ_lt_succ hf)

end Walks

section Signals

def Signal.bit : Signal → ℕ
  | .sigstop => 0
  | .sigchild => 1
  | .sigwait => 2
  | .sigreserve => 3

theorem Signal.value_eq (sig : Signal) : sig.value = BitVec.twoPow 32 sig.bit := by
  cases sig <;> decide

theorem Signal.bit_lt (sig : Signal) : sig.bit < 32 := by
  cases sig <;> decide

theorem Signal.bit_inj {sig sig' : Signal} (h : sig.bit = sig'.bit) : sig = sig' := by
  cases sig <;> cases sig' <;> simp_all [Signal.bit]

theorem Signal.value_getLsbD (sig sig' : Signal) :
    sig.value.getLsbD sig'.bit = decide (sig = sig') := by
  have hlt := sig'.bit_lt
  have hiff : sig'.bit = sig.bit ↔ sig = sig' := ⟨fun e => Signal.bit_inj e.symm, fun e => e ▸ rfl⟩
  simp [Signal.value_eq sig, hlt, hiff]

theorem Task.has_eq (t : Task) (sig : Signal) : t.has sig = t.signals.getLsbD sig.bit := by
  rw [Task.has, Signal.value_eq, BitVec.and_twoPow]
  cases h : t.signals.getLsbD sig.bit
  · simp
  · have hne : BitVec.twoPow 32 sig.bit ≠ 0#32 := by cases sig <;> decide
    simpa using hne

theorem Task.has_of_zero {t : Task} (h : t.signals = 0) (sig : Signal) : t.has sig = false := by
  rw [Task.has_eq, h]
  exact BitVec.getLsbD_zero

variable {t : Task} {sig sig' : Signal}

theorem Task.has_or {t' : Task} (h : t'.signals = t.signals ||| sig.value) :
    t'.has sig' = (t.has sig' || decide (sig = sig')) := by
  rw [Task.has_eq, Task.has_eq, h, BitVec.getLsbD_or, Signal.value_getLsbD]

theorem Task.has_xor {t' : Task} (h : t'.signals = t.signals ^^^ sig.value)
    (hs : t.has sig = true) : t'.has sig' = (t.has sig' && decide (sig ≠ sig')) := by
  rw [Task.has_eq] at hs
  rw [Task.has_eq, Task.has_eq, h, BitVec.getLsbD_xor, Signal.value_getLsbD]
  by_cases e : sig = sig'
  · subst e
    simp [hs]
  · simp [e]

end Signals

/-- The waiters that end the walk of the wait list. -/
def PcSys.flagged (s : PcSys) (t : ℕ) : Bool := (s.task t).has .sigstop || (s.task t).has .sigchild

/-- The tasks of the schedule list that `pc_schedule` does not move to the wait list. -/
def PcSys.picked (s : PcSys) (t : ℕ) : Bool := (s.task t).has .sigstop || !(s.task t).has .sigwait

def PcSys.rotated (s : PcSys) : PcSys :=
  match s.current with
  | some current => s.rotate current
  | none => s

def PcSys.tickRuns (s : PcSys) : Bool :=
  let s := s.rotated
  match (s.tasksOn .taskWaitList).find? s.flagged with
  | some t => !(s.task t).has .sigstop
  | none =>
    ((s.tasksOn .taskScheduleList).find? s.picked).any fun t => !(s.task t).has .sigstop

theorem nodeShedule_injective : Function.Injective fun t : ℕ => (ListMember.nodeShedule, t) :=
  fun _ _ e => (Prod.mk.inj e).2

theorem nodes_erase (tasks : List ℕ) (t : ℕ) :
    (tasks.erase t).map (fun t => (ListMember.nodeShedule, t)) =
      @List.erase (ListMember × ℕ) instBEqOfDecidableEq
        (tasks.map fun t => (.nodeShedule, t)) (.nodeShedule, t) :=
  @List.map_erase ℕ (ListMember × ℕ) _ _ instBEqOfDecidableEq inferInstance _
    nodeShedule_injective t tasks

/-- Every task is on the task list through `node`, and through `node_shedule` on exactly one of
the other lists, the one its status asks for. -/
structure TasksLinked (s : PcSys) (L : TaskList → List (ListMember × ℕ)) : Prop where
  rings : Rings Set.univ s.links L
  all : ∀ e, e ∈ L .taskList ↔ e.1 = .node ∧ e.2 < s.created
  shedule : ∀ list ≠ .taskList, ∀ e ∈ L list, e.1 = .nodeShedule ∧ e.2 < s.created
  placed : ∀ t < s.created, ∃ list ≠ .taskList, (.nodeShedule, t) ∈ L list
  running : ∀ t < s.created,
    (s.task t).status = .running ↔ (.nodeShedule, t) ∈ L .taskScheduleList
  interruptible : ∀ t < s.created,
    (s.task t).status = .interruptible ↔ (.nodeShedule, t) ∈ L .taskWaitList
  current : ∃ c < s.created, s.current = some c ∧ (.nodeShedule, c) ∉ L .taskExitList

namespace TasksLinked

variable {s s' : PcSys} {L : TaskList → List (ListMember × ℕ)} {t : ℕ} {list k : TaskList}

theorem nodes_eq (h : TasksLinked s L) (hl : list ≠ .taskList) :
    L list = ((L list).map Prod.snd).map fun t => (.nodeShedule, t) := by
  rw [List.map_map]
  refine (List.map_id _).symm.trans (List.map_congr_left fun e he => ?_)
  have h1 := (h.shedule list hl e he).1
  exact Prod.ext h1 rfl

theorem nodes_all (h : TasksLinked s L) :
    L .taskList = ((L .taskList).map Prod.snd).map fun t => (.node, t) := by
  rw [List.map_map]
  refine (List.map_id _).symm.trans (List.map_congr_left fun e he => ?_)
  exact Prod.ext ((h.all e).mp he).1 rfl

theorem lt_created (h : TasksLinked s L) {e : ListMember × ℕ} (he : e ∈ L list) :
    e.2 < s.created := by
  by_cases hl : list = .taskList
  · subst hl
    exact ((h.all e).mp he).2
  · exact (h.shedule list hl e he).2

theorem length_le (h : TasksLinked s L) : (L list).length ≤ s.created := by
  have hinj : ((L list).map Prod.snd).Nodup := by
    refine List.Nodup.map_on (fun x hx y hy e => Prod.ext ?_ e) (h.rings.nodup list)
    by_cases hl : list = .taskList
    · subst hl
      exact ((h.all x).mp hx).1.trans ((h.all y).mp hy).1.symm
    · exact (h.shedule list hl x hx).1.trans (h.shedule list hl y hy).1.symm
  have hsub : (L list).map Prod.snd ⊆ List.range s.created := by
    intro t ht
    obtain ⟨e, he, rfl⟩ := List.mem_map.mp ht
    exact List.mem_range.mpr (h.lt_created he)
  simpa using (hinj.subperm hsub).length_le

theorem tasksOn_eq (h : TasksLinked s L) (hl : list ≠ .taskList) :
    s.tasksOn list = (L list).map Prod.snd := by
  have hring := h.rings.ring list (Set.mem_univ _)
  have hlen : ((L list).map (Sum.inr : _ → TaskNode)).length < s.created + 1 := by
    rw [List.length_map]
    exact Nat.lt_succ_of_le h.length_le
  rw [PcSys.tasksOn, listNodes_eq hring.2 (by simp) hlen, List.filterMap_map]
  conv_lhs => rw [h.nodes_eq hl]
  have hfun : (containerOf .nodeShedule ∘ (Sum.inr : _ → TaskNode)) ∘
      (fun t => (ListMember.nodeShedule, t)) = some :=
    funext fun t => containerOf_self .nodeShedule t
  rw [List.filterMap_map, hfun, List.filterMap_some]

theorem mem_tasksOn (h : TasksLinked s L) (hl : list ≠ .taskList) :
    t ∈ s.tasksOn list ↔ (.nodeShedule, t) ∈ L list := by
  rw [h.tasksOn_eq hl]
  conv_rhs => rw [h.nodes_eq hl]
  exact (List.mem_map_of_injective nodeShedule_injective).symm

theorem moved (h : TasksLinked s L) (hx : (.nodeShedule, t) ∈ L list)
    (hk : k = .taskWaitList ∨ k = .taskScheduleList) (hlinks : s'.links = (s.move t k).links)
    (hcreated : s'.created = s.created) (hcurrent : s'.current = s.current)
    (hstatus : ∀ u ≠ t, (s'.task u).status = (s.task u).status)
    (ht : (s'.task t).status = if k = .taskWaitList then .interruptible else .running) :
    TasksLinked s' (relist L list k (.nodeShedule, t)) := by
  have hmem (j : TaskList) (y : ListMember × ℕ) :
      y ∈ relist L list k (.nodeShedule, t) j ↔ _ := h.rings.mem_relist hx j y
  have hall : k ≠ .taskList := by rcases hk with rfl | rfl <;> decide
  have hexit : k ≠ .taskExitList := by rcases hk with rfl | rfl <;> decide
  have hself : ∀ j, (.nodeShedule, t) ∈ relist L list k (.nodeShedule, t) j ↔ j = k := by
    intro j
    simp [hmem]
  have hother : ∀ u ≠ t, ∀ j,
      (.nodeShedule, u) ∈ relist L list k (.nodeShedule, t) j ↔ (.nodeShedule, u) ∈ L j := by
    intro u hu j
    simp [hmem, hu]
  refine ⟨?_, fun e => ?_, fun j hj e he => ?_, fun u hu => ?_, fun u hu => ?_, fun u hu => ?_, ?_⟩
  · rw [hlinks]
    exact h.rings.unlink_link_last hx (Set.mem_univ _)
  · rw [hmem, hcreated, h.all]
    constructor
    · rintro (⟨-, he⟩ | ⟨-, e⟩)
      · exact he
      · exact absurd e.symm hall
    · rintro ⟨h1, h2⟩
      exact .inl ⟨fun e => by simp [e] at h1, h1, h2⟩
  · rw [hcreated]
    rcases (hmem j e).mp he with ⟨-, he⟩ | ⟨rfl, -⟩
    · exact h.shedule j hj e he
    · exact ⟨rfl, h.lt_created hx⟩
  · by_cases e : u = t
    · subst e
      exact ⟨k, hall, (hself k).mpr rfl⟩
    · obtain ⟨j, hj, he⟩ := h.placed u (hcreated ▸ hu)
      exact ⟨j, hj, (hother u e j).mpr he⟩
  · by_cases e : u = t
    · subst e
      rw [hself, ht]
      rcases hk with rfl | rfl <;> decide
    · rw [hother u e, hstatus u e, h.running u (hcreated ▸ hu)]
  · by_cases e : u = t
    · subst e
      rw [hself, ht]
      rcases hk with rfl | rfl <;> decide
    · rw [hother u e, hstatus u e, h.interruptible u (hcreated ▸ hu)]
  · obtain ⟨c, hc, hcur, hout⟩ := h.current
    refine ⟨c, hcreated ▸ hc, hcurrent.trans hcur, ?_⟩
    by_cases e : c = t
    · subst e
      rw [hself]
      exact hexit.symm
    · rwa [hother c e]

theorem sameLinks (h : TasksLinked s L) (hlinks : s'.links = s.links)
    (hcreated : s'.created = s.created) (hcurrent : s'.current = s.current)
    (hstatus : ∀ u, (s'.task u).status = (s.task u).status) : TasksLinked s' L := by
  obtain ⟨h1, h2, h3, h4, h5, h6, h7⟩ := h
  refine ⟨?_, ?_, ?_, ?_, ?_, ?_, ?_⟩
  · rwa [hlinks]
  · rwa [hcreated]
  · rwa [hcreated]
  · rwa [hcreated]
  · intro u hu
    rw [hstatus, h5 u (hcreated ▸ hu)]
  · intro u hu
    rw [hstatus, h6 u (hcreated ▸ hu)]
  · rwa [hcreated, hcurrent]

end TasksLinked

theorem setTask_task (s : PcSys) (t : ℕ) (task : Task) (u : ℕ) :
    (s.setTask t task).task u = if u = t then task else s.task u :=
  Function.update_apply _ _ _ _

structure Undisturbed (s s' : PcSys) : Prop where
  created : s'.created = s.created
  current : s'.current = s.current
  mmCurrent : s'.mmCurrent = s.mmCurrent
  ptContext : s'.ptContext = s.ptContext
  context : ∀ t, (s'.task t).context = (s.task t).context
  mm : ∀ t, (s'.task t).mm = (s.task t).mm
  signals : ∀ t sig, (s'.task t).has sig = true → (s.task t).has sig = true

theorem Undisturbed.refl (s : PcSys) : Undisturbed s s :=
  ⟨rfl, rfl, rfl, rfl, fun _ => rfl, fun _ => rfl, fun _ _ h => h⟩

theorem Undisturbed.trans {s s' s'' : PcSys} (h : Undisturbed s s') (h' : Undisturbed s' s'') :
    Undisturbed s s'' where
  created := h'.created.trans h.created
  current := h'.current.trans h.current
  mmCurrent := h'.mmCurrent.trans h.mmCurrent
  ptContext := h'.ptContext.trans h.ptContext
  context t := (h'.context t).trans (h.context t)
  mm t := (h'.mm t).trans (h.mm t)
  signals t sig hs := h.signals t sig (h'.signals t sig hs)

theorem undisturbed_setTask {s s' : PcSys} {t : ℕ} {task : Task} {l : Links TaskNode}
    (hs : s' = ({ s with links := l } : PcSys).setTask t task)
    (hcontext : task.context = (s.task t).context) (hmm : task.mm = (s.task t).mm)
    (hsig : ∀ sig, task.has sig = true → (s.task t).has sig = true) : Undisturbed s s' := by
  subst hs
  refine ⟨rfl, rfl, rfl, rfl, fun u => ?_, fun u => ?_, fun u sig h => ?_⟩
  · by_cases e : u = t
    · subst e
      simpa [PcSys.setTask] using hcontext
    · simp [PcSys.setTask, e]
  · by_cases e : u = t
    · subst e
      simpa [PcSys.setTask] using hmm
    · simp [PcSys.setTask, e]
  · by_cases e : u = t
    · subst e
      exact hsig sig (by simpa [PcSys.setTask] using h)
    · simpa [PcSys.setTask, e] using h

section Steps

variable {s : PcSys} {L : TaskList → List (ListMember × ℕ)} {t c : ℕ}

theorem rotate_linked (h : TasksLinked s L) (hq : L .taskExitList = []) (hc : c < s.created) :
    ∃ L', TasksLinked (s.rotate c) L' ∧ L' .taskExitList = [] ∧
      L' .taskWaitList = L .taskWaitList ∧ ∀ j e, e ∈ L' j ↔ e ∈ L j := by
  rw [PcSys.rotate]
  split_ifs with hrun
  · have hx := (h.running c hc).mp hrun
    refine ⟨_, h.moved hx (.inr rfl) rfl rfl rfl (fun _ _ => rfl) hrun,
      relist_of_nil hq (by decide), relist_of_ne (by decide) (by decide), fun j e => ?_⟩
    rw [h.rings.mem_relist hx]
    constructor
    · rintro (⟨-, he⟩ | ⟨rfl, rfl⟩)
      · exact he
      · exact hx
    · intro he
      by_cases e' : e = (.nodeShedule, c)
      · subst e'
        exact .inr ⟨rfl, h.rings.disjoint _ _ _ he hx⟩
      · exact .inl ⟨e', he⟩
  · exact ⟨L, h, hq, rfl, fun _ _ => Iff.rfl⟩

theorem rotate_undisturbed (s : PcSys) (c : ℕ) : Undisturbed s (s.rotate c) := by
  rw [PcSys.rotate]
  split_ifs
  · exact ⟨rfl, rfl, rfl, rfl, fun _ => rfl, fun _ => rfl, fun _ _ h => h⟩
  · exact .refl s

theorem rotate_task (s : PcSys) (c : ℕ) : (s.rotate c).task = s.task := by
  rw [PcSys.rotate]
  split_ifs <;> rfl

theorem wait_undisturbed (s : PcSys) (hw : (s.task t).has .sigwait = true) :
    Undisturbed s (s.wait t) := by
  refine undisturbed_setTask rfl rfl rfl fun sig h => ?_
  rw [Task.has_xor rfl hw] at h
  exact (Bool.and_eq_true_iff.mp h).1

theorem wait_task_of_ne (s : PcSys) {u : ℕ} (hu : u ≠ t) : (s.wait t).task u = s.task u :=
  Function.update_of_ne hu _ _

theorem wake_undisturbed (s : PcSys) (hc : (s.task t).has .sigchild = true) :
    Undisturbed s (s.wake t) := by
  rw [PcSys.wake]
  split_ifs
  · refine undisturbed_setTask rfl rfl rfl fun sig h => ?_
    rw [Task.has_xor rfl hc] at h
    exact (Bool.and_eq_true_iff.mp h).1
  · exact .refl s

theorem wait_linked (h : TasksLinked s L) (hx : (.nodeShedule, t) ∈ L .taskScheduleList) :
    TasksLinked (s.wait t) (relist L .taskScheduleList .taskWaitList (.nodeShedule, t)) := by
  refine h.moved hx (.inl rfl) rfl rfl rfl (fun u hu => ?_) ?_
  · rw [wait_task_of_ne s hu]
  · simp [PcSys.wait, PcSys.setTask]

theorem wake_relinked (h : TasksLinked s L) (hx : (.nodeShedule, t) ∈ L .taskWaitList) :
    TasksLinked (s.wake t) (relist L .taskWaitList .taskScheduleList (.nodeShedule, t)) := by
  have hst := (h.interruptible t (h.lt_created hx)).mpr hx
  rw [PcSys.wake, if_pos hst]
  refine h.moved hx (.inr rfl) rfl rfl rfl (fun u hu => ?_) ?_
  · exact congrArg Task.status (Function.update_of_ne hu _ _)
  · simp [PcSys.setTask]

theorem wake_linked (h : TasksLinked s L) (hq : L .taskExitList = [])
    (hx : (.nodeShedule, t) ∈ L .taskWaitList) :
    ∃ L', TasksLinked (s.wake t) L' ∧ L' .taskExitList = [] ∧
      (.nodeShedule, t) ∈ L' .taskScheduleList :=
  ⟨_, wake_relinked h hx, relist_of_nil hq (by decide),
    (h.rings.mem_relist hx _ _).mpr (.inr ⟨rfl, rfl⟩)⟩

theorem scanWaiters_eq {a : TaskNode} {xs : List ℕ}
    (hp : Path s.links a (xs.map fun t => .inr (.nodeShedule, t)) (.inl .taskWaitList)) {fuel : ℕ}
    (hf : xs.length < fuel) : scanWaiters fuel (s.links.next a) s =
      match xs.find? s.flagged with
      | none => some (none, s)
      | some t => if (s.task t).has .sigstop then some (none, s.stop t)
          else some (some t, s.wake t) := by
  induction xs generalizing a fuel with
  | nil =>
    obtain ⟨fuel, rfl⟩ := Nat.exists_eq_succ_of_ne_zero (Nat.ne_of_gt hf)
    rw [scanWaiters, if_pos hp.1, List.find?_nil]
  | cons x xs ih =>
    obtain ⟨fuel, rfl⟩ := Nat.exists_eq_succ_of_ne_zero (Nat.ne_of_gt (Nat.zero_lt_of_lt hf))
    have hrest := ih hp.2 (Nat.lt_of_succ_lt_succ hf)
    rw [scanWaiters, hp.1.1, if_neg (by simp), containerOf_self]
    dsimp only [Option.bind_eq_bind, Option.bind_some]
    split_ifs with hz hs hc
    · rwa [List.find?_cons_of_neg (by simp [PcSys.flagged, Task.has_of_zero hz])]
    · rw [List.find?_cons_of_pos (by simp [PcSys.flagged, hs])]
      simp [hs]
    · rw [List.find?_cons_of_pos (by simp [PcSys.flagged, hc])]
      simp [hs]
    · rwa [List.find?_cons_of_neg (by simp [PcSys.flagged, hs, hc])]

theorem findRunnable_linked {xs : List ℕ} (h : TasksLinked s L) (hq : L .taskExitList = [])
    (hxs : L .taskScheduleList = xs.map fun t => (.nodeShedule, t))
    (ht : xs.find? s.picked = some t) (hs : (s.task t).has .sigstop = false) {fuel : ℕ}
    (hf : xs.length < fuel) : ∃ next f s' L', findRunnable fuel s = some (next, f, s') ∧
      Undisturbed s s' ∧ TasksLinked s' L' ∧ L' .taskExitList = [] ∧
        (.nodeShedule, next) ∈ L' .taskScheduleList := by
  induction xs generalizing s L fuel with
  | nil => simp at ht
  | cons x xs ih =>
    obtain ⟨fuel, rfl⟩ := Nat.exists_eq_succ_of_ne_zero (Nat.ne_of_gt (Nat.zero_lt_of_lt hf))
    have hx : (.nodeShedule, x) ∈ L .taskScheduleList := by simp [hxs]
    have hnext : s.links.next (.inl .taskScheduleList) = .inr (.nodeShedule, x) := by
      have hfirst := h.rings.first_eq (Set.mem_univ .taskScheduleList)
      rw [hxs] at hfirst
      exact Sum.getRight?_eq_some_iff.mp hfirst
    rw [findRunnable, hnext, containerOf_self]
    dsimp only [Option.bind_eq_bind, Option.bind_some]
    split_ifs with hz hstop hwait hchild hres
    · exact ⟨x, none, s, L, rfl, .refl s, h, hq, hx⟩
    · rw [List.find?_cons_of_pos (by simp [PcSys.picked, hstop])] at ht
      obtain rfl := Option.some.inj ht
      exact absurd hstop (by simp [hs])
    · rw [List.find?_cons_of_neg (by simpa [PcSys.picked, hstop] using hwait)] at ht
      have hnd : x ∉ xs := by
        have hnd := h.rings.nodup .taskScheduleList
        rw [hxs] at hnd
        exact fun e => (List.nodup_cons.mp hnd).1 (List.mem_map_of_mem e)
      have hne : ∀ u ∈ xs, u ≠ x := fun u hu e => hnd (e ▸ hu)
      have hsame : xs.find? (s.wait x).picked = some t := by
        rw [← ht]
        refine List.find?_congr fun u hu => ?_
        rw [PcSys.picked, PcSys.picked, wait_task_of_ne s (hne u hu)]
      have hrest : relist L .taskScheduleList .taskWaitList (.nodeShedule, x) .taskScheduleList =
          xs.map fun t => (.nodeShedule, t) :=
        relist_of_cons (by rw [hxs, List.map_cons]) (by decide)
      have hs' : ((s.wait x).task t).has .sigstop = false := by
        rwa [wait_task_of_ne s (hne t (List.mem_of_find?_eq_some ht))]
      obtain ⟨next, f, s', L', h1, h2, h3⟩ := ih (wait_linked h hx)
        (relist_of_nil hq (by decide)) hrest hsame hs' (Nat.lt_of_succ_lt_succ hf)
      exact ⟨next, f, s', L', h1, (wait_undisturbed s hwait).trans h2, h3⟩
    · have hrun := (h.running x (h.lt_created hx)).mpr hx
      have hwake : s.wake x = s := by simp [PcSys.wake, hrun]
      exact ⟨x, none, s, L, by rw [hwake], .refl s, h, hq, hx⟩
    · refine ⟨x, _, _, L, rfl, undisturbed_setTask rfl rfl rfl fun sig hsig => ?_,
        h.sameLinks rfl rfl rfl fun u => ?_, hq, hx⟩
      · rw [Task.has_xor rfl hres] at hsig
        exact (Bool.and_eq_true_iff.mp hsig).1
      · by_cases e : u = x
        · subst e
          simp [PcSys.setTask]
        · simp [PcSys.setTask, e]
    · exact ⟨x, none, s, L, rfl, .refl s, h, hq, hx⟩

theorem switchTo_of_ne (s : PcSys) {next : ℕ} (f : Option (BitVec 32)) (hne : next ≠ c) :
    switchTo c next f s =
      { s with
        task := Function.update s.task c { s.task c with context := s.ptContext }
        current := some next
        mmCurrent := if (s.task next).mm.isSome then (s.task next).mm else s.mmCurrent
        ptContext := (s.task next).context
        called := s.called ++ f.toList } := by
  simp only [switchTo, if_neg hne, copyContext_eq, PcSys.setTask, Function.update_of_ne hne]
  split_ifs <;> simp [PcSys.activateMemory, hne]

theorem switchTo_current (hc : s.current = some c) (t : ℕ) (f : Option (BitVec 32)) :
    (switchTo c t f s).current = some t := by
  by_cases hne : t = c
  · rw [switchTo, if_pos hne, hc, hne]
  · rw [switchTo_of_ne s f hne]

theorem switchTo_linked {next : ℕ} {f : Option (BitVec 32)} (h : TasksLinked s L)
    (hx : (.nodeShedule, next) ∈ L .taskScheduleList) : TasksLinked (switchTo c next f s) L := by
  by_cases hne : next = c
  · rwa [switchTo, if_pos hne]
  · have hstatus : ∀ u, (Function.update s.task c { s.task c with context := s.ptContext } u).status =
        (s.task u).status := by
      intro u
      by_cases e : u = c
      · subst e
        simp
      · simp [e]
    rw [switchTo_of_ne s f hne]
    refine ⟨h.rings, h.all, h.shedule, h.placed, fun u hu => ?_, fun u hu => ?_, ?_⟩
    · rw [hstatus, h.running u hu]
    · rw [hstatus, h.interruptible u hu]
    · exact ⟨next, h.lt_created hx, rfl, fun e => by simpa using h.rings.disjoint _ _ _ hx e⟩

theorem clearup_eq (h : TasksLinked s L) (hq : L .taskExitList = []) (fuel : ℕ) :
    clearup (fuel + 1) (s.links.next (.inl .taskExitList)) s = some s := by
  have hnext := (h.rings.next_eq_self (Set.mem_univ .taskExitList)).mpr hq
  rw [clearup, if_pos hnext]

theorem pcSchedule_linked (h : TasksLinked s L) (hq : L .taskExitList = [])
    (hc : s.current = some c) (hr : s.tickRuns = true) :
    ∃ m next f L', pcSchedule s = some (switchTo c next f m) ∧ Undisturbed s m ∧
      TasksLinked m L' ∧ L' .taskExitList = [] ∧ (.nodeShedule, next) ∈ L' .taskScheduleList := by
  have hlt : c < s.created := by
    obtain ⟨c', hc', hcur, -⟩ := h.current
    obtain rfl := Option.some.inj (hc.symm.trans hcur)
    exact hc'
  obtain ⟨L1, h1, hq1, -⟩ := rotate_linked h hq hlt
  have hu := rotate_undisturbed s c
  have hwaiters := h1.nodes_eq (by decide : TaskList.taskWaitList ≠ .taskList)
  have hpath := (h1.rings.ring .taskWaitList (Set.mem_univ _)).2
  rw [hwaiters, List.map_map] at hpath
  have hlen : ∀ list, ((L1 list).map Prod.snd).length < (s.rotate c).created + 1 := fun list => by
    rw [List.length_map]
    exact Nat.lt_succ_of_le h1.length_le
  have hscan := scanWaiters_eq hpath (hlen _)
  rw [PcSys.tickRuns, PcSys.rotated, hc] at hr
  dsimp only at hr
  rw [h1.tasksOn_eq (by decide), h1.tasksOn_eq (by decide)] at hr
  rw [pcSchedule, clearup_eq h hq]
  simp only [Option.bind_eq_bind, Option.bind_some, hc, hscan]
  cases hfind : ((L1 .taskWaitList).map Prod.snd).find? (s.rotate c).flagged with
  | some t =>
    simp only [hfind, Bool.not_eq_true'] at hr
    have hx : (.nodeShedule, t) ∈ L1 .taskWaitList := by
      rw [hwaiters]
      exact List.mem_map_of_mem (List.mem_of_find?_eq_some hfind)
    have hchild : ((s.rotate c).task t).has .sigchild = true := by
      have hflag := List.find?_some hfind
      rwa [PcSys.flagged, hr, Bool.false_or] at hflag
    obtain ⟨L2, h2, hq2, hx2⟩ := wake_linked h1 hq1 hx
    refine ⟨_, t, none, L2, ?_, hu.trans (wake_undisturbed _ hchild), h2, hq2, hx2⟩
    simp [hr]
  | none =>
    simp only [hfind] at hr
    obtain ⟨t, ht, hs⟩ := (Option.any_eq_true _ _).mp hr
    obtain ⟨next, f, m, L2, h2, hm, h3⟩ := findRunnable_linked h1 hq1 (h1.nodes_eq (by decide)) ht
      (by simpa using hs) (hlen _)
    refine ⟨m, next, f, L2, ?_, hu.trans hm, h3⟩
    simp [h2]

end Steps

end OurOS
