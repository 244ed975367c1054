import OurOS.Pc.TaskRun

namespace OurOS

open Links

structure ExitContent (s : PcSys) (L : TaskList → List (ListMember × ℕ)) (exits : List ℕ) :
    Prop where
  rings : Rings Set.univ s.links L
  exit : L .taskExitList = exits.map fun t => (.nodeShedule, t)
  node : ∀ t ∈ exits, (.node, t) ∈ L .taskList

def withoutExits (L : TaskList → List (ListMember × ℕ)) (exits : List ℕ) :
    TaskList → List (ListMember × ℕ)
  | .taskExitList => []
  | .taskList => (L .taskList).filter fun e => e.2 ∉ exits
  | list => L list

structure ClearedUp (s t : PcSys) (L : TaskList → List (ListMember × ℕ)) (exits : List ℕ) :
    Prop where
  rings : Rings Set.univ t.links (withoutExits L exits)
  task : t.task = s.task
  current : t.current = s.current

section Clearup

variable {s : PcSys} {L : TaskList → List (ListMember × ℕ)} {exits : List ℕ}

theorem ExitContent.empty_iff (h : ExitContent s L exits) :
    s.links.next (.inl .taskExitList) = .inl .taskExitList ↔ exits = [] := by
  rw [h.rings.next_eq_self (Set.mem_univ _), h.exit, List.map_eq_nil_iff]

theorem withoutExits_nil (h : ExitContent s L []) : withoutExits L [] = L := by
  funext list
  cases list with
  | taskList => simp [withoutExits]
  | taskWaitList => rfl
  | taskExitList => exact h.exit.symm
  | taskScheduleList => rfl

theorem clearup_returns_iff (h : ExitContent s L exits) :
    (∃ fuel t, clearup fuel (s.links.next (.inl .taskExitList)) s = some t ∧
      ClearedUp s t L exits) ↔ exits = [] := by
  constructor
  · rintro ⟨fuel, t, hr, -⟩
    by_contra hne
    rw [clearup_stuck (fun e => hne (h.empty_iff.mp e)) fuel s] at hr
    cases hr
  · rintro rfl
    refine ⟨1, s, ?_, ?_, rfl, rfl⟩
    · rw [h.empty_iff.mpr rfl, clearup, if_pos rfl]
    · rw [withoutExits_nil h]
      exact h.rings

theorem clearup_returns_blank : ∃ fuel t,
    clearup fuel (blankPc.links.next (.inl .taskExitList)) blankPc = some t ∧
      ∃ L, ClearedUp blankPc t L [] := by
  obtain ⟨L, h, hq⟩ := initPc_linked blankNodes blankTask none RegsContext.zero
  have hcontent : ExitContent blankPc L [] := ⟨h.rings, hq, by simp⟩
  obtain ⟨fuel, t, h1, h2⟩ := (clearup_returns_iff hcontent).mpr rfl
  exact ⟨fuel, t, h1, L, h2⟩

/-- With one task on the exit list the loop does not return. -/
theorem clearup_hangs : ¬ ∀ (s : PcSys) (L : TaskList → List (ListMember × ℕ)) (exits : List ℕ),
    ExitContent s L exits → ∃ fuel t,
      clearup fuel (s.links.next (.inl .taskExitList)) s = some t ∧ ClearedUp s t L exits := by
  intro hall
  obtain ⟨L, h, hq⟩ := initPc_linked blankNodes blankTask none RegsContext.zero
  obtain ⟨list, hl, hx⟩ := h.placed 0 Nat.one_pos
  have hne : list ≠ .taskExitList := by
    rintro rfl
    rw [hq] at hx
    cases hx
  have hcontent : ExitContent (blankPc.move 0 .taskExitList)
      (relist L list .taskExitList (.nodeShedule, 0)) [0] := by
    refine ⟨h.rings.unlink_link_last hx (Set.mem_univ _), ?_, fun t ht => ?_⟩
    · rw [relist, Function.update_self, Function.update_of_ne hne.symm, hq]
      rfl
    · obtain rfl := List.mem_singleton.mp ht
      exact (h.rings.mem_relist hx _ _).mpr (.inl ⟨by simp, (h.all _).mpr ⟨rfl, Nat.one_pos⟩⟩)
  obtain ⟨fuel, t, hr, -⟩ := hall _ _ _ hcontent
  have hnext := mt hcontent.empty_iff.mp (List.cons_ne_nil 0 [])
  rw [clearup_stuck hnext fuel] at hr
  cases hr

end Clearup

end OurOS
