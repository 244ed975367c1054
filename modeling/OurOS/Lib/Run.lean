import Mathlib.Data.List.Basic
import Mathlib.Tactic.Common

section Run

variable {σ α : Type}

def runOps (step : σ → α → Option σ) : σ → List α → Option σ
  | s, [] => some s
  | s, a :: as => (step s a).bind (runOps step · as)

theorem runOps_append (step : σ → α → Option σ) (s : σ) (as bs : List α) :
    runOps step s (as ++ bs) = (runOps step s as).bind (runOps step · bs) := by
  induction as generalizing s with
  | nil => rfl
  | cons a as ih =>
    simp only [List.cons_append, runOps]
    cases step s a with
    | none => rfl
    | some t => exact ih t

theorem runOps_invariant {step : σ → α → Option σ} {P : σ → Prop}
    (hstep : ∀ s a t, P s → step s a = some t → P t) {s t : σ} {as : List α}
    (hs : P s) (hr : runOps step s as = some t) : P t := by
  induction as generalizing s with
  | nil => obtain rfl := Option.some.inj hr; exact hs
  | cons a as ih =>
    obtain ⟨u, hu, ht⟩ := Option.bind_eq_some_iff.mp hr
    exact ih (hstep s a u hs hu) ht

def RunMeets (step : σ → α → Option σ) (C : σ → α → Prop) : σ → List α → Prop
  | _, [] => True
  | s, a :: as => C s a ∧ ∀ t, step s a = some t → RunMeets step C t as

instance RunMeets.decidable (step : σ → α → Option σ) (C : σ → α → Prop)
    [∀ s a, Decidable (C s a)] : ∀ s as, Decidable (RunMeets step C s as)
  | _, [] => .isTrue trivial
  | s, a :: as =>
    match h : step s a with
    | none => decidable_of_iff (C s a) (by simp [RunMeets, h])
    | some t =>
      haveI := RunMeets.decidable step C t as
      decidable_of_iff (C s a ∧ RunMeets step C t as) (by simp [RunMeets, h])

theorem runMeets_of_forall {step : σ → α → Option σ} {C : α → Prop} {as : List α}
    (h : ∀ a ∈ as, C a) (s : σ) : RunMeets step (fun _ a => C a) s as := by
  induction as generalizing s with
  | nil => trivial
  | cons a as ih =>
    exact ⟨h a List.mem_cons_self, fun t _ => ih (fun b hb => h b (List.mem_cons_of_mem a hb)) t⟩

theorem runMeets_mono {step : σ → α → Option σ} {C D : σ → α → Prop} (h : ∀ s a, C s a → D s a)
    {s : σ} {as : List α} (hc : RunMeets step C s as) : RunMeets step D s as := by
  induction as generalizing s with
  | nil => trivial
  | cons a as ih => exact ⟨h s a hc.1, fun t ht => ih (hc.2 t ht)⟩

theorem runMeets_and {step : σ → α → Option σ} {C D : σ → α → Prop} {s : σ} {as : List α}
    (hc : RunMeets step C s as) (hd : RunMeets step D s as) :
    RunMeets step (fun s a => C s a ∧ D s a) s as := by
  induction as generalizing s with
  | nil => trivial
  | cons a as ih => exact ⟨⟨hc.1, hd.1⟩, fun t ht => ih (hc.2 t ht) (hd.2 t ht)⟩

theorem runMeets_append {step : σ → α → Option σ} {C : σ → α → Prop} {s t : σ} {as bs : List α}
    (hc : RunMeets step C s (as ++ bs)) (hr : runOps step s as = some t) :
    RunMeets step C t bs := by
  induction as generalizing s with
  | nil =>
    obtain rfl := Option.some.inj hr
    exact hc
  | cons a as ih =>
    obtain ⟨u, hu, hr⟩ := Option.bind_eq_some_iff.mp hr
    exact ih (hc.2 u hu) hr

theorem runOps_invariant_of_meets {step : σ → α → Option σ} {C : σ → α → Prop} {P : σ → Prop}
    (hstep : ∀ s a t, P s → C s a → step s a = some t → P t) {s t : σ} {as : List α}
    (hs : P s) (hc : RunMeets step C s as) (hr : runOps step s as = some t) : P t := by
  induction as generalizing s with
  | nil => obtain rfl := Option.some.inj hr; exact hs
  | cons a as ih =>
    obtain ⟨u, hu, ht⟩ := Option.bind_eq_some_iff.mp hr
    exact ih (hstep s a u hs hc.1 hu) (hc.2 u hu) ht

theorem runOps_of_meets {step : σ → α → Option σ} {C : σ → α → Prop} {P : σ → Prop}
    (hstep : ∀ s a, P s → C s a → ∃ t, step s a = some t ∧ P t) {s : σ} {as : List α}
    (hs : P s) (hc : RunMeets step C s as) : ∃ t, runOps step s as = some t ∧ P t := by
  induction as generalizing s with
  | nil => exact ⟨s, rfl, hs⟩
  | cons a as ih =>
    obtain ⟨u, hu, hp⟩ := hstep s a hs hc.1
    obtain ⟨t, ht, hpt⟩ := ih hp (hc.2 u hu)
    exact ⟨t, Option.bind_eq_some_iff.mpr ⟨u, hu, ht⟩, hpt⟩

theorem runMeets_of_run {step : σ → α → Option σ} {C D : σ → α → Prop} {P : σ → Prop}
    (hstep : ∀ s a t, P s → D s a → step s a = some t → C s a ∧ P t) {s t : σ} {as : List α}
    (hs : P s) (hd : RunMeets step D s as) (hr : runOps step s as = some t) :
    RunMeets step C s as := by
  induction as generalizing s with
  | nil => trivial
  | cons a as ih =>
    obtain ⟨u, hu, hr⟩ := Option.bind_eq_some_iff.mp hr
    obtain ⟨hc, hp⟩ := hstep s a u hs hd.1 hu
    refine ⟨hc, fun u' hu' => ?_⟩
    obtain rfl := Option.some.inj (hu.symm.trans hu')
    exact ih hp (hd.2 u hu) hr

/-- Where every step of a run can be told by `C` to keep `P` or to break it, `P` holds along the run
iff all its steps meet `C`. -/
theorem runAlways_iff {step : σ → α → Option σ} {C : σ → α → Prop} {I P : σ → Prop}
    (hP : ∀ s, I s → P s) (hkeep : ∀ s a t, I s → C s a → step s a = some t → I t)
    (hbreak : ∀ s a t, I s → ¬ C s a → step s a = some t → ¬ P t) {s x : σ} {as : List α} (hs : I s)
    (hr : runOps step s as = some x) :
    (∀ k t, runOps step s (as.take k) = some t → P t) ↔ RunMeets step C s as := by
  induction as generalizing s with
  | nil =>
    refine ⟨fun _ => trivial, fun _ k t ht => ?_⟩
    rw [List.take_nil] at ht
    obtain rfl := Option.some.inj ht
    exact hP s hs
  | cons a as ih =>
    obtain ⟨u, hu, hr⟩ := Option.bind_eq_some_iff.mp hr
    constructor
    · intro h
      have hc : C s a := by
        by_contra hc
        refine hbreak s a u hs hc hu (h 1 u ?_)
        rw [List.take_succ_cons, List.take_zero, runOps, hu]
        rfl
      refine ⟨hc, fun t ht => ?_⟩
      obtain rfl := Option.some.inj (hu.symm.trans ht)
      refine (ih (hkeep s a u hs hc hu) hr).mp fun k t ht => h (k + 1) t ?_
      rw [List.take_succ_cons, runOps, hu]
      exact ht
    · rintro ⟨hc, hm⟩ k t ht
      cases k with
      | zero =>
        obtain rfl := Option.some.inj ht
        exact hP s hs
      | succ k =>
        rw [List.take_succ_cons, runOps, hu] at ht
        exact (ih (hkeep s a u hs hc hu) hr).mpr (hm u hu) k t ht

theorem runMeets_iff {step : σ → α → Option σ} {C D : σ → α → Prop} {I : σ → Prop} {A : α → Prop}
    (hiff : ∀ s a, I s → A a → (C s a ↔ D s a))
    (hkeep : ∀ s a t, I s → A a → D s a → step s a = some t → I t) {s : σ} {as : List α} (hs : I s)
    (ha : ∀ a ∈ as, A a) : RunMeets step C s as ↔ RunMeets step D s as := by
  induction as generalizing s with
  | nil => exact Iff.rfl
  | cons a as ih =>
    have ha' := ha a List.mem_cons_self
    have hrest : ∀ b ∈ as, A b := fun b hb => ha b (List.mem_cons_of_mem a hb)
    constructor
    · rintro ⟨hc, hm⟩
      have hd := (hiff s a hs ha').mp hc
      exact ⟨hd, fun t ht => (ih (hkeep s a t hs ha' hd ht) hrest).mp (hm t ht)⟩
    · rintro ⟨hd, hm⟩
      refine ⟨(hiff s a hs ha').mpr hd, fun t ht => ?_⟩
      exact (ih (hkeep s a t hs ha' hd ht) hrest).mpr (hm t ht)

theorem foldlM_invariant {f : σ → α → Option σ} {P : σ → Prop}
    (hstep : ∀ s a t, P s → f s a = some t → P t) {s t : σ} {as : List α} (hs : P s)
    (hr : as.foldlM f s = some t) : P t := by
  induction as generalizing s with
  | nil => obtain rfl := Option.some.inj hr; exact hs
  | cons a as ih =>
    obtain ⟨u, hu, ht⟩ := Option.bind_eq_some_iff.mp hr
    exact ih (hstep s a u hs hu) ht

theorem foldlM_range_spec {f : σ → ℕ → Option σ} {P : ℕ → σ → Prop} (n : ℕ)
    (hstep : ∀ i < n, ∀ s, P i s → ∃ t, f s i = some t ∧ P (i + 1) t) {s : σ} (hs : P 0 s) :
    ∃ t, (List.range n).foldlM f s = some t ∧ P n t := by
  induction n with
  | zero => exact ⟨s, rfl, hs⟩
  | succ n ih =>
    obtain ⟨t, ht, hp⟩ := ih fun i hi => hstep i (Nat.lt_succ_of_lt hi)
    obtain ⟨u, hu, hp'⟩ := hstep n (Nat.lt_succ_self n) t hp
    refine ⟨u, ?_, hp'⟩
    rw [List.range_succ, List.foldlM_append, ht]
    simpa using hu

end Run

section Outputs

variable {σ τ α β γ : Type}

def runOutputs (step : σ → α → Option (β × σ)) : σ → List α → Option (List β × σ)
  | s, [] => some ([], s)
  | s, a :: as => do
    let (b, t) ← step s a
    let (bs, u) ← runOutputs step t as
    pure (b :: bs, u)

def OutputsMeet (step : σ → α → Option (β × σ)) (C : σ → α → Prop) : σ → List α → Prop
  | _, [] => True
  | s, a :: as => C s a ∧ ∀ b t, step s a = some (b, t) → OutputsMeet step C t as

/-- Forward simulation: related states step to related states, with outputs that agree. -/
theorem runOutputs_simulates {step : σ → α → Option (β × σ)} {astep : τ → α → Option (γ × τ)}
    {C : σ → α → Prop} {R : τ → σ → Prop} {agree : γ → β → Prop}
    (hstep : ∀ x s a, R x s → C s a → ∃ c y b t, astep x a = some (c, y) ∧
      step s a = some (b, t) ∧ agree c b ∧ R y t) {x : τ} {s : σ} {as : List α}
    (hr : R x s) (hc : OutputsMeet step C s as) :
    ∃ cs y bs t, runOutputs astep x as = some (cs, y) ∧ runOutputs step s as = some (bs, t) ∧
      List.Forall₂ agree cs bs ∧ R y t := by
  induction as generalizing x s with
  | nil => exact ⟨[], x, [], s, rfl, rfl, .nil, hr⟩
  | cons a as ih =>
    obtain ⟨c, y, b, t, h1, h2, h3, h4⟩ := hstep x s a hr hc.1
    obtain ⟨cs, z, bs, u, h5, h6, h7, h8⟩ := ih h4 (hc.2 b t h2)
    refine ⟨c :: cs, z, b :: bs, u, ?_, ?_, .cons h3 h7, h8⟩
    · simp [runOutputs, h1, h5]
    · simp [runOutputs, h2, h6]

end Outputs
