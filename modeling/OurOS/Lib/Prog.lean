import Mathlib.Order.Defs.Unbundled
import Mathlib.Tactic.Common

/-- A function over states `σ`: it is stuck (it never returns, or follows a bad pointer), or it
returns a value or an error code. -/
def Prog (σ ε α : Type) : Type := σ → Option (Except ε α × σ)

namespace Prog

variable {σ ε α β : Type}

def andThen (m : Prog σ ε α) (f : α → Prog σ ε β) : Prog σ ε β := fun s =>
  match m s with
  | none => none
  | some (.error e, t) => some (.error e, t)
  | some (.ok a, t) => f a t

instance : Monad (Prog σ ε) where
  pure a s := some (.ok a, s)
  bind := andThen

instance : LawfulMonad (Prog σ ε) :=
  LawfulMonad.mk' _
    (fun m => by
      funext s
      change andThen m pure s = m s
      rw [andThen]
      rcases m s with _ | ⟨_ | _, _⟩ <;> rfl)
    (fun _ _ => rfl)
    (fun m f g => by
      funext s
      change andThen (andThen m f) g s = andThen m (fun a => andThen (f a) g) s
      simp only [andThen]
      rcases m s with _ | ⟨_ | _, _⟩ <;> rfl)

def stuck : Prog σ ε α := fun _ => none

def throw (e : ε) : Prog σ ε α := fun s => some (.error e, s)

def ofExcept : Except ε α → Prog σ ε α
  | .ok a => pure a
  | .error e => throw e

def get : Prog σ ε σ := fun s => some (.ok s, s)

def modify (f : σ → σ) : Prog σ ε Unit := fun s => some (.ok (), f s)

def attempt (m : Prog σ ε α) : Prog σ ε (Except ε α) := fun s =>
  match m s with
  | none => none
  | some (r, t) => some (.ok r, t)

def exec (m : Prog σ ε α) (s : σ) : Option σ :=
  match m s with
  | some (.ok _, t) => some t
  | _ => none

def fromOption : Option α → Prog σ ε α
  | some a => pure a
  | none => stuck

def forEach (f : α → Prog σ ε Unit) : List α → Prog σ ε Unit
  | [] => pure ()
  | a :: as => do
    f a
    forEach f as

section Run

variable {m : Prog σ ε α} {f : α → Prog σ ε β} {s t u : σ} {a : α} {b : β} {e : ε}

@[simp] theorem pure_run (a : α) (s : σ) : (pure a : Prog σ ε α) s = some (.ok a, s) := rfl

@[simp] theorem throw_run (e : ε) (s : σ) : (throw e : Prog σ ε α) s = some (.error e, s) := rfl

@[simp] theorem stuck_run (s : σ) : (stuck : Prog σ ε α) s = none := rfl

@[simp] theorem get_run (s : σ) : (get : Prog σ ε σ) s = some (.ok s, s) := rfl

@[simp] theorem modify_run (f : σ → σ) (s : σ) :
    (modify f : Prog σ ε Unit) s = some (.ok (), f s) := rfl

theorem bind_ok (h : m s = some (.ok a, t)) : (m >>= f) s = f a t := by
  change andThen m f s = _
  rw [andThen, h]

theorem bind_error (h : m s = some (.error e, t)) : (m >>= f) s = some (.error e, t) := by
  change andThen m f s = _
  rw [andThen, h]

theorem bind_none (h : m s = none) : (m >>= f) s = none := by
  change andThen m f s = _
  rw [andThen, h]

@[simp] theorem pure_bind_run (a : α) (f : α → Prog σ ε β) (s : σ) : (pure a >>= f) s = f a s := rfl

@[simp] theorem get_bind_run (f : σ → Prog σ ε β) (s : σ) : (get >>= f) s = f s s := rfl

@[simp] theorem modify_bind_run (g : σ → σ) (f : Unit → Prog σ ε β) (s : σ) :
    (modify g >>= f) s = f () (g s) := rfl

@[simp] theorem stuck_bind_run (f : α → Prog σ ε β) (s : σ) : (stuck >>= f) s = none := rfl

@[simp] theorem throw_bind_run (e : ε) (f : α → Prog σ ε β) (s : σ) :
    (throw e >>= f) s = some (.error e, s) := rfl

theorem exec_eq (h : m s = some (.ok a, t)) : exec m s = some t := by
  rw [exec, h]

theorem attempt_run {r : Except ε α} (h : m s = some (r, t)) : attempt m s = some (.ok r, t) := by
  rw [attempt, h]

theorem attempt_cases {r : Except ε (Except ε α)} (h : attempt m s = some (r, t)) :
    ∃ r', r = .ok r' ∧ m s = some (r', t) := by
  rw [attempt] at h
  split at h
  · simp at h
  · rename_i r' t' hm
    simp only [Option.some.injEq, Prod.mk.injEq] at h
    exact ⟨r', h.1.symm, hm.trans (by rw [h.2])⟩

theorem bind_run_congr {m' : Prog σ ε α} (h : m s = m' s) : (m >>= f) s = (m' >>= f) s := by
  change andThen m f s = andThen m' f s
  rw [andThen, andThen, h]

theorem bind_run_congr_right {g : α → Prog σ ε β} (h : ∀ a t, m s = some (.ok a, t) → f a t = g a t) :
    (m >>= f) s = (m >>= g) s := by
  change andThen m f s = andThen m g s
  rw [andThen, andThen]
  split
  · rfl
  · rfl
  · exact h _ _ (by assumption)

theorem bind_cases {r : Except ε β} (h : (m >>= f) s = some (r, u)) :
    (∃ a t, m s = some (.ok a, t) ∧ f a t = some (r, u)) ∨
      ∃ e, m s = some (.error e, u) ∧ r = .error e := by
  cases hm : m s with
  | none =>
    rw [bind_none hm] at h
    simp at h
  | some p =>
    obtain ⟨_ | a, t⟩ := p
    · rw [bind_error hm] at h
      simp only [Option.some.injEq, Prod.mk.injEq] at h
      obtain ⟨h1, rfl⟩ := h
      exact .inr ⟨_, rfl, h1.symm⟩
    · rw [bind_ok hm] at h
      exact .inl ⟨a, t, rfl, h⟩

theorem bind_ok_cases (h : (m >>= f) s = some (.ok b, u)) :
    ∃ a t, m s = some (.ok a, t) ∧ f a t = some (.ok b, u) := by
  rcases bind_cases h with h | ⟨e, -, h⟩
  · exact h
  · simp at h

end Run

/-- A value that is not looked at does not matter. -/
theorem attempt_discard (m : Prog σ ε α) (g : α → β) {γ : Type} (k : Prog σ ε γ) :
    (attempt (m >>= fun a => pure (g a)) >>= fun _ => k) = (attempt m >>= fun _ => k) := by
  funext s
  rcases hm : m s with _ | ⟨e | a, t⟩
  · have hnone : attempt m s = none := by rw [attempt, hm]
    have hnone' : attempt (m >>= fun a => pure (g a)) s = none := by rw [attempt, bind_none hm]
    rw [bind_none hnone, bind_none hnone']
  · rw [bind_ok (attempt_run hm), bind_ok (attempt_run (bind_error hm))]
  · rw [bind_ok (attempt_run hm), bind_ok (attempt_run (bind_ok hm))]

theorem forEach_modify (f : α → σ → σ) (as : List α) (s : σ) :
    (forEach (fun a => modify (f a)) as : Prog σ ε Unit) s =
      some (.ok (), as.foldl (fun s a => f a s) s) := by
  induction as generalizing s with
  | nil => rfl
  | cons a as ih => rw [forEach, modify_bind_run, ih, List.foldl_cons]

def Keeps (R : σ → σ → Prop) (m : Prog σ ε α) : Prop := ∀ s r t, m s = some (r, t) → R s t

namespace Keeps

variable {R : σ → σ → Prop}

theorem mono {Q : σ → σ → Prop} {m : Prog σ ε α} (h : Keeps R m) (hq : ∀ s t, R s t → Q s t) :
    Keeps Q m := fun s r t hr => hq s t (h s r t hr)

theorem stuck : Keeps R (Prog.stuck : Prog σ ε α) := fun _ _ _ h => by simp at h

theorem modify {f : σ → σ} (h : ∀ s, R s (f s)) : Keeps R (Prog.modify f : Prog σ ε Unit) := by
  intro s r t hr
  simp only [modify_run, Option.some.injEq, Prod.mk.injEq] at hr
  obtain ⟨-, rfl⟩ := hr
  exact h s

theorem attempt {m : Prog σ ε α} (h : Keeps R m) : Keeps R (Prog.attempt m) := by
  intro s r t hr
  obtain ⟨r', -, hm⟩ := attempt_cases hr
  exact h s r' t hm

section Refl

variable [Std.Refl R]

theorem same {s t : σ} (h : s = t) : R s t := h ▸ refl s

theorem pure (a : α) : Keeps R (Pure.pure a : Prog σ ε α) := by
  intro s r t hr
  simp only [pure_run, Option.some.injEq, Prod.mk.injEq] at hr
  exact same hr.2

theorem throw (e : ε) : Keeps R (Prog.throw e : Prog σ ε α) := by
  intro s r t hr
  simp only [throw_run, Option.some.injEq, Prod.mk.injEq] at hr
  exact same hr.2

theorem get : Keeps R (Prog.get : Prog σ ε σ) := by
  intro s r t hr
  simp only [get_run, Option.some.injEq, Prod.mk.injEq] at hr
  exact same hr.2

theorem ofExcept : ∀ r : Except ε α, Keeps R (Prog.ofExcept r : Prog σ ε α)
  | .ok a => pure a
  | .error e => throw e

end Refl

theorem bind [IsTrans σ R] {m : Prog σ ε α} {f : α → Prog σ ε β} (hm : Keeps R m)
    (hf : ∀ a, Keeps R (f a)) : Keeps R (m >>= f) := by
  intro s r u hr
  rcases bind_cases hr with ⟨a, t, h1, h2⟩ | ⟨e, h1, -⟩
  · exact IsTrans.trans _ _ _ (hm s _ t h1) (hf a t r u h2)
  · exact hm s _ u h1

theorem forEach [Std.Refl R] [IsTrans σ R] {f : α → Prog σ ε Unit} (hf : ∀ a, Keeps R (f a)) :
    ∀ as : List α, Keeps R (Prog.forEach f as)
  | [] => pure ()
  | a :: as => bind (hf a) fun _ => forEach hf as

end Keeps

def Ensures (I : σ → Prop) (m : Prog σ ε α) (Q : α → Prop) : Prop :=
  ∀ s r t, I s → m s = some (r, t) → I t ∧ ∀ a, r = .ok a → Q a

abbrev Stays (I : σ → Prop) (m : Prog σ ε α) : Prop := Ensures I m fun _ => True

namespace Ensures

variable {I : σ → Prop} {Q : α → Prop} {P : β → Prop} {m : Prog σ ε α}

theorem mono {Q' : α → Prop} (h : Ensures I m Q) (hq : ∀ a, Q a → Q' a) : Ensures I m Q' :=
  fun s r t hs hr => (h s r t hs hr).imp_right fun h a ha => hq a (h a ha)

theorem stays (h : Ensures I m Q) : Stays I m := h.mono fun _ _ => trivial

theorem pure {a : α} (h : Q a) : Ensures I (Pure.pure a : Prog σ ε α) Q := by
  intro s r t hs hr
  cases hr
  exact ⟨hs, fun b hb => by cases hb; exact h⟩

theorem throw {e : ε} : Ensures I (Prog.throw e : Prog σ ε α) Q := by
  intro s r t hs hr
  cases hr
  exact ⟨hs, fun b hb => by cases hb⟩

theorem stuck : Ensures I (Prog.stuck : Prog σ ε α) Q := fun _ _ _ _ h => by simp at h

theorem get : Ensures I (Prog.get : Prog σ ε σ) I := by
  intro s r t hs hr
  cases hr
  exact ⟨hs, fun b hb => by cases hb; exact hs⟩

theorem modify {f : σ → σ} (h : ∀ s, I s → I (f s)) : Stays I (Prog.modify f : Prog σ ε Unit) := by
  intro s r t hs hr
  cases hr
  exact ⟨h s hs, fun _ _ => trivial⟩

theorem ofExcept {r : Except ε α} (h : ∀ a, r = .ok a → Q a) :
    Ensures I (Prog.ofExcept r : Prog σ ε α) Q := by
  cases r with
  | ok a => exact pure (h a rfl)
  | error e => exact throw

theorem attempt (h : Ensures I m Q) :
    Ensures I (Prog.attempt m) fun r => ∀ a, r = .ok a → Q a := by
  intro s r t hs hr
  obtain ⟨r', rfl, hm⟩ := attempt_cases hr
  obtain ⟨h1, h2⟩ := h s r' t hs hm
  refine ⟨h1, fun b hb => ?_⟩
  cases hb
  exact h2

theorem bind {f : α → Prog σ ε β} (hm : Ensures I m Q) (hf : ∀ a, Q a → Ensures I (f a) P) :
    Ensures I (m >>= f) P := by
  intro s r u hs hr
  rcases bind_cases hr with ⟨a, t, h1, h2⟩ | ⟨e, h1, rfl⟩
  · obtain ⟨h3, h4⟩ := hm s _ t hs h1
    exact hf a (h4 a rfl) t r u h3 h2
  · exact ⟨(hm s _ u hs h1).1, fun b hb => by cases hb⟩

theorem and {J : σ → Prop} (h : Ensures I m Q) (h' : Stays J m) :
    Ensures (fun s => I s ∧ J s) m Q := fun s r t hs hr =>
  ⟨⟨(h s r t hs.1 hr).1, (h' s r t hs.2 hr).1⟩, (h s r t hs.1 hr).2⟩

theorem forEach {f : α → Prog σ ε Unit} (as : List α) (hf : ∀ a ∈ as, Stays I (f a)) :
    Stays I (Prog.forEach f as) := by
  induction as with
  | nil => exact pure trivial
  | cons a as ih =>
    exact bind (hf a List.mem_cons_self) fun _ _ => ih fun b hb => hf b (List.mem_cons_of_mem _ hb)

end Ensures

end Prog
