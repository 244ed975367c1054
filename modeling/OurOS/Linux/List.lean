import OurOS.Lib.Links

set_option linter.style.nameCheck false

namespace OurOS

open Links

section

variable {κ ε : Type} [DecidableEq κ] [DecidableEq ε]

def initListHead (l : Links (κ ⊕ ε)) (list : κ ⊕ ε) : Links (κ ⊕ ε) := l.reset list

def __listAdd (l : Links (κ ⊕ ε)) (newNode prev next : κ ⊕ ε) : Links (κ ⊕ ε) :=
  l.link newNode prev next

def listAdd (l : Links (κ ⊕ ε)) (newNode head : κ ⊕ ε) : Links (κ ⊕ ε) :=
  __listAdd l newNode head (l.next head)

def listAddTail (l : Links (κ ⊕ ε)) (newNode head : κ ⊕ ε) : Links (κ ⊕ ε) :=
  __listAdd l newNode (l.prev head) head

def __listDel (l : Links (κ ⊕ ε)) (prev next : κ ⊕ ε) : Links (κ ⊕ ε) := l.unlink prev next

def listDel (l : Links (κ ⊕ ε)) (entry : κ ⊕ ε) : Links (κ ⊕ ε) :=
  __listDel l (l.prev entry) (l.next entry)

def listDelInit (l : Links (κ ⊕ ε)) (entry : κ ⊕ ε) : Links (κ ⊕ ε) :=
  initListHead (listDel l entry) entry

def listEmpty (l : Links (κ ⊕ ε)) (head : κ ⊕ ε) : Bool := decide (l.next head = head)

def listFirstEntry (l : Links (κ ⊕ ε)) (head : κ ⊕ ε) : Option ε := (l.next head).getRight?

def listLastEntry (l : Links (κ ⊕ ε)) (head : κ ⊕ ε) : Option ε := (l.prev head).getRight?

variable {H : Set κ} {l : Links (κ ⊕ ε)} {lists : κ → List ε}

theorem listAdd_rings (hr : Rings H l lists) {h : κ} (hh : h ∈ H) {x : ε}
    (hx : ∀ k, x ∉ lists k) :
    Rings H (listAdd l (.inr x) (.inl h)) (Function.update lists h (x :: lists h)) :=
  hr.link_first hh hx

theorem listAddTail_rings (hr : Rings H l lists) {h : κ} (hh : h ∈ H) {x : ε}
    (hx : ∀ k, x ∉ lists k) :
    Rings H (listAddTail l (.inr x) (.inl h)) (Function.update lists h (lists h ++ [x])) :=
  hr.link_last hh hx

theorem listDel_rings (hr : Rings H l lists) {h : κ} {x : ε} (hx : x ∈ lists h) :
    Rings H (listDel l (.inr x)) (Function.update lists h ((lists h).erase x)) :=
  hr.unlink hx

theorem listDelInit_rings (hr : Rings H l lists) {h : κ} {x : ε} (hx : x ∈ lists h) :
    Rings H (listDelInit l (.inr x)) (Function.update lists h ((lists h).erase x)) :=
  (hr.unlink hx).reset_entry (hr.not_mem_erase hx)

theorem listEmpty_iff (hr : Rings H l lists) {h : κ} (hh : h ∈ H) :
    listEmpty l (.inl h) = true ↔ lists h = [] := by
  simp [listEmpty, hr.next_eq_self hh]

omit [DecidableEq κ] [DecidableEq ε] in
theorem listFirstEntry_eq (hr : Rings H l lists) {h : κ} (hh : h ∈ H) :
    listFirstEntry l (.inl h) = (lists h).head? := hr.first_eq hh

omit [DecidableEq κ] [DecidableEq ε] in
theorem listLastEntry_eq (hr : Rings H l lists) {h : κ} (hh : h ∈ H) :
    listLastEntry l (.inl h) = (lists h).getLast? := hr.last_eq hh

omit [DecidableEq κ] [DecidableEq ε] in
theorem next_of_cons (hr : Rings H l lists) {h : κ} (hh : h ∈ H) {x : ε} {xs : List ε}
    (hx : lists h = x :: xs) : l.next (.inl h) = .inr x := by
  have h1 := hr.first_eq hh
  rw [hx, List.head?_cons] at h1
  exact Sum.getRight?_eq_some_iff.mp h1

omit [DecidableEq κ] [DecidableEq ε] in
theorem prev_of_getLast (hr : Rings H l lists) {h : κ} (hh : h ∈ H) {x : ε}
    (hx : (lists h).getLast? = some x) : l.prev (.inl h) = .inr x := by
  have h1 := hr.last_eq hh
  rw [hx] at h1
  exact Sum.getRight?_eq_some_iff.mp h1

theorem listMove_rings (hr : Rings H l lists) {h₀ h₁ : κ} {x : ε} (hx : x ∈ lists h₀)
    (hh : h₁ ∈ H) :
    ∃ lists', Rings H (listAdd (listDel l (.inr x)) (.inr x) (.inl h₁)) lists' ∧
      ∀ h y, y ∈ lists' h ↔ (y ≠ x ∧ y ∈ lists h) ∨ (y = x ∧ h = h₁) := by
  have h1 := listDel_rings hr hx
  have hout := hr.not_mem_erase hx
  refine ⟨_, listAdd_rings h1 hh hout, fun h y => ?_⟩
  have h2 := fun h => hr.mem_update_erase hx h y
  by_cases e : h = h₁
  · subst e
    rw [Function.update_self, List.mem_cons, h2]
    tauto
  · rw [Function.update_of_ne e, h2]
    tauto

end

end OurOS
