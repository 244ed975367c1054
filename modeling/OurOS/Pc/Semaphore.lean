import Mathlib.Data.BitVec
import Mathlib.Data.Finset.Card
import Mathlib.Data.Finset.Range
import Mathlib.Data.List.Find
import OurOS.Lib.Run

namespace OurOS

def semMax : ℕ := 16

structure Semaphore where
  key : BitVec 32
  value : BitVec 32
deriving DecidableEq, Repr

abbrev SemTable : Type := ℕ → Semaphore

def initSem : SemTable := fun _ => ⟨0, 0⟩

/-- The result is `none` where the function ends without a `return`. -/
def getSem (key value : BitVec 32) (sem : SemTable) : SemTable × Option ℕ :=
  match (List.range semMax).find? fun i => (sem i).key == key with
  | some i => (sem, some i)
  | none =>
    match (List.range semMax).find? fun i => (sem i).key == 0 with
    | some i => (Function.update sem i ⟨key, value⟩, some i)
    | none => (sem, none)

/-- `P` where it does not wait. -/
def semP (i : ℕ) (sem : SemTable) : Option SemTable :=
  if (0#32).slt (sem i).value then
    some (Function.update sem i { sem i with value := (sem i).value - 1 })
  else none

def semV (i : ℕ) (sem : SemTable) : SemTable :=
  Function.update sem i { sem i with value := (sem i).value + 1 }

inductive SemOp
  | getSem (key value : BitVec 32)
  | P (i : ℕ)
  | V (i : ℕ)
deriving DecidableEq, Repr

def SemOp.key : SemOp → Option (BitVec 32)
  | .getSem key _ => some key
  | _ => none

/-- `slots` has the slot that the first call for each key returned, and `handles` the slots that
`P` and `V` can be called with. -/
structure SemRun where
  sem : SemTable
  slots : BitVec 32 → Option ℕ
  handles : List ℕ

def SemRun.call (r : SemRun) (key value : BitVec 32) : SemRun :=
  let res := getSem key value r.sem
  { sem := res.1
    slots := if (r.slots key).isNone then Function.update r.slots key res.2 else r.slots
    handles := res.2.toList ++ r.handles }

def semStep (r : SemRun) : SemOp → Option SemRun
  | .getSem key value => some (r.call key value)
  | .P i => if i ∈ r.handles then (semP i r.sem).map fun sem => { r with sem := sem } else none
  | .V i => if i ∈ r.handles then some { r with sem := semV i r.sem } else none

def semStart : SemRun := ⟨initSem, fun _ => none, []⟩

def SemMeets (r : SemRun) : SemOp → Prop
  | .getSem key value =>
    let res := getSem key value r.sem
    match r.slots key with
    | some i => res.2 = some i ∧ (res.1 i).value = (r.sem i).value
    | none => ∃ i, res.2 = some i ∧ (∀ other, r.slots other ≠ some i) ∧ (res.1 i).value = value
  | _ => True

/-- The first call for the key 0 passes the value 0, and no key comes after it for the first time. -/
def SemSafe (r : SemRun) : SemOp → Prop
  | .getSem key value => r.slots key = none →
    (key = 0 → value = 0) ∧ (key ≠ 0 → r.slots 0 = none)
  | _ => True

instance (r : SemRun) : ∀ op, Decidable (SemSafe r op)
  | .getSem _ _ => inferInstanceAs (Decidable (_ → _ ∧ _))
  | .P _ => .isTrue trivial
  | .V _ => .isTrue trivial

def firstKey (sem : SemTable) (key : BitVec 32) : Option ℕ :=
  (List.range semMax).find? fun i => (sem i).key == key

/-- The slot of a key holds it, but for the key 0, whose slot is the first free one. `keys` are those
of the whole run. -/
structure SemInv (keys : Finset (BitVec 32)) (r : SemRun) : Prop where
  card : keys.card ≤ semMax
  mem : ∀ key, r.slots key ≠ none → key ∈ keys
  slot : ∀ key ≠ 0, r.slots key = firstKey r.sem key
  zero : ∀ i, r.slots 0 = some i → firstKey r.sem 0 = some i
  unique : ∀ i < semMax, ∀ j < semMax, (r.sem i).key = (r.sem j).key → (r.sem i).key ≠ 0 → i = j
  fresh : r.slots 0 = none → ∀ i < semMax, (r.sem i).key = 0 → (r.sem i).value = 0
  handles : ∀ i ∈ r.handles, ∃ key, r.slots key = some i

section First

variable {sem : SemTable} {key value : BitVec 32} {i : ℕ}

theorem firstKey_some (h : firstKey sem key = some i) : i < semMax ∧ (sem i).key = key :=
  ⟨List.mem_range.mp (List.mem_of_find?_eq_some h), by simpa using List.find?_some h⟩

theorem firstKey_none : firstKey sem key = none ↔ ∀ i < semMax, (sem i).key ≠ key := by
  simp [firstKey]

theorem getSem_some (h : firstKey sem key = some i) : getSem key value sem = (sem, some i) := by
  rw [firstKey] at h
  rw [getSem, h]

theorem getSem_new (h : firstKey sem key = none) (hf : firstKey sem 0 = some i) :
    getSem key value sem = (Function.update sem i ⟨key, value⟩, some i) := by
  rw [firstKey] at h hf
  rw [getSem, h]
  simp only [hf]

theorem firstKey_congr {sem' : SemTable} (h : ∀ i, (sem' i).key = (sem i).key) (key : BitVec 32) :
    firstKey sem' key = firstKey sem key := by
  simp only [firstKey, h]

end First

section Step

variable {keys : Finset (BitVec 32)} {r t : SemRun} {key value : BitVec 32} {i : ℕ}

theorem SemInv.free (h : SemInv keys r) (hk : key ∈ keys) (hn : r.slots key = none) :
    ∃ i, firstKey r.sem 0 = some i := by
  by_contra hnone
  have hall : ∀ i < semMax, (r.sem i).key ≠ 0 :=
    firstKey_none.mp (Option.eq_none_iff_forall_not_mem.mpr fun i hi => hnone ⟨i, hi⟩)
  have hmaps : ∀ i ∈ Finset.range semMax, (r.sem i).key ∈ keys.erase key := by
    intro i hi
    have hlt := Finset.mem_range.mp hi
    have hslot := h.slot _ (hall i hlt)
    have hsome : firstKey r.sem (r.sem i).key ≠ none := fun e => firstKey_none.mp e i hlt rfl
    refine Finset.mem_erase.mpr ⟨fun e => hsome ?_, h.mem _ (hslot ▸ hsome)⟩
    rw [← hslot, e, hn]
  have hinj : Set.InjOn (fun i => (r.sem i).key) (Finset.range semMax) := by
    intro i hi j hj e
    have hlt := Finset.mem_range.mp (Finset.mem_coe.mp hi)
    exact h.unique i hlt j (Finset.mem_range.mp (Finset.mem_coe.mp hj)) e (hall i hlt)
  have hle := Finset.card_le_card_of_injOn _ hmaps hinj
  have hlt := Finset.card_erase_lt_of_mem hk
  have hcard := h.card
  rw [Finset.card_range] at hle
  omega

theorem SemInv.slot_key (h : SemInv keys r) (hs : r.slots key = some i) :
    i < semMax ∧ (r.sem i).key = key := by
  by_cases hk : key = 0
  · subst hk
    exact firstKey_some (h.zero i hs)
  · exact firstKey_some ((h.slot key hk).symm.trans hs)

theorem SemInv.known (h : SemInv keys r) (hs : r.slots key = some i) (value : BitVec 32) :
    getSem key value r.sem = (r.sem, some i) := by
  refine getSem_some ?_
  by_cases hk : key = 0
  · subst hk
    exact h.zero i hs
  · exact (h.slot key hk).symm.trans hs

theorem SemInv.meets_iff (h : SemInv keys r) (hk : key ∈ keys) (value : BitVec 32) :
    SemMeets r (.getSem key value) ↔ SemSafe r (.getSem key value) := by
  rw [SemMeets, SemSafe]
  cases hs : r.slots key with
  | some i => simp [h.known hs value]
  | none =>
    obtain ⟨i, hi⟩ := h.free hk hs
    obtain ⟨hlt, hkey⟩ := firstKey_some hi
    by_cases hz : key = 0
    · subst hz
      have hother : ∀ other, r.slots other ≠ some i := by
        intro other ho
        obtain rfl : other = 0 := (h.slot_key ho).2.symm.trans hkey
        rw [hs] at ho
        cases ho
      have hvalue := h.fresh hs i hlt hkey
      simp only [getSem_some hi]
      constructor
      · rintro ⟨j, hj, -, rfl⟩ -
        obtain rfl := Option.some.inj hj
        exact ⟨fun _ => hvalue, fun hne => absurd rfl hne⟩
      · intro hc
        exact ⟨i, rfl, hother, hvalue.trans ((hc trivial).1 trivial).symm⟩
    · simp only [getSem_new ((h.slot key hz).symm.trans hs) hi]
      constructor
      · rintro ⟨j, hj, hother, -⟩ -
        obtain rfl := Option.some.inj hj
        refine ⟨fun e => absurd e hz, fun _ => ?_⟩
        by_contra hne
        obtain ⟨m, hm⟩ := Option.ne_none_iff_exists'.mp hne
        obtain rfl := Option.some.inj (hi.symm.trans (h.zero m hm))
        exact hother 0 hm
      · intro hc
        have hzero := (hc trivial).2 hz
        refine ⟨i, rfl, fun other ho => ?_, by rw [Function.update_self]⟩
        obtain rfl : other = 0 := (h.slot_key ho).2.symm.trans hkey
        rw [hzero] at ho
        cases ho

theorem firstKey_update (hi : firstKey r.sem 0 = some i) (hn : firstKey r.sem key = none)
    {other : BitVec 32} (ho : other ≠ 0) :
    firstKey (Function.update r.sem i ⟨key, value⟩) other =
      if other = key then some i else firstKey r.sem other := by
  obtain ⟨hlt, hkey⟩ := firstKey_some hi
  rw [firstKey_none] at hn
  have hkeys : ∀ j, (Function.update r.sem i ⟨key, value⟩ j).key =
      if j = i then key else (r.sem j).key := by
    intro j
    rw [Function.update_apply]
    exact apply_ite Semaphore.key _ _ _
  split_ifs with e
  · subst e
    have hsome : firstKey (Function.update r.sem i ⟨other, value⟩) other ≠ none := fun h =>
      firstKey_none.mp h i hlt (by rw [Function.update_self])
    obtain ⟨j, hj⟩ := Option.ne_none_iff_exists'.mp hsome
    obtain ⟨hjlt, hjkey⟩ := firstKey_some hj
    rw [hj]
    by_contra hne
    rw [hkeys, if_neg fun e => hne (congrArg some e)] at hjkey
    exact hn j hjlt hjkey
  · refine List.find?_congr fun j _ => ?_
    rw [hkeys]
    by_cases h : j = i
    · rw [if_pos h, h, hkey]
      exact (beq_eq_false_iff_ne.mpr (Ne.symm e)).trans (beq_eq_false_iff_ne.mpr ho.symm).symm
    · rw [if_neg h]

theorem SemInv.getSem (h : SemInv keys r) (hk : key ∈ keys)
    (hc : SemSafe r (.getSem key value)) : SemInv keys (r.call key value) := by
  cases hs : r.slots key with
  | some i =>
    have hcall : r.call key value = { r with handles := i :: r.handles } := by
      simp [SemRun.call, h.known hs value, hs]
    rw [hcall]
    refine ⟨h.card, h.mem, h.slot, h.zero, h.unique, h.fresh, fun j hj => ?_⟩
    rcases List.mem_cons.mp hj with rfl | hj
    · exact ⟨key, hs⟩
    · exact h.handles j hj
  | none =>
    obtain ⟨i, hi⟩ := h.free hk hs
    obtain ⟨hlt, hkey⟩ := firstKey_some hi
    have hslots : ∀ other, Function.update r.slots key (some i) other =
        if other = key then some i else r.slots other := Function.update_apply _ _ _
    have hmem : ∀ other, Function.update r.slots key (some i) other ≠ none → other ∈ keys := by
      intro other ho
      rw [hslots] at ho
      split_ifs at ho with e
      · exact e ▸ hk
      · exact h.mem other ho
    have hhandles : ∀ j ∈ i :: r.handles, ∃ other,
        Function.update r.slots key (some i) other = some j := by
      intro j hj
      rcases List.mem_cons.mp hj with rfl | hj
      · exact ⟨key, Function.update_self ..⟩
      · obtain ⟨other, ho⟩ := h.handles j hj
        have hne : other ≠ key := fun e => by simp [e, hs] at ho
        exact ⟨other, (Function.update_of_ne hne _ _).trans ho⟩
    by_cases hz : key = 0
    · subst hz
      have hcall : r.call 0 value =
          ⟨r.sem, Function.update r.slots 0 (some i), i :: r.handles⟩ := by
        rw [SemRun.call, getSem_some hi, hs]
        rfl
      have hself : Function.update r.slots 0 (some i) 0 = some i := Function.update_self ..
      rw [hcall]
      refine ⟨h.card, hmem, fun other ho => ?_, fun j hj => ?_, h.unique, fun hn => ?_, hhandles⟩
      · exact (Function.update_of_ne ho _ _).trans (h.slot other ho)
      · obtain rfl := Option.some.inj (hself.symm.trans hj)
        exact hi
      · cases hself.symm.trans hn
    · have hnone : firstKey r.sem key = none := (h.slot key hz).symm.trans hs
      have hcall : r.call key value = ⟨Function.update r.sem i ⟨key, value⟩,
          Function.update r.slots key (some i), i :: r.handles⟩ := by
        rw [SemRun.call, getSem_new hnone hi, hs]
        rfl
      have hzero : Function.update r.slots key (some i) 0 = none :=
        (Function.update_of_ne (Ne.symm hz) _ _).trans ((hc hs).2 hz)
      have hother : ∀ j, j ≠ i → Function.update r.sem i ⟨key, value⟩ j = r.sem j := fun j hj =>
        Function.update_of_ne hj _ _
      rw [firstKey_none] at hnone
      rw [hcall]
      refine ⟨h.card, hmem, fun other ho => ?_, fun j hj => ?_, fun j hj m hm e hne => ?_,
        fun _ j hj hjk => ?_, hhandles⟩
      · rw [firstKey_update hi (firstKey_none.mpr hnone) ho, ← h.slot other ho]
        exact hslots other
      · cases hzero.symm.trans hj
      · dsimp only at e hne
        by_cases e1 : j = i
        · by_cases e2 : m = i
          · rw [e1, e2]
          · rw [e1, Function.update_self, hother m e2] at e
            exact absurd e.symm (hnone m hm)
        · by_cases e2 : m = i
          · rw [e2, Function.update_self, hother j e1] at e
            exact absurd e (hnone j hj)
          · rw [hother j e1, hother m e2] at e
            rw [hother j e1] at hne
            exact h.unique j hj m hm e hne
      · dsimp only at hjk ⊢
        by_cases e : j = i
        · rw [e, Function.update_self] at hjk
          exact absurd hjk hz
        · rw [hother j e] at hjk ⊢
          exact h.fresh ((hc hs).2 hz) j hj hjk

theorem SemInv.setValue (h : SemInv keys r) (hi : i ∈ r.handles) (value : BitVec 32) :
    SemInv keys { r with sem := Function.update r.sem i { r.sem i with value := value } } := by
  have hkeys : ∀ j, (Function.update r.sem i { r.sem i with value := value } j).key =
      (r.sem j).key := by
    intro j
    by_cases e : j = i
    · rw [e, Function.update_self]
    · rw [Function.update_of_ne e]
  refine ⟨h.card, h.mem, fun other ho => ?_, fun j hj => ?_, fun j hj m hm e hne => ?_,
    fun hn j hj hjk => ?_, h.handles⟩
  · rw [firstKey_congr hkeys]
    exact h.slot other ho
  · rw [firstKey_congr hkeys]
    exact h.zero j hj
  · rw [hkeys, hkeys] at e
    rw [hkeys] at hne
    exact h.unique j hj m hm e hne
  · rw [hkeys] at hjk
    obtain ⟨other, ho⟩ := h.handles i hi
    by_cases e : j = i
    · subst e
      obtain rfl : other = 0 := (h.slot_key ho).2.symm.trans hjk
      cases hn.symm.trans ho
    · refine (congrArg Semaphore.value (Function.update_of_ne e _ _)).trans ?_
      exact h.fresh hn j hj hjk

theorem semStep_inv (h : SemInv keys r) {op : SemOp} (hk : ∀ key ∈ op.key, key ∈ keys)
    (hc : SemSafe r op) (hs : semStep r op = some t) : SemInv keys t := by
  cases op with
  | getSem key value =>
    obtain rfl := Option.some.inj hs
    exact h.getSem (hk key rfl) hc
  | P i =>
    rw [semStep] at hs
    split_ifs at hs with hi
    obtain ⟨sem, hp, rfl⟩ := Option.map_eq_some_iff.mp hs
    rw [semP] at hp
    split_ifs at hp
    obtain rfl := Option.some.inj hp
    exact h.setValue hi _
  | V i =>
    rw [semStep] at hs
    split_ifs at hs with hi
    obtain rfl := Option.some.inj hs
    exact h.setValue hi _

theorem semStart_inv (hc : keys.card ≤ semMax) : SemInv keys semStart where
  card := hc
  mem _ h := absurd rfl h
  slot key hk := (firstKey_none.mpr fun _ _ => hk.symm).symm
  zero _ h := by cases h
  unique _ _ _ _ _ h := absurd rfl h
  fresh _ _ _ _ := rfl
  handles _ h := by cases h

theorem semStep_meets (h : SemInv keys r) {op : SemOp} (hk : ∀ key ∈ op.key, key ∈ keys) :
    SemMeets r op ↔ SemSafe r op := by
  cases op with
  | getSem key value => exact h.meets_iff (hk key rfl) value
  | P i => exact Iff.rfl
  | V i => exact Iff.rfl

end Step

theorem semRun_meets_iff (ops : List SemOp)
    (hk : (ops.filterMap SemOp.key).toFinset.card ≤ semMax) :
    RunMeets semStep SemMeets semStart ops ↔ RunMeets semStep SemSafe semStart ops := by
  refine runMeets_iff (A := fun op => ∀ key ∈ op.key, key ∈ (ops.filterMap SemOp.key).toFinset)
    (fun _ _ h hop => semStep_meets h hop) (fun _ _ _ h hop => semStep_inv h hop) (semStart_inv hk)
    fun op hop key hkey => ?_
  exact List.mem_toFinset.mpr (List.mem_filterMap.mpr ⟨op, hop, hkey⟩)

theorem semRun_meets_small : RunMeets semStep SemMeets semStart
    [.getSem 3 1, .getSem 5 0, .P 0, .getSem 3 7, .V 1, .getSem 0 0, .getSem 5 2] :=
  (semRun_meets_iff _ (by decide)).mpr (by decide +kernel)

/-- The key 0 gets the first free slot, and so does the next key. -/
theorem semRun_shared : ¬ ∀ ops : List SemOp, (ops.filterMap SemOp.key).toFinset.card ≤ semMax →
    RunMeets semStep SemMeets semStart ops := by
  intro hall
  have hrun := hall [.getSem 0 0, .getSem 3 1] (by decide)
  obtain ⟨i, hi, hother, -⟩ := (hrun.2 (semStart.call 0 0) rfl).1
  obtain rfl := Option.some.inj hi
  exact hother 0 rfl

end OurOS
