import Mathlib.Order.Bounds.Basic
import OurOS.Fs.Volume

namespace OurOS.Fs

def tableEntries (fatSecsize : ℕ) : ℕ := fatSecsize * (sectorSize / 4)

/-- The indices whose entries `find_free_clu` reads. -/
inductive SearchReads (env : FsEnv) (fatBaseSec : ℕ) : ℕ → FsSys → ℕ → Prop
  | first (freeIdx : ℕ) (s : FsSys) : SearchReads env fatBaseSec freeIdx s freeIdx
  | next {freeIdx fatValue idx : ℕ} {s t : FsSys} :
      readFat env fatBaseSec freeIdx s = some (.ok fatValue, t) → isErrValue fatValue = false →
      fatValue ≠ fatItemFree → SearchReads env fatBaseSec ((freeIdx + 1) % uintRange) t idx →
      SearchReads env fatBaseSec freeIdx s idx

def freeFrom (b : SuperBlock) (s : FsSys) (n start : ℕ) : Set ℕ :=
  {c | start ≤ c ∧ c < n ∧ fatOf b s.sd c = fatItemFree}

structure FindsFree (env : FsEnv) (b : SuperBlock) (fatSecsize start : ℕ) (s : FsSys) : Prop where
  result : ∃ r t, findFreeClu env b.infoFatSec start s = some (.ok r, t) ∧
    (IsLeast (freeFrom b s (tableEntries fatSecsize) start) r ∨
      isErrValue r ∧ freeFrom b s (tableEntries fatSecsize) start = ∅)
  inside : ∀ idx, SearchReads env b.infoFatSec start s idx → idx < tableEntries fatSecsize

/-- What the read number `k` of the search gives, where the reads before it have succeeded. -/
def searchValue (env : FsEnv) (b : SuperBlock) (s : FsSys) (start k : ℕ) : ℕ :=
  readValue env b s.sd (s.brk + k) (s.sd.accesses + k) (start + k)

def Halts (fatValue : ℕ) : Prop := isErrValue fatValue ∨ fatValue = fatItemFree

/-- The first entry at which the search halts is inside the table, and it is free, or no entry from
the start on is. -/
def HaltsInside (env : FsEnv) (b : SuperBlock) (fatSecsize start : ℕ) (s : FsSys) : Prop :=
  ∃ k, start + k < tableEntries fatSecsize ∧ (∀ j < k, ¬ Halts (searchValue env b s start j)) ∧
    (searchValue env b s start k = fatItemFree ∨
      isErrValue (searchValue env b s start k) ∧
        freeFrom b s (tableEntries fatSecsize) start = ∅)

section Search

variable {env : FsEnv} {b : SuperBlock} {s : FsSys} {start k fuel : ℕ}

theorem not_halts {v : ℕ} (h : ¬ Halts v) : isErrValue v = false ∧ v ≠ fatItemFree := by
  obtain ⟨h1, h2⟩ := not_or.mp h
  exact ⟨by simpa using h1, h2⟩

variable (env b s start) in
theorem readFat_search : ∃ t, readFat env b.infoFatSec start s =
      some (.ok (searchValue env b s start 0), t) ∧
    (isErrValue (searchValue env b s start 0) = false →
      ∀ k, searchValue env b t (start + 1) k = searchValue env b s start (k + 1)) := by
  obtain ⟨t, hread, hnext⟩ := readFat_value env b s start
  refine ⟨t, hread, fun h k => ?_⟩
  obtain rfl := hnext h
  change readValue env b s.sd (s.brk + 1 + k) (s.sd.accesses + 1 + k) (start + 1 + k) = _
  rw [searchValue, Nat.add_assoc, Nat.add_assoc, Nat.add_assoc, Nat.add_comm 1 k]

theorem searchReads_pass (h : ∀ j < k, ¬ Halts (searchValue env b s start j))
    (hlt : start + k < uintRange) : SearchReads env b.infoFatSec start s (start + k) := by
  induction k generalizing start s with
  | zero => exact .first start s
  | succ k ih =>
    obtain ⟨t, hread, hnext⟩ := readFat_search env b s start
    obtain ⟨h1, h2⟩ := not_halts (h 0 (Nat.succ_pos k))
    refine .next hread h1 h2 ?_
    rw [Nat.mod_eq_of_lt (by omega), show start + (k + 1) = start + 1 + k by omega]
    refine ih (fun j hj => ?_) (by omega)
    rw [hnext h1]
    exact h (j + 1) (by omega)

theorem findFreeCluFrom_halts (h : ∀ j < k, ¬ Halts (searchValue env b s start j))
    (hk : Halts (searchValue env b s start k)) (hlt : start + k < uintRange) (hf : k < fuel) :
    (∃ t, findFreeCluFrom env b.infoFatSec fuel start s =
      some (.ok (if isErrValue (searchValue env b s start k) then searchValue env b s start k
        else start + k), t)) ∧
    ∀ idx, SearchReads env b.infoFatSec start s idx → idx ≤ start + k := by
  induction k generalizing start s fuel with
  | zero =>
    obtain ⟨fuel, rfl⟩ := Nat.exists_eq_succ_of_ne_zero (Nat.ne_of_gt hf)
    obtain ⟨t, hread, -⟩ := readFat_search env b s start
    refine ⟨⟨t, ?_⟩, fun idx hidx => ?_⟩
    · rw [findFreeCluFrom, Prog.bind_ok hread]
      split_ifs with h1 h2
      · rfl
      · rfl
      · exact absurd hk (not_or.mpr ⟨h1, h2⟩)
    · cases hidx with
      | first => exact le_rfl
      | next hr he hne _ =>
        obtain ⟨rfl, rfl⟩ : searchValue env b s start 0 = _ ∧ t = _ := by
          simpa using hread.symm.trans hr
        rcases hk with hk | hk
        · simp [he] at hk
        · exact absurd hk hne
  | succ k ih =>
    obtain ⟨fuel, rfl⟩ := Nat.exists_eq_succ_of_ne_zero (Nat.ne_of_gt (Nat.zero_lt_of_lt hf))
    obtain ⟨t, hread, hnext⟩ := readFat_search env b s start
    obtain ⟨h1, h2⟩ := not_halts (h 0 (Nat.succ_pos k))
    have hnext := hnext h1
    have hmod : (start + 1) % uintRange = start + 1 := Nat.mod_eq_of_lt (by omega)
    have hbefore : ∀ j < k, ¬ Halts (searchValue env b t (start + 1) j) := by
      intro j hj
      rw [hnext]
      exact h (j + 1) (by omega)
    have hhalt : Halts (searchValue env b t (start + 1) k) := by
      rw [hnext]
      exact hk
    obtain ⟨⟨u, hrun⟩, hreads⟩ := ih hbefore hhalt (by omega) (show k < fuel by omega)
    rw [hnext] at hrun
    refine ⟨⟨u, ?_⟩, fun idx hidx => ?_⟩
    · rw [findFreeCluFrom, Prog.bind_ok hread, h1, if_neg Bool.false_ne_true, if_neg h2, hmod, hrun,
        show start + 1 + k = start + (k + 1) by omega]
    · cases hidx with
      | first => omega
      | next hr he hne hrest =>
        obtain ⟨rfl, rfl⟩ : searchValue env b s start 0 = _ ∧ t = _ := by
          simpa using hread.symm.trans hr
        rw [hmod] at hrest
        have := hreads idx hrest
        omega

theorem first_halt {n : ℕ} (h : ∃ k, start + k < n ∧ Halts (searchValue env b s start k)) :
    ∃ k, start + k < n ∧ Halts (searchValue env b s start k) ∧
      ∀ j < k, ¬ Halts (searchValue env b s start j) := by
  classical
  obtain ⟨h1, h2⟩ := Nat.find_spec h
  exact ⟨Nat.find h, h1, h2, fun j hj hhalt => Nat.find_min h hj ⟨by omega, hhalt⟩⟩

theorem freeFrom_least {n : ℕ} (h : ∀ j < k, ¬ Halts (searchValue env b s start j))
    (hk : searchValue env b s start k = fatItemFree) (hlt : start + k < n) :
    IsLeast (freeFrom b s n start) (start + k) := by
  refine ⟨⟨Nat.le_add_right _ _, hlt, ?_⟩, fun c ⟨hle, _, hfree⟩ => ?_⟩
  · have hval := readValue_eq (hk ▸ (by decide : isErrValue fatItemFree = false))
    exact hval.symm.trans hk
  · by_contra hc
    obtain ⟨j, rfl⟩ := Nat.exists_eq_add_of_le hle
    have hj := h j (by omega)
    exact hj (.inr ((readValue_eq (not_halts hj).1).trans hfree))

theorem findFreeClu_finds_iff {fatSecsize : ℕ} (hn : tableEntries fatSecsize + maxErrno ≤ uintRange)
    (hstart : start < tableEntries fatSecsize) :
    FindsFree env b fatSecsize start s ↔ HaltsInside env b fatSecsize start s := by
  have hlt : ∀ c ≤ tableEntries fatSecsize, c < uintRange := by
    intro c hc
    rw [maxErrno] at hn
    omega
  have hfuel : ∀ c < tableEntries fatSecsize, c < uintRange := fun c hc => hlt c hc.le
  constructor
  · intro h
    by_cases hex : ∃ k, start + k < tableEntries fatSecsize ∧ Halts (searchValue env b s start k)
    · obtain ⟨k, hk, hhalt, hbefore⟩ := first_halt hex
      refine ⟨k, hk, hbefore, ?_⟩
      rcases hhalt with herr | hfree
      · obtain ⟨r, t, hrun, hr⟩ := h.result
        obtain ⟨⟨u, hrun'⟩, -⟩ :=
          findFreeCluFrom_halts hbefore (.inl herr) (hfuel _ hk) (hfuel k (by omega))
        obtain ⟨rfl, -⟩ : r = searchValue env b s start k ∧ t = u := by
          simpa [herr] using hrun.symm.trans hrun'
        rcases hr with hleast | ⟨-, hnone⟩
        · have hr := hleast.1.2.1
          rw [isErrValue, decide_eq_true_eq, maxErrno] at herr
          rw [maxErrno] at hn
          omega
        · exact .inr ⟨herr, hnone⟩
      · exact .inl hfree
    · have hpass : ∀ j < tableEntries fatSecsize - start, ¬ Halts (searchValue env b s start j) :=
        fun j hj hhalt => hex ⟨j, by omega, hhalt⟩
      have hend : start + (tableEntries fatSecsize - start) = tableEntries fatSecsize := by omega
      have hread := searchReads_pass hpass (by rw [hend]; exact hlt _ le_rfl)
      rw [hend] at hread
      exact absurd (h.inside _ hread) (lt_irrefl _)
  · rintro ⟨k, hk, hbefore, hstop⟩
    have hhalt : Halts (searchValue env b s start k) := hstop.elim .inr fun h => .inl h.1
    obtain ⟨⟨t, hrun⟩, hreads⟩ :=
      findFreeCluFrom_halts hbefore hhalt (hfuel _ hk) (hfuel k (by omega))
    refine ⟨⟨_, t, hrun, ?_⟩, fun idx hidx => (hreads idx hidx).trans_lt hk⟩
    rcases hstop with hfree | ⟨herr, hnone⟩
    · rw [hfree, if_neg (by decide)]
      exact .inl (freeFrom_least hbefore hfree hk)
    · rw [if_pos herr]
      exact .inr ⟨herr, hnone⟩

/-- A table of one sector in which the first six entries are in use. -/
def usedTable : FsSys :=
  { blankSys with sd := ⟨fun _ o => if o < 24 then if o % 4 = 3 then 0x0F else 0xFF else 0, 0⟩ }

theorem findFreeClu_finds_first : FindsFree soundEnv eightSectors 1 2 usedTable := by
  have hbefore : ∀ j < 4, searchValue soundEnv eightSectors usedTable 2 j = fatItemEnd := by
    decide +kernel
  refine (findFreeClu_finds_iff (by decide) (by decide)).mpr
    ⟨4, by decide, fun j hj => ?_, .inl (by decide +kernel)⟩
  rw [hbefore j hj, Halts]
  decide

/-- A table of one sector in which every cluster is the last one of its file. -/
def fullTable : FsSys :=
  { blankSys with sd := ⟨fun _ o => if o % 4 = 3 then 0x0F else 0xFF, 0⟩ }

theorem findFreeClu_leaves_table : ¬ FindsFree soundEnv eightSectors 1 2 fullTable := by
  intro h
  have hend : ∀ j < 126, searchValue soundEnv eightSectors fullTable 2 j = fatItemEnd := by
    decide +kernel
  have hread : SearchReads soundEnv eightSectors.infoFatSec 2 fullTable (2 + 126) := by
    refine searchReads_pass (fun j hj => ?_) (by decide)
    rw [hend j hj, Halts]
    decide
  exact absurd (h.inside _ hread) (by decide)

end Search

end OurOS.Fs
