import Mathlib.Order.Bounds.Basic
import OurOS.Mm.Bootmm

namespace OurOS

section Scan

variable {mm : Bootmm} {map : ℕ → ℕ} {e k : ℕ}

def FreeUpTo (map : ℕ → ℕ) (e first len : ℕ) : Prop :=
  ∀ p, first ≤ p → p < first + len → p ≤ e ∧ map p ≠ pageUsed

theorem countPages_all {cnt j j' : ℕ} (h : countPages map e cnt j = some (0, j')) :
    FreeUpTo map e j cnt := by
  induction cnt generalizing j with
  | zero => exact fun p h1 h2 => absurd h2 (not_lt.mpr h1)
  | succ cnt ih =>
    rw [countPages] at h
    split_ifs at h with h1 h2
    · cases h
    intro p h3 h4
    rcases Nat.lt_or_eq_of_le h3 with h5 | rfl
    · exact ih h p h5 (by omega)
    · exact ⟨not_lt.mp h1, h2⟩

theorem countPages_crosses {cnt j : ℕ} (h : countPages map e cnt j = none) : e + 1 < j + cnt := by
  induction cnt generalizing j with
  | zero => cases h
  | succ cnt ih =>
    rw [countPages] at h
    split_ifs at h with h1 h2
    · omega
    · have h3 := ih h
      omega

theorem countPages_stop {cnt c j j' : ℕ} (h : countPages map e cnt j = some (c + 1, j')) :
    ∃ q, j' = q + 1 ∧ j ≤ q ∧ q < j + cnt ∧ q ≤ e ∧ map q = pageUsed := by
  induction cnt generalizing j with
  | zero => cases h
  | succ cnt ih =>
    rw [countPages] at h
    split_ifs at h with h1 h2
    · obtain ⟨-, rfl⟩ := Prod.mk.inj (Option.some.inj h)
      exact ⟨j, rfl, le_rfl, by omega, not_lt.mp h1, h2⟩
    · obtain ⟨q, h3, h4, h5, h6, h7⟩ := ih h
      exact ⟨q, h3, by omega, by omega, h6, h7⟩

theorem upperAlign_spec {x k : ℕ} (hx : x + 2 ^ k ≤ uintRange) (hk : k ≤ 32) :
    x ≤ upperAlign x (2 ^ k) ∧ 2 ^ k ∣ upperAlign x (2 ^ k) := by
  have hpos := Nat.two_pow_pos k
  have hlt : x + (2 ^ k - 1) < uintRange := by omega
  rw [upperAlign_eq hlt hk]
  have h1 := Nat.div_add_mod (x + (2 ^ k - 1)) (2 ^ k)
  have h2 := Nat.mod_lt (x + (2 ^ k - 1)) hpos
  rw [Nat.mul_comm] at h1
  exact ⟨by omega, ⟨_, Nat.mul_comm _ _⟩⟩

theorem upperAlign_le {x p : ℕ} (hx : x + 2 ^ k ≤ uintRange) (hk : k ≤ 32) (hp : 2 ^ k ∣ p)
    (hxp : x ≤ p) : upperAlign x (2 ^ k) ≤ p := by
  have hpos := Nat.two_pow_pos k
  obtain ⟨m, rfl⟩ := hp
  rw [upperAlign_eq (by omega) hk, Nat.mul_comm]
  refine Nat.mul_le_mul_left _ (Nat.lt_succ_iff.mp ?_)
  rw [Nat.div_lt_iff_lt_mul hpos, Nat.succ_mul, Nat.mul_comm]
  omega

/-- What the loop returns from `i` on. -/
def LeastFrom (mm : Bootmm) (cnt e align i r : ℕ) : Prop :=
  (i ≤ r ∧ align ∣ r ∧ FreeUpTo mm.pageMap e r cnt ∧
      ∀ p, i ≤ p → p < r → align ∣ p → ¬ FreeUpTo mm.pageMap e p cnt) ∨
    r = 0 ∧ ∀ p, i ≤ p → align ∣ p → ¬ FreeUpTo mm.pageMap e p cnt

theorem LeastFrom.skip {cnt align i j r : ℕ} (hij : i ≤ j)
    (hnone : ∀ p, i ≤ p → p < j → align ∣ p → ¬ FreeUpTo mm.pageMap e p cnt)
    (h : LeastFrom mm cnt e align j r) : LeastFrom mm cnt e align i r := by
  rcases h with ⟨h1, h2, h3, h4⟩ | ⟨rfl, h1⟩
  · refine .inl ⟨hij.trans h1, h2, h3, fun p hp hlt hd => ?_⟩
    rcases Nat.lt_or_ge p j with hpj | hpj
    · exact hnone p hp hpj hd
    · exact h4 p hpj hlt hd
  · refine .inr ⟨rfl, fun p hp hd => ?_⟩
    rcases Nat.lt_or_ge p j with hpj | hpj
    · exact hnone p hp hpj hd
    · exact h1 p hpj hd

theorem findLoop_least (cnt : ℕ) (hk : k ≤ 32) (he : e + 1 + 2 ^ k ≤ uintRange) {fuel i : ℕ}
    (hpos : 0 < fuel) (hfuel : e + 1 < fuel + i) (hi : 2 ^ k ∣ i) :
    ∃ r, findLoop mm cnt e (2 ^ k) fuel i = some r ∧ LeastFrom mm (cnt + 1) e (2 ^ k) i r := by
  induction fuel generalizing i with
  | zero => cases hpos
  | succ fuel ih =>
    rw [findLoop]
    by_cases hend : e < i
    · refine ⟨0, if_pos hend, .inr ⟨rfl, fun p hp _ hfree => ?_⟩⟩
      have hin := (hfree p le_rfl (by omega)).1
      omega
    rw [if_neg hend]
    by_cases hused : mm.pageMap i = pageUsed
    · -- every run that starts before the next candidate has the used page `i` in it
      rw [if_neg (not_not.mpr hused)]
      obtain ⟨h1, h2⟩ := upperAlign_spec (x := i + 1) (by omega) hk
      obtain ⟨r, hr, hleast⟩ := ih (by omega) (by omega) h2
      refine ⟨r, hr, hleast.skip (by omega) fun p hp hlt hd hfree => ?_⟩
      have hle : ¬ i + 1 ≤ p := fun h => absurd (upperAlign_le (by omega) hk hd h) (by omega)
      obtain rfl : p = i := by omega
      exact (hfree p le_rfl (by omega)).2 hused
    rw [if_pos hused]
    rcases hc : countPages mm.pageMap e cnt (i + 1) with _ | ⟨_ | c, j⟩
    · refine ⟨0, rfl, .inr ⟨rfl, fun p hp _ hfree => ?_⟩⟩
      have hcross := countPages_crosses hc
      have hin := (hfree (p + cnt) (by omega) (by omega)).1
      omega
    · refine ⟨i, rfl, .inl ⟨le_rfl, hi, fun p h1 h2 => ?_, fun p h1 h2 => by omega⟩⟩
      rcases Nat.lt_or_eq_of_le h1 with h3 | rfl
      · exact countPages_all hc p h3 (by omega)
      · exact ⟨not_lt.mp hend, hused⟩
    · obtain ⟨q, rfl, h1, h2, h3, h4⟩ := countPages_stop hc
      obtain ⟨h5, h6⟩ := upperAlign_spec (x := q + 1) (by omega) hk
      obtain ⟨r, hr, hleast⟩ := ih (by omega) (by omega) h6
      refine ⟨r, hr, hleast.skip (by omega) fun p hp hlt hd hfree => ?_⟩
      have hle : ¬ q + 1 ≤ p := fun h => absurd (upperAlign_le (by omega) hk hd h) (by omega)
      exact (hfree q (by omega) (by omega)).2 h4

end Scan

def freeRuns (mm : Bootmm) (pageCnt pfnStart pfnEnd pfnAlign : ℕ) : Set ℕ :=
  {p | pfnStart ≤ p ∧ pfnAlign ∣ p ∧ FreeUpTo mm.pageMap (min pfnEnd (mm.pageNum - 1)) p pageCnt}

theorem findPages_least {mm : Bootmm} {pageCnt pfnStart pfnEnd k : ℕ} (hnum : 0 < mm.pageNum)
    (hmap : mm.pageNum ≤ machinePageNum) (hcnt : 1 ≤ pageCnt) (hcnt' : pageCnt < uintRange)
    (hstart : pfnStart ≤ machinePageNum) (hzero : 1 ≤ pfnStart ∨ mm.pageMap 0 = pageUsed)
    (hk : k < 32) :
    ∃ r, findPages mm pageCnt pfnStart pfnEnd (2 ^ k) = some r ∧
      (r ≠ 0 ∧ IsLeast (freeRuns mm pageCnt pfnStart pfnEnd (2 ^ k)) r ∨
        r = 0 ∧ freeRuns mm pageCnt pfnStart pfnEnd (2 ^ k) = ∅) := by
  have hrange : uintRange = 2 ^ 32 := rfl
  have hmach : machinePageNum = 131072 := rfl
  have hpow : 2 ^ k ≤ 2 ^ 31 := Nat.pow_le_pow_right Nat.two_pos (by omega)
  have hne : ¬ 2 ^ k = 0 := (Nat.two_pow_pos k).ne'
  have hcount : (pageCnt + uintRange - 1) % uintRange + 1 = pageCnt := by
    simp only [uintRange] at hcnt' ⊢
    omega
  have hmin : min (mm.pageNum - 1) pfnEnd = min pfnEnd (mm.pageNum - 1) := min_comm _ _
  have hlast : min pfnEnd (mm.pageNum - 1) ≤ mm.pageNum - 1 := min_le_right _ _
  have hfits : min pfnEnd (mm.pageNum - 1) + 1 + 2 ^ k ≤ uintRange := by omega
  obtain ⟨h1, h2⟩ := upperAlign_spec (x := pfnStart) (k := k) (by omega) (by omega)
  obtain ⟨r, hr, hleast⟩ := @findLoop_least mm _ k ((pageCnt + uintRange - 1) % uintRange)
    (by omega) hfits (mm.pageNum + 1) _ (Nat.succ_pos _) (by omega) h2
  rw [hcount] at hleast
  refine ⟨r, ?_, ?_⟩
  · rw [findPages, if_neg hne, hmin]
    exact hr
  -- no aligned page lies between the start of the window and the first candidate
  have hskip := hleast.skip h1 fun p hp hlt hd _ =>
    absurd (upperAlign_le (by omega) (by omega) hd hp) (by omega)
  rcases hskip with ⟨h3, h4, h5, h6⟩ | ⟨rfl, h3⟩
  · refine .inl ⟨?_, ⟨h3, h4, h5⟩, ?_⟩
    · rintro rfl
      rcases hzero with hpos | hused
      · omega
      · exact (h5 0 le_rfl (by omega)).2 hused
    · rintro p ⟨hp, hd, hfree⟩
      by_contra hlt
      exact h6 p hp (by omega) hd hfree
  · refine .inr ⟨rfl, Set.eq_empty_of_forall_notMem ?_⟩
    rintro p ⟨hp, hd, hfree⟩
    exact h3 p hp hd hfree

/-- On the machine as it is booted four pages are found behind the kernel's. -/
theorem findPages_least_small : ∃ r, findPages initBootmm 4 1 131071 (2 ^ 2) = some r ∧
    (r ≠ 0 ∧ IsLeast (freeRuns initBootmm 4 1 131071 (2 ^ 2)) r ∨
      r = 0 ∧ freeRuns initBootmm 4 1 131071 (2 ^ 2) = ∅) :=
  findPages_least (by decide) (by decide) (by decide) (by decide) (by decide) (.inl le_rfl)
    (by decide)

end OurOS
