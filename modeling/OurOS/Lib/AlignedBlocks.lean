import Mathlib.Algebra.Order.Ring.Nat
import Mathlib.Data.Nat.Bitwise
import Mathlib.Data.Set.Insert
import Mathlib.Tactic.Common
import Mathlib.Tactic.Ring

namespace AlignedBlocks

@[ext] structure Block where
  head : ℕ
  level : ℕ
deriving DecidableEq, Repr

namespace Block

instance : Membership ℕ Block := ⟨fun b n => b.head ≤ n ∧ n < b.head + 2 ^ b.level⟩

def Aligned (b : Block) : Prop := 2 ^ b.level ∣ b.head

def buddy (b : Block) : Block := ⟨b.head ^^^ 2 ^ b.level, b.level⟩

def parent (b : Block) : Block := ⟨b.head &&& (b.head ^^^ 2 ^ b.level), b.level + 1⟩

theorem mem_def {b : Block} {n : ℕ} : n ∈ b ↔ b.head ≤ n ∧ n < b.head + 2 ^ b.level := Iff.rfl

theorem head_mem (b : Block) : b.head ∈ b := ⟨le_rfl, by have := Nat.two_pow_pos b.level; omega⟩

theorem mem_iff_div {b : Block} (hb : b.Aligned) {n : ℕ} :
    n ∈ b ↔ n / 2 ^ b.level = b.head / 2 ^ b.level := by
  obtain ⟨q, hq⟩ := hb
  have hpos := Nat.two_pow_pos b.level
  rw [mem_def, hq, Nat.mul_div_cancel_left q hpos]
  constructor
  · rintro ⟨h1, h2⟩
    refine Nat.div_eq_of_lt_le ?_ ?_
    · rwa [mul_comm]
    · rw [add_mul, one_mul, mul_comm q]; exact h2
  · rintro rfl
    have h1 := Nat.div_add_mod n (2 ^ b.level)
    have h2 := Nat.mod_lt n hpos
    omega

theorem eq_of_level_eq {b c : Block} (hb : b.Aligned) (hc : c.Aligned) (hl : b.level = c.level)
    {n : ℕ} (h1 : n ∈ b) (h2 : n ∈ c) : b = c := by
  rw [mem_iff_div hb] at h1
  rw [mem_iff_div hc, ← hl] at h2
  have hd : b.head / 2 ^ b.level = c.head / 2 ^ b.level := h1.symm.trans h2
  refine Block.ext ?_ hl
  rw [← Nat.div_mul_cancel hb, hd, hl, Nat.div_mul_cancel hc]

theorem mem_of_level_le {b c : Block} (hb : b.Aligned) (hc : c.Aligned) (hl : b.level ≤ c.level)
    {n m : ℕ} (h1 : n ∈ b) (h2 : n ∈ c) (hm : m ∈ b) : m ∈ c := by
  rw [mem_iff_div hb] at h1 hm
  rw [mem_iff_div hc] at h2 ⊢
  obtain ⟨d, hd⟩ := Nat.exists_eq_add_of_le hl
  rw [hd, pow_add, ← Nat.div_div_eq_div_mul, ← Nat.div_div_eq_div_mul] at h2 ⊢
  rw [hm, ← h1, h2]

theorem xor_two_pow (q k : ℕ) : (2 ^ k * q) ^^^ 2 ^ k = 2 ^ k * (q ^^^ 1) := by
  have h := Nat.shiftLeft_xor_distrib (a := q) (b := 1) (i := k)
  simpa only [Nat.shiftLeft_eq, one_mul, mul_comm _ (2 ^ k), mul_one] using h.symm

theorem and_xor_one (q : ℕ) : q &&& (q ^^^ 1) = q / 2 * 2 := by
  refine Nat.eq_of_testBit_eq fun i => ?_
  cases i with
  | zero => simp; omega
  | succ i => simp [Nat.testBit_add_one, Nat.and_div_two, Nat.xor_div_two]

theorem and_xor_two_pow (q k : ℕ) :
    (2 ^ k * q) &&& ((2 ^ k * q) ^^^ 2 ^ k) = 2 ^ (k + 1) * (q / 2) := by
  have h := Nat.shiftLeft_and_distrib (a := q) (b := q ^^^ 1) (i := k)
  rw [and_xor_one] at h
  simp only [Nat.shiftLeft_eq] at h
  rw [xor_two_pow, mul_comm (2 ^ k) q, mul_comm (2 ^ k) (q ^^^ 1), ← h]
  ring

theorem buddy_aligned {b : Block} (hb : b.Aligned) : b.buddy.Aligned := by
  obtain ⟨q, hq⟩ := hb
  exact ⟨q ^^^ 1, by simp only [buddy, hq, xor_two_pow]⟩

theorem parent_aligned {b : Block} (hb : b.Aligned) : b.parent.Aligned := by
  obtain ⟨q, hq⟩ := hb
  exact ⟨q / 2, by simp only [parent, hq, and_xor_two_pow]⟩

@[simp] theorem buddy_level (b : Block) : b.buddy.level = b.level := rfl

@[simp] theorem parent_level (b : Block) : b.parent.level = b.level + 1 := rfl

@[simp] theorem buddy_buddy (b : Block) : b.buddy.buddy = b := by
  simp [buddy]

theorem buddy_ne (b : Block) : b.buddy ≠ b := by
  intro h
  have h1 : b.head ^^^ 2 ^ b.level = b.head ^^^ 0 := by
    simpa [buddy] using congrArg Block.head h
  have h2 : 2 ^ b.level = 0 := Nat.xor_right_injective h1
  exact absurd h2 (Nat.two_pow_pos _).ne'

theorem mem_parent {b : Block} (hb : b.Aligned) {n : ℕ} :
    n ∈ b.parent ↔ n ∈ b ∨ n ∈ b.buddy := by
  rw [mem_iff_div hb, mem_iff_div (buddy_aligned hb), mem_iff_div (parent_aligned hb)]
  obtain ⟨q, hq⟩ := hb
  have hpos := Nat.two_pow_pos b.level
  have h1 : b.parent.head / 2 ^ b.parent.level = q / 2 := by
    simp only [parent, hq, and_xor_two_pow]
    exact Nat.mul_div_cancel_left _ (Nat.two_pow_pos _)
  have h2 : b.buddy.head / 2 ^ b.buddy.level = q ^^^ 1 := by
    simp only [buddy, hq, xor_two_pow]
    exact Nat.mul_div_cancel_left _ hpos
  have h3 : n / 2 ^ b.parent.level = n / 2 ^ b.level / 2 := by
    rw [parent_level, pow_succ, Nat.div_div_eq_div_mul]
  rw [h1, h2, h3, hq, Nat.mul_div_cancel_left _ hpos]
  rcases Nat.even_or_odd q with he | ho
  · rw [Nat.xor_one_of_even he]
    obtain ⟨m, rfl⟩ := he
    simp only [buddy_level]
    omega
  · rw [Nat.xor_one_of_odd ho]
    obtain ⟨m, rfl⟩ := ho
    simp only [buddy_level]
    omega

theorem parent_head {b : Block} (hb : b.Aligned) :
    b.parent.head = b.head ∨ b.parent.head = b.buddy.head := by
  have h1 := mem_def.mp ((mem_parent hb).mpr (.inl b.head_mem))
  have h2 := mem_def.mp ((mem_parent hb).mpr (.inr b.buddy.head_mem))
  rcases (mem_parent hb).mp b.parent.head_mem with h | h
  · exact .inl (le_antisymm h1.1 (mem_def.mp h).1)
  · exact .inr (le_antisymm h2.1 (mem_def.mp h).1)

theorem not_mem_buddy {b : Block} (hb : b.Aligned) {n : ℕ} (h : n ∈ b) : n ∉ b.buddy :=
  fun h' => b.buddy_ne (eq_of_level_eq (buddy_aligned hb) hb rfl h' h)

theorem parent_of_aligned {p k : ℕ} (h : 2 ^ (k + 1) ∣ p) :
    (⟨p, k⟩ : Block).parent = ⟨p, k + 1⟩ := by
  obtain ⟨q, rfl⟩ := h
  have h1 := and_xor_two_pow (2 * q) k
  rw [show 2 ^ k * (2 * q) = 2 ^ (k + 1) * q by ring, Nat.mul_div_cancel_left q two_pos] at h1
  simp only [parent, h1]

theorem head_eq_of_mem {b c : Block} (hb : b.Aligned) (hc : c.Aligned) (hl : b.level ≤ c.level)
    (h : c.head ∈ b) : b.head = c.head := by
  have h1 := mem_of_level_le hb hc hl h c.head_mem b.head_mem
  rw [mem_def] at h h1
  omega

theorem subset_of_dvd {b : Block} {order lo hi n : ℕ} (hb : b.Aligned) (hl : b.level ≤ order)
    (hlo : 2 ^ order ∣ lo) (hhi : 2 ^ order ∣ hi) (hn : n ∈ b) (h1 : lo ≤ n) (h2 : n < hi) :
    lo ≤ b.head ∧ b.head + 2 ^ b.level ≤ hi := by
  have hpos := Nat.two_pow_pos b.level
  obtain ⟨q, hq⟩ := hb
  obtain ⟨x, hx⟩ := (pow_dvd_pow 2 hl).trans hlo
  obtain ⟨y, hy⟩ := (pow_dvd_pow 2 hl).trans hhi
  obtain ⟨h3, h4⟩ := mem_def.mp hn
  rw [hq] at h3 h4 ⊢
  have hxq : x < q + 1 := by
    refine Nat.lt_of_mul_lt_mul_left (a := 2 ^ b.level) ?_
    rw [Nat.mul_succ]; omega
  have hqy : q < y := Nat.lt_of_mul_lt_mul_left (a := 2 ^ b.level) (by omega)
  constructor
  · rw [hx]; exact Nat.mul_le_mul_left _ (by omega)
  · rw [hy, ← Nat.mul_succ]; exact Nat.mul_le_mul_left _ hqy

end Block

structure Tiling (lo hi order : ℕ) (B : Set Block) : Prop where
  level_le : ∀ b ∈ B, b.level ≤ order
  aligned : ∀ b ∈ B, b.Aligned
  inside : ∀ b ∈ B, lo ≤ b.head ∧ b.head + 2 ^ b.level ≤ hi
  cover : ∀ n, lo ≤ n → n < hi → ∃ b ∈ B, n ∈ b
  unique : ∀ b ∈ B, ∀ c ∈ B, ∀ n, n ∈ b → n ∈ c → b = c

namespace Tiling

variable {lo hi order : ℕ} {B : Set Block}

theorem mem_range (ht : Tiling lo hi order B) {b : Block} (hb : b ∈ B) {n : ℕ} (hn : n ∈ b) :
    lo ≤ n ∧ n < hi := by
  have := ht.inside b hb
  rw [Block.mem_def] at hn
  omega

theorem singletons (lo hi order : ℕ) :
    Tiling lo hi order {b | b.level = 0 ∧ lo ≤ b.head ∧ b.head < hi} where
  level_le b hb := by simp [hb.1]
  aligned b hb := by simp [Block.Aligned, hb.1]
  inside b hb := by
    obtain ⟨h0, h1, h2⟩ := hb
    simp only [h0, pow_zero]; omega
  cover n h1 h2 := ⟨⟨n, 0⟩, ⟨rfl, h1, h2⟩, Block.head_mem _⟩
  unique b hb c hc n h1 h2 := by
    refine Block.eq_of_level_eq ?_ ?_ (hb.1.trans hc.1.symm) h1 h2
    · simp [Block.Aligned, hb.1]
    · simp [Block.Aligned, hc.1]

theorem head_unique (ht : Tiling lo hi order B) {b c : Block} (hb : b ∈ B) (hc : c ∈ B)
    (h : b.head = c.head) : b = c :=
  ht.unique b hb c hc b.head b.head_mem (h ▸ c.head_mem)

theorem parent_inside (ht : Tiling lo hi order B) (hlo : 2 ^ order ∣ lo) (hhi : 2 ^ order ∣ hi)
    {b : Block} (hb : b ∈ B) (hk : b.level < order) :
    lo ≤ b.parent.head ∧ b.parent.head + 2 ^ b.parent.level ≤ hi := by
  have ha := ht.aligned b hb
  have hr := ht.mem_range hb b.head_mem
  exact Block.subset_of_dvd (Block.parent_aligned ha) hk hlo hhi
    ((Block.mem_parent ha).mpr (.inl b.head_mem)) hr.1 hr.2

theorem exists_buddy_head (ht : Tiling lo hi order B) (hlo : 2 ^ order ∣ lo)
    (hhi : 2 ^ order ∣ hi) {b : Block} (hb : b ∈ B) (hk : b.level < order) :
    ∃ c ∈ B, c.head = b.buddy.head ∧ c.level ≤ b.level := by
  have ha := ht.aligned b hb
  have hpar := ht.parent_inside hlo hhi hb hk
  have hmem : b.buddy.head ∈ b.parent := (Block.mem_parent ha).mpr (.inr b.buddy.head_mem)
  obtain ⟨hm1, hm2⟩ := Block.mem_def.mp hmem
  obtain ⟨c, hc, hcm⟩ := ht.cover b.buddy.head (by omega) (by omega)
  have hca := ht.aligned c hc
  have hle : c.level ≤ b.level := by
    by_contra hgt
    have hlt : b.parent.level ≤ c.level := Nat.lt_of_not_le hgt
    have hbc := Block.mem_of_level_le (Block.parent_aligned ha) hca hlt hmem hcm
      ((Block.mem_parent ha).mpr (.inl b.head_mem))
    obtain rfl := ht.unique c hc b hb b.head hbc b.head_mem
    omega
  exact ⟨c, hc, Block.head_eq_of_mem hca (Block.buddy_aligned ha) hle hcm, hle⟩

theorem merge (ht : Tiling lo hi order B) (hlo : 2 ^ order ∣ lo) (hhi : 2 ^ order ∣ hi)
    {b : Block} (hb : b ∈ B) (hbb : b.buddy ∈ B) (hk : b.level < order) :
    Tiling lo hi order (insert b.parent (B \ {b, b.buddy})) := by
  have ha := ht.aligned b hb
  have hsep : ∀ c ∈ B \ {b, b.buddy}, ∀ n ∈ c, n ∉ b.parent := by
    rintro c ⟨hc, hne⟩ n hn hp
    simp only [Set.mem_insert_iff, Set.mem_singleton_iff, not_or] at hne
    rcases (Block.mem_parent ha).mp hp with h | h
    · exact hne.1 (ht.unique c hc b hb n hn h)
    · exact hne.2 (ht.unique c hc _ hbb n hn h)
  refine ⟨?_, ?_, ?_, ?_, ?_⟩
  · rintro c (rfl | hc)
    exacts [hk, ht.level_le c hc.1]
  · rintro c (rfl | hc)
    exacts [Block.parent_aligned ha, ht.aligned c hc.1]
  · rintro c (rfl | hc)
    exacts [ht.parent_inside hlo hhi hb hk, ht.inside c hc.1]
  · intro n h1 h2
    obtain ⟨c, hc, hn⟩ := ht.cover n h1 h2
    by_cases hcb : c ∈ ({b, b.buddy} : Set Block)
    · refine ⟨b.parent, .inl rfl, (Block.mem_parent ha).mpr ?_⟩
      rcases hcb with rfl | rfl
      exacts [.inl hn, .inr hn]
    · exact ⟨c, .inr ⟨hc, hcb⟩, hn⟩
  · rintro c (rfl | hc) d (rfl | hd) n h1 h2
    · rfl
    · exact absurd h1 (hsep d hd n h2)
    · exact absurd h2 (hsep c hc n h1)
    · exact ht.unique c hc.1 d hd.1 n h1 h2

theorem split (ht : Tiling lo hi order B) {b : Block} (ha : b.Aligned) (hp : b.parent ∈ B) :
    Tiling lo hi order (insert b (insert b.buddy (B \ {b.parent}))) := by
  have hsep : ∀ c ∈ B \ {b.parent}, ∀ n ∈ c, n ∉ b ∧ n ∉ b.buddy := by
    rintro c ⟨hc, hne⟩ n hn
    have hnp : n ∉ b.parent := fun h => hne (ht.unique c hc _ hp n hn h)
    rw [Block.mem_parent ha] at hnp
    exact not_or.mp hnp
  have hle := ht.level_le _ hp
  have hin := ht.inside _ hp
  have hsub : ∀ c : Block, c.level = b.level → (∀ n ∈ c, n ∈ b.parent) →
      lo ≤ c.head ∧ c.head + 2 ^ c.level ≤ hi := by
    intro c hl hc
    have h1 := Block.mem_def.mp (hc _ c.head_mem)
    have hpos := Nat.two_pow_pos c.level
    have h2 := Block.mem_def.mp (hc (c.head + (2 ^ c.level - 1)) ⟨by omega, by omega⟩)
    omega
  refine ⟨?_, ?_, ?_, ?_, ?_⟩
  · rintro c (rfl | rfl | hc)
    · exact (Nat.le_succ _).trans hle
    · exact (Nat.le_succ _).trans hle
    · exact ht.level_le c hc.1
  · rintro c (rfl | rfl | hc)
    exacts [ha, Block.buddy_aligned ha, ht.aligned c hc.1]
  · rintro c (rfl | rfl | hc)
    · exact hsub _ rfl fun n hn => (Block.mem_parent ha).mpr (.inl hn)
    · exact hsub _ rfl fun n hn => (Block.mem_parent ha).mpr (.inr hn)
    · exact ht.inside c hc.1
  · intro n h1 h2
    obtain ⟨c, hc, hn⟩ := ht.cover n h1 h2
    by_cases hcp : c = b.parent
    · rcases (Block.mem_parent ha).mp (hcp ▸ hn) with h | h
      exacts [⟨b, .inl rfl, h⟩, ⟨b.buddy, .inr (.inl rfl), h⟩]
    · exact ⟨c, .inr (.inr ⟨hc, hcp⟩), hn⟩
  · rintro c (rfl | rfl | hc) d (rfl | rfl | hd) n h1 h2
    · rfl
    · exact absurd h2 (Block.not_mem_buddy ha h1)
    · exact absurd h1 (hsep d hd n h2).1
    · exact absurd h1 (Block.not_mem_buddy ha h2)
    · rfl
    · exact absurd h1 (hsep d hd n h2).2
    · exact absurd h2 (hsep c hc n h1).1
    · exact absurd h2 (hsep c hc n h1).2
    · exact ht.unique c hc.1 d hd.1 n h1 h2

end Tiling

def Coalesced (order : ℕ) (F : Set Block) : Prop :=
  ∀ b ∈ F, b.level < order → b.buddy ∉ F

theorem Coalesced.exists_block_of_run {lo hi order : ℕ} {B F : Set Block}
    (ht : Tiling lo hi order B) (hF : F ⊆ B) (hc : Coalesced order F) {r : Block}
    (hr : r.Aligned) (hl : r.level ≤ order) (hfree : ∀ n ∈ r, ∃ b ∈ F, n ∈ b) :
    ∃ b ∈ F, r.level ≤ b.level ∧ ∀ n ∈ r, n ∈ b := by
  obtain ⟨p, k⟩ := r
  -- on the level of the run: each half lies in a free block, and two equal halves would be buddies
  induction k generalizing p with
  | zero =>
    obtain ⟨b, hb, hm⟩ := hfree p (Block.head_mem _)
    refine ⟨b, hb, Nat.zero_le _, fun n hn => ?_⟩
    have hnp : n = p := by
      rw [Block.mem_def] at hn
      simp only [pow_zero] at hn
      omega
    exact hnp ▸ hm
  | succ k ih =>
    have hp : (⟨p, k⟩ : Block).parent = ⟨p, k + 1⟩ := Block.parent_of_aligned hr
    have ha : (⟨p, k⟩ : Block).Aligned := (pow_dvd_pow 2 (Nat.le_succ k)).trans hr
    have hmem : ∀ n, n ∈ (⟨p, k + 1⟩ : Block) ↔ n ∈ (⟨p, k⟩ : Block) ∨ n ∈ (⟨p, k⟩ : Block).buddy :=
      fun n => by rw [← hp]; exact Block.mem_parent ha
    have hk : k ≤ order := (Nat.le_succ k).trans hl
    obtain ⟨b, hb, hbl, hbm⟩ := ih p ha hk fun n hn => hfree n ((hmem n).mpr (.inl hn))
    obtain ⟨c, hcF, hcl, hcm⟩ := ih _ (Block.buddy_aligned ha) hk
      fun n hn => hfree n ((hmem n).mpr (.inr hn))
    have hba := ht.aligned b (hF hb)
    have hca := ht.aligned c (hF hcF)
    by_cases hbk : k + 1 ≤ b.level
    · exact ⟨b, hb, hbk, fun n hn => Block.mem_of_level_le hr hba hbk
        ((hmem p).mpr (.inl (Block.head_mem _))) (hbm _ (Block.head_mem _)) hn⟩
    by_cases hck : k + 1 ≤ c.level
    · exact ⟨c, hcF, hck, fun n hn => Block.mem_of_level_le hr hca hck
        ((hmem _).mpr (.inr (Block.head_mem _))) (hcm _ (Block.head_mem _)) hn⟩
    simp only at hbl hcl
    have h1 : b = ⟨p, k⟩ := Block.eq_of_level_eq hba ha (by simp; omega)
      (hbm _ (Block.head_mem _)) (Block.head_mem _)
    have h2 : c = (⟨p, k⟩ : Block).buddy := Block.eq_of_level_eq hca (Block.buddy_aligned ha)
      (by simp; omega) (hcm _ (Block.head_mem _)) (Block.head_mem _)
    have hlt : k < order := hl
    exact absurd (h2 ▸ hcF) (hc ⟨p, k⟩ (h1 ▸ hb) hlt)

theorem Coalesced.eq_top_of_all {lo hi order : ℕ} {B : Set Block} (ht : Tiling lo hi order B)
    (hc : Coalesced order B) (hlo : 2 ^ order ∣ lo) (hhi : 2 ^ order ∣ hi) (b : Block) :
    b ∈ B ↔ b.level = order ∧ 2 ^ order ∣ b.head ∧ lo ≤ b.head ∧ b.head < hi := by
  have key : ∀ r : Block, r.level = order → 2 ^ order ∣ r.head →
      (∃ n ∈ r, lo ≤ n ∧ n < hi) → r ∈ B := by
    rintro r hl hd ⟨n, hn, h1, h2⟩
    have ha : r.Aligned := by rw [Block.Aligned, hl]; exact hd
    have hin := Block.subset_of_dvd ha hl.le hlo hhi hn h1 h2
    obtain ⟨c, hcB, hcl, hcm⟩ := hc.exists_block_of_run ht subset_rfl ha hl.le fun m hm =>
      ht.cover m (by rw [Block.mem_def] at hm; omega) (by rw [Block.mem_def] at hm; omega)
    have he : c = r := Block.eq_of_level_eq (ht.aligned c hcB) ha
      (by have := ht.level_le c hcB; omega) (hcm _ r.head_mem) r.head_mem
    exact he ▸ hcB
  constructor
  · intro hb
    have hr := ht.mem_range hb b.head_mem
    have hba := ht.aligned b hb
    have hpos := Nat.two_pow_pos order
    have hmem : b.head ∈ (⟨b.head / 2 ^ order * 2 ^ order, order⟩ : Block) := by
      have h1 := Nat.div_add_mod b.head (2 ^ order)
      have h2 := Nat.mod_lt b.head hpos
      rw [mul_comm] at h1
      exact ⟨by simp only; omega, by simp only; omega⟩
    have hin := key ⟨b.head / 2 ^ order * 2 ^ order, order⟩ rfl ⟨_, mul_comm _ _⟩
      ⟨b.head, hmem, hr⟩
    have he := ht.unique b hb _ hin b.head b.head_mem hmem
    have hl : b.level = order := by rw [he]
    exact ⟨hl, hl ▸ hba, hr⟩
  · rintro ⟨hl, hd, h1, h2⟩
    exact key b hl hd ⟨b.head, b.head_mem, h1, h2⟩

def MaximalRun (order : ℕ) (free : ℕ → Prop) (b : Block) : Prop :=
  b.Aligned ∧ b.level ≤ order ∧ (∀ n ∈ b, free n) ∧ (b.level < order → ∃ n ∈ b.parent, ¬ free n)

theorem Coalesced.mem_iff_maximalRun {lo hi order : ℕ} {B F : Set Block}
    (ht : Tiling lo hi order B) (hF : F ⊆ B) (hc : Coalesced order F) (b : Block) :
    b ∈ F ↔ MaximalRun order (fun n => ∃ c ∈ F, n ∈ c) b := by
  constructor
  · intro hb
    have ha := ht.aligned b (hF hb)
    refine ⟨ha, ht.level_le b (hF hb), fun n hn => ⟨b, hb, hn⟩, fun hk => ?_⟩
    by_contra hall
    push Not at hall
    obtain ⟨c, hcF, hcl, hcm⟩ :=
      hc.exists_block_of_run ht hF (Block.parent_aligned ha) hk hall
    have he := ht.unique b (hF hb) c (hF hcF) b.head b.head_mem
      (hcm _ ((Block.mem_parent ha).mpr (.inl b.head_mem)))
    simp [he] at hcl
  · rintro ⟨ha, hl, hfree, hpar⟩
    obtain ⟨c, hcF, hcl, hcm⟩ := hc.exists_block_of_run ht hF ha hl hfree
    have hca := ht.aligned c (hF hcF)
    rcases Nat.lt_or_eq_of_le hcl with hlt | heq
    · obtain ⟨n, hn, hnot⟩ := hpar (hlt.trans_le (ht.level_le c (hF hcF)))
      exact absurd ⟨c, hcF, Block.mem_of_level_le (Block.parent_aligned ha) hca hlt
        ((Block.mem_parent ha).mpr (.inl b.head_mem)) (hcm _ b.head_mem) hn⟩ hnot
    · exact Block.eq_of_level_eq ha hca heq b.head_mem (hcm _ b.head_mem) ▸ hcF

end AlignedBlocks
