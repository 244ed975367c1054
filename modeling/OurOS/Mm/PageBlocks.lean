import OurOS.Mm.AllocSize

set_option linter.style.nameCheck false

namespace OurOS

open AlignedBlocks

/-- A block of pages that has been handed out begins at `x` and has room for `n` bytes. -/
def HoldsBytes (s : SlabSys) (B : Set Block) (x n : ℕ) : Prop :=
  ∃ b, liveBlock s B b x ∧ n ≤ 2 ^ b.level * pageSize

section Blocks

variable {s t : SlabSys} {B C : Set Block} {lists lists' : PageList → List ℕ}
  {objs objs' : SlabList → List ℕ} {x y m n : ℕ}

theorem HoldsBytes.isLive (h : HoldsBytes s B x n) : isLive s B lists objs x := by
  obtain ⟨b, hb, -⟩ := h
  exact .inr ⟨b, hb⟩

theorem HoldsBytes.survive {dead : Set ℕ} (h : HoldsBytes s B x n)
    (hs : Survive s t B C lists lists' objs objs' dead) (hd : x ∉ dead) : HoldsBytes t C x n := by
  obtain ⟨b, hb, hn⟩ := h
  exact ⟨b, hs.blocks b x hd hb, hn⟩

theorem HoldsBytes.slabStep {k l : SlabTrace} (h : HoldsBytes k.sys B x n)
    (hs : Survive k.sys l.sys B C lists lists' objs objs' {y | y ∈ k.live ∧ y ∉ l.live})
    (hl : ∀ y ∈ l.live, y ∈ k.live ∨ ¬ OurOS.isLive k.sys B lists objs y) (hx : x ∉ k.live) :
    HoldsBytes l.sys C x n ∧ x ∉ l.live :=
  ⟨h.survive hs fun hd => hx hd.1, fun hm => (hl x hm).elim hx fun hn => hn h.isLive⟩

namespace SlabInv

theorem holds_mem (hi : SlabInv s B lists objs) (h : HoldsBytes s B x n) :
    Set.Ico x (x + n) ⊆ memOf s x := by
  obtain ⟨b, hb, hn⟩ := h
  rw [hi.block_mem hb]
  exact Set.Ico_subset_Ico le_rfl (Nat.add_le_add_left hn x)

theorem holds_apart (hi : SlabInv s B lists objs) (hx : HoldsBytes s B x m)
    (hy : isLive s B lists objs y) (hne : x ≠ y) : Disjoint (Set.Ico x (x + m)) (memOf s y) :=
  (hi.live_disjoint hx.isLive hy hne).mono_left (hi.holds_mem hx)

theorem holds_disjoint (hi : SlabInv s B lists objs) {a : ℕ} (hx : HoldsBytes s B x m)
    (hy : HoldsBytes s B y n) (hne : x ≠ y) (h : x ≤ a ∧ a < x + m) : ¬ (y ≤ a ∧ a < y + n) := by
  intro h'
  have hd := hi.holds_apart hx hy.isLive hne
  exact Set.disjoint_left.mp hd h (hi.holds_mem hy h')

theorem holds_bounds (hi : SlabInv s B lists objs) (h : HoldsBytes s B x n) :
    kernelEntry ≤ x ∧ x % pageSize = 0 ∧ x + n ≤ kernelEntry + machineMmsize := by
  obtain ⟨b, hb, hn⟩ := h
  have hlt := hi.block_lt hb.1
  have hin := hi.buddy.tiling.inside b hb.1.1
  have hm := hi.machine
  rw [machinePageNum_eq] at hlt hm
  rw [hb.2.2, pageVaddr_eq (by rwa [machinePageNum_eq])]
  simp only [kernelEntry, machineMmsize, pageSize] at hn ⊢
  omega

theorem allocPages_spec (hi : SlabInv s B lists objs) {size : ℕ} {b : BuddySys} {o : Option ℕ}
    (h : allocPages s.buddy size = (b, o)) :
    ∃ C lists', SlabInv { s with buddy := b } C lists' objs ∧
      Survive s { s with buddy := b } B C lists lists' objs objs ∅ ∧
      ∀ paddr, o = some paddr → ∃ p, paddr = getPagePaddr p ∧ p < machinePageNum ∧
        ¬ OurOS.isLive s B lists objs (pageVaddr p) ∧
          liveBlock { s with buddy := b } C ⟨p, allocLevel size⟩ (pageVaddr p) := by
  rw [allocPages] at h
  cases hr : __allocPages s.buddy (allocLevel size) buddyAlloced with
  | mk c r =>
    rw [allocLevel] at hr
    simp only [hr, Prod.mk.injEq] at h
    obtain ⟨rfl, rfl⟩ := h
    cases r with
    | none =>
      obtain rfl := hi.buddy.allocPages_none_eq hr
      exact ⟨B, lists, hi, .refl .., by simp⟩
    | some p =>
      obtain ⟨C, lists', h1, h2, h3, h4⟩ := hi.large_alloc hr
      refine ⟨C, lists', h1, h2, ?_⟩
      rintro _ ⟨rfl⟩
      exact ⟨p, rfl, h1.block_lt h4.1, h3, h4⟩

theorem kmalloc_large (hi : SlabInv s B lists objs) {size : ℕ} (hsize : 2048 < size)
    (hfits : LevelFits size) (h : kmalloc s size = (t, some x)) :
    ∃ C lists', SlabInv t C lists' objs ∧ Survive s t B C lists lists' objs objs ∅ ∧
      ¬ OurOS.isLive s B lists objs x ∧ HoldsBytes t C x size := by
  have hbig : ¬ size ≤ kmemCacheSize (kmemCacheNum - 1) := Nat.not_le.mpr hsize
  obtain ⟨b, o, ha⟩ : ∃ b o, allocPages s.buddy size = (b, o) := ⟨_, _, rfl⟩
  rw [kmalloc, if_neg hbig, ha] at h
  obtain ⟨rfl, hx⟩ := Prod.mk.inj h
  obtain ⟨a, hfilter, rfl⟩ := Option.map_eq_some_iff.mp hx
  obtain ⟨C, lists', h1, h2, h3⟩ := hi.allocPages_spec ha
  obtain ⟨p, rfl, -, h4, h5⟩ := h3 a (Option.filter_eq_some_iff.mp hfilter).1
  exact ⟨C, lists', h1, h2, h4, ⟨p, allocLevel size⟩, h5, hfits.1⟩

theorem holds_page (hi : SlabInv s B lists objs) {p q : ℕ} (hp : p < machinePageNum)
    (h : HoldsBytes s B (pageVaddr p) (n * pageSize)) (hq : p ≤ q ∧ q < p + n) :
    q < machinePageNum ∧ pageMem q ⊆ Set.Ico (pageVaddr p) (pageVaddr p + n * pageSize) := by
  have hsum : q * pageSize + pageSize ≤ p * pageSize + n * pageSize := by
    rw [← Nat.succ_mul, ← Nat.add_mul]
    exact Nat.mul_le_mul_right _ hq.2
  have hle : p * pageSize ≤ q * pageSize := Nat.mul_le_mul_right _ hq.1
  have hlt : q < machinePageNum := by
    obtain ⟨-, -, hend⟩ := hi.holds_bounds h
    rw [pageVaddr_eq hp] at hend
    rw [machinePageNum_eq]
    simp only [kernelEntry, machineMmsize, pageSize] at hend hsum
    omega
  refine ⟨hlt, ?_⟩
  rw [pageMem, pageVaddr_eq hp, pageVaddr_eq hlt]
  simp only [pageSize] at hle hsum ⊢
  refine Set.Ico_subset_Ico ?_ ?_
  · omega
  · omega

end SlabInv

end Blocks

end OurOS
