import OurOS.Mm.SlabRun

set_option linter.style.nameCheck false

namespace OurOS

open AlignedBlocks Links

theorem levelFor_covers (pageNum fuel b : ℕ) (h : pageNum ≤ 2 ^ (b + fuel)) :
    pageNum ≤ 2 ^ levelFor pageNum fuel (2 ^ b) b := by
  induction fuel generalizing b with
  | zero => simpa [levelFor] using h
  | succ fuel ih =>
    rw [levelFor]
    split
    · rw [← pow_succ]
      exact ih (b + 1) (by rwa [Nat.add_right_comm])
    · omega

theorem levelFor_least (pageNum fuel b : ℕ) {j : ℕ} (hb : b ≤ j) (hj : pageNum ≤ 2 ^ j) :
    levelFor pageNum fuel (2 ^ b) b ≤ j := by
  induction fuel generalizing b with
  | zero => simpa [levelFor] using hb
  | succ fuel ih =>
    rw [levelFor]
    split
    · rename_i hlt
      have hne : b ≠ j := by
        rintro rfl
        omega
      rw [← pow_succ]
      exact ih (b + 1) (by omega)
    · exact hb

def allocLevel (size : ℕ) : ℕ :=
  levelFor (upperAlign size (1 <<< pageShift) >>> pageShift) 32 1 0

def LevelFits (size : ℕ) : Prop :=
  size ≤ 2 ^ allocLevel size * pageSize ∧ ∀ j, size ≤ 2 ^ j * pageSize → allocLevel size ≤ j

theorem pfnNum_eq {size : ℕ} (h : size + pageSize ≤ uintRange) :
    upperAlign size (1 <<< pageShift) >>> pageShift = (size + 4095) / 4096 := by
  simp only [pageSize, uintRange] at h
  have hur : uintRange = 4294967296 := rfl
  rw [Nat.one_shiftLeft, upperAlign_eq (by simp only [pageShift]; omega) (by decide),
    Nat.shiftRight_eq_div_pow]
  simp [pageShift]

/-- In the last page of the range the align-up wraps to 0. -/
theorem upperAlign_wraps {size : ℕ} (hs : size < uintRange) (h : uintRange < size + pageSize) :
    upperAlign size (1 <<< pageShift) = 0 := by
  have hps : pageSize = 4096 := rfl
  have hur : uintRange = 4294967296 := rfl
  have hmod : (size + (2 ^ 12 - 1)) % uintRange < 4096 := by
    rw [hur] at hs h ⊢
    omega
  rw [Nat.one_shiftLeft, pageShift, upperAlign, lowerAlign_eq (by omega) (by decide)]
  simpa using hmod

theorem allocLevel_fits {size : ℕ} (h : size + pageSize ≤ uintRange) : LevelFits size := by
  have hps : pageSize = 4096 := rfl
  have hur : uintRange = 4294967296 := rfl
  have hnum := pfnNum_eq h
  have hcover : ∀ k, (size + 4095) / 4096 ≤ 2 ^ k ↔ size ≤ 2 ^ k * pageSize := by
    intro k
    rw [hps]
    generalize 2 ^ k = n
    omega
  constructor
  · rw [← hcover, allocLevel, hnum]
    exact levelFor_covers _ 32 0 (by norm_num; omega)
  · intro j hj
    rw [allocLevel, hnum]
    exact levelFor_least _ 32 0 (Nat.zero_le j) ((hcover j).mpr hj)

theorem allocLevel_wraps {size : ℕ} (hs : size < uintRange) (h : uintRange < size + pageSize) :
    allocLevel size = 0 := by
  rw [allocLevel, upperAlign_wraps hs h]
  rfl

theorem getPgnByPaddr_getPagePaddr (p : ℕ) : getPgnByPaddr (getPagePaddr p) = p := by
  rw [getPgnByPaddr, getPagePaddr, Nat.shiftLeft_shiftRight]

theorem allocPages_length {s b : BuddySys} {size a : ℕ} (h : allocPages s size = (b, some a)) :
    (b.pages (getPgnByPaddr a)).bplevel = allocLevel size := by
  rw [allocPages] at h
  cases hr : __allocPages s (levelFor (upperAlign size (1 <<< pageShift) >>> pageShift) 32 1 0)
      buddyAlloced with
  | mk c o =>
    simp only [hr, Prod.mk.injEq, Option.map_eq_some_iff] at h
    obtain ⟨rfl, p, rfl, rfl⟩ := h
    rw [getPgnByPaddr_getPagePaddr, BuddyInv.allocPages_page hr]
    rfl

theorem SlabInv.kmalloc_length {s t : SlabSys} {B : Set Block} {lists : PageList → List ℕ}
    {objs : SlabList → List ℕ} (hi : SlabInv s B lists objs) {size x : ℕ}
    (h : kmalloc s size = (t, some x)) (hfits : LevelFits size) : size ≤ allocLength t x := by
  rw [kmalloc] at h
  by_cases hsize : size ≤ kmemCacheSize (kmemCacheNum - 1)
  · rw [if_pos hsize] at h
    cases hf : (List.range kmemCacheNum).find? fun i => size ≤ kmemCacheSize i with
    | none => simp [hf] at h
    | some i =>
      have hlt : i < kmemCacheNum := List.mem_range.mp (List.mem_of_find?_eq_some hf)
      have hle : size ≤ kmemCacheSize i := by simpa using List.find?_some hf
      simp only [hf] at h
      rcases hi.kmemCacheAlloc_spec hlt h with ⟨hx, -⟩ | ⟨_, p, C, lists', objs', hx, h1, -, h3, -⟩
      · simp at hx
      · obtain rfl := Option.some.inj hx
        rwa [h1.object_length h3]
  · rw [if_neg hsize, allocPages] at h
    cases hr : __allocPages s.buddy (levelFor (upperAlign size (1 <<< pageShift) >>> pageShift) 32 1 0)
        buddyAlloced with
    | mk b o =>
      simp only [hr, Prod.mk.injEq, Option.map_eq_some_iff, Option.filter_eq_some_iff] at h
      obtain ⟨rfl, _, ⟨⟨p, rfl, rfl⟩, -⟩, rfl⟩ := h
      obtain ⟨C, lists', h1, -, -, h4⟩ := hi.large_alloc hr
      have hlen := h1.block_length h4
      rw [pageVaddr] at hlen
      rw [hlen]
      exact hfits.1

/-- Both allocators hand out enough, and `alloc_pages` no more than needed. -/
def AllocFits (s : SlabSys) (size : ℕ) : Prop :=
  (∀ t x, kmalloc s size = (t, some x) → size ≤ allocLength t x) ∧
    (∀ b a, allocPages s.buddy size = (b, some a) →
      size ≤ 2 ^ (b.pages (getPgnByPaddr a)).bplevel * pageSize) ∧
    LevelFits size

theorem alloc_fits_iff {boot : BootedMm} {pages : ℕ → Page} {links : PageLinks}
    {caches : ℕ → KmemCache} {slabs : ℕ → SlabHead} {objects : ObjectLinks} {ops : List SlabOp}
    {t : SlabTrace}
    (h : runOps slabStep (slabStart boot pages links caches slabs objects) ops = some t)
    {size : ℕ} (hs : size < uintRange) :
    AllocFits t.sys size ↔ size + pageSize ≤ uintRange := by
  constructor
  · intro hf
    by_contra hlt
    have hcover := hf.2.2.1
    rw [allocLevel_wraps hs (Nat.lt_of_not_le hlt)] at hcover
    simp only [uintRange, pageSize] at hlt hcover
    omega
  · intro hle
    obtain ⟨B, lists, objs, hi⟩ := slabRun_inv h
    have hfits := allocLevel_fits hle
    refine ⟨fun u x hu => hi.inv.kmalloc_length hu hfits, fun b a hb => ?_, hfits⟩
    rw [allocPages_length hb]
    exact hfits.1

theorem alloc_fits_small : AllocFits smallSlabRun.sys 3000 :=
  (alloc_fits_iff smallSlabRun_eq (by decide)).mpr (by decide)

theorem alloc_wraps :
    runOps slabStep smallSlab [] = some smallSlab ∧
      (kmalloc smallSlab.sys 4294967295).2 = some 0x80010000 ∧
      allocLength (kmalloc smallSlab.sys 4294967295).1 0x80010000 = 4096 ∧
      allocLevel 4294967295 = 0 := by
  refine ⟨rfl, ?_, ?_, ?_⟩ <;> decide +kernel

end OurOS
