import OurOS.Lib.AlignedBlocks
import OurOS.Mm.Buddy

set_option linter.style.nameCheck false

namespace OurOS

open AlignedBlocks Links

def freeBlocks (s : BuddySys) (B : Set Block) : Set Block :=
  {b | b ∈ B ∧ (s.pages b.head).usedInfo = buddyFree}

def allocBlocks (s : BuddySys) (B : Set Block) : Set Block :=
  {b | b ∈ B ∧ (s.pages b.head).usedInfo ≠ buddyFree}

structure BuddyInv (H : Set PageList) (s : BuddySys) (B hole : Set Block)
    (lists : PageList → List ℕ) : Prop where
  rings : Rings H s.links lists
  heads : ∀ k ≤ maxBuddyOrder, .freelist k ∈ H
  lo_dvd : 2 ^ maxBuddyOrder ∣ s.startPfn
  hi_dvd : 2 ^ maxBuddyOrder ∣ s.startPfn + s.pageNum
  tiling : Tiling s.startPfn (s.startPfn + s.pageNum) maxBuddyOrder B
  level : ∀ b ∈ B, b ∉ hole → (s.pages b.head).bplevel = b.level
  free : ∀ k p, p ∈ lists (.freelist k) ↔ ⟨p, k⟩ ∈ freeBlocks s B ∧ ⟨p, k⟩ ∉ hole
  listed : ∀ h p, p ∈ lists h → ∃ b ∈ B, b.head = p
  hole_sub : hole ⊆ B
  hole_out : ∀ b ∈ hole, ∀ h, b.head ∉ lists h
  coalesced : Coalesced maxBuddyOrder (freeBlocks s B \ hole)

structure SameOutside (s t : BuddySys) (B C hole hole' : Set Block)
    (lists lists' : PageList → List ℕ) : Prop where
  zone : t.startPfn = s.startPfn ∧ t.pageNum = s.pageNum
  alloc : ∀ b, b ∈ allocBlocks t C \ hole' ↔ b ∈ allocBlocks s B \ hole
  pages : ∀ b ∈ allocBlocks s B \ hole, t.pages b.head = s.pages b.head
  lists : ∀ h, (∀ k, h ≠ .freelist k) → lists' h = lists h

namespace SameOutside

variable {s t u : BuddySys} {B C D hole hole' hole'' : Set Block}
  {lists lists' lists'' : PageList → List ℕ}

theorem rfl' (s : BuddySys) (B hole : Set Block) (lists : PageList → List ℕ) :
    SameOutside s s B B hole hole lists lists :=
  ⟨⟨rfl, rfl⟩, fun _ => Iff.rfl, fun _ _ => rfl, fun _ _ => rfl⟩

theorem trans (h₁ : SameOutside s t B C hole hole' lists lists')
    (h₂ : SameOutside t u C D hole' hole'' lists' lists'') :
    SameOutside s u B D hole hole'' lists lists'' where
  zone := ⟨h₂.zone.1.trans h₁.zone.1, h₂.zone.2.trans h₁.zone.2⟩
  alloc b := (h₂.alloc b).trans (h₁.alloc b)
  pages b hb := (h₂.pages b ((h₁.alloc b).mpr hb)).trans (h₁.pages b hb)
  lists h hh := (h₂.lists h hh).trans (h₁.lists h hh)

end SameOutside

namespace BuddyInv

variable {H : Set PageList} {s : BuddySys} {B hole : Set Block} {lists : PageList → List ℕ}

theorem getBuddyPgn_eq (p k : ℕ) : getBuddyPgn p k = (⟨p, k⟩ : Block).buddy.head := by
  simp [getBuddyPgn, Block.buddy, Nat.one_shiftLeft]

theorem not_mem_of_alloc (hi : BuddyInv H s B hole lists) {b : Block} (hb : b ∈ allocBlocks s B)
    (k : ℕ) : b.head ∉ lists (.freelist k) :=
  fun h => hb.2 ((hi.free k b.head).mp h).1.2

/-- What the merge test of `__freePages` decides: whether the buddy of the block in hand is a
free block of the same level. -/
theorem merge_test (hi : BuddyInv H s B {b} lists) (hb : b ∈ B) (hk : b.level < maxBuddyOrder) :
    (b.level = (s.pages b.buddy.head).bplevel ∧ (s.pages b.buddy.head).usedInfo = buddyFree) ↔
      b.buddy ∈ freeBlocks s B := by
  constructor
  · rintro ⟨hl, hu⟩
    obtain ⟨c, hc, hch, hcl⟩ := hi.tiling.exists_buddy_head hi.lo_dvd hi.hi_dvd hb hk
    have hcb : c ≠ b := by
      rintro rfl
      have h1 := Block.not_mem_buddy (hi.tiling.aligned c hc) c.head_mem
      exact h1 (hch ▸ Block.head_mem _)
    have hlev := hi.level c hc hcb
    rw [hch, ← hl] at hlev
    have he : c = b.buddy := Block.ext hch hlev.symm
    exact ⟨he ▸ hc, hu⟩
  · rintro ⟨hc, hu⟩
    exact ⟨(hi.level b.buddy hc b.buddy_ne).symm, hu⟩

theorem coalesced_mono (hi : BuddyInv H s B hole lists) {F : Set Block}
    (hF : F ⊆ freeBlocks s B \ hole) : Coalesced maxBuddyOrder F :=
  fun b hb hk hb' => hi.coalesced b (hF hb) hk (hF hb')

theorem merge_step (hi : BuddyInv H s B {b} lists) (hb : b ∈ B) (hk : b.level < maxBuddyOrder)
    (hf : b.buddy ∈ freeBlocks s B) :
    let t := { s with links := listDelInit s.links (.inr b.buddy.head) }
    let C := insert b.parent (B \ {b, b.buddy})
    let lists' := Function.update lists (.freelist b.level)
      ((lists (.freelist b.level)).erase b.buddy.head)
    BuddyInv H t C {b.parent} lists' ∧ SameOutside s t B C {b} {b.parent} lists lists' := by
  intro t C lists'
  have ha := hi.tiling.aligned b hb
  have hbuddy : b.buddy.head ∈ lists (.freelist b.level) :=
    (hi.free _ _).mpr ⟨hf, b.buddy_ne⟩
  have hpar : b.parent ∉ B := by
    intro hp
    have he := hi.tiling.unique b hb _ hp b.head b.head_mem
      ((Block.mem_parent ha).mpr (.inl b.head_mem))
    have hl := congrArg Block.level he
    simp at hl
  have hC : ∀ c, c ∈ C ∧ c ∉ ({b.parent} : Set Block) ↔ c ∈ B ∧ c ≠ b ∧ c ≠ b.buddy := by
    intro c
    simp only [C, Set.mem_insert_iff, Set.mem_sdiff, Set.mem_singleton_iff, not_or]
    constructor
    · rintro ⟨h1, h2⟩
      exact h1.resolve_left h2
    · rintro ⟨h1, h2⟩
      exact ⟨.inr ⟨h1, h2⟩, fun e => hpar (e ▸ h1)⟩
  have hfree : ∀ c, c ∈ freeBlocks t C \ {b.parent} ↔
      (c ∈ freeBlocks s B \ {b}) ∧ c ≠ b.buddy := by
    intro c
    have h1 := hC c
    simp only [Set.mem_singleton_iff] at h1
    simp only [freeBlocks, Set.mem_sdiff, Set.mem_ofPred_eq, Set.mem_singleton_iff, t]
    tauto
  refine ⟨⟨listDelInit_rings hi.rings hbuddy, hi.heads, hi.lo_dvd, hi.hi_dvd,
    hi.tiling.merge hi.lo_dvd hi.hi_dvd hb hf.1 hk, ?_, ?_, ?_, by simp [C], ?_, ?_⟩, ?_⟩
  · intro c hc hne
    obtain ⟨h1, h2, -⟩ := (hC c).mp ⟨hc, hne⟩
    exact hi.level c h1 h2
  · intro k p
    have h1 := hfree ⟨p, k⟩
    have h2 := hi.free k p
    simp only [Set.mem_sdiff] at h1
    rw [h1, ← h2]
    by_cases e : k = b.level
    · subst e
      simp only [lists', Function.update_self, (hi.rings.nodup _).mem_erase_iff]
      have h3 : (⟨p, b.level⟩ : Block) ≠ b.buddy ↔ p ≠ b.buddy.head := by
        simp [Block.ext_iff]
      rw [h3, and_comm]
    · have h3 : PageList.freelist k ≠ .freelist b.level := by simpa using e
      have h4 : (⟨p, k⟩ : Block) ≠ b.buddy := fun h => e (congrArg Block.level h)
      simp [lists', Function.update_of_ne h3, h4]
  · intro h p hp
    obtain ⟨c, hc, rfl⟩ := hi.listed h p (Rings.mem_of_mem_erase hp)
    have hcb : c ≠ b := fun e => hi.hole_out b rfl h (e ▸ Rings.mem_of_mem_erase hp)
    have hcb' : c ≠ b.buddy := by
      rintro rfl
      exact hi.rings.not_mem_erase hbuddy h hp
    exact ⟨c, ((hC c).mpr ⟨hc, hcb, hcb'⟩).1, rfl⟩
  · rintro c rfl h
    rcases Block.parent_head ha with e | e
    · rw [e]
      exact fun h' => hi.hole_out b rfl h (Rings.mem_of_mem_erase h')
    · rw [e]
      exact hi.rings.not_mem_erase hbuddy h
  · exact hi.coalesced_mono fun c hc => ((hfree c).mp hc).1
  · refine ⟨⟨rfl, rfl⟩, fun c => ?_, fun _ _ => rfl, fun h hh => ?_⟩
    · have h1 := hC c
      simp only [Set.mem_singleton_iff] at h1
      simp only [allocBlocks, Set.mem_sdiff, Set.mem_ofPred_eq, Set.mem_singleton_iff, t]
      constructor
      · tauto
      · rintro ⟨⟨h2, h3⟩, h4⟩
        have h5 : c ≠ b.buddy := fun e => h3 (e ▸ hf.2)
        tauto
    · exact Function.update_of_ne (hh _) _ _

theorem coalesce_spec (n : ℕ) {s : BuddySys} {B : Set Block} {lists : PageList → List ℕ}
    {b : Block} (hi : BuddyInv H s B {b} lists) (hb : b ∈ B) (hn : n + b.level = maxBuddyOrder) :
    ∃ C c lists', (coalesce n s b.head b.level).2 = (c.head, c.level) ∧ c ∈ C ∧
      BuddyInv H (coalesce n s b.head b.level).1 C {c} lists' ∧
      SameOutside s (coalesce n s b.head b.level).1 B C {b} {c} lists lists' ∧
      (c.level < maxBuddyOrder → c.buddy ∉ freeBlocks (coalesce n s b.head b.level).1 C) := by
  induction n generalizing s B lists b with
  | zero =>
    exact ⟨B, b, lists, rfl, hb, hi, .rfl' .., fun h => absurd h (by omega)⟩
  | succ n ih =>
    have hk : b.level < maxBuddyOrder := by omega
    simp only [coalesce, getBuddyPgn_eq]
    by_cases hf : b.buddy ∈ freeBlocks s B
    · obtain ⟨hl, hu⟩ := (hi.merge_test hb hk).mpr hf
      rw [if_neg (by simp [← hl, hu])]
      obtain ⟨hi', hs⟩ := hi.merge_step hb hk hf
      obtain ⟨C, c, lists', h1, h2, h3, h4, h5⟩ := ih hi' (.inl rfl)
        (show n + b.parent.level = maxBuddyOrder by rw [Block.parent_level]; omega)
      exact ⟨C, c, lists', h1, h2, h3, hs.trans h4, h5⟩
    · have hcond : b.level ≠ (s.pages b.buddy.head).bplevel ∨
          (s.pages b.buddy.head).usedInfo ≠ buddyFree := by
        by_contra h
        simp only [not_or, ne_eq, not_not] at h
        exact hf ((hi.merge_test hb hk).mp h)
      rw [if_pos hcond]
      exact ⟨B, b, lists, rfl, hb, hi, .rfl' .., fun _ => hf⟩

theorem update_pages (hi : BuddyInv H s B hole lists) {b c : Block} (hb : b ∈ B) (hc : c ∈ B)
    (hne : c ≠ b) (page : Page) : Function.update s.pages b.head page c.head = s.pages c.head :=
  Function.update_of_ne (fun e => hne (hi.tiling.head_unique hc hb e)) _ _

theorem putFree_spec {b : Block} (hi : BuddyInv H s B (insert b hole) lists) (hb : b ∉ hole)
    (hbuddy : b.level < maxBuddyOrder → b.buddy ∉ freeBlocks s B \ insert b hole) :
    let t := putFree s b.head b.level
    let lists' := Function.update lists (.freelist b.level) (lists (.freelist b.level) ++ [b.head])
    BuddyInv H t B hole lists' ∧ SameOutside s t B B (insert b hole) hole lists lists' := by
  intro t lists'
  have hbB : b ∈ B := hi.hole_sub (.inl rfl)
  have hpage : t.pages b.head = { s.pages b.head with bplevel := b.level, usedInfo := buddyFree } :=
    Function.update_self ..
  have hpages : ∀ c ∈ B, c ≠ b → t.pages c.head = s.pages c.head :=
    fun c hc hne => hi.update_pages hbB hc hne _
  have hfree : ∀ c, c ∈ freeBlocks t B \ hole ↔ c = b ∨ c ∈ freeBlocks s B \ insert b hole := by
    intro c
    by_cases e : c = b
    · subst e
      simp [freeBlocks, hpage, hbB, hb]
    · simp only [freeBlocks, Set.mem_sdiff, Set.mem_ofPred_eq, Set.mem_insert_iff, e, false_or]
      refine ⟨fun h => ?_, fun h => ?_⟩
      · rwa [hpages c h.1.1 e] at h
      · rwa [hpages c h.1.1 e]
  have hmem : ∀ h p, p ∈ lists' h ↔ p ∈ lists h ∨ p = b.head ∧ h = .freelist b.level := by
    intro h p
    by_cases e : h = .freelist b.level
    · subst e; simp [lists']
    · simp [lists', e]
  refine ⟨⟨listAddTail_rings hi.rings (hi.heads _ (hi.tiling.level_le b hbB))
    (hi.hole_out b (.inl rfl)), hi.heads, hi.lo_dvd, hi.hi_dvd, hi.tiling, ?_, ?_, ?_, ?_, ?_, ?_⟩,
    ⟨rfl, rfl⟩, ?_, ?_, ?_⟩
  · intro c hc hne
    by_cases e : c = b
    · rw [e, hpage]
    · rw [hpages c hc e]
      exact hi.level c hc (by simp [e, hne])
  · intro k p
    rw [hmem, hi.free]
    have h1 := hfree ⟨p, k⟩
    simp only [Set.mem_sdiff] at h1
    rw [h1, or_comm]
    refine or_congr ?_ Iff.rfl
    simp [Block.ext_iff]
  · intro h p hp
    rcases (hmem h p).mp hp with hp | ⟨rfl, -⟩
    exacts [hi.listed h p hp, ⟨b, hbB, rfl⟩]
  · exact fun c hc => hi.hole_sub (.inr hc)
  · intro c hc h hp
    rcases (hmem h _).mp hp with hp | ⟨e, -⟩
    · exact hi.hole_out c (.inr hc) h hp
    · exact hb (hi.tiling.head_unique (hi.hole_sub (.inr hc)) hbB e ▸ hc)
  · intro c hc hk hc'
    rw [hfree] at hc hc'
    rcases hc with rfl | hc <;> rcases hc' with e | hc'
    · exact c.buddy_ne e
    · exact hbuddy hk hc'
    · have e' : c = b.buddy := by rw [← e, Block.buddy_buddy]
      subst e'
      exact hbuddy hk hc
    · exact hi.coalesced c hc hk hc'
  · intro c
    by_cases e : c = b
    · subst e
      simp [allocBlocks, hpage]
    · simp only [allocBlocks, Set.mem_sdiff, Set.mem_ofPred_eq, Set.mem_insert_iff, e, false_or]
      refine ⟨fun h => ?_, fun h => ?_⟩
      · rwa [hpages c h.1.1 e] at h
      · rwa [hpages c h.1.1 e]
  · intro c hc
    exact hpages c hc.1.1 fun e => hc.2 (.inl e)
  · intro h hh
    exact Function.update_of_ne (hh _) _ _

theorem open_alloc (hi : BuddyInv H s B ∅ lists) {b : Block} (hb : b ∈ allocBlocks s B)
    (hout : ∀ h, b.head ∉ lists h) : BuddyInv H s B {b} lists where
  rings := hi.rings
  heads := hi.heads
  lo_dvd := hi.lo_dvd
  hi_dvd := hi.hi_dvd
  tiling := hi.tiling
  level c hc _ := hi.level c hc (by simp)
  free k p := by
    rw [hi.free]
    refine and_congr_right fun h => ?_
    have hne : (⟨p, k⟩ : Block) ≠ b := fun e => hb.2 (e ▸ h.2)
    simp [hne]
  listed := hi.listed
  hole_sub := by simpa using hb.1
  hole_out := by simpa using hout
  coalesced := hi.coalesced_mono fun c hc => ⟨hc.1, by simp⟩

theorem freePages_spec (hi : BuddyInv H s B ∅ lists) {b : Block} (hb : b ∈ allocBlocks s B)
    (hout : ∀ h, b.head ∉ lists h) :
    ∃ C lists', BuddyInv H (__freePages s b.head) C ∅ lists' ∧
      SameOutside s (__freePages s b.head) B C {b} ∅ lists lists' := by
  have hzone : pgnIsInZone s b.head := hi.tiling.mem_range hb.1 b.head_mem
  have hlev : (s.pages b.head).bplevel = b.level := hi.level b hb.1 (by simp)
  have hle := hi.tiling.level_le b hb.1
  simp only [__freePages, hzone, not_true_eq_false, if_false, hb.2, hlev]
  obtain ⟨C, c, lists', h1, h2, h3, h4, h5⟩ :=
    (hi.open_alloc hb hout).coalesce_spec (maxBuddyOrder - b.level) hb.1 (by omega)
  have h3' : BuddyInv H (coalesce (maxBuddyOrder - b.level) s b.head b.level).1 C (insert c ∅)
      lists' := by simpa using h3
  obtain ⟨h6, h7⟩ := h3'.putFree_spec (by simp) fun hk hc => h5 hk hc.1
  rw [h1]
  exact ⟨C, _, h6, h4.trans (by simpa using h7)⟩

theorem take_free (hi : BuddyInv H s B ∅ lists) {b : Block} (hb : b ∈ freeBlocks s B) :
    let t := { s with links := listDelInit s.links (.inr b.head) }
    let lists' := Function.update lists (.freelist b.level)
      ((lists (.freelist b.level)).erase b.head)
    BuddyInv H t B {b} lists' ∧ SameOutside s t B B ∅ {b} lists lists' := by
  intro t lists'
  have hmem : b.head ∈ lists (.freelist b.level) := (hi.free _ _).mpr ⟨hb, by simp⟩
  refine ⟨⟨listDelInit_rings hi.rings hmem, hi.heads, hi.lo_dvd, hi.hi_dvd, hi.tiling, ?_, ?_, ?_,
    by simpa using hb.1, ?_, ?_⟩, ⟨rfl, rfl⟩, ?_, fun _ _ => rfl, ?_⟩
  · exact fun c hc _ => hi.level c hc (by simp)
  · intro k p
    have h1 := hi.free k p
    by_cases e : k = b.level
    · subst e
      simp only [lists', Function.update_self, (hi.rings.nodup _).mem_erase_iff, h1]
      simp [freeBlocks, t, Block.ext_iff, and_comm]
    · have h2 : PageList.freelist k ≠ .freelist b.level := by simpa using e
      have h3 : (⟨p, k⟩ : Block) ≠ b := fun h => e (congrArg Block.level h)
      simp only [lists', Function.update_of_ne h2, h1]
      simp [freeBlocks, t, h3]
  · exact fun h p hp => hi.listed h p (Rings.mem_of_mem_erase hp)
  · rintro c rfl h
    exact hi.rings.not_mem_erase hmem h
  · exact hi.coalesced_mono fun c hc => ⟨hc.1, by simp⟩
  · intro c
    have hne : c ∈ allocBlocks s B → c ≠ b := fun h e => h.2 (e ▸ hb.2)
    simp only [allocBlocks, Set.mem_sdiff, Set.mem_ofPred_eq, Set.mem_singleton_iff,
      Set.mem_empty_iff_false, not_false_eq_true, and_true, t] at hne ⊢
    tauto
  · exact fun h hh => Function.update_of_ne (hh _) _ _

theorem split_step {b : Block} (hi : BuddyInv H s B {b.parent} lists) (ha : b.Aligned) :
    let C := insert b (insert b.buddy (B \ {b.parent}))
    BuddyInv H s C {b.buddy, b} lists ∧ SameOutside s s B C {b.parent} {b.buddy, b} lists lists := by
  intro C
  have hp : b.parent ∈ B := hi.hole_sub rfl
  have hsub : ∀ c, c = b.buddy ∨ c = b → ∀ n ∈ c, n ∈ b.parent := by
    rintro c (rfl | rfl) n hn
    exacts [(Block.mem_parent ha).mpr (.inr hn), (Block.mem_parent ha).mpr (.inl hn)]
  have hnot : ∀ c, c = b.buddy ∨ c = b → c ∉ B := by
    intro c hc hcB
    have he := hi.tiling.unique c hcB _ hp c.head c.head_mem (hsub c hc _ c.head_mem)
    have hl := congrArg Block.level he
    rcases hc with rfl | rfl <;> simp at hl
  have hC : ∀ c, c ∈ C ∧ c ∉ ({b.buddy, b} : Set Block) ↔ c ∈ B ∧ c ≠ b.parent := by
    intro c
    have h1 := hnot c
    simp only [C, Set.mem_insert_iff, Set.mem_sdiff, Set.mem_singleton_iff]
    tauto
  have hset : ∀ P : Block → Prop, ∀ c, (c ∈ C ∧ P c) ∧ c ∉ ({b.buddy, b} : Set Block) ↔
      (c ∈ B ∧ P c) ∧ c ∉ ({b.parent} : Set Block) := by
    intro P c
    have h1 := hC c
    rw [Set.mem_singleton_iff]
    tauto
  refine ⟨⟨hi.rings, hi.heads, hi.lo_dvd, hi.hi_dvd, hi.tiling.split ha hp, ?_, ?_, ?_, ?_, ?_, ?_⟩,
    ⟨rfl, rfl⟩, fun c => hset (fun c => (s.pages c.head).usedInfo ≠ buddyFree) c,
    fun _ _ => rfl, fun _ _ => rfl⟩
  · intro c hc hne
    obtain ⟨h1, h2⟩ := (hC c).mp ⟨hc, hne⟩
    exact hi.level c h1 h2
  · intro k p
    rw [hi.free]
    exact (hset (fun c => (s.pages c.head).usedInfo = buddyFree) ⟨p, k⟩).symm
  · intro h p hp'
    obtain ⟨c, hc, rfl⟩ := hi.listed h p hp'
    have hne : c ≠ b.parent := fun e => hi.hole_out _ rfl h (e ▸ hp')
    exact ⟨c, ((hC c).mpr ⟨hc, hne⟩).1, rfl⟩
  · rintro c (rfl | rfl)
    exacts [.inr (.inl rfl), .inl rfl]
  · intro c hc h hin
    obtain ⟨d, hd, hdc⟩ := hi.listed h _ hin
    have hcp : d.head ∈ b.parent := by
      rw [hdc]
      exact hsub c hc _ c.head_mem
    have he := hi.tiling.unique d hd _ hp d.head d.head_mem hcp
    exact hi.hole_out _ rfl h (by rw [← he, hdc]; exact hin)
  · exact hi.coalesced_mono fun c hc =>
      (hset (fun c => (s.pages c.head).usedInfo = buddyFree) c).mp hc

theorem splitDown_spec (p k n : ℕ) {s : BuddySys} {B : Set Block} {lists : PageList → List ℕ}
    (hi : BuddyInv H s B {⟨p, k + n⟩} lists) :
    ∃ C lists', BuddyInv H (splitDown p k n s) C {⟨p, k⟩} lists' ∧
      SameOutside s (splitDown p k n s) B C {⟨p, k + n⟩} {⟨p, k⟩} lists lists' := by
  induction n generalizing s B lists with
  | zero => exact ⟨B, lists, hi, .rfl' ..⟩
  | succ n ih =>
    have hal : 2 ^ (k + n + 1) ∣ p := hi.tiling.aligned _ (hi.hole_sub rfl)
    have hpar : (⟨p, k + n⟩ : Block).parent = ⟨p, k + (n + 1)⟩ := Block.parent_of_aligned hal
    have ha : (⟨p, k + n⟩ : Block).Aligned := (pow_dvd_pow 2 (Nat.le_succ _)).trans hal
    rw [← hpar] at hi ⊢
    obtain ⟨h1, h2⟩ := hi.split_step ha
    obtain ⟨h3, h4⟩ := putFree_spec h1 (Block.buddy_ne _) fun _ h => h.2 (by simp)
    obtain ⟨C, lists', h5, h6⟩ := ih h3
    simp only [splitDown, getBuddyPgn_eq]
    exact ⟨C, lists', h5, h2.trans (h4.trans h6)⟩

theorem hand_out (hi : BuddyInv H s B {b} lists) (page : Page) (hl : page.bplevel = b.level)
    (hu : page.usedInfo ≠ buddyFree) :
    let t := { s with pages := Function.update s.pages b.head page }
    BuddyInv H t B ∅ lists ∧
      (∀ c, c ∈ allocBlocks t B ↔ c = b ∨ c ∈ allocBlocks s B \ {b}) ∧
      ∀ c ∈ allocBlocks s B \ {b}, t.pages c.head = s.pages c.head := by
  intro t
  have hbB : b ∈ B := hi.hole_sub rfl
  have hpage : t.pages b.head = page := Function.update_self ..
  have hpages : ∀ c ∈ B, c ≠ b → t.pages c.head = s.pages c.head :=
    fun c hc hne => hi.update_pages hbB hc hne _
  have hfree : ∀ c, c ∈ freeBlocks t B ↔ c ∈ freeBlocks s B \ {b} := by
    intro c
    by_cases e : c = b
    · subst e
      simp [freeBlocks, hpage, hu]
    · simp only [freeBlocks, Set.mem_sdiff, Set.mem_ofPred_eq, Set.mem_singleton_iff, e,
        not_false_eq_true, and_true]
      exact and_congr_right fun h => by rw [hpages c h e]
  refine ⟨⟨hi.rings, hi.heads, hi.lo_dvd, hi.hi_dvd, hi.tiling, ?_, ?_, hi.listed, by simp, by simp,
    hi.coalesced_mono fun c hc => (hfree c).mp hc.1⟩, ?_, ?_⟩
  · intro c hc _
    by_cases e : c = b
    · rw [e, hpage, hl]
    · rw [hpages c hc e]
      exact hi.level c hc e
  · intro k p
    rw [hi.free, hfree]
    simp
  · intro c
    by_cases e : c = b
    · subst e
      simp [allocBlocks, hpage, hu, hbB]
    · simp only [allocBlocks, Set.mem_sdiff, Set.mem_ofPred_eq, Set.mem_singleton_iff, e, false_or,
        not_false_eq_true, and_true]
      exact and_congr_right fun h => by rw [hpages c h e]
  · exact fun c hc => hpages c hc.1.1 hc.2

theorem relink (hi : BuddyInv H s B ∅ lists) {H' : Set PageList} {links : PageLinks}
    {lists' : PageList → List ℕ} (hr : Rings H' links lists')
    (hH : ∀ k ≤ maxBuddyOrder, .freelist k ∈ H')
    (hfree : ∀ k p, p ∈ lists' (.freelist k) ↔ p ∈ lists (.freelist k))
    (hlisted : ∀ h p, p ∈ lists' h → ∃ b ∈ B, b.head = p) :
    BuddyInv H' { s with links := links } B ∅ lists' where
  rings := hr
  heads := hH
  lo_dvd := hi.lo_dvd
  hi_dvd := hi.hi_dvd
  tiling := hi.tiling
  level := hi.level
  free k p := (hfree k p).trans (hi.free k p)
  listed := hlisted
  hole_sub := hi.hole_sub
  hole_out := by simp
  coalesced := hi.coalesced

theorem set_page (hi : BuddyInv H s B ∅ lists) {b : Block} (hb : b ∈ allocBlocks s B)
    (hout : ∀ h, b.head ∉ lists h) (page : Page) (hl : page.bplevel = b.level)
    (hu : page.usedInfo ≠ buddyFree) :
    let t := { s with pages := Function.update s.pages b.head page }
    BuddyInv H t B ∅ lists ∧ (∀ c, c ∈ allocBlocks t B ↔ c ∈ allocBlocks s B) ∧
      ∀ c ∈ allocBlocks s B, c ≠ b → t.pages c.head = s.pages c.head := by
  intro t
  obtain ⟨h1, h2, h3⟩ := (hi.open_alloc hb hout).hand_out page hl hu
  refine ⟨h1, fun c => (h2 c).trans ⟨?_, fun hc => ?_⟩, fun c hc hne => h3 c ⟨hc, hne⟩⟩
  · rintro (rfl | h)
    exacts [hb, h.1]
  · by_cases e : c = b
    exacts [.inl e, .inr ⟨hc, e⟩]

theorem findFreeBplevel_some (hi : BuddyInv H s B ∅ lists) {k i : ℕ}
    (h : findFreeBplevel s k = some i) :
    k ≤ i ∧ i ≤ maxBuddyOrder ∧ lists (.freelist i) ≠ [] := by
  have h1 := List.mem_of_find?_eq_some h
  have h2 := List.find?_some h
  rw [List.mem_range'_1] at h1
  have hle : i ≤ maxBuddyOrder := by omega
  refine ⟨h1.1, hle, fun he => ?_⟩
  simp [(listEmpty_iff hi.rings (hi.heads i hle)).mpr he] at h2

theorem findFreeBplevel_none (hi : BuddyInv H s B ∅ lists) {k : ℕ}
    (h : findFreeBplevel s k = none) : ∀ b ∈ freeBlocks s B, b.level < k := by
  intro b hb
  by_contra hk
  have hle := hi.tiling.level_le b hb.1
  have h1 := List.find?_eq_none.mp h b.level (by rw [List.mem_range'_1]; omega)
  have hmem : b.head ∈ lists (.freelist b.level) := (hi.free _ _).mpr ⟨hb, by simp⟩
  have h2 : listEmpty s.links (.inl (.freelist b.level)) = true := by simpa using h1
  rw [listEmpty_iff hi.rings (hi.heads _ hle)] at h2
  simp [h2] at hmem

theorem allocPages_none (hi : BuddyInv H s B ∅ lists) {k type : ℕ} (hk : k ≤ maxBuddyOrder)
    {t : BuddySys} (h : __allocPages s k type = (t, none)) :
    t = s ∧ ∀ b ∈ freeBlocks s B, b.level < k := by
  rw [__allocPages, if_neg (by omega)] at h
  cases hf : findFreeBplevel s k with
  | none =>
    simp only [hf] at h
    exact ⟨(Prod.mk.inj h).1.symm, hi.findFreeBplevel_none hf⟩
  | some i =>
    obtain ⟨-, hle, hne⟩ := hi.findFreeBplevel_some hf
    have hlast := listLastEntry_eq hi.rings (hi.heads i hle)
    rw [List.getLast?_eq_some_getLast hne] at hlast
    simp [hf, hlast] at h

theorem allocPages_none_eq (hi : BuddyInv H s B ∅ lists) {k type : ℕ} {t : BuddySys}
    (h : __allocPages s k type = (t, none)) : t = s := by
  rcases Nat.lt_or_ge maxBuddyOrder k with hk | hk
  · rw [__allocPages, if_pos hk] at h
    exact (Prod.mk.inj h).1.symm
  · exact (hi.allocPages_none hk h).1

theorem free_of_alloc_some (hi : BuddyInv H s B ∅ lists) {k type : ℕ} {t : BuddySys} {p : ℕ}
    (h : __allocPages s k type = (t, some p)) : ∃ b ∈ freeBlocks s B, k ≤ b.level := by
  by_contra hnone
  push Not at hnone
  rw [__allocPages] at h
  cases hf : findFreeBplevel s k with
  | none => simp [hf] at h
  | some i =>
    obtain ⟨hki, -, hne⟩ := hi.findFreeBplevel_some hf
    obtain ⟨q, hq⟩ := List.exists_mem_of_ne_nil _ hne
    exact absurd hki (Nat.not_le_of_lt (hnone _ ((hi.free i q).mp hq).1))

theorem splitDown_usedInfo (p k n q : ℕ) (s : BuddySys) :
    ((splitDown p k n s).pages q).usedInfo = buddyFree ∨
      ((splitDown p k n s).pages q).usedInfo = (s.pages q).usedInfo := by
  induction n generalizing s with
  | zero => exact .inr rfl
  | succ n ih =>
    rcases ih (putFree s (getBuddyPgn p (k + n)) (k + n)) with h | h
    · exact .inl h
    · by_cases e : q = getBuddyPgn p (k + n)
      · exact .inl (h.trans (by simp [putFree, e]))
      · exact .inr (h.trans (by simp [putFree, e]))

theorem allocPages_eq_some {k type : ℕ} {t : BuddySys} {p : ℕ}
    (h : __allocPages s k type = (t, some p)) :
    ∃ n, let u := splitDown p k n { s with links := listDelInit s.links (.inr p) }
      t = { u with pages := Function.update u.pages p ⟨type, 0, k, none⟩ } := by
  rw [__allocPages] at h
  by_cases hk : maxBuddyOrder < k
  · simp [hk] at h
  rw [if_neg hk] at h
  split at h
  · simp at h
  · split at h
    · simp at h
    · simp only [Prod.mk.injEq, Option.some.injEq] at h
      obtain ⟨rfl, rfl⟩ := h
      exact ⟨_, rfl⟩

theorem allocPages_usedInfo {k type : ℕ} {t : BuddySys} {p q : ℕ}
    (h : __allocPages s k type = (t, some p)) (hq : q ≠ p) :
    (t.pages q).usedInfo = buddyFree ∨ (t.pages q).usedInfo = (s.pages q).usedInfo := by
  obtain ⟨n, rfl⟩ := allocPages_eq_some h
  simpa only [Function.update_of_ne hq] using splitDown_usedInfo p k n q _

theorem allocPages_page {k type : ℕ} {t : BuddySys} {p : ℕ}
    (h : __allocPages s k type = (t, some p)) : t.pages p = ⟨type, 0, k, none⟩ := by
  obtain ⟨n, rfl⟩ := allocPages_eq_some h
  exact Function.update_self ..

theorem allocPages_some (hi : BuddyInv H s B ∅ lists) {k type : ℕ} (htype : type ≠ buddyFree)
    {t : BuddySys} {p : ℕ} (h : __allocPages s k type = (t, some p)) :
    ∃ C lists', BuddyInv H t C ∅ lists' ∧ k ≤ maxBuddyOrder ∧
      (∀ c, c ∈ allocBlocks t C ↔ c = ⟨p, k⟩ ∨ c ∈ allocBlocks s B) ∧
      ⟨p, k⟩ ∉ allocBlocks s B ∧
      (∀ c ∈ allocBlocks s B, t.pages c.head = s.pages c.head) ∧
      (t.pages p).usedInfo = type ∧
      (∀ h, (∀ j, h ≠ .freelist j) → lists' h = lists h) ∧ (∀ h, p ∉ lists' h) ∧
      t.startPfn = s.startPfn ∧ t.pageNum = s.pageNum := by
  rw [__allocPages] at h
  by_cases hk : maxBuddyOrder < k
  · simp [hk] at h
  rw [if_neg hk] at h
  cases hf : findFreeBplevel s k with
  | none => simp [hf] at h
  | some i =>
    obtain ⟨hki, hle, hne⟩ := hi.findFreeBplevel_some hf
    have hlast := listLastEntry_eq hi.rings (hi.heads i hle)
    rw [List.getLast?_eq_some_getLast hne] at hlast
    have hmem := List.getLast_mem hne
    generalize (lists (.freelist i)).getLast hne = q at hlast hmem
    simp only [hf, hlast, Prod.mk.injEq, Option.some.injEq] at h
    obtain ⟨ht, rfl⟩ := h
    obtain ⟨n, rfl⟩ := Nat.exists_eq_add_of_le hki
    rw [Nat.add_sub_cancel_left] at ht
    have hfree := ((hi.free _ _).mp hmem).1
    obtain ⟨h1, h2⟩ := hi.take_free hfree
    obtain ⟨C, lists', h3, h4⟩ := splitDown_spec q k n h1
    have hs := h2.trans h4
    obtain ⟨h5, h6, h7⟩ := h3.hand_out ⟨type, 0, k, none⟩ rfl htype
    have hin : ∀ c, c ∈ allocBlocks s B \ ∅ ↔ c ∈ allocBlocks s B := by simp
    have hnew : (⟨q, k⟩ : Block) ∉ allocBlocks s B := by
      intro hc
      exact ((hs.alloc _).mpr ((hin _).mpr hc)).2 rfl
    rw [← ht]
    refine ⟨C, lists', h5, Nat.le_of_not_lt hk, fun c => ?_, hnew, fun c hc => ?_, ?_, hs.lists,
      h3.hole_out _ rfl, hs.zone⟩
    · rw [h6 c, hs.alloc c, hin]
    · exact (h7 c ((hs.alloc c).mpr ((hin c).mpr hc))).trans (hs.pages c ((hin c).mpr hc))
    · simp

end BuddyInv

end OurOS
