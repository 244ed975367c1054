import OurOS.Lib.Run
import OurOS.Mm.BuddyInv

set_option linter.style.nameCheck false

namespace OurOS

open AlignedBlocks Links

inductive BuddyOp where
  | alloc (bplevel type : ℕ)
  | free (pgn : ℕ)
deriving DecidableEq, Repr

structure BuddyTrace where
  sys : BuddySys
  live : List ℕ

def buddyStep (t : BuddyTrace) : BuddyOp → Option BuddyTrace
  | .alloc bplevel type =>
    if type = buddyFree then none
    else
      let r := __allocPages t.sys bplevel type
      some ⟨r.1, r.2.toList ++ t.live⟩
  | .free pgn => if pgn ∈ t.live then some ⟨__freePages t.sys pgn, t.live.erase pgn⟩ else none

def buddyStart (boot : BootedMm) (pages : ℕ → Page) (links : PageLinks) : BuddyTrace :=
  ⟨initBuddy boot.toBootmmSys pages links, []⟩

def buddyHeads : Set PageList := {h | ∃ k ≤ maxBuddyOrder, h = .freelist k}

theorem initHeads_rings (l : PageLinks) (n : ℕ) :
    Rings {h : PageList | ∃ k < n, h = .freelist k}
      ((List.range n).foldl (fun l i => initListHead l (.inl (.freelist i))) l) (fun _ => []) := by
  induction n with
  | zero => simpa using Rings.none l
  | succ n ih =>
    rw [List.range_succ, List.foldl_append]
    have hset : {h : PageList | ∃ k < n + 1, h = .freelist k} =
        insert (.freelist n) {h | ∃ k < n, h = .freelist k} := by
      ext h
      constructor
      · rintro ⟨k, hk, rfl⟩
        rcases Nat.lt_succ_iff_lt_or_eq.mp hk with h | rfl
        exacts [.inr ⟨k, h, rfl⟩, .inl rfl]
      · rintro (rfl | ⟨k, hk, rfl⟩)
        exacts [⟨n, Nat.lt_succ_self n, rfl⟩, ⟨k, Nat.lt_succ_of_lt hk, rfl⟩]
    rw [hset]
    exact ih.reset_head rfl

section Init

variable (boot : BootedMm) (pages : ℕ → Page) (links : PageLinks)

theorem upperAlign_reserved {x k m : ℕ} (hk : k ≤ 32) (hx : x ≤ m * 2 ^ k)
    (hm : m * 2 ^ k + 2 ^ k ≤ uintRange) : upperAlign x (2 ^ k) ≤ m * 2 ^ k := by
  have hpos := Nat.two_pow_pos k
  rw [upperAlign_eq (by omega) hk]
  refine Nat.mul_le_mul_right _ (Nat.le_of_lt_succ ((Nat.div_lt_iff_lt_mul hpos).mpr ?_))
  rw [Nat.succ_mul]
  omega

theorem initZone_bounds :
    let z := initZone boot.toBootmmSys pages links
    2 ^ maxBuddyOrder ∣ z.startPfn ∧ 2 ^ maxBuddyOrder ∣ z.pageNum ∧
      z.startPfn + z.pageNum ≤ boot.pageNum := by
  intro z
  have h1 := boot.pageNum_le
  have h2 := boot.reserved_le
  have hmach : machinePageNum = 131072 := rfl
  set b := (boot.info 0).startAddr + (boot.info 0).length with hb
  set q := boot.pageNum / 2 ^ maxBuddyOrder with hq
  have hq16 : q * 2 ^ maxBuddyOrder ≤ boot.pageNum := Nat.div_mul_le_self _ _
  have h16 : 2 ^ maxBuddyOrder = 16 := rfl
  have hps : pageSize = 2 ^ pageShift := rfl
  have hshift : 2 ^ pageShift = 4096 := rfl
  have hr : upperAlign b (1 <<< pageShift) ≤ q * 2 ^ maxBuddyOrder * 2 ^ pageShift := by
    rw [Nat.one_shiftLeft]
    refine upperAlign_reserved (by decide) (hps ▸ h2) ?_
    simp only [h16, hshift, uintRange] at hq16 ⊢
    omega
  have hpg : upperAlign b (1 <<< pageShift) >>> pageShift ≤ q * 2 ^ maxBuddyOrder := by
    rw [Nat.shiftRight_eq_div_pow]
    exact Nat.div_le_of_le_mul (by rw [mul_comm (2 ^ pageShift)]; exact hr)
  have hsp : z.startPfn = upperAlign (upperAlign b (1 <<< pageShift) >>> pageShift)
      (2 ^ maxBuddyOrder) := rfl
  have hle : z.startPfn ≤ q * 2 ^ maxBuddyOrder := by
    rw [hsp]
    refine upperAlign_reserved (by decide) hpg ?_
    simp only [h16, uintRange] at hq16 ⊢
    omega
  have hpn : z.pageNum = (boot.pageNum - z.startPfn) / 2 ^ maxBuddyOrder * 2 ^ maxBuddyOrder := by
    refine lowerAlign_eq (k := maxBuddyOrder) ?_ (by decide)
    simp only [uintRange]
    omega
  refine ⟨?_, ⟨_, by rw [hpn, mul_comm]⟩, ?_⟩
  · rw [hsp, upperAlign_eq _ (by decide)]
    · exact ⟨_, mul_comm _ _⟩
    · simp only [h16, uintRange] at hpg hq16 ⊢
      omega
  · have := Nat.div_mul_le_self (boot.pageNum - z.startPfn) (2 ^ maxBuddyOrder)
    omega

def pageBlocks (s : BuddySys) : Set Block :=
  {b | b.level = 0 ∧ s.startPfn ≤ b.head ∧ b.head < s.startPfn + s.pageNum}

theorem initZone_inv :
    let z := initZone boot.toBootmmSys pages links
    BuddyInv buddyHeads z (pageBlocks z) ∅ (fun _ => []) ∧
      allocBlocks z (pageBlocks z) = pageBlocks z := by
  intro z
  obtain ⟨h1, h2, h3⟩ := initZone_bounds boot pages links
  have hpage : ∀ b ∈ pageBlocks z, z.pages b.head = reservedPage (pages b.head) := by
    rintro b ⟨-, -, hb⟩
    exact if_pos (hb.trans_le h3)
  have hfree : freeBlocks z (pageBlocks z) = ∅ := by
    refine Set.eq_empty_of_forall_notMem fun b hb => ?_
    have hu := hb.2
    rw [hpage b hb.1] at hu
    exact absurd hu (by decide : buddyReserved ≠ buddyFree)
  have hheads : buddyHeads = {h : PageList | ∃ k < maxBuddyOrder + 1, h = .freelist k} := by
    ext h
    simp [buddyHeads, Nat.lt_succ_iff]
  refine ⟨⟨hheads ▸ initHeads_rings _ _, fun k hk => ⟨k, hk, rfl⟩, h1, (Nat.dvd_add h1 h2),
    Tiling.singletons _ _ _, ?_, ?_, by simp, by simp, by simp, ?_⟩, ?_⟩
  · intro b hb _
    rw [hpage b hb, hb.1]
    rfl
  · simp [hfree]
  · simp [hfree, Coalesced]
  · ext b
    refine ⟨fun h => h.1, fun h => ⟨h, ?_⟩⟩
    rw [hpage b h]
    exact (by decide : buddyReserved ≠ buddyFree)

structure InitStep (z s : BuddySys) (n : ℕ) (B : Set Block) (lists : PageList → List ℕ) : Prop where
  inv : BuddyInv buddyHeads s B ∅ lists
  alloc : ∀ b, b ∈ allocBlocks s B ↔ b ∈ pageBlocks z ∧ z.startPfn + n ≤ b.head
  zone : s.startPfn = z.startPfn ∧ s.pageNum = z.pageNum
  lists : ∀ h, (∀ k, h ≠ .freelist k) → lists h = []

theorem initBuddy_steps (n : ℕ) (hn : n ≤ (initZone boot.toBootmmSys pages links).pageNum) :
    let z := initZone boot.toBootmmSys pages links
    ∃ B lists, InitStep z
      ((List.range n).foldl (fun s i => __freePages s (s.startPfn + i)) z) n B lists := by
  intro z
  induction n with
  | zero =>
    obtain ⟨h1, h2⟩ := initZone_inv boot pages links
    refine ⟨_, _, h1, fun b => ?_, ⟨rfl, rfl⟩, fun _ _ => rfl⟩
    change b ∈ allocBlocks z (pageBlocks z) ↔ _
    rw [h2]
    exact ⟨fun h => ⟨h, h.2.1⟩, fun h => h.1⟩
  | succ n ih =>
    obtain ⟨B, lists, hi⟩ := ih (by omega)
    rw [List.range_succ, List.foldl_append, List.foldl_cons, List.foldl_nil]
    set s := (List.range n).foldl (fun s i => __freePages s (s.startPfn + i)) z
    have hlt : z.startPfn + n < z.startPfn + z.pageNum := Nat.add_lt_add_left hn _
    have hb : (⟨z.startPfn + n, 0⟩ : Block) ∈ allocBlocks s B :=
      (hi.alloc _).mpr ⟨⟨rfl, Nat.le_add_right _ _, hlt⟩, le_rfl⟩
    have hout : ∀ h, z.startPfn + n ∉ lists h := by
      intro h hp
      by_cases hk : ∀ k, h ≠ .freelist k
      · simp [hi.lists h hk] at hp
      · obtain ⟨k, rfl⟩ := not_forall_not.mp hk
        exact hi.inv.not_mem_of_alloc hb k hp
    obtain ⟨C, lists', h1, h2⟩ := hi.inv.freePages_spec hb hout
    rw [hi.zone.1]
    refine ⟨C, lists', h1, fun b => ?_, ⟨h2.zone.1.trans hi.zone.1, h2.zone.2.trans hi.zone.2⟩,
      fun h hh => (h2.lists h hh).trans (hi.lists h hh)⟩
    have h3 := h2.alloc b
    simp only [Set.mem_sdiff, Set.mem_empty_iff_false, not_false_eq_true, and_true,
      Set.mem_singleton_iff] at h3
    rw [h3, hi.alloc]
    have h4 : b ∈ pageBlocks z → (b = ⟨z.startPfn + n, 0⟩ ↔ b.head = z.startPfn + n) := by
      intro hb
      simp [Block.ext_iff, hb.1]
    constructor
    · rintro ⟨⟨hb, hle⟩, hne⟩
      rw [h4 hb] at hne
      exact ⟨hb, by omega⟩
    · rintro ⟨hb, hle⟩
      exact ⟨⟨hb, by omega⟩, by rw [h4 hb]; omega⟩

end Init

structure TraceInv (z : BuddySys) (t : BuddyTrace) (B : Set Block)
    (lists : PageList → List ℕ) : Prop where
  inv : BuddyInv buddyHeads t.sys B ∅ lists
  nodup : t.live.Nodup
  live : ∀ p, p ∈ t.live ↔ ∃ b ∈ allocBlocks t.sys B, b.head = p
  zone : t.sys.startPfn = z.startPfn ∧ t.sys.pageNum = z.pageNum
  lists : ∀ h, (∀ k, h ≠ .freelist k) → lists h = []

theorem buddyStart_inv (boot : BootedMm) (pages : ℕ → Page) (links : PageLinks) :
    ∃ B lists, TraceInv (initZone boot.toBootmmSys pages links) (buddyStart boot pages links)
      B lists := by
  obtain ⟨B, lists, hi⟩ := initBuddy_steps boot pages links _ le_rfl
  refine ⟨B, lists, hi.inv, List.nodup_nil, fun p => ?_, hi.zone, hi.lists⟩
  simp only [buddyStart, List.not_mem_nil, false_iff, not_exists, not_and]
  intro b hb _
  obtain ⟨h1, h2⟩ := (hi.alloc b).mp hb
  exact absurd h1.2.2 (by omega)

namespace TraceInv

variable {z : BuddySys} {t u : BuddyTrace} {B : Set Block} {lists : PageList → List ℕ}

theorem not_listed (hi : TraceInv z t B lists) {b : Block} (hb : b ∈ allocBlocks t.sys B)
    (h : PageList) : b.head ∉ lists h := by
  intro hp
  by_cases hk : ∀ k, h ≠ .freelist k
  · simp [hi.lists h hk] at hp
  · obtain ⟨k, rfl⟩ := not_forall_not.mp hk
    exact hi.inv.not_mem_of_alloc hb k hp

theorem step_alloc (hi : TraceInv z t B lists) {k type : ℕ}
    (h : buddyStep t (.alloc k type) = some u) : ∃ C lists', TraceInv z u C lists' := by
  simp only [buddyStep] at h
  by_cases htype : type = buddyFree
  · simp [htype] at h
  rw [if_neg htype] at h
  obtain rfl := Option.some.inj h
  cases hr : (__allocPages t.sys k type).2 with
  | none =>
    have hs : (__allocPages t.sys k type).1 = t.sys :=
      hi.inv.allocPages_none_eq (Prod.ext rfl hr)
    simp only [hs, Option.toList_none, List.nil_append]
    exact ⟨B, lists, hi⟩
  | some p =>
    obtain ⟨C, lists', h1, -, h3, h4, -, -, h7, -, h9⟩ :=
      hi.inv.allocPages_some htype (Prod.ext rfl hr)
    refine ⟨C, lists', h1, ?_, fun q => ?_, ?_, fun h hh => (h7 h hh).trans (hi.lists h hh)⟩
    · refine List.nodup_cons.mpr ⟨fun hp => ?_, hi.nodup⟩
      obtain ⟨b, hb, hbp⟩ := (hi.live p).mp hp
      have hb' := (h3 b).mpr (.inr hb)
      have hnew := (h3 ⟨p, k⟩).mpr (.inl rfl)
      have he := h1.tiling.head_unique hb'.1 hnew.1 hbp
      exact h4 (he ▸ hb)
    · simp only [Option.toList_some, List.singleton_append, List.mem_cons, hi.live, h3]
      constructor
      · rintro (rfl | ⟨b, hb, rfl⟩)
        exacts [⟨_, .inl rfl, rfl⟩, ⟨b, .inr hb, rfl⟩]
      · rintro ⟨b, rfl | hb, rfl⟩
        exacts [.inl rfl, .inr ⟨b, hb, rfl⟩]
    · exact ⟨h9.1.trans hi.zone.1, h9.2.trans hi.zone.2⟩

theorem step_free (hi : TraceInv z t B lists) {p : ℕ} (h : buddyStep t (.free p) = some u) :
    ∃ C lists', TraceInv z u C lists' := by
  simp only [buddyStep] at h
  by_cases hp : p ∈ t.live
  · rw [if_pos hp] at h
    obtain rfl := Option.some.inj h
    obtain ⟨b, hb, rfl⟩ := (hi.live p).mp hp
    obtain ⟨C, lists', h1, h2⟩ := hi.inv.freePages_spec hb (hi.not_listed hb)
    refine ⟨C, lists', h1, hi.nodup.erase _, fun q => ?_,
      ⟨h2.zone.1.trans hi.zone.1, h2.zone.2.trans hi.zone.2⟩,
      fun h hh => (h2.lists h hh).trans (hi.lists h hh)⟩
    rw [hi.nodup.mem_erase_iff, hi.live]
    have h3 : ∀ c, c ∈ allocBlocks (__freePages t.sys b.head) C ↔ c ∈ allocBlocks t.sys B ∧ c ≠ b := by
      simpa using h2.alloc
    constructor
    · rintro ⟨hne, c, hc, rfl⟩
      exact ⟨c, (h3 c).mpr ⟨hc, fun e => hne (by rw [e])⟩, rfl⟩
    · rintro ⟨c, hc, rfl⟩
      obtain ⟨hc, hne⟩ := (h3 c).mp hc
      exact ⟨fun e => hne (hi.inv.tiling.head_unique hc.1 hb.1 e), c, hc, rfl⟩
  · simp [hp] at h

end TraceInv

theorem buddyRun_inv {boot : BootedMm} {pages : ℕ → Page} {links : PageLinks}
    {ops : List BuddyOp} {t : BuddyTrace}
    (h : runOps buddyStep (buddyStart boot pages links) ops = some t) :
    ∃ B lists, TraceInv (initZone boot.toBootmmSys pages links) t B lists := by
  refine runOps_invariant
    (P := fun t => ∃ B lists, TraceInv (initZone boot.toBootmmSys pages links) t B lists)
    ?_ (buddyStart_inv boot pages links) h
  rintro s (⟨k, type⟩ | p) u ⟨B, lists, hi⟩ hs
  exacts [hi.step_alloc hs, hi.step_free hs]

def smallBoot : BootedMm where
  pageNum := 32
  info _ := ⟨0, 16 * 4096, 0⟩
  pageNum_le := by decide
  reserved_le := by decide

def machineBoot : BootedMm where
  pageNum := machinePageNum
  info _ := ⟨0, 19 * 1024 * 1024, 0⟩
  pageNum_le := le_rfl
  reserved_le := by decide

def blankPages : ℕ → Page := fun _ => ⟨buddyFree, 0, 0, none⟩

def blankLinks : PageLinks := ⟨id, id⟩

def smallStart : BuddyTrace := buddyStart smallBoot blankPages blankLinks

theorem smallRun_isSome :
    (runOps buddyStep smallStart [.alloc 1 2, .alloc 0 1, .free 16]).isSome = true := by
  decide +kernel

def smallRun : BuddyTrace := Option.get _ smallRun_isSome

theorem smallRun_eq :
    runOps buddyStep smallStart [.alloc 1 2, .alloc 0 1, .free 16] = some smallRun :=
  Option.some_get _ ▸ rfl

theorem buddyRun_partition {boot : BootedMm} {pages : ℕ → Page} {links : PageLinks}
    {ops : List BuddyOp} {t : BuddyTrace}
    (h : runOps buddyStep (buddyStart boot pages links) ops = some t) :
    ∃ (B : Set Block) (lists : ℕ → List ℕ),
      Tiling t.sys.startPfn (t.sys.startPfn + t.sys.pageNum) maxBuddyOrder B ∧
      (∀ b ∈ B, (t.sys.pages b.head).bplevel = b.level) ∧
      (∀ k ≤ maxBuddyOrder, Ring t.sys.links (.inl (.freelist k)) ((lists k).map .inr)) ∧
      (∀ b ∈ B, (lists b.level).count b.head = 1 ↔ b ∈ freeBlocks t.sys B) ∧
      (∀ k, ∀ p ∈ lists k, ⟨p, k⟩ ∈ freeBlocks t.sys B) ∧
      (∀ b ∈ allocBlocks t.sys B, ∀ k, b.head ∉ lists k) ∧
      t.live.Nodup ∧ (∀ p, p ∈ t.live ↔ ∃ b ∈ allocBlocks t.sys B, b.head = p) ∧
      t.sys.startPfn = (initZone boot.toBootmmSys pages links).startPfn ∧
      t.sys.pageNum = (initZone boot.toBootmmSys pages links).pageNum := by
  obtain ⟨B, lists, hi⟩ := buddyRun_inv h
  have hmem : ∀ k p, p ∈ lists (.freelist k) ↔ ⟨p, k⟩ ∈ freeBlocks t.sys B := by
    simpa using hi.inv.free
  refine ⟨B, fun k => lists (.freelist k), hi.inv.tiling, fun b hb => hi.inv.level b hb (by simp),
    fun k hk => hi.inv.rings.ring _ (hi.inv.heads k hk), fun b _ => ?_,
    fun k p hp => (hmem k p).mp hp, fun b hb k => hi.inv.not_mem_of_alloc hb k, hi.nodup, hi.live,
    hi.zone⟩
  rw [← hmem b.level b.head]
  constructor
  · intro hc
    exact List.one_le_count_iff.mp hc.ge
  · intro hp
    exact List.count_eq_one_of_mem (hi.inv.rings.nodup _) hp

theorem buddyRun_partition_small :
    ∃ (B : Set Block) (lists : ℕ → List ℕ),
      Tiling smallRun.sys.startPfn (smallRun.sys.startPfn + smallRun.sys.pageNum)
        maxBuddyOrder B ∧
      (∀ b ∈ B, (smallRun.sys.pages b.head).bplevel = b.level) ∧
      (∀ b ∈ B, (lists b.level).count b.head = 1 ↔ b ∈ freeBlocks smallRun.sys B) ∧
      smallRun.live.Nodup := by
  obtain ⟨B, lists, h1, h2, -, h4, -, -, h7, -⟩ := buddyRun_partition smallRun_eq
  exact ⟨B, lists, h1, h2, h4, h7⟩

def isFreeBlock (s : BuddySys) (b : Block) : Prop :=
  b.level ≤ maxBuddyOrder ∧ OnRing s.links (.freelist b.level) b.head

def isFreePage (s : BuddySys) (n : ℕ) : Prop := ∃ b, isFreeBlock s b ∧ n ∈ b

theorem BuddyInv.isFreeBlock_iff {H : Set PageList} {s : BuddySys} {B : Set Block}
    {lists : PageList → List ℕ} (hi : BuddyInv H s B ∅ lists) (b : Block) :
    isFreeBlock s b ↔ b ∈ freeBlocks s B := by
  constructor
  · rintro ⟨hk, hp⟩
    rw [hi.rings.onRing_iff (hi.heads _ hk), hi.free] at hp
    exact hp.1
  · intro hb
    have hk := hi.tiling.level_le b hb.1
    refine ⟨hk, ?_⟩
    rw [hi.rings.onRing_iff (hi.heads _ hk), hi.free]
    exact ⟨hb, fun h => h⟩

namespace TraceInv

variable {z : BuddySys} {t : BuddyTrace} {B : Set Block} {lists : PageList → List ℕ}

theorem isFreePage_iff (hi : TraceInv z t B lists) (n : ℕ) :
    isFreePage t.sys n ↔ ∃ b ∈ freeBlocks t.sys B, n ∈ b := by
  simp only [isFreePage, hi.inv.isFreeBlock_iff]

theorem free_coalesced (hi : TraceInv z t B lists) :
    Coalesced maxBuddyOrder (freeBlocks t.sys B) := by
  simpa using hi.inv.coalesced

theorem free_canonical (hi : TraceInv z t B lists) (b : Block) :
    isFreeBlock t.sys b ↔ MaximalRun maxBuddyOrder (isFreePage t.sys) b := by
  have hfun : isFreePage t.sys = fun n => ∃ c ∈ freeBlocks t.sys B, n ∈ c :=
    funext fun n => propext (hi.isFreePage_iff n)
  rw [hi.inv.isFreeBlock_iff, hfun]
  exact hi.free_coalesced.mem_iff_maximalRun hi.inv.tiling (fun _ h => h.1) b

theorem alloc_none_iff (hi : TraceInv z t B lists) {k type : ℕ} (hk : k ≤ maxBuddyOrder) :
    (__allocPages t.sys k type).2 = none ↔
      ¬ ∃ r : Block, r.level = k ∧ r.Aligned ∧ ∀ n ∈ r, isFreePage t.sys n := by
  constructor
  · rintro hnone ⟨r, rfl, ha, hfree⟩
    obtain ⟨-, hlow⟩ := hi.inv.allocPages_none hk (Prod.ext rfl hnone)
    obtain ⟨b, hb, hbl, -⟩ := hi.free_coalesced.exists_block_of_run hi.inv.tiling
      (fun _ h => h.1) ha hk fun n hn => (hi.isFreePage_iff n).mp (hfree n hn)
    exact absurd (hlow b hb) (Nat.not_lt_of_ge hbl)
  · intro hrun
    cases hr : (__allocPages t.sys k type).2 with
    | none => rfl
    | some p =>
      refine absurd ?_ hrun
      obtain ⟨b, hb, hbl⟩ := hi.inv.free_of_alloc_some (Prod.ext rfl hr)
      have ha := hi.inv.tiling.aligned b hb.1
      refine ⟨⟨b.head, k⟩, rfl, (pow_dvd_pow 2 hbl).trans ha, fun n hn => ?_⟩
      exact (hi.isFreePage_iff n).mpr ⟨b, hb, hn.1,
        hn.2.trans_le (Nat.add_le_add_left (Nat.pow_le_pow_right two_pos hbl) _)⟩

theorem free_of_live_nil (hi : TraceInv z t B lists) (hlive : t.live = []) (b : Block) :
    isFreeBlock t.sys b ↔ b.level = maxBuddyOrder ∧ 2 ^ maxBuddyOrder ∣ b.head ∧
      z.startPfn ≤ b.head ∧ b.head < z.startPfn + z.pageNum := by
  have hall : freeBlocks t.sys B = B := by
    refine Set.Subset.antisymm (fun _ h => h.1) fun c hc => ⟨hc, ?_⟩
    by_contra hu
    have := (hi.live c.head).mpr ⟨c, ⟨hc, hu⟩, rfl⟩
    simp [hlive] at this
  have hco := hi.free_coalesced
  rw [hall] at hco
  rw [hi.inv.isFreeBlock_iff, hall, ← hi.zone.1, ← hi.zone.2]
  exact hco.eq_top_of_all hi.inv.tiling hi.inv.lo_dvd hi.inv.hi_dvd b

end TraceInv

theorem buddyRun_canonical {boot : BootedMm} {pages : ℕ → Page} {links : PageLinks}
    {ops : List BuddyOp} {t : BuddyTrace}
    (h : runOps buddyStep (buddyStart boot pages links) ops = some t) :
    (∀ b, isFreeBlock t.sys b ↔ MaximalRun maxBuddyOrder (isFreePage t.sys) b) ∧
      (∀ b, isFreeBlock t.sys b → b.level < maxBuddyOrder → ¬ isFreeBlock t.sys b.buddy) ∧
      (∀ k type, (__allocPages t.sys k type).2 = none ↔
        maxBuddyOrder < k ∨
          ¬ ∃ r : Block, r.level = k ∧ r.Aligned ∧ ∀ n ∈ r, isFreePage t.sys n) ∧
      (t.live = [] → ∀ b,
        (isFreeBlock t.sys b ↔ isFreeBlock (initBuddy boot.toBootmmSys pages links) b) ∧
        (isFreeBlock t.sys b → b.level = maxBuddyOrder)) := by
  obtain ⟨B, lists, hi⟩ := buddyRun_inv h
  refine ⟨hi.free_canonical, fun b hb hk hbuddy => ?_, fun k type => ?_, fun hlive b => ?_⟩
  · rw [hi.inv.isFreeBlock_iff] at hb hbuddy
    exact hi.free_coalesced b hb hk hbuddy
  · rcases Nat.lt_or_ge maxBuddyOrder k with hk | hk
    · simp [__allocPages, hk]
    · rw [hi.alloc_none_iff hk]
      simp [Nat.not_lt_of_ge hk]
  · obtain ⟨B₀, lists₀, hi₀⟩ := buddyStart_inv boot pages links
    have h₀ := hi₀.free_of_live_nil rfl b
    rw [hi.free_of_live_nil hlive b]
    exact ⟨h₀.symm, fun h => h.1⟩

theorem buddyRun_canonical_small :
    (∀ b, isFreeBlock smallRun.sys b ↔ MaximalRun maxBuddyOrder (isFreePage smallRun.sys) b) ∧
      ((__allocPages smallRun.sys 3 buddyAlloced).2 = none ↔ maxBuddyOrder < 3 ∨
        ¬ ∃ r : Block, r.level = 3 ∧ r.Aligned ∧ ∀ n ∈ r, isFreePage smallRun.sys n) := by
  obtain ⟨h1, -, h3, -⟩ := buddyRun_canonical smallRun_eq
  exact ⟨h1, h3 3 buddyAlloced⟩

/-- A run of `2 ^ 5` free pages on the booted machine is never handed out in one piece. -/
theorem allocPages_above_max_order :
    runOps buddyStep (buddyStart machineBoot blankPages blankLinks) [] =
        some (buddyStart machineBoot blankPages blankLinks) ∧
      (__allocPages (buddyStart machineBoot blankPages blankLinks).sys 5 buddyAlloced).2 = none ∧
      ∃ r : Block, r.level = 5 ∧ r.Aligned ∧
        ∀ n ∈ r, isFreePage (buddyStart machineBoot blankPages blankLinks).sys n := by
  refine ⟨rfl, rfl, ⟨4864, 5⟩, rfl, ⟨152, rfl⟩, fun n hn => ?_⟩
  obtain ⟨B, lists, hi⟩ := buddyStart_inv machineBoot blankPages blankLinks
  have hz : (initZone machineBoot.toBootmmSys blankPages blankLinks).startPfn = 4864 ∧
      (initZone machineBoot.toBootmmSys blankPages blankLinks).pageNum = 126208 := by
    decide +kernel
  obtain ⟨h1, h2⟩ := hn
  refine ⟨⟨n / 16 * 16, maxBuddyOrder⟩,
    (hi.free_of_live_nil rfl _).mpr ⟨rfl, ⟨_, mul_comm _ _⟩, ?_⟩, ?_⟩
  · rw [hz.1, hz.2]
    simp only at h1 h2 ⊢
    omega
  · simp only [Block.mem_def, maxBuddyOrder]
    omega

theorem getBuddyPgn_and (p k : ℕ) :
    p &&& getBuddyPgn p k = p ∨ p &&& getBuddyPgn p k = getBuddyPgn p k := by
  rw [getBuddyPgn, Nat.one_shiftLeft]
  cases hb : p.testBit k with
  | false =>
    refine .inl (Nat.eq_of_testBit_eq fun i => ?_)
    simp only [Nat.testBit_and, Nat.testBit_xor, Nat.testBit_two_pow]
    by_cases h : k = i
    · simp [← h, hb]
    · simp [h]
  | true =>
    refine .inr (Nat.eq_of_testBit_eq fun i => ?_)
    simp only [Nat.testBit_and, Nat.testBit_xor, Nat.testBit_two_pow]
    by_cases h : k = i
    · simp [← h, hb]
    · simp [h]

theorem coalesce_links (n : ℕ) (s : BuddySys) (p k : ℕ) :
    ∃ links, (coalesce n s p k).1 = { s with links := links } := by
  induction n generalizing s p k with
  | zero => exact ⟨s.links, rfl⟩
  | succ n ih =>
    simp only [coalesce]
    split
    · exact ⟨s.links, rfl⟩
    · exact ih _ _ _

@[simp] theorem coalesce_pages (n : ℕ) (s : BuddySys) (p k : ℕ) :
    (coalesce n s p k).1.pages = s.pages := by
  obtain ⟨links, h⟩ := coalesce_links n s p k
  rw [h]

/-- The head and level that the merging ends with are never those of a page already free. -/
theorem coalesce_fresh (n : ℕ) {s : BuddySys} {p k : ℕ}
    (h : (s.pages p).usedInfo ≠ buddyFree ∨ (s.pages p).bplevel < k) :
    let r := (coalesce n s p k).2
    (s.pages r.1).usedInfo ≠ buddyFree ∨ (s.pages r.1).bplevel < r.2 := by
  induction n generalizing s p k with
  | zero => exact h
  | succ n ih =>
    simp only [coalesce]
    split_ifs with hstop
    · exact h
    · simp only [ne_eq, not_or, not_not] at hstop
      have hnext : (s.pages (p &&& getBuddyPgn p k)).usedInfo ≠ buddyFree ∨
          (s.pages (p &&& getBuddyPgn p k)).bplevel < k + 1 := by
        rcases getBuddyPgn_and p k with e | e <;> rw [e]
        · exact h.imp_right Nat.lt_succ_of_lt
        · exact .inr (hstop.1 ▸ Nat.lt_succ_self k)
      exact ih (s := { s with links := _ }) hnext

theorem freePages_eq_self_iff {s : BuddySys} {p : ℕ} (hz : pgnIsInZone s p) :
    __freePages s p = s ↔ (s.pages p).usedInfo = buddyFree := by
  constructor
  · intro h
    by_contra hu
    rw [__freePages, if_neg (not_not.mpr hz), if_neg hu] at h
    have hfresh := coalesce_fresh (maxBuddyOrder - (s.pages p).bplevel) (s := s)
      (k := (s.pages p).bplevel) (.inl hu)
    dsimp only at h hfresh
    generalize coalesce _ s p _ = r at h hfresh
    have hpage := congrArg (fun s => s.pages r.2.1) h
    simp only [putFree, Function.update_self] at hpage
    simp [← hpage] at hfresh
  · intro hu
    rw [__freePages, if_neg (not_not.mpr hz), if_pos hu]

theorem freePages_page (s : BuddySys) (p q : ℕ) :
    (__freePages s p).pages q = s.pages q ∨
      ∃ k, (__freePages s p).pages q = { s.pages q with bplevel := k, usedInfo := buddyFree } := by
  by_cases hz : pgnIsInZone s p
  · by_cases hu : (s.pages p).usedInfo = buddyFree
    · rw [(freePages_eq_self_iff hz).mpr hu]
      exact .inl rfl
    · rw [__freePages, if_neg (not_not.mpr hz), if_neg hu]
      dsimp only
      generalize hr : coalesce _ s p _ = r
      rw [← coalesce_pages _ s p _, hr]
      by_cases e : q = r.2.1
      · exact .inr ⟨r.2.2, by simp [putFree, e]⟩
      · exact .inl (by simp [putFree, e])
  · rw [__freePages, if_pos hz]
    exact .inl rfl

theorem freePages_zone (s : BuddySys) (p q : ℕ) :
    pgnIsInZone (__freePages s p) q ↔ pgnIsInZone s q := by
  rw [__freePages]
  split
  · exact Iff.rfl
  · split
    · exact Iff.rfl
    · obtain ⟨links, h⟩ := coalesce_links (maxBuddyOrder - (s.pages p).bplevel) s p
        (s.pages p).bplevel
      simp only [pgnIsInZone, putFree, h]

def FreeDisjoint (s : BuddySys) : Prop :=
  ∀ b c, isFreeBlock s b → isFreeBlock s c → ∀ n ∈ b, n ∈ c → b = c

theorem TraceInv.free_disjoint {z : BuddySys} {t : BuddyTrace} {B : Set Block}
    {lists : PageList → List ℕ} (hi : TraceInv z t B lists) : FreeDisjoint t.sys := by
  intro b c hb hc n hnb hnc
  rw [hi.inv.isFreeBlock_iff] at hb hc
  exact hi.inv.tiling.unique b hb.1 c hc.1 n hnb hnc

theorem doubleFree_ignored_iff {boot : BootedMm} {pages : ℕ → Page} {links : PageLinks}
    {ops : List BuddyOp} {t : BuddyTrace}
    (h : runOps buddyStep (buddyStart boot pages links) ops = some t) {p : ℕ}
    (hp : isFreePage t.sys p) :
    __freePages t.sys p = t.sys ∧ FreeDisjoint (__freePages t.sys p) ↔
      (t.sys.pages p).usedInfo = buddyFree := by
  obtain ⟨B, lists, hi⟩ := buddyRun_inv h
  obtain ⟨b, hb, hpb⟩ := (hi.isFreePage_iff p).mp hp
  have heq := freePages_eq_self_iff (hi.inv.tiling.mem_range hb.1 hpb)
  refine ⟨fun hd => heq.mp hd.1, fun hu => ?_⟩
  have hsame := heq.mpr hu
  exact ⟨hsame, hsame.symm ▸ hi.free_disjoint⟩

/-- Page 17 is freed second, so the merging leaves its `used_info` as it was. -/
def doubleFreeOps : List BuddyOp :=
  [.alloc 0 buddyAlloced, .alloc 0 buddyAlloced, .free 16, .free 17]

theorem doubleFree_isSome : (runOps buddyStep smallStart doubleFreeOps).isSome = true := by
  decide +kernel

def doubleFreeRun : BuddyTrace := Option.get _ doubleFree_isSome

theorem doubleFreeRun_eq : runOps buddyStep smallStart doubleFreeOps = some doubleFreeRun :=
  Option.some_get _ ▸ rfl

theorem doubleFree_freeBlock : isFreeBlock doubleFreeRun.sys ⟨16, 4⟩ := by
  refine ⟨by decide, [16], ?_, by decide⟩
  decide +kernel

theorem doubleFree_ignored_head : __freePages doubleFreeRun.sys 16 = doubleFreeRun.sys := by
  have hpage : isFreePage doubleFreeRun.sys 16 :=
    ⟨⟨16, 4⟩, doubleFree_freeBlock, by decide, by decide⟩
  exact ((doubleFree_ignored_iff doubleFreeRun_eq hpage).mpr (by decide +kernel)).1

theorem doubleFree_relisted :
    runOps buddyStep smallStart doubleFreeOps = some doubleFreeRun ∧
      isFreePage doubleFreeRun.sys 17 ∧
      __freePages doubleFreeRun.sys 17 ≠ doubleFreeRun.sys ∧
      isFreeBlock (__freePages doubleFreeRun.sys 17) ⟨17, 0⟩ ∧
      isFreeBlock (__freePages doubleFreeRun.sys 17) ⟨16, 4⟩ := by
  have hpage : isFreePage doubleFreeRun.sys 17 := ⟨⟨16, 4⟩, doubleFree_freeBlock, by decide, by decide⟩
  refine ⟨doubleFreeRun_eq, hpage, ?_, ?_, ?_⟩
  · rw [ne_eq, freePages_eq_self_iff (by decide +kernel)]
    decide +kernel
  · exact ⟨by decide, [17], by decide +kernel, by decide⟩
  · exact ⟨by decide, [16], by decide +kernel, by decide⟩

end OurOS
