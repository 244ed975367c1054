import OurOS.Mm.PageBlocks
import OurOS.Vm.PageTable

set_option linter.style.nameCheck false

namespace OurOS.PageTables

open AlignedBlocks

def pgdBytes : ℕ := 4 * ptNum

def tableBytes : ℕ := 8 * ptNum

/-- `words` is the memory by the address of a word, `pgd` the address of the directory. The
allocations in `kernel.live` are those of the rest of the kernel. -/
structure PtSys where
  kernel : SlabTrace
  words : ℕ → ℕ
  pgd : ℕ

namespace PtSys

variable (s : PtSys)

def slot (i : ℕ) : ℕ := s.pgd + 4 * i

def table (i : ℕ) : ℕ := s.words (s.slot i)

def entry (pte : ℕ) : ℕ × ℕ := (s.words pte, s.words (pte + 4))

def store (a value : ℕ) : PtSys := { s with words := Function.update s.words a value }

end PtSys

def zeroed (words : ℕ → ℕ) (x n : ℕ) : ℕ → ℕ := fun a => if x ≤ a ∧ a < x + n then 0 else words a

-- where `kmalloc` fails, the null pointer is written through
def createPt (kernel : SlabTrace) (words : ℕ → ℕ) : Option PtSys :=
  match kmalloc kernel.sys pgdBytes with
  | (_, none) => none
  | (sys, some ret) => some ⟨⟨sys, kernel.live⟩, zeroed words ret pgdBytes, ret⟩

def getPte (s : PtSys) (vaddr : ℕ) : Option (PtSys × ℕ) :=
  if s.table (pgdIdx vaddr) = 0 then
    match kmalloc s.kernel.sys tableBytes with
    | (_, none) => none
    | (sys, some x) =>
      let words := Function.update s.words (s.slot (pgdIdx vaddr)) x
      some (⟨⟨sys, s.kernel.live⟩, zeroed words x tableBytes, s.pgd⟩, x + 8 * pteIdx vaddr)
  else some (s, s.table (pgdIdx vaddr) + 8 * pteIdx vaddr)

def pteIsValid (s : PtSys) (pte : ℕ) : Bool := (EntryLo.ofValue (s.words pte)).v

def setPteTlbEntry (s : PtSys) (pte value : ℕ) : PtSys := s.store pte value

def setInfo (s : PtSys) (pte value : ℕ) : PtSys := s.store (pte + 4) value

structure PtRep (s : PtSys) (B : Set Block) (lists : PageList → List ℕ)
    (objs : SlabList → List ℕ) : Prop where
  kernel : SlabTraceInv s.kernel B lists objs
  dir : HoldsBytes s.kernel.sys B s.pgd pgdBytes
  dir_own : s.pgd ∉ s.kernel.live
  table : ∀ i < ptNum, s.table i ≠ 0 → HoldsBytes s.kernel.sys B (s.table i) tableBytes
  table_own : ∀ i < ptNum, s.table i ≠ 0 → s.table i ∉ s.kernel.live
  table_dir : ∀ i < ptNum, s.table i ≠ s.pgd
  inj : ∀ i < ptNum, ∀ j < ptNum, s.table i = s.table j → s.table i ≠ 0 → i = j

/-- The entry with the index `(i, j)`; it reads as zero as long as its table is missing. -/
def entryAt (s : PtSys) (i j : ℕ) : ℕ × ℕ :=
  if s.table i = 0 then (0, 0) else s.entry (s.table i + 8 * j)

section Memory

variable {s t : PtSys} {B : Set Block} {lists : PageList → List ℕ} {objs : SlabList → List ℕ}
  {words : ℕ → ℕ} {x n a : ℕ}

theorem zeroed_inside (h : x ≤ a ∧ a < x + n) : zeroed words x n a = 0 := if_pos h

theorem zeroed_outside (h : ¬ (x ≤ a ∧ a < x + n)) : zeroed words x n a = words a := if_neg h

theorem pgdIdx_lt {v : ℕ} (hv : v < uintRange) : pgdIdx v < ptNum := by
  rw [pgdIdx, Nat.shiftRight_eq_div_pow, ptNum]
  simp only [uintRange] at hv
  omega

theorem pteIdx_lt (v : ℕ) : pteIdx v < ptNum := by
  have hlt := Nat.mod_lt (v <<< 10) (show 0 < uintRange by decide)
  rw [pteIdx, Nat.shiftRight_eq_div_pow, ptNum]
  simp only [uintRange] at hlt ⊢
  omega

theorem vpn_eq_iff (v w : ℕ) : vpn v = vpn w ↔ pgdIdx v = pgdIdx w ∧ pteIdx v = pteIdx w := by
  have hv := getPte_snd OurOS.createPt v
  have hw := getPte_snd OurOS.createPt w
  simp only [OurOS.getPte, Prod.mk.injEq] at hv hw
  rw [hv.1, hv.2, hw.1, hw.2]
  constructor
  · intro h
    rw [h]
    exact ⟨rfl, rfl⟩
  · rintro ⟨h1, h2⟩
    rw [← Nat.div_add_mod (vpn v) ptNum, h1, h2, Nat.div_add_mod]

theorem slot_bounds {i : ℕ} (hi : i < ptNum) : s.pgd ≤ s.slot i ∧ s.slot i < s.pgd + pgdBytes := by
  rw [PtSys.slot, pgdBytes]
  omega

theorem entry_bounds {y j : ℕ} (hj : j < ptNum) :
    y ≤ y + 8 * j ∧ y + 8 * j + 4 < y + tableBytes := by
  rw [tableBytes]
  omega

theorem createPt_rep {kernel : SlabTrace} (hk : SlabTraceInv kernel B lists objs)
    (h : createPt kernel words = some s) :
    ∃ C lists', PtRep s C lists' objs ∧ ∀ i < ptNum, s.table i = 0 := by
  obtain ⟨sys, r, hm⟩ : ∃ sys r, kmalloc kernel.sys pgdBytes = (sys, r) := ⟨_, _, rfl⟩
  rw [createPt, hm] at h
  cases r with
  | none => cases h
  | some ret =>
    obtain rfl := Option.some.inj h
    obtain ⟨C, lists', h1, h2, h3, h4⟩ := hk.inv.kmalloc_large (by decide)
      (allocLevel_fits (by decide)) hm
    have hzero : ∀ i < ptNum, PtSys.table ⟨⟨sys, kernel.live⟩, zeroed words ret pgdBytes, ret⟩ i = 0 :=
      fun i hi => zeroed_inside (slot_bounds (s := ⟨_, _, ret⟩) hi)
    have hlive : ∀ y ∈ kernel.live, isLive sys C lists' objs y :=
      fun y hy => h2.isLive (hk.live y hy) (Set.notMem_empty y)
    have hpos : 0 < ret := lt_of_lt_of_le (by decide) (h1.holds_bounds h4).1
    refine ⟨C, lists', ⟨⟨h1, hk.nodup, hlive⟩, h4, fun hm => h3 (hk.live ret hm), ?_, ?_, ?_, ?_⟩,
      hzero⟩
    · exact fun i hi hne => absurd (hzero i hi) hne
    · exact fun i hi hne => absurd (hzero i hi) hne
    · exact fun i hi => (hzero i hi).trans_ne hpos.ne
    · exact fun i hi _ _ _ hne => absurd (hzero i hi) hne

section NewTable

variable {sys : SlabSys} {i : ℕ}

def withTable (s : PtSys) (sys : SlabSys) (i x : ℕ) : PtSys :=
  ⟨⟨sys, s.kernel.live⟩, zeroed (Function.update s.words (s.slot i) x) x tableBytes, s.pgd⟩

theorem PtRep.kmalloc_table (h : PtRep s B lists objs) (hm : kmalloc s.kernel.sys tableBytes =
    (sys, some x)) : ∃ C lists', SlabInv sys C lists' objs ∧
      Survive s.kernel.sys sys B C lists lists' objs objs ∅ ∧
        ¬ isLive s.kernel.sys B lists objs x ∧ HoldsBytes sys C x tableBytes :=
  h.kernel.inv.kmalloc_large (by decide) (allocLevel_fits (by decide)) hm

theorem PtRep.withTable_table (h : PtRep s B lists objs)
    (hm : kmalloc s.kernel.sys tableBytes = (sys, some x)) {k : ℕ} (hk : k < ptNum) :
    (withTable s sys i x).table k = if k = i then x else s.table k := by
  obtain ⟨C, lists', h1, h2, h3, h4⟩ := h.kmalloc_table hm
  have hdir := h.dir.survive h2 (Set.notMem_empty _)
  have hne : s.pgd ≠ x := fun e => h3 (e ▸ h.dir.isLive)
  have hout := h1.holds_disjoint hdir h4 hne (slot_bounds hk)
  change zeroed (Function.update s.words (s.slot i) x) x tableBytes (s.slot k) = _
  rw [zeroed_outside hout, Function.update_apply]
  refine if_congr ?_ rfl rfl
  rw [PtSys.slot, PtSys.slot]
  omega

theorem PtRep.withTable_entry (h : PtRep s B lists objs) (hi : i < ptNum) (hnone : s.table i = 0)
    (hm : kmalloc s.kernel.sys tableBytes = (sys, some x)) {k j : ℕ} (hk : k < ptNum)
    (hj : j < ptNum) : entryAt (withTable s sys i x) k j = entryAt s k j := by
  obtain ⟨C, lists', h1, h2, h3, h4⟩ := h.kmalloc_table hm
  have hpos : x ≠ 0 := (lt_of_lt_of_le (by decide) (h1.holds_bounds h4).1 : 0 < x).ne'
  rw [entryAt, entryAt, h.withTable_table hm hk]
  obtain ⟨hj1, hj2⟩ := entry_bounds (y := if k = i then x else s.table k) hj
  split_ifs at hj1 hj2 ⊢ with e h0 h0
  · obtain ⟨g1, g2⟩ := entry_bounds (y := x) hj
    rw [PtSys.entry, withTable]
    dsimp only
    rw [zeroed_inside ⟨by omega, by omega⟩, zeroed_inside ⟨by omega, by omega⟩]
  · exact absurd (e ▸ hnone) h0
  · rfl
  · have hold := (h.table k hk h0).survive h2 (Set.notMem_empty _)
    have hne : s.table k ≠ x := fun e => h3 (e ▸ (h.table k hk h0).isLive)
    have hdir := h.dir.survive h2 (Set.notMem_empty _)
    have hout : ∀ a, s.table k ≤ a ∧ a < s.table k + tableBytes →
        (withTable s sys i x).words a = s.words a := by
      intro a ha
      have hslot : a ≠ s.slot i := by
        rintro rfl
        exact h1.holds_disjoint hold hdir (h.table_dir k hk) ha (slot_bounds hi)
      rw [withTable]
      dsimp only
      rw [zeroed_outside (h1.holds_disjoint hold h4 hne ha), Function.update_of_ne hslot]
    rw [PtSys.entry, PtSys.entry, hout _ ⟨hj1, by omega⟩, hout _ ⟨by omega, hj2⟩]

theorem PtRep.withTable_rep (h : PtRep s B lists objs)
    (hm : kmalloc s.kernel.sys tableBytes = (sys, some x)) :
    ∃ C lists', PtRep (withTable s sys i x) C lists' objs := by
  obtain ⟨C, lists', h1, h2, h3, h4⟩ := h.kmalloc_table hm
  have htable : ∀ k < ptNum, (withTable s sys i x).table k = if k = i then x else s.table k :=
    fun k hk => h.withTable_table hm hk
  have hlive : ∀ y ∈ s.kernel.live, isLive sys C lists' objs y :=
    fun y hy => h2.isLive (h.kernel.live y hy) (Set.notMem_empty y)
  have hnew : ∀ k < ptNum, s.table k ≠ 0 → s.table k ≠ x :=
    fun k hk h0 e => h3 (e ▸ (h.table k hk h0).isLive)
  refine ⟨C, lists', ⟨h1, h.kernel.nodup, hlive⟩, h.dir.survive h2 (Set.notMem_empty _), h.dir_own,
    fun k hk hne => ?_, fun k hk hne => ?_, fun k hk => ?_, fun k hk l hl he hne => ?_⟩
  · rw [htable k hk] at hne ⊢
    split_ifs at hne ⊢ with e
    · exact h4
    · exact (h.table k hk hne).survive h2 (Set.notMem_empty _)
  · rw [htable k hk] at hne ⊢
    split_ifs at hne ⊢ with e
    · exact fun hx => h3 (h.kernel.live x hx)
    · exact h.table_own k hk hne
  · rw [htable k hk]
    split_ifs with e
    · exact fun e => h3 (e ▸ h.dir.isLive)
    · exact h.table_dir k hk
  · rw [htable k hk] at he hne
    rw [htable l hl] at he
    split_ifs at he hne with e1 e2 e2
    · exact e1.trans e2.symm
    · exact absurd he.symm (hnew l hl (he ▸ hne))
    · exact absurd he (hnew k hk hne)
    · exact h.inj k hk l hl he hne

end NewTable

def PointsTo (s : PtSys) (v p : ℕ) : Prop :=
  s.table (pgdIdx v) ≠ 0 ∧ p = s.table (pgdIdx v) + 8 * pteIdx v

def vpnEntry (s : PtSys) (n : ℕ) : ℕ × ℕ := entryAt s (n / ptNum) (n % ptNum)

section Pointers

variable {v w p q value : ℕ}

theorem vpnEntry_vpn (s : PtSys) (v : ℕ) : vpnEntry s (vpn v) = entryAt s (pgdIdx v) (pteIdx v) := by
  have hv := getPte_snd OurOS.createPt v
  simp only [OurOS.getPte, Prod.mk.injEq] at hv
  rw [vpnEntry, ← hv.1, ← hv.2]

theorem PointsTo.entry (h : PointsTo s v p) : s.entry p = vpnEntry s (vpn v) := by
  rw [vpnEntry_vpn, entryAt, if_neg h.1, h.2]

theorem PointsTo.inside (h : PointsTo s v p) :
    s.table (pgdIdx v) ≤ p ∧ p + 4 < s.table (pgdIdx v) + tableBytes :=
  h.2 ▸ entry_bounds (pteIdx_lt v)

theorem PtRep.pointer_eq_iff (h : PtRep s B lists objs) (hv : v < uintRange) (hw : w < uintRange)
    (hp : PointsTo s v p) (hq : PointsTo s w q) : p = q ↔ vpn v = vpn w := by
  have hvi := pgdIdx_lt hv
  have hwi := pgdIdx_lt hw
  rw [vpn_eq_iff]
  constructor
  · rintro rfl
    have htable : s.table (pgdIdx v) = s.table (pgdIdx w) := by
      by_contra hne
      have hvp := hp.inside
      have hwp := hq.inside
      exact h.kernel.inv.holds_disjoint (h.table _ hvi hp.1) (h.table _ hwi hq.1) hne
        ⟨hvp.1, by omega⟩ ⟨hwp.1, by omega⟩
    have hidx := h.inj _ hvi _ hwi htable hp.1
    have hp2 := hp.2
    have hq2 := hq.2
    exact ⟨hidx, by omega⟩
  · rintro ⟨h1, h2⟩
    rw [hp.2, hq.2, h1, h2]

theorem getPte_spec (h : PtRep s B lists objs) (hv : v < uintRange)
    (hg : getPte s v = some (t, p)) : (∃ C lists', PtRep t C lists' objs) ∧ PointsTo t v p ∧
      (∀ k < ptNum, s.table k ≠ 0 → t.table k = s.table k) ∧
        ∀ k < ptNum, ∀ j < ptNum, entryAt t k j = entryAt s k j := by
  have hi := pgdIdx_lt hv
  rw [getPte] at hg
  split_ifs at hg with hnone
  · obtain ⟨sys, r, hm⟩ : ∃ sys r, kmalloc s.kernel.sys tableBytes = (sys, r) := ⟨_, _, rfl⟩
    rw [hm] at hg
    cases r with
    | none => cases hg
    | some x =>
      obtain ⟨rfl, rfl⟩ := Prod.mk.inj (Option.some.inj hg)
      have htable : ∀ k < ptNum, (withTable s sys (pgdIdx v) x).table k =
          if k = pgdIdx v then x else s.table k := fun k hk => h.withTable_table hm hk
      have hself := (htable _ hi).trans (if_pos rfl)
      have hpos : x ≠ 0 := by
        obtain ⟨C, lists', h1, -, -, h4⟩ := h.kmalloc_table hm
        exact (lt_of_lt_of_le (by decide) (h1.holds_bounds h4).1 : 0 < x).ne'
      refine ⟨h.withTable_rep hm, ⟨hself.trans_ne hpos, ?_⟩, fun k hk hne => ?_,
        fun k hk j hj => h.withTable_entry hi hnone hm hk hj⟩
      · exact (congrArg (· + 8 * pteIdx v) hself).symm
      · refine (htable k hk).trans (if_neg ?_)
        rintro rfl
        exact hne hnone
  · obtain ⟨rfl, rfl⟩ := Prod.mk.inj (Option.some.inj hg)
    exact ⟨⟨B, lists, h⟩, ⟨hnone, rfl⟩, fun _ _ _ => rfl, fun _ _ _ _ => rfl⟩

section Store

variable {i : ℕ} (h : PtRep s B lists objs) (hi : i < ptNum) (hne : s.table i ≠ 0)
  (ha : s.table i ≤ a ∧ a < s.table i + tableBytes)

include h hi hne ha

theorem PtRep.store_table {k : ℕ} (hk : k < ptNum) : (s.store a value).table k = s.table k := by
  refine Function.update_of_ne (fun e => ?_) _ _
  have hslot : s.pgd ≤ a ∧ a < s.pgd + pgdBytes := (e : s.slot k = a) ▸ slot_bounds hk
  exact h.kernel.inv.holds_disjoint (h.table i hi hne) h.dir (h.table_dir i hi) ha hslot

theorem PtRep.store_rep : PtRep (s.store a value) B lists objs := by
  have htable : ∀ k < ptNum, (s.store a value).table k = s.table k :=
    fun k hk => h.store_table hi hne ha hk
  refine ⟨h.kernel, h.dir, h.dir_own, fun k hk h0 => ?_, fun k hk h0 => ?_, fun k hk => ?_,
    fun k hk l hl he h0 => ?_⟩
  · rw [htable k hk] at h0 ⊢
    exact h.table k hk h0
  · rw [htable k hk] at h0 ⊢
    exact h.table_own k hk h0
  · rw [htable k hk]
    exact h.table_dir k hk
  · rw [htable k hk] at he h0
    rw [htable l hl] at he
    exact h.inj k hk l hl he h0

theorem PtRep.store_other {k b : ℕ} (hk : k < ptNum) (h0 : s.table k ≠ 0)
    (hb : s.table k ≤ b ∧ b < s.table k + tableBytes) (hneq : k ≠ i ∨ b ≠ a) :
    (s.store a value).words b = s.words b := by
  refine Function.update_of_ne ?_ _ _
  rintro rfl
  have hki : k ≠ i := hneq.resolve_right (not_not.mpr rfl)
  refine h.kernel.inv.holds_disjoint (h.table k hk h0) (h.table i hi hne) ?_ hb ha
  exact fun e => hki (h.inj k hk i hi e h0)

end Store

theorem vpnEntry_index {n : ℕ} (hn : n < 2 ^ 20) : n / ptNum < ptNum ∧ n % ptNum < ptNum := by
  simp only [ptNum]
  omega

theorem PtRep.store_entry (h : PtRep s B lists objs) (hv : v < uintRange) (hp : PointsTo s v p)
    {d : ℕ} (hd : d = 0 ∨ d = 4) {n : ℕ} (hn : n < 2 ^ 20) :
    vpnEntry (s.store (p + d) value) n = if n = vpn v then
      (if d = 0 then (value, (vpnEntry s n).2) else ((vpnEntry s n).1, value)) else vpnEntry s n := by
  have hi := pgdIdx_lt hv
  have hin := hp.inside
  obtain ⟨hk, hj⟩ := vpnEntry_index hn
  have hidx := getPte_snd OurOS.createPt v
  simp only [OurOS.getPte, Prod.mk.injEq] at hidx
  have htable : (s.store (p + d) value).table (n / ptNum) = s.table (n / ptNum) :=
    h.store_table hi hp.1 ⟨by omega, by omega⟩ hk
  by_cases h0 : s.table (n / ptNum) = 0
  · have hne : n ≠ vpn v := by
      rintro rfl
      rw [← hidx.1] at h0
      exact hp.1 h0
    rw [if_neg hne, vpnEntry, vpnEntry, entryAt, entryAt, if_pos (htable.trans h0), if_pos h0]
  · have hentry : vpnEntry s n = s.entry (s.table (n / ptNum) + 8 * (n % ptNum)) := if_neg h0
    have hstored : vpnEntry (s.store (p + d) value) n =
        (s.store (p + d) value).entry (s.table (n / ptNum) + 8 * (n % ptNum)) := by
      rw [vpnEntry, entryAt, if_neg (htable.trans_ne h0), htable]
    rw [hstored, hentry]
    split_ifs with e e0
    · have hpe : s.table (n / ptNum) + 8 * (n % ptNum) = p := by rw [e, ← hidx.1, ← hidx.2, hp.2]
      subst e0
      rw [hpe]
      exact Prod.ext (Function.update_self _ _ _) (Function.update_of_ne (by omega) _ _)
    · obtain rfl := hd.resolve_left e0
      have hpe : s.table (n / ptNum) + 8 * (n % ptNum) = p := by rw [e, ← hidx.1, ← hidx.2, hp.2]
      rw [hpe]
      exact Prod.ext (Function.update_of_ne (by omega) _ _) (Function.update_self _ _ _)
    · obtain ⟨b1, b2⟩ := entry_bounds (y := s.table (n / ptNum)) hj
      have hp2 := hp.2
      have hother : ∀ c, c = 0 ∨ c = 4 → n / ptNum ≠ pgdIdx v ∨
          s.table (n / ptNum) + 8 * (n % ptNum) + c ≠ p + d := by
        intro c hc
        by_cases ek : n / ptNum = pgdIdx v
        · refine .inr fun ea => e ?_
          rw [ek, hp2, hidx.2] at ea
          rw [hidx.1] at ek
          rw [← Nat.div_add_mod n ptNum, ← Nat.div_add_mod (vpn v) ptNum, ek]
          omega
        · exact .inl ek
      have hsame : ∀ c, c = 0 ∨ c = 4 → (s.store (p + d) value).words
          (s.table (n / ptNum) + 8 * (n % ptNum) + c) =
            s.words (s.table (n / ptNum) + 8 * (n % ptNum) + c) := fun c hc =>
        h.store_other hi hp.1 ⟨by omega, by omega⟩ hk h0 ⟨by omega, by omega⟩ (hother c hc)
      exact Prod.ext (hsame 0 (.inl rfl)) (hsame 4 (.inr rfl))

end Pointers

end Memory

def toPte (e : ℕ × ℕ) : Pte := ⟨EntryLo.ofValue e.1, e.2⟩

def toPgd (s : PtSys) : Pgd := fun i =>
  if s.table i = 0 then none else some fun j => toPte (s.entry (s.table i + 8 * j))

section Refines

variable {s t : PtSys} {B : Set Block} {lists : PageList → List ℕ} {objs : SlabList → List ℕ}
  {v p value n : ℕ}

theorem pteAt_toPgd (s : PtSys) (n : ℕ) : pteAt (toPgd s) n = toPte (vpnEntry s n) := by
  rw [pteAt, readPte, vpnEntry, entryAt, toPgd]
  by_cases h : s.table (n / ptNum) = 0
  · simp only [if_pos h]
    rfl
  · simp only [if_neg h]

theorem getPte_refines (h : PtRep s B lists objs) (hv : v < uintRange)
    (hg : getPte s v = some (t, p)) :
    (∀ n < 2 ^ 20, pteAt (toPgd t) n = pteAt (OurOS.getPte (toPgd s) v).1 n) ∧
      toPte (t.entry p) = readPte (toPgd t) (OurOS.getPte (toPgd s) v).2 := by
  obtain ⟨-, h2, -, h4⟩ := getPte_spec h hv hg
  constructor
  · intro n hn
    obtain ⟨hk, hj⟩ := vpnEntry_index hn
    rw [pteAt_getPte, pteAt_toPgd, pteAt_toPgd]
    exact congrArg toPte (h4 _ hk _ hj)
  · rw [readPte_eq, pteAt_toPgd, h2.entry]

theorem setPteTlbEntry_refines (h : PtRep s B lists objs) (hv : v < uintRange)
    (hp : PointsTo s v p) (hn : n < 2 ^ 20) : pteAt (toPgd (setPteTlbEntry s p value)) n =
      pteAt (setPte (toPgd s) v fun pte => { pte with tlbEntry := EntryLo.ofValue value }) n := by
  have hstore : vpnEntry (setPteTlbEntry s p value) n = _ := h.store_entry hv hp (.inl rfl) hn
  rw [pteAt_setPte, pteAt_toPgd, pteAt_toPgd, pteAt_toPgd, hstore, if_pos rfl]
  by_cases e : n = vpn v
  · rw [if_pos e, if_pos e, e]
    rfl
  · rw [if_neg e, if_neg e]

theorem setInfo_refines (h : PtRep s B lists objs) (hv : v < uintRange) (hp : PointsTo s v p)
    (hn : n < 2 ^ 20) : pteAt (toPgd (setInfo s p value)) n =
      pteAt (setPte (toPgd s) v fun pte => { pte with info := value }) n := by
  have hstore : vpnEntry (setInfo s p value) n = _ := h.store_entry hv hp (.inr rfl) hn
  rw [pteAt_setPte, pteAt_toPgd, pteAt_toPgd, pteAt_toPgd, hstore,
    if_neg (show ¬ 4 = 0 by decide)]
  by_cases e : n = vpn v
  · rw [if_pos e, if_pos e, e]
    rfl
  · rw [if_neg e, if_neg e]

end Refines

inductive PtOp
  | getPte (vaddr : ℕ)
  | setTlbEntry (vaddr pte value : ℕ)
  | setInfo (vaddr pte value : ℕ)
  | kernel (op : SlabOp)

/-- `ptrs` are the addresses that have been looked up, with the pointers they gave; `entries` the
values written last, by page number, and `written` the pages whose entries have been written. -/
structure PtTrace where
  sys : PtSys
  ptrs : List (ℕ × ℕ)
  entries : ℕ → ℕ × ℕ
  written : List ℕ

def PtTrace.wrote (t : PtTrace) (sys : PtSys) (n : ℕ) (val : ℕ × ℕ) : PtTrace :=
  { t with sys := sys, entries := Function.update t.entries n val, written := n :: t.written }

def ptStep (t : PtTrace) : PtOp → Option PtTrace
  | .getPte vaddr =>
    if vaddr < uintRange then
      (getPte t.sys vaddr).map fun r => { t with sys := r.1, ptrs := (vaddr, r.2) :: t.ptrs }
    else none
  | .setTlbEntry vaddr pte value =>
    if (vaddr, pte) ∈ t.ptrs then
      some (t.wrote (setPteTlbEntry t.sys pte value) (vpn vaddr) (value, (t.entries (vpn vaddr)).2))
    else none
  | .setInfo vaddr pte value =>
    if (vaddr, pte) ∈ t.ptrs then
      some (t.wrote (setInfo t.sys pte value) (vpn vaddr) ((t.entries (vpn vaddr)).1, value))
    else none
  | .kernel op => (slabStep t.sys.kernel op).map fun k => { t with sys := { t.sys with kernel := k } }

def ptStart (s : PtSys) : PtTrace := ⟨s, [], fun _ => (0, 0), []⟩

structure PtInv (t : PtTrace) : Prop where
  rep : ∃ B lists objs, PtRep t.sys B lists objs
  ptrs : ∀ a ∈ t.ptrs, a.1 < uintRange ∧ PointsTo t.sys a.1 a.2
  entries : ∀ n < 2 ^ 20, vpnEntry t.sys n = t.entries n
  unwritten : ∀ n, n ∉ t.written → t.entries n = (0, 0)

section Run

variable {t u : PtTrace} {B : Set Block} {lists : PageList → List ℕ} {objs : SlabList → List ℕ}

theorem vpn_lt {v : ℕ} (hv : v < uintRange) : vpn v < 2 ^ 20 := by
  simp only [uintRange] at hv
  rw [vpn, pageSize]
  omega

theorem PtRep.kernel_step {s : PtSys} {k : SlabTrace} {op : SlabOp} (h : PtRep s B lists objs)
    (hk : slabStep s.kernel op = some k) :
    ∃ C lists' objs', PtRep { s with kernel := k } C lists' objs' := by
  obtain ⟨C, lists', objs', h1, h2, h3⟩ := slabStep_survive h.kernel hk
  refine ⟨C, lists', objs', h1, (h.dir.slabStep h2 h3 h.dir_own).1, (h.dir.slabStep h2 h3 h.dir_own).2,
    fun i hi hne => ?_, fun i hi hne => ?_, h.table_dir, h.inj⟩
  · exact ((h.table i hi hne).slabStep h2 h3 (h.table_own i hi hne)).1
  · exact ((h.table i hi hne).slabStep h2 h3 (h.table_own i hi hne)).2

theorem PtInv.getPte (h : PtInv t) {v p : ℕ} {s : PtSys} (hv : v < uintRange)
    (hg : PageTables.getPte t.sys v = some (s, p)) :
    PtInv { t with sys := s, ptrs := (v, p) :: t.ptrs } := by
  obtain ⟨B, lists, objs, hrep⟩ := h.rep
  obtain ⟨⟨C, lists', h1⟩, h2, h3, h4⟩ := getPte_spec hrep hv hg
  refine ⟨⟨C, lists', objs, h1⟩, fun a ha => ?_, fun n hn => ?_, h.unwritten⟩
  · rcases List.mem_cons.mp ha with rfl | ha
    · exact ⟨hv, h2⟩
    · obtain ⟨hlt, h0, hp⟩ := h.ptrs a ha
      have hsame := h3 _ (pgdIdx_lt hlt) h0
      exact ⟨hlt, hsame.trans_ne h0, hp.trans (congrArg (· + 8 * pteIdx a.1) hsame.symm)⟩
  · obtain ⟨hk, hj⟩ := vpnEntry_index hn
    exact (h4 _ hk _ hj).trans (h.entries n hn)

theorem PtInv.store (h : PtInv t) {v p d value : ℕ} (hm : (v, p) ∈ t.ptrs) (hd : d = 0 ∨ d = 4) :
    PtInv (t.wrote (t.sys.store (p + d) value) (vpn v)
      (if d = 0 then (value, (t.entries (vpn v)).2) else ((t.entries (vpn v)).1, value))) := by
  obtain ⟨B, lists, objs, hrep⟩ := h.rep
  obtain ⟨hv, hp⟩ := h.ptrs _ hm
  have hin := hp.inside
  have hi := pgdIdx_lt hv
  refine ⟨⟨B, lists, objs, hrep.store_rep hi hp.1 ⟨by omega, by omega⟩⟩, fun a ha => ?_,
    fun n hn => ?_, fun n hn => ?_⟩
  · obtain ⟨hlt, h0, hq⟩ := h.ptrs a ha
    have hsame : (t.sys.store (p + d) value).table (pgdIdx a.1) = t.sys.table (pgdIdx a.1) :=
      hrep.store_table hi hp.1 ⟨by omega, by omega⟩ (pgdIdx_lt hlt)
    exact ⟨hlt, hsame.trans_ne h0, hq.trans (congrArg (· + 8 * pteIdx a.1) hsame.symm)⟩
  · refine (hrep.store_entry hv hp hd hn).trans ?_
    rw [PtTrace.wrote]
    dsimp only
    rw [Function.update_apply, h.entries n hn]
    split_ifs with e
    · rw [e]
    · rw [e]
    · rfl
  · obtain ⟨hne, hw⟩ := not_or.mp fun e => hn (List.mem_cons.mpr e)
    exact (Function.update_of_ne hne _ _).trans (h.unwritten n hw)

theorem ptStep_inv {op : PtOp} (h : PtInv t) (hu : ptStep t op = some u) : PtInv u := by
  cases op with
  | getPte v =>
    obtain ⟨hv, hu⟩ := Option.ite_none_right_eq_some.mp hu
    obtain ⟨r, hg, rfl⟩ := Option.map_eq_some_iff.mp hu
    exact h.getPte hv hg
  | setTlbEntry v p value =>
    obtain ⟨hm, hu⟩ := Option.ite_none_right_eq_some.mp hu
    obtain rfl := Option.some.inj hu
    exact h.store hm (.inl rfl)
  | setInfo v p value =>
    obtain ⟨hm, hu⟩ := Option.ite_none_right_eq_some.mp hu
    obtain rfl := Option.some.inj hu
    exact h.store hm (.inr rfl)
  | kernel op =>
    obtain ⟨k, hk, rfl⟩ := Option.map_eq_some_iff.mp hu
    obtain ⟨B, lists, objs, hrep⟩ := h.rep
    exact ⟨hrep.kernel_step hk, h.ptrs, h.entries, h.unwritten⟩

theorem ptStart_inv {kernel : SlabTrace} {words : ℕ → ℕ} {s : PtSys}
    (hk : SlabTraceInv kernel B lists objs) (h : createPt kernel words = some s) :
    PtInv (ptStart s) := by
  obtain ⟨C, lists', h1, h2⟩ := createPt_rep hk h
  refine ⟨⟨C, lists', objs, h1⟩, fun a ha => absurd ha List.not_mem_nil, fun n hn => ?_,
    fun _ _ => rfl⟩
  exact if_pos (h2 _ (vpnEntry_index hn).1)

end Run

theorem pageTable_run {boot : BootedMm} {pages : ℕ → Page} {links : PageLinks}
    {caches : ℕ → KmemCache} {slabs : ℕ → SlabHead} {objects : ObjectLinks} {kops : List SlabOp}
    {kernel : SlabTrace}
    (hk : runOps slabStep (slabStart boot pages links caches slabs objects) kops = some kernel)
    {words : ℕ → ℕ} {s : PtSys} (hs : createPt kernel words = some s) {ops : List PtOp}
    {t : PtTrace} (hr : runOps ptStep (ptStart s) ops = some t) :
    (∀ a ∈ t.ptrs, ∀ b ∈ t.ptrs, a.2 = b.2 ↔ vpn a.1 = vpn b.1) ∧
      (∀ a ∈ t.ptrs, t.sys.entry a.2 = t.entries (vpn a.1)) ∧
        ∀ a ∈ t.ptrs, vpn a.1 ∉ t.written → pteIsValid t.sys a.2 = false := by
  obtain ⟨B, lists, objs, hinv⟩ := slabRun_inv hk
  have h : PtInv t := runOps_invariant (fun _ _ _ => ptStep_inv) (ptStart_inv hinv hs) hr
  obtain ⟨C, lists', objs', hrep⟩ := h.rep
  have hentry : ∀ a ∈ t.ptrs, t.sys.entry a.2 = t.entries (vpn a.1) := by
    intro a ha
    obtain ⟨hv, hp⟩ := h.ptrs a ha
    rw [hp.entry, h.entries _ (vpn_lt hv)]
  refine ⟨fun a ha b hb => ?_, hentry, fun a ha hw => ?_⟩
  · obtain ⟨hv, hp⟩ := h.ptrs a ha
    obtain ⟨hw, hq⟩ := h.ptrs b hb
    exact hrep.pointer_eq_iff hv hw hp hq
  · have hzero : t.sys.words a.2 = 0 :=
      congrArg Prod.fst ((hentry a ha).trans (h.unwritten _ hw))
    rw [pteIsValid, hzero]
    decide

/-- An update in the first table, before the second table is allocated. -/
def twoTables : List PtOp :=
  [.getPte 0x1000, .setTlbEntry 0x1000 0x80012008 0x1f, .getPte 0x400000, .getPte 0x1ffc]

theorem twoTables_runs : ((createPt smallSlab fun _ => 7).bind fun s =>
    (runOps ptStep (ptStart s) twoTables).map fun t => (t.ptrs, t.entries 1, t.written)) =
      some ([(0x1ffc, 0x80012008), (0x400000, 0x80014000), (0x1000, 0x80012008)], (0x1f, 0), [1]) := by
  decide +kernel

theorem pageTable_run_small : ∃ s t, createPt smallSlab (fun _ => 7) = some s ∧
    runOps ptStep (ptStart s) twoTables = some t ∧ t.sys.entry 0x80012008 = (0x1f, 0) ∧
      pteIsValid t.sys 0x80014000 = false ∧ vpn 0x1000 = vpn 0x1ffc := by
  obtain ⟨s, hs, hr⟩ := Option.bind_eq_some_iff.mp twoTables_runs
  obtain ⟨t, hr, he⟩ := Option.map_eq_some_iff.mp hr
  obtain ⟨hp, he⟩ := Prod.mk.inj he
  obtain ⟨he, hw⟩ := Prod.mk.inj he
  have hk : runOps slabStep smallSlab [] = some smallSlab := rfl
  obtain ⟨h1, h2, h3⟩ := pageTable_run hk hs hr
  rw [hp] at h1 h2 h3
  refine ⟨s, t, hs, hr, ?_, ?_, ?_⟩
  · exact (h2 (0x1ffc, 0x80012008) (by simp)).trans he
  · exact h3 (0x400000, 0x80014000) (by simp) (by rw [hw]; decide)
  · exact (h1 (0x1000, 0x80012008) (by simp) (0x1ffc, 0x80012008) (by simp)).mp rfl

end OurOS.PageTables
