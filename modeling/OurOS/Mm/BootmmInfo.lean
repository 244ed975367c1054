import OurOS.Lib.Extents
import OurOS.Mm.Bootmm

namespace OurOS

open Extents

def BootmmInfo.extent (r : BootmmInfo) : ℕ × ℕ := (r.startAddr, r.startAddr + r.length)

def Bootmm.extents (mm : Bootmm) : List (ℕ × ℕ) :=
  (List.range mm.infoCnt).map fun i => (mm.info i).extent

def Bootmm.others (mm : Bootmm) (i : ℕ) : List (ℕ × ℕ) :=
  ((List.range mm.infoCnt).erase i).map fun i => (mm.info i).extent

def BlankBeyond (mm : Bootmm) : Prop := ∀ i, mm.infoCnt ≤ i → mm.info i = blankInfo

structure SameMap (mm mm' : Bootmm) : Prop where
  pageNum : mm'.pageNum = mm.pageNum
  pageMap : mm'.pageMap = mm.pageMap
  lastAllocEnd : mm'.lastAllocEnd = mm.lastAllocEnd

variable {mm mm' : Bootmm} {i a n p type : ℕ} {rest : List (ℕ × ℕ)}

theorem SameMap.refl (mm : Bootmm) : SameMap mm mm := ⟨rfl, rfl, rfl⟩

theorem SameMap.trans {mm'' : Bootmm} (h : SameMap mm mm') (h' : SameMap mm' mm'') :
    SameMap mm mm'' :=
  ⟨h'.pageNum.trans h.pageNum, h'.pageMap.trans h.pageMap, h'.lastAllocEnd.trans h.lastAllocEnd⟩

theorem extent_mem_extents (hi : i < mm.infoCnt) : (mm.info i).extent ∈ mm.extents :=
  List.mem_map.mpr ⟨i, List.mem_range.mpr hi, rfl⟩

theorem extents_perm (hi : i < mm.infoCnt) :
    mm.extents.Perm ((mm.info i).extent :: mm.others i) :=
  range_map_perm_erase _ hi

theorem extent_mem_others {j : ℕ} (hj : j < mm.infoCnt) (hne : j ≠ i) :
    (mm.info j).extent ∈ mm.others i :=
  List.mem_map.mpr ⟨j, List.nodup_range.mem_erase_iff.mpr ⟨hne, List.mem_range.mpr hj⟩, rfl⟩

section SetInfo

theorem setBootmmInfo_same (mm : Bootmm) (i a n type : ℕ) :
    SameMap mm (setBootmmInfo mm i a n type) := ⟨rfl, rfl, rfl⟩

theorem setBootmmInfo_extents (hi : i < mm.infoCnt) (hp : mm.extents.Perm ((mm.info i).extent :: rest)) :
    (setBootmmInfo mm i a n type).extents.Perm ((a, a + n) :: rest) := by
  have hrest := ((extents_perm hi).symm.trans hp).cons_inv
  have hset : (setBootmmInfo mm i a n type).extents =
      (List.range mm.infoCnt).map
        (Function.update (fun j => (mm.info j).extent) i (a, a + n)) := by
    refine List.map_congr_left fun j _ => ?_
    by_cases hj : j = i
    · subst hj
      simp [setBootmmInfo, BootmmInfo.extent]
    · simp [setBootmmInfo, Function.update_of_ne hj]
  rw [hset]
  exact (range_map_update _ hi _).trans (hrest.cons _)

theorem BlankBeyond.setInfo (h : BlankBeyond mm) (hi : i < mm.infoCnt) :
    BlankBeyond (setBootmmInfo mm i a n type) := fun j hj =>
  (Function.update_of_ne (hi.trans_le hj).ne' _ _).trans (h j hj)

def pushInfo (mm : Bootmm) (a n type : ℕ) : Bootmm :=
  { setBootmmInfo mm mm.infoCnt a n type with infoCnt := mm.infoCnt + 1 }

theorem pushInfo_extents (mm : Bootmm) (a n type : ℕ) :
    (pushInfo mm a n type).extents = mm.extents ++ [(a, a + n)] := by
  have hold : (List.range mm.infoCnt).map
      (fun i => ((pushInfo mm a n type).info i).extent) = mm.extents :=
    List.map_congr_left fun j hj => congrArg BootmmInfo.extent
      (Function.update_of_ne (List.mem_range.mp hj).ne _ _)
  have hnew : (pushInfo mm a n type).info mm.infoCnt = ⟨a, n, type⟩ := Function.update_self _ _ _
  rw [Bootmm.extents]
  change (List.range (mm.infoCnt + 1)).map _ = _
  rw [List.range_succ, List.map_append, hold, List.map_singleton, hnew]
  rfl

theorem BlankBeyond.pushInfo (h : BlankBeyond mm) : BlankBeyond (pushInfo mm a n type) := fun j hj =>
  (Function.update_of_ne (Nat.lt_of_succ_le hj).ne' _ _).trans (h j (Nat.le_of_succ_le hj))

end SetInfo

section Delete

theorem foldl_shift (info : ℕ → BootmmInfo) (index n j : ℕ) :
    (List.range' index n).foldl (fun info i => Function.update info i (info (i + 1))) info j =
      if index ≤ j ∧ j < index + n then info (j + 1) else info j := by
  induction n generalizing index info with
  | zero => exact (if_neg (by omega)).symm
  | succ n ih =>
    rw [List.range'_succ, List.foldl_cons, ih]
    by_cases hj : j = index
    · subst hj
      rw [if_neg (by omega), if_pos (by omega), Function.update_self]
    · by_cases hin : index ≤ j ∧ j < index + (n + 1)
      · rw [if_pos (by omega), if_pos hin, Function.update_of_ne (by omega)]
      · rw [if_neg (by omega), if_neg hin, Function.update_of_ne hj]

theorem deleteBootmmInfo_info (hi : i < mm.infoCnt) (j : ℕ) :
    (deleteBootmmInfo mm i).1.info j =
      if i ≤ j ∧ j < mm.infoCnt then mm.info (j + 1) else mm.info j := by
  rw [deleteBootmmInfo, if_neg (not_le.mpr hi)]
  have h := foldl_shift mm.info i (mm.infoCnt - i) j
  rwa [Nat.add_sub_cancel' hi.le] at h

theorem deleteBootmmInfo_infoCnt (hi : i < mm.infoCnt) :
    (deleteBootmmInfo mm i).1.infoCnt = mm.infoCnt - 1 := by
  rw [deleteBootmmInfo, if_neg (not_le.mpr hi)]

theorem deleteBootmmInfo_same (mm : Bootmm) (i : ℕ) : SameMap mm (deleteBootmmInfo mm i).1 := by
  unfold deleteBootmmInfo
  split
  · exact .refl mm
  · exact ⟨rfl, rfl, rfl⟩

theorem deleteBootmmInfo_extents (hi : i < mm.infoCnt)
    (hp : mm.extents.Perm ((mm.info i).extent :: rest)) :
    (deleteBootmmInfo mm i).1.extents.Perm rest := by
  obtain ⟨m, hm⟩ := Nat.exists_eq_succ_of_ne_zero (Nat.ne_zero_of_lt hi)
  have hshift := range_map_shift (fun j => (mm.info j).extent) (n := m) (i := i) (by omega)
  have hmap : (deleteBootmmInfo mm i).1.extents = (List.range m).map fun j =>
      if i ≤ j then (mm.info (j + 1)).extent else (mm.info j).extent := by
    rw [Bootmm.extents, deleteBootmmInfo_infoCnt hi, hm]
    refine List.map_congr_left fun j hj => ?_
    have hj := List.mem_range.mp hj
    rw [deleteBootmmInfo_info hi]
    by_cases hle : i ≤ j
    · rw [if_pos ⟨hle, by omega⟩, if_pos hle]
    · rw [if_neg fun h => hle h.1, if_neg hle]
  have hext : (List.range (m + 1)).map (fun j => (mm.info j).extent) = mm.extents := by
    rw [Bootmm.extents, hm]
  rw [hmap]
  exact (hshift.trans ((List.Perm.of_eq hext).trans hp)).cons_inv

theorem BlankBeyond.delete (h : BlankBeyond mm) (hi : i < mm.infoCnt) :
    BlankBeyond (deleteBootmmInfo mm i).1 := fun j hj => by
  rw [deleteBootmmInfo_infoCnt hi] at hj
  rw [deleteBootmmInfo_info hi]
  split_ifs with hin
  · exact h _ (by omega)
  · exact h _ (by omega)

end Delete

section Split

structure SplitAt (mm mm' : Bootmm) (i p : ℕ) : Prop where
  infoCnt : mm'.infoCnt = mm.infoCnt + 1
  left : (mm'.info i).extent = ((mm.info i).startAddr, p)
  right : (mm'.info mm.infoCnt).extent = (p, (mm.info i).startAddr + (mm.info i).length)
  blank : BlankBeyond mm → BlankBeyond mm'
  extents : ∀ {rest}, mm.extents.Perm ((mm.info i).extent :: rest) → mm'.extents.Perm
    (((mm.info i).startAddr, p) :: (p, (mm.info i).startAddr + (mm.info i).length) :: rest)
  same : SameMap mm mm'

theorem splitBootmmInfo_spec (hi : i < mm.infoCnt) (hmax : mm.infoCnt ≠ maxMminfoNum)
    (hstop : (mm.info i).stop = (mm.info i).startAddr + (mm.info i).length)
    (hp : (mm.info i).startAddr < p ∧ p < (mm.info i).stop) :
    (splitBootmmInfo mm i p).2 = 1 ∧ SplitAt mm (splitBootmmInfo mm i p).1 i p := by
  have hrun : splitBootmmInfo mm i p =
      (pushInfo (setBootmmInfo mm i (mm.info i).startAddr (p - (mm.info i).startAddr)
        (mm.info i).type) p ((mm.info i).length - (p - (mm.info i).startAddr))
        (mm.info i).type, 1) := by
    simp only [splitBootmmInfo, if_neg (not_le.mpr hi), if_neg hmax, if_pos hp]
    rfl
  have hle := hp.2.trans_le hstop.le
  have hl : (mm.info i).startAddr + (p - (mm.info i).startAddr) = p := by omega
  have hr : p + ((mm.info i).length - (p - (mm.info i).startAddr)) =
      (mm.info i).startAddr + (mm.info i).length := by omega
  rw [hrun]
  refine ⟨rfl, rfl, ?_, ?_, fun h => (h.setInfo hi).pushInfo, fun hperm => ?_, ⟨rfl, rfl, rfl⟩⟩
  · rw [pushInfo, setBootmmInfo, setBootmmInfo]
    dsimp only
    rw [Function.update_of_ne hi.ne, Function.update_self, BootmmInfo.extent, hl]
  · rw [pushInfo, setBootmmInfo]
    dsimp only
    rw [show (setBootmmInfo mm i (mm.info i).startAddr (p - (mm.info i).startAddr)
      (mm.info i).type).infoCnt = mm.infoCnt from rfl, Function.update_self, BootmmInfo.extent, hr]
  · rw [pushInfo_extents, hr]
    have hset : (setBootmmInfo mm i (mm.info i).startAddr (p - (mm.info i).startAddr)
        (mm.info i).type).extents.Perm _ := setBootmmInfo_extents hi hperm
    rw [hl] at hset
    exact (List.perm_append_singleton _ _).trans ((hset.cons _).trans (.swap _ _ _))

theorem splitBootmmInfo_skip (hp : ¬((mm.info i).startAddr < p ∧ p < (mm.info i).stop)) :
    splitBootmmInfo mm i p = (mm, 0) := by
  simp only [splitBootmmInfo, if_neg hp, ite_self]

end Split

section Cut

variable {size : ℕ}

/-- The range is taken out of the record that holds it, and nothing else is changed. -/
structure CutOut (mm mm' : Bootmm) (a n : ℕ) : Prop where
  cut : Cut mm.extents mm'.extents (a, a + n)
  blank : BlankBeyond mm → BlankBeyond mm'
  infoCnt : mm'.infoCnt ≤ mm.infoCnt + 1
  same : SameMap mm mm'

theorem part_eq {a b : ℕ} (h : a < b) : part a b = [(a, b)] := if_pos h

theorem part_self (a : ℕ) : part a a = [] := if_neg (lt_irrefl a)

theorem cutBootmmInfo_of_split (h : (splitBootmmInfo mm i a).2 = 1) :
    cutBootmmInfo mm i a n =
      let mm1 := (splitBootmmInfo mm i a).1
      let r := splitBootmmInfo mm1 (mm1.infoCnt - 1) ((a + n) % uintRange)
      if 0 < r.2 then (deleteBootmmInfo r.1 (r.1.infoCnt - 2)).1
      else (deleteBootmmInfo r.1 (r.1.infoCnt - 1)).1 := by
  simp only [cutBootmmInfo, h, Nat.one_pos, if_true]

theorem cutBootmmInfo_of_skip (h : splitBootmmInfo mm i a = (mm, 0)) :
    cutBootmmInfo mm i a n =
      (deleteBootmmInfo (splitBootmmInfo mm i ((a + n) % uintRange)).1 i).1 := by
  simp only [cutBootmmInfo, h, lt_irrefl, if_false]

theorem cutBootmmInfo_start (hi : i < mm.infoCnt) (hmax : mm.infoCnt < maxMminfoNum)
    (hwrap : (mm.info i).startAddr + (mm.info i).length < uintRange)
    (hn : 0 < n) (hlo : (mm.info i).startAddr = a)
    (hhi : a + n ≤ (mm.info i).startAddr + (mm.info i).length) :
    CutOut mm (cutBootmmInfo mm i a n) a n := by
  have hstop : (mm.info i).stop = (mm.info i).startAddr + (mm.info i).length :=
    Nat.mod_eq_of_lt hwrap
  have hperm := extents_perm hi
  have hleft : part (mm.info i).startAddr a = [] := hlo ▸ part_self _
  rw [cutBootmmInfo_of_skip (splitBootmmInfo_skip (by omega)),
    Nat.mod_eq_of_lt (hhi.trans_lt hwrap)]
  rcases Nat.lt_or_eq_of_le hhi with hlt | heq
  · obtain ⟨-, s⟩ := splitBootmmInfo_spec (p := a + n) hi hmax.ne hstop ⟨by omega, by omega⟩
    have hi' : i < (splitBootmmInfo mm i (a + n)).1.infoCnt := by rw [s.infoCnt]; omega
    have hp := s.extents hperm
    rw [← s.left] at hp
    refine ⟨⟨_, _, _, hlo.le, by omega, hhi, hperm, ?_⟩, fun h => (s.blank h).delete hi', ?_,
      s.same.trans (deleteBootmmInfo_same _ _)⟩
    · rw [hleft, part_eq hlt]
      exact deleteBootmmInfo_extents hi' hp
    · rw [deleteBootmmInfo_infoCnt hi', s.infoCnt]
      omega
  · rw [splitBootmmInfo_skip (by omega)]
    refine ⟨⟨_, _, _, hlo.le, by omega, hhi, hperm, ?_⟩, fun h => h.delete hi, ?_,
      deleteBootmmInfo_same _ _⟩
    · rw [hleft, heq, part_self]
      exact deleteBootmmInfo_extents hi hperm
    · rw [deleteBootmmInfo_infoCnt hi]
      omega

theorem cutBootmmInfo_inside (hi : i < mm.infoCnt) (hmax : mm.infoCnt < maxMminfoNum)
    (hwrap : (mm.info i).startAddr + (mm.info i).length < uintRange)
    (hn : 0 < n) (hlo : (mm.info i).startAddr < a)
    (hhi : a + n ≤ (mm.info i).startAddr + (mm.info i).length)
    (hroom : (splitBootmmInfo mm i a).1.infoCnt < maxMminfoNum) :
    CutOut mm (cutBootmmInfo mm i a n) a n := by
  have hstop : (mm.info i).stop = (mm.info i).startAddr + (mm.info i).length :=
    Nat.mod_eq_of_lt hwrap
  have hperm := extents_perm hi
  obtain ⟨h1, s1⟩ := splitBootmmInfo_spec hi hmax.ne hstop ⟨hlo, by omega⟩
  rw [cutBootmmInfo_of_split h1, Nat.mod_eq_of_lt (hhi.trans_lt hwrap)]
  generalize (splitBootmmInfo mm i a).1 = mm1 at s1 hroom
  have hlast : mm1.infoCnt - 1 = mm.infoCnt := by rw [s1.infoCnt, Nat.add_sub_cancel]
  have hin : mm.infoCnt < mm1.infoCnt := by rw [s1.infoCnt]; exact Nat.lt_succ_self _
  have hstart : (mm1.info mm.infoCnt).startAddr = a := congrArg Prod.fst s1.right
  have hsum : (mm1.info mm.infoCnt).startAddr + (mm1.info mm.infoCnt).length =
      (mm.info i).startAddr + (mm.info i).length := congrArg Prod.snd s1.right
  have hstop1 : (mm1.info mm.infoCnt).stop =
      (mm1.info mm.infoCnt).startAddr + (mm1.info mm.infoCnt).length :=
    Nat.mod_eq_of_lt (hsum.trans_lt hwrap)
  have hp1 : mm1.extents.Perm
      ((mm1.info mm.infoCnt).extent :: ((mm.info i).startAddr, a) :: mm.others i) := by
    rw [s1.right]
    exact (s1.extents hperm).trans (.swap _ _ _)
  dsimp only
  rw [hlast]
  rcases Nat.lt_or_eq_of_le hhi with hlt | heq
  · obtain ⟨h2, s2⟩ := splitBootmmInfo_spec (p := a + n) hin hroom.ne hstop1 ⟨by omega, by omega⟩
    rw [if_pos (by rw [h2]; exact Nat.one_pos)]
    generalize (splitBootmmInfo mm1 mm.infoCnt (a + n)).1 = mm2 at s2
    have hcnt : mm2.infoCnt - 2 = mm.infoCnt := by rw [s2.infoCnt, s1.infoCnt]; omega
    have hi2 : mm.infoCnt < mm2.infoCnt := by rw [s2.infoCnt]; omega
    have hp2 := s2.extents hp1
    rw [← s2.left, hsum] at hp2
    rw [hcnt]
    refine ⟨⟨_, _, _, hlo.le, by omega, hhi, hperm, ?_⟩,
      fun h => (s2.blank (s1.blank h)).delete hi2, ?_,
      (s1.same.trans s2.same).trans (deleteBootmmInfo_same _ _)⟩
    · rw [part_eq hlo, part_eq hlt]
      exact (deleteBootmmInfo_extents hi2 hp2).trans (.swap _ _ _)
    · rw [deleteBootmmInfo_infoCnt hi2, s2.infoCnt, s1.infoCnt]
      omega
  · rw [splitBootmmInfo_skip (by omega), if_neg (lt_irrefl 0), hlast]
    refine ⟨⟨_, _, _, hlo.le, by omega, hhi, hperm, ?_⟩, fun h => (s1.blank h).delete hin, ?_,
      s1.same.trans (deleteBootmmInfo_same _ _)⟩
    · rw [part_eq hlo, heq, part_self]
      exact deleteBootmmInfo_extents hin hp1
    · rw [deleteBootmmInfo_infoCnt hin, s1.infoCnt]
      omega

theorem cutBootmmInfo_spec (hi : i < mm.infoCnt) (hmax : mm.infoCnt < maxMminfoNum)
    (hwrap : (mm.info i).startAddr + (mm.info i).length < uintRange)
    (hn : 0 < n) (hlo : (mm.info i).startAddr ≤ a)
    (hhi : a + n ≤ (mm.info i).startAddr + (mm.info i).length)
    (hroom : (splitBootmmInfo mm i a).1.infoCnt < maxMminfoNum) :
    CutOut mm (cutBootmmInfo mm i a n) a n :=
  (Nat.lt_or_eq_of_le hlo).elim
    (fun h => cutBootmmInfo_inside hi hmax hwrap hn h hhi hroom)
    (fun h => cutBootmmInfo_start hi hmax hwrap hn h hhi)

end Cut

section Insert

/-- The range is added to the records, put together with its neighbours or not. -/
structure Inserted (mm mm' : Bootmm) (a n : ℕ) : Prop where
  joins : Joins ((a, a + n) :: mm.extents) mm'.extents
  blank : BlankBeyond mm'
  infoCnt : mm'.infoCnt ≤ mm.infoCnt + 1
  same : SameMap mm mm'

def firstMatch (mm : Bootmm) (a n type : ℕ) : Option ℕ :=
  (List.range mm.infoCnt).find? fun i => matchesInfo (mm.info i) a n type

theorem insertLoop_eq (mm : Bootmm) (a n type : ℕ) (is : List ℕ) :
    insertLoop mm a n type is =
      ((is.find? fun i => matchesInfo (mm.info i) a n type).map (mergeBootmmInfo mm a n type)).getD
        (mm, 0) := by
  induction is with
  | nil => rfl
  | cons i is ih =>
    rw [insertLoop, List.find?_cons]
    cases matchesInfo (mm.info i) a n type with
    | true => rfl
    | false => exact ih

theorem pushInfo_inserted (h : BlankBeyond mm) : Inserted mm (pushInfo mm a n type) a n := by
  refine ⟨?_, h.pushInfo, le_rfl, ⟨rfl, rfl, rfl⟩⟩
  rw [pushInfo_extents]
  exact .perm (List.perm_append_singleton _ _).symm

variable {top : ℕ}

theorem setBootmmInfo_inserted (h : BlankBeyond mm) (hi : i < mm.infoCnt) {start len : ℕ}
    (hj : Joins ((a, a + n) :: (mm.info i).extent :: mm.others i)
      ((start, start + len) :: mm.others i)) :
    Inserted mm (setBootmmInfo mm i start len type) a n := by
  have hset : (setBootmmInfo mm i start len type).extents.Perm _ :=
    setBootmmInfo_extents hi (extents_perm hi)
  exact ⟨(hj.of_perm ((extents_perm hi).cons _)).perm_right hset.symm, h.setInfo hi,
    Nat.le_succ _, ⟨rfl, rfl, rfl⟩⟩

structure InsertAt (mm : Bootmm) (a n top : ℕ) : Prop where
  blank : BlankBeyond mm
  bound : ∀ e ∈ mm.extents, e.1 < e.2 ∧ e.2 ≤ top
  length : 0 < n
  below : a + n ≤ top
  small : top < uintRange

theorem InsertAt.stop (h : InsertAt mm a n top) (hi : i < mm.infoCnt) :
    (mm.info i).stop = (mm.info i).startAddr + (mm.info i).length :=
  Nat.mod_eq_of_lt (((h.bound _ (extent_mem_extents hi)).2).trans_lt h.small)

theorem merge_both (h : InsertAt mm a n top) (hi : i < mm.infoCnt) (hstop : (mm.info i).stop = a)
    (hnext : a + n = (mm.info (i + 1)).startAddr) :
    Inserted mm (deleteBootmmInfo (setBootmmInfo mm i (mm.info i).startAddr
      ((mm.info i).length + (n + (mm.info (i + 1)).length)) type) (i + 1)).1 a n := by
  have hi1 : i + 1 < mm.infoCnt := by
    by_contra hno
    have hz := congrArg BootmmInfo.startAddr (h.blank (i + 1) (not_lt.mp hno))
    have := h.length
    simp only [blankInfo] at hz
    omega
  rw [h.stop hi] at hstop
  set mm1 := setBootmmInfo mm i (mm.info i).startAddr
    ((mm.info i).length + (n + (mm.info (i + 1)).length)) type with hmm1
  obtain ⟨rest, hrest⟩ : ∃ rest, (mm.others i).Perm ((mm.info (i + 1)).extent :: rest) :=
    ⟨_, List.perm_cons_erase (extent_mem_others hi1 (Nat.succ_ne_self i))⟩
  have hp := (extents_perm hi).trans (hrest.cons _)
  have hinfo : mm1.info (i + 1) = mm.info (i + 1) := Function.update_of_ne (Nat.succ_ne_self i) _ _
  have hset : mm1.extents.Perm _ := setBootmmInfo_extents hi hp
  have hp1 := hset.trans (.swap _ _ _)
  rw [← hinfo] at hp1
  refine ⟨?_, (h.blank.setInfo hi).delete hi1, ?_,
    (setBootmmInfo_same _ _ _ _ _).trans (deleteBootmmInfo_same _ _)⟩
  · have hnext' : (mm.info (i + 1)).extent =
        (a + n, (mm.info (i + 1)).startAddr + (mm.info (i + 1)).length) := by
      rw [BootmmInfo.extent, hnext]
    have hthis : (mm.info i).extent = ((mm.info i).startAddr, a) := by
      rw [BootmmInfo.extent, hstop]
    refine .join (Nat.le.intro hstop) (Nat.le_add_right a n) (((hp.cons _).trans (.swap _ _ _)).trans
      (.of_eq (by rw [hthis, hnext']))) ?_
    refine .join (by omega) (by omega) (.refl _) (.perm ?_)
    have hd := (deleteBootmmInfo_extents (show i + 1 < mm1.infoCnt from hi1) hp1).symm
    have hend : (mm.info i).startAddr + ((mm.info i).length + (n + (mm.info (i + 1)).length)) =
        (mm.info (i + 1)).startAddr + (mm.info (i + 1)).length := by omega
    rwa [hinfo, hend] at hd
  · rw [deleteBootmmInfo_infoCnt (show i + 1 < mm1.infoCnt from hi1)]
    exact (Nat.sub_le _ _).trans (Nat.le_succ _)

theorem merge_left (h : InsertAt mm a n top) (hi : i < mm.infoCnt) (hstop : (mm.info i).stop = a) :
    Inserted mm (setBootmmInfo mm i (mm.info i).startAddr ((mm.info i).length + n) type) a n := by
  rw [h.stop hi] at hstop
  refine setBootmmInfo_inserted h.blank hi (.join (Nat.le.intro hstop) (Nat.le_add_right a n)
    ((List.Perm.swap _ _ _).trans (.of_eq (by rw [BootmmInfo.extent, hstop]))) (.perm (.of_eq ?_)))
  rw [← hstop, Nat.add_assoc]

/-- The branch whose comparison is with the length, where the record does start after the range. -/
theorem merge_right (h : InsertAt mm a n top) (hi : i < mm.infoCnt)
    (hstart : (mm.info i).startAddr = a + n) :
    Inserted mm (setBootmmInfo mm i a ((mm.info i).length + n) type) a n := by
  refine setBootmmInfo_inserted h.blank hi (.join (Nat.le_add_right a n)
    (Nat.le_add_right (a + n) (mm.info i).length)
    (.of_eq (by rw [BootmmInfo.extent, hstart])) (.perm (.of_eq ?_)))
  rw [Nat.add_assoc, Nat.add_comm n]

theorem mergeBootmmInfo_inserted (h : InsertAt mm a n top) (hi : i < mm.infoCnt)
    (hat : (mm.info i).stop = a ∨ (mm.info i).startAddr = a + n) :
    0 < (mergeBootmmInfo mm a n type i).2 ∧ Inserted mm (mergeBootmmInfo mm a n type i).1 a n := by
  have hbound : (mm.info i).startAddr + (mm.info i).length ≤ top :=
    (h.bound _ (extent_mem_extents hi)).2
  have hbelow := h.below
  have hsmall := h.small
  have hmod : (a + n) % uintRange = a + n := Nat.mod_eq_of_lt (hbelow.trans_lt hsmall)
  unfold mergeBootmmInfo
  dsimp only
  rw [hmod]
  split_ifs with hstop hnext
  · have hi1 : (mm.info (i + 1)).startAddr + (mm.info (i + 1)).length ≤ top := by
      by_cases hlt : i + 1 < mm.infoCnt
      · exact (h.bound _ (extent_mem_extents hlt)).2
      · rw [h.blank (i + 1) (not_lt.mp hlt)]
        exact Nat.zero_le _
    have hs := h.stop hi
    rw [Nat.mod_eq_of_lt (by omega)]
    exact ⟨Nat.one_pos, merge_both h hi hstop hnext.2⟩
  · have hs := h.stop hi
    rw [Nat.mod_eq_of_lt (by omega)]
    exact ⟨Nat.two_pos, merge_left h hi hstop⟩
  · have hstart := hat.resolve_left hstop
    rw [Nat.mod_eq_of_lt (by omega)]
    exact ⟨Nat.succ_pos 2, merge_right h hi hstart⟩

theorem insertBootmmInfo_spec (h : InsertAt mm a n top) (hmax : mm.infoCnt < maxMminfoNum)
    (hat : ∀ i ∈ firstMatch mm a n type,
      (mm.info i).stop = a ∨ (mm.info i).startAddr = a + n) :
    0 < (insertBootmmInfo mm a n type).2 ∧ Inserted mm (insertBootmmInfo mm a n type).1 a n := by
  have hloop : insertLoop mm a n type (List.range mm.infoCnt) =
      ((firstMatch mm a n type).map (mergeBootmmInfo mm a n type)).getD (mm, 0) :=
    insertLoop_eq mm a n type _
  rw [insertBootmmInfo, hloop]
  cases hf : firstMatch mm a n type with
  | none =>
    dsimp only [Option.map_none, Option.getD_none]
    rw [if_pos rfl, if_neg hmax.ne]
    exact ⟨Nat.succ_pos 3, pushInfo_inserted h.blank⟩
  | some i =>
    have hi := List.mem_range.mp (List.mem_of_find?_eq_some hf)
    obtain ⟨h1, h2⟩ := mergeBootmmInfo_inserted h hi (hat i hf)
    dsimp only [Option.map_some, Option.getD_some]
    rw [if_neg h1.ne']
    exact ⟨h1, h2⟩

end Insert

end OurOS
