import OurOS.Driver.Vga
import OurOS.Lib.Run

namespace OurOS.Usr

open Driver

def newlineKey : ℤ := '\n'.toNat

def backspaceKey : ℤ := 8

def eofKey : ℤ := -1

/-- `str` is the memory from the line buffer on, and `stores` the places in it that were written. -/
structure LineSys where
  vga : VgaSys
  str : ℕ → ℕ
  stores : List ℕ
  index : ℕ

def storeLine (i : ℕ) (c : ℤ) (s : LineSys) : LineSys :=
  { s with str := Function.update s.str i (wrapByte c), stores := s.stores ++ [i] }

/-- One turn of the loop of `read_line`, with what it returns if it does. -/
def readKey (length : ℕ) (c : ℤ) (s : LineSys) : Option Bool × LineSys :=
  if c = newlineKey then (some true, storeLine (s.index + 1) 0 (storeLine s.index c s))
  else if c = backspaceKey then
    if s.index ≠ 0 then
      let s := { storeLine s.index 0 s with index := s.index - 1 }
      let vga := kernelPutcharAt ' '.toNat s.vga.row (s.vga.col - 1) s.vga
      (none, { s with vga := kernelSetCursor { vga with col := vga.col - 1 } })
    else (none, s)
  else if c = eofKey then (some false, s)
  else if s.index < length - 1 then
    let s := { storeLine s.index c s with index := s.index + 1 }
    (none, { s with vga := kernelPutch (wrapByte c) vgaWhite vgaBlack s.vga })
  else (none, s)

def readKeys (length : ℕ) : List ℤ → LineSys → Option (Bool × LineSys)
  | [], _ => none
  | c :: cs, s =>
    match readKey length c s with
    | (none, s) => readKeys length cs s
    | (some b, s) => some (b, s)

/-- `keys` are what the calls of `kernel_getchar` return. -/
def readLine (length : ℕ) (keys : List ℤ) (vga : VgaSys) (str : ℕ → ℕ) : Option (Bool × LineSys) :=
  readKeys length keys ⟨vga, str, [], 0⟩

section Specification

/-- What a key does to the characters of a line that takes at most `limit` of them. -/
def editLine (limit : ℕ) (line : List ℤ) (c : ℤ) : List ℤ :=
  if c = backspaceKey then line.dropLast
  else if line.length < limit then line ++ [c]
  else line

def typedLine (limit : ℕ) (keys : List ℤ) : List ℤ := keys.foldl (editLine limit) []

end Specification

structure LineInv (length : ℕ) (typed : List ℤ) (s : LineSys) : Prop where
  index : s.index = typed.length
  limit : typed.length ≤ length - 1
  text : ∀ i c, typed[i]? = some c → s.str i = wrapByte c
  inside : ∀ i ∈ s.stores, i < length

def IsEdit (c : ℤ) : Prop := c ≠ newlineKey ∧ c ≠ eofKey

instance (c : ℤ) : Decidable (IsEdit c) := inferInstanceAs (Decidable (_ ∧ _))

variable {length : ℕ} {line : List ℤ} {s : LineSys}

theorem LineInv.inside_store (h : LineInv length line s) (hlen : 2 ≤ length) (c : ℤ) :
    ∀ i ∈ (storeLine s.index c s).stores, i < length := by
  intro i hi
  have hlimit := h.limit
  rcases List.mem_append.mp hi with hi | hi
  · exact h.inside i hi
  · rw [List.mem_singleton.mp hi, h.index]
    omega

theorem LineInv.erase (h : LineInv length line s) (hlen : 2 ≤ length) (vga : VgaSys) :
    LineInv length line.dropLast
      { storeLine s.index 0 s with index := s.index - 1, vga := vga } := by
  refine ⟨?_, ?_, fun i c hi => ?_, h.inside_store hlen 0⟩
  · rw [List.length_dropLast, h.index]
  · rw [List.length_dropLast]
    exact (Nat.sub_le _ 1).trans h.limit
  · rw [List.getElem?_dropLast] at hi
    have hlt : i < line.length - 1 := by
      by_contra hge
      rw [if_neg hge] at hi
      cases hi
    have hne : i ≠ s.index := by
      rw [h.index]
      omega
    rw [if_pos hlt] at hi
    exact (Function.update_of_ne hne _ _).trans (h.text i c hi)

theorem LineInv.append (h : LineInv length line s) (hlen : 2 ≤ length)
    (hroom : line.length < length - 1) (c : ℤ) (vga : VgaSys) :
    LineInv length (line ++ [c]) { storeLine s.index c s with index := s.index + 1, vga := vga } := by
  refine ⟨?_, ?_, fun i d hi => ?_, h.inside_store hlen c⟩
  · rw [List.length_append, h.index, List.length_singleton]
  · rw [List.length_append]
    exact hroom
  · change Function.update s.str s.index (wrapByte c) i = wrapByte d
    by_cases hlast : i = line.length
    · rw [hlast, List.getElem?_concat_length] at hi
      rw [h.index, hlast, Function.update_self, Option.some.inj hi]
    · have hlt : i < line.length := by
        have hi' := (List.getElem?_eq_some_iff.mp hi).1
        rw [List.length_append, List.length_singleton] at hi'
        omega
      rw [List.getElem?_append_left hlt] at hi
      rw [h.index, Function.update_of_ne hlast]
      exact h.text i d hi

theorem readKey_edit (h : LineInv length line s) (hlen : 2 ≤ length) {c : ℤ} (hc : IsEdit c) :
    ∃ t, readKey length c s = (none, t) ∧ LineInv length (editLine (length - 1) line c) t := by
  rw [readKey, if_neg hc.1, editLine]
  by_cases hback : c = backspaceKey
  · rw [if_pos hback, if_pos hback]
    by_cases hzero : s.index = 0
    · have hnil : line = [] := List.length_eq_zero_iff.mp (h.index.symm.trans hzero)
      refine ⟨s, if_neg (not_not_intro hzero), ?_⟩
      rwa [hnil, List.dropLast_nil, ← hnil]
    · exact ⟨_, if_pos hzero, h.erase hlen _⟩
  · rw [if_neg hback, if_neg hback, if_neg hc.2, h.index]
    by_cases hroom : line.length < length - 1
    · rw [if_pos hroom, if_pos hroom]
      have happ := h.append hlen hroom c (kernelPutch (wrapByte c) vgaWhite vgaBlack s.vga)
      rw [h.index] at happ
      exact ⟨_, rfl, happ⟩
    · rw [if_neg hroom, if_neg hroom]
      exact ⟨s, rfl, h⟩

theorem readKeys_edits (hlen : 2 ≤ length) {cs : List ℤ} (hcs : ∀ c ∈ cs, IsEdit c) (rest : List ℤ)
    (h : LineInv length line s) :
    ∃ t, readKeys length (cs ++ rest) s = readKeys length rest t ∧
      LineInv length (cs.foldl (editLine (length - 1)) line) t := by
  induction cs generalizing line s with
  | nil => exact ⟨s, rfl, h⟩
  | cons c cs ih =>
    obtain ⟨t, hkey, ht⟩ := readKey_edit h hlen (hcs c List.mem_cons_self)
    obtain ⟨u, hkeys, hu⟩ := ih (fun d hd => hcs d (List.mem_cons_of_mem c hd)) ht
    refine ⟨u, ?_, hu⟩
    rw [List.cons_append, readKeys, hkey]
    exact hkeys

/-- The stores of `read_line` are in the buffer of `length` bytes, which holds `text` and a NUL. -/
def LineRead (length : ℕ) (text : List ℤ) (s : LineSys) : Prop :=
  (∀ i ∈ s.stores, i < length) ∧
    (List.range (text.length + 1)).map s.str = (text ++ [0]).map wrapByte

theorem LineInv.terminated (h : LineInv length line s) :
    (List.range (line.length + 2)).map
        (storeLine (s.index + 1) 0 (storeLine s.index newlineKey s)).str =
      (line ++ [newlineKey] ++ [0]).map wrapByte := by
  refine List.ext_getElem (by simp) fun i h1 _ => ?_
  rw [List.getElem_map, List.getElem_map, List.getElem_range, h.index]
  rw [List.length_map, List.length_range] at h1
  rcases Nat.lt_trichotomy i line.length with hi | rfl | hi
  · have hne : i ≠ line.length + 1 := by omega
    have hget := h.text i (line.get ⟨i, hi⟩) (List.getElem?_eq_getElem hi)
    simp [storeLine, hne, hi.ne, hget, List.getElem_append_left, hi]
  · simp [storeLine]
  · obtain rfl : i = line.length + 1 := by omega
    simp [storeLine]

theorem LineInv.enter (h : LineInv length line s) (hlen : 2 ≤ length) :
    ∃ t, readKeys length [newlineKey] s = some (true, t) ∧
      (LineRead length (line ++ [newlineKey]) t ↔ line.length < length - 1) := by
  refine ⟨_, rfl, ?_⟩
  have htext := h.terminated
  constructor
  · rintro ⟨hinside, -⟩
    have hlast := hinside (s.index + 1) (List.mem_append_right _ (List.mem_singleton_self _))
    rw [h.index] at hlast
    omega
  · intro hroom
    refine ⟨fun i hi => ?_, by simpa using htext⟩
    rcases List.mem_append.mp hi with hi | hi
    · exact h.inside_store hlen newlineKey i hi
    · rw [List.mem_singleton.mp hi, h.index]
      omega

theorem readLine_returns (hlen : 2 ≤ length) {cs : List ℤ} (hcs : ∀ c ∈ cs, IsEdit c)
    (vga : VgaSys) (str : ℕ → ℕ) :
    ∃ t, readLine length (cs ++ [newlineKey]) vga str = some (true, t) ∧
      (LineRead length (typedLine (length - 1) cs ++ [newlineKey]) t ↔
        (typedLine (length - 1) cs).length < length - 1) := by
  have hstart : LineInv length [] ⟨vga, str, [], 0⟩ :=
    ⟨rfl, Nat.zero_le _, fun i c hi => by simp at hi, fun i hi => by simp at hi⟩
  obtain ⟨t, hrun, ht⟩ := readKeys_edits hlen hcs [newlineKey] hstart
  obtain ⟨u, henter, hread⟩ := ht.enter hlen
  exact ⟨u, hrun.trans henter, hread⟩

def ReadsLine (length : ℕ) (cs : List ℤ) (vga : VgaSys) (str : ℕ → ℕ) : Prop :=
  ∃ t, readLine length (cs ++ [newlineKey]) vga str = some (true, t) ∧
    LineRead length (typedLine (length - 1) cs ++ [newlineKey]) t

theorem readLine_iff {length : ℕ} (hlen : 2 ≤ length) {cs : List ℤ} (hcs : ∀ c ∈ cs, IsEdit c)
    (vga : VgaSys) (str : ℕ → ℕ) :
    ReadsLine length cs vga str ↔ (typedLine (length - 1) cs).length < length - 1 := by
  obtain ⟨t, hrun, hread⟩ := readLine_returns hlen hcs vga str
  constructor
  · rintro ⟨u, hu, hlr⟩
    obtain rfl : t = u := congrArg Prod.snd (Option.some.inj (hrun.symm.trans hu))
    exact hread.mp hlr
  · intro h
    exact ⟨t, hrun, hread.mpr h⟩

def blankScreen : VgaSys := ⟨0, 0, 31, 0, fun _ => blank, []⟩

theorem readLine_iff_small :
    ReadsLine 64 [97, backspaceKey, 98] blankScreen (fun _ => 0) :=
  (readLine_iff (by decide) (by decide) _ _).mpr (by decide)

theorem readLine_writes_past :
    ¬ ReadsLine 64 (List.replicate 63 97) blankScreen (fun _ => 0) := by
  rintro ⟨t, hrun, hread⟩
  have hedits : ∀ c ∈ List.replicate 63 97, IsEdit c := by decide +kernel
  obtain ⟨u, hu, hiff⟩ := @readLine_returns 64 (by decide) _ hedits blankScreen (fun _ => 0)
  obtain rfl : u = t := congrArg Prod.snd (Option.some.inj (hu.symm.trans hrun))
  exact absurd (hiff.mp hread) (by decide +kernel)

end OurOS.Usr
