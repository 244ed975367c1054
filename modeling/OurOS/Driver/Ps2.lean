import Mathlib.Data.List.Range
import OurOS.Lib.Run
import OurOS.Utils

namespace OurOS.Driver

def capslockMask : ℕ := 4

def shiftMask : ℕ := 8

def ctrlMask : ℕ := 16

def keyCapsLock : ℕ := 0x58

def keyLeftShift : ℕ := 0x12

def keyRightShift : ℕ := 0x59

def keyLeftCtrl : ℕ := 0x14

def keyRightCtrl : ℕ := 0xE014

def keyLeftAlt : ℕ := 0x11

def keyRightAlt : ℕ := 0xE011

def bufferSize : ℕ := 32

def noKey : ℕ := 0xfff

/-- `sent` are the words written to the data register and `called` the arguments of the calls of
the callback. -/
structure Ps2Sys where
  keyboardCallback : Bool
  keyboardState : ℕ
  keyboardCmdState : ℕ
  buffer : ℕ → ℕ
  ready : ℕ → ℕ
  bufferWptr : ℕ
  bufferRptr : ℕ
  keyBuffer : ℕ
  sent : List ℕ
  called : List (ℕ × Bool)

def initBuffer (s : Ps2Sys) : Ps2Sys :=
  { s with buffer := fun _ => 0, ready := fun _ => 0, bufferWptr := 0, bufferRptr := 0 }

def initPs2 (memory : ℕ → ℕ) : Ps2Sys :=
  initBuffer
    { keyboardCallback := false
      keyboardState := 0
      keyboardCmdState := 0
      buffer := memory
      ready := memory
      bufferWptr := 0
      bufferRptr := 0
      keyBuffer := 0
      sent := []
      called := [] }

def registerKeyboardCallback (callback : Bool) (s : Ps2Sys) : Ps2Sys :=
  { s with keyboardCallback := callback }

def send (word : ℕ) (s : Ps2Sys) : Ps2Sys := { s with sent := s.sent ++ [word] }

def acknowledged (s : Ps2Sys) : Ps2Sys :=
  let s := if s.keyboardCmdState = 1 then send (s.keyboardState &&& 7) s else s
  { s with keyboardCmdState := 0 }

def isMakeCode (keyBuffer : ℕ) : Bool := keyBuffer &&& 0x7f == keyBuffer

def storeKey (key : ℕ) (s : Ps2Sys) : Ps2Sys :=
  { s with
    buffer := Function.update s.buffer s.bufferWptr key
    ready := Function.update s.ready s.bufferWptr 1
    bufferWptr := (s.bufferWptr + 1) &&& 31 }

def setMask (mask : ℕ) (pressDown : Bool) (s : Ps2Sys) : Ps2Sys :=
  { s with keyboardState :=
      if pressDown then s.keyboardState ||| mask else s.keyboardState &&& (uintRange - 1 - mask) }

def isKey (s : Ps2Sys) (left right : ℕ) : Bool := s.keyBuffer == left || s.keyBuffer == right

/-- The keys that change the state of the keyboard; an alt key changes that of ctrl. -/
def trackState (pressDown : Bool) (s : Ps2Sys) : Ps2Sys :=
  if s.keyBuffer = keyCapsLock ∧ pressDown then
    send 0xED { s with keyboardState := s.keyboardState ^^^ capslockMask, keyboardCmdState := 1 }
  else if isKey s keyLeftShift keyRightShift then setMask shiftMask pressDown s
  else if isKey s keyLeftCtrl keyRightCtrl then setMask ctrlMask pressDown s
  else if isKey s keyLeftAlt keyRightAlt then setMask ctrlMask pressDown s
  else s

def callBack (pressDown : Bool) (s : Ps2Sys) : Ps2Sys :=
  if s.keyboardCallback then { s with called := s.called ++ [(s.keyBuffer, pressDown)] } else s

def shiftIn (keyBuffer data : ℕ) : ℕ := (keyBuffer <<< 8) % uintRange ||| data

/-- What `ps2_handler` does with a word of the data register that is no ACK. -/
def ps2Data (data : ℕ) (s : Ps2Sys) : Ps2Sys :=
  let s := { s with keyBuffer := shiftIn s.keyBuffer data }
  if data < 0x80 then
    let s := if isMakeCode s.keyBuffer then storeKey s.keyBuffer s else s
    let pressDown := (s.keyBuffer >>> 8) &&& 0xFF != 0xF0
    let s := if pressDown then
      { s with keyBuffer := ((s.keyBuffer >>> 16) <<< 8) ||| (s.keyBuffer &&& 0xFF) }
      else s
    { callBack pressDown (trackState pressDown s) with keyBuffer := 0 }
  else s

/-- The loop of `ps2_handler`; `reads` are the words that it reads from the two registers. After an
ACK the control register is not read again. -/
def ps2Loop (ctrl : ℕ) : List ℕ → Ps2Sys → Option Ps2Sys
  | [], s => if ctrl &&& 0x3f = 0 then some s else none
  | data :: reads, s =>
    if ctrl &&& 0x3f = 0 then some s
    else if data = 0xfa then ps2Loop ctrl reads (acknowledged s)
    else match reads with
      | [] => none
      | ctrl :: reads => ps2Loop ctrl reads (ps2Data data s)

def ps2Handler (reads : List ℕ) (s : Ps2Sys) : Option Ps2Sys :=
  match reads with
  | [] => none
  | ctrl :: reads => if (ctrl >>> 16) &&& 7 = 0 then ps2Loop ctrl reads s else some s

def kernelGetkey (s : Ps2Sys) : ℕ × Ps2Sys :=
  if s.ready s.bufferRptr = 0 then (noKey, s)
  else
    let temp := s.buffer s.bufferRptr
    let s := { s with
      ready := Function.update s.ready s.bufferRptr 0
      bufferRptr := s.bufferRptr + 1 }
    (temp, if s.bufferRptr = bufferSize then initBuffer s else s)

def storedKey (keyBuffer data : ℕ) : List ℕ :=
  if data < 0x80 ∧ isMakeCode (shiftIn keyBuffer data) then [shiftIn keyBuffer data] else []

def storedKeys (ctrl : ℕ) : List ℕ → Ps2Sys → List ℕ
  | [], _ => []
  | data :: reads, s =>
    if ctrl &&& 0x3f = 0 then []
    else if data = 0xfa then storedKeys ctrl reads (acknowledged s)
    else match reads with
      | [] => []
      | ctrl :: reads => storedKey s.keyBuffer data ++ storedKeys ctrl reads (ps2Data data s)

def handledKeys (reads : List ℕ) (s : Ps2Sys) : List ℕ :=
  match reads with
  | [] => []
  | ctrl :: reads => if (ctrl >>> 16) &&& 7 = 0 then storedKeys ctrl reads s else []

structure KeyRun where
  sys : Ps2Sys
  stored : List ℕ
  returned : List ℕ

inductive KeyOp
  | interrupt (reads : List ℕ)
  | getkey

def keyStep (r : KeyRun) : KeyOp → Option KeyRun
  | .interrupt reads => (ps2Handler reads r.sys).map fun s =>
      { r with sys := s, stored := r.stored ++ handledKeys reads r.sys }
  | .getkey =>
    let (code, s) := kernelGetkey r.sys
    some { r with sys := s, returned := if code = noKey then r.returned else r.returned ++ [code] }

def initKeys (memory : ℕ → ℕ) : KeyRun := ⟨initPs2 memory, [], []⟩

def unreadKeys (s : Ps2Sys) : List ℕ :=
  (((List.range bufferSize).map fun i => (s.bufferRptr + i) % bufferSize).takeWhile
    (s.ready · != 0)).map s.buffer

def Delivered (r : KeyRun) : Prop := r.stored = r.returned ++ unreadKeys r.sys

def FewUnread (r : KeyRun) : KeyOp → Prop
  | .interrupt reads =>
    r.stored.length + (handledKeys reads r.sys).length < r.returned.length + bufferSize
  | .getkey => True

/-- Where the key in the last slot is taken, no other key is in the buffer. -/
def LastAlone (r : KeyRun) : KeyOp → Prop
  | .interrupt _ => True
  | .getkey => r.sys.bufferRptr = bufferSize - 1 → r.sys.ready r.sys.bufferRptr ≠ 0 → r.sys.ready 0 = 0

instance : ∀ r op, Decidable (FewUnread r op)
  | _, .interrupt _ => inferInstanceAs (Decidable (_ < _))
  | _, .getkey => inferInstanceAs (Decidable True)

instance : ∀ r op, Decidable (LastAlone r op)
  | _, .interrupt _ => inferInstanceAs (Decidable True)
  | _, .getkey => inferInstanceAs (Decidable (_ → _ → _))

structure Holds (s : Ps2Sys) (keys : List ℕ) : Prop where
  rptr : s.bufferRptr < bufferSize
  few : keys.length < bufferSize
  wptr : s.bufferWptr = (s.bufferRptr + keys.length) % bufferSize
  ready : ∀ i < bufferSize,
    s.ready ((s.bufferRptr + i) % bufferSize) = if i < keys.length then 1 else 0
  key : ∀ i k, keys[i]? = some k → s.buffer ((s.bufferRptr + i) % bufferSize) = k
  code : ∀ k ∈ keys, k < 0x80

structure SameRing (s t : Ps2Sys) : Prop where
  buffer : t.buffer = s.buffer
  ready : t.ready = s.ready
  wptr : t.bufferWptr = s.bufferWptr
  rptr : t.bufferRptr = s.bufferRptr

section Ring

variable {s t u : Ps2Sys} {keys : List ℕ} {k : ℕ}

theorem SameRing.trans (h : SameRing s t) (h' : SameRing t u) : SameRing s u :=
  ⟨h'.buffer.trans h.buffer, h'.ready.trans h.ready, h'.wptr.trans h.wptr, h'.rptr.trans h.rptr⟩

theorem Holds.congr (h : Holds s keys) (hs : SameRing s t) : Holds t keys := by
  refine ⟨?_, h.few, ?_, fun i hi => ?_, fun i k hk => ?_, h.code⟩
  · rw [hs.rptr]
    exact h.rptr
  · rw [hs.wptr, hs.rptr]
    exact h.wptr
  · rw [hs.ready, hs.rptr]
    exact h.ready i hi
  · rw [hs.buffer, hs.rptr]
    exact h.key i k hk

theorem holds_initBuffer (s : Ps2Sys) : Holds (initBuffer s) [] :=
  have hpos : 0 < bufferSize := by decide
  ⟨hpos, hpos, rfl, fun _ _ => rfl, fun i k hk => by simp at hk, by simp⟩

theorem nextSlot (i : ℕ) : (i + 1) &&& 31 = (i + 1) % bufferSize :=
  Nat.and_two_pow_sub_one_eq_mod (i + 1) 5

theorem slot_inj {r i j : ℕ} (hi : i < bufferSize) (hj : j < bufferSize)
    (h : (r + i) % bufferSize = (r + j) % bufferSize) : i = j := by
  rw [bufferSize] at *
  omega

theorem Holds.storeKey (h : Holds s keys) (hk : k < 0x80) (hfew : keys.length + 1 < bufferSize) :
    Holds (storeKey k s) (keys ++ [k]) := by
  have hslot : ∀ i < bufferSize, i ≠ keys.length →
      (s.bufferRptr + i) % bufferSize ≠ s.bufferWptr := fun i hi hne he =>
    hne (slot_inj hi h.few (he.trans h.wptr))
  refine ⟨h.rptr, by simpa using hfew, ?_, fun i hi => ?_, fun i k' hk' => ?_, fun k' hk' => ?_⟩
  · change (s.bufferWptr + 1) &&& 31 = (s.bufferRptr + _) % bufferSize
    rw [nextSlot, h.wptr, List.length_append, List.length_singleton, Nat.mod_add_mod,
      Nat.add_assoc]
  · change Function.update s.ready s.bufferWptr 1 ((s.bufferRptr + i) % bufferSize) = _
    rw [List.length_append, List.length_singleton]
    by_cases e : i = keys.length
    · subst e
      rw [← h.wptr, Function.update_self, if_pos (Nat.lt_succ_self _)]
    · rw [Function.update_of_ne (hslot i hi e), h.ready i hi]
      simp only [Nat.lt_succ_iff_lt_or_eq, e, or_false]
  · change Function.update s.buffer s.bufferWptr k ((s.bufferRptr + i) % bufferSize) = k'
    by_cases e : i = keys.length
    · subst e
      rw [← h.wptr, Function.update_self]
      simpa using hk'
    · have hlt : i < keys.length := by
        have hlen := (List.getElem?_eq_some_iff.mp hk').1
        rw [List.length_append, List.length_singleton] at hlen
        omega
      rw [Function.update_of_ne (hslot i (hlt.trans h.few) e)]
      rw [List.getElem?_append_left hlt] at hk'
      exact h.key i k' hk'
  · rcases List.mem_append.mp hk' with hm | hm
    · exact h.code k' hm
    · exact List.mem_singleton.mp hm ▸ hk

theorem acknowledged_ring (s : Ps2Sys) : SameRing s (acknowledged s) := by
  rw [acknowledged]
  split_ifs <;> exact ⟨rfl, rfl, rfl, rfl⟩

theorem trackState_ring (pressDown : Bool) (s : Ps2Sys) : SameRing s (trackState pressDown s) := by
  rw [trackState]
  split_ifs <;> exact ⟨rfl, rfl, rfl, rfl⟩

theorem callBack_ring (pressDown : Bool) (s : Ps2Sys) : SameRing s (callBack pressDown s) := by
  rw [callBack]
  split_ifs <;> exact ⟨rfl, rfl, rfl, rfl⟩

end Ring

section Handler

variable {s t : Ps2Sys} {keys reads : List ℕ} {ctrl data : ℕ}

theorem isMakeCode_lt {key : ℕ} (h : isMakeCode key = true) : key < 0x80 := by
  have hle : key &&& 0x7f ≤ 0x7f := Nat.and_le_right
  rw [beq_iff_eq.mp h] at hle
  omega

theorem ps2Data_ring {s₀ : Ps2Sys} (hs : SameRing s₀ s) (pressDown : Bool) :
    SameRing s₀ { callBack pressDown (trackState pressDown s) with keyBuffer := 0 } :=
  ((hs.trans (trackState_ring pressDown s)).trans (callBack_ring pressDown _)).trans
    ⟨rfl, rfl, rfl, rfl⟩

variable (data) in
theorem ps2Data_holds (h : Holds s keys)
    (hfew : keys.length + (storedKey s.keyBuffer data).length < bufferSize) :
    Holds (ps2Data data s) (keys ++ storedKey s.keyBuffer data) := by
  rw [ps2Data, storedKey] at *
  by_cases hd : data < 0x80
  · by_cases hm : isMakeCode (shiftIn s.keyBuffer data) = true
    · simp only [hd, hm, and_self, if_true] at hfew ⊢
      have hstore := (h.congr (t := { s with keyBuffer := shiftIn s.keyBuffer data })
        ⟨rfl, rfl, rfl, rfl⟩).storeKey (isMakeCode_lt hm) hfew
      refine hstore.congr (ps2Data_ring ?_ _)
      split_ifs <;> exact ⟨rfl, rfl, rfl, rfl⟩
    · simp only [hd, hm, and_false, if_true, if_false, Bool.false_eq_true, List.append_nil]
      refine h.congr (ps2Data_ring ?_ _)
      split_ifs <;> exact ⟨rfl, rfl, rfl, rfl⟩
  · simp only [hd, false_and, if_false, List.append_nil]
    exact h.congr ⟨rfl, rfl, rfl, rfl⟩

theorem ps2Loop_idle (hc : ctrl &&& 0x3f = 0) : ps2Loop ctrl reads s = some s := by
  cases reads <;> rw [ps2Loop.eq_def] <;> exact if_pos hc

theorem storedKeys_idle (hc : ctrl &&& 0x3f = 0) : storedKeys ctrl reads s = [] := by
  cases reads
  · rw [storedKeys]
  · rw [storedKeys.eq_def]
    exact if_pos hc

theorem ps2Loop_ack (hc : ctrl &&& 0x3f ≠ 0) :
    ps2Loop ctrl (0xfa :: reads) s = ps2Loop ctrl reads (acknowledged s) := by
  rw [ps2Loop.eq_def]
  exact (if_neg hc).trans (if_pos rfl)

theorem storedKeys_ack (hc : ctrl &&& 0x3f ≠ 0) :
    storedKeys ctrl (0xfa :: reads) s = storedKeys ctrl reads (acknowledged s) := by
  rw [storedKeys.eq_def]
  exact (if_neg hc).trans (if_pos rfl)

theorem ps2Loop_holds (h : Holds s keys)
    (hfew : keys.length + (storedKeys ctrl reads s).length < bufferSize)
    (hr : ps2Loop ctrl reads s = some t) : Holds t (keys ++ storedKeys ctrl reads s) := by
  induction ctrl, reads, s using ps2Loop.induct generalizing keys with
  | case1 ctrl s hc =>
    rw [ps2Loop, if_pos hc] at hr
    cases hr
    simpa [storedKeys] using h
  | case2 ctrl s hc =>
    rw [ps2Loop, if_neg hc] at hr
    cases hr
  | case3 ctrl s data reads hc =>
    rw [ps2Loop_idle hc] at hr
    cases hr
    rw [storedKeys_idle hc, List.append_nil]
    exact h
  | case4 ctrl s reads hc ih =>
    rw [ps2Loop_ack hc] at hr
    rw [storedKeys_ack hc] at hfew ⊢
    exact ih (h.congr (acknowledged_ring _)) hfew hr
  | case5 ctrl s data hc hd =>
    rw [ps2Loop, if_neg hc, if_neg hd] at hr
    cases hr
  | case6 ctrl data s hc hd ctrl' reads ih =>
    rw [ps2Loop, if_neg hc, if_neg hd] at hr
    rw [storedKeys, if_neg hc, if_neg hd] at hfew ⊢
    simp only [List.length_append] at hfew
    have hdata := ps2Data_holds data h (by omega)
    rw [← List.append_assoc]
    exact ih hdata (by rw [List.length_append]; omega) hr

theorem ps2Handler_holds (h : Holds s keys)
    (hfew : keys.length + (handledKeys reads s).length < bufferSize)
    (hr : ps2Handler reads s = some t) : Holds t (keys ++ handledKeys reads s) := by
  cases reads with
  | nil => cases hr
  | cons ctrl reads =>
    simp only [ps2Handler, handledKeys] at hr hfew ⊢
    split_ifs at hr hfew ⊢ with hc
    · exact ps2Loop_holds h hfew hr
    · cases hr
      rw [List.append_nil]
      exact h

end Handler

section Getkey

variable {s : Ps2Sys} {keys : List ℕ} {k : ℕ}

theorem getkey_empty (h : Holds s []) : kernelGetkey s = (noKey, s) := by
  have hready := h.ready 0 (by decide)
  rw [Nat.add_zero, Nat.mod_eq_of_lt h.rptr, List.length_nil, if_neg (Nat.lt_irrefl 0)] at hready
  rw [kernelGetkey, if_pos hready]

theorem getkey_cons (h : Holds s (k :: keys)) :
    ∃ t, kernelGetkey s = (k, t) ∧ s.ready s.bufferRptr ≠ 0 ∧
      (s.bufferRptr ≠ bufferSize - 1 → Holds t keys) ∧
      (s.bufferRptr = bufferSize - 1 → Holds t [] ∧ (s.ready 0 = 0 ↔ keys = [])) := by
  have hready := h.ready 0 (by decide)
  have hkey := h.key 0 k rfl
  have hrptr := h.rptr
  rw [Nat.add_zero, Nat.mod_eq_of_lt h.rptr] at hready hkey
  rw [if_pos (by simp)] at hready
  have hne : s.ready s.bufferRptr ≠ 0 := by
    rw [hready]
    exact Nat.one_ne_zero
  refine ⟨_, by rw [kernelGetkey, if_neg hne, hkey], hne, fun hlast => ?_, fun hlast => ⟨?_, ?_⟩⟩
  · have hnext : s.bufferRptr + 1 < bufferSize := by omega
    rw [if_neg (by simp only; omega)]
    have hslot : ∀ i, (s.bufferRptr + 1 + i) % bufferSize = (s.bufferRptr + (i + 1)) % bufferSize :=
      fun i => by rw [Nat.add_assoc, Nat.add_comm 1 i]
    have hfew := h.few
    rw [List.length_cons] at hfew
    refine ⟨hnext, by omega, ?_, fun i hi => ?_, fun i k' hk' => ?_, fun k' hk' =>
      h.code k' (List.mem_cons_of_mem _ hk')⟩
    · change s.bufferWptr = (s.bufferRptr + 1 + keys.length) % bufferSize
      rw [h.wptr, hslot, List.length_cons]
    · change Function.update s.ready s.bufferRptr 0 ((s.bufferRptr + 1 + i) % bufferSize) = _
      rw [hslot]
      by_cases e : i + 1 = bufferSize
      · have hback : (s.bufferRptr + (i + 1)) % bufferSize = s.bufferRptr := by
          rw [e, Nat.add_mod_right, Nat.mod_eq_of_lt hrptr]
        rw [hback, Function.update_self, if_neg (by omega)]
      · have hother : (s.bufferRptr + (i + 1)) % bufferSize ≠ s.bufferRptr := fun he => by
          have h0 : (s.bufferRptr + (i + 1)) % bufferSize = (s.bufferRptr + 0) % bufferSize := by
            rw [he, Nat.add_zero, Nat.mod_eq_of_lt hrptr]
          exact absurd (slot_inj (by omega) (by decide) h0) (Nat.succ_ne_zero i)
        rw [Function.update_of_ne hother, h.ready _ (by omega), List.length_cons]
        simp only [Nat.add_lt_add_iff_right]
    · change s.buffer ((s.bufferRptr + 1 + i) % bufferSize) = k'
      rw [hslot]
      exact h.key (i + 1) k' hk'
  · rw [if_pos (by simp only [hlast]; rfl)]
    exact holds_initBuffer _
  · have hfirst := h.ready 1 (by decide)
    rw [hlast, show (bufferSize - 1 + 1) % bufferSize = 0 from rfl] at hfirst
    rw [hfirst, List.length_cons]
    cases keys <;> simp

theorem unreadKeys_eq (h : Holds s keys) : unreadKeys s = keys := by
  have hfew := h.few
  have hslots : ((List.range bufferSize).map fun i => (s.bufferRptr + i) % bufferSize).takeWhile
      (s.ready · != 0) =
        (List.range keys.length).map fun i => (s.bufferRptr + i) % bufferSize := by
    have hlen : bufferSize = keys.length + (bufferSize - keys.length - 1 + 1) := by omega
    have hend : s.ready ((s.bufferRptr + keys.length) % bufferSize) = 0 := by
      rw [h.ready _ hfew, if_neg (Nat.lt_irrefl _)]
    have hin : ∀ x ∈ (List.range keys.length).map fun i => (s.bufferRptr + i) % bufferSize,
        (s.ready x != 0) = true := by
      intro x hx
      obtain ⟨i, hi, rfl⟩ := List.mem_map.mp hx
      have hi := List.mem_range.mp hi
      rw [h.ready i (hi.trans hfew), if_pos hi]
      rfl
    rw [hlen, List.range_add, List.map_append, ← hlen, List.takeWhile_append_of_pos hin,
      List.range_succ_eq_map]
    simp [hend]
  rw [unreadKeys, hslots, List.map_map]
  refine List.ext_getElem (by simp) fun i h1 h2 => ?_
  simpa using h.key i keys[i] (List.getElem?_eq_getElem h2)

end Getkey

/-- The state of a run in which `lost` of the stored keys were dropped from the ring. -/
structure KeyInv (r : KeyRun) (lost : ℕ) (keys : List ℕ) : Prop where
  holds : Holds r.sys keys
  count : r.stored.length = r.returned.length + lost + keys.length
  order : lost = 0 → r.stored = r.returned ++ keys

section Run

variable {r r' : KeyRun} {lost : ℕ} {keys : List ℕ}

theorem KeyInv.delivered_iff (h : KeyInv r lost keys) : Delivered r ↔ lost = 0 := by
  rw [Delivered, unreadKeys_eq h.holds]
  refine ⟨fun he => ?_, h.order⟩
  have hlen := congrArg List.length he
  rw [List.length_append, h.count] at hlen
  omega

theorem initKeys_inv (memory : ℕ → ℕ) : KeyInv (initKeys memory) 0 [] :=
  ⟨holds_initBuffer _, rfl, fun _ => rfl⟩

theorem keyStep_inv {op : KeyOp} (h : KeyInv r lost keys) (hfew : FewUnread r op)
    (hr : keyStep r op = some r') : ∃ lost' keys', KeyInv r' lost' keys' ∧ lost ≤ lost' ∧
      (LastAlone r op ↔ lost' = lost) := by
  cases op with
  | interrupt reads =>
    obtain ⟨s, hs, rfl⟩ := Option.map_eq_some_iff.mp hr
    have hcount := h.count
    have hlen : keys.length + (handledKeys reads r.sys).length < bufferSize := by
      have hfew : r.stored.length + (handledKeys reads r.sys).length <
        r.returned.length + bufferSize := hfew
      omega
    refine ⟨lost, _, ⟨ps2Handler_holds h.holds hlen hs, ?_, fun h0 => ?_⟩, le_rfl, ?_⟩
    · simp only [List.length_append]
      omega
    · simp only [h.order h0, List.append_assoc]
    · exact iff_of_true trivial rfl
  | getkey =>
    have hstep : ∀ {code : ℕ} {t : Ps2Sys}, kernelGetkey r.sys = (code, t) → r' = { r with
        sys := t, returned := if code = noKey then r.returned else r.returned ++ [code] } := by
      intro code t hget
      rw [keyStep, hget] at hr
      exact (Option.some.inj hr).symm
    cases keys with
    | nil =>
      have hready := h.holds.ready 0 (by decide)
      rw [Nat.add_zero, Nat.mod_eq_of_lt h.holds.rptr] at hready
      rw [hstep (getkey_empty h.holds)]
      exact ⟨lost, [], h, le_rfl, iff_of_true (fun _ hne => absurd hready hne) rfl⟩
    | cons k keys =>
      obtain ⟨t, hget, hne, hstay, hlast⟩ := getkey_cons h.holds
      have hcode : k ≠ noKey := by
        have hk := h.holds.code k List.mem_cons_self
        rw [noKey]
        omega
      have hcount := h.count
      rw [List.length_cons] at hcount
      rw [hstep hget]
      by_cases hend : r.sys.bufferRptr = bufferSize - 1
      · obtain ⟨h1, h2⟩ := hlast hend
        refine ⟨lost + keys.length, [], ⟨h1, ?_, fun h0 => ?_⟩, Nat.le_add_right _ _, ?_⟩
        · simp only [if_neg hcode, List.length_append, List.length_singleton, List.length_nil]
          omega
        · obtain ⟨h3, h4⟩ := Nat.add_eq_zero_iff.mp h0
          obtain rfl := List.length_eq_zero_iff.mp h4
          simp only [if_neg hcode, List.append_nil]
          exact h.order h3
        · have hiff : LastAlone r .getkey ↔ keys = [] :=
            ⟨fun h => h2.mp (h hend hne), fun h _ _ => h2.mpr h⟩
          rw [hiff, ← List.length_eq_zero_iff]
          omega
      · refine ⟨lost, keys, ⟨hstay hend, ?_, fun h0 => ?_⟩, le_rfl,
          iff_of_true (fun he => absurd he hend) rfl⟩
        · simp only [if_neg hcode, List.length_append, List.length_singleton]
          omega
        · simp only [if_neg hcode, List.append_assoc, List.singleton_append]
          exact h.order h0

theorem runOps_keyInv {ops : List KeyOp} (h : KeyInv r lost keys)
    (hfew : RunMeets keyStep FewUnread r ops) (hr : runOps keyStep r ops = some r') :
    ∃ lost' keys', KeyInv r' lost' keys' ∧ lost ≤ lost' ∧
      (RunMeets keyStep LastAlone r ops ↔ lost' = lost) := by
  induction ops generalizing r lost keys with
  | nil =>
    cases hr
    exact ⟨lost, keys, h, le_rfl, iff_of_true trivial rfl⟩
  | cons op ops ih =>
    obtain ⟨u, hu, hr⟩ := Option.bind_eq_some_iff.mp hr
    obtain ⟨lost₁, keys₁, h1, h2, h3⟩ := keyStep_inv h hfew.1 hu
    obtain ⟨lost₂, keys₂, h4, h5, h6⟩ := ih h1 (hfew.2 u hu) hr
    refine ⟨lost₂, keys₂, h4, h2.trans h5, ?_⟩
    have hmeets : RunMeets keyStep LastAlone r (op :: ops) ↔
        LastAlone r op ∧ RunMeets keyStep LastAlone u ops := by
      simp [RunMeets, hu]
    rw [hmeets, h3, h6]
    omega

theorem keyRun_delivered_iff {memory : ℕ → ℕ} {ops : List KeyOp}
    (hfew : RunMeets keyStep FewUnread (initKeys memory) ops)
    (hr : runOps keyStep (initKeys memory) ops = some r) :
    Delivered r ↔ RunMeets keyStep LastAlone (initKeys memory) ops := by
  obtain ⟨lost, keys, h1, -, h2⟩ := runOps_keyInv (initKeys_inv memory) hfew hr
  rw [h1.delivered_iff, h2]

end Run

def press (key : ℕ) : KeyOp := .interrupt [1, key, 0]

/-- The keys that fill and empty all slots but the last. -/
def typed : List KeyOp := (List.range 31).flatMap fun i => [press (i + 1), .getkey]

theorem keyRun_delivered_small : ∃ r,
    runOps keyStep (initKeys fun _ => 0) (typed ++ [press 0x1C, .getkey, press 0x1B]) = some r ∧
      Delivered r := by
  obtain ⟨r, hr⟩ := Option.isSome_iff_exists.mp (show (runOps keyStep (initKeys fun _ => 0)
    (typed ++ [press 0x1C, .getkey, press 0x1B])).isSome = true by decide +kernel)
  exact ⟨r, hr, (keyRun_delivered_iff (by decide +kernel) hr).mpr (by decide +kernel)⟩

/-- Two keys in the last slot and the first one: the second is dropped when the first is taken. -/
theorem keyRun_not_delivered : ¬ ∀ (memory : ℕ → ℕ) (ops : List KeyOp) (r : KeyRun),
    RunMeets keyStep FewUnread (initKeys memory) ops →
      runOps keyStep (initKeys memory) ops = some r → Delivered r := by
  intro h
  have hlost : (runOps keyStep (initKeys fun _ => 0)
      (typed ++ [press 0x1C, press 0x1B, .getkey])).map
        (fun r => r.stored == r.returned ++ unreadKeys r.sys) = some false := by decide +kernel
  obtain ⟨r, hr, hne⟩ := Option.map_eq_some_iff.mp hlost
  have hd := h _ _ r (by decide +kernel) hr
  rw [Delivered] at hd
  rw [← hd] at hne
  simp at hne

end OurOS.Driver
