import OurOS.Driver.Ps2

namespace OurOS.Driver

structure Key where
  extended : Bool
  code : ℕ
deriving DecidableEq

def isKeyByte (code : ℕ) : Bool := code < 256 && code != 0xE0 && code != 0xF0 && code != 0xFA

structure ScanCode where
  key : Key
  release : Bool
  isKey : isKeyByte key.code

def ScanCode.bytes (c : ScanCode) : List ℕ :=
  (if c.key.extended then [0xE0] else []) ++ (if c.release then [0xF0] else []) ++ [c.key.code]

inductive Modifier
  | shift
  | ctrl

namespace Modifier

def mask : Modifier → ℕ
  | .shift => shiftMask
  | .ctrl => ctrlMask

def keys : Modifier → List Key
  | .shift => [⟨false, 0x12⟩, ⟨false, 0x59⟩]
  | .ctrl => [⟨false, 0x14⟩, ⟨true, 0x14⟩]

/-- The codes on which `ps2_handler` changes the bit. -/
def codes : Modifier → List ℕ
  | .shift => [keyLeftShift, keyRightShift]
  | .ctrl => [keyLeftCtrl, keyRightCtrl, keyLeftAlt, keyRightAlt]

def isSet (m : Modifier) (s : Ps2Sys) : Prop := s.keyboardState &&& m.mask ≠ 0

end Modifier

section Words

variable {keyBuffer data : ℕ}

theorem shiftIn_eq (keyBuffer : ℕ) (hd : data < 256) :
    shiftIn keyBuffer data = 256 * (keyBuffer % 2 ^ 24) + data := by
  have hword : (keyBuffer <<< 8) % uintRange = 2 ^ 8 * (keyBuffer % 2 ^ 24) := by
    rw [Nat.shiftLeft_eq, Nat.mul_comm, show uintRange = 2 ^ 8 * 2 ^ 24 from rfl,
      Nat.mul_mod_mul_left]
  rw [shiftIn, hword, ← Nat.two_pow_add_eq_or_of_lt hd]

theorem secondByte_eq (word : ℕ) : (word >>> 8) &&& 0xFF = word / 256 % 256 := by
  rw [Nat.shiftRight_eq_div_pow]
  exact Nat.and_two_pow_sub_one_eq_mod _ 8

theorem withoutSecond_eq (word : ℕ) :
    ((word >>> 16) <<< 8) ||| (word &&& 0xFF) = 256 * (word / 65536) + word % 256 := by
  have hlow : word &&& 0xFF = word % 2 ^ 8 := Nat.and_two_pow_sub_one_eq_mod _ 8
  have hlt : word % 2 ^ 8 < 2 ^ 8 := Nat.mod_lt _ (by decide)
  rw [Nat.shiftLeft_eq, Nat.shiftRight_eq_div_pow, hlow, Nat.mul_comm,
    ← Nat.two_pow_add_eq_or_of_lt hlt]
  rfl

end Words

section Bits

variable {m : Modifier} {s t : Ps2Sys}

theorem Modifier.isSet_congr (h : t.keyboardState = s.keyboardState) : m.isSet t ↔ m.isSet s := by
  rw [Modifier.isSet, h]
  rfl

theorem or_and_ne_zero (state : ℕ) {bit mask : ℕ} :
    (state ||| bit) &&& mask ≠ 0 ↔ state &&& mask ≠ 0 ∨ bit &&& mask ≠ 0 := by
  rw [Nat.and_or_distrib_right, ne_eq, Nat.or_eq_zero_iff, not_and_or]

theorem xor_and (state : ℕ) {bit mask : ℕ} (h : bit &&& mask = 0) :
    (state ^^^ bit) &&& mask = state &&& mask := by
  rw [Nat.and_xor_distrib_right, h, Nat.xor_zero]

theorem isKey_iff {left right : ℕ} :
    isKey s left right = true ↔ s.keyBuffer = left ∨ s.keyBuffer = right := by
  simp [isKey]

theorem setMask_press {mask left right : ℕ} (hleft : left ∈ m.codes ↔ mask &&& m.mask ≠ 0)
    (hright : right ∈ m.codes ↔ mask &&& m.mask ≠ 0) (hkey : isKey s left right = true) :
    m.isSet (setMask mask true s) ↔ m.isSet s ∨ s.keyBuffer ∈ m.codes := by
  have hcode : s.keyBuffer ∈ m.codes ↔ mask &&& m.mask ≠ 0 := by
    rcases isKey_iff.mp hkey with h | h
    · rwa [h]
    · rwa [h]
  rw [hcode]
  exact or_and_ne_zero s.keyboardState

theorem trackState_press (m : Modifier) (s : Ps2Sys) :
    m.isSet (trackState true s) ↔ m.isSet s ∨ s.keyBuffer ∈ m.codes := by
  rw [trackState]
  split_ifs with hcaps hshift hctrl halt
  · have hbit : (s.keyboardState ^^^ capslockMask) &&& m.mask = s.keyboardState &&& m.mask :=
      xor_and _ (by cases m <;> rfl)
    have hcode : s.keyBuffer ∉ m.codes := by
      rw [hcaps.1]
      cases m <;> decide
    rw [or_iff_left hcode, Modifier.isSet, Modifier.isSet, ← hbit]
    rfl
  · exact setMask_press (by cases m <;> decide) (by cases m <;> decide) hshift
  · exact setMask_press (by cases m <;> decide) (by cases m <;> decide) hctrl
  · exact setMask_press (by cases m <;> decide) (by cases m <;> decide) halt
  · have hcode : s.keyBuffer ∉ m.codes := by
      rw [isKey_iff] at hshift hctrl halt
      cases m <;> simp [Modifier.codes] <;> tauto
    rw [or_iff_left hcode]

theorem not_isKey {left right : ℕ} (h : s.keyBuffer / 256 % 256 = 0xF0)
    (hleft : left / 256 % 256 ≠ 0xF0) (hright : right / 256 % 256 ≠ 0xF0) :
    ¬ isKey s left right = true := by
  rw [isKey_iff]
  rintro (he | he)
  · exact hleft (he ▸ h)
  · exact hright (he ▸ h)

theorem trackState_release (h : s.keyBuffer / 256 % 256 = 0xF0) : trackState false s = s := by
  have hcaps : ¬ (s.keyBuffer = keyCapsLock ∧ false = true) := fun h => Bool.noConfusion h.2
  rw [trackState, if_neg hcaps, if_neg (not_isKey h (by decide) (by decide)),
    if_neg (not_isKey h (by decide) (by decide)), if_neg (not_isKey h (by decide) (by decide))]

end Bits

section Data

variable {m : Modifier} {s t : Ps2Sys} {data : ℕ}

theorem callBack_keyboardState (pressDown : Bool) (s : Ps2Sys) :
    (callBack pressDown s).keyboardState = s.keyboardState := by
  rw [callBack]
  split_ifs <;> rfl

theorem ps2Data_shift (hd : ¬ data < 0x80) :
    ps2Data data s = { s with keyBuffer := shiftIn s.keyBuffer data } := by
  rw [ps2Data]
  exact if_neg hd

def storeWord (data : ℕ) (s : Ps2Sys) : Ps2Sys :=
  let s := { s with keyBuffer := shiftIn s.keyBuffer data }
  if isMakeCode s.keyBuffer then storeKey s.keyBuffer s else s

theorem storeWord_keyBuffer (data : ℕ) (s : Ps2Sys) :
    (storeWord data s).keyBuffer = shiftIn s.keyBuffer data := by
  simp only [storeWord]
  split_ifs <;> rfl

theorem storeWord_keyboardState (data : ℕ) (s : Ps2Sys) :
    (storeWord data s).keyboardState = s.keyboardState := by
  simp only [storeWord]
  split_ifs <;> rfl

theorem ps2Data_last (hd : data < 0x80) (s : Ps2Sys) :
    ps2Data data s =
      let u := storeWord data s
      let pressDown := (u.keyBuffer >>> 8) &&& 0xFF != 0xF0
      let v := if pressDown then
        { u with keyBuffer := ((u.keyBuffer >>> 16) <<< 8) ||| (u.keyBuffer &&& 0xFF) } else u
      { callBack pressDown (trackState pressDown v) with keyBuffer := 0 } := by
  rw [ps2Data]
  exact if_pos hd

theorem ps2Data_keyBuffer (hd : data < 0x80) (s : Ps2Sys) : (ps2Data data s).keyBuffer = 0 := by
  rw [ps2Data_last hd]

theorem ps2Data_release (hd : data < 0x80)
    (hbreak : shiftIn s.keyBuffer data / 256 % 256 = 0xF0) :
    (ps2Data data s).keyboardState = s.keyboardState := by
  have hword := storeWord_keyBuffer data s
  have hup : ((storeWord data s).keyBuffer >>> 8 &&& 0xFF != 0xF0) = false := by
    rw [secondByte_eq, hword, hbreak]
    rfl
  rw [ps2Data_last hd]
  simp only [hup, Bool.false_eq_true, if_false, callBack_keyboardState]
  rw [trackState_release (hword ▸ hbreak), storeWord_keyboardState]

theorem ps2Data_press (m : Modifier) (hd : data < 0x80)
    (hmake : shiftIn s.keyBuffer data / 256 % 256 ≠ 0xF0) :
    m.isSet (ps2Data data s) ↔
      m.isSet s ∨ 256 * (shiftIn s.keyBuffer data / 65536) + data ∈ m.codes := by
  have hword := storeWord_keyBuffer data s
  have hbyte : shiftIn s.keyBuffer data % 256 = data := by
    rw [shiftIn_eq _ (by omega)]
    omega
  have hdown : ((storeWord data s).keyBuffer >>> 8 &&& 0xFF != 0xF0) = true := by
    rw [secondByte_eq, hword, bne_iff_ne]
    exact hmake
  have hcode : ((storeWord data s).keyBuffer >>> 16) <<< 8 ||| ((storeWord data s).keyBuffer &&& 0xFF) =
      256 * (shiftIn s.keyBuffer data / 65536) + data := by
    rw [withoutSecond_eq, hword, hbyte]
  rw [ps2Data_last hd]
  simp only [hdown, if_true, hcode]
  refine (m.isSet_congr (callBack_keyboardState _ _)).trans ((trackState_press m _).trans ?_)
  exact or_congr (m.isSet_congr (storeWord_keyboardState data s)) Iff.rfl

end Data

section Code

variable {s : Ps2Sys} {c : ScanCode}

def takeCode (c : ScanCode) (s : Ps2Sys) : Ps2Sys := c.bytes.foldl (fun s data => ps2Data data s) s

/-- What earlier codes left above the two bytes of a press. -/
def leftAbove (c : ScanCode) (keyBuffer : ℕ) : ℕ :=
  if c.key.extended then keyBuffer % 65536 else keyBuffer / 256 % 65536

/-- With the bytes that are left of earlier codes, the press of a key has a code of the modifier. -/
def Modifier.Seen (m : Modifier) (c : ScanCode) (s : Ps2Sys) : Prop :=
  ¬ c.release ∧ 256 * leftAbove c s.keyBuffer + c.key.code ∈ m.codes

/-- The last byte that was shifted in is that of no prefix. -/
def Complete (s : Ps2Sys) : Prop := s.keyBuffer % 256 ≠ 0xE0 ∧ s.keyBuffer % 256 ≠ 0xF0

theorem takeCode_word (c : ScanCode) (h : Complete s) :
    ∃ word, takeCode c s = ps2Data c.key.code { s with keyBuffer := word } ∧
      (word % 256 = 0xF0 ↔ c.release) ∧
      (¬ c.release → word / 256 % 65536 = leftAbove c s.keyBuffer) := by
  have hext (s : Ps2Sys) : ps2Data 0xE0 s = { s with keyBuffer := shiftIn s.keyBuffer 0xE0 } :=
    ps2Data_shift (by decide)
  have hrel (s : Ps2Sys) : ps2Data 0xF0 s = { s with keyBuffer := shiftIn s.keyBuffer 0xF0 } :=
    ps2Data_shift (by decide)
  obtain ⟨⟨extended, code⟩, release, hkey⟩ := c
  cases release with
  | false =>
    cases extended with
    | false => exact ⟨s.keyBuffer, rfl, by simp [h.2], fun _ => rfl⟩
    | true =>
      have hword := shiftIn_eq s.keyBuffer (show 0xE0 < 256 by decide)
      refine ⟨shiftIn s.keyBuffer 0xE0, ?_, ?_, fun _ => ?_⟩
      · exact congrArg (ps2Data code) (hext s)
      · rw [hword]
        simp
      · change _ = s.keyBuffer % 65536
        rw [hword]
        omega
  | true =>
    have hbyte (word : ℕ) : shiftIn word 0xF0 % 256 = 0xF0 := by
      rw [shiftIn_eq _ (by decide)]
      omega
    cases extended with
    | false =>
      refine ⟨shiftIn s.keyBuffer 0xF0, ?_, by simp [hbyte], fun h => absurd rfl h⟩
      exact congrArg (ps2Data code) (hrel s)
    | true =>
      refine ⟨shiftIn (shiftIn s.keyBuffer 0xE0) 0xF0, ?_, by simp [hbyte], fun h => absurd rfl h⟩
      exact congrArg (ps2Data code) ((congrArg (ps2Data 0xF0) (hext s)).trans (hrel _))

theorem isKeyByte_iff {code : ℕ} :
    isKeyByte code = true ↔ code < 256 ∧ code ≠ 0xE0 ∧ code ≠ 0xF0 ∧ code ≠ 0xFA := by
  simp [isKeyByte, and_assoc]

theorem Modifier.code_lt {m : Modifier} {word : ℕ} (h : word ∈ m.codes) : word % 256 < 0x80 := by
  have hall : ∀ word ∈ m.codes, word % 256 < 0x80 := by cases m <;> decide
  exact hall word h

theorem takeCode_spec (c : ScanCode) (h : Complete s) :
    Complete (takeCode c s) ∧ ∀ m : Modifier, m.isSet (takeCode c s) ↔ m.isSet s ∨ m.Seen c s := by
  obtain ⟨word, htake, hbreak, hleft⟩ := takeCode_word c h
  obtain ⟨hlt, hE0, hF0, -⟩ := isKeyByte_iff.mp c.isKey
  have hword := shiftIn_eq word hlt
  have hsecond : shiftIn word c.key.code / 256 % 256 = word % 256 := by
    rw [hword]
    omega
  by_cases hd : c.key.code < 0x80
  · refine ⟨?_, fun m => ?_⟩
    · rw [Complete, htake, ps2Data_keyBuffer hd]
      decide
    · rw [htake]
      by_cases hrel : c.release = true
      · have hstate := ps2Data_release (s := { s with keyBuffer := word }) hd
          (hsecond.trans (hbreak.mpr hrel))
        rw [m.isSet_congr hstate, or_iff_left fun hseen => hseen.1 hrel]
        rfl
      · have hmake : shiftIn word c.key.code / 256 % 256 ≠ 0xF0 := by
          rw [hsecond]
          exact fun h => hrel (hbreak.mp h)
        have habove : shiftIn word c.key.code / 65536 = leftAbove c s.keyBuffer := by
          rw [← hleft hrel, hword]
          omega
        have hpress := ps2Data_press (s := { s with keyBuffer := word }) m hd hmake
        rw [hpress, Modifier.Seen, and_iff_right hrel, ← habove]
        rfl
  · have hprefix := ps2Data_shift (s := { s with keyBuffer := word }) hd
    refine ⟨?_, fun m => ?_⟩
    · rw [Complete, htake, hprefix]
      have hbyte : shiftIn word c.key.code % 256 = c.key.code := by
        rw [hword]
        omega
      rw [hbyte]
      exact ⟨hE0, hF0⟩
    · have hunseen : ¬ m.Seen c s := fun hseen => by
        have := m.code_lt hseen.2
        omega
      rw [or_iff_left hunseen, htake, hprefix]
      rfl

end Code

section Held

def holdKey (held : List Key) (c : ScanCode) : List Key :=
  if c.release then held.filter (· ≠ c.key) else c.key :: held

def heldKeys (past : List ScanCode) : List Key := past.foldl holdKey []

namespace Modifier

def Held (m : Modifier) (past : List ScanCode) : Prop := ∃ k ∈ m.keys, k ∈ heldKeys past

/-- The last event on the keys of the modifier was a press. -/
def Pressed (m : Modifier) (past : List ScanCode) : Prop :=
  ∃ c, (past.filter (·.key ∈ m.keys)).getLast? = some c ∧ ¬ c.release

structure Tracks (m : Modifier) (past : List ScanCode) (s : Ps2Sys) : Prop where
  clear : ¬ m.Held past → ¬ m.isSet s
  set : m.Pressed past → m.isSet s

end Modifier

/-- The keys are released only while they are held. -/
def Consistent (codes : List ScanCode) : Prop :=
  ∀ k c, codes[k]? = some c → c.release → c.key ∈ heldKeys (codes.take k)

variable {m : Modifier} {past : List ScanCode} {c : ScanCode}

theorem mem_heldKeys_release (h : c.release = true) {k : Key} :
    k ∈ heldKeys (past ++ [c]) ↔ k ∈ heldKeys past ∧ k ≠ c.key := by
  rw [heldKeys, List.foldl_append]
  simp [holdKey, h, heldKeys]

theorem mem_heldKeys_press (h : ¬ c.release = true) {k : Key} :
    k ∈ heldKeys (past ++ [c]) ↔ k = c.key ∨ k ∈ heldKeys past := by
  rw [heldKeys, List.foldl_append]
  simp [holdKey, h, heldKeys]

theorem held_release_iff (h : c.release = true) :
    m.Held (past ++ [c]) ↔ ∃ k ∈ m.keys, k ≠ c.key ∧ k ∈ heldKeys past := by
  simp only [Modifier.Held, mem_heldKeys_release h, and_comm]

theorem held_press_iff (h : ¬ c.release = true) :
    m.Held (past ++ [c]) ↔ c.key ∈ m.keys ∨ m.Held past := by
  simp only [Modifier.Held, mem_heldKeys_press h, and_or_left, exists_or, exists_eq_right]

theorem held_other_iff (h : c.key ∉ m.keys) : m.Held (past ++ [c]) ↔ m.Held past := by
  by_cases hrel : c.release = true
  · rw [held_release_iff hrel]
    refine exists_congr fun k => and_congr_right fun hk => and_iff_right ?_
    exact fun e => h (e ▸ hk)
  · rw [held_press_iff hrel, or_iff_right h]

theorem pressed_key_iff (h : c.key ∈ m.keys) : m.Pressed (past ++ [c]) ↔ ¬ c.release := by
  simp [Modifier.Pressed, List.filter_append, h]

theorem pressed_other_iff (h : c.key ∉ m.keys) : m.Pressed (past ++ [c]) ↔ m.Pressed past := by
  simp [Modifier.Pressed, List.filter_append, h]

end Held

section Run

structure CodeRun where
  sys : Ps2Sys
  past : List ScanCode

def codeStep (r : CodeRun) (c : ScanCode) : Option CodeRun :=
  some ⟨takeCode c r.sys, r.past ++ [c]⟩

/-- One key of the modifier stays held when another is released, the first press is seen and no other
key is seen as the modifier while none of its keys is held. -/
def Modifier.Kept (m : Modifier) (r : CodeRun) (c : ScanCode) : Prop :=
  if c.key ∈ m.keys then
    if c.release then m.Held r.past → ∃ k ∈ m.keys, k ≠ c.key ∧ k ∈ heldKeys r.past
    else m.Held r.past ∨ m.Seen c r.sys
  else m.Seen c r.sys → m.Held r.past

structure CodeInv (r : CodeRun) : Prop where
  complete : Complete r.sys
  held : ∀ m : Modifier, m.isSet r.sys ↔ m.Held r.past
  pressed : ∀ m : Modifier, m.Pressed r.past → m.Held r.past

variable {m : Modifier} {r : CodeRun} {c : ScanCode}

theorem CodeInv.tracks (h : CodeInv r) (m : Modifier) : m.Tracks r.past r.sys :=
  ⟨fun hnone hset => hnone ((h.held m).mp hset), fun hpress => (h.held m).mpr (h.pressed m hpress)⟩

theorem CodeInv.kept (h : CodeInv r) (hkept : m.Kept r c) :
    (m.isSet (takeCode c r.sys) ↔ m.Held (r.past ++ [c])) ∧
      (m.Pressed (r.past ++ [c]) → m.Held (r.past ++ [c])) := by
  have hset := (takeCode_spec c h.complete).2 m
  rw [h.held m] at hset
  rw [Modifier.Kept] at hkept
  split_ifs at hkept with hkey hrel
  · have hunseen : ¬ m.Seen c r.sys := fun hseen => hseen.1 hrel
    rw [hset, or_iff_left hunseen, held_release_iff hrel, pressed_key_iff hkey]
    refine ⟨⟨hkept, ?_⟩, fun hpress => absurd hrel hpress⟩
    rintro ⟨k, hk, -, hheld⟩
    exact ⟨k, hk, hheld⟩
  · have hheld : m.Held (r.past ++ [c]) := (held_press_iff hrel).mpr (.inl hkey)
    exact ⟨iff_of_true (hset.mpr hkept) hheld, fun _ => hheld⟩
  · rw [hset, held_other_iff hkey, pressed_other_iff hkey, or_iff_left_of_imp hkept]
    exact ⟨Iff.rfl, h.pressed m⟩

theorem CodeInv.not_kept (h : CodeInv r) (hkept : ¬ m.Kept r c) :
    ¬ m.Tracks (r.past ++ [c]) (takeCode c r.sys) := by
  have hset := (takeCode_spec c h.complete).2 m
  rw [h.held m] at hset
  rw [Modifier.Kept] at hkept
  intro htracks
  split_ifs at hkept with hkey hrel
  · obtain ⟨hheld, hlast⟩ := Classical.not_imp.mp hkept
    exact htracks.clear (mt (held_release_iff hrel).mp hlast) (hset.mpr (.inl hheld))
  · exact hkept (hset.mp (htracks.set ((pressed_key_iff hkey).mpr hrel)))
  · obtain ⟨hseen, hnone⟩ := Classical.not_imp.mp hkept
    exact htracks.clear (mt (held_other_iff hkey).mp hnone) (hset.mpr (.inr hseen))

def takeCodes (codes : List ScanCode) (s : Ps2Sys) : Ps2Sys := codes.foldl (fun s c => takeCode c s) s

theorem runOps_codeStep (codes : List ScanCode) (r : CodeRun) :
    runOps codeStep r codes = some ⟨takeCodes codes r.sys, r.past ++ codes⟩ := by
  induction codes generalizing r with
  | nil => simp [runOps, takeCodes]
  | cons c codes ih => simp [runOps, codeStep, ih, takeCodes]

theorem codeRun_tracks_iff {codes : List ScanCode} (h : CodeInv r) :
    (∀ k t, runOps codeStep r (codes.take k) = some t → ∀ m : Modifier, m.Tracks t.past t.sys) ↔
      RunMeets codeStep (fun r c => ∀ m : Modifier, m.Kept r c) r codes := by
  have hr := runOps_codeStep codes r
  refine runAlways_iff (fun r h => h.tracks) (fun r c t h hkept hstep => ?_)
    (fun r c t h hkept hstep htracks => ?_) h hr
  · obtain rfl := Option.some.inj hstep
    exact ⟨(takeCode_spec c h.complete).1, fun m => (h.kept (hkept m)).1,
      fun m => (h.kept (hkept m)).2⟩
  · obtain rfl := Option.some.inj hstep
    obtain ⟨m, hm⟩ := Classical.not_forall.mp hkept
    exact h.not_kept hm (htracks m)

end Run

section Handler

/-- The words of the data register that are no ACK, as `ps2Loop` reads them. -/
def takenBytes (ctrl : ℕ) : List ℕ → List ℕ
  | [] => []
  | data :: reads =>
    if ctrl &&& 0x3f = 0 then []
    else if data = 0xfa then takenBytes ctrl reads
    else match reads with
      | [] => []
      | ctrl :: reads => data :: takenBytes ctrl reads

def handledBytes (reads : List ℕ) : List ℕ :=
  match reads with
  | [] => []
  | ctrl :: reads => if (ctrl >>> 16) &&& 7 = 0 then takenBytes ctrl reads else []

structure SameKeys (s t : Ps2Sys) : Prop where
  keyBuffer : t.keyBuffer = s.keyBuffer
  keyboardState : t.keyboardState = s.keyboardState

variable {s t u : Ps2Sys} {ctrl data : ℕ} {reads : List ℕ}

theorem SameKeys.trans (h : SameKeys s t) (h' : SameKeys t u) : SameKeys s u :=
  ⟨h'.keyBuffer.trans h.keyBuffer, h'.keyboardState.trans h.keyboardState⟩

theorem acknowledged_same (s : Ps2Sys) : SameKeys s (acknowledged s) := by
  rw [acknowledged]
  split_ifs <;> exact ⟨rfl, rfl⟩

theorem trackState_keyboardState (pressDown : Bool) (s : Ps2Sys) :
    (trackState pressDown s).keyboardState =
      if s.keyBuffer = keyCapsLock ∧ pressDown then s.keyboardState ^^^ capslockMask
      else if isKey s keyLeftShift keyRightShift then (setMask shiftMask pressDown s).keyboardState
      else if isKey s keyLeftCtrl keyRightCtrl then (setMask ctrlMask pressDown s).keyboardState
      else if isKey s keyLeftAlt keyRightAlt then (setMask ctrlMask pressDown s).keyboardState
      else s.keyboardState := by
  rw [trackState]
  split_ifs <;> rfl

theorem SameKeys.trackState (h : SameKeys s t) (pressDown : Bool) :
    (trackState pressDown t).keyboardState = (trackState pressDown s).keyboardState := by
  have hkey (left right : ℕ) : isKey t left right = isKey s left right := by
    rw [isKey, h.keyBuffer, isKey]
  have hmask (mask : ℕ) :
      (setMask mask pressDown t).keyboardState = (setMask mask pressDown s).keyboardState := by
    simp only [setMask, h.keyboardState]
  rw [trackState_keyboardState, trackState_keyboardState]
  refine if_congr (by rw [h.keyBuffer]) (by rw [h.keyboardState]) ?_
  rw [hkey, hkey, hkey, hmask, hmask, h.keyboardState]

theorem SameKeys.storeWord (h : SameKeys s t) (data : ℕ) :
    SameKeys (Driver.storeWord data s) (Driver.storeWord data t) := by
  refine ⟨?_, ?_⟩
  · rw [storeWord_keyBuffer, storeWord_keyBuffer, h.keyBuffer]
  · rw [storeWord_keyboardState, storeWord_keyboardState, h.keyboardState]

theorem SameKeys.ps2Data (h : SameKeys s t) (data : ℕ) :
    SameKeys (ps2Data data s) (ps2Data data t) := by
  by_cases hd : data < 0x80
  · refine ⟨by rw [ps2Data_keyBuffer hd, ps2Data_keyBuffer hd], ?_⟩
    have hword := h.storeWord data
    rw [ps2Data_last hd, ps2Data_last hd]
    simp only [callBack_keyboardState, hword.keyBuffer]
    refine SameKeys.trackState ?_ _
    split_ifs
    · exact ⟨rfl, hword.keyboardState⟩
    · exact hword
  · rw [ps2Data_shift hd, ps2Data_shift hd]
    exact ⟨by simp only [h.keyBuffer], h.keyboardState⟩

theorem SameKeys.foldl (h : SameKeys s t) (bytes : List ℕ) :
    SameKeys (bytes.foldl (fun s data => Driver.ps2Data data s) s)
      (bytes.foldl (fun s data => Driver.ps2Data data s) t) := by
  induction bytes generalizing s t with
  | nil => exact h
  | cons data bytes ih => exact ih (h.ps2Data data)

theorem takenBytes_idle (hc : ctrl &&& 0x3f = 0) : takenBytes ctrl reads = [] := by
  cases reads
  · rw [takenBytes]
  · rw [takenBytes.eq_def]
    exact if_pos hc

theorem takenBytes_ack (hc : ctrl &&& 0x3f ≠ 0) :
    takenBytes ctrl (0xfa :: reads) = takenBytes ctrl reads := by
  rw [takenBytes.eq_def]
  exact (if_neg hc).trans (if_pos rfl)

theorem ps2Loop_same (hr : ps2Loop ctrl reads s = some t) :
    SameKeys ((takenBytes ctrl reads).foldl (fun s data => ps2Data data s) s) t := by
  induction ctrl, reads, s using ps2Loop.induct with
  | case1 ctrl s hc =>
    rw [ps2Loop, if_pos hc] at hr
    cases hr
    exact ⟨rfl, rfl⟩
  | case2 ctrl s hc =>
    rw [ps2Loop, if_neg hc] at hr
    cases hr
  | case3 ctrl s data reads hc =>
    rw [ps2Loop_idle hc] at hr
    cases hr
    rw [takenBytes_idle hc]
    exact ⟨rfl, rfl⟩
  | case4 ctrl reads s hc ih =>
    rw [ps2Loop_ack hc] at hr
    rw [takenBytes_ack hc]
    exact ((acknowledged_same s).foldl _).trans (ih hr)
  | case5 ctrl s data hc hd =>
    rw [ps2Loop, if_neg hc, if_neg hd] at hr
    cases hr
  | case6 ctrl data s hc hd ctrl' reads ih =>
    rw [ps2Loop, if_neg hc, if_neg hd] at hr
    rw [takenBytes, if_neg hc, if_neg hd]
    exact ih hr

theorem ps2Handler_same (hr : ps2Handler reads s = some t) :
    SameKeys ((handledBytes reads).foldl (fun s data => ps2Data data s) s) t := by
  cases reads with
  | nil => cases hr
  | cons ctrl reads =>
    simp only [ps2Handler, handledBytes] at hr ⊢
    split_ifs at hr ⊢
    · exact ps2Loop_same hr
    · cases hr
      exact ⟨rfl, rfl⟩

def handle (s : Ps2Sys) (reads : List ℕ) : Option Ps2Sys := ps2Handler reads s

theorem runOps_handle_same {interrupts : List (List ℕ)} (hr : runOps handle s interrupts = some t) :
    SameKeys ((interrupts.flatMap handledBytes).foldl (fun s data => ps2Data data s) s) t := by
  induction interrupts generalizing s with
  | nil =>
    cases hr
    exact ⟨rfl, rfl⟩
  | cons reads interrupts ih =>
    obtain ⟨u, hu, hr⟩ := Option.bind_eq_some_iff.mp hr
    rw [List.flatMap_cons, List.foldl_append]
    exact ((ps2Handler_same hu).foldl _).trans (ih hr)

theorem takeCodes_eq (codes : List ScanCode) (s : Ps2Sys) :
    takeCodes codes s =
      (codes.flatMap ScanCode.bytes).foldl (fun s data => ps2Data data s) s := by
  rw [takeCodes, List.foldl_flatMap]
  rfl

theorem runOps_handle_bytes {bytes : List ℕ} (h : 0xFA ∉ bytes) (s : Ps2Sys) :
    runOps handle s (bytes.map fun data => [1, data, 0]) =
        some (bytes.foldl (fun s data => ps2Data data s) s) ∧
      (bytes.map fun data => [1, data, 0]).flatMap handledBytes = bytes := by
  induction bytes generalizing s with
  | nil => exact ⟨rfl, rfl⟩
  | cons data bytes ih =>
    have hd : data ≠ 0xFA := fun e => h (e ▸ List.mem_cons_self)
    obtain ⟨h1, h2⟩ := ih (fun hm => h (List.mem_cons_of_mem data hm)) (ps2Data data s)
    have hstep : handle s [1, data, 0] = some (ps2Data data s) := by
      simp [handle, ps2Handler, ps2Loop, hd]
    have hbytes : handledBytes [1, data, 0] = [data] := by
      simp [handledBytes, takenBytes, hd]
    refine ⟨?_, ?_⟩
    · rw [List.map_cons, runOps, hstep]
      exact h1
    · rw [List.map_cons, List.flatMap_cons, hbytes, h2]
      rfl

theorem ScanCode.not_mem_bytes (c : ScanCode) : 0xFA ∉ c.bytes := by
  have hne : c.key.code ≠ 0xFA := (isKeyByte_iff.mp c.isKey).2.2.2
  rw [ScanCode.bytes]
  split_ifs <;> simp [hne.symm]

end Handler

section Claim

/-- However the bytes of the codes come in interrupts, the bits follow the keys after each code. -/
def AlwaysTracks (start : Ps2Sys) (codes : List ScanCode) : Prop :=
  ∀ k interrupts t, interrupts.flatMap handledBytes = (codes.take k).flatMap ScanCode.bytes →
    runOps handle start interrupts = some t → ∀ m : Modifier, m.Tracks (codes.take k) t

variable {m : Modifier} {past : List ScanCode} {s t : Ps2Sys}

theorem Modifier.Tracks.congr (h : m.Tracks past s) (hs : SameKeys s t) : m.Tracks past t :=
  ⟨fun hnone => (m.isSet_congr hs.keyboardState).not.mpr (h.clear hnone),
    fun hpress => (m.isSet_congr hs.keyboardState).mpr (h.set hpress)⟩

theorem alwaysTracks_iff_codes (start : Ps2Sys) (codes : List ScanCode) :
    AlwaysTracks start codes ↔
      ∀ k t, runOps codeStep ⟨start, []⟩ (codes.take k) = some t →
        ∀ m : Modifier, m.Tracks t.past t.sys := by
  simp only [runOps_codeStep]
  constructor
  · intro h k t ht m
    obtain rfl := Option.some.inj ht
    have hbytes : 0xFA ∉ (codes.take k).flatMap ScanCode.bytes := fun hm => by
      obtain ⟨c, -, hc⟩ := List.mem_flatMap.mp hm
      exact c.not_mem_bytes hc
    obtain ⟨h1, h2⟩ := runOps_handle_bytes hbytes start
    rw [← takeCodes_eq] at h1
    exact h k _ _ h2 h1 m
  · intro h k interrupts t hbytes hr m
    have hsame := runOps_handle_same hr
    rw [hbytes, ← takeCodes_eq] at hsame
    exact (h k _ rfl m).congr hsame

theorem initPs2_inv (memory : ℕ → ℕ) (callback : Bool) :
    CodeInv ⟨registerKeyboardCallback callback (initPs2 memory), []⟩ := by
  have hset (m : Modifier) : ¬ m.isSet (registerKeyboardCallback callback (initPs2 memory)) :=
    not_not.mpr (Nat.zero_and _)
  have hheld (m : Modifier) : ¬ m.Held [] := by
    rintro ⟨k, -, hk⟩
    cases hk
  have hcomplete : 0 % 256 ≠ 0xE0 ∧ 0 % 256 ≠ 0xF0 := by decide
  refine ⟨hcomplete, fun m => iff_of_false (hset m) (hheld m), fun m hpress => ?_⟩
  obtain ⟨c, hc, -⟩ := hpress
  cases hc

theorem modifiers_track_iff (memory : ℕ → ℕ) (callback : Bool) (codes : List ScanCode) :
    AlwaysTracks (registerKeyboardCallback callback (initPs2 memory)) codes ↔
      RunMeets codeStep (fun r c => ∀ m : Modifier, m.Kept r c)
        ⟨registerKeyboardCallback callback (initPs2 memory), []⟩ codes := by
  rw [alwaysTracks_iff_codes]
  exact codeRun_tracks_iff (initPs2_inv memory callback)

def tapShift : List ScanCode := [⟨⟨false, 0x12⟩, false, rfl⟩, ⟨⟨false, 0x12⟩, true, rfl⟩]

theorem modifiers_not_track : ¬ ∀ (memory : ℕ → ℕ) (callback : Bool) (codes : List ScanCode),
    Consistent codes →
      AlwaysTracks (registerKeyboardCallback callback (initPs2 memory)) codes := by
  intro h
  have hconsistent : Consistent tapShift := by
    intro k c hc hrel
    match k with
    | 0 => cases hc; cases hrel
    | 1 => cases hc; decide
    | k + 2 => cases hc
  have hreads : [[1, 0x12, 1, 0xF0, 1, 0x12, 0]].flatMap handledBytes =
      (tapShift.take 2).flatMap ScanCode.bytes := by decide
  obtain ⟨s, hs⟩ := Option.isSome_iff_exists.mp (show (runOps handle
    (registerKeyboardCallback false (initPs2 fun _ => 0)) [[1, 0x12, 1, 0xF0, 1, 0x12, 0]]).isSome by
      decide)
  have hset : (runOps handle (registerKeyboardCallback false (initPs2 fun _ => 0))
      [[1, 0x12, 1, 0xF0, 1, 0x12, 0]]).map (·.keyboardState &&& shiftMask) = some 8 := by decide
  rw [hs] at hset
  have htracks := h (fun _ => 0) false tapShift hconsistent 2 _ s hreads hs .shift
  refine htracks.clear ?_ ?_
  · rintro ⟨k, -, hk⟩
    have hnone : heldKeys (tapShift.take 2) = [] := by decide
    rw [hnone] at hk
    cases hk
  · rw [Modifier.isSet, show s.keyboardState &&& Modifier.shift.mask = 8 from Option.some.inj hset]
    decide

end Claim

end OurOS.Driver
