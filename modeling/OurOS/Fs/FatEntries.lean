import Mathlib.Tactic.NormNum
import OurOS.Fs.FatSpec
import OurOS.Lib.Run

namespace OurOS.Fs

def fatEntry (sd : SdCard) (fatBaseSec cluNum : ℕ) : ℕ :=
  dword (readSectors sd (fatSector fatBaseSec cluNum)) (offBytes cluNum % sectorSize)

/-- The sectors after the entry has been read, replaced and written back. -/
def putEntry (sd : SdCard) (fatBaseSec cluNum value : ℕ) : ℕ → ℕ → ℕ :=
  writeSectors sd (fatSector fatBaseSec cluNum)
    (putDword (readSectors sd (fatSector fatBaseSec cluNum)) (offBytes cluNum % sectorSize) value) 1

section Words

theorem dword_congr {data data' : ℕ → ℕ} {off : ℕ}
    (h : ∀ k < 4, data (off + k) = data' (off + k)) : dword data off = dword data' off := by
  have h0 : data off = data' off := h 0 (by decide)
  rw [dword, dword, h0, h 1 (by decide), h 2 (by decide), h 3 (by decide)]

theorem dword_put (data : ℕ → ℕ) (off value : ℕ) :
    dword (putDword data off value) off = value % 2 ^ 32 := by
  have h : ∀ i < 4, putDword data off value (off + i) = value / 2 ^ (8 * i) % 2 ^ 8 := by
    intro i hi
    rw [putDword, if_pos (by omega), Nat.add_sub_cancel_left]
  have h0 := h 0 (by omega)
  have h1 := h 1 (by omega)
  have h2 := h 2 (by omega)
  have h3 := h 3 (by omega)
  rw [Nat.add_zero] at h0
  rw [dword, h0, h1, h2, h3]
  norm_num
  omega

theorem dword_put_apart (data : ℕ → ℕ) {off off' : ℕ} (value : ℕ)
    (h : off + 4 ≤ off' ∨ off' + 4 ≤ off) :
    dword (putDword data off value) off' = dword data off' := by
  refine dword_congr fun k hk => ?_
  rw [putDword, if_neg (by omega)]

end Words

section Addressing

variable {sd : SdCard} {c d : ℕ}

theorem offBytes_eq (hc : c < 2 ^ 30) : offBytes c = 4 * c := by
  rw [offBytes, Nat.shiftLeft_eq, uintRange]
  omega

theorem fatSector_eq_add (base : ℕ) (hc : c < 2 ^ 30) : fatSector base c = base + c / 128 := by
  rw [fatSector, offBytes_eq hc, sectorShift, Nat.shiftRight_eq_div_pow]
  congr 1
  omega

theorem offBytes_mod (hc : c < 2 ^ 30) : offBytes c % sectorSize = 4 * (c % 128) := by
  rw [offBytes_eq hc, sectorSize]
  omega

theorem offBytes_room (hc : c < 2 ^ 30) : offBytes c % sectorSize + 4 ≤ sectorSize := by
  rw [offBytes_mod hc, sectorSize]
  omega

theorem readSectors_first (addr : ℕ) {o : ℕ} (ho : o < sectorSize) :
    readSectors sd addr o = sd.sector (addr % uintRange) o := by
  rw [readSectors, Nat.div_eq_of_lt ho, Nat.add_zero, Nat.mod_eq_of_lt ho]

theorem writeSectors_one (addr : ℕ) (data : ℕ → ℕ) :
    writeSectors sd addr data 1 = Function.update sd.sector (addr % uintRange) data := by
  simp [writeSectors]

theorem fatEntry_eq (base : ℕ) (hc : c < 2 ^ 30) :
    fatEntry sd base c = dword (sd.sector (fatSector base c % uintRange)) (offBytes c % sectorSize) := by
  have hroom := offBytes_room hc
  exact dword_congr fun k hk => readSectors_first _ (by omega)

theorem fatEntry_congr {sd' : SdCard} (base : ℕ) (hc : c < 2 ^ 30)
    (h : sd'.sector (fatSector base c % uintRange) = sd.sector (fatSector base c % uintRange)) :
    fatEntry sd' base c = fatEntry sd base c := by
  rw [fatEntry_eq base hc, fatEntry_eq base hc, h]

theorem putEntry_apart (base value : ℕ) {sec : ℕ} (h : sec ≠ fatSector base c % uintRange) :
    putEntry sd base c value sec = sd.sector sec := by
  rw [putEntry, writeSectors_one, Function.update_of_ne h]

theorem fatEntry_put (base value n : ℕ) (hc : c < 2 ^ 30) (hd : d < 2 ^ 30) :
    fatEntry ⟨putEntry sd base c value, n⟩ base d =
      if d = c then value % 2 ^ 32 else fatEntry sd base d := by
  by_cases hs : fatSector base d % uintRange = fatSector base c % uintRange
  · have hsame : d / 128 = c / 128 := by
      rw [fatSector_eq_add base hc, fatSector_eq_add base hd] at hs
      simp only [uintRange] at hs
      omega
    have hentry : fatEntry ⟨putEntry sd base c value, n⟩ base d =
        dword (putDword (readSectors sd (fatSector base c)) (offBytes c % sectorSize) value)
          (offBytes d % sectorSize) := by
      rw [fatEntry_eq base hd, hs]
      change dword (putEntry sd base c value _) _ = _
      rw [putEntry, writeSectors_one, Function.update_self]
    rw [hentry]
    split_ifs with e
    · rw [e, dword_put]
    · have hsector : fatSector base c = fatSector base d := by
        rw [fatSector_eq_add base hc, fatSector_eq_add base hd, hsame]
      rw [dword_put_apart _ _ (by rw [offBytes_mod hc, offBytes_mod hd]; omega), hsector]
      rfl
  · have hne : d ≠ c := fun e => hs (by rw [e])
    rw [if_neg hne]
    exact fatEntry_congr base hd (putEntry_apart base value hs)

end Addressing

inductive FatOp
  | read (cluNum : ℕ)
  | write (cluNum value : ℕ)
deriving DecidableEq, Repr

def FatOp.InRange : FatOp → Prop
  | .read c => c < 2 ^ 30
  | .write c v => c < 2 ^ 30 ∧ v < uintRange

/-- What a call returns: the value read, or 0 for a write without an error. -/
def fatStep (env : FsEnv) (base : ℕ) (s : FsSys) : FatOp → Option (Except ℕ ℕ × FsSys)
  | .read c => readFat env base c s
  | .write c v => (do writeFat env base c v; pure 0 : FsProg ℕ) s

/-- The array that the table stands for, with the number of the next `kmalloc` call: a call that gets
no buffer has no effect. -/
def arrayStep (env : FsEnv) (x : ℕ × (ℕ → ℕ)) : FatOp → Option (Except ℕ ℕ × ℕ × (ℕ → ℕ))
  | .read c => some (.ok (if env.kmallocFails x.1 then errValue errorNoMemory else x.2 c),
      x.1 + 1, x.2)
  | .write c v =>
    if env.kmallocFails x.1 then some (.error errorNoMemory, x.1 + 1, x.2)
    else some (.ok 0, x.1 + 1, Function.update x.2 c v)

section Calls

variable {env : FsEnv} {s t : FsSys}

theorem kmalloc_either (env : FsEnv) (s : FsSys) :
    (env.kmallocFails s.brk = true ∧ kmalloc env s = some (.ok none, { s with brk := s.brk + 1 })) ∨
      (env.kmallocFails s.brk = false ∧ kmalloc env s = some (.ok (some s.brk), grabbed s)) := by
  cases h : env.kmallocFails s.brk with
  | true => exact .inl ⟨rfl, kmalloc_null h⟩
  | false => exact .inr ⟨rfl, kmalloc_grabs h⟩

theorem readFat_entry (hsd : ∀ n, env.sdFails n = false) (base c : ℕ) (s : FsSys) :
    ∃ t, readFat env base c s = some (.ok (if env.kmallocFails s.brk then errValue errorNoMemory
      else fatEntry s.sd base c), t) ∧ t.brk = s.brk + 1 ∧ t.sd.sector = s.sd.sector := by
  rcases kmalloc_either env s with ⟨hf, hk⟩ | ⟨hf, hk⟩
  · refine ⟨{ s with brk := s.brk + 1 }, ?_, rfl, rfl⟩
    rw [readFat, Prog.bind_ok hk, hf]
    rfl
  · refine ⟨accessed (grabbed s) 1, ?_, rfl, rfl⟩
    rw [readFat, Prog.bind_ok hk, hf]
    dsimp only
    rw [Prog.bind_ok (sdReadBlock_served hsd _ _ _)]
    rfl

theorem writeFat_entry (hsd : ∀ n, env.sdFails n = false) (base c v : ℕ) (s : FsSys) :
    ∃ r t, writeFat env base c v s = some (r, t) ∧ t.brk = s.brk + 1 ∧
      (env.kmallocFails s.brk = true ∧ r = .error errorNoMemory ∧ t.sd.sector = s.sd.sector ∨
        env.kmallocFails s.brk = false ∧ r = .ok () ∧ t.sd.sector = putEntry s.sd base c v) := by
  rcases kmalloc_either env s with ⟨hf, hk⟩ | ⟨hf, hk⟩
  · refine ⟨_, { s with brk := s.brk + 1 }, ?_, rfl, .inl ⟨hf, rfl, rfl⟩⟩
    rw [writeFat, Prog.bind_ok hk]
    rfl
  · refine ⟨_, { grabbed s with sd := ⟨putEntry s.sd base c v, s.sd.accesses + 1 + 1⟩ }, ?_, rfl,
      .inr ⟨hf, rfl, rfl⟩⟩
    rw [writeFat, Prog.bind_ok hk]
    dsimp only
    rw [Prog.bind_ok (sdReadBlock_served hsd _ _ _)]
    dsimp only
    rw [Prog.bind_ok (sdWriteBlock_served hsd _ _ _ _)]
    rfl

end Calls

/-- The table holds the array: each entry reads as its value, where `read_fat` gets its buffer. -/
def ReadsAs (env : FsEnv) (base : ℕ) (s : FsSys) (fat : ℕ → ℕ) : Prop :=
  ∀ d < 2 ^ 30, ∃ u, readFat env base d s =
    some (.ok (if env.kmallocFails s.brk then errValue errorNoMemory else fat d), u)

section Array

variable {env : FsEnv}

theorem readsAs_entries (hsd : ∀ n, env.sdFails n = false) (base : ℕ) (s : FsSys) {fat : ℕ → ℕ}
    (h : ∀ d < 2 ^ 30, fatEntry s.sd base d = fat d) : ReadsAs env base s fat := by
  intro d hd
  obtain ⟨u, hu, -, -⟩ := readFat_entry hsd base d s
  exact ⟨u, by rw [hu, h d hd]⟩

theorem fatEntry_written {sd sd' : SdCard} {base c v : ℕ} (hc : c < 2 ^ 30) (hv : v < uintRange)
    (h : sd'.sector = putEntry sd base c v) {d : ℕ} (hd : d < 2 ^ 30) :
    fatEntry sd' base d = Function.update (fatEntry sd base) c v d := by
  have hput := @fatEntry_put sd c d base v sd'.accesses hc hd
  rw [← h, Nat.mod_eq_of_lt (show v < 2 ^ 32 from hv)] at hput
  exact hput.trans (Function.update_apply _ _ _ _).symm

theorem fatStep_simulates (hsd : ∀ n, env.sdFails n = false) (base : ℕ) {op : FatOp}
    (hop : op.InRange) {x : ℕ × (ℕ → ℕ)} {s : FsSys} (hcall : s.brk = x.1)
    (hx : ∀ d < 2 ^ 30, fatEntry s.sd base d = x.2 d) : ∃ o y t, arrayStep env x op = some (o, y) ∧
      fatStep env base s op = some (o, t) ∧ t.brk = y.1 ∧
        ∀ d < 2 ^ 30, fatEntry t.sd base d = y.2 d := by
  cases op with
  | read c =>
    obtain ⟨t, ht, hbrk, hsec⟩ := readFat_entry hsd base c s
    refine ⟨_, _, t, rfl, ?_, by rw [hbrk, hcall], fun d hd => ?_⟩
    · rw [fatStep, ht, hcall, hx c hop]
    · rw [← hx d hd]
      exact fatEntry_congr base hd (by rw [hsec])
  | write c v =>
    obtain ⟨r, t, ht, hbrk, ⟨hf, rfl, hsec⟩ | ⟨hf, rfl, hsec⟩⟩ := writeFat_entry hsd base c v s
    · refine ⟨_, _, t, by rw [arrayStep, ← hcall, if_pos hf], Prog.bind_error ht, hbrk, fun d hd => ?_⟩
      rw [← hx d hd]
      exact fatEntry_congr base hd (by rw [hsec])
    · refine ⟨_, _, t, by rw [arrayStep, ← hcall, if_neg (by simp [hf])], Prog.bind_ok ht, hbrk,
        fun d hd => ?_⟩
      rw [fatEntry_written hop.1 hop.2 hsec hd]
      change Function.update (fatEntry s.sd base) c v d = Function.update x.2 c v d
      rw [Function.update_apply, Function.update_apply, hx d hd]

theorem fatRun_simulates (hsd : ∀ n, env.sdFails n = false) (base : ℕ) {ops : List FatOp}
    (hops : ∀ op ∈ ops, op.InRange) {x : ℕ × (ℕ → ℕ)} {s : FsSys} (hcall : s.brk = x.1)
    (hx : ∀ d < 2 ^ 30, fatEntry s.sd base d = x.2 d) : ∃ outs y t,
      runOutputs (arrayStep env) x ops = some (outs, y) ∧
        runOutputs (fatStep env base) s ops = some (outs, t) ∧
          ∀ d < 2 ^ 30, fatEntry t.sd base d = y.2 d := by
  induction ops generalizing x s with
  | nil => exact ⟨[], x, s, rfl, rfl, hx⟩
  | cons op ops ih =>
    obtain ⟨o, y, t, h1, h2, hbrk, ht⟩ := fatStep_simulates hsd base (hops op List.mem_cons_self) hcall hx
    obtain ⟨outs, z, u, h3, h4, hu⟩ := ih (fun op h => hops op (List.mem_cons_of_mem _ h)) hbrk ht
    refine ⟨o :: outs, z, u, ?_, ?_, hu⟩
    · simp [runOutputs, h1, h3]
    · simp [runOutputs, h2, h4]

end Array

/-- For one write and every entry read after it; the sector that the entry lies in is the only one
that changes. -/
theorem writeFat_array (env : FsEnv) (hsd : ∀ n, env.sdFails n = false) (base : ℕ) {c v : ℕ}
    (hc : c < 2 ^ 30) (hv : v < uintRange) (s : FsSys) :
    ReadsAs env base s (fatEntry s.sd base) ∧ ∃ r t, writeFat env base c v s = some (r, t) ∧
      (∀ sec, sec ≠ (base + 4 * c / 512) % uintRange → t.sd.sector sec = s.sd.sector sec) ∧
        (r = .ok () ∧ ReadsAs env base t (Function.update (fatEntry s.sd base) c v) ∨
          r = .error errorNoMemory ∧ env.kmallocFails s.brk = true ∧
            ReadsAs env base t (fatEntry s.sd base) ∧ t.sd.sector = s.sd.sector) := by
  have hsector : (base + 4 * c / 512) % uintRange = fatSector base c % uintRange := by
    rw [fatSector_eq_add base hc]
    congr 2
    omega
  obtain ⟨r, t, ht, -, ⟨hf, rfl, hsec⟩ | ⟨-, rfl, hsec⟩⟩ := writeFat_entry hsd base c v s
  · refine ⟨readsAs_entries hsd base s fun _ _ => rfl, _, t, ht, fun sec _ => by rw [hsec],
      .inr ⟨rfl, hf, readsAs_entries hsd base t fun d hd => ?_, hsec⟩⟩
    exact fatEntry_congr base hd (by rw [hsec])
  · refine ⟨readsAs_entries hsd base s fun _ _ => rfl, _, t, ht, fun sec hne => ?_,
      .inl ⟨rfl, readsAs_entries hsd base t fun d hd => fatEntry_written hc hv hsec hd⟩⟩
    rw [hsec]
    exact putEntry_apart base v (hsector ▸ hne)

/-- The last entry of a sector and the first of the next, in a table that begins at sector 32. -/
theorem writeFat_array_small : ∃ t, writeFat soundEnv 32 127 0x0FFFFFFF blankSys = some (.ok (), t) ∧
    (∀ sec, sec ≠ 32 → t.sd.sector sec = blankSys.sd.sector sec) ∧
      (∃ u, readFat soundEnv 32 127 t = some (.ok 0x0FFFFFFF, u)) ∧
        ∃ u, readFat soundEnv 32 128 t = some (.ok 0, u) := by
  obtain ⟨-, r, t, ht, hsec, ⟨rfl, hread⟩ | ⟨-, hf, -⟩⟩ := writeFat_array soundEnv (fun _ => rfl) 32
    (show 127 < 2 ^ 30 by decide) (show 0x0FFFFFFF < uintRange by decide) blankSys
  · exact ⟨t, ht, hsec, hread 127 (by decide), hread 128 (by decide)⟩
  · exact absurd hf (by decide)

end OurOS.Fs
