import OurOS.Utils

namespace OurOS.Arch

/-- The status and the count register, and the count that is kept while interrupts are disabled. -/
structure Cpu where
  status : ℕ
  count : ℕ
  time9 : ℕ

def Cpu.flag (c : Cpu) : Bool := c.status.testBit 0

def enableInterrupts (c : Cpu) : ℕ × Cpu :=
  (c.status &&& 1, { c with status := c.status ||| 1, count := c.time9 })

def disableInterrupts (c : Cpu) : ℕ × Cpu :=
  (c.status &&& 1, { c with status := c.status &&& 0xfffffffe, time9 := c.count })

/-- A section that returned, with the interrupt flag on its entry and on its return. -/
structure Passage where
  onEntry : Bool
  onReturn : Bool
deriving DecidableEq

abbrev Body : Type := Cpu → Cpu × List Passage

section Sections

def masked (body : Body) (c : Cpu) : Cpu × List Passage :=
  let (old, c) := disableInterrupts c
  let (c, passed) := body c
  (if old ≠ 0 then (enableInterrupts c).2 else c, passed)

def kmalloc (body : Body) : Body := masked body

def kfree (body : Body) : Body := masked body

def tlbRefill (body : Body) : Body := masked body

def doExceptions (body : Body) : Body := masked body

def loadUserProgram (body : Body) (c : Cpu) : Cpu × List Passage :=
  let (c, passed) := masked body c
  ({ c with count := 0 }, passed)

def sdReadSectorBlocking (body : Body) : Body := masked body

/-- It does not save the flag, and always enables interrupts. -/
def sdWriteSectorBlocking (body : Body) (c : Cpu) : Cpu × List Passage :=
  let (_, c) := disableInterrupts c
  let (c, passed) := body c
  ((enableInterrupts c).2, passed)

end Sections

inductive Section where
  | kmalloc
  | kfree
  | tlbRefill
  | doExceptions
  | loadUserProgram
  | sdRead
  | sdWrite
deriving DecidableEq

def Section.run : Section → Body → Body
  | .kmalloc => Arch.kmalloc
  | .kfree => Arch.kfree
  | .tlbRefill => Arch.tlbRefill
  | .doExceptions => Arch.doExceptions
  | .loadUserProgram => Arch.loadUserProgram
  | .sdRead => sdReadSectorBlocking
  | .sdWrite => sdWriteSectorBlocking

/-- What a stretch of kernel code does: work, and sections with what is done in them. -/
inductive Calls where
  | done
  | work (ticks : ℕ) (rest : Calls)
  | call (sec : Section) (body rest : Calls)

def runCalls : Calls → Cpu → Cpu × List Passage
  | .done, c => (c, [])
  | .work ticks rest, c => runCalls rest { c with count := (c.count + ticks) % uintRange }
  | .call sec body rest, c =>
    let (d, passed) := sec.run (runCalls body) c
    let (e, later) := runCalls rest d
    (e, passed ++ ⟨c.flag, d.flag⟩ :: later)

theorem enableInterrupts_flag (c : Cpu) : (enableInterrupts c).2.flag = true := by
  simp [enableInterrupts, Cpu.flag]

theorem disableInterrupts_flag (c : Cpu) : (disableInterrupts c).2.flag = false := by
  simp [disableInterrupts, Cpu.flag]

theorem saved_ne_zero_iff (c : Cpu) : (disableInterrupts c).1 ≠ 0 ↔ c.flag = true := by
  rw [disableInterrupts, Nat.and_one_is_mod, Cpu.flag, Nat.testBit_zero, decide_eq_true_eq]
  omega

theorem masked_flag {body : Body} {c : Cpu} (h : (body (disableInterrupts c).2).1.flag = false) :
    (masked body c).1.flag = c.flag := by
  change (if (disableInterrupts c).1 ≠ 0 then (enableInterrupts (body (disableInterrupts c).2).1).2
    else (body (disableInterrupts c).2).1).flag = c.flag
  by_cases hold : (disableInterrupts c).1 ≠ 0
  · rw [if_pos hold, enableInterrupts_flag, (saved_ne_zero_iff c).mp hold]
  · rw [if_neg hold, h]
    exact (Bool.eq_false_iff.mpr (mt (saved_ne_zero_iff c).mpr hold)).symm

theorem Section.run_passed (sec : Section) (body : Body) (c : Cpu) :
    (sec.run body c).2 = (body (disableInterrupts c).2).2 := by
  cases sec <;> rfl

/-- If its body leaves the flag clear, a section other than the write returns with the flag that it
was entered with. -/
theorem Section.run_flag (sec : Section) {body : Body} {c : Cpu}
    (h : (body (disableInterrupts c).2).1.flag = false) :
    (sec.run body c).1.flag = if sec = .sdWrite then true else c.flag := by
  cases sec with
  | sdWrite => exact enableInterrupts_flag _
  | _ => exact masked_flag h

def Restores (calls : Calls) (c : Cpu) : Prop :=
  ∀ p ∈ (runCalls calls c).2, p.onReturn = p.onEntry

/-- Where the flag is `flag`, no sector is written while it is clear: in no other section, and not at
the top unless interrupts are enabled there. -/
def WritesUnmasked : Bool → Calls → Prop
  | _, .done => True
  | flag, .work _ rest => WritesUnmasked flag rest
  | flag, .call sec body rest =>
    (sec = .sdWrite → flag = true) ∧ WritesUnmasked false body ∧ WritesUnmasked flag rest

theorem restores_call (sec : Section) (body rest : Calls) (c : Cpu) :
    Restores (.call sec body rest) c ↔
      Restores body (disableInterrupts c).2 ∧ (sec.run (runCalls body) c).1.flag = c.flag ∧
        Restores rest (sec.run (runCalls body) c).1 := by
  simp only [Restores, runCalls, sec.run_passed, List.mem_append, List.mem_cons]
  constructor
  · intro h
    exact ⟨fun p hp => h p (.inl hp), h _ (.inr (.inl rfl)), fun p hp => h p (.inr (.inr hp))⟩
  · rintro ⟨hbody, hcall, hrest⟩ p (hp | rfl | hp)
    · exact hbody p hp
    · exact hcall
    · exact hrest p hp

theorem runCalls_flag {calls : Calls} {c : Cpu} (h : Restores calls c) :
    (runCalls calls c).1.flag = c.flag := by
  induction calls generalizing c with
  | done => rfl
  | work ticks rest ih => exact ih h
  | call sec body rest _ ih =>
    obtain ⟨-, hcall, hrest⟩ := (restores_call sec body rest c).mp h
    exact (ih hrest).trans hcall

theorem runCalls_restores_iff (calls : Calls) (c : Cpu) :
    Restores calls c ↔ WritesUnmasked c.flag calls := by
  induction calls generalizing c with
  | done => simp [Restores, runCalls, WritesUnmasked]
  | work ticks rest ih => exact ih _
  | call sec body rest ihbody ihrest =>
    have hbody : Restores body (disableInterrupts c).2 ↔ WritesUnmasked false body := by
      rw [ihbody, disableInterrupts_flag]
    have hcall (h : WritesUnmasked false body) :
        (sec.run (runCalls body) c).1.flag = c.flag ↔ (sec = .sdWrite → c.flag = true) := by
      have hclear := (runCalls_flag (hbody.mpr h)).trans (disableInterrupts_flag c)
      rw [sec.run_flag hclear]
      by_cases hwrite : sec = .sdWrite
      · rw [if_pos hwrite]
        exact ⟨fun h _ => h.symm, fun h => (h hwrite).symm⟩
      · rw [if_neg hwrite]
        exact iff_of_true rfl fun h => absurd h hwrite
    rw [restores_call, WritesUnmasked]
    constructor
    · rintro ⟨h1, h2, h3⟩
      have h1' := hbody.mp h1
      rw [ihrest, h2] at h3
      exact ⟨(hcall h1').mp h2, h1', h3⟩
    · rintro ⟨h1, h2, h3⟩
      have h1' := (hcall h2).mpr h1
      refine ⟨hbody.mpr h2, h1', ?_⟩
      rwa [ihrest, h1']

/-- A page fault with interrupts enabled, whose handler writes a page to the swap file. -/
def swapFault : Calls :=
  .call .doExceptions
    (.call .tlbRefill (.call .kmalloc .done (.call .sdWrite .done (.call .sdRead .done .done))) .done)
    .done

theorem swapFault_not_restores : ¬ Restores swapFault ⟨1, 0, 0⟩ := by
  intro h
  exact absurd (h ⟨false, true⟩ (by decide)) (by decide)

end OurOS.Arch
