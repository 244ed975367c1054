import Mathlib.Data.BitVec
import Mathlib.Data.Finset.Card
import Mathlib.Data.Finset.Range
import OurOS.Lib.Run

namespace OurOS

def pidStatusSize : ℕ := 32

abbrev PidStatus : Type := ℕ → BitVec 8

/-- The column of the first zero bit of an `unsigned char`, which is zero after eight halvings. -/
def freeColumn : ℕ → ℕ → ℕ
  | 0, _ => 0
  | n + 1, tmp => if tmp % 2 = 1 then freeColumn n (tmp / 2) + 1 else 0

/-- The result is `none` for `(pid_t)-1`. -/
def pidAlloc (status : PidStatus) : Option ℕ × PidStatus :=
  match (List.range pidStatusSize).find? fun i => status i != 0xff with
  | none => (none, status)
  | some i =>
    let j := freeColumn 8 (status i).toNat
    (some (i * 8 + j), Function.update status i (status i ||| 1#8 <<< j))

def pidDelete (pid : ℕ) (status : PidStatus) : PidStatus :=
  Function.update status (pid / 8) (status (pid / 8) ||| ~~~(1#8 <<< (pid % 8)))

def initPidStatus : PidStatus := fun i => if i = 0 then 1 else 0

structure PidSys where
  status : PidStatus
  live : List ℕ

inductive PidOp
  | alloc
  | delete (pid : ℕ)
deriving DecidableEq, Repr

def pidStep (s : PidSys) : PidOp → Option PidSys
  | .alloc => some ⟨(pidAlloc s.status).2, (pidAlloc s.status).1.toList ++ s.live⟩
  | .delete pid => if pid ∈ s.live then some ⟨pidDelete pid s.status, s.live.erase pid⟩ else none

def initPidSys : PidSys := ⟨initPidStatus, []⟩

def pidBit (status : PidStatus) (pid : ℕ) : Bool := (status (pid / 8)).getLsbD (pid % 8)

def pidCount : ℕ := pidStatusSize * 8

section Column

theorem freeColumn_spec (n tmp : ℕ) (h : tmp + 1 < 2 ^ n) :
    freeColumn n tmp < n ∧ tmp.testBit (freeColumn n tmp) = false := by
  induction n generalizing tmp with
  | zero => simp at h
  | succ n ih =>
    rw [freeColumn]
    split_ifs with hodd
    · have hpow : 2 ^ (n + 1) = 2 * 2 ^ n := by rw [pow_succ, Nat.mul_comm]
      obtain ⟨h1, h2⟩ := ih (tmp / 2) (by omega)
      exact ⟨by omega, by rw [Nat.testBit_succ, h2]⟩
    · exact ⟨Nat.succ_pos n, by simpa [Nat.testBit_zero] using hodd⟩

theorem freeColumn_bit {b : BitVec 8} (h : b ≠ 0xff) :
    freeColumn 8 b.toNat < 8 ∧ b.getLsbD (freeColumn 8 b.toNat) = false := by
  have hne : b.toNat ≠ 255 := fun e => h (BitVec.eq_of_toNat_eq e)
  have hlt := b.isLt
  exact freeColumn_spec 8 b.toNat (by omega)

end Column

section Alloc

variable {status : PidStatus} {pid : ℕ}

theorem pidBit_update {i j : ℕ} (hj : j < 8) (q : ℕ) :
    pidBit (Function.update status i (status i ||| 1#8 <<< j)) q =
      (pidBit status q || decide (q = i * 8 + j)) := by
  by_cases e : q / 8 = i
  · subst e
    have hmod := Nat.mod_lt q (show 0 < 8 by decide)
    have hiff : q = q / 8 * 8 + j ↔ q % 8 = j := by omega
    simp only [pidBit, Function.update_self, BitVec.getLsbD_or, hiff]
    congr 1
    by_cases e : q % 8 = j
    · subst e
      simp [hmod]
    · rcases Nat.lt_or_gt_of_ne e with h | h
      · simp [h, e, hmod]
      · simp [e, hmod]
        omega
  · have hne : q ≠ i * 8 + j := by omega
    simp [pidBit, Function.update_of_ne e, hne]

theorem pidAlloc_some (h : (pidAlloc status).1 = some pid) : pid < pidCount ∧
    pidBit status pid = false ∧
      ∀ q, pidBit (pidAlloc status).2 q = (pidBit status q || decide (q = pid)) := by
  rw [pidAlloc] at h ⊢
  split at h
  · cases h
  · rename_i i hi
    have hmem := List.mem_range.mp (List.mem_of_find?_eq_some hi)
    obtain ⟨h1, h2⟩ := freeColumn_bit (by simpa using List.find?_some hi)
    obtain rfl := Option.some.inj h
    rw [pidStatusSize] at hmem
    refine ⟨by rw [pidCount, pidStatusSize]; omega, ?_, pidBit_update h1⟩
    rw [pidBit, show (i * 8 + freeColumn 8 (status i).toNat) / 8 = i by omega,
      show (i * 8 + freeColumn 8 (status i).toNat) % 8 = freeColumn 8 (status i).toNat by omega, h2]

theorem pidAlloc_none (h : (pidAlloc status).1 = none) :
    (pidAlloc status).2 = status ∧ ∀ q < pidCount, pidBit status q = true := by
  rw [pidAlloc] at h ⊢
  split at h
  · rename_i hnone
    refine ⟨rfl, fun q hq => ?_⟩
    rw [List.find?_eq_none] at hnone
    rw [pidCount] at hq
    have hfull := hnone (q / 8) (List.mem_range.mpr (by omega))
    have hmod := Nat.mod_lt q (show 0 < 8 by decide)
    have hones : ∀ k < 8, (0xff : BitVec 8).getLsbD k = true := by decide
    rw [pidBit, show status (q / 8) = 0xff by simpa using hfull]
    exact hones _ hmod
  · cases h

theorem pidBit_delete (pid q : ℕ) : pidBit (pidDelete pid status) q =
    (pidBit status q || decide (q / 8 = pid / 8 ∧ q ≠ pid)) := by
  by_cases e : q / 8 = pid / 8
  · have hmod := Nat.mod_lt q (show 0 < 8 by decide)
    have hmod' := Nat.mod_lt pid (show 0 < 8 by decide)
    have hiff : q = pid ↔ q % 8 = pid % 8 := by omega
    simp only [pidBit, pidDelete, e, Function.update_self, BitVec.getLsbD_or, true_and, ne_eq, hiff]
    congr 1
    by_cases e : q % 8 = pid % 8
    · simp [e, hmod']
    · rcases Nat.lt_or_gt_of_ne e with h | h
      · simp [h, e, hmod]
      · simp [e, hmod]
        omega
  · simp [pidBit, pidDelete, e]

end Alloc

/-- A pid that is not in use is returned by `pid_alloc`, after at most as many calls as there are
clear bits. -/
def allocsUpTo : ℕ → PidStatus → Option ℕ
  | 0, status => (pidAlloc status).1
  | n + 1, status => allocsUpTo n (pidAlloc status).2

theorem exists_allocsUpTo {status : PidStatus} {pid : ℕ} (hlt : pid < pidCount)
    (hfree : pidBit status pid = false) : ∃ n, allocsUpTo n status = some pid := by
  induction hcard : ((Finset.range pidCount).filter fun q => pidBit status q = false).card using
    Nat.strong_induction_on generalizing status with
  | _ card ih =>
    cases hr : (pidAlloc status).1 with
    | none =>
      have := (pidAlloc_none hr).2 pid hlt
      rw [hfree] at this
      cases this
    | some q =>
      by_cases e : q = pid
      · subst e
        exact ⟨0, hr⟩
      obtain ⟨hq, hclear, hbits⟩ := pidAlloc_some hr
      have hless : ((Finset.range pidCount).filter
          fun p => pidBit (pidAlloc status).2 p = false).card < card := by
        rw [← hcard]
        refine Finset.card_lt_card (Finset.ssubset_iff_of_subset (fun p hp => ?_) |>.mpr
          ⟨q, Finset.mem_filter.mpr ⟨Finset.mem_range.mpr hq, hclear⟩, ?_⟩)
        · simp only [Finset.mem_filter, hbits, Bool.or_eq_false_iff] at hp ⊢
          exact ⟨hp.1, hp.2.1⟩
        · simp [hbits]
      obtain ⟨n, hn⟩ := ih _ hless (by simp [hbits, hfree, Ne.symm e]) rfl
      exact ⟨n + 1, hn⟩

/-- The 1 bits of `pid_status` are pid 0 and the pids in use, and `pid_alloc` behaves so. -/
structure PidsTracked (s : PidSys) : Prop where
  bits : ∀ pid < pidCount, pidBit s.status pid = true ↔ pid = 0 ∨ pid ∈ s.live
  unused : ∀ pid, (pidAlloc s.status).1 = some pid → pid < pidCount ∧ pid ≠ 0 ∧ pid ∉ s.live
  full : (pidAlloc s.status).1 = none → ∀ pid < pidCount, pid = 0 ∨ pid ∈ s.live
  again : ∀ pid < pidCount, pid ≠ 0 → pid ∉ s.live → ∃ n, allocsUpTo n s.status = some pid

theorem PidsTracked.of_bits {s : PidSys}
    (h : ∀ pid < pidCount, pidBit s.status pid = true ↔ pid = 0 ∨ pid ∈ s.live) :
    PidsTracked s := by
  refine ⟨h, fun pid hr => ?_, fun hr pid hlt => (h pid hlt).mp ((pidAlloc_none hr).2 pid hlt),
    fun pid hlt hne hnot => exists_allocsUpTo hlt ?_⟩
  · obtain ⟨hlt, hclear, -⟩ := pidAlloc_some hr
    have hnot := mt (h pid hlt).mpr (by simp [hclear])
    exact ⟨hlt, not_or.mp hnot⟩
  · rw [← Bool.not_eq_true, h pid hlt]
    exact not_or.mpr ⟨hne, hnot⟩

section Run

variable {s t : PidSys}

structure LiveMarked (s : PidSys) : Prop where
  nodup : s.live.Nodup
  live : ∀ pid ∈ s.live, pid < pidCount ∧ pid ≠ 0 ∧ pidBit s.status pid = true
  idle : pidBit s.status 0 = true

theorem initPidSys_marked : LiveMarked initPidSys := ⟨List.nodup_nil, by simp [initPidSys], rfl⟩

theorem initPidSys_bits : ∀ pid < pidCount,
    pidBit initPidSys.status pid = true ↔ pid = 0 ∨ pid ∈ initPidSys.live := by
  intro pid _
  by_cases e : pid / 8 = 0
  · have hiff : pid % 8 = 0 ↔ pid = 0 := by omega
    simp [pidBit, initPidSys, initPidStatus, e, hiff]
  · have hne : pid ≠ 0 := by rintro rfl; exact e rfl
    simp [pidBit, initPidSys, initPidStatus, e, hne]

theorem pidStep_cases {op : PidOp} (h : pidStep s op = some t) :
    (op = .alloc ∧ t = s ∧ ∀ q < pidCount, pidBit s.status q = true) ∨
      (∃ pid, op = .alloc ∧ pid < pidCount ∧ pidBit s.status pid = false ∧
        t.live = pid :: s.live ∧
        ∀ q, pidBit t.status q = (pidBit s.status q || decide (q = pid))) ∨
      ∃ pid, op = .delete pid ∧ pid ∈ s.live ∧ t.live = s.live.erase pid ∧
        ∀ q, pidBit t.status q = (pidBit s.status q || decide (q / 8 = pid / 8 ∧ q ≠ pid)) := by
  cases op with
  | alloc =>
    obtain rfl := Option.some.inj h
    cases hr : (pidAlloc s.status).1 with
    | none =>
      obtain ⟨h1, h2⟩ := pidAlloc_none hr
      exact .inl ⟨rfl, by rw [h1]; rfl, h2⟩
    | some pid =>
      obtain ⟨h1, h2, h3⟩ := pidAlloc_some hr
      exact .inr (.inl ⟨pid, rfl, h1, h2, rfl, h3⟩)
  | delete pid =>
    rw [pidStep] at h
    split_ifs at h with hmem
    obtain rfl := Option.some.inj h
    exact .inr (.inr ⟨pid, rfl, hmem, rfl, pidBit_delete pid⟩)

theorem pidStep_marked {op : PidOp} (h : LiveMarked s) (hstep : pidStep s op = some t) :
    LiveMarked t := by
  rcases pidStep_cases hstep with ⟨-, rfl, -⟩ | ⟨pid, -, hlt, hclear, hlive, hbits⟩ |
    ⟨pid, -, hmem, hlive, hbits⟩
  · exact h
  · have hne : pid ≠ 0 := by
      rintro rfl
      rw [h.idle] at hclear
      cases hclear
    have hnot : pid ∉ s.live := by
      intro hmem
      rw [(h.live pid hmem).2.2] at hclear
      cases hclear
    refine ⟨hlive ▸ List.nodup_cons.mpr ⟨hnot, h.nodup⟩, fun q hq => ?_, by simp [hbits, h.idle]⟩
    rw [hlive] at hq
    rcases List.mem_cons.mp hq with rfl | hq
    · exact ⟨hlt, hne, by simp [hbits]⟩
    · obtain ⟨h1, h2, h3⟩ := h.live q hq
      exact ⟨h1, h2, by simp [hbits, h3]⟩
  · refine ⟨hlive ▸ h.nodup.erase pid, fun q hq => ?_, by simp [hbits, h.idle]⟩
    rw [hlive] at hq
    obtain ⟨h1, h2, h3⟩ := h.live q (List.mem_of_mem_erase hq)
    exact ⟨h1, h2, by simp [hbits, h3]⟩

def Leaked (s : PidSys) : Prop :=
  ∃ pid < pidCount, pid ≠ 0 ∧ pid ∉ s.live ∧ pidBit s.status pid = true

theorem pidStep_leaked {op : PidOp} (hl : Leaked s) (hstep : pidStep s op = some t) :
    Leaked t := by
  obtain ⟨q, hlt, hne, hnot, hbit⟩ := hl
  rcases pidStep_cases hstep with ⟨-, rfl, -⟩ | ⟨pid, -, -, hclear, hlive, hbits⟩ |
    ⟨pid, -, -, hlive, hbits⟩
  · exact ⟨q, hlt, hne, hnot, hbit⟩
  · have hqp : q ≠ pid := by
      rintro rfl
      rw [hbit] at hclear
      cases hclear
    refine ⟨q, hlt, hne, ?_, by simp [hbits, hbit]⟩
    rw [hlive]
    exact List.not_mem_cons_of_ne_of_not_mem hqp hnot
  · refine ⟨q, hlt, hne, ?_, by simp [hbits, hbit]⟩
    rw [hlive]
    exact fun hmem => hnot (List.mem_of_mem_erase hmem)

theorem pidStep_delete_leaks {pid : ℕ} (h : LiveMarked s)
    (hstep : pidStep s (.delete pid) = some t) : Leaked t := by
  rcases pidStep_cases hstep with ⟨hop, -⟩ | ⟨_, hop, -⟩ | ⟨q, hop, hmem, hlive, hbits⟩
  · cases hop
  · cases hop
  · obtain rfl := PidOp.delete.inj hop
    obtain ⟨hlt, hne, hbit⟩ := h.live pid hmem
    refine ⟨pid, hlt, hne, ?_, by simp [hbits, hbit]⟩
    rw [hlive]
    exact h.nodup.not_mem_erase

theorem pidStep_alloc_bits
    (h : ∀ pid < pidCount, pidBit s.status pid = true ↔ pid = 0 ∨ pid ∈ s.live)
    (hstep : pidStep s .alloc = some t) :
    ∀ pid < pidCount, pidBit t.status pid = true ↔ pid = 0 ∨ pid ∈ t.live := by
  intro q hlt
  rcases pidStep_cases hstep with ⟨-, rfl, -⟩ | ⟨pid, -, -, -, hlive, hbits⟩ | ⟨_, hop, -⟩
  · exact h q hlt
  · rw [hbits, Bool.or_eq_true, h q hlt, decide_eq_true_eq, hlive, List.mem_cons]
    tauto
  · cases hop

theorem pidRun_marked {ops : List PidOp} (h : LiveMarked s) (hrun : runOps pidStep s ops = some t) :
    LiveMarked t :=
  runOps_invariant (fun _ _ _ h hstep => pidStep_marked h hstep) h hrun

theorem pidRun_leaked {ops : List PidOp} (h : LiveMarked s) {pid : ℕ} (hmem : .delete pid ∈ ops)
    (hrun : runOps pidStep s ops = some t) : Leaked t := by
  obtain ⟨before, after, rfl⟩ := List.append_of_mem hmem
  rw [runOps_append] at hrun
  obtain ⟨u, hu, hrest⟩ := Option.bind_eq_some_iff.mp hrun
  obtain ⟨v, hv, hlast⟩ := Option.bind_eq_some_iff.mp hrest
  have hleak := pidStep_delete_leaks (pidRun_marked h hu) hv
  exact runOps_invariant (fun _ _ _ h hstep => pidStep_leaked h hstep) hleak hlast

theorem pidRun_bits {ops : List PidOp} (hops : ∀ pid, PidOp.delete pid ∉ ops)
    (h : ∀ pid < pidCount, pidBit s.status pid = true ↔ pid = 0 ∨ pid ∈ s.live)
    (hrun : runOps pidStep s ops = some t) :
    ∀ pid < pidCount, pidBit t.status pid = true ↔ pid = 0 ∨ pid ∈ t.live := by
  induction ops generalizing s with
  | nil =>
    obtain rfl := Option.some.inj hrun
    exact h
  | cons op ops ih =>
    obtain ⟨u, hu, hrest⟩ := Option.bind_eq_some_iff.mp hrun
    cases op with
    | alloc =>
      exact ih (fun pid hmem => hops pid (List.mem_cons_of_mem _ hmem)) (pidStep_alloc_bits h hu)
        hrest
    | delete pid => exact absurd List.mem_cons_self (hops pid)

theorem pidRun_tracked_iff {ops : List PidOp} (hrun : runOps pidStep initPidSys ops = some s) :
    PidsTracked s ↔ ∀ pid, PidOp.delete pid ∉ ops := by
  constructor
  · intro h pid hmem
    obtain ⟨q, hlt, hne, hnot, hbit⟩ := pidRun_leaked initPidSys_marked hmem hrun
    rcases (h.bits q hlt).mp hbit with rfl | hlive
    · exact hne rfl
    · exact hnot hlive
  · exact fun hops => .of_bits (pidRun_bits hops initPidSys_bits hrun)

theorem pidRun_tracked_small : ∃ s, runOps pidStep initPidSys [.alloc, .alloc] = some s ∧
    (PidsTracked s ↔ ∀ pid, PidOp.delete pid ∉ [PidOp.alloc, .alloc]) :=
  ⟨_, rfl, pidRun_tracked_iff rfl⟩

/-- Pid 1 is allocated and deleted, and its bit and the six above it stay set. -/
theorem pidRun_not_tracked : ¬ ∀ (ops : List PidOp) (s : PidSys),
    runOps pidStep initPidSys ops = some s → PidsTracked s := by
  intro h
  have hrun : (runOps pidStep initPidSys [.alloc, .delete 1]).isSome = true := by decide
  obtain ⟨s, hs⟩ := Option.isSome_iff_exists.mp hrun
  exact (pidRun_tracked_iff hs).mp (h _ s hs) 1 (by decide)

end Run

end OurOS
