import Mathlib.Tactic.Positivity
import Mathlib.Tactic.Ring
import OurOS.Fs.Inode

namespace OurOS.Fs

/-- How often a byte can be shifted right before it is zero. -/
def countShifts : ℕ → ℕ → ℕ
  | 0, _ => 0
  | n + 1, temp => if temp >>> 1 = 0 then 0 else countShifts n (temp >>> 1) + 1

/-- The fields that `get_sb_fat32` computes from `dbr_sec_per_clu`, which it does not check. -/
structure Mounted (b : SuperBlock) (secPerClu : ℕ) : Prop where
  blocksize : b.sBlocksize = secPerClu <<< sectorShift
  blockbits : b.sBlockbits = sectorShift + countShifts 8 secPerClu

def cluSec (b : SuperBlock) (clu : ℕ) : ℕ := cluToSec b.infoCluBase clu b.sBlockbits

def secClu (b : SuperBlock) (sec : ℕ) : ℕ := secToClu b.infoCluBase sec b.sBlockbits

structure ClustersMapped (b : SuperBlock) (secPerClu c d : ℕ) : Prop where
  sector : ∀ x, x = c ∨ x = d → cluSec b x = b.infoCluBase + (x - 2) * secPerClu
  apart : c ≠ d → cluSec b c ≠ cluSec b d ∧ ∀ sb size isdir,
    (newInode sb b c size isdir).iIno ≠ (newInode sb b d size isdir).iIno
  inverse : ∀ x, x = c ∨ x = d → secClu b (cluSec b x) = x

/-- The byte offset of a cluster fits into a word, and the sectors per cluster are a power of two
where they matter. -/
def offsetFits (b : SuperBlock) (secPerClu c : ℕ) : Prop :=
  (c - 2) * 2 ^ b.sBlockbits < uintRange ∧ (c = 2 ∨ secPerClu <<< sectorShift = 2 ^ b.sBlockbits)

section Shifts

theorem countShifts_spec (n temp : ℕ) (hpos : 0 < temp) (hlt : temp < 2 ^ n) :
    2 ^ countShifts n temp ≤ temp ∧ temp < 2 ^ (countShifts n temp + 1) := by
  induction n generalizing temp with
  | zero => omega
  | succ n ih =>
    have hshift : temp >>> 1 = temp / 2 := Nat.shiftRight_one temp
    rw [countShifts, hshift]
    split_ifs with hzero
    · omega
    · have hpow : 2 ^ (n + 1) = 2 * 2 ^ n := by rw [pow_succ, Nat.mul_comm]
      obtain ⟨h1, h2⟩ := ih (temp / 2) (by omega) (by omega)
      rw [pow_succ] at h2 ⊢
      rw [pow_succ]
      omega

end Shifts

section Clusters

variable {b : SuperBlock} {secPerClu c d : ℕ}

theorem Mounted.power_le (h : Mounted b secPerClu) (hpos : 0 < secPerClu) (hlt : secPerClu < 256) :
    ∃ k, b.sBlockbits = sectorShift + k ∧ 2 ^ k ≤ secPerClu ∧ k < 8 := by
  obtain ⟨h1, h2⟩ := countShifts_spec 8 secPerClu hpos hlt
  refine ⟨countShifts 8 secPerClu, h.blockbits, h1, ?_⟩
  exact (Nat.pow_lt_pow_iff_right one_lt_two).mp (h1.trans_lt hlt)

theorem cluSec_eq {k : ℕ} (hbits : b.sBlockbits = sectorShift + k) (hc : 2 ≤ c)
    (hword : c < uintRange) (hle : 2 ^ k ≤ secPerClu)
    (hfit : b.infoCluBase + (c - 1) * secPerClu ≤ uintRange) :
    cluSec b c = b.infoCluBase + (c - 2) * 2 ^ k % 2 ^ 23 := by
  have hsub : (c + (uintRange - 2)) % uintRange = c - 2 := by
    rw [show c + (uintRange - 2) = c - 2 + uintRange by omega, Nat.add_mod_right,
      Nat.mod_eq_of_lt (by omega)]
  have hshift : (((c - 2) <<< b.sBlockbits) % uintRange) >>> sectorShift =
      (c - 2) * 2 ^ k % 2 ^ 23 := by
    rw [hbits, sectorShift, Nat.shiftLeft_eq, Nat.shiftRight_eq_div_pow, uintRange, pow_add,
      show (c - 2) * (2 ^ 9 * 2 ^ k) = 2 ^ 9 * ((c - 2) * 2 ^ k) by ring,
      show (2 : ℕ) ^ 32 = 2 ^ 9 * 2 ^ 23 by norm_num, Nat.mul_mod_mul_left,
      Nat.mul_div_cancel_left _ (by norm_num)]
  have hmod := Nat.mod_le ((c - 2) * 2 ^ k) (2 ^ 23)
  have hmul : (c - 2) * 2 ^ k ≤ (c - 2) * secPerClu := Nat.mul_le_mul_left _ hle
  have hnext : (c - 1) * secPerClu = (c - 2) * secPerClu + secPerClu := by
    rw [show c - 1 = c - 2 + 1 by omega, Nat.add_mul, Nat.one_mul]
  have hpos := Nat.two_pow_pos k
  rw [cluSec, cluToSec, hsub, hshift, Nat.mod_eq_of_lt (by omega)]

theorem offsetFits_iff {k : ℕ} (hbits : b.sBlockbits = sectorShift + k) :
    offsetFits b secPerClu c ↔
      (c - 2) * 2 ^ k < 2 ^ 23 ∧ (c = 2 ∨ secPerClu = 2 ^ k) := by
  have h1 : (c - 2) * 2 ^ (sectorShift + k) = (c - 2) * 2 ^ k * 2 ^ 9 := by
    rw [sectorShift, pow_add]
    ring
  have h2 : secPerClu <<< sectorShift = 2 ^ (sectorShift + k) ↔ secPerClu = 2 ^ k := by
    rw [Nat.shiftLeft_eq, pow_add, Nat.mul_comm, sectorShift]
    exact Nat.mul_right_inj (by norm_num)
  rw [offsetFits, hbits, h1, h2, uintRange, show (2 : ℕ) ^ 32 = 2 ^ 23 * 2 ^ 9 by norm_num]
  exact and_congr_left fun _ => Nat.mul_lt_mul_right (by norm_num)

theorem cluSec_eq_iff {k : ℕ} (hbits : b.sBlockbits = sectorShift + k) (hc : 2 ≤ c)
    (hword : c < uintRange) (hle : 2 ^ k ≤ secPerClu)
    (hfit : b.infoCluBase + (c - 1) * secPerClu ≤ uintRange) :
    cluSec b c = b.infoCluBase + (c - 2) * secPerClu ↔ offsetFits b secPerClu c := by
  rw [cluSec_eq hbits hc hword hle hfit, offsetFits_iff hbits, Nat.add_right_inj]
  have hmod := Nat.mod_le ((c - 2) * 2 ^ k) (2 ^ 23)
  have hmul : (c - 2) * 2 ^ k ≤ (c - 2) * secPerClu := Nat.mul_le_mul_left _ hle
  constructor
  · intro h
    have heq : (c - 2) * 2 ^ k % 2 ^ 23 = (c - 2) * 2 ^ k := by omega
    refine ⟨heq ▸ Nat.mod_lt _ (by norm_num), ?_⟩
    rcases Nat.eq_zero_or_pos (c - 2) with hz | hz
    · exact .inl (by omega)
    · exact .inr (Nat.eq_of_mul_eq_mul_left hz (by omega))
  · rintro ⟨hlt, rfl | hpow⟩
    · simp
    · rw [Nat.mod_eq_of_lt hlt, hpow]

theorem secClu_cluSec {k : ℕ} (hbits : b.sBlockbits = sectorShift + k) (hc : 2 ≤ c)
    (hword : c < uintRange) (hle : 2 ^ k ≤ secPerClu)
    (hfit : b.infoCluBase + (c - 1) * secPerClu ≤ uintRange) (h : offsetFits b secPerClu c) :
    secClu b (cluSec b c) = c := by
  rw [cluSec_eq hbits hc hword hle hfit]
  obtain ⟨hlt, -⟩ := (offsetFits_iff hbits).mp h
  rw [Nat.mod_eq_of_lt hlt]
  have hsum : b.infoCluBase + (c - 2) * 2 ^ k < uintRange := by
    have hmul : (c - 2) * 2 ^ k ≤ (c - 2) * secPerClu := Nat.mul_le_mul_left _ hle
    have hnext : (c - 1) * secPerClu = (c - 2) * secPerClu + secPerClu := by
      rw [show c - 1 = c - 2 + 1 by omega, Nat.add_mul, Nat.one_mul]
    have hpos := Nat.two_pow_pos k
    omega
  have hsub : (b.infoCluBase + (c - 2) * 2 ^ k + (uintRange - b.infoCluBase)) % uintRange =
      (c - 2) * 2 ^ k := by
    rw [show b.infoCluBase + (c - 2) * 2 ^ k + (uintRange - b.infoCluBase) =
      (c - 2) * 2 ^ k + uintRange by omega, Nat.add_mod_right, Nat.mod_eq_of_lt (by omega)]
  have hoff : ((c - 2) * 2 ^ k) <<< sectorShift < uintRange := by
    rw [sectorShift, Nat.shiftLeft_eq, uintRange, show (2 : ℕ) ^ 32 = 2 ^ 23 * 2 ^ 9 by norm_num]
    exact (Nat.mul_lt_mul_right (by norm_num)).mpr hlt
  rw [secClu, secToClu, hsub, Nat.mod_eq_of_lt hoff, hbits, Nat.shiftLeft_eq,
    Nat.shiftRight_eq_div_pow, pow_add,
    show (c - 2) * 2 ^ k * 2 ^ sectorShift = (c - 2) * (2 ^ sectorShift * 2 ^ k) by ring,
    Nat.mul_div_cancel _ (by positivity), Nat.sub_add_cancel hc, Nat.mod_eq_of_lt hword]

theorem clustersMapped_iff (hb : Mounted b secPerClu) (hpos : 0 < secPerClu)
    (hbyte : secPerClu < 256) (hc : 2 ≤ c) (hd : 2 ≤ d) (hcw : c < uintRange) (hdw : d < uintRange)
    (hcfit : b.infoCluBase + (c - 1) * secPerClu ≤ uintRange)
    (hdfit : b.infoCluBase + (d - 1) * secPerClu ≤ uintRange) :
    ClustersMapped b secPerClu c d ↔ offsetFits b secPerClu c ∧ offsetFits b secPerClu d := by
  obtain ⟨k, hbits, hle, -⟩ := hb.power_le hpos hbyte
  have hciff := cluSec_eq_iff hbits hc hcw hle hcfit
  have hdiff := cluSec_eq_iff hbits hd hdw hle hdfit
  constructor
  · intro h
    exact ⟨hciff.mp (h.sector c (.inl rfl)), hdiff.mp (h.sector d (.inr rfl))⟩
  · rintro ⟨h1, h2⟩
    have hinv : ∀ x, x = c ∨ x = d → secClu b (cluSec b x) = x := by
      rintro x (rfl | rfl)
      · exact secClu_cluSec hbits hc hcw hle hcfit h1
      · exact secClu_cluSec hbits hd hdw hle hdfit h2
    have hne : c ≠ d → cluSec b c ≠ cluSec b d := by
      intro hne he
      refine hne ?_
      rw [← hinv c (.inl rfl), he, hinv d (.inr rfl)]
    refine ⟨?_, fun hcd => ⟨hne hcd, fun _ _ _ => hne hcd⟩, hinv⟩
    rintro x (rfl | rfl)
    · exact hciff.mpr h1
    · exact hdiff.mpr h2

/-- Eight sectors to a cluster, as the comment on `dbr_sec_per_clu` expects. -/
def eightSectors : SuperBlock := ⟨4096, 12, 0, none, none, 1, 38, 16384, 2⟩

theorem clustersMapped_iff_small : ClustersMapped eightSectors 8 2 3 ↔
    offsetFits eightSectors 8 2 ∧ offsetFits eightSectors 8 3 :=
  clustersMapped_iff ⟨rfl, rfl⟩ (by decide) (by decide) (by decide) (by decide) (by decide)
    (by decide) (by decide) (by decide)

/-- 4 GiB into the data area a cluster gets the sector of the first one. -/
theorem clustersMapped_far : ¬ ∀ (b : SuperBlock) (secPerClu c d : ℕ), Mounted b secPerClu →
    0 < secPerClu → secPerClu < 256 → 2 ≤ c → 2 ≤ d → c < uintRange → d < uintRange →
    b.infoCluBase + (c - 1) * secPerClu ≤ uintRange →
    b.infoCluBase + (d - 1) * secPerClu ≤ uintRange → ClustersMapped b secPerClu c d := by
  intro h
  have hmapped := h eightSectors 8 2 (2 + 2 ^ 20) ⟨rfl, rfl⟩ (by decide) (by decide) (by decide)
    (by decide) (by decide) (by decide) (by decide) (by decide)
  exact (hmapped.apart (by decide)).1 (by decide)

end Clusters

end OurOS.Fs
