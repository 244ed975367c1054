import OurOS.Mm.Page

namespace OurOS

def ptNum : ℕ := 1024

def userTop : ℕ := 0x80000000

structure EntryLo where
  pfn : ℕ
  c : ℕ
  d : Bool
  v : Bool
  g : Bool
deriving DecidableEq, Repr

def EntryLo.ofValue (value : ℕ) : EntryLo where
  pfn := (value >>> 6) % 2 ^ 24
  c := (value >>> 3) % 8
  d := value.testBit 2
  v := value.testBit 1
  g := value.testBit 0

@[ext] structure Pte where
  tlbEntry : EntryLo
  info : ℕ
deriving DecidableEq, Repr

def zeroPte : Pte := ⟨EntryLo.ofValue 0, 0⟩

abbrev Pgd := ℕ → Option (ℕ → Pte)

def createPt : Pgd := fun _ => none

def pgdIdx (vaddr : ℕ) : ℕ := vaddr >>> 22

def pteIdx (vaddr : ℕ) : ℕ := ((vaddr <<< 10) % uintRange) >>> 22

def readPte (pgd : Pgd) (pte : ℕ × ℕ) : Pte :=
  match pgd pte.1 with
  | some table => table pte.2
  | none => zeroPte

def writePte (pgd : Pgd) (pte : ℕ × ℕ) (val : Pte) : Pgd :=
  match pgd pte.1 with
  | some table => Function.update pgd pte.1 (some (Function.update table pte.2 val))
  | none => pgd

def getPte (pgd : Pgd) (vaddr : ℕ) : Pgd × (ℕ × ℕ) :=
  let i := pgdIdx vaddr
  let pgd := if (pgd i).isNone then Function.update pgd i (some fun _ => zeroPte) else pgd
  (pgd, (i, pteIdx vaddr))

def vpn (vaddr : ℕ) : ℕ := vaddr / pageSize

def pteAt (pgd : Pgd) (n : ℕ) : Pte := readPte pgd (n / ptNum, n % ptNum)

theorem getPte_snd (pgd : Pgd) (vaddr : ℕ) :
    (getPte pgd vaddr).2 = (vpn vaddr / ptNum, vpn vaddr % ptNum) := by
  simp only [getPte, pgdIdx, pteIdx, vpn, pageSize, ptNum, uintRange, Nat.shiftRight_eq_div_pow,
    Nat.shiftLeft_eq, Prod.mk.injEq]
  constructor
  · rw [Nat.div_div_eq_div_mul]
  · omega

theorem getPte_isSome (pgd : Pgd) (vaddr : ℕ) :
    ((getPte pgd vaddr).1 (pgdIdx vaddr)).isSome = true := by
  simp only [getPte]
  split
  · simp
  · rename_i h
    simpa [Option.isNone_iff_eq_none, Option.isSome_iff_ne_none] using h

@[simp] theorem readPte_getPte (pgd : Pgd) (vaddr : ℕ) (pte : ℕ × ℕ) :
    readPte (getPte pgd vaddr).1 pte = readPte pgd pte := by
  simp only [getPte, readPte]
  split_ifs with h
  · by_cases e : pte.1 = pgdIdx vaddr
    · rw [e, Function.update_self, Option.isNone_iff_eq_none.mp h]
    · rw [Function.update_of_ne e]
  · rfl

theorem readPte_writePte {pgd : Pgd} {pte : ℕ × ℕ} (h : (pgd pte.1).isSome = true) (val : Pte)
    (q : ℕ × ℕ) : readPte (writePte pgd pte val) q = if q = pte then val else readPte pgd q := by
  obtain ⟨table, ht⟩ := Option.isSome_iff_exists.mp h
  simp only [writePte, readPte, ht]
  by_cases e : q.1 = pte.1
  · rw [e, Function.update_self, ht]
    by_cases e' : q.2 = pte.2
    · simp [Prod.ext_iff, e, e']
    · simp [Prod.ext_iff, e']
  · simp [Prod.ext_iff, e]

def setPte (pgd : Pgd) (vaddr : ℕ) (f : Pte → Pte) : Pgd :=
  let r := getPte pgd vaddr
  writePte r.1 r.2 (f (readPte r.1 r.2))

theorem pteAt_getPte (pgd : Pgd) (vaddr n : ℕ) : pteAt (getPte pgd vaddr).1 n = pteAt pgd n :=
  readPte_getPte _ _ _

theorem readPte_eq (pgd pgd' : Pgd) (vaddr : ℕ) :
    readPte pgd (getPte pgd' vaddr).2 = pteAt pgd (vpn vaddr) := by
  rw [getPte_snd, pteAt]

theorem pteAt_setPte (pgd : Pgd) (vaddr : ℕ) (f : Pte → Pte) (n : ℕ) :
    pteAt (setPte pgd vaddr f) n =
      if n = vpn vaddr then f (pteAt pgd (vpn vaddr)) else pteAt pgd n := by
  have hs := getPte_isSome pgd vaddr
  rw [setPte, pteAt, readPte_writePte hs, readPte_getPte, readPte_eq, getPte_snd]
  have hiff : (n / ptNum, n % ptNum) = (vpn vaddr / ptNum, vpn vaddr % ptNum) ↔
      n = vpn vaddr := by
    simp only [Prod.mk.injEq, ptNum]
    omega
  simp only [hiff, readPte_getPte]
  rfl

end OurOS
