import OurOS.Fs.State

namespace OurOS.Fs

def hashSize : ℕ := 64

def hashMask : ℕ := hashSize - 1

def toUpperCase (c : ℕ) : ℕ := if 97 ≤ c ∧ c ≤ 122 then c - 32 else c

def toLowerCase (c : ℕ) : ℕ := if 65 ≤ c ∧ c ≤ 90 then c + 32 else c

def signedChar (c : ℕ) : ℤ := if c < 128 then c else c - 256

def commonPrefixDrop : List ℕ → List ℕ → List ℕ × List ℕ
  | p :: ps, q :: qs =>
    if p ≠ 0 ∧ toUpperCase p = toUpperCase q then commonPrefixDrop ps qs else (p :: ps, q :: qs)
  | ps, qs => (ps, qs)

def compareFat32 (a b : List ℕ) : ℤ :=
  let r := commonPrefixDrop a b
  signedChar (r.1.headD 0) - signedChar (r.2.headD 0)

def hashStep (hash c : ℕ) : ℕ :=
  let hash := (hash <<< 4 + if c < 128 then c else c + (uintRange - 256)) % uintRange
  let x := hash &&& 0xF0000000
  if x ≠ 0 then (hash ^^^ (x >>> 24)) &&& (uintRange - 1 - x) else hash

def hashString (key : List ℕ) : ℕ := key.foldl hashStep 0 &&& hashMask

def hashInt (key : ℕ) : ℕ := key &&& hashMask

def dummyChar8dot3 : ℕ := 32

def dotChar : ℕ := 46

def dotPos (src : List ℕ) : ℕ :=
  ((List.range src.length).reverse.find? fun i => src.getD i 0 == dotChar).getD src.length

def convertNormalTo8dot3 (src : List ℕ) : List ℕ :=
  let dot := dotPos src
  ((List.range 8).map fun i => if i < dot then toUpperCase (src.getD i 0) else dummyChar8dot3) ++
    (List.range 3).map fun i =>
      if dot + 1 + i < src.length then toUpperCase (src.getD (dot + 1 + i) 0) else dummyChar8dot3

def convert8dot3ToNormal (filename : ℕ → ℕ) : List ℕ :=
  let name := ((List.range 8).map filename).takeWhile (· ≠ dummyChar8dot3)
  let ext := ((List.range 3).map fun i => filename (8 + i)).takeWhile (· ≠ dummyChar8dot3)
  name.map toLowerCase ++ if ext.isEmpty then [] else dotChar :: ext.map toLowerCase

def sfnSize : ℕ := 32

def sfnMarkDeleted : ℕ := 0xE5

def sfnMarkUnused : ℕ := 0x00

def sfnAttrWrite : ℕ := 0x00

def sfnAttrSystem : ℕ := 0x04

def sfnAttrLabel : ℕ := 0x08

def sfnAttrDir : ℕ := 0x10

def sfnAttrLfn : ℕ := 0x0F

def sfnAttr (data : ℕ → ℕ) (off : ℕ) : ℕ := data (off + 11)

def sfn1stclu (data : ℕ → ℕ) (off : ℕ) : ℕ :=
  (word data (off + 26) + word data (off + 20) <<< 16) % uintRange

def sfnFileSize (data : ℕ → ℕ) (off : ℕ) : ℕ := dword data (off + 28)

def putSfnFileSize (data : ℕ → ℕ) (off size : ℕ) : ℕ → ℕ := putDword data (off + 28) size

def sfnName (data : ℕ → ℕ) (off : ℕ) : List ℕ := convert8dot3ToNormal fun i => data (off + i)

def lookupSkips (attr : ℕ) : Bool := attr == sfnAttrLabel || attr == sfnAttrLfn

def scanSkips (attr : ℕ) : Bool :=
  attr == sfnAttrLfn || attr &&& sfnAttrLabel != 0 || attr &&& sfnAttrSystem != 0

def scanSfn (skips : ℕ → Bool) (test : List ℕ → Bool) (data : ℕ → ℕ) : List ℕ → Option ℕ
  | [] => none
  | off :: offs =>
    if data off = sfnMarkUnused then none
    else if data off = sfnMarkDeleted then scanSfn skips test data offs
    else if skips (sfnAttr data off) then scanSfn skips test data offs
    else if test (sfnName data off) then some off
    else scanSfn skips test data offs

def sfnOffsets (blocksize : ℕ) : List ℕ :=
  (List.range ((blocksize + (sfnSize - 1)) / sfnSize)).map (sfnSize * ·)

end OurOS.Fs
