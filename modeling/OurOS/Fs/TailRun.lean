import OurOS.Fs.ByteFileRun
import OurOS.Fs.ChainRun
import OurOS.Fs.Seek

namespace OurOS.Fs

def nodeBlksize (s : FsSys) (node : ℕ) : ℕ := (s.sbs (s.inodes node).iSb).sBlocksize

/-- The blocks of an inode hold its size, and all but the last are needed for it. -/
structure TailFits (s : FsSys) (node : ℕ) : Prop where
  blocks : (s.inodes node).iBlocks = (s.inodes node).iDataMap.length
  one_le : 0 < (s.inodes node).iBlocks
  blksize : nodeBlksize s node = 2 ^ (s.sbs (s.inodes node).iSb).sBlockbits
  bits : (s.sbs (s.inodes node).iSb).sBlockbits ≤ 30
  low : ((s.inodes node).iBlocks - 1) * nodeBlksize s node ≤ (s.inodes node).iSize
  high : (s.inodes node).iSize ≤ (s.inodes node).iBlocks * nodeBlksize s node
  lt : (s.inodes node).iSize < uintRange

/-- Nothing has happened to the size and the blocks of the inode, and what led to it still does. -/
structure SameTail (node : ℕ) (s t : FsSys) : Prop where
  iBlocks : (t.inodes node).iBlocks = (s.inodes node).iBlocks
  iDataMap : (t.inodes node).iDataMap = (s.inodes node).iDataMap
  iSize : (t.inodes node).iSize = (s.inodes node).iSize
  iSb : (t.inodes node).iSb = (s.inodes node).iSb
  blksize : ∀ sb, (t.sbs sb).sBlocksize = (s.sbs sb).sBlocksize
  bits : ∀ sb, (t.sbs sb).sBlockbits = (s.sbs sb).sBlockbits
  handle : ∀ fp, fileInode s fp = node → fileInode t fp = node

inductive TailOp (node : ℕ)
  | open (entry mode : ℕ)
  | seek (fp : ℕ) (flag : SeekFlag) (offset : ℕ)
  | read (fp len : ℕ)
  | write (fp : ℕ) (buf : List ℕ)
  | clear (parent : ℕ) (name : List ℕ)
  | rest (f : FsSys → FsSys) (same : ∀ s, SameTail node s (f s))

structure TailSys where
  sys : FsSys
  handles : List ℕ

/-- Calls may fail, and leave behind what they have done. `rest` is whatever else happens meanwhile,
the search for a parent that is not cached included. -/
def tailStep (env : FsEnv) (node : ℕ) (x : TailSys) : TailOp node → Option TailSys
  | .open entry mode =>
    if (x.sys.dentries entry).dInode = node ∧
        (hasMode mode fModeAppendMask ∨ hasMode mode fModeReadMask ∨
          (x.sys.dentries entry).dParent.isSome) then
      match dentryOpenFile env entry mode x.sys with
      | some (.ok fp, t) => some ⟨t, fp :: x.handles⟩
      | some (.error _, t) => some { x with sys := t }
      | none => none
    else none
  | .seek fp flag offset =>
    if fp ∈ x.handles then
      (fsSeek fp flag offset x.sys).map fun r => { x with sys := r.2 }
    else none
  | .read fp len =>
    if fp ∈ x.handles then (fsRead env fp len x.sys).map fun r => { x with sys := r.2 } else none
  | .write fp buf =>
    if fp ∈ x.handles then (fsWrite env fp buf x.sys).map fun r => { x with sys := r.2 } else none
  | .clear parent name =>
    (clearFat32 env node parent name x.sys).map fun r => { x with sys := r.2 }
  | .rest f _ => some { x with sys := f x.sys }

/-- A write past what its handle takes for the size ends in the last block or behind it, less than
`2 ^ 31` bytes behind, and where the blocks that it needs cannot be added, those that were leave no
more than a block without a byte of the file. -/
def keepsTail (env : FsEnv) (node : ℕ) (x : TailSys) : TailOp node → Prop
  | .write fp buf =>
    let n := (x.sys.inodes node).iBlocks
    let size := ((x.sys.files fp).fPos + buf.length) % uintRange
    hasMode (x.sys.files fp).fMode fModeWriteMask = true → (x.sys.files fp).fSize < size →
      (n - 1) * nodeBlksize x.sys node ≤ size ∧ size < n * nodeBlksize x.sys node + 2 ^ 31 ∧
        ∀ e t, expandFat32 env node (blocksFor size (nodeBlksize x.sys node) - n) x.sys =
            some (.error e, t) →
          ((t.inodes node).iBlocks - 1) * nodeBlksize x.sys node ≤ (x.sys.inodes node).iSize
  | _ => True

structure TailInv (node : ℕ) (x : TailSys) : Prop where
  fits : TailFits x.sys node
  handles : ∀ fp ∈ x.handles, fileInode x.sys fp = node

instance (node : ℕ) : Std.Refl (SameTail node) :=
  ⟨fun _ => ⟨rfl, rfl, rfl, rfl, fun _ => rfl, fun _ => rfl, fun _ h => h⟩⟩

instance (node : ℕ) : IsTrans FsSys (SameTail node) where
  trans _ _ _ h₁ h₂ :=
    ⟨h₂.iBlocks.trans h₁.iBlocks, h₂.iDataMap.trans h₁.iDataMap, h₂.iSize.trans h₁.iSize,
      h₂.iSb.trans h₁.iSb, fun sb => (h₂.blksize sb).trans (h₁.blksize sb),
      fun sb => (h₂.bits sb).trans (h₁.bits sb), fun fp h => h₂.handle fp (h₁.handle fp h)⟩

section Same

variable {env : FsEnv} {node : ℕ} {s t : FsSys} {x : TailSys}

namespace SameTail

theorem nodeBlksize (h : SameTail node s t) : nodeBlksize t node = nodeBlksize s node := by
  rw [OurOS.Fs.nodeBlksize, h.iSb, h.blksize]
  rfl

theorem fits (h : SameTail node s t) (hf : TailFits s node) : TailFits t node where
  blocks := by rw [h.iBlocks, h.iDataMap, hf.blocks]
  one_le := by rw [h.iBlocks]; exact hf.one_le
  blksize := by rw [h.nodeBlksize, h.iSb, h.bits, hf.blksize]
  bits := by rw [h.iSb, h.bits]; exact hf.bits
  low := by rw [h.iBlocks, h.nodeBlksize, h.iSize]; exact hf.low
  high := by rw [h.iBlocks, h.nodeBlksize, h.iSize]; exact hf.high
  lt := by rw [h.iSize]; exact hf.lt

theorem inv (h : SameTail node x.sys t) (hi : TailInv node x) :
    TailInv node { x with sys := t } :=
  ⟨h.fits hi.fits, fun fp hfp => h.handle fp (hi.handles fp hfp)⟩

theorem setFile (fp : ℕ) {f : File → File} (s : FsSys)
    (hf : ∀ x, (f x).fDentry = x.fDentry := by intro; rfl) : SameTail node s (s.setFile fp f) := by
  refine ⟨rfl, rfl, rfl, rfl, fun _ => rfl, fun _ => rfl, fun i hi => ?_⟩
  by_cases e : i = fp
  · subst e
    simpa [fileInode, FsSys.setFile, hf] using hi
  · simpa [fileInode, FsSys.setFile, e] using hi

theorem setCount (n : ℕ) (g : BitVec 32 → BitVec 32) (s : FsSys) (c : Fscache) : SameTail node s
    { s.setInode n fun i => { i with iCount := g i.iCount } with iCache := c } := by
  have h : ∀ i, (s.setInode n fun i => { i with iCount := g i.iCount }).inodes i =
      { s.inodes i with iCount := if i = n then g (s.inodes i).iCount else (s.inodes i).iCount } := by
    intro i
    by_cases e : i = n
    · subst e
      simp [FsSys.setInode]
    · simp [FsSys.setInode, e]
  refine ⟨?_, ?_, ?_, ?_, fun _ => rfl, fun _ => rfl, fun _ hi => hi⟩ <;> dsimp only <;> rw [h]

theorem of_same (h : SameObjects s t) : SameTail node s t :=
  ⟨by rw [h.inodes], by rw [h.inodes], by rw [h.inodes], by rw [h.inodes], fun sb => by rw [h.sbs],
    fun sb => by rw [h.sbs], fun fp hf => by rw [fileInode, h.files, h.dentries]; exact hf⟩

theorem frame : HandleFrame (SameTail node) where
  same _ _ := of_same
  paged _ _ _ _ _ := ⟨rfl, rfl, rfl, rfl, fun _ => rfl, fun _ => rfl, fun _ h => h⟩
  handle s fp _ hf := setFile fp s fun x => (hf x).1

end SameTail

section Clear

theorem truncated_fits (hf : TailFits s node) : TailFits (truncated node s) node ∧
    ∀ fp, fileInode (truncated node s) fp = fileInode s fp := by
  have hfree : ∀ (maps : List ℕ) (u : FsSys), (maps.foldl FsSys.kfree u).inodes = u.inodes ∧
      (maps.foldl FsSys.kfree u).sbs = u.sbs ∧ (maps.foldl FsSys.kfree u).dentries = u.dentries ∧
      (maps.foldl FsSys.kfree u).files = u.files := by
    intro maps
    induction maps with
    | nil => exact fun _ => ⟨rfl, rfl, rfl, rfl⟩
    | cons m maps ih => exact fun u => ih (u.kfree m)
  obtain ⟨hi, hsb, hd, hfile⟩ := hfree ((s.inodes node).iDataMap.drop 1) (s.setInode node fun n =>
    { n with iBlocks := 1, iSize := 0, iDataMap := (s.inodes node).iDataMap.take 1 })
  have hnode : (truncated node s).inodes node = { s.inodes node with
      iBlocks := 1, iSize := 0, iDataMap := (s.inodes node).iDataMap.take 1 } := by
    rw [truncated, hi]
    exact Function.update_self ..
  have hsbs : (truncated node s).sbs = s.sbs := hsb
  have hlen : 0 < (s.inodes node).iDataMap.length := hf.blocks ▸ hf.one_le
  refine ⟨⟨?_, ?_, ?_, ?_, ?_, ?_, ?_⟩, fun fp => ?_⟩
  · rw [hnode, List.length_take]
    exact (min_eq_left hlen).symm
  · rw [hnode]
    exact Nat.one_pos
  · rw [nodeBlksize, hnode, hsbs]
    exact hf.blksize
  · rw [hnode, hsbs]
    exact hf.bits
  · rw [hnode]
    simp
  · rw [hnode]
    exact Nat.zero_le _
  · rw [hnode]
    exact Nat.two_pow_pos 32
  · rw [fileInode, fileInode, truncated, hd, hfile]
    rfl

variable (hs : List ℕ)

def TailKept (node : ℕ) (hs : List ℕ) (s : FsSys) : Prop := TailInv node ⟨s, hs⟩

theorem tailKept_of_keeps {α : Type} {m : FsProg α} (h : Prog.Keeps (SameTail node) m) :
    Prog.Stays (TailKept node hs) m := fun s r t hi hr =>
  ⟨(h s r t hr).inv (x := ⟨s, hs⟩) hi, fun _ _ => trivial⟩

theorem clearSfn_tail (parent sb : ℕ) (name : List ℕ) :
    Prog.Stays (TailKept node hs) (clearSfn env node parent sb name) := by
  have hframe : HandleFrame (SameTail node) := SameTail.frame
  refine (tailKept_of_keeps hs (hframe.findSfn env _ _ _)).bind fun found _ => ?_
  have hend : ∀ r : Except ℕ Unit, Prog.Stays (TailKept node hs) (do
      Prog.modify (truncated node)
      Prog.ofExcept r : FsProg Unit) := by
    refine fun r => Prog.Ensures.bind (.modify fun u hu => ?_) fun _ _ =>
      .ofExcept fun _ _ => trivial
    obtain ⟨h1, h2⟩ := truncated_fits hu.fits
    exact ⟨h1, fun fp hfp => (h2 fp).trans (hu.handles fp hfp)⟩
  cases found with
  | none => exact hend (.ok ())
  | some r =>
    exact (tailKept_of_keeps hs (hframe.updateSfn env r.1 _).attempt).bind fun _ _ => hend _

theorem clearFat32_tail (parent : ℕ) (name : List ℕ) :
    Prog.Stays (TailKept node hs) (clearFat32 env node parent name) := by
  have hframe : HandleFrame (SameTail node) := SameTail.frame
  have hblocks : Prog.Stays (TailKept node hs) (clearBlocks env node parent name) := by
    refine Prog.Ensures.get.bind fun s _ => ?_
    refine (tailKept_of_keeps hs (hframe.of_same (readFat_keeps env _ _))).bind fun next _ => ?_
    have hrest : Prog.Stays (TailKept node hs) (do
        let minClu ← freeChain env (s.sbs (s.inodes node).iSb).infoFatSec uintRange next maxClu
        lowerNextClu env (s.inodes node).iSb minClu
        clearSfn env node parent (s.inodes node).iSb name : FsProg Unit) :=
      (tailKept_of_keeps hs (hframe.freeChain env _ _ _ _)).bind fun _ _ =>
        (tailKept_of_keeps hs (hframe.lowerNextClu env _ _)).bind fun _ _ =>
          clearSfn_tail hs parent _ name
    dsimp only
    split_ifs
    · exact (tailKept_of_keeps hs (hframe.of_same (writeFat_keeps env _ _ _))).bind fun _ _ => hrest
    · exact hrest
  refine (tailKept_of_keeps hs (.modify fun s => .setCount node (· + 1) s _)).bind fun _ _ => ?_
  refine hblocks.attempt.bind fun r _ => ?_
  exact (tailKept_of_keeps hs (.modify fun s => .setCount node (· - 1) s _)).bind fun _ _ =>
    .ofExcept fun _ _ => trivial

end Clear

section Open

variable {entry mode : ℕ}

theorem openHandle_tail {r : Except ℕ ℕ} (hentry : (s.dentries entry).dInode = node)
    (h : openHandle env entry mode s = some (r, t)) : SameTail node s t ∧
      (t.dentries entry).dParent = (s.dentries entry).dParent ∧
      (t.dentries entry).dInode = node ∧ ∀ fp, r = .ok fp → fileInode t fp = node := by
  rcases openHandle_cases h with ⟨rfl, rfl⟩ | ⟨rfl, rfl⟩
  · exact ⟨⟨rfl, rfl, rfl, rfl, fun _ => rfl, fun _ => rfl, fun _ h => h⟩, rfl, hentry,
      fun _ h => by cases h⟩
  · have hd : ∀ d, ((dIncCount entry (grabbed s)).dentries d).dInode = (s.dentries d).dInode ∧
        ((dIncCount entry (grabbed s)).dentries d).dParent = (s.dentries d).dParent := by
      intro d
      by_cases e : d = entry
      · subst e
        simp [dIncCount, grabbed, FsSys.setDentry]
      · simp [dIncCount, grabbed, FsSys.setDentry, e]
    have hfile : ∀ fp, fileInode ((dIncCount entry (grabbed s)).setFile s.brk fun _ =>
        newFile (dIncCount entry (grabbed s)) entry mode) fp =
        if fp = s.brk then node else fileInode s fp := by
      intro fp
      by_cases e : fp = s.brk
      · simp only [fileInode, FsSys.setFile, e, Function.update_self, if_true, newFile]
        exact (hd entry).1.trans hentry
      · simp only [fileInode, FsSys.setFile, Function.update_of_ne e, if_neg e]
        exact (hd _).1
    refine ⟨⟨rfl, rfl, rfl, rfl, fun _ => rfl, fun _ => rfl, fun fp hf => ?_⟩, (hd entry).2,
      (hd entry).1.trans hentry, fun fp h => ?_⟩
    · rw [hfile]
      split_ifs
      exacts [rfl, hf]
    · cases h
      rw [hfile, if_pos rfl]

theorem atEnd_tail (fp entry : ℕ) (s : FsSys) : SameTail node s (atEnd fp entry s) := by
  dsimp only [atEnd]
  exact .setFile fp s

end Open

theorem dentryOpenFile_tail {entry mode : ℕ} {hs : List ℕ} {r : Except ℕ ℕ}
    (hi : TailInv node ⟨s, hs⟩) (hentry : (s.dentries entry).dInode = node)
    (hmode : hasMode mode fModeAppendMask ∨ hasMode mode fModeReadMask ∨
      (s.dentries entry).dParent.isSome) (h : dentryOpenFile env entry mode s = some (r, t)) :
    TailInv node ⟨t, hs⟩ ∧ ∀ fp, r = .ok fp → fileInode t fp = node := by
  rw [dentryOpenFile] at h
  rcases Prog.bind_cases h with ⟨ret, u, h1, h⟩ | ⟨e, h1, rfl⟩
  · obtain ⟨hsame, hparent, hnode, hret⟩ := openHandle_tail hentry h1
    have hu : TailInv node ⟨u, hs⟩ := hsame.inv hi
    have hfile : ∀ {v : FsSys}, TailInv node ⟨v, ret :: hs⟩ →
        TailInv node ⟨v, hs⟩ ∧ ∀ fp, (.ok ret : Except ℕ ℕ) = .ok fp → fileInode v fp = node := by
      refine fun hv => ⟨⟨hv.fits, fun fp hfp => hv.handles fp (List.mem_cons_of_mem _ hfp)⟩,
        fun fp hfp => ?_⟩
      cases hfp
      exact hv.handles ret List.mem_cons_self
    have hopen : TailInv node ⟨u, ret :: hs⟩ := by
      refine ⟨hu.fits, fun fp hfp => ?_⟩
      rcases List.mem_cons.mp hfp with rfl | hfp
      exacts [hret _ rfl, hu.handles fp hfp]
    by_cases happ : hasMode mode fModeAppendMask = true
    · simp only [happ, if_true] at h
      cases h
      exact hfile ((atEnd_tail ret entry u).inv hopen)
    · by_cases hread : hasMode mode fModeReadMask = true
      · simp only [happ, hread, Bool.not_true, Bool.false_eq_true, if_false] at h
        cases h
        exact hfile hopen
      · obtain ⟨p, hp⟩ := Option.isSome_iff_exists.mp ((hmode.resolve_left happ).resolve_left hread)
        rw [hp] at hparent
        have hfollow : follow (getDentryParent env entry) u = some (.ok p, u) := by
          rw [follow, Prog.bind_ok (Prog.attempt_run (r := .ok p) (t := u)
            (by rw [getDentryParent, Prog.get_bind_run, hparent]; rfl))]
          rfl
        simp only [happ, hread, Bool.not_false, Bool.false_eq_true, if_false, if_true] at h
        rw [Prog.bind_ok hfollow, Prog.get_bind_run] at h
        obtain ⟨c, v, h2, h⟩ : ∃ c v, Prog.attempt (clearFat32 env (u.dentries entry).dInode p
            (u.dentries entry).dName) u = some (.ok c, v) ∧ _ = some (r, t) := by
          rcases Prog.bind_cases h with h | ⟨e, h2, -⟩
          · exact h
          · obtain ⟨_, he, -⟩ := Prog.attempt_cases h2
            cases he
        obtain ⟨_, hc, h2⟩ := Prog.attempt_cases h2
        rw [hnode] at h2
        cases h
        have hv := (clearFat32_tail (ret :: hs) p _ _ _ _ hopen h2).1
        exact hfile ((SameTail.setFile ret v).inv hv)
  · exact ⟨(openHandle_tail hentry h1).1.inv hi, fun _ h => by cases h⟩

theorem TailFits.blksize_pos (hf : TailFits s node) : 0 < nodeBlksize s node := by
  rw [hf.blksize]
  exact Nat.two_pow_pos _

theorem TailFits.blksize_le (hf : TailFits s node) : nodeBlksize s node ≤ 2 ^ 30 := by
  rw [hf.blksize]
  exact Nat.pow_le_pow_right two_pos hf.bits

theorem expandBytes_word {fp size : ℕ} (hsize : (s.files fp).fSize ≤ size) (hlt : size < uintRange) :
    expandBytes s fp size = subWord size ((s.inodes (fileInode s fp)).iBlocks *
      nodeBlksize s (fileInode s fp) % uintRange) := by
  rw [expandBytes, fileLastBlkRemain, ← nodeBlksize]
  generalize (s.inodes (fileInode s fp)).iBlocks * nodeBlksize s (fileInode s fp) = room
  have hr := Nat.mod_lt room (show 0 < uintRange by decide)
  simp only [subWord]
  rw [uintRange] at hr hlt ⊢
  omega

theorem Grown.tail {new : List ℕ} (h : Grown node s t new) : nodeBlksize t node = nodeBlksize s node ∧
    (t.inodes node).iSb = (s.inodes node).iSb ∧ (t.inodes node).iSize = (s.inodes node).iSize ∧
    (t.sbs (t.inodes node).iSb).sBlockbits = (s.sbs (s.inodes node).iSb).sBlockbits ∧
    ∀ fp, fileInode t fp = fileInode s fp := by
  have hsb : (t.inodes node).iSb = (s.inodes node).iSb := by rw [h.inode]
  refine ⟨by rw [nodeBlksize, hsb, h.sbs]; rfl, hsb, by rw [h.inode], by rw [hsb, h.sbs], fun fp => ?_⟩
  rw [fileInode, fileInode, h.files, h.dentries]

theorem Grown.fits {u : FsSys} {new : List ℕ} {size : ℕ} (h : Grown node s t new)
    (hf : TailFits s node) (hu : u.inodes node = { t.inodes node with iSize := size })
    (hsbs : u.sbs = t.sbs)
    (hlow : ((s.inodes node).iBlocks + new.length - 1) * nodeBlksize s node ≤ size)
    (hhigh : size ≤ ((s.inodes node).iBlocks + new.length) * nodeBlksize s node)
    (hlt : size < uintRange) : TailFits u node := by
  obtain ⟨hblk, hsb, -, hbits, -⟩ := h.tail
  have hblk' : nodeBlksize u node = nodeBlksize s node := by
    rw [← hblk, nodeBlksize, hu, hsbs]
    rfl
  have hblocks := h.blocks
  have hsome := hf.one_le
  refine ⟨?_, ?_, ?_, ?_, ?_, ?_, ?_⟩
  · rw [hu]
    dsimp only
    rw [hblocks, h.dataMap, List.length_append, hf.blocks]
  · rw [hu]
    dsimp only
    omega
  · rw [hblk', hu, hsbs]
    exact hf.blksize.trans (congrArg _ hbits.symm)
  · rw [hu, hsbs]
    exact hbits.trans_le hf.bits
  · rw [hblk', hu]
    dsimp only
    rw [hblocks]
    exact hlow
  · rw [hblk', hu]
    dsimp only
    rw [hblocks]
    exact hhigh
  · rw [hu]
    exact hlt

theorem sizedTo_inode (node fp size : ℕ) (s : FsSys) :
    (sizedTo node fp size s).inodes node = { s.inodes node with iSize := size } := by
  simp [sizedTo, FsSys.setInode, FsSys.setFile]

theorem sizedTo_fileInode (node fp size : ℕ) (s : FsSys) (g : ℕ) :
    fileInode (sizedTo node fp size s) g = fileInode s g := by
  rw [fileInode, (sizedTo_file node fp size s g).2]
  rfl

theorem expand_amount {room blk size : ℕ} (hblk : blk ≤ 2 ^ 30) (hlow : room ≤ size + blk)
    (hhigh : size < room + 2 ^ 31) :
    (0 < subWord size (room % uintRange) ∧ subWord size (room % uintRange) < 2 ^ 31 ↔ room < size) ∧
      (room < size → subWord size (room % uintRange) = size - room) := by
  simp only [subWord, uintRange]
  omega

theorem fileExpandTo_tail {fp size : ℕ} {r : Except ℕ Unit} (hf : TailFits s node)
    (hnode : fileInode s fp = node) (hsize : (s.files fp).fSize < size) (hlt : size < uintRange)
    (hlow : ((s.inodes node).iBlocks - 1) * nodeBlksize s node ≤ size)
    (hhigh : size < (s.inodes node).iBlocks * nodeBlksize s node + 2 ^ 31)
    (hfail : ∀ e u, expandFat32 env node
        (blocksFor size (nodeBlksize s node) - (s.inodes node).iBlocks) s = some (.error e, u) →
      ((u.inodes node).iBlocks - 1) * nodeBlksize s node ≤ (s.inodes node).iSize)
    (h : fileExpandTo env fp size s = some (r, t)) :
    TailFits t node ∧ ∀ g, fileInode t g = fileInode s g := by
  have hpos := hf.blksize_pos
  have hsome := hf.one_le
  have hle : (s.inodes node).iBlocks * nodeBlksize s node ≤ size + nodeBlksize s node := by
    rw [Nat.sub_mul, one_mul] at hlow
    omega
  obtain ⟨hgrow, hamount⟩ := expand_amount hf.blksize_le hle hhigh
  rw [fileExpandTo, Prog.get_bind_run, if_neg hsize.not_ge, hnode,
    expandBytes_word hsize.le hlt, hnode] at h
  by_cases hmore : (s.inodes node).iBlocks * nodeBlksize s node < size
  · have hblks : expandBlks (s.sbs (s.inodes node).iSb) (size -
        (s.inodes node).iBlocks * nodeBlksize s node) =
          blocksFor size (nodeBlksize s node) - (s.inodes node).iBlocks := by
      have hle31 := hf.blksize_le
      have hword : uintRange = 2 ^ 31 + 2 ^ 31 := by decide
      have hfit : size - (s.inodes node).iBlocks * nodeBlksize s node + nodeBlksize s node ≤
          uintRange := by omega
      exact (expandBlks_eq hf.blksize hf.bits hfit).trans (blocksFor_sub hpos hmore.le)
    have hn : (s.inodes node).iBlocks < blocksFor size (nodeBlksize s node) := by
      by_contra hge
      have hcover : size ≤ _ := le_blocksFor_mul hpos
      exact absurd hcover (Nat.not_le_of_lt (hmore.trans_le'
        (Nat.mul_le_mul_right _ (Nat.le_of_not_lt hge))))
    have hsmall : (s.inodes node).iBlocks + (blocksFor size (nodeBlksize s node) -
        (s.inodes node).iBlocks) < uintRange := by
      have := blocksFor_le hpos (Nat.le_mul_of_pos_right size hpos)
      omega
    rw [if_pos (hgrow.mpr hmore), hamount hmore, hblks] at h
    rcases Prog.bind_cases h with ⟨_, u, h1, h⟩ | ⟨e, h1, rfl⟩
    · obtain ⟨new, g, -, hlen⟩ := expandFat32_grown hsmall h1
      have hsum : (s.inodes node).iBlocks + new.length = blocksFor size (nodeBlksize s node) := by
        rw [hlen rfl]
        omega
      cases h
      refine ⟨g.fits hf (sizedTo_inode node fp size u) rfl ?_ ?_ hlt, fun i => ?_⟩
      · rw [hsum]
        exact (blocksFor_pred_mul_lt hpos (by omega)).le
      · rw [hsum]
        exact le_blocksFor_mul hpos
      · exact (sizedTo_fileInode node fp size u i).trans (g.tail.2.2.2.2 i)
    · obtain ⟨new, g, -, -⟩ := expandFat32_grown hsmall h1
      have hbad := hfail e t h1
      rw [g.blocks] at hbad
      refine ⟨g.fits hf ?_ rfl hbad (hf.high.trans ?_) hf.lt, g.tail.2.2.2.2⟩
      · rw [← g.tail.2.2.1]
      · exact Nat.mul_le_mul_right _ (Nat.le_add_right _ _)
  · rw [if_neg fun h => hmore (hgrow.mp h)] at h
    cases h
    have g := (refl s : SameObjects s s).grown node
    refine ⟨g.fits hf (sizedTo_inode node fp size s) rfl ?_ ?_ hlt, sizedTo_fileInode node fp size s⟩
    · simpa using hlow
    · simpa using Nat.le_of_not_lt hmore

theorem fsWrite_parts {R : FsSys → FsSys → Prop} [Std.Refl R] [IsTrans FsSys R] (hR : HandleFrame R)
    {fp : ℕ} {buf : List ℕ} {r : Except ℕ Unit} (h : fsWrite env fp buf s = some (r, t)) :
    R s t ∨ hasMode (s.files fp).fMode fModeWriteMask = true ∧
      (s.files fp).fSize < ((s.files fp).fPos + buf.length) % uintRange ∧
      ∃ r' u, fileExpandTo env fp (((s.files fp).fPos + buf.length) % uintRange) s = some (r', u) ∧
        R u t := by
  rcases fsWrite_inv h with ⟨-, -, rfl⟩ | ⟨hmode, hsize, e, rfl, hexp⟩ | ⟨u, hw, hr⟩
  · exact .inl (refl _)
  · exact .inr ⟨hmode, hsize, _, t, hexp, refl t⟩
  · have hrest := hR.writeRest env _ _ _ _ _ _ hr
    rcases hw.expand with ⟨hsize, hexp⟩ | ⟨-, rfl⟩
    · exact .inr ⟨hw.mode, hsize, _, u, hexp, hrest⟩
    · exact .inl hrest

theorem tailStep_inv {op : TailOp node} {y : TailSys} (hi : TailInv node x)
    (hc : keepsTail env node x op) (hs : tailStep env node x op = some y) : TailInv node y := by
  have hframe : HandleFrame (SameTail node) := SameTail.frame
  cases op with
  | «open» entry mode =>
    simp only [tailStep] at hs
    split_ifs at hs with hmode
    split at hs
    · rename_i fp t hopen
      cases hs
      obtain ⟨h1, h2⟩ := dentryOpenFile_tail hi hmode.1 hmode.2 hopen
      refine ⟨h1.fits, fun g hg => ?_⟩
      rcases List.mem_cons.mp hg with rfl | hg
      exacts [h2 _ rfl, h1.handles g hg]
    · rename_i e t hopen
      cases hs
      exact (dentryOpenFile_tail hi hmode.1 hmode.2 hopen).1
    · cases hs
  | seek fp flag offset =>
    simp only [tailStep] at hs
    split_ifs at hs
    obtain ⟨⟨r, t⟩, hrun, rfl⟩ := Option.map_eq_some_iff.mp hs
    have hkeeps : Prog.Keeps (SameTail node) (fsSeek fp flag offset) :=
      .bind .get fun _ => .modify fun s => .setFile fp s
    exact (hkeeps _ _ _ hrun).inv hi
  | read fp len =>
    simp only [tailStep] at hs
    split_ifs at hs
    obtain ⟨⟨r, t⟩, hrun, rfl⟩ := Option.map_eq_some_iff.mp hs
    exact (hframe.fsRead env fp len _ _ _ hrun).inv hi
  | write fp buf =>
    simp only [tailStep] at hs
    split_ifs at hs with hfp
    obtain ⟨⟨r, t⟩, hrun, rfl⟩ := Option.map_eq_some_iff.mp hs
    rcases fsWrite_parts hframe hrun with h | ⟨hmode, hsize, r', u, h1, h⟩
    · exact h.inv hi
    · obtain ⟨hlow, hhigh, hfail⟩ := hc hmode hsize
      obtain ⟨hu, hnode⟩ := fileExpandTo_tail hi.fits (hi.handles fp hfp) hsize
        (Nat.mod_lt _ (by decide)) hlow hhigh hfail h1
      have hinv : TailInv node ⟨u, x.handles⟩ :=
        ⟨hu, fun g hg => (hnode g).trans (hi.handles g hg)⟩
      exact h.inv (x := ⟨u, x.handles⟩) hinv
  | clear parent name =>
    obtain ⟨⟨r, t⟩, hrun, rfl⟩ := Option.map_eq_some_iff.mp hs
    exact (clearFat32_tail x.handles parent name _ _ _ hi hrun).1
  | rest f hf =>
    cases hs
    exact (hf x.sys).inv hi

/-- What `dentry_open_file` is to return in append mode. -/
structure OpenedAtEnd (t : FsSys) (node fp : ℕ) : Prop where
  atEnd : (t.files fp).fPos = (t.files fp).fSize
  size : (t.files fp).fSize = (t.inodes node).iSize
  positioned : Positioned t fp

theorem atEnd_off {room blk size : ℕ} (hlow : room ≤ size + blk) (hhigh : size ≤ room)
    (hblk : blk < uintRange) (hlt : size < uintRange) :
    subWord blk (subWord (room % uintRange) size) = size + blk - room := by
  simp only [subWord]
  rw [uintRange] at hblk hlt ⊢
  omega

theorem TailFits.opened {entry mode fp : ℕ} (hf : TailFits s node)
    (hentry : (s.dentries entry).dInode = node) (hsb : (s.dentries entry).dSb = (s.inodes node).iSb)
    (happ : hasMode mode fModeAppendMask = true)
    (h : dentryOpenFile env entry mode s = some (.ok fp, t)) : OpenedAtEnd t node fp := by
  obtain ⟨ret, u, h1, h⟩ := Prog.bind_ok_cases h
  simp only [happ, if_true] at h
  cases h
  obtain ⟨hsame, -, hnode, hret⟩ := openHandle_tail hentry h1
  have hu := hsame.fits hf
  have hblk := hsame.nodeBlksize
  rcases openHandle_cases h1 with ⟨hr, -⟩ | ⟨hr, rfl⟩
  · cases hr
  · cases hr
    set u := (dIncCount entry (grabbed s)).setFile s.brk fun _ =>
      newFile (dIncCount entry (grabbed s)) entry mode with hudef
    have hsize : (u.files s.brk).fSize = (u.inodes node).iSize := by
      rw [← hnode, hudef]
      simp [FsSys.setFile, newFile]
    have hmap : (u.files s.brk).fDataMap = node := by
      rw [← hnode, hudef]
      simp [FsSys.setFile, newFile]
    have hdentry : (u.files s.brk).fDentry = entry := by
      rw [hudef]
      simp [FsSys.setFile, newFile]
    have hdsb : (u.dentries entry).dSb = (u.inodes node).iSb := by
      rw [hsame.iSb, ← hsb, hudef]
      simp [FsSys.setFile, dIncCount, grabbed, FsSys.setDentry]
    have hfile : (atEnd s.brk entry u).files s.brk = { u.files s.brk with
        fPos := (u.files s.brk).fSize
        fCurOff := subWord (u.sbs (u.dentries entry).dSb).sBlocksize (fileLastBlkRemain u s.brk)
        fCurMap := (dirMaps u entry).getLast? } := Function.update_self ..
    have hmaps : fileMaps (atEnd s.brk entry u) s.brk = (u.inodes node).iDataMap := by
      rw [fileMaps, hfile]
      exact congrArg (fun n => (u.inodes n).iDataMap) hmap
    have hbs : fileBlksize (atEnd s.brk entry u) s.brk = nodeBlksize u node := by
      rw [fileBlksize, fileSb, hfile]
      change (u.sbs (u.dentries (u.files s.brk).fDentry).dSb).sBlocksize = _
      rw [hdentry, hdsb]
      rfl
    have hoff : ((atEnd s.brk entry u).files s.brk).fCurOff =
        (u.inodes node).iSize + nodeBlksize u node - (u.inodes node).iBlocks * nodeBlksize u node := by
      rw [hfile]
      dsimp only
      rw [hdsb, fileLastBlkRemain, hret _ rfl, hsize]
      have hlow := hu.low
      rw [Nat.sub_mul, one_mul] at hlow
      have hend : (u.inodes node).iBlocks * nodeBlksize u node ≤
          (u.inodes node).iSize + nodeBlksize u node := by omega
      exact atEnd_off hend hu.high (hu.blksize_le.trans_lt (by decide)) hu.lt
    have hlast : (u.inodes node).iDataMap ≠ [] := by
      rw [← List.length_pos_iff, ← hu.blocks]
      exact hu.one_le
    have hlow := hu.low
    have hhigh := hu.high
    have hone := hu.one_le
    rw [Nat.sub_mul, one_mul] at hlow
    have hpos : (u.inodes node).iSize = ((u.inodes node).iBlocks - 1) * nodeBlksize u node +
        ((u.inodes node).iSize + nodeBlksize u node -
          (u.inodes node).iBlocks * nodeBlksize u node) := by
      have hge : nodeBlksize u node ≤ (u.inodes node).iBlocks * nodeBlksize u node :=
        Nat.le_mul_of_pos_left _ hone
      rw [Nat.sub_mul, one_mul]
      omega
    refine ⟨by rw [hfile], by rw [hfile]; exact hsize, ⟨?_, ?_, ?_, ?_, ?_, ?_⟩⟩
    · refine ⟨(u.inodes node).iBlocks - 1, (u.inodes node).iDataMap.getLast hlast, ?_, ?_, ?_⟩
      · rw [hmaps, hu.blocks, List.getElem?_eq_getElem
          (Nat.sub_lt (List.length_pos_iff.mpr hlast) Nat.one_pos), List.getLast_eq_getElem]
      · rw [hfile]
        dsimp only
        rw [dirMaps, hnode, List.getLast?_eq_some_getLast hlast]
      · rw [hbs, hoff, ← hpos, hfile]
        exact hsize
    · rw [hbs, hoff]
      omega
    · rw [hfile]
    · rw [hfile]
      exact hsize.trans_lt hu.lt
    · rw [hbs]
      exact hu.blksize_pos
    · rw [hbs]
      exact hu.blksize_le.trans_lt (by decide)

theorem tailRun_opensAtEnd {ops : List (TailOp node)} {x : TailSys} (hf : TailFits s node)
    (hc : RunMeets (tailStep env node) (keepsTail env node) ⟨s, []⟩ ops)
    (hr : runOps (tailStep env node) ⟨s, []⟩ ops = some x) {entry mode fp : ℕ}
    (hentry : (x.sys.dentries entry).dInode = node)
    (hsb : (x.sys.dentries entry).dSb = (x.sys.inodes node).iSb)
    (happ : hasMode mode fModeAppendMask = true)
    (ho : dentryOpenFile env entry mode x.sys = some (.ok fp, t)) : OpenedAtEnd t node fp := by
  have hi := runOps_invariant_of_meets (P := TailInv node) (fun _ _ _ hi hc hs => tailStep_inv hi hc hs)
    ⟨hf, fun _ h => absurd h List.not_mem_nil⟩ hc hr
  exact hi.fits.opened hentry hsb happ ho

end Same

theorem smallVolume_tail : TailFits (smallVolume freshTable 3) 0 :=
  ⟨rfl, by decide, rfl, by decide, by decide, by decide, by decide⟩

theorem appendRun_isSome : (runOps (tailStep soundEnv 0) ⟨smallVolume freshTable 3, []⟩
    [.open 0 3, .write 10 [1, 2, 3]]).isSome = true := by
  decide +kernel

theorem appendRun_meets : RunMeets (tailStep soundEnv 0) (keepsTail soundEnv 0)
    ⟨smallVolume freshTable 3, []⟩ [.open 0 3, .write 10 [1, 2, 3]] := by
  refine ⟨trivial, fun y hy => ⟨fun _ _ => ?_, fun _ _ => trivial⟩⟩
  have hwrite : ∀ y ∈ tailStep soundEnv 0 ⟨smallVolume freshTable 3, []⟩ (.open 0 3),
      (y.sys.inodes 0).iBlocks = 1 ∧ nodeBlksize y.sys 0 = 4096 ∧
        ((y.sys.files 10).fPos + [1, 2, 3].length) % uintRange = 3 ∧
        (expandFat32 soundEnv 0 (blocksFor 3 4096 - 1) y.sys).any (fun r => r.1.isOk) = true := by
    decide +kernel
  obtain ⟨h1, h2, h3, h4⟩ := hwrite y hy
  rw [h1, h2, h3]
  refine ⟨by decide, by decide, fun e t hfail => ?_⟩
  rw [hfail] at h4
  exact absurd h4 (by simp [Except.isOk, Except.toBool])

theorem tailRun_opensAtEnd_small : ∃ x fp t,
    runOps (tailStep soundEnv 0) ⟨smallVolume freshTable 3, []⟩
      [.open 0 3, .write 10 [1, 2, 3]] = some x ∧
    dentryOpenFile soundEnv 0 fModeAppend x.sys = some (.ok fp, t) ∧ OpenedAtEnd t 0 fp := by
  obtain ⟨x, hx⟩ := Option.isSome_iff_exists.mp appendRun_isSome
  have hopen : ∀ x ∈ runOps (tailStep soundEnv 0) ⟨smallVolume freshTable 3, []⟩
      [.open 0 3, .write 10 [1, 2, 3]], (x.sys.dentries 0).dInode = 0 ∧
        (x.sys.dentries 0).dSb = (x.sys.inodes 0).iSb ∧
        (dentryOpenFile soundEnv 0 fModeAppend x.sys).any (fun r => r.1.isOk) = true := by
    decide +kernel
  obtain ⟨h1, h2, h3⟩ := hopen x hx
  obtain ⟨⟨r, t⟩, ho, hok⟩ := (Option.any_eq_true _ _).mp h3
  cases r with
  | error e => exact absurd hok (by simp [Except.isOk, Except.toBool])
  | ok fp =>
    exact ⟨x, fp, t, hx, ho, tailRun_opensAtEnd smallVolume_tail appendRun_meets hx h1 h2
      (by decide) ho⟩

theorem staleRun_isSome : (runOps (tailStep soundEnv 0) ⟨smallVolume freshTable 3, []⟩
    [.open 0 3, .open 0 3, .write 10 (List.replicate 4097 0), .write 11 [1]]).isSome = true := by
  decide +kernel

/-- Two blocks are left for a single byte, and the offset in the last of them is negative. -/
theorem staleRun_off : ∀ x ∈ runOps (tailStep soundEnv 0) ⟨smallVolume freshTable 3, []⟩
    [.open 0 3, .open 0 3, .write 10 (List.replicate 4097 0), .write 11 [1]],
      (x.sys.dentries 0).dInode = 0 ∧ (x.sys.dentries 0).dSb = (x.sys.inodes 0).iSb ∧
      (dentryOpenFile soundEnv 0 fModeAppend x.sys).any (fun r => match r.1 with
        | .ok fp => fileBlksize r.2 fp < (r.2.files fp).fCurOff
        | .error _ => false) = true := by
  decide +kernel

theorem tailRun_not_atEnd :
    ¬ ∀ (env : FsEnv) (node : ℕ) (s : FsSys) (ops : List (TailOp node)) (x : TailSys)
      (entry fp : ℕ) (t : FsSys), TailFits s node →
      runOps (tailStep env node) ⟨s, []⟩ ops = some x →
      (x.sys.dentries entry).dInode = node → (x.sys.dentries entry).dSb = (x.sys.inodes node).iSb →
      dentryOpenFile env entry fModeAppend x.sys = some (.ok fp, t) → OpenedAtEnd t node fp := by
  intro h
  obtain ⟨x, hx⟩ := Option.isSome_iff_exists.mp staleRun_isSome
  obtain ⟨h1, h2, h3⟩ := staleRun_off x hx
  obtain ⟨⟨r, t⟩, ho, hoff⟩ := (Option.any_eq_true _ _).mp h3
  cases r with
  | error e => exact absurd hoff (by simp)
  | ok fp =>
    have hat := h soundEnv 0 _ _ x 0 fp t smallVolume_tail hx h1 h2 ho
    exact absurd hat.positioned.off_le (Nat.not_le_of_lt (of_decide_eq_true hoff))

end OurOS.Fs
