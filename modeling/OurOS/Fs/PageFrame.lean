import OurOS.Fs.Directory
import OurOS.Fs.FatSpec
import OurOS.Fs.ReadWriteSpec

namespace OurOS.Fs

/-- A relation that accesses to the table, allocations and changes of maps and pages keep. -/
structure PageFrame (R : FsSys → FsSys → Prop) : Prop where
  same : ∀ s t, SameObjects s t → R s t
  paged : ∀ s maps pages pCache live,
    R s { s with maps := maps, pages := pages, pCache := pCache, live := live }

/-- A relation that transfers keep, too. -/
structure FileFrame (R : FsSys → FsSys → Prop) : Prop extends PageFrame R where
  handle : ∀ (s : FsSys) fp f, (∀ x, (f x).fDentry = x.fDentry ∧ (f x).fSize = x.fSize) →
    R s (s.setFile fp f)
  block : ∀ s node map b clu, R s (appendBlock node map b clu s)
  count : ∀ (s : FsSys) node (g : BitVec 32 → BitVec 32), R s
    { s.setInode node fun n => { n with iCount := g n.iCount } with iCache := s.iCache.touch node }

/-- A relation that transfers keep which add no block. -/
structure HandleFrame (R : FsSys → FsSys → Prop) : Prop extends PageFrame R where
  handle : ∀ (s : FsSys) fp f, (∀ x, (f x).fDentry = x.fDentry ∧ (f x).fSize = x.fSize) →
    R s (s.setFile fp f)

variable {R : FsSys → FsSys → Prop} [Std.Refl R] [IsTrans FsSys R] (env : FsEnv)

namespace PageFrame

variable (h : PageFrame R)

include h

omit [Std.Refl R] [IsTrans FsSys R] in
theorem of_same {α : Type} {m : FsProg α} (hm : Prog.Keeps SameObjects m) : Prog.Keeps R m :=
  hm.mono h.same

omit [Std.Refl R] [IsTrans FsSys R] in
theorem modify {f : FsSys → FsSys} (hf : ∀ s, f s = { s with
    maps := (f s).maps, pages := (f s).pages, pCache := (f s).pCache, live := (f s).live }
      := by intro; rfl) : Prog.Keeps R (Prog.modify f : FsProg Unit) :=
  .modify fun s => by
    rw [hf]
    exact h.paged _ _ _ _ _

theorem flushFspage (page : Option (Except ℕ ℕ)) : Prog.Keeps R (flushFspage env page) := by
  refine .bind .get fun s => ?_
  cases page with
  | none => exact .pure _
  | some r =>
    cases r with
    | error e => exact .stuck
    | ok p =>
      dsimp only
      split_ifs
      · refine .bind (h.of_same (sdWriteBlock_keeps env _ _ _)) fun ok => ?_
        cases ok with
        | true => exact h.modify
        | false => exact .throw _
      · exact .pure _

theorem flushPages (n : ℕ) (pages : List ℕ) : Prog.Keeps R (flushPages env n pages) := by
  induction n generalizing pages with
  | zero => exact .pure _
  | succ n ih =>
    cases pages with
    | nil => exact .stuck
    | cons page pages =>
      refine .bind (h.flushFspage env _).attempt fun r => ?_
      cases r with
      | error e => exact .pure _
      | ok _ => exact .bind h.modify fun _ => ih pages

theorem flushPCache : Prog.Keeps R (flushPCache env) :=
  .bind .get fun _ => h.flushPages env _ _

theorem pCacheRoom : Prog.Keeps R (pCacheRoom env) := by
  refine .bind .get fun s => ?_
  split_ifs
  · exact h.flushPCache env
  · exact .pure _

theorem allocFspage (baseSec blkSize : ℕ) : Prog.Keeps R (allocFspage env baseSec blkSize) := by
  refine .bind (h.of_same (kmalloc_keeps env)) fun page => ?_
  cases page with
  | none => exact .throw _
  | some page =>
    refine .bind (h.of_same (kmalloc_keeps env)) fun data => ?_
    cases data with
    | none => exact .bind h.modify fun _ => .throw _
    | some _ =>
      refine .bind (h.of_same (sdReadBlock_keeps env _ _)) fun data => ?_
      cases data with
      | some data =>
        refine .bind h.modify fun _ => .bind (h.pCacheRoom env) fun room => ?_
        cases room with
        | true => exact .bind h.modify fun _ => .pure _
        | false => exact .throw _
      | none =>
        refine .bind h.modify fun _ => .bind (h.pCacheRoom env) fun room => ?_
        cases room with
        | true => exact .stuck
        | false => exact .throw _

theorem getFspage (map blksize : ℕ) : Prog.Keeps R (getFspage env map blksize) := by
  refine .bind .get fun s => ?_
  split
  · exact .ofExcept _
  · exact .bind (h.allocFspage env _ _).attempt fun r => .bind h.modify fun _ => .ofExcept _

theorem mustGetFspage (map blksize : ℕ) : Prog.Keeps R (mustGetFspage env map blksize) := by
  refine .bind (h.getFspage env _ _).attempt fun r => ?_
  cases r with
  | ok page => exact .pure _
  | error e => exact .stuck

theorem scanDir (skips : ℕ → Bool) (test : List ℕ → Bool) (blksize : ℕ) (maps : List ℕ) :
    Prog.Keeps R (scanDir env skips test blksize maps) := by
  induction maps with
  | nil => exact .pure _
  | cons map maps ih =>
    refine .bind (h.getFspage env _ _) fun page => .bind .get fun s => ?_
    split
    · exact .pure _
    · exact ih

theorem findSfn (parent sb : ℕ) (name : List ℕ) : Prog.Keeps R (findSfn env parent sb name) :=
  .bind .get fun _ => h.scanDir env _ _ _ _

theorem lookupSfn (parent : ℕ) (name : List ℕ) : Prog.Keeps R (lookupSfn env parent name) :=
  .bind .get fun _ => h.scanDir env _ _ _ _

theorem updateSfn (page : ℕ) (f : (ℕ → ℕ) → ℕ → ℕ) : Prog.Keeps R (updateSfn env page f) :=
  .bind h.modify fun _ => h.flushFspage env _

theorem flushMap (map : ℕ) : Prog.Keeps R (flushMap env map) :=
  .bind .get fun _ => h.flushFspage env _

theorem freeClu (fatBaseSec cluNum minClu : ℕ) :
    Prog.Keeps R (freeClu env fatBaseSec cluNum minClu) := by
  refine .bind (h.of_same (readFat_keeps env _ _)) fun nextClu => ?_
  have htail : Prog.Keeps R (do
      writeFat env fatBaseSec cluNum fatItemFree
      pure (nextClu, if cluNum < minClu then cluNum else minClu) : FsProg (ℕ × ℕ)) :=
    .bind (h.of_same (writeFat_keeps env _ _ _)) fun _ => .pure _
  dsimp only
  split
  · exact .bind (.throw _) fun _ => htail
  · exact htail

theorem freeChain (fatBaseSec n nextClu minClu : ℕ) :
    Prog.Keeps R (freeChain env fatBaseSec n nextClu minClu) := by
  induction n generalizing nextClu minClu with
  | zero => exact .stuck
  | succ n ih =>
    rw [Fs.freeChain]
    split_ifs
    · exact .pure _
    · exact .bind (h.freeClu env _ _ _) fun r => ih _ _

theorem lowerNextClu (sb minClu : ℕ) : Prog.Keeps R (lowerNextClu env sb minClu) := by
  refine .bind .get fun s => ?_
  split_ifs
  · exact .bind (h.of_same (updateNextClu_keeps env _ _)).attempt fun _ => .pure _
  · exact .pure _

end PageFrame

namespace HandleFrame

variable (h : HandleFrame R)

include h

omit [Std.Refl R] [IsTrans FsSys R] in
theorem setPosition (fp map off : ℕ) :
    Prog.Keeps R (Prog.modify (setPosition fp map off) : FsProg Unit) :=
  .modify fun s => h.handle s fp _ fun _ => ⟨rfl, rfl⟩

theorem readLoop (fp blksize : ℕ) (maps : List ℕ) (curOff len : ℕ) :
    Prog.Keeps R (readLoop env fp blksize maps curOff len) := by
  induction maps generalizing curOff len with
  | nil => exact .stuck
  | cons map maps ih =>
    refine .bind (h.mustGetFspage env _ _) fun page => .bind .get fun s => ?_
    dsimp only
    split_ifs
    · exact .bind (h.setPosition fp _ _) fun _ => .pure _
    · exact .bind (ih _ _) fun _ => .pure _

omit [Std.Refl R] in
theorem writePage (fp page off : ℕ) (bytes : List ℕ) :
    Prog.Keeps R (Prog.modify fun s => setDirt fp (writePage page off bytes s) : FsProg Unit) :=
  .modify fun s => IsTrans.trans _ _ _ (h.paged s s.maps _ s.pCache s.live)
    (h.handle (OurOS.Fs.writePage page off bytes s) fp _ fun _ => ⟨rfl, rfl⟩)

theorem writeLoop (fp blksize : ℕ) (maps : List ℕ) (curOff : ℕ) (buf : List ℕ) :
    Prog.Keeps R (writeLoop env fp blksize maps curOff buf) := by
  induction maps generalizing curOff buf with
  | nil => exact .stuck
  | cons map maps ih =>
    refine .bind (h.mustGetFspage env _ _) fun page => .bind .get fun s => ?_
    dsimp only
    split_ifs
    · exact .bind (h.writePage fp _ _ _) fun _ => h.setPosition fp _ _
    · exact .bind (h.writePage fp _ _ _) fun _ => ih _ _

theorem writeRest (fp off : ℕ) (buf : List ℕ) : Prog.Keeps R (writeRest env fp off buf) :=
  .bind (.modify fun s => h.handle s fp _ fun _ => ⟨rfl, rfl⟩) fun _ =>
    .bind .get fun _ => h.writeLoop env _ _ _ _ _

theorem fsRead (fp len : ℕ) : Prog.Keeps R (fsRead env fp len) := by
  refine .bind .get fun s => ?_
  dsimp only
  split_ifs
  · exact .throw _
  · exact .throw _
  · exact .bind (.modify fun s => h.handle s fp _ fun _ => ⟨rfl, rfl⟩) fun _ =>
      h.readLoop env _ _ _ _ _

theorem findParentName (cur firstClu n : ℕ) (sfn : ℕ → ℕ) :
    Prog.Keeps R (findParentName env cur firstClu n sfn) := by
  induction n generalizing sfn with
  | zero => exact .stuck
  | succ n ih =>
    refine .bind .get fun s => ?_
    split_ifs
    · exact .pure _
    · refine .bind (h.fsRead env cur _).attempt fun r => ?_
      dsimp only
      split_ifs
      · exact .pure _
      · exact ih _

end HandleFrame

namespace FileFrame

variable (h : FileFrame R)

include h

omit [Std.Refl R] [IsTrans FsSys R] in
theorem handles : HandleFrame R := ⟨h.toPageFrame, h.handle⟩

theorem writeLoop (fp blksize : ℕ) (maps : List ℕ) (curOff : ℕ) (buf : List ℕ) :
    Prog.Keeps R (writeLoop env fp blksize maps curOff buf) :=
  h.handles.writeLoop env fp blksize maps curOff buf

theorem fsRead (fp len : ℕ) : Prog.Keeps R (fsRead env fp len) := h.handles.fsRead env fp len

theorem expandLoop (node : ℕ) (b : SuperBlock) (num freeCluIdx lastCluIdx : ℕ) :
    Prog.Keeps R (expandLoop env node b num freeCluIdx lastCluIdx) := by
  induction num generalizing freeCluIdx lastCluIdx with
  | zero => exact .pure _
  | succ n ih =>
    refine .bind (h.of_same (findFreeClu_keeps env _ _)) fun clu =>
      .bind (h.of_same (writeFat_keeps env _ _ _)) fun _ =>
        .bind (h.of_same (kmalloc_keeps env)) fun map => ?_
    cases map with
    | none => exact .throw _
    | some map => exact .bind (.modify fun s => h.block s _ _ _ _) fun _ => ih _ _

theorem expandBlocks (node num : ℕ) : Prog.Keeps R (expandBlocks env node num) := by
  refine .bind .get fun s => .bind (h.expandLoop env _ _ _ _ _) fun r =>
    .bind (h.of_same (writeFat_keeps env _ _ _)) fun _ => ?_
  exact .bind (h.of_same (updateNextClu_keeps env _ _)).attempt fun _ => .pure _

theorem expandFat32 (node num : ℕ) : Prog.Keeps R (expandFat32 env node num) := by
  refine .bind (.modify fun s => h.count s node (· + 1)) fun _ =>
    .bind (h.expandBlocks env node num).attempt fun r => ?_
  exact .bind (.modify fun s => h.count s node (· - 1)) fun _ => .ofExcept _

theorem buildDataMap (node : ℕ) (b : SuperBlock) (n cluNum : ℕ) :
    Prog.Keeps R (buildDataMap env node b n cluNum) := by
  induction n generalizing cluNum with
  | zero => exact .stuck
  | succ n ih =>
    rw [Fs.buildDataMap]
    split_ifs
    · exact .pure _
    · refine .bind (h.of_same (kmalloc_keeps env)) fun map => ?_
      cases map with
      | none => exact .throw _
      | some map =>
        refine .bind (.modify fun s => h.block s _ _ _ _) fun _ =>
          .bind (h.of_same (readFat_keeps env _ _)) fun next => ?_
        split_ifs
        · exact .throw _
        · exact ih _

theorem findParentName (cur firstClu n : ℕ) (sfn : ℕ → ℕ) :
    Prog.Keeps R (findParentName env cur firstClu n sfn) := h.handles.findParentName env cur firstClu n sfn

end FileFrame

end OurOS.Fs
