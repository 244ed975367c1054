import OurOS.Fs.CacheRun
import OurOS.Fs.ChainOps
import OurOS.Fs.Open
import OurOS.Fs.PageFrame

namespace OurOS.Fs

def InCache (c : Fscache) (x : ℕ) : Prop := ∃ b, x ∈ c.hash b

structure SameTree (s t : FsSys) : Prop where
  brk : s.brk ≤ t.brk
  root : t.rootDentry = s.rootDentry
  sRoot : ∀ sb, (t.sbs sb).sRoot = (s.sbs sb).sRoot
  dentry : ∀ d, t.dentries d = { s.dentries d with
    dCount := (t.dentries d).dCount, dName := (t.dentries d).dName }
  iIno : ∀ n, (t.inodes n).iIno = (s.inodes n).iIno
  iPinned : ∀ n, (t.inodes n).iPinned = (s.inodes n).iPinned
  iDentry : ∀ n, (t.inodes n).iDentry = (s.inodes n).iDentry
  fDentry : ∀ f < s.brk, (t.files f).fDentry = (s.files f).fDentry
  dHash : t.dCache.hash = s.dCache.hash
  iHash : t.iCache.hash = s.iCache.hash
  dLru : (∀ d ∈ s.dCache.lru, d < s.brk) → ∀ d ∈ t.dCache.lru, d < t.brk

instance : Std.Refl SameTree :=
  ⟨fun _ => ⟨le_rfl, rfl, fun _ => rfl, fun _ => rfl, fun _ => rfl, fun _ => rfl, fun _ => rfl,
    fun _ _ => rfl, rfl, rfl, fun h => h⟩⟩

instance : IsTrans FsSys SameTree where
  trans _ _ _ h₁ h₂ :=
    ⟨h₁.brk.trans h₂.brk, h₂.root.trans h₁.root, fun sb => (h₂.sRoot sb).trans (h₁.sRoot sb),
      fun d => by rw [h₂.dentry, h₁.dentry], fun n => (h₂.iIno n).trans (h₁.iIno n),
      fun n => (h₂.iPinned n).trans (h₁.iPinned n), fun n => (h₂.iDentry n).trans (h₁.iDentry n),
      fun f hf => (h₂.fDentry f (hf.trans_le h₁.brk)).trans (h₁.fDentry f hf),
      h₂.dHash.trans h₁.dHash, h₂.iHash.trans h₁.iHash, fun h => h₂.dLru (h₁.dLru h)⟩

namespace SameTree

theorem setInode (n : ℕ) (f : Inode → Inode) (s : FsSys)
    (hf : ∀ i, (f i).iIno = i.iIno ∧ (f i).iPinned = i.iPinned ∧ (f i).iDentry = i.iDentry
      := by intro; exact ⟨rfl, rfl, rfl⟩) : SameTree s (s.setInode n f) := by
  have h : ∀ i, (s.setInode n f).inodes i = if i = n then f (s.inodes i) else s.inodes i := by
    intro i
    by_cases e : i = n
    · subst e
      simp [FsSys.setInode]
    · simp [FsSys.setInode, e]
  refine ⟨le_rfl, rfl, fun _ => rfl, fun _ => rfl, fun i => ?_, fun i => ?_, fun i => ?_,
    fun _ _ => rfl, rfl, rfl, fun h => h⟩
  · rw [h]
    split_ifs
    · exact (hf _).1
    · rfl
  · rw [h]
    split_ifs
    · exact (hf _).2.1
    · rfl
  · rw [h]
    split_ifs
    · exact (hf _).2.2
    · rfl

theorem setFile (fp : ℕ) (f : File → File) (s : FsSys)
    (hf : ∀ x, (f x).fDentry = x.fDentry := by intro; rfl) : SameTree s (s.setFile fp f) := by
  refine ⟨le_rfl, rfl, fun _ => rfl, fun _ => rfl, fun _ => rfl, fun _ => rfl, fun _ => rfl,
    fun i _ => ?_, rfl, rfl, fun h => h⟩
  by_cases e : i = fp
  · subst e
    simp [FsSys.setFile, hf]
  · simp [FsSys.setFile, e]

theorem setDentry (d : ℕ) (f : Dentry → Dentry) (s : FsSys)
    (hf : ∀ x, f x = { x with dCount := (f x).dCount, dName := (f x).dName } := by intro; rfl) :
    SameTree s (s.setDentry d f) := by
  refine ⟨le_rfl, rfl, fun _ => rfl, fun i => ?_, fun _ => rfl, fun _ => rfl, fun _ => rfl,
    fun _ _ => rfl, rfl, rfl, fun h => h⟩
  by_cases e : i = d
  · subst e
    simpa [FsSys.setDentry] using hf (s.dentries i)
  · simp [FsSys.setDentry, e]

theorem touchD {d : ℕ} {s : FsSys} (hd : d < s.brk) (g : BitVec 32 → BitVec 32) : SameTree s
    { s.setDentry d fun x => { x with dCount := g x.dCount } with dCache := s.dCache.touch d } :=
  { setDentry d (fun x => { x with dCount := g x.dCount }) s with
    dHash := rfl
    dLru := fun h x hx => by
      rcases mem_touch hx with hx | rfl
      · exact h x hx
      · exact hd }

theorem touchI (n : ℕ) (g : BitVec 32 → BitVec 32) (s : FsSys) : SameTree s
    { s.setInode n fun x => { x with iCount := g x.iCount } with iCache := s.iCache.touch n } :=
  { setInode n (fun x => { x with iCount := g x.iCount }) s with iHash := rfl }

theorem of_same {s t : FsSys} (h : SameObjects s t) : SameTree s t :=
  ⟨h.brk, h.root, fun sb => by rw [h.sbs], fun d => by rw [h.dentries], fun n => by rw [h.inodes],
    fun n => by rw [h.inodes], fun n => by rw [h.inodes], fun f _ => by rw [h.files],
    by rw [h.dCache], by rw [h.iCache],
    fun hl d hd => (hl d (h.dCache ▸ hd)).trans_le h.brk⟩

theorem paged (s : FsSys) (maps : ℕ → FsMap) (pages : ℕ → FsPage) (pCache : Fscache)
    (live : ℕ → Bool) :
    SameTree s { s with maps := maps, pages := pages, pCache := pCache, live := live } :=
  ⟨le_rfl, rfl, fun _ => rfl, fun _ => rfl, fun _ => rfl, fun _ => rfl, fun _ => rfl,
    fun _ _ => rfl, rfl, rfl, fun h => h⟩

theorem frame : FileFrame SameTree where
  same _ _ := of_same
  paged := paged
  handle s fp f hf := setFile fp f s fun x => (hf x).1
  block s node map b clu :=
    IsTrans.trans _ (s.setMap map fun _ => newMap b clu) _ (paged s _ s.pages s.pCache s.live)
      (setInode node _ _)
  count s node g := touchI node g s

end SameTree

section Keeps

variable (env : FsEnv)

theorem releaseFile_tree {fp : ℕ} {s : FsSys} (h : (s.files fp).fDentry < s.brk) :
    SameTree s (releaseFile fp s) :=
  IsTrans.trans _ _ _ (.touchD h (· - 1)) (.paged (dDecCount (s.files fp).fDentry s) _ _ _ _)

theorem fileExpandTo_tree (fp size : ℕ) : Prog.Keeps SameTree (fileExpandTo env fp size) := by
  refine .bind .get fun s => ?_
  dsimp only
  split_ifs with hfits hexpand
  · exact .pure _
  · exact .bind (SameTree.frame.expandFat32 env _ _) fun _ =>
      .modify fun s => IsTrans.trans _ _ _ (.setInode _ _ s) (.setFile fp _ _)
  · exact .modify fun s => IsTrans.trans _ _ _ (.setInode _ _ s) (.setFile fp _ _)

theorem fsWrite_tree (fp : ℕ) (buf : List ℕ) : Prog.Keeps SameTree (fsWrite env fp buf) := by
  have hmoved : ∀ curOff, Prog.Keeps SameTree (do
      Prog.modify (·.setFile fp fun f => { f with fPos := (f.fPos + buf.length) % uintRange })
      let s ← Prog.get
      writeLoop env fp (fileSb s fp).sBlocksize (mapsFrom s fp) curOff buf : FsProg Unit) :=
    fun _ => .bind (.modify fun s => .setFile fp _ s) fun _ =>
      .bind .get fun _ => SameTree.frame.writeLoop env _ _ _ _ _
  refine .bind .get fun s => ?_
  dsimp only
  split_ifs with hmode hsize
  · exact .throw _
  · exact .bind (fileExpandTo_tree env fp _) fun _ => hmoved _
  · exact hmoved _

theorem truncated_tree (node : ℕ) :
    Prog.Keeps SameTree (Prog.modify (truncated node) : FsProg Unit) := by
  have hfree : ∀ (maps : List ℕ) (s : FsSys), SameTree s (maps.foldl FsSys.kfree s) := by
    intro maps
    induction maps with
    | nil => exact fun s => refl s
    | cons m maps ih =>
      exact fun s => IsTrans.trans _ _ _ (.paged s _ _ _ _) (ih (s.kfree m))
  exact .modify fun s => IsTrans.trans _ _ _ (.setInode node _ s) (hfree _ _)

theorem clearFat32_tree (node parent : ℕ) (name : List ℕ) :
    Prog.Keeps SameTree (clearFat32 env node parent name) := by
  have hsfn : ∀ sb, Prog.Keeps SameTree (clearSfn env node parent sb name) := by
    refine fun sb => .bind (SameTree.frame.findSfn env _ _ _) fun r => ?_
    have hend : ∀ r, Prog.Keeps SameTree (do
        Prog.modify (truncated node)
        Prog.ofExcept r : FsProg Unit) := fun r => .bind (truncated_tree node) fun _ => .ofExcept r
    split
    · exact .bind (SameTree.frame.updateSfn env _ _).attempt hend
    · exact hend (.ok ())
  have htail : ∀ sb base next, Prog.Keeps SameTree (do
      let minClu ← freeChain env base uintRange next maxClu
      lowerNextClu env sb minClu
      clearSfn env node parent sb name : FsProg Unit) := fun sb base next =>
    .bind (SameTree.frame.freeChain env _ _ _ _) fun _ =>
      .bind (SameTree.frame.lowerNextClu env _ _) fun _ => hsfn sb
  have hblocks : Prog.Keeps SameTree (clearBlocks env node parent name) := by
    refine .bind .get fun s => .bind (SameTree.frame.of_same (readFat_keeps env _ _)) fun next => ?_
    dsimp only
    split
    · exact .bind (SameTree.frame.of_same (writeFat_keeps env _ _ _)) fun _ => htail _ _ _
    · exact htail _ _ _
  exact .bind (.modify fun s => .touchI node (· + 1) s) fun _ => .bind hblocks.attempt fun r =>
    .bind (.modify fun s => .touchI node (· - 1) s) fun _ => .ofExcept _

variable {env} in
theorem openHandle_tree {s t : FsSys} {entry mode : ℕ} {r : Except ℕ ℕ} (hentry : entry < s.brk)
    (h : openHandle env entry mode s = some (r, t)) :
    SameTree s t ∧ ∀ fp, r = .ok fp → s.brk ≤ fp ∧ fp < t.brk ∧ (t.files fp).fDentry = entry := by
  rcases openHandle_cases h with ⟨rfl, rfl⟩ | ⟨rfl, rfl⟩
  · refine ⟨⟨Nat.le_succ _, rfl, fun _ => rfl, fun _ => rfl, fun _ => rfl, fun _ => rfl,
      fun _ => rfl, fun _ _ => rfl, rfl, rfl, fun hl d hd => Nat.lt_succ_of_lt (hl d hd)⟩,
      fun fp hfp => ?_⟩
    cases hfp
  · have htouch : SameTree s (dIncCount entry (grabbed s)) :=
      IsTrans.trans _ _ _ (.of_same (grabbed_same s)) (.touchD (Nat.lt_succ_of_lt hentry) (· + 1))
    refine ⟨{ htouch with fDentry := fun f hf => ?_ }, fun fp hfp => ?_⟩
    · exact congrArg File.fDentry (Function.update_of_ne hf.ne ..)
    · cases hfp
      refine ⟨le_rfl, Nat.lt_succ_self _, ?_⟩
      simp [FsSys.setFile, newFile]

theorem follow_keeps {α : Type} {R : FsSys → FsSys → Prop} [Std.Refl R] [IsTrans FsSys R]
    {m : FsProg α} (h : Prog.Keeps R m) : Prog.Keeps R (follow m) := by
  refine .bind h.attempt fun r => ?_
  cases r with
  | ok a => exact .pure _
  | error e => exact .stuck

end Keeps

end OurOS.Fs
