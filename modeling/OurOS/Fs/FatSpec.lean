import OurOS.Fs.FatTable
import OurOS.Fs.PageCache

namespace OurOS.Fs

structure SameObjects (s t : FsSys) : Prop where
  brk : s.brk ≤ t.brk
  live : ∀ x < s.brk, t.live x = s.live x
  sbs : ∀ sb, t.sbs sb = { s.sbs sb with infoNextClu := (t.sbs sb).infoNextClu }
  sbList : t.sbList = s.sbList
  maps : t.maps = s.maps
  pages : t.pages = s.pages
  inodes : t.inodes = s.inodes
  dentries : t.dentries = s.dentries
  files : t.files = s.files
  dCache : t.dCache = s.dCache
  iCache : t.iCache = s.iCache
  pCache : t.pCache = s.pCache
  root : t.rootDentry = s.rootDentry

instance : Std.Refl SameObjects :=
  ⟨fun _ => ⟨le_rfl, fun _ _ => rfl, fun _ => rfl, rfl, rfl, rfl, rfl, rfl, rfl, rfl, rfl, rfl, rfl⟩⟩

instance : IsTrans FsSys SameObjects where
  trans _ _ _ h₁ h₂ :=
    ⟨h₁.brk.trans h₂.brk, fun x hx => (h₂.live x (hx.trans_le h₁.brk)).trans (h₁.live x hx),
      fun sb => by rw [h₂.sbs, h₁.sbs], h₂.sbList.trans h₁.sbList,
      h₂.maps.trans h₁.maps, h₂.pages.trans h₁.pages, h₂.inodes.trans h₁.inodes,
      h₂.dentries.trans h₁.dentries, h₂.files.trans h₁.files, h₂.dCache.trans h₁.dCache,
      h₂.iCache.trans h₁.iCache, h₂.pCache.trans h₁.pCache, h₂.root.trans h₁.root⟩

section Keeps

variable (env : FsEnv)

theorem kmalloc_keeps : Prog.Keeps SameObjects (kmalloc env) := by
  intro s r t h
  rw [kmalloc] at h
  split at h
  · cases h
    exact ⟨Nat.le_succ _, fun _ _ => rfl, fun _ => rfl, rfl, rfl, rfl, rfl, rfl, rfl, rfl, rfl, rfl, rfl⟩
  · cases h
    exact ⟨Nat.le_succ _, fun x hx => Function.update_of_ne hx.ne .., fun _ => rfl, rfl, rfl,
      rfl, rfl, rfl, rfl, rfl, rfl, rfl, rfl⟩

theorem sdReadBlock_keeps (addr count : ℕ) :
    Prog.Keeps SameObjects (sdReadBlock env addr count) := by
  intro s r t h
  rw [sdReadBlock] at h
  split at h
  · cases h
    exact ⟨le_rfl, fun _ _ => rfl, fun _ => rfl, rfl, rfl, rfl, rfl, rfl, rfl, rfl, rfl, rfl, rfl⟩
  · cases h
    exact ⟨le_rfl, fun _ _ => rfl, fun _ => rfl, rfl, rfl, rfl, rfl, rfl, rfl, rfl, rfl, rfl, rfl⟩

theorem sdWriteBlock_keeps (data : ℕ → ℕ) (addr count : ℕ) :
    Prog.Keeps SameObjects (sdWriteBlock env data addr count) := by
  intro s r t h
  rw [sdWriteBlock] at h
  split at h
  · cases h
    exact ⟨le_rfl, fun _ _ => rfl, fun _ => rfl, rfl, rfl, rfl, rfl, rfl, rfl, rfl, rfl, rfl, rfl⟩
  · cases h
    exact ⟨le_rfl, fun _ _ => rfl, fun _ => rfl, rfl, rfl, rfl, rfl, rfl, rfl, rfl, rfl, rfl, rfl⟩

theorem readFat_keeps (fatBaseSec cluNum : ℕ) :
    Prog.Keeps SameObjects (readFat env fatBaseSec cluNum) := by
  refine .bind (kmalloc_keeps env) fun p => ?_
  cases p with
  | none => exact .pure _
  | some _ =>
    refine .bind (sdReadBlock_keeps env _ _) fun buf => ?_
    cases buf with
    | none => exact .pure _
    | some _ => exact .pure _

theorem writeFat_keeps (fatBaseSec cluNum value : ℕ) :
    Prog.Keeps SameObjects (writeFat env fatBaseSec cluNum value) := by
  refine .bind (kmalloc_keeps env) fun p => ?_
  cases p with
  | none => exact .throw _
  | some _ =>
    refine .bind (sdReadBlock_keeps env _ _) fun buf => ?_
    cases buf with
    | none => exact .throw _
    | some _ =>
      refine .bind (sdWriteBlock_keeps env _ _ _) fun ok => ?_
      cases ok with
      | true => exact .pure _
      | false => exact .throw _

theorem findFreeCluFrom_keeps (fatBaseSec n : ℕ) :
    ∀ freeIdx, Prog.Keeps SameObjects (findFreeCluFrom env fatBaseSec n freeIdx) := by
  induction n with
  | zero => exact fun _ => .stuck
  | succ n ih =>
    intro freeIdx
    refine .bind (readFat_keeps env _ _) fun value => ?_
    split_ifs
    · exact .pure _
    · exact .pure _
    · exact ih _

theorem findFreeClu_keeps (fatBaseSec startIdx : ℕ) :
    Prog.Keeps SameObjects (findFreeClu env fatBaseSec startIdx) :=
  findFreeCluFrom_keeps env fatBaseSec uintRange startIdx

theorem setNextClu_same (s : FsSys) (sb value : ℕ) :
    SameObjects s (s.setSb sb fun b => { b with infoNextClu := value }) := by
  refine ⟨le_rfl, fun _ _ => rfl, fun i => ?_, rfl, rfl, rfl, rfl, rfl, rfl, rfl, rfl, rfl, rfl⟩
  by_cases e : i = sb
  · subst e
    simp [FsSys.setSb]
  · simp [FsSys.setSb, e]

theorem updateNextClu_keeps (sb value : ℕ) :
    Prog.Keeps SameObjects (updateNextClu env sb value) := by
  refine .bind .get fun s => .bind (kmalloc_keeps env) fun p => ?_
  cases p with
  | none => exact .throw _
  | some _ =>
    refine .bind (sdReadBlock_keeps env _ _) fun buf => ?_
    cases buf with
    | none => exact .throw _
    | some _ =>
      refine .bind (.modify fun s => setNextClu_same s sb value) fun _ =>
        .bind (sdWriteBlock_keeps env _ _ _) fun ok => ?_
      cases ok with
      | true => exact .pure _
      | false => exact .throw _

end Keeps

end OurOS.Fs
