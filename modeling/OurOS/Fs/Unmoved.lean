import OurOS.Fs.EvolveDir

namespace OurOS.Fs

/-- What the search for entries and the reading of dentries leave alone in the objects below `B`. -/
structure Unmoved (B : ℕ) (s t : FsSys) : Prop where
  brk : s.brk ≤ t.brk
  sbs : ∀ sb, t.sbs sb = { s.sbs sb with infoNextClu := (t.sbs sb).infoNextClu }
  dentry : ∀ d < B, t.dentries d = { s.dentries d with
    dSubdirs := (t.dentries d).dSubdirs, dParent := (t.dentries d).dParent }
  parent : ∀ d < B, (t.dentries d).dParent = (s.dentries d).dParent ∨ (t.dentries d).dParent = none
  dataMap : ∀ n < B, (t.inodes n).iDataMap = (s.inodes n).iDataMap ∨ (t.inodes n).iDataMap = []
  fDentry : ∀ f < B, (t.files f).fDentry = (s.files f).fDentry

variable {B : ℕ} {s t u : FsSys}

instance : Std.Refl (Unmoved B) :=
  ⟨fun _ => ⟨le_rfl, fun _ => rfl, fun _ _ => rfl, fun _ _ => .inl rfl, fun _ _ => .inl rfl,
    fun _ _ => rfl⟩⟩

instance : IsTrans FsSys (Unmoved B) where
  trans _ _ _ h h' :=
    ⟨h.brk.trans h'.brk, fun sb => by rw [h'.sbs, h.sbs], fun d hd => by rw [h'.dentry d hd, h.dentry d hd],
      fun d hd => (h'.parent d hd).elim (fun e => e ▸ h.parent d hd) .inr, fun n hn => (h'.dataMap n hn).elim (fun e => e ▸ h.dataMap n hn) .inr,
      fun f hf => (h'.fDentry f hf).trans (h.fDentry f hf)⟩

namespace Unmoved

theorem of_same (h : SameObjects s t) : Unmoved B s t :=
  ⟨h.brk, h.sbs, fun d _ => by rw [h.dentries], fun d _ => .inl (by rw [h.dentries]),
    fun n _ => .inl (by rw [h.inodes]), fun f _ => by rw [h.files]⟩

theorem paged (s : FsSys) (maps : ℕ → FsMap) (pages : ℕ → FsPage) (pCache : Fscache)
    (live : ℕ → Bool) :
    Unmoved B s { s with maps := maps, pages := pages, pCache := pCache, live := live } :=
  ⟨le_rfl, fun _ => rfl, fun _ _ => rfl, fun _ _ => .inl rfl, fun _ _ => .inl rfl, fun _ _ => rfl⟩

theorem setFile (fp : ℕ) {f : File → File} (s : FsSys)
    (hf : fp < B → ∀ x, (f x).fDentry = x.fDentry) : Unmoved B s (s.setFile fp f) := by
  refine ⟨le_rfl, fun _ => rfl, fun _ _ => rfl, fun _ _ => .inl rfl, fun _ _ => .inl rfl,
    fun i hi => ?_⟩
  by_cases e : i = fp
  · subst e
    simp [FsSys.setFile, hf hi]
  · simp [FsSys.setFile, e]

theorem setInode (n : ℕ) {f : Inode → Inode} (s : FsSys)
    (hf : n < B → ∀ x, (f x).iDataMap = x.iDataMap ∨ (f x).iDataMap = []) :
    Unmoved B s (s.setInode n f) := by
  refine ⟨le_rfl, fun _ => rfl, fun _ _ => rfl, fun _ _ => .inl rfl, fun i hi => ?_, fun _ _ => rfl⟩
  by_cases e : i = n
  · subst e
    simpa [FsSys.setInode] using hf hi _
  · simp [FsSys.setInode, e]

theorem setDentry (d : ℕ) {f : Dentry → Dentry} (s : FsSys)
    (hf : d < B → ∀ x, f x = { x with dSubdirs := (f x).dSubdirs }) :
    Unmoved B s (s.setDentry d f) := by
  have hset : ∀ i < B, (s.setDentry d f).dentries i =
      { s.dentries i with dSubdirs := ((s.setDentry d f).dentries i).dSubdirs } := by
    intro i hi
    by_cases e : i = d
    · subst e
      simpa [FsSys.setDentry] using hf hi _
    · simp [FsSys.setDentry, e]
  exact ⟨le_rfl, fun _ => rfl, fun i hi => by rw [hset i hi], fun i hi => .inl (by rw [hset i hi]),
    fun _ _ => .inl rfl, fun _ _ => rfl⟩

theorem setCaches (s : FsSys) (d i : Fscache) : Unmoved B s { s with dCache := d, iCache := i } :=
  ⟨le_rfl, fun _ => rfl, fun _ _ => rfl, fun _ _ => .inl rfl, fun _ _ => .inl rfl, fun _ _ => rfl⟩

theorem frame : HandleFrame (Unmoved B) where
  same _ _ := of_same
  paged := paged
  handle s fp _ hf := setFile fp s fun _ x => (hf x).1

section Free

theorem freeDentry_orphans (entry : ℕ) (s : FsSys) (d : ℕ) :
    ((Fs.freeDentry entry s).dentries d).dParent = (s.dentries d).dParent ∨
      ((Fs.freeDentry entry s).dentries d).dParent = none := by
  by_cases hd : d ∈ (s.dentries entry).dSubdirs
  · refine .inr ?_
    rw [Fs.freeDentry]
    cases (s.dentries entry).dParent <;> simp [FsSys.kfree, hd]
  · exact .inl ((freeDentry_dParent entry s d).resolve_right hd)

theorem freeDentry (entry : ℕ) (s : FsSys) : Unmoved B s (freeDentry entry s) := by
  obtain ⟨-, hsbs, hfiles, -⟩ := freeDentry_rest entry s
  have hkept := freeDentry_kept entry s
  exact ⟨hkept.brk.ge, fun sb => by rw [hsbs], fun d _ => hkept.dentry d,
    fun d _ => freeDentry_orphans entry s d, fun n _ => .inl (freeDentry_iDataMap entry s n),
    fun f _ => by rw [hfiles]⟩

theorem foldl {f : FsSys → ℕ → FsSys} (hf : ∀ s x, Unmoved B s (f s x)) (xs : List ℕ) (s : FsSys) :
    Unmoved B s (xs.foldl f s) := by
  induction xs generalizing s with
  | nil => exact refl s
  | cons x xs ih => exact IsTrans.trans _ _ _ (hf s x) (ih (f s x))

theorem flushDCache : Prog.Keeps (Unmoved B) flushDCache := fun s r t h => by
  rw [flushDCache_run] at h
  cases h
  have hshrink : ∀ s, Unmoved B s (shrinkD s) := fun s => setCaches s _ s.iCache
  exact foldl (fun s d => IsTrans.trans _ _ _ (freeDentry d s) (hshrink _)) (dVictims s) s

theorem freeMap (map : ℕ) : Prog.Keeps (Unmoved B) (freeMap map) := by
  refine .bind .get fun s => ?_
  split
  · exact frame.modify
  · exact .bind frame.modify fun _ => frame.modify
  · exact .bind .stuck fun _ => frame.modify

theorem freeInode (node : ℕ) : Prog.Keeps (Unmoved B) (freeInode node) := by
  refine .bind .get fun s => ?_
  refine .bind (.modify fun s => setCaches s _ _) fun _ => ?_
  refine .bind (.modify fun s => foldl (fun s d => freeDentry d s) _ s) fun _ => ?_
  refine .bind (.modify fun s => setInode node s fun _ x => .inr rfl) fun _ => ?_
  exact .bind (.forEach freeMap _) fun _ => frame.modify

theorem flushICache : Prog.Keeps (Unmoved B) flushICache := fun s r t h => by
  rw [flushICache_eq] at h
  have hflush : Prog.Keeps (Unmoved B) (do
      Prog.forEach (fun n => do
        Fs.freeInode n
        Prog.modify shrinkI) (iVictims s)
      pure !(iVictims s).isEmpty : FsProg Bool) :=
    .bind (.forEach (fun n => .bind (freeInode n) fun _ =>
      .modify fun s => setCaches s _ _) _) fun _ => .pure _
  exact hflush _ _ _ h

theorem addToICache (node : ℕ) : Prog.Keeps (Unmoved B) (addToICache node) := by
  refine .bind .get fun s => ?_
  have hend : ∀ room : Bool, Prog.Keeps (Unmoved B) (do
      if room then
        Prog.modify fun s => { s with iCache := s.iCache.add (hashInt (s.inodes node).iIno) node }
      pure room : FsProg Bool) := by
    intro room
    cases room with
    | true => exact .bind (.modify fun s => setCaches s _ _) fun _ => .pure _
    | false => exact .pure _
  dsimp only
  split_ifs
  · exact .bind flushICache hend
  · exact hend true

theorem addToDCache (entry : ℕ) : Prog.Keeps (Unmoved B) (addToDCache entry) := by
  refine .bind .get fun s => ?_
  have hend : ∀ room : Bool, Prog.Keeps (Unmoved B) (do
      if room then
        Prog.modify fun s =>
          { s with dCache := s.dCache.add (hashString (s.dentries entry).dName) entry }
      pure room : FsProg Bool) := by
    intro room
    cases room with
    | true => exact .bind (.modify fun s => setCaches s _ s.iCache) fun _ => .pure _
    | false => exact .pure _
  dsimp only
  split_ifs
  · exact .bind flushDCache hend
  · exact hend true

end Free

section Read

variable {env : FsEnv}

theorem buildDataMap {node : ℕ} (hn : B ≤ node) (b : SuperBlock) (n cluNum : ℕ) :
    Prog.Keeps (Unmoved B) (buildDataMap env node b n cluNum) := by
  have happend : ∀ map clu (s : FsSys), Unmoved B s (appendBlock node map b clu s) := fun map clu s =>
    IsTrans.trans _ _ _ (paged s (s.setMap map fun _ => newMap b clu).maps s.pages s.pCache s.live)
      (setInode node _ fun h => absurd h hn.not_gt)
  induction n generalizing cluNum with
  | zero => exact .stuck
  | succ n ih =>
    rw [Fs.buildDataMap]
    split_ifs
    · exact .pure _
    · refine .bind (frame.of_same (kmalloc_keeps env)) fun map => ?_
      cases map with
      | none => exact .throw _
      | some map =>
        refine .bind (.modify (happend map cluNum)) fun _ =>
          .bind (frame.of_same (readFat_keeps env _ _)) fun next => ?_
        split_ifs
        · exact .throw _
        · exact ih _

theorem skipped (s : FsSys) : Unmoved B s { s with brk := s.brk + 1 } :=
  ⟨Nat.le_succ _, fun _ => rfl, fun _ _ => rfl, fun _ _ => .inl rfl, fun _ _ => .inl rfl,
    fun _ _ => rfl⟩

theorem allocInodeFat32 {sb clu size : ℕ} {isdir : Bool} {r : Except ℕ ℕ} (hB : B ≤ s.brk)
    (h : allocInodeFat32 env sb clu size isdir s = some (r, t)) : Unmoved B s t := by
  cases hk : env.kmallocFails s.brk with
  | true =>
    rw [allocInodeFat32_noMemory hk] at h
    cases h
    exact skipped s
  | false =>
    rw [allocInodeFat32_eq hk] at h
    have hbegun : Unmoved B s (begun sb clu size isdir s) :=
      IsTrans.trans _ _ _ (of_same (grabbed_same s)) (setInode s.brk _ fun h => absurd h hB.not_gt)
    have hrest : Prog.Keeps (Unmoved B) (do
        Fs.buildDataMap env s.brk (s.sbs sb) uintRange clu
        if ← Fs.addToICache s.brk then pure s.brk else Prog.throw errorCacheFull : FsProg ℕ) := by
      refine .bind (buildDataMap hB _ _ _) fun _ => .bind (addToICache _) fun room => ?_
      cases room with
      | true => exact .pure _
      | false => exact .throw _
    exact IsTrans.trans _ _ _ hbegun (hrest _ _ _ h)

theorem linkDentry (node entry : ℕ) (parent : Option ℕ) (s : FsSys) :
    Unmoved B s (linkDentry node entry parent s) := by
  have hcount : Unmoved B s (iIncCount node s) :=
    IsTrans.trans _ _ _ (setInode node s (f := fun n => { n with iCount := n.iCount + 1 })
      fun _ _ => .inl rfl) (setCaches _ _ _)
  have hlist : Unmoved B s ((iIncCount node s).setInode node fun n =>
      { n with iDentry := entry :: n.iDentry }) :=
    IsTrans.trans _ _ _ hcount (setInode node _ fun _ _ => .inl rfl)
  cases parent with
  | none => exact hlist
  | some p =>
    exact IsTrans.trans _ _ _ hlist (setDentry p _ (f := fun d =>
      { d with dSubdirs := entry :: d.dSubdirs }) fun _ _ => rfl)

theorem allocDentryFat32 {sb node : ℕ} {parent : Option ℕ} {name : List ℕ} {r : Except ℕ ℕ}
    (hB : B ≤ s.brk) (h : allocDentryFat32 env sb node parent name s = some (r, t)) :
    Unmoved B s t ∧ ∀ d, r = .ok d → s.brk = d ∧ d < t.brk ∧ InCache t.dCache d := by
  cases hk : env.kmallocFails s.brk with
  | true =>
    rw [allocDentryFat32_noMemory hk] at h
    cases h
    exact ⟨skipped s, fun d hd => by cases hd⟩
  | false =>
    rw [allocDentryFat32_eq hk] at h
    have hnew : Unmoved B s ((grabbed s).setDentry s.brk fun _ =>
        newDentry sb node s.brk parent name) :=
      IsTrans.trans _ _ _ (of_same (grabbed_same s)) (setDentry s.brk _ fun h => absurd h hB.not_gt)
    have hlinked : Unmoved B s (linked sb node parent name s) :=
      IsTrans.trans _ _ _ hnew (linkDentry node s.brk parent _)
    have hlt : s.brk < (linked sb node parent name s).brk := by
      rw [linked_same.1]
      exact Nat.lt_succ_self _
    obtain ⟨u, room, hflush, hadd⟩ := addToDCache_spec s.brk (linked sb node parent name s)
    have hadded : Unmoved B _ _ := addToDCache _ _ _ _ hadd
    have hall := IsTrans.trans _ _ _ hlinked hadded
    rw [Prog.bind_ok hadd] at h
    cases room with
    | false =>
      cases h
      exact ⟨hall, fun d hd => by cases hd⟩
    | true =>
      cases h
      refine ⟨hall, fun d hd => ?_⟩
      cases hd
      exact ⟨rfl, hlt.trans_le hadded.brk, (inCache_add _ _ _ _).mpr (.inl rfl)⟩

theorem readDotdotName {ret clu : ℕ} {r : Except ℕ Unit} (hB : B ≤ ret) (hret : ret < s.brk)
    (h : readDotdotName env ret clu s = some (r, t)) : Unmoved B s t := by
  have hcount : ∀ (s : FsSys) (g : BitVec 32 → BitVec 32), Unmoved B s
      { s.setDentry ret fun d => { d with dCount := g d.dCount } with
        dCache := s.dCache.touch ret } := fun s g =>
    IsTrans.trans _ _ _ (setDentry ret s fun h => absurd h hB.not_gt)
      (setCaches (s.setDentry ret fun d => { d with dCount := g d.dCount }) _ s.iCache)
  rcases Prog.bind_cases h with ⟨cur, u, h1, h2⟩ | ⟨e, h1, -⟩
  · obtain ⟨_, hr, h1⟩ := follow_cases h1
    cases hr
    obtain ⟨htree, hopen⟩ := openHandle_tree hret h1
    obtain ⟨hlo, hlt, hcur⟩ := hopen cur rfl
    have hu : Unmoved B s u := by
      rcases openHandle_cases h1 with ⟨hr, -⟩ | ⟨-, rfl⟩
      · cases hr
      · exact IsTrans.trans _ _ _ (of_same (grabbed_same s)) (IsTrans.trans _ _ _
          (hcount (grabbed s) (· + 1)) (setFile s.brk _ fun h => absurd h (hB.trans hret.le).not_gt))
    have hend : ∀ {v}, SameTree u v → (do
        Prog.modify (releaseFile cur)
        let s ← Prog.get
        if compareFat32 (s.dentries ret).dName dotdotName = 0 then Prog.throw errorFileNotfound
          : FsProg Unit) v = some (r, t) → Unmoved B v t := by
      intro v hv hrun
      have hfile : (v.files cur).fDentry = ret := (hv.fDentry cur hlt).trans hcur
      have hrel : Unmoved B v (releaseFile cur v) := by
        rw [releaseFile, hfile]
        exact IsTrans.trans _ _ _ (hcount v (· - 1)) (paged (dDecCount ret v) _ _ _ _)
      rw [Prog.modify_bind_run, Prog.get_bind_run] at hrun
      split_ifs at hrun
      · cases hrun
        exact hrel
      · cases hrun
        exact hrel
    rcases Prog.bind_cases h2 with ⟨name, v, h5, h6⟩ | ⟨e, h5, -⟩
    · have hv := IsTrans.trans _ _ _ hu (frame.findParentName env _ _ _ _ _ _ _ h5)
      have htv := SameTree.frame.findParentName env _ _ _ _ _ _ _ h5
      cases name with
      | none => exact IsTrans.trans _ _ _ hv (hend htv h6)
      | some name =>
        dsimp only at h6
        rw [Prog.modify_bind_run] at h6
        have hname : SameTree v (renamed name ret v) := .setDentry ret _ v
        have hmoved : Unmoved B v (renamed name ret v) := setDentry ret v fun h => absurd h hB.not_gt
        exact IsTrans.trans _ _ _ hv (IsTrans.trans _ _ _ hmoved
          (hend (IsTrans.trans _ _ _ htv hname) h6))
    · exact IsTrans.trans _ _ _ hu (frame.findParentName env _ _ _ _ _ _ _ h5)
  · obtain ⟨_, hr, -⟩ := follow_cases h1
    cases hr

theorem readDentryFromSfn {data : ℕ → ℕ} {off p : ℕ} {name : List ℕ} {r : Except ℕ ℕ}
    (hB : B ≤ s.brk) (h : readDentryFromSfn env data off p name s = some (r, t)) :
    Unmoved B s t ∧ ∀ d, r = .ok d → B ≤ d ∧ InCache t.dCache d := by
  rw [Fs.readDentryFromSfn, Prog.get_bind_run] at h
  have hend : ∀ {v : FsSys} {node : ℕ}, B ≤ v.brk → (do
      let retEntry ← Fs.allocDentryFat32 env (s.dentries p).dSb node (some p) name
      if compareFat32 name dotdotName = 0 then Fs.readDotdotName env retEntry (sfn1stclu data off)
      pure retEntry : FsProg ℕ) v = some (r, t) →
      Unmoved B v t ∧ ∀ d, r = .ok d → B ≤ d ∧ InCache t.dCache d := by
    intro v node hv h
    rcases Prog.bind_cases h with ⟨ret, w, h1, h2⟩ | ⟨e, h1, rfl⟩
    · obtain ⟨h3, h4⟩ := allocDentryFat32 hv h1
      obtain ⟨rfl, hlt, hin⟩ := h4 ret rfl
      split_ifs at h2
      · rcases Prog.bind_cases h2 with ⟨_, x, h5, h6⟩ | ⟨e, h5, rfl⟩
        · cases h6
          refine ⟨IsTrans.trans _ _ _ h3 (readDotdotName hv hlt h5), fun d hd => ?_⟩
          cases hd
          refine ⟨hv, ?_⟩
          rw [InCache, (readDotdotName_tree hlt h5).dHash]
          exact hin
        · exact ⟨IsTrans.trans _ _ _ h3 (readDotdotName hv hlt h5), fun d hd => by cases hd⟩
      · cases h2
        exact ⟨h3, fun d hd => by cases hd; exact ⟨hv, hin⟩⟩
    · exact ⟨(allocDentryFat32 hv h1).1, fun d hd => by cases hd⟩
  dsimp only at h
  cases hlook : lookupICache s (cluToSec (s.sbs (s.dentries p).dSb).infoCluBase
      (sfn1stclu data off) (s.sbs (s.dentries p).dSb).sBlockbits) with
  | some node =>
    simp only [hlook] at h
    exact hend hB h
  | none =>
    simp only [hlook] at h
    rcases Prog.bind_cases h with ⟨node, v, h1, h2⟩ | ⟨e, h1, rfl⟩
    · have h3 := allocInodeFat32 hB h1
      obtain ⟨h4, h5⟩ := hend (hB.trans h3.brk) h2
      exact ⟨IsTrans.trans _ _ _ h3 h4, h5⟩
    · exact ⟨allocInodeFat32 hB h1, fun d hd => by cases hd⟩

theorem getDentryParent {entry : ℕ} {r : Except ℕ ℕ} (hB : B ≤ s.brk)
    (h : getDentryParent env entry s = some (r, t)) : Unmoved B s t := by
  rw [Fs.getDentryParent, Prog.get_bind_run] at h
  cases hp : (s.dentries entry).dParent with
  | some p =>
    rw [hp] at h
    cases h
    exact refl s
  | none =>
    rw [hp] at h
    rcases Prog.bind_cases h with ⟨found, u, h1, h2⟩ | ⟨e, h1, rfl⟩
    · have h3 : Unmoved B s u := frame.lookupSfn env _ _ _ _ _ h1
      cases found with
      | none =>
        cases h2
        exact h3
      | some place =>
        dsimp only at h2
        rw [Prog.get_bind_run] at h2
        exact IsTrans.trans _ _ _ h3 (readDentryFromSfn (hB.trans h3.brk) h2).1
    · exact frame.lookupSfn env _ _ _ _ _ h1

end Read

end Unmoved

end OurOS.Fs
