import Mathlib.Data.List.TakeWhile
import OurOS.Fs.ChainRun
import OurOS.Fs.Scan
import OurOS.Fs.TableRun

namespace OurOS.Fs

def rewritten (c : ℕ → ℕ → ℕ) (f : ℕ → (ℕ → ℕ) → ℕ → ℕ) : Option (ℕ × ℕ) → ℕ → ℕ → ℕ
  | none => c
  | some e => Function.update c e.1 (f e.2 (c e.1))

section Mark

variable {skips : ℕ → Bool} {data : ℕ → ℕ} {offs : List ℕ} {off o : ℕ} {blksize : ℕ}
  {c : ℕ → ℕ → ℕ} {maps : List ℕ} {e d : ℕ × ℕ}

theorem sfnSize_dvd (h : off ∈ sfnOffsets blksize) : sfnSize ∣ off := by
  obtain ⟨k, -, rfl⟩ := List.mem_map.mp h
  exact Nat.dvd_mul_right _ _

theorem markDeleted_same (ho : sfnSize ∣ o) (hoff : sfnSize ∣ off) (hne : o ≠ off) :
    SameSfns (markDeleted off data) data [o] := by
  intro p hp i hi
  rw [List.mem_singleton.mp hp]
  refine Function.update_of_ne (fun h => hne ?_) _ _
  obtain ⟨j, rfl⟩ := ho
  obtain ⟨k, rfl⟩ := hoff
  simp only [sfnSize] at *
  omega

theorem visibleSfn_mark (hoffs : ∀ o ∈ offs, sfnSize ∣ o) (hoff : sfnSize ∣ off)
    (hused : data off ≠ sfnMarkUnused) :
    visibleSfn skips (markDeleted off data) offs = (visibleSfn skips data offs).filter (· ≠ off) := by
  induction offs with
  | nil => rfl
  | cons o offs ih =>
    have ih := ih fun p hp => hoffs p (List.mem_cons_of_mem _ hp)
    by_cases e : o = off
    · subst e
      have hself : markDeleted o data o = sfnMarkDeleted := Function.update_self ..
      rw [visibleSfn_cons (by rw [hself]; decide), if_pos (.inl hself), ih, visibleSfn_cons hused]
      split_ifs
      · rfl
      · rw [List.filter_cons_of_neg (by simp)]
    · have hsame : SameSfns (markDeleted off data) data [o] :=
        markDeleted_same (hoffs o List.mem_cons_self) hoff e
      have hmark := hsame.mark (List.mem_singleton.mpr rfl)
      have hattr := hsame.attr (List.mem_singleton.mpr rfl)
      by_cases hu : data o = sfnMarkUnused
      · rw [visibleSfn_unused (hmark.trans hu), visibleSfn_unused hu, List.filter_nil]
      · rw [visibleSfn_cons (by rwa [hmark]), visibleSfn_cons hu, hmark, hattr, ih]
        split_ifs
        · rfl
        · rw [List.filter_cons_of_pos (by simpa using e)]

theorem mem_visibleEntries : e ∈ visibleEntries skips blksize c maps ↔
    e.1 ∈ maps ∧ e.2 ∈ visibleSfn skips (c e.1) (sfnOffsets blksize) := by
  simp only [visibleEntries, List.mem_flatMap, List.mem_map]
  constructor
  · rintro ⟨m, hm, o, ho, rfl⟩
    exact ⟨hm, ho⟩
  · rintro ⟨hm, ho⟩
    exact ⟨e.1, hm, e.2, ho, rfl⟩

theorem visibleSfn_used (h : off ∈ visibleSfn skips data offs) :
    data off ≠ sfnMarkUnused ∧ data off ≠ sfnMarkDeleted ∧ skips (sfnAttr data off) = false := by
  obtain ⟨h1, h2⟩ := List.mem_filter.mp h
  have hu := List.mem_takeWhile_imp h1
  simp only [Bool.and_eq_true, bne_iff_ne, Bool.not_eq_true'] at h2 hu
  exact ⟨hu, h2⟩

theorem visibleEntries_mark (he : e ∈ visibleEntries skips blksize c maps) (ms : List ℕ) :
    visibleEntries skips blksize (rewritten c markDeleted (some e)) ms =
      (visibleEntries skips blksize c ms).filter (· ≠ e) := by
  obtain ⟨-, ho⟩ := mem_visibleEntries.mp he
  have hdvd := sfnSize_dvd (mem_visibleSfn ho)
  induction ms with
  | nil => rfl
  | cons m ms ih =>
    rw [visibleEntries_cons, visibleEntries_cons, List.filter_append, ih, List.filter_map]
    congr 1
    by_cases h : m = e.1
    · rw [h, rewritten, Function.update_self,
        visibleSfn_mark (fun o h => sfnSize_dvd h) hdvd (visibleSfn_used ho).1]
      congr 1
      refine List.filter_congr fun o _ => ?_
      simp [Prod.ext_iff]
    · rw [rewritten, Function.update_of_ne h]
      congr 1
      refine (List.filter_eq_self.mpr fun o _ => ?_).symm
      simp [Prod.ext_iff, h]

theorem entryClu_mark (he : e ∈ visibleEntries skips blksize c maps)
    (hd : d ∈ visibleEntries skips blksize c maps) (hne : d ≠ e) :
    entryClu (rewritten c markDeleted (some e)) d = entryClu c d := by
  obtain ⟨-, ho⟩ := mem_visibleEntries.mp he
  obtain ⟨-, ho'⟩ := mem_visibleEntries.mp hd
  rw [entryClu, rewritten]
  by_cases h : d.1 = e.1
  · have h2 : d.2 ≠ e.2 := fun h2 => hne (Prod.ext h h2)
    rw [h, Function.update_self]
    have hsame : SameSfns (markDeleted e.2 (c e.1)) (c e.1) [d.2] :=
      markDeleted_same (sfnSize_dvd (mem_visibleSfn ho')) (sfnSize_dvd (mem_visibleSfn ho)) h2
    rw [hsame.clu (List.mem_singleton.mpr rfl), entryClu, h]
  · rw [Function.update_of_ne h]
    rfl

theorem markDeleted_local (cnt off : ℕ) : Local cnt (markDeleted off) := by
  intro d d' h i hi
  rw [markDeleted, markDeleted, Function.update_apply, Function.update_apply, h i hi]

theorem putSfnFileSize_local (cnt off size : ℕ) : Local cnt fun d => putSfnFileSize d off size := by
  intro d d' h i hi
  simp only [putSfnFileSize, putDword, h i hi]

end Mark

/-- The directory `dir` of the volume `b` has the blocks `maps`, with the content `c`. -/
structure DirAt (b : SuperBlock) (n : ℕ) (maps : List ℕ) (cnt : ℕ) (a : ℕ → ℕ) (c : ℕ → ℕ → ℕ)
    (s : FsSys) (dir : ℕ) : Prop where
  shows : Shows maps cnt a c s
  blocks : dirMaps s dir = maps
  volume : IsVolume b s (s.dentries dir).dSb
  blksize : b.sBlocksize = sectorSize * cnt
  outside : ∀ m ∈ maps, ∀ sec, a m ≤ sec → sec < a m + cnt →
    ¬ InTable b n sec ∧ sec ≠ b.infoFsinfoSec

section Scan

variable {env : FsEnv} {b : SuperBlock} {n : ℕ} {maps : List ℕ} {cnt : ℕ} {a : ℕ → ℕ}
  {c : ℕ → ℕ → ℕ} {s t u : FsSys} {dir sb : ℕ} {name : List ℕ} {fat : ℕ → ℕ}

theorem DirAt.of_table (h : DirAt b n maps cnt a c s dir) (ht : TableTo b n s t fat) :
    DirAt b n maps cnt a c t dir := by
  have hsame := ht.same
  refine ⟨h.shows.of_same hsame fun m hm sec h1 h2 => ?_, ?_, ?_, h.blksize, h.outside⟩
  · obtain ⟨h3, h4⟩ := h.outside m hm sec h1 h2
    exact ht.sectors sec h3 h4
  · rw [dirMaps, hsame.inodes, hsame.dentries]
    exact h.blocks
  · rw [IsVolume, hsame.dentries, hsame.sbs, h.volume]

theorem DirAt.counted (h : DirAt b n maps cnt a c s dir) (node : ℕ) :
    DirAt b n maps cnt a c (iIncCount node s) dir := by
  refine ⟨h.shows.of_quiet (.of_eq le_rfl rfl rfl rfl rfl), ?_, h.volume, h.blksize, h.outside⟩
  rw [dirMaps, iIncCount_inodes]
  exact h.blocks

theorem IsVolume.blksize (hb : IsVolume b s sb) (h : b.sBlocksize = sectorSize * cnt) :
    (s.sbs sb).sBlocksize = sectorSize * cnt := by
  rw [hb]
  exact h

theorem findSfn_select (h : DirAt b n maps cnt a c s dir) (hsb : IsVolume b s sb)
    {r : Option (ℕ × ℕ)} (hr : findSfn env dir sb name s = some (.ok r, t)) :
    Shows maps cnt a c t ∧
      Option.Rel (IsEntry t) (namedEntry scanSkips (sectorSize * cnt) c maps name) r := by
  refine ⟨((Steady.shows env maps cnt a c).findSfn dir sb name s _ t h.shows hr).1, ?_⟩
  rw [findSfn, Prog.get_bind_run, hsb.blksize h.blksize, h.blocks] at hr
  have hsel := scanDir_select h.shows (fun m hm => hm) hr
  have htest : (fun e => compareFat32 (entryName c e) name == 0) =
      fun e => compareFat32 name (entryName c e) == 0 := by
    funext e
    rw [Bool.eq_iff_iff, beq_iff_eq, beq_iff_eq, compareFat32_comm]
  rwa [htest] at hsel

theorem lookupSfn_select (h : DirAt b n maps cnt a c s dir) {r : Option (ℕ × ℕ)}
    (hr : lookupSfn env dir name s = some (.ok r, t)) : Shows maps cnt a c t ∧
      Option.Rel (IsEntry t) (namedEntry lookupSkips (sectorSize * cnt) c maps name) r := by
  refine ⟨((Steady.shows env maps cnt a c).lookupSfn dir name s _ t h.shows hr).1, ?_⟩
  rw [lookupSfn, Prog.get_bind_run, h.volume.blksize h.blksize, h.blocks] at hr
  exact scanDir_select h.shows (fun m hm => hm) hr

theorem namedEntry_mem {skips : ℕ → Bool} {blksize : ℕ} {e : ℕ × ℕ}
    (h : namedEntry skips blksize c maps name = some e) :
    e ∈ visibleEntries skips blksize c maps := List.mem_of_find?_eq_some h

theorem findSfn_update (h : DirAt b n maps cnt a c s dir) (hsb : IsVolume b s sb)
    {f : FsSys → ℕ → (ℕ → ℕ) → ℕ → ℕ} (hf : ∀ s off, Local cnt (f s off)) {page off : ℕ}
    (hr : findSfn env dir sb name s = some (.ok (some (page, off)), t)) {r : Except ℕ Unit}
    (hu : updateSfn env page (f t off) t = some (r, u)) :
    Shows maps cnt a (rewritten c (f t) (namedEntry scanSkips (sectorSize * cnt) c maps name)) u := by
  obtain ⟨hsh, hrel⟩ := findSfn_select h hsb hr
  generalize hn : namedEntry scanSkips (sectorSize * cnt) c maps name = o at hrel
  cases hrel with
  | some he =>
    obtain ⟨hpage, hoff⟩ := he
    dsimp only at hpage hoff
    subst hoff
    exact updateSfn_shows hsh (mem_visibleEntries.mp (namedEntry_mem hn)).1 hpage (hf _ _) hu

theorem findSfn_none (h : DirAt b n maps cnt a c s dir) (hsb : IsVolume b s sb)
    (hr : findSfn env dir sb name s = some (.ok none, t)) (f : ℕ → (ℕ → ℕ) → ℕ → ℕ) :
    Shows maps cnt a (rewritten c f (namedEntry scanSkips (sectorSize * cnt) c maps name)) t := by
  obtain ⟨hsh, hrel⟩ := findSfn_select h hsb hr
  generalize namedEntry scanSkips (sectorSize * cnt) c maps name = o at hrel
  cases hrel with
  | none => exact hsh

end Scan

structure NodeAt (b : SuperBlock) (n : ℕ) (s : FsSys) (node p : ℕ) (cs : List ℕ) : Prop where
  file : FileAt b n s node p
  chain : Chain (fatOf b s.sd) fatItemEnd (p :: cs)
  nodup : (p :: cs).Nodup
  bound : ∀ d ∈ cs, d < n

section Update

variable {env : FsEnv} {b : SuperBlock} {n : ℕ} {maps : List ℕ} {cnt : ℕ} {a : ℕ → ℕ}
  {c : ℕ → ℕ → ℕ} {s t u : FsSys} {dir node p : ℕ} {cs : List ℕ} {name : List ℕ}

theorem IsVolume.of_same {sb : ℕ} (h : IsVolume b s sb) (hs : SameObjects s t) :
    IsVolume b t sb := by
  rw [IsVolume, hs.sbs, h]

theorem truncated_quiet (node : ℕ) (s : FsSys) : Quiet s (truncated node s) := by
  have hfree : ∀ (l : List ℕ) (s : FsSys), Quiet s (l.foldl FsSys.kfree s) := by
    intro l
    induction l with
    | nil => exact Quiet.refl
    | cons x l ih =>
      exact fun s => (Quiet.of_eq (s := s) (t := s.kfree x) le_rfl rfl rfl rfl rfl).trans (ih _)
  have hset : Quiet s (s.setInode node fun n =>
      { n with iBlocks := 1, iSize := 0, iDataMap := (s.inodes node).iDataMap.take 1 }) :=
    .of_eq le_rfl rfl rfl rfl rfl
  exact hset.trans (hfree ((s.inodes node).iDataMap.drop 1) _)

theorem matchSfn_content (hd : DirAt b n maps cnt a c s dir) {sb : ℕ} (hsb : IsVolume b s sb)
    {f : ℕ → (ℕ → ℕ) → ℕ → ℕ} (hf : ∀ off, Local cnt (f off)) {α : Type}
    {k : Except ℕ Unit → FsProg α} {r : α}
    (h : (do
      let r ← match ← findSfn env dir sb name with
        | some (page, off) => Prog.attempt (updateSfn env page (f off))
        | none => pure (.ok ())
      k r : FsProg α) s = some (.ok r, t)) :
    ∃ r' u, Shows maps cnt a
      (rewritten c f (namedEntry scanSkips (sectorSize * cnt) c maps name)) u ∧
      k r' u = some (.ok r, t) := by
  obtain ⟨o, s2, h2, h⟩ := Prog.bind_ok_cases h
  cases o with
  | none => exact ⟨.ok (), s2, findSfn_none hd hsb h2 f, h⟩
  | some e =>
    obtain ⟨r1, s3, h3, h⟩ := Prog.bind_ok_cases h
    obtain ⟨r2, hr, h3⟩ := Prog.attempt_cases h3
    cases hr
    exact ⟨r1, s3, findSfn_update hd hsb (f := fun _ => f) (fun _ => hf) h2 h3, h⟩

theorem deleteFat32_content (hv : Volume b n) (hd : DirAt b n maps cnt a c s dir)
    (hn : NodeAt b n s node p cs) (h : deleteFat32 env node dir name s = some (.ok (), t)) :
    Shows maps cnt a
      (rewritten c markDeleted (namedEntry scanSkips (sectorSize * cnt) c maps name)) t := by
  obtain ⟨u, h, ht⟩ := deleteFat32_steps hv hn.file hn.chain hn.nodup hn.bound (fun _ _ => rfl) h
  obtain ⟨r, s2, hc, h⟩ := matchSfn_content (hd.of_table ht) (hn.file.volume.of_same ht.same)
    (markDeleted_local cnt) h
  obtain ⟨_, s3, h3, h⟩ := Prog.bind_ok_cases h
  have hc3 := hc.of_quiet (freeInode_quiet node s2 _ s3 (Quiet.refl s2) h3).1
  cases r with
  | ok _ =>
    cases h
    exact hc3
  | error _ => cases h

theorem clearFat32_content (hv : Volume b n) (hd : DirAt b n maps cnt a c s dir)
    (hn : NodeAt b n s node p cs)
    (hread : ∀ v u, readFat env b.infoFatSec p (iIncCount node s) = some (.ok v, u) →
      isErrValue v = false)
    (h : clearFat32 env node dir name s = some (.ok (), t)) :
    Shows maps cnt a (rewritten c (fun off data => putSfnFileSize data off 0)
      (namedEntry scanSkips (sectorSize * cnt) c maps name)) t := by
  have hb : IsVolume b (iIncCount node s) (s.inodes node).iSb := hn.file.volume
  rw [clearFat32, Prog.modify_bind_run] at h
  obtain ⟨r, s4, h4, h⟩ := Prog.bind_ok_cases h
  obtain ⟨r', hr, h4⟩ := Prog.attempt_cases h4
  cases hr
  cases r with
  | error _ => cases h
  | ok _ =>
    obtain ⟨u, h4, ht⟩ := clearBlocks_steps hv hn.file.counted hn.chain hn.nodup hn.bound
      (fun _ _ => rfl) hread h4
    rw [iIncCount_inodes] at h4
    obtain ⟨r, s2, hc, h4⟩ := matchSfn_content ((hd.counted node).of_table ht)
      (hb.of_same ht.same)
      (fun off => putSfnFileSize_local cnt off 0) h4
    have hc2 := hc.of_quiet (truncated_quiet node s2)
    rw [Prog.modify_bind_run] at h4
    cases r with
    | error _ => cases h4
    | ok _ =>
      cases h4
      cases h
      exact hc2.of_quiet (.of_eq le_rfl rfl rfl rfl rfl)

theorem closeFat32_content {fp dir : ℕ} {s₁ : FsSys}
    (hpar : getDentryParent env (s.files fp).fDentry s = some (.ok dir, s₁))
    (hd : DirAt b n maps cnt a c s₁ dir)
    (h : closeFat32 env fp s = some (.ok (), t)) :
    ∃ size, Shows maps cnt a (rewritten c (fun off data => putSfnFileSize data off size)
      (namedEntry scanSkips (sectorSize * cnt) c maps (s₁.dentries (s.files fp).fDentry).dName)) t := by
  rw [closeFat32, Prog.get_bind_run] at h
  generalize (s.files fp).fDentry = self at *
  obtain ⟨entry, s2, h2, h⟩ := Prog.bind_ok_cases h
  obtain ⟨r, s3, h3, h2⟩ := Prog.bind_ok_cases h2
  obtain ⟨r', hr, h3⟩ := Prog.attempt_cases h3
  cases hr
  rw [hpar] at h3
  cases h3
  cases h2
  split_ifs at h with hself
  · cases h
  · rw [Prog.get_bind_run] at h
    obtain ⟨o, s4, h4, h⟩ := Prog.bind_ok_cases h
    cases o with
    | none => cases h
    | some e =>
      dsimp only at h
      rw [Prog.get_bind_run] at h
      exact ⟨_, findSfn_update hd hd.volume
        (f := fun s off data => putSfnFileSize data off
          (s.inodes (s.dentries self).dInode).iSize)
        (fun s off => putSfnFileSize_local cnt off _) h4 h⟩

end Update

section List

/-- The names "." and "..", of which `list_dir_fat32` makes no entry. -/
def isDotted (name : List ℕ) : Bool :=
  compareFat32 name dotName == 0 || compareFat32 name dotdotName == 0

/-- The entries of one block that `list_dir_fat32` lists. -/
def listedSfn (data : ℕ → ℕ) (offs : List ℕ) : List ℕ :=
  (visibleSfn scanSkips data offs).filter fun off => !isDotted (sfnName data off)

variable {env : FsEnv} {b : SuperBlock} {n : ℕ} {maps ms : List ℕ} {cnt : ℕ} {a : ℕ → ℕ}
  {c : ℕ → ℕ → ℕ} {s : FsSys} {dir page : ℕ} {data data' : ℕ → ℕ} {offs : List ℕ}

theorem SameSfns.listed (h : SameSfns data data' offs) :
    listedSfn data offs = listedSfn data' offs := by
  rw [listedSfn, listedSfn, h.visible]
  exact List.filter_congr fun off ho => by rw [h.name (mem_visibleSfn ho)]

theorem isDotted_iff {name : List ℕ} : isDotted name = true ↔
    compareFat32 name dotName = 0 ∨ compareFat32 name dotdotName = 0 := by
  rw [isDotted, Bool.or_eq_true, beq_iff_eq, beq_iff_eq]

theorem pinned_quiet (d : ℕ) (isdir : Bool) (s : FsSys) : Quiet s (pinned d isdir s) := by
  apply Quiet.of_eq <;> simp [pinned, dIncCount, FsSys.setDentry, FsSys.setInode]

theorem Steady.listSfn {I : FsSys → Prop} (hI : Steady env cnt I) (entry page off : ℕ) :
    Prog.Stays I (listSfn env entry page off) := by
  refine Prog.Ensures.get.bind fun s _ => ?_
  have htail : ∀ curEntry : ℕ, Prog.Stays I (Prog.modify
      (pinned curEntry (sfnAttr (s.pages page).pData off == sfnAttrDir)) : FsProg Unit) :=
    fun d => hI.modify fun s => pinned_quiet d _ s
  dsimp only
  split
  · exact htail _
  · exact (follow_ensures (hI.readDentryFromSfn _ _ _ _)).bind fun ret _ => htail ret

theorem Steady.listEntry {I : FsSys → Prop} (hI : Steady env cnt I) (entry page off : ℕ) :
    Prog.Stays I (listEntry env entry page off) := by
  refine Prog.Ensures.get.bind fun s _ => ?_
  have hname : Prog.Stays I (allocName env (s.pages page).pData off) := by
    refine (hI.of_quiet fun _ => (kmalloc_quiet env).stays).bind fun p _ => ?_
    cases p with
    | none => exact .stuck
    | some p => exact .pure trivial
  refine hname.bind fun curName _ => ?_
  split_ifs
  · exact .pure trivial
  · exact hI.listSfn entry page off

theorem listPage_eq {I : FsSys → Prop} (hI : Steady env cnt I)
    (hdata : ∀ s, I s → (s.pages page).pData = data) (hs : I s) :
    listPage env dir page offs s =
      Prog.forEach (listEntry env dir page) (visibleSfn scanSkips data offs) s := by
  induction offs generalizing s with
  | nil => rfl
  | cons off offs ih =>
    rw [listPage, Prog.get_bind_run]
    simp only [hdata s hs]
    by_cases h1 : data off = sfnMarkUnused
    · rw [if_pos h1, visibleSfn_unused h1]
      rfl
    · rw [if_neg h1, visibleSfn_cons h1]
      by_cases h2 : data off = sfnMarkDeleted
      · rw [if_pos h2, if_pos (.inl h2)]
        exact ih hs
      by_cases h3 : scanSkips (sfnAttr data off) = true
      · rw [if_neg h2, if_pos h3, if_pos (.inr h3)]
        exact ih hs
      rw [if_neg h2, if_neg h3, if_neg (not_or.mpr ⟨h2, h3⟩), Prog.forEach]
      exact Prog.bind_run_congr_right fun _ t ht => ih (hI.listEntry _ _ _ s _ t hs ht).1

/-- What `list_dir_fat32` does with the visible entries of a directory, block by block. -/
def listEntries (env : FsEnv) (dir blksize : ℕ) (c : ℕ → ℕ → ℕ) (maps : List ℕ) : FsProg Unit :=
  Prog.forEach (fun map => do
    let page ← getFspage env map blksize
    Prog.forEach (listEntry env dir page) (visibleSfn scanSkips (c map) (sfnOffsets blksize))) maps

theorem listBlocks_eq (h : Shows maps cnt a c s) (hsub : ∀ m ∈ ms, m ∈ maps) :
    Prog.forEach (fun map => do
      let page ← getFspage env map (sectorSize * cnt)
      listPage env dir page (sfnOffsets (sectorSize * cnt))) ms s =
      listEntries env dir (sectorSize * cnt) c ms s := by
  induction ms generalizing s with
  | nil => rfl
  | cons m ms ih =>
    have hm := hsub m List.mem_cons_self
    have hb := (sectors_shiftRight cnt).le
    rw [listEntries, Prog.forEach, Prog.forEach]
    have hblock : (do
        let page ← getFspage env m (sectorSize * cnt)
        listPage env dir page (sfnOffsets (sectorSize * cnt)) : FsProg Unit) s = (do
        let page ← getFspage env m (sectorSize * cnt)
        Prog.forEach (listEntry env dir page)
          (visibleSfn scanSkips (c m) (sfnOffsets (sectorSize * cnt)))) s := by
      refine Prog.bind_run_congr_right fun page u hu => ?_
      obtain ⟨hsu, hp⟩ := getFspage_shows h hb hu
      have hp := hp page rfl
      rw [← (hsu.sameSfns hm hp).visible]
      exact listPage_eq (Steady.showsPage env maps cnt a c page _) (fun _ hs => hs.2.2)
        ⟨hsu, (hsu.page m hm page hp).1, rfl⟩
    rw [Prog.bind_run_congr hblock]
    refine Prog.bind_run_congr_right fun _ t ht => ih ?_ fun k hk => hsub k (List.mem_cons_of_mem _ hk)
    have hI := Steady.shows env maps cnt a c
    have hstays : Prog.Stays (Shows maps cnt a c) (do
        let page ← getFspage env m (sectorSize * cnt)
        Prog.forEach (listEntry env dir page)
          (visibleSfn scanSkips (c m) (sfnOffsets (sectorSize * cnt)))) :=
      (hI.load m _ hb).bind fun page _ =>
        Prog.Ensures.forEach _ fun off _ => hI.listEntry dir page off
    exact (hstays s _ t h ht).1

theorem listDirFat32_eq (h : DirAt b n maps cnt a c s dir) {fp : ℕ}
    (hfp : (s.files fp).fDentry = dir) : listDirFat32 env fp s =
      (listEntries env dir (sectorSize * cnt) c maps >>= fun _ => pure dir) s := by
  subst hfp
  rw [listDirFat32, Prog.get_bind_run, h.volume.blksize h.blksize, h.blocks]
  exact Prog.bind_run_congr (listBlocks_eq h.shows fun m hm => hm)

end List

section Same

def MadeFrom (env : FsEnv) (maps : List ℕ) (dir : ℕ) (name : List ℕ) (s : FsSys) (d : ℕ) (t : FsSys)
    (e : ℕ × ℕ) : Prop :=
  e.1 ∈ maps ∧ ∃ page u, lookupSfn env dir name s = some (.ok (some (page, e.2)), u) ∧
    (u.maps e.1).mapPage = some (.ok page) ∧
    readDentryFromSfn env (u.pages page).pData e.2 dir name u = some (.ok d, t)

structure SelectedByAll (env : FsEnv) (b : SuperBlock) (n : ℕ) (maps : List ℕ) (cnt : ℕ) (a : ℕ → ℕ)
    (c : ℕ → ℕ → ℕ) (dir : ℕ) (name : List ℕ) (e : ℕ × ℕ) : Prop where
  delete : ∀ s t node p cs, DirAt b n maps cnt a c s dir → NodeAt b n s node p cs →
    deleteFat32 env node dir name s = some (.ok (), t) →
    Shows maps cnt a (rewritten c markDeleted (some e)) t
  clear : ∀ s t node p cs, DirAt b n maps cnt a c s dir → NodeAt b n s node p cs →
    (∀ v u, readFat env b.infoFatSec p (iIncCount node s) = some (.ok v, u) → isErrValue v = false) →
    clearFat32 env node dir name s = some (.ok (), t) →
    Shows maps cnt a (rewritten c (fun off data => putSfnFileSize data off 0) (some e)) t
  close : ∀ s s₁ t fp, getDentryParent env (s.files fp).fDentry s = some (.ok dir, s₁) →
    DirAt b n maps cnt a c s₁ dir → (s₁.dentries (s.files fp).fDentry).dName = name →
    closeFat32 env fp s = some (.ok (), t) →
    ∃ size, Shows maps cnt a
      (rewritten c (fun off data => putSfnFileSize data off size) (some e)) t
  list : ∀ s fp, DirAt b n maps cnt a c s dir → (s.files fp).fDentry = dir →
    listDirFat32 env fp s =
      (listEntries env dir (sectorSize * cnt) c maps >>= fun _ => pure dir) s ∧
    (isDotted (entryName c e) = false → e.2 ∈ listedSfn (c e.1) (sfnOffsets (sectorSize * cnt)))

variable {env : FsEnv} {b : SuperBlock} {n : ℕ} {maps : List ℕ} {cnt : ℕ} {a : ℕ → ℕ}
  {c c' : ℕ → ℕ → ℕ} {s t s₀ t₀ : FsSys} {dir node p d : ℕ} {cs : List ℕ} {name : List ℕ}
  {e : ℕ × ℕ} {skips : ℕ → Bool}

theorem lookupFat32_madeFrom (hd : DirAt b n maps cnt a c s dir)
    (h : lookupFat32 env dir name s = some (.ok d, t)) : ∃ e,
      namedEntry lookupSkips (sectorSize * cnt) c maps name = some e ∧
      MadeFrom env maps dir name s d t e := by
  rw [lookupFat32] at h
  obtain ⟨o, u, h1, h⟩ := Prog.bind_ok_cases h
  obtain ⟨-, hrel⟩ := lookupSfn_select hd h1
  generalize hn : namedEntry lookupSkips (sectorSize * cnt) c maps name = r at hrel
  cases hrel with
  | none => cases h
  | @some e q he =>
    obtain ⟨page, off⟩ := q
    obtain ⟨hpage, hoff⟩ := he
    dsimp only at h hpage hoff
    rw [Prog.get_bind_run] at h
    subst hoff
    exact ⟨e, rfl, (mem_visibleEntries.mp (namedEntry_mem hn)).1, page, u, h1, hpage, h⟩

theorem MadeFrom.named (hd : DirAt b n maps cnt a c s dir) (h : MadeFrom env maps dir name s d t e) :
    namedEntry lookupSkips (sectorSize * cnt) c maps name = some e := by
  obtain ⟨hmem, page, u, h1, hpage, -⟩ := h
  obtain ⟨hsh, hrel⟩ := lookupSfn_select hd h1
  generalize hn : namedEntry lookupSkips (sectorSize * cnt) c maps name = r at hrel
  cases hrel with
  | @some e' _ he =>
    obtain ⟨hpage', hoff⟩ := he
    have h1 : e.1 = e'.1 := hsh.inj e.1 hmem e'.1 (mem_visibleEntries.mp (namedEntry_mem hn)).1 page
      hpage hpage'
    rw [Prod.ext h1 hoff]

theorem visibleEntries_congr (h : ∀ m ∈ maps, ∀ i < sectorSize * cnt, c m i = c' m i) :
    visibleEntries skips (sectorSize * cnt) c maps =
      visibleEntries skips (sectorSize * cnt) c' maps := by
  rw [visibleEntries, visibleEntries, List.flatMap, List.flatMap]
  congr 1
  exact List.map_congr_left fun m hm => by rw [(sameSfns_block (h m hm)).visible]

theorem entryClu_congr (h : ∀ m ∈ maps, ∀ i < sectorSize * cnt, c m i = c' m i)
    (he : e ∈ visibleEntries skips (sectorSize * cnt) c maps) : entryClu c e = entryClu c' e := by
  obtain ⟨hm, ho⟩ := mem_visibleEntries.mp he
  exact (sameSfns_block (h e.1 hm)).clu (mem_visibleSfn ho)

theorem dangling_iff (hsh : Shows maps cnt a (rewritten c markDeleted (some e)) t)
    (he : e ∈ visibleEntries skips (sectorSize * cnt) c maps) (chain : List ℕ) :
    (∀ x ∈ visibleEntries skips (sectorSize * cnt) (blockByte t) maps,
        entryClu (blockByte t) x ∉ chain) ↔
      ∀ x ∈ visibleEntries skips (sectorSize * cnt) c maps, x ≠ e → entryClu c x ∉ chain := by
  have hbytes := hsh.bytes
  have hvis : visibleEntries skips (sectorSize * cnt) (blockByte t) maps =
      (visibleEntries skips (sectorSize * cnt) c maps).filter (· ≠ e) :=
    (visibleEntries_congr hbytes).trans (visibleEntries_mark he maps)
  have hmem : ∀ x, x ∈ visibleEntries skips (sectorSize * cnt) (blockByte t) maps ↔
      x ∈ visibleEntries skips (sectorSize * cnt) c maps ∧ x ≠ e := by
    intro x
    rw [hvis, List.mem_filter, decide_eq_true_iff]
  have hclu : ∀ x, x ∈ visibleEntries skips (sectorSize * cnt) c maps → x ≠ e →
      entryClu (blockByte t) x = entryClu c x := fun x hx hne =>
    (entryClu_congr hbytes ((hmem x).mpr ⟨hx, hne⟩)).trans (entryClu_mark he hx hne)
  constructor
  · intro h x hx hne
    rw [← hclu x hx hne]
    exact h x ((hmem x).mpr ⟨hx, hne⟩)
  · intro h x hx
    obtain ⟨hx, hne⟩ := (hmem x).mp hx
    rw [hclu x hx hne]
    exact h x hx hne

theorem marked_eq {o : Option (ℕ × ℕ)} (he : e ∈ visibleEntries skips (sectorSize * cnt) c maps)
    (h : Shows maps cnt a (rewritten c markDeleted (some e)) t)
    (ho : Shows maps cnt a (rewritten c markDeleted o) t) : o = some e := by
  obtain ⟨hm, hv⟩ := mem_visibleEntries.mp he
  have hlt : e.2 < sectorSize * cnt := by
    have := mem_sfnOffsets (mem_visibleSfn hv)
    rw [sfnSize] at this
    omega
  have hbyte := (h.bytes e.1 hm e.2 hlt).symm.trans (ho.bytes e.1 hm e.2 hlt)
  have hleft : rewritten c markDeleted (some e) e.1 e.2 = sfnMarkDeleted := by
    rw [rewritten, Function.update_self, markDeleted, Function.update_self]
  rw [hleft] at hbyte
  have hnot := (visibleSfn_used hv).2.1
  cases o with
  | none => exact absurd hbyte.symm hnot
  | some x =>
    by_contra hne
    have hne : ¬ (x.1 = e.1 ∧ x.2 = e.2) := fun h => hne (congrArg some (Prod.ext h.1 h.2))
    refine hnot (Eq.trans ?_ hbyte.symm)
    rw [rewritten]
    by_cases h1 : e.1 = x.1
    · have h2 : e.2 ≠ x.2 := fun h2 => hne ⟨h1.symm, h2.symm⟩
      rw [h1, Function.update_self, markDeleted, Function.update_of_ne h2]
    · rw [Function.update_of_ne h1]

theorem selectedByAll (hv : Volume b n)
    (h : namedEntry scanSkips (sectorSize * cnt) c maps name = some e) :
    SelectedByAll env b n maps cnt a c dir name e where
  delete s t node p cs hd hn hr := by
    have hc := deleteFat32_content hv hd hn hr
    rwa [h] at hc
  clear s t node p cs hd hn hread hr := by
    have hc := clearFat32_content hv hd hn hread hr
    rwa [h] at hc
  close s s₁ t fp hpar hd hname hr := by
    obtain ⟨size, hc⟩ := closeFat32_content hpar hd hr
    rw [hname, h] at hc
    exact ⟨size, hc⟩
  list s fp hd hfp := by
    refine ⟨listDirFat32_eq hd hfp, fun hdot => ?_⟩
    rw [listedSfn, List.mem_filter]
    refine ⟨(mem_visibleEntries.mp (namedEntry_mem h)).2, ?_⟩
    rw [entryName] at hdot
    rw [hdot]
    rfl

theorem scans_select_iff (hv : Volume b n)
    (hd₀ : DirAt b n maps cnt a c s₀ dir) (hlook : lookupFat32 env dir name s₀ = some (.ok d, t₀))
    (hd : DirAt b n maps cnt a c s dir) (hn : NodeAt b n s node p cs)
    (hdel : deleteFat32 env node dir name s = some (.ok (), t)) :
    (∃ e, MadeFrom env maps dir name s₀ d t₀ e ∧ SelectedByAll env b n maps cnt a c dir name e ∧
        ∀ x ∈ visibleEntries lookupSkips (sectorSize * cnt) (blockByte t) maps,
          entryClu (blockByte t) x ∉ p :: cs) ↔
      ∃ e, namedEntry lookupSkips (sectorSize * cnt) c maps name = some e ∧
        scanSkips (entryAttr c e) = false ∧
        ∀ x ∈ visibleEntries lookupSkips (sectorSize * cnt) c maps, x ≠ e → entryClu c x ∉ p :: cs := by
  constructor
  · rintro ⟨e, hmade, hall, hdangling⟩
    have hnamed := hmade.named hd₀
    have hmarked := hall.delete s t node p cs hd hn hdel
    have hscan := marked_eq (namedEntry_mem hnamed) hmarked (deleteFat32_content hv hd hn hdel)
    refine ⟨e, hnamed, ?_, (dangling_iff hmarked (namedEntry_mem hnamed) _).mp hdangling⟩
    exact (namedEntry_scan _ _ _ _).mp (hscan.trans hnamed.symm) e hnamed
  · rintro ⟨e, hnamed, hattr, hdangling⟩
    have hscan : namedEntry scanSkips (sectorSize * cnt) c maps name = some e := by
      refine Eq.trans ((namedEntry_scan _ _ _ _).mpr fun x hx => ?_) hnamed
      obtain rfl := Option.some.inj (hx.symm.trans hnamed)
      exact hattr
    have hall : SelectedByAll env b n maps cnt a c dir name e := selectedByAll hv hscan
    obtain ⟨e', hnamed', hmade⟩ := lookupFat32_madeFrom hd₀ hlook
    obtain rfl := Option.some.inj (hnamed.symm.trans hnamed')
    exact ⟨e, hmade, hall, (dangling_iff (hall.delete s t node p cs hd hn hdel)
      (namedEntry_mem hnamed) _).mpr hdangling⟩

def entryTable : List ℕ := [0x0FFFFFF8, 0x0FFFFFFF, fatItemEnd, fatItemEnd, 0, 0, 0, 0]

def entryByte (attr o : ℕ) : ℕ :=
  if o = 0 then 65 else if o < 11 then dummyChar8dot3 else if o = 11 then attr
    else if o = 26 then 3 else 0

/-- The directory at the cluster 2 has one entry, "A", of the file at the cluster 3. -/
def oneEntry (attr : ℕ) : FsSys :=
  { smallVolume entryTable 4 with
    sd := ⟨fun sec => if sec = 38 then tableBytes entryTable else
      if sec = 16384 then entryByte attr else fun _ => 0, 0⟩
    inodes := fun i => if i = 5 then ⟨16392, 1, 0, 1, false, false, [], [], 0⟩
      else ⟨16384, 1, 0, 1, false, true, [], [6], 0⟩ }

theorem oneEntry_dir (attr : ℕ) : DirAt eightSectors 8 [6] 8 (fun _ => 16384)
    (blockByte (oneEntry attr)) (oneEntry attr) 0 := by
  refine ⟨⟨fun _ => ?_, ?_, ?_, ?_, ?_, fun m _ p hp => ?_, ?_, fun _ _ _ _ => rfl, fun p hp => ?_⟩,
    rfl, rfl, rfl, fun m _ sec h1 h2 => ?_⟩
  · change 4096 >>> 9 ≤ 8
    decide
  · intro m hm
    rw [List.mem_singleton.mp hm]
    change 6 < 10
    decide
  · exact fun _ _ => rfl
  · intro _ _
    decide
  · intro m hm k hk hne
    exact absurd ((List.mem_singleton.mp hm).trans (List.mem_singleton.mp hk).symm) hne
  · cases hp
  · intro m hm k hk _ _ _
    exact (List.mem_singleton.mp hm).trans (List.mem_singleton.mp hk).symm
  · cases hp
  · refine ⟨fun hin => ?_, fun e => ?_⟩
    · have h3 : sec < 38 + (8 + 127) / 128 := hin.2
      omega
    · have h3 : sec = 1 := e
      omega

theorem oneEntry_node (attr : ℕ) : NodeAt eightSectors 8 (oneEntry attr) 5 3 [] where
  file := by
    refine ⟨rfl, ?_, by decide, by decide⟩
    change 16392 = cluSec eightSectors 3
    decide
  chain := by
    have h : fatOf eightSectors (oneEntry attr).sd 3 = fatOf eightSectors (oneEntry 0).sd 3 := by
      refine fatOf_congr eightSectors_volume (by decide) fun sec hin => ?_
      have hlt : sec < 38 + (8 + 127) / 128 := hin.2
      change (if sec = 38 then _ else if sec = 16384 then _ else _) = if sec = 38 then _ else _
      rw [if_neg (show sec ≠ 16384 by omega), if_neg (show sec ≠ 16384 by omega)]
    exact h.trans (by decide +kernel)
  nodup := List.nodup_singleton 3
  bound := fun _ h => absurd h List.not_mem_nil

theorem run_of_any {α : Type} {m : FsProg α} {q : FsSys → Bool}
    (h : (m s).any (fun r => r.1.isOk && q r.2) = true) :
    ∃ x u, m s = some (.ok x, u) ∧ q u = true := by
  obtain ⟨⟨r, u⟩, hr, hq⟩ := (Option.any_eq_true _ _).mp h
  obtain ⟨h1, h2⟩ := Bool.and_eq_true_iff.mp hq
  cases r with
  | error _ => cases h1
  | ok x => exact ⟨x, u, hr, h2⟩

def foundAndDeleted (attr : ℕ) (q : FsSys → Bool) : Bool :=
  (lookupFat32 soundEnv 0 [65] (oneEntry attr)).any (fun r => r.1.isOk && true) &&
    (deleteFat32 soundEnv 5 0 [65] (oneEntry attr)).any (fun r => r.1.isOk && q r.2)

theorem foundAndDeleted_runs {attr : ℕ} {q : FsSys → Bool} (h : foundAndDeleted attr q = true) :
    ∃ d t₀ t, lookupFat32 soundEnv 0 [65] (oneEntry attr) = some (.ok d, t₀) ∧
      deleteFat32 soundEnv 5 0 [65] (oneEntry attr) = some (.ok (), t) ∧ q t = true := by
  obtain ⟨h1, h2⟩ := Bool.and_eq_true_iff.mp h
  obtain ⟨d, t₀, h3, -⟩ := run_of_any (q := fun _ => true) h1
  obtain ⟨_, t, h4, h5⟩ := run_of_any h2
  exact ⟨d, t₀, t, h3, h4, h5⟩

theorem scans_select_small : ∃ d t₀ t,
    lookupFat32 soundEnv 0 [65] (oneEntry 0x20) = some (.ok d, t₀) ∧
    deleteFat32 soundEnv 5 0 [65] (oneEntry 0x20) = some (.ok (), t) ∧
    ∃ e, MadeFrom soundEnv [6] 0 [65] (oneEntry 0x20) d t₀ e ∧
      SelectedByAll soundEnv eightSectors 8 [6] 8 (fun _ => 16384) (blockByte (oneEntry 0x20)) 0 [65]
        e ∧
      ∀ x ∈ visibleEntries lookupSkips (sectorSize * 8) (blockByte t) [6],
        entryClu (blockByte t) x ∉ [3] := by
  have hrun : foundAndDeleted 0x20 (fun _ => true) = true := by decide +kernel
  obtain ⟨d, t₀, t, h1, h2, -⟩ := foundAndDeleted_runs hrun
  have hnamed : namedEntry lookupSkips (sectorSize * 8) (blockByte (oneEntry 0x20)) [6] [65] =
      some (6, 0) := by decide +kernel
  have hvisible : visibleEntries lookupSkips (sectorSize * 8) (blockByte (oneEntry 0x20)) [6] =
      [(6, 0)] := by decide +kernel
  refine ⟨d, t₀, t, h1, h2, (scans_select_iff eightSectors_volume (oneEntry_dir 0x20) h1
    (oneEntry_dir 0x20) (oneEntry_node 0x20) h2).mpr ⟨(6, 0), hnamed, by decide +kernel, ?_⟩⟩
  intro x hx hne
  rw [hvisible] at hx
  exact absurd (List.mem_singleton.mp hx) hne

/-- The entry of a system file is found, but it is not marked when the file is deleted. -/
theorem system_entry_dangles : ∃ d t₀ t,
    lookupFat32 soundEnv 0 [65] (oneEntry sfnAttrSystem) = some (.ok d, t₀) ∧
    deleteFat32 soundEnv 5 0 [65] (oneEntry sfnAttrSystem) = some (.ok (), t) ∧
    fatOf eightSectors t.sd 3 = fatItemFree ∧
    ¬ ∀ x ∈ visibleEntries lookupSkips (sectorSize * 8) (blockByte t) [6],
      entryClu (blockByte t) x ∉ [3] := by
  have hrun : foundAndDeleted sfnAttrSystem (fun t => fatOf eightSectors t.sd 3 == fatItemFree &&
      (visibleEntries lookupSkips (sectorSize * 8) (blockByte t) [6]).any
        (fun x => entryClu (blockByte t) x == 3)) = true := by decide +kernel
  obtain ⟨d, t₀, t, h1, h2, h3⟩ := foundAndDeleted_runs hrun
  obtain ⟨h3, h4⟩ := Bool.and_eq_true_iff.mp h3
  obtain ⟨x, hx, hclu⟩ := List.any_eq_true.mp h4
  exact ⟨d, t₀, t, h1, h2, eq_of_beq h3, fun h =>
    h x hx (List.mem_singleton.mpr (eq_of_beq hclu))⟩

end Same

end OurOS.Fs
