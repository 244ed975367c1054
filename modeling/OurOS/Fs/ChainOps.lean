import OurOS.Fs.FatChain
import OurOS.Fs.FrameRun

namespace OurOS.Fs

/-- The super block `sb` is the volume `b`, where the search for free clusters may start anywhere. -/
def IsVolume (b : SuperBlock) (s : FsSys) (sb : ℕ) : Prop :=
  s.sbs sb = { b with infoNextClu := (s.sbs sb).infoNextClu }

structure FileAt (b : SuperBlock) (n : ℕ) (s : FsSys) (node c : ℕ) : Prop where
  volume : IsVolume b s (s.inodes node).iSb
  ino : (s.inodes node).iIno = cluSec b c
  two_le : 2 ≤ c
  lt : c < n

def nextClu (s : FsSys) (node : ℕ) : ℕ := (s.sbs (s.inodes node).iSb).infoNextClu

variable {env : FsEnv} {b : SuperBlock} {n B node c : ℕ} {s t : FsSys} {fat : ℕ → ℕ}

theorem IsVolume.volume {sb : ℕ} (h : IsVolume b s sb) (hv : Volume b n) : Volume (s.sbs sb) n := by
  rw [h]
  exact ⟨hv.entries, hv.table, hv.info, hv.info_lt, hv.clusters⟩

theorem IsVolume.fatOf {sb : ℕ} (h : IsVolume b s sb) (sd : SdCard) (clu : ℕ) :
    fatOf (s.sbs sb) sd clu = fatOf b sd clu := by
  rw [h]
  rfl

theorem IsVolume.tableTo {s₁ : FsSys} {sb : ℕ} (h : IsVolume b s sb)
    (ht : TableTo (s.sbs sb) n s₁ t fat) : TableTo b n s₁ t fat := by
  rw [h] at ht
  exact ⟨ht.same, ht.sectors, ht.table⟩

theorem IsVolume.tableOnly {s₁ : FsSys} {sb : ℕ} (h : IsVolume b s sb)
    (ht : TableOnly (s.sbs sb) n s₁ t fat) : TableOnly b n s₁ t fat := by
  have hinfo := ht.info
  rw [h] at hinfo
  exact ⟨h.tableTo ht.toTableTo, ht.sbs, hinfo⟩

theorem IsVolume.hintTo {s₁ : FsSys} {sb value : ℕ} (h : IsVolume b s sb)
    (ht : HintTo (s.sbs sb) sb s₁ t value) : HintTo b sb s₁ t value := by
  rw [h] at ht
  exact ⟨ht.hint, ht.info⟩

theorem FileAt.first (h : FileAt b n s node c) (hv : Volume b n) :
    secToClu (s.sbs (s.inodes node).iSb).infoCluBase (s.inodes node).iIno
      (s.sbs (s.inodes node).iSb).sBlockbits = c := by
  rw [h.ino, h.volume]
  exact hv.clusters c h.two_le h.lt

section Expand

theorem Lengthened.congr {b' : SuperBlock} {xs : List ℕ} (h : Lengthened b node s t xs)
    (he : ∀ c, cluSec b' c = cluSec b c) : Lengthened b' node s t xs := by
  obtain ⟨new, h1, h2, h3⟩ := h.grown
  refine ⟨⟨new, h1, h2, h3.trans (List.map_congr_left fun c _ => (he c).symm)⟩, fun m => ?_⟩
  exact (h.maps m).imp_right fun ⟨c, hc⟩ => ⟨c, hc.trans (he c).symm⟩

theorem getLastD_lt {xs : List ℕ} (hc : c < n) (h : ∀ x ∈ xs, x < n) : xs.getLastD c < n := by
  cases xs with
  | nil => exact hc
  | cons x xs =>
    rw [List.getLastD_cons]
    exact h _ List.getLastD_mem_cons

theorem expandBlocks_spec (he : Reliable env) (hv : Volume b n) (hf : FileAt b n s node c)
    {num : ℕ} {xs : List ℕ} (h0 : ∀ x ∈ xs, x ≠ 0)
    (hc : isErrValue (fat c) = false ∧ fat c ≠ fatItemFree)
    (hrun : freeRun fat n num (nextClu s node) = some xs) (ht : ∀ c < n, fatOf b s.sd c = fat c) :
    ∃ t, expandBlocks env node num s = some (.ok (), t) ∧
      ((s.inodes node).iBlocks + num < uintRange → Lengthened b node s t xs) ∧
      (hintAfter (nextClu s node) xs < uintRange →
        HintTo b (s.inodes node).iSb s t (hintAfter (nextClu s node) xs)) ∧
      ∀ d < n, fatOf b t.sd d = linkAll fatItemEnd fat c xs d := by
  have hb := hf.volume
  have hv' := hb.volume hv
  obtain ⟨s1, h1, h2, ⟨hsbs, hsec⟩, h3⟩ := expandLoop_spec he hv' node h0 hrun hf.lt (.inr hc)
    (s := s) fun d hd => (hb.fatOf _ _).trans (ht d hd)
  have hlast : xs.getLastD c < n :=
    getLastD_lt hf.lt fun x hx => ((freeRun_spec hrun).2.2 x hx).2.1
  obtain ⟨s2, h4, t4⟩ := writeFat_spec he hv' hlast (show fatItemEnd < uintRange by decide) h3
  obtain ⟨s3, h5, t5, h6⟩ := updateNextClu_spec he hv' (s.inodes node).iSb
    (hintAfter (nextClu s node) xs) (by rw [t4.sbs, hsbs]) t4.table
  refine ⟨s3, ?_, fun hsmall => ?_, fun hval => ?_, fun d hd => ?_⟩
  · rw [expandBlocks, Prog.get_bind_run]
    rw [nextClu] at h1 h5
    rw [hf.first hv, Prog.bind_ok h1, Prog.bind_ok h4]
    exact Prog.bind_ok (Prog.attempt_run h5)
  · have hsame : SameObjects s1 s3 := IsTrans.trans _ _ _ t4.same t5.same
    have h6 := (h2 hsmall).trans (Lengthened.of_same hsame)
    rw [List.append_nil] at h6
    refine h6.congr fun c => ?_
    rw [hb]
    rfl
  · exact hb.hintTo ((h6 hval).before (t4.sbs.trans hsbs) (t4.info.trans (hsec _ hv'.info)))
  · rw [← hb.fatOf, linkAll_eq]
    exact t5.table d hd

theorem expandFat32_spec (he : Reliable env) (hv : Volume b n) (hf : FileAt b n s node c)
    {num : ℕ} {xs : List ℕ} (h0 : ∀ x ∈ xs, x ≠ 0)
    (hc : isErrValue (fat c) = false ∧ fat c ≠ fatItemFree)
    (hrun : freeRun fat n num (nextClu s node) = some xs) (ht : ∀ c < n, fatOf b s.sd c = fat c) :
    ∃ t, expandFat32 env node num s = some (.ok (), t) ∧
      ((s.inodes node).iBlocks + num < uintRange → Lengthened b node s t xs) ∧
      (hintAfter (nextClu s node) xs < uintRange →
        HintTo b (s.inodes node).iSb s t (hintAfter (nextClu s node) xs)) ∧
      ∀ d < n, fatOf b t.sd d = linkAll fatItemEnd fat c xs d := by
  have hin := iIncCount_inodes node s node
  have hsb : ((iIncCount node s).inodes node).iSb = (s.inodes node).iSb := by rw [hin]
  have hf' : FileAt b n (iIncCount node s) node c := by
    refine ⟨?_, by rw [hin]; exact hf.ino, hf.two_le, hf.lt⟩
    rw [hsb]
    exact hf.volume
  have hnext : nextClu (iIncCount node s) node = nextClu s node := by
    rw [nextClu, hsb]
    rfl
  obtain ⟨t, h1, h2, h3, h4⟩ := expandBlocks_spec he hv hf' h0 hc (hnext ▸ hrun) ht
  refine ⟨iDecCount node t, ?_, fun hsmall => ?_, fun hval => ?_, h4⟩
  · rw [expandFat32, Prog.modify_bind_run, Prog.bind_ok (Prog.attempt_run h1)]
    rfl
  · have hl := h2 (by rw [hin]; exact hsmall)
    obtain ⟨new, h4, h5, h6⟩ := hl.grown
    exact ⟨⟨new, h4, h5.counted, h6⟩, hl.maps⟩
  · rw [hnext, hsb] at h3
    exact ⟨(h3 hval).hint, (h3 hval).info⟩

end Expand

section Free

theorem length_lt_uintRange (hv : Volume b n) {cs : List ℕ} (hnd : cs.Nodup) (hlt : ∀ c ∈ cs, c < n) :
    cs.length < uintRange := by
  have h1 := (hnd.subperm fun c hc => List.mem_range.mpr (hlt c hc)).length_le
  have h2 := hv.entries
  rw [List.length_range] at h1
  rw [fatItemEnd] at h2
  rw [uintRange]
  omega

theorem Apart.of_same {F : ℕ → Prop} (h : Apart F B s) (hs : SameObjects s t) : Apart F B t :=
  ((Kept.refl (X := fun _ => False) h).of_same (W := True) hs (absurd trivial) (absurd trivial)).apart

theorem Kept.fatOf_of {F X : ℕ → Prop} (hv : Volume b n) (hF : ∀ sec, InTable b n sec → F sec)
    (h : Kept F B X False s t) {d : ℕ} (hd : d < n) : Fs.fatOf b t.sd d = Fs.fatOf b s.sd d :=
  fatOf_congr hv hd fun sec hsec => h.table not_false sec (hF sec hsec)

theorem Kept.fatOf {X : ℕ → Prop} (hv : Volume b n) (h : Kept (InTable b n) B X False s t) {d : ℕ}
    (hd : d < n) : Fs.fatOf b t.sd d = Fs.fatOf b s.sd d := h.fatOf_of hv (fun _ h => h) hd

/-- What a function makes of the table and of the hint, where the pages are apart from the sectors
in `F`. -/
structure TableHint (F : ℕ → Prop) (b : SuperBlock) (n sb : ℕ) (s t : FsSys) (fat : ℕ → ℕ)
    (value : ℕ) : Prop where
  table : ∀ d < n, Fs.fatOf b t.sd d = fat d
  hint : F b.infoFsinfoSec → value < uintRange → HintTo b sb s t value

theorem TableHint.kept {F X : ℕ → Prop} {sb value : ℕ} {u : FsSys} (hv : Volume b n)
    (hF : ∀ sec, InTable b n sec → F sec) (h : TableHint F b n sb s t fat value)
    (hk : Kept F B X False t u) : TableHint F b n sb s u fat value :=
  ⟨fun d hd => (hk.fatOf_of hv hF hd).trans (h.table d hd), fun hf hval =>
    (h.hint hf hval).after (hk.nextClu not_false) (hk.table not_false _ hf) hv.info_lt⟩

theorem foldl_min_lt (cs : List ℕ) : cs.foldl min maxClu < uintRange :=
  (foldl_min_le cs maxClu).1.trans_lt (by decide)

/-- The step of `clear_fat32` that makes the first cluster the last one. -/
def endChain (env : FsEnv) (fatBaseSec cluNum nextClu : ℕ) : FsProg Unit :=
  if nextClu ≠ fatItemEnd then writeFat env fatBaseSec cluNum fatItemEnd else pure ()

theorem clearBlocks_eq (node parent : ℕ) (name : List ℕ) (s : FsSys) :
    clearBlocks env node parent name s = (do
      let nextClu ← readFat env (s.sbs (s.inodes node).iSb).infoFatSec
        (secToClu (s.sbs (s.inodes node).iSb).infoCluBase (s.inodes node).iIno
          (s.sbs (s.inodes node).iSb).sBlockbits)
      endChain env (s.sbs (s.inodes node).iSb).infoFatSec
        (secToClu (s.sbs (s.inodes node).iSb).infoCluBase (s.inodes node).iIno
          (s.sbs (s.inodes node).iSb).sBlockbits) nextClu
      let minClu ← freeChain env (s.sbs (s.inodes node).iSb).infoFatSec uintRange nextClu maxClu
      lowerNextClu env (s.inodes node).iSb minClu
      clearSfn env node parent (s.inodes node).iSb name : FsProg Unit) s := by
  rw [clearBlocks, Prog.get_bind_run]
  refine Prog.bind_run_congr_right fun nextClu t _ => ?_
  rw [endChain]
  split_ifs <;> rfl

theorem cutChain_spec (he : Reliable env) (hv : Volume b n) (hf : FileAt b n s node c)
    {cs : List ℕ} (hch : Chain fat fatItemEnd (c :: cs)) (hnd : (c :: cs).Nodup)
    (hlt : ∀ d ∈ cs, d < n) (ht : ∀ c < n, fatOf b s.sd c = fat c) :
    ∃ s1 s2 s3,
      readFat env (s.sbs (s.inodes node).iSb).infoFatSec c s = some (.ok (fat c), s1) ∧
      endChain env (s.sbs (s.inodes node).iSb).infoFatSec c (fat c) s1 = some (.ok (), s2) ∧
      freeChain env (s.sbs (s.inodes node).iSb).infoFatSec uintRange (fat c) maxClu s2 =
        some (.ok (cs.foldl min maxClu), s3) ∧
      TableOnly (s.sbs (s.inodes node).iSb) n s s3
        (setAll (Function.update fat c fatItemEnd) fatItemFree cs) := by
  have hb := hf.volume
  have hv' := hb.volume hv
  obtain ⟨hnot, hnd⟩ := List.nodup_cons.mp hnd
  have hlen := length_lt_uintRange hv hnd hlt
  obtain ⟨s1, h1, t1⟩ := readFat_spec (b := s.sbs (s.inodes node).iSb) he hf.lt
    fun d hd => (hb.fatOf _ _).trans (ht d hd)
  have hupd : ∀ d ∈ cs, Function.update fat c fatItemEnd d = fat d := fun d hd =>
    Function.update_of_ne (fun e : d = c => hnot (e ▸ hd)) _ _
  have hcut : ∃ s2, endChain env (s.sbs (s.inodes node).iSb).infoFatSec c (fat c) s1 =
        some (.ok (), s2) ∧
      TableOnly (s.sbs (s.inodes node).iSb) n s1 s2 (Function.update fat c fatItemEnd) := by
    rw [endChain]
    by_cases hend : fat c = fatItemEnd
    · refine ⟨s1, by rw [if_neg (not_not.mpr hend)]; rfl, ?_⟩
      rw [← hend, Function.update_eq_self]
      exact TableOnly.refl t1.table
    · rw [if_pos hend]
      exact writeFat_spec he hv' hf.lt (show fatItemEnd < uintRange by decide) t1.table
  obtain ⟨s2, h2, t2⟩ := hcut
  have hnext : fat c = fatItemEnd ∧ cs = [] ∨ cs.head? = some (fat c) ∧
      Chain (Function.update fat c fatItemEnd) fatItemEnd cs := by
    cases cs with
    | nil => exact .inl ⟨hch, rfl⟩
    | cons d ds => exact .inr ⟨by simp [hch.1], hch.2.congr hupd⟩
  obtain ⟨s3, h3, t3⟩ := freeChain_spec he hv' maxClu hnext hnd hlt hlen t2.table
  exact ⟨s1, s2, s3, h1, h2, h3, t1.trans (t2.trans t3)⟩

theorem clearBlocks_run (he : Reliable env) (hv : Volume b n) (hf : FileAt b n s node c)
    {cs : List ℕ} (hch : Chain fat fatItemEnd (c :: cs)) (hnd : (c :: cs).Nodup)
    (hlt : ∀ d ∈ cs, d < n) (ht : ∀ c < n, fatOf b s.sd c = fat c) (parent : ℕ) (name : List ℕ) :
    ∃ t, clearBlocks env node parent name s =
        clearSfn env node parent (s.inodes node).iSb name t ∧
      TableTo b n s t (setAll (Function.update fat c fatItemEnd) fatItemFree cs) ∧
      HintTo b (s.inodes node).iSb s t (min (nextClu s node) (cs.foldl min maxClu)) := by
  obtain ⟨s1, s2, s3, h1, h2, h3, t3⟩ := cutChain_spec he hv hf hch hnd hlt ht
  obtain ⟨s4, h4, t4, h5⟩ := lowerNextClu_spec he (hf.volume.volume hv) (s.inodes node).iSb
    (foldl_min_lt cs) (by rw [t3.sbs]) t3.table
  refine ⟨s4, ?_, hf.volume.tableTo (t3.toTableTo.trans t4), hf.volume.hintTo ?_⟩
  · rw [clearBlocks_eq, hf.first hv, Prog.bind_ok h1, Prog.bind_ok h2, Prog.bind_ok h3]
    exact Prog.bind_ok h4
  · rw [t3.sbs] at h5
    exact h5.before t3.sbs t3.info

theorem FileAt.counted (h : FileAt b n s node c) : FileAt b n (iIncCount node s) node c := by
  have hin := iIncCount_inodes node s node
  refine ⟨?_, by rw [hin]; exact h.ino, h.two_le, h.lt⟩
  rw [hin]
  exact h.volume

theorem clearFat32_table (he : Reliable env) (hv : Volume b n) (hf : FileAt b n s node c)
    {F : ℕ → Prop} (hap : Apart F B s) (hF : ∀ sec, InTable b n sec → F sec) {cs : List ℕ}
    (hch : Chain fat fatItemEnd (c :: cs)) (hnd : (c :: cs).Nodup) (hlt : ∀ d ∈ cs, d < n)
    (ht : ∀ c < n, fatOf b s.sd c = fat c) {parent : ℕ} {name : List ℕ} {r : Except ℕ Unit}
    (h : clearFat32 env node parent name s = some (r, t)) :
    TableHint F b n (s.inodes node).iSb s t
      (setAll (Function.update fat c fatItemEnd) fatItemFree cs)
      (min (nextClu s node) (cs.foldl min maxClu)) := by
  obtain ⟨s1, h1, t1, hint1⟩ := clearBlocks_run he hv hf.counted hch hnd hlt ht parent name
  have hsb : ((iIncCount node s).inodes node).iSb = (s.inodes node).iSb := by
    rw [iIncCount_inodes]
  have hnext : nextClu (iIncCount node s) node = nextClu s node := by
    rw [nextClu, hsb]
    rfl
  rw [hsb, hnext] at hint1
  have hap' : Apart F B (iIncCount node s) :=
    ⟨hap.blksize, hap.clusters, hap.maps, hap.pages⟩
  have hap1 := hap'.of_same t1.same
  have hcut : TableHint F b n (s.inodes node).iSb s s1
      (setAll (Function.update fat c fatItemEnd) fatItemFree cs)
      (min (nextClu s node) (cs.foldl min maxClu)) :=
    ⟨t1.table, fun _ _ => ⟨hint1.hint, hint1.info⟩⟩
  rw [clearFat32, Prog.modify_bind_run] at h
  rcases Prog.bind_cases h with ⟨r1, s2, h4, h⟩ | ⟨e, h4, -⟩
  · obtain ⟨r2, hr, h4⟩ := Prog.attempt_cases h4
    cases hr
    rw [h1] at h4
    have hkept := (clearSfn_kept (X := fun _ => True) (W := False) env trivial _ _ _ _ _ _
      (Kept.refl hap1) h4).1
    rw [Prog.modify_bind_run] at h
    have htd : t.sd = s2.sd ∧ t.sbs = s2.sbs := by
      cases r1 <;> cases h <;> exact ⟨rfl, rfl⟩
    obtain ⟨h5, h6⟩ := hcut.kept hv hF hkept
    refine ⟨by rw [htd.1]; exact h5, fun hf hval => ?_⟩
    exact (h6 hf hval).after htd.2 (by rw [htd.1]) hv.info_lt
  · obtain ⟨_, hr, -⟩ := Prog.attempt_cases h4
    cases hr

theorem freeWhole_spec (he : Reliable env) (hv : Volume b n) (hf : FileAt b n s node c)
    {cs : List ℕ} (hch : Chain fat fatItemEnd (c :: cs)) (hnd : (c :: cs).Nodup)
    (hlt : ∀ d ∈ cs, d < n) (ht : ∀ c < n, fatOf b s.sd c = fat c) :
    ∃ s1 s2,
      freeClu env (s.sbs (s.inodes node).iSb).infoFatSec c maxClu s =
        some (.ok (fat c, min maxClu c), s1) ∧
      freeChain env (s.sbs (s.inodes node).iSb).infoFatSec uintRange (fat c) (min maxClu c) s1 =
        some (.ok ((c :: cs).foldl min maxClu), s2) ∧
      TableOnly (s.sbs (s.inodes node).iSb) n s s2 (setAll fat fatItemFree (c :: cs)) := by
  have hb := hf.volume
  have hv' := hb.volume hv
  obtain ⟨hnot, hnd⟩ := List.nodup_cons.mp hnd
  have hlen := length_lt_uintRange hv hnd hlt
  have hnext : fat c = fatItemEnd ∧ cs = [] ∨ cs.head? = some (fat c) ∧
      Chain (Function.update fat c fatItemFree) fatItemEnd cs := by
    cases cs with
    | nil => exact .inl ⟨hch, rfl⟩
    | cons d ds =>
      refine .inr ⟨by simp [hch.1], hch.2.congr fun e he => ?_⟩
      exact Function.update_of_ne (fun h : e = c => hnot (h ▸ he)) _ _
  have hval : isErrValue (fat c) = false := by
    rcases hnext with ⟨e, -⟩ | ⟨e, -⟩
    · rw [e]
      exact not_err_end
    · exact hv.not_err (hlt _ (List.mem_of_head? e))
  obtain ⟨s1, h1, t1⟩ := freeClu_spec he hv' maxClu hf.lt hval
    fun d hd => (hb.fatOf _ _).trans (ht d hd)
  obtain ⟨s2, h2, t2⟩ := freeChain_spec he hv' (min maxClu c) hnext hnd hlt hlen t1.table
  refine ⟨s1, s2, h1, h2, ?_⟩
  rw [← setAll_cons]
  exact t1.trans t2

theorem deleteFat32_run (he : Reliable env) (hv : Volume b n) (hf : FileAt b n s node c)
    {cs : List ℕ} (hch : Chain fat fatItemEnd (c :: cs)) (hnd : (c :: cs).Nodup)
    (hlt : ∀ d ∈ cs, d < n) (ht : ∀ c < n, fatOf b s.sd c = fat c) (parent : ℕ) (name : List ℕ) :
    ∃ t, deleteFat32 env node parent name s =
        deleteSfn env node parent (s.inodes node).iSb name t ∧
      TableTo b n s t (setAll fat fatItemFree (c :: cs)) ∧
      HintTo b (s.inodes node).iSb s t (min (nextClu s node) ((c :: cs).foldl min maxClu)) := by
  obtain ⟨s1, s2, h1, h2, t2⟩ := freeWhole_spec he hv hf hch hnd hlt ht
  obtain ⟨s3, h3, t3, h4⟩ := lowerNextClu_spec he (hf.volume.volume hv) (s.inodes node).iSb
    (foldl_min_lt (c :: cs)) (by rw [t2.sbs]) t2.table
  refine ⟨s3, ?_, hf.volume.tableTo (t2.toTableTo.trans t3), hf.volume.hintTo ?_⟩
  · rw [deleteFat32, Prog.get_bind_run]
    simp only [hf.first hv]
    rw [Prog.bind_ok h1, Prog.bind_ok h2]
    exact Prog.bind_ok h3
  · rw [t2.sbs] at h4
    exact h4.before t2.sbs t2.info

theorem deleteFat32_table (he : Reliable env) (hv : Volume b n) (hf : FileAt b n s node c)
    {F : ℕ → Prop} (hap : Apart F B s) (hF : ∀ sec, InTable b n sec → F sec) {cs : List ℕ}
    (hch : Chain fat fatItemEnd (c :: cs)) (hnd : (c :: cs).Nodup) (hlt : ∀ d ∈ cs, d < n)
    (ht : ∀ c < n, fatOf b s.sd c = fat c) {parent : ℕ} {name : List ℕ} {r : Except ℕ Unit}
    (h : deleteFat32 env node parent name s = some (r, t)) :
    TableHint F b n (s.inodes node).iSb s t (setAll fat fatItemFree (c :: cs))
      (min (nextClu s node) ((c :: cs).foldl min maxClu)) := by
  obtain ⟨s1, h1, t1, hint1⟩ := deleteFat32_run he hv hf hch hnd hlt ht parent name
  rw [h1] at h
  have hkept := (deleteSfn_kept (X := fun _ => False) (W := False) env _ _ _ _ _ _ _
    (Kept.refl (hap.of_same t1.same)) h).1
  exact TableHint.kept hv hF ⟨t1.table, fun _ _ => hint1⟩ hkept

end Free

section Write

/-- The number of blocks for which `file_expand_to` calls `expand_fat32`, where it does. -/
def growth (s : FsSys) (fp size : ℕ) : Option ℕ :=
  let expand := expandBytes s fp size
  if (s.files fp).fSize < size ∧ 0 < expand ∧ expand < 2 ^ 31 then
    some (expandBlks (s.sbs (s.inodes (fileInode s fp)).iSb) expand)
  else none

structure Grows (env : FsEnv) (s : FsSys) (fp size : ℕ) (u v : FsSys) : Prop where
  expanded : ∀ k, growth s fp size = some k →
    ∃ r, expandFat32 env (fileInode s fp) k s = some (r, u)
  same : growth s fp size = none → u = s
  sized : v = u ∨ v = (u.setInode (fileInode s fp) fun n => { n with iSize := size }).setFile
    fp fun f => { f with fSize := size }

variable {F : ℕ → Prop} {fp : ℕ} {buf : List ℕ}

theorem Grows.apart {size : ℕ} {u v : FsSys} (h : Grows env s fp size u v) (hap : Apart F B s) :
    Apart F B v := by
  have hu : Apart F B u := by
    cases hg : growth s fp size with
    | none =>
      rw [h.same hg]
      exact hap
    | some k =>
      obtain ⟨r, hr⟩ := h.expanded k hg
      exact (expandFat32_kept (X := fun _ => True) env trivial trivial k _ _ _ (Kept.refl hap) hr).1.apart
  rcases h.sized with rfl | rfl
  · exact hu
  · exact ⟨hu.blksize, hu.clusters, hu.maps, hu.pages⟩

theorem Grows.refl {size : ℕ} (h : growth s fp size = none) : Grows env s fp size s s := by
  refine ⟨fun k hk => ?_, fun _ => rfl, .inl rfl⟩
  rw [h] at hk
  cases hk

theorem fileExpandTo_cases {size : ℕ} {r : Except ℕ Unit}
    (h : fileExpandTo env fp size s = some (r, t)) : ∃ u, Grows env s fp size u t := by
  rw [fileExpandTo, Prog.get_bind_run] at h
  by_cases hsize : size ≤ (s.files fp).fSize
  · rw [if_pos hsize] at h
    cases h
    exact ⟨s, Grows.refl (if_neg fun hc => hc.1.not_ge hsize)⟩
  rw [if_neg hsize] at h
  by_cases hcond : 0 < expandBytes s fp size ∧ expandBytes s fp size < 2 ^ 31
  · have hg : growth s fp size = some (expandBlks (s.sbs (s.inodes (fileInode s fp)).iSb)
        (expandBytes s fp size)) := if_pos ⟨Nat.lt_of_not_le hsize, hcond⟩
    rw [if_pos hcond] at h
    rcases Prog.bind_cases h with ⟨_, u, h1, h⟩ | ⟨e, h1, -⟩
    · cases h
      refine ⟨u, fun k hk => ?_, fun hn => ?_, .inr rfl⟩
      · obtain rfl := Option.some.inj (hg.symm.trans hk)
        exact ⟨_, h1⟩
      · rw [hg] at hn
        cases hn
    · refine ⟨t, fun k hk => ?_, fun hn => ?_, .inl rfl⟩
      · obtain rfl := Option.some.inj (hg.symm.trans hk)
        exact ⟨_, h1⟩
      · rw [hg] at hn
        cases hn
  · have hg : growth s fp size = none := if_neg fun hc => hcond hc.2
    rw [if_neg hcond] at h
    cases h
    refine ⟨s, fun k hk => ?_, fun _ => rfl, .inr rfl⟩
    rw [hg] at hk
    cases hk

theorem fsWrite_cases {r : Except ℕ Unit} (hw : hasMode (s.files fp).fMode fModeWriteMask = true)
    (hap : Apart F B s) (h : fsWrite env fp buf s = some (r, t)) :
    ∃ u v, Grows env s fp (writeEnd s fp buf.length) u v ∧
      Kept F B (fun _ => False) False v t := by
  rcases fsWrite_inv h with ⟨hmode, -⟩ | ⟨-, -, e, -, hexp⟩ | ⟨v, hwrite, hrest⟩
  · exact absurd hw hmode
  · obtain ⟨u, hg⟩ := fileExpandTo_cases hexp
    exact ⟨u, t, hg, Kept.refl (hg.apart hap)⟩
  · obtain ⟨u, hg⟩ : ∃ u, Grows env s fp (writeEnd s fp buf.length) u v := by
      rcases hwrite.expand with ⟨-, hexp⟩ | ⟨hsize, rfl⟩
      · exact fileExpandTo_cases hexp
      · exact ⟨v, Grows.refl (if_neg fun hc => hsize.not_gt hc.1)⟩
    exact ⟨u, v, hg, (writeRest_kept env fp _ buf _ _ _ (Kept.refl (hg.apart hap)) hrest).1⟩

end Write

section Append

def openedAtEnd (entry : ℕ) (s : FsSys) : FsSys :=
  let t := dIncCount entry (grabbed s)
  atEnd s.brk entry (t.setFile s.brk fun _ => newFile t entry fModeAppend)

def appendGrowth (s : FsSys) (parent : ℕ) : Option ℕ :=
  growth (openedAtEnd parent s) s.brk (writeEnd (openedAtEnd parent s) s.brk sfnSize)

theorem openedAtEnd_dInode (entry : ℕ) (s : FsSys) (d : ℕ) :
    ((openedAtEnd entry s).dentries d).dInode = (s.dentries d).dInode := by
  by_cases e : d = entry
  · subst e
    simp [openedAtEnd, atEnd, dIncCount, grabbed, FsSys.setDentry, FsSys.setFile]
  · simp [openedAtEnd, atEnd, dIncCount, grabbed, FsSys.setDentry, FsSys.setFile, e]

theorem openedAtEnd_file (entry : ℕ) (s : FsSys) :
    ((openedAtEnd entry s).files s.brk).fDentry = entry ∧
      ((openedAtEnd entry s).files s.brk).fMode = fModeAppend ∧
      ((openedAtEnd entry s).files s.brk).fSize = (s.inodes (s.dentries entry).dInode).iSize ∧
      ((openedAtEnd entry s).files s.brk).fPos = (s.inodes (s.dentries entry).dInode).iSize := by
  simp [openedAtEnd, atEnd, dIncCount, grabbed, newFile, FsSys.setDentry, FsSys.setFile]

theorem openedAtEnd_inode (entry : ℕ) (s : FsSys) :
    fileInode (openedAtEnd entry s) s.brk = (s.dentries entry).dInode := by
  rw [fileInode, (openedAtEnd_file entry s).1, openedAtEnd_dInode]

theorem appendGrowth_congr {parent : ℕ} (hd : (t.dentries parent).dInode = (s.dentries parent).dInode)
    (hsb : t.sbs = s.sbs)
    (hi : (t.inodes (s.dentries parent).dInode).iSb = (s.inodes (s.dentries parent).dInode).iSb)
    (hz : (t.inodes (s.dentries parent).dInode).iSize = (s.inodes (s.dentries parent).dInode).iSize)
    (hb : (t.inodes (s.dentries parent).dInode).iBlocks =
      (s.inodes (s.dentries parent).dInode).iBlocks) : appendGrowth t parent = appendGrowth s parent := by
  have hin : ∀ u : FsSys, (openedAtEnd parent u).inodes = u.inodes := fun _ => rfl
  have hsbs : ∀ u : FsSys, (openedAtEnd parent u).sbs = u.sbs := fun _ => rfl
  simp only [appendGrowth, growth, writeEnd, expandBytes, fileLastBlkRemain, openedAtEnd_inode,
    (openedAtEnd_file parent t).2.2, (openedAtEnd_file parent s).2.2, hin, hsbs, hd, hsb, hi, hz, hb]

theorem kmalloc_cases {p : Option ℕ} (h : kmalloc env s = some (.ok p, t)) :
    p = none ∧ t = { s with brk := s.brk + 1 } ∨ p = some s.brk ∧ t = grabbed s := by
  rw [kmalloc] at h
  split at h
  · cases h
    exact .inl ⟨rfl, rfl⟩
  · cases h
    exact .inr ⟨rfl, rfl⟩

theorem openHandle_cases {entry mode : ℕ} {r : Except ℕ ℕ}
    (h : openHandle env entry mode s = some (r, t)) :
    r = .error errorNoMemory ∧ t = { s with brk := s.brk + 1 } ∨ r = .ok s.brk ∧
      t = (dIncCount entry (grabbed s)).setFile s.brk fun _ =>
        newFile (dIncCount entry (grabbed s)) entry mode := by
  rcases Prog.bind_cases h with ⟨p, u, h1, h⟩ | ⟨e, h1, -⟩
  · rcases kmalloc_cases h1 with ⟨rfl, rfl⟩ | ⟨rfl, rfl⟩
    · cases h
      exact .inl ⟨rfl, rfl⟩
    · cases h
      exact .inr ⟨rfl, rfl⟩
  · rw [kmalloc] at h1
    split at h1 <;> cases h1

theorem openAppend_cases {entry : ℕ} {r : Except ℕ ℕ}
    (h : follow (dentryOpenFile env entry fModeAppend) s = some (r, t)) :
    r = .ok s.brk ∧ t = openedAtEnd entry s := by
  obtain ⟨r1, t1, h1, h⟩ | ⟨e, h1, -⟩ := Prog.bind_cases h
  · obtain ⟨r2, hr, h1⟩ := Prog.attempt_cases h1
    cases hr
    rw [dentryOpenFile] at h1
    rcases Prog.bind_cases h1 with ⟨ret, u, h2, h1⟩ | ⟨e, h2, rfl⟩
    · rcases openHandle_cases h2 with ⟨hr, -⟩ | ⟨hr, rfl⟩
      · cases hr
      · cases hr
        cases h1
        cases h
        exact ⟨rfl, rfl⟩
    · cases h
  · obtain ⟨r2, hr, -⟩ := Prog.attempt_cases h1
    cases hr

theorem newSfn_length (name : List ℕ) (isdir : Bool) (clu : ℕ) :
    (newSfn env name isdir clu).length = sfnSize := by
  simp [newSfn, convertNormalTo8dot3, bytesLe, sfnSize]

theorem FileAt.of_kept {F X : ℕ → Prop} {W : Prop} (h : FileAt b n s node c)
    (hk : Kept F B X W s t) (hn : node < s.brk) : FileAt b n t node c := by
  refine ⟨?_, (hk.ino node hn).trans h.ino, h.two_le, h.lt⟩
  rw [IsVolume, hk.iSb node hn, hk.sbs, h.volume]

theorem Kept.openedAtEnd {F X : ℕ → Prop} {W : Prop} {s₀ : FsSys} (h : Kept F B X W s₀ s)
    (entry : ℕ) : Kept F B X W s₀ (openedAtEnd entry s) := by
  have h1 := (h.of_same (grabbed_same s) (fun _ _ _ => rfl) fun _ => rfl).dIncCount entry
  have h2 := h1.setFile s.brk (g := fun _ => newFile (Fs.dIncCount entry (grabbed s)) entry fModeAppend)
    fun hlt => absurd hlt h.brk.not_gt
  exact h2.atEnd s.brk entry

theorem appendSfn_cases {F : ℕ → Prop} {parent : ℕ} {sfn : List ℕ} {r : Except ℕ Unit}
    (hap : Apart F B s) (h : appendSfn env parent sfn s = some (r, t)) :
    ∃ u v, Grows env (openedAtEnd parent s) s.brk
        (writeEnd (openedAtEnd parent s) s.brk sfn.length) u v ∧
      Kept F B (fun _ => False) False v t := by
  rw [appendSfn] at h
  obtain ⟨fp, s1, h1, h⟩ | ⟨e, h1, -⟩ := Prog.bind_cases h
  · obtain ⟨hr, rfl⟩ := openAppend_cases h1
    cases hr
    have hap1 := ((Kept.refl (X := fun _ => False) (W := False) hap).openedAtEnd parent).apart
    obtain ⟨r2, s2, h2, h⟩ | ⟨e, h2, -⟩ := Prog.bind_cases h
    · obtain ⟨r2', hr, h2⟩ := Prog.attempt_cases h2
      have hmode : hasMode ((openedAtEnd parent s).files s.brk).fMode fModeWriteMask = true := by
        rw [(openedAtEnd_file parent s).2.1]
        decide
      obtain ⟨u, v, hg, hk⟩ := fsWrite_cases hmode hap1 h2
      obtain ⟨r3, s3, h3, h⟩ | ⟨e, h3, -⟩ := Prog.bind_cases h
      · obtain ⟨r3', hr, h3⟩ := Prog.attempt_cases h3
        cases h
        exact ⟨u, v, hg, (fsClose_kept env _ _ _ _ hk h3).1⟩
      · obtain ⟨_, hr, -⟩ := Prog.attempt_cases h3
        cases hr
    · obtain ⟨_, hr, -⟩ := Prog.attempt_cases h2
      cases hr
  · cases (openAppend_cases h1).1

theorem appendSfn_table (he : Reliable env) (hv : Volume b n) {parent p : ℕ} {sfn xs : List ℕ}
    (hf : FileAt b n s (s.dentries parent).dInode p) (hnode : (s.dentries parent).dInode < s.brk)
    {F : ℕ → Prop} (hap : Apart F B s) (hF : ∀ sec, InTable b n sec → F sec)
    (h0 : ∀ x ∈ xs, x ≠ 0) (hp : isErrValue (fat p) = false ∧ fat p ≠ fatItemFree)
    (hrun : freeRun fat n ((appendGrowth s parent).getD 0) (nextClu s (s.dentries parent).dInode) =
      some xs) (ht : ∀ c < n, fatOf b s.sd c = fat c) (hlen : sfn.length = sfnSize)
    {r : Except ℕ Unit} (h : appendSfn env parent sfn s = some (r, t)) :
    TableHint F b n (s.inodes (s.dentries parent).dInode).iSb s t fat
        (nextClu s (s.dentries parent).dInode) ∨
      TableHint F b n (s.inodes (s.dentries parent).dInode).iSb s t
        (linkAll fatItemEnd fat p xs) (hintAfter (nextClu s (s.dentries parent).dInode) xs) := by
  obtain ⟨u, v, hg, hk⟩ := appendSfn_cases hap h
  rw [hlen] at hg
  have hvu : v.sd = u.sd ∧ v.sbs = u.sbs := by
    rcases hg.sized with rfl | rfl
    · exact ⟨rfl, rfl⟩
    · exact ⟨rfl, rfl⟩
  have k1 := (Kept.refl (X := fun _ => False) (W := False) hap).openedAtEnd parent
  have ht1 : ∀ d < n, fatOf b (openedAtEnd parent s).sd d = fat d := fun d hd =>
    (k1.fatOf_of hv hF hd).trans (ht d hd)
  cases hgr : appendGrowth s parent with
  | none =>
    obtain rfl := hg.same hgr
    refine .inl (TableHint.kept hv hF ⟨?_, fun hf _ => ?_⟩ hk)
    · rw [hvu.1]
      exact ht1
    · exact (HintTo.refl s _).after (hvu.2.trans (k1.nextClu not_false))
        (by rw [hvu.1]; exact k1.table not_false _ hf) hv.info_lt
  | some k =>
    obtain ⟨r1, h1⟩ := hg.expanded k hgr
    rw [openedAtEnd_inode] at h1
    have hsb := k1.iSb _ hnode
    have hnext : nextClu (openedAtEnd parent s) (s.dentries parent).dInode =
        nextClu s (s.dentries parent).dInode := by
      rw [nextClu, hsb, k1.nextClu not_false, nextClu]
    rw [hgr, ← hnext] at hrun
    obtain ⟨u', h2, -, h3, h4⟩ := expandFat32_spec he hv (hf.of_kept k1 hnode) h0 hp hrun ht1
    obtain ⟨-, rfl⟩ : r1 = .ok () ∧ u = u' := by simpa using h1.symm.trans h2
    refine .inr (TableHint.kept hv hF ⟨?_, fun hf hval => ?_⟩ hk)
    · rw [hvu.1]
      exact h4
    · rw [hnext, hsb] at h3
      exact ((h3 hval).after hvu.2 (by rw [hvu.1]) hv.info_lt).before (k1.nextClu not_false)
        (k1.table not_false _ hf)

theorem appendSfn_no_error {parent e : ℕ} (sfn : List ℕ) :
    appendSfn env parent sfn s ≠ some (.error e, t) := by
  intro h
  rw [appendSfn] at h
  obtain ⟨fp, s1, h1, h⟩ | ⟨e, h1, -⟩ := Prog.bind_cases h
  · obtain ⟨r2, s2, h2, h⟩ | ⟨e, h2, -⟩ := Prog.bind_cases h
    · obtain ⟨r3, s3, h3, h⟩ | ⟨e, h3, -⟩ := Prog.bind_cases h
      · cases h
      · obtain ⟨_, hr, -⟩ := Prog.attempt_cases h3
        cases hr
    · obtain ⟨_, hr, -⟩ := Prog.attempt_cases h2
      cases hr
  · cases (openAppend_cases h1).1

theorem appendGrowth_kept {s2 s4 : FsSys} {parent : ℕ} {F : ℕ → Prop} (hs2 : SameObjects s s2)
    (hsbs : s2.sbs = s.sbs) (hparent : parent < s.brk) (hnode : (s.dentries parent).dInode < s.brk)
    (k : Kept F B (fun _ => False) False s2 s4) : appendGrowth s4 parent = appendGrowth s parent := by
  have hn2 := hnode.trans_le hs2.brk
  refine appendGrowth_congr ?_ ((k.nextClu not_false).trans hsbs) ?_ ?_ ?_
  · rw [k.dInode parent (hparent.trans_le hs2.brk), hs2.dentries]
  · rw [k.iSb _ hn2, hs2.inodes]
  · rw [k.size _ hn2 not_false, hs2.inodes]
  · rw [k.blocks _ hn2 not_false, hs2.inodes]

theorem createDentryFat32_cases (he : Reliable env) (hv : Volume b n) {vol parent : ℕ}
    {name : List ℕ} {isdir : Bool} (hb : IsVolume b s vol)
    (hc : nextFree fat (n - (s.sbs vol).infoNextClu) (s.sbs vol).infoNextClu = some c)
    (ht : ∀ c < n, fatOf b s.sd c = fat c)
    {r : Except ℕ ℕ} (h : createDentryFat32 env vol parent name isdir s = some (r, t)) :
    ∃ s2, TableOnly b n s s2 (Function.update fat c fatItemEnd) ∧
      ((∃ e, r = .error e ∧ allocInodeFat32 env vol c 0 isdir s2 = some (.error e, t)) ∨
        ∃ nd s3 s4 r5, allocInodeFat32 env vol c 0 isdir s2 = some (.ok nd, s3) ∧
          allocDentryFat32 env vol nd (some parent) name s3 = some (r, s4) ∧
          appendSfn env parent (newSfn env name isdir c) s4 = some (r5, t)) := by
  have hv' := hb.volume hv
  obtain ⟨hle, hlt, hfree⟩ := nextFree_spec hc
  have hcn : c < n := by omega
  obtain ⟨s1, h1, t1⟩ := findFreeClu_spec he hv' hc fun d hd => (hb.fatOf _ _).trans (ht d hd)
  obtain ⟨s2, h2, t2⟩ := writeFat_spec he hv' hcn (show fatItemEnd < uintRange by decide) t1.table
  refine ⟨s2, hb.tableOnly (t1.trans t2), ?_⟩
  rw [createDentryFat32, Prog.get_bind_run, Prog.bind_ok h1, Prog.bind_ok h2] at h
  obtain ⟨nd, s3, h3, h⟩ | ⟨e, h3, rfl⟩ := Prog.bind_cases h
  · obtain ⟨r4, s4, h4, h⟩ | ⟨e, h4, -⟩ := Prog.bind_cases h
    · obtain ⟨r4', hr, h4⟩ := Prog.attempt_cases h4
      cases hr
      obtain ⟨_, s5, h5, h⟩ | ⟨e, h5, -⟩ := Prog.bind_cases h
      · obtain ⟨rfl, rfl⟩ : r = r4 ∧ t = s5 := by
          cases r4 <;> cases h <;> exact ⟨rfl, rfl⟩
        exact .inr ⟨nd, s3, s4, _, h3, h4, h5⟩
      · exact absurd h5 (appendSfn_no_error _)
    · obtain ⟨_, hr, -⟩ := Prog.attempt_cases h4
      cases hr
  · exact .inl ⟨e, rfl, h3⟩

theorem createDentryFat32_table (he : Reliable env) (hv : Volume b n) {vol parent p : ℕ}
    {name : List ℕ} {isdir : Bool} (hf : FileAt b n s (s.dentries parent).dInode p)
    (hvol : (s.inodes (s.dentries parent).dInode).iSb = vol) (hparent : parent < s.brk)
    (hnode : (s.dentries parent).dInode < s.brk) {F : ℕ → Prop} (hap : Apart F B s)
    (hF : ∀ sec, InTable b n sec → F sec)
    (hp : isErrValue (fat p) = false ∧ fat p ≠ fatItemFree) {xs : List ℕ}
    (h0 : ∀ x ∈ xs, x ≠ 0) (hrun : freeRun fat n ((appendGrowth s parent).getD 0 + 1)
      (s.sbs vol).infoNextClu = some (c :: xs)) (ht : ∀ c < n, fatOf b s.sd c = fat c)
    {r : Except ℕ ℕ} (h : createDentryFat32 env vol parent name isdir s = some (r, t)) :
    TableHint F b n vol s t (Function.update fat c fatItemEnd) (s.sbs vol).infoNextClu ∨
      TableHint F b n vol s t (linkAll fatItemEnd (Function.update fat c fatItemEnd) p xs)
        (hintAfter (s.sbs vol).infoNextClu xs) := by
  have hb := hf.volume
  rw [hvol] at hb
  have hc := freeRun_head hrun
  have hfree := (nextFree_spec hc).2.2
  obtain ⟨s2, t2, hrest⟩ := createDentryFat32_cases he hv hb hc ht h
  have hs2 := t2.same
  have hap2 := hap.of_same hs2
  have hn2 := hnode.trans_le hs2.brk
  have hbegin : TableHint F b n vol s s2 (Function.update fat c fatItemEnd)
      (s.sbs vol).infoNextClu :=
    ⟨t2.table, fun _ _ => (HintTo.refl s vol).after t2.sbs t2.info hv.info_lt⟩
  rcases hrest with ⟨e, -, h3⟩ | ⟨nd, s3, s4, r5, h3, h4, h5⟩
  · obtain ⟨k3, -⟩ := allocInodeFat32_kept (F := F) (X := fun _ => False) (W := False) env
      _ _ _ _ _ _ _ (Kept.refl hap2) h3
    exact .inl (hbegin.kept hv hF k3)
  · obtain ⟨k3, -⟩ := allocInodeFat32_kept (F := F) (X := fun _ => False) (W := False) env
      _ _ _ _ _ _ _ (Kept.refl hap2) h3
    obtain ⟨k4, -⟩ := allocDentryFat32_kept env _ _ _ _ _ _ _ k3 h4
    have hd4 : (s4.dentries parent).dInode = (s.dentries parent).dInode := by
      rw [k4.dInode parent (hparent.trans_le hs2.brk), hs2.dentries]
    have hf2 : FileAt b n s2 (s.dentries parent).dInode p := by
      refine ⟨?_, by rw [hs2.inodes]; exact hf.ino, hf.two_le, hf.lt⟩
      rw [hs2.inodes, IsVolume, t2.sbs]
      exact hf.volume
    have hgrow := appendGrowth_kept hs2 t2.sbs hparent hnode k4
    have hsb4 : (s4.inodes (s.dentries parent).dInode).iSb = vol := by
      rw [k4.iSb _ hn2, hs2.inodes, hvol]
    have hsbs4 : s4.sbs = s.sbs := (k4.nextClu not_false).trans t2.sbs
    have hnext : nextClu s4 (s.dentries parent).dInode = (s.sbs vol).infoNextClu := by
      rw [nextClu, hsb4, hsbs4]
    have hxs := freeRun_skip (v := fatItemEnd) (by decide) (by decide) hrun
    rw [← hgrow, ← hnext] at hxs
    have hpc : p ≠ c := fun e => hp.2 (e ▸ hfree)
    have happend := appendSfn_table he hv (by rw [hd4]; exact hf2.of_kept k4 hn2)
      (by rw [hd4]; exact hn2.trans_le k4.brk) k4.apart hF h0
      (by rwa [Function.update_of_ne hpc]) (by rw [hd4]; exact hxs)
      (fun d hd => (k4.fatOf_of hv hF hd).trans (t2.table d hd)) (newSfn_length _ _ _) h5
    rw [hd4, hsb4, hnext] at happend
    have hback : ∀ {fat' : ℕ → ℕ} {value : ℕ}, TableHint F b n vol s4 t fat' value →
        TableHint F b n vol s t fat' value := fun ha => ⟨ha.table, fun hf hval =>
      (ha.hint hf hval).before hsbs4 ((k4.table not_false _ hf).trans t2.info)⟩
    exact happend.imp hback hback

end Append

end OurOS.Fs
