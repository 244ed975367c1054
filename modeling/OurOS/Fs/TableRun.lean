import OurOS.Fs.ChainOps

namespace OurOS.Fs

section Sound

variable {env : FsEnv} {s t : FsSys}

theorem kmalloc_sound {p : ℕ} (h : kmalloc env s = some (.ok (some p), t)) :
    kmalloc soundEnv s = some (.ok (some p), t) := by
  obtain ⟨rfl, rfl⟩ := kmalloc_some h
  exact kmalloc_run soundEnv_reliable s

theorem sdReadBlock_sound {addr count : ℕ} {buf : ℕ → ℕ}
    (h : sdReadBlock env addr count s = some (.ok (some buf), t)) :
    sdReadBlock soundEnv addr count s = some (.ok (some buf), t) := by
  rw [sdReadBlock] at h
  split at h
  · cases h
  · cases h
    exact sdReadBlock_run soundEnv_reliable _ _ _

theorem sdWriteBlock_sound {addr count : ℕ} {data : ℕ → ℕ}
    (h : sdWriteBlock env data addr count s = some (.ok true, t)) :
    sdWriteBlock soundEnv data addr count s = some (.ok true, t) := by
  rw [sdWriteBlock] at h
  split at h
  · cases h
  · cases h
    exact sdWriteBlock_run soundEnv_reliable _ _ _ _

theorem readFat_sound {base clu v : ℕ} (h : readFat env base clu s = some (.ok v, t))
    (hv : isErrValue v = false) : readFat soundEnv base clu s = some (.ok v, t) := by
  rw [readFat] at h ⊢
  obtain ⟨p, s1, h1, h⟩ := Prog.bind_ok_cases h
  cases p with
  | none =>
    cases h
    exact absurd hv (by decide)
  | some p =>
    rw [Prog.bind_ok (kmalloc_sound h1)]
    obtain ⟨buf, s2, h2, h⟩ := Prog.bind_ok_cases h
    cases buf with
    | none =>
      cases h
      exact absurd hv (by decide)
    | some buf =>
      dsimp only
      rw [Prog.bind_ok (sdReadBlock_sound h2)]
      exact h

theorem writeFat_sound {base clu value : ℕ} (h : writeFat env base clu value s = some (.ok (), t)) :
    writeFat soundEnv base clu value s = some (.ok (), t) := by
  rw [writeFat] at h ⊢
  obtain ⟨p, s1, h1, h⟩ := Prog.bind_ok_cases h
  cases p with
  | none => cases h
  | some p =>
    rw [Prog.bind_ok (kmalloc_sound h1)]
    obtain ⟨buf, s2, h2, h⟩ := Prog.bind_ok_cases h
    cases buf with
    | none => cases h
    | some buf =>
      dsimp only at h ⊢
      rw [Prog.bind_ok (sdReadBlock_sound h2)]
      obtain ⟨ok, s3, h3, h⟩ := Prog.bind_ok_cases h
      cases ok with
      | false => cases h
      | true =>
        dsimp only
        rw [Prog.bind_ok (sdWriteBlock_sound h3)]
        exact h

theorem freeClu_sound {base clu m : ℕ} {r : ℕ × ℕ}
    (h : freeClu env base clu m s = some (.ok r, t)) :
    freeClu soundEnv base clu m s = some (.ok r, t) := by
  rw [freeClu] at h ⊢
  obtain ⟨v, s1, h1, h⟩ := Prog.bind_ok_cases h
  cases hv : isErrValue v with
  | true =>
    rw [hv] at h
    cases h
  | false =>
    rw [Prog.bind_ok (readFat_sound h1 hv)]
    simp only [hv, Bool.false_eq_true, if_false] at h ⊢
    obtain ⟨_, s2, h2, h⟩ := Prog.bind_ok_cases h
    rw [Prog.bind_ok (writeFat_sound h2)]
    exact h

theorem freeChain_sound {base fuel next m m' : ℕ}
    (h : freeChain env base fuel next m s = some (.ok m', t)) :
    freeChain soundEnv base fuel next m s = some (.ok m', t) := by
  induction fuel generalizing next m s with
  | zero => cases h
  | succ fuel ih =>
    rw [freeChain] at h ⊢
    split_ifs at h ⊢ with hend
    · exact h
    · obtain ⟨r, s1, h1, h⟩ := Prog.bind_ok_cases h
      rw [Prog.bind_ok (freeClu_sound h1)]
      exact ih h

end Sound

section Lower

variable {env : FsEnv} {b : SuperBlock} {n : ℕ} {s t : FsSys} {fat : ℕ → ℕ}

/-- The states whose card differs from `sd` in the sector `x` alone. -/
def OnlyAt (x : ℕ) (sd : SdCard) (u : FsSys) : Prop :=
  ∀ sec, sec ≠ x → u.sd.sector sec = sd.sector sec

theorem kmalloc_onlyAt (x : ℕ) (sd : SdCard) : Prog.Stays (OnlyAt x sd) (kmalloc env) := by
  intro u r v hu hr
  rw [kmalloc] at hr
  split at hr
  · cases hr
    exact ⟨hu, fun _ _ => trivial⟩
  · cases hr
    exact ⟨hu, fun _ _ => trivial⟩

theorem sdReadBlock_onlyAt (x : ℕ) (sd : SdCard) (addr count : ℕ) :
    Prog.Stays (OnlyAt x sd) (sdReadBlock env addr count) := by
  intro u r v hu hr
  rw [sdReadBlock] at hr
  split at hr
  · cases hr
    exact ⟨hu, fun _ _ => trivial⟩
  · cases hr
    exact ⟨hu, fun _ _ => trivial⟩

theorem sdWriteBlock_onlyAt {x : ℕ} (sd : SdCard) (hx : x < uintRange) (data : ℕ → ℕ) :
    Prog.Stays (OnlyAt x sd) (sdWriteBlock env data x 1) := by
  have hone : ∀ k ≤ 1, ∀ (sd' : SdCard) sec, sec ≠ x →
      writeSectors sd' x data k sec = sd'.sector sec := by
    intro k hk sd' sec hne
    rw [writeSectors_apply (by omega), if_neg (by omega)]
  intro u r v hu hr
  rw [sdWriteBlock] at hr
  cases hf : sdFailure env u.sd 1 with
  | some i =>
    rw [hf] at hr
    cases hr
    have hi := sdFailure_lt env hf
    exact ⟨fun sec hne => (hone i hi.le _ sec hne).trans (hu sec hne), fun _ _ => trivial⟩
  | none =>
    rw [hf] at hr
    cases hr
    exact ⟨fun sec hne => (hone 1 le_rfl _ sec hne).trans (hu sec hne), fun _ _ => trivial⟩

theorem updateNextClu_onlyAt {x sb value : ℕ} (hx : x < uintRange)
    (hb : (s.sbs sb).infoFsinfoSec = x) {r : Except ℕ Unit}
    (h : updateNextClu env sb value s = some (r, t)) : OnlyAt x s.sd t := by
  rw [updateNextClu, Prog.get_bind_run, hb] at h
  refine ((?_ : Prog.Stays (OnlyAt x s.sd) _) s r t (fun _ _ => rfl) h).1
  refine (kmalloc_onlyAt x s.sd).bind fun p _ => ?_
  cases p with
  | none => exact .throw
  | some _ =>
    refine (sdReadBlock_onlyAt x s.sd _ _).bind fun buf _ => ?_
    cases buf with
    | none => exact .throw
    | some _ =>
      refine Prog.Ensures.bind (.modify fun u hu => hu) fun _ _ => ?_
      refine (sdWriteBlock_onlyAt s.sd hx _).bind fun ok _ => ?_
      cases ok with
      | true => exact .pure trivial
      | false => exact .throw

theorem updateNextClu_table (hv : Volume b n) {sb value : ℕ}
    (hb : (s.sbs sb).infoFsinfoSec = b.infoFsinfoSec) (ht : ∀ c < n, fatOf b s.sd c = fat c)
    {r : Except ℕ Unit} (h : updateNextClu env sb value s = some (r, t)) : TableTo b n s t fat := by
  have hsec := updateNextClu_onlyAt hv.info_lt hb h
  refine ⟨updateNextClu_keeps env _ _ _ _ _ h, fun sec _ hne => hsec sec hne, fun c hc => ?_⟩
  rw [fatOf_congr hv hc fun sec hin => hsec sec fun e => hv.info (e ▸ hin)]
  exact ht c hc

theorem lowerNextClu_table (hv : Volume b n) {sb minClu : ℕ}
    (hb : (s.sbs sb).infoFsinfoSec = b.infoFsinfoSec) (ht : ∀ c < n, fatOf b s.sd c = fat c)
    {r : Except ℕ Unit} (h : lowerNextClu env sb minClu s = some (r, t)) : TableTo b n s t fat := by
  rw [lowerNextClu, Prog.get_bind_run] at h
  split_ifs at h
  · obtain ⟨r1, s1, h1, h⟩ | ⟨e, h1, -⟩ := Prog.bind_cases h
    · obtain ⟨r2, -, h1⟩ := Prog.attempt_cases h1
      cases h
      exact updateNextClu_table hv hb ht h1
    · obtain ⟨_, hr, -⟩ := Prog.attempt_cases h1
      cases hr
  · cases h
    exact TableTo.refl ht

end Lower

section Steps

variable {env : FsEnv} {b : SuperBlock} {n node c : ℕ} {s t : FsSys} {fat : ℕ → ℕ} {cs : List ℕ}

theorem deleteFat32_steps (hv : Volume b n) (hf : FileAt b n s node c)
    (hch : Chain fat fatItemEnd (c :: cs)) (hnd : (c :: cs).Nodup) (hlt : ∀ d ∈ cs, d < n)
    (ht : ∀ c < n, fatOf b s.sd c = fat c) {parent : ℕ} {name : List ℕ}
    (h : deleteFat32 env node parent name s = some (.ok (), t)) :
    ∃ u, deleteSfn env node parent (s.inodes node).iSb name u = some (.ok (), t) ∧
      TableTo b n s u (setAll fat fatItemFree (c :: cs)) := by
  obtain ⟨s1, s2, h1, h2, t2⟩ := freeWhole_spec soundEnv_reliable hv hf hch hnd hlt ht
  rw [deleteFat32, Prog.get_bind_run] at h
  simp only [hf.first hv] at h
  obtain ⟨r, u1, h3, h⟩ := Prog.bind_ok_cases h
  obtain ⟨rfl, rfl⟩ : (fat c, min maxClu c) = r ∧ s1 = u1 := by
    simpa using h1.symm.trans (freeClu_sound h3)
  obtain ⟨m, u2, h4, h⟩ := Prog.bind_ok_cases h
  obtain ⟨rfl, rfl⟩ : (c :: cs).foldl min maxClu = m ∧ s2 = u2 := by
    simpa using h2.symm.trans (freeChain_sound h4)
  obtain ⟨_, u3, h5, h⟩ := Prog.bind_ok_cases h
  have t3 := lowerNextClu_table (hf.volume.volume hv) (by rw [t2.same.sbs]) t2.table h5
  exact ⟨u3, h, hf.volume.tableTo (t2.toTableTo.trans t3)⟩

theorem endChain_sound {base clu next : ℕ} (h : endChain env base clu next s = some (.ok (), t)) :
    endChain soundEnv base clu next s = some (.ok (), t) := by
  rw [endChain] at h ⊢
  split_ifs at h ⊢
  · exact writeFat_sound h
  · exact h

theorem clearBlocks_steps (hv : Volume b n) (hf : FileAt b n s node c)
    (hch : Chain fat fatItemEnd (c :: cs)) (hnd : (c :: cs).Nodup) (hlt : ∀ d ∈ cs, d < n)
    (ht : ∀ c < n, fatOf b s.sd c = fat c) {parent : ℕ} {name : List ℕ}
    (hread : ∀ v u, readFat env b.infoFatSec c s = some (.ok v, u) → isErrValue v = false)
    (h : clearBlocks env node parent name s = some (.ok (), t)) :
    ∃ u, clearSfn env node parent (s.inodes node).iSb name u = some (.ok (), t) ∧
      TableTo b n s u (setAll (Function.update fat c fatItemEnd) fatItemFree cs) := by
  obtain ⟨s1, s2, s3, h1, h2, h3, t3⟩ := cutChain_spec soundEnv_reliable hv hf hch hnd hlt ht
  rw [clearBlocks_eq, hf.first hv] at h
  obtain ⟨v, u1, h4, h⟩ := Prog.bind_ok_cases h
  have hbase : (s.sbs (s.inodes node).iSb).infoFatSec = b.infoFatSec := by rw [hf.volume]
  have hval := hread v u1 (hbase ▸ h4)
  obtain ⟨rfl, rfl⟩ : fat c = v ∧ s1 = u1 := by
    simpa using h1.symm.trans (readFat_sound h4 hval)
  obtain ⟨_, u2, h5, h⟩ := Prog.bind_ok_cases h
  obtain rfl : s2 = u2 := by simpa using h2.symm.trans (endChain_sound h5)
  obtain ⟨k, u3, h6, h⟩ := Prog.bind_ok_cases h
  obtain ⟨rfl, rfl⟩ : cs.foldl min maxClu = k ∧ s3 = u3 := by
    simpa using h3.symm.trans (freeChain_sound h6)
  obtain ⟨_, u4, h7, h⟩ := Prog.bind_ok_cases h
  have t4 := lowerNextClu_table (hf.volume.volume hv) (by rw [t3.same.sbs]) t3.table h7
  exact ⟨u4, h, hf.volume.tableTo (t3.toTableTo.trans t4)⟩

end Steps

end OurOS.Fs
