import OurOS.Fs.ChainRun

namespace OurOS.Fs

def VolumeSector (b : SuperBlock) (n sec : ℕ) : Prop := InTable b n sec ∨ sec = b.infoFsinfoSec

variable {env : FsEnv} {b : SuperBlock} {n B node c vol : ℕ} {s t : FsSys} {cs : List ℕ}

section Freed

/-- The table has become `fat`, and the least freed cluster has been compared with the hint. -/
structure ChainFreed (b : SuperBlock) (n vol : ℕ) (s t : FsSys) (fat : ℕ → ℕ) (freed : List ℕ) :
    Prop where
  table : ∀ d < n, fatOf b t.sd d = fat d
  hint : ∃ m, (∀ d ∈ freed, m ≤ d) ∧ (m ∈ freed ∨ freed = [] ∧ m = maxClu) ∧
    (t.sbs vol).infoNextClu = min (s.sbs vol).infoNextClu m

theorem lowest_freed (hv : Volume b n) {freed : List ℕ} (hlt : ∀ d ∈ freed, d < n) :
    (∀ d ∈ freed, freed.foldl min maxClu ≤ d) ∧
      (freed.foldl min maxClu ∈ freed ∨ freed = [] ∧ freed.foldl min maxClu = maxClu) := by
  have hle := (foldl_min_le freed maxClu).2
  refine ⟨hle, ?_⟩
  cases freed with
  | nil => exact .inr ⟨rfl, rfl⟩
  | cons d ds =>
    refine .inl ((foldl_min_mem (d :: ds) maxClu).resolve_left fun e => ?_)
    have h1 := hle d List.mem_cons_self
    have h2 := hv.lt (hlt d List.mem_cons_self)
    rw [e, maxClu] at h1
    omega

theorem ChainFreed.of_hint (hv : Volume b n) {fat : ℕ → ℕ} {freed : List ℕ}
    (hlt : ∀ d ∈ freed, d < n) (ht : ∀ d < n, fatOf b t.sd d = fat d)
    (h : HintTo b vol s t (min (s.sbs vol).infoNextClu (freed.foldl min maxClu))) :
    ChainFreed b n vol s t fat freed := by
  obtain ⟨h1, h2⟩ := lowest_freed hv hlt
  exact ⟨ht, _, h1, h2, h.hint⟩

theorem min_hint_lt (hint : ℕ) (freed : List ℕ) : min hint (freed.foldl min maxClu) < uintRange :=
  (min_le_right _ _).trans_lt (foldl_min_lt freed)

theorem chain_freed (he : Reliable env) (hv : Volume b n) (hf : FileAt b n s node c)
    (hap : Apart (VolumeSector b n) B s) (hch : Chain (fatOf b s.sd) fatItemEnd (c :: cs))
    (hnd : (c :: cs).Nodup) (hlt : ∀ d ∈ cs, d < n) (parent : ℕ) (name : List ℕ) :
    ((∃ u, deleteFat32 env node parent name s =
          deleteSfn env node parent (s.inodes node).iSb name u ∧
        ChainFreed b n (s.inodes node).iSb s u (setAll (fatOf b s.sd) fatItemFree (c :: cs))
          (c :: cs)) ∧
      ∀ r t, deleteFat32 env node parent name s = some (r, t) →
        ChainFreed b n (s.inodes node).iSb s t (setAll (fatOf b s.sd) fatItemFree (c :: cs))
          (c :: cs)) ∧
    (∃ u, clearBlocks env node parent name (iIncCount node s) =
          clearSfn env node parent (s.inodes node).iSb name u ∧
        ChainFreed b n (s.inodes node).iSb s u
          (setAll (Function.update (fatOf b s.sd) c fatItemEnd) fatItemFree cs) cs) ∧
      ∀ r t, clearFat32 env node parent name s = some (r, t) →
        ChainFreed b n (s.inodes node).iSb s t
          (setAll (Function.update (fatOf b s.sd) c fatItemEnd) fatItemFree cs) cs := by
  have hlt' : ∀ d ∈ c :: cs, d < n := List.forall_mem_cons.mpr ⟨hf.lt, hlt⟩
  have hF : ∀ sec, InTable b n sec → VolumeSector b n sec := fun _ => .inl
  have hsb : ((iIncCount node s).inodes node).iSb = (s.inodes node).iSb := by
    rw [iIncCount_inodes]
  refine ⟨⟨?_, fun r t h => ?_⟩, ?_, fun r t h => ?_⟩
  · obtain ⟨u, h1, h2, h3⟩ := deleteFat32_run he hv hf hch hnd hlt (fun _ _ => rfl) parent name
    exact ⟨u, h1, .of_hint hv hlt' h2.table h3⟩
  · have ht := deleteFat32_table he hv hf hap hF hch hnd hlt (fun _ _ => rfl) h
    exact .of_hint hv hlt' ht.table (ht.hint (.inr rfl) (min_hint_lt _ _))
  · obtain ⟨u, h1, h2, h3⟩ :=
      clearBlocks_run he hv hf.counted hch hnd hlt (fun _ _ => rfl) parent name
    rw [nextClu, hsb] at h3
    rw [hsb] at h1
    exact ⟨u, h1, .of_hint hv hlt h2.table ⟨h3.hint, h3.info⟩⟩
  · have ht := clearFat32_table he hv hf hap hF hch hnd hlt (fun _ _ => rfl) h
    exact .of_hint hv hlt ht.table (ht.hint (.inr rfl) (min_hint_lt _ _))

end Freed

section Small

theorem eightSectors_guarded {addr : ℕ} (h1 : 16384 ≤ addr) (h2 : addr ≤ 16384 + 2 ^ 23) :
    Clear (VolumeSector eightSectors 8) addr 8 := by
  have hclear := eightSectors_clear h1 h2
  refine ⟨hclear.fits, fun sec h3 h4 hsec => ?_⟩
  rcases hsec with hin | hinfo
  · exact hclear.apart sec h3 h4 hin
  · have h5 : sec = 1 := hinfo
    omega

theorem smallVolume_guarded (entries : List ℕ) (next : ℕ) :
    Apart (VolumeSector eightSectors 8) 8 (smallVolume entries next) where
  blksize := (smallVolume_apart entries next).blksize
  clusters _ c := eightSectors_guarded (eightSectors_cluSec next c).1 (eightSectors_cluSec next c).2
  maps _ := eightSectors_guarded (show 16384 ≤ 16384 from le_rfl) (show 16384 ≤ _ by decide)
  pages _ := by
    change Clear _ 0 0
    exact ⟨by decide, fun _ _ h => absurd h (Nat.not_lt_zero _)⟩

theorem freshTable_chain :
    Chain (fatOf eightSectors (smallVolume freshTable 3).sd) fatItemEnd [2] := by
  change fatOf eightSectors (smallVolume freshTable 3).sd 2 = fatItemEnd
  decide +kernel

theorem linkedTable_chain :
    Chain (fatOf eightSectors (smallVolume linkedTable 6).sd) fatItemEnd [2, 5, 3] := by
  change fatOf _ _ 2 = 5 ∧ fatOf _ _ 5 = 3 ∧ fatOf _ _ 3 = fatItemEnd
  decide +kernel

theorem chain_freed_small : (∃ u, deleteFat32 soundEnv 5 0 [] (smallVolume linkedTable 6) =
      deleteSfn soundEnv 5 0 0 [] u ∧
    ChainFreed eightSectors 8 0 (smallVolume linkedTable 6) u
      (setAll (fatOf eightSectors (smallVolume linkedTable 6).sd) fatItemFree [2, 5, 3]) [2, 5, 3]) ∧
    ∃ u, clearBlocks soundEnv 5 0 [] (iIncCount 5 (smallVolume linkedTable 6)) =
      clearSfn soundEnv 5 0 0 [] u ∧
    ChainFreed eightSectors 8 0 (smallVolume linkedTable 6) u
      (setAll (Function.update (fatOf eightSectors (smallVolume linkedTable 6).sd) 2 fatItemEnd)
        fatItemFree [5, 3]) [5, 3] := by
  obtain ⟨⟨hdelete, -⟩, hclear, -⟩ := chain_freed soundEnv_reliable eightSectors_volume
    (smallVolume_file linkedTable 6) (smallVolume_guarded linkedTable 6) linkedTable_chain
    (by decide) (by decide) 0 []
  exact ⟨hdelete, hclear⟩

/-- Where `read_fat` gets no buffer `delete_fat32` returns its error and frees nothing. -/
theorem chain_not_freed : ¬ ∀ (env : FsEnv) (b : SuperBlock) (n B node c : ℕ) (s : FsSys)
    (cs : List ℕ), (∀ i, env.sdFails i = false) → Volume b n → FileAt b n s node c →
    Apart (VolumeSector b n) B s → Chain (fatOf b s.sd) fatItemEnd (c :: cs) → (c :: cs).Nodup →
    (∀ d ∈ cs, d < n) → ∀ (parent : ℕ) (name : List ℕ) r t,
    deleteFat32 env node parent name s = some (r, t) →
    ChainFreed b n (s.inodes node).iSb s t (setAll (fatOf b s.sd) fatItemFree (c :: cs)) (c :: cs) := by
  intro h
  have hrun : (deleteFat32 (failingCall 10) 5 0 [] (smallVolume freshTable 3)).any
      (fun r => fatOf eightSectors r.2.sd 2 == fatItemEnd) := by decide +kernel
  obtain ⟨⟨r, t⟩, hrun, hval⟩ := (Option.any_eq_true _ _).mp hrun
  have hfreed := h (failingCall 10) eightSectors 8 8 5 2 (smallVolume freshTable 3) []
    (fun _ => rfl) eightSectors_volume (smallVolume_file freshTable 3)
    (smallVolume_guarded freshTable 3) freshTable_chain (List.nodup_singleton 2)
    (fun _ h => by cases h) 0 [] r t hrun
  have hzero := hfreed.table 2 (by decide)
  rw [beq_iff_eq.mp hval] at hzero
  exact absurd hzero (by decide)

end Small

section Run

def NoFreeBelow (b : SuperBlock) (n vol : ℕ) (s : FsSys) : Prop :=
  NoneBelow n ⟨fatOf b s.sd, [], (s.sbs vol).infoNextClu⟩

def HintStored (b : SuperBlock) (vol : ℕ) (s₀ s : FsSys) : Prop :=
  (s.sbs vol).infoNextClu = (s₀.sbs vol).infoNextClu ∧ fsinfoHint b s.sd = fsinfoHint b s₀.sd ∨
    fsinfoHint b s.sd = (s.sbs vol).infoNextClu

structure HintInv (b : SuperBlock) (n B vol : ℕ) (s₀ : FsSys) (v : FsSys × List ℕ) : Prop where
  apart : Apart (VolumeSector b n) B v.1
  linked : FilesLinked n (fatOf b v.1.sd) v.2
  word : (v.1.sbs vol).infoNextClu < uintRange
  below : NoFreeBelow b n vol v.1
  stored : HintStored b vol s₀ v.1

def HintMeets (b : SuperBlock) (n vol : ℕ) (v : FsSys × List ℕ) (op : ChainOp) : Prop :=
  op.volume v.1 = vol ∧ op.Meets FoundClusters b n v

theorem HintStored.step {s₀ : FsSys} {value : ℕ} (hlt : b.infoFsinfoSec < uintRange)
    (h : HintStored b vol s₀ s) (ht : HintTo b vol s t value) : HintStored b vol s₀ t := by
  rcases ht.info with ⟨h1, h2⟩ | h1
  · rw [HintStored, h1, fsinfoHint_congr h2 hlt]
    exact h
  · exact .inr (h1.trans ht.hint.symm)

theorem TableMove.word {a a' : TableSys} (hv : Volume b n) (hm : TableMove n a a')
    (h : a.hint < uintRange) : a'.hint < uintRange := by
  have hn : n < uintRange := by
    have := hv.entries
    rw [fatItemEnd] at this
    rw [uintRange]
    omega
  cases hm with
  | create hc h2 => exact h
  | lengthen hp hrun h2 =>
    exact hintAfter_lt h hn fun x hx => ((freeRun_spec hrun).2.2 x hx).2.1
  | cut hl => exact min_hint_lt _ _
  | drop hl ha hb => exact min_hint_lt _ _

theorem hintStep_inv (he : Reliable env) (hv : Volume b n) {s₀ : FsSys} {v w : FsSys × List ℕ}
    {op : ChainOp} (h : HintInv b n B vol s₀ v) (hc : HintMeets b n vol v op)
    (hs : chainStep env b n v op = some w) : HintInv b n B vol s₀ w := by
  obtain ⟨s, files⟩ := v
  obtain ⟨t, files'⟩ := w
  obtain ⟨rfl, hc⟩ := hc
  obtain ⟨hapt, a, hmoves, rfl, ht⟩ := chainStep_moves he hv h.apart (fun _ => .inl) h.linked hc hs
  obtain ⟨hl', hword, hbelow⟩ := TableMoves.keep
    (I := fun a => a.hint < uintRange ∧ NoneBelow n a)
    (fun _ _ hm hl hi => ⟨hm.word hv hi.1, hm.noneBelow hl hi.2⟩) hmoves h.linked
    ⟨h.word, h.below⟩
  have hto := ht.hint (.inr rfl) hword
  refine ⟨hapt, hl'.congr ht.table, ?_, fun d h1 h2 h3 => ?_, h.stored.step hv.info_lt hto⟩
  · change (t.sbs (op.volume s)).infoNextClu < uintRange
    rw [hto.hint]
    exact hword
  · change fatOf b t.sd d ≠ fatItemFree
    rw [ht.table d h3]
    exact hbelow d h1 (h2.trans_eq hto.hint) h3

theorem hintRun_kept (he : Reliable env) (hv : Volume b n) {files files' : List ℕ}
    {ops : List ChainOp} (hap : Apart (VolumeSector b n) B s)
    (hl : FilesLinked n (fatOf b s.sd) files) (hword : (s.sbs vol).infoNextClu < uintRange)
    (hbelow : NoFreeBelow b n vol s)
    (hc : RunMeets (chainStep env b n) (HintMeets b n vol) (s, files) ops)
    (h : runOps (chainStep env b n) (s, files) ops = some (t, files')) :
    NoFreeBelow b n vol t ∧ HintStored b vol s t := by
  have hinv := runOps_invariant_of_meets (P := HintInv b n B vol s)
    (fun _ _ _ hi hm hs => hintStep_inv he hv hi hm hs)
    ⟨hap, hl, hword, hbelow, .inl ⟨rfl, rfl⟩⟩ hc h
  exact ⟨hinv.below, hinv.stored⟩

theorem freshTable_below : NoFreeBelow eightSectors 8 0 (smallVolume freshTable 3) := by
  have h : ∀ c < 3, 2 ≤ c → fatOf eightSectors (smallVolume freshTable 3).sd c ≠ fatItemFree := by
    decide +kernel
  exact fun c h1 h2 _ => h c h2 h1

theorem freshTable_linked :
    FilesLinked 8 (fatOf eightSectors (smallVolume freshTable 3).sd) [2] :=
  smallVolume_linked freshTable_chain

theorem hintRun_kept_small : ∃ t files', runOps (chainStep soundEnv eightSectors 8)
      (smallVolume freshTable 3, [2]) [.expand 5 1] = some (t, files') ∧
    NoFreeBelow eightSectors 8 0 t ∧ HintStored eightSectors 0 (smallVolume freshTable 3) t := by
  have hrun : (runOps (chainStep soundEnv eightSectors 8) (smallVolume freshTable 3, [2])
      [.expand 5 1]).isSome := by decide +kernel
  obtain ⟨⟨t, files'⟩, hrun⟩ := Option.isSome_iff_exists.mp hrun
  have hfound : freeRun (fatOf eightSectors (smallVolume freshTable 3).sd) 8 1 3 = some [3] := by
    decide +kernel
  have hmeets : RunMeets (chainStep soundEnv eightSectors 8) (HintMeets eightSectors 8 0)
      (smallVolume freshTable 3, [2]) [.expand 5 1] :=
    ⟨⟨rfl, ⟨2, by decide, smallVolume_file _ _⟩, [3], hfound, by decide⟩, fun _ _ => trivial⟩
  exact ⟨t, files', hrun, hintRun_kept soundEnv_reliable eightSectors_volume
    (smallVolume_guarded freshTable 3) freshTable_linked (by decide) freshTable_below hmeets hrun⟩

/-- Where `update_next_clu` gets no buffer `delete_fat32` ignores its error: the freed cluster stays
below the hint. -/
theorem hintRun_not_kept : ¬ ∀ (env : FsEnv) (b : SuperBlock) (n B vol : ℕ) (s t : FsSys)
    (files files' : List ℕ) (ops : List ChainOp), (∀ i, env.sdFails i = false) → Volume b n →
    Apart (VolumeSector b n) B s → FilesLinked n (fatOf b s.sd) files →
    (s.sbs vol).infoNextClu < uintRange → NoFreeBelow b n vol s →
    RunMeets (chainStep env b n) (HintMeets b n vol) (s, files) ops →
    runOps (chainStep env b n) (s, files) ops = some (t, files') →
    NoFreeBelow b n vol t ∧ HintStored b vol s t := by
  intro h
  have hrun : (deleteFat32 (failingCall 12) 5 0 [] (smallVolume freshTable 3)).any (fun r =>
      fatOf eightSectors r.2.sd 2 == fatItemFree && (r.2.sbs 0).infoNextClu == 3) := by
    decide +kernel
  obtain ⟨⟨r, t⟩, hrun, hval⟩ := (Option.any_eq_true _ _).mp hrun
  obtain ⟨hfree, hhint⟩ : fatOf eightSectors t.sd 2 = fatItemFree ∧ (t.sbs 0).infoNextClu = 3 := by
    simpa using hval
  have hmeets : RunMeets (chainStep (failingCall 12) eightSectors 8) (HintMeets eightSectors 8 0)
      (smallVolume freshTable 3, [2]) [.delete 5 0 []] :=
    ⟨⟨rfl, 2, by decide, smallVolume_file _ _⟩, fun _ _ => trivial⟩
  obtain ⟨hbelow, -⟩ := h (failingCall 12) eightSectors 8 8 0 (smallVolume freshTable 3) t [2] _
    [.delete 5 0 []] (fun _ => rfl) eightSectors_volume (smallVolume_guarded freshTable 3)
    freshTable_linked (by decide) freshTable_below hmeets (by simp [runOps, chainStep, hrun]; rfl)
  exact hbelow 2 le_rfl (show 2 < (t.sbs 0).infoNextClu by omega) (by decide) hfree

end Run

end OurOS.Fs
