import OurOS.Fs.ChainOps
import OurOS.Fs.FileChains
import OurOS.Lib.Run

namespace OurOS.Fs

inductive ChainOp
  | create (parent : ℕ) (name : List ℕ) (isdir : Bool)
  | expand (node num : ℕ)
  | clear (node parent : ℕ) (name : List ℕ)
  | delete (node parent : ℕ) (name : List ℕ)

def chainStep (env : FsEnv) (b : SuperBlock) (n : ℕ) :
    FsSys × List ℕ → ChainOp → Option (FsSys × List ℕ)
  | (s, files), .create parent name isdir =>
    let sb := (s.dentries parent).dSb
    let start := (s.sbs sb).infoNextClu
    (createDentryFat32 env sb parent name isdir s).map fun r =>
      (r.2, files ++ (nextFree (fatOf b s.sd) (n - start) start).toList)
  | (s, files), .expand node num => (expandFat32 env node num s).map fun r => (r.2, files)
  | (s, files), .clear node parent name =>
    (clearFat32 env node parent name s).map fun r => (r.2, files)
  | (s, files), .delete node parent name =>
    let sb := s.sbs (s.inodes node).iSb
    (deleteFat32 env node parent name s).map fun r =>
      (r.2, files.erase (secClu sb (s.inodes node).iIno))

def Available (fat : ℕ → ℕ) (n num start : ℕ) : Prop :=
  num ≤ (List.range' start (n - start)).countP fun c => fat c == fatItemFree

/-- `num` searches, each one after the one before, come to a free entry before they come to an entry
that looks like an error code. -/
def Found (fat : ℕ → ℕ) (n num start : ℕ) : Prop := (freeRun fat n num start).isSome

def ChainOp.Meets (enough : (ℕ → ℕ) → ℕ → ℕ → ℕ → Prop) (b : SuperBlock) (n : ℕ) :
    FsSys × List ℕ → ChainOp → Prop
  | (s, files), .create parent _ _ =>
    let node := (s.dentries parent).dInode
    (∃ p ∈ files, FileAt b n s node p) ∧ (s.inodes node).iSb = (s.dentries parent).dSb ∧
      parent < s.brk ∧ node < s.brk ∧
      enough (fatOf b s.sd) n ((appendGrowth s parent).getD 0 + 1) (nextClu s node)
  | (s, files), .expand node num =>
    (∃ p ∈ files, FileAt b n s node p) ∧ enough (fatOf b s.sd) n num (nextClu s node)
  | (s, files), .clear node _ _ => ∃ p ∈ files, FileAt b n s node p
  | (s, files), .delete node _ _ => ∃ p ∈ files, FileAt b n s node p

section Run

variable {env : FsEnv} {b : SuperBlock} {n B : ℕ}

structure ChainInv (b : SuperBlock) (n B : ℕ) (v : FsSys × List ℕ) : Prop where
  apart : Apart (InTable b n) B v.1
  linked : FilesLinked n (fatOf b v.1.sd) v.2
  reserved : Reserved (fatOf b v.1.sd)

def ChainOp.volume (s : FsSys) : ChainOp → ℕ
  | .create parent _ _ => (s.dentries parent).dSb
  | .expand node _ => (s.inodes node).iSb
  | .clear node _ _ => (s.inodes node).iSb
  | .delete node _ _ => (s.inodes node).iSb

def FoundClusters (fat : ℕ → ℕ) (n num start : ℕ) : Prop :=
  ∃ xs, freeRun fat n num start = some xs ∧ ∀ x ∈ xs, 2 ≤ x

theorem Reserved.foundClusters {fat : ℕ → ℕ} {num start : ℕ} (hr : Reserved fat)
    (h : Found fat n num start) : FoundClusters fat n num start := by
  obtain ⟨xs, hxs⟩ := Option.isSome_iff_exists.mp h
  exact ⟨xs, hxs, fun x hx => hr.two_le ((freeRun_spec hxs).2.2 x hx).2.2⟩

theorem ChainOp.Meets.mono {enough enough' : (ℕ → ℕ) → ℕ → ℕ → ℕ → Prop} {v : FsSys × List ℕ}
    {op : ChainOp} (h : op.Meets enough b n v)
    (hi : ∀ num start, enough (fatOf b v.1.sd) n num start → enough' (fatOf b v.1.sd) n num start) :
    op.Meets enough' b n v := by
  cases op with
  | create parent name isdir => exact ⟨h.1, h.2.1, h.2.2.1, h.2.2.2.1, hi _ _ h.2.2.2.2⟩
  | expand node num => exact ⟨h.1, hi _ _ h.2⟩
  | clear node parent name => exact h
  | delete node parent name => exact h

theorem chainStep_moves (he : Reliable env) (hv : Volume b n) {F : ℕ → Prop} {s t : FsSys}
    {files files' : List ℕ} {op : ChainOp} (hap : Apart F B s)
    (hF : ∀ sec, InTable b n sec → F sec) (hl : FilesLinked n (fatOf b s.sd) files)
    (hc : op.Meets FoundClusters b n (s, files))
    (hs : chainStep env b n (s, files) op = some (t, files')) :
    Apart F B t ∧ ∃ a, Relation.ReflTransGen (TableMove n)
        ⟨fatOf b s.sd, files, (s.sbs (op.volume s)).infoNextClu⟩ a ∧ a.files = files' ∧
      TableHint F b n (op.volume s) s t a.fat a.hint := by
  obtain ⟨ls, hl⟩ := hl
  cases op with
  | create parent name isdir =>
    obtain ⟨⟨p, hp, hf⟩, hsb, hparent, hnode, ys, hys, h2⟩ := hc
    obtain ⟨c, hc, hrest⟩ := Option.bind_eq_some_iff.mp hys
    obtain ⟨xs, hxs, hrest⟩ := Option.bind_eq_some_iff.mp hrest
    obtain rfl : c :: xs = ys := by simpa using hrest
    obtain ⟨⟨r, u⟩, hrt, hpair⟩ := Option.map_eq_some_iff.mp hs
    have hstart : (s.sbs (s.dentries parent).dSb).infoNextClu =
        nextClu s (s.dentries parent).dInode := by rw [nextClu, hsb]
    rw [← hstart] at hc hys
    obtain ⟨rfl, rfl⟩ : u = t ∧ files ++ [c] = files' := by simpa [hc] using hpair
    have hk := (createDentryFat32_kept (X := fun _ => True) env trivial (fun _ => trivial) _ _ _ _
      _ _ _ (Kept.refl hap) hrt).1
    have hnew : TableMove n ⟨fatOf b s.sd, files, (s.sbs (s.dentries parent).dSb).infoNextClu⟩
        ⟨Function.update (fatOf b s.sd) c fatItemEnd, files ++ [c], _⟩ :=
      .create hc (h2 c List.mem_cons_self)
    have h2' : ∀ x ∈ xs, 2 ≤ x := fun x hx => h2 x (List.mem_cons_of_mem _ hx)
    refine ⟨hk.apart, ?_⟩
    rcases createDentryFat32_table he hv hf hsb hparent hnode hap hF (hl.head_ok hv hp)
      (fun x hx => by have := h2' x hx; omega) hys (fun _ _ => rfl) hrt with h | h
    · exact ⟨_, .single hnew, rfl, h⟩
    · exact ⟨_, (Relation.ReflTransGen.single hnew).tail (.lengthen (List.mem_append_left _ hp)
        (freeRun_skip (by decide) (by decide) hys) h2'), rfl, h⟩
  | expand node num =>
    obtain ⟨⟨p, hp, hf⟩, xs, hxs, h2⟩ := hc
    obtain ⟨⟨r, u⟩, hrt, hpair⟩ := Option.map_eq_some_iff.mp hs
    obtain ⟨rfl, rfl⟩ : u = t ∧ files = files' := by simpa using hpair
    obtain ⟨v, h1, -, h3, h4⟩ := expandFat32_spec he hv hf (fun x hx => by have := h2 x hx; omega)
      (hl.head_ok hv hp) hxs fun _ _ => rfl
    obtain ⟨rfl, rfl⟩ : r = .ok () ∧ u = v := by simpa using hrt.symm.trans h1
    have hk := (expandFat32_kept (X := fun _ => True) env trivial trivial num _ _ _
      (Kept.refl hap) h1).1
    exact ⟨hk.apart, _, .single (.lengthen hp hxs h2), rfl, h4, fun _ => h3⟩
  | clear node parent name =>
    obtain ⟨p, hp, hf⟩ := hc
    obtain ⟨⟨r, u⟩, hrt, hpair⟩ := Option.map_eq_some_iff.mp hs
    obtain ⟨rfl, rfl⟩ : u = t ∧ files = files' := by simpa using hpair
    obtain ⟨as, bs, cs, as', bs', rfl, rfl, -, -⟩ := hl.split hp
    have hmem : p :: cs ∈ as ++ (p :: cs) :: bs := by simp
    have hk := (clearFat32_kept (X := fun _ => True) env trivial trivial parent name _ _ _
      (Kept.refl hap) hrt).1
    exact ⟨hk.apart, _, .single (.cut hl), rfl, clearFat32_table he hv hf hap hF
      (hl.chains.chain _ hmem) ((List.nodup_flatten.mp hl.chains.nodup).1 _ hmem)
      (fun d hd => (hl.bounds _ hmem d (List.mem_cons_of_mem _ hd)).2) (fun _ _ => rfl) hrt⟩
  | delete node parent name =>
    obtain ⟨p, hp, hf⟩ := hc
    obtain ⟨⟨r, u⟩, hrt, hpair⟩ := Option.map_eq_some_iff.mp hs
    obtain ⟨as, bs, cs, as', bs', rfl, rfl, ha, hb⟩ := hl.split hp
    have hmem : p :: cs ∈ as ++ (p :: cs) :: bs := by simp
    have hk := (deleteFat32_kept (X := fun _ => True) env trivial node parent name _ _ _
      (Kept.refl hap) hrt).1
    have hfirst : secClu (s.sbs (s.inodes node).iSb) (s.inodes node).iIno = p := hf.first hv
    rw [hfirst] at hpair
    obtain ⟨rfl, rfl⟩ : u = t ∧ (as' ++ p :: bs').erase p = files' := Prod.mk.inj hpair
    exact ⟨hk.apart, _, .single (.drop hl ha hb), rfl, deleteFat32_table he hv hf hap hF
      (hl.chains.chain _ hmem) ((List.nodup_flatten.mp hl.chains.nodup).1 _ hmem)
      (fun d hd => (hl.bounds _ hmem d (List.mem_cons_of_mem _ hd)).2) (fun _ _ => rfl) hrt⟩

theorem TableMoves.keep {I : TableSys → Prop} {a a' : TableSys}
    (hstep : ∀ x y, TableMove n x y → FilesLinked n x.fat x.files → I x → I y)
    (h : Relation.ReflTransGen (TableMove n) a a') (hl : FilesLinked n a.fat a.files) (hi : I a) :
    FilesLinked n a'.fat a'.files ∧ I a' := by
  induction h with
  | refl => exact ⟨hl, hi⟩
  | tail _ hm ih => exact ⟨hm.linked ih.1, hstep _ _ hm ih.1 ih.2⟩

theorem ChainOp.Meets.two_le {enough : (ℕ → ℕ) → ℕ → ℕ → ℕ → Prop} {v : FsSys × List ℕ}
    {op : ChainOp} (h : op.Meets enough b n v) : 2 ≤ n := by
  have hfile : ∀ {node : ℕ}, (∃ p ∈ v.2, FileAt b n v.1 node p) → 2 ≤ n :=
    fun ⟨_, _, hf⟩ => hf.two_le.trans hf.lt.le
  cases op with
  | create parent name isdir => exact hfile h.1
  | expand node num => exact hfile h.1
  | clear node parent name => exact hfile h
  | delete node parent name => exact hfile h

theorem chainStep_inv (he : Reliable env) (hv : Volume b n) {v w : FsSys × List ℕ} {op : ChainOp}
    (h : ChainInv b n B v) (hc : op.Meets Found b n v) (hs : chainStep env b n v op = some w) :
    ChainInv b n B w := by
  obtain ⟨s, files⟩ := v
  obtain ⟨t, files'⟩ := w
  obtain ⟨hap, hl, hr⟩ := h
  obtain ⟨hapt, a, hmoves, rfl, ht⟩ := chainStep_moves he hv hap (fun _ h => h) hl
    (hc.mono fun _ _ => hr.foundClusters) hs
  obtain ⟨hl', hr'⟩ := TableMoves.keep (I := fun a => Reserved a.fat)
    (fun _ _ hm hl hr => hm.reserved hl hr) hmoves hl hr
  exact ⟨hapt, hl'.congr ht.table, hr'.congr hc.two_le ht.table⟩

theorem chainRun_linked (he : Reliable env) (hv : Volume b n) {s t : FsSys} {files files' : List ℕ}
    {ops : List ChainOp} (hap : Apart (InTable b n) B s)
    (hl : FilesLinked n (fatOf b s.sd) files) (hr : Reserved (fatOf b s.sd))
    (hc : RunMeets (chainStep env b n) (fun v op => op.Meets Found b n v) (s, files) ops)
    (h : runOps (chainStep env b n) (s, files) ops = some (t, files')) :
    FilesLinked n (fatOf b t.sd) files' :=
  (runOps_invariant_of_meets (P := ChainInv b n B)
    (fun _ _ _ hi hm hs => chainStep_inv he hv hi hm hs) ⟨hap, hl, hr⟩ hc h).linked

end Run

def tableBytes (entries : List ℕ) : ℕ → ℕ := fun o => entries.getD (o / 4) 0 / 2 ^ (8 * (o % 4)) % 2 ^ 8

/-- A volume of eight entries on which the file of the inode 5 starts at the cluster 2. -/
def smallVolume (entries : List ℕ) (next : ℕ) : FsSys :=
  { blankSys with
    sd := ⟨fun sec => if sec = 38 then tableBytes entries else fun _ => 0, 0⟩
    brk := 10
    live := fun i => i < 10
    sbs := fun _ => { eightSectors with infoNextClu := next }
    inodes := fun _ => ⟨16384, 1, 0, 1, false, false, [], [6], 0⟩
    maps := fun _ => ⟨16384, none⟩ }

theorem eightSectors_volume : Volume eightSectors 8 := by
  refine ⟨by decide, by decide, ?_, by decide, fun c h1 h2 => ?_⟩
  · rw [InTable]
    decide
  · have h : ∀ c < 8, 2 ≤ c → secClu eightSectors (cluSec eightSectors c) = c := by decide
    exact h c h2 h1

theorem eightSectors_clear {addr : ℕ} (h1 : 16384 ≤ addr) (h2 : addr ≤ 16384 + 2 ^ 23) :
    Clear (InTable eightSectors 8) addr 8 := by
  refine ⟨?_, fun sec h3 _ hin => ?_⟩
  · rw [uintRange]
    omega
  · have h4 : sec < 38 + (8 + 127) / 128 := hin.2
    omega

theorem eightSectors_cluSec (next c : ℕ) :
    16384 ≤ cluSec { eightSectors with infoNextClu := next } c ∧
      cluSec { eightSectors with infoNextClu := next } c ≤ 16384 + 2 ^ 23 := by
  have hlt : (((c + (uintRange - 2)) % uintRange) <<< 12 % uintRange) >>> sectorShift < 2 ^ 23 := by
    have h : ((c + (uintRange - 2)) % uintRange) <<< 12 % uintRange < 2 ^ 9 * 2 ^ 23 :=
      Nat.mod_lt _ (by decide)
    rw [Nat.shiftRight_eq_div_pow, sectorShift]
    exact Nat.div_lt_of_lt_mul h
  change 16384 ≤ (16384 + (((c + (uintRange - 2)) % uintRange) <<< 12 % uintRange) >>> sectorShift) %
      uintRange ∧ (16384 + (((c + (uintRange - 2)) % uintRange) <<< 12 % uintRange) >>>
      sectorShift) % uintRange ≤ _
  generalize (((c + (uintRange - 2)) % uintRange) <<< 12 % uintRange) >>> sectorShift = x at hlt ⊢
  rw [Nat.mod_eq_of_lt (by rw [uintRange]; omega)]
  omega

theorem smallVolume_apart (entries : List ℕ) (next : ℕ) :
    Apart (InTable eightSectors 8) 8 (smallVolume entries next) where
  blksize _ := by
    change 4096 >>> 9 ≤ 8
    decide
  clusters _ c := eightSectors_clear (eightSectors_cluSec next c).1 (eightSectors_cluSec next c).2
  maps _ := eightSectors_clear (show 16384 ≤ 16384 from le_rfl) (show 16384 ≤ _ by decide)
  pages _ := by
    change Clear _ 0 0
    exact ⟨by decide, fun _ _ h => absurd h (Nat.not_lt_zero _)⟩

theorem smallVolume_file (entries : List ℕ) (next : ℕ) :
    FileAt eightSectors 8 (smallVolume entries next) 5 2 where
  volume := rfl
  ino := by
    change 16384 = cluSec eightSectors 2
    decide
  two_le := le_rfl
  lt := by decide

theorem smallVolume_chains {entries : List ℕ} {next : ℕ}
    (h : fatOf eightSectors (smallVolume entries next).sd 2 = fatItemEnd) :
    FileChains 8 (fatOf eightSectors (smallVolume entries next).sd) [2] [[2]] := by
  refine ⟨rfl, ⟨fun l hl => ?_, by decide⟩, by decide, fun l hl c hc => ?_⟩
  · obtain rfl := List.mem_singleton.mp hl
    exact h
  · obtain rfl := List.mem_singleton.mp hl
    obtain rfl := List.mem_singleton.mp hc
    rw [h]
    decide

theorem smallVolume_linked {entries : List ℕ} {next : ℕ}
    (h : fatOf eightSectors (smallVolume entries next).sd 2 = fatItemEnd) :
    FilesLinked 8 (fatOf eightSectors (smallVolume entries next).sd) [2] :=
  ⟨_, smallVolume_chains h⟩

def freshTable : List ℕ := [0x0FFFFFF8, 0x0FFFFFFF, fatItemEnd, 0, 0, 0, 0, 0]

/-- The chain of the cluster 2 goes on to 5 and to 3, and the cluster 4 is another file. -/
def linkedTable : List ℕ := [0x0FFFFFF8, 0x0FFFFFFF, 5, fatItemEnd, fatItemEnd, 3, 0, 0]

theorem chainRun_linked_small : ∃ t files',
    runOps (chainStep soundEnv eightSectors 8) (smallVolume freshTable 3, [2])
      [.expand 5 1] = some (t, files') ∧ FilesLinked 8 (fatOf eightSectors t.sd) files' := by
  have hrun : (runOps (chainStep soundEnv eightSectors 8) (smallVolume freshTable 3, [2])
      [.expand 5 1]).isSome := by decide +kernel
  obtain ⟨⟨t, files'⟩, hrun⟩ := Option.isSome_iff_exists.mp hrun
  have hmeets : RunMeets (chainStep soundEnv eightSectors 8)
      (fun v op => op.Meets Found eightSectors 8 v) (smallVolume freshTable 3, [2]) [.expand 5 1] :=
    ⟨⟨⟨2, by decide, smallVolume_file _ _⟩, by rw [Found]; decide +kernel⟩, fun _ _ => trivial⟩
  exact ⟨t, files', hrun, chainRun_linked soundEnv_reliable eightSectors_volume
    (smallVolume_apart freshTable 3) (smallVolume_linked (by decide +kernel))
    ⟨by decide +kernel, by decide +kernel⟩ hmeets hrun⟩

/-- The entry after the entry 2 looks like an error code. -/
def marredTable : List ℕ := [0x0FFFFFF8, 0x0FFFFFFF, fatItemEnd, 0xFFFFFFFF, 0, 0, 0, 0]

/-- The search gives that entry to `expand_fat32` as if it were a cluster. -/
theorem marredTable_run : (expandFat32 soundEnv 5 1 (smallVolume marredTable 3)).map
    (fun r => fatOf eightSectors r.2.sd 2) = some 0xFFFFFFFF := by decide +kernel

theorem chainRun_not_linked : ¬ ∀ (env : FsEnv) (b : SuperBlock) (n B : ℕ) (s t : FsSys)
    (files files' : List ℕ) (ops : List ChainOp), (∀ i, env.sdFails i = false) → Volume b n →
    Apart (InTable b n) B s → FilesLinked n (fatOf b s.sd) files → Reserved (fatOf b s.sd) →
    RunMeets (chainStep env b n) (fun v op => op.Meets Available b n v) (s, files) ops →
    runOps (chainStep env b n) (s, files) ops = some (t, files') →
    FilesLinked n (fatOf b t.sd) files' := by
  intro h
  obtain ⟨⟨r, t⟩, hrun, hval⟩ := Option.map_eq_some_iff.mp marredTable_run
  have hmeets : RunMeets (chainStep soundEnv eightSectors 8)
      (fun v op => op.Meets Available eightSectors 8 v) (smallVolume marredTable 3, [2])
      [.expand 5 1] :=
    ⟨⟨⟨2, by decide, smallVolume_file _ _⟩, by rw [Available]; decide +kernel⟩, fun _ _ => trivial⟩
  obtain ⟨ls, hls⟩ := h soundEnv eightSectors 8 8 (smallVolume marredTable 3) t [2] [2]
    [.expand 5 1] (fun _ => rfl) eightSectors_volume (smallVolume_apart marredTable 3)
    (smallVolume_linked (by decide +kernel)) ⟨by decide +kernel, by decide +kernel⟩ hmeets
    (by simp [runOps, chainStep, hrun])
  obtain ⟨as, bs, cs, as', bs', -, rfl, -, -⟩ := hls.split List.mem_cons_self
  have hmem : 2 :: cs ∈ as ++ (2 :: cs) :: bs := by simp
  rcases (hls.chains.chain _ hmem).next_mem List.mem_cons_self with e | e
  · exact absurd (hls.bounds _ hmem _ e).2 (by rw [hval]; decide)
  · exact absurd (hval.symm.trans e) (by decide)

end OurOS.Fs
