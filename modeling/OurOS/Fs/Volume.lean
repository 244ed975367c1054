import OurOS.Fs.Directory
import OurOS.Fs.FatEntries
import OurOS.Fs.Geometry
import OurOS.Lib.Chains

namespace OurOS.Fs

def fatOf (b : SuperBlock) (sd : SdCard) (clu : ℕ) : ℕ :=
  dword (readSectors sd (fatSector b.infoFatSec clu)) (offBytes clu % sectorSize)

def InTable (b : SuperBlock) (n sec : ℕ) : Prop :=
  b.infoFatSec ≤ sec ∧ sec < b.infoFatSec + (n + 127) / 128

structure Volume (b : SuperBlock) (n : ℕ) : Prop where
  entries : n ≤ fatItemEnd
  table : b.infoFatSec + (n + 127) / 128 ≤ uintRange
  info : ¬ InTable b n b.infoFsinfoSec
  info_lt : b.infoFsinfoSec < uintRange
  clusters : ∀ c, 2 ≤ c → c < n → secClu b (cluSec b c) = c

/-- The first free entry among the next `k`, where no entry before it looks like an error code. -/
def nextFree (fat : ℕ → ℕ) : ℕ → ℕ → Option ℕ
  | 0, _ => none
  | k + 1, c =>
    if isErrValue (fat c) then none
    else if fat c = fatItemFree then some c
    else nextFree fat k (c + 1)

/-- The clusters that `num` searches find, each one after the one before. -/
def freeRun (fat : ℕ → ℕ) (n : ℕ) : ℕ → ℕ → Option (List ℕ)
  | 0, _ => some []
  | num + 1, start => do
    let c ← nextFree fat (n - start) start
    let cs ← freeRun fat n num (c + 1)
    pure (c :: cs)

section Search

variable {fat fat' : ℕ → ℕ} {n k start c : ℕ}

theorem nextFree_spec (h : nextFree fat k start = some c) :
    start ≤ c ∧ c < start + k ∧ fat c = fatItemFree := by
  induction k generalizing start with
  | zero => cases h
  | succ k ih =>
    rw [nextFree] at h
    split_ifs at h with h1 h2
    · obtain rfl := Option.some.inj h
      exact ⟨le_rfl, by omega, h2⟩
    · obtain ⟨h3, h4, h5⟩ := ih h
      exact ⟨by omega, by omega, h5⟩

theorem nextFree_least (h : nextFree fat k start = some c) :
    ∀ d, start ≤ d → d < c → fat d ≠ fatItemFree := by
  induction k generalizing start with
  | zero => cases h
  | succ k ih =>
    rw [nextFree] at h
    split_ifs at h with h1 h2
    · obtain rfl := Option.some.inj h
      exact fun d h3 h4 => absurd h4 h3.not_gt
    · intro d h3 h4
      rcases h3.eq_or_lt with rfl | h3
      · exact h2
      · exact ih h d h3 h4

theorem nextFree_congr (he : ∀ d, start ≤ d → d < start + k →
    (isErrValue (fat' d) ↔ isErrValue (fat d)) ∧ (fat' d = fatItemFree ↔ fat d = fatItemFree)) :
    nextFree fat' k start = nextFree fat k start := by
  induction k generalizing start with
  | zero => rfl
  | succ k ih =>
    obtain ⟨h1, h2⟩ := he start le_rfl (by omega)
    rw [nextFree, nextFree, ih fun d hd hd' => he d (by omega) (by omega)]
    simp only [h1, h2]

theorem freeRun_congr {fat' : ℕ → ℕ} {num start : ℕ}
    (he : ∀ d, start ≤ d → d < n → (isErrValue (fat' d) ↔ isErrValue (fat d)) ∧
      (fat' d = fatItemFree ↔ fat d = fatItemFree)) :
    freeRun fat' n num start = freeRun fat n num start := by
  induction num generalizing start with
  | zero => rfl
  | succ num ih =>
    rw [freeRun, freeRun, nextFree_congr fun d hd hd' => he d hd (by omega)]
    cases hc : nextFree fat (n - start) start with
    | none => rfl
    | some c =>
      have hle := (nextFree_spec hc).1
      simp only [Option.bind_eq_bind, Option.bind_some]
      rw [ih fun d hd => he d (by omega)]

theorem nextFree_skip {v : ℕ} (he : isErrValue v = false) (hf : v ≠ fatItemFree)
    (h : nextFree fat k start = some c) :
    nextFree (Function.update fat c v) k start = nextFree fat (start + k - (c + 1)) (c + 1) := by
  induction k generalizing start with
  | zero => cases h
  | succ k ih =>
    rw [nextFree] at h
    split_ifs at h with h1 h2
    · obtain rfl := Option.some.inj h
      have hlater : ∀ d, start + 1 ≤ d → Function.update fat start v d = fat d := fun d hd =>
        Function.update_of_ne (by omega) _ _
      rw [nextFree, Function.update_self, he, if_neg (by simp), if_neg hf,
        show start + (k + 1) - (start + 1) = k by omega]
      exact nextFree_congr fun d hd _ => by rw [hlater d hd]; exact ⟨Iff.rfl, Iff.rfl⟩
    · have hne : start ≠ c := by
        rintro rfl
        exact h2 (nextFree_spec h).2.2
      rw [nextFree, Function.update_of_ne hne, if_neg h1, if_neg h2, ih h,
        show start + 1 + k = start + (k + 1) by omega]

theorem freeRun_head {num : ℕ} {cs : List ℕ} (h : freeRun fat n (num + 1) start = some (c :: cs)) :
    nextFree fat (n - start) start = some c := by
  obtain ⟨d, hd, h⟩ := Option.bind_eq_some_iff.mp h
  obtain ⟨ds, hds, h⟩ := Option.bind_eq_some_iff.mp h
  obtain ⟨rfl, rfl⟩ : d = c ∧ ds = cs := by simpa using h
  exact hd

theorem freeRun_skip {v num : ℕ} {cs : List ℕ} (he : isErrValue v = false) (hf : v ≠ fatItemFree)
    (h : freeRun fat n (num + 1) start = some (c :: cs)) :
    freeRun (Function.update fat c v) n num start = some cs := by
  obtain ⟨d, hd, h⟩ := Option.bind_eq_some_iff.mp h
  obtain ⟨ds, hds, h⟩ := Option.bind_eq_some_iff.mp h
  obtain ⟨rfl, rfl⟩ : d = c ∧ ds = cs := by simpa using h
  cases num with
  | zero => exact hds
  | succ num =>
    have hle := (nextFree_spec hd).1
    have hlt := (nextFree_spec hd).2.1
    have hskip := nextFree_skip he hf hd
    rw [show start + (n - start) - (d + 1) = n - (d + 1) by omega] at hskip
    rw [freeRun] at hds ⊢
    rw [hskip]
    obtain ⟨e, he', hds⟩ := Option.bind_eq_some_iff.mp hds
    obtain ⟨es, hes, hds⟩ := Option.bind_eq_some_iff.mp hds
    have hnext := (nextFree_spec he').1
    refine Option.bind_eq_some_iff.mpr ⟨e, he', Option.bind_eq_some_iff.mpr ⟨es, ?_, hds⟩⟩
    rw [← hes]
    refine freeRun_congr fun x hx _ => ?_
    rw [Function.update_of_ne (by omega)]
    exact ⟨Iff.rfl, Iff.rfl⟩

theorem freeRun_spec {num : ℕ} {cs : List ℕ} (h : freeRun fat n num start = some cs) :
    cs.length = num ∧ cs.Nodup ∧ ∀ c ∈ cs, start ≤ c ∧ c < n ∧ fat c = fatItemFree := by
  induction num generalizing start cs with
  | zero =>
    obtain rfl := Option.some.inj h
    simp
  | succ num ih =>
    obtain ⟨c, hc, h⟩ := Option.bind_eq_some_iff.mp h
    obtain ⟨ds, hds, h⟩ := Option.bind_eq_some_iff.mp h
    obtain rfl := Option.some.inj h
    obtain ⟨h1, h2, h3⟩ := nextFree_spec hc
    obtain ⟨h4, h5, h6⟩ := ih hds
    refine ⟨by simp [h4], List.nodup_cons.mpr ⟨fun hm => ?_, h5⟩, fun d hd => ?_⟩
    · exact absurd (h6 c hm).1 (by omega)
    · rcases List.mem_cons.mp hd with rfl | hd
      · exact ⟨h1, by omega, h3⟩
      · obtain ⟨h7, h8⟩ := h6 d hd
        exact ⟨by omega, h8⟩

end Search

section Table

variable {env : FsEnv} {b : SuperBlock} {n : ℕ} {s : FsSys}

theorem Volume.lt (hv : Volume b n) {c : ℕ} (hc : c < n) : c < 2 ^ 28 := by
  have h := hv.entries
  rw [fatItemEnd] at h
  omega

theorem Volume.index_lt (hv : Volume b n) {c : ℕ} (hc : c < n) : c < 2 ^ 30 :=
  (hv.lt hc).trans (by decide)

theorem fatSector_eq (hv : Volume b n) {c : ℕ} (hc : c < n) :
    fatSector b.infoFatSec c = b.infoFatSec + c / 128 :=
  fatSector_eq_add _ (hv.index_lt hc)

theorem inTable_fatSector (hv : Volume b n) {c : ℕ} (hc : c < n) :
    InTable b n (fatSector b.infoFatSec c) := by
  rw [fatSector_eq hv hc, InTable]
  omega

theorem InTable.lt (hv : Volume b n) {sec : ℕ} (h : InTable b n sec) : sec < uintRange :=
  h.2.trans_le hv.table

theorem readFat_run (he : Reliable env) (s : FsSys) (clu : ℕ) :
    readFat env b.infoFatSec clu s = some (.ok (fatOf b s.sd clu), accessed (grabbed s) 1) := by
  rw [readFat, Prog.bind_ok (kmalloc_run he s)]
  dsimp only
  rw [Prog.bind_ok (sdReadBlock_run he _ _ _)]
  rfl

theorem sdFailure_one (env : FsEnv) (sd : SdCard) :
    sdFailure env sd 1 = if env.sdFails sd.accesses then some 0 else none := by
  rw [sdFailure, List.range_one, List.find?_singleton, Nat.add_zero]

/-- What `read_fat` gives where its `kmalloc` call is the number `call` and its access to the card
the number `access`. -/
def readValue (env : FsEnv) (b : SuperBlock) (sd : SdCard) (call access clu : ℕ) : ℕ :=
  if env.kmallocFails call then errValue errorNoMemory
  else if env.sdFails access then errValue errorReadSdcard
  else fatOf b sd clu

theorem readValue_eq {sd : SdCard} {call access clu : ℕ}
    (h : isErrValue (readValue env b sd call access clu) = false) :
    readValue env b sd call access clu = fatOf b sd clu := by
  rw [readValue] at h ⊢
  split_ifs at h ⊢ with h1 h2
  · exact absurd h (by decide)
  · exact absurd h (by decide)
  · rfl

theorem readFat_value (env : FsEnv) (b : SuperBlock) (s : FsSys) (clu : ℕ) :
    ∃ t, readFat env b.infoFatSec clu s =
        some (.ok (readValue env b s.sd s.brk s.sd.accesses clu), t) ∧
      (isErrValue (readValue env b s.sd s.brk s.sd.accesses clu) = false →
        t = accessed (grabbed s) 1) := by
  rw [readFat, readValue]
  by_cases h1 : env.kmallocFails s.brk
  · refine ⟨{ s with brk := s.brk + 1 }, ?_, fun h => ?_⟩
    · rw [Prog.bind_ok (kmalloc_null h1), if_pos h1]
      rfl
    · rw [if_pos h1] at h
      exact absurd h (by decide)
  · rw [Prog.bind_ok (kmalloc_grabs (Bool.not_eq_true _ ▸ h1)), if_neg h1]
    dsimp only
    by_cases h2 : env.sdFails s.sd.accesses
    · have hsd : sdFailure env (grabbed s).sd 1 = some 0 := (sdFailure_one env _).trans (if_pos h2)
      have hread : sdReadBlock env (fatSector b.infoFatSec clu) 1 (grabbed s) =
          some (.ok none, accessed (grabbed s) 1) := by
        rw [sdReadBlock, hsd]
        rfl
      refine ⟨accessed (grabbed s) 1, ?_, fun _ => rfl⟩
      rw [Prog.bind_ok hread, if_pos h2]
      rfl
    · have hsd : sdFailure env (grabbed s).sd 1 = none := (sdFailure_one env _).trans (if_neg h2)
      have hread : sdReadBlock env (fatSector b.infoFatSec clu) 1 (grabbed s) =
          some (.ok (some (readSectors s.sd (fatSector b.infoFatSec clu))),
            accessed (grabbed s) 1) := by
        rw [sdReadBlock, hsd]
        rfl
      refine ⟨accessed (grabbed s) 1, ?_, fun _ => rfl⟩
      rw [Prog.bind_ok hread, if_neg h2]
      rfl

def fatWritten (b : SuperBlock) (clu value : ℕ) (s : FsSys) : FsSys :=
  let buf := putDword (readSectors s.sd (fatSector b.infoFatSec clu)) (offBytes clu % sectorSize) value
  { grabbed s with sd :=
    ⟨writeSectors s.sd (fatSector b.infoFatSec clu) buf 1, s.sd.accesses + 1 + 1⟩ }

theorem writeFat_run (he : Reliable env) (s : FsSys) (clu value : ℕ) :
    writeFat env b.infoFatSec clu value s = some (.ok (), fatWritten b clu value s) := by
  rw [writeFat, Prog.bind_ok (kmalloc_run he s)]
  dsimp only
  rw [Prog.bind_ok (sdReadBlock_run he _ _ _)]
  dsimp only
  rw [Prog.bind_ok (sdWriteBlock_run he _ _ _ _)]
  rfl

/-- What the functions on the table change: the table becomes `fat`, and the sectors outside it
and the information sector stay. -/
structure TableTo (b : SuperBlock) (n : ℕ) (s t : FsSys) (fat : ℕ → ℕ) : Prop where
  same : SameObjects s t
  sectors : ∀ sec, ¬ InTable b n sec → sec ≠ b.infoFsinfoSec → t.sd.sector sec = s.sd.sector sec
  table : ∀ c < n, fatOf b t.sd c = fat c

variable {fat fat' : ℕ → ℕ} {t u : FsSys}

theorem TableTo.refl (h : ∀ c < n, fatOf b s.sd c = fat c) : TableTo b n s s fat :=
  ⟨Std.Refl.refl s, fun _ _ _ => rfl, h⟩

theorem TableTo.trans (h : TableTo b n s t fat) (h' : TableTo b n t u fat') : TableTo b n s u fat' :=
  ⟨IsTrans.trans _ _ _ h.same h'.same,
    fun sec h1 h2 => (h'.sectors sec h1 h2).trans (h.sectors sec h1 h2), h'.table⟩

structure TableOnly (b : SuperBlock) (n : ℕ) (s t : FsSys) (fat : ℕ → ℕ) : Prop
    extends TableTo b n s t fat where
  sbs : t.sbs = s.sbs
  info : t.sd.sector b.infoFsinfoSec = s.sd.sector b.infoFsinfoSec

theorem TableOnly.refl (h : ∀ c < n, fatOf b s.sd c = fat c) : TableOnly b n s s fat :=
  ⟨.refl h, rfl, rfl⟩

theorem TableOnly.trans (h : TableOnly b n s t fat) (h' : TableOnly b n t u fat') :
    TableOnly b n s u fat' :=
  ⟨h.toTableTo.trans h'.toTableTo, h'.sbs.trans h.sbs, h'.info.trans h.info⟩

theorem TableOnly.sector (h : TableOnly b n s t fat) {sec : ℕ} (hsec : ¬ InTable b n sec) :
    t.sd.sector sec = s.sd.sector sec := by
  by_cases e : sec = b.infoFsinfoSec
  · rw [e]
    exact h.info
  · exact h.sectors sec hsec e

theorem fatOf_congr {sd sd' : SdCard} {c : ℕ} (hv : Volume b n) (hc : c < n)
    (h : ∀ sec, InTable b n sec → sd'.sector sec = sd.sector sec) : fatOf b sd' c = fatOf b sd c := by
  have hin := inTable_fatSector hv hc
  refine fatEntry_congr b.infoFatSec (hv.index_lt hc) ?_
  rw [Nat.mod_eq_of_lt (hin.lt hv)]
  exact h _ hin

theorem fatOf_written (hv : Volume b n) {clu c : ℕ} (hclu : clu < n) (hc : c < n) {value : ℕ}
    (hval : value < uintRange) : fatOf b (fatWritten b clu value s).sd c =
      if c = clu then value else fatOf b s.sd c := by
  have hput := @fatEntry_written s.sd (fatWritten b clu value s).sd b.infoFatSec clu value
    (hv.index_lt hclu) hval rfl c (hv.index_lt hc)
  exact hput.trans (Function.update_apply _ _ _ _)

theorem grabbed_same (s : FsSys) : SameObjects s (grabbed s) :=
  ⟨Nat.le_succ _, fun _ hx => Function.update_of_ne hx.ne .., fun _ => rfl, rfl, rfl, rfl, rfl, rfl,
    rfl, rfl, rfl, rfl, rfl⟩

theorem writeFat_spec (he : Reliable env) (hv : Volume b n) {clu value : ℕ} (hclu : clu < n)
    (hval : value < uintRange) (ht : ∀ c < n, fatOf b s.sd c = fat c) :
    ∃ t, writeFat env b.infoFatSec clu value s = some (.ok (), t) ∧
      TableOnly b n s t (Function.update fat clu value) := by
  have hout : ∀ sec, ¬ InTable b n sec →
      (fatWritten b clu value s).sd.sector sec = s.sd.sector sec := by
    intro sec h1
    have hlt := (inTable_fatSector hv hclu).lt hv
    change writeSectors _ _ _ 1 sec = _
    rw [writeSectors_apply (by omega), if_neg]
    rintro ⟨h2, h3⟩
    obtain rfl : sec = fatSector b.infoFatSec clu := by omega
    exact h1 (inTable_fatSector hv hclu)
  refine ⟨_, writeFat_run he s clu value, ⟨⟨writeFat_keeps env _ _ _ _ _ _ (writeFat_run he s clu value),
    fun sec h1 _ => hout sec h1, fun c hc => ?_⟩, rfl, hout _ hv.info⟩⟩
  · rw [fatOf_written hv hclu hc hval, Function.update_apply]
    split_ifs
    · rfl
    · exact ht c hc

theorem readFat_spec (he : Reliable env) {clu : ℕ} (hclu : clu < n)
    (ht : ∀ c < n, fatOf b s.sd c = fat c) :
    ∃ t, readFat env b.infoFatSec clu s = some (.ok (fat clu), t) ∧ TableOnly b n s t fat := by
  have hrun := readFat_run (b := b) he s clu
  have hsame := readFat_keeps env _ _ _ _ _ hrun
  rw [ht clu hclu] at hrun
  exact ⟨_, hrun, ⟨hsame, fun _ _ _ => rfl, ht⟩, rfl, rfl⟩

theorem findFreeCluFrom_spec (he : Reliable env) {k fuel start c : ℕ} (hk : start + k ≤ n)
    (hn : n < uintRange) (hf : k ≤ fuel) (h : nextFree fat k start = some c)
    (ht : ∀ c < n, fatOf b s.sd c = fat c) :
    ∃ t, findFreeCluFrom env b.infoFatSec fuel start s = some (.ok c, t) ∧
      TableOnly b n s t fat := by
  induction k generalizing fuel start s with
  | zero => cases h
  | succ k ih =>
    obtain ⟨fuel, rfl⟩ := Nat.exists_eq_succ_of_ne_zero (show fuel ≠ 0 by omega)
    have hstart : start < n := by omega
    obtain ⟨t, h1, h2⟩ := readFat_spec he hstart ht
    rw [nextFree] at h
    rw [findFreeCluFrom, Prog.bind_ok h1]
    split_ifs at h with h3 h4
    · obtain rfl := Option.some.inj h
      refine ⟨t, ?_, h2⟩
      rw [if_neg h3, if_pos h4]
      rfl
    · obtain ⟨u, h5, h6⟩ := ih (by omega) (show k ≤ fuel by omega) h h2.table
      refine ⟨u, ?_, h2.trans h6⟩
      rw [if_neg h3, if_neg h4, Nat.mod_eq_of_lt (by omega)]
      exact h5

theorem findFreeClu_spec (he : Reliable env) (hv : Volume b n) {start c : ℕ}
    (h : nextFree fat (n - start) start = some c) (ht : ∀ c < n, fatOf b s.sd c = fat c) :
    ∃ t, findFreeClu env b.infoFatSec start s = some (.ok c, t) ∧ TableOnly b n s t fat := by
  have hn : n < uintRange := by
    have := hv.entries
    rw [fatItemEnd] at this
    rw [uintRange]
    omega
  have hstart : start ≤ n := by
    by_contra hlt
    rw [Nat.sub_eq_zero_of_le (by omega)] at h
    cases h
  exact findFreeCluFrom_spec he (by omega) hn (by omega) h ht

def fsinfoHint (b : SuperBlock) (sd : SdCard) : ℕ :=
  dword (readSectors sd b.infoFsinfoSec) fsinfoNextClu

/-- The hint of the super block has become `value`: it and the information sector are as before, or
the sector holds it. -/
structure HintTo (b : SuperBlock) (sb : ℕ) (s t : FsSys) (value : ℕ) : Prop where
  hint : (t.sbs sb).infoNextClu = value
  info : t.sbs = s.sbs ∧ t.sd.sector b.infoFsinfoSec = s.sd.sector b.infoFsinfoSec ∨
    fsinfoHint b t.sd = value

theorem HintTo.refl (s : FsSys) (sb : ℕ) : HintTo b sb s s (s.sbs sb).infoNextClu :=
  ⟨rfl, .inl ⟨rfl, rfl⟩⟩

theorem fsinfoHint_congr {sd sd' : SdCard}
    (h : sd'.sector b.infoFsinfoSec = sd.sector b.infoFsinfoSec) (hlt : b.infoFsinfoSec < uintRange) :
    fsinfoHint b sd' = fsinfoHint b sd := by
  have hread : ∀ o < sectorSize,
      readSectors sd' b.infoFsinfoSec o = readSectors sd b.infoFsinfoSec o := by
    intro o ho
    rw [readSectors, readSectors, Nat.div_eq_of_lt ho, Nat.add_zero, Nat.mod_eq_of_lt hlt, h]
  rw [fsinfoHint, fsinfoHint, dword, dword, fsinfoNextClu, hread _ (by decide), hread _ (by decide),
    hread _ (by decide), hread _ (by decide)]

theorem HintTo.before {sb value : ℕ} (h : HintTo b sb t u value) (hsbs : t.sbs = s.sbs)
    (hinfo : t.sd.sector b.infoFsinfoSec = s.sd.sector b.infoFsinfoSec) : HintTo b sb s u value :=
  ⟨h.hint, h.info.imp_left fun h => ⟨h.1.trans hsbs, h.2.trans hinfo⟩⟩

theorem HintTo.after {sb value : ℕ} (h : HintTo b sb s t value) (hsbs : u.sbs = t.sbs)
    (hinfo : u.sd.sector b.infoFsinfoSec = t.sd.sector b.infoFsinfoSec)
    (hlt : b.infoFsinfoSec < uintRange) : HintTo b sb s u value := by
  refine ⟨by rw [hsbs]; exact h.hint, h.info.imp (fun h => ⟨hsbs.trans h.1, hinfo.trans h.2⟩) ?_⟩
  exact fun h => (fsinfoHint_congr hinfo hlt).trans h

theorem updateNextClu_spec (he : Reliable env) (hv : Volume b n) (sb value : ℕ)
    (hb : (s.sbs sb).infoFsinfoSec = b.infoFsinfoSec)
    (ht : ∀ c < n, fatOf b s.sd c = fat c) :
    ∃ t, updateNextClu env sb value s = some (.ok (), t) ∧ TableTo b n s t fat ∧
      (value < uintRange → HintTo b sb s t value) := by
  have hrun : ∃ t, updateNextClu env sb value s = some (.ok (), t) ∧
      t.sd.sector = writeSectors s.sd b.infoFsinfoSec
        (putDword (readSectors s.sd b.infoFsinfoSec) fsinfoNextClu value) 1 ∧
      (t.sbs sb).infoNextClu = value := by
    rw [updateNextClu, Prog.get_bind_run, Prog.bind_ok (kmalloc_run he s)]
    dsimp only
    rw [Prog.bind_ok (sdReadBlock_run he _ _ _)]
    dsimp only
    rw [Prog.modify_bind_run, Prog.bind_ok (sdWriteBlock_run he _ _ _ _)]
    refine ⟨_, rfl, ?_, ?_⟩
    · rw [hb]
      rfl
    · simp [FsSys.setSb]
  obtain ⟨t, h1, h2, h3⟩ := hrun
  have hlt := hv.info_lt
  have hsec : ∀ sec, sec ≠ b.infoFsinfoSec → t.sd.sector sec = s.sd.sector sec := by
    intro sec hne
    rw [h2, writeSectors_apply (by omega), if_neg (by omega)]
  have hread : ∀ o < sectorSize, readSectors t.sd b.infoFsinfoSec o =
      putDword (readSectors s.sd b.infoFsinfoSec) fsinfoNextClu value o := by
    intro o ho
    rw [readSectors, Nat.div_eq_of_lt ho, Nat.add_zero, Nat.mod_eq_of_lt hlt, Nat.mod_eq_of_lt ho, h2,
      writeSectors_apply (by omega), if_pos (by omega)]
    simp
  have hinfo : value < uintRange → fsinfoHint b t.sd = value := by
    intro hval
    rw [fsinfoHint, dword, fsinfoNextClu, hread _ (by decide), hread _ (by decide),
      hread _ (by decide), hread _ (by decide)]
    exact (dword_put _ _ _).trans (Nat.mod_eq_of_lt hval)
  refine ⟨t, h1, ⟨updateNextClu_keeps env _ _ _ _ _ h1, fun sec _ hne => hsec sec hne,
    fun c hc => ?_⟩, fun hval => ⟨h3, .inr (hinfo hval)⟩⟩
  rw [fatOf_congr hv hc fun sec hin => hsec sec fun e => hv.info (e ▸ hin)]
  exact ht c hc

end Table

end OurOS.Fs
