import Mathlib.Logic.Relation
import OurOS.Fs.Seek
import OurOS.Fs.Sizes

namespace OurOS.Fs

open Relation

/-- How far a transfer has come: the blocks ahead, the offset in the first of them, what is left to
move and the state. -/
structure Cursor (β : Type) where
  maps : List ℕ
  off : ℕ
  rest : β
  sys : FsSys

/-- The walk of a transfer over the blocks and what it does with each of them. -/
structure Transfer (env : FsEnv) (blksize : ℕ) (β γ : Type) where
  loop : List ℕ → ℕ → β → FsProg γ
  count : β → ℕ
  drop : ℕ → β → β
  touch : ℕ → ℕ → β → FsSys → FsSys
  past : ∀ off rest s, loop [] off rest s = none
  stops : ∀ {map maps off rest s}, mustGetFspage env map blksize s = none →
    loop (map :: maps) off rest s = none
  last : ∀ {map maps off rest s page t}, mustGetFspage env map blksize s = some (.ok page, t) →
    (off + count rest) % uintRange ≤ (t.pages page).pPagesize →
      loop (map :: maps) off rest s ≠ none
  next : ∀ {map maps off rest s page t}, mustGetFspage env map blksize s = some (.ok page, t) →
    (t.pages page).pPagesize < (off + count rest) % uintRange →
      (loop (map :: maps) off rest s = none ↔ loop maps 0
        (drop (subWord (t.pages page).pPagesize off) rest) (touch page off rest t) = none)
  ok : ∀ {maps off rest s r t}, loop maps off rest s = some (r, t) → ∃ a, r = .ok a
  count_drop : ∀ {n rest}, n ≤ count rest → count rest < uintRange →
    count (drop n rest) = count rest - n
  touch_blocks : ∀ {maps page off rest s}, Blocks s blksize maps →
    Blocks (touch page off rest s) blksize maps
  touch_pCache : ∀ page off rest s, (touch page off rest s).pCache = s.pCache
  touch_pos : ∀ page off rest s fp,
    ((touch page off rest s).files fp).fPos = (s.files fp).fPos

section Load

variable {env : FsEnv} {s t : FsSys} {map blksize : ℕ}

theorem mustGetFspage_ok {r : Except ℕ ℕ} (h : mustGetFspage env map blksize s = some (r, t)) :
    ∃ page, r = .ok page ∧ getFspage env map blksize s = some (.ok page, t) := by
  rcases Prog.bind_cases h with ⟨r', u, h1, h⟩ | ⟨e, h1, -⟩
  · obtain ⟨r'', hr, h1⟩ := Prog.attempt_cases h1
    cases hr
    cases r' with
    | ok page =>
      cases h
      exact ⟨page, rfl, h1⟩
    | error e => cases h
  · obtain ⟨_, hr, -⟩ := Prog.attempt_cases h1
    cases hr

theorem mustGetFspage_files {r : Except ℕ ℕ} (h : mustGetFspage env map blksize s = some (r, t)) :
    t.files = s.files := by
  have hframe : PageFrame fun s t : FsSys => t.files = s.files :=
    ⟨fun _ _ h => h.files, fun _ _ _ _ _ => rfl⟩
  have : Std.Refl fun s t : FsSys => t.files = s.files := ⟨fun _ => rfl⟩
  have : IsTrans FsSys fun s t => t.files = s.files := ⟨fun _ _ _ h1 h2 => h2.trans h1⟩
  exact hframe.mustGetFspage env map blksize _ _ _ h

/-- The block has no page, there is memory for one, and it cannot be read from the card. -/
structure LoadFails (env : FsEnv) (map blksize : ℕ) (s : FsSys) : Prop where
  uncached : (s.maps map).mapPage = none
  header : env.kmallocFails s.brk = false
  data : env.kmallocFails (s.brk + 1) = false
  sd : (sdFailure env s.sd (blksize >>> sectorShift)).isSome

theorem LoadFails.allocFspage (h : LoadFails env map blksize s) {r : Except ℕ ℕ}
    (hr : allocFspage env (s.maps map).mapAddr blksize s = some (r, t)) : ∃ e, r = .error e := by
  obtain ⟨i, hi⟩ := Option.isSome_iff_exists.mp h.sd
  have h1 := kmalloc_grabs h.header
  have h2 : kmalloc env (grabbed s) = some (.ok (some (s.brk + 1)), grabbed (grabbed s)) :=
    kmalloc_grabs h.data
  have h3 : sdReadBlock env (s.maps map).mapAddr (blksize >>> sectorShift) (grabbed (grabbed s)) =
      some (.ok none, accessed (grabbed (grabbed s)) (i + 1)) := by
    rw [sdReadBlock, show (grabbed (grabbed s)).sd = s.sd from rfl, hi]
    rfl
  rw [Fs.allocFspage, Prog.bind_ok h1] at hr
  dsimp only at hr
  rw [Prog.bind_ok h2] at hr
  dsimp only at hr
  rw [Prog.bind_ok h3] at hr
  dsimp only at hr
  rw [Prog.modify_bind_run] at hr
  rcases Prog.bind_cases hr with ⟨room, u, -, hr⟩ | ⟨e, -, rfl⟩
  · cases room with
    | true => cases hr
    | false =>
      cases hr
      exact ⟨_, rfl⟩
  · exact ⟨e, rfl⟩

/-- The error pointer is added to the page cache or read as a page. -/
theorem LoadFails.mustGetFspage (h : LoadFails env map blksize s) :
    mustGetFspage env map blksize s = none := by
  cases hm : Fs.mustGetFspage env map blksize s with
  | none => rfl
  | some p =>
    obtain ⟨r, t⟩ := p
    obtain ⟨page, rfl, hg⟩ := mustGetFspage_ok hm
    rw [getFspage, Prog.get_bind_run, h.uncached] at hg
    dsimp only at hg
    obtain ⟨r', u, h1, hg⟩ := Prog.bind_ok_cases hg
    obtain ⟨r'', hr, h1⟩ := Prog.attempt_cases h1
    cases hr
    obtain ⟨e, rfl⟩ := h.allocFspage h1
    cases hg

end Load

namespace Transfer

variable {env : FsEnv} {blksize : ℕ} {β γ : Type} (T : Transfer env blksize β γ)

inductive Next : Cursor β → Cursor β → Prop
  | block {map maps off rest s page t} (load : mustGetFspage env map blksize s = some (.ok page, t))
      (more : (t.pages page).pPagesize < (off + T.count rest) % uintRange) :
      Next ⟨map :: maps, off, rest, s⟩ ⟨maps, 0, T.drop (subWord (t.pages page).pPagesize off) rest,
        T.touch page off rest t⟩

def Reaches : Cursor β → Cursor β → Prop := ReflTransGen T.Next

def Waits (env : FsEnv) (blksize : ℕ) (c : Cursor β) : Prop :=
  ∃ map ∈ c.maps.head?, mustGetFspage env map blksize c.sys = none

def runs (c : Cursor β) : Option (Except ℕ γ × FsSys) := T.loop c.maps c.off c.rest c.sys

variable {T} {c d : Cursor β}

theorem runs_next (h : T.Next c d) : T.runs c = none ↔ T.runs d = none := by
  cases h with
  | block load more => exact T.next load more

theorem runs_reaches (h : T.Reaches c d) : T.runs c = none ↔ T.runs d = none := by
  induction h with
  | refl => rfl
  | tail _ hn ih => exact ih.trans (runs_next hn)

theorem runs_waits (h : Waits env blksize c) : T.runs c = none := by
  obtain ⟨maps, off, rest, s⟩ := c
  obtain ⟨map, hmap, hload⟩ := h
  cases maps with
  | nil => cases hmap
  | cons m maps =>
    cases hmap
    exact T.stops hload

theorem runs_none_iff : T.runs c = none ↔
    ∃ d, T.Reaches c d ∧ (d.maps = [] ∨ Waits env blksize d) := by
  constructor
  · intro h
    obtain ⟨maps, off, rest, s⟩ := c
    induction maps generalizing off rest s with
    | nil => exact ⟨_, .refl, .inl rfl⟩
    | cons map maps ih =>
      cases hm : mustGetFspage env map blksize s with
      | none => exact ⟨_, .refl, .inr ⟨map, rfl, hm⟩⟩
      | some p =>
        obtain ⟨r, t⟩ := p
        obtain ⟨page, rfl, -⟩ := mustGetFspage_ok hm
        by_cases hmore : (t.pages page).pPagesize < (off + T.count rest) % uintRange
        · have hnext : T.Next ⟨map :: maps, off, rest, s⟩ _ := .block hm hmore
          obtain ⟨d, hd, hend⟩ := ih _ _ _ ((runs_next hnext).mp h)
          exact ⟨d, .head hnext hd, hend⟩
        · exact absurd h (T.last hm (Nat.le_of_not_lt hmore))
  · rintro ⟨d, hd, hend⟩
    refine (runs_reaches hd).mpr ?_
    rcases hend with hnil | hwait
    · rw [runs, hnil]
      exact T.past _ _ _
    · exact runs_waits hwait

theorem reaches_pos (h : T.Reaches c d) (fp : ℕ) :
    (d.sys.files fp).fPos = (c.sys.files fp).fPos := by
  induction h with
  | refl => rfl
  | tail _ hn ih =>
    refine Eq.trans ?_ ih
    cases hn with
    | block load _ => rw [T.touch_pos, mustGetFspage_files load]

end Transfer

section Loops

variable {env : FsEnv} {s t : FsSys} {fp blksize map page : ℕ} {maps : List ℕ} {off : ℕ}

theorem readLoop_ok {len : ℕ} {r : Except ℕ (List ℕ)}
    (h : readLoop env fp blksize maps off len s = some (r, t)) : ∃ bytes, r = .ok bytes := by
  induction maps generalizing off len s r t with
  | nil => cases h
  | cons map maps ih =>
    rcases Prog.bind_cases h with ⟨page, u, -, h⟩ | ⟨e, hm, -⟩
    · rw [Prog.get_bind_run] at h
      dsimp only at h
      split_ifs at h
      · cases h
        exact ⟨_, rfl⟩
      · rcases Prog.bind_cases h with ⟨rest, v, -, h⟩ | ⟨e, hrest, -⟩
        · cases h
          exact ⟨_, rfl⟩
        · obtain ⟨_, he⟩ := ih hrest
          cases he
    · obtain ⟨_, he, -⟩ := mustGetFspage_ok hm
      cases he

theorem writeLoop_ok {buf : List ℕ} {r : Except ℕ Unit}
    (h : writeLoop env fp blksize maps off buf s = some (r, t)) : ∃ a, r = .ok a := by
  induction maps generalizing off buf s with
  | nil => cases h
  | cons map maps ih =>
    rcases Prog.bind_cases h with ⟨page, u, -, h⟩ | ⟨e, hm, -⟩
    · rw [Prog.get_bind_run] at h
      dsimp only at h
      split_ifs at h
      · cases h
        exact ⟨_, rfl⟩
      · exact ih h
    · obtain ⟨_, he, -⟩ := mustGetFspage_ok hm
      cases he

theorem readLoop_last {len : ℕ} (h : mustGetFspage env map blksize s = some (.ok page, t))
    (hle : (off + len) % uintRange ≤ (t.pages page).pPagesize) :
    readLoop env fp blksize (map :: maps) off len s ≠ none := by
  rw [readLoop, Prog.bind_ok h, Prog.get_bind_run]
  dsimp only
  rw [if_pos hle]
  simp

theorem readLoop_next {len : ℕ} (h : mustGetFspage env map blksize s = some (.ok page, t))
    (hlt : (t.pages page).pPagesize < (off + len) % uintRange) :
    readLoop env fp blksize (map :: maps) off len s = none ↔
      readLoop env fp blksize maps 0 (subWord len (subWord (t.pages page).pPagesize off)) t =
        none := by
  rw [readLoop, Prog.bind_ok h, Prog.get_bind_run]
  dsimp only
  rw [if_neg (Nat.not_le_of_lt hlt)]
  constructor
  · intro hnone
    cases hr : readLoop env fp blksize maps 0
        (subWord len (subWord (t.pages page).pPagesize off)) t with
    | none => rfl
    | some p =>
      obtain ⟨r, u⟩ := p
      obtain ⟨bytes, rfl⟩ := readLoop_ok hr
      rw [Prog.bind_ok hr] at hnone
      cases hnone
  · exact Prog.bind_none

theorem writeLoop_last {buf : List ℕ} (h : mustGetFspage env map blksize s = some (.ok page, t))
    (hle : (off + buf.length) % uintRange ≤ (t.pages page).pPagesize) :
    writeLoop env fp blksize (map :: maps) off buf s ≠ none := by
  rw [writeLoop, Prog.bind_ok h, Prog.get_bind_run]
  dsimp only
  rw [if_pos hle]
  simp

theorem writeLoop_next {buf : List ℕ} (h : mustGetFspage env map blksize s = some (.ok page, t))
    (hlt : (t.pages page).pPagesize < (off + buf.length) % uintRange) :
    writeLoop env fp blksize (map :: maps) off buf s =
      writeLoop env fp blksize maps 0 (buf.drop (subWord (t.pages page).pPagesize off))
        (setDirt fp (writePage page off (buf.take (subWord (t.pages page).pPagesize off)) t)) := by
  rw [writeLoop, Prog.bind_ok h, Prog.get_bind_run]
  dsimp only
  rw [if_neg (Nat.not_le_of_lt hlt)]
  rfl

def readTransfer (env : FsEnv) (fp blksize : ℕ) : Transfer env blksize ℕ (List ℕ) where
  loop := readLoop env fp blksize
  count len := len
  drop n len := subWord len n
  touch _ _ _ s := s
  past _ _ _ := rfl
  stops h := Prog.bind_none h
  last := readLoop_last
  next := readLoop_next
  ok := readLoop_ok
  count_drop h hlt := subWord_eq h hlt
  touch_blocks h := h
  touch_pCache _ _ _ _ := rfl
  touch_pos _ _ _ _ _ := rfl

theorem setDirt_pos (fp g : ℕ) (s : FsSys) : ((setDirt fp s).files g).fPos = (s.files g).fPos := by
  by_cases e : g = fp
  · subst e
    simp [setDirt, FsSys.setFile]
  · simp [setDirt, FsSys.setFile, e]

def writeTransfer (env : FsEnv) (fp blksize : ℕ) : Transfer env blksize (List ℕ) Unit where
  loop := writeLoop env fp blksize
  count := List.length
  drop := List.drop
  touch page off buf s :=
    setDirt fp (writePage page off (buf.take (subWord (s.pages page).pPagesize off)) s)
  past _ _ _ := rfl
  stops h := Prog.bind_none h
  last := writeLoop_last
  next h hlt := by rw [writeLoop_next h hlt]
  ok := writeLoop_ok
  count_drop _ _ := List.length_drop
  touch_blocks h := (h.writePage _ _ _).setDirt _
  touch_pCache _ _ _ _ := rfl
  touch_pos _ _ _ _ _ := setDirt_pos _ _ _

end Loops

section Calls

def startOf {β : Type} (u : FsSys) (fp off : ℕ) (rest : β) : Cursor β :=
  ⟨mapsFrom u fp, off, rest, u⟩

structure ReadStarts (s : FsSys) (fp len : ℕ) : Prop where
  mode : hasMode (s.files fp).fMode fModeReadMask = true
  fits : ((s.files fp).fPos + len) % uintRange ≤ (s.files fp).fSize

variable {env : FsEnv} {s u : FsSys} {fp len : ℕ} {buf : List ℕ}

theorem advanced_blksize (fp len : ℕ) (s : FsSys) :
    fileBlksize (advanced fp len s) fp = fileBlksize s fp := by
  simp [fileBlksize, fileSb, advanced, FsSys.setFile]

theorem advanced_mapsFrom (fp len : ℕ) (s : FsSys) :
    mapsFrom (advanced fp len s) fp = mapsFrom s fp := by
  simp [mapsFrom, advanced, FsSys.setFile]

theorem advanced_pos (fp len : ℕ) (s : FsSys) :
    ((advanced fp len s).files fp).fPos = ((s.files fp).fPos + len) % uintRange := by
  simp [advanced, FsSys.setFile]

theorem ReadStarts.runs (h : ReadStarts s fp len) : fsRead env fp len s =
    (readTransfer env fp (fileBlksize s fp)).runs
      (startOf (advanced fp len s) fp (s.files fp).fCurOff len) := by
  rw [fsRead_within h.mode h.fits, Transfer.runs, startOf, advanced_mapsFrom]
  rfl

theorem WriteStarts.runs (h : WriteStarts env s fp buf u) : fsWrite env fp buf s =
    (writeTransfer env fp (fileBlksize u fp)).runs
      (startOf (advanced fp buf.length u) fp (s.files fp).fCurOff buf) := by
  rw [h.run, ← advanced_blksize fp buf.length u]
  rfl

end Calls

section Failures

variable {env : FsEnv} {s : FsSys} {fp len : ℕ} {buf : List ℕ}

def Transfer.Fails {blksize : ℕ} {β γ : Type} (T : Transfer env blksize β γ) (c : Cursor β) :
    Prop :=
  ∃ d, T.Reaches c d ∧ ∃ map ∈ d.maps.head?, LoadFails env map blksize d.sys

theorem Transfer.Fails.runs {blksize : ℕ} {β γ : Type} {T : Transfer env blksize β γ} {c : Cursor β}
    (h : T.Fails c) : T.runs c = none := by
  obtain ⟨d, hd, map, hmap, hload⟩ := h
  exact runs_none_iff.mpr ⟨d, hd, .inr ⟨map, hmap, hload.mustGetFspage⟩⟩

def ReadFails (env : FsEnv) (s : FsSys) (fp len : ℕ) : Prop :=
  ReadStarts s fp len ∧ (readTransfer env fp (fileBlksize s fp)).Fails
    (startOf (advanced fp len s) fp (s.files fp).fCurOff len)

def WriteFails (env : FsEnv) (s : FsSys) (fp : ℕ) (buf : List ℕ) : Prop :=
  ∃ u, WriteStarts env s fp buf u ∧ (writeTransfer env fp (fileBlksize u fp)).Fails
    (startOf (advanced fp buf.length u) fp (s.files fp).fCurOff buf)

/-- The handle and the caches after a failed call, and what the same call does later. -/
structure Recovered {α : Type} (call : FsEnv → FsProg α) (fp : ℕ) (s t : FsSys) : Prop where
  fPos : (t.files fp).fPos = (s.files fp).fPos
  fCurMap : (t.files fp).fCurMap = (s.files fp).fCurMap
  fCurOff : (t.files fp).fCurOff = (s.files fp).fCurOff
  maps : ∀ m e, (t.maps m).mapPage = some (.error e) → (s.maps m).mapPage = some (.error e)
  cache : ∀ p ∈ t.pCache.lru, p ∈ s.pCache.lru ∨ ∃ m, (t.maps m).mapPage = some (.ok p)
  later : ∀ env, Reliable env → (call env t).map Prod.fst = (call env s).map Prod.fst

def Recovers {α : Type} (call : FsEnv → FsProg α) (env : FsEnv) (fp : ℕ) (s : FsSys) : Prop :=
  ∃ t, call env s = some (.error errorReadSdcard, t) ∧ Recovered call fp s t

theorem ReadFails.run (h : ReadFails env s fp len) : fsRead env fp len s = none :=
  h.1.runs.trans h.2.runs

theorem WriteFails.run (h : WriteFails env s fp buf) : fsWrite env fp buf s = none := by
  obtain ⟨u, hstart, hfail⟩ := h
  exact hstart.runs.trans hfail.runs

theorem not_recovers {α : Type} {call : FsEnv → FsProg α} (h : call env s = none) :
    ¬ Recovers call env fp s := by
  rintro ⟨t, ht, -⟩
  rw [h] at ht
  cases ht

theorem transfers_not_recover (env : FsEnv) (s : FsSys) (fp : ℕ) :
    (∀ len, ReadFails env s fp len → ¬ Recovers (fsRead · fp len) env fp s ∧
        ∀ d, (readTransfer env fp (fileBlksize s fp)).Reaches
          (startOf (advanced fp len s) fp (s.files fp).fCurOff len) d →
            (d.sys.files fp).fPos = ((s.files fp).fPos + len) % uintRange) ∧
      ∀ buf, WriteFails env s fp buf → ¬ Recovers (fsWrite · fp buf) env fp s ∧
        ∀ u, WriteStarts env s fp buf u → ∀ d, (writeTransfer env fp (fileBlksize u fp)).Reaches
          (startOf (advanced fp buf.length u) fp (s.files fp).fCurOff buf) d →
            (d.sys.files fp).fPos = ((u.files fp).fPos + buf.length) % uintRange := by
  refine ⟨fun len h => ⟨not_recovers h.run, fun d hd => ?_⟩,
    fun buf h => ⟨not_recovers h.run, fun u _ d hd => ?_⟩⟩
  · exact (Transfer.reaches_pos hd fp).trans (advanced_pos fp len s)
  · exact (Transfer.reaches_pos hd fp).trans (advanced_pos fp buf.length u)

def brokenCard : FsEnv := { soundEnv with sdFails := fun _ => true }

def openBytes : FsSys := tenBytes.setFile 7 fun f => { f with fMode := 3 }

theorem openBytes_load (s : FsSys) (h : s.maps 1 = ⟨8, none⟩) : LoadFails brokenCard 1 4096 s :=
  ⟨by rw [h], rfl, rfl, rfl⟩

theorem openBytes_readFails : ReadFails brokenCard openBytes 7 3 :=
  ⟨⟨by decide, by decide⟩, _, .refl, 1, by decide, openBytes_load _ rfl⟩

theorem openBytes_writeFails : WriteFails brokenCard openBytes 7 [1] :=
  ⟨openBytes, ⟨by decide, .inr ⟨by decide, rfl⟩⟩, _, .refl, 1, by decide, openBytes_load _ rfl⟩

theorem transfers_not_recover_small : ¬ Recovers (fsRead · 7 3) brokenCard 7 openBytes ∧
    ¬ Recovers (fsWrite · 7 [1]) brokenCard 7 openBytes :=
  ⟨((transfers_not_recover brokenCard openBytes 7).1 3 openBytes_readFails).1,
    ((transfers_not_recover brokenCard openBytes 7).2 [1] openBytes_writeFails).1⟩

theorem readFailure_not_recovered : ¬ ∀ (env : FsEnv) (s : FsSys) (fp len : ℕ),
    ReadFails env s fp len → Recovers (fsRead · fp len) env fp s :=
  fun h => not_recovers openBytes_readFails.run (h brokenCard openBytes 7 3 openBytes_readFails)

end Failures

end OurOS.Fs
