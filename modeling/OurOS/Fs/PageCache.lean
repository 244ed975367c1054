import OurOS.Fs.Fscache
import OurOS.Fs.ReadWrite
import OurOS.Lib.Run

namespace OurOS.Fs

structure Reliable (env : FsEnv) : Prop where
  sd : ∀ n, env.sdFails n = false
  memory : ∀ n, env.kmallocFails n = false

def soundEnv : FsEnv := ⟨fun _ => false, fun _ => false, fun _ => 0, fun _ => 0⟩

def failingCall (call : ℕ) : FsEnv := ⟨fun _ => false, fun i => i == call, fun _ => 0, fun _ => 0⟩

def failingAccess (access : ℕ) : FsEnv := ⟨fun i => i == access, fun _ => false, fun _ => 0, fun _ => 0⟩

theorem soundEnv_reliable : Reliable soundEnv := ⟨fun _ => rfl, fun _ => rfl⟩

def blankSys : FsSys where
  sd := ⟨fun _ _ => 0, 0⟩
  brk := 0
  live := fun _ => false
  sbs := fun _ => ⟨4096, 12, 0, none, none, 0, 0, 0, 0⟩
  sbList := []
  maps := fun _ => ⟨0, none⟩
  pages := fun _ => ⟨false, fun _ => 0, 0, 0, 0⟩
  inodes := fun _ => ⟨0, 0, 0, 0, false, false, [], [], 0⟩
  dentries := fun _ => ⟨0, false, false, [], 0, 0, none, []⟩
  files := fun _ => ⟨0, 0, 0, 0, none, 0, 0, false⟩
  dCache := ⟨0, [], fun _ => []⟩
  iCache := ⟨0, [], fun _ => []⟩
  pCache := ⟨0, [], fun _ => []⟩
  rootDentry := 0
  pwdDentry := 0

section Sectors

variable {sd : SdCard} {addr count : ℕ} {data : ℕ → ℕ}

theorem writeSectors_apply (h : addr + count ≤ uintRange) (sec : ℕ) :
    writeSectors sd addr data count sec = if addr ≤ sec ∧ sec < addr + count then
      fun o => data (sectorSize * (sec - addr) + o) else sd.sector sec := by
  induction count with
  | zero =>
    rw [if_neg (by omega)]
    rfl
  | succ count ih =>
    have ih := ih (by omega)
    rw [writeSectors, List.range_succ, List.foldl_append]
    change Function.update (writeSectors sd addr data count) ((addr + count) % uintRange) _ sec = _
    rw [Nat.mod_eq_of_lt (by omega)]
    by_cases hs : sec = addr + count
    · subst hs
      rw [Function.update_self, if_pos (by omega), Nat.add_sub_cancel_left]
    · rw [Function.update_of_ne hs, ih]
      have hiff : (addr ≤ sec ∧ sec < addr + count) ↔ (addr ≤ sec ∧ sec < addr + (count + 1)) := by
        omega
      simp only [hiff]

theorem readSectors_apart (h : addr + count ≤ uintRange) {addr' count' : ℕ}
    (h' : addr' + count' ≤ uintRange) (hd : addr + count ≤ addr' ∨ addr' + count' ≤ addr) {o : ℕ}
    (ho : o < sectorSize * count') (n : ℕ) :
    readSectors ⟨writeSectors sd addr data count, n⟩ addr' o = readSectors sd addr' o := by
  have hq : o / sectorSize < count' := Nat.div_lt_of_lt_mul ho
  rw [readSectors, readSectors, Nat.mod_eq_of_lt (by omega)]
  change writeSectors sd addr data count _ _ = _
  generalize o / sectorSize = q at hq ⊢
  rw [writeSectors_apply h, if_neg (by omega)]

end Sectors

section Machine

variable {env : FsEnv} {s : FsSys}

def grabbed (s : FsSys) : FsSys :=
  { s with brk := s.brk + 1, live := Function.update s.live s.brk true }

def accessed (s : FsSys) (count : ℕ) : FsSys :=
  { s with sd := { s.sd with accesses := s.sd.accesses + count } }

theorem kmalloc_null (h : env.kmallocFails s.brk = true) :
    kmalloc env s = some (.ok none, { s with brk := s.brk + 1 }) := by
  rw [kmalloc, if_pos h]

theorem kmalloc_grabs (h : env.kmallocFails s.brk = false) :
    kmalloc env s = some (.ok (some s.brk), grabbed s) := by
  rw [kmalloc, h]
  rfl

theorem kmalloc_run (h : Reliable env) (s : FsSys) :
    kmalloc env s = some (.ok (some s.brk), grabbed s) := kmalloc_grabs (h.memory s.brk)

theorem kmalloc_some {t : FsSys} {p : ℕ} (h : kmalloc env s = some (.ok (some p), t)) :
    p = s.brk ∧ t = grabbed s := by
  rw [kmalloc] at h
  split at h
  · cases h
  · cases h
    exact ⟨rfl, rfl⟩

theorem sdFailure_served (hsd : ∀ n, env.sdFails n = false) (sd : SdCard) (count : ℕ) :
    sdFailure env sd count = none := by
  simp [sdFailure, hsd]

theorem sdReadBlock_served (hsd : ∀ n, env.sdFails n = false) (s : FsSys) (addr count : ℕ) :
    sdReadBlock env addr count s =
      some (.ok (some (readSectors s.sd addr)), accessed s count) := by
  rw [sdReadBlock, sdFailure_served hsd]
  rfl

theorem sdWriteBlock_served (hsd : ∀ n, env.sdFails n = false) (s : FsSys) (data : ℕ → ℕ)
    (addr count : ℕ) : sdWriteBlock env data addr count s = some (.ok true, { s with sd :=
      ⟨writeSectors s.sd addr data count, s.sd.accesses + count⟩ }) := by
  rw [sdWriteBlock, sdFailure_served hsd]

theorem sdReadBlock_run (h : Reliable env) (s : FsSys) (addr count : ℕ) :
    sdReadBlock env addr count s =
      some (.ok (some (readSectors s.sd addr)), accessed s count) :=
  sdReadBlock_served h.sd s addr count

theorem sdWriteBlock_run (h : Reliable env) (s : FsSys) (data : ℕ → ℕ) (addr count : ℕ) :
    sdWriteBlock env data addr count s = some (.ok true, { s with sd :=
      ⟨writeSectors s.sd addr data count, s.sd.accesses + count⟩ }) :=
  sdWriteBlock_served h.sd s data addr count

end Machine

section Cache

variable {env : FsEnv} {s t : FsSys} {map : ℕ}

def loadedFrom (s : FsSys) (addr blksize : ℕ) : FsSys :=
  (accessed (grabbed (grabbed s)) (blksize >>> sectorShift)).setPage s.brk fun _ =>
    newFspage addr blksize (readSectors s.sd addr)

theorem allocFspage_cases {addr blksize p : ℕ}
    (h : allocFspage env addr blksize s = some (.ok p, t)) : p = s.brk ∧
      ∃ u, pCacheRoom env (loadedFrom s addr blksize) = some (.ok true, u) ∧
        t = addToPCache s.brk u := by
  obtain ⟨q, s1, h1, h⟩ := Prog.bind_ok_cases h
  cases q with
  | none => cases h
  | some page =>
    obtain ⟨rfl, rfl⟩ := kmalloc_some h1
    obtain ⟨q, s2, h2, h⟩ := Prog.bind_ok_cases h
    cases q with
    | none => cases h
    | some q =>
      obtain ⟨rfl, rfl⟩ := kmalloc_some h2
      obtain ⟨data, s3, h3, h⟩ := Prog.bind_ok_cases h
      rw [sdReadBlock] at h3
      cases hf : sdFailure env (grabbed (grabbed s)).sd (blksize >>> sectorShift) with
      | some i =>
        rw [hf] at h3
        cases h3
        dsimp only at h
        rw [Prog.modify_bind_run] at h
        obtain ⟨room, s4, -, h⟩ := Prog.bind_ok_cases h
        split_ifs at h <;> cases h
      | none =>
        rw [hf] at h3
        cases h3
        dsimp only at h
        rw [Prog.modify_bind_run] at h
        obtain ⟨room, s4, h4, h⟩ := Prog.bind_ok_cases h
        cases room with
        | false => cases h
        | true =>
          cases h
          exact ⟨rfl, s4, h4, rfl⟩

def missed (s : FsSys) (map blksize : ℕ) : FsSys :=
  let page := newFspage (s.maps map).mapAddr blksize (readSectors s.sd (s.maps map).mapAddr)
  let s := accessed (grabbed (grabbed s)) (blksize >>> sectorShift)
  (addToPCache (s.brk - 2) (s.setPage (s.brk - 2) fun _ => page)).setMap map fun m =>
    { m with mapPage := some (.ok (s.brk - 2)) }

theorem getFspage_hit {r : Except ℕ ℕ} (h : (s.maps map).mapPage = some r) (blksize : ℕ) :
    getFspage env map blksize s = Prog.ofExcept r s := by
  rw [getFspage, Prog.get_bind_run]
  simp only [h]

theorem pCacheRoom_run (hroom : s.pCache.size ≠ pcacheCapacity) :
    pCacheRoom env s = some (.ok true, s) := by
  rw [pCacheRoom, Prog.get_bind_run, if_neg hroom]
  rfl

theorem getFspage_miss (he : Reliable env) (h : (s.maps map).mapPage = none)
    (hroom : s.pCache.size ≠ pcacheCapacity) (blksize : ℕ) :
    getFspage env map blksize s = some (.ok s.brk, missed s map blksize) := by
  have halloc : allocFspage env (s.maps map).mapAddr blksize s = some (.ok s.brk,
      addToPCache s.brk ((accessed (grabbed (grabbed s)) (blksize >>> sectorShift)).setPage s.brk
        fun _ => newFspage (s.maps map).mapAddr blksize
          (readSectors s.sd (s.maps map).mapAddr))) := by
    rw [allocFspage, Prog.bind_ok (kmalloc_run he s)]
    simp only
    rw [Prog.bind_ok (kmalloc_run he _)]
    simp only
    rw [Prog.bind_ok (sdReadBlock_run he _ _ _)]
    simp only [Prog.modify_bind_run]
    refine (Prog.bind_ok (pCacheRoom_run ?_)).trans rfl
    exact hroom
  rw [getFspage, Prog.get_bind_run]
  simp only [h]
  rw [Prog.bind_ok (Prog.attempt_run halloc)]
  rfl

def flushed (s : FsSys) (page : ℕ) : FsSys :=
  let p := s.pages page
  if p.pDirt then
    { s with sd := ⟨writeSectors s.sd p.pSecAddr p.pData p.pSecCnt, s.sd.accesses + p.pSecCnt⟩
      }.setPage page fun p => { p with pDirt := false }
  else s

theorem flushFspage_run (he : Reliable env) (s : FsSys) (page : ℕ) :
    flushFspage env (some (.ok page)) s = some (.ok (), flushed s page) := by
  rw [flushFspage, Prog.get_bind_run, flushed]
  simp only
  split_ifs with hd
  · rw [Prog.bind_ok (sdWriteBlock_run he s _ _ _)]
    rfl
  · rfl

end Cache

end OurOS.Fs
