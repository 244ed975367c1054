import OurOS.Fs.Transfer

namespace OurOS.Fs

/-- Pages are written to the card and freed; the maps and the sizes of the pages stay. -/
structure SamePages (s t : FsSys) : Prop where
  brk : t.brk = s.brk
  maps : t.maps = s.maps
  pagesize : ∀ p, (t.pages p).pPagesize = (s.pages p).pPagesize

instance : Std.Refl SamePages := ⟨fun _ => ⟨rfl, rfl, fun _ => rfl⟩⟩

instance : IsTrans FsSys SamePages where
  trans _ _ _ h₁ h₂ :=
    ⟨h₂.brk.trans h₁.brk, h₂.maps.trans h₁.maps, fun p => (h₂.pagesize p).trans (h₁.pagesize p)⟩

section Room

variable {env : FsEnv} {s t : FsSys} {page : ℕ}

theorem SamePages.setPage (page : ℕ) {f : FsPage → FsPage} (s : FsSys)
    (hf : ∀ p, (f p).pPagesize = p.pPagesize := by intro; rfl) :
    SamePages s (s.setPage page f) := by
  refine ⟨rfl, rfl, fun p => ?_⟩
  by_cases e : p = page
  · subst e
    simp [FsSys.setPage, hf]
  · simp [FsSys.setPage, e]

theorem freeFspage_pages (page : ℕ) (s : FsSys) : SamePages s (shrinkP (freeFspage page s)) :=
  let h := SamePages.setPage page (f := fun p => { p with pDirt := false }) s
  ⟨rfl, rfl, h.pagesize⟩

theorem flushFspage_pages (page : Option (Except ℕ ℕ)) :
    Prog.Keeps SamePages (flushFspage env page) := by
  refine .bind .get fun s => ?_
  cases page with
  | none => exact .pure _
  | some r =>
    cases r with
    | error e => exact .stuck
    | ok p =>
      dsimp only
      split_ifs
      · refine .bind ?_ fun ok => ?_
        · intro s r t h
          rw [sdWriteBlock] at h
          split at h <;> cases h <;> exact ⟨rfl, rfl, fun _ => rfl⟩
        · cases ok with
          | true => exact .modify fun s => .setPage p s
          | false => exact .throw _
      · exact .pure _

theorem flushPages_pages (n : ℕ) (pages : List ℕ) :
    Prog.Keeps SamePages (flushPages env n pages) := by
  induction n generalizing pages with
  | zero => exact .pure _
  | succ n ih =>
    cases pages with
    | nil => exact .stuck
    | cons page pages =>
      refine .bind (flushFspage_pages _).attempt fun r => ?_
      cases r with
      | error e => exact .pure _
      | ok _ => exact .bind (.modify fun s => freeFspage_pages page s) fun _ => ih pages

theorem pCacheRoom_pages : Prog.Keeps SamePages (pCacheRoom env) := by
  refine .bind .get fun s => ?_
  split_ifs
  · exact .bind .get fun _ => flushPages_pages _ _
  · exact .pure _

/-- The page cache counts no more pages than its LRU list has. -/
def Counted (s : FsSys) : Prop := s.pCache.size ≤ s.pCache.lru.length

theorem Counted.freed (h : Counted s) (page : ℕ) : Counted (shrinkP (freeFspage page s)) := by
  have hlen := List.length_erase (a := page) (l := s.pCache.lru)
  have hle : s.pCache.size - 1 ≤ (s.pCache.lru.erase page).length := by
    rw [Counted] at h
    split_ifs at hlen <;> omega
  exact hle

theorem flushPages_total (he : Reliable env) {n : ℕ} {pages : List ℕ} (hn : n ≤ pages.length)
    (h : Counted s) : ∃ t, flushPages env n pages s = some (.ok true, t) ∧ Counted t := by
  induction n generalizing pages s with
  | zero => exact ⟨s, rfl, h⟩
  | succ n ih =>
    cases pages with
    | nil => cases hn
    | cons page pages =>
      have hflush : Counted (flushed s page) := by
        rw [flushed]
        split_ifs
        exacts [h, h]
      obtain ⟨t, ht, hc⟩ := ih (Nat.le_of_succ_le_succ hn) (hflush.freed page)
      refine ⟨t, ?_, hc⟩
      rw [flushPages, Prog.bind_ok (Prog.attempt_run (flushFspage_run he s page))]
      exact ht

theorem pCacheRoom_total (he : Reliable env) (h : Counted s) :
    ∃ t, pCacheRoom env s = some (.ok true, t) ∧ Counted t := by
  rw [pCacheRoom, Prog.get_bind_run]
  split_ifs with hfull
  · refine flushPages_total he ?_ h
    rw [Counted, hfull] at h
    rw [List.length_reverse]
    exact h.trans' (by decide)
  · exact ⟨s, rfl, h⟩

end Room

section Load

variable {env : FsEnv} {s t : FsSys} {addr blksize map page : ℕ} {maps : List ℕ}

theorem allocFspage_new (h : allocFspage env addr blksize s = some (.ok page, t)) :
    NewPage s t blksize page := by
  obtain ⟨rfl, u, hu, rfl⟩ := allocFspage_cases h
  have k := pCacheRoom_pages _ _ _ hu
  have hbrk : s.brk < u.brk := (Nat.lt_add_of_pos_right two_pos).trans_eq k.brk.symm
  refine ⟨⟨le_rfl, hbrk⟩, k.maps, ?_, fun p hp => ?_⟩
  · refine (k.pagesize s.brk).trans ?_
    simp [loadedFrom, FsSys.setPage, newFspage]
  · refine (k.pagesize p).trans ?_
    simp only [loadedFrom, FsSys.setPage, Function.update_of_ne hp.ne]
    rfl

theorem Blocks.load (hb : Blocks s blksize maps) (hm : map ∈ maps)
    (h : mustGetFspage env map blksize s = some (.ok page, t)) :
    Blocks t blksize maps ∧ (t.pages page).pPagesize = blksize := by
  obtain ⟨p, hp, h⟩ := mustGetFspage_ok h
  cases hp
  rw [getFspage, Prog.get_bind_run] at h
  cases hmap : (s.maps map).mapPage with
  | some r =>
    simp only [hmap] at h
    obtain ⟨q, rfl, -, hsize⟩ := hb.page map hm r hmap
    cases h
    exact ⟨hb, hsize⟩
  | none =>
    simp only [hmap] at h
    obtain ⟨r, u, h1, h⟩ := Prog.bind_ok_cases h
    obtain ⟨r', hr, h1⟩ := Prog.attempt_cases h1
    cases hr
    cases r with
    | error e => cases h
    | ok q =>
      have hnew := allocFspage_new h1
      cases h
      exact ⟨hb.newPage hnew, hnew.pagesize⟩

theorem allocFspage_total (he : Reliable env) (h : Counted s) (addr blksize : ℕ) :
    ∃ t, allocFspage env addr blksize s = some (.ok s.brk, t) ∧ Counted t := by
  obtain ⟨t, ht, hc⟩ := pCacheRoom_total he (show Counted ((accessed (grabbed (grabbed s))
    (blksize >>> sectorShift)).setPage s.brk fun _ =>
      newFspage addr blksize (readSectors s.sd addr)) from h)
  refine ⟨addToPCache s.brk t, ?_, ?_⟩
  · rw [allocFspage, Prog.bind_ok (kmalloc_run he s)]
    dsimp only
    rw [Prog.bind_ok (kmalloc_run he _)]
    dsimp only
    rw [Prog.bind_ok (sdReadBlock_run he _ _ _)]
    dsimp only
    rw [Prog.modify_bind_run]
    exact (Prog.bind_ok ht).trans rfl
  · rw [Counted, addToPCache]
    exact Nat.succ_le_succ hc

theorem mustGetFspage_total (he : Reliable env) (hb : Blocks s blksize maps) (hm : map ∈ maps)
    (h : Counted s) :
    ∃ page t, mustGetFspage env map blksize s = some (.ok page, t) ∧ Counted t := by
  suffices hget : ∃ page t, getFspage env map blksize s = some (.ok page, t) ∧ Counted t by
    obtain ⟨page, t, hg, hc⟩ := hget
    refine ⟨page, t, ?_, hc⟩
    rw [mustGetFspage, Prog.bind_ok (Prog.attempt_run hg)]
    rfl
  cases hmap : (s.maps map).mapPage with
  | some r =>
    obtain ⟨q, rfl, -⟩ := hb.page map hm r hmap
    exact ⟨q, s, getFspage_hit hmap blksize, h⟩
  | none =>
    obtain ⟨t, ht, hc⟩ := allocFspage_total he h (s.maps map).mapAddr blksize
    refine ⟨s.brk, t.setMap map fun m => { m with mapPage := some (.ok s.brk) }, ?_, hc⟩
    rw [getFspage, Prog.get_bind_run]
    simp only [hmap]
    rw [Prog.bind_ok (Prog.attempt_run ht)]
    rfl

end Load

namespace Transfer

variable {env : FsEnv} {blksize : ℕ} {β γ : Type} {T : Transfer env blksize β γ} {c d : Cursor β}
  {M : List ℕ}

structure Paged (blksize : ℕ) (M : List ℕ) (c : Cursor β) : Prop where
  sub : ∀ m ∈ c.maps, m ∈ M
  good : Blocks c.sys blksize M

theorem Paged.next (h : Paged blksize M c) (hn : T.Next c d) : Paged blksize M d := by
  cases hn with
  | block load _ =>
    have hload := h.good.load (h.sub _ List.mem_cons_self) load
    exact ⟨fun m hm => h.sub m (List.mem_cons_of_mem _ hm), T.touch_blocks hload.1⟩

theorem Paged.next_left (h : Paged blksize M c) (hoff : c.off ≤ blksize)
    (hword : c.off + T.count c.rest < uintRange) (hn : T.Next c d) :
    c.maps.length = d.maps.length + 1 ∧ d.off = 0 ∧ blksize < c.off + T.count c.rest ∧
      T.count d.rest = c.off + T.count c.rest - blksize := by
  cases hn with
  | @block map maps off rest s page t load more =>
    have hsize := (h.good.load (h.sub _ List.mem_cons_self) load).2
    dsimp only at hoff hword ⊢
    rw [hsize, Nat.mod_eq_of_lt hword] at more
    have hdelta : subWord (t.pages page).pPagesize off = blksize - off := by
      rw [hsize]
      exact subWord_eq hoff (by omega)
    have hdrop : T.count (T.drop (blksize - off) rest) = T.count rest - (blksize - off) :=
      T.count_drop (by omega) (by omega)
    refine ⟨List.length_cons, rfl, more, ?_⟩
    rw [hdelta, hdrop]
    omega

structure Within (T : Transfer env blksize β γ) (M : List ℕ) (c : Cursor β) : Prop
    extends Paged blksize M c where
  some : c.maps ≠ []
  off_le : c.off ≤ blksize
  len_le : c.off + T.count c.rest ≤ c.maps.length * blksize
  word : c.off + T.count c.rest < uintRange

theorem Within.next (h : T.Within M c) (hn : T.Next c d) : T.Within M d := by
  obtain ⟨hlen, hoff, hmore, hleft⟩ := h.toPaged.next_left h.off_le h.word hn
  have hroom := h.len_le
  have hword := h.word
  rw [hlen, Nat.succ_mul] at hroom
  refine ⟨h.toPaged.next hn, ?_, hoff.trans_le (Nat.zero_le _), by omega, by omega⟩
  intro hnil
  rw [hnil, List.length_nil, Nat.zero_mul] at hroom
  omega

theorem Within.reaches (h : T.Within M c) (hd : T.Reaches c d) : T.Within M d := by
  induction hd with
  | refl => exact h
  | tail _ hn ih => exact ih.next hn

theorem runs_past (h : Paged blksize M c) (hoff : c.off ≤ blksize)
    (hroom : c.maps.length * blksize < c.off + T.count c.rest)
    (hword : c.off + T.count c.rest < uintRange) : T.runs c = none := by
  obtain ⟨maps, off, rest, s⟩ := c
  induction maps generalizing off rest s with
  | nil => exact T.past _ _ _
  | cons map maps ih =>
    cases hm : mustGetFspage env map blksize s with
    | none => exact T.stops hm
    | some p =>
      obtain ⟨r, t⟩ := p
      obtain ⟨page, rfl, -⟩ := mustGetFspage_ok hm
      have hmore : (t.pages page).pPagesize < (off + T.count rest) % uintRange := by
        rw [(h.good.load (h.sub _ List.mem_cons_self) hm).2, Nat.mod_eq_of_lt hword]
        exact hroom.trans_le' (Nat.le_mul_of_pos_left _ (Nat.succ_pos _))
      have hnext : T.Next ⟨map :: maps, off, rest, s⟩ _ := .block hm hmore
      obtain ⟨hlen, -, -, hleft⟩ := h.next_left hoff hword hnext
      dsimp only at hroom hword hlen hleft
      rw [hlen, Nat.succ_mul] at hroom
      refine (runs_next hnext).mpr (ih _ _ _ (h.next hnext) (Nat.zero_le _) ?_ ?_)
      · dsimp only
        omega
      · dsimp only
        omega

structure Loads (blksize : ℕ) (M : List ℕ) (c : Cursor β) : Prop extends Paged blksize M c where
  counted : Counted c.sys

theorem Loads.next (he : Reliable env) (h : Loads blksize M c) (hn : T.Next c d) :
    Loads blksize M d := by
  refine ⟨h.toPaged.next hn, ?_⟩
  cases hn with
  | block load _ =>
    obtain ⟨q, u, hu, hc⟩ := mustGetFspage_total he h.good (h.sub _ List.mem_cons_self) h.counted
    obtain ⟨-, rfl⟩ : q = _ ∧ u = _ := by simpa using hu.symm.trans load
    dsimp only
    rw [Counted, T.touch_pCache]
    exact hc

theorem Loads.reaches (he : Reliable env) (h : Loads blksize M c) (hd : T.Reaches c d) :
    Loads blksize M d := by
  induction hd with
  | refl => exact h
  | tail _ hn ih => exact ih.next he hn

theorem Loads.not_waits (he : Reliable env) (h : Loads blksize M c) : ¬ Waits env blksize c := by
  rintro ⟨map, hmap, hnone⟩
  obtain ⟨q, u, hu, -⟩ :=
    mustGetFspage_total he h.good (h.sub map (List.mem_of_mem_head? hmap)) h.counted
  rw [hnone] at hu
  cases hu

end Transfer

end OurOS.Fs
