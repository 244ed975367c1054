import OurOS.Fs.PageCache

namespace OurOS.Fs

/-- Byte `i` of a block, in its page if it has one and on the disk otherwise. -/
def blockByte (s : FsSys) (map i : ℕ) : ℕ :=
  match (s.maps map).mapPage with
  | some (.ok page) => (s.pages page).pData i
  | _ => readSectors s.sd (s.maps map).mapAddr i

def bytesOf (s : FsSys) (blksize : ℕ) (maps : List ℕ) (x : ℕ) : ℕ :=
  blockByte s (maps.getD (x / blksize) 0) (x % blksize)

structure Blocks (s : FsSys) (blksize : ℕ) (maps : List ℕ) : Prop where
  nodup : maps.Nodup
  small : ∀ m ∈ maps, m < s.brk
  page : ∀ m ∈ maps, ∀ r, (s.maps m).mapPage = some r →
    ∃ p, r = .ok p ∧ p < s.brk ∧ (s.pages p).pPagesize = blksize
  inj : ∀ m ∈ maps, ∀ n ∈ maps, ∀ p, (s.maps m).mapPage = some (.ok p) →
    (s.maps n).mapPage = some (.ok p) → m = n

structure SameFiles (s t : FsSys) : Prop where
  inodes : t.inodes = s.inodes
  dentries : t.dentries = s.dentries
  sbs : t.sbs = s.sbs

def uncached (s : FsSys) (map : ℕ) : Bool := (s.maps map).mapPage.isNone

/-- The number of blocks that a transfer up to `off` bytes from the start of a block touches. -/
def walked (blksize off : ℕ) : ℕ := (off - 1) / blksize + 1

section Pages

variable {s t : FsSys} {blksize map page : ℕ} {maps : List ℕ}

/-- A page that `alloc_fspage` returns is a new one. -/
structure NewPage (s t : FsSys) (blksize page : ℕ) : Prop where
  brk : s.brk ≤ page ∧ page < t.brk
  maps : t.maps = s.maps
  pagesize : (t.pages page).pPagesize = blksize
  other : ∀ p < s.brk, (t.pages p).pPagesize = (s.pages p).pPagesize

theorem Blocks.mapped (hb : Blocks s blksize maps) (hm : map ∈ maps)
    (hp : (s.maps map).mapPage = some (.ok page)) :
    page < s.brk ∧ (s.pages page).pPagesize = blksize := by
  obtain ⟨p, hp', h⟩ := hb.page map hm _ hp
  cases hp'
  exact h

theorem Blocks.newPage (hb : Blocks s blksize maps) (h : NewPage s t blksize page) :
    Blocks (t.setMap map fun m => { m with mapPage := some (.ok page) }) blksize maps := by
  have hmap : ∀ n, ((t.setMap map fun m => { m with mapPage := some (.ok page) }).maps n).mapPage =
      if n = map then some (.ok page) else (s.maps n).mapPage := by
    intro n
    by_cases e : n = map
    · subst e
      simp [FsSys.setMap]
    · simp [FsSys.setMap, e, h.maps]
  have hbrk : s.brk < t.brk := h.brk.1.trans_lt h.brk.2
  refine ⟨hb.nodup, fun n hn => (hb.small n hn).trans hbrk, fun n hn r hr => ?_,
    fun n hn k hk p h1 h2 => ?_⟩
  · rw [hmap] at hr
    split_ifs at hr
    · cases hr
      exact ⟨page, rfl, h.brk.2, h.pagesize⟩
    · obtain ⟨p, rfl, hlt, hsize⟩ := hb.page n hn r hr
      exact ⟨p, rfl, hlt.trans hbrk, (h.other p hlt).trans hsize⟩
  · rw [hmap] at h1 h2
    split_ifs at h1 h2 with e1 e2 e2
    · exact e1.trans e2.symm
    · cases h1
      exact absurd (hb.mapped hk h2).1 h.brk.1.not_gt
    · cases h2
      exact absurd (hb.mapped hn h1).1 h.brk.1.not_gt
    · exact hb.inj n hn k hk p h1 h2

theorem Blocks.writePage (h : Blocks s blksize maps) (page off : ℕ) (bytes : List ℕ) :
    Blocks (writePage page off bytes s) blksize maps := by
  refine ⟨h.nodup, h.small, fun m hm r hr => ?_, h.inj⟩
  obtain ⟨q, rfl, hlt, hsize⟩ := h.page m hm r hr
  refine ⟨q, rfl, hlt, ?_⟩
  by_cases e : q = page
  · subst e
    simpa [Fs.writePage, FsSys.setPage] using hsize
  · simpa [Fs.writePage, FsSys.setPage, e] using hsize

theorem Blocks.setDirt (h : Blocks s blksize maps) (fp : ℕ) : Blocks (setDirt fp s) blksize maps :=
  ⟨h.nodup, h.small, h.page, h.inj⟩

end Pages

section Load

variable {env : FsEnv} {s : FsSys} {blksize map : ℕ} {maps : List ℕ}

structure Loaded (s t : FsSys) (blksize : ℕ) (maps : List ℕ) (map page : ℕ) : Prop where
  blocks : Blocks t blksize maps
  same : SameFiles s t
  files : t.files = s.files
  mapped : (t.maps map).mapPage = some (.ok page)
  pagesize : (t.pages page).pPagesize = blksize
  data : (t.pages page).pData = blockByte s map
  bytes : ∀ n ∈ maps, blockByte t n = blockByte s n
  cached : ∀ n ∈ maps, n ≠ map → uncached t n = uncached s n
  size : t.pCache.size = s.pCache.size + (uncached s map).toNat

theorem missed_maps (s : FsSys) (blksize map n : ℕ) :
    (missed s map blksize).maps n =
      if n = map then { s.maps n with mapPage := some (.ok s.brk) } else s.maps n := by
  by_cases e : n = map
  · subst e
    simp [missed, FsSys.setMap, addToPCache, FsSys.setPage, accessed, grabbed]
  · simp [missed, FsSys.setMap, addToPCache, FsSys.setPage, accessed, grabbed, e]

theorem missed_pages (s : FsSys) (blksize map p : ℕ) :
    (missed s map blksize).pages p = if p = s.brk then
      newFspage (s.maps map).mapAddr blksize (readSectors s.sd (s.maps map).mapAddr)
        else s.pages p := by
  by_cases e : p = s.brk
  · subst e
    simp [missed, FsSys.setMap, addToPCache, FsSys.setPage, accessed, grabbed]
  · simp [missed, FsSys.setMap, addToPCache, FsSys.setPage, accessed, grabbed, e]

theorem mustGetFspage_spec (he : Reliable env) (hb : Blocks s blksize maps) (hm : map ∈ maps)
    (hroom : uncached s map = true → s.pCache.size ≠ pcacheCapacity) :
    ∃ t p, mustGetFspage env map blksize s = some (.ok p, t) ∧
      Loaded s t blksize maps map p := by
  cases hp : (s.maps map).mapPage with
  | some r =>
    obtain ⟨p, rfl, hlt, hsize⟩ := hb.page map hm r hp
    refine ⟨s, p, ?_, hb, ⟨rfl, rfl, rfl⟩, rfl, hp, hsize, ?_, fun _ _ => rfl, fun _ _ _ => rfl, ?_⟩
    · rw [mustGetFspage, Prog.bind_ok (Prog.attempt_run (getFspage_hit hp _))]
      rfl
    · funext i
      rw [blockByte, hp]
    · simp [uncached, hp]
  | none =>
    have hun : uncached s map = true := by simp [uncached, hp]
    have hmaps := missed_maps s blksize map
    have hpages := missed_pages s blksize map
    have hbyte : ∀ n ∈ maps, blockByte (missed s map blksize) n = blockByte s n := by
      intro n hn
      funext i
      by_cases e : n = map
      · subst e
        simp only [blockByte, hmaps, if_pos, hpages, hp]
        rfl
      · simp only [blockByte, hmaps, if_neg e]
        cases hnp : (s.maps n).mapPage with
        | none => rfl
        | some r =>
          obtain ⟨q, rfl, hlt, -⟩ := hb.page n hn _ hnp
          simp only [hpages, if_neg hlt.ne]
    refine ⟨missed s map blksize, s.brk, ?_, ?_, ⟨rfl, rfl, rfl⟩, rfl, ?_, ?_, ?_, hbyte, ?_, ?_⟩
    · rw [mustGetFspage, Prog.bind_ok (Prog.attempt_run (getFspage_miss he hp (hroom hun) _))]
      rfl
    · have hnew : NewPage s (addToPCache s.brk ((accessed (grabbed (grabbed s))
          (blksize >>> sectorShift)).setPage s.brk fun _ => newFspage (s.maps map).mapAddr blksize
            (readSectors s.sd (s.maps map).mapAddr))) blksize s.brk := by
        refine ⟨⟨le_rfl, Nat.lt_add_of_pos_right two_pos⟩, rfl, ?_, fun p hp => ?_⟩
        · simp [addToPCache, FsSys.setPage, newFspage]
        · simp [addToPCache, FsSys.setPage, hp.ne, accessed, grabbed]
      exact hb.newPage hnew
    · rw [hmaps, if_pos rfl]
    · rw [hpages, if_pos rfl]
      rfl
    · funext i
      rw [hpages, if_pos rfl, blockByte, hp]
      rfl
    · intro n hn e
      rw [uncached, uncached, hmaps, if_neg e]
    · rw [hun]
      rfl

end Load

section Bytes

variable {s : FsSys} {blksize : ℕ}

theorem bytesOf_head (map : ℕ) (maps : List ℕ) {x : ℕ} (hx : x < blksize) :
    bytesOf s blksize (map :: maps) x = blockByte s map x := by
  rw [bytesOf, Nat.div_eq_of_lt hx, Nat.mod_eq_of_lt hx]
  rfl

theorem bytesOf_tail (hpos : 0 < blksize) (map : ℕ) (maps : List ℕ) (x : ℕ) :
    bytesOf s blksize (map :: maps) (blksize + x) = bytesOf s blksize maps x := by
  rw [bytesOf, Nat.add_div_left _ hpos, Nat.add_mod_left]
  rfl

theorem bytesOf_drop (hpos : 0 < blksize) (maps : List ℕ) (b x : ℕ) :
    bytesOf s blksize (maps.drop b) x = bytesOf s blksize maps (b * blksize + x) := by
  rw [bytesOf, bytesOf, Nat.mul_comm b, Nat.mul_add_div hpos, Nat.mul_add_mod]
  simp [List.getD_eq_getElem?_getD, List.getElem?_drop]

theorem getBytes_congr {data data' : ℕ → ℕ} {off off' len : ℕ}
    (h : ∀ k < len, data (off + k) = data' (off' + k)) :
    getBytes data off len = getBytes data' off' len :=
  List.map_congr_left fun k hk => h k (List.mem_range.mp hk)

theorem getBytes_append (data : ℕ → ℕ) (off n k : ℕ) :
    getBytes data off n ++ getBytes data (off + n) k = getBytes data off (n + k) := by
  simp only [getBytes, List.range_add, List.map_append, List.map_map]
  congr 1
  exact List.map_congr_left fun i _ => by simp [Nat.add_assoc]

theorem walked_tail {off : ℕ} (hpos : 0 < blksize) (h : blksize < off) :
    walked blksize off = walked blksize (off - blksize) + 1 := by
  rw [walked, walked, show off - 1 = off - blksize - 1 + blksize by omega, Nat.add_div_right _ hpos]

theorem subWord_eq {x y : ℕ} (hy : y ≤ x) (hx : x < uintRange) : subWord x y = x - y := by
  rw [subWord, show x + (uintRange - y) = x - y + uintRange by omega, Nat.add_mod_right,
    Nat.mod_eq_of_lt (by omega)]

theorem bytesOf_congr {t : FsSys} {maps : List ℕ} (hpos : 0 < blksize)
    (h : ∀ m ∈ maps, blockByte t m = blockByte s m) {x : ℕ} (hx : x < maps.length * blksize) :
    bytesOf t blksize maps x = bytesOf s blksize maps x := by
  have hlt : x / blksize < maps.length := (Nat.div_lt_iff_lt_mul hpos).mpr hx
  have hmem : maps.getD (x / blksize) 0 ∈ maps := by
    rw [List.getD_eq_getElem _ _ hlt]
    exact List.getElem_mem hlt
  rw [bytesOf, h _ hmem]
  rfl

theorem putBytes_mem {data : ℕ → ℕ} {off x : ℕ} {bytes : List ℕ}
    (h : off ≤ x ∧ x < off + bytes.length) : putBytes data off bytes x = bytes.getD (x - off) 0 :=
  if_pos h

theorem putBytes_not_mem {data : ℕ → ℕ} {off x : ℕ} {bytes : List ℕ}
    (h : ¬ (off ≤ x ∧ x < off + bytes.length)) : putBytes data off bytes x = data x :=
  if_neg h

end Bytes

section Transfer

variable {env : FsEnv} {s : FsSys} {blksize : ℕ} {maps : List ℕ}

theorem Loaded.room {t : FsSys} {map page n : ℕ} {ms : List ℕ}
    (h : Loaded s t blksize maps map page) (hsub : ∀ m ∈ ms, m ∈ maps) (hnot : map ∉ ms)
    (hroom : s.pCache.size + ((map :: ms).take (n + 1)).countP (uncached s) ≤ pcacheCapacity) :
    t.pCache.size + (ms.take n).countP (uncached t) ≤ pcacheCapacity := by
  have hcount : (ms.take n).countP (uncached t) = (ms.take n).countP (uncached s) := by
    refine List.countP_congr fun m hm => ?_
    have hmem := List.mem_of_mem_take hm
    rw [h.cached m (hsub m hmem) fun e => hnot (e ▸ hmem)]
  rw [List.take_succ_cons, List.countP_cons] at hroom
  rw [hcount, h.size]
  cases hu : uncached s map with
  | true =>
    rw [hu, if_pos rfl] at hroom
    simp only [Bool.toNat_true]
    omega
  | false =>
    rw [hu] at hroom
    simpa using hroom

theorem room_head {map n : ℕ} {ms : List ℕ}
    (hroom : s.pCache.size + ((map :: ms).take (n + 1)).countP (uncached s) ≤ pcacheCapacity) :
    uncached s map = true → s.pCache.size ≠ pcacheCapacity := by
  intro hu
  rw [List.take_succ_cons, List.countP_cons, hu, if_pos rfl] at hroom
  omega

structure Stopped (blksize : ℕ) (ms : List ℕ) (total map off : ℕ) : Prop where
  at_map : ∃ j, ms[j]? = some map ∧ j * blksize + off = total
  off_le : off ≤ blksize

theorem Stopped.cons {ms : List ℕ} {total map off : ℕ} (h : Stopped blksize ms total map off)
    (m : ℕ) : Stopped blksize (m :: ms) (blksize + total) map off := by
  obtain ⟨⟨j, h1, h2⟩, h3⟩ := h
  refine ⟨⟨j + 1, h1, ?_⟩, h3⟩
  rw [Nat.add_mul, Nat.one_mul]
  omega

theorem readLoop_spec (he : Reliable env) (hpos : 0 < blksize) (fp : ℕ) {ms : List ℕ}
    (hb : Blocks s blksize maps) (hsub : ∀ m ∈ ms, m ∈ maps) (hnd : ms.Nodup) (hne : ms ≠ [])
    {curOff len : ℕ} (hoff : curOff ≤ blksize) (hlen : curOff + len ≤ ms.length * blksize)
    (hsmall : curOff + len < uintRange) (hroom : s.pCache.size +
      (ms.take (walked blksize (curOff + len))).countP (uncached s) ≤ pcacheCapacity) :
    ∃ t map off, readLoop env fp blksize ms curOff len s =
        some (.ok (getBytes (bytesOf s blksize ms) curOff len), setPosition fp map off t) ∧
      Stopped blksize ms (curOff + len) map off ∧ Blocks t blksize maps ∧ SameFiles s t ∧
      t.files = s.files ∧ ∀ n ∈ maps, blockByte t n = blockByte s n := by
  induction ms generalizing s curOff len with
  | nil => exact absurd rfl hne
  | cons m ms ih =>
    obtain ⟨hnot, hnd⟩ := List.nodup_cons.mp hnd
    obtain ⟨t, p, h1, hl⟩ := mustGetFspage_spec he hb (hsub m List.mem_cons_self)
      (room_head hroom)
    rw [readLoop, Prog.bind_ok h1, Prog.get_bind_run]
    simp only [hl.pagesize, hl.data, Nat.mod_eq_of_lt hsmall]
    by_cases hcase : curOff + len ≤ blksize
    · refine ⟨t, m, curOff + len, ?_, ⟨⟨0, rfl, by omega⟩, hcase⟩, hl.blocks, hl.same, hl.files,
        hl.bytes⟩
      have hbytes : getBytes (blockByte s m) curOff len =
          getBytes (bytesOf s blksize (m :: ms)) curOff len :=
        getBytes_congr fun k hk => (bytesOf_head m ms (by omega)).symm
      rw [if_pos hcase, Prog.modify_bind_run, Prog.pure_run, hbytes]
    · rw [List.length_cons, Nat.add_mul, Nat.one_mul] at hlen
      have hmod : subWord blksize curOff = blksize - curOff := subWord_eq hoff (by omega)
      have hlen' : subWord len (blksize - curOff) = len - (blksize - curOff) :=
        subWord_eq (by omega) (by omega)
      have hrest : 0 + (len - (blksize - curOff)) = curOff + len - blksize := by omega
      have hms : ms ≠ [] := by
        rintro rfl
        simp only [List.length_nil, Nat.zero_mul] at hlen
        omega
      rw [walked_tail hpos (by omega)] at hroom
      have hfit : 0 + (len - (blksize - curOff)) ≤ ms.length * blksize := by omega
      obtain ⟨u, map, off, h2, h3, h4, h5, h6, h7⟩ := ih hl.blocks
        (fun n hn => hsub n (List.mem_cons_of_mem _ hn)) hnd hms (Nat.zero_le _) hfit (by omega)
        (hrest ▸ hl.room (fun n hn => hsub n (List.mem_cons_of_mem _ hn)) hnot hroom)
      refine ⟨u, map, off, ?_, ?_, h4, ⟨h5.inodes.trans hl.same.inodes,
        h5.dentries.trans hl.same.dentries, h5.sbs.trans hl.same.sbs⟩, h6.trans hl.files,
        fun n hn => (h7 n hn).trans (hl.bytes n hn)⟩
      · rw [if_neg hcase, hmod, hlen', Prog.bind_ok h2, Prog.pure_run]
        have hfirst : getBytes (blockByte s m) curOff (blksize - curOff) =
            getBytes (bytesOf s blksize (m :: ms)) curOff (blksize - curOff) :=
          getBytes_congr fun k hk => (bytesOf_head m ms (by omega)).symm
        have hsecond : getBytes (bytesOf t blksize ms) 0 (len - (blksize - curOff)) =
            getBytes (bytesOf s blksize (m :: ms)) (curOff + (blksize - curOff))
              (len - (blksize - curOff)) := by
          refine getBytes_congr fun k hk => ?_
          rw [Nat.add_sub_cancel' hoff, bytesOf_tail hpos, Nat.zero_add]
          exact bytesOf_congr hpos
            (fun n hn => hl.bytes n (hsub n (List.mem_cons_of_mem _ hn))) (by omega)
        rw [hfirst, hsecond, getBytes_append, Nat.add_sub_cancel' (by omega)]
      · have := h3.cons m
        rwa [show blksize + (0 + (len - (blksize - curOff))) = curOff + len by omega] at this

structure Wrote (s t : FsSys) (blksize : ℕ) (maps : List ℕ) (fp map off : ℕ) (bytes : List ℕ) :
    Prop where
  blocks : Blocks t blksize maps
  same : SameFiles s t
  files : t.files = (setDirt fp s).files
  sameMaps : t.maps = s.maps
  size : t.pCache.size = s.pCache.size
  bytes : blockByte t map = putBytes (blockByte s map) off bytes
  other : ∀ n ∈ maps, n ≠ map → blockByte t n = blockByte s n

theorem writePage_spec (hb : Blocks s blksize maps) {map page : ℕ} (hm : map ∈ maps)
    (hp : (s.maps map).mapPage = some (.ok page)) (fp off : ℕ) (bytes : List ℕ) :
    Wrote s (setDirt fp (writePage page off bytes s)) blksize maps fp map off bytes := by
  have hpage : ∀ q, q ≠ page →
      (setDirt fp (writePage page off bytes s)).pages q = s.pages q :=
    fun q hq => Function.update_of_ne hq ..
  have hself : (setDirt fp (writePage page off bytes s)).pages page = { s.pages page with
      pDirt := true, pData := putBytes (s.pages page).pData off bytes } := Function.update_self ..
  have hne : ∀ n ∈ maps, n ≠ map → ∀ q, (s.maps n).mapPage = some (.ok q) → q ≠ page :=
    fun n hn e q hq h => e (hb.inj n hn map hm q hq (h ▸ hp))
  refine ⟨(hb.writePage page off bytes).setDirt fp, ⟨rfl, rfl, rfl⟩, rfl, rfl, rfl, ?_,
    fun n hn e => ?_⟩
  · funext i
    have h1 : blockByte (setDirt fp (writePage page off bytes s)) map i =
        ((setDirt fp (writePage page off bytes s)).pages page).pData i := by
      rw [blockByte, show ((setDirt fp (writePage page off bytes s)).maps map).mapPage =
        some (.ok page) from hp]
    have h2 : blockByte s map = (s.pages page).pData := by
      funext i
      rw [blockByte, hp]
    rw [h1, hself, h2]
  · funext i
    cases hq : (s.maps n).mapPage with
    | none =>
      rw [blockByte, blockByte, hq,
        show ((setDirt fp (writePage page off bytes s)).maps n).mapPage = none from hq]
      rfl
    | some r =>
      obtain ⟨q, rfl, -⟩ := hb.page n hn r hq
      rw [blockByte, blockByte, hq,
        show ((setDirt fp (writePage page off bytes s)).maps n).mapPage = some (.ok q) from hq]
      simp only [hpage q (hne n hn e q hq)]

theorem setDirt_idem (fp : ℕ) (s t : FsSys) (h : t.files = (setDirt fp s).files) :
    (setDirt fp t).files = (setDirt fp s).files := by
  simp [setDirt, FsSys.setFile] at h ⊢
  simp [h]

theorem bytesOf_put_last {t : FsSys} (hpos : 0 < blksize) {m : ℕ} {ms : List ℕ} {off : ℕ} {buf : List ℕ}
    (hfits : off + buf.length ≤ blksize)
    (hm : blockByte t m = putBytes (blockByte s m) off buf)
    (hms : ∀ n ∈ ms, blockByte t n = blockByte s n) {x : ℕ} (hx : x < (m :: ms).length * blksize) :
    bytesOf t blksize (m :: ms) x = putBytes (bytesOf s blksize (m :: ms)) off buf x := by
  by_cases hxb : x < blksize
  · rw [bytesOf_head m ms hxb, hm, putBytes, putBytes, bytesOf_head m ms hxb]
  · obtain ⟨y, rfl⟩ := Nat.exists_eq_add_of_le (Nat.le_of_not_lt hxb)
    rw [List.length_cons, Nat.add_mul, Nat.one_mul] at hx
    rw [putBytes_not_mem (by omega), bytesOf_tail hpos, bytesOf_tail hpos]
    exact bytesOf_congr hpos hms (by omega)

/-- What does not fit in the first block is written to the next ones. -/
theorem bytesOf_put_next {t : FsSys} (hpos : 0 < blksize) {m : ℕ} {ms : List ℕ} {off : ℕ}
    {buf : List ℕ}
    (hoff : off ≤ blksize) (hpast : blksize < off + buf.length)
    (hm : blockByte t m = putBytes (blockByte s m) off (buf.take (blksize - off)))
    (hms : ∀ y < ms.length * blksize, bytesOf t blksize ms y =
      putBytes (bytesOf s blksize ms) 0 (buf.drop (blksize - off)) y)
    {x : ℕ} (hx : x < (m :: ms).length * blksize) :
    bytesOf t blksize (m :: ms) x = putBytes (bytesOf s blksize (m :: ms)) off buf x := by
  by_cases hxb : x < blksize
  · have htake : (buf.take (blksize - off)).length = blksize - off := by
      rw [List.length_take]
      omega
    rw [bytesOf_head m ms hxb, hm, putBytes, putBytes, bytesOf_head m ms hxb, htake]
    have hiff : (off ≤ x ∧ x < off + (blksize - off)) ↔ (off ≤ x ∧ x < off + buf.length) := by
      omega
    simp only [hiff]
    split_ifs with hin
    · simp [List.getD_eq_getElem?_getD, show x - off < blksize - off by omega]
    · rfl
  · obtain ⟨y, rfl⟩ := Nat.exists_eq_add_of_le (Nat.le_of_not_lt hxb)
    rw [List.length_cons, Nat.add_mul, Nat.one_mul] at hx
    have hdrop : (buf.drop (blksize - off)).length = off + buf.length - blksize := by
      rw [List.length_drop]
      omega
    rw [bytesOf_tail hpos, hms y (by omega), putBytes, putBytes, bytesOf_tail hpos]
    have hiff : (0 ≤ y ∧ y < 0 + (buf.drop (blksize - off)).length) ↔
        (off ≤ blksize + y ∧ blksize + y < off + buf.length) := by omega
    simp only [hiff]
    split_ifs with hin
    · simp [List.getD_eq_getElem?_getD, List.getElem?_drop,
        show blksize - off + y = blksize + y - off by omega]
    · rfl

theorem writeLoop_spec (he : Reliable env) (hpos : 0 < blksize) (fp : ℕ) {ms : List ℕ}
    (hb : Blocks s blksize maps) (hsub : ∀ m ∈ ms, m ∈ maps) (hnd : ms.Nodup) (hne : ms ≠ [])
    {curOff : ℕ} {buf : List ℕ} (hoff : curOff ≤ blksize)
    (hlen : curOff + buf.length ≤ ms.length * blksize)
    (hsmall : curOff + buf.length < uintRange) (hroom : s.pCache.size +
      (ms.take (walked blksize (curOff + buf.length))).countP (uncached s) ≤ pcacheCapacity) :
    ∃ t map off, writeLoop env fp blksize ms curOff buf s =
        some (.ok (), setPosition fp map off t) ∧
      Stopped blksize ms (curOff + buf.length) map off ∧ Blocks t blksize maps ∧ SameFiles s t ∧
      t.files = (setDirt fp s).files ∧
      (∀ x < ms.length * blksize,
        bytesOf t blksize ms x = putBytes (bytesOf s blksize ms) curOff buf x) ∧
      ∀ n ∈ maps, n ∉ ms → blockByte t n = blockByte s n := by
  induction ms generalizing s curOff buf with
  | nil => exact absurd rfl hne
  | cons m ms ih =>
    obtain ⟨hnot, hnd⟩ := List.nodup_cons.mp hnd
    have hmm := hsub m List.mem_cons_self
    obtain ⟨t, p, h1, hl⟩ := mustGetFspage_spec he hb hmm (room_head hroom)
    have hdirt : (setDirt fp t).files = (setDirt fp s).files := by
      rw [setDirt, setDirt, FsSys.setFile, FsSys.setFile, hl.files]
    rw [writeLoop, Prog.bind_ok h1, Prog.get_bind_run]
    simp only [hl.pagesize, Nat.mod_eq_of_lt hsmall]
    by_cases hcase : curOff + buf.length ≤ blksize
    · have hw := writePage_spec hl.blocks hmm hl.mapped fp curOff buf
      refine ⟨setDirt fp (writePage p curOff buf t), m, curOff + buf.length, ?_,
        ⟨⟨0, rfl, by omega⟩, hcase⟩, hw.blocks, ⟨hw.same.inodes.trans hl.same.inodes,
          hw.same.dentries.trans hl.same.dentries, hw.same.sbs.trans hl.same.sbs⟩,
        hw.files.trans hdirt, fun x hx => ?_, fun n hn hnm => ?_⟩
      · rw [if_pos hcase]
        rfl
      · refine bytesOf_put_last hpos hcase (hl.bytes m hmm ▸ hw.bytes) (fun n hn => ?_) hx
        have hnmaps := hsub n (List.mem_cons_of_mem _ hn)
        rw [hw.other n hnmaps fun e => hnot (e ▸ hn), hl.bytes n hnmaps]
      · have hne := List.ne_of_not_mem_cons hnm
        rw [hw.other n hn hne, hl.bytes n hn]
    · rw [List.length_cons, Nat.add_mul, Nat.one_mul] at hlen
      have hmod : subWord blksize curOff = blksize - curOff := subWord_eq hoff (by omega)
      have hw := writePage_spec hl.blocks hmm hl.mapped fp curOff (buf.take (blksize - curOff))
      have hdrop : 0 + (buf.drop (blksize - curOff)).length = curOff + buf.length - blksize := by
        rw [List.length_drop]
        omega
      have hms : ms ≠ [] := by
        rintro rfl
        simp only [List.length_nil, Nat.zero_mul] at hlen
        omega
      have hsub' : ∀ n ∈ ms, n ∈ maps := fun n hn => hsub n (List.mem_cons_of_mem _ hn)
      have hroom' := hl.room hsub' hnot (walked_tail hpos (show blksize < curOff + buf.length by
        omega) ▸ hroom)
      rw [← hdrop, ← hw.size] at hroom'
      have huncached : uncached (setDirt fp (writePage p curOff (buf.take (blksize - curOff)) t)) =
          uncached t := by
        funext n
        rw [uncached, uncached, hw.sameMaps]
      rw [← huncached] at hroom'
      obtain ⟨u, map, off, h2, h3, h4, h5, h6, h7, h8⟩ := ih hw.blocks hsub' hnd hms
        (Nat.zero_le _) (by omega) (by omega) hroom'
      refine ⟨u, map, off, ?_, ?_, h4, ⟨h5.inodes.trans (hw.same.inodes.trans hl.same.inodes),
        h5.dentries.trans (hw.same.dentries.trans hl.same.dentries),
        h5.sbs.trans (hw.same.sbs.trans hl.same.sbs)⟩,
        h6.trans (setDirt_idem fp s _ (hw.files.trans hdirt)), fun x hx => ?_, fun n hn hnm => ?_⟩
      · rw [if_neg hcase, hmod]
        exact h2
      · have := h3.cons m
        rwa [show blksize + (0 + (buf.drop (blksize - curOff)).length) = curOff + buf.length by
          omega] at this
      · refine bytesOf_put_next hpos hoff (by omega) ?_ (fun y hy => ?_) hx
        · rw [h8 m hmm hnot, hw.bytes, hl.bytes m hmm]
        · have hrest := bytesOf_congr (t := setDirt fp (writePage p curOff
            (buf.take (blksize - curOff)) t)) (s := s) hpos (fun n hn => ?_) hy
          · rw [h7 y hy, putBytes, putBytes, hrest]
          · rw [hw.other n (hsub' n hn) fun e => hnot (e ▸ hn), hl.bytes n (hsub' n hn)]
      · rw [h8 n hn (List.not_mem_of_not_mem_cons hnm), hw.other n hn (List.ne_of_not_mem_cons hnm),
          hl.bytes n hn]

end Transfer

end OurOS.Fs
