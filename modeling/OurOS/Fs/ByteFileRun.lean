import OurOS.Fs.ByteFile
import OurOS.Fs.ReadWriteSpec
import OurOS.Lib.Run

namespace OurOS.Fs

section Expand

variable {env : FsEnv} {s t u : FsSys} {fp size : ℕ}

structure Expanded (s u : FsSys) (fp size : ℕ) : Prop where
  handle : Handle u fp
  fSize : (u.files fp).fSize = size
  fPos : (u.files fp).fPos = (s.files fp).fPos
  fCurOff : (u.files fp).fCurOff = (s.files fp).fCurOff
  fCurMap : (u.files fp).fCurMap = (s.files fp).fCurMap
  blksize : fileBlksize u fp = fileBlksize s fp
  blocks : fileBlocks u fp = max (fileBlocks s fp) (blocksFor size (fileBlksize s fp))
  maps : ∃ new, fileMaps u fp = fileMaps s fp ++ new
  cached : ∀ m ∈ fileMaps s fp, uncached u m = uncached s m
  pCache : u.pCache = s.pCache
  bytes : ∀ x < fileBlocks s fp * fileBlksize s fp, fileByte u fp x = fileByte s fp x

theorem Handle.notExpanded (h : Handle s fp) : Expanded s s fp (s.files fp).fSize := by
  refine ⟨h, rfl, rfl, rfl, rfl, rfl, ?_, ⟨[], (List.append_nil _).symm⟩, fun _ _ => rfl, rfl,
    fun _ _ => rfl⟩
  exact (max_eq_left (blocksFor_le h.blksize_pos h.size_le)).symm

/-- The size alone changes where the last block has room for the bytes that are added. -/
def resized (fp size : ℕ) (t : FsSys) : FsSys :=
  (t.setInode (fileInode t fp) fun n => { n with iSize := size }).setFile fp fun f =>
    { f with fSize := size }

theorem resized_inodes (fp size : ℕ) (t : FsSys) (n : ℕ) : (resized fp size t).inodes n =
    { t.inodes n with iSize := if n = fileInode t fp then size else (t.inodes n).iSize } := by
  by_cases e : n = fileInode t fp
  · subst e
    simp [resized, FsSys.setInode, FsSys.setFile]
  · simp [resized, FsSys.setInode, FsSys.setFile, e]

theorem resized_file (fp size : ℕ) (t : FsSys) :
    (resized fp size t).files fp = { t.files fp with fSize := size } := by
  simp [resized, FsSys.setInode, FsSys.setFile]

structure Extended (s t : FsSys) (fp : ℕ) (new : List ℕ) : Prop where
  grown : Grown (fileInode s fp) s t new
  disk : ∀ m ∈ fileMaps s fp, uncached s m = true → ∀ i < fileBlksize s fp,
    readSectors t.sd (s.maps m).mapAddr i = readSectors s.sd (s.maps m).mapAddr i

variable {new : List ℕ}

theorem Extended.blockByte_eq (h : Extended s t fp new) (hs : Handle s fp) {m : ℕ}
    (hm : m ∈ fileMaps s fp) {i : ℕ} (hi : i < fileBlksize s fp) :
    blockByte t m i = blockByte s m i := by
  rw [blockByte, blockByte, h.grown.maps m (hs.good.small m hm), h.grown.pages]
  cases hp : (s.maps m).mapPage with
  | none => exact h.disk m hm (by simp [uncached, hp]) i hi
  | some r =>
    obtain ⟨p, rfl, -⟩ := hs.good.page m hm r hp
    rfl

theorem Grown.good {node blksize : ℕ} {maps : List ℕ} (h : Grown node s t new)
    (hb : Blocks s blksize maps) : Blocks t blksize (maps ++ new) := by
  have hold : ∀ m ∈ maps, t.maps m = s.maps m := fun m hm => h.maps m (hb.small m hm)
  have hfresh : ∀ m ∈ new, ∀ r, (t.maps m).mapPage ≠ some r := by
    intro m hm r hr
    rw [(h.fresh m hm).2.2] at hr
    cases hr
  refine ⟨List.nodup_append.mpr ⟨hb.nodup, h.nodup, fun a ha b hb' => ?_⟩,
    fun m hm => ?_, fun m hm r hr => ?_, fun m hm n hn p h1 h2 => ?_⟩
  · exact ((hb.small a ha).trans_le (h.fresh b hb').1).ne
  · rcases List.mem_append.mp hm with hm | hm
    · exact (hb.small m hm).trans_le h.brk
    · exact (h.fresh m hm).2.1
  · rcases List.mem_append.mp hm with hm | hm
    · rw [hold m hm] at hr
      obtain ⟨p, hp, hlt, hsize⟩ := hb.page m hm r hr
      exact ⟨p, hp, hlt.trans_le h.brk, by rw [h.pages]; exact hsize⟩
    · exact absurd hr (hfresh m hm r)
  · rcases List.mem_append.mp hm with hm | hm
    · rcases List.mem_append.mp hn with hn | hn
      · rw [hold m hm] at h1
        rw [hold n hn] at h2
        exact hb.inj m hm n hn p h1 h2
      · exact absurd h2 (hfresh n hn _)
    · exact absurd h1 (hfresh m hm _)

theorem Extended.good (h : Extended s t fp new) (hs : Handle s fp) :
    Blocks t (fileBlksize s fp) (fileMaps s fp ++ new) := h.grown.good hs.good

theorem Grown.file_resized (h : Grown (fileInode s fp) s t new) (size : ℕ) :
    (resized fp size t).files fp = { s.files fp with fSize := size } := by
  rw [resized_file, h.files]

theorem Grown.inode_resized (h : Grown (fileInode s fp) s t new) (size : ℕ) :
    fileInode (resized fp size t) fp = fileInode s fp := by
  rw [fileInode, h.file_resized, show (resized fp size t).dentries = s.dentries from h.dentries]
  rfl

theorem Grown.node_resized (h : Grown (fileInode s fp) s t new) (size : ℕ) :
    (resized fp size t).inodes (fileInode s fp) =
      { t.inodes (fileInode s fp) with iSize := size } := by
  have ht : fileInode t fp = fileInode s fp := by
    rw [fileInode, h.files, h.dentries]
    rfl
  rw [resized_inodes, if_pos ht.symm]

theorem Grown.sb_resized (h : Grown (fileInode s fp) s t new) (size : ℕ) :
    fileSb (resized fp size t) fp = { fileSb s fp with
      infoNextClu := (fileSb (resized fp size t) fp).infoNextClu } := by
  simp only [fileSb, h.file_resized, show (resized fp size t).dentries = s.dentries from h.dentries]
  exact h.sbs _

theorem Grown.blksize_resized (h : Grown (fileInode s fp) s t new) (size : ℕ) :
    fileBlksize (resized fp size t) fp = fileBlksize s fp := by
  rw [fileBlksize, h.sb_resized]
  rfl

theorem Grown.blocks_resized (h : Grown (fileInode s fp) s t new) (size : ℕ) :
    fileBlocks (resized fp size t) fp = fileBlocks s fp + new.length := by
  rw [fileBlocks, h.inode_resized, h.node_resized]
  exact h.blocks

theorem Grown.maps_resized (h : Grown (fileInode s fp) s t new)
    (hmap : (s.files fp).fDataMap = fileInode s fp) (size : ℕ) :
    fileMaps (resized fp size t) fp = fileMaps s fp ++ new := by
  have hres : ((resized fp size t).files fp).fDataMap = fileInode s fp := by
    rw [h.file_resized]
    exact hmap
  rw [fileMaps, hres, h.node_resized, fileMaps, hmap]
  exact h.dataMap

theorem Handle.blocksFor_bound (hs : Handle s fp) (hbound : size ≤ 2 ^ 30) :
    max (fileBlocks s fp) (blocksFor size (fileBlksize s fp)) * fileBlksize s fp ≤ 2 ^ 30 := by
  have hdvd : 2 ^ 30 / fileBlksize s fp * fileBlksize s fp = 2 ^ 30 := by
    refine Nat.div_mul_cancel ?_
    rw [hs.blksize]
    exact pow_dvd_pow 2 hs.blkbits_le
  have hn : blocksFor size (fileBlksize s fp) ≤ 2 ^ 30 / fileBlksize s fp :=
    blocksFor_le hs.blksize_pos (by omega)
  rw [← Nat.mul_max_mul_right]
  exact max_le hs.bound ((Nat.mul_le_mul_right _ hn).trans hdvd.le)

theorem Extended.expanded (h : Extended s t fp new) (hs : Handle s fp)
    (hlen : new.length = blocksFor size (fileBlksize s fp) - fileBlocks s fp)
    (hbound : size ≤ 2 ^ 30) : Expanded s (resized fp size t) fp size := by
  have hg := h.grown
  have hblocks : fileBlocks s fp + new.length =
      max (fileBlocks s fp) (blocksFor size (fileBlksize s fp)) := by omega
  have hdentry : (resized fp size t).dentries = s.dentries := h.grown.dentries
  have hsize : size ≤ max (fileBlocks s fp) (blocksFor size (fileBlksize s fp)) *
      fileBlksize s fp :=
    (le_blocksFor_mul hs.blksize_pos).trans (Nat.mul_le_mul_right _ (le_max_right _ _))
  obtain ⟨b, map, hb, hcur, hpos⟩ := hs.pos
  have hhandle : Handle (resized fp size t) fp := by
    constructor
    · rw [hg.file_resized]
      exact hs.readable
    · rw [hg.file_resized]
      exact hs.writable
    · rw [hg.inode_resized, hg.file_resized]
      exact hs.dataMap
    · rw [hg.inode_resized, hg.node_resized, hdentry, hg.file_resized]
      exact (congrArg Inode.iSb (h.grown.inode _)).trans hs.sb
    · rw [hg.blksize_resized, hg.sb_resized]
      exact hs.blksize
    · rw [hg.blocks_resized, hg.maps_resized hs.dataMap, List.length_append, hs.blocks]
    · rw [hg.blocks_resized, hg.blksize_resized, hblocks]
      exact hs.blocksFor_bound hbound
    · rw [hg.inode_resized, hg.node_resized, hg.file_resized]
    · rw [hg.blocks_resized, hg.blksize_resized, hg.file_resized, hblocks]
      exact hsize
    · rw [hg.blksize_resized, hg.maps_resized hs.dataMap]
      have hgood := h.good hs
      exact ⟨hgood.nodup, hgood.small, hgood.page, hgood.inj⟩
    · rw [hg.blksize_resized, hg.maps_resized hs.dataMap, hg.file_resized]
      exact ⟨b, map, by rw [List.getElem?_append_left (List.getElem?_eq_some_iff.mp hb).1, hb], hcur,
        hpos⟩
    · rw [hg.blksize_resized, hg.file_resized]
      exact hs.off_le
  refine ⟨hhandle, by rw [hg.file_resized], by rw [hg.file_resized], by rw [hg.file_resized], by rw [hg.file_resized], hg.blksize_resized _,
    by rw [hg.blocks_resized, hblocks], ⟨new, hg.maps_resized hs.dataMap size⟩, fun m hm => ?_, h.grown.pCache,
    fun x hx => ?_⟩
  · exact congrArg (Option.isNone ∘ FsMap.mapPage) (h.grown.maps m (hs.good.small m hm))
  · have hlt : x / fileBlksize s fp < (fileMaps s fp).length :=
      hs.blocks ▸ (Nat.div_lt_iff_lt_mul hs.blksize_pos).mpr hx
    rw [fileByte, hg.blksize_resized, hg.maps_resized hs.dataMap, fileByte, bytesOf, bytesOf,
      List.getD_append _ _ _ _ hlt, List.getD_eq_getElem _ _ hlt]
    exact h.blockByte_eq hs (List.getElem_mem hlt) (Nat.mod_lt _ hs.blksize_pos)

theorem fileLastBlkRemain_eq (hs : Handle s fp) : fileLastBlkRemain s fp =
    fileBlocks s fp * fileBlksize s fp - (s.files fp).fSize := by
  have hbs : (s.sbs (s.inodes (fileInode s fp)).iSb).sBlocksize = fileBlksize s fp := by
    rw [hs.sb]
    rfl
  have hbound := hs.bound
  have hword : (2 : ℕ) ^ 30 < uintRange := by decide
  rw [fileLastBlkRemain, hbs]
  change subWord (fileBlocks s fp * fileBlksize s fp % uintRange) _ = _
  rw [Nat.mod_eq_of_lt (by omega), subWord_eq hs.size_le (by omega)]

theorem expandBytes_eq (hs : Handle s fp) (hsize : (s.files fp).fSize < size)
    (hbound : size ≤ 2 ^ 30) (h : fileBlocks s fp * fileBlksize s fp ≤ size) :
    expandBytes s fp size = size - fileBlocks s fp * fileBlksize s fp := by
  have hle := hs.size_le
  have hword : (2 : ℕ) ^ 30 < uintRange := by decide
  rw [expandBytes, fileLastBlkRemain_eq hs, subWord_eq hsize.le (by omega),
    subWord_eq (by omega) (by omega)]
  omega

theorem expandBytes_large (hs : Handle s fp) (hsize : (s.files fp).fSize < size)
    (h : size < fileBlocks s fp * fileBlksize s fp) : 2 ^ 31 ≤ expandBytes s fp size := by
  have hbound := hs.bound
  have hword : uintRange = 2 ^ 31 + 2 ^ 31 := by decide
  rw [expandBytes, fileLastBlkRemain_eq hs, subWord_eq hsize.le (by omega), subWord,
    Nat.mod_eq_of_lt (by omega)]
  omega

theorem expandBlks_expandBytes (hs : Handle s fp) (hsize : (s.files fp).fSize < size)
    (hbound : size ≤ 2 ^ 30) (h : fileBlocks s fp * fileBlksize s fp ≤ size) :
    expandBlks (s.sbs (s.inodes (fileInode s fp)).iSb) (expandBytes s fp size) =
      blocksFor size (fileBlksize s fp) - fileBlocks s fp := by
  have hsb : s.sbs (s.inodes (fileInode s fp)).iSb = fileSb s fp := congrArg s.sbs hs.sb
  have hle : (fileSb s fp).sBlocksize ≤ 2 ^ 30 := by
    have hb : (fileSb s fp).sBlocksize = _ := hs.blksize
    rw [hb]
    exact Nat.pow_le_pow_right two_pos hs.blkbits_le
  have hword : uintRange = 2 ^ 30 + 2 ^ 30 + 2 ^ 31 := by decide
  rw [hsb, expandBytes_eq hs hsize hbound h, expandBlks_eq hs.blksize hs.blkbits_le (by omega)]
  exact blocksFor_sub hs.blksize_pos h

theorem fileExpandTo_spec (hs : Handle s fp) (hsize : (s.files fp).fSize < size)
    (hbound : size ≤ 2 ^ 30) (hexp : expandSucceeds env s fp size) :
    ∃ u, fileExpandTo env fp size s = some (.ok (), u) ∧ Expanded s u fp size := by
  rw [fileExpandTo, Prog.get_bind_run, if_neg hsize.not_ge]
  have hend (t : FsSys) (ht : fileInode t fp = fileInode s fp) :
      ((t.setInode (fileInode s fp) fun n => { n with iSize := size }).setFile fp fun f =>
        { f with fSize := size }) = resized fp size t := by
    rw [resized, ht]
  by_cases hgrow : fileBlocks s fp * fileBlksize s fp < size
  · obtain ⟨t, ht, hdisk⟩ := hexp hgrow
    have hblks : blocksFor size _ ≤ size := blocksFor_le hs.blksize_pos
      (Nat.le_mul_of_pos_right _ hs.blksize_pos)
    have hword : (2 : ℕ) ^ 30 < uintRange := by decide
    have hle : fileBlocks s fp ≤ fileBlocks s fp * fileBlksize s fp :=
      Nat.le_mul_of_pos_right _ hs.blksize_pos
    obtain ⟨new, hg, -, hlen⟩ := expandFat32_grown (show fileBlocks s fp + _ < uintRange by omega) ht
    replace hlen := hlen rfl
    have hx : Extended s t fp new := ⟨hg, hdisk⟩
    refine ⟨resized fp size t, ?_, hx.expanded hs hlen hbound⟩
    have hpos : 0 < expandBytes s fp size ∧ expandBytes s fp size < 2 ^ 31 := by
      rw [expandBytes_eq hs hsize hbound hgrow.le]
      omega
    have hnode : fileInode t fp = fileInode s fp := by
      rw [fileInode, hg.files, hg.dentries]
      rfl
    rw [if_pos hpos, expandBlks_expandBytes hs hsize hbound hgrow.le, Prog.bind_ok ht]
    exact congrArg (fun v => some (Except.ok (), v)) (hend t hnode)
  · have hx : Extended s s fp [] := ⟨(SameObjects.grown (refl s) _), fun _ _ _ _ _ => rfl⟩
    refine ⟨resized fp size s, ?_, hx.expanded hs ?_ hbound⟩
    · have hneg : ¬ (0 < expandBytes s fp size ∧ expandBytes s fp size < 2 ^ 31) := by
        rcases (Nat.le_of_not_lt hgrow).eq_or_lt with h | h
        · rw [expandBytes_eq hs hsize hbound h.ge]
          omega
        · have := expandBytes_large hs hsize h
          omega
      rw [if_neg hneg]
      exact congrArg (fun v => some (Except.ok (), v)) (hend s rfl)
    · have := blocksFor_le hs.blksize_pos (Nat.le_of_not_lt hgrow)
      rw [List.length_nil]
      omega

end Expand

section Transfer

variable {env : FsEnv} {s t u : FsSys} {fp len : ℕ}

theorem bytesOf_splice {blksize b off : ℕ} {maps : List ℕ} (hpos : 0 < blksize)
    (hnd : maps.Nodup) {buf : List ℕ} (hdrop : ∀ y < (maps.drop b).length * blksize,
      bytesOf t blksize (maps.drop b) y = putBytes (bytesOf s blksize (maps.drop b)) off buf y)
    (hother : ∀ n ∈ maps, n ∉ maps.drop b → blockByte t n = blockByte s n) {x : ℕ}
    (hx : x < maps.length * blksize) : bytesOf t blksize maps x =
      putBytes (bytesOf s blksize maps) (b * blksize + off) buf x := by
  rcases Nat.lt_or_ge x (b * blksize) with hlt | hge
  · have hxb : x / blksize < b := (Nat.div_lt_iff_lt_mul hpos).mpr hlt
    have hxl : x / blksize < maps.length := (Nat.div_lt_iff_lt_mul hpos).mpr hx
    have hnot : maps[x / blksize] ∉ maps.drop b := by
      refine List.disjoint_take_drop hnd le_rfl ?_
      exact List.mem_take_iff_getElem.mpr ⟨x / blksize, by omega, rfl⟩
    rw [putBytes_not_mem (by omega), bytesOf, bytesOf, List.getD_eq_getElem _ _ hxl,
      hother _ (List.getElem_mem hxl) hnot]
  · obtain ⟨y, rfl⟩ := Nat.exists_eq_add_of_le hge
    have hy : y < (maps.drop b).length * blksize := by
      rw [List.length_drop, Nat.sub_mul]
      omega
    have h := hdrop y hy
    rw [bytesOf_drop hpos] at h
    rw [h, putBytes, putBytes, bytesOf_drop hpos]
    have hiff : (off ≤ y ∧ y < off + buf.length) ↔ (b * blksize + off ≤ b * blksize + y ∧
        b * blksize + y < b * blksize + off + buf.length) := by omega
    simp only [hiff, Nat.add_sub_add_left]

theorem Expanded.room {size : ℕ} (hs : Handle s fp) (h : Expanded s u fp size)
    (hroom : noEviction s fp len) : u.pCache.size + ((mapsFrom u fp).take
      (walked (fileBlksize u fp) ((u.files fp).fCurOff + len))).countP (uncached u) ≤
        pcacheCapacity := by
  obtain ⟨b, map, hb, hcur, -⟩ := hs.pos
  obtain ⟨new, hnew⟩ := h.maps
  have hlt := (List.getElem?_eq_some_iff.mp hb).1
  have hb' : (fileMaps u fp)[b]? = some map := by
    rw [hnew, List.getElem?_append_left hlt, hb]
  have hms : mapsFrom s fp = (fileMaps s fp).drop b := by
    rw [mapsFrom, hcur]
    exact dropWhile_eq_drop hs.good.nodup hb
  have hmu : mapsFrom u fp = mapsFrom s fp ++ new := by
    rw [mapsFrom, h.fCurMap, hcur]
    refine (dropWhile_eq_drop h.handle.good.nodup hb').trans ?_
    rw [hnew, List.drop_append_of_le_length hlt.le, hms]
  rw [h.blksize, h.fCurOff, h.pCache, hmu, List.take_append, List.countP_append]
  have hold : ((mapsFrom s fp).take (walked (fileBlksize s fp) ((s.files fp).fCurOff + len))).countP
      (uncached u) = ((mapsFrom s fp).take
        (walked (fileBlksize s fp) ((s.files fp).fCurOff + len))).countP (uncached s) := by
    refine List.countP_congr fun m hm => ?_
    rw [h.cached m (List.mem_of_mem_drop (hms ▸ List.mem_of_mem_take hm))]
  have hnewle := (List.countP_le_length (p := uncached u)).trans
    (List.length_take_le (walked (fileBlksize s fp) ((s.files fp).fCurOff + len) -
      (mapsFrom s fp).length) new)
  rw [noEviction] at hroom
  rw [hold]
  omega

structure Advanced (s t : FsSys) (fp len : ℕ) : Prop where
  handle : Handle t fp
  fSize : (t.files fp).fSize = (s.files fp).fSize
  fPos : (t.files fp).fPos = (s.files fp).fPos + len
  blksize : fileBlksize t fp = fileBlksize s fp
  blocks : fileBlocks t fp = fileBlocks s fp

theorem Advanced.of_stopped {b map off : ℕ} (hs : Handle s fp) (ha : Ahead s fp b)
    (hm : Moved s t fp ((s.files fp).fPos + len) map off)
    (hb : Blocks t (fileBlksize s fp) (fileMaps s fp))
    (hstop : Stopped (fileBlksize s fp) (mapsFrom s fp) ((s.files fp).fCurOff + len) map off) :
    Advanced s t fp len := by
  obtain ⟨⟨j, hj, hsum⟩, hoff⟩ := hstop
  have hpos := ha.pos
  rw [ha.maps, List.getElem?_drop] at hj
  obtain ⟨d, hf⟩ := hm.file
  refine ⟨hs.moved hm hb ⟨b + j, hj, ?_⟩ hoff, by rw [hf], by rw [hf], hm.blksize_eq,
    hm.blocks_eq⟩
  rw [Nat.add_mul]
  omega

theorem Moved.of_setPosition {pos map off : ℕ} {dirt : Bool} (hsame : SameFiles s t)
    (hf : t.files fp = { s.files fp with fPos := pos, fDirt := dirt }) :
    Moved s (setPosition fp map off t) fp pos map off := by
  refine ⟨⟨hsame.inodes, hsame.dentries, hsame.sbs⟩, dirt, ?_⟩
  simp [setPosition, FsSys.setFile, hf]

theorem Blocks.setPosition {blksize map off : ℕ} {maps : List ℕ} (h : Blocks t blksize maps) :
    Blocks (setPosition fp map off t) blksize maps :=
  ⟨h.nodup, h.small, h.page, h.inj⟩

theorem Ahead.mem {b m : ℕ} (ha : Ahead s fp b) (hm : m ∈ mapsFrom s fp) : m ∈ fileMaps s fp :=
  List.mem_of_mem_drop (ha.maps ▸ hm)

theorem Ahead.ne_nil {b : ℕ} (ha : Ahead s fp b) : mapsFrom s fp ≠ [] := by
  rw [ha.maps]
  exact List.ne_nil_of_length_pos (by rw [List.length_drop]; exact Nat.sub_pos_of_lt ha.lt)

theorem Ahead.nodup {b : ℕ} (ha : Ahead s fp b) (hs : Handle s fp) : (mapsFrom s fp).Nodup :=
  ha.maps ▸ hs.good.nodup.sublist (List.drop_sublist _ _)

theorem Ahead.fits {b : ℕ} (ha : Ahead s fp b) (hs : Handle s fp)
    (h : (s.files fp).fPos + len ≤ fileBlocks s fp * fileBlksize s fp) :
    (s.files fp).fCurOff + len ≤ (mapsFrom s fp).length * fileBlksize s fp := by
  have hpos := ha.pos
  rw [ha.maps, List.length_drop, ← hs.blocks, Nat.sub_mul]
  omega

theorem fsRead_past_end (hs : Handle s fp) (h30 : (s.files fp).fPos + len ≤ 2 ^ 30)
    (hend : (s.files fp).fSize < (s.files fp).fPos + len) :
    fsRead env fp len s = some (.error errorEndOfFile, s) := by
  have hword : (2 : ℕ) ^ 30 < uintRange := by decide
  refine fsRead_past hs.readable ?_
  rw [Nat.mod_eq_of_lt (by omega)]
  exact hend

theorem fsRead_spec (he : Reliable env) (hs : Handle s fp)
    (h30 : (s.files fp).fPos + len ≤ 2 ^ 30)
    (hend : (s.files fp).fPos + len ≤ (s.files fp).fSize) (hroom : noEviction s fp len) :
    ∃ t, fsRead env fp len s = some (.ok (getBytes (fileByte s fp) (s.files fp).fPos len), t) ∧
      Advanced s t fp len ∧
      ∀ x < fileBlocks s fp * fileBlksize s fp, fileByte t fp x = fileByte s fp x := by
  have hword : (2 : ℕ) ^ 30 < uintRange := by decide
  have hpos := hs.blksize_pos
  obtain ⟨b, ha⟩ := hs.ahead
  have hcur := ha.pos
  have hsize := hs.size_le
  let s' := advanced fp len s
  have hb : Blocks s' (fileBlksize s fp) (fileMaps s fp) :=
    ⟨hs.good.nodup, hs.good.small, hs.good.page, hs.good.inj⟩
  have hfit : s'.pCache.size + ((mapsFrom s fp).take (walked (fileBlksize s fp)
      ((s.files fp).fCurOff + len))).countP (uncached s') ≤ pcacheCapacity :=
    (Nat.add_le_add_left (Nat.le_add_right _ _) _).trans hroom
  obtain ⟨t, map, off, h1, hstop, hbt, hsame, hfiles, hbytes⟩ :=
    readLoop_spec he hpos fp hb (fun _ => ha.mem) (ha.nodup hs) ha.ne_nil hs.off_le
      (ha.fits hs (by omega)) (by omega) hfit
  have hfile : t.files fp = { s.files fp with
      fPos := (s.files fp).fPos + len, fDirt := (s.files fp).fDirt } := by
    rw [hfiles]
    simp only [s', advanced, FsSys.setFile, Function.update_self]
    rw [Nat.mod_eq_of_lt (by omega)]
  have hmoved : Moved s (setPosition fp map off t) fp ((s.files fp).fPos + len) map off :=
    .of_setPosition ⟨hsame.inodes, hsame.dentries, hsame.sbs⟩ hfile
  refine ⟨_, ?_, .of_stopped hs ha hmoved hbt.setPosition hstop, fun x hx => ?_⟩
  · have hread : getBytes (bytesOf s' (fileBlksize s fp) (mapsFrom s fp)) (s.files fp).fCurOff len =
        getBytes (fileByte s fp) (s.files fp).fPos len := by
      refine getBytes_congr fun k _ => ?_
      rw [ha.maps, bytesOf_drop hpos, ← Nat.add_assoc, ← hcur]
      rfl
    have hfits : ((s.files fp).fPos + len) % uintRange ≤ (s.files fp).fSize := by
      rw [Nat.mod_eq_of_lt (by omega)]
      exact hend
    rw [fsRead_within hs.readable hfits, ← hread]
    exact h1
  · rw [hmoved.byte_eq]
    exact bytesOf_congr hpos hbytes (hs.blocks ▸ hx)

theorem Handle.writeStarts (hs : Handle s fp) {buf : List ℕ}
    (h30 : (s.files fp).fPos + buf.length ≤ 2 ^ 30)
    (hexp : expandSucceeds env s fp ((s.files fp).fPos + buf.length)) :
    ∃ u, Expanded s u fp (max (s.files fp).fSize ((s.files fp).fPos + buf.length)) ∧
      WriteStarts env s fp buf u := by
  have hword : (2 : ℕ) ^ 30 < uintRange := by decide
  have hend : writeEnd s fp buf.length = (s.files fp).fPos + buf.length :=
    Nat.mod_eq_of_lt (by omega)
  rw [← hend] at h30 hexp ⊢
  rcases Nat.lt_or_ge (s.files fp).fSize (writeEnd s fp buf.length) with hgrow | hle
  · obtain ⟨u, hu, h⟩ := fileExpandTo_spec hs hgrow h30 hexp
    rw [max_eq_right hgrow.le]
    exact ⟨u, h, hs.writable, .inl ⟨hgrow, hu⟩⟩
  · rw [max_eq_left hle]
    exact ⟨s, hs.notExpanded, hs.writable, .inr ⟨hle, rfl⟩⟩

theorem fsWrite_spec (he : Reliable env) (hs : Handle s fp) {buf : List ℕ}
    (h30 : (s.files fp).fPos + buf.length ≤ 2 ^ 30) (hroom : noEviction s fp buf.length)
    (hexp : expandSucceeds env s fp ((s.files fp).fPos + buf.length)) :
    ∃ u t, fsWrite env fp buf s = some (.ok (), t) ∧
      Expanded s u fp (max (s.files fp).fSize ((s.files fp).fPos + buf.length)) ∧
      Advanced u t fp buf.length ∧
      ∀ x < fileBlocks u fp * fileBlksize u fp, fileByte t fp x =
        putBytes (fileByte u fp) (s.files fp).fPos buf x := by
  have hword : (2 : ℕ) ^ 30 < uintRange := by decide
  obtain ⟨u, hu, hstart⟩ := hs.writeStarts h30 hexp
  have hh := hu.handle
  have hpos := hh.blksize_pos
  obtain ⟨b, ha⟩ := hh.ahead
  have hcur := ha.pos
  rw [hu.fPos] at hcur
  have hsize : (u.files fp).fPos + buf.length ≤ fileBlocks u fp * fileBlksize u fp := by
    have h1 := hh.size_le
    rw [hu.fSize] at h1
    rw [hu.fPos]
    omega
  let u' := advanced fp buf.length u
  have hb : Blocks u' (fileBlksize u fp) (fileMaps u fp) :=
    ⟨hh.good.nodup, hh.good.small, hh.good.page, hh.good.inj⟩
  have hfit : u'.pCache.size + ((mapsFrom u fp).take (walked (fileBlksize u fp)
      ((u.files fp).fCurOff + buf.length))).countP (uncached u') ≤ pcacheCapacity := by
    have hroom' := hu.room hs hroom
    rwa [show uncached u' = uncached u from rfl, show u'.pCache = u.pCache from rfl]
  obtain ⟨t, map, off, h1, hstop, hbt, hsame, hfiles, hbytes, hother⟩ :=
    writeLoop_spec he hpos fp hb (fun _ => ha.mem) (ha.nodup hh) ha.ne_nil hh.off_le
      (ha.fits hh hsize) (by omega) hfit
  have hfile : t.files fp = { u.files fp with
      fPos := (u.files fp).fPos + buf.length, fDirt := true } := by
    rw [hfiles]
    simp only [u', advanced, setDirt, FsSys.setFile, Function.update_self]
    rw [Nat.mod_eq_of_lt (by rw [hu.fPos]; omega)]
  have hmoved : Moved u (setPosition fp map off t) fp ((u.files fp).fPos + buf.length) map off :=
    .of_setPosition ⟨hsame.inodes, hsame.dentries, hsame.sbs⟩ hfile
  refine ⟨u, _, ?_, hu, .of_stopped hh ha hmoved hbt.setPosition hstop, fun x hx => ?_⟩
  · have hsb : fileSb u' fp = fileSb u fp := by simp [u', advanced, fileSb, FsSys.setFile]
    have hms : mapsFrom u' fp = mapsFrom u fp := by simp [u', advanced, mapsFrom, FsSys.setFile]
    rw [hstart.run]
    change writeLoop env fp (fileSb u' fp).sBlocksize (mapsFrom u' fp) (s.files fp).fCurOff buf u' =
      _
    rw [hsb, hms, ← hu.fCurOff]
    exact h1
  · rw [hmoved.byte_eq, ← hu.fPos, ha.pos]
    rw [ha.maps] at hbytes hother
    exact bytesOf_splice hpos hh.good.nodup hbytes hother (hh.blocks ▸ hx)

end Transfer

/-- The byte array `a` is what the handle shows of its file. -/
structure Represents (a : ByteFile) (s : FsSys) (fp : ℕ) : Prop where
  handle : Handle s fp
  size : a.size = (s.files fp).fSize
  pos : a.pos = (s.files fp).fPos
  blksize : a.blksize = fileBlksize s fp
  blocks : a.blocks = fileBlocks s fp
  bytes : ∀ x v, a.bytes x = some v → x < fileBlocks s fp * fileBlksize s fp ∧ fileByte s fp x = v

/-- The same error, or bytes of which the known ones are the same. -/
def Agrees : Except ℕ (List (Option ℕ)) → Except ℕ (List ℕ) → Prop
  | .error e, .error e' => e = e'
  | .ok known, .ok got => List.Forall₂ (fun k b => ∀ v, k = some v → b = v) known got
  | _, _ => False

def byteFile (s : FsSys) (fp : ℕ) : ByteFile where
  bytes x := if x < (s.files fp).fSize then some (fileByte s fp x) else none
  size := (s.files fp).fSize
  pos := (s.files fp).fPos
  blksize := fileBlksize s fp
  blocks := fileBlocks s fp

def fileStep (env : FsEnv) (fp : ℕ) (s : FsSys) : FileOp → Option (Except ℕ (List ℕ) × FsSys)
  | .read len => fsRead env fp len s
  | .write buf => (do
      fsWrite env fp buf
      pure [] : FsProg (List ℕ)) s

def FileOp.length : FileOp → ℕ
  | .read len => len
  | .write buf => buf.length

/-- The transfer ends within `2 ^ 30` bytes, evicts no page, and finds room where a write needs it. -/
def undisturbed (env : FsEnv) (fp : ℕ) (s : FsSys) (op : FileOp) : Prop :=
  (s.files fp).fPos + op.length ≤ 2 ^ 30 ∧ noEviction s fp op.length ∧
    ∀ buf, op = .write buf → expandSucceeds env s fp ((s.files fp).fPos + op.length)

section Refine

variable {env : FsEnv} {s : FsSys} {fp : ℕ} {a : ByteFile}

theorem byteFile_represents (h : Handle s fp) : Represents (byteFile s fp) s fp := by
  refine ⟨h, rfl, rfl, rfl, rfl, fun x v hx => ?_⟩
  simp only [byteFile, Option.ite_none_right_eq_some, Option.some.injEq] at hx
  exact ⟨hx.1.trans_le h.size_le, hx.2⟩

theorem Represents.read (he : Reliable env) (h : Represents a s fp) {len : ℕ}
    (hc : undisturbed env fp s (.read len)) : ∃ r t, fsRead env fp len s = some (r, t) ∧
      Agrees (a.read len).1 r ∧ Represents (a.read len).2 t fp := by
  rw [undisturbed, FileOp.length] at hc
  obtain ⟨h30, hroom, -⟩ := hc
  by_cases hend : (s.files fp).fSize < (s.files fp).fPos + len
  · refine ⟨_, s, fsRead_past_end h.handle h30 hend, ?_, ?_⟩
    · rw [ByteFile.read, if_pos (by rw [h.size, h.pos]; exact hend)]
      exact rfl
    · rw [ByteFile.read, if_pos (by rw [h.size, h.pos]; exact hend)]
      exact h
  · obtain ⟨t, h1, hadv, hbytes⟩ :=
      fsRead_spec he h.handle h30 (Nat.le_of_not_lt hend) hroom
    have hread : a.read len = (.ok ((List.range len).map fun k => a.bytes (a.pos + k)),
        { a with pos := a.pos + len }) := if_neg (by rw [h.size, h.pos]; exact hend)
    rw [hread]
    refine ⟨_, t, h1, ?_, ⟨hadv.handle, ?_, ?_, ?_, ?_, fun x v hx => ?_⟩⟩
    · rw [Agrees, getBytes, List.forall₂_map_left_iff, List.forall₂_map_right_iff,
        List.forall₂_same]
      intro k _ v hv
      rw [h.pos] at hv
      exact (h.bytes _ _ hv).2
    · exact h.size.trans hadv.fSize.symm
    · rw [hadv.fPos, ← h.pos]
    · exact h.blksize.trans hadv.blksize.symm
    · exact h.blocks.trans hadv.blocks.symm
    · obtain ⟨hlt, hv⟩ := h.bytes x v hx
      rw [hadv.blocks, hadv.blksize, hbytes x hlt]
      exact ⟨hlt, hv⟩

theorem Represents.write (he : Reliable env) (h : Represents a s fp) {buf : List ℕ}
    (hc : undisturbed env fp s (.write buf)) : ∃ t, fsWrite env fp buf s = some (.ok (), t) ∧
      Represents (a.write buf) t fp := by
  rw [undisturbed, FileOp.length] at hc
  obtain ⟨h30, hroom, hexp⟩ := hc
  obtain ⟨u, t, h1, hu, hadv, hbytes⟩ := fsWrite_spec he h.handle h30 hroom (hexp buf rfl)
  have hsize : max a.size (a.pos + buf.length) =
      max (s.files fp).fSize ((s.files fp).fPos + buf.length) := by rw [h.size, h.pos]
  have hfit : (s.files fp).fPos + buf.length ≤ fileBlocks u fp * fileBlksize u fp := by
    have := hu.handle.size_le
    rw [hu.fSize] at this
    omega
  refine ⟨t, h1, ⟨hadv.handle, ?_, ?_, ?_, ?_, fun x v hx => ?_⟩⟩
  · exact hsize.trans (hu.fSize.symm.trans hadv.fSize.symm)
  · rw [hadv.fPos, hu.fPos, ← h.pos]
    rfl
  · exact h.blksize.trans (hu.blksize.symm.trans hadv.blksize.symm)
  · rw [hadv.blocks, hu.blocks, ByteFile.write, hsize, h.blocks, h.blksize]
  · rw [hadv.blocks, hadv.blksize]
    simp only [ByteFile.write, h.pos] at hx
    split_ifs at hx with hin
    · have hlt := hin.2.trans_le hfit
      refine ⟨hlt, ?_⟩
      rw [hbytes x hlt, putBytes_mem hin, List.getD_eq_getElem?_getD, hx]
      rfl
    · obtain ⟨hlt, hv⟩ := h.bytes x v hx
      have hle : fileBlocks s fp * fileBlksize s fp ≤ fileBlocks u fp * fileBlksize u fp := by
        rw [hu.blocks, hu.blksize]
        exact Nat.mul_le_mul_right _ (le_max_left _ _)
      refine ⟨hlt.trans_le hle, ?_⟩
      rw [hbytes x (hlt.trans_le hle), putBytes_not_mem hin, hu.bytes x hlt]
      exact hv

theorem fileStep_simulates (he : Reliable env) (op : FileOp) (h : Represents a s fp)
    (hc : undisturbed env fp s op) : ∃ c b r t, a.step op = some (c, b) ∧
      fileStep env fp s op = some (r, t) ∧ Agrees c r ∧ Represents b t fp := by
  cases op with
  | read len =>
    obtain ⟨r, t, h1, h2, h3⟩ := h.read he hc
    exact ⟨_, _, r, t, rfl, h1, h2, h3⟩
  | write buf =>
    obtain ⟨t, h1, h2⟩ := h.write he hc
    exact ⟨_, _, .ok [], t, rfl, Prog.bind_ok h1, .nil, h2⟩

theorem fileRun_refines (he : Reliable env) (h : Handle s fp) {ops : List FileOp}
    (hc : OutputsMeet (fileStep env fp) (undisturbed env fp) s ops) :
    ∃ expected a results t, runOutputs ByteFile.step (byteFile s fp) ops = some (expected, a) ∧
      runOutputs (fileStep env fp) s ops = some (results, t) ∧
      List.Forall₂ Agrees expected results ∧ Represents a t fp :=
  runOutputs_simulates (fun _ _ op hr hc => fileStep_simulates he op hr hc)
    (byteFile_represents h) hc

end Refine

def smallFile : FsSys :=
  { blankSys with
    brk := 8
    maps := fun m => ⟨8 * m, none⟩
    inodes := fun _ => ⟨0, 0, 4096, 2, false, false, [], [1, 2], 0⟩
    files := fun _ => ⟨4096, 3, 4095, 4095, some 1, 0, 0, false⟩ }

theorem smallFile_handle : Handle smallFile 0 := by
  refine ⟨rfl, rfl, rfl, rfl, rfl, rfl, by decide, rfl, by decide, ⟨by decide, by decide, ?_, ?_⟩,
    ⟨0, 1, rfl, rfl, rfl⟩, by decide⟩
  · intro m _ r h
    cases h
  · intro m _ n _ p h
    cases h

theorem fileRun_refines_small : ∃ expected a results t,
    runOutputs ByteFile.step (byteFile smallFile 0) [.write [7, 8]] = some (expected, a) ∧
      runOutputs (fileStep soundEnv 0) smallFile [.write [7, 8]] = some (results, t) ∧
      List.Forall₂ Agrees expected results ∧ Represents a t 0 := by
  have hexp : expandSucceeds soundEnv smallFile 0 4097 := fun h => absurd h (by decide)
  have hc : undisturbed soundEnv 0 smallFile (.write [7, 8]) :=
    ⟨by decide, by rw [noEviction]; decide, fun _ _ => hexp⟩
  exact fileRun_refines soundEnv_reliable smallFile_handle ⟨hc, fun _ _ _ => trivial⟩

end OurOS.Fs
