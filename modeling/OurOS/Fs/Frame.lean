import OurOS.Fs.Directory
import OurOS.Fs.FatSpec
import OurOS.Fs.Geometry

namespace OurOS.Fs

structure Clear (F : ℕ → Prop) (addr count : ℕ) : Prop where
  fits : addr + count ≤ uintRange
  apart : ∀ sec, addr ≤ sec → sec < addr + count → ¬ F sec

structure Apart (F : ℕ → Prop) (B : ℕ) (s : FsSys) : Prop where
  blksize : ∀ sb, (s.sbs sb).sBlocksize >>> sectorShift ≤ B
  clusters : ∀ sb c, Clear F (cluSec (s.sbs sb) c) B
  maps : ∀ m, Clear F (s.maps m).mapAddr B
  pages : ∀ p, Clear F (s.pages p).pSecAddr (s.pages p).pSecCnt

/-- What a function leaves alone in the objects of the state `s₀` before it. The nodes in `X` may get
other blocks, and only where `W` holds may the sectors in `F` be written. -/
structure Kept (F : ℕ → Prop) (B : ℕ) (X : ℕ → Prop) (W : Prop) (s₀ s : FsSys) : Prop where
  brk : s₀.brk ≤ s.brk
  sbs : ∀ sb, s.sbs sb = { s₀.sbs sb with infoNextClu := (s.sbs sb).infoNextClu }
  ino : ∀ i < s₀.brk, (s.inodes i).iIno = (s₀.inodes i).iIno
  iSb : ∀ i < s₀.brk, (s.inodes i).iSb = (s₀.inodes i).iSb
  live : ∀ i < s₀.brk, s.live i = true → s₀.live i = true
  blocks : ∀ i < s₀.brk, ¬ X i → (s.inodes i).iBlocks = (s₀.inodes i).iBlocks
  size : ∀ i < s₀.brk, ¬ X i → (s.inodes i).iSize = (s₀.inodes i).iSize
  dataMap : ∀ i < s₀.brk, ¬ X i → s.live i = true →
    (s.inodes i).iDataMap = (s₀.inodes i).iDataMap
  mapAddr : ∀ m < s₀.brk, (s.maps m).mapAddr = (s₀.maps m).mapAddr
  dInode : ∀ d < s₀.brk, (s.dentries d).dInode = (s₀.dentries d).dInode
  dSb : ∀ d < s₀.brk, (s.dentries d).dSb = (s₀.dentries d).dSb
  fDentry : ∀ f < s₀.brk, (s.files f).fDentry = (s₀.files f).fDentry
  apart : Apart F B s
  table : ¬ W → ∀ sec, F sec → s.sd.sector sec = s₀.sd.sector sec
  nextClu : ¬ W → s.sbs = s₀.sbs

variable {F : ℕ → Prop} {B : ℕ} {X : ℕ → Prop} {W : Prop} {s₀ s t u : FsSys}

theorem Clear.mono {addr count count' : ℕ} (h : Clear F addr count) (hle : count' ≤ count) :
    Clear F addr count' :=
  ⟨(Nat.add_le_add_left hle _).trans h.fits,
    fun sec h1 h2 => h.apart sec h1 (h2.trans_le (Nat.add_le_add_left hle _))⟩

theorem Clear.writeSectors {addr count : ℕ} (h : Clear F addr count) (sd : SdCard) (data : ℕ → ℕ)
    {n sec : ℕ} (hn : n ≤ count) (hf : F sec) : writeSectors sd addr data n sec = sd.sector sec := by
  have hfits := h.fits
  rw [writeSectors_apply (by omega), if_neg]
  exact fun ⟨h1, h2⟩ => h.apart sec h1 (by omega) hf

namespace Kept

theorem refl (h : Apart F B s) : Kept F B X W s s :=
  ⟨le_rfl, fun _ => rfl, fun _ _ => rfl, fun _ _ => rfl, fun _ _ h => h, fun _ _ _ => rfl,
    fun _ _ _ => rfl, fun _ _ _ _ => rfl, fun _ _ => rfl, fun _ _ => rfl, fun _ _ => rfl, fun _ _ => rfl, h,
    fun _ _ _ => rfl, fun _ => rfl⟩

theorem trans (h : Kept F B X W s t) (h' : Kept F B X W t u) : Kept F B X W s u where
  brk := h.brk.trans h'.brk
  sbs sb := by rw [h'.sbs, h.sbs]
  ino i hi := (h'.ino i (hi.trans_le h.brk)).trans (h.ino i hi)
  iSb i hi := (h'.iSb i (hi.trans_le h.brk)).trans (h.iSb i hi)
  live i hi hl := h.live i hi (h'.live i (hi.trans_le h.brk) hl)
  blocks i hi hx := (h'.blocks i (hi.trans_le h.brk) hx).trans (h.blocks i hi hx)
  size i hi hx := (h'.size i (hi.trans_le h.brk) hx).trans (h.size i hi hx)
  dataMap i hi hx hl := (h'.dataMap i (hi.trans_le h.brk) hx hl).trans
    (h.dataMap i hi hx (h'.live i (hi.trans_le h.brk) hl))
  mapAddr m hm := (h'.mapAddr m (hm.trans_le h.brk)).trans (h.mapAddr m hm)
  dInode d hd := (h'.dInode d (hd.trans_le h.brk)).trans (h.dInode d hd)
  dSb d hd := (h'.dSb d (hd.trans_le h.brk)).trans (h.dSb d hd)
  fDentry f hf := (h'.fDentry f (hf.trans_le h.brk)).trans (h.fDentry f hf)
  apart := h'.apart
  table hw sec hs := (h'.table hw sec hs).trans (h.table hw sec hs)
  nextClu hw := (h'.nextClu hw).trans (h.nextClu hw)

theorem mono {Y : ℕ → Prop} {V : Prop} (h : Kept F B X W s t) (hx : ∀ i, X i → Y i) (hw : W → V) :
    Kept F B Y V s t :=
  { h with
    blocks := fun i hi hn => h.blocks i hi fun e => hn (hx i e)
    size := fun i hi hn => h.size i hi fun e => hn (hx i e)
    dataMap := fun i hi hn => h.dataMap i hi fun e => hn (hx i e)
    table := fun hv => h.table fun e => hv (hw e)
    nextClu := fun hv => h.nextClu fun e => hv (hw e) }

theorem of_same (h : Kept F B X W s₀ s) (hs : SameObjects s t)
    (ht : ¬ W → ∀ sec, F sec → t.sd.sector sec = s.sd.sector sec) (hn : ¬ W → t.sbs = s.sbs) :
    Kept F B X W s₀ t where
  brk := h.brk.trans hs.brk
  sbs sb := by rw [hs.sbs, h.sbs]
  ino i hi := by rw [hs.inodes, h.ino i hi]
  iSb i hi := by rw [hs.inodes, h.iSb i hi]
  live i hi hl := h.live i hi (by rwa [hs.live i (hi.trans_le h.brk)] at hl)
  blocks i hi hx := by rw [hs.inodes, h.blocks i hi hx]
  size i hi hx := by rw [hs.inodes, h.size i hi hx]
  dataMap i hi hx hl := by
    rw [hs.live i (hi.trans_le h.brk)] at hl
    rw [hs.inodes, h.dataMap i hi hx hl]
  mapAddr m hm := by rw [hs.maps, h.mapAddr m hm]
  dInode d hd := by rw [hs.dentries, h.dInode d hd]
  dSb d hd := by rw [hs.dentries, h.dSb d hd]
  fDentry f hf := by rw [hs.files, h.fDentry f hf]
  apart := by
    refine ⟨fun sb => ?_, fun sb c => ?_, fun m => ?_, fun p => ?_⟩
    · rw [hs.sbs]
      exact h.apart.blksize sb
    · rw [hs.sbs]
      exact h.apart.clusters sb c
    · rw [hs.maps]
      exact h.apart.maps m
    · rw [hs.pages]
      exact h.apart.pages p
  table hw sec hf := (ht hw sec hf).trans (h.table hw sec hf)
  nextClu hw := (hn hw).trans (h.nextClu hw)

theorem setCaches (h : Kept F B X W s₀ s) (d i p : Fscache) :
    Kept F B X W s₀ { s with dCache := d, iCache := i, pCache := p } :=
  ⟨h.brk, h.sbs, h.ino, h.iSb, h.live, h.blocks, h.size, h.dataMap, h.mapAddr, h.dInode, h.dSb, h.fDentry,
    ⟨h.apart.blksize, h.apart.clusters, h.apart.maps, h.apart.pages⟩, h.table, h.nextClu⟩

theorem setDentry (h : Kept F B X W s₀ s) (d : ℕ) {f : Dentry → Dentry}
    (hi : d < s₀.brk → ∀ x, (f x).dInode = x.dInode) (hs : d < s₀.brk → ∀ x, (f x).dSb = x.dSb) :
    Kept F B X W s₀ (s.setDentry d f) :=
  { h with
    dInode := fun e he => by
      rw [← h.dInode e he, FsSys.setDentry]
      by_cases heq : e = d
      · subst heq
        simpa using hi he _
      · simp [heq]
    dSb := fun e he => by
      rw [← h.dSb e he, FsSys.setDentry]
      by_cases heq : e = d
      · subst heq
        simpa using hs he _
      · simp [heq]
    apart := ⟨h.apart.blksize, h.apart.clusters, h.apart.maps, h.apart.pages⟩ }

theorem setInode (h : Kept F B X W s₀ s) (i : ℕ) {f : Inode → Inode}
    (hi : i < s₀.brk → ∀ x, (f x).iIno = x.iIno ∧ (f x).iSb = x.iSb)
    (hb : i < s₀.brk → ¬ X i →
      ∀ x, (f x).iBlocks = x.iBlocks ∧ (f x).iSize = x.iSize ∧ (f x).iDataMap = x.iDataMap) :
    Kept F B X W s₀ (s.setInode i f) :=
  { h with
    ino := fun e he => by
      rw [← h.ino e he, FsSys.setInode]
      by_cases heq : e = i
      · subst heq
        simpa using (hi he _).1
      · simp [heq]
    iSb := fun e he => by
      rw [← h.iSb e he, FsSys.setInode]
      by_cases heq : e = i
      · subst heq
        simpa using (hi he _).2
      · simp [heq]
    blocks := fun e he hx => by
      rw [← h.blocks e he hx, FsSys.setInode]
      by_cases heq : e = i
      · subst heq
        simpa using (hb he hx _).1
      · simp [heq]
    size := fun e he hx => by
      rw [← h.size e he hx, FsSys.setInode]
      by_cases heq : e = i
      · subst heq
        simpa using (hb he hx _).2.1
      · simp [heq]
    dataMap := fun e he hx hl => by
      rw [← h.dataMap e he hx hl, FsSys.setInode]
      by_cases heq : e = i
      · subst heq
        simpa using (hb he hx _).2.2
      · simp [heq]
    apart := ⟨h.apart.blksize, h.apart.clusters, h.apart.maps, h.apart.pages⟩ }

theorem setMap (h : Kept F B X W s₀ s) (m : ℕ) {f : FsMap → FsMap}
    (hm : m < s₀.brk → ∀ x, (f x).mapAddr = x.mapAddr)
    (hc : Clear F (f (s.maps m)).mapAddr B) : Kept F B X W s₀ (s.setMap m f) :=
  { h with
    mapAddr := fun e he => by
      rw [← h.mapAddr e he, FsSys.setMap]
      by_cases heq : e = m
      · subst heq
        simpa using hm he _
      · simp [heq]
    apart := by
      refine ⟨h.apart.blksize, h.apart.clusters, fun e => ?_, h.apart.pages⟩
      by_cases heq : e = m
      · subst heq
        simpa [FsSys.setMap] using hc
      · simpa [FsSys.setMap, heq] using h.apart.maps e }

theorem setPage (h : Kept F B X W s₀ s) (p : ℕ) {f : FsPage → FsPage}
    (hc : Clear F (f (s.pages p)).pSecAddr (f (s.pages p)).pSecCnt) :
    Kept F B X W s₀ (s.setPage p f) :=
  { h with
    apart := by
      refine ⟨h.apart.blksize, h.apart.clusters, h.apart.maps, fun e => ?_⟩
      by_cases heq : e = p
      · subst heq
        simpa [FsSys.setPage] using hc
      · simpa [FsSys.setPage, heq] using h.apart.pages e }

theorem setFile (h : Kept F B X W s₀ s) (f : ℕ) {g : File → File}
    (hf : f < s₀.brk → ∀ x, (g x).fDentry = x.fDentry) : Kept F B X W s₀ (s.setFile f g) :=
  { h with
    fDentry := fun e he => by
      rw [← h.fDentry e he, FsSys.setFile]
      by_cases heq : e = f
      · subst heq
        simpa using hf he _
      · simp [heq]
    apart := ⟨h.apart.blksize, h.apart.clusters, h.apart.maps, h.apart.pages⟩ }

/-- An inode that is freed may have lost its list of blocks before. -/
theorem kfreeNode {node : ℕ} (h : Kept F B (fun i => X i ∨ i = node) W s₀ s)
    (hb : node < s₀.brk → ¬ X node → (s.inodes node).iBlocks = (s₀.inodes node).iBlocks ∧
      (s.inodes node).iSize = (s₀.inodes node).iSize) :
    Kept F B X W s₀ (s.kfree node) := by
  have hlive : ∀ i, (s.kfree node).live i = true → i ≠ node ∧ s.live i = true := by
    intro i hi
    by_cases e : i = node
    · simp [FsSys.kfree, e] at hi
    · exact ⟨e, by simpa [FsSys.kfree, e] using hi⟩
  exact { h with
    live := fun i hi hl => h.live i hi (hlive i hl).2
    blocks := fun i hi hx => by
      by_cases e : i = node
      · subst e
        exact (hb hi hx).1
      · exact h.blocks i hi (not_or.mpr ⟨hx, e⟩)
    size := fun i hi hx => by
      by_cases e : i = node
      · subst e
        exact (hb hi hx).2
      · exact h.size i hi (not_or.mpr ⟨hx, e⟩)
    dataMap := fun i hi hx hl => h.dataMap i hi (not_or.mpr ⟨hx, (hlive i hl).1⟩) (hlive i hl).2
    apart := ⟨h.apart.blksize, h.apart.clusters, h.apart.maps, h.apart.pages⟩ }

theorem kfree (h : Kept F B X W s₀ s) (p : ℕ) : Kept F B X W s₀ (s.kfree p) :=
  kfreeNode (h.mono (fun _ => .inl) id) fun hp hx => ⟨h.blocks p hp hx, h.size p hp hx⟩

end Kept

end OurOS.Fs
