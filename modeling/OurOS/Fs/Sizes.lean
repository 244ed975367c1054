import OurOS.Fs.PageFrame

namespace OurOS.Fs

structure SameSizes (s t : FsSys) : Prop where
  iSize : ∀ n, (t.inodes n).iSize = (s.inodes n).iSize
  dInode : ∀ d, (t.dentries d).dInode = (s.dentries d).dInode
  fSize : ∀ fp, (t.files fp).fSize = (s.files fp).fSize
  fDentry : ∀ fp, (t.files fp).fDentry = (s.files fp).fDentry

instance : Std.Refl SameSizes := ⟨fun _ => ⟨fun _ => rfl, fun _ => rfl, fun _ => rfl, fun _ => rfl⟩⟩

instance : IsTrans FsSys SameSizes where
  trans _ _ _ h₁ h₂ :=
    ⟨fun n => (h₂.iSize n).trans (h₁.iSize n), fun d => (h₂.dInode d).trans (h₁.dInode d),
      fun fp => (h₂.fSize fp).trans (h₁.fSize fp), fun fp => (h₂.fDentry fp).trans (h₁.fDentry fp)⟩

theorem SameObjects.sizes {s t : FsSys} (h : SameObjects s t) : SameSizes s t :=
  ⟨fun n => by rw [h.inodes], fun d => by rw [h.dentries], fun fp => by rw [h.files],
    fun fp => by rw [h.files]⟩

section Updates

theorem SameSizes.setInode (n : ℕ) {f : Inode → Inode} (s : FsSys)
    (hf : ∀ i, (f i).iSize = i.iSize := by intro; rfl) : SameSizes s (s.setInode n f) := by
  refine ⟨fun i => ?_, fun _ => rfl, fun _ => rfl, fun _ => rfl⟩
  by_cases e : i = n
  · subst e
    simp [FsSys.setInode, hf]
  · simp [FsSys.setInode, e]

theorem SameSizes.setFile (fp : ℕ) {f : File → File} (s : FsSys)
    (hf : ∀ x, (f x).fSize = x.fSize := by intro; rfl)
    (hd : ∀ x, (f x).fDentry = x.fDentry := by intro; rfl) : SameSizes s (s.setFile fp f) := by
  refine ⟨fun _ => rfl, fun _ => rfl, fun i => ?_, fun i => ?_⟩
  · by_cases e : i = fp
    · subst e
      simp [FsSys.setFile, hf]
    · simp [FsSys.setFile, e]
  · by_cases e : i = fp
    · subst e
      simp [FsSys.setFile, hd]
    · simp [FsSys.setFile, e]

end Updates

section Frame

theorem sizes_frame : FileFrame SameSizes where
  same _ _ := SameObjects.sizes
  paged _ _ _ _ _ := ⟨fun _ => rfl, fun _ => rfl, fun _ => rfl, fun _ => rfl⟩
  handle s fp _ hf := .setFile fp s (fun x => (hf x).2) fun x => (hf x).1
  block s node map b clu := by
    have h := SameSizes.setInode node (f := fun n =>
      { n with iBlocks := (n.iBlocks + 1) % uintRange, iDataMap := n.iDataMap ++ [map] })
      (s.setMap map fun _ => newMap b clu)
    exact ⟨h.iSize, h.dInode, h.fSize, h.fDentry⟩
  count s node g := by
    have h := SameSizes.setInode node (f := fun n => { n with iCount := g n.iCount }) s
    exact ⟨h.iSize, h.dInode, h.fSize, h.fDentry⟩

theorem fsSeek_sizes (fp : ℕ) (flag : SeekFlag) (offset : ℕ) :
    Prog.Keeps SameSizes (fsSeek fp flag offset) :=
  .bind .get fun _ => .modify fun s => .setFile fp s

end Frame

section Expand

variable {env : FsEnv}

def sizedTo (node fp size : ℕ) (s : FsSys) : FsSys :=
  (s.setInode node fun n => { n with iSize := size }).setFile fp fun f => { f with fSize := size }

theorem sizedTo_iSize (node fp size : ℕ) (s : FsSys) (n : ℕ) :
    ((sizedTo node fp size s).inodes n).iSize = if n = node then size else (s.inodes n).iSize := by
  by_cases e : n = node
  · subst e
    simp [sizedTo, FsSys.setInode, FsSys.setFile]
  · simp [sizedTo, FsSys.setInode, FsSys.setFile, e]

theorem sizedTo_file (node fp size : ℕ) (s : FsSys) (g : ℕ) :
    ((sizedTo node fp size s).files g).fSize =
        (if g = fp then size else (s.files g).fSize) ∧
      ((sizedTo node fp size s).files g).fDentry = (s.files g).fDentry := by
  by_cases e : g = fp
  · subst e
    simp [sizedTo, FsSys.setInode, FsSys.setFile]
  · simp [sizedTo, FsSys.setInode, FsSys.setFile, e]

theorem SameSizes.sizedTo {s t : FsSys} (h : SameSizes s t) (node fp size : ℕ) :
    SameSizes (sizedTo node fp size s) (sizedTo node fp size t) where
  iSize n := by rw [sizedTo_iSize, sizedTo_iSize, h.iSize]
  dInode d := h.dInode d
  fSize g := by rw [(sizedTo_file _ _ _ _ g).1, (sizedTo_file _ _ _ _ g).1, h.fSize]
  fDentry g := by rw [(sizedTo_file _ _ _ _ g).2, (sizedTo_file _ _ _ _ g).2, h.fDentry]

theorem fileExpandTo_sizes {s t : FsSys} {fp size : ℕ} (hsize : (s.files fp).fSize < size)
    (h : fileExpandTo env fp size s = some (.ok (), t)) :
    SameSizes (OurOS.Fs.sizedTo (fileInode s fp) fp size s) t := by
  rw [fileExpandTo, Prog.get_bind_run, if_neg hsize.not_ge] at h
  split_ifs at h
  · obtain ⟨_, u, h1, h⟩ := Prog.bind_ok_cases h
    cases h
    exact (sizes_frame.expandFat32 env _ _ _ _ _ h1).sizedTo _ _ _
  · cases h
    exact refl _

def writtenTo (s : FsSys) (fp size : ℕ) : FsSys :=
  if (s.files fp).fSize < size then sizedTo (fileInode s fp) fp size s else s

theorem fsWrite_sizes {s t : FsSys} {fp : ℕ} {buf : List ℕ}
    (h : fsWrite env fp buf s = some (.ok (), t)) :
    hasMode (s.files fp).fMode fModeWriteMask = true ∧
      SameSizes (writtenTo s fp (((s.files fp).fPos + buf.length) % uintRange)) t := by
  rcases fsWrite_inv h with ⟨-, hr, -⟩ | ⟨-, -, e, hr, -⟩ | ⟨u, hw, hr⟩
  · cases hr
  · cases hr
  · have hrest := sizes_frame.handles.writeRest env _ _ _ _ _ _ hr
    refine ⟨hw.mode, ?_⟩
    rcases hw.expand with ⟨hsize, hexp⟩ | ⟨hsize, rfl⟩
    · rw [writeEnd] at hsize hexp
      rw [writtenTo, if_pos hsize]
      exact IsTrans.trans _ _ _ (fileExpandTo_sizes hsize hexp) hrest
    · rw [writeEnd] at hsize
      rw [writtenTo, if_neg (Nat.not_lt.mpr hsize)]
      exact hrest

end Expand

end OurOS.Fs
