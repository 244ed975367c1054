import OurOS.Fs.Tree

namespace OurOS.Fs

structure SoundLists (s : FsSys) : Prop where
  nodup : ∀ b, (s.dCache.hash b).Nodup
  dHash : ∀ d, InCache s.dCache d → d < s.brk
  iHash : ∀ n, InCache s.iCache n → n < s.brk
  subdirs : ∀ v, ∀ c ∈ (s.dentries v).dSubdirs, c < s.brk
  dLru : ∀ d ∈ s.dCache.lru, d < s.brk
  sRoot : ∀ sb, (s.sbs sb).sRoot < s.brk

structure NewDentry (p : ℕ) (V : List ℕ) (t : FsSys) (c : ℕ) : Prop where
  lt : c < t.brk
  parent : (t.dentries c).dParent = some p ∨ p ∈ V
  subdir : c ∈ (t.dentries p).dSubdirs
  node : InCache t.iCache (t.dentries c).dInode
  iDentry : c ∈ (t.inodes (t.dentries c).dInode).iDentry

/-- From `s` to `t` the dentries in `V` have been evicted, and the new ones are entries of `p`. -/
structure Evolved (p : ℕ) (V : List ℕ) (s t : FsSys) : Prop where
  brk : s.brk ≤ t.brk
  root : t.rootDentry = s.rootDentry
  sRoot : ∀ sb, (t.sbs sb).sRoot = (s.sbs sb).sRoot
  dentry : ∀ d < s.brk, (t.dentries d).dInode = (s.dentries d).dInode ∧
    (t.dentries d).dSb = (s.dentries d).dSb ∧ (t.dentries d).dPinned = (s.dentries d).dPinned
  inode : ∀ n < s.brk, (t.inodes n).iIno = (s.inodes n).iIno ∧
    (t.inodes n).iPinned = (s.inodes n).iPinned
  fDentry : ∀ f < s.brk, (t.files f).fDentry = (s.files f).fDentry
  parent : ∀ d < s.brk, (t.dentries d).dParent = (s.dentries d).dParent ∨
    ∃ v ∈ V, d ∈ (s.dentries v).dSubdirs
  subOld : ∀ v, ∀ c < s.brk, c ∈ (t.dentries v).dSubdirs → c ∈ (s.dentries v).dSubdirs
  subKept : ∀ v < s.brk, ∀ c ∈ (s.dentries v).dSubdirs, c ∉ V → c ∈ (t.dentries v).dSubdirs
  subNew : ∀ v, ∀ c ∈ (t.dentries v).dSubdirs, s.brk ≤ c → v = p
  iOld : ∀ n, ∀ d ∈ (t.inodes n).iDentry, d ∈ (s.inodes n).iDentry ∨
    s.brk ≤ d ∧ d < t.brk ∧ (t.dentries d).dInode = n
  iKept : ∀ n < s.brk, ∀ d ∈ (s.inodes n).iDentry, d ∉ V → d ∈ (t.inodes n).iDentry
  node : ∀ n, InCache s.iCache n → InCache t.iCache n ∨ ∀ d ∈ (s.inodes n).iDentry, d ∈ V
  old : ∀ d < s.brk, InCache t.dCache d → InCache s.dCache d
  gone : ∀ v ∈ V, v < s.brk → ¬ InCache t.dCache v
  kept : ∀ d, InCache s.dCache d → d ∉ V → InCache t.dCache d
  new : ∀ c, s.brk ≤ c → InCache t.dCache c → NewDentry p V t c

/-- Where `entry` is not pinned, or an inode that is not pinned lists it. -/
def Unpinned (s : FsSys) (entry : ℕ) : Prop := entry < s.brk → (s.dentries entry).dPinned = false ∨
  ∃ n, entry ∈ (s.inodes n).iDentry ∧ (n < s.brk → (s.inodes n).iPinned = false)

variable {p : ℕ} {V W : List ℕ} {s t u : FsSys}

theorem Evolved.trans (hs : SoundLists s) (ht : SoundLists t) (hp : p < t.brk)
    (h : Evolved p V s t) (h' : Evolved p W t u) : Evolved p (V ++ W) s u where
  brk := h.brk.trans h'.brk
  root := h'.root.trans h.root
  sRoot sb := (h'.sRoot sb).trans (h.sRoot sb)
  dentry d hd := by
    obtain ⟨h1, h2, h3⟩ := h.dentry d hd
    obtain ⟨h4, h5, h6⟩ := h'.dentry d (hd.trans_le h.brk)
    exact ⟨h4.trans h1, h5.trans h2, h6.trans h3⟩
  inode n hn := by
    obtain ⟨h1, h2⟩ := h.inode n hn
    obtain ⟨h3, h4⟩ := h'.inode n (hn.trans_le h.brk)
    exact ⟨h3.trans h1, h4.trans h2⟩
  fDentry f hf := (h'.fDentry f (hf.trans_le h.brk)).trans (h.fDentry f hf)
  parent d hd := by
    rcases h'.parent d (hd.trans_le h.brk) with h2 | ⟨v, hv, hmem⟩
    · rcases h.parent d hd with h1 | ⟨v, hv, hmem⟩
      · exact .inl (h2.trans h1)
      · exact .inr ⟨v, List.mem_append_left _ hv, hmem⟩
    · exact .inr ⟨v, List.mem_append_right _ hv, h.subOld v d hd hmem⟩
  subOld v c hc hm := h.subOld v c hc (h'.subOld v c (hc.trans_le h.brk) hm)
  subKept v hv c hc hn :=
    h'.subKept v (hv.trans_le h.brk) c
      (h.subKept v hv c hc fun hm => hn (List.mem_append_left _ hm))
      fun hm => hn (List.mem_append_right _ hm)
  subNew v c hc hlo := by
    rcases lt_or_ge c t.brk with hlt | hge
    · exact h.subNew v c (h'.subOld v c hlt hc) hlo
    · exact h'.subNew v c hc hge
  iOld n d hd := by
    rcases h'.iOld n d hd with hd | ⟨h1, h2⟩
    · rcases h.iOld n d hd with hd | ⟨h1, h2, h3⟩
      · exact .inl hd
      · exact .inr ⟨h1, h2.trans_le h'.brk, (h'.dentry d h2).1.trans h3⟩
    · exact .inr ⟨h.brk.trans h1, h2⟩
  iKept n hn d hd hv :=
    h'.iKept n (hn.trans_le h.brk) d
      (h.iKept n hn d hd fun hm => hv (List.mem_append_left _ hm))
      fun hm => hv (List.mem_append_right _ hm)
  node n hn := by
    rcases h.node n hn with h1 | h1
    · rcases h'.node n h1 with h2 | h2
      · exact .inl h2
      · refine .inr fun d hd => ?_
        by_cases hv : d ∈ V
        · exact List.mem_append_left _ hv
        · exact List.mem_append_right _ (h2 d (h.iKept n (hs.iHash n hn) d hd hv))
    · exact .inr fun d hd => List.mem_append_left _ (h1 d hd)
  old d hd hc := h.old d hd (h'.old d (hd.trans_le h.brk) hc)
  gone v hv hlt hc := by
    rcases List.mem_append.mp hv with hv | hv
    · exact h.gone v hv hlt (h'.old v (hlt.trans_le h.brk) hc)
    · exact h'.gone v hv (hlt.trans_le h.brk) hc
  kept d hd hv :=
    h'.kept d (h.kept d hd fun hm => hv (List.mem_append_left _ hm))
      fun hm => hv (List.mem_append_right _ hm)
  new c hlo hc := by
    rcases lt_or_ge c t.brk with hlt | hge
    · have hnew := h.new c hlo (h'.old c hlt hc)
      have hnot : c ∉ W := fun hm => h'.gone c hm hlt hc
      have hnode := (h'.dentry c hlt).1
      refine ⟨hlt.trans_le h'.brk, ?_, ?_, ?_, ?_⟩
      · rcases h'.parent c hlt with h1 | ⟨v, hv, hmem⟩
        · rcases hnew.parent with h2 | h2
          · exact .inl (h1.trans h2)
          · exact .inr (List.mem_append_left _ h2)
        · rw [h.subNew v c hmem hlo] at hv
          exact .inr (List.mem_append_right _ hv)
      · exact h'.subKept p hp c hnew.subdir hnot
      · rw [hnode]
        exact (h'.node _ hnew.node).resolve_right fun hall => hnot (hall c hnew.iDentry)
      · rw [hnode]
        exact h'.iKept _ (ht.iHash _ hnew.node) c hnew.iDentry hnot
    · have hnew := h'.new c hge hc
      exact ⟨hnew.lt, hnew.parent.imp_right (List.mem_append_right _), hnew.subdir, hnew.node,
        hnew.iDentry⟩

theorem Evolved.unpinned (h : Evolved p V s t) {v : ℕ} (hv : Unpinned t v) : Unpinned s v := by
  intro hlt
  rcases hv (hlt.trans_le h.brk) with h1 | ⟨n, hn, hpin⟩
  · exact .inl ((h.dentry v hlt).2.2.symm.trans h1)
  · rcases h.iOld n v hn with hn | ⟨h1, -⟩
    · exact .inr ⟨n, hn, fun hlt' => (h.inode n hlt').2.symm.trans (hpin (hlt'.trans_le h.brk))⟩
    · exact absurd hlt h1.not_gt

def Evolves (p : ℕ) (s t : FsSys) : Prop :=
  p < s.brk → SoundLists s → SoundLists t ∧ ∃ V, Evolved p V s t ∧ ∀ v ∈ V, Unpinned s v

theorem SameTree.sound (h : SameTree s t) (hs : SoundLists s) : SoundLists t := by
  refine ⟨fun b => by rw [h.dHash]; exact hs.nodup b, fun d ⟨b, hd⟩ => ?_, fun n ⟨b, hn⟩ => ?_,
    fun v c hc => ?_, h.dLru hs.dLru, fun sb => ?_⟩
  · rw [h.dHash] at hd
    exact (hs.dHash d ⟨b, hd⟩).trans_le h.brk
  · rw [h.iHash] at hn
    exact (hs.iHash n ⟨b, hn⟩).trans_le h.brk
  · rw [h.dentry] at hc
    exact (hs.subdirs v c hc).trans_le h.brk
  · rw [h.sRoot]
    exact (hs.sRoot sb).trans_le h.brk

theorem SameTree.evolved (h : SameTree s t) (hs : SoundLists s) (p : ℕ) : Evolved p [] s t := by
  have hd : ∀ x, InCache t.dCache x ↔ InCache s.dCache x := fun x => by rw [InCache, InCache, h.dHash]
  have hi : ∀ x, InCache t.iCache x ↔ InCache s.iCache x := fun x => by rw [InCache, InCache, h.iHash]
  refine ⟨h.brk, h.root, h.sRoot, fun d _ => ?_, fun n _ => ⟨h.iIno n, h.iPinned n⟩, h.fDentry,
    fun d _ => .inl ?_, fun v c _ hc => ?_, fun v _ c hc _ => ?_, fun v c hc hlo => ?_,
    fun n d hd => .inl ?_, fun n _ d hd _ => ?_, fun n hn => .inl ((hi n).mpr hn),
    fun d _ hc => (hd d).mp hc, fun v hv => absurd hv List.not_mem_nil,
    fun d hc _ => (hd d).mpr hc, fun c hlo hc => ?_⟩
  · rw [h.dentry]
    exact ⟨rfl, rfl, rfl⟩
  · rw [h.dentry]
  · rw [h.dentry] at hc
    exact hc
  · rw [h.dentry]
    exact hc
  · rw [h.dentry] at hc
    exact absurd (hs.subdirs v c hc) hlo.not_gt
  · rwa [h.iDentry] at hd
  · rwa [h.iDentry]
  · exact absurd (hs.dHash c ((hd c).mp hc)) hlo.not_gt

theorem SameTree.evolves (h : SameTree s t) (p : ℕ) : Evolves p s t := fun _ hs =>
  ⟨h.sound hs, [], h.evolved hs p, fun _ hv => absurd hv List.not_mem_nil⟩

instance : Std.Refl (Evolves p) := ⟨fun s => (refl s : SameTree s s).evolves p⟩

instance : IsTrans FsSys (Evolves p) where
  trans _ _ _ h h' hp hs := by
    obtain ⟨ht, V, hv, hpin⟩ := h hp hs
    have hp' := hp.trans_le hv.brk
    obtain ⟨hu, W, hw, hpin'⟩ := h' hp' ht
    refine ⟨hu, V ++ W, hv.trans hs ht hp' hw, fun v hm => ?_⟩
    rcases List.mem_append.mp hm with hm | hm
    · exact hpin v hm
    · exact hv.unpinned (hpin' v hm)

section Free

theorem mem_erase_hash {c : Fscache} {x y : ℕ} (h : InCache (c.unlink x) y) : InCache c y :=
  h.imp fun _ hb => List.mem_of_mem_erase hb

theorem freeDentry_brk (entry : ℕ) (s : FsSys) : (freeDentry entry s).brk = s.brk :=
  (freeDentry_kept entry s).brk

theorem freeDentry_dHash (entry : ℕ) (s : FsSys) (b : ℕ) :
    (freeDentry entry s).dCache.hash b = (s.dCache.hash b).erase entry := by
  rw [freeDentry]
  cases (s.dentries entry).dParent <;> rfl

theorem freeDentry_rest (entry : ℕ) (s : FsSys) :
    (freeDentry entry s).rootDentry = s.rootDentry ∧ (freeDentry entry s).sbs = s.sbs ∧
      (freeDentry entry s).files = s.files ∧ (freeDentry entry s).iCache = s.iCache := by
  rw [freeDentry]
  cases (s.dentries entry).dParent <;> exact ⟨rfl, rfl, rfl, rfl⟩

theorem freeDentry_dParent (entry : ℕ) (s : FsSys) (d : ℕ) :
    ((freeDentry entry s).dentries d).dParent = (s.dentries d).dParent ∨
      d ∈ (s.dentries entry).dSubdirs := by
  by_cases hd : d ∈ (s.dentries entry).dSubdirs
  · exact .inr hd
  refine .inl ?_
  rw [freeDentry]
  cases (s.dentries entry).dParent with
  | none => simp [FsSys.kfree, FsSys.setInode, hd]
  | some q =>
    by_cases e : d = q
    · subst e
      simp [FsSys.kfree, FsSys.setInode, FsSys.setDentry, hd]
    · simp [FsSys.kfree, FsSys.setInode, FsSys.setDentry, hd, e]

theorem freeDentry_dSubdirs (entry : ℕ) (s : FsSys) (d : ℕ) :
    ((freeDentry entry s).dentries d).dSubdirs = (s.dentries d).dSubdirs ∨
      ((freeDentry entry s).dentries d).dSubdirs = (s.dentries d).dSubdirs.erase entry := by
  rw [freeDentry]
  cases (s.dentries entry).dParent with
  | none =>
    refine .inl ?_
    simp only [FsSys.kfree, FsSys.setInode]
    split_ifs <;> rfl
  | some q =>
    by_cases e : d = q
    · subst e
      refine .inr ?_
      simp only [FsSys.kfree, FsSys.setInode, FsSys.setDentry]
      split_ifs <;> simp
    · refine .inl ?_
      simp only [FsSys.kfree, FsSys.setInode, FsSys.setDentry, Function.update_of_ne e]
      split_ifs <;> rfl

theorem freeDentry_sound (entry : ℕ) (hs : SoundLists s) : SoundLists (freeDentry entry s) := by
  obtain ⟨-, hsbs, -, hi⟩ := freeDentry_rest entry s
  refine ⟨fun b => ?_, fun d ⟨b, hd⟩ => ?_, fun n hn => ?_, fun v c hc => ?_, fun d hd => ?_,
    fun sb => ?_⟩
  · rw [freeDentry_dHash]
    exact (hs.nodup b).erase _
  · rw [freeDentry_dHash] at hd
    rw [freeDentry_brk]
    exact hs.dHash d ⟨b, List.mem_of_mem_erase hd⟩
  · rw [freeDentry_brk]
    rw [hi] at hn
    exact hs.iHash n hn
  · rw [freeDentry_brk]
    rcases freeDentry_dSubdirs entry s v with h | h <;> rw [h] at hc
    · exact hs.subdirs v c hc
    · exact hs.subdirs v c (List.mem_of_mem_erase hc)
  · rw [freeDentry_brk]
    exact hs.dLru d ((freeDentry_kept entry s).dLru d hd)
  · rw [freeDentry_brk, hsbs]
    exact hs.sRoot sb

theorem freeDentry_evolved (entry : ℕ) (hs : SoundLists s) (p : ℕ) :
    Evolved p [entry] s (freeDentry entry s) := by
  obtain ⟨hroot, hsbs, hfiles, hi⟩ := freeDentry_rest entry s
  have hkept := freeDentry_kept entry s
  have hsub := freeDentry_dSubdirs entry s
  refine ⟨(freeDentry_brk entry s).ge, hroot, fun sb => by rw [hsbs], fun d _ => ?_, fun n _ => ?_,
    fun f _ => by rw [hfiles], fun d _ => ?_, fun v c _ hc => ?_, fun v _ c hc hn => ?_,
    fun v c hc hlo => ?_, fun n d hd => .inl (hkept.iDentry n d hd), fun n _ d hd hn => ?_,
    fun n hn => .inl (hi ▸ hn), fun d _ ⟨b, hc⟩ => ?_, fun v hv _ ⟨b, hc⟩ => ?_,
    fun d ⟨b, hc⟩ hn => ⟨b, ?_⟩, fun c hlo hc => ?_⟩
  · rw [hkept.dentry]
    exact ⟨rfl, rfl, rfl⟩
  · rw [hkept.inode]
    exact ⟨rfl, rfl⟩
  · rcases freeDentry_dParent entry s d with h | h
    · exact .inl h
    · exact .inr ⟨entry, List.mem_singleton_self _, h⟩
  · rcases hsub v with h | h <;> rw [h] at hc
    · exact hc
    · exact List.mem_of_mem_erase hc
  · rcases hsub v with h | h <;> rw [h]
    · exact hc
    · exact (List.mem_erase_of_ne fun e => hn (List.mem_singleton.mpr e)).mpr hc
  · refine absurd (hs.subdirs v c ?_) hlo.not_gt
    rcases hsub v with h | h <;> rw [h] at hc
    · exact hc
    · exact List.mem_of_mem_erase hc
  · rw [freeDentry_iDentry]
    split_ifs
    · exact (List.mem_erase_of_ne fun e => hn (List.mem_singleton.mpr e)).mpr hd
    · exact hd
  · rw [freeDentry_dHash] at hc
    exact ⟨b, List.mem_of_mem_erase hc⟩
  · obtain rfl := List.mem_singleton.mp hv
    rw [freeDentry_dHash] at hc
    exact (hs.nodup b).not_mem_erase hc
  · rw [freeDentry_dHash]
    exact (List.mem_erase_of_ne fun e => hn (List.mem_singleton.mpr e)).mpr hc
  · exact absurd ((freeDentry_brk entry s) ▸ (freeDentry_sound entry hs).dHash c hc) hlo.not_gt

theorem freeDentries_evolved (entries : List ℕ) (hs : SoundLists s) (hp : p < s.brk) :
    SoundLists (entries.foldl (fun s entry => freeDentry entry s) s) ∧
      Evolved p entries s (entries.foldl (fun s entry => freeDentry entry s) s) := by
  induction entries generalizing s with
  | nil => exact ⟨hs, (refl s : SameTree s s).evolved hs p⟩
  | cons entry entries ih =>
    have hstep := freeDentry_evolved entry hs p
    have hsound := freeDentry_sound entry hs
    have hp' := hp.trans_le hstep.brk
    obtain ⟨h1, h2⟩ := ih hsound hp'
    exact ⟨h1, hstep.trans hs hsound hp' h2⟩

theorem shrinkD_tree (s : FsSys) : SameTree s (shrinkD s) :=
  ⟨le_rfl, rfl, fun _ => rfl, fun _ => rfl, fun _ => rfl, fun _ => rfl, fun _ => rfl,
    fun _ _ => rfl, rfl, rfl, fun h => h⟩

theorem shrinkI_tree (s : FsSys) : SameTree s (shrinkI s) :=
  ⟨le_rfl, rfl, fun _ => rfl, fun _ => rfl, fun _ => rfl, fun _ => rfl, fun _ => rfl,
    fun _ _ => rfl, rfl, rfl, fun h => h⟩

theorem dVictims_unpinned {v : ℕ} (h : v ∈ dVictims s) : (s.dentries v).dPinned = false :=
  @not_pinned_of_mem_victims _ (fun d => (s.dentries d).dPinned) _ _ _ h

theorem iVictims_unpinned {n : ℕ} (h : n ∈ iVictims s) : (s.inodes n).iPinned = false :=
  @not_pinned_of_mem_victims _ (fun n => (s.inodes n).iPinned) _ _ _ h

theorem flushDCache_evolved {r : Except ℕ Bool} (hs : SoundLists s) (hp : p < s.brk)
    (h : flushDCache s = some (r, t)) : SoundLists t ∧ Evolved p (dVictims s) s t := by
  have hfold : ∀ (vs : List ℕ) (s : FsSys), SoundLists s → p < s.brk →
      SoundLists (vs.foldl (fun s d => shrinkD (freeDentry d s)) s) ∧
        Evolved p vs s (vs.foldl (fun s d => shrinkD (freeDentry d s)) s) := by
    intro vs
    induction vs with
    | nil => exact fun s hs _ => ⟨hs, (refl s : SameTree s s).evolved hs p⟩
    | cons v vs ih =>
      intro s hs hp
      have hfree := freeDentry_evolved v hs p
      have hsound := freeDentry_sound v hs
      have hp' := hp.trans_le hfree.brk
      have hshrink := shrinkD_tree (freeDentry v s)
      obtain ⟨h1, h2⟩ := ih (shrinkD (freeDentry v s)) (hshrink.sound hsound) hp'
      have hrest := (hshrink.evolved hsound p).trans hsound (hshrink.sound hsound) hp' h2
      exact ⟨h1, hfree.trans hs hsound hp' hrest⟩
  rw [flushDCache_run] at h
  cases h
  exact hfold (dVictims s) s hs hp

theorem flushDCache_evolves (p : ℕ) : Prog.Keeps (Evolves p) flushDCache := fun s _ _ h hp hs => by
  obtain ⟨h1, h2⟩ := flushDCache_evolved hs hp h
  exact ⟨h1, dVictims s, h2, fun v hv _ => .inl (dVictims_unpinned hv)⟩

theorem freeMap_tree (map : ℕ) : Prog.Keeps SameTree (freeMap map) := by
  refine .bind .get fun s => ?_
  split
  · exact SameTree.frame.modify
  · exact .bind SameTree.frame.modify fun _ => SameTree.frame.modify
  · exact .bind .stuck fun _ => SameTree.frame.modify

theorem freeInode_evolved {node : ℕ} {r : Except ℕ Unit} (hs : SoundLists s) (hp : p < s.brk)
    (h : freeInode node s = some (r, t)) :
    SoundLists t ∧ Evolved p (s.inodes node).iDentry s t := by
  rw [freeInode, Prog.get_bind_run, Prog.modify_bind_run, Prog.modify_bind_run,
    Prog.modify_bind_run] at h
  set s1 : FsSys := { s with iCache := s.iCache.unlink node } with hs1
  have hsound1 : SoundLists s1 :=
    ⟨hs.nodup, hs.dHash, fun n hn => hs.iHash n (mem_erase_hash hn), hs.subdirs, hs.dLru, hs.sRoot⟩
  obtain ⟨hsound2, hev⟩ := freeDentries_evolved (p := p) (s.inodes node).iDentry hsound1 hp
  set s2 := (s.inodes node).iDentry.foldl (fun s entry => freeDentry entry s) s1
  have htree : SameTree s2 t := by
    have hkeeps : Prog.Keeps SameTree (do
        Prog.forEach freeMap (s.inodes node).iDataMap
        Prog.modify (·.kfree node) : FsProg Unit) :=
      .bind (.forEach freeMap_tree _) fun _ => SameTree.frame.modify
    exact IsTrans.trans _ _ _ (.setInode node _ s2) (hkeeps _ _ _ h)
  have hall := hev.trans hsound1 hsound2 (hp.trans_le hev.brk) (htree.evolved hsound2 p)
  rw [List.append_nil] at hall
  refine ⟨htree.sound hsound2, { hall with node := fun n hn => ?_ }⟩
  by_cases e : n = node
  · subst e
    exact .inr fun d hd => hd
  · exact hall.node n (hn.imp fun b hb => (List.mem_erase_of_ne e).mpr hb)

theorem flushICache_evolves (p : ℕ) : Prog.Keeps (Evolves p) flushICache := by
  have hfold : ∀ (ns : List ℕ) (s t : FsSys) (r : Except ℕ Unit), SoundLists s → p < s.brk →
      Prog.forEach (fun n => do
        freeInode n
        Prog.modify shrinkI : ℕ → FsProg Unit) ns s = some (r, t) →
      SoundLists t ∧ ∃ V, Evolved p V s t ∧ ∀ v ∈ V, ∃ n ∈ ns, v < s.brk → v ∈ (s.inodes n).iDentry := by
    intro ns
    induction ns with
    | nil =>
      intro s t r hs _ h
      cases h
      exact ⟨hs, [], (refl s : SameTree s s).evolved hs p, fun v hv => absurd hv List.not_mem_nil⟩
    | cons n ns ih =>
      intro s t r hs hp h
      rw [Prog.forEach, bind_assoc] at h
      rcases Prog.bind_cases h with ⟨_, u, h1, h2⟩ | ⟨e, h1, -⟩
      · obtain ⟨hu, hev⟩ := freeInode_evolved hs hp h1
        have hp' := hp.trans_le hev.brk
        have hshrink := shrinkI_tree u
        rw [Prog.modify_bind_run] at h2
        obtain ⟨ht, V, hV, hmem⟩ := ih (shrinkI u) t r (hshrink.sound hu) hp' h2
        have hrest := (hshrink.evolved hu p).trans hu (hshrink.sound hu) hp' hV
        refine ⟨ht, _, hev.trans hs hu hp' hrest, fun v hv => ?_⟩
        rcases List.mem_append.mp hv with hv | hv
        · exact ⟨n, List.mem_cons_self, fun _ => hv⟩
        · obtain ⟨m, hm, hin⟩ := hmem v hv
          refine ⟨m, List.mem_cons_of_mem _ hm, fun hlt => ?_⟩
          rcases hev.iOld m v (hin (hlt.trans_le hev.brk)) with hold | ⟨hlo, -⟩
          · exact hold
          · exact absurd hlt hlo.not_gt
      · obtain ⟨h1, -⟩ := freeInode_spec h1
        cases h1
  intro s r t h hp hs
  rw [flushICache_eq] at h
  rcases Prog.bind_cases h with ⟨_, u, h1, h2⟩ | ⟨e, h1, -⟩
  · cases h2
    obtain ⟨h3, V, h4, h5⟩ := hfold _ s _ _ hs hp h1
    refine ⟨h3, V, h4, fun v hv hlt => .inr ?_⟩
    obtain ⟨n, hn, hin⟩ := h5 v hv
    exact ⟨n, hin hlt, fun _ => iVictims_unpinned hn⟩
  · obtain ⟨h1, -⟩ := freeInodes_spec h1
    cases h1

end Free

section Insert

variable {env : FsEnv} {sb node : ℕ} {name : List ℕ}

theorem inCache_add (c : Fscache) (b x y : ℕ) : InCache (c.add b x) y ↔ y = x ∨ InCache c y := by
  constructor
  · rintro ⟨i, hm⟩
    change y ∈ Function.update c.hash _ _ i at hm
    by_cases e : i = b
    · subst e
      rw [Function.update_self] at hm
      exact (List.mem_cons.mp hm).imp_right fun hm => ⟨i, hm⟩
    · rw [Function.update_of_ne e] at hm
      exact .inr ⟨i, hm⟩
  · rintro (rfl | ⟨i, hm⟩)
    · refine ⟨b, ?_⟩
      change _ ∈ Function.update c.hash _ _ b
      rw [Function.update_self]
      exact List.mem_cons_self
    · refine ⟨i, ?_⟩
      change _ ∈ Function.update c.hash _ _ i
      by_cases e : i = b
      · subst e
        rw [Function.update_self]
        exact List.mem_cons_of_mem _ hm
      · rwa [Function.update_of_ne e]

theorem enteredI_evolves {u : FsSys} (hn : node < u.brk) : Evolves p u (enteredI node u) := by
  intro _ hs
  have hrefl := (refl u : SameTree u u).evolved hs p
  refine ⟨⟨hs.nodup, hs.dHash, fun n hm => ?_, hs.subdirs, hs.dLru, hs.sRoot⟩, [],
    { hrefl with node := fun n hm => .inl ((inCache_add _ _ _ _).mpr (.inr hm)), new := ?_ },
    fun v hv => absurd hv List.not_mem_nil⟩
  · rcases (inCache_add _ _ _ _).mp hm with rfl | hm
    · exact hn
    · exact hs.iHash n hm
  · exact fun c hlo hc => absurd (hs.dHash c hc) hlo.not_gt

theorem addToICache_evolves {r : Except ℕ Bool} (hn : node < s.brk)
    (h : addToICache node s = some (r, t)) :
    Evolves p s t ∧ (r = .ok true → InCache t.iCache node) := by
  rw [addToICache, Prog.get_bind_run] at h
  have hend : ∀ (u : FsSys) (room : Bool), node < u.brk → (do
      if room then
        Prog.modify fun s => { s with iCache := s.iCache.add (hashInt (s.inodes node).iIno) node }
      pure room : FsProg Bool) u = some (r, t) →
        Evolves p u t ∧ (r = .ok true → InCache t.iCache node) := by
    intro u room hu h
    cases room with
    | false =>
      cases h
      exact ⟨refl _, fun h => by cases h⟩
    | true =>
      cases h
      exact ⟨enteredI_evolves hu, fun _ => (inCache_add _ _ _ _).mpr (.inl rfl)⟩
  split_ifs at h with hfull
  · rcases Prog.bind_cases h with ⟨room, u, h1, h2⟩ | ⟨e, h1, -⟩
    · obtain ⟨-, hk, -⟩ := flushICache_spec h1
      obtain ⟨h3, h4⟩ := hend u room (hk.brk ▸ hn) h2
      exact ⟨IsTrans.trans _ _ _ (flushICache_evolves p _ _ _ h1) h3, h4⟩
    · obtain ⟨h1, -⟩ := flushICache_spec h1
      cases h1
  · exact hend s true hn h

theorem begun_evolves (clu size : ℕ) (isdir : Bool) : Evolves p s (begun sb clu size isdir s) := by
  intro _ hs
  have htree : SameTree s (grabbed s) := .of_same (grabbed_same s)
  have hgrab := htree.evolved hs p
  have hsound := htree.sound hs
  have hinode := @begun_inodes s sb clu size isdir
  refine ⟨⟨hsound.nodup, hsound.dHash, hsound.iHash, hsound.subdirs, hsound.dLru, hsound.sRoot⟩, [],
    { hgrab with inode := fun n hn => ?_, iOld := fun n d hd => .inl ?_, iKept := fun n hn d hd _ => ?_,
                 new := fun c hlo hc => absurd (hs.dHash c hc) hlo.not_gt },
    fun v hv => absurd hv List.not_mem_nil⟩
  · rw [hinode, if_neg hn.ne]
    exact ⟨rfl, rfl⟩
  · rw [hinode] at hd
    split_ifs at hd
    · exact absurd hd List.not_mem_nil
    · exact hd
  · rw [hinode, if_neg hn.ne]
    exact hd

theorem skipped_tree (s : FsSys) : SameTree s { s with brk := s.brk + 1 } :=
  ⟨Nat.le_succ _, rfl, fun _ => rfl, fun _ => rfl, fun _ => rfl, fun _ => rfl, fun _ => rfl,
    fun _ _ => rfl, rfl, rfl, fun h d hd => Nat.lt_succ_of_lt (h d hd)⟩

theorem allocInodeFat32_evolves {clu size : ℕ} {isdir : Bool} {r : Except ℕ ℕ}
    (h : allocInodeFat32 env sb clu size isdir s = some (r, t)) :
    Evolves p s t ∧ ∀ node, r = .ok node → InCache t.iCache node := by
  cases hk : env.kmallocFails s.brk with
  | true =>
    rw [allocInodeFat32_noMemory hk] at h
    cases h
    exact ⟨(skipped_tree s).evolves p, fun node hr => by cases hr⟩
  | false =>
    rw [allocInodeFat32_eq hk] at h
    have hbegun : Evolves p s (begun sb clu size isdir s) := begun_evolves clu size isdir
    rcases Prog.bind_cases h with ⟨_, v, h1, h2⟩ | ⟨e, h1, rfl⟩
    · have hbuild := (SameTree.frame.buildDataMap env _ _ _ _ _ _ _ h1)
      have hlt : s.brk < v.brk := (Nat.lt_succ_self _).trans_le hbuild.brk
      have hv := IsTrans.trans _ _ _ hbegun (hbuild.evolves p)
      rcases Prog.bind_cases h2 with ⟨room, w, h3, h4⟩ | ⟨e, h3, rfl⟩
      · obtain ⟨h5, h6⟩ := addToICache_evolves (p := p) hlt h3
        have hw := IsTrans.trans _ _ _ hv h5
        cases room with
        | false =>
          cases h4
          exact ⟨hw, fun node hr => by cases hr⟩
        | true =>
          cases h4
          refine ⟨hw, fun node hr => ?_⟩
          cases hr
          exact h6 rfl
      · exact ⟨IsTrans.trans _ _ _ hv (addToICache_evolves hlt h3).1, fun node hr => by cases hr⟩
    · exact ⟨IsTrans.trans _ _ _ hbegun ((SameTree.frame.buildDataMap env _ _ _ _ _ _ _ h1).evolves p),
        fun node hr => by cases hr⟩

theorem linked_dSubdirs (hp : p < s.brk) (d : ℕ) :
    ((linked sb node (some p) name s).dentries d).dSubdirs =
      if d = s.brk then [] else if d = p then s.brk :: (s.dentries p).dSubdirs
        else (s.dentries d).dSubdirs := by
  have hlink : (linked sb node (some p) name s).dentries = (((grabbed s).setDentry s.brk fun _ =>
      newDentry sb node s.brk (some p) name).setDentry p fun d =>
        { d with dSubdirs := s.brk :: d.dSubdirs }).dentries := rfl
  rw [hlink]
  by_cases e : d = s.brk
  · subst e
    simp [FsSys.setDentry, hp.ne', newDentry]
  · by_cases e' : d = p
    · subst e'
      simp [FsSys.setDentry, e, grabbed]
    · simp [FsSys.setDentry, e, e', grabbed]

theorem mem_linked_dSubdirs (hp : p < s.brk) {v c : ℕ}
    (hc : c ∈ ((linked sb node (some p) name s).dentries v).dSubdirs) :
    c = s.brk ∧ v = p ∨ c ∈ (s.dentries v).dSubdirs := by
  rw [linked_dSubdirs hp] at hc
  split_ifs at hc with h1 h2
  · exact absurd hc List.not_mem_nil
  · subst h2
    exact (List.mem_cons.mp hc).imp_left fun e => ⟨e, rfl⟩
  · exact .inr hc

theorem linked_sound (hs : SoundLists s) (hp : p < s.brk) :
    SoundLists (linked sb node (some p) name s) := by
  obtain ⟨hbrk, -, -, hd, -⟩ := @linked_same s sb node (some p) name
  have hi : (linked sb node (some p) name s).iCache.hash = s.iCache.hash := rfl
  have hlt : ∀ {x}, x < s.brk → x < (linked sb node (some p) name s).brk := by
    intro x hx
    rw [hbrk]
    exact Nat.lt_succ_of_lt hx
  refine ⟨fun b => hd ▸ hs.nodup b, fun d hc => hlt (hs.dHash d (hd ▸ hc)), fun n hn => ?_,
    fun v c hc => ?_, fun d hm => hlt (hs.dLru d (hd ▸ hm)), fun sb => hlt (hs.sRoot sb)⟩
  · rw [InCache, hi] at hn
    exact hlt (hs.iHash n hn)
  · rcases mem_linked_dSubdirs hp hc with ⟨rfl, -⟩ | hc
    · exact hbrk ▸ Nat.lt_succ_self _
    · exact hlt (hs.subdirs v c hc)

/-- The new dentry is linked, but not in the cache yet. -/
theorem linked_evolved (hs : SoundLists s) (hp : p < s.brk) :
    Evolved p [] s (linked sb node (some p) name s) := by
  obtain ⟨hbrk, -, -, hd, -⟩ := @linked_same s sb node (some p) name
  have hi : (linked sb node (some p) name s).iCache.hash = s.iCache.hash := rfl
  have hinode := @linked_inodes s sb node (some p) name
  have hdentry := @linked_dentries s sb node (some p) name
  refine ⟨hbrk ▸ Nat.le_succ _, rfl, fun _ => rfl, fun d hlt => ?_, fun n _ => ?_, fun _ _ => rfl,
    fun d hlt => .inl ?_, fun v c hlt hc => ?_, fun v hv c hc _ => ?_, fun v c hc hlo => ?_,
    fun n d hm => ?_, fun n _ d hm _ => ?_, fun n hn => .inl ?_,
    fun d _ hc => hd ▸ hc, fun v hv => absurd hv List.not_mem_nil, fun d hc _ => hd.symm ▸ hc,
    fun c hlo hc => absurd (hs.dHash c (hd ▸ hc)) hlo.not_gt⟩
  · rw [hdentry, if_neg hlt.ne]
    exact ⟨rfl, rfl, rfl⟩
  · rw [hinode]
    exact ⟨rfl, rfl⟩
  · rw [hdentry, if_neg hlt.ne]
  · rcases mem_linked_dSubdirs hp hc with ⟨rfl, -⟩ | hc
    · exact absurd hlt (lt_irrefl _)
    · exact hc
  · rw [linked_dSubdirs hp, if_neg hv.ne]
    split_ifs with e
    · subst e
      exact List.mem_cons_of_mem _ hc
    · exact hc
  · rcases mem_linked_dSubdirs hp hc with ⟨-, rfl⟩ | hc
    · rfl
    · exact absurd (hs.subdirs v c hc) hlo.not_gt
  · rw [hinode] at hm
    dsimp only at hm
    split_ifs at hm with e
    · rcases List.mem_cons.mp hm with rfl | hm
      · refine .inr ⟨le_rfl, hbrk ▸ Nat.lt_succ_self _, ?_⟩
        rw [hdentry, if_pos rfl, e]
        rfl
      · exact .inl hm
    · exact .inl hm
  · rw [hinode]
    dsimp only
    split_ifs
    · exact List.mem_cons_of_mem _ hm
    · exact hm
  · rw [InCache, hi]
    exact hn

theorem enteredD_evolved {v : FsSys} {vs : List ℕ} (hs : SoundLists s) (hp : p < s.brk)
    (hnode : InCache s.iCache node) (hvs : s.brk ∉ vs) (hu : SoundLists v)
    (h : Evolved p vs (linked sb node (some p) name s) v) :
    SoundLists (enteredD s.brk v) ∧ Evolved p vs s (enteredD s.brk v) := by
  have hsound := @linked_sound p s sb node name hs hp
  have hlink := @linked_evolved p s sb node name hs hp
  have hbrk := (@linked_same s sb node (some p) name).1
  have hall := hlink.trans hs hsound (by omega) h
  rw [List.nil_append] at hall
  have hlt : s.brk < v.brk := (by omega : s.brk < (linked sb node (some p) name s).brk).trans_le h.brk
  have hnot : ¬ InCache v.dCache s.brk := fun hc =>
    absurd (hs.dHash _ ((@linked_same s sb node (some p) name).2.2.2.1 ▸
      h.old _ (by omega) hc)) (lt_irrefl _)
  have hadd : ∀ y, InCache (enteredD s.brk v).dCache y ↔ y = s.brk ∨ InCache v.dCache y := fun y =>
    inCache_add _ _ _ _
  have hdentry := @linked_dentries s sb node (some p) name s.brk
  rw [if_pos rfl] at hdentry
  have hdnode : (v.dentries s.brk).dInode = node := by
    rw [(h.dentry s.brk (by omega)).1, hdentry]
    rfl
  have hlisted : s.brk ∈ ((linked sb node (some p) name s).inodes node).iDentry := by
    rw [linked_inodes]
    simp
  have hin : InCache (linked sb node (some p) name s).iCache node := hnode
  have hsub : s.brk ∈ ((linked sb node (some p) name s).dentries p).dSubdirs := by
    rw [linked_dSubdirs hp, if_neg hp.ne, if_pos rfl]
    exact List.mem_cons_self
  have hnew : NewDentry p vs (enteredD s.brk v) s.brk := by
    refine ⟨hlt, ?_, h.subKept p (by omega) _ hsub hvs, ?_, ?_⟩
    · rcases h.parent s.brk (by omega) with h1 | ⟨w, hw, hmem⟩
      · refine .inl (h1.trans ?_)
        rw [hdentry]
        rfl
      · rw [linked_dSubdirs hp] at hmem
        split_ifs at hmem with h1 h2
        · exact absurd hmem List.not_mem_nil
        · exact .inr (h2 ▸ hw)
        · exact absurd (hs.subdirs w _ hmem) (lt_irrefl _)
    · change InCache v.iCache _
      rw [show ((enteredD s.brk v).dentries s.brk).dInode = node from hdnode]
      exact (h.node node hin).resolve_right fun hall => hvs (hall _ hlisted)
    · rw [show ((enteredD s.brk v).dentries s.brk).dInode = node from hdnode]
      exact h.iKept node (hsound.iHash _ hin) _ hlisted hvs
  refine ⟨⟨fun b => ?_, fun d hd => ?_, hu.iHash, hu.subdirs, fun d hd => ?_, hu.sRoot⟩,
    { hall with
      old := fun d hd hc => hall.old d hd (((hadd d).mp hc).resolve_left hd.ne)
      gone := fun w hw hlt hc => hall.gone w hw hlt (((hadd w).mp hc).resolve_left hlt.ne)
      kept := fun d hc hn => (hadd d).mpr (.inr (hall.kept d hc hn))
      new := fun c hlo hc => ?_ }⟩
  · change (Function.update v.dCache.hash _ _ b).Nodup
    by_cases e : b = hashString (v.dentries s.brk).dName
    · subst e
      rw [Function.update_self]
      exact List.nodup_cons.mpr ⟨fun hm => hnot ⟨_, hm⟩, hu.nodup _⟩
    · rw [Function.update_of_ne e]
      exact hu.nodup b
  · rcases (hadd d).mp hd with rfl | hd
    · exact hlt
    · exact hu.dHash d hd
  · rcases List.mem_cons.mp hd with rfl | hd
    · exact hlt
    · exact hu.dLru d hd
  · rcases (hadd c).mp hc with rfl | hc
    · exact hnew
    · have hold := hall.new c hlo hc
      exact ⟨hold.lt, hold.parent, hold.subdir, hold.node, hold.iDentry⟩

theorem addToDCache_cases {entry : ℕ} {r : Except ℕ Bool} (h : addToDCache entry s = some (r, t)) :
    s.dCache.size = dcacheCapacity ∧ (∃ v room, flushDCache s = some (.ok room, v) ∧ r = .ok room ∧
      t = if room then enteredD entry v else v) ∨
    s.dCache.size ≠ dcacheCapacity ∧ r = .ok true ∧ t = enteredD entry s := by
  rw [addToDCache, Prog.get_bind_run] at h
  split_ifs at h with hfull
  · rw [Prog.bind_ok (flushDCache_run s)] at h
    refine .inl ⟨hfull, _, _, flushDCache_run s, ?_⟩
    cases hroom : !(dVictims s).isEmpty <;>
      · rw [hroom] at h
        cases h
        exact ⟨rfl, rfl⟩
  · cases h
    exact .inr ⟨hfull, rfl, rfl⟩

theorem allocDentryFat32_evolves {r : Except ℕ ℕ} (hnode : InCache s.iCache node)
    (h : allocDentryFat32 env sb node (some p) name s = some (r, t)) :
    Evolves p s t ∧ ∀ d, r = .ok d → d < t.brk := by
  cases hk : env.kmallocFails s.brk with
  | true =>
    rw [allocDentryFat32_noMemory hk] at h
    cases h
    exact ⟨(skipped_tree s).evolves p, fun d hr => by cases hr⟩
  | false =>
    rw [allocDentryFat32_eq hk] at h
    obtain ⟨hbrk, -, -, hcache, -⟩ := @linked_same s sb node (some p) name
    set x := linked sb node (some p) name s
    have hfresh : SoundLists s → s.brk ∉ dVictims x := fun hs hm =>
      absurd (hs.dLru _ (hcache ▸ mem_of_mem_victims hm)) (lt_irrefl _)
    have hpins : Evolved p [] s x → ∀ v ∈ dVictims x, Unpinned s v := fun hx v hv =>
      hx.unpinned fun _ => .inl (dVictims_unpinned hv)
    rcases Prog.bind_cases h with ⟨room, w, h1, h2⟩ | ⟨e, h1, -⟩
    · rcases addToDCache_cases h1 with ⟨-, v, room', hflush, hr, rfl⟩ | ⟨-, hr, rfl⟩
      · cases hr
        have hlt : s.brk < v.brk := by
          obtain ⟨v', hrun, hk, -⟩ := flushDCache_spec x
          rw [hflush] at hrun
          cases hrun
          rw [hk.brk]
          omega
        cases room with
        | false =>
          cases h2
          refine ⟨fun hp hs => ?_, fun d hd => by cases hd⟩
          have hsound := @linked_sound p s sb node name hs hp
          have hlink := @linked_evolved p s sb node name hs hp
          obtain ⟨h3, h4⟩ := flushDCache_evolved hsound (hp.trans_le hlink.brk) hflush
          exact ⟨h3, _, hlink.trans hs hsound (hp.trans_le hlink.brk) h4, hpins hlink⟩
        | true =>
          cases h2
          refine ⟨fun hp hs => ?_, fun d hd => by cases hd; exact hlt⟩
          have hsound := @linked_sound p s sb node name hs hp
          have hlink := @linked_evolved p s sb node name hs hp
          obtain ⟨h3, h4⟩ := flushDCache_evolved hsound (hp.trans_le hlink.brk) hflush
          obtain ⟨h5, h6⟩ := enteredD_evolved hs hp hnode (hfresh hs) h3 h4
          exact ⟨h5, _, h6, hpins hlink⟩
      · cases hr
        cases h2
        refine ⟨fun hp hs => ?_, fun d hd => by cases hd; exact (by omega : s.brk < x.brk)⟩
        have hsound := @linked_sound p s sb node name hs hp
        have hlink := @linked_evolved p s sb node name hs hp
        obtain ⟨h5, h6⟩ := enteredD_evolved hs hp hnode List.not_mem_nil hsound
          ((refl x : SameTree x x).evolved hsound p)
        exact ⟨h5, _, h6, fun v hv => absurd hv List.not_mem_nil⟩
    · rcases addToDCache_cases h1 with ⟨-, v, room', -, hr, -⟩ | ⟨-, hr, -⟩ <;> cases hr

end Insert

end OurOS.Fs
