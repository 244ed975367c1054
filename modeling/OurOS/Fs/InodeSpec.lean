import OurOS.Fs.FatSpec
import OurOS.Fs.Inode

namespace OurOS.Fs

structure Grown (node : ℕ) (s t : FsSys) (new : List ℕ) : Prop where
  brk : s.brk ≤ t.brk
  nodup : new.Nodup
  fresh : ∀ m ∈ new, s.brk ≤ m ∧ m < t.brk ∧ (t.maps m).mapPage = none
  maps : ∀ m < s.brk, t.maps m = s.maps m
  blocks : (t.inodes node).iBlocks = (s.inodes node).iBlocks + new.length
  dataMap : (t.inodes node).iDataMap = (s.inodes node).iDataMap ++ new
  inode : ∀ n, t.inodes n = { s.inodes n with
    iBlocks := (t.inodes n).iBlocks, iDataMap := (t.inodes n).iDataMap }
  other : ∀ n, n ≠ node → t.inodes n = s.inodes n
  sbs : ∀ sb, t.sbs sb = { s.sbs sb with infoNextClu := (t.sbs sb).infoNextClu }
  pages : t.pages = s.pages
  dentries : t.dentries = s.dentries
  files : t.files = s.files
  pCache : t.pCache = s.pCache

theorem SameObjects.grown {s t : FsSys} (h : SameObjects s t) (node : ℕ) : Grown node s t [] := by
  refine ⟨h.brk, List.nodup_nil, fun m hm => absurd hm List.not_mem_nil, fun m _ => by rw [h.maps],
    by rw [h.inodes]; rfl, by rw [h.inodes, List.append_nil], fun n => by rw [h.inodes],
    fun n _ => by rw [h.inodes], h.sbs, h.pages, h.dentries, h.files, h.pCache⟩

theorem Grown.trans {node : ℕ} {s t u : FsSys} {l l' : List ℕ} (h₁ : Grown node s t l)
    (h₂ : Grown node t u l') : Grown node s u (l ++ l') where
  brk := h₁.brk.trans h₂.brk
  nodup := by
    refine List.nodup_append.mpr ⟨h₁.nodup, h₂.nodup, fun a ha b hb => ?_⟩
    exact ((h₁.fresh a ha).2.1.trans_le (h₂.fresh b hb).1).ne
  fresh m hm := by
    rcases List.mem_append.mp hm with hm | hm
    · obtain ⟨h1, h2, h3⟩ := h₁.fresh m hm
      refine ⟨h1, h2.trans_le h₂.brk, ?_⟩
      rw [h₂.maps m h2]
      exact h3
    · obtain ⟨h1, h2⟩ := h₂.fresh m hm
      exact ⟨h₁.brk.trans h1, h2⟩
  maps m hm := (h₂.maps m (hm.trans_le h₁.brk)).trans (h₁.maps m hm)
  blocks := by rw [h₂.blocks, h₁.blocks, List.length_append, Nat.add_assoc]
  dataMap := by rw [h₂.dataMap, h₁.dataMap, List.append_assoc]
  inode n := by rw [h₂.inode, h₁.inode]
  other n hn := (h₂.other n hn).trans (h₁.other n hn)
  sbs sb := by rw [h₂.sbs, h₁.sbs]
  pages := h₂.pages.trans h₁.pages
  dentries := h₂.dentries.trans h₁.dentries
  files := h₂.files.trans h₁.files
  pCache := h₂.pCache.trans h₁.pCache

section Append

variable {s : FsSys} {node clu : ℕ} {b : SuperBlock}

theorem appendBlock_grown (hsmall : (s.inodes node).iBlocks + 1 < uintRange) :
    Grown node s (appendBlock node s.brk b clu (grabbed s)) [s.brk] := by
  have hself : (appendBlock node s.brk b clu (grabbed s)).inodes node =
      { s.inodes node with
        iBlocks := ((s.inodes node).iBlocks + 1) % uintRange
        iDataMap := (s.inodes node).iDataMap ++ [s.brk] } := Function.update_self ..
  have hother : ∀ n, n ≠ node →
      (appendBlock node s.brk b clu (grabbed s)).inodes n = s.inodes n :=
    fun n hn => Function.update_of_ne hn ..
  have hmap : (appendBlock node s.brk b clu (grabbed s)).maps s.brk = newMap b clu :=
    Function.update_self ..
  refine ⟨Nat.le_succ _, List.nodup_singleton _, fun m hm => ?_,
    fun m hm => Function.update_of_ne hm.ne .., ?_, by rw [hself], fun n => ?_, hother,
    fun _ => rfl, rfl, rfl, rfl, rfl⟩
  · obtain rfl := List.mem_singleton.mp hm
    exact ⟨le_rfl, Nat.lt_succ_self _, by rw [hmap]; rfl⟩
  · rw [hself]
    exact Nat.mod_eq_of_lt hsmall
  · by_cases e : n = node
    · subst e
      rw [hself]
    · rw [hother n e]

end Append

section Expand

variable {env : FsEnv} {s t : FsSys} {node num : ℕ}

/-- The blocks that were added before a failure stay. -/
structure GrownBy (node num : ℕ) (s t : FsSys) (done : Prop) : Prop where
  grown : ∃ new, Grown node s t new ∧ new.length ≤ num ∧ (done → new.length = num)

theorem GrownBy.before {num : ℕ} {u : FsSys} {done : Prop} (h : GrownBy node num t u done)
    (hs : SameObjects s t) : GrownBy node num s u done := by
  obtain ⟨new, hg, hle, hd⟩ := h
  exact ⟨new, (hs.grown node).trans hg, hle, hd⟩

theorem GrownBy.after {num : ℕ} {u : FsSys} {done done' : Prop} (h : GrownBy node num s t done)
    (hs : SameObjects t u) (hd : done' → done) : GrownBy node num s u done' := by
  obtain ⟨new, hg, hle, hdone⟩ := h
  have hg' := hg.trans (hs.grown node)
  rw [List.append_nil] at hg'
  exact ⟨new, hg', hle, fun h => hdone (hd h)⟩

theorem SameObjects.grownBy (h : SameObjects s t) (node num : ℕ) {done : Prop} (hd : ¬ done) :
    GrownBy node num s t done := ⟨[], h.grown node, Nat.zero_le _, fun h => absurd h hd⟩

theorem expandLoop_grown {b : SuperBlock} {r : Except ℕ (ℕ × ℕ)} {freeCluIdx lastCluIdx : ℕ}
    (hsmall : (s.inodes node).iBlocks + num < uintRange)
    (h : expandLoop env node b num freeCluIdx lastCluIdx s = some (r, t)) :
    GrownBy node num s t (∃ a, r = .ok a) := by
  induction num generalizing s freeCluIdx lastCluIdx with
  | zero =>
    cases h
    exact ⟨[], SameObjects.grown (refl _) node, le_rfl, fun _ => rfl⟩
  | succ n ih =>
    rw [expandLoop] at h
    have hfail : ∀ e : ℕ, ¬ ∃ a : ℕ × ℕ, (.error e : Except ℕ (ℕ × ℕ)) = .ok a := by simp
    rcases Prog.bind_cases h with ⟨clu, s1, h1, h⟩ | ⟨e, h1, rfl⟩
    · have k1 := findFreeClu_keeps env _ _ _ _ _ h1
      refine GrownBy.before ?_ k1
      rcases Prog.bind_cases h with ⟨_, s2, h2, h⟩ | ⟨e, h2, rfl⟩
      · have k2 := writeFat_keeps env _ _ _ _ _ _ h2
        refine GrownBy.before ?_ k2
        have hb2 : (s2.inodes node).iBlocks = (s.inodes node).iBlocks := by
          rw [k2.inodes, k1.inodes]
        rcases Prog.bind_cases h with ⟨map, s3, h3, h⟩ | ⟨e, h3, rfl⟩
        · cases map with
          | none =>
            cases h
            exact (kmalloc_keeps env _ _ _ h3).grownBy node _ (hfail _)
          | some map =>
            obtain ⟨rfl, rfl⟩ := kmalloc_some h3
            have g3 : Grown node s2 (appendBlock node s2.brk b clu (grabbed s2)) [s2.brk] :=
              appendBlock_grown (by omega)
            obtain ⟨new, g4, hle, hd⟩ := ih (by rw [g3.blocks, hb2, List.length_singleton]; omega) h
            exact ⟨s2.brk :: new, g3.trans g4, Nat.succ_le_succ hle, fun h =>
              congrArg (· + 1) (hd h)⟩
        · exact (kmalloc_keeps env _ _ _ h3).grownBy node _ (hfail _)
      · exact (writeFat_keeps env _ _ _ _ _ _ h2).grownBy node _ (hfail _)
    · exact (findFreeClu_keeps env _ _ _ _ _ h1).grownBy node _ (hfail _)

theorem expandBlocks_grown {r : Except ℕ Unit} (hsmall : (s.inodes node).iBlocks + num < uintRange)
    (h : expandBlocks env node num s = some (r, t)) : GrownBy node num s t (r = .ok ()) := by
  rw [expandBlocks, Prog.get_bind_run] at h
  rcases Prog.bind_cases h with ⟨c, s1, h1, h⟩ | ⟨e, h1, rfl⟩
  · have g1 := expandLoop_grown hsmall h1
    rcases Prog.bind_cases h with ⟨_, s2, h2, h⟩ | ⟨e, h2, rfl⟩
    · have g2 := g1.after (writeFat_keeps env _ _ _ _ _ _ h2) fun _ : True => ⟨c, rfl⟩
      rcases Prog.bind_cases h with ⟨r', s3, h3, h⟩ | ⟨e, h3, rfl⟩
      · cases h
        exact g2.after ((updateNextClu_keeps env _ _).attempt _ _ _ h3) fun _ => trivial
      · exact g2.after ((updateNextClu_keeps env _ _).attempt _ _ _ h3) fun _ => trivial
    · exact g1.after (writeFat_keeps env _ _ _ _ _ _ h2) fun _ => ⟨c, rfl⟩
  · have g1 := expandLoop_grown hsmall h1
    exact g1.after (refl _) fun h => by cases h

theorem iIncCount_inodes (node : ℕ) (s : FsSys) (n : ℕ) : (iIncCount node s).inodes n =
    { s.inodes n with iCount := (s.inodes n).iCount + if n = node then 1 else 0 } := by
  by_cases e : n = node
  · subst e
    simp [iIncCount, FsSys.setInode]
  · simp [iIncCount, FsSys.setInode, e]

theorem iDecCount_inodes (node : ℕ) (s : FsSys) (n : ℕ) : (iDecCount node s).inodes n =
    { s.inodes n with iCount := (s.inodes n).iCount - if n = node then 1 else 0 } := by
  by_cases e : n = node
  · subst e
    simp [iDecCount, FsSys.setInode]
  · simp [iDecCount, FsSys.setInode, e]

theorem Grown.counted {s1 : FsSys} {new : List ℕ} (g : Grown node (iIncCount node s) s1 new) :
    Grown node s (iDecCount node s1) new := by
  have hin := iIncCount_inodes node s
  have hout := iDecCount_inodes node s1
  refine ⟨g.brk, g.nodup, g.fresh, g.maps, ?_, ?_, fun n => ?_, fun n hn => ?_, g.sbs, g.pages,
    g.dentries, g.files, g.pCache⟩
  · rw [hout, g.blocks, hin]
  · rw [hout, g.dataMap, hin]
  · rw [hout, g.inode n, hin]
    simp only [add_sub_cancel_right]
  · rw [hout, g.other n hn, hin, if_neg hn]
    simp

theorem expandFat32_grown {r : Except ℕ Unit} (hsmall : (s.inodes node).iBlocks + num < uintRange)
    (h : expandFat32 env node num s = some (r, t)) : GrownBy node num s t (r = .ok ()) := by
  rw [expandFat32, Prog.modify_bind_run] at h
  rcases Prog.bind_cases h with ⟨r', s1, h1, h⟩ | ⟨e, h1, -⟩
  · obtain ⟨r'', hr, h1⟩ := Prog.attempt_cases h1
    cases hr
    obtain ⟨new, g, hle, hd⟩ := expandBlocks_grown (by rw [iIncCount_inodes]; exact hsmall) h1
    rw [Prog.modify_bind_run] at h
    cases r' with
    | error e =>
      cases h
      exact ⟨new, g.counted, hle, fun h => by cases h⟩
    | ok _ =>
      cases h
      exact ⟨new, g.counted, hle, fun _ => hd rfl⟩
  · obtain ⟨r'', hr, -⟩ := Prog.attempt_cases h1
    cases hr

end Expand

end OurOS.Fs
