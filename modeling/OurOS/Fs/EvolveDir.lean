import OurOS.Fs.Evolve

namespace OurOS.Fs

variable {p : ℕ} {s t : FsSys} (env : FsEnv)

theorem follow_cases {α : Type} {m : FsProg α} {r : Except ℕ α} (h : follow m s = some (r, t)) :
    ∃ a, r = .ok a ∧ m s = some (.ok a, t) := by
  rcases Prog.bind_cases h with ⟨r', u, h1, h2⟩ | ⟨e, h1, -⟩
  · obtain ⟨r'', hr, hm⟩ := Prog.attempt_cases h1
    cases hr
    cases r' with
    | ok a =>
      cases h2
      exact ⟨a, rfl, hm⟩
    | error e => cases h2
  · obtain ⟨r'', hr, -⟩ := Prog.attempt_cases h1
    cases hr

variable {env}

theorem readDotdotName_tree {ret clu : ℕ} {r : Except ℕ Unit} (hret : ret < s.brk)
    (h : readDotdotName env ret clu s = some (r, t)) : SameTree s t := by
  rcases Prog.bind_cases h with ⟨cur, u, h1, h2⟩ | ⟨e, h1, -⟩
  · obtain ⟨_, hr, h1⟩ := follow_cases h1
    cases hr
    obtain ⟨h3, h4⟩ := openHandle_tree hret h1
    obtain ⟨-, hlt, hcur⟩ := h4 cur rfl
    have hend : ∀ {v}, SameTree u v → (do
        Prog.modify (releaseFile cur)
        let s ← Prog.get
        if compareFat32 (s.dentries ret).dName dotdotName = 0 then Prog.throw errorFileNotfound
          : FsProg Unit) v = some (r, t) → SameTree v t := by
      intro v hv hrun
      have hfile : (v.files cur).fDentry < v.brk := by
        rw [hv.fDentry cur hlt, hcur]
        exact hret.trans_le (h3.brk.trans hv.brk)
      rw [Prog.modify_bind_run, Prog.get_bind_run] at hrun
      have hrel := releaseFile_tree hfile
      split_ifs at hrun
      · cases hrun
        exact hrel
      · cases hrun
        exact hrel
    rcases Prog.bind_cases h2 with ⟨name, v, h5, h6⟩ | ⟨e, h5, -⟩
    · have h7 := SameTree.frame.findParentName env _ _ _ _ _ _ _ h5
      cases name with
      | none => exact IsTrans.trans _ _ _ h3 (IsTrans.trans _ _ _ h7 (hend h7 h6))
      | some name =>
        dsimp only at h6
        rw [Prog.modify_bind_run] at h6
        have h8 : SameTree v (renamed name ret v) := .setDentry ret _ v
        have h9 := IsTrans.trans _ _ _ h7 h8
        exact IsTrans.trans _ _ _ h3 (IsTrans.trans _ _ _ h9 (hend h9 h6))
    · exact IsTrans.trans _ _ _ h3 (SameTree.frame.findParentName env _ _ _ _ _ _ _ h5)
  · obtain ⟨_, hr, -⟩ := follow_cases h1
    cases hr

theorem readDentryFromSfn_evolves {data : ℕ → ℕ} {off : ℕ} {name : List ℕ} {r : Except ℕ ℕ}
    (h : readDentryFromSfn env data off p name s = some (r, t)) :
    Evolves p s t ∧ ∀ d, r = .ok d → d < t.brk := by
  rw [readDentryFromSfn, Prog.get_bind_run] at h
  have hend : ∀ {v : FsSys} {node : ℕ}, InCache v.iCache node → (do
      let retEntry ← allocDentryFat32 env (s.dentries p).dSb node (some p) name
      if compareFat32 name dotdotName = 0 then readDotdotName env retEntry (sfn1stclu data off)
      pure retEntry : FsProg ℕ) v = some (r, t) → Evolves p v t ∧ ∀ d, r = .ok d → d < t.brk := by
    intro v node hnode h
    rcases Prog.bind_cases h with ⟨ret, w, h1, h2⟩ | ⟨e, h1, rfl⟩
    · obtain ⟨h3, h4⟩ := allocDentryFat32_evolves (p := p) hnode h1
      have hlt := h4 ret rfl
      split_ifs at h2
      · rcases Prog.bind_cases h2 with ⟨_, x, h5, h6⟩ | ⟨e, h5, rfl⟩
        · cases h6
          have h7 := readDotdotName_tree hlt h5
          refine ⟨IsTrans.trans _ _ _ h3 (h7.evolves p), fun d hd => ?_⟩
          cases hd
          exact hlt.trans_le h7.brk
        · exact ⟨IsTrans.trans _ _ _ h3 ((readDotdotName_tree hlt h5).evolves p),
            fun d hd => by cases hd⟩
      · cases h2
        exact ⟨h3, fun d hd => by cases hd; exact hlt⟩
    · exact ⟨(allocDentryFat32_evolves hnode h1).1, fun d hd => by cases hd⟩
  dsimp only at h
  cases hlook : lookupICache s (cluToSec (s.sbs (s.dentries p).dSb).infoCluBase
      (sfn1stclu data off) (s.sbs (s.dentries p).dSb).sBlockbits) with
  | some node =>
    simp only [hlook] at h
    exact hend ⟨_, List.mem_of_find?_eq_some hlook⟩ h
  | none =>
    simp only [hlook] at h
    rcases Prog.bind_cases h with ⟨node, v, h1, h2⟩ | ⟨e, h1, rfl⟩
    · obtain ⟨h3, h4⟩ := allocInodeFat32_evolves (p := p) h1
      obtain ⟨h5, h6⟩ := hend (h4 node rfl) h2
      exact ⟨IsTrans.trans _ _ _ h3 h5, h6⟩
    · exact ⟨(allocInodeFat32_evolves h1).1, fun d hd => by cases hd⟩

theorem lookupFat32_evolves {name : List ℕ} {r : Except ℕ ℕ}
    (h : lookupFat32 env p name s = some (r, t)) : Evolves p s t ∧ ∀ d, r = .ok d → d < t.brk := by
  rw [lookupFat32] at h
  rcases Prog.bind_cases h with ⟨found, u, h1, h2⟩ | ⟨e, h1, rfl⟩
  · have h3 := (SameTree.frame.lookupSfn env _ _ _ _ _ h1).evolves p
    cases found with
    | none =>
      cases h2
      exact ⟨h3, fun d hd => by cases hd⟩
    | some place =>
      dsimp only at h2
      rw [Prog.get_bind_run] at h2
      obtain ⟨h4, h5⟩ := readDentryFromSfn_evolves h2
      exact ⟨IsTrans.trans _ _ _ h3 h4, h5⟩
  · exact ⟨(SameTree.frame.lookupSfn env _ _ _ _ _ h1).evolves p, fun d hd => by cases hd⟩

theorem getDentryParent_evolves : Prog.Keeps (Evolves p) (getDentryParent env p) := by
  refine .bind .get fun s => ?_
  split
  · exact fun _ _ _ h => (lookupFat32_evolves h).1
  · exact .pure _

theorem closeFat32_evolves {fp : ℕ} {r : Except ℕ Unit} (hfp : (s.files fp).fDentry = p)
    (h : closeFat32 env fp s = some (r, t)) : Evolves p s t := by
  rw [closeFat32, Prog.get_bind_run] at h
  subst hfp
  have htree : ∀ {α : Type} {m : FsProg α}, Prog.Keeps SameTree m →
      Prog.Keeps (Evolves (s.files fp).fDentry) m := fun hm => hm.mono fun _ _ h => h.evolves _
  refine (?_ : Prog.Keeps (Evolves (s.files fp).fDentry) _) _ _ _ h
  refine .bind (follow_keeps getDentryParent_evolves) fun entry => ?_
  split_ifs
  · exact .throw _
  · refine .bind .get fun s' => .bind (htree (SameTree.frame.findSfn env _ _ _)) fun r => ?_
    cases r with
    | some r => exact .bind .get fun s'' => htree (SameTree.frame.updateSfn env _ _)
    | none => exact .throw _

theorem Prog.Keeps.evolves {α : Type} {m : FsProg α} (h : Prog.Keeps SameTree m) (p : ℕ) :
    Prog.Keeps (Evolves p) m := h.mono fun _ _ h => h.evolves p

theorem Evolves.then {u : FsSys} (h : Evolves p s t)
    (h' : p < s.brk → SoundLists s → SoundLists t → (∃ V, Evolved p V s t) → Evolves p t u) :
    Evolves p s u := fun hp hs => by
  obtain ⟨ht, V, hV, hpin⟩ := h hp hs
  exact IsTrans.trans (r := Evolves p) _ _ _ h (h' hp hs ht ⟨V, hV⟩) hp hs

theorem fsClose_evolves {fp : ℕ} {r : Except ℕ Unit} (hlt : fp < s.brk)
    (hfp : (s.files fp).fDentry = p) (h : fsClose env fp s = some (r, t)) : Evolves p s t := by
  rw [fsClose, Prog.get_bind_run] at h
  have hrel : ∀ {v : FsSys}, (∃ V, Evolved p V s v) → p < s.brk →
      Prog.modify (releaseFile fp) v = some (r, t) → Evolves p v t := by
    rintro v ⟨V, hV⟩ hp h
    cases h
    refine (releaseFile_tree ?_).evolves p
    rw [hV.fDentry fp hlt, hfp]
    exact hp.trans_le hV.brk
  split_ifs at h
  · rcases Prog.bind_cases h with ⟨_, u, h1, h2⟩ | ⟨e, h1, -⟩
    · have hflush := (Prog.Keeps.forEach (SameTree.frame.flushMap env) _) _ _ _ h1
      have hu : (u.files fp).fDentry = p := (hflush.fDentry fp hlt).trans hfp
      rcases Prog.bind_cases h2 with ⟨_, v, h3, h4⟩ | ⟨e, h3, -⟩
      · have hv := IsTrans.trans _ _ _ (hflush.evolves p) (closeFat32_evolves hu h3)
        exact hv.then fun hp _ _ hV => hrel hV hp h4
      · exact IsTrans.trans _ _ _ (hflush.evolves p) (closeFat32_evolves hu h3)
    · exact ((Prog.Keeps.forEach (SameTree.frame.flushMap env) _) _ _ _ h1).evolves p
  · exact fun hp hs => hrel ⟨[], (refl s : SameTree s s).evolved hs p⟩ hp h hp hs

theorem atEnd_tree (ret entry : ℕ) (s : FsSys) : SameTree s (atEnd ret entry s) := by
  rw [atEnd]
  exact .setFile ret _ s

theorem dentryOpenFile_evolves {mode : ℕ} {r : Except ℕ ℕ}
    (h : dentryOpenFile env p mode s = some (r, t)) : Evolves p s t := by
  rw [dentryOpenFile] at h
  intro hp
  revert h
  have hrest : ∀ ret, Prog.Keeps (Evolves p) (do
      if hasMode mode fModeAppendMask then Prog.modify (atEnd ret p)
      else if !hasMode mode fModeReadMask then
        let parent ← follow (getDentryParent env p)
        let s ← Prog.get
        let _ ← Prog.attempt (clearFat32 env (s.dentries p).dInode parent (s.dentries p).dName)
        Prog.modify (·.setFile ret fun f => { f with fSize := 0 })
      pure ret : FsProg ℕ) := by
    intro ret
    split_ifs
    · exact .bind (.modify fun s => (atEnd_tree ret p s).evolves p) fun _ => .pure _
    · refine .bind (follow_keeps getDentryParent_evolves) fun parent => .bind .get fun s =>
        .bind (Prog.Keeps.evolves (clearFat32_tree env _ _ _) p).attempt fun _ => ?_
      exact .bind (.modify fun s => (SameTree.setFile ret _ s).evolves p) fun _ => .pure _
    · exact .pure _
  intro h
  rcases Prog.bind_cases h with ⟨ret, u, h1, h2⟩ | ⟨e, h1, -⟩
  · exact IsTrans.trans (r := Evolves p) _ _ _ ((openHandle_tree hp h1).1.evolves p)
      (hrest ret _ _ _ h2) hp
  · exact (openHandle_tree hp h1).1.evolves p hp

theorem openedAtEnd_tree (hp : p < s.brk) : SameTree s (openedAtEnd p s) ∧
    s.brk < (openedAtEnd p s).brk ∧ ((openedAtEnd p s).files s.brk).fDentry = p := by
  have htouch : SameTree s (dIncCount p (grabbed s)) :=
    IsTrans.trans _ _ _ (.of_same (grabbed_same s)) (.touchD (Nat.lt_succ_of_lt hp) (· + 1))
  have hopen : SameTree s ((dIncCount p (grabbed s)).setFile s.brk fun _ =>
      newFile (dIncCount p (grabbed s)) p fModeAppend) :=
    { htouch with fDentry := fun f hf => congrArg File.fDentry (Function.update_of_ne hf.ne ..) }
  refine ⟨IsTrans.trans _ _ _ hopen (atEnd_tree _ _ _), Nat.lt_succ_self _, ?_⟩
  simp [openedAtEnd, atEnd, FsSys.setFile, newFile]

theorem appendSfn_evolves {sfn : List ℕ} {r : Except ℕ Unit}
    (h : appendSfn env p sfn s = some (r, t)) : Evolves p s t := by
  intro hp
  revert h
  intro h
  rw [appendSfn] at h
  rcases Prog.bind_cases h with ⟨fp, u, h1, h2⟩ | ⟨e, h1, -⟩
  · obtain ⟨hr, rfl⟩ := openAppend_cases h1
    cases hr
    obtain ⟨hopen, hlt, hfile⟩ := openedAtEnd_tree hp
    rcases Prog.bind_cases h2 with ⟨_, v, h3, h4⟩ | ⟨e, h3, -⟩
    · obtain ⟨_, -, h3⟩ := Prog.attempt_cases h3
      have hwrite := fsWrite_tree env _ _ _ _ _ h3
      have hv := IsTrans.trans _ _ _ hopen hwrite
      have hclose : Evolves p v t := by
        rcases Prog.bind_cases h4 with ⟨_, w, h5, h6⟩ | ⟨e, h5, -⟩
        · obtain ⟨_, -, h5⟩ := Prog.attempt_cases h5
          cases h6
          exact fsClose_evolves (hlt.trans_le hwrite.brk) ((hwrite.fDentry _ hlt).trans hfile) h5
        · obtain ⟨_, hr, -⟩ := Prog.attempt_cases h5
          cases hr
      exact IsTrans.trans (r := Evolves p) _ _ _ (hv.evolves p) hclose hp
    · obtain ⟨_, hr, -⟩ := Prog.attempt_cases h3
      cases hr
  · obtain ⟨hr, -⟩ := openAppend_cases h1
    cases hr

theorem createDentryFat32_evolves {sb : ℕ} {name : List ℕ} {isdir : Bool} {r : Except ℕ ℕ}
    (h : createDentryFat32 env sb p name isdir s = some (r, t)) : Evolves p s t := by
  rw [createDentryFat32, Prog.get_bind_run] at h
  have hfind := fun c => Prog.Keeps.evolves
    (SameTree.frame.of_same (findFreeClu_keeps env (s.sbs sb).infoFatSec c)) p
  have hwrite := fun c => Prog.Keeps.evolves
    (SameTree.frame.of_same (writeFat_keeps env (s.sbs sb).infoFatSec c fatItemEnd)) p
  have hend : ∀ {v node free}, InCache v.iCache node → (do
      let entryRet ← Prog.attempt (allocDentryFat32 env sb node (some p) name)
      appendSfn env p (newSfn env name isdir free)
      Prog.ofExcept entryRet : FsProg ℕ) v = some (r, t) → Evolves p v t := by
    intro v node free hnode h
    rcases Prog.bind_cases h with ⟨ret, w, h1, h2⟩ | ⟨e, h1, -⟩
    · obtain ⟨r', hr, h1⟩ := Prog.attempt_cases h1
      have h3 := (allocDentryFat32_evolves (p := p) hnode h1).1
      have hlast : ∀ {x}, Prog.ofExcept ret x = some (r, t) → t = x := by
        intro x hx
        cases ret <;>
          · cases hx
            rfl
      rcases Prog.bind_cases h2 with ⟨_, x, h4, h5⟩ | ⟨e, h4, -⟩
      · obtain rfl := hlast h5
        exact IsTrans.trans _ _ _ h3 (appendSfn_evolves h4)
      · exact IsTrans.trans _ _ _ h3 (appendSfn_evolves h4)
    · obtain ⟨_, hr, -⟩ := Prog.attempt_cases h1
      cases hr
  rcases Prog.bind_cases h with ⟨free, u, h1, h2⟩ | ⟨e, h1, -⟩
  · rcases Prog.bind_cases h2 with ⟨_, v, h3, h4⟩ | ⟨e, h3, -⟩
    · have hv := IsTrans.trans _ _ _ (hfind _ _ _ _ h1) (hwrite _ _ _ _ h3)
      rcases Prog.bind_cases h4 with ⟨node, w, h5, h6⟩ | ⟨e, h5, -⟩
      · obtain ⟨h7, h8⟩ := allocInodeFat32_evolves (p := p) h5
        exact IsTrans.trans _ _ _ hv (IsTrans.trans _ _ _ h7 (hend (h8 node rfl) h6))
      · exact IsTrans.trans _ _ _ hv (allocInodeFat32_evolves h5).1
    · exact IsTrans.trans _ _ _ (hfind _ _ _ _ h1) (hwrite _ _ _ _ h3)
  · exact hfind _ _ _ _ h1

theorem moveTo_tree {nd : Nameidata} {entry mnt : ℕ} {r : Except ℕ Nameidata}
    (hd : nd.ndDentry < s.brk) (hentry : entry < s.brk)
    (h : moveTo nd entry mnt s = some (r, t)) : SameTree s t := by
  cases h
  exact IsTrans.trans _ _ _ (.touchD hd (· - 1))
    (.touchD (s := dDecCount nd.ndDentry s) hentry (· + 1))

theorem followMounts_same {n entry mnt : ℕ} {r : Except ℕ (ℕ × ℕ)} (hs : SoundLists s)
    (hentry : entry < s.brk) (h : followMounts n entry mnt s = some (r, t)) :
    t = s ∧ ∀ x, r = .ok x → x.1 < s.brk := by
  induction n generalizing entry mnt with
  | zero => cases h
  | succ n ih =>
    rw [followMounts, Prog.get_bind_run] at h
    cases hmount : (s.dentries entry).dMounted with
    | false =>
      simp only [hmount, Bool.false_eq_true, if_false] at h
      cases h
      exact ⟨rfl, fun x hx => by cases hx; exact hentry⟩
    | true =>
      simp only [hmount, if_true] at h
      cases hfind : s.sbList.find? fun sb =>
          (s.sbs sb).mntMntpoint == some entry && (s.sbs sb).mntParent == some mnt with
      | none =>
        simp only [hfind] at h
        cases h
        exact ⟨rfl, fun x hx => by cases hx⟩
      | some sb =>
        simp only [hfind] at h
        exact ih (hs.sRoot sb) h

theorem findEntry_evolves {nd : Nameidata} {r : Except ℕ ℕ}
    (h : findEntry env nd s = some (r, t)) :
    Evolves nd.ndDentry s t ∧ (SoundLists s → ∀ d, r = .ok d → d < t.brk) := by
  rw [findEntry, Prog.get_bind_run] at h
  cases hlook : lookupDCache s nd.ndDentry nd.ndCurName with
  | some entry =>
    rw [hlook] at h
    cases h
    refine ⟨refl _, fun hs d hd => ?_⟩
    cases hd
    exact hs.dHash entry ⟨_, List.mem_of_find?_eq_some hlook⟩
  | none =>
    rw [hlook] at h
    obtain ⟨h1, h2⟩ := lookupFat32_evolves h
    exact ⟨h1, fun _ => h2⟩

theorem doLookup_evolves {nd : Nameidata} {r : Except ℕ Nameidata}
    (h : doLookup env nd s = some (r, t)) : Evolves nd.ndDentry s t := by
  rw [doLookup, Prog.get_bind_run] at h
  split_ifs at h
  · cases h
    exact refl _
  · rcases Prog.bind_cases h with ⟨entry, u, h1, h2⟩ | ⟨e, h1, -⟩
    · obtain ⟨h3, h4⟩ := findEntry_evolves h1
      refine fun hp hs => h3.then (fun hp hs hu ⟨V, hV⟩ => ?_) hp hs
      have hentry := h4 hs entry rfl
      rcases Prog.bind_cases h2 with ⟨x, v, h5, h6⟩ | ⟨e, h5, -⟩
      · obtain ⟨rfl, hx⟩ := followMounts_same hu hentry h5
        exact (moveTo_tree (hp.trans_le hV.brk) (hx x rfl) h6).evolves _
      · obtain ⟨rfl, -⟩ := followMounts_same hu hentry h5
        exact refl _
    · exact (findEntry_evolves h1).1

end OurOS.Fs
