import OurOS.Fs.PathWalk

namespace OurOS.Fs

section Suffix

variable (env : FsEnv) (path : List ℕ)

def pathByte (i : ℤ) : ℕ := if i < 0 then env.beforePath (-1 - i).toNat else charAt path i.toNat

/-- The two pointers walk back together for `len` bytes; the offsets that are read are returned. -/
def endwithLoop : ℕ → ℤ → ℤ → Bool × List ℤ
  | 0, _, _ => (true, [])
  | len + 1, p, name =>
    let p := p - 1
    let name := name - 1
    if pathByte env path p ≠ pathByte env path name then (false, [p, name])
    else
      let r := endwithLoop len p name
      (r.1, p :: name :: r.2)

def qstrEndwith (str : Qstr) : Bool × List ℤ :=
  let len := path.length
  if len < str.len then (false, [])
  else endwithLoop env path len len (str.name + str.len : ℕ)

end Suffix

section Lookup

variable (env : FsEnv) (path : List ℕ)

def createsEntry (create : Bool) (r : WalkEnd) : Bool :=
  r.error == some errorFileNotfound && create && (qstrEndwith env path r.cur).1

def clearDir (blksize map : ℕ) : FsProg Unit := do
  let page ← follow (getFspage env map blksize)
  let _ ← Prog.attempt (updateSfn env page fun data o => if o < blksize then 0 else data o)

/-- The entry that `path_lookup` makes for the last component. The error pointer of a creation that
fails is followed. -/
def createLast (nd : Nameidata) (name : List ℕ) (isdir : Bool) : FsProg Nameidata := do
  let s ← Prog.get
  let sb := (s.dentries nd.ndDentry).dSb
  let entry ← follow (createDentryFat32 env sb nd.ndDentry name isdir)
  let s ← Prog.get
  if isdir then Prog.forEach (clearDir env (s.sbs sb).sBlocksize) (dirMaps s entry)
  Prog.modify (dDecCount nd.ndDentry)
  Prog.modify (dIncCount entry)
  Prog.modify (dDecCount entry)
  pure { nd with ndDentry := entry, ndCurName := [] }

def pathLookup (create isdir : Bool) : FsProg Nameidata := do
  let s ← Prog.get
  let entry := if charAt path 0 = slash then s.rootDentry else s.pwdDentry
  Prog.modify (dIncCount entry)
  let r ← linkPathWalk env path uintRange 0 ⟨entry, (s.dentries entry).dSb, []⟩ ⟨0, 0⟩
  if createsEntry env path create r then createLast env r.nd r.nd.ndCurName isdir
  else do
    Prog.modify (dDecCount entry)
    match r.error with
    | some e => Prog.throw e
    | none => pure r.nd

def fsOpen (mode : ℕ) : FsProg ℕ := do
  let nd ← pathLookup env path (hasMode mode fModeWriteMask) (hasMode mode fModeDirMask)
  dentryOpenFile env nd.ndDentry mode

end Lookup

/-- An entry is created exactly for a component at the end of the path, and no byte outside the
path string is read to find that out. -/
structure EntryDecided (env : FsEnv) (path : List ℕ) (r : WalkEnd) : Prop where
  creates : createsEntry env path true r = true ↔ r.cur.name + r.cur.len = path.length
  inside : ∀ i ∈ (qstrEndwith env path r.cur).2, 0 ≤ i ∧ i ≤ path.length

/-- The path goes on after the component by repeating itself with the distance from the component's
end to its own. -/
def Repeats (path : List ℕ) (q : Qstr) : Prop :=
  ∀ j, j < q.name + q.len → charAt path (j + (path.length - (q.name + q.len))) = charAt path j

section Decide

variable {env : FsEnv} {path : List ℕ} {r : WalkEnd}

theorem pathByte_natCast (i : ℕ) : pathByte env path i = charAt path i := by
  rw [pathByte, if_neg (by omega), Int.toNat_natCast]

theorem endwithLoop_succ (n p name : ℕ) :
    endwithLoop env path (n + 1) (p + 1 : ℕ) (name + 1 : ℕ) =
      if charAt path p ≠ charAt path name then (false, [(p : ℤ), (name : ℤ)])
      else ((endwithLoop env path n p name).1, (p : ℤ) :: (name : ℤ) ::
        (endwithLoop env path n p name).2) := by
  rw [endwithLoop]
  simp only [Nat.cast_add, Nat.cast_one, add_sub_cancel_right, pathByte_natCast]

variable (env path) in
theorem endwithLoop_same (n : ℕ) : (endwithLoop env path n n n).1 = true ∧
    ∀ i ∈ (endwithLoop env path n n n).2, 0 ≤ i ∧ i ≤ (n : ℤ) := by
  induction n with
  | zero => exact ⟨rfl, fun i hi => absurd hi List.not_mem_nil⟩
  | succ n ih =>
    rw [endwithLoop_succ, if_neg (not_not.mpr rfl)]
    refine ⟨ih.1, fun i hi => ?_⟩
    rcases List.mem_cons.mp hi with rfl | hi
    · omega
    · rcases List.mem_cons.mp hi with rfl | hi
      · omega
      · have := ih.2 i hi
        omega

variable (env path) in
/-- Where the bytes differ somewhere before the start of the string, the walk stops there. -/
theorem endwithLoop_differ {d k n : ℕ} (h : ∃ j < k, charAt path (j + d) ≠ charAt path j)
    (hn : k ≤ n) : (endwithLoop env path n (k + d : ℕ) k).1 = false ∧
      ∀ i ∈ (endwithLoop env path n (k + d : ℕ) k).2, 0 ≤ i ∧ i ≤ (k + d : ℕ) := by
  induction k generalizing n with
  | zero =>
    obtain ⟨j, hj, -⟩ := h
    omega
  | succ k ih =>
    obtain ⟨n, rfl⟩ : ∃ m, n = m + 1 := ⟨n - 1, by omega⟩
    rw [Nat.add_right_comm, endwithLoop_succ]
    split_ifs with hk
    · refine ⟨rfl, fun i hi => ?_⟩
      simp only [List.mem_cons, List.not_mem_nil, or_false] at hi
      omega
    · obtain ⟨j, hj, hne⟩ := h
      have hjk : j ≠ k := fun e => hk (e ▸ hne)
      obtain ⟨h1, h2⟩ := ih ⟨j, by omega, hne⟩ (Nat.le_of_succ_le_succ hn)
      refine ⟨h1, fun i hi => ?_⟩
      rcases List.mem_cons.mp hi with rfl | hi
      · omega
      · rcases List.mem_cons.mp hi with rfl | hi
        · omega
        · have := h2 i hi
          omega

variable (env path) in
/-- Where they are all the same, the walk goes on before the string. -/
theorem endwithLoop_outside {d k n : ℕ} (h : ∀ j < k, charAt path (j + d) = charAt path j)
    (hn : k < n) : -1 ∈ (endwithLoop env path n (k + d : ℕ) k).2 := by
  induction k generalizing n with
  | zero =>
    obtain ⟨n, rfl⟩ : ∃ m, n = m + 1 := ⟨n - 1, by omega⟩
    rw [endwithLoop]
    split_ifs <;> simp
  | succ k ih =>
    obtain ⟨n, rfl⟩ : ∃ m, n = m + 1 := ⟨n - 1, by omega⟩
    rw [Nat.add_right_comm, endwithLoop_succ, if_neg (not_not.mpr (h k (Nat.lt_succ_self k)))]
    have hin := ih (fun j hj => h j (Nat.lt_succ_of_lt hj)) (Nat.lt_of_succ_lt_succ hn)
    exact List.mem_cons_of_mem _ (List.mem_cons_of_mem _ hin)

variable (env) in
theorem qstrEndwith_eq {q : Qstr} (hq : q.name + q.len ≤ path.length) :
    qstrEndwith env path q = endwithLoop env path path.length
      (q.name + q.len + (path.length - (q.name + q.len)) : ℕ) (q.name + q.len : ℕ) := by
  rw [qstrEndwith, Nat.add_sub_cancel' hq]
  exact if_neg (by omega)

theorem createsEntry_eq (herr : r.error = some errorFileNotfound) :
    createsEntry env path true r = (qstrEndwith env path r.cur).1 := by
  rw [createsEntry, herr]
  simp

theorem entryDecided_iff (herr : r.error = some errorFileNotfound)
    (hq : r.cur.name + r.cur.len ≤ path.length) : EntryDecided env path r ↔
      r.cur.name + r.cur.len = path.length ∨ ¬ Repeats path r.cur := by
  have heq := qstrEndwith_eq env hq
  constructor
  · intro h
    by_contra hor
    obtain ⟨hne, hrep⟩ := not_or.mp hor
    have hout := endwithLoop_outside env path (not_not.mp hrep)
      (lt_of_le_of_ne hq hne)
    rw [← heq] at hout
    exact absurd (h.inside _ hout).1 (by decide)
  · intro h
    by_cases hend : r.cur.name + r.cur.len = path.length
    · have hsame := endwithLoop_same env path path.length
      rw [hend, Nat.sub_self, Nat.add_zero] at heq
      rw [← heq] at hsame
      exact ⟨by rw [createsEntry_eq herr]; exact iff_of_true hsame.1 hend, hsame.2⟩
    · have hex : ∃ j < r.cur.name + r.cur.len,
          charAt path (j + (path.length - (r.cur.name + r.cur.len))) ≠ charAt path j := by
        simpa [Repeats] using h.resolve_left hend
      have hdiff := endwithLoop_differ env path hex hq
      rw [← heq, Nat.add_sub_cancel' hq] at hdiff
      refine ⟨?_, hdiff.2⟩
      rw [createsEntry_eq herr, hdiff.1]
      exact iff_of_false (by decide) hend

end Decide

/-- At a component that is not found, the decision is right unless the rest of the path repeats what
ends with the component. -/
theorem missing_decided_iff (env : FsEnv) {path : List ℕ} (h0 : 0 ∉ path) {n : ℕ} {nd : Nameidata}
    {cur : Qstr} {s t : FsSys} {r : WalkEnd}
    (hrun : linkPathWalk env path n 0 nd cur s = some (.ok r, t))
    (herr : r.error = some errorFileNotfound) : EntryDecided env path r ↔
      r.cur.name + r.cur.len = path.length ∨ ¬ Repeats path r.cur := by
  obtain ⟨-, -, hq⟩ := linkPathWalk_cur env h0 (Nat.zero_le _) hrun (by rw [herr]; simp)
  exact entryDecided_iff herr hq

/-- An empty root directory. -/
def emptyRoot : FsSys :=
  { blankSys with inodes := fun _ => ⟨0, 0, 0, 0, false, true, [], [], 0⟩ }

/-- The path "a", and the path "a/b". -/
theorem missing_decided_small : EntryDecided soundEnv [97] ⟨some 7, ⟨0, 0, [97]⟩, ⟨0, 1⟩⟩ ∧
    EntryDecided soundEnv [97, 47, 98] ⟨some 7, ⟨0, 0, [97]⟩, ⟨0, 1⟩⟩ := by
  have hrun (path : List ℕ) (h : path = [97] ∨ path = [97, 47, 98]) :
      ∃ t, linkPathWalk soundEnv path 4 0 ⟨0, 0, []⟩ ⟨0, 0⟩ emptyRoot =
        some (.ok ⟨some 7, ⟨0, 0, [97]⟩, ⟨0, 1⟩⟩, t) := by
    rcases h with rfl | rfl
    · exact ⟨emptyRoot, by rfl⟩
    · exact ⟨emptyRoot, by rfl⟩
  obtain ⟨t, h1⟩ := hrun _ (.inl rfl)
  obtain ⟨u, h2⟩ := hrun _ (.inr rfl)
  refine ⟨(missing_decided_iff soundEnv (by decide) h1 rfl).mpr (.inl rfl),
    (missing_decided_iff soundEnv (by decide) h2 rfl).mpr (.inr fun h => ?_)⟩
  exact absurd (h 0 (by decide)) (by decide)

/-- The path "a/a": the walk back from the missing "a" leaves the string, and where the bytes before
it are "a" and a slash the entry is created. -/
theorem missing_not_decided :
    (∃ t, linkPathWalk soundEnv [97, 47, 97] 4 0 ⟨0, 0, []⟩ ⟨0, 0⟩ emptyRoot =
      some (.ok ⟨some 7, ⟨0, 0, [97]⟩, ⟨0, 1⟩⟩, t)) ∧
    ¬ EntryDecided soundEnv [97, 47, 97] ⟨some 7, ⟨0, 0, [97]⟩, ⟨0, 1⟩⟩ ∧
    createsEntry { soundEnv with beforePath := fun i => if i = 0 then 47 else 97 } [97, 47, 97] true
      ⟨some 7, ⟨0, 0, [97]⟩, ⟨0, 1⟩⟩ = true := by
  refine ⟨⟨emptyRoot, by rfl⟩, fun h => ?_, by decide⟩
  exact absurd (h.inside (-1) (by decide)).1 (by decide)

end OurOS.Fs
