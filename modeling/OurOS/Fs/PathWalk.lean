import OurOS.Fs.Open
import OurOS.Fs.PageCache

namespace OurOS.Fs

def slash : ℕ := 47

def isBlank (c : ℕ) : Bool := c == 32 || c == 9 || c == 10

/-- A string is the list of its bytes before the zero byte that ends it. -/
def charAt (str : List ℕ) (i : ℕ) : ℕ := str.getD i 0

/-- A name inside a path: the offset of its first byte and its length. -/
structure Qstr where
  name : ℕ
  len : ℕ
deriving DecidableEq, Repr

def Qstr.text (path : List ℕ) (q : Qstr) : List ℕ := (path.drop q.name).take q.len

def qstrEquals : List ℕ → List ℕ → Bool
  | [], _ => true
  | _ :: _, [] => false
  | c :: name, d :: str => if d = 0 ∨ c ≠ d then false else qstrEquals name str

/-- `ndCurName` of the walk's state is the text of `cur`; `error` is that of the last component. -/
structure WalkEnd where
  error : Option ℕ
  nd : Nameidata
  cur : Qstr
deriving DecidableEq, Repr

section Scanner

variable (path : List ℕ)

def skipBlanks : ℕ → ℕ → ℕ
  | 0, filename => filename
  | n + 1, filename =>
    if charAt path filename = slash ∨ isBlank (charAt path filename) then skipBlanks n (filename + 1)
    else filename

/-- The loop that moves the pointer before it looks at the byte. -/
def componentEnd : ℕ → ℕ → ℕ
  | 0, filename => filename
  | n + 1, filename =>
    let c := charAt path (filename + 1)
    if c ≠ 0 ∧ c ≠ slash then componentEnd n (filename + 1) else filename + 1

end Scanner

section Walk

variable (env : FsEnv)

def walkComponent (nd : Nameidata) : FsProg Nameidata :=
  if qstrEquals nd.ndCurName dotName then pure nd
  else if qstrEquals nd.ndCurName dotdotName then followDotdot env nd
  else doLookup env nd

def linkPathWalk (path : List ℕ) : ℕ → ℕ → Nameidata → Qstr → FsProg WalkEnd
  | 0, _, _, _ => Prog.stuck
  | n + 1, filename, nd, cur =>
    let filename := skipBlanks path path.length filename
    if charAt path filename = 0 then pure ⟨none, nd, cur⟩
    else do
      let stop := componentEnd path path.length filename
      let cur : Qstr := ⟨filename, stop - filename⟩
      let nd := { nd with ndCurName := cur.text path }
      match ← Prog.attempt (walkComponent env nd) with
      | .error e => pure ⟨some e, nd, cur⟩
      | .ok nd => linkPathWalk path n stop nd cur

end Walk

/-- The components of a path: what is between the slashes, without the blanks at the front, where
anything is left. -/
def components (path : List ℕ) : List (List ℕ) :=
  ((path.splitOn slash).map (·.dropWhile isBlank)).filter (· ≠ [])

section Components

variable (env : FsEnv)

def processComponent (nd : Nameidata) : FsProg Nameidata :=
  if nd.ndCurName = dotName then pure nd
  else if nd.ndCurName = dotdotName then followDotdot env nd
  else doLookup env nd

/-- The components one after the other, up to the first error. -/
def walkComponents : List (List ℕ) → Nameidata → FsProg (Option ℕ × Nameidata)
  | [], nd => pure (none, nd)
  | name :: names, nd => do
    let nd := { nd with ndCurName := name }
    match ← Prog.attempt (processComponent env nd) with
    | .error e => pure (some e, nd)
    | .ok nd => walkComponents names nd

end Components

section Split

variable {c : ℕ} {path : List ℕ}

theorem components_slash (path : List ℕ) : components (slash :: path) = components path := by
  rw [components, List.splitOn, List.splitOnP_cons_eq_if_modifyHead, if_pos (by decide)]
  rfl

theorem splitOn_cons_of_ne (hc : c ≠ slash) (path : List ℕ) : ∃ head tail,
    path.splitOn slash = head :: tail ∧ (c :: path).splitOn slash = (c :: head) :: tail := by
  have hne : path.splitOn slash ≠ [] := List.splitOnP_ne_nil _ _
  obtain ⟨head, tail, he⟩ := List.exists_cons_of_ne_nil hne
  refine ⟨head, tail, he, ?_⟩
  rw [List.splitOn, List.splitOnP_cons_eq_if_modifyHead, if_neg (by simpa using hc)]
  change List.modifyHead _ (path.splitOn slash) = _
  rw [he]
  rfl

theorem components_blank (hc : isBlank c = true) (path : List ℕ) :
    components (c :: path) = components path := by
  have hne : c ≠ slash := by
    rintro rfl
    cases hc
  obtain ⟨head, tail, h1, h2⟩ := splitOn_cons_of_ne hne path
  rw [components, components, h1, h2, List.map_cons, List.map_cons, List.dropWhile_cons_of_pos hc]

theorem splitOn_part (path : List ℕ) : ∃ tail,
    path.splitOn slash = path.takeWhile (· ≠ slash) :: tail ∧
      components (path.dropWhile (· ≠ slash)) =
        (tail.map (·.dropWhile isBlank)).filter (· ≠ []) := by
  induction path with
  | nil => exact ⟨[], rfl, rfl⟩
  | cons d path ih =>
    by_cases hd : d = slash
    · subst hd
      refine ⟨path.splitOn slash, ?_, components_slash path⟩
      rw [List.splitOn, List.splitOnP_cons_eq_if_modifyHead, if_pos (by decide)]
      rfl
    · obtain ⟨tail, h1, h2⟩ := ih
      obtain ⟨head, tail', h3, h4⟩ := splitOn_cons_of_ne hd path
      rw [h1] at h3
      cases h3
      refine ⟨tail, ?_, ?_⟩
      · rw [h4, List.takeWhile_cons_of_pos (by simpa using hd)]
      · rw [List.dropWhile_cons_of_pos (by simpa using hd)]
        exact h2

theorem components_cons (hc : c ≠ slash) (hb : isBlank c = false) (path : List ℕ) :
    components (c :: path) =
      (c :: path.takeWhile (· ≠ slash)) :: components (path.dropWhile (· ≠ slash)) := by
  obtain ⟨tail, h1, h2⟩ := splitOn_part path
  obtain ⟨head, tail', h3, h4⟩ := splitOn_cons_of_ne hc path
  rw [h1] at h3
  cases h3
  rw [components, h4, h2, List.map_cons, List.dropWhile_cons_of_neg (by simp [hb])]
  rfl

end Split

section Scan

variable {path : List ℕ}

theorem charAt_of_lt {i : ℕ} (h : i < path.length) : charAt path i = path[i] :=
  List.getD_eq_getElem _ _ h

theorem charAt_eq_zero_iff (h0 : 0 ∉ path) (i : ℕ) : charAt path i = 0 ↔ path.length ≤ i := by
  constructor
  · intro h
    by_contra hi
    have hi := not_le.mp hi
    rw [charAt_of_lt hi] at h
    exact h0 (h ▸ List.getElem_mem hi)
  · exact List.getD_eq_default _ _

theorem drop_eq_charAt_cons {i : ℕ} (h : i < path.length) :
    path.drop i = charAt path i :: path.drop (i + 1) := by
  rw [charAt_of_lt h]
  exact List.drop_eq_getElem_cons h

theorem skipBlanks_spec (h0 : 0 ∉ path) {n f : ℕ} (hf : f ≤ path.length)
    (hn : path.length ≤ f + n) :
    f ≤ skipBlanks path n f ∧ skipBlanks path n f ≤ path.length ∧
      components (path.drop (skipBlanks path n f)) = components (path.drop f) ∧
      charAt path (skipBlanks path n f) ≠ slash ∧
      isBlank (charAt path (skipBlanks path n f)) = false := by
  induction n generalizing f with
  | zero =>
    have hzero := (charAt_eq_zero_iff h0 f).mpr (by omega)
    rw [skipBlanks, hzero]
    exact ⟨le_rfl, hf, rfl, by decide, by decide⟩
  | succ n ih =>
    rw [skipBlanks]
    split_ifs with h
    · have hlt : f < path.length := by
        by_contra hge
        rw [(charAt_eq_zero_iff h0 f).mpr (by omega)] at h
        exact absurd h (by decide)
      obtain ⟨h1, h2, h3, h4⟩ := ih (f := f + 1) (by omega) (by omega)
      refine ⟨by omega, h2, h3.trans ?_, h4⟩
      rw [drop_eq_charAt_cons hlt]
      rcases h with h | h
      · rw [h, components_slash]
      · rw [components_blank h]
    · exact ⟨le_rfl, hf, rfl, fun e => h (.inl e), by simpa using fun e => h (.inr e)⟩

theorem componentEnd_spec (h0 : 0 ∉ path) {n f : ℕ} (hf : f < path.length)
    (hn : path.length ≤ f + n) :
    f < componentEnd path n f ∧ componentEnd path n f ≤ path.length ∧
      (path.drop (f + 1)).takeWhile (· ≠ slash) =
        (path.drop (f + 1)).take (componentEnd path n f - (f + 1)) ∧
      (path.drop (f + 1)).dropWhile (· ≠ slash) = path.drop (componentEnd path n f) := by
  induction n generalizing f with
  | zero => omega
  | succ n ih =>
    rw [componentEnd]
    split_ifs with h
    · have hlt : f + 1 < path.length := by
        by_contra hge
        exact h.1 ((charAt_eq_zero_iff h0 _).mpr (by omega))
      obtain ⟨h1, h2, h3, h4⟩ := ih (f := f + 1) hlt (by omega)
      refine ⟨by omega, h2, ?_, ?_⟩
      · rw [drop_eq_charAt_cons hlt, List.takeWhile_cons_of_pos (by simpa using h.2), h3,
          show componentEnd path n (f + 1) - (f + 1) =
            componentEnd path n (f + 1) - (f + 1 + 1) + 1 by omega, List.take_succ_cons]
      · rw [drop_eq_charAt_cons hlt, List.dropWhile_cons_of_pos (by simpa using h.2), h4]
    · rw [Nat.sub_self, List.take_zero]
      by_cases hlt : f + 1 < path.length
      · have hzero : charAt path (f + 1) ≠ 0 := fun e =>
          hlt.not_ge ((charAt_eq_zero_iff h0 _).mp e)
        have hslash : charAt path (f + 1) = slash := not_not.mp fun e => h ⟨hzero, e⟩
        refine ⟨by omega, hf, ?_, ?_⟩
        · rw [drop_eq_charAt_cons hlt, List.takeWhile_cons_of_neg (by simpa using hslash)]
        · rw [drop_eq_charAt_cons hlt, List.dropWhile_cons_of_neg (by simpa using hslash)]
      · rw [List.drop_eq_nil_of_le (by omega)]
        exact ⟨by omega, hf, rfl, rfl⟩

theorem component_spec (h0 : 0 ∉ path) {f : ℕ} (hf : f < path.length)
    (hslash : charAt path f ≠ slash) (hblank : isBlank (charAt path f) = false) :
    f < componentEnd path path.length f ∧ componentEnd path path.length f ≤ path.length ∧
      components (path.drop f) =
        Qstr.text path ⟨f, componentEnd path path.length f - f⟩ ::
          components (path.drop (componentEnd path path.length f)) := by
  obtain ⟨h1, h2, h3, h4⟩ := componentEnd_spec h0 hf (Nat.le_add_left _ _)
  refine ⟨h1, h2, ?_⟩
  rw [drop_eq_charAt_cons hf, components_cons hslash hblank, h3, h4, Qstr.text,
    drop_eq_charAt_cons hf,
    show componentEnd path path.length f - f = componentEnd path path.length f - (f + 1) + 1 by omega,
    List.take_succ_cons]

end Scan

section Equals

theorem qstrEquals_iff {name str : List ℕ} (h0 : 0 ∉ str) :
    qstrEquals name str = true ↔ name <+: str := by
  induction name generalizing str with
  | nil => exact iff_of_true rfl (List.nil_prefix)
  | cons c name ih =>
    cases str with
    | nil => exact iff_of_false (by simp [qstrEquals]) (by simp)
    | cons d str =>
      have hd : d ≠ 0 := fun e => h0 (e ▸ List.mem_cons_self)
      rw [qstrEquals, List.cons_prefix_cons]
      split_ifs with h
      · exact iff_of_false (by simp) fun h' => h.elim hd fun h => h h'.1
      · rw [ih fun hm => h0 (List.mem_cons_of_mem _ hm)]
        have hcd : c = d := not_not.mp fun e => h (.inr e)
        exact (and_iff_right hcd).symm

/-- The test is one for a prefix, but what it is tried on is not empty, and "." comes before "..". -/
theorem walkComponent_eq (env : FsEnv) {nd : Nameidata} (h : nd.ndCurName ≠ []) :
    walkComponent env nd = processComponent env nd := by
  have hdot : qstrEquals nd.ndCurName dotName = true ↔ nd.ndCurName = dotName := by
    rw [qstrEquals_iff (by decide)]
    constructor
    · intro hp
      obtain ⟨c, name, he⟩ := List.exists_cons_of_ne_nil h
      rw [he, dotName, List.cons_prefix_cons, List.prefix_nil] at hp
      rw [he, dotName, hp.1, hp.2]
    · rintro he
      rw [he]
  have hdotdot : nd.ndCurName ≠ dotName →
      (qstrEquals nd.ndCurName dotdotName = true ↔ nd.ndCurName = dotdotName) := by
    intro hne
    rw [qstrEquals_iff (by decide)]
    constructor
    · intro hp
      obtain ⟨c, name, he⟩ := List.exists_cons_of_ne_nil h
      rw [he] at hne hp ⊢
      obtain ⟨hc, hp⟩ := List.cons_prefix_cons.mp hp
      cases name with
      | nil => exact absurd (by rw [hc]; rfl) hne
      | cons d name =>
        obtain ⟨hd, hp⟩ := List.cons_prefix_cons.mp hp
        rw [hc, hd, List.prefix_nil.mp hp]
        rfl
    · rintro he
      rw [he]
  rw [walkComponent, processComponent]
  by_cases hne : nd.ndCurName = dotName
  · rw [if_pos (hdot.mpr hne), if_pos hne]
  · rw [if_neg (mt hdot.mp hne), if_neg hne]
    simp only [hdotdot hne]

end Equals

section Run

variable (env : FsEnv) {path : List ℕ} {nd nd' : Nameidata} {s t : FsSys}

theorem linkPathWalk_from (h0 : 0 ∉ path) {n f : ℕ} (hf : f ≤ path.length)
    (hn : path.length < f + n) (nd : Nameidata) (cur : Qstr) (s : FsSys) :
    (linkPathWalk env path n f nd cur >>= fun r => pure (r.error, r.nd)) s =
      walkComponents env (components (path.drop f)) nd s := by
  induction n generalizing f nd cur s with
  | zero => omega
  | succ n ih =>
    obtain ⟨h1, h2, h3, hslash, hblank⟩ := skipBlanks_spec h0 hf (Nat.le_add_left _ f)
    rw [linkPathWalk, ← h3]
    generalize skipBlanks path path.length f = g at h1 h2 h3 hslash hblank ⊢
    dsimp only
    by_cases hz : charAt path g = 0
    · rw [if_pos hz, List.drop_eq_nil_of_le ((charAt_eq_zero_iff h0 g).mp hz)]
      rfl
    · have hg : g < path.length := by
        by_contra hge
        exact hz ((charAt_eq_zero_iff h0 g).mpr (not_lt.mp hge))
      obtain ⟨h4, h5, h6⟩ := component_spec h0 hg hslash hblank
      have htext : Qstr.text path ⟨g, componentEnd path path.length g - g⟩ ≠ [] := by
        rw [Qstr.text, drop_eq_charAt_cons hg]
        simp only [ne_eq, List.take_eq_nil_iff, reduceCtorEq, or_false]
        omega
      rw [if_neg hz, h6, walkComponents, walkComponent_eq env htext, bind_assoc]
      refine Prog.bind_run_congr_right fun r t _ => ?_
      cases r with
      | error e => rfl
      | ok nd => exact ih h5 (by omega) nd _ t

/-- A walk that does not come back stays in one of its components, after those before it. -/
theorem walkComponents_none {names : List (List ℕ)} (h : walkComponents env names nd s = none) :
    ∃ as name bs nd' t, names = as ++ name :: bs ∧
      walkComponents env as nd s = some (.ok (none, nd'), t) ∧
      processComponent env { nd' with ndCurName := name } t = none := by
  induction names generalizing nd s with
  | nil => cases h
  | cons name names ih =>
    rw [walkComponents] at h
    cases hstep : processComponent env { nd with ndCurName := name } s with
    | none => exact ⟨[], name, names, nd, s, rfl, rfl, hstep⟩
    | some out =>
      obtain ⟨r, t⟩ := out
      rw [Prog.bind_ok (Prog.attempt_run hstep)] at h
      cases r with
      | error e => cases h
      | ok nd₁ =>
        obtain ⟨as, last, bs, nd', u, rfl, hrun, hlast⟩ := ih h
        refine ⟨name :: as, last, bs, nd', u, rfl, ?_, hlast⟩
        rw [walkComponents, Prog.bind_ok (Prog.attempt_run hstep)]
        exact hrun

theorem walkComponents_error {names : List (List ℕ)} {e : ℕ} {nd₁ : Nameidata} {u : FsSys}
    (h : walkComponents env names nd s = some (.ok (some e, nd₁), u)) :
    ∃ as bs nd' t, names = as ++ nd₁.ndCurName :: bs ∧
      walkComponents env as nd s = some (.ok (none, nd'), t) ∧
      nd₁ = { nd' with ndCurName := nd₁.ndCurName } ∧
      processComponent env nd₁ t = some (.error e, u) := by
  induction names generalizing nd s with
  | nil => cases h
  | cons name names ih =>
    rw [walkComponents] at h
    cases hstep : processComponent env { nd with ndCurName := name } s with
    | none =>
      rw [Prog.bind_none (by rw [Prog.attempt, hstep])] at h
      cases h
    | some out =>
      obtain ⟨r, t⟩ := out
      rw [Prog.bind_ok (Prog.attempt_run hstep)] at h
      cases r with
      | error e' =>
        cases h
        exact ⟨[], names, nd, s, rfl, rfl, rfl, hstep⟩
      | ok nd₂ =>
        obtain ⟨as, bs, nd', u', hnames, hrun, hnd, hlast⟩ := ih h
        refine ⟨name :: as, bs, nd', u', by rw [hnames]; rfl, ?_, hnd, hlast⟩
        rw [walkComponents, Prog.bind_ok (Prog.attempt_run hstep)]
        exact hrun

theorem linkPathWalk_cur (h0 : 0 ∉ path) {n f : ℕ} (hf : f ≤ path.length) {cur : Qstr} {r : WalkEnd}
    (h : linkPathWalk env path n f nd cur s = some (.ok r, t)) (herr : r.error ≠ none) :
    r.nd.ndCurName = r.cur.text path ∧ 0 < r.cur.len ∧ r.cur.name + r.cur.len ≤ path.length := by
  induction n generalizing f nd cur s with
  | zero => cases h
  | succ n ih =>
    obtain ⟨h1, h2, h3, hslash, hblank⟩ := skipBlanks_spec h0 hf (Nat.le_add_left _ f)
    rw [linkPathWalk] at h
    generalize skipBlanks path path.length f = g at h1 h2 h3 hslash hblank h
    dsimp only at h
    by_cases hz : charAt path g = 0
    · rw [if_pos hz] at h
      cases h
      exact absurd rfl herr
    · have hg : g < path.length := by
        by_contra hge
        exact hz ((charAt_eq_zero_iff h0 g).mpr (not_lt.mp hge))
      obtain ⟨h4, h5, -⟩ := component_spec h0 hg hslash hblank
      rw [if_neg hz] at h
      obtain ⟨r', u, hstep, h⟩ := Prog.bind_ok_cases h
      obtain ⟨r'', hr, hstep⟩ := Prog.attempt_cases hstep
      cases hr
      cases r' with
      | ok nd₁ => exact ih h5 h
      | error e =>
        cases h
        refine ⟨rfl, Nat.sub_pos_of_lt h4, ?_⟩
        change g + (componentEnd path path.length g - g) ≤ _
        omega

end Run

/-- What a walk of a path does: `linkPathWalk` comes to the same end as the walk over the
components, comes back unless the step of a component does not, and leaves the component that
failed in `nd_cur_name`. -/
structure WalksComponents (env : FsEnv) (path : List ℕ) (n : ℕ) (nd : Nameidata) (cur : Qstr)
    (s : FsSys) : Prop where
  walk : (linkPathWalk env path n 0 nd cur >>= fun r => pure (r.error, r.nd)) s =
    walkComponents env (components path) nd s
  returns : linkPathWalk env path n 0 nd cur s = none → ∃ as name bs nd' t,
    components path = as ++ name :: bs ∧
      walkComponents env as nd s = some (.ok (none, nd'), t) ∧
      processComponent env { nd' with ndCurName := name } t = none
  failing : ∀ r t e, linkPathWalk env path n 0 nd cur s = some (.ok r, t) → r.error = some e →
    r.nd.ndCurName = r.cur.text path ∧ ∃ as bs nd' u,
      components path = as ++ r.nd.ndCurName :: bs ∧
      walkComponents env as nd s = some (.ok (none, nd'), u) ∧
      processComponent env r.nd u = some (.error e, t)

theorem linkPathWalk_components (env : FsEnv) {path : List ℕ} (h0 : 0 ∉ path) {n : ℕ}
    (hn : path.length < n) (nd : Nameidata) (cur : Qstr) (s : FsSys) :
    WalksComponents env path n nd cur s := by
  have hwalk := linkPathWalk_from env h0 (Nat.zero_le _) (by omega : path.length < 0 + n) nd cur s
  rw [List.drop_zero] at hwalk
  refine ⟨hwalk, fun h => ?_, fun r t e h herr => ?_⟩
  · rw [Prog.bind_none h] at hwalk
    exact walkComponents_none env hwalk.symm
  · rw [Prog.bind_ok h, herr] at hwalk
    obtain ⟨as, bs, nd', u, h1, h2, -, h3⟩ := walkComponents_error env hwalk.symm
    exact ⟨(linkPathWalk_cur env h0 (Nat.zero_le _) h (by rw [herr]; simp)).1, as, bs, nd', u, h1, h2,
      h3⟩

/-- The path "/ ../...//a" has the components "..", "..." and "a". -/
theorem linkPathWalk_components_small :
    components [47, 32, 46, 46, 47, 46, 46, 46, 47, 47, 97] = [[46, 46], [46, 46, 46], [97]] ∧
      WalksComponents soundEnv
        [47, 32, 46, 46, 47, 46, 46, 46, 47, 47, 97] 12 ⟨0, 0, []⟩ ⟨0, 0⟩ blankSys :=
  ⟨by decide, linkPathWalk_components _ (by decide) (by decide) _ _ _⟩

end OurOS.Fs
