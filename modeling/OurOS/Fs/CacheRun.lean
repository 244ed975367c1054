import OurOS.Fs.CacheFlush
import OurOS.Fs.InodeSpec

namespace OurOS.Fs

/-- What a number that `kmalloc` has returned is used for. -/
inductive Kind
  | dentry
  | inode
  | other
deriving DecidableEq, Repr

structure CacheState where
  sys : FsSys
  kind : ℕ → Kind

inductive CacheOp
  | allocInode (sb clu size : ℕ) (isdir : Bool)
  | allocDentry (sb node : ℕ) (parent : Option ℕ) (name : List ℕ)
  | dInc (entry : ℕ)
  | dDec (entry : ℕ)
  | iInc (node : ℕ)
  | iDec (node : ℕ)
  | setPinned (entry : ℕ) (pinned : Bool)
  | freeInode (node : ℕ)
deriving DecidableEq, Repr

def setPinned (entry : ℕ) (pinned : Bool) (s : FsSys) : FsSys :=
  (s.setInode (s.dentries entry).dInode fun n => { n with iPinned := pinned }).setDentry entry
    fun d => { d with dPinned := pinned }

namespace CacheOp

def run (env : FsEnv) : CacheOp → FsProg Unit
  | allocInode sb clu size isdir => do let _ ← allocInodeFat32 env sb clu size isdir
  | allocDentry sb node parent name => do let _ ← allocDentryFat32 env sb node parent name
  | dInc entry => Prog.modify (dIncCount entry)
  | dDec entry => Prog.modify (dDecCount entry)
  | iInc node => Prog.modify (iIncCount node)
  | iDec node => Prog.modify (iDecCount node)
  | setPinned entry pinned => Prog.modify (Fs.setPinned entry pinned)
  | freeInode node => Fs.freeInode node

def fresh : CacheOp → Kind
  | allocInode .. => .inode
  | allocDentry .. => .dentry
  | _ => .other

end CacheOp

namespace CacheState

def isA (c : CacheState) (x : ℕ) (k : Kind) : Prop := x < c.sys.brk ∧ c.kind x = k

instance (c : CacheState) (x : ℕ) (k : Kind) : Decidable (c.isA x k) :=
  inferInstanceAs (Decidable (_ ∧ _))

def typed (c : CacheState) : CacheOp → Prop
  | .allocInode .. => True
  | .allocDentry _ node parent _ => c.isA node .inode ∧ ∀ p ∈ parent, c.isA p .dentry
  | .dInc entry => c.isA entry .dentry
  | .dDec entry => c.isA entry .dentry
  | .iInc node => c.isA node .inode
  | .iDec node => c.isA node .inode
  | .setPinned entry _ => c.isA entry .dentry
  | .freeInode node => c.isA node .inode

instance (c : CacheState) : DecidablePred c.typed := fun op => by
  cases op <;> simp only [typed] <;> infer_instance

def nextKind (c : CacheState) (op : CacheOp) (x : ℕ) : Kind :=
  if x < c.sys.brk then c.kind x else if x = c.sys.brk then op.fresh else .other

end CacheState

theorem CacheState.nextKind_old {c : CacheState} {op : CacheOp} {x : ℕ} (h : x < c.sys.brk) :
    c.nextKind op x = c.kind x :=
  if_pos h

theorem CacheState.nextKind_brk {c : CacheState} {op : CacheOp} :
    c.nextKind op c.sys.brk = op.fresh := by
  rw [nextKind, if_neg (lt_irrefl _), if_pos rfl]

def cacheStep (env : FsEnv) (c : CacheState) (op : CacheOp) : Option CacheState :=
  if c.typed op then (op.run env c.sys).map fun out => ⟨out.2, c.nextKind op⟩ else none

structure CacheInv (s : FsSys) (kind : ℕ → Kind) : Prop where
  dLru : ∀ d ∈ s.dCache.lru, d < s.brk ∧ kind d = .dentry
  iLru : ∀ n ∈ s.iCache.lru, n < s.brk ∧ kind n = .inode
  iDentry : ∀ n, ∀ d ∈ (s.inodes n).iDentry, (d < s.brk ∧ kind d = .dentry) ∧
    (s.dentries d).dInode = n
  iDataMap : ∀ n, ∀ m ∈ (s.inodes n).iDataMap, (m < s.brk ∧ kind m = .other) ∧
    ∀ p, (s.maps m).mapPage = some (.ok p) → p < s.brk ∧ kind p = .other

section Inv

variable {s t : FsSys} {k k' : ℕ → Kind}

theorem CacheInv.step (h : CacheInv s k) (hbrk : s.brk ≤ t.brk) (hk : ∀ x < s.brk, k' x = k x)
    (hd : ∀ d ∈ t.dCache.lru, d ∈ s.dCache.lru ∨ d < t.brk ∧ k' d = .dentry)
    (hi : ∀ n ∈ t.iCache.lru, n ∈ s.iCache.lru ∨ n < t.brk ∧ k' n = .inode)
    (hentry : ∀ n, ∀ d ∈ (t.inodes n).iDentry, d ∈ (s.inodes n).iDentry ∧
        (t.dentries d).dInode = (s.dentries d).dInode ∨
      (d < t.brk ∧ k' d = .dentry) ∧ (t.dentries d).dInode = n)
    (hmap : ∀ n, ∀ m ∈ (t.inodes n).iDataMap, m ∈ (s.inodes n).iDataMap ∧
        (t.maps m).mapPage = (s.maps m).mapPage ∨
      (m < t.brk ∧ k' m = .other) ∧ (t.maps m).mapPage = none) : CacheInv t k' := by
  have hold : ∀ x c, x < s.brk ∧ k x = c → x < t.brk ∧ k' x = c :=
    fun x c hx => ⟨hx.1.trans_le hbrk, (hk x hx.1).trans hx.2⟩
  refine ⟨fun d hd' => ?_, fun n hn => ?_, fun n d hd' => ?_, fun n m hm => ?_⟩
  · rcases hd d hd' with hmem | hnew
    · exact hold d _ (h.dLru d hmem)
    · exact hnew
  · rcases hi n hn with hmem | hnew
    · exact hold n _ (h.iLru n hmem)
    · exact hnew
  · rcases hentry n d hd' with ⟨hmem, hsame⟩ | hnew
    · obtain ⟨h1, h2⟩ := h.iDentry n d hmem
      exact ⟨hold d _ h1, hsame.trans h2⟩
    · exact hnew
  · rcases hmap n m hm with ⟨hmem, hsame⟩ | ⟨hnew, hnone⟩
    · obtain ⟨h1, h2⟩ := h.iDataMap n m hmem
      exact ⟨hold m _ h1, fun p hp => hold p _ (h2 p (hsame ▸ hp))⟩
    · refine ⟨hnew, fun p hp => ?_⟩
      rw [hnone] at hp
      cases hp

theorem KeptRest.inv (hk : KeptRest s t) (h : CacheInv s k) : CacheInv t k :=
  h.step hk.brk.ge (fun _ _ => rfl) (fun d hd => .inl (hk.dLru d hd))
    (fun n hn => .inl (hk.iLru n hn))
    (fun n d hd => .inl ⟨hk.iDentry n d hd, by rw [hk.dentry]⟩)
    (fun n m hm => .inl ⟨hk.iDataMap n m hm, by rw [hk.maps]⟩)

end Inv

theorem discard_cases {α : Type} {m : FsProg α} {s t : FsSys} {r : Except ℕ Unit}
    (h : (do let _ ← m : FsProg Unit) s = some (r, t)) :
    ∃ r', m s = some (r', t) ∧ r = r'.map fun _ => () := by
  rcases Prog.bind_cases h with ⟨a, u, h1, h2⟩ | ⟨e, h1, rfl⟩
  · cases h2
    exact ⟨.ok a, h1, rfl⟩
  · exact ⟨.error e, h1, rfl⟩

def FreedOld (xs : List ℕ) (s t : FsSys) : Prop :=
  ∀ x < s.brk, t.live x = true ↔ s.live x = true ∧ x ∉ xs

theorem Freed.old {xs : List ℕ} {s t : FsSys} (h : Freed xs s t) : FreedOld xs s t :=
  fun x _ => h x

theorem FreedOld.nil {s t : FsSys} (h : ∀ x < s.brk, t.live x = s.live x) : FreedOld [] s t :=
  fun x hx => by simp [h x hx]

/-- An insertion: when it fails nothing is freed, and when it makes room in a full cache it frees
`objects`. -/
structure InsertOutcome (s t : FsSys) (r : Except ℕ Unit) (full allPinned : Prop)
    (objects : List ℕ) : Prop where
  failed : ∀ e, r = .error e → FreedOld [] s t
  done : r = .ok () → full → ¬ allPinned ∧ FreedOld objects s t
  room : r = .ok () → ¬ full → FreedOld [] s t

structure StepOutcome (c : CacheState) (op : CacheOp) (t : FsSys) : Prop where
  inv : CacheInv t (c.nextKind op)
  brk : c.sys.brk ≤ t.brk
  dInode : ∀ d < c.sys.brk, (t.dentries d).dInode = (c.sys.dentries d).dInode

theorem Flushed.outcome {full : Prop} {vs objects : List ℕ} {s s' u t : FsSys} {room : Bool}
    {r : Except ℕ Unit} {allPinned : Prop} (h : Flushed full vs objects s' u room)
    (hvs : vs = [] ↔ allPinned) (hobj : vs = [] → objects = [])
    (hold : ∀ xs, Freed xs s' u → FreedOld xs s t)
    (hr : r = if room then .ok () else .error errorCacheFull) :
    InsertOutcome s t r full allPinned objects ∧
      (full → allPinned → r = .error errorCacheFull) := by
  have hempty : full → (room = false ↔ vs = []) := by
    intro hfull
    rw [(h.flushed hfull).2, Bool.not_eq_false', List.isEmpty_iff]
  refine ⟨⟨fun e he => ?_, fun hok hfull => ?_, fun hok hnot => ?_⟩, fun hfull hall => ?_⟩
  · cases hroom : room with
    | true =>
      rw [hr, hroom] at he
      cases he
    | false =>
      have hfull : full := by
        by_contra hnot
        rw [(h.notFull hnot).2] at hroom
        cases hroom
      have hnil := hobj ((hempty hfull).mp hroom)
      have hfreed := (h.flushed hfull).1
      rw [hnil] at hfreed
      exact hold [] hfreed
  · refine ⟨fun hall => ?_, hold _ (h.flushed hfull).1⟩
    rw [hr, (hempty hfull).mpr (hvs.mpr hall)] at hok
    cases hok
  · obtain ⟨rfl, -⟩ := h.notFull hnot
    exact hold [] (.refl u)
  · rw [hr, (hempty hfull).mpr (hvs.mpr hall)]
    rfl

section Dentry

variable {env : FsEnv} {s t : FsSys} {sb node : ℕ} {parent : Option ℕ} {name : List ℕ}

def linked (sb node : ℕ) (parent : Option ℕ) (name : List ℕ) (s : FsSys) : FsSys :=
  linkDentry node s.brk parent
    ((grabbed s).setDentry s.brk fun _ => newDentry sb node s.brk parent name)

theorem allocDentryFat32_noMemory (h : env.kmallocFails s.brk = true) :
    allocDentryFat32 env sb node parent name s =
      some (.error errorNoMemory, { s with brk := s.brk + 1 }) := by
  rw [allocDentryFat32, Prog.bind_ok (kmalloc_null h)]
  rfl

theorem allocDentryFat32_eq (h : env.kmallocFails s.brk = false) :
    allocDentryFat32 env sb node parent name s = (do
      if ← addToDCache s.brk then pure s.brk else Prog.throw errorCacheFull : FsProg ℕ)
        (linked sb node parent name s) := by
  rw [allocDentryFat32, Prog.bind_ok (kmalloc_grabs h)]
  rfl

theorem linked_same : (linked sb node parent name s).brk = s.brk + 1 ∧
    (linked sb node parent name s).live = Function.update s.live s.brk true ∧
    (linked sb node parent name s).maps = s.maps ∧
    (linked sb node parent name s).dCache = s.dCache ∧
    (linked sb node parent name s).iCache.lru = node :: s.iCache.lru.erase node := by
  cases parent <;> exact ⟨rfl, rfl, rfl, rfl, rfl⟩

theorem linked_inodes (n : ℕ) : (linked sb node parent name s).inodes n = { s.inodes n with
    iCount := (s.inodes n).iCount + if n = node then 1 else 0
    iDentry := if n = node then s.brk :: (s.inodes n).iDentry else (s.inodes n).iDentry } := by
  have h : (linked sb node parent name s).inodes n = ((iIncCount node s).setInode node fun n =>
      { n with iDentry := s.brk :: n.iDentry }).inodes n := by
    cases parent <;> rfl
  rw [h]
  by_cases e : n = node
  · subst e
    simp [FsSys.setInode, iIncCount]
  · simp [FsSys.setInode, iIncCount, e]

theorem linked_dentries (d : ℕ) : (linked sb node parent name s).dentries d =
    { (if d = s.brk then newDentry sb node s.brk parent name else s.dentries d) with
      dSubdirs := ((linked sb node parent name s).dentries d).dSubdirs } := by
  have hnew (d : ℕ) : ((grabbed s).setDentry s.brk fun _ =>
      newDentry sb node s.brk parent name).dentries d =
        if d = s.brk then newDentry sb node s.brk parent name else s.dentries d := by
    by_cases e : d = s.brk
    · subst e
      simp [FsSys.setDentry]
    · simp [FsSys.setDentry, e, grabbed]
  rw [← hnew d]
  cases parent with
  | none => rfl
  | some p =>
    have hlink : (linked sb node (some p) name s).dentries = (((grabbed s).setDentry s.brk fun _ =>
        newDentry sb node s.brk (some p) name).setDentry p fun d =>
          { d with dSubdirs := s.brk :: d.dSubdirs }).dentries := rfl
    rw [hlink]
    by_cases e : d = p
    · subst e
      simp [FsSys.setDentry]
    · simp [FsSys.setDentry, e]

theorem victims_congr {p p' u u' : ℕ → Bool} {lru : List ℕ}
    (h : ∀ x ∈ lru, p x = p' x ∧ u x = u' x) : victims p u lru = victims p' u' lru := by
  have hidle : (lru.reverse.filter fun x => !p x && u x) =
      lru.reverse.filter fun x => !p' x && u' x :=
    List.filter_congr fun x hx => by
      obtain ⟨h1, h2⟩ := h x (List.mem_reverse.mp hx)
      rw [h1, h2]
  have hfind : (lru.reverse.find? fun x => !p x) = lru.reverse.find? fun x => !p' x := by
    rw [← List.head?_filter, ← List.head?_filter]
    exact congrArg List.head? (List.filter_congr fun x hx => by
      rw [(h x (List.mem_reverse.mp hx)).1])
  rw [victims, victims, hidle, hfind]

theorem linked_victims (h : ∀ d ∈ s.dCache.lru, d < s.brk) :
    dVictims (linked sb node parent name s) = dVictims s := by
  rw [dVictims, linked_same.2.2.2.1]
  refine victims_congr fun d hd => ?_
  rw [linked_dentries, if_neg (h d hd).ne]
  exact ⟨rfl, rfl⟩

theorem linked_inv {kind k' : ℕ → Kind} (h : CacheInv s kind)
    (hn : node < s.brk ∧ kind node = .inode) (hk : ∀ x < s.brk, k' x = kind x)
    (hnew : k' s.brk = .dentry) : CacheInv (linked sb node parent name s) k' := by
  obtain ⟨hbrk, -, hmaps, hd, hi⟩ := @linked_same s sb node parent name
  refine h.step (by omega) hk (fun d hm => .inl (hd ▸ hm)) (fun n hm => ?_) (fun n d hm => ?_)
    (fun n m hm => .inl ⟨?_, by rw [hmaps]⟩)
  · rw [hi] at hm
    rcases List.mem_cons.mp hm with rfl | hm
    · exact .inr ⟨by omega, (hk n hn.1).trans hn.2⟩
    · exact .inl (List.mem_of_mem_erase hm)
  · have hold : d ∈ (s.inodes n).iDentry → d ∈ (s.inodes n).iDentry ∧
        ((linked sb node parent name s).dentries d).dInode = (s.dentries d).dInode := by
      intro hd'
      refine ⟨hd', ?_⟩
      rw [linked_dentries, if_neg (h.iDentry n d hd').1.1.ne]
    rw [linked_inodes] at hm
    by_cases e : n = node
    · subst e
      simp only [if_true] at hm
      rcases List.mem_cons.mp hm with rfl | hm
      · refine .inr ⟨⟨by omega, hnew⟩, ?_⟩
        rw [linked_dentries, if_pos rfl]
        rfl
      · exact .inl (hold hm)
    · simp only [if_neg e] at hm
      exact .inl (hold hm)
  · rw [linked_inodes] at hm
    exact hm

theorem allocDentryFat32_cases {r : Except ℕ ℕ} (hlru : ∀ d ∈ s.dCache.lru, d < s.brk)
    (h : allocDentryFat32 env sb node parent name s = some (r, t)) :
    env.kmallocFails s.brk = true ∧ r = .error errorNoMemory ∧ t = { s with brk := s.brk + 1 } ∨
      env.kmallocFails s.brk = false ∧ ∃ u room, Flushed (s.dCache.size = dcacheCapacity)
        (dVictims s) (dVictims s) (linked sb node parent name s) u room ∧
          r = (if room then .ok s.brk else .error errorCacheFull) ∧
          t = if room then enteredD s.brk u else u := by
  cases hk : env.kmallocFails s.brk with
  | true =>
    rw [allocDentryFat32_noMemory hk] at h
    cases h
    exact .inl ⟨rfl, rfl, rfl⟩
  | false =>
    rw [allocDentryFat32_eq hk] at h
    obtain ⟨u, room, hf, hadd⟩ := addToDCache_spec s.brk (linked sb node parent name s)
    rw [linked_victims hlru, linked_same.2.2.2.1] at hf
    rw [Prog.bind_ok hadd] at h
    refine .inr ⟨rfl, u, room, hf, ?_⟩
    cases room <;>
      · cases h
        exact ⟨rfl, rfl⟩

theorem enteredD_inv {kind : ℕ → Kind} {entry : ℕ} (h : CacheInv s kind)
    (he : entry < s.brk ∧ kind entry = .dentry) : CacheInv (enteredD entry s) kind := by
  refine h.step le_rfl (fun _ _ => rfl) (fun d hd => ?_) (fun n hn => .inl hn)
    (fun n d hd => .inl ⟨hd, rfl⟩) (fun n m hm => .inl ⟨hm, rfl⟩)
  rcases List.mem_cons.mp hd with rfl | hd
  · exact .inr he
  · exact .inl hd

theorem linked_freed {xs : List ℕ} {u : FsSys} (h : Freed xs (linked sb node parent name s) u) :
    FreedOld xs s u := by
  intro x hx
  rw [h x, linked_same.2.1, Function.update_of_ne hx.ne]

theorem allocDentry_outcome {c : CacheState} {r : Except ℕ Unit} (h : CacheInv c.sys c.kind)
    (hop : c.typed (.allocDentry sb node parent name))
    (hr : (CacheOp.allocDentry sb node parent name).run env c.sys = some (r, t)) :
    StepOutcome c (.allocDentry sb node parent name) t ∧
      InsertOutcome c.sys t r (c.sys.dCache.size = dcacheCapacity)
        (∀ d ∈ c.sys.dCache.lru, (c.sys.dentries d).dPinned = true) (dVictims c.sys) ∧
      (env.kmallocFails c.sys.brk = false → c.sys.dCache.size = dcacheCapacity →
        (∀ d ∈ c.sys.dCache.lru, (c.sys.dentries d).dPinned = true) →
          r = .error errorCacheFull) := by
  obtain ⟨hnode, -⟩ := hop
  obtain ⟨r', hr', rfl⟩ := discard_cases hr
  rcases allocDentryFat32_cases (fun d hd => (h.dLru d hd).1) hr' with
    ⟨hfail, rfl, rfl⟩ | ⟨hgot, u, room, hf, rfl, rfl⟩
  · refine ⟨⟨?_, Nat.le_succ _, fun _ _ => rfl⟩, ⟨fun _ _ => .nil fun _ _ => rfl,
      fun hok => (by cases hok), fun hok => (by cases hok)⟩, fun hgot => ?_⟩
    · exact h.step (Nat.le_succ _) (fun _ => CacheState.nextKind_old) (fun _ => .inl)
        (fun _ => .inl) (fun _ _ hd => .inl ⟨hd, rfl⟩) (fun _ _ hm => .inl ⟨hm, rfl⟩)
    · rw [hfail] at hgot
      cases hgot
  · have hbrk : u.brk = c.sys.brk + 1 := hf.kept.brk.trans linked_same.1
    have hinv : CacheInv u (c.nextKind (.allocDentry sb node parent name)) :=
      hf.kept.inv (linked_inv h hnode (fun _ => CacheState.nextKind_old) CacheState.nextKind_brk)
    have hold : ∀ d < c.sys.brk, (u.dentries d).dInode = (c.sys.dentries d).dInode := by
      intro d hd
      rw [hf.kept.dentry, linked_dentries, if_neg hd.ne]
    have hout := hf.outcome (s := c.sys) (t := if room then enteredD c.sys.brk u else u)
      victims_eq_nil id (fun xs hx => ?_) rfl
    · refine ⟨?_, ?_, fun _ => ?_⟩
      · cases room with
        | true =>
          exact ⟨enteredD_inv hinv ⟨by omega, CacheState.nextKind_brk⟩, by
            change _ ≤ u.brk
            omega, hold⟩
        | false =>
          exact ⟨hinv, by
            change _ ≤ u.brk
            omega, hold⟩
      · cases room <;> exact hout.1
      · cases room <;> exact hout.2
    · have := linked_freed hx
      cases room <;> exact this

end Dentry

structure Built (node : ℕ) (s t : FsSys) : Prop where
  brk : s.brk ≤ t.brk
  live : ∀ x < s.brk, t.live x = s.live x
  dentries : t.dentries = s.dentries
  dCache : t.dCache = s.dCache
  iCache : t.iCache = s.iCache
  maps : ∀ m < s.brk, t.maps m = s.maps m
  other : ∀ n, n ≠ node → t.inodes n = s.inodes n
  iDentry : (t.inodes node).iDentry = (s.inodes node).iDentry
  iDataMap : ∀ m ∈ (t.inodes node).iDataMap, m ∈ (s.inodes node).iDataMap ∨
    s.brk ≤ m ∧ m < t.brk ∧ (t.maps m).mapPage = none

section Inode

variable {env : FsEnv} {s t : FsSys} {node : ℕ}

theorem SameObjects.built (h : SameObjects s t) (node : ℕ) : Built node s t :=
  ⟨h.brk, h.live, h.dentries, h.dCache, h.iCache, fun m _ => by rw [h.maps],
    fun n _ => by rw [h.inodes], by rw [h.inodes], fun m hm => .inl (h.inodes ▸ hm)⟩

theorem Built.trans {u : FsSys} (h₁ : Built node s t) (h₂ : Built node t u) : Built node s u where
  brk := h₁.brk.trans h₂.brk
  live x hx := (h₂.live x (hx.trans_le h₁.brk)).trans (h₁.live x hx)
  dentries := h₂.dentries.trans h₁.dentries
  dCache := h₂.dCache.trans h₁.dCache
  iCache := h₂.iCache.trans h₁.iCache
  maps m hm := (h₂.maps m (hm.trans_le h₁.brk)).trans (h₁.maps m hm)
  other n hn := (h₂.other n hn).trans (h₁.other n hn)
  iDentry := h₂.iDentry.trans h₁.iDentry
  iDataMap m hm := by
    rcases h₂.iDataMap m hm with hm | ⟨hlo, hhi, hnone⟩
    · rcases h₁.iDataMap m hm with hm | ⟨hlo, hhi, hnone⟩
      · exact .inl hm
      · exact .inr ⟨hlo, hhi.trans_le h₂.brk, by rw [h₂.maps m hhi, hnone]⟩
    · exact .inr ⟨h₁.brk.trans hlo, hhi, hnone⟩

variable (node s) in
theorem appendBlock_built (b : SuperBlock) (clu : ℕ) :
    Built node s (appendBlock node s.brk b clu (grabbed s)) := by
  have hself : (appendBlock node s.brk b clu (grabbed s)).inodes node =
      { s.inodes node with
        iBlocks := ((s.inodes node).iBlocks + 1) % uintRange
        iDataMap := (s.inodes node).iDataMap ++ [s.brk] } := Function.update_self ..
  refine ⟨Nat.le_succ _, fun x hx => Function.update_of_ne hx.ne .., rfl, rfl, rfl,
    fun m hm => Function.update_of_ne hm.ne .., fun n hn => Function.update_of_ne hn .., ?_,
    fun m hm => ?_⟩
  · rw [hself]
  · rw [hself] at hm
    rcases List.mem_append.mp hm with hm | hm
    · exact .inl hm
    · obtain rfl := List.mem_singleton.mp hm
      refine .inr ⟨le_rfl, Nat.lt_succ_self _, ?_⟩
      rw [show (appendBlock node s.brk b clu (grabbed s)).maps s.brk = newMap b clu from
        Function.update_self ..]
      rfl

theorem buildDataMap_built {b : SuperBlock} {fuel clu : ℕ} {r : Except ℕ Unit}
    (h : buildDataMap env node b fuel clu s = some (r, t)) : Built node s t := by
  induction fuel generalizing s clu with
  | zero => cases h
  | succ fuel ih =>
    rw [buildDataMap] at h
    split_ifs at h with hend
    · cases h
      exact SameObjects.built (refl _) node
    · rcases Prog.bind_cases h with ⟨map, u, h1, h2⟩ | ⟨e, h1, -⟩
      · cases map with
        | none =>
          cases h2
          exact (kmalloc_keeps env _ _ _ h1).built node
        | some map =>
          obtain ⟨rfl, rfl⟩ := kmalloc_some h1
          have happend := appendBlock_built s node b clu
          dsimp only at h2
          rw [Prog.modify_bind_run] at h2
          rcases Prog.bind_cases h2 with ⟨next, v, h3, h4⟩ | ⟨e, h3, -⟩
          · have hread := (readFat_keeps env _ _ _ _ _ h3).built node
            split_ifs at h4
            · cases h4
              exact happend.trans hread
            · exact (happend.trans hread).trans (ih h4)
          · exact happend.trans ((readFat_keeps env _ _ _ _ _ h3).built node)
      · exact (kmalloc_keeps env _ _ _ h1).built node

def begun (sb clu size : ℕ) (isdir : Bool) (s : FsSys) : FsSys :=
  (grabbed s).setInode s.brk fun _ => newInode sb (s.sbs sb) clu size isdir

variable {sb clu size : ℕ} {isdir : Bool}

theorem begun_inodes (n : ℕ) : (begun sb clu size isdir s).inodes n =
    if n = s.brk then newInode sb (s.sbs sb) clu size isdir else s.inodes n := by
  by_cases e : n = s.brk
  · subst e
    simp [begun, FsSys.setInode]
  · simp [begun, FsSys.setInode, grabbed, e]

section Read

variable (h : Built s.brk (begun sb clu size isdir s) t)
include h

theorem Built.lt : s.brk < t.brk := Nat.lt_of_succ_le h.brk

theorem Built.oldLive {x : ℕ} (hx : x < s.brk) : t.live x = s.live x :=
  (h.live x (hx.trans (Nat.lt_succ_self _))).trans (Function.update_of_ne hx.ne ..)

theorem Built.oldInode {n : ℕ} (hn : n ≠ s.brk) : t.inodes n = s.inodes n := by
  rw [h.other n hn, begun_inodes, if_neg hn]

theorem Built.newDentries : (t.inodes s.brk).iDentry = [] := by
  rw [h.iDentry, begun_inodes, if_pos rfl]
  rfl

theorem Built.newMaps {m : ℕ} (hm : m ∈ (t.inodes s.brk).iDataMap) :
    s.brk < m ∧ m < t.brk ∧ (t.maps m).mapPage = none := by
  rcases h.iDataMap m hm with hold | hnew
  · rw [begun_inodes, if_pos rfl] at hold
    exact absurd hold List.not_mem_nil
  · exact ⟨Nat.lt_of_succ_le hnew.1, hnew.2⟩

theorem Built.oldMaps {m : ℕ} (hm : m < s.brk) : t.maps m = s.maps m :=
  h.maps m (hm.trans (Nat.lt_succ_self _))

theorem Built.inv {kind k' : ℕ → Kind} (hs : CacheInv s kind) (hk : ∀ x < s.brk, k' x = kind x)
    (hother : ∀ x, s.brk < x → k' x = .other) : CacheInv t k' := by
  refine hs.step h.lt.le hk (fun d hd => .inl (h.dCache ▸ hd)) (fun n hn => .inl (h.iCache ▸ hn))
    (fun n d hd => .inl ?_) (fun n m hm => ?_)
  · by_cases e : n = s.brk
    · subst e
      rw [h.newDentries] at hd
      exact absurd hd List.not_mem_nil
    · rw [h.oldInode e] at hd
      exact ⟨hd, by rw [h.dentries]; rfl⟩
  · by_cases e : n = s.brk
    · subst e
      obtain ⟨hlo, hhi, hnone⟩ := h.newMaps hm
      exact .inr ⟨⟨hhi, hother m hlo⟩, hnone⟩
    · rw [h.oldInode e] at hm
      exact .inl ⟨hm, by rw [h.oldMaps (hs.iDataMap n m hm).1.1]⟩

theorem Built.victims {kind : ℕ → Kind} (hs : CacheInv s kind) : iVictims t = iVictims s := by
  rw [iVictims, h.iCache]
  refine victims_congr fun n hn => ?_
  rw [h.oldInode (hs.iLru n hn).1.ne]
  exact ⟨rfl, rfl⟩

theorem Built.objects {kind : ℕ → Kind} (hs : CacheInv s kind) :
    (iVictims s).flatMap (inodeObjects t) = (iVictims s).flatMap (inodeObjects s) := by
  refine List.flatMap_congr fun v hv => ?_
  have hlt := (hs.iLru v (mem_of_mem_victims hv)).1
  rw [inodeObjects, inodeObjects, h.oldInode hlt.ne]
  refine congrArg (fun l => v :: ((s.inodes v).iDentry ++ l)) (List.flatMap_congr fun m hm => ?_)
  rw [mapObjects, mapObjects, h.oldMaps (hs.iDataMap v m hm).1.1]

end Read

def chainRead (env : FsEnv) (s : FsSys) (sb clu size : ℕ) (isdir : Bool) : Prop :=
  ∃ t, buildDataMap env s.brk (s.sbs sb) uintRange clu (begun sb clu size isdir s) =
    some (.ok (), t)

theorem allocInodeFat32_noMemory (h : env.kmallocFails s.brk = true) :
    allocInodeFat32 env sb clu size isdir s =
      some (.error errorNoMemory, { s with brk := s.brk + 1 }) := by
  rw [allocInodeFat32, Prog.bind_ok (kmalloc_null h)]
  rfl

theorem allocInodeFat32_eq (h : env.kmallocFails s.brk = false) :
    allocInodeFat32 env sb clu size isdir s = (do
      buildDataMap env s.brk (s.sbs sb) uintRange clu
      if ← addToICache s.brk then pure s.brk else Prog.throw errorCacheFull : FsProg ℕ)
        (begun sb clu size isdir s) := by
  rw [allocInodeFat32, Prog.bind_ok (kmalloc_grabs h)]
  rfl

theorem allocInodeFat32_cases {r : Except ℕ ℕ}
    (h : allocInodeFat32 env sb clu size isdir s = some (r, t)) :
    env.kmallocFails s.brk = true ∧ r = .error errorNoMemory ∧ t = { s with brk := s.brk + 1 } ∨
      env.kmallocFails s.brk = false ∧ ∃ v r', Built s.brk (begun sb clu size isdir s) v ∧
        buildDataMap env s.brk (s.sbs sb) uintRange clu (begun sb clu size isdir s) =
          some (r', v) ∧
        ((∃ e, r' = .error e ∧ r = .error e ∧ t = v) ∨ r' = .ok () ∧ ∃ u room,
          Flushed (v.iCache.size = icacheCapacity) (iVictims v)
            ((iVictims v).flatMap (inodeObjects v)) v u room ∧
          r = (if room then .ok s.brk else .error errorCacheFull) ∧
          t = if room then enteredI s.brk u else u) := by
  cases hk : env.kmallocFails s.brk with
  | true =>
    rw [allocInodeFat32_noMemory hk] at h
    cases h
    exact .inl ⟨rfl, rfl, rfl⟩
  | false =>
    rw [allocInodeFat32_eq hk] at h
    rcases Prog.bind_cases h with ⟨_, v, h1, h2⟩ | ⟨e, h1, hr⟩
    · refine .inr ⟨rfl, v, _, buildDataMap_built h1, h1, .inr ⟨rfl, ?_⟩⟩
      rcases Prog.bind_cases h2 with ⟨room, w, h3, h4⟩ | ⟨e, h3, -⟩
      · obtain ⟨u, room', hf, hroom, rfl⟩ := addToICache_spec h3
        cases hroom
        refine ⟨u, room, hf, ?_⟩
        cases room <;>
          · cases h4
            exact ⟨rfl, rfl⟩
      · obtain ⟨_, _, -, h3, -⟩ := addToICache_spec h3
        cases h3
    · exact .inr ⟨rfl, t, _, buildDataMap_built h1, h1, .inl ⟨e, rfl, hr, rfl⟩⟩

theorem enteredI_inv {kind : ℕ → Kind} {node : ℕ} (h : CacheInv s kind)
    (hn : node < s.brk ∧ kind node = .inode) : CacheInv (enteredI node s) kind := by
  refine h.step le_rfl (fun _ _ => rfl) (fun d hd => .inl hd) (fun n hm => ?_)
    (fun n d hd => .inl ⟨hd, rfl⟩) (fun n m hm => .inl ⟨hm, rfl⟩)
  rcases List.mem_cons.mp hm with rfl | hm
  · exact .inr hn
  · exact .inl hm

theorem allocInode_outcome {c : CacheState} {r : Except ℕ Unit} (h : CacheInv c.sys c.kind)
    (hr : (CacheOp.allocInode sb clu size isdir).run env c.sys = some (r, t)) :
    StepOutcome c (.allocInode sb clu size isdir) t ∧
      InsertOutcome c.sys t r (c.sys.iCache.size = icacheCapacity)
        (∀ n ∈ c.sys.iCache.lru, (c.sys.inodes n).iPinned = true)
        ((iVictims c.sys).flatMap (inodeObjects c.sys)) ∧
      (env.kmallocFails c.sys.brk = false → chainRead env c.sys sb clu size isdir →
        c.sys.iCache.size = icacheCapacity →
          (∀ n ∈ c.sys.iCache.lru, (c.sys.inodes n).iPinned = true) →
            r = .error errorCacheFull) := by
  obtain ⟨r', hr', rfl⟩ := discard_cases hr
  rcases allocInodeFat32_cases hr' with ⟨hfail, rfl, rfl⟩ | ⟨-, v, rv, hb, hrun, hcase⟩
  · refine ⟨⟨?_, Nat.le_succ _, fun _ _ => rfl⟩, ⟨fun _ _ => .nil fun _ _ => rfl,
      fun hok => (by cases hok), fun hok => (by cases hok)⟩, fun hgot => ?_⟩
    · exact h.step (Nat.le_succ _) (fun _ => CacheState.nextKind_old) (fun _ => .inl)
        (fun _ => .inl) (fun _ _ hd => .inl ⟨hd, rfl⟩) (fun _ _ hm => .inl ⟨hm, rfl⟩)
    · rw [hfail] at hgot
      cases hgot
  have hother : ∀ x, c.sys.brk < x →
      c.nextKind (.allocInode sb clu size isdir) x = .other := fun x hx => by
    rw [CacheState.nextKind, if_neg hx.le.not_gt, if_neg hx.ne']
  have hinv := hb.inv h (fun _ => CacheState.nextKind_old) hother
  have hdentry (d : ℕ) : (v.dentries d).dInode = (c.sys.dentries d).dInode := by
    rw [hb.dentries]
    rfl
  rcases hcase with ⟨e, rfl, rfl, rfl⟩ | ⟨rfl, u, room, hf, rfl, rfl⟩
  · refine ⟨⟨hinv, hb.lt.le, fun d _ => hdentry d⟩, ⟨fun _ _ => .nil fun _ => hb.oldLive,
      fun hok => (by cases hok), fun hok => (by cases hok)⟩, ?_⟩
    rintro - ⟨w, hw⟩
    rw [hrun] at hw
    cases hw
  · rw [hb.victims h, hb.objects h, hb.iCache] at hf
    have hlt := hb.lt
    have hbrk := hf.kept.brk
    have hinvu := hf.kept.inv hinv
    have hdu : ∀ d < c.sys.brk, (u.dentries d).dInode = (c.sys.dentries d).dInode := by
      intro d _
      rw [hf.kept.dentry]
      exact hdentry d
    have hout := hf.outcome (s := c.sys) (t := if room then enteredI c.sys.brk u else u)
      victims_eq_nil (fun hnil => by rw [hnil]; rfl) (fun xs hx => ?_) rfl
    · refine ⟨?_, ?_, fun _ _ => ?_⟩
      · cases room with
        | true =>
          exact ⟨enteredI_inv hinvu ⟨by omega, CacheState.nextKind_brk⟩, by
            change _ ≤ u.brk
            omega, hdu⟩
        | false =>
          exact ⟨hinvu, by
            change _ ≤ u.brk
            omega, hdu⟩
      · cases room <;> exact hout.1
      · cases room <;> exact hout.2
    · have hold : FreedOld xs c.sys u := fun x hlt => by rw [hx x, hb.oldLive hlt]
      cases room <;> exact hold

end Inode

def FlushOutcome (env : FsEnv) (s : FsSys) : CacheOp → Except ℕ Unit → FsSys → Prop
  | .allocInode sb clu size isdir, r, t =>
      InsertOutcome s t r (s.iCache.size = icacheCapacity)
        (∀ n ∈ s.iCache.lru, (s.inodes n).iPinned = true)
        ((iVictims s).flatMap (inodeObjects s)) ∧
      (env.kmallocFails s.brk = false → chainRead env s sb clu size isdir →
        s.iCache.size = icacheCapacity → (∀ n ∈ s.iCache.lru, (s.inodes n).iPinned = true) →
          r = .error errorCacheFull)
  | .allocDentry .., r, t =>
      InsertOutcome s t r (s.dCache.size = dcacheCapacity)
        (∀ d ∈ s.dCache.lru, (s.dentries d).dPinned = true) (dVictims s) ∧
      (env.kmallocFails s.brk = false → s.dCache.size = dcacheCapacity →
        (∀ d ∈ s.dCache.lru, (s.dentries d).dPinned = true) → r = .error errorCacheFull)
  | .freeInode node, _, t => FreedOld (inodeObjects s node) s t
  | _, _, t => FreedOld [] s t

section Run

variable {env : FsEnv} {c : CacheState} {t : FsSys}

theorem touched_inv {kind : ℕ → Kind} {s : FsSys} (h : CacheInv s kind) (hbrk : t.brk = s.brk)
    (hmaps : t.maps = s.maps) (hdInode : ∀ d, (t.dentries d).dInode = (s.dentries d).dInode)
    (hinode : ∀ n, (t.inodes n).iDentry = (s.inodes n).iDentry ∧
      (t.inodes n).iDataMap = (s.inodes n).iDataMap)
    (hd : ∀ d ∈ t.dCache.lru, d ∈ s.dCache.lru ∨ d < s.brk ∧ kind d = .dentry)
    (hi : ∀ n ∈ t.iCache.lru, n ∈ s.iCache.lru ∨ n < s.brk ∧ kind n = .inode) :
    CacheInv t kind := by
  refine h.step hbrk.ge (fun _ _ => rfl) (hbrk ▸ hd) (hbrk ▸ hi) (fun n d hm => .inl ⟨?_, hdInode d⟩)
    (fun n m hm => .inl ⟨?_, by rw [hmaps]⟩)
  · exact (hinode n).1 ▸ hm
  · exact (hinode n).2 ▸ hm

theorem setDentry_dInode {s : FsSys} {entry : ℕ} {f : Dentry → Dentry}
    (hf : ∀ d, (f d).dInode = d.dInode) (d : ℕ) :
    ((s.setDentry entry f).dentries d).dInode = (s.dentries d).dInode := by
  by_cases e : d = entry
  · subst e
    simp [FsSys.setDentry, hf]
  · simp [FsSys.setDentry, e]

theorem setInode_lists {s : FsSys} {node : ℕ} {f : Inode → Inode}
    (hf : ∀ n, (f n).iDentry = n.iDentry ∧ (f n).iDataMap = n.iDataMap) (n : ℕ) :
    ((s.setInode node f).inodes n).iDentry = (s.inodes n).iDentry ∧
      ((s.setInode node f).inodes n).iDataMap = (s.inodes n).iDataMap := by
  by_cases e : n = node
  · subst e
    simp [FsSys.setInode, hf]
  · simp [FsSys.setInode, e]

theorem mem_touch {lru : List ℕ} {item x : ℕ} (h : x ∈ item :: lru.erase item) :
    x ∈ lru ∨ x = item := by
  rcases List.mem_cons.mp h with h | h
  · exact .inr h
  · exact .inl (List.mem_of_mem_erase h)

theorem StepOutcome.of_inv {op : CacheOp} (hinv : CacheInv t c.kind) (hbrk : t.brk = c.sys.brk)
    (hlive : t.live = c.sys.live)
    (hdInode : ∀ d, (t.dentries d).dInode = (c.sys.dentries d).dInode) :
    StepOutcome c op t ∧ FreedOld [] c.sys t := by
  refine ⟨⟨?_, hbrk.ge, fun d _ => hdInode d⟩, .nil fun x _ => by rw [hlive]⟩
  exact hinv.step le_rfl (fun x hx => CacheState.nextKind_old (hbrk ▸ hx)) (fun _ => .inl)
    (fun _ => .inl) (fun _ _ hd => .inl ⟨hd, rfl⟩) (fun _ _ hm => .inl ⟨hm, rfl⟩)

theorem dTouch_outcome {op : CacheOp} {entry : ℕ} {f : Dentry → Dentry}
    (h : CacheInv c.sys c.kind) (he : c.isA entry .dentry) (hf : ∀ d, (f d).dInode = d.dInode) :
    StepOutcome c op { c.sys.setDentry entry f with dCache := c.sys.dCache.touch entry } ∧
      FreedOld [] c.sys { c.sys.setDentry entry f with dCache := c.sys.dCache.touch entry } := by
  refine StepOutcome.of_inv (touched_inv h rfl rfl (setDentry_dInode hf) (fun _ => ⟨rfl, rfl⟩) (fun d hd => ?_)
    (fun _ => .inl)) rfl rfl (setDentry_dInode hf)
  rcases mem_touch hd with hd | rfl
  · exact .inl hd
  · exact .inr he

theorem iTouch_outcome {op : CacheOp} {node : ℕ} {f : Inode → Inode} (h : CacheInv c.sys c.kind)
    (hn : c.isA node .inode) (hf : ∀ n, (f n).iDentry = n.iDentry ∧ (f n).iDataMap = n.iDataMap) :
    StepOutcome c op { c.sys.setInode node f with iCache := c.sys.iCache.touch node } ∧
      FreedOld [] c.sys { c.sys.setInode node f with iCache := c.sys.iCache.touch node } := by
  refine StepOutcome.of_inv (touched_inv h rfl rfl (fun _ => rfl) (setInode_lists hf) (fun _ => .inl)
    (fun n hm => ?_)) rfl rfl (fun _ => rfl)
  rcases mem_touch hm with hm | rfl
  · exact .inl hm
  · exact .inr hn

theorem setPinned_outcome {op : CacheOp} {entry : ℕ} {pinned : Bool} (h : CacheInv c.sys c.kind) :
    StepOutcome c op (setPinned entry pinned c.sys) ∧
      FreedOld [] c.sys (setPinned entry pinned c.sys) :=
  StepOutcome.of_inv (touched_inv h rfl rfl (setDentry_dInode fun _ => rfl)
    (setInode_lists (s := c.sys) (f := fun n => { n with iPinned := pinned }) fun _ => ⟨rfl, rfl⟩)
    (fun _ => .inl) (fun _ => .inl)) rfl rfl (setDentry_dInode fun _ => rfl)

theorem freeInode_outcome {op : CacheOp} {node : ℕ} {r : Except ℕ Unit}
    (h : CacheInv c.sys c.kind) (hr : freeInode node c.sys = some (r, t)) :
    StepOutcome c op t ∧ FreedOld (inodeObjects c.sys node) c.sys t := by
  obtain ⟨-, hf⟩ := freeInode_spec hr
  refine ⟨⟨?_, hf.kept.brk.ge, fun d _ => by rw [hf.kept.dentry]⟩, hf.freed.old⟩
  exact (hf.kept.inv h).step le_rfl
    (fun x hx => CacheState.nextKind_old (hf.kept.brk ▸ hx)) (fun _ => .inl) (fun _ => .inl)
    (fun _ _ hd => .inl ⟨hd, rfl⟩) (fun _ _ hm => .inl ⟨hm, rfl⟩)

theorem cacheOp_outcome {op : CacheOp} {r : Except ℕ Unit} (h : CacheInv c.sys c.kind)
    (hop : c.typed op) (hr : op.run env c.sys = some (r, t)) :
    StepOutcome c op t ∧ FlushOutcome env c.sys op r t := by
  cases op with
  | allocInode sb clu size isdir => exact allocInode_outcome h hr
  | allocDentry sb node parent name => exact allocDentry_outcome h hop hr
  | dInc entry =>
    cases hr
    exact dTouch_outcome h hop fun _ => rfl
  | dDec entry =>
    cases hr
    exact dTouch_outcome h hop fun _ => rfl
  | iInc node =>
    cases hr
    exact iTouch_outcome h hop fun _ => ⟨rfl, rfl⟩
  | iDec node =>
    cases hr
    exact iTouch_outcome h hop fun _ => ⟨rfl, rfl⟩
  | setPinned entry pinned =>
    cases hr
    exact setPinned_outcome h
  | freeInode node => exact freeInode_outcome h hr

theorem cacheStep_cases {c' : CacheState} {op : CacheOp} (h : cacheStep env c op = some c') :
    c.typed op ∧ ∃ r, op.run env c.sys = some (r, c'.sys) ∧ c'.kind = c.nextKind op := by
  rw [cacheStep] at h
  split_ifs at h with hop
  obtain ⟨out, hout, rfl⟩ := Option.map_eq_some_iff.mp h
  exact ⟨hop, out.1, hout, rfl⟩

theorem cacheStep_inv {c' : CacheState} {op : CacheOp} (h : CacheInv c.sys c.kind)
    (hstep : cacheStep env c op = some c') : CacheInv c'.sys c'.kind := by
  obtain ⟨hop, r, hr, hk⟩ := cacheStep_cases hstep
  rw [hk]
  exact (cacheOp_outcome h hop hr).1.inv

structure HandleAlive (c : CacheState) (d : ℕ) : Prop where
  dentry : c.isA d .dentry
  inode : c.isA (c.sys.dentries d).dInode .inode
  dentryLive : c.sys.live d = true
  inodeLive : c.sys.live (c.sys.dentries d).dInode = true

/-- The handle on `d` is open, and an insertion into a full cache finds an object that is neither
pinned nor referenced. -/
def staysOpen (d : ℕ) (c : CacheState) (op : CacheOp) : Prop :=
  (c.sys.dentries d).dCount ≠ 0 ∧ (c.sys.inodes (c.sys.dentries d).dInode).iCount ≠ 0 ∧
    match op with
    | .allocInode .. => c.sys.iCache.size = icacheCapacity → ∃ n ∈ c.sys.iCache.lru,
        (c.sys.inodes n).iPinned = false ∧ (c.sys.inodes n).iCount = 0
    | .allocDentry .. => c.sys.dCache.size = dcacheCapacity → ∃ e ∈ c.sys.dCache.lru,
        (c.sys.dentries e).dPinned = false ∧ (c.sys.dentries e).dCount = 0
    | .freeInode node => node ≠ (c.sys.dentries d).dInode
    | _ => True

theorem InsertOutcome.kept {s : FsSys} {r : Except ℕ Unit} {full allPinned : Prop}
    {objects : List ℕ} (h : InsertOutcome s t r full allPinned objects) {x : ℕ} (hx : x < s.brk)
    (hlive : s.live x = true) (hnot : full → x ∉ objects) : t.live x = true := by
  cases r with
  | error e => exact (h.failed e rfl x hx).mpr ⟨hlive, List.not_mem_nil⟩
  | ok a =>
    by_cases hfull : full
    · exact ((h.done rfl hfull).2 x hx).mpr ⟨hlive, hnot hfull⟩
    · exact (h.room rfl hfull x hx).mpr ⟨hlive, List.not_mem_nil⟩

theorem mem_inodeObjects {s : FsSys} {kind : ℕ → Kind} (h : CacheInv s kind) {n x : ℕ}
    (hx : x ∈ inodeObjects s n) :
    x = n ∨ (kind x = .dentry ∧ (s.dentries x).dInode = n) ∨ kind x = .other := by
  rw [inodeObjects] at hx
  rcases List.mem_cons.mp hx with rfl | hx
  · exact .inl rfl
  rcases List.mem_append.mp hx with hx | hx
  · obtain ⟨h1, h2⟩ := h.iDentry n x hx
    exact .inr (.inl ⟨h1.2, h2⟩)
  · obtain ⟨m, hm, hx⟩ := List.mem_flatMap.mp hx
    obtain ⟨h1, h2⟩ := h.iDataMap n m hm
    refine .inr (.inr ?_)
    rcases List.mem_cons.mp hx with rfl | hx
    · exact h1.2
    · split at hx
      · rename_i page hpage
        obtain rfl := List.mem_singleton.mp hx
        exact (h2 x hpage).2
      · exact absurd hx List.not_mem_nil

theorem not_mem_inodeObjects {d n : ℕ} (h : CacheInv c.sys c.kind) (hd : HandleAlive c d)
    (hn : c.kind n = .inode) (hne : n ≠ (c.sys.dentries d).dInode) :
    d ∉ inodeObjects c.sys n ∧ (c.sys.dentries d).dInode ∉ inodeObjects c.sys n := by
  have hkd := hd.dentry.2
  have hki := hd.inode.2
  constructor
  · intro hx
    rcases mem_inodeObjects h hx with rfl | ⟨-, h2⟩ | h3
    · rw [hkd] at hn
      cases hn
    · exact hne h2.symm
    · rw [hkd] at h3
      cases h3
  · intro hx
    rcases mem_inodeObjects h hx with h1 | ⟨h2, -⟩ | h3
    · exact hne h1.symm
    · rw [hki] at h2
      cases h2
    · rw [hki] at h3
      cases h3

theorem victim_unreferenced {pinned : ℕ → Bool} {count : ℕ → BitVec 32} {lru : List ℕ} {x : ℕ}
    (hidle : ∃ y ∈ lru, pinned y = false ∧ count y = 0)
    (hx : x ∈ victims pinned (fun y => count y == 0) lru) : count x = 0 := by
  obtain ⟨y, hy, hp, hc⟩ := hidle
  have := unused_of_mem_victims ⟨y, hy, hp, by simp [hc]⟩ hx
  simpa using this

theorem staysOpen_kept {op : CacheOp} {r : Except ℕ Unit} {d : ℕ} (h : CacheInv c.sys c.kind)
    (hd : HandleAlive c d) (hop : c.typed op) (hopen : staysOpen d c op)
    (hout : FlushOutcome env c.sys op r t) :
    t.live d = true ∧ t.live (c.sys.dentries d).dInode = true := by
  obtain ⟨hdc, hic, hcase⟩ := hopen
  have hnil (hf : FreedOld [] c.sys t) :
      t.live d = true ∧ t.live (c.sys.dentries d).dInode = true :=
    ⟨(hf d hd.dentry.1).mpr ⟨hd.dentryLive, List.not_mem_nil⟩,
      (hf _ hd.inode.1).mpr ⟨hd.inodeLive, List.not_mem_nil⟩⟩
  cases op with
  | allocInode sb clu size isdir =>
    have hfree : c.sys.iCache.size = icacheCapacity →
        ∀ x, x = d ∨ x = (c.sys.dentries d).dInode →
          x ∉ (iVictims c.sys).flatMap (inodeObjects c.sys) := by
      intro hfull x hx hmem
      obtain ⟨v, hv, hxv⟩ := List.mem_flatMap.mp hmem
      have hzero := victim_unreferenced (hcase hfull) hv
      have hne : v ≠ (c.sys.dentries d).dInode := fun e => hic (e ▸ hzero)
      obtain ⟨h1, h2⟩ := not_mem_inodeObjects h hd (h.iLru v (mem_of_mem_victims hv)).2 hne
      rcases hx with rfl | rfl
      · exact h1 hxv
      · exact h2 hxv
    exact ⟨hout.1.kept hd.dentry.1 hd.dentryLive fun hfull => hfree hfull d (.inl rfl),
      hout.1.kept hd.inode.1 hd.inodeLive fun hfull => hfree hfull _ (.inr rfl)⟩
  | allocDentry sb node parent name =>
    refine ⟨hout.1.kept hd.dentry.1 hd.dentryLive fun hfull hv => ?_,
      hout.1.kept hd.inode.1 hd.inodeLive fun _ hv => ?_⟩
    · exact hdc (victim_unreferenced (hcase hfull) hv)
    · have := (h.dLru _ (mem_of_mem_victims hv)).2
      rw [hd.inode.2] at this
      cases this
  | dInc entry => exact hnil hout
  | dDec entry => exact hnil hout
  | iInc node => exact hnil hout
  | iDec node => exact hnil hout
  | setPinned entry pinned => exact hnil hout
  | freeInode node =>
    obtain ⟨h1, h2⟩ := not_mem_inodeObjects h hd hop.2 hcase
    exact ⟨(hout d hd.dentry.1).mpr ⟨hd.dentryLive, h1⟩,
      (hout _ hd.inode.1).mpr ⟨hd.inodeLive, h2⟩⟩

theorem HandleAlive.step {c' : CacheState} {op : CacheOp} {d : ℕ} (h : CacheInv c.sys c.kind)
    (hd : HandleAlive c d) (hopen : staysOpen d c op) (hstep : cacheStep env c op = some c') :
    HandleAlive c' d := by
  obtain ⟨hop, r, hr, hk⟩ := cacheStep_cases hstep
  obtain ⟨hs, hout⟩ := cacheOp_outcome h hop hr
  obtain ⟨h1, h2⟩ := staysOpen_kept h hd hop hopen hout
  have hsame := hs.dInode d hd.dentry.1
  have hkind {x : ℕ} {k : Kind} (hx : c.isA x k) : c'.isA x k :=
    ⟨hx.1.trans_le hs.brk, by rw [hk, CacheState.nextKind_old hx.1, hx.2]⟩
  exact ⟨hkind hd.dentry, by rw [hsame]; exact hkind hd.inode, h1, by rw [hsame]; exact h2⟩

theorem cacheRun_flush {b : CacheState} {ops : List CacheOp} (hb : CacheInv b.sys b.kind)
    (hrun : runOps (cacheStep env) b ops = some c) :
    (∀ op r t, c.typed op → op.run env c.sys = some (r, t) → FlushOutcome env c.sys op r t) ∧
      ∀ d, HandleAlive b d → RunMeets (cacheStep env) (staysOpen d) b ops → HandleAlive c d := by
  constructor
  · have hc : CacheInv c.sys c.kind :=
      runOps_invariant (P := fun c => CacheInv c.sys c.kind)
        (fun _ _ _ h hstep => cacheStep_inv h hstep) hb hrun
    exact fun op r t hop hr => (cacheOp_outcome hc hop hr).2
  · intro d hd hmeets
    exact (runOps_invariant_of_meets
      (P := fun c => CacheInv c.sys c.kind ∧ HandleAlive c d)
      (fun _ _ _ h hopen hstep => ⟨cacheStep_inv h.1 hstep, h.2.step h.1 hopen hstep⟩)
      ⟨hb, hd⟩ hmeets hrun).2

end Run

def endedDisk : SdCard := ⟨fun _ o => if o % 4 = 3 then 0x0F else 0xFF, 0⟩

def emptyCaches : CacheState := ⟨{ blankSys with sd := endedDisk }, fun _ => .other⟩

theorem emptyCaches_inv : CacheInv emptyCaches.sys emptyCaches.kind := by
  refine ⟨fun _ h => ?_, fun _ h => ?_, fun _ _ h => ?_, fun _ _ h => ?_⟩ <;> cases h

instance (d : ℕ) (c : CacheState) (op : CacheOp) : Decidable (staysOpen d c op) := by
  unfold staysOpen
  cases op <;> infer_instance

/-- The handle on the dentry 3 is open, and others fill the cache. -/
def fillAll : List CacheOp := (List.range dcacheCapacity).map fun i => .allocDentry 0 0 none [i]

theorem openedRun_isSome : (runOps (cacheStep soundEnv) emptyCaches
    [.allocInode 0 2 0 false, .allocDentry 0 0 none [97], .dInc 3, .iInc 0]).isSome = true := by
  decide +kernel

def openedRun : CacheState := Option.get _ openedRun_isSome

theorem openedRun_inv : CacheInv openedRun.sys openedRun.kind :=
  runOps_invariant (P := fun c => CacheInv c.sys c.kind)
    (fun _ _ _ h hstep => cacheStep_inv h hstep) emptyCaches_inv
    (Option.some_get openedRun_isSome).symm

theorem openedRun_alive : HandleAlive openedRun 3 :=
  ⟨by decide +kernel, by decide +kernel, by decide +kernel, by decide +kernel⟩

theorem fillAll_run : (runOps (cacheStep soundEnv) openedRun fillAll).any fun c =>
    c.sys.dCache.size == 2 && !c.sys.live 4 := by
  decide +kernel

/-- The last insertion flushes all dentries but the one that is open. -/
theorem cacheRun_flush_small : ∃ c, runOps (cacheStep soundEnv) openedRun fillAll = some c ∧
    (∀ op r t, c.typed op → op.run soundEnv c.sys = some (r, t) →
      FlushOutcome soundEnv c.sys op r t) ∧
    c.sys.dCache.size = 2 ∧ c.sys.live 4 = false ∧ HandleAlive c 3 := by
  obtain ⟨c, hc, hfacts⟩ := (Option.any_eq_true _ _).mp fillAll_run
  simp only [Bool.and_eq_true, beq_iff_eq, Bool.not_eq_true'] at hfacts
  have hopen : RunMeets (cacheStep soundEnv) (staysOpen 3) openedRun fillAll := by
    decide +kernel
  obtain ⟨hout, halive⟩ := cacheRun_flush openedRun_inv hc
  exact ⟨c, hc, hout, hfacts.1, hfacts.2, halive 3 openedRun_alive hopen⟩

def openAll : List CacheOp :=
  .allocInode 0 2 0 false :: (List.range dcacheCapacity).flatMap fun i =>
    [.allocDentry 0 0 none [], .dInc (3 + i)]

theorem openRun_isSome : (runOps (cacheStep soundEnv) emptyCaches openAll).isSome = true := by
  decide +kernel

def openRun : CacheState := Option.get _ openRun_isSome

theorem openRun_eq : runOps (cacheStep soundEnv) emptyCaches openAll = some openRun :=
  Option.some_get _ ▸ rfl

theorem openRun_frees : openRun.typed (.allocDentry 0 0 none []) ∧ 3 ∈ openRun.sys.dCache.lru ∧
    openRun.sys.live 3 = true ∧ (openRun.sys.dentries 3).dCount = 1 ∧
    ((CacheOp.allocDentry 0 0 none []).run soundEnv openRun.sys).any fun out =>
      !out.2.live 3 := by
  decide +kernel

/-- The 65th dentry makes `flush_d_cache` free one whose handle is open. -/
theorem cacheRun_frees_open :
    ¬ ∀ (env : FsEnv) (b c : CacheState) (ops : List CacheOp), CacheInv b.sys b.kind →
      runOps (cacheStep env) b ops = some c → ∀ sb node parent name r t,
        c.typed (.allocDentry sb node parent name) →
          (CacheOp.allocDentry sb node parent name).run env c.sys = some (r, t) →
            ∀ d ∈ c.sys.dCache.lru, c.sys.live d = true → t.live d = false →
              (c.sys.dentries d).dCount = 0 ∧ (c.sys.dentries d).dPinned = false := by
  intro h
  obtain ⟨hop, hmem, hlive, hcount, hout⟩ := openRun_frees
  cases hr : (CacheOp.allocDentry 0 0 none []).run soundEnv openRun.sys with
  | none =>
    rw [hr] at hout
    cases hout
  | some out =>
    rw [hr] at hout
    have hzero := (h soundEnv emptyCaches openRun openAll emptyCaches_inv openRun_eq 0 0 none []
      out.1 out.2 hop hr 3 hmem hlive (by simpa using hout)).1
    rw [hcount] at hzero
    exact absurd hzero (by decide)

end OurOS.Fs
