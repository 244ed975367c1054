import OurOS.Fs.InodeSpec
import OurOS.Fs.Volume

namespace OurOS.Fs

def blockAddrs (s : FsSys) (node : ℕ) : List ℕ :=
  (s.inodes node).iDataMap.map fun m => (s.maps m).mapAddr

variable {env : FsEnv} {b : SuperBlock} {n : ℕ} {s : FsSys} {fat : ℕ → ℕ}

theorem Volume.not_err (hv : Volume b n) {c : ℕ} (hc : c < n) : isErrValue c = false := by
  have h := hv.lt hc
  rw [isErrValue, decide_eq_false_iff_not, maxErrno, uintRange]
  omega

theorem not_err_end : isErrValue fatItemEnd = false := by decide

theorem Volume.ne_end (hv : Volume b n) {c : ℕ} (hc : c < n) : c ≠ fatItemEnd := by
  have h := hv.entries
  omega

theorem Volume.lt_uintRange (hv : Volume b n) {c : ℕ} (hc : c < n) : c < uintRange := by
  have h := hv.lt hc
  rw [uintRange]
  omega

section Free

theorem freeClu_spec (he : Reliable env) (hv : Volume b n) (minClu : ℕ) {clu : ℕ} (hclu : clu < n)
    (hval : isErrValue (fat clu) = false) (ht : ∀ c < n, fatOf b s.sd c = fat c) :
    ∃ t, freeClu env b.infoFatSec clu minClu s = some (.ok (fat clu, min minClu clu), t) ∧
      TableOnly b n s t (Function.update fat clu fatItemFree) := by
  obtain ⟨s1, h1, t1⟩ := readFat_spec he hclu ht
  obtain ⟨s2, h2, t2⟩ := writeFat_spec he hv hclu (show fatItemFree < uintRange by decide) t1.table
  refine ⟨s2, ?_, t1.trans t2⟩
  have hmin : min minClu clu = if clu < minClu then clu else minClu := by
    split_ifs <;> omega
  rw [freeClu, Prog.bind_ok h1, hmin]
  simp only [hval, Bool.false_eq_true, if_false]
  exact Prog.bind_ok h2

theorem setAll_cons (c : ℕ) (cs : List ℕ) (v : ℕ) :
    setAll (Function.update fat c v) v cs = setAll fat v (c :: cs) := by
  funext d
  by_cases e : d = c
  · subst e
    simp [setAll]
  · simp [setAll, e]

theorem foldl_min_le (cs : List ℕ) (m : ℕ) :
    cs.foldl min m ≤ m ∧ ∀ c ∈ cs, cs.foldl min m ≤ c := by
  induction cs generalizing m with
  | nil => simp
  | cons d ds ih =>
    obtain ⟨h1, h2⟩ := ih (min m d)
    exact ⟨h1.trans (min_le_left _ _),
      List.forall_mem_cons.mpr ⟨h1.trans (min_le_right _ _), h2⟩⟩

theorem foldl_min_mem (cs : List ℕ) (m : ℕ) : cs.foldl min m = m ∨ cs.foldl min m ∈ cs := by
  induction cs generalizing m with
  | nil => exact .inl rfl
  | cons d ds ih =>
    rcases ih (min m d) with h | h
    · rcases min_choice m d with e | e
      · exact .inl (h.trans e)
      · exact .inr (by rw [List.foldl_cons, h, e]; exact List.mem_cons_self)
    · exact .inr (List.mem_cons_of_mem _ h)

theorem freeChain_spec (he : Reliable env) (hv : Volume b n) (minClu : ℕ) {cs : List ℕ}
    {fuel first : ℕ}
    (hchain : first = fatItemEnd ∧ cs = [] ∨ cs.head? = some first ∧ Chain fat fatItemEnd cs)
    (hnd : cs.Nodup) (hlt : ∀ c ∈ cs, c < n) (hf : cs.length < fuel)
    (ht : ∀ c < n, fatOf b s.sd c = fat c) :
    ∃ t, freeChain env b.infoFatSec fuel first minClu s = some (.ok (cs.foldl min minClu), t) ∧
      TableOnly b n s t (setAll fat fatItemFree cs) := by
  induction cs generalizing fuel minClu first s fat with
  | nil =>
    obtain ⟨rfl, -⟩ := hchain.resolve_right fun h => h.2
    obtain ⟨fuel, rfl⟩ := Nat.exists_eq_succ_of_ne_zero (Nat.ne_of_gt hf)
    refine ⟨s, ?_, TableOnly.refl fun c hc => (ht c hc).trans (by simp [setAll])⟩
    rw [freeChain, if_pos rfl]
    rfl
  | cons c cs ih =>
    obtain ⟨hhead, hch⟩ := hchain.resolve_left fun h => by simp at h
    obtain rfl : c = first := by simpa using hhead
    obtain ⟨hnot, hnd⟩ := List.nodup_cons.mp hnd
    obtain ⟨fuel, rfl⟩ := Nat.exists_eq_succ_of_ne_zero (Nat.ne_of_gt (Nat.zero_lt_of_lt hf))
    have hc := hlt c List.mem_cons_self
    have hnext : fat c = fatItemEnd ∧ cs = [] ∨ cs.head? = some (fat c) ∧ Chain fat fatItemEnd cs := by
      cases cs with
      | nil => exact .inl ⟨hch, rfl⟩
      | cons d ds => exact .inr ⟨by simp [hch.1], hch.2⟩
    have hval : isErrValue (fat c) = false := by
      rcases hnext with ⟨e, -⟩ | ⟨e, -⟩
      · rw [e]
        exact not_err_end
      · exact hv.not_err (hlt _ (List.mem_cons_of_mem _ (List.mem_of_head? e)))
    obtain ⟨s1, h1, t1⟩ := freeClu_spec he hv minClu hc hval ht
    have hnext' : fat c = fatItemEnd ∧ cs = [] ∨
        cs.head? = some (fat c) ∧ Chain (Function.update fat c fatItemFree) fatItemEnd cs := by
      refine hnext.imp_right fun h => ⟨h.1, h.2.congr fun d hd => ?_⟩
      exact Function.update_of_ne (fun e : d = c => hnot (e ▸ hd)) _ _
    obtain ⟨s2, h2, t2⟩ := ih (min minClu c) hnext' hnd (fun d hd => hlt d (List.mem_cons_of_mem _ hd))
      (Nat.lt_of_succ_lt_succ hf) t1.table
    refine ⟨s2, ?_, ?_⟩
    · rw [freeChain, if_neg (hv.ne_end hc), Prog.bind_ok h1]
      exact h2
    · rw [← setAll_cons]
      exact t1.trans t2

theorem lowerNextClu_spec (he : Reliable env) (hv : Volume b n) (sb : ℕ) {minClu : ℕ}
    (hmin : minClu < uintRange) (hb : (s.sbs sb).infoFsinfoSec = b.infoFsinfoSec)
    (ht : ∀ c < n, fatOf b s.sd c = fat c) :
    ∃ t, lowerNextClu env sb minClu s = some (.ok (), t) ∧ TableTo b n s t fat ∧
      HintTo b sb s t (min (s.sbs sb).infoNextClu minClu) := by
  by_cases h : minClu < (s.sbs sb).infoNextClu
  · obtain ⟨t, h1, h2, h3⟩ := updateNextClu_spec he hv sb minClu hb ht
    refine ⟨t, ?_, h2, by rw [min_eq_right h.le]; exact h3 hmin⟩
    rw [lowerNextClu, Prog.get_bind_run, if_pos h]
    exact Prog.bind_ok (Prog.attempt_run h1)
  · refine ⟨s, ?_, TableTo.refl ht, by rw [min_eq_left (not_lt.mp h)]; exact .refl s sb⟩
    rw [lowerNextClu, Prog.get_bind_run, if_neg h]
    exact Prog.pure_run _ _

end Free

section Expand

structure Lengthened (b : SuperBlock) (node : ℕ) (s t : FsSys) (xs : List ℕ) : Prop where
  grown : ∃ new, new.length = xs.length ∧ Grown node s t new ∧
    new.map (fun m => (t.maps m).mapAddr) = xs.map (cluSec b)
  maps : ∀ m, t.maps m = s.maps m ∨ ∃ c, (t.maps m).mapAddr = cluSec b c

theorem Lengthened.of_same {node : ℕ} {t : FsSys} (h : SameObjects s t) :
    Lengthened b node s t [] :=
  ⟨⟨[], rfl, h.grown node, by rw [List.map_nil, List.map_nil]⟩, fun m => .inl (by rw [h.maps])⟩

theorem Lengthened.trans {node : ℕ} {t u : FsSys} {xs ys : List ℕ} (h : Lengthened b node s t xs)
    (h' : Lengthened b node t u ys) : Lengthened b node s u (xs ++ ys) := by
  obtain ⟨new, h1, h2, h3⟩ := h.grown
  obtain ⟨new', h4, h5, h6⟩ := h'.grown
  refine ⟨⟨new ++ new', by simp [h1, h4], h2.trans h5, ?_⟩, fun m => ?_⟩
  · rw [List.map_append, List.map_append, h6, ← h3]
    congr 1
    exact List.map_congr_left fun m hm => by rw [h5.maps m (h2.fresh m hm).2.1]
  · rcases h'.maps m with e | e
    · rw [e]
      exact h.maps m
    · exact .inr e

/-- The entry that is linked next is behind the search, or it is neither free nor an error. -/
def Passed (fat : ℕ → ℕ) (last start : ℕ) : Prop :=
  last < start ∨ isErrValue (fat last) = false ∧ fat last ≠ fatItemFree

/-- Where the search goes on after it has found the clusters of the list. -/
def hintAfter : ℕ → List ℕ → ℕ
  | hint, [] => hint
  | _, x :: xs => hintAfter (x + 1) xs

theorem expandLoop_spec (he : Reliable env) (hv : Volume b n) (node : ℕ) {num free last : ℕ}
    {xs : List ℕ} (h0 : ∀ x ∈ xs, x ≠ 0) (hrun : freeRun fat n num free = some xs)
    (hlast : last < n) (hp : Passed fat last free) (ht : ∀ c < n, fatOf b s.sd c = fat c) :
    ∃ t, expandLoop env node b num free last s =
        some (.ok (hintAfter free xs, xs.getLastD last), t) ∧
      ((s.inodes node).iBlocks + num < uintRange → Lengthened b node s t xs) ∧
      (t.sbs = s.sbs ∧ ∀ sec, ¬ InTable b n sec → t.sd.sector sec = s.sd.sector sec) ∧
      ∀ c < n, fatOf b t.sd c = linkPath fat last xs c := by
  induction num generalizing s fat free last xs with
  | zero =>
    obtain rfl := Option.some.inj hrun
    exact ⟨s, rfl, fun _ => .of_same (Std.Refl.refl s), ⟨rfl, fun _ _ => rfl⟩, ht⟩
  | succ num ih =>
    obtain ⟨x, hx, hrun⟩ := Option.bind_eq_some_iff.mp hrun
    obtain ⟨ys, hys, hrun⟩ := Option.bind_eq_some_iff.mp hrun
    obtain rfl := Option.some.inj hrun
    obtain ⟨hle, hlt, hfree⟩ := nextFree_spec hx
    have hxn : x < n := by omega
    obtain ⟨s1, h1, t1⟩ := findFreeClu_spec he hv hx ht
    obtain ⟨s2, h2, t2⟩ := writeFat_spec he hv hlast (hv.lt_uintRange hxn) t1.table
    have hx0 : x ≠ 0 := h0 x List.mem_cons_self
    have hkeep : ∀ d, x + 1 ≤ d → (isErrValue (Function.update fat last x d) ↔ isErrValue (fat d)) ∧
        (Function.update fat last x d = fatItemFree ↔ fat d = fatItemFree) := by
      intro d hd
      by_cases e : d = last
      · subst e
        obtain ⟨h3, h4⟩ := hp.resolve_left (by omega)
        rw [Function.update_self, hv.not_err hxn, h3]
        exact ⟨Iff.rfl, ⟨fun e => absurd e hx0, fun e => absurd e h4⟩⟩
      · rw [Function.update_of_ne e]
        exact ⟨Iff.rfl, Iff.rfl⟩
    have hs2 : SameObjects s s2 := (t1.trans t2).same
    have hblocks : (s2.inodes node).iBlocks = (s.inodes node).iBlocks := by rw [hs2.inodes]
    obtain ⟨t, h3, h5, h6, h7⟩ := ih (fun y hy => h0 y (List.mem_cons_of_mem _ hy))
      ((freeRun_congr fun d hd _ => hkeep d hd).trans hys) hxn
      (.inl (Nat.lt_succ_self x)) (s := appendBlock node s2.brk b x (grabbed s2)) t2.table
    have hmod : (x + 1) % uintRange = x + 1 :=
      Nat.mod_eq_of_lt (by have := hv.lt hxn; rw [uintRange]; omega)
    refine ⟨t, ?_, fun hsmall => ?_, ⟨?_, fun sec h8 => ?_⟩, h7⟩
    · rw [expandLoop, Prog.bind_ok h1, Prog.bind_ok h2, Prog.bind_ok (kmalloc_run he s2)]
      dsimp only
      rw [Prog.modify_bind_run, hmod, h3, List.getLastD_cons]
      rfl
    · have hgrown : Grown node s2 (appendBlock node s2.brk b x (grabbed s2)) [s2.brk] :=
        appendBlock_grown (by omega)
      have hstep : Lengthened b node s2 (appendBlock node s2.brk b x (grabbed s2)) [x] := by
        refine ⟨⟨[s2.brk], rfl, hgrown, ?_⟩, fun m => ?_⟩
        · simp [appendBlock, FsSys.setInode, FsSys.setMap, newMap, cluSec]
        · by_cases e : m = s2.brk
          · subst e
            exact .inr ⟨x, by simp [appendBlock, FsSys.setInode, FsSys.setMap, newMap, cluSec]⟩
          · exact .inl (Function.update_of_ne e _ _)
      refine ((Lengthened.of_same hs2).trans hstep).trans (h5 ?_)
      rw [hgrown.blocks, hblocks, List.length_singleton]
      omega
    · exact h6.1.trans (t1.trans t2).sbs
    · exact (h6.2 sec h8).trans ((t1.trans t2).sector h8)

end Expand

end OurOS.Fs
