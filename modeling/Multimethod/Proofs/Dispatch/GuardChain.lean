import Mathlib.Data.List.Find
import Multimethod.Proofs.Dispatch.TrialOrder

/-!
# Guard chains and the plain scan

A guard chain leaves out the tests of positions where all its candidates agree, and hands what its
arms do not cover to a last candidate or to a scan. These are savings only: the plain rule is that
the first candidate in order of specificity that accepts the arguments is called.

* `Joins` — what the joined positions of a chain know of its candidates: a position that does not
  vary holds the type that all of them have there.
* `Overload.select_of_find?` — if some candidate accepts the arguments, the overload selects the
  first that does, whatever the limit on guards.
* `Overload.filter_select` — up to the acceptance test of the call, selecting is scanning.
-/

namespace Multimethod

variable {h : Hierarchy}

/-! ## Fitting -/

namespace Candidate

theorem arity_le_of_fitsPrefix {c : Candidate} {types : List Ty} (hc : c.fitsPrefix h types) :
    c.arity ≤ types.length := by
  simp only [fitsPrefix, Bool.and_eq_true, decide_eq_true_eq] at hc
  exact hc.1

theorem fitsPrefix_iff {c : Candidate} {types : List Ty} :
    c.fitsPrefix h types ↔ c.arity ≤ types.length ∧
      ∀ (i : Nat) source target, types[i]? = some source → c.params[i]? = some target →
        h.isAssignable source target := by
  simp only [fitsPrefix, Bool.and_eq_true, decide_eq_true_eq, List.all_eq_true, arity]
  apply and_congr_right
  intro _
  constructor
  · intro hall i source target hs ht
    refine hall (source, target) (List.mem_of_getElem? (i := i) ?_)
    rw [List.getElem?_zip_eq_some]
    exact ⟨hs, ht⟩
  · intro hall p hp
    obtain ⟨i, hi⟩ := List.getElem?_of_mem hp
    rw [List.getElem?_zip_eq_some] at hi
    exact hall i p.1 p.2 hi.1 hi.2

end Candidate

/-! ## Joined positions -/

/-- What joined positions say of the candidates joined so far, all of arity `n`: a position that
does not vary holds the type that each of them has there. -/
structure Joins (n : Nat) (seen : List Candidate) (positions : List JoinedPosition) : Prop where
  length : positions.length = n
  agree : ∀ (i : Nat) (joined : Ty), positions[i]? = some (joined, false) →
    ∀ c ∈ seen, c.params[i]? = some joined

theorem Joins.first (c : Candidate) : Joins c.arity [c] (c.params.map (·, false)) where
  length := by simp [Candidate.arity]
  agree := by
    intro i joined hi d hd
    rw [List.mem_singleton] at hd
    subst hd
    simpa using hi

/-- Joining one more candidate keeps the agreement at positions that still do not vary. -/
theorem Joins.join {n : Nat} {seen : List Candidate} {positions : List JoinedPosition}
    (hj : Joins n seen positions) {c : Candidate} (hc : c.arity = n) :
    Joins n (c :: seen) (joinPositions h positions c.params) where
  length := by
    have hlen := hj.length
    simp only [Candidate.arity] at hc
    simp [joinPositions, hlen, hc]
  agree := by
    intro i joined hi d hd
    rw [joinPositions, List.getElem?_zipWith_eq_some] at hi
    obtain ⟨⟨before, varied⟩, param, hb, hp, heq⟩ := hi
    simp only at heq
    split at heq
    · rename_i hsame
      cases heq
      rcases List.mem_cons.1 hd with rfl | hd
      · rw [hp, hsame]
      · exact hj.agree i joined hb d hd
    · cases heq

theorem Joins.joinAll {n : Nat} :
    ∀ {others seen : List Candidate} {positions : List JoinedPosition}, Joins n seen positions →
      (∀ c ∈ others, c.arity = n) →
      ∃ all, Joins n all (others.foldl (fun ps c => joinPositions h ps c.params) positions) ∧
        ∀ c, c ∈ all ↔ c ∈ seen ∨ c ∈ others
  | [], seen, _, hj, _ => ⟨seen, hj, by simp⟩
  | c :: others, seen, positions, hj, hn => by
    have hnext : Joins n (c :: seen) (joinPositions h positions c.params) :=
      hj.join (hn c List.mem_cons_self)
    obtain ⟨all, hall, hmem⟩ := Joins.joinAll hnext fun d hd => hn d (List.mem_cons_of_mem _ hd)
    refine ⟨all, hall, fun d => ?_⟩
    rw [hmem d, List.mem_cons, List.mem_cons, or_left_comm, or_assoc]

theorem joins_chain {n : Nat} {first : Candidate} {others : List Candidate}
    (hn : ∀ c ∈ first :: others, c.arity = n) :
    ∃ all, Joins n all (others.foldl (fun ps c => joinPositions h ps c.params)
        (first.params.map (·, false))) ∧ ∀ c, c ∈ all ↔ c ∈ first :: others := by
  have hfirst : Joins n [first] (first.params.map (·, false)) := by
    have := Joins.first first
    rwa [hn first List.mem_cons_self] at this
  obtain ⟨all, hall, hmem⟩ := Joins.joinAll hfirst fun c hc => hn c (List.mem_cons_of_mem _ hc)
  refine ⟨all, hall, fun c => ?_⟩
  rw [hmem c, List.mem_singleton, List.mem_cons]

/-! ## Arms -/

namespace GuardChain

/-- The arm of a candidate in a chain with these positions. -/
def armOf (positions : List JoinedPosition) (c : Candidate) : GuardArm where
  tests := List.zipWith (fun param (_, varies) => if varies then some param else none)
    c.params positions
  candidate := c

theorem armOf_passes_of_fits {positions : List JoinedPosition} {c : Candidate} {types : List Ty}
    (hc : c.fitsPrefix h types) : (armOf positions c).passes h types := by
  rw [Candidate.fitsPrefix_iff] at hc
  simp only [GuardArm.passes, armOf, List.all_eq_true]
  intro p hp
  obtain ⟨i, hi⟩ := List.getElem?_of_mem hp
  rw [List.getElem?_zip_eq_some, List.getElem?_zipWith_eq_some] at hi
  obtain ⟨⟨param, ⟨_, varies⟩, hparam, _, htest⟩, hsource⟩ := hi
  rw [← htest]
  cases varies with
  | false => rfl
  | true => exact hc.2 i p.2 param hsource hparam

/-- **Nothing is lost by skipped tests.** When the arguments fit some candidate of the chain, an arm
passes them only if they fit its own candidate. -/
theorem fits_of_armOf_passes {n : Nat} {seen : List Candidate} {positions : List JoinedPosition}
    (hj : Joins n seen positions) {c d : Candidate} {types : List Ty} (hc : c ∈ seen)
    (hcn : c.arity = n) (hd : d ∈ seen) (hdn : d.arity = n) (hfit : d.fitsPrefix h types)
    (hpass : (armOf positions c).passes h types) : c.fitsPrefix h types := by
  rw [Candidate.fitsPrefix_iff] at hfit ⊢
  refine ⟨by omega, fun i source target hsource htarget => ?_⟩
  have hi : i < positions.length := by
    obtain ⟨hlt, -⟩ := List.getElem?_eq_some_iff.1 htarget
    rw [hj.length, ← hcn]
    exact hlt
  obtain ⟨⟨joined, varies⟩, hpos⟩ : ∃ p, positions[i]? = some p := ⟨_, List.getElem?_eq_getElem hi⟩
  cases varies with
  | false =>
    -- the position does not vary, so `d` has the same type there
    have hdi := hj.agree i joined hpos d hd
    have hci := hj.agree i joined hpos c hc
    rw [htarget] at hci
    exact hfit.2 i source target hsource (hdi.trans hci.symm)
  | true =>
    simp only [GuardArm.passes, armOf, List.all_eq_true] at hpass
    refine hpass (some target, source) (List.mem_of_getElem? (i := i) ?_)
    rw [List.getElem?_zip_eq_some, List.getElem?_zipWith_eq_some]
    exact ⟨⟨target, (joined, true), htarget, hpos, rfl⟩, hsource⟩

@[simp] theorem tailOf_candidates (cs : List Candidate) : (tailOf cs).candidates = cs := by
  unfold tailOf
  split <;> rfl

/-- A chain holds its candidates in order, divided between the arms and the tail. -/
theorem ofSorted_candidates (limit : Nat) (first : Candidate) (others : List Candidate) :
    (Overload.chain (ofSorted h limit first others)).candidates = first :: others := by
  simp only [Overload.candidates, ofSorted, tailOf_candidates, List.map_map]
  have hid : ∀ cs : List Candidate, cs.map ((fun arm : GuardArm => arm.candidate) ∘
      armOf (others.foldl (fun positions c => joinPositions h positions c.params)
        (first.params.map (·, false)))) = cs := by
    intro cs
    rw [show (fun arm : GuardArm => arm.candidate) ∘ armOf _ = id from rfl, List.map_id]
  exact (congrArg (· ++ _) (hid _)).trans (List.take_append_drop _ _)

theorem mem_of_select {chain : GuardChain} {types : List Ty} {c : Candidate}
    (hsel : chain.select h types = some c) : c ∈ (Overload.chain chain).candidates := by
  unfold select at hsel
  split at hsel
  · cases hsel
  · simp only [Overload.candidates, List.mem_append, List.mem_map]
    split at hsel
    · rename_i arm harm
      cases hsel
      exact .inl ⟨arm, List.mem_of_find?_eq_some harm, rfl⟩
    · exact .inr (List.mem_of_find?_eq_some hsel)

/-- When the arguments fit some candidate, a chain selects the first candidate that they fit. -/
theorem select_eq_find? {n limit : Nat} {first : Candidate} {others : List Candidate}
    (hn : ∀ c ∈ first :: others, c.arity = n) {d : Candidate} (hd : d ∈ first :: others)
    {types : List Ty} (hfit : d.fitsPrefix h types) :
    (ofSorted h limit first others).select h types =
      (first :: others).find? (·.fitsPrefix h types) := by
  obtain ⟨all, hj, hmem⟩ := joins_chain (h := h) hn
  generalize hps : others.foldl (fun ps c => joinPositions h ps c.params)
    (first.params.map (·, false)) = positions at hj
  generalize hk : armCount limit (first :: others).length = k
  have hpass : ∀ c ∈ first :: others,
      (armOf positions c).passes h types = c.fitsPrefix h types := by
    intro c hc
    rw [Bool.eq_iff_iff]
    exact ⟨fits_of_armOf_passes hj ((hmem c).2 hc) (hn c hc) ((hmem d).2 hd) (hn d hd) hfit,
      armOf_passes_of_fits⟩
  have harms : (ofSorted h limit first others).arms =
      ((first :: others).take k).map (armOf positions) := by
    rw [← hk, ← hps]; rfl
  have htail : (ofSorted h limit first others).tail.candidates = (first :: others).drop k := by
    rw [← hk]; exact tailOf_candidates _
  have hlen : ¬ types.length < (ofSorted h limit first others).joinedParams.length := by
    have hle := Candidate.arity_le_of_fitsPrefix hfit
    have : (ofSorted h limit first others).joinedParams.length = n := by
      rw [← hj.length, ← hps]; exact List.length_map _
    rw [hn d hd] at hle
    omega
  have hfind : (((first :: others).take k).map (armOf positions)).find? (·.passes h types) =
      (((first :: others).take k).find? (·.fitsPrefix h types)).map (armOf positions) := by
    rw [List.find?_map]
    congr 1
    exact List.find?_congr fun c hc => hpass c (List.mem_of_mem_take hc)
  rw [select, if_neg hlen, harms, htail, hfind]
  conv_rhs => rw [← List.take_append_drop k (first :: others), List.find?_append]
  cases ((first :: others).take k).find? (·.fitsPrefix h types) <;> rfl

end GuardChain

/-! ## Overloads -/

namespace Overload

variable {n limit : Nat} {variadic : Bool} {cs : List Candidate} {overload : Overload}

/-- An overload has one or more candidates, and those in order of trial. -/
theorem candidates_of_ofCandidates? (hov : ofCandidates? h limit cs = some overload) :
    overload.candidates = Candidate.sortBySpecificity h cs := by
  unfold ofCandidates? at hov
  split at hov
  · cases hov
  · rename_i c hsort
    cases hov
    exact hsort.symm
  · rename_i first others _ hsort
    cases hov
    rw [hsort, GuardChain.ofSorted_candidates]

theorem ofCandidates?_isSome (h : Hierarchy) (limit : Nat) (hne : cs ≠ []) :
    ∃ overload, ofCandidates? h limit cs = some overload := by
  unfold ofCandidates?
  split
  · rename_i hsort
    have hperm := Candidate.sortBySpecificity_perm (h := h) cs
    rw [hsort] at hperm
    exact absurd hperm.symm.eq_nil hne
  · exact ⟨_, rfl⟩
  · exact ⟨_, rfl⟩

@[simp] theorem ofCandidates?_nil : ofCandidates? h limit [] = none := rfl

theorem ofCandidates?_eq_none_iff : ofCandidates? h limit cs = none ↔ cs = [] := by
  constructor
  · intro hnone
    by_contra hne
    obtain ⟨overload, hov⟩ := ofCandidates?_isSome h limit hne
    rw [hnone] at hov
    cases hov
  · intro hnil
    rw [hnil, ofCandidates?_nil]

theorem arity_of_ofCandidates? (hov : ofCandidates? h limit cs = some overload)
    (hn : ∀ c ∈ cs, c.arity = n) : overload.arity = n := by
  unfold ofCandidates? at hov
  have hmem : ∀ c ∈ Candidate.sortBySpecificity h cs, c.arity = n := by
    intro c hc
    exact hn c (Candidate.mem_sortBySpecificity.1 hc)
  split at hov
  · cases hov
  · rename_i c hsort
    cases hov
    exact hmem c (by rw [hsort]; exact List.mem_cons_self)
  · rename_i first others _ hsort
    cases hov
    obtain ⟨_, hj, -⟩ := joins_chain (h := h) (by rwa [hsort] at hmem)
    exact (List.length_map _).trans hj.length

theorem mem_candidates_of_select {types : List Ty} {c : Candidate}
    (hsel : overload.select h types = some c) : c ∈ overload.candidates := by
  cases overload with
  | single d =>
    simp only [select] at hsel
    split at hsel
    · cases hsel
      exact List.mem_cons_self
    · cases hsel
  | chain guards => exact GuardChain.mem_of_select hsel

theorem mem_of_select (hov : ofCandidates? h limit cs = some overload) {types : List Ty}
    {c : Candidate} (hsel : overload.select h types = some c) : c ∈ cs := by
  rw [← Candidate.mem_sortBySpecificity (h := h), ← candidates_of_ofCandidates? hov]
  exact mem_candidates_of_select hsel

/-- When the arguments fit some candidate, the overload selects the first that they fit. -/
theorem select_eq_find? (hov : ofCandidates? h limit cs = some overload)
    (hn : ∀ c ∈ cs, c.arity = n) {d : Candidate} (hd : d ∈ cs) {types : List Ty}
    (hfit : d.fitsPrefix h types) :
    overload.select h types =
      (Candidate.sortBySpecificity h cs).find? (·.fitsPrefix h types) := by
  unfold ofCandidates? at hov
  split at hov
  · cases hov
  · rename_i c hsort
    cases hov
    rw [hsort, List.find?_singleton]
    rfl
  · rename_i first others _ hsort
    cases hov
    rw [hsort]
    have hmem : ∀ {c}, c ∈ first :: others ↔ c ∈ cs := by
      intro c
      rw [← hsort, Candidate.mem_sortBySpecificity]
    exact GuardChain.select_eq_find? (fun c hc => hn c (hmem.1 hc)) (hmem.2 hd) hfit

/-- Among candidates of one shape, acceptance is fitting and a test of the count that is the same
for all. -/
theorem accepts_eq {c : Candidate} (hn : c.arity = n) (hv : c.isVariadic = variadic)
    (types : List Ty) : c.accepts h types =
      ((if variadic then decide (n ≤ types.length) else decide (types.length = n)) &&
        c.fitsPrefix h types) := by
  rw [Candidate.accepts, hn, hv]

/-- **If some candidate accepts the arguments, the overload selects the first in order that does**,
whatever the limit on guards. -/
theorem select_of_find? (hov : ofCandidates? h limit cs = some overload)
    (hshape : ∀ c ∈ cs, c.arity = n ∧ c.isVariadic = variadic) {types : List Ty} {c : Candidate}
    (hfind : (Candidate.sortBySpecificity h cs).find? (·.accepts h types) = some c) :
    overload.select h types = some c := by
  have hmem : c ∈ cs := Candidate.mem_sortBySpecificity.1 (List.mem_of_find?_eq_some hfind)
  have hacc : c.accepts h types = true := by simpa using List.find?_some hfind
  rw [accepts_eq (hshape c hmem).1 (hshape c hmem).2, Bool.and_eq_true] at hacc
  rw [select_eq_find? hov (fun d hd => (hshape d hd).1) hmem hacc.2, ← hfind]
  refine List.find?_congr fun d hd => ?_
  have hdmem := Candidate.mem_sortBySpecificity.1 hd
  rw [accepts_eq (hshape d hdmem).1 (hshape d hdmem).2, hacc.1, Bool.true_and]

/-- **Selecting is scanning**, once what is selected has passed the acceptance test of the call. -/
theorem filter_select (hov : ofCandidates? h limit cs = some overload)
    (hshape : ∀ c ∈ cs, c.arity = n ∧ c.isVariadic = variadic) (types : List Ty) :
    (overload.select h types).filter (·.accepts h types) =
      (Candidate.sortBySpecificity h cs).find? (·.accepts h types) := by
  cases hfind : (Candidate.sortBySpecificity h cs).find? (·.accepts h types) with
  | some c =>
    rw [select_of_find? hov hshape hfind, Option.filter_some, if_pos (List.find?_some hfind)]
  | none =>
    rw [Option.filter_eq_none_iff]
    intro c hsel
    rw [List.find?_eq_none] at hfind
    exact hfind c (Candidate.mem_sortBySpecificity.2 (mem_of_select hov hsel))

end Overload

end Multimethod
