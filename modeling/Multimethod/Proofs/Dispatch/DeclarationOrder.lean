import Mathlib.Data.List.Perm.Basic
import Multimethod.Proofs.Dispatch.ArityRule
import Multimethod.Proofs.Dispatch.TrialOrder
import Multimethod.Proofs.Engine.Recursion

/-!
# Declaration order

Overloads may be declared in any order. Sorting could let the order through where it does not tell
two candidates apart, but it tells all types apart, host types of one name by their numbers, and so
it leaves open only the order of candidates with one signature. What is made of the sorted
candidates, and the smallest and largest arities, depend on no order at all.

* `eq_of_specificityOrder_eq` — no two types are equally specific.
* `eq_of_ordered` — candidates of distinct signatures have one order of trial.
* `DispatchTable.ofCandidates_eq_of_perm` — the table they make does not show how they stood.
* `Callable.ofCandidates?_declaration_order` — nor does the callable.
-/

namespace Multimethod

variable {h : Hierarchy} {limit lookahead : Nat}

namespace Hierarchy

/-! ## Types are told apart -/

/-- A key that compares equal to another is the same. -/
instance : Std.LawfulEqCmp SpecificityKey.order where
  eq_of_compare {k l} heq := by
    simp only [SpecificityKey.order, compareLex, Ordering.then_eq_eq, compareOn,
      Std.LawfulEqCmp.compare_eq_iff_eq] at heq
    obtain ⟨htier, hplace, hname, htie⟩ := heq
    cases k
    cases l
    congr

/-- Builtin types differ by tier, by place or by name, and host types by number. -/
theorem specificityKey_injective : Function.Injective h.specificityKey := by
  intro s t heq
  cases s <;> cases t <;> simp_all [specificityKey, typeName, Ty.label]

/-- **No two types are equally specific.** -/
theorem eq_of_specificityOrder_eq {s t : Ty} (heq : h.specificityOrder s t = .eq) : s = t :=
  specificityKey_injective (@Std.LawfulEqCmp.eq_of_compare _ SpecificityKey.order _ _ _ heq)

instance : Std.LawfulEqCmp h.specificityOrder where
  eq_of_compare := eq_of_specificityOrder_eq

end Hierarchy

/-! ## Sorting -/

namespace Candidate

variable {cs cs' : List Candidate}

theorem params_eq_of_order_eq {c d : Candidate} (heq : c.order h d = .eq) : c.params = d.params := by
  simp only [order, compareLex, Ordering.then_eq_eq] at heq
  exact @Std.LawfulEqCmp.eq_of_compare _ (List.compareLex h.specificityOrder) _ _ _ heq.2.1

/-- Where all signatures are distinct, candidates of one signature are one candidate. -/
theorem eq_of_sameSignature (hdistinct : cs.Pairwise fun c d => ¬ c.sameSignature d) {c d : Candidate}
    (hc : c ∈ cs) (hd : d ∈ cs) (hsame : c.sameSignature d) : c = d := by
  have : Std.Symm fun c d : Candidate => ¬ c.sameSignature d := by
    refine ⟨fun c d hne hsame => hne ?_⟩
    obtain ⟨hvariadic, hparams⟩ := sameSignature_iff.1 hsame
    exact sameSignature_iff.2 ⟨hvariadic.symm, hparams.symm⟩
  by_contra hne
  exact hdistinct.forall hc hd hne hsame

/-- **Candidates of distinct signatures have one order of trial,** if all of them are variadic or none
is. -/
theorem eq_of_ordered (hdistinct : cs.Pairwise fun c d => ¬ c.sameSignature d) {isVariadic : Bool}
    (halike : ∀ c ∈ cs, c.isVariadic = isVariadic) {xs ys : List Candidate} (hxs : xs.Perm cs)
    (hys : ys.Perm cs) (hxsorted : xs.Pairwise fun c d => (c.order h d).isLE)
    (hysorted : ys.Pairwise fun c d => (c.order h d).isLE) : xs = ys := by
  refine List.Perm.eq_of_pairwise (fun c d hc hd hcd hdc => ?_) hxsorted hysorted (hxs.trans hys.symm)
  have hc : c ∈ cs := hxs.mem_iff.1 hc
  have hd : d ∈ cs := hys.mem_iff.1 hd
  have heq : c.order h d = .eq := Std.OrientedCmp.isLE_antisymm hcd hdc
  have hvariadic : c.isVariadic = d.isVariadic := (halike c hc).trans (halike d hd).symm
  exact eq_of_sameSignature hdistinct hc hd
    (sameSignature_iff.2 ⟨hvariadic, params_eq_of_order_eq heq⟩)

theorem sortBySpecificity_eq_of_perm (hdistinct : cs.Pairwise fun c d => ¬ c.sameSignature d)
    {isVariadic : Bool} (halike : ∀ c ∈ cs, c.isVariadic = isVariadic) (hperm : cs.Perm cs') :
    sortBySpecificity h cs = sortBySpecificity h cs' :=
  eq_of_ordered hdistinct halike (sortBySpecificity_perm cs)
    ((sortBySpecificity_perm cs').trans hperm.symm) (sortBySpecificity_pairwise cs)
    (sortBySpecificity_pairwise cs')

end Candidate

variable {cs cs' : List Candidate}

theorem Overload.ofCandidates?_eq_of_perm (hdistinct : cs.Pairwise fun c d => ¬ c.sameSignature d)
    {isVariadic : Bool} (halike : ∀ c ∈ cs, c.isVariadic = isVariadic) (hperm : cs.Perm cs') :
    ofCandidates? h limit cs = ofCandidates? h limit cs' := by
  unfold ofCandidates?
  rw [Candidate.sortBySpecificity_eq_of_perm hdistinct halike hperm]

/-! ## Tables -/

namespace DispatchTable

variable {first first' : Candidate} {others others' : List Candidate}

theorem fillSlots_eq_of_perm (hdistinct : cs.Pairwise fun c d => ¬ c.sameSignature d)
    (hperm : cs.Perm cs') (arities : List Nat) (groups : List Overload) :
    fillSlots h limit cs arities groups = fillSlots h limit cs' arities groups := by
  induction arities generalizing groups with
  | nil => rfl
  | cons arity more ih =>
    have hfixed : Overload.ofCandidates? h limit (fixedOf cs arity) =
        Overload.ofCandidates? h limit (fixedOf cs' arity) :=
      Overload.ofCandidates?_eq_of_perm (hdistinct.filter _) (fun c hc => (mem_fixedOf.1 hc).2.1)
        (hperm.filter _)
    have hvariadic : Overload.ofCandidates? h limit (variadicOf cs arity) =
        Overload.ofCandidates? h limit (variadicOf cs' arity) :=
      Overload.ofCandidates?_eq_of_perm (hdistinct.filter _) (fun c hc => (mem_variadicOf.1 hc).2.1)
        (hperm.filter _)
    simp only [fillSlots_cons, slotOf, hfixed, hvariadic, ih]

theorem min?_eq_of_perm {xs ys : List Nat} (hperm : xs.Perm ys) : xs.min? = ys.min? := by
  refine Option.ext fun n => ?_
  simp only [List.min?_eq_some_iff, hperm.mem_iff]

theorem max?_eq_of_perm {xs ys : List Nat} (hperm : xs.Perm ys) : xs.max? = ys.max? := by
  refine Option.ext fun n => ?_
  simp only [List.max?_eq_some_iff, hperm.mem_iff]

theorem arityBounds_eq (first : Candidate) (others : List Candidate) :
    (((first :: others).map (·.arity)).min?, ((first :: others).map (·.arity)).max?) =
      (some (arityBounds first others).1, some (arityBounds first others).2) := by
  rw [List.map_cons, List.min?_cons', List.max?_cons', List.foldl_map, List.foldl_map]
  rfl

theorem arityBounds_eq_of_perm (hperm : (first :: others).Perm (first' :: others')) :
    arityBounds first others = arityBounds first' others' := by
  have heq := arityBounds_eq first others
  rw [min?_eq_of_perm (hperm.map _), max?_eq_of_perm (hperm.map _), arityBounds_eq] at heq
  simp only [Prod.mk.injEq, Option.some.injEq] at heq
  exact Prod.ext heq.1.symm heq.2.symm

theorem reach_eq (maxArity lookahead : Nat) (cs : List Candidate) :
    reach maxArity lookahead cs =
      (((cs.filter (·.isVariadic)).map (·.arity + lookahead)).min?).elim maxArity (max maxArity) := by
  unfold reach
  cases (cs.filter (·.isVariadic)).map (·.arity + lookahead) with
  | nil => rfl
  | cons n rest => rw [List.min?_cons']; rfl

theorem reach_eq_of_perm (maxArity lookahead : Nat) (hperm : cs.Perm cs') :
    reach maxArity lookahead cs = reach maxArity lookahead cs' := by
  rw [reach_eq, reach_eq, min?_eq_of_perm ((hperm.filter _).map _)]

/-- **A table does not show in which order its candidates stood.** -/
theorem ofCandidates_eq_of_perm {name : String} {scope : Ty} {pin : Option Nat}
    (hdistinct : (first :: others).Pairwise fun c d => ¬ c.sameSignature d)
    (hperm : (first :: others).Perm (first' :: others')) :
    ofCandidates h name scope limit lookahead pin first others =
      ofCandidates h name scope limit lookahead pin first' others' := by
  simp only [ofCandidates, arityBounds_eq_of_perm hperm, fillSlots_eq_of_perm hdistinct hperm,
    reach_eq_of_perm _ _ hperm]

end DispatchTable

/-! ## Callables -/

namespace Callable

def onScope (scope : Ty) : Callable → Callable
  | .table t => .table { t with scope }
  | c => c

/-- A callable shows neither in which order its candidates stood nor, apart from the scope that it
names, on which type they were found. -/
theorem map_onScope_ofCandidates?_of_perm {name : String} {pin : Option Nat} (scope scope' : Ty)
    (hdistinct : cs.Pairwise fun c d => ¬ c.sameSignature d) (hperm : cs.Perm cs') :
    (ofCandidates? h name scope limit lookahead pin cs).map (onScope scope') =
      ofCandidates? h name scope' limit lookahead pin cs' := by
  cases cs with
  | nil => rw [List.nil_perm.1 hperm]; rfl
  | cons first others =>
    cases others with
    | nil =>
      obtain rfl := List.singleton_perm.1 hperm
      simp only [ofCandidates?]
      split <;> rfl
    | cons second more =>
      obtain ⟨first', second', more', rfl⟩ : ∃ first' second' more', cs' = first' :: second' :: more' := by
        match cs', hperm.length_eq with
        | first' :: second' :: more', _ => exact ⟨first', second', more', rfl⟩
      have htable : DispatchTable.ofCandidates h name scope' limit lookahead pin first (second :: more) =
          DispatchTable.ofCandidates h name scope' limit lookahead pin first' (second' :: more') :=
        DispatchTable.ofCandidates_eq_of_perm hdistinct hperm
      exact congrArg (fun table => some (Callable.table table)) htable

/-- **The order of declarations does not matter**: candidates of pairwise distinct signatures make one
and the same callable however they stand, of the same kind, with the same candidates in the order of
trial, the same joined types for every number of arguments and the same choice for all arguments. -/
theorem ofCandidates?_declaration_order (h : Hierarchy) (name : String) (scope : Ty)
    (limit lookahead : Nat) (pin : Option Nat) {cs cs' : List Candidate}
    (hdistinct : cs.Pairwise fun c d => ¬ c.sameSignature d) (hperm : cs.Perm cs') :
    ofCandidates? h name scope limit lookahead pin cs =
      ofCandidates? h name scope limit lookahead pin cs' := by
  rw [← map_onScope_ofCandidates?_of_perm scope scope hdistinct (.refl cs)]
  exact map_onScope_ofCandidates?_of_perm scope scope hdistinct hperm

/-- Two fixed candidates and a variadic one, declared in two orders. -/
theorem ofCandidates?_declaration_order_of_three :
    let candidate (index : Nat) (params : List Ty) (isVariadic : Bool) : Candidate :=
      { owner := .host 0, index, lookup := ⟨"f", .method, .any, false, none⟩, key := "f", kind := .method,
        origin := .static, params, ret := .any, isVariadic }
    let f := candidate 0 [.any] false
    let g := candidate 1 [.int] false
    let v := candidate 2 [.any] true
    [f, g, v].Pairwise (fun c d => ¬ c.sameSignature d) ∧ [f, g, v].Perm [v, g, f] ∧
      ofCandidates? ⟨[⟨"Sample", []⟩]⟩ "f" (.host 0) 6 4 none [f, g, v] =
        ofCandidates? ⟨[⟨"Sample", []⟩]⟩ "f" (.host 0) 6 4 none [v, g, f] := by
  intro candidate f g v
  have hdistinct : [f, g, v].Pairwise fun c d => ¬ c.sameSignature d := by decide
  have hperm : [f, g, v].Perm [v, g, f] := by decide
  exact ⟨hdistinct, hperm, ofCandidates?_declaration_order _ _ _ _ _ _ hdistinct hperm⟩

end Callable

end Multimethod
