import Multimethod.Proofs.Dispatch.ArityRule
import Multimethod.Proofs.Engine.Recursion

/-!
# Candidates of another lookup

A candidate carries the lookup that found it, and nothing that chooses among candidates asks for it. So
candidates under another lookup are sorted, grouped and selected as they were before.

* `Candidate.relabel` — the candidate as another lookup would find it.
* `sortBySpecificity_relabel` — the order of trial is the same.
* `Overload.select_relabel`, `arityRule_relabel` — so is the choice, of an overload and by number of
  arguments.
-/

namespace Multimethod

variable {h : Hierarchy} {limit : Nat} {cs : List Candidate} (g : LookupKey → LookupKey)

/-! ## Candidates -/

namespace Candidate

/-- The candidate with its lookup changed. -/
def relabel (c : Candidate) : Candidate := { c with lookup := g c.lookup }

theorem insertOrdered_relabel (c : Candidate) (cs : List Candidate) :
    insertOrdered h (c.relabel g) (cs.map (relabel g)) = (insertOrdered h c cs).map (relabel g) := by
  induction cs with
  | nil => rfl
  | cons d rest ih =>
    have horder : (c.relabel g).order h (d.relabel g) = c.order h d := rfl
    rw [List.map_cons, insertOrdered, insertOrdered, horder, ih]
    split <;> rfl

theorem sortBySpecificity_relabel (cs : List Candidate) :
    sortBySpecificity h (cs.map (relabel g)) = (sortBySpecificity h cs).map (relabel g) := by
  induction cs with
  | nil => rfl
  | cons c rest ih =>
    show insertOrdered h (c.relabel g) (sortBySpecificity h (rest.map (relabel g))) = _
    rw [ih]
    exact insertOrdered_relabel g c _

theorem find?_fitsPrefix_relabel (h : Hierarchy) (types : List Ty) (cs : List Candidate) :
    (cs.map (relabel g)).find? (·.fitsPrefix h types) =
      (cs.find? (·.fitsPrefix h types)).map (relabel g) := by
  rw [List.find?_map]
  rfl

theorem firstOfEach_relabel (cs : List Candidate) :
    firstOfEach (cs.map (relabel g)) = (firstOfEach cs).map (relabel g) := by
  induction cs with
  | nil => rfl
  | cons c rest ih =>
    rw [List.map_cons, firstOfEach, ih, firstOfEach, List.map_cons, List.filter_map]
    rfl

end Candidate

open Candidate

theorem fixedOf_relabel (arity : Nat) :
    fixedOf (cs.map (relabel g)) arity = (fixedOf cs arity).map (relabel g) := by
  unfold fixedOf
  rw [List.filter_map]
  rfl

theorem variadicOf_relabel (arity : Nat) :
    variadicOf (cs.map (relabel g)) arity = (variadicOf cs arity).map (relabel g) := by
  unfold variadicOf
  rw [List.filter_map]
  rfl

theorem greatestVariadic?_relabel (argc : Nat) :
    greatestVariadic? (cs.map (relabel g)) argc = greatestVariadic? cs argc := by
  have harities : ((cs.map (relabel g)).filter (·.isVariadic)).map (·.arity) =
      (cs.filter (·.isVariadic)).map (·.arity) := by
    rw [List.filter_map, List.map_map]
    rfl
  unfold greatestVariadic?
  rw [harities]

/-! ## Overloads -/

def GuardArm.relabel (arm : GuardArm) : GuardArm := { arm with candidate := arm.candidate.relabel g }

namespace GuardChain

variable (first : Candidate) (others : List Candidate)

theorem joinedParams_ofSorted_relabel :
    (ofSorted h limit (first.relabel g) (others.map (Candidate.relabel g))).joinedParams =
      (ofSorted h limit first others).joinedParams := by
  simp only [ofSorted, List.foldl_map]
  rfl

theorem arms_ofSorted_relabel :
    (ofSorted h limit (first.relabel g) (others.map (Candidate.relabel g))).arms =
      (ofSorted h limit first others).arms.map (GuardArm.relabel g) := by
  simp only [ofSorted, List.foldl_map, ← List.map_cons, ← List.map_take, List.map_map, List.length_map]
  rfl

theorem tail_ofSorted_relabel :
    (ofSorted h limit (first.relabel g) (others.map (Candidate.relabel g))).tail.candidates =
      (ofSorted h limit first others).tail.candidates.map (Candidate.relabel g) := by
  simp only [ofSorted, tailOf_candidates, ← List.map_cons, ← List.map_drop, List.length_map]

theorem select_ofSorted_relabel (h' : Hierarchy) (types : List Ty) :
    (ofSorted h limit (first.relabel g) (others.map (Candidate.relabel g))).select h' types =
      ((ofSorted h limit first others).select h' types).map (Candidate.relabel g) := by
  have harms : ((ofSorted h limit first others).arms.map (GuardArm.relabel g)).find? (·.passes h' types) =
      ((ofSorted h limit first others).arms.find? (·.passes h' types)).map (GuardArm.relabel g) := by
    rw [List.find?_map]
    rfl
  unfold select
  rw [joinedParams_ofSorted_relabel, arms_ofSorted_relabel, tail_ofSorted_relabel, harms,
    find?_fitsPrefix_relabel]
  split
  · rfl
  · cases (ofSorted h limit first others).arms.find? (·.passes h' types) <;> rfl

end GuardChain

/-- **An overload selects the same** under other lookups. -/
theorem Overload.select_relabel (h' : Hierarchy) (types : List Ty) :
    (ofCandidates? h limit (cs.map (Candidate.relabel g))).bind (·.select h' types) =
      ((ofCandidates? h limit cs).bind (·.select h' types)).map (Candidate.relabel g) := by
  unfold ofCandidates?
  rw [sortBySpecificity_relabel]
  match sortBySpecificity h cs with
  | [] => rfl
  | [c] =>
    have hfits : (c.relabel g).fitsPrefix h' types = c.fitsPrefix h' types := rfl
    simp only [List.map_cons, List.map_nil, Option.bind_some, select, hfits]
    split <;> rfl
  | first :: second :: others => exact GuardChain.select_ofSorted_relabel g first (second :: others) h' types

theorem variadicRule_relabel (argc : Nat) (h' : Hierarchy) (types : List Ty) :
    (variadicRule h limit (cs.map (Candidate.relabel g)) argc).bind (·.select h' types) =
      ((variadicRule h limit cs argc).bind (·.select h' types)).map (Candidate.relabel g) := by
  unfold variadicRule
  rw [greatestVariadic?_relabel]
  cases greatestVariadic? cs argc with
  | none => rfl
  | some arity =>
    rw [Option.bind_some, Option.bind_some, variadicOf_relabel]
    exact Overload.select_relabel g h' types

/-- **The arity rule finds the same** under other lookups. -/
theorem arityRule_relabel (pin : Option Nat) (argc : Nat) (h' : Hierarchy) (types : List Ty) :
    (arityRule h limit pin (cs.map (Candidate.relabel g)) argc).bind (·.select h' types) =
      ((arityRule h limit pin cs argc).bind (·.select h' types)).map (Candidate.relabel g) := by
  have hfixed : ((Overload.ofCandidates? h limit ((fixedOf cs argc).map (Candidate.relabel g))).bind
      (·.select h' types)) = _ := Overload.select_relabel g h' types
  unfold arityRule
  split
  · rfl
  rw [fixedOf_relabel]
  cases hov : Overload.ofCandidates? h limit (fixedOf cs argc) with
  | none =>
    have hnil := Overload.ofCandidates?_eq_none_iff.1 hov
    rw [hnil]
    exact variadicRule_relabel g argc h' types
  | some overload =>
    have hne : (fixedOf cs argc).map (Candidate.relabel g) ≠ [] := by
      intro hnil
      rw [List.map_eq_nil_iff.1 hnil] at hov
      cases hov
    obtain ⟨overload', hov'⟩ := Overload.ofCandidates?_isSome h limit hne
    rw [hov, hov'] at hfixed
    rw [hov']
    exact hfixed

end Multimethod
