import Multimethod.Proofs.Dispatch.Relabel

/-!
# Arity pins in dispatch

A pin keeps candidates out, but none of those that serve calls with its own number of arguments: what is
kept out has another arity, and leaves no call of that number to others.

* `Candidate.pinnedTo`, `Candidate.pinAll` — candidates as the pinned lookup finds them.
* `sortBySpecificity_pinnedTo` — they are tried in the same order.
* `servingOf`, `arityRule_eq` — the candidates that serve a number of arguments.
* `servingOf_pinAll` — a pin leaves all that serve its number of arguments.
-/

namespace Multimethod

variable {h : Hierarchy} {limit : Nat} {cs : List Candidate} {argc : Nat}

/-! ## Candidates under a pin -/

namespace Candidate

/-- The candidate as the lookup that is pinned to so many arguments finds it. -/
def pinnedTo (n : Nat) (c : Candidate) : Candidate :=
  { c with lookup := { c.lookup with pin := some n } }

/-- What a pin to so many arguments leaves of candidates. -/
def pinAll (n : Nat) (cs : List Candidate) : List Candidate :=
  (cs.filter (·.admittedBy (some n))).map (pinnedTo n)

section

variable (n : Nat) (c : Candidate)

@[simp] theorem pinnedTo_isVariadic : (c.pinnedTo n).isVariadic = c.isVariadic := rfl

@[simp] theorem pinnedTo_arity : (c.pinnedTo n).arity = c.arity := rfl

end

theorem sortBySpecificity_pinnedTo (n : Nat) (cs : List Candidate) :
    sortBySpecificity h (cs.map (pinnedTo n)) = (sortBySpecificity h cs).map (pinnedTo n) :=
  sortBySpecificity_relabel (fun key => { key with pin := some n }) cs

theorem mem_pinAll {n : Nat} {c : Candidate} (hc : c ∈ pinAll n cs) : c.admittedBy (some n) := by
  obtain ⟨d, hd, rfl⟩ := List.mem_map.1 hc
  exact (List.mem_filter.1 hd).2

end Candidate

/-! ## Candidates that serve a call -/

/-- The candidates that serve a number of arguments, whatever the types of these are. -/
def servingOf (cs : List Candidate) (argc : Nat) : List Candidate :=
  if (fixedOf cs argc).isEmpty then ((greatestVariadic? cs argc).map (variadicOf cs)).getD []
  else fixedOf cs argc

/-- All candidates that serve a number of arguments are of one shape. -/
theorem exists_shape_of_servingOf (cs : List Candidate) (argc : Nat) :
    ∃ arity variadic, ∀ c ∈ servingOf cs argc, c.arity = arity ∧ c.isVariadic = variadic := by
  unfold servingOf
  split
  · cases greatestVariadic? cs argc with
    | none => exact ⟨0, false, fun c hc => by cases hc⟩
    | some arity => exact ⟨arity, true, fun c hc => (mem_variadicOf.1 hc).2.symm⟩
  · exact ⟨argc, false, fun c hc => (mem_fixedOf.1 hc).2.symm⟩

theorem mem_of_mem_servingOf {c : Candidate} (hc : c ∈ servingOf cs argc) : c ∈ cs := by
  unfold servingOf at hc
  split at hc
  · cases hgreatest : greatestVariadic? cs argc with
    | none =>
      rw [hgreatest] at hc
      cases hc
    | some arity =>
      rw [hgreatest] at hc
      exact (mem_variadicOf.1 hc).1
  · exact (mem_fixedOf.1 hc).1

theorem servingOf_singleton {c : Candidate} {types : List Ty} (haccepts : c.accepts h types) :
    servingOf [c] types.length = [c] := by
  unfold Candidate.accepts at haccepts
  unfold servingOf
  cases hvariadic : c.isVariadic with
  | false =>
    simp only [hvariadic, Bool.false_eq_true, if_false, Bool.and_eq_true, decide_eq_true_eq] at haccepts
    have hfixed : fixedOf [c] types.length = [c] := by simp [fixedOf, hvariadic, haccepts.1]
    rw [hfixed]
    rfl
  | true =>
    simp only [hvariadic, if_true, Bool.and_eq_true, decide_eq_true_eq] at haccepts
    have hfixed : fixedOf [c] types.length = [] := by simp [fixedOf, hvariadic]
    have hgreatest : greatestVariadic? [c] types.length = some c.arity :=
      greatestVariadic?_eq_some_iff.2
        ⟨⟨c, List.mem_singleton_self c, hvariadic, rfl⟩, haccepts.1,
          fun d hd _ _ => by rw [List.mem_singleton.1 hd]⟩
    rw [hfixed, hgreatest]
    simp [variadicOf, hvariadic]

/-- The overload of the arity rule is that of the candidates that serve the call. -/
theorem arityRule_eq (h : Hierarchy) (limit : Nat) (pin : Option Nat) (cs : List Candidate) (argc : Nat) :
    arityRule h limit pin cs argc =
      if pin.any (· ≠ argc) then none else Overload.ofCandidates? h limit (servingOf cs argc) := by
  unfold arityRule servingOf
  split
  · rfl
  cases hfixed : Overload.ofCandidates? h limit (fixedOf cs argc) with
  | none =>
    rw [Overload.ofCandidates?_eq_none_iff.1 hfixed]
    show variadicRule h limit cs argc =
      Overload.ofCandidates? h limit (((greatestVariadic? cs argc).map (variadicOf cs)).getD [])
    unfold variadicRule
    cases greatestVariadic? cs argc <;> rfl
  | some overload =>
    have hne : fixedOf cs argc ≠ [] := by
      intro hnil
      rw [hnil] at hfixed
      cases hfixed
    rw [if_neg (by simpa using hne), hfixed]

/-! ## Pins -/

section

variable (cs : List Candidate) (n : Nat)

theorem fixedOf_pinAll : fixedOf (Candidate.pinAll n cs) n = (fixedOf cs n).map (Candidate.pinnedTo n) := by
  unfold fixedOf Candidate.pinAll
  rw [List.filter_map, List.filter_filter]
  congr 1
  refine List.filter_congr fun c _ => ?_
  cases hvariadic : c.isVariadic with
  | true => simp [hvariadic]
  | false => by_cases harity : c.arity = n <;> simp [hvariadic, harity, Candidate.admittedBy]

theorem variadicOf_pinAll {arity : Nat} (hle : arity ≤ n) :
    variadicOf (Candidate.pinAll n cs) arity = (variadicOf cs arity).map (Candidate.pinnedTo n) := by
  unfold variadicOf Candidate.pinAll
  rw [List.filter_map, List.filter_filter]
  congr 1
  refine List.filter_congr fun c _ => ?_
  by_cases harity : c.arity = arity
  · cases hvariadic : c.isVariadic <;> simp [hvariadic, harity, hle, Candidate.admittedBy]
  · simp [harity]

theorem greatestVariadic?_pinAll : greatestVariadic? (Candidate.pinAll n cs) n = greatestVariadic? cs n := by
  have hvariadic : (Candidate.pinAll n cs).filter (·.isVariadic) =
      ((cs.filter fun c => c.isVariadic && c.arity ≤ n)).map (Candidate.pinnedTo n) := by
    unfold Candidate.pinAll
    rw [List.filter_map, List.filter_filter]
    congr 1
    refine List.filter_congr fun c _ => ?_
    cases hvariadic : c.isVariadic <;> simp [hvariadic, Candidate.admittedBy]
  unfold greatestVariadic?
  rw [hvariadic, List.map_map, List.filter_map, List.filter_map, List.filter_filter, List.filter_filter]
  congr 2
  refine List.filter_congr fun c _ => ?_
  cases hle : decide (c.arity ≤ n) <;> simp_all

/-- **A pin leaves all candidates that serve its number of arguments.** -/
theorem servingOf_pinAll :
    servingOf (Candidate.pinAll n cs) n = (servingOf cs n).map (Candidate.pinnedTo n) := by
  unfold servingOf
  rw [fixedOf_pinAll, greatestVariadic?_pinAll, List.isEmpty_map]
  split
  · cases hgreatest : greatestVariadic? cs n with
    | none => rfl
    | some arity => exact variadicOf_pinAll cs n (greatestVariadic?_eq_some_iff.1 hgreatest).2.1
  · rfl

end

end Multimethod
