import Multimethod.Proofs.Dispatch.ArityRule

/-!
# Callables alike

Two tables are alike if they go by one name, hold the same candidates in the same order and find the
same candidate for whatever arguments a candidate accepts. What they are made of inside, slot by slot
and guard by guard, may differ.

* `DispatchTable.ofCandidates_alike` — the limit on guards and the lookahead do not show.
* `Callable.Alike.sameDispatch_eq` — nor does it show which of two callables alike is compared.
-/

namespace Multimethod

variable {h : Hierarchy}

namespace DispatchTable

/-- Tables that cannot be told apart by name, by candidates or by calls. -/
structure Alike (h : Hierarchy) (t u : DispatchTable) : Prop where
  name : t.name = u.name
  candidates : t.candidates = u.candidates
  /-- The candidate that a call runs, if the call is not rejected. -/
  accepted : ∀ types, (t.select h types).filter (·.accepts h types) =
    (u.select h types).filter (·.accepts h types)

/-- The first of some candidates of one arity that accepts the arguments, through an overload. -/
theorem ofCandidates?_accepted (limit limit' : Nat) {n : Nat} {variadic : Bool}
    {cs : List Candidate} (hshape : ∀ c ∈ cs, c.arity = n ∧ c.isVariadic = variadic)
    (types : List Ty) :
    ((Overload.ofCandidates? h limit cs).bind (·.select h types)).filter (·.accepts h types) =
      ((Overload.ofCandidates? h limit' cs).bind (·.select h types)).filter
        (·.accepts h types) := by
  by_cases hcs : cs = []
  · rw [Overload.ofCandidates?_eq_none_iff.2 hcs, Overload.ofCandidates?_eq_none_iff.2 hcs]
  · obtain ⟨overload, hov⟩ := Overload.ofCandidates?_isSome h limit hcs
    obtain ⟨overload', hov'⟩ := Overload.ofCandidates?_isSome h limit' hcs
    rw [hov, hov', Option.bind_some, Option.bind_some, Overload.filter_select hov hshape,
      Overload.filter_select hov' hshape]

/-- The overload of the arity rule finds the same candidate whatever the limit on guards. -/
theorem arityRule_accepted (limit limit' : Nat) (pin : Option Nat) (cs : List Candidate)
    (types : List Ty) :
    ((arityRule h limit pin cs types.length).bind (·.select h types)).filter
        (·.accepts h types) =
      ((arityRule h limit' pin cs types.length).bind (·.select h types)).filter
        (·.accepts h types) := by
  have hfixed : ∀ c ∈ fixedOf cs types.length, c.arity = types.length ∧ c.isVariadic = false := by
    intro c hc
    obtain ⟨_, hv, ha⟩ := mem_fixedOf.1 hc
    exact ⟨ha, hv⟩
  unfold arityRule
  split
  · rfl
  · by_cases hnil : fixedOf cs types.length = []
    · -- no fixed candidate: the variadic ones of the greatest arity serve
      rw [Overload.ofCandidates?_eq_none_iff.2 hnil, Overload.ofCandidates?_eq_none_iff.2 hnil]
      simp only [variadicRule]
      cases greatestVariadic? cs types.length with
      | none => rfl
      | some arity =>
        have hvariadic : ∀ c ∈ variadicOf cs arity, c.arity = arity ∧ c.isVariadic = true := by
          intro c hc
          obtain ⟨_, hv, ha⟩ := mem_variadicOf.1 hc
          exact ⟨ha, hv⟩
        exact ofCandidates?_accepted limit limit' hvariadic types
    · obtain ⟨overload, hov⟩ := Overload.ofCandidates?_isSome h limit hnil
      obtain ⟨overload', hov'⟩ := Overload.ofCandidates?_isSome h limit' hnil
      have haccepted := ofCandidates?_accepted (h := h) limit limit' hfixed types
      rw [hov, hov'] at haccepted ⊢
      exact haccepted

/-- **The limit on guards and the lookahead do not show** in a table. -/
theorem ofCandidates_alike (name : String) (scope : Ty) (limit lookahead limit' lookahead' : Nat)
    (pin : Option Nat) (first : Candidate) (others : List Candidate) :
    Alike h (ofCandidates h name scope limit lookahead pin first others)
      (ofCandidates h name scope limit' lookahead' pin first others) where
  name := rfl
  candidates := by rw [candidates_ofCandidates, candidates_ofCandidates]
  accepted types := by
    unfold select
    rw [(holds_ofCandidates name scope lookahead pin first others).overloadFor?_eq_arityRule,
      (holds_ofCandidates name scope lookahead' pin first others).overloadFor?_eq_arityRule]
    exact arityRule_accepted limit limit' pin _ types

theorem candidates_ofCandidates_ne_nil (name : String) (scope : Ty) (limit lookahead : Nat)
    (pin : Option Nat) (first : Candidate) (others : List Candidate) :
    (ofCandidates h name scope limit lookahead pin first others).candidates ≠ [] := by
  intro hnil
  have hperm : (ofCandidates h name scope limit lookahead pin first others).candidates.Perm
      (first :: others) := candidates_perm name scope lookahead pin first others
  rw [hnil] at hperm
  exact absurd hperm.symm.eq_nil (List.cons_ne_nil first others)

end DispatchTable

namespace Callable

/-- Callables that cannot be told apart: one and the same, or tables alike. -/
inductive Alike (h : Hierarchy) : Callable → Callable → Prop
  | refl (a : Callable) : Alike h a a
  | table {t u : DispatchTable} (hne : t.candidates ≠ []) (htables : t.Alike h u) :
    Alike h (.table t) (.table u)

variable {a a' b b' : Callable}

theorem sameDispatch_table {t : DispatchTable} (hne : t.candidates ≠ []) (b : Callable) :
    sameDispatch (.table t) b = decide (t.candidates = b.candidates) := by
  have hisEmpty : t.candidates.isEmpty = false := by simpa using hne
  have hsame : sameDispatch (.table t) b =
      (decide (.table t = b) || (!t.candidates.isEmpty && decide (t.candidates = b.candidates))) := by
    cases b <;> rfl
  rw [hsame, hisEmpty]
  by_cases heq : Callable.table t = b
  · subst heq
    simp [candidates]
  · simp [heq]

theorem sameDispatch_comm (a b : Callable) : a.sameDispatch b = b.sameDispatch a := by
  have hlists (xs ys : List Candidate) :
      (!xs.isEmpty && decide (xs = ys)) = (!ys.isEmpty && decide (ys = xs)) := by
    by_cases hxy : xs = ys
    · rw [hxy]
    · have hyx : ¬ ys = xs := fun heq => hxy heq.symm
      simp [hxy, hyx]
  have hself : decide (a = b) = decide (b = a) := decide_eq_decide.2 eq_comm
  unfold sameDispatch
  rw [hself]
  congr 1
  cases a with
  | selector name m =>
    cases b with
    | selector name' n => exact decide_eq_decide.2 eq_comm
    | _ => exact hlists _ _
  | _ => cases b <;> exact hlists _ _

namespace Alike

theorem name_eq (hab : Alike h a b) : a.name = b.name := by
  cases hab with
  | refl => rfl
  | table _ htables => exact htables.name

theorem sameDispatch_eq (ha : Alike h a a') (hb : Alike h b b') :
    a.sameDispatch b = a'.sameDispatch b' := by
  have hright {t u : DispatchTable} (hne : t.candidates ≠ []) (htables : t.Alike h u)
      (a : Callable) : a.sameDispatch (.table t) = a.sameDispatch (.table u) := by
    rw [sameDispatch_comm, sameDispatch_comm a, sameDispatch_table hne,
      sameDispatch_table (htables.candidates ▸ hne), htables.candidates]
  have hleft : a.sameDispatch b = a'.sameDispatch b := by
    cases ha with
    | refl => rfl
    | table hne htables =>
      rw [sameDispatch_table hne, sameDispatch_table (htables.candidates ▸ hne),
        htables.candidates]
  rw [hleft]
  cases hb with
  | refl => rfl
  | table hne htables => exact hright hne htables a'

end Alike

/-- The limit on guards and the lookahead do not show in a callable. -/
theorem ofCandidates?_alike (name : String) (scope : Ty) (limit lookahead limit' lookahead' : Nat)
    (pin : Option Nat) (cs : List Candidate) :
    Option.Rel (Alike h) (ofCandidates? h name scope limit lookahead pin cs)
      (ofCandidates? h name scope limit' lookahead' pin cs) := by
  have htable (first : Candidate) (others : List Candidate) :=
    Alike.table (DispatchTable.candidates_ofCandidates_ne_nil name scope limit lookahead pin first
      others) (DispatchTable.ofCandidates_alike (h := h) name scope limit lookahead limit' lookahead'
        pin first others)
  match cs with
  | [] => exact .none
  | [c] =>
    show Option.Rel _ (if pin.isNone || !c.isVariadic then _ else _)
      (if pin.isNone || !c.isVariadic then _ else _)
    by_cases hdirect : pin.isNone || !c.isVariadic
    · rw [if_pos hdirect, if_pos hdirect]
      exact .some (Alike.refl _)
    · rw [if_neg hdirect, if_neg hdirect]
      exact .some (htable c [])
  | first :: second :: others => exact .some (htable first (second :: others))

end Callable

end Multimethod
