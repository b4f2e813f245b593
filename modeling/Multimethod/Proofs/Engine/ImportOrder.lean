import Mathlib.Data.List.Forall2
import Multimethod.Proofs.Dispatch.ArityRule
import Multimethod.Proofs.Engine.Imports
import Multimethod.Proofs.Name.Keys
import Multimethod.Proofs.Value.Alike

/-!
# The order of imports

With faithful records, what an import supplies is settled by the registry, up to the name that a table
goes by. So imports in another order supply the same values in another order, and whether they
disagree does not depend on it.

* `Lookup.value?_alike` — references with one answer stand for the same.
* `alike_of_isAnswer` — so the registry settles what a reference is resolved to.
* `sameValues_of_perm` — imports in another order supply the same.
* `Disagreeing.of_sameValues`, `ScopesAgree.of_sameValues` — what disagreement rests on.
-/

namespace Multimethod

open DispatchM

/-! ## Values that are the same -/

/-- The values are one, or equal as programs see it. -/
def Value.Same (v w : Value) : Prop := v = w ∨ v.equal w

namespace Value.Same

variable {v v' w w' : Value}

theorem symm (h : v.Same w) : w.Same v :=
  h.imp Eq.symm fun heq => equal_comm v w ▸ heq

/-- What is equal to one of two values that are the same is equal to the other. -/
theorem equal_of_equal (hv : v.Same v') (hw : w.Same w') (h : v.equal w) : v'.equal w' := by
  have hleft : v'.equal w := by
    rcases hv with rfl | hv
    · exact h
    · exact equal_trans _ _ _ (equal_comm v v' ▸ hv) h
  rcases hw with rfl | hw
  · exact hleft
  · exact equal_trans _ _ _ hleft hw

theorem equal_congr (hv : v.Same v') (hw : w.Same w') : v.equal w = v'.equal w' :=
  Bool.eq_iff_iff.2 ⟨equal_of_equal hv hw, equal_of_equal hv.symm hw.symm⟩

end Value.Same

/-- Tables of the same candidates are the same procedure under any names and on any types. -/
theorem DispatchTable.sameDispatch_ofCandidates {h : Hierarchy} (name name' : String) {scope scope' : Ty}
    {limit lookahead : Nat} {pin : Option Nat} {first : Candidate} {others : List Candidate} :
    Callable.sameDispatch (.table (ofCandidates h name scope limit lookahead pin first others))
      (.table (ofCandidates h name' scope' limit lookahead pin first others)) := by
  refine Callable.sameDispatch_of_candidates (fun hnil => ?_) ?_
  · have hperm : (ofCandidates h name scope limit lookahead pin first others).candidates.Perm
        (first :: others) := candidates_perm _ _ _ _ _ _
    change candidates _ = [] at hnil
    rw [hnil] at hperm
    cases hperm.nil_eq
  · show candidates _ = candidates _
    rw [candidates_ofCandidates, candidates_ofCandidates]

/-- **References with one answer stand for the same,** whatever their texts and the types looked up on are. -/
theorem Lookup.value?_alike (h : Hierarchy) (config : EngineConfig) (surface surface' : String) (t t' : Ty)
    (pin : Option Nat) (lookup : Lookup) :
    Option.Rel Value.Same (lookup.value? h config surface t pin)
      (lookup.value? h config surface' t' pin) := by
  cases lookup with
  | notFound => exact .none
  | constant value => exact .some (.inl rfl)
  | found cs =>
    match cs with
    | [] => exact .none
    | [c] =>
      show Option.Rel _ (Option.map _ (if pin.isNone || !c.isVariadic then _ else _))
        (Option.map _ (if pin.isNone || !c.isVariadic then _ else _))
      split
      · exact .some (.inl rfl)
      · exact .some (.inr (DispatchTable.sameDispatch_ofCandidates _ _))
    | first :: second :: others => exact .some (.inr (DispatchTable.sameDispatch_ofCandidates _ _))

namespace Engine

/-! ## Values supplied -/

/-- Values that are the same, from one scope. -/
def SameFrom (p q : Value × Ty) : Prop := p.1.Same q.1 ∧ p.2 = q.2

theorem differs_congr {p p' q q' : Value × Ty} (hp : SameFrom p p') (hq : SameFrom q q') :
    differs p q = differs p' q' := by
  unfold differs
  rw [hp.1.equal_congr hq.1, hp.2, hq.2]

theorem SameFrom.symm {p q : Value × Ty} (h : SameFrom p q) : SameFrom q p := ⟨h.1.symm, h.2.symm⟩

/-- Lists of the same values in any order. -/
def SameValues (values values' : List (Value × Ty)) : Prop :=
  ∃ ordered, List.Forall₂ SameFrom values ordered ∧ ordered.Perm values'

variable {values values' : List (Value × Ty)}

theorem SameValues.exists_mem (hsame : SameValues values values') :
    ∀ p ∈ values, ∃ q ∈ values', SameFrom p q := by
  obtain ⟨ordered, hforall, hperm⟩ := hsame
  suffices ∀ p ∈ values, ∃ q ∈ ordered, SameFrom p q by
    intro p hp
    obtain ⟨q, hq, hpq⟩ := this p hp
    exact ⟨q, hperm.mem_iff.1 hq, hpq⟩
  clear hperm
  induction hforall with
  | nil => simp
  | cons hfirst _ ih =>
    refine List.forall_mem_cons.2 ⟨⟨_, List.mem_cons_self, hfirst⟩, fun p hp => ?_⟩
    obtain ⟨q, hq, hpq⟩ := ih p hp
    exact ⟨q, List.mem_cons_of_mem _ hq, hpq⟩

theorem SameValues.symm (hsame : SameValues values values') : SameValues values' values := by
  obtain ⟨ordered, hforall, hperm⟩ := hsame
  have hback : List.Forall₂ SameFrom ordered values :=
    List.Forall₂.flip (hforall.imp fun _ _ h => h.symm)
  obtain ⟨reordered, hforall', hperm'⟩ := List.perm_comp_forall₂ hperm.symm hback
  exact ⟨reordered, hforall', hperm'⟩

/-- Whether values disagree rests neither on their order nor on which of the same values they are. -/
theorem Disagreeing.of_sameValues (hsame : SameValues values values') (h : Disagreeing values) :
    Disagreeing values' := by
  obtain ⟨p, hp, q, hq, hdiffer⟩ := h
  obtain ⟨p', hp', hpp⟩ := hsame.exists_mem p hp
  obtain ⟨q', hq', hqq⟩ := hsame.exists_mem q hq
  exact ⟨p', hp', q', hq', differs_congr hpp hqq ▸ hdiffer⟩

theorem ScopesAgree.of_sameValues (hsame : SameValues values values') (h : ScopesAgree values) :
    ScopesAgree values' := by
  obtain ⟨ordered, hforall, hperm⟩ := hsame
  have hordered : ScopesAgree ordered := by
    clear hperm
    unfold ScopesAgree at h ⊢
    induction hforall with
    | nil => exact List.Pairwise.nil
    | @cons p p' rest ordered hfirst hrest ih =>
      obtain ⟨hp, hothers⟩ := List.pairwise_cons.1 h
      refine List.pairwise_cons.2 ⟨fun q' hq' hscope => ?_, ih hothers⟩
      obtain ⟨q, hq, hqq⟩ := SameValues.exists_mem
        (SameValues.symm ⟨ordered, hrest, List.Perm.refl _⟩) q' hq'
      rw [hfirst.1.symm.equal_congr hqq.1]
      exact hp q hq (hfirst.2.trans (hscope.trans hqq.2))
  -- equality is symmetric, so that the order of a pair is of no account
  refine (hperm.pairwise_iff fun hpq hscope => ?_).1 hordered
  rw [Value.equal_comm]
  exact hpq hscope.symm

/-! ## Imports on faithful records -/

section faithful

variable (r : Registry) (hw : WellFounded r.hierarchy.Above) (config : EngineConfig)
  (References : MemberName → Prop) (name : String)

/-- What an import answers is what the recursion finds for the local name. -/
def IsImported (i : Import) (answer : Option (Value × Ty)) : Prop :=
  match i.member? name with
  | some member => ∃ value, answer = value.map (·, i.scope) ∧
    IsAnswer r hw config References i.scope (member.lookup .any false) (.ok value)
  | none => answer = none

end faithful

variable {r : Registry} {hw : WellFounded r.hierarchy.Above} {config : EngineConfig}
  {References : MemberName → Prop} {name : String} {i : Import}

theorem isSpelled_of_member? {member : MemberName} (h : i.member? name = some member) :
    member.IsSpelled := by
  unfold Import.member? at h
  split at h
  · rename_i found hform
    obtain ⟨localName, _, hclassify⟩ := Option.map_eq_some_iff.1 hform
    cases h
    exact MemberName.isSpelled_of_plain hclassify
  · cases h

/-- On faithful records, an import's answer is what the recursion finds. -/
theorem answer_keeps (hspelled : ∀ member : MemberName, member.IsSpelled → References member)
    (hpaths : r.hierarchy.PathsWithin discoveryDepth) (i : Import) :
    Keeps (Faithful r hw config References) (i.answer name) fun result =>
      ∀ answer, result = .ok answer → IsImported r hw config References name i answer := by
  unfold Import.answer IsImported
  cases hmember : i.member? name with
  | none =>
    refine Keeps.pure fun answer hanswer => ?_
    cases hanswer
    rfl
  | some member =>
    refine (resolveMember_keeps (hspelled member (isSpelled_of_member? hmember))
      (hpaths.within i.scope) .any false).bind (fun value hvalue => ?_) fun err _ answer herr => ?_
    · refine Keeps.pure fun answer hanswer => ?_
      cases hanswer
      exact ⟨value, rfl, hvalue.resolve_right fun ⟨_, _, herr⟩ => by cases herr⟩
    · cases herr

/-- What two references with one lookup are resolved to is the same error, or the same value. -/
theorem alike_of_isAnswer {t : Ty} {key : LookupKey} {result result' : Except DispatchError (Option Value)}
    (h : IsAnswer r hw config References t key result)
    (h' : IsAnswer r hw config References t key result') :
    ResultsAlike Eq (Option.Rel Value.Same) result result' := by
  obtain ⟨member, _, _, rfl⟩ := h
  obtain ⟨member', _, _, rfl⟩ := h'
  cases r.lookUp key hw t with
  | error err => exact .error rfl
  | ok lookup => exact .ok (Lookup.value?_alike r.hierarchy config _ _ t t key.pin lookup)

theorem same_of_isAnswer {t : Ty} {key : LookupKey} {value value' : Option Value}
    (h : IsAnswer r hw config References t key (.ok value))
    (h' : IsAnswer r hw config References t key (.ok value')) : Option.Rel Value.Same value value' := by
  cases alike_of_isAnswer h h' with
  | ok hsame => exact hsame

theorem IsImported.unique {answer answer' : Option (Value × Ty)}
    (h : IsImported r hw config References name i answer)
    (h' : IsImported r hw config References name i answer') :
    Option.Rel SameFrom answer answer' := by
  unfold IsImported at h h'
  split at h
  · rename_i hmember
    rw [hmember] at h'
    obtain ⟨value, rfl, hvalue⟩ := h
    obtain ⟨value', rfl, hvalue'⟩ := h'
    cases same_of_isAnswer hvalue hvalue' with
    | none => exact .none
    | some hsame => exact .some ⟨hsame, rfl⟩
  · rename_i hmember
    rw [hmember] at h'
    rw [h, h']
    exact .none

/-- On faithful records, the values supplied are what the recursion finds for each import. -/
theorem supplied_keeps (hspelled : ∀ member : MemberName, member.IsSpelled → References member)
    (hpaths : r.hierarchy.PathsWithin discoveryDepth) (imports : List Import) :
    Keeps (Faithful r hw config References) (supplied name imports) fun result =>
      ∀ values, result = .ok values → ∃ answers, values = answers.reduceOption ∧
        List.Forall₂ (IsImported r hw config References name) imports answers := by
  unfold supplied
  exact (Gives.mapM fun i _ => answer_keeps hspelled hpaths i).bind fun answers hanswers =>
    Gives.pure ⟨answers, rfl, hanswers⟩

/-- **Imports in another order supply the same values.** -/
theorem sameValues_of_perm {imports imports' : List Import}
    {answers answers' : List (Option (Value × Ty))} (hperm : imports.Perm imports')
    (h : List.Forall₂ (IsImported r hw config References name) imports answers)
    (h' : List.Forall₂ (IsImported r hw config References name) imports' answers') :
    SameValues answers.reduceOption answers'.reduceOption := by
  obtain ⟨ordered, hordered, hperm'⟩ := List.perm_comp_forall₂ hperm h'
  have hsame : List.Forall₂ (Option.Rel SameFrom) answers ordered := by
    clear hperm hperm' h'
    induction h generalizing ordered with
    | nil =>
      cases hordered
      exact .nil
    | cons hfirst _ ih =>
      cases hordered with
      | cons hfirst' hrest => exact .cons (hfirst.unique hfirst') (ih _ hrest)
  exact ⟨ordered.reduceOption, List.rel_filterMap (fun _ _ h => h) hsame, hperm'.filterMap id⟩

end Engine

end Multimethod
