import Multimethod.Proofs.Engine.Inheritance

/-!
# Arities of malformed members

A lookup passes over a malformed member only where a candidate of the same arity is found, on the type that
declares the member or above it. Otherwise it fails, and so do the lookups of all types that go up there.

* `Registry.Consults` — the types whose members a lookup on a type takes in.
* `Registry.hasArity_of_consults` — a lookup that does not fail finds candidates of every arity on its way.
* `Registry.blames_of_lookUp` — a lookup that fails blames a member whose arity no candidate above it has.
-/

namespace Multimethod

namespace LookupKey

variable {key : LookupKey}

/-- Is the member one that the lookup passes over: it answers the lookup, its Rest marker and its variadic
flag disagree, and a pin is its arity? -/
def PassesOver (key : LookupKey) (m : Member) : Prop :=
  key.admits m ∧ m.isWellFormed = false ∧ key.pin.all (· = m.arity key.bindReceiver)

theorem mem_malformedArities {members : List Member} {arity : Nat} :
    arity ∈ key.malformedArities members ↔
      ∃ m ∈ members, key.PassesOver m ∧ m.arity key.bindReceiver = arity := by
  unfold malformedArities PassesOver
  simp only [List.mem_filter, List.mem_map, Bool.and_eq_true, Bool.not_eq_true']
  constructor
  · rintro ⟨⟨m, ⟨hm, hadmits, hmalformed⟩, rfl⟩, hpin⟩
    exact ⟨m, hm, ⟨hadmits, hmalformed, hpin⟩, rfl⟩
  · rintro ⟨m, hm, ⟨hadmits, hmalformed, hpin⟩, rfl⟩
    exact ⟨⟨m, ⟨hm, hadmits, hmalformed⟩, rfl⟩, hpin⟩

end LookupKey

theorem Candidate.exists_mem_firstOfEach {cs : List Candidate} {c : Candidate} (hc : c ∈ cs) :
    ∃ d ∈ firstOfEach cs, d.sameSignature c := by
  induction cs with
  | nil => cases hc
  | cons first rest ih =>
    by_cases hsame : first.sameSignature c
    · exact ⟨first, List.mem_cons_self, hsame⟩
    · obtain rfl | hc := List.mem_cons.1 hc
      · exact absurd (sameSignature_iff.2 ⟨rfl, rfl⟩) hsame
      obtain ⟨d, hd, hdc⟩ := ih hc
      refine ⟨d, List.mem_cons_of_mem first (List.mem_filter.2 ⟨hd, ?_⟩), hdc⟩
      -- otherwise the first candidate would have the signature of `c` too
      rw [Bool.not_eq_true']
      by_contra hfirst
      rw [Bool.not_eq_false, sameSignature_iff] at hfirst
      obtain ⟨hvariadic, hparams⟩ := sameSignature_iff.1 hdc
      exact hsame (sameSignature_iff.2 ⟨hfirst.1.trans hvariadic, hfirst.2.trans hparams⟩)

/-- Did the lookup find a candidate of the arity? -/
def Lookup.HasArity (lookup : Lookup) (arity : Nat) : Prop := ∃ c ∈ lookup.candidates, c.arity = arity

namespace Registry

variable {r : Registry} {key : LookupKey} {t s : Ty} {members : List Member} {inherited : List Lookup}
  {lookup : Lookup} {arity : Nat}

/-- Does a lookup on the first type take in the members of the second one? It does if a path of supertypes
leads there on which no type answers with a constant that it declares, the last one included. -/
inductive Consults (r : Registry) (key : LookupKey) : Ty → Ty → Prop
  | self {t : Ty} : key.constantAmong (r.membersOf t) = none → r.Consults key t t
  | above {t s u : Ty} : key.constantAmong (r.membersOf t) = none → r.hierarchy.Above s t →
    r.Consults key s u → r.Consults key t u

/-! ## One type -/

/-- The candidates of a type and of its supertypes leave their arities. -/
theorem hasArity_of_mem (h : r.combine key t members inherited = .ok lookup) {c : Candidate}
    (hc : c ∈ key.candidatesAmong t members.zipIdx ++ inherited.flatMap Lookup.candidates) :
    lookup.HasArity c.arity := by
  obtain ⟨d, hd, hsame⟩ := Candidate.exists_mem_firstOfEach hc
  rw [← (combine_cases h).1] at hd
  exact ⟨d, hd, congrArg List.length (Candidate.sameSignature_iff.1 hsame).2⟩

theorem hasArity_of_inherited (h : r.combine key t members inherited = .ok lookup) {l : Lookup}
    (hl : l ∈ inherited) (harity : l.HasArity arity) : lookup.HasArity arity := by
  obtain ⟨c, hc, rfl⟩ := harity
  exact hasArity_of_mem h (List.mem_append_right _ (List.mem_flatMap.2 ⟨l, hl, hc⟩))

/-- Where the lookup on a type does not fail, its malformed members leave no arity empty. -/
theorem hasArity_of_malformed (h : r.combine key t members inherited = .ok lookup)
    (harity : arity ∈ key.malformedArities members) : lookup.HasArity arity := by
  have hkept := (combine_cases h).1
  unfold combine at h
  dsimp only at h
  rw [← hkept] at h
  split at h
  · cases h
  · rename_i hserved
    have hserved := List.find?_eq_none.1 hserved arity harity
    simpa [Lookup.HasArity] using hserved

/-- Where the answers of the supertypes cannot be merged, a malformed member of the type has an arity that
none of its candidates has, and none of those it inherits. -/
theorem exists_of_combine_error {err : DispatchError}
    (h : r.combine key t members inherited = .error err) :
    ∃ arity ∈ key.malformedArities members,
      err = .inconsistentVariadic (r.hierarchy.typeName t) key.key arity ∧
      ∀ c ∈ key.candidatesAmong t members.zipIdx ++ inherited.flatMap Lookup.candidates, c.arity ≠ arity := by
  unfold combine at h
  dsimp only at h
  split at h
  · rename_i arity hfound
    cases h
    refine ⟨arity, List.mem_of_find?_eq_some hfound, rfl, fun c hc heq => ?_⟩
    obtain ⟨d, hd, hsame⟩ := Candidate.exists_mem_firstOfEach hc
    have hempty := List.find?_some hfound
    simp only [Bool.not_eq_true', List.any_eq_false, decide_eq_true_eq] at hempty
    exact hempty d hd ((congrArg List.length (Candidate.sameSignature_iff.1 hsame).2).trans heq)
  · split at h <;> cases h

/-! ## All types on the way up -/

/-- A lookup that goes up from a type merges what it finds on the supertypes. -/
theorem exists_inherited_of_lookUp (hw : WellFounded r.hierarchy.Above)
    (hnone : key.constantAmong (r.membersOf t) = none) (h : r.lookUp key hw t = .ok lookup) :
    ∃ inherited, List.Forall₂ (fun s l => r.lookUp key hw s = .ok l) (r.hierarchy.supertypes t) inherited ∧
      r.combine key t (r.membersOf t) inherited = .ok lookup := by
  obtain ⟨_, _, herr⟩ | ⟨_, hsome, _⟩ | ⟨_, _, _, _, herr⟩ | ⟨inherited, hinherited, hcombine⟩ :=
    lookUp_cases key hw t
  · rw [herr] at h
    cases h
  · rw [hnone] at hsome
    cases hsome
  · rw [herr] at h
    cases h
  · exact ⟨inherited, hinherited, hcombine ▸ h⟩

/-- **A lookup that does not fail finds candidates of every arity on its way:** of those of all candidates
and of all malformed members that the types it goes up to declare. -/
theorem hasArity_of_consults (hw : WellFounded r.hierarchy.Above) (hconsults : r.Consults key t s)
    (h : r.lookUp key hw t = .ok lookup) :
    (∀ c ∈ key.candidatesAmong s (r.membersOf s).zipIdx, lookup.HasArity c.arity) ∧
      ∀ arity ∈ key.malformedArities (r.membersOf s), lookup.HasArity arity := by
  induction hconsults generalizing lookup with
  | self hnone =>
    obtain ⟨inherited, -, hcombine⟩ := exists_inherited_of_lookUp hw hnone h
    exact ⟨fun c hc => hasArity_of_mem hcombine (List.mem_append_left _ hc),
      fun arity => hasArity_of_malformed hcombine⟩
  | above hnone hs _ ih =>
    obtain ⟨inherited, hinherited, hcombine⟩ := exists_inherited_of_lookUp hw hnone h
    obtain ⟨l, hl, hfound⟩ := DispatchM.Gives.exists_mem_of_forall₂ hinherited.flip _ hs
    obtain ⟨hcandidates, hmalformed⟩ := ih hfound
    exact ⟨fun c hc => hasArity_of_inherited hcombine hl (hcandidates c hc),
      fun arity harity => hasArity_of_inherited hcombine hl (hmalformed arity harity)⟩

/-- A malformed member of the type has the arity, and no candidate of the type or of those above it does. -/
structure Blames (r : Registry) (key : LookupKey) (arity : Nat) (s : Ty) : Prop where
  malformed : ∃ m ∈ r.membersOf s, key.PassesOver m ∧ m.arity key.bindReceiver = arity
  empty : ∀ u, r.Consults key s u → ∀ c ∈ key.candidatesAmong u (r.membersOf u).zipIdx, c.arity ≠ arity

theorem blames_of_combine_error (hw : WellFounded r.hierarchy.Above) {err : DispatchError}
    (hinherited : List.Forall₂ (fun s l => r.lookUp key hw s = .ok l) (r.hierarchy.supertypes t) inherited)
    (h : r.combine key t (r.membersOf t) inherited = .error err) :
    ∃ arity, r.Blames key arity t ∧ err = .inconsistentVariadic (r.hierarchy.typeName t) key.key arity := by
  obtain ⟨arity, harity, herr, hempty⟩ := exists_of_combine_error h
  refine ⟨arity, ⟨LookupKey.mem_malformedArities.1 harity, fun u hconsults c hc => ?_⟩, herr⟩
  cases hconsults with
  | self => exact hempty c (List.mem_append_left _ hc)
  | above _ hs hconsults =>
    -- the supertype on the way to `u` has found a candidate of that arity
    obtain ⟨l, hl, hfound⟩ := DispatchM.Gives.exists_mem_of_forall₂ hinherited.flip _ hs
    obtain ⟨d, hd, harity⟩ := (hasArity_of_consults hw hconsults hfound).1 c hc
    rw [← harity]
    exact hempty d (List.mem_append_right _ (List.mem_flatMap.2 ⟨l, hl, hd⟩))

/-- A type that declares a constant answers with it, if its members can be listed. -/
theorem constantAmong_eq_none_of_lookUp (hw : WellFounded r.hierarchy.Above) {err : DispatchError}
    (herr : ¬ err.IsListing) (h : r.lookUp key hw t = .error err) :
    key.constantAmong (r.membersOf t) = none := by
  rw [lookUp_eq, lookUpFrom] at h
  split at h
  · cases h
    exact absurd trivial herr
  · rename_i members hlist
    obtain rfl := membersOf_of_list hlist
    split at h
    · cases h
    · assumption

/-- **A lookup that fails blames a malformed member** of a type that it goes up to, the arity of which no
candidate has that this type declares or inherits. -/
theorem blames_of_lookUp (hw : WellFounded r.hierarchy.Above) {owner name : String}
    (h : r.lookUp key hw t = .error (.inconsistentVariadic owner name arity)) :
    ∃ s, r.Consults key t s ∧ r.Blames key arity s ∧ owner = r.hierarchy.typeName s ∧ name = key.key := by
  induction t using hw.induction with
  | _ t ih =>
    have hnone := constantAmong_eq_none_of_lookUp hw id h
    obtain ⟨_, _, hlookUp⟩ | ⟨_, hsome, _⟩ | ⟨s, hs, err, herr, hlookUp⟩ | ⟨inherited, hinherited, hlookUp⟩ :=
      lookUp_cases key hw t
    · cases h.symm.trans hlookUp
    · cases hnone.symm.trans hsome
    · cases h.symm.trans hlookUp
      obtain ⟨u, hconsults, hblames⟩ := ih s hs herr
      exact ⟨u, .above hnone hs hconsults, hblames⟩
    · obtain ⟨arity, hblames, heq⟩ := blames_of_combine_error hw hinherited (hlookUp.symm.trans h)
      cases heq
      exact ⟨t, .self hnone, hblames, rfl, rfl⟩

end Registry

end Multimethod
