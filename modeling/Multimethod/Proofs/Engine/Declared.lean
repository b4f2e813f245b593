import Multimethod.Proofs.Engine.Recursion

/-!
# What lookups find is declared

A lookup adds nothing of its own: a candidate that it finds is a well-formed member at its place
among those of its owner, and a constant is that of some member. So what declarations say of a
candidate's parameters can be told from the candidate.

* `Candidate.IsDeclared.owner_of_mem_rest` — Rest is a parameter only as the type of a receiver.
* `Candidate.IsDeclared.params_of_instance` — an explicit receiver is the first parameter.
* `Registry.combine_cases` — all that a lookup makes of a type's members and its supertypes' answers.
* `Registry.isDeclared_of_lookUp` — all that a lookup finds is declared.
-/

namespace Multimethod

/-- Is the candidate what a lookup makes of a well-formed member at its place? -/
def Candidate.IsDeclared (r : Registry) (key : LookupKey) (c : Candidate) : Prop :=
  ∃ m, r.member? c.owner c.index = some m ∧ m.isWellFormed ∧
    c = Candidate.ofDeclaration c.owner c.index key m.toDeclaration

/-- Does the registry declare all that a lookup found? -/
def Lookup.IsDeclared (r : Registry) (key : LookupKey) : Lookup → Prop
  | .found candidates => ∀ c ∈ candidates, c.IsDeclared r key
  | .constant value => ∃ t, ∃ m ∈ r.membersOf t, m.staticConstant? = some value
  | .notFound => True

/-! ## Parameters -/

namespace Declaration

/-- The fixed parameters of a well-formed declaration are no Rest markers. -/
theorem rest_not_mem_fixed {d : Declaration} (hd : d.isWellFormed) :
    .rest ∉ if d.isVariadic then d.params.dropLast else d.params := by
  simp only [isWellFormed, Bool.and_eq_true, decide_eq_true_eq] at hd
  obtain ⟨hends, hcount⟩ := hd
  cases hvariadic : d.isVariadic with
  | false =>
    rw [hvariadic] at hends
    rw [hends] at hcount
    exact List.count_eq_zero.1 (Nat.le_zero.1 hcount)
  | true =>
    rw [hvariadic] at hends
    rw [hends] at hcount
    have hlast : d.params.getLast? = some .rest := of_decide_eq_true hends
    -- the one marker there may be is the last parameter
    obtain ⟨front, hfront⟩ := List.getLast?_eq_some_iff.1 hlast
    rw [restMarkers, hfront, List.count_append] at hcount
    rw [if_pos rfl, hfront, List.dropLast_concat]
    exact List.count_eq_zero.1 (Nat.le_zero.1 (Nat.le_of_add_le_add_right hcount))

end Declaration

namespace Candidate

variable {r : Registry} {key : LookupKey} {c : Candidate}

theorem IsDeclared.owner_of_mem_rest (hc : c.IsDeclared r key) (hrest : .rest ∈ c.params) :
    c.owner = .rest := by
  obtain ⟨m, _, hwell, heq⟩ := hc
  have hfixed := Declaration.rest_not_mem_fixed hwell
  rw [heq] at hrest
  change Ty.rest ∈ if m.takesReceiver key.bindReceiver then c.owner :: _ else _ at hrest
  split at hrest
  · rcases List.mem_cons.1 hrest with howner | hmem
    · exact howner.symm
    · exact absurd hmem hfixed
  · exact absurd hrest hfixed

theorem IsDeclared.params_of_instance (hc : c.IsDeclared r key) (horigin : c.origin = .instance) :
    ∃ params, c.params = c.owner :: params := by
  obtain ⟨m, _, _, heq⟩ := hc
  rw [heq] at horigin
  change (if m.isStatic then Origin.static else if key.bindReceiver then .bound else .instance) = _
    at horigin
  have htakes : m.takesReceiver key.bindReceiver := by
    unfold Declaration.takesReceiver
    cases hstatic : m.isStatic <;> cases hbind : key.bindReceiver <;>
      first | rfl | (rw [hstatic, hbind] at horigin; cases horigin)
  exact ⟨_, (congrArg params heq).trans (if_pos htakes)⟩

theorem mem_firstOfEach {cs : List Candidate} (hc : c ∈ firstOfEach cs) :
    c ∈ cs := by
  induction cs with
  | nil => exact hc
  | cons d rest ih =>
    rcases List.mem_cons.1 hc with rfl | hc
    · exact List.mem_cons_self
    · exact List.mem_cons_of_mem d (ih (List.mem_of_mem_filter hc))

/-- Candidates of which only the first of each signature is left have distinct signatures. -/
theorem pairwise_firstOfEach (cs : List Candidate) :
    (firstOfEach cs).Pairwise fun c d => ¬ c.sameSignature d := by
  induction cs with
  | nil => exact List.Pairwise.nil
  | cons c rest ih =>
    refine List.pairwise_cons.2 ⟨fun d hd => ?_, ih.sublist List.filter_sublist⟩
    simpa using List.of_mem_filter hd

end Candidate

/-! ## Lookups -/

namespace Registry

variable {r : Registry} {key : LookupKey} {t : Ty}

theorem membersOf_of_list {members : List Member} (h : r.list t = .ok members) :
    members = r.membersOf t := by
  unfold list at h
  split at h
  · split at h
    · exact (Except.ok.inj h).symm
    · cases h
  · exact (Except.ok.inj h).symm

theorem exists_of_mem_membersOf {m : Member} (hm : m ∈ r.membersOf t) : ∃ p ∈ r.members, m ∈ p.2 := by
  unfold membersOf at hm
  split at hm
  · rename_i found
    exact ⟨_, List.mem_of_find?_eq_some found, hm⟩
  · cases hm

theorem staticConstant?_ne_some (hnone : ∀ p ∈ r.members, ∀ m ∈ p.2, m.staticConstant?.isNone)
    {m : Member} (hm : m ∈ r.membersOf t) (value : Value) : m.staticConstant? ≠ some value := by
  intro hconstant
  obtain ⟨p, hp, hm⟩ := exists_of_mem_membersOf hm
  have hisNone := hnone p hp m hm
  rw [hconstant] at hisNone
  cases hisNone

theorem isDeclared_of_mem_candidatesAmong {c : Candidate}
    (hc : c ∈ key.candidatesAmong t (r.membersOf t).zipIdx) : c.IsDeclared r key := by
  obtain ⟨⟨m, index⟩, hm, rfl⟩ := List.mem_map.1 (List.mem_of_mem_filter hc)
  obtain ⟨hplace, hadmitted⟩ := List.mem_filter.1 hm
  exact ⟨m, List.mem_zipIdx_iff_getElem?.1 hplace, (Bool.and_eq_true_iff.1 hadmitted).2, rfl⟩

/-- All that the combined lookup of a type can be: candidates of its own and of its supertypes, of each
signature the first; or if there are none, a constant that one of them has, or nothing. -/
theorem combine_cases {members : List Member} {inherited : List Lookup} {lookup : Lookup}
    (h : r.combine key t members inherited = .ok lookup) :
    lookup.candidates = Candidate.firstOfEach
        (key.candidatesAmong t members.zipIdx ++ inherited.flatMap Lookup.candidates) ∧
      ((∃ kept, lookup = .found kept ∧ kept ≠ []) ∨
        (∃ value, lookup = .constant value ∧ .constant value ∈ inherited) ∨ lookup = .notFound) := by
  unfold combine at h
  dsimp only at h
  split at h
  · cases h
  split at h
  · rename_i hempty
    cases h
    rw [List.isEmpty_iff.1 hempty]
    cases hconstant : inherited.findSome? Lookup.constant? with
    | none => exact ⟨rfl, .inr (.inr rfl)⟩
    | some value =>
      obtain ⟨l, hl, hvalue⟩ := List.exists_of_findSome?_eq_some hconstant
      cases l with
      | constant v =>
        cases hvalue
        exact ⟨rfl, .inr (.inl ⟨value, rfl, hl⟩)⟩
      | found candidates => cases hvalue
      | notFound => cases hvalue
  · rename_i hsome
    cases h
    exact ⟨rfl, .inl ⟨_, rfl, fun hnil => hsome (List.isEmpty_iff.2 hnil)⟩⟩

/-- A candidate of the combined lookup is the type's own or one of its supertypes'. -/
theorem own_or_inherited {members : List Member} {inherited : List Lookup} {kept : List Candidate}
    (h : r.combine key t members inherited = .ok (.found kept)) {c : Candidate} (hc : c ∈ kept) :
    c ∈ key.candidatesAmong t members.zipIdx ∨ ∃ cs, .found cs ∈ inherited ∧ c ∈ cs := by
  have hkept : kept = _ := (combine_cases h).1
  rw [hkept] at hc
  rcases List.mem_append.1 (Candidate.mem_firstOfEach hc) with hown | habove
  · exact .inl hown
  · obtain ⟨l, hl, hc⟩ := List.mem_flatMap.1 habove
    cases l with
    | found cs => exact .inr ⟨cs, hl, hc⟩
    | constant value => cases hc
    | notFound => cases hc

theorem isDeclared_of_combine {inherited : List Lookup} {lookup : Lookup}
    (hinherited : ∀ l ∈ inherited, l.IsDeclared r key)
    (h : r.combine key t (r.membersOf t) inherited = .ok lookup) : lookup.IsDeclared r key := by
  obtain ⟨kept, rfl, _⟩ | ⟨value, rfl, hvalue⟩ | rfl := (combine_cases h).2
  · intro c hc
    obtain hown | ⟨cs, hcs, hc⟩ := own_or_inherited h hc
    · exact isDeclared_of_mem_candidatesAmong hown
    · exact hinherited _ hcs c hc
  · exact hinherited _ hvalue
  · trivial

theorem exists_of_bind_ok {ε α β : Type} {x : Except ε α} {f : α → Except ε β} {b : β}
    (h : x >>= f = .ok b) : ∃ a, x = .ok a ∧ f a = .ok b := by
  cases x with
  | error err => cases h
  | ok a => exact ⟨a, rfl, h⟩

theorem forall_of_mapM_id {α ε : Type} {P : α → Prop} {results : List (Except ε α)} {values : List α}
    (hP : ∀ a, .ok a ∈ results → P a) (h : results.mapM id = .ok values) : ∀ a ∈ values, P a := by
  induction results generalizing values with
  | nil =>
    cases h
    simp
  | cons result rest ih =>
    rw [List.mapM_cons] at h
    obtain ⟨a, hresult, h⟩ := exists_of_bind_ok h
    obtain ⟨others, hrest, h⟩ := exists_of_bind_ok h
    cases h
    have ha : .ok a ∈ result :: rest := List.mem_cons.2 (.inl hresult.symm)
    refine List.forall_mem_cons.2 ⟨hP a ha, ih (fun b hb => ?_) hrest⟩
    exact hP b (List.mem_cons_of_mem _ hb)

/-- **All that a lookup finds is declared.** -/
theorem isDeclared_of_lookUp (hw : WellFounded r.hierarchy.Above) {lookup : Lookup}
    (h : r.lookUp key hw t = .ok lookup) : lookup.IsDeclared r key := by
  induction t using hw.induction generalizing lookup with
  | _ t ih =>
    rw [lookUp_eq, lookUpFrom] at h
    split at h
    · cases h
    rename_i members hlist
    obtain rfl := membersOf_of_list hlist
    split at h
    · rename_i value hconstant
      cases h
      obtain ⟨m, hm, hvalue⟩ := List.exists_of_findSome?_eq_some hconstant
      exact ⟨t, m, List.mem_of_mem_filter hm, hvalue⟩
    · obtain ⟨inherited, habove, h⟩ := exists_of_bind_ok h
      refine isDeclared_of_combine (forall_of_mapM_id (fun l hl => ?_) habove) h
      obtain ⟨s, hs, hl⟩ := List.mem_map.1 hl
      exact ih s hs hl

end Registry

end Multimethod
