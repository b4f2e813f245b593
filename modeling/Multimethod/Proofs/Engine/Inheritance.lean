import Multimethod.Proofs.Engine.Answers
import Multimethod.Proofs.Engine.ImportOrder

/-!
# Inherited answers

A type that declares nothing for a lookup answers with what its supertypes answer. Where all of these
answers go back to one type, they merge to the answer of that type, along however many paths it is
inherited: no candidate is lost, none is added and their order stays. So imports of such types agree.

* `Registry.combine_of_copies` — copies of one answer merge to this answer.
* `Registry.lookUp_of_heir` — a type answers what the one type above it that declares anything answers.
* `Registry.isOfLookup_of_lookUp` — the ways in which a lookup fails.
* `Engine.answerRule_isHandedOn` — candidates are inherited from what is kept on the supertypes.
* `Engine.searchImports_of_agreeing` — imports whose values are equal to one value give such a value.
-/

namespace Multimethod

/-- Is the error one that a lookup on a type fails with? -/
def DispatchError.IsOfLookup : DispatchError → Prop
  | .listing _ _ => True
  | .inconsistentVariadic _ _ _ => True
  | _ => False

/-! ## Copies of one answer -/

namespace Candidate

theorem firstOfEach_of_pairwise {cs : List Candidate} (hdistinct : cs.Pairwise fun c d => ¬ c.sameSignature d) :
    firstOfEach cs = cs := by
  induction cs with
  | nil => rfl
  | cons c rest ih =>
    obtain ⟨hc, hrest⟩ := List.pairwise_cons.1 hdistinct
    rw [firstOfEach, ih hrest]
    exact congrArg (c :: ·) (List.filter_eq_self.2 fun d hd => by simpa using hc d hd)

theorem firstOfEach_append_of_subset {cs ds : List Candidate}
    (hdistinct : cs.Pairwise fun c d => ¬ c.sameSignature d) (hsubset : ∀ d ∈ ds, d ∈ cs) :
    firstOfEach (cs ++ ds) = cs := by
  rw [← foldl_addTo_nil, List.foldl_append, foldl_addTo_nil, firstOfEach_of_pairwise hdistinct, foldl_addTo,
    List.filter_eq_nil_iff.2, List.append_nil]
  intro d hd
  have hany : cs.any (·.sameSignature d) :=
    List.any_eq_true.2 ⟨d, hsubset d (mem_firstOfEach hd), sameSignature_iff.2 ⟨rfl, rfl⟩⟩
  rw [hany]
  exact Bool.false_ne_true

end Candidate

namespace Lookup

/-- Are the candidates found of distinct signatures, and are there some? -/
def IsReduced : Lookup → Prop
  | .found cs => cs ≠ [] ∧ cs.Pairwise fun c d => ¬ c.sameSignature d
  | _ => True

theorem firstOfEach_of_copies {cs : List Candidate} (hdistinct : cs.Pairwise fun c d => ¬ c.sameSignature d)
    {inherited : List Lookup} (hcopies : ∀ l ∈ inherited, l = .found cs ∨ l = .notFound)
    (hmem : .found cs ∈ inherited) : Candidate.firstOfEach (inherited.flatMap candidates) = cs := by
  induction inherited with
  | nil => cases hmem
  | cons l rest ih =>
    obtain ⟨hl, hrest⟩ := List.forall_mem_cons.1 hcopies
    rw [List.flatMap_cons]
    rcases hl with rfl | rfl
    · refine Candidate.firstOfEach_append_of_subset hdistinct fun d hd => ?_
      obtain ⟨l, hl, hd⟩ := List.mem_flatMap.1 hd
      rcases hrest l hl with rfl | rfl
      · exact hd
      · cases hd
    · exact ih hrest ((List.mem_cons.1 hmem).resolve_left nofun)

theorem constant_of_copies {value : Value} {inherited : List Lookup}
    (hcopies : ∀ l ∈ inherited, l = .constant value ∨ l = .notFound) (hmem : .constant value ∈ inherited) :
    inherited.findSome? constant? = some value := by
  induction inherited with
  | nil => cases hmem
  | cons l rest ih =>
    obtain ⟨hl, hrest⟩ := List.forall_mem_cons.1 hcopies
    rw [List.findSome?_cons]
    rcases hl with rfl | rfl
    · rfl
    · exact ih hrest ((List.mem_cons.1 hmem).resolve_left nofun)

end Lookup

/-! ## Heirs of one type -/

namespace Registry

variable {r : Registry} {key : LookupKey} {t : Ty} {lookup : Lookup} {inherited : List Lookup}

/-- Does the type declare nothing for the lookup: no constant, no candidate and no malformed member? -/
def DeclaresNothing (r : Registry) (key : LookupKey) (t : Ty) : Prop :=
  key.constantAmong (r.membersOf t) = none ∧ key.candidatesAmong t (r.membersOf t).zipIdx = [] ∧
    key.malformedArities (r.membersOf t) = []

theorem declaresNothing_of_membersOf (h : r.membersOf t = []) : r.DeclaresNothing key t := by
  unfold DeclaresNothing
  rw [h]
  exact ⟨rfl, rfl, rfl⟩

/-- Can the members of the type and of all types above it be listed? -/
def IsListed (r : Registry) (t : Ty) : Prop := ∀ u, r.hierarchy.Leads t u → (r.list u).isOk

theorem isReduced_of_combine {members : List Member} (h : r.combine key t members inherited = .ok lookup) :
    lookup.IsReduced := by
  obtain ⟨hcandidates, ⟨kept, rfl, hne⟩ | ⟨value, rfl, _⟩ | rfl⟩ := combine_cases h
  · refine ⟨hne, ?_⟩
    rw [show kept = _ from hcandidates]
    exact Candidate.pairwise_firstOfEach _
  · trivial
  · trivial

theorem isReduced_of_lookUp (hw : WellFounded r.hierarchy.Above) (h : r.lookUp key hw t = .ok lookup) :
    lookup.IsReduced := by
  rw [lookUp_eq, lookUpFrom] at h
  split at h
  · cases h
  split at h
  · cases h
    trivial
  · obtain ⟨inherited, _, h⟩ := exists_of_bind_ok h
    exact isReduced_of_combine h

/-- **Copies of one answer merge to this answer** on a type that declares nothing of its own. -/
theorem combine_of_copies (hnothing : r.DeclaresNothing key t) (hreduced : lookup.IsReduced)
    (hcopies : ∀ l ∈ inherited, l = lookup ∨ l = .notFound) (hmem : lookup ∈ inherited ∨ lookup = .notFound) :
    r.combine key t (r.membersOf t) inherited = .ok lookup := by
  obtain ⟨-, hcandidates, hmalformed⟩ := hnothing
  unfold combine
  rw [hcandidates, hmalformed, List.nil_append]
  dsimp only [List.find?_nil]
  cases lookup with
  | found cs =>
    rw [Lookup.firstOfEach_of_copies hreduced.2 hcopies (hmem.resolve_right nofun),
      if_neg fun hempty => hreduced.1 (List.isEmpty_iff.1 hempty)]
  | constant value =>
    have hnone : inherited.flatMap Lookup.candidates = [] := List.flatMap_eq_nil_iff.2 fun l hl => by
      rcases hcopies l hl with rfl | rfl <;> rfl
    rw [hnone, Lookup.constant_of_copies hcopies (hmem.resolve_right nofun)]
    rfl
  | notFound =>
    have hnotFound : ∀ l ∈ inherited, l = .notFound := fun l hl => (hcopies l hl).elim id id
    have hnone : inherited.flatMap Lookup.candidates = [] := List.flatMap_eq_nil_iff.2 fun l hl => by
      rw [hnotFound l hl]
      rfl
    have hconstant : inherited.findSome? Lookup.constant? = none := List.findSome?_eq_none_iff.2 fun l hl => by
      rw [hnotFound l hl]
      rfl
    rw [hnone, hconstant]
    rfl

/-- Results one after another are the values of each, or the error of one of them. -/
theorem mapM_id_cases {α β ε : Type} (f : α → Except ε β) (xs : List α) :
    (∃ bs, (xs.map f).mapM id = .ok bs ∧ List.Forall₂ (fun x b => f x = .ok b) xs bs) ∨
      ∃ x ∈ xs, ∃ err, f x = .error err ∧ (xs.map f).mapM id = .error err := by
  induction xs with
  | nil => exact .inl ⟨[], rfl, .nil⟩
  | cons x rest ih =>
    rw [List.map_cons, List.mapM_cons]
    cases hx : f x with
    | error err => exact .inr ⟨x, List.mem_cons_self, err, hx, rfl⟩
    | ok b =>
      obtain ⟨bs, hrest, hbs⟩ | ⟨y, hy, err, herr, hrest⟩ := ih
      · exact .inl ⟨b :: bs, by rw [hrest]; rfl, .cons hx hbs⟩
      · exact .inr ⟨y, List.mem_cons_of_mem x hy, err, herr, by rw [hrest]; rfl⟩

/-- All that a lookup on a type can be: the members cannot be listed, or they declare a constant, or the
lookup fails on a supertype, or what the supertypes answer is merged. -/
theorem lookUp_cases (key : LookupKey) (hw : WellFounded r.hierarchy.Above) (t : Ty) :
    (∃ failure, r.list t = .error failure ∧
      r.lookUp key hw t = .error (.listing (r.hierarchy.typeName t) failure)) ∨
    (∃ value, key.constantAmong (r.membersOf t) = some value ∧ r.lookUp key hw t = .ok (.constant value)) ∨
    (∃ s, r.hierarchy.Above s t ∧ ∃ err, r.lookUp key hw s = .error err ∧ r.lookUp key hw t = .error err) ∨
    ∃ inherited, List.Forall₂ (fun s l => r.lookUp key hw s = .ok l) (r.hierarchy.supertypes t) inherited ∧
      r.lookUp key hw t = r.combine key t (r.membersOf t) inherited := by
  rw [lookUp_eq, lookUpFrom]
  cases hlist : r.list t with
  | error failure => exact .inl ⟨failure, rfl, rfl⟩
  | ok members =>
    obtain rfl := membersOf_of_list hlist
    dsimp only
    cases key.constantAmong (r.membersOf t) with
    | some value => exact .inr (.inl ⟨value, rfl, rfl⟩)
    | none =>
      obtain ⟨inherited, habove, hinherited⟩ | ⟨s, hs, err, herr, habove⟩ :=
        mapM_id_cases (r.lookUp key hw) (r.hierarchy.supertypes t)
      · exact .inr (.inr (.inr ⟨inherited, hinherited, by rw [habove]; rfl⟩))
      · exact .inr (.inr (.inl ⟨s, hs, err, herr, by rw [habove]; rfl⟩))

/-- The answer of a type is that of `base` if the type inherits from `base`, and nothing otherwise. -/
def IsInherited (r : Registry) (base : Ty) (lookup : Lookup) (t : Ty) (answer : Lookup) : Prop :=
  (r.hierarchy.Leads t base → answer = lookup) ∧ (¬ r.hierarchy.Leads t base → answer = .notFound)

/-- Supertypes that inherit from `base` alone make a type that declares nothing do so. -/
theorem exists_isInherited {base : Ty} (ht : t ≠ base) (hnothing : r.DeclaresNothing key t)
    (hreduced : lookup.IsReduced)
    (hinherited : List.Forall₂ (r.IsInherited base lookup) (r.hierarchy.supertypes t) inherited) :
    ∃ answer, r.combine key t (r.membersOf t) inherited = .ok answer ∧ r.IsInherited base lookup t answer := by
  by_cases hleads : r.hierarchy.Leads t base
  · refine ⟨lookup, ?_, fun _ => rfl, fun hnot => absurd hleads hnot⟩
    refine combine_of_copies hnothing hreduced (fun l hl => ?_) (.inl ?_)
    · obtain ⟨s, _, hl⟩ := DispatchM.Gives.exists_mem_of_forall₂ hinherited l hl
      by_cases hbelow : r.hierarchy.Leads s base
      · exact .inl (hl.1 hbelow)
      · exact .inr (hl.2 hbelow)
    · -- one of the supertypes is on the way to the base
      obtain heq | ⟨s, hs, hbelow⟩ := hleads.cases_head
      · exact absurd heq ht
      obtain ⟨l, hmem, hl⟩ := DispatchM.Gives.exists_mem_of_forall₂ hinherited.flip s hs
      exact hl.1 hbelow ▸ hmem
  · refine ⟨.notFound, ?_, fun h => absurd h hleads, fun _ => rfl⟩
    refine combine_of_copies hnothing trivial (fun l hl => ?_) (.inr rfl)
    obtain ⟨s, hs, hl⟩ := DispatchM.Gives.exists_mem_of_forall₂ hinherited l hl
    exact .inr (hl.2 fun hbelow => hleads (.head hs hbelow))

/-- Where a type and all above it but `base` declare nothing, the type answers what `base` answers if it
inherits from it, and nothing otherwise; or some type could not be listed. -/
theorem lookUp_of_only_base (hw : WellFounded r.hierarchy.Above) {base : Ty}
    (hbase : r.lookUp key hw base = .ok lookup)
    (honly : ∀ u, r.hierarchy.Leads t u → u ≠ base → r.DeclaresNothing key u) :
    (∃ answer, r.lookUp key hw t = .ok answer ∧ r.IsInherited base lookup t answer) ∨
    ∃ err, DispatchError.IsListing err ∧ r.lookUp key hw t = .error err ∧ ¬ r.IsListed t := by
  induction t using hw.induction with
  | _ t ih =>
    by_cases ht : t = base
    · subst ht
      exact .inl ⟨lookup, hbase, fun _ => rfl, fun hnot => absurd .refl hnot⟩
    have hnothing := honly t .refl ht
    have habove : ∀ s, r.hierarchy.Above s t → _ := fun s hs =>
      ih s hs fun u hu => honly u (.head hs hu)
    obtain ⟨failure, hlist, herr⟩ | ⟨value, hvalue, _⟩ | ⟨s, hs, err, hsupertype, herr⟩ |
      ⟨inherited, hinherited, hcombine⟩ := lookUp_cases key hw t
    · refine .inr ⟨.listing _ failure, trivial, herr, fun hlisted => ?_⟩
      have hok := hlisted t .refl
      rw [hlist] at hok
      cases hok
    · rw [hnothing.1] at hvalue
      cases hvalue
    · obtain ⟨_, hanswer, _⟩ | ⟨err', hlisting, herr', hunlisted⟩ := habove s hs
      · rw [hsupertype] at hanswer
        cases hanswer
      · rw [hsupertype] at herr'
        cases herr'
        exact .inr ⟨err, hlisting, herr, fun hlisted => hunlisted fun u hu => hlisted u (.head hs hu)⟩
    · rw [hcombine]
      refine .inl (exists_isInherited ht hnothing (isReduced_of_lookUp hw hbase) ?_)
      refine List.forall₂_iff_get.2 ⟨hinherited.length_eq, fun n hn hn' => ?_⟩
      have hl := (List.forall₂_iff_get.1 hinherited).2 n hn hn'
      obtain ⟨answer, hanswer, hisInherited⟩ | ⟨err, _, herr, _⟩ := habove _ (List.get_mem _ _)
      · rw [hl] at hanswer
        cases hanswer
        exact hisInherited
      · rw [hl] at herr
        cases herr

/-- **A type answers what the one type above it that declares anything answers,** unless some type above
it could not be listed. -/
theorem lookUp_of_heir (hw : WellFounded r.hierarchy.Above) {base : Ty}
    (hbase : r.lookUp key hw base = .ok lookup) (hleads : r.hierarchy.Leads t base)
    (honly : ∀ u, r.hierarchy.Leads t u → u ≠ base → r.DeclaresNothing key u) :
    r.lookUp key hw t = .ok lookup ∨
      ∃ err, DispatchError.IsListing err ∧ r.lookUp key hw t = .error err ∧ ¬ r.IsListed t := by
  refine (lookUp_of_only_base hw hbase honly).imp_left ?_
  rintro ⟨answer, hanswer, hinherits, _⟩
  rw [hanswer, hinherits hleads]

/-- **The ways in which a lookup fails:** the members of a type cannot be listed, or a malformed member has
an arity that no candidate has. -/
theorem isOfLookup_of_lookUp (hw : WellFounded r.hierarchy.Above) {err : DispatchError}
    (h : r.lookUp key hw t = .error err) : err.IsOfLookup := by
  induction t using hw.induction with
  | _ t ih =>
    obtain ⟨_, _, hlookUp⟩ | ⟨_, _, hlookUp⟩ | ⟨s, hs, err', herr, hlookUp⟩ | ⟨inherited, _, hlookUp⟩ :=
      lookUp_cases key hw t
    · rw [hlookUp] at h
      cases h
      trivial
    · rw [hlookUp] at h
      cases h
    · rw [hlookUp] at h
      cases h
      exact ih s hs herr
    · rw [hlookUp, combine] at h
      split at h
      · cases h
        trivial
      · split at h <;> cases h

end Registry

/-! ## Candidates that are handed on -/

namespace Engine

open DispatchM

variable {e later : Engine} {t : Ty} {key : LookupKey} {c : Candidate}

/-- Is the candidate among those that are kept for the lookup on the type? -/
def KeepsCandidate (e : Engine) (t : Ty) (key : LookupKey) (c : Candidate) : Prop :=
  ∃ cs, e.lookedUp? t key = some (.found cs) ∧ c ∈ cs

theorem KeepsCandidate.of_growsInto (hgrows : e.GrowsInto later) (h : e.KeepsCandidate t key c) :
    later.KeepsCandidate t key c := by
  obtain ⟨cs, hcs, hc⟩ := h
  exact ⟨cs, hgrows.lookedUp? hcs, hc⟩

/-- Is every candidate of the answer declared by the type, or else kept on one of its supertypes, and on the
type that declares it? -/
def IsHandedOn (r : Registry) (e : Engine) (t : Ty) (key : LookupKey) (lookup : Lookup) : Prop :=
  ∀ c ∈ lookup.candidates, c ∈ key.candidatesAmong t (r.membersOf t).zipIdx ∨
    (∃ s, r.hierarchy.Above s t ∧ e.KeepsCandidate s key c) ∧ e.KeepsCandidate c.owner key c

theorem owner_of_mem_candidatesAmong {placed : List (Member × Nat)} (hc : c ∈ key.candidatesAmong t placed) :
    c.owner = t := by
  obtain ⟨_, _, rfl⟩ := List.mem_map.1 (List.mem_of_mem_filter hc)
  rfl

/-- Where the answers obey the rule, a candidate that is kept anywhere is kept on the type that declares it. -/
theorem Obeys.keepsCandidate_owner {r : Registry} {config : EngineConfig}
    (he : e.Obeys r config (IsHandedOn r)) (h : e.KeepsCandidate t key c) : e.KeepsCandidate c.owner key c := by
  obtain ⟨cs, hcs, hc⟩ := h
  obtain hown | ⟨-, hkept⟩ := he.answers hcs c hc
  · rw [owner_of_mem_candidatesAmong hown]
    exact ⟨cs, hcs, hc⟩
  · exact hkept

/-- **Candidates are handed on,** wherever a discovery is cut off. -/
theorem answerRule_isHandedOn (r : Registry) (config : EngineConfig) :
    AnswerRule r config (fun _ _ => True) (IsHandedOn r) where
  above _ _ := trivial
  grows hgrows hrule c hc := by
    obtain hown | ⟨⟨s, hs, hkept⟩, howner⟩ := hrule c hc
    · exact .inl hown
    · exact .inr ⟨⟨s, hs, hkept.of_growsInto hgrows⟩, howner.of_growsInto hgrows⟩
  found {_ t _ _ _ _ lookup} _ hrec hlast hran c hc := by
    obtain ⟨value, -, rfl⟩ | ⟨inherited, hcombine, habove⟩ := answerOf_cases hrec hlast.toWellFormed hran
    · cases hc
    cases lookup with
    | constant value => cases hc
    | notFound => cases hc
    | found kept =>
      obtain hown | ⟨cs, hcs, hc⟩ := Registry.own_or_inherited hcombine hc
      · exact .inl hown
      obtain ⟨-, rfl⟩ | habove := habove
      · cases hcs
      · obtain ⟨s, hs, hfound⟩ := Gives.exists_mem_of_forall₂ habove _ hcs
        exact .inr ⟨⟨s, hs, cs, hfound, hc⟩, hlast.keepsCandidate_owner ⟨cs, hfound, hc⟩⟩

end Engine

/-! ## Imports that agree -/

namespace DispatchM

variable {α : Type} {P : Engine → Prop} {m : DispatchM α} {Q Q' : Except DispatchError α → Prop}

/-- From some engine with `P`, the resolution ends with the result. -/
def MayEnd (P : Engine → Prop) (m : DispatchM α) (result : Except DispatchError α) : Prop :=
  ∃ e, P e ∧ (m.runFrom e).1 = result

theorem Keeps.mayEnd (hm : Keeps P m fun _ => True) : Keeps P m (MayEnd P m) :=
  fun e he => ⟨⟨e, he, rfl⟩, (hm e he).2⟩

theorem Keeps.imp (hm : Keeps P m Q) (himp : ∀ result, Q result → Q' result) : Keeps P m Q' :=
  fun e he => (hm e he).imp_left (himp _)

end DispatchM

namespace Engine

open DispatchM

variable {P : Engine → Prop} {name : String} {v : Value}

/-- What a search may end with among imports whose values are equal to one value: a value equal to it, or
nothing if no import has a value, or the error of an import. -/
def IsAgreed (P : Engine → Prop) (name : String) (v : Value) (imports : List Import)
    (found : Option (Value × Ty)) : Except DispatchError (Option (Value × Ty)) → Prop
  | .ok (some p) => p.1.equal v
  | .ok none => found = none ∧ ∀ i ∈ imports, MayEnd P (i.answer name) (.ok none)
  | .error err => ∃ i ∈ imports, MayEnd P (i.answer name) (.error err)

theorem IsAgreed.cons {imports : List Import} {found found' : Option (Value × Ty)}
    {result : Except DispatchError (Option (Value × Ty))} (i : Import)
    (h : IsAgreed P name v imports found' result)
    (hnone : found' = none → found = none ∧ MayEnd P (i.answer name) (.ok none)) :
    IsAgreed P name v (i :: imports) found result := by
  match result with
  | .ok (some p) => exact h
  | .ok none =>
    obtain ⟨hfound, hi⟩ := hnone h.1
    exact ⟨hfound, List.forall_mem_cons.2 ⟨hi, h.2⟩⟩
  | .error err =>
    obtain ⟨j, hj, herr⟩ := h
    exact ⟨j, List.mem_cons_of_mem i hj, herr⟩

/-- **Imports whose values are equal to one value agree:** a search among them is never ambiguous. -/
theorem searchImports_of_agreeing {imports : List Import}
    (hkeeps : ∀ i ∈ imports, Keeps P (i.answer name) fun _ => True)
    (hequal : ∀ i ∈ imports, ∀ p, MayEnd P (i.answer name) (.ok (some p)) → p.1.equal v)
    (found : Option (Value × Ty)) (hfound : ∀ p ∈ found, p.1.equal v) :
    Keeps P (searchImports name imports found) (IsAgreed P name v imports found) := by
  induction imports generalizing found with
  | nil =>
    refine Keeps.pure ?_
    cases found with
    | none => exact ⟨rfl, by simp⟩
    | some p => exact hfound p rfl
  | cons i rest ih =>
    obtain ⟨hi, hrest⟩ := List.forall_mem_cons.1 hkeeps
    obtain ⟨hequali, hequalrest⟩ := List.forall_mem_cons.1 hequal
    have ih := ih hrest hequalrest
    rw [searchImports_cons]
    refine hi.mayEnd.bind (fun answer hanswer => ?_) fun err herr => ⟨i, List.mem_cons_self, herr⟩
    cases answer with
    | none => exact (ih found hfound).imp fun _ h => h.cons i fun hnone => ⟨hnone, hanswer⟩
    | some later =>
      have hlater := hequali later hanswer
      cases found with
      | none =>
        exact (ih (some later) fun p hp => by cases hp; exact hlater).imp fun _ h => h.cons i nofun
      | some first =>
        -- both are equal to the one value, and so to each other
        have hsame : first.1.equal later.1 = true :=
          Value.equal_trans _ v _ (hfound first rfl) (Value.equal_comm later.1 v ▸ hlater)
        simp only [hsame, Bool.true_eq_false, and_false, if_false]
        exact (ih (some first) hfound).imp fun _ h => h.cons i nofun

end Engine

end Multimethod
