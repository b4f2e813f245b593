import Multimethod.Proofs.Engine.ArityClass
import Multimethod.Proofs.Library.Operators

/-!
# Arithmetic in the root scope

The name of a procedure of arithmetic is sought in the root scope among instance members first, where the
library has none of the name, and then among static ones. There each way of calling the procedure has a
candidate for each width, narrowest first.

* `Registry.HasLibrary` — the library is the root scope, which stands right below Any.
* `Registry.hasLibrary_withLibrary` — so it is where nothing else is in the registry.
* `Operator.candidates` — the candidates of a procedure.
* `HasLibrary.lookUp_instance`, `HasLibrary.lookUp_static` — what the two lookups find.
-/

namespace Multimethod

open Library

/-- The library is the root scope of this name: a host type with the members of the library, right below Any. No
path of supertypes has more than 64 steps, and Any adds nothing to arithmetic. -/
structure Registry.HasLibrary (r : Registry) (scopeName : String) (id : Nat) : Prop where
  paths : r.hierarchy.PathsWithin 64
  found : r.hierarchy.find? scopeName = some id
  supertypes : r.hierarchy.supertypes (.host id) = [.any]
  members : r.membersOf (.host id) = Library.members
  above : ∀ m ∈ r.membersOf .any, ∀ op : Operator, m.key ≠ Name.mangle op.name

/-- The library may be all that there is in a registry, under any name. -/
theorem Registry.hasLibrary_withLibrary (scopeName : String) :
    (withLibrary {} scopeName).HasLibrary scopeName 0 where
  paths := by
    have hprecedes : ∀ p ∈ [((⟨scopeName, []⟩ : HostType), 0)], ∀ s ∈ p.1.supertypes,
        Hierarchy.precedes p.2 s := by
      intro p hp s hs
      obtain rfl := List.mem_singleton.1 hp
      cases hs
    exact (Hierarchy.pathsWithin_of_precedes (h := ⟨[⟨scopeName, []⟩]⟩) hprecedes).mono (Nat.le_of_ble_eq_true rfl)
  found := by
    show List.findIdx? (fun t : HostType => t.name = scopeName) [⟨scopeName, []⟩] = some 0
    simp
  supertypes := rfl
  members := rfl
  above _ hm := by cases hm

/-! ## Candidates -/

/-- The candidate as another type declares it. -/
def Candidate.ownedBy (t : Ty) (c : Candidate) : Candidate := { c with owner := t }

/-- Of static members, lookups on different types make candidates that differ in their owner alone. -/
theorem LookupKey.candidatesAmong_eq_map {key : LookupKey} (horigin : key.origin = .static) (t u : Ty)
    (placed : List (Member × Nat)) :
    key.candidatesAmong t placed = (key.candidatesAmong u placed).map (Candidate.ownedBy t) := by
  have howner (p : Member × Nat) (hadmits : key.admits p.1) :
      Candidate.ofDeclaration t p.2 key p.1.toDeclaration =
        (Candidate.ofDeclaration u p.2 key p.1.toDeclaration).ownedBy t := by
    have hstatic : p.1.isStatic := by
      simp only [admits, horigin, OriginFilter.admits, Bool.and_eq_true] at hadmits
      exact hadmits.1.2
    simp [Candidate.ofDeclaration, Candidate.ownedBy, Declaration.takesReceiver, hstatic]
  unfold candidatesAmong
  rw [List.map_congr_left (g := Candidate.ownedBy t ∘ fun p => .ofDeclaration u p.2 key p.1.toDeclaration)
    fun p hp => howner p (Bool.and_eq_true_iff.1 (List.mem_filter.1 hp).2).1, ← List.map_map, List.filter_map]
  rfl

namespace Library.Operator

/-- The reference that the name of the procedure is taken for. -/
def reference (op : Operator) : MemberName :=
  { surface := op.name, key := Name.mangle op.name, kind := .method, pin := none }

theorem classify_name (op : Operator) : Name.classify op.name = .plain op.reference := by
  cases op <;> decide +kernel

/-- The candidate for a width, as the root scope has it. -/
def candidate (op : Operator) (scope : Ty) (f : Form) (w : Width) : Candidate :=
  .ofDeclaration scope (f.place + w.place) (op.reference.lookup .static false) (f.member w).toDeclaration

/-- The candidates of the procedure: for each way of calling it one for each width, narrowest first. -/
def candidates (op : Operator) (scope : Ty) : List Candidate :=
  op.forms.flatMap fun f => Width.all.map (op.candidate scope f)

theorem members_named (op : Operator) : ∀ m ∈ members, m.key = Name.mangle op.name →
    m.isStatic ∧ m.isWellFormed ∧ m.staticConstant?.isNone := by
  cases op <;> decide +kernel

/-- The members of the library that have the name make the candidates, on whatever type they are found. -/
theorem candidatesAmong_members (op : Operator) (scope : Ty) :
    (op.reference.lookup .static false).candidatesAmong scope members.zipIdx = op.candidates scope := by
  have hany : (op.reference.lookup .static false).candidatesAmong .any members.zipIdx = op.candidates .any := by
    cases op <;> decide +kernel
  rw [LookupKey.candidatesAmong_eq_map rfl scope .any, hany]
  cases op <;> rfl

theorem firstOfEach_candidates (op : Operator) (scope : Ty) :
    Candidate.firstOfEach (op.candidates scope) = op.candidates scope := by
  cases op <;> rfl

end Library.Operator

/-! ## Lookups -/

namespace Registry

variable {r : Registry} {key : LookupKey} {t : Ty} {members : List Member} {op : Operator}

/-- Where no malformed member answers the lookup, none is passed over. -/
theorem malformedArities_eq_nil (hwell : ∀ m ∈ members, key.admits m → m.isWellFormed) :
    key.malformedArities members = [] := by
  refine List.eq_nil_iff_forall_not_mem.2 fun arity harity => ?_
  obtain ⟨m, hm, ⟨hadmits, hmalformed, _⟩, _⟩ := LookupKey.mem_malformedArities.1 harity
  rw [hwell m hm hadmits] at hmalformed
  cases hmalformed

theorem declaresNothing_of_not_admits (hadmits : ∀ m ∈ r.membersOf t, ¬ key.admits m) :
    r.DeclaresNothing key t := by
  refine ⟨?_, ?_, malformedArities_eq_nil fun m hm h => absurd h (hadmits m hm)⟩
  · unfold LookupKey.constantAmong
    rw [List.filter_eq_nil_iff.2 hadmits, List.findSome?_nil]
  · refine List.eq_nil_iff_forall_not_mem.2 fun c hc => ?_
    obtain ⟨⟨m, index⟩, hplaced, rfl⟩ := List.mem_map.1 (List.mem_of_mem_filter hc)
    obtain ⟨hplace, hadmitted⟩ := List.mem_filter.1 hplaced
    have hm := List.mem_of_getElem? (List.mem_zipIdx_iff_getElem?.1 hplace)
    exact hadmits m hm (Bool.and_eq_true_iff.1 hadmitted).1

namespace HasLibrary

variable {scopeName : String} {id : Nat} (h : r.HasLibrary scopeName id)

include h

theorem list : r.list (.host id) = .ok Library.members := by
  have hcontains : r.hierarchy.contains id = true := by
    obtain ⟨hlt, _⟩ := List.findIdx?_eq_some_iff_getElem.1 h.found
    exact decide_eq_true hlt
  rw [Registry.list, if_pos hcontains, h.members]

/-- Nothing of the name is found on Any. -/
theorem lookUp_any (hkey : key.key = Name.mangle op.name) :
    r.lookUp key h.paths.wellFounded .any = .ok .notFound := by
  have hnothing : r.DeclaresNothing key .any := declaresNothing_of_not_admits fun m hm hadmits =>
    h.above m hm op ((OwnMembers.key_of_admits hadmits).trans hkey)
  have hlist : r.list .any = .ok (r.membersOf .any) := rfl
  rw [lookUp_eq, lookUpFrom, hlist]
  dsimp only
  rw [hnothing.1]
  exact combine_of_copies hnothing trivial (fun _ h => by cases h) (.inr rfl)

/-- What is found in the root scope rests on the members of the library alone. -/
theorem lookUp_scope (hkey : key.key = Name.mangle op.name) :
    r.lookUp key h.paths.wellFounded (.host id) = r.combine key (.host id) Library.members [.notFound] := by
  have hconstant : key.constantAmong Library.members = none := by
    refine List.findSome?_eq_none_iff.2 fun m hm => ?_
    obtain ⟨hm, hadmits⟩ := List.mem_filter.1 hm
    exact Option.isNone_iff_eq_none.1
      (op.members_named m hm ((OwnMembers.key_of_admits hadmits).trans hkey)).2.2
  rw [lookUp_eq, lookUpFrom, h.list, h.supertypes, List.map_singleton, h.lookUp_any hkey]
  dsimp only
  rw [hconstant]
  rfl

theorem lookUp_instance (op : Operator) :
    r.lookUp (op.reference.lookup .instance true) h.paths.wellFounded (.host id) = .ok .notFound := by
  rw [h.lookUp_scope rfl, ← h.members]
  refine combine_of_copies (declaresNothing_of_not_admits fun m hm hadmits => ?_) trivial
    (fun l hl => .inl (List.mem_singleton.1 hl)) (.inr rfl)
  rw [h.members] at hm
  have hstatic := (op.members_named m hm (OwnMembers.key_of_admits hadmits)).1
  simp [LookupKey.admits, MemberName.lookup, OriginFilter.admits, hstatic] at hadmits

/-- **The static members of the name are the candidates of the procedure.** -/
theorem lookUp_static (op : Operator) :
    r.lookUp (op.reference.lookup .static false) h.paths.wellFounded (.host id) =
      .ok (.found (op.candidates (.host id))) := by
  have hwell : ∀ m ∈ Library.members, (op.reference.lookup .static false).admits m → m.isWellFormed :=
    fun m hm hadmits => (op.members_named m hm (OwnMembers.key_of_admits hadmits)).2.1
  rw [h.lookUp_scope rfl, combine, malformedArities_eq_nil hwell, op.candidatesAmong_members]
  show (if (Candidate.firstOfEach (op.candidates (.host id) ++ [])).isEmpty then _ else _) = _
  rw [List.append_nil, op.firstOfEach_candidates]
  cases op <;> rfl

end HasLibrary

end Registry

end Multimethod
