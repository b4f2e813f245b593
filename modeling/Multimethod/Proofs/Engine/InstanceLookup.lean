import Multimethod.Proofs.Dispatch.Relabel
import Multimethod.Proofs.Engine.Entries

/-!
# Lookups of instance members

A selector looks up instance members, and a qualified name all members. Where no static member answers to
the key, on a type and all types above it, the two lookups find the same members: their candidates differ in
the lookup they carry, and their errors in nothing.

* `Registry.HasNoStatic` — no static member answers the lookup on a type or above it.
* `LookupKey.admits_instance` — then both lookups see the same members of a type.
* `Registry.lookUp_instance` — and they find the same.
-/

namespace Multimethod

/-- The lookup confined to these members. -/
def LookupKey.withOrigin (origin : OriginFilter) (key : LookupKey) : LookupKey := { key with origin }

/-- Is there no static member that answers the lookup, on the type or on one above it? A lookup of a method is
answered by static constants too. -/
def Registry.HasNoStatic (r : Registry) (t : Ty) (key : LookupKey) : Prop :=
  ∀ s, r.hierarchy.Leads t s → ∀ m ∈ r.membersOf s, (key.withOrigin .static).admits m = false

/-- The answer with the lookups of its candidates changed. -/
def Lookup.relabel (g : LookupKey → LookupKey) : Lookup → Lookup
  | .found cs => .found (cs.map (Candidate.relabel g))
  | .constant value => .constant value
  | .notFound => .notFound

namespace Lookup

variable (g : LookupKey → LookupKey)

theorem candidates_relabel (l : Lookup) :
    (l.relabel g).candidates = l.candidates.map (Candidate.relabel g) := by
  cases l <;> rfl

theorem constant?_relabel (l : Lookup) : (l.relabel g).constant? = l.constant? := by
  cases l <;> rfl

end Lookup

variable {r : Registry} {t s : Ty} {key : LookupKey} {members : List Member}

theorem Registry.HasNoStatic.of_leads (h : r.HasNoStatic t key) (hs : r.hierarchy.Leads t s) :
    r.HasNoStatic s key :=
  fun u hu => h u (hs.trans hu)

theorem Registry.HasNoStatic.of_above (h : r.HasNoStatic t key) (hs : r.hierarchy.Above s t) :
    r.HasNoStatic s key :=
  h.of_leads (.single hs)

/-! ## The members of a type -/

namespace LookupKey

/-- A member that is not static answers a lookup of all members and one of instance members alike. -/
theorem admits_instance {m : Member} (hstatic : (key.withOrigin .static).admits m = false) :
    (key.withOrigin .instance).admits m = (key.withOrigin .any).admits m := by
  unfold admits withOrigin at hstatic ⊢
  cases hm : m.isStatic with
  | false => simp [OriginFilter.admits]
  | true =>
    rw [hm] at hstatic
    simp only [OriginFilter.admits, Bool.and_true] at hstatic ⊢
    simpa using hstatic.symm

variable (hstatic : ∀ m ∈ members, (key.withOrigin .static).admits m = false)

include hstatic

theorem constantAmong_eq_none : key.constantAmong members = none := by
  rw [constantAmong, List.findSome?_eq_none_iff]
  intro m hm
  obtain ⟨hm, hadmits⟩ := List.mem_filter.1 hm
  have hno := hstatic m hm
  unfold admits withOrigin at hno
  unfold admits at hadmits
  unfold Member.staticConstant?
  rw [if_neg]
  rintro ⟨_, hm⟩
  rw [hm] at hno hadmits
  simp only [Bool.and_eq_true] at hadmits
  simp [OriginFilter.admits, hadmits.1.1, hadmits.2] at hno

theorem constantAmong_instance :
    (key.withOrigin .instance).constantAmong members = (key.withOrigin .any).constantAmong members := by
  unfold constantAmong
  rw [List.filter_congr fun m hm => admits_instance (hstatic m hm)]

theorem malformedArities_instance :
    (key.withOrigin .instance).malformedArities members = (key.withOrigin .any).malformedArities members := by
  have hadmits : ∀ m ∈ members, ((key.withOrigin .instance).admits m && !m.isWellFormed) =
      ((key.withOrigin .any).admits m && !m.isWellFormed) := by
    intro m hm
    rw [admits_instance (hstatic m hm)]
  unfold malformedArities
  rw [List.filter_congr hadmits]
  rfl

theorem candidatesAmong_instance :
    (key.withOrigin .instance).candidatesAmong t members.zipIdx =
      ((key.withOrigin .any).candidatesAmong t members.zipIdx).map
        (Candidate.relabel fun _ => key.withOrigin .instance) := by
  unfold candidatesAmong
  have hadmits : ∀ placed ∈ members.zipIdx,
      ((key.withOrigin .instance).admits placed.1 && placed.1.isWellFormed) =
        ((key.withOrigin .any).admits placed.1 && placed.1.isWellFormed) := by
    intro placed hplaced
    have hm : placed.1 ∈ members := List.mem_of_getElem? (List.mem_zipIdx_iff_getElem?.1 hplaced)
    rw [admits_instance (hstatic _ hm)]
  rw [List.filter_congr hadmits, List.filter_map, List.filter_map, List.map_map]
  rfl

end LookupKey

/-! ## The recursion -/

namespace Registry

theorem combine_instance (hstatic : ∀ m ∈ members, (key.withOrigin .static).admits m = false)
    (inherited : List Lookup) :
    r.combine (key.withOrigin .instance) t members
        (inherited.map (Lookup.relabel fun _ => key.withOrigin .instance)) =
      (r.combine (key.withOrigin .any) t members inherited).map
        (Lookup.relabel fun _ => key.withOrigin .instance) := by
  let g : LookupKey → LookupKey := fun _ => key.withOrigin .instance
  obtain ⟨found, hbase⟩ : ∃ found, (key.withOrigin .any).candidatesAmong t members.zipIdx ++
      inherited.flatMap Lookup.candidates = found := ⟨_, rfl⟩
  have hfound : Candidate.firstOfEach ((key.withOrigin .instance).candidatesAmong t members.zipIdx ++
      (inherited.map (Lookup.relabel g)).flatMap Lookup.candidates) =
        (Candidate.firstOfEach found).map (Candidate.relabel g) := by
    rw [← hbase, ← Candidate.firstOfEach_relabel, List.map_append, List.map_flatMap, List.flatMap_map,
      LookupKey.candidatesAmong_instance hstatic]
    simp only [Lookup.candidates_relabel, g]
  have hconstant : (inherited.map (Lookup.relabel g)).findSome? Lookup.constant? =
      inherited.findSome? Lookup.constant? := by
    rw [List.findSome?_map]
    congr 1
    funext l
    exact Lookup.constant?_relabel g l
  have harity : ∀ arity, ((Candidate.firstOfEach found).map (Candidate.relabel g)).any (·.arity = arity) =
      (Candidate.firstOfEach found).any (·.arity = arity) := by
    intro arity
    rw [List.any_map]
    rfl
  unfold combine
  dsimp only
  rw [hfound, hconstant, LookupKey.malformedArities_instance hstatic, hbase]
  simp only [harity, List.isEmpty_map]
  cases List.find? (fun arity => !(Candidate.firstOfEach found).any (·.arity = arity))
    ((key.withOrigin .any).malformedArities members) with
  | some arity => rfl
  | none =>
    dsimp only
    split
    · cases inherited.findSome? Lookup.constant? <;> rfl
    · rfl

theorem lookUp_ne_constant (hw : WellFounded r.hierarchy.Above) (hstatic : r.HasNoStatic t key) (value : Value) :
    r.lookUp key hw t ≠ .ok (.constant value) := by
  induction t using hw.induction generalizing value with
  | _ t ih =>
    intro h
    rw [lookUp_eq, lookUpFrom] at h
    cases hlist : r.list t with
    | error failure =>
      rw [hlist] at h
      cases h
    | ok members =>
      obtain rfl := membersOf_of_list hlist
      simp only [hlist, LookupKey.constantAmong_eq_none (hstatic t .refl)] at h
      obtain ⟨inherited, habove, h⟩ := exists_of_bind_ok h
      have hnone : ∀ l ∈ inherited, ∀ v, l ≠ .constant v := by
        refine forall_of_mapM_id (fun l hl v hv => ?_) habove
        obtain ⟨s, hs, hfound⟩ := List.mem_map.1 hl
        rw [hv] at hfound
        exact ih s hs (hstatic.of_above hs) v hfound
      obtain ⟨_, ⟨kept, hkept, _⟩ | ⟨v, _, hv⟩ | hnot⟩ := combine_cases h
      · cases hkept
      · exact hnone _ hv v rfl
      · cases hnot

/-- Results that differ by a function, one after another. -/
theorem mapM_id_map {α β ε : Type} (f : α → β) (results : List (Except ε α)) :
    (results.map (Except.map f)).mapM id = (results.mapM id).map (List.map f) := by
  induction results with
  | nil => rfl
  | cons result rest ih =>
    rw [List.map_cons, List.mapM_cons, List.mapM_cons, ih]
    cases result with
    | error err => rfl
    | ok a => cases rest.mapM id <;> rfl

/-- **Without static members both lookups find the same,** and fail alike. -/
theorem lookUp_instance (hw : WellFounded r.hierarchy.Above) (hstatic : r.HasNoStatic t key) :
    r.lookUp (key.withOrigin .instance) hw t =
      (r.lookUp (key.withOrigin .any) hw t).map (Lookup.relabel fun _ => key.withOrigin .instance) := by
  induction t using hw.induction with
  | _ t ih =>
    have habove : (r.hierarchy.supertypes t).map (r.lookUp (key.withOrigin .instance) hw) =
        ((r.hierarchy.supertypes t).map (r.lookUp (key.withOrigin .any) hw)).map
          (Except.map (Lookup.relabel fun _ => key.withOrigin .instance)) := by
      rw [List.map_map]
      exact List.map_congr_left fun s hs => ih s hs (hstatic.of_above hs)
    rw [lookUp_eq, lookUp_eq, lookUpFrom, lookUpFrom, habove, mapM_id_map]
    cases hlist : r.list t with
    | error failure => rfl
    | ok members =>
      obtain rfl := membersOf_of_list hlist
      have hmembers := hstatic t .refl
      dsimp only
      rw [LookupKey.constantAmong_instance hmembers]
      cases (key.withOrigin .any).constantAmong (r.membersOf t) with
      | some value => rfl
      | none =>
        cases ((r.hierarchy.supertypes t).map (r.lookUp (key.withOrigin .any) hw)).mapM id with
        | error err => rfl
        | ok inherited => exact combine_instance hmembers inherited

end Registry

end Multimethod
