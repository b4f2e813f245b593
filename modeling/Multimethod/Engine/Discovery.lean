import Multimethod.Engine.Basic

/-!
# Discovery

A lookup on a type gathers the candidates that the type declares and those of its supertypes, of
each signature the first. A static constant declared on the type hides everything else; one that
is inherited answers only if there is no candidate. A malformed member is passed over, and is an
error if no candidate has its arity.
-/

namespace Multimethod

/-- How far up a lookup goes. -/
def discoveryDepth : Nat := 64

/-- A member passed over because its Rest marker and its variadic flag disagree. -/
structure MalformedMember where
  key : String
  arity : Nat
  deriving DecidableEq, Repr

/-- What a type itself declares for a lookup. -/
structure OwnMembers where
  candidates : List Candidate := []
  malformed : List MalformedMember := []
  constant : Option Value := none

namespace OwnMembers

/-- Takes in a member that answers the lookup, unless the arity pin keeps it out. -/
def add (own : OwnMembers) (owner : Ty) (index : Nat) (key : LookupKey) (d : Declaration) :
    OwnMembers :=
  if d.isWellFormed then
    let c := Candidate.ofDeclaration owner index key d
    if c.admittedBy key.pin then { own with candidates := Candidate.addTo own.candidates c }
    else own
  else
    let arity := d.arity key.bindReceiver
    if key.pin.all (· = arity) then { own with malformed := own.malformed ++ [⟨d.key, arity⟩] }
    else own

/-- Goes through the members from place `index` on, up to a static constant. -/
def scan (owner : Ty) (key : LookupKey) : (index : Nat) → List Member → OwnMembers → OwnMembers
  | _, [], own => own
  | index, m :: rest, own =>
    if key.admits m then
      match m.staticConstant? with
      | some value => { own with constant := some value }
      | none => scan owner key (index + 1) rest (own.add owner index key m.toDeclaration)
    else scan owner key (index + 1) rest own

/-- The candidates of a type with those of its supertypes. -/
def withInherited (own : OwnMembers) (inherited : List Lookup) : List Candidate :=
  inherited.foldl (fun found lookup =>
    match lookup with
    | .found candidates => candidates.foldl Candidate.addTo found
    | _ => found) own.candidates

/-- The first constant among what the supertypes have. -/
def inheritedConstant? (inherited : List Lookup) : Option Value :=
  inherited.findSome? fun lookup =>
    match lookup with
    | .constant value => some value
    | _ => none

/-- The answer of a lookup on a type whose own members hold no constant, from what its supertypes
answer. -/
def combine (own : OwnMembers) (typeName : String) (key : LookupKey) (inherited : List Lookup) :
    Except DispatchError Lookup :=
  let candidates := own.withInherited inherited
  match own.malformed.find? fun bad => !candidates.any (·.arity = bad.arity) with
  | some bad => .error (.inconsistentVariadic typeName key.key bad.arity)
  | none =>
    if candidates.isEmpty then .ok (((inheritedConstant? inherited).map .constant).getD .notFound)
    else .ok (.found candidates)

end OwnMembers

namespace Engine

/-- The record of a type, made from its members on first use. A failure to list them is not kept,
so that a later use tries again. -/
def record (t : Ty) : DispatchM Record := do
  let e ← get
  match e.records.find? t with
  | some r => return r
  | none =>
    let (listed, provider) := e.provider.list t
    let e := { e with provider }
    let name := e.hierarchy.typeName t
    match listed with
    | .error failure =>
      set e
      throw (.listing name failure)
    | .ok members =>
      let r : Record := { members, supertypes := e.hierarchy.supertypes t }
      set ({ e with records := (t, r) :: e.records }.report (.recordCreated name members.length))
      return r

def warnMalformed (t : Ty) (malformed : List MalformedMember) : DispatchM Unit :=
  modify fun e => malformed.foldl (fun e bad =>
    e.report (.memberDropped bad.key (e.hierarchy.typeName t) bad.arity)) e

/-- Keeps the answer of a lookup on a type and gives the one that was kept first. -/
def keepLookup (t : Ty) (key : LookupKey) (lookup : Lookup) : DispatchM Lookup := do
  let e ← get
  set { e with records := e.records.modify (·.storeLookup key lookup) t }
  return ((e.records.find? t).bind (·.lookups.find? key)).getD lookup

/-- What a lookup finds on a type, going up at most `levels` supertypes. -/
def discover (levels : Nat) (t : Ty) (key : LookupKey) : DispatchM Lookup := do
  let r ← record t
  match r.lookups.find? key with
  | some hit => return hit
  | none =>
    let own := OwnMembers.scan t key 0 r.members {}
    warnMalformed t own.malformed
    let lookup ← match own.constant with
      | some value => pure (.constant value)
      | none =>
        let inherited ← match levels with
          | 0 => pure []
          | n + 1 => r.supertypes.mapM fun s => discover n s key
        let e ← get
        MonadExcept.ofExcept (own.combine (e.hierarchy.typeName t) key inherited)
    keepLookup t key lookup

end Engine

end Multimethod
