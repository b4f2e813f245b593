import Multimethod.Registry.Member

/-!
# Registries

A registry holds the host types and the members of every type. Both only grow. A provider is a
registry that may fail to list members for a while.
-/

namespace Multimethod

/-- The host types, and the members of each type in the order they were added. -/
structure Registry where
  hierarchy : Hierarchy := {}
  members : List (Ty × List Member) := []

namespace Registry

/-- The members that a type itself declares. -/
def membersOf (r : Registry) (t : Ty) : List Member :=
  match r.members.find? (·.1 = t) with
  | some (_, members) => members
  | none => []

/-- The member at a place among those of its type. -/
def member? (r : Registry) (owner : Ty) (index : Nat) : Option Member := (r.membersOf owner)[index]?

/-- Declares a host type, or finds the one of this name. -/
def define (r : Registry) (name : String) (supertypes : List Ty) : Registry × Nat :=
  let (hierarchy, id) := r.hierarchy.define name supertypes
  ({ r with hierarchy }, id)

/-- Puts members after those that a type has in a table. -/
def appendMembers (t : Ty) (added : List Member) : List (Ty × List Member) → List (Ty × List Member)
  | [] => [(t, added)]
  | (u, members) :: rest =>
    if u = t then (u, members ++ added) :: rest else (u, members) :: appendMembers t added rest

def addAll (r : Registry) (t : Ty) (added : List Member) : Registry :=
  { r with members := appendMembers t added r.members }

def add (r : Registry) (t : Ty) (m : Member) : Registry := r.addAll t [m]

/-- Lists the members of a type; there are none to list of a host type that is not declared. -/
def list (r : Registry) (t : Ty) : Except ListingFailure (List Member) :=
  match t with
  | .host id => if r.hierarchy.contains id then .ok (r.membersOf t) else .error (.unknownHostType id)
  | _ => .ok (r.membersOf t)

end Registry

/-- A registry that may fail to list members. -/
structure Provider where
  registry : Registry := {}
  /-- Which of the next listings fail; all that come later succeed. -/
  outages : List Bool := []

/-- Lists the members of a type, unless a failure is due. -/
def Provider.list (p : Provider) (t : Ty) : Except ListingFailure (List Member) × Provider :=
  match p.outages with
  | fails :: rest =>
    (if fails then .error .unavailable else p.registry.list t, { p with outages := rest })
  | [] => (p.registry.list t, p)

end Multimethod
