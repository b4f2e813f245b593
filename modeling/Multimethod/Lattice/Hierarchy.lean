import Multimethod.Lattice.Ty

/-!
# Hierarchies of host types

A hierarchy lists the host types with the supertypes each declares; the number of a host type is
its place in the list. Supertypes may be any types at all, so that paths may end nowhere or run in
circles. `walk` explores what lies above a type, nearest types first.
-/

namespace Multimethod

/-- A host type as it was declared. -/
structure HostType where
  name : String
  supertypes : List Ty
  deriving DecidableEq, Repr

/-- The host types, each under the number of its place. -/
structure Hierarchy where
  types : List HostType := []
  deriving DecidableEq, Repr

namespace Hierarchy

/-- The number of the host type called `name`. -/
def find? (h : Hierarchy) (name : String) : Option Nat :=
  h.types.findIdx? (·.name = name)

/-- Declares a host type, unless there is one of this name; gives its number in either case. -/
def define (h : Hierarchy) (name : String) (supertypes : List Ty) : Hierarchy × Nat :=
  match h.find? name with
  | some id => (h, id)
  | none => (⟨h.types ++ [⟨name, supertypes⟩]⟩, h.types.length)

def contains (h : Hierarchy) (id : Nat) : Bool := id < h.types.length

/-- The name of a type; a host type that is not declared shows its number. -/
def typeName (h : Hierarchy) (t : Ty) : String :=
  match t with
  | .host id => match h.types[id]? with
    | some declared => declared.name
    | none => t.label
  | _ => t.label

/-- The direct supertypes of a type, in the order declared. -/
def supertypes (h : Hierarchy) : Ty → List Ty
  | .any | .rest => []
  | .int | .long | .double => [.number]
  | .host id => match h.types[id]? with
    | some ⟨_, s :: more⟩ => s :: more
    | _ => [.any]
  | _ => [.any]

/-- Explores the types above those in `queue`: the types seen so far, in the order met, and those
still in the queue after `n` more types have been opened. A type is opened once. -/
def walk (h : Hierarchy) : (n : Nat) → (seen queue : List Ty) → List Ty
  | 0, seen, queue => seen ++ queue
  | n + 1, seen, queue =>
    match queue.dropWhile (· ∈ seen) with
    | [] => seen
    | t :: rest => h.walk n (seen ++ [t]) (rest ++ h.supertypes t)

/-- No fewer than the types that occur in the hierarchy, the builtin ones counted. -/
def universeSize (h : Hierarchy) : Nat :=
  14 + h.types.length + (h.types.flatMap (·.supertypes)).length

/-- The type itself and all types above it, nearest first. -/
def reachable (h : Hierarchy) (t : Ty) : List Ty := h.walk h.universeSize [] [t]

end Hierarchy

end Multimethod
