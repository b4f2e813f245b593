import Multimethod.Lattice.Hierarchy

/-!
# Assignability, joins and specificity

Which type may stand where another is declared, the nearest type that takes in two given ones, and
the total order in which overloads are tried, more specific types first.
-/

namespace Multimethod.Hierarchy

/-! ## Assignability -/

/-- How many types a search for a supertype opens. -/
def searchLimit : Nat := 256

/-- Does a search upward from one type meet the other? -/
def isAbove (h : Hierarchy) (sub super : Ty) : Bool :=
  super ∈ h.walk searchLimit [] [sub]

/-- May a value of type `source` stand where `target` is declared? Null stands for everything but
primitives; numeric primitives and Char widen; the rest follows the declared supertypes. -/
def isAssignable (h : Hierarchy) (source target : Ty) : Bool :=
  if source = target ∨ target = .any then true
  else if source = .null then !target.isPrimitive
  else match source.rank?, target.rank? with
    | some r, some s => source ≠ .bool && target ≠ .bool && r ≤ s
    | some _, none => target = .number && source.isNumeric
    | none, some _ => false
    | none, none => h.isAbove source target

/-! ## Joins -/

/-- The types above a primitive type, nearest first. -/
def primitiveAncestors (t : Ty) (rank : Nat) : List Ty :=
  let wider := if t = .bool then [] else
    [Ty.int, .long, .double].filter fun w => w.rank?.any (rank < ·)
  t :: wider ++ (if t.isNumeric then [.number] else []) ++ [.any]

/-- The types among which a join of `t` with another type is sought, nearest first. -/
def ancestors (h : Hierarchy) (t : Ty) : List Ty :=
  match t.rank? with
  | some rank => primitiveAncestors t rank
  | none =>
    let above := h.reachable t
    if Ty.any ∈ above then above else above ++ [.any]

/-- The nearest type that both types are assignable to. -/
def join (h : Hierarchy) (a b : Ty) : Ty :=
  if a = b then a
  else if h.isAssignable a b then b
  else if h.isAssignable b a then a
  else ((h.ancestors a).find? (h.isAssignable b)).getD .any

/-! ## Specificity -/

/-- How many steps of a supertype path count. -/
def depthLimit : Nat := 64

/-- The length of the longest path from a type up to Any, of which at most `limit` steps count. -/
def depth (h : Hierarchy) : (limit : Nat) → Ty → Nat
  | 0, _ => 0
  | limit + 1, t =>
    if t = .any then 0
    else ((h.supertypes t).map fun s => 1 + h.depth limit s).foldl max 0

/-- What the order of specificity goes by, from first to last. -/
structure SpecificityKey where
  /-- Primitive types, 0, precede all others, 1. -/
  tier : Nat
  /-- The rank of a primitive type. Of the others Null comes first and deeper types follow before
  shallower ones. -/
  place : Nat
  name : String
  /-- Builtin types, 0, precede host types, which follow by number. -/
  tie : Nat
  deriving DecidableEq, Repr

def specificityKey (h : Hierarchy) (t : Ty) : SpecificityKey :=
  match t with
  | .bool => ⟨0, 0, "", 0⟩
  | .char => ⟨0, 1, "", 0⟩
  | .int => ⟨0, 2, "", 0⟩
  | .long => ⟨0, 3, "", 0⟩
  | .double => ⟨0, 4, "", 0⟩
  | .null => ⟨1, 0, h.typeName t, 0⟩
  | .host id => ⟨1, 1 + (depthLimit - h.depth depthLimit t), h.typeName t, id + 1⟩
  | _ => ⟨1, 1 + (depthLimit - h.depth depthLimit t), h.typeName t, 0⟩

/-- Keys in lexicographic order. -/
def SpecificityKey.order : SpecificityKey → SpecificityKey → Ordering :=
  compareLex (compareOn tier) <| compareLex (compareOn place) <|
    compareLex (compareOn name) (compareOn tie)

/-- More specific types first. -/
def specificityOrder (h : Hierarchy) (a b : Ty) : Ordering :=
  (h.specificityKey a).order (h.specificityKey b)

end Multimethod.Hierarchy
