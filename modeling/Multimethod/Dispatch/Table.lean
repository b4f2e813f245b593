import Multimethod.Dispatch.Overload

/-!
# Dispatch tables

A table serves calls by the number of their arguments. Its slots start at the smallest arity and
run to the largest one, and past it as far as the lookahead reaches beyond the smallest variadic
arity. A slot holds the fixed candidates of its arity if there are any, and else leads to the
variadic group with the greatest arity up to there; calls past the last slot look for the group.
-/

namespace Multimethod

/-- What serves one number of arguments. -/
inductive Slot where
  | fixed (overload : Overload)
  /-- The variadic group at this place. -/
  | adapted (group : Nat)
  deriving DecidableEq, Repr

/-- A choice by number of arguments and then by type. -/
structure DispatchTable where
  name : String
  /-- The type whose lookup the table answers. -/
  scope : Ty
  minArity : Nat
  /-- The slots for `minArity` arguments and up. -/
  slots : List (Option Slot)
  /-- The variadic candidates of each arity, ascending. -/
  groups : List Overload
  pin : Option Nat
  deriving DecidableEq, Repr

namespace DispatchTable

/-- The last variadic group as the contents of a slot. -/
def latestGroup? (groups : List Overload) : Option Slot :=
  if groups.isEmpty then none else some (.adapted (groups.length - 1))

/-- The slots for these arities in turn, and the variadic groups after them. -/
def fillSlots (h : Hierarchy) (limit : Nat) (candidates : List Candidate) :
    (arities : List Nat) → (groups : List Overload) → List (Option Slot) × List Overload
  | [], groups => ([], groups)
  | arity :: more, groups =>
    let (variadic, fixed) := (candidates.filter (·.arity = arity)).partition (·.isVariadic)
    let groups := groups ++ (Overload.ofCandidates? h limit variadic).toList
    let slot := match Overload.ofCandidates? h limit fixed with
      | some overload => some (.fixed overload)
      | none => latestGroup? groups
    let (slots, groups) := fillSlots h limit candidates more groups
    (slot :: slots, groups)

/-- The smallest arity, and the largest, of a candidate and others. -/
def arityBounds (first : Candidate) (others : List Candidate) : Nat × Nat :=
  (others.foldl (fun n c => min n c.arity) first.arity,
    others.foldl (fun n c => max n c.arity) first.arity)

/-- The number of arguments that the last slot serves. -/
def reach (maxArity lookahead : Nat) (candidates : List Candidate) : Nat :=
  match (candidates.filter (·.isVariadic)).map (·.arity + lookahead) with
  | [] => maxArity
  | first :: others => max maxArity (others.foldl min first)

/-- So many slots that lead to the last variadic group, if there is one. -/
def pastSlots (groups : List Overload) (count : Nat) : List (Option Slot) :=
  match latestGroup? groups with
  | some latest => List.replicate count (some latest)
  | none => []

/-- The table of one or more candidates. -/
def ofCandidates (h : Hierarchy) (name : String) (scope : Ty) (limit lookahead : Nat)
    (pin : Option Nat) (first : Candidate) (others : List Candidate) : DispatchTable :=
  let candidates := first :: others
  let (minArity, maxArity) := arityBounds first others
  let (slots, groups) := fillSlots h limit candidates
    (List.range' minArity (maxArity + 1 - minArity)) []
  let past := pastSlots groups (reach maxArity lookahead candidates - maxArity)
  { name, scope, minArity, slots := slots ++ past, groups, pin }

/-- The greatest number of arguments that has a slot. -/
def lastSlot (table : DispatchTable) : Nat := table.minArity + (table.slots.length - 1)

/-- The variadic group that takes this many arguments. -/
def groupFor? (table : DispatchTable) (argc : Nat) : Option Overload :=
  table.groups.reverse.find? (·.arity ≤ argc)

/-- The overload that serves a call with this many arguments. -/
def overloadFor? (table : DispatchTable) (argc : Nat) : Option Overload :=
  if table.pin.any (· ≠ argc) || argc < table.minArity then none
  else match table.slots[argc - table.minArity]? with
    | some (some (.fixed overload)) => some overload
    | some (some (.adapted group)) => table.groups[group]?
    | some none => none
    | none => table.groupFor? argc

def select (h : Hierarchy) (table : DispatchTable) (types : List Ty) : Option Candidate :=
  (table.overloadFor? types.length).bind (·.select h types)

/-- The overloads of the fixed slots, each with its arity, ascending. -/
def fixedOverloads (table : DispatchTable) : List (Nat × Overload) :=
  (table.slots.zipIdx table.minArity).filterMap fun (slot, arity) =>
    match slot with
    | some (.fixed overload) => some (arity, overload)
    | _ => none

/-- All candidates, those of fixed slots first. -/
def candidates (table : DispatchTable) : List Candidate :=
  table.fixedOverloads.flatMap (·.2.candidates) ++ table.groups.flatMap (·.candidates)

/-- The signatures of an overload's candidates in the order they are tried. -/
def signatures (h : Hierarchy) (overload : Overload) : String :=
  " | ".intercalate (overload.candidates.map (·.signature h))

/-- A line for each fixed arity, each variadic group and the pin. -/
def describe (h : Hierarchy) (table : DispatchTable) : String :=
  let fixed := table.fixedOverloads.map fun (arity, overload) =>
    s!"arity {arity}: {signatures h overload}\n"
  let variadic := table.groups.map fun group =>
    s!"arity {group.arity}+: {signatures h group}\n"
  let pinned := table.pin.toList.map fun n => s!"pinned to {n}\n"
  String.join (fixed ++ variadic ++ pinned)

end DispatchTable

end Multimethod
