import Multimethod.Value.Basic

/-!
# Host objects and their cells

Every host object has numbered cells; those that were never stored hold null. Objects that the
program makes are numbered from one.
-/

namespace Multimethod

/-- The host objects known so far, with their cells. -/
structure Objects where
  known : List (HostObject × List Value) := []
  made : Nat := 0

namespace Objects

def cells (o : Objects) (object : HostObject) : List Value :=
  match o.known.find? (·.1.same object) with
  | some (_, cells) => cells
  | none => []

/-- The object with a type name and a given label: the one known by them already, or a new one. -/
def given (o : Objects) (ty : Nat) (typeName label : String) : HostObject × Objects :=
  let object : HostObject := { ty, typeName, label := .given label }
  match o.known.find? (·.1.same object) with
  | some (known, _) => (known, o)
  | none => (object, { o with known := (object, []) :: o.known })

def make (o : Objects) (ty : Nat) (typeName : String) (cells : List Value) :
    HostObject × Objects :=
  let object : HostObject := { ty, typeName, label := .made (o.made + 1) }
  (object, { known := (object, cells) :: o.known, made := o.made + 1 })

/-- A cell of a value, null if the value is no object or has no such cell. -/
def cell (o : Objects) (v : Value) (place : Nat) : Value :=
  match v with
  | .host object => (o.cells object).getD place .null
  | _ => .null

/-- Puts a value at a place, after as many nulls as are missing up to there. -/
def putAt (place : Nat) (v : Value) (cells : List Value) : List Value :=
  (cells ++ List.replicate (place + 1 - cells.length) Value.null).set place v

/-- Stores a value in a cell of an object; nothing happens to other values. -/
def setCell (o : Objects) (target : Value) (place : Nat) (v : Value) : Objects :=
  match target with
  | .host object =>
    let rest := o.known.filter fun known => !known.1.same object
    { o with known := (object, putAt place v (o.cells object)) :: rest }
  | _ => o

end Objects

end Multimethod
