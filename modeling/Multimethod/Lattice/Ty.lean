/-!
# Types

The types that values and parameters have: a closed set of builtin types and host types, which are
known by a number. Bool, Char, Int, Long and Double are primitive: the numeric ones among them
widen upward, and none admits null. Rest marks the end of a variadic parameter list.
-/

namespace Multimethod

/-- A type as dispatch sees it. -/
inductive Ty where
  | any
  | null
  | bool
  | char
  | int
  | long
  | double
  | number
  | text
  | symbol
  | list
  | procedure
  | rest
  | host (id : Nat)
  deriving DecidableEq, Repr

namespace Ty

/-- The builtin types that a name can refer to. -/
def named : List Ty :=
  [any, null, bool, char, int, long, double, number, text, symbol, list, procedure]

/-- The position of a primitive type among the primitive ones; numeric types widen upward. -/
def rank? : Ty → Option Nat
  | bool => some 0
  | char => some 1
  | int => some 2
  | long => some 3
  | double => some 4
  | _ => none

/-- Is the type one whose values have a representation of their own? -/
def isPrimitive (t : Ty) : Bool := t.rank?.isSome

/-- Is the type a primitive that belongs to Number? -/
def isNumeric : Ty → Bool
  | int | long | double => true
  | _ => false

/-- The name of a builtin type; a host type shows its number. -/
def label : Ty → String
  | any => "Any"
  | null => "Null"
  | bool => "Bool"
  | char => "Char"
  | int => "Int"
  | long => "Long"
  | double => "Double"
  | number => "Number"
  | text => "String"
  | symbol => "Symbol"
  | list => "List"
  | procedure => "Procedure"
  | rest => "Rest"
  | host id => "Host#" ++ toString id

/-- The builtin type called `name`. -/
def ofName? (name : String) : Option Ty := named.find? (·.label = name)

end Ty

end Multimethod
