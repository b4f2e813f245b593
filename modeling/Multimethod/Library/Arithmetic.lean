import Multimethod.Library.Arguments

/-!
# Arithmetic

`+`, `-`, `*` and `/` on two numbers of one width, and `-` on one. Whole numbers wrap around, and
their quotient is cut off toward zero; only division of whole numbers by zero fails.
-/

namespace Multimethod.Library

/-- An operation on two Ints, none by zero division. -/
def intOp (name : String) (f : Int32 → Int32 → Option Int32) : Member :=
  .function name [.int, .int] .int <| binary name fun a b =>
    match a, b with
    | .int m, .int n =>
      match f m n with
      | some r => .give (.int r)
      | none => .fail (.message (name ++ ": division by zero"))
    | _, _ => wrongKind name "integers" a

/-- An operation on two Longs, none by zero division. -/
def longOp (name : String) (f : Int64 → Int64 → Option Int64) : Member :=
  .function name [.long, .long] .long <| binary name fun a b =>
    match a, b with
    | .long m, .long n =>
      match f m n with
      | some r => .give (.long r)
      | none => .fail (.message (name ++ ": division by zero"))
    | _, _ => wrongKind name "longs" a

def doubleOp (name : String) (f : Float → Float → Float) : Member :=
  .function name [.double, .double] .double <| binary name fun a b =>
    match a, b with
    | .double x, .double y => .give (.double (f x y))
    | _, _ => wrongKind name "doubles" a

def negateInt : Member :=
  .function "-" [.int] .int <| unary "-" fun a =>
    match a with
    | .int n => .give (.int (-n))
    | _ => wrongKind "-" "an integer" a

def negateLong : Member :=
  .function "-" [.long] .long <| unary "-" fun a =>
    match a with
    | .long n => .give (.long (-n))
    | _ => wrongKind "-" "a long" a

def negateDouble : Member :=
  .function "-" [.double] .double <| unary "-" fun a =>
    match a with
    | .double x => .give (.double (-x))
    | _ => wrongKind "-" "a double" a

def arithmetic : List Member :=
  [intOp "+" fun a b => some (a + b),
   longOp "+" fun a b => some (a + b),
   doubleOp "+" fun a b => a + b,
   intOp "-" fun a b => some (a - b),
   longOp "-" fun a b => some (a - b),
   doubleOp "-" fun a b => a - b,
   intOp "*" fun a b => some (a * b),
   longOp "*" fun a b => some (a * b),
   doubleOp "*" fun a b => a * b,
   intOp "/" fun a b => if b = 0 then none else some (a / b),
   longOp "/" fun a b => if b = 0 then none else some (a / b),
   doubleOp "/" fun a b => a / b,
   negateInt,
   negateLong,
   negateDouble]

end Multimethod.Library
