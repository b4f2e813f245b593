import Multimethod.Name.Mangle
import Multimethod.Decimal.Digits

/-!
# The forms of a name

A name is plain, a selector `.member` or qualified `Type/member`. The member part of the last two
may carry a marker: `-field` reads a field, `=field` writes it. Any name may end in an arity pin
`:N`, which asks for candidates that take `N` arguments.
-/

namespace Multimethod

/-- What a member does for its owner. -/
inductive MemberKind where
  | fieldGet
  | fieldSet
  | method
  | constructor
  deriving DecidableEq, Repr

/-- A reference to a member once markers and the arity pin are taken off. -/
structure MemberName where
  /-- The text as written, without the pin. -/
  surface : String
  /-- The key under which members are stored. -/
  key : String
  kind : MemberKind
  pin : Option Nat
  deriving DecidableEq, Repr

/-- The form of a name, which decides where it is looked up. -/
inductive NameForm where
  /-- Looked up in the environment, the root scope and the imports. -/
  | plain (member : MemberName)
  /-- Looked up on the type of the first argument, call by call. -/
  | selector (member : MemberName)
  /-- Looked up on the type called `scope`, or as `plain` if no type is called so. -/
  | qualified (scope : String) (member : MemberName) (plain : MemberName)
  deriving DecidableEq, Repr

namespace Name

/-- The largest arity pin. -/
def maxPin : Nat := 0xffffffffffffffff

/-- The characters before the last colon and those after it. -/
def splitAtLastColon? (cs : List Char) : Option (List Char × List Char) :=
  let tail := cs.reverse.takeWhile (· ≠ ':')
  match cs.reverse.dropWhile (· ≠ ':') with
  | [] => none
  | _ :: front => some (front.reverse, tail.reverse)

/-- The name and its arity pin. A colon at the very start, or one that is not followed by the
digits of a number up to `maxPin`, belongs to the name. -/
def splitPin (cs : List Char) : List Char × Option Nat :=
  match splitAtLastColon? cs with
  | none => (cs, none)
  | some (base, digits) =>
    if base.isEmpty || digits.isEmpty || !digits.all Char.isDigit then (cs, none)
    else
      let pin := Decimal.digitsValue digits
      if pin ≤ maxPin then (base, some pin) else (cs, none)

/-- A whole name as a reference to a method. -/
def plainMember (text : List Char) (pin : Option Nat) : MemberName :=
  let surface := String.ofList text
  { surface, key := mangle surface, kind := .method, pin }

/-- The kind that a member's marker asks for, and the member without the marker. Only a qualified
`new` is a constructor. -/
def splitMarker (qualified : Bool) : List Char → MemberKind × List Char
  | '-' :: c :: field => (.fieldGet, c :: field)
  | '=' :: c :: field => (.fieldSet, c :: field)
  | text => (if qualified && text = "new".toList then .constructor else .method, text)

/-- A marked member as a reference. -/
def markedMember (qualified : Bool) (text : List Char) (pin : Option Nat) : MemberName :=
  let (kind, bare) := splitMarker qualified text
  { surface := String.ofList text, key := mangle (String.ofList bare), kind, pin }

/-- The member of a selector: what follows one leading dot. -/
def selectorMember? : List Char → Option (List Char)
  | '.' :: c :: rest => if c = '.' then none else some (c :: rest)
  | _ => none

/-- The scope and the member of a qualified name, on either side of its first slash. -/
def splitScope? (cs : List Char) : Option (List Char × List Char) :=
  match cs.takeWhile (· ≠ '/'), cs.dropWhile (· ≠ '/') with
  | s :: scope, _ :: c :: member => some (s :: scope, c :: member)
  | _, _ => none

def classify (name : String) : NameForm :=
  let (base, pin) := splitPin name.toList
  match selectorMember? base with
  | some member => .selector (markedMember false member pin)
  | none =>
    match splitScope? base with
    | some (scope, member) =>
      .qualified (String.ofList scope) (markedMember true member pin) (plainMember base pin)
    | none => .plain (plainMember base pin)

end Name

def NameForm.member : NameForm → MemberName
  | .plain member | .selector member | .qualified _ member _ => member

end Multimethod
