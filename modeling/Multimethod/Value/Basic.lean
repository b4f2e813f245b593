import Multimethod.Decimal.Rounding
import Multimethod.Dispatch.Callable

/-!
# Values

The values of the language: null, truth values, characters, numbers of three widths, texts,
symbols, lists, procedures and host objects. `Value.equal` is the equality that programs see:
doubles compare as numbers, so a NaN differs from itself, and procedures by their candidates.
-/

namespace Multimethod

/-- How a host object of a type is told from the others of its type. -/
inductive ObjectLabel where
  /-- Named from outside. -/
  | given (text : String)
  /-- The `n`-th object made by the program. -/
  | made (n : Nat)
  deriving DecidableEq, Repr

/-- An object of a host type. -/
structure HostObject where
  /-- The number of its type. -/
  ty : Nat
  typeName : String
  label : ObjectLabel
  deriving DecidableEq, Repr

namespace HostObject

/-- The type name and the label identify an object. -/
def same (a b : HostObject) : Bool := a.typeName = b.typeName && a.label = b.label

end HostObject

/-- A value of the language. -/
inductive Value where
  | null
  | bool (b : Bool)
  | char (c : Char)
  | int (n : Int32)
  | long (n : Int64)
  | double (x : Float)
  | text (s : String)
  | symbol (name : String)
  | list (items : List Value)
  | procedure (callable : Callable)
  | host (object : HostObject)
  deriving Inhabited

namespace Value

/-- The type that dispatch sees. -/
def ty : Value → Ty
  | null => .null
  | bool _ => .bool
  | char _ => .char
  | int _ => .int
  | long _ => .long
  | double _ => .double
  | text _ => .text
  | symbol _ => .symbol
  | list _ => .list
  | procedure _ => .procedure
  | host object => .host object.ty

/-- Only false counts as false. -/
def isTrue : Value → Bool
  | bool false => false
  | _ => true

def isProcedure : Value → Bool
  | procedure _ => true
  | _ => false

/-- The value in the representation of a parameter type that it is assignable to. Only numbers and
characters given for a wider primitive type change. -/
def widenTo : Ty → Value → Value
  | .int, char c => int (Int32.ofInt c.toNat)
  | .long, char c => long (Int64.ofInt c.toNat)
  | .long, int n => long n.toInt64
  | .double, char c => double (Decimal.doubleOfInt c.toNat)
  | .double, int n => double (Decimal.doubleOfInt n.toInt)
  | .double, long n => double (Decimal.doubleOfInt n.toInt)
  | _, v => v

mutual

/-- Equality as programs see it. -/
def equal : Value → Value → Bool
  | null, null => true
  | bool a, bool b => a = b
  | char a, char b => a = b
  | int a, int b => a = b
  | long a, long b => a = b
  | double a, double b => Decimal.sameNumber a b
  | text a, text b => a = b
  | symbol a, symbol b => a = b
  | list a, list b => equalLists a b
  | procedure a, procedure b => a.sameDispatch b
  | host a, host b => a.same b
  | _, _ => false

def equalLists : List Value → List Value → Bool
  | [], [] => true
  | a :: as, b :: bs => equal a b && equalLists as bs
  | _, _ => false

end

mutual

/-- Are the values one and the same, doubles bit by bit? -/
def identical : Value → Value → Bool
  | null, null => true
  | bool a, bool b => a = b
  | char a, char b => a = b
  | int a, int b => a = b
  | long a, long b => a = b
  | double a, double b => a = b
  | text a, text b => a = b
  | symbol a, symbol b => a = b
  | list a, list b => identicalLists a b
  | procedure a, procedure b => a = b
  | host a, host b => a = b
  | _, _ => false

def identicalLists : List Value → List Value → Bool
  | [], [] => true
  | a :: as, b :: bs => identical a b && identicalLists as bs
  | _, _ => false

end

mutual

theorem identical_iff (v w : Value) : v.identical w ↔ v = w := by
  cases v with
  | list vs =>
    cases w with
    | list ws => simp [identical, identicalLists_iff vs ws]
    | _ => simp [identical]
  | _ => cases w <;> simp [identical]

theorem identicalLists_iff (vs ws : List Value) : identicalLists vs ws ↔ vs = ws := by
  cases vs with
  | nil => cases ws <;> simp [identicalLists]
  | cons v vs =>
    cases ws with
    | nil => simp [identicalLists]
    | cons w ws => simp [identicalLists, identical_iff v w, identicalLists_iff vs ws]

end

instance : DecidableEq Value := fun v w => decidable_of_iff _ (identical_iff v w)

end Value

end Multimethod
