import Multimethod.Registry.Action

/-!
# Members

A member of a type: its declaration, and a native or a constant that answers for it.
-/

namespace Multimethod

/-- What answers for a member. -/
inductive Body where
  | native (run : Native)
  | constant (value : Value)

def Body.constant? : Body → Option Value
  | constant value => some value
  | native _ => none

/-- A member as its type declares it. -/
structure Member extends Declaration where
  body : Body

namespace Member

/-- A static method. -/
def function (name : String) (params : List Ty) (ret : Ty) (run : Native) : Member :=
  { key := Name.mangle name, kind := .method, params, ret, body := .native run }

/-- A static field with a fixed value. -/
def constant (name : String) (value : Value) : Member :=
  { key := Name.mangle name, kind := .fieldGet, params := [], ret := value.ty,
    body := .constant value }

/-- A reader of a field; the native gets the receiver alone. -/
def getter (name : String) (ret : Ty) (run : Native) : Member :=
  { function name [] ret run with kind := .fieldGet, isStatic := false }

/-- A writer of a field; the native gets the receiver and the new value. -/
def setter (name : String) (param : Ty) (run : Native) : Member :=
  { function name [param] .null run with kind := .fieldSet, isStatic := false }

/-- A maker of values of the type. -/
def constructor (params : List Ty) (ret : Ty) (run : Native) : Member :=
  { function "new" params ret run with kind := .constructor }

/-- The member with any further arguments as one list; Rest ends its parameters. -/
def variadic (m : Member) : Member :=
  { m with
    params := if m.endsInRest then m.params else m.params ++ [.rest]
    isVariadic := true }

def withReceiver (m : Member) : Member := { m with isStatic := false }

/-- The value of a member that is a static constant. -/
def staticConstant? (m : Member) : Option Value :=
  if m.kind = .fieldGet ∧ m.isStatic then m.body.constant? else none

end Member

/-- Does a member answer the lookup? A lookup of a method sees static constants too. -/
def LookupKey.admits (k : LookupKey) (m : Member) : Bool :=
  m.key = k.key && k.origin.admits m.isStatic &&
    (m.kind = k.kind || (k.kind = .method && m.staticConstant?.isSome))

end Multimethod
