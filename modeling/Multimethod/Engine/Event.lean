import Multimethod.Value.Error

/-!
# Events

What the engine and the evaluator report of their work, besides answers. An event is written as a
level, the part of the program it comes from, and named fields, its message among them.
-/

namespace Multimethod

/-- Something worth reporting. -/
inductive Event where
  | rootUnregistered (scope : String)
  | importAdded (scope : String) (qualifier : Option String)
  | recordCreated (type : String) (members : Nat)
  | memberDropped (key owner : String) (arity : Nat)
  | chainBuilt (arity : Nat) (joined : List Ty)
  | tableBuilt (name scope : String) (minArity maxArity groups : Nat)
  | overloadSelected (signature : String)
  | formRejected (head : String) (bound : Bool)
  | fileLoaded (path : String)

namespace Event

/-- How much the event matters. -/
def level : Event → String
  | rootUnregistered _ | memberDropped _ _ _ => "WARN"
  | overloadSelected _ => "TRACE"
  | _ => "DEBUG"

/-- The part of the program that reports the event. -/
def target : Event → String
  | formRejected _ _ | fileLoaded _ => "sioc::runtime"
  | _ => "sioc::dispatch"

/-- A character inside the quotes of a field. -/
def quotedChar (c : Char) : List Char :=
  match c with
  | '"' => ['\\', '"']
  | '\\' => ['\\', '\\']
  | '\n' => ['\\', 'n']
  | '\r' => ['\\', 'r']
  | '\t' => ['\\', 't']
  | '\x00' => ['\\', '0']
  | _ =>
    if Text.isControl c then ['\\', 'u', '\x7b'] ++ Text.shortHex c.toNat ++ ['\x7d'] else [c]

/-- A prefix as a field. -/
def optionText : Option String → String
  | none => "None"
  | some s => "Some(\"" ++ String.ofList (s.toList.flatMap quotedChar) ++ "\")"

/-- A type as it stands in a list of types. -/
def typeText : Ty → String
  | .text => "Text"
  | .host id => s!"Host(HostTypeId({id}))"
  | t => t.label

def typesText (types : List Ty) : String := "[" ++ ", ".intercalate (types.map typeText) ++ "]"

def boolText (b : Bool) : String := if b then "true" else "false"

/-- The fields with their texts, the message first. -/
def fields : Event → List (String × String)
  | rootUnregistered scope =>
    [("message", "root scope is not registered; only imports resolve bare names"), ("scope", scope)]
  | importAdded scope qualifier =>
    [("message", "import"), ("scope", scope), ("prefix", optionText qualifier)]
  | recordCreated type members =>
    [("message", "created metaobject record"), ("ty", type), ("members", toString members)]
  | memberDropped key owner arity =>
    [("message", "dropping member with inconsistent variadic encoding"), ("member", key),
     ("owner", owner), ("arity", toString arity)]
  | chainBuilt arity joined =>
    [("message", "built guard chain"), ("arity", toString arity), ("joined", typesText joined)]
  | tableBuilt name scope minArity maxArity groups =>
    [("message", "built dispatch table"), ("name", name), ("scope", scope),
     ("min_arity", toString minArity), ("max_arity", toString maxArity),
     ("variadic_groups", toString groups)]
  | overloadSelected signature => [("message", "selected overload"), ("candidate", signature)]
  | formRejected head bound =>
    [("message", "cannot compile form"), ("head", head), ("bound", boolText bound)]
  | fileLoaded path => [("message", "load"), ("path", path)]

end Event

end Multimethod
