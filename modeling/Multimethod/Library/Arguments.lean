import Multimethod.Registry.Member

/-!
# Arguments of library procedures

A library procedure checks the number and the kinds of its arguments itself, whatever its
declaration says, and complains in its own name.
-/

namespace Multimethod.Library

def wrongCount (name : String) (wanted : Nat) (args : List Value) : Action :=
  .fail (.message s!"{name}: expected {wanted} argument(s), got {args.length}")

def wrongKind (name wanted : String) (got : Value) : Action :=
  .fail (.message s!"{name}: expected {wanted}, got {got.write}")

def unary (name : String) (f : Value → Action) : Native
  | [a] => f a
  | args => wrongCount name 1 args

def binary (name : String) (f : Value → Value → Action) : Native
  | [a, b] => f a b
  | args => wrongCount name 2 args

end Multimethod.Library
