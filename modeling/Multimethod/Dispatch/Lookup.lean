import Multimethod.Name.Form

/-!
# Lookups

A lookup asks a type for its members of one key and kind. It may be confined to static or to
instance members, to candidates for one number of arguments, and it settles where the receiver of
an instance member comes from.
-/

namespace Multimethod

/-- The members that a lookup sees. -/
inductive OriginFilter where
  | static
  | «instance»
  | any
  deriving DecidableEq, Repr

/-- Does the filter let a member pass that is static, or is not? -/
def OriginFilter.admits : OriginFilter → (isStatic : Bool) → Bool
  | .static, isStatic => isStatic
  | .instance, isStatic => !isStatic
  | .any, _ => true

/-- All that tells one lookup on a type from another. -/
structure LookupKey where
  key : String
  kind : MemberKind
  origin : OriginFilter
  /-- Do instance members take the interpreter as their receiver, and not an argument? -/
  bindReceiver : Bool
  pin : Option Nat
  deriving DecidableEq, Repr

def MemberName.lookup (member : MemberName) (origin : OriginFilter) (bindReceiver : Bool) :
    LookupKey :=
  { key := member.key, kind := member.kind, origin, bindReceiver, pin := member.pin }

end Multimethod
