import Multimethod.Engine.Cache
import Multimethod.Value.Basic

/-!
# Bindings

The global names. A name has a value, or has been removed, which also hides what dispatch would
find, or has never been touched.
-/

namespace Multimethod

/-- What a touched name holds. -/
inductive Binding where
  | bound (value : Value)
  | removed

/-- The touched names. -/
structure Bindings where
  slots : Cache String Binding := []

namespace Bindings

/-- The state of a name, if it was ever touched. -/
def find? (b : Bindings) (name : String) : Option Binding := b.slots.find? name

/-- Puts a state in place of the one a name has. -/
def put (b : Bindings) (name : String) (slot : Binding) : Bindings :=
  match b.slots.find? name with
  | some _ => ⟨b.slots.modify (fun _ => slot) name⟩
  | none => ⟨(name, slot) :: b.slots⟩

def set (b : Bindings) (name : String) (value : Value) : Bindings := b.put name (.bound value)

/-- Binds a name that was never touched. -/
def setDefault (b : Bindings) (name : String) (value : Value) : Bindings :=
  match b.find? name with
  | some _ => b
  | none => b.set name value

def unset (b : Bindings) (name : String) : Bindings := b.put name .removed

end Bindings

end Multimethod
