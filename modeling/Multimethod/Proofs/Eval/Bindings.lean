import Multimethod.Eval.Bindings
import Multimethod.Proofs.Engine.Run

/-!
# What a name holds

The bindings after a row of changes, name by name. Setting and removing put a state in place of any
other; a default takes hold only where nothing was put before, so the last change of the first kind
decides, and the first default only if there is none.

* `Bindings.find?_put` — putting a state changes one name.
* `BindingChange.find?_makeAll` — what a name holds after any row of changes.
-/

namespace Multimethod

namespace Bindings

theorem find?_put (b : Bindings) (name other : String) (slot : Binding) :
    (b.put name slot).find? other = if other = name then some slot else b.find? other := by
  unfold put find?
  cases hname : b.slots.find? name with
  | some held =>
    rw [Cache.find?_modify]
    split
    · rename_i hother
      rw [hother, hname, Option.map_some]
    · rfl
  | none =>
    rw [Cache.find?]
    simp only [eq_comm]

@[simp] theorem find?_set (b : Bindings) (name other : String) (value : Value) :
    (b.set name value).find? other = if other = name then some (.bound value) else b.find? other :=
  find?_put b name other (.bound value)

@[simp] theorem find?_unset (b : Bindings) (name other : String) :
    (b.unset name).find? other = if other = name then some .removed else b.find? other :=
  find?_put b name other .removed

@[simp] theorem find?_setDefault (b : Bindings) (name other : String) (value : Value) :
    (b.setDefault name value).find? other =
      if other = name then (b.find? other).or (some (.bound value)) else b.find? other := by
  cases hname : b.find? name with
  | some held =>
    rw [setDefault, hname]
    dsimp only
    split
    · rename_i hother
      rw [hother, hname, Option.some_or]
    · rfl
  | none =>
    rw [setDefault, hname]
    dsimp only
    rw [find?_set]
    split
    · rename_i hother
      rw [hother, hname, Option.none_or]
    · rfl

end Bindings

inductive BindingChange where
  | set (name : String) (value : Value)
  | setDefault (name : String) (value : Value)
  | unset (name : String)

namespace BindingChange

def make (b : Bindings) : BindingChange → Bindings
  | set name value => b.set name value
  | setDefault name value => b.setDefault name value
  | unset name => b.unset name

def makeAll (changes : List BindingChange) (b : Bindings) : Bindings := changes.foldl make b

/-- What a name holds after this change, whatever it held before. A default settles nothing. -/
def settled? (name : String) : BindingChange → Option Binding
  | set changed value => if name = changed then some (.bound value) else none
  | unset changed => if name = changed then some .removed else none
  | setDefault _ _ => none

/-- What this change gives a name that holds nothing. -/
def offered? (name : String) : BindingChange → Option Binding
  | setDefault changed value => if name = changed then some (.bound value) else none
  | set _ _ | unset _ => none

theorem find?_make (change : BindingChange) (b : Bindings) (name : String) :
    (make b change).find? name =
      (change.settled? name).or ((b.find? name).or (change.offered? name)) := by
  cases change with
  | set changed value =>
    rw [make, Bindings.find?_set, settled?, offered?, Option.or_none]
    split <;> rfl
  | setDefault changed value =>
    rw [make, Bindings.find?_setDefault, settled?, offered?, Option.none_or]
    split
    · rfl
    · rw [Option.or_none]
  | unset changed =>
    rw [make, Bindings.find?_unset, settled?, offered?, Option.or_none]
    split <;> rfl

/-- **What a name holds after a row of changes**: what the last one that set or removed it put there;
if there is none, what it held before; if it held nothing, the first default. -/
theorem find?_makeAll (changes : List BindingChange) (b : Bindings) (name : String) :
    (makeAll changes b).find? name =
      (changes.filterMap (settled? name)).getLast?.or
        ((b.find? name).or (changes.filterMap (offered? name)).head?) := by
  induction changes generalizing b with
  | nil => simp [makeAll]
  | cons change rest ih =>
    have hrest : (makeAll (change :: rest) b).find? name = _ := ih (make b change)
    rw [hrest, find?_make, List.filterMap_cons, List.filterMap_cons]
    cases hsettled : change.settled? name with
    | some slot =>
      have hlast := List.getLast?_cons (a := slot) (l := rest.filterMap (settled? name))
      dsimp only
      rw [hlast]
      cases (rest.filterMap (settled? name)).getLast? <;> rfl
    | none =>
      dsimp only
      rw [Option.none_or, Option.or_assoc]
      cases change.offered? name <;> rfl

theorem makeAll_append (changes more : List BindingChange) (b : Bindings) :
    makeAll (changes ++ more) b = makeAll more (makeAll changes b) := List.foldl_append

end BindingChange

end Multimethod
