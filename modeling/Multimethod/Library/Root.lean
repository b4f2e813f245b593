import Multimethod.Library.Arithmetic
import Multimethod.Library.Data
import Multimethod.Library.Interaction
import Multimethod.Registry.Basic

/-!
# The root scope

The host type under which the library's members are found without qualification.
-/

namespace Multimethod

def Library.members : List Member :=
  Library.lists ++ Library.symbols ++ Library.arithmetic ++ Library.printing ++
    Library.evaluation ++ [.constant "null" .null]

/-- Declares the root scope and adds the library to it. -/
def Registry.withLibrary (r : Registry) (scopeName : String) : Registry :=
  let (r, id) := r.define scopeName []
  r.addAll (.host id) Library.members

end Multimethod
