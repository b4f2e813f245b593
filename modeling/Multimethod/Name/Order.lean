/-!
# The order of names

Names compare character by character, by code point.
-/

namespace Multimethod.Name

/-- Puts a name at its place among names in ascending order, unless it is there. -/
def insertSorted (name : String) : List String → List String
  | [] => [name]
  | other :: rest =>
    if name < other then name :: other :: rest
    else if name = other then other :: rest
    else other :: insertSorted name rest

/-- The names in ascending order, each once. -/
def sortDistinct (names : List String) : List String := names.foldr insertSorted []

end Multimethod.Name
