/-!
# Caches

A cache keeps the first value stored under each key; later ones are passed over.
-/

namespace Multimethod

/-- Values under keys. -/
abbrev Cache (κ : Type u) (ν : Type v) := List (κ × ν)

namespace Cache

variable {κ : Type u} {ν : Type v} [DecidableEq κ]

def find? (key : κ) : Cache κ ν → Option ν
  | [] => none
  | (k, value) :: rest => if k = key then some value else find? key rest

/-- Stores a value unless there is one under the key; gives the one that is kept. -/
def store (cache : Cache κ ν) (key : κ) (value : ν) : ν × Cache κ ν :=
  match find? key cache with
  | some kept => (kept, cache)
  | none => (value, (key, value) :: cache)

def modify (f : ν → ν) (key : κ) : Cache κ ν → Cache κ ν
  | [] => []
  | (k, value) :: rest => if k = key then (k, f value) :: rest else (k, value) :: modify f key rest

end Cache

end Multimethod
