import Multimethod.Dispatch.Candidate

/-!
# Overloads

An overload chooses by type among candidates of one arity. They are tried most specific first. The
first of them are guarded arms, which test only the positions where the candidates differ; what
remains is one last candidate or a scan of the others in the same order.
-/

namespace Multimethod

namespace Candidate

/-- The order in which candidates are tried: by arity, then by the first parameter type that
differs, then by the return type. -/
def order (h : Hierarchy) : Candidate → Candidate → Ordering :=
  compareLex (compareOn arity) <|
    compareLex (fun c d => List.compareLex h.specificityOrder c.params d.params)
      (fun c d => h.specificityOrder c.ret d.ret)

/-- Puts a candidate before the first one that is not more specific. -/
def insertOrdered (h : Hierarchy) (c : Candidate) : List Candidate → List Candidate
  | [] => [c]
  | d :: rest => if (c.order h d).isLE then c :: d :: rest else d :: insertOrdered h c rest

/-- The candidates, most specific first; those that are equally specific keep their order. -/
def sortBySpecificity (h : Hierarchy) (candidates : List Candidate) : List Candidate :=
  candidates.foldr (insertOrdered h) []

end Candidate

/-- A candidate with a test for each position where the candidates of its chain differ. -/
structure GuardArm where
  tests : List (Option Ty)
  candidate : Candidate
  deriving DecidableEq, Repr

/-- Do arguments of these types pass the tests? -/
def GuardArm.passes (h : Hierarchy) (arm : GuardArm) (types : List Ty) : Bool :=
  (arm.tests.zip types).all fun (test, source) => test.all (h.isAssignable source)

/-- What is left to try when no arm passes. -/
inductive ChainTail where
  /-- One last candidate. -/
  | single (candidate : Candidate)
  /-- Candidates in the order to be tried. -/
  | scan (candidates : List Candidate)
  deriving DecidableEq, Repr

/-- The candidates of a tail in the order they are tried. -/
def ChainTail.candidates : ChainTail → List Candidate
  | .single c => [c]
  | .scan cs => cs

/-- Guarded arms and a tail. -/
structure GuardChain where
  arms : List GuardArm
  tail : ChainTail
  /-- At each position the join of the parameter types of all candidates. -/
  joinedParams : List Ty
  /-- The join of all return types. -/
  joinedRet : Ty
  deriving DecidableEq, Repr

/-- A choice among candidates of one arity. -/
inductive Overload where
  | single (candidate : Candidate)
  | chain (guards : GuardChain)
  deriving DecidableEq, Repr

/-- The joined type of a position so far, and whether candidates differ there. -/
abbrev JoinedPosition := Ty × Bool

/-- Joins one more candidate's parameters into the positions. -/
def joinPositions (h : Hierarchy) (positions : List JoinedPosition) (params : List Ty) :
    List JoinedPosition :=
  List.zipWith (fun (joined, varies) param =>
    if param = joined then (joined, varies) else (h.join joined param, true)) positions params

namespace GuardChain

/-- How many candidates of `count` become arms. -/
def armCount (limit count : Nat) : Nat :=
  if limit * 3 / 2 < count then limit else count - 1

/-- The tail that tries these candidates. -/
def tailOf : List Candidate → ChainTail
  | [c] => .single c
  | cs => .scan cs

/-- The chain of two or more candidates that are sorted already. -/
def ofSorted (h : Hierarchy) (limit : Nat) (first : Candidate) (others : List Candidate) :
    GuardChain :=
  let positions := others.foldl (fun positions c => joinPositions h positions c.params)
    (first.params.map (·, false))
  let sorted := first :: others
  let arms := armCount limit sorted.length
  { arms := (sorted.take arms).map fun c =>
      { tests := List.zipWith (fun param (_, varies) => if varies then some param else none)
          c.params positions
        candidate := c }
    tail := tailOf (sorted.drop arms)
    joinedParams := positions.map (·.1)
    joinedRet := others.foldl (fun ret c => h.join ret c.ret) first.ret }

/-- The first arm that passes, or else what the tail has for arguments of these types. -/
def select (h : Hierarchy) (chain : GuardChain) (types : List Ty) : Option Candidate :=
  if types.length < chain.joinedParams.length then none
  else match chain.arms.find? (·.passes h types) with
    | some arm => some arm.candidate
    | none => chain.tail.candidates.find? (·.fitsPrefix h types)

end GuardChain

namespace Overload

/-- The overload of candidates that all have one arity and are all variadic or none of them; there
is none of no candidates. -/
def ofCandidates? (h : Hierarchy) (limit : Nat) (candidates : List Candidate) : Option Overload :=
  match Candidate.sortBySpecificity h candidates with
  | [] => none
  | [c] => some (.single c)
  | first :: others => some (.chain (.ofSorted h limit first others))

def arity : Overload → Nat
  | .single c => c.arity
  | .chain guards => guards.joinedParams.length

/-- The candidates in the order they are tried. -/
def candidates : Overload → List Candidate
  | .single c => [c]
  | .chain guards => guards.arms.map (·.candidate) ++ guards.tail.candidates

/-- Types that every candidate's parameters are assignable to. -/
def joinedParams : Overload → List Ty
  | .single c => c.params
  | .chain guards => guards.joinedParams

/-- A type that every candidate's return type is assignable to. -/
def joinedRet : Overload → Ty
  | .single c => c.ret
  | .chain guards => guards.joinedRet

/-- The candidate chosen for arguments of these types. Those past the arity are left to the rest
list, and positions that no arm tests are left to the call. -/
def select (h : Hierarchy) (overload : Overload) (types : List Ty) : Option Candidate :=
  match overload with
  | .single c => if c.fitsPrefix h types then some c else none
  | .chain guards => guards.select h types

end Overload

end Multimethod
