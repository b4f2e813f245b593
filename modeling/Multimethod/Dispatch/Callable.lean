import Multimethod.Dispatch.Table

/-!
# Callables

What a procedure value holds: one candidate, a table of candidates, or a selector, which looks its
member up on the type of each call's first argument. Two callables are alike when they are built
from the same candidates in the same order.
-/

namespace Multimethod

/-- The member that a selector's name spells. -/
abbrev SelectorMember (name : String) :=
  { member : MemberName // Name.classify name = .selector member }

/-- What a procedure value calls. -/
inductive Callable where
  | direct (candidate : Candidate)
  | table (table : DispatchTable)
  | selector (name : String) (member : SelectorMember name)
  deriving DecidableEq, Repr

namespace Callable

/-- The callable that candidates found for one lookup make. A single candidate is called directly,
unless it is variadic and has to be held to an arity pin. -/
def ofCandidates? (h : Hierarchy) (name : String) (scope : Ty) (limit lookahead : Nat)
    (pin : Option Nat) : List Candidate → Option Callable
  | [] => none
  | [c] =>
    if pin.isNone || !c.isVariadic then some (.direct c)
    else some (.table (.ofCandidates h name scope limit lookahead pin c []))
  | first :: others =>
    some (.table (.ofCandidates h name scope limit lookahead pin first others))

def name : Callable → String
  | .direct c => c.name
  | .table t => t.name
  | .selector name _ => name

/-- The candidates of a callable; a selector has none of its own. -/
def candidates : Callable → List Candidate
  | .direct c => [c]
  | .table t => t.candidates
  | .selector _ _ => []

/-- Are the callables one and the same, selectors for the same member, or built from the same
candidates in the same order? The same candidates, not only candidates that look alike: what is equal
comes from one declaration by one lookup. -/
def sameDispatch (a b : Callable) : Bool :=
  a = b || match a, b with
    | .selector _ m, .selector _ n => m.val = n.val
    | _, _ => !a.candidates.isEmpty && a.candidates = b.candidates

/-- How a member kind is written in the description of a selector. -/
def kindText : MemberKind → String
  | .fieldGet => "FieldGet"
  | .fieldSet => "FieldSet"
  | .method => "Method"
  | .constructor => "Constructor"

/-- The layout of the callable in lines of text. -/
def describe (h : Hierarchy) : Callable → String
  | .direct c => s!"direct: {c.signature h}\n"
  | .table t => t.describe h
  | .selector _ member => s!"selector: {kindText member.val.kind} {member.val.key}\n"

end Callable

end Multimethod
