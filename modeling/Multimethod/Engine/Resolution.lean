import Multimethod.Engine.Discovery

/-!
# Resolution

What a name stands for. A member reference is looked up on a type, and its candidates make a
callable. A plain name is sought among the instance members of the root scope, its static members,
and then the imports, where two that disagree make the name ambiguous.
-/

namespace Multimethod

namespace Callable

/-- The event that an overload was built as a chain, if it was. -/
def chainEvents : Overload → List Event
  | .single _ => []
  | .chain guards => [.chainBuilt guards.joinedParams.length guards.joinedParams]

def maxArity (t : DispatchTable) : Nat := t.candidates.foldl (fun n c => max n c.arity) t.minArity

/-- The events of building a callable, in order: arity by arity the chains of the variadic and of
the fixed candidates, and then the table. -/
def buildEvents (h : Hierarchy) : Callable → List Event
  | .table t =>
    let top := maxArity t
    let chains := (List.range' t.minArity (top + 1 - t.minArity)).flatMap fun arity =>
      (t.groups.filter (·.arity = arity)).flatMap chainEvents ++
        (t.fixedOverloads.filter (·.1 = arity)).flatMap (chainEvents ·.2)
    chains ++ [.tableBuilt t.name (h.typeName t.scope) t.minArity top t.groups.length]
  | _ => []

end Callable

/-- The name that an import offers to its scope, if the name bears the import's prefix. -/
def Import.localName? (i : Import) (name : String) : Option String :=
  match i.qualifier with
  | none => some name
  | some qualifier =>
    if qualifier.toList.isPrefixOf name.toList ∧ qualifier ≠ name then
      some (String.ofList (name.toList.drop qualifier.length))
    else none

namespace Engine

/-- The value that a lookup on a type answers a member reference with. -/
def valueOf (e : Engine) (member : MemberName) (t : Ty) : Lookup → Option Value
  | .notFound => none
  | .constant value => some value
  | .found candidates =>
    (Callable.ofCandidates? e.hierarchy member.surface t e.config.guardChainLimit
      e.config.variadicLookahead member.pin candidates).map .procedure

def valueEvents (e : Engine) : Lookup → Option Value → List Event
  | .found _, some (.procedure callable) => callable.buildEvents e.hierarchy
  | _, _ => []

/-- Keeps the value that a reference resolved to and gives the one that was kept first. -/
def keepResolved (t : Ty) (key : LookupKey) (value : Option Value) : DispatchM (Option Value) := do
  let e ← get
  set { e with records := e.records.modify (·.storeResolved key value) t }
  return ((e.records.find? t).bind (·.resolved.find? key)).getD value

/-- What a member reference stands for on a type. -/
def resolveMember (t : Ty) (member : MemberName) (origin : OriginFilter) (bindReceiver : Bool) :
    DispatchM (Option Value) := do
  let key := member.lookup origin bindReceiver
  let r ← record t
  match r.resolved.find? key with
  | some hit => return hit
  | none =>
    let lookup ← discover discoveryDepth t key
    let e ← get
    let value := e.valueOf member t lookup
    set ((e.valueEvents lookup value).foldl (fun e event => e.report event) e)
    keepResolved t key value

/-- Asks the imports in turn; `found` is the first answer so far and where it came from. -/
def searchImports (name : String) : List Import → (found : Option (Value × Ty)) →
    DispatchM (Option (Value × Ty))
  | [], found => return found
  | i :: rest, found => do
    match (i.localName? name).map Name.classify with
    | some (.plain member) =>
      match ← resolveMember i.scope member .any false with
      | none => searchImports name rest found
      | some value =>
        match found with
        | none => searchImports name rest (some (value, i.scope))
        | some (first, scope) =>
          if scope ≠ i.scope ∧ first.equal value = false then
            let h := (← get).hierarchy
            throw (.ambiguousImport name (h.typeName scope) (h.typeName i.scope))
          else searchImports name rest found
    | _ => searchImports name rest found

/-- What the imports bind a name to. -/
def resolveImported (name : String) : DispatchM (Option Value) := do
  return (← searchImports name (← get).imports none).map (·.1)

/-- What the root scope binds a name to: an instance member, or else a static one. -/
def resolveRoot (member : MemberName) : DispatchM (Option Value) := do
  match (← get).root with
  | none => return none
  | some root =>
    match ← resolveMember root member .instance true with
    | some value => return some value
    | none => resolveMember root member .static false

/-- What a plain name stands for, on a type if one is given. -/
def resolvePlain (name : String) (member : MemberName) (scope : Option Ty) :
    DispatchM (Option Value) := do
  match scope with
  | some t => resolveMember t member .any false
  | none =>
    match ← resolveRoot member with
    | some value => return some value
    | none => resolveImported name

/-- What a name stands for; none if nothing binds it. -/
def resolve (name : String) (scope : Option Ty) : DispatchM (Option Value) := do
  match h : Name.classify name with
  | .selector member => return some (.procedure (.selector name ⟨member, h⟩))
  | .qualified typeName member plain =>
    match (← get).findType? typeName with
    | some t => resolveMember t member .any false
    | none => resolvePlain name plain scope
  | .plain member => resolvePlain name member scope

end Engine

end Multimethod
