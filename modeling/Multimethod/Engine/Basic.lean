import Multimethod.Engine.Cache
import Multimethod.Engine.Event
import Multimethod.Registry.Basic

/-!
# The engine's state

The engine keeps a record of each type it has looked at: the members and supertypes listed then,
and the answers of past lookups. It also keeps the imports, and the events so far.
-/

namespace Multimethod

structure EngineConfig where
  /-- How many candidates guards test before a scan takes over. -/
  guardChainLimit : Nat := 4
  /-- How many more arguments than the smallest variadic arity have slots. -/
  variadicLookahead : Nat := 8
  /-- The host type whose members need no qualification. -/
  rootScopeName : String := "sioc"
  deriving DecidableEq, Repr

/-- A type whose members are visible without qualification, behind a prefix if there is one. -/
structure Import where
  scope : Ty
  qualifier : Option String
  deriving DecidableEq, Repr

/-- What a lookup finds on a type. -/
inductive Lookup where
  | found (candidates : List Candidate)
  | constant (value : Value)
  | notFound

/-- A type as it was when the engine first looked at it, with the answers given since. -/
structure Record where
  members : List Member
  supertypes : List Ty
  lookups : Cache LookupKey Lookup := []
  resolved : Cache LookupKey (Option Value) := []

structure Engine where
  provider : Provider
  config : EngineConfig
  /-- The root scope, if its type was there when the engine was made. -/
  root : Option Ty
  records : Cache Ty Record := []
  imports : List Import := []
  /-- The events so far, the last one first. -/
  events : List Event := []

/-- A resolution: it ends with a value or an error, and in either case leaves an engine. -/
abbrev DispatchM := ExceptT DispatchError (StateM Engine)

namespace Engine

/-- The host types as they are now. -/
def hierarchy (e : Engine) : Hierarchy := e.provider.registry.hierarchy

/-- An engine that has looked at nothing yet. -/
def new (provider : Provider) (config : EngineConfig) : Engine :=
  match provider.registry.hierarchy.find? config.rootScopeName with
  | some id => { provider, config, root := some (.host id) }
  | none => { provider, config, root := none, events := [.rootUnregistered config.rootScopeName] }

def report (event : Event) (e : Engine) : Engine := { e with events := event :: e.events }

/-- The builtin type or host type called `name`. -/
def findType? (e : Engine) (name : String) : Option Ty :=
  match Ty.ofName? name with
  | some t => some t
  | none => (e.hierarchy.find? name).map .host

/-- Makes the members of a type visible, unless they are so already behind the same prefix. -/
def addImport (scope : Ty) (qualifier : Option String) (e : Engine) : Engine :=
  let added : Import := ⟨scope, qualifier⟩
  if added ∈ e.imports then e
  else report (.importAdded (e.hierarchy.typeName scope) qualifier)
    { e with imports := e.imports ++ [added] }

end Engine

namespace Record

def storeLookup (key : LookupKey) (lookup : Lookup) (r : Record) : Record :=
  { r with lookups := (r.lookups.store key lookup).2 }

def storeResolved (key : LookupKey) (value : Option Value) (r : Record) : Record :=
  { r with resolved := (r.resolved.store key value).2 }

end Record

end Multimethod
