import Multimethod.Engine.Basic
import Multimethod.Session.Error
import Multimethod.Session.Files
import Multimethod.Session.Logging
import Multimethod.Session.Toml

/-!
# Settings

What a settings file sets: the limits and the root scope of the engine, the log, and the files to
load at the start. What is left out has a default, and unknown tables and keys are passed over. A
table may also be given as an array of its fields in order.
-/

namespace Multimethod

/-- What a settings file sets. -/
structure Settings where
  engine : EngineConfig := {}
  logLevel : Option String := none
  logFormat : Option String := none
  /-- Files to load before all else. -/
  preload : List String := []
  deriving DecidableEq, Repr

namespace Settings

def fileName : String := "sioc.toml"

/-- The value of a field of a table, none if it is left out; an error if the field, or a table that
should hold it, is something else. -/
def field? (d : Toml.Document) (table name : String) (place : Nat) : Except Unit (Option Toml.Item) :=
  match d.value? [table] with
  | some (.array items) => .ok items[place]?
  | some _ => .error ()
  | none => if d.hasTable [table, name] then .error () else .ok (d.value? [table, name])

/-- A limit, which is a number that is not negative. -/
def limit (default : Nat) : Option Toml.Item → Except Unit Nat
  | none => .ok default
  | some (.integer n) => if 0 ≤ n then .ok n.toNat else .error ()
  | some _ => .error ()

def text? : Option Toml.Item → Except Unit (Option String)
  | none => .ok none
  | some (.string s) => .ok (some s)
  | some _ => .error ()

def texts : List Toml.Item → Except Unit (List String)
  | [] => .ok []
  | .string s :: rest => (texts rest).map (s :: ·)
  | _ :: _ => .error ()

/-- The texts of a field that is an array of them. -/
def textArray : Option Toml.Item → Except Unit (List String)
  | none => .ok []
  | some (.array items) => texts items
  | some _ => .error ()

def ofDocument (d : Toml.Document) : Except Unit Settings := do
  let defaults : EngineConfig := {}
  let guardChainLimit ← limit defaults.guardChainLimit (← field? d "engine" "guard_chain_limit" 0)
  let variadicLookahead ← limit defaults.variadicLookahead (← field? d "engine" "variadic_lookahead" 1)
  let rootScopeName ← text? (← field? d "engine" "root_scope_name" 2)
  let logLevel ← text? (← field? d "log" "level" 0)
  let logFormat ← text? (← field? d "log" "format" 1)
  let preload ← textArray (← field? d "startup" "preload" 0)
  return {
    engine := { guardChainLimit, variadicLookahead,
                rootScopeName := rootScopeName.getD defaults.rootScopeName }
    logLevel, logFormat, preload }

/-- The settings that the text of a file sets. -/
def parse (path text : String) : Except SettingsError Settings :=
  match Toml.Document.parse? text with
  | none => .error (.malformed path)
  | some document =>
    match ofDocument document with
    | .error () => .error (.malformed path)
    | .ok settings =>
      if settings.engine.rootScopeName.isEmpty then .error (.emptyRootScope path) else .ok settings

/-- The settings of a file; the defaults if there is no file. Errors of reading name no path. -/
def load (files : Files) : (path : Option String) → Except SessionError Settings
  | none => .ok {}
  | some path =>
    match files.read path with
    | .error problem => .error (.runtime (.io (.unnamed problem)))
    | .ok text =>
      match parse path text with
      | .ok settings => .ok settings
      | .error e => .error (.settings e)

/-- The path of the settings file of a directory, if it has one. -/
def find? (files : Files) (directory : String) : Option String :=
  let path := joinPath directory fileName
  if files.isFile path then some path else none

end Settings

end Multimethod
