import Multimethod.Engine.Resolution
import Multimethod.Eval.Bindings
import Multimethod.Eval.Objects
import Multimethod.Session.Files

/-!
# The interpreter's state

An interpreter is an engine with global bindings, an output, host objects and files to load. An
evaluation ends with a value or an error and in either case leaves an interpreter; it has no end at
all only when it is not given enough depth.
-/

namespace Multimethod

/-- Where printed text goes. -/
structure Output where
  /-- A closed output takes no text but the empty one. -/
  isClosed : Bool := false
  written : String := ""
  deriving DecidableEq, Repr

structure Interpreter where
  engine : Engine
  bindings : Bindings := {}
  output : Output := {}
  objects : Objects := {}
  files : Files := {}
  /-- The paths of the files asked for, the last one first. -/
  asked : List String := []

abbrev EvalM := ExceptT RuntimeError (StateT Interpreter Option)

namespace EvalM

/-- Evaluates from a state: the result and the state after it, none for lack of depth. -/
def runFrom (m : EvalM α) (i : Interpreter) : Option (Except RuntimeError α × Interpreter) :=
  (m.run).run i

/-- Gives up for lack of depth. -/
def exhausted : EvalM α := ExceptT.mk fun _ => none

/-- Lets the engine resolve something. -/
def dispatch (m : DispatchM α) : EvalM α := do
  let i ← get
  let (result, engine) := (m.run).run i.engine
  set { i with engine }
  match result with
  | .ok a => return a
  | .error e => throw (.dispatch e)

/-- The result of an evaluation, an error included, as a value. -/
def attempt (m : EvalM α) : EvalM (Except RuntimeError α) :=
  tryCatch (do return .ok (← m)) fun e => return .error e

def report (event : Event) : EvalM Unit :=
  modify fun i => { i with engine := i.engine.report event }

def hierarchy : EvalM Hierarchy := do return (← get).engine.hierarchy

def write (text : String) : EvalM Unit := do
  let i ← get
  if i.output.isClosed then
    unless text.isEmpty do throw (.io .sinkClosed)
  else set { i with output := { i.output with written := i.output.written ++ text } }

/-- The value of a name, if it has one: its binding, or what dispatch finds if it has none. -/
def lookUp (name : String) : EvalM (Option Value) := do
  match (← get).bindings.find? name with
  | some (.bound value) => return some value
  | some .removed => return none
  | none => dispatch (Engine.resolve name none)

def valueOf (name : String) : EvalM Value := do
  match ← lookUp name with
  | some value => return value
  | none => throw (.dispatch (.unboundName name))

def rebind (f : Bindings → Bindings) : EvalM Unit :=
  modify fun i => { i with bindings := f i.bindings }

/-- Makes the members of the type called `scope` visible. -/
def importScope (scope : String) (qualifier : Option String) : EvalM Unit := do
  let i ← get
  match i.engine.findType? scope with
  | some t => set { i with engine := i.engine.addImport t qualifier }
  | none => throw (.message ("import: unknown type " ++ scope))

def readFile (path : String) : EvalM String := do
  modify fun i => { i with asked := path :: i.asked }
  match (← get).files.read path with
  | .ok contents => return contents
  | .error problem => throw (.io (.file path problem))

/-- A new object of a host type; there are no objects of other types. -/
def makeObject (t : Ty) (cells : List Value) : EvalM Value := do
  match t with
  | .host id =>
    let i ← get
    let (object, objects) := i.objects.make id (i.engine.hierarchy.typeName t) cells
    set { i with objects }
    return .host object
  | _ => return .null

end EvalM

end Multimethod
