import Multimethod.Eval.Setup
import Multimethod.Session.Settings

/-!
# Sessions

A session is an interpreter with a console, on which prompts and error reports appear apart from
what programs print. It loads texts and files, first of all those that the settings name.
-/

namespace Multimethod

structure Session where
  interpreter : Interpreter
  /-- What has appeared on the console. -/
  console : String := ""
  /-- Lines that do not make whole forms yet. -/
  pending : List Char := []

/-- A part of a session: it ends with a value or an error, and in either case leaves a session;
there is no end only when an evaluation lacks depth. -/
abbrev SessionM := ExceptT SessionError (StateT Session Option)

namespace SessionM

/-- Goes on from a session: the result and the session after it. -/
def runFrom (m : SessionM α) (s : Session) : Option (Except SessionError α × Session) :=
  (m.run).run s

/-- The result of an evaluation, an error included. -/
def tryEvaluate (m : EvalM α) : SessionM (Except RuntimeError α) := do
  let s ← get
  match m.runFrom s.interpreter with
  | none => ExceptT.mk fun _ => none
  | some (result, interpreter) =>
    set { s with interpreter }
    return result

/-- The value of an evaluation; its error stops the session. -/
def evaluate (m : EvalM α) : SessionM α := do
  match ← tryEvaluate m with
  | .ok a => return a
  | .error e => throw (.runtime e)

def writeConsole (text : String) : SessionM Unit :=
  modify fun s => { s with console := s.console ++ text }

/-- Evaluates every form of a text; the value of the last one. -/
def loadSource (source : String) : SessionM Value := evaluate (EvalM.evalSource source)

def loadFile (path : String) : SessionM Value := do
  let source ← evaluate (EvalM.readFile path)
  loadSource source

/-- Loads files in turn, by their paths from a directory. -/
def preload (directory : String) : List String → SessionM Unit
  | [] => return ()
  | file :: rest => do
    let _ ← loadFile (joinPath directory file)
    preload directory rest

end SessionM

namespace Session

/-- A session with the library and nothing done yet. -/
def new (config : EngineConfig) (files : Files) : Session :=
  { interpreter := .withLibrary config files }

end Session

end Multimethod
