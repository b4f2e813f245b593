import Multimethod.Session.CommandLine
import Multimethod.Session.Repl

/-!
# The program

A run of the program reads its options and settings, loads what the settings name, runs its words
and then perhaps the interactive loop. It ends with an exit code; an error that stops it is the
last line on the console.
-/

namespace Multimethod.Program

/-- What a run has come to. -/
structure Report where
  failed : Bool := false
  /-- What programs printed. -/
  printed : String := ""
  /-- What appeared on the console. -/
  console : String := ""
  deriving DecidableEq, Repr

def Report.exitCode (r : Report) : Nat := if r.failed then 1 else 0

/-- A run that goes on with the interactive loop, or one that has ended. -/
inductive Stage where
  | interacting (session : Session)
  | ended (report : Report) (session : Option Session)

/-- The end of a run after an error; `session` is what it had come to. -/
def stopped (e : SessionError) (session : Option Session) : Stage :=
  .ended
    { failed := true
      printed := (session.map (·.interpreter.output.written)).getD ""
      console := (session.map (·.console)).getD "" ++ e.report ++ "\n" }
    session

/-- The end of a run without an error. -/
def completed (s : Session) : Stage :=
  .ended { printed := s.interpreter.output.written, console := s.console } (some s)

/-- The settings of a run, and the directory from which they name files. A settings file that is
not named on the command line is the one in the working directory, if there is one. -/
def settingsFor (options : Options) (files : Files) : Except SessionError (Settings × String) :=
  let path := options.config <|> Settings.find? files files.base
  let directory := (path.bind parentPath?).getD files.base
  (Settings.load files path).map (·, directory)

/-- The files that a run may read before its session begins. -/
def firstFiles (args : List String) (base : String) : List String :=
  match Options.parse args with
  | .ok (some options) => [options.config.getD (joinPath base Settings.fileName)]
  | _ => []

/-- What a run does before the interactive loop. -/
def opening (settings : Settings) (directory : String) (words : List String) :
    SessionM CommandWords.Next := do
  SessionM.preload directory settings.preload
  let next ← CommandWords.run words
  if next = .interact then Repl.start
  return next

/-- Starts a run; none if an evaluation lacks depth. -/
def start (args : List String) (files : Files) : Option Stage :=
  match Options.parse args with
  | .error e => some (stopped (.command e) none)
  | .ok none => some (.ended { printed := Options.help } none)
  | .ok (some options) =>
    match settingsFor options files with
    | .error e => some (stopped e none)
    | .ok (settings, directory) =>
      match (opening settings directory options.words).runFrom (.new settings.engine files) with
      | none => none
      | some (.error e, s) => some (stopped e (some s))
      | some (.ok .quit, s) => some (completed s)
      | some (.ok .interact, s) => some (.interacting s)

/-- Goes on with a part of the interactive loop. -/
def advance (m : SessionM Unit) : Stage → Option Stage
  | .interacting s =>
    match m.runFrom s with
    | none => none
    | some (.error e, s) => some (stopped e (some s))
    | some (.ok (), s) => some (.interacting s)
  | stage => some stage

/-- The paths of the files that a run has asked for in its session. -/
def Stage.asked : Stage → List String
  | .interacting s | .ended _ (some s) => s.interpreter.asked
  | .ended _ none => []

def Stage.report : Stage → Report
  | .interacting s => { printed := s.interpreter.output.written, console := s.console }
  | .ended report _ => report

/-- A whole run with its input. -/
def run (args : List String) (input : InputLines) (files : Files) : Option Report :=
  match start args files with
  | none => none
  | some stage => do
    let stage ← advance (Repl.lines input) stage
    return (← advance Repl.finish stage).report

end Multimethod.Program
