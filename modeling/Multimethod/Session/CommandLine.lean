import Multimethod.Session.Basic

/-!
# The command line

Options come first. The words after them say what to run: files and expressions in order, then the
interactive loop, unless the words end with a file or an expression. Words left over are bound to
`arguments`.
-/

namespace Multimethod

structure Options where
  /-- The settings file to read instead of the one in the working directory. -/
  config : Option String := none
  log : LogSettings := {}
  /-- The words after the options. -/
  words : List String := []
  deriving DecidableEq, Repr

namespace Options

/-- Takes in options from the front of the arguments; none if help is asked for. -/
def parseFrom (options : Options) : List String → Except CommandError (Option Options)
  | [] => .ok (some options)
  | "-h" :: _ => .ok none
  | "--help" :: _ => .ok none
  | ["--config"] => .error (.missingValue "--config")
  | ["--log-level"] => .error (.missingValue "--log-level")
  | ["--log-format"] => .error (.missingValue "--log-format")
  | "--config" :: path :: rest => parseFrom { options with config := some path } rest
  | "--log-level" :: spec :: rest =>
    match LogLevel.ofText? spec with
    | some level => parseFrom { options with log := { options.log with level := some level } } rest
    | none => .error (.unknownLogLevel spec)
  | "--log-format" :: spec :: rest =>
    match LogFormat.ofText? spec with
    | some format => parseFrom { options with log := { options.log with format := some format } } rest
    | none => .error (.unknownLogFormat spec)
  | words => .ok (some { options with words })

def parse (args : List String) : Except CommandError (Option Options) := parseFrom {} args

def help : String := "sioc: symbolic-expression interpreter

Usage:
  sioc [--config PATH] [--log-level LEVEL] [--log-format text|json]
       [-f FILE | -e EXPR]... [-i] [ARGS...]

Options:
  -f FILE              evaluate every form in FILE
  -e EXPR              evaluate every form in EXPR
  -i                   start the interactive loop now
  --config PATH        read settings from PATH instead of ./sioc.toml
  --log-level LEVEL    error, warn, info, debug or trace
  --log-format FORMAT  text or json
  -h, --help           show this message

With no -f or -e, or with words left after them, the interactive loop starts
with those words bound to `arguments`.
"

end Options

namespace CommandWords

/-- What follows once the words are run. -/
inductive Next where
  | quit
  | interact
  deriving DecidableEq, Repr

def bindArguments (words : List String) : SessionM Unit :=
  SessionM.evaluate (EvalM.rebind (·.set "arguments" (.list (words.map .text))))

/-- Runs words in order; `hasRun` if a file or an expression was run before. -/
def runFrom (hasRun : Bool) : List String → SessionM Next
  | "-f" :: path :: rest => do
    bindArguments rest
    let _ ← SessionM.loadFile path
    runFrom true rest
  | "-e" :: expr :: rest => do
    bindArguments rest
    let _ ← SessionM.loadSource expr
    runFrom true rest
  | ["-f"] => throw (.command (.missingOperand "-f"))
  | ["-e"] => throw (.command (.missingOperand "-e"))
  | "-i" :: rest => do
    bindArguments rest
    return .interact
  | [] => do
    if hasRun then return .quit
    bindArguments []
    return .interact
  | word :: rest => do
    if word.toList.head? = some '-' then throw (.command (.badFlag word))
    bindArguments (word :: rest)
    return .interact

def run (words : List String) : SessionM Next := runFrom false words

end CommandWords

end Multimethod
