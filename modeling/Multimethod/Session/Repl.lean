import Multimethod.Session.CommandLine

/-!
# The interactive loop

Lines gather until they make whole forms, which are then evaluated in order; each value is printed
and each error reported on the console. Lines that no further line can complete are reported and
dropped. The banner, the prompt and the trailer are variables of the language.
-/

namespace Multimethod

/-- Lines of input; one that is no text has none. -/
abbrev InputLines := List (Option String)

namespace InputLines

/-- A line without the carriage return that may stand before its end. -/
def withoutReturn (line : List Char) : List Char :=
  if line.getLast? = some '\r' then line.dropLast else line

/-- The lines of a text. What follows the last line end is a line unless it is empty, and keeps a
carriage return. -/
def split : (read : List Char) → List Char → List (List Char)
  | read, [] => if read.isEmpty then [] else [read.reverse]
  | read, c :: cs => if c = '\n' then withoutReturn read.reverse :: split [] cs else split (c :: read) cs

def ofText (text : String) : InputLines := (split [] text.toList).map fun line => some (String.ofList line)

/-- A line of bytes without the carriage return that may stand before its end. -/
def bytesWithoutReturn (line : List UInt8) : List UInt8 :=
  if line.getLast? = some 13 then line.dropLast else line

def splitBytes : (read : List UInt8) → List UInt8 → List (List UInt8)
  | read, [] => if read.isEmpty then [] else [read.reverse]
  | read, b :: bs =>
    if b = 10 then bytesWithoutReturn read.reverse :: splitBytes [] bs else splitBytes (b :: read) bs

/-- The lines of a row of bytes, each a text or none. -/
def ofBytes (bytes : ByteArray) : InputLines :=
  match String.fromUTF8? bytes with
  | some text => ofText text
  | none => (splitBytes [] bytes.toList).map fun line => String.fromUTF8? ⟨line.toArray⟩

end InputLines

namespace Repl

/-- The variables of the loop with their defaults. -/
def defaults : List (String × String) :=
  [("banner", ";; SIOC"), ("trailer", ";; exit\n"), ("prompt", "\n> ")]

/-- Binds the variables that are not bound or removed yet. -/
def bindVariables : List (String × String) → EvalM Unit
  | [] => return ()
  | (name, text) :: rest => do
    EvalM.rebind (·.setDefault name (.text text))
    bindVariables rest

/-- Writes a variable on the console; one that has no value is not written. -/
def writeVariable (name : String) : SessionM Unit := do
  match ← SessionM.tryEvaluate (EvalM.valueOf name) with
  | .ok value => SessionM.writeConsole value.display
  | .error _ => return ()

def reportError (e : RuntimeError) : SessionM Unit :=
  SessionM.writeConsole ("error: " ++ e.report ++ "\n")

/-- Evaluates forms in turn, printing values and reporting errors. -/
def evaluateForms : List Value → SessionM Unit
  | [] => return ()
  | form :: rest => do
    match ← SessionM.tryEvaluate (EvalM.eval form) with
    | .ok value => SessionM.evaluate (EvalM.write value.write)
    | .error e => reportError e
    evaluateForms rest

/-- Starts the loop: the banner and the first prompt. -/
def start : SessionM Unit := do
  SessionM.evaluate (bindVariables defaults)
  writeVariable "banner"
  writeVariable "prompt"

/-- What gathered lines come to. -/
inductive Gathered where
  /-- They make whole forms. -/
  | forms (values : List Value)
  /-- Further lines may complete them. -/
  | incomplete
  /-- No further line can complete them. -/
  | wrong (error : SyntaxError)

/-- What gathered lines come to, read from the first one on. -/
def gather (pending : List Char) : Gathered :=
  match Reader.readAll pending with
  | .ok values => .forms values
  | .error e => if e.isIncomplete then .incomplete else .wrong e

/-- The lines gathered so far with one more. -/
def addLine (pending : List Char) (line : String) : List Char := pending ++ line.toList ++ ['\n']

def setPending (pending : List Char) : SessionM Unit := modify fun s => { s with pending }

def line (input : Option String) : SessionM Unit := do
  match input with
  | none => throw (.runtime (.io (.unnamed .notText)))
  | some text =>
    let pending := addLine (← get).pending text
    match gather pending with
    | .forms values =>
      setPending []
      evaluateForms values
      writeVariable "prompt"
    | .incomplete => setPending pending
    | .wrong e =>
      reportError (.syntactic e)
      setPending []
      writeVariable "prompt"

def lines : InputLines → SessionM Unit
  | [] => return ()
  | input :: rest => do
    line input
    lines rest

/-- Ends the loop. -/
def finish : SessionM Unit := writeVariable "trailer"

/-- The whole loop over some input. -/
def run (input : InputLines) : SessionM Unit := do
  start
  lines input
  finish

end Repl

/-- Runs words in order, and then the interactive loop if it is to follow. -/
def CommandWords.runThenInteract (words : List String) (input : InputLines) : SessionM Unit := do
  match ← CommandWords.run words with
  | .quit => return ()
  | .interact => Repl.run input

end Multimethod
