import Multimethod.Library.Arguments
import Multimethod.Reader.Source

/-!
# Printing, reading and evaluating

Procedures that print values or give their texts, read and evaluate texts, load files and import
scopes. Those that need the interpreter have it as their receiver.
-/

namespace Multimethod.Library

/-- Prints a text of a value. -/
def printer (name : String) (text : Value → String) : Member :=
  (Member.function name [.any] .null <| unary name fun v => .ask (.write (text v))).withReceiver

/-- Gives a text of a value. -/
def renderer (name : String) (text : Value → String) : Member :=
  .function name [.any] .text <| unary name fun v => .give (.text (text v))

def printing : List Member :=
  [printer "display" Value.display,
   printer "write" Value.write,
   printer "print" Value.write,
   (Member.function "newline" [] .null fun _ => .ask (.write "\n")).withReceiver,
   renderer "display-to-string" Value.display,
   renderer "print-to-string" Value.write]

/-- The first datum of a text, null if there is none. -/
def firstDatum (source : String) : Action :=
  match (Reader.read source.toList).1 with
  | none => .give .null
  | some (.ok v) => .give v
  | some (.error e) => .fail (.syntactic e)

/-- A native that takes a text. -/
def onText (name wanted : String) (f : String → Action) : Native :=
  unary name fun v =>
    match v with
    | .text s => f s
    | _ => wrongKind name wanted v

def evaluation : List Member :=
  [(Member.function "eval" [.any] .any <| unary "eval" fun v => .ask (.eval v)).withReceiver,
   .function "read-from-string" [.text] .any <| onText "read-from-string" "a string" firstDatum,
   (Member.function "load" [.text] .any <|
     onText "load" "a path" fun path => .ask (.load path)).withReceiver,
   (Member.function "load-from-string" [.text] .any <|
     onText "load-from-string" "a string" fun source => .ask (.evalSource source)).withReceiver,
   (Member.function "import" [.text] .null <|
     onText "import" "a type name" fun scope => .ask (.importScope scope none)).withReceiver,
   (Member.function "import" [.text, .text] .null <| binary "import" fun a b =>
     match a, b with
     | .text scope, .text qualifier => .ask (.importScope scope (some qualifier))
     | _, _ => wrongKind "import" "a type name and a prefix" a).withReceiver]

end Multimethod.Library
