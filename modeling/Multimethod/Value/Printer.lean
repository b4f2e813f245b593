import Multimethod.Text.Blank
import Multimethod.Decimal.Notation
import Multimethod.Value.Basic

/-!
# Printed values

A value has two texts. `Value.display` is for people: characters, texts and symbols stand as they
are. `Value.write` is for the reader: texts are quoted, characters named, and a symbol that would
be read as something else stands between bars.
-/

namespace Multimethod

namespace Value

/-- Characters that may not stand in a symbol without bars. -/
def barredCharacters : List Char := ['(', ')', '"', ';', '\'', '\x60', ',', '|', '\\']

/-- May a token that starts with this character be a number? -/
def startsNumber (c : Char) : Bool := c = '-' || c = '.' || c.isDigit

/-- Would a symbol with this name be read as something else? -/
def needsBars (name : List Char) : Bool :=
  match name with
  | [] => true
  | first :: _ =>
    name = ['.'] || name.any (fun c => Text.isBlank c || barredCharacters.contains c) ||
      first = '#' || (startsNumber first && (Decimal.double? name).isSome)

def writtenChar (c : Char) : List Char :=
  let name := match c with
    | ' ' => "space".toList
    | '\n' => "newline".toList
    | '\t' => "tab".toList
    | '\r' => "return".toList
    | '\x00' => "nul".toList
    | _ => if Text.isControl c then 'x' :: Text.shortHex c.toNat else [c]
  '#' :: '\\' :: name

/-- A character inside a quoted text. -/
def escapedInText : Char → List Char
  | '"' => ['\\', '"']
  | '\\' => ['\\', '\\']
  | '\n' => ['\\', 'n']
  | '\t' => ['\\', 't']
  | '\r' => ['\\', 'r']
  | c => [c]

/-- A character between bars. -/
def escapedInBars (c : Char) : List Char := if c = '|' ∨ c = '\\' then ['\\', c] else [c]

def writtenText (s : List Char) : List Char := '"' :: s.flatMap escapedInText ++ ['"']

def writtenSymbol (name : List Char) : List Char :=
  if needsBars name then '|' :: name.flatMap escapedInBars ++ ['|'] else name

mutual

/-- The characters of a value's text, written for the reader or not. -/
def chars (written : Bool) : Value → List Char
  | null => "null".toList
  | bool true => "#t".toList
  | bool false => "#f".toList
  | char c => if written then writtenChar c else [c]
  | int n => Decimal.integerText n.toInt
  | long n => Decimal.integerText n.toInt
  | double x => Decimal.doubleText x
  | text s => if written then writtenText s.toList else s.toList
  | symbol name => if written then writtenSymbol name.toList else name.toList
  | list items => '(' :: itemChars written items ++ [')']
  | procedure callable => "#<procedure ".toList ++ callable.name.toList ++ ['>']
  | host object => "#<".toList ++ object.typeName.toList ++ ['>']

/-- The texts of values with a space between each two. -/
def itemChars (written : Bool) : List Value → List Char
  | [] => []
  | [v] => chars written v
  | v :: w :: rest => chars written v ++ ' ' :: itemChars written (w :: rest)

end

/-- The text of a value for people. -/
def display (v : Value) : String := String.ofList (v.chars false)

/-- The text of a value for the reader. -/
def write (v : Value) : String := String.ofList (v.chars true)

end Value

end Multimethod
