import Multimethod.Text.Blank
import Multimethod.Text.Hex
import Multimethod.Decimal.Notation
import Multimethod.Reader.Error
import Multimethod.Value.Basic

/-!
# Tokens

What a finished run of characters stands for: atoms are truth values, numbers or symbols, and
`#\` introduces a character by itself, by name or by code point.
-/

namespace Multimethod

/-- A piece of notation as lists see it. -/
inductive Token where
  | datum (value : Value)
  | close
  | dot

namespace Token

/-- Does the character end an atom? -/
def isBreak (c : Char) : Bool := Text.isBlank c || c = '(' || c = ')' || c = '"'

/-- The number that an atom writes. Whole numbers take the narrowest width that holds them, and
those that no width holds become doubles. -/
def number? (text : List Char) : Option Value :=
  match text with
  | first :: _ =>
    if first = '-' || first = '.' || first.isDigit then
      match Decimal.int64? text with
      | some n =>
        if Int32.minValue.toInt ≤ n.toInt ∧ n.toInt ≤ Int32.maxValue.toInt then some (.int n.toInt32)
        else some (.long n)
      | none => (Decimal.double? text).map .double
    else none
  | [] => none

/-- What an atom without escapes stands for. -/
def ofAtom (text : List Char) : Token :=
  if text = ['.'] then .dot
  else if text = "#t".toList ∨ text = "#true".toList ∨ text = "#T".toList then .datum (.bool true)
  else if text = "#f".toList ∨ text = "#false".toList ∨ text = "#F".toList then .datum (.bool false)
  else .datum ((number? text).getD (.symbol (String.ofList text)))

/-- The characters that have names, in small letters. -/
def characterNames : List (String × Char) :=
  [("space", ' '), ("newline", '\n'), ("linefeed", '\n'), ("tab", '\t'), ("return", '\r'),
   ("nul", '\x00'), ("null", '\x00'), ("alarm", '\x07'), ("backspace", '\x08'),
   ("escape", '\x1b'), ("altmode", '\x1b'), ("delete", '\x7f'), ("rubout", '\x7f')]

/-- The character written as `x` and its code point. -/
def hexCharacter? : List Char → Option Char
  | 'x' :: digits | 'X' :: digits => Text.charOfHex? digits
  | _ => none

/-- The character with this name; ASCII capitals count as small letters. -/
def namedCharacter? (name : List Char) : Option Char :=
  (characterNames.find? (·.1.toList = name.map Char.toLower)).map (·.2)

/-- The character that the characters after `#\` stand for. -/
def character (name : List Char) : Except SyntaxError Char :=
  match name with
  | [c] => .ok c
  | _ => match hexCharacter? name <|> namedCharacter? name with
    | some c => .ok c
    | none => .error (.unknownCharacter (String.ofList name))

/-- The character that an escape letter inside quotes stands for, code points apart. -/
def escaped : Char → Char
  | 'n' => '\n'
  | 't' => '\t'
  | 'r' => '\r'
  | 'a' => '\x07'
  | '0' => '\x00'
  | c => c

end Token

end Multimethod
