import Multimethod.Text.Blank
import Multimethod.Text.Hex
import Multimethod.Decimal.Notation

/-!
# Settings documents

The part of TOML that settings files use: `[table]` headers, `key = value` lines and comments. A
value is a quoted string, a whole number, a float, a truth value or an array of values; keys and
headers may be dotted. A document is read as a list of values by path. It is an error to give a
key or a table twice, or to use a value as a table.
-/

namespace Multimethod.Toml

/-- A value. What a float is does not matter to any setting. -/
inductive Item where
  | string (s : String)
  | integer (n : Int)
  | float
  | boolean (b : Bool)
  | array (items : List Item)

/-- The keys that lead to a value or a table. -/
abbrev Path := List String

structure Document where
  /-- The values that were given, by path. -/
  values : List (Path × Item) := []
  /-- The tables that have a header. -/
  headers : List Path := []
  /-- The tables that dotted keys made. -/
  dotted : List Path := []

/-! ## Tokens -/

/-- A piece of notation. -/
inductive Token where
  | newline
  | opening
  | closing
  | equals
  | comma
  | string (s : String)
  | word (cs : List Char)
  deriving DecidableEq

/-- What the characters at hand belong to; those read so far stand last one first. -/
inductive LexMode where
  | between
  | carriage
  | comment
  | word (read : List Char)
  /-- Between double quotes. -/
  | basic (read : List Char)
  | basicEscape (read : List Char)
  /-- Among the `left` digits of a code point that are still to come. -/
  | basicCode (read : List Char) (left : Nat) (digits : List Char)
  /-- Between single quotes, where nothing is escaped. -/
  | literal (read : List Char)

/-- May the character stand in a bare key or a number? -/
def isWordChar (c : Char) : Bool := c.isAlphanum || c = '_' || c = '-' || c = '+' || c = '.'

/-- May the character stand in a string or a comment? -/
def isPlainChar (c : Char) : Bool := c = '\t' || !(c.toNat < 0x20 || c.toNat = 0x7f)

/-- The character of a one-letter escape. -/
def escaped? : Char → Option Char
  | 'b' => some '\x08'
  | 't' => some '\t'
  | 'n' => some '\n'
  | 'e' => some '\x1b'
  | 'f' => some '\x0c'
  | 'r' => some '\r'
  | '"' => some '"'
  | '\\' => some '\\'
  | _ => none

/-- A character where a token may begin. -/
def lexBetween (c : Char) : Option (LexMode × List Token) :=
  match c with
  | ' ' | '\t' => some (.between, [])
  | '\n' => some (.between, [.newline])
  | '\r' => some (.carriage, [])
  | '#' => some (.comment, [])
  | '[' => some (.between, [.opening])
  | ']' => some (.between, [.closing])
  | '=' => some (.between, [.equals])
  | ',' => some (.between, [.comma])
  | '"' => some (.basic [], [])
  | '\'' => some (.literal [], [])
  | _ => if isWordChar c then some (.word [c], []) else none

/-- The token of a string read to its end. -/
def stringToken (read : List Char) : Token := .string (String.ofList read.reverse)

/-- One character; none if it cannot stand there. -/
def lexStep (mode : LexMode) (c : Char) : Option (LexMode × List Token) :=
  match mode with
  | .between => lexBetween c
  | .carriage => if c = '\n' then some (.between, [.newline]) else none
  | .comment =>
    if c = '\n' then some (.between, [.newline])
    else if c = '\r' then some (.carriage, [])
    else if isPlainChar c then some (.comment, [])
    else none
  | .word read =>
    if isWordChar c then some (.word (c :: read), [])
    else (lexBetween c).map fun (mode, tokens) => (mode, .word read.reverse :: tokens)
  | .basic read =>
    if c = '"' then some (.between, [stringToken read])
    else if c = '\\' then some (.basicEscape read, [])
    else if isPlainChar c then some (.basic (c :: read), [])
    else none
  | .basicEscape read =>
    if c = 'x' then some (.basicCode read 2 [], [])
    else if c = 'u' then some (.basicCode read 4 [], [])
    else if c = 'U' then some (.basicCode read 8 [], [])
    else (escaped? c).map fun d => (.basic (d :: read), [])
  | .basicCode read left digits =>
    if (Text.hexValue? c).isNone then none
    else if 1 < left then some (.basicCode read (left - 1) (c :: digits), [])
    else (Text.charOfHex? (c :: digits).reverse).map fun d => (.basic (d :: read), [])
  | .literal read =>
    if c = '\'' then some (.between, [stringToken read])
    else if isPlainChar c then some (.literal (c :: read), [])
    else none

/-- The tokens of a text, a newline after the last one; none if some character cannot stand where
it does. -/
def tokens? (mode : LexMode) : List Char → Option (List Token)
  | [] =>
    match mode with
    | .between | .comment => some [.newline]
    | .word read => some [.word read.reverse, .newline]
    | _ => none
  | c :: cs =>
    match lexStep mode c with
    | none => none
    | some (mode, tokens) => (tokens? mode cs).map (tokens ++ ·)

/-! ## Values -/

/-- Digits in which single underscores may stand between two digits. -/
def digits? (isDigit : Char → Bool) (cs : List Char) : Option (List Char) :=
  let groups := cs.splitOn '_'
  if groups.all fun group => !group.isEmpty && group.all isDigit then some groups.flatten else none

/-- Decimal digits of a whole number, which has no leading zero. -/
def wholeDigits? (cs : List Char) : Option (List Char) :=
  match digits? Char.isDigit cs with
  | some ('0' :: _ :: _) => none
  | other => other

/-- The base that a whole number without a sign names, and its digits. -/
def splitBase? : List Char → Option (Nat × List Char)
  | '0' :: 'x' :: rest => some (16, rest)
  | '0' :: 'o' :: rest => some (8, rest)
  | '0' :: 'b' :: rest => some (2, rest)
  | _ => none

/-- The number that digits of a base stand for. -/
def basedValue (base : Nat) (cs : List Char) : Nat :=
  cs.foldl (fun n c => base * n + (Text.hexValue? c).getD 0) 0

/-- A whole number in decimal, or without a sign in a base that it names. -/
def wholeNumber? (cs : List Char) : Option Int :=
  match splitBase? cs with
  | some (base, rest) =>
    (digits? (fun c => (Text.hexValue? c).any (· < base)) rest).map (basedValue base ·)
  | none =>
    let (negative, body) := Decimal.splitSign cs
    (wholeDigits? body).map fun digits =>
      let n := Decimal.digitsValue digits
      if negative then -(n : Int) else n

/-- A whole number of sixty-four bits. -/
def integer? (cs : List Char) : Option Int :=
  (wholeNumber? cs).filter fun n => Int64.minValue.toInt ≤ n && n ≤ Int64.maxValue.toInt

/-- Is this an exponent, or nothing? -/
def isExponent : List Char → Bool
  | [] => true
  | c :: rest => (c = 'e' || c = 'E') && (digits? Char.isDigit (Decimal.splitSign rest).2).isSome

def isFloat (cs : List Char) : Bool :=
  let body := (Decimal.splitSign cs).2
  let isPower (c : Char) : Bool := c = 'e' || c = 'E'
  let whole := body.takeWhile fun c => c ≠ '.' && !isPower c
  if body = "inf".toList || body = "nan".toList then true
  else (wholeDigits? whole).isSome &&
    match body.drop whole.length with
    | '.' :: rest =>
      (digits? Char.isDigit (rest.takeWhile (!isPower ·))).isSome && isExponent (rest.dropWhile (!isPower ·))
    | rest => isExponent rest

def wordItem? (cs : List Char) : Option Item :=
  if cs = "true".toList then some (.boolean true)
  else if cs = "false".toList then some (.boolean false)
  else match integer? cs with
    | some n => some (.integer n)
    | none => if isFloat cs then some .float else none

/-- The value at the start of a row of tokens, and what follows it. The arrays that are open stand
innermost first, their items last one first; `wanted` if an item may stand here. -/
def item? (wanted : Bool) (arrays : List (List Item)) : List Token → Option (Item × List Token)
  | [] => none
  | token :: rest =>
    let value? := match token with
      | .string s => if wanted then some (Item.string s) else none
      | .word cs => if wanted then wordItem? cs else none
      | .closing => arrays.head?.map fun items => .array items.reverse
      | _ => none
    let outer := if token = .closing then arrays.tail else arrays
    match value?, outer with
    | some value, [] => some (value, rest)
    | some value, items :: outer => item? false ((value :: items) :: outer) rest
    | none, _ =>
      match token with
      | .newline => if arrays.isEmpty then none else item? wanted arrays rest
      | .opening => if wanted then item? true ([] :: arrays) rest else none
      | .comma => if wanted || arrays.isEmpty then none else item? true arrays rest
      | _ => none

/-! ## Documents -/

/-- The keys that a token spells: one in quotes, or bare ones with dots between them. -/
def keys? : Token → Option Path
  | .string s => some [s]
  | .word cs =>
    let parts := cs.splitOn '.'
    if parts.any fun part => part.isEmpty || part.contains '+' then none
    else some (parts.map String.ofList)
  | _ => none

namespace Document

/-- Does the document have a value at the path or on the way there? -/
def valueOnPath (d : Document) (path : Path) : Bool :=
  d.values.any fun (place, _) => place.isPrefixOf path

def hasTable (d : Document) (path : Path) : Bool :=
  d.headers.any path.isPrefixOf ||
    d.values.any fun (place, _) => path.isPrefixOf place && place ≠ path

/-- Opens the table at a path. -/
def addHeader? (d : Document) (path : Path) : Option Document :=
  if path ∈ d.headers || path ∈ d.dotted || d.valueOnPath path then none
  else some { d with headers := path :: d.headers }

/-- The tables between a table and the end of a dotted path in it. -/
def between (table keys : Path) : List Path :=
  (List.range (keys.length - 1)).map fun n => table ++ keys.take (n + 1)

/-- Gives a value to a key of a table. -/
def addValue? (d : Document) (table keys : Path) (item : Item) : Option Document :=
  let path := table ++ keys
  let made := between table keys
  if d.valueOnPath path || d.hasTable path || made.any (· ∈ d.headers) then none
  else some { d with values := (path, item) :: d.values, dotted := made ++ d.dotted }

/-- Reads the lines of a document, of which there are at most `lines`, within a table. -/
def ofTokens? : (lines : Nat) → (table : Path) → Document → List Token → Option Document
  | _, _, d, [] => some d
  | 0, _, _, _ => none
  | lines + 1, table, d, tokens =>
    match tokens with
    | .newline :: rest => ofTokens? lines table d rest
    | .opening :: name :: .closing :: .newline :: rest =>
      match keys? name with
      | some path => (d.addHeader? path).bind (ofTokens? lines path · rest)
      | none => none
    | name :: .equals :: rest =>
      match keys? name, item? true [] rest with
      | some keys, some (item, .newline :: rest) =>
        (d.addValue? table keys item).bind (ofTokens? lines table · rest)
      | _, _ => none
    | _ => none

/-- A text without the byte order mark that it may begin with. -/
def withoutMark : List Char → List Char
  | '\uFEFF' :: cs => cs
  | cs => cs

/-- The document that a text writes. -/
def parse? (text : String) : Option Document :=
  match tokens? .between (withoutMark text.toList) with
  | some tokens => ofTokens? tokens.length [] {} tokens
  | none => none

def value? (d : Document) (path : Path) : Option Item :=
  (d.values.find? (·.1 = path)).map (·.2)

end Document

end Multimethod.Toml
