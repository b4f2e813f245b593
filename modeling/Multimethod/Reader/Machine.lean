import Multimethod.Reader.Token

/-!
# The reader

Reading is done by a machine that takes one character at a time. Its mode says what the characters
of the current token are; its stack holds the lists and marks that are still open. Each step goes
on, or ends the call with a datum or an error. A token that only its successor ends leaves that
character unread. `read` runs the machine once, `readAll` to the end of the text.
-/

namespace Multimethod.Reader

/-- A list or a mark that is still open. -/
inductive Frame where
  /-- A list with the items read so far, the last one first. -/
  | list (items : List Value)
  /-- A list whose last token was a dot. -/
  | afterDot (items : List Value)
  /-- A mark whose datum is still to come. -/
  | marked (mark : Mark)

/-- What the characters at hand belong to. Characters read so far stand last one first. -/
inductive Mode where
  | between
  | lineComment
  | hash
  | comma
  /-- Inside quotes that end at `delimiter`. -/
  | quoted (delimiter : Char) (read : List Char)
  /-- After a backslash inside quotes. -/
  | quotedEscape (delimiter : Char) (read : List Char)
  /-- Among the digits of a code point inside quotes. -/
  | quotedHex (delimiter : Char) (read digits : List Char)
  | characterStart
  | character (read : List Char)
  /-- Inside an atom, which has had an escape or not. -/
  | atom (read : List Char) (hasEscape : Bool)
  /-- After a backslash inside an atom. -/
  | atomEscape (read : List Char)

/-- A datum or an error. -/
abbrev Outcome := Except SyntaxError Value

/-- What a step comes to. -/
inductive Step where
  | more (mode : Mode) (stack : List Frame)
  /-- The call ends, and the character is read. -/
  | consumed (outcome : Outcome)
  /-- The call ends, and the character is left for the next one. -/
  | kept (outcome : Outcome)

/-! ## Tokens and the stack -/

/-- What handing a token to the stack comes to. -/
inductive Delivery where
  | pending (stack : List Frame)
  | finished (outcome : Outcome)

/-- Hands a datum to the innermost open list or mark; it is the result if nothing is open. -/
def deliverDatum (v : Value) : List Frame → Delivery
  | [] => .finished (.ok v)
  | .list items :: stack => .pending (.list (v :: items) :: stack)
  | .afterDot items :: stack =>
    match v with
    | .list tail => .pending (.list (tail.reverse ++ items) :: stack)
    | _ => .pending (.list (v :: .symbol "." :: items) :: stack)
  | .marked mark :: stack =>
    match mark.head? with
    | some head => deliverDatum (.list [.symbol head, v]) stack
    | none => .pending stack

/-- Closes the innermost list. -/
def deliverClose : List Frame → Delivery
  | [] => .finished (.error .unexpectedClose)
  | .list items :: stack => deliverDatum (.list items.reverse) stack
  | .afterDot items :: stack => deliverDatum (.list (.symbol "." :: items).reverse) stack
  | .marked mark :: _ => .finished (.error (.closeAfter mark))

/-- Hands a dot to the innermost open list. -/
def deliverDot : List Frame → Delivery
  | [] => .finished (.error .unexpectedDot)
  | .list items :: stack => .pending (.afterDot items :: stack)
  | .afterDot items :: stack => .pending (.list (.symbol "." :: .symbol "." :: items) :: stack)
  | .marked mark :: _ => .finished (.error (.dotAfter mark))

def deliver : Token → List Frame → Delivery
  | .datum v => deliverDatum v
  | .close => deliverClose
  | .dot => deliverDot

/-- What the end of the text means for what is still open. -/
def endOfText : List Frame → Option Outcome
  | [] => none
  | .list _ :: _ | .afterDot _ :: _ => some (.error .endInList)
  | .marked mark :: _ => some (.error (.endAfter mark))

/-- The token of an atom read to its end. -/
def atomToken (read : List Char) (hasEscape : Bool) : Token :=
  let text := read.reverse
  if hasEscape then .datum (.symbol (String.ofList text)) else Token.ofAtom text

/-- The value of a quoted run of characters. -/
def quotedValue (delimiter : Char) (read : List Char) : Value :=
  let s := String.ofList read.reverse
  if delimiter = '|' then .symbol s else .text s

/-! ## Steps -/

/-- Goes on between tokens unless the delivery ended the call with the character read. -/
def afterToken : Delivery → Step
  | .pending stack => .more .between stack
  | .finished outcome => .consumed outcome

/-- A character where a token may begin. -/
def stepBetween (c : Char) (stack : List Frame) : Step :=
  if Text.isBlank c then .more .between stack
  else match c with
    | ';' => .more .lineComment stack
    | '(' => .more .between (.list [] :: stack)
    | ')' => afterToken (deliverClose stack)
    | '"' => .more (.quoted '"' []) stack
    | '|' => .more (.quoted '|' []) stack
    | '\'' => .more .between (.marked .quote :: stack)
    | '\x60' => .more .between (.marked .quasiquote :: stack)
    | ',' => .more .comma stack
    | '#' => .more .hash stack
    | '\\' => .more (.atomEscape []) stack
    | _ => .more (.atom [c] false) stack

/-- A character after a token that it may end: the token is delivered, and the character begins
the next one unless the call has ended. -/
def stepAfter (delivery : Delivery) (c : Char) : Step :=
  match delivery with
  | .pending stack => stepBetween c stack
  | .finished outcome => .kept outcome

/-- A character after `#`. -/
def stepHash (c : Char) (stack : List Frame) : Step :=
  match c with
  | '(' => .more .between (.list [] :: stack)
  | ';' => .more .between (.marked .datumComment :: stack)
  | '\\' => .more .characterStart stack
  | _ => if Token.isBreak c then .kept (.error .loneHash) else .more (.atom [c, '#'] false) stack

/-- The end of a code point inside quotes. -/
def stepHexEnd (delimiter : Char) (read digits : List Char) (stack : List Frame) : Step :=
  match Text.charOfHex? digits.reverse with
  | some c => .more (.quoted delimiter (c :: read)) stack
  | none => .consumed (.error (.badEscape (String.ofList digits.reverse) true))

/-- The delivery of a character literal read to its end. -/
def deliverCharacter (read : List Char) (stack : List Frame) : Delivery :=
  match Token.character read.reverse with
  | .ok c => deliverDatum (.char c) stack
  | .error e => .finished (.error e)

/-- One character. -/
def step (mode : Mode) (stack : List Frame) (c : Char) : Step :=
  match mode with
  | .between => stepBetween c stack
  | .lineComment => .more (if c = '\n' then .between else .lineComment) stack
  | .hash => stepHash c stack
  | .comma =>
    if c = '@' then .more .between (.marked .unquoteSplicing :: stack)
    else stepBetween c (.marked .unquote :: stack)
  | .quoted delimiter read =>
    if c = delimiter then afterToken (deliverDatum (quotedValue delimiter read) stack)
    else if c = '\\' then .more (.quotedEscape delimiter read) stack
    else .more (.quoted delimiter (c :: read)) stack
  | .quotedEscape delimiter read =>
    if c = 'x' then .more (.quotedHex delimiter read []) stack
    else .more (.quoted delimiter (Token.escaped c :: read)) stack
  | .quotedHex delimiter read digits =>
    if c = ';' then stepHexEnd delimiter read digits stack
    else .more (.quotedHex delimiter read (c :: digits)) stack
  | .characterStart => .more (.character [c]) stack
  | .character read =>
    if Token.isBreak c then stepAfter (deliverCharacter read stack) c
    else .more (.character (c :: read)) stack
  | .atom read hasEscape =>
    if Token.isBreak c then stepAfter (deliver (atomToken read hasEscape) stack) c
    else if c = '\\' then .more (.atomEscape read) stack
    else .more (.atom (c :: read) hasEscape) stack
  | .atomEscape read => .more (.atom (c :: read) true) stack

/-- The end of the text after a delivery. -/
def finishAfter : Delivery → Option Outcome
  | .pending stack => endOfText stack
  | .finished outcome => some outcome

/-- The end of the text; no outcome if nothing was begun. -/
def finish (mode : Mode) (stack : List Frame) : Option Outcome :=
  match mode with
  | .between | .lineComment => endOfText stack
  | .hash => some (.error .loneHash)
  | .comma => some (.error (.endAfter .unquote))
  | .quoted delimiter _ | .quotedEscape delimiter _ => some (.error (.unterminated delimiter))
  | .quotedHex _ _ digits => some (.error (.badEscape (String.ofList digits.reverse) false))
  | .characterStart => some (.error .noCharacter)
  | .character read => finishAfter (deliverCharacter read stack)
  | .atom read hasEscape => finishAfter (deliver (atomToken read hasEscape) stack)
  | .atomEscape _ => some (.error .trailingEscape)

/-! ## Runs -/

/-- Runs the machine to the end of the call: the outcome, none at the end of the text, and the
characters left. -/
def run (mode : Mode) (stack : List Frame) : List Char → Option Outcome × List Char
  | [] => (finish mode stack, [])
  | c :: cs =>
    match step mode stack c with
    | .more mode stack => run mode stack cs
    | .consumed outcome => (some outcome, cs)
    | .kept outcome => (some outcome, c :: cs)

/-- The next datum or error, none at the end of the text, and the characters left. -/
def read (cs : List Char) : Option Outcome × List Char := run .between [] cs

end Multimethod.Reader
