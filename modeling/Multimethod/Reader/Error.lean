/-!
# Errors of reading

Why a text is not a row of data. An error is incomplete when the text broke off inside a datum, so
that more text may complete it.
-/

namespace Multimethod

/-- A mark that needs a datum after it. -/
inductive Mark where
  | quote
  | quasiquote
  | unquote
  | unquoteSplicing
  /-- The mark that drops the datum after it. -/
  | datumComment
  deriving DecidableEq, Repr

namespace Mark

def text : Mark → String
  | quote => "'"
  | quasiquote => "`"
  | unquote => ","
  | unquoteSplicing => ",@"
  | datumComment => "#;"

/-- The symbol that stands before the marked datum in the list they make; a comment makes none. -/
def head? : Mark → Option String
  | quote => some "quote"
  | quasiquote => some "quasiquote"
  | unquote => some "unquote"
  | unquoteSplicing => some "unquote-splicing"
  | datumComment => none

end Mark

/-- What is wrong with a text. -/
inductive SyntaxError where
  | unexpectedClose
  | unexpectedDot
  | endAfter (mark : Mark)
  | closeAfter (mark : Mark)
  | dotAfter (mark : Mark)
  | endInList
  /-- The text ends before this delimiter. -/
  | unterminated (delimiter : Char)
  /-- A code point that is none; `closed` if a semicolon ends it. -/
  | badEscape (digits : String) (closed : Bool)
  | loneHash
  /-- The text ends where a character should be. -/
  | noCharacter
  | unknownCharacter (name : String)
  | trailingEscape
  deriving DecidableEq, Repr

namespace SyntaxError

def message : SyntaxError → String
  | unexpectedClose => "unexpected )"
  | unexpectedDot => "unexpected ."
  | endAfter mark => "unexpected end of input after " ++ mark.text
  | closeAfter mark => "unexpected ) after " ++ mark.text
  | dotAfter mark => "unexpected . after " ++ mark.text
  | endInList => "unexpected end of input in list"
  | unterminated delimiter => "unterminated " ++ delimiter.toString
  | badEscape digits closed => "bad escape \\x" ++ digits ++ (if closed then ";" else "")
  | loneHash => "#"
  | noCharacter => "#\\"
  | unknownCharacter name => "unknown character #\\" ++ name
  | trailingEscape => "trailing \\"

/-- May more text after the end mend the error? -/
def isIncomplete : SyntaxError → Bool
  | endAfter _ | endInList | unterminated _ => true
  | _ => false

end SyntaxError

end Multimethod
