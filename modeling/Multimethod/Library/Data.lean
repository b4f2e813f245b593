import Multimethod.Library.Arguments

/-!
# Lists, symbols and tests of kind

Procedures that build lists, turn symbols into texts and back, and ask for the kind of a value.
-/

namespace Multimethod.Library

/-- A test of a value. -/
def test (name : String) (p : Value → Bool) : Member :=
  .function name [.any] .bool <| unary name fun v => .give (.bool (p v))

def isNull : Value → Bool
  | .null => true
  | _ => false

def isSymbol : Value → Bool
  | .symbol _ => true
  | _ => false

def lists : List Member :=
  [.function "list" [.any, .any] .list fun args => .give (.list args),
   (Member.function "list" [.rest] .list <| unary "list" .give).variadic,
   test "null?" isNull,
   test "procedure?" Value.isProcedure]

def symbols : List Member :=
  [.function "symbol->string" [.symbol] .text <| unary "symbol->string" fun v =>
     match v with
     | .symbol name => .give (.text name)
     | _ => wrongKind "symbol->string" "a symbol" v,
   .function "string->symbol" [.text] .symbol <| unary "string->symbol" fun v =>
     match v with
     | .text s => .give (.symbol s)
     | _ => wrongKind "string->symbol" "a string" v,
   test "symbol?" isSymbol]

end Multimethod.Library
