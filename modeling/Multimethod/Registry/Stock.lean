import Multimethod.Registry.Member

/-!
# Stock natives

Ready-made natives from which members of host types are assembled.
-/

namespace Multimethod

/-- What a stock native does. -/
inductive Stock where
  /-- Gives the list of a text and all arguments. -/
  | tag (text : String)
  /-- Gives the first argument, null if there is none. -/
  | first
  /-- Gives a fixed value. -/
  | value (v : Value)
  /-- Fails with a message. -/
  | fail (message : String)
  /-- Evaluates a text. -/
  | evaluate (source : String)
  /-- Applies the first argument to the others. -/
  | apply
  /-- Makes an object of the member's own type whose cells are the arguments. -/
  | make
  /-- Gives a cell of the first argument. -/
  | cell (place : Nat)
  /-- Stores the second argument in a cell of the first. -/
  | setCell (place : Nat)

def Stock.native (owner : Ty) : Stock → Native
  | tag text => fun args => .give (.list (.text text :: args))
  | first => fun args => .give (args.headD .null)
  | value v => fun _ => .give v
  | fail message => fun _ => .fail (.message message)
  | evaluate source => fun _ => .ask (.evalSource source)
  | apply => fun args => .ask (.apply (args.headD .null) args.tail)
  | make => fun args => .ask (.make owner args)
  | cell place => fun args => .ask (.cell (args.headD .null) place)
  | setCell place => fun args => .ask (.setCell (args.headD .null) place (args.getD 1 .null))

end Multimethod
