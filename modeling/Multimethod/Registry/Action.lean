import Multimethod.Value.Error

/-!
# Natives as actions

A native procedure reaches the interpreter only by asking. Its action is a tree: it is done, with
a value or an error, or it makes a request and goes on with the answer. What a request does is the
interpreter's affair, so natives are plain data here.
-/

namespace Multimethod

/-- What a native may ask of the interpreter. Every request is answered by a value or an error. -/
inductive Request where
  | eval (expr : Value)
  /-- Evaluates every form of a text. -/
  | evalSource (source : String)
  | apply (callee : Value) (args : List Value)
  | lookUp (name : String)
  | bind (name : String) (value : Value)
  | bindDefault (name : String) (value : Value)
  | unbind (name : String)
  | write (text : String)
  /-- Evaluates every form of a file. -/
  | load (path : String)
  /-- Makes the members of the type called `scope` visible, behind a prefix if one is given. -/
  | importScope (scope : String) (qualifier : Option String)
  /-- Makes an object of a host type with these cells. -/
  | make (ty : Ty) (cells : List Value)
  | cell (object : Value) (place : Nat)
  | setCell (object : Value) (place : Nat) (value : Value)

/-- A run of a native. -/
inductive Action where
  | done (result : Except RuntimeError Value)
  | request (request : Request) (next : Except RuntimeError Value → Action)

abbrev Native := List Value → Action

namespace Action

def give (v : Value) : Action := .done (.ok v)

def fail (e : RuntimeError) : Action := .done (.error e)

/-- Makes one request and ends with its answer. -/
def ask (request : Request) : Action := .request request .done

end Action

end Multimethod
