import Multimethod.Reader.Error
import Multimethod.Value.Printer

/-!
# Errors

What stops a resolution, a call or an evaluation, and the words in which each cause is reported.
-/

namespace Multimethod

/-- Why the members of a type could not be listed. -/
inductive ListingFailure where
  | unavailable
  | unknownHostType (id : Nat)
  deriving DecidableEq, Repr

def ListingFailure.message : ListingFailure → String
  | unavailable => "temporarily unavailable"
  | unknownHostType id => s!"unknown host type #{id}"

/-- What stops a resolution or a call. -/
inductive DispatchError where
  | unboundName (name : String)
  /-- Two imports bind the name to different values. -/
  | ambiguousImport (name first second : String)
  /-- A variadic member is malformed and no other candidate has its arity. -/
  | inconsistentVariadic (owner key : String) (arity : Nat)
  /-- The procedure takes no arguments of these types. -/
  | noApplicableOverload (name : String) (types : List Ty)
  | notCallable (value : Value)
  | listing (type : String) (failure : ListingFailure)
  deriving DecidableEq

def DispatchError.message : DispatchError → String
  | unboundName name => "unbound: " ++ name
  | ambiguousImport name first second =>
    s!"ambiguous import: `{name}` is bound differently by {first} and {second}"
  | inconsistentVariadic owner key arity =>
    s!"bad varargs: {owner}.{key} has no usable candidate of arity {arity}"
  | noApplicableOverload name types =>
    let listed := ", ".intercalate (types.map Ty.label)
    s!"no applicable overload: {name} called with {types.length} argument(s) of type ({listed})"
  | notCallable value => "not a procedure: " ++ value.write
  | listing type failure => s!"introspection of {type} failed: {failure.message}"

inductive FileProblem where
  | notFound
  | isDirectory
  | notText
  deriving DecidableEq, Repr

def FileProblem.message : FileProblem → String
  | notFound => "No such file or directory (os error 2)"
  | isDirectory => "Is a directory (os error 21)"
  | notText => "stream did not contain valid UTF-8"

/-- What stops input or output. -/
inductive IoError where
  /-- The file that was asked for by this path. -/
  | file (path : String) (problem : FileProblem)
  /-- A file or stream that the report does not name. -/
  | unnamed (problem : FileProblem)
  /-- The output takes no more text. -/
  | sinkClosed
  deriving DecidableEq, Repr

def IoError.message : IoError → String
  | file path problem => path ++ ": " ++ problem.message
  | unnamed problem => problem.message
  | sinkClosed => "sink closed"

/-- What stops an evaluation. -/
inductive RuntimeError where
  | dispatch (error : DispatchError)
  | syntactic (error : SyntaxError)
  /-- The form is no special form, and its head names no procedure. -/
  | compile (form : Value)
  | io (error : IoError)
  /-- A native's own complaint. -/
  | message (text : String)
  deriving DecidableEq

/-- The longest form that is reported in full. -/
def previewLimit : Nat := 100

/-- How much is kept of a longer one. -/
def previewKeep : Nat := 80

/-- The text of a form, cut short if it is long. -/
def preview (form : Value) : String :=
  let text := form.chars true
  if text.length ≤ previewLimit then String.ofList text
  else String.ofList (text.take previewKeep) ++ " ..."

def RuntimeError.report : RuntimeError → String
  | dispatch error => error.message
  | syntactic error => "bad syntax: " ++ error.message
  | compile form => "cannot compile: " ++ preview form
  | io error => "IO error: " ++ error.message
  | message text => text

end Multimethod
