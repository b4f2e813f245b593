import Multimethod.Lattice.Order
import Multimethod.Dispatch.Lookup

/-!
# Candidates

A declaration says how a member is called; a candidate is a member considered for a call. Its
parameters are the fixed ones, the receiver first when it is an argument, so that their number is
its arity; a variadic candidate takes any further arguments as one list.

A candidate names its member by owner and place and carries the lookup that found it. That stands for
its identity. A type makes the candidates of a lookup once, keeps them with its answer and hands them
on to the types below, so for each place and lookup there is one candidate: two candidates are equal
exactly when they are one and the same.
-/

namespace Multimethod

/-- How a member is stored and called. `params` leaves out the receiver; a variadic declaration
ends it with Rest. -/
structure Declaration where
  key : String
  kind : MemberKind
  params : List Ty
  ret : Ty
  isVariadic : Bool := false
  isStatic : Bool := true
  deriving DecidableEq, Repr

namespace Declaration

/-- Is the receiver of the member an argument of its calls? -/
def takesReceiver (d : Declaration) (bindReceiver : Bool) : Bool := !d.isStatic && !bindReceiver

def restMarkers (d : Declaration) : Nat := d.params.count .rest

def endsInRest (d : Declaration) : Bool := d.params.getLast? = some .rest

/-- Does the declaration end in Rest exactly if it is variadic, with Rest nowhere else? -/
def isWellFormed (d : Declaration) : Bool :=
  d.endsInRest = d.isVariadic && d.restMarkers ≤ d.endsInRest.toNat

/-- The number of fixed arguments, the receiver counted if it is one. -/
def arity (d : Declaration) (bindReceiver : Bool) : Nat :=
  d.params.length - d.restMarkers + (d.takesReceiver bindReceiver).toNat

end Declaration

/-- Where the receiver of a candidate comes from: there is none, it is the interpreter, or it is
the first argument. -/
inductive Origin where
  | static
  | bound
  | «instance»
  deriving DecidableEq, Repr

/-- A member considered for a call. -/
structure Candidate where
  /-- The type that declares the member. -/
  owner : Ty
  /-- The place of the member among those its owner declares. -/
  index : Nat
  /-- The lookup that found the member. -/
  lookup : LookupKey
  key : String
  kind : MemberKind
  origin : Origin
  params : List Ty
  ret : Ty
  isVariadic : Bool
  deriving DecidableEq, Repr

namespace Candidate

/-- The candidate that a lookup makes of a declaration. -/
def ofDeclaration (owner : Ty) (index : Nat) (lookup : LookupKey) (d : Declaration) : Candidate where
  owner := owner
  index := index
  lookup := lookup
  key := d.key
  kind := d.kind
  origin := if d.isStatic then .static else if lookup.bindReceiver then .bound else .instance
  params :=
    let fixed := if d.isVariadic then d.params.dropLast else d.params
    if d.takesReceiver lookup.bindReceiver then owner :: fixed else fixed
  ret := d.ret
  isVariadic := d.isVariadic

/-- The name that the key spells, or the key if it spells none. -/
def name (c : Candidate) : String := (Name.demangle c.key).getD c.key

/-- The number of fixed parameters. -/
def arity (c : Candidate) : Nat := c.params.length

/-- Have the candidates the same fixed parameters, and are both variadic or neither? -/
def sameSignature (c d : Candidate) : Bool := c.isVariadic = d.isVariadic && c.params = d.params

/-- Do arguments of these types fit the fixed parameters, whatever may follow them? -/
def fitsPrefix (h : Hierarchy) (c : Candidate) (types : List Ty) : Bool :=
  c.params.length ≤ types.length &&
    (types.zip c.params).all fun (source, target) => h.isAssignable source target

/-- May the candidate be called with arguments of these types? -/
def accepts (h : Hierarchy) (c : Candidate) (types : List Ty) : Bool :=
  (if c.isVariadic then c.arity ≤ types.length else types.length = c.arity) &&
    c.fitsPrefix h types

/-- Does an arity pin leave the candidate in? A pinned call takes exactly that many arguments. -/
def admittedBy (pin : Option Nat) (c : Candidate) : Bool :=
  match pin with
  | none => true
  | some n => if c.isVariadic then c.arity ≤ n else c.arity = n

/-- The name with the names of the parameter types. -/
def signature (h : Hierarchy) (c : Candidate) : String :=
  let parts := c.params.map h.typeName ++ (if c.isVariadic then ["..."] else [])
  c.name ++ "(" ++ ", ".intercalate parts ++ ")"

/-- Adds a candidate to those found before, unless one of them has the same signature. -/
def addTo (found : List Candidate) (c : Candidate) : List Candidate :=
  if found.any (·.sameSignature c) then found else found ++ [c]

end Candidate

end Multimethod
