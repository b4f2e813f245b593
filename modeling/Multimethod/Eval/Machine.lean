import Multimethod.Eval.Interpreter
import Multimethod.Reader.Source

/-!
# Evaluation

A symbol stands for its value and a list for a call or a special form; everything else stands for
itself. A list is a special form only when its head is a symbol that names no procedure. Steps call
for evaluations inside them through `recur`, and `perform` ties the knot, one level of depth for
each step inside another.
-/

namespace Multimethod

inductive Task where
  | eval (expr : Value)
  | apply (callee : Value) (args : List Value)

namespace Candidate

/-- The arguments that the member of a candidate gets: the fixed ones in the representation of
their parameter types, and the others as one list if the candidate is variadic. -/
def callArguments (c : Candidate) (args : List Value) : List Value :=
  List.zipWith Value.widenTo c.params args ++
    (if c.isVariadic then [.list (args.drop c.arity)] else [])

end Candidate

namespace Task

variable (recur : Task → EvalM Value)

/-- The values of expressions, from first to last. -/
def evalAll : List Value → EvalM (List Value)
  | [] => return []
  | expr :: rest => do
    let value ← recur (.eval expr)
    return value :: (← evalAll rest)

/-- Evaluates forms in turn; the value of the last one, or `last` if there are none. -/
def evalSequence : (last : Value) → List Value → EvalM Value
  | last, [] => return last
  | _, form :: rest => do evalSequence (← recur (.eval form)) rest

/-- Evaluates every form of a text once all of it is read. -/
def evalSource (source : String) : EvalM Value :=
  match Reader.readAll source.toList with
  | .ok forms => evalSequence recur .null forms
  | .error e => throw (.syntactic e)

def loadFile (path : String) : EvalM Value := do
  let source ← EvalM.readFile path
  EvalM.report (.fileLoaded path)
  evalSource recur source

def answer : Request → EvalM Value
  | .eval expr => recur (.eval expr)
  | .evalSource source => evalSource recur source
  | .apply callee args => recur (.apply callee args)
  | .lookUp name => EvalM.valueOf name
  | .bind name value => do
    EvalM.rebind (·.set name value)
    return .null
  | .bindDefault name value => do
    EvalM.rebind (·.setDefault name value)
    return .null
  | .unbind name => do
    EvalM.rebind (·.unset name)
    return .null
  | .write text => do
    EvalM.write text
    return .null
  | .load path => loadFile recur path
  | .importScope scope qualifier => do
    EvalM.importScope scope qualifier
    return .null
  | .make t cells => EvalM.makeObject t cells
  | .cell object place => return (← get).objects.cell object place
  | .setCell object place value => do
    modify fun i => { i with objects := i.objects.setCell object place value }
    return .null

/-- Runs a native, answering its requests. -/
def runAction : Action → EvalM Value
  | .done (.ok value) => return value
  | .done (.error e) => throw e
  | .request request next => do
    let result ← EvalM.attempt (answer recur request)
    runAction (next result)

/-- The error that a procedure takes no such arguments. -/
def rejection (name : String) (args : List Value) : RuntimeError :=
  .dispatch (.noApplicableOverload name (args.map Value.ty))

/-- Runs the member of a candidate on arguments that the candidate accepts. -/
def runMember (c : Candidate) (args : List Value) : EvalM Value := do
  match (← get).engine.provider.registry.member? c.owner c.index with
  | some { body := .native run, .. } => runAction recur (run (c.callArguments args))
  | some { body := .constant value, .. } => return value
  | none => throw (rejection c.name args)

/-- Calls the member of a candidate, provided that the candidate accepts the arguments. -/
def callCandidate (c : Candidate) (args : List Value) : EvalM Value := do
  if c.accepts (← EvalM.hierarchy) (args.map Value.ty) then runMember recur c args
  else throw (rejection c.name args)

/-- Calls the candidate that a table selects. -/
def callTable (t : DispatchTable) (args : List Value) : EvalM Value := do
  let h ← EvalM.hierarchy
  match t.select h (args.map Value.ty) with
  | some c =>
    EvalM.report (.overloadSelected (c.signature h))
    callCandidate recur c args
  | none => throw (rejection t.name args)

/-- Calls what a selector's member stands for on the type of the first argument. -/
def callSelector (name : String) (member : SelectorMember name) (args : List Value) :
    EvalM Value := do
  match args with
  | [] => throw (rejection name args)
  | receiver :: _ =>
    match ← EvalM.dispatch (Engine.resolveMember receiver.ty member.val .instance false) with
    | some (.procedure callable) => recur (.apply (.procedure callable) args)
    | _ =>
      let typeName := (← EvalM.hierarchy).typeName receiver.ty
      throw (.dispatch (.unboundName (typeName ++ "." ++ member.val.surface)))

/-- Calls a value, which has to be a procedure. -/
def applyValue (callee : Value) (args : List Value) : EvalM Value :=
  match callee with
  | .procedure (.direct c) => callCandidate recur c args
  | .procedure (.table t) => callTable recur t args
  | .procedure (.selector name member) => callSelector recur name member args
  | _ => throw (.dispatch (.notCallable callee))

/-- Binds a name to the value of an expression. -/
def evalDefinition (name : String) (expr : Value) : EvalM Value := do
  let value ← recur (.eval expr)
  EvalM.rebind (·.set name value)
  return .null

/-- Evaluates the first expression if the test is true and the second if it is false. -/
def evalChoice (test consequent alternative : Value) : EvalM Value := do
  if (← recur (.eval test)).isTrue then recur (.eval consequent) else recur (.eval alternative)

/-- Evaluates the special form with this head and these operands. -/
def evalSpecial (head : String) (operands : List Value) (isBound : Bool) : EvalM Value :=
  match head, operands with
  | "quote", [datum] => return datum
  | "set!", [.symbol name, expr] => evalDefinition recur name expr
  | "define", [.symbol name, expr] => evalDefinition recur name expr
  | "begin", body => evalSequence recur .null body
  | "if", [test, consequent] => evalChoice recur test consequent .null
  | "if", [test, consequent, alternative] => evalChoice recur test consequent alternative
  | _, _ => do
    EvalM.report (.formRejected head isBound)
    throw (.compile (.list (.symbol head :: operands)))

/-- Calls a value with the values of the operands. -/
def evalCall (callee : Value) (operands : List Value) : EvalM Value := do
  let args ← evalAll recur operands
  recur (.apply callee args)

def evalExpr (expr : Value) : EvalM Value :=
  match expr with
  | .symbol name => EvalM.valueOf name
  | .list (.symbol name :: operands) => do
    match ← EvalM.lookUp name with
    | some (.procedure callable) => evalCall recur (.procedure callable) operands
    | resolved => evalSpecial recur name operands resolved.isSome
  | .list (head :: operands) => do evalCall recur (← recur (.eval head)) operands
  | _ => return expr

/-- One step, with what it needs inside it left to `recur`. -/
def step : Task → EvalM Value
  | .eval expr => evalExpr recur expr
  | .apply callee args => applyValue recur callee args

/-- Performs a task with at most `depth` steps inside one another. -/
def perform : (depth : Nat) → Task → EvalM Value
  | 0, _ => EvalM.exhausted
  | depth + 1, task => step (perform depth) task

end Task

namespace EvalM

/-- The depth that evaluations are given. -/
def depthLimit : Nat := 1000000

def eval (expr : Value) : EvalM Value := Task.perform depthLimit (.eval expr)

def apply (callee : Value) (args : List Value) : EvalM Value :=
  Task.perform depthLimit (.apply callee args)

/-- Evaluates every form of a text; the value of the last one. -/
def evalSource (source : String) : EvalM Value :=
  Task.evalSource (Task.perform depthLimit) source

/-- Evaluates every form of a file; the value of the last one. -/
def loadFile (path : String) : EvalM Value := Task.loadFile (Task.perform depthLimit) path

def runNative (action : Action) : EvalM Value := Task.runAction (Task.perform depthLimit) action

end EvalM

end Multimethod
