import Multimethod.Proofs.Eval.Stable

/-!
# Histories

A history is a list of steps that a program takes with an interpreter from outside: evaluations,
calls, changes of bindings, imports, resolutions, and failures of the provider. An error ends its own
step only.

* `Step.runAll` — what the steps of a history give, and the interpreter they leave.
* `Engine.Stable.keeps_runAll` — histories keep stable properties of the engine.
-/

namespace Multimethod

/-- What may be done with an interpreter from outside. -/
inductive Step where
  | eval (expr : Value)
  | evalSource (source : String)
  | load (path : String)
  | apply (callee : Value) (args : List Value)
  | get (name : String)
  | set (name : String) (value : Value)
  | setDefault (name : String) (value : Value)
  | unset (name : String)
  | resolve (name : String) (scope : Option Ty)
  | resolveMember (t : Ty) (member : MemberName) (origin : OriginFilter) (bindReceiver : Bool)
  | addImport (scope : Ty) (qualifier : Option String)
  /-- Settles which of the next listings of members fail. -/
  | setOutages (outages : List Bool)

namespace Step

/-- Takes a step, with evaluations of at most `depth` steps inside one another; what it gives, if it
gives anything. -/
def run (depth : Nat) : Step → EvalM (Option Value)
  | eval expr => do return some (← Task.perform depth (.eval expr))
  | evalSource source => do return some (← Task.evalSource (Task.perform depth) source)
  | load path => do return some (← Task.loadFile (Task.perform depth) path)
  | apply callee args => do return some (← Task.perform depth (.apply callee args))
  | get name => do return some (← EvalM.valueOf name)
  | set name value => do
    EvalM.rebind (·.set name value)
    return none
  | setDefault name value => do
    EvalM.rebind (·.setDefault name value)
    return none
  | unset name => do
    EvalM.rebind (·.unset name)
    return none
  | resolve name scope => EvalM.dispatch (Engine.resolve name scope)
  | resolveMember t member origin bindReceiver =>
    EvalM.dispatch (Engine.resolveMember t member origin bindReceiver)
  | addImport scope qualifier => do
    modify fun i => { i with engine := i.engine.addImport scope qualifier }
    return none
  | setOutages outages => do
    modify (·.setOutages outages)
    return none

/-- The result of each step, and the interpreter after the last one. -/
def runAll (depth : Nat) :
    List Step → Interpreter → Option (List (Except RuntimeError (Option Value)) × Interpreter)
  | [], i => some ([], i)
  | step :: rest, i => do
    let (result, j) ← (step.run depth).runFrom i
    let (results, last) ← runAll depth rest j
    return (result :: results, last)

/-- The references that a step resolves without a name. -/
def references : Step → List MemberName
  | resolveMember _ member _ _ => [member]
  | _ => []

/-- What is asked of references is true of steps that resolve nothing but names. -/
theorem forall_references {steps : List Step} {P : MemberName → Prop}
    (hnone : ∀ step ∈ steps, step.references = []) :
    ∀ step ∈ steps, ∀ member ∈ step.references, P member := by
  intro step hstep member hmember
  rw [hnone step hstep] at hmember
  cases hmember

end Step

namespace Engine.Stable

open EvalM

variable {References : MemberName → Prop} {P : Engine → Prop} (hP : Stable References P)

include hP

theorem keeps_run (depth : Nat) {step : Step} (hstep : ∀ member ∈ step.references, References member) :
    KeepsEngine P (step.run depth) := by
  have hperform := hP.keeps_perform depth
  cases step with
  | eval expr => exact (hperform _).bind fun _ => Keeps.pure _
  | evalSource source => exact (keeps_evalSource hperform source).bind fun _ => Keeps.pure _
  | load path => exact (hP.keeps_loadFile hperform path).bind fun _ => Keeps.pure _
  | apply callee args => exact (hperform _).bind fun _ => Keeps.pure _
  | get name => exact (hP.keeps_valueOf name).bind fun _ => Keeps.pure _
  | set name value => exact (keeps_rebind _).bind fun _ => Keeps.pure _
  | setDefault name value => exact (keeps_rebind _).bind fun _ => Keeps.pure _
  | unset name => exact (keeps_rebind _).bind fun _ => Keeps.pure _
  | resolve name scope =>
    show KeepsEngine P (dispatch (Engine.resolve name scope))
    exact keeps_dispatch (hP.keeps_resolve name scope)
  | resolveMember t member origin bindReceiver =>
    have hmember := hstep member (List.mem_singleton_self member)
    show KeepsEngine P (dispatch (Engine.resolveMember t member origin bindReceiver))
    exact keeps_dispatch (hP.keeps_resolveMember t origin bindReceiver hmember)
  | addImport scope qualifier =>
    refine Keeps.bind (Keeps.modify ?_) fun _ => Keeps.pure _
    exact fun i hi => hP.addImport scope qualifier hi
  | setOutages outages =>
    refine Keeps.bind (Keeps.modify ?_) fun _ => Keeps.pure _
    exact fun i hi => hP.withOutages outages hi

/-- **Histories keep the property.** -/
theorem keeps_runAll {depth : Nat} {steps : List Step}
    (hsteps : ∀ step ∈ steps, ∀ member ∈ step.references, References member)
    {i j : Interpreter} {results : List (Except RuntimeError (Option Value))} (hi : P i.engine)
    (hrun : Step.runAll depth steps i = some (results, j)) : P j.engine := by
  induction steps generalizing i results with
  | nil =>
    cases hrun
    exact hi
  | cons step rest ih =>
    obtain ⟨⟨result, k⟩, hfirst, hrun⟩ := Option.bind_eq_some_iff.1 hrun
    obtain ⟨⟨others, last⟩, hrest, hjoin⟩ := Option.bind_eq_some_iff.1 hrun
    cases hjoin
    have hk := hP.keeps_run depth (hsteps step List.mem_cons_self) i hi result k hfirst
    exact ih (fun s hs => hsteps s (List.mem_cons_of_mem step hs)) hk hrest

end Engine.Stable

end Multimethod
