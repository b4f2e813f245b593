import Multimethod.Proofs.Eval.History
import Multimethod.Proofs.Library.Bindings

/-!
# Bindings follow the history

What a name holds after a history is told from the changes of the bindings that its steps made, in order:
those asked for from outside, and what evaluations assigned. The last step that set or removed the name
decides, and the first default if there is none. Evaluations assign, and never remove. A name that is
bound or removed has one answer, whatever there is in the engine.

* `Step.changes`, `Step.changesAll` — the changes of the bindings that steps make.
* `Step.find?_runAll` — what a name holds after a history.
* `Step.bindings_follow_history` — the same with what evaluations may do, and with what names answer.
-/

namespace Multimethod

namespace Step

/-- The changes of the bindings that a step makes, from the interpreter that it starts from. -/
def changes (depth : Nat) : Step → Interpreter → List BindingChange
  | eval expr, i => (Task.assigned depth (.eval expr) i).map Assignment.change
  | evalSource source, i =>
    (Task.assignedSource (Task.perform depth) (Task.assigned depth) source i).map Assignment.change
  | load path, i =>
    (Task.assignedFile (Task.perform depth) (Task.assigned depth) path i).map Assignment.change
  | apply callee args, i => (Task.assigned depth (.apply callee args) i).map Assignment.change
  | set name value, _ => [.set name value]
  | setDefault name value, _ => [.setDefault name value]
  | unset name, _ => [.unset name]
  | get _, _ | resolve _ _, _ | resolveMember _ _ _ _, _ | addImport _ _, _ | setOutages _, _ => []

/-- The changes of the bindings that the steps of a history make. -/
def changesAll (depth : Nat) : List Step → Interpreter → List BindingChange
  | [], _ => []
  | step :: rest, i => step.changes depth i ++
    match (step.run depth).runFrom i with
    | some (_, j) => changesAll depth rest j
    | none => []

/-- Is the step an evaluation or a call? -/
def isEvaluation : Step → Bool
  | eval _ | evalSource _ | load _ | apply _ _ => true
  | _ => false

/-! ## Steps change the bindings as told -/

open EvalM

variable {depth : Nat} {step : Step} {i j : Interpreter}

/-- What an evaluation or a call inside a step assigns. -/
theorem bindings_of_assigns {m : EvalM Value} {log : AssignmentLog}
    {result : Except RuntimeError (Option Value)}
    (hm : Assigns i.engine.provider.registry m log)
    (hrun : (do return some (← m) : EvalM (Option Value)).runFrom i = some (result, j)) :
    j.bindings = BindingChange.makeAll ((log i).map Assignment.change) i.bindings :=
  ((hm.followedBy fun _ => Assigns.pure _) i rfl result j hrun).2

/-- A step leaves the bindings with the changes that it makes, whether it succeeds or fails. -/
theorem bindings_run {result : Except RuntimeError (Option Value)}
    (hnatives : i.engine.provider.registry.LeavesBindings)
    (hrun : (step.run depth).runFrom i = some (result, j)) :
    j.bindings = BindingChange.makeAll (step.changes depth i) i.bindings := by
  have hperform := Task.assigns_perform hnatives depth
  cases step with
  | eval expr => exact bindings_of_assigns (hperform _) hrun
  | evalSource source => exact bindings_of_assigns (Task.assigns_evalSource hperform source) hrun
  | load path => exact bindings_of_assigns (Task.assigns_loadFile hperform path) hrun
  | apply callee args => exact bindings_of_assigns (hperform _) hrun
  | get name => exact bindings_of_assigns (assigns_valueOf name) hrun
  | set name value =>
    cases hrun
    rfl
  | setDefault name value =>
    cases hrun
    rfl
  | unset name =>
    cases hrun
    rfl
  | resolve name scope =>
    exact (assigns_dispatch ((Engine.stable_registry _).keeps_resolve name scope) i rfl result j hrun).2
  | resolveMember t member origin bindReceiver =>
    exact (assigns_resolveMember t member origin bindReceiver i rfl result j hrun).2
  | addImport scope qualifier =>
    cases hrun
    rfl
  | setOutages outages =>
    cases hrun
    rfl

theorem bindings_runAll {steps : List Step} {results : List (Except RuntimeError (Option Value))}
    (hnatives : i.engine.provider.registry.LeavesBindings)
    (hrun : runAll depth steps i = some (results, j)) :
    j.bindings = BindingChange.makeAll (changesAll depth steps i) i.bindings := by
  induction steps generalizing i results with
  | nil =>
    cases hrun
    rfl
  | cons step rest ih =>
    obtain ⟨⟨result, k⟩, hfirst, hrun⟩ := Option.bind_eq_some_iff.1 hrun
    obtain ⟨⟨others, last⟩, hrest, hjoin⟩ := Option.bind_eq_some_iff.1 hrun
    cases hjoin
    have hregistry : k.engine.provider.registry = i.engine.provider.registry :=
      (Engine.stable_registry _).keeps_run depth (fun _ _ => trivial) i rfl result k hfirst
    rw [changesAll, hfirst, BindingChange.makeAll_append, ← bindings_run hnatives hfirst]
    exact ih (hregistry ▸ hnatives) hrest

/-- **What a name holds after a history**: what the last step that set or removed it put there; if there is
none, what it held before; if it held nothing, the first default. -/
theorem find?_runAll {steps : List Step} {results : List (Except RuntimeError (Option Value))}
    (hnatives : i.engine.provider.registry.LeavesBindings)
    (hrun : runAll depth steps i = some (results, j)) (name : String) :
    j.bindings.find? name =
      ((changesAll depth steps i).filterMap (BindingChange.settled? name)).getLast?.or
        ((i.bindings.find? name).or
          ((changesAll depth steps i).filterMap (BindingChange.offered? name)).head?) := by
  rw [bindings_runAll hnatives hrun]
  exact BindingChange.find?_makeAll _ _ _

/-- An evaluation leaves a name as it was, or with a value that was assigned to it. -/
theorem find?_of_isEvaluation {result : Except RuntimeError (Option Value)}
    (hnatives : i.engine.provider.registry.LeavesBindings) (hstep : step.isEvaluation)
    (hrun : (step.run depth).runFrom i = some (result, j)) (name : String) :
    j.bindings.find? name = i.bindings.find? name ∨
      ∃ value, .set name value ∈ step.changes depth i ∧ j.bindings.find? name = some (.bound value) := by
  obtain ⟨log, hlog⟩ : ∃ log : List Assignment, step.changes depth i = log.map Assignment.change := by
    cases step with
    | eval expr => exact ⟨_, rfl⟩
    | evalSource source => exact ⟨_, rfl⟩
    | load path => exact ⟨_, rfl⟩
    | apply callee args => exact ⟨_, rfl⟩
    | _ => cases hstep
  have hbindings : j.bindings = i.bindings.assignAll log :=
    (bindings_run hnatives hrun).trans (by rw [hlog]; rfl)
  rw [hbindings, hlog]
  obtain hkept | ⟨value, hmem, hassigned⟩ := i.bindings.find?_assignAll log name
  · exact .inl hkept
  · exact .inr ⟨value, List.mem_map.2 ⟨_, hmem, rfl⟩, hassigned⟩

/-! ## What names answer -/

/-- The answer of a name that was touched. -/
def answerOf (name : String) : Binding → Except RuntimeError Value
  | .bound value => .ok value
  | .removed => .error (.dispatch (.unboundName name))

theorem runFrom_valueOf {name : String} {slot : Binding} (hslot : i.bindings.find? name = some slot) :
    (EvalM.valueOf name).runFrom i = some (answerOf name slot, i) := by
  unfold EvalM.valueOf EvalM.lookUp
  rw [runFrom_bind, runFrom_get_bind, hslot]
  cases slot <;> rfl

/-- **Bindings follow the history.** After a history of an interpreter whose natives change no bindings
themselves, a name holds what the last step that set or removed it put there, where executed `set!` and
`define` forms set names too; if there is no such step, it holds what it held before, and if it held
nothing, the first default. From every interpreter over the same registry, an evaluation of any depth,
whether it succeeds or fails, leaves a name as it was or with a value that an executed form assigned to it.
A name that is bound or removed has the same answer with any engine, and asking it changes nothing. -/
theorem bindings_follow_history {steps : List Step}
    {results : List (Except RuntimeError (Option Value))}
    (hnatives : i.engine.provider.registry.LeavesBindings)
    (hrun : runAll depth steps i = some (results, j)) :
    (∀ name, j.bindings.find? name =
      ((changesAll depth steps i).filterMap (BindingChange.settled? name)).getLast?.or
        ((i.bindings.find? name).or
          ((changesAll depth steps i).filterMap (BindingChange.offered? name)).head?)) ∧
    (∀ (depth : Nat) (step : Step) (before after : Interpreter) result,
      before.engine.provider.registry = i.engine.provider.registry → step.isEvaluation →
      (step.run depth).runFrom before = some (result, after) → ∀ name,
        after.bindings.find? name = before.bindings.find? name ∨
        ∃ value, .set name value ∈ step.changes depth before ∧
          after.bindings.find? name = some (.bound value)) ∧
    (∀ name slot, j.bindings.find? name = some slot → ∀ k : Interpreter, k.bindings = j.bindings →
      (EvalM.valueOf name).runFrom k = some (answerOf name slot, k)) := by
  refine ⟨find?_runAll hnatives hrun, ?_, ?_⟩
  · intro depth step before after result hregistry hstep hrun name
    exact find?_of_isEvaluation (hregistry ▸ hnatives) hstep hrun name
  · intro name slot hslot k hk
    exact runFrom_valueOf (hk ▸ hslot)

/-- With the library: a form sets `x` inside the value of another form, sets it again and then fails. A
default comes too late for `y`, which was removed. -/
theorem bindings_follow_history_of_failure :
    let i : Interpreter := .withLibrary {} {}
    let form : Value := .list [.symbol "begin",
      .list [.symbol "define", .symbol "y", .list [.symbol "set!", .symbol "x", .int 2]],
      .list [.symbol "set!", .symbol "x", .int 3],
      .list [.symbol "set!", .symbol "x", .symbol "absent"]]
    let steps : List Step := [.setDefault "x" (.int 1), .eval form, .unset "y", .setDefault "y" (.int 5)]
    i.engine.provider.registry.LeavesBindings ∧ ∃ results j, runAll 5 steps i = some (results, j) ∧
      ((changesAll 5 steps i).filterMap (BindingChange.settled? "x")).getLast? = some (.bound (.int 3)) ∧
      ((changesAll 5 steps i).filterMap (BindingChange.settled? "y")).getLast? = some .removed ∧
      j.bindings.find? "x" = some (.bound (.int 3)) ∧
      ∀ k : Interpreter, k.bindings = j.bindings →
        (EvalM.valueOf "y").runFrom k = some (.error (.dispatch (.unboundName "y")), k) := by
  intro i form steps
  have hnatives : i.engine.provider.registry.LeavesBindings :=
    Registry.withLibrary_leavesBindings _ fun t m hm => by cases hm
  have hends : (runAll 5 steps i).isSome := by decide +kernel
  have hsettled : (((changesAll 5 steps i).filterMap (BindingChange.settled? "x")).getLast?.any fun slot =>
        (answerOf "x" slot).toOption.any (·.equal (.int 3))) &&
      ((changesAll 5 steps i).filterMap (BindingChange.settled? "y")).getLast?.any fun slot =>
        (answerOf "y" slot).toOption.isNone := by
    decide +kernel
  obtain ⟨⟨results, j⟩, hrun⟩ := Option.isSome_iff_exists.1 hends
  obtain ⟨hslots, -, hanswers⟩ := bindings_follow_history hnatives hrun
  obtain ⟨hsettledX, hsettledY⟩ := Bool.and_eq_true_iff.1 hsettled
  obtain ⟨slotX, hx, hequal⟩ := (Option.any_eq_true _ _).1 hsettledX
  obtain ⟨slotY, hy, hnone⟩ := (Option.any_eq_true _ _).1 hsettledY
  obtain rfl : slotX = .bound (.int 3) := by
    cases slotX with
    | removed => cases hequal
    | bound v =>
      change v.equal (.int 3) = true at hequal
      cases v <;> simp [Value.equal] at hequal
      rw [hequal]
  obtain rfl : slotY = .removed := by
    cases slotY with
    | removed => rfl
    | bound v => cases hnone
  have hfoundX := hslots "x"
  have hfoundY := hslots "y"
  rw [hx, Option.some_or] at hfoundX
  rw [hy, Option.some_or] at hfoundY
  exact ⟨hnatives, results, j, hrun, hx, hy, hfoundX, hanswers "y" .removed hfoundY⟩

end Step

end Multimethod
