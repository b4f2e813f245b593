import Multimethod.Eval.Setup
import Multimethod.Proofs.Engine.Run

/-!
# Runs of evaluations

What the pieces of an evaluation do to the interpreter they start from.

* `runFrom_bind` — an error or a lack of depth ends an evaluation, and a value hands over to the
  rest of it.
* `runFrom_attempt` — an attempt turns the error into a value and keeps the state.
-/

namespace Multimethod.EvalM

variable {α β : Type} (i : Interpreter)

@[simp] theorem runFrom_pure (a : α) : (pure a : EvalM α).runFrom i = some (.ok a, i) := rfl

@[simp] theorem runFrom_throw (e : RuntimeError) :
    (throw e : EvalM α).runFrom i = some (.error e, i) := rfl

@[simp] theorem runFrom_exhausted : (exhausted : EvalM α).runFrom i = none := rfl

@[simp] theorem runFrom_get : (get : EvalM Interpreter).runFrom i = some (.ok i, i) := rfl

@[simp] theorem runFrom_set (j : Interpreter) :
    (set j : EvalM PUnit).runFrom i = some (.ok ⟨⟩, j) := rfl

@[simp] theorem runFrom_modify (f : Interpreter → Interpreter) :
    (modify f : EvalM PUnit).runFrom i = some (.ok ⟨⟩, f i) := rfl

theorem runFrom_bind (m : EvalM α) (f : α → EvalM β) :
    (m >>= f).runFrom i = match m.runFrom i with
      | none => none
      | some (.ok a, j) => (f a).runFrom j
      | some (.error e, j) => some (.error e, j) := by
  show (m i).bind _ = _
  unfold runFrom
  show _ = match m i with | none => _ | some (.ok a, j) => _ | some (.error e, j) => _
  cases m i with
  | none => rfl
  | some result => obtain ⟨_ | _, _⟩ := result <;> rfl

theorem runFrom_attempt (m : EvalM α) :
    (attempt m).runFrom i = (m.runFrom i).map fun (result, j) => (.ok result, j) := by
  change Option.bind (Option.bind (m i) _) _ = Option.map _ (m i)
  cases m i with
  | none => rfl
  | some result => obtain ⟨_ | _, _⟩ := result <;> rfl

theorem runFrom_get_bind (f : Interpreter → EvalM β) :
    (get >>= f).runFrom i = (f i).runFrom i := by
  rw [runFrom_bind, runFrom_get]

theorem runFrom_set_bind (j : Interpreter) (f : PUnit → EvalM β) :
    (set j >>= f).runFrom i = (f ⟨⟩).runFrom j := by
  rw [runFrom_bind, runFrom_set]

theorem runFrom_hierarchy_bind (f : Hierarchy → EvalM α) :
    (hierarchy >>= f).runFrom i = (f i.engine.hierarchy).runFrom i := by
  rw [runFrom_bind]
  rfl

theorem runFrom_dispatch (m : DispatchM α) :
    (dispatch m).runFrom i = some ((m.runFrom i.engine).1.mapError .dispatch,
      { i with engine := (m.runFrom i.engine).2 }) := by
  unfold dispatch
  rw [runFrom_get_bind]
  unfold DispatchM.runFrom
  cases (m.run).run i.engine with
  | mk result engine =>
    rw [runFrom_set_bind]
    cases result <;> rfl

end Multimethod.EvalM
