import Multimethod.Session.Repl

/-!
# Running parts of sessions

A part of a session runs from a session; what it ends with and the session it leaves are put together
from those of its own parts. Evaluating and printing leave the gathered lines as they are.

* `SessionM.runFrom_bind` — an error or a lack of depth ends a session, and a value hands over to the rest.
* `SessionM.KeepsPending` — a part of a session that leaves the gathered lines as they are.
* `Repl.keepsPending_evaluateForms`, `Repl.keepsPending_writeVariable` — evaluating forms and writing a
  prompt are such parts.
-/

namespace Multimethod

namespace SessionM

variable {s : Session}

theorem runFrom_get : (get : SessionM Session).runFrom s = some (.ok s, s) := rfl

theorem runFrom_bind (m : SessionM α) (f : α → SessionM β) :
    (m >>= f).runFrom s = match m.runFrom s with
      | none => none
      | some (.ok a, t) => (f a).runFrom t
      | some (.error e, t) => some (.error e, t) := by
  show (m s).bind _ = _
  unfold runFrom
  show _ = match m s with | none => _ | some (.ok a, t) => _ | some (.error e, t) => _
  cases m s with
  | none => rfl
  | some result => obtain ⟨_ | _, _⟩ := result <;> rfl

theorem runFrom_tryEvaluate (m : EvalM α) :
    (tryEvaluate m).runFrom s =
      (m.runFrom s.interpreter).map fun (result, interpreter) => (.ok result, { s with interpreter }) := by
  unfold tryEvaluate
  rw [runFrom_bind, runFrom_get]
  dsimp only
  cases m.runFrom s.interpreter <;> rfl

/-! ## Gathered lines -/

/-- Does this part of a session leave the gathered lines as they are, however it ends? -/
def KeepsPending (m : SessionM α) : Prop :=
  ∀ s result t, m.runFrom s = some (result, t) → t.pending = s.pending

theorem keepsPending_pure (a : α) : KeepsPending (pure a) := by
  rintro s result t ⟨⟩
  rfl

theorem keepsPending_throw (e : SessionError) : KeepsPending (throw e : SessionM α) := by
  rintro s result t ⟨⟩
  rfl

theorem KeepsPending.bind {m : SessionM α} {f : α → SessionM β} (hm : m.KeepsPending)
    (hf : ∀ a, (f a).KeepsPending) : (m >>= f).KeepsPending := by
  intro s result t h
  rw [runFrom_bind] at h
  cases hrun : m.runFrom s with
  | none =>
    rw [hrun] at h
    cases h
  | some ended =>
    obtain ⟨ending, between⟩ := ended
    rw [hrun] at h
    have hbetween := hm s ending between hrun
    cases ending with
    | error e =>
      cases h
      exact hbetween
    | ok a => exact (hf a between result t h).trans hbetween

theorem keepsPending_tryEvaluate (m : EvalM α) : (tryEvaluate m).KeepsPending := by
  intro s result t h
  rw [runFrom_tryEvaluate] at h
  obtain ⟨ended, -, hended⟩ := Option.map_eq_some_iff.mp h
  cases hended
  rfl

theorem keepsPending_evaluate (m : EvalM α) : (evaluate m).KeepsPending :=
  (keepsPending_tryEvaluate m).bind fun
    | .ok a => keepsPending_pure a
    | .error e => keepsPending_throw (.runtime e)

theorem keepsPending_writeConsole (text : String) : (writeConsole text).KeepsPending := by
  rintro s result t ⟨⟩
  rfl

end SessionM

namespace Repl

open SessionM

theorem keepsPending_writeVariable (name : String) : (writeVariable name).KeepsPending :=
  (keepsPending_tryEvaluate _).bind fun
    | .ok value => keepsPending_writeConsole value.display
    | .error _ => keepsPending_pure ()

theorem keepsPending_reportError (e : RuntimeError) : (reportError e).KeepsPending :=
  keepsPending_writeConsole _

theorem keepsPending_evaluateForms (forms : List Value) : (evaluateForms forms).KeepsPending := by
  induction forms with
  | nil => exact keepsPending_pure ()
  | cons form rest ih =>
    refine (keepsPending_tryEvaluate _).bind ?_
    rintro (e | value)
    · exact (keepsPending_reportError e).bind fun _ => ih
    · exact (keepsPending_evaluate _).bind fun _ => ih

end Repl

end Multimethod
