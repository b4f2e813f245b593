import Multimethod.Proofs.Eval.History
import Multimethod.Proofs.Eval.Lockstep
import Multimethod.Proofs.Library.Uniform

/-!
# Tuning limits are not observable

The limit on guards and the lookahead of a table are there for speed. Programs cannot find them out if
the natives they call are uniform: two interpreters over one registry that differ in these settings take
any steps in lockstep. A native that reads the text of an error or looks into a table can.

* `Step.Alike` — steps with values alike: what one run was given, the other was given as well.
* `Step.run_alike`, `Step.runAll_alike` — one step, and any number of steps.
* `Interpreter.limits_unobservable` — the runs from fresh interpreters.
* `Interpreter.limits_show_to_natives` — why the natives have to be uniform.
-/

namespace Multimethod

namespace Step

/-- Steps that differ in no more than tables alike. -/
inductive Alike (h : Hierarchy) : Step → Step → Prop
  | refl (step : Step) : Alike h step step
  | eval {v w : Value} (hvw : v.Alike h w) : Alike h (.eval v) (.eval w)
  | apply {v w : Value} {xs ys : List Value} (hvw : v.Alike h w) (hxys : Value.AlikeAll h xs ys) :
    Alike h (.apply v xs) (.apply w ys)
  | set (name : String) {v w : Value} (hvw : v.Alike h w) : Alike h (.set name v) (.set name w)
  | setDefault (name : String) {v w : Value} (hvw : v.Alike h w) :
    Alike h (.setDefault name v) (.setDefault name w)

/-- What a step gives: values alike, or nothing, or errors alike. -/
abbrev ResultAlike (h : Hierarchy) :
    Except RuntimeError (Option Value) → Except RuntimeError (Option Value) → Prop :=
  ResultsAlike (RuntimeError.Alike h) (Option.Rel (Value.Alike h))

variable {r : Registry} (huniform : r.IsUniform)

include huniform

theorem run_alike (depth : Nat) {step step' : Step} (hsteps : step.Alike r.hierarchy step') :
    EvalM.Alike r (Option.Rel (Value.Alike r.hierarchy)) (step.run depth) (step'.run depth) := by
  have hperform (task task' : Task) (htasks : task.Alike r.hierarchy task') :=
    Task.perform_alike huniform depth htasks
  have hsome {m m' : EvalM Value} (hm : Task.Lockstep r m m') :
      EvalM.Alike r (Option.Rel (Value.Alike r.hierarchy)) (do return some (← m))
        (do return some (← m')) :=
    hm.bind fun _ _ hvw => .pure (.some hvw)
  have hnone {m m' : EvalM PUnit} (hm : EvalM.Alike r Eq m m') :
      EvalM.Alike r (Option.Rel (Value.Alike r.hierarchy)) (m >>= fun _ => pure none)
        (m' >>= fun _ => pure none) :=
    hm.bind fun _ _ _ => .pure .none
  cases hsteps with
  | refl =>
    cases step with
    | eval expr => exact hsome (hperform _ _ (.eval (.refl expr)))
    | evalSource source => exact hsome (Task.evalSource_alike hperform source)
    | load path => exact hsome (Task.loadFile_alike hperform path)
    | apply callee args => exact hsome (hperform _ _ (.apply (.refl callee) (.refl args)))
    | get name => exact hsome (EvalM.Alike.valueOf name)
    | set name value => exact hnone (.rebind fun _ _ hbc => hbc.put name (.bound (.refl value)))
    | setDefault name value => exact hnone (.rebind fun _ _ hbc => hbc.setDefault name (.refl value))
    | unset name => exact hnone (.rebind fun _ _ hbc => hbc.put name .removed)
    | resolve name scope =>
      show EvalM.Alike r _ (EvalM.dispatch (Engine.resolve name scope))
        (EvalM.dispatch (Engine.resolve name scope))
      exact EvalM.Alike.dispatch (Engine.resolve_alike name scope)
    | resolveMember t member origin bindReceiver =>
      show EvalM.Alike r _ (EvalM.dispatch (Engine.resolveMember t member origin bindReceiver))
        (EvalM.dispatch (Engine.resolveMember t member origin bindReceiver))
      exact EvalM.Alike.dispatch (Engine.resolveMember_alike t member origin bindReceiver)
    | addImport scope qualifier =>
      exact hnone (.modify fun i j hij =>
        { hij with engine := hij.engine.addImport scope qualifier })
    | setOutages outages =>
      refine hnone (.modify fun i j hij => { hij with engine := { hij.engine with provider := ?_ } })
      show { i.engine.provider with outages } = { j.engine.provider with outages }
      rw [hij.engine.provider]
  | eval hvw => exact hsome (hperform _ _ (.eval hvw))
  | apply hvw hxys => exact hsome (hperform _ _ (.apply hvw hxys))
  | set name hvw => exact hnone (.rebind fun _ _ hbc => hbc.put name (.bound hvw))
  | setDefault name hvw => exact hnone (.rebind fun _ _ hbc => hbc.setDefault name hvw)

theorem runAll_alike (depth : Nat) {steps steps' : List Step}
    (hsteps : List.Forall₂ (Alike r.hierarchy) steps steps') {i j : Interpreter}
    (hij : i.Alike r j) :
    Option.Rel (fun a b => List.Forall₂ (ResultAlike r.hierarchy) a.1 b.1 ∧ a.2.Alike r b.2)
      (runAll depth steps i) (runAll depth steps' j) := by
  induction hsteps generalizing i j with
  | nil => exact .some ⟨.nil, hij⟩
  | @cons step step' rest rest' hstep _ ih =>
    have hfirst := run_alike huniform depth hstep i j hij
    unfold runAll
    generalize (step.run depth).runFrom i = ran at hfirst ⊢
    generalize (step'.run depth).runFrom j = ran' at hfirst ⊢
    cases hfirst with
    | none => exact .none
    | @some a b hran =>
      obtain ⟨result, k⟩ := a
      obtain ⟨result', k'⟩ := b
      obtain ⟨hresults, hstates⟩ := hran
      have hrest := ih hstates
      simp only [Option.bind_eq_bind, Option.bind_some]
      generalize runAll depth rest k = others at hrest ⊢
      generalize runAll depth rest' k' = others' at hrest ⊢
      cases hrest with
      | none => exact .none
      | some hothers => exact .some ⟨.cons hresults hothers.1, hothers.2⟩

end Step

namespace Interpreter

theorem ofRegistry_alike (r : Registry) (config : EngineConfig) (limit lookahead : Nat)
    (files : Files) :
    Interpreter.Alike r { ofRegistry r config with files }
      { ofRegistry r { config with guardChainLimit := limit, variadicLookahead := lookahead } with
        files } where
  engine := by
    unfold ofRegistry Engine.new
    cases r.hierarchy.find? config.rootScopeName with
    | none => exact ⟨rfl, rfl, rfl, rfl, .nil⟩
    | some id => exact ⟨rfl, rfl, rfl, rfl, .nil⟩
  bindings := .nil
  output := rfl
  objects := ⟨.nil, rfl⟩
  files := rfl
  asked := rfl

/-- **Tuning limits are not observable.** Over any registry of uniform natives, let two fresh
interpreters differ in the limit on guards and in the lookahead. After any number of the steps they
gave the same results: values alike, with procedures of the same kind, name and candidates, and the
same errors up to the name under which a call was rejected. They have printed the same, and the same
names are bound to values alike; or neither of them has come to an end. -/
theorem limits_unobservable {r : Registry} (huniform : r.IsUniform) (config : EngineConfig)
    (limit lookahead : Nat) (files : Files) (depth : Nat) {steps steps' : List Step}
    (hsteps : List.Forall₂ (Step.Alike r.hierarchy) steps steps') (n : Nat) :
    Option.Rel (fun (results, i) (results', j) =>
        List.Forall₂ (Step.ResultAlike r.hierarchy) results results' ∧
        i.output = j.output ∧ i.bindings.Alike r.hierarchy j.bindings)
      (Step.runAll depth (steps.take n) { ofRegistry r config with files })
      (Step.runAll depth (steps'.take n)
        { ofRegistry r { config with guardChainLimit := limit, variadicLookahead := lookahead } with
          files }) := by
  have hrun := Step.runAll_alike huniform depth (List.forall₂_take n hsteps)
    (ofRegistry_alike r config limit lookahead files)
  generalize Step.runAll depth (steps.take n) _ = ran at hrun ⊢
  generalize Step.runAll depth (steps'.take n) _ = ran' at hrun ⊢
  cases hrun with
  | none => exact .none
  | some hran =>
    obtain ⟨hresults, hstates⟩ := hran
    exact .some ⟨hresults, hstates.output, hstates.bindings⟩

/-- The sum of the library as a table made with other limits, called by both interpreters: one call
runs a candidate and one is rejected. -/
theorem limits_unobservable_of_library :
    let r := Registry.withLibrary {} "sioc"
    let sum (param : Ty) (index : Nat) : Candidate :=
      { owner := .host 0, index, lookup := ⟨"P", .method, .any, false, none⟩, key := "P",
        kind := .method, origin := .static, params := [param, param], ret := param,
        isVariadic := false }
    let table (limit lookahead : Nat) : Value := .procedure (.table
      (.ofCandidates r.hierarchy "+" (.host 0) limit lookahead none (sum .int 7)
        [sum .long 8, sum .double 9]))
    let steps (limit lookahead : Nat) : List Step := [.set "f" (table limit lookahead),
      .eval (.list [.symbol "f", .int 1, .int 2]), .apply (table limit lookahead) [.null, .null]]
    r.IsUniform ∧ List.Forall₂ (Step.Alike r.hierarchy) (steps 4 8) (steps 0 1) ∧
      (Step.runAll 3 (steps 4 8) (ofRegistry r {})).isSome ∧
      Option.Rel (fun (results, i) (results', j) =>
          List.Forall₂ (Step.ResultAlike r.hierarchy) results results' ∧
          i.output = j.output ∧ i.bindings.Alike r.hierarchy j.bindings)
        (Step.runAll 3 ((steps 4 8).take 3) (ofRegistry r {}))
        (Step.runAll 3 ((steps 0 1).take 3)
          (ofRegistry r { guardChainLimit := 0, variadicLookahead := 1 })) := by
  intro r sum table steps
  have huniform : r.IsUniform := Registry.withLibrary_isUniform "sioc" fun t m hm => by cases hm
  have htable : (table 4 8).Alike r.hierarchy (table 0 1) :=
    .procedure (.table (DispatchTable.candidates_ofCandidates_ne_nil _ _ _ _ _ _ _)
      (DispatchTable.ofCandidates_alike _ _ _ _ _ _ _ _ _))
  have hsteps : List.Forall₂ (Step.Alike r.hierarchy) (steps 4 8) (steps 0 1) :=
    .cons (.set "f" htable) (.cons (.refl _) (.cons (.apply htable (.refl _)) .nil))
  have hends : (Step.runAll 3 (steps 4 8) (ofRegistry r {})).isSome := by decide +kernel
  exact ⟨huniform, hsteps, hends, limits_unobservable huniform {} 0 1 {} 3 hsteps 3⟩

end Interpreter

/-! ## What natives may not look at -/

/-- What is printed of the value that a step gave. -/
def Step.printed? (result : Except RuntimeError (Option Value)) : Option String :=
  result.toOption.join.map Value.display

theorem Step.ResultAlike.printed?_eq {h : Hierarchy} {result result' : Except RuntimeError (Option Value)}
    (hresults : ResultAlike h result result') : printed? result = printed? result' := by
  cases hresults with
  | error _ => rfl
  | ok hanswers =>
    cases hanswers with
    | none => rfl
    | some hvalues => exact congrArg some hvalues.display_eq

namespace Native

/-- Calls its first argument with the others, and gives the text of the error if the call fails. -/
def reportOf : Native
  | [callee, .list args] => .request (.apply callee args) fun answer =>
    .give (match answer with
      | .ok value => value
      | .error e => .text e.report)
  | _ => .give .null

/-- Gives the greatest number of arguments that has a slot in a table. -/
def lastSlotOf : Native
  | [.procedure (.table t)] => .give (.int (Int32.ofNat t.lastSlot))
  | _ => .give .null

end Native

namespace Interpreter

/-- Both limits show to natives that are not uniform, though all that these do with the interpreter is to call a
procedure. Two writers of a field reject a receiver of another type under the name of the field if guards
selected one of them, and under that of their table if not; who reads the error learns which. And a table can
be asked for its slots. -/
theorem limits_show_to_natives :
    let nothing : Native := fun _ => .give .null
    let r : Registry :=
      { hierarchy := ⟨[⟨"sioc", []⟩, ⟨"P", []⟩]⟩
        members := [
          (.host 0, [(Member.function "report-of" [.any] .any .reportOf).variadic,
            .function "last-slot" [.any] .int .lastSlotOf]),
          (.host 1, [.setter "x" .int nothing, .setter "x" .text nothing,
            .function "f" [.int] .null nothing, (Member.function "f" [] .null nothing).variadic])] }
    let steps : List Step := [.evalSource "(report-of P/=x 5 1)", .evalSource "(last-slot P/f)"]
    let ran (config : EngineConfig) := Step.runAll 4 steps (ofRegistry r config)
    let rejected (name : String) : String :=
      "no applicable overload: " ++ name ++ " called with 2 argument(s) of type (Int, Int)"
    (ran {}).map (·.1.map Step.printed?) = some [some (rejected "x"), some "8"] ∧
    (ran { guardChainLimit := 0, variadicLookahead := 1 }).map (·.1.map Step.printed?) =
      some [some (rejected "=x"), some "1"] ∧
    ¬ Option.Rel (fun a b => List.Forall₂ (Step.ResultAlike r.hierarchy) a.1 b.1) (ran {})
      (ran { guardChainLimit := 0, variadicLookahead := 1 }) := by
  intro nothing r steps ran rejected
  have hdefault : (ran {}).map (·.1.map Step.printed?) = some [some (rejected "x"), some "8"] := by
    decide +kernel
  have hsmall : (ran { guardChainLimit := 0, variadicLookahead := 1 }).map (·.1.map Step.printed?) =
      some [some (rejected "=x"), some "1"] := by
    decide +kernel
  refine ⟨hdefault, hsmall, fun halike => ?_⟩
  generalize ran {} = a at hdefault halike
  generalize ran { guardChainLimit := 0, variadicLookahead := 1 } = b at hsmall halike
  cases halike with
  | none => cases hdefault
  | @some a b hresults =>
    have hprinted : a.1.map Step.printed? = b.1.map Step.printed? :=
      List.forall₂_eq_eq_eq ▸ List.forall₂_map_left_iff.2
        (List.forall₂_map_right_iff.2 (hresults.imp fun _ _ h => h.printed?_eq))
    have hlists : [some (rejected "x"), some "8"] = [some (rejected "=x"), some "1"] :=
      (Option.some.inj hdefault).symm.trans (hprinted.trans (Option.some.inj hsmall))
    exact absurd hlists (by decide)

end Interpreter

end Multimethod
