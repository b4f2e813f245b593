import Multimethod.Proofs.Eval.Alike
import Multimethod.Proofs.Eval.OverloadCall
import Multimethod.Proofs.Registry.Uniform

/-!
# Evaluations in lockstep

Where all natives are uniform, tasks alike are performed in lockstep from interpreters alike, whatever
the limits on guards and the lookaheads of the two engines.

* `Task.callTable_alike` — tables alike call the same candidate, or both reject the call.
* `Task.evalSpecial_alike` — special forms with operands alike.
* `Task.perform_alike` — tasks alike at any depth.
-/

namespace Multimethod

inductive Task.Alike (h : Hierarchy) : Task → Task → Prop
  | eval {v w : Value} (hvw : v.Alike h w) : Alike h (.eval v) (.eval w)
  | apply {v w : Value} {xs ys : List Value} (hvw : v.Alike h w) (hxys : Value.AlikeAll h xs ys) :
    Alike h (.apply v xs) (.apply w ys)

namespace Task

open EvalM

/-- Evaluations of values alike to values alike. -/
abbrev Lockstep (r : Registry) (m m' : EvalM Value) : Prop :=
  EvalM.Alike r (Value.Alike r.hierarchy) m m'

variable {r : Registry} {recur recur' : Task → EvalM Value}
  (hrec : ∀ task task', task.Alike r.hierarchy task' → Lockstep r (recur task) (recur' task'))

include hrec

theorem evalAll_alike {exprs exprs' : List Value} (hexprs : Value.AlikeAll r.hierarchy exprs exprs') :
    EvalM.Alike r (Value.AlikeAll r.hierarchy) (evalAll recur exprs) (evalAll recur' exprs') := by
  induction hexprs with
  | nil => exact .pure .nil
  | cons hexpr _ ih =>
    refine (hrec _ _ (.eval hexpr)).bind fun v w hvw => ih.bind fun vs ws hvws => ?_
    exact .pure (.cons hvw hvws)

theorem evalSequence_alike {last last' : Value} (hlast : last.Alike r.hierarchy last')
    {forms forms' : List Value} (hforms : Value.AlikeAll r.hierarchy forms forms') :
    Lockstep r (evalSequence recur last forms) (evalSequence recur' last' forms') := by
  induction hforms generalizing last last' with
  | nil => exact .pure hlast
  | cons hform _ ih => exact (hrec _ _ (.eval hform)).bind fun v w hvw => ih hvw

theorem evalSource_alike (source : String) :
    Lockstep r (evalSource recur source) (evalSource recur' source) := by
  unfold evalSource
  cases Reader.readAll source.toList with
  | ok forms => exact evalSequence_alike hrec (.refl _) (.refl forms)
  | error e => exact .throw (.refl _)

theorem loadFile_alike (path : String) :
    Lockstep r (loadFile recur path) (loadFile recur' path) := by
  unfold loadFile
  refine (EvalM.Alike.readFile path).bind fun source source' hsource => ?_
  subst hsource
  exact (EvalM.Alike.report _ _).bind fun _ _ _ => evalSource_alike hrec source

theorem answer_alike {request request' : Request} (hrequests : request.Alike r.hierarchy request') :
    Lockstep r (answer recur request) (answer recur' request') := by
  have hnull {m m' : EvalM PUnit} (hm : EvalM.Alike r Eq m m') :
      Lockstep r (m >>= fun _ => pure .null) (m' >>= fun _ => pure .null) :=
    hm.bind fun _ _ _ => .pure (.refl _)
  cases hrequests with
  | refl =>
    cases request with
    | eval expr => exact hrec _ _ (.eval (.refl expr))
    | evalSource source => exact evalSource_alike hrec source
    | apply callee args => exact hrec _ _ (.apply (.refl callee) (.refl args))
    | lookUp name => exact EvalM.Alike.valueOf name
    | bind name value => exact hnull (.rebind fun _ _ hbc => hbc.put name (.bound (.refl value)))
    | bindDefault name value => exact hnull (.rebind fun _ _ hbc => hbc.setDefault name (.refl value))
    | unbind name => exact hnull (.rebind fun _ _ hbc => hbc.put name .removed)
    | write text => exact hnull (.write text)
    | load path => exact loadFile_alike hrec path
    | importScope scope qualifier => exact hnull (.importScope scope qualifier)
    | make t cells => exact EvalM.Alike.makeObject t (.refl cells)
    | cell object place =>
      exact .get_bind fun i j hij => .pure (hij.objects.cell (.refl object) place)
    | setCell object place value =>
      exact hnull (.modify fun i j hij =>
        { hij with objects := hij.objects.setCell (.refl object) place (.refl value) })
  | eval hvw => exact hrec _ _ (.eval hvw)
  | apply hvw hxys => exact hrec _ _ (.apply hvw hxys)
  | bind name hvw => exact hnull (.rebind fun _ _ hbc => hbc.put name (.bound hvw))
  | bindDefault name hvw => exact hnull (.rebind fun _ _ hbc => hbc.setDefault name hvw)
  | make t hxys => exact EvalM.Alike.makeObject t hxys
  | cell hvw place => exact .get_bind fun i j hij => .pure (hij.objects.cell hvw place)
  | setCell hvw place hxy =>
    exact hnull (.modify fun i j hij =>
      { hij with objects := hij.objects.setCell hvw place hxy })

theorem runAction_alike {action action' : Action} (hactions : action.Alike r.hierarchy action') :
    Lockstep r (runAction recur action) (runAction recur' action') := by
  induction hactions with
  | done hresults =>
    cases hresults with
    | ok hanswers => exact .pure hanswers
    | error herrors => exact .throw herrors
  | request hrequests _ ih =>
    exact (answer_alike hrec hrequests).attempt.bind fun result result' hresults =>
      ih result result' hresults

/-! ## Calls -/

omit hrec in
theorem callArguments_alike (c : Candidate) {args args' : List Value}
    (hargs : Value.AlikeAll r.hierarchy args args') :
    Value.AlikeAll r.hierarchy (c.callArguments args) (c.callArguments args') := by
  have hfixed (params : List Ty) : Value.AlikeAll r.hierarchy
      (List.zipWith Value.widenTo params args) (List.zipWith Value.widenTo params args') := by
    induction hargs generalizing params with
    | nil => rw [List.zipWith_nil_right]; exact .nil
    | cons harg _ ih =>
      cases params with
      | nil => exact .nil
      | cons t rest => exact .cons (harg.widenTo t) (ih rest)
  unfold Candidate.callArguments
  refine List.rel_append (hfixed c.params) ?_
  split
  · exact .cons (.list (List.forall₂_drop c.arity hargs)) .nil
  · exact .nil

omit hrec in
theorem rejection_alike (name name' : String) {args args' : List Value}
    (hargs : Value.AlikeAll r.hierarchy args args') :
    RuntimeError.Alike r.hierarchy (rejection name args) (rejection name' args') := by
  unfold rejection
  rw [hargs.map_ty_eq]
  exact .dispatch (.noApplicableOverload name name' _)

variable (huniform : r.IsUniform)

include huniform

theorem runMember_alike (c : Candidate) {args args' : List Value}
    (hargs : Value.AlikeAll r.hierarchy args args') :
    Lockstep r (runMember recur c args) (runMember recur' c args') := by
  unfold runMember
  refine .get_bind fun i j hij => ?_
  rw [← hij.engine.provider, hij.engine.registry]
  cases hmember : r.member? c.owner c.index with
  | none => exact .throw (rejection_alike _ _ hargs)
  | some m =>
    obtain ⟨declaration, body⟩ := m
    cases body with
    | constant value => exact .pure (.refl value)
    | native run =>
      have hmem := List.mem_of_getElem? hmember
      have hactions := huniform c.owner _ hmem run rfl _ _ (callArguments_alike c hargs)
      exact runAction_alike hrec hactions

theorem callCandidate_alike (c : Candidate) {args args' : List Value}
    (hargs : Value.AlikeAll r.hierarchy args args') :
    Lockstep r (callCandidate recur c args) (callCandidate recur' c args') := by
  unfold callCandidate
  refine EvalM.Alike.hierarchy.bind fun h h' hh => ?_
  rw [hh.1, hh.2, hargs.map_ty_eq]
  split
  · exact runMember_alike hrec huniform c hargs
  · exact .throw (rejection_alike _ _ hargs)

omit hrec huniform in
/-- A table that selects no candidate that accepts the arguments rejects the call. -/
theorem runFrom_callTable_of_none (recur : Task → EvalM Value) {t : DispatchTable}
    {args : List Value} {i : Interpreter}
    (hnone : (t.select i.engine.hierarchy (args.map Value.ty)).filter
      (·.accepts i.engine.hierarchy (args.map Value.ty)) = none) :
    ∃ name events, (callTable recur t args).runFrom i = some (.error (rejection name args),
      { i with engine := { i.engine with events } }) := by
  unfold callTable
  rw [runFrom_hierarchy_bind]
  cases hselect : t.select i.engine.hierarchy (args.map Value.ty) with
  | none => exact ⟨t.name, i.engine.events, rfl⟩
  | some c =>
    rw [hselect, Option.filter_eq_none_iff] at hnone
    refine ⟨c.name, .overloadSelected (c.signature i.engine.hierarchy) :: i.engine.events, ?_⟩
    exact callCandidate_of_not_accepts recur (hnone c rfl)

/-- **Tables alike call the same candidate,** or both reject the call. -/
theorem callTable_alike {t u : DispatchTable} (htu : t.Alike r.hierarchy u) {args args' : List Value}
    (hargs : Value.AlikeAll r.hierarchy args args') :
    Lockstep r (callTable recur t args) (callTable recur' u args') := by
  have haccepted := htu.accepted (args.map Value.ty)
  cases hfirst : (t.select r.hierarchy (args.map Value.ty)).filter
      (·.accepts r.hierarchy (args.map Value.ty)) with
  | none =>
    rw [hfirst] at haccepted
    intro i j hij
    have hleft : _ = none := hij.engine.hierarchy_eq ▸ hfirst
    have hright : _ = none := hargs.map_ty_eq ▸ hij.engine.hierarchy_eq' ▸ haccepted.symm
    obtain ⟨name, events, hrun⟩ := runFrom_callTable_of_none recur hleft
    obtain ⟨name', events', hrun'⟩ := runFrom_callTable_of_none recur' hright
    rw [hrun, hrun']
    exact .some ⟨.error (rejection_alike name name' hargs),
      { hij with engine := { hij.engine with } }⟩
  | some c =>
    rw [hfirst] at haccepted
    have hleft := (Option.filter_eq_some_iff.1 hfirst).1
    have hright := (Option.filter_eq_some_iff.1 haccepted.symm).1
    unfold callTable
    refine EvalM.Alike.hierarchy.bind fun h h' hh => ?_
    rw [hh.1, hh.2, ← hargs.map_ty_eq, hleft, hright]
    exact (EvalM.Alike.report _ _).bind fun _ _ _ => callCandidate_alike hrec huniform c hargs

omit huniform in
theorem callSelector_alike (name : String) (member : SelectorMember name) {args args' : List Value}
    (hargs : Value.AlikeAll r.hierarchy args args') :
    Lockstep r (callSelector recur name member args) (callSelector recur' name member args') := by
  cases hargs with
  | nil => exact .throw (.refl _)
  | @cons receiver receiver' rest rest' hreceiver hrest =>
    have hunbound : Lockstep r
        (do throw (.dispatch (.unboundName
          ((← EvalM.hierarchy).typeName receiver.ty ++ "." ++ member.val.surface))))
        (do throw (.dispatch (.unboundName
          ((← EvalM.hierarchy).typeName receiver.ty ++ "." ++ member.val.surface)))) := by
      refine EvalM.Alike.hierarchy.bind fun h h' hh => ?_
      rw [hh.1, hh.2]
      exact .throw (.refl _)
    show Lockstep r (EvalM.dispatch _ >>= _) (EvalM.dispatch _ >>= _)
    rw [← hreceiver.ty_eq]
    refine (EvalM.Alike.dispatch (Engine.resolveMember_alike receiver.ty member.val .instance
      false)).bind fun answer answer' hanswer => ?_
    cases hanswer with
    | none => exact hunbound
    | @some value value' hvalues =>
      cases hvalues with
      | refl =>
        cases value with
        | procedure callable => exact hrec _ _ (.apply (.refl _) (.cons hreceiver hrest))
        | _ => exact hunbound
      | procedure hcallables =>
        exact hrec _ _ (.apply (.procedure hcallables) (.cons hreceiver hrest))
      | list _ => exact hunbound

theorem applyValue_alike {callee callee' : Value} (hcallee : callee.Alike r.hierarchy callee')
    {args args' : List Value} (hargs : Value.AlikeAll r.hierarchy args args') :
    Lockstep r (applyValue recur callee args) (applyValue recur' callee' args') := by
  have hcallable {a b : Callable} (hab : a.Alike r.hierarchy b) :
      Lockstep r (applyValue recur (.procedure a) args) (applyValue recur' (.procedure b) args') := by
    cases hab with
    | refl =>
      cases a with
      | direct c => exact callCandidate_alike hrec huniform c hargs
      | table t => exact callTable_alike hrec huniform ⟨rfl, rfl, fun _ => rfl⟩ hargs
      | selector name member => exact callSelector_alike hrec name member hargs
    | table _ htables => exact callTable_alike hrec huniform htables hargs
  cases hcallee with
  | refl =>
    cases callee with
    | procedure a => exact hcallable (.refl a)
    | _ => exact .throw (.refl _)
  | procedure hcallables => exact hcallable hcallables
  | list hitems => exact .throw (.dispatch (.notCallable (.list hitems)))

/-! ## Forms -/

omit huniform in
theorem evalDefinition_alike (name : String) {expr expr' : Value}
    (hexpr : expr.Alike r.hierarchy expr') :
    Lockstep r (evalDefinition recur name expr) (evalDefinition recur' name expr') :=
  (hrec _ _ (.eval hexpr)).bind fun _ _ hvw =>
    (EvalM.Alike.rebind fun _ _ hbc => hbc.put name (.bound hvw)).bind fun _ _ _ => .pure (.refl _)

omit huniform in
theorem evalChoice_alike {test test' consequent consequent' alternative alternative' : Value}
    (htest : test.Alike r.hierarchy test') (hconsequent : consequent.Alike r.hierarchy consequent')
    (halternative : alternative.Alike r.hierarchy alternative') :
    Lockstep r (evalChoice recur test consequent alternative)
      (evalChoice recur' test' consequent' alternative') := by
  refine (hrec _ _ (.eval htest)).bind fun v w hvw => ?_
  rw [hvw.isTrue_eq]
  split
  · exact hrec _ _ (.eval hconsequent)
  · exact hrec _ _ (.eval halternative)

omit huniform in
theorem evalSpecial_alike (head : String) {operands operands' : List Value}
    (hoperands : Value.AlikeAll r.hierarchy operands operands') (isBound isBound' : Bool) :
    Lockstep r (evalSpecial recur head operands isBound)
      (evalSpecial recur' head operands' isBound') := by
  unfold evalSpecial
  split
  · rcases hoperands with _ | ⟨hdatum, _ | _⟩
    exact .pure hdatum
  · rcases hoperands with _ | ⟨hname, _ | ⟨hexpr, _ | _⟩⟩
    cases hname
    exact evalDefinition_alike hrec _ hexpr
  · rcases hoperands with _ | ⟨hname, _ | ⟨hexpr, _ | _⟩⟩
    cases hname
    exact evalDefinition_alike hrec _ hexpr
  · exact evalSequence_alike hrec (.refl _) hoperands
  · rcases hoperands with _ | ⟨htest, _ | ⟨hconsequent, _ | _⟩⟩
    exact evalChoice_alike hrec htest hconsequent (.refl _)
  · rcases hoperands with _ | ⟨htest, _ | ⟨hconsequent, _ | ⟨halternative, _ | _⟩⟩⟩
    exact evalChoice_alike hrec htest hconsequent halternative
  · -- what is malformed on one side is so on the other, since operands alike have one shape
    rename_i hbegin hquote hset hdefine hif hifElse
    split
    · rcases hoperands with _ | ⟨hdatum, _ | _⟩
      exact absurd rfl (hquote _ rfl)
    · rcases hoperands with _ | ⟨hname, _ | ⟨hexpr, _ | _⟩⟩
      cases hname
      exact absurd rfl (hset _ _ rfl)
    · rcases hoperands with _ | ⟨hname, _ | ⟨hexpr, _ | _⟩⟩
      cases hname
      exact absurd rfl (hdefine _ _ rfl)
    · exact absurd rfl hbegin
    · rcases hoperands with _ | ⟨htest, _ | ⟨hconsequent, _ | _⟩⟩
      exact absurd rfl (hif _ _ rfl)
    · rcases hoperands with _ | ⟨htest, _ | ⟨hconsequent, _ | ⟨halternative, _ | _⟩⟩⟩
      exact absurd rfl (hifElse _ _ _ rfl)
    · exact (EvalM.Alike.report _ _).bind fun _ _ _ =>
        .throw (.compile (.list (.cons (.refl _) hoperands)))

omit huniform in
theorem evalExpr_alike {expr expr' : Value} (hexpr : expr.Alike r.hierarchy expr') :
    Lockstep r (evalExpr recur expr) (evalExpr recur' expr') := by
  have hcall {callee callee' : Value} (hcallee : callee.Alike r.hierarchy callee')
      {operands operands' : List Value} (hoperands : Value.AlikeAll r.hierarchy operands operands') :
      Lockstep r (evalCall recur callee operands) (evalCall recur' callee' operands') :=
    (evalAll_alike hrec hoperands).bind fun args args' hargs => hrec _ _ (.apply hcallee hargs)
  have hlist {items items' : List Value} (hitems : Value.AlikeAll r.hierarchy items items') :
      Lockstep r (evalExpr recur (.list items)) (evalExpr recur' (.list items')) := by
    cases hitems with
    | nil => exact .pure (.refl _)
    | @cons head head' operands operands' hhead hoperands =>
      have hnested (hhead : head.Alike r.hierarchy head') :
          Lockstep r (do evalCall recur (← recur (.eval head)) operands)
            (do evalCall recur' (← recur' (.eval head')) operands') :=
        (hrec _ _ (.eval hhead)).bind fun callee callee' hcallee => hcall hcallee hoperands
      cases hhead with
      | refl =>
        cases head with
        | symbol name =>
          refine (EvalM.Alike.lookUp name).bind fun answer answer' hanswer => ?_
          have hspecial := evalSpecial_alike hrec name hoperands
          cases hanswer with
          | none => exact hspecial false false
          | @some value value' hvalues =>
            cases hvalues with
            | refl =>
              cases value with
              | procedure callable => exact hcall (.refl _) hoperands
              | _ => exact hspecial true true
            | procedure hcallables => exact hcall (.procedure hcallables) hoperands
            | list _ => exact hspecial true true
        | _ => exact hnested (.refl _)
      | procedure hcallables => exact hnested (.procedure hcallables)
      | list hitems => exact hnested (.list hitems)
  cases hexpr with
  | refl =>
    cases expr with
    | symbol name => exact EvalM.Alike.valueOf name
    | list items => exact hlist (.refl items)
    | _ => exact .pure (.refl _)
  | procedure hcallables => exact .pure (.procedure hcallables)
  | list hitems => exact hlist hitems

theorem step_alike {task task' : Task} (htasks : task.Alike r.hierarchy task') :
    Lockstep r (step recur task) (step recur' task') := by
  cases htasks with
  | eval hvw => exact evalExpr_alike hrec hvw
  | apply hvw hxys => exact applyValue_alike hrec huniform hvw hxys

omit hrec in
/-- **Tasks alike are performed in lockstep** at any depth. -/
theorem perform_alike (depth : Nat) {task task' : Task} (htasks : task.Alike r.hierarchy task') :
    Lockstep r (perform depth task) (perform depth task') := by
  induction depth generalizing task task' with
  | zero => exact .exhausted
  | succ depth ih => exact step_alike (fun _ _ h => ih h) huniform htasks

end Task

end Multimethod
