import Multimethod.Proofs.Engine.Growth
import Multimethod.Proofs.Eval.Bindings
import Multimethod.Proofs.Eval.Stable

/-!
# What evaluations assign

An evaluation changes the bindings by the `set!` and `define` forms that it executes and by nothing else,
if no native asks for changes of them. A form is executed once its value expression has a value, however
the evaluation around it ends. The forms inside a step are told from the evaluations inside it, each from
the interpreter it starts from.

* `Task.assigned` — what the forms assign that an evaluation or a call executes, in order.
* `Registry.LeavesBindings` — no native of the registry asks for changes of the bindings.
* `Task.assigns_perform` — evaluations and calls leave the bindings with what was assigned, one after the
  other, whether they succeed or fail.
-/

namespace Multimethod

abbrev Assignment := String × Value

namespace Assignment

/-- An assignment as a change of the bindings. -/
def change (a : Assignment) : BindingChange := .set a.1 a.2

end Assignment

/-- What something assigns, from the interpreter that it starts from. -/
abbrev AssignmentLog := Interpreter → List Assignment

/-! ## What steps assign -/

/-- What is assigned after an evaluation, which has to succeed for that. -/
def EvalM.after {α : Type} (m : EvalM α) (next : α → AssignmentLog) : AssignmentLog := fun i =>
  match m.runFrom i with
  | some (.ok a, j) => next a j
  | _ => []

namespace Task

section logs

-- what is performed inside a step, and what that assigns
variable (recur : Task → EvalM Value) (log : Task → AssignmentLog)

/-- What expressions assign that are evaluated in turn. -/
def assignedAll : List Value → AssignmentLog
  | [] => fun _ => []
  | expr :: rest => fun i =>
    log (.eval expr) i ++ (recur (.eval expr)).after (fun _ => assignedAll rest) i

def assignedSource (source : String) : AssignmentLog :=
  match Reader.readAll source.toList with
  | .ok forms => assignedAll recur log forms
  | .error _ => fun _ => []

def assignedFile (path : String) : AssignmentLog :=
  (EvalM.readFile path).after fun source =>
    (EvalM.report (.fileLoaded path)).after fun _ => assignedSource recur log source

/-- What the answer to a native's request assigns. -/
def assignedAnswer : Request → AssignmentLog
  | .eval expr => log (.eval expr)
  | .evalSource source => assignedSource recur log source
  | .apply callee args => log (.apply callee args)
  | .load path => assignedFile recur log path
  | _ => fun _ => []

/-- What the answers to all requests of a native assign. -/
def assignedAction : Action → AssignmentLog
  | .done _ => fun _ => []
  | .request request next => fun i =>
    assignedAnswer recur log request i ++
      (EvalM.attempt (answer recur request)).after (fun result => assignedAction (next result)) i

def assignedMember (c : Candidate) (args : List Value) : AssignmentLog :=
  (get : EvalM Interpreter).after fun i =>
    match i.engine.provider.registry.member? c.owner c.index with
    | some { body := .native run, .. } => assignedAction recur log (run (c.callArguments args))
    | _ => fun _ => []

def assignedCandidate (c : Candidate) (args : List Value) : AssignmentLog :=
  EvalM.hierarchy.after fun h =>
    if c.accepts h (args.map Value.ty) then assignedMember recur log c args else fun _ => []

def assignedTable (t : DispatchTable) (args : List Value) : AssignmentLog :=
  EvalM.hierarchy.after fun h =>
    match t.select h (args.map Value.ty) with
    | some c =>
      (EvalM.report (.overloadSelected (c.signature h))).after fun _ => assignedCandidate recur log c args
    | none => fun _ => []

def assignedSelector (name : String) (member : SelectorMember name) (args : List Value) :
    AssignmentLog :=
  match args with
  | [] => fun _ => []
  | receiver :: _ =>
    (EvalM.dispatch (Engine.resolveMember receiver.ty member.val .instance false)).after fun
      | some (.procedure callable) => log (.apply (.procedure callable) args)
      | _ => fun _ => []

def assignedApply (callee : Value) (args : List Value) : AssignmentLog :=
  match callee with
  | .procedure (.direct c) => assignedCandidate recur log c args
  | .procedure (.table t) => assignedTable recur log t args
  | .procedure (.selector name member) => assignedSelector log name member args
  | _ => fun _ => []

/-- What `set!` and `define` assign: first what the value expression does, and then, if it has a value,
that value. -/
def assignedDefinition (name : String) (expr : Value) : AssignmentLog := fun i =>
  log (.eval expr) i ++ (recur (.eval expr)).after (fun value _ => [(name, value)]) i

/-- What a choice assigns: what the test does, and then the expression that it chooses. -/
def assignedChoice (test consequent alternative : Value) : AssignmentLog := fun i =>
  log (.eval test) i ++ (recur (.eval test)).after
    (fun value => if value.isTrue then log (.eval consequent) else log (.eval alternative)) i

def assignedSpecial (head : String) (operands : List Value) : AssignmentLog :=
  match head, operands with
  | "quote", [_] => fun _ => []
  | "set!", [.symbol name, expr] => assignedDefinition recur log name expr
  | "define", [.symbol name, expr] => assignedDefinition recur log name expr
  | "begin", body => assignedAll recur log body
  | "if", [test, consequent] => assignedChoice recur log test consequent .null
  | "if", [test, consequent, alternative] => assignedChoice recur log test consequent alternative
  | _, _ => fun _ => []

/-- What a call assigns: what its operands do, and then the procedure. -/
def assignedCall (callee : Value) (operands : List Value) : AssignmentLog := fun i =>
  assignedAll recur log operands i ++
    (evalAll recur operands).after (fun args => log (.apply callee args)) i

def assignedExpr (expr : Value) : AssignmentLog :=
  match expr with
  | .symbol _ => fun _ => []
  | .list (.symbol name :: operands) =>
    (EvalM.lookUp name).after fun
      | some (.procedure callable) => assignedCall recur log (.procedure callable) operands
      | _ => assignedSpecial recur log name operands
  | .list (head :: operands) => fun i =>
    log (.eval head) i ++
      (recur (.eval head)).after (fun callee => assignedCall recur log callee operands) i
  | _ => fun _ => []

def assignedStep : Task → AssignmentLog
  | .eval expr => assignedExpr recur log expr
  | .apply callee args => assignedApply recur log callee args

end logs

/-- What is assigned by performing a task with at most `depth` steps inside one another. -/
def assigned : (depth : Nat) → Task → AssignmentLog
  | 0, _ => fun _ => []
  | depth + 1, task => assignedStep (perform depth) (assigned depth) task

end Task

/-! ## Natives that leave the bindings alone -/

/-- Does the request change the bindings itself? -/
def Request.isRebinding : Request → Bool
  | .bind _ _ | .bindDefault _ _ | .unbind _ => true
  | _ => false

/-- The run of a native asks for no change of the bindings, whatever it is answered. -/
inductive Action.LeavesBindings : Action → Prop
  | done (result : Except RuntimeError Value) : LeavesBindings (.done result)
  | request {request : Request} {next : Except RuntimeError Value → Action}
      (hrequest : request.isRebinding = false) (hnext : ∀ answer, LeavesBindings (next answer)) :
      LeavesBindings (.request request next)

/-- The native asks for no change of the bindings. -/
def Native.LeavesBindings (run : Native) : Prop := ∀ args, (run args).LeavesBindings

/-- The member is no native that asks for changes of the bindings. -/
def Member.LeavesBindings (m : Member) : Prop := ∀ run, m.body = .native run → run.LeavesBindings

/-- No native of the registry asks for changes of the bindings. -/
def Registry.LeavesBindings (r : Registry) : Prop := ∀ t, ∀ m ∈ r.membersOf t, m.LeavesBindings

theorem Registry.LeavesBindings.member? {r : Registry} (hr : r.LeavesBindings) {owner : Ty}
    {index : Nat} {m : Member} (hm : r.member? owner index = some m) : m.LeavesBindings :=
  hr owner m (List.mem_of_getElem? hm)

/-! ## Evaluations assign no more -/

def Bindings.assignAll (b : Bindings) (log : List Assignment) : Bindings :=
  BindingChange.makeAll (log.map Assignment.change) b

theorem Bindings.assignAll_append (b : Bindings) (log more : List Assignment) :
    b.assignAll (log ++ more) = (b.assignAll log).assignAll more := by
  unfold assignAll
  rw [List.map_append, BindingChange.makeAll_append]

theorem Bindings.find?_assignAll (log : List Assignment) (b : Bindings) (name : String) :
    (b.assignAll log).find? name = b.find? name ∨
      ∃ value, (name, value) ∈ log ∧ (b.assignAll log).find? name = some (.bound value) := by
  induction log generalizing b with
  | nil => exact .inl rfl
  | cons a log ih =>
    obtain ⟨changed, value⟩ := a
    have hassign : b.assignAll ((changed, value) :: log) = (b.set changed value).assignAll log := rfl
    rw [hassign]
    obtain hkept | ⟨later, hmem, hlater⟩ := ih (b.set changed value)
    · rw [hkept, find?_set]
      split
      · rename_i hname
        exact .inr ⟨value, hname ▸ List.mem_cons_self, rfl⟩
      · exact .inl rfl
    · exact .inr ⟨later, List.mem_cons_of_mem _ hmem, hlater⟩

/-- The registry of an engine stays as it is, whatever is done with the engine. -/
theorem Engine.stable_registry (r : Registry) :
    Engine.Stable (fun _ => True) fun e => e.provider.registry = r where
  spelled _ := trivial
  report _ h := h
  withImports _ h := h
  withOutages _ h := h
  resolveMember {e} t member origin bindReceiver _ h :=
    (resolveMember_grows e t member origin bindReceiver e (.refl e)).2.registry.trans h

namespace EvalM

/-- Over this registry, the evaluation leaves the bindings with what the log says was assigned. -/
def Assigns {α : Type} (r : Registry) (m : EvalM α) (log : AssignmentLog) : Prop :=
  ∀ i, i.engine.provider.registry = r → ∀ result j, m.runFrom i = some (result, j) →
    j.engine.provider.registry = r ∧ j.bindings = i.bindings.assignAll (log i)

namespace Assigns

variable {α β : Type} {r : Registry} {m : EvalM α} {log : AssignmentLog}

theorem after_of_ok {next : α → AssignmentLog} {i j : Interpreter} {a : α}
    (h : m.runFrom i = some (.ok a, j)) : m.after next i = next a j := by
  unfold EvalM.after
  rw [h]

theorem after_of_error {next : α → AssignmentLog} {i j : Interpreter} {e : RuntimeError}
    (h : m.runFrom i = some (.error e, j)) : m.after next i = [] := by
  unfold EvalM.after
  rw [h]

theorem of_keeps (hengine : KeepsEngine (fun e => e.provider.registry = r) m)
    (hbindings : ∀ b, Keeps (fun i => i.bindings = b) m) : Assigns r m fun _ => [] :=
  fun i hi result j hrun => ⟨hengine i hi result j hrun, hbindings i.bindings i rfl result j hrun⟩

theorem pure (a : α) : Assigns r (pure a) fun _ => [] := of_keeps (.pure a) fun _ => .pure a

theorem throw (e : RuntimeError) : Assigns r (throw e : EvalM α) fun _ => [] :=
  of_keeps (.throw e) fun _ => .throw e

/-- First one thing assigns, and then, if it succeeds, the other. -/
theorem bind {f : α → EvalM β} {next : α → AssignmentLog} (hm : Assigns r m log)
    (hf : ∀ a, Assigns r (f a) (next a)) : Assigns r (m >>= f) fun i => log i ++ m.after next i := by
  intro i hi result j hrun
  rw [runFrom_bind] at hrun
  cases hfirst : m.runFrom i with
  | none =>
    rw [hfirst] at hrun
    cases hrun
  | some first =>
    obtain ⟨e | a, k⟩ := first
    · rw [hfirst] at hrun
      cases hrun
      obtain ⟨hregistry, hbindings⟩ := hm i hi _ _ hfirst
      refine ⟨hregistry, ?_⟩
      dsimp only
      rw [hbindings, after_of_error hfirst, List.append_nil]
    · rw [hfirst] at hrun
      obtain ⟨hregistry, hbindings⟩ := hm i hi _ _ hfirst
      obtain ⟨hlater, hdone⟩ := hf a k hregistry _ _ hrun
      refine ⟨hlater, ?_⟩
      dsimp only
      rw [hdone, hbindings, after_of_ok hfirst, Bindings.assignAll_append]

/-- What assigns nothing comes before the rest. -/
theorem before {f : α → EvalM β} {next : α → AssignmentLog} (hm : Assigns r m fun _ => [])
    (hf : ∀ a, Assigns r (f a) (next a)) : Assigns r (m >>= f) (m.after next) := hm.bind hf

/-- What assigns nothing comes after the rest. -/
theorem followedBy {f : α → EvalM β} (hm : Assigns r m log) (hf : ∀ a, Assigns r (f a) fun _ => []) :
    Assigns r (m >>= f) log := by
  have hlog : (fun i => log i ++ m.after (fun _ _ => []) i) = log := by
    funext i
    have hafter : m.after (fun _ _ => []) i = [] := by
      unfold EvalM.after
      split <;> rfl
    rw [hafter, List.append_nil]
  exact hlog ▸ hm.bind hf

theorem of_get {f : Interpreter → EvalM α} {next : Interpreter → AssignmentLog}
    (hf : ∀ i, i.engine.provider.registry = r → Assigns r (f i) (next i)) :
    Assigns r (get >>= f) ((get : EvalM Interpreter).after next) := by
  intro i hi result j hrun
  rw [runFrom_get_bind] at hrun
  exact hf i hi i hi result j hrun

theorem attempt (hm : Assigns r m log) : Assigns r (attempt m) log := by
  intro i hi result j hrun
  rw [runFrom_attempt] at hrun
  obtain ⟨⟨inner, k⟩, hinner, hjoin⟩ := Option.map_eq_some_iff.1 hrun
  cases hjoin
  exact hm i hi _ _ hinner

end Assigns

/-! ### What assigns nothing -/

variable {r : Registry}

theorem assigns_dispatch {α : Type} {m : DispatchM α}
    (hm : DispatchM.Keeps (fun e => e.provider.registry = r) m fun _ => True) :
    Assigns r (dispatch m) fun _ => [] := by
  refine .of_keeps (Engine.Stable.keeps_dispatch hm) fun b i hi result j hrun => ?_
  rw [runFrom_dispatch] at hrun
  cases hrun
  exact hi

theorem assigns_resolveMember (t : Ty) (member : MemberName) (origin : OriginFilter) (bindReceiver : Bool) :
    Assigns r (dispatch (Engine.resolveMember t member origin bindReceiver)) fun _ => [] :=
  assigns_dispatch ((Engine.stable_registry r).keeps_resolveMember t origin bindReceiver trivial)

theorem assigns_report (event : Event) : Assigns r (report event) fun _ => [] :=
  .of_keeps ((Engine.stable_registry r).keeps_report event) fun _ => .modify fun _ hi => hi

theorem assigns_get : Assigns r (get : EvalM Interpreter) fun _ => [] := .of_keeps .get fun _ => .get

theorem assigns_modify {f : Interpreter → Interpreter} (hengine : ∀ i, (f i).engine = i.engine)
    (hbindings : ∀ i, (f i).bindings = i.bindings) : Assigns r (modify f) fun _ => [] :=
  .of_keeps (Engine.Stable.keeps_modify hengine) fun _ => .modify fun i hi => (hbindings i).trans hi

theorem assigns_write (text : String) : Assigns r (write text) fun _ => [] := by
  refine .of_keeps (Engine.Stable.keeps_write text) fun b i hi result j hrun => ?_
  unfold write at hrun
  rw [runFrom_get_bind] at hrun
  split at hrun
  · cases htext : text.isEmpty <;> (rw [htext] at hrun; cases hrun; exact hi)
  · cases hrun
    exact hi

theorem assigns_readFile (path : String) : Assigns r (readFile path) fun _ => [] := by
  unfold readFile
  refine Assigns.followedBy (assigns_modify ?_ ?_) fun _ => assigns_get.followedBy fun i => ?_
  · exact fun _ => rfl
  · exact fun _ => rfl
  cases i.files.read path with
  | ok contents => exact .pure contents
  | error problem => exact .throw _

theorem assigns_importScope (scope : String) (qualifier : Option String) :
    Assigns r (importScope scope qualifier) fun _ => [] := by
  refine .of_keeps ((Engine.stable_registry r).keeps_importScope scope qualifier)
    fun b i hi result j hrun => ?_
  unfold importScope at hrun
  rw [runFrom_get_bind] at hrun
  cases hscope : i.engine.findType? scope <;> (rw [hscope] at hrun; cases hrun; exact hi)

theorem assigns_makeObject (t : Ty) (cells : List Value) : Assigns r (makeObject t cells) fun _ => [] := by
  refine .of_keeps (Engine.Stable.keeps_makeObject t cells) fun b i hi result j hrun => ?_
  unfold makeObject at hrun
  cases t <;> (cases hrun; exact hi)

theorem assigns_hierarchy : Assigns r hierarchy fun _ => [] := assigns_get.followedBy fun _ => .pure _

theorem assigns_lookUp (name : String) : Assigns r (lookUp name) fun _ => [] := by
  unfold lookUp
  refine assigns_get.followedBy fun i => ?_
  split
  · exact .pure _
  · exact .pure _
  · exact assigns_dispatch ((Engine.stable_registry r).keeps_resolve name none)

theorem assigns_valueOf (name : String) : Assigns r (EvalM.valueOf name) fun _ => [] := by
  unfold EvalM.valueOf
  refine (assigns_lookUp name).followedBy fun answer => ?_
  cases answer with
  | some value => exact .pure value
  | none => exact .throw _

theorem assigns_set (name : String) (value : Value) :
    Assigns r (rebind (·.set name value)) fun _ => [(name, value)] := by
  intro i hi result j hrun
  cases hrun
  exact ⟨hi, rfl⟩

end EvalM

namespace Task

open EvalM

section steps

variable {r : Registry} {recur : Task → EvalM Value} {log : Task → AssignmentLog}
  (hrec : ∀ task, Assigns r (recur task) (log task))

include hrec

theorem assigns_evalAll (exprs : List Value) :
    Assigns r (evalAll recur exprs) (assignedAll recur log exprs) := by
  induction exprs with
  | nil => exact .pure []
  | cons expr rest ih => exact (hrec _).bind fun value => ih.followedBy fun values => .pure _

theorem assigns_evalSequence (last : Value) (forms : List Value) :
    Assigns r (evalSequence recur last forms) (assignedAll recur log forms) := by
  induction forms generalizing last with
  | nil => exact .pure last
  | cons form rest ih => exact (hrec _).bind fun value => ih value

theorem assigns_evalSource (source : String) :
    Assigns r (evalSource recur source) (assignedSource recur log source) := by
  unfold evalSource assignedSource
  cases Reader.readAll source.toList with
  | ok forms => exact assigns_evalSequence hrec _ forms
  | error e => exact .throw _

theorem assigns_loadFile (path : String) : Assigns r (loadFile recur path) (assignedFile recur log path) :=
  (assigns_readFile path).before fun source =>
    (assigns_report _).before fun _ => assigns_evalSource hrec source

/-- The answer to a request that changes no binding itself assigns what is evaluated for it. -/
theorem assigns_answer {request : Request} (hrequest : request.isRebinding = false) :
    Assigns r (answer recur request) (assignedAnswer recur log request) := by
  cases request with
  | eval expr => exact hrec _
  | evalSource source => exact assigns_evalSource hrec source
  | apply callee args => exact hrec _
  | lookUp name => exact assigns_valueOf name
  | bind name value => cases hrequest
  | bindDefault name value => cases hrequest
  | unbind name => cases hrequest
  | write text => exact (assigns_write text).followedBy fun _ => .pure _
  | load path => exact assigns_loadFile hrec path
  | importScope scope qualifier => exact (assigns_importScope scope qualifier).followedBy fun _ => .pure _
  | make t cells => exact assigns_makeObject t cells
  | cell object place => exact assigns_get.followedBy fun _ => .pure _
  | setCell object place value =>
    refine Assigns.followedBy (assigns_modify ?_ ?_) fun _ => .pure _
    · exact fun _ => rfl
    · exact fun _ => rfl

theorem assigns_runAction {action : Action} (haction : action.LeavesBindings) :
    Assigns r (runAction recur action) (assignedAction recur log action) := by
  induction haction with
  | done result =>
    cases result with
    | ok value => exact .pure value
    | error e => exact .throw e
  | request hrequest _ ih => exact (assigns_answer hrec hrequest).attempt.bind fun result => ih result

variable (hr : r.LeavesBindings)

include hr

theorem assigns_runMember (c : Candidate) (args : List Value) :
    Assigns r (runMember recur c args) (assignedMember recur log c args) := by
  refine .of_get fun i hi => ?_
  subst hi
  cases hmember : i.engine.provider.registry.member? c.owner c.index with
  | none => exact .throw _
  | some m =>
    obtain ⟨declaration, run | value⟩ := m
    · exact assigns_runAction hrec (hr.member? hmember run rfl _)
    · exact .pure value

theorem assigns_callCandidate (c : Candidate) (args : List Value) :
    Assigns r (callCandidate recur c args) (assignedCandidate recur log c args) := by
  refine assigns_hierarchy.before fun h => ?_
  split
  · exact assigns_runMember hrec hr c args
  · exact .throw _

theorem assigns_callTable (t : DispatchTable) (args : List Value) :
    Assigns r (callTable recur t args) (assignedTable recur log t args) := by
  refine assigns_hierarchy.before fun h => ?_
  cases t.select h (args.map Value.ty) with
  | some c => exact (assigns_report _).before fun _ => assigns_callCandidate hrec hr c args
  | none => exact .throw _

omit hr in
theorem assigns_callSelector (name : String) (member : SelectorMember name) (args : List Value) :
    Assigns r (callSelector recur name member args) (assignedSelector log name member args) := by
  cases args with
  | nil => exact .throw _
  | cons receiver rest =>
    refine (assigns_resolveMember _ _ _ _).before fun answer => ?_
    cases answer with
    | none => exact assigns_hierarchy.followedBy fun _ => .throw _
    | some value =>
      cases value with
      | procedure callable => exact hrec _
      | _ => exact assigns_hierarchy.followedBy fun _ => .throw _

theorem assigns_applyValue (callee : Value) (args : List Value) :
    Assigns r (applyValue recur callee args) (assignedApply recur log callee args) := by
  cases callee with
  | procedure callable =>
    cases callable with
    | direct c => exact assigns_callCandidate hrec hr c args
    | table t => exact assigns_callTable hrec hr t args
    | selector name member => exact assigns_callSelector hrec name member args
  | _ => exact .throw _

omit hr

theorem assigns_evalDefinition (name : String) (expr : Value) :
    Assigns r (evalDefinition recur name expr) (assignedDefinition recur log name expr) :=
  (hrec _).bind fun value => (assigns_set name value).followedBy fun _ => .pure _

theorem assigns_evalChoice (test consequent alternative : Value) :
    Assigns r (evalChoice recur test consequent alternative)
      (assignedChoice recur log test consequent alternative) := by
  refine (hrec _).bind fun value => ?_
  split
  · exact hrec _
  · exact hrec _

theorem assigns_evalSpecial (head : String) (operands : List Value) (isBound : Bool) :
    Assigns r (evalSpecial recur head operands isBound) (assignedSpecial recur log head operands) := by
  unfold evalSpecial
  split
  · exact .pure _
  · exact assigns_evalDefinition hrec _ _
  · exact assigns_evalDefinition hrec _ _
  · exact assigns_evalSequence hrec _ _
  · exact assigns_evalChoice hrec _ _ _
  · exact assigns_evalChoice hrec _ _ _
  · -- what is no special form assigns nothing
    have hnone : assignedSpecial recur log head operands = fun _ => [] := by
      unfold assignedSpecial
      split
      all_goals first
        | rfl
        | simp_all
    rw [hnone]
    exact (assigns_report _).followedBy fun _ => .throw _

theorem assigns_evalCall (callee : Value) (operands : List Value) :
    Assigns r (evalCall recur callee operands) (assignedCall recur log callee operands) :=
  (assigns_evalAll hrec operands).bind fun _ => hrec _

theorem assigns_evalExpr (expr : Value) :
    Assigns r (evalExpr recur expr) (assignedExpr recur log expr) := by
  have hlist (head : Value) (operands : List Value) : Assigns r
      (do evalCall recur (← recur (.eval head)) operands) fun i => log (.eval head) i ++
        (recur (.eval head)).after (fun callee => assignedCall recur log callee operands) i :=
    (hrec _).bind fun callee => assigns_evalCall hrec callee operands
  cases expr with
  | symbol name => exact assigns_valueOf name
  | list items =>
    cases items with
    | nil => exact .pure _
    | cons head operands =>
      cases head with
      | symbol name =>
        refine (assigns_lookUp name).before fun answer => ?_
        cases answer with
        | none => exact assigns_evalSpecial hrec name operands false
        | some resolved =>
          cases resolved with
          | procedure callable => exact assigns_evalCall hrec _ operands
          | _ => exact assigns_evalSpecial hrec name operands true
      | _ => exact hlist _ operands
  | _ => exact .pure _

include hr

/-- One step leaves the bindings with what it assigns, if what it calls for does. -/
theorem assigns_step (task : Task) : Assigns r (step recur task) (assignedStep recur log task) := by
  cases task with
  | eval expr => exact assigns_evalExpr hrec expr
  | apply callee args => exact assigns_applyValue hrec hr callee args

end steps

/-- **Evaluations and calls leave the bindings with what was assigned,** at any depth, whether they succeed
or fail. -/
theorem assigns_perform {r : Registry} (hr : r.LeavesBindings) (depth : Nat) (task : Task) :
    Assigns r (perform depth task) (assigned depth task) := by
  induction depth generalizing task with
  | zero =>
    intro i _ result j hrun
    cases hrun
  | succ depth ih => exact assigns_step ih hr task

end Task

end Multimethod
