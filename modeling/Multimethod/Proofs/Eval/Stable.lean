import Multimethod.Proofs.Engine.Run
import Multimethod.Proofs.Eval.Run
import Multimethod.Proofs.Name.Keys

/-!
# What evaluations keep of an engine

An evaluation reaches the engine by few operations only: it reports events, adds imports and resolves
references that some name spells. A property of engines that these keep is kept by whatever an
evaluation does, at any depth and with any natives.

* `Engine.Stable` — such a property.
* `Engine.Stable.keeps_resolve` — names keep it.
* `Engine.Stable.keeps_perform` — evaluations and calls keep it.
-/

namespace Multimethod

/-! ## Resolutions -/

namespace Engine

/-- A property of engines that reports, imports, failures of the provider and resolutions of
`References` keep. -/
structure Stable (References : MemberName → Prop) (P : Engine → Prop) : Prop where
  /-- Whatever a name is taken for is among the references. -/
  spelled : ∀ {member : MemberName}, member.IsSpelled → References member
  report : ∀ {e : Engine} (event : Event), P e → P (e.report event)
  withImports : ∀ {e : Engine} (imports : List Import), P e → P { e with imports }
  withOutages : ∀ {e : Engine} (outages : List Bool), P e →
    P { e with provider := { e.provider with outages } }
  resolveMember : ∀ {e : Engine} (t : Ty) {member : MemberName} (origin : OriginFilter)
    (bindReceiver : Bool), References member → P e →
      P ((Engine.resolveMember t member origin bindReceiver).runFrom e).2

namespace Stable

variable {References : MemberName → Prop} {P : Engine → Prop} (hP : Stable References P)

include hP

theorem addImport (scope : Ty) (qualifier : Option String) {e : Engine} (he : P e) :
    P (e.addImport scope qualifier) := by
  unfold Engine.addImport
  simp only
  split
  · exact he
  · exact hP.report _ (hP.withImports _ he)

theorem keeps_resolveMember (t : Ty) {member : MemberName} (origin : OriginFilter)
    (bindReceiver : Bool) (hmember : References member) :
    DispatchM.Keeps P (Engine.resolveMember t member origin bindReceiver) fun _ => True :=
  fun _ he => ⟨trivial, hP.resolveMember t origin bindReceiver hmember he⟩

theorem keeps_searchImports (name : String) (imports : List Import) (found : Option (Value × Ty)) :
    DispatchM.Keeps P (searchImports name imports found) fun _ => True := by
  induction imports generalizing found with
  | nil => exact DispatchM.Keeps.pure trivial
  | cons i rest ih =>
    unfold searchImports
    split
    · rename_i member hform
      obtain ⟨localName, _, hclassify⟩ := Option.map_eq_some_iff.1 hform
      have hmember := hP.spelled (MemberName.isSpelled_of_plain hclassify)
      refine (hP.keeps_resolveMember i.scope .any false hmember).seq fun answer => ?_
      cases answer with
      | none => exact ih found
      | some value =>
        cases found with
        | none => exact ih _
        | some first =>
          simp only
          split
          · intro e he
            rw [DispatchM.runFrom_get_bind]
            exact ⟨trivial, he⟩
          · exact ih _
    · exact ih found

theorem keeps_resolveRoot {member : MemberName} (hmember : References member) :
    DispatchM.Keeps P (resolveRoot member) fun _ => True := by
  intro e he
  unfold resolveRoot
  rw [DispatchM.runFrom_get_bind]
  cases e.root with
  | none => exact ⟨trivial, he⟩
  | some root =>
    refine (hP.keeps_resolveMember root .instance true hmember).seq (fun answer => ?_) e he
    cases answer with
    | some value => exact DispatchM.Keeps.pure trivial
    | none => exact hP.keeps_resolveMember root .static false hmember

theorem keeps_resolvePlain (name : String) {member : MemberName} (scope : Option Ty)
    (hmember : References member) :
    DispatchM.Keeps P (resolvePlain name member scope) fun _ => True := by
  unfold resolvePlain
  cases scope with
  | some t => exact hP.keeps_resolveMember t .any false hmember
  | none =>
    refine (hP.keeps_resolveRoot hmember).seq fun answer => ?_
    cases answer with
    | some value => exact DispatchM.Keeps.pure trivial
    | none =>
      intro e he
      unfold resolveImported
      rw [DispatchM.runFrom_get_bind]
      exact (hP.keeps_searchImports name e.imports none).seq
        (fun _ => DispatchM.Keeps.pure trivial) e he

theorem keeps_resolve (name : String) (scope : Option Ty) :
    DispatchM.Keeps P (Engine.resolve name scope) fun _ => True := by
  unfold Engine.resolve
  split
  · exact DispatchM.Keeps.pure trivial
  · rename_i typeName member whole hform
    have hmembers : ∀ m ∈ [member, whole], References m := by
      intro m hm
      exact hP.spelled ⟨name, by rw [hform]; exact hm⟩
    intro e he
    rw [DispatchM.runFrom_get_bind]
    cases e.findType? typeName with
    | some t => exact hP.keeps_resolveMember t .any false (hmembers member (by simp)) e he
    | none => exact hP.keeps_resolvePlain name scope (hmembers whole (by simp)) e he
  · rename_i member hform
    exact hP.keeps_resolvePlain name scope (hP.spelled (MemberName.isSpelled_of_plain hform))

end Stable

end Engine

/-! ## Evaluations -/

namespace EvalM

variable {α β : Type}

/-- From an interpreter with `P` the evaluation leaves one with `P`, if it ends. -/
def Keeps (P : Interpreter → Prop) (m : EvalM α) : Prop :=
  ∀ i, P i → ∀ result j, m.runFrom i = some (result, j) → P j

variable {P : Interpreter → Prop} {m : EvalM α}

namespace Keeps

theorem pure (a : α) : Keeps P (pure a) := by
  intro i hi result j hrun
  cases hrun
  exact hi

theorem throw (e : RuntimeError) : Keeps P (throw e : EvalM α) := by
  intro i hi result j hrun
  cases hrun
  exact hi

theorem exhausted : Keeps P (exhausted : EvalM α) := by
  intro i _ result j hrun
  cases hrun

theorem get : Keeps P (MonadState.get : EvalM Interpreter) := by
  intro i hi result j hrun
  cases hrun
  exact hi

theorem modify {f : Interpreter → Interpreter} (hf : ∀ i, P i → P (f i)) : Keeps P (modify f) := by
  intro i hi result j hrun
  cases hrun
  exact hf i hi

theorem bind {f : α → EvalM β} (hm : Keeps P m) (hf : ∀ a, Keeps P (f a)) : Keeps P (m >>= f) := by
  intro i hi result j hrun
  rw [runFrom_bind] at hrun
  cases hfirst : m.runFrom i with
  | none =>
    rw [hfirst] at hrun
    cases hrun
  | some first =>
    obtain ⟨_ | a, k⟩ := first
    · rw [hfirst] at hrun
      cases hrun
      exact hm i hi _ _ hfirst
    · rw [hfirst] at hrun
      exact hf a k (hm i hi _ _ hfirst) _ _ hrun

theorem attempt (hm : Keeps P m) : Keeps P (attempt m) := by
  intro i hi result j hrun
  rw [runFrom_attempt] at hrun
  obtain ⟨⟨inner, k⟩, hinner, hjoin⟩ := Option.map_eq_some_iff.1 hrun
  cases hjoin
  exact hm i hi _ _ hinner

end Keeps

end EvalM

/-! ## The engine of an evaluation -/

/-- An evaluation keeps a property of its engine. -/
abbrev EvalM.KeepsEngine {α : Type} (P : Engine → Prop) (m : EvalM α) : Prop :=
  EvalM.Keeps (fun i => P i.engine) m

namespace Engine.Stable

open EvalM

variable {P : Engine → Prop}

theorem keeps_dispatch {α : Type} {m : DispatchM α} (hm : DispatchM.Keeps P m fun _ => True) :
    KeepsEngine P (dispatch m) := by
  intro i hi result j hrun
  rw [runFrom_dispatch] at hrun
  cases hrun
  exact (hm i.engine hi).2

theorem keeps_modify {f : Interpreter → Interpreter} (hf : ∀ i, (f i).engine = i.engine) :
    KeepsEngine P (modify f) :=
  Keeps.modify fun i hi => by rw [hf i]; exact hi

theorem keeps_write (text : String) : KeepsEngine P (write text) := by
  intro i hi result j hrun
  unfold write at hrun
  rw [runFrom_get_bind] at hrun
  split at hrun
  · cases htext : text.isEmpty with
    | true =>
      rw [htext] at hrun
      cases hrun
      exact hi
    | false =>
      rw [htext] at hrun
      cases hrun
      exact hi
  · cases hrun
    exact hi

theorem keeps_readFile (path : String) : KeepsEngine P (readFile path) := by
  unfold readFile
  refine Keeps.bind (keeps_modify ?_) fun _ => Keeps.get.bind fun i => ?_
  · exact fun _ => rfl
  · cases i.files.read path with
    | ok contents => exact Keeps.pure contents
    | error problem => exact Keeps.throw _

theorem keeps_rebind (f : Bindings → Bindings) : KeepsEngine P (rebind f) :=
  Keeps.modify fun _ hi => hi

theorem keeps_hierarchy : KeepsEngine P EvalM.hierarchy := Keeps.get.bind fun _ => Keeps.pure _

theorem keeps_makeObject (t : Ty) (cells : List Value) : KeepsEngine P (makeObject t cells) := by
  unfold makeObject
  cases t with
  | host id =>
    intro i hi result j hrun
    cases hrun
    exact hi
  | _ => exact Keeps.pure _

variable {References : MemberName → Prop} (hP : Stable References P)

include hP

theorem keeps_report (event : Event) : KeepsEngine P (EvalM.report event) :=
  Keeps.modify fun _ hi => hP.report event hi

theorem keeps_importScope (scope : String) (qualifier : Option String) :
    KeepsEngine P (importScope scope qualifier) := by
  intro i hi result j hrun
  unfold importScope at hrun
  rw [runFrom_get_bind] at hrun
  cases hscope : i.engine.findType? scope with
  | some t =>
    rw [hscope] at hrun
    cases hrun
    exact hP.addImport t qualifier hi
  | none =>
    rw [hscope] at hrun
    cases hrun
    exact hi

theorem keeps_lookUp (name : String) : KeepsEngine P (lookUp name) := by
  unfold lookUp
  refine Keeps.get.bind fun i => ?_
  split
  · exact Keeps.pure _
  · exact Keeps.pure _
  · exact keeps_dispatch (hP.keeps_resolve name none)

theorem keeps_valueOf (name : String) : KeepsEngine P (EvalM.valueOf name) := by
  unfold EvalM.valueOf
  refine (hP.keeps_lookUp name).bind fun answer => ?_
  cases answer with
  | some value => exact Keeps.pure value
  | none => exact Keeps.throw _

section steps

variable {recur : Task → EvalM Value} (hrec : ∀ task, KeepsEngine P (recur task))

include hrec

omit hP in
theorem keeps_evalAll (exprs : List Value) : KeepsEngine P (Task.evalAll recur exprs) := by
  induction exprs with
  | nil => exact Keeps.pure []
  | cons expr rest ih => exact (hrec _).bind fun value => ih.bind fun values => Keeps.pure _

omit hP in
theorem keeps_evalSequence (last : Value) (forms : List Value) :
    KeepsEngine P (Task.evalSequence recur last forms) := by
  induction forms generalizing last with
  | nil => exact Keeps.pure last
  | cons form rest ih => exact (hrec _).bind fun value => ih value

omit hP in
theorem keeps_evalSource (source : String) : KeepsEngine P (Task.evalSource recur source) := by
  unfold Task.evalSource
  split
  · exact keeps_evalSequence hrec _ _
  · exact Keeps.throw _

theorem keeps_loadFile (path : String) : KeepsEngine P (Task.loadFile recur path) :=
  (keeps_readFile path).bind fun source =>
    (hP.keeps_report _).bind fun _ => keeps_evalSource hrec source

theorem keeps_answer (request : Request) : KeepsEngine P (Task.answer recur request) := by
  cases request with
  | eval expr => exact hrec _
  | evalSource source => exact keeps_evalSource hrec source
  | apply callee args => exact hrec _
  | lookUp name => exact hP.keeps_valueOf name
  | bind name value => exact (keeps_rebind _).bind fun _ => Keeps.pure _
  | bindDefault name value => exact (keeps_rebind _).bind fun _ => Keeps.pure _
  | unbind name => exact (keeps_rebind _).bind fun _ => Keeps.pure _
  | write text => exact (keeps_write text).bind fun _ => Keeps.pure _
  | load path => exact hP.keeps_loadFile hrec path
  | importScope scope qualifier =>
    exact (hP.keeps_importScope scope qualifier).bind fun _ => Keeps.pure _
  | make t cells => exact keeps_makeObject t cells
  | cell object place => exact Keeps.get.bind fun _ => Keeps.pure _
  | setCell object place value =>
    refine Keeps.bind (keeps_modify ?_) fun _ => Keeps.pure _
    exact fun _ => rfl

theorem keeps_runAction (action : Action) : KeepsEngine P (Task.runAction recur action) := by
  induction action with
  | done result =>
    cases result with
    | ok value => exact Keeps.pure value
    | error e => exact Keeps.throw e
  | request request next ih =>
    exact (hP.keeps_answer hrec request).attempt.bind fun result => ih result

theorem keeps_callCandidate (c : Candidate) (args : List Value) :
    KeepsEngine P (Task.callCandidate recur c args) := by
  unfold Task.callCandidate
  refine keeps_hierarchy.bind fun h => ?_
  split
  · refine Keeps.get.bind fun i => ?_
    split
    · exact hP.keeps_runAction hrec _
    · exact Keeps.pure _
    · exact Keeps.throw _
  · exact Keeps.throw _

theorem keeps_callTable (t : DispatchTable) (args : List Value) :
    KeepsEngine P (Task.callTable recur t args) := by
  unfold Task.callTable
  refine keeps_hierarchy.bind fun h => ?_
  split
  · exact (hP.keeps_report _).bind fun _ => hP.keeps_callCandidate hrec _ args
  · exact Keeps.throw _

theorem keeps_callSelector (name : String) (member : SelectorMember name) (args : List Value) :
    KeepsEngine P (Task.callSelector recur name member args) := by
  unfold Task.callSelector
  cases args with
  | nil => exact Keeps.throw _
  | cons receiver rest =>
    have hmember := hP.spelled (MemberName.isSpelled_of_selector member.property)
    refine (keeps_dispatch (hP.keeps_resolveMember _ _ _ hmember)).bind fun answer => ?_
    split
    · exact hrec _
    · exact keeps_hierarchy.bind fun _ => Keeps.throw _

theorem keeps_applyValue (callee : Value) (args : List Value) :
    KeepsEngine P (Task.applyValue recur callee args) := by
  unfold Task.applyValue
  split
  · exact hP.keeps_callCandidate hrec _ args
  · exact hP.keeps_callTable hrec _ args
  · exact hP.keeps_callSelector hrec _ _ args
  · exact Keeps.throw _

theorem keeps_evalSpecial (head : String) (operands : List Value) (isBound : Bool) :
    KeepsEngine P (Task.evalSpecial recur head operands isBound) := by
  have hdefinition (name : String) (expr : Value) :
      KeepsEngine P (Task.evalDefinition recur name expr) :=
    (hrec _).bind fun value => (keeps_rebind _).bind fun _ => Keeps.pure _
  have hchoice (test consequent alternative : Value) :
      KeepsEngine P (Task.evalChoice recur test consequent alternative) := by
    refine (hrec _).bind fun value => ?_
    split
    · exact hrec _
    · exact hrec _
  unfold Task.evalSpecial
  split
  · exact Keeps.pure _
  · exact hdefinition _ _
  · exact hdefinition _ _
  · exact keeps_evalSequence hrec _ _
  · exact hchoice _ _ _
  · exact hchoice _ _ _
  · exact (hP.keeps_report _).bind fun _ => Keeps.throw _

theorem keeps_evalExpr (expr : Value) : KeepsEngine P (Task.evalExpr recur expr) := by
  have hcall (callee : Value) (operands : List Value) :
      KeepsEngine P (Task.evalCall recur callee operands) :=
    (keeps_evalAll hrec operands).bind fun args => hrec _
  unfold Task.evalExpr
  split
  · exact hP.keeps_valueOf _
  · refine (hP.keeps_lookUp _).bind fun answer => ?_
    split
    · exact hcall _ _
    · exact hP.keeps_evalSpecial hrec _ _ _
  · exact (hrec _).bind fun callee => hcall callee _
  · exact Keeps.pure _

theorem keeps_step (task : Task) : KeepsEngine P (Task.step recur task) := by
  cases task with
  | eval expr => exact hP.keeps_evalExpr hrec expr
  | apply callee args => exact hP.keeps_applyValue hrec callee args

end steps

/-- **Evaluations and calls keep the property,** at any depth and with any natives. -/
theorem keeps_perform (depth : Nat) (task : Task) : KeepsEngine P (Task.perform depth task) := by
  induction depth generalizing task with
  | zero => exact Keeps.exhausted
  | succ depth ih => exact hP.keeps_step ih task

end Engine.Stable

end Multimethod
