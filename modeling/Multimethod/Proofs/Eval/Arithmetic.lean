import Multimethod.Proofs.Eval.Assignments
import Multimethod.Proofs.Eval.MonotoneImports
import Multimethod.Proofs.Eval.Rejections
import Multimethod.Proofs.Library.RootScope

/-!
# Arithmetic at the widest width

Where the library is the root scope, `+`, `-`, `*` and `/` stand for tables of members for each width. A call
runs the member of the narrowest width that holds all the arguments, whatever limits the engine has for guards
and lookahead, and this member computes at its width. So what a call comes to is told from its arguments alone.

* `Operator.called?_eq` — the candidate that a call of the procedure runs.
* `Operator.outcome_eq` — what a call comes to, by the way of calling and the width.
* `Operator.perform_apply` — a call comes to this.
* `Engine.resolveMember_of_lookUp`, `lookUp_arithmetic` — what the name of a procedure stands for.
* `arithmetic_at_widest_width` — a call by the name comes to this.
-/

namespace Multimethod

/-! ## Calls in general -/

/-- Arguments are rejected under the name that the table and all its candidates have. -/
theorem Callable.rejecter_eq {h : Hierarchy} {name : String} {scope : Ty} {limit lookahead : Nat}
    {pin : Option Nat} {cs : List Candidate} {callable : Callable}
    (hmade : ofCandidates? h name scope limit lookahead pin cs = some callable)
    (hnames : ∀ c ∈ cs, c.name = name) (types : List Ty) : callable.rejecter h types = name := by
  have hmem {c : Candidate} (hc : c ∈ callable.candidates) : c.name = name :=
    hnames c ((candidates_perm_of_ofCandidates? hmade).mem_iff.1 hc)
  obtain ⟨c, _, rfl⟩ | ⟨first, others, _, rfl⟩ := ofCandidates?_cases hmade
  · exact hmem (List.mem_singleton_self c)
  · unfold rejecter
    dsimp only
    cases hselect : DispatchTable.select h _ types with
    | none => rfl
    | some c => exact hmem (DispatchTable.mem_candidates_of_select hselect)

/-- A candidate without further arguments, all of whose parameters are of one type, accepts as many arguments
that are assignable to it. -/
theorem Candidate.accepts_of_replicate {h : Hierarchy} {c : Candidate} {types : List Ty} {t : Ty}
    (hparams : c.params = List.replicate types.length t) (hvariadic : c.isVariadic = false) :
    c.accepts h types = types.all (h.isAssignable · t) := by
  have hzip : types.zip (List.replicate types.length t) = types.map (·, t) := by
    rw [← List.map_const', List.zip_eq_zipWith, List.zipWith_map_right, List.zipWith_self]
  unfold accepts fitsPrefix arity
  rw [hparams, hvariadic, hzip, List.all_map]
  simp [Function.comp_def]

/-- The member that is run is a native on the arguments that the candidate makes for it. -/
theorem Task.runFrom_runMember_native (recur : Task → EvalM Value) {k : Interpreter} {c : Candidate} {m : Member}
    {run : Native} (hmember : k.engine.provider.registry.member? c.owner c.index = some m)
    (hbody : m.body = .native run) (args : List Value) :
    (runMember recur c args).runFrom k = (runAction recur (run (c.callArguments args))).runFrom k := by
  unfold runMember
  rw [EvalM.runFrom_get_bind, hmember]
  obtain ⟨d, body⟩ := m
  obtain rfl : body = .native run := hbody
  rfl

namespace Library

/-! ## The choice of a width -/

/-- A value may stand where the type of a width is declared exactly if the width holds it. -/
theorem isAssignable_ty (h : Hierarchy) (v : Value) (w : Width) : h.isAssignable v.ty w.ty = w.holds v := by
  cases v <;> cases w <;> rfl

/-- The narrowest width that holds all values, if there is one. -/
def narrowest? (args : List Value) : Option Width := Width.all.find? fun w => args.all w.holds

theorem narrowest?_singleton (a : Value) : narrowest? [a] = width? a := by
  simp only [narrowest?, Width.all, Width.holds, List.all_cons, List.all_nil]
  generalize width? a = v
  rcases v with _ | _ | _ | _ <;> rfl

theorem narrowest?_pair (a b : Value) :
    narrowest? [a, b] = (width? a).bind fun v => (width? b).map v.wider := by
  simp only [narrowest?, Width.all, Width.holds, List.all_cons, List.all_nil]
  generalize width? a = v
  generalize width? b = w
  rcases v with _ | _ | _ | _ <;> rcases w with _ | _ | _ | _ <;> rfl

namespace Operator

variable {h : Hierarchy} {scope : Ty} {limit lookahead : Nat} {op : Operator} {callable : Callable}

/-- The way of calling the procedure with so many arguments, if there is one. -/
def form? (op : Operator) (argc : Nat) : Option Form := op.forms.find? (·.arity = argc)

/-- **What a call comes to** is computed in the way of calling that the number of the arguments asks for, at the
narrowest width that holds them. -/
theorem outcome_eq (op : Operator) (args : List Value) :
    op.outcome args =
      ((op.form? args.length).bind fun f => (narrowest? args).map fun w => f.compute w args).getD
        (.error (Task.rejection op.name args)) := by
  match args with
  | [] => cases op <;> rfl
  | [a] =>
    rw [narrowest?_singleton]
    dsimp only [outcome]
    cases width? a <;> cases op <;> rfl
  | [a, b] =>
    have hform : op.form? 2 = some (.binary op) := by cases op <;> rfl
    rw [narrowest?_pair, List.length_cons, List.length_singleton, hform, Option.bind_some]
    dsimp only [outcome]
    cases width? a with
    | none => rfl
    | some v => cases width? b <;> rfl
  | a :: b :: c :: rest => cases op <;> rfl

/-! ## The candidate of a call -/

theorem params_candidate (op : Operator) (scope : Ty) (f : Form) (w : Width) :
    (op.candidate scope f w).params = (f.member w).params := by
  cases f <;> cases w <;> rfl

theorem isVariadic_candidate (op : Operator) (scope : Ty) (f : Form) (w : Width) :
    (op.candidate scope f w).isVariadic = false := by
  cases f <;> cases w <;> rfl

theorem sortBySpecificity_candidates (h : Hierarchy) (op : Operator) (scope : Ty) (f : Form) :
    Candidate.sortBySpecificity h (Width.all.map (op.candidate scope f)) =
      Width.all.map (op.candidate scope f) := by
  cases f <;> rfl

/-- Calls with so many arguments are served by the candidates of one way of calling, if any. -/
theorem servingOf_candidates (op : Operator) (scope : Ty) (argc : Nat) :
    servingOf (op.candidates scope) argc =
      (op.form? argc).elim [] fun f => Width.all.map (op.candidate scope f) := by
  match argc with
  | 0 => cases op <;> rfl
  | 1 => cases op <;> rfl
  | 2 => cases op <;> rfl
  | n + 3 => cases op <;> rfl

theorem arity_of_form? {argc : Nat} {f : Form} (hform : op.form? argc = some f) : f.arity = argc :=
  of_decide_eq_true (List.find?_some (p := fun f : Form => f.arity = argc) hform)

theorem accepts_candidate {f : Form} {args : List Value} (hlength : args.length = f.arity) (w : Width) :
    (op.candidate scope f w).accepts h (args.map Value.ty) = args.all w.holds := by
  have hparams : (op.candidate scope f w).params = List.replicate (args.map Value.ty).length w.ty := by
    rw [params_candidate, Form.params_member, List.length_map, hlength]
  rw [Candidate.accepts_of_replicate hparams (op.isVariadic_candidate scope f w), List.all_map]
  simp only [Function.comp_def, isAssignable_ty]

/-- **A call runs the member of the narrowest width that holds the arguments.** -/
theorem called?_eq
    (hmade : Callable.ofCandidates? h op.name scope limit lookahead none (op.candidates scope) = some callable)
    (args : List Value) :
    callable.called? h (args.map Value.ty) =
      (op.form? args.length).bind fun f => (narrowest? args).map (op.candidate scope f) := by
  rw [Callable.called?_eq hmade (fun _ _ => rfl), if_neg (by simp), List.length_map, servingOf_candidates]
  cases hform : op.form? args.length with
  | none => rfl
  | some f =>
    rw [Option.elim_some, sortBySpecificity_candidates, List.find?_map, Option.bind_some]
    simp only [Function.comp_def, accepts_candidate (arity_of_form? hform).symm]
    rfl

/-! ## Calls -/

/-- Is this what the candidates of the procedure make under its name? -/
def IsMade (op : Operator) (r : Registry) (config : EngineConfig) (id : Nat) (callable : Callable) : Prop :=
  Callable.ofCandidates? r.hierarchy op.name (.host id) config.guardChainLimit config.variadicLookahead none
    (op.candidates (.host id)) = some callable

theorem exists_isMade (op : Operator) (r : Registry) (config : EngineConfig) (id : Nat) :
    ∃ callable, op.IsMade r config id callable := by
  cases op <;> exact ⟨_, rfl⟩

theorem name_of_mem_candidates {c : Candidate} (hc : c ∈ op.candidates scope) : c.name = op.name := by
  obtain ⟨f, hf, hc⟩ := List.mem_flatMap.1 hc
  obtain ⟨w, _, rfl⟩ := List.mem_map.1 hc
  rw [← op.name_of_mem_forms f hf]
  exact Callable.name_of_key (f.key_member w)

/-- **A call of the procedure comes to what its arguments tell,** and to nothing else: all that it does is to
report the selection. -/
theorem perform_apply {r : Registry} {config : EngineConfig} {scopeName : String} {id : Nat}
    (hlibrary : r.HasLibrary scopeName id) (hmade : op.IsMade r config id callable) (depth : Nat)
    (args : List Value) {k : Interpreter} (hk : k.engine.provider.registry = r) :
    ∃ events, (Task.perform (depth + 1) (.apply (.procedure callable) args)).runFrom k =
      some (op.outcome args, k.reporting events) := by
  obtain ⟨events, hruns⟩ := Task.runFrom_applyValue_rejecter (Task.perform depth)
    (Callable.isSelector_eq_false_of_ofCandidates? hmade) args k
  refine ⟨events, hruns.trans ?_⟩
  have hhierarchy : k.engine.hierarchy = r.hierarchy := congrArg Registry.hierarchy hk
  rw [hhierarchy, called?_eq hmade, Callable.rejecter_eq hmade fun _ => name_of_mem_candidates, outcome_eq]
  cases hform : op.form? args.length with
  | none => rfl
  | some f =>
    cases hwidth : narrowest? args with
    | none => rfl
    | some w =>
      have hholds : ∀ v ∈ args, w.holds v := by
        unfold narrowest? at hwidth
        exact List.all_eq_true.1 (List.find?_some (p := fun w : Width => args.all w.holds) hwidth)
      obtain ⟨run, hbody, hcomputes⟩ := f.run_callArguments w (arity_of_form? hform).symm hholds
        (op.params_candidate (.host id) f w) (op.isVariadic_candidate (.host id) f w)
      have hmember : (k.reporting events).engine.provider.registry.member? (.host id) (f.place + w.place) =
          some (f.member w) := by
        show k.engine.provider.registry.member? _ _ = _
        rw [hk, Registry.member?, hlibrary.members, getElem?_members]
      show (Task.runMember _ (op.candidate (.host id) f w) args).runFrom _ = some (f.compute w args, _)
      rw [Task.runFrom_runMember_native _ (c := op.candidate (.host id) f w) hmember hbody, hcomputes]
      cases f.compute w args <;> rfl

end Operator

end Library

/-! ## Names -/

namespace Engine

/-- What is kept whatever the references are is kept by those that names spell. -/
theorem Stable.of_forall {P : Engine → Prop} (hP : Stable (fun _ => True) P) : Stable MemberName.IsSpelled P where
  spelled hmember := hmember
  report := hP.report
  withImports := hP.withImports
  withOutages := hP.withOutages
  resolveMember t _ origin bindReceiver _ h := hP.resolveMember t origin bindReceiver trivial h

variable {provider : Provider} {config : EngineConfig} {id : Nat} {e : Engine}

/-- The root scope of an engine over the library is the type that has its members. -/
theorem root_eq (hlibrary : provider.registry.HasLibrary config.rootScopeName id)
    (he : e.IsReachable provider config) : e.root = some (.host id) := by
  refine he.of_stable (stable_root (some (.host id))).of_forall ?_
  unfold Engine.new
  rw [hlibrary.found]

/-- A spelled reference whose lookup finds something resolves to what this makes under its own text, or the
members of some type could not be listed. -/
theorem resolveMember_of_lookUp {r : Registry} {hw : WellFounded r.hierarchy.Above} {certain : Prop} {t : Ty}
    {member : MemberName} {origin : OriginFilter} {bindReceiver : Bool} {lookup : Lookup}
    (he : e.FaithfulIf r hw config MemberName.IsSpelled certain) (hmember : member.IsSpelled)
    (hwithin : r.hierarchy.Within discoveryDepth t)
    (hlookUp : r.lookUp (member.lookup origin bindReceiver) hw t = .ok lookup) :
    (∃ f, (resolveMember t member origin bindReceiver).runFrom e =
        (.ok (lookup.value? r.hierarchy config member.surface t member.pin), f) ∧
      f.FaithfulIf r hw config MemberName.IsSpelled certain) ∨
    (¬ certain ∧ ∃ err f, DispatchError.IsListing err ∧
      (resolveMember t member origin bindReceiver).runFrom e = (.error err, f)) := by
  obtain ⟨hanswer, hkeeps⟩ := resolveMember_answers hmember hwithin origin bindReceiver e he
  cases hran : (resolveMember t member origin bindReceiver).runFrom e with
  | mk result f =>
    rw [hran] at hanswer hkeeps
    obtain ⟨written, hwritten, hkey, rfl⟩ | ⟨hcertain, err, herr, rfl⟩ := hanswer
    · have hsurface : written.surface = member.surface := MemberName.surface_eq_of_isSpelled hwritten hmember
        (congrArg LookupKey.key hkey) (congrArg LookupKey.kind hkey)
      rw [hlookUp, hsurface]
      exact .inl ⟨f, rfl, hkeeps⟩
    · exact .inr ⟨hcertain, err, f, herr, rfl⟩

/-- What the root scope has for a procedure of arithmetic is made of all candidates of the procedure, or the
members of some type could not be listed. -/
theorem resolveRoot_arithmetic (hlibrary : provider.registry.HasLibrary config.rootScopeName id)
    (he : e.IsReachable provider config) (op : Library.Operator) :
    (∃ callable f, (resolveRoot op.reference).runFrom e = (.ok (some (.procedure callable)), f) ∧
      op.IsMade provider.registry config id callable) ∨
    (e.provider.outages ≠ [] ∧ ∃ err f, DispatchError.IsListing err ∧
      (resolveRoot op.reference).runFrom e = (.error err, f)) := by
  have hspelled : op.reference.IsSpelled := MemberName.isSpelled_of_plain op.classify_name
  have hwithin := hlibrary.paths.within (.host id)
  have hfaithful : e.FaithfulIf provider.registry hlibrary.paths.wellFounded config MemberName.IsSpelled
      (e.provider.outages = []) :=
    ⟨he.of_stable (stable_faithful hlibrary.paths config fun _ h => h) (faithful_new provider _),
      fun houtages => houtages⟩
  unfold resolveRoot
  rw [DispatchM.runFrom_get_bind, root_eq hlibrary he]
  dsimp only
  obtain ⟨f, hinstance, hf⟩ | ⟨houtages, err, f, herr, hinstance⟩ :=
    resolveMember_of_lookUp hfaithful hspelled hwithin (hlibrary.lookUp_instance op)
  · simp only [DispatchM.runFrom_bind, hinstance, Lookup.value?]
    obtain ⟨f', hstatic, _⟩ | ⟨houtages, err, f', herr, hstatic⟩ :=
      resolveMember_of_lookUp hf hspelled hwithin (hlibrary.lookUp_static op)
    · obtain ⟨callable, hmade⟩ := op.exists_isMade provider.registry config id
      refine .inl ⟨callable, f', ?_, hmade⟩
      rw [hstatic, Lookup.value?]
      exact congrArg (fun made => (Except.ok (Option.map Value.procedure made), f')) hmade
    · exact .inr ⟨houtages, err, f', herr, hstatic⟩
  · refine .inr ⟨houtages, err, f, herr, ?_⟩
    rw [DispatchM.runFrom_bind, hinstance]

end Engine

namespace Library

variable {provider : Provider} {config : EngineConfig} {id : Nat} {op : Operator} {j : Interpreter}

/-- The name of a procedure of arithmetic, unless it was ever bound or removed, stands for all candidates of the
procedure, or the members of some type could not be listed. -/
theorem lookUp_arithmetic (hlibrary : provider.registry.HasLibrary config.rootScopeName id)
    (hj : j.engine.IsReachable provider config) (hunbound : j.bindings.find? op.name = none) :
    (∃ callable e,
      (EvalM.lookUp op.name).runFrom j = some (.ok (some (.procedure callable)), { j with engine := e }) ∧
      op.IsMade provider.registry config id callable) ∨
    (j.engine.provider.outages ≠ [] ∧ ∃ err e, DispatchError.IsListing err ∧
      (EvalM.lookUp op.name).runFrom j = some (.error (.dispatch err), { j with engine := e })) := by
  unfold EvalM.lookUp
  rw [EvalM.runFrom_get_bind, hunbound]
  dsimp only
  rw [EvalM.runFrom_dispatch, Engine.resolve_of_plain op.classify_name]
  unfold Engine.resolvePlain
  dsimp only
  rw [DispatchM.runFrom_bind]
  obtain ⟨callable, e, hroot, hmade⟩ | ⟨houtages, err, e, herr, hroot⟩ :=
    Engine.resolveRoot_arithmetic hlibrary hj op
  · rw [hroot]
    exact .inl ⟨callable, e, rfl, hmade⟩
  · rw [hroot]
    exact .inr ⟨houtages, err, e, herr, rfl⟩

/-- Called with any arguments, from any state over the registry, the procedure comes to what its arguments tell,
and all that it does is to report the selection. -/
def Operator.IsServedBy (op : Operator) (r : Registry) (callable : Callable) : Prop :=
  ∀ (depth : Nat) (args : List Value) (k : Interpreter), k.engine.provider.registry = r →
    ∃ events, (Task.perform (depth + 1) (.apply (.procedure callable) args)).runFrom k =
      some (op.outcome args, k.reporting events)

/-- **Arithmetic computes at the widest of its arguments' widths.** Let the library be the root scope and the name
of a procedure of arithmetic be neither bound nor removed, in a state that an engine may come to where names spell
all references. Then the name stands for a procedure that comes to what its arguments tell, called alone or by the
name in an expression, whatever the limits of the engine are; or the members of some type could not be listed, where
a failure of the provider was due. A call that fails is rejected, or divides whole numbers by zero. -/
theorem arithmetic_at_widest_width (hlibrary : provider.registry.HasLibrary config.rootScopeName id)
    (hj : j.engine.IsReachable provider config) (op : Operator) (hunbound : j.bindings.find? op.name = none) :
    ((∃ callable e,
        (EvalM.valueOf op.name).runFrom j = some (.ok (.procedure callable), { j with engine := e }) ∧
        op.IsServedBy provider.registry callable ∧
        ∀ depth operands args k,
          (Task.evalAll (Task.perform (depth + 1)) operands).runFrom { j with engine := e } = some (.ok args, k) →
          ∃ events, (Task.perform (depth + 2) (.eval (.list (.symbol op.name :: operands)))).runFrom j =
            some (op.outcome args, k.reporting events)) ∨
      (j.engine.provider.outages ≠ [] ∧ ∃ err e, DispatchError.IsListing err ∧
        (EvalM.valueOf op.name).runFrom j = some (.error (.dispatch err), { j with engine := e }))) ∧
    ∀ args err, op.outcome args = .error err → err = Task.rejection op.name args ∨
      op = .divide ∧ err = .message "/: division by zero" ∧ ∃ a b, args = [a, b] ∧ b.integer? = some 0 := by
  refine ⟨?_, fun _ _ => Operator.error_of_outcome⟩
  obtain ⟨callable, e, hlookUp, hmade⟩ | ⟨houtages, err, e, herr, hlookUp⟩ :=
    lookUp_arithmetic hlibrary hj hunbound
  · have hserved : op.IsServedBy provider.registry callable :=
      fun depth args k hk => op.perform_apply hlibrary hmade depth args hk
    refine .inl ⟨callable, e, ?_, hserved, fun depth operands args k hargs => ?_⟩
    · unfold EvalM.valueOf
      rw [EvalM.runFrom_bind, hlookUp]
      rfl
    · have hstable := Engine.stable_registry provider.registry
      have he : e.provider.registry = provider.registry :=
        hstable.keeps_lookUp op.name j hj.spelled.registry _ _ hlookUp
      have hk : k.engine.provider.registry = provider.registry :=
        Engine.Stable.keeps_evalAll (hstable.keeps_perform (depth + 1)) operands { j with engine := e } he
          _ _ hargs
      obtain ⟨events, hcall⟩ := hserved depth args k hk
      refine ⟨events, ?_⟩
      show (Task.evalExpr (Task.perform (depth + 1)) (.list (.symbol op.name :: operands))).runFrom j = _
      unfold Task.evalExpr
      dsimp only
      rw [EvalM.runFrom_bind, hlookUp]
      show (Task.evalCall _ _ _).runFrom _ = _
      unfold Task.evalCall
      rw [EvalM.runFrom_bind, hargs]
      exact hcall
  · refine .inr ⟨houtages, err, e, herr, ?_⟩
    unfold EvalM.valueOf
    rw [EvalM.runFrom_bind, hlookUp]

/-- A history in which the members of the library could not be listed when a name was looked up first. After it,
the least Int divided by -1 is itself. -/
theorem arithmetic_at_widest_width_of_least :
    let config : EngineConfig := { guardChainLimit := 1 }
    let i : Interpreter := .withLibrary config {}
    let steps : List Step := [.setOutages [true], .get "+"]
    ∃ results j, Step.runAll 1 steps i = some (results, j) ∧
      i.engine.provider.registry.HasLibrary config.rootScopeName 0 ∧
      j.engine.IsReachable i.engine.provider config ∧ j.bindings.find? Operator.divide.name = none ∧
      ∃ k, (Task.perform 2 (.eval (.list [.symbol "/", .int (-2147483648), .int (-1)]))).runFrom j =
        some (.ok (.int (-2147483648)), k) := by
  intro config i steps
  have hran : (Step.runAll 1 steps i).any fun ran =>
      ran.2.engine.provider.outages = [] && (ran.2.bindings.find? Operator.divide.name).isNone := by
    decide +kernel
  obtain ⟨⟨results, j⟩, hrun, hran⟩ := (Option.any_eq_true _ _).1 hran
  simp only [Bool.and_eq_true, decide_eq_true_eq, Option.isNone_iff_eq_none] at hran
  have hlibrary : i.engine.provider.registry.HasLibrary config.rootScopeName 0 :=
    Registry.hasLibrary_withLibrary config.rootScopeName
  have hspelled : ∀ step ∈ steps, ∀ member ∈ step.references, member.IsSpelled :=
    Step.forall_references (by decide)
  have hi : i.engine.IsReachable i.engine.provider config := .new
  have hj := (Engine.stable_isReachable i.engine.provider config).keeps_runAll hspelled hi hrun
  refine ⟨results, j, hrun, hlibrary, hj, hran.2, ?_⟩
  obtain ⟨⟨callable, e, _, _, heval⟩ | ⟨houtages, _⟩, _⟩ :=
    arithmetic_at_widest_width hlibrary hj .divide hran.2
  · obtain ⟨events, hcall⟩ := heval 0 [.int (-2147483648), .int (-1)] _ _ rfl
    exact ⟨_, hcall⟩
  · exact absurd hran.1 houtages

end Library

end Multimethod
