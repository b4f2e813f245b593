import Multimethod.Proofs.Eval.ArityPin
import Multimethod.Proofs.Eval.EqualProcedures

/-!
# What rejections name

A procedure that takes no such arguments says so under a name, with the types of the arguments. A table says
so itself if no candidate is selected; a candidate that is selected and does not accept the arguments, as
guards test only where candidates differ, says so in its place. The one goes by the text of a reference, the
other by the name that its key spells, and these are the same but for the marker of a field.

* `Callable.RejectsAs` — a call is rejected under a name.
* `Callable.IsFor` — the procedure is made of candidates of one member and bears its text.
* `Callable.IsFor.name_eq` — the name of a table is that of its candidates behind the marker.
* `Engine.rejections_name_procedure` — who is named when a procedure rejects its arguments.
* `Engine.rejected_field_writer_unmarked` — a table of field writers goes by two names.
-/

namespace Multimethod

namespace Callable

/-! ## Rejections -/

section

variable (recur : Task → EvalM Value) (callable : Callable) (args : List Value) (k : Interpreter)

/-- Called with these arguments, the callable rejects them under a name and runs nothing: all that it does is
to report the selection. The error tells the types of the arguments, one by one. -/
def RejectsAs (name : String) : Prop :=
  ∃ events, (Task.applyValue recur (.procedure callable) args).runFrom k =
    some (.error (.dispatch (.noApplicableOverload name (args.map Value.ty))), k.reporting events)

variable {callable} {k}

theorem rejectsAs_rejecter (hselector : callable.isSelector = false)
    (hcalled : callable.called? k.engine.hierarchy (args.map Value.ty) = none) :
    callable.RejectsAs recur args k (callable.rejecter k.engine.hierarchy (args.map Value.ty)) := by
  obtain ⟨events, hruns⟩ := Task.runFrom_applyValue_rejecter recur hselector args k
  rw [hcalled] at hruns
  exact ⟨events, hruns⟩

end

variable {h : Hierarchy} {types : List Ty} {callable : Callable} {c : Candidate}

/-- What is called is a candidate of the callable that accepts the arguments. -/
theorem mem_and_accepts_of_called? (hcalled : callable.called? h types = some c) :
    c ∈ callable.candidates ∧ c.accepts h types := by
  cases callable with
  | direct d =>
    have hsome : (some d).filter (·.accepts h types) = some c := hcalled
    obtain ⟨hc, haccepts⟩ := Option.filter_eq_some_iff.1 hsome
    cases hc
    exact ⟨List.mem_singleton_self _, haccepts⟩
  | table t =>
    have hsome : (t.select h types).filter (·.accepts h types) = some c := hcalled
    obtain ⟨hselect, haccepts⟩ := Option.filter_eq_some_iff.1 hsome
    exact ⟨DispatchTable.mem_candidates_of_select hselect, haccepts⟩
  | selector name member => cases hcalled

/-! ## Names -/

theorem name_of_key {text : String} (hkey : c.key = Name.mangle text) : c.name = text := by
  unfold Candidate.name
  rw [hkey, Name.demangle, Name.mangle, String.toList_ofList, Name.decode_encode, Option.map_some,
    String.ofList_toList, Option.getD_some]

/-- The reader or writer of a field that a table selects for arguments of these types. -/
def selectedField? (h : Hierarchy) (types : List Ty) : Callable → Option Candidate
  | .table t => (t.select h types).filter fun c => c.kind = .fieldGet || c.kind = .fieldSet
  | _ => none

/-- Is the procedure made of declared candidates of the member, and does it bear the member's text if it is a
table? -/
structure IsFor (r : Registry) (member : MemberName) (callable : Callable) : Prop where
  key : ∀ c ∈ callable.candidates, c.key = member.key
  kind : ∀ c ∈ callable.candidates, c.kind = member.kind
  declared : ∀ c ∈ callable.candidates, (r.member? c.owner c.index).isSome
  surface : ∀ t, callable = .table t → t.name = member.surface

variable {r : Registry} {member : MemberName} {t : DispatchTable}

/-- **The name of a table is that of its candidates behind the marker of their kind.** -/
theorem IsFor.name_eq (hmember : member.IsMarked) (hfor : IsFor r member (.table t))
    (hc : c ∈ t.candidates) : t.name = String.ofList (c.kind.mark c.name.toList) := by
  obtain ⟨bare, hsurface, hkey⟩ := hmember
  have hname : c.name = String.ofList bare := name_of_key ((hfor.key c hc).trans hkey)
  rw [hfor.surface t rfl, hsurface, hname, hfor.kind c hc, String.toList_ofList]

/-- The marker shows of fields only. -/
theorem mark_of_not_isField {kind : MemberKind} (hget : kind ≠ .fieldGet) (hset : kind ≠ .fieldSet)
    (bare : List Char) : kind.mark bare = bare := by
  cases kind with
  | fieldGet => exact absurd rfl hget
  | fieldSet => exact absurd rfl hset
  | method => rfl
  | constructor => rfl

/-- Unless a table selects the reader or writer of a field, arguments are rejected under its own name. -/
theorem IsFor.rejecter_eq_name (hmember : member.IsMarked) (hfor : callable.IsFor r member)
    (hfield : callable.selectedField? h types = none) : callable.rejecter h types = callable.name := by
  cases callable with
  | direct c => rfl
  | selector name member => rfl
  | table t =>
    show ((t.select h types).map Candidate.name).getD t.name = t.name
    cases hselect : t.select h types with
    | none => rfl
    | some c =>
      have hkind : ¬ (c.kind = .fieldGet ∨ c.kind = .fieldSet) := by
        have hfiltered : (t.select h types).filter _ = none := hfield
        rw [hselect] at hfiltered
        simpa using hfiltered
      have hname := hfor.name_eq hmember (DispatchTable.mem_candidates_of_select hselect)
      rw [mark_of_not_isField (fun h => hkind (.inl h)) (fun h => hkind (.inr h)), String.ofList_toList] at hname
      exact hname.symm

/-- The reader or writer of a field that a table selects rejects arguments in its place. -/
theorem rejecter_of_selectedField? (hfield : callable.selectedField? h types = some c) :
    callable.rejecter h types = c.name ∧ ∃ t, callable = .table t ∧ c ∈ t.candidates := by
  cases callable with
  | direct d => cases hfield
  | selector name member => cases hfield
  | table t =>
    have hselect : t.select h types = some c := (Option.filter_eq_some_iff.1 hfield).1
    refine ⟨?_, t, rfl, DispatchTable.mem_candidates_of_select hselect⟩
    show ((t.select h types).map Candidate.name).getD t.name = c.name
    rw [hselect]
    rfl

end Callable

namespace Engine

open Callable

variable {provider : Provider} {config : EngineConfig} {e : Engine}

/-- Is the procedure made of candidates of a member that some name spells? -/
def ForSpelled (r : Registry) (callable : Callable) : Prop :=
  ∃ member : MemberName, member.IsSpelled ∧ callable.IsFor r member

/-- What a reference stands for is for a member that is spelled, if it is so wherever it is stored. -/
theorem IsNamed.forSpelled {r : Registry} {t : Ty} {key : LookupKey} {callable : Callable}
    (hstored : r.Stores callable → ForSpelled r callable)
    (h : IsNamed r config t key (some (.procedure callable))) : ForSpelled r callable := by
  obtain ⟨member, lookup, hmember, hkey, hwell, hdeclared, hvalue⟩ := h
  cases lookup with
  | found cs =>
    obtain ⟨made, hmade, hprocedure⟩ := Option.map_eq_some_iff.1 hvalue.symm
    cases hprocedure
    have hmem {c : Candidate} (hc : c ∈ callable.candidates) : c ∈ cs :=
      (candidates_perm_of_ofCandidates? hmade).mem_iff.1 hc
    refine ⟨member, hmember, fun c hc => ?_, fun c hc => ?_, fun c hc => ?_, fun t ht => ?_⟩
    · exact (hwell.2.belong c (hmem hc)).sameKey.trans (congrArg LookupKey.key hkey).symm
    · exact (hwell.2.belong c (hmem hc)).sameKind.trans (congrArg LookupKey.kind hkey).symm
    · obtain ⟨m, hm, _⟩ := hdeclared c (hmem hc)
      rw [hm]
      rfl
    · obtain ⟨c, _, rfl⟩ | ⟨first, others, _, rfl⟩ := ofCandidates?_cases hmade
      · cases ht
      · cases ht
        rfl
  | constant value =>
    cases hvalue
    exact hstored hdeclared
  | notFound => cases hvalue

/-- **What rejections name.** Let a spelled reference or a name stand for a procedure other than a selector in
a state that an engine may come to where names spell all references; if the registry stores it as a constant, it
has to be such a procedure too. Called with any arguments, the procedure runs the member of a candidate that
accepts them, or it runs nothing and fails with the types of all of them: under its own name, unless it is a
table that selects the reader or writer of a field all the same. Then the name is that of the field, and the
procedure's own name is this name behind a marker. -/
theorem rejections_name_procedure (he : e.IsReachable provider config) {p : Callable}
    (hp : e.Resolves (.procedure p)) (hselector : p.isSelector = false)
    (hstored : provider.registry.Stores p → ForSpelled provider.registry p) (recur : Task → EvalM Value) (args : List Value) {k : Interpreter}
    (hk : k.engine.provider.registry = provider.registry) :
    let h := provider.registry.hierarchy
    let types := args.map Value.ty
    (∃ c ∈ p.candidates, c.accepts h types ∧ (k.engine.provider.registry.member? c.owner c.index).isSome ∧
      p.Runs recur args k c) ∨
    ((p.selectedField? h types = none → p.RejectsAs recur args k p.name) ∧
      ∀ c, p.selectedField? h types = some c →
        p.RejectsAs recur args k c.name ∧ p.name = String.ofList (c.kind.mark c.name.toList)) := by
  intro h types
  obtain ⟨member, hmember, hfor⟩ :=
    hp.of_named (P := fun callable => (provider.registry.Stores callable →
        ForSpelled provider.registry callable) → ForSpelled provider.registry callable)
      (fun hnamed _ hstored => hnamed.forSpelled hstored) he hselector hstored
  have hhierarchy : k.engine.hierarchy = h := congrArg Registry.hierarchy hk
  cases hcalled : p.called? h types with
  | some c =>
    obtain ⟨hmem, haccepts⟩ := mem_and_accepts_of_called? hcalled
    exact .inl ⟨c, hmem, haccepts, hk ▸ hfor.declared c hmem,
      runs_of_called? recur args hselector (hhierarchy ▸ hcalled)⟩
  | none =>
    have hrejects := rejectsAs_rejecter recur args hselector (k := k) (hhierarchy ▸ hcalled)
    rw [hhierarchy] at hrejects
    refine .inr ⟨fun hfield => ?_, fun c hfield => ?_⟩
    · rw [hfor.rejecter_eq_name hmember.isMarked hfield] at hrejects
      exact hrejects
    · obtain ⟨hrejecter, t, rfl, hc⟩ := rejecter_of_selectedField? hfield
      rw [hrejecter] at hrejects
      exact ⟨hrejects, hfor.name_eq hmember.isMarked hc⟩

/-- Two methods that differ in their second parameter, resolved after a failure of the provider. A receiver of
another type passes the guards and is rejected by the method that was selected, under the name of both. -/
theorem rejections_name_procedure_of_methods :
    let f (param : Ty) : Member :=
      { key := "f", kind := .method, params := [param], ret := .text, isStatic := false, body := .constant .null }
    let provider : Provider := { registry :=
      { hierarchy := ⟨[⟨"T", []⟩]⟩, members := [(.host 0, [f .int, f .text])] } }
    let steps : List Step := [.setOutages [true], .get "T/f"]
    let args : List Value := [.text "no", .int 1]
    ∃ results j p, Step.runAll 1 steps { engine := .new provider {} } = some (results, j) ∧
      ¬ provider.registry.Stores p ∧ j.engine.IsReachable provider {} ∧ j.engine.Resolves (.procedure p) ∧
      p.isSelector = false ∧ j.engine.provider.registry = provider.registry ∧ p.name = "f" ∧
      ∀ recur, p.RejectsAs recur args j p.name := by
  intro f provider steps args
  have hfound : (Step.runAll 1 steps { engine := .new provider {} }).any fun ran =>
      (resolvedCallable? ((resolve "T/f" none).runFrom ran.2.engine).1).any fun p =>
        !p.isSelector && p.name = "f" &&
          (p.selectedField? provider.registry.hierarchy (args.map Value.ty)).isNone &&
          p.candidates.all fun c => !c.accepts provider.registry.hierarchy (args.map Value.ty) := by
    decide +kernel
  obtain ⟨⟨results, j⟩, hrun, hfound⟩ := (Option.any_eq_true _ _).1 hfound
  obtain ⟨p, hp, hfound⟩ := (Option.any_eq_true _ _).1 hfound
  simp only [Bool.and_eq_true, Bool.not_eq_true', decide_eq_true_eq, Option.isNone_iff_eq_none,
    List.all_eq_true] at hfound
  obtain ⟨⟨⟨hselector, hname⟩, hfield⟩, hnone⟩ := hfound
  have hstored : ¬ provider.registry.Stores p := by
    rintro ⟨owner, m, hm, hconstant⟩
    exact absurd hconstant (Registry.staticConstant?_ne_some (by decide) hm _)
  have hspelled : ∀ step ∈ steps, ∀ member ∈ step.references, member.IsSpelled :=
    Step.forall_references (by decide)
  have hi : ({ engine := .new provider {} } : Interpreter).engine.IsReachable provider {} := .new
  have hj := (stable_isReachable provider {}).keeps_runAll hspelled hi hrun
  have hresolved : j.engine.Resolves (.procedure p) := .name _ _ (eq_of_resolvedCallable? hp)
  refine ⟨results, j, p, hrun, hstored, hj, hresolved, hselector, hj.spelled.registry, hname, fun recur => ?_⟩
  obtain ⟨c, hc, haccepts, _⟩ | ⟨hrejects, _⟩ :=
    rejections_name_procedure hj hresolved hselector (fun h => absurd h hstored) recur args hj.spelled.registry
  · rw [hnone c hc] at haccepts
    cases haccepts
  · exact hrejects hfield

/-- Two writers of a field for values of different types make a table called `=x`. It rejects a receiver alone
under this name; but a receiver of another type with a new value is rejected by the writer for such values,
under the name `x`. -/
theorem rejected_field_writer_unmarked :
    let x (param : Ty) : Member :=
      { key := "x", kind := .fieldSet, params := [param], ret := .null, isStatic := false, body := .constant .null }
    let provider : Provider := { registry :=
      { hierarchy := ⟨[⟨"T", []⟩]⟩, members := [(.host 0, [x .int, x .text])] } }
    let i : Interpreter := { engine := .new provider {} }
    ∃ p, ((resolve "T/=x" none).runFrom i.engine).1 = .ok (some (.procedure p)) ∧ p.isSelector = false ∧
      p.name = "=x" ∧ ∀ recur, p.RejectsAs recur [.text "no"] i "=x" ∧
        p.RejectsAs recur [.text "no", .int 1] i "x" ∧ ¬ p.RejectsAs recur [.text "no", .int 1] i p.name := by
  intro x provider i
  have hfound : (resolvedCallable? ((resolve "T/=x" none).runFrom i.engine).1).any fun p =>
      !p.isSelector && p.name = "=x" && (p.called? i.engine.hierarchy [.text]).isNone &&
        p.rejecter i.engine.hierarchy [.text] = "=x" &&
        (p.called? i.engine.hierarchy [.text, .int]).isNone &&
        p.rejecter i.engine.hierarchy [.text, .int] = "x" := by
    decide +kernel
  obtain ⟨p, hp, hfound⟩ := (Option.any_eq_true _ _).1 hfound
  simp only [Bool.and_eq_true, Bool.not_eq_true', decide_eq_true_eq, Option.isNone_iff_eq_none] at hfound
  obtain ⟨⟨⟨⟨⟨hselector, hname⟩, halone⟩, hmarked⟩, hboth⟩, hunmarked⟩ := hfound
  refine ⟨p, eq_of_resolvedCallable? hp, hselector, hname, fun recur => ?_⟩
  have hrejects : p.RejectsAs recur [.text "no", .int 1] i "x" :=
    hunmarked ▸ rejectsAs_rejecter recur [.text "no", .int 1] hselector (k := i) hboth
  refine ⟨hmarked ▸ rejectsAs_rejecter recur [.text "no"] hselector (k := i) halone, hrejects, ?_⟩
  rintro ⟨events, hruns⟩
  obtain ⟨_, hruns'⟩ := hrejects
  rw [hruns', hname] at hruns
  have herr := Except.error.inj (Prod.mk.inj (Option.some.inj hruns)).1
  have hnames : "x" = "=x" := (DispatchError.noApplicableOverload.inj (RuntimeError.dispatch.inj herr)).1
  exact absurd hnames (by decide)

end Engine

end Multimethod
