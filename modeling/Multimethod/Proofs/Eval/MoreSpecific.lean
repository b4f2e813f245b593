import Multimethod.Proofs.Dispatch.ArityRule
import Multimethod.Proofs.Engine.Declared
import Multimethod.Proofs.Eval.CacheTransparency
import Multimethod.Proofs.Eval.OverloadCall
import Multimethod.Proofs.Lattice.Specificity

/-!
# The more specific overload wins

Of the candidates that accept a call, a callable runs one that no other of its arity and variadic
flag is more specific than, and so a member of a subtype is preferred to the one that it overrides.

* `Callable.Serves` — the candidate is the first in the order of trial among those of its shape.
* `Task.runFrom_applyValue_rejecter` — a call runs the candidate that the callable chooses, or is rejected.
* `Callable.IsMadeOf.callsMostSpecific` — nothing more specific is passed over.
* `Engine.calls_more_specific` — the same of all callables that resolution gives.
-/

namespace Multimethod

/-- Candidates of one arity and variadic flag whose parameters first differ where `c` has the type
`x` and `d` has `y`. -/
def Candidate.Differ (c d : Candidate) (x y : Ty) : Prop :=
  c.arity = d.arity ∧ c.isVariadic = d.isVariadic ∧ x ≠ y ∧
    ∃ front xs ys, c.params = front ++ x :: xs ∧ d.params = front ++ y :: ys

/-- The candidates with the arity and the variadic flag of a given one. -/
def Candidate.shapedAs (d : Candidate) (cs : List Candidate) : List Candidate :=
  cs.filter fun c => c.isVariadic = d.isVariadic && c.arity = d.arity

namespace Callable

def isSelector : Callable → Bool
  | .selector _ _ => true
  | _ => false

/-- The candidate whose member a call with arguments of these types runs. -/
def called? (h : Hierarchy) (types : List Ty) : Callable → Option Candidate
  | .direct c => (some c).filter (·.accepts h types)
  | .table t => (t.select h types).filter (·.accepts h types)
  | .selector _ _ => none

/-- Is the callable made of the candidates that some lookup finds in the registry? -/
def IsMadeOf (r : Registry) (hw : WellFounded r.hierarchy.Above) (callable : Callable) : Prop :=
  ∃ (key : LookupKey) (t : Ty) (cs : List Candidate) (name : String) (limit lookahead : Nat),
    r.lookUp key hw t = .ok (.found cs) ∧
      ofCandidates? r.hierarchy name t limit lookahead key.pin cs = some callable

/-- The candidate `b` serves arguments of these types among the candidates `cs`. -/
structure Serves (h : Hierarchy) (cs : List Candidate) (types : List Ty) (b : Candidate) : Prop where
  mem : b ∈ cs
  /-- Of the candidates of its shape it is the first that accepts the arguments. -/
  first : (Candidate.sortBySpecificity h (b.shapedAs cs)).find? (·.accepts h types) = some b
  /-- A variadic candidate serves no arity that fixed candidates have. -/
  fixedFirst : b.isVariadic → ∀ a ∈ cs, a.isVariadic = false → a.arity ≠ types.length

/-- No candidate that accepts the arguments is more specific than `b`, which is called. -/
structure CallsMostSpecific (h : Hierarchy) (callable : Callable) (types : List Ty) (b : Candidate) :
    Prop where
  mem : b ∈ callable.candidates
  accepts : b.accepts h types
  /-- Where another candidate first differs from `b`, its type is not assignable to that of `b`. Rest,
  which is as deep as Any, is the one exception. -/
  mostSpecific : ∀ a ∈ callable.candidates, a.accepts h types → ∀ x y, a.Differ b x y →
    h.isAssignable x y → x = .rest ∧ y = .any
  /-- A member of a subtype is called before the one that it overrides. -/
  overrides : ∀ a ∈ callable.candidates, a.accepts h types → a.origin = .instance →
    b.origin = .instance → a.arity = b.arity → (a.isVariadic → b.isVariadic) →
    ¬ h.IsBelow a.owner b.owner

variable {h : Hierarchy} {name : String} {scope : Ty} {limit lookahead : Nat} {pin : Option Nat}
  {cs : List Candidate} {callable : Callable} {types : List Ty} {b : Candidate}

/-- The candidates that a table of the arity rule has to choose from are those of one shape. -/
theorem serves_of_arityRule {overload : Overload}
    (hrule : arityRule h limit pin cs types.length = some overload)
    (hcalled : (overload.select h types).filter (·.accepts h types) = some b) :
    Serves h cs types b := by
  unfold arityRule at hrule
  split at hrule
  · cases hrule
  split at hrule
  · -- the fixed candidates of that arity
    rename_i found hfixed
    cases hrule
    rw [Overload.filter_select hfixed fun c hc => ⟨(mem_fixedOf.1 hc).2.2, (mem_fixedOf.1 hc).2.1⟩]
      at hcalled
    have hmem := Candidate.mem_sortBySpecificity.1 (List.mem_of_find?_eq_some hcalled)
    obtain ⟨hb, hvariadic, harity⟩ := mem_fixedOf.1 hmem
    refine ⟨hb, ?_, fun h => by rw [hvariadic] at h; cases h⟩
    convert hcalled using 3
    refine List.filter_congr fun c _ => ?_
    rw [hvariadic, harity]
    cases c.isVariadic <;> rfl
  · -- the variadic candidates of the greatest arity up to there
    rename_i hfixed
    obtain ⟨arity, _, hvariadicOf⟩ := Option.bind_eq_some_iff.1 hrule
    rw [Overload.filter_select hvariadicOf fun c hc =>
      ⟨(mem_variadicOf.1 hc).2.2, (mem_variadicOf.1 hc).2.1⟩] at hcalled
    have hmem := Candidate.mem_sortBySpecificity.1 (List.mem_of_find?_eq_some hcalled)
    obtain ⟨hb, hvariadic, harity⟩ := mem_variadicOf.1 hmem
    refine ⟨hb, ?_, fun _ a ha hafixed haarity => ?_⟩
    · convert hcalled using 3
      refine List.filter_congr fun c _ => ?_
      rw [hvariadic, harity]
      cases c.isVariadic <;> rfl
    · have hnone := Overload.ofCandidates?_eq_none_iff.1 hfixed
      have : a ∈ fixedOf cs types.length := mem_fixedOf.2 ⟨ha, hafixed, haarity⟩
      rw [hnone] at this
      cases this

/-- What a callable calls serves the arguments among the candidates it is made of. -/
theorem serves_of_called?
    (hmade : ofCandidates? h name scope limit lookahead pin cs = some callable)
    (hcalled : callable.called? h types = some b) : Serves h cs types b := by
  obtain ⟨c, rfl, rfl⟩ | ⟨first, others, rfl, rfl⟩ := ofCandidates?_cases hmade
  · change (some c).filter (·.accepts h types) = some b at hcalled
    obtain ⟨hb, haccepts⟩ := Option.filter_eq_some_iff.1 hcalled
    cases hb
    refine ⟨List.mem_singleton_self b, ?_, fun hvariadic a ha hfixed => ?_⟩
    · simp [Candidate.shapedAs, Candidate.sortBySpecificity, Candidate.insertOrdered, haccepts]
    · rw [List.mem_singleton.1 ha, hvariadic] at hfixed
      cases hfixed
  · have hrule : _ = arityRule h limit pin (first :: others) types.length :=
      (DispatchTable.holds_ofCandidates name scope lookahead pin first
        others).overloadFor?_eq_arityRule types.length
    change ((DispatchTable.overloadFor? _ _).bind _).filter _ = _ at hcalled
    rw [hrule] at hcalled
    cases hoverload : arityRule h limit pin (first :: others) types.length with
    | none =>
      rw [hoverload] at hcalled
      cases hcalled
    | some overload =>
      rw [hoverload] at hcalled
      exact serves_of_arityRule hoverload hcalled

theorem Serves.accepts (hserves : Serves h cs types b) : b.accepts h types :=
  List.find?_some (p := fun c : Candidate => c.accepts h types) hserves.first

/-- What serves the arguments is not preceded by another candidate of its shape that accepts them. -/
theorem Serves.not_lt (hserves : Serves h cs types b) {a : Candidate} (ha : a ∈ cs)
    (haccepts : a.accepts h types) (hvariadic : a.isVariadic = b.isVariadic)
    (harity : a.arity = b.arity) : a.order h b ≠ .lt := by
  intro hlt
  have hmem : a ∈ Candidate.sortBySpecificity h (b.shapedAs cs) := by
    refine Candidate.mem_sortBySpecificity.2 (List.mem_filter.2 ⟨ha, ?_⟩)
    simp [hvariadic, harity]
  have hsorted := Candidate.sortBySpecificity_pairwise (h := h) (b.shapedAs cs)
  obtain ⟨_, before, after, hsplit, hbefore⟩ := List.find?_eq_some_iff_append.1 hserves.first
  rw [hsplit] at hmem hsorted
  -- `a` accepts the arguments, so that it stands at `b` or after it
  rcases List.mem_append.1 hmem with hin | hin
  · have := hbefore a hin
    rw [haccepts] at this
    cases this
  · rcases List.mem_cons.1 hin with rfl | hin
    · rw [@Std.ReflCmp.compare_self _ (Candidate.order h)] at hlt
      cases hlt
    · have hle := (List.pairwise_cons.1 (List.pairwise_append.1 hsorted).2.1).1 a hin
      rw [@Std.OrientedCmp.eq_swap _ (Candidate.order h), hlt] at hle
      cases hle

/-- **A callable made of what a lookup finds passes over nothing more specific.** -/
theorem IsMadeOf.callsMostSpecific {r : Registry} (hreg : r.hierarchy.IsRegular)
    (hpaths : r.hierarchy.PathsWithin Hierarchy.depthLimit) {hw : WellFounded r.hierarchy.Above}
    (hmade : callable.IsMadeOf r hw) (hcalled : callable.called? r.hierarchy types = some b) :
    CallsMostSpecific r.hierarchy callable types b := by
  obtain ⟨key, t, cs, name, limit, lookahead, hfound, hmade⟩ := hmade
  have hserves := serves_of_called? hmade hcalled
  have hdeclared := Registry.isDeclared_of_lookUp hw hfound
  refine ⟨(candidates_perm_of_ofCandidates? hmade).mem_iff.2 hserves.mem, hserves.accepts, ?_, ?_⟩
  · rintro a ha haaccepts x y ⟨harity, hvariadic, hne, front, xs, ys, hax, hby⟩ hassign
    have hmem := (candidates_perm_of_ofCandidates? hmade).mem_iff.1 ha
    have hnot := hserves.not_lt hmem haaccepts hvariadic harity
    by_cases hrest : x = .rest
    · refine ⟨hrest, ?_⟩
      by_contra hany
      rw [hrest] at hassign hne
      exact hne (Hierarchy.eq_of_isAssignable_rest hassign hany)
    · exact absurd (Candidate.order_lt_of_params front harity hax hby
        (Hierarchy.specificityOrder_lt_of_isAssignable hreg hpaths hne hrest hassign)) hnot
  · intro a ha haaccepts haorigin hborigin harity hflags hbelow
    have hmem := (candidates_perm_of_ofCandidates? hmade).mem_iff.1 ha
    -- a fixed candidate that accepts as many arguments would have been called before a variadic one
    have hvariadic : a.isVariadic = b.isVariadic := by
      cases hafixed : a.isVariadic with
      | true => exact (hflags hafixed).symm
      | false =>
        cases hbvariadic : b.isVariadic with
        | false => rfl
        | true =>
          refine absurd ?_ (hserves.fixedFirst hbvariadic a hmem hafixed)
          unfold Candidate.accepts at haaccepts
          rw [hafixed] at haaccepts
          simp only [Bool.false_eq_true, if_false, Bool.and_eq_true, decide_eq_true_eq] at haaccepts
          exact haaccepts.1.symm
    obtain ⟨xs, hax⟩ := (hdeclared a hmem).params_of_instance haorigin
    obtain ⟨ys, hby⟩ := (hdeclared b hserves.mem).params_of_instance hborigin
    have hlt := Hierarchy.specificityOrder_lt_of_isBelow hreg hpaths hbelow
    exact hserves.not_lt hmem haaccepts hvariadic harity
      (Candidate.order_lt_of_params [] harity hax hby hlt)

theorem isSelector_eq_false_of_ofCandidates?
    (hmade : ofCandidates? h name scope limit lookahead pin cs = some callable) :
    callable.isSelector = false := by
  obtain ⟨_, _, rfl⟩ | ⟨_, _, _, rfl⟩ := ofCandidates?_cases hmade <;> rfl

theorem IsMadeOf.isSelector_eq_false {r : Registry} {hw : WellFounded r.hierarchy.Above}
    (hmade : callable.IsMadeOf r hw) : callable.isSelector = false := by
  obtain ⟨_, _, _, _, _, _, _, hmade⟩ := hmade
  exact isSelector_eq_false_of_ofCandidates? hmade

theorem IsMadeOf.owner_of_mem_rest {r : Registry} {hw : WellFounded r.hierarchy.Above}
    (hmade : callable.IsMadeOf r hw) :
    ∀ c ∈ callable.candidates, .rest ∈ c.params → c.owner = .rest := by
  obtain ⟨key, t, cs, name, limit, lookahead, hfound, hmade⟩ := hmade
  intro c hc
  have hmem := (candidates_perm_of_ofCandidates? hmade).mem_iff.1 hc
  exact (Registry.isDeclared_of_lookUp hw hfound c hmem).owner_of_mem_rest

section

variable {r : Registry} {hw : WellFounded r.hierarchy.Above} {config : EngineConfig}
  {References : MemberName → Prop} {t : Ty} {key : LookupKey}

/-- A callable that a reference stands for is made of the candidates that its lookup finds, unless this
finds a constant. -/
theorem found_of_isAnswer (hdiscovered : ∀ value, r.lookUp key hw t ≠ .ok (.constant value))
    (hanswer : IsAnswer r hw config References t key (.ok (some (.procedure callable)))) :
    ∃ cs surface, r.lookUp key hw t = .ok (.found cs) ∧
      ofCandidates? r.hierarchy surface t config.guardChainLimit config.variadicLookahead key.pin cs =
        some callable := by
  obtain ⟨lookup, surface, hfound, hvalue⟩ := hanswer.exists_lookup
  cases lookup with
  | notFound => cases hvalue
  | constant value => exact absurd hfound (hdiscovered value)
  | found cs =>
    obtain ⟨made, hmade, hprocedure⟩ := Option.map_eq_some_iff.1 hvalue.symm
    cases hprocedure
    exact ⟨cs, surface, hfound, hmade⟩

/-- A callable that a reference stands for is made of what a lookup finds, if all callables that are
stored as constants are. -/
theorem isMadeOf_of_isAnswer
    (hstored : ∀ owner, ∀ m ∈ r.membersOf owner, m.staticConstant? = some (.procedure callable) →
      callable.IsMadeOf r hw)
    (hanswer : IsAnswer r hw config References t key (.ok (some (.procedure callable)))) :
    callable.IsMadeOf r hw := by
  by_cases hdiscovered : ∀ value, r.lookUp key hw t ≠ .ok (.constant value)
  · obtain ⟨cs, surface, hfound, hmade⟩ := found_of_isAnswer hdiscovered hanswer
    exact ⟨key, t, cs, surface, _, _, hfound, hmade⟩
  · obtain ⟨value, hfound⟩ := not_forall_not.1 hdiscovered
    obtain ⟨_, _, _, heq⟩ := hanswer
    rw [hfound] at heq
    cases heq
    obtain ⟨owner, m, hm, hconstant⟩ := Registry.isDeclared_of_lookUp hw hfound
    exact hstored owner m hm hconstant

end

end Callable

/-! ## Calls -/

def Interpreter.reporting (events : List Event) (i : Interpreter) : Interpreter :=
  { i with engine := { i.engine with events := events ++ i.engine.events } }

/-- Who rejects arguments that no member is run on: the candidate that a table selects all the same, or
else the callable. -/
def Callable.rejecter (h : Hierarchy) (types : List Ty) : Callable → String
  | .table t => ((t.select h types).map Candidate.name).getD t.name
  | callable => callable.name

/-- **A call runs the member of the candidate that is called,** and it is rejected if there is none.
Before that it reports no more than the selection. -/
theorem Task.runFrom_applyValue_rejecter (recur : Task → EvalM Value) {callable : Callable}
    (hselector : callable.isSelector = false) (args : List Value) (i : Interpreter) :
    ∃ events, (applyValue recur (.procedure callable) args).runFrom i =
      match callable.called? i.engine.hierarchy (args.map Value.ty) with
      | some c => (runMember recur c args).runFrom (i.reporting events)
      | none => some (.error (rejection (callable.rejecter i.engine.hierarchy (args.map Value.ty)) args),
          i.reporting events) := by
  have hcandidate : ∀ (c : Candidate) (j : Interpreter), (callCandidate recur c args).runFrom j =
      match (some c).filter (·.accepts j.engine.hierarchy (args.map Value.ty)) with
      | some c => (runMember recur c args).runFrom j
      | none => some (.error (rejection c.name args), j) := by
    intro c j
    by_cases haccepts : c.accepts j.engine.hierarchy (args.map Value.ty)
    · rw [callCandidate_of_accepts recur haccepts, Option.filter_some, if_pos haccepts]
    · rw [callCandidate_of_not_accepts recur haccepts, Option.filter_some, if_neg haccepts]
  cases callable with
  | direct c => exact ⟨[], hcandidate c i⟩
  | table t =>
    show ∃ events, (callTable recur t args).runFrom i =
      match (t.select i.engine.hierarchy (args.map Value.ty)).filter _ with
      | some c => _
      | none => some (.error (rejection
          (((t.select i.engine.hierarchy (args.map Value.ty)).map Candidate.name).getD t.name) args), _)
    unfold callTable
    rw [EvalM.runFrom_hierarchy_bind]
    cases t.select i.engine.hierarchy (args.map Value.ty) with
    | some c =>
      refine ⟨[.overloadSelected (c.signature i.engine.hierarchy)], ?_⟩
      exact hcandidate c (i.reporting [.overloadSelected (c.signature i.engine.hierarchy)])
    | none => exact ⟨[], rfl⟩
  | selector name member => cases hselector

theorem Task.runFrom_applyValue (recur : Task → EvalM Value) {callable : Callable}
    (hselector : callable.isSelector = false) (args : List Value) (i : Interpreter) :
    ∃ events name, (applyValue recur (.procedure callable) args).runFrom i =
      match callable.called? i.engine.hierarchy (args.map Value.ty) with
      | some c => (runMember recur c args).runFrom (i.reporting events)
      | none => some (.error (rejection name args), i.reporting events) := by
  obtain ⟨events, hruns⟩ := runFrom_applyValue_rejecter recur hselector args i
  exact ⟨events, _, hruns⟩

namespace Engine

/-- The callable that a reference resolved to. -/
def resolvedCallable? : Except DispatchError (Option Value) → Option Callable
  | .ok (some (.procedure callable)) => some callable
  | _ => none

theorem eq_of_resolvedCallable? {result : Except DispatchError (Option Value)} {callable : Callable}
    (h : resolvedCallable? result = some callable) : result = .ok (some (.procedure callable)) := by
  unfold resolvedCallable? at h
  split at h
  · cases h
    rfl
  · cases h

/-- **The more specific overload wins.** After any history of a fresh engine, on a registry where host
types are declared below no primitive type and paths of supertypes have at most 64 steps, a callable
that a reference resolves to runs a candidate that accepts the arguments, and none of the same arity
and variadic flag that accepts them is more specific. What the registry itself stores as a constant
has to be such a callable too. -/
theorem calls_more_specific {provider : Provider} {config : EngineConfig} {depth : Nat}
    {steps : List Step} {results : List (Except RuntimeError (Option Value))} {i j : Interpreter}
    (hreg : provider.registry.hierarchy.IsRegular)
    (hpaths : provider.registry.hierarchy.PathsWithin 64)
    (hfresh : i.engine = .new provider config)
    (hrun : Step.runAll depth steps i = some (results, j))
    {t : Ty} {member : MemberName} {origin : OriginFilter} {bindReceiver : Bool}
    {callable : Callable}
    (hresolved : ((resolveMember t member origin bindReceiver).runFrom j.engine).1 =
      .ok (some (.procedure callable)))
    (hstored : ∀ owner, ∀ m ∈ provider.registry.membersOf owner,
      m.staticConstant? = some (.procedure callable) →
        callable.IsMadeOf provider.registry hpaths.wellFounded) :
    (∀ c ∈ callable.candidates, .rest ∈ c.params → c.owner = .rest) ∧
      ∀ (recur : Task → EvalM Value) (args : List Value) (k : Interpreter),
        k.engine.hierarchy = provider.registry.hierarchy →
        let types := args.map Value.ty
        (∃ events name, (Task.applyValue recur (.procedure callable) args).runFrom k =
          match callable.called? provider.registry.hierarchy types with
          | some b => (Task.runMember recur b args).runFrom (k.reporting events)
          | none => some (.error (Task.rejection name args), k.reporting events)) ∧
        ∀ b, callable.called? provider.registry.hierarchy types = some b →
          callable.CallsMostSpecific provider.registry.hierarchy types b := by
  let References : MemberName → Prop := fun m =>
    m = member ∨ m.IsSpelled ∨ m ∈ steps.flatMap Step.references
  have hstable : Stable References
      (Faithful provider.registry hpaths.wellFounded config References) :=
    stable_faithful hpaths config fun _ h => .inr (.inl h)
  have hsteps : ∀ step ∈ steps, ∀ m ∈ step.references, References m := by
    intro step hstep m hm
    exact .inr (.inr (List.mem_flatMap.2 ⟨step, hstep, hm⟩))
  have hj := hstable.keeps_runAll hsteps (hfresh ▸ faithful_new provider hpaths.wellFounded) hrun
  have hmember : References member := .inl rfl
  have hanswer := (resolveMember_keeps hmember (hpaths.within t) origin bindReceiver j.engine hj).1
  rw [hresolved] at hanswer
  have hmade := Callable.isMadeOf_of_isAnswer hstored
    (hanswer.resolve_right fun ⟨_, _, herr⟩ => by cases herr)
  refine ⟨hmade.owner_of_mem_rest, fun recur args k hk => ⟨?_, fun b hb => ?_⟩⟩
  · rw [← hk]
    exact Task.runFrom_applyValue recur hmade.isSelector_eq_false args k
  · exact hmade.callsMostSpecific hreg hpaths hb

/-- A function and a method of a subtype that overrides the one of its base. A failure of the provider
comes first. -/
theorem calls_more_specific_of_override :
    let f (params : List Ty) (isStatic : Bool) : Member :=
      { key := "f", kind := .method, params, ret := .text, isStatic, body := .constant .null }
    let provider : Provider := { registry :=
      { hierarchy := ⟨[⟨"Base", []⟩, ⟨"Derived", [.host 0]⟩]⟩
        members := [(.host 0, [f [] false, f [.number] true]), (.host 1, [f [] false])] } }
    let config : EngineConfig := { guardChainLimit := 1 }
    let member : MemberName := { surface := "f", key := "f", kind := .method, pin := none }
    let steps : List Step := [.setOutages [false, true],
      .resolveMember (.host 1) member .any false]
    ∃ (hpaths : provider.registry.hierarchy.PathsWithin 64)
      (results : List (Except RuntimeError (Option Value))) (j : Interpreter) (callable : Callable),
      provider.registry.hierarchy.IsRegular ∧
      Step.runAll 1 steps { engine := .new provider config } = some (results, j) ∧
      ((resolveMember (.host 1) member .any false).runFrom j.engine).1 =
        .ok (some (.procedure callable)) ∧
      (∀ owner, ∀ m ∈ provider.registry.membersOf owner,
        m.staticConstant? = some (.procedure callable) →
          callable.IsMadeOf provider.registry hpaths.wellFounded) ∧
      (∀ c ∈ callable.candidates, .rest ∈ c.params → c.owner = .rest) ∧
      ∀ (recur : Task → EvalM Value) (args : List Value) (k : Interpreter),
        k.engine.hierarchy = provider.registry.hierarchy →
        let types := args.map Value.ty
        (∃ events name, (Task.applyValue recur (.procedure callable) args).runFrom k =
          match callable.called? provider.registry.hierarchy types with
          | some b => (Task.runMember recur b args).runFrom (k.reporting events)
          | none => some (.error (Task.rejection name args), k.reporting events)) ∧
        ∀ b, callable.called? provider.registry.hierarchy types = some b →
          callable.CallsMostSpecific provider.registry.hierarchy types b := by
  intro f provider config member steps
  have hpaths : provider.registry.hierarchy.PathsWithin 64 :=
    (Hierarchy.pathsWithin_of_precedes (by decide)).mono (by decide)
  have hreg : provider.registry.hierarchy.IsRegular := by decide
  have hok : (Step.runAll 1 steps { engine := .new provider config }).any (fun ran =>
      (resolvedCallable? ((resolveMember (.host 1) member .any false).runFrom
        ran.2.engine).1).isSome) := by
    decide +kernel
  obtain ⟨⟨results, j⟩, hrun, hok⟩ := (Option.any_eq_true _ _).1 hok
  obtain ⟨callable, hcallable⟩ := Option.isSome_iff_exists.1 hok
  have hresolved := eq_of_resolvedCallable? hcallable
  have hstored : ∀ owner, ∀ m ∈ provider.registry.membersOf owner,
      m.staticConstant? = some (.procedure callable) →
        callable.IsMadeOf provider.registry hpaths.wellFounded := by
    intro owner m hm hconstant
    exact absurd hconstant (Registry.staticConstant?_ne_some (by decide) hm _)
  have hfresh : ({ engine := .new provider config } : Interpreter).engine = .new provider config := rfl
  exact ⟨hpaths, results, j, callable, hreg, hrun, hresolved, hstored,
    calls_more_specific hreg hpaths hfresh hrun hresolved hstored⟩

/-- Two limits of the rule. On the type Rest, a method precedes nothing, though its receiver's type
is assignable to Any. And a variadic method does not override a fixed one, which serves its own number
of arguments first. -/
theorem calls_less_specific_of_rest :
    let member : MemberName := { surface := "f", key := "f", kind := .method, pin := none }
    let method (params : List Ty) : Member :=
      { key := "f", kind := .method, params, ret := .text, isStatic := false, body := .constant .null }
    let resolved (r : Registry) (t : Ty) : Except DispatchError (Option Value) :=
      ((resolveMember t member .any false).runFrom (.new ⟨r, []⟩ {})).1
    let onRest : Registry :=
      { members := [(.rest, [method [], { method [.any] with isStatic := true }])] }
    let overridden : Registry :=
      { hierarchy := ⟨[⟨"Base", []⟩, ⟨"Derived", [.host 0]⟩]⟩
        members := [(.host 0, [method []]), (.host 1, [(method []).variadic])] }
    (∃ (callable : Callable) (a b : Candidate),
      resolved onRest .rest = .ok (some (.procedure callable)) ∧
      callable.called? onRest.hierarchy [.null] = some b ∧
      a ∈ callable.candidates ∧ a.accepts onRest.hierarchy [.null] ∧ a.Differ b .rest .any ∧
      onRest.hierarchy.isAssignable .rest .any) ∧
    ∃ (callable : Callable) (a b : Candidate),
      resolved overridden (.host 1) = .ok (some (.procedure callable)) ∧
      callable.called? overridden.hierarchy [.host 1] = some b ∧
      a ∈ callable.candidates ∧ a.accepts overridden.hierarchy [.host 1] ∧
      a.origin = .instance ∧ b.origin = .instance ∧ a.arity = b.arity ∧
      overridden.hierarchy.IsBelow a.owner b.owner := by
  intro member method resolved onRest overridden
  let key : LookupKey := member.lookup .any false
  constructor
  · let a := Candidate.ofDeclaration .rest 0 key (method []).toDeclaration
    let b := Candidate.ofDeclaration .rest 1 key
      { method [.any] with isStatic := true }
    have hok : (resolvedCallable? (resolved onRest .rest)).any fun callable =>
        callable.called? onRest.hierarchy [.null] = some b && a ∈ callable.candidates &&
          a.accepts onRest.hierarchy [.null] := by
      decide +kernel
    obtain ⟨callable, hcallable, hok⟩ := (Option.any_eq_true _ _).1 hok
    simp only [Bool.and_eq_true, decide_eq_true_eq] at hok
    refine ⟨callable, a, b, eq_of_resolvedCallable? hcallable, hok.1.1, hok.1.2, hok.2, ?_, rfl⟩
    exact ⟨rfl, rfl, by decide, [], [], [], rfl, rfl⟩
  · let a := Candidate.ofDeclaration (.host 1) 0 key (method []).variadic.toDeclaration
    let b := Candidate.ofDeclaration (.host 0) 0 key (method []).toDeclaration
    have hok : (resolvedCallable? (resolved overridden (.host 1))).any fun callable =>
        callable.called? overridden.hierarchy [.host 1] = some b && a ∈ callable.candidates &&
          a.accepts overridden.hierarchy [.host 1] := by
      decide +kernel
    obtain ⟨callable, hcallable, hok⟩ := (Option.any_eq_true _ _).1 hok
    simp only [Bool.and_eq_true, decide_eq_true_eq] at hok
    exact ⟨callable, a, b, eq_of_resolvedCallable? hcallable, hok.1.1, hok.1.2, hok.2, rfl, rfl, rfl,
      .single (List.mem_singleton_self (Ty.host 0))⟩

end Engine

end Multimethod
