import Multimethod.Proofs.Engine.Imports
import Multimethod.Proofs.Engine.Listing
import Multimethod.Proofs.Engine.Spelled
import Multimethod.Proofs.Eval.MoreSpecific
import Multimethod.Proofs.Eval.WellFormedEntries
import Multimethod.Proofs.Name.Spelling

/-!
# Selector calls

A selector looks its member up among the instance members of the type of the first argument, call by call. A
qualified name looks the same member up among all members of the type, once. The two lookups are kept apart
from each other and find different candidates, but where no static member answers they come to the same call.

* `Callable.applyValue_relabel` — procedures of the same candidates under different lookups make the same calls.
* `Task.runFrom_callSelector` — a call of a selector is a resolution and a call of what it gives.
* `Engine.exists_callable_of_isAnswer` — what the two lookups stand for.
* `Engine.exists_faithful` — the answers of any state that a fresh engine may come to are faithful.
* `Engine.selector_agrees_with_qualified` — a selector call comes to the call of the qualified name.
-/

namespace Multimethod

/-! ## Procedures of the same candidates -/

theorem Task.callTable_relabel (g : LookupKey → LookupKey) {t t' : DispatchTable} (hname : t'.name = t.name)
    (hselect : ∀ h types, t'.select h types = (t.select h types).map (Candidate.relabel g))
    (recur : Task → EvalM Value) (args : List Value) : callTable recur t' args = callTable recur t args := by
  unfold callTable
  congr 1
  funext h
  rw [hselect, hname]
  cases t.select h (args.map Value.ty) <;> rfl

namespace Callable

variable {h : Hierarchy} {name name' : String} {scope scope' : Ty} {limit lookahead : Nat} {pin : Option Nat}
  {cs : List Candidate} {a b : Callable}

/-- The callable under another name. One candidate has the name of its member. -/
def goingBy (name : String) : Callable → Callable
  | .table t => .table { t with name }
  | callable => callable

theorem goingBy_of_ofCandidates? (ha : ofCandidates? h name scope limit lookahead pin cs = some a) :
    a.goingBy name = a := by
  obtain ⟨_, rfl, rfl⟩ | ⟨first, others, rfl, rfl⟩ := ofCandidates?_cases ha <;> rfl

theorem select_ofCandidates_relabel (g : LookupKey → LookupKey) (first : Candidate) (others : List Candidate)
    (h' : Hierarchy) (types : List Ty) :
    (DispatchTable.ofCandidates h name' scope' limit lookahead pin (first.relabel g)
        (others.map (Candidate.relabel g))).select h' types =
      ((DispatchTable.ofCandidates h name scope limit lookahead pin first others).select h' types).map
        (Candidate.relabel g) := by
  have hrule : _ = arityRule h limit pin (first :: others) types.length :=
    (DispatchTable.holds_ofCandidates name scope lookahead pin first others).overloadFor?_eq_arityRule _
  have hrule' : _ = arityRule h limit pin ((first :: others).map (Candidate.relabel g)) types.length :=
    (DispatchTable.holds_ofCandidates name' scope' lookahead pin (first.relabel g)
      (others.map (Candidate.relabel g))).overloadFor?_eq_arityRule _
  unfold DispatchTable.select
  rw [hrule, hrule']
  exact arityRule_relabel g pin types.length h' types

/-- **Procedures of the same candidates under different lookups make the same calls,** under one name. -/
theorem applyValue_relabel (g : LookupKey → LookupKey)
    (ha : ofCandidates? h name scope limit lookahead pin cs = some a)
    (hb : ofCandidates? h name' scope' limit lookahead pin (cs.map (Candidate.relabel g)) = some b)
    (recur : Task → EvalM Value) (args : List Value) :
    Task.applyValue recur (.procedure b) args = Task.applyValue recur (.procedure (a.goingBy name')) args := by
  have htable (first : Candidate) (others : List Candidate) :
      Task.callTable recur (.ofCandidates h name' scope' limit lookahead pin (first.relabel g)
        (others.map (Candidate.relabel g))) args =
      Task.callTable recur
        { DispatchTable.ofCandidates h name scope limit lookahead pin first others with name := name' } args := by
    refine Task.callTable_relabel g ?_ ?_ recur args
    · rfl
    · exact select_ofCandidates_relabel g first others
  match cs with
  | [] => cases ha
  | [c] =>
    have hvariadic : (c.relabel g).isVariadic = c.isVariadic := rfl
    rw [List.map_singleton, ofCandidates?, hvariadic] at hb
    rw [ofCandidates?] at ha
    split at ha
    · rename_i hdirect
      rw [if_pos hdirect] at hb
      cases ha
      cases hb
      rfl
    · rename_i hdirect
      rw [if_neg hdirect] at hb
      cases ha
      cases hb
      exact htable c []
  | first :: second :: others =>
    cases ha
    cases hb
    exact htable first (second :: others)

end Callable

/-! ## Calls -/

/-- **A call of a selector is a resolution and a call of what it gives.** -/
theorem Task.runFrom_callSelector (recur : Task → EvalM Value) {name : String} (member : SelectorMember name)
    (receiver : Value) (args : List Value) (i : Interpreter) :
    (callSelector recur name member (receiver :: args)).runFrom i =
      let ran := (Engine.resolveMember receiver.ty member.val .instance false).runFrom i.engine
      let j := { i with engine := ran.2 }
      match ran.1 with
      | .ok (some (.procedure callable)) => (recur (.apply (.procedure callable) (receiver :: args))).runFrom j
      | .ok _ =>
        let typeName := j.engine.hierarchy.typeName receiver.ty
        some (.error (.dispatch (.unboundName (typeName ++ "." ++ member.val.surface))), j)
      | .error err => some (.error (.dispatch err), j) := by
  unfold callSelector
  dsimp only
  rw [EvalM.runFrom_bind, EvalM.runFrom_dispatch]
  generalize (Engine.resolveMember receiver.ty member.val .instance false).runFrom i.engine = ran
  obtain ⟨err | value, engine⟩ := ran
  · rfl
  · obtain _ | value := value
    · rfl
    · cases value <;> rfl

namespace Engine

variable {r : Registry} {hw : WellFounded r.hierarchy.Above} {config : EngineConfig}
  {References : MemberName → Prop} {e : Engine} {t : Ty} {member : MemberName} {bindReceiver : Bool}

theorem lookUp_member_instance (hstatic : r.HasNoStatic t (member.lookup .any bindReceiver)) :
    r.lookUp (member.lookup .instance bindReceiver) hw t =
      (r.lookUp (member.lookup .any bindReceiver) hw t).map
        (Lookup.relabel fun _ => member.lookup .instance bindReceiver) :=
  Registry.lookUp_instance hw hstatic

/-- **What the two lookups stand for** are procedures of the same candidates. -/
theorem exists_callable_of_isAnswer (hstatic : r.HasNoStatic t (member.lookup .any bindReceiver))
    {value : Value} {found : Option Value}
    (hany : IsAnswer r hw config References t (member.lookup .any bindReceiver) (.ok (some value)))
    (hinstance : IsAnswer r hw config References t (member.lookup .instance bindReceiver) (.ok found)) :
    ∃ (callable callable' : Callable) (written written' : MemberName),
      value = .procedure callable ∧ found = some (.procedure callable') ∧
      References written ∧ written.lookup .any bindReceiver = member.lookup .any bindReceiver ∧
      References written' ∧ written'.lookup .instance bindReceiver = member.lookup .instance bindReceiver ∧
      callable.goingBy written.surface = callable ∧
      ∀ recur args, Task.applyValue recur (.procedure callable') args =
        Task.applyValue recur (.procedure (callable.goingBy written'.surface)) args := by
  obtain ⟨written, hwritten, hkey, hany⟩ := hany
  obtain ⟨written', hwritten', hkey', hinstance⟩ := hinstance
  rw [lookUp_member_instance hstatic] at hinstance
  cases hfound : r.lookUp (member.lookup .any bindReceiver) hw t with
  | error err =>
    rw [hfound] at hany
    cases hany
  | ok lookup =>
    rw [hfound] at hany hinstance
    have hvalue := (Except.ok.inj hany).symm
    have hvalue' := Except.ok.inj hinstance
    cases lookup with
    | notFound => cases hvalue
    | constant v => exact absurd hfound (Registry.lookUp_ne_constant hw hstatic v)
    | found cs =>
      obtain ⟨callable, hmade, rfl⟩ := Option.map_eq_some_iff.1 hvalue
      let g : LookupKey → LookupKey := fun _ => member.lookup .instance bindReceiver
      have hne : cs.map (Candidate.relabel g) ≠ [] := by
        intro hnil
        rw [List.map_eq_nil_iff.1 hnil] at hmade
        cases hmade
      obtain ⟨callable', hmade'⟩ := Callable.exists_ofCandidates? (h := r.hierarchy) hne written'.surface t
        config.guardChainLimit config.variadicLookahead member.pin
      refine ⟨callable, callable', written, written', rfl, ?_, hwritten, hkey, hwritten', hkey',
        Callable.goingBy_of_ofCandidates? hmade, Callable.applyValue_relabel g hmade hmade'⟩
      rw [hvalue']
      show (Callable.ofCandidates? _ _ _ _ _ member.pin (cs.map (Candidate.relabel g))).map _ = _
      rw [hmade']
      rfl

/-- If one of the two lookups stands for nothing, so does the other. -/
theorem eq_none_of_isAnswer (hstatic : r.HasNoStatic t (member.lookup .any bindReceiver))
    {found : Option Value}
    (hany : IsAnswer r hw config References t (member.lookup .any bindReceiver) (.ok none))
    (hinstance : IsAnswer r hw config References t (member.lookup .instance bindReceiver) (.ok found)) :
    found = none := by
  obtain ⟨written, _, _, hany⟩ := hany
  obtain ⟨written', _, _, hinstance⟩ := hinstance
  rw [lookUp_member_instance hstatic] at hinstance
  cases hfound : r.lookUp (member.lookup .any bindReceiver) hw t with
  | error err =>
    rw [hfound] at hany
    cases hany
  | ok lookup =>
    rw [hfound] at hany hinstance
    cases lookup with
    | notFound => exact Except.ok.inj hinstance
    | constant v => exact absurd hfound (Registry.lookUp_ne_constant hw hstatic v)
    | found cs =>
      have hnone := Option.map_eq_none_iff.1 (Except.ok.inj hany).symm
      have hnil : cs = [] := by
        by_contra hne
        obtain ⟨_, hmade⟩ := Callable.exists_ofCandidates? (h := r.hierarchy) hne written.surface t
          config.guardChainLimit config.variadicLookahead (member.lookup .any bindReceiver).pin
        rw [hmade] at hnone
        cases hnone
      rw [hnil] at hinstance
      exact Except.ok.inj hinstance

/-- **In any state that a fresh engine may come to, all answers are faithful,** and if names spell all
references, so they do those that the answers are kept under. -/
theorem exists_faithful {provider : Provider} {config : EngineConfig}
    (hpaths : provider.registry.hierarchy.PathsWithin 64) (he : (Engine.new provider config).LeadsTo e)
    (hmember : member.IsSpelled) :
    ∃ References : MemberName → Prop,
      (e.IsReachable provider config → ∀ m, References m → m.IsSpelled) ∧ References member ∧
      e.Faithful provider.registry hpaths.wellFounded config References := by
  by_cases hreachable : e.IsReachable provider config
  · exact ⟨MemberName.IsSpelled, fun _ _ h => h, hmember,
      hreachable.of_stable (stable_faithful hpaths config fun _ h => h)
        (faithful_new provider hpaths.wellFounded)⟩
  · exact ⟨fun _ => True, fun h => absurd h hreachable, trivial,
      he.of_stable (stable_faithful hpaths config fun _ _ => trivial)
        (faithful_new provider hpaths.wellFounded)⟩

/-- **Selector calls agree with qualified names.** Let the paths of supertypes have at most 64 steps, and let
no static member answer to a member's key and kind on the type of a receiver or above it. In any state that a
fresh engine may come to, take a selector of the member, and the member's name qualified by a name of that
type. The call of the selector looks the member up, and then, if the qualified name stands for a value, it is
the call of this value, a procedure. The name that a table goes by may differ, but not where names spell all
references. If the qualified name stands for nothing, the name that the error calls unbound is that of the
member on the type, and if it cannot be resolved, the call fails with the same error. -/
theorem selector_agrees_with_qualified {provider : Provider} {config : EngineConfig} {k : Interpreter}
    {receiver : Value} {typeName spelling : String} {member member' plain : MemberName}
    (hpaths : provider.registry.hierarchy.PathsWithin 64)
    (hk : (Engine.new provider config).LeadsTo k.engine)
    (htype : k.engine.findType? typeName = some receiver.ty)
    (hselector : Name.classify ("." ++ spelling) = .selector member)
    (hqualified : Name.classify (typeName ++ "/" ++ spelling) = .qualified typeName member' plain)
    (hnew : member.surface ≠ "new")
    (hstatic : provider.registry.HasNoStatic receiver.ty (member.lookup .any false)) (scope : Option Ty) :
    let selector : Value := .procedure (.selector ("." ++ spelling) ⟨member, hselector⟩)
    let resolved := ((resolve (typeName ++ "/" ++ spelling) scope).runFrom k.engine).1
    let k' : Interpreter :=
      { k with engine := ((resolveMember receiver.ty member .instance false).runFrom k.engine).2 }
    let called (depth : Nat) (args : List Value) :=
      (Task.perform (depth + 1) (.apply selector (receiver :: args))).runFrom k
    k.engine.GrowsInto k'.engine ∧
    (∀ value, resolved = .ok (some value) → ∃ (callable : Callable) (name : String),
      value = .procedure callable ∧
      (k.engine.IsReachable provider config → callable.goingBy name = callable) ∧
      ∀ depth args, called depth args =
        (Task.perform depth (.apply (.procedure (callable.goingBy name)) (receiver :: args))).runFrom k') ∧
    (resolved = .ok none → ∀ depth args, called depth args =
      some (.error (.dispatch (.unboundName
        (k.engine.hierarchy.typeName receiver.ty ++ "." ++ member.surface))), k')) ∧
    ∀ err, resolved = .error err → ∀ depth args, called depth args = some (.error (.dispatch err), k') := by
  intro selector resolved k' called
  obtain rfl := Name.qualified_eq_selector hselector hqualified hnew
  have hresolved : resolved = ((resolveMember receiver.ty member' .any false).runFrom k.engine).1 :=
    congrArg Prod.fst (resolve_of_qualified hqualified htype scope)
  have hcalled (depth : Nat) (args : List Value) : called depth args = _ :=
    Task.runFrom_callSelector (Task.perform depth) ⟨member', hselector⟩ receiver args k
  obtain ⟨References, hspelled, hmember, hfaithful⟩ :=
    exists_faithful hpaths hk (MemberName.isSpelled_of_selector hselector)
  have hcomplete := hk.of_stable (stable_complete hpaths config) (obeys_new provider config)
  have hwithin := hpaths.within receiver.ty
  have halike := resolveMember_instance_resultsAlike hcomplete hfaithful hmember hwithin hstatic
  have hany := (resolveMember_keeps hmember hwithin .any false _ hfaithful).1
  have hinstance := (resolveMember_keeps hmember hwithin .instance false _ hfaithful).1
  have hgrows := (resolveMember_grows k.engine receiver.ty member' .instance false _ (.refl _)).2
  have hhierarchy : k'.engine.hierarchy = k.engine.hierarchy := congrArg Registry.hierarchy hgrows.registry
  refine ⟨hgrows, ?_⟩
  rw [hresolved]
  dsimp only at hcalled
  generalize ((resolveMember receiver.ty member' .any false).runFrom k.engine).1 = result at halike hany ⊢
  generalize ((resolveMember receiver.ty member' .instance false).runFrom k.engine).1 = result'
    at halike hinstance hcalled
  cases halike with
  | @error err err' herr =>
    subst herr
    refine ⟨fun _ h => (by cases h), fun h => (by cases h), fun _ h depth args => ?_⟩
    cases h
    exact hcalled depth args
  | @ok answer answer' _ =>
    have hany := hany.resolve_right fun ⟨_, _, herr⟩ => by cases herr
    have hinstance := hinstance.resolve_right fun ⟨_, _, herr⟩ => by cases herr
    cases answer with
    | none =>
      obtain rfl := eq_none_of_isAnswer hstatic hany hinstance
      refine ⟨fun _ h => (by cases h), fun _ depth args => ?_, fun _ h => (by cases h)⟩
      rw [hcalled depth args, ← hhierarchy]
    | some value =>
      obtain ⟨callable, callable', written, written', rfl, rfl, hwritten, hkey, hwritten', hkey', hname, hsame⟩ :=
        exists_callable_of_isAnswer hstatic hany hinstance
      refine ⟨fun value hvalue => ?_, fun h => (by cases h), fun _ h => (by cases h)⟩
      cases hvalue
      refine ⟨callable, written'.surface, rfl, fun hreachable => ?_, fun depth args => ?_⟩
      · have hsurface : written'.surface = written.surface :=
          MemberName.surface_eq_of_isSpelled (hspelled hreachable _ hwritten') (hspelled hreachable _ hwritten)
            ((congrArg LookupKey.key hkey').trans (congrArg LookupKey.key hkey).symm)
            ((congrArg LookupKey.kind hkey').trans (congrArg LookupKey.kind hkey).symm)
        rw [hsurface, hname]
      · rw [hcalled depth args]
        cases depth with
        | zero => rfl
        | succ depth =>
          show (Task.applyValue _ _ _).runFrom _ = (Task.applyValue _ _ _).runFrom _
          rw [hsame]

/-- A method that the derived type overrides and another one that it inherits, called with a pin after a
failure of the provider. -/
theorem selector_agrees_with_qualified_of_override :
    let f (param : Ty) : Member :=
      { key := "f", kind := .method, params := [param], ret := .text, isStatic := false, body := .constant .null }
    let provider : Provider := { registry :=
      { hierarchy := ⟨[⟨"Base", []⟩, ⟨"Derived", [.host 0]⟩]⟩
        members := [(.host 0, [f .int, f .text]), (.host 1, [f .int])] } }
    let receiver : Value := .host { ty := 1, typeName := "Derived", label := .given "d" }
    let member : MemberName := { surface := "f", key := "f", kind := .method, pin := some 2 }
    let steps : List Step := [.setOutages [false, true], .get "Derived/f:2"]
    ∃ (hselector : Name.classify ("." ++ "f:2") = .selector member)
      (results : List (Except RuntimeError (Option Value))) (j : Interpreter) (callable : Callable),
      Step.runAll 1 steps { engine := .new provider {} } = some (results, j) ∧
      provider.registry.HasNoStatic (.host 1) (member.lookup .any false) ∧
      ((resolve ("Derived" ++ "/" ++ "f:2") none).runFrom j.engine).1 = .ok (some (.procedure callable)) ∧
      callable.candidates.length = 3 ∧
      ∀ depth args,
        (Task.perform (depth + 1) (.apply (.procedure (.selector ("." ++ "f:2") ⟨member, hselector⟩))
          (receiver :: args))).runFrom j =
        (Task.perform depth (.apply (.procedure callable) (receiver :: args))).runFrom
          { j with engine := ((resolveMember (.host 1) member .instance false).runFrom j.engine).2 } := by
  intro f provider receiver member steps
  have hpaths : provider.registry.hierarchy.PathsWithin 64 :=
    (Hierarchy.pathsWithin_of_precedes (by decide)).mono (by decide)
  have hselector : Name.classify ("." ++ "f:2") = .selector member := by decide +kernel
  have hqualified : Name.classify ("Derived" ++ "/" ++ "f:2") =
      .qualified "Derived" member (Name.plainMember "Derived/f".toList (some 2)) := by
    decide +kernel
  have hfound : (Step.runAll 1 steps { engine := .new provider {} }).any fun ran =>
      ran.2.engine.findType? "Derived" = some (.host 1) &&
        (resolvedCallable? ((resolve ("Derived" ++ "/" ++ "f:2") none).runFrom ran.2.engine).1).any
          fun callable => callable.candidates.length = 3 := by
    decide +kernel
  obtain ⟨⟨results, j⟩, hrun, hfound⟩ := (Option.any_eq_true _ _).1 hfound
  obtain ⟨htype, hcallable⟩ := Bool.and_eq_true_iff.1 hfound
  have htype : j.engine.findType? "Derived" = some receiver.ty := of_decide_eq_true htype
  obtain ⟨callable, hcallable, hlength⟩ := (Option.any_eq_true _ _).1 hcallable
  have hresolved := eq_of_resolvedCallable? hcallable
  have hstatic : provider.registry.HasNoStatic (.host 1) (member.lookup .any false) := by
    intro s _ m hm
    obtain ⟨p, hp, hm⟩ := Registry.exists_of_mem_membersOf hm
    have hno : ∀ p ∈ provider.registry.members, ∀ m ∈ p.2,
        ((member.lookup .any false).withOrigin .static).admits m = false := by
      decide
    exact hno p hp m hm
  have hspelled : ∀ step ∈ steps, ∀ member ∈ step.references, member.IsSpelled :=
    Step.forall_references (by decide)
  have hreachable : j.engine.IsReachable provider {} :=
    (stable_isReachable provider {}).keeps_runAll (i := { engine := .new provider {} }) hspelled .new hrun
  have hk : (Engine.new provider {}).LeadsTo j.engine :=
    (stable_leadsTo (.new provider {})).keeps_runAll (i := { engine := .new provider {} })
      (fun _ _ _ _ => trivial) .refl hrun
  obtain ⟨_, hvalue, _⟩ := selector_agrees_with_qualified hpaths hk htype hselector hqualified (by decide)
    hstatic none
  obtain ⟨callable', name, hprocedure, hname, hcalls⟩ := hvalue _ hresolved
  cases hprocedure
  rw [hname hreachable] at hcalls
  exact ⟨hselector, results, j, callable, hrun, hstatic, hresolved, of_decide_eq_true hlength, hcalls⟩

end Engine

end Multimethod
