import Multimethod.Proofs.Dispatch.DeclarationOrder
import Multimethod.Proofs.Engine.Spelled
import Multimethod.Proofs.Eval.MoreSpecific
import Multimethod.Proofs.Value.Equal

/-!
# Equal procedures behave equally

Procedures are compared by their candidates alone. That this is sound rests on where candidates come from:
each carries the lookup that found it, so equal procedures were found by one lookup, and with it they share
the pin and the name. The layout of a table is made of the candidates, in whatever order they stood. All
that is left is the type on which a table was resolved, and no call asks for it.

* `Callable.eq_onScope_of_sameDispatch` — equal procedures differ in their scope at most.
* `Engine.equal_procedures_behave_equally` — calls do not tell them apart.
-/

namespace Multimethod

/-! ## Procedures made of candidates -/

namespace Callable

/-- Is the procedure made of candidates of one lookup, each of its own signature, under the text of a
spelled reference? -/
def IsBuilt (r : Registry) (config : EngineConfig) (callable : Callable) : Prop :=
  ∃ (member : MemberName) (key : LookupKey) (t : Ty) (cs : List Candidate), member.IsSpelled ∧
    member.lookup key.origin key.bindReceiver = key ∧ (∀ c ∈ cs, c.lookup = key) ∧
    (cs.Pairwise fun c d => ¬ c.sameSignature d) ∧
    ofCandidates? r.hierarchy member.surface t config.guardChainLimit config.variadicLookahead key.pin cs =
      some callable

variable {r : Registry} {config : EngineConfig} {a b : Callable}

/-- **Equal procedures differ in their scope at most.** -/
theorem eq_onScope_of_sameDispatch (ha : a.IsBuilt r config) (hb : b.IsBuilt r config)
    (hsame : a.sameDispatch b) : ∃ scope, b = a.onScope scope := by
  obtain ⟨member, key, t, cs, hspelled, hkey, hlookup, hdistinct, hmade⟩ := ha
  obtain ⟨member', key', t', cs', hspelled', hkey', hlookup', _, hmade'⟩ := hb
  have hperm := candidates_perm_of_ofCandidates? hmade
  have hperm' := candidates_perm_of_ofCandidates? hmade'
  obtain rfl | ⟨hne, hcandidates⟩ | ⟨_, _, _, _, rfl, _, _⟩ := sameDispatch_cases hsame
  · refine ⟨t, Option.some.inj ?_⟩
    rw [← hmade, ← map_onScope_ofCandidates?_of_perm t t hdistinct (.refl cs), hmade]
    rfl
  · -- a candidate of both has the lookup of each
    obtain ⟨c, hc⟩ := List.exists_mem_of_ne_nil _ hne
    obtain rfl : key = key' :=
      (hlookup c (hperm.mem_iff.1 hc)).symm.trans (hlookup' c (hperm'.mem_iff.1 (hcandidates ▸ hc)))
    have hsurface : member.surface = member'.surface := by
      have hlookups := hkey.trans hkey'.symm
      exact MemberName.surface_eq_of_isSpelled hspelled hspelled' (congrArg LookupKey.key hlookups)
        (congrArg LookupKey.kind hlookups)
    have hpermutes : cs.Perm cs' := hperm.symm.trans (hcandidates ▸ hperm')
    refine ⟨t', Option.some.inj ?_⟩
    rw [← hmade', ← hsurface, ← map_onScope_ofCandidates?_of_perm t t' hdistinct hpermutes, hmade]
    rfl
  · cases isSelector_eq_false_of_ofCandidates? hmade

theorem applyValue_onScope (recur : Task → EvalM Value) (scope : Ty) (callable : Callable)
    (args : List Value) :
    Task.applyValue recur (.procedure (callable.onScope scope)) args =
      Task.applyValue recur (.procedure callable) args := by
  cases callable <;> rfl

end Callable

/-! ## What is resolved -/

/-- Is the procedure among the constants that the registry declares? -/
def Registry.Stores (r : Registry) (callable : Callable) : Prop :=
  ∃ t, ∃ m ∈ r.membersOf t, m.staticConstant? = some (.procedure callable)

namespace Engine

variable {provider : Provider} {config : EngineConfig} {e : Engine}

/-- Does a spelled reference or a name stand for the value in this state of the engine? -/
inductive Resolves (e : Engine) (value : Value) : Prop
  | member (t : Ty) {member : MemberName} (origin : OriginFilter) (bindReceiver : Bool)
    (hmember : member.IsSpelled)
    (hresolved : ((resolveMember t member origin bindReceiver).runFrom e).1 = .ok (some value))
  | name (name : String) (scope : Option Ty)
    (hresolved : ((resolve name scope).runFrom e).1 = .ok (some value))

/-- A procedure that a reference stands for is made of candidates, if it is so wherever it is stored. -/
theorem IsNamed.isBuilt {r : Registry} {t : Ty} {key : LookupKey} {callable : Callable}
    (hstored : r.Stores callable → callable.IsBuilt r config)
    (h : IsNamed r config t key (some (.procedure callable))) : callable.IsBuilt r config := by
  obtain ⟨member, lookup, hmember, hkey, hwell, hdeclared, hvalue⟩ := h
  cases lookup with
  | found cs =>
    obtain ⟨made, hmade, hprocedure⟩ := Option.map_eq_some_iff.1 hvalue.symm
    cases hprocedure
    refine ⟨member, key, t, cs, hmember, hkey, fun c hc => ?_, hwell.2.distinct, hmade⟩
    obtain ⟨_, _, _, hc⟩ := hdeclared c hc
    exact congrArg Candidate.lookup hc
  | constant value =>
    cases hvalue
    exact hstored hdeclared
  | notFound => cases hvalue

/-- What holds of all that references stand for holds of all procedures that are resolved. -/
theorem Resolves.of_named {P : Callable → Prop} {callable : Callable}
    (hnamed : ∀ {t : Ty} {key : LookupKey} {callable : Callable},
      IsNamed provider.registry config t key (some (.procedure callable)) →
        callable.isSelector = false → P callable)
    (he : e.IsReachable provider config) (h : e.Resolves (.procedure callable))
    (hselector : callable.isSelector = false) : P callable := by
  -- what every answer is, and with it what every name stands for
  let Q : Value → Prop := fun v => ∀ callable : Callable, v = .procedure callable →
    callable.isSelector = false → P callable
  have hmembers : ∀ (t : Ty) {member : MemberName} (origin : OriginFilter) (bindReceiver : Bool),
      member.IsSpelled → DispatchM.Gives (Spelled provider.registry config)
        (resolveMember t member origin bindReceiver) fun answer => ∀ v ∈ answer, Q v := by
    intro t member origin bindReceiver hmember e he
    obtain ⟨hanswers, hkeeps⟩ := resolveMember_spelled t hmember origin bindReceiver e he
    refine ⟨fun answer hanswer v hv callable hcallable hselector => ?_, hkeeps⟩
    subst hcallable
    cases hv
    exact hnamed (hanswers _ hanswer) hselector
  cases h with
  | member t origin bindReceiver hmember hresolved =>
    exact (hmembers t origin bindReceiver hmember e he.spelled).1 _ hresolved _ rfl callable rfl hselector
  | name name scope hresolved =>
    have hnames := resolve_gives hmembers
      (fun _ _ _ hcallable hselector => by cases hcallable; cases hselector) name scope
    exact (hnames e he.spelled).1 _ hresolved _ rfl callable rfl hselector

theorem Resolves.isBuilt {callable : Callable} (he : e.IsReachable provider config)
    (h : e.Resolves (.procedure callable)) (hselector : callable.isSelector = false)
    (hstored : provider.registry.Stores callable → callable.IsBuilt provider.registry config) :
    callable.IsBuilt provider.registry config :=
  h.of_named (P := fun callable => (provider.registry.Stores callable →
      callable.IsBuilt provider.registry config) → callable.IsBuilt provider.registry config)
    (fun hnamed _ hstored => hnamed.isBuilt hstored) he hselector hstored

/-- **Equal procedures behave equally.** Let two procedures other than selectors be what references or names
stand for, in any two states that a fresh engine may come to, all references being spelled by names; one that
the registry itself stores as a constant has to be such a procedure too. If the two are equal as values, then
called with any arguments in any state of an interpreter they give the same result or the same error and
leave the same state. Equality of values is symmetric and transitive, and just the values with a NaN in them
are not equal to themselves. -/
theorem equal_procedures_behave_equally :
    (∀ (e e' : Engine) (a b : Callable), e.IsReachable provider config → e'.IsReachable provider config →
      e.Resolves (.procedure a) → e'.Resolves (.procedure b) →
      a.isSelector = false → b.isSelector = false →
      (provider.registry.Stores a → a.IsBuilt provider.registry config) →
      (provider.registry.Stores b → b.IsBuilt provider.registry config) →
      (Value.procedure a).equal (.procedure b) →
      ∀ (depth : Nat) (args : List Value) (i : Interpreter),
        (Task.perform depth (.apply (.procedure a) args)).runFrom i =
          (Task.perform depth (.apply (.procedure b) args)).runFrom i) ∧
    (∀ v w : Value, v.equal w → w.equal v) ∧
    (∀ u v w : Value, u.equal v → v.equal w → u.equal w) ∧
    ∀ v : Value, v.equal v ↔ v.hasNaN = false := by
  refine ⟨?_, fun v w h => Value.equal_comm v w ▸ h, Value.equal_trans, fun v => ?_⟩
  · intro e e' a b he he' ha hb haselector hbselector hastored hbstored hequal depth args i
    obtain ⟨scope, rfl⟩ := Callable.eq_onScope_of_sameDispatch (ha.isBuilt he haselector hastored)
      (hb.isBuilt he' hbselector hbstored) hequal
    cases depth with
    | zero => rfl
    | succ depth =>
      show (Task.applyValue _ _ _).runFrom i = (Task.applyValue _ _ _).runFrom i
      rw [Callable.applyValue_onScope]
  · rw [Value.equal_self, Bool.not_eq_true']

/-- An inherited overload, resolved on the base and, after a failure of the provider, on the type below: two
tables that differ in their scopes, and are equal. -/
theorem equal_procedures_behave_equally_of_inherited :
    let f (param : Ty) : Member :=
      { key := "f", kind := .method, params := [param], ret := .text, body := .constant .null }
    let provider : Provider := { registry :=
      { hierarchy := ⟨[⟨"Base", []⟩, ⟨"Derived", [.host 0]⟩]⟩, members := [(.host 0, [f .int, f .text])] } }
    let steps : List Step := [.setOutages [true], .get "Derived/f"]
    ∃ results j a b, Step.runAll 1 steps { engine := .new provider {} } = some (results, j) ∧
      (∀ callable, ¬ provider.registry.Stores callable) ∧
      (Engine.new provider {}).Resolves (.procedure a) ∧ j.engine.Resolves (.procedure b) ∧ a ≠ b ∧
      (Value.procedure a).equal (.procedure b) ∧
      ∀ (depth : Nat) (args : List Value) (i : Interpreter),
        (Task.perform depth (.apply (.procedure a) args)).runFrom i =
          (Task.perform depth (.apply (.procedure b) args)).runFrom i := by
  intro f provider steps
  have hbase : (resolvedCallable? ((resolve "Base/f" none).runFrom (.new provider {})).1).any fun a =>
      !a.isSelector && (Step.runAll 1 steps { engine := .new provider {} }).any fun ran =>
        (resolvedCallable? ((resolve "Derived/f" none).runFrom ran.2.engine).1).any fun b =>
          !b.isSelector && a ≠ b && (Value.procedure a).equal (.procedure b) := by
    decide +kernel
  obtain ⟨a, ha, hbase⟩ := (Option.any_eq_true _ _).1 hbase
  obtain ⟨haselector, hran⟩ := Bool.and_eq_true_iff.1 hbase
  obtain ⟨⟨results, j⟩, hrun, hran⟩ := (Option.any_eq_true _ _).1 hran
  obtain ⟨b, hb, hboth⟩ := (Option.any_eq_true _ _).1 hran
  simp only [Bool.and_eq_true, Bool.not_eq_true', decide_eq_true_eq] at haselector hboth
  obtain ⟨⟨hbselector, hne⟩, hequal⟩ := hboth
  have hnone : ∀ callable, ¬ provider.registry.Stores callable := by
    rintro callable ⟨owner, m, hm, hconstant⟩
    exact absurd hconstant (Registry.staticConstant?_ne_some (by decide) hm _)
  have hspelled : ∀ step ∈ steps, ∀ member ∈ step.references, member.IsSpelled :=
    Step.forall_references (by decide)
  have hi : ({ engine := .new provider {} } : Interpreter).engine.IsReachable provider {} := .new
  have hj := (stable_isReachable provider {}).keeps_runAll hspelled hi hrun
  have hra : (Engine.new provider {}).Resolves (.procedure a) := .name _ _ (eq_of_resolvedCallable? ha)
  have hrb : j.engine.Resolves (.procedure b) := .name _ _ (eq_of_resolvedCallable? hb)
  exact ⟨results, j, a, b, hrun, hnone, hra, hrb, hne, hequal,
    equal_procedures_behave_equally.1 _ _ a b .new hj hra hrb haselector hbselector
      (fun h => absurd h (hnone a)) (fun h => absurd h (hnone b)) hequal⟩

end Engine

end Multimethod
