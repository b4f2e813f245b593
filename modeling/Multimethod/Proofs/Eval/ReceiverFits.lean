import Multimethod.Proofs.Eval.ArityPin
import Multimethod.Proofs.Eval.SelectorCall
import Multimethod.Proofs.Lattice.Assignability

/-!
# The receiver always fits

Discovery climbs from a type to the owners of the candidates it finds, cut off on circles and by its depth;
assignability climbs from the type of an argument by a search of its own, which knows no depth but a number
of types. Where the search has enough to spend, it reaches the owner of each candidate that discovery has
brought down, so that an instance member is never kept from a receiver that it was looked up on.

* `Candidate.TakesReceiver` — the first parameter of a candidate is its owner, and the receiver fits it.
* `Candidate.BelongsTo.takesReceiver` — so it is with all that a lookup of instance members finds.
* `Callable.called?_eq_none_of_takesReceiver` — what is not called with such a receiver is called with none.
* `Engine.receiver_always_fits` — a selector call is decided by its other arguments.
-/

namespace Multimethod

/-! ## Candidates -/

namespace Candidate

/-- Is the receiver of a call the first argument that the candidate takes, and does a receiver of type `t`
fit? -/
structure TakesReceiver (h : Hierarchy) (t : Ty) (c : Candidate) : Prop where
  owner_first : c.params.head? = some c.owner
  fits : h.isAssignable t c.owner

variable {r : Registry} {h : Hierarchy} {t : Ty} {key : LookupKey} {c : Candidate}

/-- **A candidate that was found among instance members takes the receiver it was found on,** if no more
types lie above this than a search opens. -/
theorem BelongsTo.takesReceiver (hreg : r.hierarchy.IsRegular)
    (hfew : r.hierarchy.AboveAtMost Hierarchy.searchLimit t) (hc : c.BelongsTo r t key)
    (hinstance : key.origin = .instance) (hunbound : key.bindReceiver = false) :
    c.TakesReceiver r.hierarchy t := by
  have hstatic : c.origin ≠ .static := by
    intro hstatic
    have hadmits := hc.origin
    rw [hinstance, hstatic] at hadmits
    cases hadmits
  have hbound : c.origin ≠ .bound := by
    intro hbound
    have hbind := (hc.receiver hstatic).1 hbound
    rw [hunbound] at hbind
    cases hbind
  have horigin : c.origin = .instance := by
    cases horigin : c.origin with
    | static => exact absurd horigin hstatic
    | bound => exact absurd horigin hbound
    | «instance» => rfl
  obtain ⟨params, hparams⟩ := hc.declared.params_of_instance horigin
  refine ⟨by rw [hparams]; rfl, ?_⟩
  exact Hierarchy.isAssignable_of_standsFor hreg hfew (.upward hc.owner)

/-- A candidate that accepts some arguments accepts them behind any receiver that fits. -/
theorem TakesReceiver.accepts_receiver {types : List Ty} {other : Ty} (hc : c.TakesReceiver h t)
    (haccepts : c.accepts h (other :: types)) : c.accepts h (t :: types) := by
  obtain ⟨params, hparams⟩ : ∃ params, c.params = c.owner :: params := List.head?_eq_some_iff.1 hc.owner_first
  unfold Candidate.accepts fitsPrefix at haccepts ⊢
  rw [hparams] at haccepts ⊢
  simp only [List.length_cons, List.zip_cons_cons, List.all_cons, Bool.and_eq_true] at haccepts ⊢
  obtain ⟨hcount, hlength, _, hothers⟩ := haccepts
  exact ⟨hcount, hlength, hc.fits, hothers⟩

end Candidate

/-! ## Calls -/

/-- **What is not called with a receiver that fits is not called with any receiver.** -/
theorem Callable.called?_eq_none_of_takesReceiver {h : Hierarchy} {name : String} {scope t : Ty}
    {limit lookahead : Nat} {pin : Option Nat} {cs : List Candidate} {callable : Callable} {types : List Ty}
    (hmade : ofCandidates? h name scope limit lookahead pin cs = some callable)
    (hadmitted : ∀ c ∈ cs, c.admittedBy pin) (htakes : ∀ c ∈ cs, c.TakesReceiver h t)
    (hnone : callable.called? h (t :: types) = none) (other : Ty) :
    callable.called? h (other :: types) = none := by
  rw [called?_eq hmade hadmitted, List.length_cons] at hnone ⊢
  split at hnone
  · rename_i hpin
    rw [if_pos hpin]
  · rename_i hpin
    rw [if_neg hpin]
    -- the candidates that serve the call are the same
    rw [List.find?_eq_none] at hnone ⊢
    intro c hc haccepts
    have hmem := mem_of_mem_servingOf (Candidate.mem_sortBySpecificity.1 hc)
    exact hnone c hc ((htakes c hmem).accepts_receiver haccepts)

namespace Engine

open Callable

variable {r : Registry} {config : EngineConfig} {t : Ty} {key : LookupKey}

/-- What a lookup of instance members stands for is a procedure of candidates that take the receiver. -/
theorem IsMerged.takesReceiver {value : Value} (h : IsMerged r config t key (some value))
    (hreg : r.hierarchy.IsRegular) (hfew : r.hierarchy.AboveAtMost Hierarchy.searchLimit t)
    (hinstance : key.origin = .instance) (hunbound : key.bindReceiver = false) :
    ∃ callable cs surface, value = .procedure callable ∧
      ofCandidates? r.hierarchy surface t config.guardChainLimit config.variadicLookahead key.pin cs =
        some callable ∧
      cs ≠ [] ∧ (∀ c ∈ cs, c.admittedBy key.pin) ∧ ∀ c ∈ cs, c.TakesReceiver r.hierarchy t := by
  obtain ⟨lookup, surface, hlookup, hvalue⟩ := h
  cases lookup with
  | found cs =>
    obtain ⟨callable, hmade, rfl⟩ := Option.map_eq_some_iff.1 hvalue.symm
    exact ⟨callable, cs, surface, rfl, hmade, hlookup.1, fun c hc => (hlookup.2.belong c hc).pin,
      fun c hc => (hlookup.2.belong c hc).takesReceiver hreg hfew hinstance hunbound⟩
  | constant v => exact absurd hinstance hlookup
  | notFound => cases hvalue

/-- **The receiver always fits.** On a registry where host types are declared below no type that is closed to
them, with circles or without, and at most 256 types lie above any one, take any state that an engine may
come to after any history. What a member stands for among the instance members of a type is a procedure with
candidates, and of each of these the first parameter is the owner, to which the type is assignable. The call
of a selector is the call of this procedure for the type of the receiver: it runs the member of a candidate,
unless the procedure rejects the other arguments behind any receiver whatever. -/
theorem receiver_always_fits {provider : Provider} {config : EngineConfig} {depth : Nat}
    {steps : List Step} {results : List (Except RuntimeError (Option Value))} {i j : Interpreter}
    (hreg : provider.registry.hierarchy.IsRegular)
    (hfew : ∀ t, provider.registry.hierarchy.AboveAtMost 256 t)
    (hfresh : i.engine = .new provider config)
    (hrun : Step.runAll depth steps i = some (results, j)) {k : Interpreter}
    (hk : j.engine.LeadsTo k.engine) :
    (∀ (t : Ty) (member : MemberName) (value : Value),
      ((resolveMember t member .instance false).runFrom k.engine).1 = .ok (some value) →
        ∃ callable, value = .procedure callable ∧ callable.candidates ≠ [] ∧
          ∀ c ∈ callable.candidates, c.TakesReceiver provider.registry.hierarchy t) ∧
    ∀ (name : String) (member : SelectorMember name) (receiver : Value) (callable : Callable),
      ((resolveMember receiver.ty member.val .instance false).runFrom k.engine).1 =
          .ok (some (.procedure callable)) →
        let k' : Interpreter :=
          { k with engine := ((resolveMember receiver.ty member.val .instance false).runFrom k.engine).2 }
        ∀ (depth : Nat) (args : List Value),
          (Task.perform (depth + 2) (.apply (.procedure (.selector name member)) (receiver :: args))).runFrom k =
            (Task.applyValue (Task.perform depth) (.procedure callable) (receiver :: args)).runFrom k' ∧
          ((∃ c ∈ callable.candidates, callable.Runs (Task.perform depth) (receiver :: args) k' c) ∨
            ∀ other : Value, callable.Rejects (Task.perform depth) (other :: args) k') := by
  have hstable := stable_wellFormed provider.registry config
  have hj := hstable.keeps_runAll (fun _ _ _ _ => trivial) (hfresh ▸ wellFormed_new provider config) hrun
  have hwell := hk.of_stable hstable hj
  have hmade (t : Ty) (member : MemberName) (value : Value)
      (hvalue : ((resolveMember t member .instance false).runFrom k.engine).1 = .ok (some value)) :=
    ((resolveMember_wellFormed t member .instance false _ hwell).1 _ hvalue).takesReceiver hreg (hfew t) rfl rfl
  refine ⟨fun t member value hvalue => ?_, fun name member receiver callable hcallable => ?_⟩
  · obtain ⟨callable, cs, surface, rfl, hmade, hne, _, htakes⟩ := hmade t member value hvalue
    have hperm := candidates_perm_of_ofCandidates? hmade
    refine ⟨callable, rfl, fun hnil => hne ?_, fun c hc => htakes c (hperm.mem_iff.1 hc)⟩
    rw [hnil] at hperm
    exact hperm.symm.eq_nil
  · intro k' depth args
    obtain ⟨_, cs, surface, hprocedure, hmade, _, hadmitted, htakes⟩ := hmade _ _ _ hcallable
    cases hprocedure
    have hselector := isSelector_eq_false_of_ofCandidates? hmade
    have hhierarchy : k'.engine.hierarchy = provider.registry.hierarchy :=
      (resolveMember_wellFormed receiver.ty member.val .instance false _ hwell).2.hierarchy_eq
    constructor
    · have hcall := Task.runFrom_callSelector (Task.perform (depth + 1)) member receiver args k
      dsimp only at hcall
      rw [hcallable] at hcall
      exact hcall
    · cases hcalled : callable.called? k'.engine.hierarchy ((receiver :: args).map Value.ty) with
      | some c =>
        have hmem := (serves_of_called? hmade (hhierarchy ▸ hcalled)).mem
        exact .inl ⟨c, (candidates_perm_of_ofCandidates? hmade).mem_iff.2 hmem,
          runs_of_called? _ _ hselector hcalled⟩
      | none =>
        rw [hhierarchy] at hcalled
        refine .inr fun other => rejects_of_called? _ _ hselector ?_
        rw [hhierarchy]
        exact called?_eq_none_of_takesReceiver hmade hadmitted htakes hcalled other.ty

/-- Two types that are above each other and one below them. After a failure of the provider, methods of all
three are found for a receiver of the lowest type. -/
theorem receiver_always_fits_of_circle :
    let f (param : Ty) : Member :=
      { key := "f", kind := .method, params := [param], ret := .text, isStatic := false, body := .constant .null }
    let provider : Provider := { registry :=
      { hierarchy := ⟨[⟨"Left", [.host 1]⟩, ⟨"Right", [.host 0, .number]⟩, ⟨"Bottom", [.host 0]⟩]⟩
        members := [(.host 0, [f .int]), (.host 1, [f .int]), (.host 2, [f .text])] } }
    let receiver : Value := .host { ty := 2, typeName := "Bottom", label := .given "b" }
    let member : MemberName := { surface := "f", key := "f", kind := .method, pin := none }
    let steps : List Step := [.setOutages [false, true], .resolveMember (.host 2) member .instance false]
    ∃ (hselector : Name.classify ".f" = .selector member)
      (results : List (Except RuntimeError (Option Value))) (k : Interpreter) (callable : Callable),
      provider.registry.hierarchy.IsRegular ∧ (∀ t, provider.registry.hierarchy.AboveAtMost 256 t) ∧
      Step.runAll 1 steps { engine := .new provider {} } = some (results, k) ∧
      ((resolveMember (.host 2) member .instance false).runFrom k.engine).1 =
        .ok (some (.procedure callable)) ∧
      callable.candidates.length = 3 ∧
      (∀ c ∈ callable.candidates, c.TakesReceiver provider.registry.hierarchy (.host 2)) ∧
      let k' : Interpreter :=
        { k with engine := ((resolveMember (.host 2) member .instance false).runFrom k.engine).2 }
      ∀ (depth : Nat) (args : List Value),
        (Task.perform (depth + 2) (.apply (.procedure (.selector ".f" ⟨member, hselector⟩))
          (receiver :: args))).runFrom k =
          (Task.applyValue (Task.perform depth) (.procedure callable) (receiver :: args)).runFrom k' ∧
        ((∃ c ∈ callable.candidates, callable.Runs (Task.perform depth) (receiver :: args) k' c) ∨
          ∀ other : Value, callable.Rejects (Task.perform depth) (other :: args) k') := by
  intro f provider receiver member steps
  have hselector : Name.classify ".f" = .selector member := by decide +kernel
  have hreg : provider.registry.hierarchy.IsRegular := by decide
  have hfew : ∀ t, provider.registry.hierarchy.AboveAtMost 256 t := fun _ =>
    Hierarchy.aboveAtMost_of_length (by decide)
  have hfound : (Step.runAll 1 steps { engine := .new provider {} }).any fun ran =>
      (resolvedCallable? ((resolveMember (.host 2) member .instance false).runFrom ran.2.engine).1).any
        fun callable => callable.candidates.length = 3 := by
    decide +kernel
  obtain ⟨⟨results, k⟩, hrun, hcallable⟩ := (Option.any_eq_true _ _).1 hfound
  obtain ⟨callable, hcallable, hlength⟩ := (Option.any_eq_true _ _).1 hcallable
  have hresolved := eq_of_resolvedCallable? hcallable
  have hfresh : ({ engine := .new provider {} } : Interpreter).engine = .new provider {} := rfl
  obtain ⟨hmembers, hcalls⟩ := receiver_always_fits hreg hfew hfresh hrun .refl
  obtain ⟨_, hprocedure, _, htakes⟩ := hmembers _ _ _ hresolved
  cases hprocedure
  exact ⟨hselector, results, k, callable, hreg, hfew, hrun, hresolved, of_decide_eq_true hlength, htakes,
    hcalls ".f" ⟨member, hselector⟩ receiver callable hresolved⟩

end Engine

end Multimethod
