import Multimethod.Proofs.Engine.Commute
import Multimethod.Proofs.Engine.PinnedLookup
import Multimethod.Proofs.Eval.MoreSpecific

/-!
# Arity pins only restrict

A reference that is pinned to a number of arguments stands for what the same reference without the pin
calls with so many, and takes no other number: `Engine.arity_pins_restrict`. The two are looked up, kept
and built apart from each other, the one perhaps as a single candidate and the other as a table.

* `Callable.called?_eq` — a callable calls the first candidate that accepts the arguments, of those that
  serve as many.
* `Callable.called?_pinned` — the pinned callable calls what the other one calls.
* `Callable.Runs`, `Callable.Rejects` — what a call comes to.
-/

namespace Multimethod

theorem Candidate.runMember_pinnedTo (recur : Task → EvalM Value) (n : Nat) (c : Candidate)
    (args : List Value) : Task.runMember recur (c.pinnedTo n) args = Task.runMember recur c args := rfl

namespace Callable

variable {h : Hierarchy} {name : String} {scope : Ty} {limit lookahead : Nat} {pin : Option Nat}
  {cs : List Candidate} {callable : Callable} {types : List Ty}

/-- A candidate that is alone is called if it accepts the arguments. -/
theorem filter_accepts_eq_find? (c : Candidate) (types : List Ty) :
    (some c).filter (·.accepts h types) =
      (Candidate.sortBySpecificity h (servingOf [c] types.length)).find? (·.accepts h types) := by
  by_cases haccepts : c.accepts h types
  · rw [Option.filter_some, if_pos haccepts, servingOf_singleton haccepts]
    simp [Candidate.sortBySpecificity, Candidate.insertOrdered, haccepts]
  · rw [Option.filter_some, if_neg haccepts]
    refine (List.find?_eq_none.2 fun d hd => ?_).symm
    rw [List.mem_singleton.1 (mem_of_mem_servingOf (Candidate.mem_sortBySpecificity.1 hd))]
    exact haccepts

/-- A pinned candidate that is called directly takes the pinned number of arguments only. -/
theorem filter_accepts_eq_none {c : Candidate} (hmade : ofCandidates? h name scope limit lookahead pin [c] =
    some (.direct c)) (hadmitted : c.admittedBy pin) (hpin : pin.any (· ≠ types.length)) :
    (some c).filter (·.accepts h types) = none := by
  cases pin with
  | none => cases hpin
  | some n =>
    have hne : n ≠ types.length := of_decide_eq_true hpin
    cases hvariadic : c.isVariadic with
    | true =>
      rw [ofCandidates?, hvariadic] at hmade
      cases hmade
    | false =>
      have harity : c.arity = n := by
        unfold Candidate.admittedBy at hadmitted
        simpa [hvariadic] using hadmitted
      have hnot : ¬ c.accepts h types := by
        unfold Candidate.accepts
        simp [hvariadic, harity, hne.symm]
      rw [Option.filter_some, if_neg hnot]

/-- **A callable calls the first candidate that accepts the arguments,** of those that serve as many, in
the order of trial. Under a pin it takes no other number of arguments. -/
theorem called?_eq (hmade : ofCandidates? h name scope limit lookahead pin cs = some callable)
    (hadmitted : ∀ c ∈ cs, c.admittedBy pin) (types : List Ty) :
    callable.called? h types =
      if pin.any (· ≠ types.length) then none
      else (Candidate.sortBySpecificity h (servingOf cs types.length)).find? (·.accepts h types) := by
  obtain ⟨c, rfl, rfl⟩ | ⟨first, others, rfl, rfl⟩ := ofCandidates?_cases hmade
  · show (some c).filter (·.accepts h types) = _
    split
    · rename_i hpin
      exact filter_accepts_eq_none hmade (hadmitted c (List.mem_singleton_self c)) hpin
    · exact filter_accepts_eq_find? c types
  · have hrule : _ = arityRule h limit pin (first :: others) types.length :=
      (DispatchTable.holds_ofCandidates name scope lookahead pin first
        others).overloadFor?_eq_arityRule types.length
    show ((DispatchTable.overloadFor? _ _).bind _).filter _ = _
    rw [hrule, arityRule_eq]
    split
    · rfl
    cases hoverload : Overload.ofCandidates? h limit (servingOf (first :: others) types.length) with
    | none =>
      rw [Overload.ofCandidates?_eq_none_iff.1 hoverload]
      rfl
    | some overload =>
      obtain ⟨arity, variadic, hshape⟩ := exists_shape_of_servingOf (first :: others) types.length
      exact Overload.filter_select hoverload hshape types

/-- **The pinned callable calls what the other one calls,** with as many arguments as it is pinned to, and
it calls nothing with another number of them. -/
theorem called?_pinned {n : Nat} {free pinned : Callable} {name' : String} {scope' : Ty}
    {limit' lookahead' : Nat} (hfree : ofCandidates? h name scope limit lookahead none cs = some free)
    (hpinned : ofCandidates? h name' scope' limit' lookahead' (some n) (Candidate.pinAll n cs) = some pinned)
    (types : List Ty) :
    pinned.called? h types =
      if types.length = n then (free.called? h types).map (Candidate.pinnedTo n) else none := by
  rw [called?_eq hpinned (fun _ => Candidate.mem_pinAll) types, called?_eq hfree (fun _ _ => rfl) types]
  by_cases hlength : types.length = n
  · subst hlength
    rw [if_neg (by simp), if_pos rfl, if_neg (by simp), servingOf_pinAll,
      Candidate.sortBySpecificity_pinnedTo, List.find?_map]
    rfl
  · rw [if_neg hlength, if_pos]
    simpa using Ne.symm hlength

/-! ### Calls -/

section

variable (recur : Task → EvalM Value) (callable : Callable) (args : List Value) (k : Interpreter)

/-- Called with these arguments, the callable runs the member of `c` on them. Before that it reports no
more than the selection. -/
def Runs (c : Candidate) : Prop :=
  ∃ events, (Task.applyValue recur (.procedure callable) args).runFrom k =
    (Task.runMember recur c args).runFrom (k.reporting events)

/-- Called with these arguments, the callable rejects them and runs nothing. -/
def Rejects : Prop :=
  ∃ events name, (Task.applyValue recur (.procedure callable) args).runFrom k =
    some (.error (Task.rejection name args), k.reporting events)

variable {callable} {k}

theorem runs_of_called? (hselector : callable.isSelector = false) {c : Candidate}
    (hcalled : callable.called? k.engine.hierarchy (args.map Value.ty) = some c) :
    callable.Runs recur args k c := by
  obtain ⟨events, name, hruns⟩ := Task.runFrom_applyValue recur hselector args k
  rw [hcalled] at hruns
  exact ⟨events, hruns⟩

theorem runs_pinnedTo {n : Nat} {c : Candidate} :
    callable.Runs recur args k (c.pinnedTo n) ↔ callable.Runs recur args k c := by
  unfold Runs
  rw [Candidate.runMember_pinnedTo]

theorem rejects_of_called? (hselector : callable.isSelector = false)
    (hcalled : callable.called? k.engine.hierarchy (args.map Value.ty) = none) :
    callable.Rejects recur args k := by
  obtain ⟨events, name, hruns⟩ := Task.runFrom_applyValue recur hselector args k
  rw [hcalled] at hruns
  exact ⟨events, name, hruns⟩

end

end Callable

def Reference.pinnedTo (n : Nat) (ref : Reference) : Reference :=
  { ref with member := { ref.member with pin := some n } }

namespace Engine

open Callable

variable {provider : Provider} {config : EngineConfig}

theorem isAnswer_of_runAll {depth : Nat} {steps : List Step}
    {results : List (Except RuntimeError (Option Value))} {i j : Interpreter} {ref : Reference}
    {value : Option Value} (hpaths : provider.registry.hierarchy.PathsWithin 64)
    (hfresh : i.engine = .new provider config) (hrun : Step.runAll depth steps i = some (results, j))
    (hresolved : (ref.resolve.runFrom j.engine).1 = .ok value) :
    IsAnswer provider.registry hpaths.wellFounded config (fun _ => True) ref.on ref.key (.ok value) := by
  have hkeeps : DispatchM.Keeps (Faithful provider.registry hpaths.wellFounded config fun _ => True)
      ref.resolve fun result =>
        IsAnswer provider.registry hpaths.wellFounded config (fun _ => True) ref.on ref.key result ∨
          ∃ err, err.IsListing ∧ result = .error err :=
    resolveMember_keeps trivial (hpaths.within ref.on) ref.origin ref.bindReceiver
  have hanswer := (hkeeps j.engine (faithful_of_runAll hpaths hfresh hrun)).1
  rw [hresolved] at hanswer
  exact hanswer.resolve_right fun ⟨_, _, herr⟩ => by cases herr

/-- **Arity pins only restrict.** After any two histories of fresh engines, on a registry whose paths of
supertypes have at most 64 steps, let a reference without a pin and the same reference with a pin to `n`
resolve to procedures, neither of them a declared constant. Called with `n` arguments both run the member
of the same candidate or both reject the arguments. With any other number of arguments the pinned one
rejects them. -/
theorem arity_pins_restrict {provider : Provider} {config : EngineConfig} {depth depth' : Nat}
    {steps steps' : List Step} {results results' : List (Except RuntimeError (Option Value))}
    {i j i' j' : Interpreter} {ref : Reference} {n : Nat} {free pinned : Callable}
    (hpaths : provider.registry.hierarchy.PathsWithin 64)
    (hfresh : i.engine = .new provider config)
    (hrun : Step.runAll depth steps i = some (results, j))
    (hfresh' : i'.engine = .new provider config)
    (hrun' : Step.runAll depth' steps' i' = some (results', j'))
    (hunpinned : ref.member.pin = none)
    (hfree : (ref.resolve.runFrom j.engine).1 = .ok (some (.procedure free)))
    (hpinned : ((ref.pinnedTo n).resolve.runFrom j'.engine).1 = .ok (some (.procedure pinned)))
    (hfound : ∀ value, provider.registry.lookUp ref.key hpaths.wellFounded ref.on ≠
      .ok (.constant value))
    (hfound' : ∀ value, provider.registry.lookUp (ref.pinnedTo n).key hpaths.wellFounded ref.on ≠
      .ok (.constant value))
    (recur : Task → EvalM Value) (args : List Value) (k : Interpreter)
    (hk : k.engine.hierarchy = provider.registry.hierarchy) :
    (args.length = n →
      (∃ c ∈ free.candidates, c.accepts k.engine.hierarchy (args.map Value.ty) ∧
        free.Runs recur args k c ∧ pinned.Runs recur args k c) ∨
      (free.Rejects recur args k ∧ pinned.Rejects recur args k)) ∧
    (args.length ≠ n → pinned.Rejects recur args k) := by
  obtain ⟨cs, surface, hlookup, hmade⟩ :=
    found_of_isAnswer hfound (isAnswer_of_runAll hpaths hfresh hrun hfree)
  obtain ⟨cs', surface', hlookup', hmade'⟩ :=
    found_of_isAnswer hfound' (isAnswer_of_runAll hpaths hfresh' hrun' hpinned)
  obtain rfl : cs' = Candidate.pinAll n cs :=
    Registry.candidates_of_lookUp_pinned hpaths.wellFounded hunpinned hlookup hlookup'
  have hselector := isSelector_eq_false_of_ofCandidates? hmade
  have hselector' := isSelector_eq_false_of_ofCandidates? hmade'
  have hunpinned : ref.key.pin = none := hunpinned
  rw [hunpinned] at hmade
  have hcalled' := called?_pinned hmade hmade' (args.map Value.ty)
  rw [← hk, List.length_map] at hcalled'
  refine ⟨fun hlength => ?_, fun hlength => ?_⟩
  · rw [if_pos hlength] at hcalled'
    cases hcalled : free.called? k.engine.hierarchy (args.map Value.ty) with
    | some c =>
      rw [hcalled] at hcalled'
      have hserves := serves_of_called? hmade (hk ▸ hcalled)
      exact .inl ⟨c, (candidates_perm_of_ofCandidates? hmade).mem_iff.2 hserves.mem, hk ▸ hserves.accepts,
        runs_of_called? recur args hselector hcalled,
        (runs_pinnedTo recur args).1 (runs_of_called? recur args hselector' hcalled')⟩
    | none =>
      rw [hcalled] at hcalled'
      exact .inr ⟨rejects_of_called? recur args hselector hcalled,
        rejects_of_called? recur args hselector' hcalled'⟩
  · rw [if_neg hlength] at hcalled'
    exact rejects_of_called? recur args hselector' hcalled'

/-- Of a function of the base and two of the derived type, the pin leaves one. The pinned reference is
resolved after a failure of the provider and on another engine. -/
theorem arity_pins_restrict_of_overloads :
    let f (params : List Ty) : Member :=
      { key := "f", kind := .method, params, ret := .text, isStatic := true, body := .constant .null }
    let provider : Provider := { registry :=
      { hierarchy := ⟨[⟨"Base", []⟩, ⟨"Derived", [.host 0]⟩]⟩
        members := [(.host 0, [f [.int]]), (.host 1, [f [.int, .text], f [.text]])] } }
    let ref : Reference :=
      { on := .host 1, member := { surface := "f", key := "f", kind := .method, pin := none } }
    let steps : List Step := [.resolveMember (.host 0) ref.member .any false]
    let steps' : List Step := [.setOutages [false, true],
      .resolveMember (.host 1) (ref.pinnedTo 2).member .any false]
    ∃ (hpaths : provider.registry.hierarchy.PathsWithin 64)
      (results results' : List (Except RuntimeError (Option Value))) (j j' : Interpreter)
      (free pinned : Callable),
      Step.runAll 1 steps { engine := .new provider {} } = some (results, j) ∧
      Step.runAll 1 steps' { engine := .new provider {} } = some (results', j') ∧
      (ref.resolve.runFrom j.engine).1 = .ok (some (.procedure free)) ∧
      ((ref.pinnedTo 2).resolve.runFrom j'.engine).1 = .ok (some (.procedure pinned)) ∧
      (∀ value, provider.registry.lookUp ref.key hpaths.wellFounded ref.on ≠ .ok (.constant value)) ∧
      (∀ value, provider.registry.lookUp (ref.pinnedTo 2).key hpaths.wellFounded ref.on ≠
        .ok (.constant value)) ∧
      ∀ (recur : Task → EvalM Value) (args : List Value) (k : Interpreter),
        k.engine.hierarchy = provider.registry.hierarchy →
        (args.length = 2 →
          (∃ c ∈ free.candidates, c.accepts k.engine.hierarchy (args.map Value.ty) ∧
            free.Runs recur args k c ∧ pinned.Runs recur args k c) ∨
          (free.Rejects recur args k ∧ pinned.Rejects recur args k)) ∧
        (args.length ≠ 2 → pinned.Rejects recur args k) := by
  intro f provider ref steps steps'
  have hpaths : provider.registry.hierarchy.PathsWithin 64 :=
    (Hierarchy.pathsWithin_of_precedes (by decide)).mono (by decide)
  have hfree : (Step.runAll 1 steps { engine := .new provider {} }).any fun ran =>
      (resolvedCallable? (ref.resolve.runFrom ran.2.engine).1).isSome := by
    decide +kernel
  have hpinned : (Step.runAll 1 steps' { engine := .new provider {} }).any fun ran =>
      (resolvedCallable? ((ref.pinnedTo 2).resolve.runFrom ran.2.engine).1).isSome := by
    decide +kernel
  obtain ⟨⟨results, j⟩, hrun, hfree⟩ := (Option.any_eq_true _ _).1 hfree
  obtain ⟨⟨results', j'⟩, hrun', hpinned⟩ := (Option.any_eq_true _ _).1 hpinned
  obtain ⟨free, hfree⟩ := Option.isSome_iff_exists.1 hfree
  obtain ⟨pinned, hpinned⟩ := Option.isSome_iff_exists.1 hpinned
  have hfree := eq_of_resolvedCallable? hfree
  have hpinned := eq_of_resolvedCallable? hpinned
  have hfound (key : LookupKey) (value : Value) :
      provider.registry.lookUp key hpaths.wellFounded ref.on ≠ .ok (.constant value) := by
    intro hconstant
    obtain ⟨owner, m, hm, hconstant⟩ := Registry.isDeclared_of_lookUp hpaths.wellFounded hconstant
    exact absurd hconstant (Registry.staticConstant?_ne_some (by decide) hm _)
  have hfresh : ({ engine := .new provider {} } : Interpreter).engine = .new provider {} := rfl
  exact ⟨hpaths, results, results', j, j', free, pinned, hrun, hrun', hfree, hpinned, hfound _, hfound _,
    arity_pins_restrict hpaths hfresh hrun hfresh hrun' rfl hfree hpinned (hfound _) (hfound _)⟩

end Engine

end Multimethod
