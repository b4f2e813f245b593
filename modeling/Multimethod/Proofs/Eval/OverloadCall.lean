import Multimethod.Proofs.Dispatch.GuardChain
import Multimethod.Proofs.Eval.Run

/-!
# Calls through an overload

An overload selects a candidate and the candidate tests the arguments once more before its member
runs. Together they are a plain scan: `Overload.calls_first_accepting` says that the member that runs
is that of the first candidate, in the order of trial, that accepts the arguments, and that the call
is rejected exactly when there is none.
-/

namespace Multimethod

variable {h : Hierarchy}

namespace Task

variable (recur : Task → EvalM Value)

/-- Calls the candidate that an overload selects, on behalf of the procedure `name`. -/
def callOverload (h : Hierarchy) (name : String) (overload : Overload) (args : List Value) :
    EvalM Value :=
  match overload.select h (args.map Value.ty) with
  | some c => callCandidate recur c args
  | none => throw (rejection name args)

/-- Who rejects a call that no candidate accepts: the candidate that was selected all the same, or
else the procedure. -/
def rejecter (h : Hierarchy) (name : String) (overload : Overload) (args : List Value) : String :=
  ((overload.select h (args.map Value.ty)).map (·.name)).getD name

theorem callCandidate_of_accepts {i : Interpreter} {c : Candidate} {args : List Value}
    (hacc : c.accepts i.engine.hierarchy (args.map Value.ty)) :
    (callCandidate recur c args).runFrom i = (runMember recur c args).runFrom i := by
  unfold callCandidate
  rw [EvalM.runFrom_hierarchy_bind, if_pos hacc]

theorem callCandidate_of_not_accepts {i : Interpreter} {c : Candidate} {args : List Value}
    (hacc : ¬ c.accepts i.engine.hierarchy (args.map Value.ty)) :
    (callCandidate recur c args).runFrom i = some (.error (rejection c.name args), i) := by
  unfold callCandidate
  rw [EvalM.runFrom_hierarchy_bind, if_neg hacc, EvalM.runFrom_throw]

end Task

namespace Overload

/-- The overload calls the first of these candidates that accepts the arguments. -/
structure Scans (h : Hierarchy) (overload : Overload) (cs : List Candidate) (args : List Value) :
    Prop where
  /-- A selected candidate that accepts the arguments is the first that does. -/
  selected : ∀ c, overload.select h (args.map Value.ty) = some c →
    c.accepts h (args.map Value.ty) → cs.find? (·.accepts h (args.map Value.ty)) = some c
  /-- If none is selected, or one that does not accept the arguments, then none accepts them. -/
  rejected : (∀ c, overload.select h (args.map Value.ty) = some c →
    ¬ c.accepts h (args.map Value.ty)) → ∀ c ∈ cs, ¬ c.accepts h (args.map Value.ty)
  /-- A call runs the member of the first candidate that accepts the arguments, and it is rejected
  without running anything if there is none. -/
  runs : ∀ (recur : Task → EvalM Value) (name : String) (i : Interpreter), i.engine.hierarchy = h →
    (Task.callOverload recur h name overload args).runFrom i =
      match cs.find? (·.accepts h (args.map Value.ty)) with
      | some c => (Task.runMember recur c args).runFrom i
      | none => some (.error (Task.rejection (Task.rejecter h name overload args) args), i)

variable {n limit : Nat} {variadic : Bool} {cs : List Candidate}

theorem scans_of_ofCandidates? {overload : Overload}
    (hov : ofCandidates? h limit cs = some overload)
    (hshape : ∀ c ∈ cs, c.arity = n ∧ c.isVariadic = variadic) (args : List Value) :
    Scans h overload (Candidate.sortBySpecificity h cs) args := by
  have hfirst := filter_select hov hshape (args.map Value.ty)
  refine ⟨?_, ?_, ?_⟩
  · intro c hsel hacc
    rw [← hfirst, hsel, Option.filter_some, if_pos hacc]
  · intro hnone
    apply List.find?_eq_none.1
    rw [← hfirst, Option.filter_eq_none_iff]
    exact hnone
  · intro recur name i hi
    subst hi
    rw [← hfirst]
    unfold Task.callOverload Task.rejecter
    cases overload.select i.engine.hierarchy (args.map Value.ty) with
    | none => rfl
    | some c =>
      by_cases hacc : c.accepts i.engine.hierarchy (args.map Value.ty)
      · rw [Option.filter_some, if_pos hacc]
        exact Task.callCandidate_of_accepts recur hacc
      · rw [Option.filter_some, if_neg hacc]
        exact Task.callCandidate_of_not_accepts recur hacc

/-- **Guards are a saving only.** Of any candidates of one arity, all variadic or none, and with any
limit on guards, there is an overload, and it calls the first candidate in the order of trial that
accepts the arguments. -/
theorem calls_first_accepting (hne : cs ≠ [])
    (hshape : ∀ c ∈ cs, c.arity = n ∧ c.isVariadic = variadic) :
    ∃ overload, ofCandidates? h limit cs = some overload ∧
      Candidate.IsTrialOrder h cs (Candidate.sortBySpecificity h cs) ∧
      ∀ args, Scans h overload (Candidate.sortBySpecificity h cs) args := by
  obtain ⟨overload, hov⟩ := ofCandidates?_isSome h limit hne
  exact ⟨overload, hov, Candidate.isTrialOrder_sortBySpecificity cs,
    scans_of_ofCandidates? hov hshape⟩

/-- Two candidates that differ at the first position only, so that no arm tests the second. -/
theorem calls_first_accepting_of_pairs :
    let pair (first : Ty) : Candidate :=
      { owner := .host 0, index := 0, lookup := ⟨"pair", .method, .static, false, none⟩,
        key := "pair", kind := .method, origin := .static, params := [first, .text], ret := .text,
        isVariadic := false }
    let cs := [pair .double, pair .int]
    cs ≠ [] ∧ (∀ c ∈ cs, c.arity = 2 ∧ c.isVariadic = false) ∧
      ∃ overload, ofCandidates? {} 4 cs = some overload ∧
        Candidate.IsTrialOrder {} cs (Candidate.sortBySpecificity {} cs) ∧
        ∀ args, Scans {} overload (Candidate.sortBySpecificity {} cs) args :=
  ⟨by decide, by decide, @calls_first_accepting {} 2 4 false _ (by decide) (by decide)⟩

end Overload

end Multimethod
