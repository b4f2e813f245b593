import Multimethod.Proofs.Engine.Entries
import Multimethod.Proofs.Eval.History

/-!
# Entries stay well formed

In every state that a fresh engine may come to, in the middle of an evaluation or after it, all that is
kept under a lookup fits that lookup: `Engine.entries_wellFormed`. No lookup of instance members has a
constant for its answer, so what a selector finds is a procedure.

* `Engine.LeadsTo` — the states that an engine may come to.
* `Engine.LeadsTo.of_stable` — what all operations keep holds in each of them.
-/

namespace Multimethod

/-! ## States -/

/-- The engine may come to the other by reports, imports, failures of the provider and resolutions, which
may fail. -/
inductive Engine.LeadsTo (e : Engine) : Engine → Prop
  | refl : e.LeadsTo e
  | report {f : Engine} (event : Event) : e.LeadsTo f → e.LeadsTo (f.report event)
  | withImports {f : Engine} (imports : List Import) : e.LeadsTo f → e.LeadsTo { f with imports }
  | withOutages {f : Engine} (outages : List Bool) :
    e.LeadsTo f → e.LeadsTo { f with provider := { f.provider with outages } }
  | resolveMember {f : Engine} (t : Ty) (member : MemberName) (origin : OriginFilter)
    (bindReceiver : Bool) :
    e.LeadsTo f → e.LeadsTo ((Engine.resolveMember t member origin bindReceiver).runFrom f).2

namespace Engine

theorem stable_leadsTo (e : Engine) : Stable (fun _ => True) e.LeadsTo where
  spelled _ := trivial
  report event h := h.report event
  withImports imports h := h.withImports imports
  withOutages outages h := h.withOutages outages
  resolveMember t member origin bindReceiver _ h := h.resolveMember t member origin bindReceiver

/-- **What all operations keep holds in every state that the engine may come to.** -/
theorem LeadsTo.of_stable {P : Engine → Prop} (hP : Stable (fun _ => True) P) {e f : Engine} (he : P e)
    (h : e.LeadsTo f) : P f := by
  induction h with
  | refl => exact he
  | report event _ ih => exact hP.report event ih
  | withImports imports _ ih => exact hP.withImports imports ih
  | withOutages outages _ ih => exact hP.withOutages outages ih
  | resolveMember t member origin bindReceiver _ ih =>
    exact hP.resolveMember t origin bindReceiver trivial ih

theorem stable_wellFormed (r : Registry) (config : EngineConfig) :
    Stable (fun _ => True) (WellFormed r config) where
  spelled _ := trivial
  report _ he := he.congr rfl rfl rfl
  withImports _ he := he.congr rfl rfl rfl
  withOutages _ he := he.congr rfl rfl rfl
  resolveMember t member origin bindReceiver _ he :=
    (resolveMember_wellFormed t member origin bindReceiver _ he).2

end Engine

/-! ## Values -/

theorem Candidate.sameSignature_symm {c d : Candidate} (h : c.sameSignature d) : d.sameSignature c := by
  obtain ⟨hvariadic, hparams⟩ := sameSignature_iff.1 h
  exact sameSignature_iff.2 ⟨hvariadic.symm, hparams.symm⟩

variable {r : Registry} {config : EngineConfig} {t : Ty} {key : LookupKey}

theorem Candidate.AreWellFormed.perm {cs ds : List Candidate} (hcs : AreWellFormed r t key cs)
    (hperm : ds.Perm cs) : AreWellFormed r t key ds where
  belong c hc := hcs.belong c (hperm.mem_iff.1 hc)
  distinct := (hperm.pairwise_iff fun hne hsame => hne (sameSignature_symm hsame)).2 hcs.distinct

theorem Callable.exists_ofCandidates? {h : Hierarchy} {cs : List Candidate} (hne : cs ≠ [])
    (name : String) (scope : Ty) (limit lookahead : Nat) (pin : Option Nat) :
    ∃ callable, ofCandidates? h name scope limit lookahead pin cs = some callable := by
  match cs with
  | [] => exact absurd rfl hne
  | [c] =>
    rw [ofCandidates?]
    split
    · exact ⟨_, rfl⟩
    · exact ⟨_, rfl⟩
  | first :: second :: others => exact ⟨_, rfl⟩

/-- What a value owes to the answer of the lookup that it is made of: candidates make a procedure that
holds them all, and a constant is itself the value. -/
def Lookup.MakesUp (r : Registry) (t : Ty) (key : LookupKey) (value : Option Value) : Lookup → Prop
  | .found cs => ∃ callable, value = some (.procedure callable) ∧ callable.candidates.Perm cs ∧
    Candidate.AreWellFormed r t key callable.candidates
  | .constant v => value = some v ∧ key.origin ≠ .instance
  | .notFound => value = none

theorem Lookup.WellFormed.makesUp {lookup : Lookup} (hlookup : lookup.WellFormed r t key)
    (config : EngineConfig) (surface : String) :
    lookup.MakesUp r t key (lookup.value? r.hierarchy config surface t key.pin) := by
  cases lookup with
  | found cs =>
    obtain ⟨callable, hcallable⟩ := Callable.exists_ofCandidates? (h := r.hierarchy) hlookup.1 surface t
      config.guardChainLimit config.variadicLookahead key.pin
    have hperm := Callable.candidates_perm_of_ofCandidates? hcallable
    exact ⟨callable, by rw [value?, hcallable]; rfl, hperm, hlookup.2.perm hperm⟩
  | constant value => exact ⟨rfl, hlookup⟩
  | notFound => rfl

namespace Engine

theorem IsMerged.exists_procedure {value : Value} (h : IsMerged r config t key (some value))
    (horigin : key.origin = .instance) : ∃ callable, value = .procedure callable := by
  obtain ⟨lookup, surface, hlookup, hvalue⟩ := h
  have hmade := hlookup.makesUp config surface
  rw [← hvalue] at hmade
  cases lookup with
  | found cs =>
    obtain ⟨callable, hprocedure, _⟩ := hmade
    exact ⟨callable, Option.some.inj hprocedure⟩
  | constant v => exact absurd horigin hmade.2
  | notFound => cases hmade

/-- **Entries stay well formed.** In every state after a history of a fresh engine on any registry, and
in every state that may follow, each answer that is kept under a lookup on a type is well formed for
them, and each value that is kept is made of the answer kept under the same lookup. What a lookup of
instance members resolves to is a procedure, if anything. -/
theorem entries_wellFormed {provider : Provider} {config : EngineConfig} {depth : Nat}
    {steps : List Step} {results : List (Except RuntimeError (Option Value))} {i j : Interpreter}
    (hfresh : i.engine = .new provider config)
    (hrun : Step.runAll depth steps i = some (results, j)) {e : Engine} (he : j.engine.LeadsTo e) :
    (∀ t key lookup, e.lookedUp? t key = some lookup → lookup.WellFormed provider.registry t key) ∧
    (∀ t key value, e.resolved? t key = some value →
      ∃ lookup, e.lookedUp? t key = some lookup ∧ lookup.MakesUp provider.registry t key value) ∧
    ∀ t member bindReceiver value,
      ((resolveMember t member .instance bindReceiver).runFrom e).1 = .ok (some value) →
        ∃ callable, value = .procedure callable := by
  have hstable := stable_wellFormed provider.registry config
  have hj := hstable.keeps_runAll (fun _ _ _ _ => trivial) (hfresh ▸ wellFormed_new provider config) hrun
  have hwell := he.of_stable hstable hj
  refine ⟨fun t key lookup hlookup => hwell.lookup hlookup, fun t key value hvalue => ?_, ?_⟩
  · obtain ⟨lookup, surface, hlookup, rfl⟩ := hwell.value hvalue
    exact ⟨lookup, hlookup, (hwell.lookup hlookup).makesUp config surface⟩
  · intro t member bindReceiver value hvalue
    have hmerged := (resolveMember_wellFormed t member .instance bindReceiver e hwell).1 _ hvalue
    exact hmerged.exists_procedure rfl

/-- A type below two that are above each other. A failure of the provider ends the first resolution, and
the next one gathers candidates of all three, with a receiver that the caller passes. -/
theorem entries_wellFormed_of_circle :
    let f (param : Ty) (isStatic : Bool) : Member :=
      { key := "f", kind := .method, params := [param], ret := .text, isStatic, body := .constant .null }
    let provider : Provider := { registry :=
      { hierarchy := ⟨[⟨"Left", [.host 1]⟩, ⟨"Right", [.host 0]⟩, ⟨"Bottom", [.host 0]⟩]⟩
        members := [(.host 0, [f .int true, f .text false]), (.host 1, [f .int false]),
          (.host 2, [f .int false])] } }
    let member : MemberName := { surface := "f", key := "f", kind := .method, pin := none }
    let key : LookupKey := member.lookup .instance false
    let steps : List Step := [.setOutages [false, true], .resolveMember (.host 2) member .instance false]
    ∃ results j, Step.runAll 1 steps { engine := .new provider {} } = some (results, j) ∧
      let e := ((resolveMember (.host 2) member .instance false).runFrom j.engine).2
      j.engine.LeadsTo e ∧ ∃ cs callable, e.lookedUp? (.host 2) key = some (.found cs) ∧ cs.length = 3 ∧
        Candidate.AreWellFormed provider.registry (.host 2) key cs ∧
        e.resolved? (.host 2) key = some (some (.procedure callable)) ∧
        Candidate.AreWellFormed provider.registry (.host 2) key callable.candidates := by
  intro f provider member key steps
  have hfound : (Step.runAll 1 steps { engine := .new provider {} }).any fun ran =>
      let e := ((resolveMember (.host 2) member .instance false).runFrom ran.2.engine).2
      ((e.lookedUp? (.host 2) key).any fun lookup => lookup.candidates.length = 3) &&
        (e.resolved? (.host 2) key).isSome := by
    decide +kernel
  obtain ⟨⟨results, j⟩, hrun, hfound⟩ := (Option.any_eq_true _ _).1 hfound
  obtain ⟨hlookup, hvalue⟩ := Bool.and_eq_true_iff.1 hfound
  obtain ⟨lookup, hlookup, hlength⟩ := (Option.any_eq_true _ _).1 hlookup
  obtain ⟨value, hvalue⟩ := Option.isSome_iff_exists.1 hvalue
  have hlength := of_decide_eq_true hlength
  have he : j.engine.LeadsTo _ := (LeadsTo.refl).resolveMember (.host 2) member .instance false
  have hi : ({ engine := .new provider {} } : Interpreter).engine = .new provider {} := rfl
  obtain ⟨hlookups, hvalues, _⟩ := entries_wellFormed hi hrun he
  have hwell := hlookups _ _ _ hlookup
  obtain ⟨lookup', hlookup', hmade⟩ := hvalues _ _ _ hvalue
  rw [hlookup] at hlookup'
  cases hlookup'
  cases lookup with
  | found cs =>
    obtain ⟨callable, rfl, _, hcallable⟩ := hmade
    exact ⟨results, j, hrun, he, cs, callable, hlookup, hlength, hwell.2, hvalue, hcallable⟩
  | constant v => cases hlength
  | notFound => cases hlength

end Engine

end Multimethod
