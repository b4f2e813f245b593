import Multimethod.Proofs.Engine.Faithful
import Multimethod.Proofs.Eval.History

/-!
# Caches are not observable

An engine keeps what it found for later lookups, of whatever type and at whatever depth they start,
and a provider that fails may interrupt it anywhere. Still every answer is that of the recursion on
the registry alone: `Engine.resolveMember_eq_lookUp`.
-/

namespace Multimethod

namespace Engine

/-- Faithful records stay so where no path of supertypes is longer than discovery goes up. -/
theorem stable_faithful {r : Registry} (hpaths : r.hierarchy.PathsWithin 64)
    (config : EngineConfig) {References : MemberName → Prop}
    (hspelled : ∀ member : MemberName, member.IsSpelled → References member) :
    Stable References (Faithful r hpaths.wellFounded config References) where
  spelled := hspelled _
  report event he := he.report event
  withImports _ he := he.congr rfl rfl rfl
  withOutages _ he := he.congr rfl rfl rfl
  resolveMember t _ origin bindReceiver hmember he :=
    (resolveMember_keeps hmember (hpaths.within t) origin bindReceiver _ he).2

theorem faithful_of_runAll {provider : Provider} {config : EngineConfig} {depth : Nat}
    {steps : List Step} {results : List (Except RuntimeError (Option Value))} {i j : Interpreter}
    (hpaths : provider.registry.hierarchy.PathsWithin 64)
    (hfresh : i.engine = .new provider config)
    (hrun : Step.runAll depth steps i = some (results, j)) :
    j.engine.Faithful provider.registry hpaths.wellFounded config fun _ => True :=
  (stable_faithful hpaths config fun _ _ => trivial).keeps_runAll (fun _ _ _ _ => trivial)
    (hfresh ▸ faithful_new provider hpaths.wellFounded) hrun

/-- **Caches are not observable.** After any history of a fresh engine, on a registry whose paths of
supertypes have at most 64 steps, what a reference resolves to on a type is what the recursion on the
registry finds there, unless the members of some type cannot be listed. The name that a table goes by
is the text of a reference with the same lookup, and where all references come from names that is
the text of the reference itself. -/
theorem resolveMember_eq_lookUp {provider : Provider} {config : EngineConfig} {depth : Nat}
    {steps : List Step} {results : List (Except RuntimeError (Option Value))} {i j : Interpreter}
    (hpaths : provider.registry.hierarchy.PathsWithin 64)
    (hfresh : i.engine = .new provider config)
    (hrun : Step.runAll depth steps i = some (results, j))
    (t : Ty) (member : MemberName) (origin : OriginFilter) (bindReceiver : Bool)
    (hlisted : ¬ ∃ err, DispatchError.IsListing err ∧
      ((resolveMember t member origin bindReceiver).runFrom j.engine).1 = .error err) :
    ∃ written : MemberName,
      (written = member ∨ written.IsSpelled ∨ written ∈ steps.flatMap Step.references) ∧
      written.lookup origin bindReceiver = member.lookup origin bindReceiver ∧
      (member.IsSpelled → (∀ m ∈ steps.flatMap Step.references, m.IsSpelled) →
        written.surface = member.surface) ∧
      ((resolveMember t member origin bindReceiver).runFrom j.engine).1 =
        (provider.registry.lookUp (member.lookup origin bindReceiver) hpaths.wellFounded t).map
          (·.value? provider.registry.hierarchy config written.surface t member.pin) := by
  let References : MemberName → Prop := fun m =>
    m = member ∨ m.IsSpelled ∨ m ∈ steps.flatMap Step.references
  have hstable : Stable References
      (Faithful provider.registry hpaths.wellFounded config References) :=
    stable_faithful hpaths config fun _ h => .inr (.inl h)
  have hsteps : ∀ step ∈ steps, ∀ m ∈ step.references, References m := by
    intro step hstep m hm
    exact .inr (.inr (List.mem_flatMap.2 ⟨step, hstep, hm⟩))
  have hj := hstable.keeps_runAll hsteps (hfresh ▸ faithful_new provider hpaths.wellFounded) hrun
  have hmember : References member := .inl rfl
  have hresolved := (resolveMember_keeps hmember (hpaths.within t) origin bindReceiver j.engine hj).1
  rcases hresolved with ⟨written, hwritten, hlookup, hanswer⟩ | hlisting
  · refine ⟨written, hwritten, hlookup, fun hmember hspelled => ?_, hanswer⟩
    have hw : written.IsSpelled := by
      rcases hwritten with rfl | hw | hw
      · exact hmember
      · exact hw
      · exact hspelled written hw
    exact MemberName.surface_eq_of_isSpelled hw hmember (congrArg LookupKey.key hlookup)
      (congrArg LookupKey.kind hlookup)
  · exact absurd hlisting hlisted

/-- A diamond of types. A failure of the provider ends the first resolution when some of its types
are recorded, and the second one records the others. -/
theorem resolveMember_eq_lookUp_of_diamond :
    let f (param : Ty) : Member :=
      { key := "f", kind := .method, params := [param], ret := .text, body := .constant .null }
    let provider : Provider := { registry :=
      { hierarchy := ⟨[⟨"Base", []⟩, ⟨"Left", [.host 0]⟩, ⟨"Right", [.host 0]⟩,
          ⟨"Bottom", [.host 1, .host 2]⟩]⟩
        members := [(.host 0, [f .int]), (.host 1, [f .text]), (.host 2, [f .int, f .list])] } }
    let member : MemberName := { surface := "f", key := "f", kind := .method, pin := none }
    let steps : List Step := [.setOutages [false, false, true],
      .resolveMember (.host 3) member .any false, .resolve "f" (some (.host 2))]
    ∃ (hpaths : provider.registry.hierarchy.PathsWithin 64)
      (results : List (Except RuntimeError (Option Value))) (j : Interpreter),
      Step.runAll 1 steps { engine := .new provider {} } = some (results, j) ∧
      (¬ ∃ err, DispatchError.IsListing err ∧
        ((resolveMember (.host 3) member .any false).runFrom j.engine).1 = .error err) ∧
      ∃ written : MemberName,
        (written = member ∨ written.IsSpelled ∨ written ∈ steps.flatMap Step.references) ∧
        written.lookup .any false = member.lookup .any false ∧
        (member.IsSpelled → (∀ m ∈ steps.flatMap Step.references, m.IsSpelled) →
          written.surface = member.surface) ∧
        ((resolveMember (.host 3) member .any false).runFrom j.engine).1 =
          (provider.registry.lookUp (member.lookup .any false) hpaths.wellFounded (.host 3)).map
            (·.value? provider.registry.hierarchy {} written.surface (.host 3) member.pin) := by
  intro f provider member steps
  have hpaths : provider.registry.hierarchy.PathsWithin 64 :=
    (Hierarchy.pathsWithin_of_precedes (by decide)).mono (by decide)
  have hok : (Step.runAll 1 steps { engine := .new provider {} }).any fun ran =>
      ((resolveMember (.host 3) member .any false).runFrom ran.2.engine).1.isOk := by
    decide +kernel
  obtain ⟨⟨results, j⟩, hrun, hok⟩ := (Option.any_eq_true _ _).1 hok
  have hlisted : ¬ ∃ err, DispatchError.IsListing err ∧
      ((resolveMember (.host 3) member .any false).runFrom j.engine).1 = .error err := by
    rintro ⟨err, _, herr⟩
    rw [herr] at hok
    cases hok
  exact ⟨hpaths, results, j, hrun, hlisted,
    resolveMember_eq_lookUp hpaths rfl hrun (.host 3) member .any false hlisted⟩
end Engine

end Multimethod
