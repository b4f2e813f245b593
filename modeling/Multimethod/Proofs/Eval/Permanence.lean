import Mathlib.Data.Option.Basic
import Multimethod.Proofs.Engine.Commute
import Multimethod.Proofs.Engine.Growth
import Multimethod.Proofs.Engine.ImportOrder
import Multimethod.Proofs.Eval.CacheTransparency

/-!
# Answers are permanent

Once a reference is resolved on a type, every reference with the same lookup gives that very answer there,
whatever has been done with the interpreter since: `Engine.answers_permanent`. A resolution that fails
takes no answer back.

Nor does it stand in the way of later ones, where paths of supertypes are short. On a circle it may:
`Engine.failure_hides_candidates`.
-/

namespace Multimethod

namespace Engine

open DispatchM

theorem stable_growsInto (e : Engine) : Stable (fun _ => True) e.GrowsInto where
  spelled _ := trivial
  report _ h := h.congr rfl rfl rfl
  withImports _ h := h.congr rfl rfl rfl
  withOutages _ h := h.congr rfl rfl rfl
  resolveMember t member origin bindReceiver _ h :=
    (resolveMember_grows e t member origin bindReceiver _ h).2

/-- **Histories let the engine grow.** -/
theorem growsInto_of_runAll {depth : Nat} {steps : List Step} {i j : Interpreter}
    {results : List (Except RuntimeError (Option Value))}
    (hrun : Step.runAll depth steps i = some (results, j)) : i.engine.GrowsInto j.engine :=
  (stable_growsInto i.engine).keeps_runAll (fun _ _ _ _ => trivial) (.refl _) hrun

/-- **Answers are permanent.** In every state after a history of a fresh engine, on any registry, a
reference that is resolved has its answer kept, and after any further history every reference with the
same lookup gives what was kept and changes nothing. A resolution that fails leaves all that was kept.
Where paths of supertypes have at most 64 steps and no failure of the provider is due, resolutions that
failed before make no difference: the result is that of a fresh engine, up to the text that a table
goes by. -/
theorem answers_permanent {provider : Provider} {config : EngineConfig} {depth : Nat}
    {steps : List Step} {results : List (Except RuntimeError (Option Value))} {i j : Interpreter}
    (hfresh : i.engine = .new provider config)
    (hrun : Step.runAll depth steps i = some (results, j)) (ref : Reference) :
    (∀ answer e, ref.resolve.runFrom j.engine = (.ok answer, e) →
      ∀ (depth' : Nat) (later : List Step) (results' : List (Except RuntimeError (Option Value)))
        (i' k : Interpreter), i'.engine = e → Step.runAll depth' later i' = some (results', k) →
        k.engine.resolved? ref.on ref.key = some answer ∧
        ∀ again : Reference, again.on = ref.on → again.key = ref.key →
          again.resolve.runFrom k.engine = (.ok answer, k.engine)) ∧
    (∀ err e, ref.resolve.runFrom j.engine = (.error err, e) →
      ∀ t key answer, j.engine.resolved? t key = some answer → e.resolved? t key = some answer) ∧
    (provider.registry.hierarchy.PathsWithin 64 → j.engine.provider.outages = [] →
      ResultsAlike Eq (Option.Rel Value.Same) (ref.resolve.runFrom j.engine).1
        (ref.resolve.runFrom (.new ⟨provider.registry, []⟩ config)).1) := by
  refine ⟨?_, ?_, fun hpaths houtages => ?_⟩
  · intro answer e hanswer depth' later results' i' k hi' hlater
    have hkept : i'.engine.resolved? ref.on ref.key = some answer :=
      hi' ▸ resolved?_of_resolveMember hanswer
    have hgrown := (growsInto_of_runAll hlater).resolved? hkept
    refine ⟨hgrown, fun again hon hkey => resolveMember_of_resolved? ?_⟩
    rw [← hon, ← hkey] at hgrown
    exact hgrown
  · intro err e hfailed t key answer hkept
    have hgrows : j.engine.GrowsInto (ref.resolve.runFrom j.engine).2 :=
      (resolveMember_grows j.engine ref.on ref.member ref.origin ref.bindReceiver _ (.refl _)).2
    rw [hfailed] at hgrows
    exact hgrows.resolved? hkept
  · have hanswer (e : Engine)
        (he : e.FaithfulIf provider.registry hpaths.wellFounded config (fun _ => True) True) :
        IsAnswer provider.registry hpaths.wellFounded config (fun _ => True) ref.on ref.key
          (ref.resolve.runFrom e).1 :=
      (resolveMember_eq_answer trivial (hpaths.within ref.on) ref.origin ref.bindReceiver e he).1
    have hj := faithful_of_runAll hpaths hfresh hrun
    exact alike_of_isAnswer (hanswer j.engine ⟨hj, fun _ => houtages⟩) (hanswer _ faithfulIf_new)

/-- A diamond of types. A resolution at its lower end fails in the middle, and leaves what was resolved
at the upper end; the next one succeeds, and its answer outlasts a failure, imports and resolutions of
other types. -/
theorem answers_permanent_of_diamond :
    let f (param : Ty) : Member :=
      { key := "f", kind := .method, params := [param], ret := .text, body := .constant .null }
    let provider : Provider := { registry :=
      { hierarchy := ⟨[⟨"Base", []⟩, ⟨"Left", [.host 0]⟩, ⟨"Right", [.host 0]⟩,
          ⟨"Bottom", [.host 1, .host 2]⟩]⟩
        members := [(.host 0, [f .int]), (.host 1, [f .text]), (.host 2, [f .int, f .list])] } }
    let member : MemberName := { surface := "f", key := "f", kind := .method, pin := none }
    let upper : Reference := { on := .host 0, member }
    let lower : Reference := { on := .host 3, member }
    let failing : List Step := [.resolveMember (.host 0) member .any false, .setOutages [false, false, true]]
    let mended : List Step := failing ++ [.resolveMember (.host 3) member .any false, .setOutages []]
    let later : List Step := [.setOutages [true], .resolveMember .text member .any false,
      .addImport (.host 1) none, .resolve "f" none, .resolveMember (.host 2) member .static true]
    let i : Interpreter := { engine := .new provider {} }
    ∃ j results e err answer, Step.runAll 1 failing i = some (results, j) ∧
      lower.resolve.runFrom j.engine = (.error err, e) ∧
      j.engine.resolved? upper.on upper.key = some (some answer) ∧
      e.resolved? upper.on upper.key = some (some answer) ∧
    ∃ j' results' e' value k results'', Step.runAll 1 mended i = some (results', j') ∧
      lower.resolve.runFrom j'.engine = (.ok (some value), e') ∧
      ResultsAlike Eq (Option.Rel Value.Same) (lower.resolve.runFrom j'.engine).1
        (lower.resolve.runFrom (.new ⟨provider.registry, []⟩ {})).1 ∧
      Step.runAll 1 later { j' with engine := e' } = some (results'', k) ∧
      lower.resolve.runFrom k.engine = (.ok (some value), k.engine) := by
  intro f provider member upper lower failing mended later i
  have hpaths : provider.registry.hierarchy.PathsWithin 64 :=
    (Hierarchy.pathsWithin_of_precedes (by decide)).mono (by decide)
  have hi : i.engine = .new provider {} := rfl
  have hfailing : (Step.runAll 1 failing i).any fun ran =>
      !(lower.resolve.runFrom ran.2.engine).1.isOk &&
        (ran.2.engine.resolved? upper.on upper.key).any Option.isSome := by
    decide +kernel
  have hmended : (Step.runAll 1 mended i).any fun ran =>
      let resolved := lower.resolve.runFrom ran.2.engine
      ran.2.engine.provider.outages.isEmpty && resolved.1.toOption.join.isSome &&
        (Step.runAll 1 later { ran.2 with engine := resolved.2 }).isSome := by
    decide +kernel
  obtain ⟨⟨results, j⟩, hrun, hfailing⟩ := (Option.any_eq_true _ _).1 hfailing
  obtain ⟨hfails, hkept⟩ := Bool.and_eq_true_iff.1 hfailing
  obtain ⟨_ | answer, hkept, hsome⟩ := (Option.any_eq_true _ _).1 hkept
  · cases hsome
  obtain ⟨⟨results', j'⟩, hrun', hmended⟩ := (Option.any_eq_true _ _).1 hmended
  obtain ⟨hready, hlater⟩ := Bool.and_eq_true_iff.1 hmended
  obtain ⟨houtages, hvalue⟩ := Bool.and_eq_true_iff.1 hready
  dsimp only at hfails hkept houtages hvalue hlater
  cases hfailed : lower.resolve.runFrom j.engine with
  | mk result e =>
    cases result with
    | ok value =>
      rw [hfailed] at hfails
      cases hfails
    | error err =>
      have hleft := (answers_permanent hi hrun lower).2.1 err e hfailed _ _ _ hkept
      refine ⟨j, results, e, err, answer, hrun, hfailed, hkept, hleft, j', results', ?_⟩
      obtain ⟨⟨results'', k⟩, hlater⟩ := Option.isSome_iff_exists.1 hlater
      obtain ⟨hpermanent, _, hfresh⟩ := answers_permanent hi hrun' lower
      have hfresh := hfresh hpaths (List.isEmpty_iff.1 houtages)
      cases hresolved : lower.resolve.runFrom j'.engine with
      | mk result' e' =>
        rw [hresolved] at hvalue hlater hfresh
        obtain _ | _ | value := result'
        · cases hvalue
        · cases hvalue
        have hagain :=
          (hpermanent (some value) e' hresolved 1 later results'' _ k rfl hlater).2 lower rfl rfl
        exact ⟨e', value, k, results'', hrun', rfl, hfresh, hlater, hagain⟩

/-- Whether a resolution that fails comes first may tell on a circle. While the types `A` and `X`, each
above the other, are gone through, an inner lookup is cut off and kept, and then the listing of `Y`
fails. The next resolution takes what was kept for the whole answer, and misses what `Y` inherits. -/
theorem failure_hides_candidates :
    let f : Member := { key := "f", kind := .method, params := [.int], ret := .any, body := .constant .null }
    let r : Registry :=
      { hierarchy := ⟨[⟨"W", []⟩, ⟨"Y", [.host 0]⟩, ⟨"X", [.host 3, .host 1]⟩, ⟨"A", [.host 2]⟩,
          ⟨"B", [.host 2]⟩, ⟨"P", [.host 6, .host 1]⟩, ⟨"Q", [.host 5]⟩, ⟨"T", [.host 4, .host 5]⟩]⟩
        members := [(.host 0, [f]), (.host 1, [{ f with isVariadic := true }])] }
    let member : MemberName := { surface := "f", key := "f", kind := .method, pin := none }
    let ref : Reference := { on := .host 7, member }
    let steps : List Step := [.setOutages [false, false, false, false, true],
      .resolveMember (.host 7) member .any false, .setOutages []]
    ∃ results j, Step.runAll 1 steps { engine := .new ⟨r, []⟩ {} } = some (results, j) ∧
      results.map Except.isOk = [true, false, true] ∧ j.engine.provider.outages = [] ∧
      (∃ err, (ref.resolve.runFrom j.engine).1 = .error err) ∧
      ∃ answer, (ref.resolve.runFrom (.new ⟨r, []⟩ {})).1 = .ok answer := by
  intro f r member ref steps
  have hlater : (Step.runAll 1 steps { engine := .new ⟨r, []⟩ {} }).any fun ran =>
      ran.1.map Except.isOk = [true, false, true] && ran.2.engine.provider.outages.isEmpty &&
        !(ref.resolve.runFrom ran.2.engine).1.isOk := by
    decide +kernel
  have hfresh : (ref.resolve.runFrom (.new ⟨r, []⟩ {})).1.isOk := by decide +kernel
  obtain ⟨⟨results, j⟩, hrun, hlater⟩ := (Option.any_eq_true _ _).1 hlater
  obtain ⟨hlater, hfails⟩ := Bool.and_eq_true_iff.1 hlater
  obtain ⟨hresults, houtages⟩ := Bool.and_eq_true_iff.1 hlater
  refine ⟨results, j, hrun, of_decide_eq_true hresults, List.isEmpty_iff.1 houtages, ?_, ?_⟩
  · cases herror : (ref.resolve.runFrom j.engine).1 with
    | error err => exact ⟨err, rfl⟩
    | ok answer =>
      dsimp only at hfails
      rw [herror] at hfails
      cases hfails
  · cases hanswer : (ref.resolve.runFrom (.new ⟨r, []⟩ {})).1 with
    | error err =>
      rw [hanswer] at hfresh
      cases hfresh
    | ok answer => exact ⟨answer, rfl⟩

end Engine

end Multimethod
