import Multimethod.Proofs.Engine.Agreement
import Multimethod.Proofs.Engine.ImportLayers
import Multimethod.Proofs.Eval.SharedInheritance

/-!
# A single import without a prefix

With one import that has no prefix, a plain name that the root scope does not bind stands for what it stands for
on the scope of this import: `Engine.catch_all_import`. The lookups on the root scope go before and leave
records behind, which make no difference but for the failures of the provider that come due in them.

A name with a slash is not among these. Where its first part names no type, it is a plain name on a scope and in
the root scope, and the import passes over it: `Engine.catch_all_import_misses_slash`.
-/

namespace Multimethod

open DispatchM

namespace Engine

variable {e f : Engine} {Keys : LookupKey → Prop} {name : String} {member : MemberName} {t : Ty}

theorem resolveRoot_follows (hinstance : ¬ Keys (member.lookup .instance true))
    (hstatic : ¬ Keys (member.lookup .static false)) :
    Keeps (Follows Keys · f) (resolveRoot member) fun _ => True := by
  unfold resolveRoot
  refine Keeps.get_bind fun e _ => ?_
  split
  · exact Keeps.pure trivial
  refine (resolveMember_follows _ hinstance).seq fun answer => ?_
  split
  · exact Keeps.pure trivial
  · exact resolveMember_follows _ hstatic

/-- The answers of engines that agree are equal, unless a failure of the provider comes in between. -/
theorem resolveMember_eq_of_follows (hef : e.Follows (· = member.lookup .any false) f) (t : Ty) :
    let result := ((resolveMember t member .any false).runFrom e).1
    let result' := ((resolveMember t member .any false).runFrom f).1
    (result = result' ∨ IsOutage result ∨ IsOutage result') ∧ (f.provider.outages = [] → result = result') := by
  intro result result'
  have hequal : ResultsAlike Eq Eq result result' → result = result' := by
    generalize result = first, result' = second
    rintro (⟨rfl⟩ | ⟨rfl⟩) <;> rfl
  have hagree : AgreeFrom (Matches (· = member.lookup .any false) (f.provider.outages = [])) (f.provider.outages = [])
      Eq (resolveMember t member .any false) (resolveMember t member .any false) e f :=
    resolveMember_agreeFrom (by rfl) hef.matches t
  obtain ⟨hresults, -⟩ | ⟨hdue, hout⟩ := hagree
  · exact ⟨.inl (hequal hresults), fun _ => hequal hresults⟩
  · exact ⟨.inr hout, fun hnone => absurd hnone hdue⟩

/-- One import without a prefix answers for a plain name what its scope does. -/
theorem searchImports_catchAll (hplain : Name.classify name = .plain member) (t : Ty) (e : Engine) :
    ((searchImports name [⟨t, none⟩] none).runFrom e).1.map (Option.map Prod.fst) =
      ((resolveMember t member .any false).runFrom e).1 := by
  rw [searchImports_cons, runFrom_bind, runFrom_answer (member?_of_unprefixed hplain rfl)]
  cases (resolveMember t member .any false).runFrom e with
  | mk result e' => obtain _ | _ | _ := result <;> rfl

/-- An import without a prefix passes over a name with a slash. -/
theorem member?_of_slash (hmember : e.plainMember? name = some member)
    (hslash : Name.classify name ≠ .plain member) (t : Ty) : Import.member? name ⟨t, none⟩ = none := by
  unfold plainMember? at hmember
  unfold Import.member? Import.localName?
  dsimp only [Option.map_some]
  cases hform : Name.classify name with
  | selector => rfl
  | qualified => rfl
  | plain m =>
    rw [hform] at hmember hslash
    cases hmember
    exact absurd rfl hslash

/-- **One import without a prefix exposes every plain name.** In an engine with no other import, let the root
scope not bind a name that is neither a selector nor qualified by a type that there is. If the name is plain, it
stands for what it stands for on the scope of the import, unless a failure of the provider ends one of the two;
where no failure is due, it does so anyway. If the name has a slash, it stands for nothing. -/
theorem catch_all_import (himports : e.imports = [⟨t, none⟩]) (hmember : e.plainMember? name = some member)
    (hroot : ((resolveRoot member).runFrom e).1 = .ok none) :
    let bare := ((resolve name none).runFrom e).1
    let onScope := ((resolve name (some t)).runFrom e).1
    (Name.classify name = .plain member →
      (bare = onScope ∨ IsOutage bare ∨ IsOutage onScope) ∧ (e.provider.outages = [] → bare = onScope)) ∧
    (Name.classify name ≠ .plain member → bare = .ok none) := by
  intro bare onScope
  have hkeeps : Keeps (Follows (· = member.lookup .any false) · e) (resolveRoot member) fun _ => True :=
    resolveRoot_follows (by simp [MemberName.lookup]) (by simp [MemberName.lookup])
  have hfollows := (hkeeps e (.refl _ e)).2
  cases hrun : (resolveRoot member).runFrom e with
  | mk result e₁ =>
    rw [hrun] at hroot hfollows
    cases hroot
    refine ⟨fun hplain => ?_, fun hslash => ?_⟩
    · have hbare : bare = ((resolveMember t member .any false).runFrom e₁).1 := by
        rw [← searchImports_catchAll hplain t e₁, ← himports]
        exact resolve_eq_search hplain hrun
      have honScope : onScope = ((resolveMember t member .any false).runFrom e).1 :=
        congrArg (fun m => (DispatchM.runFrom m e).1) (resolve_of_plain hplain (some t))
      rw [hbare, honScope]
      exact resolveMember_eq_of_follows hfollows t
    · have hanswer : (Import.answer name ⟨t, none⟩).runFrom e₁ = (.ok none, e₁) := by
        unfold Import.answer
        rw [member?_of_slash hmember hslash t]
        rfl
      have hbare : bare = _ := congrArg Prod.fst (runFrom_resolve hmember)
      rw [hbare, himports]
      unfold seek
      simp only [runFrom_bind, hrun, searchImports_cons, hanswer]
      rfl

/-- A name that the scope inherits, in an engine that has looked at some types before. -/
theorem catch_all_import_of_inherited :
    let f : Member := { key := "f", kind := .method, params := [.int], ret := .text, body := .constant .null }
    let provider : Provider := { registry :=
      { hierarchy := ⟨[⟨"sioc", []⟩, ⟨"Base", []⟩, ⟨"Heir", [.host 1]⟩]⟩
        members := [(.host 1, [f, { f with key := "g" }])] } }
    let member : MemberName := { surface := "f", key := "f", kind := .method, pin := none }
    let e : Engine := ((resolve "g" (some (.host 2))).runFrom ((Engine.new provider {}).addImport (.host 2) none)).2
    e.imports = [⟨.host 2, none⟩] ∧ e.plainMember? "f" = some member ∧
      ((resolveRoot member).runFrom e).1 = .ok none ∧
      (∃ p, ((resolve "f" none).runFrom e).1 = .ok (some (.procedure p))) ∧
      ((resolve "f" none).runFrom e).1 = ((resolve "f" (some (.host 2))).runFrom e).1 := by
  intro f provider member e
  have himports : e.imports = [⟨.host 2, none⟩] := by decide +kernel
  have hplain : Name.classify "f" = .plain member := by decide +kernel
  have hmember := plainMember?_of_plain hplain e
  have hroot : ((resolveRoot member).runFrom e).1 = .ok none := by decide +kernel
  have hfound : (resolvedCallable? ((resolve "f" none).runFrom e).1).isSome := by decide +kernel
  obtain ⟨p, hp⟩ := Option.isSome_iff_exists.1 hfound
  have houtages : e.provider.outages = [] := by decide +kernel
  exact ⟨himports, hmember, hroot, ⟨p, eq_of_resolvedCallable? hp⟩,
    ((catch_all_import himports hmember hroot).1 hplain).2 houtages⟩

/-- A member whose name has a slash, though no type is called as its first part. On the scope of the one import
the name is found, and without a scope it is not. -/
theorem catch_all_import_misses_slash :
    let f : Member :=
      { key := Name.mangle "a/b", kind := .method, params := [], ret := .any, body := .constant .null }
    let provider : Provider := { registry :=
      { hierarchy := ⟨[⟨"T", []⟩]⟩
        members := [(.host 0, [f])] } }
    let member : MemberName := { surface := "a/b", key := Name.mangle "a/b", kind := .method, pin := none }
    let e : Engine := (Engine.new provider {}).addImport (.host 0) none
    e.imports = [⟨.host 0, none⟩] ∧ e.plainMember? "a/b" = some member ∧
      ((resolveRoot member).runFrom e).1 = .ok none ∧
      ((resolve "a/b" none).runFrom e).1 = .ok none ∧
      ∃ p, ((resolve "a/b" (some (.host 0))).runFrom e).1 = .ok (some (.procedure p)) := by
  intro f provider member e
  have hfound : (resolvedCallable? ((resolve "a/b" (some (.host 0))).runFrom e).1).isSome := by decide +kernel
  obtain ⟨p, hp⟩ := Option.isSome_iff_exists.1 hfound
  exact ⟨by decide +kernel, by decide +kernel, by decide +kernel, by decide +kernel, p,
    eq_of_resolvedCallable? hp⟩

end Engine

end Multimethod
