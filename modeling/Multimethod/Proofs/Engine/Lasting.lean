import Multimethod.Proofs.Engine.Growth
import Multimethod.Proofs.Engine.ImportLayers

/-!
# Resolutions that last

A resolution that has ended, with a value or because imports disagree, has its answers kept. So in every engine
that has grown since, it ends alike and records nothing more. A resolution that failed in a lookup may be worth
another try.

* `DispatchM.Lasts` — the resolution ends alike ever after, unless a lookup fails in it.
* `DispatchM.Lasts.bind` — resolutions that last make one that lasts.
* `Engine.resolveMember_lasts`, `Engine.seek_lasts` — references and names without a scope last.
-/

namespace Multimethod

open DispatchM

theorem Engine.SameSetup.trans {e f g : Engine} (h : e.SameSetup f) (h' : f.SameSetup g) : e.SameSetup g :=
  ⟨h.registry.trans h'.registry, h.settings.trans h'.settings, h.root.trans h'.root, h.imports.trans h'.imports⟩

namespace DispatchM

variable {α β : Type} {m : DispatchM α} {f : α → DispatchM β}

/-- The result is not the failure of a lookup. -/
def NoLookupFails (result : Except DispatchError α) : Prop := ∀ err, result = .error err → ¬ err.IsOfLookup

/-- Whatever the engine, the resolution lets it grow and leaves its setup. Unless a lookup fails, it ends alike in
every engine that this one grows into, and changes nothing there. -/
structure Lasts (m : DispatchM α) : Prop where
  grows : ∀ e : Engine, e.GrowsInto (m.runFrom e).2
  setup : ∀ e : Engine, (m.runFrom e).2.SameSetup e
  repeats : ∀ {e k : Engine}, NoLookupFails (m.runFrom e).1 → (m.runFrom e).2.GrowsInto k → k.root = e.root →
    m.runFrom k = ((m.runFrom e).1, k)

namespace Lasts

theorem of_unchanged {result : Except DispatchError α} (h : ∀ e, m.runFrom e = (result, e)) : Lasts m where
  grows e := by
    rw [h]
    exact .refl e
  setup e := by
    rw [h]
    exact .refl e
  repeats {e k} _ _ _ := by rw [h, h]

theorem pure (a : α) : Lasts (pure a) := of_unchanged fun _ => rfl

/-- What the rest of a resolution reads of the engine may be what never changes. -/
theorem get_bind {f : Engine → DispatchM β} (hf : ∀ e, Lasts (f e))
    (hcongr : ∀ e k : Engine, k.root = e.root → k.provider.registry = e.provider.registry → f k = f e) :
    Lasts (get >>= f) where
  grows e := by
    rw [runFrom_get_bind]
    exact (hf e).grows e
  setup e := by
    rw [runFrom_get_bind]
    exact (hf e).setup e
  repeats {e k} hsettled hgrows hroot := by
    rw [runFrom_get_bind] at hsettled hgrows
    have hregistry : k.provider.registry = e.provider.registry :=
      hgrows.registry.trans ((hf e).setup e).registry
    rw [runFrom_get_bind, runFrom_get_bind, hcongr e k hroot hregistry]
    exact (hf e).repeats hsettled hgrows hroot

/-- **Resolutions that last make one that lasts.** -/
theorem bind (hm : Lasts m) (hf : ∀ a, Lasts (f a)) : Lasts (m >>= f) := by
  refine ⟨fun e => ?_, fun e => ?_, fun {e k} hsettled hgrows hroot => ?_⟩
  · have hgrows := hm.grows e
    rw [runFrom_bind]
    generalize m.runFrom e = ran at hgrows ⊢
    obtain ⟨_ | a, e'⟩ := ran
    · exact hgrows
    · exact hgrows.trans ((hf a).grows e')
  · have hsetup := hm.setup e
    rw [runFrom_bind]
    generalize m.runFrom e = ran at hsetup ⊢
    obtain ⟨_ | a, e'⟩ := ran
    · exact hsetup
    · exact ((hf a).setup e').trans hsetup
  · have hsetup := hm.setup e
    have hrepeats := hm.repeats (e := e) (k := k)
    rw [runFrom_bind] at hsettled hgrows ⊢
    rw [runFrom_bind]
    generalize m.runFrom e = ran at hsetup hrepeats hsettled hgrows ⊢
    obtain ⟨err | a, e'⟩ := ran
    · rw [hrepeats (fun err' h => hsettled err' (by cases h; rfl)) hgrows hroot]
    · -- the engine in between grows into the last one
      rw [hrepeats nofun (((hf a).grows e').trans hgrows) hroot]
      exact (hf a).repeats hsettled hgrows (hroot.trans hsetup.root.symm)

end Lasts

end DispatchM

namespace Engine

variable {name : String} {member : MemberName}

/-- **A reference that is resolved stays so.** -/
theorem resolveMember_lasts (t : Ty) (member : MemberName) (origin : OriginFilter) (bindReceiver : Bool) :
    Lasts (resolveMember t member origin bindReceiver) where
  grows e := (resolveMember_grows e t member origin bindReceiver e (.refl e)).2
  setup e := (resolveMember_keeps_setup t member origin bindReceiver e (.refl e)).2
  repeats {e k} hsettled hgrows _ := by
    cases hrun : (resolveMember t member origin bindReceiver).runFrom e with
    | mk result e' =>
      rw [hrun] at hsettled hgrows
      cases result with
      | error err =>
        have hfails := (resolveMember_failsOnLookup t member origin bindReceiver e trivial).1
        exact absurd (hfails err (by rw [hrun])) (hsettled err rfl)
      | ok value => exact resolveMember_of_resolved? (hgrows.resolved? (resolved?_of_resolveMember hrun))

theorem answer_lasts (name : String) (i : Import) : Lasts (i.answer name) := by
  unfold Import.answer
  split
  · exact (resolveMember_lasts _ _ .any false).bind fun _ => .pure _
  · exact .pure none

theorem searchImports_lasts (imports : List Import) (found : Option (Value × Ty)) :
    Lasts (searchImports name imports found) := by
  induction imports generalizing found with
  | nil => exact .pure found
  | cons i rest ih =>
    rw [searchImports_cons]
    refine (answer_lasts name i).bind fun answer => ?_
    split
    · exact ih _
    · exact ih _
    · split
      · refine .get_bind (fun e => .of_unchanged fun _ => rfl) fun e k _ hregistry => ?_
        unfold hierarchy
        rw [hregistry]
      · exact ih _

theorem resolveRoot_lasts (member : MemberName) : Lasts (resolveRoot member) := by
  unfold resolveRoot
  refine .get_bind (fun e => ?_) fun e k hroot _ => by rw [hroot]
  split
  · exact .pure none
  · refine (resolveMember_lasts _ member .instance true).bind fun answer => ?_
    split
    · exact .pure _
    · exact resolveMember_lasts _ member .static false

/-- **What a name without a scope is bound to stays so,** as far as these imports decide it. -/
theorem seek_lasts (name : String) (member : MemberName) (imports : List Import) :
    Lasts (seek name member imports) := by
  refine (resolveRoot_lasts member).bind fun answer => ?_
  split
  · exact .pure _
  · exact (searchImports_lasts imports none).bind fun found => .pure _

end Engine

end Multimethod
