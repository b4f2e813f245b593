import Multimethod.Proofs.Engine.Answers
import Multimethod.Proofs.Engine.InstanceLookup

/-!
# Answers and those that they are made of

The answer of a lookup on a type is made of its answers on the supertypes, unless the type declares a constant
for it. These were kept before, so whoever finds an answer that was kept may take it that all types above have
been recorded.

* `Engine.Complete` — every answer is kept along with those that it is made of.
* `Engine.answerRule_complete` — discoveries and resolutions that are not cut off keep it so.
* `Engine.Complete.lookedUp?_above` — what has an answer has answers on all types above.
-/

namespace Multimethod

open DispatchM

namespace Engine

variable {r : Registry} {config : EngineConfig} {e : Engine} {t s : Ty} {key : LookupKey}

/-- Is the answer, unless it is a constant of the type itself, kept along with answers of the supertypes? -/
def HasAnswersAbove (r : Registry) (e : Engine) (t : Ty) (key : LookupKey) (_ : Lookup) : Prop :=
  key.constantAmong (r.membersOf t) = none →
    ∀ s, r.hierarchy.Above s t → ∃ found, e.lookedUp? s key = some found

/-- Are all entries well formed, and is every answer that is no constant of the type itself kept along with
answers of the supertypes? -/
def Complete (r : Registry) (config : EngineConfig) (e : Engine) : Prop :=
  e.Obeys r config (HasAnswersAbove r)

/-- **Answers are kept along with those that they are made of,** where no discovery is cut off. -/
theorem answerRule_complete (r : Registry) (config : EngineConfig) :
    AnswerRule r config r.hierarchy.Within (HasAnswersAbove r) where
  above hwithin hs := hwithin _ hs
  grows hgrows habove hnone s hs := by
    obtain ⟨found, hfound⟩ := habove hnone s hs
    exact ⟨found, hgrows.lookedUp? hfound⟩
  found {levels t _ _ _ _ _} hwithin hrec hlast hran hnone s hs := by
    obtain ⟨value, hconstant, -⟩ | ⟨inherited, -, ⟨rfl, -⟩ | habove⟩ := answerOf_cases hrec hlast.toWellFormed hran
    · rw [hnone] at hconstant
      cases hconstant
    · -- a discovery that goes no further up ends at a type without supertypes
      rw [Hierarchy.Above, show r.hierarchy.supertypes t = [] from hwithin] at hs
      cases hs
    · obtain ⟨found, -, hfound⟩ := Gives.exists_mem_of_forall₂ habove.flip s hs
      exact ⟨found, hfound⟩

/-- Evaluations and histories keep answers along with those that they are made of. -/
theorem stable_complete (hpaths : r.hierarchy.PathsWithin 64) (config : EngineConfig) :
    Stable (fun _ => True) (Complete r config) :=
  (answerRule_complete r config).stable hpaths.within

/-- What has an answer has records of all types above it, if no static member takes part. -/
theorem Complete.lookedUp?_above (he : e.Complete r config) {lookup : Lookup}
    (hlookup : e.lookedUp? t key = some lookup) (hstatic : r.HasNoStatic t key) (hs : r.hierarchy.Leads t s) :
    ∃ found, e.lookedUp? s key = some found := by
  induction hs with
  | refl => exact ⟨lookup, hlookup⟩
  | tail hpath habove ih =>
    obtain ⟨found, hfound⟩ := ih
    exact he.answers hfound (LookupKey.constantAmong_eq_none (hstatic _ hpath)) _ habove

end Engine

end Multimethod
