import Multimethod.Proofs.Dispatch.ArityPin
import Multimethod.Proofs.Engine.Declared

/-!
# Pinned lookups

A pinned lookup drops candidates on each type on the way, and the other lookup is filtered at the end.
Both find the same: to drop a candidate is to drop all of its signature, so that none that was passed over
takes its place.

* `firstOfEach_filter` — of each signature the first is kept, before or after a filter by signature.
* `Registry.candidates_of_lookUp_pinned` — a pinned lookup finds what the pin leaves of the candidates that
  the other lookup finds.
-/

namespace Multimethod

namespace Candidate

/-- A filter that goes by signatures may come before or after all but the first of each are dropped. -/
theorem firstOfEach_filter {p : Candidate → Bool} (hp : ∀ c d, c.sameSignature d → p c = p d)
    (cs : List Candidate) : firstOfEach (cs.filter p) = (firstOfEach cs).filter p := by
  induction cs with
  | nil => rfl
  | cons c rest ih =>
    rw [firstOfEach]
    by_cases hc : p c
    · rw [List.filter_cons_of_pos hc, List.filter_cons_of_pos hc, firstOfEach, ih, List.filter_filter,
        List.filter_filter]
      congr 1
      exact List.filter_congr fun d _ => Bool.and_comm _ _
    · -- the filter drops all that has the signature of `c`
      rw [List.filter_cons_of_neg hc, List.filter_cons_of_neg hc, ih, List.filter_filter]
      refine List.filter_congr fun d _ => ?_
      cases hd : p d with
      | false => rfl
      | true =>
        cases hsame : c.sameSignature d with
        | false => rfl
        | true => exact absurd ((hp c d hsame).trans hd) hc

theorem firstOfEach_pinnedTo (n : Nat) (cs : List Candidate) :
    firstOfEach (cs.map (pinnedTo n)) = (firstOfEach cs).map (pinnedTo n) :=
  firstOfEach_relabel (fun key => { key with pin := some n }) cs

theorem admittedBy_eq_of_sameSignature (pin : Option Nat) {c d : Candidate} (h : c.sameSignature d) :
    c.admittedBy pin = d.admittedBy pin := by
  obtain ⟨hvariadic, hparams⟩ := sameSignature_iff.1 h
  unfold admittedBy arity
  rw [hvariadic, hparams]

theorem firstOfEach_pinAll (n : Nat) (cs : List Candidate) :
    firstOfEach (pinAll n cs) = pinAll n (firstOfEach cs) := by
  rw [pinAll, firstOfEach_pinnedTo, firstOfEach_filter fun c d => admittedBy_eq_of_sameSignature (some n)]
  rfl

theorem pinAll_append (n : Nat) (cs ds : List Candidate) :
    pinAll n (cs ++ ds) = pinAll n cs ++ pinAll n ds := by
  rw [pinAll, List.filter_append, List.map_append]
  rfl

end Candidate

open Candidate

/-- The lookup confined to candidates for so many arguments. -/
def LookupKey.pinnedTo (n : Nat) (key : LookupKey) : LookupKey := { key with pin := some n }

variable {r : Registry} {key : LookupKey} {t : Ty} {n : Nat}

/-- The pinned lookup makes candidates of the same members, of those that the pin leaves. -/
theorem LookupKey.candidatesAmong_pinnedTo (hkey : key.pin = none) (placed : List (Member × Nat)) :
    (key.pinnedTo n).candidatesAmong t placed = pinAll n (key.candidatesAmong t placed) := by
  have hall (cs : List Candidate) : cs.filter (·.admittedBy key.pin) = cs := by
    rw [hkey]
    exact List.filter_eq_self.2 fun _ _ => rfl
  unfold candidatesAmong pinAll
  rw [hall, List.filter_map, List.filter_map, List.map_map]
  rfl

namespace Registry

/-- What pinned lookups find on several types is what the pin leaves of what the others find there. -/
theorem flatMap_candidates_pinned {f g : Ty → Except DispatchError Lookup} {ss : List Ty}
    {lookups pinned : List Lookup}
    (hfg : ∀ s ∈ ss, ∀ l l', f s = .ok l → g s = .ok l' → l'.candidates = pinAll n l.candidates)
    (h : (ss.map f).mapM id = .ok lookups) (hpinned : (ss.map g).mapM id = .ok pinned) :
    pinned.flatMap Lookup.candidates = pinAll n (lookups.flatMap Lookup.candidates) := by
  induction ss generalizing lookups pinned with
  | nil =>
    cases h
    cases hpinned
    rfl
  | cons s rest ih =>
    rw [List.map_cons, List.mapM_cons] at h hpinned
    obtain ⟨l, hl, h⟩ := exists_of_bind_ok h
    obtain ⟨others, hothers, h⟩ := exists_of_bind_ok h
    obtain ⟨l', hl', hpinned⟩ := exists_of_bind_ok hpinned
    obtain ⟨others', hothers', hpinned⟩ := exists_of_bind_ok hpinned
    cases h
    cases hpinned
    have hrest := ih (fun u hu => hfg u (List.mem_cons_of_mem s hu)) hothers hothers'
    rw [List.flatMap_cons, List.flatMap_cons, hfg s List.mem_cons_self l l' hl hl', hrest, pinAll_append]

/-- **A pinned lookup finds what the pin leaves** of the candidates that the other lookup finds. -/
theorem candidates_of_lookUp_pinned (hw : WellFounded r.hierarchy.Above) (hkey : key.pin = none)
    {lookup pinned : Lookup} (h : r.lookUp key hw t = .ok lookup)
    (hpinned : r.lookUp (key.pinnedTo n) hw t = .ok pinned) :
    pinned.candidates = pinAll n lookup.candidates := by
  induction t using hw.induction generalizing lookup pinned with
  | _ t ih =>
    rw [lookUp_eq, lookUpFrom] at h hpinned
    cases hlist : r.list t with
    | error failure =>
      rw [hlist] at h
      cases h
    | ok members =>
      simp only [hlist] at h hpinned
      -- both lookups see the same constants
      have hconstants : (key.pinnedTo n).constantAmong members = key.constantAmong members := rfl
      rw [hconstants] at hpinned
      cases hconstant : key.constantAmong members with
      | some value =>
        rw [hconstant] at h hpinned
        cases h
        cases hpinned
        rfl
      | none =>
        rw [hconstant] at h hpinned
        obtain ⟨above, habove, h⟩ := exists_of_bind_ok h
        obtain ⟨above', habove', hpinned⟩ := exists_of_bind_ok hpinned
        rw [(combine_cases h).1, (combine_cases hpinned).1, LookupKey.candidatesAmong_pinnedTo hkey,
          flatMap_candidates_pinned (fun s hs l l' => ih s hs) habove habove', ← pinAll_append,
          firstOfEach_pinAll]

end Registry

end Multimethod
