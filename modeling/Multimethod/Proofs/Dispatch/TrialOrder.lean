import Multimethod.Dispatch.Overload

/-!
# The order of trial

Candidates are tried in order of specificity. The order compares keys of types lexicographically,
so that it is a total preorder whatever the hierarchy looks like, and sorting by it loses nothing.

* `sortBySpecificity_perm` — sorting keeps the candidates, each as often as it is there.
* `isTrialOrder_sortBySpecificity` — no candidate comes after a less specific one, and those that
  are equally specific keep their order.
-/

namespace Multimethod

variable {h : Hierarchy}

/-- Comparing by a property is an order if the comparison of the property is one. -/
theorem transCmp_on {α β : Type} (cmp : β → β → Ordering) [Std.TransCmp cmp] (f : α → β) :
    Std.TransCmp fun a b => cmp (f a) (f b) where
  eq_swap {a b} := @Std.OrientedCmp.eq_swap β cmp _ (f a) (f b)
  isLE_trans {a b c} := @Std.TransCmp.isLE_trans β cmp _ (f a) (f b) (f c)

namespace Hierarchy

instance : Std.TransCmp SpecificityKey.order := by
  unfold SpecificityKey.order
  infer_instance

instance : Std.TransCmp h.specificityOrder := transCmp_on SpecificityKey.order h.specificityKey

end Hierarchy

namespace Candidate

instance : Std.TransCmp (order h) := by
  have hparams := transCmp_on (List.compareLex h.specificityOrder) params
  have hret := transCmp_on h.specificityOrder ret
  unfold order
  infer_instance

theorem insertOrdered_perm (c : Candidate) (cs : List Candidate) :
    (insertOrdered h c cs).Perm (c :: cs) := by
  induction cs with
  | nil => exact List.Perm.refl _
  | cons d rest ih =>
    unfold insertOrdered
    split
    · exact List.Perm.refl _
    · exact (ih.cons d).trans (List.Perm.swap c d rest)

theorem sortBySpecificity_perm (cs : List Candidate) : (sortBySpecificity h cs).Perm cs := by
  induction cs with
  | nil => exact List.Perm.refl _
  | cons c rest ih => exact (insertOrdered_perm c _).trans (ih.cons c)

theorem mem_sortBySpecificity {c : Candidate} {cs : List Candidate} :
    c ∈ sortBySpecificity h cs ↔ c ∈ cs :=
  (sortBySpecificity_perm cs).mem_iff

theorem insertOrdered_pairwise {c : Candidate} {cs : List Candidate}
    (hcs : cs.Pairwise fun d e => (d.order h e).isLE) :
    (insertOrdered h c cs).Pairwise fun d e => (d.order h e).isLE := by
  induction cs with
  | nil => exact List.pairwise_singleton _ _
  | cons d rest ih =>
    obtain ⟨hd, hrest⟩ := List.pairwise_cons.1 hcs
    unfold insertOrdered
    split
    · rename_i hle
      refine List.pairwise_cons.2 ⟨fun e he => ?_, hcs⟩
      rcases List.mem_cons.1 he with rfl | he
      · exact hle
      · exact Std.TransCmp.isLE_trans hle (hd e he)
    · rename_i hnle
      refine List.pairwise_cons.2 ⟨fun e he => ?_, ih hrest⟩
      rcases List.mem_cons.1 ((insertOrdered_perm c rest).mem_iff.1 he) with rfl | he
      · have hgt : e.order h d = .gt := by
          cases hord : e.order h d <;> simp_all
        rw [@Std.OrientedCmp.eq_swap _ (order h), hgt]
        rfl
      · exact hd e he

/-- **Sorted candidates stand in order of specificity.** -/
theorem sortBySpecificity_pairwise (cs : List Candidate) :
    (sortBySpecificity h cs).Pairwise fun d e => (d.order h e).isLE := by
  induction cs with
  | nil => exact List.Pairwise.nil
  | cons c rest ih => exact insertOrdered_pairwise ih

/-- Putting a candidate in its place does not move it past one that is equally specific. -/
theorem insertOrdered_filter (c e : Candidate) (cs : List Candidate) :
    (insertOrdered h c cs).filter (fun d => e.order h d = .eq) =
      (c :: cs).filter fun d => e.order h d = .eq := by
  induction cs with
  | nil => rfl
  | cons d rest ih =>
    unfold insertOrdered
    split
    · rfl
    · rename_i hnle
      rw [List.filter_cons, ih, List.filter_cons, List.filter_cons, List.filter_cons]
      by_cases hc : e.order h c = .eq <;> by_cases hd : e.order h d = .eq
      · -- both are as specific as `e`, and so `c` had its place before `d`
        have hcd : c.order h d = .eq :=
          Std.TransCmp.eq_trans (Std.OrientedCmp.eq_comm.1 hc) hd
        exact absurd (by rw [hcd]; rfl) hnle
      · simp [hc, hd]
      · simp [hc, hd]
      · simp [hc, hd]

/-- Candidates in the order of trial: no candidate comes after a less specific one, and those that
are equally specific stand in the order that they had. -/
structure IsTrialOrder (h : Hierarchy) (cs sorted : List Candidate) : Prop where
  perm : sorted.Perm cs
  ordered : sorted.Pairwise fun c d => (c.order h d).isLE
  stable : ∀ c : Candidate,
    sorted.filter (fun d => c.order h d = .eq) = cs.filter fun d => c.order h d = .eq

/-- **Sorting gives the order of trial.** -/
theorem isTrialOrder_sortBySpecificity (cs : List Candidate) :
    IsTrialOrder h cs (sortBySpecificity h cs) where
  perm := sortBySpecificity_perm cs
  ordered := sortBySpecificity_pairwise cs
  stable := by
    intro c
    induction cs with
    | nil => rfl
    | cons d rest ih =>
      show (insertOrdered h d (sortBySpecificity h rest)).filter _ = _
      rw [insertOrdered_filter, List.filter_cons, ih, List.filter_cons]

end Candidate

end Multimethod
