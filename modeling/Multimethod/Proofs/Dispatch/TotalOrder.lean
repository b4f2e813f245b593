import Multimethod.Proofs.Dispatch.DeclarationOrder
import Multimethod.Proofs.Lattice.Specificity

/-!
# Specificity is a total order

Types are ordered by tier, depth, name and number. On any hierarchy this is a strict total order, also
where circles cut depth off and names are taken twice, and so the order of candidates leaves sorting no
choice. Where paths of supertypes are short, it refines assignability.

* `Candidate.order_eq_eq_iff` — candidates that are equally specific differ in no type.
* `Candidate.eq_sortBySpecificity_iff` — the sorted list is the only one that stands in order.
* `Candidate.specificity_is_total` — types and candidates are totally ordered, on any hierarchy.
* `Hierarchy.specificity_refines_assignability` — a type precedes all others that it is assignable to.
-/

namespace Multimethod

namespace Candidate

variable {h : Hierarchy}

/-- **Candidates that are equally specific differ in no type,** neither of a parameter nor of what they
return. -/
theorem order_eq_eq_iff {c d : Candidate} :
    c.order h d = .eq ↔ c.params = d.params ∧ c.ret = d.ret := by
  have hparams : List.compareLex h.specificityOrder c.params d.params = .eq ↔ c.params = d.params :=
    Std.LawfulEqCmp.compare_eq_iff_eq
  have hret : h.specificityOrder c.ret d.ret = .eq ↔ c.ret = d.ret := Std.LawfulEqCmp.compare_eq_iff_eq
  simp only [order, compareLex, Ordering.then_eq_eq, compareOn, Nat.compare_eq_eq, hparams, hret]
  -- with the parameters the arities are the same
  exact ⟨And.right, fun heq => ⟨congrArg List.length heq.1, heq⟩⟩

/-- **The sorted list is the only one that stands in order,** if the signatures are distinct and all
candidates are variadic or none is. -/
theorem eq_sortBySpecificity_iff {cs : List Candidate}
    (hdistinct : cs.Pairwise fun c d => ¬ c.sameSignature d) {isVariadic : Bool}
    (halike : ∀ c ∈ cs, c.isVariadic = isVariadic) {sorted : List Candidate} :
    sorted = sortBySpecificity h cs ↔
      sorted.Perm cs ∧ sorted.Pairwise fun c d => (c.order h d).isLE := by
  constructor
  · rintro rfl
    exact ⟨sortBySpecificity_perm cs, sortBySpecificity_pairwise cs⟩
  · rintro ⟨hperm, hordered⟩
    exact eq_of_ordered hdistinct halike hperm (sortBySpecificity_perm cs) hordered
      (sortBySpecificity_pairwise cs)

/-- **Specificity is total.** On any hierarchy the order of types is strict and total: no two types are
equally specific, of two types one precedes the other, and what precedes is passed on. The order of
candidates, of whatever arities, is a total preorder, in which those that are equally specific have the
same parameters and the same return type. So candidates of distinct signatures, all variadic or none,
stand in order in one way, and sorting finds it. -/
theorem specificity_is_total (h : Hierarchy) :
    (∀ s t, h.specificityOrder s t = .eq ↔ s = t) ∧
    (∀ s t, h.specificityOrder t s = (h.specificityOrder s t).swap) ∧
    (∀ s t u, h.specificityOrder s t = .lt → h.specificityOrder t u = .lt →
      h.specificityOrder s u = .lt) ∧
    (∀ c d : Candidate, d.order h c = (c.order h d).swap) ∧
    (∀ c d e : Candidate, (c.order h d).isLE → (d.order h e).isLE → (c.order h e).isLE) ∧
    (∀ c d : Candidate, c.order h d = .eq ↔ c.params = d.params ∧ c.ret = d.ret) ∧
    ∀ (cs : List Candidate) (isVariadic : Bool), (cs.Pairwise fun c d => ¬ c.sameSignature d) →
      (∀ c ∈ cs, c.isVariadic = isVariadic) → ∀ sorted : List Candidate,
        sorted = sortBySpecificity h cs ↔
          sorted.Perm cs ∧ sorted.Pairwise fun c d => (c.order h d).isLE := by
  refine ⟨fun s t => ?_, fun s t => ?_, fun s t u hst htu => ?_, fun c d => ?_, fun c d e hcd hde => ?_,
    fun c d => order_eq_eq_iff, fun cs isVariadic hdistinct halike sorted => ?_⟩
  · exact Std.LawfulEqCmp.compare_eq_iff_eq
  · exact Std.OrientedCmp.eq_swap
  · exact Std.TransCmp.lt_trans hst htu
  · exact Std.OrientedCmp.eq_swap
  · exact Std.TransCmp.isLE_trans hcd hde
  · exact eq_sortBySpecificity_iff hdistinct halike

/-- Two host types above each other, one called as a builtin type is and the other as an undeclared host
type shows itself: candidates for all four are told apart, whatever order they are found in. -/
theorem specificity_is_total_of_names :
    let h : Hierarchy := ⟨[⟨"Any", [.host 1]⟩, ⟨"Host#2", [.host 0]⟩]⟩
    let f (param : Ty) : Candidate :=
      { owner := .host 0, index := 0, lookup := ⟨"f", .method, .any, false, none⟩, key := "f",
        kind := .method, origin := .static, params := [param], ret := .any, isVariadic := false }
    let cs := [f .any, f (.host 2), f (.host 1), f (.host 0)]
    (cs.Pairwise fun c d => ¬ c.sameSignature d) ∧ (∀ c ∈ cs, c.isVariadic = false) ∧
      h.typeName (.host 0) = h.typeName .any ∧ h.typeName (.host 1) = h.typeName (.host 2) ∧
      ∀ sorted : List Candidate, sorted = [f (.host 0), f (.host 1), f (.host 2), f .any] ↔
        sorted.Perm cs ∧ sorted.Pairwise fun c d => (c.order h d).isLE := by
  intro h f cs
  have hdistinct : cs.Pairwise fun c d => ¬ c.sameSignature d := by decide
  have halike : ∀ c ∈ cs, c.isVariadic = false := by decide
  have hsorted : sortBySpecificity h cs = [f (.host 0), f (.host 1), f (.host 2), f .any] := by
    decide +kernel
  obtain ⟨-, -, -, -, -, -, hunique⟩ := specificity_is_total h
  exact ⟨hdistinct, halike, rfl, by decide +kernel, hsorted ▸ hunique cs false hdistinct halike⟩

end Candidate

namespace Hierarchy

variable {h : Hierarchy} {s t : Ty}

/-- **Specificity refines assignability.** Let host types be declared below types that are open to it, with
paths of supertypes of at most 64 steps. Then a type other than Rest precedes every other type that it is
assignable to, and so that type follows it and is not assignable to it. -/
theorem specificity_refines_assignability (hregular : h.IsRegular) (hpaths : h.PathsWithin 64)
    (hne : s ≠ t) (hs : s ≠ .rest) (ht : t ≠ .rest) (hassign : h.isAssignable s t) :
    h.specificityOrder s t = .lt ∧ h.specificityOrder t s = .gt ∧ h.isAssignable t s = false := by
  have hlt : h.specificityOrder s t = .lt :=
    specificityOrder_lt_of_isAssignable hregular hpaths hne hs hassign
  have hgt : h.specificityOrder t s = .gt := Std.OrientedCmp.gt_of_lt hlt
  refine ⟨hlt, hgt, Bool.eq_false_iff.2 fun hback => ?_⟩
  rw [specificityOrder_lt_of_isAssignable hregular hpaths hne.symm ht hback] at hgt
  cases hgt

/-- A type below another one, and by a shorter path below what is above that one: only its longest path makes
it the deeper of the two. Null precedes host types too. -/
theorem specificity_refines_assignability_of_shortcut :
    let h : Hierarchy := ⟨[⟨"Ratio", [.number]⟩, ⟨"Exact", [.number, .host 0]⟩]⟩
    h.IsRegular ∧ h.PathsWithin 64 ∧
      h.isAssignable (.host 1) (.host 0) ∧ h.specificityOrder (.host 1) (.host 0) = .lt ∧
      h.isAssignable .null (.host 1) ∧ h.specificityOrder .null (.host 1) = .lt ∧
      h.isAssignable .int .number ∧ h.isAssignable .number .int = false := by
  intro h
  have hregular : h.IsRegular := by decide
  have hpaths : h.PathsWithin 64 := (pathsWithin_of_precedes (by decide)).mono (by decide)
  have hbelow : h.isAssignable (.host 1) (.host 0) := by decide +kernel
  have hnull : h.isAssignable .null (.host 1) := by decide
  have hint : h.isAssignable .int .number := by decide
  exact ⟨hregular, hpaths,
    hbelow, (specificity_refines_assignability hregular hpaths (by decide) (by decide) (by decide) hbelow).1,
    hnull, (specificity_refines_assignability hregular hpaths (by decide) (by decide) (by decide) hnull).1,
    hint, (specificity_refines_assignability hregular hpaths (by decide) (by decide) (by decide) hint).2.2⟩

end Hierarchy

end Multimethod
