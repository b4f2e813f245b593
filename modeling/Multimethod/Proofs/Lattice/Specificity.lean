import Mathlib.Data.List.Basic
import Mathlib.Logic.Relation
import Multimethod.Lattice.Order
import Multimethod.Proofs.Dispatch.TrialOrder
import Multimethod.Proofs.Lattice.Paths

/-!
# Specificity extends assignability

The order of specificity goes by depth, the length of the longest path up to Any. Where paths are
short enough to count in full, a type is deeper than every type above it, and so it comes first.

* `depth_lt_of_above` — a type is deeper than the types right above it.
* `specificityOrder_lt_of_isBelow` — a type precedes every type that lies above it.
* `specificityOrder_lt_of_isAssignable` — a type precedes every other one that it is assignable to.
* `Candidate.order_lt_of_params` — of two candidates of one arity, the one with the more specific type
  where they first differ precedes.
-/

namespace Multimethod

/-- May host types be declared below the type? -/
def Ty.isOpen : Ty → Bool
  | .any | .number | .text | .symbol | .list | .procedure | .host _ => true
  | _ => false

namespace Hierarchy

/-- Host types have no supertypes but types that others may be declared below. -/
def IsRegular (h : Hierarchy) : Prop := ∀ declared ∈ h.types, ∀ s ∈ declared.supertypes, s.isOpen

instance (h : Hierarchy) : Decidable h.IsRegular :=
  inferInstanceAs (Decidable (∀ declared ∈ h.types, ∀ s ∈ declared.supertypes, s.isOpen))

/-- Does some path of one step or more lead from `t` up to `s`? -/
def IsBelow (h : Hierarchy) (t s : Ty) : Prop := Relation.TransGen (fun t s => h.Above s t) t s

variable {h : Hierarchy} {s t : Ty} {n m : Nat}

/-! ## Depth -/

theorem foldl_max_le_iff {xs : List Nat} {a b : Nat} :
    xs.foldl max a ≤ b ↔ a ≤ b ∧ ∀ x ∈ xs, x ≤ b := by
  induction xs generalizing a with
  | nil => simp
  | cons x rest ih => rw [List.foldl_cons, ih, Nat.max_le, List.forall_mem_cons, and_assoc]

/-- What is right above an undeclared type, or one that declares nothing, is Any. -/
theorem isOpen_of_above (hreg : h.IsRegular) (hs : h.Above s t) : s.isOpen := by
  unfold Above supertypes at hs
  split at hs
  · cases hs
  · cases hs
  · rw [List.mem_singleton.1 hs]; rfl
  · rw [List.mem_singleton.1 hs]; rfl
  · rw [List.mem_singleton.1 hs]; rfl
  · split at hs
    · rename_i name first more hdeclared
      exact hreg _ (List.mem_of_getElem? hdeclared) s hs
    · rw [List.mem_singleton.1 hs]; rfl
  · rw [List.mem_singleton.1 hs]; rfl

theorem depth_succ (ht : t ≠ .any) :
    h.depth (n + 1) t = ((h.supertypes t).map fun s => 1 + h.depth n s).foldl max 0 := by
  rw [depth, if_neg ht]

theorem ne_any_of_above (hs : h.Above s t) : t ≠ .any := by
  rintro rfl
  cases hs

theorem depth_le (n : Nat) (t : Ty) : h.depth n t ≤ n := by
  induction n generalizing t with
  | zero => exact Nat.le_refl _
  | succ n ih =>
    unfold depth
    split
    · exact Nat.zero_le _
    · refine foldl_max_le_iff.2 ⟨Nat.zero_le _, fun x hx => ?_⟩
      obtain ⟨s, _, rfl⟩ := List.mem_map.1 hx
      have := ih s
      omega

/-- Where all paths from a type are counted in full, counting further changes nothing. -/
theorem depth_eq_of_within (ht : h.Within n t) (hle : n ≤ m) : h.depth m t = h.depth n t := by
  induction n generalizing m t with
  | zero =>
    have hnone : h.supertypes t = [] := ht
    cases m with
    | zero => rfl
    | succ m =>
      unfold depth
      rw [hnone]
      split <;> rfl
  | succ n ih =>
    obtain ⟨m, rfl⟩ : ∃ k, m = k + 1 := ⟨m - 1, by omega⟩
    have hmap : (h.supertypes t).map (fun s => 1 + h.depth m s) =
        (h.supertypes t).map fun s => 1 + h.depth n s := by
      refine List.map_congr_left fun s hs => ?_
      rw [ih (ht s hs) (by omega)]
    unfold depth
    rw [hmap]

/-- **A type is deeper than the types right above it.** -/
theorem depth_lt_of_above (ht : h.Within n t) (hs : h.Above s t) : h.depth n s < h.depth n t := by
  cases n with
  | zero =>
    rw [Above, show h.supertypes t = [] from ht] at hs
    cases hs
  | succ n =>
    rw [depth_eq_of_within (ht s hs) (Nat.le_succ n), depth_succ (ne_any_of_above hs)]
    have hall := (foldl_max_le_iff.1 (Nat.le_refl
      (((h.supertypes t).map fun s => 1 + h.depth n s).foldl max 0))).2
    have := hall (1 + h.depth n s) (List.mem_map.2 ⟨s, hs, rfl⟩)
    omega

theorem depth_lt_of_isBelow (hpaths : h.PathsWithin n) (hbelow : h.IsBelow t s) :
    h.depth n s < h.depth n t := by
  induction hbelow with
  | single hs => exact depth_lt_of_above (hpaths.within t) hs
  | tail _ hs ih => exact (depth_lt_of_above (hpaths.within _) hs).trans ih

theorem depth_pos (ht : t ≠ .any) (hrest : t ≠ .rest) : 0 < h.depth (n + 1) t := by
  obtain ⟨s, hs⟩ : ∃ s, h.Above s t := by
    refine List.exists_mem_of_ne_nil _ ?_
    unfold supertypes
    split
    · exact absurd rfl ht
    · exact absurd rfl hrest
    · simp
    · simp
    · simp
    · split <;> simp
    · simp
  have hall := (foldl_max_le_iff.1 (Nat.le_refl
    (((h.supertypes t).map fun s => 1 + h.depth n s).foldl max 0))).2
  have := hall (1 + h.depth n s) (List.mem_map.2 ⟨s, hs, rfl⟩)
  rw [depth_succ ht]
  omega

/-! ## Searching upward -/

theorem mem_walk {seen queue : List Ty} (hmem : s ∈ h.walk n seen queue) :
    s ∈ seen ∨ ∃ t ∈ queue, t = s ∨ h.IsBelow t s := by
  induction n generalizing seen queue with
  | zero =>
    rcases List.mem_append.1 hmem with hseen | hqueue
    · exact .inl hseen
    · exact .inr ⟨s, hqueue, .inl rfl⟩
  | succ n ih =>
    unfold walk at hmem
    split at hmem
    · exact .inl hmem
    · rename_i t rest hdrop
      have hsub : ∀ u ∈ t :: rest, u ∈ queue := by
        intro u hu
        rw [← hdrop] at hu
        exact (List.dropWhile_sublist _).mem hu
      rcases ih hmem with hseen | ⟨u, hu, hpath⟩
      · rcases List.mem_append.1 hseen with hseen | hopened
        · exact .inl hseen
        · rw [List.mem_singleton.1 hopened]
          exact .inr ⟨t, hsub t List.mem_cons_self, .inl rfl⟩
      · rcases List.mem_append.1 hu with hu | hu
        · exact .inr ⟨u, hsub u (List.mem_cons_of_mem t hu), hpath⟩
        · -- `u` was queued when `t` was opened
          refine .inr ⟨t, hsub t List.mem_cons_self, .inr ?_⟩
          rcases hpath with rfl | hpath
          · exact .single hu
          · exact .head hu hpath

theorem isBelow_of_isAbove (habove : h.isAbove t s) (hne : t ≠ s) : h.IsBelow t s := by
  have hmem : s ∈ h.walk searchLimit [] [t] := of_decide_eq_true habove
  rcases mem_walk hmem with hseen | ⟨u, hu, hpath⟩
  · cases hseen
  · rw [List.mem_singleton.1 hu] at hpath
    exact hpath.resolve_left hne

/-! ## Specificity -/

theorem SpecificityKey.order_eq_lt_iff {k l : SpecificityKey} : k.order l = .lt ↔
    k.tier < l.tier ∨ k.tier = l.tier ∧ (k.place < l.place ∨
      k.place = l.place ∧ compareLex (compareOn name) (compareOn tie) k l = .lt) := by
  simp only [order, compareLex, Ordering.then_eq_lt, compareOn, Nat.compare_eq_lt,
    Nat.compare_eq_eq]

/-- What the order goes by first, for types that are neither primitive nor Null. -/
theorem specificityKey_of_isOpen (ht : t.isOpen) :
    (h.specificityKey t).tier = 1 ∧
      (h.specificityKey t).place = 1 + (depthLimit - h.depth depthLimit t) := by
  cases t <;> first | exact ⟨rfl, rfl⟩ | cases ht

/-- Primitive types go by rank, before all others. -/
theorem specificityKey_of_rank? {r : Nat} (hr : t.rank? = some r) :
    (h.specificityKey t).tier = 0 ∧ (h.specificityKey t).place = r := by
  cases t <;> cases hr <;> exact ⟨rfl, rfl⟩

/-- Types that are not primitive go by depth, but Null comes first. -/
theorem specificityKey_of_rank?_none (hr : t.rank? = none) :
    (h.specificityKey t).tier = 1 ∧ (t = .null ∧ (h.specificityKey t).place = 0 ∨
      (h.specificityKey t).place = 1 + (depthLimit - h.depth depthLimit t)) := by
  cases t <;> cases hr <;> first | exact ⟨rfl, .inr rfl⟩ | exact ⟨rfl, .inl ⟨rfl, rfl⟩⟩

/-- A type comes before a shallower one that is not primitive. -/
theorem specificityOrder_lt_of_depth_lt (hs : s.isOpen)
    (hdepth : h.depth depthLimit s < h.depth depthLimit t) : h.specificityOrder t s = .lt := by
  obtain ⟨htier, hplace⟩ := specificityKey_of_isOpen (h := h) hs
  have hle := h.depth_le depthLimit t
  refine SpecificityKey.order_eq_lt_iff.2 ?_
  cases hr : t.rank? with
  | some r =>
    obtain ⟨ht, _⟩ := specificityKey_of_rank? (h := h) hr
    omega
  | none =>
    obtain ⟨ht, ⟨_, hnull⟩ | hdeep⟩ := specificityKey_of_rank?_none (h := h) hr <;> omega

/-- **A type precedes every type that lies above it.** -/
theorem specificityOrder_lt_of_isBelow (hreg : h.IsRegular) (hpaths : h.PathsWithin depthLimit)
    (hbelow : h.IsBelow t s) : h.specificityOrder t s = .lt := by
  obtain ⟨u, _, hs⟩ := Relation.TransGen.tail'_iff.1 hbelow
  exact specificityOrder_lt_of_depth_lt (isOpen_of_above hreg hs)
    (depth_lt_of_isBelow hpaths hbelow)

theorem specificityOrder_any (ht : t ≠ .any) (hrest : t ≠ .rest) :
    h.specificityOrder t .any = .lt :=
  specificityOrder_lt_of_depth_lt rfl (depth_pos ht hrest)

theorem rank?_injective {r : Nat} (ht : t.rank? = some r) (hs : s.rank? = some r) : t = s := by
  cases t <;> cases ht <;> cases s <;> first | rfl | cases hs

theorem specificityOrder_null (hs : s ≠ .null) (hr : s.rank? = none) :
    h.specificityOrder .null s = .lt := by
  refine SpecificityKey.order_eq_lt_iff.2 (.inr ?_)
  obtain ⟨htier, ⟨hnull, _⟩ | hplace⟩ := specificityKey_of_rank?_none (h := h) hr
  · exact absurd hnull hs
  · have hnull : (h.specificityKey .null).tier = 1 ∧ (h.specificityKey .null).place = 0 := ⟨rfl, rfl⟩
    omega

/-- **A type precedes every other one that it is assignable to,** unless it is Rest, which stands for
no values. -/
theorem specificityOrder_lt_of_isAssignable (hreg : h.IsRegular)
    (hpaths : h.PathsWithin depthLimit) (hne : t ≠ s) (hrest : t ≠ .rest)
    (hassign : h.isAssignable t s) : h.specificityOrder t s = .lt := by
  unfold isAssignable at hassign
  split at hassign
  · rename_i heq
    obtain rfl := heq.resolve_left hne
    exact specificityOrder_any hne hrest
  split at hassign
  · rename_i hnull
    subst hnull
    exact specificityOrder_null hne.symm (by simpa [Ty.isPrimitive] using hassign)
  split at hassign
  · -- a primitive type widens upward in rank
    rename_i r q hr hq
    have hranks : r ≠ q := fun heq => hne (rank?_injective hr (heq ▸ hq))
    have hle : r ≤ q := by
      simp only [Bool.and_eq_true, decide_eq_true_eq] at hassign
      exact hassign.2
    obtain ⟨ht, htplace⟩ := specificityKey_of_rank? (h := h) hr
    obtain ⟨hs, hsplace⟩ := specificityKey_of_rank? (h := h) hq
    refine SpecificityKey.order_eq_lt_iff.2 (.inr ?_)
    omega
  · rename_i r hr hq
    obtain ⟨ht, _⟩ := specificityKey_of_rank? (h := h) hr
    obtain ⟨hs, _⟩ := specificityKey_of_rank?_none (h := h) hq
    refine SpecificityKey.order_eq_lt_iff.2 (.inl ?_)
    omega
  · cases hassign
  · exact specificityOrder_lt_of_isBelow hreg hpaths (isBelow_of_isAbove hassign hne)

/-- Rest is assignable to nothing but itself and Any. -/
theorem eq_of_isAssignable_rest (hassign : h.isAssignable .rest s) (hany : s ≠ .any) : .rest = s := by
  unfold isAssignable at hassign
  split at hassign
  · rename_i heq
    exact heq.resolve_right hany
  split at hassign
  · rename_i hnull
    cases hnull
  split at hassign
  · rename_i hr _
    cases hr
  · rename_i hr _
    cases hr
  · cases hassign
  · by_contra hne
    obtain ⟨u, hu, _⟩ := Relation.TransGen.head'_iff.1 (isBelow_of_isAbove hassign hne)
    cases hu

end Hierarchy

/-! ## Candidates -/

namespace Candidate

variable {h : Hierarchy} {c d : Candidate}

theorem compareLex_append_cons (front : List Ty) {xs ys : List Ty} {x y : Ty}
    (hxy : h.specificityOrder x y = .lt) :
    List.compareLex h.specificityOrder (front ++ x :: xs) (front ++ y :: ys) = .lt := by
  induction front with
  | nil => rw [List.nil_append, List.nil_append, List.compareLex_cons_cons, hxy]; rfl
  | cons z front ih =>
    rw [List.cons_append, List.cons_append, List.compareLex_cons_cons, ih,
      @Std.ReflCmp.compare_self _ h.specificityOrder]
    rfl

/-- **The first parameter that differs decides** which of two candidates of one arity precedes. -/
theorem order_lt_of_params (front : List Ty) {xs ys : List Ty} {x y : Ty} (harity : c.arity = d.arity)
    (hc : c.params = front ++ x :: xs) (hd : d.params = front ++ y :: ys)
    (hxy : h.specificityOrder x y = .lt) : c.order h d = .lt := by
  have hparams : List.compareLex h.specificityOrder c.params d.params = .lt := by
    rw [hc, hd]
    exact compareLex_append_cons front hxy
  simp only [order, compareLex, Ordering.then_eq_lt, compareOn, Nat.compare_eq_eq, hparams, true_or,
    and_true, harity, or_true]

end Candidate

end Multimethod
