import Multimethod.Proofs.Lattice.Assignability

/-!
# Joins

The join of two types is the first type above the one that the other is assignable to. Both are
assignable to it. No smaller type has both below it if the types above come in an order that fits
assignability, which the search, going by the number of steps, does not always give; where no type has
more than one supertype it does, and the join is the least type that takes both.

* `mem_ancestors_iff` — the types above a type are those that it stands for.
* `join_cases` — what a join is.
* `isAssignable_join_right`, `standsFor_join_left` — both types belong to it.
* `pairwise_ancestors` — on a path each type stands for all that come after it.
* `join_minimal` — no common type is smaller.
* `join_bound_and_least` — the join is a bound, and on trees the least one.
-/

namespace Multimethod.Hierarchy

variable {h : Hierarchy} {a b c s t : Ty}

/-! ## The types above a type -/

theorem aboveAtMost_of_builtin (ht : ∀ id, t ≠ .host id) : h.AboveAtMost searchLimit t := by
  have htwo : {s | h.IsBelow t s} ⊆ {.any, .number} := fun s hs =>
    (eq_of_isBelow_builtin ht hs).imp id And.right
  refine (Set.encard_le_encard htwo).trans ((Set.encard_insert_le _ _).trans ?_)
  rw [Set.encard_singleton]
  exact Nat.cast_le.2 (show 1 + 1 ≤ searchLimit by decide)

theorem mem_primitiveAncestors_iff {r : Nat} (hr : t.rank? = some r) :
    s ∈ primitiveAncestors t r ↔ h.isAssignable t s := by
  cases t <;> cases hr <;> cases s <;>
    simp [primitiveAncestors, isAssignable, Ty.rank?, Ty.isNumeric]

theorem ancestors_of_rank? {r : Nat} (hr : t.rank? = some r) :
    h.ancestors t = primitiveAncestors t r := by
  rw [ancestors, hr]

theorem ancestors_of_rank?_none (hr : t.rank? = none) :
    h.ancestors t = if .any ∈ h.reachable t then h.reachable t else h.reachable t ++ [.any] := by
  rw [ancestors, hr]

theorem mem_ancestors_of_rank?_none (hr : t.rank? = none) :
    s ∈ h.ancestors t ↔ s = .any ∨ h.Reaches t s := by
  rw [ancestors_of_rank?_none hr, ← mem_reachable_iff]
  split
  · rename_i hany
    exact ⟨.inr, fun hs => hs.elim (fun heq => heq ▸ hany) id⟩
  · rw [List.mem_append, List.mem_singleton, or_comm]

theorem standsFor_of_mem_ancestors (hs : s ∈ h.ancestors t) : h.StandsFor t s := by
  cases hr : t.rank? with
  | some r =>
    rw [ancestors_of_rank? hr] at hs
    exact standsFor_of_isAssignable ((mem_primitiveAncestors_iff hr).1 hs)
  | none =>
    rcases (mem_ancestors_of_rank?_none hr).1 hs with rfl | hreached
    · exact .any t
    · exact .upward hreached

/-- **The types above a type are those that it stands for,** but for Null, which stands for types that
are not above it. -/
theorem mem_ancestors_iff (hreg : h.IsRegular) (hnull : t ≠ .null) :
    s ∈ h.ancestors t ↔ h.StandsFor t s := by
  refine ⟨standsFor_of_mem_ancestors, fun hstands => ?_⟩
  cases hr : t.rank? with
  | some r =>
    rw [ancestors_of_rank? hr]
    exact (mem_primitiveAncestors_iff hr).2 (isAssignable_of_standsFor hreg
      (aboveAtMost_of_builtin (ne_host_of_rank? hr)) hstands)
  | none =>
    refine (mem_ancestors_of_rank?_none hr).2 ?_
    exact (standsFor_iff_reaches (by rw [Ty.isPrimitive, hr]; rfl) hnull).1 hstands

theorem any_mem_ancestors (h : Hierarchy) (t : Ty) : .any ∈ h.ancestors t := by
  cases hr : t.rank? with
  | some r =>
    rw [ancestors_of_rank? hr]
    exact (mem_primitiveAncestors_iff (h := h) hr).2 (isAssignable_any h t)
  | none => exact (mem_ancestors_of_rank?_none hr).2 (.inl rfl)

/-! ## What a join is -/

/-- One of two types if the other is assignable to it, and else the first type above the one that the
other is assignable to. -/
theorem join_cases (h : Hierarchy) (a b : Ty) :
    h.isAssignable a b ∧ h.join a b = b ∨ h.isAssignable b a ∧ h.join a b = a ∨
      ¬ h.isAssignable b a ∧ ¬ h.isAssignable a b ∧
        (h.ancestors a).find? (h.isAssignable b) = some (h.join a b) := by
  unfold join
  split
  · rename_i heq
    exact .inl ⟨heq ▸ isAssignable_self h a, heq⟩
  split
  · rename_i hab
    exact .inl ⟨hab, rfl⟩
  split
  · rename_i hba
    exact .inr (.inl ⟨hba, rfl⟩)
  · rename_i hab hba
    obtain ⟨found, hfound⟩ : ∃ found, (h.ancestors a).find? (h.isAssignable b) = some found :=
      Option.isSome_iff_exists.1
        (List.find?_isSome.2 ⟨.any, any_mem_ancestors h a, isAssignable_any h b⟩)
    rw [hfound]
    exact .inr (.inr ⟨hba, hab, rfl⟩)

theorem isAssignable_join_right (h : Hierarchy) (a b : Ty) : h.isAssignable b (h.join a b) := by
  obtain ⟨_, hjoin⟩ | ⟨hba, hjoin⟩ | ⟨_, _, hfound⟩ := join_cases h a b
  · rw [hjoin]
    exact isAssignable_self h b
  · rwa [hjoin]
  · exact List.find?_some (p := h.isAssignable b) hfound

theorem standsFor_join_left (h : Hierarchy) (a b : Ty) : h.StandsFor a (h.join a b) := by
  obtain ⟨hab, hjoin⟩ | ⟨_, hjoin⟩ | ⟨_, _, hfound⟩ := join_cases h a b
  · rw [hjoin]
    exact standsFor_of_isAssignable hab
  · rw [hjoin]
    exact .upward .refl
  · exact standsFor_of_mem_ancestors (List.mem_of_find?_eq_some hfound)

/-- What is found first in a list comes before all else that could have been found. -/
theorem eq_or_rel_of_find? {α : Type} {R : α → α → Prop} {p : α → Bool} {xs : List α} {x y : α}
    (hpairs : xs.Pairwise R) (hfound : xs.find? p = some x) (hy : y ∈ xs) (hpy : p y) :
    y = x ∨ R x y := by
  obtain ⟨_, before, after, rfl, hbefore⟩ := List.find?_eq_some_iff_append.1 hfound
  rcases List.mem_append.1 hy with hin | hin
  · have := hbefore y hin
    rw [hpy] at this
    cases this
  · rcases List.mem_cons.1 hin with rfl | hin
    · exact .inl rfl
    · exact .inr ((List.pairwise_cons.1 (List.pairwise_append.1 hpairs).2.1).1 y hin)

/-! ## The order of the types above a type -/

/-- Among the types above `t`, nearest first, does none come after one that it is assignable to? -/
def ListsInOrder (h : Hierarchy) (t : Ty) : Prop :=
  (h.ancestors t).Pairwise fun s u => h.isAssignable u s → u = s

instance (h : Hierarchy) (t : Ty) : Decidable (h.ListsInOrder t) :=
  inferInstanceAs (Decidable ((h.ancestors t).Pairwise fun s u => h.isAssignable u s → u = s))

/-- Has each type that is reached from `t` at most one direct supertype? -/
def ClimbsOnePath (h : Hierarchy) (t : Ty) : Prop :=
  ∀ s, h.Reaches t s → (h.supertypes s).length ≤ 1

theorem ClimbsOnePath.of_above (hpath : h.ClimbsOnePath t) (hs : h.Above s t) : h.ClimbsOnePath s :=
  fun u hu => hpath u (.head hs hu)

/-- What is left of one type at most, if anything, is this type. -/
theorem eq_singleton_of_dropWhile {p : Ty → Bool} {queue rest : List Ty} (hone : queue.length ≤ 1)
    (hfirst : queue.dropWhile p = t :: rest) : queue = [t] ∧ rest = [] := by
  match queue, hone with
  | [], _ => cases hfirst
  | [u], _ =>
    rw [List.dropWhile_cons] at hfirst
    split at hfirst
    · cases hfirst
    · cases hfirst
      exact ⟨rfl, rfl⟩

/-- A search that never queues two types follows a path. -/
theorem isPath_walk {n : Nat} {seen queue : List Ty} (hone : queue.length ≤ 1)
    (hclimbs : ∀ u ∈ queue, h.ClimbsOnePath u) (hpath : h.IsPath (seen ++ queue)) :
    h.IsPath (h.walk n seen queue) := by
  induction n generalizing seen queue with
  | zero => exact hpath
  | succ n ih =>
    unfold walk
    split
    · exact (List.isChain_append.1 hpath).1
    · rename_i t rest hfirst
      obtain ⟨rfl, rfl⟩ := eq_singleton_of_dropWhile hone hfirst
      have ht : h.ClimbsOnePath t := hclimbs t (List.mem_singleton_self t)
      have hsupers : (h.supertypes t).length ≤ 1 := ht t .refl
      rw [List.nil_append]
      refine ih hsupers (fun u hu => ht.of_above hu) (List.isChain_append.2 ⟨hpath, ?_, ?_⟩)
      · match h.supertypes t, hsupers with
        | [], _ => exact List.isChain_nil
        | [s], _ => exact List.isChain_singleton s
      · intro u hu s hs
        rw [List.getLast?_concat, Option.mem_some_iff] at hu
        subst hu
        exact List.mem_of_mem_head? hs

theorem pairwise_of_isPath {path : List Ty} (hpath : h.IsPath path) : path.Pairwise h.IsBelow := by
  let _ : Trans h.IsBelow h.IsBelow h.IsBelow := ⟨Relation.TransGen.trans⟩
  exact List.isChain_iff_pairwise.1 (List.IsChain.imp (fun _ _ => Relation.TransGen.single) hpath)

theorem pairwise_primitiveAncestors {r : Nat} (hr : t.rank? = some r) :
    (primitiveAncestors t r).Pairwise fun s u => h.isAssignable s u := by
  cases t <;> cases hr <;> simp [primitiveAncestors, isAssignable, Ty.rank?, Ty.isNumeric]

/-- **On a path each type stands for all that come after it.** -/
theorem pairwise_ancestors (hpath : h.ClimbsOnePath t) :
    (h.ancestors t).Pairwise h.StandsFor := by
  cases hr : t.rank? with
  | some r =>
    rw [ancestors_of_rank? hr]
    exact (pairwise_primitiveAncestors hr).imp standsFor_of_isAssignable
  | none =>
    have hwalk : h.IsPath (h.reachable t) :=
      isPath_walk (Nat.le_refl _) (fun u hu => List.mem_singleton.1 hu ▸ hpath)
        (List.isChain_singleton t)
    have hpairs : (h.reachable t).Pairwise h.StandsFor :=
      (pairwise_of_isPath hwalk).imp fun hbelow => .upward hbelow.reaches
    rw [ancestors_of_rank?_none hr]
    split
    · exact hpairs
    · refine List.pairwise_append.2 ⟨hpairs, List.pairwise_singleton _ _, fun s _ u hu => ?_⟩
      rw [List.mem_singleton.1 hu]
      exact .any s

theorem listsInOrder_of_climbsOnePath (hreg : h.IsRegular) (hacyclic : h.IsAcyclic)
    (hpath : h.ClimbsOnePath t) : h.ListsInOrder t :=
  (pairwise_ancestors hpath).imp fun hstands hassign =>
    (standsFor_of_isAssignable hassign).antisymm hreg hacyclic hstands

theorem length_supertypes_of_builtin (ht : ∀ id, t ≠ .host id) : (h.supertypes t).length ≤ 1 := by
  cases t with
  | host id => exact absurd rfl (ht id)
  | any => exact Nat.zero_le 1
  | rest => exact Nat.zero_le 1
  | _ => exact Nat.le_refl 1

theorem climbsOnePath_of_builtin (ht : ∀ id, t ≠ .host id) : h.ClimbsOnePath t := by
  intro s hs
  rcases reaches_iff.1 hs with rfl | hbelow
  · exact length_supertypes_of_builtin ht
  · rcases eq_of_isBelow_builtin ht hbelow with rfl | ⟨_, rfl⟩
    · exact Nat.zero_le 1
    · exact Nat.le_refl 1

theorem climbsOnePath_of_length
    (hsingle : ∀ declared ∈ h.types, declared.supertypes.length ≤ 1) (t : Ty) :
    h.ClimbsOnePath t := by
  intro s _
  cases s with
  | host id =>
    unfold supertypes
    dsimp only
    split
    · rename_i hdeclared
      exact hsingle _ (List.mem_of_getElem? hdeclared)
    · exact Nat.le_refl 1
  | _ => exact length_supertypes_of_builtin fun _ => by rintro ⟨⟩

/-! ## No common type is smaller -/

/-- Null and a primitive type that is not numeric have only Any in common. -/
theorem eq_any_of_isAssignable_null (hb : b.isPrimitive) (hnumeric : ¬ b.isNumeric)
    (hnull : h.isAssignable .null c) (hbc : h.isAssignable b c) : c = .any := by
  have hcases : b = .bool ∨ b = .char := by
    cases b <;> first
      | exact .inl rfl
      | exact .inr rfl
      | exact absurd rfl hnumeric
      | cases hb
  rcases hcases with rfl | rfl <;> cases c <;> first
    | rfl
    | exact absurd hbc Bool.false_ne_true
    | exact absurd hnull Bool.false_ne_true

/-- **The join is a smallest type that takes both,** on a hierarchy without circles, unless the first
type is Null and the second numeric, if the types above the first, where it is a host type, are listed
in an order that fits assignability. -/
theorem join_minimal (hreg : h.IsRegular) (hacyclic : h.IsAcyclic)
    (horder : ∀ id, a = .host id → h.ListsInOrder a) (hnull : ¬ (a = .null ∧ b.isNumeric)) :
    ¬ ∃ c, c ≠ h.join a b ∧ h.isAssignable a c ∧ h.isAssignable b c ∧
      h.isAssignable c (h.join a b) := by
  rintro ⟨c, hne, hac, hbc, hcj⟩
  have hantisymm : ∀ {s t : Ty}, h.isAssignable s t → h.isAssignable t s → s = t := fun hst hts =>
    (standsFor_of_isAssignable hst).antisymm hreg hacyclic (standsFor_of_isAssignable hts)
  obtain ⟨_, hjoin⟩ | ⟨_, hjoin⟩ | ⟨_, hab, hfound⟩ := join_cases h a b
  · rw [hjoin] at hne hcj
    exact hne (hantisymm hcj hbc)
  · rw [hjoin] at hne hcj
    exact hne (hantisymm hcj hac)
  by_cases ha : a = .null
  · -- a primitive type that is not numeric has only Any in common with Null
    subst ha
    have hb : b.isPrimitive := by
      by_contra hb
      exact hab (isAssignable_null (by simpa using hb))
    have hany := eq_any_of_isAssignable_null hb (fun hnumeric => hnull ⟨rfl, hnumeric⟩) hac hbc
    rw [hany] at hcj hne
    exact hne (standsFor_of_isAssignable hcj).eq_any.symm
  · have hlisted : h.ListsInOrder a := by
      cases a with
      | host id => exact horder id rfl
      | _ =>
        exact listsInOrder_of_climbsOnePath hreg hacyclic
          (climbsOnePath_of_builtin fun _ => by rintro ⟨⟩)
    have hmem := (mem_ancestors_iff hreg ha).2 (standsFor_of_isAssignable hac)
    rcases eq_or_rel_of_find? hlisted hfound hmem hbc with heq | hafter
    · exact hne heq
    · exact hne (hafter hcj)

/-- A type below two unrelated ones, which it shares with no other type, and one that it does share. -/
theorem join_minimal_of_diamond :
    let h : Hierarchy := ⟨[⟨"Top", []⟩, ⟨"Left", [.host 0]⟩, ⟨"Right", [.host 0]⟩,
      ⟨"Both", [.host 1, .host 2]⟩, ⟨"Other", [.host 2]⟩]⟩
    h.IsRegular ∧ h.IsAcyclic ∧ h.ListsInOrder (.host 3) ∧ h.join (.host 3) (.host 4) = .host 2 ∧
      ¬ ∃ c, c ≠ h.join (.host 3) (.host 4) ∧ h.isAssignable (.host 3) c ∧
        h.isAssignable (.host 4) c ∧ h.isAssignable c (h.join (.host 3) (.host 4)) := by
  intro h
  have hreg : h.IsRegular := by decide
  have hacyclic : h.IsAcyclic := (pathsWithin_of_precedes (by decide)).isAcyclic
  have hlisted : h.ListsInOrder (.host 3) := by decide
  exact ⟨hreg, hacyclic, hlisted, by decide,
    join_minimal hreg hacyclic (fun _ _ => hlisted) (by rintro ⟨⟨⟩, _⟩)⟩

/-- Two types that are joined too high. `Low` declares `Top` before `Mid`, which lies below `Top`, so
that the search meets `Top` first; and above Null there is no type but Any, though Null stands for
Number as well. -/
theorem join_not_smallest :
    let h : Hierarchy := ⟨[⟨"Top", []⟩, ⟨"Mid", [.host 0]⟩, ⟨"Low", [.host 0, .host 1]⟩,
      ⟨"Other", [.host 1]⟩]⟩
    h.IsRegular ∧ h.IsAcyclic ∧
      (∃ c, c ≠ h.join (.host 2) (.host 3) ∧ h.isAssignable (.host 2) c ∧
        h.isAssignable (.host 3) c ∧ h.isAssignable c (h.join (.host 2) (.host 3))) ∧
      ∃ c, c ≠ h.join .null .int ∧ h.isAssignable .null c ∧ h.isAssignable .int c ∧
        h.isAssignable c (h.join .null .int) := by
  intro h
  have hacyclic : h.IsAcyclic := (pathsWithin_of_precedes (by decide)).isAcyclic
  exact ⟨by decide, hacyclic, ⟨.host 1, by decide⟩, ⟨.number, by decide⟩⟩

/-! ## Where it is the least type -/

/-- Where a type climbs one path, its joins are assignable to all that takes both types. -/
theorem isAssignable_join_of_climbsOnePath (hreg : h.IsRegular)
    (hfew : ∀ t, h.AboveAtMost searchLimit t) (hpath : h.ClimbsOnePath a) (ha : a ≠ .null)
    (hac : h.isAssignable a c) (hbc : h.isAssignable b c) : h.isAssignable (h.join a b) c := by
  obtain ⟨_, hjoin⟩ | ⟨_, hjoin⟩ | ⟨_, _, hfound⟩ := join_cases h a b
  · rwa [hjoin]
  · rwa [hjoin]
  · have hmem := (mem_ancestors_iff hreg ha).2 (standsFor_of_isAssignable hac)
    rcases eq_or_rel_of_find? (pairwise_ancestors hpath) hfound hmem hbc with heq | hstands
    · exact heq ▸ isAssignable_self h c
    · exact isAssignable_of_standsFor hreg (hfew _) hstands

/-- **Joins are bounds, and on trees the least ones.** On a hierarchy where at most 256 types lie above
any one, circles included, two types are assignable to their join. If there are no circles and no host
type declares more than one supertype, the join of types other than Null is the same either way round
and assignable to every type that both are assignable to. -/
theorem join_bound_and_least (hreg : h.IsRegular) (hfew : ∀ t, h.AboveAtMost 256 t) :
    (∀ a b : Ty, h.isAssignable a (h.join a b) ∧ h.isAssignable b (h.join a b)) ∧
    (h.IsAcyclic → (∀ declared ∈ h.types, declared.supertypes.length ≤ 1) →
      ∀ a b : Ty, a ≠ .null → b ≠ .null → h.join a b = h.join b a ∧
        ∀ c, h.isAssignable a c → h.isAssignable b c → h.isAssignable (h.join a b) c) := by
  have hbound : ∀ a b : Ty, h.isAssignable a (h.join a b) ∧ h.isAssignable b (h.join a b) :=
    fun a b => ⟨isAssignable_of_standsFor hreg (hfew a) (standsFor_join_left h a b),
      isAssignable_join_right h a b⟩
  refine ⟨hbound, fun hacyclic hsingle a b ha hb => ?_⟩
  have hleast : ∀ {a b c : Ty}, a ≠ .null → h.isAssignable a c → h.isAssignable b c →
      h.isAssignable (h.join a b) c := fun {a _ _} ha =>
    isAssignable_join_of_climbsOnePath hreg hfew (climbsOnePath_of_length hsingle a) ha
  refine ⟨?_, fun c => hleast ha⟩
  have hab := hleast ha (hbound b a).2 (hbound b a).1
  have hba := hleast hb (hbound a b).2 (hbound a b).1
  exact (standsFor_of_isAssignable hab).antisymm hreg hacyclic (standsFor_of_isAssignable hba)

/-- Two shapes, and a type of numbers beside the numeric types. -/
theorem join_bound_and_least_of_shapes :
    let h : Hierarchy := ⟨[⟨"Shape", []⟩, ⟨"Circle", [.host 0]⟩, ⟨"Square", [.host 0]⟩,
      ⟨"Ratio", [.number]⟩]⟩
    h.IsRegular ∧ (∀ t, h.AboveAtMost 256 t) ∧ h.IsAcyclic ∧
      (∀ declared ∈ h.types, declared.supertypes.length ≤ 1) ∧
      h.isAssignable (.host 1) (h.join (.host 1) (.host 2)) ∧
      h.join (.host 1) (.host 2) = h.join (.host 2) (.host 1) ∧
      h.isAssignable (h.join (.host 1) (.host 2)) (.host 0) ∧
      h.join .int (.host 3) = h.join (.host 3) .int ∧
      h.isAssignable (h.join .int (.host 3)) .number := by
  intro h
  have hreg : h.IsRegular := by decide
  have hfew : ∀ t, h.AboveAtMost 256 t := fun _ => aboveAtMost_of_length (by decide)
  have hacyclic : h.IsAcyclic := (pathsWithin_of_precedes (by decide)).isAcyclic
  have hsingle : ∀ declared ∈ h.types, declared.supertypes.length ≤ 1 := by decide
  obtain ⟨hbound, hleast⟩ := join_bound_and_least hreg hfew
  obtain ⟨hshapes, hshape⟩ := hleast hacyclic hsingle (.host 1) (.host 2) (by decide) (by decide)
  obtain ⟨hnumbers, hnumber⟩ := hleast hacyclic hsingle .int (.host 3) (by decide) (by decide)
  exact ⟨hreg, hfew, hacyclic, hsingle, (hbound _ _).1, hshapes,
    hshape _ (by decide) (by decide), hnumbers, hnumber _ (by decide) (by decide)⟩

end Multimethod.Hierarchy
