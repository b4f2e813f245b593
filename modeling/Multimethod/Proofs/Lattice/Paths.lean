import Mathlib.Data.List.Chain
import Multimethod.Lattice.Hierarchy

/-!
# Paths of supertypes

A path leads from a type to one of its direct supertypes, and on from there. A bound on the length
of all paths rules out circles, so that what is said of a type may rest on its supertypes.

* `PathsWithin` — no path has more than so many steps.
* `Within` — the same of the paths from one type, by recursion.
* `PathsWithin.wellFounded` — going upward comes to an end.
* `PathsWithin.of_rank` — ranks that fall on the way up bound the paths.
* `pathsWithin_of_precedes` — so does declaring host types after those above them.
-/

namespace Multimethod.Hierarchy

/-- Is `s` a direct supertype of `t`? -/
def Above (h : Hierarchy) (s t : Ty) : Prop := s ∈ h.supertypes t

/-- Is every type of the list but the first a direct supertype of the one before it? -/
def IsPath (h : Hierarchy) (path : List Ty) : Prop := path.IsChain fun t s => h.Above s t

/-- No path of supertypes has more than `n` steps. -/
def PathsWithin (h : Hierarchy) (n : Nat) : Prop := ∀ path, h.IsPath path → path.length ≤ n + 1

/-- No path from the type upward has more than `n` steps. -/
def Within (h : Hierarchy) : Nat → Ty → Prop
  | 0, t => h.supertypes t = []
  | n + 1, t => ∀ s, h.Above s t → h.Within n s

variable {h : Hierarchy}

theorem IsPath.cons {s t : Ty} {rest : List Ty} (hs : h.Above s t) (hpath : h.IsPath (s :: rest)) :
    h.IsPath (t :: s :: rest) :=
  List.isChain_cons_cons.2 ⟨hs, hpath⟩

theorem within_of_length_le : ∀ (n : Nat) (t : Ty),
    (∀ rest, h.IsPath (t :: rest) → (t :: rest).length ≤ n + 1) → h.Within n t
  | 0, t, hpaths => by
    refine List.eq_nil_iff_forall_not_mem.2 fun s hs => ?_
    have hlength := hpaths [s] (IsPath.cons hs (List.isChain_singleton s))
    simp at hlength
  | n + 1, t, hpaths => by
    intro s hs
    refine within_of_length_le n s fun rest hpath => ?_
    have hlength := hpaths (s :: rest) (hpath.cons hs)
    simp only [List.length_cons] at hlength ⊢
    omega

theorem Within.acc : ∀ {n : Nat} {t : Ty}, h.Within n t → Acc h.Above t
  | 0, t, hw => ⟨t, fun s hs => by
      rw [Above, show h.supertypes t = [] from hw] at hs
      cases hs⟩
  | _ + 1, t, hw => ⟨t, fun s hs => (hw s hs).acc⟩

namespace PathsWithin

variable {n : Nat}

theorem within (hpaths : h.PathsWithin n) (t : Ty) : h.Within n t :=
  within_of_length_le n t fun rest => hpaths (t :: rest)

theorem wellFounded (hpaths : h.PathsWithin n) : WellFounded h.Above :=
  ⟨fun t => (hpaths.within t).acc⟩

theorem of_rank (rank : Ty → Nat) (hrank : ∀ s t, h.Above s t → rank s < rank t)
    (hle : ∀ t, rank t ≤ n) : h.PathsWithin n := by
  have hfrom : ∀ (rest : List Ty) (t : Ty), h.IsPath (t :: rest) → rest.length ≤ rank t := by
    intro rest
    induction rest with
    | nil => intro t _; exact Nat.zero_le _
    | cons s rest ih =>
      intro t hpath
      obtain ⟨hs, hrest⟩ := List.isChain_cons_cons.1 hpath
      have hlt := hrank s t hs
      have hlength := ih s hrest
      rw [List.length_cons]
      omega
  intro path hpath
  cases path with
  | nil => exact Nat.zero_le _
  | cons t rest =>
    have hlength := hfrom rest t hpath
    have := hle t
    rw [List.length_cons]
    omega

theorem mono {m : Nat} (hpaths : h.PathsWithin n) (hle : n ≤ m) : h.PathsWithin m := by
  intro path hpath
  have := hpaths path hpath
  omega

end PathsWithin

/-! ## Host types declared after those above them -/

/-- Is the type a builtin one, or a host type of a smaller number? -/
def precedes (id : Nat) : Ty → Bool
  | .host n => n < id
  | _ => true

/-- How far below Any a type can be, if host types are declared after those above them. -/
def declaredRank (h : Hierarchy) : Ty → Nat
  | .any | .rest => 0
  | .int | .long | .double => 2
  | .host id => if id < h.types.length then id + 3 else 1
  | _ => 1

theorem declaredRank_lt_of_precedes {s : Ty} {id : Nat} (hs : precedes id s) :
    h.declaredRank s < id + 3 := by
  cases s with
  | host n =>
    simp only [precedes, decide_eq_true_eq] at hs
    simp only [declaredRank]
    split <;> omega
  | _ => simp only [declaredRank]; omega

theorem pathsWithin_of_declaredRank
    (hrank : ∀ p ∈ h.types.zipIdx, ∀ s ∈ p.1.supertypes, h.declaredRank s < p.2 + 3) :
    h.PathsWithin (h.types.length + 2) := by
  refine PathsWithin.of_rank h.declaredRank (fun s t hs => ?_) fun t => ?_
  · unfold Above supertypes at hs
    split at hs
    · cases hs
    · cases hs
    · rw [List.mem_singleton.1 hs]
      exact Nat.one_lt_two
    · rw [List.mem_singleton.1 hs]
      exact Nat.one_lt_two
    · rw [List.mem_singleton.1 hs]
      exact Nat.one_lt_two
    · rename_i id
      split at hs
      · rename_i name first more hdeclared
        have hlt := (List.getElem?_eq_some_iff.1 hdeclared).1
        have hmem : (⟨name, first :: more⟩, id) ∈ h.types.zipIdx :=
          List.mem_zipIdx_iff_getElem?.2 hdeclared
        have hlower := hrank _ hmem s hs
        simp only [declaredRank, if_pos hlt]
        exact hlower
      · rw [List.mem_singleton.1 hs]
        simp only [declaredRank]
        split <;> omega
    · rename_i hany hrest hint hlong hdouble hhost
      rw [List.mem_singleton.1 hs]
      cases t with
      | any => exact absurd rfl hany
      | rest => exact absurd rfl hrest
      | int => exact absurd rfl hint
      | long => exact absurd rfl hlong
      | double => exact absurd rfl hdouble
      | host id => exact absurd rfl (hhost id)
      | _ => exact Nat.zero_lt_one
  · unfold declaredRank
    split <;> first | omega | (split <;> omega)

/-- Where every host type is declared after the host types above it, paths are short. -/
theorem pathsWithin_of_precedes
    (hprecedes : ∀ p ∈ h.types.zipIdx, ∀ s ∈ p.1.supertypes, precedes p.2 s) :
    h.PathsWithin (h.types.length + 2) :=
  pathsWithin_of_declaredRank fun p hp s hs => declaredRank_lt_of_precedes (hprecedes p hp s hs)

end Multimethod.Hierarchy
