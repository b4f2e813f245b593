import Multimethod.Proofs.Dispatch.GuardChain
import Multimethod.Proofs.Lattice.Join

/-!
# The joined types of an overload

An overload joins the types of its candidates at each position, one candidate after another. Two types
are assignable to their join, and since assignability composes, every candidate's type is assignable to
what is joined in the end. The one case that does not compose is left out: Char, joined with a numeric
type, gives this type, and when Number is joined to it the result is Number, which takes no Char.

* `FitsJoin` — a type stands for what it was joined into, or is Char in Number.
* `FitsJoin.join`, `fitsJoin_join` — joining a further type keeps the others and takes it in.
* `fitsJoins_foldl` — the same of all positions and the return type, over all candidates.
* `Overload.joined_bound_members` — what is joined bounds every candidate, but for Char and Number.
-/

namespace Multimethod

variable {h : Hierarchy}

namespace Hierarchy

/-- Does `t` stand for the type that it was joined into, or is it Char and that type Number? -/
def FitsJoin (h : Hierarchy) (t joined : Ty) : Prop :=
  h.StandsFor t joined ∨ t = .char ∧ joined = .number

/-- Is `t` assignable to `joined`, except as Char to Number, if a search from `t` opens all that lies
above it? -/
def IsBounded (h : Hierarchy) (t joined : Ty) : Prop :=
  h.AboveAtMost 256 t → (h.isAssignable t joined ↔ ¬ (t = .char ∧ joined = .number))

variable {t joined param : Ty}

theorem fitsJoin_self (h : Hierarchy) (t : Ty) : h.FitsJoin t t := .inl (.upward .refl)

/-- The type that is joined to others fits what they give. -/
theorem fitsJoin_join (h : Hierarchy) (joined param : Ty) : h.FitsJoin param (h.join joined param) :=
  .inl (standsFor_of_isAssignable (isAssignable_join_right h joined param))

/-- **Joining a further type keeps what fits.** -/
theorem FitsJoin.join (hreg : h.IsRegular) (hfits : h.FitsJoin t joined) (param : Ty) :
    h.FitsJoin t (h.join joined param) := by
  have hleft := standsFor_join_left h joined param
  rcases hfits with hstands | ⟨hchar, rfl⟩
  · by_cases hlost : t = .char ∧ joined.isNumeric ∧ h.join joined param = .number
    · exact .inr ⟨hlost.1, hlost.2.2⟩
    · exact .inl (hstands.trans hreg hleft hlost)
  · -- what takes in Number is Number still, or Any
    rcases hleft.eq_number with hnumber | hany
    · exact .inr ⟨hchar, hnumber⟩
    · exact .inl (hany ▸ .any t)

theorem isBounded_of_fitsJoin (hreg : h.IsRegular) (hfits : h.FitsJoin t joined) :
    h.IsBounded t joined := by
  intro hfew
  constructor
  · rintro hassign ⟨rfl, rfl⟩
    cases hassign
  · intro hchar
    exact isAssignable_of_standsFor hreg hfew (hfits.resolve_right hchar)

theorem join_self (h : Hierarchy) (t : Ty) : h.join t t = t := by simp [join]

end Hierarchy

/-! ## Joining candidates -/

theorem map_joinPositions (positions : List JoinedPosition) (params : List Ty) :
    (joinPositions h positions params).map (·.1) =
      List.zipWith h.join (positions.map (·.1)) params := by
  rw [joinPositions, List.map_zipWith, List.zipWith_map_left]
  congr 1
  funext position param
  obtain ⟨joined, varies⟩ := position
  dsimp only
  split
  · rename_i hsame
    rw [hsame, Hierarchy.join_self]
  · rfl

theorem forall₂_zipWith_join (hreg : h.IsRegular) {types joined : List Ty}
    (hfits : List.Forall₂ h.FitsJoin types joined) (params : List Ty)
    (hlength : params.length = joined.length) :
    List.Forall₂ h.FitsJoin types (List.zipWith h.join joined params) ∧
      List.Forall₂ h.FitsJoin params (List.zipWith h.join joined params) := by
  induction hfits generalizing params with
  | nil =>
    obtain rfl := List.eq_nil_of_length_eq_zero hlength
    exact ⟨.nil, .nil⟩
  | cons hfit _ ih =>
    obtain ⟨param, params, rfl⟩ := List.exists_cons_of_length_eq_add_one hlength
    obtain ⟨hkept, htaken⟩ := ih params (Nat.succ.inj hlength)
    exact ⟨.cons (hfit.join hreg param) hkept, .cons (h.fitsJoin_join _ param) htaken⟩

/-- Do the candidate's parameter types and its return type fit these joins? -/
structure Candidate.FitsJoins (h : Hierarchy) (c : Candidate) (joined : List Ty) (ret : Ty) : Prop where
  params : List.Forall₂ h.FitsJoin c.params joined
  ret : h.FitsJoin c.ret ret

theorem Candidate.fitsJoins_self (h : Hierarchy) (c : Candidate) : c.FitsJoins h c.params c.ret where
  params := List.forall₂_same.2 fun t _ => h.fitsJoin_self t
  ret := h.fitsJoin_self c.ret

/-- **Joining one more candidate keeps those that fit and takes it in.** -/
theorem Candidate.FitsJoins.join (hreg : h.IsRegular) {c d : Candidate}
    {positions : List JoinedPosition} {ret : Ty} (hfits : c.FitsJoins h (positions.map (·.1)) ret)
    (harity : d.arity = c.arity) :
    c.FitsJoins h ((joinPositions h positions d.params).map (·.1)) (h.join ret d.ret) ∧
      d.FitsJoins h ((joinPositions h positions d.params).map (·.1)) (h.join ret d.ret) := by
  obtain ⟨hkept, htaken⟩ := forall₂_zipWith_join hreg hfits.params d.params
    (harity.trans hfits.params.length_eq)
  rw [map_joinPositions]
  exact ⟨⟨hkept, hfits.ret.join hreg d.ret⟩, ⟨htaken, h.fitsJoin_join ret d.ret⟩⟩

/-- What is joined over some candidates fits each of them, and all that fitted before. -/
theorem fitsJoins_foldl (hreg : h.IsRegular) {n : Nat} {others : List Candidate}
    {positions : List JoinedPosition} {ret : Ty} {first : Candidate} (hfirst : first.arity = n)
    (hothers : ∀ c ∈ others, c.arity = n) (hfits : first.FitsJoins h (positions.map (·.1)) ret) :
    ∀ c ∈ first :: others,
      c.FitsJoins h ((others.foldl (fun ps d => joinPositions h ps d.params) positions).map (·.1))
        (others.foldl (fun r d => h.join r d.ret) ret) := by
  induction others generalizing positions ret first with
  | nil =>
    intro c hc
    rw [List.mem_singleton.1 hc]
    exact hfits
  | cons d others ih =>
    have hd := hothers d List.mem_cons_self
    have hrest : ∀ c ∈ others, c.arity = n := fun c hc => hothers c (List.mem_cons_of_mem d hc)
    obtain ⟨hkept, htaken⟩ := hfits.join hreg (hd.trans hfirst.symm)
    intro c hc
    rcases List.mem_cons.1 hc with rfl | hc
    · exact ih hfirst hrest hkept c List.mem_cons_self
    · exact ih hd hrest htaken c hc

namespace Overload

variable {limit n : Nat} {cs : List Candidate} {overload : Overload}

theorem fitsJoins_of_ofCandidates? (hreg : h.IsRegular)
    (hov : ofCandidates? h limit cs = some overload) (harity : ∀ c ∈ cs, c.arity = n) :
    ∀ c ∈ cs, c.FitsJoins h overload.joinedParams overload.joinedRet := by
  intro c hc
  have hsorted : ∀ d, d ∈ Candidate.sortBySpecificity h cs ↔ d ∈ cs := fun d =>
    Candidate.mem_sortBySpecificity
  unfold ofCandidates? at hov
  split at hov
  · cases hov
  · rename_i d hsort
    cases hov
    obtain rfl : c = d := List.mem_singleton.1 (hsort ▸ (hsorted c).2 hc)
    exact c.fitsJoins_self h
  · rename_i first others _ hsort
    cases hov
    rw [hsort] at hsorted
    have hself : first.FitsJoins h ((first.params.map (·, false)).map (·.1)) first.ret := by
      rw [List.map_map, show (fun p : JoinedPosition => p.1) ∘ (·, false) = id from rfl, List.map_id]
      exact first.fitsJoins_self h
    exact fitsJoins_foldl hreg (harity first ((hsorted first).1 List.mem_cons_self))
      (fun d hd => harity d ((hsorted d).1 (List.mem_cons_of_mem first hd))) hself c ((hsorted c).2 hc)

/-- **What an overload joins bounds each of its candidates.** Of candidates of one arity there is an
overload, and each parameter type and the return type of each of them stands for the type joined in its
place, unless it is Char and was joined into Number. A type that has no more than 256 types above it,
circles included, is assignable to what it was joined into with that one exception. -/
theorem joined_bound_members (hreg : h.IsRegular) (limit : Nat) (hne : cs ≠ [])
    (harity : ∀ c ∈ cs, c.arity = n) :
    ∃ overload, ofCandidates? h limit cs = some overload ∧ ∀ c ∈ cs,
      c.FitsJoins h overload.joinedParams overload.joinedRet ∧
        List.Forall₂ h.IsBounded c.params overload.joinedParams ∧
        h.IsBounded c.ret overload.joinedRet := by
  obtain ⟨overload, hov⟩ := ofCandidates?_isSome h limit hne
  refine ⟨overload, hov, fun c hc => ?_⟩
  have hfits := fitsJoins_of_ofCandidates? hreg hov harity c hc
  exact ⟨hfits, hfits.params.imp fun _ _ => Hierarchy.isBounded_of_fitsJoin hreg,
    Hierarchy.isBounded_of_fitsJoin hreg hfits.ret⟩

/-- Three candidates of which no two have related parameter types. -/
theorem joined_bound_members_of_shapes :
    let h : Hierarchy := ⟨[⟨"Shape", []⟩, ⟨"Circle", [.host 0]⟩, ⟨"Square", [.host 0]⟩]⟩
    let draw (index : Nat) (param ret : Ty) : Candidate :=
      { owner := .any, index, lookup := ⟨"draw", .method, .any, false, none⟩, key := "draw",
        kind := .method, origin := .static, params := [param], ret, isVariadic := false }
    let cs := [draw 0 (.host 1) .int, draw 1 (.host 2) .char, draw 2 .text .double]
    h.IsRegular ∧ cs ≠ [] ∧ (∀ c ∈ cs, c.arity = 1) ∧
      ∃ overload, ofCandidates? h 4 cs = some overload ∧ ∀ c ∈ cs,
        c.FitsJoins h overload.joinedParams overload.joinedRet ∧
          List.Forall₂ h.IsBounded c.params overload.joinedParams ∧
          h.IsBounded c.ret overload.joinedRet := by
  intro h draw cs
  have hreg : h.IsRegular := by decide
  have hne : cs ≠ [] := List.cons_ne_nil _ _
  have harity : ∀ c ∈ cs, c.arity = 1 := by decide
  exact ⟨hreg, hne, harity, joined_bound_members hreg 4 hne harity⟩

/-- Char, Int and Number are joined to Number, to which Char is not assignable. -/
theorem joined_leaves_char_out :
    let f (index : Nat) (param : Ty) : Candidate :=
      { owner := .any, index, lookup := ⟨"f", .method, .any, false, none⟩, key := "f",
        kind := .method, origin := .static, params := [param], ret := .any, isVariadic := false }
    let h : Hierarchy := {}
    let cs := [f 0 .char, f 1 .int, f 2 .number]
    h.IsRegular ∧ cs ≠ [] ∧ (∀ c ∈ cs, c.arity = 1 ∧ c.isVariadic = false) ∧
      (ofCandidates? h 4 cs).map joinedParams = some [.number] ∧ f 0 .char ∈ cs ∧
      (f 0 .char).params = [.char] ∧ ¬ h.isAssignable .char .number := by
  decide +kernel

end Overload

end Multimethod
