import Mathlib.Data.List.TakeWhile
import Multimethod.Name.Form

/-!
# Spellings of a member

A member is spelled in a selector behind a dot and in a qualified name behind a type and a slash. What comes
before the member does not show in it: the arity pin is split off at the same place, and the marker tells the
same kind, but for `new`, which is a constructor in a qualified name only.

* `exists_splitPin_append` — the arity pin of a name is that of its end.
* `qualified_eq_selector` — a selector and a qualified name refer to one member.
-/

namespace Multimethod.Name

variable {cs : List Char}

/-! ## Arity pins -/

theorem exists_last_colon (h : ':' ∈ cs) : ∃ base digits, cs = base ++ ':' :: digits ∧ ':' ∉ digits := by
  obtain ⟨front, rest, hsplit, hfront⟩ := List.eq_append_cons_of_mem (List.mem_reverse.2 h)
  refine ⟨rest.reverse, front.reverse, ?_, by simpa using hfront⟩
  rw [← List.reverse_reverse cs, hsplit]
  simp

theorem splitAtLastColon?_eq_some (base : List Char) {digits : List Char} (h : ':' ∉ digits) :
    splitAtLastColon? (base ++ ':' :: digits) = some (base, digits) := by
  have hdigits : ∀ c ∈ digits.reverse, decide (c ≠ ':') := by
    intro c hc
    rw [List.mem_reverse] at hc
    exact decide_eq_true fun heq => h (heq ▸ hc)
  unfold splitAtLastColon?
  rw [List.reverse_append, List.reverse_cons, List.append_assoc, List.takeWhile_append_of_pos hdigits,
    List.dropWhile_append_of_pos hdigits]
  simp

theorem splitAtLastColon?_eq_none (h : ':' ∉ cs) : splitAtLastColon? cs = none := by
  have hnil : cs.reverse.dropWhile (· ≠ ':') = [] := by
    rw [List.dropWhile_eq_nil_iff]
    intro c hc
    rw [List.mem_reverse] at hc
    exact decide_eq_true fun heq => h (heq ▸ hc)
  unfold splitAtLastColon?
  rw [hnil]

/-- What follows the last colon is no number if it has a character in it that is no digit. -/
theorem splitPin_of_no_colon (front : List Char) {c : Char} (hcolon : c ≠ ':') (hdigit : c.isDigit = false)
    (h : ':' ∉ cs) : splitPin (front ++ c :: cs) = (front ++ c :: cs, none) := by
  have hend : ':' ∉ c :: cs := by simp [Ne.symm hcolon, h]
  unfold splitPin
  by_cases hfront : ':' ∈ front
  · obtain ⟨base, rest, rfl, hrest⟩ := exists_last_colon hfront
    have hdigits : ':' ∉ rest ++ c :: cs := by simp [hrest, Ne.symm hcolon, h]
    rw [List.append_assoc, List.cons_append, splitAtLastColon?_eq_some base hdigits]
    simp [hdigit]
  · rw [splitAtLastColon?_eq_none (by simp [hfront, Ne.symm hcolon, h])]

/-- **The arity pin of a name is that of its end,** if what is before ends in neither a colon nor a digit. -/
theorem exists_splitPin_append (cs : List Char) : ∃ bare pin, ∀ (front : List Char) (c : Char), c ≠ ':' →
    c.isDigit = false → splitPin (front ++ c :: cs) = (front ++ c :: bare, pin) := by
  by_cases hcs : ':' ∈ cs
  · obtain ⟨base, digits, rfl, hdigits⟩ := exists_last_colon hcs
    have hsplit (front : List Char) (c : Char) : splitAtLastColon? (front ++ c :: (base ++ ':' :: digits)) =
        some (front ++ c :: base, digits) := by
      have := splitAtLastColon?_eq_some (front ++ c :: base) hdigits
      rwa [List.append_assoc, List.cons_append] at this
    by_cases hpin : (digits.isEmpty || !digits.all Char.isDigit) = false ∧ Decimal.digitsValue digits ≤ maxPin
    · refine ⟨base, some (Decimal.digitsValue digits), fun front c _ _ => ?_⟩
      unfold splitPin
      simp only [hsplit]
      rw [if_neg (by simpa using hpin.1), if_pos hpin.2]
    · refine ⟨base ++ ':' :: digits, none, fun front c _ _ => ?_⟩
      unfold splitPin
      simp only [hsplit]
      split
      · rfl
      · rename_i hnumber
        rw [if_neg fun hle => hpin ⟨by simpa using hnumber, hle⟩]
  · exact ⟨cs, none, fun front c hcolon hdigit => splitPin_of_no_colon front hcolon hdigit hcs⟩

/-! ## Members -/

/-- Markers tell the same kind in both forms, but for `new`. -/
theorem splitMarker_eq {text : List Char} (hnew : String.ofList text ≠ "new") :
    splitMarker true text = splitMarker false text := by
  have htext : text ≠ "new".toList := fun h => hnew (by rw [h]; rfl)
  unfold splitMarker
  split
  · rfl
  · rfl
  · rw [if_neg (by simpa using htext), if_neg (by simp)]

theorem markedMember_eq {text : List Char} (pin : Option Nat) (hnew : String.ofList text ≠ "new") :
    markedMember true text pin = markedMember false text pin := by
  unfold markedMember
  rw [splitMarker_eq hnew]

theorem selectorMember?_eq {bare member : List Char} (h : selectorMember? ('.' :: bare) = some member) :
    member = bare := by
  unfold selectorMember? at h
  split at h
  · rename_i heq
    cases heq
    split at h
    · cases h
    · exact (Option.some.inj h).symm
  · cases h

theorem splitScope?_eq {scope bare member : List Char}
    (h : splitScope? (scope ++ '/' :: bare) = some (scope, member)) : member = bare := by
  have hwhole := List.takeWhile_append_dropWhile (p := (· ≠ '/')) (l := scope ++ '/' :: bare)
  unfold splitScope? at h
  split at h
  · rename_i htake hdrop
    cases h
    rw [htake, hdrop] at hwhole
    exact (List.cons.inj (List.append_cancel_left hwhole)).2
  · cases h

/-- **A selector and a qualified name refer to one member,** if they spell it alike and it is not `new`. -/
theorem qualified_eq_selector {spelling scope : String} {member member' plain : MemberName}
    (hselector : classify ("." ++ spelling) = .selector member)
    (hqualified : classify (scope ++ "/" ++ spelling) = .qualified scope member' plain)
    (hnew : member.surface ≠ "new") : member' = member := by
  obtain ⟨bare, pin, hpin⟩ := exists_splitPin_append spelling.toList
  have hdot : splitPin ("." ++ spelling).toList = ('.' :: bare, pin) := by
    rw [String.toList_append]
    exact hpin [] '.' (by decide) (by decide)
  have hslash : splitPin (scope ++ "/" ++ spelling).toList = (scope.toList ++ '/' :: bare, pin) := by
    rw [String.toList_append, String.toList_append, List.append_assoc]
    exact hpin scope.toList '/' (by decide) (by decide)
  unfold classify at hselector hqualified
  rw [hdot] at hselector
  rw [hslash] at hqualified
  simp only at hselector hqualified
  cases hdotted : selectorMember? ('.' :: bare) with
  | none =>
    rw [hdotted] at hselector
    dsimp only at hselector
    split at hselector <;> cases hselector
  | some text =>
    obtain rfl := selectorMember?_eq hdotted
    rw [hdotted] at hselector
    cases hselector
    cases hslashed : selectorMember? (scope.toList ++ '/' :: text) with
    | some other =>
      rw [hslashed] at hqualified
      cases hqualified
    | none =>
      rw [hslashed] at hqualified
      dsimp only at hqualified
      split at hqualified
      · rename_i scope' text' hscope
        cases hqualified
        rw [String.toList_ofList] at hscope
        obtain rfl := splitScope?_eq hscope
        exact markedMember_eq pin hnew
      · cases hqualified

end Multimethod.Name
