import Multimethod.Proofs.Dispatch.Alike
import Multimethod.Value.Basic

/-!
# Equality of values

Equality as programs see it is symmetric and transitive. It is no equivalence, since a NaN is equal to
nothing.

* `Value.equal_comm`, `Value.equal_trans` — and the same of lists.
* `Value.equal_self` — a value is equal to itself unless there is a NaN in it.
-/

namespace Multimethod

namespace Decimal

theorem sameNumber_iff {x y : Float} : sameNumber x y ↔
    isNaN x = false ∧ (x.toBits = y.toBits ∨ magnitudeBits x = 0 ∧ magnitudeBits y = 0) := by
  simp [sameNumber]

theorem isNaN_eq_of_toBits {x y : Float} (h : x.toBits = y.toBits) : isNaN x = isNaN y := by
  unfold isNaN magnitudeBits
  rw [h]

theorem magnitudeBits_eq_of_toBits {x y : Float} (h : x.toBits = y.toBits) :
    magnitudeBits x = magnitudeBits y := by
  unfold magnitudeBits
  rw [h]

theorem isNaN_of_magnitudeBits {x : Float} (h : magnitudeBits x = 0) : isNaN x = false := by
  unfold isNaN
  rw [h]
  rfl

theorem sameNumber_symm {x y : Float} (h : sameNumber x y) : sameNumber y x := by
  obtain ⟨hx, hbits | ⟨hzero, hzero'⟩⟩ := sameNumber_iff.1 h
  · exact sameNumber_iff.2 ⟨isNaN_eq_of_toBits hbits ▸ hx, .inl hbits.symm⟩
  · exact sameNumber_iff.2 ⟨isNaN_of_magnitudeBits hzero', .inr ⟨hzero', hzero⟩⟩

theorem sameNumber_trans {x y z : Float} (hxy : sameNumber x y) (hyz : sameNumber y z) :
    sameNumber x z := by
  obtain ⟨hx, hxy⟩ := sameNumber_iff.1 hxy
  obtain ⟨-, hyz⟩ := sameNumber_iff.1 hyz
  refine sameNumber_iff.2 ⟨hx, ?_⟩
  rcases hxy with hxy | ⟨hzero, hzero'⟩
  · rcases hyz with hyz | ⟨hzero, hzero'⟩
    · exact .inl (hxy.trans hyz)
    · exact .inr ⟨(magnitudeBits_eq_of_toBits hxy).trans hzero, hzero'⟩
  · rcases hyz with hyz | ⟨-, hz⟩
    · exact .inr ⟨hzero, (magnitudeBits_eq_of_toBits hyz).symm.trans hzero'⟩
    · exact .inr ⟨hzero, hz⟩

end Decimal

namespace Callable

variable {a b c : Callable}

theorem sameDispatch_of_candidates (hne : a.candidates ≠ []) (h : a.candidates = b.candidates) :
    a.sameDispatch b := by
  have hne' : b.candidates ≠ [] := h ▸ hne
  cases a with
  | selector => exact absurd rfl hne
  | _ => simp [sameDispatch, h, hne']

/-- Callables are the same if they are one, or built from the same candidates, or selectors of one
member. -/
theorem sameDispatch_cases (h : a.sameDispatch b) :
    a = b ∨ (a.candidates ≠ [] ∧ a.candidates = b.candidates) ∨
      ∃ name m name' m', a = .selector name m ∧ b = .selector name' m' ∧ m.val = m'.val := by
  unfold sameDispatch at h
  rcases Bool.or_eq_true_iff.1 h with heq | h
  · exact .inl (of_decide_eq_true heq)
  · split at h
    · exact .inr (.inr ⟨_, _, _, _, rfl, rfl, of_decide_eq_true h⟩)
    · obtain ⟨hne, heq⟩ := Bool.and_eq_true_iff.1 h
      exact .inr (.inl ⟨by simpa using hne, of_decide_eq_true heq⟩)

theorem sameDispatch_selector {name name' : String} {m : SelectorMember name}
    {n : SelectorMember name'} (h : m.val = n.val) :
    (selector name m).sameDispatch (selector name' n) :=
  Bool.or_eq_true_iff.2 (.inr (decide_eq_true h))

theorem sameDispatch_trans (hab : a.sameDispatch b) (hbc : b.sameDispatch c) : a.sameDispatch c := by
  obtain rfl | ⟨hne, heq⟩ | ⟨_, m, _, _, rfl, rfl, heq⟩ := sameDispatch_cases hab
  · exact hbc
  · obtain rfl | ⟨-, heq'⟩ | ⟨_, _, _, _, rfl, -, -⟩ := sameDispatch_cases hbc
    · exact hab
    · exact sameDispatch_of_candidates hne (heq.trans heq')
    · exact absurd heq hne
  · obtain rfl | ⟨hne, -⟩ | ⟨_, _, _, _, hsame, rfl, heq'⟩ := sameDispatch_cases hbc
    · exact hab
    · exact absurd rfl hne
    · cases hsame
      exact sameDispatch_selector (heq.trans heq')

end Callable

namespace Value

mutual

theorem equal_comm (v w : Value) : v.equal w = w.equal v := by
  cases v with
  | list xs =>
    cases w with
    | list ys => exact equalLists_comm xs ys
    | _ => rfl
  | double x =>
    cases w with
    | double y => exact Bool.eq_iff_iff.2 ⟨Decimal.sameNumber_symm, Decimal.sameNumber_symm⟩
    | _ => rfl
  | procedure a =>
    cases w with
    | procedure b => exact Callable.sameDispatch_comm a b
    | _ => rfl
  | host a =>
    cases w with
    | host b =>
      exact congrArg₂ and (decide_eq_decide.2 eq_comm) (decide_eq_decide.2 eq_comm)
    | _ => rfl
  | null => cases w <;> rfl
  | _ => cases w <;> first | rfl | exact decide_eq_decide.2 eq_comm

theorem equalLists_comm (xs ys : List Value) : equalLists xs ys = equalLists ys xs := by
  cases xs with
  | nil => cases ys <;> rfl
  | cons x xs =>
    cases ys with
    | nil => rfl
    | cons y ys => rw [equalLists, equalLists, equal_comm x y, equalLists_comm xs ys]

end

mutual

theorem equal_trans (u v w : Value) (huv : u.equal v) (hvw : v.equal w) : u.equal w := by
  cases u with
  | list xs =>
    cases v with
    | list ys =>
      cases w with
      | list zs => exact equalLists_trans xs ys zs huv hvw
      | _ => cases hvw
    | _ => cases huv
  | double x =>
    cases v with
    | double y =>
      cases w with
      | double z => exact Decimal.sameNumber_trans huv hvw
      | _ => cases hvw
    | _ => cases huv
  | procedure a =>
    cases v with
    | procedure b =>
      cases w with
      | procedure c => exact Callable.sameDispatch_trans huv hvw
      | _ => cases hvw
    | _ => cases huv
  | host a =>
    cases v with
    | host b =>
      cases w with
      | host c =>
        obtain ⟨hname, hlabel⟩ := Bool.and_eq_true_iff.1 huv
        obtain ⟨hname', hlabel'⟩ := Bool.and_eq_true_iff.1 hvw
        exact Bool.and_eq_true_iff.2
          ⟨decide_eq_true ((of_decide_eq_true hname).trans (of_decide_eq_true hname')),
            decide_eq_true ((of_decide_eq_true hlabel).trans (of_decide_eq_true hlabel'))⟩
      | _ => cases hvw
    | _ => cases huv
  | null =>
    cases v with
    | null => exact hvw
    | _ => cases huv
  | _ =>
    -- a plain value is equal to itself only
    cases v <;> first | cases huv | (cases of_decide_eq_true huv; exact hvw)

theorem equalLists_trans (xs ys zs : List Value) (hxy : equalLists xs ys) (hyz : equalLists ys zs) :
    equalLists xs zs := by
  cases xs with
  | nil =>
    cases ys with
    | nil => exact hyz
    | cons y ys => cases hxy
  | cons x xs =>
    cases ys with
    | nil => cases hxy
    | cons y ys =>
      cases zs with
      | nil => cases hyz
      | cons z zs =>
        obtain ⟨hx, hxs⟩ := Bool.and_eq_true_iff.1 hxy
        obtain ⟨hy, hys⟩ := Bool.and_eq_true_iff.1 hyz
        exact Bool.and_eq_true_iff.2 ⟨equal_trans x y z hx hy, equalLists_trans xs ys zs hxs hys⟩

end

/-! ## Values that are equal to themselves -/

mutual

/-- Is the value a NaN, or is there one in a list in it? -/
def hasNaN : Value → Bool
  | double x => Decimal.isNaN x
  | list items => anyHasNaN items
  | _ => false

def anyHasNaN : List Value → Bool
  | [] => false
  | v :: rest => hasNaN v || anyHasNaN rest

end

mutual

/-- **A value is equal to itself unless there is a NaN in it.** -/
theorem equal_self (v : Value) : v.equal v = !v.hasNaN := by
  cases v with
  | double x => simp [equal, hasNaN, Decimal.sameNumber]
  | list xs => exact equalLists_self xs
  | procedure a => simp [equal, hasNaN, Callable.sameDispatch]
  | host a => simp [equal, hasNaN, HostObject.same]
  | _ => simp [equal, hasNaN]

theorem equalLists_self (xs : List Value) : equalLists xs xs = !anyHasNaN xs := by
  cases xs with
  | nil => rfl
  | cons x xs => rw [equalLists, equal_self x, equalLists_self xs, anyHasNaN, Bool.not_or]

end

end Value

end Multimethod
