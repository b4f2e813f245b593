import Mathlib.Data.List.Forall2
import Multimethod.Proofs.Dispatch.Alike
import Multimethod.Value.Error

/-!
# Values alike

Values are alike if they are equal up to tables alike, and results are alike if they are values alike
or errors alike. A rejected call may be reported under another name.

* `Value.Alike.chars_eq` — values alike have the same texts.
* `Value.Alike.equal_eq` — values alike are equal to the same values.
* `Value.Alike.widenTo` — they stay alike in another representation.
-/

namespace Multimethod

variable {h : Hierarchy}

namespace Value

/-- Values that cannot be told apart: equal but for the insides of tables. -/
inductive Alike (h : Hierarchy) : Value → Value → Prop
  | refl (v : Value) : Alike h v v
  | procedure {a b : Callable} (hcallables : a.Alike h b) : Alike h (.procedure a) (.procedure b)
  | list {xs ys : List Value} (hitems : List.Forall₂ (Alike h) xs ys) : Alike h (.list xs) (.list ys)

/-- Lists of values alike, one by one. -/
abbrev AlikeAll (h : Hierarchy) : List Value → List Value → Prop := List.Forall₂ (Alike h)

theorem AlikeAll.refl (xs : List Value) : AlikeAll h xs xs :=
  List.forall₂_same.2 fun x _ => .refl x

namespace Alike

variable {v w : Value}

theorem ty_eq (hv : Alike h v w) : v.ty = w.ty := by
  cases hv <;> rfl

theorem isTrue_eq (hv : Alike h v w) : v.isTrue = w.isTrue := by
  cases hv <;> rfl

theorem isProcedure_eq (hv : Alike h v w) : v.isProcedure = w.isProcedure := by
  cases hv <;> rfl

theorem widenTo (t : Ty) (hv : Alike h v w) : Alike h (v.widenTo t) (w.widenTo t) := by
  have hprocedure (a : Callable) : (Value.procedure a).widenTo t = Value.procedure a := by
    cases t <;> rfl
  have hlist (xs : List Value) : (Value.list xs).widenTo t = Value.list xs := by
    cases t <;> rfl
  cases hv with
  | refl => exact .refl _
  | procedure hcallables =>
    rw [hprocedure, hprocedure]
    exact .procedure hcallables
  | list hitems =>
    rw [hlist, hlist]
    exact .list hitems

end Alike

/-! ## Texts and equality -/

theorem chars_procedure (written : Bool) (a : Callable) : (Value.procedure a).chars written =
    "#<procedure ".toList ++ a.name.toList ++ ['>'] := rfl

theorem chars_list (written : Bool) (items : List Value) :
    (Value.list items).chars written = '(' :: itemChars written items ++ [')'] := rfl

theorem itemChars_singleton (written : Bool) (v : Value) :
    itemChars written [v] = v.chars written := rfl

theorem itemChars_cons_cons (written : Bool) (v w : Value) (rest : List Value) :
    itemChars written (v :: w :: rest) =
      v.chars written ++ ' ' :: itemChars written (w :: rest) := rfl

namespace Alike

variable {v w : Value}

mutual

theorem chars_eq (written : Bool) (v w : Value) (hv : Alike h v w) :
    v.chars written = w.chars written := by
  cases hv with
  | refl => rfl
  | procedure hcallables => rw [chars_procedure, chars_procedure, hcallables.name_eq]
  | list hitems => rw [chars_list, chars_list, itemChars_eq written _ _ hitems]

theorem itemChars_eq (written : Bool) (xs ys : List Value) (hitems : AlikeAll h xs ys) :
    itemChars written xs = itemChars written ys := by
  cases hitems with
  | nil => rfl
  | cons hx hrest =>
    have hfirst := chars_eq written _ _ hx
    have hothers := itemChars_eq written _ _ hrest
    cases hrest with
    | nil => rw [itemChars_singleton, itemChars_singleton, hfirst]
    | cons _ _ => rw [itemChars_cons_cons, itemChars_cons_cons, hfirst, hothers]

end

mutual

theorem equal_left (v w u : Value) (hv : Alike h v w) : v.equal u = w.equal u := by
  cases hv with
  | refl => rfl
  | procedure hcallables =>
    cases u with
    | procedure c => exact hcallables.sameDispatch_eq (.refl c)
    | _ => rfl
  | list hitems =>
    cases u with
    | list us => exact equalLists_left _ _ us hitems
    | _ => rfl

theorem equalLists_left (xs ys us : List Value) (hitems : AlikeAll h xs ys) :
    equalLists xs us = equalLists ys us := by
  cases hitems with
  | nil => rfl
  | cons hx hrest =>
    cases us with
    | nil => rfl
    | cons u us => rw [equalLists, equalLists, equal_left _ _ u hx, equalLists_left _ _ us hrest]

end

mutual

theorem equal_right (v w u : Value) (hv : Alike h v w) : u.equal v = u.equal w := by
  cases hv with
  | refl => rfl
  | procedure hcallables =>
    cases u with
    | procedure c => exact (Callable.Alike.refl c).sameDispatch_eq hcallables
    | _ => rfl
  | list hitems =>
    cases u with
    | list us => exact equalLists_right _ _ us hitems
    | _ => rfl

theorem equalLists_right (xs ys us : List Value) (hitems : AlikeAll h xs ys) :
    equalLists us xs = equalLists us ys := by
  cases hitems with
  | nil => rfl
  | cons hx hrest =>
    cases us with
    | nil => rfl
    | cons u us => rw [equalLists, equalLists, equal_right _ _ u hx, equalLists_right _ _ us hrest]

end

theorem equal_eq {v' w' : Value} (hv : Alike h v v') (hw : Alike h w w') :
    v.equal w = v'.equal w' :=
  (equal_left v v' w hv).trans (equal_right w w' v' hw)

theorem write_eq (hv : Alike h v w) : v.write = w.write :=
  congrArg String.ofList (chars_eq true v w hv)

theorem display_eq (hv : Alike h v w) : v.display = w.display :=
  congrArg String.ofList (chars_eq false v w hv)

end Alike

namespace AlikeAll

variable {xs ys : List Value}

theorem map_ty_eq (hitems : AlikeAll h xs ys) : xs.map ty = ys.map ty := by
  induction hitems with
  | nil => rfl
  | cons hx _ ih => rw [List.map_cons, List.map_cons, hx.ty_eq, ih]

theorem getD (hitems : AlikeAll h xs ys) (place : Nat) {v w : Value} (hvw : Alike h v w) :
    Alike h (xs.getD place v) (ys.getD place w) := by
  induction hitems generalizing place with
  | nil => exact hvw
  | cons hx _ ih =>
    cases place with
    | zero => exact hx
    | succ n => exact ih n

theorem set (hitems : AlikeAll h xs ys) (place : Nat) {v w : Value} (hvw : Alike h v w) :
    AlikeAll h (xs.set place v) (ys.set place w) := by
  induction hitems generalizing place with
  | nil => exact .nil
  | cons hx hrest ih =>
    cases place with
    | zero => exact .cons hvw hrest
    | succ n => exact .cons hx (ih n)

end AlikeAll

end Value

/-! ## Results -/

/-- Errors that cannot be told apart, but for the name under which a call is rejected. -/
inductive DispatchError.Alike (h : Hierarchy) : DispatchError → DispatchError → Prop
  | refl (e : DispatchError) : Alike h e e
  | noApplicableOverload (name name' : String) (types : List Ty) :
    Alike h (.noApplicableOverload name types) (.noApplicableOverload name' types)
  | notCallable {v w : Value} (hvalues : v.Alike h w) : Alike h (.notCallable v) (.notCallable w)

/-- Errors that cannot be told apart, but for the name under which a call is rejected. -/
inductive RuntimeError.Alike (h : Hierarchy) : RuntimeError → RuntimeError → Prop
  | refl (e : RuntimeError) : Alike h e e
  | dispatch {e f : DispatchError} (herrors : e.Alike h f) : Alike h (.dispatch e) (.dispatch f)
  | compile {v w : Value} (hforms : v.Alike h w) : Alike h (.compile v) (.compile w)

/-- Errors alike are reported in the same words, unless both reject a call with arguments of the same
types. -/
theorem RuntimeError.Alike.report_eq {e f : RuntimeError} (he : Alike h e f) :
    e.report = f.report ∨ ∃ name name' types, e = .dispatch (.noApplicableOverload name types) ∧
      f = .dispatch (.noApplicableOverload name' types) := by
  cases he with
  | refl => exact .inl rfl
  | dispatch herrors =>
    cases herrors with
    | refl => exact .inl rfl
    | noApplicableOverload name name' types => exact .inr ⟨name, name', types, rfl, rfl⟩
    | notCallable hvalues => exact .inl (congrArg ("not a procedure: " ++ ·) hvalues.write_eq)
  | compile hforms =>
    refine .inl (congrArg ("cannot compile: " ++ ·) ?_)
    unfold preview
    rw [hforms.chars_eq true]

/-- Results that are related: errors by one relation, answers by another. -/
inductive ResultsAlike {ε α β : Type} (E : ε → ε → Prop) (R : α → β → Prop) :
    Except ε α → Except ε β → Prop
  | ok {a : α} {b : β} (hanswers : R a b) : ResultsAlike E R (.ok a) (.ok b)
  | error {e f : ε} (herrors : E e f) : ResultsAlike E R (.error e) (.error f)

end Multimethod
