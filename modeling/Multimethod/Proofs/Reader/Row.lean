import Multimethod.Proofs.Reader.Standing
import Multimethod.Proofs.Reader.Token
import Multimethod.Proofs.Value.Alike

/-!
# Rows of data

A text may be handed over as a datum wherever it stands: inside any open lists and marks, and before
anything that ends a token. A row is made of such texts, with blanks and datum comments between them. In a
list the data of a row join the items, and in a whole text they are what is read.

* `ReadsAs`, `Row` — texts of one datum, and of several.
* `run_datumComment` — a datum comment is passed over wherever a token may begin.
* `Row.run_list`, `Row.readAll_append` — a row is read as its data.
* `readsAs_list` — a row between parentheses is read as a list.
* `row_itemChars` — written forms with single spaces between them are a row.
-/

namespace Multimethod

namespace Reader

/-- The text is handed over as the datum wherever it stands. -/
def ReadsAs (text : List Char) (v : Value) : Prop :=
  ∀ (stack : List Frame) (rest : List Char), EndsToken rest →
    run .between stack (text ++ rest) = (deliverDatum v stack).resume rest

/-- The text is a row of these data. Each of its texts is followed by something that ends it. -/
inductive Row : List Value → List Char → Prop
  | nil : Row [] []
  | blank {vs : List Value} {text : List Char} {c : Char} (hc : Text.isBlank c = true)
    (hrow : Row vs text) : Row vs (c :: text)
  | comment {vs : List Value} {d text : List Char} {w : Value} (hd : ReadsAs d w)
    (hend : EndsToken text) (hrow : Row vs text) : Row vs ('#' :: ';' :: (d ++ text))
  | datum {vs : List Value} {d text : List Char} {v : Value} (hd : ReadsAs d v)
    (hend : EndsToken text) (hrow : Row vs text) : Row (v :: vs) (d ++ text)

theorem endsToken_append {text rest : List Char} (htext : EndsToken text) (hrest : EndsToken rest) :
    EndsToken (text ++ rest) := by
  cases text with
  | nil => exact hrest
  | cons c cs => exact endsToken_cons (htext c rfl) _

theorem endsToken_space (cs : List Char) : EndsToken (' ' :: cs) := endsToken_cons rfl cs

theorem endsToken_close (cs : List Char) : EndsToken (')' :: cs) := endsToken_cons rfl cs

theorem run_space (stack : List Frame) (cs : List Char) :
    run .between stack (' ' :: cs) = run .between stack cs :=
  run_between_blank rfl cs

theorem run_open (stack : List Frame) (cs : List Char) :
    run .between stack ('(' :: cs) = run .between (.list [] :: stack) cs :=
  run_of_more rfl cs

/-- **A datum comment is passed over** wherever a token may begin. -/
theorem run_datumComment {d rest : List Char} {w : Value} (hd : ReadsAs d w) (hrest : EndsToken rest)
    (stack : List Frame) :
    run .between stack ('#' :: ';' :: (d ++ rest)) = run .between stack rest := by
  have hhash : step .between stack '#' = .more .hash stack := rfl
  have hmark : step .hash stack ';' = .more .between (.marked .datumComment :: stack) := rfl
  rw [run_of_more hhash, run_of_more hmark, hd _ _ hrest]
  rfl

namespace Row

variable {vs : List Value} {text rest : List Char}

theorem space (hrow : Row vs text) : Row vs (' ' :: text) := .blank rfl hrow

/-- **In an open list the data of a row join the items.** -/
theorem run_list (hrow : Row vs text) (hrest : EndsToken rest) (stack : List Frame)
    (items : List Value) :
    run .between (.list items :: stack) (text ++ rest) =
      run .between (.list (vs.reverse ++ items) :: stack) rest := by
  induction hrow generalizing items with
  | nil => rfl
  | blank hc _ ih => rw [List.cons_append, run_between_blank hc, ih]
  | comment hd hend _ ih =>
    rw [List.cons_append, List.cons_append, List.append_assoc,
      run_datumComment hd (endsToken_append hend hrest), ih]
  | @datum vs d text v hd hend _ ih =>
    rw [List.append_assoc, hd _ _ (endsToken_append hend hrest), deliverDatum, Delivery.resume, ih,
      @List.reverse_cons _ v, List.append_assoc, List.singleton_append]

theorem run_list_close (hrow : Row vs text) (stack : List Frame) (items : List Value) (rest : List Char) :
    run .between (.list items :: stack) (text ++ ')' :: rest) =
      (deliverDatum (.list (items.reverse ++ vs)) stack).resume rest := by
  have hclose (items : List Value) : run .between (.list items :: stack) (')' :: rest) =
      (deliverDatum (.list items.reverse) stack).resume rest := run_of_closed rfl
  rw [hrow.run_list (endsToken_close rest), hclose, List.reverse_append, List.reverse_reverse]

/-- **At the beginning of a text the data of a row are what is read first.** -/
theorem readAll_append (hrow : Row vs text) (hrest : EndsToken rest) :
    readAll (text ++ rest) = (readAll rest).map (vs ++ ·) := by
  induction hrow with
  | nil =>
    show readAll rest = _
    cases readAll rest <;> rfl
  | blank hc _ ih =>
    rw [List.cons_append, readAll_eq_readRest, read, run_between_blank hc, ← read,
      ← readAll_eq_readRest, ih]
  | comment hd hend _ ih =>
    rw [List.cons_append, List.cons_append, List.append_assoc, readAll_eq_readRest, read,
      run_datumComment hd (endsToken_append hend hrest), ← read, ← readAll_eq_readRest, ih]
  | datum hd hend _ ih =>
    rw [List.append_assoc, readAll_eq_readRest, read, hd _ _ (endsToken_append hend hrest),
      deliverDatum, Delivery.resume, readRest, ih]
    cases readAll rest <;> rfl

theorem readAll_eq (hrow : Row vs text) : readAll text = .ok vs := by
  have hread := hrow.readAll_append endsToken_nil
  have hnil : readAll [] = .ok [] := by
    rw [readAll_eq_readRest]
    rfl
  rw [List.append_nil, hnil] at hread
  rw [hread]
  exact congrArg Except.ok (List.append_nil vs)

end Row

/-- **A row between parentheses is read as a list.** -/
theorem readsAs_list {vs : List Value} {text : List Char} (hrow : Row vs text) :
    ReadsAs ('(' :: text ++ [')']) (.list vs) := by
  intro stack rest _
  rw [List.append_assoc, List.cons_append, List.singleton_append, run_open, hrow.run_list_close]
  rfl

theorem ReadsAs.readAll_eq {text : List Char} {v : Value} (hread : ReadsAs text v) :
    readAll text = .ok [v] := by
  have hrow := Row.datum hread endsToken_nil .nil
  rw [List.append_nil] at hrow
  exact hrow.readAll_eq

/-! ## Written forms in a row -/

/-- Written forms with single spaces between them are a row of what they are read as. -/
theorem row_itemChars {vs ws : List Value}
    (hitems : List.Forall₂ (fun v w => ReadsAs (v.chars true) w) vs ws) :
    Row ws (Value.itemChars true vs) := by
  induction hitems with
  | nil => exact .nil
  | @cons v w vs ws hv hrest ih =>
    cases hrest with
    | nil =>
      have hrow := Row.datum hv endsToken_nil .nil
      rwa [List.append_nil] at hrow
    | cons _ _ => exact .datum hv (endsToken_space _) ih.space

end Reader

namespace Value

/-- The written forms of values with single spaces between them. -/
def writeAll (vs : List Value) : String := " ".intercalate (vs.map write)

theorem toList_writeAll (vs : List Value) : (writeAll vs).toList = itemChars true vs := by
  unfold writeAll
  induction vs with
  | nil => rfl
  | cons v rest ih =>
    cases rest with
    | nil => simp [write, itemChars_singleton]
    | cons w rest =>
      rw [List.map_cons, List.map_cons, String.intercalate_cons_cons, String.toList_append,
        String.toList_append, ← List.map_cons, ih, itemChars_cons_cons, write, String.toList_ofList,
        List.append_assoc]
      rfl

end Value

end Multimethod
