import Multimethod.Proofs.Reader.Atom
import Multimethod.Proofs.Reader.Row

/-!
# Reading what was written

`Value.Readable` are the values that the notation has a text of its own for. `Value.ReadsBack` says
that the written form of a value is handed over as that value wherever it stands: inside any open
lists and marks, and before any text that ends it. Lists need that of their items only, since a
blank or a parenthesis follows each.

* `Value.Readable.readsBack` — the written form of a readable value reads back.
* `Value.readAll_write` — alone in a text it is all that is read.
-/

namespace Multimethod

namespace Value

/-- Values that the notation has a text of its own for. A wide number that the narrow width holds
would be read in that width, and what is no number and positive infinity are written as words. -/
inductive Readable : Value → Prop
  | bool (b : Bool) : Readable (.bool b)
  | char (c : Char) : Readable (.char c)
  | int (n : Int32) : Readable (.int n)
  | long {n : Int64} (hwide : n.toInt < Int32.minValue.toInt ∨ Int32.maxValue.toInt < n.toInt) :
    Readable (.long n)
  | double {x : Float} (hnumber : Decimal.isNaN x = false)
    (hfinite : x.toBits.toNat ≠ Decimal.infinityBits) : Readable (.double x)
  | text (s : String) : Readable (.text s)
  | symbol (name : String) : Readable (.symbol name)
  | list {items : List Value} (hitems : ∀ v ∈ items, Readable v) : Readable (.list items)

/-- The written form of the value is handed over as that value wherever it stands. -/
def ReadsBack (v : Value) : Prop :=
  ∀ (stack : List Reader.Frame) (rest : List Char), Reader.EndsToken rest →
    Reader.run .between stack (v.chars true ++ rest) = (Reader.deliverDatum v stack).resume rest

/-! ## Lists -/

/-- **A list reads back if its items do.** -/
theorem readsBack_list {items : List Value} (hitems : ∀ v ∈ items, ReadsBack v) :
    ReadsBack (.list items) :=
  Reader.readsAs_list (Reader.row_itemChars (List.forall₂_same.2 hitems))

/-! ## All values -/

/-- **The written form of a readable value reads back.** -/
theorem Readable.readsBack {v : Value} (hv : v.Readable) : v.ReadsBack := by
  induction hv with
  | bool b => exact fun _ _ => Reader.run_bool b
  | char c => exact fun _ _ => Reader.run_writtenChar c
  | int n => exact fun _ _ => Reader.run_int n
  | long hwide => exact fun _ _ => Reader.run_long (by omega)
  | double hnumber hfinite => exact fun _ _ => Reader.run_double hnumber hfinite
  | text s => exact fun _ _ _ => Reader.run_writtenText s
  | symbol name => exact fun _ _ => Reader.run_writtenSymbol name
  | list _ ih => exact readsBack_list ih

/-! ## Whole texts -/

theorem readAll_nil : Reader.readAll [] = .ok [] := by
  rw [Reader.readAll]
  split <;> simp_all [Reader.read, Reader.run, Reader.finish, Reader.endOfText]

theorem readAll_of_read {cs rest : List Char} {v : Value}
    (hread : Reader.read cs = (some (.ok v), rest)) :
    Reader.readAll cs = (Reader.readAll rest).map (v :: ·) := by
  rw [Reader.readAll]
  split <;> simp_all

/-- **Reading what was written gives the value back**, and nothing else. -/
theorem readAll_write {v : Value} (hv : v.Readable) : Reader.readAll v.write.toList = .ok [v] := by
  have hrun := hv.readsBack [] [] Reader.endsToken_nil
  have hread : Reader.read v.write.toList = (some (.ok v), []) := by
    rw [List.append_nil] at hrun
    rw [write, String.toList_ofList, Reader.read, hrun, Reader.deliverDatum, Reader.Delivery.resume]
  rw [readAll_of_read hread, readAll_nil]
  rfl

/-- A value of every kind with delimiters, escapes and words of numbers in it. -/
def assorted : Value :=
  .list [.bool false, .char '(', .char '\x01', .int (-7), .long (-5000000000),
    .double (Float.ofBits 0x3fb999999999999a), .double (Float.ofBits 0xfff0000000000000),
    .text "a \"b\"\\\n", .list [.symbol "", .symbol ".", .symbol "-1e3", .symbol "a|\\b", .symbol "x"],
    .list []]

theorem readAll_write_assorted :
    assorted.Readable ∧ Reader.readAll assorted.write.toList = .ok [assorted] := by
  have hreadable : assorted.Readable := by
    refine .list ?_
    simp only [List.forall_mem_cons, List.not_mem_nil, false_imp_iff, implies_true, and_true]
    refine ⟨.bool _, .char _, .char _, .int _, .long (by decide), .double ?_ ?_, .double ?_ ?_,
      .text _, .list ?_, .list (by simp)⟩
    · decide +kernel
    · decide +kernel
    · decide +kernel
    · decide +kernel
    · simp only [List.forall_mem_cons, List.not_mem_nil, false_imp_iff, implies_true, and_true]
      exact ⟨.symbol _, .symbol _, .symbol _, .symbol _, .symbol _⟩
  exact ⟨hreadable, readAll_write hreadable⟩

end Value

end Multimethod
