import Multimethod.Proofs.Reader.FromText
import Multimethod.Proofs.Reader.RoundTrip
import Multimethod.Proofs.Value.Equal

/-!
# Reading again what was read

Whatever was read has a written form that is read again, and all but some doubles are read again as they
were. Too large a numeral is read as infinity, and `-nan` as what is no number. These are written as words,
and to the reader the words are symbols.

* `Value.reread` — what the written form of a value that was read is read as.
* `Value.FromText.readsAs` — it is read so wherever it stands.
* `Value.equal_reread` — that is the value again unless there is a double in it that is written as a word.
* `Value.readAll_writeAll_of_readAll` — reading the written forms of what was read.
* `Value.infinity_reread_as_symbol` — infinity is read again as a symbol.
-/

namespace Multimethod

/-- Is the double written as a word that is a symbol to the reader? -/
def Decimal.isWord (x : Float) : Bool := isNaN x || x.toBits.toNat = infinityBits

namespace Value

mutual

/-- What the written form of a value that was read is read as. -/
def reread : Value → Value
  | double x => if Decimal.isWord x then symbol (String.ofList (Decimal.doubleText x)) else double x
  | list items => list (rereadAll items)
  | v => v

def rereadAll : List Value → List Value
  | [] => []
  | v :: rest => reread v :: rereadAll rest

end

mutual

/-- Is there a double in the value that is written as a word? -/
def hasWord : Value → Bool
  | double x => Decimal.isWord x
  | list items => anyHasWord items
  | _ => false

def anyHasWord : List Value → Bool
  | [] => false
  | v :: rest => hasWord v || anyHasWord rest

end

/-! ## What is lost -/

mutual

/-- **A value is read again as its equal unless there is a double in it that is written as a word.** -/
theorem equal_reread (v : Value) : v.equal v.reread = !v.hasWord := by
  cases v with
  | double x =>
    unfold reread hasWord
    cases hword : Decimal.isWord x with
    | true => rfl
    | false =>
      have hnumber : Decimal.isNaN x = false := (Bool.or_eq_false_iff.1 hword).1
      simp [equal, Decimal.sameNumber, hnumber]
  | list xs => exact equalLists_rereadAll xs
  | procedure a => simp [equal, reread, hasWord, Callable.sameDispatch]
  | host a => simp [equal, reread, hasWord, HostObject.same]
  | _ => simp [equal, reread, hasWord]

theorem equalLists_rereadAll (xs : List Value) : equalLists xs (rereadAll xs) = !anyHasWord xs := by
  cases xs with
  | nil => rfl
  | cons x xs =>
    rw [rereadAll, equalLists, equal_reread x, equalLists_rereadAll xs, anyHasWord, Bool.not_or]

end

/-! ## Written forms of what was read -/

open Reader

/-- A double that is written as a word is read again as the symbol of the word. -/
theorem readsAs_of_isWord {x : Float} (hword : Decimal.isWord x = true) :
    ReadsAs (Decimal.doubleText x) (.symbol (String.ofList (Decimal.doubleText x))) := by
  have hname : writtenSymbol (Decimal.doubleText x) = Decimal.doubleText x := by
    unfold Decimal.doubleText
    split
    · rfl
    · rename_i hnumber
      have hinfinite : x.toBits.toNat = Decimal.infinityBits := by
        simpa [Decimal.isWord, hnumber] using hword
      have hmagnitude : Decimal.magnitudeBits x = Decimal.infinityBits := by
        rw [Decimal.magnitudeBits, hinfinite]
        rfl
      rw [if_neg (by rw [hinfinite]; decide), hmagnitude]
      rfl
  have hread : ReadsAs (writtenSymbol (String.ofList (Decimal.doubleText x)).toList)
      (.symbol (String.ofList (Decimal.doubleText x))) := (Readable.symbol _).readsBack
  rwa [String.toList_ofList, hname] at hread

theorem rereadAll_eq_map (vs : List Value) : rereadAll vs = vs.map reread := by
  induction vs with
  | nil => rfl
  | cons v rest ih => rw [rereadAll, ih, List.map_cons]

/-- **What was read is written, and read again as `reread` says,** wherever the written form stands. -/
theorem FromText.readsAs {v : Value} (hv : v.FromText) : ReadsAs (v.chars true) v.reread := by
  induction hv with
  | bool b => exact (Readable.bool b).readsBack
  | char c => exact (Readable.char c).readsBack
  | int n => exact (Readable.int n).readsBack
  | long hwide => exact (Readable.long (by omega)).readsBack
  | double x =>
    rw [reread]
    split
    · rename_i hword
      exact readsAs_of_isWord hword
    · rename_i hword
      have hreadable : Decimal.isNaN x = false ∧ x.toBits.toNat ≠ Decimal.infinityBits := by
        simpa [Decimal.isWord] using hword
      exact (Readable.double hreadable.1 hreadable.2).readsBack
  | text s => exact (Readable.text s).readsBack
  | symbol name => exact (Readable.symbol name).readsBack
  | @list items _ ih =>
    rw [reread, rereadAll_eq_map]
    exact readsAs_list (row_itemChars (List.forall₂_map_right_iff.2 (List.forall₂_same.2 ih)))

/-- **Reading again what was read.** The written forms of the data of any text, with single spaces between
them, are read as equal data in the same order exactly if no double among these, or in a list among these,
is what is no number or positive infinity. Such doubles become the symbols of the words that are written
for them, and all else is the same. -/
theorem readAll_writeAll_of_readAll {text : String} {vs : List Value} (h : readAll text.toList = .ok vs) :
    readAll (writeAll vs).toList = .ok (rereadAll vs) ∧
      (equalLists vs (rereadAll vs) ↔ anyHasWord vs = false) := by
  constructor
  · have hread : ∀ v ∈ vs, ReadsAs (v.chars true) v.reread := fun v hv => (fromText_readAll h v hv).readsAs
    rw [toList_writeAll, rereadAll_eq_map]
    exact (row_itemChars (List.forall₂_map_right_iff.2 (List.forall₂_same.2 hread))).readAll_eq
  · rw [equalLists_rereadAll, Bool.not_eq_true']

/-- The data of `('|b| . (-2.5 #\\x41)) -1e999`. -/
def varied : List Value :=
  [.list [.list [.symbol "quote", .symbol "b"], .double (Float.ofBits 0xc004000000000000), .char 'A'],
    .double (Float.ofBits 0xfff0000000000000)]

/-- Shorthands, a spliced tail, the code of a character and a numeral that is too large are written in other
forms than those they were read from. -/
theorem readAll_writeAll_of_readAll_of_varied :
    readAll "('|b| . (-2.5 #\\x41)) -1e999".toList = .ok varied ∧
    readAll "((quote b) -2.5 #\\A) -inf".toList = .ok varied ∧ equalLists varied varied := by
  have hread : readAll "('|b| . (-2.5 #\\x41)) -1e999".toList = .ok varied := by
    rw [readAll_eq_readOn]
    rfl
  obtain ⟨hagain, hequal⟩ := readAll_writeAll_of_readAll hread
  have htext : writeAll varied = "((quote b) -2.5 #\\A) -inf" := by decide +kernel
  have hsame : rereadAll varied = varied := by rfl
  rw [htext, hsame] at hagain
  rw [hsame] at hequal
  exact ⟨hread, hagain, hequal.2 (by decide +kernel)⟩

/-- **Positive infinity is read again as a symbol.** `1e999` is too large a numeral, and is read as positive
infinity. -/
theorem infinity_reread_as_symbol :
    readAll "1e999".toList = .ok [.double (Float.ofBits 0x7ff0000000000000)] ∧
    readAll (writeAll [.double (Float.ofBits 0x7ff0000000000000)]).toList = .ok [.symbol "inf"] ∧
    equalLists [.double (Float.ofBits 0x7ff0000000000000)] [.symbol "inf"] = false := by
  refine ⟨?_, ?_, rfl⟩
  · rw [readAll_eq_readOn]
    rfl
  · rw [readAll_eq_readOn]
    rfl

end Value

end Multimethod
