import Multimethod.Proofs.Decimal.Double
import Multimethod.Proofs.Reader.Token

/-!
# Written numbers and symbols as atoms

* `run_int`, `run_long`, `run_double` — a written number reads as itself: whole numbers in the
  width that is the narrowest for them, doubles unless they have no number for a text.
* `run_writtenSymbol` — a written symbol reads as itself, whatever its name.
-/

namespace Multimethod.Reader

variable {stack : List Frame} {rest : List Char}

/-! ## Numbers -/

theorem isPlain_of_isDigit {c : Char} (hc : c.isDigit = true) : isPlain c = true := by
  have hrange : 48 ≤ c.toNat ∧ c.toNat ≤ 57 := Char.isDigit_iff_toNat.1 hc
  have hblank : Text.isBlank c = false := by
    have hspace : c ≠ ' ' := by
      rintro rfl
      exact absurd hc (by decide)
    simp only [Text.isBlank, hspace, decide_false, Bool.false_or, Bool.or_eq_false_iff,
      Bool.and_eq_false_iff, decide_eq_false_iff_not]
    omega
  have hbarred : c ∉ Value.barredCharacters := by
    intro hmem
    have hall : Value.barredCharacters.all (fun c' => !c'.isDigit) = true := rfl
    have hnone := List.all_eq_true.1 hall c hmem
    rw [hc] at hnone
    cases hnone
  simp [isPlain, hblank, hbarred]

theorem isPlain_of_isNumberCharacter {c : Char} (hc : Decimal.isNumberCharacter c = true) :
    isPlain c = true := by
  rw [Decimal.isNumberCharacter, Bool.or_eq_true] at hc
  rcases hc with hc | hc
  · exact isPlain_of_isDigit hc
  · have hall : ['-', '.', 'e', 'i', 'n', 'f'].all isPlain = true := rfl
    exact List.all_eq_true.1 hall c (List.contains_iff_mem.1 hc)

/-- The text starts as numbers do and goes on with characters of numbers. -/
structure IsNumberText (cs : List Char) : Prop where
  start : ∃ c rest, cs = c :: rest ∧ (c = '-' ∨ c.isDigit = true)
  characters : cs.all Decimal.isNumberCharacter = true

namespace IsNumberText

theorem integerText (n : Int) : IsNumberText (Decimal.integerText n) :=
  ⟨Decimal.integerText_eq_cons n, Decimal.all_isNumberCharacter_integerText n⟩

theorem doubleText {x : Float} (hnumber : Decimal.isNaN x = false)
    (hfinite : x.toBits.toNat ≠ Decimal.infinityBits) : IsNumberText (Decimal.doubleText x) :=
  ⟨Decimal.doubleText_eq_cons hnumber hfinite, Decimal.all_isNumberCharacter_doubleText hnumber⟩

variable {cs : List Char}

theorem startsNumber_of_start {c : Char} (hc : c = '-' ∨ c.isDigit = true) :
    (c = '-' || c = '.' || c.isDigit) = true := by
  rcases hc with rfl | hc <;> simp [*]

/-- A whole number is read in the narrowest width that holds it. -/
theorem number?_of_int64? (htext : IsNumberText cs) {n : Int64}
    (hread : Decimal.int64? cs = some n) : Token.number? cs =
      some (if Int32.minValue.toInt ≤ n.toInt ∧ n.toInt ≤ Int32.maxValue.toInt
        then .int n.toInt32 else .long n) := by
  obtain ⟨c, others, rfl, hc⟩ := htext.start
  simp only [Token.number?, startsNumber_of_start hc, if_true, hread]
  split <;> rfl

theorem number?_of_double? (htext : IsNumberText cs) (hnone : Decimal.int64? cs = none) {x : Float}
    (hread : Decimal.double? cs = some x) : Token.number? cs = some (.double x) := by
  obtain ⟨c, others, rfl, hc⟩ := htext.start
  simp only [Token.number?, startsNumber_of_start hc, if_true, hnone, hread, Option.map_some]

theorem run_eq (htext : IsNumberText cs) {v : Value} (hnumber : Token.number? cs = some v)
    (hrest : EndsToken rest) :
    run .between stack (cs ++ rest) = (deliverDatum v stack).resume rest := by
  obtain ⟨⟨c, others, rfl, hc⟩, hcharacters⟩ := htext
  have hplain : (c :: others).all isPlain = true := by
    rw [List.all_eq_true] at hcharacters ⊢
    exact fun c' hc' => isPlain_of_isNumberCharacter (hcharacters c' hc')
  have hhash : c ≠ '#' := by
    rintro rfl
    exact absurd hc (by decide)
  have hdot : c ≠ '.' := by
    rintro rfl
    exact absurd hc (by decide)
  have hatom : Token.ofAtom (c :: others) = .datum v := by
    simp [Token.ofAtom, hnumber, hhash, hdot]
  rw [run_atom hplain hhash hrest, hatom, deliver]

end IsNumberText

/-- **A written whole number of the narrow width reads as itself.** -/
theorem run_int (n : Int32) (hrest : EndsToken rest) :
    run .between stack (Decimal.integerText n.toInt ++ rest) =
      (deliverDatum (.int n) stack).resume rest := by
  have hread := Decimal.int64?_integerText n.toInt64
  rw [Int32.toInt_toInt64] at hread
  have htext := IsNumberText.integerText n.toInt
  have hnumber := htext.number?_of_int64? hread
  rw [Int32.toInt_toInt64, if_pos ⟨n.le_toInt, n.toInt_le⟩, Int32.toInt32_toInt64] at hnumber
  exact htext.run_eq hnumber hrest

/-- **A written whole number of the wide width reads as itself**, unless the narrow one holds it. -/
theorem run_long {n : Int64}
    (hwide : ¬(Int32.minValue.toInt ≤ n.toInt ∧ n.toInt ≤ Int32.maxValue.toInt))
    (hrest : EndsToken rest) :
    run .between stack (Decimal.integerText n.toInt ++ rest) =
      (deliverDatum (.long n) stack).resume rest := by
  have htext := IsNumberText.integerText n.toInt
  have hnumber := htext.number?_of_int64? (Decimal.int64?_integerText n)
  rw [if_neg hwide] at hnumber
  exact htext.run_eq hnumber hrest

/-- **A written double reads as itself**, unless it is no number or infinity. -/
theorem run_double {x : Float} (hnumber : Decimal.isNaN x = false)
    (hfinite : x.toBits.toNat ≠ Decimal.infinityBits) (hrest : EndsToken rest) :
    run .between stack (Decimal.doubleText x ++ rest) =
      (deliverDatum (.double x) stack).resume rest := by
  have htext := IsNumberText.doubleText hnumber hfinite
  have hread := htext.number?_of_double? (Decimal.int64?_doubleText hnumber)
    (Decimal.double?_doubleText hnumber)
  exact htext.run_eq hread hrest

/-! ## Symbols -/

theorem number?_eq_none {cs : List Char} (hnone : Decimal.double? cs = none) :
    Token.number? cs = none := by
  have hint : Decimal.int64? cs = none := by
    unfold Decimal.int64?
    split
    · rename_i n hread
      have hsome := Decimal.isSome_double?_of_integer? hread
      rw [hnone] at hsome
      cases hsome
    · rfl
  cases cs with
  | nil => rfl
  | cons c others => simp [Token.number?, hint, hnone]

theorem number?_eq_none_of_start {c : Char} (hstart : Value.startsNumber c = false)
    (others : List Char) : Token.number? (c :: others) = none := by
  unfold Value.startsNumber at hstart
  rw [Token.number?, hstart, if_neg Bool.false_ne_true]

/-- A name that needs no bars is an atom of plain characters that stands for the symbol. -/
theorem atom_of_needsBars_eq_false {name : List Char} (hname : Value.needsBars name = false) :
    ∃ c others, name = c :: others ∧ c ≠ '#' ∧ name.all isPlain = true ∧
      Token.ofAtom name = .datum (.symbol (String.ofList name)) := by
  cases name with
  | nil => cases hname
  | cons c others =>
    simp only [Value.needsBars, Bool.or_eq_false_iff, decide_eq_false_iff_not,
      Bool.and_eq_false_iff, List.any_eq_false, Option.isSome_eq_false_iff,
      Option.isNone_iff_eq_none] at hname
    obtain ⟨⟨⟨hdot, hplain⟩, hhash⟩, hnumber⟩ := hname
    have hnone : Token.number? (c :: others) = none := by
      rcases hnumber with hstart | hdouble
      · exact number?_eq_none_of_start hstart others
      · exact number?_eq_none hdouble
    refine ⟨c, others, rfl, hhash, ?_, ?_⟩
    · rw [List.all_eq_true]
      intro c' hc'
      simpa [isPlain] using hplain c' hc'
    · rw [Token.ofAtom, if_neg hdot]
      simp [hhash, hnone]

/-- **A written symbol reads as itself**, whatever its name. -/
theorem run_writtenSymbol (s : String) (hrest : EndsToken rest) :
    run .between stack (Value.writtenSymbol s.toList ++ rest) =
      (deliverDatum (.symbol s) stack).resume rest := by
  unfold Value.writtenSymbol
  split
  · rw [List.append_assoc, List.singleton_append, run_barred]
  · rename_i hbars
    obtain ⟨c, others, hcs, hhash, hplain, hatom⟩ :=
      atom_of_needsBars_eq_false (Bool.eq_false_of_not_eq_true hbars)
    rw [String.ofList_toList] at hatom
    rw [hcs] at hplain hatom ⊢
    rw [run_atom hplain hhash hrest, hatom, deliver]

end Multimethod.Reader
