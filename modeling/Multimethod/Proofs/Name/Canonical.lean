import Multimethod.Proofs.Name.Codes

/-!
# Canonical keys

More texts are read as a name than the key of the name. A key is canonical if each part of it is written as
mangling writes it: only letters and digits stand for themselves, and a code point is written for a
character that has no other code, in small digits, and in four of them if they are enough.

* `canonicalCode_iff` — the canonical codes are the codes of characters.
* `isCanonical_iff` — the canonical keys are the keys of names.
* `canonical_keys_only` — a name is mangled to what was read as it exactly if that is canonical.
* `demangle_reads_foreign_keys` — a text that is not may be read as a name all the same.
-/

namespace Multimethod.Name

/-- Is the character neither a letter nor a digit, nor of those that have another code? -/
def isEscaped (c : Char) : Bool := !Text.isAlphanumeric c && c ≠ '-' && (codeLetter? c).isNone

/-- The codes that keys of names are made of. -/
inductive CanonicalCode : List Char → Prop
  | hyphen : CanonicalCode ['_']
  | capital {c : Char} (hc : c.isLower) : CanonicalCode ['U', c]
  | punctuation {c letter : Char} (hletter : punctuationOf? letter = some c) : CanonicalCode [letter]
  | self {c : Char} (hc : Text.isAlphanumeric c) (hupper : ¬ c.isUpper) : CanonicalCode [c]
  | short {c : Char} {digits : List Char} (hlength : digits.length = 4)
    (hsmall : ∀ d ∈ digits, d ∈ Text.smallHexDigits) (hdigits : Text.charOfHex? digits = some c)
    (hescaped : isEscaped c) : CanonicalCode ('X' :: digits)
  /-- A code point that four digits cannot write. -/
  | long {c : Char} {digits : List Char} (hlength : digits.length = 6)
    (hsmall : ∀ d ∈ digits, d ∈ Text.smallHexDigits) (hdigits : Text.charOfHex? digits = some c)
    (hescaped : isEscaped c) (hwide : 0xffff < c.toNat) : CanonicalCode ('X' :: 'X' :: digits)

/-- Is the key a row of canonical codes? -/
def IsCanonical (key : List Char) : Prop :=
  ∃ pieces : List (List Char), (∀ piece ∈ pieces, CanonicalCode piece) ∧ key = pieces.flatten

/-! ## The codes of characters -/

theorem isAlphanumeric_of_isUpper {c : Char} (hc : c.isUpper) : Text.isAlphanumeric c := by
  have hcode : 65 ≤ c.val ∧ c.val ≤ 90 := of_decide_eq_true hc
  have hascii : c.toNat < 128 := by
    have hle : c.toNat ≤ 90 := UInt32.le_iff_toNat_le.1 hcode.2
    omega
  rw [Text.isAlphanumeric_ascii hascii]
  show (c.isUpper || c.isLower || c.isDigit) = true
  rw [hc]
  rfl

theorem codeLetter?_of_isAlphanumeric {c : Char} (hc : Text.isAlphanumeric c) : codeLetter? c = none := by
  have hall : ∀ p ∈ punctuation, Text.isAlphanumeric p.1 = false := by decide
  cases hletter : codeLetter? c with
  | none => rfl
  | some letter =>
    rw [hall _ (mem_punctuation_of_codeLetter? hletter)] at hc
    cases hc

theorem ne_of_isAlphanumeric {c d : Char} (hc : Text.isAlphanumeric c) (hd : Text.isAlphanumeric d = false) :
    c ≠ d := by
  rintro rfl
  rw [hc] at hd
  cases hd

theorem code_self {c : Char} (hc : Text.isAlphanumeric c) (hupper : ¬ c.isUpper) : code c = [c] := by
  unfold code
  rw [if_neg (ne_of_isAlphanumeric hc (by decide)), if_neg hupper, codeLetter?_of_isAlphanumeric hc]
  exact if_pos ⟨ne_of_isAlphanumeric hc (by decide), hc⟩

theorem code_punctuation {c letter : Char} (h : punctuationOf? letter = some c) : code c = [letter] := by
  have hall : ∀ p ∈ punctuation, p.1 ≠ '-' ∧ ¬ p.1.isUpper := by decide
  obtain ⟨-, -, -, -, hletter⟩ := codeLetter_of_punctuationOf? h
  obtain ⟨hhyphen, hupper⟩ := hall _ (mem_punctuation_of_punctuationOf? h)
  unfold code
  rw [if_neg hhyphen, if_neg hupper, hletter]

theorem code_capital {c : Char} (hc : c.isLower) : code c.toUpper = ['U', c] := by
  have hall : ∀ n : Fin 26, (Char.ofNat (97 + n)).toUpper.isUpper ∧
      (Char.ofNat (97 + n)).toUpper.toLower = Char.ofNat (97 + n) := by decide
  have hrange : 97 ≤ c.toNat ∧ c.toNat ≤ 122 := by
    have hcode : (decide (97 ≤ c.val) && decide (c.val ≤ 122)) = true := hc
    simp only [Bool.and_eq_true, decide_eq_true_eq, UInt32.le_iff_toNat_le] at hcode
    exact hcode
  have hletter := hall ⟨c.toNat - 97, by omega⟩
  rw [show 97 + (c.toNat - 97) = c.toNat by omega, Char.ofNat_toNat] at hletter
  have hhyphen : c.toUpper ≠ '-' := ne_of_isAlphanumeric (isAlphanumeric_of_isUpper hletter.1) (by decide)
  unfold code
  rw [if_neg hhyphen, if_pos hletter.1, hletter.2]

theorem code_of_isEscaped {c : Char} (h : isEscaped c) : code c =
    if c.toNat ≤ 0xffff then 'X' :: Text.fixedHex 4 c.toNat else 'X' :: 'X' :: Text.fixedHex 6 c.toNat := by
  simp only [isEscaped, Bool.and_eq_true, Bool.not_eq_true', decide_eq_true_eq,
    Option.isNone_iff_eq_none] at h
  obtain ⟨⟨hletter, hhyphen⟩, hnone⟩ := h
  have hupper : ¬ c.isUpper := fun hc => ne_of_isAlphanumeric (isAlphanumeric_of_isUpper hc) hletter rfl
  have hself : ¬ (c ≠ '_' ∧ Text.isAlphanumeric c) := fun hc => ne_of_isAlphanumeric hc.2 hletter rfl
  unfold code
  rw [if_neg hhyphen, if_neg hupper, hnone]
  exact if_neg hself

theorem canonicalCode_code (c : Char) : CanonicalCode (code c) := by
  by_cases hescaped : isEscaped c
  · rw [code_of_isEscaped hescaped]
    split
    · rename_i hsmall
      exact .short (Text.length_fixedHex 4 _) Text.mem_smallHexDigits_of_fixedHex
        (Text.charOfHex?_fixedHex_four hsmall) hescaped
    · exact .long (Text.length_fixedHex 6 _) Text.mem_smallHexDigits_of_fixedHex
        (Text.charOfHex?_fixedHex_six c) hescaped (by omega)
  · unfold code
    split
    · exact .hyphen
    · rename_i hhyphen
      split
      · rename_i hupper
        exact .capital (toLower_of_isUpper hupper).1
      · rename_i hupper
        split
        · rename_i letter hletter
          exact .punctuation (punctuationOf?_of_codeLetter? hletter)
        · rename_i hnone
          have hletter : Text.isAlphanumeric c := by simpa [isEscaped, hhyphen, hnone] using hescaped
          rw [if_pos ⟨ne_of_isAlphanumeric hletter (by decide), hletter⟩]
          exact .self hletter hupper

/-- **The canonical codes are the codes of characters.** -/
theorem canonicalCode_iff {piece : List Char} : CanonicalCode piece ↔ ∃ c, code c = piece := by
  constructor
  · intro h
    cases h with
    | hyphen => exact ⟨'-', rfl⟩
    | @capital c hc => exact ⟨c.toUpper, code_capital hc⟩
    | @punctuation c letter hletter => exact ⟨c, code_punctuation hletter⟩
    | @self c hc hupper => exact ⟨c, code_self hc hupper⟩
    | @short c digits hlength hsmall hdigits hescaped =>
      have hwritten := Text.fixedHex_of_charOfHex? hsmall hdigits
      rw [hlength] at hwritten
      have hfits := Text.toNat_lt_of_charOfHex? hsmall hdigits
      rw [hlength] at hfits
      exact ⟨c, by rw [code_of_isEscaped hescaped, if_pos (Nat.le_of_lt_succ hfits), hwritten]⟩
    | @long c digits hlength hsmall hdigits hescaped hwide =>
      have hwritten := Text.fixedHex_of_charOfHex? hsmall hdigits
      rw [hlength] at hwritten
      exact ⟨c, by rw [code_of_isEscaped hescaped, if_neg (Nat.not_le.2 hwide), hwritten]⟩
  · rintro ⟨c, rfl⟩
    exact canonicalCode_code c

/-! ## The keys of names -/

/-- **The canonical keys are the keys of names.** -/
theorem isCanonical_iff {key : List Char} : IsCanonical key ↔ ∃ cs, encode cs = key := by
  constructor
  · rintro ⟨pieces, hpieces, rfl⟩
    induction pieces with
    | nil => exact ⟨[], rfl⟩
    | cons piece pieces ih =>
      rw [List.forall_mem_cons] at hpieces
      obtain ⟨c, hc⟩ := canonicalCode_iff.1 hpieces.1
      obtain ⟨cs, hcs⟩ := ih hpieces.2
      exact ⟨c :: cs, by rw [encode, List.flatMap_cons, hc, ← encode, hcs, List.flatten_cons]⟩
  · rintro ⟨cs, rfl⟩
    refine ⟨cs.map code, fun piece hpiece => ?_, List.flatMap_def⟩
    obtain ⟨c, -, rfl⟩ := List.mem_map.1 hpiece
    exact canonicalCode_code c

theorem mangle_of_isCanonical {key name : String} (hkey : IsCanonical key.toList)
    (hname : demangle key = some name) : mangle name = key := by
  obtain ⟨cs, hcs⟩ := isCanonical_iff.1 hkey
  rw [demangle, ← hcs, decode_encode, Option.map_some, Option.some.injEq] at hname
  rw [← hname, mangle, String.toList_ofList, hcs, String.ofList_toList]

/-- **A name is mangled to a text that was read as it exactly if the text is canonical.** So of the texts
that are read as one name only one is canonical. -/
theorem canonical_keys_only {key name : String} (h : demangle key = some name) :
    (mangle name = key ↔ IsCanonical key.toList) ∧
    ∀ other, demangle other = some name → IsCanonical key.toList → IsCanonical other.toList → other = key := by
  refine ⟨⟨?_, fun hkey => mangle_of_isCanonical hkey h⟩, fun other hother hkey hotherKey => ?_⟩
  · rintro rfl
    exact isCanonical_iff.2 ⟨name.toList, String.toList_ofList.symm⟩
  · exact (mangle_of_isCanonical hotherKey hother).symm.trans (mangle_of_isCanonical hkey h)

/-- A key with a code of each kind in it is canonical, and no other canonical key is read as its name. -/
theorem canonical_keys_only_of_all_codes :
    demangle "Up3_GX002eXX01f600" = some "P3->.😀" ∧ IsCanonical "Up3_GX002eXX01f600".toList ∧
    ∀ other, demangle other = some "P3->.😀" → IsCanonical other.toList → other = "Up3_GX002eXX01f600" := by
  have hread : demangle "Up3_GX002eXX01f600" = some "P3->.😀" := by decide +kernel
  have hkey : IsCanonical "Up3_GX002eXX01f600".toList :=
    (canonical_keys_only hread).1.1 (by decide +kernel)
  exact ⟨hread, hkey, fun other hother => (canonical_keys_only hread).2 other hother hkey⟩

/-- **Texts that no name is mangled to are read as names too.** A dot is read where it stands for itself, has a
capital digit or a sign in its code point, or more digits than it needs; so is the code point of a letter. -/
theorem demangle_reads_foreign_keys :
    demangle "." = some "." ∧ demangle "X002E" = some "." ∧ demangle "X+02e" = some "." ∧
    demangle "XX00002e" = some "." ∧ mangle "." = "X002e" ∧
    demangle "X0061" = some "a" ∧ mangle "a" = "a" := by
  decide +kernel

end Multimethod.Name
