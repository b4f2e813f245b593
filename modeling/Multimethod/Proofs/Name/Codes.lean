import Mathlib.Data.List.Forall2
import Multimethod.Name.Mangle
import Multimethod.Proofs.Text.Hex

/-!
# Codes that are read back

A key is read code by code. Each code is told from its front, whatever follows it: no code of a character
is the beginning of a longer one. What is read as a character is more than its code, though. A letter or a
digit may be written by its code point, and a blank may stand for itself.

* `Spelling` — the texts that are read as a character.
* `decode_spelling_append`, `decode_eq_some_iff` — a text is read as a name exactly if it is a row of
  spellings of the characters of the name.
* `codeBy`, `mangleBy` — codes and keys by any class of letters and digits.
* `demangle_mangle` — a key is read back as its name, whatever counts as a letter or a digit.
-/

namespace Multimethod.Name

/-- The texts that are read as a character. -/
inductive Spelling : Char → List Char → Prop
  | hyphen : Spelling '-' ['_']
  | capital {c : Char} (hc : c.isLower) : Spelling c.toUpper ['U', c]
  | punctuation {c letter : Char} (hletter : punctuationOf? letter = some c) : Spelling c [letter]
  /-- The character itself, which is a letter or a digit in the keys of names only. -/
  | bare {c : Char} (hlow : c ≠ '_') (hupper : ¬ c.isUpper) : Spelling c [c]
  /-- The code point, in digits of either case. -/
  | short {c : Char} {digits : List Char} (hlength : digits.length = 4)
    (hdigits : Text.charOfHex? digits = some c) : Spelling c ('X' :: digits)
  | long {c : Char} {digits : List Char} (hlength : digits.length = 6)
    (hdigits : Text.charOfHex? digits = some c) : Spelling c ('X' :: 'X' :: digits)

/-! ## Reading a spelling -/

theorem mem_punctuation_of_punctuationOf? {c letter : Char} (h : punctuationOf? letter = some c) :
    (c, letter) ∈ punctuation := by
  obtain ⟨p, hfind, rfl⟩ := Option.map_eq_some_iff.1 h
  have hletter := List.find?_some hfind
  rw [decide_eq_true_eq] at hletter
  exact hletter ▸ List.mem_of_find?_eq_some hfind

theorem mem_punctuation_of_codeLetter? {c letter : Char} (h : codeLetter? c = some letter) :
    (c, letter) ∈ punctuation := by
  obtain ⟨p, hfind, rfl⟩ := Option.map_eq_some_iff.1 h
  have hfirst := List.find?_some hfind
  rw [decide_eq_true_eq] at hfirst
  exact hfirst ▸ List.mem_of_find?_eq_some hfind

/-- Code letters are capitals, and none of them is `U`, `X` or a hyphen's code. -/
theorem codeLetter_of_punctuationOf? {c letter : Char} (h : punctuationOf? letter = some c) :
    letter.isUpper ∧ letter ≠ 'U' ∧ letter ≠ 'X' ∧ letter ≠ '_' ∧ codeLetter? c = some letter := by
  have hall : ∀ p ∈ punctuation, p.2.isUpper ∧ p.2 ≠ 'U' ∧ p.2 ≠ 'X' ∧ p.2 ≠ '_' ∧
      codeLetter? p.1 = some p.2 := by decide
  exact hall _ (mem_punctuation_of_punctuationOf? h)

theorem punctuationOf?_of_codeLetter? {c letter : Char} (h : codeLetter? c = some letter) :
    punctuationOf? letter = some c := by
  have hall : ∀ p ∈ punctuation, punctuationOf? p.2 = some p.1 := by decide
  exact hall _ (mem_punctuation_of_codeLetter? h)

theorem nextCode?_punctuation {c letter : Char} (h : punctuationOf? letter = some c)
    (rest : List Char) : nextCode? letter rest = some (c, rest) := by
  obtain ⟨hupper, hU, hX, hlow, -⟩ := codeLetter_of_punctuationOf? h
  unfold nextCode?
  split <;> simp_all

theorem nextCode?_self {c : Char} (hlow : c ≠ '_') (hupper : ¬ c.isUpper) (rest : List Char) :
    nextCode? c rest = some (c, rest) := by
  unfold nextCode?
  split
  · exact absurd rfl hlow
  · exact absurd (by decide) hupper
  · exact absurd (by decide) hupper
  · exact absurd (by decide) hupper
  · exact absurd (by decide) hupper
  · rw [if_neg hupper]

theorem hexCode?_append {digits : List Char} {c : Char} (hdigits : Text.charOfHex? digits = some c)
    (rest : List Char) : nextCode?.hexCode? digits.length (digits ++ rest) = some (c, rest) := by
  unfold nextCode?.hexCode?
  rw [if_neg (by rw [List.length_append]; omega), List.take_left, List.drop_left, hdigits]
  rfl

/-- The mark of six digits is no digit, so four digits are not taken for more. -/
theorem nextCode?_short {digits : List Char} {c : Char} (hlength : digits.length = 4)
    (hdigits : Text.charOfHex? digits = some c) (rest : List Char) :
    nextCode? 'X' (digits ++ rest) = some (c, rest) := by
  have hcode := hexCode?_append hdigits rest
  have hX : 'X' ∉ digits := by
    intro hmem
    rw [Text.charOfHex?_eq_none_of_mem (by decide) (by decide) hmem] at hdigits
    cases hdigits
  have hne : digits ≠ [] := by
    rintro rfl
    cases hlength
  obtain ⟨d, others, rfl⟩ := List.exists_cons_of_ne_nil hne
  rw [hlength] at hcode
  unfold nextCode?
  split
  · rename_i heq
    exact absurd heq (by decide)
  · rename_i heq _
    exact absurd heq (by decide)
  · rename_i heq _
    exact absurd heq (by decide)
  · rename_i heq
    rw [List.cons_append, List.cons.injEq] at heq
    exact absurd (List.mem_cons.2 (.inl heq.1.symm)) hX
  · exact hcode
  · rename_i h _ _ _
    exact absurd rfl h

theorem decode_cons {x c : Char} {tail rest : List Char} (h : nextCode? x tail = some (c, rest)) :
    decode (x :: tail) = (decode rest).map (c :: ·) := by
  rw [decode]
  split
  · rename_i hnone
    rw [h] at hnone
    cases hnone
  · rename_i hsome
    rw [h] at hsome
    cases hsome
    rfl

/-- **A spelling is read as its character,** whatever follows it. -/
theorem decode_spelling_append {c : Char} {piece : List Char} (h : Spelling c piece) (rest : List Char) :
    decode (piece ++ rest) = (decode rest).map (c :: ·) := by
  cases h with
  | hyphen => exact decode_cons rfl
  | capital hc => exact decode_cons (if_pos hc)
  | punctuation hletter => exact decode_cons (nextCode?_punctuation hletter rest)
  | bare hlow hupper => exact decode_cons (nextCode?_self hlow hupper rest)
  | short hlength hdigits => exact decode_cons (nextCode?_short hlength hdigits rest)
  | long hlength hdigits =>
    have hcode := hexCode?_append hdigits rest
    rw [hlength] at hcode
    exact decode_cons hcode

/-! ## What is read -/

theorem exists_digits_of_hexCode? {width : Nat} {tail rest : List Char} {c : Char}
    (h : nextCode?.hexCode? width tail = some (c, rest)) :
    ∃ digits, digits.length = width ∧ Text.charOfHex? digits = some c ∧ tail = digits ++ rest := by
  unfold nextCode?.hexCode? at h
  split at h
  · cases h
  · rename_i hlength
    obtain ⟨d, hd, heq⟩ := Option.map_eq_some_iff.1 h
    cases heq
    exact ⟨tail.take width, List.length_take_of_le (by omega), hd, (List.take_append_drop width tail).symm⟩

theorem exists_spelling {x c : Char} {tail rest : List Char} (h : nextCode? x tail = some (c, rest)) :
    ∃ piece, Spelling c piece ∧ x :: tail = piece ++ rest := by
  unfold nextCode? at h
  split at h
  · cases h
    exact ⟨_, .hyphen, rfl⟩
  · rename_i d others
    split at h
    · rename_i hlower
      cases h
      exact ⟨_, .capital hlower, rfl⟩
    · cases h
  · cases h
  · obtain ⟨digits, hlength, hdigits, rfl⟩ := exists_digits_of_hexCode? h
    exact ⟨_, .long hlength hdigits, rfl⟩
  · obtain ⟨digits, hlength, hdigits, rfl⟩ := exists_digits_of_hexCode? h
    exact ⟨_, .short hlength hdigits, rfl⟩
  · rename_i hlow _ _ _ _
    split at h
    · obtain ⟨d, hd, heq⟩ := Option.map_eq_some_iff.1 h
      cases heq
      exact ⟨_, .punctuation hd, rfl⟩
    · rename_i hupper
      cases h
      exact ⟨_, .bare hlow hupper, rfl⟩

/-- **A text is read as a name exactly if it is a row of spellings of its characters.** -/
theorem decode_eq_some_iff {key cs : List Char} :
    decode key = some cs ↔ ∃ pieces, List.Forall₂ Spelling cs pieces ∧ key = pieces.flatten := by
  constructor
  · intro h
    fun_induction decode key generalizing cs with
    | case1 =>
      cases h
      exact ⟨[], .nil, rfl⟩
    | case2 x tail hnone => cases h
    | case3 x tail c rest hsome ih =>
      obtain ⟨others, hothers, rfl⟩ := Option.map_eq_some_iff.1 h
      obtain ⟨piece, hpiece, hkey⟩ := exists_spelling hsome
      obtain ⟨pieces, hpieces, rfl⟩ := ih hothers
      exact ⟨piece :: pieces, .cons hpiece hpieces, hkey⟩
  · rintro ⟨pieces, hpieces, rfl⟩
    induction hpieces with
    | nil => rw [List.flatten_nil, decode]
    | cons hpiece _ ih => rw [List.flatten_cons, decode_spelling_append hpiece, ih, Option.map_some]

/-! ## Codes -/

/-- The code of one character, if the letters and digits are those of this class. -/
def codeBy (isLetter : Char → Bool) (c : Char) : List Char :=
  if c = '-' then ['_']
  else if c.isUpper then ['U', c.toLower]
  else match codeLetter? c with
    | some letter => [letter]
    | none =>
      if c ≠ '_' ∧ isLetter c then [c]
      else if c.toNat ≤ 0xffff then 'X' :: Text.fixedHex 4 c.toNat
      else 'X' :: 'X' :: Text.fixedHex 6 c.toNat

/-- The key of a name, if the letters and digits are those of this class. -/
def mangleBy (isLetter : Char → Bool) (name : String) : String :=
  String.ofList (name.toList.flatMap (codeBy isLetter))

theorem mangle_eq_mangleBy : mangle = mangleBy Text.isAlphanumeric := rfl

/-- A capital has a small form, which has the capital for its large one. -/
theorem toLower_of_isUpper {c : Char} (hc : c.isUpper) : c.toLower.isLower ∧ c.toLower.toUpper = c := by
  have hall : ∀ n : Fin 26, (Char.ofNat (65 + n)).toLower.isLower ∧
      (Char.ofNat (65 + n)).toLower.toUpper = Char.ofNat (65 + n) := by decide
  have hrange : 65 ≤ c.toNat ∧ c.toNat ≤ 90 := by
    have hcode : 65 ≤ c.val ∧ c.val ≤ 90 := of_decide_eq_true hc
    simp only [UInt32.le_iff_toNat_le] at hcode
    exact hcode
  have hletter := hall ⟨c.toNat - 65, by omega⟩
  rwa [show 65 + (c.toNat - 65) = c.toNat by omega, Char.ofNat_toNat] at hletter

/-- The code of a character is a spelling of it, whatever counts as a letter or a digit. -/
theorem spelling_codeBy (isLetter : Char → Bool) (c : Char) : Spelling c (codeBy isLetter c) := by
  unfold codeBy
  split
  · rename_i hhyphen
    exact hhyphen ▸ .hyphen
  · split
    · rename_i hupper
      have hcode := Spelling.capital (toLower_of_isUpper hupper).1
      rwa [(toLower_of_isUpper hupper).2] at hcode
    · rename_i hupper
      split
      · rename_i letter hletter
        exact .punctuation (punctuationOf?_of_codeLetter? hletter)
      · split
        · rename_i hself
          exact .bare hself.1 hupper
        · split
          · rename_i hsmall
            exact .short (Text.length_fixedHex 4 _) (Text.charOfHex?_fixedHex_four hsmall)
          · exact .long (Text.length_fixedHex 6 _) (Text.charOfHex?_fixedHex_six c)

theorem decode_flatMap_codeBy (isLetter : Char → Bool) (cs : List Char) :
    decode (cs.flatMap (codeBy isLetter)) = some cs := by
  induction cs with
  | nil => rw [List.flatMap_nil, decode]
  | cons c rest ih =>
    rw [List.flatMap_cons, decode_spelling_append (spelling_codeBy isLetter c), ih, Option.map_some]

theorem decode_encode (cs : List Char) : decode (encode cs) = some cs :=
  decode_flatMap_codeBy Text.isAlphanumeric cs

theorem demangle_mangleBy (isLetter : Char → Bool) (name : String) :
    demangle (mangleBy isLetter name) = some name := by
  rw [demangle, mangleBy, String.toList_ofList, decode_flatMap_codeBy, Option.map_some, String.ofList_toList]

/-- Names of one key are equal, whatever counts as a letter or a digit. -/
theorem mangleBy_injective (isLetter : Char → Bool) : Function.Injective (mangleBy isLetter) := by
  intro m n h
  have hname := demangle_mangleBy isLetter m
  rw [h, demangle_mangleBy] at hname
  exact (Option.some.inj hname).symm

/-- **A key is read back as its name,** so that names of one key are equal. This holds whatever counts as a
letter or a digit. -/
theorem demangle_mangle :
    (∀ name, demangle (mangle name) = some name) ∧ Function.Injective mangle ∧
    ∀ isLetter, (∀ name, demangle (mangleBy isLetter name) = some name) ∧
      Function.Injective (mangleBy isLetter) := by
  have hany (isLetter : Char → Bool) : (∀ name, demangle (mangleBy isLetter name) = some name) ∧
      Function.Injective (mangleBy isLetter) :=
    ⟨demangle_mangleBy isLetter, mangleBy_injective isLetter⟩
  rw [mangle_eq_mangleBy]
  exact ⟨(hany _).1, (hany _).2, hany⟩

end Multimethod.Name
