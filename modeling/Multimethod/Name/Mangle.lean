import Multimethod.Text.Alphanumeric
import Multimethod.Text.Hex

/-!
# Member keys

Members are stored under a key made of letters, digits and `_`, so that a name with punctuation,
such as `symbol->string`, has a key that is an identifier, `symbol_Gstring`. Each character of the
name has a code of its own, and the key is the codes in a row.
-/

namespace Multimethod.Name

/-- Punctuation with a code letter of its own. -/
def punctuation : List (Char × Char) :=
  [('@', 'A'), ('!', 'B'), (':', 'C'), ('/', 'D'), ('=', 'E'), ('>', 'G'), ('#', 'H'), ('<', 'L'),
   ('&', 'M'), ('+', 'P'), ('?', 'Q'), ('*', 'T'), ('^', 'V')]

def codeLetter? (c : Char) : Option Char :=
  (punctuation.find? (·.1 = c)).map (·.2)

def punctuationOf? (letter : Char) : Option Char :=
  (punctuation.find? (·.2 = letter)).map (·.1)

/-- The code of one character: `_` for a hyphen, `U` before the small form of a capital, a code
letter for punctuation, the character itself for other letters and digits, and else the code
point, in four digits after `X` or in six after `XX`. -/
def code (c : Char) : List Char :=
  if c = '-' then ['_']
  else if c.isUpper then ['U', c.toLower]
  else match codeLetter? c with
    | some letter => [letter]
    | none =>
      if c ≠ '_' ∧ Text.isAlphanumeric c then [c]
      else if c.toNat ≤ 0xffff then 'X' :: Text.fixedHex 4 c.toNat
      else 'X' :: 'X' :: Text.fixedHex 6 c.toNat

def encode (cs : List Char) : List Char := cs.flatMap code

/-- The character whose code begins a row that is not empty, and what follows the code. -/
def nextCode? : Char → List Char → Option (Char × List Char)
  | '_', rest => some ('-', rest)
  | 'U', c :: rest => if c.isLower then some (c.toUpper, rest) else none
  | 'U', [] => none
  | 'X', 'X' :: rest => hexCode? 6 rest
  | 'X', rest => hexCode? 4 rest
  | c, rest =>
    if c.isUpper then (punctuationOf? c).map (·, rest) else some (c, rest)
where
  /-- The character whose code point is written in the next `width` digits. -/
  hexCode? (width : Nat) (rest : List Char) : Option (Char × List Char) :=
    if rest.length < width then none
    else (Text.charOfHex? (rest.take width)).map (·, rest.drop width)

theorem hexCode?_length {width : Nat} {rest tail : List Char} {c : Char}
    (h : nextCode?.hexCode? width rest = some (c, tail)) : tail.length ≤ rest.length := by
  unfold nextCode?.hexCode? at h
  split at h
  · cases h
  · obtain ⟨_, _, h⟩ := Option.map_eq_some_iff.1 h
    cases h
    simp

theorem nextCode?_length {c d : Char} {rest tail : List Char}
    (h : nextCode? c rest = some (d, tail)) : tail.length ≤ rest.length := by
  unfold nextCode? at h
  split at h
  · cases h; exact Nat.le_refl _
  · split at h
    · cases h; simp
    · cases h
  · cases h
  · have := hexCode?_length h
    simp only [List.length_cons]
    omega
  · exact hexCode?_length h
  · split at h
    · obtain ⟨_, _, h⟩ := Option.map_eq_some_iff.1 h
      cases h; exact Nat.le_refl _
    · cases h; exact Nat.le_refl _

/-- The characters that a row of codes stands for; none if some part is no code. -/
def decode : List Char → Option (List Char)
  | [] => some []
  | c :: rest =>
    match _h : nextCode? c rest with
    | none => none
    | some (d, tail) => (decode tail).map (d :: ·)
termination_by cs => cs.length
decreasing_by
  have := nextCode?_length _h
  simp only [List.length_cons]
  omega

/-- The key under which members called `name` are stored. -/
def mangle (name : String) : String := String.ofList (encode name.toList)

/-- The name that a key spells, if it spells one. -/
def demangle (key : String) : Option String := (decode key.toList).map String.ofList

end Multimethod.Name
