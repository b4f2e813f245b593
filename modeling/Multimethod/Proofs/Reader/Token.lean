import Multimethod.Proofs.Text.Hex
import Multimethod.Reader.Machine
import Multimethod.Value.Printer

/-!
# Runs over one token

What the machine does with the text of a token and the characters after it. `Delivery.resume` says
how a run goes on once the token is handed to the stack, so each lemma here turns a run over the
characters of a token into one delivery.

* `run_atom`, `run_character`, `run_quoted` — the tokens by kind.
* `run_writtenText`, `run_writtenSymbol`, `run_writtenChar` — the written forms that have escapes,
  bars and names.
-/

namespace Multimethod.Reader

/-- How the call goes on after a delivery, with these characters left. -/
def Delivery.resume (rest : List Char) : Delivery → Option Outcome × List Char
  | .pending stack => run .between stack rest
  | .finished outcome => (some outcome, rest)

/-- A text at which an atom or a character literal before it ends. -/
def EndsToken (rest : List Char) : Prop := ∀ c ∈ rest.head?, Token.isBreak c = true

theorem endsToken_nil : EndsToken [] := by
  simp [EndsToken]

theorem endsToken_cons {c : Char} (hc : Token.isBreak c = true) (rest : List Char) :
    EndsToken (c :: rest) := by
  simpa [EndsToken] using hc

variable {stack : List Frame} {rest : List Char}

/-! ## Steps of a run -/

theorem run_of_more {mode mode' : Mode} {stack' : List Frame} {c : Char}
    (hstep : step mode stack c = .more mode' stack') (cs : List Char) :
    run mode stack (c :: cs) = run mode' stack' cs := by
  rw [run, hstep]

/-- A run whose token is ended by the next character or the end of the text. -/
theorem run_of_ended {mode : Mode} {delivery : Delivery}
    (hstep : ∀ c, Token.isBreak c = true → step mode stack c = stepAfter delivery c)
    (hfinish : finish mode stack = finishAfter delivery) (hrest : EndsToken rest) :
    run mode stack rest = delivery.resume rest := by
  cases rest with
  | nil =>
    rw [run, hfinish]
    cases delivery with
    | pending stack' => rw [Delivery.resume, run, finish, finishAfter]
    | finished outcome => rw [Delivery.resume, finishAfter]
  | cons c cs =>
    rw [run, hstep c (hrest c rfl)]
    cases delivery with
    | pending stack' => rw [Delivery.resume, run, step, stepAfter]
    | finished outcome => rw [Delivery.resume, stepAfter]

theorem run_of_closed {mode : Mode} {delivery : Delivery} {c : Char}
    (hstep : step mode stack c = afterToken delivery) :
    run mode stack (c :: rest) = delivery.resume rest := by
  rw [run, hstep]
  cases delivery <;> rfl

/-- A run in which each character joins those read so far. -/
theorem run_of_gathered {gathers : List Char → Mode} {p : Char → Bool}
    (hstep : ∀ c read, p c = true → step (gathers read) stack c = .more (gathers (c :: read)) stack)
    {cs : List Char} (hcs : cs.all p = true) (read : List Char) :
    run (gathers read) stack (cs ++ rest) = run (gathers (cs.reverse ++ read)) stack rest := by
  induction cs generalizing read with
  | nil => rfl
  | cons c cs ih =>
    rw [List.all_cons, Bool.and_eq_true] at hcs
    rw [List.cons_append, run_of_more (hstep c read hcs.1), ih hcs.2, List.reverse_cons,
      List.append_assoc, List.singleton_append]

theorem run_between_blank {c : Char} (hc : Text.isBlank c = true) (cs : List Char) :
    run .between stack (c :: cs) = run .between stack cs := by
  have hstep : step .between stack c = .more .between stack := by
    unfold step stepBetween
    rw [if_pos hc]
  exact run_of_more hstep cs

/-! ## Atoms -/

/-- A character that stands in an atom for itself, wherever in it. -/
def isPlain (c : Char) : Bool := !Text.isBlank c && !Value.barredCharacters.contains c

theorem isBreak_of_isPlain {c : Char} (hc : isPlain c = true) : Token.isBreak c = false := by
  simp_all [isPlain, Token.isBreak, Value.barredCharacters]

theorem ne_backslash_of_isPlain {c : Char} (hc : isPlain c = true) : c ≠ '\\' := by
  rintro rfl
  exact absurd hc (by decide)

theorem run_atom_plain {cs : List Char} (hplain : cs.all isPlain = true) (read : List Char)
    (hasEscape : Bool) : run (.atom read hasEscape) stack (cs ++ rest) =
      run (.atom (cs.reverse ++ read) hasEscape) stack rest := by
  refine @run_of_gathered stack rest (.atom · hasEscape) isPlain (fun c read hc => ?_) cs hplain read
  simp [step, isBreak_of_isPlain hc, ne_backslash_of_isPlain hc]

theorem run_atom_end (read : List Char) (hasEscape : Bool) (hrest : EndsToken rest) :
    run (.atom read hasEscape) stack rest =
      (deliver (atomToken read hasEscape) stack).resume rest := by
  refine run_of_ended (fun c hc => ?_) rfl hrest
  rw [step, if_pos hc]

/-- A plain character begins an atom, unless it is a hash. -/
theorem step_between_of_isPlain {c : Char} (hc : isPlain c = true) (hhash : c ≠ '#') :
    step .between stack c = .more (.atom [c] false) stack := by
  have hblank : Text.isBlank c = false := by simp_all [isPlain]
  unfold step stepBetween
  rw [hblank, if_neg Bool.false_ne_true]
  split
  all_goals simp_all [isPlain, Value.barredCharacters]

/-- **An atom of plain characters is what its text stands for.** -/
theorem run_atom {c : Char} {cs : List Char} (hplain : (c :: cs).all isPlain = true)
    (hhash : c ≠ '#') (hrest : EndsToken rest) :
    run .between stack (c :: cs ++ rest) = (deliver (Token.ofAtom (c :: cs)) stack).resume rest := by
  rw [List.all_cons, Bool.and_eq_true] at hplain
  rw [List.cons_append, run_of_more (step_between_of_isPlain hplain.1 hhash), run_atom_plain hplain.2,
    run_atom_end _ _ hrest, atomToken]
  simp

theorem run_bool (b : Bool) (hrest : EndsToken rest) :
    run .between stack ((Value.bool b).chars true ++ rest) =
      (deliverDatum (.bool b) stack).resume rest := by
  have hhash : step .between stack '#' = .more .hash stack := rfl
  cases b with
  | true =>
    have hletter : step .hash stack 't' = .more (.atom ['t', '#'] false) stack := rfl
    have htoken : atomToken ['t', '#'] false = .datum (.bool true) := rfl
    have hchars : (Value.bool true).chars true ++ rest = '#' :: 't' :: rest := rfl
    rw [hchars, run_of_more hhash, run_of_more hletter, run_atom_end _ _ hrest, htoken, deliver]
  | false =>
    have hletter : step .hash stack 'f' = .more (.atom ['f', '#'] false) stack := rfl
    have htoken : atomToken ['f', '#'] false = .datum (.bool false) := rfl
    have hchars : (Value.bool false).chars true ++ rest = '#' :: 'f' :: rest := rfl
    rw [hchars, run_of_more hhash, run_of_more hletter, run_atom_end _ _ hrest, htoken, deliver]

/-! ## Characters -/

theorem run_character_plain {cs : List Char} (hcs : cs.all (!Token.isBreak ·) = true)
    (read : List Char) :
    run (.character read) stack (cs ++ rest) = run (.character (cs.reverse ++ read)) stack rest := by
  refine run_of_gathered (fun c read hc => ?_) hcs read
  rw [Bool.not_eq_true'] at hc
  rw [step, hc, if_neg Bool.false_ne_true]

theorem run_character_end (read : List Char) (hrest : EndsToken rest) :
    run (.character read) stack rest = (deliverCharacter read stack).resume rest := by
  refine run_of_ended (fun c hc => ?_) rfl hrest
  rw [step, if_pos hc]

/-- **A character literal is the character of its name.** The first character of the name may be
any, a delimiter too. -/
theorem run_character {first : Char} {others : List Char}
    (hothers : others.all (!Token.isBreak ·) = true) {c : Char}
    (hname : Token.character (first :: others) = .ok c) (hrest : EndsToken rest) :
    run .between stack ('#' :: '\\' :: first :: others ++ rest) =
      (deliverDatum (.char c) stack).resume rest := by
  have hhash : step .between stack '#' = .more .hash stack := rfl
  have hbackslash : step .hash stack '\\' = .more .characterStart stack := rfl
  have hfirst : step .characterStart stack first = .more (.character [first]) stack := rfl
  rw [List.cons_append, List.cons_append, List.cons_append, run_of_more hhash,
    run_of_more hbackslash, run_of_more hfirst, run_character_plain hothers,
    run_character_end _ hrest, deliverCharacter, List.reverse_append, List.reverse_reverse,
    List.reverse_singleton, List.singleton_append, hname]

theorem isBreak_hexDigit {d : Nat} (hd : d < 16) : Token.isBreak (Text.hexDigit d) = false := by
  have hall : ∀ d : Fin 16, Token.isBreak (Text.hexDigit d.val) = false := by decide
  exact hall ⟨d, hd⟩

theorem all_not_isBreak_shortHex (n : Nat) :
    (Text.shortHex n).all (!Token.isBreak ·) = true := by
  fun_induction Text.shortHex n with
  | case1 n hn => simp [isBreak_hexDigit hn]
  | case2 n hn ih => simp [ih, isBreak_hexDigit (Nat.mod_lt n (by decide))]

/-- Every character has a name that stands for it and goes on to the end of its token. -/
theorem exists_name (c : Char) : ∃ first others,
    Value.writtenChar c = '#' :: '\\' :: first :: others ∧
      others.all (!Token.isBreak ·) = true ∧ Token.character (first :: others) = .ok c := by
  unfold Value.writtenChar
  split
  · exact ⟨_, _, rfl, rfl, rfl⟩
  · exact ⟨_, _, rfl, rfl, rfl⟩
  · exact ⟨_, _, rfl, rfl, rfl⟩
  · exact ⟨_, _, rfl, rfl, rfl⟩
  · exact ⟨_, _, rfl, rfl, rfl⟩
  split
  · refine ⟨'x', Text.shortHex c.toNat, rfl, all_not_isBreak_shortHex _, ?_⟩
    obtain ⟨m, tail, hdigits⟩ := Text.shortHex_eq_cons c.toNat
    have hread : Token.hexCharacter? ('x' :: Text.shortHex c.toNat) = some c :=
      Text.charOfHex?_shortHex c
    rw [hdigits] at hread ⊢
    simp only [Token.character, hread, Option.orElse_eq_orElse, Option.orElse]
  · exact ⟨c, [], rfl, rfl, rfl⟩

/-- **A written character reads as itself**, delimiters and controls too. -/
theorem run_writtenChar (c : Char) (hrest : EndsToken rest) :
    run .between stack (Value.writtenChar c ++ rest) = (deliverDatum (.char c) stack).resume rest := by
  obtain ⟨first, others, hwritten, hothers, hname⟩ := exists_name c
  rw [hwritten]
  exact run_character hothers hname hrest

/-! ## Quoted runs -/

/-- Inside quotes every character is written as itself, or as a letter after a backslash that
stands for it. -/
def Escapes (delimiter : Char) (escape : Char → List Char) : Prop :=
  ∀ c, (escape c = [c] ∧ c ≠ delimiter ∧ c ≠ '\\') ∨
    ∃ letter, escape c = ['\\', letter] ∧ letter ≠ 'x' ∧ Token.escaped letter = c

theorem escapes_inText : Escapes '"' Value.escapedInText := by
  intro c
  unfold Value.escapedInText
  split
  · exact .inr ⟨'"', rfl, by decide, rfl⟩
  · exact .inr ⟨'\\', rfl, by decide, rfl⟩
  · exact .inr ⟨'n', rfl, by decide, rfl⟩
  · exact .inr ⟨'t', rfl, by decide, rfl⟩
  · exact .inr ⟨'r', rfl, by decide, rfl⟩
  · exact .inl ⟨rfl, by assumption, by assumption⟩

theorem escapes_inBars : Escapes '|' Value.escapedInBars := by
  intro c
  unfold Value.escapedInBars
  split
  · rename_i hc
    rcases hc with rfl | rfl
    · exact .inr ⟨'|', rfl, by decide, rfl⟩
    · exact .inr ⟨'\\', rfl, by decide, rfl⟩
  · rename_i hc
    exact .inl ⟨rfl, not_or.1 hc⟩

theorem run_quoted_escape {delimiter : Char} {escape : Char → List Char}
    (hescapes : Escapes delimiter escape) (hdelimiter : '\\' ≠ delimiter) (c : Char)
    (read cs : List Char) : run (.quoted delimiter read) stack (escape c ++ cs) =
      run (.quoted delimiter (c :: read)) stack cs := by
  obtain ⟨hself, hne, hne'⟩ | ⟨letter, hletter, hx, rfl⟩ := hescapes c
  · have hstep : step (.quoted delimiter read) stack c =
        .more (.quoted delimiter (c :: read)) stack := by
      rw [step, if_neg hne, if_neg hne']
    rw [hself, List.singleton_append, run_of_more hstep]
  · have hbackslash : step (.quoted delimiter read) stack '\\' =
        .more (.quotedEscape delimiter read) stack := by
      rw [step, if_neg hdelimiter, if_pos rfl]
    have hstep : step (.quotedEscape delimiter read) stack letter =
        .more (.quoted delimiter (Token.escaped letter :: read)) stack := by
      rw [step, if_neg hx]
    rw [hletter, List.cons_append, List.singleton_append, run_of_more hbackslash,
      run_of_more hstep]

/-- **A quoted run with escapes is the characters that they stand for.** -/
theorem run_quoted {delimiter : Char} {escape : Char → List Char}
    (hescapes : Escapes delimiter escape) (hdelimiter : '\\' ≠ delimiter) (cs read : List Char) :
    run (.quoted delimiter read) stack (cs.flatMap escape ++ delimiter :: rest) =
      (deliverDatum (quotedValue delimiter (cs.reverse ++ read)) stack).resume rest := by
  induction cs generalizing read with
  | nil =>
    have hclose : step (.quoted delimiter read) stack delimiter =
        afterToken (deliverDatum (quotedValue delimiter read) stack) := by
      rw [step, if_pos rfl]
    exact run_of_closed hclose
  | cons c cs ih =>
    rw [List.flatMap_cons, List.append_assoc, run_quoted_escape hescapes hdelimiter, ih,
      List.reverse_cons, List.append_assoc, List.singleton_append]

/-- **A written text reads as itself.** -/
theorem run_writtenText (s : String) :
    run .between stack (Value.writtenText s.toList ++ rest) =
      (deliverDatum (.text s) stack).resume rest := by
  have hquote : step .between stack '"' = .more (.quoted '"' []) stack := rfl
  have hvalue : quotedValue '"' (s.toList.reverse ++ []) = .text s := by
    simp [quotedValue]
  rw [Value.writtenText, List.append_assoc, List.cons_append, List.singleton_append,
    run_of_more hquote, run_quoted escapes_inText (by decide), hvalue]

theorem run_barred (s : String) :
    run .between stack ('|' :: s.toList.flatMap Value.escapedInBars ++ '|' :: rest) =
      (deliverDatum (.symbol s) stack).resume rest := by
  have hbar : step .between stack '|' = .more (.quoted '|' []) stack := rfl
  have hvalue : quotedValue '|' (s.toList.reverse ++ []) = .symbol s := by
    simp [quotedValue]
  rw [List.cons_append, run_of_more hbar, run_quoted escapes_inBars (by decide), hvalue]

end Multimethod.Reader
