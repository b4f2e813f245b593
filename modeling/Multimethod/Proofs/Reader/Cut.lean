import Multimethod.Proofs.Reader.Completion

/-!
# Cutting a text at the end of a line

A text that can be read up to the end of a line is read in two parts, the second one from the beginning
again, unless an atom goes on over the cut: a backslash lets an atom take in the end of its line. A
character literal may take it in as well, but no character has a name that goes on after it.

* `Standing.after` — data read before do not matter to what follows.
* `Standing.step_of_finish` — a character that breaks off a whole text is read as the first one of a text.
* `SplitsAtom`, `KeepsAtoms` — when an atom goes on over a cut, and that none does.
* `feed_cut`, `readAll_cut` — both parts of a cut text are read by themselves.
* `keepsAtoms_of_not_mem` — without backslashes no atom goes on over the end of a line.
-/

namespace Multimethod.Reader

namespace Standing

/-! ## Data read before -/

/-- The standing with more data read before its own. -/
def after (values : List Value) (s : Standing) : Standing := ⟨s.data ++ values.reverse, s.mode, s.stack⟩

theorem step_after (values : List Value) (s : Standing) (c : Char) :
    (s.after values).step c = (s.step c).map (after values) := by
  show step ⟨_, s.mode, s.stack⟩ c = _
  unfold step
  cases Reader.step s.mode s.stack c with
  | more mode stack => rfl
  | consumed outcome => cases outcome <;> rfl
  | kept outcome =>
    cases outcome with
    | error e => rfl
    | ok v =>
      dsimp only
      cases stepBetween c [] with
      | more mode stack => rfl
      | consumed outcome => cases outcome <;> rfl
      | kept outcome => cases outcome <;> rfl

theorem feed_after (values : List Value) (s : Standing) (cs : List Char) :
    (s.after values).feed cs = (s.feed cs).map (after values) := by
  induction cs generalizing s with
  | nil => rfl
  | cons c cs ih =>
    rw [feed, feed, step_after]
    cases s.step c with
    | error e => rfl
    | ok next => exact ih next

theorem finish_after (values : List Value) (s : Standing) :
    (s.after values).finish = s.finish.map (values ++ ·) := by
  show finish ⟨_, s.mode, s.stack⟩ = _
  unfold finish
  cases Reader.finish s.mode s.stack with
  | none => simp [Except.map]
  | some outcome => cases outcome <;> simp [Except.map]

/-! ## Where a whole text breaks off -/

/-- Does the character break off what is at hand, just as the end of the text would? -/
def BrokenOffBy (s : Standing) (c : Char) : Prop :=
  ∃ delivery, Reader.finish s.mode s.stack = finishAfter delivery ∧
    Reader.step s.mode s.stack c = stepAfter delivery c

/-- **A character that breaks off a whole text is read as the first one of a text.** -/
theorem step_of_finish {s : Standing} {c : Char} {values : List Value} (hbreak : s.BrokenOffBy c)
    (hfinish : s.finish = .ok values) : s.step c = (start.step c).map (after values) := by
  obtain ⟨delivery, hend, hstep⟩ := hbreak
  rw [← step_after]
  unfold finish at hfinish
  rw [hend] at hfinish
  cases delivery with
  | pending stack =>
    cases stack with
    | cons frame rest => cases frame <;> cases hfinish
    | nil =>
      -- nothing is at hand: the standing is that of a beginning, but for its data
      cases hfinish
      show _ = step ⟨s.data.reverse.reverse, .between, []⟩ c
      rw [List.reverse_reverse]
      unfold step
      rw [hstep]
      rfl
  | finished outcome =>
    cases outcome with
    | error e => cases hfinish
    | ok v =>
      cases hfinish
      show _ = step ⟨(v :: s.data).reverse.reverse, .between, []⟩ c
      rw [List.reverse_reverse]
      exact step_of_kept hstep

theorem feed_of_finish {s : Standing} {c : Char} {values : List Value} (hbreak : s.BrokenOffBy c)
    (hfinish : s.finish = .ok values) (cs : List Char) :
    s.feed (c :: cs) = (start.feed (c :: cs)).map (after values) := by
  rw [feed, feed, step_of_finish hbreak hfinish]
  cases start.step c with
  | error e => rfl
  | ok next => exact feed_after values next cs

/-! ## The end of a line -/

/-- No character has a name that begins with the end of a line. -/
theorem character_lineEnd_cons (c : Char) (cs : List Char) :
    Token.character ('\n' :: c :: cs) =
      .error (.unknownCharacter (String.ofList ('\n' :: c :: cs))) := by
  have hnamed : Token.namedCharacter? ('\n' :: c :: cs) = none := by
    have hhead : ('\n' :: c :: cs).map Char.toLower = '\n' :: (c :: cs).map Char.toLower := rfl
    rw [Token.namedCharacter?, hhead]
    simp [Token.characterNames]
  have hhex : Token.hexCharacter? ('\n' :: c :: cs) = none := rfl
  rw [Token.character, hhex, hnamed]
  · rfl
  · rintro d ⟨⟩

/-- A character literal that goes on after the end of a line is none, whatever follows. -/
theorem not_completable_character (data : List Value) (c : Char) (read : List Char)
    (stack : List Frame) : ¬ Completable ⟨data, .character (c :: read ++ ['\n']), stack⟩ := by
  have hwrong (c : Char) (read : List Char) : ∃ e,
      deliverCharacter (c :: read ++ ['\n']) stack = .finished (.error e) := by
    obtain ⟨d, ds, hreverse⟩ : ∃ d ds, (c :: read).reverse = d :: ds :=
      List.exists_cons_of_ne_nil (by simp)
    rw [deliverCharacter, List.reverse_append, hreverse]
    exact ⟨_, by rw [List.reverse_singleton, List.singleton_append, character_lineEnd_cons]⟩
  rintro ⟨cs, values, hvalues⟩
  induction cs generalizing c read with
  | nil =>
    obtain ⟨e, he⟩ := hwrong c read
    have hfinish : Standing.finish ⟨data, .character (c :: read ++ ['\n']), stack⟩ = .ok values := hvalues
    rw [finish, Reader.finish, he] at hfinish
    cases hfinish
  | cons d cs ih =>
    rw [readOn_cons, step, Reader.step] at hvalues
    by_cases hd : Token.isBreak d
    · obtain ⟨e, he⟩ := hwrong c read
      rw [if_pos hd, he] at hvalues
      cases hvalues
    · rw [if_neg hd] at hvalues
      exact ih d (c :: read) hvalues

end Standing

/-! ## Atoms over the end of a line -/

/-- Does an atom go on over the cut, although what stands before the cut can be read by itself? -/
structure SplitsAtom (before rest : List Char) : Prop where
  readable : ∃ values, readAll before = .ok values
  inAtom : ∃ data read hasEscape stack,
    Standing.start.feed before = .ok ⟨data, .atom read hasEscape, stack⟩
  goesOn : ∃ c cs, rest = c :: cs ∧ Token.isBreak c = false

/-- No atom goes on over the end of a line after which the text can be cut. -/
def KeepsAtoms (text : List Char) : Prop :=
  ∀ before rest, text = before ++ '\n' :: rest → ¬ SplitsAtom (before ++ ['\n']) rest

open Standing

/-- At the end of a line, the next character breaks off what can be read by itself, if more of the text
can be read and no atom goes on. -/
theorem brokenOffBy_of_afterLine {s : Standing} {c : Char} {values : List Value} (hs : s.AfterLine)
    (hfinish : s.finish = .ok values) {cs : List Char} {all : List Value}
    (hall : s.readOn (c :: cs) = .ok all)
    (hatom : ∀ data read hasEscape stack, s = ⟨data, .atom read hasEscape, stack⟩ → Token.isBreak c) :
    s.BrokenOffBy c := by
  cases hs with
  | between data stack => exact ⟨.pending stack, rfl, rfl⟩
  | quoted data delimiter read stack => cases hfinish
  | quotedHex data delimiter read stack hdigits => cases hfinish
  | character data stack =>
    refine ⟨deliverCharacter ['\n'] stack, rfl, ?_⟩
    rw [Reader.step]
    split
    · rfl
    · -- the literal goes on, and the text cannot be read
      rename_i hbreak
      rw [readOn_cons, Standing.step, Reader.step, if_neg hbreak] at hall
      exact absurd ⟨cs, all, hall⟩ (not_completable_character data c [] stack)
  | atom data read stack =>
    refine ⟨deliver (atomToken read true) stack, rfl, ?_⟩
    rw [Reader.step, if_pos (hatom data read true stack rfl)]

theorem exists_feed_of_readAll {text : List Char} {values : List Value} (h : readAll text = .ok values) :
    ∃ s, start.feed text = .ok s ∧ s.finish = .ok values := by
  rw [readAll_eq_readOn, readOn] at h
  cases hfeed : start.feed text with
  | error e =>
    rw [hfeed] at h
    cases h
  | ok s =>
    rw [hfeed] at h
    exact ⟨s, rfl, h⟩

variable {text : List Char} {c : Char} {rest : List Char} {values all : List Value}

/-- **What follows a line up to which the text can be read is fed as a text by itself,** unless an atom
goes on over the cut. -/
theorem feed_cut (hread : readAll (text ++ ['\n']) = .ok values)
    (hall : readAll (text ++ ['\n'] ++ c :: rest) = .ok all)
    (hatom : ¬ SplitsAtom (text ++ ['\n']) (c :: rest)) (cs : List Char) :
    start.feed (text ++ ['\n'] ++ c :: cs) = (start.feed (c :: cs)).map (after values) := by
  obtain ⟨s, hfeed, hfinish⟩ := exists_feed_of_readAll hread
  rw [readAll_eq_readOn, readOn_append, hfeed] at hall
  have hbreak : s.BrokenOffBy c := by
    refine brokenOffBy_of_afterLine (afterLine_of_feed hfeed) hfinish hall ?_
    rintro data read hasEscape stack rfl
    by_contra hgoesOn
    exact hatom ⟨⟨values, hread⟩, ⟨data, read, hasEscape, stack, hfeed⟩,
      ⟨c, rest, rfl, eq_false_of_ne_true hgoesOn⟩⟩
  rw [feed_append, hfeed]
  exact feed_of_finish hbreak hfinish cs

theorem readAll_of_feed {values : List Value} {text more : List Char}
    (h : start.feed text = (start.feed more).map (after values)) :
    readAll text = (readAll more).map (values ++ ·) := by
  rw [readAll_eq_readOn, readAll_eq_readOn, readOn, readOn, h]
  cases start.feed more with
  | error e => rfl
  | ok s => exact finish_after values s

/-- **A text cut at the end of a line reads as its two parts, one after the other,** if the first part can
be read and no atom goes on over the cut. -/
theorem readAll_cut (hread : readAll (text ++ ['\n']) = .ok values)
    (hall : readAll (text ++ ['\n'] ++ rest) = .ok all) (hatom : ¬ SplitsAtom (text ++ ['\n']) rest) :
    ∃ more, readAll rest = .ok more ∧ all = values ++ more := by
  cases rest with
  | nil =>
    rw [List.append_nil, hread] at hall
    cases hall
    refine ⟨[], ?_, (List.append_nil values).symm⟩
    rw [readAll_eq_readOn]
    rfl
  | cons c cs =>
    rw [readAll_of_feed (feed_cut hread hall hatom cs)] at hall
    cases hmore : readAll (c :: cs) with
    | error e =>
      rw [hmore] at hall
      cases hall
    | ok more =>
      rw [hmore] at hall
      cases hall
      exact ⟨more, rfl, rfl⟩

/-- If no atom goes on over the end of a line, none does in what follows a cut. -/
theorem KeepsAtoms.cut (h : KeepsAtoms (text ++ ['\n'] ++ rest))
    (hread : readAll (text ++ ['\n']) = .ok values)
    (hall : readAll (text ++ ['\n'] ++ rest) = .ok all) : KeepsAtoms rest := by
  rintro before tail hrest hsplits
  have hatom : ¬ SplitsAtom (text ++ ['\n']) rest := h text rest (by simp)
  -- the second part is not empty, as it has the end of a line
  obtain ⟨c, cs, hcs⟩ : ∃ c cs, before ++ ['\n'] = c :: cs := List.exists_cons_of_ne_nil (by simp)
  have hcons : rest = c :: (cs ++ tail) := by
    rw [hrest, ← List.cons_append, ← hcs]
    simp
  have hfeed : start.feed (text ++ ['\n'] ++ (before ++ ['\n'])) =
      (start.feed (before ++ ['\n'])).map (after values) := by
    rw [hcs]
    exact feed_cut hread (hcons ▸ hall) (hcons ▸ hatom) cs
  refine h (text ++ ['\n'] ++ before) tail (by simp [hrest]) ?_
  rw [List.append_assoc]
  obtain ⟨⟨data, hdata⟩, ⟨read, letters, hasEscape, stack, hin⟩, hgoesOn⟩ := hsplits
  refine ⟨⟨values ++ data, ?_⟩, ⟨read ++ values.reverse, letters, hasEscape, stack, ?_⟩, hgoesOn⟩
  · rw [readAll_of_feed hfeed, hdata]
    rfl
  · rw [hfeed, hin]
    rfl

/-! ## Texts without backslashes -/

/-- Is the mode none that only a backslash leads to in an atom? -/
def Mode.HasNoEscape : Mode → Prop
  | .atom _ hasEscape => hasEscape = false
  | .atomEscape _ => False
  | _ => True

/-- Does the call end, or go on in a mode that needs no backslash? -/
def Step.HasNoEscape : Step → Prop
  | .more mode _ => mode.HasNoEscape
  | .consumed _ | .kept _ => True

theorem hasNoEscape_afterToken (delivery : Delivery) : (afterToken delivery).HasNoEscape := by
  cases delivery <;> trivial

theorem hasNoEscape_stepBetween {c : Char} (hc : c ≠ '\\') (stack : List Frame) :
    (stepBetween c stack).HasNoEscape := by
  unfold stepBetween
  split
  · trivial
  · split
    all_goals first | trivial | exact hasNoEscape_afterToken _

theorem hasNoEscape_stepAfter {c : Char} (hc : c ≠ '\\') (delivery : Delivery) :
    (stepAfter delivery c).HasNoEscape := by
  cases delivery with
  | pending stack => exact hasNoEscape_stepBetween hc stack
  | finished outcome => trivial

theorem hasNoEscape_step {mode : Mode} {c : Char} (hmode : mode.HasNoEscape) (hc : c ≠ '\\')
    (stack : List Frame) : (step mode stack c).HasNoEscape := by
  cases mode with
  | between => exact hasNoEscape_stepBetween hc stack
  | lineComment =>
    show (if c = '\n' then Mode.between else .lineComment).HasNoEscape
    split <;> trivial
  | hash =>
    show (stepHash c stack).HasNoEscape
    unfold stepHash
    split
    · trivial
    · trivial
    · trivial
    · split
      · trivial
      · rfl
  | comma =>
    rw [step]
    split
    · trivial
    · exact hasNoEscape_stepBetween hc _
  | quoted delimiter read =>
    rw [step, if_neg hc]
    split
    · exact hasNoEscape_afterToken _
    · trivial
  | quotedEscape delimiter read =>
    rw [step]
    split <;> trivial
  | quotedHex delimiter read digits =>
    rw [step]
    split
    · unfold stepHexEnd
      split <;> trivial
    · trivial
  | characterStart => trivial
  | character read =>
    rw [step]
    split
    · exact hasNoEscape_stepAfter hc _
    · trivial
  | atom read hasEscape =>
    rw [step, if_neg hc]
    split
    · exact hasNoEscape_stepAfter hc _
    · exact hmode
  | atomEscape read => exact hmode.elim

theorem Standing.hasNoEscape_step {s next : Standing} {c : Char} (hmode : s.mode.HasNoEscape)
    (hc : c ≠ '\\') (h : s.step c = .ok next) : next.mode.HasNoEscape := by
  obtain ⟨call, hcall, hnext⟩ := step_cases h
  have hcallMode : call.mode.HasNoEscape := by
    obtain rfl | ⟨v, rfl⟩ := hcall
    · exact hmode
    · trivial
  obtain ⟨mode, stack, hmore, rfl⟩ | ⟨v, rfl⟩ := hnext
  · have hstep := Reader.hasNoEscape_step hcallMode hc call.stack
    rw [hmore] at hstep
    exact hstep
  · trivial

theorem Standing.hasNoEscape_feed {s next : Standing} {cs : List Char} (hmode : s.mode.HasNoEscape)
    (hcs : '\\' ∉ cs) (h : s.feed cs = .ok next) : next.mode.HasNoEscape := by
  induction cs generalizing s with
  | nil =>
    cases h
    exact hmode
  | cons c cs ih =>
    rw [feed] at h
    obtain ⟨hc, hcs⟩ : ¬ '\\' = c ∧ '\\' ∉ cs := not_or.mp (mt List.mem_cons.mpr hcs)
    cases hstep : s.step c with
    | error e =>
      rw [hstep] at h
      cases h
    | ok between =>
      rw [hstep] at h
      exact ih (hasNoEscape_step hmode (Ne.symm hc) hstep) hcs h

/-- **Without backslashes no atom goes on over the end of a line.** -/
theorem keepsAtoms_of_not_mem {text : List Char} (h : '\\' ∉ text) : KeepsAtoms text := by
  rintro before rest rfl ⟨-, ⟨data, read, hasEscape, stack, hin⟩, -⟩
  have hbefore : '\\' ∉ before ++ ['\n'] := fun hmem =>
    h (by simpa using List.mem_append_left rest hmem)
  -- an atom over the end of a line has an escape
  have hescape : hasEscape = false := Standing.hasNoEscape_feed (s := start) trivial hbefore hin
  cases afterLine_of_feed hin
  cases hescape

end Multimethod.Reader
