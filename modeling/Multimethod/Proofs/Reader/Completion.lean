import Multimethod.Proofs.Reader.Standing
import Multimethod.Proofs.Text.Hex

/-!
# Texts that more text completes

Whatever lists and marks are open, some text closes them. So what the end of a text leaves open can be
completed, while an error at a character stays, whatever follows.

* `isIncomplete_eq_false_of_step` — an error at a character is never one that more text may mend.
* `Standing.Completable` — some text that follows is read to its end.
* `completable_between` — open lists and marks can be closed.
* `Standing.AfterLine` — where the reading of a text may stand at the end of a line.
* `Standing.AfterLine.endsExactly` — at the end of a line, the end of the text is an error that more text
  may mend exactly if some text completes it.
-/

namespace Multimethod.Reader

/-! ## Errors at a character -/

/-- A datum that is handed over ends the call with a datum, or leaves no more open than there was. -/
theorem deliverDatum_cases (v : Value) (stack : List Frame) :
    (∃ w, deliverDatum v stack = .finished (.ok w)) ∨
      ∃ rest, deliverDatum v stack = .pending rest ∧ rest.length ≤ stack.length := by
  induction stack generalizing v with
  | nil => exact .inl ⟨v, rfl⟩
  | cons frame stack ih =>
    cases frame with
    | list items => exact .inr ⟨_, rfl, Nat.le_refl _⟩
    | afterDot items =>
      cases v with
      | list tail => exact .inr ⟨_, rfl, Nat.le_refl _⟩
      | _ => exact .inr ⟨_, rfl, Nat.le_refl _⟩
    | marked mark =>
      unfold deliverDatum
      cases mark.head? with
      | none => exact .inr ⟨_, rfl, Nat.le_succ _⟩
      | some head =>
        refine (ih (.list [.symbol head, v])).imp_right ?_
        rintro ⟨rest, hrest, hle⟩
        exact ⟨rest, hrest, Nat.le_succ_of_le hle⟩

/-- The delivery ends the call with no error that more text may mend. -/
def Delivery.IsSettled (delivery : Delivery) : Prop :=
  ∀ e, delivery = .finished (.error e) → e.isIncomplete = false

theorem isSettled_deliverDatum (v : Value) (stack : List Frame) :
    (deliverDatum v stack).IsSettled := by
  intro e herror
  obtain ⟨w, hw⟩ | ⟨rest, hrest, _⟩ := deliverDatum_cases v stack
  · rw [hw] at herror
    cases herror
  · rw [hrest] at herror
    cases herror

theorem isSettled_deliver (token : Token) (stack : List Frame) : (deliver token stack).IsSettled := by
  cases token with
  | datum v => exact isSettled_deliverDatum v stack
  | close =>
    cases stack with
    | nil => rintro e ⟨⟩; rfl
    | cons frame stack =>
      cases frame with
      | list items => exact isSettled_deliverDatum _ stack
      | afterDot items => exact isSettled_deliverDatum _ stack
      | marked mark => rintro e ⟨⟩; rfl
  | dot =>
    cases stack with
    | nil => rintro e ⟨⟩; rfl
    | cons frame stack =>
      cases frame with
      | list items => rintro e ⟨⟩
      | afterDot items => rintro e ⟨⟩
      | marked mark => rintro e ⟨⟩; rfl

/-- The step ends the call with no error that more text may mend. -/
def Step.IsSettled : Step → Prop
  | .more _ _ => True
  | .consumed outcome | .kept outcome => ∀ e, outcome = .error e → e.isIncomplete = false

theorem isSettled_afterToken {delivery : Delivery} (h : delivery.IsSettled) :
    (afterToken delivery).IsSettled := by
  cases delivery with
  | pending stack => trivial
  | finished outcome => exact fun e he => h e (congrArg _ he)

theorem isSettled_stepBetween (c : Char) (stack : List Frame) : (stepBetween c stack).IsSettled := by
  unfold stepBetween
  split
  · trivial
  · split
    all_goals first | trivial | exact isSettled_afterToken (isSettled_deliver .close stack)

theorem isSettled_stepAfter {delivery : Delivery} (h : delivery.IsSettled) (c : Char) :
    (stepAfter delivery c).IsSettled := by
  cases delivery with
  | pending stack => exact isSettled_stepBetween c stack
  | finished outcome => exact fun e he => h e (congrArg _ he)

theorem isSettled_deliverCharacter (read : List Char) (stack : List Frame) :
    (deliverCharacter read stack).IsSettled := by
  unfold deliverCharacter Token.character
  split
  · exact isSettled_deliverDatum _ stack
  · rename_i herror
    split at herror
    · cases herror
    · split at herror
      · cases herror
      · cases herror
        rintro e ⟨⟩
        rfl

theorem isSettled_step (mode : Mode) (stack : List Frame) (c : Char) :
    (step mode stack c).IsSettled := by
  cases mode with
  | between => exact isSettled_stepBetween c stack
  | lineComment => trivial
  | hash =>
    show (stepHash c stack).IsSettled
    unfold stepHash
    split
    · trivial
    · trivial
    · trivial
    · split
      · rintro e ⟨⟩; rfl
      · trivial
  | comma =>
    rw [step]
    split
    · trivial
    · exact isSettled_stepBetween c _
  | quoted delimiter read =>
    rw [step]
    split
    · exact isSettled_afterToken (isSettled_deliverDatum _ stack)
    · split <;> trivial
  | quotedEscape delimiter read =>
    rw [step]
    split <;> trivial
  | quotedHex delimiter read digits =>
    rw [step]
    unfold stepHexEnd
    split
    · split
      · trivial
      · rintro e ⟨⟩; rfl
    · trivial
  | characterStart => trivial
  | character read =>
    rw [step]
    split
    · exact isSettled_stepAfter (isSettled_deliverCharacter read stack) c
    · trivial
  | atom read hasEscape =>
    rw [step]
    split
    · exact isSettled_stepAfter (isSettled_deliver _ stack) c
    · split <;> trivial
  | atomEscape read => trivial

namespace Standing

/-- **An error at a character is none that more text may mend.** -/
theorem isIncomplete_eq_false_of_step {s : Standing} {c : Char} {e : SyntaxError}
    (h : s.step c = .error e) : e.isIncomplete = false := by
  have hsettled := isSettled_step s.mode s.stack c
  unfold step at h
  cases hstep : Reader.step s.mode s.stack c with
  | more mode stack =>
    rw [hstep] at h
    cases h
  | consumed outcome =>
    rw [hstep] at h hsettled
    cases outcome with
    | error err =>
      cases h
      exact hsettled e rfl
    | ok v => cases h
  | kept outcome =>
    rw [hstep] at h hsettled
    cases outcome with
    | error err =>
      cases h
      exact hsettled e rfl
    | ok v =>
      have hnext := isSettled_stepBetween c []
      cases hbetween : stepBetween c [] with
      | more mode stack =>
        rw [hbetween] at h
        cases h
      | consumed outcome =>
        rw [hbetween] at h hnext
        cases outcome with
        | error err =>
          cases h
          exact hnext e rfl
        | ok w => cases h
      | kept outcome => exact absurd hbetween (stepBetween_ne_kept c [] outcome)

theorem isIncomplete_eq_false_of_feed {s : Standing} {cs : List Char} {e : SyntaxError}
    (h : s.feed cs = .error e) : e.isIncomplete = false := by
  induction cs generalizing s with
  | nil => cases h
  | cons c cs ih =>
    rw [feed] at h
    cases hstep : s.step c with
    | error err =>
      rw [hstep] at h
      cases h
      exact isIncomplete_eq_false_of_step hstep
    | ok next =>
      rw [hstep] at h
      exact ih h

/-! ## Completing a text -/

/-- Is there a text that may follow and is read to its end? -/
def Completable (s : Standing) : Prop := ∃ cs data, s.readOn cs = .ok data

theorem completable_of_step {s next : Standing} {c : Char} (hstep : s.step c = .ok next)
    (hnext : next.Completable) : s.Completable := by
  obtain ⟨cs, data, hdata⟩ := hnext
  refine ⟨c :: cs, data, ?_⟩
  rw [readOn_cons, hstep]
  exact hdata

theorem completable_ended (s : Standing) (v : Value) : (s.ended v).Completable :=
  ⟨[], (v :: s.data).reverse, rfl⟩

/-- A character that closes a datum completes a text if what then is open can be closed. -/
theorem completable_of_close (c : Char) (v : Value) {s : Standing} {stack : List Frame}
    (hstep : Reader.step s.mode s.stack c = afterToken (deliverDatum v stack))
    (hclose : ∀ rest : List Frame, rest.length ≤ stack.length → ∀ data,
      Completable ⟨data, .between, rest⟩) : s.Completable := by
  obtain ⟨w, hw⟩ | ⟨rest, hrest, hle⟩ := deliverDatum_cases v stack
  · have hnext : s.step c = .ok (s.ended w) := by
      rw [step, hstep, hw]
      rfl
    exact completable_of_step hnext (completable_ended s w)
  · have hnext : s.step c = .ok (s.moved .between rest) := by
      rw [step, hstep, hrest]
      rfl
    exact completable_of_step hnext (hclose rest hle s.data)

/-- **Open lists and marks can be closed:** a list by a parenthesis, and a mark by an empty text. -/
theorem completable_between (data : List Value) (stack : List Frame) :
    Completable ⟨data, .between, stack⟩ := by
  -- on the number of frames: an empty text closes several marks at once
  induction hn : stack.length using Nat.strongRecOn generalizing data stack with
  | _ n ih =>
    cases stack with
    | nil => exact ⟨[], data.reverse, rfl⟩
    | cons frame rest =>
      have hclose : ∀ stack : List Frame, stack.length ≤ rest.length → ∀ data,
          Completable ⟨data, .between, stack⟩ := by
        intro stack hle data
        exact ih stack.length (hn ▸ Nat.lt_succ_of_le hle) data stack rfl
      cases frame with
      | list items => exact completable_of_close ')' (.list items.reverse) rfl hclose
      | afterDot items =>
        exact completable_of_close ')' (.list (.symbol "." :: items).reverse) rfl hclose
      | marked mark =>
        have hopen : step ⟨data, .between, .marked mark :: rest⟩ '"' =
            .ok ⟨data, .quoted '"' [], .marked mark :: rest⟩ := rfl
        refine completable_of_step hopen ?_
        have hquote : Reader.step (.quoted '"' []) (.marked mark :: rest) '"' =
            afterToken (deliverDatum (.text "") (.marked mark :: rest)) := rfl
        cases hhead : mark.head? with
        | some head =>
          refine completable_of_close '"' (.list [.symbol head, .text ""]) ?_ hclose
          rw [hquote, deliverDatum, hhead]
        | none =>
          have hnext : step ⟨data, .quoted '"' [], .marked mark :: rest⟩ '"' =
              .ok ⟨data, .between, rest⟩ := by
            rw [step, hquote, deliverDatum, hhead]
            rfl
          exact completable_of_step hnext (hclose rest (Nat.le_refl _) data)

theorem completable_quoted (data : List Value) (delimiter : Char) (read : List Char)
    (stack : List Frame) : Completable ⟨data, .quoted delimiter read, stack⟩ := by
  have hstep : Reader.step (.quoted delimiter read) stack delimiter =
      afterToken (deliverDatum (quotedValue delimiter read) stack) := by
    rw [Reader.step, if_pos rfl]
  exact completable_of_close delimiter (quotedValue delimiter read) hstep
    fun rest _ data => completable_between data rest

/-- A blank ends a token, and then what is open can be closed. -/
theorem completable_of_blank {s : Standing} (v : Value) {stack : List Frame}
    (hstep : Reader.step s.mode s.stack ' ' = stepAfter (deliverDatum v stack) ' ') :
    s.Completable := by
  obtain ⟨w, hw⟩ | ⟨rest, hrest, _⟩ := deliverDatum_cases v stack
  · have hnext : s.step ' ' = .ok ((s.ended w).moved .between []) := by
      rw [step, hstep, hw]
      rfl
    exact completable_of_step hnext (completable_between _ [])
  · have hnext : s.step ' ' = .ok (s.moved .between rest) := by
      rw [step, hstep, hrest]
      rfl
    exact completable_of_step hnext (completable_between _ rest)

/-- A code point with a line end among its digits is none, whatever follows. -/
theorem not_completable_quotedHex {data : List Value} {delimiter : Char} {read digits : List Char}
    {stack : List Frame} (hdigits : '\n' ∈ digits) :
    ¬ Completable ⟨data, .quotedHex delimiter read digits, stack⟩ := by
  rintro ⟨cs, values, hvalues⟩
  induction cs generalizing digits with
  | nil => cases hvalues
  | cons c cs ih =>
    rw [readOn_cons, step, Reader.step] at hvalues
    by_cases hc : c = ';'
    · have hnone : Text.charOfHex? digits.reverse = none :=
        Text.charOfHex?_eq_none_of_mem rfl (by decide) (List.mem_reverse.mpr hdigits)
      rw [if_pos hc, stepHexEnd, hnone] at hvalues
      cases hvalues
    · rw [if_neg hc] at hvalues
      exact ih (List.mem_cons_of_mem c hdigits) hvalues

/-! ## The end of a line -/

/-- Where the reading of a text may stand at the end of a line. -/
inductive AfterLine : Standing → Prop
  | between (data : List Value) (stack : List Frame) : AfterLine ⟨data, .between, stack⟩
  | quoted (data : List Value) (delimiter : Char) (read : List Char) (stack : List Frame) :
    AfterLine ⟨data, .quoted delimiter read, stack⟩
  | quotedHex (data : List Value) (delimiter : Char) (read : List Char) {digits : List Char}
    (stack : List Frame) (hdigits : '\n' ∈ digits) :
    AfterLine ⟨data, .quotedHex delimiter read digits, stack⟩
  | character (data : List Value) (stack : List Frame) : AfterLine ⟨data, .character ['\n'], stack⟩
  | atom (data : List Value) (read : List Char) (stack : List Frame) :
    AfterLine ⟨data, .atom read true, stack⟩

/-- After a line end that ends a token the call stands between two tokens, or has ended. -/
theorem afterLine_of_stepAfter {s next : Standing} (delivery : Delivery)
    (hstep : Reader.step s.mode s.stack '\n' = stepAfter delivery '\n')
    (h : s.step '\n' = .ok next) : next.AfterLine := by
  rw [step, hstep] at h
  cases delivery with
  | pending stack =>
    cases h
    exact .between _ _
  | finished outcome =>
    cases outcome with
    | error e => cases h
    | ok v =>
      cases h
      exact .between _ _

theorem afterLine_of_afterToken {s next : Standing} (delivery : Delivery)
    (hstep : Reader.step s.mode s.stack '\n' = afterToken delivery)
    (h : s.step '\n' = .ok next) : next.AfterLine := by
  rw [step, hstep] at h
  cases delivery with
  | pending stack =>
    cases h
    exact .between _ _
  | finished outcome =>
    cases outcome with
    | error e => cases h
    | ok v =>
      cases h
      exact .between _ _

/-- A line end leads to where the end of a line may be. -/
theorem afterLine_of_step {s next : Standing} (h : s.step '\n' = .ok next) : next.AfterLine := by
  obtain ⟨data, mode, stack⟩ := s
  cases mode with
  | between =>
    cases h
    exact .between data stack
  | lineComment =>
    cases h
    exact .between data stack
  | hash => cases h
  | comma =>
    cases h
    exact .between data _
  | quoted delimiter read =>
    by_cases hdelimiter : '\n' = delimiter
    · refine afterLine_of_afterToken (deliverDatum (quotedValue delimiter read) stack) ?_ h
      rw [Reader.step, if_pos hdelimiter]
    · rw [step, Reader.step, if_neg hdelimiter] at h
      cases h
      exact .quoted data delimiter _ stack
  | quotedEscape delimiter read =>
    cases h
    exact .quoted data delimiter _ stack
  | quotedHex delimiter read digits =>
    cases h
    exact .quotedHex data delimiter read stack List.mem_cons_self
  | characterStart =>
    cases h
    exact .character data stack
  | character read => exact afterLine_of_stepAfter (deliverCharacter read stack) rfl h
  | atom read hasEscape =>
    exact afterLine_of_stepAfter (deliver (atomToken read hasEscape) stack) rfl h
  | atomEscape read =>
    cases h
    exact .atom data _ stack

theorem afterLine_of_feed {s next : Standing} {text : List Char}
    (h : s.feed (text ++ ['\n']) = .ok next) : next.AfterLine := by
  rw [feed_append] at h
  cases hbefore : s.feed text with
  | error e =>
    rw [hbefore] at h
    cases h
  | ok before =>
    rw [hbefore] at h
    change before.step '\n' >>= pure = .ok next at h
    rw [bind_pure] at h
    exact afterLine_of_step h

/-- The text ends with what was read, or with an error that more text may mend exactly if some text
does. -/
def EndsExactly (s : Standing) : Prop :=
  ∀ e, s.finish = .error e → (e.isIncomplete ↔ s.Completable)

theorem endsExactly_of_completable {s : Standing} (hcompletable : s.Completable)
    (hincomplete : ∀ e, Reader.finish s.mode s.stack = some (.error e) → e.isIncomplete) :
    s.EndsExactly := by
  intro e herror
  refine iff_of_true (hincomplete e ?_) hcompletable
  unfold finish at herror
  cases hfinish : Reader.finish s.mode s.stack with
  | none =>
    rw [hfinish] at herror
    cases herror
  | some outcome =>
    rw [hfinish] at herror
    cases outcome with
    | error err =>
      cases herror
      rfl
    | ok v => cases herror

/-- What is open at the end of the text can be completed. -/
theorem isIncomplete_of_endOfText {stack : List Frame} {e : SyntaxError}
    (h : endOfText stack = some (.error e)) : e.isIncomplete := by
  cases stack with
  | nil => cases h
  | cons frame rest =>
    cases frame <;>
      (cases h
       rfl)

theorem isIncomplete_of_finishAfter (v : Value) {stack : List Frame} {e : SyntaxError}
    (h : finishAfter (deliverDatum v stack) = some (.error e)) : e.isIncomplete := by
  obtain ⟨w, hw⟩ | ⟨rest, hrest, _⟩ := deliverDatum_cases v stack
  · rw [hw] at h
    cases h
  · rw [hrest] at h
    exact isIncomplete_of_endOfText h

/-- **At the end of a line, what the end of the text leaves open is what some text completes.** -/
theorem AfterLine.endsExactly {s : Standing} (hs : s.AfterLine) : s.EndsExactly := by
  cases hs with
  | between data stack =>
    exact endsExactly_of_completable (completable_between data stack) fun _ => isIncomplete_of_endOfText
  | quoted data delimiter read stack =>
    refine endsExactly_of_completable (completable_quoted data delimiter read stack) ?_
    rintro e ⟨⟩
    rfl
  | quotedHex data delimiter read stack hdigits =>
    intro e herror
    cases herror
    exact iff_of_false (by simp [SyntaxError.isIncomplete]) (not_completable_quotedHex hdigits)
  | character data stack =>
    have hcompletable : Completable ⟨data, .character ['\n'], stack⟩ :=
      completable_of_blank (.char '\n') rfl
    exact endsExactly_of_completable hcompletable fun _ => isIncomplete_of_finishAfter (.char '\n')
  | atom data read stack =>
    have hcompletable : Completable ⟨data, .atom read true, stack⟩ :=
      completable_of_blank (.symbol (String.ofList read.reverse)) rfl
    exact endsExactly_of_completable hcompletable
      fun _ => isIncomplete_of_finishAfter (.symbol (String.ofList read.reverse))

end Standing

end Multimethod.Reader
