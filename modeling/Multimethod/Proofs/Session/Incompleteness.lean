import Multimethod.Proofs.Reader.Completion
import Multimethod.Session.Repl

/-!
# Lines that further lines may complete

The interactive loop goes by the words of an error: it waits for more lines if the text broke off, and
drops what it gathered otherwise. It waits exactly for the texts that some continuation completes.

* `SyntaxError.isIncomplete_iff` — which errors are incomplete, by their words.
* `Reader.isIncomplete_iff_isCompletable` — at the end of a line, the error of a text is incomplete exactly
  if some longer text can be read.
* `Repl.waits_iff_isCompletable` — the loop waits exactly for the texts that some continuation completes.
* `Repl.line_of_isCompletable`, `Repl.line_of_not_isCompletable` — what a line does in either case.
-/

namespace Multimethod

/-- Do the words of the error say that the text broke off? -/
def SyntaxError.SaysBrokenOff (e : SyntaxError) : Prop :=
  "unexpected end of input".toList <+: e.message.toList ∨ "unterminated".toList <+: e.message.toList

instance (e : SyntaxError) : Decidable e.SaysBrokenOff := inferInstanceAs (Decidable (_ ∨ _))

/-- **An error is incomplete exactly if its words say so.** -/
theorem SyntaxError.isIncomplete_iff (e : SyntaxError) : e.isIncomplete ↔ e.SaysBrokenOff := by
  cases e with
  | endAfter mark => cases mark <;> decide
  | closeAfter mark => cases mark <;> decide
  | dotAfter mark => cases mark <;> decide
  | unterminated delimiter =>
    have hmessage : (unterminated delimiter).message = "unterminated " ++ delimiter.toString := rfl
    simp [isIncomplete, SaysBrokenOff, hmessage]
  | badEscape digits closed =>
    have hmessage : (badEscape digits closed).message =
        "bad escape \\x" ++ digits ++ (if closed then ";" else "") := rfl
    simp [isIncomplete, SaysBrokenOff, hmessage]
  | unknownCharacter name =>
    have hmessage : (unknownCharacter name).message = "unknown character #\\" ++ name := rfl
    simp [isIncomplete, SaysBrokenOff, hmessage]
  | unexpectedClose | unexpectedDot | endInList | loneHash | noCharacter | trailingEscape => decide

namespace Reader

/-- Can the text be read with some continuation? -/
def IsCompletable (text : List Char) : Prop := ∃ more data, readAll (text ++ more) = .ok data

theorem isCompletable_iff {text : List Char} {s : Standing} (h : Standing.start.feed text = .ok s) :
    IsCompletable text ↔ s.Completable := by
  have hread (more : List Char) : readAll (text ++ more) = s.readOn more := by
    rw [readAll_eq_readOn, Standing.readOn_append, h]
    rfl
  simp only [IsCompletable, hread, Standing.Completable]

theorem not_isCompletable_of_error {text : List Char} {e : SyntaxError}
    (h : Standing.start.feed text = .error e) : ¬ IsCompletable text := by
  rintro ⟨more, data, hdata⟩
  rw [readAll_eq_readOn, Standing.readOn_append, h] at hdata
  cases hdata

/-- **At the end of a line, the error of a text is incomplete exactly if some longer text can be read.** -/
theorem isIncomplete_iff_isCompletable {text : List Char} {e : SyntaxError}
    (h : readAll (text ++ ['\n']) = .error e) : e.isIncomplete ↔ IsCompletable (text ++ ['\n']) := by
  rw [readAll_eq_readOn, Standing.readOn] at h
  cases hfeed : Standing.start.feed (text ++ ['\n']) with
  | error err =>
    -- an error at a character stays, whatever follows
    rw [hfeed] at h
    cases h
    rw [Standing.isIncomplete_eq_false_of_feed hfeed]
    exact iff_of_false Bool.false_ne_true (not_isCompletable_of_error hfeed)
  | ok s =>
    rw [hfeed] at h
    exact ((Standing.afterLine_of_feed hfeed).endsExactly e h).trans (isCompletable_iff hfeed).symm

end Reader

namespace Repl

open Reader

theorem gather_eq_incomplete_iff (p : List Char) :
    gather p = .incomplete ↔ ∃ e, readAll p = .error e ∧ e.isIncomplete := by
  unfold gather
  cases readAll p with
  | ok values => simp
  | error e => cases hincomplete : e.isIncomplete <;> simp [hincomplete]

/-- **The loop waits exactly for the texts that some continuation completes.** A text that ends a line
fails with an error that says that the text broke off, so that the loop waits for more lines, if and
only if it fails and some continuation of it can be read. -/
theorem waits_iff_isCompletable (text : List Char) :
    ((∃ e, readAll (text ++ ['\n']) = .error e ∧ e.SaysBrokenOff) ↔
      (∃ e, readAll (text ++ ['\n']) = .error e) ∧
        ∃ more data, readAll (text ++ ['\n'] ++ more) = .ok data) ∧
    (gather (text ++ ['\n']) = .incomplete ↔
      (∃ e, readAll (text ++ ['\n']) = .error e) ∧
        ∃ more data, readAll (text ++ ['\n'] ++ more) = .ok data) := by
  have hexact : (∃ e, readAll (text ++ ['\n']) = .error e ∧ e.isIncomplete) ↔
      (∃ e, readAll (text ++ ['\n']) = .error e) ∧ IsCompletable (text ++ ['\n']) := by
    constructor
    · rintro ⟨e, herror, hincomplete⟩
      exact ⟨⟨e, herror⟩, (isIncomplete_iff_isCompletable herror).mp hincomplete⟩
    · rintro ⟨⟨e, herror⟩, hcompletable⟩
      exact ⟨e, herror, (isIncomplete_iff_isCompletable herror).mpr hcompletable⟩
  refine ⟨?_, (gather_eq_incomplete_iff _).trans hexact⟩
  simp only [← SyntaxError.isIncomplete_iff]
  exact hexact

/-! ## What a line does -/

/-- A line goes by what it and the lines before it come to. -/
theorem runFrom_line (s : Session) (text : String) :
    (line (some text)).runFrom s =
      (match gather (addLine s.pending text) with
        | .forms values => (do setPending []; evaluateForms values; writeVariable "prompt" : SessionM Unit)
        | .incomplete => setPending (addLine s.pending text)
        | .wrong e => do reportError (.syntactic e); setPending []; writeVariable "prompt").runFrom s :=
  rfl

/-- A line that leaves a text to be completed is kept with the lines before it, and nothing else
happens. -/
theorem line_of_isCompletable {s : Session} {text : String} {e : SyntaxError}
    (herror : readAll (addLine s.pending text) = .error e)
    (hcompletable : IsCompletable (addLine s.pending text)) :
    (line (some text)).runFrom s = some (.ok (), { s with pending := addLine s.pending text }) := by
  have hgather : gather (addLine s.pending text) = .incomplete := by
    rw [gather, herror]
    exact if_pos ((isIncomplete_iff_isCompletable herror).mpr hcompletable)
  rw [runFrom_line, hgather]
  rfl

/-- A line after which no text can complete what was gathered is reported, and all of it dropped. -/
theorem line_of_not_isCompletable {s : Session} {text : String} {e : SyntaxError}
    (herror : readAll (addLine s.pending text) = .error e)
    (hcompletable : ¬ IsCompletable (addLine s.pending text)) :
    (line (some text)).runFrom s = (writeVariable "prompt").runFrom
      { s with
        pending := []
        console := s.console ++ ("error: " ++ (RuntimeError.syntactic e).report ++ "\n") } := by
  have hgather : gather (addLine s.pending text) = .wrong e := by
    rw [gather, herror]
    exact if_neg fun h => hcompletable ((isIncomplete_iff_isCompletable herror).mp h)
  rw [runFrom_line, hgather]
  rfl

end Repl

end Multimethod
