import Multimethod.Reader.Machine

/-!
# Reading whole texts

`read_length_lt` says that a call which gives a datum or an error has read at least one character,
so that calling again and again comes to the end of the text. `readEach` goes on after errors,
`readAll` stops at the first.
-/

namespace Multimethod.Reader

/-! ## Progress -/

theorem stepBetween_ne_kept (c : Char) (stack : List Frame) (outcome : Outcome) :
    stepBetween c stack ≠ .kept outcome := by
  unfold stepBetween afterToken
  repeat' split
  all_goals simp

theorem run_length_le (mode : Mode) (stack : List Frame) (cs : List Char) :
    (run mode stack cs).2.length ≤ cs.length := by
  induction cs generalizing mode stack with
  | nil => simp [run]
  | cons c cs ih =>
    unfold run
    split
    · exact Nat.le_succ_of_le (ih _ _)
    · simp
    · simp

/-- **A call that gives a datum or an error has read something.** -/
theorem read_length_lt {cs rest : List Char} {outcome : Outcome}
    (h : read cs = (some outcome, rest)) : rest.length < cs.length := by
  cases cs with
  | nil => simp [read, run, finish, endOfText] at h
  | cons c cs =>
    unfold read run at h
    split at h
    · have := run_length_le ‹_› ‹_› cs
      rw [h] at this
      exact Nat.lt_succ_of_le this
    · simp_all
    · rename_i hstep
      exact absurd hstep (stepBetween_ne_kept c [] _)

/-! ## Whole texts -/

/-- The data and errors of a text in order, reading on after each error. -/
def readEach (cs : List Char) : List Outcome :=
  match _h : read cs with
  | (none, _) => []
  | (some outcome, rest) => outcome :: readEach rest
termination_by cs.length
decreasing_by exact read_length_lt _h

/-- The data of a text, or its first error. -/
def readAll (cs : List Char) : Except SyntaxError (List Value) :=
  match _h : read cs with
  | (none, _) => .ok []
  | (some (.error e), _) => .error e
  | (some (.ok v), rest) => (readAll rest).map (v :: ·)
termination_by cs.length
decreasing_by exact read_length_lt _h

end Multimethod.Reader
