import Multimethod.Reader.Source

/-!
# The reader goes forward

One call after another takes a text from its front, whether the calls give data or errors. A call takes
one character at a time until it ends, and leaves what it has not taken to the next one; so the calls of
a text come to its end.

* `Call`, `Call.EndsIn` — a call at work, and that it ends after so many characters.
* `Call.endsIn_ending` — every call ends, within the characters that are left.
* `run_suffix` — what a call leaves is the end of what it was given.
* `leftAfter` — what so many calls leave of a text.
* `reader_makes_progress` — what each of the calls of a text takes, and when they come to its end.
* `readEach_getElem?` — reading on after errors gives what these calls give.
-/

namespace Multimethod.Reader

/-! ## A call at work -/

/-- A call at work: where the machine stands, and the characters it has not taken. -/
structure Call where
  mode : Mode
  stack : List Frame
  left : List Char

/-- What a call comes to, and the characters it leaves. -/
abbrev Ending := Option Outcome × List Char

namespace Call

/-- A call before its first character. -/
def begin (cs : List Char) : Call := ⟨.between, [], cs⟩

/-- The end of the call, or the call with one more character taken. -/
def advance (call : Call) : Ending ⊕ Call :=
  match call.left with
  | [] => .inl (finish call.mode call.stack, [])
  | c :: cs =>
    match step call.mode call.stack c with
    | .more mode stack => .inr ⟨mode, stack, cs⟩
    | .consumed outcome => .inl (some outcome, cs)
    | .kept outcome => .inl (some outcome, c :: cs)

/-- The end that the machine runs to. -/
def ending (call : Call) : Ending := run call.mode call.stack call.left

/-- The call ends like this after taking so many characters on its way. -/
inductive EndsIn : Nat → Call → Ending → Prop where
  | ended {call : Call} {e : Ending} : call.advance = .inl e → EndsIn 0 call e
  | going {call next : Call} {e : Ending} {n : Nat} :
      call.advance = .inr next → EndsIn n next e → EndsIn (n + 1) call e

theorem advance_cons (mode : Mode) (stack : List Frame) (c : Char) (cs : List Char) :
    advance ⟨mode, stack, c :: cs⟩ =
      match step mode stack c with
      | .more mode stack => .inr ⟨mode, stack, cs⟩
      | .consumed outcome => .inl (some outcome, cs)
      | .kept outcome => .inl (some outcome, c :: cs) := rfl

theorem left_of_advance {call next : Call} (h : call.advance = .inr next) :
    ∃ c, call.left = c :: next.left := by
  obtain ⟨mode, stack, left⟩ := call
  cases left with
  | nil => cases h
  | cons c cs =>
    rw [advance_cons] at h
    cases hstep : step mode stack c with
    | more mode' stack' =>
      rw [hstep] at h
      cases h
      exact ⟨c, rfl⟩
    | consumed outcome =>
      rw [hstep] at h
      cases h
    | kept outcome =>
      rw [hstep] at h
      cases h

theorem ending_eq (call : Call) : call.ending = call.advance.elim id ending := by
  obtain ⟨mode, stack, left⟩ := call
  cases left with
  | nil => rfl
  | cons c cs =>
    show run mode stack (c :: cs) = (advance ⟨mode, stack, c :: cs⟩).elim id ending
    rw [run, advance_cons]
    cases step mode stack c <;> rfl

/-- **Every call ends within the characters that are left**, where the machine runs to. -/
theorem endsIn_ending (call : Call) : ∃ n ≤ call.left.length, EndsIn n call call.ending := by
  -- on the characters left: a call that goes on leaves one fewer
  induction hlength : call.left.length generalizing call with
  | zero =>
    have hnil := List.eq_nil_of_length_eq_zero hlength
    have hended : call.advance = .inl (finish call.mode call.stack, []) := by
      rw [advance, hnil]
    refine ⟨0, Nat.le_refl 0, ?_⟩
    rw [ending_eq, hended]
    exact .ended hended
  | succ length ih =>
    rw [ending_eq]
    cases hadvance : call.advance with
    | inl e => exact ⟨0, Nat.zero_le _, .ended hadvance⟩
    | inr next =>
      obtain ⟨c, hleft⟩ := left_of_advance hadvance
      have hnext : next.left.length = length := by
        rw [hleft, List.length_cons] at hlength
        omega
      obtain ⟨n, hn, hends⟩ := ih next hnext
      exact ⟨n + 1, Nat.succ_le_succ hn, .going hadvance hends⟩

end Call

/-! ## What a call takes -/

/-- What a call leaves is the end of what it was given. -/
theorem run_suffix (mode : Mode) (stack : List Frame) (cs : List Char) :
    (run mode stack cs).2 <:+ cs := by
  induction cs generalizing mode stack with
  | nil => exact List.suffix_refl []
  | cons c cs ih =>
    rw [run]
    split
    · exact (ih _ _).trans (List.suffix_cons c cs)
    · exact List.suffix_cons c cs
    · exact List.suffix_refl _

/-- A call that comes to nothing has come to the end of the text. -/
theorem run_of_none {mode : Mode} {stack : List Frame} {cs : List Char}
    (h : (run mode stack cs).1 = none) : (run mode stack cs).2 = [] := by
  induction cs generalizing mode stack with
  | nil => rfl
  | cons c cs ih =>
    rw [run] at h ⊢
    cases hstep : step mode stack c with
    | more mode stack =>
      rw [hstep] at h
      exact ih h
    | consumed outcome =>
      rw [hstep] at h
      cases h
    | kept outcome =>
      rw [hstep] at h
      cases h

/-- A call that gives a datum or an error has taken the characters before those it leaves, one at
least. -/
theorem exists_taken {cs : List Char} {outcome : Outcome} (h : (read cs).1 = some outcome) :
    ∃ taken ≠ [], cs = taken ++ (read cs).2 := by
  obtain ⟨taken, htaken⟩ := run_suffix .between [] cs
  refine ⟨taken, ?_, htaken.symm⟩
  rintro rfl
  have hshorter : (read cs).2.length < cs.length :=
    read_length_lt (show read cs = (some outcome, (read cs).2) from Prod.ext h rfl)
  exact absurd (congrArg List.length htaken) (Nat.ne_of_lt hshorter)

theorem read_nil : read [] = (none, []) := rfl

/-! ## Calls one after another -/

/-- What so many calls leave of a text, going on after errors and after the end of the text. -/
def leftAfter (cs : List Char) : Nat → List Char
  | 0 => cs
  | k + 1 => (read (leftAfter cs k)).2

theorem leftAfter_eq_nil {cs : List Char} {k : Nat} (h : leftAfter cs k = []) (more : Nat) :
    leftAfter cs (k + more) = [] := by
  induction more with
  | zero => exact h
  | succ more ih =>
    show (read (leftAfter cs (k + more))).2 = []
    rw [ih, read_nil]

theorem leftAfter_length_le (cs : List Char) (k : Nat) : (leftAfter cs k).length ≤ cs.length - k := by
  induction k with
  | zero => exact Nat.le_refl _
  | succ k ih =>
    show (read (leftAfter cs k)).2.length ≤ cs.length - (k + 1)
    cases h : (read (leftAfter cs k)).1 with
    | none =>
      have hnil : (read (leftAfter cs k)).2 = [] := run_of_none h
      rw [hnil]
      exact Nat.zero_le _
    | some outcome =>
      have hshorter : (read (leftAfter cs k)).2.length < (leftAfter cs k).length :=
        read_length_lt (show read _ = (some outcome, _) from Prod.ext h rfl)
      omega

theorem leftAfter_of_length_le {cs : List Char} {k : Nat} (h : cs.length ≤ k) :
    leftAfter cs k = [] := by
  have hbound := leftAfter_length_le cs k
  exact List.eq_nil_of_length_eq_zero (by omega)

/-- **The reader makes progress.** Every call on a text ends, and within the characters the calls
before it have left, whether those gave data or errors. A call that gives a datum or an error has taken
a first part of these, one character at least; a call that gives nothing has taken them all, and so does
every call after it. There is nothing to give once there have been as many calls as characters. -/
theorem reader_makes_progress (cs : List Char) (k : Nat) :
    (∃ n ≤ (leftAfter cs k).length,
      (Call.begin (leftAfter cs k)).EndsIn n (read (leftAfter cs k))) ∧
    (∀ outcome, (read (leftAfter cs k)).1 = some outcome →
      ∃ taken ≠ [], leftAfter cs k = taken ++ leftAfter cs (k + 1)) ∧
    ((read (leftAfter cs k)).1 = none →
      leftAfter cs (k + 1) = [] ∧ ∀ more, (read (leftAfter cs (k + more))).1 = none) ∧
    (cs.length ≤ k → (read (leftAfter cs k)).1 = none) := by
  refine ⟨(Call.begin _).endsIn_ending, fun outcome => exists_taken, fun hnone => ?_, fun hk => ?_⟩
  · have hnil : leftAfter cs (k + 1) = [] := run_of_none hnone
    refine ⟨hnil, fun more => ?_⟩
    cases more with
    | zero => exact hnone
    | succ more =>
      have hlater := leftAfter_eq_nil hnil more
      rw [Nat.add_right_comm] at hlater
      rw [← Nat.add_assoc, hlater, read_nil]
  · rw [leftAfter_of_length_le hk, read_nil]

/-! ## Reading on after errors -/

theorem readEach_of_none {cs : List Char} (h : (read cs).1 = none) : readEach cs = [] := by
  rw [readEach]
  split
  · rfl
  · rename_i heq
    rw [heq] at h
    cases h

theorem readEach_of_some {cs : List Char} {outcome : Outcome} (h : (read cs).1 = some outcome) :
    readEach cs = outcome :: readEach (read cs).2 := by
  rw [readEach]
  split
  · rename_i heq
    rw [heq] at h
    cases h
  · rename_i heq
    rw [heq] at h ⊢
    cases h
    rfl

theorem leftAfter_read (cs : List Char) (k : Nat) :
    leftAfter (read cs).2 k = leftAfter cs (k + 1) := by
  induction k with
  | zero => rfl
  | succ k ih => exact congrArg (fun left => (read left).2) ih

/-- **Reading on after errors gives what call after call gives**, up to the end of the text. -/
theorem readEach_getElem? (cs : List Char) (k : Nat) :
    (readEach cs)[k]? = (read (leftAfter cs k)).1 := by
  induction k generalizing cs with
  | zero =>
    show _ = (read cs).1
    cases h : (read cs).1 with
    | none => rw [readEach_of_none h, List.getElem?_nil]
    | some outcome => rw [readEach_of_some h, List.getElem?_cons_zero]
  | succ k ih =>
    cases h : (read cs).1 with
    | none =>
      have hnil : leftAfter cs (0 + 1) = [] := run_of_none h
      rw [readEach_of_none h, List.getElem?_nil, Nat.add_comm k, ← Nat.zero_add 1,
        leftAfter_eq_nil hnil k, read_nil]
    | some outcome => rw [readEach_of_some h, List.getElem?_cons_succ, ih, leftAfter_read]

end Multimethod.Reader
