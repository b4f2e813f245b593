import Multimethod.Reader.Source

/-!
# Reading a text character by character

A text is read by one call after another, and each call runs the machine. Here all calls are one run
over the characters of the text: a standing is what has been read so far, with the mode and the stack
of the call at hand. More text goes on from where the text before it came to.

* `Standing.step`, `Standing.feed` — one more character, and several.
* `Standing.feed_append` — a text in two parts is fed one part after the other.
* `readAll_eq_readOn` — what a text reads as is what its end makes of where its characters lead.
-/

namespace Multimethod.Reader

/-- Where the reading of a text has come to. -/
structure Standing where
  /-- The data that calls have ended with, the last one first. -/
  data : List Value
  mode : Mode
  stack : List Frame

namespace Standing

/-- Before the first character of a text. -/
def start : Standing := ⟨[], .between, []⟩

/-- One more datum is read, and the next call begins. -/
def ended (s : Standing) (v : Value) : Standing := ⟨v :: s.data, .between, []⟩

/-- The call at hand goes on. -/
def moved (s : Standing) (mode : Mode) (stack : List Frame) : Standing := ⟨s.data, mode, stack⟩

/-- What a character makes of a standing, whose call has ended before it or goes on with it. -/
def step (s : Standing) (c : Char) : Except SyntaxError Standing :=
  match Reader.step s.mode s.stack c with
  | .more mode stack => .ok (s.moved mode stack)
  | .consumed outcome => outcome.map s.ended
  | .kept (.error e) => .error e
  | .kept (.ok v) =>
    match stepBetween c [] with
    | .more mode stack => .ok ((s.ended v).moved mode stack)
    | .consumed outcome | .kept outcome => outcome.map (s.ended v).ended

/-- A character that a call leaves unread is the first one of the next call. -/
theorem step_of_kept {s : Standing} {c : Char} {v : Value}
    (h : Reader.step s.mode s.stack c = .kept (.ok v)) : s.step c = (s.ended v).step c := by
  show s.step c = step ⟨v :: s.data, .between, []⟩ c
  unfold step
  rw [h]
  simp only [Reader.step]
  cases hbetween : stepBetween c [] with
  | more mode stack => rfl
  | consumed outcome => rfl
  | kept outcome => exact absurd hbetween (stepBetween_ne_kept c [] outcome)

/-- What a character may lead to: it is taken by the call at hand, or by a new one if that has ended
before it, and the call that takes it goes on or ends. -/
theorem step_cases {s next : Standing} {c : Char} (h : s.step c = .ok next) :
    ∃ call : Standing, (call = s ∨ ∃ v, call = s.ended v) ∧
      ((∃ mode stack, Reader.step call.mode call.stack c = .more mode stack ∧
        next = call.moved mode stack) ∨ ∃ v, next = call.ended v) := by
  cases hstep : Reader.step s.mode s.stack c with
  | more mode stack =>
    rw [step, hstep] at h
    cases h
    exact ⟨s, .inl rfl, .inl ⟨mode, stack, hstep, rfl⟩⟩
  | consumed outcome =>
    rw [step, hstep] at h
    cases outcome with
    | error e => cases h
    | ok v =>
      cases h
      exact ⟨s, .inl rfl, .inr ⟨v, rfl⟩⟩
  | kept outcome =>
    cases outcome with
    | error e =>
      rw [step, hstep] at h
      cases h
    | ok v =>
      refine ⟨s.ended v, .inr ⟨v, rfl⟩, ?_⟩
      rw [step_of_kept hstep, step] at h
      cases hbetween : stepBetween c [] with
      | more mode stack =>
        have hmore : Reader.step (s.ended v).mode (s.ended v).stack c = .more mode stack := hbetween
        rw [hmore] at h
        cases h
        exact .inl ⟨mode, stack, hmore, rfl⟩
      | consumed outcome =>
        have hconsumed : Reader.step (s.ended v).mode (s.ended v).stack c = .consumed outcome := hbetween
        rw [hconsumed] at h
        cases outcome with
        | error e => cases h
        | ok w =>
          cases h
          exact .inr ⟨w, rfl⟩
      | kept outcome => exact absurd hbetween (stepBetween_ne_kept c [] outcome)

/-- What a row of characters makes of a standing. -/
def feed (s : Standing) : List Char → Except SyntaxError Standing
  | [] => .ok s
  | c :: cs => s.step c >>= fun next => next.feed cs

/-- The data of the text if it ends here. -/
def finish (s : Standing) : Except SyntaxError (List Value) :=
  match Reader.finish s.mode s.stack with
  | none => .ok s.data.reverse
  | some outcome => outcome.map fun v => (v :: s.data).reverse

/-- What is read if these characters follow and the text ends after them. -/
def readOn (s : Standing) (cs : List Char) : Except SyntaxError (List Value) :=
  s.feed cs >>= finish

theorem feed_append (s : Standing) (cs more : List Char) :
    s.feed (cs ++ more) = s.feed cs >>= fun next => next.feed more := by
  induction cs generalizing s with
  | nil => rfl
  | cons c cs ih =>
    rw [List.cons_append, feed, feed]
    cases s.step c with
    | error e => rfl
    | ok next => exact ih next

theorem readOn_append (s : Standing) (cs more : List Char) :
    s.readOn (cs ++ more) = s.feed cs >>= fun next => next.readOn more := by
  rw [readOn, feed_append]
  cases s.feed cs <;> rfl

theorem readOn_cons (s : Standing) (c : Char) (cs : List Char) :
    s.readOn (c :: cs) = s.step c >>= fun next => next.readOn cs :=
  readOn_append s [c] cs |>.trans (by rw [feed]; cases s.step c <;> rfl)

end Standing

/-! ## Calls one after another -/

/-- The data of a text whose first call comes to this end. -/
def readRest : Option Outcome × List Char → Except SyntaxError (List Value)
  | (none, _) => .ok []
  | (some (.error e), _) => .error e
  | (some (.ok v), rest) => (readAll rest).map (v :: ·)

theorem readAll_eq_readRest (cs : List Char) : readAll cs = readRest (read cs) := by
  rw [readAll]
  split <;> simp_all [readRest]

theorem map_reverse_cons (result : Except SyntaxError (List Value)) (v : Value) (data : List Value) :
    result.map ((v :: data).reverse ++ ·) = (result.map (v :: ·)).map (data.reverse ++ ·) := by
  cases result with
  | error e => rfl
  | ok values => simp [Except.map]

/-- From any standing, the characters that follow are read by the call at hand and those after it. -/
theorem Standing.readOn_eq (s : Standing) (cs : List Char) :
    s.readOn cs = (readRest (run s.mode s.stack cs)).map (s.data.reverse ++ ·) := by
  induction cs generalizing s with
  | nil =>
    rw [run]
    show s.finish = _
    unfold finish
    cases Reader.finish s.mode s.stack with
    | none => simp [readRest, Except.map]
    | some outcome =>
      cases outcome with
      | error e => rfl
      | ok v => simp [readRest, readAll_eq_readRest [], read, run, Reader.finish, endOfText, Except.map]
  | cons c cs ih =>
    -- the call that ends with `v` leaves `cs` to the next one
    have hended (s : Standing) (v : Value) :
        (s.ended v).readOn cs = ((readAll cs).map (v :: ·)).map (s.data.reverse ++ ·) := by
      rw [ih, readAll_eq_readRest, read, ← map_reverse_cons]
      rfl
    rw [readOn_cons, run]
    unfold step
    cases Reader.step s.mode s.stack c with
    | more mode stack => exact ih (s.moved mode stack)
    | consumed outcome =>
      cases outcome with
      | error e => rfl
      | ok v => exact hended s v
    | kept outcome =>
      cases outcome with
      | error e => rfl
      | ok v =>
        -- the next call begins with `c` itself
        show _ = ((readAll (c :: cs)).map (v :: ·)).map (s.data.reverse ++ ·)
        rw [readAll_eq_readRest, read, run, Reader.step]
        have hkept := stepBetween_ne_kept c []
        cases hstep : stepBetween c [] with
        | more mode stack =>
          show ((s.ended v).moved mode stack).readOn cs = _
          rw [ih, ← map_reverse_cons]
          rfl
        | consumed outcome =>
          cases outcome with
          | error e => rfl
          | ok w =>
            show ((s.ended v).ended w).readOn cs = _
            rw [hended]
            exact map_reverse_cons ((readAll cs).map (w :: ·)) v s.data
        | kept outcome => exact absurd hstep (hkept outcome)

/-- **A text reads as what its end makes of where its characters lead.** -/
theorem readAll_eq_readOn (cs : List Char) : readAll cs = Standing.start.readOn cs := by
  rw [Standing.readOn_eq, readAll_eq_readRest, read]
  show _ = (readRest (run .between [] cs)).map ([].reverse ++ ·)
  cases readRest (run .between [] cs) <;> rfl

end Multimethod.Reader
