import Multimethod.Proofs.Reader.Cut
import Multimethod.Proofs.Eval.Run

/-!
# Texts joined by the end of a line

The end of a line ends whatever datum the end of a text would: an atom, a character literal, a comment.
So a text that can be read and a text on the lines after it read as one after the other, and they
evaluate so unless nothing stands in the second.

* `Reader.Standing.brokenOffBy_lineEnd` — where a whole text could end, the end of a line breaks it off.
* `Reader.readAll_joined` — reading a text with more lines after it.
* `Task.evalSequence_append` — evaluating one row of forms after another.
* `joined_sources` — reading and evaluating two texts joined by the end of a line.
* `evalSource_before_blank` — with nothing in the second text, the first gives the value.
-/

namespace Multimethod

namespace Reader

/-! ## Reading -/

namespace Standing

/-- **Where a text could end, the end of a line breaks off what is at hand.** -/
theorem brokenOffBy_lineEnd {s : Standing} {values : List Value} (hfinish : s.finish = .ok values) :
    s.BrokenOffBy '\n' := by
  obtain ⟨data, mode, stack⟩ := s
  cases mode with
  | between => exact ⟨.pending stack, rfl, rfl⟩
  | lineComment => exact ⟨.pending stack, rfl, rfl⟩
  | character read => exact ⟨deliverCharacter read stack, rfl, rfl⟩
  | atom read hasEscape => exact ⟨deliver (atomToken read hasEscape) stack, rfl, rfl⟩
  -- a text cannot end in any other token
  | hash => cases hfinish
  | comma => cases hfinish
  | quoted delimiter read => cases hfinish
  | quotedEscape delimiter read => cases hfinish
  | quotedHex delimiter read digits => cases hfinish
  | characterStart => cases hfinish
  | atomEscape read => cases hfinish

/-- At the beginning of a text, the end of a line is blank. -/
theorem feed_start_lineEnd (cs : List Char) : start.feed ('\n' :: cs) = start.feed cs := rfl

end Standing

open Standing

/-- **A text that can be read, the end of a line and another text read as the two texts**, one after the
other; an error in the second is the error of the whole. -/
theorem readAll_joined {first : List Value} {a : List Char} (hfirst : readAll a = .ok first)
    (b : List Char) : readAll (a ++ '\n' :: b) = (readAll b).map (first ++ ·) := by
  obtain ⟨s, hfeed, hfinish⟩ := exists_feed_of_readAll hfirst
  apply readAll_of_feed
  rw [feed_append, hfeed, ← feed_start_lineEnd b]
  exact feed_of_finish (brokenOffBy_lineEnd hfinish) hfinish b

end Reader

/-! ## Evaluating -/

namespace Task

variable {recur : Task → EvalM Value}

theorem evalSequence_append (last : Value) (first second : List Value) :
    evalSequence recur last (first ++ second) =
      evalSequence recur last first >>= fun v => evalSequence recur v second := by
  induction first generalizing last with
  | nil => rw [List.nil_append, evalSequence, pure_bind]
  | cons form rest ih =>
    rw [List.cons_append, evalSequence, evalSequence, bind_assoc]
    exact bind_congr fun v => ih v

/-- What was evaluated before a form does not matter to the value of the row. -/
theorem evalSequence_of_ne_nil {forms : List Value} (hforms : forms ≠ []) (last other : Value) :
    evalSequence recur last forms = evalSequence recur other forms := by
  cases forms with
  | nil => exact absurd rfl hforms
  | cons form rest => rfl

theorem evalSource_of_readAll {source : String} {forms : List Value}
    (h : Reader.readAll source.toList = .ok forms) :
    evalSource recur source = evalSequence recur .null forms := by
  rw [evalSource, h]

end Task

variable {a b : String} {first : List Value}

theorem readAll_join (hfirst : Reader.readAll a.toList = .ok first) (b : String) :
    Reader.readAll (a ++ "\n" ++ b).toList = (Reader.readAll b.toList).map (first ++ ·) := by
  rw [String.toList_append, String.toList_append, List.append_assoc]
  exact Reader.readAll_joined hfirst b.toList

/-- **Reading is compositional.** If a text can be read, then with the end of a line and another text
after it the whole fails to be read just as the other text does, with its error, and reads as the one
text followed by the other if that can be read. If there is a form in the other text as well, evaluating
the whole from any interpreter is evaluating the one text and, if that gives a value, the other from the
interpreter it leaves: the results are the same, and so are the interpreters in the end. -/
theorem joined_sources (hfirst : Reader.readAll a.toList = .ok first) :
    Reader.readAll (a ++ "\n" ++ b).toList = (Reader.readAll b.toList).map (first ++ ·) ∧
    ∀ second ≠ [], Reader.readAll b.toList = .ok second →
      ∀ (depth : Nat) (i : Interpreter),
        (Task.evalSource (Task.perform depth) (a ++ "\n" ++ b)).runFrom i =
          match (Task.evalSource (Task.perform depth) a).runFrom i with
          | none => none
          | some (.ok _, j) => (Task.evalSource (Task.perform depth) b).runFrom j
          | some (.error e, j) => some (.error e, j) := by
  refine ⟨readAll_join hfirst b, fun second hne hsecond depth i => ?_⟩
  have hjoin : Reader.readAll (a ++ "\n" ++ b).toList = .ok (first ++ second) := by
    rw [readAll_join hfirst b, hsecond]
    rfl
  rw [Task.evalSource_of_readAll hjoin, Task.evalSource_of_readAll hfirst,
    Task.evalSource_of_readAll hsecond, Task.evalSequence_append, EvalM.runFrom_bind]
  cases (Task.evalSequence (Task.perform depth) .null first).runFrom i with
  | none => rfl
  | some ended =>
    obtain ⟨_ | v, j⟩ := ended
    · rfl
    · exact congrArg (EvalM.runFrom · j) (Task.evalSequence_of_ne_nil hne v .null)

/-- A comment at the end of the first text ends with its line. -/
theorem joined_sources_of_comment :
    Reader.readAll "(define x 1) ; one".toList =
      .ok [.list [.symbol "define", .symbol "x", .int 1]] ∧
    Reader.readAll ("(define x 1) ; one" ++ "\n" ++ "x").toList =
      .ok [.list [.symbol "define", .symbol "x", .int 1], .symbol "x"] ∧
    ∀ (depth : Nat) (i : Interpreter),
      (Task.evalSource (Task.perform depth) ("(define x 1) ; one" ++ "\n" ++ "x")).runFrom i =
        match (Task.evalSource (Task.perform depth) "(define x 1) ; one").runFrom i with
        | none => none
        | some (.ok _, j) => (Task.evalSource (Task.perform depth) "x").runFrom j
        | some (.error e, j) => some (.error e, j) := by
  have hfirst : Reader.readAll "(define x 1) ; one".toList =
      .ok [.list [.symbol "define", .symbol "x", .int 1]] := by
    rw [Reader.readAll_eq_readOn]
    rfl
  have hsecond : Reader.readAll "x".toList = .ok [.symbol "x"] := by
    rw [Reader.readAll_eq_readOn]
    rfl
  obtain ⟨hjoin, heval⟩ := joined_sources (b := "x") hfirst
  rw [hsecond] at hjoin
  exact ⟨hfirst, hjoin, heval _ (List.cons_ne_nil _ _) hsecond⟩

/-- With no form in the second text, the whole is evaluated as the first text is. -/
theorem evalSource_before_blank (hfirst : Reader.readAll a.toList = .ok first)
    (hblank : Reader.readAll b.toList = .ok []) (recur : Task → EvalM Value) :
    Task.evalSource recur (a ++ "\n" ++ b) = Task.evalSource recur a := by
  have hjoin : Reader.readAll (a ++ "\n" ++ b).toList = .ok (first ++ []) := by
    rw [readAll_join hfirst b, hblank]
    rfl
  rw [Task.evalSource_of_readAll hjoin, Task.evalSource_of_readAll hfirst, List.append_nil]

end Multimethod
