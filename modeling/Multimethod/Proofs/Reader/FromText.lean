import Multimethod.Reader.Source

/-!
# The values that texts are read as

Texts are read as truth values, characters, numbers, texts, symbols and lists of these. A whole number has
the narrowest width that holds it; a double may be any. The machine keeps to such values: the items of its
open lists are of them from step to step, and so is the datum that a call ends with.

* `Value.FromText` — the values that texts are read as.
* `fromText_step`, `fromText_run` — what one step keeps to, and what a run comes to.
* `fromText_readAll` — whatever text is read, it is read as such values.
-/

namespace Multimethod

namespace Value

/-- Values that texts are read as. -/
inductive FromText : Value → Prop
  | bool (b : Bool) : FromText (.bool b)
  | char (c : Char) : FromText (.char c)
  | int (n : Int32) : FromText (.int n)
  | long {n : Int64} (hwide : ¬(Int32.minValue.toInt ≤ n.toInt ∧ n.toInt ≤ Int32.maxValue.toInt)) :
    FromText (.long n)
  | double (x : Float) : FromText (.double x)
  | text (s : String) : FromText (.text s)
  | symbol (name : String) : FromText (.symbol name)
  | list {items : List Value} (hitems : ∀ v ∈ items, FromText v) : FromText (.list items)

end Value

namespace Reader

/-! ## What the machine comes to -/

/-- Are the items of an open list such as texts are read as? -/
def Frame.FromText : Frame → Prop
  | .list items | .afterDot items => ∀ v ∈ items, v.FromText
  | .marked _ => True

/-- Is the outcome, if it is a datum, one that texts are read as? -/
def Outcome.FromText (outcome : Outcome) : Prop := ∀ v, outcome = .ok v → v.FromText

/-- Does the delivery leave or end the call with data that texts are read as? -/
def Delivery.FromText : Delivery → Prop
  | .pending stack => ∀ frame ∈ stack, frame.FromText
  | .finished outcome => Outcome.FromText outcome

/-- Does the step go on or end the call with data that texts are read as? -/
def Step.FromText : Step → Prop
  | .more _ stack => ∀ frame ∈ stack, frame.FromText
  | .consumed outcome | .kept outcome => Outcome.FromText outcome

variable {stack : List Frame}

theorem fromText_error (e : SyntaxError) : Outcome.FromText (.error e) := by
  rintro v ⟨⟩

theorem fromText_deliverDatum {v : Value} (hv : v.FromText) (hstack : ∀ frame ∈ stack, frame.FromText) :
    (deliverDatum v stack).FromText := by
  induction stack generalizing v with
  | nil =>
    rintro w ⟨⟩
    exact hv
  | cons frame stack ih =>
    rw [List.forall_mem_cons] at hstack
    cases frame with
    | list items => exact List.forall_mem_cons.2 ⟨List.forall_mem_cons.2 ⟨hv, hstack.1⟩, hstack.2⟩
    | afterDot items =>
      have hdot : ∀ w ∈ v :: .symbol "." :: items, w.FromText :=
        List.forall_mem_cons.2 ⟨hv, List.forall_mem_cons.2 ⟨.symbol ".", hstack.1⟩⟩
      cases hv with
      | @list tail htail =>
        have hspliced : ∀ w ∈ tail.reverse ++ items, w.FromText :=
          List.forall_mem_append.2 ⟨fun w hw => htail w (List.mem_reverse.1 hw), hstack.1⟩
        exact List.forall_mem_cons.2 ⟨hspliced, hstack.2⟩
      | _ => exact List.forall_mem_cons.2 ⟨hdot, hstack.2⟩
    | marked mark =>
      unfold deliverDatum
      cases mark.head? with
      | none => exact hstack.2
      | some head =>
        have hpair : ∀ w ∈ [Value.symbol head, v], w.FromText := by simpa using ⟨.symbol head, hv⟩
        exact ih (.list hpair) hstack.2

theorem fromText_reverse {items : List Value} (hitems : ∀ v ∈ items, v.FromText) :
    (Value.list items.reverse).FromText :=
  .list fun v hv => hitems v (List.mem_reverse.1 hv)

theorem fromText_deliverClose (hstack : ∀ frame ∈ stack, frame.FromText) :
    (deliverClose stack).FromText := by
  cases stack with
  | nil => exact fromText_error _
  | cons frame stack =>
    rw [List.forall_mem_cons] at hstack
    cases frame with
    | list items => exact fromText_deliverDatum (fromText_reverse hstack.1) hstack.2
    | afterDot items =>
      have hitems : ∀ v ∈ Value.symbol "." :: items, v.FromText :=
        List.forall_mem_cons.2 ⟨.symbol ".", hstack.1⟩
      exact fromText_deliverDatum (fromText_reverse hitems) hstack.2
    | marked mark => exact fromText_error _

theorem fromText_deliverDot (hstack : ∀ frame ∈ stack, frame.FromText) :
    (deliverDot stack).FromText := by
  cases stack with
  | nil => exact fromText_error _
  | cons frame stack =>
    rw [List.forall_mem_cons] at hstack
    cases frame with
    | list items => exact List.forall_mem_cons.2 hstack
    | afterDot items =>
      have hitems : ∀ v ∈ Value.symbol "." :: .symbol "." :: items, v.FromText :=
        List.forall_mem_cons.2 ⟨.symbol ".", List.forall_mem_cons.2 ⟨.symbol ".", hstack.1⟩⟩
      exact List.forall_mem_cons.2 ⟨hitems, hstack.2⟩
    | marked mark => exact fromText_error _

theorem fromText_of_number? {text : List Char} {v : Value} (h : Token.number? text = some v) :
    v.FromText := by
  unfold Token.number? at h
  split at h
  · split at h
    · split at h
      · split at h
        · cases h
          exact .int _
        · rename_i hwide
          cases h
          exact .long hwide
      · obtain ⟨x, -, rfl⟩ := Option.map_eq_some_iff.1 h
        exact .double x
    · cases h
  · cases h

theorem fromText_deliver_ofAtom (text : List Char) (hstack : ∀ frame ∈ stack, frame.FromText) :
    (deliver (Token.ofAtom text) stack).FromText := by
  unfold Token.ofAtom
  split
  · exact fromText_deliverDot hstack
  split
  · exact fromText_deliverDatum (.bool true) hstack
  split
  · exact fromText_deliverDatum (.bool false) hstack
  · refine fromText_deliverDatum ?_ hstack
    cases hnumber : Token.number? text with
    | none => exact .symbol _
    | some v => exact fromText_of_number? hnumber

theorem fromText_deliver_atomToken (read : List Char) (hasEscape : Bool)
    (hstack : ∀ frame ∈ stack, frame.FromText) :
    (deliver (atomToken read hasEscape) stack).FromText := by
  unfold atomToken
  split
  · exact fromText_deliverDatum (.symbol _) hstack
  · exact fromText_deliver_ofAtom _ hstack

theorem fromText_quotedValue (delimiter : Char) (read : List Char) :
    (quotedValue delimiter read).FromText := by
  unfold quotedValue
  dsimp only
  split
  · exact .symbol _
  · exact .text _

theorem fromText_deliverCharacter (read : List Char) (hstack : ∀ frame ∈ stack, frame.FromText) :
    (deliverCharacter read stack).FromText := by
  unfold deliverCharacter
  split
  · exact fromText_deliverDatum (.char _) hstack
  · exact fromText_error _

/-! ## Steps and runs -/

theorem fromText_afterToken {delivery : Delivery} (h : delivery.FromText) :
    (afterToken delivery).FromText := by
  cases delivery <;> exact h

theorem fromText_stepBetween (c : Char) (hstack : ∀ frame ∈ stack, frame.FromText) :
    (stepBetween c stack).FromText := by
  have hlist : (Frame.list []).FromText := by simp [Frame.FromText]
  have hopen {frame : Frame} (hframe : frame.FromText) : ∀ f ∈ frame :: stack, f.FromText :=
    List.forall_mem_cons.2 ⟨hframe, hstack⟩
  unfold stepBetween
  split
  · exact hstack
  · split
    · exact hstack
    · exact hopen hlist
    · exact fromText_afterToken (fromText_deliverClose hstack)
    · exact hstack
    · exact hstack
    · exact hopen trivial
    · exact hopen trivial
    · exact hstack
    · exact hstack
    · exact hstack
    · exact hstack

theorem fromText_stepAfter {delivery : Delivery} (h : delivery.FromText) (c : Char) :
    (stepAfter delivery c).FromText := by
  cases delivery with
  | pending stack => exact fromText_stepBetween c h
  | finished outcome => exact h

/-- **A step keeps to data that texts are read as.** -/
theorem fromText_step (mode : Mode) (c : Char) (hstack : ∀ frame ∈ stack, frame.FromText) :
    (step mode stack c).FromText := by
  cases mode with
  | between => exact fromText_stepBetween c hstack
  | lineComment => exact hstack
  | hash =>
    show (stepHash c stack).FromText
    unfold stepHash
    split
    · exact List.forall_mem_cons.2 ⟨by simp [Frame.FromText], hstack⟩
    · exact List.forall_mem_cons.2 ⟨trivial, hstack⟩
    · exact hstack
    · split
      · exact fromText_error _
      · exact hstack
  | comma =>
    have hopen (mark : Mark) : ∀ frame ∈ Frame.marked mark :: stack, frame.FromText :=
      List.forall_mem_cons.2 ⟨trivial, hstack⟩
    rw [step]
    split
    · exact hopen _
    · exact fromText_stepBetween c (hopen _)
  | quoted delimiter read =>
    rw [step]
    split
    · exact fromText_afterToken (fromText_deliverDatum (fromText_quotedValue delimiter read) hstack)
    · split <;> exact hstack
  | quotedEscape delimiter read =>
    rw [step]
    split <;> exact hstack
  | quotedHex delimiter read digits =>
    rw [step]
    split
    · unfold stepHexEnd
      split
      · exact hstack
      · exact fromText_error _
    · exact hstack
  | characterStart => exact hstack
  | character read =>
    rw [step]
    split
    · exact fromText_stepAfter (fromText_deliverCharacter read hstack) c
    · exact hstack
  | atom read hasEscape =>
    rw [step]
    split
    · exact fromText_stepAfter (fromText_deliver_atomToken read hasEscape hstack) c
    · split <;> exact hstack
  | atomEscape read => exact hstack

theorem fromText_endOfText {outcome : Outcome} (h : endOfText stack = some outcome) :
    Outcome.FromText outcome := by
  cases stack with
  | nil => cases h
  | cons frame stack => cases frame <;> (cases h; exact fromText_error _)

theorem fromText_finishAfter {delivery : Delivery} (hdelivery : delivery.FromText) {outcome : Outcome}
    (h : finishAfter delivery = some outcome) : Outcome.FromText outcome := by
  cases delivery with
  | pending stack => exact fromText_endOfText h
  | finished outcome => cases h; exact hdelivery

theorem fromText_finish (mode : Mode) (hstack : ∀ frame ∈ stack, frame.FromText) {outcome : Outcome}
    (h : finish mode stack = some outcome) : Outcome.FromText outcome := by
  cases mode with
  | between => exact fromText_endOfText h
  | lineComment => exact fromText_endOfText h
  | character read => exact fromText_finishAfter (fromText_deliverCharacter read hstack) h
  | atom read hasEscape => exact fromText_finishAfter (fromText_deliver_atomToken read hasEscape hstack) h
  | _ => cases h; exact fromText_error _

/-- **A run comes to a datum that texts are read as.** -/
theorem fromText_run (mode : Mode) (hstack : ∀ frame ∈ stack, frame.FromText) {cs : List Char}
    {outcome : Outcome} (h : (run mode stack cs).1 = some outcome) : Outcome.FromText outcome := by
  induction cs generalizing mode stack with
  | nil => exact fromText_finish mode hstack h
  | cons c cs ih =>
    have hstep := fromText_step mode c hstack
    rw [run] at h
    cases hnext : step mode stack c with
    | more mode' stack' =>
      rw [hnext] at h hstep
      exact ih mode' hstep h
    | consumed outcome' =>
      rw [hnext] at h hstep
      cases h
      exact hstep
    | kept outcome' =>
      rw [hnext] at h hstep
      cases h
      exact hstep

/-- **Whatever text is read, its data are values that texts are read as.** -/
theorem fromText_readAll {cs : List Char} {vs : List Value} (h : readAll cs = .ok vs) :
    ∀ v ∈ vs, v.FromText := by
  have hfirst (cs : List Char) {outcome : Outcome} (hread : (read cs).1 = some outcome) :
      Outcome.FromText outcome := fromText_run .between (by simp) hread
  fun_induction readAll cs generalizing vs with
  | case1 cs rest hread =>
    cases h
    simp
  | case2 cs e rest hread => cases h
  | case3 cs v rest hread ih =>
    cases hrest : readAll rest with
    | error e =>
      rw [hrest] at h
      cases h
    | ok others =>
      rw [hrest] at h
      cases h
      exact List.forall_mem_cons.2 ⟨hfirst cs (congrArg Prod.fst hread) v rfl, ih hrest⟩

end Reader

end Multimethod
