import Multimethod.Proofs.Reader.RoundTrip

/-!
# Dots and datum comments

A dot before a list in a list splices its items in, whatever comes after them. A datum comment is dropped
with its datum: it may stand wherever a token may begin, in lists of any depth and between whole data, and
what is read stays the same.

* `Standing.Pauses`, `IsGap` — the places of a text where a token may begin.
* `readAll_insert` — a datum comment there changes nothing.
* `Value.annotated`, `row_annotatedItems` — written forms with comments before the items and the closing
  parentheses of all lists in them are read as without.
* `dots_and_datum_comments` — all of these.
-/

namespace Multimethod

/-- The text of a comment that drops the datum, with a blank on either side. -/
def Value.asComment (d : Value) : String := " #;" ++ d.write ++ " "

namespace Value

theorem toList_asComment (d : Value) : d.asComment.toList = ' ' :: '#' :: ';' :: (d.chars true ++ [' ']) := by
  simp [asComment, write]

end Value

namespace Reader

/-! ## Dots -/

/-- **A list after a dot is spliced in** between the items before and after it. -/
theorem readsAs_splice {xs ys zs : List Value} {before tail after : List Char} (hbefore : Row xs before)
    (htail : Row ys tail) (hafter : Row zs after) :
    ReadsAs ('(' :: (before ++ ' ' :: '.' :: ' ' :: ('(' :: tail ++ [')'] ++ ' ' :: (after ++ [')']))))
      (.list (xs ++ ys ++ zs)) := by
  intro stack rest _
  have hdot (items : List Value) (cs : List Char) : run .between (.list items :: stack) ('.' :: ' ' :: cs) =
      run .between (.afterDot items :: stack) cs := by
    have hplain : ['.'].all isPlain = true := rfl
    exact (run_atom hplain (by decide) (endsToken_space cs)).trans (run_space _ cs)
  have hlist (items : List Value) := readsAs_list htail (.afterDot items :: stack)
    (' ' :: (after ++ ')' :: rest)) (endsToken_space _)
  simp only [List.cons_append, List.append_assoc, List.nil_append] at hlist ⊢
  rw [run_open, hbefore.run_list (endsToken_space _), run_space, hdot, hlist, deliverDatum, Delivery.resume,
    run_space, hafter.run_list_close]
  simp

/-! ## Comments in any text -/

/-- May a token begin before what follows? Between tokens it may, and after an atom, a character literal or
a comma that what follows does not go on. -/
def Standing.Pauses (s : Standing) (rest : List Char) : Prop :=
  match s.mode with
  | .between => True
  | .character _ | .atom _ _ => EndsToken rest
  | .comma => rest.head? ≠ some '@'
  | _ => False

/-- May a token begin at this place of the text: an item or the closing parenthesis of a list, or a datum
of its own? -/
def IsGap (before rest : List Char) : Prop :=
  ∀ s, Standing.start.feed before = .ok s → s.Pauses rest

/-- Where a token may begin, a blank ends what is at hand just as what follows does. -/
theorem Standing.Pauses.exists_delivery {s : Standing} {rest : List Char} (h : s.Pauses rest) :
    ∃ delivery : Delivery, run s.mode s.stack rest = delivery.resume rest ∧
      ∀ cs, run s.mode s.stack (' ' :: cs) = delivery.resume (' ' :: cs) := by
  obtain ⟨data, mode, stack⟩ := s
  cases mode with
  | between => exact ⟨.pending stack, rfl, fun cs => rfl⟩
  | character read =>
    exact ⟨deliverCharacter read stack, run_character_end read h,
      fun cs => run_character_end read (endsToken_space cs)⟩
  | atom read hasEscape =>
    exact ⟨deliver (atomToken read hasEscape) stack, run_atom_end read hasEscape h,
      fun cs => run_atom_end read hasEscape (endsToken_space cs)⟩
  | comma =>
    refine ⟨.pending (.marked .unquote :: stack), ?_, fun cs => rfl⟩
    cases rest with
    | nil => rfl
    | cons c cs =>
      have hc : c ≠ '@' := fun heq => h (congrArg some heq)
      have hstep : Reader.step .comma stack c = Reader.step .between (.marked .unquote :: stack) c := if_neg hc
      show run .comma stack (c :: cs) = run .between (.marked .unquote :: stack) (c :: cs)
      rw [run, run, hstep]
  | lineComment => exact h.elim
  | hash => exact h.elim
  | quoted delimiter read => exact h.elim
  | quotedEscape delimiter read => exact h.elim
  | quotedHex delimiter read digits => exact h.elim
  | characterStart => exact h.elim
  | atomEscape read => exact h.elim

theorem run_asComment {d : Value} (hd : ReadsAs (d.chars true) d) (stack : List Frame) (rest : List Char) :
    run .between stack (d.asComment.toList ++ rest) = run .between stack rest := by
  rw [Value.toList_asComment, List.cons_append, List.cons_append, List.cons_append, List.append_assoc,
    List.singleton_append, run_space, run_datumComment hd (endsToken_space rest), run_space]

/-- **A datum comment where a token may begin does not change what is read.** -/
theorem readAll_insert {before rest : List Char} (hgap : IsGap before rest) {d : Value}
    (hd : ReadsAs (d.chars true) d) :
    readAll (before ++ d.asComment.toList ++ rest) = readAll (before ++ rest) := by
  rw [List.append_assoc, readAll_eq_readOn, readAll_eq_readOn, Standing.readOn_append,
    Standing.readOn_append]
  cases hfeed : Standing.start.feed before with
  | error e => rfl
  | ok s =>
    show s.readOn (d.asComment.toList ++ rest) = s.readOn rest
    obtain ⟨delivery, hrest, hblank⟩ := (hgap s hfeed).exists_delivery
    have hcomment : run s.mode s.stack (d.asComment.toList ++ rest) =
        delivery.resume (d.asComment.toList ++ rest) := by
      rw [Value.toList_asComment]
      exact hblank _
    rw [Standing.readOn_eq, Standing.readOn_eq, hcomment, hrest]
    congr 1
    cases delivery with
    | pending stack => exact congrArg readRest (run_asComment hd stack rest)
    | finished outcome =>
      cases outcome with
      | error e => rfl
      | ok v =>
        -- the comment is left to the next call
        have hnext : readAll (d.asComment.toList ++ rest) = readAll rest := by
          rw [readAll_eq_readRest, readAll_eq_readRest, read, read, run_asComment hd]
        exact congrArg (Except.map (v :: ·)) hnext

/-! ## Comments in written forms -/

/-- Comments one after another. -/
def commentChars (ds : List Value) : List Char := ds.flatMap fun d => d.asComment.toList

theorem endsToken_commentChars (ds : List Value) : EndsToken (commentChars ds) := by
  cases ds with
  | nil => exact endsToken_nil
  | cons d rest =>
    rw [commentChars, List.flatMap_cons, Value.toList_asComment]
    exact endsToken_space _

theorem Row.comments {ds vs : List Value} {text : List Char} (hds : ∀ d ∈ ds, ReadsAs (d.chars true) d)
    (hrow : Row vs text) : Row vs (commentChars ds ++ text) := by
  induction ds with
  | nil => exact hrow
  | cons d rest ih =>
    rw [List.forall_mem_cons] at hds
    rw [commentChars, List.flatMap_cons, Value.toList_asComment, ← commentChars, List.append_assoc,
      List.cons_append, List.cons_append, List.cons_append, List.append_assoc, List.singleton_append]
    exact (Row.comment hds.1 (endsToken_space _) (ih hds.2).space).space

end Reader

namespace Value

mutual

/-- The written form of a value with comments in it. The place of an item is its number in its list, behind
the place of the list; the closing parenthesis has the number after the last item. The notes of a place
stand before it as comments. -/
def annotated (notes : List Nat → List Value) (place : List Nat) : Value → List Char
  | list items => '(' :: annotatedItems notes place 0 items ++ [')']
  | v => v.chars true

/-- The written forms of items from number `n` on with comments in them and between them. -/
def annotatedItems (notes : List Nat → List Value) (place : List Nat) (n : Nat) : List Value → List Char
  | [] => Reader.commentChars (notes (place ++ [n]))
  | v :: rest => Reader.commentChars (notes (place ++ [n])) ++ annotated notes (place ++ [n]) v ++
      (if rest.isEmpty then [] else [' ']) ++ annotatedItems notes place (n + 1) rest

end

mutual

theorem annotated_none (v : Value) (place : List Nat) : annotated (fun _ => []) place v = v.chars true := by
  cases v with
  | list items => rw [annotated, chars_list, annotatedItems_none items place 0]
  | _ => rfl

theorem annotatedItems_none (items : List Value) (place : List Nat) (n : Nat) :
    annotatedItems (fun _ => []) place n items = itemChars true items := by
  cases items with
  | nil => rfl
  | cons v rest =>
    rw [annotatedItems, annotated_none v, annotatedItems_none rest]
    cases rest with
    | nil => exact (List.append_nil _).trans (List.append_nil _)
    | cons w rest =>
      rw [itemChars_cons_cons, List.append_assoc]
      rfl

end

open Reader

variable {notes : List Nat → List Value}

theorem row_annotatedItems (hnotes : ∀ place, ∀ d ∈ notes place, ReadsAs (d.chars true) d)
    (place : List Nat) (n : Nat) {items : List Value}
    (hitems : ∀ v ∈ items, ∀ place, ReadsAs (annotated notes place v) v) :
    Row items (annotatedItems notes place n items) := by
  induction items generalizing n with
  | nil =>
    rw [annotatedItems, ← List.append_nil (commentChars _)]
    exact .comments (hnotes _) .nil
  | cons v rest ih =>
    rw [List.forall_mem_cons] at hitems
    have hnext := ih (n + 1) hitems.2
    rw [annotatedItems, List.append_assoc, List.append_assoc]
    refine .comments (hnotes _) (.datum (hitems.1 _) ?_ ?_)
    · cases rest with
      | nil => exact endsToken_commentChars _
      | cons w rest => exact endsToken_space _
    · cases rest with
      | nil => exact hnext
      | cons w rest => exact hnext.space

/-- **The written form of a readable value with comments in it reads back.** -/
theorem Readable.readsAs_annotated (hnotes : ∀ place, ∀ d ∈ notes place, ReadsAs (d.chars true) d) {v : Value}
    (hv : v.Readable) (place : List Nat) : ReadsAs (annotated notes place v) v := by
  induction hv generalizing place with
  | list _ ih => exact readsAs_list (row_annotatedItems hnotes place 0 ih)
  | bool b => exact (Readable.bool b).readsBack
  | char c => exact (Readable.char c).readsBack
  | int n => exact (Readable.int n).readsBack
  | long hwide => exact (Readable.long hwide).readsBack
  | double hnumber hfinite => exact (Readable.double hnumber hfinite).readsBack
  | text s => exact (Readable.text s).readsBack
  | symbol name => exact (Readable.symbol name).readsBack

end Value

namespace Reader

/-- **A dot splices a list in, and a datum comment changes nothing.** Between the written forms of some
items and of others, a dot and a list in its written form are read as the items of the list. A comment that
drops a datum in its written form, with a blank on either side, does not change what a text is read as,
data or error, wherever a token may begin in it. Such comments may stand before any items and closing
parentheses of written forms, in lists of any depth and in the row of all forms: the values are read back. -/
theorem dots_and_datum_comments :
    (∀ xs ys zs : List Value, (∀ v ∈ xs ++ ys ++ zs, v.Readable) →
      readAll ("(" ++ Value.writeAll xs ++ " . (" ++ Value.writeAll ys ++ ") " ++
        Value.writeAll zs ++ ")").toList = .ok [.list (xs ++ ys ++ zs)]) ∧
    (∀ (before rest : String) (d : Value), IsGap before.toList rest.toList → d.Readable →
      readAll (before ++ d.asComment ++ rest).toList = readAll (before ++ rest).toList) ∧
    ∀ (notes : List Nat → List Value) (vs : List Value), (∀ place, ∀ d ∈ notes place, d.Readable) →
      (∀ v ∈ vs, v.Readable) → readAll (Value.writeAll vs).toList = .ok vs ∧
        readAll (Value.annotatedItems notes [] 0 vs) = .ok vs := by
  have hrow {vs : List Value} (hvs : ∀ v ∈ vs, v.Readable) : Row vs (Value.itemChars true vs) :=
    row_itemChars (List.forall₂_same.2 fun v hv => (hvs v hv).readsBack)
  refine ⟨fun xs ys zs hvs => ?_, fun before rest d hgap hd => ?_, fun notes vs hnotes hvs => ⟨?_, ?_⟩⟩
  · simp only [List.forall_mem_append] at hvs
    have hread := (readsAs_splice (hrow hvs.1.1) (hrow hvs.1.2) (hrow hvs.2)).readAll_eq
    rw [← hread]
    simp [Value.toList_writeAll]
  · rw [String.toList_append, String.toList_append, String.toList_append]
    exact readAll_insert hgap hd.readsBack
  · rw [Value.toList_writeAll]
    exact (hrow hvs).readAll_eq
  · have hds (place : List Nat) : ∀ d ∈ notes place, ReadsAs (d.chars true) d :=
      fun d hd => (hnotes place d hd).readsBack
    exact (Value.row_annotatedItems hds [] 0 fun v hv => (hvs v hv).readsAs_annotated hds).readAll_eq

/-- Comments before an item, before a closing parenthesis and between data, and a list spliced in between
two items. -/
theorem dots_and_datum_comments_of_nested :
    readAll "(a . (#t (\"b\")) #\\c)".toList =
      .ok [.list [.symbol "a", .bool true, .list [.text "b"], .char 'c']] ∧
    readAll "(a . (b #;(x \"y\") )) c".toList = readAll "(a . (b)) c".toList ∧
    readAll " #;|)| a  #;|)| ( #;|)| b #;|)| ) #;|)| ".toList = .ok [.symbol "a", .list [.symbol "b"]] := by
  obtain ⟨hdots, hinsert, hnotes⟩ := dots_and_datum_comments
  refine ⟨?_, ?_, ?_⟩
  · have hitems : ∀ v ∈ [Value.symbol "a"] ++ [.bool true, .list [.text "b"]] ++ [.char 'c'],
        v.Readable := by
      simpa using ⟨.symbol _, .bool _, .list (by simpa using .text _), .char _⟩
    have htext : "(" ++ Value.writeAll [.symbol "a"] ++ " . (" ++
        Value.writeAll [.bool true, .list [.text "b"]] ++ ") " ++ Value.writeAll [.char 'c'] ++ ")" =
          "(a . (#t (\"b\")) #\\c)" := by decide +kernel
    rw [← htext]
    exact hdots _ _ _ hitems
  · have hgap : IsGap "(a . (b".toList ")) c".toList := by
      rintro s hfeed
      cases hfeed
      exact endsToken_close _
    have hdatum : (Value.list [.symbol "x", .text "y"]).Readable :=
      .list (by simpa using ⟨.symbol _, .text _⟩)
    have htext : "(a . (b" ++ (Value.list [.symbol "x", .text "y"]).asComment ++ ")) c" =
        "(a . (b #;(x \"y\") )) c" := by decide +kernel
    rw [← htext]
    exact hinsert _ _ _ hgap hdatum
  · let notes : List Nat → List Value := fun _ => [.symbol ")"]
    have hnote : ∀ place, ∀ d ∈ notes place, d.Readable := by simpa [notes] using .symbol _
    have hvalues : ∀ v ∈ [Value.symbol "a", .list [.symbol "b"]], v.Readable := by
      simpa using ⟨.symbol _, .list (by simpa using .symbol _)⟩
    have htext : Value.annotatedItems notes [] 0 [.symbol "a", .list [.symbol "b"]] =
        " #;|)| a  #;|)| ( #;|)| b #;|)| ) #;|)| ".toList := by decide +kernel
    rw [← htext]
    exact (hnotes notes _ hnote hvalues).2

end Reader

end Multimethod
