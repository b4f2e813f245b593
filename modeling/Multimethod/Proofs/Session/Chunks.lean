import Multimethod.Proofs.Reader.Cut
import Multimethod.Proofs.Session.Incompleteness
import Multimethod.Proofs.Session.Run

/-!
# Reading line by line

The interactive loop reads what it gathered anew with every line, and evaluates it as soon as it can be
read. So it takes a text in chunks, each of them some whole lines. The forms of all chunks are those of
the whole text, unless an atom goes on over the end of a line: a backslash lets it take in the line end,
and the loop evaluates it without what follows.

* `InputLines.join_texts` — a text of whole lines is what its lines make.
* `Repl.chunks`, `Repl.waiting` — what lines come to, chunk by chunk, and those that still wait.
* `Repl.runFrom_lines` — the loop over some lines takes their chunks in turn.
* `Repl.chunks_of_readAll` — the chunks of a text that can be read as a whole are its forms, in order.
* `Repl.lines_evaluate_whole_text` — the loop hands on the forms of the whole text, chunk by chunk.
* `Repl.atom_over_lineEnd_split` — an atom that goes on over the end of a line is handed on in two.
-/

namespace Multimethod

/-! ## The lines of a text -/

namespace InputLines

/-- The lines of a text, as texts. -/
def texts (text : String) : List String := (split [] text.toList).map String.ofList

theorem ofText_eq (text : String) : ofText text = (texts text).map some := by
  simp [ofText, texts]

/-- The text that some lines make. -/
def join (lines : List String) : List Char := lines.flatMap fun line => line.toList ++ ['\n']

/-- A text of whole lines is split into what makes it again. -/
theorem flatMap_split {read cs : List Char} (hreturn : '\r' ∉ read.reverse ++ cs)
    (hlast : ∀ c ∈ (read.reverse ++ cs).getLast?, c = '\n') (hread : '\n' ∉ read) :
    (split read cs).flatMap (· ++ ['\n']) = read.reverse ++ cs := by
  induction cs generalizing read with
  | nil =>
    cases read with
    | nil => rfl
    | cons c read =>
      -- the last line has no end
      have hc : c = '\n' := hlast c (by simp)
      exact absurd (hc ▸ List.mem_cons_self) hread
  | cons c cs ih =>
    rw [split]
    split
    · rename_i hc
      subst hc
      have hkept : withoutReturn read.reverse = read.reverse := by
        refine if_neg fun hreturnLast => hreturn ?_
        exact List.mem_append_left _ (List.mem_of_getLast? hreturnLast)
      have hrest : (split [] cs).flatMap (· ++ ['\n']) = cs := by
        refine ih (fun h => hreturn (by simp [show '\r' ∈ cs from h])) ?_ List.not_mem_nil
        intro d hd
        refine hlast d ?_
        simp only [List.reverse_nil, List.nil_append] at hd
        simp [List.getLast?_append, List.getLast?_cons, Option.mem_def.mp hd]
      rw [List.flatMap_cons, hrest, hkept, List.append_assoc, List.singleton_append]
    · rename_i hc
      have happend : (c :: read).reverse ++ cs = read.reverse ++ c :: cs := by simp
      rw [ih (happend ▸ hreturn) (happend ▸ hlast)
        (fun h => (List.mem_cons.mp h).elim (fun h => hc h.symm) hread), happend]

theorem whole_of_getLast? {cs : List Char} (h : cs.getLast? = some '\n') :
    ∀ c ∈ cs.getLast?, c = '\n' := by
  intro c hc
  exact Option.some.inj ((Option.mem_def.mp hc).symm.trans h)

/-- **A text of whole lines is what its lines make.** -/
theorem join_texts {text : String} (hreturn : '\r' ∉ text.toList)
    (hlast : ∀ c ∈ text.toList.getLast?, c = '\n') : join (texts text) = text.toList := by
  have hsplit : (split [] text.toList).flatMap (· ++ ['\n']) = text.toList :=
    flatMap_split hreturn hlast List.not_mem_nil
  rw [join, texts, List.flatMap_map]
  simpa only [String.toList_ofList] using hsplit

end InputLines

namespace Repl

open Reader SessionM

/-! ## Chunks -/

/-- What lines come to after those gathered so far, chunk by chunk: the forms of each chunk, or why no
further line can complete it. -/
def chunks : (pending : List Char) → List String → List (Except SyntaxError (List Value))
  | _, [] => []
  | pending, text :: rest =>
    match gather (addLine pending text) with
    | .forms values => .ok values :: chunks [] rest
    | .incomplete => chunks (addLine pending text) rest
    | .wrong e => .error e :: chunks [] rest

/-- The lines that still wait to be completed. -/
def waiting : (pending : List Char) → List String → List Char
  | pending, [] => pending
  | pending, text :: rest =>
    match gather (addLine pending text) with
    | .incomplete => waiting (addLine pending text) rest
    | .forms _ | .wrong _ => waiting [] rest

/-- Takes a chunk: evaluates its forms or reports its error, and shows the prompt. -/
def takeChunk : Except SyntaxError (List Value) → SessionM Unit
  | .ok values => do
    evaluateForms values
    writeVariable "prompt"
  | .error e => do
    reportError (.syntactic e)
    writeVariable "prompt"

def takeChunks : List (Except SyntaxError (List Value)) → SessionM Unit
  | [] => return ()
  | chunk :: rest => do
    takeChunk chunk
    takeChunks rest

theorem keepsPending_takeChunk (chunk : Except SyntaxError (List Value)) :
    (takeChunk chunk).KeepsPending := by
  cases chunk with
  | ok values => exact (keepsPending_evaluateForms values).bind fun _ => keepsPending_writeVariable _
  | error e => exact (keepsPending_reportError _).bind fun _ => keepsPending_writeVariable _

theorem keepsPending_takeChunks (all : List (Except SyntaxError (List Value))) :
    (takeChunks all).KeepsPending := by
  induction all with
  | nil => exact keepsPending_pure ()
  | cons chunk rest ih => exact (keepsPending_takeChunk chunk).bind fun _ => ih

/-! ## The loop takes chunks -/

/-- The lines of a whole chunk end with the chunk taken and nothing gathered. -/
theorem runFrom_lines_of_chunk {s : Session} {pending : List Char} {text : String}
    {rest : List String} {chunk : Except SyntaxError (List Value)}
    (hline : (line (some text)).runFrom { s with pending } =
      (takeChunk chunk).runFrom { s with pending := [] })
    (hrest : ∀ s : Session, (lines (rest.map some)).runFrom { s with pending := [] } =
      (do takeChunks (chunks [] rest); setPending (waiting [] rest)).runFrom { s with pending := [] }) :
    (lines ((text :: rest).map some)).runFrom { s with pending } =
      (do takeChunks (chunk :: chunks [] rest); setPending (waiting [] rest)).runFrom
        { s with pending := [] } := by
  rw [List.map_cons, lines, takeChunks, bind_assoc, runFrom_bind, runFrom_bind, hline]
  cases htake : (takeChunk chunk).runFrom { s with pending := [] } with
  | none => rfl
  | some ended =>
    obtain ⟨ending, t⟩ := ended
    cases ending with
    | error e => rfl
    | ok _ =>
      have ht : t = { t with pending := [] } := by
        rw [show ([] : List Char) = t.pending from (keepsPending_takeChunk chunk _ _ _ htake).symm]
      show (lines (rest.map some)).runFrom t = _
      rw [ht]
      exact hrest t

/-- **The loop over some lines takes their chunks in turn,** and keeps the lines that still wait. -/
theorem runFrom_lines (s : Session) (pending : List Char) (texts : List String) :
    (lines (texts.map some)).runFrom { s with pending } =
      (do takeChunks (chunks pending texts); setPending (waiting pending texts)).runFrom
        { s with pending := [] } := by
  induction texts generalizing s pending with
  | nil => rfl
  | cons text rest ih =>
    have hline := runFrom_line { s with pending } text
    unfold chunks waiting
    cases hgather : gather (addLine pending text) with
    | forms values =>
      rw [hgather] at hline
      exact runFrom_lines_of_chunk (hline.trans rfl) fun s => ih s []
    | wrong e =>
      rw [hgather] at hline
      exact runFrom_lines_of_chunk (hline.trans rfl) fun s => ih s []
    | incomplete =>
      rw [hgather] at hline
      rw [List.map_cons, lines, runFrom_bind, hline]
      exact ih s (addLine pending text)

/-! ## The chunks of a whole text -/

theorem addLine_append (pending : List Char) (text : String) (rest : List String) :
    pending ++ InputLines.join (text :: rest) = addLine pending text ++ InputLines.join rest := by
  simp [InputLines.join, addLine]

theorem readAll_of_gather {text : List Char} {values : List Value} (h : gather text = .forms values) :
    readAll text = .ok values := by
  unfold gather at h
  cases hread : readAll text with
  | ok data =>
    rw [hread] at h
    cases h
    rfl
  | error e =>
    rw [hread] at h
    dsimp only at h
    split at h <;> cases h

/-- A text that can be read as a whole has no lines before it that nothing completes. -/
theorem gather_ne_wrong {text rest : List Char} {values : List Value}
    (hall : readAll (text ++ ['\n'] ++ rest) = .ok values) (e : SyntaxError) :
    gather (text ++ ['\n']) ≠ .wrong e := by
  unfold gather
  cases hread : readAll (text ++ ['\n']) with
  | ok values => simp
  | error e =>
    have hincomplete : e.isIncomplete :=
      (isIncomplete_iff_isCompletable hread).mpr ⟨rest, values, hall⟩
    simp [hincomplete]

/-- **The chunks of a text that can be read as a whole are its forms, in order,** if no atom goes on over
the end of a line. No chunk is wrong, and no line is left waiting. -/
theorem chunks_of_readAll {pending : List Char} {texts : List String} {values : List Value}
    (hread : readAll (pending ++ InputLines.join texts) = .ok values)
    (hatoms : KeepsAtoms (pending ++ InputLines.join texts))
    (hpending : pending = [] ∨ ∃ e, readAll pending = .error e) :
    ∃ rows : List (List Value), chunks pending texts = rows.map .ok ∧ rows.flatten = values ∧
      waiting pending texts = [] := by
  induction texts generalizing pending values with
  | nil =>
    rw [InputLines.join, List.flatMap_nil, List.append_nil] at hread
    obtain rfl | ⟨e, he⟩ := hpending
    · refine ⟨[], rfl, ?_, rfl⟩
      rw [readAll_eq_readOn] at hread
      cases hread
      rfl
    · rw [he] at hread
      cases hread
  | cons text rest ih =>
    rw [addLine_append] at hread hatoms
    unfold chunks waiting
    cases hgather : gather (addLine pending text) with
    | wrong e => exact absurd hgather (gather_ne_wrong hread e)
    | incomplete =>
      obtain ⟨e, he, -⟩ := (gather_eq_incomplete_iff _).mp hgather
      exact ih hread hatoms (.inr ⟨e, he⟩)
    | forms row =>
      -- the text is cut here: what follows is read as a text by itself
      have hrow : readAll (addLine pending text) = .ok row := readAll_of_gather hgather
      obtain ⟨more, hmore, rfl⟩ := readAll_cut hrow hread (hatoms _ _ (by simp [addLine]))
      obtain ⟨rows, hchunks, hflatten, hwaiting⟩ := ih hmore (hatoms.cut hrow hread) (.inl rfl)
      refine ⟨row :: rows, ?_, ?_, hwaiting⟩
      · rw [hchunks, List.map_cons]
      · rw [List.flatten_cons, hflatten]

/-- Taking chunks from a session with nothing gathered leaves nothing gathered. -/
theorem runFrom_takeChunks (all : List (Except SyntaxError (List Value))) {s : Session}
    (hs : s.pending = []) :
    (do takeChunks all; setPending []).runFrom s = (takeChunks all).runFrom s := by
  rw [runFrom_bind]
  cases htake : (takeChunks all).runFrom s with
  | none => rfl
  | some ended =>
    obtain ⟨ending, t⟩ := ended
    cases ending with
    | error e => rfl
    | ok _ =>
      have ht : t.pending = [] := (keepsPending_takeChunks all s _ t htake).trans hs
      show some (Except.ok (), { t with pending := [] }) = some (Except.ok (), t)
      rw [← ht]

/-- **The loop hands on the forms of the whole text, chunk by chunk.** For a text of whole lines without
carriage returns that can be read as a whole, the loop over its lines evaluates row after row of forms
with the prompt after each row, and the rows one after another are the forms of the whole text: if no atom
goes on over the end of a line. -/
theorem lines_evaluate_whole_text {text : String} {values : List Value}
    (hreturn : '\r' ∉ text.toList) (hlast : ∀ c ∈ text.toList.getLast?, c = '\n')
    (hread : readAll text.toList = .ok values) (hatoms : KeepsAtoms text.toList) :
    ∃ rows : List (List Value), rows.flatten = values ∧
      chunks [] (InputLines.texts text) = rows.map .ok ∧
      ∀ s : Session, s.pending = [] →
        (lines (InputLines.ofText text)).runFrom s = (takeChunks (rows.map .ok)).runFrom s := by
  have hjoin := InputLines.join_texts hreturn hlast
  rw [← hjoin] at hread hatoms
  obtain ⟨rows, hchunks, hflatten, hwaiting⟩ := chunks_of_readAll hread hatoms (.inl rfl)
  refine ⟨rows, hflatten, hchunks, fun s hs => ?_⟩
  have hrun := runFrom_lines s [] (InputLines.texts text)
  rw [hchunks, hwaiting] at hrun
  have hsession : { s with pending := [] } = s := by rw [← hs]
  rw [hsession, ← InputLines.ofText_eq, runFrom_takeChunks _ hs] at hrun
  exact hrun

/-- A list over two lines is one row. -/
theorem lines_evaluate_whole_text_of_list :
    '\r' ∉ "(list 1\n  2)\n3\n".toList ∧ (∀ c ∈ "(list 1\n  2)\n3\n".toList.getLast?, c = '\n') ∧
    readAll "(list 1\n  2)\n3\n".toList = .ok [.list [.symbol "list", .int 1, .int 2], .int 3] ∧
    KeepsAtoms "(list 1\n  2)\n3\n".toList ∧
    ∃ rows : List (List Value), rows.flatten = [.list [.symbol "list", .int 1, .int 2], .int 3] ∧
      chunks [] (InputLines.texts "(list 1\n  2)\n3\n") = rows.map .ok ∧
      ∀ s : Session, s.pending = [] →
        (lines (InputLines.ofText "(list 1\n  2)\n3\n")).runFrom s =
          (takeChunks (rows.map .ok)).runFrom s := by
  have hreturn : '\r' ∉ "(list 1\n  2)\n3\n".toList := by decide
  have hlast : ∀ c ∈ "(list 1\n  2)\n3\n".toList.getLast?, c = '\n' :=
    InputLines.whole_of_getLast? (by decide)
  have hread : readAll "(list 1\n  2)\n3\n".toList =
      .ok [.list [.symbol "list", .int 1, .int 2], .int 3] := by
    rw [readAll_eq_readOn]
    rfl
  have hatoms : KeepsAtoms "(list 1\n  2)\n3\n".toList := keepsAtoms_of_not_mem (by decide)
  exact ⟨hreturn, hlast, hread, hatoms, lines_evaluate_whole_text hreturn hlast hread hatoms⟩

/-- An atom that goes on over the end of a line is handed on in two: the text is the one form
`(quote |a⏎b|)`, and its chunks are the forms `(quote |a⏎|)` and `b`. -/
theorem atom_over_lineEnd_split :
    '\r' ∉ "'a\\\nb\n".toList ∧ (∀ c ∈ "'a\\\nb\n".toList.getLast?, c = '\n') ∧
    readAll "'a\\\nb\n".toList = .ok [.list [.symbol "quote", .symbol "a\nb"]] ∧
    chunks [] (InputLines.texts "'a\\\nb\n") =
      [.ok [.list [.symbol "quote", .symbol "a\n"]], .ok [.symbol "b"]] ∧
    ¬ ∃ rows : List (List Value), rows.flatten = [.list [.symbol "quote", .symbol "a\nb"]] ∧
      chunks [] (InputLines.texts "'a\\\nb\n") = rows.map .ok := by
  have hchunks : chunks [] (InputLines.texts "'a\\\nb\n") =
      [.ok [.list [.symbol "quote", .symbol "a\n"]], .ok [.symbol "b"]] := by
    have hfirst : gather (addLine [] "'a\\") = .forms [.list [.symbol "quote", .symbol "a\n"]] := by
      rw [gather, readAll_eq_readOn]
      rfl
    have hsecond : gather (addLine [] "b") = .forms [.symbol "b"] := by
      rw [gather, readAll_eq_readOn]
      rfl
    have htexts : InputLines.texts "'a\\\nb\n" = ["'a\\", "b"] := by decide
    rw [htexts, chunks, hfirst, chunks, hsecond, chunks]
  refine ⟨by decide, InputLines.whole_of_getLast? (by decide), ?_, hchunks, ?_⟩
  · rw [readAll_eq_readOn]
    rfl
  · rintro ⟨rows, hflatten, hrows⟩
    -- the rows would be the two chunks, which have two forms between them
    rw [hchunks] at hrows
    obtain ⟨row, rest, rfl, hrow, hrest⟩ := List.map_eq_cons_iff.mp hrows.symm
    obtain ⟨last, none, rfl, hlast, hnone⟩ := List.map_eq_cons_iff.mp hrest
    cases hrow
    cases hlast
    obtain rfl := List.map_eq_nil_iff.mp hnone
    have hlength := congrArg List.length hflatten
    simp at hlength

end Repl

end Multimethod
