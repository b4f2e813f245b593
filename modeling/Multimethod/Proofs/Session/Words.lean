import Multimethod.Proofs.Session.Run

/-!
# Words are run once and in order

The words of a command line begin with the files and expressions to load, each behind its flag. They are
loaded from left to right, and each load finds the words after it in `arguments`; the first that fails ends
the run. What is left then says whether the interactive loop follows.

* `CommandWords.splitLoads` — the loads that words begin with, and the words left.
* `CommandWords.Performs` — loads performed in turn, each from the session that the one before it left.
* `CommandWords.GoesOn` — what the words left ask for.
* `CommandWords.words_run_once` — a run performs the loads and goes on as the words left ask.
-/

namespace Multimethod

/-- The session with words bound to `arguments`. -/
def Session.withArguments (s : Session) (words : List String) : Session :=
  let bindings := s.interpreter.bindings.set "arguments" (.list (words.map .text))
  { s with interpreter := { s.interpreter with bindings } }

namespace CommandWords

open SessionM

theorem runFrom_bindArguments (words : List String) (s : Session) :
    (bindArguments words).runFrom s = some (.ok (), s.withArguments words) := rfl

inductive Load where
  | file (path : String)
  | expression (source : String)

namespace Load

def words : Load → List String
  | file path => ["-f", path]
  | expression source => ["-e", source]

def perform : Load → SessionM Value
  | file path => loadFile path
  | expression source => loadSource source

end Load

/-! ## The loads that words begin with -/

/-- The loads that words begin with, and the words left. -/
def splitLoads : List String → List Load × List String
  | "-f" :: path :: rest => (.file path :: (splitLoads rest).1, (splitLoads rest).2)
  | "-e" :: source :: rest => (.expression source :: (splitLoads rest).1, (splitLoads rest).2)
  | words => ([], words)

theorem splitLoads_append (loads : List Load) (rest : List String) :
    splitLoads (loads.flatMap Load.words ++ rest) =
      (loads ++ (splitLoads rest).1, (splitLoads rest).2) := by
  induction loads with
  | nil => rfl
  | cons load loads ih =>
    cases load <;>
      simp [Load.words, splitLoads, ih]

theorem words_splitLoads (words : List String) :
    (splitLoads words).1.flatMap Load.words ++ (splitLoads words).2 = words := by
  fun_induction splitLoads words with
  | case1 path rest ih => simp [Load.words, ih]
  | case2 source rest ih => simp [Load.words, ih]
  | case3 words => rfl

/-- No words begin with more loads than are split off. -/
theorem prefix_splitLoads {words rest : List String} {loads : List Load}
    (h : loads.flatMap Load.words ++ rest = words) : loads <+: (splitLoads words).1 := by
  subst h
  rw [splitLoads_append]
  exact List.prefix_append _ _

theorem ne_words_append (words : List String) (load : Load) (more : List String) :
    (splitLoads words).2 ≠ load.words ++ more := by
  intro hrest
  have hwords : ((splitLoads words).1 ++ [load]).flatMap Load.words ++ more = words := by
    rw [List.flatMap_append, List.flatMap_singleton, List.append_assoc, ← hrest, words_splitLoads]
  have hlength := (prefix_splitLoads hwords).length_le
  rw [List.length_append, List.length_singleton] at hlength
  omega

/-! ## Performing loads -/

/-- Loads performed in turn from a session, with other words after them. Each load finds the words after it
in `arguments` and starts from the session that the load before it left; one that fails is the last. -/
inductive Performs (rest : List String) :
    List Load → Session → Except SessionError Unit → Session → Prop
  | done (s : Session) : Performs rest [] s (.ok ()) s
  | failed {load : Load} {loads : List Load} {s t : Session} {e : SessionError}
      (hload : load.perform.runFrom (s.withArguments (loads.flatMap Load.words ++ rest)) =
        some (.error e, t)) :
      Performs rest (load :: loads) s (.error e) t
  | next {load : Load} {loads : List Load} {s t u : Session} {value : Value}
      {result : Except SessionError Unit}
      (hload : load.perform.runFrom (s.withArguments (loads.flatMap Load.words ++ rest)) =
        some (.ok value, t))
      (hloads : Performs rest loads t result u) :
      Performs rest (load :: loads) s result u

/-- A load at the front is performed first, with the words after it in `arguments`. -/
theorem runFrom_load (hasRun : Bool) (load : Load) (words : List String) (s : Session) :
    (runFrom hasRun (load.words ++ words)).runFrom s =
      match load.perform.runFrom (s.withArguments words) with
      | none => none
      | some (.ok _, t) => (runFrom true words).runFrom t
      | some (.error e, t) => some (.error e, t) := by
  have hwords : runFrom hasRun (load.words ++ words) =
      bindArguments words >>= fun _ => load.perform >>= fun _ => runFrom true words := by
    cases load <;> rfl
  rw [hwords, runFrom_bind, runFrom_bindArguments]
  dsimp only
  rw [runFrom_bind]
  cases load.perform.runFrom (s.withArguments words) with
  | none => rfl
  | some ended => obtain ⟨_ | _, t⟩ := ended <;> rfl

variable {rest : List String} {loads : List Load} {s t : Session}

theorem Performs.runFrom_eq_error {e : SessionError} (h : Performs rest loads s (.error e) t)
    (hasRun : Bool) :
    (runFrom hasRun (loads.flatMap Load.words ++ rest)).runFrom s = some (.error e, t) := by
  generalize hresult : Except.error e = result at h
  induction h generalizing hasRun with
  | done s => cases hresult
  | failed hload =>
    cases hresult
    rw [List.flatMap_cons, List.append_assoc, runFrom_load, hload]
  | next hload _ ih =>
    rw [List.flatMap_cons, List.append_assoc, runFrom_load, hload]
    exact ih true hresult

theorem Performs.runFrom_eq (h : Performs rest loads s (.ok ()) t) (hasRun : Bool) :
    (runFrom hasRun (loads.flatMap Load.words ++ rest)).runFrom s =
      (runFrom (hasRun || !loads.isEmpty) rest).runFrom t := by
  generalize hresult : Except.ok () = result at h
  induction h generalizing hasRun with
  | done s => simp
  | failed hload => cases hresult
  | next hload _ ih =>
    rw [List.flatMap_cons, List.append_assoc, runFrom_load, hload]
    simpa using ih true hresult

/-- Loads that come to no end lack depth, and so does the run. -/
theorem runFrom_eq_none (h : ∀ result t, ¬ Performs rest loads s result t) (hasRun : Bool) :
    (runFrom hasRun (loads.flatMap Load.words ++ rest)).runFrom s = none := by
  induction loads generalizing s hasRun with
  | nil => exact absurd (.done s) (h (.ok ()) s)
  | cons load loads ih =>
    rw [List.flatMap_cons, List.append_assoc, runFrom_load]
    cases hload : load.perform.runFrom (s.withArguments (loads.flatMap Load.words ++ rest)) with
    | none => rfl
    | some ended =>
      obtain ⟨e | value, t⟩ := ended
      · exact absurd (.failed hload) (h (.error e) t)
      · exact ih (fun result u hloads => h result u (.next hload hloads)) true

/-! ## The words left -/

/-- How a run ends from the session that some loads left, by the words left after them. -/
inductive GoesOn (loads : List Load) (input : InputLines) (t : Session) :
    (rest : List String) → (ended : Option (Except SessionError Unit × Session)) → Prop
  /-- The loop starts at once with the words after `-i`. -/
  | interactive (words : List String) :
      GoesOn loads input t ("-i" :: words) ((Repl.run input).runFrom (t.withArguments words))
  /-- A flag without what is to be loaded ends the run. -/
  | missing {flag : String} (hflag : flag ∈ ["-f", "-e"]) :
      GoesOn loads input t [flag] (some (.error (.command (.missingOperand flag)), t))
  /-- So does any other flag. -/
  | bad {flag : String} (words : List String) (hminus : flag.toList.head? = some '-')
      (hflag : flag ∉ ["-f", "-e", "-i"]) :
      GoesOn loads input t (flag :: words) (some (.error (.command (.badFlag flag)), t))
  /-- Without words left, a run that loaded something is over. -/
  | quits (hloads : loads ≠ []) : GoesOn loads input t [] (some (.ok (), t))
  /-- In all other cases the loop starts with the words left. -/
  | starts {rest : List String} (hword : ∀ word ∈ rest.head?, word.toList.head? ≠ some '-')
      (hloads : rest = [] → loads = []) :
      GoesOn loads input t rest ((Repl.run input).runFrom (t.withArguments rest))

/-- A word that is no flag of the command line starts the loop unless it looks like a flag. -/
theorem runFrom_word (hasRun : Bool) {word : String} (words : List String)
    (hword : word ∉ ["-f", "-e", "-i"]) (t : Session) :
    (runFrom hasRun (word :: words)).runFrom t =
      if word.toList.head? = some '-' then some (.error (.command (.badFlag word)), t)
      else some (.ok .interact, t.withArguments (word :: words)) := by
  simp only [List.mem_cons, List.not_mem_nil, or_false, not_or] at hword
  obtain ⟨hfile, hexpression, hinteractive⟩ := hword
  rw [runFrom]
  · split <;> rfl
  · exact fun _ _ h _ => hfile h
  · exact fun _ _ h _ => hexpression h
  · exact fun h _ => hfile h
  · exact fun h _ => hexpression h
  · exact hinteractive

/-- What becomes of a run once its words are run. -/
def conclude (input : InputLines) :
    Option (Except SessionError Next × Session) → Option (Except SessionError Unit × Session)
  | none => none
  | some (.ok .quit, t) => some (.ok (), t)
  | some (.ok .interact, t) => (Repl.run input).runFrom t
  | some (.error e, t) => some (.error e, t)

theorem runFrom_runThenInteract (words : List String) (input : InputLines) (s : Session) :
    (runThenInteract words input).runFrom s = conclude input ((run words).runFrom s) := by
  rw [runThenInteract, runFrom_bind]
  cases (run words).runFrom s with
  | none => rfl
  | some ended => obtain ⟨_ | (_ | _), t⟩ := ended <;> rfl

/-- A run goes on from words that begin with no load. -/
theorem goesOn_conclude (hrest : ∀ load more, rest ≠ Load.words load ++ more) (input : InputLines)
    (t : Session) :
    GoesOn loads input t rest (conclude input ((runFrom (!loads.isEmpty) rest).runFrom t)) := by
  cases rest with
  | nil =>
    cases loads with
    | nil => exact .starts (by simp) fun _ => rfl
    | cons load loads => exact .quits (List.cons_ne_nil load loads)
  | cons word words =>
    by_cases hflag : word ∈ ["-f", "-e", "-i"]
    · simp only [List.mem_cons, List.not_mem_nil, or_false] at hflag
      obtain rfl | rfl | rfl := hflag
      · cases words with
        | nil => exact .missing (by simp)
        | cons path more => exact absurd rfl (hrest (.file path) more)
      · cases words with
        | nil => exact .missing (by simp)
        | cons source more => exact absurd rfl (hrest (.expression source) more)
      · exact .interactive words
    · rw [runFrom_word _ words hflag]
      split
      · rename_i hminus
        exact .bad words hminus hflag
      · rename_i hminus
        refine .starts ?_ fun h => absurd h (List.cons_ne_nil word words)
        rintro _ ⟨⟩
        exact hminus

/-- **Words are run once and in order.** The words are some loads, as many as they begin with, and the
words left. The loads are performed from left to right, each with the words after it in `arguments`. The
first that fails ends the run with its error, and no later word counts. If none fails, the run goes on as
the words left ask. A run has no end only if a load has none. -/
theorem words_run_once (words : List String) (input : InputLines) (s : Session) :
    ∃ loads rest, words = loads.flatMap Load.words ++ rest ∧
      (∀ loads' rest', words = loads'.flatMap Load.words ++ rest' → loads' <+: loads) ∧
      (∀ e t, Performs rest loads s (.error e) t →
        (runThenInteract words input).runFrom s = some (.error e, t)) ∧
      (∀ t, Performs rest loads s (.ok ()) t →
        GoesOn loads input t rest ((runThenInteract words input).runFrom s)) ∧
      ((∀ result t, ¬ Performs rest loads s result t) →
        (runThenInteract words input).runFrom s = none) := by
  refine ⟨(splitLoads words).1, (splitLoads words).2, (words_splitLoads words).symm,
    fun loads' rest' h => prefix_splitLoads h.symm, ?_, ?_, ?_⟩
  all_goals
    rw [runFrom_runThenInteract, run]
    conv in runFrom false words => rw [← words_splitLoads words]
  · intro e t h
    rw [h.runFrom_eq_error]
    rfl
  · intro t h
    rw [h.runFrom_eq, Bool.false_or]
    exact goesOn_conclude (ne_words_append words) input t
  · intro h
    rw [runFrom_eq_none h]
    rfl

end CommandWords

end Multimethod
