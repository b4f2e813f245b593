import Mathlib.Data.List.TakeWhile
import Mathlib.Data.Set.Card
import Multimethod.Proofs.Lattice.Specificity

/-!
# What a search upward meets

A search opens a number of types and gives up after that. It never opens a type twice, so that circles
do not wear it out, and the types queued last count as met without being opened. It therefore misses
nothing as long as no more types lie above the one it starts from than it may open.

* `Reaches` — some path, of no steps or more, leads from a type up to another.
* `AboveAtMost` — no more than so many types lie above a type.
* `SearchState.opened` — what opening one more type keeps.
* `mem_walk_iff` — a search with enough to spend meets the types that are reached and no others.
* `mem_reachable_iff` — so does the search that may open every type there is.
-/

namespace Multimethod.Hierarchy

/-- Does some path, of no steps or more, lead from `t` up to `s`? -/
def Reaches (h : Hierarchy) (t s : Ty) : Prop := Relation.ReflTransGen (fun t s => h.Above s t) t s

/-- No more than `n` types are reached from `t` by one step or more, so that `t` itself counts only
where it lies above itself. -/
def AboveAtMost (h : Hierarchy) (n : Nat) (t : Ty) : Prop := {s | h.IsBelow t s}.encard ≤ n

variable {h : Hierarchy} {s t : Ty} {n : Nat} {seen queue : List Ty}

theorem reaches_iff : h.Reaches t s ↔ t = s ∨ h.IsBelow t s := by
  rw [Reaches, Relation.reflTransGen_iff_eq_or_transGen, eq_comm]
  rfl

theorem IsBelow.reaches (hbelow : h.IsBelow t s) : h.Reaches t s := reaches_iff.2 (.inr hbelow)

/-! ## One type after another -/

theorem mem_dropWhile_of_mem (hs : s ∈ queue) (hnew : s ∉ seen) :
    s ∈ queue.dropWhile (· ∈ seen) := by
  rw [← List.takeWhile_append_dropWhile (p := (· ∈ seen)) (l := queue)] at hs
  refine (List.mem_append.1 hs).resolve_left fun hpassed => hnew ?_
  exact of_decide_eq_true (List.mem_takeWhile_imp (p := fun u => decide (u ∈ seen)) hpassed)

theorem mem_seen_of_dropWhile (hnone : queue.dropWhile (· ∈ seen) = []) (hs : s ∈ seen ∨ s ∈ queue) :
    s ∈ seen := by
  by_contra hnew
  have := mem_dropWhile_of_mem (hs.resolve_left hnew) hnew
  rw [hnone] at this
  cases this

/-- What is known stays known when the first new type of the queue is opened. -/
theorem mem_opened_of_dropWhile {rest : List Ty} (hfirst : queue.dropWhile (· ∈ seen) = t :: rest)
    (hs : s ∈ seen ∨ s ∈ queue) : s ∈ seen ++ [t] ∨ s ∈ rest := by
  by_cases hseen : s ∈ seen
  · exact .inl (List.mem_append_left _ hseen)
  · have hdropped := mem_dropWhile_of_mem (hs.resolve_left hseen) hseen
    rw [hfirst] at hdropped
    exact (List.mem_cons.1 hdropped).imp
      (fun heq => List.mem_append_right _ (List.mem_singleton.2 heq)) id

/-- Where a search stands that starts from `start` and may open `n` more types. -/
structure SearchState (h : Hierarchy) (start : Ty) (n : Nat) (seen queue : List Ty) : Prop where
  distinct : seen.Nodup
  reached : ∀ t, t ∈ seen ∨ t ∈ queue → h.Reaches start t
  /-- The types right above a type that was opened are known. -/
  known : ∀ t ∈ seen, ∀ s, h.Above s t → s ∈ seen ∨ s ∈ queue
  /-- All but one of the types not seen yet can be opened. -/
  enough : {t | h.Reaches start t}.encard ≤ ((seen.length + n + 1 : Nat) : ℕ∞)

namespace SearchState

variable {start : Ty}

theorem begin (hfew : h.AboveAtMost n start) : h.SearchState start n [] [start] where
  distinct := List.nodup_nil
  reached t ht := by
    rw [List.mem_singleton.1 (ht.resolve_left List.not_mem_nil)]
    exact .refl
  known t ht := absurd ht List.not_mem_nil
  enough := by
    have hinsert : {t | h.Reaches start t} ⊆ insert start {t | h.IsBelow start t} := by
      intro t ht
      exact (reaches_iff.1 ht).imp Eq.symm id
    refine (Set.encard_le_encard hinsert).trans ((Set.encard_insert_le _ _).trans ?_)
    rw [List.length_nil, Nat.zero_add, Nat.cast_add, Nat.cast_one]
    exact add_le_add_left hfew 1

/-- **Opening the first type of the queue that was not seen before keeps the state.** -/
theorem opened {rest : List Ty} (hstate : h.SearchState start (n + 1) seen queue)
    (hfirst : queue.dropWhile (· ∈ seen) = t :: rest) :
    h.SearchState start n (seen ++ [t]) (rest ++ h.supertypes t) := by
  have hqueued : ∀ u ∈ t :: rest, u ∈ queue := by
    intro u hu
    rw [← hfirst] at hu
    exact (List.dropWhile_sublist _).mem hu
  have ht : h.Reaches start t := hstate.reached t (.inr (hqueued t List.mem_cons_self))
  have hnew : t ∉ seen := by
    have := List.head_dropWhile_not (p := fun u => decide (u ∈ seen)) (l := queue)
      (by rw [hfirst]; exact List.cons_ne_nil t rest)
    simpa [hfirst] using this
  refine ⟨?_, ?_, ?_, ?_⟩
  · refine List.nodup_append.2 ⟨hstate.distinct, List.nodup_singleton t, ?_⟩
    rintro u hu _ ht rfl
    exact hnew (List.mem_singleton.1 ht ▸ hu)
  · intro u hu
    rcases hu with hu | hu
    · rcases List.mem_append.1 hu with hu | hu
      · exact hstate.reached u (.inl hu)
      · rwa [List.mem_singleton.1 hu]
    · rcases List.mem_append.1 hu with hu | hu
      · exact hstate.reached u (.inr (hqueued u (List.mem_cons_of_mem t hu)))
      · exact ht.tail hu
  · intro u hu s hs
    rcases List.mem_append.1 hu with hu | hu
    · exact (mem_opened_of_dropWhile hfirst (hstate.known u hu s hs)).imp id
        (List.mem_append_left _)
    · rw [List.mem_singleton.1 hu] at hs
      exact .inr (List.mem_append_right _ hs)
  · have henough := hstate.enough
    rwa [List.length_append, List.length_singleton, Nat.add_right_comm seen.length 1 n, Nat.add_assoc]

/-- Where nothing more can be opened, nothing new lies above the types met. -/
theorem closed_of_spent (hstate : h.SearchState start 0 seen queue) {u : Ty}
    (hu : u ∈ seen ++ queue) (hs : h.Above s u) : s ∈ seen ++ queue := by
  by_contra hmissed
  have hunseen : u ∉ seen := fun hin => hmissed (List.mem_append.2 (hstate.known u hin s hs))
  -- with `u` and `s` there are two types too many
  have hdistinct : (s :: u :: seen).Nodup := by
    refine List.nodup_cons.2 ⟨fun hin => ?_, List.nodup_cons.2 ⟨hunseen, hstate.distinct⟩⟩
    rcases List.mem_cons.1 hin with rfl | hin
    · exact hmissed hu
    · exact hmissed (List.mem_append_left _ hin)
  have hureached : h.Reaches start u := hstate.reached u (List.mem_append.1 hu)
  have hall : ((s :: u :: seen).toFinset : Set Ty) ⊆ {t | h.Reaches start t} := by
    intro v hv
    rcases List.mem_cons.1 (List.mem_toFinset.1 (Finset.mem_coe.1 hv)) with rfl | hv
    · exact hureached.tail hs
    · rcases List.mem_cons.1 hv with rfl | hv
      · exact hureached
      · exact hstate.reached v (.inl hv)
  have hcard := (Set.encard_le_encard hall).trans hstate.enough
  rw [Set.encard_coe_eq_coe_finsetCard, List.toFinset_card_of_nodup hdistinct, Nat.cast_le,
    List.length_cons, List.length_cons] at hcard
  omega

/-- What the search meets in the end has nothing above it that the search does not meet. -/
theorem closed (hstate : h.SearchState start n seen queue) {u : Ty}
    (hu : u ∈ h.walk n seen queue) (hs : h.Above s u) : s ∈ h.walk n seen queue := by
  induction n generalizing seen queue with
  | zero => exact hstate.closed_of_spent hu hs
  | succ n ih =>
    unfold walk at hu ⊢
    split at hu
    · rename_i hnone
      exact mem_seen_of_dropWhile hnone (hstate.known u hu s hs)
    · rename_i hfirst
      exact ih (hstate.opened hfirst) hu

end SearchState

theorem mem_walk_of_mem (hs : s ∈ seen ∨ s ∈ queue) : s ∈ h.walk n seen queue := by
  induction n generalizing seen queue with
  | zero => exact List.mem_append.2 hs
  | succ n ih =>
    unfold walk
    split
    · rename_i hnone
      exact mem_seen_of_dropWhile hnone hs
    · rename_i hfirst
      exact ih ((mem_opened_of_dropWhile hfirst hs).imp id (List.mem_append_left _))

/-! ## The whole search -/

/-- **A search that may open as many types as lie above its start meets exactly what is reached.** -/
theorem mem_walk_iff (hfew : h.AboveAtMost n t) : s ∈ h.walk n [] [t] ↔ h.Reaches t s := by
  constructor
  · intro hs
    rcases mem_walk hs with hseen | ⟨u, hu, hpath⟩
    · cases hseen
    · rw [List.mem_singleton.1 hu] at hpath
      exact reaches_iff.2 hpath
  · intro hreached
    induction hreached with
    | refl => exact mem_walk_of_mem (.inr (List.mem_singleton_self t))
    | tail _ hs ih => exact (SearchState.begin hfew).closed ih hs

theorem isAbove_iff (hfew : h.AboveAtMost searchLimit t) : h.isAbove t s ↔ h.Reaches t s := by
  rw [isAbove, decide_eq_true_iff]
  exact mem_walk_iff hfew

/-- What lies above any type is declared so, or is Any or Number. -/
theorem mem_of_above (hs : h.Above s t) :
    s ∈ .any :: .number :: h.types.flatMap (·.supertypes) := by
  unfold Above supertypes at hs
  split at hs
  · cases hs
  · cases hs
  · simp [List.mem_singleton.1 hs]
  · simp [List.mem_singleton.1 hs]
  · simp [List.mem_singleton.1 hs]
  · split at hs
    · rename_i name first more hdeclared
      refine List.mem_cons_of_mem _ (List.mem_cons_of_mem _ (List.mem_flatMap.2 ?_))
      exact ⟨_, List.mem_of_getElem? hdeclared, hs⟩
    · simp [List.mem_singleton.1 hs]
  · simp [List.mem_singleton.1 hs]

/-- No more types lie above a type than the hierarchy declares as supertypes, and Any and Number. -/
theorem aboveAtMost_of_length (hlength : (h.types.flatMap (·.supertypes)).length + 2 ≤ n) :
    h.AboveAtMost n t := by
  let declared : List Ty := .any :: .number :: h.types.flatMap (·.supertypes)
  have hall : {s | h.IsBelow t s} ⊆ (declared.toFinset : Set Ty) := by
    intro s hs
    obtain ⟨u, _, hu⟩ := Relation.TransGen.tail'_iff.1 hs
    exact Finset.mem_coe.2 (List.mem_toFinset.2 (mem_of_above hu))
  refine (Set.encard_le_encard hall).trans ?_
  rw [Set.encard_coe_eq_coe_finsetCard, Nat.cast_le]
  exact (List.toFinset_card_le declared).trans hlength

/-- **The types listed as reachable are those reached.** -/
theorem mem_reachable_iff : s ∈ h.reachable t ↔ h.Reaches t s := by
  refine mem_walk_iff (aboveAtMost_of_length ?_)
  unfold universeSize
  omega

end Multimethod.Hierarchy
