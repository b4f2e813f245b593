import Multimethod.Engine.Resolution

/-!
# Runs of resolutions

What the pieces of a resolution do to the engine they start from, and rules for what a resolution
keeps.

* `runFrom_bind` — an error ends a resolution, and a value hands over to the rest of it.
* `Keeps.bind`, `Keeps.seq` — a property of engines that every part keeps is kept by the whole.
* `Cache.find?_modify`, `Cache.find?_store` — what a cache holds after a change.
-/

namespace Multimethod

namespace DispatchM

variable {α β : Type}

/-- Resolves from an engine: the result and the engine after it. -/
def runFrom (m : DispatchM α) (e : Engine) : Except DispatchError α × Engine := (m.run).run e

section equations

variable (e : Engine)

@[simp] theorem runFrom_pure (a : α) : (pure a : DispatchM α).runFrom e = (.ok a, e) := rfl

@[simp] theorem runFrom_throw (err : DispatchError) :
    (throw err : DispatchM α).runFrom e = (.error err, e) := rfl

@[simp] theorem runFrom_get : (get : DispatchM Engine).runFrom e = (.ok e, e) := rfl

@[simp] theorem runFrom_set (e' : Engine) :
    (set e' : DispatchM PUnit).runFrom e = (.ok ⟨⟩, e') := rfl

@[simp] theorem runFrom_modify (f : Engine → Engine) :
    (modify f : DispatchM PUnit).runFrom e = (.ok ⟨⟩, f e) := rfl

@[simp] theorem runFrom_ofExcept (result : Except DispatchError α) :
    (MonadExcept.ofExcept result : DispatchM α).runFrom e = (result, e) := by
  cases result <;> rfl

theorem runFrom_bind (m : DispatchM α) (f : α → DispatchM β) :
    (m >>= f).runFrom e = match m.runFrom e with
      | (.ok a, e') => (f a).runFrom e'
      | (.error err, e') => (.error err, e') := by
  show ExceptT.bindCont f (m.runFrom e).1 (m.runFrom e).2 = _
  obtain ⟨_ | _, _⟩ := m.runFrom e <;> rfl

theorem runFrom_get_bind (f : Engine → DispatchM β) :
    (get >>= f).runFrom e = (f e).runFrom e := by
  rw [runFrom_bind, runFrom_get]

theorem runFrom_set_bind (e' : Engine) (f : PUnit → DispatchM β) :
    (set e' >>= f).runFrom e = (f ⟨⟩).runFrom e' := by
  rw [runFrom_bind, runFrom_set]

end equations

/-! ## What a resolution keeps -/

/-- From an engine with `P`, a resolution ends with a result with `Q` and leaves an engine with
`P`. -/
def Keeps (P : Engine → Prop) (m : DispatchM α) (Q : Except DispatchError α → Prop) : Prop :=
  ∀ e, P e → Q (m.runFrom e).1 ∧ P (m.runFrom e).2

variable {P : Engine → Prop} {m : DispatchM α} {Q : Except DispatchError α → Prop}
  {f : α → DispatchM β} {R : Except DispatchError β → Prop}

namespace Keeps

theorem pure {a : α} (ha : Q (.ok a)) : Keeps P (pure a) Q := by
  intro e he
  rw [runFrom_pure]
  exact ⟨ha, he⟩

theorem ofExcept {result : Except DispatchError α} (h : Q result) :
    Keeps P (MonadExcept.ofExcept result) Q := by
  intro e he
  rw [runFrom_ofExcept]
  exact ⟨h, he⟩

theorem modify {f : Engine → Engine} (hf : ∀ e, P e → P (f e)) :
    Keeps P (modify f) fun result => result = .ok ⟨⟩ := by
  intro e he
  rw [runFrom_modify]
  exact ⟨rfl, hf e he⟩

theorem bind (hm : Keeps P m Q) (hok : ∀ a, Q (.ok a) → Keeps P (f a) R)
    (herr : ∀ err, Q (.error err) → R (.error err)) : Keeps P (m >>= f) R := by
  intro e he
  obtain ⟨hq, hp⟩ := hm e he
  rw [runFrom_bind]
  generalize m.runFrom e = ran at hq hp ⊢
  obtain ⟨_ | a, e'⟩ := ran
  · exact ⟨herr _ hq, hp⟩
  · exact hok a hq e' hp

theorem get_bind {f : Engine → DispatchM β} (hf : ∀ e, P e → Keeps P (f e) R) :
    Keeps P (get >>= f) R := by
  intro e he
  rw [runFrom_get_bind]
  exact hf e he e he

/-- What is kept alone, whatever the results. -/
theorem seq (hm : Keeps P m fun _ => True) (hf : ∀ a, Keeps P (f a) fun _ => True) :
    Keeps P (m >>= f) fun _ => True :=
  hm.bind (fun a _ => hf a) fun _ _ => trivial

end Keeps

end DispatchM

/-! ## Caches -/

namespace Cache

variable {κ : Type u} {ν : Type v} [DecidableEq κ]

theorem find?_modify (f : ν → ν) (key other : κ) (cache : Cache κ ν) :
    (cache.modify f key).find? other =
      if other = key then (cache.find? other).map f else cache.find? other := by
  induction cache with
  | nil => simp [modify, find?]
  | cons entry rest ih =>
    obtain ⟨k, value⟩ := entry
    by_cases hk : k = key
    · subst hk
      by_cases ho : other = k
      · subst ho
        simp [modify, find?]
      · have ho' : ¬ k = other := fun h => ho h.symm
        simp [modify, find?, ho, ho']
    · rw [modify, if_neg hk, find?, find?, ih]
      by_cases ho : k = other
      · subst ho
        simp [hk]
      · simp [ho]

theorem find?_store (cache : Cache κ ν) (key other : κ) (value : ν) :
    (cache.store key value).2.find? other =
      if other = key then some ((cache.find? key).getD value) else cache.find? other := by
  unfold store
  cases hkept : cache.find? key with
  | some kept =>
    by_cases ho : other = key
    · simp [ho, hkept]
    · simp [ho]
  | none =>
    by_cases ho : other = key
    · subst ho
      simp [find?]
    · have ho' : ¬ key = other := fun h => ho h.symm
      simp [find?, ho, ho']

/-- What a cache holds after a value was kept was there before or is that value. -/
theorem find?_store_cases {cache : Cache κ ν} {key other : κ} {value found : ν}
    (h : (cache.store key value).2.find? other = some found) :
    cache.find? other = some found ∨ other = key ∧ found = value := by
  rw [find?_store] at h
  split at h
  · rename_i hother
    subst hother
    cases hkept : cache.find? other with
    | none =>
      rw [hkept] at h
      cases h
      exact .inr ⟨rfl, rfl⟩
    | some kept =>
      rw [hkept] at h
      exact .inl h
  · exact .inl h

end Cache

/-! ## Discovery and reports -/

/-- What discovery finds on the supertypes of a recorded type. -/
def Engine.discoverAbove (levels : Nat) (key : LookupKey) (rec : Record) : DispatchM (List Lookup) :=
  match levels with
  | 0 => pure []
  | n + 1 => rec.supertypes.mapM fun s => discover n s key

theorem Engine.foldl_report (events : List Event) (e : Engine) :
    events.foldl (fun e event => e.report event) e =
      { e with events := events.reverse ++ e.events } := by
  induction events generalizing e with
  | nil => rfl
  | cons event rest ih =>
    rw [List.foldl_cons, ih, List.reverse_cons, List.append_assoc]
    rfl

/-- Warnings keep what every report keeps. -/
theorem Engine.warnMalformed_keeps {P : Engine → Prop}
    (hreport : ∀ {e : Engine} (event : Event), P e → P (e.report event)) (t : Ty)
    (malformed : List MalformedMember) :
    DispatchM.Keeps P (warnMalformed t malformed) fun result => result = .ok ⟨⟩ := by
  refine DispatchM.Keeps.modify fun e he => ?_
  induction malformed generalizing e with
  | nil => exact he
  | cons bad rest ih => exact ih _ (hreport _ he)

/-! ## Listing members -/

theorem Provider.registry_list (p : Provider) (t : Ty) : (p.list t).2.registry = p.registry := by
  unfold Provider.list
  split <;> rfl

theorem Provider.list_eq_ok {p : Provider} {t : Ty} {members : List Member}
    (h : (p.list t).1 = .ok members) : p.registry.list t = .ok members := by
  unfold Provider.list at h
  split at h
  · rename_i outages fails rest _
    cases fails with
    | true => cases h
    | false => exact h
  · exact h

end Multimethod
