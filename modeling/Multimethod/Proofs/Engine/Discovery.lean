import Multimethod.Proofs.Engine.Faithful

/-!
# What a discovery keeps

A discovery fetches the record of a type, and unless the record has the answer it finds one and keeps it.
What holds of engines, of records and of answers, and is kept by these steps, holds of a whole discovery,
however far up it goes and wherever it is cut off.

* `DispatchM.Gives` — a resolution keeps a property of engines, and its value has another.
* `discover_eq` — a discovery in its steps.
* `DiscoveryInvariant` — what its steps keep.
* `DiscoveryInvariant.discover` — what a whole discovery keeps.
-/

namespace Multimethod

namespace DispatchM

variable {α β : Type} {P : Engine → Prop} {Q : α → Prop} {R : β → Prop}

/-- From an engine with `P`, a resolution leaves an engine with `P`, and what it ends with is an error
or a value with `Q`. -/
def Gives (P : Engine → Prop) (m : DispatchM α) (Q : α → Prop) : Prop :=
  Keeps P m fun result => ∀ a, result = .ok a → Q a

namespace Gives

theorem pure {a : α} (ha : Q a) : Gives P (pure a) Q := by
  refine Keeps.pure fun b hb => ?_
  cases hb
  exact ha

theorem ofExcept {result : Except DispatchError α} (h : ∀ a, result = .ok a → Q a) :
    Gives P (MonadExcept.ofExcept result) Q := Keeps.ofExcept h

theorem bind {m : DispatchM α} {f : α → DispatchM β} (hm : Gives P m Q)
    (hf : ∀ a, Q a → Gives P (f a) R) : Gives P (m >>= f) R :=
  Keeps.bind hm (fun a ha => hf a (ha a rfl)) fun _ _ _ h => by cases h

theorem get_bind {f : Engine → DispatchM β} (hf : ∀ e, P e → Gives P (f e) R) :
    Gives P (get >>= f) R := Keeps.get_bind hf

theorem keeps {m : DispatchM α} (hm : Gives P m Q) : Keeps P m fun _ => True :=
  fun e he => ⟨trivial, (hm e he).2⟩

theorem mapM {Q : α → β → Prop} {f : α → DispatchM β} {xs : List α}
    (hf : ∀ x ∈ xs, Gives P (f x) (Q x)) : Gives P (xs.mapM f) (List.Forall₂ Q xs) := by
  induction xs with
  | nil => exact pure .nil
  | cons x rest ih =>
    rw [List.mapM_cons]
    refine (hf x List.mem_cons_self).bind fun b hb => ?_
    exact (ih fun y hy => hf y (List.mem_cons_of_mem x hy)).bind fun bs hbs => pure (.cons hb hbs)

theorem exists_mem_of_forall₂ {Q : α → β → Prop} {xs : List α} {bs : List β}
    (h : List.Forall₂ Q xs bs) : ∀ b ∈ bs, ∃ x ∈ xs, Q x b := by
  induction h with
  | nil => simp
  | cons hxb _ ih =>
    refine List.forall_mem_cons.2 ⟨⟨_, List.mem_cons_self, hxb⟩, fun c hc => ?_⟩
    obtain ⟨y, hy, hyc⟩ := ih c hc
    exact ⟨y, List.mem_cons_of_mem _ hy, hyc⟩

theorem mapM_exists {Q : α → β → Prop} {f : α → DispatchM β} {xs : List α}
    (hf : ∀ x ∈ xs, Gives P (f x) (Q x)) :
    Gives P (xs.mapM f) fun bs => ∀ b ∈ bs, ∃ x ∈ xs, Q x b := by
  intro e he
  obtain ⟨hvalues, hkeeps⟩ := mapM hf e he
  exact ⟨fun bs hbs => exists_mem_of_forall₂ (hvalues bs hbs), hkeeps⟩

end Gives

end DispatchM

namespace Engine

open DispatchM

/-- What discovery finds on a recorded type that has no answer yet. -/
def answerOf (levels : Nat) (t : Ty) (key : LookupKey) (rec : Record) : DispatchM Lookup := do
  let own := OwnMembers.scan t key 0 rec.members {}
  warnMalformed t own.malformed
  match own.constant with
  | some value => return .constant value
  | none =>
    let above ← discoverAbove levels key rec
    let e ← get
    MonadExcept.ofExcept (own.combine (e.hierarchy.typeName t) key above)

/-- A discovery gives the answer of the record, or finds one and keeps it. -/
theorem discover_eq (levels : Nat) (t : Ty) (key : LookupKey) :
    discover levels t key = (do
      let rec ← record t
      match rec.lookups.find? key with
      | some hit => return hit
      | none => do keepLookup t key (← answerOf levels t key rec)) := by
  unfold discover
  congr
  funext rec
  cases rec.lookups.find? key with
  | some hit => rfl
  | none =>
    cases hconstant : (OwnMembers.scan t key 0 rec.members {}).constant with
    | some value => simp [answerOf, hconstant]
    | none => cases levels <;> simp [answerOf, hconstant, discoverAbove]

theorem warnMalformed_gives {P : Engine → Prop}
    (hreport : ∀ {e : Engine} (event : Event), P e → P (e.report event)) (t : Ty)
    (malformed : List MalformedMember) : Gives P (warnMalformed t malformed) fun _ => True :=
  fun e he => ⟨fun _ _ => trivial, (warnMalformed_keeps hreport t malformed e he).2⟩

/-- What the steps of a discovery keep: `P` of engines, and with it `R` of the record of a type and `Q`
of what the lookup finds there. -/
structure DiscoveryInvariant (key : LookupKey) (P : Engine → Prop) (R : Ty → Record → Prop)
    (Q : Ty → Lookup → Prop) : Prop where
  report : ∀ {e : Engine} (event : Event), P e → P (e.report event)
  record : ∀ t, Gives P (record t) (R t)
  hit : ∀ {t rec lookup}, R t rec → rec.lookups.find? key = some lookup → Q t lookup
  constant : ∀ {t rec value}, R t rec →
    (OwnMembers.scan t key 0 rec.members {}).constant = some value → Q t (.constant value)
  combine : ∀ {e : Engine} {t rec above lookup}, P e → R t rec →
    (OwnMembers.scan t key 0 rec.members {}).constant = none →
    (∀ l ∈ above, ∃ s ∈ rec.supertypes, Q s l) →
    (OwnMembers.scan t key 0 rec.members {}).combine (e.hierarchy.typeName t) key above = .ok lookup →
      Q t lookup
  keepLookup : ∀ {t lookup}, Q t lookup → Gives P (keepLookup t key lookup) (Q t)

namespace DiscoveryInvariant

variable {key : LookupKey} {P : Engine → Prop} {R : Ty → Record → Prop} {Q : Ty → Lookup → Prop}
  (hinv : DiscoveryInvariant key P R Q)

include hinv

theorem answerOf_of_above {levels : Nat} {t : Ty} {rec : Record} (hrec : R t rec)
    (habove : Gives P (discoverAbove levels key rec) fun above => ∀ l ∈ above, ∃ s ∈ rec.supertypes, Q s l) :
    Gives P (answerOf levels t key rec) (Q t) := by
  unfold Engine.answerOf
  refine (warnMalformed_gives hinv.report t _).bind fun _ _ => ?_
  cases hconstant : (OwnMembers.scan t key 0 rec.members {}).constant with
  | some value => exact Gives.pure (hinv.constant hrec hconstant)
  | none =>
    refine habove.bind fun above hall => Gives.get_bind fun e he => Gives.ofExcept fun lookup hlookup => ?_
    exact hinv.combine he hrec hconstant hall hlookup

theorem discover_of_above {levels : Nat} {t : Ty}
    (habove : ∀ rec : Record, Gives P (discoverAbove levels key rec) fun above =>
      ∀ l ∈ above, ∃ s ∈ rec.supertypes, Q s l) :
    Gives P (discover levels t key) (Q t) := by
  rw [discover_eq]
  refine (hinv.record t).bind fun rec hrec => ?_
  cases hhit : rec.lookups.find? key with
  | some hit => exact Gives.pure (hinv.hit hrec hhit)
  | none => exact (hinv.answerOf_of_above hrec (habove rec)).bind fun lookup => hinv.keepLookup

/-- **A whole discovery keeps what its steps keep,** wherever it is cut off. -/
theorem discover (levels : Nat) (t : Ty) : Gives P (discover levels t key) (Q t) := by
  induction levels generalizing t with
  | zero => exact hinv.discover_of_above fun rec => Gives.pure (by simp)
  | succ n ih => exact hinv.discover_of_above fun rec => Gives.mapM_exists fun s _ => ih s

theorem answerOf (levels : Nat) (t : Ty) (rec : Record) (hrec : R t rec) :
    Gives P (answerOf levels t key rec) (Q t) := by
  refine hinv.answerOf_of_above hrec ?_
  cases levels with
  | zero => exact Gives.pure (by simp)
  | succ n => exact Gives.mapM_exists fun s _ => hinv.discover n s

end DiscoveryInvariant

end Engine

end Multimethod
