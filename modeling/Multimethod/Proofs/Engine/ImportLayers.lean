import Multimethod.Proofs.Engine.Inheritance

/-!
# The layers of a name

A name without a scope is bound by the root scope or else by the imports, which are asked in turn. A search
among more imports goes on from what the first of them gave: nothing more can happen to an answer but that a
later import disagrees with it.

* `Engine.plainMember?` — the member that such a name refers to.
* `Engine.seek` — the part of a resolution that some imports decide, and `runFrom_resolve_of_plainMember?`.
* `Engine.searchImports_append`, `Engine.seek_append` — a search among more imports goes on.
* `Engine.searchImports_of_found` — what a search ends with that has found an answer.
* `Engine.resolveMember_failsOnLookup` — the ways in which a reference fails, whatever was recorded.
-/

namespace Multimethod

open DispatchM

/-! ## Failures of lookups -/

namespace DispatchM

variable {α β : Type} {m : DispatchM α} {f : α → DispatchM β}

/-- Whatever the engine, the resolution fails as lookups do, if it fails. -/
def FailsOnLookup (m : DispatchM α) : Prop :=
  Keeps (fun _ => True) m fun result => ∀ err, result = .error err → err.IsOfLookup

namespace FailsOnLookup

theorem pure (a : α) : FailsOnLookup (pure a) := Keeps.pure nofun

theorem bind (hm : FailsOnLookup m) (hf : ∀ a, FailsOnLookup (f a)) : FailsOnLookup (m >>= f) :=
  Keeps.bind hm (fun a _ => hf a) fun err herr _ h => by cases h; exact herr err rfl

theorem of_ok (h : ∀ e, ∃ a, (m.runFrom e).1 = .ok a) : FailsOnLookup m := by
  intro e _
  obtain ⟨a, ha⟩ := h e
  rw [ha]
  exact ⟨nofun, trivial⟩

theorem mapM {f : α → DispatchM β} {xs : List α} (hf : ∀ x ∈ xs, FailsOnLookup (f x)) :
    FailsOnLookup (xs.mapM f) := by
  induction xs with
  | nil => exact pure []
  | cons x rest ih =>
    rw [List.mapM_cons]
    refine (hf x List.mem_cons_self).bind fun b => ?_
    exact (ih fun y hy => hf y (List.mem_cons_of_mem x hy)).bind fun bs => pure (b :: bs)

end FailsOnLookup

end DispatchM

theorem OwnMembers.isOfLookup_of_combine {own : OwnMembers} {typeName : String} {key : LookupKey}
    {inherited : List Lookup} {err : DispatchError} (h : own.combine typeName key inherited = .error err) :
    err.IsOfLookup := by
  unfold combine at h
  dsimp only at h
  split at h
  · cases h
    trivial
  · split at h <;> cases h

namespace Engine

variable {e e' f : Engine} {name : String} {member : MemberName}

theorem record_failsOnLookup (t : Ty) : FailsOnLookup (record t) := by
  refine fun e _ => ⟨fun err h => ?_, trivial⟩
  obtain ⟨_, _, hrun⟩ | ⟨_, _, _, hrun⟩ | ⟨_, _, _, hrun⟩ := record_cases t e
  · rw [hrun] at h
    cases h
  · rw [hrun] at h
    cases h
    trivial
  · rw [hrun] at h
    cases h

theorem discover_failsOnLookup_of_above {levels : Nat} {key : LookupKey} (t : Ty)
    (habove : ∀ rec : Record, FailsOnLookup (discoverAbove levels key rec)) :
    FailsOnLookup (discover levels t key) := by
  rw [discover_eq]
  refine (record_failsOnLookup t).bind fun rec => ?_
  split
  · exact .pure _
  refine FailsOnLookup.bind ?_ fun lookup => .of_ok fun _ => ⟨_, rfl⟩
  unfold answerOf
  refine FailsOnLookup.bind (.of_ok fun _ => ⟨_, rfl⟩) fun _ => ?_
  split
  · exact .pure _
  refine (habove rec).bind fun above => Keeps.get_bind fun e _ => Keeps.ofExcept fun err h => ?_
  exact OwnMembers.isOfLookup_of_combine h

theorem discover_failsOnLookup (levels : Nat) (t : Ty) (key : LookupKey) :
    FailsOnLookup (discover levels t key) := by
  induction levels generalizing t with
  | zero => exact discover_failsOnLookup_of_above t fun _ => .pure []
  | succ n ih => exact discover_failsOnLookup_of_above t fun rec => .mapM fun s _ => ih s

/-- **A reference fails as lookups do,** whatever was recorded before. -/
theorem resolveMember_failsOnLookup (t : Ty) (member : MemberName) (origin : OriginFilter) (bindReceiver : Bool) :
    FailsOnLookup (resolveMember t member origin bindReceiver) := by
  unfold resolveMember
  refine (record_failsOnLookup t).bind fun rec => ?_
  split
  · exact .pure _
  · exact (discover_failsOnLookup discoveryDepth t _).bind fun lookup => .of_ok fun _ => ⟨_, rfl⟩

theorem answer_failsOnLookup (name : String) (i : Import) : FailsOnLookup (i.answer name) := by
  unfold Import.answer
  split
  · exact (resolveMember_failsOnLookup _ _ .any false).bind fun _ => .pure _
  · exact .pure none

/-! ## Names without a scope -/

/-- The member that a name refers to where no scope is given, unless it is a selector or qualified by a type
that there is. -/
def plainMember? (e : Engine) (name : String) : Option MemberName :=
  match Name.classify name with
  | .selector _ => none
  | .qualified typeName _ whole => if (e.findType? typeName).isSome then none else some whole
  | .plain member => some member

theorem plainMember?_of_plain (hplain : Name.classify name = .plain member) (e : Engine) :
    e.plainMember? name = some member := by
  rw [plainMember?, hplain]

theorem runFrom_resolve_of_plainMember? (hmember : e.plainMember? name = some member) (scope : Option Ty) :
    (resolve name scope).runFrom e = (resolvePlain name member scope).runFrom e := by
  unfold plainMember? at hmember
  split at hmember
  · cases hmember
  · rename_i hqualified
    split at hmember
    · cases hmember
    · rename_i hunknown
      cases hmember
      exact resolve_of_unknown hqualified (Option.not_isSome_iff_eq_none.1 hunknown) scope
  · rename_i hplain
    cases hmember
    rw [resolve_of_plain hplain]

/-- What a name without a scope is bound to: by the root scope, or else by some imports, if they have an answer. -/
inductive Sought where
  | root (value : Value)
  | imports (found : Option (Value × Ty))

def Sought.value? : Sought → Option Value
  | root value => some value
  | imports found => found.map Prod.fst

/-- Asks the root scope for a member, and then some imports for the name. -/
def seek (name : String) (member : MemberName) (imports : List Import) : DispatchM Sought := do
  match ← resolveRoot member with
  | some value => return .root value
  | none => return .imports (← searchImports name imports none)

/-- **A name without a scope stands for what is found in the root scope or in the imports.** -/
theorem runFrom_resolve (hmember : e.plainMember? name = some member) :
    (resolve name none).runFrom e =
      (((seek name member e.imports).runFrom e).1.map Sought.value?, ((seek name member e.imports).runFrom e).2) := by
  have hsetup := (resolveRoot_keeps_setup member e (SameSetup.refl e)).2
  rw [runFrom_resolve_of_plainMember? hmember]
  unfold resolvePlain seek resolveImported
  simp only [runFrom_bind]
  cases hroot : (resolveRoot member).runFrom e with
  | mk result e₁ =>
    rw [hroot] at hsetup
    cases result with
    | error err => rfl
    | ok answer =>
      cases answer with
      | some value => rfl
      | none =>
        simp only [runFrom_bind, runFrom_get]
        rw [hsetup.imports]
        cases (searchImports name e.imports none).runFrom e₁ with
        | mk result e₂ => cases result <;> rfl

/-- A search among more imports goes on from what the first of them gave. -/
theorem searchImports_append (first more : List Import) (found : Option (Value × Ty)) :
    (searchImports name (first ++ more) found).runFrom e =
      (searchImports name first found >>= searchImports name more).runFrom e := by
  induction first generalizing found e with
  | nil => rw [List.nil_append, searchImports, pure_bind]
  | cons i rest ih =>
    rw [List.cons_append, searchImports_cons, searchImports_cons, bind_assoc, runFrom_bind, runFrom_bind]
    cases (i.answer name).runFrom e with
    | mk result e₁ =>
      cases result with
      | error err => rfl
      | ok answer =>
        cases answer with
        | none => exact ih found
        | some later =>
          cases found with
          | none => exact ih (some later)
          | some first =>
            dsimp only
            split
            · rw [runFrom_get_bind, runFrom_bind, runFrom_get_bind]
              rfl
            · exact ih (some first)

theorem seek_append (first more : List Import) :
    (seek name member (first ++ more)).runFrom e =
      (seek name member first >>= fun sought => match sought with
        | .root value => return .root value
        | .imports found => return .imports (← searchImports name more found)).runFrom e := by
  unfold seek
  simp only [runFrom_bind]
  cases (resolveRoot member).runFrom e with
  | mk result e₁ =>
    cases result with
    | error err => rfl
    | ok answer =>
      cases answer with
      | some value => rfl
      | none =>
        simp only [runFrom_bind, searchImports_append]
        cases (searchImports name first none).runFrom e₁ with
        | mk result e₂ =>
          cases result with
          | error err => rfl
          | ok found =>
            simp only [runFrom_pure, runFrom_bind]

/-- **A search that has found an answer** ends with this answer, or with an import that disagrees with it, unless
a lookup fails. -/
theorem searchImports_of_found (name : String) (imports : List Import) (first : Value × Ty) (e : Engine) :
    let result := ((searchImports name imports (some first)).runFrom e).1
    result = .ok (some first) ∨
    (∃ second, result = .error (.ambiguousImport name (e.hierarchy.typeName first.2) second)) ∨
    ∃ err, result = .error err ∧ err.IsOfLookup := by
  intro result
  induction imports generalizing e with
  | nil => exact .inl rfl
  | cons i rest ih =>
    subst result
    rw [searchImports_cons, runFrom_bind]
    have hsetup := (answer_keeps_setup name i e (SameSetup.refl e)).2
    have hfails := (answer_failsOnLookup name i e trivial).1
    cases hanswer : (i.answer name).runFrom e with
    | mk result e₁ =>
      rw [hanswer] at hsetup hfails
      cases result with
      | error err => exact .inr (.inr ⟨err, rfl, hfails err rfl⟩)
      | ok answer =>
        rw [← hsetup.hierarchy_eq]
        cases answer with
        | none => exact ih e₁
        | some later =>
          dsimp only
          split
          · rw [runFrom_get_bind, runFrom_throw]
            exact .inr (.inl ⟨_, rfl⟩)
          · exact ih e₁

end Engine

end Multimethod
