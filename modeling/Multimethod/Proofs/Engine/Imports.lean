import Mathlib.Data.List.ReduceOption
import Multimethod.Proofs.Engine.Discovery
import Multimethod.Proofs.Value.Equal

/-!
# What imports supply

The search for a name among the imports compares every later value with the first one found, and
passes over those of the first one's scope. Whatever the engine has recorded, its outcome rests on the
list of the values supplied alone. Where the values of each scope agree among themselves, that is as
good as comparing all of them in pairs.

* `resolveMember_keeps_setup` — a resolution changes records, outages and events only.
* `Engine.supplied` — the values that imports supply for a name, each with its scope.
* `resolve_of_plain`, `resolve_of_selector`, `resolve_of_qualified`, `resolve_of_unknown` — what becomes of a name
  of each form.
* `resolve_eq_search`, `resolve_eq_settle` — a name that the root scope does not bind stands for what a search
  among the imports finds, which is what these values settle.
* `settle_of_disagreeing`, `settle_of_not_disagreeing` — what they settle, if those of one scope agree.
-/

namespace Multimethod

open DispatchM

/-! ## What a resolution leaves alone -/

/-- The engines have the same registry, settings, root scope and imports. -/
structure Engine.SameSetup (e f : Engine) : Prop where
  registry : e.provider.registry = f.provider.registry
  settings : e.config = f.config
  root : e.root = f.root
  imports : e.imports = f.imports

namespace Engine

variable {e f : Engine} {t : Ty} {key : LookupKey}

theorem SameSetup.refl (e : Engine) : e.SameSetup e := ⟨rfl, rfl, rfl, rfl⟩

theorem SameSetup.hierarchy_eq (hef : e.SameSetup f) : e.hierarchy = f.hierarchy :=
  congrArg Registry.hierarchy hef.registry

theorem SameSetup.report_all (events : List Event) (hef : e.SameSetup f) :
    (events.foldl (fun e event => e.report event) e).SameSetup f := by
  rw [foldl_report]
  exact { hef with }

theorem record_keeps_setup (t : Ty) : Keeps (SameSetup · f) (record t) fun _ => True := by
  intro e hef
  have hlisted : { e with provider := (e.provider.list t).2 }.SameSetup f :=
    { hef with registry := (Provider.registry_list e.provider t).trans hef.registry }
  refine ⟨trivial, ?_⟩
  obtain ⟨_, _, heq⟩ | ⟨_, _, _, heq⟩ | ⟨_, _, _, heq⟩ := record_cases t e
  · rw [heq]
    exact hef
  · rw [heq]
    exact hlisted
  · rw [heq]
    exact { hlisted with }

theorem keepResolved_keeps_setup (value : Option Value) :
    Keeps (SameSetup · f) (keepResolved t key value) fun _ => True :=
  fun _ hef => ⟨trivial, { hef with }⟩

theorem discoveryInvariant_setup :
    DiscoveryInvariant key (SameSetup · f) (fun _ _ => True) fun _ _ => True where
  report _ hef := { hef with }
  record t e hef := ⟨fun _ _ => trivial, (record_keeps_setup t e hef).2⟩
  hit _ _ := trivial
  constant _ _ := trivial
  combine _ _ _ _ _ := trivial
  keepLookup _ _ hef := ⟨fun _ _ => trivial, { hef with }⟩

/-- **A resolution changes records, outages and events only.** -/
theorem resolveMember_keeps_setup (t : Ty) (member : MemberName) (origin : OriginFilter)
    (bindReceiver : Bool) :
    Keeps (SameSetup · f) (resolveMember t member origin bindReceiver) fun _ => True := by
  unfold resolveMember
  refine (record_keeps_setup t).seq fun rec => ?_
  split
  · exact Keeps.pure trivial
  refine (discoveryInvariant_setup.discover _ t).keeps.seq fun lookup => ?_
  intro e hef
  rw [runFrom_get_bind, runFrom_set_bind]
  exact keepResolved_keeps_setup _ _ (hef.report_all _)

theorem resolveRoot_keeps_setup (member : MemberName) :
    Keeps (SameSetup · f) (resolveRoot member) fun _ => True := by
  unfold resolveRoot
  refine Keeps.get_bind fun e _ => ?_
  split
  · exact Keeps.pure trivial
  refine (resolveMember_keeps_setup _ member .instance true).seq fun answer => ?_
  split
  · exact Keeps.pure trivial
  · exact resolveMember_keeps_setup _ member .static false

end Engine

/-! ## What imports supply -/

/-- The plain reference that a name is to an import, if it is one. -/
def Import.member? (name : String) (i : Import) : Option MemberName :=
  match (i.localName? name).map Name.classify with
  | some (.plain member) => some member
  | _ => none

/-- What one import supplies for a name, with its scope. -/
def Import.answer (name : String) (i : Import) : DispatchM (Option (Value × Ty)) := do
  match i.member? name with
  | some member => return (← Engine.resolveMember i.scope member .any false).map (·, i.scope)
  | none => return none

namespace Engine

/-- The values that imports supply for a name, each with its scope. -/
def supplied (name : String) (imports : List Import) : DispatchM (List (Value × Ty)) := do
  return (← imports.mapM (Import.answer name)).reduceOption

/-- Do two values differ that come from distinct scopes? -/
def differs (p q : Value × Ty) : Bool := p.2 ≠ q.2 ∧ p.1.equal q.1 = false

/-- The outcome that a list of values supplied for a name has: the first of them, or an error if a
later one of another scope differs from it. -/
def settle (h : Hierarchy) (name : String) :
    List (Value × Ty) → Except DispatchError (Option (Value × Ty))
  | [] => .ok none
  | first :: others =>
    match others.find? (differs first) with
    | some later => .error (.ambiguousImport name (h.typeName first.2) (h.typeName later.2))
    | none => .ok (some first)

/-- Do any two of the values differ and come from distinct scopes? -/
def Disagreeing (values : List (Value × Ty)) : Prop := ∃ p ∈ values, ∃ q ∈ values, differs p q

/-- Are the values of each scope equal among themselves? -/
def ScopesAgree (values : List (Value × Ty)) : Prop :=
  values.Pairwise fun p q => p.2 = q.2 → p.1.equal q.1

variable {e e' : Engine} {name : String}

theorem answer_keeps_setup {f : Engine} (name : String) (i : Import) :
    Keeps (SameSetup · f) (i.answer name) fun _ => True := by
  unfold Import.answer
  split
  · exact (resolveMember_keeps_setup _ _ .any false).seq fun _ => Keeps.pure trivial
  · exact Keeps.pure trivial

/-- The search for a name goes on from one import with what that import answers. -/
theorem searchImports_cons (i : Import) (rest : List Import) (found : Option (Value × Ty)) :
    searchImports name (i :: rest) found = (do
      match ← i.answer name, found with
      | none, found => searchImports name rest found
      | some later, none => searchImports name rest (some later)
      | some later, some first =>
        if first.2 ≠ later.2 ∧ first.1.equal later.1 = false then
          let h := (← get).hierarchy
          throw (.ambiguousImport name (h.typeName first.2) (h.typeName later.2))
        else searchImports name rest (some first)) := by
  unfold Import.answer Import.member?
  rw [searchImports]
  cases (i.localName? name).map Name.classify with
  | none => rw [pure_bind]
  | some form =>
    cases form with
    | plain member =>
      simp only [bind_assoc, pure_bind]
      refine bind_congr fun answer => ?_
      cases answer <;> cases found <;> rfl
    | selector member => simp only [pure_bind]
    | qualified scope member whole => simp only [pure_bind]

theorem differs_iff {p q : Value × Ty} : differs p q ↔ p.2 ≠ q.2 ∧ p.1.equal q.1 = false :=
  decide_eq_true_iff

theorem settle_cons_cons (h : Hierarchy) (first later : Value × Ty) (others : List (Value × Ty)) :
    settle h name (first :: later :: others) =
      if differs first later then
        .error (.ambiguousImport name (h.typeName first.2) (h.typeName later.2))
      else settle h name (first :: others) := by
  cases hdiffer : differs first later <;> simp [settle, hdiffer]

/-- **A search settles what the imports supply,** unless one of their lookups fails. -/
theorem searchImports_of_answers {imports : List Import} (found : Option (Value × Ty))
    {answers : List (Option (Value × Ty))}
    (hanswers : (imports.mapM (Import.answer name)).runFrom e = (.ok answers, e')) :
    ((searchImports name imports found).runFrom e).1 =
      settle e.hierarchy name (found.toList ++ answers.reduceOption) := by
  induction imports generalizing found e answers with
  | nil =>
    cases hanswers
    cases found <;> rfl
  | cons i rest ih =>
    rw [List.mapM_cons, runFrom_bind] at hanswers
    rw [searchImports_cons, runFrom_bind]
    have hsetup := (answer_keeps_setup name i e (SameSetup.refl e)).2
    cases hanswer : (i.answer name).runFrom e with
    | mk result e₁ =>
      rw [hanswer] at hanswers hsetup
      cases result with
      | error err => cases hanswers
      | ok answer =>
        simp only [runFrom_bind] at hanswers
        cases hrest : (rest.mapM (Import.answer name)).runFrom e₁ with
        | mk result e₂ =>
          rw [hrest] at hanswers
          cases result with
          | error err => cases hanswers
          | ok others =>
            cases hanswers
            rw [← hsetup.hierarchy_eq]
            cases answer with
            | none =>
              have hothers := ih found hrest
              rwa [List.reduceOption_cons_of_none]
            | some later =>
              rw [List.reduceOption_cons_of_some]
              cases found with
              | none => exact ih (some later) hrest
              | some first =>
                rw [Option.toList_some, List.singleton_append, settle_cons_cons]
                simp only [differs_iff]
                split
                · rw [runFrom_get_bind, runFrom_throw]
                · exact ih (some first) hrest

theorem resolve_of_plain {member : MemberName} (hplain : Name.classify name = .plain member)
    (scope : Option Ty) : resolve name scope = resolvePlain name member scope := by
  unfold resolve
  split
  · rename_i hselector
    rw [hplain] at hselector
    cases hselector
  · rename_i hqualified
    rw [hplain] at hqualified
    cases hqualified
  · rename_i hfound
    rw [hplain] at hfound
    cases hfound
    rfl

theorem resolve_of_selector {member : MemberName} (hselector : Name.classify name = .selector member)
    (scope : Option Ty) : resolve name scope = pure (some (.procedure (.selector name ⟨member, hselector⟩))) := by
  unfold resolve
  split
  · rename_i hfound
    rw [hselector] at hfound
    cases hfound
    rfl
  · rename_i hqualified
    rw [hselector] at hqualified
    cases hqualified
  · rename_i hplain
    rw [hselector] at hplain
    cases hplain

theorem runFrom_resolve_of_form {typeName : String} {member whole : MemberName}
    (hform : Name.classify name = .qualified typeName member whole) (scope : Option Ty) (e : Engine) :
    (resolve name scope).runFrom e =
      ((e.findType? typeName).elim (resolvePlain name whole scope) (resolveMember · member .any false)).runFrom e := by
  unfold resolve
  split
  · rename_i hselector
    rw [hform] at hselector
    cases hselector
  · rename_i hfound
    rw [hform] at hfound
    cases hfound
    rw [runFrom_get_bind]
    cases e.findType? typeName <;> rfl
  · rename_i hplain
    rw [hform] at hplain
    cases hplain

/-- Names that are qualified by the name of a type are looked up on the type. -/
theorem resolve_of_qualified {typeName : String} {member whole : MemberName}
    (hform : Name.classify name = .qualified typeName member whole) (htype : e.findType? typeName = some t)
    (scope : Option Ty) : (resolve name scope).runFrom e = (resolveMember t member .any false).runFrom e := by
  rw [runFrom_resolve_of_form hform, htype, Option.elim_some]

theorem resolve_of_unknown {typeName : String} {member whole : MemberName}
    (hform : Name.classify name = .qualified typeName member whole) (htype : e.findType? typeName = none)
    (scope : Option Ty) : (resolve name scope).runFrom e = (resolvePlain name whole scope).runFrom e := by
  rw [runFrom_resolve_of_form hform, htype, Option.elim_none]

/-- A name that the root scope does not bind stands for what a search among the imports finds. -/
theorem resolve_eq_search {member : MemberName} (hplain : Name.classify name = .plain member)
    {e₁ : Engine} (hroot : (resolveRoot member).runFrom e = (.ok none, e₁)) :
    ((resolve name none).runFrom e).1 =
      ((searchImports name e.imports none).runFrom e₁).1.map (Option.map Prod.fst) := by
  have hsetup := (resolveRoot_keeps_setup member e (SameSetup.refl e)).2
  rw [hroot] at hsetup
  have himports : e₁.imports = e.imports := hsetup.imports
  rw [resolve_of_plain hplain]
  unfold resolvePlain resolveImported
  simp only [runFrom_bind, hroot, runFrom_get, himports]
  cases (searchImports name e.imports none).runFrom e₁ with
  | mk result e₂ => cases result <;> rfl

/-- **A name that the root scope does not bind stands for what its imports supply.** -/
theorem resolve_eq_settle {member : MemberName} (hplain : Name.classify name = .plain member)
    {e₁ e₂ : Engine} (hroot : (resolveRoot member).runFrom e = (.ok none, e₁))
    {values : List (Value × Ty)}
    (hsupplied : (supplied name e.imports).runFrom e₁ = (.ok values, e₂)) :
    ((resolve name none).runFrom e).1 =
      (settle e.hierarchy name values).map (Option.map Prod.fst) := by
  have hsetup := (resolveRoot_keeps_setup member e (SameSetup.refl e)).2
  rw [hroot] at hsetup
  unfold supplied at hsupplied
  rw [runFrom_bind] at hsupplied
  cases hanswers : (e.imports.mapM (Import.answer name)).runFrom e₁ with
  | mk result e₃ =>
    rw [hanswers] at hsupplied
    cases result with
    | error err => cases hsupplied
    | ok answers =>
      cases hsupplied
      have hsearch := searchImports_of_answers none hanswers
      rw [hsetup.hierarchy_eq, Option.toList_none, List.nil_append] at hsearch
      rw [resolve_eq_search hplain hroot, hsearch]

/-! ## Agreement in pairs -/

section pairs

variable {values : List (Value × Ty)} (h : Hierarchy) (name : String)

/-- If none differs from the first value and each scope agrees, all are equal to the first. -/
theorem equal_first_of_find?_eq_none {first : Value × Ty} {others : List (Value × Ty)}
    (hagree : ScopesAgree (first :: others)) (hnone : others.find? (differs first) = none) :
    ∀ later ∈ others, first.1.equal later.1 := by
  intro later hlater
  by_cases hscope : first.2 = later.2
  · exact (List.pairwise_cons.1 hagree).1 later hlater hscope
  · have hsame := List.find?_eq_none.1 hnone later hlater
    rw [differs_iff] at hsame
    simpa [hscope] using hsame

theorem disagreeing_of_find? {first later : Value × Ty} {others : List (Value × Ty)}
    (hfind : others.find? (differs first) = some later) :
    later ∈ first :: others ∧ differs first later :=
  ⟨List.mem_cons_of_mem first (List.mem_of_find?_eq_some hfind), List.find?_some hfind⟩

/-- **Comparing with the first value is as good as comparing in pairs:** values that disagree settle
an error, and it names two scopes whose values differ. -/
theorem settle_of_disagreeing (hagree : ScopesAgree values) (hdisagree : Disagreeing values) :
    ∃ p ∈ values, ∃ q ∈ values, differs p q ∧
      settle h name values = .error (.ambiguousImport name (h.typeName p.2) (h.typeName q.2)) := by
  obtain ⟨p, hp, q, hq, hdiffer⟩ := hdisagree
  cases values with
  | nil => cases hp
  | cons first others =>
    unfold settle
    cases hfind : others.find? (differs first) with
    | some later =>
      obtain ⟨hlater, hdiffer⟩ := disagreeing_of_find? hfind
      exact ⟨first, List.mem_cons_self, later, hlater, hdiffer, by simp only [hfind]⟩
    | none =>
      -- all are equal to the first, and so to one another
      have hall := equal_first_of_find?_eq_none hagree hfind
      obtain ⟨hscopes, hdiffer⟩ := differs_iff.1 hdiffer
      have hequal : p.1.equal q.1 := by
        rcases List.mem_cons.1 hp with rfl | hp
        · exact hall q ((List.mem_cons.1 hq).resolve_left fun heq => hscopes (heq ▸ rfl))
        · have hfirst := hall p hp
          rw [Value.equal_comm] at hfirst
          rcases List.mem_cons.1 hq with rfl | hq
          · exact hfirst
          · exact Value.equal_trans _ _ _ hfirst (hall q hq)
      rw [hequal] at hdiffer
      cases hdiffer

theorem settle_of_not_disagreeing (hdisagree : ¬ Disagreeing values) :
    settle h name values = .ok values.head? := by
  cases values with
  | nil => rfl
  | cons first others =>
    cases hfind : others.find? (differs first) with
    | some later => exact absurd ⟨first, List.mem_cons_self, later, disagreeing_of_find? hfind⟩ hdisagree
    | none => simp only [settle, hfind, List.head?_cons]

end pairs

end Engine

end Multimethod
