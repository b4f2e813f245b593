import Multimethod.Proofs.Engine.Agreement
import Multimethod.Proofs.Engine.Lasting
import Multimethod.Proofs.Eval.Permanence
import Multimethod.Proofs.Eval.SharedInheritance

/-!
# Importing is monotone

More imports take no meaning away from a name but that they may disagree with it: `Interpreter.importing_is_monotone`.
What the environment, a qualifier or the root scope binds stays, and so does an ambiguity; what the imports bound
stays, or becomes ambiguous between the scope that it came from and a new one.

* `Engine.addImports` — imports one after another, and `addImports_widens`.
* `Engine.Recalls` — the later engine answers all that decided what a name stood for alike.
* `Engine.recalls_of_widens`, `Engine.recalls_of_leadsTo` — an engine with more imports does, and one that had
  resolved the name before does whatever has been done since.
* `Engine.Recalls.resolve_eq` — so the later resolution goes on where the earlier one ended.
-/

namespace Multimethod

open DispatchM

namespace Engine

variable {e f k : Engine} {name : String} {member : MemberName} {certain : Prop} {v : Value}

/-! ## More imports -/

/-- Makes the members of the scopes visible, one after another. -/
def addImports (added : List Import) (e : Engine) : Engine :=
  added.foldl (fun e i => e.addImport i.scope i.qualifier) e

/-- The later engine has more imports and other events, and is the same in all else. -/
structure Widens (e later : Engine) : Prop where
  provider : later.provider = e.provider
  settings : later.config = e.config
  root : later.root = e.root
  records : later.records = e.records
  imports : e.imports <+: later.imports

theorem Widens.refl (e : Engine) : e.Widens e := ⟨rfl, rfl, rfl, rfl, List.prefix_rfl⟩

theorem Widens.trans (h : e.Widens f) (h' : f.Widens k) : e.Widens k :=
  ⟨h'.provider.trans h.provider, h'.settings.trans h.settings, h'.root.trans h.root,
    h'.records.trans h.records, h.imports.trans h'.imports⟩

theorem addImport_widens (e : Engine) (scope : Ty) (qualifier : Option String) :
    e.Widens (e.addImport scope qualifier) := by
  unfold addImport
  dsimp only
  split
  · exact .refl e
  · exact ⟨rfl, rfl, rfl, rfl, List.prefix_append _ _⟩

theorem addImports_widens (e : Engine) (added : List Import) : e.Widens (e.addImports added) := by
  induction added generalizing e with
  | nil => exact .refl e
  | cons i rest ih => exact (addImport_widens e i.scope i.qualifier).trans (ih _)

theorem addImport_of_mem {i : Import} (hi : i ∈ e.imports) : e.addImport i.scope i.qualifier = e := by
  unfold addImport
  exact if_pos hi

/-! ## Imports do not matter to lookups -/

theorem resolveRoot_agreeFrom (hef : e.Matches (fun _ => True) certain f) :
    AgreeFrom (Matches (fun _ => True) certain) certain Eq (resolveRoot member) (resolveRoot member) e f := by
  unfold resolveRoot
  refine .get_bind ?_
  rw [hef.root]
  cases f.root with
  | none => exact .pure rfl hef
  | some root =>
    refine (resolveMember_agreeFrom trivial hef root).bind fun answer _ e₁ f₁ _ _ hanswer hef₁ => ?_
    subst hanswer
    cases answer with
    | some value => exact .pure rfl hef₁
    | none => exact resolveMember_agreeFrom trivial hef₁ root

theorem answer_agreeFrom (i : Import) (hef : e.Matches (fun _ => True) certain f) :
    AgreeFrom (Matches (fun _ => True) certain) certain Eq (i.answer name) (i.answer name) e f := by
  unfold Import.answer
  cases i.member? name with
  | none => exact .pure rfl hef
  | some member =>
    refine (resolveMember_agreeFrom trivial hef i.scope).bind fun answer _ e₁ f₁ _ _ hanswer hef₁ => ?_
    exact .pure (by rw [hanswer]) hef₁

theorem searchImports_agreeFrom (imports : List Import) (found : Option (Value × Ty))
    (hef : e.Matches (fun _ => True) certain f) :
    AgreeFrom (Matches (fun _ => True) certain) certain Eq (searchImports name imports found)
      (searchImports name imports found) e f := by
  induction imports generalizing found e f with
  | nil => exact .pure rfl hef
  | cons i rest ih =>
    rw [searchImports_cons]
    refine (answer_agreeFrom i hef).bind fun answer _ e₁ f₁ _ _ hanswer hef₁ => ?_
    subst hanswer
    cases answer with
    | none => exact ih found hef₁
    | some later =>
      cases found with
      | none => exact ih (some later) hef₁
      | some first =>
        dsimp only
        split
        · refine .get_bind ?_
          rw [hef₁.hierarchy_eq]
          exact .inl ⟨.error rfl, hef₁⟩
        · exact ih (some first) hef₁

theorem seek_agreeFrom (imports : List Import) (hef : e.Matches (fun _ => True) certain f) :
    AgreeFrom (Matches (fun _ => True) certain) certain Eq (seek name member imports)
      (seek name member imports) e f := by
  refine (resolveRoot_agreeFrom hef).bind fun answer _ e₁ f₁ _ _ hanswer hef₁ => ?_
  subst hanswer
  cases answer with
  | some value => exact .pure rfl hef₁
  | none =>
    refine (searchImports_agreeFrom imports none hef₁).bind fun found _ e₂ f₂ _ _ hfound hef₂ => ?_
    exact .pure (by rw [hfound]) hef₂

/-- With certainty, resolutions that agree end with equal results. -/
theorem eq_of_agreeFrom {α : Type} {P : Engine → Engine → Prop} {m : DispatchM α}
    (h : AgreeFrom P True Eq m m e f) : (m.runFrom e).1 = (m.runFrom f).1 := by
  obtain ⟨hresults, -⟩ | ⟨hcertain, -⟩ := h
  · generalize (m.runFrom e).1 = result, (m.runFrom f).1 = result' at hresults
    obtain ⟨rfl⟩ | ⟨rfl⟩ := hresults <;> rfl
  · exact absurd trivial hcertain

/-! ## What is recalled -/

/-- The later engine has more imports on the same registry, and it answers alike what decided in the earlier
one what the name stands for, unless a lookup failed there. -/
structure Recalls (name : String) (e later : Engine) : Prop where
  registry : later.provider.registry = e.provider.registry
  imports : e.imports <+: later.imports
  qualified : ∀ t member, NoLookupFails ((resolveMember t member .any false).runFrom e).1 →
    (resolve name none).runFrom e = (resolveMember t member .any false).runFrom e →
    ((resolveMember t member .any false).runFrom later).1 = ((resolveMember t member .any false).runFrom e).1
  seek : ∀ member, e.plainMember? name = some member → NoLookupFails ((seek name member e.imports).runFrom e).1 →
    ((Engine.seek name member e.imports).runFrom later).1 = ((Engine.seek name member e.imports).runFrom e).1

/-- **An engine that differs in more imports only answers alike.** -/
theorem recalls_of_widens (h : e.Widens k) : e.Recalls name k := by
  have hmatches : k.Matches (fun _ => True) True e :=
    ⟨.of_records (congrArg Provider.registry h.provider) h.settings h.root h.records,
      fun _ => .inr ⟨h.provider, fun t => by rw [h.records]⟩⟩
  refine ⟨congrArg Provider.registry h.provider, h.imports, fun t member _ _ => ?_, fun member _ _ => ?_⟩
  · exact eq_of_agreeFrom (resolveMember_agreeFrom trivial hmatches t)
  · exact eq_of_agreeFrom (seek_agreeFrom e.imports hmatches)

theorem stable_root (root : Option Ty) : Stable (fun _ => True) fun e => e.root = root where
  spelled _ := trivial
  report _ h := h
  withImports _ h := h
  withOutages _ h := h
  resolveMember {e} t member origin bindReceiver _ h :=
    (resolveMember_keeps_setup (f := e) t member origin bindReceiver e (.refl e)).2.root.trans h

/-- **An engine that has resolved the name answers alike,** whatever is done with it after that. -/
theorem recalls_of_leadsTo (h : ((resolve name none).runFrom e).2.LeadsTo k) (himports : e.imports <+: k.imports) :
    e.Recalls name k := by
  have hgrows : ((resolve name none).runFrom e).2.GrowsInto k := h.of_stable (stable_growsInto _) (.refl _)
  have hroot : k.root = e.root :=
    h.of_stable (stable_root e.root) (((stable_root e.root).keeps_resolve name none e rfl).2)
  have hregistry : k.provider.registry = e.provider.registry := by
    have hresolved := ((stable_growsInto e).keeps_resolve name none e (.refl e)).2
    exact hgrows.registry.trans hresolved.registry
  refine ⟨hregistry, himports, fun t member hsettled hresolve => ?_, fun member hmember hsettled => ?_⟩
  · rw [hresolve] at hgrows
    rw [(resolveMember_lasts t member .any false).repeats hsettled hgrows hroot]
  · rw [runFrom_resolve hmember] at hgrows
    rw [(seek_lasts name member e.imports).repeats hsettled hgrows hroot]

theorem Recalls.findType?_eq (h : e.Recalls name k) (typeName : String) :
    k.findType? typeName = e.findType? typeName := by
  unfold findType? hierarchy
  rw [h.registry]

theorem Recalls.plainMember?_eq (h : e.Recalls name k) : k.plainMember? name = e.plainMember? name := by
  unfold plainMember?
  simp only [h.findType?_eq]

/-- **The later resolution goes on where the earlier one ended:** with an error or a value of the root scope it
ends, and with what the imports gave it asks the new ones. -/
theorem Recalls.resolve_eq (h : e.Recalls name k) (hmember : e.plainMember? name = some member)
    (hsettled : NoLookupFails ((Engine.seek name member e.imports).runFrom e).1) :
    ∃ more k₁, k₁.hierarchy = e.hierarchy ∧ ((resolve name none).runFrom k).1 =
      match ((Engine.seek name member e.imports).runFrom e).1 with
      | .error err => .error err
      | .ok (.root value) => .ok (some value)
      | .ok (.imports found) => ((searchImports name more found).runFrom k₁).1.map (Option.map Prod.fst) := by
  obtain ⟨more, hmore⟩ := h.imports
  have hrecalled := h.seek member hmember hsettled
  have hsetup := (seek_lasts name member e.imports).setup k
  have hhierarchy : k.hierarchy = e.hierarchy := congrArg Registry.hierarchy h.registry
  refine ⟨more, ((Engine.seek name member e.imports).runFrom k).2, hsetup.hierarchy_eq.trans hhierarchy, ?_⟩
  rw [runFrom_resolve (h.plainMember?_eq.trans hmember), ← hmore, seek_append, runFrom_bind, ← hrecalled]
  cases (Engine.seek name member e.imports).runFrom k with
  | mk result k₁ =>
    obtain err | value | found := result
    · rfl
    · rfl
    · dsimp only
      rw [runFrom_bind]
      cases (searchImports name more found).runFrom k₁ with
      | mk result k₂ => cases result <;> rfl

/-! ## What stays of a meaning -/

/-- A search that ends with a value has asked all imports, and what it gives is the first of their answers. -/
theorem answers_of_searchImports {imports : List Import} {found result : Option (Value × Ty)}
    (h : (searchImports name imports found).runFrom e = (.ok result, f)) :
    ∃ answers, (imports.mapM (Import.answer name)).runFrom e = (.ok answers, f) ∧
      result = (found.toList ++ answers.reduceOption).head? := by
  induction imports generalizing found e with
  | nil =>
    cases h
    exact ⟨[], rfl, by cases result <;> rfl⟩
  | cons i rest ih =>
    rw [searchImports_cons] at h
    obtain ⟨answer, e₁, hanswer, h⟩ := exists_of_bind_eq_ok h
    have hcons {answers : List (Option (Value × Ty))}
        (hrest : (rest.mapM (Import.answer name)).runFrom e₁ = (.ok answers, f)) :
        ((i :: rest).mapM (Import.answer name)).runFrom e = (.ok (answer :: answers), f) := by
      rw [List.mapM_cons, runFrom_bind, hanswer]
      dsimp only
      rw [runFrom_bind, hrest]
      rfl
    cases answer with
    | none =>
      obtain ⟨answers, hrest, hresult⟩ := ih h
      exact ⟨none :: answers, hcons hrest, by rwa [List.reduceOption_cons_of_none]⟩
    | some later =>
      cases found with
      | none =>
        obtain ⟨answers, hrest, hresult⟩ := ih h
        exact ⟨some later :: answers, hcons hrest, by rwa [List.reduceOption_cons_of_some]⟩
      | some first =>
        dsimp only at h
        split at h
        · rw [runFrom_get_bind, runFrom_throw] at h
          cases h
        · obtain ⟨answers, hrest, hresult⟩ := ih h
          exact ⟨some later :: answers, hcons hrest, hresult⟩

/-- The imports supply values for the name, and the first of them is this one, from this scope. -/
def FirstSupplied (e : Engine) (name : String) (member : MemberName) (v : Value) (scope : Ty) : Prop :=
  ∃ e₁ e₂ others, (resolveRoot member).runFrom e = (.ok none, e₁) ∧
    (supplied name e.imports).runFrom e₁ = (.ok ((v, scope) :: others), e₂)

/-- What the root scope leaves unbound is left to the imports. -/
theorem seek_of_root_none (name : String) (hroot : (resolveRoot member).runFrom e = (.ok none, f))
    (imports : List Import) :
    ((seek name member imports).runFrom e).1 =
      ((searchImports name imports none).runFrom f).1.map Sought.imports := by
  unfold seek
  rw [runFrom_bind, hroot]
  dsimp only
  rw [runFrom_bind]
  cases (searchImports name imports none).runFrom f with
  | mk result k => cases result <;> rfl

/-- A name that the imports bind was found in the first scope that supplies a value. -/
theorem exists_firstSupplied (hmember : e.plainMember? name = some member)
    (hroot : ((resolveRoot member).runFrom e).1 = .ok none) (hv : ((resolve name none).runFrom e).1 = .ok (some v)) :
    ∃ scope, ((seek name member e.imports).runFrom e).1 = .ok (.imports (some (v, scope))) ∧
      e.FirstSupplied name member v scope := by
  rw [runFrom_resolve hmember] at hv
  cases hrun : (resolveRoot member).runFrom e with
  | mk result e₁ =>
    rw [hrun] at hroot
    cases hroot
    have hseek := seek_of_root_none name hrun e.imports
    rw [hseek] at hv ⊢
    cases hsearch : (searchImports name e.imports none).runFrom e₁ with
    | mk result e₂ =>
      rw [hsearch] at hv
      obtain err | _ | ⟨w, scope⟩ := result
      · cases hv
      · cases hv
      · cases hv
        obtain ⟨answers, hanswers, hfirst⟩ := answers_of_searchImports hsearch
        obtain ⟨others, hothers⟩ := List.head?_eq_some_iff.1 hfirst.symm
        refine ⟨scope, rfl, e₁, e₂, others, hrun, ?_⟩
        unfold supplied
        rw [runFrom_bind, hanswers]
        exact congrArg (fun values => (Except.ok values, e₂)) hothers

/-- What a name without a scope stands for. -/
def meaning (e : Engine) (name : String) : Except DispatchError (Option Value) := ((resolve name none).runFrom e).1

/-- What the name stood for is what it stands for in the later engine, unless a lookup fails; but a value from
the imports may have become ambiguous. -/
structure KeepsMeaning (name : String) (e later : Engine) : Prop where
  selector : ∀ member, Name.classify name = .selector member → later.meaning name = e.meaning name
  qualified : ∀ typeName member whole t, Name.classify name = .qualified typeName member whole →
    e.findType? typeName = some t → NoLookupFails (e.meaning name) → later.meaning name = e.meaning name
  root : ∀ member v, e.plainMember? name = some member → ((resolveRoot member).runFrom e).1 = .ok (some v) →
    e.meaning name = .ok (some v) ∧ later.meaning name = .ok (some v)
  /-- The value, or an error that names first the scope that supplied it. -/
  imported : ∀ member v, e.plainMember? name = some member → ((resolveRoot member).runFrom e).1 = .ok none →
    e.meaning name = .ok (some v) → ∃ scope, e.FirstSupplied name member v scope ∧
      (NoLookupFails (later.meaning name) → later.meaning name = .ok (some v) ∨
        ∃ second, later.meaning name = .error (.ambiguousImport name (e.hierarchy.typeName scope) second))
  ambiguous : ∀ first second, e.meaning name = .error (.ambiguousImport name first second) →
    later.meaning name = .error (.ambiguousImport name first second)

/-- The error that a name is ambiguous comes from the imports. -/
theorem exists_seek_of_ambiguous {first second : String}
    (hambiguous : e.meaning name = .error (.ambiguousImport name first second)) :
    ∃ member, e.plainMember? name = some member ∧
      ((seek name member e.imports).runFrom e).1 = .error (.ambiguousImport name first second) := by
  cases hmember : e.plainMember? name with
  | some member =>
    refine ⟨member, rfl, ?_⟩
    rw [meaning, runFrom_resolve hmember] at hambiguous
    generalize ((seek name member e.imports).runFrom e).1 = result at hambiguous ⊢
    obtain _ | _ := result <;> cases hambiguous
    rfl
  | none =>
    unfold meaning at hambiguous
    unfold plainMember? at hmember
    split at hmember
    · rename_i hselector
      rw [resolve_of_selector hselector, runFrom_pure] at hambiguous
      cases hambiguous
    · rename_i typeName qualifiedMember whole hqualified
      split at hmember
      · rename_i hfound
        obtain ⟨t, ht⟩ := Option.isSome_iff_exists.1 hfound
        rw [resolve_of_qualified hqualified ht] at hambiguous
        exact absurd ((resolveMember_failsOnLookup t qualifiedMember .any false e trivial).1 _ hambiguous) id
      · cases hmember
    · cases hmember

/-- **An engine that recalls what decided the meaning of a name keeps it.** -/
theorem Recalls.keepsMeaning (h : e.Recalls name k) : e.KeepsMeaning name k where
  selector member hselector := by
    rw [meaning, meaning, resolve_of_selector hselector, runFrom_pure, runFrom_pure]
  qualified typeName member whole t hqualified ht hsettled := by
    have hlater := resolve_of_qualified hqualified ((h.findType?_eq typeName).trans ht) none
    have hresolve := resolve_of_qualified hqualified ht none
    rw [meaning, hresolve] at hsettled
    rw [meaning, meaning, hlater, hresolve]
    exact h.qualified t member hsettled hresolve
  root member v hmember hroot := by
    have hseek : ((Engine.seek name member e.imports).runFrom e).1 = .ok (.root v) := by
      unfold Engine.seek
      rw [runFrom_bind]
      generalize (resolveRoot member).runFrom e = ran at hroot ⊢
      obtain ⟨_, e₁⟩ := ran
      cases hroot
      rfl
    obtain ⟨_, _, _, hlater⟩ := h.resolve_eq hmember (by rw [hseek]; exact nofun)
    rw [hseek] at hlater
    refine ⟨?_, hlater⟩
    rw [meaning, runFrom_resolve hmember, hseek]
    rfl
  imported member v hmember hroot hv := by
    obtain ⟨scope, hseek, hfirst⟩ := exists_firstSupplied hmember hroot hv
    obtain ⟨more, k₁, hhierarchy, hlater⟩ := h.resolve_eq hmember (by rw [hseek]; exact nofun)
    rw [hseek] at hlater
    dsimp only at hlater
    refine ⟨scope, hfirst, fun hsettled => ?_⟩
    rw [meaning, hlater] at hsettled ⊢
    rw [← hhierarchy]
    obtain hfound | ⟨second, hambiguous⟩ | ⟨err, herr, hlookup⟩ :=
      searchImports_of_found name more (v, scope) k₁
    · exact .inl (by rw [hfound]; rfl)
    · exact .inr ⟨second, by rw [hambiguous]; rfl⟩
    · exact absurd hlookup (hsettled err (by rw [herr]; rfl))
  ambiguous first second hambiguous := by
    obtain ⟨member, hmember, hseek⟩ := exists_seek_of_ambiguous hambiguous
    obtain ⟨_, _, _, hlater⟩ := h.resolve_eq hmember (by rw [hseek]; rintro _ ⟨⟩ ⟨⟩)
    rw [hseek] at hlater
    exact hlater

/-- The later engine is the earlier one with some more imports. Or the name has been resolved in the earlier one,
and since then anything may have been done but that imports were taken away. -/
def GainsImports (name : String) (e later : Engine) : Prop :=
  (∃ added, later = e.addImports added) ∨
    ((resolve name none).runFrom e).2.LeadsTo later ∧ e.imports <+: later.imports

theorem GainsImports.recalls (h : e.GainsImports name k) : e.Recalls name k := by
  obtain ⟨added, rfl⟩ | ⟨hleads, himports⟩ := h
  · exact recalls_of_widens (addImports_widens e added)
  · exact recalls_of_leadsTo hleads himports

end Engine

namespace Interpreter

/-- What a name stands for. -/
def meaning (i : Interpreter) (name : String) : Option (Except RuntimeError (Option Value)) :=
  ((EvalM.lookUp name).runFrom i).map Prod.fst

theorem meaning_of_slot {i : Interpreter} {name : String} {slot : Binding} (hslot : i.bindings.find? name = some slot)
    (k : Engine) : { i with engine := k }.meaning name = i.meaning name := by
  unfold meaning EvalM.lookUp
  rw [EvalM.runFrom_get_bind, EvalM.runFrom_get_bind]
  dsimp only
  rw [hslot]
  cases slot <;> rfl

theorem meaning_of_unbound {i : Interpreter} {name : String} (hunbound : i.bindings.find? name = none) :
    i.meaning name = some ((i.engine.meaning name).mapError .dispatch) := by
  unfold meaning EvalM.lookUp
  rw [EvalM.runFrom_get_bind, hunbound]
  dsimp only
  rw [EvalM.runFrom_dispatch]
  rfl

/-- **Importing is monotone.** Let an engine gain imports, in any state and for any name. A name that the
environment has touched stays what it is; any other stands for what it stands for in the engine. There a
selector, a qualified name of a type, and a name that the root scope binds keep their meaning. A name that
imports bound to a value keeps it, or is ambiguous between the scope that supplied it and another one. An
ambiguous name stays ambiguous between the same scopes. All this unless a lookup fails. Importing a scope again
behind the same prefix changes nothing. -/
theorem importing_is_monotone (i : Interpreter) (name : String) (k : Engine) (hgains : i.engine.GainsImports name k) :
    (∀ slot, i.bindings.find? name = some slot → { i with engine := k }.meaning name = i.meaning name) ∧
    (i.bindings.find? name = none → i.meaning name = some ((i.engine.meaning name).mapError .dispatch) ∧
      { i with engine := k }.meaning name = some ((k.meaning name).mapError .dispatch)) ∧
    i.engine.KeepsMeaning name k ∧
    ∀ again ∈ i.engine.imports, i.engine.addImport again.scope again.qualifier = i.engine :=
  ⟨fun _ hslot => meaning_of_slot hslot k,
    fun hunbound => ⟨meaning_of_unbound hunbound, meaning_of_unbound hunbound⟩,
    hgains.recalls.keepsMeaning, fun _ => Engine.addImport_of_mem⟩

/-- A name that one scope binds, and two more scopes after it was resolved: the first binds it behind a prefix to
an equal value, and the second to another one. A failure of the provider comes in between. -/
theorem importing_is_monotone_of_three :
    let provider : Provider := { registry :=
      { hierarchy := ⟨[⟨"A", []⟩, ⟨"B", []⟩, ⟨"C", []⟩]⟩
        members := [(.host 0, [.constant "foo" (.int 1)]), (.host 1, [.constant "oo" (.int 1)]),
          (.host 2, [.constant "foo" (.int 2)])] } }
    let member : MemberName := { surface := "foo", key := "foo", kind := .method, pin := none }
    let i : Interpreter := { engine := (Engine.new provider {}).addImport (.host 0) none }
    let resolved : Engine := ((Engine.resolve "foo" none).runFrom i.engine).2
    let failing : Engine := { resolved with provider := { resolved.provider with outages := [true] } }
    let failed : Engine := ((Engine.resolve "bar" none).runFrom failing).2
    let k : Engine := (failed.addImport (.host 1) (some "f")).addImport (.host 2) none
    i.engine.GainsImports "foo" k ∧ i.engine.meaning "foo" = .ok (some (.int 1)) ∧
      k.meaning "foo" = .error (.ambiguousImport "foo" "A" "C") ∧
      ∃ scope second, i.engine.FirstSupplied "foo" member (.int 1) scope ∧
        k.meaning "foo" = .error (.ambiguousImport "foo" (i.engine.hierarchy.typeName scope) second) := by
  intro provider member i resolved failing failed k
  have hfailed : resolved.LeadsTo failed := (Engine.LeadsTo.refl.withOutages [true]).resolve "bar" none
  have hk : resolved.LeadsTo k :=
    (Engine.stable_leadsTo resolved).addImport _ _ ((Engine.stable_leadsTo resolved).addImport _ _ hfailed)
  have hmore : i.engine.imports <+: k.imports := ⟨[⟨.host 1, some "f"⟩, ⟨.host 2, none⟩], by decide +kernel⟩
  have hgains : i.engine.GainsImports "foo" k := .inr ⟨hk, hmore⟩
  have hmember : i.engine.plainMember? "foo" = some member := by decide +kernel
  have hroot : ((Engine.resolveRoot member).runFrom i.engine).1 = .ok none := by decide +kernel
  have hone : i.engine.meaning "foo" = .ok (some (.int 1)) := by decide +kernel
  have hambiguous : k.meaning "foo" = .error (.ambiguousImport "foo" "A" "C") := by decide +kernel
  refine ⟨hgains, hone, hambiguous, ?_⟩
  have hkeeps := (importing_is_monotone i "foo" k hgains).2.2.1
  obtain ⟨scope, hfirst, hlater⟩ := hkeeps.imported member (.int 1) hmember hroot hone
  obtain hsame | ⟨second, hsecond⟩ := hlater (by rw [hambiguous]; rintro _ ⟨⟩ ⟨⟩)
  · rw [hambiguous] at hsame
    cases hsame
  · exact ⟨scope, second, hfirst, hsecond⟩

end Interpreter

end Multimethod
