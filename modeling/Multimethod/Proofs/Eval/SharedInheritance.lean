import Multimethod.Proofs.Engine.Inheritance
import Multimethod.Proofs.Eval.AmbiguousImports
import Multimethod.Proofs.Eval.MoreSpecific
import Multimethod.Proofs.Eval.WellFormedEntries

/-!
# Shared inheritance

Scopes that inherit a name from one type supply one procedure, so importing all of them leaves the name
unambiguous: `Engine.shared_inheritance_unambiguous`. The name may still be an error, where a lookup fails. A
scope below a type that is not declared cannot be looked up on:
`Engine.shared_inheritance_fails_undeclared`.

* `Engine.resolve_of_agreeing` — a name whose imports agree stands for a value that they agree on.
* `Engine.LeadsTo.handedOn` — inherited candidates are those that are kept on the supertypes, and on the type
  that declares them.
* `Engine.mayEnd_of_heir` — an import that inherits from a type gives what the type gives.
-/

namespace Multimethod

open DispatchM

/-- The import shows what `base` declares for the lookup, and nothing else: it has no prefix, its scope is
`base` or a type below it, and of the scope and all types above it `base` alone declares anything. -/
structure Import.Inherits (r : Registry) (key : LookupKey) (base : Ty) (i : Import) : Prop where
  unprefixed : i.qualifier = none
  leads : r.hierarchy.Leads i.scope base
  only : ∀ t, r.hierarchy.Leads i.scope t → t ≠ base → r.DeclaresNothing key t

namespace Engine

variable {e f g k : Engine} {name : String} {member : MemberName}

/-- The engine may come to the other, and no failure of its provider is due there if none was. -/
def MayReach (e f : Engine) : Prop := e.LeadsTo f ∧ (e.provider.outages = [] → f.provider.outages = [])

/-- A lookup that the name asks for fails with the error: that on the root scope, or that of an import. -/
def LookupFails (e : Engine) (name : String) (member : MemberName) (err : DispatchError) : Prop :=
  ((resolveRoot member).runFrom e).1 = .error err ∨
    ∃ i ∈ e.imports, MayEnd e.MayReach (i.answer name) (.error err)

theorem LeadsTo.trans (hef : e.LeadsTo f) (hfg : f.LeadsTo g) : e.LeadsTo g :=
  hfg.of_stable (stable_leadsTo e) hef

theorem LeadsTo.resolve (hef : e.LeadsTo f) (name : String) (scope : Option Ty) :
    e.LeadsTo ((Engine.resolve name scope).runFrom f).2 :=
  ((stable_leadsTo e).keeps_resolve name scope f hef).2

/-! ## Equations -/

theorem runFrom_answer {i : Import} (hmember : i.member? name = some member) (e : Engine) :
    (i.answer name).runFrom e =
      ((((resolveMember i.scope member .any false).runFrom e).1.map (Option.map (·, i.scope))),
        ((resolveMember i.scope member .any false).runFrom e).2) := by
  unfold Import.answer
  rw [hmember]
  simp only
  rw [runFrom_bind]
  cases (resolveMember i.scope member .any false).runFrom e with
  | mk result e' => cases result <;> rfl

theorem member?_of_unprefixed {i : Import} (hplain : Name.classify name = .plain member)
    (hunprefixed : i.qualifier = none) : i.member? name = some member := by
  unfold Import.member? Import.localName?
  rw [hunprefixed]
  simp only [Option.map_some, hplain]

/-- Where the lookup on the root scope fails, the name fails with its error. -/
theorem resolve_of_root_error (hplain : Name.classify name = .plain member) {err : DispatchError}
    (hroot : (resolveRoot member).runFrom e = (.error err, f)) :
    ((resolve name none).runFrom e).1 = .error err := by
  rw [resolve_of_plain hplain]
  unfold resolvePlain
  simp only [runFrom_bind, hroot]

section faithful

variable {r : Registry} {config : EngineConfig} {base : Ty} {lookup : Lookup} {surface : String} {v : Value}

/-! ## The lookups of a name -/

theorem keeps_mayReach (hpaths : r.hierarchy.PathsWithin 64)
    (hk : k.Faithful r hpaths.wellFounded config fun _ => True) (t : Ty) (member : MemberName)
    (origin : OriginFilter) (bindReceiver : Bool) :
    Keeps k.MayReach (resolveMember t member origin bindReceiver) fun result =>
      ∀ err, result = .error err → err.IsOfLookup := by
  rintro f ⟨hf, houtages⟩
  have hfaithful := hf.of_stable (stable_faithful hpaths config fun _ _ => trivial) hk
  have hresolves : Keeps (FaithfulIf r hpaths.wellFounded config (fun _ => True) (k.provider.outages = []))
      (resolveMember t member origin bindReceiver) _ :=
    resolveMember_answers trivial (hpaths.within t) origin bindReceiver
  obtain ⟨hanswer, hkeeps⟩ := hresolves f ⟨hfaithful, houtages⟩
  refine ⟨fun err herr => ?_, hf.resolveMember t member origin bindReceiver, hkeeps.outages⟩
  rw [herr] at hanswer
  obtain hanswer | ⟨-, err', hlisting, herr'⟩ := hanswer
  · exact Registry.isOfLookup_of_lookUp hpaths.wellFounded hanswer.lookUp_eq_error
  · cases herr'
    cases err with
    | listing => trivial
    | _ => cases hlisting

theorem answer_keeps_mayReach (hpaths : r.hierarchy.PathsWithin 64)
    (hk : k.Faithful r hpaths.wellFounded config fun _ => True) (name : String) (i : Import) :
    Keeps k.MayReach (i.answer name) fun result => ∀ err, result = .error err → err.IsOfLookup := by
  unfold Import.answer
  cases i.member? name with
  | none => exact Keeps.pure nofun
  | some member =>
    exact (keeps_mayReach hpaths hk i.scope member .any false).bind (fun _ _ => Keeps.pure nofun)
      fun err herr err' h => by cases h; exact herr err rfl

theorem resolveRoot_keeps_mayReach (hpaths : r.hierarchy.PathsWithin 64)
    (hk : k.Faithful r hpaths.wellFounded config fun _ => True) (member : MemberName) :
    Keeps k.MayReach (resolveRoot member) fun result => ∀ err, result = .error err → err.IsOfLookup := by
  unfold resolveRoot
  refine Keeps.get_bind fun f _ => ?_
  cases f.root with
  | none => exact Keeps.pure nofun
  | some root =>
    refine (keeps_mayReach hpaths hk root member .instance true).bind (fun answer _ => ?_)
      fun err herr err' h => by cases h; exact herr err rfl
    cases answer with
    | some value => exact Keeps.pure nofun
    | none => exact keeps_mayReach hpaths hk root member .static false

/-- No lookup fails because a name is ambiguous. -/
theorem LookupFails.isOfLookup (hpaths : r.hierarchy.PathsWithin 64)
    (hk : k.Faithful r hpaths.wellFounded config fun _ => True) {err : DispatchError}
    (h : k.LookupFails name member err) : err.IsOfLookup := by
  obtain hroot | ⟨i, -, f, hf, hi⟩ := h
  · exact (resolveRoot_keeps_mayReach hpaths hk member k ⟨.refl, id⟩).1 err hroot
  · exact (answer_keeps_mayReach hpaths hk name i f hf).1 err hi

/-- **A name whose imports agree** stands for a value that they agree on, or for nothing if no import has a
value; or one of its lookups fails. -/
theorem resolve_of_agreeing (hpaths : r.hierarchy.PathsWithin 64)
    (hk : k.Faithful r hpaths.wellFounded config fun _ => True) (hplain : Name.classify name = .plain member)
    (hroot : ∀ w, ((resolveRoot member).runFrom k).1 ≠ .ok (some w))
    (hequal : ∀ i ∈ k.imports, ∀ p, MayEnd k.MayReach (i.answer name) (.ok (some p)) → p.1.equal v) :
    let result := ((resolve name none).runFrom k).1
    (∃ w, result = .ok (some w) ∧ w.equal v) ∨
      (result = .ok none ∧ ∀ i ∈ k.imports, MayEnd k.MayReach (i.answer name) (.ok none)) ∨
      ∃ err, result = .error err ∧ k.LookupFails name member err := by
  intro result
  have hreach := (resolveRoot_keeps_mayReach hpaths hk member k ⟨.refl, id⟩).2
  have hkeeps : ∀ i ∈ k.imports, Keeps k.MayReach (i.answer name) fun _ => True := fun i _ =>
    (answer_keeps_mayReach hpaths hk name i).imp fun _ _ => trivial
  cases hrun : (resolveRoot member).runFrom k with
  | mk found e₁ =>
    rw [hrun] at hroot hreach
    match found with
    | .error err =>
      exact .inr (.inr ⟨err, resolve_of_root_error hplain hrun, .inl (congrArg Prod.fst hrun)⟩)
    | .ok (some w) => exact absurd rfl (hroot w)
    | .ok none =>
      have hresult : result = _ := resolve_eq_search hplain hrun
      have hsearch := (searchImports_of_agreeing hkeeps hequal none nofun e₁ hreach).1
      rw [hresult]
      generalize ((searchImports name k.imports none).runFrom e₁).1 = outcome at hsearch
      match outcome with
      | .ok (some p) => exact .inl ⟨p.1, rfl, hsearch⟩
      | .ok none => exact .inr (.inl ⟨rfl, hsearch.2⟩)
      | .error err => exact .inr (.inr ⟨err, rfl, .inr hsearch⟩)

/-! ## Imports that inherit -/

theorem exists_lookUp_of_resolve (hpaths : r.hierarchy.PathsWithin 64)
    (he : e.Faithful r hpaths.wellFounded config fun _ => True) (hplain : Name.classify name = .plain member)
    (hbase : (resolve name (some base)).runFrom e = (.ok (some v), f)) :
    ∃ lookup surface, r.lookUp (member.lookup .any false) hpaths.wellFounded base = .ok lookup ∧
      lookup.value? r.hierarchy config surface base member.pin = some v := by
  rw [resolve_of_plain hplain] at hbase
  change (resolveMember base member .any false).runFrom e = _ at hbase
  have hresolves : Keeps (Faithful r hpaths.wellFounded config fun _ => True)
      (resolveMember base member .any false) _ :=
    resolveMember_keeps trivial (hpaths.within base) .any false
  have hanswer := (hresolves e he).1
  rw [hbase] at hanswer
  obtain hanswer | ⟨err, -, herr⟩ := hanswer
  · obtain ⟨lookup, surface, hlookUp, hvalue⟩ := hanswer.exists_lookup
    exact ⟨lookup, surface, hlookUp, hvalue.symm⟩
  · cases herr

/-- **An import that inherits from the base gives what the base gives,** unless a type cannot be listed. -/
theorem mayEnd_of_heir (hpaths : r.hierarchy.PathsWithin 64)
    (hk : k.Faithful r hpaths.wellFounded config fun _ => True) (hplain : Name.classify name = .plain member)
    (hbase : r.lookUp (member.lookup .any false) hpaths.wellFounded base = .ok lookup)
    (hvalue : lookup.value? r.hierarchy config surface base member.pin = some v) {i : Import}
    (hheir : i.Inherits r (member.lookup .any false) base)
    {result : Except DispatchError (Option (Value × Ty))} (hends : MayEnd k.MayReach (i.answer name) result) :
    (∃ w, result = .ok (some (w, i.scope)) ∧ v.Same w) ∨
      ∃ err, result = .error err ∧ err.IsListing ∧ (k.provider.outages = [] → ¬ r.IsListed i.scope) := by
  obtain ⟨f, ⟨hf, houtages⟩, rfl⟩ := hends
  rw [runFrom_answer (member?_of_unprefixed hplain hheir.unprefixed)]
  have hresolves : Keeps (FaithfulIf r hpaths.wellFounded config (fun _ => True) (k.provider.outages = []))
      (resolveMember i.scope member .any false) _ :=
    resolveMember_answers trivial (hpaths.within i.scope) .any false
  have hfaithful := hf.of_stable (stable_faithful hpaths config fun _ _ => trivial) hk
  obtain ⟨written, -, -, hanswer⟩ | ⟨hdue, err, hlisting, herr⟩ := (hresolves f ⟨hfaithful, houtages⟩).1
  · rw [hanswer]
    obtain hlookUp | ⟨err, hlisting, hlookUp, hunlisted⟩ :=
      Registry.lookUp_of_heir hpaths.wellFounded hbase hheir.leads hheir.only
    · have halike := lookup.value?_alike r.hierarchy config surface written.surface base i.scope member.pin
      rw [hvalue] at halike
      rw [hlookUp]
      left
      change ∃ w, Except.ok (Option.map _ (lookup.value? r.hierarchy config written.surface i.scope member.pin)) =
        _ ∧ _
      generalize lookup.value? r.hierarchy config written.surface i.scope member.pin = answer at halike ⊢
      cases halike with
      | @some _ w hsame => exact ⟨w, rfl, hsame⟩
    · rw [hlookUp]
      exact .inr ⟨err, rfl, hlisting, fun _ => hunlisted⟩
  · rw [herr]
    exact .inr ⟨err, rfl, hlisting, fun hnone => absurd hnone hdue⟩

end faithful

/-- **A candidate that is kept is handed on by the types above.** In any state of an engine, on circles too, it
is declared by the type that it is kept on, or it is kept on one of the supertypes as well; and it is kept on
the type that declares it. -/
theorem LeadsTo.handedOn {provider : Provider} {config : EngineConfig}
    (he : (Engine.new provider config).LeadsTo e) {t : Ty} {key : LookupKey} {c : Candidate}
    (hc : e.KeepsCandidate t key c) :
    (c ∈ key.candidatesAmong t (provider.registry.membersOf t).zipIdx ∨
      ∃ s, provider.registry.hierarchy.Above s t ∧ e.KeepsCandidate s key c) ∧
    e.KeepsCandidate c.owner key c := by
  have hrule := answerRule_isHandedOn provider.registry config
  have hobeys := he.of_stable (hrule.stable fun _ => trivial) (obeys_new provider config)
  refine ⟨?_, hobeys.keepsCandidate_owner hc⟩
  obtain ⟨cs, hcs, hc⟩ := hc
  exact (hobeys.answers hcs c hc).imp_right And.left

theorem exists_procedure_of_equal {v : Value} {p : Callable} (h : v.equal (.procedure p)) :
    ∃ q, v = .procedure q ∧ q.sameDispatch p := by
  cases v with
  | procedure q => exact ⟨q, rfl, h⟩
  | _ => cases h

/-- **Shared inheritance is never ambiguous.** On a registry whose paths of supertypes have at most 64 steps,
let a plain name stand for a procedure on a type. In any later state of the engine, let the root scope not
bind the name, and let each import either show what this type declares for the name and nothing else, as one
of them does at least, or never have a value for the name. Then the name is not ambiguous. It stands for a
procedure of the same dispatch, unless the lookup on the root scope or that of an import fails. An import that
shows what the type declares fails in a failure of the provider, or if a type above its scope cannot be
listed, and in no other way. -/
theorem shared_inheritance_unambiguous {provider : Provider} {config : EngineConfig} {e e' k : Engine}
    {name : String} {member : MemberName} {base : Ty} {p : Callable}
    (hpaths : provider.registry.hierarchy.PathsWithin 64)
    (he : (Engine.new provider config).LeadsTo e) (hplain : Name.classify name = .plain member)
    (hbase : (resolve name (some base)).runFrom e = (.ok (some (.procedure p)), e')) (hk : e'.LeadsTo k)
    (hroot : ∀ v, ((resolveRoot member).runFrom k).1 ≠ .ok (some v))
    (hheir : ∃ i ∈ k.imports, i.Inherits provider.registry (member.lookup .any false) base)
    (hothers : ∀ i ∈ k.imports, ¬ i.Inherits provider.registry (member.lookup .any false) base →
      ∀ v, ¬ MayEnd k.MayReach (i.answer name) (.ok (some v))) :
    let result := ((resolve name none).runFrom k).1
    ¬ IsAmbiguous name result ∧
    ((∃ q, result = .ok (some (.procedure q)) ∧ q.sameDispatch p) ∨
      ∃ err, result = .error err ∧ k.LookupFails name member err) ∧
    ∀ i ∈ k.imports, i.Inherits provider.registry (member.lookup .any false) base →
      ∀ err, MayEnd k.MayReach (i.answer name) (.error err) →
        err.IsListing ∧ (k.provider.outages = [] → ¬ provider.registry.IsListed i.scope) := by
  intro result
  have hfaithful {f : Engine} (hf : (Engine.new provider config).LeadsTo f) :
      f.Faithful provider.registry hpaths.wellFounded config fun _ => True :=
    hf.of_stable (stable_faithful hpaths config fun _ _ => trivial) (faithful_new provider hpaths.wellFounded)
  have he' := he.resolve name (some base)
  rw [hbase] at he'
  have hkfaithful := hfaithful (he'.trans hk)
  obtain ⟨lookup, surface, hlookUp, hvalue⟩ := exists_lookUp_of_resolve hpaths (hfaithful he) hplain hbase
  have hends {i : Import} (hi : i.Inherits provider.registry (member.lookup .any false) base)
      {answer : Except DispatchError (Option (Value × Ty))} (h : MayEnd k.MayReach (i.answer name) answer) :=
    mayEnd_of_heir hpaths hkfaithful hplain hlookUp hvalue hi h
  have hequal : ∀ i ∈ k.imports, ∀ found, MayEnd k.MayReach (i.answer name) (.ok (some found)) →
      found.1.equal (.procedure p) := by
    intro i hi found hfound
    by_cases hinherits : i.Inherits provider.registry (member.lookup .any false) base
    · obtain ⟨w, hw, hsame⟩ | ⟨err, herr, -⟩ := hends hinherits hfound
      · cases hw
        exact hsame.equal_of_equal (.inl rfl) (Value.equal_self _)
      · cases herr
    · exact absurd hfound (hothers i hi hinherits found)
  have hresolved := resolve_of_agreeing hpaths hkfaithful hplain hroot hequal
  refine ⟨?_, ?_, ?_⟩
  · rintro ⟨first, second, hambiguous⟩
    obtain ⟨w, hw, -⟩ | ⟨hnone, -⟩ | ⟨err, herr, hfails⟩ := hresolved
    · cases hw.symm.trans hambiguous
    · cases hnone.symm.trans hambiguous
    · cases herr.symm.trans hambiguous
      cases hfails.isOfLookup hpaths hkfaithful
  · obtain ⟨w, hw, hsame⟩ | ⟨-, hnone⟩ | hfails := hresolved
    · obtain ⟨q, rfl, hsame⟩ := exists_procedure_of_equal hsame
      exact .inl ⟨q, hw, hsame⟩
    · -- one import has a value, or its lookup fails
      obtain ⟨i, hi, hinherits⟩ := hheir
      obtain ⟨w, hw, -⟩ | ⟨err, herr, -⟩ := hends hinherits (hnone i hi)
      · cases hw
      · cases herr
    · exact .inr hfails
  · intro i _ hinherits err herr
    obtain ⟨w, hw, -⟩ | ⟨err', herr', hlisting⟩ := hends hinherits herr
    · cases hw
    · cases herr'
      exact hlisting

/-- The bottom of a diamond and one of its sides. A failure of the provider ends a lookup after the first
import, and one more import has a prefix that the name does not bear. -/
theorem shared_inheritance_unambiguous_of_diamond :
    let f (param : Ty) : Member :=
      { key := "f", kind := .method, params := [param], ret := .text, body := .constant .null }
    let provider : Provider := { registry :=
      { hierarchy := ⟨[⟨"Base", []⟩, ⟨"Left", [.host 0]⟩, ⟨"Right", [.host 0]⟩,
          ⟨"Bottom", [.host 1, .host 2]⟩, ⟨"Other", []⟩, ⟨"sioc", []⟩]⟩
        members := [(.host 0, [f .int, f .text])] } }
    let steps : List Step := [.addImport (.host 3) none, .setOutages [false, false, true], .get "f",
      .addImport (.host 4) (some "x."), .addImport (.host 1) none]
    ∃ (p q : Callable) (e' : Engine) (results : List (Except RuntimeError (Option Value))) (j : Interpreter),
      (resolve "f" (some (.host 0))).runFrom (.new provider {}) = (.ok (some (.procedure p)), e') ∧
      Step.runAll 1 steps { engine := e' } = some (results, j) ∧
      j.engine.imports = [⟨.host 3, none⟩, ⟨.host 4, some "x."⟩, ⟨.host 1, none⟩] ∧
      ((resolve "f" none).runFrom j.engine).1 = .ok (some (.procedure q)) ∧ p ≠ q ∧ q.sameDispatch p := by
  intro f provider steps
  have hpaths : provider.registry.hierarchy.PathsWithin 64 :=
    (Hierarchy.pathsWithin_of_precedes (by decide)).mono (by decide)
  let member : MemberName := { surface := "f", key := "f", kind := .method, pin := none }
  have hplain : Name.classify "f" = .plain member := by decide +kernel
  let ran := (resolve "f" (some (.host 0))).runFrom (.new provider {})
  have hfound : (resolvedCallable? ran.1).any fun p =>
      (Step.runAll 1 steps { engine := ran.2 }).any fun ran =>
        ran.2.engine.imports = [⟨.host 3, none⟩, ⟨.host 4, some "x."⟩, ⟨.host 1, none⟩] &&
        (((resolveRoot member).runFrom ran.2.engine).1.toOption.bind id).isNone &&
        (resolvedCallable? ((resolve "f" none).runFrom ran.2.engine).1).any fun q => p ≠ q := by
    decide +kernel
  obtain ⟨p, hp, hfound⟩ := (Option.any_eq_true _ _).1 hfound
  obtain ⟨⟨results, j⟩, hrun, hfound⟩ := (Option.any_eq_true _ _).1 hfound
  obtain ⟨hfound, hq⟩ := Bool.and_eq_true_iff.1 hfound
  obtain ⟨himports, hnone⟩ := Bool.and_eq_true_iff.1 hfound
  obtain ⟨q, hq, hne⟩ := (Option.any_eq_true _ _).1 hq
  have himports := of_decide_eq_true himports
  have hp : ran = (.ok (some (.procedure p)), ran.2) := Prod.ext (eq_of_resolvedCallable? hp) rfl
  have hq := eq_of_resolvedCallable? hq
  have hk : ran.2.LeadsTo j.engine := (stable_leadsTo ran.2).keeps_runAll (i := { engine := ran.2 })
    (fun _ _ _ _ => trivial) .refl hrun
  have hroot : ∀ v, ((resolveRoot member).runFrom j.engine).1 ≠ .ok (some v) := by
    intro v hv
    rw [hv] at hnone
    cases hnone
  have hnothing : ∀ t, t ≠ .host 0 → provider.registry.DeclaresNothing (member.lookup .any false) t := by
    intro t ht
    exact Registry.declaresNothing_of_membersOf (by simp [Registry.membersOf, provider, ht.symm])
  have hheir (scope : Ty) (hleads : provider.registry.hierarchy.Leads scope (.host 0)) :
      Import.Inherits provider.registry (member.lookup .any false) (.host 0) ⟨scope, none⟩ :=
    ⟨rfl, hleads, fun t _ => hnothing t⟩
  have hleft : provider.registry.hierarchy.Leads (.host 1) (.host 0) :=
    .single (by decide : .host 0 ∈ provider.registry.hierarchy.supertypes (.host 1))
  have hbottom : provider.registry.hierarchy.Leads (.host 3) (.host 0) :=
    .head (by decide : .host 1 ∈ provider.registry.hierarchy.supertypes (.host 3)) hleft
  have hothers : ∀ i ∈ j.engine.imports,
      ¬ i.Inherits provider.registry (member.lookup .any false) (.host 0) →
        ∀ v, ¬ MayEnd j.engine.MayReach (i.answer "f") (.ok (some v)) := by
    rw [himports]
    simp only [List.forall_mem_cons]
    refine ⟨fun h => absurd (hheir _ hbottom) h, ?_, fun h => absurd (hheir _ hleft) h, by simp⟩
    rintro - v ⟨g, -, hanswer⟩
    cases hanswer
  obtain ⟨-, hresolved, -⟩ := shared_inheritance_unambiguous hpaths .refl hplain hp hk hroot
    ⟨⟨.host 3, none⟩, by rw [himports]; exact List.mem_cons_self, hheir _ hbottom⟩ hothers
  rw [hq] at hresolved
  obtain ⟨q', hq', hsame⟩ | ⟨err, herr, -⟩ := hresolved
  · cases hq'
    exact ⟨p, q, ran.2, results, j, hp, hrun, himports, hq, of_decide_eq_true hne, hsame⟩
  · cases herr

/-- A scope below the base and below a type that is not declared cannot be looked up on. Once it is imported,
the name is an error, though on the base it stands for a procedure. -/
theorem shared_inheritance_fails_undeclared :
    let f : Member :=
      { key := "f", kind := .method, params := [.int], ret := .text, body := .constant .null }
    let provider : Provider := { registry :=
      { hierarchy := ⟨[⟨"Base", []⟩, ⟨"Heir", [.host 0, .host 7]⟩]⟩, members := [(.host 0, [f])] } }
    let member : MemberName := { surface := "f", key := "f", kind := .method, pin := none }
    let e' : Engine := ((resolve "f" (some (.host 0))).runFrom (.new provider {})).2
    let k : Engine := e'.addImport (.host 1) none
    provider.registry.hierarchy.PathsWithin 64 ∧ Name.classify "f" = .plain member ∧
    (∃ p, (resolve "f" (some (.host 0))).runFrom (.new provider {}) = (.ok (some (.procedure p)), e')) ∧
    e'.LeadsTo k ∧ k.imports = [⟨.host 1, none⟩] ∧ k.root = none ∧
    Import.Inherits provider.registry (member.lookup .any false) (.host 0) ⟨.host 1, none⟩ ∧
    ((resolve "f" none).runFrom k).1 = .error (.listing "Host#7" (.unknownHostType 7)) := by
  intro f provider member e' k
  have hpaths : provider.registry.hierarchy.PathsWithin 64 :=
    (Hierarchy.pathsWithin_of_declaredRank (by decide)).mono (by decide)
  have hk : e'.LeadsTo k := (stable_leadsTo e').addImport (.host 1) none .refl
  have hfound : (resolvedCallable? ((resolve "f" (some (.host 0))).runFrom (.new provider {})).1).isSome := by
    decide +kernel
  obtain ⟨p, hp⟩ := Option.isSome_iff_exists.1 hfound
  have himports : k.imports = [⟨.host 1, none⟩] ∧ k.root = none := by decide +kernel
  have hleads : provider.registry.hierarchy.Leads (.host 1) (.host 0) :=
    .single (by decide : .host 0 ∈ provider.registry.hierarchy.supertypes (.host 1))
  have hnothing : ∀ t, t ≠ .host 0 → provider.registry.DeclaresNothing (member.lookup .any false) t := by
    intro t ht
    exact Registry.declaresNothing_of_membersOf (by simp [Registry.membersOf, provider, ht.symm])
  exact ⟨hpaths, by decide +kernel, ⟨p, Prod.ext (eq_of_resolvedCallable? hp) rfl⟩, hk, himports.1,
    himports.2, ⟨rfl, hleads, fun t _ => hnothing t⟩, by decide +kernel⟩

end Engine

end Multimethod
