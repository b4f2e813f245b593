import Multimethod.Proofs.Engine.ImportOrder
import Multimethod.Proofs.Eval.CacheTransparency

/-!
# Imports that disagree

A name that two imports bind to different values is ambiguous, in whatever order the imports were
added: `Engine.disagreeing_imports_ambiguous`. This supposes that the values of each scope agree. A
scope imported behind several prefixes may supply several values, and of these only the first found is
compared with those of other scopes: `Engine.disagreeing_import_passed_over`.
-/

namespace Multimethod.Engine

open DispatchM

/-- The imports decide what the name stands for, and these are the values that they supply: the name
is plain, the root scope does not bind it, and no lookup of an import fails. -/
def ImportsSupply (e : Engine) (name : String) (values : List (Value × Ty)) : Prop :=
  ∃ member e₁ e₂, Name.classify name = .plain member ∧
    (resolveRoot member).runFrom e = (.ok none, e₁) ∧
    (supplied name e.imports).runFrom e₁ = (.ok values, e₂)

/-- Is the result the error that the name is ambiguous? -/
def IsAmbiguous (name : String) (result : Except DispatchError (Option Value)) : Prop :=
  ∃ first second, result = .error (.ambiguousImport name first second)

variable {e : Engine} {name : String} {values : List (Value × Ty)}

theorem importsSupply_of_ok {member : MemberName} (hplain : Name.classify name = .plain member)
    (hroot : ((resolveRoot member).runFrom e).1 = .ok none)
    (hsupplied : ((supplied name e.imports).runFrom ((resolveRoot member).runFrom e).2).1 = .ok values) :
    e.ImportsSupply name values :=
  ⟨member, _, _, hplain, Prod.ext hroot rfl, Prod.ext hsupplied rfl⟩

theorem ImportsSupply.resolve_eq (h : e.ImportsSupply name values) :
    ((resolve name none).runFrom e).1 =
      (settle e.hierarchy name values).map (Option.map Prod.fst) := by
  obtain ⟨member, e₁, e₂, hplain, hroot, hsupplied⟩ := h
  exact resolve_eq_settle hplain hroot hsupplied

/-- Where each scope agrees, the name is ambiguous exactly if the values disagree. -/
theorem ImportsSupply.isAmbiguous_iff (h : e.ImportsSupply name values) (hagree : ScopesAgree values) :
    IsAmbiguous name ((resolve name none).runFrom e).1 ↔ Disagreeing values := by
  rw [h.resolve_eq]
  constructor
  · rintro ⟨first, second, herror⟩
    by_contra hdisagree
    rw [settle_of_not_disagreeing _ _ hdisagree] at herror
    cases herror
  · intro hdisagree
    obtain ⟨p, _, q, _, _, hsettle⟩ := settle_of_disagreeing e.hierarchy name hagree hdisagree
    rw [hsettle]
    exact ⟨_, _, rfl⟩

theorem ImportsSupply.sameValues {r : Registry} (hpaths : r.hierarchy.PathsWithin 64)
    {config : EngineConfig}
    (he : e.Faithful r hpaths.wellFounded config fun _ => True) {imports imports' : List Import}
    (hperm : imports.Perm imports') {values' : List (Value × Ty)}
    (h : { e with imports }.ImportsSupply name values)
    (h' : { e with imports := imports' }.ImportsSupply name values') :
    SameValues values values' := by
  have hanswers : ∀ {imports : List Import} {values : List (Value × Ty)},
      { e with imports }.ImportsSupply name values → ∃ answers, values = answers.reduceOption ∧
        List.Forall₂ (IsImported r hpaths.wellFounded config (fun _ => True) name) imports answers := by
    rintro imports values ⟨member, e₁, e₂, _, hroot, hsupplied⟩
    have hstable : Stable (fun _ => True) (Faithful r hpaths.wellFounded config fun _ => True) :=
      stable_faithful hpaths config fun _ _ => trivial
    have hkeeps : Keeps (Faithful r hpaths.wellFounded config fun _ => True) (resolveRoot member)
        fun _ => True := hstable.keeps_resolveRoot trivial
    have he₁ := (hkeeps _ (hstable.withImports imports he)).2
    rw [hroot] at he₁
    exact (supplied_keeps (fun _ _ => trivial) hpaths imports e₁ he₁).1 values
      (congrArg Prod.fst hsupplied)
  obtain ⟨answers, rfl, hanswered⟩ := hanswers h
  obtain ⟨answers', rfl, hanswered'⟩ := hanswers h'
  exact sameValues_of_perm hperm hanswered hanswered'

/-- The engine is what some history made of a fresh one on the registry, with any imports. -/
def IsReached (provider : Provider) (config : EngineConfig) (e : Engine) : Prop :=
  ∃ (depth : Nat) (steps : List Step) (results : List (Except RuntimeError (Option Value)))
    (i j : Interpreter) (imports : List Import), i.engine = .new provider config ∧
      Step.runAll depth steps i = some (results, j) ∧ e = { j.engine with imports }

theorem IsReached.faithful {provider : Provider} {config : EngineConfig}
    (he : e.IsReached provider config) (hpaths : provider.registry.hierarchy.PathsWithin 64) :
    e.Faithful provider.registry hpaths.wellFounded config fun _ => True := by
  obtain ⟨depth, steps, results, i, j, imports, hfresh, hrun, rfl⟩ := he
  exact (stable_faithful hpaths config fun _ _ => trivial).withImports imports
    (faithful_of_runAll hpaths hfresh hrun)

/-- **Imports that disagree make a name ambiguous.** In every state of an engine, a plain name that the
root scope does not bind and that imports supply differing values for is an error that names two of
these scopes, if the values of each scope agree; it stands for the first value if no two of distinct
scopes differ. After any history of a fresh engine, on a registry whose paths of supertypes have at
most 64 steps, imports in any other order make the name ambiguous as well. -/
theorem disagreeing_imports_ambiguous (e : Engine) (name : String) (values : List (Value × Ty))
    (hsupply : e.ImportsSupply name values) (hagree : ScopesAgree values) :
    (Disagreeing values → ∃ p ∈ values, ∃ q ∈ values, differs p q ∧
      ((resolve name none).runFrom e).1 = .error (.ambiguousImport name
        (e.hierarchy.typeName p.2) (e.hierarchy.typeName q.2))) ∧
    (¬ Disagreeing values → ((resolve name none).runFrom e).1 = .ok (values.head?.map Prod.fst)) ∧
    ∀ (provider : Provider) (config : EngineConfig),
      provider.registry.hierarchy.PathsWithin 64 → e.IsReached provider config →
      ∀ (imports : List Import) (values' : List (Value × Ty)), e.imports.Perm imports →
        { e with imports }.ImportsSupply name values' →
        (IsAmbiguous name ((resolve name none).runFrom e).1 ↔
          IsAmbiguous name ((resolve name none).runFrom { e with imports }).1) := by
  refine ⟨fun hdisagree => ?_, fun hdisagree => ?_, ?_⟩
  · obtain ⟨p, hp, q, hq, hdiffer, hsettle⟩ :=
      settle_of_disagreeing e.hierarchy name hagree hdisagree
    exact ⟨p, hp, q, hq, hdiffer, by rw [hsupply.resolve_eq, hsettle]; rfl⟩
  · rw [hsupply.resolve_eq, settle_of_not_disagreeing _ _ hdisagree]
    rfl
  · intro provider config hpaths hreached imports values' hperm hsupply'
    have hsame := ImportsSupply.sameValues hpaths (hreached.faithful hpaths) hperm hsupply hsupply'
    rw [hsupply.isAmbiguous_iff hagree, hsupply'.isAmbiguous_iff (hagree.of_sameValues hsame)]
    exact ⟨Disagreeing.of_sameValues hsame, Disagreeing.of_sameValues hsame.symm⟩

/-- One scope that agrees with another and one that does not, imported in either order. -/
theorem disagreeing_imports_ambiguous_of_two :
    let provider : Provider := { registry :=
      { hierarchy := ⟨[⟨"A", []⟩, ⟨"B", []⟩, ⟨"C", []⟩]⟩
        members := [(.host 0, [.constant "foo" (.int 1)]), (.host 1, [.constant "foo" (.int 1)]),
          (.host 2, [.constant "foo" (.int 2)])] } }
    let imports : List Import := [⟨.host 0, none⟩, ⟨.host 1, none⟩, ⟨.host 2, none⟩]
    let imports' : List Import := [⟨.host 2, none⟩, ⟨.host 0, none⟩, ⟨.host 1, none⟩]
    let values : List (Value × Ty) := [(.int 1, .host 0), (.int 1, .host 1), (.int 2, .host 2)]
    let e : Engine := { Engine.new provider {} with imports }
    let e' : Engine := { Engine.new provider {} with imports := imports' }
    e.ImportsSupply "foo" values ∧ ScopesAgree values ∧ Disagreeing values ∧
      (∃ p ∈ values, ∃ q ∈ values, differs p q ∧
        ((resolve "foo" none).runFrom e).1 = .error (.ambiguousImport "foo"
          (e.hierarchy.typeName p.2) (e.hierarchy.typeName q.2))) ∧
      (IsAmbiguous "foo" ((resolve "foo" none).runFrom e).1 ↔
        IsAmbiguous "foo" ((resolve "foo" none).runFrom e').1) := by
  intro provider imports imports' values e e'
  let member : MemberName := { surface := "foo", key := "foo", kind := .method, pin := none }
  have hplain : Name.classify "foo" = .plain member := by decide +kernel
  have hsupply : e.ImportsSupply "foo" values :=
    importsSupply_of_ok hplain (by decide +kernel) (by decide +kernel)
  have hsupply' : e'.ImportsSupply "foo" [(.int 2, .host 2), (.int 1, .host 0), (.int 1, .host 1)] :=
    importsSupply_of_ok hplain (by decide +kernel) (by decide +kernel)
  have hagree : ScopesAgree values := by simp [ScopesAgree, values]
  have hdisagree : Disagreeing values :=
    ⟨(.int 1, .host 0), by simp [values], (.int 2, .host 2), by simp [values], by decide +kernel⟩
  have hpaths : provider.registry.hierarchy.PathsWithin 64 :=
    (Hierarchy.pathsWithin_of_precedes (by decide)).mono (by decide)
  have hreached : e.IsReached provider {} :=
    ⟨0, [], [], { engine := .new provider {} }, { engine := .new provider {} }, imports, rfl, rfl, rfl⟩
  obtain ⟨hambiguous, -, horder⟩ := disagreeing_imports_ambiguous e "foo" values hsupply hagree
  exact ⟨hsupply, hagree, hdisagree, hambiguous hdisagree,
    horder provider {} hpaths hreached imports' _ (by decide) hsupply'⟩

/-- Without agreement within each scope, values that disagree may be passed over. The second value of
the first scope found is compared with no other, and in another order the name is ambiguous. -/
theorem disagreeing_import_passed_over :
    let provider : Provider := { registry :=
      { hierarchy := ⟨[⟨"A", []⟩, ⟨"B", []⟩]⟩
        members := [(.host 0, [.constant "foo" (.int 1), .constant "oo" (.int 2)]),
          (.host 1, [.constant "foo" (.int 1)])] } }
    let imports : List Import := [⟨.host 0, none⟩, ⟨.host 0, some "f"⟩, ⟨.host 1, none⟩]
    let imports' : List Import := [⟨.host 0, some "f"⟩, ⟨.host 0, none⟩, ⟨.host 1, none⟩]
    let values : List (Value × Ty) := [(.int 1, .host 0), (.int 2, .host 0), (.int 1, .host 1)]
    let e : Engine := { Engine.new provider {} with imports }
    let e' : Engine := { Engine.new provider {} with imports := imports' }
    e.ImportsSupply "foo" values ∧ Disagreeing values ∧
      ((resolve "foo" none).runFrom e).1 = .ok (some (.int 1)) ∧ imports.Perm imports' ∧
      ((resolve "foo" none).runFrom e').1 = .error (.ambiguousImport "foo" "A" "B") := by
  intro provider imports imports' values e e'
  let member : MemberName := { surface := "foo", key := "foo", kind := .method, pin := none }
  have hplain : Name.classify "foo" = .plain member := by decide +kernel
  have hsupply : e.ImportsSupply "foo" values :=
    importsSupply_of_ok hplain (by decide +kernel) (by decide +kernel)
  have hdisagree : Disagreeing values :=
    ⟨(.int 2, .host 0), by simp [values], (.int 1, .host 1), by simp [values], by decide +kernel⟩
  exact ⟨hsupply, hdisagree, by decide +kernel, by decide, by decide +kernel⟩

end Multimethod.Engine
