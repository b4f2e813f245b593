import Multimethod.Proofs.Engine.Run
import Multimethod.Proofs.Value.Alike

/-!
# Engines alike

Two engines over one provider are alike if they recorded the same of all types, up to tables alike
among the values that references resolved to. They may have different limits on guards and different
lookaheads: engines alike resolve names to values alike and stay alike.

* `Cache.Alike.find?`, `Cache.Alike.modify`, `Cache.Alike.store` — caches entry by entry alike.
* `DispatchM.Alike` — two resolutions in lockstep, with the rules `pure`, `bind` and `mapM`.
* `Engine.discover_alike`, `Engine.resolveMember_alike`, `Engine.resolve_alike` — the layers of a
  resolution.
-/

namespace Multimethod

/-! ## Caches -/

namespace Cache

variable {κ : Type u} {ν : Type v} [DecidableEq κ] {R : ν → ν → Prop}

/-- Caches with the same keys in the same order, and with related values. -/
abbrev Alike (R : ν → ν → Prop) : Cache κ ν → Cache κ ν → Prop :=
  List.Forall₂ fun a b => a.1 = b.1 ∧ R a.2 b.2

variable {c d : Cache κ ν}

theorem Alike.find? (hcd : Alike R c d) (key : κ) : Option.Rel R (c.find? key) (d.find? key) := by
  induction hcd with
  | nil => exact .none
  | @cons a b _ _ hab _ ih =>
    obtain ⟨k, v⟩ := a
    obtain ⟨k', w⟩ := b
    obtain ⟨rfl, hvw⟩ : k = k' ∧ R v w := hab
    unfold Cache.find?
    split
    · exact .some hvw
    · exact ih

theorem Alike.modify (hcd : Alike R c d) {f g : ν → ν} (key : κ)
    (hfg : ∀ v w, R v w → R (f v) (g w)) : Alike R (c.modify f key) (d.modify g key) := by
  induction hcd with
  | nil => exact .nil
  | @cons a b _ _ hab hrest ih =>
    obtain ⟨k, v⟩ := a
    obtain ⟨k', w⟩ := b
    obtain ⟨rfl, hvw⟩ : k = k' ∧ R v w := hab
    unfold Cache.modify
    split
    · exact .cons ⟨rfl, hfg v w hvw⟩ hrest
    · exact .cons ⟨rfl, hvw⟩ ih

theorem Alike.store (hcd : Alike R c d) (key : κ) {v w : ν} (hvw : R v w) :
    Alike R (c.store key v).2 (d.store key w).2 := by
  have hfind := hcd.find? key
  unfold Cache.store
  cases hc : c.find? key with
  | none =>
    rw [hc] at hfind
    cases hd : d.find? key with
    | none => exact .cons ⟨rfl, hvw⟩ hcd
    | some w' => rw [hd] at hfind; cases hfind
  | some v' =>
    rw [hc] at hfind
    cases hd : d.find? key with
    | none => rw [hd] at hfind; cases hfind
    | some w' => exact hcd

end Cache

/-! ## Engines -/

/-- Records of a type that differ in no more than the tables among the resolved values. -/
structure Record.Alike (h : Hierarchy) (r s : Record) : Prop where
  members : r.members = s.members
  supertypes : r.supertypes = s.supertypes
  lookups : r.lookups = s.lookups
  resolved : Cache.Alike (Option.Rel (Value.Alike h)) r.resolved s.resolved

/-- Engines over one registry that differ in no more than settings, events and tables. -/
structure Engine.Alike (r : Registry) (e f : Engine) : Prop where
  registry : e.provider.registry = r
  provider : e.provider = f.provider
  root : e.root = f.root
  imports : e.imports = f.imports
  records : Cache.Alike (Record.Alike r.hierarchy) e.records f.records

namespace Engine

namespace Alike

variable {r : Registry} {e f : Engine}

theorem hierarchy_eq (hef : e.Alike r f) : e.hierarchy = r.hierarchy := by
  unfold hierarchy
  rw [hef.registry]

theorem hierarchy_eq' (hef : e.Alike r f) : f.hierarchy = r.hierarchy := by
  unfold hierarchy
  rw [← hef.provider, hef.registry]

theorem findType?_eq (hef : e.Alike r f) (name : String) : e.findType? name = f.findType? name := by
  unfold findType?
  rw [hef.hierarchy_eq, hef.hierarchy_eq']

theorem report (event event' : Event) (hef : e.Alike r f) :
    (e.report event).Alike r (f.report event') := { hef with }

theorem report_all (events events' : List Event) (hef : e.Alike r f) :
    (events.foldl (fun e event => e.report event) e).Alike r
      (events'.foldl (fun e event => e.report event) f) := by
  rw [foldl_report, foldl_report]
  exact { hef with }

theorem addImport (scope : Ty) (qualifier : Option String) (hef : e.Alike r f) :
    (e.addImport scope qualifier).Alike r (f.addImport scope qualifier) := by
  unfold Engine.addImport
  simp only
  rw [hef.imports]
  split
  · exact hef
  · exact { hef with imports := rfl }

theorem modify (hef : e.Alike r f) (t : Ty) {u v : Record → Record}
    (huv : ∀ a b, a.Alike r.hierarchy b → (u a).Alike r.hierarchy (v b)) :
    { e with records := e.records.modify u t }.Alike r { f with records := f.records.modify v t } :=
  { hef with records := hef.records.modify t huv }

end Alike

end Engine

/-! ## Resolutions in lockstep -/

/-- From engines alike, the resolutions end with related answers or with the same error, and leave
engines alike. -/
def DispatchM.Alike {α β : Type} (r : Registry) (R : α → β → Prop) (m : DispatchM α)
    (m' : DispatchM β) : Prop :=
  ∀ e f, e.Alike r f → ResultsAlike Eq R (m.runFrom e).1 (m'.runFrom f).1 ∧
    (m.runFrom e).2.Alike r (m'.runFrom f).2

namespace DispatchM.Alike

variable {α α' β β' : Type} {r : Registry} {R : α → α' → Prop} {S : β → β' → Prop}
  {m : DispatchM α} {m' : DispatchM α'} {k : α → DispatchM β} {k' : α' → DispatchM β'}

theorem pure {a : α} {a' : α'} (ha : R a a') : DispatchM.Alike r R (pure a) (pure a') := by
  intro e f hef
  rw [runFrom_pure, runFrom_pure]
  exact ⟨.ok ha, hef⟩

theorem throw (err : DispatchError) :
    DispatchM.Alike r R (throw err : DispatchM α) (throw err : DispatchM α') := by
  intro e f hef
  rw [runFrom_throw, runFrom_throw]
  exact ⟨.error rfl, hef⟩

theorem ofExcept (result : Except DispatchError α) :
    DispatchM.Alike r Eq (MonadExcept.ofExcept result : DispatchM α)
      (MonadExcept.ofExcept result) := by
  intro e f hef
  rw [runFrom_ofExcept, runFrom_ofExcept]
  refine ⟨?_, hef⟩
  cases result with
  | ok a => exact .ok rfl
  | error err => exact .error rfl

theorem bind (hm : DispatchM.Alike r R m m')
    (hk : ∀ a a', R a a' → DispatchM.Alike r S (k a) (k' a')) :
    DispatchM.Alike r S (m >>= k) (m' >>= k') := by
  intro e f hef
  obtain ⟨hresults, hengines⟩ := hm e f hef
  rw [runFrom_bind, runFrom_bind]
  generalize m.runFrom e = ran at hresults hengines ⊢
  generalize m'.runFrom f = ran' at hresults hengines ⊢
  obtain ⟨result, e'⟩ := ran
  obtain ⟨result', f'⟩ := ran'
  cases hresults with
  | ok hanswers => exact hk _ _ hanswers e' f' hengines
  | error herrors => exact ⟨.error herrors, hengines⟩

theorem get_bind {k : Engine → DispatchM β} {k' : Engine → DispatchM β'}
    (h : ∀ e f, e.Alike r f → DispatchM.Alike r S (k e) (k' f)) :
    DispatchM.Alike r S (get >>= k) (get >>= k') := by
  intro e f hef
  rw [runFrom_get_bind, runFrom_get_bind]
  exact h e f hef e f hef

theorem mapM {k k' : α → DispatchM β} {xs : List α}
    (h : ∀ x ∈ xs, DispatchM.Alike r Eq (k x) (k' x)) :
    DispatchM.Alike r Eq (xs.mapM k) (xs.mapM k') := by
  induction xs with
  | nil => exact pure rfl
  | cons x rest ih =>
    rw [List.mapM_cons, List.mapM_cons]
    refine (h x List.mem_cons_self).bind fun a a' ha => ?_
    refine (ih fun y hy => h y (List.mem_cons_of_mem x hy)).bind fun as as' has => ?_
    rw [ha, has]
    exact pure rfl

end DispatchM.Alike

namespace Engine

variable {r : Registry} {t : Ty} {key : LookupKey}

theorem record_alike (t : Ty) :
    DispatchM.Alike r (Record.Alike r.hierarchy) (record t) (record t) := by
  intro e f hef
  have hfind := hef.records.find? t
  have hregistry := (e.provider.registry_list t).trans hef.registry
  unfold record
  rw [DispatchM.runFrom_get_bind, DispatchM.runFrom_get_bind, ← hef.provider]
  generalize e.records.find? t = found at hfind ⊢
  generalize f.records.find? t = found' at hfind ⊢
  cases hfind with
  | some hrecords => exact ⟨.ok hrecords, hef⟩
  | none =>
    generalize e.provider.list t = listed at hregistry ⊢
    obtain ⟨_ | members, provider⟩ := listed
    · exact ⟨.error rfl, { hef with registry := hregistry, provider := rfl }⟩
    · have hmade : Record.Alike r.hierarchy
          { members, supertypes := provider.registry.hierarchy.supertypes t }
          { members, supertypes := provider.registry.hierarchy.supertypes t } :=
        ⟨rfl, rfl, rfl, .nil⟩
      exact ⟨.ok hmade, ⟨hregistry, rfl, hef.root, hef.imports, .cons ⟨rfl, hmade⟩ hef.records⟩⟩

theorem keepLookup_alike (t : Ty) (lookup : Lookup) :
    DispatchM.Alike r Eq (keepLookup t key lookup) (keepLookup t key lookup) := by
  intro e f hef
  have hfind := hef.records.find? t
  refine ⟨.ok ?_, hef.modify t fun a b hab => { hab with lookups := ?_ }⟩
  · generalize e.records.find? t = found at hfind ⊢
    generalize f.records.find? t = found' at hfind ⊢
    cases hfind with
    | none => rfl
    | some hrecords => rw [Option.bind_some, Option.bind_some, hrecords.lookups]
  · unfold Record.storeLookup
    rw [hab.lookups]

theorem warnMalformed_alike (t : Ty) (malformed : List MalformedMember) :
    DispatchM.Alike r Eq (warnMalformed t malformed) (warnMalformed t malformed) := by
  intro e f hef
  refine ⟨.ok rfl, ?_⟩
  unfold warnMalformed
  rw [DispatchM.runFrom_modify, DispatchM.runFrom_modify]
  induction malformed generalizing e f with
  | nil => exact hef
  | cons bad rest ih => exact ih _ _ (hef.report _ _)

theorem combine_alike (own : OwnMembers) (t : Ty) {inherited inherited' : DispatchM (List Lookup)}
    (hinherited : DispatchM.Alike r Eq inherited inherited') :
    let rest (inherited : DispatchM (List Lookup)) : DispatchM Lookup := do
      let lookups ← inherited
      let e ← get
      let lookup ← MonadExcept.ofExcept (own.combine (e.hierarchy.typeName t) key lookups)
      keepLookup t key lookup
    DispatchM.Alike r Eq (rest inherited) (rest inherited') := by
  refine hinherited.bind fun lookups _ hlookups => ?_
  subst hlookups
  refine DispatchM.Alike.get_bind fun e f hef => ?_
  rw [hef.hierarchy_eq, hef.hierarchy_eq']
  refine (DispatchM.Alike.ofExcept _).bind fun lookup _ hlookup => ?_
  subst hlookup
  exact keepLookup_alike t lookup

/-- Engines alike find the same on a type if they find the same on its supertypes. -/
theorem discover_alike_of_above {levels : Nat} (t : Ty) (habove : ∀ rec : Record,
      DispatchM.Alike r Eq (discoverAbove levels key rec) (discoverAbove levels key rec)) :
    DispatchM.Alike r Eq (discover levels t key) (discover levels t key) := by
  unfold discover
  refine (record_alike t).bind fun rec rec' hrec => ?_
  rw [← hrec.lookups, ← hrec.members, ← hrec.supertypes]
  cases rec.lookups.find? key with
  | some hit => exact DispatchM.Alike.pure rfl
  | none =>
    refine (warnMalformed_alike t _).bind fun _ _ _ => ?_
    cases (OwnMembers.scan t key 0 rec.members {}).constant with
    | some value => exact keepLookup_alike t _
    | none =>
      cases levels with
      | zero => exact combine_alike _ t (habove rec)
      | succ n => exact combine_alike _ t (habove rec)

theorem discover_alike (levels : Nat) (t : Ty) :
    DispatchM.Alike r Eq (discover levels t key) (discover levels t key) := by
  induction levels generalizing t with
  | zero => exact discover_alike_of_above t fun _ => DispatchM.Alike.pure rfl
  | succ n ih => exact discover_alike_of_above t fun _ => DispatchM.Alike.mapM fun s _ => ih s

theorem keepResolved_alike (t : Ty) {v w : Option Value}
    (hvw : Option.Rel (Value.Alike r.hierarchy) v w) :
    DispatchM.Alike r (Option.Rel (Value.Alike r.hierarchy)) (keepResolved t key v)
      (keepResolved t key w) := by
  intro e f hef
  have hfind := hef.records.find? t
  refine ⟨.ok ?_, hef.modify t fun a b hab => { hab with resolved := hab.resolved.store key hvw }⟩
  generalize e.records.find? t = found at hfind ⊢
  generalize f.records.find? t = found' at hfind ⊢
  cases hfind with
  | none => exact hvw
  | @some rec rec' hrecords =>
    rw [Option.bind_some, Option.bind_some]
    have hkept := hrecords.resolved.find? key
    generalize rec.resolved.find? key = kept at hkept ⊢
    generalize rec'.resolved.find? key = kept' at hkept ⊢
    cases hkept with
    | none => exact hvw
    | some hvalues => exact hvalues

theorem valueOf_alike {e f : Engine} (hef : e.Alike r f) (member : MemberName) (t : Ty)
    (lookup : Lookup) :
    Option.Rel (Value.Alike r.hierarchy) (e.valueOf member t lookup) (f.valueOf member t lookup) := by
  cases lookup with
  | notFound => exact .none
  | constant value => exact .some (.refl value)
  | found candidates =>
    have hcallables := Callable.ofCandidates?_alike (h := r.hierarchy) member.surface t
      e.config.guardChainLimit e.config.variadicLookahead f.config.guardChainLimit
      f.config.variadicLookahead member.pin candidates
    show Option.Rel _ ((Callable.ofCandidates? e.hierarchy _ _ _ _ _ _).map _)
      ((Callable.ofCandidates? f.hierarchy _ _ _ _ _ _).map _)
    rw [hef.hierarchy_eq, hef.hierarchy_eq']
    generalize Callable.ofCandidates? _ _ _ _ e.config.variadicLookahead _ _ = made at hcallables ⊢
    generalize Callable.ofCandidates? _ _ _ _ f.config.variadicLookahead _ _ = made' at hcallables ⊢
    cases hcallables with
    | none => exact .none
    | some halike => exact .some (Value.Alike.procedure halike)

/-- **Engines alike resolve references to values alike.** -/
theorem resolveMember_alike (t : Ty) (member : MemberName) (origin : OriginFilter)
    (bindReceiver : Bool) :
    DispatchM.Alike r (Option.Rel (Value.Alike r.hierarchy))
      (resolveMember t member origin bindReceiver) (resolveMember t member origin bindReceiver) := by
  unfold resolveMember
  generalize member.lookup origin bindReceiver = key
  refine (record_alike t).bind fun rec rec' hrec => ?_
  have hhit := hrec.resolved.find? key
  simp only
  generalize rec.resolved.find? key = hit at hhit ⊢
  generalize rec'.resolved.find? key = hit' at hhit ⊢
  cases hhit with
  | some hvalues => exact DispatchM.Alike.pure hvalues
  | none =>
    refine (discover_alike discoveryDepth t).bind fun lookup _ hlookup => ?_
    subst hlookup
    intro e f hef
    rw [DispatchM.runFrom_get_bind, DispatchM.runFrom_get_bind, DispatchM.runFrom_set_bind,
      DispatchM.runFrom_set_bind]
    exact keepResolved_alike t (valueOf_alike hef member t lookup) _ _ (hef.report_all _ _)

/-! ## Names -/

/-- Answers of imports alike: values alike from one scope. -/
def AlikeFrom (h : Hierarchy) (a b : Value × Ty) : Prop := a.1.Alike h b.1 ∧ a.2 = b.2

theorem searchImports_alike (name : String) (imports : List Import)
    {found found' : Option (Value × Ty)} (hfound : Option.Rel (AlikeFrom r.hierarchy) found found') :
    DispatchM.Alike r (Option.Rel (AlikeFrom r.hierarchy)) (searchImports name imports found)
      (searchImports name imports found') := by
  induction imports generalizing found found' with
  | nil => exact DispatchM.Alike.pure hfound
  | cons i rest ih =>
    unfold searchImports
    cases (i.localName? name).map Name.classify with
    | none => exact ih hfound
    | some form =>
      cases form with
      | selector member => exact ih hfound
      | qualified scope member whole => exact ih hfound
      | plain member =>
        refine (resolveMember_alike i.scope member .any false).bind fun answer answer' hanswer => ?_
        cases hanswer with
        | none => exact ih hfound
        | @some value value' hvalues =>
          cases hfound with
          | none => exact ih (.some ⟨hvalues, rfl⟩)
          | @some first first' hfirst =>
            obtain ⟨first, scope⟩ := first
            obtain ⟨first', scope'⟩ := first'
            obtain ⟨hfirst, rfl⟩ : first.Alike r.hierarchy first' ∧ scope = scope' := hfirst
            -- the two values are compared up to what does not tell values alike apart
            simp only [hfirst.equal_eq hvalues]
            split
            · refine DispatchM.Alike.get_bind fun e f hef => ?_
              rw [hef.hierarchy_eq, hef.hierarchy_eq']
              exact DispatchM.Alike.throw _
            · exact ih (.some ⟨hfirst, rfl⟩)

theorem resolveImported_alike (name : String) :
    DispatchM.Alike r (Option.Rel (Value.Alike r.hierarchy)) (resolveImported name)
      (resolveImported name) := by
  unfold resolveImported
  refine DispatchM.Alike.get_bind fun e f hef => ?_
  rw [hef.imports]
  refine (searchImports_alike name f.imports .none).bind fun found found' hfound => ?_
  cases hfound with
  | none => exact DispatchM.Alike.pure .none
  | some halike => exact DispatchM.Alike.pure (.some halike.1)

theorem resolveRoot_alike (member : MemberName) :
    DispatchM.Alike r (Option.Rel (Value.Alike r.hierarchy)) (resolveRoot member)
      (resolveRoot member) := by
  unfold resolveRoot
  refine DispatchM.Alike.get_bind fun e f hef => ?_
  rw [hef.root]
  cases f.root with
  | none => exact DispatchM.Alike.pure .none
  | some root =>
    refine (resolveMember_alike root member .instance true).bind fun answer answer' hanswer => ?_
    cases hanswer with
    | some hvalues => exact DispatchM.Alike.pure (.some hvalues)
    | none => exact resolveMember_alike root member .static false

theorem resolvePlain_alike (name : String) (member : MemberName) (scope : Option Ty) :
    DispatchM.Alike r (Option.Rel (Value.Alike r.hierarchy)) (resolvePlain name member scope)
      (resolvePlain name member scope) := by
  unfold resolvePlain
  cases scope with
  | some t => exact resolveMember_alike t member .any false
  | none =>
    refine (resolveRoot_alike member).bind fun answer answer' hanswer => ?_
    cases hanswer with
    | some hvalues => exact DispatchM.Alike.pure (.some hvalues)
    | none => exact resolveImported_alike name

/-- **Engines alike resolve names to values alike.** -/
theorem resolve_alike (name : String) (scope : Option Ty) :
    DispatchM.Alike r (Option.Rel (Value.Alike r.hierarchy)) (resolve name scope)
      (resolve name scope) := by
  unfold resolve
  split
  · exact DispatchM.Alike.pure (.some (.refl _))
  · rename_i typeName member whole _
    refine DispatchM.Alike.get_bind fun e f hef => ?_
    rw [hef.findType?_eq]
    cases f.findType? typeName with
    | some t => exact resolveMember_alike t member .any false
    | none => exact resolvePlain_alike name whole scope
  · exact resolvePlain_alike name _ scope

end Engine

end Multimethod
