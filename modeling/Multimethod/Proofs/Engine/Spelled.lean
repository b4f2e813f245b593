import Multimethod.Proofs.Engine.Entries
import Multimethod.Proofs.Eval.Stable

/-!
# Names of procedures

Where all references are spelled by names, what an engine has resolved tells of itself where it is from:
a procedure bears the text of a reference, and its candidates the lookup that this reference asks for. So
the candidates of a procedure tell its name and its pin. Nothing here rests on short paths; on circles as
well, a value is made of the answer that was found first.

* `Callable.IsBuilt` — a procedure made of the candidates of one lookup, under the text of a reference.
* `Engine.Spelled` — an engine in which all that was resolved is made in this way.
* `resolveMember_spelled` — a resolution of a spelled reference keeps it so.
* `Engine.IsReachable` — the states that an engine comes to where names spell all references.
* `Engine.resolve_gives` — a name stands for nothing but what references that names spell resolve to.
-/

namespace Multimethod

open DispatchM

/-- What some spelled reference with this lookup may stand for on a type, given an answer to the lookup that
is declared and fits the type. -/
def Engine.IsNamed (r : Registry) (config : EngineConfig) (t : Ty) (key : LookupKey) (value : Option Value) :
    Prop :=
  ∃ (member : MemberName) (lookup : Lookup), member.IsSpelled ∧
    member.lookup key.origin key.bindReceiver = key ∧ lookup.WellFormed r t key ∧ lookup.IsDeclared r key ∧
    value = lookup.value? r.hierarchy config member.surface t key.pin

/-- Are the answers of the record declared, and does every value bear the text of a spelled reference? -/
structure Record.Spelled (r : Registry) (config : EngineConfig) (t : Ty) (rec : Record) : Prop where
  lookups : ∀ {key lookup}, rec.lookups.find? key = some lookup → lookup.IsDeclared r key
  resolved : ∀ {key value}, rec.resolved.find? key = some value → Engine.IsNamed r config t key value

/-- Is this so of all records of an engine with well-formed entries? -/
structure Engine.Spelled (r : Registry) (config : EngineConfig) (e : Engine) : Prop extends
    e.WellFormed r config where
  entries : ∀ {t rec}, e.records.find? t = some rec → rec.Spelled r config t

namespace Engine

variable {r : Registry} {config : EngineConfig} {e : Engine} {t : Ty} {key : LookupKey}

theorem spelled_new (provider : Provider) (config : EngineConfig) :
    (Engine.new provider config).Spelled provider.registry config := by
  refine ⟨wellFormed_new provider config, ?_⟩
  unfold Engine.new
  split
  · exact fun h => by cases h
  · exact fun h => by cases h

/-- What lies outside the records, the registry and the settings may change. -/
theorem Spelled.congr {e' : Engine} (he : e.Spelled r config)
    (hregistry : e'.provider.registry = e.provider.registry) (hconfig : e'.config = e.config)
    (hrecords : e'.records = e.records) : e'.Spelled r config :=
  ⟨he.toWellFormed.congr hregistry hconfig hrecords, fun h => he.entries (hrecords ▸ h)⟩

theorem Spelled.report_all (events : List Event) (he : e.Spelled r config) :
    (events.foldl (fun e event => e.report event) e).Spelled r config := by
  rw [foldl_report]
  exact he.congr rfl rfl rfl

/-- A record may change into another one that bears texts of references. -/
theorem Spelled.entries_modify (he : e.Spelled r config) {f : Record → Record}
    (hf : ∀ rec, rec.Spelled r config t → (f rec).Spelled r config t) {u : Ty} {rec : Record}
    (hrec : (e.records.modify f t).find? u = some rec) : rec.Spelled r config u := by
  rw [Cache.find?_modify] at hrec
  split at hrec
  · rename_i hu
    subst hu
    obtain ⟨old, hold, rfl⟩ := Option.map_eq_some_iff.1 hrec
    exact hf old (he.entries hold)
  · exact he.entries hrec

/-! ## Discovery -/

theorem record_spelled (t : Ty) :
    Gives (Spelled r config) (record t) fun rec => rec.WellFormed r config t ∧ rec.Spelled r config t := by
  intro e he
  obtain ⟨hwell, hkeeps⟩ := record_wellFormed t e he.toWellFormed
  obtain ⟨rec, hrec, hrun⟩ | ⟨_, _, _, hrun⟩ | ⟨_, members, _, hrun⟩ := record_cases t e
  · rw [hrun] at hwell ⊢
    exact ⟨fun _ h => ⟨hwell _ h, by cases h; exact he.entries hrec⟩, he⟩
  · rw [hrun] at hkeeps ⊢
    exact ⟨fun _ h => (by cases h), hkeeps, he.entries⟩
  · -- a new record has no answers yet
    have hmade : Record.Spelled r config t
        { members, supertypes := { e with provider := (e.provider.list t).2 }.hierarchy.supertypes t } :=
      ⟨fun h => (by cases h), fun h => (by cases h)⟩
    rw [hrun] at hwell hkeeps ⊢
    refine ⟨fun _ h => ⟨hwell _ h, by cases h; exact hmade⟩, hkeeps, fun {u rec} hrec => ?_⟩
    change Cache.find? u ((t, _) :: e.records) = some rec at hrec
    rw [Cache.find?] at hrec
    split at hrec
    · rename_i hu
      cases hrec
      exact hu ▸ hmade
    · exact he.entries hrec

theorem keepLookup_spelled {lookup : Lookup} (hwell : lookup.WellFormed r t key)
    (hdeclared : lookup.IsDeclared r key) :
    Gives (Spelled r config) (keepLookup t key lookup) fun kept =>
      kept.WellFormed r t key ∧ kept.IsDeclared r key := by
  intro e he
  obtain ⟨hgives, hkeeps⟩ := keepLookup_wellFormed hwell e he.toWellFormed
  refine ⟨fun kept hkept => ⟨hgives kept hkept, ?_⟩, hkeeps, he.entries_modify fun rec hrec => ?_⟩
  · cases hkept
    cases hfound : (e.records.find? t).bind (·.lookups.find? key) with
    | none => exact hdeclared
    | some found =>
      obtain ⟨rec, hrec, hfound⟩ := Option.bind_eq_some_iff.1 hfound
      exact (he.entries hrec).lookups hfound
  · refine { hrec with lookups := fun hfound => ?_ }
    obtain hold | ⟨rfl, rfl⟩ := Cache.find?_store_cases hfound
    · exact hrec.lookups hold
    · exact hdeclared

theorem discoveryInvariant_spelled (r : Registry) (config : EngineConfig) (key : LookupKey) :
    DiscoveryInvariant key (Spelled r config)
      (fun t rec => rec.WellFormed r config t ∧ rec.Spelled r config t)
      fun t lookup => lookup.WellFormed r t key ∧ lookup.IsDeclared r key where
  report _ he := he.congr rfl rfl rfl
  record t := record_spelled t
  hit hrec hhit := ⟨hrec.1.lookups hhit, hrec.2.lookups hhit⟩
  constant {t rec value} hrec hconstant := by
    refine ⟨(discoveryInvariant_wellFormed r config key).constant hrec.1 hconstant, ?_⟩
    cases hamong : key.constantAmong rec.members with
    | none =>
      rw [OwnMembers.scan_none (t := t) rec.members 0 {} hamong] at hconstant
      cases hconstant
    | some found =>
      rw [OwnMembers.scan_constant (t := t) rec.members 0 {} hamong] at hconstant
      cases hconstant
      obtain ⟨m, hm, hvalue⟩ := List.exists_of_findSome?_eq_some hamong
      have hmem := List.mem_of_mem_filter hm
      rw [Registry.membersOf_of_list hrec.1.members] at hmem
      exact ⟨t, m, hmem, hvalue⟩
  combine {e t rec above lookup} he hrec hconstant habove hcombine := by
    refine ⟨(discoveryInvariant_wellFormed r config key).combine he.toWellFormed hrec.1 hconstant
      (fun l hl => ?_) hcombine, ?_⟩
    · obtain ⟨s, hs, hwell, _⟩ := habove l hl
      exact ⟨s, hs, hwell⟩
    · have hamong : key.constantAmong rec.members = none := by
        cases hamong : key.constantAmong rec.members with
        | none => rfl
        | some found =>
          rw [OwnMembers.scan_constant (t := t) rec.members 0 {} hamong] at hconstant
          cases hconstant
      rw [he.hierarchy_eq, OwnMembers.combine_scan above hamong,
        Registry.membersOf_of_list hrec.1.members] at hcombine
      refine Registry.isDeclared_of_combine (fun l hl => ?_) hcombine
      obtain ⟨_, _, _, hdeclared⟩ := habove l hl
      exact hdeclared
  keepLookup h := keepLookup_spelled h.1 h.2

/-! ## Resolution -/

theorem Spelled.lookup (he : e.Spelled r config) {lookup : Lookup} (h : e.lookedUp? t key = some lookup) :
    lookup.WellFormed r t key ∧ lookup.IsDeclared r key := by
  refine ⟨he.toWellFormed.lookup h, ?_⟩
  obtain ⟨rec, hrec, hlookup⟩ := Option.bind_eq_some_iff.1 h
  exact (he.entries hrec).lookups hlookup

theorem Spelled.isNamed (he : e.Spelled r config) {value : Option Value}
    (h : e.resolved? t key = some value) : IsNamed r config t key value := by
  obtain ⟨rec, hrec, hvalue⟩ := Option.bind_eq_some_iff.1 h
  exact (he.entries hrec).resolved hvalue

/-- A value made of the answer kept beside it may be kept under the text of a spelled reference. -/
theorem keepResolved_spelled (he : e.Spelled r config) {lookup : Lookup} {member : MemberName}
    (hmember : member.IsSpelled) (hkey : member.lookup key.origin key.bindReceiver = key)
    (hlookup : e.lookedUp? t key = some lookup) :
    let ran := (keepResolved t key (lookup.value? r.hierarchy config member.surface t key.pin)).runFrom e
    (∀ value, ran.1 = .ok value → IsNamed r config t key value) ∧ ran.2.Spelled r config := by
  obtain ⟨_, hkeeps⟩ := keepResolved_wellFormed he.toWellFormed member.surface hlookup
  have hnamed : IsNamed r config t key (lookup.value? r.hierarchy config member.surface t key.pin) :=
    ⟨member, lookup, hmember, hkey, (he.lookup hlookup).1, (he.lookup hlookup).2, rfl⟩
  refine ⟨fun value hvalue => ?_, hkeeps, he.entries_modify fun rec hrec => ?_⟩
  · cases hvalue
    cases hfound : (e.records.find? t).bind (·.resolved.find? key) with
    | none => exact hnamed
    | some found => exact he.isNamed hfound
  · refine { hrec with resolved := fun hfound => ?_ }
    obtain hold | ⟨rfl, rfl⟩ := Cache.find?_store_cases hfound
    · exact hrec.resolved hold
    · exact hnamed

/-- **A resolution of a spelled reference keeps names,** and gives a value that bears one. -/
theorem resolveMember_spelled (t : Ty) {member : MemberName} (hmember : member.IsSpelled)
    (origin : OriginFilter) (bindReceiver : Bool) :
    Gives (Spelled r config) (resolveMember t member origin bindReceiver)
      (IsNamed r config t (member.lookup origin bindReceiver)) := by
  unfold resolveMember
  generalize hkey : member.lookup origin bindReceiver = key
  have hpin : member.pin = key.pin := by rw [← hkey]; rfl
  have hmade : member.lookup key.origin key.bindReceiver = key := by rw [← hkey]; rfl
  refine (record_spelled t).bind fun rec hrec => ?_
  cases hhit : rec.resolved.find? key with
  | some hit => exact Gives.pure (hrec.2.resolved hhit)
  | none =>
    intro e he
    have hdiscover := (discoveryInvariant_spelled r config key).discover discoveryDepth t e he
    dsimp only
    rw [runFrom_bind]
    cases hran : (discover discoveryDepth t key).runFrom e with
    | mk result last =>
      rw [hran] at hdiscover
      cases result with
      | error err => exact ⟨fun _ h => (by cases h), hdiscover.2⟩
      | ok lookup =>
        -- reports leave what discovery has kept
        have hstored := ((GrowsInto.refl last).report_all
          (last.valueEvents lookup (last.valueOf member t lookup))).lookedUp? (lookedUp?_of_discover hran)
        dsimp only
        rw [runFrom_get_bind, runFrom_set_bind]
        rw [valueOf_eq_value?, hdiscover.2.hierarchy_eq, hdiscover.2.settings, hpin] at hstored ⊢
        exact keepResolved_spelled (hdiscover.2.report_all _) hmember hmade hstored

theorem stable_spelled (r : Registry) (config : EngineConfig) :
    Stable MemberName.IsSpelled (Spelled r config) where
  spelled hmember := hmember
  report _ he := he.congr rfl rfl rfl
  withImports _ he := he.congr rfl rfl rfl
  withOutages _ he := he.congr rfl rfl rfl
  resolveMember t _ origin bindReceiver hmember he :=
    (resolveMember_spelled t hmember origin bindReceiver _ he).2

/-! ## States -/

/-- The states that a fresh engine may come to by reports, imports, failures of the provider and
resolutions, which may fail, of references that names spell. -/
inductive IsReachable (provider : Provider) (config : EngineConfig) : Engine → Prop
  | new : IsReachable provider config (.new provider config)
  | report {e : Engine} (event : Event) :
    IsReachable provider config e → IsReachable provider config (e.report event)
  | withImports {e : Engine} (imports : List Import) :
    IsReachable provider config e → IsReachable provider config { e with imports }
  | withOutages {e : Engine} (outages : List Bool) :
    IsReachable provider config e →
      IsReachable provider config { e with provider := { e.provider with outages } }
  | resolveMember {e : Engine} (t : Ty) {member : MemberName} (origin : OriginFilter)
    (bindReceiver : Bool) (hmember : member.IsSpelled) :
    IsReachable provider config e →
      IsReachable provider config ((Engine.resolveMember t member origin bindReceiver).runFrom e).2

theorem stable_isReachable (provider : Provider) (config : EngineConfig) :
    Stable MemberName.IsSpelled (IsReachable provider config) where
  spelled hmember := hmember
  report event h := h.report event
  withImports imports h := h.withImports imports
  withOutages outages h := h.withOutages outages
  resolveMember t _ origin bindReceiver hmember h := h.resolveMember t origin bindReceiver hmember

/-- What all operations on spelled references keep holds in every such state. -/
theorem IsReachable.of_stable {P : Engine → Prop} (hP : Stable MemberName.IsSpelled P) {provider : Provider}
    (hnew : P (.new provider config)) (he : e.IsReachable provider config) : P e := by
  induction he with
  | new => exact hnew
  | report event _ ih => exact hP.report event ih
  | withImports imports _ ih => exact hP.withImports imports ih
  | withOutages outages _ ih => exact hP.withOutages outages ih
  | resolveMember t origin bindReceiver hmember _ ih => exact hP.resolveMember t origin bindReceiver hmember ih

/-- All that is resolved in such a state bears the text of a spelled reference. -/
theorem IsReachable.spelled {provider : Provider} (he : e.IsReachable provider config) :
    e.Spelled provider.registry config :=
  he.of_stable (stable_spelled provider.registry config) (spelled_new provider config)

/-! ## Names -/

section names

variable {P : Engine → Prop} {Q : Value → Prop}
  (hmember : ∀ (t : Ty) {member : MemberName} (origin : OriginFilter) (bindReceiver : Bool),
    member.IsSpelled → Gives P (resolveMember t member origin bindReceiver) fun answer => ∀ v ∈ answer, Q v)

include hmember

theorem searchImports_gives (name : String) (imports : List Import) {found : Option (Value × Ty)}
    (hfound : ∀ p ∈ found, Q p.1) :
    Gives P (searchImports name imports found) fun found => ∀ p ∈ found, Q p.1 := by
  induction imports generalizing found with
  | nil => exact Gives.pure hfound
  | cons i rest ih =>
    unfold searchImports
    split
    · rename_i member hform
      obtain ⟨localName, _, hclassify⟩ := Option.map_eq_some_iff.1 hform
      refine (hmember i.scope .any false (MemberName.isSpelled_of_plain hclassify)).bind fun answer hanswer => ?_
      cases answer with
      | none => exact ih hfound
      | some value =>
        cases found with
        | none => exact ih fun p hp => by cases hp; exact hanswer value rfl
        | some first =>
          simp only
          split
          · exact Gives.get_bind fun e _ => fun e' he' => ⟨fun _ h => (by cases h), he'⟩
          · exact ih hfound
    · exact ih hfound

theorem resolveRoot_gives {member : MemberName} (hspelled : member.IsSpelled) :
    Gives P (resolveRoot member) fun answer => ∀ v ∈ answer, Q v := by
  refine Gives.get_bind fun e _ => ?_
  cases e.root with
  | none => exact Gives.pure fun v hv => by cases hv
  | some root =>
    refine (hmember root .instance true hspelled).bind fun answer hanswer => ?_
    cases answer with
    | some value => exact Gives.pure hanswer
    | none => exact hmember root .static false hspelled

theorem resolvePlain_gives (name : String) {member : MemberName} (scope : Option Ty)
    (hspelled : member.IsSpelled) :
    Gives P (resolvePlain name member scope) fun answer => ∀ v ∈ answer, Q v := by
  unfold resolvePlain
  cases scope with
  | some t => exact hmember t .any false hspelled
  | none =>
    refine (resolveRoot_gives hmember hspelled).bind fun answer hanswer => ?_
    cases answer with
    | some value => exact Gives.pure hanswer
    | none =>
      refine Gives.get_bind fun e _ => ?_
      have hnone : ∀ p ∈ (none : Option (Value × Ty)), Q p.1 := fun p hp => by cases hp
      refine (searchImports_gives hmember name e.imports hnone).bind fun found hfound => Gives.pure ?_
      intro v hv
      obtain ⟨p, hp, rfl⟩ := Option.map_eq_some_iff.1 hv
      exact hfound p hp

/-- **A name stands for nothing but what references that names spell resolve to,** or for a selector. -/
theorem resolve_gives (hselector : ∀ name member, Q (.procedure (.selector name member))) (name : String)
    (scope : Option Ty) : Gives P (resolve name scope) fun answer => ∀ v ∈ answer, Q v := by
  unfold resolve
  split
  · exact Gives.pure fun v hv => by cases hv; exact hselector _ _
  · rename_i typeName member plain hform
    refine Gives.get_bind fun e _ => ?_
    cases e.findType? typeName with
    | some t => exact hmember t .any false ⟨name, by rw [hform]; exact List.mem_cons_self⟩
    | none =>
      refine resolvePlain_gives hmember name scope ⟨name, ?_⟩
      rw [hform]
      exact List.mem_cons_of_mem _ (List.mem_singleton_self _)
  · rename_i member hform
    exact resolvePlain_gives hmember name scope (MemberName.isSpelled_of_plain hform)

end names

end Engine

end Multimethod
