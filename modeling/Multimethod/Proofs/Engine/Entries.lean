import Mathlib.Logic.Relation
import Multimethod.Proofs.Dispatch.ArityRule
import Multimethod.Proofs.Engine.Declared
import Multimethod.Proofs.Engine.Growth

/-!
# Entries are well formed

Whatever an engine has been through, on circles too, all that it keeps under a lookup on a type fits that
lookup and that type. A candidate may come from far above, cut off or not: it has passed the filters of the
lookup where it was declared, and these are the same all the way down.

* `Candidate.BelongsTo` — what a candidate owes to the lookup that found it and the type it was found on.
* `Lookup.WellFormed`, `Record.WellFormed`, `Engine.WellFormed` — the same of answers, records and engines.
* `Lookup.wellFormed_of_combine` — answers of supertypes make the answer of a type well formed.
* `resolveMember_wellFormed` — a resolution keeps all entries well formed.
-/

namespace Multimethod

open DispatchM

/-- Does a path of supertypes lead from one type to the other? -/
def Hierarchy.Leads (h : Hierarchy) : Ty → Ty → Prop := Relation.ReflTransGen fun t s => h.Above s t

/-- What a candidate owes to the lookup that found it and the type it was found on. -/
structure Candidate.BelongsTo (r : Registry) (t : Ty) (key : LookupKey) (c : Candidate) : Prop where
  declared : c.IsDeclared r key
  sameKey : c.key = key.key
  sameKind : c.kind = key.kind
  origin : key.origin.admits (c.origin = .static)
  pin : c.admittedBy key.pin
  /-- An instance member takes the interpreter as its receiver exactly if the lookup says so. -/
  receiver : c.origin ≠ .static → (c.origin = .bound ↔ key.bindReceiver)
  owner : r.hierarchy.Leads t c.owner
  /-- Rest is a parameter only as the type of an explicit receiver. -/
  rest : ∀ place : Nat, c.params[place]? = some .rest →
    place = 0 ∧ c.origin = .instance ∧ c.owner = .rest

/-- What the candidates found for one lookup owe to it, and to one another. -/
structure Candidate.AreWellFormed (r : Registry) (t : Ty) (key : LookupKey) (cs : List Candidate) :
    Prop where
  belong : ∀ c ∈ cs, c.BelongsTo r t key
  distinct : cs.Pairwise fun c d => ¬ c.sameSignature d

/-- Is this an answer that the lookup may have on the type? -/
def Lookup.WellFormed (r : Registry) (t : Ty) (key : LookupKey) : Lookup → Prop
  | .found cs => cs ≠ [] ∧ Candidate.AreWellFormed r t key cs
  | .constant _ => key.origin ≠ .instance
  | .notFound => True

/-- Are the entries of the record well formed, and is every value made of the answer kept beside it? -/
structure Record.WellFormed (r : Registry) (config : EngineConfig) (t : Ty) (rec : Record) : Prop where
  members : r.list t = .ok rec.members
  supertypes : rec.supertypes = r.hierarchy.supertypes t
  lookups : ∀ {key lookup}, rec.lookups.find? key = some lookup → lookup.WellFormed r t key
  resolved : ∀ {key value}, rec.resolved.find? key = some value →
    ∃ lookup surface, rec.lookups.find? key = some lookup ∧
      value = lookup.value? r.hierarchy config surface t key.pin

/-- Are the entries of all records well formed? -/
structure Engine.WellFormed (r : Registry) (config : EngineConfig) (e : Engine) : Prop where
  registry : e.provider.registry = r
  settings : e.config = config
  records : ∀ {t rec}, e.records.find? t = some rec → rec.WellFormed r config t

/-! ## Answers -/

section answers

variable {r : Registry} {t s : Ty} {key : LookupKey} {c : Candidate}

theorem Candidate.BelongsTo.of_above (hs : r.hierarchy.Above s t) (hc : c.BelongsTo r s key) :
    c.BelongsTo r t key :=
  { hc with owner := Relation.ReflTransGen.head hs hc.owner }

/-- Rest is no parameter of a declared candidate but the type of its receiver. -/
theorem Candidate.IsDeclared.rest_only_receiver (hc : c.IsDeclared r key) {place : Nat}
    (hrest : c.params[place]? = some .rest) : place = 0 ∧ c.origin = .instance ∧ c.owner = .rest := by
  have howner := hc.owner_of_mem_rest (List.mem_of_getElem? hrest)
  obtain ⟨m, _, hwell, heq⟩ := hc
  have hfixed := Declaration.rest_not_mem_fixed hwell
  have hparams : c.params = if m.takesReceiver key.bindReceiver then
      c.owner :: (if m.isVariadic then m.params.dropLast else m.params)
      else (if m.isVariadic then m.params.dropLast else m.params) := congrArg Candidate.params heq
  have horigin : c.origin = if m.isStatic then .static else if key.bindReceiver then .bound else .instance :=
    congrArg Candidate.origin heq
  rw [hparams] at hrest
  cases htakes : m.takesReceiver key.bindReceiver with
  | false =>
    rw [htakes, if_neg (by simp)] at hrest
    exact absurd (List.mem_of_getElem? hrest) hfixed
  | true =>
    rw [htakes, if_pos rfl] at hrest
    simp only [Declaration.takesReceiver, Bool.and_eq_true, Bool.not_eq_true'] at htakes
    refine ⟨?_, by rw [horigin, htakes.1, htakes.2]; rfl, howner⟩
    cases place with
    | zero => rfl
    | succ place =>
      rw [List.getElem?_cons_succ] at hrest
      exact absurd (List.mem_of_getElem? hrest) hfixed

theorem LookupKey.kind_of_admits {m : Member} (hadmits : key.admits m) (hnone : m.staticConstant? = none) :
    m.kind = key.kind := by
  simp only [LookupKey.admits, Bool.and_eq_true, Bool.or_eq_true, decide_eq_true_eq, hnone] at hadmits
  simpa using hadmits.2

/-- What a type declares itself belongs to the lookup, if it declares no constant for it. -/
theorem belongsTo_of_mem_candidatesAmong (hnone : key.constantAmong (r.membersOf t) = none)
    (hc : c ∈ key.candidatesAmong t (r.membersOf t).zipIdx) : c.BelongsTo r t key := by
  have hdeclared := Registry.isDeclared_of_mem_candidatesAmong hc
  obtain ⟨hmade, hpin⟩ := List.mem_filter.1 hc
  obtain ⟨⟨m, index⟩, hm, rfl⟩ := List.mem_map.1 hmade
  obtain ⟨hplace, hadmitted⟩ := List.mem_filter.1 hm
  obtain ⟨hadmits, _⟩ := Bool.and_eq_true_iff.1 hadmitted
  have hmem : m ∈ r.membersOf t := List.mem_of_getElem? (List.mem_zipIdx_iff_getElem?.1 hplace)
  have hconstant : m.staticConstant? = none :=
    List.findSome?_eq_none_iff.1 hnone m (List.mem_filter.2 ⟨hmem, hadmits⟩)
  have horigin : (Candidate.ofDeclaration t index key m.toDeclaration).origin =
      if m.isStatic then .static else if key.bindReceiver then .bound else .instance := rfl
  refine ⟨hdeclared, OwnMembers.key_of_admits hadmits, LookupKey.kind_of_admits hadmits hconstant, ?_, hpin, ?_,
    .refl, fun _ => hdeclared.rest_only_receiver⟩
  · simp only [LookupKey.admits, Bool.and_eq_true] at hadmits
    have := hadmits.1.2
    rw [horigin]
    cases hstatic : m.isStatic <;> cases hbind : key.bindReceiver <;> simpa [hstatic] using this
  · rw [horigin]
    cases m.isStatic <;> cases key.bindReceiver <;> simp

theorem origin_ne_instance_of_constant {members : List Member} {value : Value}
    (h : key.constantAmong members = some value) : key.origin ≠ .instance := by
  obtain ⟨m, hm, hvalue⟩ := List.exists_of_findSome?_eq_some h
  have hadmits := (List.mem_filter.1 hm).2
  simp only [LookupKey.admits, Bool.and_eq_true] at hadmits
  have hstatic : m.isStatic := by
    unfold Member.staticConstant? at hvalue
    split at hvalue
    · rename_i h
      exact h.2
    · cases hvalue
  intro horigin
  have := hadmits.1.2
  rw [horigin, hstatic] at this
  cases this

/-- **Well-formed answers of the supertypes make the answer of a type well formed.** -/
theorem Lookup.wellFormed_of_combine {above : List Lookup} {lookup : Lookup}
    (hnone : key.constantAmong (r.membersOf t) = none)
    (habove : ∀ l ∈ above, ∃ s ∈ r.hierarchy.supertypes t, l.WellFormed r s key)
    (h : r.combine key t (r.membersOf t) above = .ok lookup) : lookup.WellFormed r t key := by
  obtain ⟨hfirst, ⟨kept, rfl, hne⟩ | ⟨value, rfl, hvalue⟩ | rfl⟩ := Registry.combine_cases h
  · change kept = _ at hfirst
    refine ⟨hne, fun c hc => ?_, hfirst ▸ Candidate.pairwise_firstOfEach _⟩
    obtain hown | ⟨cs, hcs, hc⟩ := Registry.own_or_inherited h hc
    · exact belongsTo_of_mem_candidatesAmong hnone hown
    · obtain ⟨s, hs, _, hwell⟩ := habove _ hcs
      exact (hwell.belong c hc).of_above hs
  · obtain ⟨s, _, hwell⟩ := habove _ hvalue
    exact hwell
  · trivial

end answers

/-! ## Engines -/

namespace Engine

variable {r : Registry} {config : EngineConfig} {e : Engine} {t : Ty} {key : LookupKey}

theorem WellFormed.hierarchy_eq (he : e.WellFormed r config) : e.hierarchy = r.hierarchy :=
  congrArg Registry.hierarchy he.registry

theorem wellFormed_new (provider : Provider) (config : EngineConfig) :
    (Engine.new provider config).WellFormed provider.registry config := by
  unfold Engine.new
  split
  · exact ⟨rfl, rfl, fun h => by cases h⟩
  · exact ⟨rfl, rfl, fun h => by cases h⟩

/-- What lies outside the records, the registry and the settings may change. -/
theorem WellFormed.congr {e' : Engine} (he : e.WellFormed r config)
    (hregistry : e'.provider.registry = e.provider.registry) (hconfig : e'.config = e.config)
    (hrecords : e'.records = e.records) : e'.WellFormed r config :=
  ⟨hregistry.trans he.registry, hconfig.trans he.settings, fun h => he.records (hrecords ▸ h)⟩

theorem WellFormed.report_all (events : List Event) (he : e.WellFormed r config) :
    (events.foldl (fun e event => e.report event) e).WellFormed r config := by
  rw [foldl_report]
  exact he.congr rfl rfl rfl

/-- A record that changes into a well-formed one leaves all of them well formed. -/
theorem WellFormed.modify (he : e.WellFormed r config) {f : Record → Record}
    (hf : ∀ rec, e.records.find? t = some rec → (f rec).WellFormed r config t) :
    { e with records := e.records.modify f t }.WellFormed r config := by
  refine ⟨he.registry, he.settings, fun {u rec} hrec => ?_⟩
  change (e.records.modify f t).find? u = some rec at hrec
  rw [Cache.find?_modify] at hrec
  split at hrec
  · rename_i hu
    subst hu
    obtain ⟨old, hold, rfl⟩ := Option.map_eq_some_iff.1 hrec
    exact hf old hold
  · exact he.records hrec

theorem WellFormed.lookup (he : e.WellFormed r config) {lookup : Lookup}
    (h : e.lookedUp? t key = some lookup) : lookup.WellFormed r t key := by
  obtain ⟨rec, hrec, hlookup⟩ := Option.bind_eq_some_iff.1 h
  exact (he.records hrec).lookups hlookup

/-- A value that is kept is made of the answer of its lookup, which is kept too. -/
theorem WellFormed.value (he : e.WellFormed r config) {value : Option Value}
    (h : e.resolved? t key = some value) : ∃ lookup surface, e.lookedUp? t key = some lookup ∧
      value = lookup.value? r.hierarchy config surface t key.pin := by
  obtain ⟨rec, hrec, hvalue⟩ := Option.bind_eq_some_iff.1 h
  obtain ⟨lookup, surface, hlookup, hvalue⟩ := (he.records hrec).resolved hvalue
  exact ⟨lookup, surface, Option.bind_eq_some_iff.2 ⟨rec, hrec, hlookup⟩, hvalue⟩

/-- Is the value made of a well-formed answer to the lookup? -/
def IsMerged (r : Registry) (config : EngineConfig) (t : Ty) (key : LookupKey) (value : Option Value) :
    Prop :=
  ∃ lookup surface, lookup.WellFormed r t key ∧
    value = Lookup.value? r.hierarchy config surface t key.pin lookup

theorem WellFormed.isMerged (he : e.WellFormed r config) {value : Option Value}
    (h : e.resolved? t key = some value) : IsMerged r config t key value := by
  obtain ⟨lookup, surface, hlookup, hvalue⟩ := he.value h
  exact ⟨lookup, surface, he.lookup hlookup, hvalue⟩

theorem record_wellFormed (t : Ty) :
    Gives (WellFormed r config) (record t) fun rec => rec.WellFormed r config t := by
  intro e he
  have hlisted : { e with provider := (e.provider.list t).2 }.WellFormed r config :=
    he.congr (Provider.registry_list e.provider t) rfl rfl
  obtain ⟨rec, hrec, hrun⟩ | ⟨_, _, _, hrun⟩ | ⟨_, members, hlist, hrun⟩ := record_cases t e
  · rw [hrun]
    exact ⟨fun _ h => (by cases h; exact he.records hrec), he⟩
  · rw [hrun]
    exact ⟨fun _ h => (by cases h), hlisted⟩
  · rw [hrun]
    have hmembers := Provider.list_eq_ok hlist
    rw [he.registry] at hmembers
    have hmade : Record.WellFormed r config t
        { members
          supertypes := { e with provider := (e.provider.list t).2 }.hierarchy.supertypes t } :=
      ⟨hmembers, by rw [hlisted.hierarchy_eq], fun h => (by cases h), fun h => (by cases h)⟩
    refine ⟨fun _ h => (by cases h; exact hmade), hlisted.registry, hlisted.settings, fun {u rec} hrec => ?_⟩
    change Cache.find? u ((t, _) :: e.records) = some rec at hrec
    rw [Cache.find?] at hrec
    split at hrec
    · rename_i hu
      cases hrec
      exact hu ▸ hmade
    · exact he.records hrec

theorem keepLookup_wellFormed {lookup : Lookup} (hlookup : lookup.WellFormed r t key) :
    Gives (WellFormed r config) (keepLookup t key lookup) fun kept => kept.WellFormed r t key := by
  intro e he
  refine ⟨fun kept hkept => ?_, he.modify fun rec hrec => ?_⟩
  · cases hkept
    cases hfound : (e.records.find? t).bind (·.lookups.find? key) with
    | none => exact hlookup
    | some found => exact he.lookup hfound
  · have hwell := he.records hrec
    refine { hwell with lookups := fun hfound => ?_, resolved := fun hvalue => ?_ }
    · obtain hold | ⟨rfl, rfl⟩ := Cache.find?_store_cases hfound
      · exact hwell.lookups hold
      · exact hlookup
    · obtain ⟨answer, surface, hanswer, hvalue⟩ := hwell.resolved hvalue
      exact ⟨answer, surface, Cache.find?_store_of_find? hanswer, hvalue⟩

/-- A value that is made of the answer kept beside it may be kept, and what is kept is so made. -/
theorem keepResolved_wellFormed (he : e.WellFormed r config) {lookup : Lookup} (surface : String)
    (hlookup : e.lookedUp? t key = some lookup) :
    let ran := (keepResolved t key (lookup.value? r.hierarchy config surface t key.pin)).runFrom e
    (∀ value, ran.1 = .ok value → IsMerged r config t key value) ∧ ran.2.WellFormed r config := by
  refine ⟨fun value hvalue => ?_, he.modify fun rec hrec => ?_⟩
  · cases hvalue
    cases hfound : (e.records.find? t).bind (·.resolved.find? key) with
    | none => exact ⟨lookup, surface, he.lookup hlookup, rfl⟩
    | some found => exact he.isMerged hfound
  · have hwell := he.records hrec
    refine { hwell with resolved := fun hvalue => ?_ }
    obtain hold | ⟨rfl, rfl⟩ := Cache.find?_store_cases hvalue
    · exact hwell.resolved hold
    · rw [lookedUp?, hrec] at hlookup
      exact ⟨lookup, surface, hlookup, rfl⟩

theorem discoveryInvariant_wellFormed (r : Registry) (config : EngineConfig) (key : LookupKey) :
    DiscoveryInvariant key (WellFormed r config) (fun t rec => rec.WellFormed r config t)
      fun t lookup => lookup.WellFormed r t key where
  report _ he := he.congr rfl rfl rfl
  record t := record_wellFormed t
  hit hrec hhit := hrec.lookups hhit
  constant {t rec value} hrec hconstant := by
    cases hamong : key.constantAmong rec.members with
    | some found => exact origin_ne_instance_of_constant hamong
    | none =>
      rw [OwnMembers.scan_none (t := t) rec.members 0 {} hamong] at hconstant
      cases hconstant
  combine {e t rec above lookup} he hrec hconstant habove hcombine := by
    cases hamong : key.constantAmong rec.members with
    | some found =>
      rw [OwnMembers.scan_constant (t := t) rec.members 0 {} hamong] at hconstant
      cases hconstant
    | none =>
      rw [he.hierarchy_eq, OwnMembers.combine_scan above hamong] at hcombine
      rw [hrec.supertypes] at habove
      rw [Registry.membersOf_of_list hrec.members] at hamong hcombine
      exact Lookup.wellFormed_of_combine hamong habove hcombine
  keepLookup := keepLookup_wellFormed

theorem valueOf_eq_value? (e : Engine) (member : MemberName) (t : Ty) (lookup : Lookup) :
    e.valueOf member t lookup = lookup.value? e.hierarchy e.config member.surface t member.pin := by
  cases lookup <;> rfl

/-- **A resolution keeps all entries well formed.** -/
theorem resolveMember_wellFormed (t : Ty) (member : MemberName) (origin : OriginFilter)
    (bindReceiver : Bool) :
    Gives (WellFormed r config) (resolveMember t member origin bindReceiver)
      (IsMerged r config t (member.lookup origin bindReceiver)) := by
  unfold resolveMember
  generalize hkey : member.lookup origin bindReceiver = key
  have hpin : member.pin = key.pin := by rw [← hkey]; rfl
  refine (record_wellFormed t).bind fun rec hrec => ?_
  cases hhit : rec.resolved.find? key with
  | some hit =>
    obtain ⟨lookup, surface, hlookup, hvalue⟩ := hrec.resolved hhit
    exact Gives.pure ⟨lookup, surface, hrec.lookups hlookup, hvalue⟩
  | none =>
    intro e he
    have hdiscover := (discoveryInvariant_wellFormed r config key).discover discoveryDepth t e he
    dsimp only
    rw [runFrom_bind]
    cases hran : (discover discoveryDepth t key).runFrom e with
    | mk result last =>
      rw [hran] at hdiscover
      cases result with
      | error err => exact ⟨fun _ h => (by cases h), hdiscover.2⟩
      | ok lookup =>
        -- reports leave what discovery has kept
        have hstored := ((GrowsInto.refl last).report_all
          (last.valueEvents lookup (last.valueOf member t lookup))).lookedUp? (lookedUp?_of_discover hran)
        dsimp only
        rw [runFrom_get_bind, runFrom_set_bind]
        rw [valueOf_eq_value?, hdiscover.2.hierarchy_eq, hdiscover.2.settings, hpin] at hstored ⊢
        exact keepResolved_wellFormed (hdiscover.2.report_all _) member.surface hstored

end Engine

end Multimethod
