import Multimethod.Proofs.Engine.Recursion
import Multimethod.Proofs.Engine.Run

/-!
# What the records of an engine say

A record is faithful if it lists the members and the supertypes of its type, every lookup in it is
the answer of the recursion, and every value in it is made of that answer. Discovery and resolution
keep all records faithful, and what they give is the answer of the recursion, unless the provider
failed to list the members of some type. Where no failure is due, it is that answer and nothing else.

* `record_cases` — all that fetching a record can do.
* `record_keeps`, `discover_keeps`, `resolveMember_answers` — the three layers of a resolution.
* `resolveMember_keeps`, `resolveMember_eq_answer` — a resolution with failures of the provider, and
  without them.
-/

namespace Multimethod

/-! ## Results up to failures of listing -/

/-- Is the error one that the provider reports? -/
def DispatchError.IsListing : DispatchError → Prop
  | .listing _ _ => True
  | _ => False

/-- The result is the expected one, unless the members of some type could not be listed, which is out
of the question if listing is `certain`. -/
def Answers {α : Type} (certain : Prop) (expected result : Except DispatchError α) : Prop :=
  result = expected ∨ ¬ certain ∧ ∃ err, err.IsListing ∧ result = .error err

theorem Answers.of_eq {α : Type} {certain : Prop} {expected result : Except DispatchError α}
    (h : result = expected) : Answers certain expected result := .inl h

theorem Answers.ok {α : Type} {certain : Prop} {expected : Except DispatchError α} {a : α}
    (h : Answers certain expected (.ok a)) : expected = .ok a := by
  rcases h with heq | ⟨_, err, _, heq⟩
  · exact heq.symm
  · cases heq

theorem Answers.bind {α β : Type} {certain : Prop} {expected : Except DispatchError α}
    {err : DispatchError} (f : α → Except DispatchError β) (h : Answers certain expected (.error err)) :
    Answers certain (expected >>= f) (.error err) := by
  rcases h with heq | ⟨hcertain, err', herr, heq⟩
  · subst heq
    exact .of_eq rfl
  · cases heq
    exact .inr ⟨hcertain, err, herr, rfl⟩

namespace DispatchM

variable {α β : Type} {P : Engine → Prop} {certain : Prop}

/-- Resolutions one after another give what is expected of each, up to the first error. -/
theorem Keeps.mapM {f : α → DispatchM β} {expected : α → Except DispatchError β} {xs : List α}
    (h : ∀ x ∈ xs, Keeps P (f x) (Answers certain (expected x))) :
    Keeps P (xs.mapM f) (Answers certain (xs.mapM expected)) := by
  induction xs with
  | nil => exact Keeps.pure (.of_eq rfl)
  | cons x rest ih =>
    rw [List.mapM_cons, List.mapM_cons]
    refine (h x List.mem_cons_self).bind (fun b hb => ?_) fun err herr => herr.bind _
    rw [hb.ok]
    have hrest := ih fun y hy => h y (List.mem_cons_of_mem x hy)
    refine hrest.bind (fun bs hbs => ?_) fun err herr => herr.bind _
    rw [hbs.ok]
    exact Keeps.pure (.of_eq rfl)

end DispatchM

/-! ## Faithful records -/

section faithful

variable (r : Registry) (hw : WellFounded r.hierarchy.Above) (config : EngineConfig)
  (References : MemberName → Prop)

/-- The result is what some reference with this lookup stands for on a type. -/
def IsAnswer (t : Ty) (key : LookupKey) (result : Except DispatchError (Option Value)) : Prop :=
  ∃ member, References member ∧ member.lookup key.origin key.bindReceiver = key ∧
    result = (r.lookUp key hw t).map (·.value? r.hierarchy config member.surface t key.pin)

/-- All that a record of a type says is so. -/
structure Record.Faithful (t : Ty) (rec : Record) : Prop where
  members : r.list t = .ok rec.members
  supertypes : rec.supertypes = r.hierarchy.supertypes t
  lookups : ∀ key lookup, rec.lookups.find? key = some lookup → r.lookUp key hw t = .ok lookup
  resolved : ∀ key value, rec.resolved.find? key = some value →
    IsAnswer r hw config References t key (.ok value)

/-- All that an engine has recorded of types is so. -/
structure Engine.Faithful (e : Engine) : Prop where
  registry : e.provider.registry = r
  settings : e.config = config
  records : ∀ t rec, e.records.find? t = some rec → rec.Faithful r hw config References t

/-- All that an engine has recorded is so, and no failure of its provider is due if listing is
`certain`. -/
structure Engine.FaithfulIf (certain : Prop) (e : Engine) : Prop extends
    e.Faithful r hw config References where
  outages : certain → e.provider.outages = []

end faithful

section answers

variable {r : Registry} {hw : WellFounded r.hierarchy.Above} {config : EngineConfig}
  {References : MemberName → Prop} {t : Ty} {key : LookupKey}

theorem IsAnswer.exists_lookup {value : Option Value} (h : IsAnswer r hw config References t key (.ok value)) :
    ∃ lookup surface, r.lookUp key hw t = .ok lookup ∧
      value = lookup.value? r.hierarchy config surface t key.pin := by
  obtain ⟨member, -, -, heq⟩ := h
  cases hfound : r.lookUp key hw t with
  | error err =>
    rw [hfound] at heq
    cases heq
  | ok lookup =>
    rw [hfound] at heq
    exact ⟨lookup, member.surface, rfl, Except.ok.inj heq⟩

theorem IsAnswer.lookUp_eq_error {err : DispatchError}
    (h : IsAnswer r hw config References t key (.error err)) : r.lookUp key hw t = .error err := by
  obtain ⟨member, -, -, heq⟩ := h
  cases hfound : r.lookUp key hw t with
  | error err' =>
    rw [hfound] at heq
    cases heq
    rfl
  | ok lookup =>
    rw [hfound] at heq
    cases heq

end answers

namespace Engine

variable {r : Registry} {hw : WellFounded r.hierarchy.Above} {config : EngineConfig}
  {References : MemberName → Prop} {certain : Prop} {e : Engine} {t : Ty} {key : LookupKey}

theorem faithful_new (provider : Provider) (hw : WellFounded provider.registry.hierarchy.Above) :
    (Engine.new provider config).Faithful provider.registry hw config References := by
  unfold Engine.new
  split
  · exact ⟨rfl, rfl, fun _ _ h => by cases h⟩
  · exact ⟨rfl, rfl, fun _ _ h => by cases h⟩

/-- What lies outside the records, the registry and the settings may change. -/
theorem Faithful.congr {e' : Engine} (he : e.Faithful r hw config References)
    (hregistry : e'.provider.registry = e.provider.registry) (hconfig : e'.config = e.config)
    (hrecords : e'.records = e.records) : e'.Faithful r hw config References :=
  ⟨hregistry.trans he.registry, hconfig.trans he.settings, fun t rec h =>
    he.records t rec (hrecords ▸ h)⟩

theorem Faithful.hierarchy_eq (he : e.Faithful r hw config References) :
    e.hierarchy = r.hierarchy := by
  unfold hierarchy
  rw [he.registry]

theorem Faithful.report (event : Event) (he : e.Faithful r hw config References) :
    (e.report event).Faithful r hw config References := he.congr rfl rfl rfl

theorem Faithful.modify (he : e.Faithful r hw config References) (f : Record → Record)
    (hf : ∀ rec, rec.Faithful r hw config References t →
      (f rec).Faithful r hw config References t) :
    { e with records := e.records.modify f t }.Faithful r hw config References := by
  refine ⟨he.registry, he.settings, fun u rec hrec => ?_⟩
  change (e.records.modify f t).find? u = some rec at hrec
  rw [Cache.find?_modify] at hrec
  split at hrec
  · rename_i hu
    subst hu
    obtain ⟨old, hold, rfl⟩ := Option.map_eq_some_iff.1 hrec
    exact hf old (he.records u old hold)
  · exact he.records u rec hrec

/-- What lies outside the records, the registry and the settings may change, but for failures. -/
theorem FaithfulIf.congr {e' : Engine} (he : e.FaithfulIf r hw config References certain)
    (hprovider : e'.provider = e.provider) (hconfig : e'.config = e.config)
    (hrecords : e'.records = e.records) : e'.FaithfulIf r hw config References certain where
  toFaithful := he.toFaithful.congr (congrArg Provider.registry hprovider) hconfig hrecords
  outages hcertain := hprovider ▸ he.outages hcertain

theorem FaithfulIf.report_all (events : List Event)
    (he : e.FaithfulIf r hw config References certain) :
    (events.foldl (fun e event => e.report event) e).FaithfulIf r hw config References certain := by
  rw [foldl_report]
  exact he.congr rfl rfl rfl

theorem FaithfulIf.modify (he : e.FaithfulIf r hw config References certain) (f : Record → Record)
    (hf : ∀ rec, rec.Faithful r hw config References t →
      (f rec).Faithful r hw config References t) :
    { e with records := e.records.modify f t }.FaithfulIf r hw config References certain where
  toFaithful := he.toFaithful.modify f hf
  outages := he.outages

/-! ## The layers of a resolution -/

/-- Fetching a record gives one that is there, or fails to list the members and keeps nothing, or
makes a record of the members listed. -/
theorem record_cases (t : Ty) (e : Engine) :
    let listed : Engine := { e with provider := (e.provider.list t).2 }
    (∃ rec, e.records.find? t = some rec ∧ (record t).runFrom e = (.ok rec, e)) ∨
    (e.records.find? t = none ∧ ∃ failure, (e.provider.list t).1 = .error failure ∧
      (record t).runFrom e = (.error (.listing (listed.hierarchy.typeName t) failure), listed)) ∨
    (e.records.find? t = none ∧ ∃ members, (e.provider.list t).1 = .ok members ∧
      let made : Record := { members, supertypes := listed.hierarchy.supertypes t }
      (record t).runFrom e =
        (.ok made, { listed with records := (t, made) :: e.records }.report
          (.recordCreated (listed.hierarchy.typeName t) members.length))) := by
  unfold record
  rw [DispatchM.runFrom_get_bind]
  cases e.records.find? t with
  | some rec => exact .inl ⟨rec, rfl, rfl⟩
  | none =>
    cases hlist : e.provider.list t with
    | mk listed provider =>
      cases listed with
      | error failure => exact .inr (.inl ⟨rfl, failure, rfl, rfl⟩)
      | ok members => exact .inr (.inr ⟨rfl, members, rfl, rfl⟩)

theorem FaithfulIf.list_eq (he : e.FaithfulIf r hw config References certain) (hcertain : certain)
    (t : Ty) : e.provider.list t = (r.list t, e.provider) := by
  unfold Provider.list
  rw [he.outages hcertain, ← he.registry]

/-- A record that was fetched is faithful, and fetching fails for lack of members only. -/
theorem record_keeps (t : Ty) :
    DispatchM.Keeps (FaithfulIf r hw config References certain) (record t) fun
      | .ok rec => rec.Faithful r hw config References t
      | .error err => ∀ key, Answers certain (r.lookUp key hw t) (.error err) := by
  intro e he
  have hlisted : { e with provider := (e.provider.list t).2 }.FaithfulIf r hw config References
      certain := by
    refine ⟨he.toFaithful.congr (e.provider.registry_list t) rfl rfl, fun hcertain => ?_⟩
    rw [he.list_eq hcertain]
    exact he.outages hcertain
  rcases record_cases t e with ⟨rec, hrec, hrun⟩ | ⟨_, failure, hlist, hrun⟩ |
    ⟨_, members, hlist, hrun⟩
  · rw [hrun]
    exact ⟨he.records t rec hrec, he⟩
  · rw [hrun]
    refine ⟨fun key => ?_, hlisted⟩
    by_cases hcertain : certain
    · rw [he.list_eq hcertain] at hlist
      change r.list t = .error failure at hlist
      refine .of_eq ?_
      rw [Registry.lookUp_eq, Registry.lookUpFrom, hlist, hlisted.hierarchy_eq]
    · exact .inr ⟨hcertain, .listing _ failure, trivial, rfl⟩
  · rw [hrun]
    have hmembers := Provider.list_eq_ok hlist
    rw [he.registry] at hmembers
    have hmade : Record.Faithful r hw config References t
        { members
          supertypes := { e with provider := (e.provider.list t).2 }.hierarchy.supertypes t } := by
      refine ⟨hmembers, ?_, fun _ _ h => (by cases h), fun _ _ h => (by cases h)⟩
      rw [hlisted.hierarchy_eq]
    refine ⟨hmade, ⟨⟨hlisted.registry, hlisted.settings, fun u rec hrec => ?_⟩, hlisted.outages⟩⟩
    change Cache.find? u ((t, _) :: e.records) = some rec at hrec
    rw [Cache.find?] at hrec
    split at hrec
    · rename_i hu
      cases hrec
      exact hu ▸ hmade
    · exact he.records u rec hrec

theorem keepLookup_keeps {lookup : Lookup} (hlookup : r.lookUp key hw t = .ok lookup) :
    DispatchM.Keeps (FaithfulIf r hw config References certain) (keepLookup t key lookup)
      (Answers certain (.ok lookup)) := by
  intro e he
  refine ⟨.of_eq ?_, he.modify _ fun rec hrec => { hrec with lookups := ?_ }⟩
  · -- an answer that was kept before is the same
    show Except.ok (((e.records.find? t).bind (·.lookups.find? key)).getD lookup) = _
    cases hkept : (e.records.find? t).bind (·.lookups.find? key) with
    | none => rfl
    | some kept =>
      obtain ⟨rec, hrec, hkept⟩ := Option.bind_eq_some_iff.1 hkept
      have := (he.records t rec hrec).lookups key kept hkept
      rw [hlookup] at this
      cases this
      rfl
  · intro other found hfound
    change (rec.lookups.store key lookup).2.find? other = some found at hfound
    rcases Cache.find?_store_cases hfound with hold | ⟨rfl, rfl⟩
    · exact hrec.lookups other found hold
    · exact hlookup

theorem lookUp_of_constant {rec : Record} (hrec : rec.Faithful r hw config References t)
    {value : Value} (hvalue : key.constantAmong rec.members = some value) :
    r.lookUp key hw t = .ok (.constant value) := by
  rw [Registry.lookUp_eq, Registry.lookUpFrom, hrec.members]
  simp only [hvalue]

theorem lookUp_of_none {rec : Record} (hrec : rec.Faithful r hw config References t)
    (hnone : key.constantAmong rec.members = none) :
    r.lookUp key hw t =
      rec.supertypes.mapM (r.lookUp key hw) >>= r.combine key t rec.members := by
  rw [Registry.lookUp_eq, Registry.lookUpFrom, hrec.members, List.mapM_map, ← hrec.supertypes]
  simp only [hnone]
  rfl

/-- With the answers of the supertypes, a type that declares no constant gets its own answer. -/
theorem combine_keeps {rec : Record} (hrec : rec.Faithful r hw config References t)
    (hnone : key.constantAmong rec.members = none) {inherited : DispatchM (List Lookup)}
    (hinherited : DispatchM.Keeps (FaithfulIf r hw config References certain) inherited
      (Answers certain (rec.supertypes.mapM (r.lookUp key hw)))) :
    DispatchM.Keeps (FaithfulIf r hw config References certain)
      (do
        let lookups ← inherited
        let e ← get
        let lookup ← MonadExcept.ofExcept ((OwnMembers.scan t key 0 rec.members {}).combine
          (e.hierarchy.typeName t) key lookups)
        keepLookup t key lookup)
      (Answers certain (r.lookUp key hw t)) := by
  have hlookUp := lookUp_of_none hrec hnone
  rw [hlookUp]
  refine hinherited.bind (fun lookups hlookups e he => ?_) fun err herr => herr.bind _
  rw [hlookups.ok] at hlookUp ⊢
  rw [DispatchM.runFrom_get_bind, he.hierarchy_eq, OwnMembers.combine_scan lookups hnone]
  show Answers certain (r.combine key t rec.members lookups) _ ∧ _
  refine (DispatchM.Keeps.ofExcept (Q := Eq (r.combine key t rec.members lookups)) rfl).bind
    (fun lookup hlookup => ?_) (fun err herr => .of_eq herr.symm) e he
  rw [hlookup]
  exact keepLookup_keeps (hlookUp.trans hlookup)

/-- Discovery on a type rests on discovery on its supertypes. -/
theorem discover_of_above {levels : Nat}
    (habove : ∀ rec : Record, rec.Faithful r hw config References t →
      DispatchM.Keeps (FaithfulIf r hw config References certain) (discoverAbove levels key rec)
        (Answers certain (rec.supertypes.mapM (r.lookUp key hw)))) :
    DispatchM.Keeps (FaithfulIf r hw config References certain) (discover levels t key)
      (Answers certain (r.lookUp key hw t)) := by
  unfold discover
  refine (record_keeps t).bind (fun rec hrec => ?_) fun err herr => herr key
  change rec.Faithful r hw config References t at hrec
  cases hhit : rec.lookups.find? key with
  | some hit => exact DispatchM.Keeps.pure (.of_eq (hrec.lookups key hit hhit).symm)
  | none =>
    refine (warnMalformed_keeps (fun _ he => he.congr rfl rfl rfl) t _).bind (fun _ _ => ?_)
      fun _ herr => by cases herr
    cases hconstant : key.constantAmong rec.members with
    | some value =>
      have hlookUp := lookUp_of_constant hrec hconstant
      have hown := OwnMembers.scan_constant (t := t) rec.members 0 {} hconstant
      rw [hown, hlookUp]
      exact keepLookup_keeps hlookUp
    | none =>
      have hown := OwnMembers.scan_none (t := t) rec.members 0 {} hconstant
      have hcombine := combine_keeps hrec hconstant (habove rec hrec)
      unfold discoverAbove at hcombine
      rw [hown] at hcombine ⊢
      cases levels with
      | zero => exact hcombine
      | succ n => exact hcombine

/-- **Discovery gives the answer of the recursion,** whatever was cached before. -/
theorem discover_keeps (levels : Nat) (t : Ty) (hwithin : r.hierarchy.Within levels t) :
    DispatchM.Keeps (FaithfulIf r hw config References certain) (discover levels t key)
      (Answers certain (r.lookUp key hw t)) := by
  induction levels generalizing t with
  | zero =>
    refine discover_of_above fun rec hrec => ?_
    have hnone : rec.supertypes = [] := hrec.supertypes.trans hwithin
    rw [hnone]
    exact DispatchM.Keeps.pure (.of_eq rfl)
  | succ n ih =>
    refine discover_of_above fun rec hrec => ?_
    rw [discoverAbove, hrec.supertypes]
    exact DispatchM.Keeps.mapM fun s hs => ih s (hwithin s hs)

theorem valueOf_eq (he : e.Faithful r hw config References) (member : MemberName)
    (lookup : Lookup) :
    e.valueOf member t lookup =
      lookup.value? r.hierarchy config member.surface t member.pin := by
  cases lookup with
  | notFound => rfl
  | constant value => rfl
  | found candidates => rw [valueOf, Lookup.value?, he.hierarchy_eq, he.settings]

theorem keepResolved_keeps {value : Option Value}
    (hvalue : IsAnswer r hw config References t key (.ok value)) :
    DispatchM.Keeps (FaithfulIf r hw config References certain) (keepResolved t key value)
      (IsAnswer r hw config References t key) := by
  intro e he
  refine ⟨?_, he.modify _ fun rec hrec => { hrec with resolved := ?_ }⟩
  · show IsAnswer r hw config References t key
      (.ok (((e.records.find? t).bind (·.resolved.find? key)).getD value))
    cases hkept : (e.records.find? t).bind (·.resolved.find? key) with
    | none => exact hvalue
    | some kept =>
      obtain ⟨rec, hrec, hkept⟩ := Option.bind_eq_some_iff.1 hkept
      exact (he.records t rec hrec).resolved key kept hkept
  · intro other found hfound
    change (rec.resolved.store key value).2.find? other = some found at hfound
    rcases Cache.find?_store_cases hfound with hold | ⟨rfl, rfl⟩
    · exact hrec.resolved other found hold
    · exact hvalue

/-- **Resolution gives the answer of the recursion,** whatever was cached before, unless the provider
fails. -/
theorem resolveMember_answers {member : MemberName} (hmember : References member)
    (hwithin : r.hierarchy.Within discoveryDepth t) (origin : OriginFilter) (bindReceiver : Bool) :
    DispatchM.Keeps (FaithfulIf r hw config References certain)
      (resolveMember t member origin bindReceiver) fun result =>
        IsAnswer r hw config References t (member.lookup origin bindReceiver) result ∨
          ¬ certain ∧ ∃ err, err.IsListing ∧ result = .error err := by
  unfold resolveMember
  generalize hkey : member.lookup origin bindReceiver = key
  have hlookup : member.lookup key.origin key.bindReceiver = key := by subst hkey; rfl
  have hpin : member.pin = key.pin := by subst hkey; rfl
  -- an error of discovery is one of the resolution
  have hfails : ∀ err, Answers certain (r.lookUp key hw t) (.error err) →
      IsAnswer r hw config References t key (.error err) ∨
        ¬ certain ∧ ∃ err', err'.IsListing ∧ (.error err : Except DispatchError (Option Value)) =
          .error err' := by
    rintro err (hfailed | ⟨hcertain, err', herr, hfailed⟩)
    · exact .inl ⟨member, hmember, hlookup, by rw [← hfailed]; rfl⟩
    · exact .inr ⟨hcertain, err', herr, by cases hfailed; rfl⟩
  refine (record_keeps t).bind (fun rec hrec => ?_) fun err herr => hfails err (herr key)
  change rec.Faithful r hw config References t at hrec
  cases hhit : rec.resolved.find? key with
  | some hit => exact DispatchM.Keeps.pure (.inl (hrec.resolved key hit hhit))
  | none =>
    refine (discover_keeps discoveryDepth t hwithin).bind (fun lookup hanswer e he => ?_) hfails
    rw [DispatchM.runFrom_get_bind, DispatchM.runFrom_set_bind, valueOf_eq he.toFaithful, hpin]
    have hvalue : IsAnswer r hw config References t key
        (.ok (lookup.value? r.hierarchy config member.surface t key.pin)) :=
      ⟨member, hmember, hlookup, by rw [hanswer.ok]; rfl⟩
    obtain ⟨hkept, hkeeps⟩ := keepResolved_keeps hvalue _ (he.report_all _)
    exact ⟨.inl hkept, hkeeps⟩

/-- A resolution gives the answer of the recursion, unless the members of some type cannot be
listed. -/
theorem resolveMember_keeps {member : MemberName} (hmember : References member)
    (hwithin : r.hierarchy.Within discoveryDepth t) (origin : OriginFilter) (bindReceiver : Bool) :
    DispatchM.Keeps (Faithful r hw config References) (resolveMember t member origin bindReceiver)
      fun result => IsAnswer r hw config References t (member.lookup origin bindReceiver) result ∨
        ∃ err, err.IsListing ∧ result = .error err := by
  intro e he
  obtain ⟨hanswer, hkeeps⟩ := resolveMember_answers hmember hwithin origin bindReceiver e
    ⟨he, False.elim⟩
  exact ⟨hanswer.imp_right And.right, hkeeps.toFaithful⟩

/-- Where no failure of the provider is due, a resolution gives the answer of the recursion. -/
theorem resolveMember_eq_answer {member : MemberName} (hmember : References member)
    (hwithin : r.hierarchy.Within discoveryDepth t) (origin : OriginFilter) (bindReceiver : Bool) :
    DispatchM.Keeps (FaithfulIf r hw config References True)
      (resolveMember t member origin bindReceiver)
      (IsAnswer r hw config References t (member.lookup origin bindReceiver)) := by
  intro e he
  obtain ⟨hanswer, hkeeps⟩ := resolveMember_answers hmember hwithin origin bindReceiver e he
  exact ⟨hanswer.resolve_right fun h => h.1 trivial, hkeeps⟩

end Engine

end Multimethod
