import Multimethod.Proofs.Engine.Answers
import Multimethod.Proofs.Engine.Spelled

/-!
# The text that a table goes by

What a reference stands for is kept under the key and the kind of its member, and not under its text; but a
table goes by a text. As the key and the kind tell the text of a spelled reference, it makes no difference who
asked first.

* `Engine.Signed` — all values are made of the answers beside them, under the texts of spelled references.
* `resolveMember_signed` — a resolution of a spelled reference keeps it so.
* `Engine.keys_determine_texts` — a table that is kept goes by the text of whoever asks for it.
* `Engine.constant_keeps_name` — a constant that holds a table goes by the text of the table.
-/

namespace Multimethod

namespace Engine

open DispatchM

variable {r : Registry} {config : EngineConfig} {e : Engine} {t : Ty} {key : LookupKey}

/-! ## Discovery -/

theorem resolved?_record (t s : Ty) (key : LookupKey) (e : Engine) :
    ((record t).runFrom e).2.resolved? s key = e.resolved? s key := by
  obtain ⟨_, _, hrun⟩ | ⟨_, _, _, hrun⟩ | ⟨hnone, _, _, hrun⟩ := record_cases t e
  · rw [hrun]
  · rw [hrun]
    rfl
  · rw [hrun]
    show (Cache.find? s ((t, _) :: e.records)).bind _ = (e.records.find? s).bind _
    rw [Cache.find?]
    split
    · -- a new record has no values yet
      rename_i hs
      rw [← hs, hnone]
      rfl
    · rfl

theorem discoveryInvariant_resolved? (e : Engine) (key : LookupKey) :
    DiscoveryInvariant key (fun later => ∀ s key', later.resolved? s key' = e.resolved? s key')
      (fun _ _ => True) fun _ _ => True where
  report _ h := h
  record t later h :=
    ⟨fun _ _ => trivial, fun s key' => (resolved?_record t s key' later).trans (h s key')⟩
  hit _ _ := trivial
  constant _ _ := trivial
  combine _ _ _ _ _ := trivial
  keepLookup {t lookup} _ later h := by
    refine ⟨fun _ _ => trivial, fun s key' => Eq.trans ?_ (h s key')⟩
    show ((later.records.modify (·.storeLookup key lookup) t).find? s).bind (·.resolved.find? key') = _
    rw [Cache.find?_modify, resolved?]
    split
    · cases later.records.find? s <;> rfl
    · rfl

theorem resolved?_discover (levels : Nat) (t : Ty) (key : LookupKey) (e : Engine) (s : Ty) (key' : LookupKey) :
    ((discover levels t key).runFrom e).2.resolved? s key' = e.resolved? s key' :=
  ((discoveryInvariant_resolved? e key).discover levels t e fun _ _ => rfl).2 s key'

/-! ## Signed values -/

/-- Are all values made of the answers kept beside them, each under the text of a spelled reference that asks
for the lookup? -/
structure Signed (r : Registry) (config : EngineConfig) (e : Engine) : Prop extends e.WellFormed r config where
  signed : ∀ {t key value}, e.resolved? t key = some value →
    ∃ (lookup : Lookup) (member : MemberName), e.lookedUp? t key = some lookup ∧ member.IsSpelled ∧
      member.lookup key.origin key.bindReceiver = key ∧
      value = lookup.value? r.hierarchy config member.surface t key.pin

theorem signed_new (provider : Provider) (config : EngineConfig) :
    (Engine.new provider config).Signed provider.registry config := by
  refine ⟨wellFormed_new provider config, ?_⟩
  unfold Engine.new
  split
  · exact fun h => by cases h
  · exact fun h => by cases h

/-- What lies outside the records, the registry and the settings may change. -/
theorem Signed.congr {e' : Engine} (he : e.Signed r config)
    (hregistry : e'.provider.registry = e.provider.registry) (hconfig : e'.config = e.config)
    (hrecords : e'.records = e.records) : e'.Signed r config := by
  refine ⟨he.toWellFormed.congr hregistry hconfig hrecords, fun hvalue => ?_⟩
  simp only [resolved?, lookedUp?, hrecords] at hvalue ⊢
  exact he.signed hvalue

/-- The answers may become more, if the values stay as they are. -/
theorem Signed.of_growsInto {later : Engine} (he : e.Signed r config) (hlater : later.WellFormed r config)
    (hgrows : e.GrowsInto later) (hresolved : ∀ s key, later.resolved? s key = e.resolved? s key) :
    later.Signed r config := by
  refine ⟨hlater, fun hvalue => ?_⟩
  rw [hresolved] at hvalue
  obtain ⟨lookup, member, hlookup, hmade⟩ := he.signed hvalue
  exact ⟨lookup, member, hgrows.lookedUp? hlookup, hmade⟩

theorem resolved?_keepResolved {value found : Option Value} {s : Ty} {key' : LookupKey}
    (h : ((keepResolved t key value).runFrom e).2.resolved? s key' = some found) :
    e.resolved? s key' = some found ∨ s = t ∧ key' = key ∧ found = value := by
  change ((e.records.modify (·.storeResolved key value) t).find? s).bind (·.resolved.find? key') = _ at h
  rw [Cache.find?_modify] at h
  split at h
  · rename_i hs
    subst hs
    obtain ⟨rec, hrec, hfound⟩ := Option.bind_eq_some_iff.1 h
    obtain ⟨old, hold, rfl⟩ := Option.map_eq_some_iff.1 hrec
    obtain hfound | ⟨rfl, rfl⟩ := Cache.find?_store_cases hfound
    · exact .inl (Option.bind_eq_some_iff.2 ⟨old, hold, hfound⟩)
    · exact .inr ⟨rfl, rfl, rfl⟩
  · exact .inl h

/-- **A resolution of a spelled reference keeps values signed.** -/
theorem resolveMember_signed (t : Ty) {member : MemberName} (hmember : member.IsSpelled) (origin : OriginFilter)
    (bindReceiver : Bool) (he : e.Signed r config) :
    ((resolveMember t member origin bindReceiver).runFrom e).2.Signed r config := by
  have hwell := (resolveMember_wellFormed t member origin bindReceiver e he.toWellFormed).2
  cases hresolved : e.resolved? t (member.lookup origin bindReceiver) with
  | some value =>
    rw [resolveMember_of_resolved? hresolved]
    exact he
  | none =>
    rw [runFrom_resolveMember hresolved] at hwell ⊢
    generalize hkey : member.lookup origin bindReceiver = key at hwell ⊢
    have hdiscovered : ((discover discoveryDepth t key).runFrom e).2.Signed r config :=
      he.of_growsInto ((discoveryInvariant_wellFormed r config key).discover _ t e he.toWellFormed).2
        (discover_grows e discoveryDepth t key e (.refl e)).2 (resolved?_discover discoveryDepth t key e)
    cases hran : (discover discoveryDepth t key).runFrom e with
    | mk result last =>
      rw [hran] at hwell hdiscovered
      cases result with
      | error err => exact hdiscovered
      | ok lookup =>
        have hlookup : last.lookedUp? t key = some lookup := lookedUp?_of_discover hran
        have hpin : member.pin = key.pin := by rw [← hkey]; rfl
        dsimp only at hwell ⊢
        refine ⟨hwell, fun {s key' found} hfound => ?_⟩
        simp only [lookedUp?_keepResolved, foldl_report] at hfound ⊢
        obtain hold | ⟨rfl, rfl, rfl⟩ := resolved?_keepResolved hfound
        · exact hdiscovered.signed hold
        · refine ⟨lookup, member, hlookup, hmember, by rw [← hkey]; rfl, ?_⟩
          rw [valueOf_eq_value?, hdiscovered.hierarchy_eq, hdiscovered.settings, hpin]

theorem stable_signed (r : Registry) (config : EngineConfig) :
    Stable MemberName.IsSpelled (Signed r config) where
  spelled hmember := hmember
  report _ he := he.congr rfl rfl rfl
  withImports _ he := he.congr rfl rfl rfl
  withOutages _ he := he.congr rfl rfl rfl
  resolveMember t _ origin bindReceiver hmember he := resolveMember_signed t hmember origin bindReceiver he

/-! ## Tables -/

/-- The table that is kept under a lookup, if what the reference stands for is one. -/
def keptTable? (e : Engine) (t : Ty) (key : LookupKey) : Option DispatchTable :=
  match e.resolved? t key with
  | some (some (.procedure (.table table))) => some table
  | _ => none

theorem keptTable?_eq_some {table : DispatchTable} :
    e.keptTable? t key = some table ↔ e.resolved? t key = some (some (.procedure (.table table))) := by
  unfold keptTable?
  constructor
  · intro h
    split at h
    · rename_i hkept
      cases h
      exact hkept
    · cases h
  · intro h
    rw [h]

/-- Is the value kept as the answer of the lookup, a constant that the registry declares? -/
def KeepsConstant (r : Registry) (e : Engine) (t : Ty) (key : LookupKey) (value : Value) : Prop :=
  e.lookedUp? t key = some (.constant value) ∧ ∃ owner, ∃ m ∈ r.membersOf owner, m.staticConstant? = some value

/-- What is kept for a spelled reference is what it makes itself of the answer that is kept. -/
theorem Signed.value_eq (he : e.Signed r config) {member : MemberName} (hmember : member.IsSpelled)
    {origin : OriginFilter} {bindReceiver : Bool} {value : Option Value}
    (hvalue : e.resolved? t (member.lookup origin bindReceiver) = some value) :
    ∃ lookup, e.lookedUp? t (member.lookup origin bindReceiver) = some lookup ∧
      value = lookup.value? r.hierarchy config member.surface t member.pin := by
  obtain ⟨lookup, written, hlookup, hwritten, hkey, rfl⟩ := he.signed hvalue
  have hsurface : written.surface = member.surface :=
    MemberName.surface_eq_of_isSpelled hwritten hmember (congrArg LookupKey.key hkey) (congrArg LookupKey.kind hkey)
  rw [hsurface]
  exact ⟨lookup, hlookup, rfl⟩

/-- A table is made of candidates under the text of the reference, or it is a constant. -/
theorem name_eq_of_value? {lookup : Lookup} {h : Hierarchy} {surface : String} {pin : Option Nat}
    {table : DispatchTable} (hvalue : some (.procedure (.table table)) = lookup.value? h config surface t pin) :
    table.name = surface ∨ lookup = .constant (.procedure (.table table)) := by
  cases lookup with
  | notFound => cases hvalue
  | constant value =>
    cases hvalue
    exact .inr rfl
  | found cs =>
    obtain ⟨made, hmade, hprocedure⟩ := Option.map_eq_some_iff.1 hvalue.symm
    cases hprocedure
    obtain ⟨_, _, hdirect⟩ | ⟨_, _, _, htable⟩ := Callable.ofCandidates?_cases hmade
    · cases hdirect
    · cases htable
      exact .inl rfl

/-- **Keys determine texts.** Of all references that names spell, those of one key and kind have one text. So
in every state that an engine may come to where names spell all references, what is kept under a lookup is
what each reference that asks for it makes, under its own text, of the answer that is kept. A table that is
kept goes by this text, whoever asked first, and so does a table that the reference is resolved to, which is
kept then. Only a table that a declared constant holds keeps the name that it has. -/
theorem keys_determine_texts (provider : Provider) (config : EngineConfig) :
    (∀ name name' : String, ∀ m ∈ (Name.classify name).members, ∀ n ∈ (Name.classify name').members,
      m.key = n.key → m.kind = n.kind → m.surface = n.surface) ∧
    ∀ e : Engine, e.IsReachable provider config → ∀ name : String, ∀ member ∈ (Name.classify name).members,
      ∀ (t : Ty) (origin : OriginFilter) (bindReceiver : Bool),
        let key := member.lookup origin bindReceiver
        (∀ value, e.resolved? t key = some value → ∃ lookup, e.lookedUp? t key = some lookup ∧
          value = lookup.value? provider.registry.hierarchy config member.surface t member.pin) ∧
        (∀ table, e.keptTable? t key = some table →
          table.name = member.surface ∨ e.KeepsConstant provider.registry t key (.procedure (.table table))) ∧
        ∀ table later, (resolveMember t member origin bindReceiver).runFrom e =
            (.ok (some (.procedure (.table table))), later) →
          later.keptTable? t key = some table ∧ (table.name = member.surface ∨
            later.KeepsConstant provider.registry t key (.procedure (.table table))) := by
  refine ⟨fun name name' m hm n hn => MemberName.surface_eq_of_isSpelled ⟨name, hm⟩ ⟨name', hn⟩, ?_⟩
  intro e he name member hmember t origin bindReceiver key
  have hspelled : member.IsSpelled := ⟨name, hmember⟩
  have hsigned (f : Engine) (hf : f.IsReachable provider config) : f.Signed provider.registry config :=
    hf.of_stable (stable_signed provider.registry config) (signed_new provider config)
  have htable (f : Engine) (hf : f.IsReachable provider config) (table : DispatchTable)
      (hkept : f.keptTable? t key = some table) :
      table.name = member.surface ∨ f.KeepsConstant provider.registry t key (.procedure (.table table)) := by
    obtain ⟨lookup, hlookup, hvalue⟩ := (hsigned f hf).value_eq hspelled (keptTable?_eq_some.1 hkept)
    refine (name_eq_of_value? hvalue).imp_right ?_
    rintro rfl
    exact ⟨hlookup, (hf.spelled.lookup hlookup).2⟩
  refine ⟨fun value => (hsigned e he).value_eq hspelled, htable e he, fun table later hrun => ?_⟩
  have hlater : later.IsReachable provider config := by
    have := he.resolveMember t origin bindReceiver hspelled
    rwa [hrun] at this
  have hkept : later.keptTable? t key = some table := keptTable?_eq_some.2 (resolved?_of_resolveMember hrun)
  exact ⟨hkept, htable later hlater table hkept⟩

/-- A qualified name has filled in a table, and a plain name asks for it. -/
theorem keys_determine_texts_of_plain :
    let f (param : Ty) : Member :=
      { key := "fB", kind := .method, params := [param], ret := .text, body := .constant .null }
    let provider : Provider := { registry :=
      { hierarchy := ⟨[⟨"T", []⟩]⟩, members := [(.host 0, [f .int, f .text])] } }
    let filled := ((resolve "T/f!" none).runFrom (.new provider {})).2
    let member := (Name.classify "f!").member
    ∃ table, filled.IsReachable provider {} ∧ member ∈ (Name.classify "f!").members ∧
      filled.keptTable? (.host 0) (member.lookup .any false) = some table ∧ table.name = member.surface := by
  intro f provider filled member
  have hfilled : filled.IsReachable provider {} :=
    ((stable_isReachable provider {}).keeps_resolve "T/f!" none _ .new).2
  have hmember : member ∈ (Name.classify "f!").members := by decide
  obtain ⟨table, htable⟩ := Option.isSome_iff_exists.1
    (show (filled.keptTable? (.host 0) (member.lookup .any false)).isSome by decide +kernel)
  refine ⟨table, hfilled, hmember, htable, ?_⟩
  obtain ⟨_, hkept, _⟩ := (keys_determine_texts provider {}).2 filled hfilled "f!" member hmember (.host 0) .any false
  obtain hname | ⟨_, owner, m, hm, hconstant⟩ := hkept table htable
  · exact hname
  · exact absurd hconstant (Registry.staticConstant?_ne_some (by decide) hm _)

/-- **A constant that holds a table keeps the name of the table.** On the type `A` the name `f` stands for a
table, and the constant `alias` of the type `B` holds it. So this table is kept for the reference `alias`,
though it goes by the name `f`. -/
theorem constant_keeps_name :
    let f (param : Ty) : Member :=
      { key := "f", kind := .method, params := [param], ret := .text, body := .constant .null }
    let hierarchy : Hierarchy := ⟨[⟨"A", []⟩, ⟨"B", []⟩]⟩
    let provider (more : List (Ty × List Member)) : Provider :=
      { registry := { hierarchy, members := (.host 0, [f .int, f .text]) :: more } }
    let key := (Name.classify "f").member.lookup .any false
    let candidate (index : Nat) (param : Ty) : Candidate :=
      .ofDeclaration (.host 0) index key (f param).toDeclaration
    let table : DispatchTable :=
      .ofCandidates hierarchy "f" (.host 0) 4 8 none (candidate 0 .int) [candidate 1 .text]
    let aliased := provider [(.host 1, [.constant "alias" (.procedure (.table table))])]
    let later := ((resolve "B/alias" none).runFrom (.new aliased {})).2
    let member := (Name.classify "alias").member
    ((resolve "A/f" none).runFrom (.new (provider []) {})).2.keptTable? (.host 0) key = some table ∧
      later.IsReachable aliased {} ∧ member ∈ (Name.classify "alias").members ∧
      later.keptTable? (.host 1) (member.lookup .any false) = some table ∧
      ((resolveMember (.host 1) member .any false).runFrom later).1 = .ok (some (.procedure (.table table))) ∧
      table.name = "f" ∧ member.surface = "alias" ∧ table.name ≠ member.surface := by
  intro f hierarchy provider key candidate table aliased later member
  have hlater : later.IsReachable aliased {} :=
    ((stable_isReachable aliased {}).keeps_resolve "B/alias" none _ .new).2
  have hkept : later.keptTable? (.host 1) (member.lookup .any false) = some table := by decide +kernel
  have hresolved := resolveMember_of_resolved? (keptTable?_eq_some.1 hkept)
  exact ⟨by decide +kernel, hlater, by decide, hkept, by rw [hresolved], rfl, rfl, by decide⟩

end Engine

end Multimethod
