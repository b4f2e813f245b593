import Multimethod.Proofs.Engine.Discovery

/-!
# Records only grow

Whatever is done with an engine, it forgets nothing and changes nothing that it has recorded: a record
stays with the members and supertypes it was made with, and an answer stays under its key. So once a
reference is resolved, it is resolved for good: resolving it again reads what was kept and does nothing
else.

* `Engine.GrowsInto` — the later engine has recorded all that the earlier one has, and it unchanged.
* `resolveMember_grows` — a resolution, failed or not, lets the engine grow.
* `resolveMember_of_resolved?` — a reference that is resolved gives what was kept, and changes nothing.
* `resolved?_of_resolveMember`, `lookedUp?_of_discover` — what was given has been kept.
-/

namespace Multimethod

open DispatchM

/-- The later record has all the answers of the earlier one. -/
structure Record.GrowsInto (rec later : Record) : Prop where
  members : later.members = rec.members
  supertypes : later.supertypes = rec.supertypes
  lookups : ∀ {key lookup}, rec.lookups.find? key = some lookup → later.lookups.find? key = some lookup
  resolved : ∀ {key value}, rec.resolved.find? key = some value → later.resolved.find? key = some value

/-- The later engine has all the records of the earlier one, with all their answers, and the same
registry and settings. -/
structure Engine.GrowsInto (e later : Engine) : Prop where
  registry : later.provider.registry = e.provider.registry
  settings : later.config = e.config
  records : ∀ {t rec}, e.records.find? t = some rec →
    ∃ grown, later.records.find? t = some grown ∧ rec.GrowsInto grown

theorem Cache.find?_store_of_find? {κ : Type u} {ν : Type v} [DecidableEq κ] {cache : Cache κ ν}
    {key other : κ} {value found : ν} (h : cache.find? other = some found) :
    (cache.store key value).2.find? other = some found := by
  rw [find?_store]
  split
  · rename_i heq
    subst heq
    rw [h, Option.getD_some]
  · exact h

namespace Record

variable {rec later last : Record}

theorem GrowsInto.refl (rec : Record) : rec.GrowsInto rec := ⟨rfl, rfl, id, id⟩

theorem GrowsInto.trans (h : rec.GrowsInto later) (h' : later.GrowsInto last) : rec.GrowsInto last where
  members := h'.members.trans h.members
  supertypes := h'.supertypes.trans h.supertypes
  lookups hfound := h'.lookups (h.lookups hfound)
  resolved hfound := h'.resolved (h.resolved hfound)

theorem growsInto_storeLookup (rec : Record) (key : LookupKey) (lookup : Lookup) :
    rec.GrowsInto (rec.storeLookup key lookup) :=
  ⟨rfl, rfl, Cache.find?_store_of_find?, id⟩

theorem growsInto_storeResolved (rec : Record) (key : LookupKey) (value : Option Value) :
    rec.GrowsInto (rec.storeResolved key value) :=
  ⟨rfl, rfl, id, Cache.find?_store_of_find?⟩

end Record

namespace Engine

variable {e later last : Engine} {t s : Ty} {key : LookupKey}

theorem GrowsInto.refl (e : Engine) : e.GrowsInto e :=
  ⟨rfl, rfl, fun h => ⟨_, h, .refl _⟩⟩

theorem GrowsInto.trans (h : e.GrowsInto later) (h' : later.GrowsInto last) : e.GrowsInto last where
  registry := h'.registry.trans h.registry
  settings := h'.settings.trans h.settings
  records hfound := by
    obtain ⟨grown, hgrown, hgrows⟩ := h.records hfound
    obtain ⟨grown', hgrown', hgrows'⟩ := h'.records hgrown
    exact ⟨grown', hgrown', hgrows.trans hgrows'⟩

/-- What lies outside the records, the registry and the settings may change. -/
theorem GrowsInto.congr (h : e.GrowsInto later)
    (hregistry : last.provider.registry = later.provider.registry) (hconfig : last.config = later.config)
    (hrecords : last.records = later.records) : e.GrowsInto last :=
  ⟨hregistry.trans h.registry, hconfig.trans h.settings, fun hfound => hrecords ▸ h.records hfound⟩

theorem GrowsInto.report_all (events : List Event) (h : e.GrowsInto later) :
    e.GrowsInto (events.foldl (fun e event => e.report event) later) := by
  rw [foldl_report]
  exact h.congr rfl rfl rfl

theorem GrowsInto.modify (h : e.GrowsInto later) (t : Ty) {f : Record → Record}
    (hf : ∀ rec : Record, rec.GrowsInto (f rec)) :
    e.GrowsInto { later with records := later.records.modify f t } := by
  refine h.trans ⟨rfl, rfl, fun {u rec} hfound => ?_⟩
  show ∃ grown, (later.records.modify f t).find? u = some grown ∧ _
  rw [Cache.find?_modify, hfound]
  split
  · exact ⟨f rec, rfl, hf rec⟩
  · exact ⟨rec, rfl, .refl rec⟩

/-! ## Resolutions -/

/-- The answer of a lookup that has been kept. -/
def lookedUp? (e : Engine) (t : Ty) (key : LookupKey) : Option Lookup :=
  (e.records.find? t).bind (·.lookups.find? key)

/-- What a reference is known to stand for. -/
def resolved? (e : Engine) (t : Ty) (key : LookupKey) : Option (Option Value) :=
  (e.records.find? t).bind (·.resolved.find? key)

theorem GrowsInto.lookedUp? (h : e.GrowsInto later) {lookup : Lookup}
    (hfound : e.lookedUp? t key = some lookup) : later.lookedUp? t key = some lookup := by
  obtain ⟨rec, hrec, hfound⟩ := Option.bind_eq_some_iff.1 hfound
  obtain ⟨grown, hgrown, hgrows⟩ := h.records hrec
  exact Option.bind_eq_some_iff.2 ⟨grown, hgrown, hgrows.lookups hfound⟩

theorem GrowsInto.resolved? (h : e.GrowsInto later) {value : Option Value}
    (hfound : e.resolved? t key = some value) : later.resolved? t key = some value := by
  obtain ⟨rec, hrec, hfound⟩ := Option.bind_eq_some_iff.1 hfound
  obtain ⟨grown, hgrown, hgrows⟩ := h.records hrec
  exact Option.bind_eq_some_iff.2 ⟨grown, hgrown, hgrows.resolved hfound⟩

theorem record_grows (e : Engine) (t : Ty) : Gives (GrowsInto e) (record t) fun _ => True := by
  intro later h
  refine ⟨fun _ _ => trivial, ?_⟩
  have hlisted : e.GrowsInto { later with provider := (later.provider.list t).2 } :=
    h.congr (Provider.registry_list later.provider t) rfl rfl
  obtain ⟨_, _, hrun⟩ | ⟨_, _, _, hrun⟩ | ⟨hnone, _, _, hrun⟩ := record_cases t later
  · rw [hrun]
    exact h
  · rw [hrun]
    exact hlisted
  · rw [hrun]
    refine hlisted.trans ⟨rfl, rfl, fun {u rec} hfound => ⟨rec, ?_, .refl rec⟩⟩
    -- the type was not recorded before
    have hu : t ≠ u := by
      rintro rfl
      change later.records.find? t = some rec at hfound
      rw [hnone] at hfound
      cases hfound
    show Cache.find? u ((t, _) :: later.records) = some rec
    rw [Cache.find?, if_neg hu]
    exact hfound

theorem keepLookup_grows (e : Engine) (t : Ty) (lookup : Lookup) :
    Gives (GrowsInto e) (keepLookup t key lookup) fun _ => True :=
  fun _ h => ⟨fun _ _ => trivial, h.modify t (Record.growsInto_storeLookup · key lookup)⟩

theorem keepResolved_grows (e : Engine) (t : Ty) (value : Option Value) :
    Gives (GrowsInto e) (keepResolved t key value) fun _ => True :=
  fun _ h => ⟨fun _ _ => trivial, h.modify t (Record.growsInto_storeResolved · key value)⟩

theorem discoveryInvariant_growsInto (e : Engine) (key : LookupKey) :
    DiscoveryInvariant key (GrowsInto e) (fun _ _ => True) fun _ _ => True where
  report _ h := h.congr rfl rfl rfl
  record t := record_grows e t
  hit _ _ := trivial
  constant _ _ := trivial
  combine _ _ _ _ _ := trivial
  keepLookup _ := keepLookup_grows e _ _

theorem discover_grows (e : Engine) (levels : Nat) (t : Ty) (key : LookupKey) :
    Gives (GrowsInto e) (discover levels t key) fun _ => True :=
  (discoveryInvariant_growsInto e key).discover levels t

/-- **A resolution, failed or not, lets the engine grow.** -/
theorem resolveMember_grows (e : Engine) (t : Ty) (member : MemberName) (origin : OriginFilter)
    (bindReceiver : Bool) :
    Gives (GrowsInto e) (resolveMember t member origin bindReceiver) fun _ => True := by
  unfold resolveMember
  refine (record_grows e t).bind fun rec _ => ?_
  split
  · exact Gives.pure trivial
  refine (discover_grows e _ t _).bind fun lookup _ => ?_
  intro later h
  rw [runFrom_get_bind, runFrom_set_bind]
  exact keepResolved_grows e t _ _ (h.report_all _)

/-! ## What is kept -/

/-- A value at the end of two resolutions, one after the other, is that of the second one. -/
theorem exists_of_bind_eq_ok {α β : Type} {m : DispatchM α} {f : α → DispatchM β} {b : β}
    (h : (m >>= f).runFrom e = (.ok b, last)) :
    ∃ a later, m.runFrom e = (.ok a, later) ∧ (f a).runFrom later = (.ok b, last) := by
  rw [runFrom_bind] at h
  cases hm : m.runFrom e with
  | mk result later =>
    rw [hm] at h
    cases result with
    | error err => cases h
    | ok a => exact ⟨a, later, rfl, h⟩

theorem record_of_find? {rec : Record} (hrec : e.records.find? t = some rec) :
    (record t).runFrom e = (.ok rec, e) := by
  unfold record
  rw [runFrom_get_bind, hrec]
  rfl

theorem find?_of_record {rec : Record} (h : (record t).runFrom e = (.ok rec, later)) :
    later.records.find? t = some rec := by
  obtain ⟨_, hrec, hrun⟩ | ⟨_, _, _, hrun⟩ | ⟨_, _, _, hrun⟩ := record_cases t e
  · rw [hrun] at h
    cases h
    exact hrec
  · rw [hrun] at h
    cases h
  · rw [hrun] at h
    cases h
    exact if_pos rfl

theorem lookedUp?_of_keepLookup {rec : Record} {lookup kept : Lookup} (hrec : e.records.find? t = some rec)
    (h : (keepLookup t key lookup).runFrom e = (.ok kept, later)) : later.lookedUp? t key = some kept := by
  cases h
  show ((e.records.modify (·.storeLookup key lookup) t).find? t).bind (·.lookups.find? key) = _
  rw [Cache.find?_modify, if_pos rfl, hrec]
  show (rec.lookups.store key lookup).2.find? key = _
  rw [Cache.find?_store, if_pos rfl]
  rfl

theorem resolved?_of_keepResolved {rec : Record} {value kept : Option Value}
    (hrec : e.records.find? t = some rec) (h : (keepResolved t key value).runFrom e = (.ok kept, later)) :
    later.resolved? t key = some kept := by
  cases h
  show ((e.records.modify (·.storeResolved key value) t).find? t).bind (·.resolved.find? key) = _
  rw [Cache.find?_modify, if_pos rfl, hrec]
  show (rec.resolved.store key value).2.find? key = _
  rw [Cache.find?_store, if_pos rfl]
  rfl

/-- **What discovery gives has been kept.** -/
theorem lookedUp?_of_discover {levels : Nat} {lookup : Lookup}
    (h : (discover levels t key).runFrom e = (.ok lookup, last)) : last.lookedUp? t key = some lookup := by
  rw [discover_eq] at h
  obtain ⟨rec, later, hrec, h⟩ := exists_of_bind_eq_ok h
  have hfound := find?_of_record hrec
  cases hhit : rec.lookups.find? key with
  | some hit =>
    rw [hhit] at h
    cases h
    exact Option.bind_eq_some_iff.2 ⟨rec, hfound, hhit⟩
  | none =>
    rw [hhit] at h
    obtain ⟨answer, later', hanswer, h⟩ := exists_of_bind_eq_ok h
    -- the record is still there when the answer has been found
    have hgrows := (discoveryInvariant_growsInto later key).answerOf levels t rec trivial later (.refl later)
    rw [hanswer] at hgrows
    obtain ⟨grown, hgrown, _⟩ := hgrows.2.records hfound
    exact lookedUp?_of_keepLookup hgrown h

/-- **What a reference was resolved to has been kept.** -/
theorem resolved?_of_resolveMember {member : MemberName} {origin : OriginFilter} {bindReceiver : Bool}
    {value : Option Value}
    (h : (resolveMember t member origin bindReceiver).runFrom e = (.ok value, last)) :
    last.resolved? t (member.lookup origin bindReceiver) = some value := by
  unfold resolveMember at h
  generalize member.lookup origin bindReceiver = key at h ⊢
  obtain ⟨rec, later, hrec, h⟩ := exists_of_bind_eq_ok h
  have hfound := find?_of_record hrec
  cases hhit : rec.resolved.find? key with
  | some hit =>
    rw [hhit] at h
    cases h
    exact Option.bind_eq_some_iff.2 ⟨rec, hfound, hhit⟩
  | none =>
    rw [hhit] at h
    obtain ⟨lookup, later', hlookup, h⟩ := exists_of_bind_eq_ok h
    rw [runFrom_get_bind, runFrom_set_bind] at h
    have hgrows := discover_grows later discoveryDepth t key later (.refl later)
    rw [hlookup] at hgrows
    obtain ⟨grown, hgrown, _⟩ := (hgrows.2.report_all _).records hfound
    exact resolved?_of_keepResolved hgrown h

/-- **A reference that is resolved gives what was kept, and changes nothing.** -/
theorem resolveMember_of_resolved? {member : MemberName} {origin : OriginFilter} {bindReceiver : Bool}
    {value : Option Value} (h : e.resolved? t (member.lookup origin bindReceiver) = some value) :
    (resolveMember t member origin bindReceiver).runFrom e = (.ok value, e) := by
  obtain ⟨rec, hrec, hvalue⟩ := Option.bind_eq_some_iff.1 h
  unfold resolveMember
  rw [runFrom_bind, record_of_find? hrec]
  simp only [hvalue]
  rfl

theorem find?_of_find?_record {rec : Record} (h : ((record t).runFrom e).2.records.find? s = some rec) :
    e.records.find? s = some rec ∨ rec.lookups = [] ∧ rec.resolved = [] := by
  obtain ⟨_, _, hrun⟩ | ⟨_, _, _, hrun⟩ | ⟨_, members, _, hrun⟩ := record_cases t e
  · rw [hrun] at h
    exact .inl h
  · rw [hrun] at h
    exact .inl h
  · rw [hrun] at h
    change Cache.find? s ((t, _) :: e.records) = some rec at h
    rw [Cache.find?] at h
    split at h
    · cases h
      exact .inr ⟨rfl, rfl⟩
    · exact .inl h

theorem lookedUp?_of_record {lookup : Lookup} (h : ((record t).runFrom e).2.lookedUp? s key = some lookup) :
    e.lookedUp? s key = some lookup := by
  obtain ⟨rec, hrec, hlookup⟩ := Option.bind_eq_some_iff.1 h
  obtain hrec | ⟨hlookups, _⟩ := find?_of_find?_record hrec
  · exact Option.bind_eq_some_iff.2 ⟨rec, hrec, hlookup⟩
  · rw [hlookups] at hlookup
    cases hlookup

theorem resolved?_of_record {value : Option Value}
    (h : ((record t).runFrom e).2.resolved? s key = some value) : e.resolved? s key = some value := by
  obtain ⟨rec, hrec, hvalue⟩ := Option.bind_eq_some_iff.1 h
  obtain hrec | ⟨_, hresolved⟩ := find?_of_find?_record hrec
  · exact Option.bind_eq_some_iff.2 ⟨rec, hrec, hvalue⟩
  · rw [hresolved] at hvalue
    cases hvalue

theorem discover_of_lookedUp? {lookup : Lookup} (levels : Nat) (h : e.lookedUp? t key = some lookup) :
    (discover levels t key).runFrom e = (.ok lookup, e) := by
  obtain ⟨rec, hrec, hlookup⟩ := Option.bind_eq_some_iff.1 h
  rw [discover_eq, runFrom_bind, record_of_find? hrec]
  simp only [hlookup]
  rfl

/-- A resolution whose value is not known starts with the discovery. -/
theorem runFrom_resolveMember {member : MemberName} {origin : OriginFilter} {bindReceiver : Bool}
    (h : e.resolved? t (member.lookup origin bindReceiver) = none) :
    (resolveMember t member origin bindReceiver).runFrom e =
      match (discover discoveryDepth t (member.lookup origin bindReceiver)).runFrom e with
      | (.ok lookup, last) =>
        let value := last.valueOf member t lookup
        (keepResolved t (member.lookup origin bindReceiver) value).runFrom
          ((last.valueEvents lookup value).foldl (fun e event => e.report event) last)
      | (.error err, last) => (.error err, last) := by
  have hnone : ((record t).runFrom e).2.resolved? t (member.lookup origin bindReceiver) = none :=
    Option.eq_none_iff_forall_ne_some.2 fun value hfound => by
      rw [resolved?_of_record hfound] at h
      cases h
  unfold resolveMember
  generalize member.lookup origin bindReceiver = key at hnone ⊢
  rw [discover_eq, runFrom_bind, runFrom_bind]
  cases hran : (record t).runFrom e with
  | mk result later =>
    cases result with
    | error err => rfl
    | ok rec =>
      have hrec := find?_of_record hran
      have hmiss : rec.resolved.find? key = none := by
        rwa [hran, resolved?, hrec] at hnone
      -- the discovery fetches the record once more
      dsimp only
      simp only [hmiss]
      rw [runFrom_bind, discover_eq, runFrom_bind, record_of_find? hrec]
      dsimp only
      generalize DispatchM.runFrom _ later = ran
      obtain ⟨_ | lookup, last⟩ := ran <;> rfl

end Engine

end Multimethod
