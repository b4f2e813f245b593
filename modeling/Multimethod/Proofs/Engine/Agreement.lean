import Multimethod.Proofs.Engine.Growth
import Multimethod.Proofs.Engine.Listing

/-!
# Engines that agree

What a reference resolves to depends on little of an engine: on what it takes each type to declare, and on the
answers kept under the keys that the lookup asks for. Which types are recorded already and what is kept under
other keys makes no difference, apart from the failures of the provider that come due in between.

* `Engine.seen` — what an engine takes a type to declare, recorded or not.
* `Engine.AgreesOn` — two engines see the same of all types and have the same answers under some keys.
* `DispatchM.AgreeFrom` — two resolutions end alike, unless a failure of the provider ends one of them.
* `Engine.resolveMember_agreeFrom` — engines that agree resolve a reference alike.
* `Engine.resolveMember_follows` — a resolution under other keys leaves an engine that agrees.
-/

namespace Multimethod

open DispatchM

/-- Members that cannot be listed are not those of the registry, unless a failure was due. -/
theorem Provider.list_eq_error {p : Provider} {t : Ty} {failure : ListingFailure}
    (h : (p.list t).1 = .error failure) :
    p.registry.list t = .error failure ∨ failure = .unavailable ∧ p.outages ≠ [] := by
  unfold Provider.list at h
  split at h
  · rename_i fails rest houtages
    cases fails with
    | true =>
      cases h
      exact .inr ⟨rfl, houtages ▸ List.cons_ne_nil true rest⟩
    | false => exact .inl h
  · exact .inl h

/-- Do the records say the same, with the same answers under these keys? -/
structure Record.AgreesOn (Keys : LookupKey → Prop) (rec rec' : Record) : Prop where
  members : rec.members = rec'.members
  supertypes : rec.supertypes = rec'.supertypes
  lookups : ∀ {key}, Keys key → rec.lookups.find? key = rec'.lookups.find? key
  resolved : ∀ {key}, Keys key → rec.resolved.find? key = rec'.resolved.find? key

theorem Record.AgreesOn.refl (Keys : LookupKey → Prop) (rec : Record) : rec.AgreesOn Keys rec :=
  ⟨rfl, rfl, fun _ => rfl, fun _ => rfl⟩

namespace Engine

variable {Keys : LookupKey → Prop} {certain : Prop} {e f g : Engine} {t : Ty} {key : LookupKey}
  {rec rec' : Record}

/-- The members and the supertypes of a type: those recorded, or else those that the registry lists. -/
def seen (e : Engine) (t : Ty) : Except ListingFailure (List Member × List Ty) :=
  match e.records.find? t with
  | some rec => .ok (rec.members, rec.supertypes)
  | none => (e.provider.registry.list t).map (·, e.hierarchy.supertypes t)

/-- Do the engines see the same of the type, and have they the same answers under these keys? -/
structure AgreesAt (Keys : LookupKey → Prop) (e f : Engine) (t : Ty) : Prop where
  seen : e.seen t = f.seen t
  lookedUp? : ∀ {key}, Keys key → e.lookedUp? t key = f.lookedUp? t key
  resolved? : ∀ {key}, Keys key → e.resolved? t key = f.resolved? t key

/-- Do the engines agree about all types, on the same registry and with the same settings? -/
structure AgreesOn (Keys : LookupKey → Prop) (e f : Engine) : Prop where
  registry : e.provider.registry = f.provider.registry
  settings : e.config = f.config
  root : e.root = f.root
  types : ∀ t, e.AgreesAt Keys f t

/-- Does the record say of the type what the engine does? -/
structure Shows (e : Engine) (t : Ty) (rec : Record) : Prop where
  seen : e.seen t = .ok (rec.members, rec.supertypes)
  lookedUp? : ∀ key, e.lookedUp? t key = rec.lookups.find? key
  resolved? : ∀ key, e.resolved? t key = rec.resolved.find? key

theorem shows_of_find? (hrec : e.records.find? t = some rec) : e.Shows t rec := by
  refine ⟨?_, fun key => ?_, fun key => ?_⟩
  · rw [Engine.seen, hrec]
  · rw [Engine.lookedUp?, hrec]
    rfl
  · rw [Engine.resolved?, hrec]
    rfl

theorem shows_of_list {members : List Member} (hnone : e.records.find? t = none)
    (hlist : e.provider.registry.list t = .ok members) :
    e.Shows t { members, supertypes := e.hierarchy.supertypes t } := by
  refine ⟨?_, fun key => ?_, fun key => ?_⟩
  · rw [Engine.seen, hnone, hlist]
    rfl
  · rw [Engine.lookedUp?, hnone]
    rfl
  · rw [Engine.resolved?, hnone]
    rfl

namespace AgreesAt

theorem of_shows (hrec : e.Shows t rec) (hrec' : f.Shows t rec') (h : rec.AgreesOn Keys rec') :
    e.AgreesAt Keys f t := by
  refine ⟨?_, fun hkey => ?_, fun hkey => ?_⟩
  · rw [hrec.seen, hrec'.seen, h.members, h.supertypes]
  · rw [hrec.lookedUp?, hrec'.lookedUp?, h.lookups hkey]
  · rw [hrec.resolved?, hrec'.resolved?, h.resolved hkey]

theorem of_find? (hregistry : e.provider.registry = f.provider.registry)
    (hfind : e.records.find? t = f.records.find? t) : e.AgreesAt Keys f t := by
  refine ⟨?_, fun _ => ?_, fun _ => ?_⟩
  · unfold Engine.seen hierarchy
    rw [hfind, hregistry]
  · rw [Engine.lookedUp?, Engine.lookedUp?, hfind]
  · rw [Engine.resolved?, Engine.resolved?, hfind]

theorem symm (h : e.AgreesAt Keys f t) : f.AgreesAt Keys e t :=
  ⟨h.seen.symm, fun hkey => (h.lookedUp? hkey).symm, fun hkey => (h.resolved? hkey).symm⟩

theorem trans (h : e.AgreesAt Keys f t) (h' : f.AgreesAt Keys g t) : e.AgreesAt Keys g t :=
  ⟨h.seen.trans h'.seen, fun hkey => (h.lookedUp? hkey).trans (h'.lookedUp? hkey),
    fun hkey => (h.resolved? hkey).trans (h'.resolved? hkey)⟩

theorem agreesOn (h : e.AgreesAt Keys f t) (hrec : e.Shows t rec) (hrec' : f.Shows t rec') :
    rec.AgreesOn Keys rec' := by
  have hseen := h.seen
  rw [hrec.seen, hrec'.seen] at hseen
  obtain ⟨hmembers, hsupertypes⟩ := Prod.ext_iff.1 (Except.ok.inj hseen)
  refine ⟨hmembers, hsupertypes, fun hkey => ?_, fun hkey => ?_⟩
  · rw [← hrec.lookedUp?, ← hrec'.lookedUp?, h.lookedUp? hkey]
  · rw [← hrec.resolved?, ← hrec'.resolved?, h.resolved? hkey]

end AgreesAt

namespace AgreesOn

theorem symm (h : e.AgreesOn Keys f) : f.AgreesOn Keys e :=
  ⟨h.registry.symm, h.settings.symm, h.root.symm, fun t => (h.types t).symm⟩

theorem trans (h : e.AgreesOn Keys f) (h' : f.AgreesOn Keys g) : e.AgreesOn Keys g :=
  ⟨h.registry.trans h'.registry, h.settings.trans h'.settings, h.root.trans h'.root,
    fun t => (h.types t).trans (h'.types t)⟩

theorem hierarchy_eq (h : e.AgreesOn Keys f) : e.hierarchy = f.hierarchy :=
  congrArg Registry.hierarchy h.registry

theorem of_records (hregistry : e.provider.registry = f.provider.registry) (hconfig : e.config = f.config)
    (hroot : e.root = f.root) (hrecords : e.records = f.records) : e.AgreesOn Keys f :=
  ⟨hregistry, hconfig, hroot, fun _ => .of_find? hregistry (by rw [hrecords])⟩

theorem refl (Keys : LookupKey → Prop) (e : Engine) : e.AgreesOn Keys e := .of_records rfl rfl rfl rfl

theorem report (h : e.AgreesOn Keys f) (event : Event) : (e.report event).AgreesOn Keys f :=
  trans (f := e) (of_records rfl rfl rfl rfl) h

theorem report_all (h : e.AgreesOn Keys f) (events : List Event) :
    (events.foldl (fun e event => e.report event) e).AgreesOn Keys f := by
  rw [foldl_report]
  exact trans (f := e) (of_records rfl rfl rfl rfl) h

end AgreesOn

/-! ## Fetching a record -/

theorem agreesOn_of_shows {provider : Provider} (hrec : e.Shows t rec)
    (hregistry : provider.registry = e.provider.registry) :
    { e with provider, records := (t, rec) :: e.records }.AgreesOn Keys e := by
  refine ⟨hregistry, rfl, rfl, fun u => ?_⟩
  by_cases hu : t = u
  · subst hu
    exact .of_shows (shows_of_find? (if_pos rfl)) hrec (.refl Keys rec)
  · exact .of_find? hregistry (if_neg hu)

theorem record_agreesOn (Keys : LookupKey → Prop) (e : Engine) (t : Ty) :
    ((record t).runFrom e).2.AgreesOn Keys e := by
  have hregistry := e.provider.registry_list t
  have hlisted : { e with provider := (e.provider.list t).2 }.hierarchy = e.hierarchy :=
    congrArg Registry.hierarchy hregistry
  obtain ⟨_, _, hrun⟩ | ⟨_, _, _, hrun⟩ | ⟨hnone, members, hlist, hrun⟩ := record_cases t e
  · rw [hrun]
    exact .refl Keys e
  · rw [hrun]
    exact .of_records hregistry rfl rfl rfl
  · rw [hrun, hlisted]
    have hshows := shows_of_list hnone (Provider.list_eq_ok hlist)
    exact (agreesOn_of_shows hshows hregistry).report _

/-- Is the result a failure of the provider that will pass? -/
def IsOutage {α : Type} (result : Except DispatchError α) : Prop :=
  ∃ name, result = .error (.listing name .unavailable)

/-- Fetching a record gives what is seen of the type, unless a failure of the provider is due. -/
theorem record_shows (e : Engine) (t : Ty) :
    (∃ rec, ((record t).runFrom e).1 = .ok rec ∧ e.Shows t rec) ∨
    (∃ failure, e.seen t = .error failure ∧
      ((record t).runFrom e).1 = .error (.listing (e.hierarchy.typeName t) failure)) ∨
    (e.provider.outages ≠ [] ∧ IsOutage ((record t).runFrom e).1) := by
  have hlisted : { e with provider := (e.provider.list t).2 }.hierarchy = e.hierarchy :=
    congrArg Registry.hierarchy (e.provider.registry_list t)
  obtain ⟨rec, hrec, hrun⟩ | ⟨hnone, failure, hlist, hrun⟩ | ⟨hnone, members, hlist, hrun⟩ := record_cases t e
  · rw [hrun]
    exact .inl ⟨rec, rfl, shows_of_find? hrec⟩
  · rw [hrun, hlisted]
    obtain hlist | ⟨rfl, hdue⟩ := Provider.list_eq_error hlist
    · refine .inr (.inl ⟨failure, ?_, rfl⟩)
      rw [Engine.seen, hnone, hlist]
      rfl
    · exact .inr (.inr ⟨hdue, _, rfl⟩)
  · rw [hrun, hlisted]
    exact .inl ⟨_, rfl, shows_of_list hnone (Provider.list_eq_ok hlist)⟩

end Engine

/-! ## Two resolutions -/

namespace Engine

/-- Do no failures of a provider tell the engines apart: since none is due, or since both list the same types
and fail together? -/
def FailAlike (e f : Engine) : Prop := (e.provider.outages = [] ∧ f.provider.outages = []) ∨ e.ListsAlike f

/-- Do the engines agree, and if this is `certain`, do no failures tell them apart? -/
structure Matches (Keys : LookupKey → Prop) (certain : Prop) (e f : Engine) : Prop extends
    e.AgreesOn Keys f where
  failAlike : certain → e.FailAlike f

end Engine

namespace DispatchM

open Engine

variable {α α' β β' : Type} {P : Engine → Engine → Prop} {certain : Prop} {R : α → α' → Prop}
  {S : β → β' → Prop} {m : DispatchM α} {m' : DispatchM α'} {k : α → DispatchM β} {k' : α' → DispatchM β'}
  {e f : Engine}

/-- From these two engines the resolutions end alike and leave engines related by `P`, or a failure of the
provider ends one of them, which is out of the question if all is `certain`. -/
def AgreeFrom (P : Engine → Engine → Prop) (certain : Prop) (R : α → α' → Prop) (m : DispatchM α)
    (m' : DispatchM α') (e f : Engine) : Prop :=
  (ResultsAlike Eq R (m.runFrom e).1 (m'.runFrom f).1 ∧ P (m.runFrom e).2 (m'.runFrom f).2) ∨
    ¬ certain ∧ (IsOutage (m.runFrom e).1 ∨ IsOutage (m'.runFrom f).1)

namespace AgreeFrom

theorem pure {a : α} {a' : α'} (ha : R a a') (hef : P e f) :
    AgreeFrom P certain R (pure a) (pure a') e f := .inl ⟨.ok ha, hef⟩

theorem ofExcept (result : Except DispatchError α) (hef : P e f) :
    AgreeFrom P certain Eq (MonadExcept.ofExcept result) (MonadExcept.ofExcept result) e f := by
  unfold AgreeFrom
  rw [runFrom_ofExcept, runFrom_ofExcept]
  refine .inl ⟨?_, hef⟩
  cases result with
  | ok a => exact .ok rfl
  | error err => exact .error rfl

theorem bind (hm : AgreeFrom P certain R m m' e f)
    (hk : ∀ a a' e' f', m.runFrom e = (.ok a, e') → m'.runFrom f = (.ok a', f') → R a a' → P e' f' →
      AgreeFrom P certain S (k a) (k' a') e' f') :
    AgreeFrom P certain S (m >>= k) (m' >>= k') e f := by
  unfold AgreeFrom at hm ⊢
  rw [runFrom_bind, runFrom_bind]
  cases hrun : m.runFrom e with
  | mk result e' =>
    cases hrun' : m'.runFrom f with
    | mk result' f' =>
      rw [hrun, hrun'] at hm
      obtain ⟨hresults, hengines⟩ | ⟨hcertain, ⟨name, rfl⟩ | ⟨name, rfl⟩⟩ := hm
      · cases hresults with
        | ok hanswers => exact hk _ _ _ _ hrun hrun' hanswers hengines
        | error herrors => exact .inl ⟨.error herrors, hengines⟩
      · exact .inr ⟨hcertain, .inl ⟨name, rfl⟩⟩
      · exact .inr ⟨hcertain, .inr ⟨name, rfl⟩⟩

theorem get_bind {k : Engine → DispatchM β} {k' : Engine → DispatchM β'}
    (h : AgreeFrom P certain S (k e) (k' f) e f) :
    AgreeFrom P certain S (get >>= k) (get >>= k') e f := by
  unfold AgreeFrom at h ⊢
  rwa [runFrom_get_bind, runFrom_get_bind]

theorem mapM {k : α → DispatchM β} {xs : List α}
    (h : ∀ x ∈ xs, ∀ e f, P e f → AgreeFrom P certain Eq (k x) (k x) e f) (hef : P e f) :
    AgreeFrom P certain Eq (xs.mapM k) (xs.mapM k) e f := by
  induction xs generalizing e f with
  | nil => exact pure rfl hef
  | cons x rest ih =>
    rw [List.mapM_cons]
    refine (h x List.mem_cons_self e f hef).bind fun b b' e₁ f₁ _ _ hb hef₁ => ?_
    refine (ih (fun y hy => h y (List.mem_cons_of_mem x hy)) hef₁).bind fun bs bs' e₂ f₂ _ _ hbs hef₂ => ?_
    rw [hb, hbs]
    exact pure rfl hef₂

end AgreeFrom

end DispatchM

/-! ## Lookups under the keys that are compared -/

namespace Engine

variable {Keys : LookupKey → Prop} {certain : Prop} {e f : Engine} {t : Ty} {key : LookupKey}

/-- What changes neither providers nor which types are recorded leaves failures alike. -/
theorem FailAlike.congr (h : e.FailAlike f) {e' f' : Engine} (hprovider : e'.provider = e.provider)
    (hprovider' : f'.provider = f.provider)
    (hrecorded : ∀ t, (e'.records.find? t).isSome = (e.records.find? t).isSome)
    (hrecorded' : ∀ t, (f'.records.find? t).isSome = (f.records.find? t).isSome) : e'.FailAlike f' := by
  obtain ⟨hnone, hnone'⟩ | hlists := h
  · exact .inl ⟨hprovider ▸ hnone, hprovider' ▸ hnone'⟩
  · refine .inr ⟨by rw [hprovider, hprovider', hlists.provider], fun t => ?_⟩
    rw [hrecorded, hrecorded', hlists.recorded]

/-- Engines that agree record the same of a type, unless a failure is due. -/
theorem record_resultsAlike (hef : e.AgreesOn Keys f) (t : Ty) :
    ResultsAlike Eq (Record.AgreesOn Keys) ((record t).runFrom e).1 ((record t).runFrom f).1 ∨
      (e.provider.outages ≠ [] ∧ IsOutage ((record t).runFrom e).1) ∨
      (f.provider.outages ≠ [] ∧ IsOutage ((record t).runFrom f).1) := by
  have hseen := (hef.types t).seen
  obtain ⟨rec, hrun, hrec⟩ | ⟨failure, hfailure, hrun⟩ | hout := record_shows e t
  · obtain ⟨rec', hrun', hrec'⟩ | ⟨failure, hfailure, _⟩ | hout := record_shows f t
    · rw [hrun, hrun']
      exact .inl (.ok ((hef.types t).agreesOn hrec hrec'))
    · rw [hrec.seen, hfailure] at hseen
      cases hseen
    · exact .inr (.inr hout)
  · obtain ⟨rec', _, hrec'⟩ | ⟨failure', hfailure', hrun'⟩ | hout := record_shows f t
    · rw [hrec'.seen, hfailure] at hseen
      cases hseen
    · rw [hfailure, hfailure'] at hseen
      cases hseen
      rw [hrun, hrun', hef.hierarchy_eq]
      exact .inl (.error rfl)
    · exact .inr (.inr hout)
  · exact .inr (.inl hout)

theorem outages_record (h : e.provider.outages = []) (t : Ty) :
    ((record t).runFrom e).2.provider.outages = [] := by
  have hlist : (e.provider.list t).2.outages = [] := by
    unfold Provider.list
    rw [h]
    exact h
  obtain ⟨_, _, hrun⟩ | ⟨_, _, _, hrun⟩ | ⟨_, _, _, hrun⟩ := record_cases t e
  · rw [hrun]
    exact h
  · rw [hrun]
    exact hlist
  · rw [hrun]
    exact hlist

theorem record_agreeFrom (hef : e.Matches Keys certain f) (t : Ty) :
    AgreeFrom (Matches Keys certain) certain (Record.AgreesOn Keys) (record t) (record t) e f := by
  have hresults := record_resultsAlike hef.toAgreesOn t
  have hengines := (record_agreesOn Keys e t).trans (hef.toAgreesOn.trans (record_agreesOn Keys f t).symm)
  by_cases hcertain : certain
  · left
    obtain ⟨hnone, hnone'⟩ | hlists := hef.failAlike hcertain
    · obtain hresults | ⟨hdue, _⟩ | ⟨hdue, _⟩ := hresults
      · exact ⟨hresults, hengines, fun _ => .inl ⟨outages_record hnone t, outages_record hnone' t⟩⟩
      · exact absurd hnone hdue
      · exact absurd hnone' hdue
    · obtain ⟨hfail, hlists⟩ := record_listsAlike t hlists
      refine ⟨?_, hengines, fun _ => .inr hlists⟩
      obtain hresults | ⟨_, name, hout⟩ | ⟨_, name, hout⟩ := hresults
      · exact hresults
      · rw [hout] at hfail ⊢
        generalize ((record t).runFrom f).1 = result at hfail ⊢
        cases hfail with
        | error herrors => exact .error herrors
      · rw [hout] at hfail ⊢
        generalize ((record t).runFrom e).1 = result at hfail ⊢
        cases hfail with
        | error herrors => exact .error herrors
  · obtain hresults | ⟨_, hout⟩ | ⟨_, hout⟩ := hresults
    · exact .inl ⟨hresults, hengines, fun h => absurd h hcertain⟩
    · exact .inr ⟨hcertain, .inl hout⟩
    · exact .inr ⟨hcertain, .inr hout⟩

/-! ## Answers that are kept -/

theorem AgreesOn.modify {rec rec' : Record} (hef : e.AgreesOn Keys f) (hrec : e.records.find? t = some rec)
    (hrec' : f.records.find? t = some rec') {change : Record → Record}
    (hchange : (change rec).AgreesOn Keys (change rec')) :
    { e with records := e.records.modify change t }.AgreesOn Keys
      { f with records := f.records.modify change t } := by
  refine ⟨hef.registry, hef.settings, hef.root, fun u => ?_⟩
  by_cases hu : u = t
  · subst hu
    refine .of_shows (shows_of_find? ?_) (shows_of_find? ?_) hchange
    · exact (Cache.find?_modify change u u e.records).trans (by rw [if_pos rfl, hrec]; rfl)
    · exact (Cache.find?_modify change u u f.records).trans (by rw [if_pos rfl, hrec']; rfl)
  · have hothers (e : Engine) : { e with records := e.records.modify change t }.AgreesAt Keys e u :=
      .of_find? rfl ((Cache.find?_modify change t u e.records).trans (if_neg hu))
    exact (hothers e).trans ((hef.types u).trans (hothers f).symm)

/-- A record that changes into one that agrees leaves an engine that agrees. -/
theorem agreesOn_modify (e : Engine) (t : Ty) {change : Record → Record}
    (hchange : ∀ rec, (change rec).AgreesOn Keys rec) :
    { e with records := e.records.modify change t }.AgreesOn Keys e := by
  refine ⟨rfl, rfl, rfl, fun u => ?_⟩
  have hfind := Cache.find?_modify change t u e.records
  by_cases hu : u = t
  · subst hu
    rw [if_pos rfl] at hfind
    cases hrec : e.records.find? u with
    | none => exact .of_find? rfl (by rw [hrec] at hfind; exact hfind.trans hrec.symm)
    | some rec =>
      rw [hrec] at hfind
      exact .of_shows (shows_of_find? hfind) (shows_of_find? hrec) (hchange rec)
  · exact .of_find? rfl (hfind.trans (if_neg hu))

theorem isSome_find?_modify (e : Engine) (change : Record → Record) (t u : Ty) :
    ((e.records.modify change t).find? u).isSome = (e.records.find? u).isSome := by
  rw [Cache.find?_modify]
  split
  · rw [Option.isSome_map]
  · rfl

theorem Matches.modify {rec rec' : Record} (hef : e.Matches Keys certain f) (hrec : e.records.find? t = some rec)
    (hrec' : f.records.find? t = some rec') {change : Record → Record}
    (hchange : (change rec).AgreesOn Keys (change rec')) :
    { e with records := e.records.modify change t }.Matches Keys certain
      { f with records := f.records.modify change t } where
  toAgreesOn := hef.toAgreesOn.modify hrec hrec' hchange
  failAlike hcertain := (hef.failAlike hcertain).congr rfl rfl (isSome_find?_modify e change t)
    (isSome_find?_modify f change t)

theorem Matches.report_all (hef : e.Matches Keys certain f) (events events' : List Event) :
    (events.foldl (fun e event => e.report event) e).Matches Keys certain
      (events'.foldl (fun e event => e.report event) f) where
  toAgreesOn := (hef.toAgreesOn.report_all events).trans ((AgreesOn.refl Keys f).report_all events').symm
  failAlike hcertain := by
    rw [foldl_report, foldl_report]
    exact (hef.failAlike hcertain).congr rfl rfl (fun _ => rfl) fun _ => rfl

theorem keepLookup_agreeFrom {rec rec' : Record} (hkey : Keys key) (hef : e.Matches Keys certain f)
    (hrec : e.records.find? t = some rec) (hrec' : f.records.find? t = some rec') (lookup : Lookup) :
    AgreeFrom (Matches Keys certain) certain Eq (keepLookup t key lookup) (keepLookup t key lookup) e f := by
  have hrecords := (hef.types t).agreesOn (shows_of_find? hrec) (shows_of_find? hrec')
  refine .inl ⟨?_, hef.modify hrec hrec' { hrecords with lookups := fun {other} hother => ?_ }⟩
  · show ResultsAlike Eq Eq (.ok ((e.lookedUp? t key).getD lookup)) (.ok ((f.lookedUp? t key).getD lookup))
    rw [(hef.types t).lookedUp? hkey]
    exact .ok rfl
  · show (rec.lookups.store key lookup).2.find? other = (rec'.lookups.store key lookup).2.find? other
    rw [Cache.find?_store, Cache.find?_store, hrecords.lookups hkey, hrecords.lookups hother]

theorem keepResolved_agreeFrom {rec rec' : Record} (hkey : Keys key) (hef : e.Matches Keys certain f)
    (hrec : e.records.find? t = some rec) (hrec' : f.records.find? t = some rec') (value : Option Value) :
    AgreeFrom (Matches Keys certain) certain Eq (keepResolved t key value) (keepResolved t key value) e f := by
  have hrecords := (hef.types t).agreesOn (shows_of_find? hrec) (shows_of_find? hrec')
  refine .inl ⟨?_, hef.modify hrec hrec' { hrecords with resolved := fun {other} hother => ?_ }⟩
  · show ResultsAlike Eq Eq (.ok ((e.resolved? t key).getD value)) (.ok ((f.resolved? t key).getD value))
    rw [(hef.types t).resolved? hkey]
    exact .ok rfl
  · show (rec.resolved.store key value).2.find? other = (rec'.resolved.store key value).2.find? other
    rw [Cache.find?_store, Cache.find?_store, hrecords.resolved hkey, hrecords.resolved hother]

/-! ## Lookups under keys that are compared -/

theorem warnMalformed_agreeFrom (hef : e.Matches Keys certain f) (t : Ty) (malformed : List MalformedMember) :
    AgreeFrom (Matches Keys certain) certain Eq (warnMalformed t malformed) (warnMalformed t malformed) e f := by
  have hreports (e : Engine) : ∃ events : List Event,
      ((warnMalformed t malformed).runFrom e).2 = events.foldl (fun e event => e.report event) e := by
    let P (later : Engine) : Prop :=
      ∃ events : List Event, later = events.foldl (fun e event => e.report event) e
    refine (warnMalformed_keeps (P := P) (fun event h => ?_) t malformed e ⟨[], rfl⟩).2
    obtain ⟨events, rfl⟩ := h
    exact ⟨events ++ [event], by rw [List.foldl_append]; rfl⟩
  obtain ⟨events, hevents⟩ := hreports e
  obtain ⟨events', hevents'⟩ := hreports f
  refine .inl ⟨.ok rfl, ?_⟩
  rw [hevents, hevents']
  exact hef.report_all events events'

/-- What is found on the supertypes settles what is found on a type. -/
theorem answerOf_agreeFrom {levels : Nat} {rec rec' : Record} (hrecords : rec.AgreesOn Keys rec')
    (habove : ∀ e f : Engine, e.Matches Keys certain f →
      AgreeFrom (Matches Keys certain) certain Eq (discoverAbove levels key rec) (discoverAbove levels key rec) e f)
    (hef : e.Matches Keys certain f) (t : Ty) :
    AgreeFrom (Matches Keys certain) certain Eq (answerOf levels t key rec) (answerOf levels t key rec') e f := by
  have habove' : discoverAbove levels key rec' = discoverAbove levels key rec := by
    unfold discoverAbove
    rw [hrecords.supertypes]
  unfold answerOf
  rw [← hrecords.members, habove']
  refine (warnMalformed_agreeFrom hef t _).bind fun _ _ e₁ f₁ _ _ _ hef₁ => ?_
  cases (OwnMembers.scan t key 0 rec.members {}).constant with
  | some value => exact .pure rfl hef₁
  | none =>
    refine (habove e₁ f₁ hef₁).bind fun above _ e₂ f₂ _ _ habove hef₂ => ?_
    subst habove
    refine .get_bind ?_
    rw [hef₂.hierarchy_eq]
    exact .ofExcept _ hef₂

theorem discover_agreeFrom_of_above {levels : Nat} (hkey : Keys key)
    (habove : ∀ (rec : Record) (e f : Engine), e.Matches Keys certain f →
      AgreeFrom (Matches Keys certain) certain Eq (discoverAbove levels key rec) (discoverAbove levels key rec) e f)
    (hef : e.Matches Keys certain f) (t : Ty) :
    AgreeFrom (Matches Keys certain) certain Eq (discover levels t key) (discover levels t key) e f := by
  rw [discover_eq]
  refine (record_agreeFrom hef t).bind fun rec rec' e₁ f₁ hrec hrec' hrecords hef₁ => ?_
  rw [← hrecords.lookups hkey]
  cases rec.lookups.find? key with
  | some hit => exact .pure rfl hef₁
  | none =>
    refine (answerOf_agreeFrom hrecords (habove rec) hef₁ t).bind fun lookup _ e₂ f₂ hanswer hanswer' hlookup hef₂ => ?_
    subst hlookup
    -- both records are still there when the answer has been found
    have hgrown := (discoveryInvariant_growsInto e₁ key).answerOf levels t rec trivial e₁ (.refl e₁)
    have hgrown' := (discoveryInvariant_growsInto f₁ key).answerOf levels t rec' trivial f₁ (.refl f₁)
    rw [hanswer] at hgrown
    rw [hanswer'] at hgrown'
    obtain ⟨later, hlater, -⟩ := hgrown.2.records (find?_of_record hrec)
    obtain ⟨later', hlater', -⟩ := hgrown'.2.records (find?_of_record hrec')
    exact keepLookup_agreeFrom hkey hef₂ hlater hlater' lookup

/-- **Engines that agree find the same on a type.** -/
theorem discover_agreeFrom (hkey : Keys key) (levels : Nat) (hef : e.Matches Keys certain f) (t : Ty) :
    AgreeFrom (Matches Keys certain) certain Eq (discover levels t key) (discover levels t key) e f := by
  induction levels generalizing t e f with
  | zero => exact discover_agreeFrom_of_above hkey (fun _ _ _ hef => .pure rfl hef) hef t
  | succ n ih =>
    refine discover_agreeFrom_of_above hkey (fun rec e f hef => ?_) hef t
    exact .mapM (fun s _ e f hef => ih hef s) hef

/-- **Engines that agree resolve a reference to the same value,** and agree afterwards. -/
theorem resolveMember_agreeFrom {member : MemberName} {origin : OriginFilter} {bindReceiver : Bool}
    (hkey : Keys (member.lookup origin bindReceiver)) (hef : e.Matches Keys certain f) (t : Ty) :
    AgreeFrom (Matches Keys certain) certain Eq (resolveMember t member origin bindReceiver)
      (resolveMember t member origin bindReceiver) e f := by
  unfold resolveMember
  generalize member.lookup origin bindReceiver = key at hkey
  refine (record_agreeFrom hef t).bind fun rec rec' e₁ f₁ hrec hrec' hrecords hef₁ => ?_
  simp only
  rw [← hrecords.resolved hkey]
  cases rec.resolved.find? key with
  | some hit => exact .pure rfl hef₁
  | none =>
    refine (discover_agreeFrom hkey discoveryDepth hef₁ t).bind fun lookup _ e₂ f₂ hfound hfound' hlookup hef₂ => ?_
    subst hlookup
    have hgrown := discover_grows e₁ discoveryDepth t key e₁ (.refl e₁)
    have hgrown' := discover_grows f₁ discoveryDepth t key f₁ (.refl f₁)
    rw [hfound] at hgrown
    rw [hfound'] at hgrown'
    obtain ⟨later, hlater, -⟩ := (hgrown.2.report_all _).records (find?_of_record hrec)
    obtain ⟨later', hlater', -⟩ := (hgrown'.2.report_all _).records (find?_of_record hrec')
    refine .get_bind ?_
    have hvalue : e₂.valueOf member t lookup = f₂.valueOf member t lookup := by
      unfold valueOf
      rw [hef₂.hierarchy_eq, hef₂.settings]
    rw [hvalue]
    exact keepResolved_agreeFrom hkey (hef₂.report_all _ _) hlater hlater' _

/-! ## Lookups under other keys -/

/-- Does the first engine agree with the second one, with no failure due in it if none is due in that one? -/
structure Follows (Keys : LookupKey → Prop) (e f : Engine) : Prop extends e.AgreesOn Keys f where
  outages : f.provider.outages = [] → e.provider.outages = []

theorem Follows.refl (Keys : LookupKey → Prop) (e : Engine) : e.Follows Keys e := ⟨.refl Keys e, id⟩

theorem Follows.matches (h : e.Follows Keys f) : e.Matches Keys (f.provider.outages = []) f :=
  ⟨h.toAgreesOn, fun hnone => .inl ⟨h.outages hnone, hnone⟩⟩

theorem Follows.report_all (h : e.Follows Keys f) (events : List Event) :
    (events.foldl (fun e event => e.report event) e).Follows Keys f := by
  refine ⟨h.toAgreesOn.report_all events, ?_⟩
  rw [foldl_report]
  exact h.outages

theorem Follows.record (h : e.Follows Keys f) (t : Ty) : ((record t).runFrom e).2.Follows Keys f :=
  ⟨(record_agreesOn Keys e t).trans h.toAgreesOn, fun hnone => outages_record (h.outages hnone) t⟩

theorem Follows.modify (h : e.Follows Keys f) (t : Ty) {change : Record → Record}
    (hchange : ∀ rec, (change rec).AgreesOn Keys rec) :
    { e with records := e.records.modify change t }.Follows Keys f :=
  ⟨(agreesOn_modify e t hchange).trans h.toAgreesOn, h.outages⟩

/-- What is kept under a key that is not compared tells no records apart. -/
theorem find?_store_of_not {ν : Type} (hkey : ¬ Keys key) (cache : Cache LookupKey ν) (value : ν) {other : LookupKey}
    (hother : Keys other) : (cache.store key value).2.find? other = cache.find? other := by
  have hne : other ≠ key := fun heq => hkey (heq ▸ hother)
  rw [Cache.find?_store, if_neg hne]

theorem discoveryInvariant_follows (hkey : ¬ Keys key) :
    DiscoveryInvariant key (Follows Keys · f) (fun _ _ => True) fun _ _ => True where
  report event h := h.report_all [event]
  record t _ h := ⟨fun _ _ => trivial, h.record t⟩
  hit _ _ := trivial
  constant _ _ := trivial
  combine _ _ _ _ _ := trivial
  keepLookup {t lookup} _ _ h := ⟨fun _ _ => trivial, h.modify t fun rec =>
    { Record.AgreesOn.refl Keys rec with lookups := find?_store_of_not hkey rec.lookups lookup }⟩

/-- **A resolution under another key leaves an engine that agrees.** -/
theorem resolveMember_follows (t : Ty) {member : MemberName} {origin : OriginFilter} {bindReceiver : Bool}
    (hkey : ¬ Keys (member.lookup origin bindReceiver)) :
    Keeps (Follows Keys · f) (resolveMember t member origin bindReceiver) fun _ => True := by
  unfold resolveMember
  generalize member.lookup origin bindReceiver = key at hkey
  refine Keeps.seq (fun e h => ⟨trivial, h.record t⟩) fun rec => ?_
  split
  · exact Keeps.pure trivial
  refine ((discoveryInvariant_follows hkey).discover _ t).keeps.seq fun lookup e h => ?_
  rw [runFrom_get_bind, runFrom_set_bind]
  exact ⟨trivial, (h.report_all _).modify t fun rec =>
    { Record.AgreesOn.refl Keys rec with resolved := find?_store_of_not hkey rec.resolved _ }⟩

end Engine

end Multimethod
