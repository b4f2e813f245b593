import Multimethod.Proofs.Engine.Complete

/-!
# What a resolution lists

A discovery lists the members of the types that have no record yet, from the type upward, and any listing may
fail. An answer that was kept spares the way up, but no listing: all types above have their records by then.
So which members a resolution lists, and which failure it ends with, depends on the records alone and not on
the answers in them.

* `Engine.walk` — the way up, with no answers kept.
* `DispatchM.InStep` — two resolutions end alike and leave related engines.
* `Engine.discover_inStep`, `Engine.resolveMember_inStep` — discovery and resolution go in step with the walk.
* `Engine.resolveMember_instance_resultsAlike` — two lookups that find the same fail alike.
-/

namespace Multimethod

open DispatchM

namespace Engine

variable {e f : Engine} {t : Ty}

/-! ## The way up -/

/-- Fetches the records of a type and of all types above it, in the order of a discovery, and fails where the
outcome of a type is a failure. -/
def walk (h : Hierarchy) (outcome : Ty → Except DispatchError Unit) : (levels : Nat) → Ty → DispatchM Unit
  | 0, t => do
    let _ ← record t
    MonadExcept.ofExcept (outcome t)
  | n + 1, t => do
    let _ ← record t
    (h.supertypes t).forM (walk h outcome n)
    MonadExcept.ofExcept (outcome t)

/-- Have the engines the same provider, and records of the same types? -/
structure ListsAlike (e f : Engine) : Prop where
  provider : e.provider = f.provider
  recorded : ∀ t, (e.records.find? t).isSome = (f.records.find? t).isSome

theorem ListsAlike.refl (e : Engine) : e.ListsAlike e := ⟨rfl, fun _ => rfl⟩

/-- Answers and values may be kept. -/
theorem ListsAlike.modify (h : e.ListsAlike f) (g : Record → Record) (t : Ty) :
    { e with records := e.records.modify g t }.ListsAlike f := by
  refine ⟨h.provider, fun u => ?_⟩
  rw [← h.recorded u]
  show ((e.records.modify g t).find? u).isSome = _
  rw [Cache.find?_modify]
  split
  · rw [Option.isSome_map]
  · rfl

theorem ListsAlike.report_all (h : e.ListsAlike f) (events : List Event) :
    (events.foldl (fun e event => e.report event) e).ListsAlike f := by
  rw [foldl_report]
  exact ⟨h.provider, h.recorded⟩

theorem record_listsAlike (t : Ty) (h : e.ListsAlike f) :
    ResultsAlike Eq (fun _ _ => True) ((record t).runFrom e).1 ((record t).runFrom f).1 ∧
      ((record t).runFrom e).2.ListsAlike ((record t).runFrom f).2 := by
  have hrecorded := h.recorded t
  have hall := h.recorded
  unfold record
  rw [runFrom_get_bind, runFrom_get_bind, ← h.provider]
  cases hrec : e.records.find? t with
  | some rec =>
    obtain ⟨rec', hrec'⟩ := Option.isSome_iff_exists.1 (hrecorded ▸ Option.isSome_of_eq_some hrec)
    rw [hrec']
    exact ⟨.ok trivial, h⟩
  | none =>
    have hnone : f.records.find? t = none := by simpa [hrec] using hrecorded.symm
    rw [hnone]
    obtain ⟨_ | members, provider⟩ := e.provider.list t
    · exact ⟨.error rfl, rfl, hall⟩
    · refine ⟨.ok trivial, rfl, fun u => ?_⟩
      show (Cache.find? u ((t, _) :: e.records)).isSome = (Cache.find? u ((t, _) :: f.records)).isSome
      rw [Cache.find?, Cache.find?]
      split
      · rfl
      · exact hall u

/-- Where all types above have their records and their outcomes are no failures, the walk does nothing. -/
theorem walk_of_recorded {h : Hierarchy} {outcome : Ty → Except DispatchError Unit} (levels : Nat) (t : Ty)
    (hrecorded : ∀ s, h.Leads t s → (e.records.find? s).isSome ∧ outcome s = .ok ⟨⟩) :
    (walk h outcome levels t).runFrom e = (.ok ⟨⟩, e) := by
  have hrecord : ∀ t, (∀ s, h.Leads t s → (e.records.find? s).isSome ∧ outcome s = .ok ⟨⟩) →
      ∃ rec, (record t).runFrom e = (.ok rec, e) := by
    intro t hrecorded
    obtain ⟨rec, hrec⟩ := Option.isSome_iff_exists.1 (hrecorded t .refl).1
    exact ⟨rec, record_of_find? hrec⟩
  induction levels generalizing t with
  | zero =>
    obtain ⟨rec, hrec⟩ := hrecord t hrecorded
    rw [walk, runFrom_bind, hrec, (hrecorded t .refl).2]
    rfl
  | succ n ih =>
    have habove : ∀ ss : List Ty, (∀ s ∈ ss, h.Above s t) →
        (ss.forM (walk h outcome n)).runFrom e = (.ok ⟨⟩, e) := by
      intro ss hss
      induction ss with
      | nil => rfl
      | cons s rest ihrest =>
        have hleads : ∀ u, h.Leads s u → h.Leads t u := fun u hu => .head (hss s List.mem_cons_self) hu
        show (walk h outcome n s >>= fun _ => rest.forM (walk h outcome n)).runFrom e = _
        rw [runFrom_bind, ih s fun u hu => hrecorded u (hleads u hu)]
        exact ihrest fun u hu => hss u (List.mem_cons_of_mem s hu)
    obtain ⟨rec, hrec⟩ := hrecord t hrecorded
    rw [walk, runFrom_bind, hrec, (hrecorded t .refl).2]
    dsimp only
    rw [runFrom_bind, habove _ fun _ => id]
    rfl

/-- What the walk does above a type. -/
def walkAbove (h : Hierarchy) (outcome : Ty → Except DispatchError Unit) (levels : Nat) (t : Ty) :
    DispatchM Unit :=
  match levels with
  | 0 => pure ⟨⟩
  | n + 1 => (h.supertypes t).forM (walk h outcome n)

theorem walk_eq (h : Hierarchy) (outcome : Ty → Except DispatchError Unit) (levels : Nat) (t : Ty) :
    walk h outcome levels t = (do
      let _ ← record t
      walkAbove h outcome levels t
      MonadExcept.ofExcept (outcome t)) := by
  cases levels with
  | zero => simp [walk, walkAbove]
  | succ n => rfl

end Engine

/-! ## In step -/

namespace DispatchM

/-- From related engines, both resolutions end with a value or both with the same error, and they leave
related engines. -/
def InStep {α β : Type} (P : Engine → Engine → Prop) (m : DispatchM α) (m' : DispatchM β) : Prop :=
  ∀ e f, P e f → ResultsAlike Eq (fun _ _ => True) (m.runFrom e).1 (m'.runFrom f).1 ∧
    P (m.runFrom e).2 (m'.runFrom f).2

namespace InStep

variable {α β γ δ : Type} {P : Engine → Engine → Prop}

theorem pure (a : α) (b : β) : InStep P (pure a) (pure b) := fun _ _ hef => ⟨.ok trivial, hef⟩

theorem bind {m : DispatchM α} {m' : DispatchM β} {k : α → DispatchM γ} {k' : β → DispatchM δ}
    (hm : InStep P m m') (hk : ∀ a b, InStep P (k a) (k' b)) : InStep P (m >>= k) (m' >>= k') := by
  intro e f hef
  obtain ⟨hresults, hengines⟩ := hm e f hef
  rw [runFrom_bind, runFrom_bind]
  generalize m.runFrom e = ran at hresults hengines ⊢
  generalize m'.runFrom f = ran' at hresults hengines ⊢
  obtain ⟨result, e'⟩ := ran
  obtain ⟨result', f'⟩ := ran'
  cases hresults with
  | error herrors => exact ⟨.error herrors, hengines⟩
  | ok _ => exact hk _ _ e' f' hengines

theorem mapM_forM {g : α → DispatchM β} {g' : α → DispatchM PUnit} {xs : List α}
    (h : ∀ x ∈ xs, InStep P (g x) (g' x)) : InStep P (xs.mapM g) (xs.forM g') := by
  induction xs with
  | nil => exact pure [] PUnit.unit
  | cons x rest ih =>
    rw [List.mapM_cons]
    refine (h x List.mem_cons_self).bind fun b _ => ?_
    have hrest := (ih fun y hy => h y (List.mem_cons_of_mem x hy)).bind fun bs u => pure (b :: bs) u
    rwa [bind_pure] at hrest

end InStep

end DispatchM

namespace Engine

variable {r : Registry} {hw : WellFounded r.hierarchy.Above} {config : EngineConfig}
  {References : MemberName → Prop} {e f : Engine} {t : Ty} {key : LookupKey}
  {outcome : Ty → Except DispatchError Unit}

/-- An engine with complete and faithful records, beside one that lists alike. -/
structure Tracks (r : Registry) (hw : WellFounded r.hierarchy.Above) (config : EngineConfig)
    (References : MemberName → Prop) (e f : Engine) : Prop where
  complete : e.Complete r config
  faithful : e.Faithful r hw config References
  listsAlike : e.ListsAlike f

theorem Tracks.report (event : Event) (hef : e.Tracks r hw config References f) :
    (e.report event).Tracks r hw config References f :=
  ⟨(answerRule_complete r config).congr hef.complete rfl rfl rfl, hef.faithful.report _,
    hef.listsAlike.provider, hef.listsAlike.recorded⟩

theorem Tracks.record (hef : e.Tracks r hw config References f) (t : Ty) :
    ResultsAlike Eq (fun _ _ => True) ((Engine.record t).runFrom e).1 ((Engine.record t).runFrom f).1 ∧
      ((Engine.record t).runFrom e).2.Tracks r hw config References ((Engine.record t).runFrom f).2 := by
  obtain ⟨hresults, hlists⟩ := record_listsAlike t hef.listsAlike
  have hkeeps : Keeps (FaithfulIf r hw config References False) (Engine.record t) _ := record_keeps t
  exact ⟨hresults, ((answerRule_complete r config).record t e hef.complete).2, (hkeeps e ⟨hef.faithful, False.elim⟩).2.toFaithful,
    hlists⟩

/-- The values of discoveries on the supertypes are what the lookup finds there. -/
theorem discoverAbove_keeps {levels : Nat} {rec : Record} (hwithin : r.hierarchy.Within levels t)
    (hrec : rec.supertypes = r.hierarchy.supertypes t) :
    Gives (Faithful r hw config References) (discoverAbove levels key rec) fun lookups =>
      rec.supertypes.mapM (r.lookUp key hw) = .ok lookups := by
  intro e he
  have hkeeps : Keeps (FaithfulIf r hw config References False) (discoverAbove levels key rec)
      (Answers False (rec.supertypes.mapM (r.lookUp key hw))) := by
    unfold discoverAbove
    rw [hrec]
    cases levels with
    | zero =>
      rw [show r.hierarchy.supertypes t = [] from hwithin]
      exact Keeps.pure (.of_eq rfl)
    | succ n => exact Keeps.mapM fun s hs => discover_keeps n s (hwithin s hs)
  obtain ⟨hanswers, hfaithful⟩ := hkeeps e ⟨he, False.elim⟩
  refine ⟨fun lookups hlookups => ?_, hfaithful.toFaithful⟩
  rw [hlookups] at hanswers
  exact hanswers.ok

theorem answerOf_inStep {levels : Nat} {rec : Record} (hrec : rec.Faithful r hw config References t)
    (hwithin : r.hierarchy.Within levels t) (hnone : key.constantAmong rec.members = none)
    (houtcome : outcome t = (r.lookUp key hw t).map fun _ => ⟨⟩)
    (habove : InStep (Tracks r hw config References) (discoverAbove levels key rec)
      (walkAbove r.hierarchy outcome levels t)) :
    InStep (Tracks r hw config References) (answerOf levels t key rec) (do
      walkAbove r.hierarchy outcome levels t
      MonadExcept.ofExcept (outcome t)) := by
  intro e f hef
  have hconstant : (OwnMembers.scan t key 0 rec.members {}).constant = none := by
    rw [OwnMembers.scan_none rec.members 0 {} hnone]
  have hcombine (lookups : List Lookup) : (OwnMembers.scan t key 0 rec.members {}).combine
      (r.hierarchy.typeName t) key lookups = r.combine key t rec.members lookups :=
    OwnMembers.combine_scan lookups hnone
  unfold answerOf
  generalize OwnMembers.scan t key 0 rec.members {} = own at hconstant hcombine ⊢
  simp only [hconstant]
  have hreports := warnMalformed_keeps (P := fun e => e.Tracks r hw config References f) Tracks.report t
  have hwarned := (hreports own.malformed e hef).2
  have hrun : (warnMalformed t own.malformed).runFrom e =
      (.ok ⟨⟩, ((warnMalformed t own.malformed).runFrom e).2) := rfl
  rw [runFrom_bind, runFrom_bind, hrun]
  generalize ((warnMalformed t own.malformed).runFrom e).2 = warned at hwarned ⊢
  dsimp only
  have hkeeps : Gives (Faithful r hw config References) (discoverAbove levels key rec) _ :=
    discoverAbove_keeps hwithin hrec.supertypes
  have hlookups := hkeeps warned hwarned.faithful
  obtain ⟨hresults, hengines⟩ := habove warned f hwarned
  rw [runFrom_bind]
  generalize (discoverAbove levels key rec).runFrom warned = ran at hlookups hresults hengines ⊢
  generalize (walkAbove r.hierarchy outcome levels t).runFrom f = ran' at hresults hengines ⊢
  obtain ⟨result, last⟩ := ran
  obtain ⟨result', last'⟩ := ran'
  cases hresults with
  | error herrors => exact ⟨.error herrors, hengines⟩
  | @ok lookups _ _ =>
    dsimp only
    rw [runFrom_get_bind, runFrom_ofExcept, runFrom_ofExcept, houtcome, lookUp_of_none hrec hnone,
      hlookups.1 lookups rfl, hengines.faithful.hierarchy_eq, hcombine lookups]
    refine ⟨?_, hengines⟩
    show ResultsAlike _ _ (r.combine key t rec.members lookups) ((r.combine key t rec.members lookups).map _)
    cases r.combine key t rec.members lookups with
    | error err => exact .error rfl
    | ok lookup => exact .ok trivial

/-- Where an answer is known, neither the discovery nor the walk lists anything. -/
theorem Tracks.walk_of_lookedUp? (hef : e.Tracks r hw config References f) {lookup : Lookup}
    (hlookup : e.lookedUp? t key = some lookup) (hstatic : r.HasNoStatic t key)
    (houtcome : ∀ s, r.hierarchy.Leads t s → outcome s = (r.lookUp key hw s).map fun _ => ⟨⟩) (levels : Nat) :
    (walk r.hierarchy outcome levels t).runFrom f = (.ok ⟨⟩, f) := by
  refine walk_of_recorded levels t fun s hs => ?_
  obtain ⟨found, hfound⟩ := hef.complete.lookedUp?_above hlookup hstatic hs
  obtain ⟨rec, hrec, hfound⟩ := Option.bind_eq_some_iff.1 hfound
  refine ⟨?_, ?_⟩
  · rw [← hef.listsAlike.recorded, hrec]
    rfl
  · rw [houtcome s hs, (hef.faithful.records s rec hrec).lookups key found hfound]
    rfl

theorem discover_inStep_of_above {levels : Nat} (hwithin : r.hierarchy.Within levels t)
    (hstatic : r.HasNoStatic t key)
    (houtcome : ∀ s, r.hierarchy.Leads t s → outcome s = (r.lookUp key hw s).map fun _ => ⟨⟩)
    (habove : ∀ rec : Record, rec.supertypes = r.hierarchy.supertypes t →
      InStep (Tracks r hw config References) (discoverAbove levels key rec)
        (walkAbove r.hierarchy outcome levels t)) :
    InStep (Tracks r hw config References) (discover levels t key) (walk r.hierarchy outcome levels t) := by
  intro e f hef
  have hlists : ResultsAlike Eq (fun _ _ => True) ((discover levels t key).runFrom e).1
      ((walk r.hierarchy outcome levels t).runFrom f).1 ∧
        ((discover levels t key).runFrom e).2.ListsAlike ((walk r.hierarchy outcome levels t).runFrom f).2 := by
    cases hlookup : e.lookedUp? t key with
    | some lookup =>
      rw [discover_of_lookedUp? levels hlookup, hef.walk_of_lookedUp? hlookup hstatic houtcome]
      exact ⟨.ok trivial, hef.listsAlike⟩
    | none =>
      have hnone : ((record t).runFrom e).2.lookedUp? t key = none :=
        Option.eq_none_iff_forall_ne_some.2 fun lookup hfound => by
          rw [lookedUp?_of_record hfound] at hlookup
          cases hlookup
      obtain ⟨hresults, hengines⟩ := hef.record t
      rw [discover_eq, walk_eq, runFrom_bind, runFrom_bind]
      generalize hran : (record t).runFrom e = ran at hresults hengines hnone ⊢
      generalize (record t).runFrom f = ran' at hresults hengines ⊢
      obtain ⟨result, later⟩ := ran
      obtain ⟨result', later'⟩ := ran'
      cases hresults with
      | error herrors => exact ⟨.error herrors, hengines.listsAlike⟩
      | @ok rec _ _ =>
        have hrec := hengines.faithful.records t rec (find?_of_record hran)
        have hmiss : rec.lookups.find? key = none := by
          rwa [lookedUp?, find?_of_record hran] at hnone
        have hamong : key.constantAmong rec.members = none := by
          rw [Registry.membersOf_of_list hrec.members]
          exact LookupKey.constantAmong_eq_none (hstatic t .refl)
        obtain ⟨hresults, hengines⟩ := answerOf_inStep hrec hwithin hamong (houtcome t .refl)
          (habove rec hrec.supertypes) later later' hengines
        simp only [hmiss]
        rw [runFrom_bind]
        generalize (answerOf levels t key rec).runFrom later = ran at hresults hengines ⊢
        generalize DispatchM.runFrom _ later' = ran' at hresults hengines ⊢
        obtain ⟨result, last⟩ := ran
        obtain ⟨result', last'⟩ := ran'
        cases hresults with
        | error herrors => exact ⟨.error herrors, hengines.listsAlike⟩
        | ok _ => exact ⟨.ok trivial, hengines.listsAlike.modify _ t⟩
  have hkeeps : Keeps (FaithfulIf r hw config References False) (discover levels t key) _ :=
    discover_keeps levels t hwithin
  have hfaithful := (hkeeps e ⟨hef.faithful, False.elim⟩).2.toFaithful
  have hcomplete : Gives (Complete r config) (discover levels t key) _ :=
    (answerRule_complete r config).discover levels t hwithin
  exact ⟨hlists.1, (hcomplete e hef.complete).2, hfaithful, hlists.2⟩

/-- **A discovery lists what the walk lists,** and fails alike, where no static member takes part. -/
theorem discover_inStep (levels : Nat) (t : Ty) (hwithin : r.hierarchy.Within levels t)
    (hstatic : r.HasNoStatic t key)
    (houtcome : ∀ s, r.hierarchy.Leads t s → outcome s = (r.lookUp key hw s).map fun _ => ⟨⟩) :
    InStep (Tracks r hw config References) (discover levels t key) (walk r.hierarchy outcome levels t) := by
  induction levels generalizing t with
  | zero =>
    exact discover_inStep_of_above hwithin hstatic houtcome fun _ _ _ _ hef => ⟨.ok trivial, hef⟩
  | succ n ih =>
    refine discover_inStep_of_above hwithin hstatic houtcome fun rec hrec => ?_
    unfold discoverAbove walkAbove
    rw [hrec]
    exact InStep.mapM_forM fun s hs =>
      ih s (hwithin s hs) (hstatic.of_above hs) fun u hu => houtcome u (.head hs hu)

/-- **So does a resolution.** -/
theorem resolveMember_inStep {member : MemberName} {origin : OriginFilter} {bindReceiver : Bool}
    (hmember : References member) (hwithin : r.hierarchy.Within discoveryDepth t)
    (hstatic : r.HasNoStatic t (member.lookup origin bindReceiver))
    (houtcome : ∀ s, r.hierarchy.Leads t s →
      outcome s = (r.lookUp (member.lookup origin bindReceiver) hw s).map fun _ => ⟨⟩) :
    InStep (Tracks r hw config References) (resolveMember t member origin bindReceiver)
      (walk r.hierarchy outcome discoveryDepth t) := by
  intro e f hef
  have hlists : ResultsAlike Eq (fun _ _ => True) ((resolveMember t member origin bindReceiver).runFrom e).1
      ((walk r.hierarchy outcome discoveryDepth t).runFrom f).1 ∧
        ((resolveMember t member origin bindReceiver).runFrom e).2.ListsAlike
          ((walk r.hierarchy outcome discoveryDepth t).runFrom f).2 := by
    cases hresolved : e.resolved? t (member.lookup origin bindReceiver) with
    | some value =>
      obtain ⟨lookup, _, hlookup, _⟩ := hef.complete.toWellFormed.value hresolved
      rw [resolveMember_of_resolved? hresolved, hef.walk_of_lookedUp? hlookup hstatic houtcome]
      exact ⟨.ok trivial, hef.listsAlike⟩
    | none =>
      obtain ⟨hresults, hengines⟩ := discover_inStep discoveryDepth t hwithin hstatic houtcome e f hef
      rw [runFrom_resolveMember hresolved]
      generalize (discover discoveryDepth t _).runFrom e = ran at hresults hengines ⊢
      generalize (walk r.hierarchy outcome discoveryDepth t).runFrom f = ran' at hresults hengines ⊢
      obtain ⟨result, last⟩ := ran
      obtain ⟨result', last'⟩ := ran'
      cases hresults with
      | error herrors => exact ⟨.error herrors, hengines.listsAlike⟩
      | ok _ => exact ⟨.ok trivial, (hengines.listsAlike.report_all _).modify _ t⟩
  have hfaithful := (resolveMember_keeps hmember hwithin origin bindReceiver e hef.faithful).2
  have hcomplete : Gives (Complete r config) (resolveMember t member origin bindReceiver) _ :=
    (answerRule_complete r config).resolveMember hwithin member origin bindReceiver
  exact ⟨hlists.1, (hcomplete e hef.complete).2, hfaithful, hlists.2⟩

/-- **Where no static member takes part, the two resolutions fail alike,** with the same error, or both give
what the reference stands for. -/
theorem resolveMember_instance_resultsAlike {member : MemberName} {bindReceiver : Bool}
    (hcomplete : e.Complete r config) (hfaithful : e.Faithful r hw config References)
    (hmember : References member) (hwithin : r.hierarchy.Within discoveryDepth t)
    (hstatic : r.HasNoStatic t (member.lookup .any bindReceiver)) :
    ResultsAlike Eq (fun _ _ => True) ((resolveMember t member .any bindReceiver).runFrom e).1
      ((resolveMember t member .instance bindReceiver).runFrom e).1 := by
  let key := member.lookup .any bindReceiver
  let outcome : Ty → Except DispatchError Unit := fun s => (r.lookUp key hw s).map fun _ => ⟨⟩
  have hoany : ∀ s, r.hierarchy.Leads t s → outcome s = (r.lookUp key hw s).map fun _ => ⟨⟩ := fun _ _ => rfl
  have hoinstance : ∀ s, r.hierarchy.Leads t s →
      outcome s = (r.lookUp (member.lookup .instance bindReceiver) hw s).map fun _ => ⟨⟩ := by
    intro s hs
    have hsame := Registry.lookUp_instance hw (hstatic.of_leads hs)
    change _ = (r.lookUp (key.withOrigin .instance) hw s).map _
    rw [hsame]
    show (r.lookUp key hw s).map _ = ((r.lookUp key hw s).map _).map _
    cases r.lookUp key hw s <;> rfl
  have hef : e.Tracks r hw config References e := ⟨hcomplete, hfaithful, .refl e⟩
  have hany := (resolveMember_inStep hmember hwithin hstatic hoany e e hef).1
  have hstatic' : r.HasNoStatic t (member.lookup .instance bindReceiver) := hstatic
  have hinstance := (resolveMember_inStep hmember hwithin hstatic' hoinstance e e hef).1
  generalize ((resolveMember t member .any bindReceiver).runFrom e).1 = result at hany ⊢
  generalize ((resolveMember t member .instance bindReceiver).runFrom e).1 = result' at hinstance ⊢
  generalize ((walk r.hierarchy outcome discoveryDepth t).runFrom e).1 = walked at hany hinstance
  cases hany with
  | ok _ =>
    cases hinstance
    exact .ok trivial
  | error herr =>
    cases hinstance with
    | error herr' => exact .error (herr.trans herr'.symm)

end Engine

end Multimethod
