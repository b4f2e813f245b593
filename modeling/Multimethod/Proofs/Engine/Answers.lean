import Multimethod.Proofs.Engine.Alike
import Multimethod.Proofs.Engine.Entries
import Multimethod.Proofs.Eval.Stable

/-!
# Rules on the answers that are kept

A discovery asks the supertypes first, and keeps its answer when theirs have been kept. So a rule that ties
an answer to what is kept elsewhere needs to be checked once, when the answer is found: nothing that it could
refer to is forgotten later on.

* `Engine.AnswerRule` — a rule that answers obey when they are found and from then on.
* `Engine.Obeys` — all answers that are kept obey the rule.
* `AnswerRule.discover`, `AnswerRule.resolveMember`, `AnswerRule.stable` — discoveries, resolutions and whole
  evaluations keep it so.
-/

namespace Multimethod

open DispatchM

namespace Engine

variable {r : Registry} {config : EngineConfig} {Reaches : Nat → Ty → Prop}
  {Rule : Engine → Ty → LookupKey → Lookup → Prop} {e later last : Engine} {t s : Ty} {key : LookupKey}

/-- Are all entries well formed, and do all answers that are kept obey the rule? -/
structure Obeys (r : Registry) (config : EngineConfig) (Rule : Engine → Ty → LookupKey → Lookup → Prop)
    (e : Engine) : Prop extends e.WellFormed r config where
  answers : ∀ {t key lookup}, e.lookedUp? t key = some lookup → Rule e t key lookup

/-- A rule that every answer obeys as soon as it is found, by a discovery that goes as far up as it
`Reaches`, and that it goes on to obey as more is recorded. -/
structure AnswerRule (r : Registry) (config : EngineConfig) (Reaches : Nat → Ty → Prop)
    (Rule : Engine → Ty → LookupKey → Lookup → Prop) : Prop where
  above : ∀ {levels : Nat} {t s : Ty}, Reaches (levels + 1) t → r.hierarchy.Above s t → Reaches levels s
  grows : ∀ {e later : Engine} {t : Ty} {key : LookupKey} {lookup : Lookup}, e.GrowsInto later →
    Rule e t key lookup → Rule later t key lookup
  found : ∀ {levels : Nat} {t : Ty} {key : LookupKey} {rec : Record} {e last : Engine} {lookup : Lookup},
    Reaches levels t → rec.WellFormed r config t → last.Obeys r config Rule →
      (answerOf levels t key rec).runFrom e = (.ok lookup, last) → Rule last t key lookup

theorem lookedUp?_new (provider : Provider) (config : EngineConfig) (t : Ty) (key : LookupKey) :
    (Engine.new provider config).lookedUp? t key = none := by
  unfold Engine.new
  split <;> rfl

theorem obeys_new (provider : Provider) (config : EngineConfig) :
    (Engine.new provider config).Obeys provider.registry config Rule := by
  refine ⟨wellFormed_new provider config, fun hlookup => ?_⟩
  rw [lookedUp?_new] at hlookup
  cases hlookup

/-! ## What is kept after a step -/

theorem lookedUp?_keepLookup_cases {lookup found : Lookup} {key' : LookupKey}
    (h : ((keepLookup t key lookup).runFrom e).2.lookedUp? s key' = some found) :
    e.lookedUp? s key' = some found ∨ s = t ∧ key' = key ∧ found = lookup := by
  change ((e.records.modify (·.storeLookup key lookup) t).find? s).bind (·.lookups.find? key') = _ at h
  rw [Cache.find?_modify] at h
  split at h
  · rename_i hs
    obtain ⟨rec, hrec, hfound⟩ := Option.bind_eq_some_iff.1 h
    obtain ⟨old, hold, rfl⟩ := Option.map_eq_some_iff.1 hrec
    obtain hkept | ⟨hkey, hfound⟩ := Cache.find?_store_cases hfound
    · exact .inl (Option.bind_eq_some_iff.2 ⟨old, hold, hkept⟩)
    · exact .inr ⟨hs, hkey, hfound⟩
  · exact .inl h

theorem lookedUp?_keepResolved (value : Option Value) (s : Ty) (key' : LookupKey) :
    ((keepResolved t key value).runFrom e).2.lookedUp? s key' = e.lookedUp? s key' := by
  show ((e.records.modify (·.storeResolved key value) t).find? s).bind (·.lookups.find? key') = _
  rw [Cache.find?_modify, lookedUp?]
  split
  · cases e.records.find? s <;> rfl
  · rfl

/-- Discoveries one after another leave what they gave as the answers of their types. -/
theorem lookedUp?_of_mapM {levels : Nat} {ss : List Ty} {lookups : List Lookup}
    (h : (ss.mapM fun s => discover levels s key).runFrom e = (.ok lookups, last)) :
    List.Forall₂ (fun s lookup => last.lookedUp? s key = some lookup) ss lookups := by
  induction ss generalizing e lookups with
  | nil =>
    cases h
    exact .nil
  | cons s rest ih =>
    rw [List.mapM_cons] at h
    obtain ⟨lookup, later, hlookup, h⟩ := exists_of_bind_eq_ok h
    obtain ⟨others, later', hothers, h⟩ := exists_of_bind_eq_ok h
    cases h
    refine .cons ?_ (ih hothers)
    have hgrows := Gives.mapM (fun s (_ : s ∈ rest) => discover_grows later levels s key) later (.refl later)
    rw [hothers] at hgrows
    exact hgrows.2.lookedUp? (lookedUp?_of_discover hlookup)

/-- What is found on a type is a constant that it declares, or it is made of its members and of the answers that
are kept on its supertypes by then. Where the discovery is cut off, there are none of these. -/
theorem answerOf_cases {levels : Nat} {rec : Record} {lookup : Lookup} (hrec : rec.WellFormed r config t)
    (hlast : last.WellFormed r config) (h : (answerOf levels t key rec).runFrom e = (.ok lookup, last)) :
    (∃ value, key.constantAmong (r.membersOf t) = some value ∧ lookup = .constant value) ∨
    ∃ inherited, r.combine key t (r.membersOf t) inherited = .ok lookup ∧
      (levels = 0 ∧ inherited = [] ∨
        List.Forall₂ (fun s l => last.lookedUp? s key = some l) (r.hierarchy.supertypes t) inherited) := by
  rw [← Registry.membersOf_of_list hrec.members]
  unfold answerOf at h
  obtain ⟨_, _, _, h⟩ := exists_of_bind_eq_ok h
  cases hconstant : key.constantAmong rec.members with
  | some value =>
    rw [OwnMembers.scan_constant rec.members 0 {} hconstant] at h
    cases h
    exact .inl ⟨value, rfl, rfl⟩
  | none =>
    have hnone : (OwnMembers.scan t key 0 rec.members {}).constant = none := by
      rw [OwnMembers.scan_none rec.members 0 {} hconstant]
    rw [hnone] at h
    obtain ⟨inherited, later, habove, h⟩ := exists_of_bind_eq_ok h
    rw [runFrom_get_bind, runFrom_ofExcept] at h
    obtain ⟨hcombine, rfl⟩ := Prod.mk.inj h
    rw [hlast.hierarchy_eq, OwnMembers.combine_scan inherited hconstant] at hcombine
    refine .inr ⟨inherited, hcombine, ?_⟩
    cases levels with
    | zero =>
      cases habove
      exact .inl ⟨rfl, rfl⟩
    | succ n => exact .inr (hrec.supertypes ▸ lookedUp?_of_mapM habove)

/-! ## Resolutions -/

theorem Obeys.of_growsInto (hrule : AnswerRule r config Reaches Rule) (he : e.Obeys r config Rule)
    (hwell : later.WellFormed r config) (hgrows : e.GrowsInto later)
    (hnew : ∀ {t key lookup}, later.lookedUp? t key = some lookup →
      e.lookedUp? t key = some lookup ∨ Rule later t key lookup) : later.Obeys r config Rule := by
  refine ⟨hwell, fun hlookup => ?_⟩
  obtain hold | hobeys := hnew hlookup
  · exact hrule.grows hgrows (he.answers hold)
  · exact hobeys

namespace AnswerRule

variable (hrule : AnswerRule r config Reaches Rule)

include hrule

/-- What lies outside the records, the registry and the settings may change. -/
theorem congr (he : e.Obeys r config Rule) (hregistry : later.provider.registry = e.provider.registry)
    (hconfig : later.config = e.config) (hrecords : later.records = e.records) :
    later.Obeys r config Rule := by
  refine he.of_growsInto hrule (he.toWellFormed.congr hregistry hconfig hrecords)
    ((GrowsInto.refl e).congr hregistry hconfig hrecords) fun hlookup => .inl ?_
  rwa [lookedUp?, hrecords] at hlookup

theorem record (t : Ty) :
    Gives (Obeys r config Rule) (record t) fun rec => rec.WellFormed r config t := by
  intro e he
  obtain ⟨hgives, hwell⟩ := record_wellFormed t e he.toWellFormed
  exact ⟨hgives, he.of_growsInto hrule hwell (record_grows e t e (.refl e)).2 fun hlookup =>
    .inl (lookedUp?_of_record hlookup)⟩

theorem answerOf {levels : Nat} {rec : Record}
    (habove : Gives (Obeys r config Rule) (discoverAbove levels key rec) fun _ => True) :
    Gives (Obeys r config Rule) (answerOf levels t key rec) fun _ => True := by
  unfold Engine.answerOf
  refine (warnMalformed_gives (fun _ he => hrule.congr he rfl rfl rfl) t _).bind fun _ _ => ?_
  cases (OwnMembers.scan t key 0 rec.members {}).constant with
  | some value => exact Gives.pure trivial
  | none =>
    exact habove.bind fun lookups _ => Gives.get_bind fun e _ => Gives.ofExcept fun _ _ => trivial

theorem discover_of_above {levels : Nat} (hreaches : Reaches levels t)
    (habove : ∀ rec : Record, rec.WellFormed r config t →
      Gives (Obeys r config Rule) (discoverAbove levels key rec) fun _ => True) :
    Gives (Obeys r config Rule) (discover levels t key) fun _ => True := by
  rw [discover_eq]
  refine (hrule.record t).bind fun rec hrec => ?_
  cases rec.lookups.find? key with
  | some hit => exact Gives.pure trivial
  | none =>
    intro e he
    have hanswer := (discoveryInvariant_wellFormed r config key).answerOf levels t rec hrec e he.toWellFormed
    have hobeys := hrule.answerOf (t := t) (habove rec hrec) e he
    dsimp only
    rw [runFrom_bind]
    cases hran : (Engine.answerOf levels t key rec).runFrom e with
    | mk result last =>
      rw [hran] at hanswer hobeys
      cases result with
      | error err => exact ⟨fun _ _ => trivial, hobeys.2⟩
      | ok lookup =>
        have hwell := (keepLookup_wellFormed (hanswer.1 lookup rfl) last hanswer.2).2
        have hgrows : last.GrowsInto ((keepLookup t key lookup).runFrom last).2 :=
          (keepLookup_grows last t lookup last (.refl last)).2
        refine ⟨fun _ _ => trivial, hobeys.2.of_growsInto hrule hwell hgrows fun hkept => ?_⟩
        obtain hold | ⟨rfl, rfl, rfl⟩ := lookedUp?_keepLookup_cases hkept
        · exact .inl hold
        · exact .inr (hrule.grows hgrows (hrule.found hreaches hrec hobeys.2 hran))

/-- **A discovery keeps to the rule.** -/
theorem discover (levels : Nat) (t : Ty) (hreaches : Reaches levels t) :
    Gives (Obeys r config Rule) (discover levels t key) fun _ => True := by
  induction levels generalizing t with
  | zero => exact hrule.discover_of_above hreaches fun rec _ => Gives.pure trivial
  | succ n ih =>
    refine hrule.discover_of_above hreaches fun rec hrec e he => ?_
    have habove : ∀ s ∈ rec.supertypes, Gives (Obeys r config Rule) (Engine.discover n s key) fun _ => True := by
      rw [hrec.supertypes]
      exact fun s hs => ih s (hrule.above hreaches hs)
    exact ⟨fun _ _ => trivial, (Gives.mapM habove e he).2⟩

/-- **So does a resolution.** -/
theorem resolveMember (hreaches : Reaches discoveryDepth t) (member : MemberName) (origin : OriginFilter)
    (bindReceiver : Bool) :
    Gives (Obeys r config Rule) (resolveMember t member origin bindReceiver) fun _ => True := by
  intro e he
  have hwell := (resolveMember_wellFormed t member origin bindReceiver e he.toWellFormed).2
  refine ⟨fun _ _ => trivial, ?_⟩
  cases hresolved : e.resolved? t (member.lookup origin bindReceiver) with
  | some value =>
    rw [resolveMember_of_resolved? hresolved]
    exact he
  | none =>
    have hdiscover : Gives (Obeys r config Rule)
        (Engine.discover discoveryDepth t (member.lookup origin bindReceiver)) _ :=
      hrule.discover discoveryDepth t hreaches
    have hobeys := (hdiscover e he).2
    rw [runFrom_resolveMember hresolved] at hwell ⊢
    generalize (Engine.discover discoveryDepth t _).runFrom e = ran at hobeys hwell ⊢
    obtain ⟨_ | lookup, last⟩ := ran
    · exact hobeys
    · refine hobeys.of_growsInto hrule hwell
        (keepResolved_grows last t _ _ ((GrowsInto.refl last).report_all _)).2 fun {u key' found} hkept => .inl ?_
      -- what is kept under lookups is what the discovery has kept
      simp only [lookedUp?_keepResolved, foldl_report] at hkept
      exact hkept

/-- Evaluations and histories keep to the rule, if discoveries reach far enough from every type. -/
theorem stable (hreaches : ∀ t, Reaches discoveryDepth t) :
    Stable (fun _ => True) (Obeys r config Rule) where
  spelled _ := trivial
  report _ he := hrule.congr he rfl rfl rfl
  withImports _ he := hrule.congr he rfl rfl rfl
  withOutages _ he := hrule.congr he rfl rfl rfl
  resolveMember t member origin bindReceiver _ he :=
    (hrule.resolveMember (hreaches t) member origin bindReceiver _ he).2

end AnswerRule

end Engine

end Multimethod
