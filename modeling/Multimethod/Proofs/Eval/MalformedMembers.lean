import Multimethod.Proofs.Engine.ArityClass
import Multimethod.Proofs.Engine.Commute
import Multimethod.Proofs.Eval.MoreSpecific
import Multimethod.Proofs.Eval.WellFormedEntries

/-!
# Malformed members of a reference

A reference that is resolved has a candidate of the arity of every malformed member that was passed over on
the way up: `Engine.no_arity_lost`. Where the reference fails for want of one, no candidate of that arity is
found from the type that is blamed on upward: `Engine.blamed_arity_is_empty`.

What stands below this type does not count. A member that a type inherits may be fatal to its references,
though the type itself declares what would serve the arity: `Engine.inherited_malformed_member_is_fatal`.
-/

namespace Multimethod

/-- Where candidates are found, the value that they make is a procedure that holds them. -/
theorem Lookup.exists_procedure_of_hasArity {lookup : Lookup} {arity : Nat} (harity : lookup.HasArity arity)
    (h : Hierarchy) (config : EngineConfig) (surface : String) (t : Ty) (pin : Option Nat) :
    ∃ callable, lookup.value? h config surface t pin = some (.procedure callable) ∧
      ∃ c ∈ callable.candidates, c.arity = arity := by
  obtain ⟨c, hc, rfl⟩ := harity
  cases lookup with
  | found cs =>
    have hne : cs ≠ [] := List.ne_nil_of_mem hc
    obtain ⟨callable, hcallable⟩ := Callable.exists_ofCandidates? (h := h) hne surface t
      config.guardChainLimit config.variadicLookahead pin
    have hperm := Callable.candidates_perm_of_ofCandidates? hcallable
    exact ⟨callable, by rw [value?, hcallable]; rfl, c, hperm.mem_iff.2 hc, rfl⟩
  | constant value => cases hc
  | notFound => cases hc

namespace Engine

variable {provider : Provider} {config : EngineConfig} {e : Engine}

/-- In every state that a fresh engine may come to, a reference stands for what the recursion finds, unless
the members of some type cannot be listed. -/
theorem LeadsTo.resolve_isAnswer (hpaths : provider.registry.hierarchy.PathsWithin 64)
    (he : (Engine.new provider config).LeadsTo e) (ref : Reference) :
    IsAnswer provider.registry hpaths.wellFounded config (fun _ => True) ref.on ref.key
        (ref.resolve.runFrom e).1 ∨
      ∃ err, err.IsListing ∧ (ref.resolve.runFrom e).1 = .error err :=
  have hfaithful : e.Faithful provider.registry hpaths.wellFounded config fun _ => True :=
    he.of_stable (stable_faithful hpaths config fun _ _ => trivial) (faithful_new provider hpaths.wellFounded)
  (resolveMember_keeps trivial (hpaths.within ref.on) ref.origin ref.bindReceiver e hfaithful).1

/-- **No arity is lost silently.** On a registry whose paths of supertypes have at most 64 steps, let a
reference be resolved in any state that a fresh engine may come to, and let a malformed member that its
lookup passes over be declared by its type or by one that the lookup goes up to. Then the reference stands
for a procedure that has a candidate of the arity of this member. -/
theorem no_arity_lost (hpaths : provider.registry.hierarchy.PathsWithin 64)
    (he : (Engine.new provider config).LeadsTo e) (ref : Reference) {value : Option Value}
    (hresolved : (ref.resolve.runFrom e).1 = .ok value) {s : Ty}
    (hconsults : provider.registry.Consults ref.key ref.on s) {m : Member}
    (hm : m ∈ provider.registry.membersOf s) (hpassed : ref.key.PassesOver m) :
    ∃ callable, value = some (.procedure callable) ∧
      ∃ c ∈ callable.candidates, c.arity = m.arity ref.bindReceiver := by
  have hanswer := he.resolve_isAnswer hpaths ref
  rw [hresolved] at hanswer
  obtain ⟨lookup, surface, hlookUp, rfl⟩ := (hanswer.resolve_right (by rintro ⟨_, _, h⟩; cases h)).exists_lookup
  have harity := (Registry.hasArity_of_consults hpaths.wellFounded hconsults hlookUp).2 _
    (LookupKey.mem_malformedArities.2 ⟨m, hm, hpassed, rfl⟩)
  exact lookup.exists_procedure_of_hasArity harity provider.registry.hierarchy config surface ref.on ref.key.pin

/-- A diamond of types, with malformed members on each but the one that answers with a constant. What they
leave empty is served from below or from above. A failure of the provider comes first. -/
theorem no_arity_lost_of_diamond :
    let f (params : List Ty) : Member :=
      { key := "f", kind := .method, params, ret := .text, body := .constant .null }
    let malformed (params : List Ty) : Member := { f params with isVariadic := true }
    let provider : Provider := { registry :=
      { hierarchy := ⟨[⟨"Base", []⟩, ⟨"Left", [.host 0]⟩, ⟨"Right", [.host 0]⟩,
          ⟨"Bottom", [.host 2, .host 1]⟩]⟩
        members := [(.host 0, [malformed [.int], f [.text], f [.int, .int]]),
          (.host 1, [malformed [.any, .any], f [.text]]), (.host 2, [.constant "f" (.int 0)]),
          (.host 3, [malformed [], f []])] } }
    let ref : Reference := { on := .host 3, member := { surface := "f", key := "f", kind := .method, pin := none } }
    let e : Engine :=
      (ref.resolve.runFrom { Engine.new provider {} with provider := { provider with outages := [false, true] } }).2
    ∃ (_ : provider.registry.hierarchy.PathsWithin 64) (callable : Callable),
      (Engine.new provider {}).LeadsTo e ∧ (ref.resolve.runFrom e).1 = .ok (some (.procedure callable)) ∧
      provider.registry.Consults ref.key ref.on (.host 0) ∧
      malformed [.int] ∈ provider.registry.membersOf (.host 0) ∧ ref.key.PassesOver (malformed [.int]) ∧
      ∃ c ∈ callable.candidates, c.arity = 1 := by
  intro f malformed provider ref e
  have hpaths : provider.registry.hierarchy.PathsWithin 64 :=
    (Hierarchy.pathsWithin_of_precedes (by decide)).mono (by decide)
  have he : (Engine.new provider {}).LeadsTo e := (LeadsTo.refl.withOutages _).resolveMember _ _ _ _
  have hfound : (resolvedCallable? (ref.resolve.runFrom e).1).isSome := by decide +kernel
  obtain ⟨callable, hcallable⟩ := Option.isSome_iff_exists.1 hfound
  have hresolved := eq_of_resolvedCallable? hcallable
  have hconsults : provider.registry.Consults ref.key ref.on (.host 0) :=
    .above rfl (by decide : .host 1 ∈ provider.registry.hierarchy.supertypes (.host 3))
      (.above rfl (by decide : .host 0 ∈ provider.registry.hierarchy.supertypes (.host 1)) (.self rfl))
  have hm : malformed [.int] ∈ provider.registry.membersOf (.host 0) := List.mem_cons_self
  have hpassed : ref.key.PassesOver (malformed [.int]) := ⟨by decide, by decide, by decide⟩
  obtain ⟨_, hvalue, hserved⟩ := no_arity_lost hpaths he ref hresolved hconsults hm hpassed
  cases hvalue
  exact ⟨hpaths, callable, he, hresolved, hconsults, hm, hpassed, hserved⟩

/-- **An arity that a lookup fails for has no candidate** from the type that is blamed on upward. On a
registry whose paths of supertypes have at most 64 steps, a reference that fails so, in any state that a
fresh engine may come to, blames a malformed member of its type or of one that its lookup goes up to. -/
theorem blamed_arity_is_empty (hpaths : provider.registry.hierarchy.PathsWithin 64)
    (he : (Engine.new provider config).LeadsTo e) (ref : Reference) {owner name : String} {arity : Nat}
    (hfailed : (ref.resolve.runFrom e).1 = .error (.inconsistentVariadic owner name arity)) :
    ∃ s, provider.registry.Consults ref.key ref.on s ∧ provider.registry.Blames ref.key arity s ∧
      owner = provider.registry.hierarchy.typeName s ∧ name = ref.key.key := by
  have hanswer := he.resolve_isAnswer hpaths ref
  rw [hfailed] at hanswer
  obtain hanswer | ⟨_, hlisting, herr⟩ := hanswer
  · exact Registry.blames_of_lookUp hpaths.wellFounded hanswer.lookUp_eq_error
  · cases herr
    cases hlisting

/-- A type with nothing of its own below one with two malformed members. What this one inherits serves the
first of them, and the second is blamed. -/
theorem blamed_arity_is_empty_of_two :
    let f (params : List Ty) : Member :=
      { key := "f", kind := .method, params, ret := .text, body := .constant .null }
    let malformed (params : List Ty) : Member := { f params with isVariadic := true }
    let provider : Provider := { registry :=
      { hierarchy := ⟨[⟨"Base", []⟩, ⟨"Middle", [.host 0]⟩, ⟨"Bottom", [.host 1]⟩]⟩
        members := [(.host 0, [f [.int]]), (.host 1, [malformed [.text], malformed [.int, .int]])] } }
    let ref : Reference := { on := .host 2, member := { surface := "f", key := "f", kind := .method, pin := none } }
    provider.registry.hierarchy.PathsWithin 64 ∧
      (ref.resolve.runFrom (.new provider {})).1 = .error (.inconsistentVariadic "Middle" "f" 2) ∧
      ∃ s, provider.registry.Consults ref.key ref.on s ∧ provider.registry.Blames ref.key 2 s ∧
        "Middle" = provider.registry.hierarchy.typeName s ∧ "f" = ref.key.key := by
  intro f malformed provider ref
  have hpaths : provider.registry.hierarchy.PathsWithin 64 :=
    (Hierarchy.pathsWithin_of_precedes (by decide)).mono (by decide)
  have hfailed : (ref.resolve.runFrom (.new provider {})).1 = .error (.inconsistentVariadic "Middle" "f" 2) := by
    decide +kernel
  exact ⟨hpaths, hfailed, blamed_arity_is_empty hpaths .refl ref hfailed⟩

/-- A malformed member of a supertype is fatal to a reference, although the type has a candidate of its arity.
The other way round the supertype's candidate serves the arity. -/
theorem inherited_malformed_member_is_fatal :
    let f : Member := { key := "f", kind := .method, params := [.int], ret := .text, body := .constant .null }
    let malformed : Member := { f with isVariadic := true }
    let provider (above below : Member) : Provider := { registry :=
      { hierarchy := ⟨[⟨"A", []⟩, ⟨"T", [.host 0]⟩]⟩, members := [(.host 0, [above]), (.host 1, [below])] } }
    let ref : Reference := { on := .host 1, member := { surface := "f", key := "f", kind := .method, pin := none } }
    (provider malformed f).registry.hierarchy.PathsWithin 64 ∧
      (ref.resolve.runFrom (.new (provider malformed f) {})).1 = .error (.inconsistentVariadic "A" "f" 1) ∧
      (∃ c ∈ ref.key.candidatesAmong ref.on ((provider malformed f).registry.membersOf ref.on).zipIdx, c.arity = 1) ∧
      ∃ callable, (ref.resolve.runFrom (.new (provider f malformed) {})).1 = .ok (some (.procedure callable)) := by
  intro f malformed provider ref
  have hpaths : (provider malformed f).registry.hierarchy.PathsWithin 64 :=
    (Hierarchy.pathsWithin_of_precedes (by decide)).mono (by decide)
  have hfound : (resolvedCallable? (ref.resolve.runFrom (.new (provider f malformed) {})).1).isSome := by
    decide +kernel
  obtain ⟨callable, hcallable⟩ := Option.isSome_iff_exists.1 hfound
  refine ⟨hpaths, by decide +kernel, ?_, callable, eq_of_resolvedCallable? hcallable⟩
  exact ⟨Candidate.ofDeclaration (.host 1) 0 ref.key f.toDeclaration, List.mem_singleton_self _, rfl⟩

end Engine

end Multimethod
