import Multimethod.Proofs.Engine.Faithful

/-!
# Lookups commute

A resolution fills caches that later ones read. Where no path of supertypes is longer than discovery
goes up, that makes no difference: every reference stands for what it would stand for as the first
one, and so references may be resolved in any order (`Engine.lookups_commute`).

Discovery keeps what it finds on every type that it passes, though, also where it stopped short. On a
path that is longer, or on a circle, a later reference to such a type finds what was kept:
`Engine.lookups_differ_on_long_path`.
-/

namespace Multimethod

/-- Are references of one key and kind written alike? All that names spell are, by
`MemberName.surface_eq_of_isSpelled`. -/
def MemberName.AgreesWith (m n : MemberName) : Prop :=
  m.key = n.key → m.kind = n.kind → m.surface = n.surface

/-- A member reference on a type. -/
structure Reference where
  on : Ty
  member : MemberName
  origin : OriginFilter := .any
  bindReceiver : Bool := false
  deriving DecidableEq, Repr

namespace Reference

def key (ref : Reference) : LookupKey := ref.member.lookup ref.origin ref.bindReceiver

def resolve (ref : Reference) : DispatchM (Option Value) :=
  Engine.resolveMember ref.on ref.member ref.origin ref.bindReceiver

end Reference

namespace Engine

/-- What references resolve to one after another. An error ends its own resolution only. -/
def resolveAll : List Reference → Engine → List (Except DispatchError (Option Value))
  | [], _ => []
  | ref :: rest, e => (ref.resolve.runFrom e).1 :: resolveAll rest (ref.resolve.runFrom e).2

section

variable {r : Registry} {config : EngineConfig} {References : MemberName → Prop}

/-- What the recursion on the registry finds for a reference. -/
def foundBy (r : Registry) (hw : WellFounded r.hierarchy.Above) (config : EngineConfig)
    (ref : Reference) : Except DispatchError (Option Value) :=
  (r.lookUp ref.key hw ref.on).map
    (·.value? r.hierarchy config ref.member.surface ref.on ref.member.pin)

/-- A reference among others that agree with it stands for what the recursion finds. -/
theorem resolve_keeps (hpaths : r.hierarchy.PathsWithin discoveryDepth) {ref : Reference}
    (hmember : References ref.member) (hagree : ∀ m, References m → m.AgreesWith ref.member) :
    DispatchM.Keeps (FaithfulIf r hpaths.wellFounded config References True) ref.resolve
      (· = foundBy r hpaths.wellFounded config ref) := by
  intro e he
  obtain ⟨⟨written, hwritten, hlookup, hanswer⟩, hkeeps⟩ := resolveMember_eq_answer hmember
    (hpaths.within ref.on) ref.origin ref.bindReceiver e he
  have hsurface := hagree written hwritten (congrArg LookupKey.key hlookup)
    (congrArg LookupKey.kind hlookup)
  refine ⟨hanswer.trans ?_, hkeeps⟩
  rw [hsurface]
  rfl

/-- References that agree with one another stand for what the recursion finds for each. -/
theorem resolveAll_eq_map (hpaths : r.hierarchy.PathsWithin discoveryDepth) {e : Engine}
    (he : e.FaithfulIf r hpaths.wellFounded config References True) {refs : List Reference}
    (hmembers : ∀ ref ∈ refs, References ref.member)
    (hagree : ∀ ref ∈ refs, ∀ m, References m → m.AgreesWith ref.member) :
    resolveAll refs e = refs.map (foundBy r hpaths.wellFounded config) := by
  induction refs generalizing e with
  | nil => rfl
  | cons ref rest ih =>
    obtain ⟨hfirst, hkeeps⟩ := resolve_keeps hpaths (hmembers ref List.mem_cons_self)
      (hagree ref List.mem_cons_self) e he
    rw [resolveAll, List.map_cons, hfirst]
    congr 1
    exact ih hkeeps (fun other h => hmembers other (List.mem_cons_of_mem ref h))
      fun other h => hagree other (List.mem_cons_of_mem ref h)

theorem faithfulIf_new {hw : WellFounded r.hierarchy.Above} {certain : Prop} :
    (Engine.new ⟨r, []⟩ config).FaithfulIf r hw config References certain where
  toFaithful := faithful_new ⟨r, []⟩ hw
  outages _ := by
    unfold Engine.new
    split <;> rfl

/-- **References may be resolved in any order.** On a registry whose paths of supertypes have at most
64 steps, two references give a fresh engine's answers the same in either order, errors included, and
each answer is that of the reference alone. -/
theorem lookups_commute (hpaths : r.hierarchy.PathsWithin 64) (config : EngineConfig)
    (first second : Reference) (hagree : first.member.AgreesWith second.member) :
    let e := Engine.new ⟨r, []⟩ config
    resolveAll [second, first] e = (resolveAll [first, second] e).reverse ∧
      resolveAll [first, second] e = [(first.resolve.runFrom e).1, (second.resolve.runFrom e).1] := by
  intro e
  let References : MemberName → Prop := fun m => m = first.member ∨ m = second.member
  have he : e.FaithfulIf r hpaths.wellFounded config References True := faithfulIf_new
  have hall : ∀ ref ∈ [first, second], References ref.member ∧
      ∀ m, References m → m.AgreesWith ref.member := by
    intro ref href
    rcases List.mem_cons.1 href with rfl | href
    · refine ⟨.inl rfl, ?_⟩
      rintro m (rfl | rfl) hkey hkind
      · rfl
      · exact (hagree hkey.symm hkind.symm).symm
    · obtain rfl := List.mem_singleton.1 href
      refine ⟨.inr rfl, ?_⟩
      rintro m (rfl | rfl)
      · exact hagree
      · exact fun _ _ => rfl
  have hmap : ∀ refs : List Reference, (∀ ref ∈ refs, ref ∈ [first, second]) →
      resolveAll refs e = refs.map (foundBy r hpaths.wellFounded config) := fun refs hrefs =>
    resolveAll_eq_map hpaths he (fun ref h => (hall ref (hrefs ref h)).1)
      fun ref h => (hall ref (hrefs ref h)).2
  have halone : ∀ ref ∈ [first, second], (ref.resolve.runFrom e).1 =
      foundBy r hpaths.wellFounded config ref := fun ref href =>
    (resolve_keeps hpaths (hall ref href).1 (hall ref href).2 e he).1
  rw [hmap [first, second] fun _ h => h, hmap [second, first] (by simp)]
  refine ⟨rfl, ?_⟩
  rw [halone first (by simp), halone second (by simp)]
  rfl

/-- Two types below one base, of which the second inherits what the first overrides. -/
theorem lookups_commute_of_override :
    let f (param : Ty) : Member :=
      { key := "f", kind := .method, params := [param], ret := .text, body := .constant .null }
    let r : Registry :=
      { hierarchy := ⟨[⟨"Base", []⟩, ⟨"Left", [.host 0]⟩, ⟨"Right", [.host 0, .host 1]⟩]⟩
        members := [(.host 0, [f .int, f .text]), (.host 1, [f .int]), (.host 2, [f .list])] }
    let member : MemberName := { surface := "f", key := "f", kind := .method, pin := none }
    let left : Reference := { on := .host 1, member }
    let right : Reference := { on := .host 2, member }
    let e := Engine.new ⟨r, []⟩ {}
    r.hierarchy.PathsWithin 64 ∧ left.member.AgreesWith right.member ∧
      resolveAll [right, left] e = (resolveAll [left, right] e).reverse ∧
        resolveAll [left, right] e = [(left.resolve.runFrom e).1, (right.resolve.runFrom e).1] := by
  intro f r member left right e
  have hpaths : r.hierarchy.PathsWithin 64 :=
    (Hierarchy.pathsWithin_of_precedes (by decide)).mono (by decide)
  have hagree : left.member.AgreesWith right.member := fun _ _ => rfl
  exact ⟨hpaths, hagree, lookups_commute hpaths {} left right hagree⟩

def candidateCount : Except DispatchError (Option Value) → Nat
  | .ok (some (.procedure callable)) => callable.candidates.length
  | _ => 0

/-- On a path of 65 steps the order tells. A lookup at the lower end stops short of the upper one, and
the type above the lower end keeps that it found nothing. -/
theorem lookups_differ_on_long_path :
    let f : Member := { key := "f", kind := .method, params := [], ret := .text, body := .constant .null }
    let r : Registry :=
      { hierarchy := ⟨(List.range 66).map fun n =>
          ⟨"T" ++ toString n, if n = 0 then [] else [.host (n - 1)]⟩⟩
        members := [(.host 0, [f])] }
    let member : MemberName := { surface := "f", key := "f", kind := .method, pin := none }
    let lowest : Reference := { on := .host 65, member }
    let next : Reference := { on := .host 64, member }
    let e := Engine.new ⟨r, []⟩ {}
    resolveAll [next, lowest] e ≠ (resolveAll [lowest, next] e).reverse := by
  intro f r member lowest next e heq
  have hcounts : ((resolveAll [next, lowest] e).map candidateCount,
      (resolveAll [lowest, next] e).map candidateCount) = ([1, 1], [0, 0]) := by
    decide +kernel
  have := congrArg (List.map candidateCount) heq
  rw [List.map_reverse, (Prod.mk.inj hcounts).1, (Prod.mk.inj hcounts).2] at this
  cases this

end

end Engine

end Multimethod
