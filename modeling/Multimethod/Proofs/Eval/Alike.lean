import Multimethod.Proofs.Engine.Alike
import Multimethod.Proofs.Eval.Run

/-!
# Interpreters alike

Interpreters are alike if their engines are and their bindings, objects, outputs and files agree up
to values alike. Evaluations of expressions alike run in lockstep from interpreters alike: they end
with values alike or with errors alike, or neither of them ends, and they leave interpreters alike.
The natives have to be uniform for that, which means that they make requests alike of arguments alike.

* `EvalM.Alike` — two evaluations in lockstep, with the rules `pure`, `bind` and `attempt`.
* `Native.IsUniform` — natives that do not look into tables.
-/

namespace Multimethod

/-! ## States -/

section states

variable (h : Hierarchy)

inductive Binding.Alike : Binding → Binding → Prop
  | bound {v w : Value} (hvalues : v.Alike h w) : Alike (.bound v) (.bound w)
  | removed : Alike .removed .removed

/-- The same names touched in the same order, with states alike. -/
def Bindings.Alike (b c : Bindings) : Prop := Cache.Alike (Binding.Alike h) b.slots c.slots

/-- The same objects with cells alike. -/
structure Objects.Alike (o p : Objects) : Prop where
  known : Cache.Alike (Value.AlikeAll h) o.known p.known
  made : o.made = p.made

end states

/-- Interpreters that differ in no more than settings, events and tables. -/
structure Interpreter.Alike (r : Registry) (i j : Interpreter) : Prop where
  engine : i.engine.Alike r j.engine
  bindings : i.bindings.Alike r.hierarchy j.bindings
  output : i.output = j.output
  objects : i.objects.Alike r.hierarchy j.objects
  files : i.files = j.files
  asked : i.asked = j.asked

namespace Bindings.Alike

variable {h : Hierarchy} {b c : Bindings}

theorem find? (hbc : b.Alike h c) (name : String) :
    Option.Rel (Binding.Alike h) (b.find? name) (c.find? name) := Cache.Alike.find? hbc name

theorem put (hbc : b.Alike h c) (name : String) {slot slot' : Binding}
    (hslots : slot.Alike h slot') : (b.put name slot).Alike h (c.put name slot') := by
  have hfind := hbc.find? name
  unfold Bindings.put
  unfold Bindings.find? at hfind
  generalize b.slots.find? name = found at hfind ⊢
  generalize c.slots.find? name = found' at hfind ⊢
  cases hfind with
  | none => exact .cons ⟨rfl, hslots⟩ hbc
  | some _ => exact Cache.Alike.modify hbc name fun _ _ _ => hslots

theorem setDefault (hbc : b.Alike h c) (name : String) {v w : Value} (hvw : v.Alike h w) :
    (b.setDefault name v).Alike h (c.setDefault name w) := by
  have hfind := hbc.find? name
  unfold Bindings.setDefault
  generalize b.find? name = found at hfind ⊢
  generalize c.find? name = found' at hfind ⊢
  cases hfind with
  | none => exact hbc.put name (.bound hvw)
  | some _ => exact hbc

end Bindings.Alike

namespace Objects.Alike

variable {h : Hierarchy} {o p : Objects}

theorem cells (hop : o.Alike h p) (object : HostObject) :
    Value.AlikeAll h (o.cells object) (p.cells object) := by
  unfold Objects.cells
  have hknown := hop.known
  generalize o.known = known at hknown ⊢
  generalize p.known = known' at hknown ⊢
  induction hknown with
  | nil => exact .nil
  | @cons a b _ _ hab _ ih =>
    obtain ⟨other, cells⟩ := a
    obtain ⟨other', cells'⟩ := b
    obtain ⟨rfl, hcells⟩ : other = other' ∧ Value.AlikeAll h cells cells' := hab
    rw [List.find?_cons, List.find?_cons]
    cases other.same object with
    | true => exact hcells
    | false => exact ih

theorem cell (hop : o.Alike h p) {v w : Value} (hvw : v.Alike h w) (place : Nat) :
    Value.Alike h (o.cell v place) (p.cell w place) := by
  cases hvw with
  | refl =>
    cases v with
    | host object => exact (hop.cells object).getD place (.refl _)
    | _ => exact .refl _
  | procedure _ => exact .refl _
  | list _ => exact .refl _

theorem putAt {xs ys : List Value} (hitems : Value.AlikeAll h xs ys) (place : Nat) {v w : Value}
    (hvw : v.Alike h w) :
    Value.AlikeAll h (Objects.putAt place v xs) (Objects.putAt place w ys) := by
  unfold Objects.putAt
  rw [hitems.length_eq]
  have happend := List.rel_append hitems (Value.AlikeAll.refl (h := h)
    (List.replicate (place + 1 - ys.length) .null))
  exact Value.AlikeAll.set happend place hvw

theorem setCell (hop : o.Alike h p) {v w : Value} (hvw : v.Alike h w) (place : Nat) {x y : Value}
    (hxy : x.Alike h y) : (o.setCell v place x).Alike h (p.setCell w place y) := by
  cases hvw with
  | refl =>
    cases v with
    | host object =>
      refine ⟨.cons ⟨rfl, putAt (hop.cells object) place hxy⟩ ?_, hop.made⟩
      refine List.rel_filter (fun a b hab => ?_) hop.known
      show (!a.1.same object) = true ↔ (!b.1.same object) = true
      rw [hab.1]
    | _ => exact hop
  | procedure _ => exact hop
  | list _ => exact hop

theorem make (hop : o.Alike h p) (ty : Nat) (typeName : String) {cells cells' : List Value}
    (hcells : Value.AlikeAll h cells cells') :
    (o.make ty typeName cells).1 = (p.make ty typeName cells').1 ∧
      (o.make ty typeName cells).2.Alike h (p.make ty typeName cells').2 := by
  unfold Objects.make
  rw [hop.made]
  exact ⟨rfl, .cons ⟨rfl, hcells⟩ hop.known, rfl⟩

end Objects.Alike

/-! ## Evaluations in lockstep -/

/-- From interpreters alike, either neither evaluation ends, or they end with related answers or with
errors alike and leave interpreters alike. -/
def EvalM.Alike {α β : Type} (r : Registry) (R : α → β → Prop) (m : EvalM α) (m' : EvalM β) : Prop :=
  ∀ i j, i.Alike r j → Option.Rel
    (fun a b => ResultsAlike (RuntimeError.Alike r.hierarchy) R a.1 b.1 ∧ a.2.Alike r b.2)
    (m.runFrom i) (m'.runFrom j)

namespace EvalM.Alike

variable {α α' β β' : Type} {r : Registry} {R : α → α' → Prop} {S : β → β' → Prop}
  {m : EvalM α} {m' : EvalM α'} {k : α → EvalM β} {k' : α' → EvalM β'}

theorem pure {a : α} {a' : α'} (ha : R a a') : EvalM.Alike r R (pure a) (pure a') := by
  intro i j hij
  rw [runFrom_pure, runFrom_pure]
  exact .some ⟨.ok ha, hij⟩

theorem throw {e f : RuntimeError} (hef : e.Alike r.hierarchy f) :
    EvalM.Alike r R (throw e : EvalM α) (throw f : EvalM α') := by
  intro i j hij
  rw [runFrom_throw, runFrom_throw]
  exact .some ⟨.error hef, hij⟩

theorem exhausted : EvalM.Alike r R (exhausted : EvalM α) (exhausted : EvalM α') := by
  intro i j _
  rw [runFrom_exhausted, runFrom_exhausted]
  exact .none

theorem bind (hm : EvalM.Alike r R m m') (hk : ∀ a a', R a a' → EvalM.Alike r S (k a) (k' a')) :
    EvalM.Alike r S (m >>= k) (m' >>= k') := by
  intro i j hij
  have hfirst := hm i j hij
  rw [runFrom_bind, runFrom_bind]
  generalize m.runFrom i = ran at hfirst ⊢
  generalize m'.runFrom j = ran' at hfirst ⊢
  cases hfirst with
  | none => exact .none
  | @some a b hran =>
    obtain ⟨result, i'⟩ := a
    obtain ⟨result', j'⟩ := b
    obtain ⟨hresults, hstates⟩ := hran
    cases hresults with
    | ok hanswers => exact hk _ _ hanswers i' j' hstates
    | error herrors => exact .some ⟨.error herrors, hstates⟩

theorem get_bind {k : Interpreter → EvalM β} {k' : Interpreter → EvalM β'}
    (hk : ∀ i j, i.Alike r j → EvalM.Alike r S (k i) (k' j)) :
    EvalM.Alike r S (get >>= k) (get >>= k') := by
  intro i j hij
  rw [runFrom_get_bind, runFrom_get_bind]
  exact hk i j hij i j hij

theorem modify {f f' : Interpreter → Interpreter}
    (hf : ∀ i j, i.Alike r j → (f i).Alike r (f' j)) :
    EvalM.Alike r Eq (modify f) (modify f') := by
  intro i j hij
  rw [runFrom_modify, runFrom_modify]
  exact .some ⟨.ok rfl, hf i j hij⟩

theorem set {s s' : Interpreter} (hss : s.Alike r s') : EvalM.Alike r Eq (set s) (set s') := by
  intro i j _
  rw [runFrom_set, runFrom_set]
  exact .some ⟨.ok rfl, hss⟩

theorem attempt (hm : EvalM.Alike r R m m') :
    EvalM.Alike r (ResultsAlike (RuntimeError.Alike r.hierarchy) R) (attempt m) (attempt m') := by
  intro i j hij
  have hran := hm i j hij
  rw [runFrom_attempt, runFrom_attempt]
  generalize m.runFrom i = ran at hran ⊢
  generalize m'.runFrom j = ran' at hran ⊢
  cases hran with
  | none => exact .none
  | some hran => exact .some ⟨.ok hran.1, hran.2⟩

theorem dispatch {m : DispatchM α} {m' : DispatchM α'} (hm : DispatchM.Alike r R m m') :
    EvalM.Alike r R (dispatch m) (dispatch m') := by
  intro i j hij
  obtain ⟨hresults, hengines⟩ := hm i.engine j.engine hij.engine
  rw [runFrom_dispatch, runFrom_dispatch]
  refine .some ⟨?_, { hij with engine := hengines }⟩
  generalize (m.runFrom i.engine).1 = result at hresults ⊢
  generalize (m'.runFrom j.engine).1 = result' at hresults ⊢
  cases hresults with
  | ok hanswers => exact .ok hanswers
  | error herrors =>
    subst herrors
    exact .error (.refl _)

theorem report (event event' : Event) : EvalM.Alike r Eq (report event) (report event') :=
  modify fun _ _ hij => { hij with engine := hij.engine.report event event' }

theorem hierarchy : EvalM.Alike r (fun h h' => h = r.hierarchy ∧ h' = r.hierarchy)
    EvalM.hierarchy EvalM.hierarchy :=
  get_bind fun _ _ hij => pure ⟨hij.engine.hierarchy_eq, hij.engine.hierarchy_eq'⟩

/-! ## The operations of an interpreter -/

theorem write (text : String) : EvalM.Alike r Eq (write text) (write text) := by
  unfold EvalM.write
  refine get_bind fun i j hij => ?_
  rw [hij.output]
  split
  · split
    · exact pure rfl
    · exact throw (.refl _)
  · exact set { hij with output := rfl }

theorem rebind {f f' : Bindings → Bindings}
    (hf : ∀ b c, b.Alike r.hierarchy c → (f b).Alike r.hierarchy (f' c)) :
    EvalM.Alike r Eq (rebind f) (rebind f') :=
  modify fun _ _ hij => { hij with bindings := hf _ _ hij.bindings }

theorem lookUp (name : String) :
    EvalM.Alike r (Option.Rel (Value.Alike r.hierarchy)) (lookUp name) (lookUp name) := by
  unfold EvalM.lookUp
  refine get_bind fun i j hij => ?_
  have hfind := hij.bindings.find? name
  generalize i.bindings.find? name = found at hfind ⊢
  generalize j.bindings.find? name = found' at hfind ⊢
  cases hfind with
  | none => exact dispatch (Engine.resolve_alike name none)
  | some hslots =>
    cases hslots with
    | bound hvalues => exact pure (.some hvalues)
    | removed => exact pure .none

theorem valueOf (name : String) :
    EvalM.Alike r (Value.Alike r.hierarchy) (valueOf name) (valueOf name) := by
  unfold EvalM.valueOf
  refine (lookUp name).bind fun answer answer' hanswer => ?_
  cases hanswer with
  | none => exact throw (.refl _)
  | some hvalues => exact pure hvalues

theorem importScope (scope : String) (qualifier : Option String) :
    EvalM.Alike r Eq (importScope scope qualifier) (importScope scope qualifier) := by
  unfold EvalM.importScope
  refine get_bind fun i j hij => ?_
  rw [hij.engine.findType?_eq]
  cases j.engine.findType? scope with
  | none => exact throw (.refl _)
  | some t =>
    exact set { hij with engine := hij.engine.addImport t qualifier }

theorem readFile (path : String) : EvalM.Alike r Eq (readFile path) (readFile path) := by
  unfold EvalM.readFile
  refine EvalM.Alike.bind (modify ?_) fun _ _ _ => get_bind fun i j hij => ?_
  · intro i j hij
    refine { hij with asked := ?_ }
    rw [hij.asked]
  · rw [hij.files]
    cases j.files.read path with
    | ok contents => exact pure rfl
    | error problem => exact throw (.refl _)

theorem makeObject (t : Ty) {cells cells' : List Value}
    (hcells : Value.AlikeAll r.hierarchy cells cells') :
    EvalM.Alike r (Value.Alike r.hierarchy) (makeObject t cells) (makeObject t cells') := by
  unfold EvalM.makeObject
  cases t with
  | host id =>
    refine get_bind fun i j hij => ?_
    rw [hij.engine.hierarchy_eq, hij.engine.hierarchy_eq']
    have hmade := hij.objects.make id (r.hierarchy.typeName (.host id)) hcells
    generalize i.objects.make id (r.hierarchy.typeName (.host id)) cells = made at hmade ⊢
    generalize j.objects.make id (r.hierarchy.typeName (.host id)) cells' = made' at hmade ⊢
    obtain ⟨object, objects⟩ := made
    obtain ⟨object', objects'⟩ := made'
    obtain ⟨rfl, hobjects⟩ : object = object' ∧ objects.Alike r.hierarchy objects' := hmade
    have hafter : Interpreter.Alike r { i with objects } { j with objects := objects' } :=
      { hij with objects := hobjects }
    exact (set hafter).bind fun _ _ _ => pure (.refl _)
  | _ => exact pure (.refl _)

end EvalM.Alike

end Multimethod
