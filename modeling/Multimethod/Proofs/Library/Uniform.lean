import Multimethod.Library.Root
import Multimethod.Proofs.Registry.Uniform

/-!
# The library is uniform

Procedures of the library test the kinds of their arguments, print them and hand them on, but none of
them looks into a table.

* `binary_isUniform` — natives that compute with two arguments of one kind and complain about others.
* `members_isUniform` — all members of the library.
* `Registry.withLibrary_isUniform` — adding the library keeps a registry uniform.
-/

namespace Multimethod

variable {h : Hierarchy}

namespace Value

/-- Is the value one that other values may be alike to: a procedure or a list? -/
def isCompound : Value → Bool
  | procedure _ | list _ => true
  | _ => false

theorem Alike.eq_or_compound {v w : Value} (hv : Alike h v w) :
    v = w ∨ v.isCompound ∧ w.isCompound := by
  cases hv with
  | refl => exact .inl rfl
  | procedure _ => exact .inr ⟨rfl, rfl⟩
  | list _ => exact .inr ⟨rfl, rfl⟩

end Value

namespace Library

/-! ## Natives -/

theorem wrongCount_alike (name : String) (wanted : Nat) {args args' : List Value}
    (hargs : Value.AlikeAll h args args') :
    (wrongCount name wanted args).Alike h (wrongCount name wanted args') := by
  unfold wrongCount
  rw [hargs.length_eq]
  exact .fail _

theorem wrongKind_alike (name wanted : String) {v w : Value} (hvw : v.Alike h w) :
    (wrongKind name wanted v).Alike h (wrongKind name wanted w) := by
  unfold wrongKind
  rw [hvw.write_eq]
  exact .fail _

theorem unary_isUniform (name : String) {f : Value → Action}
    (hf : ∀ v w, v.Alike h w → (f v).Alike h (f w)) : Native.IsUniform h (unary name f) := by
  intro args args' hargs
  rcases hargs with _ | ⟨hv, _ | ⟨hw, hrest⟩⟩
  · exact wrongCount_alike name 1 .nil
  · exact hf _ _ hv
  · exact wrongCount_alike name 1 (.cons hv (.cons hw hrest))

/-- A native of one argument that complains about procedures and lists. -/
theorem unary_isUniform_of_atoms (name wanted : String) {f : Value → Action}
    (hself : ∀ v, (f v).Alike h (f v))
    (hcompound : ∀ v : Value, v.isCompound → f v = wrongKind name wanted v) :
    Native.IsUniform h (unary name f) := by
  apply unary_isUniform
  intro v w hvw
  rcases hvw.eq_or_compound with rfl | ⟨hv, hw⟩
  · exact hself v
  · rw [hcompound v hv, hcompound w hw]
    exact wrongKind_alike name wanted hvw

/-- A native of two arguments that complains about procedures and lists. -/
theorem binary_isUniform (name wanted : String) {f : Value → Value → Action}
    (hself : ∀ a b, (f a b).Alike h (f a b))
    (hcompound : ∀ a b : Value, a.isCompound ∨ b.isCompound → f a b = wrongKind name wanted a) :
    Native.IsUniform h (binary name f) := by
  intro args args' hargs
  rcases hargs with _ | ⟨ha, _ | ⟨hb, _ | ⟨hc, hrest⟩⟩⟩
  · exact wrongCount_alike name 2 .nil
  · exact wrongCount_alike name 2 (.cons ha .nil)
  · rename_i a a' b b'
    show (f a b).Alike h (f a' b')
    by_cases hcomp : a.isCompound ∨ b.isCompound
    · have hcomp' : a'.isCompound ∨ b'.isCompound := by
        rcases ha.eq_or_compound with rfl | ⟨_, ha'⟩
        · rcases hb.eq_or_compound with rfl | ⟨_, hb'⟩
          · exact hcomp
          · exact .inr hb'
        · exact .inl ha'
      rw [hcompound a b hcomp, hcompound a' b' hcomp']
      exact wrongKind_alike name wanted ha
    · rcases ha.eq_or_compound with rfl | ⟨ha', _⟩
      · rcases hb.eq_or_compound with rfl | ⟨hb', _⟩
        · exact hself a b
        · exact absurd (.inr hb') hcomp
      · exact absurd (.inl ha') hcomp
  · exact wrongCount_alike name 2 (.cons ha (.cons hb (.cons hc hrest)))

/-! ## Members -/

theorem isUniform_of_body {m : Member} {run : Native} (hbody : m.body = .native run)
    (hrun : Native.IsUniform h run) : m.IsUniform h := by
  intro run' hbody'
  rw [hbody] at hbody'
  cases hbody'
  exact hrun

theorem constant_isUniform (name : String) (value : Value) :
    (Member.constant name value).IsUniform h := by
  intro run hbody
  cases hbody

theorem intOp_isUniform (name : String) (f : Int32 → Int32 → Option Int32) :
    (intOp name f).IsUniform h := by
  apply isUniform_of_body rfl
  apply binary_isUniform name "integers"
  · intro a b
    split
    · split
      · exact .give (.refl _)
      · exact .fail _
    · exact wrongKind_alike _ _ (.refl _)
  · intro a b hab
    cases a <;> cases b <;> first | rfl | simp [Value.isCompound] at hab

theorem longOp_isUniform (name : String) (f : Int64 → Int64 → Option Int64) :
    (longOp name f).IsUniform h := by
  apply isUniform_of_body rfl
  apply binary_isUniform name "longs"
  · intro a b
    split
    · split
      · exact .give (.refl _)
      · exact .fail _
    · exact wrongKind_alike _ _ (.refl _)
  · intro a b hab
    cases a <;> cases b <;> first | rfl | simp [Value.isCompound] at hab

theorem doubleOp_isUniform (name : String) (f : Float → Float → Float) :
    (doubleOp name f).IsUniform h := by
  apply isUniform_of_body rfl
  apply binary_isUniform name "doubles"
  · intro a b
    split
    · exact .give (.refl _)
    · exact wrongKind_alike _ _ (.refl _)
  · intro a b hab
    cases a <;> cases b <;> first | rfl | simp [Value.isCompound] at hab

theorem negateInt_isUniform : negateInt.IsUniform h := by
  apply isUniform_of_body rfl
  apply unary_isUniform_of_atoms "-" "an integer"
  · intro v
    split
    · exact .give (.refl _)
    · exact wrongKind_alike _ _ (.refl _)
  · intro v hv
    cases v <;> first | rfl | cases hv

theorem negateLong_isUniform : negateLong.IsUniform h := by
  apply isUniform_of_body rfl
  apply unary_isUniform_of_atoms "-" "a long"
  · intro v
    split
    · exact .give (.refl _)
    · exact wrongKind_alike _ _ (.refl _)
  · intro v hv
    cases v <;> first | rfl | cases hv

theorem negateDouble_isUniform : negateDouble.IsUniform h := by
  apply isUniform_of_body rfl
  apply unary_isUniform_of_atoms "-" "a double"
  · intro v
    split
    · exact .give (.refl _)
    · exact wrongKind_alike _ _ (.refl _)
  · intro v hv
    cases v <;> first | rfl | cases hv

theorem arithmetic_isUniform : ∀ m ∈ arithmetic, m.IsUniform h := by
  intro m hm
  simp only [arithmetic, List.mem_cons, List.not_mem_nil, or_false] at hm
  rcases hm with rfl | rfl | rfl | rfl | rfl | rfl | rfl | rfl | rfl | rfl | rfl | rfl | rfl | rfl | rfl
  · exact intOp_isUniform _ _
  · exact longOp_isUniform _ _
  · exact doubleOp_isUniform _ _
  · exact intOp_isUniform _ _
  · exact longOp_isUniform _ _
  · exact doubleOp_isUniform _ _
  · exact intOp_isUniform _ _
  · exact longOp_isUniform _ _
  · exact doubleOp_isUniform _ _
  · exact intOp_isUniform _ _
  · exact longOp_isUniform _ _
  · exact doubleOp_isUniform _ _
  · exact negateInt_isUniform
  · exact negateLong_isUniform
  · exact negateDouble_isUniform

/-- A test that procedures and lists pass or fail whatever is in them. -/
theorem test_isUniform (name : String) {p : Value → Bool}
    (hp : ∀ v w, v.Alike h w → p v = p w) : (test name p).IsUniform h := by
  apply isUniform_of_body rfl
  apply unary_isUniform
  intro v w hvw
  rw [hp v w hvw]
  exact .give (.refl _)

theorem lists_isUniform : ∀ m ∈ lists, m.IsUniform h := by
  intro m hm
  simp only [lists, List.mem_cons, List.not_mem_nil, or_false] at hm
  rcases hm with rfl | rfl | rfl | rfl
  · exact isUniform_of_body rfl fun args args' hargs => .give (.list hargs)
  · exact isUniform_of_body rfl (unary_isUniform "list" fun v w hvw => .give hvw)
  · exact test_isUniform _ fun v w hvw => by cases hvw <;> rfl
  · exact test_isUniform _ fun v w hvw => hvw.isProcedure_eq

theorem symbols_isUniform : ∀ m ∈ symbols, m.IsUniform h := by
  intro m hm
  simp only [symbols, List.mem_cons, List.not_mem_nil, or_false] at hm
  rcases hm with rfl | rfl | rfl
  · apply isUniform_of_body rfl
    apply unary_isUniform_of_atoms _ "a symbol"
    · intro v
      split
      · exact .give (.refl _)
      · exact wrongKind_alike _ _ (.refl _)
    · intro v hv
      cases v <;> first | rfl | cases hv
  · apply isUniform_of_body rfl
    apply unary_isUniform_of_atoms _ "a string"
    · intro v
      split
      · exact .give (.refl _)
      · exact wrongKind_alike _ _ (.refl _)
    · intro v hv
      cases v <;> first | rfl | cases hv
  · exact test_isUniform _ fun v w hvw => by cases hvw <;> rfl

theorem printer_isUniform (name : String) {text : Value → String}
    (htext : ∀ v w, v.Alike h w → text v = text w) : (printer name text).IsUniform h := by
  apply isUniform_of_body rfl
  apply unary_isUniform
  intro v w hvw
  rw [htext v w hvw]
  exact .ask (.refl _)

theorem renderer_isUniform (name : String) {text : Value → String}
    (htext : ∀ v w, v.Alike h w → text v = text w) : (renderer name text).IsUniform h := by
  apply isUniform_of_body rfl
  apply unary_isUniform
  intro v w hvw
  rw [htext v w hvw]
  exact .give (.refl _)

theorem printing_isUniform : ∀ m ∈ printing, m.IsUniform h := by
  intro m hm
  simp only [printing, List.mem_cons, List.not_mem_nil, or_false] at hm
  rcases hm with rfl | rfl | rfl | rfl | rfl | rfl
  · exact printer_isUniform _ fun v w hvw => hvw.display_eq
  · exact printer_isUniform _ fun v w hvw => hvw.write_eq
  · exact printer_isUniform _ fun v w hvw => hvw.write_eq
  · exact isUniform_of_body rfl fun _ _ _ => .ask (.refl _)
  · exact renderer_isUniform _ fun v w hvw => hvw.display_eq
  · exact renderer_isUniform _ fun v w hvw => hvw.write_eq

theorem onText_isUniform (name wanted : String) {f : String → Action}
    (hf : ∀ s, (f s).Alike h (f s)) : Native.IsUniform h (onText name wanted f) := by
  apply unary_isUniform_of_atoms name wanted
  · intro v
    split
    · exact hf _
    · exact wrongKind_alike _ _ (.refl _)
  · intro v hv
    cases v <;> first | rfl | cases hv

theorem evaluation_isUniform : ∀ m ∈ evaluation, m.IsUniform h := by
  intro m hm
  simp only [evaluation, List.mem_cons, List.not_mem_nil, or_false] at hm
  rcases hm with rfl | rfl | rfl | rfl | rfl | rfl
  · exact isUniform_of_body rfl (unary_isUniform _ fun v w hvw => .ask (.eval hvw))
  · apply isUniform_of_body rfl
    apply onText_isUniform
    intro s
    unfold firstDatum
    split
    · exact .give (.refl _)
    · exact .give (.refl _)
    · exact .fail _
  · exact isUniform_of_body rfl (onText_isUniform _ _ fun s => .ask (.refl _))
  · exact isUniform_of_body rfl (onText_isUniform _ _ fun s => .ask (.refl _))
  · exact isUniform_of_body rfl (onText_isUniform _ _ fun s => .ask (.refl _))
  · apply isUniform_of_body rfl
    apply binary_isUniform _ "a type name and a prefix"
    · intro a b
      split
      · exact .ask (.refl _)
      · exact wrongKind_alike _ _ (.refl _)
    · intro a b hab
      cases a <;> cases b <;> first | rfl | simp [Value.isCompound] at hab

/-- **All members of the library are uniform.** -/
theorem members_isUniform : ∀ m ∈ members, m.IsUniform h := by
  intro m hm
  simp only [members, List.mem_append, List.mem_singleton] at hm
  rcases hm with ((((hm | hm) | hm) | hm) | hm) | rfl
  · exact lists_isUniform m hm
  · exact symbols_isUniform m hm
  · exact arithmetic_isUniform m hm
  · exact printing_isUniform m hm
  · exact evaluation_isUniform m hm
  · exact constant_isUniform _ _

end Library

namespace Registry

/-- Members of a type after some were added were there before or are among those added. -/
theorem mem_membersOf_addAll {r : Registry} {t u : Ty} {added : List Member} {m : Member}
    (hm : m ∈ (r.addAll t added).membersOf u) : m ∈ r.membersOf u ∨ m ∈ added := by
  obtain ⟨hierarchy, table⟩ := r
  unfold addAll membersOf at *
  simp only at *
  induction table with
  | nil =>
    rw [appendMembers, List.find?_cons] at hm
    by_cases htu : t = u
    · simp only [htu, decide_true] at hm
      exact .inr hm
    · simp [htu] at hm
  | cons entry rest ih =>
    obtain ⟨other, members⟩ := entry
    unfold appendMembers at hm
    by_cases hother : other = t
    · rw [if_pos hother, List.find?_cons] at hm
      rw [List.find?_cons]
      by_cases hu : other = u
      · simp only [hu, decide_true] at hm ⊢
        exact List.mem_append.1 hm
      · simp only [hu, decide_false] at hm ⊢
        exact .inl hm
    · rw [if_neg hother, List.find?_cons] at hm
      rw [List.find?_cons]
      by_cases hu : other = u
      · simp only [hu, decide_true] at hm ⊢
        exact .inl hm
      · simp only [hu, decide_false] at hm ⊢
        exact ih hm

theorem withLibrary_isUniform {r : Registry} (scopeName : String)
    (hr : ∀ t, ∀ m ∈ r.membersOf t, m.IsUniform (r.withLibrary scopeName).hierarchy) :
    (r.withLibrary scopeName).IsUniform := by
  intro t m hm
  rcases mem_membersOf_addAll hm with hm | hm
  · exact hr t m hm
  · exact Library.members_isUniform m hm

end Registry

end Multimethod
