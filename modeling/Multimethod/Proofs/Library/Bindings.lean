import Multimethod.Proofs.Eval.Assignments
import Multimethod.Proofs.Library.Uniform

/-!
# The library leaves the bindings alone

No procedure of the library and no stock native changes the bindings itself. Some evaluate, call or load
what they are given, and what that assigns is all that they change.

* `Library.members_leaveBindings` — all members of the library.
* `Registry.withLibrary_leavesBindings` — adding the library to a registry adds no native that changes the
  bindings.
-/

namespace Multimethod

namespace Action.LeavesBindings

theorem give (v : Value) : (Action.give v).LeavesBindings := .done _

theorem fail (e : RuntimeError) : (Action.fail e).LeavesBindings := .done _

theorem ask {request : Request} (hrequest : request.isRebinding = false) :
    (Action.ask request).LeavesBindings :=
  .request hrequest fun answer => .done answer

end Action.LeavesBindings

theorem Stock.leavesBindings (owner : Ty) (s : Stock) : (s.native owner).LeavesBindings := by
  intro args
  cases s with
  | tag text => exact .give _
  | first => exact .give _
  | value v => exact .give v
  | fail message => exact .fail _
  | evaluate source => exact .ask rfl
  | apply => exact .ask rfl
  | make => exact .ask rfl
  | cell place => exact .ask rfl
  | setCell place => exact .ask rfl

namespace Library

open Action.LeavesBindings

theorem unary_leavesBindings (name : String) {f : Value → Action} (hf : ∀ v, (f v).LeavesBindings) :
    (unary name f).LeavesBindings := by
  intro args
  unfold unary
  split
  · exact hf _
  · exact fail _

theorem binary_leavesBindings (name : String) {f : Value → Value → Action}
    (hf : ∀ a b, (f a b).LeavesBindings) : (binary name f).LeavesBindings := by
  intro args
  unfold binary
  split
  · exact hf _ _
  · exact fail _

theorem onText_leavesBindings (name wanted : String) {f : String → Action}
    (hf : ∀ s, (f s).LeavesBindings) : (onText name wanted f).LeavesBindings := by
  refine unary_leavesBindings name fun v => ?_
  split
  · exact hf _
  · exact fail _

theorem leavesBindings_of_body {m : Member} {run : Native} (hbody : m.body = .native run)
    (hrun : run.LeavesBindings) : m.LeavesBindings := by
  intro run' hbody'
  rw [hbody] at hbody'
  cases hbody'
  exact hrun

theorem intOp_leavesBindings (name : String) (f : Int32 → Int32 → Option Int32) :
    (intOp name f).LeavesBindings := by
  refine leavesBindings_of_body rfl (binary_leavesBindings name fun a b => ?_)
  split
  · split
    · exact give _
    · exact fail _
  · exact fail _

theorem longOp_leavesBindings (name : String) (f : Int64 → Int64 → Option Int64) :
    (longOp name f).LeavesBindings := by
  refine leavesBindings_of_body rfl (binary_leavesBindings name fun a b => ?_)
  split
  · split
    · exact give _
    · exact fail _
  · exact fail _

theorem doubleOp_leavesBindings (name : String) (f : Float → Float → Float) :
    (doubleOp name f).LeavesBindings := by
  refine leavesBindings_of_body rfl (binary_leavesBindings name fun a b => ?_)
  split
  · exact give _
  · exact fail _

theorem negateInt_leavesBindings : negateInt.LeavesBindings := by
  refine leavesBindings_of_body rfl (unary_leavesBindings "-" fun a => ?_)
  split
  · exact give _
  · exact fail _

theorem negateLong_leavesBindings : negateLong.LeavesBindings := by
  refine leavesBindings_of_body rfl (unary_leavesBindings "-" fun a => ?_)
  split
  · exact give _
  · exact fail _

theorem negateDouble_leavesBindings : negateDouble.LeavesBindings := by
  refine leavesBindings_of_body rfl (unary_leavesBindings "-" fun a => ?_)
  split
  · exact give _
  · exact fail _

theorem arithmetic_leaveBindings : ∀ m ∈ arithmetic, m.LeavesBindings := by
  intro m hm
  simp only [arithmetic, List.mem_cons, List.not_mem_nil, or_false] at hm
  rcases hm with rfl | rfl | rfl | rfl | rfl | rfl | rfl | rfl | rfl | rfl | rfl | rfl | rfl | rfl | rfl
  all_goals first
    | exact intOp_leavesBindings _ _
    | exact longOp_leavesBindings _ _
    | exact doubleOp_leavesBindings _ _
    | exact negateInt_leavesBindings
    | exact negateLong_leavesBindings
    | exact negateDouble_leavesBindings

theorem test_leavesBindings (name : String) (p : Value → Bool) : (test name p).LeavesBindings :=
  leavesBindings_of_body rfl (unary_leavesBindings name fun _ => give _)

theorem lists_leaveBindings : ∀ m ∈ lists, m.LeavesBindings := by
  intro m hm
  simp only [lists, List.mem_cons, List.not_mem_nil, or_false] at hm
  rcases hm with rfl | rfl | rfl | rfl
  · exact leavesBindings_of_body rfl fun _ => give _
  · exact leavesBindings_of_body rfl (unary_leavesBindings "list" give)
  · exact test_leavesBindings _ _
  · exact test_leavesBindings _ _

theorem symbols_leaveBindings : ∀ m ∈ symbols, m.LeavesBindings := by
  intro m hm
  simp only [symbols, List.mem_cons, List.not_mem_nil, or_false] at hm
  rcases hm with rfl | rfl | rfl
  · refine leavesBindings_of_body rfl (unary_leavesBindings _ fun v => ?_)
    split
    · exact give _
    · exact fail _
  · exact leavesBindings_of_body rfl (onText_leavesBindings _ _ fun s => give (.symbol s))
  · exact test_leavesBindings _ _

theorem printer_leavesBindings (name : String) (text : Value → String) :
    (printer name text).LeavesBindings :=
  leavesBindings_of_body rfl (unary_leavesBindings name fun _ => ask rfl)

theorem renderer_leavesBindings (name : String) (text : Value → String) :
    (renderer name text).LeavesBindings :=
  leavesBindings_of_body rfl (unary_leavesBindings name fun _ => give _)

theorem printing_leaveBindings : ∀ m ∈ printing, m.LeavesBindings := by
  intro m hm
  simp only [printing, List.mem_cons, List.not_mem_nil, or_false] at hm
  rcases hm with rfl | rfl | rfl | rfl | rfl | rfl
  · exact printer_leavesBindings _ _
  · exact printer_leavesBindings _ _
  · exact printer_leavesBindings _ _
  · exact leavesBindings_of_body rfl fun _ => ask rfl
  · exact renderer_leavesBindings _ _
  · exact renderer_leavesBindings _ _

theorem evaluation_leaveBindings : ∀ m ∈ evaluation, m.LeavesBindings := by
  intro m hm
  simp only [evaluation, List.mem_cons, List.not_mem_nil, or_false] at hm
  rcases hm with rfl | rfl | rfl | rfl | rfl | rfl
  · exact leavesBindings_of_body rfl (unary_leavesBindings _ fun _ => ask rfl)
  · refine leavesBindings_of_body rfl (onText_leavesBindings _ _ fun s => ?_)
    unfold firstDatum
    split
    · exact give _
    · exact give _
    · exact fail _
  · exact leavesBindings_of_body rfl (onText_leavesBindings _ _ fun _ => ask rfl)
  · exact leavesBindings_of_body rfl (onText_leavesBindings _ _ fun _ => ask rfl)
  · exact leavesBindings_of_body rfl (onText_leavesBindings _ _ fun _ => ask rfl)
  · refine leavesBindings_of_body rfl (binary_leavesBindings _ fun a b => ?_)
    split
    · exact ask rfl
    · exact fail _

/-- **All members of the library leave the bindings alone.** -/
theorem members_leaveBindings : ∀ m ∈ members, m.LeavesBindings := by
  intro m hm
  simp only [members, List.mem_append, List.mem_singleton] at hm
  rcases hm with ((((hm | hm) | hm) | hm) | hm) | rfl
  · exact lists_leaveBindings m hm
  · exact symbols_leaveBindings m hm
  · exact arithmetic_leaveBindings m hm
  · exact printing_leaveBindings m hm
  · exact evaluation_leaveBindings m hm
  · rintro run ⟨⟩

end Library

theorem Registry.withLibrary_leavesBindings {r : Registry} (scopeName : String) (hr : r.LeavesBindings) :
    (r.withLibrary scopeName).LeavesBindings := by
  intro t m hm
  rcases mem_membersOf_addAll hm with hm | hm
  · exact hr t m hm
  · exact Library.members_leaveBindings m hm

end Multimethod
