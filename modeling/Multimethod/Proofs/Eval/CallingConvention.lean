import Multimethod.Proofs.Engine.Declared
import Multimethod.Proofs.Eval.OverloadCall

/-!
# The calling convention

A candidate tests the arguments of a call and then hands them to its member. A native gets one value for
each parameter: the argument itself, or where the parameter is primitive the argument in the representation
of that type, so that it need not ask for the type again. If the member is variadic, the arguments that are
left come last, as one list.

* `Value.Converts` — a value in the representation of a primitive type.
* `Value.converts_widenTo` — an argument that fits a primitive parameter is converted to it.
* `Candidate.isPassed_callArguments` — what a member gets for arguments that its candidate accepts.
* `Task.calls_by_convention` — a call hands over just this, or it is rejected and runs nothing.
-/

namespace Multimethod

/-! ## Values in other representations -/

namespace Value

/-- The whole number that a value stands for: that of an integer, and the code point of a character. -/
def integer? : Value → Option Int
  | char c => some c.toNat
  | int n => some n.toInt
  | long n => some n.toInt
  | _ => none

/-- The second value is the first one in the representation of the type: it has this type, and it is the
first one if that has the type as well. Otherwise it is the whole number that the first one stands for, and
where the type is Double the double nearest to it. -/
structure Converts (target : Ty) (v w : Value) : Prop where
  ty_eq : w.ty = target
  same : v.ty = target → w = v
  number : v.ty ≠ target →
    ∃ n, v.integer? = some n ∧ (w.integer? = some n ∨ w = .double (Decimal.doubleOfInt n))

variable {h : Hierarchy} {v : Value} {target : Ty}

theorem widenTo_ty (v : Value) : v.widenTo v.ty = v := by
  cases v <;> rfl

theorem widenTo_of_not_isPrimitive (htarget : target.isPrimitive = false) : v.widenTo target = v := by
  cases target <;> first | rfl | cases htarget

theorem toInt_code (c : Char) :
    (Int32.ofInt c.toNat).toInt = c.toNat ∧ (Int64.ofInt c.toNat).toInt = c.toNat := by
  have hvalid : c.toNat < 0xd800 ∨ 0xdfff < c.toNat ∧ c.toNat < 0x110000 := c.valid
  have hnonneg : (0 : Int) ≤ c.toNat := Int.natCast_nonneg _
  exact ⟨Int32.toInt_ofInt_of_le (by omega) (by omega), Int64.toInt_ofInt_of_le (by omega) (by omega)⟩

/-- **An argument that fits a primitive parameter is converted to it.** -/
theorem converts_widenTo (htarget : target.isPrimitive) (hassign : h.isAssignable v.ty target) :
    Converts target v (v.widenTo target) := by
  by_cases hty : v.ty = target
  · subst hty
    rw [widenTo_ty]
    exact ⟨rfl, fun _ => rfl, fun hne => absurd rfl hne⟩
  -- of the types that fit another primitive one, only Char, Int and Long are left
  have hconverted : (v.widenTo target).ty = target ∧ ∃ n, v.integer? = some n ∧
      ((v.widenTo target).integer? = some n ∨ v.widenTo target = .double (Decimal.doubleOfInt n)) := by
    cases v with
    | char c =>
      cases target with
      | int => exact ⟨rfl, _, rfl, .inl (congrArg some (toInt_code c).1)⟩
      | long => exact ⟨rfl, _, rfl, .inl (congrArg some (toInt_code c).2)⟩
      | double => exact ⟨rfl, _, rfl, .inr rfl⟩
      | char => exact absurd rfl hty
      | bool => cases hassign
      | _ => cases htarget
    | int n =>
      cases target with
      | long => exact ⟨rfl, _, rfl, .inl (congrArg some n.toInt_toInt64)⟩
      | double => exact ⟨rfl, _, rfl, .inr rfl⟩
      | int => exact absurd rfl hty
      | bool => cases hassign
      | char => cases hassign
      | _ => cases htarget
    | long n =>
      cases target with
      | double => exact ⟨rfl, _, rfl, .inr rfl⟩
      | long => exact absurd rfl hty
      | bool => cases hassign
      | char => cases hassign
      | int => cases hassign
      | _ => cases htarget
    | _ => cases target <;> first | exact absurd rfl hty | contradiction
  exact ⟨hconverted.1, fun heq => absurd heq hty, fun _ => hconverted.2⟩

end Value

/-! ## What is handed over -/

theorem Candidate.arity_ofDeclaration {d : Declaration} (hwell : d.isWellFormed) (owner : Ty) (index : Nat)
    (key : LookupKey) : (ofDeclaration owner index key d).arity = d.arity key.bindReceiver := by
  have hfixed : (if d.isVariadic then d.params.dropLast else d.params).length =
      d.params.length - d.restMarkers := by
    simp only [Declaration.isWellFormed, Bool.and_eq_true, decide_eq_true_eq] at hwell
    obtain ⟨hends, hcount⟩ := hwell
    rw [← hends]
    cases hlast : d.endsInRest with
    | false =>
      rw [hlast, Bool.toNat_false] at hcount
      simp only [Bool.false_eq_true, if_false]
      omega
    | true =>
      -- the marker at the end is the only one
      have hmem : .rest ∈ d.params := List.mem_of_getLast? (of_decide_eq_true hlast)
      have hpos : 0 < d.restMarkers := List.count_pos_iff.2 hmem
      rw [hlast, Bool.toNat_true] at hcount
      rw [if_pos rfl, List.length_dropLast]
      omega
  unfold arity ofDeclaration Declaration.arity
  cases d.takesReceiver key.bindReceiver with
  | false => exact hfixed
  | true => exact congrArg (· + 1) hfixed

namespace Candidate

variable {h : Hierarchy} {c : Candidate} {args : List Value}

/-- What the member of a candidate gets for arguments: one value for each parameter, which is the argument
itself, or where the parameter is primitive the argument converted to it; and after these, if the candidate
is variadic, the list of all arguments that are left. -/
structure IsPassed (c : Candidate) (args passed : List Value) : Prop where
  length_eq : passed.length = c.arity + c.isVariadic.toNat
  fixed : ∀ n < c.arity, ∃ target v w, c.params[n]? = some target ∧ args[n]? = some v ∧
    passed[n]? = some w ∧ (target.isPrimitive = false → w = v) ∧ (target.isPrimitive → v.Converts target w)
  rest : c.isVariadic → passed[c.arity]? = some (.list (args.drop c.arity))

/-- **A member gets the arguments that its candidate accepts by the convention.** -/
theorem isPassed_callArguments (haccepts : c.accepts h (args.map Value.ty)) :
    c.IsPassed args (c.callArguments args) := by
  obtain ⟨hle, hfits⟩ := fitsPrefix_iff.1 (Bool.and_eq_true_iff.1 haccepts).2
  rw [List.length_map] at hle
  have hlength : (List.zipWith Value.widenTo c.params args).length = c.arity := by
    rw [List.length_zipWith]
    exact Nat.min_eq_left hle
  refine ⟨?_, fun n hn => ?_, fun hvariadic => ?_⟩
  · unfold callArguments
    rw [List.length_append, hlength]
    cases c.isVariadic <;> rfl
  · have htarget : c.params[n]? = some c.params[n] := List.getElem?_eq_getElem hn
    have harg : args[n]? = some args[n] := List.getElem?_eq_getElem (hn.trans_le hle)
    have hassign := hfits n args[n].ty c.params[n] (by rw [List.getElem?_map, harg]; rfl) htarget
    refine ⟨c.params[n], args[n], args[n].widenTo c.params[n], htarget, harg, ?_,
      Value.widenTo_of_not_isPrimitive, fun hprimitive => Value.converts_widenTo hprimitive hassign⟩
    unfold callArguments
    rw [List.getElem?_append_left (hlength.symm ▸ hn), List.getElem?_zipWith, htarget, harg]
  · unfold callArguments
    rw [List.getElem?_append_right hlength.le, hlength, Nat.sub_self, if_pos hvariadic]
    rfl

end Candidate

namespace Task

/-- **Calls follow the convention.** Take the candidate that any lookup makes of a well-formed member. It has
the arity that the member declares, the receiver counted if it is an argument. If it does not accept the
arguments, the call is rejected and nothing runs. If it accepts them, a native runs on what the convention
makes of the arguments and on nothing else, and a constant is given as it is. -/
theorem calls_by_convention (recur : Task → EvalM Value) {i : Interpreter} {owner : Ty} {index : Nat}
    {m : Member} (hmember : i.engine.provider.registry.member? owner index = some m)
    (hwell : m.isWellFormed) (key : LookupKey) (args : List Value) :
    let c := Candidate.ofDeclaration owner index key m.toDeclaration
    c.arity = m.arity key.bindReceiver ∧
    (c.accepts i.engine.hierarchy (args.map Value.ty) = false →
      (callCandidate recur c args).runFrom i = some (.error (rejection c.name args), i)) ∧
    (c.accepts i.engine.hierarchy (args.map Value.ty) = true →
      ∃ passed, c.IsPassed args passed ∧
        (callCandidate recur c args).runFrom i =
          match m.body with
          | .native run => (runAction recur (run passed)).runFrom i
          | .constant value => some (.ok value, i)) := by
  intro c
  refine ⟨Candidate.arity_ofDeclaration hwell owner index key, fun hrejects => ?_, fun haccepts => ?_⟩
  · exact callCandidate_of_not_accepts recur (ne_true_of_eq_false hrejects)
  · refine ⟨c.callArguments args, Candidate.isPassed_callArguments haccepts, ?_⟩
    rw [callCandidate_of_accepts recur haccepts]
    unfold runMember
    rw [EvalM.runFrom_get_bind, show i.engine.provider.registry.member? c.owner c.index = some m from hmember]
    obtain ⟨d, body⟩ := m
    cases body <;> rfl

/-- A method with an explicit receiver gets a character as an integer and an integer as a long, and the last
two arguments as a list. It does not run on a receiver alone. -/
theorem calls_by_convention_of_method :
    let m : Member :=
      { key := "f", kind := .method, params := [.int, .long, .any, .rest], ret := .list, isVariadic := true,
        isStatic := false, body := .native fun passed => .give (.list passed) }
    let registry : Registry := { hierarchy := ⟨[⟨"Box", []⟩]⟩, members := [(.host 0, [m])] }
    let i : Interpreter := { engine := .new { registry } {} }
    let key : LookupKey := { key := "f", kind := .method, origin := .any, bindReceiver := false, pin := none }
    let c := Candidate.ofDeclaration (.host 0) 0 key m.toDeclaration
    let receiver : Value := .host { ty := 0, typeName := "Box", label := .given "b" }
    let args : List Value := [receiver, .char 'A', .int 7, .text "t", .null, .bool true]
    let passed : List Value := [receiver, .int 65, .long 7, .text "t", .list [.null, .bool true]]
    ∀ recur, c.arity = 4 ∧ c.IsPassed args passed ∧
      (callCandidate recur c args).runFrom i = some (.ok (.list passed), i) ∧
      (callCandidate recur c [receiver]).runFrom i = some (.error (rejection c.name [receiver]), i) := by
  intro m registry i key c receiver args passed recur
  have hmember : i.engine.provider.registry.member? (.host 0) 0 = some m := rfl
  obtain ⟨harity, _, haccepted⟩ := calls_by_convention recur hmember rfl key args
  obtain ⟨_, hrejected, _⟩ := calls_by_convention recur hmember rfl key [receiver]
  obtain ⟨passed', hpassed, hrun⟩ := haccepted (by decide +kernel)
  have hlist : (callCandidate recur c args).runFrom i = some (.ok (.list passed), i) := rfl
  -- the native gives back what it got
  have heq : passed' = passed := by
    have hsame : some (Except.ok (ε := RuntimeError) (Value.list passed'), i) = some (.ok (.list passed), i) :=
      hrun.symm.trans hlist
    injection hsame with hsame
    injection hsame with hsame
    injection hsame with hsame
    injection hsame
  exact ⟨harity, heq ▸ hpassed, hlist, hrejected (by decide +kernel)⟩

end Task

end Multimethod
