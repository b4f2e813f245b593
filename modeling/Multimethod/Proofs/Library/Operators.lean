import Multimethod.Library.Root
import Multimethod.Proofs.Eval.CallingConvention

/-!
# What arithmetic computes

The procedures of arithmetic compute at one of three widths. Whole numbers are computed exactly and then
wrapped to the width; doubles are computed as such. Each procedure has a member for each width, and one that
gets its arguments in the representation of its width computes just this.

* `Operator.outcome` — what a call of the procedure comes to, told from the arguments alone.
* `Operator.error_of_outcome` — where arithmetic fails.
* `Form.member`, `Library.getElem?_members` — the members of arithmetic and their places in the library.
* `Form.run_callArguments` — the native of a width computes at that width, on arguments converted to it.
-/

namespace Multimethod.Library

/-! ## Widths -/

/-- The kinds of numbers that arithmetic computes with, narrowest first. -/
inductive Width where
  | int
  | long
  | double
  deriving DecidableEq, Repr

namespace Width

def ty : Width → Ty
  | int => .int
  | long => .long
  | double => .double

def place : Width → Nat
  | int => 0
  | long => 1
  | double => 2

/-- All widths, narrowest first. -/
def all : List Width := [int, long, double]

def wider (v w : Width) : Width := if v.place ≤ w.place then w else v

/-- A whole number in the representation of a width: wrapped around, or as the nearest double. -/
def wrap : Width → Int → Value
  | int, n => .int (Int32.ofInt n)
  | long, n => .long (Int64.ofInt n)
  | double, n => .double (Decimal.doubleOfInt n)

end Width

/-- The narrowest width that holds the number or the character; other values have none. -/
def width? : Value → Option Width
  | .char _ | .int _ => some .int
  | .long _ => some .long
  | .double _ => some .double
  | _ => none

/-- The whole number that a value stands for. -/
def whole (v : Value) : Int := v.integer?.getD 0

/-- The double that a value stands for. -/
def real : Value → Float
  | .double x => x
  | v => Decimal.doubleOfInt (whole v)

/-! ## Operators -/

/-- The procedures of arithmetic. -/
inductive Operator where
  | plus
  | minus
  | times
  | divide
  deriving DecidableEq, Repr

namespace Operator

def name : Operator → String
  | plus => "+"
  | minus => "-"
  | times => "*"
  | divide => "/"

/-- The exact result on whole numbers. Quotients are cut off toward zero, and there is none by zero. -/
def exact : Operator → Int → Int → Option Int
  | plus, m, n => some (m + n)
  | minus, m, n => some (m - n)
  | times, m, n => some (m * n)
  | divide, m, n => if n = 0 then none else some (m.tdiv n)

/-- The operation on numbers of some width, none by zero division. -/
def wrapping {α : Type} [Add α] [Sub α] [Mul α] [Div α] [OfNat α 0] [DecidableEq α] :
    Operator → α → α → Option α
  | plus => fun m n => some (m + n)
  | minus => fun m n => some (m - n)
  | times => fun m n => some (m * n)
  | divide => fun m n => if n = 0 then none else some (m / n)

def floating : Operator → Float → Float → Float
  | plus => fun a b => a + b
  | minus => fun a b => a - b
  | times => fun a b => a * b
  | divide => fun a b => a / b

def zeroDivision (op : Operator) : RuntimeError := .message (op.name ++ ": division by zero")

/-- What the operator computes at a width. -/
def compute (op : Operator) : Width → Value → Value → Except RuntimeError Value
  | .double, a, b => .ok (.double (op.floating (real a) (real b)))
  | w, a, b =>
    match op.exact (whole a) (whole b) with
    | some n => .ok (w.wrap n)
    | none => .error op.zeroDivision

end Operator

/-- The negative of a number, computed at a width. -/
def negative : Width → Value → Value
  | .double, a => .double (-(real a))
  | w, a => w.wrap (-(whole a))

/-- **What a call of the procedure comes to**: two numbers are computed with at the widest of their widths,
and `-` takes a single number as well. No other arguments are taken. -/
def Operator.outcome (op : Operator) (args : List Value) : Except RuntimeError Value :=
  match args with
  | [a, b] =>
    match width? a, width? b with
    | some v, some w => op.compute (v.wider w) a b
    | _, _ => .error (Task.rejection op.name args)
  | [a] =>
    match op, width? a with
    | .minus, some w => .ok (negative w a)
    | _, _ => .error (Task.rejection op.name args)
  | _ => .error (Task.rejection op.name args)

/-- Whole numbers wrap around: the least one divided by -1 is itself. -/
example : Operator.divide.outcome [.int (-2147483648), .int (-1)] = .ok (.int (-2147483648)) := rfl

/-- A computation fails in a division of whole numbers by zero only. -/
theorem Operator.compute_eq_error {op : Operator} {w : Width} {a b : Value} {err : RuntimeError}
    (herr : op.compute w a b = .error err) :
    op = .divide ∧ err = .message "/: division by zero" ∧ w ≠ .double ∧ whole b = 0 := by
  cases w with
  | double => cases herr
  | int | long =>
    cases op with
    | divide =>
      simp only [Operator.compute, Operator.exact] at herr
      by_cases hzero : whole b = 0
      · rw [if_pos hzero] at herr
        cases herr
        exact ⟨rfl, rfl, Width.noConfusion, hzero⟩
      · rw [if_neg hzero] at herr
        cases herr
    | plus | minus | times => cases herr

/-- **Arithmetic fails on arguments that it does not take and in a division of whole numbers by zero,** and nowhere
else. -/
theorem Operator.error_of_outcome {op : Operator} {args : List Value} {err : RuntimeError}
    (herr : op.outcome args = .error err) :
    err = Task.rejection op.name args ∨
      op = .divide ∧ err = .message "/: division by zero" ∧ ∃ a b, args = [a, b] ∧ b.integer? = some 0 := by
  match args with
  | [] | _ :: _ :: _ :: _ =>
    cases herr
    exact .inl rfl
  | [a] =>
    dsimp only [Operator.outcome] at herr
    split at herr
    · cases herr
    · cases herr
      exact .inl rfl
  | [a, b] =>
    dsimp only [Operator.outcome] at herr
    split at herr
    · rename_i v w ha hb
      obtain ⟨hop, herr, hwhole, hzero⟩ := Operator.compute_eq_error herr
      refine .inr ⟨hop, herr, a, b, rfl, ?_⟩
      -- a width that is not Double is that of a whole number
      cases b with
      | char c => exact congrArg some hzero
      | int n => exact congrArg some hzero
      | long n => exact congrArg some hzero
      | double x =>
        cases hb
        cases v <;> exact absurd rfl hwhole
      | _ => cases hb
    · cases herr
      exact .inl rfl

/-! ## Members -/

/-- The ways of calling the procedures of arithmetic. -/
inductive Form where
  | binary (op : Operator)
  | negation
  deriving DecidableEq, Repr

def Operator.forms : Operator → List Form
  | .minus => [.binary .minus, .negation]
  | op => [.binary op]

namespace Form

def name : Form → String
  | binary op => op.name
  | negation => "-"

def arity : Form → Nat
  | binary _ => 2
  | negation => 1

def member : Form → Width → Member
  | binary op, .int => intOp op.name op.wrapping
  | binary op, .long => longOp op.name op.wrapping
  | binary op, .double => doubleOp op.name op.floating
  | negation, .int => negateInt
  | negation, .long => negateLong
  | negation, .double => negateDouble

/-- The place of the member for the narrowest width among the members of the library. -/
def place : Form → Nat
  | binary .plus => 7
  | binary .minus => 10
  | binary .times => 13
  | binary .divide => 16
  | negation => 19

/-- What the form computes at a width. -/
def compute : Form → Width → List Value → Except RuntimeError Value
  | binary op, w, [a, b] => op.compute w a b
  | negation, w, [a] => .ok (negative w a)
  | f, _, args => .error (Task.rejection f.name args)

theorem params_member (f : Form) (w : Width) : (f.member w).params = List.replicate f.arity w.ty := by
  cases f <;> cases w <;> rfl

theorem key_member (f : Form) (w : Width) : (f.member w).key = Name.mangle f.name := by
  cases f <;> cases w <;> rfl

end Form

theorem Operator.name_of_mem_forms (op : Operator) : ∀ f ∈ op.forms, f.name = op.name := by
  cases op <;> decide

theorem getElem?_members (f : Form) (w : Width) : members[f.place + w.place]? = some (f.member w) := by
  cases f with
  | binary op => cases op <;> cases w <;> rfl
  | negation => cases w <;> rfl

/-! ## Arguments in the representation of a width -/

/-- Is the value a number or a character that the width holds? -/
def Width.holds (w : Width) (v : Value) : Bool := (width? v).any (·.place ≤ w.place)

section

variable {v : Value}

theorem widenTo_int (h : Width.int.holds v) : ∃ m : Int32, v.widenTo .int = .int m ∧ whole v = m.toInt := by
  cases v with
  | char c => exact ⟨_, rfl, (Value.toInt_code c).1.symm⟩
  | int n => exact ⟨n, rfl, rfl⟩
  | _ => cases h

theorem widenTo_long (h : Width.long.holds v) : ∃ m : Int64, v.widenTo .long = .long m ∧ whole v = m.toInt := by
  cases v with
  | char c => exact ⟨_, rfl, (Value.toInt_code c).2.symm⟩
  | int n => exact ⟨_, rfl, n.toInt_toInt64.symm⟩
  | long n => exact ⟨n, rfl, rfl⟩
  | _ => cases h

theorem widenTo_double (h : Width.double.holds v) : v.widenTo .double = .double (real v) := by
  cases v with
  | char c => rfl
  | int n => rfl
  | long n => rfl
  | double x => rfl
  | _ => cases h

end

/-! ## Wrapping -/

/-- Operations on numbers are the exact ones on whole numbers, wrapped around. -/
structure Wraps {α : Type} [Add α] [Sub α] [Mul α] [Div α] [Neg α] [OfNat α 0] (ofInt : Int → α)
    (toInt : α → Int) : Prop where
  add : ∀ m n, m + n = ofInt (toInt m + toInt n)
  sub : ∀ m n, m - n = ofInt (toInt m - toInt n)
  mul : ∀ m n, m * n = ofInt (toInt m * toInt n)
  div : ∀ m n, m / n = ofInt ((toInt m).tdiv (toInt n))
  neg : ∀ n, -n = ofInt (-toInt n)
  zero : ∀ n, toInt n = 0 ↔ n = 0

theorem wraps_int32 : Wraps Int32.ofInt Int32.toInt where
  add m n := by rw [Int32.ofInt_add, Int32.ofInt_toInt, Int32.ofInt_toInt]
  sub m n := by rw [Int32.ofInt_sub, Int32.ofInt_toInt, Int32.ofInt_toInt]
  mul m n := by rw [Int32.ofInt_mul, Int32.ofInt_toInt, Int32.ofInt_toInt]
  div m n := by
    apply Int32.toInt_inj.1
    rw [Int32.toInt_ofInt, Int32.toInt_div]
  neg n := by rw [Int32.ofInt_neg, Int32.ofInt_toInt]
  zero n := Int32.toInt_inj (y := 0)

theorem wraps_int64 : Wraps Int64.ofInt Int64.toInt where
  add m n := by rw [Int64.ofInt_add, Int64.ofInt_toInt, Int64.ofInt_toInt]
  sub m n := by rw [Int64.ofInt_sub, Int64.ofInt_toInt, Int64.ofInt_toInt]
  mul m n := by rw [Int64.ofInt_mul, Int64.ofInt_toInt, Int64.ofInt_toInt]
  div m n := by
    apply Int64.toInt_inj.1
    rw [Int64.toInt_ofInt, Int64.toInt_div]
  neg n := by rw [Int64.ofInt_neg, Int64.ofInt_toInt]
  zero n := Int64.toInt_inj (y := 0)

/-- On numbers that wrap around, an operator is the exact one, wrapped. -/
theorem Wraps.wrapping_eq {α : Type} [Add α] [Sub α] [Mul α] [Div α] [Neg α] [OfNat α 0] [DecidableEq α]
    {ofInt : Int → α} {toInt : α → Int} (h : Wraps ofInt toInt) (op : Operator) (m n : α) :
    op.wrapping m n = (op.exact (toInt m) (toInt n)).map ofInt := by
  cases op with
  | plus => exact congrArg some (h.add m n)
  | minus => exact congrArg some (h.sub m n)
  | times => exact congrArg some (h.mul m n)
  | divide =>
    show (if n = 0 then none else some (m / n)) =
      (if toInt n = 0 then none else some ((toInt m).tdiv (toInt n))).map ofInt
    by_cases hn : n = 0
    · rw [if_pos hn, if_pos ((h.zero n).2 hn), Option.map_none]
    · rw [if_neg hn, if_neg (mt (h.zero n).1 hn), Option.map_some, h.div]

/-! ## Natives -/

/-- A candidate hands its arguments over in the representation of the width that all its parameters have. -/
theorem callArguments_eq_map {c : Candidate} {args : List Value} {t : Ty}
    (hparams : c.params = List.replicate args.length t) (hvariadic : c.isVariadic = false) :
    c.callArguments args = args.map (Value.widenTo t) := by
  have hzip : List.zipWith Value.widenTo (List.replicate args.length t) args = args.map (Value.widenTo t) := by
    rw [← List.map_const', List.zipWith_map_left, List.zipWith_self]
  unfold Candidate.callArguments
  rw [hparams, hvariadic, if_neg Bool.false_ne_true, List.append_nil, hzip]

variable {a b : Value}

theorem run_intOp (op : Operator) (ha : Width.int.holds a) (hb : Width.int.holds b) :
    ∃ run, (intOp op.name op.wrapping).body = .native run ∧
      run [a.widenTo .int, b.widenTo .int] = .done (op.compute .int a b) := by
  obtain ⟨m, hm, hwhole⟩ := widenTo_int ha
  obtain ⟨n, hn, hwhole'⟩ := widenTo_int hb
  refine ⟨_, rfl, ?_⟩
  rw [hm, hn]
  dsimp only [binary]
  rw [wraps_int32.wrapping_eq, Operator.compute, hwhole, hwhole']
  · cases op.exact m.toInt n.toInt <;> rfl
  · exact Width.noConfusion

theorem run_longOp (op : Operator) (ha : Width.long.holds a) (hb : Width.long.holds b) :
    ∃ run, (longOp op.name op.wrapping).body = .native run ∧
      run [a.widenTo .long, b.widenTo .long] = .done (op.compute .long a b) := by
  obtain ⟨m, hm, hwhole⟩ := widenTo_long ha
  obtain ⟨n, hn, hwhole'⟩ := widenTo_long hb
  refine ⟨_, rfl, ?_⟩
  rw [hm, hn]
  dsimp only [binary]
  rw [wraps_int64.wrapping_eq, Operator.compute, hwhole, hwhole']
  · cases op.exact m.toInt n.toInt <;> rfl
  · exact Width.noConfusion

theorem run_doubleOp (op : Operator) (ha : Width.double.holds a) (hb : Width.double.holds b) :
    ∃ run, (doubleOp op.name op.floating).body = .native run ∧
      run [a.widenTo .double, b.widenTo .double] = .done (op.compute .double a b) := by
  refine ⟨_, rfl, ?_⟩
  rw [widenTo_double ha, widenTo_double hb]
  rfl

theorem run_negation (w : Width) (ha : w.holds a) :
    ∃ run, (Form.negation.member w).body = .native run ∧
      run [a.widenTo w.ty] = .done (.ok (negative w a)) := by
  cases w with
  | int =>
    obtain ⟨n, hn, hwhole⟩ := widenTo_int ha
    refine ⟨_, rfl, ?_⟩
    rw [Width.ty, hn]
    show Action.give (.int (-n)) = .done (.ok (.int (Int32.ofInt (-whole a))))
    rw [wraps_int32.neg, hwhole]
    rfl
  | long =>
    obtain ⟨n, hn, hwhole⟩ := widenTo_long ha
    refine ⟨_, rfl, ?_⟩
    rw [Width.ty, hn]
    show Action.give (.long (-n)) = .done (.ok (.long (Int64.ofInt (-whole a))))
    rw [wraps_int64.neg, hwhole]
    rfl
  | double =>
    refine ⟨_, rfl, ?_⟩
    rw [Width.ty, widenTo_double ha]
    rfl

/-- **The member for a width computes at that width,** on arguments converted to it. -/
theorem Form.run_callArguments (f : Form) (w : Width) {args : List Value} (hlength : args.length = f.arity)
    (hholds : ∀ v ∈ args, w.holds v) {c : Candidate} (hparams : c.params = (f.member w).params)
    (hvariadic : c.isVariadic = false) :
    ∃ run, (f.member w).body = .native run ∧ run (c.callArguments args) = .done (f.compute w args) := by
  rw [params_member, ← hlength] at hparams
  rw [callArguments_eq_map hparams hvariadic]
  cases f with
  | binary op =>
    obtain ⟨a, b, rfl⟩ := List.length_eq_two.1 hlength
    have ha := hholds a (by simp)
    have hb := hholds b (by simp)
    cases w with
    | int => exact run_intOp op ha hb
    | long => exact run_longOp op ha hb
    | double => exact run_doubleOp op ha hb
  | negation =>
    obtain ⟨a, rfl⟩ := List.length_eq_one_iff.1 hlength
    exact run_negation w (hholds a (by simp))

end Multimethod.Library
