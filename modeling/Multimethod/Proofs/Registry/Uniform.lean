import Multimethod.Proofs.Value.Alike
import Multimethod.Registry.Basic
import Multimethod.Registry.Stock

/-!
# Uniform natives

A native is uniform if of arguments alike it makes requests alike, going on alike after answers
alike, and ends with results alike. Such a native reaches the interpreter by what it asks of it and by
nothing else: it may hold tables, pass them on, compare and print them, but it does not look into
them, nor at the name under which a call was rejected.

* `Action.Alike` — runs of natives that make requests alike.
* `Stock.isUniform` — the stock natives are uniform.
-/

namespace Multimethod

section

variable (h : Hierarchy)

/-- Requests for the same with values alike. -/
inductive Request.Alike : Request → Request → Prop
  | refl (request : Request) : Alike request request
  | eval {v w : Value} (hvw : v.Alike h w) : Alike (.eval v) (.eval w)
  | apply {v w : Value} {xs ys : List Value} (hvw : v.Alike h w) (hxys : Value.AlikeAll h xs ys) :
    Alike (.apply v xs) (.apply w ys)
  | bind (name : String) {v w : Value} (hvw : v.Alike h w) : Alike (.bind name v) (.bind name w)
  | bindDefault (name : String) {v w : Value} (hvw : v.Alike h w) :
    Alike (.bindDefault name v) (.bindDefault name w)
  | make (t : Ty) {xs ys : List Value} (hxys : Value.AlikeAll h xs ys) :
    Alike (.make t xs) (.make t ys)
  | cell {v w : Value} (hvw : v.Alike h w) (place : Nat) : Alike (.cell v place) (.cell w place)
  | setCell {v w x y : Value} (hvw : v.Alike h w) (place : Nat) (hxy : x.Alike h y) :
    Alike (.setCell v place x) (.setCell w place y)

/-- Results of a native alike. -/
abbrev Outcome.Alike : Except RuntimeError Value → Except RuntimeError Value → Prop :=
  ResultsAlike (RuntimeError.Alike h) (Value.Alike h)

/-- Runs of natives that make requests alike, after answers alike, and end with results alike. -/
inductive Action.Alike : Action → Action → Prop
  | done {result result' : Except RuntimeError Value} (hresults : Outcome.Alike h result result') :
    Alike (.done result) (.done result')
  | request {request request' : Request} {next next' : Except RuntimeError Value → Action}
    (hrequests : request.Alike h request')
    (hnext : ∀ answer answer', Outcome.Alike h answer answer' → Alike (next answer) (next' answer')) :
    Alike (.request request next) (.request request' next')

/-- Of arguments alike the native makes runs alike. -/
def Native.IsUniform (run : Native) : Prop :=
  ∀ args args', Value.AlikeAll h args args' → (run args).Alike h (run args')

def Member.IsUniform (m : Member) : Prop := ∀ run, m.body = .native run → Native.IsUniform h run

end

def Registry.IsUniform (r : Registry) : Prop :=
  ∀ t, ∀ m ∈ r.membersOf t, m.IsUniform r.hierarchy

variable {h : Hierarchy}

namespace Action.Alike

theorem give {v w : Value} (hvw : v.Alike h w) : (Action.give v).Alike h (.give w) :=
  .done (.ok hvw)

theorem fail (e : RuntimeError) : (Action.fail e).Alike h (.fail e) := .done (.error (.refl e))

theorem ask {request request' : Request} (hrequests : request.Alike h request') :
    (Action.ask request).Alike h (.ask request') :=
  .request hrequests fun _ _ hanswers => .done hanswers

end Action.Alike

theorem Value.AlikeAll.headD {xs ys : List Value} (hitems : AlikeAll h xs ys) (v : Value) :
    Alike h (xs.headD v) (ys.headD v) := by
  cases hitems with
  | nil => exact .refl v
  | cons hx _ => exact hx

theorem Value.AlikeAll.tail {xs ys : List Value} (hitems : AlikeAll h xs ys) :
    AlikeAll h xs.tail ys.tail := by
  cases hitems with
  | nil => exact .nil
  | cons _ hrest => exact hrest

theorem Stock.isUniform (owner : Ty) (s : Stock) : Native.IsUniform h (s.native owner) := by
  intro args args' hargs
  cases s with
  | tag text => exact .give (.list (.cons (.refl _) hargs))
  | first => exact .give (hargs.headD .null)
  | value v => exact .give (.refl v)
  | fail message => exact .fail _
  | evaluate source => exact .ask (.refl _)
  | apply => exact .ask (.apply (hargs.headD .null) hargs.tail)
  | make => exact .ask (.make owner hargs)
  | cell place => exact .ask (.cell (hargs.headD .null) place)
  | setCell place => exact .ask (.setCell (hargs.headD .null) place (hargs.getD 1 (.refl _)))

end Multimethod
