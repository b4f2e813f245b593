import Multimethod.Engine.Resolution
import Multimethod.Proofs.Lattice.Paths

/-!
# Lookups by plain recursion

What a lookup finds on a type, said on the registry alone: a recursion on the supertypes that keeps
nothing between two lookups. Where every path of supertypes is finite, it is what discovery finds.

* `Registry.lookUp` — the recursion; `lookUp_eq` is one step of it.
* `foldl_addTo` — adding candidates one by one keeps the first of each signature.
* `OwnMembers.scan_constant`, `OwnMembers.scan_none` — going through the members of a type once
  finds what the recursion asks of them.
* `OwnMembers.combine_scan` — the members of a type and the answers of its supertypes make the answer
  of the recursion.
-/

namespace Multimethod

/-! ## The recursion -/

/-- Of each signature the first candidate. -/
def Candidate.firstOfEach : List Candidate → List Candidate
  | [] => []
  | c :: rest => c :: (firstOfEach rest).filter fun d => !c.sameSignature d

namespace Lookup

def candidates : Lookup → List Candidate
  | .found candidates => candidates
  | _ => []

def constant? : Lookup → Option Value
  | .constant value => some value
  | _ => none

/-- The value that a lookup on the type `t` gives to a reference written `surface`. -/
def value? (h : Hierarchy) (config : EngineConfig) (surface : String) (t : Ty) (pin : Option Nat) :
    Lookup → Option Value
  | .notFound => none
  | .constant value => some value
  | .found candidates =>
    (Callable.ofCandidates? h surface t config.guardChainLimit config.variadicLookahead pin
      candidates).map .procedure

end Lookup

namespace LookupKey

variable (key : LookupKey)

/-- The first static constant among the members that answer the lookup. -/
def constantAmong (members : List Member) : Option Value :=
  (members.filter key.admits).findSome? Member.staticConstant?

/-- The well-formed members that answer the lookup and that the pin leaves in, as candidates. -/
def candidatesAmong (t : Ty) (placed : List (Member × Nat)) : List Candidate :=
  ((placed.filter fun (m, _) => key.admits m && m.isWellFormed).map fun (m, index) =>
    Candidate.ofDeclaration t index key m.toDeclaration).filter (·.admittedBy key.pin)

/-- The arities of the malformed members that answer the lookup and that the pin leaves in. -/
def malformedArities (members : List Member) : List Nat :=
  ((members.filter fun m => key.admits m && !m.isWellFormed).map (·.arity key.bindReceiver)).filter
    fun arity => key.pin.all (· = arity)

end LookupKey

namespace Registry

variable (r : Registry) (key : LookupKey)

/-- What a lookup finds on a type that declares no constant for it, from what it finds on the direct
supertypes. -/
def combine (t : Ty) (members : List Member) (inherited : List Lookup) :
    Except DispatchError Lookup :=
  let kept := Candidate.firstOfEach
    (key.candidatesAmong t members.zipIdx ++ inherited.flatMap Lookup.candidates)
  match (key.malformedArities members).find? fun arity => !kept.any (·.arity = arity) with
  | some arity => .error (.inconsistentVariadic (r.hierarchy.typeName t) key.key arity)
  | none =>
    if kept.isEmpty then .ok ((inherited.findSome? Lookup.constant?).elim .notFound .constant)
    else .ok (.found kept)

/-- What a lookup finds on a type, from the results on the direct supertypes. -/
def lookUpFrom (t : Ty) (above : List (Except DispatchError Lookup)) :
    Except DispatchError Lookup :=
  match r.list t with
  | .error failure => .error (.listing (r.hierarchy.typeName t) failure)
  | .ok members =>
    match key.constantAmong members with
    | some value => .ok (.constant value)
    | none => do r.combine key t members (← above.mapM id)

/-- What a lookup finds on a type. -/
def lookUp (hw : WellFounded r.hierarchy.Above) (t : Ty) : Except DispatchError Lookup :=
  r.lookUpFrom key t ((r.hierarchy.supertypes t).attach.map fun s => lookUp hw s.val)
termination_by hw.wrap t
decreasing_by exact s.property

variable {r key}

theorem lookUp_eq (hw : WellFounded r.hierarchy.Above) (t : Ty) :
    r.lookUp key hw t = r.lookUpFrom key t ((r.hierarchy.supertypes t).map (r.lookUp key hw)) := by
  rw [lookUp, List.attach_map_val (f := r.lookUp key hw)]

end Registry

/-! ## Candidates of distinct signatures -/

namespace Candidate

theorem sameSignature_iff {c d : Candidate} :
    c.sameSignature d ↔ c.isVariadic = d.isVariadic ∧ c.params = d.params := by
  simp [sameSignature]

theorem foldl_addTo (cs found : List Candidate) :
    cs.foldl addTo found =
      found ++ (firstOfEach cs).filter fun c => !found.any (·.sameSignature c) := by
  induction cs generalizing found with
  | nil => simp [firstOfEach]
  | cons c rest ih =>
    rw [List.foldl_cons, ih, firstOfEach, addTo]
    by_cases hc : found.any (·.sameSignature c)
    · -- what has the signature of `c` was found before
      rw [if_pos hc, List.filter_cons_of_neg (by simp [hc]), List.filter_filter]
      congr 1
      refine List.filter_congr fun d _ => ?_
      cases hd : c.sameSignature d with
      | false => simp
      | true =>
        obtain ⟨f, hf, hfc⟩ := List.any_eq_true.1 hc
        obtain ⟨hv, hp⟩ := sameSignature_iff.1 hfc
        obtain ⟨hv', hp'⟩ := sameSignature_iff.1 hd
        have hfd : f.sameSignature d := sameSignature_iff.2 ⟨hv.trans hv', hp.trans hp'⟩
        have : found.any (·.sameSignature d) = true := List.any_eq_true.2 ⟨f, hf, hfd⟩
        simp [this]
    · rw [if_neg hc, List.filter_cons_of_pos (by simpa using hc), List.filter_filter,
        List.append_assoc, List.singleton_append]
      congr 2
      refine List.filter_congr fun d _ => ?_
      simp only [List.any_append, List.any_cons, List.any_nil, Bool.or_false, Bool.not_or]

theorem foldl_addTo_nil (cs : List Candidate) : cs.foldl addTo [] = firstOfEach cs := by
  rw [foldl_addTo, List.nil_append]
  exact List.filter_eq_self.2 fun c _ => by simp

end Candidate

/-! ## The members of one type -/

namespace OwnMembers

variable {key : LookupKey} {t : Ty}

theorem scan_constant {value : Value} :
    ∀ (members : List Member) (index : Nat) (own : OwnMembers),
      key.constantAmong members = some value → (scan t key index members own).constant = some value
  | [], _, _, h => by cases h
  | m :: rest, index, own, h => by
    unfold LookupKey.constantAmong at h
    unfold scan
    by_cases hadmits : key.admits m
    · rw [List.filter_cons_of_pos hadmits, List.findSome?_cons] at h
      rw [if_pos hadmits]
      cases hconstant : m.staticConstant? with
      | some v =>
        rw [hconstant] at h
        exact h
      | none =>
        rw [hconstant] at h
        exact scan_constant rest _ _ h
    · rw [List.filter_cons_of_neg hadmits] at h
      rw [if_neg hadmits]
      exact scan_constant rest _ _ h

theorem key_of_admits {m : Member} (hadmits : key.admits m) : m.key = key.key := by
  simp only [LookupKey.admits, Bool.and_eq_true, decide_eq_true_eq] at hadmits
  exact hadmits.1.1

theorem add_eq (own : OwnMembers) (index : Nat) {m : Member} (hadmits : key.admits m) :
    own.add t index key m.toDeclaration =
      { own with
        candidates := (key.candidatesAmong t [(m, index)]).foldl Candidate.addTo own.candidates
        malformed := own.malformed ++ (key.malformedArities [m]).map (⟨key.key, ·⟩) } := by
  have hkey : m.key = key.key := key_of_admits hadmits
  unfold add
  cases hwell : m.isWellFormed with
  | true =>
    rw [if_pos rfl]
    by_cases hpin : (Candidate.ofDeclaration t index key m.toDeclaration).admittedBy key.pin
    · simp [LookupKey.candidatesAmong, LookupKey.malformedArities, hadmits, hwell, hpin]
    · simp [LookupKey.candidatesAmong, LookupKey.malformedArities, hadmits, hwell, hpin]
  | false =>
    rw [if_neg (by simp)]
    by_cases hpin : key.pin.all (· = m.arity key.bindReceiver)
    · simp [LookupKey.candidatesAmong, LookupKey.malformedArities, hadmits, hwell, hpin, hkey]
    · simp [LookupKey.candidatesAmong, LookupKey.malformedArities, hadmits, hwell, hpin]

theorem scan_none :
    ∀ (members : List Member) (index : Nat) (own : OwnMembers), key.constantAmong members = none →
      scan t key index members own =
        { own with
          candidates :=
            (key.candidatesAmong t (members.zipIdx index)).foldl Candidate.addTo own.candidates
          malformed := own.malformed ++ (key.malformedArities members).map (⟨key.key, ·⟩) }
  | [], _, own, _ => by simp [scan, LookupKey.candidatesAmong, LookupKey.malformedArities]
  | m :: rest, index, own, h => by
    unfold LookupKey.constantAmong at h
    unfold scan
    by_cases hadmits : key.admits m
    · rw [List.filter_cons_of_pos hadmits, List.findSome?_cons] at h
      rw [if_pos hadmits]
      cases hconstant : m.staticConstant? with
      | some v => rw [hconstant] at h; cases h
      | none =>
        rw [hconstant] at h
        have hcandidates : key.candidatesAmong t ((m :: rest).zipIdx index) =
            key.candidatesAmong t [(m, index)] ++ key.candidatesAmong t (rest.zipIdx (index + 1)) := by
          rw [List.zipIdx_cons, ← List.singleton_append]
          simp only [LookupKey.candidatesAmong, List.filter_append, List.map_append]
        have hmalformed : key.malformedArities (m :: rest) =
            key.malformedArities [m] ++ key.malformedArities rest := by
          rw [← List.singleton_append]
          simp only [LookupKey.malformedArities, List.filter_append, List.map_append]
        simp only [add_eq own index hadmits, scan_none rest _ _ h, hcandidates, hmalformed,
          List.foldl_append, List.map_append, List.append_assoc]
    · rw [List.filter_cons_of_neg hadmits] at h
      have hfalse : key.admits m = false := Bool.not_eq_true _ ▸ hadmits
      rw [if_neg hadmits, scan_none rest _ _ h]
      simp [LookupKey.candidatesAmong, LookupKey.malformedArities, List.zipIdx_cons, hfalse]

theorem withInherited_eq (own : OwnMembers) (inherited : List Lookup) :
    own.withInherited inherited =
      (inherited.flatMap Lookup.candidates).foldl Candidate.addTo own.candidates := by
  rw [List.foldl_flatMap]
  unfold withInherited
  congr
  funext found lookup
  cases lookup <;> rfl

theorem inheritedConstant?_eq (inherited : List Lookup) :
    inheritedConstant? inherited = inherited.findSome? Lookup.constant? := rfl

/-- The members of a type that declares no constant make, with the answers of its supertypes, the
answer of the recursion. -/
theorem combine_scan {r : Registry} {members : List Member} (inherited : List Lookup)
    (h : key.constantAmong members = none) :
    (scan t key 0 members {}).combine (r.hierarchy.typeName t) key inherited =
      r.combine key t members inherited := by
  unfold combine Registry.combine
  rw [scan_none members 0 {} h, withInherited_eq, ← List.foldl_append, Candidate.foldl_addTo_nil,
    inheritedConstant?_eq, List.nil_append]
  simp only [List.find?_map, Function.comp_def]
  cases List.find? _ (key.malformedArities members) with
  | some arity => rfl
  | none => cases inherited.findSome? Lookup.constant? <;> rfl

end OwnMembers

end Multimethod
