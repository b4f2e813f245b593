import Mathlib.Data.List.Perm.Basic
import Multimethod.Dispatch.Callable
import Multimethod.Proofs.Dispatch.GuardChain

/-!
# The arity rule

A table keeps slots for a stretch of arities and falls back to its variadic groups past the last
one. What it answers does not show where the slots end: a call goes to the fixed candidates that
take its number of arguments if there are any, and else to the variadic candidates of the greatest
arity that is not above it.

* `arityRule` — this rule, on the candidates alone.
* `fillSlots_slot`, `fillSlots_groups` — the slots and the groups that filling leaves.
* `latestGroup` — of the groups up to some arity, the last one is that of the greatest variadic
  arity.
* `Callable.holds_candidates_and_follows_arityRule` — a callable holds each candidate once, and a
  table follows the rule.
-/

namespace Multimethod

variable (h : Hierarchy) (limit : Nat)

/-! ## The rule -/

/-- The candidates that take exactly `arity` arguments. -/
def fixedOf (cs : List Candidate) (arity : Nat) : List Candidate :=
  cs.filter fun c => !c.isVariadic && c.arity = arity

/-- The variadic candidates with `arity` fixed parameters. -/
def variadicOf (cs : List Candidate) (arity : Nat) : List Candidate :=
  cs.filter fun c => c.isVariadic && c.arity = arity

/-- The greatest arity of a variadic candidate that is not above a number of arguments. -/
def greatestVariadic? (cs : List Candidate) (argc : Nat) : Option Nat :=
  (((cs.filter (·.isVariadic)).map (·.arity)).filter (· ≤ argc)).max?

/-- The overload of the variadic candidates of that arity. -/
def variadicRule (cs : List Candidate) (argc : Nat) : Option Overload :=
  (greatestVariadic? cs argc).bind fun arity => Overload.ofCandidates? h limit (variadicOf cs arity)

/-- The overload that serves a number of arguments. -/
def arityRule (pin : Option Nat) (cs : List Candidate) (argc : Nat) : Option Overload :=
  if pin.any (· ≠ argc) then none
  else match Overload.ofCandidates? h limit (fixedOf cs argc) with
    | some overload => some overload
    | none => variadicRule h limit cs argc

variable {h limit} {cs : List Candidate} {argc : Nat}

theorem mem_fixedOf {c : Candidate} {arity : Nat} :
    c ∈ fixedOf cs arity ↔ c ∈ cs ∧ c.isVariadic = false ∧ c.arity = arity := by
  simp [fixedOf]

theorem mem_variadicOf {c : Candidate} {arity : Nat} :
    c ∈ variadicOf cs arity ↔ c ∈ cs ∧ c.isVariadic = true ∧ c.arity = arity := by
  simp [variadicOf]

theorem fixedOf_eq_nil (hno : ∀ c ∈ cs, c.arity ≠ argc) : fixedOf cs argc = [] := by
  rw [fixedOf, List.filter_eq_nil_iff]
  intro c hc
  simp [hno c hc]

theorem variadicOf_eq_nil_iff {arity : Nat} :
    variadicOf cs arity = [] ↔ ∀ c ∈ cs, c.isVariadic → c.arity ≠ arity := by
  simp [variadicOf, List.filter_eq_nil_iff]

theorem greatestVariadic?_eq_some_iff {arity : Nat} :
    greatestVariadic? cs argc = some arity ↔
      (∃ c ∈ cs, c.isVariadic ∧ c.arity = arity) ∧ arity ≤ argc ∧
        ∀ c ∈ cs, c.isVariadic → c.arity ≤ argc → c.arity ≤ arity := by
  simp only [greatestVariadic?, List.max?_eq_some_iff, List.mem_filter, List.mem_map,
    decide_eq_true_eq]
  constructor
  · rintro ⟨⟨⟨c, ⟨hc, hv⟩, hca⟩, hle⟩, hmax⟩
    refine ⟨⟨c, hc, hv, hca⟩, hle, ?_⟩
    intro d hd hv hda
    exact hmax d.arity ⟨⟨d, ⟨hd, hv⟩, rfl⟩, hda⟩
  · rintro ⟨⟨c, hc, hv, hca⟩, hle, hmax⟩
    refine ⟨⟨⟨c, ⟨hc, hv⟩, hca⟩, hle⟩, ?_⟩
    rintro _ ⟨⟨d, ⟨hd, hv⟩, rfl⟩, hda⟩
    exact hmax d hd hv hda

theorem greatestVariadic?_eq_none_iff :
    greatestVariadic? cs argc = none ↔ ∀ c ∈ cs, c.isVariadic → ¬ c.arity ≤ argc := by
  simp only [greatestVariadic?, List.max?_eq_none_iff, List.filter_eq_nil_iff, List.mem_map,
    List.mem_filter, decide_eq_true_eq]
  constructor
  · intro hall c hc hv
    exact hall c.arity ⟨c, ⟨hc, hv⟩, rfl⟩
  · rintro hall _ ⟨c, ⟨hc, hv⟩, rfl⟩
    exact hall c hc hv

/-! ## Groups -/

variable (h limit cs) in
/-- The variadic groups of `count` arities from `start` on, ascending. -/
def groupsOf (start count : Nat) : List Overload :=
  (List.range' start count).filterMap fun arity => Overload.ofCandidates? h limit (variadicOf cs arity)

theorem groupsOf_succ (start count : Nat) :
    groupsOf h limit cs start (count + 1) = groupsOf h limit cs start count ++
      (Overload.ofCandidates? h limit (variadicOf cs (start + count))).toList := by
  rw [groupsOf, List.range'_concat, List.filterMap_append, Nat.one_mul]
  rfl

theorem groupsOf_cons (start count : Nat) :
    groupsOf h limit cs start (count + 1) =
      (Overload.ofCandidates? h limit (variadicOf cs start)).toList ++
        groupsOf h limit cs (start + 1) count := by
  rw [groupsOf, List.range'_succ, List.filterMap_cons, groupsOf]
  cases Overload.ofCandidates? h limit (variadicOf cs start) <;> rfl

theorem groupsOf_prefix (start : Nat) {count more : Nat} (hle : count ≤ more) :
    groupsOf h limit cs start count <+: groupsOf h limit cs start more := by
  induction more with
  | zero =>
    obtain rfl : count = 0 := by omega
    exact List.prefix_rfl
  | succ more ih =>
    rcases Nat.lt_or_ge count (more + 1) with hlt | hge
    · rw [groupsOf_succ]
      exact (ih (by omega)).trans (List.prefix_append _ _)
    · obtain rfl : count = more + 1 := by omega
      exact List.prefix_rfl

/-- **The last group is that of the greatest variadic arity**, among arities that reach as far as
the number of arguments or past all variadic candidates. -/
theorem latestGroup {start count : Nat} (hstart : ∀ c ∈ cs, start ≤ c.arity)
    (htop : ∀ c ∈ cs, c.isVariadic → (c.arity ≤ argc ↔ c.arity < start + count)) :
    (groupsOf h limit cs start count).getLast? = variadicRule h limit cs argc := by
  -- Descending from the top: an arity without variadic candidates leaves no group behind.
  suffices hcount : ∀ n, (∀ c ∈ cs, c.isVariadic → c.arity ≤ argc → c.arity < start + n) →
      n ≤ count → (groupsOf h limit cs start n).getLast? = variadicRule h limit cs argc from
    hcount count (fun c hc hv hle => (htop c hc hv).1 hle) (Nat.le_refl _)
  intro n
  induction n with
  | zero =>
    intro hbelow _
    have hnone : greatestVariadic? cs argc = none := by
      rw [greatestVariadic?_eq_none_iff]
      intro c hc hv hle
      have := hbelow c hc hv hle
      have := hstart c hc
      omega
    rw [variadicRule, hnone]
    rfl
  | succ n ih =>
    intro hbelow hn
    rw [groupsOf_succ, List.getLast?_append]
    cases hov : Overload.ofCandidates? h limit (variadicOf cs (start + n)) with
    | none =>
      have hno := variadicOf_eq_nil_iff.1 (Overload.ofCandidates?_eq_none_iff.1 hov)
      refine ih (fun c hc hv hle => ?_) (by omega)
      have := hbelow c hc hv hle
      have := hno c hc hv
      omega
    | some overload =>
      have hne : ¬ variadicOf cs (start + n) = [] := by
        intro hnil
        rw [hnil] at hov
        cases hov
      obtain ⟨c, hc, hv, hca⟩ : ∃ c ∈ cs, c.isVariadic ∧ c.arity = start + n := by
        by_contra hno
        exact hne (variadicOf_eq_nil_iff.2 fun c hc hv hca => hno ⟨c, hc, hv, hca⟩)
      have hgreatest : greatestVariadic? cs argc = some (start + n) := by
        rw [greatestVariadic?_eq_some_iff]
        refine ⟨⟨c, hc, hv, hca⟩, ?_, ?_⟩
        · rw [← hca]
          exact (htop c hc hv).2 (by omega)
        · intro d hd hdv hle
          have := hbelow d hd hdv hle
          omega
      rw [variadicRule, hgreatest, Option.bind_some, hov]
      rfl

namespace DispatchTable

/-! ## Slots -/

/-- What a slot for `arity` arguments holds when `groups` are those up to there. -/
def slotOf (h : Hierarchy) (limit : Nat) (cs : List Candidate) (arity : Nat)
    (groups : List Overload) : Option Slot :=
  match Overload.ofCandidates? h limit (fixedOf cs arity) with
  | some overload => some (.fixed overload)
  | none => latestGroup? groups

theorem partition_arity (cs : List Candidate) (arity : Nat) :
    (cs.filter (·.arity = arity)).partition (·.isVariadic) =
      (variadicOf cs arity, fixedOf cs arity) := by
  rw [List.partition_eq_filter_filter, List.filter_filter, List.filter_filter]
  rfl

theorem fillSlots_cons (arity : Nat) (more : List Nat) (groups : List Overload) :
    fillSlots h limit cs (arity :: more) groups =
      let now := groups ++ (Overload.ofCandidates? h limit (variadicOf cs arity)).toList
      (slotOf h limit cs arity now :: (fillSlots h limit cs more now).1,
        (fillSlots h limit cs more now).2) := by
  rw [fillSlots, partition_arity]
  rfl

theorem fillSlots_groups (start count : Nat) (groups : List Overload) :
    (fillSlots h limit cs (List.range' start count) groups).2 =
      groups ++ groupsOf h limit cs start count := by
  induction count generalizing start groups with
  | zero => exact (List.append_nil groups).symm
  | succ count ih =>
    rw [List.range'_succ, fillSlots_cons, groupsOf_cons, ← List.append_assoc]
    exact ih (start + 1) _

theorem fillSlots_length (start count : Nat) (groups : List Overload) :
    (fillSlots h limit cs (List.range' start count) groups).1.length = count := by
  induction count generalizing start groups with
  | zero => rfl
  | succ count ih =>
    rw [List.range'_succ, fillSlots_cons]
    exact congrArg (· + 1) (ih (start + 1) _)

/-- Each slot is filled with its fixed candidates, or with the latest group up to its arity. -/
theorem fillSlots_slot {start count i : Nat} (hi : i < count) (groups : List Overload) :
    (fillSlots h limit cs (List.range' start count) groups).1[i]? =
      some (slotOf h limit cs (start + i) (groups ++ groupsOf h limit cs start (i + 1))) := by
  induction count generalizing start groups i with
  | zero => omega
  | succ count ih =>
    rw [List.range'_succ, fillSlots_cons]
    cases i with
    | zero =>
      rw [groupsOf_cons]
      simp [groupsOf]
    | succ i =>
      rw [groupsOf_cons, ← List.append_assoc, List.getElem?_cons_succ]
      refine (ih (by omega : i < count) _).trans ?_
      rw [Nat.add_assoc, Nat.add_comm 1 i]

/-! ## Bounds -/

theorem foldl_min_le (cs : List Candidate) (n : Nat) :
    cs.foldl (fun n c => min n c.arity) n ≤ n ∧
      ∀ c ∈ cs, cs.foldl (fun n c => min n c.arity) n ≤ c.arity := by
  induction cs generalizing n with
  | nil => exact ⟨Nat.le_refl _, fun c hc => by cases hc⟩
  | cons d rest ih =>
    obtain ⟨hn, hrest⟩ := ih (min n d.arity)
    rw [List.foldl_cons]
    refine ⟨by omega, fun c hc => ?_⟩
    rcases List.mem_cons.1 hc with rfl | hc
    · omega
    · exact hrest c hc

theorem le_foldl_max (cs : List Candidate) (n : Nat) :
    n ≤ cs.foldl (fun n c => max n c.arity) n ∧
      ∀ c ∈ cs, c.arity ≤ cs.foldl (fun n c => max n c.arity) n := by
  induction cs generalizing n with
  | nil => exact ⟨Nat.le_refl _, fun c hc => by cases hc⟩
  | cons d rest ih =>
    obtain ⟨hn, hrest⟩ := ih (max n d.arity)
    rw [List.foldl_cons]
    refine ⟨by omega, fun c hc => ?_⟩
    rcases List.mem_cons.1 hc with rfl | hc
    · omega
    · exact hrest c hc

theorem arityBounds_spec (first : Candidate) (others : List Candidate) :
    ∀ c ∈ first :: others, (arityBounds first others).1 ≤ c.arity ∧
      c.arity ≤ (arityBounds first others).2 := by
  obtain ⟨hmin, hmins⟩ := foldl_min_le others first.arity
  obtain ⟨hmax, hmaxs⟩ := le_foldl_max others first.arity
  intro c hc
  rcases List.mem_cons.1 hc with rfl | hc
  · exact ⟨hmin, hmax⟩
  · exact ⟨hmins c hc, hmaxs c hc⟩

/-! ## Tables -/

/-- What a table made of candidates `cs` between two arities holds: a slot for each of them, filled
by `slotOf`, then any number of slots that lead to the last group, and all groups. -/
structure Holds (h : Hierarchy) (limit : Nat) (cs : List Candidate) (maxArity : Nat)
    (table : DispatchTable) : Prop where
  bounds : ∀ c ∈ cs, table.minArity ≤ c.arity ∧ c.arity ≤ maxArity
  groups : table.groups = groupsOf h limit cs table.minArity (maxArity + 1 - table.minArity)
  slot : ∀ i, table.minArity + i ≤ maxArity → table.slots[i]? =
    some (slotOf h limit cs (table.minArity + i) (groupsOf h limit cs table.minArity (i + 1)))
  past : ∀ i, maxArity < table.minArity + i → table.slots[i]? = none ∨
    ∃ latest, latestGroup? table.groups = some latest ∧ table.slots[i]? = some (some latest)

/-- Past the largest arity there is no slot, or one that leads to the last group. -/
theorem pastSlots_slot (groups : List Overload) (count i : Nat) :
    (pastSlots groups count)[i]? = none ∨ ∃ latest, latestGroup? groups = some latest ∧
      (pastSlots groups count)[i]? = some (some latest) := by
  unfold pastSlots
  cases latestGroup? groups with
  | none => exact .inl rfl
  | some latest =>
    rw [List.getElem?_replicate]
    split
    · exact .inr ⟨latest, rfl, rfl⟩
    · exact .inl rfl

theorem holds_ofCandidates (name : String) (scope : Ty) (lookahead : Nat) (pin : Option Nat)
    (first : Candidate) (others : List Candidate) :
    Holds h limit (first :: others) (arityBounds first others).2
      (ofCandidates h name scope limit lookahead pin first others) := by
  have hgroups : (fillSlots h limit (first :: others) (List.range' (arityBounds first others).1
      ((arityBounds first others).2 + 1 - (arityBounds first others).1)) []).2 =
      groupsOf h limit (first :: others) (arityBounds first others).1
        ((arityBounds first others).2 + 1 - (arityBounds first others).1) :=
    fillSlots_groups _ _ _
  refine ⟨arityBounds_spec first others, hgroups, fun i hi => ?_, fun i hi => ?_⟩
  · have hi : i < (arityBounds first others).2 + 1 - (arityBounds first others).1 := by
      change (arityBounds first others).1 + i ≤ _ at hi
      omega
    refine (List.getElem?_append_left ?_).trans (fillSlots_slot hi [])
    rw [fillSlots_length]
    exact hi
  · have hi : (arityBounds first others).2 + 1 - (arityBounds first others).1 ≤ i := by
      change _ < (arityBounds first others).1 + i at hi
      omega
    have hright : (ofCandidates h name scope limit lookahead pin first others).slots[i]? = _ :=
      List.getElem?_append_right (by rw [fillSlots_length]; exact hi)
    rw [hright]
    exact pastSlots_slot _ _ _

/-! ## The overload of a number of arguments -/

/-- The last of some first groups is found at the place that `latestGroup?` gives. -/
theorem getElem?_latestGroup? {groups all : List Overload} (hpre : groups <+: all) {latest : Slot}
    (hlatest : latestGroup? groups = some latest) :
    ∃ group, latest = .adapted group ∧ all[group]? = groups.getLast? := by
  unfold latestGroup? at hlatest
  split at hlatest
  · cases hlatest
  · rename_i hne
    cases hlatest
    refine ⟨groups.length - 1, rfl, ?_⟩
    have hlt : groups.length - 1 < groups.length := by
      cases groups with
      | nil => exact absurd rfl hne
      | cons => simp
    obtain ⟨rest, rfl⟩ := hpre
    rw [List.getElem?_append_left hlt, List.getLast?_eq_getElem?]

theorem groups_eq_nil_of_latestGroup? {groups : List Overload} (hnone : latestGroup? groups = none) :
    groups = [] := by
  unfold latestGroup? at hnone
  split at hnone
  · rename_i hnil
    exact List.isEmpty_iff.1 hnil
  · cases hnone

/-- Past the largest arity the search among the groups ends at the last one. -/
theorem Holds.groupFor?_eq_getLast? {table : DispatchTable} {maxArity : Nat}
    (ht : Holds h limit cs maxArity table) (hargc : maxArity ≤ argc) :
    table.groupFor? argc = table.groups.getLast? := by
  have hle : ∀ group ∈ table.groups, group.arity ≤ argc := by
    intro group hgroup
    rw [ht.groups, groupsOf, List.mem_filterMap] at hgroup
    obtain ⟨arity, harity, hov⟩ := hgroup
    rw [List.mem_range'_1] at harity
    rw [Overload.arity_of_ofCandidates? hov fun c hc => (mem_variadicOf.1 hc).2.2]
    omega
  rw [groupFor?, ← List.head?_reverse]
  cases hrev : table.groups.reverse with
  | nil => rfl
  | cons group rest =>
    have hmem : group ∈ table.groups := by
      rw [← List.mem_reverse, hrev]
      exact List.mem_cons_self
    rw [List.find?_cons_of_pos (by simpa using hle group hmem)]
    rfl

/-- The last of the groups up to a number of arguments is the one that serves it. -/
theorem Holds.getLast?_groupsOf {table : DispatchTable} {maxArity count : Nat}
    (ht : Holds h limit cs maxArity table)
    (hreach : argc < table.minArity + count ∧ table.minArity + count ≤ argc + 1 ∨
      maxArity < argc ∧ maxArity < table.minArity + count) :
    (groupsOf h limit cs table.minArity count).getLast? = variadicRule h limit cs argc := by
  refine latestGroup (fun c hc => (ht.bounds c hc).1) fun c hc _ => ?_
  have := ht.bounds c hc
  omega

theorem Holds.arityRule_below {table : DispatchTable} {maxArity : Nat}
    (ht : Holds h limit cs maxArity table) (pin : Option Nat) (hlow : argc < table.minArity) :
    arityRule h limit pin cs argc = none := by
  have hfixed : fixedOf cs argc = [] := by
    apply fixedOf_eq_nil
    intro c hc heq
    have := (ht.bounds c hc).1
    omega
  have hnone : greatestVariadic? cs argc = none := by
    rw [greatestVariadic?_eq_none_iff]
    intro c hc _ hle
    have := (ht.bounds c hc).1
    omega
  unfold arityRule
  rw [hfixed, variadicRule, hnone]
  split <;> rfl

section admitted

variable {table : DispatchTable} {maxArity : Nat} (ht : Holds h limit cs maxArity table)
  (hpin : ¬ table.pin.any (· ≠ argc) = true) (hlow : table.minArity ≤ argc)

include ht hpin hlow

/-- Up to the largest arity there is a slot for the very number of arguments. -/
theorem Holds.overloadFor?_within (hhigh : argc ≤ maxArity) :
    table.overloadFor? argc = arityRule h limit table.pin cs argc := by
  have hback : table.minArity + (argc - table.minArity) = argc := by omega
  unfold overloadFor? arityRule
  rw [if_neg (by rw [Bool.or_eq_true, not_or]; exact ⟨hpin, by simpa using hlow⟩), if_neg hpin,
    ht.slot _ (by omega), hback]
  unfold slotOf
  cases hfixed : Overload.ofCandidates? h limit (fixedOf cs argc) with
  | some overload => rfl
  | none =>
    have hlast : (groupsOf h limit cs table.minArity (argc - table.minArity + 1)).getLast? =
        variadicRule h limit cs argc := ht.getLast?_groupsOf (.inl (by omega))
    show _ = variadicRule h limit cs argc
    rw [← hlast]
    cases hlatest : latestGroup? (groupsOf h limit cs table.minArity
        (argc - table.minArity + 1)) with
    | none =>
      rw [groups_eq_nil_of_latestGroup? hlatest]
      rfl
    | some latest =>
      have hpre : groupsOf h limit cs table.minArity (argc - table.minArity + 1) <+:
          table.groups := by
        rw [ht.groups]
        exact groupsOf_prefix _ (by omega)
      obtain ⟨group, rfl, hgroup⟩ := getElem?_latestGroup? hpre hlatest
      exact hgroup

/-- Past the largest arity the last group serves the call, with a slot or without. -/
theorem Holds.overloadFor?_past (hhigh : maxArity < argc) :
    table.overloadFor? argc = arityRule h limit table.pin cs argc := by
  have hfixed : fixedOf cs argc = [] := by
    apply fixedOf_eq_nil
    intro c hc heq
    have := (ht.bounds c hc).2
    omega
  have hlast : table.groups.getLast? = variadicRule h limit cs argc := by
    rw [ht.groups]
    exact ht.getLast?_groupsOf (.inr (by omega))
  unfold overloadFor? arityRule
  rw [if_neg (by rw [Bool.or_eq_true, not_or]; exact ⟨hpin, by simpa using hlow⟩), if_neg hpin,
    hfixed, Overload.ofCandidates?_nil]
  show _ = variadicRule h limit cs argc
  rw [← hlast]
  rcases ht.past (argc - table.minArity) (by omega) with hslot | ⟨latest, hlatest, hslot⟩
  · rw [hslot]
    exact ht.groupFor?_eq_getLast? (by omega)
  · obtain ⟨group, rfl, hgroup⟩ := getElem?_latestGroup? List.prefix_rfl hlatest
    rw [hslot]
    exact hgroup

end admitted

/-- **A table answers by the arity rule**, wherever its slots end. -/
theorem Holds.overloadFor?_eq_arityRule {table : DispatchTable} {maxArity : Nat}
    (ht : Holds h limit cs maxArity table) (argc : Nat) :
    table.overloadFor? argc = arityRule h limit table.pin cs argc := by
  by_cases hpin : table.pin.any (· ≠ argc) = true
  · unfold overloadFor? arityRule
    rw [if_pos (by rw [hpin]; rfl), if_pos hpin]
  · rcases Nat.lt_or_ge argc table.minArity with hlow | hlow
    · rw [ht.arityRule_below table.pin hlow]
      unfold overloadFor?
      rw [if_pos (by simp [hlow])]
    · rcases Nat.lt_or_ge maxArity argc with hhigh | hhigh
      · exact ht.overloadFor?_past hpin hlow hhigh
      · exact ht.overloadFor?_within hpin hlow hhigh

/-! ## The candidates of a table -/

/-- The fixed candidates in a slot. -/
def slotCandidates : Option Slot → List Candidate
  | some (.fixed overload) => overload.candidates
  | _ => []

theorem fixedOverloads_flatMap (table : DispatchTable) :
    table.fixedOverloads.flatMap (·.2.candidates) = table.slots.flatMap slotCandidates := by
  unfold fixedOverloads
  generalize table.minArity = arity
  induction table.slots generalizing arity with
  | nil => rfl
  | cons slot rest ih =>
    rw [List.zipIdx_cons, List.filterMap_cons, List.flatMap_cons, ← ih (arity + 1)]
    match slot with
    | some (.fixed overload) => rfl
    | some (.adapted group) => rfl
    | none => rfl

theorem subset_of_overloadFor? {table : DispatchTable} {argc : Nat} {overload : Overload}
    (hov : table.overloadFor? argc = some overload) : overload.candidates ⊆ table.candidates := by
  unfold candidates
  rw [fixedOverloads_flatMap]
  intro c hc
  have hgroup (hmem : overload ∈ table.groups) :
      c ∈ table.slots.flatMap slotCandidates ++ table.groups.flatMap (·.candidates) :=
    List.mem_append_right _ (List.mem_flatMap.2 ⟨overload, hmem, hc⟩)
  unfold overloadFor? at hov
  split at hov
  · cases hov
  split at hov
  · rename_i found hslot
    cases hov
    exact List.mem_append_left _ (List.mem_flatMap.2 ⟨_, List.mem_of_getElem? hslot, hc⟩)
  · exact hgroup (List.mem_of_getElem? hov)
  · cases hov
  · exact hgroup (List.mem_reverse.1 (List.mem_of_find?_eq_some hov))

theorem mem_candidates_of_select {table : DispatchTable} {types : List Ty} {c : Candidate}
    (hsel : table.select h types = some c) : c ∈ table.candidates := by
  obtain ⟨overload, hov, hc⟩ := Option.bind_eq_some_iff.1 hsel
  exact subset_of_overloadFor? hov (Overload.mem_candidates_of_select hc)

/-- The candidates of the overloads of several lists, in the order of trial. -/
theorem candidates_toList (limit : Nat) (cs : List Candidate) :
    (Overload.ofCandidates? h limit cs).toList.flatMap (·.candidates) =
      Candidate.sortBySpecificity h cs := by
  cases hov : Overload.ofCandidates? h limit cs with
  | none => rw [Overload.ofCandidates?_eq_none_iff.1 hov]; rfl
  | some overload =>
    rw [← Overload.candidates_of_ofCandidates? hov]
    exact List.append_nil _

theorem slotCandidates_slotOf (arity : Nat) (groups : List Overload) :
    slotCandidates (slotOf h limit cs arity groups) =
      Candidate.sortBySpecificity h (fixedOf cs arity) := by
  rw [← candidates_toList limit]
  unfold slotOf
  cases Overload.ofCandidates? h limit (fixedOf cs arity) with
  | some overload => exact (List.append_nil _).symm
  | none =>
    cases hlatest : latestGroup? groups with
    | none => rfl
    | some latest =>
      obtain ⟨group, rfl, -⟩ := getElem?_latestGroup? List.prefix_rfl hlatest
      rfl

theorem fillSlots_candidates (arities : List Nat) (groups : List Overload) :
    (fillSlots h limit cs arities groups).1.flatMap slotCandidates =
      arities.flatMap fun arity => Candidate.sortBySpecificity h (fixedOf cs arity) := by
  induction arities generalizing groups with
  | nil => rfl
  | cons arity more ih =>
    rw [fillSlots_cons, List.flatMap_cons, List.flatMap_cons, slotCandidates_slotOf, ih]

theorem groupsOf_candidates (limit start count : Nat) :
    (groupsOf h limit cs start count).flatMap (·.candidates) =
      (List.range' start count).flatMap fun arity =>
        Candidate.sortBySpecificity h (variadicOf cs arity) := by
  unfold groupsOf
  induction List.range' start count with
  | nil => rfl
  | cons arity more ih =>
    rw [List.filterMap_cons, List.flatMap_cons, ← candidates_toList limit, ← ih]
    cases Overload.ofCandidates? h limit (variadicOf cs arity) with
    | none => rfl
    | some overload => simp

theorem pastSlots_candidates (groups : List Overload) (count : Nat) :
    (pastSlots groups count).flatMap slotCandidates = [] := by
  unfold pastSlots
  cases hlatest : latestGroup? groups with
  | none => rfl
  | some latest =>
    obtain ⟨group, rfl, -⟩ := getElem?_latestGroup? List.prefix_rfl hlatest
    simp [slotCandidates]

/-- **The candidates of a table in order**: arity by arity the fixed ones and then, arity by arity,
the variadic ones. Neither limit has a say in it. -/
theorem candidates_ofCandidates (name : String) (scope : Ty) (lookahead : Nat) (pin : Option Nat)
    (first : Candidate) (others : List Candidate) :
    (ofCandidates h name scope limit lookahead pin first others).candidates =
      let (minArity, maxArity) := arityBounds first others
      let arities := List.range' minArity (maxArity + 1 - minArity)
      (arities.flatMap fun arity =>
          Candidate.sortBySpecificity h (fixedOf (first :: others) arity)) ++
        arities.flatMap fun arity =>
          Candidate.sortBySpecificity h (variadicOf (first :: others) arity) := by
  rw [candidates, fixedOverloads_flatMap]
  congr 1
  · refine List.flatMap_append.trans ?_
    rw [fillSlots_candidates, pastSlots_candidates, List.append_nil]
  · rw [← groupsOf_candidates limit]
    congr 1
    exact fillSlots_groups _ _ _

theorem flatMap_filter_arity_perm {arities : List Nat} (hnodup : arities.Nodup) :
    (arities.flatMap fun arity => cs.filter (·.arity = arity)).Perm
      (cs.filter fun c => c.arity ∈ arities) := by
  induction arities with
  | nil => simp
  | cons arity more ih =>
    obtain ⟨hnot, hmore⟩ := List.nodup_cons.1 hnodup
    have hsplit := List.filter_append_perm (fun c : Candidate => decide (c.arity = arity))
      (cs.filter fun c => c.arity ∈ arity :: more)
    rw [List.filter_filter, List.filter_filter] at hsplit
    refine List.Perm.trans (List.Perm.append (.of_eq ?_) ((ih hmore).trans (.of_eq ?_))) hsplit
    · refine List.filter_congr fun c _ => ?_
      by_cases hc : c.arity = arity <;> simp [hc]
    · refine List.filter_congr fun c _ => ?_
      by_cases hc : c.arity = arity
      · simp [hc, hnot]
      · simp [hc]

/-- **A table holds each candidate once.** -/
theorem candidates_perm (name : String) (scope : Ty) (lookahead : Nat) (pin : Option Nat)
    (first : Candidate) (others : List Candidate) :
    (ofCandidates h name scope limit lookahead pin first others).candidates.Perm
      (first :: others) := by
  rw [candidates_ofCandidates]
  generalize hbounds : arityBounds first others = bounds
  obtain ⟨minArity, maxArity⟩ := bounds
  show (List.flatMap _ (List.range' minArity (maxArity + 1 - minArity)) ++ _).Perm _
  refine (List.flatMap_append_perm _ _ _).trans ?_
  have hsplit : ∀ arity ∈ List.range' minArity (maxArity + 1 - minArity),
      (Candidate.sortBySpecificity h (fixedOf (first :: others) arity) ++
        Candidate.sortBySpecificity h (variadicOf (first :: others) arity)).Perm
        ((first :: others).filter (·.arity = arity)) := by
    intro arity _
    refine ((Candidate.sortBySpecificity_perm _).append (Candidate.sortBySpecificity_perm _)).trans ?_
    have hboth := List.filter_append_perm (fun c : Candidate => c.isVariadic)
      ((first :: others).filter (·.arity = arity))
    rw [List.filter_filter, List.filter_filter] at hboth
    exact List.perm_append_comm.trans hboth
  refine (List.Perm.flatMap_left _ hsplit).trans ?_
  refine (flatMap_filter_arity_perm (List.nodup_range' 1)).trans (.of_eq ?_)
  refine List.filter_eq_self.2 fun c hc => ?_
  have := arityBounds_spec first others c hc
  rw [hbounds] at this
  simp only [decide_eq_true_eq, List.mem_range'_1]
  omega

end DispatchTable

namespace Callable

section cases

variable {name : String} {scope : Ty} {lookahead : Nat} {pin : Option Nat} {callable : Callable}

theorem ofCandidates?_cases
    (hmade : ofCandidates? h name scope limit lookahead pin cs = some callable) :
    (∃ c, cs = [c] ∧ callable = .direct c) ∨
      ∃ first others, cs = first :: others ∧
        callable = .table (.ofCandidates h name scope limit lookahead pin first others) := by
  match cs with
  | [] => cases hmade
  | [c] =>
    change (if pin.isNone || !c.isVariadic then _ else _) = _ at hmade
    split at hmade
    · exact .inl ⟨c, rfl, (Option.some.inj hmade).symm⟩
    · exact .inr ⟨c, [], rfl, (Option.some.inj hmade).symm⟩
  | first :: second :: others =>
    exact .inr ⟨first, second :: others, rfl, (Option.some.inj hmade).symm⟩

theorem candidates_perm_of_ofCandidates?
    (hmade : ofCandidates? h name scope limit lookahead pin cs = some callable) :
    callable.candidates.Perm cs := by
  obtain ⟨_, rfl, rfl⟩ | ⟨first, others, rfl, rfl⟩ := ofCandidates?_cases hmade
  · exact List.Perm.refl _
  · exact DispatchTable.candidates_perm _ _ _ _ _ _

end cases

/-- **Tables implement the arity rule.** One or more candidates make a callable that holds each of
them exactly once, and if the callable is a table, then the overload for any number of arguments is
the one of the arity rule: in particular it depends neither on the lookahead nor on where the slots
end. -/
theorem holds_candidates_and_follows_arityRule (name : String) (scope : Ty) (lookahead : Nat)
    (pin : Option Nat) (hne : cs ≠ []) :
    ∃ callable, ofCandidates? h name scope limit lookahead pin cs = some callable ∧
      callable.candidates.Perm cs ∧
      ∀ table, callable = .table table →
        ∀ argc, table.overloadFor? argc = arityRule h limit pin cs argc := by
  have htable : ∀ first others, ∀ table,
      Callable.table (.ofCandidates h name scope limit lookahead pin first others) = .table table →
        ∀ argc, table.overloadFor? argc = arityRule h limit pin (first :: others) argc := by
    intro first others table heq argc
    cases heq
    exact (DispatchTable.holds_ofCandidates name scope lookahead pin first
      others).overloadFor?_eq_arityRule argc
  match cs with
  | [] => exact absurd rfl hne
  | [c] =>
    show ∃ callable, (if pin.isNone || !c.isVariadic then _ else _) = some callable ∧ _
    split
    · exact ⟨_, rfl, List.Perm.refl _, fun table heq => by cases heq⟩
    · exact ⟨_, rfl, DispatchTable.candidates_perm _ _ _ _ _ _, htable c []⟩
  | first :: second :: others =>
    exact ⟨_, rfl, DispatchTable.candidates_perm _ _ _ _ _ _, htable first (second :: others)⟩

/-- Two variadic groups with a gap between them that holds a fixed candidate. -/
theorem holds_candidates_and_follows_arityRule_of_gap :
    let candidate (params : List Ty) (isVariadic : Bool) : Candidate :=
      { owner := .host 0, index := 0, lookup := ⟨"v", .method, .static, false, none⟩, key := "v",
        kind := .method, origin := .static, params, ret := .text, isVariadic }
    let cs := [candidate [.int] true, candidate [.int, .int, .int, .int] true,
      candidate [.int, .int] false]
    cs ≠ [] ∧ ∃ callable, ofCandidates? {} "v" (.host 0) 4 8 none cs = some callable ∧
      callable.candidates.Perm cs ∧
      ∀ table, callable = .table table →
        ∀ argc, table.overloadFor? argc = arityRule {} 4 none cs argc :=
  ⟨by decide, holds_candidates_and_follows_arityRule "v" (.host 0) 8 none (by decide)⟩

end Callable

end Multimethod
