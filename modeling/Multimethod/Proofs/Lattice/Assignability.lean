import Multimethod.Proofs.Lattice.Search

/-!
# Assignability is reachability

A type may stand where a type that is reached from it is declared. Beside that everything stands for
Any, Null stands for all types that are not primitive, and primitive types widen. These rules compose
with one another, but for Char: it widens to the numeric types and yet does not belong to Number.

* `StandsFor` — the rules of assignability, with no bound on the search for a supertype.
* `StandsFor.trans` — they compose, Char and Number apart.
* `StandsFor.antisymm` — without circles no two types stand for each other.
* `isAssignable_iff_standsFor` — assignability follows the rules where a search meets all it should.
* `isAssignable_reaches_and_composes` — the same in terms of reachability, and what composes.
-/

namespace Multimethod

/-- Does a primitive type widen to another? Bool takes no part in it. -/
def Ty.WidensTo (t s : Ty) : Prop :=
  t ≠ .bool ∧ s ≠ .bool ∧ ∃ r q, t.rank? = some r ∧ s.rank? = some q ∧ r ≤ q

theorem Ty.WidensTo.isPrimitive {t s : Ty} (hwidens : t.WidensTo s) :
    t.isPrimitive ∧ s.isPrimitive := by
  obtain ⟨_, _, r, q, hr, hq, _⟩ := hwidens
  exact ⟨Option.isSome_of_mem hr, Option.isSome_of_mem hq⟩

namespace Hierarchy

/-- May a value of type `t` stand where `s` is declared, however far above `t` this lies? -/
inductive StandsFor (h : Hierarchy) : Ty → Ty → Prop
  | any (t : Ty) : StandsFor h t .any
  | upward {t s : Ty} (hreached : h.Reaches t s) : StandsFor h t s
  | null {s : Ty} (hs : s.isPrimitive = false) : StandsFor h .null s
  | widen {t s : Ty} (hwidens : t.WidensTo s) : StandsFor h t s

/-- No type lies above itself. -/
def IsAcyclic (h : Hierarchy) : Prop := ∀ t, ¬ h.IsBelow t t

variable {h : Hierarchy} {a b c t s : Ty}

theorem PathsWithin.isAcyclic {n : Nat} (hpaths : h.PathsWithin n) : h.IsAcyclic := fun _ hbelow =>
  Nat.lt_irrefl _ (depth_lt_of_isBelow hpaths hbelow)

/-! ## What lies above a type -/

theorem isOpen_of_isBelow (hreg : h.IsRegular) (hbelow : h.IsBelow t s) : s.isOpen := by
  obtain ⟨u, _, hs⟩ := Relation.TransGen.tail'_iff.1 hbelow
  exact isOpen_of_above hreg hs

/-- Types that no host type may be declared below are reached from themselves alone. -/
theorem eq_of_reaches (hreg : h.IsRegular) (hs : s.isOpen = false) (hreached : h.Reaches t s) :
    t = s := by
  refine (reaches_iff.1 hreached).resolve_right fun hbelow => ?_
  rw [isOpen_of_isBelow hreg hbelow] at hs
  cases hs

theorem isPrimitive_of_isOpen (hs : s.isOpen) : s.isPrimitive = false := by
  cases s <;> first | rfl | cases hs

theorem isOpen_of_isPrimitive (hs : s.isPrimitive) : s.isOpen = false := by
  cases s <;> first | rfl | cases hs

theorem eq_of_isBelow_builtin (ht : ∀ id, t ≠ .host id) (hbelow : h.IsBelow t s) :
    s = .any ∨ t.isNumeric ∧ s = .number := by
  induction hbelow with
  | single hs =>
    cases t with
    | host id => exact absurd rfl (ht id)
    | any => cases hs
    | rest => cases hs
    | int => exact .inr ⟨rfl, List.mem_singleton.1 hs⟩
    | long => exact .inr ⟨rfl, List.mem_singleton.1 hs⟩
    | double => exact .inr ⟨rfl, List.mem_singleton.1 hs⟩
    | _ => exact .inl (List.mem_singleton.1 hs)
  | tail _ hs ih =>
    rcases ih with rfl | ⟨_, rfl⟩
    · cases hs
    · exact .inl (List.mem_singleton.1 hs)

theorem ne_host_of_rank? {r : Nat} (hr : t.rank? = some r) (id : Nat) : t ≠ .host id := by
  rintro rfl
  cases hr

theorem isBelow_number_of_isNumeric (ht : t.isNumeric) : h.IsBelow t .number := by
  refine .single ?_
  cases t <;> first | exact List.mem_singleton_self _ | cases ht

theorem isNumeric_of_widensTo (hwidens : t.WidensTo s) (hchar : t ≠ .char) : t.isNumeric := by
  obtain ⟨hbool, _, r, _, hr, _⟩ := hwidens
  cases t <;> first | rfl | exact absurd rfl hbool | exact absurd rfl hchar | cases hr

/-! ## The rules compose -/

namespace StandsFor

theorem eq_any (hstands : h.StandsFor .any s) : s = .any := by
  cases hstands with
  | any => rfl
  | upward hreached =>
    rcases reaches_iff.1 hreached with heq | hbelow
    · exact heq.symm
    · exact (eq_of_isBelow_builtin (fun _ => by rintro ⟨⟩) hbelow).resolve_right (by rintro ⟨⟨⟩, _⟩)
  | widen hwidens => cases hwidens.isPrimitive.1

theorem eq_number (hstands : h.StandsFor .number s) : s = .number ∨ s = .any := by
  cases hstands with
  | any => exact .inr rfl
  | upward hreached =>
    rcases reaches_iff.1 hreached with heq | hbelow
    · exact .inl heq.symm
    · exact (eq_of_isBelow_builtin (fun _ => by rintro ⟨⟩) hbelow).elim .inr
        fun h => .inl h.2
  | widen hwidens => cases hwidens.isPrimitive.1

/-- **The rules compose,** but for Char, which widens to the numeric types and not to Number. -/
theorem trans (hreg : h.IsRegular) (hab : h.StandsFor a b) (hbc : h.StandsFor b c)
    (hchar : ¬ (a = .char ∧ b.isNumeric ∧ c = .number)) : h.StandsFor a c := by
  cases hab with
  | any => exact hbc.eq_any ▸ .any a
  | upward hab =>
    cases hbc with
    | any => exact .any a
    | upward hbc => exact .upward (Relation.ReflTransGen.trans hab hbc)
    | null hc =>
      obtain rfl := eq_of_reaches hreg rfl hab
      exact .null hc
    | widen hbc =>
      obtain rfl := eq_of_reaches hreg (isOpen_of_isPrimitive hbc.isPrimitive.1) hab
      exact .widen hbc
  | null hb =>
    cases hbc with
    | any => exact .any _
    | upward hbc =>
      refine .null ?_
      rcases reaches_iff.1 hbc with rfl | hbelow
      · exact hb
      · exact isPrimitive_of_isOpen (isOpen_of_isBelow hreg hbelow)
    | null hc => exact .null hc
    | widen hbc =>
      rw [hbc.isPrimitive.1] at hb
      cases hb
  | widen hab =>
    obtain ⟨habool, _, r, q, hr, hq, hrq⟩ := id hab
    cases hbc with
    | any => exact .any a
    | upward hbc =>
      rcases reaches_iff.1 hbc with rfl | hbelow
      · exact .widen hab
      · -- above the primitive type `b` there is Any, and Number where `b` is numeric
        rcases eq_of_isBelow_builtin (ne_host_of_rank? hq) hbelow with rfl | ⟨hnumeric, rfl⟩
        · exact .any a
        · have ha : a ≠ .char := fun ha => hchar ⟨ha, hnumeric, rfl⟩
          exact .upward (isBelow_number_of_isNumeric (isNumeric_of_widensTo hab ha)).reaches
    | null => cases hq
    | widen hbc =>
      obtain ⟨_, hcbool, q', p, hq', hp, hqp⟩ := hbc
      obtain rfl := Option.some.inj (hq.symm.trans hq')
      exact .widen ⟨habool, hcbool, r, p, hr, hp, hrq.trans hqp⟩

/-- **Without circles no two types stand for each other.** -/
theorem antisymm (hreg : h.IsRegular) (hacyclic : h.IsAcyclic) (hab : h.StandsFor a b)
    (hba : h.StandsFor b a) : a = b := by
  cases hab with
  | any => exact hba.eq_any
  | upward hab =>
    rcases reaches_iff.1 hab with rfl | hbelow
    · rfl
    cases hba with
    | any => exact (StandsFor.upward hab).eq_any.symm
    | upward hba =>
      rcases reaches_iff.1 hba with rfl | habove
      · rfl
      · exact absurd (Relation.TransGen.trans hbelow habove) (hacyclic a)
    | null => exact eq_of_reaches hreg rfl hab
    | widen hba => exact eq_of_reaches hreg (isOpen_of_isPrimitive hba.isPrimitive.1) hab
  | null hb =>
    cases hba with
    | upward hba => exact (eq_of_reaches hreg rfl hba).symm
    | null => rfl
    | widen hba => cases hba.isPrimitive.2
  | widen hab =>
    cases hba with
    | any => cases hab.isPrimitive.1
    | upward hba =>
      exact (eq_of_reaches hreg (isOpen_of_isPrimitive hab.isPrimitive.1) hba).symm
    | null => cases hab.isPrimitive.2
    | widen hba =>
      obtain ⟨_, _, r, q, hr, hq, hrq⟩ := hab
      obtain ⟨_, _, q', r', hq', hr', hqr⟩ := hba
      obtain rfl := Option.some.inj (hr.symm.trans hr')
      obtain rfl := Option.some.inj (hq.symm.trans hq')
      exact rank?_injective hr (hrq.antisymm hqr ▸ hq)

end StandsFor

/-! ## Assignability -/

theorem isAssignable_self (h : Hierarchy) (t : Ty) : h.isAssignable t t := by simp [isAssignable]

theorem isAssignable_any (h : Hierarchy) (t : Ty) : h.isAssignable t .any := by simp [isAssignable]

theorem standsFor_of_isAssignable (hassign : h.isAssignable t s) : h.StandsFor t s := by
  unfold isAssignable at hassign
  split at hassign
  · rename_i heq
    rcases heq with rfl | rfl
    · exact .upward .refl
    · exact .any t
  rename_i hdiffers
  split at hassign
  · rename_i hnull
    subst hnull
    exact .null (by simpa using hassign)
  split at hassign
  · rename_i r q hr hq
    simp only [Bool.and_eq_true, decide_eq_true_eq] at hassign
    exact .widen ⟨hassign.1.1, hassign.1.2, r, q, hr, hq, hassign.2⟩
  · simp only [Bool.and_eq_true, decide_eq_true_eq] at hassign
    obtain ⟨rfl, hnumeric⟩ := hassign
    exact .upward (isBelow_number_of_isNumeric hnumeric).reaches
  · cases hassign
  · exact .upward (isBelow_of_isAbove hassign fun heq => hdiffers (.inl heq)).reaches

theorem isAssignable_null (hs : s.isPrimitive = false) : h.isAssignable .null s := by
  unfold isAssignable
  split
  · rfl
  · simp [hs]

theorem isAssignable_of_widensTo (hwidens : t.WidensTo s) : h.isAssignable t s := by
  obtain ⟨ht, hs, r, q, hr, hq, hle⟩ := hwidens
  have hnull : t ≠ .null := by
    rintro rfl
    cases hr
  simp [isAssignable, hr, hq, ht, hs, hle, hnull]

theorem isAssignable_of_isAbove (ht : t.rank? = none) (hs : s.rank? = none)
    (habove : h.isAbove t s) : h.isAssignable t s := by
  simp [isAssignable, ht, hs, habove, Ty.isPrimitive]

/-- Where no more types lie above a type than a search opens, the type is assignable to all that it
stands for. -/
theorem isAssignable_of_standsFor (hreg : h.IsRegular) (hfew : h.AboveAtMost searchLimit t)
    (hstands : h.StandsFor t s) : h.isAssignable t s := by
  cases hstands with
  | any => exact isAssignable_any h t
  | null hs => exact isAssignable_null hs
  | widen hwidens => exact isAssignable_of_widensTo hwidens
  | upward hreached =>
    rcases reaches_iff.1 hreached with rfl | hbelow
    · exact isAssignable_self h t
    cases hr : t.rank? with
    | none =>
      have hs := isPrimitive_of_isOpen (isOpen_of_isBelow hreg hbelow)
      exact isAssignable_of_isAbove hr (by simpa [Ty.isPrimitive] using hs)
        ((isAbove_iff hfew).2 hreached)
    | some r =>
      rcases eq_of_isBelow_builtin (ne_host_of_rank? hr) hbelow with rfl | ⟨hnumeric, rfl⟩
      · exact isAssignable_any h t
      · cases t <;> first | rfl | cases hnumeric

theorem isAssignable_iff_standsFor (hreg : h.IsRegular) (hfew : h.AboveAtMost searchLimit t) :
    h.isAssignable t s ↔ h.StandsFor t s :=
  ⟨standsFor_of_isAssignable, isAssignable_of_standsFor hreg hfew⟩

/-- Of types that are neither primitive nor Null, a type stands for Any and those reached from it. -/
theorem standsFor_iff_reaches (ht : t.isPrimitive = false) (hnull : t ≠ .null) :
    h.StandsFor t s ↔ s = .any ∨ h.Reaches t s := by
  constructor
  · intro hstands
    cases hstands with
    | any => exact .inl rfl
    | upward hreached => exact .inr hreached
    | null => exact absurd rfl hnull
    | widen hwidens =>
      rw [hwidens.isPrimitive.1] at ht
      cases ht
  · rintro (rfl | hreached)
    · exact .any t
    · exact .upward hreached

/-- **Assignability is reachability, and composes but for one case.** On a hierarchy of any shape,
circles included, where at most 256 types lie above any one: of types that are neither primitive nor
Null one is assignable to another exactly if this is Any or reached from it; every type is assignable
to itself; and where `a` is assignable to `b` and `b` to `c`, then `a` is assignable to `c`, unless `a`
is Char, `b` is numeric and `c` is Number. -/
theorem isAssignable_reaches_and_composes (hreg : h.IsRegular) (hfew : ∀ t, h.AboveAtMost 256 t) :
    (∀ source target : Ty, source.isPrimitive = false → source ≠ .null →
      target.isPrimitive = false → target ≠ .null →
      (h.isAssignable source target ↔ target = .any ∨ h.Reaches source target)) ∧
    (∀ t, h.isAssignable t t) ∧
    ∀ a b c : Ty, (h.isAssignable a b ∧ h.isAssignable b c ∧ ¬ h.isAssignable a c) ↔
      a = .char ∧ (b = .int ∨ b = .long ∨ b = .double) ∧ c = .number := by
  have hiff : ∀ {t s : Ty}, h.isAssignable t s ↔ h.StandsFor t s := fun {t _} =>
    isAssignable_iff_standsFor hreg (hfew t)
  refine ⟨fun source target hsource hnull _ _ => ?_, isAssignable_self h, fun a b c => ?_⟩
  · exact hiff.trans (standsFor_iff_reaches hsource hnull)
  constructor
  · rintro ⟨hab, hbc, hac⟩
    by_contra hchar
    refine hac (hiff.2 ((hiff.1 hab).trans hreg (hiff.1 hbc) ?_))
    rintro ⟨ha, hb, hc⟩
    refine hchar ⟨ha, ?_, hc⟩
    cases b <;> first | exact .inl rfl | exact .inr (.inl rfl) | exact .inr (.inr rfl) | cases hb
  · rintro ⟨rfl, rfl | rfl | rfl, rfl⟩ <;> exact ⟨rfl, rfl, Bool.false_ne_true⟩

/-- A circle of two types, one of which is a Number and has a type below it. -/
theorem isAssignable_reaches_and_composes_of_circle :
    let h : Hierarchy :=
      ⟨[⟨"Ratio", [.host 1, .number]⟩, ⟨"Exact", [.host 0]⟩, ⟨"Half", [.host 1]⟩]⟩
    h.IsRegular ∧ (∀ t, h.AboveAtMost 256 t) ∧ h.Reaches (.host 2) .number ∧
      h.isAssignable (.host 2) .number ∧ ¬ h.isAssignable .char .number := by
  intro h
  have hreg : h.IsRegular := by decide
  have hfew : ∀ t, h.AboveAtMost 256 t := fun _ => aboveAtMost_of_length (by decide)
  obtain ⟨hreaches, _, hcomposes⟩ := isAssignable_reaches_and_composes hreg hfew
  have hreached : h.Reaches (.host 2) .number := by
    refine .head (b := .host 1) ?_ (.head (b := .host 0) ?_ (.single ?_)) <;>
      simp [Above, supertypes, h]
  exact ⟨hreg, hfew, hreached,
    (hreaches _ _ rfl (by decide) rfl (by decide)).2 (.inr hreached),
    ((hcomposes .char .int .number).2 ⟨rfl, .inl rfl, rfl⟩).2.2⟩

end Hierarchy

end Multimethod
