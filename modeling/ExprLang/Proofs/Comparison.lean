import ExprLang.Value.Operation
import Mathlib.Tactic.ByContra

/-! # Comparisons and equality

The four comparisons of two values and their equality are computed each for itself, and yet they
fit together (`Value.comparisons_coherent`): either no comparison has a result or all of them have,
and then exactly one of before, equal and behind is true, unless a number is `nan`, where all is
false.

All of it comes from what `Value.compare` says of two values of a kind that has an order
(`Value.Comparable.compare_eq`).  For numbers these are the places on the line of units, which two
numbers share only if they are the same or both zero (`Number.eqv_iff`). -/

namespace ExprLang

open Std

/-- Twice the same order in a row is that order again. -/
theorem trans_compare {α : Type} [Ord α] [TransOrd α] {a b c : α} {o : Ordering}
    (hab : Ord.compare a b = o) (hbc : Ord.compare b c = o) : Ord.compare a c = o := by
  cases o with
  | lt => exact TransCmp.lt_trans hab hbc
  | eq => exact TransCmp.eq_trans hab hbc
  | gt => exact TransCmp.gt_trans hab hbc

namespace Number

variable {x y z : Number}

/-! ### Places of numbers -/

theorem position?_eq_none : x.position? = none ↔ x = .nan := by
  cases x <;> simp [position?]

/-- Infinities lie beyond every magnitude. -/
theorem units_lt_beyond (m : Magnitude) : m.units < beyond := by
  refine Nat.lt_of_lt_of_eq ?_ (Nat.one_shiftLeft 2098).symm
  by_cases h : m.units = 0
  · rw [h]
    exact Nat.two_pow_pos 2098
  · have hlog := m.representable.1
    rwa [Nat.log2_lt h] at hlog

theorem isZero_finite {s : Bool} {m : Magnitude} : (finite s m).isZero = true ↔ m.units = 0 := by
  cases s <;> simp [isZero, position?, signedUnits]

/-- Only the two zeros share a place. -/
theorem position?_inj {i : Int} (hx : x.position? = some i) (hy : y.position? = some i) :
    x = y ∨ (x.isZero = true ∧ y.isZero = true) := by
  cases x with
  | nan => cases hx
  | infinite s =>
      have hi : i.natAbs = beyond := by
        cases hx
        cases s <;> simp
      cases y with
      | nan => cases hy
      | infinite t =>
          have hpos : 0 < beyond := Nat.zero_lt_of_lt (units_lt_beyond .zero)
          refine .inl (congrArg infinite ?_)
          cases hx
          cases s <;> cases t <;> simp [position?] at hy ⊢ <;> omega
      | finite t m =>
          have hlt := units_lt_beyond m
          cases hy
          cases t <;> simp [signedUnits] at hi <;> omega
  | finite s m =>
      cases y with
      | nan => cases hy
      | infinite t =>
          have hlt := units_lt_beyond m
          cases hx
          cases s <;> cases t <;> simp [position?, signedUnits] at hy <;> omega
      | finite t n =>
          rw [isZero_finite, isZero_finite, finite.injEq]
          cases hx
          have hplaces : signedUnits t n = signedUnits s m := Option.some.inj hy
          have hunits : n.units = m.units ∧ (s = t ∨ m.units = 0) := by
            cases s <;> cases t <;> simp [signedUnits] at hplaces ⊢ <;> omega
          obtain ⟨hn, rfl | hzero⟩ := hunits
          · exact .inl ⟨rfl, Magnitude.ext hn.symm⟩
          · exact .inr ⟨hzero, hn.trans hzero⟩

/-! ### The order of numbers -/

theorem compare?_eq_none : x.compare? y = none ↔ x = .nan ∨ y = .nan := by
  rw [← position?_eq_none (x := x), ← position?_eq_none (x := y)]
  unfold compare?
  cases x.position? <;> cases y.position? <;> simp

theorem compare?_eq_some {o : Ordering} : x.compare? y = some o ↔
    ∃ i j, x.position? = some i ∧ y.position? = some j ∧ compare i j = o := by
  unfold compare?
  cases x.position? <;> cases y.position? <;> simp

theorem compare?_swap (x y : Number) : y.compare? x = (x.compare? y).map Ordering.swap := by
  unfold compare?
  cases x.position? with
  | none => cases y.position? <;> rfl
  | some i =>
      cases y.position? with
      | none => rfl
      | some j => exact congrArg some OrientedCmp.eq_swap

theorem compare?_trans {o : Ordering} (hxy : x.compare? y = some o) (hyz : y.compare? z = some o) :
    x.compare? z = some o := by
  obtain ⟨i, j, hx, hy, hij⟩ := compare?_eq_some.mp hxy
  obtain ⟨j', k, hy', hz, hjk⟩ := compare?_eq_some.mp hyz
  obtain rfl : j = j' := Option.some.inj (hy.symm.trans hy')
  exact compare?_eq_some.mpr ⟨i, k, hx, hz, trans_compare hij hjk⟩

/-- **Equality of numbers.**  Numbers are equal if they are the same and not `nan`, or both are
zero. -/
theorem eqv_iff : x.eqv y = true ↔ (x = y ∧ x ≠ .nan) ∨ (x.isZero = true ∧ y.isZero = true) := by
  rw [eqv, beq_iff_eq, compare?_eq_some]
  constructor
  · rintro ⟨i, j, hx, hy, hij⟩
    obtain rfl : i = j := LawfulEqCmp.eq_of_compare hij
    rcases position?_inj hx hy with rfl | hzeros
    · refine .inl ⟨rfl, ?_⟩
      rintro rfl
      cases hx
    · exact .inr hzeros
  · rintro (⟨rfl, hne⟩ | ⟨hx, hy⟩)
    · obtain ⟨i, hi⟩ := Option.ne_none_iff_exists'.mp (mt position?_eq_none.mp hne)
      exact ⟨i, i, hi, hi, ReflCmp.compare_self⟩
    · exact ⟨0, 0, eq_of_beq hx, eq_of_beq hy, ReflCmp.compare_self⟩

end Number

namespace Value

/-! ### Values that can be compared -/

/-- The value is the number that is none. -/
def IsNan (a : Value) : Prop := a = .number .nan

/-- The values are of one kind, and of one that has an order. -/
inductive Comparable : Value → Value → Prop
  | numbers (x y : Number) : Comparable (.number x) (.number y)
  | strings (s t : String) : Comparable (.string s) (.string t)
  | booleans (p q : Bool) : Comparable (.boolean p) (.boolean q)

variable {a b c : Value}

theorem Comparable.symm (h : Comparable a b) : Comparable b a := by
  cases h with
  | numbers x y => exact .numbers y x
  | strings s t => exact .strings t s
  | booleans p q => exact .booleans q p

theorem compare_of_not_comparable (h : ¬Comparable a b) :
    a.compare b = .error (.nonComparable a b) := by
  unfold compare
  split
  · exact absurd (.numbers _ _) h
  · exact absurd (.strings _ _) h
  · exact absurd (.booleans _ _) h
  · rfl

/-- What the order of two values has to do with their order the other way round, with equality and
with `nan`. -/
theorem Comparable.compare_eq (h : Comparable a b) : ∃ o : Option Ordering,
    a.compare b = .ok o ∧ b.compare a = .ok (o.map Ordering.swap) ∧
      (a.isEqual b = true ↔ o = some .eq) ∧ (o = none ↔ a.IsNan ∨ b.IsNan) := by
  cases h with
  | numbers x y =>
      refine ⟨x.compare? y, rfl, congrArg Except.ok (Number.compare?_swap x y), beq_iff_eq, ?_⟩
      rw [Number.compare?_eq_none, IsNan, IsNan, number.injEq, number.injEq]
  | strings s t =>
      refine ⟨some (Ord.compare s t), rfl, ?_, ?_, by simp [IsNan]⟩
      · exact congrArg (Except.ok <| some ·) OrientedCmp.eq_swap
      · rw [Option.some.injEq, LawfulEqCmp.compare_eq_iff_eq]
        exact decide_eq_true_iff
  | booleans p q =>
      refine ⟨some (Ord.compare p q), rfl, ?_, ?_, by simp [IsNan]⟩
      · exact congrArg (Except.ok <| some ·) OrientedCmp.eq_swap
      · rw [Option.some.injEq, LawfulEqCmp.compare_eq_iff_eq]
        exact decide_eq_true_iff

theorem Comparable.of_compare_eq_ok {o : Option Ordering} (h : a.compare b = .ok o) :
    Comparable a b := by
  by_contra hnot
  rw [compare_of_not_comparable hnot] at h
  cases h

theorem compare_trans {o : Ordering} (hab : a.compare b = .ok (some o))
    (hbc : b.compare c = .ok (some o)) : a.compare c = .ok (some o) := by
  have hcomparable := Comparable.of_compare_eq_ok hbc
  cases Comparable.of_compare_eq_ok hab with
  | numbers x y =>
      cases hcomparable with
      | numbers y z =>
          have hxz := Number.compare?_trans (Except.ok.inj hab) (Except.ok.inj hbc)
          exact congrArg Except.ok hxz
  | strings s t =>
      cases hcomparable with
      | strings t u =>
          have hsu := trans_compare (Option.some.inj <| Except.ok.inj hab)
            (Option.some.inj <| Except.ok.inj hbc)
          exact congrArg (Except.ok <| some ·) hsu
  | booleans p q =>
      cases hcomparable with
      | booleans q r =>
          have hpr := trans_compare (Option.some.inj <| Except.ok.inj hab)
            (Option.some.inj <| Except.ok.inj hbc)
          exact congrArg (Except.ok <| some ·) hpr

/-! ### The four comparisons -/

/-- None of the four comparisons has a result. -/
structure Incomparable (a b : Value) : Prop where
  less : a.less b = .error (.nonComparable a b)
  lessEqual : a.lessEqual b = .error (.nonComparable a b)
  greater : a.greater b = .error (.nonComparable a b)
  greaterEqual : a.greaterEqual b = .error (.nonComparable a b)

/-- The truth values of the four comparisons. -/
structure Compares (a b : Value) (lt le gt ge : Bool) : Prop where
  less : a.less b = .ok (.boolean lt)
  lessEqual : a.lessEqual b = .ok (.boolean le)
  greater : a.greater b = .ok (.boolean gt)
  greaterEqual : a.greaterEqual b = .ok (.boolean ge)

theorem incomparable_of_not_comparable (h : ¬Comparable a b) : Incomparable a b := by
  have hall : ∀ orders, compareIs orders a b = .error (.nonComparable a b) := by
    intro orders
    rw [compareIs, compare_of_not_comparable h]
    rfl
  exact ⟨hall _, hall _, hall _, hall _⟩

theorem compares_of_compare {o : Option Ordering} (h : a.compare b = .ok o) :
    Compares a b (o.any [.lt].contains) (o.any [.lt, .eq].contains) (o.any [.gt].contains)
      (o.any [.gt, .eq].contains) := by
  have hall : ∀ orders, compareIs orders a b = .ok (.boolean (o.any orders.contains)) := by
    intro orders
    rw [compareIs, h]
    rfl
  exact ⟨hall _, hall _, hall _, hall _⟩

theorem Compares.unique {lt le gt ge lt' le' gt' ge' : Bool} (h : Compares a b lt le gt ge)
    (h' : Compares a b lt' le' gt' ge') : lt = lt' ∧ le = le' ∧ gt = gt' ∧ ge = ge' := by
  have hinj : ∀ {p q : Bool} {r : Except EvalError Value},
      r = .ok (.boolean p) → r = .ok (.boolean q) → p = q := by
    intro p q r hp hq
    rw [hp] at hq
    cases hq
    rfl
  exact ⟨hinj h.less h'.less, hinj h.lessEqual h'.lessEqual, hinj h.greater h'.greater,
    hinj h.greaterEqual h'.greaterEqual⟩

/-- The truth values of the four comparisons fit together, and to equality. -/
structure Coherent (a b : Value) (lt le gt ge : Bool) : Prop where
  le_iff : le = true ↔ lt = true ∨ a.isEqual b = true
  ge_iff : ge = true ↔ gt = true ∨ a.isEqual b = true
  gt_iff : gt = true ↔ b.less a = .ok (.boolean true)
  /-- At most one of before, equal and behind. -/
  at_most : ¬(lt = true ∧ a.isEqual b = true) ∧ ¬(lt = true ∧ gt = true) ∧
    ¬(a.isEqual b = true ∧ gt = true)
  /-- At least one of them. -/
  at_least : ¬a.IsNan → ¬b.IsNan → lt = true ∨ a.isEqual b = true ∨ gt = true
  /-- There is no order to `nan`. -/
  nan : a.IsNan ∨ b.IsNan →
    lt = false ∧ le = false ∧ gt = false ∧ ge = false ∧ a.isEqual b = false

theorem Compares.coherent {lt le gt ge : Bool} (h : Compares a b lt le gt ge) :
    Coherent a b lt le gt ge := by
  have hcomparable : Comparable a b := by
    by_contra hnot
    have hless := h.less
    rw [(incomparable_of_not_comparable hnot).less] at hless
    cases hless
  obtain ⟨o, hab, hba, hequal, hnan⟩ := hcomparable.compare_eq
  obtain ⟨rfl, rfl, rfl, rfl⟩ := h.unique (compares_of_compare hab)
  have hless := (compares_of_compare hba).less
  rw [Option.any_map] at hless
  -- The rest is checked for each of the three orders, and for none.
  refine ⟨?_, ?_, ?_, ?_, fun ha hb => ?_, fun hab => ?_⟩
  · rw [hequal]
    rcases o with _ | _ | _ | _ <;> decide
  · rw [hequal]
    rcases o with _ | _ | _ | _ <;> decide
  · rw [hless]
    rcases o with _ | _ | _ | _ <;> simp
  · rw [hequal]
    rcases o with _ | _ | _ | _ <;> decide
  · have hsome : o ≠ none := mt hnan.mp (not_or.mpr ⟨ha, hb⟩)
    rw [hequal]
    rcases o with _ | _ | _ | _
    · exact absurd rfl hsome
    all_goals decide
  · obtain rfl := hnan.mpr hab
    refine ⟨rfl, rfl, rfl, rfl, Bool.eq_false_iff.mpr fun h => ?_⟩
    cases hequal.mp h

theorem less_eq_true : a.less b = .ok (.boolean true) ↔ a.compare b = .ok (some .lt) := by
  unfold less compareIs
  cases a.compare b with
  | error e => simp [Except.map]
  | ok o => rcases o with _ | _ | _ | _ <;> simp [Except.map]

theorem less_trans (hab : a.less b = .ok (.boolean true)) (hbc : b.less c = .ok (.boolean true)) :
    a.less c = .ok (.boolean true) := by
  rw [less_eq_true] at hab hbc ⊢
  exact compare_trans hab hbc

/-! ### Equality -/

/-- The values are the same: numbers but for `nan`, strings and truth values as what they are, where
both zeros count as one, and functions as what was made at one moment. -/
inductive Same : Value → Value → Prop
  | number {x} : x ≠ .nan → Same (.number x) (.number x)
  | zeros {x y} : x.isZero = true → y.isZero = true → Same (.number x) (.number y)
  | string {s} : Same (.string s) (.string s)
  | boolean {p} : Same (.boolean p) (.boolean p)
  | function {f g} : f.id = g.id → Same (.function f) (.function g)
  | undefined : Same .undefined .undefined

theorem isEqual_iff : a.isEqual b = true ↔ Same a b := by
  constructor
  · intro h
    unfold isEqual at h
    split at h
    · rcases Number.eqv_iff.mp h with ⟨rfl, hne⟩ | ⟨hx, hy⟩
      · exact .number hne
      · exact .zeros hx hy
    · obtain rfl := of_decide_eq_true h
      exact .string
    · obtain rfl := of_decide_eq_true h
      exact .boolean
    · exact .function (of_decide_eq_true h)
    · exact .undefined
    · cases h
  · intro h
    cases h with
    | number hne => exact Number.eqv_iff.mpr (.inl ⟨rfl, hne⟩)
    | zeros hx hy => exact Number.eqv_iff.mpr (.inr ⟨hx, hy⟩)
    | string => exact decide_eq_true rfl
    | boolean => exact decide_eq_true rfl
    | function hid => exact decide_eq_true hid
    | undefined => rfl

theorem Same.symm (h : Same a b) : Same b a := by
  cases h with
  | number hne => exact .number hne
  | zeros hx hy => exact .zeros hy hx
  | string => exact .string
  | boolean => exact .boolean
  | function hid => exact .function hid.symm
  | undefined => exact .undefined

theorem Same.trans (h : Same a b) (h' : Same b c) : Same a c := by
  cases h with
  | number => exact h'
  | zeros hx =>
      cases h' with
      | number => exact .zeros hx ‹_›
      | zeros _ hz => exact .zeros hx hz
  | string => exact h'
  | boolean => exact h'
  | function hid =>
      cases h' with
      | function hid' => exact .function (hid.trans hid')
  | undefined => exact h'

theorem same_self : Same a a ↔ ¬a.IsNan := by
  constructor
  · rintro h rfl
    cases h with
    | number hne => exact hne rfl
    | zeros hzero => cases hzero
  · intro hne
    cases a with
    | number x => exact .number fun hx => hne (congrArg Value.number hx)
    | string s => exact .string
    | boolean p => exact .boolean
    | function f => exact .function rfl
    | undefined => exact .undefined

/-- **Comparisons and equality are coherent.**  Of two values either no comparison has a result,
whichever of them comes first, or all four have one; then they fit together and to equality.  What
lies before a value lies before all that the value lies before.  Equality is that of `Same`, which
is symmetric and transitive and holds of every value and itself but of `nan`. -/
theorem comparisons_coherent (a b c : Value) :
    ((Incomparable a b ∧ Incomparable b a) ∨
      ((∃ lt le gt ge, Compares a b lt le gt ge) ∧ ∃ lt le gt ge, Compares b a lt le gt ge)) ∧
    (∀ {lt le gt ge}, Compares a b lt le gt ge → Coherent a b lt le gt ge) ∧
    (a.less b = .ok (.boolean true) → b.less c = .ok (.boolean true) →
      a.less c = .ok (.boolean true)) ∧
    (a.isEqual b = true ↔ Same a b) ∧ a.isEqual b = b.isEqual a ∧
    (a.isEqual b = true → b.isEqual c = true → a.isEqual c = true) ∧
    (a.isEqual a = true ↔ ¬a.IsNan) ∧ a.isNotEqual b = !a.isEqual b := by
  refine ⟨?_, fun h => h.coherent, less_trans, isEqual_iff, ?_, ?_,
    isEqual_iff.trans same_self, rfl⟩
  · by_cases h : Comparable a b
    · obtain ⟨o, hab, hba, -⟩ := h.compare_eq
      exact .inr ⟨⟨_, _, _, _, compares_of_compare hab⟩, _, _, _, _, compares_of_compare hba⟩
    · exact .inl ⟨incomparable_of_not_comparable h,
        incomparable_of_not_comparable (mt Comparable.symm h)⟩
  · rw [Bool.eq_iff_iff, isEqual_iff, isEqual_iff]
    exact ⟨Same.symm, Same.symm⟩
  · intro hab hbc
    rw [isEqual_iff] at hab hbc ⊢
    exact hab.trans hbc

/-- The two zeros, `nan` with itself, and a text that begins another one. -/
theorem comparisons_coherent_zeros :
    let minusZero : Value := .number (.finite true .zero)
    let zero : Value := .number .zero
    let nan : Value := .number .nan
    (Compares minusZero zero false true false true ∧ minusZero.isEqual zero = true ∧
      Coherent minusZero zero false true false true) ∧
    (Compares nan nan false false false false ∧ Coherent nan nan false false false false ∧
      ¬nan.isEqual nan = true) ∧
    (string "a").less (string "ab") = .ok (.boolean true) ∧
    (string "ab").less (string "b") = .ok (.boolean true) ∧
    (string "a").less (string "b") = .ok (.boolean true) := by
  intro minusZero zero nan
  have hzeros : Compares minusZero zero false true false true := ⟨rfl, rfl, rfl, rfl⟩
  have hnan : Compares nan nan false false false false := ⟨rfl, rfl, rfl, rfl⟩
  have hless : ∀ {s t : String}, Ord.compare s t = .lt →
      (string s).less (string t) = .ok (.boolean true) :=
    fun h => less_eq_true.mpr (congrArg (Except.ok <| some ·) h)
  have hab := hless (s := "a") (t := "ab") (by decide +kernel)
  have hbc := hless (s := "ab") (t := "b") (by decide +kernel)
  obtain ⟨-, hfit, -⟩ := comparisons_coherent minusZero zero nan
  obtain ⟨-, hfitNan, -, -, -, -, hself, -⟩ := comparisons_coherent nan nan nan
  obtain ⟨-, -, htrans, -⟩ := comparisons_coherent (string "a") (string "ab") (string "b")
  exact ⟨⟨hzeros, rfl, hfit hzeros⟩, ⟨hnan, hfitNan hnan, fun h => hself.mp h rfl⟩, hab, hbc,
    htrans hab hbc⟩

end Value

end ExprLang
