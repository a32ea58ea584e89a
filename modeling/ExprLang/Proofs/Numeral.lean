import ExprLang.Number.Text
import Mathlib.Data.List.TakeWhile

/-! # Numerals

A numeral is digits with at most one point behind the first of them.  `Numeral` says which decimal
it denotes, and `Numeral.ofText?` that the number read from it is the nearest one to this
decimal.

A finite number without a minus sign is displayed as a numeral, and what is read from that is the
number itself (`Number.ofText?_display`).  The two halves are `Magnitude.ofDecimal?_shortest`, that
the shortest decimal reads back, and `Number.Layout.numeral_digits`, that setting it out changes
nothing that reading could notice. -/

namespace ExprLang

/-- Digits with at most one point behind the first of them, and the decimal they denote. -/
inductive Numeral : List Char → Decimal → Prop
  | whole {digits} :
      digits ≠ [] → (∀ c ∈ digits, c.isDigit) → Numeral digits ⟨Nat.ofDigitChars 10 digits 0, 0⟩
  | point {whole fraction} :
      whole ≠ [] → (∀ c ∈ whole, c.isDigit) → (∀ c ∈ fraction, c.isDigit) →
      Numeral (whole ++ '.' :: fraction)
        ⟨Nat.ofDigitChars 10 (whole ++ fraction) 0, -fraction.length⟩

/-! ### Reading numerals -/

theorem toLower_of_isDigit {c : Char} (h : c.isDigit) : c.toLower = c := by
  have hupper : ¬(c.val ≥ 'A'.val ∧ c.val ≤ 'Z'.val) := by
    simp only [Char.isDigit, Bool.and_eq_true, decide_eq_true_eq] at h
    intro hc
    exact absurd (UInt32.le_trans hc.1 h.2) (by decide)
  exact dif_neg hupper

/-- A text that begins with a digit has no sign and is no word. -/
theorem Number.ofText?_of_isDigit {c : Char} (cs : List Char) (hc : c.isDigit) :
    ofText? (String.ofList (c :: cs)) = (decimal? (c :: cs)).map (ofDecimal false) := by
  have hsign : splitSign (c :: cs) = (false, c :: cs) := by
    unfold splitSign
    split
    · next h => cases h; cases hc
    · next h => cases h; cases hc
    · rfl
  -- None of the three words begins with a digit.
  have hword : ∀ {d : Char} {word : List Char}, d.isDigit = false →
      String.ofList ((c :: cs).map Char.toLower) ≠ String.ofList (d :: word) := by
    intro d word hd h
    rw [String.ofList_inj, List.map_cons, toLower_of_isDigit hc] at h
    rw [(List.cons.inj h).1, hd] at hc
    cases hc
  unfold ofText?
  rw [String.toList_ofList, hsign]
  dsimp only
  split
  · next h => exact absurd h (hword (d := 'i') rfl)
  · next h => exact absurd h (hword (d := 'i') rfl)
  · next h => exact absurd h (hword (d := 'n') rfl)
  · rfl

theorem Numeral.head_isDigit {c : Char} {cs : List Char} {d : Decimal}
    (h : Numeral (c :: cs) d) : c.isDigit := by
  generalize htext : c :: cs = text at h
  cases h with
  | whole _ hdigits => exact hdigits c (by simp [← htext])
  | @point whole fraction hne hwhole =>
      cases whole with
      | nil => exact absurd rfl hne
      | cons w ws =>
          rw [(List.cons.inj htext).1]
          exact hwhole w (by simp)

theorem Numeral.ne_nil {text : List Char} {d : Decimal} (h : Numeral text d) : text ≠ [] := by
  cases h with
  | whole hne => exact hne
  | point => simp

theorem Numeral.decimal? {text : List Char} {d : Decimal} (h : Numeral text d) :
    Number.decimal? text = some d := by
  cases h with
  | whole hne hdigits =>
      have htake := List.takeWhile_eq_self_iff.mpr hdigits
      have hdrop := List.dropWhile_eq_nil_iff.mpr hdigits
      simp [Number.decimal?, htake, hdrop, Number.splitFraction, Number.exponent?, hne]
  | @point whole fraction hne hwhole hfraction =>
      have htake : (whole ++ '.' :: fraction).takeWhile Char.isDigit = whole := by
        rw [List.takeWhile_append_of_pos hwhole]
        simp
      have hdrop : (whole ++ '.' :: fraction).dropWhile Char.isDigit = '.' :: fraction := by
        rw [List.dropWhile_append_of_pos hwhole]
        simp
      have hftake := List.takeWhile_eq_self_iff.mpr hfraction
      have hfdrop := List.dropWhile_eq_nil_iff.mpr hfraction
      simp [Number.decimal?, htake, hdrop, Number.splitFraction, hftake, hfdrop,
        Number.exponent?, hne]

theorem Numeral.ofText? {text : List Char} {d : Decimal} (h : Numeral text d) :
    Number.ofText? (String.ofList text) = some (.ofDecimal false d) := by
  cases text with
  | nil => exact absurd rfl h.ne_nil
  | cons c cs => rw [Number.ofText?_of_isDigit cs h.head_isDigit, h.decimal?, Option.map_some]

/-! ### The shortest decimal reads back -/

namespace Magnitude

theorem roundDiv_mul {d : Nat} (hd : 0 < d) (q : Nat) : roundDiv (q * d) d = q := by
  have hdiv : q * d / d = q := Nat.mul_div_cancel q hd
  have hmod : q * d % d = 0 := Nat.mul_mod_left q d
  unfold roundDiv
  simp only [hdiv, hmod]
  rw [if_neg]
  omega

/-- A quotient that is a magnitude is not changed by rounding. -/
theorem round?_units_mul (m : Magnitude) {d : Nat} (hd : 0 < d) :
    round? (m.units * d) d = some m := by
  have hdiv : m.units * d / d = m.units := Nat.mul_div_cancel m.units hd
  have hspacing : 0 < spacing m.units := by
    rw [spacing, Nat.one_shiftLeft]
    exact Nat.two_pow_pos _
  have hround : roundUnits (m.units * d) d = m.units := by
    obtain ⟨q, hq⟩ := m.representable.2
    simp only [roundUnits, hdiv]
    have hmul : m.units * d = q * (d * spacing m.units) := by
      calc m.units * d = spacing m.units * q * d := by rw [← hq]
        _ = q * (d * spacing m.units) := by
            rw [Nat.mul_comm (spacing m.units) q, Nat.mul_assoc, Nat.mul_comm (spacing m.units) d]
    rw [hmul, roundDiv_mul (Nat.mul_pos hd hspacing), Nat.mul_comm, ← hq]
  have hlog : (roundUnits (m.units * d) d).log2 < 2098 := by
    rw [hround]
    exact m.representable.1
  unfold round?
  rw [dif_pos hlog]
  exact congrArg some (Magnitude.ext hround)

theorem two_pow_le_five_pow (k n : Nat) (h : k ≤ n) : Nat.pow 2 k ≤ Nat.pow 5 n :=
  Nat.le_trans (Nat.pow_le_pow_right (by decide) h) (Nat.pow_le_pow_left (by decide) n)

theorem five_pow_mul_shiftLeft (n : Nat) : Nat.pow 5 n * 1 <<< n = Nat.pow 10 n := by
  rw [Nat.one_shiftLeft]
  exact (Nat.mul_pow 5 2 n).symm

/-! The exponents are variables here, so that no such power is ever computed. -/

theorem decimalUnit_eq {n : Nat} (hn : 1074 = n) : decimalUnit = Nat.pow 5 n := by
  unfold decimalUnit
  rw [hn]

theorem two_pow_le_decimalUnit {k : Nat} (hk : k ≤ 1074) : Nat.pow 2 k ≤ decimalUnit := by
  obtain ⟨n, hn⟩ : ∃ n, 1074 = n := ⟨_, rfl⟩
  rw [decimalUnit_eq hn]
  exact two_pow_le_five_pow k n (hn ▸ hk)

theorem decimalUnit_mul_one {n : Nat} (hn : 1074 = n) : decimalUnit * one = Nat.pow 10 n := by
  rw [decimalUnit_eq hn]
  unfold one
  rw [hn, five_pow_mul_shiftLeft]

theorem not_isTiny_exact {m : Magnitude} (h : m.units ≠ 0) : m.exact.isTiny = false := by
  obtain ⟨k, hk⟩ : ∃ k, 674 = k := ⟨_, rfl⟩
  have hunit : Nat.pow 2 k ≤ m.units * decimalUnit := by
    have hle : Nat.pow 2 k ≤ decimalUnit := two_pow_le_decimalUnit (by omega)
    exact Nat.le_trans hle (Nat.le_mul_of_pos_left _ (Nat.pos_of_ne_zero h))
  have hne : m.units * decimalUnit ≠ 0 :=
    Nat.ne_of_gt (Nat.lt_of_lt_of_le (Nat.two_pow_pos k) hunit)
  have hlog : k ≤ (m.units * decimalUnit).log2 := (Nat.le_log2 hne).mpr hunit
  unfold Decimal.isTiny
  rw [Bool.or_eq_false_iff, beq_eq_false_iff_ne, decide_eq_false_iff_not]
  simp only [exact]
  constructor
  · exact hne
  · omega

theorem ofDecimal?_negSucc {c e n : Nat} (h : Decimal.isTiny ⟨c, .negSucc e⟩ = false)
    (hn : e + 1 = n) : ofDecimal? ⟨c, .negSucc e⟩ = round? (c * one) (Nat.pow 10 n) := by
  have hle : Int.negSucc e ≤ 400 := by omega
  have hhuge : Decimal.isHuge ⟨c, .negSucc e⟩ = false :=
    decide_eq_false (Int.not_lt.mpr hle)
  unfold ofDecimal?
  rw [h, hhuge, ← hn]
  simp only [Bool.false_eq_true, if_false]

theorem ofDecimal?_exact {m : Magnitude} (h : m.units ≠ 0) : ofDecimal? m.exact = some m := by
  obtain ⟨n, hn⟩ : ∃ n, 1074 = n := ⟨_, rfl⟩
  calc ofDecimal? m.exact
    _ = round? (m.units * decimalUnit * one) (Nat.pow 10 n) :=
        ofDecimal?_negSucc (not_isTiny_exact h) hn
    _ = round? (m.units * Nat.pow 10 n) (Nat.pow 10 n) := by
        rw [Nat.mul_assoc, decimalUnit_mul_one hn]
    _ = some m := round?_units_mul m (Nat.pow_pos (by decide))

theorem ofDecimal?_neighbour {m : Magnitude} {scale : Nat} {d : Decimal}
    (h : m.neighbour? scale = some d) : ofDecimal? d = some m := by
  simp only [neighbour?] at h
  split at h
  · next hbelow =>
      split at h
      · next habove => exact Option.some.inj h ▸ habove.1
      · exact Option.some.inj h ▸ hbelow
  · split at h
    · next habove => exact Option.some.inj h ▸ habove
    · cases h

theorem ofDecimal?_shortestFrom {m : Magnitude} (h : m.units ≠ 0) (scale : Nat) :
    ofDecimal? (m.shortestFrom scale) = some m := by
  induction scale with
  | zero => exact ofDecimal?_exact h
  | succ scale ih =>
      rw [shortestFrom]
      cases hneighbour : m.neighbour? (scale + 1) with
      | none => exact ih
      | some d => exact ofDecimal?_neighbour hneighbour

theorem ofDecimal?_shortest (m : Magnitude) : ofDecimal? m.shortest = some m := by
  unfold shortest
  split
  · next hzero => exact congrArg some (Magnitude.ext hzero.symm)
  · next h => exact ofDecimal?_shortestFrom h _

end Magnitude

/-! ### Setting a decimal out -/

namespace Number.Layout

theorem isDigit_zeros {k : Nat} : ∀ c ∈ List.replicate k '0', c.isDigit := by
  intro c hc
  rw [List.eq_of_mem_replicate hc]
  rfl

theorem isDigit_digits {d : Decimal} : ∀ c ∈ d.digits, c.isDigit := by
  intro c hc
  exact Nat.isDigit_of_mem_toDigits (by decide) (by decide) hc

theorem digits_ne_nil {d : Decimal} : d.digits ≠ [] := Nat.toDigits_ne_nil

theorem ofDigitChars_digits (d : Decimal) : Nat.ofDigitChars 10 d.digits 0 = d.coefficient :=
  Nat.ofDigitChars_ten_toDigits

theorem ofDecimal?_zero (e : Nat) : Magnitude.ofDecimal? ⟨0, .ofNat e⟩ = some .zero := by
  have htiny : Decimal.isTiny ⟨0, .ofNat e⟩ = true := by simp [Decimal.isTiny]
  unfold Magnitude.ofDecimal?
  rw [htiny, if_pos rfl]

theorem ofDecimal?_ofNat {c : Nat} (hc : c ≠ 0) (e : Nat) :
    Magnitude.ofDecimal? ⟨c, .ofNat e⟩ =
      if 400 < e then none else Magnitude.round? (c * Nat.pow 10 e * Magnitude.one) 1 := by
  have htiny : Decimal.isTiny ⟨c, .ofNat e⟩ = false := by
    unfold Decimal.isTiny
    rw [Bool.or_eq_false_iff, beq_eq_false_iff_ne, decide_eq_false_iff_not]
    simp only [Int.ofNat_eq_natCast]
    constructor
    · exact hc
    · omega
  have hhuge : Decimal.isHuge ⟨c, .ofNat e⟩ = decide (400 < e) :=
    decide_eq_decide.mpr Int.ofNat_lt
  unfold Magnitude.ofDecimal?
  rw [htiny, hhuge]
  simp only [Bool.false_eq_true, if_false, decide_eq_true_eq]

/-- Zeros behind a decimal stand for its power of ten. -/
theorem ofDecimal?_zeros {c e : Nat} {m : Magnitude}
    (h : Magnitude.ofDecimal? ⟨c, .ofNat e⟩ = some m) :
    Magnitude.ofDecimal? ⟨Nat.pow 10 e * c, .ofNat 0⟩ = some m := by
  rcases Nat.eq_zero_or_pos c with rfl | hpos
  · rw [Nat.mul_zero, ofDecimal?_zero]
    rwa [ofDecimal?_zero] at h
  · have hprod : 0 < Nat.pow 10 e * c := Nat.mul_pos (Nat.pow_pos (by decide)) hpos
    rw [ofDecimal?_ofNat (Nat.ne_of_gt hpos)] at h
    rw [ofDecimal?_ofNat (Nat.ne_of_gt hprod), if_neg (by decide)]
    split at h
    · cases h
    · rw [← h, Nat.mul_comm (Nat.pow 10 e) c]
      exact congrArg (Magnitude.round? · 1) (congrArg (· * Magnitude.one) (Nat.mul_one _))

section setting

variable {d : Decimal} {m : Magnitude}

/-- The point stands before all digits. -/
theorem numeral_before (hpoint : d.point ≤ 0) (h : Magnitude.ofDecimal? d = some m) :
    ∃ d', Numeral ('0' :: '.' :: (List.replicate (-d.point).toNat '0' ++ d.digits)) d' ∧
      Magnitude.ofDecimal? d' = some m := by
  have hdef : d.point = d.digits.length + d.exponent := rfl
  let fraction := List.replicate (-d.point).toNat '0' ++ d.digits
  have hfraction : ∀ c ∈ fraction, c.isDigit := by
    intro c hc
    rcases List.mem_append.mp hc with hc | hc
    · exact isDigit_zeros c hc
    · exact isDigit_digits c hc
  have hcoefficient : Nat.ofDigitChars 10 (['0'] ++ fraction) 0 = d.coefficient := by
    rw [← ofDigitChars_digits d, Nat.ofDigitChars_append, Nat.ofDigitChars_append,
      Nat.ofDigitChars_replicate_zero]
    rfl
  have hexponent : -(fraction.length : Int) = d.exponent := by
    simp only [fraction, List.length_append, List.length_replicate]
    omega
  refine ⟨_, .point (List.cons_ne_nil '0' []) (isDigit_zeros (k := 1)) hfraction, ?_⟩
  rwa [hcoefficient, hexponent]

/-- The point stands behind all digits and some zeros. -/
theorem numeral_behind (hpoint : 0 < d.point) (hle : d.digits.length ≤ d.point.toNat)
    (h : Magnitude.ofDecimal? d = some m) :
    ∃ d', Numeral (d.digits ++ List.replicate (d.point.toNat - d.digits.length) '0') d' ∧
      Magnitude.ofDecimal? d' = some m := by
  have hdef : d.point = d.digits.length + d.exponent := rfl
  obtain ⟨e, he⟩ : ∃ e : Nat, d.exponent = .ofNat e := by
    refine ⟨d.exponent.toNat, ?_⟩
    simp only [Int.ofNat_eq_natCast]
    omega
  have hzeros : d.point.toNat - d.digits.length = e := by
    simp only [Int.ofNat_eq_natCast] at he
    omega
  let whole := d.digits ++ List.replicate e '0'
  have hne : whole ≠ [] := List.append_ne_nil_of_left_ne_nil digits_ne_nil _
  have hwhole : ∀ c ∈ whole, c.isDigit := by
    intro c hc
    rcases List.mem_append.mp hc with hc | hc
    · exact isDigit_digits c hc
    · exact isDigit_zeros c hc
  have hcoefficient : Nat.ofDigitChars 10 whole 0 = Nat.pow 10 e * d.coefficient := by
    rw [Nat.ofDigitChars_append, ofDigitChars_digits, Nat.ofDigitChars_replicate_zero]
    rfl
  rw [hzeros]
  refine ⟨⟨Nat.ofDigitChars 10 whole 0, 0⟩, .whole hne hwhole, ?_⟩
  rw [hcoefficient]
  exact ofDecimal?_zeros (he ▸ h)

/-- The point stands among the digits. -/
theorem numeral_among (hpoint : 0 < d.point) (hlt : ¬d.digits.length ≤ d.point.toNat)
    (h : Magnitude.ofDecimal? d = some m) :
    ∃ d', Numeral (d.digits.take d.point.toNat ++ '.' :: d.digits.drop d.point.toNat) d' ∧
      Magnitude.ofDecimal? d' = some m := by
  have hdef : d.point = d.digits.length + d.exponent := rfl
  have hne : d.digits.take d.point.toNat ≠ [] := by
    rw [Ne, List.take_eq_nil_iff]
    exact not_or.mpr ⟨by omega, digits_ne_nil⟩
  have hwhole : ∀ c ∈ d.digits.take d.point.toNat, c.isDigit := by
    intro c hc
    exact isDigit_digits c (List.mem_of_mem_take hc)
  have hfraction : ∀ c ∈ d.digits.drop d.point.toNat, c.isDigit := by
    intro c hc
    exact isDigit_digits c (List.mem_of_mem_drop hc)
  have hexponent : -((d.digits.drop d.point.toNat).length : Int) = d.exponent := by
    rw [List.length_drop]
    omega
  refine ⟨_, .point hne hwhole hfraction, ?_⟩
  rwa [List.take_append_drop, ofDigitChars_digits, hexponent]

/-- A decimal set out without an exponent is a numeral of the same value. -/
theorem numeral_digits (h : Magnitude.ofDecimal? d = some m) :
    ∃ d', Numeral (plain.digits d) d' ∧ Magnitude.ofDecimal? d' = some m := by
  change ∃ d', Numeral (plain.positionalDigits d.digits d.point) d' ∧ _
  unfold positionalDigits
  split
  · next hpoint => exact numeral_before hpoint h
  · next hpoint =>
    have hpoint : 0 < d.point := Int.not_le.mp hpoint
    split
    · next hle =>
      rw [show plain.keepsPoint = false from rfl, if_neg Bool.false_ne_true, List.append_nil]
      exact numeral_behind hpoint hle h
    · next hlt => exact numeral_among hpoint hlt h

end setting

end Number.Layout

/-! ### Displayed numbers -/

theorem Number.numeral_display (m : Magnitude) :
    ∃ d, Numeral (Number.finite false m).display.toList d ∧
      Number.ofDecimal false d = .finite false m := by
  obtain ⟨d, hnumeral, hd⟩ := Layout.numeral_digits m.ofDecimal?_shortest
  refine ⟨d, ?_, ?_⟩
  · unfold display
    rwa [String.toList_ofList]
  · unfold ofDecimal
    rw [hd]

/-- **What a number is displayed as is read back as the number.** -/
theorem Number.ofText?_display (m : Magnitude) :
    ofText? (Number.finite false m).display = some (.finite false m) := by
  obtain ⟨d, hnumeral, hd⟩ := numeral_display m
  rw [← hd, ← hnumeral.ofText?, hd, String.ofList_toList]

end ExprLang
