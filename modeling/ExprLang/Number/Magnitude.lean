/-! # Magnitudes of binary64 numbers

A finite number of the language is a whole number of *units*, the unit being
`2 ^ -1074`, with a sign beside it.  `Magnitude` holds the units.  At most 53
binary digits are significant: between `2 ^ k` and `2 ^ (k + 1)` units the
magnitudes are the multiples of `spacing`, and above `2 ^ 2098` units there are
none.

`Magnitude.round?` sends a quotient of natural numbers to the nearest
magnitude, a half to the even one, and answers `none` where that would lie
above the greatest.  Its result is a multiple of the spacing by
`spacing_dvd_roundUnits`. -/

namespace ExprLang

/-- Distance between neighbouring magnitudes around `n` units. -/
def spacing (n : Nat) : Nat := 1 <<< (n.log2 - 52)

/-- The integer nearest to `n / d`; a half goes to the even neighbour. -/
def roundDiv (n d : Nat) : Nat :=
  let q := n / d
  let r := n % d
  if d < 2 * r ∨ (2 * r = d ∧ q % 2 = 1) then q + 1 else q

/-- The multiple of the spacing that is nearest to `n / d` units. -/
def roundUnits (n d : Nat) : Nat :=
  let step := spacing (n / d)
  roundDiv n (d * step) * step

/-- The absolute value of a finite number, counted in units of `2 ^ -1074`. -/
structure Magnitude where
  /-- How many units there are. -/
  units : Nat
  /-- The units are in range and have at most 53 significant binary digits. -/
  representable : units.log2 < 2098 ∧ spacing units ∣ units
deriving DecidableEq

/-! ### Rounding stays on the grid -/

theorem roundDiv_le (n d : Nat) : roundDiv n d ≤ n / d + 1 := by
  simp only [roundDiv]
  split <;> omega

/-- Dividing by the spacing leaves at most 53 binary digits. -/
theorem div_mul_spacing_lt (n d : Nat) : n / (d * spacing (n / d)) < 1 <<< 53 := by
  rw [← Nat.div_div_eq_div_mul]
  apply Nat.div_lt_of_lt_mul
  rw [spacing, Nat.one_shiftLeft, Nat.one_shiftLeft, ← Nat.pow_add]
  exact Nat.lt_of_lt_of_le Nat.lt_log2_self (Nat.pow_le_pow_right (by decide) (by omega))

/-- At most `2 ^ 53` steps of one spacing end on the grid. -/
theorem spacing_dvd_mul_shiftLeft {k s : Nat} (hk : k ≤ 1 <<< 53) :
    spacing (k * 1 <<< s) ∣ k * 1 <<< s := by
  rw [Nat.one_shiftLeft] at hk
  rw [spacing, Nat.one_shiftLeft, Nat.one_shiftLeft]
  rcases Nat.eq_or_lt_of_le hk with rfl | hlt
  · rw [← Nat.pow_add, Nat.log2_two_pow]
    exact Nat.pow_dvd_pow 2 (by omega)
  · by_cases h0 : k * 2 ^ s = 0
    · rw [h0]
      exact Nat.dvd_zero _
    · have hlog : (k * 2 ^ s).log2 < 53 + s := by
        rw [Nat.log2_lt h0, Nat.pow_add]
        exact Nat.mul_lt_mul_of_pos_right hlt (Nat.two_pow_pos s)
      exact Nat.dvd_trans (Nat.pow_dvd_pow 2 (by omega)) (Nat.dvd_mul_left _ _)

theorem spacing_dvd_roundUnits (n d : Nat) : spacing (roundUnits n d) ∣ roundUnits n d :=
  spacing_dvd_mul_shiftLeft
    (Nat.le_trans (roundDiv_le _ _) (Nat.succ_le_of_lt (div_mul_spacing_lt n d)))

namespace Magnitude

/-- Units in the number one. -/
def one : Nat := 1 <<< 1074

/-- Nothing at all. -/
def zero : Magnitude := ⟨0, by decide, Nat.dvd_zero _⟩

/-- The magnitude nearest to `n / d` units, or `none` above the greatest. -/
def round? (n d : Nat) : Option Magnitude :=
  if h : (roundUnits n d).log2 < 2098 then
    some ⟨roundUnits n d, h, spacing_dvd_roundUnits n d⟩
  else
    none

theorem ext {a b : Magnitude} (h : a.units = b.units) : a = b := by
  cases a; cases b; cases h; rfl

end Magnitude

end ExprLang
