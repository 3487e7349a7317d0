import Lox.Decimal.Layout
import Mathlib.Algebra.Order.Field.Power
import Mathlib.Tactic.FieldSimp
import Mathlib.Tactic.Linarith
import Mathlib.Tactic.Positivity
import Mathlib.Tactic.Ring

/-!
# Rounding to the nearest float

An operation on floats computes a few more bits than a float has, together with an accuracy that tells how much was
cut off behind them, and rounds from there. This module says which rational numbers a float stands for, and that
rounding finds the float from any bits of the number, if only there are enough of them.

**What is cut off.** `Marks` reads an accuracy as an inequality, and `Extends` reads the two extra bits of a mantissa
in the same way. Cutting off one more place keeps this, so it is kept by every shift.

**Floats.** `Binary.Takes` is the interval of numbers that round to a float. Below a power of two the floats are
twice as close as above it, so the lower end may be nearer. A number just below the power is then rounded with the
smaller exponent: its mantissa gets a bit too many, and a second shift brings it back.

**Results.**
* `Extends.shiftRight`: shifts keep what the extra bits say.
* `Binary.Takes.nearest`: which mantissa and exponent are found for a number that rounds to a float.
* `roundWithAccuracy_eq`, `div_eq`: rounding, and division with it, give the float that takes the number.
-/
namespace Lox.Decimal

open Float.Model Float.Model.UnpackedFloat

/-! ## What is cut off -/

/-- What an accuracy says of the part that was cut off, in units of the last place that is left. -/
def Marks : Accuracy → ℚ → Prop
  | .exact, r => r = 0
  | .inexact .lt, r => 0 < r ∧ r < 1 / 2
  | .inexact .eq, r => r = 1 / 2
  | .inexact .gt, r => 1 / 2 < r ∧ r < 1

/-- The mantissa is the whole part of `z`, and its bits mark what was cut off. -/
def Extends (em : ExtendedMantissa) (z : ℚ) : Prop := Marks em.accuracy (z - em.mantissa)

/-- `n` is nearest to `z`, and even if another one is as near. -/
structure Nearest (z : ℚ) (n : Nat) : Prop where
  above : (n : ℚ) - 1 / 2 ≤ z
  below : z ≤ n + 1 / 2
  inside (hodd : n % 2 = 1) : (n : ℚ) - 1 / 2 < z ∧ z < n + 1 / 2

theorem Marks.nonneg {acc : Accuracy} {r : ℚ} (h : Marks acc r) : 0 ≤ r := by
  cases acc with
  | exact => exact h.ge
  | inexact o =>
    cases o with
    | lt => exact h.1.le
    | eq => rw [h]; norm_num
    | gt => linarith [h.1]

theorem Marks.lt_one {acc : Accuracy} {r : ℚ} (h : Marks acc r) : r < 1 := by
  cases acc with
  | exact => rw [h]; norm_num
  | inexact o =>
    cases o with
    | lt => linarith [h.2]
    | eq => rw [h]; norm_num
    | gt => exact h.2

theorem Extends.pos_of_cut {m : Nat} {r s : Bool} {z : ℚ} (h : Extends ⟨m, r, s⟩ z) (hcut : (r || s) = true) :
    0 < z - m := by
  cases r with
  | false =>
    obtain rfl : s = true := hcut
    exact And.left h
  | true =>
    cases s with
    | false =>
      change z - m = 1 / 2 at h
      linarith
    | true => linarith [And.left h]

/-- Rounding finds the nearest number. -/
theorem Extends.roundedMantissa_eq {em : ExtendedMantissa} {z : ℚ} {n : Nat} (h : Extends em z)
    (hn : Nearest z n) : em.roundedMantissa = n := by
  obtain ⟨m, r, s⟩ := em
  obtain ⟨habove, hbelow, hinside⟩ := hn
  have hle {k : Nat} (hk : (n : ℚ) < k + 1) : n ≤ k := Nat.lt_succ_iff.1 (by exact_mod_cast hk)
  have hge {k : Nat} (hk : (k : ℚ) < n + 1) : k ≤ n := Nat.lt_succ_iff.1 (by exact_mod_cast hk)
  cases r <;> cases s
  · -- nothing was cut off
    change z - m = 0 at h
    change m = n
    exact Nat.le_antisymm (hge (by linarith)) (hle (by linarith))
  · change 0 < z - m ∧ z - m < 1 / 2 at h
    change m = n
    exact Nat.le_antisymm (hge (by linarith)) (hle (by linarith))
  · change z - m = 1 / 2 at h
    change m + m % 2 = n
    have hmn : m ≤ n := hge (by linarith)
    have hnm : n ≤ m + 1 := hle (by push_cast; linarith)
    rcases Nat.mod_two_eq_zero_or_one n with heven | hodd
    · omega
    · -- an odd number is not taken from half way
      obtain ⟨hlow, hhigh⟩ := hinside hodd
      have hne : m ≠ n := by
        rintro rfl
        linarith
      have hne' : m + 1 ≠ n := by
        rintro rfl
        push_cast at hlow
        linarith
      omega
  · change 1 / 2 < z - m ∧ z - m < 1 at h
    change m + 1 = n
    have hge' : m + 1 ≤ n := by
      have : (m : ℚ) < n := by linarith
      exact_mod_cast this
    exact Nat.le_antisymm hge' (hle (by push_cast; linarith))

/-- One more place is cut off. The bits become one, which tells whether anything was cut off before. -/
theorem Extends.shiftRightOne {em : ExtendedMantissa} {z : ℚ} (h : Extends em z) :
    Extends em.shiftRightOne (z / 2) := by
  obtain ⟨m, r, s⟩ := em
  have hm : (m : ℚ) = 2 * (m / 2 : Nat) + (m % 2 : Nat) := by exact_mod_cast (Nat.div_add_mod m 2).symm
  unfold Extends ExtendedMantissa.shiftRightOne
  dsimp only
  cases hcut : r || s with
  | false =>
    obtain ⟨rfl, rfl⟩ := Bool.or_eq_false_iff.1 hcut
    change z - m = 0 at h
    rcases Nat.mod_two_eq_zero_or_one m with hmod | hmod <;> rw [hmod] at hm ⊢ <;> push_cast at hm
    · change z / 2 - (m / 2 : Nat) = 0
      linarith
    · change z / 2 - (m / 2 : Nat) = 1 / 2
      linarith
  | true =>
    have hpos : 0 < z - m := h.pos_of_cut hcut
    have hlt : z - m < 1 := h.lt_one
    rcases Nat.mod_two_eq_zero_or_one m with hmod | hmod <;> rw [hmod] at hm ⊢ <;> push_cast at hm
    · change 0 < z / 2 - (m / 2 : Nat) ∧ z / 2 - (m / 2 : Nat) < 1 / 2
      constructor <;> linarith
    · change 1 / 2 < z / 2 - (m / 2 : Nat) ∧ z / 2 - (m / 2 : Nat) < 1
      constructor <;> linarith

theorem Extends.shiftRight {em : ExtendedMantissa} {z : ℚ} (h : Extends em z) (n : Nat) :
    Extends (em >>> n) (z / 2 ^ n) := by
  change Extends (n.repeat ExtendedMantissa.shiftRightOne em) _
  induction n with
  | zero =>
    rw [pow_zero, div_one]
    exact h
  | succ n ih =>
    rw [pow_succ, ← div_div]
    exact ih.shiftRightOne

/-! ## Floats and the numbers that round to them -/

/-- The mantissa has 53 bits, or fewer if the exponent is the least one. The next smaller float is nearer than the
next larger one if the mantissa is the least with 53 bits and could not be halved any more. -/
structure Binary.Canonical (b : Binary) : Prop where
  pos : 0 < b.mantissa
  lt : b.mantissa < 2 ^ 53
  least : -1074 ≤ b.exponent
  greatest : b.exponent ≤ 971
  full : b.exponent = -1074 ∨ 2 ^ 52 ≤ b.mantissa
  narrow : b.narrow = true ↔ b.mantissa = 2 ^ 52 ∧ b.exponent ≠ -1074

/-- Half of the way to the next smaller float, in units of the last place. -/
def Binary.halfBelow (b : Binary) : ℚ := if b.narrow then 1 / 4 else 1 / 2

/-- The numbers that round to a float lie half way to its neighbours, the ends included if the mantissa is even. -/
structure Binary.Takes (b : Binary) (y : ℚ) : Prop where
  above : (b.mantissa - b.halfBelow) * 2 ^ b.exponent ≤ y
  below : y ≤ (b.mantissa + 1 / 2) * 2 ^ b.exponent
  inside (hodd : b.mantissa % 2 = 1) :
    (b.mantissa - b.halfBelow) * 2 ^ b.exponent < y ∧ y < (b.mantissa + 1 / 2) * 2 ^ b.exponent

/-- The exponent that a float near `y` has: with it, `y` has 53 bits before the point, or fewer if it is the
least one. -/
structure Fits (y : ℚ) (e : ℤ) : Prop where
  least : -1074 ≤ e
  lt : y < 2 ^ 53 * 2 ^ e
  full : e = -1074 ∨ 2 ^ 52 * 2 ^ e ≤ y

theorem targetExponent_eq (t : ℤ) : Format.binary64.targetExponent t = max (t - 53) (-1074) := rfl

theorem two_pow_mul_zpow (n : Nat) (e : ℤ) : (2 : ℚ) ^ n * 2 ^ e = 2 ^ (n + e) := by
  rw [zpow_add₀ two_ne_zero, zpow_natCast]

theorem two_zpow_le {e e' : ℤ} (h : e ≤ e') : (2 : ℚ) ^ e ≤ 2 ^ e' := zpow_le_zpow_right₀ one_le_two h

/-- The exponent is found from the first bits of `y`, if there are enough of them. -/
theorem fits_targetExponent {m : Nat} {e : ℤ} {acc : Accuracy} {y : ℚ} (hacc : Marks acc (y / 2 ^ e - m))
    (he : e ≤ Format.binary64.targetExponent (totalExponent m e)) :
    Fits y (Format.binary64.targetExponent (totalExponent m e)) := by
  rw [targetExponent_eq, totalExponent] at he ⊢
  have hpow : (0 : ℚ) < 2 ^ e := by positivity
  refine ⟨le_max_right _ _, ?_, ?_⟩
  · have hbits : (m : ℚ) + 1 ≤ 2 ^ (m.log2 + 1) := by exact_mod_cast Nat.lt_log2_self
    calc
      y < (m + 1) * 2 ^ e := by
        rw [← div_lt_iff₀ hpow]
        linarith [hacc.lt_one]
      _ ≤ 2 ^ (m.log2 + 1) * 2 ^ e := by gcongr
      _ ≤ 2 ^ 53 * 2 ^ max ((m.log2 : ℤ) + 1 + e - 53) (-1074) := by
        rw [two_pow_mul_zpow, two_pow_mul_zpow]
        exact two_zpow_le (by push_cast; omega)
  · rcases eq_or_ne (max ((m.log2 : ℤ) + 1 + e - 53) (-1074)) (-1074) with hleast | hleast
    · exact .inl hleast
    · -- enough bits means that there is one
      have hm : m ≠ 0 := by
        rintro rfl
        simp at he hleast
        omega
      have hbits : (2 : ℚ) ^ m.log2 ≤ m := by exact_mod_cast Nat.log2_self_le hm
      right
      calc
        (2 : ℚ) ^ 52 * 2 ^ max ((m.log2 : ℤ) + 1 + e - 53) (-1074) = 2 ^ m.log2 * 2 ^ e := by
          rw [two_pow_mul_zpow, two_pow_mul_zpow]
          congr 1
          push_cast
          omega
        _ ≤ m * 2 ^ e := by gcongr
        _ ≤ y := by
          rw [← le_div_iff₀ hpow]
          linarith [hacc.nonneg]

theorem Binary.halfBelow_le (b : Binary) : b.halfBelow ≤ 1 / 2 := by
  unfold Binary.halfBelow
  split <;> norm_num

theorem Binary.Canonical.half_le {b : Binary} (hb : b.Canonical) : 1 / 2 ≤ (b.mantissa : ℚ) - b.halfBelow := by
  have hone : (1 : ℚ) ≤ b.mantissa := by exact_mod_cast hb.pos
  linarith [b.halfBelow_le]

/-- A number that rounds to a float is nearest to its mantissa, with the exponent of the float or, if the number is
below the floats with this exponent, the next smaller one. -/
theorem Binary.Takes.nearest {b : Binary} {y : ℚ} (hy : b.Takes y) (hb : b.Canonical) {e : ℤ} (he : Fits y e) :
    e = b.exponent ∧ Nearest (y / 2 ^ e) b.mantissa ∨
      e = b.exponent - 1 ∧ b.mantissa = 2 ^ 52 ∧ Nearest (y / 2 ^ e) (2 ^ 53) := by
  have hhalf := b.halfBelow_le
  have hpow : (0 : ℚ) < 2 ^ b.exponent := by positivity
  have hpow' : (0 : ℚ) < 2 ^ e := by positivity
  rcases lt_trichotomy e b.exponent with hlt | rfl | hgt
  · right
    -- `y` is below the least number with 53 bits, so this is the mantissa
    have hfull : 2 ^ 52 ≤ b.mantissa := hb.full.resolve_left fun h => by linarith [he.least]
    have hless (k : Nat) (hk : e + k ≤ b.exponent) : (b.mantissa - b.halfBelow) * 2 ^ k < (2 : ℚ) ^ 53 := by
      have hle : (2 : ℚ) ^ k * 2 ^ e ≤ 2 ^ b.exponent := by
        rw [two_pow_mul_zpow]
        exact two_zpow_le (by omega)
      have hnonneg : 0 ≤ (b.mantissa : ℚ) - b.halfBelow := by linarith [hb.half_le]
      refine lt_of_mul_lt_mul_right ?_ hpow'.le
      calc
        (b.mantissa - b.halfBelow) * 2 ^ k * 2 ^ e = (b.mantissa - b.halfBelow) * (2 ^ k * 2 ^ e) := by ring
        _ ≤ (b.mantissa - b.halfBelow) * 2 ^ b.exponent := by gcongr
        _ ≤ y := hy.above
        _ < 2 ^ 53 * 2 ^ e := he.lt
    have hmantissa : b.mantissa = 2 ^ 52 := by
      have hone := hless 1 (by omega)
      have : (b.mantissa : ℚ) < (2 ^ 52 + 1 : Nat) := by
        push_cast
        linarith
      exact Nat.le_antisymm (Nat.lt_succ_iff.1 (by exact_mod_cast this)) hfull
    have hexponent : e = b.exponent - 1 := by
      by_contra hne
      have htwo := hless 2 (by omega)
      rw [hmantissa] at htwo
      norm_num at htwo
      linarith
    have hnarrow : b.halfBelow = 1 / 4 := if_pos (hb.narrow.2 ⟨hmantissa, by linarith [he.least]⟩)
    refine ⟨hexponent, hmantissa, ?_, ?_, fun hodd => by norm_num at hodd⟩
    · have habove := hy.above
      have hdouble : (2 : ℚ) ^ b.exponent = 2 ^ 1 * 2 ^ e := by
        rw [two_pow_mul_zpow]
        congr 1
        push_cast
        omega
      rw [hmantissa, hnarrow, hdouble] at habove
      rw [le_div_iff₀ hpow']
      push_cast at habove ⊢
      linarith
    · rw [div_le_iff₀ hpow']
      push_cast
      linarith [he.lt]
  · left
    refine ⟨rfl, ?_, ?_, fun hodd => ⟨?_, ?_⟩⟩
    · rw [le_div_iff₀ hpow]
      exact le_trans (by gcongr) hy.above
    · exact (div_le_iff₀ hpow).2 hy.below
    · rw [lt_div_iff₀ hpow]
      exact lt_of_le_of_lt (by gcongr) (hy.inside hodd).1
    · exact (div_lt_iff₀ hpow).2 (hy.inside hodd).2
  · -- the mantissa would have more than 53 bits
    have hfull := he.full.resolve_left (by linarith [hb.least])
    have hlt : (b.mantissa : ℚ) + 1 ≤ 2 ^ 53 := by exact_mod_cast hb.lt
    have hless : (2 : ℚ) ^ 53 * 2 ^ b.exponent ≤ 2 ^ 52 * 2 ^ e := by
      rw [two_pow_mul_zpow, two_pow_mul_zpow]
      exact two_zpow_le (by push_cast; omega)
    have habsurd : (2 : ℚ) ^ 53 * 2 ^ b.exponent ≤ (b.mantissa + 1 / 2) * 2 ^ b.exponent :=
      le_trans hless (le_trans hfull hy.below)
    linarith [le_of_mul_le_mul_right habsurd hpow]

/-! ## Rounding -/

theorem shiftToTargetExponent_of_le {m : Nat} {e : ℤ} (acc : Accuracy)
    (he : e ≤ Format.binary64.targetExponent (totalExponent m e)) :
    ∃ n : Nat, shiftToTargetExponent Format.binary64 m e acc =
        (ExtendedMantissa.ofMantissaAndAccuracy m acc >>> n, Format.binary64.targetExponent (totalExponent m e)) ∧
      e + n = Format.binary64.targetExponent (totalExponent m e) := by
  refine ⟨(Format.binary64.targetExponent (totalExponent m e) - e).toNat, ?_, by omega⟩
  unfold shiftToTargetExponent shiftToExponent
  dsimp only
  congr 1
  omega

theorem extends_ofMantissaAndAccuracy {acc : Accuracy} {z : ℚ} {m : Nat} (h : Marks acc (z - m)) :
    Extends (ExtendedMantissa.ofMantissaAndAccuracy m acc) z := by
  cases acc with
  | exact => exact h
  | inexact o => cases o <;> exact h

theorem Binary.Canonical.targetExponent_eq {b : Binary} (hb : b.Canonical) :
    Format.binary64.targetExponent (totalExponent b.mantissa b.exponent) = b.exponent := by
  have hlt : b.mantissa.log2 < 53 := (Nat.log2_lt hb.pos.ne').2 hb.lt
  rw [Decimal.targetExponent_eq, totalExponent]
  rcases hb.full with hleast | hfull
  · omega
  · have hle : 52 ≤ b.mantissa.log2 := (Nat.le_log2 hb.pos.ne').2 hfull
    have hleast := hb.least
    omega

/-- The shift after rounding undoes a carry into a bit too many. -/
theorem Binary.Canonical.shift_back {b : Binary} (hb : b.Canonical) {n : Nat} {e : ℤ}
    (hcarry : n = b.mantissa ∧ e = b.exponent ∨ n = 2 ^ 53 ∧ b.mantissa = 2 ^ 52 ∧ e = b.exponent - 1) :
    ∃ em, shiftToTargetExponent Format.binary64 n e .exact = (em, b.exponent) ∧ em.mantissa = b.mantissa := by
  have htarget : Format.binary64.targetExponent (totalExponent n e) = b.exponent := by
    rcases hcarry with ⟨rfl, rfl⟩ | ⟨rfl, -, rfl⟩
    · exact hb.targetExponent_eq
    · have hleast := hb.least
      rw [Decimal.targetExponent_eq, totalExponent, Nat.log2_two_pow]
      omega
  have hle : e ≤ b.exponent := by omega
  rw [← htarget] at hle
  obtain ⟨k, hshift, hk⟩ := shiftToTargetExponent_of_le .exact hle
  rw [htarget] at hshift hk
  refine ⟨_, hshift, ?_⟩
  rcases hcarry with ⟨rfl, rfl⟩ | ⟨rfl, hmantissa, rfl⟩
  · obtain rfl : k = 0 := by omega
    rfl
  · obtain rfl : k = 1 := by omega
    rw [hmantissa]
    rfl

/-- A number of which enough bits are given, and what was cut off behind them, rounds to the float that takes it. -/
theorem roundWithAccuracy_eq {b : Binary} (hb : b.Canonical) {y : ℚ} (hy : b.Takes y) {m : Nat} {e : ℤ}
    {acc : Accuracy} (hacc : Marks acc (y / 2 ^ e - m))
    (he : e ≤ Format.binary64.targetExponent (totalExponent m e)) (s : Sign) :
    roundWithAccuracy Format.binary64 s m e acc = .finite s b.mantissa b.exponent hb.pos := by
  obtain ⟨k, hshift, hk⟩ := shiftToTargetExponent_of_le acc he
  have hextends := (extends_ofMantissaAndAccuracy hacc).shiftRight k
  rw [div_div, mul_comm, two_pow_mul_zpow, add_comm, hk] at hextends
  have hback : ∃ em, shiftToTargetExponent Format.binary64
      (ExtendedMantissa.ofMantissaAndAccuracy m acc >>> k).roundedMantissa
      (Format.binary64.targetExponent (totalExponent m e)) .exact = (em, b.exponent) ∧ em.mantissa = b.mantissa := by
    rcases hy.nearest hb (fits_targetExponent hacc he) with ⟨hexp, hnearest⟩ | ⟨hexp, hmantissa, hnearest⟩
    · exact hb.shift_back (.inl ⟨hextends.roundedMantissa_eq hnearest, hexp⟩)
    · exact hb.shift_back (.inr ⟨hextends.roundedMantissa_eq hnearest, hmantissa, hexp⟩)
  obtain ⟨⟨n, _, _⟩, hback, rfl : n = b.mantissa⟩ := hback
  unfold roundWithAccuracy
  rw [hshift]
  dsimp only
  rw [hback]
  exact dif_neg hb.pos.ne'

/-! ## Quotients -/

theorem marks_accuracyOfFraction {num den : Nat} (h : num < den) :
    Marks (accuracyOfFraction num den) (num / den) := by
  have hden : (0 : ℚ) < den := by exact_mod_cast Nat.zero_lt_of_lt h
  unfold accuracyOfFraction
  split
  · next hnum =>
    rw [hnum]
    simp [Marks]
  · next hnum =>
    have hpos : (0 : ℚ) < num / den := div_pos (by exact_mod_cast Nat.pos_of_ne_zero hnum) hden
    have hlt : (num : ℚ) / den < 1 := (div_lt_one hden).2 (by exact_mod_cast h)
    rcases Nat.lt_trichotomy (2 * num) den with hcmp | hcmp | hcmp
    · rw [Nat.compare_eq_lt.2 hcmp]
      refine ⟨hpos, ?_⟩
      rw [div_lt_div_iff₀ hden two_pos]
      exact_mod_cast (by omega : num * 2 < 1 * den)
    · rw [Nat.compare_eq_eq.2 hcmp]
      change (num : ℚ) / den = 1 / 2
      rw [div_eq_div_iff hden.ne' two_ne_zero]
      exact_mod_cast (by omega : num * 2 = 1 * den)
    · rw [Nat.compare_eq_gt.2 hcmp]
      refine ⟨?_, hlt⟩
      rw [div_lt_div_iff₀ two_pos hden]
      exact_mod_cast (by omega : 1 * den < num * 2)

section
variable {m₁ m₂ s : Nat} {e₁ e₂ e : ℤ}

/-- The remainder of a division is what was cut off. -/
theorem marks_quotient (h₂ : 0 < m₂) (hs : e₁ - e₂ = e + s) :
    Marks (accuracyOfFraction ((m₁ <<< s) % m₂) m₂)
      (m₁ * 2 ^ e₁ / (m₂ * 2 ^ e₂) / 2 ^ e - ((m₁ <<< s) / m₂ : Nat)) := by
  have hm₂ : (m₂ : ℚ) ≠ 0 := by exact_mod_cast h₂.ne'
  have hpow : (2 : ℚ) ^ e₁ = 2 ^ s * 2 ^ e * 2 ^ e₂ := by
    rw [two_pow_mul_zpow, ← zpow_add₀ two_ne_zero]
    congr 1
    omega
  have hdivision : (m₁ : ℚ) * 2 ^ s = m₂ * ((m₁ <<< s) / m₂ : Nat) + ((m₁ <<< s) % m₂ : Nat) := by
    rw [← Nat.cast_mul, ← Nat.cast_add, Nat.div_add_mod, Nat.shiftLeft_eq]
    push_cast
    rfl
  have hrest : (m₁ : ℚ) * 2 ^ e₁ / (m₂ * 2 ^ e₂) / 2 ^ e - ((m₁ <<< s) / m₂ : Nat) =
      ((m₁ <<< s) % m₂ : Nat) / m₂ := by
    rw [hpow]
    field_simp
    linarith
  rw [hrest]
  exact marks_accuracyOfFraction (Nat.mod_lt _ h₂)

/-- The quotient has as many bits as the lengths of both numbers suggest, or one more. -/
theorem le_targetExponent_quotient (h₁ : 0 < m₁) (h₂ : 0 < m₂) (hs : e₁ - e₂ = e + s)
    (he : e ≤ Format.binary64.targetExponent (totalExponent m₁ e₁ - totalExponent m₂ e₂)) :
    e ≤ Format.binary64.targetExponent (totalExponent ((m₁ <<< s) / m₂) e) := by
  rw [targetExponent_eq, totalExponent, totalExponent] at he
  rw [targetExponent_eq, totalExponent]
  rcases le_or_gt e (-1074) with hleast | hleast
  · exact le_trans hleast (le_max_right _ _)
  · obtain ⟨k, hk⟩ : ∃ k : Nat, m₁.log2 + s = k + (m₂.log2 + 1) := ⟨m₁.log2 + s - (m₂.log2 + 1), by omega⟩
    have hbits : 2 ^ k ≤ (m₁ <<< s) / m₂ := by
      rw [Nat.le_div_iff_mul_le h₂, Nat.shiftLeft_eq]
      calc
        2 ^ k * m₂ ≤ 2 ^ k * 2 ^ (m₂.log2 + 1) := Nat.mul_le_mul_left _ Nat.lt_log2_self.le
        _ = 2 ^ m₁.log2 * 2 ^ s := by rw [← Nat.pow_add, ← Nat.pow_add, hk]
        _ ≤ m₁ * 2 ^ s := Nat.mul_le_mul_right _ (Nat.log2_self_le h₁.ne')
    have hne : (m₁ <<< s) / m₂ ≠ 0 := (Nat.lt_of_lt_of_le (Nat.two_pow_pos k) hbits).ne'
    have hlog : k ≤ ((m₁ <<< s) / m₂).log2 := (Nat.le_log2 hne).2 hbits
    omega

end

/-- A quotient rounds to the float that takes it. -/
theorem div_eq {b : Binary} (hb : b.Canonical) {m₁ m₂ : Nat} (h₁ : 0 < m₁) (h₂ : 0 < m₂) {e₁ e₂ : ℤ}
    (hy : b.Takes (m₁ * 2 ^ e₁ / (m₂ * 2 ^ e₂))) (s₁ s₂ : Sign) :
    UnpackedFloat.div Format.binary64 (.finite s₁ m₁ e₁ h₁) (.finite s₂ m₂ e₂ h₂) =
      .finite (s₁ / s₂) b.mantissa b.exponent hb.pos := by
  have hs : e₁ - e₂ = min (e₁ - e₂) (Format.binary64.targetExponent (totalExponent m₁ e₁ - totalExponent m₂ e₂)) +
      (e₁ - e₂ - min (e₁ - e₂)
        (Format.binary64.targetExponent (totalExponent m₁ e₁ - totalExponent m₂ e₂))).toNat := by omega
  exact roundWithAccuracy_eq hb hy (marks_quotient h₂ hs)
    (le_targetExponent_quotient h₁ h₂ hs (min_le_right _ _)) _

end Lox.Decimal
