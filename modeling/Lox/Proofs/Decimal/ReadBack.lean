import Lox.Proofs.Decimal.Bits
import Lox.Proofs.Token.Decomposition

/-!
# Decimals that read back

A finite float is written as the shortest decimal that rounds to it. Read as a numeral, the text gives the same
float again. Both directions come down to `Binary.Takes`: what is written is a number that
rounds to the float, and what is read is the float that takes the number.

**Reading.** A numeral of few digits is read as the quotient of two floats. Both are exact, so only the quotient is
rounded. Any other numeral is rounded from a whole number or from a quotient of whole numbers.

**Writing.** The search for the shortest decimal compares whole numbers. `Binary.measure` is the scale on which these
are the ends of the interval of `Binary.Takes`. If the search finds nothing, the exact value is written, so nothing
depends on how many digits are tried.

**Results.**
* `ofScientific_eq`: reading gives the float that takes the decimal.
* `Binary.takes_shortest`: the decimal that is written rounds to the float.
* `isNumber_writePositional`: putting in the point makes a numeral of the same value.
* `read_numberText`: the text of a finite float reads back.
-/
namespace Lox.Decimal

open Float.Model Float.Model.UnpackedFloat

/-! ## Reading a decimal -/

theorem Binary.takes_self (b : Binary) : b.Takes (b.mantissa * 2 ^ b.exponent) := by
  have hpow : (0 : ℚ) < 2 ^ b.exponent := by positivity
  have hhalf : 0 < b.halfBelow := by
    unfold halfBelow
    split <;> norm_num
  have hlow : (b.mantissa - b.halfBelow) * 2 ^ b.exponent < b.mantissa * 2 ^ b.exponent :=
    mul_lt_mul_of_pos_right (by linarith) hpow
  have hhigh : (b.mantissa : ℚ) * 2 ^ b.exponent < (b.mantissa + 1 / 2) * 2 ^ b.exponent :=
    mul_lt_mul_of_pos_right (by linarith) hpow
  exact ⟨hlow.le, hhigh.le, fun _ => ⟨hlow, hhigh⟩⟩

theorem Binary.Takes.pos {b : Binary} (hb : b.Canonical) {y : ℚ} (hy : b.Takes y) : 0 < y :=
  lt_of_lt_of_le (mul_pos (by linarith [hb.half_le]) (by positivity)) hy.above

/-- A number with 53 bits or fewer is a float, also with zeros behind them. The mantissa is filled up to 53 bits. -/
theorem exists_canonical {c j : Nat} (hc : 0 < c) (hlt : c < 2 ^ 53) (hj : j ≤ 900) :
    ∃ b : Binary, b.Canonical ∧ (b.mantissa : ℚ) * 2 ^ b.exponent = (c * 2 ^ j : Nat) := by
  have hlog : c.log2 < 53 := (Nat.log2_lt hc.ne').2 hlt
  have hfull : 2 ^ 52 ≤ c * 2 ^ (52 - c.log2) := by
    calc
      2 ^ 52 = 2 ^ c.log2 * 2 ^ (52 - c.log2) := by rw [← Nat.pow_add]; congr 1; omega
      _ ≤ c * 2 ^ (52 - c.log2) := Nat.mul_le_mul_right _ (Nat.log2_self_le hc.ne')
  have hless : c * 2 ^ (52 - c.log2) < 2 ^ 53 := by
    calc
      c * 2 ^ (52 - c.log2) < 2 ^ (c.log2 + 1) * 2 ^ (52 - c.log2) :=
        Nat.mul_lt_mul_of_pos_right Nat.lt_log2_self (Nat.two_pow_pos _)
      _ = 2 ^ 53 := by rw [← Nat.pow_add]; congr 1; omega
  refine ⟨⟨c * 2 ^ (52 - c.log2), j + c.log2 - 52, c * 2 ^ (52 - c.log2) == 2 ^ 52⟩,
    ⟨Nat.lt_of_lt_of_le (Nat.two_pow_pos 52) hfull, hless, ?_, ?_, .inr hfull, ?_⟩, ?_⟩
  · dsimp only
    omega
  · dsimp only
    omega
  · rw [beq_iff_eq]
    exact ⟨fun h => ⟨h, by dsimp only; omega⟩, And.left⟩
  · push_cast
    rw [mul_assoc, two_pow_mul_zpow, ← zpow_natCast]
    congr 2
    omega

theorem log2_shiftLeft {n : Nat} (hn : n ≠ 0) (k : Nat) : (n <<< k).log2 = n.log2 + k := by
  induction k with
  | zero => rfl
  | succ k ih =>
    have hne : n <<< k ≠ 0 := by
      rw [Nat.shiftLeft_eq]
      exact Nat.mul_ne_zero hn (Nat.two_pow_pos k).ne'
    rw [Nat.shiftLeft_succ, Nat.log2_two_mul hne, ih, Nat.add_assoc]

/-- A whole number with bits added to it. -/
theorem marks_shiftLeft (n k : Nat) {e : ℤ} (he : e = -k) : Marks .exact ((n : ℚ) / 2 ^ e - (n <<< k : Nat)) := by
  change (n : ℚ) / 2 ^ e - (n <<< k : Nat) = 0
  rw [he, zpow_neg, div_inv_eq_mul, zpow_natCast, Nat.shiftLeft_eq]
  push_cast
  ring

/-- Nothing is cut off a whole number, and bits are added to it where there are too few. -/
theorem ofNat_eq {b : Binary} (hb : b.Canonical) {n : Nat} (hn : (b.mantissa : ℚ) * 2 ^ b.exponent = n) :
    UnpackedFloat.ofNat Format.binary64 n = .finite .positive b.mantissa b.exponent hb.pos := by
  have hpos : 0 < n := by
    have : (0 : ℚ) < b.mantissa * 2 ^ b.exponent := mul_pos (by exact_mod_cast hb.pos) (by positivity)
    rw [hn] at this
    exact_mod_cast this
  have hcompare : compare (n : ℤ) 0 = .gt := Int.compare_eq_gt.2 (by exact_mod_cast hpos)
  change (match compare (n : ℤ) 0 with
    | .lt => UnpackedFloat.round Format.binary64 .negative _ 0
    | .eq => .zero .positive
    | .gt => UnpackedFloat.round Format.binary64 .positive n 0) = _
  rw [hcompare]
  unfold UnpackedFloat.round decreaseExponent
  dsimp only
  have htakes := b.takes_self
  rw [hn] at htakes
  refine roundWithAccuracy_eq hb htakes (marks_shiftLeft n _ (by omega)) ?_ .positive
  simp only [targetExponent_eq, totalExponent, log2_shiftLeft hpos.ne']
  omega

/-- The powers of ten that are floats are stored as these. -/
theorem toModel_powerOfTen : ∀ (k : Nat) (_ : k < Float.exactlyRepresentablePowersOfTen.size),
    Float.exactlyRepresentablePowersOfTen[k].toModel = Float.Model.ofNat (10 ^ k) := by
  decide +kernel

theorem unpack_ofNat {b : Binary} (hb : b.Canonical) {n : Nat} (hn : (b.mantissa : ℚ) * 2 ^ b.exponent = n) :
    (Float.Model.ofNat n).unpack = .finite .positive b.mantissa b.exponent hb.pos := by
  change UnpackedFloat.unpack Format.binary64 (UnpackedFloat.pack Format.binary64
    (UnpackedFloat.ofNat Format.binary64 n)) = _
  rw [ofNat_eq hb hn, unpack_pack hb]

/-- A short decimal is read as the quotient of two floats. -/
theorem div_powerOfTen {b : Binary} (hb : b.Canonical) {n k : Nat} (hn : 0 < n) (hlt : n < 2 ^ 53)
    (hk : k < Float.exactlyRepresentablePowersOfTen.size) (hy : b.Takes (n / 10 ^ k)) :
    n.toUInt64.toFloat / Float.exactlyRepresentablePowersOfTen[k] = ofMagnitude .positive b := by
  have hk' : k ≤ 22 := Nat.lt_succ_iff.1 hk
  have hfive : 5 ^ k < 2 ^ 53 := Nat.lt_of_le_of_lt (Nat.pow_le_pow_right (by norm_num) hk') (by norm_num)
  obtain ⟨p, hp, hpn⟩ := exists_canonical hn hlt (Nat.zero_le 900)
  obtain ⟨q, hq, hqk⟩ := exists_canonical (Nat.pow_pos (by norm_num)) hfive (by omega : k ≤ 900)
  rw [Nat.pow_zero, Nat.mul_one] at hpn
  rw [← Nat.mul_pow] at hqk
  have hnumerator : n.toUInt64.toFloat.toModel.unpack = .finite .positive p.mantissa p.exponent hp.pos := by
    have hsmall : n.toUInt64.toNat = n := Nat.mod_eq_of_lt (by omega)
    change (Float.Model.ofNat n.toUInt64.toNat).unpack = _
    rw [hsmall, unpack_ofNat hp hpn]
  have hdenominator : Float.exactlyRepresentablePowersOfTen[k].toModel.unpack =
      .finite .positive q.mantissa q.exponent hq.pos := by
    rw [toModel_powerOfTen k hk, unpack_ofNat hq hqk]
  have hquotient : b.Takes (p.mantissa * 2 ^ p.exponent / (q.mantissa * 2 ^ q.exponent)) := by
    rw [hpn, hqk]
    push_cast
    exact hy
  change Float.ofModel (Float.Model.pack (UnpackedFloat.div Format.binary64 _ _)) = _
  rw [hnumerator, hdenominator, div_eq hb hp.pos hq.pos hquotient, ofMagnitude_of_canonical hb]
  rfl

/-- A decimal that rounds to a float is not so small that it would be taken for zero at once. -/
theorem Binary.Takes.scale_lt {b : Binary} (hb : b.Canonical) {n k : Nat} (hy : b.Takes (n / 10 ^ k)) :
    k < n.log2 + 1076 := by
  have hhalf := hb.half_le
  have hten : (0 : ℚ) < 10 ^ k := by positivity
  have hpow : (2 : ℚ) ^ (k + -1075 : ℤ) < 2 ^ (n.log2 + 1 : ℤ) := by
    calc
      (2 : ℚ) ^ (k + -1075 : ℤ) = 2 ^ k * 2 ^ (-1075 : ℤ) := (two_pow_mul_zpow k _).symm
      _ ≤ 10 ^ k * 2 ^ (-1075 : ℤ) := by gcongr; norm_num
      _ ≤ 10 ^ k * (n / 10 ^ k) := by
        gcongr
        calc
          (2 : ℚ) ^ (-1075 : ℤ) = 2⁻¹ * 2 ^ (-1074 : ℤ) := by rw [← zpow_neg_one, ← zpow_add₀ two_ne_zero]; rfl
          _ ≤ (b.mantissa - b.halfBelow) * 2 ^ b.exponent :=
            mul_le_mul (by linarith) (two_zpow_le hb.least) (by positivity) (by linarith)
          _ ≤ n / 10 ^ k := hy.above
      _ = n := mul_div_cancel₀ _ hten.ne'
      _ < 2 ^ (n.log2 + 1 : ℤ) := by exact_mod_cast Nat.lt_log2_self
  have := (zpow_lt_zpow_iff_right₀ one_lt_two).1 hpow
  omega

/-- A whole number gets bits added and is rounded. -/
theorem mul_one_eq {b : Binary} (hb : b.Canonical) {n k : Nat} (hn : 0 < n) (hy : b.Takes n) (hk : 52 ≤ k)
    (hpos : 0 < n <<< k) :
    UnpackedFloat.mul Format.binary64 (.finite .positive (n <<< k) (-k) hpos) (.finite .positive 1 0 Nat.one_pos) =
      .finite .positive b.mantissa b.exponent hb.pos := by
  unfold UnpackedFloat.mul
  dsimp only
  rw [Nat.mul_one, add_zero]
  refine roundWithAccuracy_eq hb hy (marks_shiftLeft n k rfl) ?_ _
  simp only [targetExponent_eq, totalExponent, log2_shiftLeft hn.ne']
  omega

/-- A long decimal is rounded once, from its exact value. -/
theorem unpacked_ofScientific_eq {b : Binary} (hb : b.Canonical) {n k : Nat} (hn : 0 < n)
    (hy : b.Takes (n / 10 ^ k)) :
    UnpackedFloat.ofScientific Format.binary64 n (-k) = .finite .positive b.mantissa b.exponent hb.pos := by
  have hscale := hy.scale_lt hb
  have hlarge : ¬ -(k : ℤ) > 2 ^ 11 := by omega
  have hsmall : ¬ -(k : ℤ) < -(2 ^ 11 + n.log2) := by omega
  unfold UnpackedFloat.ofScientific
  rw [dif_neg hn.ne', if_neg hlarge, if_neg hsmall]
  by_cases hwhole : 0 ≤ -(k : ℤ)
  · -- a whole number gets 53 more bits
    rw [if_pos hwhole]
    obtain rfl : k = 0 := by omega
    rw [pow_zero, div_one] at hy
    exact mul_one_eq hb hn hy (by decide) _
  · rw [if_neg hwhole]
    have hquotient : b.Takes (n * 2 ^ (0 : ℤ) / ((10 ^ (- -(k : ℤ)).toNat : Nat) * 2 ^ (0 : ℤ))) := by
      rw [neg_neg, Int.toNat_natCast, zpow_zero, mul_one, mul_one]
      push_cast
      exact hy
    exact div_eq hb hn (Nat.pow_pos (by norm_num)) hquotient .positive .positive

/-- Reading gives the float that takes the decimal. -/
theorem ofScientific_eq {b : Binary} (hb : b.Canonical) {n k : Nat} (hy : b.Takes (n / 10 ^ k)) :
    Float.ofScientific n true k = ofMagnitude .positive b := by
  have hn : 0 < n := by
    apply Nat.pos_of_ne_zero
    rintro rfl
    simpa using hy.pos hb
  unfold Float.ofScientific
  split
  · next hfast => exact div_powerOfTen hb hn hfast.1 (Nat.lt_succ_iff.2 hfast.2) hy
  · have hneg : Int.negOfNat k = -k := by cases k <;> rfl
    change Float.ofModel (Float.Model.pack (UnpackedFloat.ofScientific Format.binary64 n (Int.negOfNat k))) = _
    rw [hneg, unpacked_ofScientific_eq hb hn hy, ofMagnitude_of_canonical hb]

/-! ## The shortest decimal -/

def Digits.value (d : Digits) : ℚ := d.digits * 10 ^ d.scale

theorem pow_toNat {a : ℚ} (ha : a ≠ 0) (e : ℤ) : a ^ e.toNat = a ^ e * a ^ (-e).toNat := by
  rw [← zpow_natCast, ← zpow_natCast, ← zpow_add₀ ha]
  congr 1
  omega

section
variable {b : Binary} (hpos : 0 < b.mantissa) (scale : ℤ)

/-- Numbers are compared in quarters of the last binary place and in units of the decimal one. -/
def Binary.measure (b : Binary) (scale : ℤ) : ℚ := 4 * 2 ^ (-b.exponent).toNat * 10 ^ (-scale).toNat

theorem Binary.measure_pos (b : Binary) (scale : ℤ) : 0 < b.measure scale := by
  unfold measure
  positivity

theorem cast_mul_unit (d : Nat) :
    ((d * (b.interval.atScale scale).unit : Nat) : ℚ) = d * 10 ^ scale * b.measure scale := by
  unfold Binary.interval Interval.atScale Binary.measure
  simp only [Nat.pow_eq]
  push_cast
  rw [pow_toNat (by norm_num) scale]
  ring

theorem cast_high :
    ((b.interval.atScale scale).high : ℚ) = (b.mantissa + 1 / 2) * 2 ^ b.exponent * b.measure scale := by
  unfold Binary.interval Interval.atScale Binary.measure
  simp only [Nat.pow_eq]
  push_cast
  rw [pow_toNat two_ne_zero b.exponent]
  ring

include hpos in
theorem cast_low :
    ((b.interval.atScale scale).low : ℚ) = (b.mantissa - b.halfBelow) * 2 ^ b.exponent * b.measure scale := by
  have hquarters : ((4 * b.mantissa - (if b.narrow then 1 else 2) : Nat) : ℚ) = 4 * (b.mantissa - b.halfBelow) := by
    unfold Binary.halfBelow
    split
    · rw [Nat.cast_sub (by omega)]
      push_cast
      ring
    · rw [Nat.cast_sub (by omega)]
      push_cast
      ring
  unfold Binary.interval Interval.atScale Binary.measure
  simp only [Nat.pow_eq]
  push_cast [hquarters]
  rw [pow_toNat two_ne_zero b.exponent]
  ring

include hpos in
/-- The whole numbers that an interval holds stand for decimals that round to the float. -/
theorem takes_of_holds {d : Nat} (h : (b.interval.atScale scale).holds d = true) : b.Takes (d * 10 ^ scale) := by
  have hmeasure := b.measure_pos scale
  have hlow := cast_low hpos scale
  have hhigh := cast_high (b := b) scale
  have hunit := cast_mul_unit (b := b) scale d
  have hle {x y : Nat} {p q : ℚ} (hx : (x : ℚ) = p * b.measure scale) (hy : (y : ℚ) = q * b.measure scale)
      (hxy : x ≤ y) : p ≤ q := by
    refine le_of_mul_le_mul_right ?_ hmeasure
    rw [← hx, ← hy]
    exact_mod_cast hxy
  have hlt {x y : Nat} {p q : ℚ} (hx : (x : ℚ) = p * b.measure scale) (hy : (y : ℚ) = q * b.measure scale)
      (hxy : x < y) : p < q := by
    refine lt_of_mul_lt_mul_right ?_ hmeasure.le
    rw [← hx, ← hy]
    exact_mod_cast hxy
  unfold Interval.holds at h
  split at h
  · next hclosed =>
    have heven : b.mantissa % 2 = 0 := beq_iff_eq.1 hclosed
    rw [Bool.and_eq_true, decide_eq_true_eq, decide_eq_true_eq] at h
    exact ⟨hle hlow hunit h.1, hle hunit hhigh h.2, fun hodd => by omega⟩
  · rw [Bool.and_eq_true, decide_eq_true_eq, decide_eq_true_eq] at h
    have habove := hlt hlow hunit h.1
    have hbelow := hlt hunit hhigh h.2
    exact ⟨habove.le, hbelow.le, fun _ => ⟨habove, hbelow⟩⟩

end

theorem Interval.holds_of_nearest? {i : Interval} {d : Nat} (h : i.nearest? = some d) : i.holds d = true := by
  unfold nearest? at h
  dsimp only at h
  split at h
  · next hbelow habove =>
    cases h
    split
    · exact hbelow
    · exact habove
  · next hbelow _ =>
    cases h
    exact hbelow
  · next _ habove =>
    cases h
    exact habove
  · cases h

theorem Binary.value_exact (b : Binary) : b.exact.value = b.mantissa * 2 ^ b.exponent := by
  unfold exact Digits.value
  simp only [Nat.pow_eq]
  obtain ⟨k, he | he⟩ := b.exponent.eq_nat_or_neg
  · simp [he]
  · have hpowers : (5 : ℚ) ^ k * 10 ^ (-k : ℤ) = 2 ^ (-k : ℤ) := by
      rw [show (10 : ℚ) = 5 * 2 by norm_num, mul_zpow, ← mul_assoc, ← zpow_natCast, ← zpow_add₀ (by norm_num),
        add_neg_cancel, zpow_zero, one_mul]
    have hmin : min (-(k : ℤ)) 0 = -k := by omega
    rw [he, hmin, Int.toNat_neg_natCast, neg_neg, Int.toNat_natCast]
    push_cast
    rw [mul_one, mul_assoc, hpowers]

theorem Digits.value_trim (d : Digits) : d.trim.value = d.value := by
  fun_induction trim d with
  | case1 d h ih =>
    have hdigits : (d.digits : ℚ) = 10 * (d.digits / 10 : Nat) := by exact_mod_cast (by omega : d.digits = _)
    rw [ih, value, value, hdigits, zpow_add₀ (by norm_num), zpow_one]
    ring
  | case2 => rfl

/-- The decimal that is written out rounds to the float. -/
theorem Binary.takes_shortest {b : Binary} (hb : 0 < b.mantissa) : b.Takes b.shortest.value := by
  unfold shortest
  dsimp only
  rw [Digits.value_trim]
  generalize hfound : (List.range 17).findSome? _ = found
  cases found with
  | none =>
    rw [Option.getD_none, b.value_exact]
    exact b.takes_self
  | some d =>
    obtain ⟨n, -, hn⟩ := List.exists_of_findSome?_eq_some hfound
    obtain ⟨digits, hnearest, rfl⟩ := Option.map_eq_some_iff.1 hn
    exact takes_of_holds hb _ (Interval.holds_of_nearest? hnearest)

/-! ## Digits that are written and read -/

open Piece (IsDigits IsNumber)

theorem isDigits_toDigits (n : Nat) : IsDigits (Nat.toDigits 10 n) :=
  ⟨Nat.toDigits_ne_nil, fun _ hc => Piece.isDigit_iff.1 (Nat.isDigit_of_mem_toDigits (by norm_num) (by norm_num) hc)⟩

theorem isDigits_zero : IsDigits ['0'] := by
  refine ⟨List.cons_ne_nil _ _, ?_⟩
  rw [List.forall_mem_singleton]
  decide

theorem natOfDigits_eq (ds : List Char) : natOfDigits ds = Nat.ofDigitChars 10 ds 0 := rfl

theorem isDigits_append_replicate {ds : List Char} (h : IsDigits ds) (k : Nat) :
    IsDigits (ds ++ List.replicate k '0') ∧ IsDigits (List.replicate k '0' ++ ds) := by
  have hzeros : ∀ c ∈ List.replicate k '0', Piece.IsDigit c := by
    intro c hc
    rw [(List.mem_replicate.1 hc).2]
    decide
  refine ⟨⟨by simp [h.1], ?_⟩, ⟨by simp [h.1], ?_⟩⟩
  · rw [List.forall_mem_append]
    exact ⟨h.2, hzeros⟩
  · rw [List.forall_mem_append]
    exact ⟨hzeros, h.2⟩

/-- Digits with the point put in are digits, or digits on both sides of a point, and stand for the decimal. -/
theorem isNumber_writePositional (n : Nat) (scale : ℤ) :
    ∃ whole fraction, IsNumber whole fraction (numberLayout.writePositional (Nat.toDigits 10 n) scale) ∧
      (natOfDigits (whole ++ fraction) : ℚ) / 10 ^ fraction.length = n * 10 ^ scale := by
  have hdigits := isDigits_toDigits n
  have hvalue : natOfDigits (Nat.toDigits 10 n) = n := Nat.ofDigitChars_ten_toDigits
  have hquotient {k : Nat} (hk : (k : ℤ) = -scale) : (n : ℚ) / 10 ^ k = n * 10 ^ scale := by
    rw [← neg_neg scale, ← hk, zpow_neg, zpow_natCast, div_eq_mul_inv]
  unfold Layout.writePositional
  generalize Nat.toDigits 10 n = text at hdigits hvalue ⊢
  split
  · next hscale =>
    refine ⟨text ++ List.replicate scale.toNat '0', [], ?_, ?_⟩
    · rw [show numberLayout.pointZero = false from rfl, if_neg Bool.false_ne_true, List.append_nil]
      exact .plain (isDigits_append_replicate hdigits _).1
    · have hzeros : natOfDigits (text ++ List.replicate scale.toNat '0') = 10 ^ scale.toNat * n := by
        rw [natOfDigits_eq, Nat.ofDigitChars_append, Nat.ofDigitChars_replicate_zero, ← natOfDigits_eq, hvalue]
      rw [List.append_nil, hzeros, List.length_nil, pow_zero, div_one]
      push_cast
      rw [mul_comm, ← zpow_natCast, Int.toNat_of_nonneg hscale]
  · next hscale =>
    dsimp only
    split
    · next hwhole =>
      refine ⟨text.take (text.length + scale).toNat, text.drop (text.length + scale).toNat, ?_, ?_⟩
      · refine .pointed ⟨?_, fun c hc => hdigits.2 c (List.mem_of_mem_take hc)⟩
          ⟨?_, fun c hc => hdigits.2 c (List.mem_of_mem_drop hc)⟩
        · rw [Ne, List.take_eq_nil_iff, not_or]
          exact ⟨by omega, hdigits.1⟩
        · rw [Ne, List.drop_eq_nil_iff]
          omega
      · rw [List.take_append_drop, hvalue, List.length_drop]
        exact hquotient (by omega)
    · next hwhole =>
      have hzeros : natOfDigits (['0'] ++ (List.replicate (-(text.length + scale)).toNat '0' ++ text)) = n := by
        rw [natOfDigits_eq, List.singleton_append, Nat.ofDigitChars_cons, Nat.ofDigitChars_append,
          Nat.ofDigitChars_replicate_zero, Nat.mul_zero, Nat.sub_self, Nat.add_zero, Nat.mul_zero]
        exact hvalue
      refine ⟨['0'], List.replicate (-(text.length + scale)).toNat '0' ++ text, ?_, ?_⟩
      · exact .pointed isDigits_zero (isDigits_append_replicate hdigits _).2
      · rw [hzeros, List.length_append, List.length_replicate]
        exact hquotient (by omega)

/-- The text of a magnitude is digits, or digits on both sides of a point, and reads back. -/
theorem read_writeFinite {b : Binary} (hb : b.mantissa ≠ 0 → b.Canonical) :
    ∃ whole fraction, IsNumber whole fraction (numberLayout.writeFinite b) ∧
      read whole fraction = ofMagnitude .positive b := by
  unfold Layout.writeFinite
  split
  · next hzero =>
    refine ⟨['0'], [], .plain isDigits_zero, ?_⟩
    rw [ofMagnitude, dif_pos hzero]
    decide
  · next hzero =>
    have hcanonical := hb hzero
    obtain ⟨whole, fraction, hnumber, hvalue⟩ := isNumber_writePositional b.shortest.digits b.shortest.scale
    have htakes := Binary.takes_shortest hcanonical.pos
    rw [Digits.value, ← hvalue] at htakes
    exact ⟨whole, fraction, hnumber, ofScientific_eq hcanonical htakes⟩

/-- The text of a finite float reads back, with a minus in front of it if the float is negative. -/
theorem read_numberText {x : Float} (hx : x.isFinite = true) :
    ∃ whole fraction text, IsNumber whole fraction text ∧
      ((numberText x).toList = text ∧ read whole fraction = x ∨
        (numberText x).toList = '-' :: text ∧ -read whole fraction = x) := by
  obtain ⟨b, hb⟩ := magnitude_of_isFinite hx
  have hcanonical := canonical_of_magnitude hb
  obtain ⟨whole, fraction, hnumber, hread⟩ := read_writeFinite hcanonical
  have hself := eq_ofMagnitude hb
  refine ⟨whole, fraction, numberLayout.writeFinite b, hnumber, ?_⟩
  rw [numberText, Layout.write, hb, String.toList_ofList, hread]
  unfold signOf at hself
  split at hself
  · next hnegative =>
    right
    rw [if_pos hnegative, neg_ofMagnitude hcanonical]
    exact ⟨rfl, hself.symm⟩
  · next hpositive =>
    left
    rw [if_neg hpositive]
    exact ⟨rfl, hself.symm⟩

end Lox.Decimal
