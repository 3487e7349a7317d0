import Lox.Proofs.Decimal.Rounding

/-!
# The bits of a float

A finite float is a sign and a magnitude, and both can be told from its bits. The functions that write a float take
the bits apart by arithmetic; the operations on floats unpack them as bit vectors. Here the two views are shown to
be one.

**Packing.** `toNat_packComponents` makes a sum of the three fields, after which all is arithmetic. `unpack_pack`
holds for canonical magnitudes only: any other would come back with another exponent or not at all.

**Magnitudes.** `ofMagnitude` goes back from `magnitude`. A zero is not canonical, but it has a sign and bits like
the other floats, so the statements on bits include it.

**Results.**
* `unpack_pack`: what was packed is unpacked.
* `magnitude_of_isFinite`, `canonical_of_magnitude`: what the magnitude of a finite float is.
* `eq_ofMagnitude`: a float is made of its sign and magnitude.
* `neg_ofMagnitude`: a minus changes the sign only.
-/
namespace Lox.Decimal

open Float.Model Float.Model.UnpackedFloat

theorem float_ext {x y : Float} (h : x.toBits.toNat = y.toBits.toNat) : x = y := by
  obtain ⟨⟨n, hn⟩⟩ := x
  obtain ⟨⟨k, hk⟩⟩ := y
  obtain rfl : n = k := UInt64.toNat_inj.1 h
  rfl

/-- The sign bit as it stands in front of the other bits. -/
def signBit : Sign → Nat
  | .negative => 2 ^ 63
  | .positive => 0

theorem toNat_packComponents (s : Sign) (e : BitVec 11) (m : BitVec 52) :
    (packComponents Format.binary64 s e m).toNat = signBit s + e.toNat * 2 ^ 52 + m.toNat := by
  unfold packComponents
  rw [BitVec.toNat_append, BitVec.toNat_append, ← Nat.shiftLeft_add_eq_or_of_lt e.isLt,
    ← Nat.shiftLeft_add_eq_or_of_lt m.isLt, Nat.shiftLeft_eq, Nat.shiftLeft_eq]
  cases s <;> simp [signBit, Sign.toBitVec, Nat.add_mul]

/-- A mantissa with 53 bits is stored without the first one. A shorter one has exponent bits 0. -/
theorem pack_eq {b : Binary} (hb : b.Canonical) (s : Sign) :
    UnpackedFloat.pack Format.binary64 (.finite s b.mantissa b.exponent hb.pos) =
      packComponents Format.binary64 s
        (BitVec.ofNat 11 (if 2 ^ 52 ≤ b.mantissa then (b.exponent + 1075).toNat else 0))
        (BitVec.ofNat 52 b.mantissa) := by
  have hlt : b.mantissa.log2 < 53 := (Nat.log2_lt hb.pos.ne').2 hb.lt
  have hfull : b.mantissa.log2 + 1 = 53 ↔ 2 ^ 52 ≤ b.mantissa := by
    rw [← Nat.le_log2 hb.pos.ne']
    omega
  have hbiased : (b.exponent + (1023 : Nat) + (52 : Nat)).toNat = (b.exponent + 1075).toNat := by omega
  have hfinite : ¬ 2 ^ 11 ≤ (b.exponent + 1075).toNat + 1 := by
    have := hb.greatest
    omega
  unfold UnpackedFloat.pack
  change (if 2 ^ 11 ≤ (b.exponent + (1023 : Nat) + (52 : Nat)).toNat + 1 then _ else
    if b.mantissa.log2 + 1 = 53 then
      packComponents _ s (BitVec.ofNat _ (b.exponent + (1023 : Nat) + (52 : Nat)).toNat) _ else _) = _
  rw [hbiased, if_neg hfinite]
  simp only [hfull]
  split <;> rfl

/-! ## Unpacking -/

theorem unpackSign_packComponents (s : Sign) (e : BitVec 11) (m : BitVec 52) :
    Sign.ofBitVec (unpackSign (packComponents Format.binary64 s e m)) = s := by
  have htop : (unpackSign (packComponents Format.binary64 s e m)).toNat = signBit s / 2 ^ 63 := by
    unfold unpackSign
    rw [BitVec.toNat_cast, BitVec.extractLsb_toNat, toNat_packComponents, Nat.shiftRight_eq_div_pow]
    have he := e.isLt
    have hm := m.isLt
    cases s <;> simp only [signBit] <;> omega
  cases s with
  | negative =>
    have hone : unpackSign (packComponents Format.binary64 .negative e m) = 1#1 := BitVec.eq_of_toNat_eq htop
    rw [hone]
    rfl
  | positive =>
    have hzero : unpackSign (packComponents Format.binary64 .positive e m) = 0#1 := BitVec.eq_of_toNat_eq htop
    rw [hzero]
    rfl

theorem toNat_one_append (m : BitVec 52) : (1#1 ++ m).toNat = 2 ^ 52 + m.toNat := by
  rw [BitVec.toNat_append, ← Nat.shiftLeft_add_eq_or_of_lt m.isLt]
  rfl

theorem unpack_pack {b : Binary} (hb : b.Canonical) (s : Sign) :
    UnpackedFloat.unpack Format.binary64
      (UnpackedFloat.pack Format.binary64 (.finite s b.mantissa b.exponent hb.pos)) =
      .finite s b.mantissa b.exponent hb.pos := by
  have hlt := hb.lt
  have hleast := hb.least
  have hgreatest := hb.greatest
  rw [pack_eq hb]
  generalize hbits : packComponents Format.binary64 s _ _ = bits
  have hsign : Sign.ofBitVec (unpackSign bits) = s := by
    rw [← hbits]
    exact unpackSign_packComponents s _ _
  have hbiased : unpackExponent bits = _ := hbits ▸ unpackExponent_packComponents
  have hfraction : unpackMantissa bits = _ := hbits ▸ unpackMantissa_packComponents
  unfold UnpackedFloat.unpack
  dsimp only
  by_cases hfull : 2 ^ 52 ≤ b.mantissa
  · rw [if_pos hfull] at hbiased
    have hexponent : (unpackExponent bits).toNat = (b.exponent + 1075).toNat := by
      rw [hbiased]
      change (b.exponent + 1075).toNat % 2 ^ 11 = _
      omega
    have hfinite : unpackExponent bits ≠ -1#11 := by
      intro h
      rw [h] at hexponent
      change 2047 = _ at hexponent
      omega
    have hnormal : unpackExponent bits ≠ 0#11 := by
      intro h
      rw [h] at hexponent
      change 0 = _ at hexponent
      omega
    have hmantissa : (1#1 ++ unpackMantissa bits).toNat = b.mantissa := by
      rw [hfraction, toNat_one_append, BitVec.toNat_ofNat]
      omega
    rw [if_neg hfinite, if_neg hnormal]
    congr 1
    rw [hexponent]
    change ((b.exponent + 1075).toNat : ℤ) - ((1023 : Nat) + (52 : Nat)) = _
    omega
  · rw [if_neg hfull] at hbiased
    have hexponent : b.exponent = -1074 := hb.full.resolve_right hfull
    have hmantissa : (unpackMantissa bits).toNat = b.mantissa := by
      rw [hfraction]
      change b.mantissa % 2 ^ 52 = _
      omega
    have hpos : unpackMantissa bits ≠ 0#52 := by
      intro h
      rw [h] at hmantissa
      exact hb.pos.ne hmantissa
    have hfinite : unpackExponent bits ≠ -1#11 := by
      rw [hbiased]
      decide
    rw [if_neg hfinite, if_pos hbiased, dif_neg hpos]
    congr 1
    rw [hexponent, hbiased]
    rfl

/-! ## The magnitude of a float -/

/-- The sign of a float. -/
def signOf (x : Float) : Sign := if isNegative x then .negative else .positive

theorem isNegative_iff {x : Float} : isNegative x = true ↔ 2 ^ 63 ≤ x.toBits.toNat := decide_eq_true_iff

/-- What exponent and fraction bits say of a finite float. -/
theorem magnitude_cases {x : Float} {b : Binary} (h : magnitude x = .finite b) :
    ∃ biased fraction, x.toBits.toNat % 2 ^ 63 = biased * 2 ^ 52 + fraction ∧ fraction < 2 ^ 52 ∧
      (biased = 0 ∧ b = ⟨fraction, -1074, false⟩ ∨
        0 < biased ∧ biased < 2047 ∧
          b = ⟨2 ^ 52 + fraction, (biased : ℤ) - 1075, fraction == 0 && biased != 1⟩) := by
  have hlt : x.toBits.toNat % 2 ^ 63 < 2 ^ 63 := Nat.mod_lt _ (by norm_num)
  refine ⟨x.toBits.toNat % 2 ^ 63 / 2 ^ 52, x.toBits.toNat % 2 ^ 63 % 2 ^ 52, by omega, by omega, ?_⟩
  unfold magnitude at h
  dsimp only at h
  change (if x.toBits.toNat % 2 ^ 63 / 2 ^ 52 = 2047 then _ else _) = _ at h
  split at h
  · split at h <;> cases h
  · next hfinite =>
    split at h
    · next hzero =>
      cases h
      exact .inl ⟨hzero, rfl⟩
    · next hnormal =>
      cases h
      exact .inr ⟨Nat.pos_of_ne_zero hnormal, by omega, rfl⟩

theorem canonical_of_magnitude {x : Float} {b : Binary} (h : magnitude x = .finite b) (hb : b.mantissa ≠ 0) :
    b.Canonical := by
  obtain ⟨biased, fraction, -, hlt, ⟨-, rfl⟩ | ⟨hpos, hbiased, rfl⟩⟩ := magnitude_cases h
  · refine ⟨Nat.pos_of_ne_zero hb, ?_, le_refl _, by norm_num, .inl rfl, ?_⟩
    · exact Nat.lt_trans hlt (by norm_num)
    · simp
  · refine ⟨Nat.pos_of_ne_zero hb, by dsimp only; omega, by dsimp only; omega, by dsimp only; omega,
      .inr (Nat.le_add_right _ _), ?_⟩
    simp
    omega

theorem toNat_unpackExponent (v : BitVec 64) :
    (@unpackExponent Format.binary64 v).toNat = v.toNat % 2 ^ 63 / 2 ^ 52 := by
  have hv := v.isLt
  unfold unpackExponent
  rw [BitVec.toNat_cast, BitVec.extractLsb_toNat, Nat.shiftRight_eq_div_pow]
  change v.toNat / 2 ^ 52 % 2 ^ 11 = _
  omega

theorem magnitude_of_isFinite {x : Float} (h : x.isFinite = true) : ∃ b, magnitude x = .finite b := by
  have hbiased : x.toBits.toNat % 2 ^ 63 / 2 ^ 52 ≠ 2047 := by
    intro hones
    have hexponent : @unpackExponent Format.binary64 x.toBits.toBitVec = -1#11 :=
      BitVec.eq_of_toNat_eq ((toNat_unpackExponent _).trans hones)
    change (UnpackedFloat.unpack Format.binary64 x.toBits.toBitVec).isFinite = true at h
    unfold UnpackedFloat.unpack at h
    dsimp only at h
    rw [if_pos hexponent] at h
    split at h <;> cases h
  unfold magnitude
  dsimp only
  change ∃ b, (if x.toBits.toNat % 2 ^ 63 / 2 ^ 52 = 2047 then _ else _) = _
  rw [if_neg hbiased]
  split <;> exact ⟨_, rfl⟩

/-- The float with a sign and a magnitude. -/
def ofMagnitude (s : Sign) (b : Binary) : Float :=
  .ofModel (.pack (if h : b.mantissa = 0 then .zero s
    else .finite s b.mantissa b.exponent (Nat.pos_of_ne_zero h)))

theorem ofMagnitude_of_canonical {b : Binary} (hb : b.Canonical) (s : Sign) :
    ofMagnitude s b = .ofModel (.pack (.finite s b.mantissa b.exponent hb.pos)) := by
  rw [ofMagnitude, dif_neg hb.pos.ne']

theorem toNat_toBits_ofMagnitude {b : Binary} (hb : b.mantissa ≠ 0 → b.Canonical) (s : Sign) :
    (ofMagnitude s b).toBits.toNat =
      signBit s + (if 2 ^ 52 ≤ b.mantissa then (b.exponent + 1075).toNat else 0) * 2 ^ 52 + b.mantissa % 2 ^ 52 := by
  by_cases hzero : b.mantissa = 0
  · rw [ofMagnitude, dif_pos hzero, hzero]
    exact toNat_packComponents s 0 0
  · have hcanonical := hb hzero
    rw [ofMagnitude_of_canonical hcanonical]
    change (UnpackedFloat.pack Format.binary64 _).toNat = _
    rw [pack_eq hcanonical, toNat_packComponents, BitVec.toNat_ofNat, BitVec.toNat_ofNat]
    have hgreatest := hcanonical.greatest
    split <;> omega

/-- A float is made of its sign and magnitude. -/
theorem eq_ofMagnitude {x : Float} {b : Binary} (h : magnitude x = .finite b) : x = ofMagnitude (signOf x) b := by
  apply float_ext
  have hlt : x.toBits.toNat < 2 ^ 64 := x.toBits.toNat_lt
  have hsign : signBit (signOf x) = x.toBits.toNat / 2 ^ 63 * 2 ^ 63 := by
    unfold signOf
    split
    · next hnegative =>
      rw [isNegative_iff] at hnegative
      rw [signBit]
      omega
    · next hpositive =>
      rw [isNegative_iff] at hpositive
      rw [signBit]
      omega
  rw [toNat_toBits_ofMagnitude (canonical_of_magnitude h), hsign]
  obtain ⟨biased, fraction, hbits, hfraction, ⟨rfl, rfl⟩ | ⟨hpos, hbiased, rfl⟩⟩ := magnitude_cases h
  · dsimp only
    rw [if_neg (by omega)]
    omega
  · dsimp only
    rw [if_pos (by omega)]
    omega

/-- Another sign is all that a minus makes of a float. -/
theorem neg_ofMagnitude {b : Binary} (hb : b.mantissa ≠ 0 → b.Canonical) :
    -ofMagnitude .positive b = ofMagnitude .negative b := by
  by_cases hzero : b.mantissa = 0
  · rw [ofMagnitude, ofMagnitude, dif_pos hzero, dif_pos hzero]
    rfl
  · have hcanonical := hb hzero
    rw [ofMagnitude_of_canonical hcanonical, ofMagnitude_of_canonical hcanonical]
    change Float.ofModel (Float.Model.pack (UnpackedFloat.neg (UnpackedFloat.unpack Format.binary64
      (UnpackedFloat.pack Format.binary64 _)))) = _
    rw [unpack_pack hcanonical]
    rfl

end Lox.Decimal
