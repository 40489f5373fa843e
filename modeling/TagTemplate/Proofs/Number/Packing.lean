import TagTemplate.Number.Dyadic
import TagTemplate.Proofs.Number.Rounding

/-! How binary64 numbers are packed into bits. The exact fraction that is read off the bits is the one
that the model of binary64 computes with, and what it computes is packed without loss unless it is too
large. -/
namespace TagTemplate.Binary64
open Float.Model Float.Model.UnpackedFloat

def isNegative : Sign → Bool
  | .negative => true
  | .positive => false

def fraction? : UnpackedFloat → Option Dyadic
  | .zero s => some ⟨isNegative s, 0, -1074⟩
  | .finite s m e _ => some ⟨isNegative s, m, e⟩
  | .infinity _ => none
  | .notANumber => none

theorem twoPow_eq (n : Nat) : twoPow n = 2 ^ n := rfl

section Fields

variable (b : BitVec Format.binary64.numBits)

theorem toNat_unpackMantissa : (unpackMantissa b).toNat = b.toNat % 2 ^ 52 := by
  simp [unpackMantissa, BitVec.extractLsb_toNat]

theorem toNat_unpackExponent : (unpackExponent b).toNat = b.toNat / 2 ^ 52 % 2 ^ 11 := by
  simp [unpackExponent, BitVec.extractLsb_toNat, Nat.shiftRight_eq_div_pow]

theorem toNat_unpackSign : (unpackSign b).toNat = b.toNat / 2 ^ 63 := by
  have hlt : b.toNat < 2 ^ 64 := b.isLt
  simp [unpackSign, BitVec.extractLsb_toNat, Nat.shiftRight_eq_div_pow]
  omega

theorem isNegative_unpackSign :
    isNegative (Sign.ofBitVec (unpackSign b)) = decide (2 ^ 63 ≤ b.toNat) := by
  have hzero : unpackSign b = 0#1 ↔ b.toNat < 2 ^ 63 := by
    rw [← BitVec.toNat_inj, toNat_unpackSign, BitVec.toNat_zero, Nat.div_eq_zero_iff]
    simp
  by_cases h : b.toNat < 2 ^ 63
  · simp only [Sign.ofBitVec, if_pos (hzero.mpr h), isNegative, Nat.not_le.mpr h, decide_false]
  · simp only [Sign.ofBitVec, if_neg (mt hzero.mp h), isNegative, Nat.not_lt.mp h, decide_true]

end Fields

theorem toNat_append_implicit {k : Nat} (m : BitVec k) : (1#1 ++ m).toNat = 2 ^ k + m.toNat := by
  rw [BitVec.toNat_append, ← Nat.shiftLeft_add_eq_or_of_lt m.isLt]
  simp [Nat.shiftLeft_eq]

theorem fraction?_unpack (b : BitVec Format.binary64.numBits) :
    fraction? (UnpackedFloat.unpack Format.binary64 b) =
      if (unpackExponent b).toNat = 2047 then none
      else if (unpackExponent b).toNat = 0 then
        some ⟨decide (2 ^ 63 ≤ b.toNat), (unpackMantissa b).toNat, -1074⟩
      else
        some ⟨decide (2 ^ 63 ≤ b.toNat), 2 ^ 52 + (unpackMantissa b).toNat,
          ((unpackExponent b).toNat : Int) - 1075⟩ := by
  have hinfinite : unpackExponent b = -1#_ ↔ (unpackExponent b).toNat = 2047 :=
    BitVec.toNat_inj.symm
  have hlow : unpackExponent b = 0#_ ↔ (unpackExponent b).toNat = 0 := BitVec.toNat_inj.symm
  have hzero : unpackMantissa b = 0#_ ↔ (unpackMantissa b).toNat = 0 := BitVec.toNat_inj.symm
  simp only [UnpackedFloat.unpack, hinfinite, hlow, hzero, ← isNegative_unpackSign]
  by_cases h2047 : (unpackExponent b).toNat = 2047
  · simp only [h2047, if_true]
    split <;> rfl
  by_cases h0 : (unpackExponent b).toNat = 0
  · by_cases hm : (unpackMantissa b).toNat = 0
    · simp only [h0, hm, dif_pos]
      rfl
    · simp only [h0, dif_neg hm]
      rfl
  · simp only [if_neg h2047, if_neg h0, fraction?, toNat_append_implicit]
    rfl

theorem ofFloat?_eq (x : Float) : Dyadic.ofFloat? x = fraction? x.toModel.unpack := by
  have hbits : x.toBits.toNat = x.toModel.toBits.toBitVec.toNat := rfl
  rw [Float.Model.unpack, fraction?_unpack, toNat_unpackExponent, toNat_unpackMantissa]
  simp only [Dyadic.ofFloat?, twoPow_eq, hbits]

theorem canonical_unpack {b : BitVec Format.binary64.numBits} {d : Dyadic}
    (h : fraction? (UnpackedFloat.unpack Format.binary64 b) = some d) :
    Canonical d.mantissa d.exponent ∧ d.exponent ≤ 971 := by
  have hmantissa : (unpackMantissa b).toNat < 2 ^ 52 := (unpackMantissa b).isLt
  have hexponent : (unpackExponent b).toNat < 2 ^ 11 := (unpackExponent b).isLt
  rw [fraction?_unpack] at h
  split at h
  · cases h
  split at h
  · cases h
    exact ⟨⟨by simp only; omega, le_rfl, .inl rfl⟩, by norm_num⟩
  · cases h
    exact ⟨⟨by simp only; omega, by simp only; omega, .inr (by simp only; omega)⟩,
      by simp only; omega⟩

theorem canonical_of_ofFloat? {x : Float} {d : Dyadic} (h : Dyadic.ofFloat? x = some d) :
    Canonical d.mantissa d.exponent ∧ d.exponent ≤ 971 := by
  rw [ofFloat?_eq] at h
  exact canonical_unpack h

theorem unpack_of_ofFloat? {x : Float} {d : Dyadic} (h : Dyadic.ofFloat? x = some d) :
    ∃ s, x.toModel.unpack = ofParts s d.mantissa d.exponent ∧ isNegative s = d.negative := by
  rw [ofFloat?_eq] at h
  cases hunpack : x.toModel.unpack with
  | infinity s => rw [hunpack] at h; cases h
  | notANumber => rw [hunpack] at h; cases h
  | zero s =>
    rw [hunpack] at h
    cases h
    exact ⟨s, rfl, rfl⟩
  | finite s m e hm =>
    rw [hunpack] at h
    cases h
    exact ⟨s, by rw [ofParts, dif_neg hm.ne'], rfl⟩

theorem isFinite_eq (x : Float) : x.isFinite = (Dyadic.ofFloat? x).isSome := by
  rw [ofFloat?_eq, Float.isFinite, Float.Model.isFinite]
  cases x.toModel.unpack <;> rfl

theorem fraction?_packComponents (s : Sign) (e : BitVec Format.binary64.exponentBits)
    (m : BitVec Format.binary64.mantissaBitsWithoutImplicit) :
    fraction? (UnpackedFloat.unpack Format.binary64 (packComponents Format.binary64 s e m)) =
      if e.toNat = 2047 then none
      else if e.toNat = 0 then some ⟨isNegative s, m.toNat, -1074⟩
      else some ⟨isNegative s, 2 ^ 52 + m.toNat, (e.toNat : Int) - 1075⟩ := by
  rw [fraction?_unpack, ← isNegative_unpackSign, unpackSign_packComponents,
    Sign.ofBitVec_toBitVec, unpackExponent_packComponents, unpackMantissa_packComponents]

theorem ofFloat?_ofModel_pack (u : UnpackedFloat) :
    Dyadic.ofFloat? (.ofModel (.pack u)) =
      fraction? (UnpackedFloat.unpack Format.binary64 (UnpackedFloat.pack Format.binary64 u)) := by
  rw [ofFloat?_eq]
  rfl

theorem toNat_ofNat_exponent {n : Nat} (h : n < 2048) :
    (BitVec.ofNat Format.binary64.exponentBits n).toNat = n := by
  rw [BitVec.toNat_ofNat]
  exact Nat.mod_eq_of_lt h

theorem toNat_ofNat_mantissa (n : Nat) :
    (BitVec.ofNat Format.binary64.mantissaBitsWithoutImplicit n).toNat = n % 2 ^ 52 :=
  BitVec.toNat_ofNat n 52

/-- The first bit of a full mantissa is left out, and the exponent tells that it is there. -/
theorem pack_ofParts {m : Nat} {e : Int} (h : Canonical m e) (hm : m ≠ 0) (s : Sign) :
    UnpackedFloat.pack Format.binary64 (ofParts s m e) =
      if 971 < e then packedInfinity Format.binary64 s
      else if 2 ^ 52 ≤ m then
        packComponents Format.binary64 s (BitVec.ofNat _ (e + 1075).toNat) (BitVec.ofNat _ m)
      else packComponents Format.binary64 s 0#_ (BitVec.ofNat _ m) := by
  have hbias : (e + Format.binary64.exponentBias +
      Format.binary64.mantissaBitsWithoutImplicit).toNat = (e + 1075).toNat := by
    congr 1
    exact Int.add_assoc e 1023 52
  have hcapacity : 2 ^ Format.binary64.exponentBits = 2048 := rfl
  have hbits : Format.binary64.mantissaBits = 53 := rfl
  have hlog : m.log2 + 1 = 53 ↔ 2 ^ 52 ≤ m := by
    rw [Nat.add_right_cancel_iff, Nat.log2_eq_iff hm]
    exact and_iff_left h.bound
  have hlarge : 2048 ≤ (e + 1075).toNat + 1 ↔ 971 < e := by omega
  simp only [ofParts, dif_neg hm, UnpackedFloat.pack, hbias, hcapacity, hbits, hlog, hlarge]

/-- What is rounded is packed without loss, unless its exponent is too large. -/
theorem ofFloat?_pack {m : Nat} {e : Int} (h : Canonical m e) (s : Sign) :
    Dyadic.ofFloat? (.ofModel (.pack (ofParts s m e))) =
      if e ≤ 971 then some ⟨isNegative s, m, e⟩ else none := by
  have hlow := h.low
  have hbound := h.bound
  rw [ofFloat?_ofModel_pack]
  by_cases hzero : m = 0
  · obtain rfl : e = -1074 := h.full.resolve_right (by omega)
    subst hzero
    exact fraction?_packComponents s _ _
  rw [pack_ofParts h hzero]
  by_cases hlarge : e ≤ 971
  · rw [if_neg (by omega), if_pos hlarge]
    by_cases hfull : 2 ^ 52 ≤ m
    · have hvalue : 2 ^ 52 + m % 2 ^ 52 = m := by omega
      have hback : ((e + 1075).toNat : Int) - 1075 = e := by omega
      rw [if_pos hfull, fraction?_packComponents, toNat_ofNat_mantissa,
        toNat_ofNat_exponent (by omega), if_neg (by omega), if_neg (by omega), hvalue, hback]
    · obtain rfl : e = -1074 := h.full.resolve_right hfull
      rw [if_neg hfull, fraction?_packComponents, toNat_ofNat_mantissa,
        Nat.mod_eq_of_lt (Nat.not_le.mp hfull)]
      rfl
  · rw [if_pos (by omega), if_neg hlarge]
    exact fraction?_packComponents s _ _

theorem ofFloat?_pack_of_not_fraction {u : UnpackedFloat} (h : fraction? u = none) :
    Dyadic.ofFloat? (.ofModel (.pack u)) = none := by
  rw [ofFloat?_ofModel_pack]
  cases u with
  | infinity s => exact fraction?_packComponents s _ _
  | notANumber => exact fraction?_packComponents .positive _ _
  | _ => cases h

end TagTemplate.Binary64
