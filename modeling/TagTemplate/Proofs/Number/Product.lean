import TagTemplate.Proofs.Number.Packing

/-! Products of binary64 numbers. A number from zero to below one, times a finite one, is finite and no
larger, and it stays below every whole number that the finite one was rounded from. -/
namespace TagTemplate

namespace Dyadic
open Binary64

def size (d : Dyadic) : ℚ := magnitude d.mantissa d.exponent

def IsCanonical (d : Dyadic) : Prop := Canonical d.mantissa d.exponent

end Dyadic

namespace Binary64
open Float.Model Float.Model.UnpackedFloat

def packed? (d : Dyadic) : Option Dyadic :=
  if d.exponent ≤ 971 then some d else none

variable {x y : Float} {a b d : Dyadic} {q : ℚ}

theorem magnitude_mul (m n : Nat) (e f : Int) :
    magnitude (m * n) (e + f) = magnitude m e * magnitude n f := by
  rw [magnitude, magnitude, magnitude, two_zpow_add, Nat.cast_mul]
  ring

theorem magnitude_zero (e : Int) : magnitude 0 e = 0 := by
  rw [magnitude, Nat.cast_zero, zero_mul]

theorem roundsTo_zero : RoundsTo 0 0 where
  le _ h := h
  ge _ h := h
  lt hn hf _ := (two_zpow_pos _).trans_le (hn.le_magnitude hf)

theorem canonical_zero : Canonical 0 (-1074) := ⟨by norm_num, le_rfl, .inl rfl⟩

theorem exponent_le_target_mul (ha : a.IsCanonical) (hb : b.IsCanonical) (ha0 : a.mantissa ≠ 0)
    (hb0 : b.mantissa ≠ 0) :
    a.exponent + b.exponent ≤ target (a.mantissa * b.mantissa) (a.exponent + b.exponent) := by
  have hbits : ∀ m n : Nat, 2 ^ 52 ≤ m → n ≠ 0 → 52 ≤ (m * n).log2 := by
    intro m n hm hn
    rw [Nat.le_log2 (by positivity)]
    calc 2 ^ 52 ≤ m := hm
      _ ≤ m * n := Nat.le_mul_of_pos_right m (Nat.pos_of_ne_zero hn)
  rw [target_eq]
  rcases ha.full with ha' | ha'
  · rcases hb.full with hb' | hb'
    · omega
    · have := hbits _ _ hb' ha0
      rw [mul_comm] at this
      omega
  · have := hbits _ _ ha' hb0
    omega

theorem exists_mul (ha : a.IsCanonical) (hb : b.IsCanonical) (s t : Sign) :
    ∃ n f, Canonical n f ∧ RoundsTo (a.size * b.size) (magnitude n f) ∧
      UnpackedFloat.mul Format.binary64 (ofParts s a.mantissa a.exponent)
        (ofParts t b.mantissa b.exponent) = ofParts (s * t) n f := by
  by_cases ha0 : a.mantissa = 0
  · refine ⟨0, -1074, canonical_zero, ?_, ?_⟩
    · rw [Dyadic.size, ha0, magnitude_zero, magnitude_zero, zero_mul]
      exact roundsTo_zero
    · rw [ha0]
      by_cases hb0 : b.mantissa = 0
      · rw [hb0]
        rfl
      · simp only [ofParts, dif_neg hb0]
        rfl
  by_cases hb0 : b.mantissa = 0
  · refine ⟨0, -1074, canonical_zero, ?_, ?_⟩
    · rw [Dyadic.size, Dyadic.size, hb0, magnitude_zero, magnitude_zero, mul_zero]
      exact roundsTo_zero
    · rw [hb0]
      simp only [ofParts, dif_neg ha0]
      rfl
  · obtain ⟨n, f, hcanonical, hrounds, heq⟩ := exists_roundWithAccuracy (s * t)
      (Nat.mul_pos (Nat.pos_of_ne_zero ha0) (Nat.pos_of_ne_zero hb0))
      (exponent_le_target_mul ha hb ha0 hb0)
    refine ⟨n, f, hcanonical, ?_, ?_⟩
    · rwa [magnitude_mul] at hrounds
    · rw [← heq]
      simp only [ofParts, dif_neg ha0, dif_neg hb0]
      rfl

theorem mul_eq (x y : Float) : x * y =
    .ofModel (.pack (UnpackedFloat.mul Format.binary64 x.toModel.unpack y.toModel.unpack)) :=
  rfl

/-- Products are the exact ones, rounded. -/
theorem exists_ofFloat?_mul (hx : Dyadic.ofFloat? x = some a) (hy : Dyadic.ofFloat? y = some b) :
    ∃ d : Dyadic, d.IsCanonical ∧ RoundsTo (a.size * b.size) d.size ∧
      Dyadic.ofFloat? (x * y) = packed? d ∧ d.negative = (a.negative != b.negative) := by
  obtain ⟨s, hxs, hs⟩ := unpack_of_ofFloat? hx
  obtain ⟨t, hyt, ht⟩ := unpack_of_ofFloat? hy
  obtain ⟨n, f, hcanonical, hrounds, hmul⟩ :=
    exists_mul (canonical_of_ofFloat? hx).1 (canonical_of_ofFloat? hy).1 s t
  refine ⟨⟨isNegative (s * t), n, f⟩, hcanonical, hrounds, ?_, ?_⟩
  · rw [mul_eq, hxs, hyt, hmul, ofFloat?_pack hcanonical]
    rfl
  · rw [← hs, ← ht]
    cases s <;> cases t <;> rfl

theorem packed?_of_le (hd : d.IsCanonical) (hb : b.IsCanonical) (hlarge : b.exponent ≤ 971)
    (hle : d.size ≤ b.size) : packed? d = some d :=
  if_pos ((hd.exponent_le hb hle).trans hlarge)

theorem isFinite_of_isFinite_mul (h : (x * y).isFinite) : y.isFinite := by
  rw [isFinite_eq] at h ⊢
  by_contra hy
  rw [Bool.not_eq_true, Option.isSome_eq_false_iff, Option.isNone_iff_eq_none, ofFloat?_eq] at hy
  have hnone : fraction? (UnpackedFloat.mul Format.binary64 x.toModel.unpack y.toModel.unpack) =
      none := by
    cases hunpack : y.toModel.unpack with
    | infinity s => cases x.toModel.unpack <;> rfl
    | notANumber => cases x.toModel.unpack <;> rfl
    | _ => rw [hunpack] at hy; cases hy
  rw [mul_eq, ofFloat?_pack_of_not_fraction hnone] at h
  cases h

end Binary64
end TagTemplate
