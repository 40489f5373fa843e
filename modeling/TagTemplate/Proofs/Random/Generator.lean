import TagTemplate.Proofs.Number.Draws
import TagTemplate.Random.Generator

/-! The sources of draws. A whole number of at most 53 bits, divided by `2 ^ 53`, loses nothing and lies
from zero to below one; so do the draws of the seeded generator, whatever the seed. -/
namespace TagTemplate.Binary64
open Float.Model Float.Model.UnpackedFloat

variable {x y : Float} {a d : Dyadic} {m n : Nat} {e : Int}

theorem div_eq (x y : Float) : x / y =
    .ofModel (.pack (UnpackedFloat.div Format.binary64 x.toModel.unpack y.toModel.unpack)) :=
  rfl

theorem divCore_two_pow (hm : m.log2 = 52) (he : -1000 ≤ e) :
    divCore Format.binary64 m e (2 ^ 52) 1 = (m <<< 1, e - 54, .exact) := by
  have hpower : (2 ^ 52).log2 = 52 := Nat.log2_two_pow
  have htarget : min (e - 1)
      (Format.binary64.targetExponent (totalExponent m e - totalExponent (2 ^ 52) 1)) = e - 54 := by
    simp only [totalExponent, hm, hpower, Format.targetExponent]
    change min (e - 1) (max (_ - 53) (-1074)) = _
    omega
  have hshift : (e - 1 - (e - 54)).toNat = 53 := by omega
  have hproduct : m <<< 53 = (m <<< 1) * 2 ^ 52 := by
    simp only [Nat.shiftLeft_eq]
    omega
  simp only [divCore, htarget, hshift, hproduct, Nat.mul_div_cancel _ (Nat.two_pow_pos 52),
    Nat.mul_mod_left, accuracyOfFraction, if_true]

theorem ofFloat?_scale : Dyadic.ofFloat? 9007199254740992 = some ⟨false, 2 ^ 52, 1⟩ := by
  decide +kernel

theorem magnitude_double (m : Nat) (e : Int) :
    magnitude (m <<< 1) (e - 54) = magnitude m (e - 53) := by
  have hone : (e - 53 - (e - 54)).toNat = 1 := by omega
  rw [magnitude_shift (show e - 54 ≤ e - 53 by omega), hone, Nat.shiftLeft_eq]

theorem exists_ofFloat?_div (hx : Dyadic.ofFloat? x = some a) (hfull : 2 ^ 52 ≤ a.mantissa)
    (hlow : -1000 ≤ a.exponent) (hsign : a.negative = false) :
    ∃ d, Dyadic.ofFloat? (x / 9007199254740992) = some d ∧ d.negative = false ∧
      d.size = magnitude a.mantissa (a.exponent - 53) := by
  obtain ⟨hcanonical, hhigh⟩ := canonical_of_ofFloat? hx
  obtain ⟨s, hxs, hs⟩ := unpack_of_ofFloat? hx
  obtain ⟨t, hyt, ht⟩ := unpack_of_ofFloat? ofFloat?_scale
  have hne : a.mantissa ≠ 0 := by omega
  have hlog : a.mantissa.log2 = 52 := (Nat.log2_eq_iff hne).mpr ⟨hfull, hcanonical.bound⟩
  have hless : Canonical a.mantissa (a.exponent - 53) :=
    ⟨hcanonical.bound, by omega, .inr hfull⟩
  have htarget : a.exponent - (54 : Int) ≤ target (a.mantissa <<< 1) (a.exponent - 54) := by
    rw [target_eq, log2_shiftLeft hne]
    omega
  have hpos : 0 < a.mantissa <<< 1 := by
    rw [Nat.shiftLeft_eq]
    omega
  obtain ⟨n, f, hn, hrounds, hround⟩ := exists_roundWithAccuracy (s / t) hpos htarget
  rw [magnitude_double] at hrounds
  have hsize := hrounds.eq_of_canonical hless
  have hexponent : f ≤ 971 := (hn.exponent_le hless hsize.le).trans (by omega)
  have hquotient : UnpackedFloat.div Format.binary64 (ofParts s a.mantissa a.exponent)
      (ofParts t (2 ^ 52) 1) = ofParts (s / t) n f := by
    rw [← hround, ofParts, dif_neg hne, ofParts, dif_neg (by norm_num)]
    simp only [UnpackedFloat.div, divCore_two_pow hlog hlow]
  refine ⟨⟨isNegative (s / t), n, f⟩, ?_, ?_, hsize⟩
  · rw [div_eq, hxs, hyt, hquotient, ofFloat?_pack hn, if_pos hexponent]
  · have hst : isNegative s = false ∧ isNegative t = false := ⟨hs.trans hsign, ht⟩
    cases s <;> cases t <;> simp [isNegative] at hst ⊢
    rfl

theorem isDraw_of_fraction (hx : Dyadic.ofFloat? x = some d) (hsign : d.negative = false)
    (hsize : d.size < 1) : IsDraw x := by
  obtain ⟨hcanonical, -⟩ := canonical_of_ofFloat? hx
  obtain ⟨s, hunpack, hs⟩ := unpack_of_ofFloat? hx
  obtain rfl : s = .positive := by
    cases s with
    | positive => rfl
    | negative => cases hs.trans hsign
  have hexponent : d.exponent < -52 := by
    by_cases hlow : d.exponent = -1074
    · omega
    · have hpowers := (hcanonical.le_magnitude hlow).trans_lt hsize
      rw [← zpow_zero (2 : ℚ), two_zpow_lt_iff] at hpowers
      omega
  have hcompare : compare d.exponent (-52) = .lt := Int.compare_eq_lt.mpr hexponent
  have hle : UnpackedFloat.le (0 : Float).toModel.unpack x.toModel.unpack := by
    rw [unpack_zero, hunpack, ofParts]
    split <;> rfl
  have hlt : UnpackedFloat.lt x.toModel.unpack (1 : Float).toModel.unpack := by
    rw [unpack_one, hunpack, ofParts]
    split
    · rfl
    · simp [UnpackedFloat.lt, UnpackedFloat.compare, hcompare]
  exact ⟨decide_eq_true hle, decide_eq_true hlt⟩

theorem exists_ofFloat?_of_lt (hn : n ≠ 0) (hbound : n < 2 ^ 53) :
    ∃ a, Dyadic.ofFloat? (Float.ofNat n) = some a ∧ a.size = n ∧ a.negative = false ∧
      2 ^ 52 ≤ a.mantissa ∧ -1000 ≤ a.exponent := by
  obtain ⟨a, ha, hrounds, hsign, hofNat⟩ := exists_ofFloat?_ofNat n
  have hcanonical := canonical_shiftLeft hn hbound
  have hsize : a.size = n := by
    have hexact := magnitude_shiftLeft n (spareBits n)
    rw [← hexact] at hrounds ⊢
    exact hrounds.eq_of_canonical hcanonical
  have hone : (2 : ℚ) ^ (0 : Int) ≤ a.size := by
    rw [zpow_zero, hsize]
    exact_mod_cast Nat.one_le_iff_ne_zero.mpr hn
  have hexponent : -53 < a.exponent := by
    have hpowers := hone.trans_lt ha.magnitude_lt
    rw [two_zpow_lt_iff] at hpowers
    omega
  have hhigh : a.exponent ≤ 0 := by
    have hle : a.size ≤ magnitude (n <<< spareBits n) (-spareBits n) := by
      rw [hsize, magnitude_shiftLeft]
    have := ha.exponent_le hcanonical hle
    omega
  refine ⟨a, ?_, hsize, hsign, ha.full.resolve_left (by omega), by omega⟩
  rw [hofNat, packed?, if_pos (by omega)]

theorem isDraw_div (hbound : n < 2 ^ 53) : IsDraw (Float.ofNat n / 9007199254740992) := by
  by_cases hn : n = 0
  · subst hn
    exact isDraw_of_fraction (d := ⟨false, 0, -1074⟩) (by decide +kernel) rfl
      (by rw [Dyadic.size, magnitude_zero]; norm_num)
  obtain ⟨a, ha, hsize, hsign, hfull, hlow⟩ := exists_ofFloat?_of_lt hn hbound
  obtain ⟨d, hd, hdsign, hdsize⟩ := exists_ofFloat?_div ha hfull hlow hsign
  refine isDraw_of_fraction hd hdsign ?_
  have hpart : magnitude a.mantissa (a.exponent - 53) = a.size * 2 ^ (-53 : Int) := by
    rw [Dyadic.size, magnitude, magnitude, sub_eq_add_neg, two_zpow_add, mul_assoc]
  have hnumber : (n : ℚ) < 2 ^ 53 := by exact_mod_cast hbound
  calc d.size = n * 2 ^ (-53 : Int) := by rw [hdsize, hpart, hsize]
    _ < 2 ^ 53 * 2 ^ (-53 : Int) := mul_lt_mul_of_pos_right hnumber (two_zpow_pos _)
    _ = 1 := by norm_num

end TagTemplate.Binary64

namespace TagTemplate.Random
open Binary64

theorem toNat_shiftRight_lt (word : UInt32) :
    (word >>> 5).toNat < 2 ^ 27 ∧ (word >>> 6).toNat < 2 ^ 26 := by
  have hword : word.toNat < 2 ^ 32 := word.toNat_lt
  have hfive : (word >>> 5).toNat = word.toNat / 2 ^ 5 := Nat.shiftRight_eq_div_pow _ _
  have hsix : (word >>> 6).toNat = word.toNat / 2 ^ 6 := Nat.shiftRight_eq_div_pow _ _
  omega

/-- Of two words 27 and 26 bits make a number below `2 ^ 53`. -/
theorem isDraw_twister (g : MersenneTwister) : IsDraw g.draw.1 := by
  have hhigh := (toNat_shiftRight_lt g.nextWord.1).1
  have hlow := (toNat_shiftRight_lt g.nextWord.2.nextWord.1).2
  apply isDraw_div
  rw [twoPow_eq]
  change (g.nextWord.1 >>> 5).toNat * 2 ^ 26 + (g.nextWord.2.nextWord.1 >>> 6).toNat < 2 ^ 53
  omega

namespace Generator

def IsWithin : Generator → Prop
  | twister _ => True
  | cycle numbers _ => numbers ≠ [] ∧ ∀ x ∈ numbers, IsDraw x

theorem exists_draw {g : Generator} (h : g.IsWithin) :
    ∃ x, g.draw.1 = some x ∧ IsDraw x ∧ g.draw.2.IsWithin := by
  cases g with
  | twister g => exact ⟨_, rfl, isDraw_twister g, trivial⟩
  | cycle numbers used =>
    have hlt : used % numbers.length < numbers.length :=
      Nat.mod_lt _ (List.length_pos_iff.mpr h.1)
    exact ⟨_, List.getElem?_eq_getElem hlt, h.2 _ (List.getElem_mem hlt), h⟩

end Generator
end TagTemplate.Random
