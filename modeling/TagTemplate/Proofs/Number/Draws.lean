import TagTemplate.Proofs.Number.Product

/-! Draws. A number from zero to below one, times a whole number, lies below the whole number, however
its binary64 value was rounded, and so do whole steps of it. -/
namespace TagTemplate.Binary64
open Float.Model Float.Model.UnpackedFloat

variable {x y : Float} {a b d : Dyadic} {m n : Nat} {e : Int}

/-- A number from zero to below one. Zero may have a sign. -/
def IsDraw (x : Float) : Prop := 0 ≤ x ∧ x < 1

theorem ofFloat?_zero : Dyadic.ofFloat? 0 = some ⟨false, 0, -1074⟩ := by decide +kernel

theorem ofFloat?_one : Dyadic.ofFloat? 1 = some ⟨false, 2 ^ 52, -52⟩ := by decide +kernel

theorem unpack_zero : (0 : Float).toModel.unpack = .zero .positive := by
  obtain ⟨s, hunpack, hs⟩ := unpack_of_ofFloat? ofFloat?_zero
  cases s with
  | negative => cases hs
  | positive => exact hunpack

theorem unpack_one : (1 : Float).toModel.unpack = .finite .positive (2 ^ 52) (-52) (Nat.two_pow_pos 52) := by
  obtain ⟨s, hunpack, hs⟩ := unpack_of_ofFloat? ofFloat?_one
  cases s with
  | negative => cases hs
  | positive => exact hunpack

theorem le_unpack_of_isDraw (h : IsDraw x) : UnpackedFloat.le (.zero .positive) x.toModel.unpack := by
  rw [← unpack_zero]
  exact of_decide_eq_true h.1

theorem lt_unpack_of_isDraw (h : IsDraw x) :
    UnpackedFloat.lt x.toModel.unpack (.finite .positive (2 ^ 52) (-52) (Nat.two_pow_pos 52)) := by
  rw [← unpack_one]
  exact of_decide_eq_true h.2

theorem size_lt_one_of_lt (hcanonical : Canonical m e)
    (h : ((compare e (-52)).then (compare m (2 ^ 52))) = .lt) :
    2 ^ 53 * magnitude m e ≤ 2 ^ 53 - 1 := by
  have hexponent : e ≤ -53 := by
    rw [Ordering.then_eq_lt] at h
    rcases h with hlt | ⟨heq, hlt⟩
    · have := Int.compare_eq_lt.mp hlt
      omega
    · have he : e = -52 := Int.compare_eq_eq.mp heq
      have hm : m < 2 ^ 52 := Nat.compare_eq_lt.mp hlt
      have := hcanonical.full
      omega
  have hbound : (m : ℚ) ≤ 2 ^ 53 - 1 := by
    have : m + 1 ≤ 2 ^ 53 := hcanonical.bound
    have : (m : ℚ) + 1 ≤ 2 ^ 53 := by exact_mod_cast this
    linarith
  have hpower : (2 : ℚ) ^ e ≤ 2 ^ (-53 : Int) := two_zpow_le_iff.mpr hexponent
  calc 2 ^ 53 * magnitude m e ≤ 2 ^ 53 * ((m : ℚ) * 2 ^ (-53 : Int)) := by
        rw [magnitude]
        gcongr
    _ = (m : ℚ) * (2 ^ 53 * 2 ^ (-53 : Int)) := by ring
    _ = (m : ℚ) := by norm_num
    _ ≤ 2 ^ 53 - 1 := hbound

/-- A draw is a fraction, not negative unless it is zero, and below one by a part of `2 ^ 53`. -/
theorem exists_of_isDraw (h : IsDraw x) :
    ∃ a, Dyadic.ofFloat? x = some a ∧ 2 ^ 53 * a.size ≤ 2 ^ 53 - 1 ∧
      (a.negative = false ∨ a.mantissa = 0) := by
  have hle := le_unpack_of_isDraw h
  have hlt := lt_unpack_of_isDraw h
  rw [ofFloat?_eq]
  cases hunpack : x.toModel.unpack with
  | notANumber => simp [hunpack, UnpackedFloat.le, UnpackedFloat.compare] at hle
  | infinity s =>
    cases s with
    | negative => simp [hunpack, UnpackedFloat.le, UnpackedFloat.compare] at hle
    | positive => simp [hunpack, UnpackedFloat.lt, UnpackedFloat.compare] at hlt
  | zero s =>
    refine ⟨_, rfl, ?_, .inr rfl⟩
    rw [Dyadic.size, magnitude_zero]
    norm_num
  | finite s m e hm =>
    cases s with
    | negative => simp [hunpack, UnpackedFloat.le, UnpackedFloat.compare] at hle
    | positive =>
      refine ⟨_, rfl, ?_, .inl rfl⟩
      have hcanonical : Canonical m e :=
        (canonical_of_ofFloat? (x := x) (by rw [ofFloat?_eq, hunpack]; rfl)).1
      apply size_lt_one_of_lt hcanonical
      simpa [hunpack, UnpackedFloat.lt, UnpackedFloat.compare] using hlt

theorem size_nonneg (d : Dyadic) : 0 ≤ d.size :=
  magnitude_nonneg _ _

theorem mantissa_eq_zero_of_size_le (h : d.size ≤ 0) : d.mantissa = 0 := by
  rw [Dyadic.size, ← magnitude_zero d.exponent, magnitude_le_magnitude_iff] at h
  exact Nat.le_zero.mp h

theorem exists_draw_mul (hx : IsDraw x) (hy : Dyadic.ofFloat? y = some b) :
    ∃ d, Dyadic.ofFloat? (x * y) = some d ∧
      (b.exponent ≠ -1074 → d.size < b.size) ∧
      (b.negative = false → d.negative = false ∨ d.mantissa = 0) := by
  obtain ⟨a, ha, hone, hsign⟩ := exists_of_isDraw hx
  obtain ⟨hb, hlarge⟩ := canonical_of_ofFloat? hy
  obtain ⟨d, hd, hrounds, hproduct, hnegative⟩ := exists_ofFloat?_mul ha hy
  have hpart : 2 ^ 53 * (a.size * b.size) ≤ (2 ^ 53 - 1) * b.size := by
    rw [← mul_assoc]
    exact mul_le_mul_of_nonneg_right hone (size_nonneg b)
  have hbelow : a.size * b.size ≤ b.size := by
    have := size_nonneg b
    linarith
  have hle : d.size ≤ b.size := hrounds.le hb hbelow
  refine ⟨d, hproduct.trans (packed?_of_le hd hb hlarge hle), ?_, ?_⟩
  · exact fun hfull => hrounds.lt hb hfull hpart
  · intro hpositive
    rcases hsign with hsign | hzero
    · left
      rw [hnegative, hsign, hpositive]
      rfl
    · right
      apply mantissa_eq_zero_of_size_le
      have hnone := hrounds.le canonical_zero (by
        rw [Dyadic.size, hzero, magnitude_zero, zero_mul, magnitude_zero])
      rwa [magnitude_zero] at hnone

theorem isFinite_draw_mul (hx : IsDraw x) (hy : y.isFinite) : (x * y).isFinite := by
  rw [isFinite_eq] at hy ⊢
  obtain ⟨b, hb⟩ := Option.isSome_iff_exists.mp hy
  obtain ⟨d, hd, -⟩ := exists_draw_mul hx hb
  rw [hd]
  rfl

theorem magnitude_shiftLeft (n : Nat) (k : Nat) : magnitude (n <<< k) (-k) = n := by
  rw [magnitude, Nat.shiftLeft_eq, Nat.cast_mul, Nat.cast_pow, Nat.cast_ofNat, mul_assoc,
    ← zpow_natCast, ← two_zpow_add, Int.add_right_neg, zpow_zero, mul_one]

theorem log2_shiftLeft (hn : n ≠ 0) (k : Nat) : (n <<< k).log2 = n.log2 + k := by
  have hlow := Nat.log2_self_le hn
  have hhigh := Nat.lt_log2_self (n := n)
  have hpos : 0 < 2 ^ k := Nat.two_pow_pos k
  rw [Nat.shiftLeft_eq, Nat.log2_eq_iff (Nat.mul_ne_zero hn hpos.ne')]
  constructor
  · rw [pow_add]
    exact Nat.mul_le_mul_right _ hlow
  · rw [show n.log2 + k + 1 = n.log2 + 1 + k by omega, pow_add]
    exact Nat.mul_lt_mul_of_pos_right hhigh hpos

theorem shiftLeft_pos (hn : n ≠ 0) (k : Nat) : 0 < n <<< k := by
  rw [Nat.shiftLeft_eq]
  positivity

theorem le_target_shiftLeft {k : Nat} (hn : n ≠ 0) (hk : 52 ≤ n.log2 + k) :
    -(k : Int) ≤ target (n <<< k) (-k) := by
  rw [target_eq, log2_shiftLeft hn]
  omega

theorem RoundsTo.eq_of_canonical {q : ℚ} (h : RoundsTo (magnitude m e) q) (hm : Canonical m e) :
    q = magnitude m e :=
  le_antisymm (h.le hm le_rfl) (h.ge hm le_rfl)

def spareBits (n : Nat) : Nat := 52 - n.log2

theorem canonical_shiftLeft (hn : n ≠ 0) (hbound : n < 2 ^ 53) :
    Canonical (n <<< spareBits n) (-spareBits n) := by
  have hlog : n.log2 < 53 := (Nat.log2_lt hn).mpr hbound
  have hlong : (n <<< spareBits n).log2 = 52 := by
    rw [log2_shiftLeft hn, spareBits]
    omega
  obtain ⟨hlow, hhigh⟩ := (Nat.log2_eq_iff (shiftLeft_pos hn _).ne').mp hlong
  refine ⟨hhigh, ?_, .inr hlow⟩
  rw [spareBits]
  omega

theorem round_eq (hn : n ≠ 0) (hbound : n < 2 ^ 53) (s : Sign) :
    UnpackedFloat.round Format.binary64 s n 0 =
      roundWithAccuracy Format.binary64 s (n <<< spareBits n) (-spareBits n) .exact := by
  have hlog : n.log2 < 53 := (Nat.log2_lt hn).mpr hbound
  have hamount : (0 - target n 0).toNat = spareBits n := by
    rw [target_eq, spareBits]
    omega
  simp only [UnpackedFloat.round, decreaseExponent]
  rw [← target, hamount, Int.zero_sub]

theorem normalize_natCast (hn : n ≠ 0) :
    UnpackedFloat.normalize Format.binary64 (n : Int) 0 .positive =
      UnpackedFloat.round Format.binary64 .positive n 0 := by
  have hcompare : compare (n : Int) 0 = .gt := Int.compare_eq_gt.mpr (by omega)
  simp only [UnpackedFloat.normalize, hcompare, Int.toNat_natCast]

theorem toNat_toUInt64 (hn : n < 2 ^ 53) : n.toUInt64.toNat = n := by
  rw [Nat.toUInt64, UInt64.toNat_ofNat']
  exact Nat.mod_eq_of_lt (hn.trans (by norm_num))

theorem exists_ofFloat?_toFloat (hn : n < 2 ^ 53) :
    ∃ d : Dyadic, Dyadic.ofFloat? n.toUInt64.toFloat = some d ∧ d.size = n ∧
      d.negative = false := by
  have hfloat : n.toUInt64.toFloat =
      .ofModel (.pack (UnpackedFloat.normalize Format.binary64 (n.toUInt64.toNat : Int) 0 .positive)) :=
    rfl
  rw [hfloat, toNat_toUInt64 hn]
  by_cases hzero : n = 0
  · subst hzero
    refine ⟨⟨false, 0, -1074⟩, ofFloat?_pack canonical_zero .positive, ?_, rfl⟩
    rw [Dyadic.size, magnitude_zero, Nat.cast_zero]
  have hcanonical := canonical_shiftLeft hzero hn
  have hbits : 52 ≤ n.log2 + spareBits n := by
    rw [spareBits]
    omega
  obtain ⟨m, e, hm, hrounds, hround⟩ :=
    exists_roundWithAccuracy .positive (shiftLeft_pos hzero _) (le_target_shiftLeft hzero hbits)
  have hsize : magnitude m e = n := by
    rw [hrounds.eq_of_canonical hcanonical, magnitude_shiftLeft]
  have hexponent : e ≤ -spareBits n := by
    apply hm.exponent_le hcanonical
    rw [hsize, magnitude_shiftLeft]
  refine ⟨⟨false, m, e⟩, ?_, hsize, rfl⟩
  rw [normalize_natCast hzero, round_eq hzero hn, hround, ofFloat?_pack hm, if_pos (by omega)]
  rfl

theorem exists_ofScientific (hn : n ≠ 0) :
    ∃ m e, Canonical m e ∧ RoundsTo n (magnitude m e) ∧
      UnpackedFloat.ofScientific Format.binary64 n 0 = ofParts .positive m e := by
  have hbits : 52 ≤ n.log2 + 53 := by omega
  obtain ⟨m, e, hm, hrounds, hround⟩ :=
    exists_roundWithAccuracy .positive (shiftLeft_pos hn 53) (le_target_shiftLeft hn hbits)
  rw [magnitude_shiftLeft] at hrounds
  refine ⟨m, e, hm, hrounds, ?_⟩
  have hpower : (0 : Int) ≤ 2 ^ Format.binary64.exponentBits := by positivity
  have hone : n <<< 53 * 10 ^ (0 : Int).toNat = n <<< 53 := Nat.mul_one _
  rw [← hround, UnpackedFloat.ofScientific, dif_neg hn, if_neg (by norm_num),
    if_neg (by omega), if_pos le_rfl]
  change roundWithAccuracy Format.binary64 .positive (n <<< 53 * 10 ^ (0 : Int).toNat)
    (-(53 : Nat) + 0) .exact = _
  rw [hone, Int.add_zero]

theorem exists_ofFloat?_ofNat (n : Nat) :
    ∃ d : Dyadic, d.IsCanonical ∧ RoundsTo n d.size ∧ d.negative = false ∧
      Dyadic.ofFloat? (Float.ofNat n) = packed? d := by
  have hpower : Float.exactlyRepresentablePowersOfTen[0] = 1 := by decide +kernel
  by_cases hn : n < 2 ^ 53
  · have hfast : Float.ofNat n = n.toUInt64.toFloat * 1 := by
      rw [← hpower]
      exact dif_pos ⟨hn, by norm_num⟩
    obtain ⟨a, ha, hsize, hsign⟩ := exists_ofFloat?_toFloat hn
    obtain ⟨d, hd, hrounds, hproduct, hnegative⟩ := exists_ofFloat?_mul ha ofFloat?_one
    have hone : (⟨false, 2 ^ 52, -52⟩ : Dyadic).size = 1 := by
      rw [Dyadic.size, ← two_zpow_eq_magnitude]
      norm_num
    rw [hsize, hone, mul_one] at hrounds
    refine ⟨d, hd, hrounds, ?_, hfast ▸ hproduct⟩
    rw [hnegative, hsign]
    rfl
  · have hslow : Float.ofNat n = .ofModel (.ofScientific n 0) := dif_neg (fun h => hn h.1)
    obtain ⟨m, e, hm, hrounds, hround⟩ := exists_ofScientific (n := n) (by omega)
    refine ⟨⟨false, m, e⟩, hm, hrounds, rfl, ?_⟩
    rw [hslow, Float.Model.ofScientific, hround, ofFloat?_pack hm]
    rfl

theorem isFinite_ofNat (hn : n ≤ 2 ^ 1023) : (Float.ofNat n).isFinite := by
  obtain ⟨d, hd, hrounds, -, hd'⟩ := exists_ofFloat?_ofNat n
  have hlargest : Canonical (2 ^ 52) 971 := ⟨by norm_num, by norm_num, .inr le_rfl⟩
  have hpower : magnitude (2 ^ 52) 971 = 2 ^ 1023 := (two_zpow_eq_magnitude 52 971).symm
  have hle : d.size ≤ magnitude (2 ^ 52) 971 := by
    apply hrounds.le hlargest
    rw [hpower]
    exact_mod_cast hn
  rw [isFinite_eq, hd', packed?, if_pos (hd.exponent_le hlargest hle)]
  rfl

theorem numerator_eq (d : Dyadic) (h : d.negative = false ∨ d.mantissa = 0) :
    d.numerator = ((d.mantissa * 2 ^ d.exponent.toNat : Nat) : Int) := by
  rw [Dyadic.numerator, Dyadic.signedMantissa, twoPow_eq]
  rcases h with hsign | hzero
  · simp [hsign]
  · simp [hzero]

theorem size_mul_denominator (d : Dyadic) :
    d.size * d.denominator = ((d.mantissa * 2 ^ d.exponent.toNat : Nat) : ℚ) := by
  have hexponent : d.exponent + ((-d.exponent).toNat : Int) = d.exponent.toNat := by omega
  rw [Dyadic.size, magnitude, Dyadic.denominator, twoPow_eq, Nat.cast_pow, Nat.cast_ofNat,
    mul_assoc, ← zpow_natCast, ← two_zpow_add, hexponent, zpow_natCast]
  norm_cast

theorem denominator_pos (d : Dyadic) : 0 < d.denominator :=
  twoPow_pos _

theorem floor_nonneg (h : d.negative = false ∨ d.mantissa = 0) : 0 ≤ d.floor := by
  rw [Dyadic.floor, numerator_eq d h, Int.fdiv_eq_ediv_of_nonneg _ (Int.natCast_nonneg _)]
  exact Int.ediv_nonneg (Int.natCast_nonneg _) (Int.natCast_nonneg _)

theorem floor_lt (h : d.negative = false ∨ d.mantissa = 0) (hn : d.size < n) : d.floor < n := by
  have hpos : (0 : ℚ) < d.denominator := Nat.cast_pos.mpr (denominator_pos d)
  have hnumerator : ((d.mantissa * 2 ^ d.exponent.toNat : Nat) : ℚ) < ((n * d.denominator : Nat) : ℚ) := by
    rw [← size_mul_denominator, Nat.cast_mul]
    exact mul_lt_mul_of_pos_right hn hpos
  rw [Dyadic.floor, numerator_eq d h, Int.fdiv_eq_ediv_of_nonneg _ (Int.natCast_nonneg _)]
  apply Int.ediv_lt_of_lt_mul (Int.natCast_pos.mpr (denominator_pos d))
  exact_mod_cast Nat.cast_lt.mp hnumerator

/-- Times a draw, and rounded down, a whole number gives a smaller one. -/
theorem exists_floor_draw_mul (hx : IsDraw x) (hn : 0 < n) (hfinite : (Float.ofNat n).isFinite) :
    ∃ d, Dyadic.ofFloat? (x * Float.ofNat n) = some d ∧ 0 ≤ d.floor ∧ d.floor < n := by
  obtain ⟨b, hb, hrounds, hsign, hb'⟩ := exists_ofFloat?_ofNat n
  rw [isFinite_eq, hb'] at hfinite
  have hpacked : Dyadic.ofFloat? (Float.ofNat n) = some b := by
    rw [hb', packed?]
    unfold packed? at hfinite
    split at hfinite
    · next hlarge => rw [if_pos hlarge]
    · cases hfinite
  obtain ⟨d, hd, hsmaller, hpositive⟩ := exists_draw_mul hx hpacked
  -- From one on a number has all its bits, so that the product is below the number.
  have hone : Canonical (2 ^ 52) (-52) := ⟨by norm_num, by norm_num, .inr le_rfl⟩
  have hfull : b.exponent ≠ -1074 := by
    have hle : magnitude (2 ^ 52) (-52) ≤ b.size := by
      apply hrounds.ge hone
      rw [← two_zpow_eq_magnitude]
      norm_num
      exact_mod_cast hn
    have := hone.exponent_le hb hle
    omega
  have hbelow : d.size < n := by
    by_contra hle
    exact absurd (hrounds.le (canonical_of_ofFloat? hd).1 (not_lt.mp hle))
      (not_le.mpr (hsmaller hfull))
  exact ⟨d, hd, floor_nonneg (hpositive hsign), floor_lt (hpositive hsign) hbelow⟩

end TagTemplate.Binary64
