import Mathlib

/-! How binary64 numbers are rounded. The result of an operation is computed with two bits more than
are kept, and these decide whether the last bit goes up. What the rest of the theory needs is that
rounding never crosses a number that can be written exactly. -/
namespace TagTemplate.Binary64
open Float.Model Float.Model.UnpackedFloat

def magnitude (m : Nat) (e : Int) : ℚ := m * 2 ^ e

/-- The mantissa has 53 bits and uses all of them, unless the exponent is the lowest. -/
structure Canonical (m : Nat) (e : Int) : Prop where
  bound : m < 2 ^ 53
  low : -1074 ≤ e
  full : e = -1074 ∨ 2 ^ 52 ≤ m

variable {m n r : Nat} {e f t : Int} {x : ℚ}

theorem two_zpow_pos (e : Int) : (0 : ℚ) < 2 ^ e :=
  zpow_pos (by norm_num) e

theorem two_zpow_add (e f : Int) : (2 : ℚ) ^ (e + f) = 2 ^ e * 2 ^ f :=
  zpow_add₀ (by norm_num) e f

theorem two_zpow_le_iff : (2 : ℚ) ^ e ≤ 2 ^ f ↔ e ≤ f :=
  zpow_le_zpow_iff_right₀ (by norm_num)

theorem two_zpow_lt_iff : (2 : ℚ) ^ e < 2 ^ f ↔ e < f :=
  zpow_lt_zpow_iff_right₀ (by norm_num)

theorem magnitude_nonneg (m : Nat) (e : Int) : 0 ≤ magnitude m e :=
  mul_nonneg (Nat.cast_nonneg m) (two_zpow_pos e).le

theorem magnitude_le_magnitude_iff : magnitude m e ≤ magnitude n e ↔ m ≤ n := by
  rw [magnitude, magnitude, mul_le_mul_iff_of_pos_right (two_zpow_pos e), Nat.cast_le]

theorem magnitude_lt_magnitude_iff : magnitude m e < magnitude n e ↔ m < n := by
  rw [magnitude, magnitude, mul_lt_mul_iff_of_pos_right (two_zpow_pos e), Nat.cast_lt]

theorem magnitude_shift (h : e ≤ f) : magnitude n f = magnitude (n * 2 ^ (f - e).toNat) e := by
  have hexponent : ((f - e).toNat : Int) + e = f := by omega
  rw [magnitude, magnitude, Nat.cast_mul, Nat.cast_pow, Nat.cast_ofNat, mul_assoc, ← zpow_natCast,
    ← two_zpow_add, hexponent]

theorem two_zpow_eq_magnitude (k : Nat) (e : Int) : (2 : ℚ) ^ (k + e) = magnitude (2 ^ k) e := by
  rw [magnitude, two_zpow_add, zpow_natCast, Nat.cast_pow, Nat.cast_ofNat]

theorem Canonical.magnitude_lt (h : Canonical n f) : magnitude n f < 2 ^ (53 + f) := by
  rw [show (53 : Int) + f = (53 : Nat) + f from rfl, two_zpow_eq_magnitude]
  exact magnitude_lt_magnitude_iff.mpr h.bound

theorem Canonical.le_magnitude (h : Canonical n f) (hf : f ≠ -1074) :
    2 ^ (52 + f) ≤ magnitude n f := by
  rw [show (52 : Int) + f = (52 : Nat) + f from rfl, two_zpow_eq_magnitude]
  exact magnitude_le_magnitude_iff.mpr (h.full.resolve_left hf)

theorem Canonical.exponent_le (h : Canonical m e) (h' : Canonical n f)
    (hle : magnitude m e ≤ magnitude n f) : e ≤ f := by
  by_cases he : e = -1074
  · exact he ▸ h'.low
  · have hpowers := ((h.le_magnitude he).trans hle).trans_lt h'.magnitude_lt
    rw [two_zpow_lt_iff] at hpowers
    omega

structure Nearest (r : Nat) (x : ℚ) : Prop where
  lower : x - 1 / 2 ≤ r
  upper : r ≤ x + 1 / 2

theorem Nearest.le (h : Nearest r x) (hx : x ≤ n) : r ≤ n := by
  have hlt : (r : ℚ) < ((n + 1 : Nat) : ℚ) := by
    have := h.upper
    push_cast
    linarith
  exact Nat.lt_succ_iff.mp (Nat.cast_lt.mp hlt)

theorem Nearest.ge (h : Nearest r x) (hx : n ≤ x) : n ≤ r := by
  have hlt : (n : ℚ) < ((r + 1 : Nat) : ℚ) := by
    have := h.lower
    push_cast
    linarith
  exact Nat.lt_succ_iff.mp (Nat.cast_lt.mp hlt)

theorem Nearest.lt (h : Nearest r x) (hx : x < n - 1 / 2) : r < n := by
  have hlt : (r : ℚ) < n := by
    have := h.upper
    linarith
  exact Nat.cast_lt.mp hlt

theorem Nearest.lt_of_below (h : Nearest r x) (hx : 2 ^ 53 * x ≤ (2 ^ 53 - 1) * n)
    (hn : 2 ^ 52 < n) : r < n := by
  have hcast : (2 ^ 52 : ℚ) < n := by exact_mod_cast hn
  apply h.lt
  linarith

/-- What a mantissa and its two further bits say of a number. -/
def Represents (em : ExtendedMantissa) (x : ℚ) : Prop :=
  match em.roundBit, em.stickyBit with
  | false, false => x = em.mantissa
  | false, true => em.mantissa < x ∧ x < em.mantissa + 1 / 2
  | true, false => x = em.mantissa + 1 / 2
  | true, true => em.mantissa + 1 / 2 < x ∧ x < em.mantissa + 1

theorem represents_exact (m : Nat) :
    Represents (.ofMantissaAndAccuracy m .exact) m := rfl

theorem Represents.shiftRightOne {em : ExtendedMantissa} (h : Represents em x) :
    Represents em.shiftRightOne (x / 2) := by
  obtain ⟨m, round, sticky⟩ := em
  have hsplit : ((m % 2 : Nat) : ℚ) + 2 * ((m / 2 : Nat) : ℚ) = m := by
    exact_mod_cast Nat.mod_add_div m 2
  rcases Nat.mod_two_eq_zero_or_one m with hparity | hparity
  · cases round <;> cases sticky <;>
      simp_all [Represents, ExtendedMantissa.shiftRightOne] <;> grind
  · cases round <;> cases sticky <;>
      simp_all [Represents, ExtendedMantissa.shiftRightOne] <;> grind

theorem Represents.shiftRight {em : ExtendedMantissa} (h : Represents em x) (k : Nat) :
    Represents (em >>> k) (x / 2 ^ k) := by
  induction k with
  | zero =>
    rw [pow_zero, div_one]
    exact h
  | succ k ih =>
    rw [pow_succ, ← div_div]
    exact ih.shiftRightOne

theorem Represents.nearest {em : ExtendedMantissa} (h : Represents em x) :
    Nearest em.roundedMantissa x := by
  obtain ⟨m, round, sticky⟩ := em
  have hparity : m % 2 ≤ 1 := by omega
  have hparity' : ((m % 2 : Nat) : ℚ) ≤ 1 := by exact_mod_cast hparity
  cases round <;> cases sticky <;>
    simp only [Represents, ExtendedMantissa.roundedMantissa, ExtendedMantissa.accuracy,
      Accuracy.roundToNearestEven] at h ⊢ <;>
    constructor <;> push_cast <;> grind

/-- Rounding `x` to `y` crosses no canonical number, and what is below a canonical number by more than
a part of `2 ^ 53` stays below it. -/
structure RoundsTo (x y : ℚ) : Prop where
  le {n : Nat} {f : Int} : Canonical n f → x ≤ magnitude n f → y ≤ magnitude n f
  ge {n : Nat} {f : Int} : Canonical n f → magnitude n f ≤ x → magnitude n f ≤ y
  lt {n : Nat} {f : Int} : Canonical n f → f ≠ -1074 →
    2 ^ 53 * x ≤ (2 ^ 53 - 1) * magnitude n f → y < magnitude n f

structure RoundedAt (x : ℚ) (t : Int) : Prop where
  low : -1074 ≤ t
  bound : x < 2 ^ (53 + t)
  full : t = -1074 ∨ 2 ^ (52 + t) ≤ x

theorem RoundedAt.exponent_le (h : RoundedAt x t) (hn : Canonical n f) (hx : x ≤ magnitude n f) :
    t ≤ f := by
  rcases h.full with rfl | hfull
  · exact hn.low
  · have hpowers := (hfull.trans hx).trans_lt hn.magnitude_lt
    rw [two_zpow_lt_iff] at hpowers
    omega

theorem div_le_of_le_magnitude (h : x ≤ magnitude n t) : x / 2 ^ t ≤ n := by
  rw [div_le_iff₀ (two_zpow_pos t)]
  exact h

theorem le_div_of_magnitude_le (h : magnitude n t ≤ x) : n ≤ x / 2 ^ t := by
  rw [le_div_iff₀ (two_zpow_pos t)]
  exact h

theorem div_le_of_le_part (h : 2 ^ 53 * x ≤ (2 ^ 53 - 1) * magnitude n t) :
    2 ^ 53 * (x / 2 ^ t) ≤ (2 ^ 53 - 1) * n := by
  rw [← mul_div_assoc, div_le_iff₀ (two_zpow_pos t), mul_assoc]
  exact h

theorem Nearest.full (h : Nearest r (x / 2 ^ t)) (hx : 2 ^ (52 + t) ≤ x) : 2 ^ 52 ≤ r := by
  apply h.ge
  apply le_div_of_magnitude_le
  rwa [← two_zpow_eq_magnitude]

theorem RoundedAt.roundsTo (h : RoundedAt x t) (hr : Nearest r (x / 2 ^ t)) :
    RoundsTo x (magnitude r t) where
  le hn hx := by
    have hexponent := h.exponent_le hn hx
    rw [magnitude_shift hexponent] at hx ⊢
    exact magnitude_le_magnitude_iff.mpr (hr.le (div_le_of_le_magnitude hx))
  ge {n f} hn hx := by
    by_cases hexponent : t ≤ f
    · rw [magnitude_shift hexponent] at hx ⊢
      exact magnitude_le_magnitude_iff.mpr (hr.ge (le_div_of_magnitude_le hx))
    · -- The rounding exponent is above the lowest, so that the number has all its bits.
      have hfull : 2 ^ (52 + t) ≤ x := h.full.resolve_left (by have := hn.low; omega)
      have hbits : 2 ^ 52 ≤ r := hr.full hfull
      calc magnitude n f ≤ 2 ^ (53 + f) := hn.magnitude_lt.le
        _ ≤ 2 ^ (52 + t) := two_zpow_le_iff.mpr (by omega)
        _ = magnitude (2 ^ 52) t := two_zpow_eq_magnitude 52 t
        _ ≤ magnitude r t := magnitude_le_magnitude_iff.mpr hbits
  lt {n f} hn hf hx := by
    have hle : x ≤ magnitude n f := by
      have := magnitude_nonneg n f
      linarith
    have hexponent := h.exponent_le hn hle
    have hbits : 2 ^ 52 ≤ n := hn.full.resolve_left hf
    rw [magnitude_shift hexponent] at hx ⊢
    refine magnitude_lt_magnitude_iff.mpr (hr.lt_of_below (div_le_of_le_part hx) ?_)
    rcases hexponent.lt_or_eq with hlt | rfl
    · have hpower : 2 ≤ 2 ^ (f - t).toNat := Nat.le_self_pow (by omega) 2
      calc 2 ^ 52 < 2 ^ 52 * 2 := by norm_num
        _ ≤ n * 2 ^ (f - t).toNat := Nat.mul_le_mul hbits hpower
    · -- The number itself has all its bits, so that what is above it is not the least that has.
      rw [sub_self, Int.toNat_zero, pow_zero, mul_one] at hx ⊢
      refine hbits.lt_of_ne fun heq => ?_
      have hfull : 2 ^ (52 + t) ≤ x := h.full.resolve_left hf
      have hpositive := two_zpow_pos (52 + t)
      rw [← heq, ← two_zpow_eq_magnitude 52 t] at hx
      push_cast at hx
      linarith

def target (m : Nat) (e : Int) : Int :=
  Format.binary64.targetExponent (totalExponent m e)

theorem target_eq (m : Nat) (e : Int) : target m e = max (m.log2 + 1 + e - 53) (-1074) := rfl

theorem roundedAt_target (hm : 0 < m) (e : Int) : RoundedAt (magnitude m e) (target m e) where
  low := le_max_right _ _
  bound := by
    have hlog : m < 2 ^ (m.log2 + 1) := Nat.lt_log2_self
    have hpower : magnitude m e < 2 ^ (((m.log2 + 1 : Nat) : Int) + e) := by
      rw [two_zpow_eq_magnitude]
      exact magnitude_lt_magnitude_iff.mpr hlog
    refine hpower.trans_le (two_zpow_le_iff.mpr ?_)
    rw [target_eq]
    omega
  full := by
    by_cases hlow : target m e = -1074
    · exact .inl hlow
    · have hpower : (2 : ℚ) ^ ((m.log2 : Int) + e) ≤ magnitude m e := by
        rw [two_zpow_eq_magnitude]
        exact magnitude_le_magnitude_iff.mpr (Nat.log2_self_le (Nat.pos_iff_ne_zero.mp hm))
      refine .inr ((two_zpow_le_iff.mpr ?_).trans hpower)
      rw [target_eq] at hlow ⊢
      omega

theorem represents_shiftToTargetExponent (h : e ≤ target m e) :
    ∃ em, shiftToTargetExponent Format.binary64 m e .exact = (em, target m e) ∧
      Represents em (magnitude m e / 2 ^ target m e) := by
  refine ⟨ExtendedMantissa.ofMantissaAndAccuracy m .exact >>> (target m e - e).toNat, ?_, ?_⟩
  · have hexponent : e + ((target m e - e).toNat : Int) = target m e := by omega
    exact congrArg (Prod.mk _) hexponent
  · have hvalue : magnitude m e / 2 ^ target m e = (m : ℚ) / 2 ^ (target m e - e).toNat := by
      have hexponent : target m e = ((target m e - e).toNat : Int) + e := by omega
      rw [magnitude]
      nth_rewrite 1 [hexponent]
      rw [two_zpow_add, zpow_natCast, mul_div_mul_right _ _ (two_zpow_pos e).ne']
    rw [hvalue]
    exact (represents_exact m).shiftRight _

theorem shiftToTargetExponent_of_lt (hr : r < 2 ^ 53) (ht : -1074 ≤ t) :
    shiftToTargetExponent Format.binary64 r t .exact = (.ofMantissaAndAccuracy r .exact, t) := by
  have hlog : r.log2 ≤ 52 := by
    by_cases hzero : r = 0
    · simp [hzero]
    · exact Nat.lt_succ_iff.mp ((Nat.log2_lt hzero).mpr hr)
  have hamount : (target r t - t).toNat = 0 := by
    rw [target_eq]
    omega
  simp only [shiftToTargetExponent, shiftToExponent]
  rw [← target, hamount, Int.natCast_zero, Int.add_zero]
  rfl

/-- A mantissa that rounding has made too long loses its last bit, which is zero. -/
theorem shiftToTargetExponent_carry (ht : -1074 ≤ t) :
    ∃ em, shiftToTargetExponent Format.binary64 (2 ^ 53) t .exact = (em, t + 1) ∧
      em.mantissa = 2 ^ 52 := by
  have hamount : (target (2 ^ 53) t - t).toNat = 1 := by
    rw [target_eq, Nat.log2_two_pow]
    omega
  refine ⟨ExtendedMantissa.shiftRightOne (.ofMantissaAndAccuracy (2 ^ 53) .exact), ?_, rfl⟩
  simp only [shiftToTargetExponent, shiftToExponent]
  rw [← target, hamount]
  rfl

def ofParts (s : Sign) (m : Nat) (e : Int) : UnpackedFloat :=
  if h : m = 0 then .zero s else .finite s m e (Nat.pos_of_ne_zero h)

theorem roundWithAccuracy_of_shift {s : Sign} {em : ExtendedMantissa}
    (h : shiftToTargetExponent Format.binary64 m e .exact = (em, t)) :
    roundWithAccuracy Format.binary64 s m e .exact =
      ofParts s (shiftToTargetExponent Format.binary64 em.roundedMantissa t .exact).1.mantissa
        (shiftToTargetExponent Format.binary64 em.roundedMantissa t .exact).2 := by
  simp only [roundWithAccuracy, h]
  rfl

theorem exists_roundWithAccuracy (s : Sign) (hm : 0 < m) (he : e ≤ target m e) :
    ∃ n f, Canonical n f ∧ RoundsTo (magnitude m e) (magnitude n f) ∧
      roundWithAccuracy Format.binary64 s m e .exact = ofParts s n f := by
  obtain ⟨em, hshift, hrepresents⟩ := represents_shiftToTargetExponent he
  have hat := roundedAt_target hm e
  have hnearest := hrepresents.nearest
  have hrounds := hat.roundsTo hnearest
  have hmost : em.roundedMantissa ≤ 2 ^ 53 := by
    apply hnearest.le
    apply div_le_of_le_magnitude
    rw [← two_zpow_eq_magnitude]
    exact hat.bound.le
  rw [roundWithAccuracy_of_shift hshift]
  generalize em.roundedMantissa = r at hnearest hrounds hmost
  rcases hmost.lt_or_eq with hlt | rfl
  · refine ⟨r, target m e, ⟨hlt, hat.low, hat.full.imp_right hnearest.full⟩, hrounds, ?_⟩
    rw [shiftToTargetExponent_of_lt hlt hat.low]
    rfl
  · obtain ⟨em', hcarry, hmantissa⟩ := shiftToTargetExponent_carry hat.low
    have hlow := hat.low
    refine ⟨2 ^ 52, target m e + 1, ⟨by norm_num, by omega, .inr le_rfl⟩, ?_, ?_⟩
    · have hsame : magnitude (2 ^ 52) (target m e + 1) = magnitude (2 ^ 53) (target m e) := by
        rw [← two_zpow_eq_magnitude, ← two_zpow_eq_magnitude]
        congr 1
        omega
      rwa [hsame]
    · rw [hcarry]
      simp only [hmantissa]

end TagTemplate.Binary64
