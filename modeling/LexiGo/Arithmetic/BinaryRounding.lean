import Mathlib

/-! Rounding to the numbers that the binary64 format represents, for those that
are not negative. A rounded result is known by the represented numbers it cannot
pass: it is at most each of them that is not below the exact value, and at least
each that is not above it. -/
namespace BinaryRounding
open Float.Model Float.Model.UnpackedFloat

/-- A number with a mantissa of 53 bits, subnormal ones included. -/
def Representable (q : ℚ) : Prop :=
  ∃ (m : ℕ) (e : ℤ), m < 2 ^ 53 ∧ -1074 ≤ e ∧ q = m * 2 ^ e

structure Rounded (q r : ℚ) : Prop where
  representable : Representable r
  at_most : ∀ z, Representable z → q ≤ z → r ≤ z
  at_least : ∀ z, Representable z → z ≤ q → z ≤ r

theorem Rounded.eq_of_representable {q r : ℚ} (h : Rounded q r) (hq : Representable q) : r = q :=
  le_antisymm (h.at_most q hq le_rfl) (h.at_least q hq le_rfl)

theorem Rounded.of_representable {q : ℚ} (h : Representable q) : Rounded q q :=
  ⟨h, fun _ _ hz => hz, fun _ _ hz => hz⟩

theorem representable_div {m k : ℕ} (hm : m < 2 ^ 53) (hk : k ≤ 1074) :
    Representable ((m : ℚ) / 2 ^ k) := by
  refine ⟨m, -k, hm, by omega, ?_⟩
  rw [zpow_neg, zpow_natCast, div_eq_mul_inv]

theorem representable_nat {m : ℕ} (hm : m < 2 ^ 53) : Representable (m : ℚ) := by
  simpa using representable_div hm (k := 0) (by omega)

/-- Rounding moves a number that is not too large by no more than a step of 30
binary digits after the point. -/
theorem Rounded.close {q r : ℚ} (h : Rounded q r) (h0 : 0 ≤ q) (hq : q ≤ 2 ^ 20) :
    q * 2 ^ 30 - 1 ≤ r * 2 ^ 30 ∧ r * 2 ^ 30 ≤ q * 2 ^ 30 + 1 := by
  have hfloor : ((⌊q * 2 ^ 30⌋₊ : ℕ) : ℚ) ≤ q * 2 ^ 30 := Nat.floor_le (by positivity)
  have hnext : q * 2 ^ 30 < (⌊q * 2 ^ 30⌋₊ : ℚ) + 1 := Nat.lt_floor_add_one _
  have hsmall : ⌊q * 2 ^ 30⌋₊ ≤ 2 ^ 50 := by
    have hle : q * 2 ^ 30 ≤ 2 ^ 20 * 2 ^ 30 := by gcongr
    have : ((⌊q * 2 ^ 30⌋₊ : ℕ) : ℚ) ≤ (2 ^ 50 : ℕ) := by
      push_cast
      calc ((⌊q * 2 ^ 30⌋₊ : ℕ) : ℚ) ≤ q * 2 ^ 30 := hfloor
        _ ≤ 2 ^ 20 * 2 ^ 30 := hle
        _ = 2 ^ 50 := by norm_num
    exact_mod_cast this
  have hlow := h.at_least _ (representable_div (m := ⌊q * 2 ^ 30⌋₊) (k := 30) (by omega) (by omega))
    ((div_le_iff₀ (by positivity)).2 hfloor)
  have hhigh := h.at_most _
    (representable_div (m := ⌊q * 2 ^ 30⌋₊ + 1) (k := 30) (by omega) (by omega))
    ((le_div_iff₀ (by positivity)).2 (by push_cast; exact hnext.le))
  rw [div_le_iff₀ (by positivity)] at hlow
  rw [le_div_iff₀ (by positivity)] at hhigh
  push_cast at hhigh
  constructor <;> linarith

/-! The mantissa on its way to the last place it may keep. -/

/-- What an extended mantissa tells of a number, in units of its last place. -/
def Describes : ExtendedMantissa → ℚ → Prop
  | ⟨m, false, false⟩, v => v = m
  | ⟨m, false, true⟩, v => m < v ∧ v < m + 1 / 2
  | ⟨m, true, false⟩, v => v = m + 1 / 2
  | ⟨m, true, true⟩, v => m + 1 / 2 < v ∧ v < m + 1

theorem Describes.shiftRightOne {em : ExtendedMantissa} {v : ℚ} (h : Describes em v) :
    Describes em.shiftRightOne (v / 2) := by
  obtain ⟨m, roundBit, stickyBit⟩ := em
  obtain ⟨k, hk | hk⟩ : ∃ k, m = 2 * k ∨ m = 2 * k + 1 := ⟨m / 2, by omega⟩
  · have hdiv : m / 2 = k := by omega
    have hmod : (m % 2 != 0) = false := by simp; omega
    have hm : (m : ℚ) = 2 * k := by exact_mod_cast hk
    cases roundBit <;> cases stickyBit <;>
      simp only [Describes, ExtendedMantissa.shiftRightOne, hdiv, hmod, hm, Bool.or_false,
        Bool.or_true] at h ⊢
    · linarith
    all_goals constructor <;> linarith
  · have hdiv : m / 2 = k := by omega
    have hmod : (m % 2 != 0) = true := by simp; omega
    have hm : (m : ℚ) = 2 * k + 1 := by exact_mod_cast hk
    cases roundBit <;> cases stickyBit <;>
      simp only [Describes, ExtendedMantissa.shiftRightOne, hdiv, hmod, hm, Bool.or_false,
        Bool.or_true] at h ⊢
    · linarith
    all_goals constructor <;> linarith

theorem shift_zero (em : ExtendedMantissa) : em >>> 0 = em := rfl

theorem shift_succ (em : ExtendedMantissa) (n : ℕ) : em >>> (n + 1) = (em >>> n).shiftRightOne := rfl

theorem Describes.shift {em : ExtendedMantissa} {v : ℚ} (h : Describes em v) (n : ℕ) :
    Describes (em >>> n) (v / 2 ^ n) := by
  induction n with
  | zero => simpa [shift_zero] using h
  | succ n ih =>
    rw [shift_succ, pow_succ, ← div_div]
    exact ih.shiftRightOne

theorem Describes.floor {em : ExtendedMantissa} {v : ℚ} (h : Describes em v) :
    em.mantissa ≤ v ∧ v < em.mantissa + 1 := by
  obtain ⟨m, roundBit, stickyBit⟩ := em
  cases roundBit <;> cases stickyBit <;> simp only [Describes] at h ⊢ <;>
    constructor <;> linarith

theorem Describes.rounded_le {em : ExtendedMantissa} {v : ℚ} (h : Describes em v) {z : ℕ}
    (hz : v ≤ z) : em.roundedMantissa ≤ z := by
  obtain ⟨m, roundBit, stickyBit⟩ := em
  have hm : m ≤ z := by exact_mod_cast h.floor.1.trans hz
  -- Only an exact mantissa can be the bound itself.
  have hstrict : (m : ℚ) < v → m + 1 ≤ z := by
    intro hlt
    exact_mod_cast hlt.trans_le hz
  cases roundBit <;> cases stickyBit <;>
    simp only [Describes, ExtendedMantissa.roundedMantissa, ExtendedMantissa.accuracy,
      Accuracy.roundToNearestEven] at h ⊢
  · exact hm
  · exact hm
  · have := hstrict (by linarith)
    omega
  · exact hstrict (by linarith)

theorem Describes.le_rounded {em : ExtendedMantissa} {v : ℚ} (h : Describes em v) {z : ℕ}
    (hz : z ≤ v) : z ≤ em.roundedMantissa := by
  have hlt : (z : ℚ) < em.mantissa + 1 := hz.trans_lt h.floor.2
  have hm : z ≤ em.mantissa := by
    have : z < em.mantissa + 1 := by exact_mod_cast hlt
    omega
  refine hm.trans ?_
  obtain ⟨m, roundBit, stickyBit⟩ := em
  cases roundBit <;> cases stickyBit <;>
    simp [ExtendedMantissa.roundedMantissa, ExtendedMantissa.accuracy, Accuracy.roundToNearestEven]

theorem zpow_split {T f : ℤ} (h : T ≤ f) : (2 : ℚ) ^ f = (2 ^ (f - T).toNat : ℕ) * 2 ^ T := by
  rw [Nat.cast_pow, Nat.cast_ofNat, ← zpow_natCast, ← zpow_add₀ (by norm_num)]
  congr 1
  omega

theorem representable_carried {n : ℕ} {T : ℤ} (hn : n ≤ 2 ^ 53) (hT : -1074 ≤ T) :
    Representable (n * 2 ^ T) := by
  rcases hn.lt_or_eq with hlt | rfl
  · exact ⟨n, T, hlt, hT, rfl⟩
  · refine ⟨2 ^ 52, T + 1, by norm_num, by omega, ?_⟩
    rw [zpow_add_one₀ (by norm_num)]
    push_cast
    ring

/-- A number below the first full mantissa at the last place `T` has a smaller last place. -/
theorem small_of_lower_place {n : ℕ} {f T : ℤ} (hn : n < 2 ^ 53) (hf : f < T) :
    (n : ℚ) * 2 ^ f < 2 ^ 52 * 2 ^ T := by
  have hstep : (2 : ℚ) ^ f * 2 ≤ 2 ^ T := by
    rw [← zpow_add_one₀ (by norm_num)]
    exact zpow_le_zpow_right₀ (by norm_num) (by omega)
  have hpos : (0 : ℚ) < 2 ^ f := by positivity
  have hcast : (n : ℚ) < 2 ^ 53 := by exact_mod_cast hn
  calc (n : ℚ) * 2 ^ f < 2 ^ 53 * 2 ^ f := by gcongr
    _ = 2 ^ 52 * (2 ^ f * 2) := by ring
    _ ≤ 2 ^ 52 * 2 ^ T := by gcongr

/-- Rounding the mantissa at the last place that the size of the number asks for. -/
theorem Describes.rounded {em : ExtendedMantissa} {w : ℚ} {T : ℤ} (h : Describes em w)
    (hT : -1074 ≤ T) (hhigh : w ≤ 2 ^ 53) (hlow : 2 ^ 52 ≤ w ∨ T = -1074) :
    Rounded (w * 2 ^ T) (em.roundedMantissa * 2 ^ T) := by
  have hpos : (0 : ℚ) < 2 ^ T := by positivity
  refine ⟨representable_carried (h.rounded_le (by exact_mod_cast hhigh)) hT, ?_, ?_⟩
  · rintro z ⟨n, f, hn, hf, rfl⟩ hz
    by_cases hplace : T ≤ f
    · rw [zpow_split hplace, ← mul_assoc] at hz ⊢
      have hw : w ≤ (n * 2 ^ (f - T).toNat : ℕ) := by
        push_cast at hz ⊢
        exact le_of_mul_le_mul_right hz hpos
      have := h.rounded_le hw
      gcongr
      exact_mod_cast this
    · -- A finer number than the place allows is too small to lie above.
      have hfull : (2 : ℚ) ^ 52 ≤ w := hlow.resolve_right (by omega)
      have hsmall := small_of_lower_place hn (not_le.1 hplace)
      have : (2 : ℚ) ^ 52 * 2 ^ T ≤ w * 2 ^ T := by gcongr
      linarith
  · rintro z ⟨n, f, hn, hf, rfl⟩ hz
    by_cases hplace : T ≤ f
    · rw [zpow_split hplace, ← mul_assoc] at hz ⊢
      have hw : (n * 2 ^ (f - T).toNat : ℕ) ≤ w := by
        push_cast at hz ⊢
        exact le_of_mul_le_mul_right hz hpos
      have := h.le_rounded hw
      gcongr
      exact_mod_cast this
    · have hfull : ((2 ^ 52 : ℕ) : ℚ) ≤ w := by
        push_cast
        exact hlow.resolve_right (by omega)
      have hkept : 2 ^ 52 ≤ em.roundedMantissa := h.le_rounded hfull
      have hkept' : (2 : ℚ) ^ 52 ≤ em.roundedMantissa := by exact_mod_cast hkept
      refine (small_of_lower_place hn (not_le.1 hplace)).le.trans ?_
      gcongr

/-! From the rounded mantissa to the number in its normal form. -/

/-- An unpacked number in the form that packing expects. -/
inductive Denotes : UnpackedFloat → ℚ → Prop
  | zero : Denotes (.zero .positive) 0
  | finite {m : ℕ} {e : ℤ} (hm : 0 < m) (hu : m < 2 ^ 53) (hl : 2 ^ 52 ≤ m ∨ e = -1074)
      (he : -1074 ≤ e) : Denotes (.finite .positive m e hm) (m * 2 ^ e)

theorem targetExponent_eq (m : ℕ) (e : ℤ) :
    Format.binary64.targetExponent (totalExponent m e) = max ((m.log2 : ℤ) + e - 52) (-1074) := by
  simp only [Format.targetExponent, totalExponent, Format.mantissaBits, Format.minExponent]
  norm_num
  omega

theorem log2_le_of_lt {m : ℕ} (hm : m < 2 ^ 53) : m.log2 ≤ 52 := by
  by_cases h : m = 0
  · simp [h]
  · have := (Nat.log2_lt h).2 hm
    omega

/-- The second shift only carries a mantissa that rounding has made too long. -/
theorem shift_carried {n : ℕ} {T : ℤ} (hn : n ≤ 2 ^ 53) (hT : -1074 ≤ T) :
    shiftToTargetExponent Format.binary64 n T .exact =
      if n < 2 ^ 53 then (⟨n, false, false⟩, T) else (⟨2 ^ 52, false, false⟩, T + 1) := by
  unfold shiftToTargetExponent
  rw [targetExponent_eq]
  rcases hn.lt_or_eq with hlt | rfl
  · have hlog := log2_le_of_lt hlt
    have hstay : (max ((n.log2 : ℤ) + T - 52) (-1074) - T).toNat = 0 := by omega
    rw [if_pos hlt]
    simp [shiftToExponent, hstay, shift_zero, ExtendedMantissa.ofMantissaAndAccuracy]
  · have hone : (max (((2 ^ 53 : ℕ).log2 : ℤ) + T - 52) (-1074) - T).toNat = 1 := by
      rw [Nat.log2_two_pow]
      omega
    rw [if_neg (lt_irrefl _)]
    simp only [shiftToExponent, hone]
    rfl

theorem Denotes.carried {n : ℕ} {T : ℤ} (hn : n ≤ 2 ^ 53) (hT : -1074 ≤ T)
    (hlow : 2 ^ 52 ≤ n ∨ T = -1074) :
    Denotes (let shifted := shiftToTargetExponent Format.binary64 n T .exact
      if h : shifted.1.mantissa = 0 then .zero .positive
      else .finite .positive shifted.1.mantissa shifted.2 (Nat.pos_of_ne_zero h)) (n * 2 ^ T) := by
  rw [shift_carried hn hT]
  by_cases hlt : n < 2 ^ 53
  · rw [if_pos hlt]
    by_cases hz : n = 0
    · subst hz
      simpa using Denotes.zero
    · simpa [hz] using Denotes.finite (Nat.pos_of_ne_zero hz) hlt hlow hT
  · have hfull : n = 2 ^ 53 := by omega
    subst hfull
    have hcarry : ((2 ^ 53 : ℕ) : ℚ) * 2 ^ T = (2 ^ 52 : ℕ) * 2 ^ (T + 1) := by
      rw [zpow_add_one₀ (by norm_num)]
      push_cast
      ring
    rw [if_neg hlt, hcarry]
    exact Denotes.finite (by norm_num) (by norm_num) (Or.inl le_rfl) (by omega)

variable {m : ℕ} {e : ℤ} {acc : Accuracy} {v : ℚ}

theorem mantissa_le (h : Describes (ExtendedMantissa.ofMantissaAndAccuracy m acc) v) :
    (m : ℚ) ≤ v ∧ v < m + 1 := by
  have := h.floor
  cases acc with
  | exact => exact this
  | inexact order => cases order <;> exact this

theorem roundWithAccuracy_denotes
    (h : Describes (ExtendedMantissa.ofMantissaAndAccuracy m acc) v)
    (he : 52 ≤ m.log2 ∨ e ≤ -1074) :
    ∃ r, Rounded (v * 2 ^ e) r ∧ Denotes (roundWithAccuracy Format.binary64 .positive m e acc) r := by
  obtain ⟨k, hk⟩ : ∃ k : ℕ, (k : ℤ) = max ((m.log2 : ℤ) + e - 52) (-1074) - e :=
    ⟨(max ((m.log2 : ℤ) + e - 52) (-1074) - e).toNat, by omega⟩
  have hbounds := mantissa_le h
  have hT : -1074 ≤ e + k := by omega
  have hshifted := h.shift k
  -- The place is chosen so that the shifted mantissa has at most 53 bits,
  have hhigh : v / 2 ^ k ≤ 2 ^ 53 := by
    have hsize : m + 1 ≤ 2 ^ (53 + k) :=
      (Nat.lt_log2_self (n := m)).trans_le (Nat.pow_le_pow_right (by decide) (by omega))
    have hsize' : (m : ℚ) + 1 ≤ 2 ^ (53 + k) := by exact_mod_cast hsize
    rw [div_le_iff₀ (by positivity), ← pow_add]
    linarith
  -- and all of them unless the number is subnormal.
  have hlow : 2 ^ 52 ≤ v / 2 ^ k ∨ e + k = -1074 := by
    by_cases hmin : e + k = -1074
    · exact Or.inr hmin
    · have hlog : m.log2 = 52 + k := by omega
      have hsize : (2 : ℚ) ^ (52 + k) ≤ m := by
        have hm : m ≠ 0 := by
          rintro rfl
          simp at hlog
          omega
        rw [← hlog]
        exact_mod_cast Nat.log2_self_le hm
      rw [le_div_iff₀ (by positivity), ← pow_add]
      exact Or.inl (hsize.trans hbounds.1)
  have hvalue : v * 2 ^ e = v / 2 ^ k * 2 ^ (e + k) := by
    rw [zpow_add₀ (by norm_num), zpow_natCast]
    field_simp
  refine ⟨_, hvalue ▸ hshifted.rounded hT hhigh hlow, ?_⟩
  have hfirst : shiftToTargetExponent Format.binary64 m e acc =
      (ExtendedMantissa.ofMantissaAndAccuracy m acc >>> k, e + k) := by
    unfold shiftToTargetExponent
    rw [targetExponent_eq]
    have hamount : (max ((m.log2 : ℤ) + e - 52) (-1074) - e).toNat = k := by omega
    simp only [shiftToExponent, hamount]
  have hlow' : 2 ^ 52 ≤ (ExtendedMantissa.ofMantissaAndAccuracy m acc >>> k).roundedMantissa ∨
      e + k = -1074 := by
    refine hlow.imp_left fun hw => hshifted.le_rounded ?_
    exact_mod_cast hw
  unfold roundWithAccuracy
  rw [hfirst]
  exact Denotes.carried (hshifted.rounded_le (by exact_mod_cast hhigh)) hT hlow'

theorem describes_exact (m : ℕ) :
    Describes (ExtendedMantissa.ofMantissaAndAccuracy m .exact) m := rfl

theorem describes_fraction {m num den : ℕ} (h : num < den) :
    Describes (ExtendedMantissa.ofMantissaAndAccuracy m (accuracyOfFraction num den))
      (m + num / den) := by
  have hden : (0 : ℚ) < den := by exact_mod_cast (Nat.zero_le num).trans_lt h
  unfold accuracyOfFraction
  by_cases hz : num = 0
  · subst hz
    simp [Describes, ExtendedMantissa.ofMantissaAndAccuracy]
  · have hnum : (0 : ℚ) < num := by exact_mod_cast Nat.pos_of_ne_zero hz
    have hpos : (0 : ℚ) < num / den := by positivity
    rw [if_neg hz]
    cases horder : compare (2 * num) den with
    | lt =>
      have : (2 * num : ℚ) < den := by exact_mod_cast Nat.compare_eq_lt.1 horder
      have : (num / den : ℚ) < 1 / 2 := by rw [div_lt_div_iff₀ hden (by norm_num)]; linarith
      exact ⟨by linarith, by linarith⟩
    | eq =>
      have : (2 * num : ℚ) = den := by exact_mod_cast Nat.compare_eq_eq.1 horder
      have : (num / den : ℚ) = 1 / 2 := by rw [div_eq_div_iff hden.ne' (by norm_num)]; linarith
      simp only [Describes, ExtendedMantissa.ofMantissaAndAccuracy, this]
    | gt =>
      have : (den : ℚ) < 2 * num := by exact_mod_cast Nat.compare_eq_gt.1 horder
      have : (1 : ℚ) / 2 < num / den := by rw [div_lt_div_iff₀ (by norm_num) hden]; linarith
      have : (num / den : ℚ) < 1 := by
        rw [div_lt_one hden]
        exact_mod_cast h
      exact ⟨by linarith, by linarith⟩

theorem log2_mul_two_pow (hm : m ≠ 0) (a : ℕ) : (m * 2 ^ a).log2 = m.log2 + a := by
  induction a with
  | zero => simp
  | succ a ih =>
    rw [pow_succ, ← mul_assoc, mul_comm, Nat.log2_two_mul (by positivity), ih, add_assoc]

theorem round_denotes (hm : 0 < m) (e : ℤ) :
    ∃ r, Rounded (m * 2 ^ e) r ∧ Denotes (UnpackedFloat.round Format.binary64 .positive m e) r := by
  unfold UnpackedFloat.round decreaseExponent
  simp only [targetExponent_eq]
  generalize ha : (e - max ((m.log2 : ℤ) + e - 52) (-1074)).toNat = a
  have hshift : m <<< a = m * 2 ^ a := Nat.shiftLeft_eq m a
  have hplace : 52 ≤ (m <<< a).log2 ∨ e - a ≤ -1074 := by
    rw [hshift, log2_mul_two_pow hm.ne']
    omega
  have hvalue : (m : ℚ) * 2 ^ e = (m <<< a : ℕ) * 2 ^ (e - a) := by
    rw [hshift, zpow_sub₀ (by norm_num), zpow_natCast]
    push_cast
    field_simp
  rw [hvalue]
  exact roundWithAccuracy_denotes (describes_exact _) hplace

theorem normalize_denotes (n : ℕ) (e : ℤ) :
    ∃ r, Rounded (n * 2 ^ e) r ∧ Denotes (UnpackedFloat.normalize Format.binary64 n e .positive) r := by
  unfold UnpackedFloat.normalize
  rcases Nat.eq_zero_or_pos n with rfl | hn
  · exact ⟨0, by simpa using Rounded.of_representable (representable_nat (m := 0) (by norm_num)),
      Denotes.zero⟩
  · have hcompare : compare (n : ℤ) 0 = .gt := Int.compare_eq_gt.2 (by exact_mod_cast hn)
    rw [hcompare]
    exact round_denotes hn e

end BinaryRounding
