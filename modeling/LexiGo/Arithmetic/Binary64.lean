import LexiGo.Arithmetic.BinaryRounding

/-! Arithmetic on the binary64 numbers that are not negative, told by the rational
numbers they stand for. Every operation gives the rounded value of its exact result. -/
namespace Binary64
open Float.Model Float.Model.UnpackedFloat BinaryRounding

/-- `x` is the number `q`, and has a plus sign. -/
def Holds (x : Float) (q : ℚ) : Prop := Denotes x.toModel.unpack q

theorem representable_of_denotes {u : UnpackedFloat} {q : ℚ} (h : Denotes u q) :
    Representable q := by
  cases h with
  | zero => exact ⟨0, 0, by norm_num, by norm_num, by norm_num⟩
  | finite hm hu hl he => exact ⟨_, _, hu, he, rfl⟩

theorem nonneg_of_denotes {u : UnpackedFloat} {q : ℚ} (h : Denotes u q) : 0 ≤ q := by
  cases h with
  | zero => exact le_rfl
  | finite hm hu hl he => positivity

theorem Holds.nonneg {x : Float} {q : ℚ} (h : Holds x q) : 0 ≤ q := nonneg_of_denotes h

theorem Holds.representable {x : Float} {q : ℚ} (h : Holds x q) : Representable q :=
  representable_of_denotes h

/-! Packing loses nothing of a number in range. -/

/-- A bound below which no result overflows. -/
def range : ℚ := 2 ^ (1000 : ℤ)

theorem le_range {q : ℚ} (h : q ≤ 2 ^ 64) : q ≤ range := by
  refine h.trans ?_
  rw [← zpow_natCast]
  exact zpow_le_zpow_right₀ (by norm_num) (by norm_num)

theorem representable_range : Representable range :=
  ⟨1, 1000, by norm_num, by norm_num, by simp [range]⟩

theorem unpackSign_packComponents (exponent : BitVec 11) (mantissa : BitVec 52) :
    unpackSign (packComponents Format.binary64 .positive exponent mantissa) = 0#1 := by
  ext i hi
  have hi0 : i = 0 := by omega
  subst hi0
  have htop : ((0#1 ++ exponent : BitVec 12) ++ mantissa : BitVec 64).getLsbD 63 = false := by
    rw [BitVec.getLsbD_append, BitVec.getLsbD_append]
    rfl
  simp [unpackSign, packComponents, Sign.toBitVec]
  exact htop

theorem toNat_with_implicit_bit {m : ℕ} (hl : 2 ^ 52 ≤ m) (hu : m < 2 ^ 53) :
    (1#1 ++ BitVec.ofNat 52 m).toNat = m := by
  rw [BitVec.toNat_append, BitVec.toNat_ofNat, BitVec.toNat_ofNat]
  have hmod : m % 2 ^ 52 = m - 2 ^ 52 := by omega
  rw [hmod, ← Nat.shiftLeft_add_eq_or_of_lt (by omega), Nat.shiftLeft_eq]
  omega

theorem exponent_le {m : ℕ} {e : ℤ} (hl : 2 ^ 52 ≤ m ∨ e = -1074)
    (hb : (m : ℚ) * 2 ^ e ≤ range) : e ≤ 948 := by
  rcases hl with hl | rfl
  · by_contra hlarge
    have hm : (2 : ℚ) ^ (52 : ℤ) ≤ m := by exact_mod_cast hl
    have hprod : (2 : ℚ) ^ (52 : ℤ) * 2 ^ e ≤ m * 2 ^ e := by gcongr
    rw [← zpow_add₀ (by norm_num)] at hprod
    have := (zpow_le_zpow_iff_right₀ (by norm_num : (1 : ℚ) < 2)).1 (hprod.trans hb)
    omega
  · norm_num

theorem unpack_pack {u : UnpackedFloat} {q : ℚ} (h : Denotes u q) (hb : q ≤ range) :
    (Float.Model.pack u).unpack = u := by
  cases h with
  | zero => rfl
  | @finite m e hm hu hl he =>
    have hmax := exponent_le hl hb
    clear hb
    have hbias : Format.binary64.exponentBias = 1023 := rfl
    obtain ⟨b, hbe⟩ : ∃ b : ℕ, (b : ℤ) = e + 1023 + 52 := ⟨(e + 1023 + 52).toNat, by omega⟩
    have hbiased : (e + (1023 : ℕ) + (52 : ℕ)).toNat = b := by omega
    unfold Float.Model.unpack Float.Model.pack UnpackedFloat.pack
    simp only [hbias, hbiased, Format.mantissaBits]
    rw [if_neg (by omega)]
    by_cases hnormal : 2 ^ 52 ≤ m
    · have hlog : m.log2 = 52 := (Nat.log2_eq_iff hm.ne').2 ⟨hnormal, hu⟩
      have hb0 : BitVec.ofNat 11 b ≠ 0#11 := by
        rw [ne_eq, ← BitVec.toNat_inj, BitVec.toNat_ofNat]
        simp
        omega
      have hb1 : BitVec.ofNat 11 b ≠ -1#11 := by
        rw [ne_eq, ← BitVec.toNat_inj, BitVec.toNat_ofNat]
        simp
        omega
      have hexp : (BitVec.ofNat 11 b).toNat = b := by
        rw [BitVec.toNat_ofNat]
        omega
      rw [if_pos (by omega)]
      simp only [UnpackedFloat.unpack, unpackExponent_packComponents,
        unpackMantissa_packComponents, unpackSign_packComponents, hb0, hb1, if_false, hexp, hbias,
        toNat_with_implicit_bit hnormal hu]
      congr 1
      omega
    · have hmin : e = -1074 := hl.resolve_left hnormal
      have hlog : m.log2 < 52 := (Nat.log2_lt hm.ne').2 (by omega)
      have hmantissa : (BitVec.ofNat 52 m).toNat = m := by
        rw [BitVec.toNat_ofNat]
        omega
      have hm0 : BitVec.ofNat 52 m ≠ 0#52 := by
        rw [ne_eq, ← BitVec.toNat_inj, hmantissa]
        exact hm.ne'
      rw [if_neg (by omega)]
      simp only [UnpackedFloat.unpack, unpackExponent_packComponents,
        unpackMantissa_packComponents, unpackSign_packComponents, hm0, hmantissa, hbias]
      subst hmin
      rfl

/-- What an operation gives that rounds an exact result and packs it. -/
theorem holds_packed {u : UnpackedFloat} {q : ℚ} (hb : q ≤ range)
    (h : ∃ r, Rounded q r ∧ Denotes u r) :
    ∃ r, Rounded q r ∧ Holds (Float.ofModel (Float.Model.pack u)) r := by
  obtain ⟨r, hr, hu⟩ := h
  refine ⟨r, hr, ?_⟩
  unfold Holds
  rw [unpack_pack hu (hr.at_most _ representable_range hb)]
  exact hu

theorem rounded_zero : Rounded 0 0 := by
  simpa using Rounded.of_representable (representable_nat (m := 0) (by norm_num))

variable {x y : Float} {p q : ℚ}

theorem product_place {m n : ℕ} {e f : ℤ} (hm : 0 < m) (hn : 0 < n)
    (hml : 2 ^ 52 ≤ m ∨ e = -1074) (hnl : 2 ^ 52 ≤ n ∨ f = -1074) :
    52 ≤ (m * n).log2 ∨ e + f ≤ -1074 := by
  rw [Nat.le_log2 (by positivity)]
  rcases hml with hml | rfl
  · exact Or.inl (hml.trans (Nat.le_mul_of_pos_right m hn))
  rcases hnl with hnl | rfl
  · exact Or.inl (hnl.trans (Nat.le_mul_of_pos_left n hm))
  · exact Or.inr (by norm_num)

theorem mul_denotes {u u' : UnpackedFloat} (hx : Denotes u p) (hy : Denotes u' q) :
    ∃ r, Rounded (p * q) r ∧ Denotes (UnpackedFloat.mul Format.binary64 u u') r := by
  cases hx with
  | zero =>
    refine ⟨0, by simpa using rounded_zero, ?_⟩
    cases hy <;> exact Denotes.zero
  | @finite m e hm hu hl he =>
    cases hy with
    | zero => exact ⟨0, by simpa using rounded_zero, Denotes.zero⟩
    | @finite n f hn hu' hl' he' =>
      have hvalue : (m * 2 ^ e : ℚ) * (n * 2 ^ f) = (m * n : ℕ) * 2 ^ (e + f) := by
        rw [zpow_add₀ (by norm_num)]
        push_cast
        ring
      rw [hvalue]
      exact roundWithAccuracy_denotes (describes_exact _) (product_place hm hn hl hl')

theorem Holds.mul (hx : Holds x p) (hy : Holds y q) (hb : p * q ≤ range) :
    ∃ r, Rounded (p * q) r ∧ Holds (x * y) r :=
  holds_packed hb (mul_denotes hx hy)

/-- The quotient is computed with enough bits to fill a mantissa. -/
theorem quotient_place {m n : ℕ} {e f target : ℤ} {s : ℕ} (hm : 0 < m) (hn : 0 < n)
    (ht : target = min (e - f) (max ((m.log2 : ℤ) + e - (n.log2 + f) - 53) (-1074)))
    (hs : (s : ℤ) = e - f - target) : 52 ≤ (m <<< s / n).log2 ∨ target ≤ -1074 := by
  by_cases hmin : target ≤ -1074
  · exact Or.inr hmin
  · have hbits : n.log2 + 53 ≤ m.log2 + s := by omega
    have hlow : 2 ^ (n.log2 + 53) ≤ m <<< s := by
      rw [Nat.shiftLeft_eq]
      calc 2 ^ (n.log2 + 53) ≤ 2 ^ (m.log2 + s) := Nat.pow_le_pow_right (by norm_num) hbits
        _ = 2 ^ m.log2 * 2 ^ s := pow_add ..
        _ ≤ m * 2 ^ s := Nat.mul_le_mul_right _ (Nat.log2_self_le hm.ne')
    have hquotient : 2 ^ 52 ≤ m <<< s / n := by
      rw [Nat.le_div_iff_mul_le hn]
      calc 2 ^ 52 * n ≤ 2 ^ 52 * 2 ^ (n.log2 + 1) :=
            Nat.mul_le_mul_left _ (Nat.lt_log2_self (n := n)).le
        _ = 2 ^ (n.log2 + 53) := by rw [← pow_add]; congr 1; omega
        _ ≤ m <<< s := hlow
    exact Or.inl ((Nat.le_log2 (by omega)).2 hquotient)

theorem div_denotes {u u' : UnpackedFloat} (hx : Denotes u p) (hy : Denotes u' q) (hq : 0 < q) :
    ∃ r, Rounded (p / q) r ∧ Denotes (UnpackedFloat.div Format.binary64 u u') r := by
  cases hy with
  | zero => exact absurd hq (lt_irrefl 0)
  | @finite n f hn hu' hl' he' =>
    cases hx with
    | zero => exact ⟨0, by simpa using rounded_zero, Denotes.zero⟩
    | @finite m e hm hu hl he =>
      unfold UnpackedFloat.div divCore
      have htarget : Format.binary64.targetExponent (totalExponent m e - totalExponent n f) =
          max ((m.log2 : ℤ) + e - (n.log2 + f) - 53) (-1074) := by
        simp only [Format.targetExponent, totalExponent, Format.mantissaBits, Format.minExponent]
        norm_num
        omega
      simp only [htarget]
      generalize ht : min (e - f) (max ((m.log2 : ℤ) + e - (n.log2 + f) - 53) (-1074)) = target
      obtain ⟨s, hs⟩ : ∃ s : ℕ, (s : ℤ) = e - f - target := ⟨(e - f - target).toNat, by omega⟩
      have hamount : (e - f - target).toNat = s := by omega
      rw [hamount]
      have hvalue : (m * 2 ^ e : ℚ) / (n * 2 ^ f) =
          ((m <<< s / n : ℕ) + (m <<< s % n : ℕ) / n) * 2 ^ target := by
        have hn' : (n : ℚ) ≠ 0 := by exact_mod_cast hn.ne'
        have hdiv : ((m <<< s / n : ℕ) : ℚ) + (m <<< s % n : ℕ) / n = (m * 2 ^ s : ℕ) / n := by
          rw [← Nat.shiftLeft_eq, eq_div_iff hn', add_mul, div_mul_cancel₀ _ hn']
          exact_mod_cast Nat.div_add_mod' (m <<< s) n
        have he' : e = target + f + s := by omega
        rw [hdiv, he', zpow_add₀ (by norm_num), zpow_add₀ (by norm_num), zpow_natCast]
        push_cast
        field_simp
      rw [hvalue]
      exact roundWithAccuracy_denotes (describes_fraction (Nat.mod_lt _ hn))
        (quotient_place hm hn ht.symm hs)

theorem Holds.div (hx : Holds x p) (hy : Holds y q) (hq : 0 < q) (hb : p / q ≤ range) :
    ∃ r, Rounded (p / q) r ∧ Holds (x / y) r :=
  holds_packed hb (div_denotes hx hy hq)

theorem aligned {m : ℕ} {e t : ℤ} (h : t ≤ e) :
    ((decreaseExponent m e t).1 : ℚ) * 2 ^ t = m * 2 ^ e := by
  have hvalue : (decreaseExponent m e t).1 = m * 2 ^ (e - t).toNat := Nat.shiftLeft_eq _ _
  rw [hvalue, zpow_split h]
  push_cast
  ring

theorem add_denotes {u u' : UnpackedFloat} (hx : Denotes u p) (hy : Denotes u' q) :
    ∃ r, Rounded (p + q) r ∧ Denotes (UnpackedFloat.add Format.binary64 u u') r := by
  have hp := representable_of_denotes hx
  have hq := representable_of_denotes hy
  cases hx with
  | zero =>
    refine ⟨q, by simpa using Rounded.of_representable hq, ?_⟩
    cases hy with
    | zero => exact Denotes.zero
    | finite hn hu hl he => exact Denotes.finite hn hu hl he
  | @finite m e hm hu hl he =>
    cases hy with
    | zero => exact ⟨_, by simpa using Rounded.of_representable hp, Denotes.finite hm hu hl he⟩
    | @finite n f hn hu' hl' he' =>
      have hsum : (m * 2 ^ e + n * 2 ^ f : ℚ) = ((decreaseExponent m e (min e f)).1 +
          (decreaseExponent n f (min e f)).1 : ℕ) * 2 ^ min e f := by
        rw [← aligned (m := m) (min_le_left e f), ← aligned (m := n) (min_le_right e f)]
        push_cast
        ring
      rw [hsum]
      exact normalize_denotes _ _

theorem Holds.add (hx : Holds x p) (hy : Holds y q) (hb : p + q ≤ range) :
    ∃ r, Rounded (p + q) r ∧ Holds (x + y) r :=
  holds_packed hb (add_denotes hx hy)

theorem sub_denotes {u u' : UnpackedFloat} (hx : Denotes u p) (hy : Denotes u' q) (h : q ≤ p) :
    ∃ r, Rounded (p - q) r ∧ Denotes (UnpackedFloat.sub Format.binary64 u u') r := by
  have hp := representable_of_denotes hx
  cases hx with
  | zero =>
    cases hy with
    | zero => exact ⟨0, by simpa using rounded_zero, Denotes.zero⟩
    | @finite n f hn hu' hl' he' =>
      have : (0 : ℚ) < n * 2 ^ f := by positivity
      exact absurd h (not_le.2 this)
  | @finite m e hm hu hl he =>
    cases hy with
    | zero => exact ⟨_, by simpa using Rounded.of_representable hp, Denotes.finite hm hu hl he⟩
    | @finite n f hn hu' hl' he' =>
      rw [← aligned (m := m) (min_le_left e f), ← aligned (m := n) (min_le_right e f)] at h ⊢
      generalize hM : (decreaseExponent m e (min e f)).1 = M at h ⊢
      generalize hN : (decreaseExponent n f (min e f)).1 = N at h ⊢
      have hle : N ≤ M := by
        have := le_of_mul_le_mul_right h (by positivity)
        exact_mod_cast this
      have hdiff : (M * 2 ^ min e f - N * 2 ^ min e f : ℚ) = (M - N : ℕ) * 2 ^ min e f := by
        rw [Nat.cast_sub hle]
        ring
      have hmantissa : Sign.apply .positive M - Sign.apply .positive N = ((M - N : ℕ) : ℤ) := by
        rw [Nat.cast_sub hle]
        rfl
      rw [hdiff]
      simp only [UnpackedFloat.sub, hM, hN, hmantissa]
      exact normalize_denotes _ _

theorem Holds.sub (hx : Holds x p) (hy : Holds y q) (h : q ≤ p) (hb : p - q ≤ range) :
    ∃ r, Rounded (p - q) r ∧ Holds (x - y) r :=
  holds_packed hb (sub_denotes hx hy h)

/-! Comparison goes by the exponents first, which the normal form makes right. -/

theorem lt_of_lower_place {m n : ℕ} {e f : ℤ} (hu : m < 2 ^ 53) (hl : 2 ^ 52 ≤ n ∨ f = -1074)
    (he : -1074 ≤ e) (h : e < f) : (m * 2 ^ e : ℚ) < n * 2 ^ f := by
  have hn : (2 : ℚ) ^ 52 ≤ n := by exact_mod_cast hl.resolve_right (by omega)
  refine (small_of_lower_place hu h).trans_le ?_
  gcongr

theorem lt_denotes {u u' : UnpackedFloat} (hx : Denotes u p) (hy : Denotes u' q) :
    UnpackedFloat.lt u u' = true ↔ p < q := by
  cases hx with
  | zero =>
    cases hy with
    | zero => simp [UnpackedFloat.lt, UnpackedFloat.compare]
    | finite hn hu' hl' he' =>
      simp [UnpackedFloat.lt, UnpackedFloat.compare]
      positivity
  | @finite m e hm hu hl he =>
    cases hy with
    | zero =>
      simp [UnpackedFloat.lt, UnpackedFloat.compare]
      positivity
    | @finite n f hn hu' hl' he' =>
      simp only [UnpackedFloat.lt, UnpackedFloat.compare]
      rcases lt_trichotomy e f with hlt | rfl | hgt
      · simpa [Int.compare_eq_lt.2 hlt] using lt_of_lower_place hu hl' he hlt
      · rcases lt_trichotomy m n with hlt | rfl | hgt
        · simp [Nat.compare_eq_lt.2 hlt]
          gcongr
        · simp
        · simp [Nat.compare_eq_gt.2 hgt]
          gcongr
      · simpa [Int.compare_eq_gt.2 hgt] using (lt_of_lower_place hu' hl he' hgt).le

theorem Holds.lt_iff (hx : Holds x p) (hy : Holds y q) : x < y ↔ p < q := by
  refine Iff.trans ?_ (lt_denotes hx hy)
  exact decide_eq_true_iff

/-! Whole numbers. -/

theorem toInt_denotes {u : UnpackedFloat} (hx : Denotes u p) (low high : ℤ) :
    UnpackedFloat.toInt low high u = (⌊p⌋₊ : ℤ) := by
  cases hx with
  | zero => simp [UnpackedFloat.toInt]
  | @finite m e hm hu hl he =>
    simp only [UnpackedFloat.toInt, roundToInt, decreaseExponent, shiftToExponent, Sign.apply]
    have hshift := ((describes_exact (m <<< (e - 0).toNat)).shift
      (0 - (e - ((e - 0).toNat : ℤ))).toNat).floor
    have hvalue : ((m <<< (e - 0).toNat : ℕ) : ℚ) / 2 ^ (0 - (e - ((e - 0).toNat : ℤ))).toNat =
        m * 2 ^ e := by
      rcases le_total 0 e with hpos | hneg
      · obtain ⟨k, rfl⟩ := Int.eq_ofNat_of_zero_le hpos
        simp [Nat.shiftLeft_eq]
      · obtain ⟨k, rfl⟩ : ∃ k : ℕ, e = -k := ⟨(-e).toNat, by omega⟩
        have hk : (0 - (-(k : ℤ) - ((-(k : ℤ) - 0).toNat : ℤ))).toNat = k := by omega
        have h0 : (-(k : ℤ) - 0).toNat = 0 := by omega
        rw [hk, h0, Nat.shiftLeft_zero, zpow_neg, zpow_natCast, div_eq_mul_inv]
    rw [hvalue] at hshift
    exact congrArg Nat.cast ((Nat.floor_eq_iff (by positivity)).2 hshift).symm

theorem Holds.toUInt64 (hx : Holds x p) (hp : p < 2 ^ 64) : x.toUInt64.toNat = ⌊p⌋₊ := by
  have hfloor : ⌊p⌋₊ < 2 ^ 64 := by
    rw [Nat.floor_lt hx.nonneg]
    exact_mod_cast hp
  have hint : UnpackedFloat.toInt 0 (UInt64.size - 1) x.toModel.unpack = (⌊p⌋₊ : ℤ) :=
    toInt_denotes hx _ _
  change (UInt64.ofNatClamp (UnpackedFloat.toInt 0 (UInt64.size - 1) x.toModel.unpack).toNat).toNat = _
  rw [hint, Int.toNat_natCast]
  unfold UInt64.ofNatClamp
  rw [dif_pos (by simpa [UInt64.size] using hfloor)]
  rfl

theorem holds_uint64 (n : UInt64) (h : n.toNat < 2 ^ 53) : Holds n.toFloat n.toNat := by
  have hn : (n.toNat : ℚ) < 2 ^ 53 := by exact_mod_cast h
  obtain ⟨r, hr, hx⟩ := holds_packed (u := UnpackedFloat.ofUInt64 Format.binary64 n)
    (q := n.toNat * 2 ^ (0 : ℤ)) (le_range (by norm_num; linarith)) (normalize_denotes n.toNat 0)
  rw [zpow_zero, mul_one] at hr
  rwa [hr.eq_of_representable (representable_nat h)] at hx

theorem holds_one : Holds (Float.ofBits 0x3FF0000000000000) 1 := by
  have h : Denotes (.finite .positive (2 ^ 52) (-52) (by norm_num)) ((2 ^ 52 : ℕ) * 2 ^ (-52 : ℤ)) :=
    Denotes.finite _ (by norm_num) (Or.inl le_rfl) (by norm_num)
  norm_num at h
  exact h

theorem holds_ten : Holds (Float.ofBits 0x4024000000000000) 10 := by
  have h : Denotes (.finite .positive (5 * 2 ^ 50) (-49) (by norm_num))
      ((5 * 2 ^ 50 : ℕ) * 2 ^ (-49 : ℤ)) :=
    Denotes.finite _ (by norm_num) (Or.inl (by norm_num)) (by norm_num)
  norm_num at h
  exact h

theorem holds_toUInt64 {n : ℕ} (h : n < 2 ^ 53) : Holds n.toUInt64.toFloat n := by
  have hn : n.toUInt64.toNat = n := by
    rw [Nat.toUInt64, UInt64.toNat_ofNat']
    omega
  have := holds_uint64 n.toUInt64 (by omega)
  rwa [hn] at this

theorem holds_nat {n : ℕ} (h : n < 2 ^ 53) : Holds n.toFloat n := by
  have hfast : n.toFloat = n.toUInt64.toFloat * Float.ofBits 0x3FF0000000000000 := by
    change Float.ofScientific n false 0 = _
    unfold Float.ofScientific
    rw [dif_pos ⟨h, by norm_num⟩]
    rfl
  have hn : (n : ℚ) < 2 ^ 53 := by exact_mod_cast h
  obtain ⟨r, hr, hx⟩ := (holds_toUInt64 h).mul holds_one (le_range (by linarith))
  rw [mul_one] at hr
  rwa [hfast, hr.eq_of_representable (representable_nat h)] at *

theorem holds_hundred : Holds (Float.ofBits 0x4059000000000000) 100 := by
  have h : Denotes (.finite .positive (25 * 2 ^ 48) (-46) (by norm_num))
      ((25 * 2 ^ 48 : ℕ) * 2 ^ (-46 : ℤ)) :=
    Denotes.finite _ (by norm_num) (Or.inl (by norm_num)) (by norm_num)
  norm_num at h
  exact h

/-- A literal with one digit after the point. -/
theorem holds_tenths {n : ℕ} (h : n < 2 ^ 53) :
    ∃ r, Rounded (n / 10) r ∧ Holds (OfScientific.ofScientific n true 1) r := by
  have hfast : (OfScientific.ofScientific n true 1 : Float) =
      n.toUInt64.toFloat / Float.ofBits 0x4024000000000000 := by
    change Float.ofScientific n true 1 = _
    unfold Float.ofScientific
    rw [dif_pos ⟨h, by norm_num⟩]
    rfl
  have hn : (n : ℚ) < 2 ^ 53 := by exact_mod_cast h
  rw [hfast]
  exact (holds_toUInt64 h).div holds_ten (by norm_num) (le_range (by linarith))

/-- A literal with two digits after the point. -/
theorem holds_hundredths {n : ℕ} (h : n < 2 ^ 53) :
    ∃ r, Rounded (n / 100) r ∧ Holds (OfScientific.ofScientific n true 2) r := by
  have hfast : (OfScientific.ofScientific n true 2 : Float) =
      n.toUInt64.toFloat / Float.ofBits 0x4059000000000000 := by
    change Float.ofScientific n true 2 = _
    unfold Float.ofScientific
    rw [dif_pos ⟨h, by norm_num⟩]
    rfl
  have hn : (n : ℚ) < 2 ^ 53 := by exact_mod_cast h
  rw [hfast]
  exact (holds_toUInt64 h).div holds_hundred (by norm_num) (le_range (by linarith))

/-- What is left of a number without its whole part keeps every digit. -/
theorem representable_fraction {n : ℕ} (h : Representable p) (hn : n ≤ p) (hlt : p < n + 1) :
    Representable (p - n) := by
  obtain ⟨m, e, hm, he, rfl⟩ := h
  rcases le_total 0 e with hpos | hneg
  · obtain ⟨k, rfl⟩ := Int.eq_ofNat_of_zero_le hpos
    have hwhole : (m * 2 ^ (k : ℤ) : ℚ) = (m * 2 ^ k : ℕ) := by push_cast; rfl
    rw [hwhole] at hn hlt ⊢
    have hle : n ≤ m * 2 ^ k := by exact_mod_cast hn
    have hlt' : m * 2 ^ k < n + 1 := by exact_mod_cast hlt
    have heq : m * 2 ^ k = n := by omega
    rw [heq, sub_self]
    exact representable_nat (m := 0) (by norm_num)
  · obtain ⟨k, rfl⟩ : ∃ k : ℕ, e = -k := ⟨(-e).toNat, by omega⟩
    rw [zpow_neg, zpow_natCast, ← div_eq_mul_inv] at hn ⊢
    have hle : n * 2 ^ k ≤ m := by
      rw [le_div_iff₀ (by positivity)] at hn
      exact_mod_cast hn
    have hrest : (m / 2 ^ k - n : ℚ) = (m - n * 2 ^ k : ℕ) / 2 ^ k := by
      rw [Nat.cast_sub hle]
      push_cast
      field_simp
    rw [hrest]
    exact representable_div (by omega) (by omega)

end Binary64
