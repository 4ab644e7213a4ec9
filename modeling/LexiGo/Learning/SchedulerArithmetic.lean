import LexiGo.Arithmetic.Binary64
import LexiGo.Learning.Scheduler
import Mathlib.Algebra.Order.Floor.Semifield

/-! The scheduler in whole numbers: what its binary64 arithmetic makes of an
easiness in hundredths and an interval in days. Easiness is computed to within a
few parts in a thousand million, so rounding to hundredths always finds the exact
result; an interval is the exact product, rounded, unless that ends in half a day. -/
namespace SchedulerArithmetic
open AnswerJudgement Scheduler BinaryRounding Binary64
open Float.Model (UnpackedFloat)

variable {x y : Float} {p q : ℚ}

theorem holds_half : Holds 0.5 (1 / 2) := by
  obtain ⟨r, hr, hx⟩ := holds_tenths (n := 5) (by norm_num)
  have hhalf : ((5 : ℕ) / 10 : ℚ) = (1 : ℕ) / 2 ^ 1 := by norm_num
  rw [hhalf] at hr
  rw [hr.eq_of_representable (representable_div (by norm_num) (by norm_num))] at hx
  simpa using hx

/-- `math.Round` finds the nearest whole number, and the next one for a half. -/
theorem round_eq (hx : Holds x p) (hp : p < 2 ^ 52) : GoText.round x = ⌊p + 1 / 2⌋₊ := by
  have h0 := hx.nonneg
  have hfloor : (⌊p⌋₊ : ℚ) ≤ p := Nat.floor_le h0
  have hnext : p < ⌊p⌋₊ + 1 := Nat.lt_floor_add_one p
  have hwhole : x.toUInt64.toNat = ⌊p⌋₊ := hx.toUInt64 (by linarith)
  have hsmall : ⌊p⌋₊ < 2 ^ 52 := by
    rw [Nat.floor_lt h0]
    exact_mod_cast hp
  have hback := holds_uint64 x.toUInt64 (by omega)
  rw [hwhole] at hback
  obtain ⟨r, hr, hrest⟩ := hx.sub hback hfloor (le_range (by linarith))
  rw [hr.eq_of_representable (representable_fraction hx.representable hfloor hnext)] at hrest
  unfold GoText.round
  dsimp only
  rw [hwhole]
  by_cases hlt : p - ⌊p⌋₊ < 1 / 2
  · rw [if_pos ((hrest.lt_iff holds_half).2 hlt), eq_comm, Nat.floor_eq_iff (by linarith)]
    constructor <;> linarith
  · rw [if_neg ((hrest.lt_iff holds_half).not.2 hlt), eq_comm, Nat.floor_eq_iff (by linarith)]
    push_cast
    constructor <;> linarith

/-- `x` is the number `q` but for `n` steps of 30 binary digits after the point. -/
def Near (x : Float) (q : ℚ) (n : ℕ) : Prop :=
  ∃ r, Holds x r ∧ q * 2 ^ 30 - n ≤ r * 2 ^ 30 ∧ r * 2 ^ 30 ≤ q * 2 ^ 30 + n

variable {m n : ℕ}

theorem near_of_rounded (h : ∃ r, Rounded q r ∧ Holds x r) (h0 : 0 ≤ q) (hq : q ≤ 2 ^ 20) :
    Near x q 1 := by
  obtain ⟨r, hr, hx⟩ := h
  exact ⟨r, hx, by simpa using hr.close h0 hq⟩

theorem near_tenths {k : ℕ} (h : k ≤ 1000) :
    Near (OfScientific.ofScientific k true 1) (k / 10) 1 := by
  have hk : (k : ℚ) ≤ 1000 := by exact_mod_cast h
  exact near_of_rounded (holds_tenths (by omega)) (by positivity) (by linarith)

theorem near_hundredths {k : ℕ} (h : k ≤ 1000) :
    Near (OfScientific.ofScientific k true 2) (k / 100) 1 := by
  have hk : (k : ℚ) ≤ 1000 := by exact_mod_cast h
  exact near_of_rounded (holds_hundredths (by omega)) (by positivity) (by linarith)

theorem Near.add (hx : Near x p m) (hy : Near y q n) (hp : p ≤ 1000) (hq : q ≤ 1000)
    (hm : m ≤ 10) (hn : n ≤ 10) : Near (x + y) (p + q) (m + n + 1) := by
  obtain ⟨r, hr, hlr, hur⟩ := hx
  obtain ⟨s, hs, hls, hus⟩ := hy
  have hm' : (m : ℚ) ≤ 10 := by exact_mod_cast hm
  have hn' : (n : ℚ) ≤ 10 := by exact_mod_cast hn
  obtain ⟨t, ht, hsum⟩ := hr.add hs (le_range (by linarith))
  have hclose := ht.close (add_nonneg hr.nonneg hs.nonneg) (by linarith)
  refine ⟨t, hsum, ?_⟩
  push_cast
  constructor <;> linarith

theorem Near.sub (hx : Near x p m) (hy : Near y q n) (hp : p ≤ 1000) (hq : q + 1 ≤ p)
    (hm : m ≤ 10) (hn : n ≤ 10) : Near (x - y) (p - q) (m + n + 1) := by
  obtain ⟨r, hr, hlr, hur⟩ := hx
  obtain ⟨s, hs, hls, hus⟩ := hy
  have hm' : (m : ℚ) ≤ 10 := by exact_mod_cast hm
  have hn' : (n : ℚ) ≤ 10 := by exact_mod_cast hn
  have hle : s ≤ r := by linarith
  have h0 := hs.nonneg
  obtain ⟨t, ht, hdiff⟩ := hr.sub hs hle (le_range (by linarith))
  have hclose := ht.close (sub_nonneg.2 hle) (by linarith)
  refine ⟨t, hdiff, ?_⟩
  push_cast
  constructor <;> linarith

theorem Near.weaken (hx : Near x p m) (h : m ≤ n) : Near x p n := by
  obtain ⟨r, hr, hl, hu⟩ := hx
  have h' : (m : ℚ) ≤ n := by exact_mod_cast h
  exact ⟨r, hr, by linarith, by linarith⟩

theorem Near.atLeast (hx : Near x p n) (hy : Near y q n) : Near (atLeast x y) (max p q) n := by
  obtain ⟨r, hr, hlr, hur⟩ := hx
  obtain ⟨s, hs, hls, hus⟩ := hy
  have hp := le_max_left p q
  have hq := le_max_right p q
  unfold Scheduler.atLeast
  by_cases h : s < r
  · rw [if_pos ((hs.lt_iff hr).2 h)]
    refine ⟨r, hr, ?_, by linarith⟩
    rcases max_choice p q with hmax | hmax <;> rw [hmax] <;> linarith
  · rw [if_neg ((hs.lt_iff hr).not.2 h)]
    refine ⟨s, hs, ?_, by linarith⟩
    rcases max_choice p q with hmax | hmax <;> rw [hmax] <;> linarith

theorem Near.atMost (hx : Near x p n) (hy : Near y q n) : Near (atMost x y) (min p q) n := by
  obtain ⟨r, hr, hlr, hur⟩ := hx
  obtain ⟨s, hs, hls, hus⟩ := hy
  have hp := min_le_left p q
  have hq := min_le_right p q
  unfold Scheduler.atMost
  by_cases h : r < s
  · rw [if_pos ((hr.lt_iff hs).2 h)]
    refine ⟨r, hr, by linarith, ?_⟩
    rcases min_choice p q with hmin | hmin <;> rw [hmin] <;> linarith
  · rw [if_neg ((hr.lt_iff hs).not.2 h)]
    refine ⟨s, hs, by linarith, ?_⟩
    rcases min_choice p q with hmin | hmin <;> rw [hmin] <;> linarith

/-- A number so near to a whole number of hundredths is rounded to it. -/
theorem round2_of_near {k : ℕ} (hx : Near x (k / 100) n) (hn : n ≤ 10) (hk : k ≤ 10000) :
    round2 x = k := by
  obtain ⟨r, hr, hl, hu⟩ := hx
  have hn' : (n : ℚ) ≤ 10 := by exact_mod_cast hn
  have hk' : (k : ℚ) ≤ 10000 := by exact_mod_cast hk
  have h0 := hr.nonneg
  obtain ⟨t, ht, hprod⟩ := hr.mul (holds_nat (n := 100) (by norm_num))
    (le_range (by push_cast; linarith))
  push_cast at ht
  have hclose := ht.close (by linarith) (by linarith)
  have ht0 := hprod.nonneg
  have hround := round_eq hprod (by linarith)
  refine hround.trans ((Nat.floor_eq_iff (by linarith)).2 ?_)
  constructor <;> linarith

/-! Easiness. -/

/-- An easiness that the column can hold and its check admits. -/
structure Kept (state : ReviewState) : Prop where
  least : 130 ≤ state.easiness
  most : state.easiness ≤ 9999

variable {state : ReviewState}

theorem stored_near (h : Kept state) : Near (state.easiness.toFloat / 100) (state.easiness / 100) 1 := by
  have hmost := h.most
  have he : (state.easiness : ℚ) ≤ 9999 := by exact_mod_cast hmost
  have hdiv := (holds_nat (n := state.easiness) (by omega)).div (holds_nat (n := 100) (by norm_num))
    (by norm_num) (le_range (by push_cast; linarith))
  push_cast at hdiv
  exact near_of_rounded hdiv (by positivity) (by linarith)

theorem storedEasiness_eq (h : Kept state) :
    storedEasiness state = state.easiness.toFloat / 100 := by
  unfold storedEasiness
  dsimp only
  refine if_neg ?_
  have hleast := h.least
  by_cases hbound : state.easiness = 130
  · rw [hbound]
    decide +kernel
  · -- The next easiness is further from the bound than rounding can reach.
    obtain ⟨r, hr, hl, -⟩ := stored_near h
    obtain ⟨s, hs, -, hu⟩ := near_tenths (k := 13) (by norm_num)
    have he : (131 : ℚ) ≤ state.easiness := by exact_mod_cast (by omega : 131 ≤ state.easiness)
    refine (hr.lt_iff hs).not.2 ?_
    push_cast at *
    linarith

theorem storedEasiness_near (h : Kept state) : Near (storedEasiness state) (state.easiness / 100) 1 := by
  rw [storedEasiness_eq h]
  exact stored_near h

theorem study_easiness (h : Kept state) (rating : Rating) :
    (scheduleStudy state rating).easiness = state.easiness :=
  round2_of_near (storedEasiness_near h) (by norm_num) (h.most.trans (by norm_num))

/-- The easiness after losing `k` hundredths. -/
theorem lowered {k : ℕ} {step : Float} (h : Kept state) (hk : k ≤ 30) (hstep : Near step (k / 100) 1) :
    round2 (atLeast 1.3 (storedEasiness state - step)) = max 130 (state.easiness - k) := by
  have hleast : (130 : ℚ) ≤ state.easiness := by exact_mod_cast h.least
  have hmost : (state.easiness : ℚ) ≤ 9999 := by exact_mod_cast h.most
  have hk' : (k : ℚ) ≤ 30 := by exact_mod_cast hk
  have hless := (storedEasiness_near h).sub hstep (by linarith) (by linarith) (by norm_num)
    (by norm_num)
  have hnear := ((near_tenths (k := 13) (by norm_num)).weaken (by norm_num)).atLeast hless
  refine round2_of_near (n := 3) ?_ (by norm_num) (max_le (by norm_num) ?_)
  · have hcast : ((max 130 (state.easiness - k) : ℕ) : ℚ) / 100 =
        max (((13 : ℕ) : ℚ) / 10) (state.easiness / 100 - k / 100) := by
      have hle : k ≤ state.easiness := hk.trans (le_trans (by norm_num) h.least)
      push_cast [Nat.cast_sub hle]
      rw [← sub_div, ← max_div_div_right (by norm_num : (0 : ℚ) ≤ 100)]
      norm_num
    rw [hcast]
    exact hnear
  · have := h.most
    omega

theorem again_easiness (h : Kept state) :
    (scheduleReview state .again).easiness = max 130 (state.easiness - 20) := by
  refine lowered h (by norm_num) ?_
  have := near_tenths (k := 2) (by norm_num)
  norm_num at this ⊢
  exact this

theorem almost_easiness (h : Kept state) :
    (scheduleReview state .almost).easiness = max 130 (state.easiness - 5) :=
  lowered h (by norm_num) (near_hundredths (by norm_num))

/-- What the interval is multiplied by when the word was known. -/
def factor (state : ReviewState) : Float := atMost 3.0 (storedEasiness state + 0.1)

theorem factor_near (h : Kept state) :
    Near (factor state) ((min 300 (state.easiness + 10) : ℕ) / 100) 3 := by
  have hmost : (state.easiness : ℚ) ≤ 9999 := by exact_mod_cast h.most
  have hmore := (storedEasiness_near h).add (near_tenths (k := 1) (by norm_num)) (by linarith)
    (by norm_num) (by norm_num) (by norm_num)
  have hnear := ((near_tenths (k := 30) (by norm_num)).weaken (by norm_num)).atMost hmore
  have hcast : ((min 300 (state.easiness + 10) : ℕ) : ℚ) / 100 =
      min (((30 : ℕ) : ℚ) / 10) (state.easiness / 100 + ((1 : ℕ) : ℚ) / 10) := by
    push_cast
    rw [← min_div_div_right (by norm_num : (0 : ℚ) ≤ 100), add_div]
    norm_num
  rw [hcast]
  exact hnear

theorem factor_bounds (h : Kept state) :
    ∃ p, Holds (factor state) p ∧ (min 300 (state.easiness + 10) : ℕ) / 100 - 3 / 2 ^ 30 ≤ p ∧
      p ≤ (min 300 (state.easiness + 10) : ℕ) / 100 + 3 / 2 ^ 30 ∧ p ≤ 4 := by
  obtain ⟨p, hp, hl, hu⟩ := factor_near h
  have hle : ((min 300 (state.easiness + 10) : ℕ) : ℚ) ≤ 300 := by
    exact_mod_cast min_le_left _ _
  generalize ((min 300 (state.easiness + 10) : ℕ) : ℚ) = f at hl hu hle ⊢
  push_cast at hl hu
  exact ⟨p, hp, by linarith, by linarith, by linarith⟩

/-- The mantissa and the exponent of `x`, compared with hundredths. -/
def closeTo (f : ℕ) : UnpackedFloat → Bool
  | .finite .positive m (.negSucc k) _ => (m * 100).dist (f * 2 ^ (k + 1)) ≤ 400 && 50 ≤ k
  | _ => false

/-- Every factor there is, to 49 binary digits after the point. -/
theorem factors_close : ∀ e < 171, closeTo (min 300 (e + 130 + 10))
    (atMost 3.0 ((let easiness := (e + 130).toFloat / 100
      if easiness < 1.3 then 2.5 else easiness) + 0.1)).toModel.unpack = true := by
  decide +kernel

theorem close_bounds {u : UnpackedFloat} {f : ℕ} {p : ℚ} (h : closeTo f u = true) (hp : Denotes u p) :
    (f : ℚ) / 100 - 1 / 2 ^ 48 ≤ p ∧ p ≤ (f : ℚ) / 100 + 1 / 2 ^ 48 := by
  cases hp with
  | zero => cases h
  | @finite m e hm hu hl he =>
    cases e with
    | ofNat k => cases h
    | negSucc k =>
      obtain ⟨hdist, hk⟩ : (m * 100).dist (f * 2 ^ (k + 1)) ≤ 400 ∧ 50 ≤ k := by
        simpa [closeTo] using h
      have hq : (2 : ℚ) ^ 51 ≤ 2 ^ (k + 1) := pow_le_pow_right₀ (by norm_num) (by omega)
      have hp : (m : ℚ) * 2 ^ Int.negSucc k = m / 2 ^ (k + 1) := by
        rw [zpow_negSucc]
        rfl
      have hupper : ((m * 100 : ℕ) : ℚ) ≤ (f * 2 ^ (k + 1) + 400 : ℕ) := by
        rw [Nat.dist] at hdist
        exact_mod_cast (by omega : m * 100 ≤ f * 2 ^ (k + 1) + 400)
      have hlower : ((f * 2 ^ (k + 1) : ℕ) : ℚ) ≤ (m * 100 + 400 : ℕ) := by
        rw [Nat.dist] at hdist
        exact_mod_cast (by omega : f * 2 ^ (k + 1) ≤ m * 100 + 400)
      push_cast at hupper hlower
      rw [hp, le_div_iff₀ (by positivity), div_le_iff₀ (by positivity)]
      constructor <;> nlinarith

theorem factor_close (h : Kept state) (hcapped : state.easiness ≤ 300) :
    ∃ p, Holds (factor state) p ∧ (min 300 (state.easiness + 10) : ℕ) / 100 - 1 / 2 ^ 48 ≤ p ∧
      p ≤ (min 300 (state.easiness + 10) : ℕ) / 100 + 1 / 2 ^ 48 ∧ p ≤ 4 := by
  obtain ⟨p, hp, -, -, hp4⟩ := factor_bounds h
  have hleast := h.least
  obtain ⟨e, he⟩ : ∃ e, state.easiness = e + 130 := ⟨state.easiness - 130, by omega⟩
  have hclose := factors_close e (by omega)
  have hfactor : factor state = atMost 3.0 ((let easiness := (e + 130).toFloat / 100
      if easiness < 1.3 then 2.5 else easiness) + 0.1) := by
    rw [← he]
    rfl
  rw [← hfactor, ← he] at hclose
  obtain ⟨hl, hu⟩ := close_bounds hclose hp
  exact ⟨p, hp, hl, hu, hp4⟩

theorem known_easiness (h : Kept state) :
    (scheduleReview state .known).easiness = min 300 (state.easiness + 10) :=
  round2_of_near (factor_near h) (by norm_num) ((min_le_left _ _).trans (by norm_num))

/-! Intervals. -/

theorem almost_round {n : ℕ} (hn : n < 2 ^ 50) : GoText.round (n.toFloat * 1.5) = (3 * n + 1) / 2 := by
  have hn' : (n : ℚ) < 2 ^ 50 := by exact_mod_cast hn
  obtain ⟨r, hr, hx⟩ := holds_tenths (n := 15) (by norm_num)
  have hfactor : ((15 : ℕ) / 10 : ℚ) = (3 : ℕ) / 2 ^ 1 := by norm_num
  rw [hfactor] at hr
  rw [hr.eq_of_representable (representable_div (by norm_num) (by norm_num))] at hx
  obtain ⟨t, ht, hprod⟩ := (holds_nat (n := n) (by omega)).mul hx
    (le_range (by push_cast; linarith))
  have hexact : (n * ((3 : ℕ) / 2 ^ 1) : ℚ) = (3 * n : ℕ) / 2 ^ 1 := by push_cast; ring
  rw [hexact] at ht
  rw [ht.eq_of_representable (representable_div (by omega) (by norm_num))] at hprod
  have hround := round_eq hprod (by push_cast; linarith)
  have hhalf : ((3 * n : ℕ) / 2 ^ 1 + 1 / 2 : ℚ) = ((3 * n + 1 : ℕ) : ℚ) / (2 : ℕ) := by
    push_cast
    ring
  rw [hhalf, Nat.floor_div_eq_div] at hround
  exact hround

theorem almost_interval (h : state.intervalDays < 2 ^ 50) :
    (scheduleReview state .almost).intervalDays =
      if 0 < state.repetitions then (3 * max 1 state.intervalDays + 1) / 2 else 1 := by
  simp only [scheduleReview, almost_round (n := max 1 state.intervalDays) (by omega)]
  split <;> omega

/-- The interval times the factor, in whole days. -/
def knownDays (state : ReviewState) : Nat :=
  GoText.round ((max 1 state.intervalDays).toFloat * factor state)

theorem known_interval (state : ReviewState) :
    (scheduleReview state .known).intervalDays =
      if state.repetitions = 0 then 2
      else if state.repetitions = 1 then 6
      else max (state.intervalDays + 1) (knownDays state) := by
  unfold scheduleReview knownDays factor
  rcases state.repetitions with _ | _ | n <;> simp

theorem round_product_le {n k : ℕ} (hx : Holds x p) (hn : n < 2 ^ 40) (hk : k < 2 ^ 40)
    (h : n * p ≤ k + 1 / 2 - 1 / 512) : GoText.round (n.toFloat * x) ≤ k := by
  have hk' : (k : ℚ) < 2 ^ 40 := by exact_mod_cast hk
  obtain ⟨t, ht, hprod⟩ := (holds_nat (n := n) (by omega)).mul hx (le_range (by linarith))
  have hgrid : (k + 1 / 2 - 1 / 512 : ℚ) = (512 * k + 255 : ℕ) / 2 ^ 9 := by push_cast; ring
  rw [hgrid] at h
  have hbound := ht.at_most _ (representable_div (by omega) (by norm_num)) h
  rw [← hgrid] at hbound
  have hround := round_eq hprod (by linarith)
  have hfloor : ⌊t + 1 / 2⌋₊ < k + 1 := by
    rw [Nat.floor_lt (by have := hprod.nonneg; linarith)]
    push_cast
    linarith
  exact hround.le.trans (by omega)

theorem le_round_product {n k : ℕ} (hx : Holds x p) (hn : n < 2 ^ 40) (hp : p ≤ 10)
    (hk : k < 2 ^ 50) (h : (k : ℚ) / 2 ≤ n * p) : (k + 1) / 2 ≤ GoText.round (n.toFloat * x) := by
  have hn' : (n : ℚ) < 2 ^ 40 := by exact_mod_cast hn
  have hsize : n * p ≤ n * 10 := by gcongr
  obtain ⟨t, ht, hprod⟩ := (holds_nat (n := n) (by omega)).mul hx (le_range (by linarith))
  have hgrid : (k / 2 : ℚ) = k / 2 ^ 1 := by norm_num
  rw [hgrid] at h
  have hbound := ht.at_least _ (representable_div (by omega) (by norm_num)) h
  have hlimit := ht.at_most _ (representable_nat (m := n * 10) (by omega)) (by push_cast; exact hsize)
  push_cast at hlimit
  have hround := round_eq hprod (by linarith)
  have hfloor : (k + 1) / 2 ≤ ⌊t + 1 / 2⌋₊ := by
    rw [← Nat.floor_div_eq_div (K := ℚ)]
    refine Nat.floor_mono ?_
    push_cast
    rw [← hgrid] at hbound
    linarith
  exact hfloor.trans hround.ge

end SchedulerArithmetic
