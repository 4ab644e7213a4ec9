import LexiGo.Learning.SchedulerRuns
import Mathlib.Tactic.IntervalCases

/-! How the three ratings compare, and what a success does to the interval. The
first successes give fixed intervals, later ones a product that is rounded. -/
namespace RatingOrder
open AnswerJudgement Scheduler SchedulerArithmetic SchedulerRuns StepHistories Binary64

variable {state : ReviewState}

theorem scheduleAttempt_objective (state : ReviewState) (rating : Rating) {mode : AnswerMode}
    (hm : mode ≠ .study) : scheduleAttempt state rating mode = scheduleReview state rating := by
  cases mode <;> first | rfl | exact absurd rfl hm

/-! A success. -/

theorem known_lengthens (h : Sound state) :
    state.intervalDays < (scheduleReview state .known).intervalDays ↔
      ¬ (state.repetitions = 1 ∧ state.intervalDays = 7) := by
  have huntried := h.untried
  have honce := h.once
  rw [known_interval]
  split
  · omega
  · split <;> omega

/-- A success lengthens the interval, unless the card has still the seven days and the
one repetition that the mark of a known word gave it: the second success gives six. -/
theorem known_lengthens_iff (start : Start) (history : List CardAttempt) (mode : AnswerMode)
    (hm : mode ≠ .study) :
    let state := replay record start.state history
    state.intervalDays < (scheduleAttempt state .known mode).intervalDays ↔
      ¬ (state.repetitions = 1 ∧ state.intervalDays = 7) := by
  have h := sound_run start history
  intro state
  rw [scheduleAttempt_objective state .known hm]
  exact known_lengthens h

theorem known_lengthens_new :
    (newCard 0).intervalDays < (scheduleAttempt (newCard 0) .known .recall).intervalDays :=
  (known_lengthens_iff ⟨0, none⟩ [] .recall (by decide)).2 (by decide)

/-- A word marked as known in the diagnostic, and then recalled. -/
theorem known_shortens_marked :
    ¬ ((Start.mk 0 (some (.known, 0))).state.intervalDays <
      (scheduleAttempt (Start.mk 0 (some (.known, 0))).state .known .recall).intervalDays) := by
  decide +kernel

/-! The ratings. -/

/-- A better rating does not schedule sooner, nor leave less easiness. -/
structure Ordered (state : ReviewState) (mode : AnswerMode) : Prop where
  again_almost : (scheduleAttempt state .again mode).intervalDays ≤
    (scheduleAttempt state .almost mode).intervalDays
  almost_known : (scheduleAttempt state .almost mode).intervalDays ≤
    (scheduleAttempt state .known mode).intervalDays
  again_almost_easiness : (scheduleAttempt state .again mode).easiness ≤
    (scheduleAttempt state .almost mode).easiness
  almost_known_easiness : (scheduleAttempt state .almost mode).easiness ≤
    (scheduleAttempt state .known mode).easiness

/-- Half as long again is no more than the second success gives, nor than the easiness. -/
def HalfFits (state : ReviewState) : Prop :=
  (state.repetitions = 1 → state.intervalDays ≤ 4) ∧
    (2 ≤ state.repetitions → 140 ≤ state.easiness ∨ state.intervalDays = 1 ∨
      (state.intervalDays % 2 = 0 ∧ state.intervalDays * (140 - state.easiness) ≤ 50))

/-- From an easiness of 1.40 on, a word that was known is multiplied by no less. -/
theorem half_le_knownDays (h : Sound state) (he : 140 ≤ state.easiness) :
    (3 * max 1 state.intervalDays + 1) / 2 ≤ knownDays state := by
  have hi := h.interval_le
  have hcapped := h.capped
  obtain ⟨p, hp, hl, -, hp4⟩ := factor_bounds h.toKept
  have hhalf : 3 / 2 ≤ p := by
    by_cases heq : state.easiness = 140
    · -- 1.40 and 0.10 make 1.50 without error.
      have hexact : ¬ factor state < 1.5 := by
        unfold factor storedEasiness
        rw [heq]
        decide +kernel
      obtain ⟨r, hr, hx⟩ := holds_tenths (n := 15) (by norm_num)
      have hfactor : ((15 : ℕ) / 10 : ℚ) = (3 : ℕ) / 2 ^ 1 := by norm_num
      rw [hfactor] at hr
      rw [hr.eq_of_representable (BinaryRounding.representable_div (by norm_num) (by norm_num))] at hx
      have := (hp.lt_iff hx).not.1 hexact
      push_cast at this
      linarith
    · have hf : (151 : ℚ) ≤ (min 300 (state.easiness + 10) : ℕ) := by
        exact_mod_cast le_min (by norm_num) (by omega : 151 ≤ state.easiness + 10)
      linarith
  have hproduct : ((max 1 state.intervalDays : ℕ) : ℚ) * (3 / 2) ≤ (max 1 state.intervalDays : ℕ) * p := by
    gcongr
  refine le_round_product hp (by omega) (by linarith) (by omega) ?_
  push_cast at hproduct ⊢
  linarith

/-- Below, each day of the interval falls short of that by the hundredths that easiness lacks. -/
theorem product_bounds (h : Sound state) (he : state.easiness < 140) (n : ℕ) :
    ∃ p, Holds (factor state) p ∧ p ≤ 4 ∧
      n * p ≤ 3 / 2 * n - (n * (140 - state.easiness) : ℕ) * (1 / 100 - 3 / 2 ^ 30) ∧
      3 / 2 * n - (n * (140 - state.easiness) : ℕ) * (1 / 100 + 3 / 2 ^ 30) ≤ n * p := by
  obtain ⟨p, hp, hl, hu, hp4⟩ := factor_bounds h.toKept
  have hf : ((min 300 (state.easiness + 10) : ℕ) : ℚ) = 150 - (140 - state.easiness : ℕ) := by
    rw [min_eq_right (by omega), Nat.cast_sub he.le]
    push_cast
    ring
  have hlack : (1 : ℚ) ≤ (140 - state.easiness : ℕ) := by exact_mod_cast (by omega)
  have hn : (0 : ℚ) ≤ n := by positivity
  rw [hf] at hl hu
  rw [Nat.cast_mul]
  generalize ((140 - state.easiness : ℕ) : ℚ) = d at hl hu hlack ⊢
  have hupper : p ≤ 3 / 2 - d * (1 / 100 - 3 / 2 ^ 30) := by linarith
  have hlower : 3 / 2 - d * (1 / 100 + 3 / 2 ^ 30) ≤ p := by linarith
  have hupper' := mul_le_mul_of_nonneg_left hupper hn
  have hlower' := mul_le_mul_of_nonneg_left hlower hn
  exact ⟨p, hp, hp4, by linarith, by linarith⟩

variable {n : ℕ}

theorem knownDays_eq (hn : state.intervalDays = n) (h1 : 1 ≤ n) :
    knownDays state = GoText.round (n.toFloat * factor state) := by
  unfold knownDays
  rw [hn, max_eq_right h1]

/-- Lacking less than half a day in all, an even interval is rounded up to half as much again. -/
theorem half_le_knownDays_of_lt (h : Sound state) (he : state.easiness < 140)
    (hn : state.intervalDays = n) (h1 : 1 ≤ n) (heven : n % 2 = 0)
    (hlack : n * (140 - state.easiness) ≤ 49) : 3 * n / 2 ≤ knownDays state := by
  have hi := h.interval_le
  obtain ⟨p, hp, hp4, -, hl⟩ := product_bounds h he n
  have hlack' : ((n * (140 - state.easiness) : ℕ) : ℚ) ≤ 49 := by exact_mod_cast hlack
  have hk : ((3 * n - 1 : ℕ) : ℚ) = 3 * n - 1 := by
    rw [Nat.cast_sub (by omega)]
    push_cast
    ring
  have hround := le_round_product (k := 3 * n - 1) hp (n := n) (by omega) (by linarith) (by omega)
    (by rw [hk]; linarith)
  rw [knownDays_eq hn h1]
  omega

/-- Half a day exactly: the two cases there are, computed. -/
theorem half_le_knownDays_of_eq (hn : state.intervalDays = n) (heven : n % 2 = 0)
    (hleast : 130 ≤ state.easiness) (hlack : n * (140 - state.easiness) = 50) :
    3 * n / 2 ≤ knownDays state := by
  have hcases : n = 50 ∧ state.easiness = 139 ∨ n = 10 ∧ state.easiness = 135 := by
    obtain ⟨d, hd⟩ : ∃ d, d = 140 - state.easiness := ⟨_, rfl⟩
    rw [← hd] at hlack
    have hd10 : d ≤ 10 := by omega
    interval_cases d <;> omega
  rcases hcases with ⟨hn50, he⟩ | ⟨hn10, he⟩
  · unfold knownDays factor storedEasiness
    rw [hn, hn50, he]
    decide +kernel
  · unfold knownDays factor storedEasiness
    rw [hn, hn10, he]
    decide +kernel

/-- Lacking more, an even interval does not reach it; an odd one lacks half a day as it is. -/
theorem knownDays_lt_half (h : Sound state) (he : state.easiness < 140)
    (hn : state.intervalDays = n) (h1 : 1 ≤ n)
    (hlack : n % 2 = 1 ∨ 51 ≤ n * (140 - state.easiness)) :
    knownDays state < (3 * n + 1) / 2 := by
  have hi := h.interval_le
  obtain ⟨p, hp, -, hu, -⟩ := product_bounds h he n
  have hpos : 1 ≤ n * (140 - state.easiness) := Nat.mul_pos h1 (by omega)
  rw [knownDays_eq hn h1]
  generalize n * (140 - state.easiness) = lack at hu hlack hpos
  have hpos' : (1 : ℚ) ≤ lack := by exact_mod_cast hpos
  rcases Nat.even_or_odd' n with ⟨j, hj | hj⟩
  · have hlack' : (51 : ℚ) ≤ lack := by exact_mod_cast hlack.resolve_left (by omega)
    have hk : ((3 * j - 1 : ℕ) : ℚ) = 3 * j - 1 := by
      rw [Nat.cast_sub (by omega)]
      push_cast
      ring
    have hround := round_product_le (k := 3 * j - 1) hp (n := n) (by omega) (by omega) (by
      rw [hk]
      rw [hj] at hu ⊢
      push_cast at hu ⊢
      linarith)
    omega
  · have hround := round_product_le (k := 3 * j + 1) hp (n := n) (by omega) (by omega) (by
      rw [hj] at hu ⊢
      push_cast at hu ⊢
      linarith)
    omega

theorem half_le_known_iff (h : Sound state) (he : state.easiness < 140)
    (hn : state.intervalDays = n) (h1 : 1 ≤ n) :
    (3 * n + 1) / 2 ≤ max (n + 1) (knownDays state) ↔
      n = 1 ∨ (n % 2 = 0 ∧ n * (140 - state.easiness) ≤ 50) := by
  have hleast := h.least
  rcases Nat.mod_two_eq_zero_or_one n with heven | hodd
  · rcases Nat.lt_trichotomy (n * (140 - state.easiness)) 50 with hlt | heq | hgt
    · have := half_le_knownDays_of_lt h he hn h1 heven (by omega)
      omega
    · have := half_le_knownDays_of_eq hn heven hleast heq
      omega
    · have := knownDays_lt_half h he hn h1 (Or.inr hgt)
      have hlarge : 6 ≤ n := by
        by_contra hsmall
        have : n * (140 - state.easiness) ≤ 5 * 10 := Nat.mul_le_mul (by omega) (by omega)
        omega
      omega
  · have := knownDays_lt_half h he hn h1 (Or.inl hodd)
    omega

theorem ordered_iff (h : Sound state) {mode : AnswerMode} (hm : mode ≠ .study) :
    Ordered state mode ↔ HalfFits state := by
  have hleast := h.least
  have hcapped := h.capped
  have hi := h.interval_le
  have htried := h.tried
  have honce := h.once
  have hdays : (scheduleReview state .almost).intervalDays ≤
      (scheduleReview state .known).intervalDays ↔ HalfFits state := by
    rw [almost_interval (by omega), known_interval]
    unfold HalfFits
    obtain ⟨n, hn⟩ : ∃ n, state.intervalDays = n := ⟨_, rfl⟩
    by_cases hzero : state.repetitions = 0
    · simp [hzero]
    · have h1 : 1 ≤ n := by omega
      rw [if_pos (by omega), if_neg hzero, hn, max_eq_right h1]
      by_cases hone : state.repetitions = 1
      · rw [if_pos hone]
        omega
      · rw [if_neg hone]
        by_cases he : 140 ≤ state.easiness
        · have hhalf := half_le_knownDays h he
          rw [hn, max_eq_right h1] at hhalf
          omega
        · rw [half_le_known_iff h (by omega) hn h1]
          omega
  constructor
  · intro ho
    have := ho.almost_known
    simp only [scheduleAttempt_objective state _ hm] at this
    exact hdays.1 this
  · intro hf
    have := hdays.2 hf
    constructor <;> simp only [scheduleAttempt_objective state _ hm]
    · simp [scheduleReview]
    · exact this
    · rw [again_easiness h.toKept, almost_easiness h.toKept]
      omega
    · rw [almost_easiness h.toKept, known_easiness h.toKept]
      omega

/-- The ratings keep their order exactly where half as much again fits under what a
success gives. -/
theorem ordered_run_iff (start : Start) (history : List CardAttempt) (mode : AnswerMode)
    (hm : mode ≠ .study) :
    Ordered (replay record start.state history) mode ↔
      HalfFits (replay record start.state history) :=
  ordered_iff (sound_run start history) hm

theorem ordered_new : Ordered (newCard 0) .recall :=
  (ordered_run_iff ⟨0, none⟩ [] .recall (by decide)).2 ⟨by decide, by decide⟩

/-- A word marked as known in the diagnostic: known gives six days, almost eleven. -/
theorem marked_not_ordered :
    ¬ (scheduleAttempt (Start.mk 0 (some (.known, 0))).state .almost .recall).intervalDays ≤
      (scheduleAttempt (Start.mk 0 (some (.known, 0))).state .known .recall).intervalDays := by
  decide +kernel

end RatingOrder
