import LexiGo.Learning.SchedulerRuns

/-! How far ahead the scheduler can look. A duration of Go has 64 bits of nanoseconds,
which is 106751 days and some hours; no interval is kept below that. -/
namespace ScheduleHorizon
open AnswerJudgement Scheduler SchedulerArithmetic SchedulerRuns StepHistories Binary64
open LessonRepository (fitsInteger)

/-- The numbers an attempt computes stay within their types, and the card comes later
than the review. -/
structure InRange (state : ReviewState) (a : CardAttempt) : Prop where
  fits : fitsInteger (a.schedule state).intervalDays = true
  offset : a.objective = true → a.rating ≠ .again →
    ((a.schedule state).intervalDays : Int) * (24 * hour) < 2 ^ 63
  later : a.objective = true →
    a.now < a.dueAt state ∧ micros a.now < (a.row state).dueAt

/-- The interval before a success leaves room for the one after it. -/
def Modest (state : ReviewState) (a : CardAttempt) : Prop :=
  a.objective = true →
    (a.rating = .almost → 0 < state.repetitions → state.intervalDays ≤ 71167) ∧
    (a.rating = .known → 2 ≤ state.repetitions →
      state.intervalDays * min 300 (state.easiness + 10) < 10675150)

variable {state : ReviewState}

theorem offset_iff (n : ℕ) : (n : Int) * (24 * hour) < 2 ^ 63 ↔ n ≤ 106751 := by
  unfold hour minute
  omega

theorem days_eq {n : ℕ} (h : n ≤ 106751) : days n = n * (24 * hour) := by
  unfold days GoText.wrap64
  rw [Int.bmod_eq_of_le] <;> unfold hour minute <;> omega

theorem micros_lt {s t : Instant} (h : s + 1000 ≤ t) : micros s < micros t := by
  unfold micros
  have hstep : s / 1000 + 1 ≤ t / 1000 := by
    rw [← Int.add_mul_ediv_right s 1 (by decide : (1000 : Int) ≠ 0)]
    exact Int.ediv_le_ediv (by decide) (by simpa using h)
  have := Int.mul_le_mul_of_nonneg_right hstep (by decide : (0 : Int) ≤ 1000)
  have hsplit : (s / 1000 + 1) * 1000 = s / 1000 * 1000 + 1000 := by rw [Int.add_mul]; rfl
  exact lt_of_lt_of_le (by rw [hsplit]; exact Int.lt_add_of_pos_right _ (by decide)) this

/-- The products that come to half a day more than the horizon: both are rounded up. -/
theorem knownDays_at_horizon
    (hf : state.intervalDays * min 300 (state.easiness + 10) = 10675150)
    (hleast : 130 ≤ state.easiness) : 106751 < knownDays state := by
  have hdivisor : ∀ f : ℕ, f ≤ 300 → 140 ≤ f → 10675150 % f = 0 → f = 170 ∨ f = 190 := by
    decide +kernel
  have hcases := hdivisor (min 300 (state.easiness + 10)) (by omega) (by omega)
    (hf ▸ Nat.mul_mod_left _ _)
  rcases hcases with h170 | h190
  · have he : state.easiness = 160 := by omega
    have hi : state.intervalDays = 62795 := by
      rw [h170] at hf
      omega
    unfold knownDays factor storedEasiness
    rw [hi, he]
    decide +kernel
  · have he : state.easiness = 180 := by omega
    have hi : state.intervalDays = 56185 := by
      rw [h190] at hf
      omega
    unfold knownDays factor storedEasiness
    rw [hi, he]
    decide +kernel

/-- The product of a known card, rounded, where half a day is rounded up. -/
theorem knownDays_le_iff_of {K : ℕ} (hK : K ≤ 2147483647) (hK1 : 2 ≤ K) (h : Sound state)
    (h1 : 1 ≤ state.intervalDays)
    (hhalf : state.intervalDays * min 300 (state.easiness + 10) = 100 * K + 50 →
      K < knownDays state) :
    max (state.intervalDays + 1) (knownDays state) ≤ K ↔
      state.intervalDays * min 300 (state.easiness + 10) < 100 * K + 50 := by
  have hi := h.interval_le
  have hleast := h.least
  obtain ⟨p, hp, hl, hu, hp4⟩ := factor_close h.toKept h.capped
  have hf140 : 140 ≤ min 300 (state.easiness + 10) := by omega
  have hdays : knownDays state = GoText.round (state.intervalDays.toFloat * factor state) := by
    unfold knownDays
    rw [max_eq_right h1]
  generalize hn : state.intervalDays = n at *
  generalize min 300 (state.easiness + 10) = f at *
  have hn0 : (0 : ℚ) ≤ n := by positivity
  have hn' : (n : ℚ) ≤ 2147483647 := by exact_mod_cast hi
  have hupper := mul_le_mul_of_nonneg_left hu hn0
  have hlower := mul_le_mul_of_nonneg_left hl hn0
  have hsize : 140 * n ≤ n * f := by
    rw [mul_comm 140 n]
    exact Nat.mul_le_mul_left n hf140
  have hproduct : ((n * f : ℕ) : ℚ) = n * f := Nat.cast_mul n f
  rcases Nat.lt_trichotomy (n * f) (100 * K + 50) with hlt | heq | hgt
  · have hlt' : ((n * f : ℕ) : ℚ) ≤ (100 * K + 49 : ℕ) := by exact_mod_cast (by omega)
    push_cast at hlt'
    have := round_product_le (k := K) hp (n := n) (by omega) (by omega) (by linarith)
    omega
  · have := hhalf heq
    omega
  · have hgt' : ((100 * K + 51 : ℕ) : ℚ) ≤ (n * f : ℕ) := by exact_mod_cast hgt
    push_cast at hgt'
    have := le_round_product (k := 2 * K + 1) hp (n := n) (by omega) (by linarith) (by omega)
      (by push_cast; linarith)
    omega
theorem knownDays_le_iff (h : Sound state) (h1 : 1 ≤ state.intervalDays) :
    max (state.intervalDays + 1) (knownDays state) ≤ 106751 ↔
      state.intervalDays * min 300 (state.easiness + 10) < 10675150 :=
  knownDays_le_iff_of (by norm_num) (by norm_num) h h1 fun hf => knownDays_at_horizon hf h.least

/-- The products that come to half a day more than the column holds are rounded up too. -/
theorem knownDays_at_limit
    (hf : state.intervalDays * min 300 (state.easiness + 10) = 214748364750)
    (hleast : 130 ≤ state.easiness) : 2147483647 < knownDays state := by
  have hdivisor : ∀ f : ℕ, f ≤ 300 → 140 ≤ f → 214748364750 % f = 0 →
      f = 150 ∨ f = 170 ∨ f = 250 ∨ f = 255 ∨ f = 257 := by
    decide +kernel
  have hcases := hdivisor (min 300 (state.easiness + 10)) (by omega) (by omega)
    (hf ▸ Nat.mul_mod_left _ _)
  have hrounded : ∀ e n, state.easiness = e → state.intervalDays = n →
      2147483647 < GoText.round ((max 1 n).toFloat * atMost 3.0 ((let easiness := e.toFloat / 100
        if easiness < 1.3 then 2.5 else easiness) + 0.1)) → 2147483647 < knownDays state := by
    rintro _ _ rfl rfl h
    exact h
  rcases hcases with hf' | hf' | hf' | hf' | hf' <;> rw [hf'] at hf
  · exact hrounded 140 1431655765 (by omega) (by omega) (by decide +kernel)
  · exact hrounded 160 1263225675 (by omega) (by omega) (by decide +kernel)
  · exact hrounded 240 858993459 (by omega) (by omega) (by decide +kernel)
  · exact hrounded 245 842150450 (by omega) (by omega) (by decide +kernel)
  · exact hrounded 247 835596750 (by omega) (by omega) (by decide +kernel)

theorem schedule_dueAfter {a : CardAttempt} (ha : a.objective = true) :
    (a.schedule state).dueAfter =
      if a.rating = .again then 10 * minute else days (a.schedule state).intervalDays := by
  obtain ⟨rating, mode, now⟩ := a
  cases mode <;> cases rating <;>
    simp_all [CardAttempt.schedule, CardAttempt.objective, scheduleAttempt, scheduleReview]

theorem interval_le_iff (h : Sound state) {a : CardAttempt} (ha : a.objective = true)
    (hrating : a.rating ≠ .again) :
    (a.schedule state).intervalDays ≤ 106751 ↔ Modest state a := by
  have hi := h.interval_le
  have htried := h.tried
  have hschedule : a.schedule state = scheduleReview state a.rating := by
    obtain ⟨rating, mode, now⟩ := a
    cases mode <;> first | rfl | cases ha
  rw [hschedule]
  simp only [Modest, ha, true_implies]
  cases hr : a.rating with
  | again => exact absurd hr hrating
  | almost =>
    rw [almost_interval (by omega)]
    simp only [true_implies, reduceCtorEq, false_implies, and_true]
    split <;> omega
  | known =>
    rw [known_interval]
    simp only [true_implies, reduceCtorEq, false_implies, true_and]
    split
    · omega
    · split
      · omega
      · rw [knownDays_le_iff h (by omega)]
        exact ⟨fun hle _ => hle, fun himp => himp (by omega)⟩

/-- The columns have room for what the scheduler makes of the card. -/
def Room (state : ReviewState) (rating : Rating) (mode : AnswerMode) : Prop :=
  mode ≠ .study →
    (rating ≠ .again → state.repetitions < 2147483647) ∧
    (rating = .almost → 0 < state.repetitions → state.intervalDays ≤ 1431655764) ∧
    (rating = .known → 2 ≤ state.repetitions →
      state.intervalDays * min 300 (state.easiness + 10) < 214748364750)

theorem fits_iff (h : Sound state) (a : CardAttempt) :
    a.fits state = true ↔ Room state a.rating a.mode := by
  have hi := h.interval_le
  have htried := h.tried
  have hr : state.repetitions ≤ 2147483647 := of_decide_eq_true h.repetitions
  have hrepetitions := schedule_repetitions state a
  unfold Room CardAttempt.fits
  rw [Bool.and_eq_true]
  simp only [fitsInteger, decide_eq_true_eq]
  by_cases ha : a.objective = true
  · have hmode : a.mode ≠ .study := of_decide_eq_true ha
    have hschedule : a.schedule state = scheduleReview state a.rating := by
      obtain ⟨rating, mode, now⟩ := a
      cases mode <;> first | rfl | cases ha
    rw [if_pos ha] at hrepetitions
    simp only [hmode, ne_eq, not_false_eq_true, true_implies]
    cases hrating : a.rating with
    | again =>
      rw [hrating, if_pos rfl] at hrepetitions
      have hinterval := @schedule_early state a ha
      rw [hrating, if_pos rfl] at hinterval
      simp [hrepetitions, hinterval]
    | almost =>
      rw [hrating, if_neg (by simp)] at hrepetitions
      rw [hrepetitions, hschedule, hrating, almost_interval (by omega)]
      simp only [reduceCtorEq, not_false_eq_true, true_implies, false_implies, and_true]
      split <;> omega
    | known =>
      rw [hrating, if_neg (by simp)] at hrepetitions
      rw [hrepetitions, hschedule, hrating, known_interval]
      simp only [reduceCtorEq, not_false_eq_true, true_implies, false_implies, true_and]
      split
      · omega
      · split
        · omega
        · rw [knownDays_le_iff_of (by norm_num) (by norm_num) h (by omega)
            fun hf => knownDays_at_limit hf h.least]
          omega
  · have hstudy := @schedule_study state a (Bool.not_eq_true _ ▸ ha)
    rw [hstudy.1, hstudy.2.1]
    exact ⟨fun _ hmode => absurd (decide_eq_true hmode) ha, fun _ => ⟨hi, hr⟩⟩

theorem later_of_dueAfter {a : CardAttempt} (ha : a.objective = true)
    (hdue : 1000 ≤ (a.schedule state).dueAfter) :
    a.now < a.dueAt state ∧ micros a.now < (a.row state).dueAt := by
  have hpreserve := (schedule_objective (s := state) (t := state) ha rfl rfl rfl).2
  have hdueAt : a.dueAt state = a.now + (a.schedule state).dueAfter := by
    simp [CardAttempt.dueAt, hpreserve]
  refine ⟨?_, micros_lt ?_⟩
  · rw [hdueAt]
    exact Int.lt_add_of_pos_right _ (by omega)
  · rw [hdueAt]
    exact Int.add_le_add_left hdue _

theorem inRange_iff (h : Sound state) (a : CardAttempt) : InRange state a ↔ Modest state a := by
  by_cases ha : a.objective = true
  · by_cases hagain : a.rating = .again
    · have hdueAfter := @schedule_dueAfter state _ ha
      have hearly := @schedule_early state _ ha
      rw [if_pos hagain] at hdueAfter hearly
      refine ⟨fun _ _ => by simp [hagain], fun _ => ⟨?_, fun _ hne => absurd hagain hne, fun _ => ?_⟩⟩
      · simp [fitsInteger, hearly]
      · exact later_of_dueAfter ha (by rw [hdueAfter]; decide)
    · rw [← interval_le_iff h ha hagain]
      refine ⟨fun hin => (offset_iff _).1 (hin.offset ha hagain), fun hle => ?_⟩
      have hpos := @schedule_early state _ ha
      have hdueAfter := @schedule_dueAfter state _ ha
      rw [if_neg hagain] at hpos hdueAfter
      rw [days_eq hle] at hdueAfter
      refine ⟨by simp [fitsInteger]; omega, fun _ _ => (offset_iff _).2 hle, fun _ => ?_⟩
      refine later_of_dueAfter ha ?_
      rw [hdueAfter]
      unfold hour minute
      omega
  · have hstudy := (@schedule_study state _ (Bool.not_eq_true _ ▸ ha)).1
    refine ⟨fun _ ho => absurd ho ha, fun _ => ⟨?_, fun ho => absurd ho ha, fun ho => absurd ho ha⟩⟩
    rw [hstudy]
    exact h.interval

/-- Along a run every attempt stays in range exactly where each success finds an
interval that leaves room for it. -/
theorem inRange_run_iff (start : Start) (history : List CardAttempt) :
    EachStep record InRange start.state history ↔ EachStep record Modest start.state history :=
  @eachStep_congr _ _ record Sound Modest InRange (fun _ a h => h.record a)
    (fun _ a h => inRange_iff h a) _ start.sound history

/-- A new card that is known at every turn comes due, the eleventh time, before it was reviewed. -/
theorem overflows :
    let state := replay record (newCard 0) (List.replicate 10 ⟨.known, .recall, 0⟩)
    ¬ InRange state ⟨.known, .recall, 0⟩ := by
  intro state hrange
  have hdue : CardAttempt.dueAt ⟨.known, .recall, 0⟩ state < 0 := by decide +kernel
  exact absurd (hrange.later rfl).1 (not_lt.2 hdue.le)

end ScheduleHorizon
