import LexiGo.Learning.LessonRepository
import LexiGo.Learning.SchedulerArithmetic
import LexiGo.StepHistories

/-! A card over the attempts made on it. Each attempt is scheduled from the row that
the one before it left; an update that the integer columns refuse leaves no trace. -/
namespace SchedulerRuns
open AnswerJudgement Scheduler SchedulerArithmetic StepHistories Binary64
open LessonRepository (fitsInteger)

inductive DiagnosticSelfMark
  | known
  | unsure
  | new
  deriving DecidableEq

structure DiagnosticInitialization where
  status : WordStatus
  easiness : Nat
  intervalDays : Nat
  repetitions : Nat
  dueAfter : Int

/-- `none` where the mark is not applied. -/
def diagnosticInitializationForMark : DiagnosticSelfMark → Option DiagnosticInitialization
  | .known =>
    some { status := .review, easiness := 260, intervalDays := 7, repetitions := 1,
           dueAfter := 7 * (24 * hour) }
  | .unsure =>
    some { status := .learning, easiness := 240, intervalDays := 1, repetitions := 0,
           dueAfter := 24 * hour }
  | .new => none

/-- A row with the defaults of its columns. -/
def newCard (dueAt : Instant) : ReviewState where
  status := .new
  easiness := 250
  intervalDays := 0
  repetitions := 0
  dueAt := micros dueAt

/-- The update that completes the onboarding: only a new card takes the mark. -/
def markCard (card : ReviewState) (mark : DiagnosticSelfMark) (now : Instant) : ReviewState :=
  match diagnosticInitializationForMark mark with
  | some policy =>
    if card.status = .new then
      { status := policy.status
        easiness := policy.easiness
        intervalDays := policy.intervalDays
        repetitions := policy.repetitions
        dueAt := micros (now + policy.dueAfter) }
    else card
  | none => card

/-- How a card begins: new, and perhaps marked in the diagnostic. -/
structure Start where
  dueAt : Instant
  diagnosis : Option (DiagnosticSelfMark × Instant)

def Start.state (start : Start) : ReviewState :=
  match start.diagnosis with
  | some (mark, now) => markCard (newCard start.dueAt) mark now
  | none => newCard start.dueAt

/-- An attempt with the rating that its judgement made effective. -/
structure CardAttempt where
  rating : Rating
  mode : AnswerMode
  now : Instant
  deriving DecidableEq

namespace CardAttempt
variable (a : CardAttempt) (state : ReviewState)

def objective : Bool := a.mode ≠ .study

def schedule : Schedule := scheduleAttempt state a.rating a.mode

def dueAt : Instant :=
  if (a.schedule state).preserveDue then state.dueAt else a.now + (a.schedule state).dueAfter

def fits : Bool :=
  fitsInteger (a.schedule state).intervalDays && fitsInteger (a.schedule state).repetitions

def row : ReviewState where
  status := (a.schedule state).status
  easiness := (a.schedule state).easiness
  intervalDays := (a.schedule state).intervalDays
  repetitions := (a.schedule state).repetitions
  dueAt := micros (a.dueAt state)

end CardAttempt

/-- The row that an attempt leaves, if the columns can hold it. -/
def attempted (state : ReviewState) (a : CardAttempt) : Option ReviewState :=
  if a.fits state then some (a.row state) else none

def record (state : ReviewState) (a : CardAttempt) : ReviewState := (attempted state a).getD state

/-- The runs are those of the review transactions. -/
theorem attempted_eq (unicode : GoText.Unicode) (request : ReviewRequest)
    (state : LearningSchema.UserWordRow) (word : LearningSchema.WordRow) (now : Instant) :
    let review := LessonRepository.attempt unicode request state word now
    let a : CardAttempt := ⟨review.assessment.effectiveRating, request.answerMode, now⟩
    attempted state.toReviewState a =
      if review.fits then some (review.row now).toReviewState else none := rfl

theorem record_cases (state : ReviewState) (a : CardAttempt) :
    (a.fits state = true ∧ record state a = a.row state) ∨
      (a.fits state = false ∧ record state a = state) := by
  cases h : a.fits state <;> simp [record, attempted, h]

/-- What an attempt computes, in whole numbers. -/
theorem schedule_easiness {state : ReviewState} (h : Kept state) (a : CardAttempt) :
    (a.schedule state).easiness =
      if a.objective then
        match a.rating with
        | .again => max 130 (state.easiness - 20)
        | .almost => max 130 (state.easiness - 5)
        | .known => min 300 (state.easiness + 10)
      else state.easiness := by
  obtain ⟨rating, mode, now⟩ := a
  cases mode <;> cases rating <;>
    simp [CardAttempt.schedule, CardAttempt.objective, scheduleAttempt, study_easiness h,
      again_easiness h, almost_easiness h, known_easiness h]

theorem schedule_repetitions (state : ReviewState) (a : CardAttempt) :
    (a.schedule state).repetitions =
      if a.objective then if a.rating = .again then 0 else state.repetitions + 1
      else state.repetitions := by
  obtain ⟨rating, mode, now⟩ := a
  cases mode <;> cases rating <;> rfl

theorem schedule_status (state : ReviewState) (a : CardAttempt) :
    (a.schedule state).status =
      if a.objective then
        match a.rating with
        | .again => .learning
        | .almost => if 2 ≤ (a.schedule state).repetitions then .review else .learning
        | .known =>
          if 5 ≤ (a.schedule state).repetitions ∧ 30 ≤ (a.schedule state).intervalDays then
            .mastered
          else .review
      else if state.status = .new then .learning else state.status := by
  obtain ⟨rating, mode, now⟩ := a
  cases mode <;> cases rating <;>
    simp [CardAttempt.schedule, CardAttempt.objective, scheduleAttempt, scheduleStudy,
      scheduleReview]

theorem schedule_study {state : ReviewState} {a : CardAttempt} (h : a.objective = false) :
    (a.schedule state).intervalDays = state.intervalDays ∧
      (a.schedule state).repetitions = state.repetitions ∧
      ((a.schedule state).preserveDue = true ↔ state.status ≠ .new) := by
  obtain ⟨rating, mode, now⟩ := a
  cases mode <;> cases rating <;>
    simp_all [CardAttempt.schedule, CardAttempt.objective, scheduleAttempt, scheduleStudy]

/-- An objective attempt reads nothing else of the card. -/
theorem schedule_objective {s t : ReviewState} {a : CardAttempt} (h : a.objective = true)
    (he : s.easiness = t.easiness) (hi : s.intervalDays = t.intervalDays)
    (hr : s.repetitions = t.repetitions) :
    a.schedule s = a.schedule t ∧ (a.schedule s).preserveDue = false := by
  obtain ⟨rating, mode, now⟩ := a
  cases mode <;> cases rating <;>
    simp_all [CardAttempt.schedule, CardAttempt.objective, scheduleAttempt, scheduleReview,
      storedEasiness]

/-! What every row of the table satisfies, and what the rows of a run do. -/

/-- A row that the table can hold. -/
structure Stored (state : ReviewState) : Prop extends Kept state where
  interval : fitsInteger state.intervalDays = true
  repetitions : fitsInteger state.repetitions = true
  due : micros state.dueAt = state.dueAt

@[simp] theorem micros_micros (t : Instant) : micros (micros t) = micros t := by
  unfold micros
  rw [Int.mul_ediv_cancel _ (by decide)]

theorem Stored.record {state : ReviewState} (h : Stored state) (a : CardAttempt) :
    Stored (record state a) := by
  rcases record_cases state a with ⟨hfits, hrow⟩ | ⟨-, hkeep⟩
  · obtain ⟨hi, hr⟩ := (Bool.and_eq_true _ _).mp hfits
    have hleast := h.least
    have hmost := h.most
    have he : 130 ≤ (a.schedule state).easiness ∧ (a.schedule state).easiness ≤ 9999 := by
      rw [schedule_easiness h.toKept a]
      split
      · split <;> omega
      · exact ⟨hleast, hmost⟩
    rw [hrow]
    exact ⟨⟨he.1, he.2⟩, hi, hr, micros_micros _⟩
  · rw [hkeep]
    exact h

/-- The rows that a run can reach. -/
structure Sound (state : ReviewState) : Prop extends Stored state where
  capped : state.easiness ≤ 300
  mastered : state.status = .mastered → 5 ≤ state.repetitions ∧ 30 ≤ state.intervalDays
  untried : state.repetitions = 0 → state.intervalDays ≤ 1
  tried : 0 < state.repetitions → 0 < state.intervalDays
  once : state.repetitions = 1 →
    state.intervalDays = 1 ∨ state.intervalDays = 2 ∨ state.intervalDays = 7

theorem Start.sound (start : Start) : Sound start.state := by
  obtain ⟨due, _ | ⟨mark, now⟩⟩ := start
  · refine ⟨⟨⟨?_, ?_⟩, ?_, ?_, micros_micros _⟩, ?_, ?_, ?_, ?_, ?_⟩ <;>
      simp [Start.state, newCard, fitsInteger]
  · cases mark <;> refine ⟨⟨⟨?_, ?_⟩, ?_, ?_, micros_micros _⟩, ?_, ?_, ?_, ?_, ?_⟩ <;>
      simp [Start.state, markCard, newCard, diagnosticInitializationForMark, fitsInteger]

/-- The first success of a card, and its return to the beginning. -/
theorem schedule_early {state : ReviewState} {a : CardAttempt} (h : a.objective = true) :
    if a.rating = .again then (a.schedule state).intervalDays = 0
    else 0 < (a.schedule state).intervalDays ∧ (state.repetitions = 0 →
      (a.schedule state).intervalDays = 1 ∨ (a.schedule state).intervalDays = 2) := by
  obtain ⟨rating, mode, now⟩ := a
  have hreview : if rating = .again then (scheduleReview state rating).intervalDays = 0
      else 0 < (scheduleReview state rating).intervalDays ∧ (state.repetitions = 0 →
        (scheduleReview state rating).intervalDays = 1 ∨
        (scheduleReview state rating).intervalDays = 2) := by
    cases rating with
    | again => rfl
    | almost =>
      unfold scheduleReview
      by_cases hr : 0 < state.repetitions
      · simp [hr, hr.ne']
      · simp [hr]
    | known =>
      rw [if_neg (by decide), known_interval]
      split
      · simp
      · split <;> simp_all
  cases mode with
  | study => cases h
  | «recall» => exact hreview
  | choice => exact hreview
  | listening => exact hreview

theorem Sound.mastered_row {state : ReviewState} (h : Sound state) (a : CardAttempt)
    (hm : (a.schedule state).status = .mastered) :
    5 ≤ (a.schedule state).repetitions ∧ 30 ≤ (a.schedule state).intervalDays := by
  rw [schedule_status] at hm
  by_cases hobjective : a.objective = true
  · rw [if_pos hobjective] at hm
    cases hrating : a.rating with
    | again => simp [hrating] at hm
    | almost =>
      simp only [hrating] at hm
      split at hm <;> cases hm
    | known =>
      simp only [hrating] at hm
      split at hm
      · assumption
      · cases hm
  · rw [if_neg hobjective] at hm
    obtain ⟨hi, hr, -⟩ := @schedule_study state _ (Bool.not_eq_true _ ▸ hobjective)
    rw [hi, hr]
    split at hm
    · cases hm
    · exact h.mastered hm

theorem Sound.early_row {state : ReviewState} (h : Sound state) (a : CardAttempt) :
    ((a.schedule state).repetitions = 0 → (a.schedule state).intervalDays ≤ 1) ∧
      (0 < (a.schedule state).repetitions → 0 < (a.schedule state).intervalDays) ∧
      ((a.schedule state).repetitions = 1 → (a.schedule state).intervalDays = 1 ∨
        (a.schedule state).intervalDays = 2 ∨ (a.schedule state).intervalDays = 7) := by
  have hrepetitions := schedule_repetitions state a
  by_cases hobjective : a.objective = true
  · have hearly := @schedule_early state _ hobjective
    rw [if_pos hobjective] at hrepetitions
    by_cases hagain : a.rating = .again
    · rw [if_pos hagain] at hrepetitions hearly
      omega
    · rw [if_neg hagain] at hrepetitions hearly
      omega
  · obtain ⟨hi, hr, -⟩ := @schedule_study state _ (Bool.not_eq_true _ ▸ hobjective)
    rw [hi, hr]
    exact ⟨h.untried, h.tried, h.once⟩

theorem Sound.record {state : ReviewState} (h : Sound state) (a : CardAttempt) :
    Sound (record state a) := by
  have hstored := h.toStored.record a
  rcases record_cases state a with ⟨-, hrow⟩ | ⟨-, hkeep⟩
  · rw [hrow] at hstored ⊢
    have hcapped := h.capped
    have heasiness := schedule_easiness h.toKept a
    refine ⟨hstored, ?_, h.mastered_row a, (h.early_row a).1, (h.early_row a).2.1,
      (h.early_row a).2.2⟩
    change (a.schedule state).easiness ≤ 300
    rw [heasiness]
    split
    · split <;> omega
    · exact hcapped
  · rw [hkeep]
    exact h

theorem sound_run (start : Start) (history : List CardAttempt) :
    Sound (replay record start.state history) :=
  replay_keeps (fun _ a h => h.record a) start.sound history

theorem Stored.interval_le {state : ReviewState} (h : Stored state) :
    state.intervalDays ≤ 2147483647 := of_decide_eq_true h.interval

theorem knownDays_le {state : ReviewState} (h : Stored state) : knownDays state ≤ 8589934588 := by
  have hi := h.interval_le
  obtain ⟨p, hp, -, -, hp4⟩ := factor_bounds h.toKept
  have hn : ((max 1 state.intervalDays : ℕ) : ℚ) ≤ 2147483647 := by
    exact_mod_cast max_le (by norm_num) hi
  have hproduct : ((max 1 state.intervalDays : ℕ) : ℚ) * p ≤ 2147483647 * 4 :=
    mul_le_mul hn hp4 hp.nonneg (by norm_num)
  refine round_product_le hp (by omega) (by norm_num) ?_
  push_cast at hproduct ⊢
  linarith

/-- Go's `int` has room for every interval: nothing wraps before the column refuses it. -/
theorem Stored.schedule_interval_lt {state : ReviewState} (h : Stored state) (a : CardAttempt) :
    (a.schedule state).intervalDays < 2 ^ 63 := by
  have hi := h.interval_le
  have hknown := knownDays_le h
  obtain ⟨rating, mode, now⟩ := a
  have hreview : (scheduleReview state rating).intervalDays < 2 ^ 63 := by
    cases rating with
    | again => simp [scheduleReview]
    | almost =>
      rw [almost_interval (by omega)]
      split <;> omega
    | known =>
      rw [known_interval]
      split
      · norm_num
      · split <;> omega
  cases mode with
  | study =>
    have hstudy := (@schedule_study state ⟨rating, .study, now⟩ rfl).1
    omega
  | «recall» => exact hreview
  | choice => exact hreview
  | listening => exact hreview

/-! The scheduler's invariant. -/

/-- The checks on `user_words`; the one on the status is the type's. -/
def checks (state : ReviewState) : Bool :=
  130 ≤ state.easiness && 0 ≤ (state.intervalDays : Int) && 0 ≤ (state.repetitions : Int)

/-- The number that `round2` hands to the column, and that the column hands back. -/
def hundredths (easiness : Nat) : Float := easiness.toFloat / 100

/-- A column of type `numeric(4,2)` keeps hundredths, up to 99.99. -/
def numeric (value : Float) : Option Nat :=
  if round2 value ≤ 9999 then some (round2 value) else none

theorem numeric_hundredths {state : ReviewState} (h : Kept state) :
    numeric (hundredths state.easiness) = some state.easiness := by
  have hround : round2 (hundredths state.easiness) = state.easiness :=
    round2_of_near (stored_near h) (by norm_num) (h.most.trans (by norm_num))
  unfold numeric
  rw [hround, if_pos h.most]

theorem Sound.kept_row {state : ReviewState} (h : Sound state) (a : CardAttempt) :
    Kept (a.row state) := by
  have hleast := h.least
  have hmost := h.most
  have heasiness : (a.row state).easiness = _ := schedule_easiness h.toKept a
  constructor <;> rw [heasiness] <;> split <;> first | assumption | (split <;> omega)

theorem again_row {state : ReviewState} {a : CardAttempt} (hobjective : a.objective = true)
    (hagain : a.rating = .again) :
    (a.row state).repetitions = 0 ∧ (a.row state).status = .learning ∧
      record state a = a.row state := by
  have hearly := @schedule_early state _ hobjective
  have hrepetitions := schedule_repetitions state a
  have hstatus := schedule_status state a
  rw [if_pos hagain] at hearly
  simp only [if_pos hobjective, hagain, if_true] at hrepetitions hstatus
  refine ⟨hrepetitions, hstatus, ?_⟩
  rcases record_cases state a with ⟨-, hrow⟩ | ⟨hfits, -⟩
  · exact hrow
  · simp [CardAttempt.fits, fitsInteger, hearly, hrepetitions] at hfits

/-- In every state that a run of attempts reaches, and for the attempt that comes
next: the easiness written is read back as it was computed. -/
theorem scheduler_invariant (start : Start) (history : List CardAttempt) :
    let state := replay record start.state history
    (130 ≤ state.easiness ∧ state.easiness ≤ 300) ∧
      (state.intervalDays ≤ 2147483647 ∧ state.repetitions ≤ 2147483647) ∧
      (state.status = .mastered → 5 ≤ state.repetitions ∧ 30 ≤ state.intervalDays) ∧
      storedEasiness state = hundredths state.easiness ∧
      ∀ a : CardAttempt,
        (numeric (hundredths (a.schedule state).easiness) = some (a.schedule state).easiness ∧
          storedEasiness (a.row state) = hundredths (a.schedule state).easiness) ∧
        (a.schedule state).intervalDays < 2 ^ 63 ∧ checks (a.row state) = true ∧
        (a.objective = true → a.rating = .again →
          (a.row state).repetitions = 0 ∧ (a.row state).status = .learning ∧
            record state a = a.row state) := by
  have h := sound_run start history
  generalize replay record start.state history = state at h
  refine ⟨⟨h.least, h.capped⟩, ⟨of_decide_eq_true h.interval, of_decide_eq_true h.repetitions⟩,
    h.mastered, storedEasiness_eq h.toKept, fun a => ?_⟩
  have hkept := h.kept_row a
  have hrow : (a.row state).easiness = (a.schedule state).easiness := rfl
  refine ⟨?_, h.schedule_interval_lt a, ?_, fun ho ha => again_row ho ha⟩
  · rw [← hrow]
    exact ⟨numeric_hundredths hkept, storedEasiness_eq hkept⟩
  · simpa [checks] using hkept.least

/-! Study leaves no mark on the objective schedule. -/

/-- The rows of two runs, of which one has study attempts besides. -/
structure Alike (mixed objective : ReviewState) : Prop where
  stored : Stored mixed
  easiness : mixed.easiness = objective.easiness
  interval : mixed.intervalDays = objective.intervalDays
  repetitions : mixed.repetitions = objective.repetitions

theorem Alike.attempted {s t : ReviewState} (h : Alike s t) {a : CardAttempt}
    (ha : a.objective = true) : attempted s a = attempted t a := by
  obtain ⟨hschedule, hdue⟩ := schedule_objective ha h.easiness h.interval h.repetitions
  have hdue' : (a.schedule t).preserveDue = false := hschedule ▸ hdue
  simp [SchedulerRuns.attempted, CardAttempt.fits, CardAttempt.row, CardAttempt.dueAt, hschedule,
    hdue']

theorem Alike.objective {s t : ReviewState} (h : Alike s t) {a : CardAttempt}
    (ha : a.objective = true) : Alike (record s a) (record t a) := by
  have hattempted := h.attempted ha
  refine ⟨h.stored.record a, ?_, ?_, ?_⟩ <;> unfold record <;> rw [hattempted] <;>
    cases SchedulerRuns.attempted t a
  exacts [h.easiness, rfl, h.interval, rfl, h.repetitions, rfl]

theorem Alike.study {s t : ReviewState} (h : Alike s t) {a : CardAttempt}
    (ha : a.objective = false) : Alike (record s a) t := by
  obtain ⟨hi, hr, -⟩ := @schedule_study s _ ha
  have he := schedule_easiness h.stored.toKept a
  rw [if_neg (by simp [ha])] at he
  refine ⟨h.stored.record a, ?_, ?_, ?_⟩ <;>
    rcases record_cases s a with ⟨-, hrow⟩ | ⟨-, hkeep⟩
  · exact (congrArg ReviewState.easiness hrow).trans (he.trans h.easiness)
  · exact (congrArg ReviewState.easiness hkeep).trans h.easiness
  · exact (congrArg ReviewState.intervalDays hrow).trans (hi.trans h.interval)
  · exact (congrArg ReviewState.intervalDays hkeep).trans h.interval
  · exact (congrArg ReviewState.repetitions hrow).trans (hr.trans h.repetitions)
  · exact (congrArg ReviewState.repetitions hkeep).trans h.repetitions

theorem study_keeps_due {s : ReviewState} (h : Stored s) {a : CardAttempt}
    (ha : a.objective = false) (hs : s.status ≠ .new) : (record s a).dueAt = s.dueAt := by
  have hdue := (@schedule_study s _ ha).2.2.2 hs
  rcases record_cases s a with ⟨-, hrow⟩ | ⟨-, hkeep⟩
  · rw [hrow]
    simpa [CardAttempt.row, CardAttempt.dueAt, hdue] using h.due
  · rw [hkeep]

/-- A run with study attempts and the same run without them come to the same easiness,
interval and repetitions; whatever objective attempt comes then leaves one and the
same row in both, or is refused in both. -/
theorem study_does_not_influence (start : ReviewState) (hstart : Stored start)
    (history : List CardAttempt) :
    let mixed := replay record start history
    let objective := replay record start (history.filter CardAttempt.objective)
    mixed.easiness = objective.easiness ∧
      mixed.intervalDays = objective.intervalDays ∧
      mixed.repetitions = objective.repetitions ∧
      (∀ a : CardAttempt, a.objective = true → attempted mixed a = attempted objective a) ∧
      (∀ a : CardAttempt, a.objective = false → mixed.status ≠ .new →
        (record mixed a).dueAt = mixed.dueAt) := by
  have h : Alike (replay record start history)
      (replay record start (history.filter fun a => !(!a.objective))) :=
    replay_filter (fun s t a h ha => h.objective (by simpa using ha))
      (fun s t a h ha => h.study (by simpa using ha)) ⟨hstart, rfl, rfl, rfl⟩ history
  simp only [Bool.not_not] at h
  exact ⟨h.easiness, h.interval, h.repetitions, fun a ha => h.attempted ha,
    fun a ha hs => study_keeps_due h.stored ha hs⟩

theorem study_then_recall :
    (replay record (newCard 0) [⟨.known, .study, 0⟩, ⟨.known, .recall, 0⟩]).repetitions =
      (replay record (newCard 0) [⟨.known, .recall, 0⟩]).repetitions :=
  (study_does_not_influence (newCard 0) (Start.sound ⟨0, none⟩).toStored
    [⟨.known, .study, 0⟩, ⟨.known, .recall, 0⟩]).2.2.1

end SchedulerRuns
