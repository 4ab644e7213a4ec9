import LexiGo.Learning.AnswerJudgement

/-! The spaced-repetition scheduler. Its arithmetic is that of binary64 numbers;
easiness leaves it only through `round2`, and is kept as the number of hundredths
that a `numeric(4,2)` column holds. -/
namespace Scheduler
open GoText AnswerJudgement

/-- Nanoseconds. -/
abbrev Instant := Int

/-- A column of type `timestamptz` keeps whole microseconds. -/
def micros (t : Instant) : Instant := t / 1000 * 1000

inductive WordStatus
  | new
  | learning
  | review
  | mastered
  deriving DecidableEq

structure ReviewState where
  status : WordStatus
  easiness : Nat
  intervalDays : Nat
  repetitions : Nat
  dueAt : Instant
  deriving DecidableEq

structure Schedule where
  grade : Nat
  status : WordStatus
  easiness : Nat
  intervalDays : Nat
  repetitions : Nat
  dueAfter : Int
  preserveDue : Bool := false

def minute : Int := 60000000000
def hour : Int := 60 * minute

def round2 (value : Float) : Nat := round (value * 100)

/-- The stored easiness as the scheduler reads it. -/
def storedEasiness (state : ReviewState) : Float :=
  let easiness := state.easiness.toFloat / 100
  if easiness < 1.3 then 2.5 else easiness

def atLeast (bound value : Float) : Float := if value < bound then bound else value

def atMost (bound value : Float) : Float := if bound < value then bound else value

def days (interval : Nat) : Int := wrap64 (interval * (24 * hour))

def scheduleStudy (state : ReviewState) (rating : Rating) : Schedule :=
  let preserveDue := state.status ≠ .new
  let (grade, dueAfter) : Nat × Int :=
    match rating with
    | .again => (1, 10 * minute)
    | .almost => (3, 12 * hour)
    | .known => (5, 24 * hour)
  { grade := grade
    status := if preserveDue then state.status else .learning
    easiness := round2 (storedEasiness state)
    intervalDays := state.intervalDays
    repetitions := state.repetitions
    dueAfter := dueAfter
    preserveDue := preserveDue }

def scheduleReview (state : ReviewState) (rating : Rating) : Schedule :=
  let easiness := storedEasiness state
  let elapsed : Float := (max 1 state.intervalDays).toFloat
  let repetitions := state.repetitions + 1
  match rating with
  | .again =>
    { grade := 1
      status := .learning
      easiness := round2 (atLeast 1.3 (easiness - 0.2))
      intervalDays := 0
      repetitions := 0
      dueAfter := 10 * minute }
  | .almost =>
    let interval := if state.repetitions > 0 then max 1 (round (elapsed * 1.5)) else 1
    { grade := 3
      status := if repetitions ≥ 2 then .review else .learning
      easiness := round2 (atLeast 1.3 (easiness - 0.05))
      intervalDays := interval
      repetitions := repetitions
      dueAfter := days interval }
  | .known =>
    let easiness := atMost 3.0 (easiness + 0.1)
    let interval :=
      match state.repetitions with
      | 0 => 2
      | 1 => 6
      | _ => max (state.intervalDays + 1) (round (elapsed * easiness))
    { grade := 5
      status := if repetitions ≥ 5 && interval ≥ 30 then .mastered else .review
      easiness := round2 easiness
      intervalDays := interval
      repetitions := repetitions
      dueAfter := days interval }

def scheduleAttempt (state : ReviewState) (rating : Rating) (mode : AnswerMode) : Schedule :=
  match mode with
  | .study => scheduleStudy state rating
  | .recall | .choice | .listening => scheduleReview state rating

/-- Studying a word that is no longer new leaves its place in the schedule alone. -/
theorem study_preserves {state : ReviewState} (h : state.status ≠ .new) (rating : Rating) :
    (scheduleAttempt state rating .study).preserveDue = true ∧
      (scheduleAttempt state rating .study).status = state.status ∧
      (scheduleAttempt state rating .study).intervalDays = state.intervalDays ∧
      (scheduleAttempt state rating .study).repetitions = state.repetitions := by
  cases rating <;> simp [scheduleAttempt, scheduleStudy, h]

example : (scheduleReview ⟨.review, 250, 6, 2, 0⟩ .almost).intervalDays = 9 := by decide +kernel

/-- Half a day is lost to the representation of 1.91 + 0.1. -/
example : (scheduleReview ⟨.review, 191, 50, 2, 0⟩ .known).intervalDays = 100 := by decide +kernel

end Scheduler
