import LexiGo.Learning.ProgressStreaks
import LexiGo.Scenarios.ScenarioSchema

/-! The rows that the progress summary is computed from. A row carries the checks of its
table as far as the summary or its reader depends on them. -/
namespace ProgressTables
open AnswerJudgement Scheduler
open LearningSchema (UserId WordId SessionKind SelectionReason LessonStatus)
open ScenarioSchema (AttemptStatus)

structure Word where
  id : WordId
  kind : WordKind
  topic : String
  partOfSpeech : String

structure UserWord where
  userId : UserId
  wordId : WordId
  status : WordStatus
  dueAt : Instant

structure ReviewEvent where
  userId : UserId
  wordId : WordId
  grade : Int
  responseMs : Option Int := none
  reviewedAt : Instant
  answerMode : Option AnswerMode
  correct : Option Bool
  answerRevealed : Option Bool := none
  eventSchemaVersion : Int := 2
  effectiveRating : Option Rating := none
  sessionKind : Option SessionKind := none
  selectionReason : Option SelectionReason := none
  grade_chk : 0 ≤ grade ∧ grade ≤ 5
  response_ms_chk : ∀ ms ∈ responseMs, 0 ≤ ms
  event_schema_version_chk : eventSchemaVersion = 1 ∨ eventSchemaVersion = 2
  v2_semantics_chk : eventSchemaVersion = 1 ∨ (answerMode ≠ none ∧
    (answerMode ≠ some .study ∨ (correct = none ∧ answerRevealed = some true)))

structure LessonSession where
  userId : UserId
  status : LessonStatus
  completedAt : Option Instant

structure Preferences where
  dailyGoal : Int
  daily_goal_chk : 5 ≤ dailyGoal ∧ dailyGoal ≤ 200

inductive ScenarioType
  | incident
  | troubleshooting
  | architectureReview
  | dataPipeline
  | release
  | statusUpdate
  deriving DecidableEq

def isSlugCharacter (c : Char) : Bool := ('a' ≤ c && c ≤ 'z') || ('0' ≤ c && c ≤ '9')

structure Scenario where
  slug : String
  scenarioType : ScenarioType
  title : String
  estimatedMinutes : Int
  isActive : Bool := true
  slug_chk : (slug.toList.splitOnP (· = '-')).all fun part => part ≠ [] && part.all isSlugCharacter
  estimated_minutes_chk : 5 ≤ estimatedMinutes ∧ estimatedMinutes ≤ 90

structure ScenarioAttempt where
  userId : UserId
  scenarioSlug : String
  status : AttemptStatus
  updatedAt : Instant
  completedAt : Option Instant

/-- What one snapshot of the database shows. -/
structure Snapshot where
  words : List Word := []
  userWords : List UserWord := []
  reviewEvents : List ReviewEvent := []
  lessonSessions : List LessonSession := []
  preferences : UserId → Option Preferences := fun _ => none
  scenarios : List Scenario := []
  scenarioAttempts : List ScenarioAttempt := []

section Rows
variable (db : Snapshot) (userId : UserId)

/-- `from review_events where user_id = $1` -/
def userEvents : List ReviewEvent := db.reviewEvents.filter (·.userId = userId)

/-- `join words word on word.id = …` -/
def joinWords {α : Type} (wordId : α → WordId) (rows : List α) : List (α × Word) :=
  rows.flatMap fun row => (db.words.filter (·.id = wordId row)).map fun word => (row, word)

end Rows

/-- The mode of an event, in the version that has modes. -/
def ReviewEvent.inMode (mode : AnswerMode) (e : ReviewEvent) : Bool :=
  e.eventSchemaVersion = 2 && e.answerMode = some mode

def ReviewEvent.isLegacy (e : ReviewEvent) : Bool := e.eventSchemaVersion = 1

/-- `correct is true` -/
def ReviewEvent.wasCorrect (e : ReviewEvent) : Bool := e.correct = some true

/-- Each event belongs to one mode, or is from before there were modes. -/
theorem ReviewEvent.mode_cases (e : ReviewEvent) :
    (e.isLegacy = true ∧ ∀ mode, e.inMode mode = false) ∨
    (e.isLegacy = false ∧ ∃ mode, e.answerMode = some mode ∧
      ∀ mode', e.inMode mode' = decide (mode = mode')) := by
  rcases e.event_schema_version_chk with hversion | hversion
  · left
    simp [ReviewEvent.isLegacy, ReviewEvent.inMode, hversion]
  · right
    have hsome := (e.v2_semantics_chk.resolve_left (by omega)).1
    obtain ⟨mode, hmode⟩ := Option.ne_none_iff_exists'.1 hsome
    refine ⟨by simp [ReviewEvent.isLegacy, hversion], mode, hmode, fun mode' => ?_⟩
    simp [ReviewEvent.inMode, hversion, hmode]

end ProgressTables
