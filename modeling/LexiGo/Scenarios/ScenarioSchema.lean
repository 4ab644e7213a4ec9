import LexiGo.Learning.ReviewEmbedding

/-! Scenario lessons: attempts at them and the steps accepted so far, beside the
tables of the learning loop. The scenarios are seed data that no request changes;
their texts are left out, except for what a step asks of a response. -/
namespace ScenarioSchema
open RowStore TransactionProgram WiderSchema GoText AnswerJudgement Scheduler
open LearningSchema (UserId WordId EventId ReviewResult UserWordRow)

abbrev Slug := String
abbrev AttemptId := Nat
abbrev SubmissionId := Nat
abbrev RequestHash := Nat

structure ScenarioReviewTarget where
  term : String
  translation : String
  partOfSpeech : String
  deriving DecidableEq

structure ScenarioStep where
  requiresFactHypothesis : Bool
  minResponseCharacters : Nat
  reviewTarget : ScenarioReviewTarget
  deriving DecidableEq

/-- The steps of a scenario stand at the positions from 0 on, and there is one. -/
structure Scenario where
  version : Nat
  isActive : Bool
  steps : List ScenarioStep
  nonempty : steps ≠ []

abbrev Catalogue := Slug → Option Scenario

def Catalogue.steps (catalogue : Catalogue) (slug : Slug) : List ScenarioStep :=
  (catalogue slug).elim [] Scenario.steps

def Catalogue.stepCount (catalogue : Catalogue) (slug : Slug) : Nat :=
  (catalogue.steps slug).length

inductive AttemptStatus
  | active
  | paused
  | completed
  | discarded
  deriving DecidableEq

/-- The statuses of the partial unique index. -/
def AttemptStatus.isOpen : AttemptStatus → Bool
  | .active | .paused => true
  | .completed | .discarded => false

/-- `openAttempt` is an entry of `scenario_attempts_one_open_per_user_scenario_idx`,
`submission` one of the unique index on submissions and `sharedWord` one of
`words_shared_lemma_translation_unique_idx`: whoever adds or removes one holds it
until the end of the transaction. They stand for no rows. `headword` is the column
of `words` that the learning loop does not read. -/
inductive ScenarioKey
  | attempt (a : AttemptId)
  | step (a : AttemptId) (position : Nat)
  | headword (w : WordId)
  | openAttempt (u : UserId) (slug : Slug)
  | submission (a : AttemptId) (s : SubmissionId)
  | sharedWord (headword translation : String)
  deriving DecidableEq

structure AttemptRow where
  userId : UserId
  scenarioSlug : Slug
  scenarioVersion : Nat
  currentPosition : Nat := 0
  status : AttemptStatus := .active
  version : Nat := 1
  startedAt : Instant
  updatedAt : Instant
  completedAt : Option Instant := none
  deriving DecidableEq

/-- `scenario_attempt_steps_review_chk`: a step is accepted with its review or
carries none. -/
inductive StepState
  | processing
  | accepted (reviewEventId : EventId) (reviewResponse : ReviewResult) (acceptedAt : Instant)
  deriving DecidableEq

structure StepRow where
  submissionId : SubmissionId
  requestHash : RequestHash
  response : String
  facts : List String
  hypotheses : List String
  state : StepState
  deriving DecidableEq

def StepRow.accepted (r : StepRow) : Bool :=
  match r.state with
  | .processing => false
  | .accepted _ _ _ => true

def StepRow.reviewEventId (r : StepRow) : Option EventId :=
  match r.state with
  | .processing => none
  | .accepted e _ _ => some e

def StepRow.reviewResponse (r : StepRow) : Option ReviewResult :=
  match r.state with
  | .processing => none
  | .accepted _ review _ => some review

abbrev ScenarioRow : ScenarioKey → Type
  | .attempt _ => AttemptRow
  | .step _ _ => StepRow
  | .headword _ => String
  | .openAttempt _ _ => Unit
  | .submission _ _ => Unit
  | .sharedWord _ _ => Unit

abbrev Key := LearningSchema.Key ⊕ ScenarioKey
abbrev Row : Key → Type := Both LearningSchema.Row ScenarioRow
abbrev ScenarioDb := Db Row

abbrev userWordKey (u : UserId) (w : WordId) : Key := .inl (.userWord u w)
abbrev wordKey (w : WordId) : Key := .inl (.word w)
abbrev attemptKey (a : AttemptId) : Key := .inr (.attempt a)
abbrev stepKey (a : AttemptId) (position : Nat) : Key := .inr (.step a position)

def AttemptRow.openFor (u : UserId) (slug : Slug) (r : AttemptRow) : Bool :=
  r.status.isOpen && r.userId = u && r.scenarioSlug = slug

/-- `status = $3, version = version + 1, updated_at = now()` -/
def AttemptRow.setStatus (status : AttemptStatus) (now : Instant) (r : AttemptRow) : AttemptRow :=
  { r with status := status, version := r.version + 1, updatedAt := micros now }

def AttemptRow.advance (position : Nat) (completed : Bool) (now : Instant) (r : AttemptRow) :
    AttemptRow :=
  { r with
    currentPosition := position
    status := if completed then .completed else .active
    version := r.version + 1
    updatedAt := micros now
    completedAt := if completed then some (micros now) else none }

def attempts (p : AttemptRow → Bool) : ∀ k, Row k → Bool
  | .inr (.attempt _), r => p r
  | _, _ => false

def steps (p : AttemptId → StepRow → Bool) : ∀ k, Row k → Bool
  | .inr (.step a _), r => p a r
  | _, _ => false

/-- A submission that the handler has let through. -/
structure Submission where
  submissionId : SubmissionId
  attemptVersion : Nat
  response : String
  facts : List String
  hypotheses : List String
  responseMs : Option Int
  timezoneOffsetMinutes : Int
  deriving DecidableEq

structure StepSubmission where
  position : Nat
  submissionId : SubmissionId
  response : String
  facts : List String
  hypotheses : List String
  reviewEventId : EventId
  acceptedAt : Instant
  deriving DecidableEq

structure Attempt where
  id : AttemptId
  scenario : Slug
  scenarioVersion : Nat
  stepCount : Nat
  currentPosition : Nat
  status : AttemptStatus
  version : Nat
  completedPositions : List Nat
  currentStep : Option ScenarioStep
  startedAt : Instant
  updatedAt : Instant
  completedAt : Option Instant
  lastSubmission : Option StepSubmission
  deriving DecidableEq

structure StartAttemptResponse where
  attempt : Attempt
  resumed : Bool
  deriving DecidableEq

structure SubmitStepResponse where
  attempt : Attempt
  review : ReviewResult
  idempotentReplay : Bool := false
  deriving DecidableEq

inductive ScenarioError
  | scenarioNotFound
  | attemptNotFound
  | attemptConflict
  | attemptPaused
  | attemptCompleted
  | stepOutOfOrder
  | responseTooShort
  | factHypothesisRequired
  | factHypothesisOverlap
  | internal
  deriving DecidableEq

/-- What a commit did, for the account of a run. -/
inductive Note
  | started (u : UserId) (slug : Slug) (a : AttemptId)
  | statusSet (a : AttemptId) (status : AttemptStatus)
  | statusKept (a : AttemptId)
  | accepted (a : AttemptId) (position : Nat) (s : SubmissionId) (hash : RequestHash)
      (review : ReviewResult)
  | replayed (a : AttemptId) (s : SubmissionId) (review : ReviewResult)
  deriving DecidableEq

abbrev ScenarioProg (α : Type) := Prog Row Note α

abbrev Reply := Except ScenarioError

end ScenarioSchema
