import LexiGo.Scenarios.ScenarioRepository

/-! The handlers of scenario attempts: what they let through to the repository, and
what they answer. The digest of a submission is a parameter. -/
namespace ScenarioService
open RowStore TransactionProgram WiderSchema GoText AnswerJudgement Scheduler ScenarioSchema
open ScenarioRepository
open LearningSchema (UserId WordId EventId ReviewResult)

structure HttpError where
  status : Nat
  code : String
  message : String
  deriving DecidableEq

def writeScenarioError : ScenarioError → HttpError
  | .scenarioNotFound => ⟨404, "scenario_not_found", "scenario was not found"⟩
  | .attemptNotFound => ⟨404, "scenario_attempt_not_found", "scenario attempt was not found"⟩
  | .attemptConflict =>
    ⟨409, "scenario_attempt_conflict", "scenario attempt changed; reload it before retrying"⟩
  | .attemptPaused =>
    ⟨409, "scenario_attempt_paused", "resume the scenario attempt before submitting"⟩
  | .attemptCompleted =>
    ⟨409, "scenario_attempt_completed", "scenario attempt is already completed"⟩
  | .stepOutOfOrder =>
    ⟨409, "scenario_step_out_of_order", "submit the current scenario step in order"⟩
  | .responseTooShort =>
    ⟨422, "scenario_response_too_short", "response does not satisfy the current production outcome"⟩
  | .factHypothesisRequired =>
    ⟨422, "fact_hypothesis_required",
      "confirmed facts and current hypotheses must be provided separately"⟩
  | .factHypothesisOverlap =>
    ⟨422, "fact_hypothesis_overlap", "the same statement cannot be both a fact and a hypothesis"⟩
  | .internal => ⟨500, "internal_error", "internal server error"⟩

def invalidScenarioSlug : HttpError := ⟨400, "invalid_scenario_slug", "scenario slug is required"⟩
def invalidAttemptId : HttpError := ⟨400, "invalid_attempt_id", "attempt id must be a UUID"⟩
def invalidAttemptVersion : HttpError :=
  ⟨422, "invalid_attempt_version", "attemptVersion must be positive"⟩

def hexDigit (c : Char) : Option Nat :=
  if '0' ≤ c && c ≤ '9' then some (c.toNat - '0'.toNat)
  else if 'a' ≤ c && c ≤ 'f' then some (c.toNat - 'a'.toNat + 10)
  else if 'A' ≤ c && c ≤ 'F' then some (c.toNat - 'A'.toNat + 10)
  else none

/-- The number that hexadecimal digits stand for. -/
def hexNumber (digits : List Char) : Option Nat :=
  digits.foldlM (fun n c => (hexDigit c).map fun d => 16 * n + d) 0

/-- `validUUID`, with the identifier that the database reads. -/
def uuidOf (value : String) : Option Nat :=
  let chars := value.toList
  if chars.length = 36 && [8, 13, 18, 23].all fun i => chars[i]? = some '-' then
    let compact := chars.filter (· ≠ '-')
    if compact.length = 32 then hexNumber compact else none
  else none

structure AttemptVersionRequest where
  attemptVersion : Int
  deriving DecidableEq

structure StepReviewRequest where
  responseMs : Option Int := none
  timezoneOffsetMinutes : Int := 0
  deriving DecidableEq

structure SubmitStepRequest where
  submissionId : String
  attemptVersion : Int
  response : String
  facts : List String := []
  hypotheses : List String := []
  review : StepReviewRequest := {}
  deriving DecidableEq

section Requests
variable (unicode : Unicode)

/-- The loop over the values: the keys seen, and the values kept so far. -/
def keepEvidence : List String → List String → List String → Except HttpError (List String)
  | [], _, normalized => .ok normalized
  | value :: rest, seen, normalized =>
    let trimmed := trimSpace value
    let key := toLower unicode trimmed
    if trimmed = "" then keepEvidence rest seen normalized
    else if 500 < trimmed.length then
      .error ⟨422, "evidence_item_too_long", "each fact or hypothesis must not exceed 500 characters"⟩
    else if key ∈ seen then keepEvidence rest seen normalized
    else keepEvidence rest (key :: seen) (normalized ++ [trimmed])

def normalizeEvidencePayload (values : List String) : Except HttpError (List String) :=
  if 10 < values.length then
    .error ⟨422, "too_many_evidence_items", "facts and hypotheses may contain at most 10 items each"⟩
  else keepEvidence unicode values [] []

/-- The request as it is normalised, and what the repository is given of it. -/
def normalizeAndValidateSubmission (request : SubmitStepRequest) :
    Except HttpError (SubmitStepRequest × Submission) :=
  let submissionId := trimSpace request.submissionId
  let response := trimSpace request.response
  match uuidOf submissionId with
  | none => .error ⟨422, "invalid_submission_id", "submissionId must be a UUID"⟩
  | some s =>
    if request.attemptVersion ≤ 0 then .error invalidAttemptVersion
    else if 5000 < response.length then
      .error ⟨422, "invalid_scenario_response", "response must not exceed 5000 characters"⟩
    else do
      let facts ← normalizeEvidencePayload unicode request.facts
      let hypotheses ← normalizeEvidencePayload unicode request.hypotheses
      if request.review.responseMs.any fun ms => ms < 0 || 3600000 < ms then
        .error ⟨422, "invalid_response_ms", "review.responseMs must be between 0 and 3600000"⟩
      else if request.review.timezoneOffsetMinutes < -840 ||
          840 < request.review.timezoneOffsetMinutes then
        .error ⟨422, "invalid_timezone_offset",
          "review.timezoneOffsetMinutes must be between -840 and 840"⟩
      else
        .ok ({ request with
            submissionId := submissionId
            response := response
            facts := facts
            hypotheses := hypotheses },
          { submissionId := s
            attemptVersion := request.attemptVersion.toNat
            response := response
            facts := facts
            hypotheses := hypotheses
            responseMs := request.review.responseMs
            timezoneOffsetMinutes := request.review.timezoneOffsetMinutes })

end Requests

inductive Answer
  | started (response : StartAttemptResponse)
  | attempt (attempt : Attempt)
  | submitted (response : SubmitStepResponse)
  deriving DecidableEq

abbrev Response := Except HttpError Answer

def answered {α : Type} (f : α → Answer) (p : ScenarioProg (Reply α)) : ScenarioProg Response := do
  match ← p with
  | .ok a => return .ok (f a)
  | .error e => return .error (writeScenarioError e)

inductive Op
  | start (u : UserId) (slug : String)
  | pause (u : UserId) (attemptID : String) (request : AttemptVersionRequest)
  | resume (u : UserId) (attemptID : String) (request : AttemptVersionRequest)
  | submitStep (u : UserId) (attemptID : String) (position : Int) (request : SubmitStepRequest)
  deriving DecidableEq

variable (catalogue : Catalogue) (unicode : Unicode) (lower : String → String)
variable (hashSubmission : Int → SubmitStepRequest → RequestHash)

def starting (u : UserId) (slug : String) : ScenarioProg Response :=
  if trimSpace slug = "" then return .error invalidScenarioSlug
  else answered .started (start catalogue u (trimSpace slug))

/-- Which of the two it is, is the function called in the end. -/
def changeAttemptStatus (change : UserId → AttemptId → Nat → ScenarioProg (Reply Attempt))
    (u : UserId) (attemptID : String) (request : AttemptVersionRequest) : ScenarioProg Response :=
  match uuidOf (trimSpace attemptID) with
  | none => return .error invalidAttemptId
  | some a =>
    if request.attemptVersion ≤ 0 then return .error invalidAttemptVersion
    else answered .attempt (change u a request.attemptVersion.toNat)

def submitting (u : UserId) (attemptID : String) (position : Int) (request : SubmitStepRequest) :
    ScenarioProg Response :=
  match uuidOf (trimSpace attemptID) with
  | none => return .error invalidAttemptId
  | some a =>
    if position < 0 then
      return .error ⟨400, "invalid_scenario_position",
        "scenario position must be a non-negative integer"⟩
    else match normalizeAndValidateSubmission unicode request with
      | .error why => return .error why
      | .ok (normalized, submission) =>
        answered .submitted (submitStep catalogue unicode lower u a position.toNat submission
          (hashSubmission position normalized))

def program : Op → ScenarioProg Response
  | .start u slug => starting catalogue u slug
  | .pause u attemptID request => changeAttemptStatus (pause catalogue) u attemptID request
  | .resume u attemptID request => changeAttemptStatus (resume catalogue) u attemptID request
  | .submitStep u attemptID position request =>
    submitting catalogue unicode lower hashSubmission u attemptID position request

end ScenarioService
