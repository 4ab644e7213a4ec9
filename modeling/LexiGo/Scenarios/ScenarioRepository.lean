import LexiGo.Scenarios.ScenarioSchema
import Mathlib.Data.List.Sort

/-! The transactions of the scenario repository: opening an attempt, pausing and
resuming it, and submitting its steps one after the other. -/
namespace ScenarioRepository
open RowStore TransactionProgram WiderSchema GoText AnswerJudgement Scheduler ScenarioSchema
open ReviewTransaction (reviewWordTxWithAssessment)
open LessonRepository (referenceWord)
open LearningSchema (UserId WordId EventId ReviewResult UserWordRow WordRow)

variable (catalogue : Catalogue)

def attemptAt (a : AttemptId) (db : ScenarioDb) : Option AttemptRow := db.lookup (attemptKey a)

def stepAt (a : AttemptId) (position : Nat) (db : ScenarioDb) : Option StepRow :=
  db.lookup (stepKey a position)

/-- The attempts that satisfy `p`. -/
def attemptsWhere (p : AttemptRow → Bool) (db : ScenarioDb) : List (AttemptId × AttemptRow) :=
  (rowsWhere (attempts p) db).filterMap fun
    | .inr (.attempt a) => (attemptAt a db).map fun r => (a, r)
    | _ => none

/-- The steps of an attempt that satisfy `p`, by their positions. -/
def stepsWhere (a : AttemptId) (p : StepRow → Bool) (db : ScenarioDb) : List (Nat × StepRow) :=
  let rows := (rowsWhere (steps fun a' r => a' = a && p r) db).filterMap fun
    | .inr (.step _ position) => (stepAt a position db).map fun r => (position, r)
    | _ => none
  rows.insertionSort fun s s' => s.1 ≤ s'.1

def stepSubmission : Nat × StepRow → Option StepSubmission
  | (_, ⟨_, _, _, _, _, .processing⟩) => none
  | (position, ⟨submissionId, _, response, facts, hypotheses, .accepted e _ acceptedAt⟩) =>
    some ⟨position, submissionId, response, facts, hypotheses, e, acceptedAt⟩

def attemptResponse (a : AttemptId) (r : AttemptRow) (submissions : List StepSubmission) :
    Attempt where
  id := a
  scenario := r.scenarioSlug
  scenarioVersion := r.scenarioVersion
  stepCount := catalogue.stepCount r.scenarioSlug
  currentPosition := r.currentPosition
  status := r.status
  version := r.version
  completedPositions := submissions.map StepSubmission.position
  currentStep := if r.status.isOpen then (catalogue.steps r.scenarioSlug)[r.currentPosition]? else none
  startedAt := r.startedAt
  updatedAt := r.updatedAt
  completedAt := r.completedAt
  lastSubmission := submissions.getLast?

/-- Two queries, each with a snapshot of its own. -/
def loadAttempt (u : UserId) (a : AttemptId) : ScenarioProg (Reply Attempt) := do
  match ← select fun db => (attemptAt a db).filter fun r => r.userId = u with
  | none => return .error .attemptNotFound
  | some r =>
    let accepted ← select (stepsWhere a StepRow.accepted)
    return .ok (attemptResponse catalogue a r (accepted.filterMap stepSubmission))

def newAttempt (u : UserId) (slug : Slug) (version : Nat) (now : Instant) : AttemptRow where
  userId := u
  scenarioSlug := slug
  scenarioVersion := version
  startedAt := micros now
  updatedAt := micros now

/-- `insert … on conflict … do nothing`: an attempt, unless one is open. -/
def insertAttempt (u : UserId) (slug : Slug) (version : Nat) (now : Instant) :
    ScenarioProg (Reply (Option AttemptId)) := do
  let a ← choose
  lockRow (.inr (.openAttempt u slug)) .update
  if ← select fun db => (rowsWhere (attempts (AttemptRow.openFor u slug)) db).isEmpty then
    if ← insertRow (attemptKey a) (newAttempt u slug version now) then
      commit [.started u slug a]
      return .ok (some a)
    else
      leave (.error .internal)
  else
    leave (.ok none)

/-- `ORDER BY updated_at DESC LIMIT 1` -/
def newestOpen (u : UserId) (slug : Slug) (db : ScenarioDb) : Option AttemptId :=
  let found := attemptsWhere (AttemptRow.openFor u slug) db
  ((found.insertionSort fun s s' => s'.2.updatedAt ≤ s.2.updatedAt).head?).map Prod.fst

def startResponse (resumed : Bool) (attempt : Attempt) : StartAttemptResponse := ⟨attempt, resumed⟩

def start (u : UserId) (slug : Slug) : ScenarioProg (Reply StartAttemptResponse) := do
  match (catalogue slug).filter Scenario.isActive with
  | none => return .error .scenarioNotFound
  | some scenario =>
    let now ← choose
    match ← insertAttempt u slug scenario.version now with
    | .error why => return .error why
    | .ok (some a) => return (← loadAttempt catalogue u a).map (startResponse false)
    | .ok none =>
      match ← select (newestOpen u slug) with
      | none => return .error .internal
      | some a => return (← loadAttempt catalogue u a).map (startResponse true)

def lockAttempt (u : UserId) (a : AttemptId) : ScenarioProg (Option AttemptRow) :=
  selectFor (attemptKey a) .update fun r => r.userId = u

def updateAttempt (u : UserId) (a : AttemptId) (g : AttemptRow → AttemptRow) :
    ScenarioProg (Option AttemptRow) :=
  updateRow (attemptKey a) .noKeyUpdate (fun r => r.userId = u) g

def setStatus (u : UserId) (a : AttemptId) (version : Nat) (desiredStatus : AttemptStatus) :
    ScenarioProg (Reply Attempt) := do
  let some attempt ← lockAttempt u a | leave (.error .attemptNotFound)
  if attempt.version ≠ version then
    leave (.error .attemptConflict)
  else if !attempt.status.isOpen then
    leave (.error .attemptCompleted)
  else if attempt.status ≠ desiredStatus then
    let now ← choose
    let _ ← updateAttempt u a (AttemptRow.setStatus desiredStatus now)
    commit [.statusSet a desiredStatus]
    loadAttempt catalogue u a
  else
    commit [.statusKept a]
    loadAttempt catalogue u a

def pause (u : UserId) (a : AttemptId) (version : Nat) : ScenarioProg (Reply Attempt) :=
  setStatus catalogue u a version .paused

def resume (u : UserId) (a : AttemptId) (version : Nat) : ScenarioProg (Reply Attempt) :=
  setStatus catalogue u a version .active

section Judging
variable (unicode : Unicode)

/-- `strings.ToLower` -/
def toLower (s : String) : String := String.ofList (s.toList.map unicode.toLower)

/-- The values that are not blank, trimmed, the first of each after lowering, and
their keys. -/
def normalizeEvidenceList : List String → List String × List String → List String × List String
  | [], (result, keys) => (result, keys)
  | value :: rest, (result, keys) =>
    let trimmed := trimSpace value
    let key := toLower unicode trimmed
    if trimmed = "" || key ∈ keys then normalizeEvidenceList rest (result, keys)
    else normalizeEvidenceList rest (result ++ [trimmed], key :: keys)

def normalizeEvidence (facts hypotheses : List String) (required : Bool) :
    Reply (List String × List String) :=
  let (normalizedFacts, factKeys) := normalizeEvidenceList unicode facts ([], [])
  let (normalizedHypotheses, hypothesisKeys) := normalizeEvidenceList unicode hypotheses ([], [])
  if required && (normalizedFacts.isEmpty || normalizedHypotheses.isEmpty) then
    .error .factHypothesisRequired
  else if factKeys.any fun key => key ∈ hypothesisKeys then
    .error .factHypothesisOverlap
  else .ok (normalizedFacts, normalizedHypotheses)

/-- `strings.Contains` -/
def contains (s t : String) : Bool := s.toList.tails.any fun rest => t.toList.isPrefixOf rest

def normalizedWholeTermPresent (response target : String) : Bool :=
  let normalizedResponse := normalizeSubmittedAnswer unicode response
  let normalizedTarget := normalizeSubmittedAnswer unicode target
  if normalizedResponse = "" || normalizedTarget = "" then false
  else contains (" " ++ normalizedResponse ++ " ") (" " ++ normalizedTarget ++ " ")

def buildScenarioReview (response : String) (target : ScenarioReviewTarget)
    (request : Submission) : ReviewRequest × ReviewAssessment :=
  let matched := normalizedWholeTermPresent unicode response target.term
  let rating : Rating := if matched then .known else .again
  ({ rating := rating
     responseMs := request.responseMs
     answerMode := .recall
     answerRevealed := some false
     timezoneOffsetMinutes := request.timezoneOffsetMinutes },
   { requestedRating := rating
     effectiveRating := rating
     correct := some matched
     submittedAnswer := none
     judgementSource := .server
     judgementReason := if matched then .scenarioTargetPresent else .scenarioTargetMissing
     matchedAnswer := if matched then trimSpace target.term else ""
     suggestionAvailable := false })

/-- What is asked of a submission before anything is written: the attempt at the
version and the position named, and a response that fits the step. -/
def fitsAttempt (attempt : AttemptRow) (position : Nat) (request : Submission) :
    Reply (ScenarioStep × List String × List String) :=
  if attempt.version ≠ request.attemptVersion then .error .attemptConflict
  else match attempt.status with
    | .paused => .error .attemptPaused
    | .completed | .discarded => .error .attemptCompleted
    | .active =>
      if position ≠ attempt.currentPosition then .error .stepOutOfOrder
      else match (catalogue.steps attempt.scenarioSlug)[position]? with
        | none => .error .stepOutOfOrder
        | some step =>
          if (trimSpace request.response).length < step.minResponseCharacters then
            .error .responseTooShort
          else
            (normalizeEvidence unicode request.facts request.hypotheses
              step.requiresFactHypothesis).map fun evidence => (step, evidence)

end Judging

section Words
variable (lower : String → String)

def scenarioVocabularySource : String := "lexigo-scenario-vocabulary-v1"

def scenarioWord (target : ScenarioReviewTarget) : WordRow where
  source := scenarioVocabularySource
  topic := "Technical Scenarios"
  translation := target.translation
  acceptedAnswers := [target.translation]

def wordAt (w : WordId) (db : ScenarioDb) : Option WordRow := db.lookup (wordKey w)

def headwordAt (w : WordId) (db : ScenarioDb) : Option String := db.lookup (.inr (.headword w))

/-- `lower(lemma) = lower($1) and lower(translation) = lower($2)` -/
def names (target : ScenarioReviewTarget) (w : WordId) (r : WordRow) (db : ScenarioDb) : Bool :=
  (headwordAt w db).any (fun headword => lower headword = lower target.term) &&
    lower r.translation = lower target.translation

def wordsWhere (p : WordId → WordRow → Bool) (db : ScenarioDb) : List WordId :=
  (rowsWhere (fun | .inl (.word w), r => p w r | _, _ => false) db).filterMap fun
    | .inl (.word w) => some w
    | _ => none

/-- `insert into words … on conflict do nothing` -/
def ensureWord (target : ScenarioReviewTarget) : ScenarioProg Unit := do
  let w ← choose
  lockRow (.inr (.sharedWord (lower target.term) (lower target.translation))) .update
  lockRow (wordKey w) .update
  let taken ← select fun db => (wordAt w db).isSome ||
    !(wordsWhere (fun w' r => r.owner = none && names lower target w' r db) db).isEmpty
  if taken then
    return ()
  else
    writeRow (wordKey w) .update (some (scenarioWord target))
    writeRow (.inr (.headword w)) .update (some target.term)

/-- One of the rows that the names fit; the query does not say which. -/
def findWord (target : ScenarioReviewTarget) : ScenarioProg (Option WordId) := do
  let n ← choose
  select fun db => (wordsWhere (fun w r => names lower target w r db) db)[n]?

def newUserWord (now : Instant) : UserWordRow where
  status := .new
  easiness := 250
  intervalDays := 0
  repetitions := 0
  dueAt := micros now

/-- `insert into user_words … on conflict do nothing` -/
def enroll (u : UserId) (w : WordId) : ScenarioProg Bool := do
  let now ← choose
  if ← insertRow (userWordKey u w) (newUserWord now) then lift (fun _ => []) (referenceWord w)
  else return true

def resolveScenarioReviewWord (u : UserId) (target : ScenarioReviewTarget) :
    ScenarioProg (Option WordId) := do
  ensureWord lower target
  match ← findWord lower target with
  | none => return none
  | some w => return if ← enroll u w then some w else none

end Words

section Submitting
variable (unicode : Unicode) (lower : String → String)

def submitted (a : AttemptId) (s : SubmissionId) (db : ScenarioDb) : Option StepRow :=
  ((stepsWhere a (fun r => r.submissionId = s) db).head?).map Prod.snd

def replayResponse (review : ReviewResult) (attempt : Attempt) : SubmitStepResponse :=
  ⟨attempt, review, true⟩

def freshResponse (review : ReviewResult) (attempt : Attempt) : SubmitStepResponse :=
  ⟨attempt, review, false⟩

/-- A submission that is there already answers for itself. -/
def replayStep (u : UserId) (a : AttemptId) (request : Submission) (requestHash : RequestHash)
    (existing : StepRow) : ScenarioProg (Reply SubmitStepResponse) := do
  if existing.requestHash ≠ requestHash then
    leave (.error .attemptConflict)
  else
    let some review := existing.reviewResponse | leave (.error .internal)
    commit [.replayed a request.submissionId review]
    return (← loadAttempt catalogue u a).map (replayResponse review)

/-- The row of a step, if its columns pass their checks and neither its position nor
its submission is taken. The response has been trimmed. -/
def insertStep (a : AttemptId) (position : Nat) (r : StepRow) : ScenarioProg Bool := do
  if r.response.length < 20 || 5000 < r.response.length then return false
  lockRow (.inr (.submission a r.submissionId)) .update
  if ← select fun db => (submitted a r.submissionId db).isSome then return false
  else insertRow (stepKey a position) r

def stepRow (request : Submission) (requestHash : RequestHash) (facts hypotheses : List String)
    (review : ReviewResult) (now : Instant) : StepRow where
  submissionId := request.submissionId
  requestHash := requestHash
  response := trimSpace request.response
  facts := facts
  hypotheses := hypotheses
  state := .accepted review.reviewEventId review (micros now)

def acceptStep (u : UserId) (a : AttemptId) (attempt : AttemptRow) (position : Nat)
    (request : Submission) (requestHash : RequestHash) (step : ScenarioStep)
    (facts hypotheses : List String) : ScenarioProg (Reply SubmitStepResponse) := do
  let some w ← resolveScenarioReviewWord lower u step.reviewTarget | leave (.error .internal)
  let review := buildScenarioReview unicode (trimSpace request.response) step.reviewTarget request
  match ← lift (fun _ => []) (reviewWordTxWithAssessment u w review.1 review.2) with
  | .error _ => leave (.error .internal)
  | .ok review =>
    let now ← choose
    if !(← insertStep a position (stepRow request requestHash facts hypotheses review now)) then
      leave (.error .internal)
    else
      let nextPosition := position + 1
      let completed : Bool := catalogue.stepCount attempt.scenarioSlug ≤ nextPosition
      let _ ← updateAttempt u a (AttemptRow.advance nextPosition completed now)
      if completed then
        lockRow (.inr (.openAttempt u attempt.scenarioSlug)) .update
      commit [.accepted a position request.submissionId requestHash review]
      return (← loadAttempt catalogue u a).map (freshResponse review)

def submitStep (u : UserId) (a : AttemptId) (position : Nat) (request : Submission)
    (requestHash : RequestHash) : ScenarioProg (Reply SubmitStepResponse) := do
  let some attempt ← lockAttempt u a | leave (.error .attemptNotFound)
  match ← select (submitted a request.submissionId) with
  | some existing => replayStep catalogue u a request requestHash existing
  | none =>
    match fitsAttempt catalogue unicode attempt position request with
    | .error why => leave (.error why)
    | .ok (step, facts, hypotheses) =>
      acceptStep catalogue unicode lower u a attempt position request requestHash step facts
        hypotheses

end Submitting

end ScenarioRepository
