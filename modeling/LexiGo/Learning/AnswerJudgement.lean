import LexiGo.GoText

/-! The deterministic judge of submitted answers, and what a review request
amounts to once it has been judged. Ratings, modes and the shape of a request
are those that the handlers let through. -/
namespace AnswerJudgement
open GoText

inductive Rating
  | again
  | almost
  | known
  deriving DecidableEq

inductive AnswerMode
  | study
  | recall
  | choice
  | listening
  deriving DecidableEq

def AnswerMode.objective : AnswerMode → Bool
  | .study => false
  | .recall | .choice | .listening => true

structure ReviewRequest where
  rating : Rating
  responseMs : Option Int := none
  answerMode : AnswerMode
  submittedAnswer : Option String := none
  correct : Option Bool := none
  answerRevealed : Option Bool := none
  timezoneOffsetMinutes : Int := 0
  deriving DecidableEq

inductive WordKind
  | word
  | phrase
  deriving DecidableEq

structure AnswerDefinition where
  kind : WordKind
  translation : String
  clozeAnswer : String
  acceptedAnswers : List String

inductive JudgementSource
  | study
  | server
  | legacyClient
  deriving DecidableEq

inductive JudgementReason
  | passiveExposure
  | acceptedExact
  | acceptedNormalized
  | rejectedNoAnswer
  | rejectedNoMatch
  | legacyCorrect
  | legacyIncorrect
  | legacyNoAnswer
  | scenarioTargetPresent
  | scenarioTargetMissing
  deriving DecidableEq

structure ReviewAssessment where
  requestedRating : Rating
  effectiveRating : Rating
  correct : Option Bool
  submittedAnswer : Option String
  judgementSource : JudgementSource
  judgementReason : JudgementReason
  matchedAnswer : String
  suggestionAvailable : Bool

variable (unicode : Unicode)

/-- One character of the loop: what has been written so far, newest first, and
whether a space is due before the next letter or number. -/
def normalizeStep : List Char × Bool → Char → List Char × Bool
  | (written, spacePending), current =>
    let current := unicode.toLower current
    let current := if current = 'ё' then 'е' else current
    if unicode.isLetter current || unicode.isNumber current then
      (current :: (if spacePending && !written.isEmpty then ' ' :: written else written), false)
    else if current = '\'' || current = '\u2019' || current = '\u02BC' then
      (written, spacePending)
    else
      (written, !written.isEmpty)

def normalizeSubmittedAnswer (value : String) : String :=
  let (written, _) := (trimSpace value).toList.foldl (normalizeStep unicode) ([], false)
  trimSpace (String.ofList written.reverse)

def canonicalTranslationCandidates (value : String) : List String :=
  let trimmed := trimSpace value
  if trimmed = "" then []
  else
    let parts := fieldsFunc (fun c => c = ',' || c = ';' || c = '/') trimmed
    if parts.length ≤ 1 then [trimmed]
    else trimmed :: (parts.map trimSpace).filter fun alternative => alternative ≠ ""

/-- Candidates that are not empty once normalised, the first of each normal form. -/
def distinctCandidates : List String → List String → List String
  | _, [] => []
  | seen, candidate :: rest =>
    let trimmed := trimSpace candidate
    let normalized := normalizeSubmittedAnswer unicode trimmed
    if normalized = "" || normalized ∈ seen then distinctCandidates seen rest
    else trimmed :: distinctCandidates (normalized :: seen) rest

def acceptedAnswerCandidates (definition : AnswerDefinition) : List String :=
  let canonical :=
    if definition.kind = .phrase && trimSpace definition.clozeAnswer ≠ "" then
      [definition.clozeAnswer]
    else canonicalTranslationCandidates definition.translation
  distinctCandidates unicode [] (canonical ++ definition.acceptedAnswers)

def matchCandidate (trimmed normalized : String) : List String → Bool × JudgementReason × String
  | [] => (false, .rejectedNoMatch, "")
  | candidate :: rest =>
    if unicode.equalFold trimmed (trimSpace candidate) then (true, .acceptedExact, candidate)
    else if normalized = normalizeSubmittedAnswer unicode candidate then
      (true, .acceptedNormalized, candidate)
    else matchCandidate trimmed normalized rest

def judgeSubmittedAnswer (definition : AnswerDefinition) (submitted : String) :
    Bool × JudgementReason × String :=
  let trimmed := trimSpace submitted
  if trimmed = "" then (false, .rejectedNoAnswer, "")
  else
    let normalized := normalizeSubmittedAnswer unicode trimmed
    if normalized = "" then (false, .rejectedNoAnswer, "")
    else matchCandidate unicode trimmed normalized (acceptedAnswerCandidates unicode definition)

/-- What a study attempt amounts to, and where every assessment starts. -/
def exposure (request : ReviewRequest) : ReviewAssessment where
  requestedRating := request.rating
  effectiveRating := request.rating
  correct := none
  submittedAnswer := request.submittedAnswer
  judgementSource := .study
  judgementReason := .passiveExposure
  matchedAnswer := ""
  suggestionAvailable := false

def objectiveAssessment (request : ReviewRequest) (definition : AnswerDefinition) :
    ReviewAssessment :=
  match request.submittedAnswer, request.correct with
  | some submitted, _ =>
    let (correct, reason, matched) := judgeSubmittedAnswer unicode definition submitted
    { exposure request with
      correct := some correct
      judgementSource := .server
      judgementReason := reason
      matchedAnswer := matched
      suggestionAvailable := !correct && normalizeSubmittedAnswer unicode submitted ≠ "" }
  | none, some correct =>
    { exposure request with
      correct := some correct
      judgementSource := .legacyClient
      judgementReason := if correct then .legacyCorrect else .legacyIncorrect }
  | none, none =>
    { exposure request with
      correct := some false
      judgementSource := .legacyClient
      judgementReason := .legacyNoAnswer }

/-- Only the effective rating reaches the scheduler, and a wrong answer lowers it. -/
def ReviewAssessment.penalize (assessment : ReviewAssessment) : ReviewAssessment :=
  if assessment.correct = some false then { assessment with effectiveRating := .again }
  else assessment

/-- Confidence and correctness are independent facts. -/
def assessReview (request : ReviewRequest) (definition : AnswerDefinition) : ReviewAssessment :=
  if !request.answerMode.objective then exposure request
  else (objectiveAssessment unicode request definition).penalize

section Assessment
variable (assessment : ReviewAssessment)

@[simp] theorem penalize_requestedRating :
    assessment.penalize.requestedRating = assessment.requestedRating := by
  unfold ReviewAssessment.penalize
  split <;> rfl

@[simp] theorem penalize_correct : assessment.penalize.correct = assessment.correct := by
  unfold ReviewAssessment.penalize
  split <;> rfl

@[simp] theorem penalize_submittedAnswer :
    assessment.penalize.submittedAnswer = assessment.submittedAnswer := by
  unfold ReviewAssessment.penalize
  split <;> rfl

@[simp] theorem penalize_judgementSource :
    assessment.penalize.judgementSource = assessment.judgementSource := by
  unfold ReviewAssessment.penalize
  split <;> rfl

@[simp] theorem penalize_suggestionAvailable :
    assessment.penalize.suggestionAvailable = assessment.suggestionAvailable := by
  unfold ReviewAssessment.penalize
  split <;> rfl

end Assessment

variable {unicode} {request : ReviewRequest} {definition : AnswerDefinition}

theorem assessReview_requestedRating :
    (assessReview unicode request definition).requestedRating = request.rating := by
  unfold assessReview
  split
  · rfl
  · rw [penalize_requestedRating]
    unfold objectiveAssessment
    split <;> rfl

theorem assessReview_submittedAnswer :
    (assessReview unicode request definition).submittedAnswer = request.submittedAnswer := by
  unfold assessReview
  split
  · rfl
  · rw [penalize_submittedAnswer]
    unfold objectiveAssessment
    split <;> rfl

/-- What a suggestion needs, read off the rest of the assessment. -/
def suggestible (unicode : Unicode) (source : JudgementSource) (correct : Option Bool)
    (submitted : Option String) : Bool :=
  source = .server && correct = some false &&
    submitted.any fun s => normalizeSubmittedAnswer unicode s ≠ ""

theorem assessReview_suggestionAvailable :
    (assessReview unicode request definition).suggestionAvailable =
      suggestible unicode (assessReview unicode request definition).judgementSource
        (assessReview unicode request definition).correct request.submittedAnswer := by
  unfold assessReview
  split
  · rfl
  · rw [penalize_suggestionAvailable, penalize_judgementSource, penalize_correct]
    unfold objectiveAssessment
    cases request.submittedAnswer with
    | none => cases request.correct <;> rfl
    | some submitted =>
      dsimp only [suggestible]
      cases (judgeSubmittedAnswer unicode definition submitted).1 <;> simp

/-- Without a submitted answer the stored correctness is the one the client sent,
unless an objective attempt came without either. -/
theorem assessReview_correct (hs : request.submittedAnswer = none)
    (hc : request.answerMode.objective = true → request.correct ≠ none)
    (hstudy : request.answerMode.objective = false → request.correct = none) :
    (assessReview unicode request definition).correct = request.correct := by
  unfold assessReview
  cases hmode : request.answerMode.objective with
  | false => exact (hstudy hmode).symm
  | true =>
    obtain ⟨correct, heq⟩ := Option.ne_none_iff_exists'.mp (hc hmode)
    simp [objectiveAssessment, hs, heq]

end AnswerJudgement
