import LexiGo.Learning.LessonRepository

/-! Reviews inside a transaction that somebody else owns, with the judge of the
cards or with the assessment of a judge outside. -/
namespace ReviewTransaction
open RowStore TransactionProgram GoText AnswerJudgement Scheduler LearningSchema LessonRepository

def judgementReasonText : JudgementReason → String
  | .passiveExposure => "passive_exposure"
  | .acceptedExact => "accepted_exact"
  | .acceptedNormalized => "accepted_normalized"
  | .rejectedNoAnswer => "rejected_no_answer"
  | .rejectedNoMatch => "rejected_no_match"
  | .legacyCorrect => "legacy_client_correct"
  | .legacyIncorrect => "legacy_client_incorrect"
  | .legacyNoAnswer => "legacy_client_no_answer"
  | .scenarioTargetPresent => "scenario_target_present"
  | .scenarioTargetMissing => "scenario_target_missing"

def submittedAnswerWithinLimit (value : String) : Bool := value.length ≤ 500

def validateTrustedReviewAssessment (request : ReviewRequest) (assessment : ReviewAssessment) :
    Except String Unit :=
  if !request.answerMode.objective then
    .error "trusted review assessment requires an objective answer mode"
  else if request.answerRevealed = some true then
    .error "trusted review assessment cannot reveal the answer before judgement"
  else if assessment.judgementSource ≠ .server then
    .error "trusted review assessment requires server judgement source"
  else if trimSpace (judgementReasonText assessment.judgementReason) = "" then
    .error "trusted review assessment requires a judgement reason"
  else match assessment.correct with
    | none => .error "trusted review assessment requires objective correctness"
    | some correct =>
      if assessment.requestedRating ≠ request.rating then
        .error "trusted review assessment requested rating does not match review request"
      else if assessment.submittedAnswer.any fun s => !submittedAnswerWithinLimit s then
        .error "trusted review assessment submitted answer exceeds the supported limit"
      else if correct then
        if assessment.effectiveRating ≠ request.rating then
          .error "successful trusted review assessment must preserve the requested rating"
        else if trimSpace assessment.matchedAnswer = "" then
          .error "successful trusted review assessment requires matched evidence"
        else .ok ()
      else if assessment.effectiveRating ≠ .again then
        .error "failed trusted review assessment must apply rating again"
      else if trimSpace assessment.matchedAnswer ≠ "" then
        .error "failed trusted review assessment cannot contain matched evidence"
      else .ok ()

def scheduled (request : ReviewRequest) (state : UserWordRow) (assessment : ReviewAssessment)
    (now : Instant) : Attempt :=
  let schedule := scheduleAttempt state.toReviewState assessment.effectiveRating request.answerMode
  ⟨assessment, schedule, if schedule.preserveDue then state.dueAt else now + schedule.dueAfter⟩

/-- Once a statement has failed, nothing of the transaction can be committed. -/
def applyReviewTx (u : UserId) (w : WordId) (request : ReviewRequest) (state : UserWordRow)
    (assessment : ReviewAssessment) : LearningProg (Reply ReviewResult) := do
  let now ← choose
  let a := scheduled request state assessment now
  if !a.fits then
    leave (.error .internal)
  else
    writeRow (.userWord u w) .noKeyUpdate (some (a.row now))
    let some e ← insertEvent (a.event u w request now none none) | leave (.error .internal)
    return .ok (a.result w e now)

variable (unicode : Unicode)

def reviewWordTx (u : UserId) (w : WordId) (request : ReviewRequest) :
    LearningProg (Reply ReviewResult) := do
  let some state ← lockUserWord u w | return .error .wordNotFound
  let some word ← wordRow w | return .error .wordNotFound
  applyReviewTx u w request state (assessReview unicode request word.definition)

inductive TrustedReviewError
  | untrusted (text : String)
  | refused (why : LessonError)
  deriving DecidableEq

def reviewWordTxWithAssessment (u : UserId) (w : WordId) (request : ReviewRequest)
    (assessment : ReviewAssessment) : LearningProg (Except TrustedReviewError ReviewResult) := do
  match validateTrustedReviewAssessment request assessment with
  | .error text => return .error (.untrusted text)
  | .ok () =>
    let some state ← lockUserWord u w | return .error (.refused .wordNotFound)
    let applied ← applyReviewTx u w request state assessment
    return applied.mapError .refused

end ReviewTransaction
