import LexiGo.Moderation.ModerationRepository
import LexiGo.Learning.LearningService

/-! The requests about suggestions, as their handlers check them. -/
namespace ModerationService
open RowStore TransactionProgram GoText AnswerJudgement Scheduler ModerationSchema
open ModerationRepository
open LearningSchema (UserId WordId EventId EventRow)
open LearningService (maxSubmittedAnswerRunes)

structure AnswerSuggestionRequest where
  reviewEventId : Int
  exerciseKind : String
  submittedAnswer : String
  deriving DecidableEq

structure ListQuery where
  status : String := ""
  exerciseKind : String := ""
  itemQuery : String := ""
  createdBefore : Option Instant := none
  limit : Int := 0
  cursor : Option Cursor := none
  deriving DecidableEq

structure DecisionBody where
  decision : String
  expectedVersion : Int
  reason : String
  comment : String := ""
  deriving DecidableEq

inductive Rejection
  | invalidWordId
  | invalidReviewEventId
  | invalidExerciseKind
  | invalidSubmittedAnswer
  | invalidSuggestionId
  | invalidModerationFilter (text : String)
  | invalidModerationDecision (text : String)
  deriving DecidableEq

def exerciseKindOf (value : String) : Option ExerciseKind :=
  if value = "translation" then some .translation
  else if value = "cloze" then some .cloze
  else none

def acceptSuggestion (w : Int) (request : AnswerSuggestionRequest) :
    Except Rejection (WordId × SuggestionRequest) :=
  let submitted := trimSpace request.submittedAnswer
  if w ≤ 0 then .error .invalidWordId
  else if request.reviewEventId ≤ 0 then .error .invalidReviewEventId
  else match exerciseKindOf request.exerciseKind with
    | none => .error .invalidExerciseKind
    | some kind =>
      if submitted = "" || maxSubmittedAnswerRunes < submitted.length then
        .error .invalidSubmittedAnswer
      else .ok (w.toNat, ⟨request.reviewEventId.toNat, kind, submitted⟩)

def defaultPageLimit : Int := 50

def maxPageLimit : Int := 100

def statusOf (value : String) : Option SuggestionStatus :=
  if value = "" || value = "pending" then some .pending
  else if value = "accepted" then some .accepted
  else if value = "rejected" then some .rejected
  else none

def normalizeListFilter (q : ListQuery) : Except Rejection ListFilter :=
  match statusOf q.status with
  | none => .error (.invalidModerationFilter "invalid status")
  | some status =>
    if q.exerciseKind ≠ "" && (exerciseKindOf q.exerciseKind).isNone then
      .error (.invalidModerationFilter "invalid exercise kind")
    else
      let itemQuery := trimSpace q.itemQuery
      let limit := if q.limit = 0 then defaultPageLimit else q.limit
      if 120 < itemQuery.length then
        .error (.invalidModerationFilter "item query is too long")
      else if limit < 1 || maxPageLimit < limit then
        .error (.invalidModerationFilter "invalid limit")
      else .ok ⟨status, exerciseKindOf q.exerciseKind, itemQuery, q.createdBefore, limit.toNat,
        q.cursor⟩

def maxCommentRunes : Nat := 1000

def rejectionReasonOf (value : String) : Option { r : Reason // r ≠ .validVariant } :=
  if value = "incorrect" then some ⟨.incorrect, by decide⟩
  else if value = "duplicate" then some ⟨.duplicate, by decide⟩
  else if value = "unsafe" then some ⟨.unsafeContent, by decide⟩
  else if value = "irrelevant" then some ⟨.irrelevant, by decide⟩
  else if value = "insufficient_context" then some ⟨.insufficientContext, by decide⟩
  else none

def decisionOf (decision reason : String) :
    Except Rejection { d : Decision × Reason // d.2 = .validVariant ↔ d.1 = .accepted } :=
  if decision = "accepted" then
    if reason = "valid_variant" then .ok ⟨(.accepted, .validVariant), by decide⟩
    else .error (.invalidModerationDecision "accepted decisions require valid_variant")
  else if decision = "rejected" then
    match rejectionReasonOf reason with
    | some ⟨r, hr⟩ => .ok ⟨(.rejected, r), by simpa using hr⟩
    | none => .error (.invalidModerationDecision "invalid rejection reason")
  else .error (.invalidModerationDecision "decision must be accepted or rejected")

def validateDecision (request : DecisionBody) : Except Rejection DecisionRequest :=
  let comment := trimSpace request.comment
  if request.expectedVersion ≤ 0 then
    .error (.invalidModerationDecision "expectedVersion must be positive")
  else if maxCommentRunes < comment.length then
    .error (.invalidModerationDecision "comment is too long")
  else match decisionOf (trimSpace request.decision) (trimSpace request.reason) with
    | .error why => .error why
    | .ok ⟨d, fits⟩ => .ok ⟨d.1, request.expectedVersion.toNat, d.2, comment, fits⟩

theorem validateDecision_version {request : DecisionBody} {valid : DecisionRequest}
    (h : validateDecision request = .ok valid) :
    (valid.expectedVersion : Int) = request.expectedVersion := by
  simp only [validateDecision] at h
  generalize decisionOf _ _ = decision at h
  by_cases hpos : request.expectedVersion ≤ 0
  · simp [hpos] at h
  by_cases hlong : maxCommentRunes < (trimSpace request.comment).length
  · simp [hpos, hlong] at h
  cases decision with
  | error why => simp [hpos, hlong] at h
  | ok d =>
    simp only [hpos, hlong, if_false, Except.ok.injEq] at h
    subst h
    exact Int.toNat_of_nonneg (by omega)

inductive Failure
  | forbidden
  | rejected (why : Rejection)
  | refused (why : ModerationError)
  deriving DecidableEq

inductive Answer
  | recorded (e : EventId)
  | suggested (suggestion : AnswerSuggestion)
  | listed (response : ListResponse)
  | decided (result : DecisionResult)
  deriving DecidableEq

abbrev Response := Except Failure Answer

def answered {α : Type} (f : α → Answer) (p : ModerationProg (Reply α)) :
    ModerationProg Response := do
  match ← p with
  | .ok a => return .ok (f a)
  | .error e => return .error (.refused e)

/-- Whether the e-mail address of the caller is on the list of moderators: 0 says no. -/
def authorize : ModerationProg Bool := do
  let allowed ← choose
  return allowed ≠ 0

def authorized (p : ModerationProg Response) : ModerationProg Response := do
  if ← authorize then p else return .error .forbidden

inductive Op
  | recordReview (event : EventRow)
  | submitAnswerSuggestion (u : UserId) (w : Int) (request : AnswerSuggestionRequest)
  | list (q : ListQuery)
  | decide (actor : UserId) (s : Int) (request : DecisionBody)
  deriving DecidableEq

variable (unicode : Unicode) (lower : String → String)

def listing (q : ListQuery) : ModerationProg Response :=
  match normalizeListFilter q with
  | .error why => return .error (.rejected why)
  | .ok filter => answered .listed (list lower filter)

def deciding (actor : UserId) (s : Int) (request : DecisionBody) : ModerationProg Response :=
  if s ≤ 0 then
    return .error (.rejected .invalidSuggestionId)
  else
    match validateDecision request with
    | .error why => return .error (.rejected why)
    | .ok request => answered .decided (decide unicode actor s.toNat request)

def program : Op → ModerationProg Response
  | .recordReview event => answered .recorded (recordReview event)
  | .submitAnswerSuggestion u w request =>
    match acceptSuggestion w request with
    | .error why => return .error (.rejected why)
    | .ok (w, request) => answered .suggested (submitAnswerSuggestion unicode u w request)
  | .list q => authorized (listing lower q)
  | .decide actor s request => authorized (deciding unicode actor s request)

end ModerationService
