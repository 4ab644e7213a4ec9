import LexiGo.Learning.LessonCreation
import LexiGo.Learning.LessonReviewIdempotency
import LexiGo.Learning.CustomWords

/-! The requests of the learning API. -/
namespace LearningService
open RowStore TransactionProgram GoText AnswerJudgement Scheduler LearningSchema LessonRepository
open LessonCreation LessonReviewIdempotency CustomWords

inductive ReviewRejection
  | invalidLessonVersion
  | invalidResponseMs
  | invalidSubmittedAnswer
  | invalidStudyCorrectness
  | invalidAnswerRevealed
  | ambiguousObjectiveAnswer
  deriving DecidableEq

def maxSubmittedAnswerRunes : Nat := 500

def normalizeAndValidateReviewRequest (request : ReviewRequest) :
    Except ReviewRejection ReviewRequest :=
  let request := { request with submittedAnswer := request.submittedAnswer.map trimSpace }
  if request.submittedAnswer.any fun submitted => maxSubmittedAnswerRunes < submitted.length then
    .error .invalidSubmittedAnswer
  else if request.answerMode = .study then
    if request.correct.isSome || request.submittedAnswer.isSome then .error .invalidStudyCorrectness
    else if request.answerRevealed ≠ some true then .error .invalidAnswerRevealed
    else .ok request
  else if request.submittedAnswer.isSome && request.correct.isSome then
    .error .ambiguousObjectiveAnswer
  else .ok request

def checkResponseMs (request : ReviewRequest) : Except ReviewRejection Unit :=
  if request.responseMs.any fun ms => ms < 0 || 3600000 < ms then .error .invalidResponseMs else .ok ()

def acceptReview (request : ReviewRequest) : Except ReviewRejection ReviewRequest := do
  checkResponseMs request
  normalizeAndValidateReviewRequest request

/-- The request as the repository gets it, if the handler lets it through. -/
def acceptLessonReview (call : ReviewCall) : Except ReviewRejection ReviewCall := do
  if call.request.lessonVersion = 0 then
    throw .invalidLessonVersion
  let request ← acceptReview call.request.toReviewRequest
  return { call with request := { call.request with toReviewRequest := request } }

inductive Failure
  | rejected (why : ReviewRejection)
  | refused (why : LessonError)
  deriving DecidableEq

inductive Answer
  | lesson (session : LessonSession)
  | reviewed (result : ReviewResult)
  | lessonReviewed (result : LessonReviewResult)
  | done
  deriving DecidableEq

abbrev Response := Except Failure Answer

def answered {α : Type} (f : α → Answer) (p : LearningProg (Reply α)) : LearningProg Response := do
  match ← p with
  | .ok a => return .ok (f a)
  | .error e => return .error (.refused e)

inductive Op
  | createLesson (u : UserId) (request : LessonCreateRequest)
  | activeLesson (u : UserId)
  | discardLesson (u : UserId) (l : LessonId) (version : Nat)
  | reviewLessonWord (call : ReviewCall)
  | reviewWord (u : UserId) (w : WordId) (request : ReviewRequest)
  | deleteCustomWord (u : UserId) (w : WordId)
  | deleteCustomPhrase (u : UserId) (w : WordId)
  deriving DecidableEq

variable (unicode : Unicode)

def program : Op → LearningProg Response
  | .createLesson u request => answered .lesson (createLesson u request)
  | .activeLesson u => answered .lesson (activeLesson u)
  | .discardLesson u l version => answered (fun _ => .done) (discardLesson u l version)
  | .reviewLessonWord call =>
    match acceptLessonReview call with
    | .error why => return .error (.rejected why)
    | .ok call => answered .lessonReviewed (reviewLessonWordIdempotent unicode call)
  | .reviewWord u w request =>
    match acceptReview request with
    | .error why => return .error (.rejected why)
    | .ok request => answered .reviewed (reviewWord unicode u w request)
  | .deleteCustomWord u w => answered (fun _ => .done) (deleteCustomWord u w)
  | .deleteCustomPhrase u w => answered (fun _ => .done) (deleteCustomPhrase u w)

/-- The requests that never delete a word. -/
def Op.keepsWords : Op → Bool
  | .deleteCustomWord _ _ | .deleteCustomPhrase _ _ => false
  | _ => true

abbrev LessonOp := { op : Op // op.keepsWords = true }

def lessonProgram (op : LessonOp) : LearningProg Response := program unicode op.1

end LearningService
