import LexiGo.JsonValue
import LexiGo.Learning.LearningService

/-! The handler of lesson reviews: from the body of a request to the response. -/
namespace LessonHttp
open JsonValue RowStore TransactionProgram GoText AnswerJudgement LearningSchema LessonRepository
open LessonReviewIdempotency LearningService

structure HttpError where
  status : Nat
  code : String
  message : String
  deriving DecidableEq

/-- The fields of a review request and of the request embedded in it. -/
inductive Field
  | rating
  | responseMs
  | answerMode
  | submittedAnswer
  | correct
  | answerRevealed
  | timezoneOffsetMinutes
  | lessonVersion
  deriving DecidableEq

def Field.name : Field → String
  | .rating => "rating"
  | .responseMs => "responseMs"
  | .answerMode => "answerMode"
  | .submittedAnswer => "submittedAnswer"
  | .correct => "correct"
  | .answerRevealed => "answerRevealed"
  | .timezoneOffsetMinutes => "timezoneOffsetMinutes"
  | .lessonVersion => "lessonVersion"

def fields : List Field :=
  [.rating, .responseMs, .answerMode, .submittedAnswer, .correct, .answerRevealed,
    .timezoneOffsetMinutes, .lessonVersion]

/-- Names are compared with letters folded; two letters outside ASCII fold into it. -/
def foldRune (c : Char) : Char :=
  if c = '\u017F' then 's' else if c = '\u212A' then 'k' else c.toLower

def foldName (name : String) : List Char := name.toList.map foldRune

/-- A name that is spelled exactly is looked for first. -/
def fieldNamed (name : String) : Option Field :=
  (fields.find? fun f => f.name = name).or
    (fields.find? fun f => foldName f.name = foldName name)

structure ReviewBody where
  rating : String := ""
  responseMs : Option Int := none
  answerMode : String := ""
  submittedAnswer : Option String := none
  correct : Option Bool := none
  answerRevealed : Option Bool := none
  timezoneOffsetMinutes : Int := 0
  lessonVersion : Int := 0
  deriving DecidableEq

/-- A literal that `strconv.ParseInt` takes for 64 bits. -/
def int64 : Json → Option Int
  | .integer n => if -9223372036854775808 ≤ n ∧ n ≤ 9223372036854775807 then some n else none
  | _ => none

/-- `null` leaves a value as it is, and makes a pointer nil. -/
def decodeValue {α : Type} (f : Json → Option α) (old : α) : Json → Option α
  | .null => some old
  | v => f v

def decodePointer {α : Type} (f : Json → Option α) : Json → Option (Option α)
  | .null => some none
  | v => (f v).map some

def ReviewBody.set (body : ReviewBody) (v : Json) : Field → Option ReviewBody
  | .rating => (decodeValue text body.rating v).map fun x => { body with rating := x }
  | .responseMs => (decodePointer int64 v).map fun x => { body with responseMs := x }
  | .answerMode => (decodeValue text body.answerMode v).map fun x => { body with answerMode := x }
  | .submittedAnswer => (decodePointer text v).map fun x => { body with submittedAnswer := x }
  | .correct => (decodePointer boolean v).map fun x => { body with correct := x }
  | .answerRevealed => (decodePointer boolean v).map fun x => { body with answerRevealed := x }
  | .timezoneOffsetMinutes =>
    (decodeValue int64 body.timezoneOffsetMinutes v).map fun x =>
      { body with timezoneOffsetMinutes := x }
  | .lessonVersion =>
    (decodeValue int64 body.lessonVersion v).map fun x => { body with lessonVersion := x }

/-- Members are decoded one after the other; one of no known name is an error. -/
def decodeMembers : ReviewBody → List (String × Json) → Option ReviewBody
  | body, [] => some body
  | body, (name, v) :: rest => do
    let body ← body.set v (← fieldNamed name)
    decodeMembers body rest

def decodeJson : Json → Option ReviewBody
  | .null => some {}
  | .object members => decodeMembers {} members
  | _ => none

def ratingOf : String → Option Rating
  | "again" => some .again
  | "almost" => some .almost
  | "known" => some .known
  | _ => none

/-- Clients of the first version may leave the mode out. -/
def answerModeOf : String → Option AnswerMode
  | "" => some .recall
  | "study" => some .study
  | "recall" => some .recall
  | "choice" => some .choice
  | "listening" => some .listening
  | _ => none

def rejectionError : ReviewRejection → HttpError
  | .invalidLessonVersion =>
    ⟨422, "invalid_lesson_version", "lessonVersion must be a positive integer"⟩
  | .invalidResponseMs => ⟨422, "invalid_response_ms", "responseMs must be between 0 and 3600000"⟩
  | .invalidSubmittedAnswer =>
    ⟨422, "invalid_submitted_answer", "submittedAnswer must not exceed 500 characters"⟩
  | .invalidStudyCorrectness =>
    ⟨422, "invalid_study_correctness", "study attempts cannot report an objective answer"⟩
  | .invalidAnswerRevealed =>
    ⟨422, "invalid_answer_revealed", "study attempts must report answerRevealed=true"⟩
  | .ambiguousObjectiveAnswer =>
    ⟨422, "ambiguous_objective_answer", "submit submittedAnswer or legacy correct, not both"⟩

def internalError : HttpError := ⟨500, "internal_error", "internal server error"⟩

def reviewError : LessonError → HttpError
  | .idempotencyKeyReused =>
    ⟨409, "idempotency_key_reused", "Idempotency-Key was already used for a different lesson review"⟩
  | .lessonVersionConflict =>
    ⟨409, "lesson_version_conflict", "lesson changed on another device; reload the active lesson"⟩
  | .lessonItemNotFound =>
    ⟨404, "lesson_item_not_found", "learning item is not part of the active lesson"⟩
  | .lessonItemAlreadyReviewed =>
    ⟨409, "lesson_item_already_reviewed", "lesson item was already reviewed"⟩
  | .lessonItemOutOfOrder =>
    ⟨409, "lesson_item_out_of_order", "review the current lesson item before moving forward"⟩
  | .lessonModeMismatch =>
    ⟨409, "lesson_mode_mismatch", "answerMode must match the active lesson studyMode"⟩
  | .wordNotFound => ⟨404, "word_not_found", "learning item is not assigned to the current user"⟩
  | _ => internalError

def failureError : Failure → HttpError
  | .rejected why => rejectionError why
  | .refused why => reviewError why

/-- Where a request goes, as far as its path and its header can be read: both ids are
missing where they are malformed, and so is a key that is no UUID. -/
structure ReviewRoute where
  userId : UserId
  lessonId : Option LessonId
  wordId : Option WordId
  key : Option (Option IdempotencyKey)
  deriving DecidableEq

/-- The request that the body makes for a lesson, as the handler passes it on. -/
def reviewRequest (body : ReviewBody) : Except HttpError LessonReviewRequest :=
  if body.lessonVersion ≤ 0 then .error (rejectionError .invalidLessonVersion)
  else match ratingOf body.rating with
  | none => .error ⟨422, "invalid_rating", "rating must be again, almost or known"⟩
  | some rating =>
    if body.responseMs.any fun ms => ms < 0 || 3600000 < ms then
      .error (rejectionError .invalidResponseMs)
    else match answerModeOf body.answerMode with
    | none =>
      .error ⟨422, "invalid_answer_mode", "answerMode must be study, recall, choice or listening"⟩
    | some answerMode =>
      .ok
        { rating := rating
          responseMs := body.responseMs
          answerMode := answerMode
          submittedAnswer := body.submittedAnswer
          correct := body.correct
          answerRevealed := body.answerRevealed
          timezoneOffsetMinutes := body.timezoneOffsetMinutes
          lessonVersion := body.lessonVersion.toNat }

/-- The call that a request comes to. -/
def reviewCall (route : ReviewRoute) (body : Json) : Except HttpError ReviewCall :=
  match route.lessonId with
  | none => .error ⟨400, "invalid_lesson_id", "lesson id must be a UUID"⟩
  | some lessonId =>
    match route.wordId with
    | none => .error ⟨400, "invalid_word_id", "learning item id must be a positive integer"⟩
    | some wordId =>
      match route.key with
      | none => .error ⟨422, "invalid_idempotency_key", "Idempotency-Key must be a UUID"⟩
      | some key =>
        match decodeJson body with
        | none => .error ⟨400, "invalid_json", "invalid JSON request"⟩
        | some body => do
          let request ← reviewRequest body
          (acceptLessonReview ⟨route.userId, lessonId, wordId, request, key⟩).mapError
            rejectionError

abbrev HttpResponse := Except HttpError LessonReviewResult

def status : HttpResponse → Nat
  | .ok _ => 200
  | .error e => e.status

variable (unicode : Unicode)

def reviewLessonWordHandler (route : ReviewRoute) (body : Json) : LearningProg HttpResponse :=
  match reviewCall route body with
  | .error e => return .error e
  | .ok call => do
    let reply ← reviewLessonWordIdempotent unicode call
    return reply.mapError reviewError

def responseOf : Response → HttpResponse
  | .ok (.lessonReviewed result) => .ok result
  | .ok _ => .error internalError
  | .error e => .error (failureError e)

/-- It is the request of the service that the handler makes. -/
theorem reviewLessonWordHandler_eq {route : ReviewRoute} {lessonId : LessonId} {wordId : WordId}
    {key : Option IdempotencyKey} {body : Json} {decoded : ReviewBody}
    {request : LessonReviewRequest} (hlesson : route.lessonId = some lessonId)
    (hword : route.wordId = some wordId) (hkey : route.key = some key)
    (hbody : decodeJson body = some decoded) (hrequest : reviewRequest decoded = .ok request) :
    reviewLessonWordHandler unicode route body = (do
      let response ← program unicode
        (.reviewLessonWord ⟨route.userId, lessonId, wordId, request, key⟩)
      return responseOf response) := by
  have hcall : reviewCall route body =
      (acceptLessonReview ⟨route.userId, lessonId, wordId, request, key⟩).mapError
        rejectionError := by
    simp only [reviewCall, hlesson, hword, hkey, hbody, hrequest]
    rfl
  unfold reviewLessonWordHandler
  rw [hcall]
  simp only [program]
  cases acceptLessonReview ⟨route.userId, lessonId, wordId, request, key⟩ with
  | error why => rfl
  | ok call =>
    dsimp only [Except.mapError]
    unfold answered
    rw [Prog.bind_assoc]
    refine congrArg (reviewLessonWordIdempotent unicode call >>= ·) (funext fun reply => ?_)
    cases reply <;> rfl

end LessonHttp
