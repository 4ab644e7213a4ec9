import LexiGo.ReadCommitted.TransactionProgram
import LexiGo.Learning.Scheduler

/-! The tables of the learning loop: words, what a user has learned of them,
lessons with their items, review events, and the responses kept for repeated
requests. Columns that no modelled function reads or reports are left out. -/
namespace LearningSchema
open RowStore TransactionProgram AnswerJudgement Scheduler

abbrev UserId := Nat
abbrev WordId := Nat
abbrev LessonId := Nat
abbrev EventId := Nat
abbrev IdempotencyKey := Nat

/-- `lessonCreation` is the advisory lock of a user, `activeLesson` the entry of
the partial unique index on active lessons: whoever adds or removes an active
lesson holds it until the end of the transaction. Neither stands for a row. -/
inductive Key
  | word (w : WordId)
  | userWord (u : UserId) (w : WordId)
  | lesson (l : LessonId)
  | item (l : LessonId) (w : WordId)
  | event (e : EventId)
  | idempotency (u : UserId) (k : IdempotencyKey)
  | lessonCreation (u : UserId)
  | activeLesson (u : UserId)
  deriving DecidableEq

def Key.eventId : Key → Option EventId
  | .event e => some e
  | _ => none

structure WordRow where
  owner : Option UserId := none
  kind : WordKind := .word
  source : String
  topic : String
  translation : String
  clozeAnswer : String := ""
  acceptedAnswers : List String := []
  deriving DecidableEq

def WordRow.definition (r : WordRow) : AnswerDefinition :=
  ⟨r.kind, r.translation, r.clozeAnswer, r.acceptedAnswers⟩

structure UserWordRow extends ReviewState where
  lastReviewedAt : Option Instant := none
  deriving DecidableEq

inductive LessonStatus
  | active
  | completed
  | discarded
  deriving DecidableEq

inductive SessionKind
  | study
  | review
  | remediation
  deriving DecidableEq

inductive SelectionReason
  | recentFailure
  | due
  | overdue
  | relearningDue
  | repeatedAgain
  | repeatedAlmost
  | weakTopic
  | new
  | scheduled
  | manual
  deriving DecidableEq

structure LessonRow where
  userId : UserId
  source : String
  studyMode : AnswerMode
  lessonSize : String
  reviewRatio : Nat
  sessionKind : Option SessionKind
  currentIndex : Nat := 0
  version : Nat := 1
  status : LessonStatus := .active
  createdAt : Instant
  updatedAt : Instant
  completedAt : Option Instant := none
  deriving DecidableEq

structure ItemRow where
  position : Nat
  rating : Option Rating := none
  reviewedAt : Option Instant := none
  selectionReason : Option SelectionReason
  deriving DecidableEq

structure EventRow where
  userId : UserId
  wordId : WordId
  grade : Nat
  responseMs : Option Int
  reviewedAt : Instant
  rating : Rating
  answerMode : AnswerMode
  correct : Option Bool
  answerRevealed : Option Bool
  submittedAnswer : Option String
  effectiveRating : Rating
  judgementSource : JudgementSource
  judgementReason : JudgementReason
  matchedAnswer : Option String
  sessionKind : Option SessionKind := none
  selectionReason : Option SelectionReason := none
  deriving DecidableEq

/-- A value of type `text` holds no U+0000. -/
def isText (s : String) : Bool := s.toList.all (· ≠ '\x00')

/-- The constraints of `review_events` that a request can violate. -/
def EventRow.storable (r : EventRow) : Bool :=
  r.responseMs.all (fun ms => 0 ≤ ms && ms ≤ 2147483647) &&
    r.submittedAnswer.all (fun submitted => isText submitted && submitted.length ≤ 500) &&
    (r.answerMode ≠ .study || (r.correct = none && r.answerRevealed = some true))

structure LessonReviewRequest extends ReviewRequest where
  lessonVersion : Nat
  deriving DecidableEq

structure ReviewResult where
  wordId : WordId
  status : WordStatus
  easiness : Nat
  intervalDays : Nat
  repetitions : Nat
  dueAt : Instant
  lastReviewedAt : Instant
  requestedRating : Rating
  effectiveRating : Rating
  correct : Option Bool
  judgementSource : JudgementSource
  judgementReason : JudgementReason
  matchedAnswer : String
  reviewEventId : EventId
  suggestionAvailable : Bool
  deriving DecidableEq

structure LessonReviewResult extends ReviewResult where
  lessonId : LessonId
  lessonCurrentIndex : Nat
  lessonVersion : Nat
  lessonCompleted : Bool
  lessonReviewedItems : Nat
  lessonSkippedItems : Nat
  lessonTotalItems : Nat
  deriving DecidableEq

/-- The fields behind `request_hash`, in place of their digest. -/
structure Fingerprint where
  lessonId : LessonId
  wordId : WordId
  request : LessonReviewRequest
  deriving DecidableEq

structure IdempotencyRow where
  requestHash : Fingerprint
  response : LessonReviewResult
  createdAt : Instant
  expiresAt : Instant
  deriving DecidableEq

abbrev Row : Key → Type
  | .word _ => WordRow
  | .userWord _ _ => UserWordRow
  | .lesson _ => LessonRow
  | .item _ _ => ItemRow
  | .event _ => EventRow
  | .idempotency _ _ => IdempotencyRow
  | .lessonCreation _ => Unit
  | .activeLesson _ => Unit

abbrev LearningDb := Db Row

/-- `status = 'discarded', version = version + 1, updated_at = now()` -/
def LessonRow.discard (now : Instant) (r : LessonRow) : LessonRow :=
  { r with status := .discarded, version := r.version + 1, updatedAt := micros now }

def LessonRow.advance (index : Nat) (completed : Bool) (now : Instant) (r : LessonRow) :
    LessonRow :=
  { r with
    currentIndex := index
    version := r.version + 1
    status := if completed then .completed else .active
    completedAt := if completed then some (micros now) else none
    updatedAt := micros now }

def ItemRow.rate (rating : Rating) (now : Instant) (r : ItemRow) : ItemRow :=
  { r with rating := some rating, reviewedAt := some (micros now) }

def LessonRow.activeOf (u : UserId) (r : LessonRow) : Bool := r.userId = u && r.status = .active

/-- Conditions on the rows of one table, and changes to them. -/
def lessons (p : LessonId → LessonRow → Bool) : ∀ k, Row k → Bool
  | .lesson l, r => p l r
  | _, _ => false

def items (p : LessonId → WordId → ItemRow → Bool) : ∀ k, Row k → Bool
  | .item l w, r => p l w r
  | _, _ => false

def events (p : EventId → EventRow → Bool) : ∀ k, Row k → Bool
  | .event e, r => p e r
  | _, _ => false

def userWords (p : UserId → WordId → UserWordRow → Bool) : ∀ k, Row k → Bool
  | .userWord u w, r => p u w r
  | _, _ => false

def idempotencyRows (p : UserId → IdempotencyKey → IdempotencyRow → Bool) : ∀ k, Row k → Bool
  | .idempotency u k, r => p u k r
  | _, _ => false

def onLesson (g : LessonRow → LessonRow) : ∀ k, Row k → Row k
  | .lesson _, r => g r
  | .word _, r | .userWord _ _, r | .item _ _, r | .event _, r | .idempotency _ _, r
  | .lessonCreation _, r | .activeLesson _, r => r

/-- One request to review an item of a lesson, with the key it carries, if any. -/
structure ReviewCall where
  userId : UserId
  lessonId : LessonId
  wordId : WordId
  request : LessonReviewRequest
  key : Option IdempotencyKey
  deriving DecidableEq

def ReviewCall.fingerprint (call : ReviewCall) : Fingerprint :=
  ⟨call.lessonId, call.wordId, call.request⟩

/-- What the query for a kept response finds. -/
inductive Loaded
  | absent
  | expired
  | replayed (response : LessonReviewResult)
  | reused
  deriving DecidableEq

/-- What the query for a review that was committed before finds. -/
structure RecoverySnapshot where
  lesson : LessonRow
  item : ItemRow
  userWord : UserWordRow
  eventId : EventId
  event : EventRow
  totalItems : Nat
  reviewedItems : Nat
  deriving DecidableEq

/-- What a commit did, for the account of a run. `seen` and `swept` are the keys
that the statement in question found in its snapshot. -/
inductive Note
  | lessonCreated (u : UserId) (l : LessonId) (words : List WordId)
  | lessonResumed (u : UserId) (l : LessonId)
  | lessonDiscarded (u : UserId) (l : LessonId) (version : Nat)
  | reviewed (call : ReviewCall) (result : LessonReviewResult) (row : UserWordRow)
  | wordReviewed (u : UserId) (w : WordId) (e : EventId)
  | loaded (call : ReviewCall) (outcome : Loaded)
  | recovered (call : ReviewCall) (snapshot : Option RecoverySnapshot)
  | bound (call : ReviewCall) (response : LessonReviewResult) (swept : List Key)
  | insertLost (call : ReviewCall) (swept : List Key)
  | reloaded (call : ReviewCall) (outcome : Loaded)
  | wordDeleted (u : UserId) (w : WordId) (seen : List Key)
  deriving DecidableEq

end LearningSchema
