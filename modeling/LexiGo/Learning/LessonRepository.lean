import LexiGo.Learning.LearningSchema

/-! The transactions of the learning repository: reviews, and the course of a
lesson from its creation to its end. Every function is one transaction unless it
says otherwise. Which of the words a user has are composed into a lesson, and
why, is decided by the environment. -/
namespace LessonRepository
open RowStore TransactionProgram GoText AnswerJudgement Scheduler LearningSchema

inductive LessonError
  | noActiveLesson
  | invalidLessonWords
  | lessonItemNotFound
  | lessonItemAlreadyReviewed
  | lessonItemOutOfOrder
  | lessonModeMismatch
  | lessonVersionConflict
  | invalidLessonState
  | lessonQueueEmpty
  | wordNotFound
  | idempotencyKeyReused
  | invalidWordIds
  | customWordNotFound
  | customPhraseNotFound
  | internal
  deriving DecidableEq

abbrev LearningProg (α : Type) := Prog Row Note α

abbrev Reply (α : Type) := Except LessonError α

def lockLesson (l : LessonId) (m : Mode) (p : LessonRow → Bool) :
    LearningProg (Option LessonRow) :=
  selectFor (Key.lesson l) m p

def updateLesson (l : LessonId) (p : LessonRow → Bool) (g : LessonRow → LessonRow) :
    LearningProg (Option LessonRow) :=
  updateRow (Key.lesson l) .noKeyUpdate p g

def lockItem (l : LessonId) (w : WordId) : LearningProg (Option ItemRow) :=
  selectFor (Key.item l w) .update fun _ => true

def lockUserWord (u : UserId) (w : WordId) : LearningProg (Option UserWordRow) :=
  selectFor (Key.userWord u w) .update fun _ => true

def wordRow (w : WordId) : LearningProg (Option WordRow) := select fun db => db.lookup (.word w)

/-- The foreign key of a row that names a word. -/
def referenceWord (w : WordId) : LearningProg Bool := do
  lockRow (.word w) .keyShare
  select fun db => (db.lookup (.word w)).isSome

/-- The range of an `integer` column. -/
def fitsInteger (n : Nat) : Bool := n ≤ 2147483647

/-- A value of the sequence behind `review_events.id`: later than all there are. -/
def nextEventId : LearningProg (Option EventId) := do
  let e ← choose
  if ← select fun db => (rowsWhere (events fun e' _ => e ≤ e') db).isEmpty then return some e
  else return none

/-- A review once it is judged and scheduled. -/
structure Attempt where
  assessment : ReviewAssessment
  schedule : Schedule
  dueAt : Instant

variable (unicode : Unicode)

def attempt (request : ReviewRequest) (state : UserWordRow) (word : WordRow) (now : Instant) :
    Attempt :=
  let assessment := assessReview unicode request word.definition
  let schedule := scheduleAttempt state.toReviewState assessment.effectiveRating request.answerMode
  ⟨assessment, schedule, if schedule.preserveDue then state.dueAt else now + schedule.dueAfter⟩

namespace Attempt
variable (a : Attempt)

def fits : Bool := fitsInteger a.schedule.intervalDays && fitsInteger a.schedule.repetitions

def row (now : Instant) : UserWordRow where
  status := a.schedule.status
  easiness := a.schedule.easiness
  intervalDays := a.schedule.intervalDays
  repetitions := a.schedule.repetitions
  dueAt := micros a.dueAt
  lastReviewedAt := some (micros now)

def event (u : UserId) (w : WordId) (request : ReviewRequest) (now : Instant)
    (sessionKind : Option SessionKind) (selectionReason : Option SelectionReason) : EventRow where
  userId := u
  wordId := w
  grade := a.schedule.grade
  responseMs := request.responseMs
  reviewedAt := micros now
  rating := request.rating
  answerMode := request.answerMode
  correct := a.assessment.correct
  answerRevealed := request.answerRevealed
  submittedAnswer := a.assessment.submittedAnswer
  effectiveRating := a.assessment.effectiveRating
  judgementSource := a.assessment.judgementSource
  judgementReason := a.assessment.judgementReason
  matchedAnswer := if a.assessment.matchedAnswer = "" then none else some a.assessment.matchedAnswer
  sessionKind := sessionKind
  selectionReason := selectionReason

def result (w : WordId) (e : EventId) (now : Instant) : ReviewResult where
  wordId := w
  status := a.schedule.status
  easiness := a.schedule.easiness
  intervalDays := a.schedule.intervalDays
  repetitions := a.schedule.repetitions
  dueAt := a.dueAt
  lastReviewedAt := now
  requestedRating := a.assessment.requestedRating
  effectiveRating := a.assessment.effectiveRating
  correct := a.assessment.correct
  judgementSource := a.assessment.judgementSource
  judgementReason := a.assessment.judgementReason
  matchedAnswer := a.assessment.matchedAnswer
  reviewEventId := e
  suggestionAvailable := a.assessment.suggestionAvailable

end Attempt

def insertEvent (row : EventRow) : LearningProg (Option EventId) := do
  let some e ← nextEventId | return none
  if !row.storable then
    return none
  else if ← insertRow (.event e) row then
    if ← referenceWord row.wordId then return some e else return none
  else
    return none

def reviewWord (u : UserId) (w : WordId) (request : ReviewRequest) :
    LearningProg (Reply ReviewResult) := do
  let some state ← lockUserWord u w | leave (.error .wordNotFound)
  let some word ← wordRow w | leave (.error .wordNotFound)
  let now ← choose
  let a := attempt unicode request state word now
  if !a.fits then
    leave (.error .internal)
  else
    writeRow (.userWord u w) .noKeyUpdate (some (a.row now))
    let some e ← insertEvent (a.event u w request now none none) | leave (.error .internal)
    commit [.wordReviewed u w e]
    return .ok (a.result w e now)

/-- The items of a lesson that satisfy `p`. -/
def itemsOf (l : LessonId) (p : ItemRow → Bool) (db : LearningDb) : List Key :=
  rowsWhere (items fun l' _ r => l' = l && p r) db

def positions (db : LearningDb) (keys : List Key) : List Nat :=
  keys.filterMap fun
    | .item l w => (db.lookup (.item l w)).map ItemRow.position
    | _ => none

/-- How far a lesson has come: the items left, the first of them, and all. -/
structure LessonProgress where
  remaining : Nat
  nextIndex : Nat
  totalItems : Nat
  deriving DecidableEq

def lessonProgress (l : LessonId) (db : LearningDb) : LessonProgress where
  remaining := (itemsOf l (fun r => r.rating.isNone) db).length
  nextIndex := (positions db (itemsOf l (fun r => r.rating.isNone) db)).min?.getD 0
  totalItems := (itemsOf l (fun _ => true) db).length

namespace LessonProgress
variable (p : LessonProgress)

def completed : Bool := p.remaining = 0

def index : Nat := if p.completed then p.totalItems else p.nextIndex

end LessonProgress

def lessonReviewResult (l : LessonId) (version : Nat) (p : LessonProgress) (review : ReviewResult) :
    LessonReviewResult :=
  { review with
    lessonId := l
    lessonCurrentIndex := p.index
    lessonVersion := version
    lessonCompleted := p.completed
    lessonReviewedItems := p.totalItems - p.remaining
    lessonSkippedItems := 0
    lessonTotalItems := p.totalItems }

def reviewLessonWord (call : ReviewCall) : LearningProg (Reply LessonReviewResult) := do
  let request := call.request
  let some lesson ← lockLesson call.lessonId .update (LessonRow.activeOf call.userId)
    | leave (.error .lessonItemNotFound)
  if lesson.version ≠ request.lessonVersion then
    leave (.error .lessonVersionConflict)
  else if lesson.studyMode ≠ request.answerMode then
    leave (.error .lessonModeMismatch)
  else
    let some item ← lockItem call.lessonId call.wordId | leave (.error .lessonItemNotFound)
    if item.rating.isSome then
      leave (.error .lessonItemAlreadyReviewed)
    else if item.position ≠ lesson.currentIndex then
      leave (.error .lessonItemOutOfOrder)
    else
      let some state ← lockUserWord call.userId call.wordId | leave (.error .wordNotFound)
      let some word ← wordRow call.wordId | leave (.error .wordNotFound)
      let now ← choose
      let a := attempt unicode request.toReviewRequest state word now
      if !a.fits then
        leave (.error .internal)
      else
        writeRow (.userWord call.userId call.wordId) .noKeyUpdate (some (a.row now))
        let some e ← insertEvent (a.event call.userId call.wordId request.toReviewRequest now
            lesson.sessionKind item.selectionReason)
          | leave (.error .internal)
        writeRow (.item call.lessonId call.wordId) .noKeyUpdate (some (item.rate request.rating now))
        let progress ← select (lessonProgress call.lessonId)
        let some previous ← updateLesson call.lessonId
            (fun r => r.userId = call.userId && r.version = request.lessonVersion)
            (LessonRow.advance progress.index progress.completed now)
          | leave (.error .lessonVersionConflict)
        if progress.completed then
          lockRow (.activeLesson call.userId) .update
        let result := lessonReviewResult call.lessonId (previous.version + 1) progress
          (a.result call.wordId e now)
        commit [.reviewed call result (a.row now)]
        return .ok result

def discardLesson (u : UserId) (l : LessonId) (expectedVersion : Nat) :
    LearningProg (Reply Unit) := do
  let dbNow ← choose
  let some lesson ← lockLesson l .update (LessonRow.activeOf u) | leave (.error .noActiveLesson)
  if lesson.version ≠ expectedVersion then
    leave (.error .lessonVersionConflict)
  else
    let some _ ← updateLesson l
        (fun r => r.activeOf u && r.version = expectedVersion) (LessonRow.discard dbNow)
      | leave (.error .lessonVersionConflict)
    lockRow (.activeLesson u) .update
    commit [.lessonDiscarded u l expectedVersion]
    return .ok ()

end LessonRepository
