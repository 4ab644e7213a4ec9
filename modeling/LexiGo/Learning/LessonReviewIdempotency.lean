import LexiGo.Learning.LessonRepository
import Mathlib.Data.List.Sort

/-! Lesson reviews that carry an idempotency key. Looking the key up, reviewing,
finding a review that was committed before, and keeping the response under the
key are transactions of their own. -/
namespace LessonReviewIdempotency
open RowStore TransactionProgram GoText AnswerJudgement Scheduler LearningSchema LessonRepository

def keptRow (u : UserId) (k : IdempotencyKey) (db : LearningDb) : Option IdempotencyRow :=
  db.lookup (.idempotency u k)

/-- `request_hash` and `response` where `expires_at > now()`, compared with the call. -/
def loadedFrom (call : ReviewCall) (now : Instant) : Option IdempotencyRow → Loaded
  | none => .absent
  | some r =>
    if r.expiresAt ≤ now then .expired
    else if r.requestHash ≠ call.fingerprint then .reused
    else .replayed r.response

def loadIdempotentLessonReview (call : ReviewCall) (k : IdempotencyKey) (note : Loaded → Note) :
    LearningProg Loaded := do
  let now ← choose
  query (fun db => loadedFrom call now (keptRow call.userId k db)) fun o => [note o]

def recoverableIdempotencyConflict : LessonError → Bool
  | .lessonVersionConflict | .lessonItemAlreadyReviewed | .lessonItemOutOfOrder
  | .lessonItemNotFound | .noActiveLesson => true
  | _ => false

/-- The events that the query for a committed review takes for the one of this call. -/
def fitsCall (call : ReviewCall) (reviewedAt : Option Instant) (e : EventRow) : Bool :=
  e.userId = call.userId && e.wordId = call.wordId && some e.reviewedAt = reviewedAt &&
    e.rating = call.request.rating && e.answerMode = call.request.answerMode &&
    e.responseMs = call.request.responseMs && e.answerRevealed = call.request.answerRevealed &&
    match call.request.submittedAnswer with
    | some submitted => e.submittedAnswer = some submitted
    | none => e.submittedAnswer = none && e.correct = call.request.correct

/-- `ORDER BY review_event.id DESC LIMIT 1` -/
def latestEvent (p : EventRow → Bool) (db : LearningDb) : Option EventId :=
  ((rowsWhere (events fun _ r => p r) db).filterMap Key.eventId).max?

def recoverySnapshot (call : ReviewCall) (db : LearningDb) : Option RecoverySnapshot := do
  let lesson : LessonRow ← db.lookup (.lesson call.lessonId)
  guard (lesson.userId = call.userId ∧ lesson.version = call.request.lessonVersion + 1)
  let item : ItemRow ← db.lookup (.item call.lessonId call.wordId)
  let userWord : UserWordRow ← db.lookup (.userWord call.userId call.wordId)
  let e ← latestEvent (fitsCall call item.reviewedAt) db
  let event : EventRow ← db.lookup (.event e)
  let total := (itemsOf call.lessonId (fun _ => true) db).length
  let reviewed := (itemsOf call.lessonId (fun r => r.rating.isSome) db).length
  return ⟨lesson, item, userWord, e, event, total, reviewed⟩

variable (unicode : Unicode)

/-- The response as far as it can be rebuilt from the tables. -/
def RecoverySnapshot.result (s : RecoverySnapshot) (call : ReviewCall) (reviewedAt : Instant) :
    LessonReviewResult where
  wordId := call.wordId
  status := s.userWord.status
  easiness := s.userWord.easiness
  intervalDays := s.userWord.intervalDays
  repetitions := s.userWord.repetitions
  dueAt := s.userWord.dueAt
  lastReviewedAt := reviewedAt
  requestedRating := call.request.rating
  effectiveRating := s.event.effectiveRating
  correct := s.event.correct
  judgementSource := s.event.judgementSource
  judgementReason := s.event.judgementReason
  matchedAnswer := s.event.matchedAnswer.getD ""
  reviewEventId := s.eventId
  suggestionAvailable :=
    suggestible unicode s.event.judgementSource s.event.correct call.request.submittedAnswer
  lessonId := call.lessonId
  lessonCurrentIndex := s.lesson.currentIndex
  lessonVersion := s.lesson.version
  lessonCompleted := s.lesson.status = .completed
  lessonReviewedItems := s.reviewedItems
  lessonSkippedItems := 0
  lessonTotalItems := s.totalItems

/-- `none` where the code reports that there is nothing to recover; a rating or a
time that is missing cannot be scanned. -/
def recovered (call : ReviewCall) : Option RecoverySnapshot → Reply (Option LessonReviewResult)
  | none => .ok none
  | some s =>
    match s.item.rating, s.item.reviewedAt with
    | some rating, some reviewedAt =>
      if rating ≠ call.request.rating || s.lesson.currentIndex ≤ s.item.position then .ok none
      else .ok (some (RecoverySnapshot.result unicode s call reviewedAt))
    | _, _ => .error .internal

/-- The parameters that the query can be given: `$4 + 1` makes an `integer` of the version. -/
def bindable (call : ReviewCall) : Bool :=
  fitsInteger (call.request.lessonVersion + 1) && call.request.submittedAnswer.all isText

def recoverCommittedLessonReview (call : ReviewCall) :
    LearningProg (Reply (Option LessonReviewResult)) := do
  if !bindable call then
    return .error .internal
  else
    let s ← query (recoverySnapshot call) fun s => [.recovered call s]
    return recovered unicode call s

/-- Rows of other keys that have run out, the first to do so first. -/
def expiredRows (u : UserId) (k : IdempotencyKey) (now : Instant) (db : LearningDb) : List Key :=
  let found := rowsWhere (idempotencyRows fun u' k' r =>
    r.expiresAt ≤ now && (u' ≠ u || k' ≠ k)) db
  let expiry : Key → Instant := fun
    | .idempotency u' k' => ((keptRow u' k' db).map IdempotencyRow.expiresAt).getD 0
    | _ => 0
  found.insertionSort fun a b => expiry a ≤ expiry b

/-- `LIMIT limit FOR UPDATE SKIP LOCKED`: the environment says which rows are
locked by somebody else. -/
def skipLocked : Nat → List Key → LearningProg (List Key)
  | _, [] => return []
  | 0, _ :: _ => return []
  | limit + 1, k :: rest => do
    let free ← choose
    if free = 0 then
      skipLocked (limit + 1) rest
    else
      let taken ← skipLocked limit rest
      return k :: taken

def sweepExpired (u : UserId) (k : IdempotencyKey) (now : Instant) : LearningProg (List Key) := do
  let seen ← select (expiredRows u k now)
  let taken ← skipLocked 8 seen
  changeEach .update
    (fun k r => if idempotencyRows (fun _ _ r => r.expiresAt ≤ now) k r then some none else none) taken

def retention : Int := 30 * 24 * hour

def keptResponse (call : ReviewCall) (response : LessonReviewResult) (now : Instant) :
    IdempotencyRow where
  requestHash := call.fingerprint
  response := response
  createdAt := micros now
  expiresAt := micros now + retention

def referenceLesson (l : LessonId) : LearningProg Bool := do
  lockRow (.lesson l) .keyShare
  select fun db => (db.lookup (.lesson l)).isSome

/-- `INSERT … ON CONFLICT DO UPDATE … WHERE expires_at <= now()`, and whether it
wrote a row. -/
def upsertKept (call : ReviewCall) (k : IdempotencyKey) (response : LessonReviewResult)
    (now : Instant) : LearningProg Bool := do
  lockRow (.idempotency call.userId k) .update
  if ← select fun db => (keptRow call.userId k db).all fun r => r.expiresAt ≤ now then
    writeRow (.idempotency call.userId k) .update (some (keptResponse call response now))
    return true
  else
    return false

def storeIdempotentLessonReview (call : ReviewCall) (k : IdempotencyKey)
    (response : LessonReviewResult) : LearningProg (Reply Unit) := do
  let now ← choose
  let swept ← sweepExpired call.userId k now
  if ← upsertKept call k response now then
    if !(← referenceLesson call.lessonId) then
      leave (.error .internal)
    else if !(← referenceWord call.wordId) then
      leave (.error .internal)
    else
      commit [.bound call response swept]
      return .ok ()
  else
    commit [.insertLost call swept]
    match ← loadIdempotentLessonReview call k (.reloaded call) with
    | .replayed stored =>
      return if stored.lessonId ≠ response.lessonId || stored.lessonVersion ≠ response.lessonVersion
        then .error .idempotencyKeyReused else .ok ()
    | .absent | .expired | .reused => return .error .idempotencyKeyReused

/-- A review that the lesson refuses may be one that it took before. -/
def reviewOrRecover (call : ReviewCall) : LearningProg (Reply LessonReviewResult) := do
  match ← reviewLessonWord unicode call with
  | .ok result => return .ok result
  | .error e =>
    if recoverableIdempotencyConflict e then
      match ← recoverCommittedLessonReview unicode call with
      | .error e' => return .error e'
      | .ok (some result) => return .ok result
      | .ok none => return .error e
    else
      return .error e

def reviewLessonWordIdempotent (call : ReviewCall) : LearningProg (Reply LessonReviewResult) := do
  match call.key with
  | none => reviewLessonWord unicode call
  | some k =>
    match ← loadIdempotentLessonReview call k (.loaded call) with
    | .replayed stored => return .ok stored
    | .reused => return .error .idempotencyKeyReused
    | .absent | .expired =>
      andThen (reviewOrRecover unicode call) fun result => do
        match ← storeIdempotentLessonReview call k result with
        | .error e => return .error e
        | .ok () => return .ok result

end LessonReviewIdempotency
