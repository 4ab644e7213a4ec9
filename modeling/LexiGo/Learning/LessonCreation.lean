import LexiGo.Learning.LessonRepository
import Mathlib.Data.List.Sort

/-! How a lesson comes to be, and how it is loaded. Creation waits for its turn
among the creations of the same user, answers a repeated tap with the lesson that
the first one made, and otherwise puts a new lesson in place of the active one. -/
namespace LessonCreation
open RowStore TransactionProgram GoText AnswerJudgement Scheduler LearningSchema LessonRepository

structure LessonCreateRequest where
  source : String
  studyMode : AnswerMode
  sessionKind : Option SessionKind := none
  lessonSize : String
  topic : String := ""
  wordIds : Option (List WordId) := none
  reviewRatio : Option Int := none
  deriving DecidableEq

structure LessonItem where
  position : Nat
  wordId : WordId
  word : WordRow
  status : WordStatus
  reason : Option SelectionReason := none
  rating : Option Rating
  reviewedAt : Option Instant
  deriving DecidableEq

structure LessonSession where
  id : LessonId
  source : String
  studyMode : AnswerMode
  sessionKind : Option SessionKind := none
  lessonSize : String
  currentIndex : Nat
  version : Nat
  status : LessonStatus
  createdAt : Instant
  updatedAt : Instant
  items : List LessonItem
  deriving DecidableEq

def validLessonState (status : LessonStatus) (currentIndex : Nat) (items : List LessonItem) : Bool :=
  !items.isEmpty && items.map LessonItem.position = List.range items.length &&
    match status with
    | .active =>
      currentIndex < items.length &&
        items.zipIdx.all fun (item, index) => item.rating.isSome = decide (index < currentIndex)
    | .completed => currentIndex = items.length && items.all fun item => item.rating.isSome
    | .discarded => currentIndex ≤ items.length

/-- The items of a lesson in the order of their positions. -/
def orderedItems (l : LessonId) (db : LearningDb) : List (WordId × ItemRow) :=
  let rows := (itemsOf l (fun _ => true) db).filterMap fun
    | .item l w => (db.lookup (.item l w)).map fun r => (w, r)
    | _ => none
  rows.insertionSort fun a b => a.2.position ≤ b.2.position

/-- The join with `words` and with the words of `u` drops what has no row there. -/
def lessonItems (u : UserId) (l : LessonId) (db : LearningDb) : List LessonItem :=
  (orderedItems l db).filterMap fun (w, item) =>
    match (db.lookup (.word w) : Option WordRow), (db.lookup (.userWord u w) : Option UserWordRow) with
    | some word, some state => some
      { position := item.position
        wordId := w
        word := word
        status := state.status
        rating := item.rating
        reviewedAt := item.reviewedAt }
    | _, _ => none

def lessonSession (u : UserId) (l : LessonId) (r : LessonRow) (db : LearningDb) : LessonSession where
  id := l
  source := r.source
  studyMode := r.studyMode
  lessonSize := r.lessonSize
  currentIndex := r.currentIndex
  version := r.version
  status := r.status
  createdAt := r.createdAt
  updatedAt := r.updatedAt
  items := lessonItems u l db

/-- What loading an active lesson makes of one snapshot. -/
def loadActive (u : UserId) (l : LessonId) (db : LearningDb) : Reply LessonSession :=
  match (db.lookup (.lesson l)).filter (LessonRow.activeOf u) with
  | none => .error .noActiveLesson
  | some r =>
    let lesson := lessonSession u l r db
    if validLessonState lesson.status lesson.currentIndex lesson.items then .ok lesson
    else .error .invalidLessonState

def LessonSession.withReasons (lesson : LessonSession)
    (rows : List (Nat × Option SelectionReason)) : Reply LessonSession :=
  if rows.all (fun (p, _) => lesson.items[p]?.any fun item => item.position = p) &&
      rows.length = lesson.items.length then
    .ok { lesson with
      items := lesson.items.map fun item => { item with reason := (rows.lookup item.position).join } }
  else .error .invalidLessonState

/-- Two more queries, each with a snapshot of its own. -/
def attachLessonSelectionReasons (lesson : LessonSession) : LearningProg (Reply LessonSession) := do
  let kind ← query (fun db => (db.lookup (.lesson lesson.id)).map LessonRow.sessionKind) fun _ => []
  match kind with
  | none => return .error .internal
  | some kind =>
    let rows ← query (fun db => (orderedItems lesson.id db).map fun (_, item) =>
      (item.position, item.selectionReason)) fun _ => []
    return { lesson with sessionKind := kind }.withReasons rows

def lessonByIdWithReasons (u : UserId) (l : LessonId) : LearningProg (Reply LessonSession) :=
  andThen (query (loadActive u l) fun _ => []) attachLessonSelectionReasons

/-- `ORDER BY updated_at DESC LIMIT 1` among the lessons that satisfy `p`. -/
def newestLesson (p : LessonId → LessonRow → Bool) (db : LearningDb) : Option LessonId :=
  let found := (rowsWhere (lessons p) db).filterMap fun
    | .lesson l => (db.lookup (.lesson l)).map fun r => (l, r.updatedAt)
    | _ => none
  ((found.insertionSort fun a b => b.2 ≤ a.2).head?).map Prod.fst

def activeLesson (u : UserId) : LearningProg (Reply LessonSession) := do
  let found ← query (newestLesson fun _ r => r.activeOf u) fun _ => []
  match found with
  | none => return .error .noActiveLesson
  | some l => lessonByIdWithReasons u l

def resolveLessonReviewRatio : Option Int → Nat
  | none => 70
  | some ratio => (min ratio 100).toNat

def lessonSizeLimit (size : String) (candidates : Nat) : Nat :=
  let limit := if size = "all" then 0 else size.toNat?.getD 0
  if limit = 0 || candidates < limit then candidates else limit

def duplicateLessonCreationWindow : Int := 10000000000

/-- The columns of a lesson that a repeated creation has to match. -/
def repeats (u : UserId) (request : LessonCreateRequest) (now : Instant) (r : LessonRow) : Bool :=
  r.activeOf u && r.source = request.source && r.studyMode = request.studyMode &&
    r.lessonSize = request.lessonSize && now - duplicateLessonCreationWindow ≤ r.createdAt &&
    r.reviewRatio = resolveLessonReviewRatio request.reviewRatio &&
    r.sessionKind = request.sessionKind

/-- The items of a lesson that a repeated creation has to match. -/
def repeatsItems (request : LessonCreateRequest) (db : LearningDb) (l : LessonId) : Bool :=
  let topic := trimSpace request.topic
  let words := (orderedItems l db).map Prod.fst
  (topic = "" || words.all fun w => (db.lookup (.word w)).all fun word => word.topic = topic) &&
    request.wordIds.all fun ids => words = ids

def matchingRecentActiveLesson (u : UserId) (request : LessonCreateRequest) (now : Instant) :
    LearningProg (Option LessonId) := do
  let found ← select fun db =>
    newestLesson (fun l r => repeats u request now r && repeatsItems request db l) db
  match found with
  | none => return none
  | some l =>
    lockRow (.lesson l) .update
    if ← select fun db => (db.lookup (.lesson l)).any (repeats u request now) then return some l
    else return none

/-- The words that `u` has, as far as they are still in the catalogue. -/
def candidateWords (u : UserId) (db : LearningDb) : List WordId :=
  (rowsWhere (userWords fun u' w _ => u' = u && (db.lookup (.word w)).isSome) db).filterMap fun
    | .userWord _ w => some w
    | _ => none

def selectionReasons : List SelectionReason :=
  [.recentFailure, .due, .overdue, .relearningDue, .repeatedAgain, .repeatedAlmost, .weakTopic,
    .new, .scheduled]

abbrev Selection := List (WordId × SelectionReason)

/-- The environment stands in for the composer: it picks candidates one after the
other, each with a reason, until it names one that is not there. -/
def composeLessonCandidates : Nat → List WordId → LearningProg Selection
  | 0, _ => return []
  | limit + 1, candidates => do
    let n ← choose
    let why ← choose
    match candidates[n]?, selectionReasons[why]? with
    | some w, some reason =>
      let rest ← composeLessonCandidates limit (candidates.erase w)
      return (w, reason) :: rest
    | _, _ => return []

def lessonWords (u : UserId) (request : LessonCreateRequest) : LearningProg (Reply Selection) := do
  match request.wordIds with
  | none =>
    let candidates ← select (candidateWords u)
    let selected ← composeLessonCandidates (lessonSizeLimit request.lessonSize candidates.length)
      candidates
    return if selected.isEmpty then .error .lessonQueueEmpty else .ok selected
  | some ids =>
    -- `count(*)` of the rows whose word is one of `ids`
    let assigned ← select fun db =>
      (ids.dedup.filter fun w => (db.lookup (.userWord u w)).isSome).length
    return if assigned ≠ ids.length then .error .invalidLessonWords
      else .ok (ids.map fun w => (w, .manual))

/-- `UPDATE lesson_sessions … WHERE user_id = u AND status = 'active'` -/
def discardActive (u : UserId) (now : Instant) : LearningProg Unit := do
  let seen ← select (rowsWhere (lessons fun _ r => r.activeOf u))
  let _ ← updateRows .noKeyUpdate (lessons fun _ r => r.activeOf u) (onLesson (LessonRow.discard now))
    seen

def newLesson (u : UserId) (request : LessonCreateRequest) (now : Instant) : LessonRow where
  userId := u
  source := request.source
  studyMode := request.studyMode
  lessonSize := request.lessonSize
  reviewRatio := resolveLessonReviewRatio request.reviewRatio
  sessionKind := request.sessionKind
  createdAt := micros now
  updatedAt := micros now

/-- `lesson_sessions_lesson_size_chk` -/
def storableSizes : List String := ["15", "30", "60", "all"]

/-- `lesson_sessions_source_chk` -/
def storableSources : List String :=
  ["mixed", "noun", "verb", "adjective", "phrases", "daily-life", "travel", "data-engineering",
    "backend", "academic-technical-english"]

/-- The row, if its columns pass their checks, and its entry in the partial unique
index on active lessons. -/
def insertLesson (l : LessonId) (r : LessonRow) : LearningProg Bool := do
  if r.lessonSize ∉ storableSizes || r.source ∉ storableSources then return false
  lockRow (.activeLesson r.userId) .update
  if ← select fun db => (rowsWhere (lessons fun _ r' => r'.activeOf r.userId) db).isEmpty then
    insertRow (.lesson l) r
  else
    return false

/-- The rows of the items, in order from `position` on. -/
def insertItems (l : LessonId) : Nat → Selection → LearningProg Bool
  | _, [] => return true
  | position, (w, reason) :: rest => do
    let row : ItemRow := { position := position, selectionReason := some reason }
    if ← insertRow (.item l w) row then insertItems l (position + 1) rest
    else return false

/-- The foreign keys of the items, checked when all of them are in place. -/
def referenceWords : List WordId → LearningProg Bool
  | [] => return true
  | w :: rest => do
    if ← referenceWord w then referenceWords rest
    else return false

def createProgressiveLesson (u : UserId) (request : LessonCreateRequest) :
    LearningProg (Reply LessonSession) := do
  let dbNow ← choose
  lockRow (.lessonCreation u) .update
  match ← matchingRecentActiveLesson u request dbNow with
  | some l =>
    commit [.lessonResumed u l]
    lessonByIdWithReasons u l
  | none =>
    match ← lessonWords u request with
    | .error e => leave (.error e)
    | .ok selected =>
      discardActive u dbNow
      let l ← choose
      if !(← insertLesson l (newLesson u request dbNow)) then
        leave (.error .internal)
      else if !(← insertItems l 0 selected) then
        leave (.error .internal)
      else if !(← referenceWords (selected.map Prod.fst)) then
        leave (.error .internal)
      else
        commit [.lessonCreated u l (selected.map Prod.fst)]
        lessonByIdWithReasons u l

/-- The handler lets through at most sixty words, none of them twice. -/
def createLesson (u : UserId) (request : LessonCreateRequest) : LearningProg (Reply LessonSession) :=
  if request.wordIds.any fun ids => ids.isEmpty || 60 < ids.length || !ids.Nodup || 0 ∈ ids then
    return .error .invalidWordIds
  else createProgressiveLesson u request

end LessonCreation
