import LexiGo.Moderation.ModerationSchema
import Mathlib.Data.List.Infix
import Mathlib.Data.List.Sort

/-! Suggesting an answer, listing the suggestions and deciding one of them,
statement by statement. -/
namespace ModerationRepository
open RowStore TransactionProgram GoText AnswerJudgement Scheduler ModerationSchema
open LearningSchema (UserId WordId EventId EventRow)

variable (unicode : Unicode) (lower : String → String)

def wordAt (w : WordId) (db : ModerationDb) : Option WordRow := db.lookup (.word w)

def eventAt (e : EventId) (db : ModerationDb) : Option EventRow := db.lookup (.event e)

def suggestionAt (s : SuggestionId) (db : ModerationDb) : Option SuggestionRow :=
  db.lookup (.suggestion s)

/-- What a review leaves behind for the suggestions: its event. -/
def recordReview (event : EventRow) : ModerationProg (Reply EventId) := do
  let e ← choose
  if !(← insertRow (Key.event e) event) then
    leave (.error .internal)
  else
    commit [.reviewed e]
    return .ok e

structure SuggestionRequest where
  reviewEventId : EventId
  exerciseKind : ExerciseKind
  submittedAnswer : String
  deriving DecidableEq

structure AnswerSuggestion where
  id : SuggestionId
  wordId : WordId
  reviewEventId : EventId
  exerciseKind : ExerciseKind
  submittedAnswer : String
  status : SuggestionStatus
  createdAt : Instant
  deriving DecidableEq

def expectedExerciseKind : WordKind → ExerciseKind
  | .phrase => .cloze
  | .word => .translation

def assignedKind (u : UserId) (w : WordId) (db : ModerationDb) : Option WordKind :=
  if (db.lookup (.userWord u w)).isSome then (wordAt w db).map fun r => r.kind else none

/-- The answer of a review that the server has rejected; `some none` is a null. -/
def rejectedAnswer (u : UserId) (w : WordId) (e : EventId) (db : ModerationDb) :
    Option (Option String) :=
  ((eventAt e db).filter fun r => r.userId = u && r.wordId = w && r.correct = some false &&
    r.judgementSource = .server).map EventRow.submittedAnswer

def suggestions (p : SuggestionRow → Bool) : ∀ k, Row k → Bool
  | .suggestion _, r => p r
  | .word _, _ | .userWord _ _, _ | .event _, _ | .pending _ _ _ _, _ => false

def conflicting (row : SuggestionRow) (db : ModerationDb) : Option SuggestionId :=
  (rowsWhere (suggestions row.conflicts) db).head?.bind Key.suggestionId

/-- The references that a new row is checked for. -/
def referenceEvent : Option EventId → ModerationProg Bool
  | none => return true
  | some e => do
    let found ← selectFor (Key.event e) .keyShare fun _ => true
    return found.isSome

def insertSuggestion (row : SuggestionRow) : ModerationProg (Option (SuggestionId × SuggestionRow)) := do
  let s ← choose
  if !(← insertRow (Key.suggestion s) row) then
    return none
  else
    let some _ ← selectFor (Key.word row.wordId) .keyShare fun _ => true | return none
    if !(← referenceEvent row.reviewEventId) then
      return none
    else
      return some (s, row)

def resubmitted (s : SuggestionId) (row : SuggestionRow) :
    ModerationProg (Option SuggestionRow) :=
  updateRow (Key.suggestion s) .noKeyUpdate row.conflicts row.resubmit

/-- A row that stops being pending while the statement waits for it is no
conflict any more. -/
def upsertSuggestion (row : SuggestionRow) :
    ModerationProg (Option (SuggestionId × SuggestionRow × Note)) := do
  lockRow (.pending row.userId row.wordId row.exerciseKind row.normalizedAnswer) .update
  let insert := do
    let some (s, inserted) ← insertSuggestion row | return none
    return some (s, inserted, .submitted s)
  let some s ← select (conflicting row) | insert
  let some before ← resubmitted s row | insert
  if !(← referenceEvent row.reviewEventId) then
    return none
  else
    return some (s, row.resubmit before, .resubmitted s row.content)

def newSuggestion (u : UserId) (w : WordId) (request : SuggestionRequest) (normalized : String)
    (now : Instant) : SuggestionRow where
  userId := u
  wordId := w
  reviewEventId := some request.reviewEventId
  exerciseKind := request.exerciseKind
  submittedAnswer := trimSpace request.submittedAnswer
  normalizedAnswer := normalized
  createdAt := now
  updatedAt := now

def submitAnswerSuggestion (u : UserId) (w : WordId) (request : SuggestionRequest) :
    ModerationProg (Reply AnswerSuggestion) := do
  let normalized := normalizeSubmittedAnswer unicode request.submittedAnswer
  if normalized = "" then
    return .error .suggestionReviewNotFound
  else
    let some kind ← select (assignedKind u w) | leave (.error .wordNotFound)
    if expectedExerciseKind kind ≠ request.exerciseKind then
      leave (.error .suggestionKindMismatch)
    else
      let some rejected ← select (rejectedAnswer u w request.reviewEventId)
        | leave (.error .suggestionReviewNotFound)
      if rejected.map (normalizeSubmittedAnswer unicode) ≠ some normalized then
        leave (.error .suggestionReviewNotFound)
      else
        let now ← choose
        let some (s, r, note) ← upsertSuggestion (newSuggestion u w request normalized now)
          | leave (.error .internal)
        commit [note]
        return .ok ⟨s, r.wordId, request.reviewEventId, r.exerciseKind, r.submittedAnswer,
          r.status, r.createdAt⟩

structure Cursor where
  createdAt : Instant
  id : SuggestionId
  deriving DecidableEq

structure ListFilter where
  status : SuggestionStatus
  exerciseKind : Option ExerciseKind
  itemQuery : String
  createdBefore : Option Instant
  limit : Nat
  cursor : Option Cursor
  deriving DecidableEq

structure ListResponse where
  items : List SuggestionContext
  nextCursor : Option Cursor := none
  deriving DecidableEq

/-- `position(needle in text) > 0` -/
def contains (needle text : String) : Bool := needle.toList <:+: text.toList

def ListFilter.admits (filter : ListFilter) (s : SuggestionId) (r : SuggestionRow)
    (word : WordRow) : Bool :=
  r.status = filter.status &&
    filter.exerciseKind.all (fun kind => r.exerciseKind = kind) &&
    (filter.itemQuery = "" || contains (lower filter.itemQuery) (lower word.headword) ||
      contains (lower filter.itemQuery) (lower word.translation)) &&
    filter.createdBefore.all (fun before => r.createdAt < before) &&
    filter.cursor.all fun cursor =>
      cursor.createdAt < r.createdAt || (cursor.createdAt = r.createdAt && cursor.id < s)

/-- `none` if a column that the code reads into a plain variable is null. -/
def scanSuggestion (s : SuggestionId) (r : SuggestionRow) (word : WordRow) (e : EventId)
    (event : EventRow) : Option SuggestionContext :=
  event.correct.map fun correct =>
    { id := s
      version := r.version
      status := r.status
      exerciseKind := r.exerciseKind
      submittedAnswer := r.submittedAnswer
      normalizedAnswer := r.normalizedAnswer
      createdAt := r.createdAt
      updatedAt := r.updatedAt
      decidedAt := r.decidedAt
      decisionReason := r.decisionReason
      decisionComment := r.decisionComment
      item := ⟨r.wordId, word.kind, word.headword, word.translation, word.clozeAnswer,
        word.acceptedAnswers⟩
      review := ⟨e, event.answerMode, event.rating, event.effectiveRating, correct,
        event.judgementReason, event.reviewedAt⟩ }

/-- A row of the join, if the filter admits it. -/
def joined (filter : ListFilter) (db : ModerationDb) (s : SuggestionId) :
    Option (Option SuggestionContext) := do
  let r ← suggestionAt s db
  let word ← wordAt r.wordId db
  let e ← r.reviewEventId
  let event ← eventAt e db
  if filter.admits lower s r word then some (scanSuggestion s r word e event) else none

def earlier (a b : SuggestionContext) : Bool :=
  a.createdAt < b.createdAt || (a.createdAt = b.createdAt && a.id ≤ b.id)

/-- The rows that the query returns; it fails if one of them cannot be read. -/
def listedItems (filter : ListFilter) (db : ModerationDb) : Option (List SuggestionContext) :=
  let found := (db.keys.filterMap Key.suggestionId).filterMap (joined lower filter db)
  (found.mapM id).map fun items =>
    (items.insertionSort (earlier · ·)).take (filter.limit + 1)

def page (filter : ListFilter) (items : List SuggestionContext) : ListResponse :=
  if filter.limit < items.length then
    ⟨items.take filter.limit,
      (items[filter.limit - 1]?).map fun last => ⟨last.createdAt, last.id⟩⟩
  else ⟨items, none⟩

def list (filter : ListFilter) : ModerationProg (Reply ListResponse) := do
  match ← query (listedItems lower filter) fun items => [.listed (items.getD [])] with
  | some items => return .ok (page filter items)
  | none => return .error .internal

structure DecisionResult where
  id : SuggestionId
  status : SuggestionStatus
  version : Nat
  decisionReason : Reason
  decisionComment : String
  decidedAt : Instant
  answerAdded : Bool
  deriving DecidableEq

def suggestionOf (s : SuggestionId) (db : ModerationDb) : Option (SuggestionRow × WordRow) := do
  let r ← suggestionAt s db
  let word ← wordAt r.wordId db
  return (r, word)

/-- `FOR UPDATE OF suggestion, word`: both rows are read again once they are locked. -/
def lockDecision (s : SuggestionId) : ModerationProg (Option (SuggestionRow × WordRow)) := do
  let some (seen, _) ← select (suggestionOf s) | return none
  lockRow (.suggestion s) .update
  lockRow (.word seen.wordId) .update
  select fun db => (suggestionOf s db).filter fun found => found.1.wordId = seen.wordId

def accepts (word : WordRow) (answer : String) : Bool :=
  (judgeSubmittedAnswer unicode word.definition answer).1

/-- The judge has to be taught only what it does not accept yet. -/
def teaches (request : DecisionRequest) (r : SuggestionRow) (word : WordRow) : Bool :=
  request.decision = .accepted && !accepts unicode word r.submittedAnswer

def teach (request : DecisionRequest) (r : SuggestionRow) (word : WordRow) :
    ModerationProg Unit := do
  if teaches unicode request r word then
    let _ ← updateRow (Key.word r.wordId) .noKeyUpdate (fun _ => true)
      (WordRow.learn r.submittedAnswer)

def settle (actor : UserId) (s : SuggestionId) (request : DecisionRequest) (now : Instant) :
    ModerationProg (Option SuggestionRow) :=
  updateRow (Key.suggestion s) .noKeyUpdate (fun r => r.undecided request.expectedVersion)
    (SuggestionRow.settle actor request now)

def decide (actor : UserId) (s : SuggestionId) (request : DecisionRequest) :
    ModerationProg (Reply DecisionResult) := do
  let some (r, word) ← lockDecision s | leave (.error .notFound)
  if !r.undecided request.expectedVersion then
    leave (.error .versionConflict)
  else
    teach unicode request r word
    let now ← choose
    let some before ← settle actor s request now | leave (.error .internal)
    commit [.decided s request.expectedVersion request.decision]
    return .ok ⟨s, request.decision.status, before.version + 1, request.reason, request.comment,
      now, teaches unicode request r word⟩

end ModerationRepository
