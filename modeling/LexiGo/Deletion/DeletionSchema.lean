import LexiGo.Relational.ReferentialActions
import LexiGo.Learning.CustomWords

/-! The tables whose rows refer, directly or not, to a user or to a word, with
their foreign keys in the order in which the migrations create them, and the
statements that delete an account or a custom word. Columns that neither a
foreign key, nor a constraint on a column that one clears, nor a condition of
these statements reads are left out. -/
namespace DeletionSchema
open RowStore ReferentialActions AnswerJudgement Scheduler
open LearningSchema (UserId WordId EventId LessonId IdempotencyKey LessonStatus)

abbrev AttemptId := Nat
abbrev SuggestionId := Nat

inductive Key
  | user (u : UserId)
  | word (w : WordId)
  | refreshToken (n : Nat)
  | userWord (u : UserId) (w : WordId)
  | event (e : EventId)
  | preferences (u : UserId)
  | lesson (l : LessonId)
  | item (l : LessonId) (position : Nat)
  | passwordResetToken (n : Nat)
  | auditEvent (n : Nat)
  | idempotency (u : UserId) (k : IdempotencyKey)
  | emailChangeToken (n : Nat)
  | attempt (a : AttemptId)
  | step (a : AttemptId) (position : Nat)
  | suggestion (s : SuggestionId)
  | suggestionAudit (n : Nat)
  | onboardingItem (u : UserId) (position : Nat)
  | resultAction (n : Nat)
  deriving DecidableEq

structure UserRow where
  passwordHash : String
  deriving DecidableEq

structure WordRow where
  owner : Option UserId := none
  kind : WordKind := .word
  source : String
  deriving DecidableEq

/-- A row that only says whose it is. -/
structure OwnedRow where
  userId : UserId
  deriving DecidableEq

structure EventRow where
  userId : UserId
  wordId : WordId
  deriving DecidableEq

structure LessonRow where
  userId : UserId
  status : LessonStatus := .active
  version : Nat := 1
  updatedAt : Instant
  deriving DecidableEq

structure IdempotencyRow where
  lessonId : LessonId
  wordId : WordId
  deriving DecidableEq

inductive StepStatus
  | processing
  | accepted
  deriving DecidableEq

structure StepRow where
  status : StepStatus
  reviewEventId : Option EventId
  reviewResponse : Option String
  acceptedAt : Option Instant
  deriving DecidableEq

/-- `scenario_attempt_steps_review_chk` -/
def StepRow.reviewChk (r : StepRow) : Bool :=
  (r.status = .processing && r.reviewEventId.isNone && r.reviewResponse.isNone &&
    r.acceptedAt.isNone) ||
  (r.status = .accepted && r.reviewEventId.isSome && r.reviewResponse.isSome && r.acceptedAt.isSome)

structure SuggestionRow where
  userId : UserId
  wordId : WordId
  reviewEventId : Option EventId
  deriving DecidableEq

/-- A saved result action names its lesson together with the user of the lesson. -/
abbrev Row : Key → Type
  | .user _ => UserRow
  | .word _ => WordRow
  | .refreshToken _ | .passwordResetToken _ | .auditEvent _ | .emailChangeToken _ => OwnedRow
  | .userWord _ _ | .preferences _ => Unit
  | .event _ => EventRow
  | .lesson _ => LessonRow
  | .item _ _ | .onboardingItem _ _ => WordId
  | .idempotency _ _ => IdempotencyRow
  | .attempt _ => OwnedRow
  | .step _ _ => StepRow
  | .suggestion _ => SuggestionRow
  | .suggestionAudit _ => SuggestionId
  | .resultAction _ => LessonId

abbrev DeletionDb := Db Row

inductive Reference
  | refreshTokensUser
  | userWordsUser
  | userWordsWord
  | reviewEventsUser
  | reviewEventsWord
  | preferencesUser
  | lessonsUser
  | lessonItemsLesson
  | lessonItemsWord
  | passwordResetTokensUser
  | auditEventsUser
  | idempotencyUser
  | idempotencyLesson
  | idempotencyWord
  | emailChangeTokensUser
  | attemptsUser
  | attemptStepsAttempt
  | attemptStepsReviewEvent
  | suggestionsUser
  | suggestionsWord
  | suggestionsReviewEvent
  | suggestionAuditSuggestion
  | onboardingItemsUser
  | onboardingItemsWord
  | resultActionsLesson
  | wordsOwner
  deriving DecidableEq

namespace Reference

def target : Reference → ∀ k, Row k → Option Key
  | refreshTokensUser, .refreshToken _, r => some (.user r.userId)
  | userWordsUser, .userWord u _, _ => some (.user u)
  | userWordsWord, .userWord _ w, _ => some (.word w)
  | reviewEventsUser, .event _, r => some (.user r.userId)
  | reviewEventsWord, .event _, r => some (.word r.wordId)
  | preferencesUser, .preferences u, _ => some (.user u)
  | lessonsUser, .lesson _, r => some (.user r.userId)
  | lessonItemsLesson, .item l _, _ => some (.lesson l)
  | lessonItemsWord, .item _ _, w => some (.word w)
  | passwordResetTokensUser, .passwordResetToken _, r => some (.user r.userId)
  | auditEventsUser, .auditEvent _, r => some (.user r.userId)
  | idempotencyUser, .idempotency u _, _ => some (.user u)
  | idempotencyLesson, .idempotency _ _, r => some (.lesson r.lessonId)
  | idempotencyWord, .idempotency _ _, r => some (.word r.wordId)
  | emailChangeTokensUser, .emailChangeToken _, r => some (.user r.userId)
  | attemptsUser, .attempt _, r => some (.user r.userId)
  | attemptStepsAttempt, .step a _, _ => some (.attempt a)
  | attemptStepsReviewEvent, .step _ _, r => r.reviewEventId.map .event
  | suggestionsUser, .suggestion _, r => some (.user r.userId)
  | suggestionsWord, .suggestion _, r => some (.word r.wordId)
  | suggestionsReviewEvent, .suggestion _, r => r.reviewEventId.map .event
  | suggestionAuditSuggestion, .suggestionAudit _, s => some (.suggestion s)
  | onboardingItemsUser, .onboardingItem u _, _ => some (.user u)
  | onboardingItemsWord, .onboardingItem _ _, w => some (.word w)
  | resultActionsLesson, .resultAction _, l => some (.lesson l)
  | wordsOwner, .word _, r => r.owner.map .user
  | _, _, _ => none

/-- `set review_event_id = null` -/
def clearReviewEvent : ∀ k, Row k → Row k
  | .step _ _, r => { r with reviewEventId := none }
  | .suggestion _, r => { r with reviewEventId := none }
  | _, r => r

def onDelete : Reference → OnDelete Row
  | attemptStepsReviewEvent | suggestionsReviewEvent => .setNull clearReviewEvent
  | _ => .cascade

def foreignKey (c : Reference) : ForeignKey Row := ⟨c.target, c.onDelete⟩

/-- In the order of their creation. -/
def all : List Reference :=
  [.refreshTokensUser, .userWordsUser, .userWordsWord, .reviewEventsUser, .reviewEventsWord,
    .preferencesUser, .lessonsUser, .lessonItemsLesson, .lessonItemsWord, .passwordResetTokensUser,
    .auditEventsUser, .idempotencyUser, .idempotencyLesson, .idempotencyWord,
    .emailChangeTokensUser, .attemptsUser, .attemptStepsAttempt, .attemptStepsReviewEvent,
    .suggestionsUser, .suggestionsWord, .suggestionsReviewEvent, .suggestionAuditSuggestion,
    .onboardingItemsUser, .onboardingItemsWord, .resultActionsLesson, .wordsOwner]

end Reference

def foreignKeys : List (ForeignKey Row) := Reference.all.map Reference.foreignKey

/-- `words_private_scope_chk`, and the constraint on the steps of an attempt. -/
def check : ∀ k, Row k → Bool
  | .word _, r => r.owner.isNone || r.source = CustomWords.customWordSource
  | .step _ _, r => r.reviewChk
  | _, _ => true

theorem mem_foreignKeys {fk : ForeignKey Row} (h : fk ∈ foreignKeys) :
    ∃ c : Reference, fk = c.foreignKey := by
  obtain ⟨c, -, rfl⟩ := List.mem_map.1 h
  exact ⟨c, rfl⟩

theorem Reference.onDelete_setNull {c : Reference} {clear : ∀ k, Row k → Row k}
    (h : c.onDelete = .setNull clear) :
    (c = .attemptStepsReviewEvent ∨ c = .suggestionsReviewEvent) ∧ clear = clearReviewEvent := by
  cases c <;> simp_all [Reference.onDelete]

def schema : Schema Row where
  foreignKeys := foreignKeys
  check := check
  clears_own fk hfk clear hclear k r := by
    obtain ⟨c, rfl⟩ := mem_foreignKeys hfk
    obtain ⟨rfl | rfl, rfl⟩ := Reference.onDelete_setNull hclear <;> cases k <;> rfl
  clears_only fk hfk clear hclear fk' hfk' k r key htarget := by
    obtain ⟨c, rfl⟩ := mem_foreignKeys hfk
    obtain ⟨c', rfl⟩ := mem_foreignKeys hfk'
    obtain ⟨-, rfl⟩ := Reference.onDelete_setNull hclear
    cases k with
    | step a position => cases c' <;> first | exact htarget | cases htarget
    | suggestion s => cases c' <;> first | exact htarget | cases htarget
    | _ => exact htarget

/-- `status = 'discarded', version = version + 1, updated_at = now()` -/
def LessonRow.discard (now : Instant) (r : LessonRow) : LessonRow :=
  { r with status := .discarded, version := r.version + 1, updatedAt := micros now }

section Statements
variable (u : UserId) (w : WordId) (now : Instant) (db : DeletionDb)

/-- A statement that fails leaves the rows as they were. -/
def executed {ε : Type} (failed : ε) : Option DeletionDb → Except ε DeletionDb
  | none => .error failed
  | some db => .ok db

inductive AccountError
  | accountChanged
  | internal
  deriving DecidableEq

def delete (expectedPasswordHash : String) : Except AccountError DeletionDb :=
  match (db.lookup (.user u) : Option UserRow) with
  | none => .error .accountChanged
  | some row =>
    if row.passwordHash = expectedPasswordHash then
      executed .internal (deleteRow schema (.user u) db)
    else .error .accountChanged

def usesWord : ∀ k, Row k → Bool
  | .lesson l, r => r.userId = u && r.status = .active &&
      !(rowsWhere (fun k w' => match k, w' with
        | .item l' _, w' => l' = l && w' = w
        | _, _ => false) db).isEmpty
  | _, _ => false

def discard (now : Instant) : ∀ k, Row k → Option (Row k)
  | .lesson _, r => some (r.discard now)
  | _, r => some r

def discardUsing : DeletionDb := amend (discard now) (rowsWhere (usesWord u w db) db) db

inductive CustomWordError
  | customWordNotFound
  | internal
  deriving DecidableEq

def isCustomWord (r : WordRow) : Bool :=
  r.owner = some u && r.kind = .word && r.source = CustomWords.customWordSource

def deleteCustomWord : Except CustomWordError DeletionDb :=
  let discarded := discardUsing u w now db
  match (discarded.lookup (.word w) : Option WordRow) with
  | none => .error .customWordNotFound
  | some row =>
    if isCustomWord u row then executed .internal (deleteRow schema (.word w) discarded)
    else .error .customWordNotFound

end Statements

end DeletionSchema
