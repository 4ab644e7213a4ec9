import LexiGo.Learning.LearningSchema

/-! Suggestions of learners that an answer be accepted, the words and rejected
reviews that they are about, and the moderators' requests to list and decide
them. The audit of the decisions is written and never read; it is left out. -/
namespace ModerationSchema
open RowStore TransactionProgram GoText AnswerJudgement Scheduler
open LearningSchema (UserId WordId EventId EventRow)

abbrev SuggestionId := Nat

inductive ExerciseKind
  | translation
  | cloze
  deriving DecidableEq

inductive SuggestionStatus
  | pending
  | accepted
  | rejected
  deriving DecidableEq

inductive Decision
  | accepted
  | rejected
  deriving DecidableEq

def Decision.status : Decision → SuggestionStatus
  | .accepted => .accepted
  | .rejected => .rejected

inductive Reason
  | validVariant
  | incorrect
  | duplicate
  | unsafeContent
  | irrelevant
  | insufficientContext
  deriving DecidableEq

/-- `pending` is an entry of `answer_suggestions_pending_unique_idx`: whoever adds
one holds it until the end of the transaction. It stands for no row. -/
inductive Key
  | word (w : WordId)
  | userWord (u : UserId) (w : WordId)
  | event (e : EventId)
  | suggestion (s : SuggestionId)
  | pending (u : UserId) (w : WordId) (kind : ExerciseKind) (normalizedAnswer : String)
  deriving DecidableEq

def Key.suggestionId : Key → Option SuggestionId
  | .suggestion s => some s
  | _ => none

structure WordRow extends LearningSchema.WordRow where
  headword : String
  deriving DecidableEq

def WordRow.learn (answer : String) (word : WordRow) : WordRow :=
  { word with acceptedAnswers := word.acceptedAnswers ++ [trimSpace answer] }

structure SuggestionRow where
  userId : UserId
  wordId : WordId
  reviewEventId : Option EventId
  exerciseKind : ExerciseKind
  submittedAnswer : String
  normalizedAnswer : String
  status : SuggestionStatus := .pending
  version : Nat := 1
  createdAt : Instant
  updatedAt : Instant
  decidedAt : Option Instant := none
  decidedBy : Option UserId := none
  decisionReason : Option Reason := none
  decisionComment : Option String := none
  deriving DecidableEq

abbrev Row : Key → Type
  | .word _ => WordRow
  | .userWord _ _ => Unit
  | .event _ => EventRow
  | .suggestion _ => SuggestionRow
  | .pending _ _ _ _ => Unit

abbrev ModerationDb := Db Row

/-- What a suggestion says: the part of it that a moderator decides about. -/
structure Content where
  submittedAnswer : String
  wordId : WordId
  reviewEventId : Option EventId
  deriving DecidableEq

def SuggestionRow.content (r : SuggestionRow) : Content :=
  ⟨r.submittedAnswer, r.wordId, r.reviewEventId⟩

/-- The row that an `insert` conflicts with. -/
def SuggestionRow.conflicts (row r : SuggestionRow) : Bool :=
  r.status = .pending && r.userId = row.userId && r.wordId = row.wordId &&
    r.exerciseKind = row.exerciseKind && r.normalizedAnswer = row.normalizedAnswer

/-- `on conflict … do update` -/
def SuggestionRow.resubmit (row r : SuggestionRow) : SuggestionRow :=
  { r with
    reviewEventId := row.reviewEventId
    submittedAnswer := row.submittedAnswer
    updatedAt := row.updatedAt }

/-- A decision that may be taken: only a valid variant is accepted. -/
structure DecisionRequest where
  decision : Decision
  expectedVersion : Nat
  reason : Reason
  comment : String
  fits : reason = .validVariant ↔ decision = .accepted

def SuggestionRow.undecided (r : SuggestionRow) (version : Nat) : Bool :=
  r.status = .pending && r.version = version

def SuggestionRow.settle (actor : UserId) (request : DecisionRequest) (now : Instant)
    (r : SuggestionRow) : SuggestionRow :=
  { r with
    status := request.decision.status
    version := r.version + 1
    decidedAt := some now
    decidedBy := some actor
    decisionReason := some request.reason
    decisionComment := if request.comment = "" then none else some request.comment
    updatedAt := now }

structure ItemContext where
  id : WordId
  kind : WordKind
  headword : String
  translation : String
  clozeAnswer : String
  acceptedAnswers : List String
  deriving DecidableEq

structure ReviewContext where
  id : EventId
  answerMode : AnswerMode
  rating : Rating
  effectiveRating : Rating
  correct : Bool
  judgementReason : JudgementReason
  reviewedAt : Instant
  deriving DecidableEq

structure SuggestionContext where
  id : SuggestionId
  version : Nat
  status : SuggestionStatus
  exerciseKind : ExerciseKind
  submittedAnswer : String
  normalizedAnswer : String
  createdAt : Instant
  updatedAt : Instant
  decidedAt : Option Instant
  decisionReason : Option Reason
  decisionComment : Option String
  item : ItemContext
  review : ReviewContext
  deriving DecidableEq

def SuggestionContext.content (shown : SuggestionContext) : Content :=
  ⟨shown.submittedAnswer, shown.item.id, some shown.review.id⟩

/-- What a commit did, for the account of a run. -/
inductive Note
  | reviewed (e : EventId)
  | submitted (s : SuggestionId)
  | resubmitted (s : SuggestionId) (content : Content)
  | listed (items : List SuggestionContext)
  | decided (s : SuggestionId) (version : Nat) (decision : Decision)
  deriving DecidableEq

inductive ModerationError
  | wordNotFound
  | suggestionReviewNotFound
  | suggestionKindMismatch
  | notFound
  | versionConflict
  | internal
  deriving DecidableEq

abbrev Reply := Except ModerationError
abbrev ModerationProg (α : Type) := Prog Row Note α

end ModerationSchema
