import LexiGo.Learning.DiagnosticSelection
import LexiGo.Learning.LearningService
import LexiGo.ReadCommitted.WiderSchema

/-! The diagnostic of the onboarding: the preferences of a user and the items asked
about, beside the tables of the learning loop. -/
namespace OnboardingSchema
open RowStore TransactionProgram WiderSchema Scheduler
open LearningSchema (UserId WordId UserWordRow WordRow)

inductive OnboardingState
  | notStarted
  | inProgress
  | completed
  | skipped
  deriving DecidableEq

inductive DiagnosticSelfMark
  | known
  | unsure
  | new
  deriving DecidableEq

structure PreferenceRow where
  dailyGoal : Nat := 30
  onboardingState : OnboardingState := .notStarted
  startedAt : Option Instant := none
  completedAt : Option Instant := none
  skippedAt : Option Instant := none
  deriving DecidableEq

/-- `onboarding_diagnostic_marked_at_chk`: there is a mark when there is its time. -/
structure Marking where
  selfMark : DiagnosticSelfMark
  markedAt : Instant
  deriving DecidableEq

structure DiagnosticRow where
  wordId : WordId
  marking : Option Marking := none
  deriving DecidableEq

/-- The columns of `words` that a prompt shows and the learning loop does not read. -/
structure WordFacets where
  lemmaText : String
  phonetic : String
  partOfSpeech : String
  deriving DecidableEq

/-- `onboarding` is the advisory lock of a user; it stands for no row. -/
inductive OnboardingKey
  | preferences (u : UserId)
  | diagnostic (u : UserId) (position : Nat)
  | facets (w : WordId)
  | onboarding (u : UserId)
  deriving DecidableEq

abbrev OnboardingRow : OnboardingKey → Type
  | .preferences _ => PreferenceRow
  | .diagnostic _ _ => DiagnosticRow
  | .facets _ => WordFacets
  | .onboarding _ => Unit

abbrev Key := LearningSchema.Key ⊕ OnboardingKey
abbrev Row : Key → Type := Both LearningSchema.Row OnboardingRow
abbrev OnboardingDb := Db Row

abbrev wordKey (w : WordId) : Key := .inl (.word w)
abbrev userWordKey (u : UserId) (w : WordId) : Key := .inl (.userWord u w)
abbrev preferencesKey (u : UserId) : Key := .inr (.preferences u)
abbrev diagnosticKey (u : UserId) (position : Nat) : Key := .inr (.diagnostic u position)
abbrev onboardingKey (u : UserId) : Key := .inr (.onboarding u)

def diagnosticItems (p : UserId → Nat → DiagnosticRow → Bool) : ∀ k, Row k → Bool
  | .inr (.diagnostic u position), r => p u position r
  | _, _ => false

def onItem (g : DiagnosticRow → DiagnosticRow) : ∀ k, Row k → Row k
  | .inr (.diagnostic _ _), r => g r
  | .inl _, r | .inr (.preferences _), r | .inr (.facets _), r | .inr (.onboarding _), r => r

def PreferenceRow.begin (now : Instant) (r : PreferenceRow) : PreferenceRow :=
  { r with
    onboardingState := .inProgress
    startedAt := some (micros now)
    completedAt := none
    skippedAt := none }

def PreferenceRow.complete (now : Instant) (r : PreferenceRow) : PreferenceRow :=
  { r with onboardingState := .completed, completedAt := some (micros now), skippedAt := none }

def PreferenceRow.skip (now : Instant) (r : PreferenceRow) : PreferenceRow :=
  { r with onboardingState := .skipped, skippedAt := some (micros now) }

def DiagnosticRow.mark (selfMark : DiagnosticSelfMark) (now : Instant) (r : DiagnosticRow) :
    DiagnosticRow :=
  { r with marking := some ⟨selfMark, micros now⟩ }

structure DiagnosticPrompt where
  position : Nat
  wordId : WordId
  kind : AnswerJudgement.WordKind
  lemmaText : String
  phonetic : String
  partOfSpeech : String
  topic : String
  deriving DecidableEq

structure DiagnosticReveal where
  wordId : WordId
  translation : String
  deriving DecidableEq

structure OnboardingSnapshot where
  state : OnboardingState
  total : Nat
  marked : Nat
  current : Option DiagnosticPrompt := none
  deriving DecidableEq

structure DiagnosticMarkResult where
  marked : Nat
  total : Nat
  completeReady : Bool
  reveal : DiagnosticReveal
  deriving DecidableEq

inductive OnboardingError
  | noCandidates
  | notInProgress
  | incomplete
  | itemOutOfOrder
  | internal
  deriving DecidableEq

/-- What a commit did, for the account of a run. -/
inductive Note
  | started (u : UserId) (words : List WordId)
  | startKept (u : UserId)
  | marked (u : UserId) (w : WordId) (selfMark : DiagnosticSelfMark)
  | completed (u : UserId)
  | completeKept (u : UserId)
  | skipped (u : UserId)
  | skipKept (u : UserId)
  | goalSet (u : UserId) (goal : Nat)
  | wordDeleted (u : UserId) (w : WordId)
  | learned (note : LearningSchema.Note)
  deriving DecidableEq

abbrev OnboardingProg (α : Type) := Prog Row Note α

abbrev Reply := Except OnboardingError

end OnboardingSchema
