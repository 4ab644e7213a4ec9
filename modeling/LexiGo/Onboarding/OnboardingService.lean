import LexiGo.Onboarding.OnboardingRepository
import LexiGo.Scenarios.ScenarioService

/-! The handlers of the onboarding, and the requests of the learning loop that go on
beside it. -/
namespace OnboardingService
open RowStore TransactionProgram WiderSchema GoText OnboardingSchema OnboardingRepository
open LearningSchema (UserId WordId)
open ScenarioService (HttpError)

def internalError : HttpError := ⟨500, "internal_error", "internal server error"⟩

def notInProgressError : HttpError :=
  ⟨409, "onboarding_not_in_progress", "diagnostic onboarding is not in progress"⟩

/-- The cases of the handler that starts the diagnostic. -/
def startError : OnboardingError → HttpError
  | .noCandidates =>
    ⟨422, "onboarding_no_candidates", "no learning items are available for diagnostic onboarding"⟩
  | .notInProgress | .incomplete | .itemOutOfOrder | .internal => internalError

def markError : OnboardingError → HttpError
  | .notInProgress => notInProgressError
  | .itemOutOfOrder =>
    ⟨409, "onboarding_item_out_of_order", "mark the current diagnostic item before moving forward"⟩
  | .incomplete =>
    ⟨409, "onboarding_diagnostic_complete", "all diagnostic items are already marked"⟩
  | .noCandidates | .internal => internalError

def completeError : OnboardingError → HttpError
  | .notInProgress => notInProgressError
  | .incomplete =>
    ⟨409, "onboarding_incomplete", "mark every diagnostic item before completing onboarding"⟩
  | .noCandidates | .itemOutOfOrder | .internal => internalError

def otherError (_ : OnboardingError) : HttpError := internalError

/-- `validDiagnosticSelfMark`, with the mark that the text stands for. -/
def selfMarkOf (text : String) : Option DiagnosticSelfMark :=
  if text = "known" then some .known
  else if text = "unsure" then some .unsure
  else if text = "new" then some .new
  else none

inductive Answer
  | snapshot (snapshot : OnboardingSnapshot)
  | marked (result : DiagnosticMarkResult)
  | learned (response : LearningService.Response)
  | deleted (reply : LessonRepository.Reply Unit)
  | done
  deriving DecidableEq

abbrev Response := Except HttpError Answer

def answered {α : Type} (explain : OnboardingError → HttpError) (f : α → Answer)
    (p : OnboardingProg (Reply α)) : OnboardingProg Response := do
  match ← p with
  | .ok a => return .ok (f a)
  | .error why => return .error (explain why)

inductive Op
  | status (u : UserId)
  | start (u : UserId)
  | mark (u : UserId) (wordID : Int) (selfMark : String)
  | complete (u : UserId)
  | skip (u : UserId)
  | setDailyGoal (u : UserId) (goal : Int)
  | learn (op : LearningService.LessonOp)
  | deleteCustomWord (u : UserId) (w : WordId)
  | deleteCustomPhrase (u : UserId) (w : WordId)
  deriving DecidableEq

variable (unicode : Unicode) (digest : UserId → WordId → Nat)

def marking (u : UserId) (wordID : Int) (selfMark : String) : OnboardingProg Response :=
  if wordID ≤ 0 then
    return .error ⟨400, "invalid_word_id", "learning item id must be a positive integer"⟩
  else match selfMarkOf selfMark with
    | none => return .error ⟨422, "invalid_self_mark", "mark must be known, unsure or new"⟩
    | some mark => answered markError .marked (markOnboardingItem u wordID.toNat mark)

def settingDailyGoal (u : UserId) (goal : Int) : OnboardingProg Response :=
  if goal < 5 ∨ 200 < goal then
    return .error ⟨422, "invalid_daily_goal", "dailyGoal must be between 5 and 200"⟩
  else answered otherError (fun _ => .done) (setDailyGoal u goal.toNat)

def program : Op → OnboardingProg Response
  | .status u => answered otherError .snapshot (onboardingStatus u)
  | .start u => answered startError .snapshot (startOnboarding unicode digest u)
  | .mark u wordID selfMark => marking u wordID selfMark
  | .complete u => answered completeError .snapshot (completeOnboarding u)
  | .skip u => answered otherError .snapshot (skipOnboarding u)
  | .setDailyGoal u goal => settingDailyGoal u goal
  | .learn op => do
    let response ← lift (List.map .learned) (LearningService.lessonProgram unicode op)
    return .ok (.learned response)
  | .deleteCustomWord u w => do return .ok (.deleted (← deleteCustom .word .customWordNotFound u w))
  | .deleteCustomPhrase u w => do
    return .ok (.deleted (← deleteCustom .phrase .customPhraseNotFound u w))

end OnboardingService
