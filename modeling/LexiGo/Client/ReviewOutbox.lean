import LexiGo.JsonValue
import LexiGo.Learning.LearningSchema

/-! The outbox of the client: the reviews that it takes into its keeping before they
are sent, and the pass that sends what is still pending. -/
namespace ReviewOutbox
open JsonValue AnswerJudgement
open LearningSchema (UserId WordId LessonId IdempotencyKey)

inductive LessonReviewAnswerMode
  | study
  | recall
  | choice
  deriving DecidableEq

structure LessonReviewPayload where
  lessonVersion : Int
  rating : Rating
  responseMs : Option Int := none
  answerMode : LessonReviewAnswerMode
  submittedAnswer : Option String := none
  correct : Option Bool := none
  answerRevealed : Option Bool := none
  timezoneOffsetMinutes : Int
  deriving DecidableEq

def ratingOf : String → Option Rating
  | "again" => some .again
  | "almost" => some .almost
  | "known" => some .known
  | _ => none

def answerModeOf : String → Option LessonReviewAnswerMode
  | "study" => some .study
  | "recall" => some .recall
  | "choice" => some .choice
  | _ => none

def maxSubmittedAnswerCharacters : Nat := 500

def parseLessonReviewPayload : Json → Option LessonReviewPayload
  | .object members => do
    let lessonVersion ← (member "lessonVersion" members).bind safeInteger
    guard (0 < lessonVersion)
    let rating ← ((member "rating" members).bind text).bind ratingOf
    let answerMode ← ((member "answerMode" members).bind text).bind answerModeOf
    let timezoneOffsetMinutes ← (member "timezoneOffsetMinutes" members).bind safeInteger
    let responseMs ← optional (fun v => (safeInteger v).filter fun n => 0 ≤ n)
      (member "responseMs" members)
    let submittedAnswer ← optional
      (fun v => (text v).filter fun s => s.length ≤ maxSubmittedAnswerCharacters)
      (member "submittedAnswer" members)
    let correct ← optional boolean (member "correct" members)
    let answerRevealed ← optional boolean (member "answerRevealed" members)
    guard (answerMode = .study → submittedAnswer = none ∧ correct = none)
    guard (submittedAnswer = none ∨ correct = none)
    return { lessonVersion, rating, responseMs, answerMode, submittedAnswer, correct,
             answerRevealed, timezoneOffsetMinutes }
  | _ => none

def ratingText : Rating → String
  | .again => "again"
  | .almost => "almost"
  | .known => "known"

def answerModeText : LessonReviewAnswerMode → String
  | .study => "study"
  | .recall => "recall"
  | .choice => "choice"

/-- `JSON.stringify`: fields that are undefined are left out. -/
def LessonReviewPayload.stringify (p : LessonReviewPayload) : Json :=
  .object
    ([("lessonVersion", .integer p.lessonVersion), ("rating", .string (ratingText p.rating))] ++
      (p.responseMs.toList.map fun n => ("responseMs", .integer n)) ++
      [("answerMode", .string (answerModeText p.answerMode))] ++
      (p.submittedAnswer.toList.map fun s => ("submittedAnswer", .string s)) ++
      (p.correct.toList.map fun b => ("correct", .bool b)) ++
      (p.answerRevealed.toList.map fun b => ("answerRevealed", .bool b)) ++
      [("timezoneOffsetMinutes", .integer p.timezoneOffsetMinutes)])

inductive ReviewResponseDisposition
  | synced
  | retry
  | failed
  | refreshSession
  deriving DecidableEq

def reviewResponseDisposition (status : Nat) : ReviewResponseDisposition :=
  if 200 ≤ status ∧ status < 300 then .synced
  else if status = 401 then .refreshSession
  else if status = 408 ∨ status = 425 ∨ status = 429 ∨ 500 ≤ status then .retry
  else .failed

inductive ReviewOutboxState
  | pending
  | failed
  | synced
  deriving DecidableEq

structure ReviewOutboxRecord where
  idempotencyKey : IdempotencyKey
  userId : UserId
  lessonId : LessonId
  wordId : WordId
  lessonVersion : Int
  requestBody : Json
  status : ReviewOutboxState := .pending
  attempts : Nat := 0

def ReviewOutboxRecord.tried (r : ReviewOutboxRecord) (status : ReviewOutboxState) :
    ReviewOutboxRecord :=
  { r with status := status, attempts := r.attempts + 1 }

structure Session where
  userId : UserId
  accessToken : Nat
  deriving DecidableEq

/-- The server behind the network: a request may find no way to it. -/
structure Remote (σ : Type) where
  send : ReviewOutboxRecord → Session → σ → Option Nat × σ
  refreshSession : σ → Option Session × σ

/-- How the sending of one record ends, the session being refreshed at most once. -/
inductive Sent
  | aborted
  | refreshFailed
  | otherUser
  | answered (status : Nat) (session : Session)

variable {σ : Type} (remote : Remote σ)

def sendRecord (r : ReviewOutboxRecord) (session : Session) (s : σ) : Sent × σ :=
  match remote.send r session s with
  | (none, s) => (.aborted, s)
  | (some status, s) =>
    if status ≠ 401 then (.answered status session, s)
    else match remote.refreshSession s with
      | (none, s) => (.refreshFailed, s)
      | (some session, s) =>
        if session.userId ≠ r.userId then (.otherUser, s)
        else match remote.send r session s with
          | (none, s) => (.refreshFailed, s)
          | (some status, s) => (.answered status session, s)

/-- One pass over the records of a user, the oldest first. -/
def syncPendingReviews : Session → List ReviewOutboxRecord → σ → List ReviewOutboxRecord × σ
  | _, [], s => ([], s)
  | session, r :: rest, s =>
    if r.status ≠ .pending then
      let (rest, s) := syncPendingReviews session rest s
      (r :: rest, s)
    else match sendRecord remote r session s with
      | (.aborted, s) | (.otherUser, s) => (r :: rest, s)
      | (.refreshFailed, s) => (r.tried .pending :: rest, s)
      | (.answered status session, s) =>
        match reviewResponseDisposition status with
        | .synced =>
          let (rest, s) := syncPendingReviews session rest s
          (r.tried .synced :: rest, s)
        | .failed => (r.tried .failed :: rest, s)
        | .retry | .refreshSession => (r.tried .pending :: rest, s)

def passes (session : Session) : Nat → List ReviewOutboxRecord → σ → List ReviewOutboxRecord × σ
  | 0, records, s => (records, s)
  | n + 1, records, s =>
    let (records, s) := syncPendingReviews remote session records s
    passes session n records s

/-- Where the server would have a record tried again each time, nothing behind the
record is ever sent. -/
theorem passes_blocked {session : Session} {r : ReviewOutboxRecord} {s : σ}
    (hpending : r.status = .pending)
    (hretry : ∀ attempts, ∃ status, remote.send { r with attempts := attempts } session s =
      (some status, s) ∧ reviewResponseDisposition status = .retry)
    (rest : List ReviewOutboxRecord) (n : Nat) :
    passes remote session n (r :: rest) s = ({ r with attempts := r.attempts + n } :: rest, s) := by
  induction n generalizing r with
  | zero => rfl
  | succ n ih =>
    obtain ⟨status, hsend, hdisposition⟩ := hretry r.attempts
    have hne : status ≠ 401 := by
      rintro rfl
      cases hdisposition
    have hpass : syncPendingReviews remote session (r :: rest) s = (r.tried .pending :: rest, s) := by
      have hsend : remote.send r session s = (some status, s) := hsend
      simp [syncPendingReviews, sendRecord, hpending, hsend, hne, hdisposition]
    have htried := @ih (r.tried .pending) rfl
      (by simpa [ReviewOutboxRecord.tried, hpending] using hretry)
    have hattempts : r.attempts + 1 + n = r.attempts + (n + 1) := by omega
    simp only [passes, hpass]
    rw [htried]
    simp [ReviewOutboxRecord.tried, hpending, hattempts]

end ReviewOutbox
