import LexiGo.ReadCommitted.ConfinedWrites
import LexiGo.Learning.LearningService

/-! What the requests of the learning loop write. Lessons and reviews never touch the
catalogue, and a learned word that a review has written is not new any more. -/
namespace LearningWrites
open RowStore TransactionProgram ConfinedWrites GoText AnswerJudgement Scheduler
open LearningSchema LessonRepository LessonCreation LessonReviewIdempotency LearningService

def Learns : ∀ k, Option (Row k) → Prop
  | .word _, _ => False
  | .userWord _ _, v => ∃ r, v = some r ∧ r.status ≠ .new
  | _, _ => True

abbrev LearnsOnly (p : LearningProg α) : Prop := Confined Learns (fun _ => True) p

variable {unicode : Unicode} {u : UserId} {w : WordId} {l : LessonId}

theorem study_not_new (state : ReviewState) (rating : Rating) :
    (scheduleStudy state rating).status ≠ .new := by
  unfold scheduleStudy
  dsimp only
  split
  · assumption
  · simp

theorem review_not_new (state : ReviewState) (rating : Rating) :
    (scheduleReview state rating).status ≠ .new := by
  cases rating with
  | again => simp [scheduleReview]
  | almost | known =>
    unfold scheduleReview
    intro hstatus
    dsimp only at hstatus
    split_ifs at hstatus

theorem attempt_not_new (state : ReviewState) (rating : Rating) (mode : AnswerMode) :
    (scheduleAttempt state rating mode).status ≠ .new := by
  cases mode with
  | study => exact study_not_new state rating
  | _ => exact review_not_new state rating

theorem attempt_learns (request : ReviewRequest) (state : UserWordRow) (word : WordRow)
    (now : Instant) :
    Learns (.userWord u w) (some ((attempt unicode request state word now).row now)) :=
  ⟨_, rfl, attempt_not_new _ _ _⟩

theorem referenceWord_learns (w : WordId) : LearnsOnly (referenceWord w) :=
  .bind (.lockRow _ _) fun _ => .select _

theorem insertEvent_learns (row : EventRow) : LearnsOnly (insertEvent row) := by
  refine .bind (.bind .choose fun e => .bind (.select _) fun free => ?_) fun found => ?_
  · cases free <;> exact .pure _
  · cases found with
    | none => exact .pure _
    | some e =>
      dsimp only
      split
      · exact .pure _
      · refine .bind (.insertRow trivial) fun inserted => ?_
        cases inserted with
        | false => exact .pure _
        | true =>
          refine .bind (referenceWord_learns _) fun there => ?_
          cases there <;> exact .pure _

theorem reviewWord_learns (request : ReviewRequest) : LearnsOnly (reviewWord unicode u w request) := by
  refine .bind (.selectFor _ _ _) fun state => ?_
  cases state with
  | none => exact .leave _
  | some state =>
    refine .bind (.select _) fun word => ?_
    cases word with
    | none => exact .leave _
    | some word =>
      refine .bind .choose fun now => ?_
      dsimp only
      split
      · exact .leave _
      refine .bind (.writeRow (attempt_learns request state word now) _) fun _ =>
        .bind (insertEvent_learns _) fun e => ?_
      cases e with
      | none => exact .leave _
      | some e => exact .bind (.commit trivial) fun _ => .pure _

theorem updateLesson_learns (p : LessonRow → Bool) (g : LessonRow → LessonRow) :
    LearnsOnly (updateLesson l p g) := .updateRow _ _ fun _ => trivial

theorem reviewLessonWord_learns (call : ReviewCall) : LearnsOnly (reviewLessonWord unicode call) := by
  refine .bind (.selectFor _ _ _) fun lesson => ?_
  cases lesson with
  | none => exact .leave _
  | some lesson =>
    dsimp only
    split
    · exact .leave _
    split
    · exact .leave _
    refine .bind (.selectFor _ _ _) fun item => ?_
    cases item with
    | none => exact .leave _
    | some item =>
      dsimp only
      split
      · exact .leave _
      split
      · exact .leave _
      refine .bind (.selectFor _ _ _) fun state => ?_
      cases state with
      | none => exact .leave _
      | some state =>
        refine .bind (.select _) fun word => ?_
        cases word with
        | none => exact .leave _
        | some word =>
          refine .bind .choose fun now => ?_
          split
          · exact .leave _
          refine .bind (.writeRow (attempt_learns _ state word now) _) fun _ =>
            .bind (insertEvent_learns _) fun e => ?_
          cases e with
          | none => exact .leave _
          | some e =>
            refine .bind (.writeRow trivial _) fun _ => .bind (.select _) fun progress =>
              .bind (updateLesson_learns _ _) fun previous => ?_
            cases previous with
            | none => exact .leave _
            | some previous =>
              dsimp only
              split
              · exact .bind (.lockRow _ _) fun _ => .bind (.commit trivial) fun _ => .pure _
              · exact .bind (.commit trivial) fun _ => .pure _

theorem discardLesson_learns (version : Nat) : LearnsOnly (discardLesson u l version) := by
  refine .bind .choose fun now => .bind (.selectFor _ _ _) fun lesson => ?_
  cases lesson with
  | none => exact .leave _
  | some lesson =>
    dsimp only
    split
    · exact .leave _
    refine .bind (updateLesson_learns _ _) fun discarded => ?_
    cases discarded with
    | none => exact .leave _
    | some r => exact .bind (.lockRow _ _) fun _ => .bind (.commit trivial) fun _ => .pure _

section Creation

theorem lessonById_learns (u : UserId) (l : LessonId) : LearnsOnly (lessonByIdWithReasons u l) := by
  refine .andThen (.query _ fun _ => trivial) fun lesson => .bind (.query _ fun _ => trivial) fun kind => ?_
  cases kind with
  | none => exact .pure _
  | some kind => exact .bind (.query _ fun _ => trivial) fun rows => .pure _

theorem activeLesson_learns (u : UserId) : LearnsOnly (activeLesson u) := by
  refine .bind (.query _ fun _ => trivial) fun found => ?_
  cases found with
  | none => exact .pure _
  | some l => exact lessonById_learns u l

theorem matchingLesson_learns (request : LessonCreateRequest) (now : Instant) :
    LearnsOnly (matchingRecentActiveLesson u request now) := by
  refine .bind (.select _) fun found => ?_
  cases found with
  | none => exact .pure _
  | some l =>
    refine .bind (.lockRow _ _) fun _ => .bind (.select _) fun still => ?_
    cases still <;> exact .pure _

theorem compose_learns (limit : Nat) (candidates : List WordId) :
    LearnsOnly (composeLessonCandidates limit candidates) := by
  induction limit generalizing candidates with
  | zero => exact .pure _
  | succ limit ih =>
    refine .bind .choose fun n => .bind .choose fun why => ?_
    cases candidates[n]? with
    | none => exact .pure _
    | some w =>
      cases selectionReasons[why]? with
      | none => exact .pure _
      | some reason => exact .bind (ih _) fun rest => .pure _

theorem lessonWords_learns (request : LessonCreateRequest) : LearnsOnly (lessonWords u request) := by
  unfold lessonWords
  cases request.wordIds with
  | none => exact .bind (.select _) fun candidates => .bind (compose_learns _ _) fun selected => .pure _
  | some ids => exact .bind (.select _) fun assigned => .pure _

theorem discarding_learns (p : LessonId → LessonRow → Bool) (now : Instant) (keys : List Key) :
    LearnsOnly (updateRows .noKeyUpdate (lessons p) (onLesson (LessonRow.discard now)) keys) := by
  refine .updateRows _ _ (fun k r hp => ?_) keys
  cases k with
  | lesson l => exact trivial
  | word | userWord | item | event | idempotency | lessonCreation | activeLesson => cases hp

theorem insertLesson_learns (l : LessonId) (r : LessonRow) : LearnsOnly (insertLesson l r) := by
  unfold insertLesson
  split
  · exact .pure _
  refine .bind (.lockRow _ _) fun _ => .bind (.select _) fun free => ?_
  cases free with
  | false => exact .pure _
  | true => exact .insertRow trivial

theorem insertItems_learns (position : Nat) (selected : Selection) :
    LearnsOnly (LessonCreation.insertItems l position selected) := by
  induction selected generalizing position with
  | nil => exact .pure _
  | cons entry rest ih =>
    refine .bind (.insertRow trivial) fun inserted => ?_
    cases inserted with
    | false => exact .pure _
    | true => exact ih _

theorem referenceWords_learns (words : List WordId) : LearnsOnly (referenceWords words) := by
  induction words with
  | nil => exact .pure _
  | cons w rest ih =>
    refine .bind (referenceWord_learns w) fun there => ?_
    cases there with
    | false => exact .pure _
    | true => exact ih

theorem createLesson_learns (u : UserId) (request : LessonCreateRequest) :
    LearnsOnly (createLesson u request) := by
  unfold createLesson
  split
  · exact .pure _
  refine .bind .choose fun now => .bind (.lockRow _ _) fun _ =>
    .bind (matchingLesson_learns request now) fun resumed => ?_
  cases resumed with
  | some l => exact .bind (.commit trivial) fun _ => lessonById_learns u l
  | none =>
    refine .bind (lessonWords_learns request) fun words => ?_
    cases words with
    | error why => exact .leave _
    | ok selected =>
      refine .bind (.bind (.select _) fun seen => .bind (discarding_learns _ now seen) fun _ => .pure _)
        fun _ => .bind .choose fun l => .bind (insertLesson_learns l _) fun inserted => ?_
      cases inserted with
      | false => exact .leave _
      | true =>
        refine .bind (insertItems_learns 0 selected) fun placed => ?_
        cases placed with
        | false => exact .leave _
        | true =>
          refine .bind (referenceWords_learns _) fun there => ?_
          cases there with
          | false => exact .leave _
          | true => exact .bind (.commit trivial) fun _ => lessonById_learns u l

end Creation

section Keys
variable {call : ReviewCall} {k : IdempotencyKey}

theorem load_learns (call : ReviewCall) (k : IdempotencyKey) (note : Loaded → Note) :
    LearnsOnly (loadIdempotentLessonReview call k note) :=
  .bind .choose fun _ => .query _ fun _ => trivial

theorem recover_learns (call : ReviewCall) :
    LearnsOnly (recoverCommittedLessonReview unicode call) := by
  unfold recoverCommittedLessonReview
  split
  · exact .pure _
  · exact .bind (.query _ fun _ => trivial) fun s => .pure _

theorem skipLocked_learns (limit : Nat) (keys : List Key) : LearnsOnly (skipLocked limit keys) := by
  induction keys generalizing limit with
  | nil => cases limit <;> exact .pure _
  | cons k rest ih =>
    cases limit with
    | zero => exact .pure _
    | succ limit =>
      refine .bind .choose fun free => ?_
      split
      · exact ih _
      · exact .bind (ih _) fun taken => .pure _

theorem sweepExpired_learns (u : UserId) (k : IdempotencyKey) (now : Instant) :
    LearnsOnly (sweepExpired u k now) := by
  refine .bind (.select _) fun seen => .bind (skipLocked_learns _ _) fun taken =>
    .changeEach _ (fun k r v hv => ?_) taken
  cases k with
  | idempotency => exact trivial
  | word | userWord | lesson | item | event | lessonCreation | activeLesson => cases hv

theorem upsertKept_learns (response : LessonReviewResult) (now : Instant) :
    LearnsOnly (upsertKept call k response now) := by
  refine .bind (.lockRow _ _) fun _ => .bind (.select _) fun free => ?_
  cases free with
  | false => exact .pure _
  | true => exact .bind (.writeRow trivial _) fun _ => .pure _

theorem store_learns (response : LessonReviewResult) :
    LearnsOnly (storeIdempotentLessonReview call k response) := by
  refine .bind .choose fun now => .bind (sweepExpired_learns _ k now) fun swept =>
    .bind (upsertKept_learns response now) fun kept => ?_
  cases kept with
  | true =>
    refine .bind (.bind (.lockRow _ _) fun _ => .select _) fun lesson => ?_
    cases lesson with
    | false => exact .leave _
    | true =>
      refine .bind (referenceWord_learns _) fun word => ?_
      cases word with
      | false => exact .leave _
      | true => exact .bind (.commit trivial) fun _ => .pure _
  | false =>
    refine .bind (.commit trivial) fun _ => .bind (load_learns call k _) fun found => ?_
    cases found <;> exact .pure _

theorem reviewOrRecover_learns (call : ReviewCall) : LearnsOnly (reviewOrRecover unicode call) := by
  refine .bind (reviewLessonWord_learns call) fun reviewed => ?_
  cases reviewed with
  | ok result => exact .pure _
  | error why =>
    dsimp only
    split
    · refine .bind (recover_learns call) fun found => ?_
      match found with
      | .error _ => exact .pure _
      | .ok none => exact .pure _
      | .ok (some _) => exact .pure _
    · exact .pure _

theorem reviewIdempotent_learns (call : ReviewCall) :
    LearnsOnly (reviewLessonWordIdempotent unicode call) := by
  unfold reviewLessonWordIdempotent
  cases call.key with
  | none => exact reviewLessonWord_learns call
  | some k =>
    refine .bind (load_learns call k _) fun found => ?_
    cases found with
    | replayed stored | reused => exact .pure _
    | absent | expired =>
      refine .andThen (reviewOrRecover_learns call) fun result =>
        .bind (store_learns result) fun stored => ?_
      cases stored <;> exact .pure _

end Keys

theorem answered_learns {β : Type} {f : β → Answer} {p : LearningProg (Reply β)}
    (hp : LearnsOnly p) : LearnsOnly (answered f p) := by
  refine .bind hp fun r => ?_
  cases r <;> exact .pure _

theorem lessonProgram_learns (op : LessonOp) : LearnsOnly (lessonProgram unicode op) := by
  obtain ⟨op, hop⟩ := op
  cases op with
  | createLesson u request => exact answered_learns (createLesson_learns u request)
  | activeLesson u => exact answered_learns (activeLesson_learns u)
  | discardLesson u l version => exact answered_learns (discardLesson_learns version)
  | reviewLessonWord call =>
    unfold lessonProgram program
    dsimp only
    cases acceptLessonReview call with
    | error why => exact .pure _
    | ok call => exact answered_learns (reviewIdempotent_learns call)
  | reviewWord u w request =>
    unfold lessonProgram program
    dsimp only
    cases acceptReview request with
    | error why => exact .pure _
    | ok request => exact answered_learns (reviewWord_learns request)
  | deleteCustomWord | deleteCustomPhrase => cases hop

end LearningWrites
