import LexiGo.Learning.LearningService
import LexiGo.ReadCommitted.CommitNotes

/-! What a request of the learning API notes in the course of it, and how that goes
together with its answer. The shape of the programs alone decides, so it holds
in every run, whatever the other requests do. -/
namespace RequestNotes
open RowStore TransactionProgram Interleaving CommitNotes GoText AnswerJudgement Scheduler
open LearningSchema LessonRepository LessonCreation LessonReviewIdempotency CustomWords
open LearningService

/-- Nothing in force is kept under the key. -/
def Unkept (o : Loaded) : Prop := o = .absent ∨ o = .expired

section Courses
variable (unicode : Unicode)

/-- The notes of a keyed call that has a response: its own review, or one that was
committed before. -/
inductive Obtained (call : ReviewCall) (response : LessonReviewResult) : List Note → Prop
  | reviewed {o row} : Unkept o →
      Obtained call response [.reviewed call response row, .loaded call o]
  | recovered {o found} : Unkept o → recovered unicode call found = .ok (some response) →
      Obtained call response [.recovered call found, .loaded call o]

/-- How the notes of a call may go, newest first. -/
inductive Course (call : ReviewCall) : List Note → Prop
  | keyless {result row} : call.key = none → Course call [.reviewed call result row]
  | loaded {o} : call.key.isSome = true → Course call [.loaded call o]
  | reviewed {o result row} : Unkept o → Course call [.reviewed call result row, .loaded call o]
  | recovered {o found} : Unkept o → Course call [.recovered call found, .loaded call o]
  | bound {past response swept} : Obtained unicode call response past →
      Course call (.bound call response swept :: past)
  | insertLost {past response swept} : Obtained unicode call response past →
      Course call (.insertLost call swept :: past)
  | reloaded {past response swept o} : Obtained unicode call response past →
      Course call (.reloaded call o :: .insertLost call swept :: past)

/-- The response kept under a key is the one that the call has got. -/
def Agrees (stored response : LessonReviewResult) : Prop :=
  stored.lessonId = response.lessonId ∧ stored.lessonVersion = response.lessonVersion

/-- What a call answers, by what it has noted. -/
inductive Concluded (call : ReviewCall) : List Note → Reply LessonReviewResult → Prop
  | keyless {result row} : call.key = none → Concluded call [.reviewed call result row] (.ok result)
  | failed {e} : call.key = none → e ≠ .idempotencyKeyReused → Concluded call [] (.error e)
  | replayed {stored} : call.key.isSome = true →
      Concluded call [.loaded call (.replayed stored)] (.ok stored)
  | reused : call.key.isSome = true →
      Concluded call [.loaded call .reused] (.error .idempotencyKeyReused)
  | refused {o e} : call.key.isSome = true → Unkept o → e ≠ .idempotencyKeyReused →
      recoverableIdempotencyConflict e = false → Concluded call [.loaded call o] (.error e)
  | unrecovered {o found e} : call.key.isSome = true → Unkept o → e ≠ .idempotencyKeyReused →
      (∀ response, recovered unicode call found ≠ .ok (some response)) →
      Concluded call [.recovered call found, .loaded call o] (.error e)
  | unstored {past response} : call.key.isSome = true → Obtained unicode call response past →
      Concluded call past (.error .internal)
  | bound {past response swept} : call.key.isSome = true → Obtained unicode call response past →
      Concluded call (.bound call response swept :: past) (.ok response)
  | kept {past response swept stored} : call.key.isSome = true →
      Obtained unicode call response past → Agrees stored response →
      Concluded call (.reloaded call (.replayed stored) :: .insertLost call swept :: past)
        (.ok response)
  | lost {past response swept o} : call.key.isSome = true → Obtained unicode call response past →
      (∀ stored, o = .replayed stored → ¬ Agrees stored response) →
      Concluded call (.reloaded call o :: .insertLost call swept :: past)
        (.error .idempotencyKeyReused)

end Courses

section Reviews
variable {unicode : Unicode} {P : List Note → List Note → Prop} {past : List Note}

theorem referenceWord_quiet (w : WordId) : Quiet (referenceWord w) :=
  .bind (.lockRow _ _) fun _ => .select _

theorem nextEventId_quiet : Quiet nextEventId := by
  refine .bind .choose fun e => .bind (.select _) fun free => ?_
  cases free
  · exact .pure _
  · exact .pure _

theorem insertEvent_quiet (row : EventRow) : Quiet (insertEvent row) := by
  unfold insertEvent
  refine .bind nextEventId_quiet fun found => ?_
  cases found with
  | none => exact .pure _
  | some e =>
    dsimp only
    split
    · exact .pure _
    · refine .bind (.insertRow _ _) fun inserted => ?_
      cases inserted with
      | false => exact .pure _
      | true =>
        refine .bind (referenceWord_quiet _) fun there => ?_
        cases there
        · exact .pure _
        · exact .pure _

/-- A review of a lesson's word commits once, when it has done everything. -/
theorem reviewLessonWord_follows {Q : List Note → Reply LessonReviewResult → Prop}
    (call : ReviewCall) (hP : ∀ result row, P [.reviewed call result row] past)
    (failed : ∀ e, e ≠ .idempotencyKeyReused → Q past (.error e))
    (done : ∀ result row, Q (.reviewed call result row :: past) (.ok result)) :
    Follows P Q past (reviewLessonWord unicode call) := by
  unfold reviewLessonWord
  dsimp only
  refine follows_quiet (.selectFor _ _ _) fun lesson => ?_
  cases lesson with
  | none => exact failed _ (by decide)
  | some lesson =>
    dsimp only
    split
    · exact failed _ (by decide)
    split
    · exact failed _ (by decide)
    refine follows_quiet (.selectFor _ _ _) fun item => ?_
    cases item with
    | none => exact failed _ (by decide)
    | some item =>
      dsimp only
      split
      · exact failed _ (by decide)
      split
      · exact failed _ (by decide)
      refine follows_quiet (.selectFor _ _ _) fun state => ?_
      cases state with
      | none => exact failed _ (by decide)
      | some state =>
        dsimp only
        refine follows_quiet (.select _) fun word => ?_
        cases word with
        | none => exact failed _ (by decide)
        | some word =>
          dsimp only
          refine follows_quiet .choose fun now => ?_
          split
          · exact failed _ (by decide)
          refine follows_quiet (.writeRow _ _ _) fun _ => ?_
          refine follows_quiet (insertEvent_quiet _) fun e => ?_
          cases e with
          | none => exact failed _ (by decide)
          | some e =>
            dsimp only
            refine follows_quiet (.writeRow _ _ _) fun _ => ?_
            refine follows_quiet (.select _) fun progress => ?_
            refine follows_quiet (.updateRow _ _ _ _) fun previous => ?_
            cases previous with
            | none => exact failed _ (by decide)
            | some previous =>
              dsimp only
              split
              · refine follows_quiet (.lockRow _ _) fun _ => ?_
                rw [follows_bind, follows_commit]
                exact ⟨hP _ _, done _ _⟩
              · rw [follows_bind, follows_commit]
                exact ⟨hP _ _, done _ _⟩

theorem reviewWord_follows {Q : List Note → Reply ReviewResult → Prop} (u : UserId) (w : WordId)
    (request : ReviewRequest) (hP : ∀ e, P [.wordReviewed u w e] past)
    (failed : ∀ e, Q past (.error e))
    (done : ∀ e result, Q (.wordReviewed u w e :: past) (.ok result)) :
    Follows P Q past (reviewWord unicode u w request) := by
  unfold reviewWord
  refine follows_quiet (.selectFor _ _ _) fun state => ?_
  cases state with
  | none => exact failed _
  | some state =>
    dsimp only
    refine follows_quiet (.select _) fun word => ?_
    cases word with
    | none => exact failed _
    | some word =>
      dsimp only
      refine follows_quiet .choose fun now => ?_
      split
      · exact failed _
      refine follows_quiet (.writeRow _ _ _) fun _ => ?_
      refine follows_quiet (insertEvent_quiet _) fun e => ?_
      cases e with
      | none => exact failed _
      | some e =>
        dsimp only
        rw [follows_bind, follows_commit]
        exact ⟨hP _, done _ _⟩

end Reviews

section Keyed
variable {unicode : Unicode} {P : List Note → List Note → Prop} {past : List Note}

theorem follows_loadIdempotent {Q : List Note → Loaded → Prop} (call : ReviewCall)
    (k : IdempotencyKey) (note : Loaded → Note)
    (h : ∀ o, P [note o] past ∧ Q (note o :: past) o) :
    Follows P Q past (loadIdempotentLessonReview call k note) := by
  refine follows_quiet .choose fun now => ?_
  exact follows_query _ _ h

theorem skipLocked_quiet (limit : Nat) (keys : List Key) : Quiet (skipLocked limit keys) := by
  induction keys generalizing limit with
  | nil => exact .pure _
  | cons k rest ih =>
    cases limit with
    | zero => exact .pure _
    | succ limit =>
      refine .bind .choose fun free => ?_
      split
      · exact ih _
      · exact .bind (ih _) fun _ => .pure _

theorem sweepExpired_quiet (u : UserId) (k : IdempotencyKey) (now : Instant) :
    Quiet (sweepExpired u k now) :=
  .bind (.select _) fun _ => .bind (skipLocked_quiet _ _) fun _ => .changeEach _ _ _

theorem upsertKept_quiet (call : ReviewCall) (k : IdempotencyKey) (response : LessonReviewResult)
    (now : Instant) : Quiet (upsertKept call k response now) := by
  refine .bind (.lockRow _ _) fun _ => .bind (.select _) fun free => ?_
  cases free
  · exact .pure _
  · exact .bind (.writeRow _ _ _) fun _ => .pure _

theorem referenceLesson_quiet (l : LessonId) : Quiet (referenceLesson l) :=
  .bind (.lockRow _ _) fun _ => .select _

/-- Keeping a response takes one commit, or two if another call was quicker. -/
theorem store_follows {Q : List Note → Reply Unit → Prop} (call : ReviewCall)
    (k : IdempotencyKey) (response : LessonReviewResult)
    (hbound : ∀ swept, P [.bound call response swept] past ∧
      Q (.bound call response swept :: past) (.ok ()))
    (hlost : ∀ swept, P [.insertLost call swept] past)
    (hreload : ∀ swept o, P [.reloaded call o] (.insertLost call swept :: past))
    (failed : Q past (.error .internal))
    (kept : ∀ swept stored, Agrees stored response →
      Q (.reloaded call (.replayed stored) :: .insertLost call swept :: past) (.ok ()))
    (lost : ∀ swept o, (∀ stored, o = .replayed stored → ¬ Agrees stored response) →
      Q (.reloaded call o :: .insertLost call swept :: past) (.error .idempotencyKeyReused)) :
    Follows P Q past (storeIdempotentLessonReview call k response) := by
  unfold storeIdempotentLessonReview
  refine follows_quiet .choose fun now => ?_
  refine follows_quiet (sweepExpired_quiet _ _ _) fun swept => ?_
  refine follows_quiet (upsertKept_quiet _ _ _ _) fun written => ?_
  cases written with
  | true =>
    rw [if_pos rfl]
    refine follows_quiet (referenceLesson_quiet _) fun there => ?_
    split
    · exact failed
    refine follows_quiet (referenceWord_quiet _) fun there => ?_
    split
    · exact failed
    rw [follows_bind, follows_commit]
    exact hbound swept
  | false =>
    rw [if_neg (by decide), follows_bind, follows_commit]
    refine ⟨hlost swept, ?_⟩
    rw [follows_bind]
    refine follows_loadIdempotent call k _ fun o => ⟨hreload swept o, ?_⟩
    cases o with
    | replayed stored =>
      dsimp only
      rw [follows_pure]
      split
      · rename_i hdiffers
        refine lost swept _ ?_
        rintro _ ⟨⟩ ⟨hlesson, hversion⟩
        simp [hlesson, hversion] at hdiffers
      · rename_i hsame
        exact kept swept stored (by simpa [Agrees] using hsame)
    | absent => exact lost swept _ (fun _ h => by cases h)
    | expired => exact lost swept _ (fun _ h => by cases h)
    | reused => exact lost swept _ (fun _ h => by cases h)

theorem recover_follows {Q : List Note → Reply (Option LessonReviewResult) → Prop}
    (call : ReviewCall) (hP : ∀ found, P [.recovered call found] past)
    (failed : Q past (.error .internal))
    (done : ∀ found, Q (.recovered call found :: past) (recovered unicode call found)) :
    Follows P Q past (recoverCommittedLessonReview unicode call) := by
  unfold recoverCommittedLessonReview
  split
  · exact failed
  · rw [follows_bind]
    exact follows_query _ _ fun found => ⟨hP found, done found⟩

/-- A review, or the one that was committed before it. -/
theorem reviewOrRecover_follows {Q : List Note → Reply LessonReviewResult → Prop}
    (call : ReviewCall) {o : Loaded} (hkey : call.key.isSome = true) (ho : Unkept o)
    (hP : ∀ result row, P [.reviewed call result row] [.loaded call o])
    (hrecovered : ∀ found, P [.recovered call found] [.loaded call o])
    (obtained : ∀ past response, Obtained unicode call response past → Q past (.ok response))
    (failed : ∀ past e, Concluded unicode call past (.error e) → Q past (.error e)) :
    Follows P Q [.loaded call o] (reviewOrRecover unicode call) := by
  unfold reviewOrRecover
  rw [follows_bind]
  refine reviewLessonWord_follows call hP (fun e he => ?_) fun result row => ?_
  · dsimp only
    split
    · rename_i hconflict
      rw [follows_bind]
      refine recover_follows call hrecovered ?_ fun found => ?_
      · exact failed _ _ (.refused hkey ho (by decide) rfl)
      · cases hfound : recovered unicode call found with
        | error e' =>
          have hinternal : e' ≠ .idempotencyKeyReused := by
            unfold recovered at hfound
            split at hfound
            · cases hfound
            · split at hfound
              · split at hfound <;> cases hfound
              · cases hfound
                decide
          exact failed _ _ (.unrecovered hkey ho hinternal (by simp [hfound]))
        | ok result =>
          cases result with
          | none => exact failed _ _ (.unrecovered hkey ho he (by simp [hfound]))
          | some response => exact obtained _ _ (.recovered ho hfound)
    · rename_i hconflict
      exact failed _ _ (.refused hkey ho he (by simpa using hconflict))
  · exact obtained _ _ (.reviewed ho)

/-- A call whose key is free reviews, or recovers, and goes on with the response. -/
theorem unkept_follows (call : ReviewCall) {o : Loaded} (hkey : call.key.isSome = true)
    (ho : Unkept o) {f : LessonReviewResult → LearningProg (Reply LessonReviewResult)}
    (hf : ∀ past response, Obtained unicode call response past →
      Follows (fun notes past => ∃ n, notes = [n] ∧ Course unicode call (n :: past))
        (Concluded unicode call) past (f response)) :
    Follows (fun notes past => ∃ n, notes = [n] ∧ Course unicode call (n :: past))
      (Concluded unicode call) [.loaded call o] (andThen (reviewOrRecover unicode call) f) := by
  unfold andThen
  rw [follows_bind]
  exact reviewOrRecover_follows call hkey ho (fun _ _ => ⟨_, rfl, .reviewed ho⟩)
    (fun _ => ⟨_, rfl, .recovered ho⟩) hf fun _ _ h => h

theorem idempotent_follows (call : ReviewCall) :
    Follows (fun notes past => ∃ n, notes = [n] ∧ Course unicode call (n :: past))
      (Concluded unicode call) [] (reviewLessonWordIdempotent unicode call) := by
  unfold reviewLessonWordIdempotent
  cases hkey : call.key with
  | none =>
    dsimp only
    exact reviewLessonWord_follows call (fun _ _ => ⟨_, rfl, .keyless hkey⟩)
      (fun e he => .failed hkey he) fun _ _ => .keyless hkey
  | some k =>
    have some : call.key.isSome = true := by rw [hkey]; rfl
    dsimp only
    rw [follows_bind]
    refine follows_loadIdempotent call k _ fun o => ⟨⟨_, rfl, .loaded some⟩, ?_⟩
    cases o with
    | replayed stored => exact .replayed some
    | reused => exact .reused some
    | absent | expired =>
      refine unkept_follows call some (by simp [Unkept]) fun past response hobtained => ?_
      rw [follows_bind]
      exact store_follows call k response
        (fun _ => ⟨⟨_, rfl, .bound hobtained⟩, .bound some hobtained⟩)
        (fun _ => ⟨_, rfl, .insertLost hobtained⟩) (fun _ _ => ⟨_, rfl, .reloaded hobtained⟩)
        (.unstored some hobtained) (fun _ _ h => .kept some hobtained h)
        fun _ _ h => .lost some hobtained h

end Keyed

section Lessons
variable {P : List Note → List Note → Prop} {past : List Note}

theorem follows_silent {α : Type} {Q : List Note → α → Prop} (f : LearningDb → α) (hP : P [] past)
    (h : ∀ db, Q past (f db)) : Follows P Q past (query f fun _ => [] : LearningProg α) :=
  fun db => ⟨hP, h db⟩

theorem lessonById_follows {Q : List Note → Reply LessonSession → Prop} (u : UserId) (l : LessonId)
    (hP : P [] past) (failed : ∀ e, Q past (.error e))
    (done : ∀ lesson, lesson.id = l → Q past (.ok lesson)) :
    Follows P Q past (lessonByIdWithReasons u l) := by
  unfold lessonByIdWithReasons andThen
  rw [follows_bind]
  refine follows_silent _ hP fun db => ?_
  cases hload : loadActive u l db with
  | error e => exact failed e
  | ok lesson =>
    have hid : lesson.id = l := by
      unfold loadActive at hload
      split at hload
      · cases hload
      · dsimp only at hload
        split at hload <;> cases hload
        rfl
    dsimp only
    unfold attachLessonSelectionReasons
    rw [follows_bind]
    refine follows_silent _ hP fun db' => ?_
    cases (db'.lookup (.lesson lesson.id)).map LessonRow.sessionKind with
    | none => exact failed _
    | some kind =>
      dsimp only
      rw [follows_bind]
      refine follows_silent _ hP fun db'' => ?_
      rw [follows_pure]
      unfold LessonSession.withReasons
      split
      · exact done _ hid
      · exact failed _

theorem discardLesson_follows {Q : List Note → Reply Unit → Prop} (u : UserId) (l : LessonId)
    (version : Nat) (hP : P [.lessonDiscarded u l version] past) (failed : ∀ e, Q past (.error e))
    (done : Q (.lessonDiscarded u l version :: past) (.ok ())) :
    Follows P Q past (discardLesson u l version) := by
  unfold discardLesson
  refine follows_quiet .choose fun now => ?_
  refine follows_quiet (.selectFor _ _ _) fun lesson => ?_
  cases lesson with
  | none => exact failed _
  | some lesson =>
    dsimp only
    split
    · exact failed _
    refine follows_quiet (.updateRow _ _ _ _) fun previous => ?_
    cases previous with
    | none => exact failed _
    | some previous =>
      dsimp only
      refine follows_quiet (.lockRow _ _) fun _ => ?_
      rw [follows_bind, follows_commit]
      exact ⟨hP, done⟩

theorem matching_quiet (u : UserId) (request : LessonCreateRequest) (now : Instant) :
    Quiet (matchingRecentActiveLesson u request now) := by
  refine .bind (.select _) fun found => ?_
  cases found with
  | none => exact .pure _
  | some l =>
    refine .bind (.lockRow _ _) fun _ => .bind (.select _) fun still => ?_
    cases still
    · exact .pure _
    · exact .pure _

theorem composeLessonCandidates_quiet (limit : Nat) (candidates : List WordId) :
    Quiet (composeLessonCandidates limit candidates) := by
  induction limit generalizing candidates with
  | zero => exact .pure _
  | succ limit ih =>
    refine .bind .choose fun n => .bind .choose fun why => ?_
    split
    · exact .bind (ih _) fun _ => .pure _
    · exact .pure _

theorem lessonWords_quiet (u : UserId) (request : LessonCreateRequest) :
    Quiet (lessonWords u request) := by
  unfold lessonWords
  cases request.wordIds with
  | none => exact .bind (.select _) fun _ => .bind (composeLessonCandidates_quiet _ _) fun _ => .pure _
  | some ids => exact .bind (.select _) fun _ => .pure _

theorem insertItems_quiet (l : LessonId) (position : Nat) (selected : Selection) :
    Quiet (insertItems l position selected) := by
  induction selected generalizing position with
  | nil => exact .pure _
  | cons p rest ih =>
    refine .bind (.insertRow _ _) fun inserted => ?_
    cases inserted
    · exact .pure _
    · exact ih _

theorem referenceWords_quiet (words : List WordId) : Quiet (referenceWords words) := by
  induction words with
  | nil => exact .pure _
  | cons w rest ih =>
    refine .bind (referenceWord_quiet w) fun there => ?_
    cases there
    · exact .pure _
    · exact ih

theorem insertLesson_quiet (l : LessonId) (r : LessonRow) : Quiet (insertLesson l r) := by
  unfold insertLesson
  split
  · exact .pure _
  · refine .bind (.lockRow _ _) fun _ => .bind (.select _) fun free => ?_
    cases free
    · exact .pure _
    · exact .insertRow _ _

theorem createLesson_follows {Q : List Note → Reply LessonSession → Prop} (u : UserId)
    (request : LessonCreateRequest) (silent : ∀ past, P [] past)
    (hresumed : ∀ l, P [.lessonResumed u l] past) (hcreated : ∀ l words, P [.lessonCreated u l words] past)
    (failed : ∀ past e, Q past (.error e))
    (resumed : ∀ lesson : LessonSession, Q (.lessonResumed u lesson.id :: past) (.ok lesson))
    (created : ∀ (lesson : LessonSession) words,
      Q (.lessonCreated u lesson.id words :: past) (.ok lesson)) :
    Follows P Q past (createLesson u request) := by
  unfold createLesson
  split
  · exact failed _ _
  unfold createProgressiveLesson
  refine follows_quiet .choose fun dbNow => ?_
  refine follows_quiet (.lockRow _ _) fun _ => ?_
  refine follows_quiet (matching_quiet _ _ _) fun found => ?_
  cases found with
  | some l =>
    dsimp only
    rw [follows_bind, follows_commit]
    refine ⟨hresumed l, lessonById_follows u l (silent _) (failed _) ?_⟩
    rintro lesson rfl
    exact resumed lesson
  | none =>
    dsimp only
    refine follows_quiet (lessonWords_quiet u request) fun words => ?_
    cases words with
    | error e => exact failed _ _
    | ok selected =>
      dsimp only
      refine follows_quiet (.bind (.select _) fun _ => .bind (.changeEach _ _ _) fun _ => .pure _)
        fun _ => ?_
      refine follows_quiet .choose fun l => ?_
      refine follows_quiet (insertLesson_quiet _ _) fun inserted => ?_
      split
      · exact failed _ _
      refine follows_quiet (insertItems_quiet _ _ _) fun inserted => ?_
      split
      · exact failed _ _
      refine follows_quiet (referenceWords_quiet _) fun there => ?_
      split
      · exact failed _ _
      rw [follows_bind, follows_commit]
      refine ⟨hcreated l _, lessonById_follows u l (silent _) (failed _) ?_⟩
      rintro lesson rfl
      exact created lesson _

theorem deleteWhere_quiet (p : ∀ k, Row k → Bool) : Quiet (deleteWhere p : LearningProg (List Key)) :=
  .bind (.select _) fun _ => .changeEach _ _ _

theorem deleteCustom_follows {Q : List Note → Reply Unit → Prop} (kind : AnswerJudgement.WordKind)
    (missing : LessonError) (u : UserId) (w : WordId)
    (hP : ∀ seen, P [.wordDeleted u w seen] past) (failed : ∀ e, Q past (.error e))
    (done : ∀ seen, Q (.wordDeleted u w seen :: past) (.ok ())) :
    Follows P Q past (deleteCustom kind missing u w) := by
  unfold deleteCustom
  refine follows_quiet .choose fun dbNow => ?_
  have discards : Quiet (discardUsing u w dbNow) := by
    refine .bind (.select _) fun seen => .bind (.changeEach _ _ _) fun changed => ?_
    split
    · exact .bind (.lockRow _ _) fun _ => .pure _
    · exact .pure _
  refine follows_quiet discards fun seen => ?_
  refine follows_quiet (.selectFor _ _ _) fun word => ?_
  cases word with
  | none => exact failed _
  | some word =>
    dsimp only
    refine follows_quiet (.writeRow _ _ _) fun _ => ?_
    have cascades : Quiet (cascadeWord w) :=
      .bind (deleteWhere_quiet _) fun _ => .bind (deleteWhere_quiet _) fun _ =>
        .bind (deleteWhere_quiet _) fun _ => .bind (deleteWhere_quiet _) fun _ => .pure _
    refine follows_quiet cascades fun _ => ?_
    rw [follows_bind, follows_commit]
    exact ⟨hP seen, done seen⟩

end Lessons

section Requests
variable (unicode : Unicode)

/-- What a request notes with a commit, after what it has noted before. -/
def Told : Op → List Note → List Note → Prop
  | .createLesson u _, notes, past => notes = [] ∨ past = [] ∧
      ∃ l, notes = [.lessonResumed u l] ∨ ∃ words, notes = [.lessonCreated u l words]
  | .activeLesson _, notes, _ => notes = []
  | .discardLesson u l version, notes, past => past = [] ∧ notes = [.lessonDiscarded u l version]
  | .reviewLessonWord raw, notes, past => ∃ call n, acceptLessonReview raw = .ok call ∧
      notes = [n] ∧ Course unicode call (n :: past)
  | .reviewWord u w _, notes, past => past = [] ∧ ∃ e, notes = [.wordReviewed u w e]
  | .deleteCustomWord u w, notes, past | .deleteCustomPhrase u w, notes, past =>
      past = [] ∧ ∃ seen, notes = [.wordDeleted u w seen]

/-- What a request answers, by what it has noted. -/
def Reported : Op → List Note → Response → Prop
  | .createLesson u _, past, .ok (.lesson lesson) =>
      past = [.lessonResumed u lesson.id] ∨ ∃ words, past = [.lessonCreated u lesson.id words]
  | .discardLesson _ _ _, past, .error _ | .reviewWord _ _ _, past, .error _ => past = []
  | .discardLesson u l version, past, .ok _ => past = [.lessonDiscarded u l version]
  | .reviewWord u w _, past, .ok _ => ∃ e, past = [.wordReviewed u w e]
  | .reviewLessonWord raw, past, .error (.rejected _) => past = [] ∧ ∀ call, acceptLessonReview raw ≠ .ok call
  | .reviewLessonWord raw, past, .error (.refused e) => ∃ call, acceptLessonReview raw = .ok call ∧
      Concluded unicode call past (.error e)
  | .reviewLessonWord raw, past, .ok (.lessonReviewed result) => ∃ call,
      acceptLessonReview raw = .ok call ∧ Concluded unicode call past (.ok result)
  | .reviewLessonWord _, _, .ok _ => False
  | .createLesson _ _, _, _ | .activeLesson _, _, _ | .deleteCustomWord _ _, _, _
  | .deleteCustomPhrase _ _, _, _ => True

variable {unicode}

theorem program_follows (op : Op) :
    Follows (Told unicode op) (Reported unicode op) [] (program unicode op) := by
  cases op with
  | createLesson u request =>
    unfold program answered
    rw [follows_bind]
    refine createLesson_follows u request (fun _ => .inl rfl) (fun l => .inr ⟨rfl, l, .inl rfl⟩)
      (fun l words => .inr ⟨rfl, l, .inr ⟨words, rfl⟩⟩) (fun _ _ => trivial)
      (fun lesson => .inl rfl) fun lesson words => .inr ⟨words, rfl⟩
  | activeLesson u =>
    unfold program answered LessonCreation.activeLesson
    rw [follows_bind, follows_bind]
    refine follows_silent _ rfl fun db => ?_
    cases newestLesson (fun _ r => r.activeOf u) db with
    | none => exact trivial
    | some l => exact lessonById_follows u l rfl (fun _ => trivial) fun _ _ => trivial
  | discardLesson u l version =>
    unfold program answered
    rw [follows_bind]
    exact discardLesson_follows u l version ⟨rfl, rfl⟩ (fun _ => rfl) rfl
  | reviewLessonWord raw =>
    simp only [program]
    cases haccept : acceptLessonReview raw with
    | error why => exact ⟨rfl, fun call hcall => by rw [haccept] at hcall; cases hcall⟩
    | ok call =>
      dsimp only
      unfold answered
      rw [follows_bind]
      refine follows_weaken ?_ (follows_mono ?_ (idempotent_follows call))
      · rintro notes past ⟨n, rfl, hcourse⟩
        exact ⟨call, n, haccept, rfl, hcourse⟩
      · intro past reply h
        cases reply with
        | ok result => exact ⟨call, haccept, h⟩
        | error e => exact ⟨call, haccept, h⟩
  | reviewWord u w request =>
    simp only [program]
    cases acceptReview request with
    | error why => exact rfl
    | ok accepted =>
      dsimp only
      unfold answered
      rw [follows_bind]
      exact reviewWord_follows u w accepted (fun e => ⟨rfl, e, rfl⟩) (fun _ => rfl)
        fun e _ => ⟨e, rfl⟩
  | deleteCustomWord u w =>
    unfold program answered
    rw [follows_bind]
    exact deleteCustom_follows _ _ u w (fun seen => ⟨rfl, seen, rfl⟩) (fun _ => trivial)
      fun _ => trivial
  | deleteCustomPhrase u w =>
    unfold program answered
    rw [follows_bind]
    exact deleteCustom_follows _ _ u w (fun seen => ⟨rfl, seen, rfl⟩) (fun _ => trivial)
      fun _ => trivial

/-- What the handler makes of a review concerns its answer alone. -/
theorem accepted_eq {raw call : ReviewCall} (h : acceptLessonReview raw = .ok call) :
    ∃ request, call = { raw with request := { raw.request with toReviewRequest := request } } := by
  unfold acceptLessonReview at h
  split at h
  · cases h
  · cases haccept : acceptReview raw.request.toReviewRequest with
    | error why =>
      rw [haccept] at h
      cases h
    | ok request =>
      rw [haccept] at h
      cases h
      exact ⟨request, rfl⟩

end Requests

end RequestNotes
