import LexiGo.Client.ReviewOutbox
import LexiGo.Learning.LearningRuns
import LexiGo.Learning.LessonHttp
import LexiGo.Learning.ReviewPaths
import LexiGo.Learning.ScheduleHorizon

/-! What the handler of lesson reviews answers when nothing stands in its way: no
other request holds a lock, and the sequence behind the events is ahead of them. -/
namespace DefiniteAnswers
open JsonValue RowStore TransactionProgram SoloRun GoText AnswerJudgement AnswerCandidates Scheduler
open SchedulerRuns ScheduleHorizon LearningSchema LessonRepository LessonReviewIdempotency
open LearningService LessonHttp ReviewPaths LearningMachine LearningContract LearningRefinement
open LearningRuns
open ReviewOutbox (reviewResponseDisposition)

/-- What is chosen along the way of a request: clock readings, the number of its event,
and whether rows that have run out are locked. -/
structure Environment where
  loadedAt : Nat
  reviewedAt : Nat
  eventId : EventId
  later : List Nat

def Environment.choices (env : Environment) (key : Option IdempotencyKey) : List Nat :=
  (if key.isSome then [env.loadedAt] else []) ++ env.reviewedAt :: env.eventId :: env.later

def keptKeys (db : LearningDb) : List Key := rowsWhere (idempotencyRows fun _ _ _ => true) db

structure Environment.Healthy (env : Environment) (db : LearningDb) : Prop where
  next : ∀ e r, db.lookup (.event e) = some r → e < env.eventId
  enough : (keptKeys db).length + 2 ≤ env.later.length

variable {unicode : Unicode} {db : LearningDb} {call : ReviewCall} {k : IdempotencyKey}
variable {s : Solo Row}

section Conditions

/-- The request is about the wrong item or version, so that the server looks for a
review that it may have committed before. -/
def TurnedDown (db : LearningDb) (call : ReviewCall) : Prop :=
  (∀ lesson item, ¬ CurrentItem db call lesson item) ∧
    ∀ lesson : LessonRow, db.lookup (.lesson call.lessonId) = some lesson →
      lesson.activeOf call.userId = true → lesson.version = call.request.lessonVersion →
      lesson.studyMode = call.request.answerMode

/-- The review is up, and a column cannot hold what is to be written of it. -/
def Unstorable (unicode : Unicode) (db : LearningDb) (call : ReviewCall) : Prop :=
  ∃ lesson item state word, CurrentItem db call lesson item ∧
    db.lookup (.userWord call.userId call.wordId) = some state ∧
    db.lookup (.word call.wordId) = some word ∧
    ¬ (call.request.submittedAnswer.all isText = true ∧
      Room state.toReviewState
        (assessReview unicode call.request.toReviewRequest word.definition).effectiveRating
        call.request.answerMode)

/-- There is no response that the key still keeps. -/
def Unanswered (db : LearningDb) (loadedAt : Instant) (call : ReviewCall) : Prop :=
  ∀ k, call.key = some k → ∀ r, keptRow call.userId k db = some r → r.expiresAt ≤ loadedAt

/-- The values of the request or of the card make a statement fail. -/
structure Jams (unicode : Unicode) (db : LearningDb) (loadedAt : Instant) (call : ReviewCall) :
    Prop where
  unanswered : Unanswered db loadedAt call
  fails : Unstorable unicode db call ∨
    (call.key.isSome = true ∧ TurnedDown db call ∧ bindable call = false)

end Conditions

section Review

/-- The lesson, or the item, refuses the review. -/
def refusal (db : LearningDb) (call : ReviewCall) : Option LessonError :=
  match (db.lookup (.lesson call.lessonId) : Option LessonRow).filter
      (LessonRow.activeOf call.userId) with
  | none => some .lessonItemNotFound
  | some lesson =>
    if lesson.version ≠ call.request.lessonVersion then some .lessonVersionConflict
    else if lesson.studyMode ≠ call.request.answerMode then some .lessonModeMismatch
    else match (db.lookup (.item call.lessonId call.wordId) : Option ItemRow) with
    | none => some .lessonItemNotFound
    | some item =>
      if item.rating.isSome then some .lessonItemAlreadyReviewed
      else if item.position ≠ lesson.currentIndex then some .lessonItemOutOfOrder
      else none

theorem refusal_none (h : refusal db call = none) :
    ∃ lesson item, CurrentItem db call lesson item := by
  unfold refusal at h
  cases hlesson : (db.lookup (.lesson call.lessonId) : Option LessonRow).filter
      (LessonRow.activeOf call.userId) with
  | none => simp [hlesson] at h
  | some lesson =>
    obtain ⟨hfound, hactive⟩ := Option.filter_eq_some_iff.1 hlesson
    rw [hlesson] at h
    dsimp only at h
    by_cases hversion : lesson.version = call.request.lessonVersion
    · by_cases hmode : lesson.studyMode = call.request.answerMode
      · rw [if_neg (not_not.2 hversion), if_neg (not_not.2 hmode)] at h
        cases hitem : (db.lookup (.item call.lessonId call.wordId) : Option ItemRow) with
        | none => simp [hitem] at h
        | some item =>
          rw [hitem] at h
          dsimp only at h
          by_cases hrating : item.rating.isSome = true
          · simp [hrating] at h
          · by_cases hposition : item.position = lesson.currentIndex
            · exact ⟨lesson, item, hfound, hactive, hversion, hmode, hitem, by simpa using hrating,
                hposition⟩
            · simp [hrating, hposition] at h
      · simp [hversion, hmode] at h
    · simp [hversion] at h

theorem refusal_current {lesson : LessonRow} {item : ItemRow} (h : CurrentItem db call lesson item) :
    refusal db call = none := by
  have hlesson : (db.lookup (.lesson call.lessonId) : Option LessonRow).filter
      (LessonRow.activeOf call.userId) = some lesson := by
    rw [h.foundLesson]
    simp [h.active]
  unfold refusal
  rw [hlesson]
  simp [h.version, h.mode, h.foundItem, h.unreviewed, h.position]

/-- All but a wrong mode make the server look further. -/
theorem recoverable_iff {e : LessonError} (h : refusal db call = some e) :
    recoverableIdempotencyConflict e = true ↔ TurnedDown db call := by
  have hnot : ∀ lesson item, ¬ CurrentItem db call lesson item := by
    intro lesson item current
    rw [refusal_current current] at h
    cases h
  unfold refusal at h
  unfold TurnedDown
  cases hlesson : (db.lookup (.lesson call.lessonId) : Option LessonRow).filter
      (LessonRow.activeOf call.userId) with
  | none =>
    rw [hlesson] at h
    cases h
    refine iff_of_true rfl ⟨hnot, fun lesson hfound hactive _ => ?_⟩
    simp [hfound, hactive] at hlesson
  | some lesson =>
    obtain ⟨hfound, hactive⟩ := Option.filter_eq_some_iff.1 hlesson
    have same : ∀ l : LessonRow, db.lookup (.lesson call.lessonId) = some l → l = lesson := by
      intro l hl
      rw [hfound] at hl
      exact (Option.some.inj hl).symm
    rw [hlesson] at h
    dsimp only at h
    by_cases hversion : lesson.version = call.request.lessonVersion
    · by_cases hmode : lesson.studyMode = call.request.answerMode
      · have turned : TurnedDown db call := ⟨hnot, fun l hl _ _ => same l hl ▸ hmode⟩
        rw [if_neg (not_not.2 hversion), if_neg (not_not.2 hmode)] at h
        refine iff_of_true ?_ turned
        cases hitem : (db.lookup (.item call.lessonId call.wordId) : Option ItemRow) with
        | none =>
          rw [hitem] at h
          cases h
          rfl
        | some item =>
          rw [hitem] at h
          dsimp only at h
          split at h
          · cases h
            rfl
          · split at h
            · cases h
              rfl
            · cases h
      · rw [if_neg (not_not.2 hversion), if_pos hmode] at h
        cases h
        exact iff_of_false (by decide) fun turned => hmode (turned.2 lesson hfound hactive hversion)
    · rw [if_pos hversion] at h
      cases h
      exact iff_of_true rfl
        ⟨hnot, fun l hl _ hv => absurd (same l hl ▸ hv) hversion⟩

/-- A review that is refused reads, and that is all. -/
theorem solo_refused {e : LessonError} {choices : List Nat} (h : refusal db call = some e) :
    solo (reviewLessonWord unicode call) ⟨db, db, choices⟩ = some (.error e, ⟨db, db, choices⟩) := by
  unfold refusal at h
  rw [reviewLessonWord, solo_bind, lockLesson, solo_selectFor, Option.bind_some]
  dsimp only
  cases hlesson : (db.lookup (.lesson call.lessonId) : Option LessonRow).filter
      (LessonRow.activeOf call.userId) with
  | none =>
    rw [hlesson] at h
    cases h
    rfl
  | some lesson =>
    rw [hlesson] at h
    dsimp only at h ⊢
    split at h
    · cases h
      rw [if_pos ‹_›]
      rfl
    rw [if_neg ‹_›]
    split at h
    · cases h
      rw [if_pos ‹_›]
      rfl
    rw [if_neg ‹_›, solo_bind, lockItem, solo_selectFor, Option.bind_some]
    dsimp only
    have hall : ∀ o : Option ItemRow, (o.filter fun _ => true) = o := by
      rintro (_ | _) <;> rfl
    rw [hall]
    cases hitem : (db.lookup (.item call.lessonId call.wordId) : Option ItemRow) with
    | none =>
      rw [hitem] at h
      cases h
      rfl
    | some item =>
      rw [hitem] at h
      dsimp only at h ⊢
      split at h
      · cases h
        rw [if_pos ‹_›]
        rfl
      rw [if_neg ‹_›]
      split at h
      · cases h
        rw [if_pos ‹_›]
        rfl
      · cases h

/-- A request as the handler passes it on. -/
structure WellFormed (request : ReviewRequest) : Prop where
  responseMs : ∀ ms, request.responseMs = some ms → 0 ≤ ms ∧ ms ≤ 3600000
  answer : ∀ submitted, request.submittedAnswer = some submitted → submitted.length ≤ 500
  revealed : request.answerMode = .study → request.answerRevealed = some true

theorem wellFormed_of_accepted {request accepted : ReviewRequest}
    (h : acceptReview request = .ok accepted) : WellFormed accepted := by
  have hms : ∀ ms, request.responseMs = some ms → 0 ≤ ms ∧ ms ≤ 3600000 := by
    intro ms hms
    by_contra hrange
    have hbad : (ms < 0 || 3600000 < ms) = true := by
      simp only [Bool.or_eq_true, decide_eq_true_eq]
      omega
    simp [acceptReview, checkResponseMs, hms, hbad, bind, Except.bind] at h
  have hnormal : normalizeAndValidateReviewRequest request = .ok accepted := by
    unfold acceptReview at h
    cases hcheck : checkResponseMs request with
    | error why =>
      rw [hcheck] at h
      cases h
    | ok =>
      rw [hcheck] at h
      exact h
  unfold normalizeAndValidateReviewRequest at hnormal
  dsimp only at hnormal
  split at hnormal
  · cases hnormal
  rename_i hlength
  have hanswer : ∀ submitted, request.submittedAnswer.map trimSpace = some submitted →
      submitted.length ≤ 500 := by
    intro submitted hsubmitted
    rw [hsubmitted, Option.any_some, decide_eq_true_eq, not_lt] at hlength
    exact hlength
  split at hnormal
  · split at hnormal
    · cases hnormal
    · split at hnormal
      · cases hnormal
      · rename_i hrevealed
        cases hnormal
        exact ⟨hms, hanswer, fun _ => not_not.1 hrevealed⟩
  · rename_i hmode
    split at hnormal
    · cases hnormal
    · cases hnormal
      exact ⟨hms, hanswer, fun hstudy => absurd hstudy hmode⟩

theorem wellFormed_of_ok {raw : ReviewCall} (h : acceptLessonReview raw = .ok call) :
    WellFormed call.request.toReviewRequest := by
  unfold acceptLessonReview at h
  split at h
  · cases h
  · cases haccept : acceptReview raw.request.toReviewRequest with
    | error why =>
      rw [haccept] at h
      cases h
    | ok request =>
      rw [haccept] at h
      cases h
      exact wellFormed_of_accepted haccept

/-- What the handler lets through is well formed, but for characters that no column holds. -/
theorem storable_eq {request : ReviewRequest} (h : WellFormed request)
    {state : UserWordRow} {word : WordRow} {now : Instant} {u : UserId} {w : WordId}
    {kind : Option SessionKind} {reason : Option SelectionReason} :
    ((attempt unicode request state word now).event u w request now kind reason).storable =
      request.submittedAnswer.all isText := by
  have hms : (request.responseMs.all fun ms => 0 ≤ ms && ms ≤ 2147483647) = true := by
    cases hms : request.responseMs with
    | none => rfl
    | some ms =>
      have := h.responseMs ms hms
      simp only [Option.all_some, Bool.and_eq_true, decide_eq_true_eq]
      omega
  have hsubmitted : (attempt unicode request state word now).assessment.submittedAnswer =
      request.submittedAnswer := assessReview_submittedAnswer
  unfold EventRow.storable
  simp only [Attempt.event]
  rw [hms, hsubmitted, Bool.true_and]
  have hanswer : (request.submittedAnswer.all fun submitted =>
      isText submitted && submitted.length ≤ 500) = request.submittedAnswer.all isText := by
    cases hs : request.submittedAnswer with
    | none => rfl
    | some submitted => simp [h.answer submitted hs]
  rw [hanswer]
  by_cases hmode : request.answerMode = .study
  · have hcorrect : (attempt unicode request state word now).assessment.correct = none := by
      change (assessReview unicode request word.definition).correct = none
      simp [assessReview, exposure, hmode, AnswerMode.objective]
    simp [hmode, hcorrect, h.revealed hmode]
  · simp [hmode]

theorem keptKeys_length {db db' : LearningDb}
    (h : ∀ u k, db'.lookup (.idempotency u k) = db.lookup (.idempotency u k)) :
    (keptKeys db').length = (keptKeys db).length := by
  have same : ∀ key, key ∈ keptKeys db' ↔ key ∈ keptKeys db := by
    intro key
    unfold keptKeys
    rw [mem_rowsWhere, mem_rowsWhere]
    cases key with
    | idempotency u k => rw [h u k]
    | _ => simp [idempotencyRows]
  exact ((List.perm_ext_iff_of_nodup (rowsWhere_nodup _ _) (rowsWhere_nodup _ _)).2 same).length_eq

/-- The rows that keeping a response reads are still there. -/
structure Ready (db : LearningDb) (call : ReviewCall) (s : Solo Row) : Prop where
  committed : s.committed = s.view
  lesson : (s.view.lookup (.lesson call.lessonId)).isSome = true
  word : (s.view.lookup (.word call.wordId)).isSome = true
  kept : ∀ u k, s.view.lookup (.idempotency u k) = db.lookup (.idempotency u k)

variable {lesson : LessonRow} {item : ItemRow} {now e : Nat} {rest : List Nat}

/-- Whether the columns can hold what a review of the card comes to. -/
theorem unstorable_iff (current : CurrentItem db call lesson item) {state : UserWordRow}
    {word : WordRow} (hstate : db.lookup (.userWord call.userId call.wordId) = some state)
    (hword : db.lookup (.word call.wordId) = some word) (hsound : Sound state.toReviewState)
    (hwell : WellFormed call.request.toReviewRequest) :
    ((attempt unicode call.request.toReviewRequest state word now).fits &&
      ((attempt unicode call.request.toReviewRequest state word now).event call.userId call.wordId
        call.request.toReviewRequest now lesson.sessionKind item.selectionReason).storable) = false ↔
      Unstorable unicode db call := by
  have hfits : (attempt unicode call.request.toReviewRequest state word now).fits = true ↔
      Room state.toReviewState
        (assessReview unicode call.request.toReviewRequest word.definition).effectiveRating
        call.request.answerMode := fits_iff hsound ⟨_, _, now⟩
  have hboth : ((attempt unicode call.request.toReviewRequest state word now).fits &&
      ((attempt unicode call.request.toReviewRequest state word now).event call.userId call.wordId
        call.request.toReviewRequest now lesson.sessionKind item.selectionReason).storable) = false ↔
      ¬ (call.request.submittedAnswer.all isText = true ∧
        Room state.toReviewState
          (assessReview unicode call.request.toReviewRequest word.definition).effectiveRating
          call.request.answerMode) := by
    rw [storable_eq hwell, ← hfits, ← Bool.not_eq_true, Bool.and_eq_true]
    exact not_congr and_comm
  rw [hboth]
  constructor
  · exact fun h => ⟨lesson, item, state, word, current, hstate, hword, h⟩
  · rintro ⟨-, -, state', word', -, hstate', hword', h⟩
    rw [hstate] at hstate'
    rw [hword] at hword'
    cases hstate'
    cases hword'
    exact h

/-- The sequence behind the events is ahead of all there are. -/
theorem events_isEmpty (hnext : ∀ e' r, db.lookup (.event e') = some r → e' < e) :
    (rowsWhere (events fun e' _ => e ≤ e') db).isEmpty = true := by
  rw [List.isEmpty_iff, List.eq_nil_iff_forall_not_mem]
  intro key hmem
  obtain ⟨r, hr, hp⟩ := mem_rowsWhere.1 hmem
  cases key with
  | event e' =>
    have hle : e ≤ e' := by simpa [events] using hp
    exact absurd (hnext e' r hr) (Nat.not_lt.2 hle)
  | _ => simp [events] at hp

/-- How the review of the item that a lesson has come to can end. -/
inductive Concluded (unicode : Unicode) (db : LearningDb) (call : ReviewCall) (rest : List Nat) :
    Reply LessonReviewResult → Solo Row → Prop
  | written {result : LessonReviewResult} {s : Solo Row} : ¬ Unstorable unicode db call →
      s.choices = rest → Ready db call s → Concluded unicode db call rest (.ok result) s
  | unassigned {s : Solo Row} : ¬ Unstorable unicode db call → s.committed = db →
      Concluded unicode db call rest (.error .wordNotFound) s
  | failed {s : Solo Row} : Unstorable unicode db call → s.committed = db →
      Concluded unicode db call rest (.error .internal) s

theorem ends_current (current : CurrentItem db call lesson item)
    (hwell : WellFormed call.request.toReviewRequest)
    (hsound : ∀ state : UserWordRow, db.lookup (.userWord call.userId call.wordId) = some state →
      Sound state.toReviewState)
    (hnext : ∀ e' r, db.lookup (.event e') = some r → e' < e) :
    Ends (reviewLessonWord unicode call) ⟨db, db, now :: e :: rest⟩
      (Concluded unicode db call rest) := by
  have hlesson : (db.lookup (.lesson call.lessonId) : Option LessonRow).filter
      (LessonRow.activeOf call.userId) = some lesson := by
    rw [current.foundLesson]
    simp [current.active]
  have hitem : (db.lookup (.item call.lessonId call.wordId) : Option ItemRow).filter
      (fun _ => true) = some item := by
    rw [current.foundItem]
    rfl
  rw [reviewLessonWord, ends_bind, lockLesson, ends_selectFor]
  dsimp only
  rw [hlesson]
  dsimp only
  rw [if_neg (not_not.2 current.version), if_neg (not_not.2 current.mode), ends_bind, lockItem,
    ends_selectFor]
  dsimp only
  rw [hitem]
  dsimp only
  rw [if_neg (by simp [current.unreviewed]), if_neg (not_not.2 current.position), ends_bind,
    ends_of_solo solo_lockUserWord]
  dsimp only
  cases hstate : (db.lookup (.userWord call.userId call.wordId) : Option UserWordRow) with
  | none =>
    refine (ends_leave _).2 (.unassigned ?_ rfl)
    rintro ⟨-, -, state, -, -, hfound, -, -⟩
    rw [hstate] at hfound
    cases hfound
  | some state =>
    dsimp only
    rw [ends_bind, ends_of_solo solo_wordRow]
    dsimp only
    cases hword : (db.lookup (.word call.wordId) : Option WordRow) with
    | none =>
      refine (ends_leave _).2 (.unassigned ?_ rfl)
      rintro ⟨-, -, -, word, -, -, hfound, -⟩
      rw [hword] at hfound
      cases hfound
    | some word =>
      dsimp only
      rw [ends_bind, ends_choose rfl]
      have hunstorable := @unstorable_iff unicode _ _ _ _ now current _ _ hstate hword
        (hsound state hstate) hwell
      generalize attempt unicode call.request.toReviewRequest state word now = a at hunstorable ⊢
      cases hfits : a.fits with
      | false =>
        rw [hfits] at hunstorable
        rw [Bool.not_false, if_pos rfl]
        exact (ends_leave _).2 (.failed (hunstorable.1 rfl) rfl)
      | true =>
        rw [hfits, Bool.true_and] at hunstorable
        rw [Bool.not_true, if_neg (by simp), ends_bind, ends_writeRow (.inl rfl), ends_bind]
        obtain ⟨⟨committed, view, choices⟩, hcommitted, hchoices, hsolo, hview⟩ :=
          @solo_record call.userId call.wordId e ⟨db, db, e :: rest⟩ rest
            (a.event call.userId call.wordId call.request.toReviewRequest now
              lesson.sessionKind item.selectionReason) rfl (a.row now)
            (by exact Option.isSome_iff_exists.2 ⟨word, hword⟩)
        have hcommitted : committed = db := hcommitted
        have hchoices : choices = rest := hchoices
        dsimp only at hsolo hview
        rw [events_isEmpty hnext, Bool.true_and] at hsolo hview
        rw [ends_of_solo hsolo]
        cases hstorable : (a.event call.userId call.wordId call.request.toReviewRequest now
            lesson.sessionKind item.selectionReason).storable with
        | false =>
          rw [if_neg (by simp)]
          exact (ends_leave _).2 (.failed (hunstorable.1 hstorable) hcommitted)
        | true =>
          rw [if_pos rfl]
          dsimp only
          have hview : view = _ := hview hstorable
          rw [ends_bind, ends_writeRow (.inl rfl), ends_bind, ends_select]
          generalize lessonProgress call.lessonId _ = progress
          have hsame : (view.lookup (.lesson call.lessonId) : Option LessonRow) = some lesson := by
            rw [hview, lookup_set_ne (by simp), lookup_set_ne (by simp), current.foundLesson]
          have howner : lesson.userId = call.userId := (activeOf_iff.1 current.active).1
          have hfilter : ((set (Key.item call.lessonId call.wordId)
              (some (item.rate call.request.rating now)) view).lookup (.lesson call.lessonId) :
                Option LessonRow).filter (fun r => r.userId = call.userId &&
                  r.version = call.request.lessonVersion) = some lesson := by
            rw [lookup_set_ne (by simp), hsame]
            simp [howner, current.version]
          rw [ends_bind, updateLesson, ends_of_solo (solo_updateRow (.inl rfl) _ _ _)]
          simp only [Solo.put]
          rw [hfilter]
          dsimp only
          have ready : ∀ row, Ready db call ⟨set (Key.lesson call.lessonId) (some row)
              (set (Key.item call.lessonId call.wordId) (some (item.rate call.request.rating now))
                view), set (Key.lesson call.lessonId) (some row)
              (set (Key.item call.lessonId call.wordId) (some (item.rate call.request.rating now))
                view), choices⟩ := by
            intro row
            refine ⟨rfl, ?_, ?_, fun u k => ?_⟩
            · rw [lookup_set_self]
              rfl
            · rw [lookup_set_ne (by simp), lookup_set_ne (by simp), hview, lookup_set_ne (by simp),
                lookup_set_ne (by simp), hword]
              rfl
            · rw [lookup_set_ne (by simp), lookup_set_ne (by simp), hview, lookup_set_ne (by simp),
                lookup_set_ne (by simp)]
          have stored : ¬ Unstorable unicode db call := mt hunstorable.2 (by simp [hstorable])
          by_cases hdone : progress.completed = true
          · rw [if_pos hdone, ends_bind, ends_lockRow, ends_bind, ends_commit, ends_pure]
            exact .written stored hchoices (ready _)
          · rw [if_neg hdone, ends_bind, ends_commit, ends_pure]
            exact .written stored hchoices (ready _)

end Review

section Keeping

theorem ends_skipLocked (limit : Nat) (keys : List Key) {Q : List Key → Solo Row → Prop}
    (henough : keys.length ≤ s.choices.length)
    (h : ∀ taken rest, taken ⊆ keys → s.choices.length ≤ rest.length + keys.length →
      Q taken { s with choices := rest }) :
    Ends (skipLocked limit keys) s Q := by
  induction keys generalizing limit s Q with
  | nil => exact (ends_pure _).2 (h [] s.choices (fun _ hk => hk) (by simp))
  | cons key rest ih =>
    cases limit with
    | zero =>
      exact (ends_pure _).2 (h [] s.choices (fun _ hk => by cases hk) (by simp))
    | succ limit =>
      cases hchoices : s.choices with
      | nil => simp [hchoices] at henough
      | cons n choices =>
        rw [hchoices] at henough h
        have henough' : rest.length ≤ choices.length := by simpa using henough
        rw [skipLocked, ends_bind, ends_choose hchoices]
        split
        · refine ih _ henough' fun taken left hsub hlen => h taken left ?_ ?_
          · exact fun _ hk => List.mem_cons_of_mem _ (hsub hk)
          · simp only [List.length_cons]
            dsimp only at hlen
            omega
        · rw [ends_bind]
          refine ih _ henough' fun taken left hsub hlen => (ends_pure _).2 (h _ left ?_ ?_)
          · intro k hk
            rcases List.mem_cons.1 hk with rfl | hk
            · exact List.mem_cons_self
            · exact List.mem_cons_of_mem _ (hsub hk)
          · simp only [List.length_cons]
            dsimp only at hlen
            omega

theorem expiredRows_kept {u : UserId} {now : Instant} :
    (∀ key ∈ expiredRows u k now db, ∃ u' k', key = .idempotency u' k') ∧
      (expiredRows u k now db).length ≤ (keptKeys db).length := by
  have found : ∀ key, key ∈ expiredRows u k now db → key ∈ rowsWhere (idempotencyRows fun u' k' r =>
      r.expiresAt ≤ now && (u' ≠ u || k' ≠ k)) db := by
    intro key hkey
    exact (List.mem_insertionSort _).1 hkey
  constructor
  · intro key hkey
    obtain ⟨r, -, hp⟩ := mem_rowsWhere.1 (found key hkey)
    cases key with
    | idempotency u' k' => exact ⟨u', k', rfl⟩
    | _ => simp [idempotencyRows] at hp
  · have nodup : (expiredRows u k now db).Nodup :=
      (List.perm_insertionSort _ _).nodup_iff.2 (rowsWhere_nodup _ _)
    refine (nodup.subperm fun key hkey => ?_).length_le
    obtain ⟨r, hr, hp⟩ := mem_rowsWhere.1 (found key hkey)
    refine mem_rowsWhere.2 ⟨r, hr, ?_⟩
    cases key with
    | idempotency u' k' => rfl
    | _ => simp [idempotencyRows] at hp

/-- What sweeping up leaves of the rows that a new one refers to. -/
theorem ends_sweepExpired {u : UserId} {now : Instant} {Q : List Key → Solo Row → Prop}
    (henough : (keptKeys s.view).length + 1 ≤ s.choices.length)
    (h : ∀ swept s', s'.choices ≠ [] →
      (∀ key, (∀ u' k', key ≠ .idempotency u' k') → s'.view.lookup key = s.view.lookup key) →
      Q swept s') : Ends (sweepExpired u k now) s Q := by
  obtain ⟨hkeys, hlength⟩ := @expiredRows_kept s.view k u now
  rw [sweepExpired, ends_bind, ends_select, ends_bind]
  refine ends_skipLocked _ _ (by omega) fun taken rest hsub hlen => ?_
  refine ends_changeEach (.inr rfl) _ fun swept s' _ hchoices hview => h swept s' ?_ ?_
  · rw [hchoices]
    rintro rfl
    simp at hlen
    omega
  · intro key hne
    refine hview key fun hmem => ?_
    obtain ⟨u', k', rfl⟩ := hkeys key (hsub hmem)
    exact hne u' k' rfl

theorem ends_referenceLesson {l : LessonId} {Q : Bool → Solo Row → Prop} :
    Ends (referenceLesson l) s Q ↔ Q (s.view.lookup (.lesson l)).isSome s := ends_of_solo rfl

theorem ends_referenceWord {w : WordId} {Q : Bool → Solo Row → Prop} :
    Ends (referenceWord w) s Q ↔ Q (s.view.lookup (.word w)).isSome s := ends_of_solo rfl

/-- With the rows there that the new one refers to, a response is kept, or else another
one is found under the key. -/
theorem ends_store {response : LessonReviewResult} (ready : Ready db call s)
    (henough : (keptKeys db).length + 2 ≤ s.choices.length)
    {Q : Reply Unit → Solo Row → Prop} (hkept : ∀ s', Q (.ok ()) s')
    (hreused : ∀ s', Q (.error .idempotencyKeyReused) s') :
    Ends (storeIdempotentLessonReview call k response) s Q := by
  have hlength : (keptKeys s.view).length = (keptKeys db).length := keptKeys_length ready.kept
  cases hchoices : s.choices with
  | nil => simp [hchoices] at henough
  | cons now rest =>
    rw [hchoices] at henough
    have henough : (keptKeys s.view).length + 1 ≤ rest.length := by
      rw [hlength]
      simpa using henough
    rw [storeIdempotentLessonReview, ends_bind, ends_choose hchoices, ends_bind]
    refine ends_sweepExpired henough fun swept s' hmore hview => ?_
    have hlesson : (s'.view.lookup (.lesson call.lessonId)).isSome = true := by
      rw [hview _ (by simp)]
      exact ready.lesson
    have hword : (s'.view.lookup (.word call.wordId)).isSome = true := by
      rw [hview _ (by simp)]
      exact ready.word
    rw [ends_bind, upsertKept, ends_bind, ends_lockRow, ends_bind, ends_select]
    split
    · rw [ends_bind, ends_writeRow (.inr rfl), ends_pure, if_pos rfl]
      generalize hput : s'.put (.idempotency call.userId k)
        (some (keptResponse call response now)) = s''
      have hlesson' : (s''.view.lookup (.lesson call.lessonId)).isSome = true := by
        rw [← hput, Solo.put, lookup_set_ne (by simp), hlesson]
      have hword' : (s''.view.lookup (.word call.wordId)).isSome = true := by
        rw [← hput, Solo.put, lookup_set_ne (by simp), hword]
      rw [ends_bind, ends_referenceLesson, if_neg (by simp [hlesson']), ends_bind,
        ends_referenceWord, if_neg (by simp [hword']), ends_bind, ends_commit, ends_pure]
      exact hkept _
    · rw [ends_pure, if_neg (by simp), ends_bind, ends_commit, ends_bind]
      obtain ⟨n, more, hmore⟩ := List.exists_cons_of_ne_nil hmore
      rw [loadIdempotentLessonReview, ends_bind]
      refine (@ends_choose _ _ _ _ ⟨s'.view, s'.view, s'.choices⟩ n more _ hmore).2 ?_
      rw [ends_query]
      split
      · rw [ends_pure]
        split
        · exact hreused _
        · exact hkept _
      all_goals exact (ends_pure _).2 (hreused _)

/-- What the handler makes of a refusal. -/
theorem refusal_definite {e : LessonError} (h : refusal db call = some e) :
    (reviewError e).status < 500 := by
  unfold refusal at h
  split at h
  · cases h
    decide
  · split at h
    · cases h
      decide
    · split at h
      · cases h
        decide
      · split at h
        · cases h
          decide
        · split at h
          · cases h
            decide
          · split at h <;> cases h
            decide

/-- A review that was committed before is found with all that is asked of it. -/
theorem recovered_ok (rated : ∀ r : ItemRow, db.lookup (.item call.lessonId call.wordId) = some r →
    r.rating.isSome = r.reviewedAt.isSome) :
    ∃ found, recovered unicode call (recoverySnapshot call db) = .ok found ∧
      (found.isSome = true → (db.lookup (.lesson call.lessonId)).isSome = true ∧
        (db.lookup (.userWord call.userId call.wordId)).isSome = true) := by
  cases hsnapshot : recoverySnapshot call db with
  | none => exact ⟨none, rfl, fun h => by cases h⟩
  | some found =>
    have h := recoverySnapshot_iff.1 hsnapshot
    have hlesson : db.lookup (.lesson call.lessonId) = some found.lesson := h.lesson
    have huser : db.lookup (.userWord call.userId call.wordId) = some found.userWord := h.userWord
    have hfits := h.fits
    simp only [fitsCall, Bool.and_eq_true, decide_eq_true_eq] at hfits
    have hreviewed : some found.event.reviewedAt = found.item.reviewedAt := by tauto
    have hrating : found.item.rating.isSome = true := by
      rw [rated _ h.item, ← hreviewed]
      rfl
    obtain ⟨rating, hrating⟩ := Option.isSome_iff_exists.1 hrating
    simp only [recovered, hrating, ← hreviewed]
    split
    · exact ⟨none, rfl, fun h => by cases h⟩
    · exact ⟨_, rfl, fun _ => ⟨by rw [hlesson]; rfl, by rw [huser]; rfl⟩⟩

end Keeping

section Whole
variable {env : Environment}

/-- Nothing about the call makes a statement fail, should its key keep no response. -/
def Unhindered (unicode : Unicode) (db : LearningDb) (call : ReviewCall) : Prop :=
  ¬ Unstorable unicode db call ∧ (TurnedDown db call → bindable call = true)

/-- What is known once a review has been made, or found. -/
structure Settled (unicode : Unicode) (db : LearningDb) (call : ReviewCall)
    (reply : Reply LessonReviewResult) (s : Solo Row) : Prop where
  done : ∀ result, reply = .ok result →
    Ready db call s ∧ (keptKeys db).length + 2 ≤ s.choices.length ∧ Unhindered unicode db call
  refused : ∀ e, reply = .error e →
    ((reviewError e).status < 500 ↔ Unhindered unicode db call) ∧ s.committed = db

theorem settled_error {e : LessonError}
    (h : (reviewError e).status < 500 ↔ Unhindered unicode db call) (hs : s.committed = db) :
    Settled unicode db call (.error e) s := by
  refine ⟨fun result hr => (nomatch hr), fun e' he => ?_⟩
  cases he
  exact ⟨h, hs⟩

theorem ends_recover (hsuits : Suits (view db)) {choices : List Nat}
    {Q : Reply (Option LessonReviewResult) → Solo Row → Prop}
    (hfails : bindable call = false → Q (.error .internal) ⟨db, db, choices⟩)
    (hfound : ∀ found, bindable call = true → (found.isSome = true →
      (db.lookup (.lesson call.lessonId)).isSome = true ∧
        (db.lookup (.userWord call.userId call.wordId)).isSome = true) →
      Q (.ok found) ⟨db, db, choices⟩) :
    Ends (recoverCommittedLessonReview unicode call) ⟨db, db, choices⟩ Q := by
  unfold recoverCommittedLessonReview
  cases hbindable : bindable call with
  | false =>
    rw [Bool.not_false, if_pos rfl, ends_pure]
    exact hfails hbindable
  | true =>
    obtain ⟨found, hok, hrows⟩ := @recovered_ok unicode db call (hsuits.rated _ _)
    rw [Bool.not_true, if_neg (by simp), ends_bind, ends_query, ends_pure, hok]
    exact hfound found hbindable hrows

/-- How a call ends whose key keeps no response. -/
theorem ends_reviewOrRecover (hsuits : Suits (view db)) (hwell : WellFormed call.request.toReviewRequest)
    (henv : env.Healthy db) :
    Ends (reviewOrRecover unicode call) ⟨db, db, env.reviewedAt :: env.eventId :: env.later⟩
      (Settled unicode db call) := by
  rw [reviewOrRecover, ends_bind]
  cases hrefusal : refusal db call with
  | some e =>
    have hstorable : ¬ Unstorable unicode db call := by
      rintro ⟨lesson, item, -, -, current, -⟩
      rw [refusal_current current] at hrefusal
      cases hrefusal
    rw [ends_of_solo (solo_refused hrefusal)]
    dsimp only
    split
    · rename_i hrecoverable
      have henough := henv.enough
      have hturned := (recoverable_iff hrefusal).1 hrecoverable
      rw [ends_bind]
      refine ends_recover hsuits (fun hbindable => ?_) (fun found hbindable hrows => ?_)
      · refine (ends_pure _).2 (settled_error (iff_of_false (by decide) fun h => ?_) rfl)
        rw [h.2 hturned] at hbindable
        cases hbindable
      · cases found with
        | none =>
          exact (ends_pure _).2 (settled_error (iff_of_true (refusal_definite hrefusal)
            ⟨hstorable, fun _ => hbindable⟩) rfl)
        | some result =>
          obtain ⟨hlesson, huser⟩ := hrows rfl
          have hword : (db.lookup (.word call.wordId)).isSome = true := hsuits.learned _ _ huser
          refine (ends_pure _).2 ⟨fun _ _ => ⟨⟨rfl, hlesson, hword, fun _ _ => rfl⟩, ?_, hstorable,
            fun _ => hbindable⟩, fun e' he => nomatch he⟩
          simp only [List.length_cons]
          omega
    · rename_i hrecoverable
      rw [recoverable_iff hrefusal] at hrecoverable
      exact (ends_pure _).2 (settled_error (iff_of_true (refusal_definite hrefusal)
        ⟨hstorable, fun hturned => absurd hturned hrecoverable⟩) rfl)
  | none =>
    obtain ⟨lesson, item, current⟩ := refusal_none hrefusal
    have hturned : ¬ TurnedDown db call := fun h => h.1 lesson item current
    refine (ends_current current hwell (hsuits.sound _ _) henv.next).mono fun reply s h => ?_
    cases h with
    | written hstorable hchoices ready =>
      refine (ends_pure _).2 ⟨fun result _ => ⟨ready, ?_, hstorable, fun h => absurd h hturned⟩,
        fun e he => nomatch he⟩
      rw [hchoices]
      exact henv.enough
    | unassigned hstorable hcommitted =>
      exact (ends_pure _).2 (settled_error (iff_of_true (by decide)
        ⟨hstorable, fun h => absurd h hturned⟩) hcommitted)
    | failed hunstorable hcommitted =>
      exact (ends_pure _).2 (settled_error (iff_of_false (by decide)
        fun h => h.1 hunstorable) hcommitted)

/-- The reply is a result, or a refusal that the handler blames on the client. -/
def Definite (reply : Reply LessonReviewResult) : Prop :=
  ∀ e, reply = .error e → (reviewError e).status < 500

@[simp] theorem definite_ok (result : LessonReviewResult) : Definite (.ok result) :=
  fun _ he => (nomatch he)

@[simp] theorem definite_error {e : LessonError} :
    Definite (.error e) ↔ (reviewError e).status < 500 :=
  ⟨fun h => h e rfl, fun h e' he => by cases he; exact h⟩

/-- The end of a call: definite, but for the values that make a statement fail. -/
structure Answers (unicode : Unicode) (db : LearningDb) (loadedAt : Instant) (call : ReviewCall)
    (reply : Reply LessonReviewResult) (s : Solo Row) : Prop where
  definite : Definite reply ↔ ¬ Jams unicode db loadedAt call
  unchanged : ¬ Definite reply → s.committed = db

theorem answers_definite {loadedAt : Instant} {reply : Reply LessonReviewResult}
    (hreply : Definite reply) (h : ¬ Jams unicode db loadedAt call) :
    Answers unicode db loadedAt call reply s :=
  ⟨iff_of_true hreply h, fun hn => absurd hreply hn⟩

/-- Without a key there is nothing to look for. -/
theorem ends_keyless (hsuits : Suits (view db)) (hwell : WellFormed call.request.toReviewRequest)
    (henv : env.Healthy db) (hkey : call.key = none) :
    Ends (reviewLessonWord unicode call) ⟨db, db, env.reviewedAt :: env.eventId :: env.later⟩
      (Answers unicode db env.loadedAt call) := by
  have hjams : Jams unicode db env.loadedAt call ↔ Unstorable unicode db call := by
    refine ⟨fun h => h.fails.resolve_right fun hk => ?_, fun h => ⟨fun k hk => ?_, .inl h⟩⟩
    · simp [hkey] at hk
    · simp [hkey] at hk
  cases hrefusal : refusal db call with
  | some e =>
    rw [ends_of_solo (solo_refused hrefusal)]
    refine answers_definite (definite_error.2 (refusal_definite hrefusal)) fun h => ?_
    obtain ⟨lesson, item, -, -, current, -⟩ := hjams.1 h
    rw [refusal_current current] at hrefusal
    cases hrefusal
  | none =>
    obtain ⟨lesson, item, current⟩ := refusal_none hrefusal
    refine (ends_current current hwell (hsuits.sound _ _) henv.next).mono fun reply s h => ?_
    cases h with
    | written hstorable hchoices ready => exact answers_definite (definite_ok _) (mt hjams.1 hstorable)
    | unassigned hstorable hcommitted =>
      exact answers_definite (definite_error.2 (by decide)) (mt hjams.1 hstorable)
    | failed hunstorable hcommitted =>
      exact ⟨iff_of_false (by rw [definite_error]; decide) (not_not.2 (hjams.2 hunstorable)),
        fun _ => hcommitted⟩

theorem jams_iff (hkey : call.key.isSome = true) {loadedAt : Instant}
    (hunanswered : Unanswered db loadedAt call) :
    Jams unicode db loadedAt call ↔ ¬ Unhindered unicode db call := by
  constructor
  · rintro ⟨-, hunstorable | ⟨-, hturned, hbindable⟩⟩ h
    · exact h.1 hunstorable
    · rw [h.2 hturned] at hbindable
      cases hbindable
  · intro h
    refine ⟨hunanswered, ?_⟩
    by_cases hunstorable : Unstorable unicode db call
    · exact .inl hunstorable
    · refine .inr ⟨hkey, ?_⟩
      by_contra hn
      exact h ⟨hunstorable, fun hturned => by simpa [hturned] using hn⟩

/-- A call whose key keeps no response is made, and what comes of it is kept. -/
theorem ends_unanswered (hsuits : Suits (view db)) (hwell : WellFormed call.request.toReviewRequest)
    (henv : env.Healthy db) (hkey : call.key = some k) {loadedAt : Instant}
    (hunanswered : Unanswered db loadedAt call)
    {keep : LessonReviewResult → LearningProg (Reply LessonReviewResult)}
    (hkeep : ∀ result s, Ready db call s → (keptKeys db).length + 2 ≤ s.choices.length →
      Ends (keep result) s fun reply _ => Definite reply) :
    Ends (andThen (reviewOrRecover unicode call) keep)
      ⟨db, db, env.reviewedAt :: env.eventId :: env.later⟩ (Answers unicode db loadedAt call) := by
  have hjams : Jams unicode db loadedAt call ↔ ¬ Unhindered unicode db call :=
    jams_iff (by rw [hkey]; rfl) hunanswered
  unfold andThen
  rw [ends_bind]
  refine (ends_reviewOrRecover hsuits hwell henv).mono fun reply s settled => ?_
  cases reply with
  | error e =>
    obtain ⟨hstatus, hcommitted⟩ := settled.refused e rfl
    refine (ends_pure _).2 ⟨?_, fun _ => hcommitted⟩
    rw [definite_error, hstatus, hjams, not_not]
  | ok result =>
    obtain ⟨ready, henough, hunhindered⟩ := settled.done result rfl
    exact (hkeep result s ready henough).mono fun reply s' hreply =>
      answers_definite hreply fun h => hjams.1 h hunhindered

/-- What the key of a call has been found to keep. -/
theorem loaded_cases (hkey : call.key = some k) (loadedAt : Instant) :
    (Unanswered db loadedAt call ∧
      (loadedFrom call loadedAt (keptRow call.userId k db) = .absent ∨
        loadedFrom call loadedAt (keptRow call.userId k db) = .expired)) ∨
    (¬ Unanswered db loadedAt call ∧
      (loadedFrom call loadedAt (keptRow call.userId k db) = .reused ∨
        ∃ response, loadedFrom call loadedAt (keptRow call.userId k db) = .replayed response)) := by
  have hunanswered : Unanswered db loadedAt call ↔
      ∀ r, keptRow call.userId k db = some r → r.expiresAt ≤ loadedAt := by
    refine ⟨fun h => h k hkey, fun h k' hk' => ?_⟩
    rw [hkey] at hk'
    cases hk'
    exact h
  rw [hunanswered]
  cases keptRow call.userId k db with
  | none => exact .inl ⟨fun r hr => (nomatch hr), .inl rfl⟩
  | some r =>
    dsimp only [loadedFrom]
    by_cases hlive : r.expiresAt ≤ loadedAt
    · rw [if_pos hlive]
      refine .inl ⟨fun r' hr' => ?_, .inr rfl⟩
      cases hr'
      exact hlive
    · rw [if_neg hlive]
      refine .inr ⟨fun h => hlive (h r rfl), ?_⟩
      by_cases hhash : r.requestHash ≠ call.fingerprint
      · exact .inl (if_pos hhash)
      · exact .inr ⟨r.response, if_neg hhash⟩

theorem ends_idempotent (hsuits : Suits (view db)) (hwell : WellFormed call.request.toReviewRequest)
    (henv : env.Healthy db) :
    Ends (reviewLessonWordIdempotent unicode call) ⟨db, db, env.choices call.key⟩
      (Answers unicode db env.loadedAt call) := by
  unfold reviewLessonWordIdempotent
  cases hkey : call.key with
  | none => exact ends_keyless hsuits hwell henv hkey
  | some k =>
    have hchoices : env.choices (some k) =
      env.loadedAt :: env.reviewedAt :: env.eventId :: env.later := rfl
    dsimp only
    rw [ends_bind, loadIdempotentLessonReview, ends_bind, ends_choose hchoices, ends_query]
    dsimp only
    rcases loaded_cases hkey (env.loadedAt : Instant) with ⟨hunanswered, hload⟩ | ⟨hanswered, hload⟩
    · rcases hload with hload | hload
      all_goals
        rw [hload]
        refine ends_unanswered hsuits hwell henv hkey hunanswered fun result s ready henough => ?_
        rw [ends_bind]
        exact ends_store ready henough (fun s' => (ends_pure _).2 (definite_ok _))
          (fun s' => (ends_pure _).2 (definite_error.2 (by decide)))
    · have hnot : ¬ Jams unicode db env.loadedAt call := fun h => hanswered h.unanswered
      rcases hload with hload | ⟨response, hload⟩
      · rw [hload]
        exact (ends_pure _).2 (answers_definite (definite_error.2 (by decide)) hnot)
      · rw [hload]
        exact (ends_pure _).2 (answers_definite (definite_ok _) hnot)

end Whole

end DefiniteAnswers
