import LexiGo.Learning.DefiniteAnswers
import LexiGo.Learning.LessonConstraints

/-! The outbox in front of the server: which reviews the server has tried again for
ever, and what becomes of those behind them. -/
namespace OutboxProgress
open JsonValue RowStore TransactionProgram Interleaving SoloRun GoText AnswerJudgement LearningSchema
open LessonRepository LessonReviewIdempotency LearningService LessonHttp LearningContract
open LearningRuns DefiniteAnswers ReviewOutbox
open Scheduler (Instant)
open LessonConstraints (oneEnrolment)

variable {unicode : Unicode} {db : LearningDb} {env : Environment} {route : ReviewRoute} {body : Json}

/-- The server takes the review in, or tells the client that it never will. -/
def Settles (status : Nat) : Prop :=
  reviewResponseDisposition status = .synced ∨ reviewResponseDisposition status = .failed

/-- The handler passes the request on, and it makes a statement fail. -/
def Blocks (unicode : Unicode) (db : LearningDb) (loadedAt : Instant) (route : ReviewRoute)
    (body : Json) : Prop :=
  ∃ call, reviewCall route body = .ok call ∧ Jams unicode db loadedAt call

theorem acceptLessonReview_key {raw call : ReviewCall} (h : acceptLessonReview raw = .ok call) :
    call.key = raw.key := by
  unfold acceptLessonReview at h
  split at h
  · cases h
  · cases haccept : acceptReview raw.request.toReviewRequest with
    | error why =>
      rw [haccept] at h
      cases h
    | ok request =>
      rw [haccept] at h
      cases h
      rfl

/-- What the handler passes on is well formed; what it turns away is the client's fault. -/
theorem reviewCall_cases (route : ReviewRoute) (body : Json) :
    (∀ call, reviewCall route body = .ok call →
      WellFormed call.request.toReviewRequest ∧ call.key = route.key.join) ∧
    ∀ e, reviewCall route body = .error e → reviewResponseDisposition e.status = .failed := by
  have failed : ∀ {e : HttpError}, reviewResponseDisposition e.status = .failed →
      (∀ call, (.error e : Except HttpError ReviewCall) = .ok call →
        WellFormed call.request.toReviewRequest ∧ call.key = route.key.join) ∧
      ∀ e', (.error e : Except HttpError ReviewCall) = .error e' →
        reviewResponseDisposition e'.status = .failed :=
    fun he => ⟨fun _ h => (nomatch h), fun e' h => by cases h; exact he⟩
  have rejected : ∀ why, reviewResponseDisposition (rejectionError why).status = .failed := by
    intro why
    cases why <;> decide
  unfold reviewCall
  split
  · exact failed (by decide)
  split
  · exact failed (by decide)
  split
  · exact failed (by decide)
  rename_i key hkey
  split
  · exact failed (by decide)
  rename_i decoded _
  cases hrequest : reviewRequest decoded with
  | error e =>
    refine failed ?_
    unfold reviewRequest at hrequest
    split at hrequest
    · cases hrequest
      exact rejected _
    split at hrequest
    · cases hrequest
      decide
    split at hrequest
    · cases hrequest
      exact rejected _
    split at hrequest
    · cases hrequest
      decide
    · cases hrequest
  | ok request =>
    change (∀ call, (acceptLessonReview ⟨route.userId, _, _, request, key⟩).mapError rejectionError =
      .ok call → _) ∧ ∀ e, (acceptLessonReview ⟨route.userId, _, _, request, key⟩).mapError
        rejectionError = .error e → _
    cases haccept : acceptLessonReview ⟨route.userId, _, _, request, key⟩ with
    | error why => exact failed (rejected why)
    | ok accepted =>
      refine ⟨fun call h => ?_, fun e h => (nomatch h)⟩
      cases h
      exact ⟨wellFormed_of_ok haccept, by rw [acceptLessonReview_key haccept, hkey]; rfl⟩

theorem settles_reviewError (e : LessonError) :
    (Settles (reviewError e).status ↔ (reviewError e).status < 500) ∧
      (¬ (reviewError e).status < 500 → (reviewError e).status = 500) := by
  unfold Settles
  cases e <;> decide

/-- What the handler makes of a request when nothing stands in its way. -/
theorem ends_handler (hsuits : Suits (view db)) (healthy : env.Healthy db) (route : ReviewRoute)
    (body : Json) :
    Ends (reviewLessonWordHandler unicode route body) ⟨db, db, env.choices route.key.join⟩
      fun response s => (Settles (status response) ↔ ¬ Blocks unicode db env.loadedAt route body) ∧
        (Blocks unicode db env.loadedAt route body → status response = 500 ∧ s.committed = db) := by
  unfold reviewLessonWordHandler
  cases hcall : reviewCall route body with
  | error e =>
    have hnot : ¬ Blocks unicode db env.loadedAt route body := by
      rintro ⟨call, hok, -⟩
      rw [hcall] at hok
      cases hok
    exact (ends_pure _).2 ⟨iff_of_true (.inr ((reviewCall_cases route body).2 e hcall)) hnot, fun h => absurd h hnot⟩
  | ok call =>
    obtain ⟨hwell, hkey⟩ := (reviewCall_cases route body).1 call hcall
    have hblocks : Blocks unicode db env.loadedAt route body ↔ Jams unicode db env.loadedAt call := by
      refine ⟨fun ⟨call', hok, hjams⟩ => ?_, fun hjams => ⟨call, hcall, hjams⟩⟩
      rw [hcall] at hok
      cases hok
      exact hjams
    rw [hblocks, ← hkey]
    dsimp only
    rw [ends_bind]
    refine (ends_idempotent hsuits hwell healthy).mono fun reply s answers => (ends_pure _).2 ?_
    cases reply with
    | ok result =>
      have hnot := answers.definite.1 (definite_ok result)
      exact ⟨iff_of_true (.inl rfl) hnot, fun h => absurd h hnot⟩
    | error e =>
      obtain ⟨hsettles, hinternal⟩ := settles_reviewError e
      have hdefinite := answers.definite
      rw [definite_error] at hdefinite
      refine ⟨hsettles.trans hdefinite, fun h => ?_⟩
      have hnot : ¬ (reviewError e).status < 500 := fun hlt => hdefinite.1 hlt h
      exact ⟨hinternal hnot, answers.unchanged (by rwa [definite_error])⟩

/-- The server as the outbox meets it: each record is answered in one go. -/
def server (unicode : Unicode) (env : Environment) : Remote LearningDb where
  send r session db :=
    match solo (reviewLessonWordHandler unicode
        ⟨session.userId, some r.lessonId, some r.wordId, some (some r.idempotencyKey)⟩
        r.requestBody) ⟨db, db, env.choices (some r.idempotencyKey)⟩ with
    | some (response, s) => (some (status response), s.committed)
    | none => (none, db)
  refreshSession db := (none, db)

def routeOf (r : ReviewOutboxRecord) : ReviewRoute :=
  ⟨r.userId, some r.lessonId, some r.wordId, some (some r.idempotencyKey)⟩

/-- A record that the server cannot store stays where it is, and so do all behind it. -/
theorem blocked_forever (hsuits : Suits (view db)) (healthy : env.Healthy db)
    {r : ReviewOutboxRecord} (hpending : r.status = .pending)
    (hblocks : Blocks unicode db env.loadedAt (routeOf r) r.requestBody)
    (rest : List ReviewOutboxRecord) (token n : Nat) :
    passes (server unicode env) ⟨r.userId, token⟩ n (r :: rest) db =
      ({ r with attempts := r.attempts + n } :: rest, db) := by
  refine passes_blocked _ hpending (fun attempts => ?_) rest n
  obtain ⟨response, s, hsolo, -, hfails⟩ :=
    @ends_handler unicode db env hsuits healthy (routeOf r) r.requestBody
  obtain ⟨hstatus, hcommitted⟩ := hfails hblocks
  refine ⟨500, ?_, rfl⟩
  have hsolo : solo (reviewLessonWordHandler unicode (routeOf r) r.requestBody)
    ⟨db, db, env.choices (some r.idempotencyKey)⟩ = some (response, s) := hsolo
  simp only [server]
  unfold routeOf at hsolo
  rw [hsolo]
  simp only [hstatus, hcommitted]

theorem oneEnrolment_suits : Suits (view oneEnrolment) := by
  have rows : ∀ key, key ≠ Key.userWord 1 1 → key ≠ Key.word 1 → oneEnrolment.lookup key = none := by
    intro key hu hw
    rw [oneEnrolment, AList.lookup_insert_ne hu, AList.lookup_insert_ne hw, AList.lookup_empty]
  refine ⟨fun l w h => ?_, LessonConstraints.oneEnrolment_consistent, fun u w r hr => ?_,
    fun l w r hr => ?_⟩
  · have h : (oneEnrolment.lookup (.item l w)).isSome = true := h
    rw [rows _ (by simp) (by simp)] at h
    cases h
  · have hr : oneEnrolment.lookup (.userWord u w) = some r := hr
    by_cases hk : Key.userWord u w = Key.userWord 1 1
    · cases hk
      cases hr
      exact (⟨0, none⟩ : SchedulerRuns.Start).sound
    · rw [rows _ hk (by simp)] at hr
      cases hr
  · have hr : oneEnrolment.lookup (.item l w) = some r := hr
    rw [rows _ (by simp) (by simp)] at hr
    cases hr

/-- The only word there is, in a lesson of its own. -/
def lessonStarted : List (Action Op) :=
  .start (.createLesson 1
    { source := "mixed", studyMode := .recall, lessonSize := "15", wordIds := some [1] }) ::
  steps 0 (List.replicate 17 7)

def reviewOf (answer : String) : Json :=
  .object
    [("lessonVersion", .integer 1), ("rating", .string "known"), ("answerMode", .string "recall"),
      ("submittedAnswer", .string answer), ("timezoneOffsetMinutes", .integer 0)]

def plainReview : Json := reviewOf "багаж"

/-- An answer with a character that no text of the database can hold. -/
def nulReview : Json := reviewOf "багаж\x00ный"

def nulRecord : ReviewOutboxRecord where
  idempotencyKey := 9
  userId := 1
  lessonId := 7
  wordId := 1
  lessonVersion := 1
  requestBody := nulReview

def startedLesson : LessonRow where
  userId := 1
  source := "mixed"
  studyMode := .recall
  lessonSize := "15"
  reviewRatio := 70
  sessionKind := none
  createdAt := 0
  updatedAt := 0

/-- What the lesson leaves to be read: its row, its item, the word, and nothing else. -/
def Started (c : LearningConfig) : Prop :=
  (c.world.db.lookup (.lesson 7) : Option LessonRow) = some startedLesson ∧
    (c.world.db.lookup (.item 7 1) : Option ItemRow) =
      some { position := 0, selectionReason := some .manual } ∧
    (c.world.db.lookup (.userWord 1 1) : Option UserWordRow).isSome = true ∧
    (c.world.db.lookup (.word 1) : Option WordRow).isSome = true ∧
    c.world.db.keys = [.item 7 1, .lesson 7, .userWord 1 1, .word 1]

instance (c : LearningConfig) : Decidable (Started c) := by
  unfold Started
  infer_instance

theorem lessonStarted_run : ∃ c, Run (program ascii) (fun _ _ _ _ => True) (start oneEnrolment) c ∧
    Started c := by
  have hexec : ((exec (program ascii) (fun _ _ _ _ => True) (start oneEnrolment) lessonStarted).map
      fun c => decide (Started c)) = some true := by
    decide +kernel
  obtain ⟨c, hc, hstarted⟩ := Option.map_eq_some_iff.1 hexec
  exact ⟨c, .of_exec _ hc, of_decide_eq_true hstarted⟩

theorem started_absent {c : LearningConfig} (hc : Started c) {key : Key}
    (hkey : key ∉ [Key.item 7 1, .lesson 7, .userWord 1 1, .word 1]) :
    c.world.db.lookup key = none := by
  cases hfound : c.world.db.lookup key with
  | none => rfl
  | some r =>
    rw [← hc.2.2.2.2] at hkey
    exact absurd (mem_keys_of_lookup hfound) hkey

theorem started_healthy {c : LearningConfig} (hc : Started c) :
    Environment.Healthy ⟨0, 0, 1, [0, 0]⟩ c.world.db := by
  refine ⟨fun e r hr => ?_, ?_⟩
  · rw [started_absent hc (by simp)] at hr
    cases hr
  · have hnone : keptKeys c.world.db = [] := by
      rw [List.eq_nil_iff_forall_not_mem]
      intro key hkey
      obtain ⟨r, hr, hp⟩ := mem_rowsWhere.1 hkey
      cases key with
      | idempotency u k =>
        rw [started_absent hc (by simp)] at hr
        cases hr
      | _ => simp [idempotencyRows] at hp
    rw [hnone]
    decide

theorem nulReview_blocks {c : LearningConfig} (hc : Started c) (loadedAt : Instant) :
    Blocks ascii c.world.db loadedAt (routeOf nulRecord) nulReview := by
  obtain ⟨hlesson, hitem, hstate, hword, -⟩ := id hc
  obtain ⟨state, hstate⟩ := Option.isSome_iff_exists.1 hstate
  obtain ⟨word, hword⟩ := Option.isSome_iff_exists.1 hword
  refine ⟨⟨1, 7, 1, ⟨⟨.known, none, .recall, some "багаж\x00ный", none, none, 0⟩, 1⟩, some 9⟩,
    by decide +kernel, fun k _ r hr => ?_, .inl ⟨_, _, state, word,
      ⟨hlesson, rfl, rfl, rfl, hitem, rfl, rfl⟩, hstate, hword, fun h => ?_⟩⟩
  · have hr : c.world.db.lookup (.idempotency 1 k) = some r := hr
    rw [started_absent hc (by simp)] at hr
    cases hr
  · exact absurd h.1 (by decide)

/-- Wherever the runs of the server have led, and whatever is sent: the answer settles the
review, unless it is one of those that block. -/
theorem review_settles_iff {allow : Nat → List Note → LearningWorld → LearningWorld → Prop}
    {c : LearningConfig} (hsuits : Suits (view db))
    (h : Run (program unicode) allow (start db) c) (healthy : env.Healthy c.world.db)
    (route : ReviewRoute) (body : Json) :
    ∃ response s, solo (reviewLessonWordHandler unicode route body)
        ⟨c.world.db, c.world.db, env.choices route.key.join⟩ = some (response, s) ∧
      (Settles (status response) ↔ ¬ Blocks unicode c.world.db env.loadedAt route body) := by
  obtain ⟨response, s, hsolo, hsettles, -⟩ :=
    @ends_handler unicode c.world.db env (run_suits hsuits h) healthy route body
  exact ⟨response, s, hsolo, hsettles⟩

theorem started_settles : ∃ c response s, Started c ∧
    solo (reviewLessonWordHandler ascii (routeOf nulRecord) plainReview)
      ⟨c.world.db, c.world.db, [0, 0, 1, 0, 0]⟩ = some (response, s) ∧
    (Settles (status response) ↔ ¬ Blocks ascii c.world.db 0 (routeOf nulRecord) plainReview) := by
  obtain ⟨c, hrun, hstarted⟩ := lessonStarted_run
  obtain ⟨response, s, hsolo, hsettles⟩ := review_settles_iff oneEnrolment_suits hrun
    (started_healthy hstarted) (routeOf nulRecord) plainReview
  exact ⟨c, response, s, hstarted, hsolo, hsettles⟩

/-- A review that the client takes in and the handler lets through, and that is tried
for ever: whatever waits behind it is never sent. -/
theorem nulReview_waits : ∃ c payload, Run (program ascii) (fun _ _ _ _ => True)
      (start oneEnrolment) c ∧ parseLessonReviewPayload nulReview = some payload ∧
    (∃ env, Environment.Healthy env c.world.db) ∧ ∀ env, Environment.Healthy env c.world.db →
      (∃ response s, solo (reviewLessonWordHandler ascii (routeOf nulRecord) nulReview)
        ⟨c.world.db, c.world.db, env.choices (some 9)⟩ = some (response, s) ∧
          status response = 500) ∧
      ∀ rest token n, passes (server ascii env) ⟨1, token⟩ n (nulRecord :: rest) c.world.db =
        ({ nulRecord with attempts := n } :: rest, c.world.db) := by
  obtain ⟨c, hrun, hstarted⟩ := lessonStarted_run
  have hsuits := run_suits oneEnrolment_suits hrun
  refine ⟨c, ⟨1, .known, none, .recall, some "багаж\x00ный", none, none, 0⟩, hrun,
    by decide +kernel, ⟨_, started_healthy hstarted⟩, fun env healthy => ⟨?_, fun rest token n => ?_⟩⟩
  · obtain ⟨response, s, hsolo, -, hfails⟩ :=
      @ends_handler ascii _ env hsuits healthy (routeOf nulRecord) nulReview
    exact ⟨response, s, hsolo, (hfails (nulReview_blocks hstarted _)).1⟩
  · have := blocked_forever hsuits healthy (r := nulRecord) rfl (nulReview_blocks hstarted _) rest
      token n
    simpa [nulRecord] using this

end OutboxProgress
