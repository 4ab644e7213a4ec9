import LexiGo.Scenarios.ScenarioRefinement
import LexiGo.ReadCommitted.CommitNotes

/-! Runs of any number of requests about scenario attempts, and what a submission that
is repeated is told in them. -/
namespace ScenarioRuns
open RowStore TransactionProgram Interleaving CommitContract RowStatements RunSoundness CommitNotes
open GoText AnswerJudgement Scheduler ScenarioSchema ScenarioRepository ScenarioService
open ScenarioMachine ScenarioRefinement
open LearningSchema (UserId WordId EventId ReviewResult)

abbrev ScenarioConfig := Config Row Note Op Response

variable {catalogue : Catalogue} {unicode : Unicode} {lower : String → String}
variable {hashSubmission : Int → SubmitStepRequest → RequestHash}
variable {allow : Nat → List Note → ScenarioWorld → ScenarioWorld → Prop}
variable {i : Nat} {t : Tx Row} {w w' : ScenarioWorld} {db : ScenarioDb} {c c' : ScenarioConfig}

/-- The handler lets the request through as a submission to this attempt. -/
def Reads (unicode : Unicode) (hashSubmission : Int → SubmitStepRequest → RequestHash)
    (attemptID : String) (position : Int) (request : SubmitStepRequest) (a : AttemptId)
    (s : SubmissionId) (hash : RequestHash) : Prop :=
  uuidOf (trimSpace attemptID) = some a ∧ 0 ≤ position ∧ ∃ normalized submission,
    normalizeAndValidateSubmission unicode request = .ok (normalized, submission) ∧
      submission.submissionId = s ∧ hashSubmission position normalized = hash

/-- A submission of the user's that has been accepted. -/
structure Recorded (u : UserId) (a : AttemptId) (s : SubmissionId) (existing : StepRow)
    (review : ReviewResult) (db : ScenarioDb) : Prop where
  owner : ∃ r, attemptAt a db = some r ∧ r.userId = u
  step : ∃ position, stepAt a position db = some existing
  submission : existing.submissionId = s
  review : existing.reviewResponse = some review

theorem Recorded.unique {u : UserId} {a : AttemptId} {s : SubmissionId} {existing existing' : StepRow}
    {review review' : ReviewResult} (hdb : ScenarioMachine.Sound catalogue (view db))
    (h : Recorded u a s existing review db) (h' : Recorded u a s existing' review' db) :
    existing = existing' ∧ review = review' := by
  obtain ⟨position, hstep⟩ := h.step
  obtain ⟨position', hstep'⟩ := h'.step
  have hposition : position = position' :=
    hdb.submissions a _ _ _ _ hstep hstep' (h.submission.trans h'.submission.symm)
  subst hposition
  have hexisting : existing = existing' := Option.some.inj (hstep.symm.trans hstep')
  subst hexisting
  exact ⟨rfl, Option.some.inj (h.review.symm.trans h'.review)⟩

/-- The stored review and nothing else for the same digest, a conflict for another. -/
def AnsweredAgain (a : AttemptId) (hash : RequestHash) (existing : StepRow) (review : ReviewResult)
    (answer : Response) : Prop :=
  if existing.requestHash = hash then
    ∃ attempt : Attempt, attempt.id = a ∧ answer = .ok (.submitted ⟨attempt, review, true⟩)
  else answer = .error (writeScenarioError .attemptConflict)

def Replies (unicode : Unicode) (hashSubmission : Int → SubmitStepRequest → RequestHash) :
    Op → ScenarioWorld → Nat → Response → ScenarioWorld → Prop
  | .submitStep u attemptID position request, born, _, answer, w =>
    ∀ a s hash, Reads unicode hashSubmission attemptID position request a s hash →
      (∀ response, answer = .ok (.submitted response) → Stored a s hash response.review w.db) ∧
      ∀ existing review, Recorded u a s existing review born.db →
        AnsweredAgain a hash existing review answer
  | .start _ _, _, _, _, _ | .pause _ _ _, _, _, _, _ | .resume _ _ _, _, _, _, _ => True

theorem pause_keeps (u : UserId) (a : AttemptId) (version : Nat) :
    Keeps catalogue allow (pause catalogue u a version) := setStatus_keeps u a version rfl

theorem resume_keeps (u : UserId) (a : AttemptId) (version : Nat) :
    Keeps catalogue allow (resume catalogue u a version) := setStatus_keeps u a version rfl

theorem starting_keeps (u : UserId) (slug : String) :
    Keeps catalogue allow (starting catalogue u slug) := by
  unfold starting
  split
  · exact .pure _
  · exact answered_keeps (start_keeps u _)

/-- A submission is settled, and if it had been before, it is told so. -/
theorem submitStep_told {u : UserId} {a : AttemptId} {position : Nat} {request : Submission}
    {hash : RequestHash} (hw : ScenarioMachine.Sound catalogue (view w.db)) :
    wp (scenarioContract catalogue allow) i (fun reply t w' => Settles a request hash reply t w' ∧
        ∀ existing review, Recorded u a request.submissionId existing review w.db →
          Repeated a hash existing review reply)
      (submitStep catalogue unicode lower u a position request hash) {} w := by
  refine wp_and (submitStep_settles w) ?_
  by_cases h : ∃ existing review, Recorded u a request.submissionId existing review w.db
  · obtain ⟨existing, review, hrecorded⟩ := h
    obtain ⟨r, hr, hu⟩ := hrecorded.owner
    obtain ⟨position', hstep⟩ := hrecorded.step
    refine wp_mono ?_ (submitStep_repeats hr hu hstep hrecorded.submission hrecorded.review)
    intro reply _ _ hrepeated existing' review' hrecorded'
    obtain ⟨rfl, rfl⟩ := hrecorded.unique hw hrecorded'
    exact hrepeated
  · exact wp_mono (fun _ _ _ _ existing review hrecorded => absurd ⟨existing, review, hrecorded⟩ h)
      (submitStep_settles w)

/-- What a settled reply is worth as an answer, now and later. -/
theorem answers_of_told {u : UserId} {a : AttemptId} {submission : Submission} {hash : RequestHash}
    {attemptID : String} {position : Int} {request : SubmitStepRequest} {born : ScenarioWorld}
    (hreads : ∀ a' s' hash', Reads unicode hashSubmission attemptID position request a' s' hash' →
      a' = a ∧ s' = submission.submissionId ∧ hash' = hash)
    {reply : Reply SubmitStepResponse} (hsettles : Settles a submission hash reply t w)
    (hrepeats : ∀ existing review, Recorded u a submission.submissionId existing review born.db →
      Repeated a hash existing review reply) :
    wp (scenarioContract catalogue allow) i
      (Answers (scenarioContract catalogue allow) (Replies unicode hashSubmission)
        (.submitStep u attemptID position request) born i)
      (answered .submitted (pure reply)) t w := by
  obtain ⟨rfl, hstored⟩ := hsettles
  cases reply with
  | ok response =>
    rintro w' hr - a' s' hash' hreads'
    obtain ⟨rfl, rfl, rfl⟩ := hreads a' s' hash' hreads'
    refine ⟨?_, ?_⟩
    · rintro _ ⟨⟩
      exact (hstored response rfl).rely hr
    · intro existing review hrecorded
      have h := hrepeats existing review hrecorded
      unfold Repeated at h
      unfold AnsweredAgain
      split at h
      · rename_i hhash
        obtain ⟨attempt, hid, ⟨⟩⟩ := h
        rw [if_pos hhash]
        exact ⟨attempt, hid, rfl⟩
      · cases h
  | error why =>
    rintro w' hr - a' s' hash' hreads'
    obtain ⟨rfl, rfl, rfl⟩ := hreads a' s' hash' hreads'
    refine ⟨by rintro _ ⟨⟩, ?_⟩
    intro existing review hrecorded
    have h := hrepeats existing review hrecorded
    unfold Repeated at h
    unfold AnsweredAgain
    split at h
    · obtain ⟨attempt, -, ⟨⟩⟩ := h
    · rename_i hhash
      cases h
      rw [if_neg hhash]

theorem submitting_replies (u : UserId) (attemptID : String) (position : Int)
    (request : SubmitStepRequest) (hw : ScenarioMachine.Sound catalogue (view w.db)) :
    wp (scenarioContract catalogue allow) i
      (Answers (scenarioContract catalogue allow) (Replies unicode hashSubmission)
        (.submitStep u attemptID position request) w i)
      (submitting catalogue unicode lower hashSubmission u attemptID position request) {} w := by
  unfold submitting
  cases ha : uuidOf (trimSpace attemptID) with
  | none =>
    rintro w' - - a s hash ⟨ha', -⟩
    rw [ha] at ha'
    cases ha'
  | some a =>
    dsimp only
    split
    · rename_i hneg
      rintro w' - - a' s hash ⟨-, hpos, -⟩
      omega
    cases hvalid : normalizeAndValidateSubmission unicode request with
    | error why =>
      rintro w' - - a' s hash ⟨-, -, normalized, submission, hvalid', -⟩
      rw [hvalid] at hvalid'
      cases hvalid'
    | ok valid =>
      obtain ⟨normalized, submission⟩ := valid
      dsimp only
      unfold answered
      rw [wp_bind]
      refine wp_mono (fun reply t' w' h => ?_) (submitStep_told hw)
      refine answers_of_told (fun a' s' hash' hreads => ?_) h.1 h.2
      obtain ⟨ha', -, normalized', submission', hvalid', rfl, rfl⟩ := hreads
      obtain rfl := Option.some.inj (ha.symm.trans ha')
      obtain ⟨rfl, rfl⟩ := Prod.mk.inj (Except.ok.inj (hvalid.symm.trans hvalid'))
      exact ⟨rfl, rfl, rfl⟩

/-- Nothing is asked of the answers of the other requests. -/
theorem answers_of_keeps {op : Op} {p : ScenarioProg Response} (hp : Keeps catalogue allow p)
    (hpost : ∀ answer w', Replies unicode hashSubmission op w i answer w') :
    wp (scenarioContract catalogue allow) i
      (Answers (scenarioContract catalogue allow) (Replies unicode hashSubmission) op w i) p {} w :=
  wp_mono (fun _ _ _ _ _ _ _ => hpost _ _) (hp i w)

theorem changing_answers {op : Op}
    {change : UserId → AttemptId → Nat → ScenarioProg (Reply Attempt)}
    (hchange : ∀ u a version, Keeps catalogue allow (change u a version))
    (hpost : ∀ answer w', Replies unicode hashSubmission op w i answer w') (u : UserId)
    (attemptID : String) (request : AttemptVersionRequest) :
    wp (scenarioContract catalogue allow) i
      (Answers (scenarioContract catalogue allow) (Replies unicode hashSubmission) op w i)
      (changeAttemptStatus change u attemptID request) {} w := by
  unfold changeAttemptStatus
  generalize uuidOf (trimSpace attemptID) = found
  cases found with
  | none => exact fun w' _ _ => hpost _ _
  | some a =>
    dsimp only
    split
    · exact fun w' _ _ => hpost _ _
    · exact answers_of_keeps (answered_keeps (hchange u a _)) hpost

attribute [local irreducible] uuidOf

theorem scenario_sound : Sound (scenarioContract catalogue allow)
    (program catalogue unicode lower hashSubmission) (Replies unicode hashSubmission) := by
  intro op i w hw
  cases op with
  | start u slug => exact answers_of_keeps (starting_keeps u slug) fun _ _ => trivial
  | pause u attemptID request =>
    apply changing_answers pause_keeps
    intro answer w'
    exact trivial
  | resume u attemptID request =>
    apply changing_answers resume_keeps
    intro answer w'
    exact trivial
  | submitStep u attemptID position request =>
    apply submitting_replies
    exact hw

/-- Nobody has asked for anything yet. -/
def start (db : ScenarioDb) : ScenarioConfig := ⟨⟨db, []⟩, []⟩

def Suits (catalogue : Catalogue) (db : ScenarioDb) : Prop :=
  ScenarioMachine.Sound catalogue (view db)

/-- There are no steps and no attempts before the first one is started. -/
theorem suits_of_none (ha : ∀ a, attemptAt a db = none) (hs : ∀ a position, stepAt a position db = none) :
    Suits catalogue db := by
  have none_attempt : ∀ {a r}, (view db).attempt a ≠ some r := by
    intro a r h
    exact absurd ((ha a).symm.trans h) (by simp)
  have none_step : ∀ {a position s}, (view db).step a position ≠ some s := by
    intro a position s h
    exact absurd ((hs a position).symm.trans h) (by simp)
  constructor
  · exact fun _ _ _ _ _ _ h => absurd h none_attempt
  · exact fun _ _ h => absurd h none_attempt
  · exact fun _ _ h => absurd h none_attempt
  · exact fun _ _ _ h => absurd h none_step
  · exact fun _ _ h => absurd h none_attempt
  · exact fun _ _ _ h => absurd h none_step
  · exact fun _ _ _ _ _ _ _ h => absurd h none_step
  · exact fun _ _ _ _ _ h => absurd h none_step

abbrev ScenarioSafe (catalogue : Catalogue) (unicode : Unicode)
    (hashSubmission : Int → SubmitStepRequest → RequestHash)
    (allow : Nat → List Note → ScenarioWorld → ScenarioWorld → Prop) (c : ScenarioConfig) : Prop :=
  Safe (scenarioContract catalogue allow) (Replies unicode hashSubmission) c

abbrev ScenarioHistory (catalogue : Catalogue)
    (allow : Nat → List Note → ScenarioWorld → ScenarioWorld → Prop) :=
  History (scenarioContract catalogue allow)

theorem run_history (hdb : Suits catalogue db)
    (h : Run (program catalogue unicode lower hashSubmission) allow (start db) c) :
    ScenarioSafe catalogue unicode hashSubmission allow c ∧
      ScenarioHistory catalogue allow (start db).world c.world :=
  run_sound scenario_sound h (safe_init hdb)

theorem commits_step (h : Commits (scenarioContract catalogue allow) w w') :
    ∃ i n, w'.log = (i, n) :: w.log ∧ Step catalogue n (view w.db) (view w'.db) ∧
      (silent n → w'.db = w.db) ∧ ScenarioMachine.Sound catalogue (view w.db) := by
  obtain ⟨i, notes, hc⟩ := h
  obtain ⟨n, rfl, hstep, hsilent⟩ := hc.step
  exact ⟨i, n, hc.log, hstep, hsilent, hc.before⟩

/-- A commit that a submission makes of its own account. -/
def Submits (a : AttemptId) (s : SubmissionId) (n : Note) : Prop :=
  (∃ position hash review, n = .accepted a position s hash review) ∨ ∃ review, n = .replayed a s review

/-- A request commits at most once, and a submission notes what became of it. -/
def Told (unicode : Unicode) : Op → List Note → List Note → Prop
  | .submitStep _ attemptID _ request, notes, past =>
    past = [] ∧ ∃ n, notes = [n] ∧ ∃ a normalized submission,
      uuidOf (trimSpace attemptID) = some a ∧
      normalizeAndValidateSubmission unicode request = .ok (normalized, submission) ∧
      Submits a submission.submissionId n
  | .start _ _, notes, past | .pause _ _ _, notes, past | .resume _ _ _, notes, past =>
    past = [] ∧ ∃ n, notes = [n]

section Shapes
variable {P : List Note → List Note → Prop}

theorem answered_follows {α : Type} {f : α → Answer} {p : ScenarioProg (Reply α)} {past : List Note}
    (hp : Follows P (fun _ _ => True) past p) : Follows P (fun _ _ => True) past (answered f p) := by
  unfold answered
  rw [follows_bind]
  refine follows_mono (fun past' reply _ => ?_) hp
  cases reply <;> trivial

theorem loadAttempt_quiet (u : UserId) (a : AttemptId) : Quiet (loadAttempt catalogue u a) := by
  refine .bind (.select _) fun found => ?_
  cases found with
  | none => exact .pure _
  | some r => exact .bind (.select _) fun _ => .pure _

theorem follows_of_quiet {α : Type} {p : ScenarioProg α} {past : List Note} (hp : Quiet p) :
    Follows P (fun _ _ => True) past p :=
  follows_mono (fun _ _ _ => trivial) (hp P past)

/-- A commit and what is loaded after it. -/
theorem follows_last {α : Type} {n : Note} {p : ScenarioProg α} (hp : Quiet p) (hn : P [n] []) :
    Follows P (fun _ _ => True) [] (do commit [n]; p) := by
  rw [follows_bind, follows_commit]
  exact ⟨hn, follows_of_quiet hp⟩

theorem setStatus_follows (u : UserId) (a : AttemptId) (version : Nat) (status : AttemptStatus)
    (hP : ∀ n, P [n] []) :
    Follows P (fun _ _ => True) [] (setStatus catalogue u a version status) := by
  unfold setStatus
  refine follows_quiet (.selectFor _ _ _) fun found => ?_
  cases found with
  | none => exact trivial
  | some r =>
    dsimp only
    split
    · exact trivial
    split
    · exact trivial
    split
    · refine follows_quiet .choose fun now => follows_quiet (.updateRow _ _ _ _) fun _ => ?_
      exact follows_last (loadAttempt_quiet u a) (hP _)
    · exact follows_last (loadAttempt_quiet u a) (hP _)

theorem start_follows (u : UserId) (slug : Slug) (hP : ∀ n, P [n] []) :
    Follows P (fun _ _ => True) [] (ScenarioRepository.start catalogue u slug) := by
  unfold ScenarioRepository.start
  cases (catalogue slug).filter Scenario.isActive with
  | none => exact trivial
  | some scenario =>
    refine follows_quiet .choose fun now => ?_
    rw [follows_bind]
    have inserts : Follows P (fun _ _ => True) [] (insertAttempt u slug scenario.version now) := by
      unfold insertAttempt
      refine follows_quiet .choose fun a => follows_quiet (.lockRow _ _) fun _ =>
        follows_quiet (.select _) fun free => ?_
      split
      · refine follows_quiet (.insertRow _ _) fun inserted => ?_
        split
        · exact follows_last (.pure _) (hP _)
        · exact trivial
      · exact trivial
    refine follows_mono (fun past reply _ => ?_) inserts
    match reply with
    | .error why => exact trivial
    | .ok (some a) => exact follows_of_quiet (.bind (loadAttempt_quiet u a) fun _ => .pure _)
    | .ok none =>
      refine follows_of_quiet (.bind (.select _) fun found => ?_)
      cases found with
      | none => exact .pure _
      | some a => exact .bind (loadAttempt_quiet u a) fun _ => .pure _

section Reviews
open LessonRepository ReviewTransaction

theorem insertEvent_quiet (row : LearningSchema.EventRow) : Quiet (insertEvent row) := by
  unfold insertEvent nextEventId
  refine .bind (.bind .choose fun e => .bind (.select _) fun free => ?_) fun next => ?_
  · split
    · exact .pure _
    · exact .pure _
  · cases next with
    | none => exact .pure _
    | some e =>
      dsimp only
      split
      · exact .pure _
      refine .bind (.insertRow _ _) fun inserted => ?_
      split
      · refine .bind (.bind (.lockRow _ _) fun _ => .select _) fun found => ?_
        split
        · exact .pure _
        · exact .pure _
      · exact .pure _

theorem reviewWordTx_quiet (u : UserId) (x : WordId) (request : ReviewRequest)
    (assessment : ReviewAssessment) :
    Quiet (reviewWordTxWithAssessment u x request assessment) := by
  unfold reviewWordTxWithAssessment
  cases validateTrustedReviewAssessment request assessment with
  | error text => exact .pure _
  | ok =>
    refine .bind (.selectFor _ _ _) fun found => ?_
    cases found with
    | none => exact .pure _
    | some state =>
      dsimp only
      refine .bind ?_ fun applied => .pure _
      unfold applyReviewTx
      refine .bind .choose fun now => ?_
      dsimp only
      split
      · exact .leave _
      refine .bind (.writeRow _ _ _) fun _ => .bind (insertEvent_quiet _) fun e => ?_
      cases e with
      | none => exact .leave _
      | some e => exact .pure _

end Reviews

theorem insertStep_quiet (a : AttemptId) (position : Nat) (s : StepRow) :
    Quiet (insertStep a position s) := by
  unfold insertStep
  split
  · exact .pure _
  refine .bind (.lockRow _ _) fun _ => .bind (.select _) fun taken => ?_
  split
  · exact .pure _
  · exact .insertRow _ _

theorem acceptStep_follows (u : UserId) (a : AttemptId) (r : AttemptRow) (position : Nat)
    (request : Submission) (hash : RequestHash) (step : ScenarioStep) (facts hypotheses : List String)
    (hP : ∀ n, Submits a request.submissionId n → P [n] []) :
    Follows P (fun _ _ => True) []
      (acceptStep catalogue unicode lower u a r position request hash step facts hypotheses) := by
  unfold acceptStep
  refine follows_quiet (resolve_sparing u step.reviewTarget).quiet fun word => ?_
  cases word with
  | none => exact trivial
  | some word =>
    dsimp only
    generalize buildScenarioReview unicode (trimSpace request.response) step.reviewTarget request =
      review
    refine follows_quiet (.lift (reviewWordTx_quiet u word _ _)) fun reviewed => ?_
    cases reviewed with
    | error why => exact trivial
    | ok result =>
      dsimp only
      generalize stepRow request hash facts hypotheses result = stepAtTime
      refine follows_quiet .choose fun now => ?_
      refine follows_quiet (insertStep_quiet a position _) fun inserted => ?_
      split
      · exact trivial
      refine follows_quiet (.updateRow _ _ _ _) fun _ => ?_
      have notes : P [.accepted a position request.submissionId hash result] [] :=
        hP _ (.inl ⟨_, _, _, rfl⟩)
      have loads : Quiet (do return (← loadAttempt catalogue u a).map (freshResponse result)) :=
        .bind (loadAttempt_quiet u a) fun _ => .pure _
      split
      · exact follows_quiet (.lockRow _ _) fun _ => follows_last loads notes
      · exact follows_last loads notes

theorem submitStep_follows (u : UserId) (a : AttemptId) (position : Nat) (request : Submission)
    (hash : RequestHash) (hP : ∀ n, Submits a request.submissionId n → P [n] []) :
    Follows P (fun _ _ => True) []
      (submitStep catalogue unicode lower u a position request hash) := by
  unfold submitStep
  refine follows_quiet (.selectFor _ _ _) fun found => ?_
  cases found with
  | none => exact trivial
  | some r =>
    dsimp only
    refine follows_quiet (.select _) fun existing => ?_
    cases existing with
    | some existing =>
      dsimp only
      unfold replayStep
      split
      · exact trivial
      cases existing.reviewResponse with
      | none => exact trivial
      | some review =>
        exact follows_last (.bind (loadAttempt_quiet u a) fun _ => .pure _) (hP _ (.inr ⟨review, rfl⟩))
    | none =>
      dsimp only
      cases fitsAttempt catalogue unicode r position request with
      | error why => exact trivial
      | ok fitted =>
        obtain ⟨step, facts, hypotheses⟩ := fitted
        exact acceptStep_follows u a r position request hash step facts hypotheses hP

theorem changing_follows {change : UserId → AttemptId → Nat → ScenarioProg (Reply Attempt)}
    (hchange : ∀ u a version, Follows P (fun _ _ => True) [] (change u a version)) (u : UserId)
    (attemptID : String) (request : AttemptVersionRequest) :
    Follows P (fun _ _ => True) [] (changeAttemptStatus change u attemptID request) := by
  unfold changeAttemptStatus
  generalize uuidOf (trimSpace attemptID) = found
  cases found with
  | none => exact trivial
  | some a =>
    dsimp only
    split
    · exact trivial
    · exact answered_follows (hchange u a _)

end Shapes

theorem starting_follows (u : UserId) (slug : String) :
    Follows (Told unicode (.start u slug)) (fun _ _ => True) [] (starting catalogue u slug) := by
  unfold starting
  split
  · exact trivial
  · exact answered_follows (start_follows u _ fun n => ⟨rfl, n, rfl⟩)

theorem submitting_follows (u : UserId) (attemptID : String) (position : Int)
    (request : SubmitStepRequest) :
    Follows (Told unicode (.submitStep u attemptID position request)) (fun _ _ => True) []
      (submitting catalogue unicode lower hashSubmission u attemptID position request) := by
  unfold submitting
  cases ha : uuidOf (trimSpace attemptID) with
  | none => exact trivial
  | some a =>
    dsimp only
    split
    · exact trivial
    cases hvalid : normalizeAndValidateSubmission unicode request with
    | error why => exact trivial
    | ok valid =>
      obtain ⟨normalized, submission⟩ := valid
      refine answered_follows (submitStep_follows u a _ submission _ fun n hn => ?_)
      exact ⟨rfl, n, rfl, a, normalized, submission, ha, hvalid, hn⟩

theorem program_follows (op : Op) : Follows (Told unicode op) (fun _ _ => True) []
    (program catalogue unicode lower hashSubmission op) := by
  cases op with
  | start u slug => exact starting_follows u slug
  | pause u attemptID request =>
    exact changing_follows (fun u a version => setStatus_follows u a version .paused
      fun n => ⟨rfl, n, rfl⟩) u attemptID request
  | resume u attemptID request =>
    exact changing_follows (fun u a version => setStatus_follows u a version .active
      fun n => ⟨rfl, n, rfl⟩) u attemptID request
  | submitStep u attemptID position request => exact submitting_follows u attemptID position request

theorem run_tracked (h : Run (program catalogue unicode lower hashSubmission) allow (start db) c) :
    Tracked (Told unicode) (fun _ _ _ => True) c :=
  (tracked_start db).run program_follows h

/-- One of the scenarios that ship. -/
def weekly : Catalogue := fun slug =>
  if slug = "weekly-status-update" then
    some ⟨1, true, [⟨false, 50, ⟨"outcome", "результат", "noun"⟩⟩,
      ⟨false, 70, ⟨"risk", "риск", "noun"⟩⟩,
      ⟨false, 100, ⟨"status update", "обновление статуса", "noun phrase"⟩⟩], by simp⟩
  else none

/-- Attempt 7 and a submission to it, as the requests name them. -/
def attemptSeven : String := "00000000-0000-0000-0000-000000000007"

def weeklyStep (s : String) (version : Int) (response : String) : SubmitStepRequest where
  submissionId := "00000000-0000-0000-0000-00000000000" ++ s
  attemptVersion := version
  response := response

/-- Learner 1 starts attempt 7. -/
def weeklyStarted : List (Action Op) :=
  .start (.start 1 "weekly-status-update") :: steps 0 [1000, 7, 0, 0, 0, 0, 0, 0, 0, 0]

/-- The steps of a submission that is accepted with word `x` and event `e`. -/
def acceptance (i x e : Nat) (last : List Nat) : List (Action Op) :=
  steps i ([0, 0, 0, 0, x, 0, 0, 0, 0, 0, 0, 0, 2000000, 0, 0, 0, 0, 0, 0, 0, 0, 3000000, 0, e] ++
    [0, 0, 0, 0, 0, 0, 4000000, 0, 0, 0, 0, 0, 0, 0, 0, 0] ++ last)

def outcomeResponse : String :=
  "The most important outcome is a faster weekly import for all teams."

theorem empty_suits : Suits catalogue ∅ := suits_of_none (fun _ => rfl) fun _ _ => rfl

end ScenarioRuns
