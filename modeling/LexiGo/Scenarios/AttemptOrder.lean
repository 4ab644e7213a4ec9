import LexiGo.Scenarios.ScenarioRuns
import LexiGo.Client.JudgeAgreement

/-! Attempts at scenario lessons, in every run of starts, pauses, resumes and
submissions: their steps, their reviews, their versions, and what a submission that is
repeated is told. -/
namespace AttemptOrder
open RowStore TransactionProgram Interleaving CommitContract RunSoundness CommitNotes
open GoText AnswerJudgement Scheduler ScenarioSchema ScenarioRepository ScenarioService
open ScenarioMachine ScenarioRefinement ScenarioRuns
open LearningSchema (UserId WordId EventId ReviewResult)

/-- What is so of all attempts and their steps at any time. -/
structure InOrder (catalogue : Catalogue) (db : ScenarioDb) : Prop where
  positions : ∀ a r, attemptAt a db = some r → ∀ position,
    (∃ s, stepAt a position db = some s ∧ s.accepted = true) ↔ position < r.currentPosition
  reviewed : ∀ a position s, stepAt a position db = some s → s.accepted = true →
    ∃ e event, s.reviewEventId = some e ∧ eventAt e db = some event ∧
      ∀ a' position' s', stepAt a' position' db = some s' → s'.reviewEventId = some e →
        a' = a ∧ position' = position
  completed : ∀ a r, attemptAt a db = some r →
    (r.status = .completed ↔ r.currentPosition = catalogue.stepCount r.scenarioSlug)
  single : ∀ u slug a a' r r', attemptAt a db = some r → attemptAt a' db = some r' →
    r.openFor u slug = true → r'.openFor u slug = true → a = a'

/-- Every review that was not there before belongs to a step. -/
def Accounted (before db : ScenarioDb) : Prop :=
  ∀ e event, eventAt e db = some event → eventAt e before = some event ∨
    ∃ a position s, stepAt a position db = some s ∧ s.reviewEventId = some e

/-- Whatever has changed an attempt has raised its version by one. -/
def Raises (db db' : ScenarioDb) : Prop :=
  ∀ a r, attemptAt a db = some r →
    ∃ r', attemptAt a db' = some r' ∧ (r' = r ∨ r'.version = r.version + 1)

variable {catalogue : Catalogue} {unicode : Unicode} {lower : String → String}
variable {hashSubmission : Int → SubmitStepRequest → RequestHash}
variable {allow : Nat → List Note → ScenarioWorld → ScenarioWorld → Prop}
variable {w w' : ScenarioWorld} {db : ScenarioDb} {c c' : ScenarioConfig}

theorem inOrder_of_sound (h : ScenarioMachine.Sound catalogue (view db)) : InOrder catalogue db := by
  refine ⟨?_, ?_, h.completed, h.single⟩
  · intro a r hr position
    rw [← h.positions a r hr position]
    constructor
    · rintro ⟨s, hs, -⟩
      exact ⟨s, hs⟩
    · rintro ⟨s, hs⟩
      obtain ⟨review, acceptedAt, hstate, -⟩ := h.accepted a position s hs
      exact ⟨s, hs, by rw [StepRow.accepted, hstate]⟩
  · intro a position s hs _
    obtain ⟨review, acceptedAt, hstate, event, hevent⟩ := h.accepted a position s hs
    have he : s.reviewEventId = some review.reviewEventId := by rw [StepRow.reviewEventId, hstate]
    refine ⟨review.reviewEventId, event, he, hevent, fun a' position' s' hs' he' => ?_⟩
    exact h.apart a' a position' position s' s _ hs' hs he' he

theorem commits_accounted {before : ScenarioDb}
    (h : Commits (scenarioContract catalogue allow) w w') (hw : Accounted before w.db) :
    Accounted before w'.db := by
  obtain ⟨i, n, -, hstep, -, hsound⟩ := commits_step h
  intro e event he
  have kept : ∀ {event}, eventAt e w.db = some event → eventAt e before = some event ∨
      ∃ a position s, stepAt a position w'.db = some s ∧ s.reviewEventId = some e := by
    intro event he
    rcases hw e event he with hbefore | ⟨a, position, s, hs, hse⟩
    · exact .inl hbefore
    · exact .inr ⟨a, position, s, hstep.step_kept hsound hs, hse⟩
  rcases hstep.event_back he with hold | ⟨a, position, s, hs, hse⟩
  · exact kept hold
  · exact .inr ⟨a, position, s, hs, hse⟩

/-- The steps that are there stay, and so do the attempts with their users. -/
theorem recorded_kept {u : UserId} {a : AttemptId} {s : SubmissionId} {existing : StepRow}
    {review : ReviewResult} (hist : ScenarioHistory catalogue allow w w')
    (h : Recorded u a s existing review w.db) : Recorded u a s existing review w'.db := by
  have keeps : ∀ v v', Commits (scenarioContract catalogue allow) v v' →
      Recorded u a s existing review v.db → Recorded u a s existing review v'.db := by
    intro v v' hc hv
    obtain ⟨i, n, -, hstep, -, hsound⟩ := commits_step hc
    obtain ⟨r, hr, hu⟩ := hv.owner
    obtain ⟨r', hr', hfollows⟩ := hstep.attempt_kept hr
    obtain ⟨position, hposition⟩ := hv.step
    exact ⟨⟨r', hr', hfollows.userId.trans hu⟩, ⟨position, hstep.step_kept hsound hposition⟩,
      hv.submission, hv.review⟩
  exact history_keeps hist keeps h

theorem run_raises (hdb : Suits catalogue db)
    (h : Run (program catalogue unicode lower hashSubmission) allow (start db) c) {act : Action Op}
    (hs : step (program catalogue unicode lower hashSubmission) c act = some c')
    (ha : ∀ i notes, published c act = some (i, notes) → allow i notes c.world c'.world) :
    Raises c.world.db c'.world.db := by
  intro a r hr
  rcases (run_history hdb h).1.commits hs ha with ⟨-, heq⟩ | ⟨i, notes, -, hc⟩
  · exact ⟨r, by rw [heq]; exact hr, .inl rfl⟩
  · obtain ⟨n, -, hstep, -⟩ := hc.step
    obtain ⟨r', hr', hfollows⟩ := hstep.attempt_kept hr
    exact ⟨r', hr', hfollows.version⟩

theorem told_single {op : Op} {notes past : List Note} (h : Told unicode op notes past) :
    past = [] ∧ ∃ n, notes = [n] := by
  cases op with
  | start | pause | resume => exact h
  | submitStep =>
    obtain ⟨hpast, n, hn, -⟩ := h
    exact ⟨hpast, n, hn⟩

theorem commits_once (h : Run (program catalogue unicode lower hashSubmission) allow (start db) c)
    {i : Nat} {p : Proc Row Note Op Response} (hp : c.procs[i]? = some p) :
    (ownNotes i c.world.log).length ≤ 1 := by
  have hnoted := (run_tracked h).noted i p hp
  generalize ownNotes i c.world.log = own at hnoted
  cases hnoted with
  | start => exact Nat.zero_le _
  | commit htold _ =>
    obtain ⟨rfl, n, rfl⟩ := told_single htold
    exact Nat.le_refl _

/-- A submission that has been accepted before it is sent changes nothing. -/
theorem repeated_silent (hdb : Suits catalogue db)
    (h : Run (program catalogue unicode lower hashSubmission) allow (start db) c) {i : Nat}
    {p : Proc Row Note Op Response} (hp : c.procs[i]? = some p) {u : UserId} {attemptID : String}
    {position : Int} {request : SubmitStepRequest} (hop : p.op = .submitStep u attemptID position request)
    {a : AttemptId} {s : SubmissionId} {hash : RequestHash}
    (hreads : Reads unicode hashSubmission attemptID position request a s hash) {existing : StepRow}
    {review : ReviewResult} (hrecorded : Recorded u a s existing review p.born.db) {act : Action Op}
    {notes : List Note} (hs : step (program catalogue unicode lower hashSubmission) c act = some c')
    (ha : ∀ i notes, published c act = some (i, notes) → allow i notes c.world c'.world)
    (hpub : published c act = some (i, notes)) : c'.world.db = c.world.db := by
  obtain ⟨p', hp', htold⟩ := (run_tracked h).published hpub
  cases hp.symm.trans hp'
  rw [hop] at htold
  obtain ⟨-, n, rfl, a', normalized, submission, ha', hvalid, hsubmits⟩ := htold
  obtain ⟨hid, -, normalized', submission', hvalid', hsub, -⟩ := hreads
  cases hid.symm.trans ha'
  cases hvalid.symm.trans hvalid'
  rcases (run_history hdb h).1.commits hs ha with ⟨hnone, -⟩ | ⟨j, notes, hpub', hc⟩
  · rw [hpub] at hnone
    cases hnone
  · cases hpub.symm.trans hpub'
    obtain ⟨n', hn', hstep, hquiet⟩ := hc.step
    cases hn'
    rcases hsubmits with ⟨position', hash', review', rfl⟩ | ⟨review', rfl⟩
    · have hborn := run_born scenario_sound h (safe_init hdb)
        (fun j q hq => by simp [ScenarioRuns.start] at hq) i p hp
      have hnow := recorded_kept hborn hrecorded
      obtain ⟨at_, hat⟩ := hnow.step
      exact absurd (hnow.submission.trans hsub.symm) (hstep.not_accepted_again hat)
    · exact hquiet trivial

/-- Attempts are in order at any time, every commit raises the version of an attempt that
it changes by one, and a submission that is repeated is told what was stored, or of the
conflict, and changes nothing. -/
theorem attempts_in_order (hdb : Suits catalogue db)
    (h : Run (program catalogue unicode lower hashSubmission) allow (start db) c) :
    InOrder catalogue c.world.db ∧ Accounted db c.world.db ∧
    (∀ act c', step (program catalogue unicode lower hashSubmission) c act = some c' →
      (∀ i notes, published c act = some (i, notes) → allow i notes c.world c'.world) →
      Raises c.world.db c'.world.db) ∧
    ∀ i p, c.procs[i]? = some p → (ownNotes i c.world.log).length ≤ 1 ∧
      ∀ u attemptID position request a s hash, p.op = .submitStep u attemptID position request →
        Reads unicode hashSubmission attemptID position request a s hash →
        (∀ response, c.answer i = some (.ok (.submitted response)) →
          Stored a s hash response.review c.world.db) ∧
        ∀ existing review, Recorded u a s existing review p.born.db →
          (∀ answer, c.answer i = some answer → AnsweredAgain a hash existing review answer) ∧
          ∀ act notes c', step (program catalogue unicode lower hashSubmission) c act = some c' →
            (∀ i notes, published c act = some (i, notes) → allow i notes c.world c'.world) →
            published c act = some (i, notes) → c'.world.db = c.world.db := by
  obtain ⟨hsafe, hist⟩ := run_history hdb h
  have accounted : Accounted db c.world.db := by
    have keeps : ∀ v v', Commits (scenarioContract catalogue allow) v v' →
        Accounted db v.db → Accounted db v'.db := fun _ _ => commits_accounted
    exact history_keeps hist keeps fun e event he => .inl he
  refine ⟨inOrder_of_sound hsafe.inv, accounted, fun act c' hs ha => run_raises hdb h hs ha, ?_⟩
  intro i p hp
  refine ⟨commits_once h hp, ?_⟩
  intro u attemptID position request a s hash hop hreads
  have replies : ∀ answer, c.answer i = some answer →
      Replies unicode hashSubmission p.op p.born i answer c.world :=
    fun _ hanswer => hsafe.answer hp hanswer
  rw [hop] at replies
  refine ⟨?_, ?_⟩
  · intro response hanswer
    exact (replies _ hanswer a s hash hreads).1 response rfl
  · intro existing review hrecorded
    refine ⟨fun answer hanswer => (replies _ hanswer a s hash hreads).2 existing review hrecorded, ?_⟩
    intro act notes c' hs ha hpub
    exact repeated_silent hdb h hp hop hreads hrecorded hs ha hpub

/-- The first step of attempt 7 is submitted twice, in the same words. -/
def submittedTwice : List (Action Op) :=
  weeklyStarted ++
  .start (.submitStep 1 attemptSeven 0 (weeklyStep "1" 1 outcomeResponse)) ::
    acceptance 1 5 9 [0, 0, 0] ++
  .start (.submitStep 1 attemptSeven 0 (weeklyStep "1" 1 outcomeResponse)) ::
    steps 2 [0, 0, 0, 0, 0, 0, 0]

theorem reads_outcome : Reads JudgeAgreement.latin (fun position _ => position.toNat) attemptSeven 0
    (weeklyStep "1" 1 outcomeResponse) 7 1 0 := by
  have valid : (normalizeAndValidateSubmission JudgeAgreement.latin
      (weeklyStep "1" 1 outcomeResponse)).toOption.map (fun v => v.2.submissionId) = some 1 := by
    decide +kernel
  obtain ⟨⟨normalized, submission⟩, hvalid, hs⟩ := Option.map_eq_some_iff.1 valid
  refine ⟨by decide +kernel, Int.le_refl 0, normalized, submission, ?_, hs, rfl⟩
  cases h : normalizeAndValidateSubmission JudgeAgreement.latin (weeklyStep "1" 1 outcomeResponse) with
  | error why =>
    rw [h] at hvalid
    cases hvalid
  | ok v =>
    rw [h] at hvalid
    cases hvalid
    rfl

theorem submitted_twice : ∃ (c : ScenarioConfig) (p : Proc Row Note Op Response) (existing : StepRow)
    (review : ReviewResult) (answer : Response),
    c.procs[2]? = some p ∧ Recorded 1 7 1 existing review p.born.db ∧ c.answer 2 = some answer ∧
      InOrder weekly c.world.db ∧ AnsweredAgain 7 0 existing review answer := by
  have shown : (exec (program weekly JudgeAgreement.latin id fun position _ => position.toNat)
      (fun _ _ _ _ => True) (start ∅) submittedTwice).any (fun c => (c.answer 2).isSome &&
        c.procs[2]?.any fun p =>
          p.op = .submitStep 1 attemptSeven 0 (weeklyStep "1" 1 outcomeResponse) &&
          ((stepAt 7 0 p.born.db).any fun s => s.submissionId = 1 && s.reviewResponse.isSome) &&
          (attemptAt 7 p.born.db).any fun r => r.userId = 1) = true := by
    decide +kernel
  simp only [Option.any_eq_true, Bool.and_eq_true, decide_eq_true_eq] at shown
  obtain ⟨c, hc, hanswered, p, hp, ⟨hop, s, hs, hsubmission, hreviewed⟩, r, hr, hu⟩ := shown
  obtain ⟨review, hreview⟩ := Option.isSome_iff_exists.1 hreviewed
  obtain ⟨answer, hanswer⟩ := Option.isSome_iff_exists.1 hanswered
  have hrecorded : Recorded 1 7 1 s review p.born.db := ⟨⟨r, hr, hu⟩, ⟨0, hs⟩, hsubmission, hreview⟩
  obtain ⟨horder, -, -, hprocs⟩ := attempts_in_order empty_suits (.of_exec _ hc)
  have hrepeated := ((hprocs 2 p hp).2 _ _ _ _ 7 1 0 hop reads_outcome).2 s review hrecorded
  exact ⟨c, p, s, review, answer, hp, hrecorded, hanswer, horder, hrepeated.1 answer hanswer⟩

end AttemptOrder
