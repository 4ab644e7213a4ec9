import LexiGo.Scenarios.ScenarioMachine
import LexiGo.ReadCommitted.FrameRule

/-! Every commit of a request about scenario attempts is one step of the machine,
whatever the other requests do between its statements. -/
namespace ScenarioRefinement
open RowStore TransactionProgram Interleaving CommitContract RowStatements RunSoundness FrameRule
open WiderSchema GoText AnswerJudgement Scheduler ScenarioSchema ScenarioRepository ScenarioService
open ScenarioMachine ReviewEmbedding Function
open LearningSchema (UserId WordId EventId EventRow ReviewResult)

abbrev ScenarioWorld := World Row Note

/-- Who holds an entry of the index on open attempts may count on nobody else opening one. -/
def scenarioContract (catalogue : Catalogue)
    (allow : Nat → List Note → ScenarioWorld → ScenarioWorld → Prop) : Contract Row Note where
  inv w := Sound catalogue (view w.db)
  step _ notes w w' := ∃ n, notes = [n] ∧ Step catalogue n (view w.db) (view w'.db) ∧
    (silent n → w'.db = w.db)
  allow := allow
  guard k m w w' := ∀ u slug, k = .inr (.openAttempt u slug) → m = .update →
    NoneOpen u slug (view w.db) → NoneOpen u slug (view w'.db)

/-- The rows that the machine does not speak of. -/
def Outside : Key → Prop
  | .inl (.event _) | .inr (.attempt _) | .inr (.step _ _) => False
  | _ => True

section Views
variable {db db' : ScenarioDb}

theorem view_congr (h : ∀ k, ¬ Outside k → db'.lookup k = db.lookup k) : view db' = view db := by
  ext1
  · exact funext fun a => h (attemptKey a) not_false
  · exact funext fun a => funext fun position => h (stepKey a position) not_false
  · exact funext fun e => h (.inl (.event e)) not_false

theorem view_set_outside {k : Key} (hk : Outside k) (v : Option (Row k)) :
    view (set k v db) = view db := by
  refine view_congr fun k' hk' => lookup_set_ne ?_ v db
  rintro rfl
  exact hk' hk

theorem view_set_attempt (a : AttemptId) (r : AttemptRow) :
    view (set (attemptKey a) (some r) db) = (view db).putAttempt a r := by
  ext1
  · funext x
    by_cases hx : x = a
    · subst hx
      simp [view, attemptAt, Lessons.putAttempt]
    · simp [view, attemptAt, Lessons.putAttempt, lookup_set_ne, hx]
  · funext x position
    exact lookup_set_ne (by simp) _ _
  · funext e
    exact lookup_set_ne (by simp) _ _

theorem view_set_step (a : AttemptId) (position : Nat) (s : StepRow) :
    view (set (stepKey a position) (some s) db) = (view db).putStep a position s := by
  ext1
  · funext x
    exact lookup_set_ne (by simp) _ _
  · funext x p
    by_cases hx : x = a
    · subst hx
      by_cases hp : p = position
      · subst hp
        simp [view, stepAt, Lessons.putStep]
      · simp [view, stepAt, Lessons.putStep, lookup_set_ne, hp]
    · simp [view, stepAt, Lessons.putStep, lookup_set_ne, hx]
  · funext e
    exact lookup_set_ne (by simp) _ _

theorem view_putEvent (e : EventId) (row : EventRow) :
    view (putEvent e row db) = (view db).putEvent e row := by
  ext1
  · funext x
    exact lookup_set_ne (by simp) _ _
  · funext x position
    exact lookup_set_ne (by simp) _ _
  · funext x
    by_cases hx : x = e
    · subst hx
      simp [view, ScenarioMachine.eventAt, Lessons.putEvent, putEvent]
    · simp [view, ScenarioMachine.eventAt, Lessons.putEvent, putEvent, lookup_set_ne, hx]

end Views

variable {catalogue : Catalogue} {unicode : Unicode} {lower : String → String}
variable {allow : Nat → List Note → ScenarioWorld → ScenarioWorld → Prop}
variable {i : Nat} {t t' : Tx Row} {w w' w'' : ScenarioWorld}

abbrev ScenarioRely (catalogue : Catalogue)
    (allow : Nat → List Note → ScenarioWorld → ScenarioWorld → Prop) (i : Nat) (t : Tx Row) :=
  Rely (scenarioContract catalogue allow) i t

abbrev Keeps (catalogue : Catalogue)
    (allow : Nat → List Note → ScenarioWorld → ScenarioWorld → Prop) (p : ScenarioProg α) : Prop :=
  Transactional (scenarioContract catalogue allow) p

theorem publishes {n : Note} (inv : Sound catalogue (view w.db))
    (step : Step catalogue n (view w.db) (view (t.visible w.db)))
    (quiet : silent n → t.visible w.db = w.db)
    (opens : ∀ u slug a, n = .started u slug a → (.inr (.openAttempt u slug), .update) ∈ t.held) :
    Publishes (scenarioContract catalogue allow) i t [n] w := by
  refine ⟨step.sound inv, ⟨n, rfl, step, quiet⟩, ?_⟩
  rintro k m hadmits u slug rfl rfl hnone
  refine step.noneOpen (fun a hn => ?_) hnone
  have hconflict := hadmits _ (opens u slug a hn)
  cases hconflict

theorem view_framed (h : Framed (scenarioContract catalogue allow) i Outside t w t' w')
    (db : ScenarioDb) : view (t'.visible db) = view (t.visible db) :=
  view_congr fun k hk => h.rows k hk db

theorem answered_keeps {β : Type} {f : β → Answer} {p : ScenarioProg (Reply β)}
    (hp : Keeps catalogue allow p) : Keeps catalogue allow (answered f p) := by
  refine .bind hp fun r => ?_
  cases r <;> exact .pure _

theorem rely_attempt (h : ScenarioRely catalogue allow i t w w') {a : AttemptId} {r : AttemptRow}
    (hr : attemptAt a w.db = some r) : ∃ r', attemptAt a w'.db = some r' ∧ r'.userId = r.userId := by
  have stable : Stable (scenarioContract catalogue allow) i t fun v =>
      ∃ r', attemptAt a v.db = some r' ∧ r'.userId = r.userId := by
    rintro v v' ho ⟨r', hr', hu⟩
    obtain ⟨j, notes, -, hc⟩ := ho.author
    obtain ⟨n, -, hstep, -⟩ := hc.step
    obtain ⟨r'', hr'', hfollows⟩ := hstep.attempt_kept hr'
    exact ⟨r'', hr'', hfollows.userId.trans hu⟩
  exact stable.rely h ⟨r, hr, rfl⟩

theorem rely_step (h : ScenarioRely catalogue allow i t w w') {a : AttemptId} {position : Nat}
    {s : StepRow} (hs : stepAt a position w.db = some s) : stepAt a position w'.db = some s := by
  have stable : Stable (scenarioContract catalogue allow) i t fun v =>
      stepAt a position v.db = some s := by
    intro v v' ho hv
    obtain ⟨j, notes, -, hc⟩ := ho.author
    obtain ⟨n, -, hstep, -⟩ := hc.step
    exact hstep.step_kept hc.before hv
  exact stable.rely h hs

theorem wp_loadAttempt {u : UserId} {a : AttemptId}
    {Q : Reply Attempt → Tx Row → ScenarioWorld → Prop}
    (h : ∀ reply w', ScenarioRely catalogue allow i t w w' → Q reply t w') :
    wp (scenarioContract catalogue allow) i Q (loadAttempt catalogue u a) t w := by
  unfold loadAttempt
  rw [wp_bind, wp_select]
  intro w₁ hr₁ _
  cases (attemptAt a (t.visible w₁.db)).filter fun r => r.userId = u with
  | none => exact h _ w₁ hr₁
  | some r =>
    dsimp only
    rw [wp_bind, wp_select]
    intro w₂ hr₂ _
    exact h _ w₂ (hr₁.trans hr₂)

/-- An attempt of the user's is there to be loaded. -/
theorem wp_loadAttempt_found {u : UserId} {a : AttemptId} {r : AttemptRow}
    {Q : Reply Attempt → Tx Row → ScenarioWorld → Prop} (hr : attemptAt a w.db = some r)
    (hu : r.userId = u)
    (h : ∀ attempt w', ScenarioRely catalogue allow i {} w w' → attempt.id = a →
      Q (.ok attempt) {} w') :
    wp (scenarioContract catalogue allow) i Q (loadAttempt catalogue u a) {} w := by
  unfold loadAttempt
  rw [wp_bind, wp_select]
  intro w₁ hr₁ _
  obtain ⟨r₁, hr₁', hu₁⟩ := rely_attempt hr₁ hr
  rw [Tx.visible_empty, hr₁', Option.filter_some, if_pos (decide_eq_true (hu₁.trans hu))]
  dsimp only
  rw [wp_bind, wp_select]
  intro w₂ hr₂ _
  exact h _ w₂ (hr₁.trans hr₂) rfl

theorem loadAttempt_keeps (u : UserId) (a : AttemptId) :
    Keeps catalogue allow (loadAttempt catalogue u a) := by
  refine .bind (.select _) fun found => ?_
  cases found with
  | none => exact .pure _
  | some r => exact .bind (.select _) fun accepted => .pure _

theorem rely_noneOpen {u : UserId} {slug : Slug} (h : ScenarioRely catalogue allow i t w w')
    (hheld : (.inr (.openAttempt u slug), .update) ∈ t.held) (hw : NoneOpen u slug (view w.db)) :
    NoneOpen u slug (view w'.db) := by
  have stable : Stable (scenarioContract catalogue allow) i t fun v =>
      NoneOpen u slug (view v.db) :=
    fun v v' ho hv => ho.guard _ _ hheld u slug rfl rfl hv
  exact stable.rely h hw

theorem noneOpen_of_rows {u : UserId} {slug : Slug} {db : ScenarioDb}
    (h : (rowsWhere (attempts (AttemptRow.openFor u slug)) db).isEmpty = true) :
    NoneOpen u slug (view db) := by
  intro a r hr
  cases hopen : r.openFor u slug with
  | false => rfl
  | true =>
    have hmem : attemptKey a ∈ rowsWhere (attempts (AttemptRow.openFor u slug)) db :=
      mem_rowsWhere.2 ⟨r, hr, hopen⟩
    rw [List.isEmpty_iff.1 h] at hmem
    cases hmem

theorem insertAttempt_keeps {u : UserId} {slug : Slug} {scenario : Scenario}
    (hscenario : catalogue slug = some scenario) (now : Instant) :
    Keeps catalogue allow (insertAttempt u slug scenario.version now) := by
  intro i w
  unfold insertAttempt
  rw [wp_bind, wp_choose]
  intro a
  rw [wp_bind, wp_lockRow]
  intro w₁ _ _
  rw [wp_bind, wp_select]
  intro w₂ _ _
  split
  · rename_i hempty
    rw [wp_bind]
    refine wp_insertRow (fun _ _ _ _ _ => rfl) fun w₃ hr₃ _ hfree => ?_
    rw [if_pos rfl, wp_bind, wp_commit]
    intro w₄ hr₄ hi₄ _
    have hr := hr₃.trans (rely_hold (rely_write hr₄))
    have hnone : NoneOpen u slug (view w₄.db) :=
      rely_noneOpen hr List.mem_cons_self (noneOpen_of_rows hempty)
    have free : (view w₄.db).attempt a = none := hr₄.kept (by simp) hfree
    refine ⟨publishes hi₄ ?_ (by rintro ⟨⟩) ?_, rfl⟩
    · rw [Tx.visible_write, view_set_attempt]
      exact .started hscenario free hnone
    · rintro u' slug' a' ⟨⟩
      exact List.mem_cons_of_mem _ (List.mem_cons_of_mem _ List.mem_cons_self)
  · exact rfl

theorem start_keeps (u : UserId) (slug : Slug) : Keeps catalogue allow (start catalogue u slug) := by
  unfold start
  cases hscenario : (catalogue slug).filter Scenario.isActive with
  | none => exact .pure _
  | some scenario =>
    have hfound := (Option.filter_eq_some_iff.1 hscenario).1
    refine .bind .choose fun now => .bind (insertAttempt_keeps hfound now) fun inserted => ?_
    match inserted with
    | .error why => exact .pure _
    | .ok (some a) => exact .bind (loadAttempt_keeps u a) fun r => .pure _
    | .ok none =>
      refine .bind (.select _) fun found => ?_
      cases found with
      | none => exact .pure _
      | some a => exact .bind (loadAttempt_keeps u a) fun r => .pure _

/-- The row of an attempt, locked, and as it is. -/
structure Locked (catalogue : Catalogue) (u : UserId) (a : AttemptId) (r : AttemptRow) (t : Tx Row)
    (w : ScenarioWorld) : Prop where
  row : attemptAt a w.db = some r
  owner : r.userId = u
  held : (attemptKey a, Mode.update) ∈ t.held
  inv : Sound catalogue (view w.db)

theorem Locked.rely {u : UserId} {a : AttemptId} {r : AttemptRow}
    (h : Locked catalogue u a r t w) (hr : ScenarioRely catalogue allow i t' w w')
    (hheld : t.held ⊆ t'.held) : Locked catalogue u a r t' w' :=
  ⟨(hr.row (hheld h.held) (by simp)).trans h.row, h.owner, hheld h.held, hr.inv h.inv⟩

theorem Locked.mono {u : UserId} {a : AttemptId} {r : AttemptRow} (h : Locked catalogue u a r t w)
    (hheld : t.held ⊆ t'.held) : Locked catalogue u a r t' w :=
  ⟨h.row, h.owner, hheld h.held, h.inv⟩

/-- What is known of the steps of a locked attempt stays known. -/
theorem Locked.steps {u : UserId} {a : AttemptId} {r : AttemptRow}
    (h : Locked catalogue u a r t w) (hr : ScenarioRely catalogue allow i t w w') :
    (view w'.db).step a = (view w.db).step a := by
  have stable : Stable (scenarioContract catalogue allow) i t fun v =>
      (view v.db).attempt a = some r ∧ (view v.db).step a = (view w.db).step a := by
    rintro v v' ho ⟨hrow, hsteps⟩
    obtain ⟨j, notes, -, hc⟩ := ho.author
    obtain ⟨n, -, hstep, -⟩ := hc.step
    have hrow' : (view v'.db).attempt a = some r := (ho.rows _ _ h.held (by simp)).trans hrow
    exact ⟨hrow', (hstep.steps_same hrow hrow').trans hsteps⟩
  exact (stable.rely hr ⟨h.row, rfl⟩).2

theorem wp_lockAttempt {u : UserId} {a : AttemptId}
    {Q : Option AttemptRow → Tx Row → ScenarioWorld → Prop} (missing : ∀ t' w', Q none t' w')
    (found : ∀ r w', Locked catalogue u a r (({} : Tx Row).hold (attemptKey a) .update) w' →
      Q (some r) (({} : Tx Row).hold (attemptKey a) .update) w') :
    wp (scenarioContract catalogue allow) i Q (lockAttempt u a) {} w := by
  unfold lockAttempt
  refine @wp_selectFor Key _ Row Note _ i {} w (attemptKey a) .update (fun r => r.userId = u) Q
    ?_ ?_ ?_
  · exact fun _ _ _ _ => missing _ _
  · exact fun _ _ _ _ => missing _ _
  · intro w' r _ hi hrow howner
    exact found r w' ⟨hrow, of_decide_eq_true howner, List.mem_cons_self, hi⟩

theorem setStatus_keeps (u : UserId) (a : AttemptId) (version : Nat) {status : AttemptStatus}
    (hstatus : status.isOpen = true) :
    Keeps catalogue allow (setStatus catalogue u a version status) := by
  intro i w
  unfold setStatus
  rw [wp_bind]
  refine wp_lockAttempt (fun _ _ => rfl) fun r w₁ locked => ?_
  dsimp only
  split
  · exact rfl
  split
  · exact rfl
  rename_i hopen
  have hopen : r.status.isOpen = true := by simpa using hopen
  have commits : ∀ {t : Tx Row} {w : ScenarioWorld} {n : Note}, (∀ u slug b, n ≠ .started u slug b) →
      (∀ w', ScenarioRely catalogue allow i t w w' →
        Step catalogue n (view w'.db) (view (t.visible w'.db))) →
      (∀ db, silent n → t.visible db = db) → wp (scenarioContract catalogue allow) i (fun _ t _ => t = {})
        (do commit [n]; loadAttempt catalogue u a) t w := by
    intro t w n hn hstep hquiet
    rw [wp_bind, wp_commit]
    intro w' hr hi _
    exact ⟨publishes hi (hstep w' hr) (hquiet _) fun u slug b heq => absurd heq (hn u slug b),
      loadAttempt_keeps u a i _⟩
  split
  · rw [wp_bind, wp_choose]
    intro now
    rw [wp_bind]
    refine @wp_updateRow_locked Key _ Row Note _ i _ w₁ (attemptKey a) .noKeyUpdate
      (fun r => r.userId = u) (AttemptRow.setStatus status now) r _ (Or.inl rfl)
      ⟨.update, by simp, locked.held⟩ locked.row (decide_eq_true locked.owner) fun w₂ hr₂ _ => ?_
    refine commits (by rintro _ _ _ ⟨⟩) (fun w₃ hr₃ => ?_) (by rintro _ ⟨⟩)
    have now' := locked.rely (hr₂.trans (rely_hold (rely_write hr₃))) (List.Subset.refl _)
    rw [Tx.visible_write, view_set_attempt]
    exact .statusSet now'.row hopen hstatus
  · exact commits (by rintro _ _ _ ⟨⟩) (fun _ _ => .statusKept) fun _ _ => rfl

section Words

theorem ensureWord_sparing (target : ScenarioReviewTarget) :
    Sparing Outside (ensureWord lower target) := by
  refine .bind .choose fun x => .bind (.lockRow _ _) fun _ => .bind (.lockRow _ _) fun _ =>
    .bind (.select _) fun taken => ?_
  split
  · exact .pure _
  · exact .bind (@Sparing.writeRow _ Row Note Outside (wordKey x) trivial _ _) fun _ =>
      @Sparing.writeRow _ Row Note Outside (.inr (.headword x)) trivial _ _

theorem enroll_sparing (u : UserId) (x : WordId) : Sparing Outside (enroll u x) := by
  refine .bind .choose fun now => .bind
    (@Sparing.insertRow _ _ Row Note Outside (userWordKey u x) trivial _) fun inserted => ?_
  split
  · unfold LessonRepository.referenceWord
    rw [lift_bind, lift_lockRow, lift_select]
    exact .bind (.lockRow _ _) fun _ => .select _
  · exact .pure _

theorem resolve_sparing (u : UserId) (target : ScenarioReviewTarget) :
    Sparing Outside (resolveScenarioReviewWord lower u target) := by
  refine .bind (ensureWord_sparing target) fun _ =>
    .bind (.bind .choose fun n => .select _) fun found => ?_
  cases found with
  | none => exact .pure _
  | some x => exact .bind (enroll_sparing u x) fun enrolled => .pure _

end Words

section Steps
variable {a : AttemptId} {s : SubmissionId} {db : ScenarioDb}

theorem mem_stepsWhere {p : StepRow → Bool} {entry : Nat × StepRow} :
    entry ∈ stepsWhere a p db ↔ stepAt a entry.1 db = some entry.2 ∧ p entry.2 = true := by
  obtain ⟨position, s⟩ := entry
  unfold stepsWhere
  rw [List.mem_insertionSort, List.mem_filterMap]
  constructor
  · rintro ⟨k, hk, hentry⟩
    obtain ⟨r, hr, hp⟩ := mem_rowsWhere.1 hk
    cases k with
    | inl k => exact absurd hp Bool.false_ne_true
    | inr k =>
      cases k with
      | step a' position' =>
        have hboth : (a' = a && p r) = true := hp
        rw [Bool.and_eq_true, decide_eq_true_eq] at hboth
        obtain ⟨rfl, hfits⟩ := hboth
        have hr : stepAt a' position' db = some r := hr
        obtain ⟨r', hr', heq⟩ := Option.map_eq_some_iff.1 hentry
        cases hr.symm.trans hr'
        cases heq
        exact ⟨hr, hfits⟩
      | attempt | headword | openAttempt | submission | sharedWord =>
        exact absurd hp Bool.false_ne_true
  · rintro ⟨hs, hp⟩
    refine ⟨stepKey a position, mem_rowsWhere.2 ⟨s, hs, ?_⟩, Option.map_eq_some_iff.2 ⟨s, hs, rfl⟩⟩
    have hboth : (a = a && p s) = true := by simpa using hp
    exact hboth

theorem submitted_step {existing : StepRow} (h : submitted a s db = some existing) :
    ∃ position, stepAt a position db = some existing ∧ existing.submissionId = s := by
  obtain ⟨entry, hentry, rfl⟩ := Option.map_eq_some_iff.1 h
  obtain ⟨hstep, hsubmission⟩ := mem_stepsWhere.1 (List.mem_of_mem_head? hentry)
  exact ⟨entry.1, hstep, of_decide_eq_true hsubmission⟩

theorem submitted_none (h : submitted a s db = none) {position : Nat} {s' : StepRow}
    (hs : stepAt a position db = some s') : s'.submissionId ≠ s := by
  intro heq
  have hmem : (position, s') ∈ stepsWhere a (fun r => r.submissionId = s) db :=
    mem_stepsWhere.2 ⟨hs, decide_eq_true heq⟩
  rw [submitted, Option.map_eq_none_iff, List.head?_eq_none_iff] at h
  rw [h] at hmem
  cases hmem

end Steps

section Submitting
variable {u : UserId} {a : AttemptId} {r : AttemptRow} {position : Nat} {request : Submission}
variable {hash : RequestHash}

/-- The submission has been accepted, with this digest and this review. -/
def Stored (a : AttemptId) (s : SubmissionId) (hash : RequestHash) (review : ReviewResult)
    (db : ScenarioDb) : Prop :=
  ∃ position row, stepAt a position db = some row ∧ row.submissionId = s ∧ row.requestHash = hash ∧
    row.reviewResponse = some review

theorem Stored.rely {s : SubmissionId} {review : ReviewResult} (h : Stored a s hash review w.db)
    (hr : ScenarioRely catalogue allow i t w w') : Stored a s hash review w'.db := by
  obtain ⟨position, row, hrow, hfits⟩ := h
  exact ⟨position, row, rely_step hr hrow, hfits⟩

/-- What is answered to a submission that is accepted, now or before, is stored. -/
def Settles (a : AttemptId) (request : Submission) (hash : RequestHash)
    (reply : Reply SubmitStepResponse) (t : Tx Row) (w : ScenarioWorld) : Prop :=
  t = {} ∧ ∀ response, reply = .ok response →
    Stored a request.submissionId hash response.review w.db

theorem Settles.refused {why : ScenarioError} :
    Settles a request hash (.error why) {} w := ⟨rfl, by rintro _ ⟨⟩⟩

/-- Once the step is stored, the attempt is loaded for the answer. -/
theorem wp_respond {review : ReviewResult} {f : Attempt → SubmitStepResponse}
    (hf : ∀ attempt, (f attempt).review = review)
    (h : Stored a request.submissionId hash review w.db) :
    wp (scenarioContract catalogue allow) i (Settles a request hash)
      (do return (← loadAttempt catalogue u a).map f) {} w := by
  rw [wp_bind]
  refine wp_loadAttempt fun reply w' hr => ?_
  cases reply with
  | error why => exact .refused
  | ok attempt =>
    refine ⟨rfl, ?_⟩
    rintro _ ⟨⟩
    rw [hf]
    exact h.rely hr

theorem replayStep_keeps {existing : StepRow} (clean : ∀ db, t.visible db = db)
    (locked : Locked catalogue u a r t w) (hstep : stepAt a position w.db = some existing)
    (hsubmission : existing.submissionId = request.submissionId) :
    wp (scenarioContract catalogue allow) i (Settles a request hash)
      (replayStep catalogue u a request hash existing) t w := by
  unfold replayStep
  split
  · exact .refused
  rename_i hhash
  push Not at hhash
  cases hreview : existing.reviewResponse with
  | none => exact .refused
  | some review =>
    dsimp only
    rw [wp_bind, wp_commit]
    intro w' hr hi _
    have hkept : stepAt a position w'.db = some existing := by
      have hsame := congrFun (locked.steps hr) position
      exact hsame.trans hstep
    refine ⟨publishes hi ?_ (fun _ => clean _) (by rintro _ _ _ ⟨⟩), wp_respond (fun _ => rfl) ?_⟩
    · rw [clean, ← hsubmission]
      exact .replayed hkept hreview
    · refine ⟨position, existing, ?_, hsubmission, hhash, hreview⟩
      rw [World.publish, clean]
      exact hkept

/-- What the code has checked of the attempt before it writes. -/
structure Fits (catalogue : Catalogue) (r : AttemptRow) (position : Nat) (request : Submission) :
    Prop where
  version : r.version = request.attemptVersion
  active : r.status = .active
  position : position = r.currentPosition
  within : r.currentPosition < catalogue.stepCount r.scenarioSlug

theorem fitsAttempt_fits {step : ScenarioStep} {evidence : List String × List String}
    (h : fitsAttempt catalogue unicode r position request = .ok (step, evidence)) :
    Fits catalogue r position request := by
  unfold fitsAttempt at h
  by_cases hversion : r.version ≠ request.attemptVersion
  · rw [if_pos hversion] at h
    cases h
  rw [if_neg hversion] at h
  cases hstatus : r.status with
  | active =>
    simp only [hstatus] at h
    by_cases hposition : position ≠ r.currentPosition
    · rw [if_pos hposition] at h
      cases h
    rw [if_neg hposition] at h
    push Not at hversion hposition
    subst hposition
    cases hstep : (catalogue.steps r.scenarioSlug)[r.currentPosition]? with
    | none =>
      simp only [hstep] at h
      cases h
    | some step' => exact ⟨hversion, hstatus, rfl, (List.getElem?_eq_some_iff.1 hstep).1⟩
  | paused | completed | discarded =>
    simp only [hstatus] at h
    cases h

theorem result_event (attempt : LessonRepository.Attempt) (x : WordId) (e : EventId)
    (now : Instant) : (attempt.result x e now).reviewEventId = e := rfl

/-- The review that a step carries: one new event, as far as the machine speaks of it. -/
theorem wp_review {x : WordId} {review : ReviewRequest} {assessment : ReviewAssessment}
    {Q : Except ReviewTransaction.TrustedReviewError ReviewResult → Tx Row → ScenarioWorld → Prop}
    (failed : ∀ why t' w', Q (.error why) t' w')
    (applied : ∀ (result : ReviewResult) (row : EventRow) t' w',
      ScenarioRely catalogue allow i t w w' → t.held ⊆ t'.held →
      (∀ db, view (t'.visible db) = (view (t.visible db)).putEvent result.reviewEventId row) →
      (t.visible w'.db).lookup (.inl (.event result.reviewEventId)) = none →
      t'.holds (.inl (.event result.reviewEventId)) → Q (.ok result) t' w') :
    wp (scenarioContract catalogue allow) i Q
      (lift (fun _ => []) (ReviewTransaction.reviewWordTxWithAssessment u x review assessment)) t w := by
  refine wp_reviewWordTxWithAssessment failed fun state now e t' w' hdid hfresh hheld => ?_
  have hid := result_event (ReviewTransaction.scheduled review state assessment now) x e now
  refine applied _ ((ReviewTransaction.scheduled review state assessment now).event u x review now
    none none) t' w' hdid.rely hdid.held (fun db => ?_) (hid.symm ▸ hfresh) (hid.symm ▸ hheld)
  rw [hid, hdid.visible, view_putEvent, putUserWord, view_set_outside]
  exact trivial

theorem wp_insertStep {s : StepRow} {Q : Bool → Tx Row → ScenarioWorld → Prop}
    (failed : ∀ t' w', Q false t' w')
    (inserted : ∀ t' w', ScenarioRely catalogue allow i t w w' → t.held ⊆ t'.held →
      (∀ db, view (t'.visible db) = (view (t.visible db)).putStep a position s) → Q true t' w') :
    wp (scenarioContract catalogue allow) i Q (insertStep a position s) t w := by
  unfold insertStep
  split
  · exact failed _ _
  rw [wp_bind, wp_lockRow]
  intro w₁ hr₁ _
  rw [wp_bind, wp_select]
  intro w₂ hr₂ _
  split
  · exact failed _ _
  refine wp_insertRow (fun _ _ _ _ _ => failed _ _) fun w₃ hr₃ _ _ => ?_
  refine inserted _ w₃ ((hr₁.trans (rely_hold hr₂)).trans (rely_hold hr₃)) ?_ fun db => ?_
  · exact fun x hx => List.mem_cons_of_mem _ (List.mem_cons_of_mem _ (List.mem_cons_of_mem _ hx))
  · rw [Tx.visible_write, view_set_step]
    rfl

/-- What the commit of an accepted step stands on. -/
structure Accepting (catalogue : Catalogue) (a : AttemptId) (r : AttemptRow) (s : StepRow)
    (result : ReviewResult) (w : ScenarioWorld) : Prop where
  active : r.status = .active
  within : r.currentPosition < catalogue.stepCount r.scenarioSlug
  new : ∀ position s', (view w.db).step a position = some s' → s'.submissionId ≠ s.submissionId
  fresh : (view w.db).event result.reviewEventId = none
  state : ∃ acceptedAt, s.state = .accepted result.reviewEventId result acceptedAt

theorem Accepting.rely {s : StepRow} {result : ReviewResult} (h : Accepting catalogue a r s result w)
    (locked : Locked catalogue u a r t w) (hevent : t.holds (.inl (.event result.reviewEventId)))
    (hr : ScenarioRely catalogue allow i t w w') : Accepting catalogue a r s result w' := by
  refine ⟨h.active, h.within, ?_, hr.kept hevent h.fresh, h.state⟩
  rw [locked.steps hr]
  exact h.new

theorem commitStep_keeps {s : StepRow} {result : ReviewResult} {row : EventRow} {now : Instant}
    (locked : Locked catalogue u a r t w) (h : Accepting catalogue a r s result w)
    (hs : s.submissionId = request.submissionId)
    (hevent : t.holds (.inl (.event result.reviewEventId)))
    (hview : ∀ db, view (t.visible db) = (((view db).putAttempt a (advanced catalogue r now)).putStep
      a r.currentPosition s).putEvent result.reviewEventId row) :
    wp (scenarioContract catalogue allow) i (Settles a request s.requestHash) (do
      commit [.accepted a r.currentPosition s.submissionId s.requestHash result]
      return (← loadAttempt catalogue u a).map (freshResponse result)) t w := by
  rw [wp_bind, wp_commit]
  intro w' hr hi _
  have h' := h.rely locked hevent hr
  obtain ⟨acceptedAt, hstate⟩ := h'.state
  refine ⟨publishes hi ?_ (by rintro ⟨⟩) (by rintro _ _ _ ⟨⟩), wp_respond (fun _ => rfl) ?_⟩
  · rw [hview]
    exact .accepted (locked.rely hr (List.Subset.refl _)).row h'.active h'.within h'.new h'.fresh rfl
      hstate
  · have hstored : (view (t.visible w'.db)).step a r.currentPosition = some s := by
      rw [hview]
      exact putStep_step.2 (.inl ⟨rfl, rfl, rfl⟩)
    exact ⟨r.currentPosition, s, hstored, hs, rfl, by rw [StepRow.reviewResponse, hstate]⟩

theorem acceptStep_keeps {step : ScenarioStep} {facts hypotheses : List String}
    (clean : ∀ db, t.visible db = db) (locked : Locked catalogue u a r t w)
    (fits : Fits catalogue r position request) (hnew : submitted a request.submissionId w.db = none) :
    wp (scenarioContract catalogue allow) i (Settles a request hash)
      (acceptStep catalogue unicode lower u a r position request hash step facts hypotheses) t w := by
  obtain rfl := fits.position
  unfold acceptStep
  rw [wp_bind]
  refine wp_sparing (resolve_sparing u step.reviewTarget) fun word t₁ w₁ hresolved => ?_
  cases word with
  | none => exact .refused
  | some word =>
    dsimp only
    generalize buildScenarioReview unicode (trimSpace request.response) step.reviewTarget request =
      review
    rw [wp_bind]
    refine wp_review (fun _ _ _ => .refused) fun result row t₂ w₂ hr₂ hheld₂ hview₂ hfresh hevent => ?_
    dsimp only
    rw [wp_bind, wp_choose]
    intro acceptedAt
    rw [wp_bind]
    generalize hs : stepRow request hash facts hypotheses result acceptedAt = s
    refine wp_insertStep (fun _ _ => .refused) fun t₃ w₃ hr₃ hheld₃ hview₃ => ?_
    rw [if_neg (by simp), wp_bind]
    have hr := (hresolved.rely.trans (hr₂.mono fun _ hx => hresolved.held hx)).trans
      (hr₃.mono fun _ hx => hheld₂ (hresolved.held hx))
    have hheld : t.held ⊆ t₃.held := fun _ hx => hheld₃ (hheld₂ (hresolved.held hx))
    have locked₃ := (locked.rely hr (List.Subset.refl _)).mono hheld
    have hevent₃ := hevent.mono hheld₃
    have hview : ∀ db, view (t₃.visible db) =
        ((view db).putEvent result.reviewEventId row).putStep a r.currentPosition s := by
      intro db
      rw [hview₃, hview₂, view_framed hresolved, clean]
    have accepting : Accepting catalogue a r s result w₃ := by
      refine ⟨fits.active, fits.within, ?_, ?_, micros acceptedAt, by rw [← hs]; rfl⟩
      · rw [locked.steps hr, ← hs]
        exact fun position s' h => submitted_none hnew h
      · have before := congrArg (fun m => m.event result.reviewEventId)
          (view_framed hresolved w₂.db)
        rw [clean] at before
        exact hr₃.kept hevent (before.symm.trans hfresh)
    have sent : s.submissionId = request.submissionId ∧ s.requestHash = hash := by
      rw [← hs]
      exact ⟨rfl, rfl⟩
    obtain rfl := sent.2
    rw [← sent.1]
    have hrow : (t₃.visible w₃.db).lookup (attemptKey a) = some r :=
      (congrFun (congrArg Lessons.attempt (hview w₃.db)) a).trans locked₃.row
    refine @wp_updateRow_locked Key _ Row Note _ i _ w₃ (attemptKey a) .noKeyUpdate
      (fun r => r.userId = u) _ r _ (Or.inl rfl) ⟨.update, by simp, locked₃.held⟩ hrow
      (decide_eq_true locked.owner) fun w₄ hr₄ _ => ?_
    have locked₄ := locked₃.rely hr₄ (List.Subset.refl _)
    have accepting₄ := accepting.rely locked₃ hevent₃ hr₄
    have hheld₄ : ∀ k m v, t₃.held ⊆ ((t₃.hold k m).write k m v).held := fun _ _ _ _ hx =>
      List.mem_cons_of_mem _ (List.mem_cons_of_mem _ hx)
    have hview₄ : ∀ db, view (((t₃.hold (attemptKey a) .noKeyUpdate).write (attemptKey a) .noKeyUpdate
        (some (advanced catalogue r acceptedAt))).visible db) = (((view db).putAttempt a
        (advanced catalogue r acceptedAt)).putStep a r.currentPosition s).putEvent
        result.reviewEventId row := by
      intro db
      rw [Tx.visible_write, view_set_attempt, Tx.visible_hold, hview]
      rfl
    split
    · rw [wp_bind, wp_lockRow]
      intro w₅ hr₅ _
      have hr₅' := hr₅.mono fun _ hx => hheld₄ _ _ _ hx
      refine commitStep_keeps ((locked₄.rely hr₅' (List.Subset.refl _)).mono ?_)
        (accepting₄.rely locked₄ hevent₃ hr₅') sent.1 (hevent₃.mono ?_) hview₄
      · exact fun _ hx => List.mem_cons_of_mem _ (hheld₄ _ _ _ hx)
      · exact fun _ hx => List.mem_cons_of_mem _ (hheld₄ _ _ _ hx)
    · exact commitStep_keeps (locked₄.mono (hheld₄ _ _ _)) accepting₄ sent.1 (hevent₃.mono (hheld₄ _ _ _)) hview₄

theorem submitStep_settles (w : ScenarioWorld) : wp (scenarioContract catalogue allow) i
    (Settles a request hash) (submitStep catalogue unicode lower u a position request hash) {} w := by
  unfold submitStep
  rw [wp_bind]
  refine wp_lockAttempt (fun _ _ => .refused) fun r w₁ locked => ?_
  dsimp only
  rw [wp_bind, wp_select]
  intro w₂ hr₂ _
  have locked₂ := locked.rely hr₂ (List.Subset.refl _)
  rw [Tx.visible_hold, Tx.visible_empty]
  cases hexisting : submitted a request.submissionId w₂.db with
  | some existing =>
    obtain ⟨position', hstep, hsubmission⟩ := submitted_step hexisting
    exact replayStep_keeps (fun _ => rfl) locked₂ hstep hsubmission
  | none =>
    dsimp only
    cases hfits : fitsAttempt catalogue unicode r position request with
    | error why => exact .refused
    | ok fitted =>
      obtain ⟨step, facts, hypotheses⟩ := fitted
      exact acceptStep_keeps (fun _ => rfl) locked₂ (fitsAttempt_fits hfits) hexisting

/-- What a submission is told that has been accepted before. -/
def Repeated (a : AttemptId) (hash : RequestHash) (existing : StepRow) (review : ReviewResult)
    (reply : Reply SubmitStepResponse) : Prop :=
  if existing.requestHash = hash then
    ∃ attempt : Attempt, attempt.id = a ∧ reply = .ok (replayResponse review attempt)
  else reply = .error .attemptConflict

theorem Repeated.same {existing : StepRow} {review : ReviewResult} {attempt : Attempt}
    (h : existing.requestHash = hash) (hid : attempt.id = a) :
    Repeated a hash existing review (.ok (replayResponse review attempt)) := by
  rw [Repeated, if_pos h]
  exact ⟨attempt, hid, rfl⟩

theorem Repeated.other {existing : StepRow} {review : ReviewResult}
    (h : existing.requestHash ≠ hash) :
    Repeated a hash existing review (.error .attemptConflict) := by
  rw [Repeated, if_neg h]

theorem submitStep_repeats {at_ : Nat} {existing : StepRow} {review : ReviewResult} (hr : attemptAt a w.db = some r) (hu : r.userId = u)
    (hstep : stepAt a at_ w.db = some existing)
    (hsubmission : existing.submissionId = request.submissionId)
    (hreview : existing.reviewResponse = some review) :
    wp (scenarioContract catalogue allow) i (fun reply _ _ => Repeated a hash existing review reply)
      (submitStep catalogue unicode lower u a position request hash) {} w := by
  unfold submitStep lockAttempt
  have found : ∀ {w'}, ScenarioRely catalogue allow i {} w w' →
      ¬ Misses {} w' (attemptKey a) (fun r => decide (r.userId = u)) := by
    intro w' hrely hmiss
    obtain ⟨r', hr', hu'⟩ := rely_attempt hrely hr
    exact absurd (hu'.trans hu) (of_decide_eq_false (hmiss r' hr'))
  rw [wp_bind]
  refine @wp_selectFor Key _ Row Note _ i {} w (attemptKey a) .update (fun r => r.userId = u) _
    (fun _ hrely _ hmiss => absurd hmiss (found hrely))
    (fun _ hrely _ hmiss => absurd hmiss (found hrely)) ?_
  intro w₁ r₁ hr₁ hi₁ _ _
  dsimp only
  rw [wp_bind, wp_select]
  intro w₂ hr₂ hi₂
  have hw₂ := hr₁.trans (rely_hold hr₂)
  rw [Tx.visible_hold, Tx.visible_empty]
  cases hexisting : submitted a request.submissionId w₂.db with
  | none => exact absurd hsubmission (submitted_none hexisting (rely_step hw₂ hstep))
  | some existing' =>
    obtain ⟨position', hstep', hsubmission'⟩ := submitted_step hexisting
    have hkept := rely_step hw₂ hstep
    obtain rfl : position' = at_ := hi₂.submissions a _ _ _ _ hstep' hkept
      (hsubmission'.trans hsubmission.symm)
    obtain rfl : existing' = existing := Option.some.inj (hstep'.symm.trans hkept)
    dsimp only
    unfold replayStep
    by_cases hhash : existing'.requestHash = hash
    · rw [if_neg (not_not.2 hhash), hreview]
      dsimp only
      rw [wp_bind, wp_commit]
      intro w₃ hr₃ hi₃ _
      obtain ⟨r₃, hr₃', hu₃⟩ := rely_attempt (hw₂.trans (rely_hold hr₃)) hr
      refine ⟨publishes hi₃ ?_ (fun _ => rfl) (by rintro _ _ _ ⟨⟩), ?_⟩
      · rw [← hsubmission]
        exact .replayed (rely_step hr₃ hkept) hreview
      · rw [wp_bind]
        refine wp_loadAttempt_found hr₃' (hu₃.trans hu) fun attempt w₄ _ hid => ?_
        exact Repeated.same hhash hid
    · rw [if_pos hhash]
      exact Repeated.other hhash

theorem submitStep_keeps : Keeps catalogue allow
    (submitStep catalogue unicode lower u a position request hash) :=
  fun _ w => wp_mono (fun _ _ _ h => h.1) (submitStep_settles w)

end Submitting

end ScenarioRefinement
