import LexiGo.Scenarios.ScenarioService
import Mathlib.Logic.Function.Basic

/-! Attempts at scenario lessons as a state machine: what each request makes of the
committed attempts and steps when it commits. -/
namespace ScenarioMachine
open RowStore Scheduler ScenarioSchema ScenarioRepository Function
open LearningSchema (UserId EventId EventRow ReviewResult)

/-- The attempts, their steps, and the reviews that the steps carry. -/
@[ext] structure Lessons where
  attempt : AttemptId → Option AttemptRow
  step : AttemptId → Nat → Option StepRow
  event : EventId → Option EventRow

def eventAt (e : EventId) (db : ScenarioDb) : Option EventRow := db.lookup (.inl (.event e))

def view (db : ScenarioDb) : Lessons where
  attempt a := attemptAt a db
  step a position := stepAt a position db
  event e := eventAt e db

/-- No attempt of the user at the scenario is open. -/
def NoneOpen (u : UserId) (slug : Slug) (m : Lessons) : Prop :=
  ∀ a r, m.attempt a = some r → r.openFor u slug = false

def Lessons.putAttempt (a : AttemptId) (r : AttemptRow) (m : Lessons) : Lessons :=
  { m with attempt := update m.attempt a (some r) }

def Lessons.putStep (a : AttemptId) (position : Nat) (r : StepRow) (m : Lessons) : Lessons :=
  { m with step := update m.step a (update (m.step a) position (some r)) }

def Lessons.putEvent (e : EventId) (row : EventRow) (m : Lessons) : Lessons :=
  { m with event := update m.event e (some row) }

section Puts
variable {m : Lessons} {a a' : AttemptId} {r r' : AttemptRow} {position position' : Nat}
variable {s s' : StepRow} {e e' : EventId} {row row' : EventRow}

theorem putAttempt_attempt : (m.putAttempt a r).attempt a' = some r' ↔
    (a' = a ∧ r' = r) ∨ (a' ≠ a ∧ m.attempt a' = some r') := by
  by_cases h : a' = a
  · subst h
    simp [Lessons.putAttempt, eq_comm]
  · simp [Lessons.putAttempt, h]

theorem putStep_step : (m.putStep a position s).step a' position' = some s' ↔
    (a' = a ∧ position' = position ∧ s' = s) ∨
      (¬ (a' = a ∧ position' = position) ∧ m.step a' position' = some s') := by
  by_cases ha : a' = a
  · subst ha
    by_cases hp : position' = position
    · subst hp
      simp [Lessons.putStep, eq_comm]
    · simp [Lessons.putStep, hp]
  · simp [Lessons.putStep, ha]

theorem putEvent_event : (m.putEvent e row).event e' = some row' ↔
    (e' = e ∧ row' = row) ∨ (e' ≠ e ∧ m.event e' = some row') := by
  by_cases h : e' = e
  · subst h
    simp [Lessons.putEvent, eq_comm]
  · simp [Lessons.putEvent, h]

@[simp] theorem putAttempt_step : (m.putAttempt a r).step = m.step := rfl
@[simp] theorem putAttempt_event : (m.putAttempt a r).event = m.event := rfl
@[simp] theorem putStep_attempt : (m.putStep a position s).attempt = m.attempt := rfl
@[simp] theorem putStep_event : (m.putStep a position s).event = m.event := rfl
@[simp] theorem putEvent_attempt : (m.putEvent e row).attempt = m.attempt := rfl
@[simp] theorem putEvent_step : (m.putEvent e row).step = m.step := rfl

end Puts

theorem openFor_iff {u : UserId} {slug : Slug} {r : AttemptRow} :
    r.openFor u slug = true ↔ r.status.isOpen = true ∧ r.userId = u ∧ r.scenarioSlug = slug := by
  simp [AttemptRow.openFor, and_assoc]

variable (catalogue : Catalogue)

/-- The attempt as the step accepted at its position leaves it. -/
def advanced (r : AttemptRow) (now : Instant) : AttemptRow :=
  r.advance (r.currentPosition + 1)
    (decide (catalogue.stepCount r.scenarioSlug ≤ r.currentPosition + 1)) now

/-- One commit. -/
inductive Step : Note → Lessons → Lessons → Prop
  | started {m : Lessons} {u : UserId} {slug : Slug} {a : AttemptId} {scenario : Scenario}
      {now : Instant} :
      catalogue slug = some scenario → m.attempt a = none → NoneOpen u slug m →
      Step (.started u slug a) m (m.putAttempt a (newAttempt u slug scenario.version now))
  | statusSet {m : Lessons} {a : AttemptId} {r : AttemptRow} {status : AttemptStatus}
      {now : Instant} :
      m.attempt a = some r → r.status.isOpen = true → status.isOpen = true →
      Step (.statusSet a status) m (m.putAttempt a (r.setStatus status now))
  | statusKept {m : Lessons} {a : AttemptId} : Step (.statusKept a) m m
  | accepted {m : Lessons} {a : AttemptId} {r : AttemptRow} {s : StepRow} {event : EventRow}
      {hash : RequestHash} {review : ReviewResult} {acceptedAt now : Instant} :
      m.attempt a = some r → r.status = .active →
      r.currentPosition < catalogue.stepCount r.scenarioSlug →
      (∀ position s', m.step a position = some s' → s'.submissionId ≠ s.submissionId) →
      m.event review.reviewEventId = none →
      s.requestHash = hash → s.state = .accepted review.reviewEventId review acceptedAt →
      Step (.accepted a r.currentPosition s.submissionId hash review) m
        (((m.putAttempt a (advanced catalogue r now)).putStep a r.currentPosition s).putEvent
          review.reviewEventId event)
  | replayed {m : Lessons} {a : AttemptId} {position : Nat} {s : StepRow} {review : ReviewResult} :
      m.step a position = some s → s.reviewResponse = some review →
      Step (.replayed a s.submissionId review) m m

/-- A commit that says so has changed nothing. -/
def silent : Note → Prop
  | .statusKept _ | .replayed _ _ _ => True
  | .started _ _ _ | .statusSet _ _ | .accepted _ _ _ _ _ => False

/-- What holds of every attempt and its steps. -/
structure Sound (m : Lessons) : Prop where
  single : ∀ u slug a a' r r', m.attempt a = some r → m.attempt a' = some r' →
    r.openFor u slug = true → r'.openFor u slug = true → a = a'
  bounded : ∀ a r, m.attempt a = some r → r.currentPosition ≤ catalogue.stepCount r.scenarioSlug
  completed : ∀ a r, m.attempt a = some r →
    (r.status = .completed ↔ r.currentPosition = catalogue.stepCount r.scenarioSlug)
  owned : ∀ a position s, m.step a position = some s → ∃ r, m.attempt a = some r
  positions : ∀ a r, m.attempt a = some r →
    ∀ position, (∃ s, m.step a position = some s) ↔ position < r.currentPosition
  accepted : ∀ a position s, m.step a position = some s →
    ∃ review acceptedAt, s.state = .accepted review.reviewEventId review acceptedAt ∧
      ∃ event, m.event review.reviewEventId = some event
  apart : ∀ a a' position position' s s' e, m.step a position = some s →
    m.step a' position' = some s' → s.reviewEventId = some e → s'.reviewEventId = some e →
    a = a' ∧ position = position'
  submissions : ∀ a position position' s s', m.step a position = some s →
    m.step a position' = some s' → s.submissionId = s'.submissionId → position = position'

theorem stepCount_pos {slug : Slug} {scenario : Scenario} (h : catalogue slug = some scenario) :
    0 < catalogue.stepCount slug := by
  simp only [Catalogue.stepCount, Catalogue.steps, h, Option.elim_some]
  exact List.length_pos_iff.2 scenario.nonempty

variable {catalogue} {m m' : Lessons} {n : Note}

/-- An attempt that is not open yet, or was open before, stays the only open one. -/
theorem single_putAttempt {a : AttemptId} {r : AttemptRow} (h : Sound catalogue m)
    (hopen : r.status.isOpen = true → NoneOpen r.userId r.scenarioSlug m ∨
      ∃ r₀, m.attempt a = some r₀ ∧ r₀.openFor r.userId r.scenarioSlug = true) :
    ∀ u slug a₁ a₂ r₁ r₂, (m.putAttempt a r).attempt a₁ = some r₁ →
      (m.putAttempt a r).attempt a₂ = some r₂ → r₁.openFor u slug = true →
      r₂.openFor u slug = true → a₁ = a₂ := by
  have other : ∀ u slug a' r', a' ≠ a → m.attempt a' = some r' → r'.openFor u slug = true →
      r.openFor u slug = true → False := by
    intro u slug a' r' hne hr' hopen' hr
    obtain ⟨hstatus, rfl, rfl⟩ := openFor_iff.1 hr
    rcases hopen hstatus with hnone | ⟨r₀, hr₀, hopen₀⟩
    · rw [hnone a' r' hr'] at hopen'
      cases hopen'
    · exact hne (h.single _ _ a' a r' r₀ hr' hr₀ hopen' hopen₀)
  intro u slug a₁ a₂ r₁ r₂ h₁ h₂ hopen₁ hopen₂
  rcases putAttempt_attempt.1 h₁ with ⟨rfl, rfl⟩ | ⟨hne₁, hold₁⟩ <;>
    rcases putAttempt_attempt.1 h₂ with ⟨rfl, rfl⟩ | ⟨hne₂, hold₂⟩
  · rfl
  · exact absurd (other u slug a₂ r₂ hne₂ hold₂ hopen₂ hopen₁) not_false
  · exact absurd (other u slug a₁ r₁ hne₁ hold₁ hopen₁ hopen₂) not_false
  · exact h.single u slug a₁ a₂ r₁ r₂ hold₁ hold₂ hopen₁ hopen₂

theorem started_sound {u : UserId} {slug : Slug} {a : AttemptId} {scenario : Scenario}
    {now : Instant} (h : Sound catalogue m) (hscenario : catalogue slug = some scenario)
    (hfree : m.attempt a = none) (hnone : NoneOpen u slug m) :
    Sound catalogue (m.putAttempt a (newAttempt u slug scenario.version now)) := by
  have hcount := stepCount_pos catalogue hscenario
  have hno : ∀ position s, m.step a position ≠ some s := by
    intro position s hs
    obtain ⟨r, hr⟩ := h.owned a position s hs
    rw [hfree] at hr
    cases hr
  refine ⟨single_putAttempt h fun _ => .inl hnone, ?_, ?_, ?_, ?_, h.accepted, h.apart,
    h.submissions⟩
  · intro a' r' hr'
    rcases putAttempt_attempt.1 hr' with ⟨rfl, rfl⟩ | ⟨-, hr'⟩
    · exact Nat.zero_le _
    · exact h.bounded a' r' hr'
  · intro a' r' hr'
    rcases putAttempt_attempt.1 hr' with ⟨rfl, rfl⟩ | ⟨-, hr'⟩
    · constructor
      · intro hstatus
        cases hstatus
      · exact fun heq => absurd heq (Nat.ne_of_lt hcount)
    · exact h.completed a' r' hr'
  · intro a' position s hs
    obtain ⟨r, hr⟩ := h.owned a' position s hs
    have hne : a' ≠ a := by
      rintro rfl
      exact hno position s hs
    exact ⟨r, putAttempt_attempt.2 (.inr ⟨hne, hr⟩)⟩
  · intro a' r' hr' position
    rcases putAttempt_attempt.1 hr' with ⟨rfl, rfl⟩ | ⟨-, hr'⟩
    · constructor
      · rintro ⟨s, hs⟩
        exact absurd hs (hno position s)
      · intro hlt
        exact absurd hlt (Nat.not_lt_zero _)
    · exact h.positions a' r' hr' position

theorem statusSet_sound {a : AttemptId} {r : AttemptRow} {status : AttemptStatus} {now : Instant}
    (h : Sound catalogue m) (hr : m.attempt a = some r) (hopen : r.status.isOpen = true)
    (hstatus : status.isOpen = true) :
    Sound catalogue (m.putAttempt a (r.setStatus status now)) := by
  refine ⟨single_putAttempt h fun _ => .inr ⟨r, hr, openFor_iff.2 ⟨hopen, rfl, rfl⟩⟩, ?_, ?_, ?_, ?_,
    h.accepted, h.apart, h.submissions⟩
  · intro a' r' hr'
    rcases putAttempt_attempt.1 hr' with ⟨rfl, rfl⟩ | ⟨-, hr'⟩
    · exact h.bounded a' r hr
    · exact h.bounded a' r' hr'
  · intro a' r' hr'
    rcases putAttempt_attempt.1 hr' with ⟨rfl, rfl⟩ | ⟨-, hr'⟩
    · have hbefore := h.completed a' r hr
      constructor
      · intro heq
        have heq : status = .completed := heq
        rw [heq] at hstatus
        cases hstatus
      · intro heq
        rw [hbefore.2 heq] at hopen
        cases hopen
    · exact h.completed a' r' hr'
  · intro a' position s hs
    obtain ⟨r', hr'⟩ := h.owned a' position s hs
    by_cases ha : a' = a
    · exact ⟨_, putAttempt_attempt.2 (.inl ⟨ha, rfl⟩)⟩
    · exact ⟨r', putAttempt_attempt.2 (.inr ⟨ha, hr'⟩)⟩
  · intro a' r' hr' position
    rcases putAttempt_attempt.1 hr' with ⟨rfl, rfl⟩ | ⟨-, hr'⟩
    · exact h.positions a' r hr position
    · exact h.positions a' r' hr' position

theorem accepted_sound {a : AttemptId} {r : AttemptRow} {s : StepRow} {event : EventRow}
    {review : ReviewResult} {acceptedAt now : Instant} (h : Sound catalogue m)
    (hr : m.attempt a = some r) (hactive : r.status = .active)
    (hposition : r.currentPosition < catalogue.stepCount r.scenarioSlug)
    (hnew : ∀ position s', m.step a position = some s' → s'.submissionId ≠ s.submissionId)
    (hevent : m.event review.reviewEventId = none)
    (hs : s.state = .accepted review.reviewEventId review acceptedAt) :
    Sound catalogue (((m.putAttempt a (advanced catalogue r now)).putStep a r.currentPosition s).putEvent
      review.reviewEventId event) := by
  have hfree : ∀ s', m.step a r.currentPosition ≠ some s' := fun s' hs' =>
    absurd ((h.positions a r hr _).1 ⟨s', hs'⟩) (Nat.lt_irrefl _)
  have hfresh : ∀ a' position s', m.step a' position = some s' →
      s'.reviewEventId ≠ some review.reviewEventId := by
    intro a' position s' hs' heq
    obtain ⟨review', acceptedAt', hstate, event', hevent'⟩ := h.accepted a' position s' hs'
    simp only [StepRow.reviewEventId, hstate, Option.some.injEq] at heq
    rw [heq, hevent] at hevent'
    cases hevent'
  have hmine : s.reviewEventId = some review.reviewEventId := by
    simp only [StepRow.reviewEventId, hs]
  have hsingle : ∀ status : AttemptStatus, status.isOpen = true →
      NoneOpen r.userId r.scenarioSlug m ∨
        ∃ r₀, m.attempt a = some r₀ ∧ r₀.openFor r.userId r.scenarioSlug = true :=
    fun _ _ => .inr ⟨r, hr, openFor_iff.2 ⟨by rw [hactive]; rfl, rfl, rfl⟩⟩
  refine ⟨single_putAttempt h (hsingle _), ?_, ?_, ?_, ?_, ?_, ?_, ?_⟩
  · intro a' r' hr'
    rcases putAttempt_attempt.1 hr' with ⟨rfl, rfl⟩ | ⟨-, hr'⟩
    · exact hposition
    · exact h.bounded a' r' hr'
  · intro a' r' hr'
    rcases putAttempt_attempt.1 hr' with ⟨rfl, rfl⟩ | ⟨-, hr'⟩
    · have hstep : r.currentPosition + 1 ≤ catalogue.stepCount r.scenarioSlug := hposition
      simp only [advanced, AttemptRow.advance, decide_eq_true_eq]
      constructor
      · intro heq
        by_cases hlast : catalogue.stepCount r.scenarioSlug ≤ r.currentPosition + 1
        · exact Nat.le_antisymm hstep hlast
        · rw [if_neg hlast] at heq
          cases heq
      · intro heq
        rw [if_pos (Nat.le_of_eq heq.symm)]
    · exact h.completed a' r' hr'
  · intro a' position s' hs'
    by_cases ha : a' = a
    · exact ⟨_, putAttempt_attempt.2 (.inl ⟨ha, rfl⟩)⟩
    · rcases putStep_step.1 hs' with ⟨rfl, -, -⟩ | ⟨-, hs'⟩
      · exact absurd rfl ha
      · obtain ⟨r', hr'⟩ := h.owned a' position s' hs'
        exact ⟨r', putAttempt_attempt.2 (.inr ⟨ha, hr'⟩)⟩
  · intro a' r' hr' position
    rcases putAttempt_attempt.1 hr' with ⟨rfl, rfl⟩ | ⟨hne, hr'⟩
    · have hbefore := h.positions a' r hr position
      have hlast : (advanced catalogue r now).currentPosition = r.currentPosition + 1 := rfl
      rw [hlast]
      constructor
      · rintro ⟨s', hs'⟩
        rcases putStep_step.1 hs' with ⟨-, rfl, -⟩ | ⟨-, hs'⟩
        · exact Nat.lt_succ_self _
        · exact Nat.lt_succ_of_lt (hbefore.1 ⟨s', hs'⟩)
      · intro hlt
        by_cases hp : position = r.currentPosition
        · exact ⟨s, putStep_step.2 (.inl ⟨rfl, hp, rfl⟩)⟩
        · obtain ⟨s', hs'⟩ := hbefore.2 (by omega)
          exact ⟨s', putStep_step.2 (.inr ⟨fun hboth => hp hboth.2, hs'⟩)⟩
    · have hbefore := h.positions a' r' hr' position
      rw [← hbefore]
      constructor
      · rintro ⟨s', hs'⟩
        rcases putStep_step.1 hs' with ⟨rfl, -, -⟩ | ⟨-, hs'⟩
        · exact absurd rfl hne
        · exact ⟨s', hs'⟩
      · rintro ⟨s', hs'⟩
        exact ⟨s', putStep_step.2 (.inr ⟨fun hboth => hne hboth.1, hs'⟩)⟩
  · intro a' position s' hs'
    rcases putStep_step.1 hs' with ⟨-, -, rfl⟩ | ⟨-, hs'⟩
    · exact ⟨review, acceptedAt, hs, event, putEvent_event.2 (.inl ⟨rfl, rfl⟩)⟩
    · obtain ⟨review', acceptedAt', hstate, event', hevent'⟩ := h.accepted a' position s' hs'
      refine ⟨review', acceptedAt', hstate, event', putEvent_event.2 (.inr ⟨fun heq => ?_, hevent'⟩)⟩
      rw [heq, hevent] at hevent'
      cases hevent'
  · intro a₁ a₂ p₁ p₂ s₁ s₂ e h₁ h₂ he₁ he₂
    rcases putStep_step.1 h₁ with ⟨rfl, rfl, rfl⟩ | ⟨-, hold₁⟩ <;>
      rcases putStep_step.1 h₂ with ⟨rfl, rfl, rfl⟩ | ⟨-, hold₂⟩
    · exact ⟨rfl, rfl⟩
    · rw [hmine] at he₁
      cases he₁
      exact absurd he₂ (hfresh _ _ _ hold₂)
    · rw [hmine] at he₂
      cases he₂
      exact absurd he₁ (hfresh _ _ _ hold₁)
    · exact h.apart a₁ a₂ p₁ p₂ s₁ s₂ e hold₁ hold₂ he₁ he₂
  · intro a' p₁ p₂ s₁ s₂ h₁ h₂ heq
    rcases putStep_step.1 h₁ with ⟨rfl, rfl, rfl⟩ | ⟨-, hold₁⟩ <;>
      rcases putStep_step.1 h₂ with ⟨ha, rfl, rfl⟩ | ⟨-, hold₂⟩
    · rfl
    · exact absurd heq.symm (hnew p₂ s₂ hold₂)
    · subst ha
      exact absurd heq (hnew p₁ s₁ hold₁)
    · exact h.submissions a' p₁ p₂ s₁ s₂ hold₁ hold₂ heq

/-- Every commit keeps the attempts and their steps in order. -/
theorem Step.sound (h : Step catalogue n m m') (hm : Sound catalogue m) : Sound catalogue m' := by
  cases h with
  | started hscenario hfree hnone => exact started_sound hm hscenario hfree hnone
  | statusSet hr hopen hstatus => exact statusSet_sound hm hr hopen hstatus
  | statusKept | replayed => exact hm
  | accepted hr hactive hposition hnew hevent _ hs =>
    exact accepted_sound hm hr hactive hposition hnew hevent hs

/-- An attempt stays with its user and its scenario, and whatever changes it raises its
version by one. -/
structure Follows (r r' : AttemptRow) : Prop where
  userId : r'.userId = r.userId
  slug : r'.scenarioSlug = r.scenarioSlug
  version : r' = r ∨ r'.version = r.version + 1

theorem Step.attempt_kept (h : Step catalogue n m m') {a : AttemptId} {r : AttemptRow}
    (hr : m.attempt a = some r) : ∃ r', m'.attempt a = some r' ∧ Follows r r' := by
  have same : Follows r r := ⟨rfl, rfl, .inl rfl⟩
  cases h with
  | statusKept | replayed => exact ⟨r, hr, same⟩
  | @started _ u slug a' scenario now hscenario hfree hnone =>
    have hne : a ≠ a' := by
      rintro rfl
      rw [hfree] at hr
      cases hr
    exact ⟨r, putAttempt_attempt.2 (.inr ⟨hne, hr⟩), same⟩
  | @statusSet _ a' r' status now hr' hopen hstatus =>
    by_cases ha : a = a'
    · subst ha
      cases hr.symm.trans hr'
      exact ⟨_, putAttempt_attempt.2 (.inl ⟨rfl, rfl⟩), rfl, rfl, .inr rfl⟩
    · exact ⟨r, putAttempt_attempt.2 (.inr ⟨ha, hr⟩), same⟩
  | @accepted _ a' r' s event hash review acceptedAt now hr' hactive hposition hnew hevent hhash hs =>
    by_cases ha : a = a'
    · subst ha
      cases hr.symm.trans hr'
      exact ⟨_, putAttempt_attempt.2 (.inl ⟨rfl, rfl⟩), rfl, rfl, .inr rfl⟩
    · exact ⟨r, putAttempt_attempt.2 (.inr ⟨ha, hr⟩), same⟩

/-- A step stays as it has been accepted. -/
theorem Step.step_kept (h : Step catalogue n m m') (hm : Sound catalogue m) {a : AttemptId}
    {position : Nat} {s : StepRow} (hs : m.step a position = some s) :
    m'.step a position = some s := by
  cases h with
  | started | statusSet | statusKept | replayed => exact hs
  | @accepted _ a' r' s' event hash review acceptedAt now hr' hactive hposition hnew hevent hhash hs' =>
    refine putStep_step.2 (.inr ⟨?_, hs⟩)
    rintro ⟨rfl, rfl⟩
    exact absurd ((hm.positions _ r' hr' _).1 ⟨s, hs⟩) (Nat.lt_irrefl _)

/-- A review that is new is that of a step. -/
theorem Step.event_back (h : Step catalogue n m m') {e : EventId} {event : EventRow}
    (he : m'.event e = some event) : m.event e = some event ∨
      ∃ a position s, m'.step a position = some s ∧ s.reviewEventId = some e := by
  cases h with
  | started | statusSet | statusKept | replayed => exact .inl he
  | @accepted _ a r s row hash review acceptedAt now hr hactive hposition hnew hevent hhash hs =>
    rcases putEvent_event.1 he with ⟨rfl, -⟩ | ⟨-, he⟩
    · refine .inr ⟨a, r.currentPosition, s, putStep_step.2 (.inl ⟨rfl, rfl, rfl⟩), ?_⟩
      rw [StepRow.reviewEventId, hs]
    · exact .inl he

/-- A submission that is there is not accepted once more. -/
theorem Step.not_accepted_again {a : AttemptId} {position position' : Nat} {s : SubmissionId}
    {hash : RequestHash} {review : ReviewResult} {existing : StepRow}
    (h : Step catalogue (.accepted a position s hash review) m m')
    (hs : m.step a position' = some existing) : existing.submissionId ≠ s := by
  cases h with
  | accepted _ _ _ hnew => exact hnew position' existing hs

/-- Nothing is added to an attempt that stays as it is. -/
theorem Step.steps_same (h : Step catalogue n m m') {a : AttemptId} {r : AttemptRow}
    (hr : m.attempt a = some r) (hr' : m'.attempt a = some r) : m'.step a = m.step a := by
  cases h with
  | started | statusSet | statusKept | replayed => rfl
  | @accepted _ a' r₁ s event hash review acceptedAt now hr₁ hactive hposition hnew hevent hhash hs =>
    by_cases ha : a = a'
    · subst ha
      cases hr.symm.trans hr₁
      rcases putAttempt_attempt.1 hr' with ⟨-, heq⟩ | ⟨hne, -⟩
      · have hversion : r.version = r.version + 1 := congrArg AttemptRow.version heq
        omega
      · exact absurd rfl hne
    · exact update_of_ne ha _ _

/-- Only a start opens an attempt. -/
theorem Step.noneOpen (h : Step catalogue n m m') {u : UserId} {slug : Slug}
    (hn : ∀ a, n ≠ .started u slug a) (hnone : NoneOpen u slug m) : NoneOpen u slug m' := by
  have closed : ∀ {a : AttemptId} {r r₁ : AttemptRow}, m.attempt a = some r →
      r.status.isOpen = true → r₁.userId = r.userId → r₁.scenarioSlug = r.scenarioSlug →
      r₁.openFor u slug = false := by
    intro a r r₁ hr hopen huser hslug
    have hbefore := hnone a r hr
    cases hopen₁ : r₁.openFor u slug with
    | false => rfl
    | true =>
      obtain ⟨-, rfl, rfl⟩ := openFor_iff.1 hopen₁
      rw [openFor_iff.2 ⟨hopen, huser.symm, hslug.symm⟩] at hbefore
      cases hbefore
  intro a r hr
  cases h with
  | statusKept | replayed => exact hnone a r hr
  | @started _ u' slug' a' scenario now hscenario hfree hnone' =>
    rcases putAttempt_attempt.1 hr with ⟨rfl, rfl⟩ | ⟨-, hr⟩
    · cases hopen : (newAttempt u' slug' scenario.version now).openFor u slug with
      | false => rfl
      | true =>
        obtain ⟨-, rfl, rfl⟩ := openFor_iff.1 hopen
        exact absurd rfl (hn _)
    · exact hnone a r hr
  | @statusSet _ a' r' status now hr' hopen hstatus =>
    rcases putAttempt_attempt.1 hr with ⟨rfl, rfl⟩ | ⟨-, hr⟩
    · exact closed hr' hopen rfl rfl
    · exact hnone a r hr
  | @accepted _ a' r' s event hash review acceptedAt now hr' hactive hposition hnew hevent hhash hs =>
    rcases putAttempt_attempt.1 hr with ⟨rfl, rfl⟩ | ⟨-, hr⟩
    · exact closed hr' (by rw [hactive]; rfl) rfl rfl
    · exact hnone a r hr

end ScenarioMachine
