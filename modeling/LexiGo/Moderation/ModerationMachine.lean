import LexiGo.Moderation.ModerationService
import LexiGo.Learning.AnswerCandidates
import Mathlib.Logic.Function.Basic

/-! Suggestions, and the words and reviews that they are about, as a state
machine: what each request makes of the committed state when it commits. -/
namespace ModerationMachine
open RowStore GoText AnswerJudgement AnswerCandidates ModerationSchema ModerationRepository Function
open LearningSchema (UserId WordId EventId EventRow)

@[ext] structure Moderation where
  word : WordId → Option WordRow
  event : EventId → Option EventRow
  suggestion : SuggestionId → Option SuggestionRow

def view (db : ModerationDb) : Moderation where
  word w := wordAt w db
  event e := eventAt e db
  suggestion s := suggestionAt s db

variable (unicode : Unicode)

/-- What a decision makes of the word. -/
def taught (request : DecisionRequest) (r : SuggestionRow) (word : WordRow) : WordRow :=
  if teaches unicode request r word then word.learn r.submittedAnswer else word

/-- The review that a suggestion is on account of is there, with a verdict. -/
def Judged (m : Moderation) (r : SuggestionRow) : Prop :=
  ∀ e, r.reviewEventId = some e → ∃ event, m.event e = some event ∧ event.correct.isSome = true

/-- A line of a listing shows the rows as they are. -/
structure Shows (m : Moderation) (item : SuggestionContext) : Prop where
  row : ∃ r, m.suggestion item.id = some r ∧ r.version = item.version ∧ r.content = item.content ∧
    r.status = item.status

/-- One commit. -/
inductive Step : Note → Moderation → Moderation → Prop
  | reviewed {m : Moderation} {e : EventId} {event : EventRow} :
      m.event e = none → Step (.reviewed e) m { m with event := update m.event e (some event) }
  | submitted {m : Moderation} {s : SuggestionId} {row : SuggestionRow} :
      m.suggestion s = none → normalizeSubmittedAnswer unicode row.submittedAnswer ≠ "" →
      Judged m row →
      Step (.submitted s) m { m with suggestion := update m.suggestion s (some row) }
  | resubmitted {m : Moderation} {s : SuggestionId} {r row : SuggestionRow} :
      m.suggestion s = some r → row.conflicts r = true →
      normalizeSubmittedAnswer unicode row.submittedAnswer ≠ "" →
      Judged m row →
      Step (.resubmitted s row.content) m
        { m with suggestion := update m.suggestion s (some (row.resubmit r)) }
  | listed {m : Moderation} {items : List SuggestionContext} :
      (∀ item ∈ items, Shows m item) → Step (.listed items) m m
  | decided {m : Moderation} {s : SuggestionId} {r : SuggestionRow} {word : WordRow}
      {actor : UserId} {request : DecisionRequest} {now : Nat} :
      m.suggestion s = some r → m.word r.wordId = some word →
      r.undecided request.expectedVersion = true →
      Step (.decided s request.expectedVersion request.decision) m
        { m with
          word := update m.word r.wordId (some (taught unicode request r word))
          suggestion := update m.suggestion s (some (r.settle actor request now)) }

theorem Step.of_decided {unicode : Unicode} {m m' : Moderation} {s : SuggestionId} {v : Nat}
    {d : Decision} (h : Step unicode (.decided s v d) m m') :
    ∃ r word actor request now, m.suggestion s = some r ∧ m.word r.wordId = some word ∧
      r.status = .pending ∧ r.version = v ∧ request.decision = d ∧
      m' = { m with
        word := update m.word r.wordId (some (taught unicode request r word))
        suggestion := update m.suggestion s (some (r.settle actor request now)) } := by
  cases h with
  | @decided _ _ r word actor request now hr hw hopen =>
    simp only [SuggestionRow.undecided, Bool.and_eq_true, decide_eq_true_eq] at hopen
    exact ⟨r, word, actor, request, now, hr, hw, hopen.1, hopen.2, rfl, rfl⟩

theorem Step.of_listed {unicode : Unicode} {m m' : Moderation} {items : List SuggestionContext}
    (h : Step unicode (.listed items) m m') : (∀ item ∈ items, Shows m item) ∧ m' = m := by
  cases h with
  | listed hshows => exact ⟨hshows, rfl⟩

/-- Every suggestion is of something that can be judged. -/
def Judgeable (m : Moderation) : Prop :=
  ∀ s r, m.suggestion s = some r → normalizeSubmittedAnswer unicode r.submittedAnswer ≠ ""

variable {unicode}
variable {m m' : Moderation} {n : Note}

theorem Step.judgeable (h : Step unicode n m m') (hm : Judgeable unicode m) :
    Judgeable unicode m' := by
  intro s r hr
  cases h with
  | reviewed | listed => exact hm s r hr
  | @submitted _ s' row hnone hrow hjudged =>
    by_cases hs : s = s'
    · subst hs
      cases (update_self s (some row) m.suggestion).symm.trans hr
      exact hrow
    · exact hm s r ((update_of_ne hs _ _).symm.trans hr)
  | @resubmitted _ s' r' row hr' hconf hrow hjudged =>
    by_cases hs : s = s'
    · subst hs
      cases (update_self s (some (row.resubmit r')) m.suggestion).symm.trans hr
      exact hrow
    · exact hm s r ((update_of_ne hs _ _).symm.trans hr)
  | @decided _ s' r' word actor request now hr' hw hopen =>
    by_cases hs : s = s'
    · subst hs
      cases (update_self s (some (r'.settle actor request now)) m.suggestion).symm.trans hr
      exact hm s r' hr'
    · exact hm s r ((update_of_ne hs _ _).symm.trans hr)

section Judge
variable (word : WordRow) (request : DecisionRequest) (r : SuggestionRow)

theorem learn_definition (answer : String) :
    (word.learn answer).definition = extend word.definition [trimSpace answer] := rfl

/-- The word `word'` accepts what `word` accepts, and has lost no curated answer. -/
structure Learned (unicode : Unicode) (word word' : WordRow) : Prop where
  answers : word.acceptedAnswers <+: word'.acceptedAnswers
  accepts : ∀ answer, accepts unicode word answer = true → accepts unicode word' answer = true

theorem Learned.refl : Learned unicode word word := ⟨List.prefix_rfl, fun _ => id⟩

theorem Learned.trans {word word' word'' : WordRow} (h : Learned unicode word word')
    (h' : Learned unicode word' word'') : Learned unicode word word'' :=
  ⟨h.answers.trans h'.answers, fun answer => h'.accepts answer ∘ h.accepts answer⟩

theorem learn_learned (answer : String) : Learned unicode word (word.learn answer) := by
  refine ⟨List.prefix_append _ _, fun submitted h => ?_⟩
  unfold ModerationRepository.accepts at h ⊢
  rw [learn_definition]
  exact judge_extend _ _ h

theorem taught_learned : Learned unicode word (taught unicode request r word) := by
  unfold taught
  split_ifs
  · exact learn_learned word _
  · exact .refl word

variable {word request r}

theorem taught_accepts (haccepted : request.decision = .accepted)
    (hr : normalizeSubmittedAnswer unicode r.submittedAnswer ≠ "") :
    accepts unicode (taught unicode request r word) r.submittedAnswer = true := by
  unfold taught teaches
  by_cases h : accepts unicode word r.submittedAnswer = true
  · simp [h]
  · rw [if_pos (by simp [haccepted, h])]
    unfold ModerationRepository.accepts
    rw [learn_definition]
    exact judge_learned _ hr

theorem taught_of_rejected (hrejected : request.decision = .rejected) :
    taught unicode request r word = word := by
  simp [taught, teaches, hrejected]

end Judge

/-- No commit takes an accepted answer away from a word. -/
theorem Step.word_learned (h : Step unicode n m m') {w : WordId} {word : WordRow}
    (hw : m.word w = some word) : ∃ word', m'.word w = some word' ∧ Learned unicode word word' := by
  cases h with
  | reviewed | submitted | resubmitted | listed => exact ⟨word, hw, .refl word⟩
  | @decided _ s r word' actor request now hr hw' hopen =>
    by_cases heq : w = r.wordId
    · subst heq
      cases hw.symm.trans hw'
      exact ⟨_, update_self _ _ _, taught_learned word request r⟩
    · exact ⟨word, (update_of_ne heq _ _).trans hw, .refl word⟩

/-- A suggestion that has not reached a new version is what it was. -/
structure Newer (r r' : SuggestionRow) : Prop where
  version : r.version ≤ r'.version
  same : r'.version = r.version → r'.content = r.content ∧ r'.status = r.status

theorem Newer.refl (r : SuggestionRow) : Newer r r := ⟨Nat.le_refl _, fun _ => ⟨rfl, rfl⟩⟩

theorem Newer.trans {r r' r'' : SuggestionRow} (h : Newer r r') (h' : Newer r' r'') :
    Newer r r'' := by
  refine ⟨h.version.trans h'.version, fun heq => ?_⟩
  have hv := h.version
  have hv' := h'.version
  have h₁ := h.same (by omega)
  have h₂ := h'.same (by omega)
  exact ⟨h₂.1.trans h₁.1, h₂.2.trans h₁.2⟩

theorem settle_newer (actor : UserId) (request : DecisionRequest) (now : Nat) (r : SuggestionRow) :
    Newer r (r.settle actor request now) := by
  refine ⟨Nat.le_succ _, fun h => ?_⟩
  have : r.version + 1 = r.version := h
  omega

theorem resubmit_content {row r : SuggestionRow} (h : row.conflicts r = true) :
    (row.resubmit r).content = row.content := by
  simp only [SuggestionRow.conflicts, Bool.and_eq_true, decide_eq_true_eq] at h
  simp [SuggestionRow.content, SuggestionRow.resubmit, h.1.1.2]

/-- A resubmission repeats what the suggestion says. -/
def RepeatsContent (m : Moderation) : Note → Prop
  | .resubmitted s content => (m.suggestion s).map SuggestionRow.content = some content
  | _ => True

theorem Step.newer (h : Step unicode n m m') (hrepeats : RepeatsContent m n) {s : SuggestionId}
    {r : SuggestionRow} (hr : m.suggestion s = some r) :
    ∃ r', m'.suggestion s = some r' ∧ Newer r r' := by
  cases h with
  | reviewed | listed => exact ⟨r, hr, .refl r⟩
  | @submitted _ s' row hnone hrow hjudged =>
    have hne : s ≠ s' := by
      rintro rfl
      rw [hnone] at hr
      cases hr
    exact ⟨r, (update_of_ne hne _ _).trans hr, .refl r⟩
  | @resubmitted _ s' r' row hr' hconf hrow hjudged =>
    by_cases hs : s = s'
    · subst hs
      cases hr.symm.trans hr'
      refine ⟨_, update_self _ _ _, Nat.le_refl _, fun _ => ⟨?_, rfl⟩⟩
      simp only [RepeatsContent, hr, Option.map_some, Option.some.injEq] at hrepeats
      rw [resubmit_content hconf, hrepeats]
    · exact ⟨r, (update_of_ne hs _ _).trans hr, .refl r⟩
  | @decided _ s' r' word actor request now hr' hw hopen =>
    by_cases hs : s = s'
    · subst hs
      cases hr.symm.trans hr'
      exact ⟨_, update_self _ _ _, settle_newer actor request now r⟩
    · exact ⟨r, (update_of_ne hs _ _).trans hr, .refl r⟩

theorem Step.event_kept (h : Step unicode n m m') {e : EventId} {event : EventRow}
    (he : m.event e = some event) : m'.event e = some event := by
  cases h with
  | submitted | resubmitted | listed | decided => exact he
  | @reviewed _ e' event' hnone =>
    have hne : e ≠ e' := by
      rintro rfl
      rw [hnone] at he
      cases he
    exact (update_of_ne hne _ _).trans he

theorem Judged.kept {r : SuggestionRow} (h : Judged m r)
    (hkept : ∀ e event, m.event e = some event → m'.event e = some event) : Judged m' r := by
  intro e he
  obtain ⟨event, hevent, hcorrect⟩ := h e he
  exact ⟨event, hkept e event hevent, hcorrect⟩

/-- Every suggestion is on account of a review with a verdict. -/
def AllJudged (m : Moderation) : Prop := ∀ s r, m.suggestion s = some r → Judged m r

theorem Step.allJudged (h : Step unicode n m m') (hm : AllJudged m) : AllJudged m' := by
  have hevents : ∀ e event, m.event e = some event → m'.event e = some event :=
    fun e event he => h.event_kept he
  intro s r hr
  refine Judged.kept ?_ hevents
  cases h with
  | reviewed | listed => exact hm s r hr
  | @submitted _ s' row hnone hrow hjudged =>
    by_cases hs : s = s'
    · subst hs
      cases (update_self s (some row) m.suggestion).symm.trans hr
      exact hjudged
    · exact hm s r ((update_of_ne hs _ _).symm.trans hr)
  | @resubmitted _ s' r' row hr' hconf hrow hjudged =>
    by_cases hs : s = s'
    · subst hs
      cases (update_self s (some (row.resubmit r')) m.suggestion).symm.trans hr
      exact hjudged
    · exact hm s r ((update_of_ne hs _ _).symm.trans hr)
  | @decided _ s' r' word actor request now hr' hw hopen =>
    by_cases hs : s = s'
    · subst hs
      cases (update_self s (some (r'.settle actor request now)) m.suggestion).symm.trans hr
      exact hm s r' hr'
    · exact hm s r ((update_of_ne hs _ _).symm.trans hr)

/-- A suggestion stays, and so does the time from which it is. -/
theorem Step.createdAt (h : Step unicode n m m') {s : SuggestionId} {r : SuggestionRow}
    (hr : m.suggestion s = some r) :
    ∃ r', m'.suggestion s = some r' ∧ r'.createdAt = r.createdAt := by
  cases h with
  | reviewed | listed => exact ⟨r, hr, rfl⟩
  | @submitted _ s' row hnone hrow hjudged =>
    have hne : s ≠ s' := by
      rintro rfl
      rw [hnone] at hr
      cases hr
    exact ⟨r, (update_of_ne hne _ _).trans hr, rfl⟩
  | @resubmitted _ s' r' row hr' hconf hrow hjudged =>
    by_cases hs : s = s'
    · subst hs
      cases hr.symm.trans hr'
      exact ⟨_, update_self _ _ _, rfl⟩
    · exact ⟨r, (update_of_ne hs _ _).trans hr, rfl⟩
  | @decided _ s' r' word actor request now hr' hw hopen =>
    by_cases hs : s = s'
    · subst hs
      cases hr.symm.trans hr'
      exact ⟨_, update_self _ _ _, rfl⟩
    · exact ⟨r, (update_of_ne hs _ _).trans hr, rfl⟩

end ModerationMachine
