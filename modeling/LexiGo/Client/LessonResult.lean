import LexiGo.ClientValues
import LexiGo.DistinctKeys

/-! The result of a completed lesson, which the client keeps in the session storage and
checks again, field by field, after a reload. `parse` is `Date.parse`, in milliseconds, if
a text is a time at all. -/
namespace LessonResult
open ClientValues JsText

inductive AnswerMode
  | study | recall | choice | listening
  deriving DecidableEq

inductive ReviewRating
  | again | almost | known
  deriving DecidableEq

inductive LessonResultSessionKind
  | study | review | remediation
  deriving DecidableEq

def AnswerMode.text : AnswerMode → String
  | .study => "study"
  | .recall => "recall"
  | .choice => "choice"
  | .listening => "listening"

def LessonResultSessionKind.text : LessonResultSessionKind → String
  | .study => "study"
  | .review => "review"
  | .remediation => "remediation"

structure LessonResultJudgement where
  mode : AnswerMode
  correct : Option Bool

structure LessonResultObjectiveEvidence where
  attempted : Nat
  correct : Nat
  unavailable : Nat

structure LessonResultActivity where
  reviewed : Nat
  total : Nat

structure LessonResultEvidence where
  recalled : LessonResultObjectiveEvidence
  recognition : LessonResultObjectiveEvidence
  activity : LessonResultActivity

structure LessonResultConfidence where
  known : Nat
  almost : Nat
  again : Nat

structure LessonResultSnapshot where
  userId : String
  lessonId : String
  source : String
  studyMode : AnswerMode
  sessionKind : Option LessonResultSessionKind
  lessonSize : String
  topic : String
  completedAt : String
  itemIds : List JsNumber
  itemCount : Nat
  evidence : LessonResultEvidence
  confidence : LessonResultConfidence
  skipped : JsNumber
  dueNow : JsNumber
  nextDueAt : Option String
  dailyGoal : JsNumber
  reviewsBefore : Option JsNumber
  reviewsAfter : Option JsNumber
  objectiveReviewsToday : Option JsNumber
  objectiveSuccessfulToday : Option JsNumber
  currentStreak : Option JsNumber
  dailyGoalReached : Bool
  dailyGoalJustReached : Bool
  syncPending : Bool

/-- An optional field that is absent counts as null. -/
structure BuildLessonResultSnapshotInput where
  userId : String
  lessonId : String
  source : String
  studyMode : AnswerMode
  sessionKind : Option LessonResultSessionKind := none
  lessonSize : String
  topic : Option String := none
  completedAt : Option String := none
  itemIds : List JsNumber
  judgements : List (String × LessonResultJudgement)
  ratings : List (String × ReviewRating)
  skipped : JsNumber
  dueNow : JsNumber
  nextDueAt : Option String := none
  dailyGoal : JsNumber
  reviewsBefore : Option JsNumber
  reviewsAfter : Option JsNumber
  objectiveReviewsToday : Option JsNumber := none
  objectiveSuccessfulToday : Option JsNumber := none
  currentStreak : Option JsNumber := none
  syncPending : Bool := false

def lessonResultVersion : Int := 2

def lessonResultMaxAgeMs : Int := 24 * 60 * 60 * 1000

def normalizeNullableCounter (value : Option JsNumber) : Option JsNumber :=
  (value.filter isFinite).map atLeastZero

def objectiveEvidence (values : List LessonResultJudgement) (mode : AnswerMode) :
    LessonResultObjectiveEvidence :=
  let relevant := values.filter fun entry => entry.mode = mode
  let objective := relevant.filter fun entry => entry.correct.isSome
  { attempted := objective.length
    correct := (objective.filter fun entry => entry.correct = some true).length
    unavailable := relevant.length - objective.length }

def buildLessonResultEvidence (judgements : List (String × LessonResultJudgement)) (itemCount : Nat) :
    LessonResultEvidence :=
  let values := judgements.map (·.2)
  { recalled := objectiveEvidence values .recall
    recognition := objectiveEvidence values .choice
    activity := { reviewed := values.length, total := itemCount } }

def isPositiveInteger : JsNumber → Bool
  | .integer n => 0 < n
  | _ => false

section Build
variable (parse : String → Option Int)

def normalizeNextDueAt (value : Option String) : Option String :=
  (value.map trim).filter fun normalized => normalized ≠ "" && (parse normalized).isSome

/-- `clock` is the text of the present time. -/
def buildLessonResultSnapshot (clock : String) (input : BuildLessonResultSnapshotInput) :
    LessonResultSnapshot :=
  let ratingValues := input.ratings.map (·.2)
  let reviewsBefore := normalizeNullableCounter input.reviewsBefore
  let reviewsAfter := normalizeNullableCounter input.reviewsAfter
  let dailyGoal := atLeastZero input.dailyGoal
  let dailyGoalReached := reviewsAfter.any fun after =>
    lessThan (.integer 0) dailyGoal && (lessThan dailyGoal after || sameNumber dailyGoal after)
  { userId := input.userId
    lessonId := input.lessonId
    source := input.source
    studyMode := input.studyMode
    sessionKind := input.sessionKind
    lessonSize := input.lessonSize
    topic := (input.topic.map trim).getD ""
    completedAt := input.completedAt.getD clock
    itemIds := DistinctKeys.unseen id [] (input.itemIds.filter isPositiveInteger)
    itemCount := input.itemIds.length
    evidence := buildLessonResultEvidence input.judgements input.itemIds.length
    confidence :=
      { known := (ratingValues.filter (· = .known)).length
        almost := (ratingValues.filter (· = .almost)).length
        again := (ratingValues.filter (· = .again)).length }
    skipped := atLeastZero input.skipped
    dueNow := atLeastZero input.dueNow
    nextDueAt := normalizeNextDueAt parse input.nextDueAt
    dailyGoal := dailyGoal
    reviewsBefore := reviewsBefore
    reviewsAfter := reviewsAfter
    objectiveReviewsToday := normalizeNullableCounter input.objectiveReviewsToday
    objectiveSuccessfulToday := normalizeNullableCounter input.objectiveSuccessfulToday
    currentStreak := normalizeNullableCounter input.currentStreak
    dailyGoalReached := dailyGoalReached
    dailyGoalJustReached :=
      dailyGoalReached && reviewsBefore.any fun before => lessThan before dailyGoal
    syncPending := input.syncPending }

end Build

def count (n : Nat) : JsValue := .number (.integer n)

def nullable {α : Type} (f : α → JsValue) (value : Option α) : JsValue := (value.map f).getD .null

def LessonResultObjectiveEvidence.value (e : LessonResultObjectiveEvidence) : JsValue :=
  record [("attempted", some (count e.attempted)), ("correct", some (count e.correct)),
    ("unavailable", some (count e.unavailable))]

def LessonResultActivity.value (a : LessonResultActivity) : JsValue :=
  record [("reviewed", some (count a.reviewed)), ("total", some (count a.total))]

def LessonResultEvidence.value (e : LessonResultEvidence) : JsValue :=
  record [("recall", some e.recalled.value), ("recognition", some e.recognition.value),
    ("activity", some e.activity.value)]

def LessonResultConfidence.value (c : LessonResultConfidence) : JsValue :=
  record [("known", some (count c.known)), ("almost", some (count c.almost)),
    ("again", some (count c.again))]

def LessonResultSnapshot.value (s : LessonResultSnapshot) : JsValue :=
  record
    [("version", some (.number (.integer lessonResultVersion))), ("userId", some (.string s.userId)),
      ("lessonId", some (.string s.lessonId)), ("source", some (.string s.source)),
      ("studyMode", some (.string s.studyMode.text)),
      ("sessionKind", s.sessionKind.map fun kind => .string kind.text),
      ("lessonSize", some (.string s.lessonSize)), ("topic", some (.string s.topic)),
      ("completedAt", some (.string s.completedAt)),
      ("itemIds", some (.array (s.itemIds.map .number))), ("itemCount", some (count s.itemCount)),
      ("evidence", some s.evidence.value), ("confidence", some s.confidence.value),
      ("skipped", some (.number s.skipped)), ("dueNow", some (.number s.dueNow)),
      ("nextDueAt", some (nullable .string s.nextDueAt)), ("dailyGoal", some (.number s.dailyGoal)),
      ("reviewsBefore", some (nullable .number s.reviewsBefore)),
      ("reviewsAfter", some (nullable .number s.reviewsAfter)),
      ("objectiveReviewsToday", some (nullable .number s.objectiveReviewsToday)),
      ("objectiveSuccessfulToday", some (nullable .number s.objectiveSuccessfulToday)),
      ("currentStreak", some (nullable .number s.currentStreak)),
      ("dailyGoalReached", some (.boolean s.dailyGoalReached)),
      ("dailyGoalJustReached", some (.boolean s.dailyGoalJustReached)),
      ("syncPending", some (.boolean s.syncPending))]

/-- A text of the storage by what it is to a reader: nothing, no JSON, or a value. -/
inductive StoredText
  | empty
  | malformed
  | json (value : JsValue)

abbrev SessionItems := String → Option StoredText

def lessonResultStorageKey (userId : String) : String := "lexigo.lesson-result.v2." ++ userId

def writeLessonResultSnapshot (storage : SessionItems) (snapshot : LessonResultSnapshot) : SessionItems :=
  fun key => if key = lessonResultStorageKey snapshot.userId then some (.json (written snapshot.value))
    else storage key

def removeItem (key : String) (storage : SessionItems) : SessionItems :=
  fun key' => if key' = key then none else storage key'

def isNull : JsValue → Bool
  | .null => true
  | _ => false

def isBoolean : JsValue → Bool
  | .boolean _ => true
  | _ => false

def isText (value : JsValue) : Bool := (text value).isSome

def isFiniteNonNegative (value : JsValue) : Bool :=
  (number value).any fun x => isFinite x && nonNegative x

def isNullableFiniteNonNegative (value : JsValue) : Bool :=
  isNull value || isFiniteNonNegative value

def isAnswerMode (value : JsValue) : Bool :=
  (text value).any fun s => s = "study" || s = "recall" || s = "choice"

def isLessonResultSessionKind (value : JsValue) : Bool :=
  (text value).any fun s => s = "study" || s = "review" || s = "remediation"

/-- `>` between two values that are numbers. -/
def exceeds (value other : JsValue) : Bool :=
  (number value).any fun x => (number other).any fun y => lessThan y x

def isItemIds : JsValue → Bool
  | .array items => items.all fun item => (number item).any isPositiveInteger
  | _ => false

def isObjectiveEvidence (value : JsValue) : Bool :=
  isFiniteNonNegative (property "attempted" value) && isFiniteNonNegative (property "correct" value) &&
    isFiniteNonNegative (property "unavailable" value) &&
    !exceeds (property "correct" value) (property "attempted" value)

def isEvidence (evidence : JsValue) : Bool :=
  isRecord evidence && isRecord (property "recall" evidence) &&
    isRecord (property "recognition" evidence) && isRecord (property "activity" evidence) &&
    isObjectiveEvidence (property "recall" evidence) &&
    isObjectiveEvidence (property "recognition" evidence) &&
    isFiniteNonNegative (property "reviewed" (property "activity" evidence)) &&
    isFiniteNonNegative (property "total" (property "activity" evidence)) &&
    !exceeds (property "reviewed" (property "activity" evidence))
      (property "total" (property "activity" evidence))

def isConfidence (confidence : JsValue) : Bool :=
  isRecord confidence && isFiniteNonNegative (property "known" confidence) &&
    isFiniteNonNegative (property "almost" confidence) &&
    isFiniteNonNegative (property "again" confidence)

section Read
variable (parse : String → Option Int)

def isNullableTimestamp (value : JsValue) : Bool :=
  isNull value || (text value).any fun s => trim s ≠ "" && (parse s).isSome

def isSnapshot (userId : String) (parsed : JsValue) : Bool :=
  isRecord parsed &&
  (number (property "version" parsed)).any (fun x => sameNumber x (.integer lessonResultVersion)) &&
  (text (property "userId" parsed)).any (· = userId) &&
  isText (property "lessonId" parsed) && isText (property "source" parsed) &&
  isAnswerMode (property "studyMode" parsed) &&
  (isUndefined (property "sessionKind" parsed) ||
    isLessonResultSessionKind (property "sessionKind" parsed)) &&
  isText (property "lessonSize" parsed) && isText (property "topic" parsed) &&
  isText (property "completedAt" parsed) && isItemIds (property "itemIds" parsed) &&
  isFiniteNonNegative (property "itemCount" parsed) && isEvidence (property "evidence" parsed) &&
  isConfidence (property "confidence" parsed) &&
  isFiniteNonNegative (property "skipped" parsed) && isFiniteNonNegative (property "dueNow" parsed) &&
  isNullableTimestamp parse (property "nextDueAt" parsed) &&
  isFiniteNonNegative (property "dailyGoal" parsed) &&
  isNullableFiniteNonNegative (property "reviewsBefore" parsed) &&
  isNullableFiniteNonNegative (property "reviewsAfter" parsed) &&
  isNullableFiniteNonNegative (property "objectiveReviewsToday" parsed) &&
  isNullableFiniteNonNegative (property "objectiveSuccessfulToday" parsed) &&
  isNullableFiniteNonNegative (property "currentStreak" parsed) &&
  !exceeds (property "objectiveSuccessfulToday" parsed) (property "objectiveReviewsToday" parsed) &&
  isBoolean (property "dailyGoalReached" parsed) && isBoolean (property "dailyGoalJustReached" parsed) &&
  isBoolean (property "syncPending" parsed)

/-- Whether the lesson was completed within the last day, or within the next minute. -/
def isRecent (now : Int) (parsed : JsValue) : Bool :=
  ((text (property "completedAt" parsed)).bind parse).any fun completedAt =>
    now - completedAt ≤ lessonResultMaxAgeMs && completedAt - now ≤ 60000

def readLessonResultSnapshot (storage : SessionItems) (userId : String) (now : Int) :
    Option JsValue × SessionItems :=
  match storage (lessonResultStorageKey userId) with
  | none => (none, storage)
  | some .empty => (none, storage)
  | some .malformed => (none, removeItem (lessonResultStorageKey userId) storage)
  | some (.json parsed) =>
    if isSnapshot parse userId parsed && isRecent parse now parsed then (some parsed, storage)
    else (none, removeItem (lessonResultStorageKey userId) storage)

end Read

/-- A finite counter that is not below zero, and is written as it is. -/
structure Counter (x : JsNumber) : Prop where
  finite : isFinite x = true
  nonneg : nonNegative x = true
  plain : x ≠ .negativeZero

theorem counter_atLeastZero {x : JsNumber} (h : isFinite x = true) : Counter (atLeastZero x) :=
  have ⟨hfinite, hnonneg, hplain⟩ := atLeastZero_finite h
  ⟨hfinite, hnonneg, hplain⟩

theorem counter_normalized {value : Option JsNumber} {x : JsNumber}
    (h : x ∈ normalizeNullableCounter value) : Counter x := by
  obtain ⟨y, hy, rfl⟩ := Option.map_eq_some_iff.1 h
  exact counter_atLeastZero (Option.filter_eq_some_iff.1 hy).2

theorem counter_positive {x : JsNumber} (h : isPositiveInteger x = true) : Counter x := by
  cases x with
  | integer n =>
    have hn : 0 < n := of_decide_eq_true h
    exact ⟨rfl, decide_eq_true (le_of_lt hn), nofun⟩
  | _ => exact absurd h Bool.false_ne_true

theorem kept_counter {x : JsNumber} (h : Counter x) : Kept (.number x) :=
  kept_number h.finite h.plain

theorem kept_count (n : Nat) : Kept (count n) := kept_number rfl nofun

theorem kept_nullable {α : Type} {f : α → JsValue} {value : Option α}
    (h : ∀ a ∈ value, Kept (f a)) : Kept (nullable f value) := by
  cases value with
  | none => exact kept_null
  | some a => exact h a rfl

/-- What every snapshot is like that describes a completed lesson. -/
structure Described (parse : String → Option Int) (s : LessonResultSnapshot) : Prop where
  items : ∀ x ∈ s.itemIds, isPositiveInteger x = true
  counters : ∀ x ∈ [s.skipped, s.dueNow, s.dailyGoal], Counter x
  nullables : ∀ value ∈ [s.reviewsBefore, s.reviewsAfter, s.objectiveReviewsToday,
    s.objectiveSuccessfulToday, s.currentStreak], ∀ x ∈ value, Counter x
  recalled : s.evidence.recalled.correct ≤ s.evidence.recalled.attempted
  recognition : s.evidence.recognition.correct ≤ s.evidence.recognition.attempted
  activity : s.evidence.activity.reviewed ≤ s.evidence.activity.total
  due : ∀ t ∈ s.nextDueAt, trim t ≠ "" ∧ (parse t).isSome = true
  successes : ∀ reviews ∈ s.objectiveReviewsToday, ∀ successful ∈ s.objectiveSuccessfulToday,
    lessThan reviews successful = false

theorem objectiveEvidence_le (values : List LessonResultJudgement) (mode : AnswerMode) :
    (objectiveEvidence values mode).correct ≤ (objectiveEvidence values mode).attempted :=
  List.length_filter_le _ _

theorem nextDueAt_timestamp {parse : String → Option Int} {value : Option String} {t : String}
    (h : t ∈ normalizeNextDueAt parse value) : trim t ≠ "" ∧ (parse t).isSome = true := by
  obtain ⟨htrim, hparse⟩ := Option.filter_eq_some_iff.1 h
  obtain ⟨s, -, rfl⟩ := Option.map_eq_some_iff.1 htrim
  rw [Bool.and_eq_true, decide_eq_true_eq] at hparse
  rw [trim_trim]
  exact hparse

theorem kept_objective (e : LessonResultObjectiveEvidence) : Kept e.value := by
  refine kept_record ?_
  simp [kept_count]

theorem kept_evidence (e : LessonResultEvidence) : Kept e.value := by
  have hactivity : Kept e.activity.value := by
    refine kept_record ?_
    simp [kept_count]
  refine kept_record ?_
  simp [kept_objective, hactivity]

theorem kept_confidence (c : LessonResultConfidence) : Kept c.value := by
  refine kept_record ?_
  simp [kept_count]

/-- What the client writes of a snapshot is the snapshot. -/
theorem kept_snapshot {parse : String → Option Int} {s : LessonResultSnapshot}
    (h : Described parse s) : Kept s.value := by
  have hcounters : ∀ x ∈ [s.skipped, s.dueNow, s.dailyGoal], Kept (.number x) :=
    fun x hx => kept_counter (h.counters x hx)
  have hnullables : ∀ value ∈ [s.reviewsBefore, s.reviewsAfter, s.objectiveReviewsToday,
      s.objectiveSuccessfulToday, s.currentStreak], Kept (nullable .number value) :=
    fun value hvalue => kept_nullable fun x hx => kept_counter (h.nullables value hvalue x hx)
  have hitems : Kept (.array (s.itemIds.map .number)) := by
    refine kept_array fun value hvalue => ?_
    obtain ⟨x, hx, rfl⟩ := List.mem_map.1 hvalue
    exact kept_counter (counter_positive (h.items x hx))
  have hdue : Kept (nullable .string s.nextDueAt) := kept_nullable fun t _ => kept_string t
  have hversion : Kept (.number (.integer lessonResultVersion)) := kept_number rfl nofun
  have hkind : ∀ value ∈ s.sessionKind.map fun kind => JsValue.string kind.text, Kept value := by
    intro value hvalue
    obtain ⟨kind, -, rfl⟩ := Option.map_eq_some_iff.1 hvalue
    exact kept_string _
  simp only [List.forall_mem_cons] at hcounters hnullables
  refine kept_record ?_
  simp only [List.forall_mem_cons, Option.mem_some_iff, forall_eq', kept_string, kept_boolean,
    kept_count, kept_evidence, kept_confidence, hcounters, hnullables, hitems, hdue, hversion,
    true_and]
  exact ⟨hkind, fun _ h => (nomatch h)⟩

theorem isFiniteNonNegative_counter {x : JsNumber} (h : Counter x) :
    isFiniteNonNegative (.number x) = true := by
  rw [isFiniteNonNegative, number, Option.any_some, h.finite, h.nonneg, Bool.and_self]

theorem isFiniteNonNegative_count (n : Nat) : isFiniteNonNegative (count n) = true :=
  isFiniteNonNegative_counter ⟨rfl, decide_eq_true (Int.natCast_nonneg n), nofun⟩

theorem isNullableFiniteNonNegative_nullable {value : Option JsNumber} (h : ∀ x ∈ value, Counter x) :
    isNullableFiniteNonNegative (nullable .number value) = true := by
  cases value with
  | none => rfl
  | some x => exact isFiniteNonNegative_counter (h x rfl)

theorem exceeds_count {m n : Nat} (h : m ≤ n) : exceeds (count m) (count n) = false := by
  have hless : lessThan (.integer n) (.integer m) = false := by
    rw [lessThan_finite rfl rfl, decide_eq_false_iff_not, not_lt]
    exact Int.cast_le.2 (Int.ofNat_le.2 h)
  exact hless

theorem isObjectiveEvidence_value {e : LessonResultObjectiveEvidence} (h : e.correct ≤ e.attempted) :
    isObjectiveEvidence e.value = true := by
  simp [isObjectiveEvidence, LessonResultObjectiveEvidence.value, property_record_ne,
    isFiniteNonNegative_count, exceeds_count h]

theorem isEvidence_value {parse : String → Option Int} {s : LessonResultSnapshot}
    (h : Described parse s) : isEvidence s.evidence.value = true := by
  have hrecord : ∀ e : LessonResultObjectiveEvidence, isRecord e.value = true := fun _ => rfl
  simp [isEvidence, hrecord, LessonResultEvidence.value, LessonResultActivity.value, property_record_ne,
    isObjectiveEvidence_value h.recalled, isObjectiveEvidence_value h.recognition,
    isFiniteNonNegative_count, exceeds_count h.activity]

theorem isConfidence_value (c : LessonResultConfidence) : isConfidence c.value = true := by
  simp [isConfidence, LessonResultConfidence.value, property_record_ne, isFiniteNonNegative_count]

theorem isNullableTimestamp_nullable {parse : String → Option Int} {due : Option String}
    (h : ∀ t ∈ due, trim t ≠ "" ∧ (parse t).isSome = true) :
    isNullableTimestamp parse (nullable .string due) = true := by
  cases due with
  | none => rfl
  | some t =>
    have ht := h t rfl
    simp [isNullableTimestamp, nullable, text, ht.1, ht.2]

theorem isItemIds_numbers {items : List JsNumber} (h : ∀ x ∈ items, isPositiveInteger x = true) :
    isItemIds (.array (items.map .number)) = true := by
  simpa [isItemIds, number] using h

theorem exceeds_nullable {value other : Option JsNumber}
    (h : ∀ y ∈ other, ∀ x ∈ value, lessThan y x = false) :
    exceeds (nullable .number value) (nullable .number other) = false := by
  cases value with
  | none => rfl
  | some x =>
    cases other with
    | none => rfl
    | some y => exact h y rfl x rfl

theorem isAnswerMode_text (mode : AnswerMode) :
    isAnswerMode (.string mode.text) = decide (mode ≠ .listening) := by
  cases mode <;> decide

theorem isLessonResultSessionKind_text (kind : LessonResultSessionKind) :
    isLessonResultSessionKind (.string kind.text) = true := by
  cases kind <;> decide

theorem isSnapshot_value {parse : String → Option Int} {s : LessonResultSnapshot}
    (h : Described parse s) :
    isSnapshot parse s.userId s.value = decide (s.studyMode ≠ .listening) := by
  have hcounters : ∀ x ∈ [s.skipped, s.dueNow, s.dailyGoal], isFiniteNonNegative (.number x) = true :=
    fun x hx => isFiniteNonNegative_counter (h.counters x hx)
  have hnullables : ∀ value ∈ [s.reviewsBefore, s.reviewsAfter, s.objectiveReviewsToday,
      s.objectiveSuccessfulToday, s.currentStreak],
      isNullableFiniteNonNegative (nullable .number value) = true :=
    fun value hvalue => isNullableFiniteNonNegative_nullable (h.nullables value hvalue)
  simp only [List.forall_mem_cons] at hcounters hnullables
  have hkind : (isUndefined ((s.sessionKind.map fun kind => JsValue.string kind.text).getD .undefined) ||
      isLessonResultSessionKind
        ((s.sessionKind.map fun kind => JsValue.string kind.text).getD .undefined)) = true := by
    cases s.sessionKind with
    | none => rfl
    | some kind => exact isLessonResultSessionKind_text kind
  have hversion : (number (.number (.integer lessonResultVersion))).any
      (fun x => sameNumber x (.integer lessonResultVersion)) = true := rfl
  simp [isSnapshot, LessonResultSnapshot.value, property_record_ne, hcounters, hnullables, isText, text,
    isBoolean, isFiniteNonNegative_count, isEvidence_value h, isConfidence_value,
    isNullableTimestamp_nullable h.due, isItemIds_numbers h.items, exceeds_nullable h.successes,
    isAnswerMode_text, hversion, hkind]

/-- An input that describes a lesson which was completed at `time`. -/
structure Completed (parse : String → Option Int) (clock : String)
    (input : BuildLessonResultSnapshotInput) (time : Int) : Prop where
  judged : input.judgements.length ≤ input.itemIds.length
  counters : ∀ x ∈ [input.skipped, input.dueNow, input.dailyGoal], isFinite x = true
  successes : ∀ reviews ∈ input.objectiveReviewsToday,
    ∀ successful ∈ input.objectiveSuccessfulToday, lessThan reviews successful = false
  completedAt : parse (input.completedAt.getD clock) = some time

variable {parse : String → Option Int} {clock : String} {input : BuildLessonResultSnapshotInput}

theorem described_build {time : Int} (h : Completed parse clock input time) :
    Described parse (buildLessonResultSnapshot parse clock input) where
  items := by
    intro x hx
    have hmem := (DistinctKeys.unseen_sublist (input.itemIds.filter isPositiveInteger) []).subset hx
    exact (List.mem_filter.1 hmem).2
  counters := by
    have hcounters : ∀ x ∈ [input.skipped, input.dueNow, input.dailyGoal], Counter (atLeastZero x) :=
      fun x hx => counter_atLeastZero (h.counters x hx)
    simpa [buildLessonResultSnapshot] using hcounters
  nullables := by
    have hnormalized : ∀ value : Option JsNumber, ∀ x ∈ normalizeNullableCounter value, Counter x :=
      fun _ _ => counter_normalized
    simp only [List.forall_mem_cons]
    exact ⟨hnormalized _, hnormalized _, hnormalized _, hnormalized _, hnormalized _,
      List.forall_mem_nil _⟩
  recalled := objectiveEvidence_le _ _
  recognition := objectiveEvidence_le _ _
  activity := (List.length_map _).trans_le h.judged
  due := fun _ => nextDueAt_timestamp
  successes := by
    intro reviews hreviews successful hsuccessful
    obtain ⟨x, hx, rfl⟩ := Option.map_eq_some_iff.1 hreviews
    obtain ⟨y, hy, rfl⟩ := Option.map_eq_some_iff.1 hsuccessful
    obtain ⟨hx, hxfinite⟩ := Option.filter_eq_some_iff.1 hx
    obtain ⟨hy, hyfinite⟩ := Option.filter_eq_some_iff.1 hy
    exact atLeastZero_mono hxfinite hyfinite (h.successes x hx y hy)

theorem isRecent_value {s : LessonResultSnapshot} {time now : Int}
    (h : parse s.completedAt = some time) (hpast : time ≤ now)
    (hday : now ≤ time + lessonResultMaxAgeMs) : isRecent parse now s.value = true := by
  have htext : text (property "completedAt" s.value) = some s.completedAt := by
    simp [LessonResultSnapshot.value, property_record_ne, text]
  rw [isRecent, htext, Option.bind_some, h, Option.any_some, Bool.and_eq_true, decide_eq_true_eq,
    decide_eq_true_eq]
  omega

/-- A snapshot is read again as it was written, and kept, except after a listening lesson. -/
theorem snapshot_survives {time now : Int} (h : Completed parse clock input time) (hpast : time ≤ now)
    (hday : now ≤ time + lessonResultMaxAgeMs) (storage : SessionItems) :
    readLessonResultSnapshot parse
        (writeLessonResultSnapshot storage (buildLessonResultSnapshot parse clock input))
        input.userId now =
      (some (buildLessonResultSnapshot parse clock input).value,
        writeLessonResultSnapshot storage (buildLessonResultSnapshot parse clock input)) ↔
      input.studyMode ≠ .listening := by
  have hdescribed := described_build h
  have hstored : writeLessonResultSnapshot storage (buildLessonResultSnapshot parse clock input)
      (lessonResultStorageKey input.userId) =
        some (.json (buildLessonResultSnapshot parse clock input).value) := by
    have huser : (buildLessonResultSnapshot parse clock input).userId = input.userId := rfl
    rw [writeLessonResultSnapshot, huser, if_pos rfl, (kept_snapshot hdescribed).same]
  have hvalid : isSnapshot parse input.userId (buildLessonResultSnapshot parse clock input).value =
      decide (input.studyMode ≠ .listening) := isSnapshot_value hdescribed
  have hrecent : isRecent parse now (buildLessonResultSnapshot parse clock input).value = true :=
    isRecent_value h.completedAt hpast hday
  rw [readLessonResultSnapshot, hstored]
  dsimp only
  rw [hvalid, hrecent, Bool.and_true]
  split
  · next hmode => exact iff_of_true rfl (of_decide_eq_true hmode)
  · next hmode =>
    exact iff_of_false (fun heq => absurd (congrArg Prod.fst heq) nofun) fun h => hmode (decide_eq_true h)

/-- A lesson of one word, whose answer reaches the goal of the day. -/
def oneWordLesson (mode : AnswerMode) : BuildLessonResultSnapshotInput where
  userId := "u1"
  lessonId := "l1"
  source := "due"
  studyMode := mode
  lessonSize := "short"
  completedAt := some "2026-07-01T10:00:00.000Z"
  itemIds := [.integer 7]
  judgements := [("7", ⟨mode, some true⟩)]
  ratings := [("7", .known)]
  skipped := .integer 0
  dueNow := .integer 3
  dailyGoal := .integer 10
  reviewsBefore := some (.integer 9)
  reviewsAfter := some (.integer 10)

def oneWordTime (s : String) : Option Int :=
  if s = "2026-07-01T10:00:00.000Z" then some 1782900000000 else none

theorem oneWordLesson_completed (mode : AnswerMode) :
    Completed oneWordTime "" (oneWordLesson mode) 1782900000000 where
  judged := le_rfl
  counters := by
    simp only [List.forall_mem_cons]
    exact ⟨rfl, rfl, rfl, fun _ h => (nomatch h)⟩
  successes := fun _ h => (nomatch h)
  completedAt := if_pos rfl

theorem recallSnapshot_survives :
    (readLessonResultSnapshot oneWordTime
      (writeLessonResultSnapshot (fun _ => none)
        (buildLessonResultSnapshot oneWordTime "" (oneWordLesson .recall))) "u1" 1782900060000 =
      (some (buildLessonResultSnapshot oneWordTime "" (oneWordLesson .recall)).value,
        writeLessonResultSnapshot (fun _ => none)
          (buildLessonResultSnapshot oneWordTime "" (oneWordLesson .recall))) ↔
      AnswerMode.recall ≠ .listening) :=
  snapshot_survives (oneWordLesson_completed .recall) (by decide) (by decide) _

/-- The result of a listening lesson is removed by the reload that should show it. -/
theorem listeningSnapshot_removed :
    Completed oneWordTime "" (oneWordLesson .listening) 1782900000000 ∧
      (readLessonResultSnapshot oneWordTime
        (writeLessonResultSnapshot (fun _ => none)
          (buildLessonResultSnapshot oneWordTime "" (oneWordLesson .listening)))
        "u1" 1782900060000).1.isNone = true ∧
      ((readLessonResultSnapshot oneWordTime
        (writeLessonResultSnapshot (fun _ => none)
          (buildLessonResultSnapshot oneWordTime "" (oneWordLesson .listening)))
        "u1" 1782900060000).2 (lessonResultStorageKey "u1")).isNone = true :=
  ⟨oneWordLesson_completed .listening, by decide +kernel, by decide +kernel⟩

end LessonResult
