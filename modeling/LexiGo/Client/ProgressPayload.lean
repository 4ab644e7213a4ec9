import LexiGo.ClientValues
import LexiGo.Learning.ProgressConservation
import LexiGo.Moderation.CursorText

/-! The summary as the server writes it, and what the client checks of it before it shows
any of its numbers. -/
namespace ProgressPayload
open ClientValues JsText Scheduler ProgressTables ProgressStreaks LearningProgress ProgressConservation
open LearningSchema (UserId)
open CursorText (Zone)

section Writing

def count (n : Nat) : JsValue := .number (.integer n)

/-- An optional time, which cannot be written outside the years of four digits. -/
def time (zone : Zone) : Option Instant → Option (Option JsValue)
  | none => some none
  | some t => (Timestamp.format (zone.ahead t) t).map fun text => some (.string (String.ofList text))

def modeJson (mode : ModeProgress) : JsValue :=
  record [("attemptsToday", some (count mode.attemptsToday)),
    ("successfulToday", some (count mode.successfulToday)),
    ("attemptsTotal", some (count mode.attemptsTotal)),
    ("successfulTotal", some (count mode.successfulTotal))]

def modesJson (modes : ProgressModes) : JsValue :=
  record [("study", some (modeJson modes.study)), ("recall", some (modeJson modes.recalled)),
    ("choice", some (modeJson modes.choice)), ("listening", some (modeJson modes.listening)),
    ("legacy", some (modeJson modes.legacy))]

def dayJson (day : DailyRecallEvidence) : JsValue :=
  record [("date", some (.string day.date)), ("attempts", some (count day.attempts)),
    ("successful", some (count day.successful)), ("rate", some (count day.rate))]

/-- The evidence about a name, which stands under `key`. -/
def evidenceJson {κ : Type} (key : String) (text : κ → String) (evidence : Evidence κ) : JsValue :=
  record [(key, some (.string (text evidence.name))), ("attempts", some (count evidence.attempts)),
    ("successful", some (count evidence.successful)), ("errors", some (count evidence.errors)),
    ("rate", some (count evidence.rate))]

def topicJson : TopicEvidence → JsValue := evidenceJson "topic" id

def partOfSpeechJson : PartOfSpeechEvidence → JsValue :=
  evidenceJson "partOfSpeech" PartOfSpeech.text

def weeklyJson (w : WeeklyProgressEvidence) : JsValue :=
  record [("weekStart", some (.string w.weekStart)), ("weekEnd", some (.string w.weekEnd)),
    ("recallAttempts", some (count w.recallAttempts)),
    ("recallSuccessful", some (count w.recallSuccessful)), ("recallRate", some (count w.recallRate)),
    ("previousRecallAttempts", some (count w.previousRecallAttempts)),
    ("previousRecallSuccessful", some (count w.previousRecallSuccessful)),
    ("previousRecallRate", some (count w.previousRecallRate)),
    ("choiceAttempts", some (count w.choiceAttempts)),
    ("choiceSuccessful", some (count w.choiceSuccessful)), ("choiceRate", some (count w.choiceRate)),
    ("reviews", some (count w.reviews)), ("lessons", some (count w.lessons)),
    ("activeMinutes", some (count w.activeMinutes)), ("trend", some (.array (w.trend.map dayJson))),
    ("weakTopics", some (.array (w.weakTopics.map topicJson))),
    ("weakPartsOfSpeech", some (w.weakPartsOfSpeech.elim .null fun parts =>
      .array (parts.map partOfSpeechJson))),
    ("strongTopic", w.strongTopic.map topicJson)]

def retentionJson (r : ProcessRetentionEvidence) : JsValue :=
  record [("attempts", some (count r.attempts)), ("successful", some (count r.successful)),
    ("rate", some (count r.rate))]

def processesJson (p : LearningProcessEvidence) : JsValue :=
  record [("weekStart", some (.string p.weekStart)), ("weekEnd", some (.string p.weekEnd)),
    ("newLearned", some (count p.newLearned)), ("dueReviewed", some (count p.dueReviewed)),
    ("remediationReviewed", some (count p.remediationReviewed)),
    ("reviewBacklog", some (count p.reviewBacklog)), ("lapses", some (count p.lapses)),
    ("retention", some (retentionJson p.retention))]

def scenarioTypeText : ScenarioType → String
  | .incident => "incident"
  | .troubleshooting => "troubleshooting"
  | .architectureReview => "architecture-review"
  | .dataPipeline => "data-pipeline"
  | .release => "release"
  | .statusUpdate => "status-update"

def reasonText : RecommendationReason → String
  | .resumeInProgress => "resume_in_progress"
  | .firstUncompleted => "first_uncompleted"
  | .leastRecentlyCompleted => "least_recently_completed"

def actionText : RecommendationAction → String
  | .start => "start"
  | .resume => "resume"

def recommendationJson (r : ScenarioRecommendation) (lastCompletedAt : Option JsValue) : JsValue :=
  record [("slug", some (.string r.slug)), ("type", some (.string (scenarioTypeText r.type))),
    ("title", some (.string r.title)),
    ("estimatedMinutes", some (.number (.integer r.estimatedMinutes))),
    ("reason", some (.string (reasonText r.reason))), ("action", some (.string (actionText r.action))),
    ("completedCount", some (count r.completedCount)), ("lastCompletedAt", lastCompletedAt)]

def scenariosJson (s : ScenarioProgressEvidence) (recommendation : Option JsValue) : JsValue :=
  record [("completedThisWeek", some (count s.completedThisWeek)),
    ("completedTotal", some (count s.completedTotal)), ("recommendation", recommendation)]

def summaryJson (s : ProgressSummary) (scenarios : JsValue) (nextDueAt : Option JsValue) : JsValue :=
  record [("dueNow", some (count s.dueNow)), ("dueWords", some (count s.dueWords)),
    ("duePhrases", some (count s.duePhrases)), ("totalWords", some (count s.totalWords)),
    ("totalPhrases", some (count s.totalPhrases)), ("newWords", some (count s.newWords)),
    ("learningWords", some (count s.learningWords)), ("reviewWords", some (count s.reviewWords)),
    ("masteredWords", some (count s.masteredWords)),
    ("masteredPhrases", some (count s.masteredPhrases)),
    ("reviewsToday", some (count s.reviewsToday)),
    ("successfulToday", some (count s.successfulToday)),
    ("objectiveReviewsToday", some (count s.objectiveReviewsToday)),
    ("objectiveSuccessfulToday", some (count s.objectiveSuccessfulToday)),
    ("reviewsTotal", some (count s.reviewsTotal)),
    ("dailyGoal", some (.number (.integer s.dailyGoal))),
    ("currentStreak", some (count s.currentStreak)), ("longestStreak", some (count s.longestStreak)),
    ("retainedItemsWeek", some (count s.retainedItemsWeek)),
    ("retainedWordsWeek", some (count s.retainedWordsWeek)),
    ("retainedPhrasesWeek", some (count s.retainedPhrasesWeek)),
    ("eventSchemaVersion", some (count s.eventSchemaVersion)), ("modes", some (modesJson s.modes)),
    ("weekly", some (weeklyJson s.weekly)), ("processes", some (processesJson s.processes)),
    ("scenarios", some scenarios), ("nextDueAt", nextDueAt)]

/-- `json.Marshal` gives up at a time that it cannot write. -/
def progressJson (zone : Zone) (s : ProgressSummary) : Option JsValue :=
  (time zone s.nextDueAt).bind fun nextDueAt =>
  (time zone (s.scenarios.recommendation.bind (·.lastCompletedAt))).map fun lastCompletedAt =>
    summaryJson s (scenariosJson s.scenarios (s.scenarios.recommendation.map fun r =>
      recommendationJson r lastCompletedAt)) nextDueAt

end Writing

section Reading

def isNonNegativeNumber (value : JsValue) : Bool :=
  (number value).any fun x => isFinite x && nonNegative x

def isIntegral : JsNumber → Bool
  | .integer _ | .negativeZero => true
  | _ => false

def isInteger (value : JsValue) : Bool := (number value).any isIntegral

def isPositive (value : JsValue) : Bool :=
  (number value).any fun x => isFinite x && lessThan (.integer 0) x

/-- `<=`, of two numbers that are finite. -/
def atMost (value bound : JsValue) : Bool :=
  (number value).any fun x => (number bound).any fun y => !lessThan y x

def isNonNegativeInteger (value : JsValue) : Bool := isInteger value && isNonNegativeNumber value

def isPositiveInteger (value : JsValue) : Bool := isInteger value && isPositive value

def isText (value : JsValue) : Bool := (text value).isSome

def isNonEmptyString (value : JsValue) : Bool := (text value).any fun s => trim s ≠ ""

def isOneOf (names : List String) (value : JsValue) : Bool := (text value).any (· ∈ names)

def isTimestamp (value : JsValue) : Bool := (text value).any fun s => DateText.parses s.toList

def isDateOnly (value : JsValue) : Bool := (text value).any fun s => DateText.isDate s.toList

def items : JsValue → Option (List JsValue)
  | .array values => some values
  | _ => none

/-- A property that is missing or passes a check. -/
def optional (check : JsValue → Bool) (value : JsValue) : Bool := isUndefined value || check value

def atMostThree (check : JsValue → Bool) (value : JsValue) : Bool :=
  (items value).any fun values => values.length ≤ 3 && values.all check

def requiredProgressFields : List String :=
  ["dueNow", "dueWords", "duePhrases", "totalWords", "totalPhrases", "newWords", "learningWords",
    "reviewWords", "masteredWords", "masteredPhrases", "reviewsToday", "successfulToday",
    "reviewsTotal", "dailyGoal", "currentStreak", "longestStreak", "retainedItemsWeek",
    "retainedWordsWeek", "retainedPhrasesWeek"]

def modeProgressFields : List String :=
  ["attemptsToday", "successfulToday", "attemptsTotal", "successfulTotal"]

def scenarioTypes : List String :=
  ["incident", "troubleshooting", "architecture-review", "data-pipeline", "release", "status-update"]

def scenarioRecommendationReasons : List String :=
  ["resume_in_progress", "first_uncompleted", "least_recently_completed"]

def scenarioRecommendationActions : List String := ["start", "resume"]

def isModeProgress (value : JsValue) : Bool :=
  isRecord value && modeProgressFields.all fun field => isNonNegativeNumber (property field value)

def isProgressModes (value : JsValue) : Bool :=
  isRecord value && isModeProgress (property "study" value) &&
    isModeProgress (property "recall" value) && isModeProgress (property "choice" value) &&
    isModeProgress (property "legacy" value)

def isPercentage (value : JsValue) : Bool :=
  isInteger value && isNonNegativeNumber value && atMost value (count 100)

def isDailyRecallEvidence (value : JsValue) : Bool :=
  isRecord value && isDateOnly (property "date" value) &&
    isNonNegativeNumber (property "attempts" value) &&
    isNonNegativeNumber (property "successful" value) && isPercentage (property "rate" value)

/-- What is checked of the evidence on a topic and on a part of speech alike. -/
def isEvidence (value : JsValue) : Bool :=
  isNonNegativeNumber (property "attempts" value) &&
    isNonNegativeNumber (property "successful" value) &&
    isNonNegativeNumber (property "errors" value) && isPercentage (property "rate" value)

def isTopicEvidence (value : JsValue) : Bool :=
  isRecord value && isText (property "topic" value) && isEvidence value

def isPartOfSpeechEvidence (value : JsValue) : Bool :=
  isRecord value && isNonEmptyString (property "partOfSpeech" value) && isEvidence value

def isWeeklyProgressEvidence (value : JsValue) : Bool :=
  isRecord value &&
    optional (atMostThree isPartOfSpeechEvidence) (property "weakPartsOfSpeech" value) &&
    isDateOnly (property "weekStart" value) && isDateOnly (property "weekEnd" value) &&
    isNonNegativeNumber (property "recallAttempts" value) &&
    isNonNegativeNumber (property "recallSuccessful" value) &&
    isPercentage (property "recallRate" value) &&
    isNonNegativeNumber (property "previousRecallAttempts" value) &&
    isNonNegativeNumber (property "previousRecallSuccessful" value) &&
    isPercentage (property "previousRecallRate" value) &&
    isNonNegativeNumber (property "choiceAttempts" value) &&
    isNonNegativeNumber (property "choiceSuccessful" value) &&
    isPercentage (property "choiceRate" value) && isNonNegativeNumber (property "reviews" value) &&
    isNonNegativeNumber (property "lessons" value) &&
    isNonNegativeNumber (property "activeMinutes" value) &&
    ((items (property "trend" value)).any fun days =>
      days.length = 7 && days.all isDailyRecallEvidence) &&
    atMostThree isTopicEvidence (property "weakTopics" value) &&
    optional isTopicEvidence (property "strongTopic" value)

def isProcessRetentionEvidence (value : JsValue) : Bool :=
  isRecord value && isNonNegativeNumber (property "attempts" value) &&
    isNonNegativeNumber (property "successful" value) &&
    atMost (property "successful" value) (property "attempts" value) &&
    isPercentage (property "rate" value)

def isLearningProcessEvidence (value : JsValue) : Bool :=
  isRecord value && isDateOnly (property "weekStart" value) &&
    isDateOnly (property "weekEnd" value) && isNonNegativeNumber (property "newLearned" value) &&
    isNonNegativeNumber (property "dueReviewed" value) &&
    isNonNegativeNumber (property "remediationReviewed" value) &&
    isNonNegativeNumber (property "reviewBacklog" value) &&
    isNonNegativeNumber (property "lapses" value) &&
    isProcessRetentionEvidence (property "retention" value)

/-- What the reason for a recommendation demands of its other fields. -/
def fitsReason (value : JsValue) : Bool :=
  if isOneOf ["resume_in_progress"] (property "reason" value) then
    isOneOf ["resume"] (property "action" value)
  else if !isOneOf ["start"] (property "action" value) then false
  else if isOneOf ["first_uncompleted"] (property "reason" value) then
    (number (property "completedCount" value)).any (fun x => sameNumber x (.integer 0)) &&
      isUndefined (property "lastCompletedAt" value)
  else
    isOneOf ["least_recently_completed"] (property "reason" value) &&
      isPositive (property "completedCount" value) && isTimestamp (property "lastCompletedAt" value)

def isScenarioRecommendation (value : JsValue) : Bool :=
  isRecord value && isNonEmptyString (property "slug" value) &&
    isOneOf scenarioTypes (property "type" value) && isNonEmptyString (property "title" value) &&
    isPositiveInteger (property "estimatedMinutes" value) &&
    isOneOf scenarioRecommendationReasons (property "reason" value) &&
    isOneOf scenarioRecommendationActions (property "action" value) &&
    isNonNegativeInteger (property "completedCount" value) &&
    optional isTimestamp (property "lastCompletedAt" value) &&
    fitsReason value

def isScenarioProgressEvidence (value : JsValue) : Bool :=
  isRecord value && isNonNegativeInteger (property "completedThisWeek" value) &&
    isNonNegativeInteger (property "completedTotal" value) &&
    atMost (property "completedThisWeek" value) (property "completedTotal" value) &&
    optional isScenarioRecommendation (property "recommendation" value)

def isProgressSummaryPayload (value : JsValue) : Bool :=
  isRecord value &&
    (requiredProgressFields.all fun field => isNonNegativeNumber (property field value)) &&
    isPositive (property "dailyGoal" value) &&
    optional isNonNegativeNumber (property "objectiveReviewsToday" value) &&
    optional isNonNegativeNumber (property "objectiveSuccessfulToday" value) &&
    optional isTimestamp (property "nextDueAt" value) &&
    optional isNonNegativeNumber (property "eventSchemaVersion" value) &&
    optional isProgressModes (property "modes" value) &&
    optional isWeeklyProgressEvidence (property "weekly" value) &&
    optional isLearningProcessEvidence (property "processes" value) &&
    optional isScenarioProgressEvidence (property "scenarios" value)

end Reading

section Counts

@[simp] theorem isNonNegativeNumber_count (n : Nat) : isNonNegativeNumber (count n) = true := by
  simp [isNonNegativeNumber, count, number, isFinite, nonNegative]

@[simp] theorem isNonNegativeInteger_count (n : Nat) : isNonNegativeInteger (count n) = true := by
  simp [isNonNegativeInteger, isInteger, isIntegral, count, number, isNonNegativeNumber, isFinite,
    nonNegative]

theorem atMost_count (m n : Nat) : atMost (count m) (count n) = decide (m ≤ n) := by
  have hless : lessThan (.integer n) (.integer m) = decide (n < m) := by
    rw [lessThan_finite rfl rfl]
    exact decide_eq_decide.2 (by simp [worth])
  simp [atMost, count, number, hless, ← Bool.decide_eq_false]

theorem isPercentage_count {n : Nat} (h : n ≤ 100) : isPercentage (count n) = true := by
  have hinteger : isInteger (count n) = true := rfl
  rw [isPercentage, hinteger, isNonNegativeNumber_count, atMost_count, decide_eq_true h]
  rfl

theorem isPositive_integer (n : Int) : isPositive (.number (.integer n)) = decide (0 < n) := by
  have hless : lessThan (.integer 0) (.integer n) = decide (0 < n) := by
    rw [lessThan_finite rfl rfl]
    exact decide_eq_decide.2 (by simp [worth])
  simp [isPositive, number, isFinite, hless]

end Counts

section Accepted

theorem optional_of {check : JsValue → Bool} {value : JsValue} (h : check value = true) :
    optional check value = true := by
  rw [optional, h, Bool.or_true]

theorem optional_map {α : Type} {check : JsValue → Bool} {value : Option α} {json : α → JsValue}
    (h : ∀ a ∈ value, check (json a) = true) :
    optional check ((value.map json).getD .undefined) = true := by
  cases value with
  | none => rfl
  | some a => exact optional_of (h a rfl)

theorem atMostThree_map {α : Type} {check : JsValue → Bool} {values : List α} {json : α → JsValue}
    (hlength : values.length ≤ 3) (h : ∀ a ∈ values, check (json a) = true) :
    atMostThree check (.array (values.map json)) = true := by
  simpa [atMostThree, items, hlength] using h

theorem isModeProgress_json (mode : ModeProgress) : isModeProgress (modeJson mode) = true := by
  simp [isModeProgress, modeProgressFields, modeJson, property_record_ne]

theorem isProgressModes_json (modes : ProgressModes) : isProgressModes (modesJson modes) = true := by
  simp [isProgressModes, modesJson, property_record_ne, isModeProgress_json]

theorem isDailyRecallEvidence_json {day : DailyRecallEvidence} (h : day.rate ≤ 100) :
    isDailyRecallEvidence (dayJson day) = DateText.isDate day.date.toList := by
  simp [isDailyRecallEvidence, dayJson, property_record_ne, isPercentage_count h, isDateOnly, text]

theorem isTopicEvidence_json {evidence : TopicEvidence} (h : evidence.rate ≤ 100) :
    isTopicEvidence (topicJson evidence) = true := by
  simp [isTopicEvidence, isEvidence, topicJson, evidenceJson, property_record_ne,
    isPercentage_count h, isText, text]

theorem isPartOfSpeechEvidence_json {evidence : PartOfSpeechEvidence} (h : evidence.rate ≤ 100) :
    isPartOfSpeechEvidence (partOfSpeechJson evidence) = true := by
  have hname : isNonEmptyString (.string evidence.name.text) = true := by
    cases evidence.name <;> decide
  simp [isPartOfSpeechEvidence, isEvidence, partOfSpeechJson, evidenceJson, property_record_ne,
    isPercentage_count h, hname]

/-- Weekly evidence whose rates are percentages and whose lists have the lengths they may
have. -/
structure Presentable (w : WeeklyProgressEvidence) : Prop where
  rates : w.recallRate ≤ 100 ∧ w.previousRecallRate ≤ 100 ∧ w.choiceRate ≤ 100
  trend : w.trend.length = 7 ∧ ∀ day ∈ w.trend, day.rate ≤ 100
  weakTopics : w.weakTopics.length ≤ 3 ∧ ∀ topic ∈ w.weakTopics, topic.rate ≤ 100
  strongTopic : ∀ topic ∈ w.strongTopic, topic.rate ≤ 100
  weakPartsOfSpeech : ∃ parts, w.weakPartsOfSpeech = some parts ∧ parts.length ≤ 3 ∧
    ∀ part ∈ parts, part.rate ≤ 100

/-- Nothing but the dates decides whether the evidence of a week is accepted. -/
theorem isWeeklyProgressEvidence_json {w : WeeklyProgressEvidence} (h : Presentable w) :
    isWeeklyProgressEvidence (weeklyJson w) =
      (DateText.isDate w.weekStart.toList && DateText.isDate w.weekEnd.toList &&
        w.trend.all fun day => DateText.isDate day.date.toList) := by
  obtain ⟨parts, hparts, hlength, hrates⟩ := h.weakPartsOfSpeech
  have htrend : ((w.trend.map dayJson).all isDailyRecallEvidence) =
      w.trend.all fun day => DateText.isDate day.date.toList := by
    rw [Bool.eq_iff_iff, List.all_map, List.all_eq_true, List.all_eq_true]
    refine forall₂_congr fun day hday => ?_
    rw [Function.comp_apply, isDailyRecallEvidence_json (h.trend.2 day hday)]
  have htopics : atMostThree isTopicEvidence (.array (w.weakTopics.map topicJson)) = true :=
    atMostThree_map h.weakTopics.1 fun topic htopic => isTopicEvidence_json (h.weakTopics.2 topic htopic)
  have hspeech : optional (atMostThree isPartOfSpeechEvidence)
      (.array (parts.map partOfSpeechJson)) = true :=
    optional_of (atMostThree_map hlength fun part hpart => isPartOfSpeechEvidence_json (hrates part hpart))
  have hstrong : optional isTopicEvidence ((w.strongTopic.map topicJson).getD .undefined) = true :=
    optional_map fun topic htopic => isTopicEvidence_json (h.strongTopic topic htopic)
  simp [isWeeklyProgressEvidence, weeklyJson, property_record_ne, isPercentage_count h.rates.1,
    isPercentage_count h.rates.2.1, isPercentage_count h.rates.2.2, hparts, items, htrend, htopics,
    hspeech, hstrong, h.trend.1, isDateOnly, text]

theorem isLearningProcessEvidence_json {p : LearningProcessEvidence}
    (hle : p.retention.successful ≤ p.retention.attempts) (hrate : p.retention.rate ≤ 100) :
    isLearningProcessEvidence (processesJson p) =
      (DateText.isDate p.weekStart.toList && DateText.isDate p.weekEnd.toList) := by
  have hretention : isProcessRetentionEvidence (retentionJson p.retention) = true := by
    simp [isProcessRetentionEvidence, retentionJson, property_record_ne, isPercentage_count hrate,
      atMost_count, hle]
  simp [isLearningProcessEvidence, processesJson, property_record_ne, hretention, isDateOnly, text]

/-- What every recommendation says, whatever the attempts have been. -/
structure Consistent (r : ScenarioRecommendation) : Prop where
  slug : trim r.slug ≠ ""
  minutes : 0 < r.estimatedMinutes
  action : r.action = if r.reason = .resumeInProgress then .resume else .start
  first : r.reason = .firstUncompleted → r.completedCount = 0 ∧ r.lastCompletedAt = none
  again : r.reason = .leastRecentlyCompleted → 0 < r.completedCount

theorem isTimestamp_time {zone : Zone} {t : Instant}
    {value : Option JsValue} (h : time zone (some t) = some value) :
    isTimestamp (value.getD .undefined) = true := by
  obtain ⟨text, htext, rfl⟩ := Option.map_eq_some_iff.1 h
  have hparses := DateText.parses_format (zone.bound t) htext
  simpa [isTimestamp, ClientValues.text] using hparses

theorem optional_time {zone : Zone} {t : Option Instant}
    {value : Option JsValue} (h : time zone t = some value) :
    optional isTimestamp (value.getD .undefined) = true := by
  cases t with
  | none =>
    cases h
    rfl
  | some t => exact optional_of (isTimestamp_time h)

theorem fitsReason_json {zone : Zone} {r : ScenarioRecommendation}
    (hr : Consistent r) {last : Option JsValue} (hlast : time zone r.lastCompletedAt = some last) :
    fitsReason (recommendationJson r last) = true ↔
      (r.reason = .leastRecentlyCompleted → r.lastCompletedAt.isSome = true) := by
  have haction := hr.action
  cases hreason : r.reason with
  | resumeInProgress =>
    rw [hreason, if_pos rfl] at haction
    simp [fitsReason, recommendationJson, property_record_ne, isOneOf, text, hreason, haction, reasonText,
      actionText]
  | firstUncompleted =>
    rw [hreason, if_neg (by decide)] at haction
    obtain ⟨hcount, hnone⟩ := hr.first hreason
    rw [hnone] at hlast
    cases hlast
    have hzero : sameNumber (.integer 0) (.integer 0) = true := by decide
    simp [fitsReason, recommendationJson, property_record_ne, isOneOf, text, hreason, haction, reasonText,
      actionText, hcount, count, number, hzero, isUndefined]
  | leastRecentlyCompleted =>
    rw [hreason, if_neg (by decide)] at haction
    have hcount : isPositive (count r.completedCount) = true := by
      rw [count, isPositive_integer]
      exact decide_eq_true (Int.natCast_pos.2 (hr.again hreason))
    have htime : isTimestamp (last.getD .undefined) = r.lastCompletedAt.isSome := by
      cases ht : r.lastCompletedAt with
      | none =>
        rw [ht] at hlast
        cases hlast
        rfl
      | some t =>
        rw [ht] at hlast
        exact isTimestamp_time hlast
    simp [fitsReason, recommendationJson, property_record_ne, isOneOf, text, hreason, haction, reasonText,
      actionText, hcount, htime]

theorem isScenarioRecommendation_json {zone : Zone}
    {r : ScenarioRecommendation} (hr : Consistent r) {last : Option JsValue}
    (hlast : time zone r.lastCompletedAt = some last) :
    isScenarioRecommendation (recommendationJson r last) = true ↔
      trim r.title ≠ "" ∧
        (r.reason = .leastRecentlyCompleted → r.lastCompletedAt.isSome = true) := by
  have htype : isOneOf scenarioTypes (.string (scenarioTypeText r.type)) = true := by
    cases r.type <;> decide
  have hreason : isOneOf scenarioRecommendationReasons (.string (reasonText r.reason)) = true := by
    cases r.reason <;> decide
  have haction : isOneOf scenarioRecommendationActions (.string (actionText r.action)) = true := by
    cases r.action <;> decide
  have hminutes : isPositiveInteger (.number (.integer r.estimatedMinutes)) = true := by
    have hinteger : isInteger (.number (.integer r.estimatedMinutes)) = true := rfl
    rw [isPositiveInteger, hinteger, isPositive_integer, decide_eq_true hr.minutes]
    rfl
  have hoptional := optional_time hlast
  rw [← fitsReason_json hr hlast]
  generalize hfits : fitsReason (recommendationJson r last) = fits
  simp [isScenarioRecommendation, hfits]
  simp [recommendationJson, property_record_ne, htype, hreason, haction, hminutes,
    hoptional, isNonEmptyString, text, hr.slug]

theorem isScenarioProgressEvidence_json {s : ScenarioProgressEvidence} {recommendation : Option JsValue}
    (hle : s.completedThisWeek ≤ s.completedTotal) :
    isScenarioProgressEvidence (scenariosJson s recommendation) =
      optional isScenarioRecommendation (recommendation.getD .undefined) := by
  simp [isScenarioProgressEvidence, scenariosJson, property_record_ne, atMost_count, hle]

/-- The checks of the whole come down to the parts that may fail them. -/
theorem isProgressSummaryPayload_json {s : ProgressSummary} {scenarios : JsValue}
    {nextDueAt : Option JsValue} (hgoal : 0 < s.dailyGoal)
    (hdue : optional isTimestamp (nextDueAt.getD .undefined) = true) :
    isProgressSummaryPayload (summaryJson s scenarios nextDueAt) =
      (optional isWeeklyProgressEvidence (weeklyJson s.weekly) &&
        optional isLearningProcessEvidence (processesJson s.processes) &&
        optional isScenarioProgressEvidence scenarios) := by
  have hnumber : isNonNegativeNumber (.number (.integer s.dailyGoal)) = true := by
    simp [isNonNegativeNumber, number, isFinite, nonNegative, Int.le_of_lt hgoal]
  have hcount : ∀ n, optional isNonNegativeNumber (count n) = true :=
    fun n => optional_of (isNonNegativeNumber_count n)
  have hmodes : optional isProgressModes (modesJson s.modes) = true :=
    optional_of (isProgressModes_json s.modes)
  simp [isProgressSummaryPayload, requiredProgressFields, summaryJson, property_record_ne, hnumber,
    isPositive_integer, hgoal, hcount, hmodes, hdue, Bool.and_assoc]

end Accepted

section Response
variable (lower : String → String) (collation : String → String → Bool)
variable (db : Snapshot) (now : Instant) (userId : UserId) (offset : Int)

theorem presentable_response :
    Presentable (progressResponse lower collation db now userId offset).weekly := by
  have hfilter : ∀ (events : List ReviewEvent) (attempt : ReviewEvent → Bool),
      percentage (events.countP fun e => attempt e && e.wasCorrect) (events.countP attempt) ≤ 100 :=
    fun events attempt => percentage_le
      (List.countP_mono_left fun e _ h => (Bool.and_eq_true_iff.1 h).1)
  have hrate : ∀ {κ : Type} {evidence : Evidence κ}, Sound evidence → evidence.rate ≤ 100 :=
    fun h => h.rate ▸ percentage_le h.le
  refine ⟨⟨hfilter _ _, hfilter _ _, hfilter _ _⟩, ⟨rfl, ?_⟩, ⟨weak_length, ?_⟩, ?_, ?_⟩
  · intro day hday
    obtain ⟨dayIndex, -, rfl⟩ := List.mem_map.1 hday
    exact hfilter _ _
  · exact fun topic htopic => hrate (sound_weak htopic)
  · exact fun topic htopic => hrate (sound_strong htopic)
  · exact ⟨_, rfl, weak_length, fun part hpart => hrate (sound_weak hpart)⟩

theorem slug_visible (scenario : Scenario) : trim scenario.slug ≠ "" := by
  intro hblank
  have hempty := congrArg String.toList hblank
  unfold trim at hempty
  rw [String.toList_ofList] at hempty
  obtain ⟨part, others, hsplit⟩ := List.exists_cons_of_ne_nil
    (List.splitOnP_ne_nil (· = '-') scenario.slug.toList)
  have hmem : part ∈ scenario.slug.toList.splitOnP (· = '-') := hsplit ▸ List.mem_cons_self
  have hpart := List.all_eq_true.1 scenario.slug_chk part hmem
  rw [Bool.and_eq_true, decide_eq_true_eq, List.all_eq_true] at hpart
  obtain ⟨c, cs, hcs⟩ := List.exists_cons_of_ne_nil hpart.1
  have hc : c ∈ part := hcs ▸ List.mem_cons_self
  have hwhite := ListParts.strip_eq_nil _ hempty c (ListParts.mem_of_part hmem hc)
  have hslug := hpart.2 c hc
  simp only [isSlugCharacter, Bool.or_eq_true, Bool.and_eq_true, decide_eq_true_eq, Char.le_def,
    UInt32.le_iff_toNat_le] at hslug
  change (97 ≤ c.toNat ∧ c.toNat ≤ 122) ∨ (48 ≤ c.toNat ∧ c.toNat ≤ 57) at hslug
  rw [isWhiteSpace_graphic (by omega) (by omega)] at hwhite
  exact Bool.false_ne_true hwhite

theorem consistent_recommend (scenario : Scenario) (slug : String) :
    Consistent (recommend scenario (attemptHistory db userId slug)) := by
  have hnone : (attemptHistory db userId slug).completedCount = 0 →
      (attemptHistory db userId slug).lastCompletedAt = none := by
    intro hzero
    have hnil := List.eq_nil_of_length_eq_zero hzero
    unfold attemptHistory
    dsimp only
    rw [hnil]
    rfl
  generalize attemptHistory db userId slug = history at hnone
  have hminutes := scenario.estimated_minutes_chk.1
  refine ⟨slug_visible scenario, ?_, ?_, ?_, ?_⟩
  · exact Int.lt_of_lt_of_le (by decide) hminutes
  · by_cases hopen : history.openCount > 0 <;> by_cases hcount : history.completedCount = 0 <;>
      simp [recommend, reasonFor, hopen, hcount]
  · by_cases hopen : history.openCount > 0 <;> by_cases hcount : history.completedCount = 0 <;>
      simp [recommend, reasonFor, hopen, hcount, hnone]
  · by_cases hopen : history.openCount > 0 <;> by_cases hcount : history.completedCount = 0 <;>
      simp [recommend, reasonFor, hopen, hcount]
    omega

theorem dayOf_midnight (d : Int) : dayOf (midnight d) = d := Int.mul_ediv_cancel _ (by decide)

/-- The local week begins with a day, and its other days follow. -/
theorem week_date (n : Int) : formatDate (addDays (weekOf now offset).startLocal n) =
    String.ofList (DateText.dayText (dayOf (weekOf now offset).startLocal + n)) := by
  have hstart : (weekOf now offset).startLocal = midnight (dayOf (localNow now offset) +
      -((weekday (dateOnly (localNow now offset)) + 6) % 7)) := addDays_midnight _ _
  rw [hstart, addDays_midnight, dayOf_midnight]
  unfold formatDate
  rw [dayOf_midnight]

theorem trend_date (n : Int) : addDays (weekOf now offset).startUTC n - minutes offset =
    addDays (weekOf now offset).startLocal n := by
  have hUTC : (weekOf now offset).startUTC = (weekOf now offset).startLocal + minutes offset := rfl
  rw [hUTC]
  unfold addDays
  rw [Int.add_right_comm, Int.add_sub_cancel]

/-- All days of the local week lie in the years 0 to 9999. -/
def WeekInYears : Prop := ∀ n : Nat, n < 7 →
  0 ≤ DateText.yearNumber (dayOf (weekOf now offset).startLocal + n) ∧
    DateText.yearNumber (dayOf (weekOf now offset).startLocal + n) < 10000

theorem isDate_week (n : Int) :
    DateText.isDate (formatDate (addDays (weekOf now offset).startLocal n)).toList = true ↔
      0 ≤ DateText.yearNumber (dayOf (weekOf now offset).startLocal + n) ∧
        DateText.yearNumber (dayOf (weekOf now offset).startLocal + n) < 10000 := by
  rw [week_date, String.toList_ofList, DateText.isDate_dayText]

theorem trend_dates (events : List ReviewEvent) :
    ((recallTrend events offset (weekOf now offset).startUTC).all fun day =>
      DateText.isDate day.date.toList) = true ↔ WeekInYears now offset := by
  unfold recallTrend WeekInYears
  rw [List.all_map, List.all_eq_true]
  refine ⟨fun h n hn => ?_, fun h n hn => ?_⟩
  · have hday := h n (List.mem_range.2 hn)
    rw [Function.comp_apply, trend_date] at hday
    exact (isDate_week now offset n).1 hday
  · rw [Function.comp_apply, trend_date]
    exact (isDate_week now offset n).2 (h n (List.mem_range.1 hn))

/-- What has to be so for the client to accept a summary: its week is in the years that a
date tells, its times are in those that a timestamp tells, and the scenario it recommends
has a title and, if it is to be done again, a time at which it was completed. -/
structure Shown (zone : Zone) (s : ProgressSummary) : Prop where
  week : WeekInYears now (clampOffset offset)
  nextDueAt : ∀ t ∈ s.nextDueAt, (Timestamp.format (zone.ahead t) t).isSome = true
  lastCompletedAt : ∀ r ∈ s.scenarios.recommendation, ∀ t ∈ r.lastCompletedAt,
    (Timestamp.format (zone.ahead t) t).isSome = true
  recommendation : ∀ r ∈ s.scenarios.recommendation, trim r.title ≠ "" ∧
    (r.reason = .leastRecentlyCompleted → r.lastCompletedAt.isSome = true)

theorem time_some {zone : Zone} {t : Option Instant} :
    (∃ value, time zone t = some value) ↔
      ∀ u ∈ t, (Timestamp.format (zone.ahead u) u).isSome = true := by
  cases t with
  | none => exact iff_of_true ⟨none, rfl⟩ nofun
  | some u =>
    simp only [time, Option.map_eq_some_iff, Option.mem_def, Option.some.injEq, forall_eq',
      Option.isSome_iff_exists]
    exact ⟨fun ⟨_, text, htext, _⟩ => ⟨text, htext⟩, fun ⟨text, htext⟩ => ⟨_, text, htext, rfl⟩⟩

theorem isDate_weekStart :
    DateText.isDate (formatDate (weekOf now offset).startLocal).toList = true ↔
      0 ≤ DateText.yearNumber (dayOf (weekOf now offset).startLocal) ∧
        DateText.yearNumber (dayOf (weekOf now offset).startLocal) < 10000 := by
  have hfirst := isDate_week now offset 0
  have hzero : addDays (weekOf now offset).startLocal 0 = (weekOf now offset).startLocal := by
    unfold addDays
    rw [Int.zero_mul, Int.add_zero]
  rwa [hzero, Int.add_zero] at hfirst

theorem week_accepted {w : WeeklyProgressEvidence} {events : List ReviewEvent} (h : Presentable w)
    (hstart : w.weekStart = formatDate (weekOf now offset).startLocal)
    (hend : w.weekEnd = formatDate (addDays (weekOf now offset).startLocal 6))
    (htrend : w.trend = recallTrend events offset (weekOf now offset).startUTC) :
    isWeeklyProgressEvidence (weeklyJson w) = true ↔ WeekInYears now offset := by
  rw [isWeeklyProgressEvidence_json h, hstart, hend, htrend, Bool.and_eq_true, Bool.and_eq_true,
    trend_dates, isDate_weekStart, isDate_week]
  refine ⟨And.right, fun hweek => ⟨⟨?_, hweek 6 (by decide)⟩, hweek⟩⟩
  have hfirst := hweek 0 (by decide)
  rwa [Int.natCast_zero, Int.add_zero] at hfirst

theorem processes_accepted {p : LearningProcessEvidence}
    (hle : p.retention.successful ≤ p.retention.attempts) (hrate : p.retention.rate ≤ 100)
    (hstart : p.weekStart = formatDate (weekOf now offset).startLocal)
    (hend : p.weekEnd = formatDate (addDays (weekOf now offset).startLocal 6))
    (h : WeekInYears now offset) : isLearningProcessEvidence (processesJson p) = true := by
  rw [isLearningProcessEvidence_json hle hrate, hstart, hend, Bool.and_eq_true, isDate_weekStart,
    isDate_week]
  have hfirst := h 0 (by decide)
  rw [Int.natCast_zero, Int.add_zero] at hfirst
  exact ⟨hfirst, h 6 (by decide)⟩

theorem consistent_recommendation {r : ScenarioRecommendation}
    (h : r ∈ recommendation collation db userId) : Consistent r := by
  obtain ⟨row, hrow, rfl⟩ := Option.map_eq_some_iff.1 h
  have hranked := (OrderedPages.orderBy_perm _ _).subset (List.mem_of_head? hrow)
  obtain ⟨scenario, -, rfl⟩ := List.mem_map.1 hranked
  exact consistent_recommend db userId scenario scenario.slug

theorem recommendation_accepted (zone : Zone) {last : Option JsValue}
    (hlast : time zone ((recommendation collation db userId).bind (·.lastCompletedAt)) = some last) :
    optional isScenarioRecommendation (((recommendation collation db userId).map fun r =>
        recommendationJson r last).getD .undefined) = true ↔
      ∀ r ∈ recommendation collation db userId, trim r.title ≠ "" ∧
        (r.reason = .leastRecentlyCompleted → r.lastCompletedAt.isSome = true) := by
  cases hr : recommendation collation db userId with
  | none => exact iff_of_true rfl nofun
  | some r =>
    have hconsistent := consistent_recommendation collation db userId hr
    rw [hr] at hlast
    refine (isScenarioRecommendation_json hconsistent hlast).trans ⟨?_, fun h => h r rfl⟩
    rintro h r' hr'
    cases hr'
    exact h

theorem dailyGoal_pos : 0 < (progressResponse lower collation db now userId offset).dailyGoal := by
  have hgoal : (progressResponse lower collation db now userId offset).dailyGoal =
      (db.preferences userId).elim 30 (·.dailyGoal) := rfl
  rw [hgoal]
  cases db.preferences userId with
  | none => decide
  | some preferences => exact Int.lt_of_lt_of_le (by decide) preferences.daily_goal_chk.1

/-- The summary of a response, as far as the client's checks depend on it. -/
theorem response_accepted (zone : Zone) {nextDueAt last : Option JsValue}
    (hdue : time zone (progressResponse lower collation db now userId offset).nextDueAt =
      some nextDueAt)
    (hlast : time zone ((recommendation collation db userId).bind (·.lastCompletedAt)) = some last) :
    isProgressSummaryPayload (summaryJson (progressResponse lower collation db now userId offset)
      (scenariosJson (progressResponse lower collation db now userId offset).scenarios
        ((recommendation collation db userId).map fun r => recommendationJson r last)) nextDueAt) =
        true ↔
      WeekInYears now (clampOffset offset) ∧
        ∀ r ∈ recommendation collation db userId, trim r.title ≠ "" ∧
          (r.reason = .leastRecentlyCompleted → r.lastCompletedAt.isSome = true) := by
  have hweekly := week_accepted now (clampOffset offset)
    (presentable_response lower collation db now userId offset) rfl rfl rfl
  have hcompleted : (progressResponse lower collation db now userId offset).scenarios.completedThisWeek ≤
      (progressResponse lower collation db now userId offset).scenarios.completedTotal :=
    List.countP_le_length
  have hretention : (progressResponse lower collation db now userId offset).processes.retention.successful ≤
      (progressResponse lower collation db now userId offset).processes.retention.attempts :=
    List.countP_mono_left fun e _ h => (Bool.and_eq_true_iff.1 h).1
  have hprocesses := processes_accepted now (clampOffset offset) hretention (percentage_le hretention)
    rfl rfl
  have hscenarios := recommendation_accepted collation db userId zone hlast
  have hweeklyJson : ∀ w, optional isWeeklyProgressEvidence (weeklyJson w) =
    isWeeklyProgressEvidence (weeklyJson w) := fun _ => rfl
  have hprocessesJson : ∀ p, optional isLearningProcessEvidence (processesJson p) =
    isLearningProcessEvidence (processesJson p) := fun _ => rfl
  have hscenariosJson : ∀ v r, optional isScenarioProgressEvidence (scenariosJson v r) =
    isScenarioProgressEvidence (scenariosJson v r) := fun _ _ => rfl
  rw [isProgressSummaryPayload_json (dailyGoal_pos lower collation db now userId offset)
    (optional_time hdue), hweeklyJson, hprocessesJson, hscenariosJson, Bool.and_eq_true,
    Bool.and_eq_true, hweekly, isScenarioProgressEvidence_json hcompleted, hscenarios]
  exact ⟨fun h => ⟨h.1.1, h.2⟩, fun h => ⟨⟨h.1, hprocesses h.1⟩, h.2⟩⟩

/-- The server tells of every event once, and its week is that of the database; and the
client accepts what the server writes exactly where it can be shown. -/
theorem progress_accounted (zone : Zone) :
    Conserved (progressResponse lower collation db now userId offset) ∧
    (∀ (e : ReviewEvent) (p : ReviewEvent → Bool), CountedRows.Splits
      (fun e => reviewedIn (weekOf now (clampOffset offset)).startUTC
        (weekOf now (clampOffset offset)).nextUTC e && p e)
      ((List.range 7).map fun dayIndex e =>
        dayWindow (weekOf now (clampOffset offset)).startUTC dayIndex e && p e) e) ∧
    retentionWeekStart now (clampOffset offset) = (weekOf now (clampOffset offset)).startUTC ∧
    (weekOf now (clampOffset offset)).nextUTC =
      addDays (retentionWeekStart now (clampOffset offset)) 7 ∧
    ((progressJson zone (progressResponse lower collation db now userId offset)).any
        isProgressSummaryPayload = true ↔
      Shown now offset zone (progressResponse lower collation db now userId offset)) := by
  have hweek := weekStart_eq now (clampOffset offset)
  refine ⟨conserved_response lower collation db now userId offset, fun e p => splits_days p _ e,
    hweek, ?_, ?_⟩
  · rw [hweek]
    rfl
  · have hrecommendation : (progressResponse lower collation db now userId
        offset).scenarios.recommendation = recommendation collation db userId := rfl
    unfold progressJson
    rw [hrecommendation]
    constructor
    · intro haccepted
      obtain ⟨payload, hpayload, haccepted⟩ := (Option.any_eq_true _ _).1 haccepted
      obtain ⟨nextDueAt, hdue, hrest⟩ := Option.bind_eq_some_iff.1 hpayload
      obtain ⟨last, hlast, rfl⟩ := Option.map_eq_some_iff.1 hrest
      obtain ⟨hyears, hreasons⟩ :=
        (response_accepted lower collation db now userId offset zone hdue hlast).1 haccepted
      refine ⟨hyears, time_some.1 ⟨_, hdue⟩, fun r hr t ht => ?_, hreasons⟩
      exact time_some.1 ⟨_, hlast⟩ t (Option.bind_eq_some_iff.2 ⟨r, hr, ht⟩)
    · rintro ⟨hyears, hdue, hlast, hreasons⟩
      obtain ⟨nextDueAt, hdue⟩ := time_some.2 hdue
      have htimes : ∀ t ∈ (recommendation collation db userId).bind (·.lastCompletedAt),
          (Timestamp.format (zone.ahead t) t).isSome = true := by
        intro t ht
        obtain ⟨r, hr, ht⟩ := Option.bind_eq_some_iff.1 ht
        exact hlast r hr t ht
      obtain ⟨last, hlast⟩ := time_some.2 htimes
      rw [hdue, Option.bind_some, hlast, Option.map_some, Option.any_some]
      exact (response_accepted lower collation db now userId offset zone hdue hlast).2
        ⟨hyears, hreasons⟩

end Response

example : (progressJson Zone.utc (progressResponse id (fun a b => decide (a ≤ b)) {}
    1783000000000000000 1 180)).any isProgressSummaryPayload = true := by decide +kernel

/-- An account without events, in the week in which the year 9999 ends. -/
theorem lastWeek_rejected :
    (progressJson Zone.utc (progressResponse id (fun a b => decide (a ≤ b)) {} 253402300800000000000
      1 0)).any isProgressSummaryPayload = false := by
  rw [← Bool.not_eq_true]
  intro h
  have hyears : ¬WeekInYears 253402300800000000000 (clampOffset 0) :=
    fun hweek => absurd (hweek 6 (by decide)) (by decide +kernel)
  exact hyears ((response_accepted id (fun a b => decide (a ≤ b)) {} 253402300800000000000 1 0
    Zone.utc rfl rfl).1 h).1

end ProgressPayload
