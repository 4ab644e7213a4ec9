import LexiGo.Learning.ProgressTables
import LexiGo.OrderedPages
import LexiGo.Text.DateText

/-! The summary of a learner's progress, as the three queries of the repository build it
one after the other. Instants are those of one moment: the clock of the server shows
nanoseconds, `now()` in the database microseconds. -/
namespace LearningProgress
open AnswerJudgement Scheduler ProgressTables ProgressStreaks OrderedPages
open LearningSchema (UserId WordId SessionKind SelectionReason LessonStatus)
open ScenarioSchema (AttemptStatus)

section Clock

/-- `make_interval(mins => …)`, and a duration of so many minutes. -/
def minutes (n : Int) : Int := n * minute

def clampOffset (offset : Int) : Int :=
  if offset < -840 then -840 else if offset > 840 then 840 else offset

/-- `::date`, as the number of a day. -/
def dayOf (t : Instant) : Int := t / dayLength

def dateOnly (t : Instant) : Instant := midnight (dayOf t)

/-- `Weekday`; the first day of 1970 was a Thursday. -/
def weekday (t : Instant) : Int := (dayOf t + 4) % 7

def startOfWeek (day : Instant) : Instant := addDays day (-((weekday day + 6) % 7))

def localNow (now : Instant) (offset : Int) : Instant := now - minutes offset

structure Week where
  startLocal : Instant
  startUTC : Instant
  nextUTC : Instant

def weekOf (now : Instant) (offset : Int) : Week :=
  let startLocal := startOfWeek (dateOnly (localNow now offset))
  let startUTC := startLocal + minutes offset
  ⟨startLocal, startUTC, addDays startUTC 7⟩

/-- `date_trunc('week', …)`: weeks begin on Mondays, such as the third day before 1970. -/
def truncateWeek (t : Instant) : Instant := midnight (dayOf t - (dayOf t + 3) % 7)

/-- The bound of the query for retained items. -/
def retentionWeekStart (now : Instant) (offset : Int) : Instant :=
  truncateWeek (micros now - minutes offset) + minutes offset

def isToday (now : Instant) (offset : Int) (e : ReviewEvent) : Bool :=
  dayOf (e.reviewedAt - minutes offset) = dayOf (micros now - minutes offset)

/-- `Format("2006-01-02")` -/
def formatDate (t : Instant) : String := String.ofList (DateText.dayText (dayOf t))

def reviewedIn (start stop : Instant) (e : ReviewEvent) : Bool :=
  start ≤ e.reviewedAt && e.reviewedAt < stop

end Clock

section Model

structure ModeProgress where
  attemptsToday : Nat := 0
  successfulToday : Nat := 0
  attemptsTotal : Nat := 0
  successfulTotal : Nat := 0

structure ProgressModes where
  study : ModeProgress
  recalled : ModeProgress
  choice : ModeProgress
  listening : ModeProgress := {}
  legacy : ModeProgress

structure DailyRecallEvidence where
  date : String
  attempts : Nat
  successful : Nat
  rate : Nat

/-- What is known about a topic or a part of speech. -/
structure Evidence (κ : Type) where
  name : κ
  attempts : Nat
  successful : Nat
  errors : Nat
  rate : Nat

inductive PartOfSpeech
  | noun
  | verb
  | adjective
  deriving DecidableEq

abbrev TopicEvidence := Evidence String
abbrev PartOfSpeechEvidence := Evidence PartOfSpeech

/-- There is no list of parts of speech before its query has run. -/
structure WeeklyProgressEvidence where
  weekStart : String
  weekEnd : String
  recallAttempts : Nat
  recallSuccessful : Nat
  recallRate : Nat
  previousRecallAttempts : Nat
  previousRecallSuccessful : Nat
  previousRecallRate : Nat
  choiceAttempts : Nat
  choiceSuccessful : Nat
  choiceRate : Nat
  reviews : Nat
  lessons : Nat
  activeMinutes : Nat
  trend : List DailyRecallEvidence
  weakTopics : List TopicEvidence
  weakPartsOfSpeech : Option (List PartOfSpeechEvidence) := none
  strongTopic : Option TopicEvidence

structure ProcessRetentionEvidence where
  attempts : Nat
  successful : Nat
  rate : Nat

structure LearningProcessEvidence where
  weekStart : String
  weekEnd : String
  newLearned : Nat
  dueReviewed : Nat
  remediationReviewed : Nat
  reviewBacklog : Nat
  lapses : Nat
  retention : ProcessRetentionEvidence

inductive RecommendationReason
  | resumeInProgress
  | firstUncompleted
  | leastRecentlyCompleted
  deriving DecidableEq

inductive RecommendationAction
  | start
  | resume
  deriving DecidableEq

structure ScenarioRecommendation where
  slug : String
  type : ScenarioType
  title : String
  estimatedMinutes : Int
  reason : RecommendationReason
  action : RecommendationAction
  completedCount : Nat
  lastCompletedAt : Option Instant

structure ScenarioProgressEvidence where
  completedThisWeek : Nat := 0
  completedTotal : Nat := 0
  recommendation : Option ScenarioRecommendation := none

structure ProgressSummary where
  dueNow : Nat
  dueWords : Nat
  duePhrases : Nat
  totalWords : Nat
  totalPhrases : Nat
  newWords : Nat
  learningWords : Nat
  reviewWords : Nat
  masteredWords : Nat
  masteredPhrases : Nat
  reviewsToday : Nat
  successfulToday : Nat
  objectiveReviewsToday : Nat
  objectiveSuccessfulToday : Nat
  reviewsTotal : Nat
  dailyGoal : Int
  currentStreak : Nat
  longestStreak : Nat
  retainedItemsWeek : Nat
  retainedWordsWeek : Nat
  retainedPhrasesWeek : Nat
  eventSchemaVersion : Nat := 2
  modes : ProgressModes
  weekly : WeeklyProgressEvidence
  processes : LearningProcessEvidence
  scenarios : ScenarioProgressEvidence := {}
  nextDueAt : Option Instant

end Model

section Counts

def percentage (successful attempts : Nat) : Nat :=
  if attempts ≤ 0 then 0 else (successful * 100 + attempts / 2) / attempts

/-- `event_schema_version = 2 and answer_mode in (…)` -/
def inModes (modes : List AnswerMode) (e : ReviewEvent) : Bool :=
  e.eventSchemaVersion = 2 && e.answerMode.any (· ∈ modes)

def modeProgress (today attempt success : ReviewEvent → Bool) (events : List ReviewEvent) :
    ModeProgress where
  attemptsToday := events.countP fun e => today e && attempt e
  successfulToday := events.countP fun e => today e && attempt e && success e
  attemptsTotal := events.countP attempt
  successfulTotal := events.countP fun e => attempt e && success e

/-- `count(distinct word_id)` -/
def distinctWords (events : List ReviewEvent) : Nat := (events.map (·.wordId)).dedup.length

def learnedNew (e : ReviewEvent) : Bool :=
  e.eventSchemaVersion = 2 && e.sessionKind = some .study && e.selectionReason = some .new &&
    e.effectiveRating = some .known && (e.wasCorrect || e.correct = none)

def inSession (kind : SessionKind) (e : ReviewEvent) : Bool :=
  e.eventSchemaVersion = 2 && e.sessionKind = some kind

def testsRetention (e : ReviewEvent) : Bool :=
  inSession .review e && e.answerMode.any (· ∈ [.recall, .listening]) && e.correct ≠ none

def processEvidence (week : Week) (events : List ReviewEvent) (reviewBacklog : Nat) :
    LearningProcessEvidence :=
  let thisWeek := reviewedIn week.startUTC week.nextUTC
  let attempts := events.countP fun e => thisWeek e && testsRetention e
  let successful := events.countP fun e => thisWeek e && testsRetention e && e.wasCorrect
  { weekStart := formatDate week.startLocal
    weekEnd := formatDate (addDays week.startLocal 6)
    newLearned := distinctWords (events.filter fun e => thisWeek e && learnedNew e)
    dueReviewed := events.countP fun e => thisWeek e && inSession .review e
    remediationReviewed := events.countP fun e => thisWeek e && inSession .remediation e
    reviewBacklog := reviewBacklog
    lapses := events.countP fun e =>
      thisWeek e && inSession .review e && e.effectiveRating = some .again
    retention := ⟨attempts, successful, percentage successful attempts⟩ }

def provesRecall (e : ReviewEvent) : Bool :=
  e.inMode .recall && (e.sessionKind = some .review || e.sessionKind = none) && e.wasCorrect &&
    e.grade = 5

/-- The reviews of this week that repeat what was known before it. -/
def retainedReviews (db : Snapshot) (events : List ReviewEvent) (weekStart : Instant) :
    List (ReviewEvent × Word) :=
  (joinWords db (·.wordId) events).filter fun row =>
    provesRecall row.1 && weekStart ≤ row.1.reviewedAt &&
      events.any fun previous => previous.wordId = row.1.wordId && provesRecall previous &&
        previous.reviewedAt < weekStart

/-- `order by review_day desc limit 730` -/
def reviewDays (events : List ReviewEvent) (offset : Int) : List Instant :=
  ((orderBy (fun a b => decide (b ≤ a))
    (events.map fun e => dayOf (e.reviewedAt - minutes offset)).dedup).take 730).map midnight

end Counts

section Weekly

def activeMilliseconds (events : List ReviewEvent) : Int :=
  (events.map fun e => min (e.responseMs.getD 0) 300000).sum

def recallTrend (events : List ReviewEvent) (offset : Int) (startUTC : Instant) :
    List DailyRecallEvidence :=
  (List.range 7).map fun (dayIndex : Nat) =>
    let inDay := reviewedIn (addDays startUTC dayIndex) (addDays startUTC (dayIndex + 1))
    let attempts := events.countP fun e => inDay e && e.inMode .recall
    let successful := events.countP fun e => inDay e && e.inMode .recall && e.wasCorrect
    { date := formatDate (addDays startUTC dayIndex - minutes offset)
      attempts := attempts
      successful := successful
      rate := percentage successful attempts }

variable {κ : Type}

def evidenceOf (name : κ) (events : List ReviewEvent) : Evidence κ where
  name := name
  attempts := events.length
  successful := events.countP (·.wasCorrect)
  errors := events.countP fun e => !e.wasCorrect
  rate := percentage (events.countP (·.wasCorrect)) events.length

/-- `group by` -/
def groups [DecidableEq κ] (rows : List (κ × ReviewEvent)) : List (Evidence κ) :=
  (rows.map Prod.fst).dedup.map fun name =>
    evidenceOf name ((rows.filter (·.1 = name)).map Prod.snd)

/-- `count(*) filter (where correct is true)::float / count(*)` -/
def share (evidence : Evidence κ) : Float := evidence.successful.toFloat / evidence.attempts.toFloat

def weakest (collation : κ → κ → Bool) : Evidence κ → Evidence κ → Bool :=
  lexLe [fun a b => decide (b.errors ≤ a.errors), fun a b => decide (share a ≤ share b),
    fun a b => decide (b.attempts ≤ a.attempts), fun a b => collation a.name b.name]

def strongest (collation : κ → κ → Bool) : Evidence κ → Evidence κ → Bool :=
  lexLe [fun a b => decide (share b ≤ share a), fun a b => decide (b.attempts ≤ a.attempts),
    fun a b => collation a.name b.name]

def weakEvidence [DecidableEq κ] (collation : κ → κ → Bool) (rows : List (κ × ReviewEvent)) :
    List (Evidence κ) :=
  (orderBy (weakest collation) ((groups rows).filter fun group => 0 < group.errors)).take 3

def strongEvidence [DecidableEq κ] (collation : κ → κ → Bool) (rows : List (κ × ReviewEvent)) :
    Option (Evidence κ) :=
  (orderBy (strongest collation) ((groups rows).filter fun group => 2 ≤ group.attempts)).head?

/-- The recall events of the week, with the words they are about. -/
def weeklyRecall (db : Snapshot) (events : List ReviewEvent) (week : Week) :
    List (ReviewEvent × Word) :=
  joinWords db (·.wordId)
    (events.filter fun e => reviewedIn week.startUTC week.nextUTC e && e.inMode .recall)

def completedIn (start stop : Instant) (completedAt : Option Instant) : Bool :=
  completedAt.any fun t => start ≤ t && t < stop

def weeklyEvidence (collation : String → String → Bool) (db : Snapshot) (userId : UserId)
    (events : List ReviewEvent) (offset : Int) (week : Week) : WeeklyProgressEvidence :=
  let previousWeekUTC := addDays week.startUTC (-7)
  let recent := events.filter (reviewedIn previousWeekUTC week.nextUTC)
  let thisWeek := reviewedIn week.startUTC week.nextUTC
  let previousWeek := reviewedIn previousWeekUTC week.startUTC
  let recallAttempts := recent.countP fun e => thisWeek e && e.inMode .recall
  let recallSuccessful := recent.countP fun e => thisWeek e && e.inMode .recall && e.wasCorrect
  let previousAttempts := recent.countP fun e => previousWeek e && e.inMode .recall
  let previousSuccessful := recent.countP fun e => previousWeek e && e.inMode .recall && e.wasCorrect
  let choiceAttempts := recent.countP fun e => thisWeek e && e.inMode .choice
  let choiceSuccessful := recent.countP fun e => thisWeek e && e.inMode .choice && e.wasCorrect
  let activeMs := activeMilliseconds (recent.filter thisWeek)
  let topics := (weeklyRecall db events week).map fun row => (row.2.topic, row.1)
  { weekStart := formatDate week.startLocal
    weekEnd := formatDate (addDays week.startLocal 6)
    recallAttempts := recallAttempts
    recallSuccessful := recallSuccessful
    recallRate := percentage recallSuccessful recallAttempts
    previousRecallAttempts := previousAttempts
    previousRecallSuccessful := previousSuccessful
    previousRecallRate := percentage previousSuccessful previousAttempts
    choiceAttempts := choiceAttempts
    choiceSuccessful := choiceSuccessful
    choiceRate := percentage choiceSuccessful choiceAttempts
    reviews := recent.countP thisWeek
    lessons := db.lessonSessions.countP fun lesson =>
      lesson.userId = userId && lesson.status = .completed &&
        completedIn week.startUTC week.nextUTC lesson.completedAt
    activeMinutes := if activeMs > 0 then ((activeMs + 59999) / 60000).toNat else 0
    trend := recallTrend events offset week.startUTC
    weakTopics := weakEvidence collation topics
    strongTopic := strongEvidence collation topics }

end Weekly

section Queries
variable (lower : String → String) (collation : String → String → Bool)
variable (db : Snapshot) (now : Instant) (userId : UserId)

def modes (today : ReviewEvent → Bool) (events : List ReviewEvent) : ProgressModes where
  study := modeProgress today (·.inMode .study) (fun _ => false) events
  recalled := modeProgress today (·.inMode .recall) (·.wasCorrect) events
  choice := modeProgress today (·.inMode .choice) (·.wasCorrect) events
  legacy := modeProgress today (·.isLegacy) (fun e => 4 ≤ e.grade) events

def progress (offset : Int) : ProgressSummary :=
  let offset := clampOffset offset
  let week := weekOf now offset
  let events := userEvents db userId
  let today := isToday now offset
  let rows := joinWords db (·.wordId) (db.userWords.filter (·.userId = userId))
  let isDue (word : UserWord) := decide (word.dueAt ≤ micros now)
  let reviewBacklog := db.userWords.countP fun word =>
    word.userId = userId && word.status ≠ .new && isDue word
  let objective := inModes [.recall, .choice]
  let retained := retainedReviews db events (retentionWeekStart now offset)
  let streaks := calculateStreaks (reviewDays events offset) (dateOnly (localNow now offset))
  { dueNow := rows.countP fun row => isDue row.1
    dueWords := rows.countP fun row => row.2.kind = .word && isDue row.1
    duePhrases := rows.countP fun row => row.2.kind = .phrase && isDue row.1
    totalWords := rows.countP fun row => row.2.kind = .word
    totalPhrases := rows.countP fun row => row.2.kind = .phrase
    newWords := rows.countP fun row => row.2.kind = .word && row.1.status = .new
    learningWords := rows.countP fun row => row.2.kind = .word && row.1.status = .learning
    reviewWords := rows.countP fun row => row.2.kind = .word && row.1.status = .review
    masteredWords := rows.countP fun row => row.2.kind = .word && row.1.status = .mastered
    masteredPhrases := rows.countP fun row => row.2.kind = .phrase && row.1.status = .mastered
    reviewsToday := events.countP today
    successfulToday := events.countP fun e =>
      today e && (objective e && e.wasCorrect || e.isLegacy && 4 ≤ e.grade)
    objectiveReviewsToday := events.countP fun e => today e && objective e
    objectiveSuccessfulToday := events.countP fun e => today e && objective e && e.wasCorrect
    reviewsTotal := events.length
    dailyGoal := (db.preferences userId).elim 30 (·.dailyGoal)
    currentStreak := streaks.1
    longestStreak := streaks.2
    retainedItemsWeek := distinctWords (retained.map Prod.fst)
    retainedWordsWeek := distinctWords ((retained.filter (·.2.kind = .word)).map Prod.fst)
    retainedPhrasesWeek := distinctWords ((retained.filter (·.2.kind = .phrase)).map Prod.fst)
    modes := modes today events
    weekly := weeklyEvidence collation db userId events offset week
    processes := processEvidence week events reviewBacklog
    nextDueAt := ((rows.filter fun row => micros now < row.1.dueAt).map (·.1.dueAt)).min? }

def populateListeningProgress (offset : Int) (result : ProgressSummary) : ProgressSummary :=
  let offset := clampOffset offset
  let listening := modeProgress (isToday now offset) (·.inMode .listening) (·.wasCorrect)
    (userEvents db userId)
  { result with
    modes := { result.modes with listening }
    objectiveReviewsToday := result.objectiveReviewsToday + listening.attemptsToday
    objectiveSuccessfulToday := result.objectiveSuccessfulToday + listening.successfulToday
    successfulToday := result.successfulToday + listening.successfulToday }

def PartOfSpeech.text : PartOfSpeech → String
  | .noun => "noun"
  | .verb => "verb"
  | .adjective => "adjective"

/-- `lower(btrim(…))`, of the words that the composer can select by it. -/
def partOfSpeech (word : Word) : Option PartOfSpeech :=
  let name := lower (String.ofList
    ((word.partOfSpeech.toList.dropWhile (· = ' ')).rdropWhile (· = ' ')))
  if name = "n" ∨ name = "noun" then some .noun
  else if name = "v" ∨ name = "verb" then some .verb
  else if name = "adj" ∨ name = "adjective" then some .adjective
  else none

def populateWeakPartOfSpeechEvidence (offset : Int) (result : ProgressSummary) : ProgressSummary :=
  let week := weekOf now (clampOffset offset)
  let rows := ((weeklyRecall db (userEvents db userId) week).filter (·.2.kind = .word)).filterMap
    fun row => (partOfSpeech lower row.2).map fun name => (name, row.1)
  { result with
    weekly := { result.weekly with
      weakPartsOfSpeech := some (weakEvidence (fun a b => collation a.text b.text) rows) } }

/-- What the attempts of a learner at one scenario amount to. -/
structure AttemptHistory where
  completedCount : Nat
  lastCompletedAt : Option Instant
  openCount : Nat
  hasActiveAttempt : Bool
  openUpdatedAt : Option Instant

def attemptHistory (slug : String) : AttemptHistory :=
  let attempts := db.scenarioAttempts.filter fun attempt =>
    attempt.userId = userId && attempt.scenarioSlug = slug
  let completed := attempts.filter (·.status = .completed)
  let unfinished := attempts.filter (·.status.isOpen)
  { completedCount := completed.length
    lastCompletedAt := (completed.filterMap (·.completedAt)).max?
    openCount := unfinished.length
    hasActiveAttempt := unfinished.any (·.status = .active)
    openUpdatedAt := (unfinished.map (·.updatedAt)).max? }

def catalogOrder : ScenarioType → Nat
  | .incident => 1
  | .troubleshooting => 2
  | .architectureReview => 3
  | .dataPipeline => 4
  | .release => 5
  | .statusUpdate => 6

def reasonFor (history : AttemptHistory) : RecommendationReason :=
  if history.openCount > 0 then .resumeInProgress
  else if history.completedCount = 0 then .firstUncompleted
  else .leastRecentlyCompleted

def reasonOrder : RecommendationReason → Nat
  | .resumeInProgress => 0
  | .firstUncompleted => 1
  | .leastRecentlyCompleted => 2

/-- An order of values, behind which the rows without one come. -/
def nullsLast {α : Type} (le : α → α → Bool) : Option α → Option α → Bool
  | some a, some b => le a b
  | some _, none => true
  | none, some _ => false
  | none, none => true

/-- The keys of the ranking, one after the other. -/
def rankingOrder : Scenario × AttemptHistory → Scenario × AttemptHistory → Bool :=
  let onlyFor (reason : RecommendationReason) {α : Type} (h : AttemptHistory) (value : Option α) :=
    if reasonFor h = reason then value else none
  lexLe [fun a b => decide (reasonOrder (reasonFor a.2) ≤ reasonOrder (reasonFor b.2)),
    fun a b => a.2.hasActiveAttempt || !b.2.hasActiveAttempt,
    fun a b => nullsLast (fun t u => decide (u ≤ t)) a.2.openUpdatedAt b.2.openUpdatedAt,
    fun a b => nullsLast (fun m n => decide (m ≤ n))
      (onlyFor .firstUncompleted a.2 (some (catalogOrder a.1.scenarioType)))
      (onlyFor .firstUncompleted b.2 (some (catalogOrder b.1.scenarioType))),
    fun a b => nullsLast (fun t u => decide (t ≤ u))
      (onlyFor .leastRecentlyCompleted a.2 a.2.lastCompletedAt)
      (onlyFor .leastRecentlyCompleted b.2 b.2.lastCompletedAt),
    fun a b => decide (a.2.completedCount ≤ b.2.completedCount),
    fun a b => decide (catalogOrder a.1.scenarioType ≤ catalogOrder b.1.scenarioType),
    fun a b => collation a.1.slug b.1.slug]

def recommend (scenario : Scenario) (history : AttemptHistory) : ScenarioRecommendation where
  slug := scenario.slug
  type := scenario.scenarioType
  title := scenario.title
  estimatedMinutes := scenario.estimatedMinutes
  reason := reasonFor history
  action := if history.openCount > 0 then .resume else .start
  completedCount := history.completedCount
  lastCompletedAt := history.lastCompletedAt

def recommendation : Option ScenarioRecommendation :=
  ((orderBy (rankingOrder collation)
    ((db.scenarios.filter (·.isActive)).map fun scenario =>
      (scenario, attemptHistory db userId scenario.slug))).head?).map fun row => recommend row.1 row.2

def populateScenarioProgress (offset : Int) (result : ProgressSummary) : ProgressSummary :=
  let week := weekOf now (clampOffset offset)
  let completed := db.scenarioAttempts.filter fun attempt =>
    attempt.userId = userId && attempt.status = .completed
  { result with
    scenarios :=
      { completedThisWeek := completed.countP fun attempt =>
          completedIn week.startUTC week.nextUTC attempt.completedAt
        completedTotal := completed.length
        recommendation := recommendation collation db userId } }

def populateProgressExtensions (offset : Int) (result : ProgressSummary) : ProgressSummary :=
  populateScenarioProgress collation db now userId offset
    (populateWeakPartOfSpeechEvidence lower collation db now userId offset result)

/-- What the handlers answer with. -/
def progressResponse (offset : Int) : ProgressSummary :=
  populateProgressExtensions lower collation db now userId offset
    (populateListeningProgress db now userId offset (progress collation db now userId offset))

end Queries

end LearningProgress
