import LexiGo.Learning.LearningSchema
import Mathlib.Data.List.Sort

/-! How the words of a lesson are chosen from the candidates that a query found:
two queues in order of priority, merged by kind, cut to the wanted share of
reviews, and spread so that neither a topic nor a part of speech comes up too
often in a row. -/
namespace LessonComposer
open GoText AnswerJudgement Scheduler LearningSchema

structure LessonCandidate where
  wordId : WordId
  kind : WordKind
  status : WordStatus
  dueAt : Instant
  due : Bool
  topic : String
  partOfSpeech : String
  recentFailure : Bool
  weakTopic : Bool
  easiness : Nat := 0
  repeatedAgain : Bool := false
  repeatedAlmost : Bool := false
  overdue : Bool := false
  reasonOverride : Option SelectionReason := none
  deriving DecidableEq

structure LessonComposition where
  total : Nat := 0
  words : Nat := 0
  phrases : Nat := 0
  due : Nat := 0
  new : Nat := 0
  scheduled : Nat := 0
  recentFailures : Nat := 0
  weakTopics : Nat := 0
  reviewRatio : Nat
  availableWords : Nat
  availablePhrases : Nat
  fallback : String := ""
  deriving DecidableEq

def explicitLessonSelectionReason (candidate : LessonCandidate) : SessionKind → Option SelectionReason
  | .study => if candidate.status = .new then some .new else none
  | .review =>
    if candidate.status = .new || !candidate.due then none
    else if candidate.status = .learning then some .relearningDue
    else if candidate.repeatedAgain then some .repeatedAgain
    else if candidate.recentFailure then some .recentFailure
    else if candidate.overdue then some .overdue
    else some .due
  | .remediation =>
    if candidate.status = .new || candidate.due then none
    else if candidate.repeatedAgain then some .repeatedAgain
    else if candidate.recentFailure then some .recentFailure
    else if candidate.repeatedAlmost then some .repeatedAlmost
    else if candidate.weakTopic then some .weakTopic
    else none

def filterLessonCandidatesForSession (candidates : List LessonCandidate) (kind : SessionKind) :
    List LessonCandidate :=
  candidates.filterMap fun candidate =>
    (explicitLessonSelectionReason candidate kind).map fun reason =>
      { candidate with reasonOverride := some reason }

def lessonCandidateReason (candidate : LessonCandidate) : SelectionReason :=
  match candidate.reasonOverride with
  | some reason => reason
  | none =>
    if candidate.recentFailure then .recentFailure
    else if candidate.due then .due
    else if candidate.weakTopic then .weakTopic
    else if candidate.status = .new then .new
    else .scheduled

def maxLessonCandidatePriority : Nat := 4

def lessonCandidatePriority (candidate : LessonCandidate) : Nat :=
  match lessonCandidateReason candidate with
  | .recentFailure | .relearningDue | .repeatedAgain => 0
  | .due | .overdue => 1
  | .weakTopic | .repeatedAlmost => 2
  | .new => 3
  | .scheduled | .manual => 4

/-- The first may stand before the second: nothing puts the second before it. -/
def queueBefore (left right : LessonCandidate) : Bool :=
  let l := lessonCandidatePriority left
  let r := lessonCandidatePriority right
  if l ≠ r then l < r
  else if left.dueAt ≠ right.dueAt then left.dueAt < right.dueAt
  else if left.easiness ≠ right.easiness then left.easiness < right.easiness
  else left.wordId ≤ right.wordId

def sortLessonQueue (queue : List LessonCandidate) : List LessonCandidate :=
  queue.insertionSort fun left right => queueBefore left right

def candidatesAtPriority (candidates : List LessonCandidate) (priority : Nat) :
    List LessonCandidate :=
  candidates.filter fun candidate => lessonCandidatePriority candidate = priority

/-- Words and phrases in turn, as long as there are both, up to `limit` of them. -/
def alternateLessonKinds : Nat → List LessonCandidate → List LessonCandidate → WordKind →
    List LessonCandidate
  | 0, _, _, _ => []
  | _ + 1, [], [], _ => []
  | limit + 1, word :: words, phrases, .word =>
    word :: alternateLessonKinds limit words phrases .phrase
  | limit + 1, words, phrase :: phrases, .phrase =>
    phrase :: alternateLessonKinds limit words phrases .word
  | limit + 1, word :: words, [], .phrase => word :: alternateLessonKinds limit words [] .phrase
  | limit + 1, [], phrase :: phrases, .word => phrase :: alternateLessonKinds limit [] phrases .word

def startKind (selected words phrases : List LessonCandidate) : WordKind :=
  match selected.getLast? with
  | some last => if last.kind = .word then .phrase else .word
  | none => if words.length < phrases.length then .phrase else .word

def composeMixedPriorityTiers (words phrases : List LessonCandidate) (limit : Nat) :
    List LessonCandidate :=
  (List.range (maxLessonCandidatePriority + 1)).foldl (fun selected priority =>
    if limit ≤ selected.length then selected
    else
      let tierWords := candidatesAtPriority words priority
      let tierPhrases := candidatesAtPriority phrases priority
      if tierWords.isEmpty && tierPhrases.isEmpty then selected
      else selected ++ alternateLessonKinds (limit - selected.length) tierWords tierPhrases
        (startKind selected tierWords tierPhrases)) []

/-- The first `reviews` candidates that are not new and the first `news` that are,
in the order in which they come, and no more than `limit`. -/
def takeQuota : Nat → Nat → Nat → List LessonCandidate → List LessonCandidate
  | 0, _, _, _ => []
  | _ + 1, _, _, [] => []
  | limit + 1, reviews, news, candidate :: rest =>
    if candidate.status = .new then
      match news with
      | 0 => takeQuota (limit + 1) reviews 0 rest
      | news + 1 => candidate :: takeQuota limit reviews news rest
    else
      match reviews with
      | 0 => takeQuota (limit + 1) 0 news rest
      | reviews + 1 => candidate :: takeQuota limit reviews news rest

def normalizeLessonReviewRatio (value : Int) : Nat := (min value 100).toNat

def applyLessonReviewRatio (ordered : List LessonCandidate) (limit reviewRatio : Nat) :
    List LessonCandidate :=
  let limit := if limit = 0 || ordered.length < limit then ordered.length else limit
  let reviewAvailable := ordered.countP fun candidate => candidate.status ≠ .new
  let newAvailable := ordered.length - reviewAvailable
  let desiredReview := (limit * normalizeLessonReviewRatio reviewRatio + 99) / 100
  let reviewTake := min desiredReview reviewAvailable
  let newTake := min (limit - reviewTake) newAvailable
  let remaining := limit - reviewTake - newTake
  let extraReview := min remaining (reviewAvailable - reviewTake)
  let extraNew := min (remaining - extraReview) (newAvailable - newTake)
  takeQuota limit (reviewTake + extraReview) (newTake + extraNew) ordered

section Diversify
variable (unicode : Unicode)

/-- `strings.ToLower(strings.TrimSpace(value))` -/
def normalized (value : String) : String :=
  String.ofList ((trimSpace value).toList.map unicode.toLower)

/-- The candidates before this one, newest first, have had its value in `field`
often enough. -/
def createsStringStreak (before : List LessonCandidate) (candidate : LessonCandidate)
    (maxStreak : Nat) (field : LessonCandidate → String) : Bool :=
  let value := normalized unicode (field candidate)
  value ≠ "" && maxStreak ≤ before.length &&
    (before.take maxStreak).all fun previous => normalized unicode (field previous) = value

def createsLessonDimensionStreak (before : List LessonCandidate) (candidate : LessonCandidate)
    (maxStreak : Nat) : Bool :=
  createsStringStreak unicode before candidate maxStreak LessonCandidate.topic ||
    createsStringStreak unicode before candidate maxStreak LessonCandidate.partOfSpeech

/-- Where the first candidate stands that could come instead: of the same priority
as its predecessors, and without a streak. -/
def findAlternative (before : List LessonCandidate) (maxStreak priority : Nat) :
    List LessonCandidate → Option Nat
  | [] => none
  | candidate :: rest =>
    if lessonCandidatePriority candidate ≠ priority then none
    else if createsLessonDimensionStreak unicode before candidate maxStreak then
      (findAlternative before maxStreak priority rest).map (· + 1)
    else some 0

/-- One turn of the loop for each candidate that is left. -/
def diversifyFrom (maxStreak : Nat) : Nat → List LessonCandidate → List LessonCandidate →
    List LessonCandidate
  | 0, before, _ => before.reverse
  | _ + 1, before, [] => before.reverse
  | turns + 1, before, candidate :: rest =>
    if !createsLessonDimensionStreak unicode before candidate maxStreak then
      diversifyFrom maxStreak turns (candidate :: before) rest
    else
      match findAlternative unicode before maxStreak (lessonCandidatePriority candidate) rest with
      | none => diversifyFrom maxStreak turns (candidate :: before) rest
      | some n =>
        diversifyFrom maxStreak turns ((rest[n]?.getD candidate) :: before) (rest.set n candidate)

def diversifyLessonDimensions (queue : List LessonCandidate) (maxStreak : Nat) :
    List LessonCandidate :=
  if queue.length < 3 || maxStreak < 1 then queue
  else diversifyFrom unicode maxStreak queue.length [] queue

end Diversify

def LessonComposition.count (composition : LessonComposition) (candidate : LessonCandidate) :
    LessonComposition :=
  let isNew := candidate.status = .new
  { composition with
    total := composition.total + 1
    words := composition.words + if candidate.kind = .phrase then 0 else 1
    phrases := composition.phrases + if candidate.kind = .phrase then 1 else 0
    due := composition.due + if candidate.due then 1 else 0
    new := composition.new + if isNew then 1 else 0
    scheduled := composition.scheduled +
      if !isNew && lessonCandidateReason candidate = .scheduled then 1 else 0
    recentFailures := composition.recentFailures + if candidate.recentFailure then 1 else 0
    weakTopics := composition.weakTopics + if candidate.weakTopic then 1 else 0 }

def maxLessonDimensionStreak : Nat := 2

def composeLessonCandidates (unicode : Unicode) (candidates : List LessonCandidate)
    (source : String) (limit : Nat) (reviewRatio : Nat) : List LessonCandidate × LessonComposition :=
  let ratio := normalizeLessonReviewRatio reviewRatio
  let phraseQueue := sortLessonQueue (candidates.filter fun candidate => candidate.kind = .phrase)
  let wordQueue := sortLessonQueue (candidates.filter fun candidate => candidate.kind ≠ .phrase)
  let composition : LessonComposition :=
    { reviewRatio := ratio
      availableWords := wordQueue.length
      availablePhrases := phraseQueue.length }
  if wordQueue.isEmpty && phraseQueue.isEmpty then ([], { composition with fallback := "empty" })
  else
    let fallback :=
      if source ≠ "mixed" then ""
      else if wordQueue.isEmpty then "phrases_only"
      else if phraseQueue.isEmpty then "words_only"
      else ""
    let limit := if limit = 0 || candidates.length < limit then candidates.length else limit
    let ordered :=
      if source = "mixed" then composeMixedPriorityTiers wordQueue phraseQueue candidates.length
      else if source = "phrases" then phraseQueue
      else wordQueue
    let selected := diversifyLessonDimensions unicode (applyLessonReviewRatio ordered limit ratio)
      maxLessonDimensionStreak
    (selected, selected.foldl LessonComposition.count { composition with fallback := fallback })

end LessonComposer
