import LexiGo.Onboarding.OnboardingSchema
import Mathlib.Data.List.Sort

/-! The transactions of the onboarding: starting the diagnostic, marking its items one
after the other, completing it and skipping it. The order that the digests of the
candidates give them is a parameter. -/
namespace OnboardingRepository
open RowStore TransactionProgram WiderSchema GoText AnswerJudgement Scheduler
open OnboardingSchema DiagnosticSelection
open LessonRepository (referenceWord)
open LearningSchema (UserId WordId UserWordRow WordRow)

def diagnosticOnboardingItemLimit : Int := 12

def preferencesOf (u : UserId) (db : OnboardingDb) : Option PreferenceRow :=
  db.lookup (preferencesKey u)

def diagnosticAt (u : UserId) (position : Nat) (db : OnboardingDb) : Option DiagnosticRow :=
  db.lookup (diagnosticKey u position)

def wordAt (w : WordId) (db : OnboardingDb) : Option WordRow := db.lookup (wordKey w)

def facetsAt (w : WordId) (db : OnboardingDb) : Option WordFacets := db.lookup (.inr (.facets w))

def stateOf (u : UserId) (db : OnboardingDb) : OnboardingState :=
  (preferencesOf u db).elim .notStarted PreferenceRow.onboardingState

/-- The items of a user that satisfy `p`, by their positions. -/
def itemsOf (u : UserId) (p : DiagnosticRow → Bool) (db : OnboardingDb) :
    List (Nat × DiagnosticRow) :=
  let rows := (rowsWhere (diagnosticItems fun u' _ r => u' = u && p r) db).filterMap fun
    | .inr (.diagnostic _ position) => (diagnosticAt u position db).map fun r => (position, r)
    | _ => none
  rows.insertionSort fun s s' => s.1 ≤ s'.1

def isMarked (r : DiagnosticRow) : Bool := r.marking.isSome

def isUnmarked (r : DiagnosticRow) : Bool := r.marking.isNone

/-- `count(*)` and `count(*) filter (where self_mark is not null)` -/
def progress (u : UserId) (db : OnboardingDb) : Nat × Nat :=
  ((itemsOf u (fun _ => true) db).length, (itemsOf u isMarked db).length)

/-- An item joined to its word. -/
def prompt (db : OnboardingDb) : Nat × DiagnosticRow → Option DiagnosticPrompt
  | (position, r) => do
    let word ← wordAt r.wordId db
    let facets ← facetsAt r.wordId db
    return ⟨position, r.wordId, word.kind, facets.lemmaText, facets.phonetic, facets.partOfSpeech,
      word.topic⟩

def currentPrompt (u : UserId) (db : OnboardingDb) : Option DiagnosticPrompt :=
  (itemsOf u isUnmarked db).findSome? (prompt db)

/-- Up to three queries, each with a snapshot of its own. -/
def onboardingStatus (u : UserId) : OnboardingProg (Reply OnboardingSnapshot) := do
  let state ← select (stateOf u)
  let (total, marked) ← select (progress u)
  if state ≠ .inProgress then
    return .ok ⟨state, total, marked, none⟩
  else
    let current ← select (currentPrompt u)
    return .ok ⟨state, total, marked, current⟩

def lockOnboarding (u : UserId) : OnboardingProg Unit := lockRow (onboardingKey u) .update

def lockPreferences (u : UserId) : OnboardingProg (Option PreferenceRow) :=
  selectFor (preferencesKey u) .update fun _ => true

def updatePreferences (u : UserId) (g : PreferenceRow → PreferenceRow) :
    OnboardingProg (Option PreferenceRow) :=
  updateRow (preferencesKey u) .noKeyUpdate (fun _ => true) g

section Starting
variable (unicode : Unicode) (digest : UserId → WordId → Nat)

def kindText : WordKind → String
  | .word => "word"
  | .phrase => "phrase"

def candidate (db : OnboardingDb) (w : WordId) : Option DiagnosticCandidate := do
  let word ← wordAt w db
  let facets ← facetsAt w db
  return ⟨w, kindText word.kind, facets.lemmaText, facets.phonetic, facets.partOfSpeech, word.topic⟩

/-- `order by md5(user || ':' || word), word limit 120` -/
def diagnosticCandidates (u : UserId) (db : OnboardingDb) : List DiagnosticCandidate :=
  let learned := (rowsWhere (fun | .inl (.userWord u' _), _ => u' = u | _, _ => false) db).filterMap fun
    | .inl (.userWord _ w) => some w
    | _ => none
  let ordered := learned.insertionSort fun w w' =>
    digest u w < digest u w' ∨ digest u w = digest u w' ∧ w ≤ w'
  (ordered.filterMap (candidate db)).take 120

/-- `onboarding_diagnostic_position_chk`, the unique index on the words of a user, and
the foreign key of the word. -/
def insertItem (u : UserId) (position : Nat) (w : WordId) : OnboardingProg Bool := do
  if 30 ≤ position then return false
  else if ← select fun db => !(itemsOf u (fun r => r.wordId = w) db).isEmpty then return false
  else if ← insertRow (diagnosticKey u position) { wordId := w } then
    lift (fun _ => []) (referenceWord w)
  else return false

def insertItems (u : UserId) : Nat → List WordId → OnboardingProg Bool
  | _, [] => return true
  | position, w :: rest => do
    if ← insertItem u position w then insertItems u (position + 1) rest else return false

def startDiagnostic (u : UserId) : OnboardingProg (Reply OnboardingSnapshot) := do
  let candidates ← select (diagnosticCandidates digest u)
  let selected := (selectDiagnosticCandidates unicode candidates diagnosticOnboardingItemLimit).map
    fun candidate => candidate.wordId.toNat
  if selected = [] then
    leave (.error .noCandidates)
  else
    let _ ← deleteWhere (diagnosticItems fun u' _ _ => u' = u)
    if ← insertItems u 0 selected then
      let now ← choose
      let _ ← updatePreferences u (PreferenceRow.begin now)
      commit [.started u selected]
      onboardingStatus u
    else
      leave (.error .internal)

def startFrom (u : UserId) (state : OnboardingState) : OnboardingProg (Reply OnboardingSnapshot) :=
  if state = .inProgress ∨ state = .completed then do
    commit [.startKept u]
    onboardingStatus u
  else startDiagnostic unicode digest u

def startOnboarding (u : UserId) : OnboardingProg (Reply OnboardingSnapshot) := do
  lockOnboarding u
  match ← lockPreferences u with
  | some r => startFrom unicode digest u r.onboardingState
  | none =>
    if ← insertRow (preferencesKey u) {} then startFrom unicode digest u .notStarted
    else leave (.error .internal)

end Starting

/-- The item of a position with the translation of its word, unless it is marked. -/
def currentAt (u : UserId) (position : Nat) (db : OnboardingDb) :
    Option (Nat × DiagnosticRow × String) := do
  let r ← (diagnosticAt u position db).filter isUnmarked
  let word ← wordAt r.wordId db
  return (position, r, word.translation)

/-- `… where self_mark is null order by position limit 1 for update`: the first of the
positions chosen whose item, once it is locked, is still there and unmarked. -/
def lockCurrent (u : UserId) : List Nat → OnboardingProg (Option (Nat × DiagnosticRow × String))
  | [] => return none
  | position :: rest => do
    lockRow (diagnosticKey u position) .update
    match ← select (currentAt u position) with
    | some found => return some found
    | none => lockCurrent u rest

/-- `update onboarding_diagnostic_items … where user_id = u and word_id = w` -/
def markItem (u : UserId) (w : WordId) (selfMark : DiagnosticSelfMark) (now : Instant) :
    OnboardingProg (List Key) := do
  let seen ← select (rowsWhere (diagnosticItems fun u' _ r => u' = u && r.wordId = w))
  updateRows .noKeyUpdate (diagnosticItems fun u' _ r => u' = u && r.wordId = w)
    (onItem (DiagnosticRow.mark selfMark now)) seen

def markCurrent (u : UserId) (w : WordId) (selfMark : DiagnosticSelfMark) (translation : String) :
    OnboardingProg (Reply DiagnosticMarkResult) := do
  let now ← choose
  let _ ← markItem u w selfMark now
  let (total, marked) ← select (progress u)
  commit [.marked u w selfMark]
  return .ok ⟨marked, total, 0 < total && marked = total, ⟨w, translation⟩⟩

def markOnboardingItem (u : UserId) (w : WordId) (selfMark : DiagnosticSelfMark) :
    OnboardingProg (Reply DiagnosticMarkResult) := do
  lockOnboarding u
  let some preferences ← lockPreferences u | leave (.error .notInProgress)
  if preferences.onboardingState ≠ .inProgress then
    leave (.error .notInProgress)
  else
    let unmarked ← select fun db => (itemsOf u isUnmarked db).map Prod.fst
    match ← lockCurrent u unmarked with
    | none => leave (.error .incomplete)
    | some (_, r, translation) =>
      if r.wordId ≠ w then leave (.error .itemOutOfOrder)
      else markCurrent u w selfMark translation

/-- `diagnosticInitialization`, where it applies. -/
structure DiagnosticInitialization where
  status : WordStatus
  easiness : Nat
  intervalDays : Nat
  repetitions : Nat
  dueAfter : Int

def diagnosticInitializationForMark : DiagnosticSelfMark → Option DiagnosticInitialization
  | .known => some ⟨.review, 260, 7, 1, 7 * 24 * hour⟩
  | .unsure => some ⟨.learning, 240, 1, 0, 24 * hour⟩
  | .new => none

def DiagnosticInitialization.apply (policy : DiagnosticInitialization) (now : Instant)
    (r : UserWordRow) : UserWordRow :=
  { r with
    status := policy.status
    easiness := policy.easiness
    intervalDays := policy.intervalDays
    repetitions := policy.repetitions
    dueAt := micros (now + policy.dueAfter) }

/-- What the completion makes of a learned word, by the marks that the words have. -/
def initialRow (marks : List (WordId × DiagnosticSelfMark)) (now : Instant) (w : WordId)
    (r : UserWordRow) : UserWordRow :=
  if r.status = .new then
    ((marks.find? fun mark => mark.1 = w).bind fun mark =>
      diagnosticInitializationForMark mark.2).elim r fun policy => policy.apply now r
  else r

/-- The items at the positions chosen that are still there once they are locked. -/
def lockItems (u : UserId) : List Nat → OnboardingProg (List DiagnosticRow)
  | [] => return []
  | position :: rest => do
    lockRow (diagnosticKey u position) .update
    let now ← select (diagnosticAt u position)
    let others ← lockItems u rest
    return now.toList ++ others

def initializeWords (u : UserId) (now : Instant) : List (WordId × DiagnosticSelfMark) → OnboardingProg Unit
  | [] => return ()
  | (w, selfMark) :: rest => do
    match diagnosticInitializationForMark selfMark with
    | none => initializeWords u now rest
    | some policy =>
      let _ ← updateRow (userWordKey u w) .noKeyUpdate (fun r => r.status = .new) (policy.apply now)
      initializeWords u now rest

/-- The words of the items with their marks, if every item has one. -/
def marksOf : List DiagnosticRow → Option (List (WordId × DiagnosticSelfMark))
  | [] => some []
  | r :: rest => do
    let marking ← r.marking
    let others ← marksOf rest
    return (r.wordId, marking.selfMark) :: others

def completeOnboarding (u : UserId) : OnboardingProg (Reply OnboardingSnapshot) := do
  lockOnboarding u
  let some preferences ← lockPreferences u | leave (.error .notInProgress)
  if preferences.onboardingState = .completed then
    commit [.completeKept u]
    onboardingStatus u
  else if preferences.onboardingState ≠ .inProgress then
    leave (.error .notInProgress)
  else
    let positions ← select fun db => (itemsOf u (fun _ => true) db).map Prod.fst
    let items ← lockItems u positions
    if items = [] then
      leave (.error .incomplete)
    else
      let some marks := marksOf items | leave (.error .incomplete)
      let now ← choose
      initializeWords u now marks
      let _ ← updatePreferences u (PreferenceRow.complete now)
      commit [.completed u]
      onboardingStatus u

def skipOnboarding (u : UserId) : OnboardingProg (Reply OnboardingSnapshot) := do
  lockOnboarding u
  let now ← choose
  match ← lockPreferences u with
  | none =>
    if ← insertRow (preferencesKey u) (PreferenceRow.skip now {}) then
      commit [.skipped u]
      onboardingStatus u
    else
      leave (.error .internal)
  | some r =>
    if r.onboardingState = .completed then
      commit [.skipKept u]
      onboardingStatus u
    else
      let _ ← updatePreferences u (PreferenceRow.skip now)
      commit [.skipped u]
      onboardingStatus u

/-- `insert … on conflict (user_id) do update`, for any goal that the handler lets through. -/
def setDailyGoal (u : UserId) (goal : Nat) : OnboardingProg (Reply Unit) := do
  if ← insertRow (preferencesKey u) { dailyGoal := goal } then
    commit [.goalSet u goal]
    return .ok ()
  else
    let _ ← updatePreferences u fun r => { r with dailyGoal := goal }
    commit [.goalSet u goal]
    return .ok ()

/-- Deleting a private word takes the diagnostic items that ask about it along. -/
def deleteCustom (kind : WordKind) (missing : LessonRepository.LessonError) (u : UserId)
    (w : WordId) : OnboardingProg (LessonRepository.Reply Unit) := do
  let dbNow ← choose
  let _ ← lift (fun _ => []) (CustomWords.discardUsing u w dbNow)
  let some _ ← lift (fun _ => []) (CustomWords.lockWord w (CustomWords.isCustom u kind)) |
    leave (.error missing)
  writeRow (wordKey w) .update none
  lift (fun _ => []) (CustomWords.cascadeWord w)
  let _ ← deleteWhere (diagnosticItems fun _ _ r => r.wordId = w)
  writeRow (.inr (.facets w)) .update none
  commit [.wordDeleted u w]
  return .ok ()

end OnboardingRepository
