import LexiGo.Learning.LessonCreation
import LexiGo.Learning.LessonSelection
import LexiGo.Words.CatalogSources
import Mathlib.Data.List.Dedup

/-! The two validators that a new lesson has to pass: the handler's, in the words
of the request, and the constraints on the tables, in the words of the rows. In
between stands the whole creation, from the candidates to the inserts. -/
namespace LessonConstraints
open RowStore GoText AnswerJudgement Scheduler LearningSchema LessonRepository LessonCreation
open LessonSelection
open scoped List
open CatalogSources (sourceMatches learningSources)
open WordCatalog (CatalogWord catalogSource)
open LessonComposer (LessonCandidate filterLessonCandidatesForSession lessonCandidateReason)

section Request

structure HttpError where
  status : Nat
  code : String
  message : String
  deriving DecidableEq

structure LessonCreateBody where
  source : String
  studyMode : String
  sessionKind : String := ""
  lessonSize : String
  topic : String := ""
  wordIds : Option (List Int) := none
  reviewRatio : Option Int := none

def studyModeOf : String → Option AnswerMode
  | "study" => some .study
  | "recall" => some .recall
  | "choice" => some .choice
  | "listening" => some .listening
  | _ => none

/-- The kind may be left out. -/
def sessionKindOf : String → Option (Option SessionKind)
  | "" => some none
  | "study" => some (some .study)
  | "review" => some (some .review)
  | "remediation" => some (some .remediation)
  | _ => none

def validLessonSize (value : String) : Bool := value ∈ ["15", "30", "50", "all"]

def uniquePositiveWordIds (values : List Int) : Bool := values.all (0 < ·) && values.Nodup

def validWordIds (ids : Option (List Int)) : Bool :=
  ids.all fun ids => ids.length ≠ 0 && ids.length ≤ 60 && uniquePositiveWordIds ids

/-- The checks of the handler, in its order, and the request that they let through. -/
def acceptLesson (body : LessonCreateBody) : Except HttpError LessonCreateRequest :=
  if body.source ∉ learningSources then
    .error ⟨422, "invalid_source", "source must be a supported vocabulary or phrase collection"⟩
  else match studyModeOf body.studyMode with
  | none =>
    .error ⟨422, "invalid_study_mode", "studyMode must be study, recall, choice or listening"⟩
  | some studyMode =>
    if !validLessonSize body.lessonSize then
      .error ⟨422, "invalid_lesson_size", "lessonSize must be 15, 30, 50 or all"⟩
    else if 120 < (trimSpace body.topic).utf8ByteSize then
      .error ⟨422, "invalid_topic", "topic must contain at most 120 characters"⟩
    else if body.reviewRatio.any fun ratio => ratio < 0 || 100 < ratio then
      .error ⟨422, "invalid_review_ratio", "reviewRatio must be between 0 and 100"⟩
    else match sessionKindOf body.sessionKind with
    | none =>
      .error ⟨422, "invalid_session_kind",
        "sessionKind must be omitted or one of study, review or remediation"⟩
    | some sessionKind =>
      if !validWordIds body.wordIds then
        .error ⟨422, "invalid_word_ids",
          "wordIds must be omitted or contain between 1 and 60 unique positive ids"⟩
      else .ok
        { source := body.source
          studyMode := studyMode
          sessionKind := sessionKind
          lessonSize := body.lessonSize
          topic := body.topic
          wordIds := body.wordIds.map fun ids => ids.map Int.toNat
          reviewRatio := body.reviewRatio }

end Request

section Columns

def studyModeText : AnswerMode → String
  | .study => "study"
  | .recall => "recall"
  | .choice => "choice"
  | .listening => "listening"

def sessionKindText : SessionKind → String
  | .study => "study"
  | .review => "review"
  | .remediation => "remediation"

def statusText : LessonStatus → String
  | .active => "active"
  | .completed => "completed"
  | .discarded => "discarded"

def ratingText : Rating → String
  | .again => "again"
  | .almost => "almost"
  | .known => "known"

def selectionReasonText : SelectionReason → String
  | .recentFailure => "recent_failure"
  | .due => "due"
  | .overdue => "overdue"
  | .relearningDue => "relearning_due"
  | .repeatedAgain => "repeated_again"
  | .repeatedAlmost => "repeated_almost"
  | .weakTopic => "weak_topic"
  | .new => "new"
  | .scheduled => "scheduled"
  | .manual => "manual"

/-- The `CHECK`s of `lesson_sessions`, as the migrations have left them. -/
def sessionChecks (r : LessonRow) : Bool :=
  r.source ∈ ["mixed", "noun", "verb", "adjective", "phrases", "daily-life", "travel",
      "data-engineering", "backend", "academic-technical-english"] &&
    studyModeText r.studyMode ∈ ["study", "recall", "choice", "listening"] &&
    r.lessonSize ∈ storableSizes && statusText r.status ∈ ["active", "completed", "discarded"] &&
    0 < r.version && r.reviewRatio ≤ 100 &&
    (r.sessionKind.all fun kind => sessionKindText kind ∈ ["study", "review", "remediation"])

/-- The `CHECK`s of `lesson_session_items`; a position is a natural number here. -/
def itemChecks (r : ItemRow) : Bool :=
  (r.rating.all fun rating => ratingText rating ∈ ["again", "almost", "known"]) &&
    r.selectionReason.all fun reason => selectionReasonText reason ∈
      ["recent_failure", "due", "overdue", "relearning_due", "repeated_again", "repeated_almost",
        "weak_topic", "new", "scheduled", "manual"]

end Columns

section Candidates

/-- What the joins with `review_events` say of a word, and its part of speech. -/
structure Signals where
  partOfSpeech : String := ""
  recentFailure : Bool := false
  weakTopic : Bool := false
  repeatedAgain : Bool := false
  repeatedAlmost : Bool := false

variable (unicode : Unicode) (lower : String → String) (signals : WordId → Signals) (now : Instant)
  (u : UserId) (request : LessonCreateRequest) (db : LearningDb)

def immediateLessonContinuationWindow : Int := 1800000000000
def lessonOverdueWindow : Int := 86400000000000

/-- The words of the lesson like this one that `u` completed last, if that was a
moment ago; the kind of session counts where the request has one. -/
def recentCompletedLessonWordIds : List WordId :=
  let like := fun (_ : LessonId) (r : LessonRow) => r.userId = u && r.status = .completed &&
    r.source = request.source && r.studyMode = request.studyMode &&
    (r.completedAt.any fun t => now - immediateLessonContinuationWindow ≤ t) &&
    request.sessionKind.all fun kind => r.sessionKind = some kind
  let found := (rowsWhere (lessons like) db).filterMap fun
    | .lesson l => (db.lookup (.lesson l) : Option LessonRow).bind fun r =>
      r.completedAt.map fun t => (l, t)
    | _ => none
  match (found.insertionSort fun a b => b.2 < a.2 ∨ b.2 = a.2 ∧ b.1 ≤ a.1).head? with
  | none => []
  | some (l, _) => (orderedItems l db).map Prod.fst

def catalogWord (w : WordId) (r : WordRow) : CatalogWord where
  headword := ""
  translation := r.translation
  partOfSpeech := (signals w).partOfSpeech
  topic := r.topic
  source := r.source
  kind := r.kind
  owner := r.owner

/-- The conditions that both candidate queries share. -/
def considers (w : WordId) (r : WordRow) : Bool :=
  sourceMatches lower (fun r => r.source = catalogSource) request.source (catalogWord signals w r) &&
    (trimSpace request.topic = "" || r.topic = trimSpace request.topic) &&
    w ∉ recentCompletedLessonWordIds now u request db

def legacyCandidate (w : WordId) (r : WordRow) (state : UserWordRow) : LessonCandidate where
  wordId := w
  kind := r.kind
  status := state.status
  dueAt := state.dueAt
  due := state.status ≠ .new && state.dueAt ≤ now
  topic := r.topic
  partOfSpeech := (signals w).partOfSpeech
  recentFailure := (signals w).recentFailure
  weakTopic := (signals w).weakTopic

def explicitCandidate (w : WordId) (r : WordRow) (state : UserWordRow) : LessonCandidate :=
  { legacyCandidate signals now w r state with
    easiness := state.easiness
    repeatedAgain := (signals w).repeatedAgain
    repeatedAlmost := (signals w).repeatedAlmost
    overdue := state.status ≠ .new && state.dueAt ≤ now - lessonOverdueWindow }

/-- `user_words join words`, for one user, and one candidate for each row that is
let through. -/
def joinWords (candidate : WordId → WordRow → UserWordRow → Option LessonCandidate) :
    List LessonCandidate :=
  (candidateWords u db).filterMap fun w =>
    match (db.lookup (.word w) : Option WordRow), (db.lookup (.userWord u w) : Option UserWordRow) with
    | some r, some state => candidate w r state
    | _, _ => none

def queryLessonCandidates : List LessonCandidate :=
  joinWords u db fun w r state =>
    if considers lower signals now u request db w r &&
        (!request.studyMode.objective || state.dueAt ≤ now) then
      some (legacyCandidate signals now w r state)
    else none

def queryExplicitLessonCandidates : List LessonCandidate :=
  joinWords u db fun w r state =>
    if considers lower signals now u request db w r then some (explicitCandidate signals now w r state)
    else none

def queryLessonCandidatesForSession : List LessonCandidate :=
  match request.sessionKind with
  | none => queryLessonCandidates lower signals now u request db
  | some kind => filterLessonCandidatesForSession
      (queryExplicitLessonCandidates lower signals now u request db) kind

/-- The words of the lesson, each with its reason. -/
def selection : Except LessonError Selection :=
  match request.wordIds with
  | none =>
    let candidates := queryLessonCandidatesForSession lower signals now u request db
    let selected := (LessonComposer.composeLessonCandidates unicode candidates request.source
      (lessonSizeLimit request.lessonSize candidates.length)
      (resolveLessonReviewRatio request.reviewRatio)).1
    if selected.isEmpty then .error .lessonQueueEmpty
    else .ok (selected.map fun candidate => (candidate.wordId, lessonCandidateReason candidate))
  | some ids =>
    let assigned := (ids.dedup.filter fun w => (db.lookup (.userWord u w)).isSome).length
    if assigned ≠ ids.length then .error .invalidLessonWords
    else .ok (ids.map fun w => (w, .manual))

inductive Creation
  | resumed (l : LessonId)
  | created (session : LessonRow) (items : List (WordId × ItemRow))
  | refused (e : LessonError)
  | constraintFailure
  deriving DecidableEq

def itemRows (selected : Selection) : List (WordId × ItemRow) :=
  selected.zipIdx.map fun entry =>
    (entry.1.1, { position := entry.2, selectionReason := some entry.1.2 })

/-- Both inserts: the checks of their rows, the primary key and the unique index of
the items, and the reference of each item to its word. -/
def insertRows (session : LessonRow) (items : List (WordId × ItemRow)) : Creation :=
  if !sessionChecks session then .constraintFailure
  else if !(items.all fun item => itemChecks item.2) then .constraintFailure
  else if !((items.map fun item => item.2.position).Nodup && (items.map Prod.fst).Nodup) then
    .constraintFailure
  else if !(items.all fun item => (db.lookup (.word item.1)).isSome) then .constraintFailure
  else .created session items

/-- The transaction, with nobody else at work. -/
def createProgressiveLesson : Creation :=
  match newestLesson (fun l r => repeats u request now r && repeatsItems request db l) db with
  | some l => .resumed l
  | none =>
    match selection unicode lower signals now u request db with
    | .error e => .refused e
    | .ok selected => insertRows db (newLesson u request now) (itemRows selected)

/-- A lesson, or one of the two errors that the handler has an answer for. -/
def Creation.documented : Creation → Prop
  | .resumed _ | .created _ _ => True
  | .refused e => e = .lessonQueueEmpty ∨ e = .invalidLessonWords
  | .constraintFailure => False

/-- The creation comes as far as its inserts: there is no recent lesson to resume,
and the queue has a word for it, or the words are those of the user. -/
def ReachesInsert : Prop :=
  newestLesson (fun l r => repeats u request now r && repeatsItems request db l) db = none ∧
    match request.wordIds with
    | none => queryLessonCandidatesForSession lower signals now u request db ≠ []
    | some ids => ∀ w ∈ ids, (db.lookup (.userWord u w)).isSome

end Candidates

section Rows
variable {body : LessonCreateBody} {request : LessonCreateRequest}

theorem toNat_nodup {ids : List Int} (hpos : ∀ i ∈ ids, 0 < i) (h : ids.Nodup) :
    (ids.map Int.toNat).Nodup := by
  refine List.Nodup.map_on (fun a ha b hb hab => ?_) h
  have ha' := hpos a ha
  have hb' := hpos b hb
  omega

/-- What the inserts rely on of a request that the handler lets through. -/
theorem acceptLesson_ok (h : acceptLesson body = .ok request) :
    request.source ∈ learningSources ∧ request.lessonSize = body.lessonSize ∧
      validLessonSize body.lessonSize = true ∧
      ∀ ids, request.wordIds = some ids → ids.Nodup := by
  unfold acceptLesson at h
  split at h
  · cases h
  rename_i hsource
  split at h
  · cases h
  split at h
  · cases h
  rename_i hsize
  split at h
  · cases h
  split at h
  · cases h
  split at h
  · cases h
  split at h
  · cases h
  rename_i hids
  cases h
  refine ⟨by simpa using hsource, rfl, by simpa using hsize, fun ids hmap => ?_⟩
  obtain ⟨values, hvalues, rfl⟩ := Option.map_eq_some_iff.1 hmap
  simp [validWordIds, hvalues, uniquePositiveWordIds] at hids
  exact toNat_nodup hids.2.1 hids.2.2

theorem resolveLessonReviewRatio_le (ratio : Option Int) : resolveLessonReviewRatio ratio ≤ 100 := by
  unfold resolveLessonReviewRatio
  split <;> omega

theorem sessionChecks_newLesson (hsource : request.source ∈ learningSources) (u : UserId)
    (now : Instant) :
    sessionChecks (newLesson u request now) = true ↔ request.lessonSize ∈ storableSizes := by
  have hratio := resolveLessonReviewRatio_le request.reviewRatio
  have hmode : studyModeText request.studyMode ∈ ["study", "recall", "choice", "listening"] := by
    cases request.studyMode <;> decide
  have hkind : (request.sessionKind.all fun kind =>
      decide (sessionKindText kind ∈ ["study", "review", "remediation"])) = true := by
    cases request.sessionKind with
    | none => rfl
    | some kind => cases kind <;> decide
  unfold learningSources at hsource
  unfold sessionChecks newLesson
  dsimp only
  rw [hkind]
  simp only [hsource, hmode, hratio, statusText, Bool.and_true, Bool.and_eq_true, decide_eq_true_eq,
    true_and]
  constructor
  · exact fun h => h.1.1.1
  · exact fun h => ⟨⟨⟨h, by simp⟩, by simp⟩, trivial⟩

/-- Of the sizes that the handler lets through, one cannot be stored. -/
theorem storable_iff {size : String} (h : validLessonSize size = true) :
    size ∈ storableSizes ↔ size ≠ "50" := by
  have hsize : size = "15" ∨ size = "30" ∨ size = "50" ∨ size = "all" := by
    simpa [validLessonSize] using h
  rcases hsize with rfl | rfl | rfl | rfl <;> decide

theorem itemRows_words (selected : Selection) :
    (itemRows selected).map Prod.fst = selected.map Prod.fst := by
  calc (itemRows selected).map Prod.fst
      = (selected.zipIdx.map Prod.fst).map Prod.fst := by
        rw [itemRows, List.map_map, List.map_map]
        rfl
    _ = selected.map Prod.fst := by rw [List.zipIdx_map_fst]

theorem itemRows_positions (selected : Selection) :
    ((itemRows selected).map fun item => item.2.position) = List.range selected.length := by
  calc ((itemRows selected).map fun item => item.2.position)
      = selected.zipIdx.map Prod.snd := by
        rw [itemRows, List.map_map]
        rfl
    _ = List.range selected.length := by rw [List.zipIdx_map_snd, List.range_eq_range']

theorem itemRows_checks (selected : Selection) :
    ∀ item ∈ itemRows selected, itemChecks item.2 = true := by
  intro item hitem
  obtain ⟨⟨⟨w, reason⟩, position⟩, -, rfl⟩ := List.mem_map.1 hitem
  cases reason <;> simp [itemChecks, selectionReasonText]

/-- Rows for distinct words that exist break a constraint only by the lesson's size. -/
theorem insertRows_documented (hsource : request.source ∈ learningSources)
    (hsize : validLessonSize request.lessonSize = true) (u : UserId) (now : Instant)
    (db : LearningDb) {selected : Selection} (hnodup : (selected.map Prod.fst).Nodup)
    (hwords : ∀ w ∈ selected.map Prod.fst, (db.lookup (.word w)).isSome) :
    (insertRows db (newLesson u request now) (itemRows selected)).documented ↔
      request.lessonSize ≠ "50" := by
  have hsession := (sessionChecks_newLesson hsource u now).trans (storable_iff hsize)
  have hitems : ((itemRows selected).all fun item => itemChecks item.2) = true :=
    List.all_eq_true.2 (itemRows_checks selected)
  have hunique : (((itemRows selected).map fun item => item.2.position).Nodup &&
      ((itemRows selected).map Prod.fst).Nodup) = true := by
    simp [itemRows_positions, itemRows_words, List.nodup_range, hnodup]
  have href : ((itemRows selected).all fun item => (db.lookup (.word item.1)).isSome) = true := by
    refine List.all_eq_true.2 fun item hitem => hwords item.1 ?_
    rw [← itemRows_words]
    exact List.mem_map_of_mem hitem
  unfold insertRows
  rw [hitems, hunique, href]
  by_cases h : request.lessonSize ≠ "50"
  · simp [hsession.2 h, h, Creation.documented]
  · have : sessionChecks (newLesson u request now) = false := by
      rw [← Bool.not_eq_true, hsession]
      exact h
    simp [this, h, Creation.documented]

end Rows

section Selected
variable {unicode : Unicode} {lower : String → String} {signals : WordId → Signals} {now : Instant}
  {u : UserId} {request : LessonCreateRequest} {db : LearningDb}

theorem mem_candidateWords {w : WordId} : w ∈ candidateWords u db ↔
    (db.lookup (.userWord u w)).isSome ∧ (db.lookup (.word w)).isSome := by
  unfold candidateWords
  rw [List.mem_filterMap]
  constructor
  · rintro ⟨k, hk, hw⟩
    obtain ⟨r, hr, hp⟩ := mem_rowsWhere.1 hk
    cases k with
    | userWord u' w' =>
      obtain rfl : w' = w := by simpa using hw
      obtain ⟨rfl, hword⟩ : u' = u ∧ (db.lookup (.word w')).isSome := by simpa [userWords] using hp
      exact ⟨by simp [hr], hword⟩
    | _ => simp at hw
  · rintro ⟨huser, hword⟩
    obtain ⟨r, hr⟩ := Option.isSome_iff_exists.1 huser
    exact ⟨.userWord u w, mem_rowsWhere.2 ⟨r, hr, by simp [userWords, hword]⟩, rfl⟩

theorem candidateWords_nodup (u : UserId) (db : LearningDb) : (candidateWords u db).Nodup := by
  unfold candidateWords
  refine List.pairwise_filterMap.2 ?_
  refine (rowsWhere_nodup _ db).imp_of_mem fun {k k'} hk hk' hne => ?_
  have owned : ∀ {k : Key}, k ∈ rowsWhere (userWords fun u' w _ =>
      u' = u && (db.lookup (.word w)).isSome) db → ∃ w, k = .userWord u w := by
    intro k hk
    obtain ⟨r, -, hp⟩ := mem_rowsWhere.1 hk
    cases k with
    | userWord u' w =>
      have : u' = u := (by simpa [userWords] using hp : u' = u ∧ _).1
      exact ⟨w, by rw [this]⟩
    | _ => cases hp
  obtain ⟨w, rfl⟩ := owned hk
  obtain ⟨w', rfl⟩ := owned hk'
  intro x hx x' hx' heq
  cases hx
  cases hx'
  exact hne (by rw [heq])

theorem joinWords_sublist
    {candidate : WordId → WordRow → UserWordRow → Option LessonCandidate}
    (h : ∀ w r state c, candidate w r state = some c → c.wordId = w) :
    (joinWords u db candidate).map LessonCandidate.wordId <+ candidateWords u db := by
  unfold joinWords
  generalize candidateWords u db = words
  induction words with
  | nil => simp
  | cons w rest ih =>
    rw [List.filterMap_cons]
    split
    · exact ih.cons w
    · rename_i c hc
      have hw : c.wordId = w := by
        split at hc
        · exact h _ _ _ _ hc
        · cases hc
      rw [List.map_cons, hw]
      exact ih.cons_cons w

theorem mem_joinWords {candidate : WordId → WordRow → UserWordRow → Option LessonCandidate}
    {c : LessonCandidate} (h : c ∈ joinWords u db candidate) :
    ∃ w r state, candidate w r state = some c := by
  obtain ⟨w, -, hc⟩ := List.mem_filterMap.1 h
  split at hc
  · exact ⟨w, _, _, hc⟩
  · cases hc

/-- The kind of a candidate is one that the source has words of. -/
def Suits (source : String) (kind : WordKind) : Prop :=
  (source = "phrases" → kind = .phrase) ∧ (source ≠ "mixed" → source ≠ "phrases" → kind ≠ .phrase)

theorem considers_suits {w : WordId} {r : WordRow}
    (h : considers lower signals now u request db w r = true) : Suits request.source r.kind := by
  have hmatch := (Bool.and_eq_true_iff.1 (Bool.and_eq_true_iff.1 h).1).1
  by_cases hk : r.kind = .phrase
  · refine ⟨fun _ => hk, fun hmixed hphrases => ?_⟩
    simp [sourceMatches, catalogWord, hk, hmixed, hphrases] at hmatch
  · refine ⟨fun hphrases => ?_, fun _ _ => hk⟩
    simp [sourceMatches, catalogWord, hk, hphrases] at hmatch

theorem filterLessonCandidatesForSession_wordIds (candidates : List LessonCandidate)
    (kind : SessionKind) :
    (filterLessonCandidatesForSession candidates kind).map LessonCandidate.wordId <+
        candidates.map LessonCandidate.wordId ∧
      ∀ c ∈ filterLessonCandidatesForSession candidates kind, ∃ c' ∈ candidates, c'.kind = c.kind := by
  unfold filterLessonCandidatesForSession
  constructor
  · induction candidates with
    | nil => simp
    | cons c rest ih =>
      rw [List.filterMap_cons, List.map_cons]
      split
      · exact ih.cons _
      · rename_i c' hc'
        obtain ⟨reason, -, rfl⟩ := Option.map_eq_some_iff.1 hc'
        exact ih.cons_cons _
  · intro c hc
    obtain ⟨c', hc', hmap⟩ := List.mem_filterMap.1 hc
    obtain ⟨reason, -, rfl⟩ := Option.map_eq_some_iff.1 hmap
    exact ⟨c', hc', rfl⟩

variable (lower signals now u request db)

/-- Each candidate stands for another word of the user, of a kind that suits the
source. -/
theorem queryLessonCandidatesForSession_facts :
    (queryLessonCandidatesForSession lower signals now u request db).map LessonCandidate.wordId <+
        candidateWords u db ∧
      ∀ c ∈ queryLessonCandidatesForSession lower signals now u request db,
        Suits request.source c.kind := by
  unfold queryLessonCandidatesForSession
  split
  · constructor
    · refine joinWords_sublist fun w r state c hc => ?_
      split at hc
      · obtain rfl := Option.some.inj hc
        rfl
      · cases hc
    · intro c hc
      obtain ⟨w, r, state, hsome⟩ := mem_joinWords hc
      split at hsome
      · rename_i hconsiders
        obtain rfl := Option.some.inj hsome
        exact considers_suits (Bool.and_eq_true_iff.1 hconsiders).1
      · cases hsome
  · rename_i kind _
    have hfilter := filterLessonCandidatesForSession_wordIds
      (queryExplicitLessonCandidates lower signals now u request db) kind
    constructor
    · refine hfilter.1.trans (joinWords_sublist fun w r state c hc => ?_)
      split at hc
      · obtain rfl := Option.some.inj hc
        rfl
      · cases hc
    · intro c hc
      obtain ⟨c', hc', hkind⟩ := hfilter.2 c hc
      obtain ⟨w, r, state, hsome⟩ := mem_joinWords hc'
      split at hsome
      · rename_i hconsiders
        obtain rfl := Option.some.inj hsome
        exact hkind ▸ considers_suits hconsiders
      · cases hsome

theorem composedFrom_suited {candidates : List LessonCandidate} {source : String}
    (h : ∀ c ∈ candidates, Suits source c.kind) : composedFrom candidates source = candidates := by
  unfold composedFrom
  split
  · rfl
  · rename_i hmixed
    split
    · rename_i hphrases
      exact List.filter_eq_self.2 fun c hc => by simpa using (h c hc).1 hphrases
    · rename_i hphrases
      exact List.filter_eq_self.2 fun c hc => by simpa using (h c hc).2 hmixed hphrases

theorem lessonLength_pos (limit : Nat) {available : Nat} (h : 0 < available) :
    0 < lessonLength limit available := by
  unfold lessonLength
  split
  · exact h
  · rename_i hlimit
    simp at hlimit
    omega

/-- Rows of `user_words` refer to rows of `words`. -/
def Consistent (db : LearningDb) : Prop :=
  ∀ u w, (db.lookup (.userWord u w)).isSome → (db.lookup (.word w)).isSome

theorem assigned_iff {ids : List WordId} (hids : ids.Nodup) :
    (ids.dedup.filter fun w => (db.lookup (.userWord u w)).isSome).length = ids.length ↔
      ∀ w ∈ ids, (db.lookup (.userWord u w)).isSome := by
  rw [List.dedup_eq_self.2 hids]
  constructor
  · intro hlen w hw
    exact List.length_filter_eq_length_iff.1 hlen w hw
  · intro h
    exact List.length_filter_eq_length_iff.2 h

variable {lower signals now u request db}

/-- Either there is nothing to insert, and the caller learns why, or there are
distinct words. -/
theorem selection_cases (hdb : Consistent db) (hids : ∀ ids, request.wordIds = some ids → ids.Nodup) :
    match selection unicode lower signals now u request db with
    | .error e => (e = .lessonQueueEmpty ∨ e = .invalidLessonWords) ∧
        ¬ (match request.wordIds with
          | none => queryLessonCandidatesForSession lower signals now u request db ≠ []
          | some ids => ∀ w ∈ ids, (db.lookup (.userWord u w)).isSome)
    | .ok selected => ((selected.map Prod.fst).Nodup ∧
          ∀ w ∈ selected.map Prod.fst, (db.lookup (.word w)).isSome) ∧
        match request.wordIds with
        | none => queryLessonCandidatesForSession lower signals now u request db ≠ []
        | some ids => ∀ w ∈ ids, (db.lookup (.userWord u w)).isSome := by
  unfold selection
  cases hrequest : request.wordIds with
  | none =>
    obtain ⟨hwords, hsuits⟩ := queryLessonCandidatesForSession_facts lower signals now u request db
    dsimp only
    generalize queryLessonCandidatesForSession lower signals now u request db = candidates
      at hwords hsuits ⊢
    obtain ⟨hsub, hlen⟩ := composeLessonCandidates_selects unicode candidates request.source
      (lessonSizeLimit request.lessonSize candidates.length)
      (resolveLessonReviewRatio request.reviewRatio)
    rw [composedFrom_suited hsuits] at hsub hlen
    generalize (LessonComposer.composeLessonCandidates unicode candidates request.source _ _).1 =
      selected at hsub hlen ⊢
    cases hselected : selected with
    | nil =>
      refine ⟨.inl rfl, fun hne => ?_⟩
      have := lessonLength_pos (lessonLength
        (lessonSizeLimit request.lessonSize candidates.length) candidates.length)
        (List.length_pos_iff.2 hne)
      simp only [hselected, List.length_nil] at hlen
      omega
    | cons c rest =>
      rw [hselected] at hsub
      have hmap : ((c :: rest).map fun candidate =>
          (candidate.wordId, lessonCandidateReason candidate)).map Prod.fst =
          (c :: rest).map LessonCandidate.wordId := by
        rw [List.map_map]
        rfl
      obtain ⟨chosen, hperm, hchosen⟩ := hsub
      have hown : chosen.map LessonCandidate.wordId <+ candidateWords u db :=
        (hchosen.map _).trans hwords
      refine ⟨⟨?_, fun w hw => ?_⟩, fun hnil => ?_⟩
      · rw [hmap]
        exact (hperm.map _).nodup_iff.1 (hown.nodup (candidateWords_nodup u db))
      · rw [hmap] at hw
        exact (mem_candidateWords.1 (hown.subset ((hperm.map _).mem_iff.2 hw))).2
      · have hlength := hperm.length_eq.symm.trans_le hchosen.length_le
        simp [hnil] at hlength
  | some ids =>
    have hassigned := assigned_iff u db (hids ids hrequest)
    dsimp only
    by_cases h : ∀ w ∈ ids, (db.lookup (.userWord u w)).isSome
    · rw [if_neg (not_not.2 (hassigned.2 h))]
      have hmap : (ids.map fun w => (w, SelectionReason.manual)).map Prod.fst = ids := by
        rw [List.map_map]
        exact List.map_id ids
      dsimp only
      rw [hmap]
      exact ⟨⟨hids ids hrequest, fun w hw => hdb u w (h w hw)⟩, h⟩
    · rw [if_pos fun hlen => h (hassigned.1 hlen)]
      exact ⟨.inr rfl, h⟩

end Selected

section Outcome
variable {unicode : Unicode} {lower : String → String} {signals : WordId → Signals} {now : Instant}
  {u : UserId} {body : LessonCreateBody} {request : LessonCreateRequest} {db : LearningDb}

/-- One user with one new word. -/
def oneEnrolment : LearningDb :=
  ((∅ : LearningDb).insert (.word 1)
    { source := "lexigo-travel-v1", topic := "Travel", translation := "багаж" : WordRow }).insert
    (.userWord 1 1)
    { status := .new, easiness := 250, intervalDays := 0, repetitions := 0, dueAt := 0 : UserWordRow }

theorem oneEnrolment_consistent : Consistent oneEnrolment := by
  intro u w h
  by_cases hk : Key.userWord u w = Key.userWord 1 1
  · cases hk
    decide
  · rw [oneEnrolment, AList.lookup_insert_ne hk, AList.lookup_insert_ne (by simp)] at h
    simp at h

def sized (lessonSize : String) : LessonCreateBody where
  source := "mixed"
  studyMode := "study"
  lessonSize := lessonSize
  wordIds := some [1]

def sizedRequest (lessonSize : String) : LessonCreateRequest where
  source := "mixed"
  studyMode := .study
  lessonSize := lessonSize
  wordIds := some [1]

end Outcome

end LessonConstraints
