import LexiGo.Learning.LearningSchema
import LexiGo.Words.CustomVocabulary

/-! The catalogue of words, shared and private, and who is enrolled in which of
them, under every operation that adds, enrols in or removes words. Each operation
is one transaction. `lower` is the database's function of that name. -/
namespace WordCatalog
open GoText AnswerJudgement Scheduler CustomVocabulary
open LearningSchema (UserId WordId)

/-- A row of `words`, as far as a query of the catalogue or of a lesson reads it. -/
structure CatalogWord where
  headword : String
  translation : String
  phonetic : String := ""
  partOfSpeech : String := ""
  topic : String
  source : String
  kind : WordKind := .word
  slug : Option String := none
  aliases : List String := []
  examples : List String := []
  note : String := ""
  owner : Option UserId := none
  deriving DecidableEq

/-- A row of `user_words`: what the queries read of it. -/
structure Enrolment where
  status : WordStatus := .new
  dueAt : Instant
  deriving DecidableEq

/-- `next` is what the sequence of word ids has come to. A user is enrolled in
words that exist only, as the foreign key has it. -/
structure CatalogState where
  users : List UserId
  word : WordId → Option CatalogWord
  enrolled : UserId → WordId → Option Enrolment
  next : WordId
  word_lt : ∀ w, (word w).isSome → w < next
  word_of_enrolled : ∀ u w, (enrolled u w).isSome → (word w).isSome

namespace CatalogState

def rows (s : CatalogState) : List (WordId × CatalogWord) :=
  (List.range s.next).filterMap fun w => (s.word w).map fun r => (w, r)

theorem mem_rows {s : CatalogState} {w : WordId} {r : CatalogWord} :
    (w, r) ∈ s.rows ↔ s.word w = some r := by
  simp only [rows, List.mem_filterMap, List.mem_range, Option.map_eq_some_iff, Prod.mk.injEq]
  constructor
  · rintro ⟨w', _, r', hr, rfl, rfl⟩
    exact hr
  · intro h
    exact ⟨w, s.word_lt w (by simp [h]), r, h, rfl, rfl⟩

theorem word_next (s : CatalogState) : s.word s.next = none := by
  cases h : s.word s.next with
  | none => rfl
  | some r => exact absurd (s.word_lt s.next (by simp [h])) (Nat.lt_irrefl _)

theorem not_enrolled_next (s : CatalogState) (u : UserId) : s.enrolled u s.next = none := by
  cases h : s.enrolled u s.next with
  | none => rfl
  | some e =>
    have := s.word_of_enrolled u s.next (by simp [h])
    simp [s.word_next] at this

/-- A row under the next id. -/
def append (s : CatalogState) (r : CatalogWord) : CatalogState where
  users := s.users
  word w := if w = s.next then some r else s.word w
  enrolled := s.enrolled
  next := s.next + 1
  word_lt w h := by
    by_cases hw : w = s.next
    · exact hw ▸ Nat.lt_succ_self s.next
    · exact Nat.lt_succ_of_lt (s.word_lt w (by simpa [hw] using h))
  word_of_enrolled u w h := by
    by_cases hw : w = s.next
    · simp [hw]
    · simpa [hw] using s.word_of_enrolled u w h

/-- The columns of the row that is there are changed. -/
def revise (s : CatalogState) (w : WordId) (f : CatalogWord → CatalogWord) : CatalogState where
  users := s.users
  word w' := if w' = w then (s.word w').map f else s.word w'
  enrolled := s.enrolled
  next := s.next
  word_lt w' h := s.word_lt w' (by split at h <;> simpa using h)
  word_of_enrolled u w' h := by
    have := s.word_of_enrolled u w' h
    split <;> simpa using this

/-- `insert into user_words … on conflict do nothing`, for every pair that `p`
selects: a user that there is, and a word that there is. -/
def enrol (s : CatalogState) (now : Instant) (p : UserId → WordId → CatalogWord → Bool) :
    CatalogState where
  users := s.users
  word := s.word
  enrolled u w :=
    match s.enrolled u w with
    | some e => some e
    | none => ((s.word w).filter (p u w)).bind fun _ => if u ∈ s.users then some ⟨.new, now⟩ else none
  next := s.next
  word_lt := s.word_lt
  word_of_enrolled u w h := by
    cases he : s.enrolled u w with
    | some e => exact s.word_of_enrolled u w (by simp [he])
    | none =>
      cases hw : s.word w with
      | some r => rfl
      | none => simp [he, hw] at h

/-- The words that `p` selects go, and the rows of `user_words` that name them
or a user that `q` selects. -/
def erase (s : CatalogState) (p : WordId → CatalogWord → Bool) (q : UserId → Bool) :
    CatalogState where
  users := s.users.filter fun u => !q u
  word w := (s.word w).filter fun r => !p w r
  enrolled u w :=
    if q u || (s.word w).any (p w) then none else s.enrolled u w
  next := s.next
  word_lt w h := by
    cases hw : s.word w with
    | none => simp [hw] at h
    | some r => exact s.word_lt w (by simp [hw])
  word_of_enrolled u w h := by
    split at h
    · simp at h
    · rename_i hkeep
      cases hw : s.word w with
      | none => exact absurd (s.word_of_enrolled u w h) (by simp [hw])
      | some r => simp_all

/-- A review, or the start of one, moves an enrolment on. -/
def progress (s : CatalogState) (u : UserId) (w : WordId) (e : Enrolment) : CatalogState where
  users := s.users
  word := s.word
  enrolled u' w' := if u' = u ∧ w' = w then (s.enrolled u' w').map fun _ => e else s.enrolled u' w'
  next := s.next
  word_lt := s.word_lt
  word_of_enrolled u' w' h := by
    refine s.word_of_enrolled u' w' ?_
    split at h <;> simpa using h

end CatalogState

section Operations
variable (lower : String → String)

def sameText (headword translation : String) (r : CatalogWord) : Bool :=
  lower r.headword = lower headword && lower r.translation = lower translation

/-- The unique indexes on `words`: one for the shared rows, one for the rows of
each owner, and one on the slugs. -/
def conflicts (r r' : CatalogWord) : Bool :=
  (r'.owner = r.owner && sameText lower r.headword r.translation r') ||
    (r.slug.isSome && r'.slug.map lower = r.slug.map lower)

/-- `insert into words … on conflict do nothing returning id`: the state with the
new row in it, if there is one. Its id is the one that was next. -/
def insertWord (s : CatalogState) (r : CatalogWord) : Option CatalogState :=
  if s.rows.any fun (_, r') => conflicts lower r r' then none else some (s.append r)

/-- A row that is inserted by its owner, who is enrolled in it. -/
def insertOwn (now : Instant) (u : UserId) (r : CatalogWord) (s : CatalogState) :
    Option CatalogState :=
  if u ∈ s.users then
    (insertWord lower s r).map fun s' => s'.enrol now fun u' w _ => u' = u && w = s.next
  else none

def customWord (u : UserId) (request : CreateCustomWordRequest) : CatalogWord where
  headword := request.headword
  translation := request.translation
  phonetic := request.phonetic
  partOfSpeech := request.partOfSpeech
  topic := request.topic
  source := customWordSource
  note := request.note
  owner := some u

def insertCustomWordTx (now : Instant) (u : UserId) (request : CreateCustomWordRequest)
    (s : CatalogState) : Option CatalogState :=
  insertOwn lower now u (customWord u request) s

def createCustomWord (now : Instant) (u : UserId) (request : CreateCustomWordRequest)
    (s : CatalogState) : Option CatalogState :=
  match normalizeCustomWordRequest request with
  | .error _ => none
  | .ok normalized => insertCustomWordTx lower now u normalized s

def customPhrase (u : UserId) (slug : String) (request : CreateCustomPhraseRequest) :
    CatalogWord where
  headword := request.headword
  translation := request.translation
  phonetic := request.phonetic
  partOfSpeech := customPhrasePartOfSpeech
  topic := request.topic
  source := customWordSource
  kind := .phrase
  slug := some slug
  note := request.note
  owner := some u

/-- `slugs` are the random ones that are tried, as long as they are taken. -/
def insertCustomPhrase (now : Instant) (u : UserId) (request : CreateCustomPhraseRequest)
    (s : CatalogState) : List String → Option CatalogState
  | [] => none
  | slug :: slugs =>
    match insertOwn lower now u (customPhrase u slug request) s with
    | some s' => some s'
    | none =>
      if s.rows.any fun (_, r) => r.owner = some u &&
          sameText lower request.headword request.translation r then none
      else insertCustomPhrase now u request s slugs

def createCustomPhrase (now : Instant) (u : UserId) (request : CreateCustomPhraseRequest)
    (slugs : List String) (s : CatalogState) : Option CatalogState :=
  match normalizeCustomPhraseRequest request with
  | .error _ => none
  | .ok normalized => insertCustomPhrase lower now u normalized s (slugs.take 4)

/-- All of the items, or none. -/
def insertGlossary (now : Instant) (u : UserId) :
    List CreateCustomWordRequest → CatalogState → Option CatalogState
  | [], s => some s
  | item :: rest, s =>
    (insertCustomWordTx lower now u item s).bind (insertGlossary now u rest)

def importCustomGlossary (unicode : Unicode) (now : Instant) (u : UserId)
    (request : CustomGlossaryEnvelope) (s : CatalogState) : Option CatalogState :=
  match normalizeCustomGlossaryImport unicode request with
  | .error _ => none
  | .ok items => insertGlossary lower now u items s

/-- `DeleteCustomWord` and `DeleteCustomPhrase` differ in the kind alone. -/
def deleteCustom (u : UserId) (w : WordId) (kind : WordKind) (s : CatalogState) : CatalogState :=
  s.erase (fun w' r => w' = w && r.owner = some u && r.kind = kind && r.source = customWordSource)
    fun _ => false

structure Entry where
  headword : String
  translation : String
  partOfSpeech : String

def catalogSource : String := "hakui-technical-english-2020"
def catalogTopic : String := "academic-technical-english"

/-- The upsert of one entry: the shared row with the same text is brought in line,
or a new one is added. -/
def seedEntry (s : CatalogState) (entry : Entry) : CatalogState :=
  match s.rows.find? fun (_, r) =>
    r.owner = none && sameText lower entry.headword entry.translation r with
  | some (w, _) => s.revise w fun r =>
    { r with
      partOfSpeech := entry.partOfSpeech
      topic := catalogTopic
      source := catalogSource }
  | none => s.append
    { headword := entry.headword
      translation := entry.translation
      partOfSpeech := entry.partOfSpeech
      topic := catalogTopic
      source := catalogSource }

def seed (now : Instant) (entries : List Entry) (s : CatalogState) : CatalogState :=
  (entries.foldl (seedEntry lower) s).enrol now fun _ _ r => r.source = catalogSource

def defaultSources : List String :=
  [catalogSource, "lexigo-technical-phrases-v1", "lexigo-daily-life-v1", "lexigo-travel-v1",
    "lexigo-data-engineering-v1", "lexigo-backend-v1"]

/-- A new user, with the trigger `enroll_default_words_for_user`. -/
def register (now : Instant) (u : UserId) (s : CatalogState) : CatalogState :=
  if u ∈ s.users then s
  else { s with
    users := u :: s.users }.enrol now fun u' _ r => u' = u && r.source ∈ defaultSources

/-- The words that go with a user are those that it owns. -/
def deleteUser (u : UserId) (s : CatalogState) : CatalogState :=
  s.erase (fun _ r => r.owner = some u) fun u' => u' = u

structure ReviewTarget where
  term : String
  translation : String
  partOfSpeech : String

def scenarioWord (target : ReviewTarget) : CatalogWord where
  headword := target.term
  translation := target.translation
  partOfSpeech := target.partOfSpeech
  topic := "Technical Scenarios"
  source := "lexigo-scenario-vocabulary-v1"

def ensureScenarioWord (target : ReviewTarget) (s : CatalogState) : CatalogState :=
  (insertWord lower s (scenarioWord target)).getD s

/-- The query for the word has no order and no owner in it: `pick` is the row that
it comes upon first. -/
def resolveScenarioReviewWord (now : Instant) (u : UserId) (target : ReviewTarget) (pick : WordId)
    (s : CatalogState) : CatalogState :=
  (ensureScenarioWord lower target s).enrol now fun u' w r =>
    u' = u && w = pick && sameText lower target.term target.translation r

inductive Command
  | seed (entries : List Entry)
  | register (u : UserId)
  | createCustomWord (u : UserId) (request : CreateCustomWordRequest)
  | createCustomPhrase (u : UserId) (request : CreateCustomPhraseRequest) (slugs : List String)
  | importCustomGlossary (u : UserId) (request : CustomGlossaryEnvelope)
  | deleteCustom (u : UserId) (w : WordId) (kind : WordKind)
  | resolveScenarioReviewWord (u : UserId) (target : ReviewTarget) (pick : WordId)
  | progress (u : UserId) (w : WordId) (e : Enrolment)
  | deleteUser (u : UserId)

/-- An operation that fails leaves everything as it was. -/
def run (unicode : Unicode) (s : CatalogState) : Instant × Command → CatalogState
  | (now, .seed entries) => seed lower now entries s
  | (now, .register u) => register now u s
  | (now, .createCustomWord u request) => (createCustomWord lower now u request s).getD s
  | (now, .createCustomPhrase u request slugs) =>
    (createCustomPhrase lower now u request slugs s).getD s
  | (now, .importCustomGlossary u request) =>
    (importCustomGlossary lower unicode now u request s).getD s
  | (_, .deleteCustom u w kind) => deleteCustom u w kind s
  | (now, .resolveScenarioReviewWord u target pick) =>
    resolveScenarioReviewWord lower now u target pick s
  | (_, .progress u w e) => s.progress u w e
  | (_, .deleteUser u) => deleteUser u s

end Operations

end WordCatalog
