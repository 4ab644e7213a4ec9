import LexiGo.StepHistories
import LexiGo.Words.WordCatalog

/-! What belongs to a learning source. The rule is written down once for each
query that uses it: two lists of the catalogue, two queries for the candidates of
a lesson, and the totals of the metadata. -/
namespace CatalogSources
open GoText AnswerJudgement Scheduler StepHistories CustomVocabulary WordCatalog
open LearningSchema (UserId WordId)

variable (lower : String → String)

/-- `LIKE`, with `\` before a character that stands for itself. -/
def like : List Char → List Char → Bool
  | [], [] => true
  | [], _ :: _ => false
  | '%' :: pattern, [] => like pattern []
  | '%' :: pattern, c :: text => like pattern (c :: text) || like ('%' :: pattern) text
  | '_' :: pattern, _ :: text => like pattern text
  | '\\' :: p :: pattern, c :: text => p = c && like pattern text
  | p :: pattern, c :: text => p = c && like pattern text
  | _ :: _, [] => false
termination_by pattern text => pattern.length + text.length

structure ListOptions where
  kind : Option WordKind := none
  source : String
  topic : String := ""
  query : String := ""
  status : Option WordStatus := none
  deriving DecidableEq

def searched (query : String) (r : CatalogWord) : Bool :=
  let found := fun text => like ('%' :: (lower query).toList ++ ['%']) (lower text).toList
  query = "" || found r.headword || found r.translation || found r.topic ||
    r.aliases.any found || r.examples.any found

/-- The sources, as the queries for enrolled words tell them apart; they differ in
what makes a word academic. -/
def sourceMatches (academic : CatalogWord → Bool) (source : String) (r : CatalogWord) : Bool :=
  source = "mixed" ||
    (source = "phrases" && r.kind = .phrase) ||
    (source = "noun" && r.kind = .word && lower r.partOfSpeech = "noun") ||
    (source = "verb" && r.kind = .word && lower r.partOfSpeech = "verb") ||
    (source = "adjective" && r.kind = .word && lower r.partOfSpeech = "adjective") ||
    (source = "daily-life" && r.kind = .word && r.topic = "Daily Life") ||
    (source = "travel" && r.kind = .word && r.topic = "Travel") ||
    (source = "data-engineering" && r.kind = .word && r.topic = "Data Engineering") ||
    (source = "backend" && r.kind = .word && r.topic = "Backend Development") ||
    (source = "academic-technical-english" && r.kind = .word && academic r)

def publicCatalogListFilter (options : ListOptions) (r : CatalogWord) : Bool :=
  r.kind = .word && r.owner = none &&
    (options.source = "" || options.source = "mixed" ||
      (options.source = "noun" && lower r.partOfSpeech = "noun") ||
      (options.source = "verb" && lower r.partOfSpeech = "verb") ||
      (options.source = "adjective" && lower r.partOfSpeech = "adjective") ||
      (options.source = "daily-life" && r.topic = "Daily Life") ||
      (options.source = "travel" && r.topic = "Travel") ||
      (options.source = "data-engineering" && r.topic = "Data Engineering") ||
      (options.source = "backend" && r.topic = "Backend Development") ||
      (options.source = "academic-technical-english" && r.topic = "academic-technical-english")) &&
    (options.topic = "" || r.topic = options.topic) && searched lower options.query r

def catalogListFilter (now : Instant) (u : UserId) (options : ListOptions) (dueOnly : Bool)
    (e : Enrolment) (r : CatalogWord) : Bool :=
  (r.owner = none || r.owner = some u) && (options.kind.all fun kind => r.kind = kind) &&
    (!dueOnly || e.dueAt ≤ now) &&
    (options.source = "" ||
      sourceMatches lower (fun r => r.topic = "academic-technical-english") options.source r) &&
    (options.topic = "" || r.topic = options.topic) && searched lower options.query r &&
    (options.status.all fun status => e.status = status)

/-- `user_words join words`, for one user. -/
def enrolledRows (u : UserId) (s : CatalogState) : List (WordId × Enrolment × CatalogWord) :=
  s.rows.filterMap fun (w, r) => (s.enrolled u w).map fun e => (w, e, r)

def listPublicPage (options : ListOptions) (s : CatalogState) : List (WordId × CatalogWord) :=
  s.rows.filter fun row => publicCatalogListFilter lower options row.2

def listPage (now : Instant) (u : UserId) (options : ListOptions) (dueOnly : Bool)
    (s : CatalogState) : List (WordId × Enrolment × CatalogWord) :=
  (enrolledRows u s).filter fun row =>
    catalogListFilter lower now u options dueOnly row.2.1 row.2.2

/-- The rows that the first candidate query considers for a source. -/
def considered (u : UserId) (source : String) (s : CatalogState) :
    List (WordId × Enrolment × CatalogWord) :=
  (enrolledRows u s).filter fun row =>
    sourceMatches lower (fun r => r.source = catalogSource) source row.2.2

/-- Its other conditions: due dates, for a mode that tests the user, a topic, and
the words of the lesson before. -/
def queryLessonCandidates (now : Instant) (u : UserId) (source : String) (studyMode : AnswerMode)
    (topic : String) (excluded : List WordId) (s : CatalogState) :
    List (WordId × Enrolment × CatalogWord) :=
  (considered lower u source s).filter fun (w, e, r) =>
    (!studyMode.objective || e.dueAt ≤ now) && (trimSpace topic = "" || r.topic = trimSpace topic) &&
      w ∉ excluded

/-- The rows that the query for an explicit kind of session considers. -/
def explicitlyConsidered (u : UserId) (source : String) (s : CatalogState) :
    List (WordId × Enrolment × CatalogWord) :=
  (enrolledRows u s).filter fun row =>
    sourceMatches lower (fun r => r.source = catalogSource) source row.2.2

def queryExplicitLessonCandidates (u : UserId) (source : String) (topic : String)
    (excluded : List WordId) (s : CatalogState) : List (WordId × Enrolment × CatalogWord) :=
  (explicitlyConsidered lower u source s).filter fun (w, _, r) =>
    (trimSpace topic = "" || r.topic = trimSpace topic) && w ∉ excluded

structure CatalogSourceTotals where
  mixed : Nat
  noun : Nat
  verb : Nat
  adjective : Nat
  phrases : Nat
  dailyLife : Nat
  travel : Nat
  dataEngineering : Nat
  backend : Nat
  academicTechnicalEnglish : Nat

def metadata (s : CatalogState) : CatalogSourceTotals :=
  let shared := s.rows.filter fun row => row.2.owner = none
  let words (p : CatalogWord → Bool) := shared.countP fun row => row.2.kind = .word && p row.2
  { mixed := shared.length
    noun := words fun r => lower r.partOfSpeech = "noun"
    verb := words fun r => lower r.partOfSpeech = "verb"
    adjective := words fun r => lower r.partOfSpeech = "adjective"
    phrases := shared.countP fun row => row.2.kind = .phrase
    dailyLife := words fun r => r.topic = "Daily Life"
    travel := words fun r => r.topic = "Travel"
    dataEngineering := words fun r => r.topic = "Data Engineering"
    backend := words fun r => r.topic = "Backend Development"
    academicTechnicalEnglish := words fun r => r.source = catalogSource }

def learningSources : List String :=
  ["mixed", "noun", "verb", "adjective", "phrases", "daily-life", "travel", "data-engineering",
    "backend", "academic-technical-english"]

/-- The sources of words alone, each with its total. -/
def wordSources : List (String × (CatalogSourceTotals → Nat)) :=
  [("noun", CatalogSourceTotals.noun), ("verb", CatalogSourceTotals.verb),
    ("adjective", CatalogSourceTotals.adjective), ("daily-life", CatalogSourceTotals.dailyLife),
    ("travel", CatalogSourceTotals.travel),
    ("data-engineering", CatalogSourceTotals.dataEngineering),
    ("backend", CatalogSourceTotals.backend),
    ("academic-technical-english", CatalogSourceTotals.academicTechnicalEnglish)]

/-- The catalogue, the candidate queries and the metadata mean the same by every
source. -/
structure SourcesAgree (s : CatalogState) : Prop where
  items : ∀ now u, ∀ source ∈ learningSources, ∀ item,
    (item ∈ listPage lower now u { source := source } false s ↔ item ∈ considered lower u source s) ∧
      (item ∈ listPage lower now u { source := source } false s ↔
        item ∈ explicitlyConsidered lower u source s)
  totals : ∀ source total, (source, total) ∈ wordSources →
    total (metadata lower s) = (listPublicPage lower { source := source } s).length

end CatalogSources
