import LexiGo.Client.JudgeAgreement
import LexiGo.Words.CatalogPages

/-! Whether the search of the catalogue is literal. The query becomes a pattern, in which
three characters have a meaning of their own; a query without them is looked for as it
is, and any other matches a word that does not hold it. -/
namespace LiteralSearch
open GoText AnswerJudgement Scheduler WordCatalog CatalogSources CatalogPages
open LearningSchema (UserId WordId)

/-- The characters of a pattern that do not stand for themselves. -/
def metaCharacters : List Char := ['%', '_', '\\']

section Patterns

theorem like_nil (text : List Char) : like [] text = true ↔ text = [] := by
  cases text <;> simp [like]

/-- A pattern that may start anywhere. -/
theorem like_percent (pattern text : List Char) :
    like ('%' :: pattern) text = true ↔ ∃ rest, rest <:+ text ∧ like pattern rest = true := by
  induction text with
  | nil => simp [like]
  | cons c text ih =>
    rw [like, Bool.or_eq_true, ih]
    constructor
    · rintro (h | ⟨rest, hrest, h⟩)
      · exact ⟨c :: text, List.suffix_refl _, h⟩
      · exact ⟨rest, hrest.trans (List.suffix_cons c text), h⟩
    · rintro ⟨rest, hrest, h⟩
      rcases List.suffix_cons_iff.1 hrest with rfl | hrest
      · exact .inl h
      · exact .inr ⟨rest, hrest, h⟩

theorem like_plain {c : Char} (hc : c ∉ metaCharacters) (pattern text : List Char) :
    like (c :: pattern) text = true ↔ ∃ rest, text = c :: rest ∧ like pattern rest = true := by
  simp only [metaCharacters, List.mem_cons, List.not_mem_nil, or_false, not_or] at hc
  cases text with
  | nil => simp [like, hc]
  | cons d text =>
    have hstep : like (c :: pattern) (d :: text) = (decide (c = d) && like pattern text) := by
      rw [like.eq_def]
      split <;> simp_all
    rw [hstep, Bool.and_eq_true, decide_eq_true_eq]
    constructor
    · rintro ⟨rfl, h⟩
      exact ⟨text, rfl, h⟩
    · rintro ⟨rest, heq, h⟩
      obtain ⟨rfl, rfl⟩ := List.cons.inj heq
      exact ⟨rfl, h⟩

/-- A pattern of plain characters stands at the front. -/
theorem like_literal {query : List Char} (h : ∀ c ∈ query, c ∉ metaCharacters)
    (text : List Char) : like (query ++ ['%']) text = true ↔ query <+: text := by
  induction query generalizing text with
  | nil =>
    rw [List.nil_append, like_percent]
    exact iff_of_true ⟨[], List.nil_suffix, by simp [like]⟩ List.nil_prefix
  | cons c query ih =>
    rw [List.cons_append, like_plain (h c List.mem_cons_self)]
    constructor
    · rintro ⟨rest, rfl, hrest⟩
      exact List.cons_prefix_cons.2
        ⟨rfl, (ih (fun d hd => h d (List.mem_cons_of_mem _ hd)) rest).1 hrest⟩
    · intro hpre
      obtain ⟨rest, rfl⟩ := hpre
      exact ⟨query ++ rest, rfl, (ih (fun d hd => h d (List.mem_cons_of_mem _ hd)) _).2
        (List.prefix_append query rest)⟩

theorem like_part {query : List Char} (h : ∀ c ∈ query, c ∉ metaCharacters)
    (text : List Char) : like ('%' :: query ++ ['%']) text = true ↔ query <:+: text := by
  rw [List.cons_append, like_percent, List.infix_iff_prefix_suffix]
  constructor
  · rintro ⟨rest, hrest, hlike⟩
    exact ⟨rest, (like_literal h rest).1 hlike, hrest⟩
  · rintro ⟨rest, hpre, hrest⟩
    exact ⟨rest, hrest, (like_literal h rest).2 hpre⟩

/-- A text that the pattern of a query matches. -/
def sample : List Char → List Char
  | [] => []
  | '%' :: rest => 'a' :: sample rest
  | '_' :: rest => 'a' :: sample rest
  | ['\\'] => ['%']
  | '\\' :: c :: rest => c :: sample rest
  | c :: rest => c :: sample rest

theorem plain_of_branch {c : Char} {rest : List Char} (hpercent : c = '%' → False)
    (hunderscore : c = '_' → False) (hlast : c = '\\' → rest = [] → False)
    (hescape : ∀ d rest', c = '\\' → rest = d :: rest' → False) : c ∉ metaCharacters := by
  simp only [metaCharacters, List.mem_cons, List.not_mem_nil, or_false, not_or]
  refine ⟨hpercent, hunderscore, fun h => ?_⟩
  cases rest with
  | nil => exact hlast h rfl
  | cons d rest => exact hescape d rest h rfl

theorem like_sample (query : List Char) : like (query ++ ['%']) (sample query) = true := by
  induction query using sample.induct with
  | case1 => simp [sample, like]
  | case2 rest ih =>
    rw [sample, List.cons_append, like_percent]
    exact ⟨_, List.suffix_cons _ _, ih⟩
  | case3 rest ih => simpa [sample, like] using ih
  | case4 => simp [sample, like]
  | case5 c rest ih => simpa [sample, like] using ih
  | case6 c rest hpercent hunderscore hlast hescape ih =>
    have hc := plain_of_branch hpercent hunderscore hlast hescape
    rw [List.cons_append, like_plain hc]
    refine ⟨sample rest, ?_, ih⟩
    rw [sample] <;> assumption

theorem sample_length (query : List Char) : (sample query).length ≤ query.length := by
  induction query using sample.induct with
  | case1 => simp [sample]
  | case2 rest ih => simp only [sample, List.length_cons]; omega
  | case3 rest ih => simp only [sample, List.length_cons]; omega
  | case4 => simp [sample]
  | case5 c rest ih => simp only [sample, List.length_cons]; omega
  | case6 c rest hpercent hunderscore hlast hescape ih =>
    rw [sample] <;> first | assumption | (simp only [List.length_cons]; omega)

/-- A query that is its own sample has plain characters only. -/
theorem sample_eq {query : List Char} (h : sample query = query) :
    ∀ c ∈ query, c ∉ metaCharacters := by
  induction query using sample.induct with
  | case1 => simp
  | case2 rest ih =>
    rw [sample] at h
    exact absurd (List.cons.inj h).1 (by decide)
  | case3 rest ih =>
    rw [sample] at h
    exact absurd (List.cons.inj h).1 (by decide)
  | case4 => exact absurd (List.cons.inj h).1 (by decide)
  | case5 c rest ih =>
    have hlength := sample_length rest
    have heq := congrArg List.length h
    simp only [sample, List.length_cons] at heq
    omega
  | case6 c rest hpercent hunderscore hlast hescape ih =>
    have hc := plain_of_branch hpercent hunderscore hlast hescape
    have hrest : sample rest = rest := by
      rw [sample] at h <;> first | assumption | exact (List.cons.inj h).2
    intro d hd
    rcases List.mem_cons.1 hd with rfl | hd
    · exact hc
    · exact ih hrest d hd

theorem mem_sample {query : List Char} {c : Char} (h : c ∈ sample query) :
    c ∈ query ∨ c = 'a' ∨ c = '%' := by
  induction query using sample.induct with
  | case1 => cases h
  | case2 rest ih =>
    rw [sample] at h
    rcases List.mem_cons.1 h with rfl | h
    · exact .inr (.inl rfl)
    · exact (ih h).imp_left (List.mem_cons_of_mem _)
  | case3 rest ih =>
    rw [sample] at h
    rcases List.mem_cons.1 h with rfl | h
    · exact .inr (.inl rfl)
    · exact (ih h).imp_left (List.mem_cons_of_mem _)
  | case4 =>
    rw [sample, List.mem_singleton] at h
    exact .inr (.inr h)
  | case5 d rest ih =>
    rw [sample] at h
    rcases List.mem_cons.1 h with rfl | h
    · exact .inl (by simp)
    · exact (ih h).imp_left fun h => List.mem_cons_of_mem _ (List.mem_cons_of_mem _ h)
  | case6 d rest hpercent hunderscore hlast hescape ih =>
    rw [sample] at h <;> try assumption
    rcases List.mem_cons.1 h with rfl | h
    · exact .inl List.mem_cons_self
    · exact (ih h).imp_left (List.mem_cons_of_mem _)

end Patterns

section Search
variable {lower : String → String}

/-- The fields of a word that a search looks at. -/
def searchedFields (r : CatalogWord) : List String :=
  [r.headword, r.translation, r.topic] ++ r.aliases ++ r.examples

/-- The query stands in one of the fields as it is, but for case. -/
def Occurs (lower : String → String) (query : String) (r : CatalogWord) : Prop :=
  ∃ field ∈ searchedFields r, (lower query).toList <:+: (lower field).toList

/-- In both lists, a query lets exactly those of the words through that hold it. -/
def SearchesLiterally (lower : String → String) (query : String) : Prop :=
  ∀ options : ListOptions, options.query = query →
    (∀ r, publicCatalogListFilter lower options r = true ↔
      publicCatalogListFilter lower { options with query := "" } r = true ∧ Occurs lower query r) ∧
    ∀ now u dueOnly e r, catalogListFilter lower now u options dueOnly e r = true ↔
      catalogListFilter lower now u { options with query := "" } dueOnly e r = true ∧
        Occurs lower query r

/-- `lower` of the database goes character by character; letters once lowered stay as
they are, and so does what stands for itself or for any text in a pattern. -/
structure Lowercase (lower : String → String) (character : Char → Char) : Prop where
  text : ∀ s, lower s = String.ofList (s.toList.map character)
  again : ∀ c, character (character c) = character c
  letter : character 'a' = 'a'
  percent : character '%' = '%'

theorem searched_iff {query : String} (hquery : query ≠ "") (r : CatalogWord) :
    searched lower query r = true ↔ ∃ field ∈ searchedFields r,
      like ('%' :: (lower query).toList ++ ['%']) (lower field).toList = true := by
  unfold searched searchedFields
  dsimp only
  rw [decide_eq_false hquery]
  simp only [Bool.false_or, Bool.or_eq_true, List.any_eq_true, List.mem_append, List.mem_cons,
    List.not_mem_nil, or_false, or_and_right, exists_or, exists_eq_left, or_assoc]

theorem searched_literal {query : String} (h : ∀ c ∈ (lower query).toList, c ∉ metaCharacters)
    (hlower : lower "" = "") (r : CatalogWord) : searched lower query r = true ↔ Occurs lower query r := by
  by_cases hquery : query = ""
  · subst hquery
    rw [SourceAgreement.searched_nothing]
    refine iff_of_true rfl ⟨r.headword, by simp [searchedFields], ?_⟩
    rw [hlower]
    exact List.nil_infix
  · rw [searched_iff hquery]
    simp only [like_part h, Occurs]

theorem publicFilter_query (options : ListOptions) (r : CatalogWord) :
    publicCatalogListFilter lower options r = true ↔
      publicCatalogListFilter lower { options with query := "" } r = true ∧
        searched lower options.query r = true := by
  unfold publicCatalogListFilter
  rw [SourceAgreement.searched_nothing, Bool.and_true, Bool.and_eq_true]

theorem catalogFilter_query (now : Instant) (u : UserId) (options : ListOptions) (dueOnly : Bool)
    (e : Enrolment) (r : CatalogWord) :
    catalogListFilter lower now u options dueOnly e r = true ↔
      catalogListFilter lower now u { options with query := "" } dueOnly e r = true ∧
        searched lower options.query r = true := by
  unfold catalogListFilter
  rw [SourceAgreement.searched_nothing]
  generalize sourceMatches lower _ options.source r = matched
  simp only [Bool.and_true, Bool.and_eq_true]
  tauto

/-- A shared word with one text in every field that it must have. -/
def wordOf (text : String) : CatalogWord where
  headword := text
  translation := text
  topic := text
  source := "shared"

theorem occurs_wordOf (query text : String) :
    Occurs lower query (wordOf text) ↔ (lower query).toList <:+: (lower text).toList := by
  simp [Occurs, searchedFields, wordOf]

theorem lower_empty {character : Char → Char} (hlower : Lowercase lower character) :
    lower "" = "" := by
  rw [hlower.text]
  rfl

theorem lower_sample {character : Char → Char} (hlower : Lowercase lower character)
    (query : String) : lower (String.ofList (sample (lower query).toList)) =
      String.ofList (sample (lower query).toList) := by
  rw [hlower.text (String.ofList _), String.toList_ofList]
  congr 1
  refine (List.map_congr_left fun c hc => ?_).trans (List.map_id _)
  rcases mem_sample hc with hc | rfl | rfl
  · rw [hlower.text, String.toList_ofList] at hc
    obtain ⟨d, -, rfl⟩ := List.mem_map.1 hc
    exact hlower.again d
  · exact hlower.letter
  · exact hlower.percent

/-- A query with a character of another meaning lets a word through that does not hold it. -/
theorem plain_of_literal {character : Char → Char} (hlower : Lowercase lower character)
    {query : String} (h : SearchesLiterally lower query) :
    ∀ c ∈ (lower query).toList, c ∉ metaCharacters := by
  by_cases hquery : query = ""
  · rw [hquery, lower_empty hlower]
    simp
  have hword := (h { source := "", query := query } rfl).1
    (wordOf (String.ofList (sample (lower query).toList)))
  rw [publicFilter_query, occurs_wordOf] at hword
  have hsearched : searched lower query
      (wordOf (String.ofList (sample (lower query).toList))) = true := by
    rw [searched_iff hquery]
    refine ⟨_, List.mem_cons_self, ?_⟩
    rw [wordOf, lower_sample hlower, String.toList_ofList, List.cons_append, like_percent]
    exact ⟨_, List.suffix_refl _, like_sample _⟩
  have hshared : publicCatalogListFilter lower { source := "", query := "" }
      (wordOf (String.ofList (sample (lower query).toList))) = true := by
    unfold publicCatalogListFilter
    rw [SourceAgreement.searched_nothing]
    rfl
  obtain ⟨-, hpart⟩ := hword.1 ⟨hshared, hsearched⟩
  rw [lower_sample hlower, String.toList_ofList] at hpart
  exact sample_eq (hpart.eq_of_length_le (sample_length _)).symm

/-- The query that the handlers let through: trimmed, and `q` where there is none. -/
theorem commonListOptions_query {values : ListQuery} {options : PageOptions}
    (h : commonListOptions values = .ok options) :
    options.query = if trimSpace values.query = "" then trimSpace values.q
      else trimSpace values.query := by
  unfold commonListOptions at h
  generalize trimSpace values.query = query, trimSpace values.q = q at h ⊢
  generalize positiveQueryInteger values.page 1 1000000 = page at h
  generalize positiveQueryInteger values.limit 30 100 = limit at h
  cases page with
  | none => cases h
  | some page =>
    cases limit with
    | none => cases h
    | some limit =>
      dsimp only at h
      generalize (if query = "" then q else query) = search at h ⊢
      generalize (if trimSpace values.sort = "" then "default" else trimSpace values.sort) = sort
        at h
      split at h
      · cases h
      split at h
      · cases h
      · rw [← Except.ok.inj h]

theorem search_literal_iff {character : Char → Char} (hlower : Lowercase lower character)
    {values : ListQuery} {options : PageOptions} (h : commonListOptions values = .ok options) :
    options.query = (if trimSpace values.query = "" then trimSpace values.q
        else trimSpace values.query) ∧
      (SearchesLiterally lower options.query ↔
        ∀ c ∈ (lower options.query).toList, c ∉ metaCharacters) := by
  refine ⟨commonListOptions_query h, plain_of_literal hlower, ?_⟩
  intro hplain options' heq
  refine ⟨fun r => ?_, fun now u dueOnly e r => ?_⟩
  · rw [publicFilter_query, heq, searched_literal hplain (lower_empty hlower)]
  · rw [catalogFilter_query, heq, searched_literal hplain (lower_empty hlower)]

/-- `lower` of a database whose locale knows the letters of English only. -/
def lowerAscii (s : String) : String := String.ofList (s.toList.map Char.toLower)

theorem lowercase_ascii : Lowercase lowerAscii Char.toLower where
  text _ := rfl
  again c := JudgeAgreement.toLower_eq_self (by simp)
  letter := by decide
  percent := by decide

theorem search_boat :
    (SearchesLiterally lowerAscii "Boat" ↔
      ∀ c ∈ (lowerAscii "Boat").toList, c ∉ metaCharacters) :=
  (search_literal_iff lowercase_ascii
    (show commonListOptions { query := " Boat " } = .ok
      { source := "", query := "Boat", page := 1, limit := 30, sort := "default" } by
        decide +kernel)).2

theorem search_percent : commonListOptions { query := "%" } = .ok
      { source := "", query := "%", page := 1, limit := 30, sort := "default" } ∧
    publicCatalogListFilter lowerAscii { source := "", query := "%" } (wordOf "boat") = true ∧
    ¬ Occurs lowerAscii "%" (wordOf "boat") := by
  refine ⟨by decide +kernel, ?_, ?_⟩
  · rw [publicFilter_query]
    refine ⟨by decide +kernel, (searched_iff (by decide) _).2 ⟨"boat", by decide, ?_⟩⟩
    simp [lowerAscii, like]
  · rw [occurs_wordOf]
    decide +kernel

end Search

end LiteralSearch
