import LexiGo.OrderedPages
import LexiGo.Learning.LessonHttp
import LexiGo.Words.SourceAgreement
import Mathlib.Data.String.Basic

/-! The pages of the catalogue: what the handlers let through of a query, and the page
that the repository makes of it. The three lists differ in their filter and their order;
the arithmetic of the pages is the same. -/
namespace CatalogPages
open GoText AnswerJudgement Scheduler CustomVocabulary WordCatalog OrderedPages
open CatalogSources (publicCatalogListFilter catalogListFilter enrolledRows)
open LessonHttp (HttpError)
open LearningSchema (UserId WordId)

section Query

/-- `strconv.Atoi`, on a machine of 64 bits. -/
def atoi (s : String) : Option Int :=
  let digits (ds : List Char) : Option Int :=
    if ds ≠ [] ∧ ds.all Char.isDigit = true then
      some (ds.foldl (fun n d => 10 * n + (d.toNat - '0'.toNat : Nat)) 0)
    else none
  let value := match s.toList with
    | '-' :: ds => (digits ds).map fun n => -n
    | '+' :: ds => digits ds
    | ds => digits ds
  value.filter fun n => -9223372036854775808 ≤ n ∧ n ≤ 9223372036854775807

def positiveQueryInteger (raw : String) (defaultValue maximum : Int) : Option Int :=
  if trimSpace raw = "" then some defaultValue
  else (atoi raw).filter fun value => 0 < value ∧ value ≤ maximum

def maxCatalogFilterLength : Nat := 120

/-- The parameters of a request that lists words; one that is missing is empty. -/
structure ListQuery where
  page : String := ""
  limit : String := ""
  source : String := ""
  topic : String := ""
  query : String := ""
  q : String := ""
  sort : String := ""

structure PageOptions extends CatalogSources.ListOptions where
  page : Int := 0
  limit : Int := 0
  sort : String := ""
  deriving DecidableEq

def commonListOptions (values : ListQuery) : Except HttpError PageOptions :=
  match positiveQueryInteger values.page 1 1000000 with
  | none => .error ⟨422, "invalid_page", "page must be a positive integer"⟩
  | some page =>
    match positiveQueryInteger values.limit 30 100 with
    | none => .error ⟨422, "invalid_limit", "limit must be between 1 and 100"⟩
    | some limit =>
      let topic := trimSpace values.topic
      let search := if trimSpace values.query = "" then trimSpace values.q else trimSpace values.query
      if maxCatalogFilterLength < topic.length ∨ maxCatalogFilterLength < search.length then
        .error ⟨422, "invalid_catalog_filter",
          "topic and query must contain at most 120 characters"⟩
      else
        let sort := if trimSpace values.sort = "" then "default" else trimSpace values.sort
        if sort ≠ "default" ∧ sort ≠ "az" ∧ sort ≠ "za" then
          .error ⟨422, "invalid_sort", "sort must be default, az or za"⟩
        else .ok
          { source := trimSpace values.source
            topic := topic
            query := search
            page := page
            limit := limit
            sort := sort }

end Query

section Repository

structure Page (α : Type) where
  items : List α
  count : Nat
  total : Nat
  page : Int
  pageSize : Int
  totalPages : Int
  hasPrevious : Bool
  hasNext : Bool
  deriving DecidableEq

def pageNumber (page : Int) : Int := if page ≤ 0 then 1 else page

def pageSize (limit : Int) : Int :=
  let limit := if limit ≤ 0 then 30 else limit
  if 100 < limit then 100 else limit

/-- The page of a list that the count query and the `limit` and `offset` of the page
query come to. -/
def paginate {α : Type} (ordered : List α) (page limit : Int) : Page α :=
  let limit := pageSize limit
  let total := ordered.length
  let totalPages : Int := if 0 < total then (total + limit - 1) / limit else 0
  let page := if 0 < total then min (pageNumber page) totalPages else 1
  let items := (ordered.drop ((page - 1) * limit).toNat).take limit.toNat
  { items := items
    count := items.length
    total := total
    page := page
    pageSize := limit
    totalPages := totalPages
    hasPrevious := 1 < page
    hasNext := 0 < totalPages && page < totalPages }

variable (lower : String → String) (collation : String → String → Bool)

def sortMode (sort : String) : String := if sort = "" then "default" else sort

/-- The keys of `order by`, for rows of any kind. A key that is null in every row orders
nothing. -/
def sortKeys {α : Type} (word : α → CatalogWord) (id : α → WordId) (dueAt : Option (α → Instant))
    (sort : String) : List (α → α → Bool) :=
  (if sort = "az" then
      [fun a b => collation (lower (word a).headword) (lower (word b).headword)] else []) ++
    (if sort = "za" then
      [fun a b => collation (lower (word b).headword) (lower (word a).headword)] else []) ++
    (if sort = "default" then
      dueAt.toList.map fun due a b => decide (due a ≤ due b) else []) ++
    (if sort = "default" then [fun a b => collation (word a).topic (word b).topic] else []) ++
    [fun a b => decide (id a ≤ id b)]

abbrev PublicRow := WordId × CatalogWord
abbrev UserRow := WordId × Enrolment × CatalogWord

def publicOrder (sort : String) : PublicRow → PublicRow → Bool :=
  lexLe (sortKeys lower collation Prod.snd Prod.fst none (sortMode sort))

def userOrder (dueOnly : Bool) (sort : String) : UserRow → UserRow → Bool :=
  lexLe (sortKeys lower collation (fun row => row.2.2) Prod.fst
    (if dueOnly then some fun row => row.2.1.dueAt else none) (sortMode sort))

def listPublicPage (options : PageOptions) (s : CatalogState) : Page PublicRow :=
  paginate (orderBy (publicOrder lower collation options.sort)
    (CatalogSources.listPublicPage lower options.toListOptions s)) options.page options.limit

def list (now : Instant) (u : UserId) (options : PageOptions) (dueOnly : Bool) (s : CatalogState) :
    Page UserRow :=
  paginate (orderBy (userOrder lower collation dueOnly options.sort)
    (CatalogSources.listPage lower now u options.toListOptions dueOnly s)) options.page options.limit

def listPage (now : Instant) (u : UserId) (options : PageOptions) (s : CatalogState) : Page UserRow :=
  list lower collation now u options false s

def listDuePage (now : Instant) (u : UserId) (options : PageOptions) (s : CatalogState) :
    Page UserRow :=
  list lower collation now u options true s

end Repository

section Partition
variable {α : Type}

/-- The pages of the rows that match: together they list each row once, in the order;
beyond the last one that one is repeated. -/
structure PagesOf (rows : List α) (order : α → α → Bool) (pages : Int → Page α) (size : Int)
    (last : Int) : Prop where
  once : ∃ ordered, ordered.Perm rows ∧ ordered.Nodup ∧
    (ordered.Pairwise fun a b => order a b = true ∧ order b a = false) ∧
    (List.range last.toNat).flatMap (fun n : Nat => (pages (n + 1)).items) = ordered
  total : ∀ n, (pages n).total = rows.length
  count : ∀ n, (pages n).count = (pages n).items.length ∧ ((pages n).items.length : Int) ≤ size
  totalPages : ∀ n, (pages n).totalPages = last ∧ (pages n).pageSize = size
  number : ∀ n, 1 ≤ n → n ≤ last → (pages n).page = n
  filled : ∀ n, 1 ≤ n → n ≤ last → (pages n).items ≠ []
  clamped : ∀ n, 1 ≤ last → last ≤ n → pages n = pages last
  hasPrevious : ∀ n, (pages n).hasPrevious = true ↔ 1 ≤ (pages n).page - 1 ∧ (pages n).page - 1 ≤ last
  hasNext : ∀ n, (pages n).hasNext = true ↔ 1 ≤ (pages n).page + 1 ∧ (pages n).page + 1 ≤ last

theorem pageSize_pos (limit : Int) : 0 < pageSize limit := by
  unfold pageSize
  dsimp only
  split_ifs <;> omega

def lastPage (total : Nat) (limit : Int) : Int :=
  if 0 < total then (total + pageSize limit - 1) / pageSize limit else 0

theorem lastPage_pos {total : Nat} (limit : Int) (h : 0 < total) : 1 ≤ lastPage total limit := by
  have hsize := pageSize_pos limit
  rw [lastPage, if_pos h, Int.le_ediv_iff_mul_le hsize]
  omega

theorem lastPage_toNat (total : Nat) (limit : Int) : (lastPage total limit).toNat =
    (total + (pageSize limit).toNat - 1) / (pageSize limit).toNat := by
  have hsize := pageSize_pos limit
  obtain ⟨size, hnat⟩ : ∃ size : Nat, pageSize limit = size := ⟨_, (Int.toNat_of_nonneg hsize.le).symm⟩
  rw [lastPage, hnat]
  split
  · rename_i htotal
    have hsum : (total : Int) + size - 1 = ((total + size - 1 : Nat) : Int) := by omega
    rw [hsum, Int.toNat_natCast, ← Int.natCast_ediv, Int.toNat_natCast]
  · have htotal : total = 0 := by omega
    rw [htotal, Int.toNat_natCast, Nat.div_eq_of_lt (by omega)]
    rfl

/-- A page that there is. -/
theorem paginate_page (ordered : List α) (limit : Int) {n : Int} (hn : 1 ≤ n)
    (hlast : n ≤ lastPage ordered.length limit) : (paginate ordered n limit).page = n ∧
      (paginate ordered n limit).items =
        (ordered.drop ((n - 1) * pageSize limit).toNat).take (pageSize limit).toNat := by
  have htotal : 0 < ordered.length := by
    by_contra h
    rw [lastPage, if_neg h] at hlast
    omega
  have hpage : (paginate ordered n limit).page = n := by
    rw [lastPage, if_pos htotal] at hlast
    simp only [paginate, if_pos htotal, pageNumber]
    rw [if_neg (by omega)]
    omega
  have hitems : (paginate ordered n limit).items = (ordered.drop
      (((paginate ordered n limit).page - 1) * pageSize limit).toNat).take (pageSize limit).toNat :=
    rfl
  exact ⟨hpage, by rw [hitems, hpage]⟩

/-- Rows of which no two are equal in all keys have one order. -/
theorem orderBy_strict {rows : List α} {order : α → α → Bool} (hnodup : rows.Nodup)
    (hkey : IsKey order) (hties : ∀ a ∈ rows, ∀ b ∈ rows, order a b = true → order b a = true → a = b) :
    (orderBy order rows).Pairwise fun a b => order a b = true ∧ order b a = false := by
  have hperm := orderBy_perm order rows
  have hboth := (orderBy_sorted hkey rows).and (hperm.nodup_iff.2 hnodup)
  refine hboth.imp_of_mem fun {a b} ha hb h => ⟨h.1, ?_⟩
  by_contra hback
  exact h.2 (hties a (hperm.subset ha) b (hperm.subset hb) h.1 (by simpa using hback))

theorem paginate_pages (rows : List α) {order : α → α → Bool} (hnodup : rows.Nodup)
    (hkey : IsKey order) (hties : ∀ a ∈ rows, ∀ b ∈ rows, order a b = true → order b a = true → a = b)
    (limit : Int) :
    PagesOf rows order (fun n => paginate (orderBy order rows) n limit) (pageSize limit)
      (lastPage rows.length limit) := by
  have hsize := pageSize_pos limit
  have hlength : (orderBy order rows).length = rows.length := (orderBy_perm order rows).length_eq
  have htotalPages : ∀ n, (paginate (orderBy order rows) n limit).totalPages =
      lastPage rows.length limit := by
    intro n
    rw [← hlength]
    rfl
  have hpage : ∀ n, (paginate (orderBy order rows) n limit).page = if 0 < rows.length then
      min (pageNumber n) (lastPage rows.length limit) else 1 := by
    intro n
    rw [← hlength, lastPage]
    simp only [paginate]
  have hpos : ∀ n, 1 ≤ pageNumber n := by
    intro n
    unfold pageNumber
    split <;> omega
  refine
    { once := ⟨orderBy order rows, orderBy_perm order rows,
        (orderBy_perm order rows).nodup_iff.2 hnodup, orderBy_strict hnodup hkey hties, ?_⟩
      total := fun n => hlength
      count := fun n => ⟨rfl, ?_⟩
      totalPages := fun n => ⟨htotalPages n, rfl⟩
      number := ?_
      filled := ?_
      clamped := ?_
      hasPrevious := fun n => ?_
      hasNext := fun n => ?_ }
  · have hchunk : 0 < (pageSize limit).toNat := by omega
    have hall := flatMap_pages (orderBy order rows) hchunk
    rw [hlength, ← lastPage_toNat] at hall
    refine Eq.trans (List.flatMap_congr fun n hn => ?_) hall
    rw [List.mem_range] at hn
    have hitems := (paginate_page (orderBy order rows) limit (n := n + 1) (by omega)
      (by rw [hlength]; omega)).2
    rw [hitems]
    have hoffset : ((n + 1 - 1 : Int) * pageSize limit).toNat = n * (pageSize limit).toNat := by
      have hnonneg : (0 : Int) ≤ n := by omega
      rw [Int.add_sub_cancel, Int.toNat_mul hnonneg hsize.le, Int.toNat_natCast]
    rw [hoffset]
  · have hlimit : (paginate (orderBy order rows) n limit).items.length ≤ (pageSize limit).toNat :=
      List.length_take_le _ _
    omega
  · intro n hn hlast
    exact (paginate_page (orderBy order rows) limit hn (by rw [hlength]; exact hlast)).1
  · intro n hn hlast hempty
    rw [(paginate_page (orderBy order rows) limit hn (by rw [hlength]; exact hlast)).2] at hempty
    have hlen := congrArg List.length hempty
    rw [List.length_take, List.length_drop, hlength, List.length_nil] at hlen
    have htotal : 0 < rows.length := by
      by_contra h
      rw [lastPage, if_neg h] at hlast
      omega
    rw [lastPage, if_pos htotal, Int.le_ediv_iff_mul_le hsize] at hlast
    have hoffset : (n - 1) * pageSize limit = n * pageSize limit - pageSize limit := by
      rw [Int.sub_mul, Int.one_mul]
    omega
  · intro n hone hlast
    have htotal : 0 < rows.length := by
      by_contra h
      rw [lastPage, if_neg h] at hone
      omega
    have hsame : (paginate (orderBy order rows) n limit).page =
        (paginate (orderBy order rows) (lastPage rows.length limit) limit).page := by
      rw [hpage, hpage, if_pos htotal, if_pos htotal]
      unfold pageNumber
      split_ifs <;> omega
    have hdetermined : ∀ m, paginate (orderBy order rows) m limit =
        { items := ((orderBy order rows).drop (((paginate (orderBy order rows) m limit).page - 1) *
            pageSize limit).toNat).take (pageSize limit).toNat
          count := (((orderBy order rows).drop (((paginate (orderBy order rows) m limit).page - 1) *
            pageSize limit).toNat).take (pageSize limit).toNat).length
          total := (orderBy order rows).length
          page := (paginate (orderBy order rows) m limit).page
          pageSize := pageSize limit
          totalPages := (paginate (orderBy order rows) m limit).totalPages
          hasPrevious := 1 < (paginate (orderBy order rows) m limit).page
          hasNext := 0 < (paginate (orderBy order rows) m limit).totalPages &&
            (paginate (orderBy order rows) m limit).page <
              (paginate (orderBy order rows) m limit).totalPages } := fun _ => rfl
    rw [hdetermined n, hdetermined (lastPage rows.length limit), hsame, htotalPages, htotalPages]
  · have hprevious : (paginate (orderBy order rows) n limit).hasPrevious =
        decide (1 < (paginate (orderBy order rows) n limit).page) := rfl
    rw [hprevious, decide_eq_true_eq, hpage]
    have hone := hpos n
    split_ifs with htotal
    · have hlast := lastPage_pos limit htotal
      omega
    · omega
  · have hnext : (paginate (orderBy order rows) n limit).hasNext =
        (decide (0 < (paginate (orderBy order rows) n limit).totalPages) &&
          decide ((paginate (orderBy order rows) n limit).page <
            (paginate (orderBy order rows) n limit).totalPages)) := rfl
    rw [hnext, Bool.and_eq_true, decide_eq_true_eq, decide_eq_true_eq, hpage, htotalPages]
    have hone := hpos n
    split_ifs with htotal
    · have hlast := lastPage_pos limit htotal
      omega
    · rw [lastPage, if_neg htotal]
      omega

end Partition

section Lists
variable {lower : String → String} {collation : String → String → Bool}

theorem isKey_le {α : Type} (f : α → Int) : IsKey fun a b => decide (f a ≤ f b) :=
  ⟨fun a b => by simpa using Int.le_total (f a) (f b), fun a b c => by simpa using Int.le_trans⟩

theorem sortKeys_isKey (hcollation : IsKey collation) {α : Type} (word : α → CatalogWord)
    (id : α → WordId) (dueAt : Option (α → Instant)) (sort : String) :
    ∀ le ∈ sortKeys lower collation word id dueAt sort, IsKey le := by
  intro le hle
  simp only [sortKeys, List.mem_append] at hle
  rcases hle with (((hle | hle) | hle) | hle) | hle
  · split at hle
    · rw [List.mem_singleton] at hle
      rw [hle]
      exact hcollation.comap fun a => lower (word a).headword
    · cases hle
  · split at hle
    · rw [List.mem_singleton] at hle
      rw [hle]
      exact (hcollation.comap fun a => lower (word a).headword).flip
    · cases hle
  · split at hle
    · obtain ⟨due, -, rfl⟩ := List.mem_map.1 hle
      exact isKey_le due
    · cases hle
  · split at hle
    · rw [List.mem_singleton] at hle
      rw [hle]
      exact hcollation.comap fun a => (word a).topic
    · cases hle
  · rw [List.mem_singleton] at hle
    rw [hle]
    simpa using isKey_le fun a => (id a : Int)

/-- Rows that are equal in all keys have one id. -/
theorem sortKeys_id {α : Type} {word : α → CatalogWord} {id : α → WordId}
    {dueAt : Option (α → Instant)} {sort : String} {a b : α}
    (hab : lexLe (sortKeys lower collation word id dueAt sort) a b = true)
    (hba : lexLe (sortKeys lower collation word id dueAt sort) b a = true) : id a = id b := by
  have last : ∀ keys : List (α → α → Bool),
      lexLe (keys ++ [fun a b => decide (id a ≤ id b)]) a b = true →
      lexLe (keys ++ [fun a b => decide (id a ≤ id b)]) b a = true → id a = id b := by
    intro keys
    induction keys with
    | nil =>
      intro hab hba
      simp only [List.nil_append, lexLe, Bool.and_eq_true, decide_eq_true_eq] at hab hba
      exact Nat.le_antisymm hab.1 hba.1
    | cons le keys ih =>
      intro hab hba
      simp only [List.cons_append, lexLe, Bool.and_eq_true, Bool.or_eq_true, Bool.not_eq_true'] at hab hba
      refine ih (hab.2.resolve_left ?_) (hba.2.resolve_left ?_)
      · simp [hba.1]
      · simp [hab.1]
  exact last _ hab hba

theorem rows_nodup (s : CatalogState) : s.rows.Nodup := by
  refine List.Nodup.filterMap ?_ List.nodup_range
  intro w w' row hw hw'
  obtain ⟨r, -, rfl⟩ := Option.mem_map.1 hw
  obtain ⟨r', -, heq⟩ := Option.mem_map.1 hw'
  exact congrArg Prod.fst heq.symm

theorem enrolledRows_nodup (u : UserId) (s : CatalogState) : (enrolledRows u s).Nodup := by
  refine List.Nodup.filterMap ?_ (rows_nodup s)
  rintro ⟨w, r⟩ ⟨w', r'⟩ row hw hw'
  obtain ⟨e, -, rfl⟩ := Option.mem_map.1 hw
  obtain ⟨e', -, heq⟩ := Option.mem_map.1 hw'
  cases heq
  rfl

theorem list_pages (hcollation : IsKey collation) (now : Instant) (u : UserId)
    (options : PageOptions) (dueOnly : Bool) (s : CatalogState) :
    PagesOf (CatalogSources.listPage lower now u options.toListOptions dueOnly s)
      (userOrder lower collation dueOnly options.sort)
      (fun n => list lower collation now u { options with page := n } dueOnly s)
      (pageSize options.limit)
      (lastPage (CatalogSources.listPage lower now u options.toListOptions dueOnly s).length
        options.limit) := by
  refine paginate_pages _ ((enrolledRows_nodup u s).filter _)
    (lexLe_isKey (sortKeys_isKey hcollation _ _ _ _)) ?_ options.limit
  rintro ⟨w, e, r⟩ ha ⟨w', e', r'⟩ hb hab hba
  obtain rfl : w = w' := sortKeys_id hab hba
  obtain ⟨hr, he⟩ := SourceAgreement.mem_enrolledRows.1 (List.mem_filter.1 ha).1
  obtain ⟨hr', he'⟩ := SourceAgreement.mem_enrolledRows.1 (List.mem_filter.1 hb).1
  cases hr.symm.trans hr'
  cases he.symm.trans he'
  rfl

/-- In each of the three lists, the pages up to the last one are a partition of the words
that match, whatever the filter, the sort and the size of a page. -/
def Paged (lower : String → String) (collation : String → String → Bool) (now : Instant) (u : UserId)
    (options : PageOptions) (s : CatalogState) : Prop :=
  PagesOf (CatalogSources.listPage lower now u options.toListOptions false s)
      (userOrder lower collation false options.sort)
      (fun n => listPage lower collation now u { options with page := n } s)
      (pageSize options.limit)
      (lastPage (CatalogSources.listPage lower now u options.toListOptions false s).length
        options.limit) ∧
    PagesOf (CatalogSources.listPage lower now u options.toListOptions true s)
      (userOrder lower collation true options.sort)
      (fun n => listDuePage lower collation now u { options with page := n } s)
      (pageSize options.limit)
      (lastPage (CatalogSources.listPage lower now u options.toListOptions true s).length
        options.limit) ∧
    PagesOf (CatalogSources.listPublicPage lower options.toListOptions s)
      (publicOrder lower collation options.sort)
      (fun n => listPublicPage lower collation { options with page := n } s)
      (pageSize options.limit)
      (lastPage (CatalogSources.listPublicPage lower options.toListOptions s).length
        options.limit)

theorem catalog_paged (hcollation : IsKey collation) (now : Instant) (u : UserId)
    (options : PageOptions) (s : CatalogState) : Paged lower collation now u options s := by
  refine ⟨list_pages hcollation now u options false s, list_pages hcollation now u options true s, ?_⟩
  refine paginate_pages _ ((rows_nodup s).filter _)
    (lexLe_isKey (sortKeys_isKey hcollation _ _ _ _)) ?_ options.limit
  rintro ⟨w, r⟩ ha ⟨w', r'⟩ hb hab hba
  obtain rfl : w = w' := sortKeys_id hab hba
  cases (CatalogState.mem_rows.1 (List.mem_filter.1 ha).1).symm.trans
    (CatalogState.mem_rows.1 (List.mem_filter.1 hb).1)
  rfl

/-- The collation that compares character by character. -/
def plainCollation (a b : String) : Bool := a ≤ b

theorem plainCollation_isKey : IsKey plainCollation :=
  ⟨fun a b => by simpa [plainCollation] using le_total a b,
    fun a b c => by simpa [plainCollation] using le_trans⟩

theorem oneWord_paged :
    Paged String.toLower plainCollation 0 1 { source := "mixed", limit := 15 } SourceAgreement.oneWord :=
  catalog_paged plainCollation_isKey 0 1 { source := "mixed", limit := 15 } SourceAgreement.oneWord

end Lists

end CatalogPages
