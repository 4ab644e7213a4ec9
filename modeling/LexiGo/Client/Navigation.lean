import LexiGo.ClientValues
import LexiGo.Text.UrlReference

/-! The screens of the client and their addresses: a target is written as a path and a
query, and an address is read as a target. -/
namespace Navigation
open ClientValues JsText UrlEncoded UrlReference

inductive AppView
  | home | learn | phrases | library | progress | profile | onboarding | lesson | scenario
  deriving DecidableEq

inductive NavigationSource
  | mixed | noun | verb | adjective | phrases | dailyLife | travel | dataEngineering | backend
  | academicTechnicalEnglish
  deriving DecidableEq

inductive CatalogStatus
  | new | learning | review | mastered
  deriving DecidableEq

inductive CatalogSort
  | default | az | za
  deriving DecidableEq

structure NavigationTarget where
  view : AppView
  source : Option NavigationSource := none
  topic : Option String := none
  status : Option CatalogStatus := none
  query : Option String := none
  sort : Option CatalogSort := none
  page : Option JsNumber := none
  detail : Option String := none
  deriving DecidableEq

def views : List (String × AppView) :=
  [("home", .home), ("learn", .learn), ("phrases", .phrases), ("library", .library),
    ("progress", .progress), ("profile", .profile), ("onboarding", .onboarding),
    ("lesson", .lesson), ("scenario", .scenario)]

def sources : List (String × NavigationSource) :=
  [("mixed", .mixed), ("noun", .noun), ("verb", .verb), ("adjective", .adjective),
    ("phrases", .phrases), ("daily-life", .dailyLife), ("travel", .travel),
    ("data-engineering", .dataEngineering), ("backend", .backend),
    ("academic-technical-english", .academicTechnicalEnglish)]

def catalogStatuses : List (String × CatalogStatus) :=
  [("new", .new), ("learning", .learning), ("review", .review), ("mastered", .mastered)]

def catalogSorts : List (String × CatalogSort) := [("default", .default), ("az", .az), ("za", .za)]

/-- The member of a set of texts, as the value that it stands for. -/
def memberOf {α : Type} (table : List (String × α)) (s : String) : Option α :=
  (table.find? (·.1 = s)).map (·.2)

/-- The text that stands for a value. -/
def textOf {α : Type} [DecidableEq α] (table : List (String × α)) (a : α) : String :=
  ((table.find? (·.2 = a)).map (·.1)).getD ""

def maxRouteValueLength : Nat := 120

/-- `normalizedText` of a string. -/
def normalizedString (value : String) : Option String :=
  let normalized := trim value
  if normalized ≠ "" ∧ length normalized ≤ maxRouteValueLength then some normalized else none

def normalizedText (value : JsValue) : Option String := (text value).bind normalizedString

def normalizedPage : JsValue → Option JsNumber
  | .number (.integer n) => if 0 < n then some (.integer n) else none
  | .string s => (digitsValue s).bind fun n => if 0 < n then some (.integer n) else none
  | _ => none

/-- A property that is absent or of its kind; `none` where it is neither. -/
def optionalProperty {α : Type} (f : JsValue → Option α) (value : JsValue) : Option (Option α) :=
  if isUndefined value then some none else (f value).map some

/-- Pages from the second on are kept. -/
def laterPage (page : Option JsNumber) : Option JsNumber :=
  page.filter fun
    | .integer n => 1 < n
    | _ => false

/-- A value that is a text of a set. -/
def memberText {α : Type} (table : List (String × α)) (value : JsValue) : Option α :=
  (text value).bind (memberOf table)

def normalizeNavigation (candidate : JsValue) : Option NavigationTarget :=
  if !isRecord candidate then none
  else do
    let view ← memberText views (property "view" candidate)
    let source ← optionalProperty (memberText sources) (property "source" candidate)
    let status ← optionalProperty (memberText catalogStatuses) (property "status" candidate)
    let sort ← optionalProperty (memberText catalogSorts) (property "sort" candidate)
    let page ← optionalProperty normalizedPage (property "page" candidate)
    let topic ← optionalProperty normalizedText (property "topic" candidate)
    let query ← optionalProperty normalizedText (property "query" candidate)
    let detail ← optionalProperty normalizedText (property "detail" candidate)
    some { view, source, topic, status, query, sort, page := laterPage page, detail }

/-- A target as a value: the fields that it has. -/
def NavigationTarget.value (t : NavigationTarget) : JsValue :=
  record
    [("view", some (.string (textOf views t.view))),
      ("source", t.source.map fun s => .string (textOf sources s)),
      ("topic", t.topic.map .string),
      ("status", t.status.map fun s => .string (textOf catalogStatuses s)),
      ("query", t.query.map .string),
      ("sort", t.sort.map fun s => .string (textOf catalogSorts s)),
      ("page", t.page.map .number),
      ("detail", t.detail.map .string)]

def normalizePathname (value : String) : String :=
  let pathname := trim value
  if pathname = "" || pathname = "/" then "/"
  else
    let path := String.ofList (pathname.toList.rdropWhile (· = '/'))
    if path = "" then "/" else path

/-- What follows a parent in a path of two segments. -/
def childOf (parent pathname : String) : Option String :=
  match pathname.toList.splitOn '/' with
  | [[], a, child] => if a = parent.toList && child ≠ [] then some (String.ofList child) else none
  | _ => none

def isSlugPart (part : List Char) : Bool :=
  part ≠ [] && part.all fun c => c.isLower || c.isDigit

def isScenarioSlug (value : String) : Bool := (value.toList.splitOn '-').all isSlugPart

/-- The digits of a number that does not begin with a zero. -/
def isWordId (value : String) : Bool :=
  value.toList.head?.any (fun c => c.isDigit && c ≠ '0') && value.toList.all Char.isDigit

def safeDecodePathSegment (value : String) : String := (decodeURIComponent value).getD ""

def encodedPathSegment (value : String) : String :=
  (normalizedString value).elim "" encodeURIComponent

def pathnameTarget (pathname : String) : NavigationTarget :=
  let normalized := normalizePathname pathname
  if normalized = "/" then { view := .home }
  else if normalized = "/learn" then { view := .learn }
  else if normalized = "/phrases" then { view := .phrases }
  else if normalized = "/dictionary" then { view := .library }
  else if normalized = "/progress" then { view := .progress }
  else if normalized = "/profile" then { view := .profile }
  else if normalized = "/onboarding" then { view := .onboarding }
  else if normalized = "/scenarios" then { view := .scenario }
  else
    match childOf "phrases" normalized with
    | some phrase => { view := .phrases, detail := normalizedString (safeDecodePathSegment phrase) }
    | none =>
      match (childOf "words" normalized).filter isWordId with
      | some word => { view := .library, detail := some word }
      | none =>
        match childOf "lesson" normalized with
        | some lesson =>
          { view := .lesson, detail := normalizedString (safeDecodePathSegment lesson) }
        | none =>
          match (childOf "scenarios" normalized).bind fun scenario =>
            (normalizedString (safeDecodePathSegment scenario)).filter isScenarioSlug with
          | some detail => { view := .scenario, detail := some detail }
          | none => { view := .home }

/-- The names and values of a search, which may begin with its mark, or with two. -/
def searchParams (search : String) : List (String × String) :=
  let dropMark := fun text : List Char => if text.head? = some '?' then text.drop 1 else text
  parseQuery (dropMark (dropMark search.toList))

def parseNavigation (search pathname : String) : NavigationTarget :=
  let params := searchParams search
  let fromPath := pathnameTarget pathname
  { view := ((get "view" params).bind (memberOf views)).getD fromPath.view
    source := ((get "source" params).bind (memberOf sources)).or fromPath.source
    topic := ((get "topic" params).bind normalizedString).or fromPath.topic
    status := ((get "status" params).bind (memberOf catalogStatuses)).or fromPath.status
    query := ((get "query" params).bind normalizedString).or fromPath.query
    sort := ((get "sort" params).bind (memberOf catalogSorts)).or fromPath.sort
    page := laterPage (((get "page" params).bind fun s => normalizedPage (.string s)).or fromPath.page)
    detail := ((get "detail" params).bind normalizedString).or fromPath.detail }

def parseNavigationLocation (location : Url) : NavigationTarget :=
  parseNavigation location.search location.pathname

def primaryPath : AppView → String
  | .home => "/"
  | .learn => "/learn"
  | .phrases => "/phrases"
  | .library => "/dictionary"
  | .progress => "/progress"
  | .profile => "/profile"
  | .onboarding => "/onboarding"
  | .lesson => ""
  | .scenario => ""

/-- What is not accepted is taken for the home screen. -/
def normalizedTarget (target : NavigationTarget) : NavigationTarget :=
  (normalizeNavigation target.value).getD { view := .home }

def routePath (target : NavigationTarget) : String :=
  let normalized := normalizedTarget target
  match normalized.view, normalized.detail with
  | .lesson, detail => "/lesson/" ++ encodedPathSegment (detail.getD "active")
  | .scenario, some detail =>
    if isScenarioSlug detail then "/scenarios/" ++ encodedPathSegment detail else "/scenarios"
  | .scenario, none => "/scenarios"
  | .library, some detail =>
    if detail.toList.all Char.isDigit then "/words/" ++ detail else primaryPath .library
  | .phrases, some detail => "/phrases/" ++ encodedPathSegment detail
  | view, _ => primaryPath view

/-- The query of a target's address. -/
def navigationParams (normalized : NavigationTarget) : List (String × String) :=
  present
    [("source", normalized.source.map (textOf sources)),
      ("topic", normalized.topic),
      ("status", normalized.status.map (textOf catalogStatuses)),
      ("query", normalized.query),
      ("sort", (normalized.sort.filter (· ≠ .default)).map (textOf catalogSorts)),
      ("page", (laterPage normalized.page).map numberText)]

def navigationURL (target : NavigationTarget) : String :=
  let normalized := normalizedTarget target
  routePath normalized ++ searchOf (navigationParams normalized)

def isCanonicalRoutePath (pathname : String) : Bool :=
  let normalized := normalizePathname pathname
  normalized = "/" || normalized = "/scenarios" ||
    normalized ∈ [AppView.home, .learn, .phrases, .library, .progress, .profile, .onboarding].map
      primaryPath ||
    (childOf "phrases" normalized).isSome || (childOf "words" normalized).any isWordId ||
    normalized = "/lesson/active" ||
    (childOf "scenarios" normalized).any fun scenario =>
      isScenarioSlug (safeDecodePathSegment scenario)

theorem memberOf_views (view : AppView) : memberOf views (textOf views view) = some view := by
  cases view <;> decide

theorem memberOf_sources (source : NavigationSource) :
    memberOf sources (textOf sources source) = some source := by
  cases source <;> decide

theorem memberOf_statuses (status : CatalogStatus) :
    memberOf catalogStatuses (textOf catalogStatuses status) = some status := by
  cases status <;> decide

theorem memberOf_sorts (sort : CatalogSort) :
    memberOf catalogSorts (textOf catalogSorts sort) = some sort := by
  cases sort <;> decide

theorem normalizedString_again {s s' : String} (h : normalizedString s = some s') :
    normalizedString s' = some s' := by
  unfold normalizedString at h ⊢
  by_cases hs : trim s ≠ "" ∧ length (trim s) ≤ maxRouteValueLength
  · rw [if_pos hs, Option.some.injEq] at h
    rw [← h, trim_trim, if_pos hs]
  · rw [if_neg hs] at h
    cases h

/-- What normalising leaves as it is. -/
structure Normal (t : NavigationTarget) : Prop where
  topic : ∀ s ∈ t.topic, normalizedString s = some s
  query : ∀ s ∈ t.query, normalizedString s = some s
  detail : ∀ s ∈ t.detail, normalizedString s = some s
  page : ∀ x ∈ t.page, ∃ n : Int, x = .integer n ∧ 1 < n

theorem optionalProperty_map {α β : Type} {f : JsValue → Option β} {g : α → JsValue}
    (hg : ∀ a, isUndefined (g a) = false) (o : Option α) :
    optionalProperty f ((o.map g).getD .undefined) = o.elim (some none) fun a => (f (g a)).map some := by
  cases o with
  | none => rfl
  | some a => simp [optionalProperty, hg]

/-- Each field of a target is read from its value by itself. -/
theorem normalizeNavigation_value (t : NavigationTarget) :
    normalizeNavigation t.value = (do
      let page ← t.page.elim (some none) fun x => (normalizedPage (.number x)).map some
      let topic ← t.topic.elim (some none) fun s => (normalizedString s).map some
      let query ← t.query.elim (some none) fun s => (normalizedString s).map some
      let detail ← t.detail.elim (some none) fun s => (normalizedString s).map some
      some { t with page := laterPage page, topic, query, detail }) := by
  have hstring : ∀ s, isUndefined (.string s) = false := fun _ => rfl
  have hnumber : ∀ x, isUndefined (.number x) = false := fun _ => rfl
  have hview : memberText views (property "view" t.value) = some t.view := by
    simp [NavigationTarget.value, memberText, text, memberOf_views]
  have hsource : optionalProperty (memberText sources) (property "source" t.value) =
      some t.source := by
    cases h : t.source <;>
      simp [NavigationTarget.value, property_record_ne, optionalProperty, isUndefined, memberText,
        text, memberOf_sources, h]
  have hstatus : optionalProperty (memberText catalogStatuses) (property "status" t.value) =
      some t.status := by
    cases h : t.status <;>
      simp [NavigationTarget.value, property_record_ne, optionalProperty, isUndefined, memberText,
        text, memberOf_statuses, h]
  have hsort : optionalProperty (memberText catalogSorts) (property "sort" t.value) =
      some t.sort := by
    cases h : t.sort <;>
      simp [NavigationTarget.value, property_record_ne, optionalProperty, isUndefined, memberText,
        text, memberOf_sorts, h]
  have hpage : property "page" t.value = (t.page.map .number).getD .undefined := by
    simp [NavigationTarget.value, property_record_ne]
  have htopic : property "topic" t.value = (t.topic.map .string).getD .undefined := by
    simp [NavigationTarget.value, property_record_ne]
  have hquery : property "query" t.value = (t.query.map .string).getD .undefined := by
    simp [NavigationTarget.value, property_record_ne]
  have hdetail : property "detail" t.value = (t.detail.map .string).getD .undefined := by
    simp [NavigationTarget.value, property_record_ne]
  have hrecord : ¬(!isRecord t.value) = true := Bool.false_ne_true
  rw [normalizeNavigation, if_neg hrecord, hview, hsource, hstatus, hsort, hpage, htopic, hquery,
    hdetail, optionalProperty_map hnumber, optionalProperty_map hstring,
    optionalProperty_map hstring, optionalProperty_map hstring]
  rfl

theorem normalPage {x : JsNumber} {y : JsNumber} (h : normalizedPage (.number x) = some y) :
    y = x ∧ ∃ n : Int, x = .integer n ∧ 0 < n := by
  cases x with
  | integer n =>
    by_cases hn : 0 < n
    · rw [normalizedPage, if_pos hn, Option.some.injEq] at h
      exact ⟨h.symm, n, rfl, hn⟩
    · rw [normalizedPage, if_neg hn] at h
      cases h
  | fraction => cases h
  | negativeZero => cases h
  | nan => cases h
  | infinity => cases h

theorem laterPage_spec {page : Option JsNumber} {x : JsNumber} (h : x ∈ laterPage page) :
    ∃ n : Int, x = .integer n ∧ 1 < n := by
  obtain ⟨-, hx⟩ := Option.filter_eq_some_iff.1 h
  cases x with
  | integer n => exact ⟨n, rfl, of_decide_eq_true hx⟩
  | fraction => cases hx
  | negativeZero => cases hx
  | nan => cases hx
  | infinity => cases hx

/-- An optional field that has been read is the one that was there, in its normal form. -/
theorem read_optional {α β : Type} {f : α → Option β} {o : Option α} {r : Option β}
    (h : (o.elim (some none) fun a => (f a).map some) = some r) :
    ∀ b ∈ r, ∃ a ∈ o, f a = some b := by
  intro b hb
  cases o with
  | none =>
    cases h
    cases hb
  | some a =>
    obtain ⟨b', hb', heq⟩ := Option.map_eq_some_iff.1 h
    rw [← heq] at hb
    cases hb
    exact ⟨a, rfl, hb'⟩

theorem normal_of_normalizeNavigation {t n : NavigationTarget}
    (h : normalizeNavigation t.value = some n) : Normal n ∧ n.view = t.view := by
  rw [normalizeNavigation_value] at h
  obtain ⟨page, -, h⟩ := Option.bind_eq_some_iff.1 h
  obtain ⟨topic, htopic, h⟩ := Option.bind_eq_some_iff.1 h
  obtain ⟨query, hquery, h⟩ := Option.bind_eq_some_iff.1 h
  obtain ⟨detail, hdetail, h⟩ := Option.bind_eq_some_iff.1 h
  cases h
  refine ⟨⟨?_, ?_, ?_, fun x hx => laterPage_spec hx⟩, rfl⟩
  · intro s hs
    obtain ⟨a, -, ha⟩ := read_optional htopic s hs
    exact normalizedString_again ha
  · intro s hs
    obtain ⟨a, -, ha⟩ := read_optional hquery s hs
    exact normalizedString_again ha
  · intro s hs
    obtain ⟨a, -, ha⟩ := read_optional hdetail s hs
    exact normalizedString_again ha

theorem read_same {α : Type} {f : α → Option α} {o : Option α} (h : ∀ a ∈ o, f a = some a) :
    (o.elim (some none) fun a => (f a).map some) = some o := by
  cases o with
  | none => rfl
  | some a =>
    change (f a).map some = _
    rw [h a rfl]
    rfl

theorem Normal.laterPage {t : NavigationTarget} (h : Normal t) :
    Navigation.laterPage t.page = t.page := by
  cases hpage : t.page with
  | none => rfl
  | some x =>
    obtain ⟨n, rfl, hn⟩ := h.page x hpage
    exact Option.filter_eq_some_iff.2 ⟨rfl, decide_eq_true hn⟩

theorem Normal.normalizeNavigation {t : NavigationTarget} (h : Normal t) :
    Navigation.normalizeNavigation t.value = some t := by
  have hpage : ∀ x ∈ t.page, normalizedPage (.number x) = some x := by
    intro x hx
    obtain ⟨n, rfl, hn⟩ := h.page x hx
    exact if_pos (by omega)
  rw [normalizeNavigation_value, read_same hpage, read_same h.topic, read_same h.query,
    read_same h.detail]
  change some { t with page := Navigation.laterPage t.page } = some t
  rw [h.laterPage]

theorem Normal.normalizedTarget {t : NavigationTarget} (h : Normal t) :
    Navigation.normalizedTarget t = t := by
  rw [Navigation.normalizedTarget, h.normalizeNavigation, Option.getD_some]

theorem graphic_not_whiteSpace {c : Char} (h : pathKept c = true) : isWhiteSpace c = false := by
  simp only [pathKept, Bool.and_eq_true, decide_eq_true_eq] at h
  have hrange : ' ' < c ∧ c ≤ '~' := ⟨h.1.1.1.1.1.1.1.1.1.1, h.1.1.1.1.1.1.1.1.1.2⟩
  simp only [Char.lt_def, Char.le_def, UInt32.lt_iff_toNat_lt, UInt32.le_iff_toNat_le] at hrange
  exact isWhiteSpace_graphic hrange.1 hrange.2

/-- A path of plain segments is normal, unless it ends in a slash. -/
theorem normalizePathname_pathOf {segments : List (List Char)} {last : List Char}
    (h : ∀ s ∈ segments, Plain s) (hlast : segments.getLast? = some last) (hne : last ≠ []) :
    normalizePathname (pathOf segments) = pathOf segments := by
  have hkept : ∀ c ∈ '/' :: ['/'].intercalate segments, isWhiteSpace c = false := by
    intro c hc
    rcases List.mem_cons.1 hc with rfl | hc
    · decide
    · exact graphic_not_whiteSpace (mem_path h hc).1
  have htrim : trim (pathOf segments) = pathOf segments := by
    unfold trim pathOf
    rw [String.toList_ofList, ListParts.strip_eq_self _
      (fun c hc => hkept c (List.mem_of_mem_head? hc)) fun c hc => hkept c (List.mem_of_getLast? hc)]
  obtain ⟨front, c, hfront⟩ : ∃ front c, last = front ++ [c] :=
    ⟨last.dropLast, last.getLast hne, (List.dropLast_append_getLast hne).symm⟩
  obtain ⟨before, hbefore⟩ : ∃ before, '/' :: ['/'].intercalate segments = before ++ [c] := by
    obtain ⟨init, hinit⟩ := List.getLast?_eq_some_iff.1 hlast
    rw [hinit, hfront]
    cases init with
    | nil => exact ⟨'/' :: front, by simp⟩
    | cons s rest =>
      rw [SeparatedLists.intercalate_concat _ _ (List.cons_ne_nil _ _)]
      exact ⟨'/' :: (['/'].intercalate (s :: rest) ++ ['/'] ++ front), by simp⟩
  have hc : c ≠ '/' := by
    rintro rfl
    have hplain := h last (List.mem_of_getLast? hlast)
    exact hplain.slash_free (by rw [hfront]; exact List.mem_append_right _ List.mem_cons_self)
  have hpath : (pathOf segments).toList = before ++ [c] := by rw [pathOf, String.toList_ofList, hbefore]
  have hdrop : (pathOf segments).toList.rdropWhile (· = '/') = (pathOf segments).toList := by
    rw [hpath]
    exact List.rdropWhile_concat_neg _ _ _ (by simpa using hc)
  have hnot : ∀ text : List Char, (∀ d ∈ text, d = '/') → pathOf segments ≠ String.ofList text := by
    intro text htext heq
    rw [← String.toList_inj, hpath, String.toList_ofList] at heq
    exact hc (htext c (by rw [← heq]; exact List.mem_append_right _ List.mem_cons_self))
  have hempty : pathOf segments ≠ "" := hnot [] fun d hd => absurd hd List.not_mem_nil
  have hroot : pathOf segments ≠ "/" := hnot ['/'] fun d hd => List.mem_singleton.1 hd
  unfold normalizePathname
  rw [htrim]
  dsimp only
  rw [hdrop, String.ofList_toList]
  simp [hempty, hroot]

/-- Where a path of two segments is looked for. -/
theorem childOf_pathOf {parent child : List Char} (hparent : Plain parent) (hchild : Plain child)
    (hne : child ≠ []) (a : String) :
    childOf a (pathOf [parent, child]) =
      if parent = a.toList then some (String.ofList child) else none := by
  have hfree : ∀ s ∈ [parent, child], '/' ∉ s := by
    intro s hs
    rcases List.mem_cons.1 hs with rfl | hs
    · exact hparent.slash_free
    · rw [List.mem_singleton.1 hs]
      exact hchild.slash_free
  unfold childOf
  rw [splitOn_pathOf (List.cons_ne_nil _ _) hfree]
  simp [hne]

theorem pathOf_ne {parent child : List Char} (hparent : Plain parent) (hchild : Plain child)
    {p : String} (hp : (p.toList.splitOn '/').length = 2) : pathOf [parent, child] ≠ p := by
  rintro rfl
  rw [splitOn_pathOf (List.cons_ne_nil _ _)] at hp
  · cases hp
  · intro s hs
    rcases List.mem_cons.1 hs with rfl | hs
    · exact hparent.slash_free
    · rw [List.mem_singleton.1 hs]
      exact hchild.slash_free

theorem searchParams_mark (params : List (String × String)) :
    searchParams (String.ofList ('?' :: serialize params)) = params := by
  have hhead : (serialize params).head? ≠ some '?' := by
    intro h
    rcases mem_serialize (List.mem_of_mem_head? h) with h | h | h | h | h
    · exact absurd h (by decide)
    all_goals exact absurd h (by decide)
  unfold searchParams
  rw [String.toList_ofList]
  dsimp only
  rw [List.head?_cons, if_pos rfl, List.drop_one, List.tail_cons, if_neg hhead, parseQuery_serialize]

theorem searchParams_searchOf (params : List (String × String)) :
    searchParams (searchOf params) = params := by
  unfold searchOf
  cases htext : serialize params with
  | nil =>
    rw [← parseQuery_serialize params, htext]
    rfl
  | cons c text =>
    have hmark := searchParams_mark params
    rwa [htext] at hmark

/-- The first segment of the paths that carry a detail. -/
def parentSegment : AppView → String
  | .phrases => "phrases"
  | .library => "words"
  | .lesson => "lesson"
  | _ => "scenarios"

/-- The segment of the paths that carry none. -/
def screenSegment : AppView → String
  | .home => ""
  | .learn => "learn"
  | .phrases => "phrases"
  | .library => "dictionary"
  | .progress => "progress"
  | .profile => "profile"
  | .onboarding => "onboarding"
  | .lesson => "lesson"
  | .scenario => "scenarios"

/-- The part of the detail that the path carries. -/
def routeDetail (n : NavigationTarget) : Option String :=
  match n.view with
  | .lesson => some (n.detail.getD "active")
  | .scenario => n.detail.filter isScenarioSlug
  | .library => n.detail.filter fun detail => detail.toList.all Char.isDigit
  | .phrases => n.detail
  | _ => none

def detailPath (view : AppView) (detail : String) : String :=
  pathOf [(parentSegment view).toList, (encodeURIComponent detail).toList]

def screenPath (view : AppView) : String := pathOf [(screenSegment view).toList]

theorem encodeURIComponent_kept {s : String} (h : ∀ c ∈ s.toList, unreserved c = true) :
    encodeURIComponent s = s := by
  rw [encodeURIComponent, encodeWith_kept h, String.ofList_toList]

theorem digits_unreserved {s : String} (h : s.toList.all Char.isDigit = true) :
    ∀ c ∈ s.toList, unreserved c = true := by
  intro c hc
  simp [unreserved, Char.isAlphanum, List.all_eq_true.1 h c hc]

theorem slug_unreserved {s : String} (h : isScenarioSlug s = true) :
    ∀ c ∈ s.toList, unreserved c = true := by
  intro c hc
  rcases ListParts.mem_part (p := (· == '-')) hc with hhyphen | ⟨part, hpart, hmem⟩
  · rw [beq_iff_eq.1 hhyphen]
    decide
  · have hslug := List.all_eq_true.1 h part hpart
    simp only [isSlugPart, Bool.and_eq_true, List.all_eq_true, Bool.or_eq_true] at hslug
    rcases hslug.2 c hmem with hletter | hdigit
    · simp [unreserved, Char.isAlphanum, Char.isAlpha, hletter]
    · simp [unreserved, Char.isAlphanum, hdigit]

/-- A detail that the path carries is normal. -/
theorem Normal.routeDetail {n : NavigationTarget} (h : Normal n) {d : String}
    (hd : Navigation.routeDetail n = some d) :
    normalizedString d = some d ∧ (n.detail = some d ∨ n.view = .lesson ∧ n.detail = none) := by
  unfold Navigation.routeDetail at hd
  cases hview : n.view with
  | lesson =>
    rw [hview] at hd
    cases hdetail : n.detail with
    | none =>
      rw [hdetail] at hd
      cases hd
      exact ⟨by decide, .inr ⟨rfl, rfl⟩⟩
    | some s =>
      rw [hdetail] at hd
      cases hd
      exact ⟨h.detail s hdetail, .inl rfl⟩
  | scenario =>
    rw [hview] at hd
    have hdetail := (Option.filter_eq_some_iff.1 hd).1
    exact ⟨h.detail d hdetail, .inl hdetail⟩
  | library =>
    rw [hview] at hd
    have hdetail := (Option.filter_eq_some_iff.1 hd).1
    exact ⟨h.detail d hdetail, .inl hdetail⟩
  | phrases =>
    rw [hview] at hd
    exact ⟨h.detail d hd, .inl hd⟩
  | home => rw [hview] at hd; cases hd
  | learn => rw [hview] at hd; cases hd
  | progress => rw [hview] at hd; cases hd
  | profile => rw [hview] at hd; cases hd
  | onboarding => rw [hview] at hd; cases hd

theorem encodedPathSegment_normal {d : String} (h : normalizedString d = some d) :
    encodedPathSegment d = encodeURIComponent d := by
  rw [encodedPathSegment, h]
  rfl

theorem detailPath_eq (view : AppView) (d : String) :
    detailPath view d = "/" ++ parentSegment view ++ "/" ++ encodeURIComponent d := by
  rw [← String.toList_inj]
  simp [detailPath, pathOf, List.intercalate_cons_cons]

/-- The path of a target, by its screen and the detail that it carries. -/
theorem routePath_eq {n : NavigationTarget} (h : Normal n) :
    routePath n = (routeDetail n).elim (screenPath n.view) (detailPath n.view) := by
  have hsegment : ∀ d, routeDetail n = some d →
      encodedPathSegment d = encodeURIComponent d := fun d hd =>
    encodedPathSegment_normal (h.routeDetail hd).1
  have hscreen : ∀ view : AppView, view ≠ .lesson → view ≠ .scenario →
      primaryPath view = screenPath view := by
    intro view
    cases view <;> decide
  have hscenarios : "/scenarios" = screenPath .scenario := by decide
  unfold routePath
  rw [h.normalizedTarget]
  dsimp only
  cases hview : n.view with
  | lesson =>
    have hd : routeDetail n = some (n.detail.getD "active") := by rw [routeDetail, hview]
    rw [hd, Option.elim_some, detailPath_eq, ← hsegment _ hd]
    rfl
  | scenario =>
    cases hdetail : n.detail with
    | none =>
      have hd : routeDetail n = none := by rw [routeDetail, hview, hdetail]; rfl
      rw [hd]
      exact hscenarios
    | some d =>
      by_cases hslug : isScenarioSlug d = true
      · have hd : routeDetail n = some d := by
          rw [routeDetail, hview, hdetail]
          exact if_pos hslug
        rw [hd, Option.elim_some, detailPath_eq, ← hsegment _ hd]
        exact if_pos hslug
      · have hd : routeDetail n = none := by
          rw [routeDetail, hview, hdetail]
          exact if_neg hslug
        rw [hd]
        exact (if_neg hslug).trans hscenarios
  | library =>
    cases hdetail : n.detail with
    | none =>
      have hd : routeDetail n = none := by rw [routeDetail, hview, hdetail]; rfl
      rw [hd]
      exact hscreen .library (by decide) (by decide)
    | some d =>
      by_cases hdigits : d.toList.all Char.isDigit = true
      · have hd : routeDetail n = some d := by
          rw [routeDetail, hview, hdetail]
          exact if_pos hdigits
        rw [hd, Option.elim_some, detailPath_eq, encodeURIComponent_kept (digits_unreserved hdigits)]
        exact if_pos hdigits
      · have hd : routeDetail n = none := by
          rw [routeDetail, hview, hdetail]
          exact if_neg hdigits
        rw [hd]
        exact (if_neg hdigits).trans (hscreen .library (by decide) (by decide))
  | phrases =>
    cases hdetail : n.detail with
    | none =>
      have hd : routeDetail n = none := by rw [routeDetail, hview, hdetail]
      rw [hd]
      exact hscreen .phrases (by decide) (by decide)
    | some d =>
      have hd : routeDetail n = some d := by rw [routeDetail, hview, hdetail]
      rw [hd, Option.elim_some, detailPath_eq, ← hsegment _ hd]
      rfl
  | home => rw [routeDetail, hview]; exact hscreen .home (by decide) (by decide)
  | learn => rw [routeDetail, hview]; exact hscreen .learn (by decide) (by decide)
  | progress => rw [routeDetail, hview]; exact hscreen .progress (by decide) (by decide)
  | profile => rw [routeDetail, hview]; exact hscreen .profile (by decide) (by decide)
  | onboarding => rw [routeDetail, hview]; exact hscreen .onboarding (by decide) (by decide)

theorem pathnameTarget_screen {view : AppView} (h : view ≠ .lesson) :
    pathnameTarget (screenPath view) = { view := view } := by
  cases view with
  | lesson => exact absurd rfl h
  | _ => decide +kernel

theorem parent_plain (view : AppView) : Plain (parentSegment view).toList := by
  cases view <;> exact ⟨ListParts.forall_of_all (by decide), by decide, by decide⟩

theorem screen_plain (view : AppView) : Plain (screenSegment view).toList := by
  cases view <;> exact ⟨ListParts.forall_of_all (by decide), by decide, by decide⟩

theorem encoded_nonempty {d : String} (h : normalizedString d = some d) :
    (encodeURIComponent d).toList ≠ [] := by
  intro hnil
  have hempty : encodeURIComponent d = "" := by rw [← String.toList_inj, hnil]; rfl
  have hback := decodeURIComponent_encode d
  rw [hempty] at hback
  have hd : d = "" := (Option.some.inj hback).symm
  rw [hd] at h
  exact absurd h (by decide)

/-- The screens whose paths carry a detail, each with the details that its paths read. -/
def Reads : AppView → String → Prop
  | .phrases, _ => True
  | .lesson, _ => True
  | .library, d => isWordId d = true
  | .scenario, d => isScenarioSlug d = true
  | _, _ => False

theorem normalize_detailPath {view : AppView} {d : String} (hnormal : normalizedString d = some d)
    (hplain : Plain (encodeURIComponent d).toList) :
    normalizePathname (detailPath view d) = detailPath view d := by
  refine normalizePathname_pathOf ?_ rfl (encoded_nonempty hnormal)
  intro s hs
  rcases List.mem_cons.1 hs with rfl | hs
  · exact parent_plain view
  · rw [List.mem_singleton.1 hs]
    exact hplain

theorem childOf_detailPath {view : AppView} {d : String} (hnormal : normalizedString d = some d)
    (hplain : Plain (encodeURIComponent d).toList) (a : String) :
    childOf a (detailPath view d) =
      if (parentSegment view).toList = a.toList then some (encodeURIComponent d) else none := by
  rw [detailPath, childOf_pathOf (parent_plain view) hplain (encoded_nonempty hnormal),
    String.ofList_toList]

theorem detailPath_ne {view : AppView} {d : String} (hplain : Plain (encodeURIComponent d).toList)
    {p : String} (hp : (p.toList.splitOn '/').length = 2) : detailPath view d ≠ p :=
  pathOf_ne (parent_plain view) hplain hp

theorem decode_segment {d : String} (hnormal : normalizedString d = some d) :
    normalizedString (safeDecodePathSegment (encodeURIComponent d)) = some d := by
  rw [safeDecodePathSegment, decodeURIComponent_encode, Option.getD_some, hnormal]

theorem pathnameTarget_detail {view : AppView} {d : String}
    (hnormal : normalizedString d = some d) (hplain : Plain (encodeURIComponent d).toList)
    (hreads : Reads view d) :
    pathnameTarget (detailPath view d) = { view := view, detail := some d } := by
  have hne : ∀ {p : String}, (p.toList.splitOn '/').length = 2 → detailPath view d ≠ p :=
    fun hp => detailPath_ne hplain hp
  unfold pathnameTarget
  rw [normalize_detailPath hnormal hplain]
  dsimp only
  rw [if_neg (hne (by decide)), if_neg (hne (by decide)), if_neg (hne (by decide)),
    if_neg (hne (by decide)), if_neg (hne (by decide)), if_neg (hne (by decide)),
    if_neg (hne (by decide)), if_neg (hne (by decide)), childOf_detailPath hnormal hplain,
    childOf_detailPath hnormal hplain, childOf_detailPath hnormal hplain,
    childOf_detailPath hnormal hplain]
  cases view with
  | phrases =>
    rw [if_pos (by decide)]
    dsimp only
    rw [decode_segment hnormal]
  | library =>
    have hword : isWordId d = true := hreads
    have hkept : encodeURIComponent d = d := by
      refine encodeURIComponent_kept (digits_unreserved ?_)
      simp only [isWordId, Bool.and_eq_true] at hword
      exact hword.2
    rw [if_neg (by decide), if_pos (by decide), hkept, Option.filter_some, if_pos hword]
  | lesson =>
    rw [if_neg (by decide), if_neg (by decide), if_pos (by decide)]
    dsimp only [Option.filter]
    rw [decode_segment hnormal]
  | scenario =>
    have hslug : isScenarioSlug d = true := hreads
    rw [if_neg (by decide), if_neg (by decide), if_neg (by decide), if_pos (by decide),
      Option.bind_some, decode_segment hnormal, Option.filter_some, if_pos hslug]
    rfl
  | home => exact hreads.elim
  | learn => exact hreads.elim
  | progress => exact hreads.elim
  | profile => exact hreads.elim
  | onboarding => exact hreads.elim

/-- The pages that a query can carry: from 2^53 on their text is not read as a page. -/
def SafePage (n : NavigationTarget) : Prop :=
  ∀ m : Int, n.page = some (.integer m) → m ≤ (maxSafeInteger : Nat)

theorem page_read {n : NavigationTarget} (h : Normal n) (hpage : SafePage n) :
    ((n.page.map numberText).bind fun s => normalizedPage (.string s)) = n.page := by
  cases hn : n.page with
  | none => rfl
  | some x =>
    obtain ⟨m, rfl, hm⟩ := h.page x hn
    obtain ⟨k, rfl⟩ := Int.eq_ofNat_of_zero_le (show 0 ≤ m by omega)
    have hk : k ≤ maxSafeInteger := by
      have := hpage k hn
      omega
    rw [Option.map_some, Option.bind_some, normalizedPage, digitsValue_decimal hk, Option.bind_some,
      if_pos (by omega)]

/-- The target that an address is read as: what its query says, and the screen and the
detail of its path. -/
theorem parseNavigation_route {n : NavigationTarget} (h : Normal n) (hpage : SafePage n)
    {path : String} {view : AppView} {detail : Option String}
    (hpath : pathnameTarget path = { view := view, detail := detail }) :
    parseNavigation (searchOf (navigationParams n)) path =
      { n with view := view, sort := n.sort.filter (· ≠ .default), detail := detail } := by
  have hview : get "view" (navigationParams n) = none := by
    simp [navigationParams, get_present_ne]
  have hsource : ((get "source" (navigationParams n)).bind (memberOf sources)) = n.source := by
    cases hn : n.source <;> simp [navigationParams, get_present_ne, memberOf_sources, hn]
  have htopic : ((get "topic" (navigationParams n)).bind normalizedString) = n.topic := by
    cases hn : n.topic with
    | none => simp [navigationParams, get_present_ne, hn]
    | some s => simp [navigationParams, get_present_ne, hn, h.topic s hn]
  have hstatus : ((get "status" (navigationParams n)).bind (memberOf catalogStatuses)) = n.status := by
    cases hn : n.status <;> simp [navigationParams, get_present_ne, memberOf_statuses, hn]
  have hquery : ((get "query" (navigationParams n)).bind normalizedString) = n.query := by
    cases hn : n.query with
    | none => simp [navigationParams, get_present_ne, hn]
    | some s => simp [navigationParams, get_present_ne, hn, h.query s hn]
  have hsort : ((get "sort" (navigationParams n)).bind (memberOf catalogSorts)) =
      n.sort.filter (· ≠ .default) := by
    have hget : get "sort" (navigationParams n) =
        (n.sort.filter (· ≠ .default)).map (textOf catalogSorts) := by
      simp [navigationParams, get_present_ne]
    rw [hget]
    cases n.sort.filter (· ≠ .default) <;> simp [memberOf_sorts]
  have hget : get "page" (navigationParams n) = n.page.map numberText := by
    simp [navigationParams, get_present_ne, h.laterPage]
  have hdetail : get "detail" (navigationParams n) = none := by
    simp [navigationParams, get_present_ne]
  unfold parseNavigation
  rw [searchParams_searchOf, hpath]
  dsimp only
  rw [hview, hsource, htopic, hstatus, hquery, hsort, hget, page_read h hpage, hdetail]
  simp [h.laterPage]

/-- What the path of a target can carry and what it is read as. -/
structure Readable (n : NavigationTarget) : Prop where
  page : SafePage n
  reads : ∀ d, routeDetail n = some d → Reads n.view d
  dots : routeDetail n ≠ some "." ∧ routeDetail n ≠ some ".."

theorem Readable.plain {n : NavigationTarget} (h : Readable n) {d : String}
    (hd : routeDetail n = some d) : Plain (encodeURIComponent d).toList :=
  plain_encoded (fun heq => h.dots.1 (heq ▸ hd)) fun heq => h.dots.2 (heq ▸ hd)

theorem routeDetail_lesson {n : NavigationTarget} (h : routeDetail n = none) : n.view ≠ .lesson := by
  intro hview
  rw [routeDetail, hview] at h
  cases h

/-- The address of a target in a browser. -/
theorem url_route {t n : NavigationTarget} (ht : normalizeNavigation t.value = some n)
    (h : Readable n) (origin : String) :
    pathReference origin (navigationURL t) =
      { origin := origin, pathname := routePath n, search := searchOf (navigationParams n), hash := "" } := by
  obtain ⟨hnormal, -⟩ := normal_of_normalizeNavigation ht
  have htarget : normalizedTarget t = n := by rw [normalizedTarget, ht, Option.getD_some]
  unfold navigationURL
  rw [htarget]
  dsimp only
  rw [routePath_eq hnormal]
  cases hd : routeDetail n with
  | none =>
    refine pathReference_search origin (List.cons_ne_nil _ _) (fun s hs => ?_) _
    rw [List.mem_singleton.1 hs]
    exact screen_plain n.view
  | some d =>
    refine pathReference_search origin (List.cons_ne_nil _ _) (fun s hs => ?_) _
    rcases List.mem_cons.1 hs with rfl | hs
    · exact parent_plain n.view
    · rw [List.mem_singleton.1 hs]
      exact h.plain hd

theorem pathnameTarget_route {n : NavigationTarget} (hnormal : Normal n) (h : Readable n) :
    pathnameTarget (routePath n) = { view := n.view, detail := routeDetail n } := by
  rw [routePath_eq hnormal]
  cases hd : routeDetail n with
  | none => exact pathnameTarget_screen (routeDetail_lesson hd)
  | some d => exact pathnameTarget_detail (hnormal.routeDetail hd).1 (h.plain hd) (h.reads d hd)

/-- What is read from the address of a target. -/
def reread (n : NavigationTarget) : NavigationTarget :=
  { n with sort := n.sort.filter (· ≠ .default), detail := routeDetail n }

theorem reread_normal {n : NavigationTarget} (h : Normal n) : Normal (reread n) :=
  ⟨h.topic, h.query, fun _ hd => (h.routeDetail hd).1, h.page⟩

theorem routeDetail_reread (n : NavigationTarget) : routeDetail (reread n) = routeDetail n := by
  cases hview : n.view <;> simp [reread, routeDetail, hview]

theorem navigationURL_reread {n : NavigationTarget} (h : Normal n) :
    navigationURL (reread n) = navigationURL n := by
  have hparams : navigationParams (reread n) = navigationParams n := by
    simp [navigationParams, reread]
  unfold navigationURL
  rw [(reread_normal h).normalizedTarget, h.normalizedTarget]
  dsimp only
  rw [routePath_eq (reread_normal h), routePath_eq h, routeDetail_reread, hparams]
  rfl

theorem canonical_screen {view : AppView} (h : view ≠ .lesson) :
    isCanonicalRoutePath (screenPath view) = true := by
  cases view with
  | lesson => exact absurd rfl h
  | _ => decide +kernel

theorem detailPath_active {d : String} : detailPath .lesson d = "/lesson/active" ↔ d = "active" := by
  constructor
  · intro h
    rw [detailPath_eq, ← String.toList_inj, String.toList_append] at h
    have hencoded : encodeURIComponent d = "active" := by
      have hprefixed : "/lesson/".toList ++ (encodeURIComponent d).toList =
          "/lesson/".toList ++ "active".toList := h
      rw [← String.toList_inj]
      exact List.append_cancel_left hprefixed
    have hback := decodeURIComponent_encode d
    rw [hencoded] at hback
    exact (Option.some.inj hback).symm
  · rintro rfl
    decide +kernel

/-- Of the paths with a detail that is read, only those of other lessons are not canonical. -/
theorem canonical_detail {view : AppView} {d : String} (hnormal : normalizedString d = some d)
    (hplain : Plain (encodeURIComponent d).toList) (hreads : Reads view d) :
    isCanonicalRoutePath (detailPath view d) = true ↔ (view = .lesson → d = "active") := by
  have hne : ∀ {p : String}, (p.toList.splitOn '/').length = 2 → detailPath view d ≠ p :=
    fun hp => detailPath_ne hplain hp
  have hroot : decide (detailPath view d = "/") = false := decide_eq_false (hne (by decide))
  have hscenarios : decide (detailPath view d = "/scenarios") = false :=
    decide_eq_false (hne (by decide))
  have hprimary : decide (detailPath view d ∈
      [AppView.home, .learn, .phrases, .library, .progress, .profile, .onboarding].map
        primaryPath) = false := by
    refine decide_eq_false fun hmem => ?_
    obtain ⟨view', hview', heq⟩ := List.mem_map.1 hmem
    refine hne ?_ heq.symm
    have hall : ∀ view ∈ [AppView.home, .learn, .phrases, .library, .progress, .profile,
        .onboarding], ((primaryPath view).toList.splitOn '/').length = 2 := by decide
    exact hall view' hview'
  unfold isCanonicalRoutePath
  rw [normalize_detailPath hnormal hplain]
  dsimp only
  rw [hroot, hscenarios, hprimary, childOf_detailPath hnormal hplain,
    childOf_detailPath hnormal hplain, childOf_detailPath hnormal hplain]
  have hlesson : view ≠ .lesson → (view = .lesson → d = "active") := fun h heq => absurd heq h
  cases view with
  | phrases =>
    rw [if_pos (by decide)]
    refine iff_of_true ?_ (hlesson (by decide))
    simp only [Option.isSome_some, Bool.or_true, Bool.true_or]
  | library =>
    have hword : isWordId d = true := hreads
    have hkept : encodeURIComponent d = d := by
      refine encodeURIComponent_kept (digits_unreserved ?_)
      simp only [isWordId, Bool.and_eq_true] at hword
      exact hword.2
    rw [if_neg (by decide), if_pos (by decide), hkept]
    refine iff_of_true ?_ (hlesson (by decide))
    simp only [Option.any_some, hword, Bool.or_true, Bool.true_or]
  | lesson =>
    rw [if_neg (by decide), if_neg (by decide), if_neg (by decide)]
    simp only [Option.isSome_none, Option.any_none, Bool.false_or, Bool.or_false,
      decide_eq_true_eq, detailPath_active, forall_const]
  | scenario =>
    have hslug : isScenarioSlug (safeDecodePathSegment (encodeURIComponent d)) = true := by
      rw [safeDecodePathSegment, decodeURIComponent_encode]
      exact hreads
    rw [if_neg (by decide), if_neg (by decide), if_pos (by decide)]
    refine iff_of_true ?_ (hlesson (by decide))
    simp only [Option.any_some, hslug, Bool.or_true]
  | home => exact hreads.elim
  | learn => exact hreads.elim
  | progress => exact hreads.elim
  | profile => exact hreads.elim
  | onboarding => exact hreads.elim

/-- The word ids whose addresses are read as words: those that do not begin with a zero. -/
theorem reads_routeDetail {n : NavigationTarget}
    (hword : n.view = .library → ∀ d ∈ n.detail, d.toList.all Char.isDigit = true →
      d.toList.head? ≠ some '0') (hnormal : Normal n) :
    ∀ d, routeDetail n = some d → Reads n.view d := by
  intro d hd
  unfold routeDetail at hd
  cases hview : n.view with
  | lesson => trivial
  | phrases => trivial
  | scenario =>
    rw [hview] at hd
    exact (Option.filter_eq_some_iff.1 hd).2
  | library =>
    rw [hview] at hd
    obtain ⟨hdetail, hdigits⟩ := Option.filter_eq_some_iff.1 hd
    have hhead := hword hview d hdetail hdigits
    have hne : d.toList ≠ [] := by
      intro hnil
      have hempty : d = "" := by rw [← String.toList_inj, hnil]; rfl
      have hd := hnormal.detail d hdetail
      rw [hempty] at hd
      exact absurd hd (by decide)
    obtain ⟨c, rest, hcons⟩ := List.exists_cons_of_ne_nil hne
    change isWordId d = true
    rw [hcons] at hhead hdigits
    have hc : c ≠ '0' := fun h => hhead (congrArg some h)
    have hall := List.all_eq_true.1 hdigits
    simp only [isWordId, hcons, List.head?_cons, Option.any_some, hall c List.mem_cons_self,
      decide_eq_true hc, hdigits, Bool.and_self]
  | home => rw [hview] at hd; cases hd
  | learn => rw [hview] at hd; cases hd
  | progress => rw [hview] at hd; cases hd
  | profile => rw [hview] at hd; cases hd
  | onboarding => rw [hview] at hd; cases hd

theorem routeDetail_dots {n : NavigationTarget}
    (hdots : n.view = .phrases ∨ n.view = .lesson → n.detail ≠ some "." ∧ n.detail ≠ some "..")
    {d : String} (hd : d = "." ∨ d = "..") : routeDetail n ≠ some d := by
  intro h
  have hnot : n.view = .phrases ∨ n.view = .lesson → n.detail ≠ some d := by
    intro hview
    rcases hd with rfl | rfl
    · exact (hdots hview).1
    · exact (hdots hview).2
  unfold routeDetail at h
  cases hview : n.view with
  | lesson =>
    rw [hview] at h
    cases hdetail : n.detail with
    | none =>
      rw [hdetail] at h
      cases h
      exact absurd hd (by decide)
    | some s =>
      rw [hdetail] at h
      cases h
      exact hnot (.inr hview) hdetail
  | phrases =>
    rw [hview] at h
    exact hnot (.inl hview) h
  | scenario =>
    rw [hview] at h
    have hslug := (Option.filter_eq_some_iff.1 h).2
    rcases hd with rfl | rfl <;> exact absurd hslug (by decide)
  | library =>
    rw [hview] at h
    have hdigits := (Option.filter_eq_some_iff.1 h).2
    rcases hd with rfl | rfl <;> exact absurd hdigits (by decide)
  | home => rw [hview] at h; cases h
  | learn => rw [hview] at h; cases h
  | progress => rw [hview] at h; cases h
  | profile => rw [hview] at h; cases h
  | onboarding => rw [hview] at h; cases h

/-- Somebody else's lesson. -/
def otherLesson : NavigationTarget := { view := .lesson, detail := some "another-users-session" }

end Navigation
