import LexiGo.Client.Navigation

/-! The targets that the client keeps in the browser's history and, for its tabs, in the
session storage, and what it reads there again. -/
namespace NavigationHistory
open ClientValues JsText UrlEncoded UrlReference Navigation

inductive RouteGraphHistoryOwner
  | dictionary | home | learn | product
  deriving DecidableEq

structure NavigationScrollPosition where
  x : JsNumber
  y : JsNumber
  deriving DecidableEq

structure NavigationHistoryState where
  target : NavigationTarget
  scroll : NavigationScrollPosition
  lexigoRouteGraph : Option RouteGraphHistoryOwner
  deriving DecidableEq

def routeGraphOwners : List (String × RouteGraphHistoryOwner) :=
  [("dictionary", .dictionary), ("home", .home), ("learn", .learn), ("product", .product)]

def NavigationScrollPosition.value (s : NavigationScrollPosition) : JsValue :=
  record [("x", some (.number s.x)), ("y", some (.number s.y))]

def stateValue (target scroll : JsValue) (owner : Option RouteGraphHistoryOwner) : JsValue :=
  record
    [("lexigo", some (.boolean true)), ("version", some (.number (.integer 1))),
      ("target", some target), ("scroll", some scroll),
      ("lexigoRouteGraph", owner.map fun owner => .string (textOf routeGraphOwners owner))]

def NavigationHistoryState.value (s : NavigationHistoryState) : JsValue :=
  stateValue s.target.value s.scroll.value s.lexigoRouteGraph

def safeCoordinate (value : JsValue) : JsNumber :=
  match number value with
  | some x => if isFinite x && nonNegative x then x else .integer 0
  | none => .integer 0

/-- A property that is absent, or the text that has been read. -/
def agreesText (value : JsValue) (field : Option String) : Bool :=
  isUndefined value || (text value).any fun s => field = some s

def agreesPage (value : JsValue) (page : Option JsNumber) : Bool :=
  isUndefined value || (number value).any fun x => page.any (sameNumber x)

/-- The query that stands for a value's target. -/
def unknownParams (value : JsValue) (view : String) : List (String × String) :=
  present
    [("view", some view), ("source", text (property "source" value)),
      ("topic", text (property "topic" value)), ("status", text (property "status" value)),
      ("query", text (property "query" value)), ("sort", text (property "sort" value)),
      ("detail", text (property "detail" value)),
      ("page", (number (property "page" value)).map numberText)]

section
variable (browserPathname : String)

def normalizeUnknownTarget (value : JsValue) : Option NavigationTarget :=
  if !isRecord value then none
  else
    match text (property "view" value) with
    | none => none
    | some view =>
      let search := String.ofList ('?' :: serialize (unknownParams value view))
      let normalized := parseNavigation search browserPathname
      if textOf views normalized.view ≠ view then none
      else if agreesText (property "source" value) (normalized.source.map (textOf sources)) &&
          agreesText (property "topic" value) normalized.topic &&
          agreesText (property "status" value) (normalized.status.map (textOf catalogStatuses)) &&
          agreesText (property "query" value) normalized.query &&
          agreesText (property "sort" value) (normalized.sort.map (textOf catalogSorts)) &&
          agreesText (property "detail" value) normalized.detail &&
          agreesPage (property "page" value) normalized.page then some normalized
      else none

/-- `owner` is the one that the current history entry names. -/
def createNavigationHistoryState (owner : Option RouteGraphHistoryOwner) (target : NavigationTarget)
    (scroll : NavigationScrollPosition) : NavigationHistoryState where
  target := target
  scroll := ⟨safeCoordinate (.number scroll.x), safeCoordinate (.number scroll.y)⟩
  lexigoRouteGraph := owner

def isTrue : JsValue → Bool
  | .boolean b => b
  | _ => false

def isVersion (version : Int) (value : JsValue) : Bool :=
  (number value).any fun x => sameNumber x (.integer version)

def readNavigationHistoryState (value : JsValue) : Option NavigationHistoryState :=
  if !isRecord value || !isTrue (property "lexigo" value) || !isVersion 1 (property "version" value)
      || !isRecord (property "scroll" value) then none
  else
    (normalizeUnknownTarget browserPathname (property "target" value)).map fun target =>
      { target
        scroll := ⟨safeCoordinate (property "x" (property "scroll" value)),
          safeCoordinate (property "y" (property "scroll" value))⟩
        lexigoRouteGraph := memberText routeGraphOwners (property "lexigoRouteGraph" value) }

end

inductive PrimaryRouteView
  | home | learn | library | progress
  deriving DecidableEq

def PrimaryRouteView.view : PrimaryRouteView → AppView
  | .home => .home
  | .learn => .learn
  | .library => .library
  | .progress => .progress

def routeView (target : NavigationTarget) : Option PrimaryRouteView :=
  match target.view with
  | .phrases => some .library
  | .home => some .home
  | .learn => some .learn
  | .library => some .library
  | .progress => some .progress
  | _ => none

structure RouteTabSnapshot where
  target : NavigationTarget
  scroll : NavigationScrollPosition
  deriving DecidableEq

/-- The session storage under the keys of the tabs: a text by the JSON that it is, if any. -/
structure RouteSnapshotStorage where
  items : PrimaryRouteView → Option (Option JsValue)
  readable : Bool
  writable : Bool

/-- The tabs of a document, with the storage if there is one. -/
structure RouteTabs where
  memory : PrimaryRouteView → Option RouteTabSnapshot
  storage : Option RouteSnapshotStorage

def decodeSnapshot (browserPathname : String) (raw : Option JsValue) (expectedView : PrimaryRouteView) :
    Option RouteTabSnapshot := do
  let value ← raw
  let state ← readNavigationHistoryState browserPathname value
  if routeView state.target = some expectedView then some ⟨state.target, state.scroll⟩ else none

def RouteSnapshotStorage.setItem (storage : RouteSnapshotStorage) (view : PrimaryRouteView)
    (text : Option JsValue) : RouteSnapshotStorage :=
  if storage.writable then
    { storage with items := fun view' => if view' = view then some text else storage.items view' }
  else storage

def rememberRouteTab (owner : Option RouteGraphHistoryOwner) (target : NavigationTarget)
    (scroll : NavigationScrollPosition) (tabs : RouteTabs) : RouteTabs :=
  match routeView target with
  | none => tabs
  | some view =>
    let state := createNavigationHistoryState owner target scroll
    { memory := fun view' =>
        if view' = view then some ⟨state.target, state.scroll⟩ else tabs.memory view'
      storage := tabs.storage.map fun storage => storage.setItem view (some (written state.value)) }

def routeTabDestination (browserPathname : String) (view : PrimaryRouteView) (tabs : RouteTabs) :
    RouteTabSnapshot × RouteTabs :=
  let unknown : RouteTabSnapshot := ⟨{ view := view.view }, ⟨.integer 0, .integer 0⟩⟩
  match tabs.memory view with
  | some memory => (memory, tabs)
  | none =>
    match tabs.storage with
    | none => (unknown, tabs)
    | some storage =>
      match if storage.readable then storage.items view else none with
      | none => (unknown, tabs)
      | some raw =>
        match decodeSnapshot browserPathname raw view with
        | some stored =>
          (stored, { tabs with
            memory := fun view' => if view' = view then some stored else tabs.memory view' })
        | none =>
          (unknown, { tabs with storage := some { storage with
            items := fun view' => if view' = view then none else storage.items view' } })

/-- A reload of the document keeps the storage and nothing else. -/
def RouteTabs.reloaded (tabs : RouteTabs) : RouteTabs := { tabs with memory := fun _ => none }

/-- What every target is like that has been read from an address. -/
structure Produced (t : NavigationTarget) : Prop where
  topic : ∀ s ∈ t.topic, normalizedString s = some s
  query : ∀ s ∈ t.query, normalizedString s = some s
  page : ∀ x ∈ t.page, ∃ n : Nat, x = .integer n ∧ 1 < n ∧ n ≤ maxSafeInteger
  detail : ∀ s ∈ t.detail, normalizedString s = some s ∨ normalizedString s = none

theorem wordId_detail {s : String} (h : isWordId s = true) :
    normalizedString s = some s ∨ normalizedString s = none := by
  have htrim : trim s = s := by
    have hdigit : ∀ c ∈ s.toList, isWhiteSpace c = false := by
      intro c hc
      simp only [isWordId, Bool.and_eq_true] at h
      have hc := List.all_eq_true.1 h.2 c hc
      refine graphic_not_whiteSpace ?_
      have hkept := segmentKept_of_alphanum (c := c) (by simp [Char.isAlphanum, hc])
      simp only [segmentKept, Bool.and_eq_true] at hkept
      exact hkept.1.1
    rw [trim, ListParts.strip_eq_self _ (fun c hc => hdigit c (List.mem_of_mem_head? hc))
      (fun c hc => hdigit c (List.mem_of_getLast? hc)), String.ofList_toList]
  unfold normalizedString
  rw [htrim]
  dsimp only
  split
  · exact .inl rfl
  · exact .inr rfl

/-- A path gives a screen and perhaps a detail, and nothing else. -/
theorem pathnameTarget_fields (pathname : String) :
    ∃ view detail, pathnameTarget pathname = { view := view, detail := detail } ∧
      ∀ s ∈ detail, normalizedString s = some s ∨ normalizedString s = none := by
  have hplain : ∀ view : AppView, ∃ view' detail, ({ view := view } : NavigationTarget) =
      { view := view', detail := detail } ∧
      ∀ s ∈ detail, normalizedString s = some s ∨ normalizedString s = none :=
    fun view => ⟨view, none, rfl, fun s hs => (nomatch hs)⟩
  have hsegment : ∀ (view : AppView) (segment : String), ∃ view' detail,
      ({ view := view, detail := normalizedString (safeDecodePathSegment segment) } :
        NavigationTarget) = { view := view', detail := detail } ∧
      ∀ s ∈ detail, normalizedString s = some s ∨ normalizedString s = none :=
    fun view segment => ⟨view, _, rfl, fun s hs => .inl (normalizedString_again hs)⟩
  unfold pathnameTarget
  generalize normalizePathname pathname = normalized
  dsimp only
  split_ifs
  any_goals exact hplain _
  split
  · exact hsegment _ _
  split
  · next word hword =>
    exact ⟨_, _, rfl, fun s hs => by
      cases hs
      exact wordId_detail (Option.filter_eq_some_iff.1 hword).2⟩
  split
  · exact hsegment _ _
  split
  · next detail hdetail =>
    refine ⟨_, _, rfl, fun s hs => ?_⟩
    cases hs
    obtain ⟨segment, -, hfilter⟩ := Option.bind_eq_some_iff.1 hdetail
    exact .inl (normalizedString_again (Option.filter_eq_some_iff.1 hfilter).1)
  · exact hplain _

theorem digitsValue_safe {s : String} {n : Nat} (h : digitsValue s = some n) : n ≤ maxSafeInteger := by
  unfold digitsValue at h
  split at h
  · next hs =>
    cases h
    exact hs.2.2
  · cases h

theorem parseNavigation_produced (search pathname : String) :
    Produced (parseNavigation search pathname) := by
  obtain ⟨view, detail, hpath, hdetail⟩ := pathnameTarget_fields pathname
  unfold parseNavigation
  rw [hpath]
  dsimp only
  refine ⟨fun s hs => ?_, fun s hs => ?_, fun x hx => ?_, fun s hs => ?_⟩
  · dsimp only at hs
    rw [Option.or_none] at hs
    obtain ⟨a, -, ha⟩ := Option.bind_eq_some_iff.1 hs
    exact normalizedString_again ha
  · dsimp only at hs
    rw [Option.or_none] at hs
    obtain ⟨a, -, ha⟩ := Option.bind_eq_some_iff.1 hs
    exact normalizedString_again ha
  · dsimp only at hx
    rw [Option.or_none] at hx
    obtain ⟨n, rfl, hn⟩ := laterPage_spec hx
    obtain ⟨a, -, ha⟩ := Option.bind_eq_some_iff.1 (Option.filter_eq_some_iff.1 hx).1
    obtain ⟨k, hk, hpage⟩ := Option.bind_eq_some_iff.1 ha
    split at hpage
    · cases hpage
      exact ⟨k, rfl, by omega, digitsValue_safe hk⟩
    · cases hpage
  · rcases Option.or_eq_some_iff.1 hs with hs | ⟨-, hs⟩
    · obtain ⟨a, -, ha⟩ := Option.bind_eq_some_iff.1 hs
      exact .inl (normalizedString_again ha)
    · exact hdetail s hs

/-- The detail that is read for a target while the browser shows a path. -/
def detailRead (browserPathname : String) (t : NavigationTarget) : Option String :=
  (t.detail.bind normalizedString).or (pathnameTarget browserPathname).detail

section Fields
variable (t : NavigationTarget)

theorem view_text : text (property "view" t.value) = some (textOf views t.view) := by
  simp [NavigationTarget.value, text]

theorem source_value : property "source" t.value =
    (t.source.map fun s => JsValue.string (textOf sources s)).getD .undefined := by
  simp [NavigationTarget.value, property_record_ne]

theorem topic_value : property "topic" t.value = (t.topic.map .string).getD .undefined := by
  simp [NavigationTarget.value, property_record_ne]

theorem status_value : property "status" t.value =
    (t.status.map fun s => JsValue.string (textOf catalogStatuses s)).getD .undefined := by
  simp [NavigationTarget.value, property_record_ne]

theorem query_value : property "query" t.value = (t.query.map .string).getD .undefined := by
  simp [NavigationTarget.value, property_record_ne]

theorem sort_value : property "sort" t.value =
    (t.sort.map fun s => JsValue.string (textOf catalogSorts s)).getD .undefined := by
  simp [NavigationTarget.value, property_record_ne]

theorem page_value : property "page" t.value = (t.page.map .number).getD .undefined := by
  simp [NavigationTarget.value, property_record_ne]

theorem detail_value : property "detail" t.value = (t.detail.map .string).getD .undefined := by
  simp [NavigationTarget.value, property_record_ne]

end Fields

theorem text_optional {α : Type} (f : α → String) (o : Option α) :
    text ((o.map fun a => JsValue.string (f a)).getD .undefined) = o.map f := by
  cases o <;> rfl

theorem text_string (o : Option String) : text ((o.map JsValue.string).getD .undefined) = o := by
  cases o <;> rfl

theorem agreesText_string (o field : Option String) :
    agreesText ((o.map JsValue.string).getD .undefined) field = o.all fun s => field = some s := by
  cases o <;> rfl

theorem agreesText_optional {α : Type} (f : α → String) (o : Option α) (field : Option String) :
    agreesText ((o.map fun a => JsValue.string (f a)).getD .undefined) field =
      (o.map f).all fun s => field = some s := by
  cases o <;> rfl

/-- The query that stands for a target holds all its fields. -/
theorem unknownParams_value (t : NavigationTarget) :
    unknownParams t.value (textOf views t.view) =
      present [("view", some (textOf views t.view)), ("source", t.source.map (textOf sources)),
        ("topic", t.topic), ("status", t.status.map (textOf catalogStatuses)), ("query", t.query),
        ("sort", t.sort.map (textOf catalogSorts)), ("detail", t.detail),
        ("page", t.page.map numberText)] := by
  have hpage : number ((t.page.map JsValue.number).getD .undefined) = t.page := by
    cases t.page <;> rfl
  unfold unknownParams
  rw [source_value, topic_value, status_value, query_value, sort_value, detail_value, page_value,
    text_string, text_string, text_string, text_optional, text_optional, text_optional, hpage]

theorem parseNavigation_unknown {t : NavigationTarget} (h : Produced t) (browserPathname : String) :
    parseNavigation (String.ofList ('?' :: serialize (unknownParams t.value (textOf views t.view))))
      browserPathname = { t with detail := detailRead browserPathname t } := by
  obtain ⟨view, detail, hpath, -⟩ := pathnameTarget_fields browserPathname
  rw [unknownParams_value]
  generalize hparams : present _ = params
  have hview : (get "view" params).bind (memberOf views) = some t.view := by
    simp [← hparams, memberOf_views]
  have hsource : (get "source" params).bind (memberOf sources) = t.source := by
    cases hn : t.source <;> simp [← hparams, get_present_ne, memberOf_sources, hn]
  have htopic : (get "topic" params).bind normalizedString = t.topic := by
    cases hn : t.topic with
    | none => simp [← hparams, get_present_ne, hn]
    | some s => simp [← hparams, get_present_ne, hn, h.topic s hn]
  have hstatus : (get "status" params).bind (memberOf catalogStatuses) = t.status := by
    cases hn : t.status <;> simp [← hparams, get_present_ne, memberOf_statuses, hn]
  have hquery : (get "query" params).bind normalizedString = t.query := by
    cases hn : t.query with
    | none => simp [← hparams, get_present_ne, hn]
    | some s => simp [← hparams, get_present_ne, hn, h.query s hn]
  have hsort : (get "sort" params).bind (memberOf catalogSorts) = t.sort := by
    cases hn : t.sort <;> simp [← hparams, get_present_ne, memberOf_sorts, hn]
  have hdetail : get "detail" params = t.detail := by simp [← hparams, get_present_ne]
  have hpage : (get "page" params).bind (fun s => normalizedPage (.string s)) = t.page := by
    have hget : get "page" params = t.page.map numberText := by simp [← hparams, get_present_ne]
    rw [hget]
    cases hn : t.page with
    | none => rfl
    | some x =>
      obtain ⟨n, rfl, hone, hsafe⟩ := h.page x hn
      rw [Option.map_some, Option.bind_some, normalizedPage, digitsValue_decimal hsafe,
        Option.bind_some, if_pos (by omega)]
  have hlater : laterPage t.page = t.page := by
    cases hn : t.page with
    | none => rfl
    | some x =>
      obtain ⟨n, rfl, hone, -⟩ := h.page x hn
      exact Option.filter_eq_some_iff.2 ⟨rfl, decide_eq_true (by omega)⟩
  unfold parseNavigation detailRead
  rw [searchParams_mark, hpath]
  dsimp only
  rw [hview, hsource, htopic, hstatus, hquery, hsort, hpage, hdetail]
  simp [hlater]

/-- What is read of a target: all of it, but for the detail. -/
theorem normalizeUnknownTarget_value {t : NavigationTarget} (h : Produced t)
    (browserPathname : String) :
    normalizeUnknownTarget browserPathname t.value =
      if t.detail.all (fun s => detailRead browserPathname t = some s) then
        some { t with detail := detailRead browserPathname t }
      else none := by
  have hsame : ∀ o : Option String, (o.all fun s => decide (o = some s)) = true := by
    intro o
    cases o with
    | none => rfl
    | some s => exact decide_eq_true rfl
  have hpage : agreesPage ((t.page.map JsValue.number).getD .undefined) t.page = true := by
    cases hn : t.page with
    | none => rfl
    | some x =>
      obtain ⟨n, rfl, -⟩ := h.page x hn
      cases n <;> simp [agreesPage, isUndefined, number, sameNumber]
  have hrecord : ¬(!isRecord t.value) = true := Bool.false_ne_true
  unfold normalizeUnknownTarget
  rw [if_neg hrecord, view_text]
  dsimp only
  rw [parseNavigation_unknown h, if_neg (not_not.2 rfl), source_value, topic_value, status_value,
    query_value, sort_value, detail_value, page_value, agreesText_string, agreesText_string,
    agreesText_string, agreesText_optional, agreesText_optional, agreesText_optional, hsame, hsame,
    hsame, hsame, hsame, hpage]
  simp only [Bool.true_and, Bool.and_true]

/-- The detail of a target is read again where the target has one that is short enough, or
where the path in the browser has the same. -/
def Kept (browserPathname : String) (t : NavigationTarget) : Prop :=
  (∃ d, t.detail = some d ∧ normalizedString d = some d) ∨
    (pathnameTarget browserPathname).detail = t.detail

theorem detailRead_kept {t : NavigationTarget} (h : Produced t) (browserPathname : String) :
    detailRead browserPathname t = t.detail ↔ Kept browserPathname t := by
  unfold detailRead Kept
  cases hd : t.detail with
  | none => simp
  | some d =>
    rcases h.detail d hd with hnormal | hlong
    · simp [hnormal]
    · simp [hlong]

theorem normalizeUnknownTarget_same {t : NavigationTarget} (h : Produced t)
    (browserPathname : String) :
    normalizeUnknownTarget browserPathname t.value = some t ↔ Kept browserPathname t := by
  rw [normalizeUnknownTarget_value h, ← detailRead_kept h]
  constructor
  · intro heq
    split at heq
    · exact congrArg NavigationTarget.detail (Option.some.inj heq)
    · cases heq
  · intro hkept
    rw [hkept, if_pos]
    cases t.detail with
    | none => rfl
    | some d => exact decide_eq_true rfl

/-- A target that is read otherwise is not the one that was written. -/
theorem normalizeUnknownTarget_view {t n : NavigationTarget} (h : Produced t)
    {browserPathname : String} (hn : normalizeUnknownTarget browserPathname t.value = some n) :
    n.view = t.view := by
  rw [normalizeUnknownTarget_value h] at hn
  split at hn
  · cases hn
    rfl
  · cases hn

/-- A position that a page can be scrolled to. -/
structure Scrolled (s : NavigationScrollPosition) : Prop where
  x : isFinite s.x = true ∧ nonNegative s.x = true
  y : isFinite s.y = true ∧ nonNegative s.y = true

theorem safeCoordinate_same {x : JsNumber} (h : isFinite x = true ∧ nonNegative x = true) :
    safeCoordinate (.number x) = x := by
  simp [safeCoordinate, number, h.1, h.2]

theorem created_scroll (owner : Option RouteGraphHistoryOwner) (t : NavigationTarget)
    {s : NavigationScrollPosition} (h : Scrolled s) :
    createNavigationHistoryState owner t s = ⟨t, s, owner⟩ := by
  rw [createNavigationHistoryState, safeCoordinate_same h.x, safeCoordinate_same h.y]

theorem memberOf_owners (owner : RouteGraphHistoryOwner) :
    memberOf routeGraphOwners (textOf routeGraphOwners owner) = some owner := by
  cases owner <;> decide

/-- A state is read by its target and its coordinates. -/
theorem readNavigationHistoryState_value (browserPathname : String) (target : JsValue)
    (s : NavigationScrollPosition) (owner : Option RouteGraphHistoryOwner) :
    readNavigationHistoryState browserPathname (stateValue target s.value owner) =
      (normalizeUnknownTarget browserPathname target).map fun target =>
        ⟨target, ⟨safeCoordinate (.number s.x), safeCoordinate (.number s.y)⟩, owner⟩ := by
  have hlexigo : property "lexigo" (stateValue target s.value owner) = .boolean true := by
    simp [stateValue]
  have hversion : property "version" (stateValue target s.value owner) = .number (.integer 1) := by
    simp [stateValue, property_record_ne]
  have htarget : property "target" (stateValue target s.value owner) = target := by
    simp [stateValue, property_record_ne]
  have hscroll : property "scroll" (stateValue target s.value owner) = s.value := by
    simp [stateValue, property_record_ne]
  have howner : memberText routeGraphOwners
      (property "lexigoRouteGraph" (stateValue target s.value owner)) = owner := by
    cases owner <;> simp [stateValue, property_record_ne, memberText, text, memberOf_owners]
  have hx : property "x" s.value = .number s.x := by simp [NavigationScrollPosition.value]
  have hy : property "y" s.value = .number s.y := by
    simp [NavigationScrollPosition.value, property_record_ne]
  have hform : ¬(!isRecord (stateValue target s.value owner) || !isTrue (.boolean true) ||
      !isVersion 1 (.number (.integer 1)) || !isRecord s.value) = true := Bool.false_ne_true
  unfold readNavigationHistoryState
  rw [hlexigo, hversion, hscroll, if_neg hform, htarget, howner, hx, hy]

/-- Reading gives back a target exactly where its detail is kept, and always the position. -/
theorem history_roundTrip (browserPathname search pathname : String) {s : NavigationScrollPosition}
    (h : Scrolled s) (owner : Option RouteGraphHistoryOwner) :
    let t := parseNavigation search pathname
    readNavigationHistoryState browserPathname (createNavigationHistoryState owner t s).value =
      some ⟨t, s, owner⟩ ↔ Kept browserPathname t := by
  intro t
  have ht : Produced t := parseNavigation_produced search pathname
  rw [created_scroll owner t h, ← normalizeUnknownTarget_same ht]
  change readNavigationHistoryState browserPathname (stateValue t.value s.value owner) = _ ↔ _
  rw [readNavigationHistoryState_value, safeCoordinate_same h.x, safeCoordinate_same h.y]
  cases normalizeUnknownTarget browserPathname t.value with
  | none => simp
  | some n => simp

/-- JSON does not tell the two zeros apart. -/
def unsigned (x : JsNumber) : JsNumber := if x = .negativeZero then .integer 0 else x

theorem unsigned_same {x : JsNumber} (h : isFinite x = true) : sameNumber (unsigned x) x = true := by
  cases x with
  | integer n => cases n <;> simp [unsigned, sameNumber]
  | fraction => simp [unsigned, sameNumber]
  | negativeZero => rfl
  | nan => cases h
  | infinity => cases h

theorem unsigned_scrolled {x : JsNumber} (h : isFinite x = true ∧ nonNegative x = true) :
    isFinite (unsigned x) = true ∧ nonNegative (unsigned x) = true := by
  unfold unsigned
  split
  · exact ⟨rfl, rfl⟩
  · exact h

/-- A target is the same once it has been written as JSON. -/
theorem written_target {t : NavigationTarget} (h : Produced t) : written t.value = t.value := by
  have hstring : ∀ {α : Type} (f : α → String) (o : Option α),
      (o.map fun a => JsValue.string (f a)).map written = o.map fun a => JsValue.string (f a) := by
    intro α f o
    cases o <;> simp [written]
  have hpage : (t.page.map JsValue.number).map written = t.page.map JsValue.number := by
    cases hn : t.page with
    | none => rfl
    | some x =>
      obtain ⟨n, rfl, -⟩ := h.page x hn
      simp [written, writtenNumber, isFinite]
  unfold NavigationTarget.value
  rw [written_record]
  · simp only [List.map_cons, List.map_nil, hstring, hpage]
    simp [written]
  · intro field hfield value hvalue
    simp only [List.mem_cons, List.not_mem_nil, or_false] at hfield
    rcases hfield with rfl | rfl | rfl | rfl | rfl | rfl | rfl | rfl <;>
      simp only [Option.mem_def, Option.some.injEq, Option.map_eq_some_iff] at hvalue
    · rw [← hvalue]
      rfl
    all_goals
      obtain ⟨a, -, rfl⟩ := hvalue
      rfl

theorem written_scroll {s : NavigationScrollPosition} (h : Scrolled s) :
    written s.value = NavigationScrollPosition.value ⟨unsigned s.x, unsigned s.y⟩ := by
  unfold NavigationScrollPosition.value
  rw [written_record]
  · simp [written, writtenNumber, h.x.1, h.y.1, unsigned]
  · intro field hfield value hvalue
    simp only [List.mem_cons, List.not_mem_nil, or_false] at hfield
    rcases hfield with rfl | rfl <;> cases hvalue <;> rfl

theorem written_state {t : NavigationTarget} (ht : Produced t) {s : NavigationScrollPosition}
    (h : Scrolled s) (owner : Option RouteGraphHistoryOwner) :
    written (stateValue t.value s.value owner) =
      stateValue t.value (NavigationScrollPosition.value ⟨unsigned s.x, unsigned s.y⟩) owner := by
  have htarget := written_target ht
  have hscroll := written_scroll h
  unfold stateValue
  rw [written_record]
  · cases owner <;>
      simp [written, writtenNumber, isFinite, htarget, hscroll]
  · intro field hfield value hvalue
    simp only [List.mem_cons, List.not_mem_nil, or_false] at hfield
    rcases hfield with rfl | rfl | rfl | rfl | rfl <;>
      simp only [Option.mem_def, Option.some.injEq, Option.map_eq_some_iff] at hvalue
    iterate 4
      rw [← hvalue]
      rfl
    obtain ⟨a, -, rfl⟩ := hvalue
    rfl

/-- What a tab finds after a reload. -/
theorem destination_reloaded (browserPathname : String) {t : NavigationTarget} (ht : Produced t)
    {view : PrimaryRouteView} (hview : routeView t = some view) {s : NavigationScrollPosition}
    (h : Scrolled s) (owner : Option RouteGraphHistoryOwner)
    (memory : PrimaryRouteView → Option RouteTabSnapshot) {storage : RouteSnapshotStorage}
    (hreadable : storage.readable = true) (hwritable : storage.writable = true) :
    (routeTabDestination browserPathname view
      (rememberRouteTab owner t s ⟨memory, some storage⟩).reloaded).1 =
      ((normalizeUnknownTarget browserPathname t.value).map fun n =>
        ⟨n, ⟨unsigned s.x, unsigned s.y⟩⟩).getD ⟨{ view := view.view }, ⟨.integer 0, .integer 0⟩⟩ := by
  have hdecode : decodeSnapshot browserPathname
      (some (written (NavigationHistoryState.value ⟨t, s, owner⟩))) view =
      (normalizeUnknownTarget browserPathname t.value).map fun n =>
        ⟨n, ⟨unsigned s.x, unsigned s.y⟩⟩ := by
    unfold decodeSnapshot NavigationHistoryState.value
    rw [written_state ht h]
    dsimp only [bind]
    rw [Option.bind_some, readNavigationHistoryState_value,
      safeCoordinate_same (unsigned_scrolled h.x), safeCoordinate_same (unsigned_scrolled h.y)]
    cases hn : normalizeUnknownTarget browserPathname t.value with
    | none => rfl
    | some n =>
      have hsame : routeView n = some view := by
        rw [← hview, routeView, routeView, normalizeUnknownTarget_view ht hn]
      rw [Option.map_some, Option.bind_some, if_pos hsame]
      rfl
  have hremembered : (rememberRouteTab owner t s ⟨memory, some storage⟩).reloaded =
      ⟨fun _ => none, some (storage.setItem view
        (some (written (NavigationHistoryState.value ⟨t, s, owner⟩))))⟩ := by
    unfold rememberRouteTab RouteTabs.reloaded
    rw [hview, created_scroll owner t h]
    rfl
  rw [hremembered]
  unfold routeTabDestination RouteSnapshotStorage.setItem
  dsimp only
  rw [if_pos hwritable]
  dsimp only
  rw [if_pos hreadable, if_pos rfl]
  dsimp only
  rw [hdecode]
  cases normalizeUnknownTarget browserPathname t.value <;> rfl

/-- A tab finds what was remembered for it exactly where its detail is kept. -/
theorem tab_roundTrip (browserPathname : String) {t : NavigationTarget} (ht : Produced t)
    {view : PrimaryRouteView} (hview : routeView t = some view) {s : NavigationScrollPosition}
    (h : Scrolled s) (owner : Option RouteGraphHistoryOwner)
    (memory : PrimaryRouteView → Option RouteTabSnapshot) {storage : RouteSnapshotStorage}
    (hreadable : storage.readable = true) (hwritable : storage.writable = true) :
    let found := (routeTabDestination browserPathname view
      (rememberRouteTab owner t s ⟨memory, some storage⟩).reloaded).1
    (found.target = t ∧ sameNumber found.scroll.x s.x = true ∧
      sameNumber found.scroll.y s.y = true) ↔ Kept browserPathname t := by
  intro found
  have hfound : found = _ :=
    destination_reloaded browserPathname ht hview h owner memory hreadable hwritable
  rw [hfound, ← normalizeUnknownTarget_same ht]
  cases hn : normalizeUnknownTarget browserPathname t.value with
  | some n =>
    rw [Option.map_some, Option.getD_some, Option.some.injEq]
    exact ⟨fun heq => heq.1, fun heq => ⟨heq, unsigned_same h.x.1, unsigned_same h.y.1⟩⟩
  | none =>
    refine ⟨fun heq => ?_, fun heq => (nomatch heq)⟩
    rw [Option.map_none, Option.getD_none] at heq
    rw [normalizeUnknownTarget_value ht, ← heq.1] at hn
    cases hn

/-- History entries and remembered tabs are given back as they were exactly where the detail
is one that the client reads again, or that of the path in the browser. -/
theorem navigation_kept (browserPathname search pathname : String) {s : NavigationScrollPosition}
    (h : Scrolled s) (owner : Option RouteGraphHistoryOwner)
    (memory : PrimaryRouteView → Option RouteTabSnapshot) {storage : RouteSnapshotStorage}
    (hreadable : storage.readable = true) (hwritable : storage.writable = true) :
    let t := parseNavigation search pathname
    (readNavigationHistoryState browserPathname (createNavigationHistoryState owner t s).value =
      some ⟨t, s, owner⟩ ↔ Kept browserPathname t) ∧
    ∀ view, routeView t = some view →
      let found := (routeTabDestination browserPathname view
        (rememberRouteTab owner t s ⟨memory, some storage⟩).reloaded).1
      (found.target = t ∧ sameNumber found.scroll.x s.x = true ∧
        sameNumber found.scroll.y s.y = true ↔ Kept browserPathname t) := by
  intro t
  have ht : Produced t := parseNavigation_produced search pathname
  exact ⟨history_roundTrip browserPathname search pathname h owner, fun view hview =>
    tab_roundTrip browserPathname ht hview h owner memory hreadable hwritable⟩

/-- The top of a page. -/
def top : NavigationScrollPosition := ⟨.integer 0, .integer 0⟩

def emptyStorage : RouteSnapshotStorage := ⟨fun _ => none, true, true⟩

theorem navigation_kept_phrase :
    readNavigationHistoryState "/words/5" (createNavigationHistoryState none
      (parseNavigation "" "/phrases/root-cause") top).value =
      some ⟨parseNavigation "" "/phrases/root-cause", top, none⟩ := by
  have hreadable : emptyStorage.readable = true := rfl
  have hwritable : emptyStorage.writable = true := rfl
  refine ((navigation_kept "/words/5" "" "/phrases/root-cause" ⟨by decide, by decide⟩ none
    (fun _ => none) hreadable hwritable).1).2 (.inl ?_)
  exact ⟨"root-cause", by decide +kernel, by decide +kernel⟩

/-- The learning screen, read while the browser shows a word. -/
theorem learn_not_kept :
    readNavigationHistoryState "/words/5" (createNavigationHistoryState none
      (parseNavigation "" "/learn") top).value ≠ some ⟨parseNavigation "" "/learn", top, none⟩ := by
  decide +kernel

end NavigationHistory
