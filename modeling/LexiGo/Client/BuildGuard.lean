import LexiGo.JsText
import LexiGo.JsonValue
import LexiGo.Text.UrlReference

/-! The guard that a document runs before anything else: it compares the document's build
with the one the browser has stored, and with that of the service worker in control, and
leads the browser once to the same address with the build in its query. -/
namespace BuildGuard
open JsText JsonValue UrlReference

/-- The characters that a build id may have. -/
def isBuildCharacter (c : Char) : Bool := c.isAlphanum || c = '.' || c = '_' || c = '-'

/-- Each run of other characters becomes one hyphen. -/
def hyphenated : Bool → List Char → List Char
  | _, [] => []
  | within, c :: rest =>
    if isBuildCharacter c then c :: hyphenated false rest
    else if within then hyphenated true rest
    else '-' :: hyphenated true rest

def withoutOuterHyphens (text : List Char) : List Char :=
  (text.dropWhile (· = '-')).rdropWhile (· = '-')

def orLocal (text : List Char) : String := if text = [] then "local" else String.ofList text

def normalizeBuildID (value : Option String) : String :=
  let normalized := value.elim [] fun v => withoutOuterHyphens (hyphenated false (trim v).toList)
  orLocal (normalized.take 80)

def serviceWorkerScriptURL (buildID : String) : String :=
  "/sw.js?build=" ++ UrlEncoded.encodeURIComponent (normalizeBuildID (some buildID))

section
variable (newURL : String → String → Option Url)

/-- `new URL` of a reference and a base; what it makes of a reference that names a host is
the browser's. -/
def resolveURL (reference base : String) : Option Url :=
  if isPathReference reference then some (pathReference base reference) else newURL reference base

def serviceWorkerBuildFromURL (scriptURL : Option String) : Option String :=
  match scriptURL with
  | none => none
  | some scriptURL =>
    if scriptURL = "" then none
    else
      (resolveURL newURL scriptURL "https://lexigo.invalid").map fun url =>
        normalizeBuildID (UrlReference.get "build" url.params)

end

/-- The text under the guard's key in a storage that may be closed to readers, or full. -/
structure WebStorage (α : Type) where
  item : Option α
  readable : Bool
  writable : Bool

def readStorage {α : Type} (storage : WebStorage α) : Option α :=
  if storage.readable then storage.item else none

def writeStorage {α : Type} (storage : WebStorage α) (value : α) : WebStorage α :=
  if storage.writable then { storage with item := some value } else storage

def removeStorage {α : Type} (storage : WebStorage α) : WebStorage α :=
  if storage.readable then { storage with item := none } else storage

/-- What the guard finds in the browser; the worker in control is known by the address of
its script, the recovery by its JSON, if it is one. An empty text counts as none. -/
structure Browser where
  marker : WebStorage String
  recovery : WebStorage (Option Json)
  controller : Option Url

/-- How the guard leaves the document: at an address, on the way to the same page with the
build in its query, or on the way to the static recovery page. -/
inductive Outcome
  | completed (page : Url)
  | reloads (target : Url)
  | staticRecovery (target : Url)

def cacheBusterQuery : String := "__lexigo_build"

def normalizeBuild (value : String) : String :=
  orLocal ((withoutOuterHyphens (hyphenated false (trim value).toList)).take 80)

/-- The original address of a stored recovery that has its form. -/
def recoveryHref : Json → Option String
  | .object members =>
    match (member "version" members).bind safeInteger, (member "targetBuild" members).bind text,
      (member "originalHref" members).bind text with
    | some version, some _, some href => if version = 1 then some href else none
    | _, _, _ => none
  | _ => none

def removeInternalQuery (page : Url) : Url :=
  if page.params.any (·.1 = cacheBusterQuery) then
    page.withParams (delete cacheBusterQuery page.params)
  else page

def completeCurrentBuild (currentBuild : String) (page : Url) (browser : Browser) :
    Outcome × Browser :=
  (.completed (removeInternalQuery page),
    { browser with
      marker := writeStorage browser.marker currentBuild
      recovery := removeStorage browser.recovery })

def withoutCacheBuster (page : Url) : Url := page.withParams (delete cacheBusterQuery page.params)

section
variable (newURL : String → String → Option Url)

def redirectToStaticRecovery (page : Url) (originalHref : Option String) : Url :=
  let returnHref := match originalHref with
    | some href => if href = "" then page.href else href
    | none => page.href
  let back := match resolveURL newURL returnHref page.origin with
    | some url => (withoutCacheBuster url).href
    | none => page.origin ++ "/"
  { origin := page.origin
    pathname := "/offline.html"
    search := searchOf [("reason", "stale-build"), ("return", back)]
    hash := "" }

/-- The build of the worker in control; one without a build is from before there were any. -/
def controllerBuild (controller : Option Url) : Option String :=
  controller.map fun scriptURL =>
    match UrlReference.get "build" scriptURL.params with
    | some build => if build = "" then "legacy-service-worker" else normalizeBuild build
    | none => "legacy-service-worker"

/-- A recovery that is no JSON is removed. -/
def discardMalformed (browser : Browser) : Browser :=
  match readStorage browser.recovery with
  | some none => { browser with recovery := removeStorage browser.recovery }
  | _ => browser

/-- A parameter or a stored text, where the empty one counts as none. -/
def nonEmpty (value : Option String) : Option String := value.filter (· ≠ "")

def requestedBuild (page : Url) : Option String :=
  (nonEmpty (UrlReference.get cacheBusterQuery page.params)).map normalizeBuild

def markerBuild (marker : WebStorage String) : Option String :=
  (nonEmpty (readStorage marker)).map normalizeBuild

/-- What the script of a document does that has been loaded at `page`. -/
def guardScript (currentBuild requestedAt : String) (page : Url) (browser : Browser) :
    Outcome × Browser :=
  let recovery := ((readStorage browser.recovery).bind id).bind recoveryHref
  let browser := discardMalformed browser
  match requestedBuild page with
  | some requested =>
    if requested = currentBuild then completeCurrentBuild currentBuild page browser
    else
      (.staticRecovery (redirectToStaticRecovery newURL page recovery), browser)
  | none =>
    if (markerBuild browser.marker).all (· = currentBuild) &&
        (controllerBuild browser.controller).all (· = currentBuild) then
      completeCurrentBuild currentBuild page browser
    else
      let original := withoutCacheBuster page
      (.reloads (original.withParams (set cacheBusterQuery currentBuild original.params)),
        { browser with
          recovery := writeStorage browser.recovery (some (.object
            [("version", .integer 1), ("targetBuild", .string currentBuild),
              ("originalHref", .string original.href), ("requestedAt", .string requestedAt)])) })

/-- `createBuildVersionGuardScript`, and the run of its script. -/
def guardDocument (buildID : String) : String → Url → Browser → Outcome × Browser :=
  guardScript newURL (normalizeBuildID (some buildID))

end

theorem hyphenated_characters (text : List Char) : ∀ within,
    ∀ c ∈ hyphenated within text, isBuildCharacter c = true := by
  induction text with
  | nil => exact fun _ c hc => absurd hc List.not_mem_nil
  | cons d text ih =>
    intro within c hc
    rw [hyphenated] at hc
    split at hc
    · next hd =>
      rcases List.mem_cons.1 hc with rfl | hc
      · exact hd
      · exact ih false c hc
    · split at hc
      · exact ih true c hc
      · rcases List.mem_cons.1 hc with rfl | hc
        · decide
        · exact ih true c hc

theorem hyphenated_same {text : List Char} (h : ∀ c ∈ text, isBuildCharacter c = true) :
    hyphenated false text = text := by
  induction text with
  | nil => rfl
  | cons c text ih =>
    rw [hyphenated, if_pos (h c List.mem_cons_self), ih fun d hd => h d (List.mem_cons_of_mem _ hd)]

/-- What every normalised build id is like. -/
structure Normal (text : List Char) : Prop where
  characters : ∀ c ∈ text, isBuildCharacter c = true
  nonempty : text ≠ []
  begins : ∀ c ∈ text.head?, c ≠ '-'
  short : text.length ≤ 80

theorem begins_of_part {text part : List Char} (h : part <+: withoutOuterHyphens text) :
    ∀ c ∈ part.head?, c ≠ '-' := by
  intro c hc heq
  have hpart : part <+: text.dropWhile (· = '-') := h.trans (List.rdropWhile_prefix _ _)
  have hhead : (text.dropWhile (· = '-')).head? = some c := by
    obtain ⟨rest, hrest⟩ := hpart
    rw [← hrest, List.head?_append, hc]
    rfl
  have hnot := List.head?_dropWhile_not (fun c => decide (c = '-')) text
  rw [hhead] at hnot
  exact absurd heq (of_decide_eq_false hnot)

theorem orLocal_normal {text : List Char} (hchars : ∀ c ∈ text, isBuildCharacter c = true)
    (hbegins : ∀ c ∈ text.head?, c ≠ '-') (hshort : text.length ≤ 80) :
    Normal (orLocal text).toList := by
  unfold orLocal
  split
  · refine ⟨ListParts.forall_of_all (by decide), by decide, fun c hc => ?_, by decide⟩
    have hhead : "local".toList.head? = some 'l' := by decide
    rw [hhead] at hc
    cases hc
    decide
  · next hne =>
    rw [String.toList_ofList]
    exact ⟨hchars, hne, hbegins, hshort⟩

theorem normalizeBuild_normal (value : String) : Normal (normalizeBuild value).toList := by
  refine orLocal_normal (fun c hc => ?_) (begins_of_part (List.take_prefix _ _)) ?_
  · exact hyphenated_characters _ _ c (ListParts.mem_strip _ (List.mem_of_mem_take hc))
  · rw [List.length_take]
    exact Nat.min_le_left _ _

theorem normalizeBuild_eq (value : String) :
    normalizeBuildID (some value) = normalizeBuild value := by
  simp only [normalizeBuildID, normalizeBuild, Option.elim_some]

theorem buildCharacter_range {c : Char} (h : isBuildCharacter c = true) :
    45 ≤ c.toNat ∧ c.toNat ≤ 122 := by
  simp only [isBuildCharacter, Char.isAlphanum, Char.isAlpha, Char.isUpper, Char.isLower,
    Char.isDigit, Bool.or_eq_true, decide_eq_true_eq, Bool.and_eq_true, ge_iff_le,
    UInt32.le_iff_toNat_le] at h
  rcases h with ((h | rfl) | rfl) | rfl
  · change ((65 ≤ c.toNat ∧ c.toNat ≤ 90) ∨ 97 ≤ c.toNat ∧ c.toNat ≤ 122) ∨
      48 ≤ c.toNat ∧ c.toNat ≤ 57 at h
    omega
  · decide
  · decide
  · decide

theorem not_whiteSpace {c : Char} (h : isBuildCharacter c = true) : isWhiteSpace c = false := by
  obtain ⟨hlow, hhigh⟩ := buildCharacter_range h
  exact isWhiteSpace_graphic (by omega) (by omega)

/-- A normalised build id changes once more where it ends in hyphens. -/
theorem normalizeBuild_of_normal {text : List Char} (h : Normal text) :
    normalizeBuild (String.ofList text) = String.ofList (text.rdropWhile (· = '-')) := by
  have htrim : (trim (String.ofList text)).toList = text := by
    unfold trim
    rw [String.toList_ofList, String.toList_ofList]
    exact ListParts.strip_eq_self _
      (fun c hc => not_whiteSpace (h.characters c (List.mem_of_mem_head? hc)))
      (fun c hc => not_whiteSpace (h.characters c (List.mem_of_getLast? hc)))
  have hfront : text.dropWhile (· = '-') = text := by
    cases text with
    | nil => rfl
    | cons c text =>
      exact List.dropWhile_cons_of_neg (by simpa using h.begins c rfl)
  have hne : text.rdropWhile (· = '-') ≠ [] := by
    intro hnil
    cases text with
    | nil => exact h.nonempty rfl
    | cons c text =>
      have hc := List.rdropWhile_eq_nil_iff.1 hnil c List.mem_cons_self
      exact h.begins c rfl (of_decide_eq_true hc)
  have hshort : (text.rdropWhile (· = '-')).length ≤ 80 :=
    (List.rdropWhile_prefix _ _).length_le.trans h.short
  unfold normalizeBuild withoutOuterHyphens
  rw [htrim, hyphenated_same h.characters, hfront, List.take_of_length_le hshort, orLocal,
    if_neg hne]

/-- Whether normalising a build id once more leaves it as it is. -/
def Settled (buildID : String) : Prop := (normalizeBuildID (some buildID)).toList.getLast? ≠ some '-'

instance (buildID : String) : Decidable (Settled buildID) := inferInstanceAs (Decidable (_ ≠ _))

theorem normalizeBuild_settled (buildID : String) :
    normalizeBuild (normalizeBuildID (some buildID)) = normalizeBuildID (some buildID) ↔
      Settled buildID := by
  have hnormal := normalizeBuild_normal buildID
  rw [← normalizeBuild_eq] at hnormal
  unfold Settled
  generalize normalizeBuildID (some buildID) = id at hnormal
  have hagain := normalizeBuild_of_normal hnormal
  rw [String.ofList_toList] at hagain
  rw [hagain, ← String.toList_inj, String.toList_ofList, List.rdropWhile_eq_self_iff]
  constructor
  · intro h hlast
    have hne : id.toList ≠ [] := hnormal.nonempty
    rw [List.getLast?_eq_some_getLast hne, Option.some.injEq] at hlast
    exact h hne (decide_eq_true hlast)
  · intro h hne hlast
    rw [List.getLast?_eq_some_getLast hne] at h
    exact h (congrArg some (of_decide_eq_true hlast))

theorem kept_of_build {c : Char} (h : isBuildCharacter c = true) :
    UrlEncoded.unreserved c = true ∧ UrlEncoded.formKept c = true ∧ queryKept c = true := by
  have hplain : UrlEncoded.formKept c = true := by
    simp only [isBuildCharacter, UrlEncoded.formKept, Bool.or_eq_true, decide_eq_true_eq] at h ⊢
    tauto
  refine ⟨?_, hplain, queryKept_of_formKept hplain⟩
  simp only [isBuildCharacter, UrlEncoded.unreserved, Bool.or_eq_true, decide_eq_true_eq] at h ⊢
  tauto

theorem formEncode_build {id : String} (h : ∀ c ∈ id.toList, isBuildCharacter c = true) :
    UrlEncoded.formEncode id = id.toList := by
  have hsame : ∀ c ∈ id.toList,
      (if c = ' ' then ['+'] else UrlEncoded.encodeWith UrlEncoded.formKept c) = [c] := by
    intro c hc
    have hspace : c ≠ ' ' := by
      rintro rfl
      exact absurd (h _ hc) (by decide)
    rw [if_neg hspace, UrlEncoded.encodeWith, if_pos (kept_of_build (h c hc)).2.1]
  unfold UrlEncoded.formEncode
  rw [List.flatMap_congr hsame, List.flatMap_singleton']

/-- The address of a worker's script carries the normalised build id. -/
theorem params_scriptURL (origin buildID : String) :
    isPathReference (serviceWorkerScriptURL buildID) = true ∧
    (pathReference origin (serviceWorkerScriptURL buildID)).params =
      [("build", normalizeBuildID (some buildID))] := by
  have hnormal := normalizeBuild_normal buildID
  rw [← normalizeBuild_eq] at hnormal
  unfold serviceWorkerScriptURL
  generalize normalizeBuildID (some buildID) = id at hnormal
  have hencoded : UrlEncoded.encodeURIComponent id = id := by
    unfold UrlEncoded.encodeURIComponent
    rw [encodeWith_kept fun c hc => (kept_of_build (hnormal.characters c hc)).1,
      String.ofList_toList]
  have hquery : ∀ c ∈ "build=".toList ++ id.toList, queryKept c = true := by
    intro c hc
    rcases List.mem_append.1 hc with hc | hc
    · have hall : "build=".toList.all queryKept = true := by decide
      exact List.all_eq_true.1 hall c hc
    · exact (kept_of_build (hnormal.characters c hc)).2.2
  have hsegment : ∀ s ∈ ["sw.js".toList], Plain s := by
    intro s hs
    rw [List.mem_singleton.1 hs]
    exact ⟨ListParts.forall_of_all (by decide), by decide, by decide⟩
  have htext : "/sw.js?build=" ++ id = String.ofList ('/' :: ['/'].intercalate ["sw.js".toList] ++
      queryPart ("build=".toList ++ id.toList)) := by
    rw [← String.toList_inj, String.toList_append, String.toList_ofList, String.toList_ofList]
    rfl
  have hserialized : "build=".toList ++ id.toList = UrlEncoded.serialize [("build", id)] := by
    have hname : UrlEncoded.formEncode "build" = "build".toList := formEncode_build (ListParts.forall_of_all (by decide))
    have hmark : "build=".toList = "build".toList ++ ['='] := by decide
    rw [UrlEncoded.serialize_singleton, UrlEncoded.formPair, formEncode_build hnormal.characters,
      hname, hmark, List.append_assoc, List.singleton_append]
  rw [hencoded, htext]
  constructor
  · unfold isPathReference
    rw [String.toList_ofList, cleaned_graphic]
    · rfl
    · intro c hc
      rcases List.mem_append.1 hc with hc | hc
      · have hall : ('/' :: ['/'].intercalate ["sw.js".toList]).all (' ' < ·) = true := by decide
        exact of_decide_eq_true (List.all_eq_true.1 hall c hc)
      · rcases List.mem_cons.1 hc with rfl | hc
        · decide
        · exact (graphic_of_queryKept (hquery c hc)).1
  · rw [pathReference_plain origin (List.cons_ne_nil _ _) hsegment hquery]
    unfold Url.params
    rw [String.toList_ofList, ← UrlEncoded.parseQuery_serialize [("build", id)], ← hserialized]
    rfl

theorem serviceWorkerBuild_scriptURL (newURL : String → String → Option Url) (buildID : String) :
    serviceWorkerBuildFromURL newURL (some (serviceWorkerScriptURL buildID)) =
      some (normalizeBuild (normalizeBuildID (some buildID))) := by
  obtain ⟨hpath, hparams⟩ := params_scriptURL "https://lexigo.invalid" buildID
  have hne : serviceWorkerScriptURL buildID ≠ "" := by
    intro h
    rw [h] at hpath
    exact absurd hpath (by decide)
  simp only [serviceWorkerBuildFromURL, resolveURL, if_neg hne, if_pos hpath, Option.map_some,
    hparams, get_singleton, normalizeBuild_eq]

section
variable (newURL : String → String → Option Url) (currentBuild : String)

/-- The stored marker is of the build, or there is none. -/
def Fits (browser : Browser) : Prop :=
  (markerBuild browser.marker).all (· = currentBuild) = true

/-- Neither the stored marker nor the worker in control is of another build. -/
def Matches (browser : Browser) : Prop :=
  Fits currentBuild browser ∧ (controllerBuild browser.controller).all (· = currentBuild) = true

/-- The page is not asked for with another build. -/
def Asked (page : Url) : Prop := (requestedBuild page).all (· = currentBuild) = true

variable {newURL currentBuild}
variable {now : String} {page page' : Url} {browser browser' : Browser}

@[simp] theorem discardMalformed_marker (browser : Browser) :
    (discardMalformed browser).marker = browser.marker := by
  unfold discardMalformed
  split <;> rfl

@[simp] theorem discardMalformed_controller (browser : Browser) :
    (discardMalformed browser).controller = browser.controller := by
  unfold discardMalformed
  split <;> rfl

variable (newURL now) in
theorem guard_completes (hpage : Asked currentBuild page)
    (hmatch : requestedBuild page = none → Matches currentBuild browser) :
    guardScript newURL currentBuild now page browser =
      completeCurrentBuild currentBuild page (discardMalformed browser) := by
  unfold Asked at hpage
  unfold guardScript
  cases hrequested : requestedBuild page with
  | some requested =>
    rw [hrequested] at hpage
    exact if_pos (of_decide_eq_true hpage)
  | none =>
    obtain ⟨hmarker, hcontroller⟩ := hmatch hrequested
    unfold Fits at hmarker
    simp only [discardMalformed_marker, discardMalformed_controller, hmarker, hcontroller,
      Bool.and_self, if_true]

variable (newURL now) in
theorem guard_requested (hpage : requestedBuild page = some currentBuild) :
    guardScript newURL currentBuild now page browser =
      completeCurrentBuild currentBuild page (discardMalformed browser) := by
  refine guard_completes newURL now ?_ ?_
  · unfold Asked
    rw [hpage]
    exact decide_eq_true rfl
  · rw [hpage]
    exact fun hnone => (nomatch hnone)

variable (newURL now) in
theorem guard_reloads (hpage : requestedBuild page = none) (hmatch : ¬Matches currentBuild browser) :
    ∃ (url : Url) (browser' : Browser), browser'.marker = browser.marker ∧
      guardScript newURL currentBuild now page browser = (.reloads (url.withParams
        (set cacheBusterQuery currentBuild url.params)), browser') := by
  have hnot : ((markerBuild (discardMalformed browser).marker).all (· = currentBuild) &&
      (controllerBuild (discardMalformed browser).controller).all (· = currentBuild)) ≠ true := by
    rw [discardMalformed_marker, discardMalformed_controller]
    exact fun h => hmatch ((Bool.and_eq_true _ _).mp h)
  unfold guardScript
  rw [hpage]
  dsimp only
  rw [if_neg hnot]
  refine ⟨withoutCacheBuster page, _, ?_, rfl⟩
  exact discardMalformed_marker browser

variable (newURL now) in
theorem guard_stale {requested : String} (hpage : requestedBuild page = some requested)
    (hother : requested ≠ currentBuild) :
    ∃ target, guardScript newURL currentBuild now page browser =
      (.staticRecovery target, discardMalformed browser) := by
  unfold guardScript
  rw [hpage]
  dsimp only
  rw [if_neg hother]
  exact ⟨_, rfl⟩

/-- The ways in which the script can go, by the page and the browser. -/
theorem guard_cases (newURL : String → String → Option Url) (currentBuild now : String) (page : Url)
    (browser : Browser) :
    (Asked currentBuild page ∧ (requestedBuild page = none → Matches currentBuild browser) ∧
      guardScript newURL currentBuild now page browser =
        completeCurrentBuild currentBuild page (discardMalformed browser)) ∨
    (∃ target, guardScript newURL currentBuild now page browser =
      (.staticRecovery target, discardMalformed browser)) ∨
    ∃ (url : Url) (browser' : Browser), browser'.marker = browser.marker ∧
      guardScript newURL currentBuild now page browser = (.reloads (url.withParams
        (set cacheBusterQuery currentBuild url.params)), browser') := by
  cases hrequested : requestedBuild page with
  | some requested =>
    by_cases hsame : requested = currentBuild
    · have hpage : Asked currentBuild page := by
        unfold Asked
        rw [hrequested]
        exact decide_eq_true hsame
      have hmatch : requestedBuild page = none → Matches currentBuild browser := by
        rw [hrequested]
        exact fun h => (nomatch h)
      exact .inl ⟨hpage, fun h => (nomatch h), guard_completes newURL now hpage hmatch⟩
    · exact .inr (.inl (guard_stale newURL now hrequested hsame))
  | none =>
    by_cases hmatch : Matches currentBuild browser
    · have hpage : Asked currentBuild page := by
        unfold Asked
        rw [hrequested]
        rfl
      exact .inl ⟨hpage, fun _ => hmatch, guard_completes newURL now hpage fun _ => hmatch⟩
    · exact .inr (.inr (guard_reloads newURL now hrequested hmatch))

theorem of_completed
    (h : guardScript newURL currentBuild now page browser = (.completed page', browser')) :
    Asked currentBuild page ∧ (requestedBuild page = none → Matches currentBuild browser) ∧
      browser'.marker = writeStorage browser.marker currentBuild := by
  rcases guard_cases newURL currentBuild now page browser with
    ⟨hpage, hmatch, heq⟩ | ⟨target, heq⟩ | ⟨url, browser'', -, heq⟩
  · rw [heq] at h
    cases h
    exact ⟨hpage, hmatch, congrArg (writeStorage · _) (discardMalformed_marker browser)⟩
  · rw [heq] at h
    cases h
  · rw [heq] at h
    cases h

theorem of_reloads {target : Url}
    (h : guardScript newURL currentBuild now page browser = (.reloads target, browser')) :
    browser'.marker = browser.marker ∧
      ∃ url : Url, target = url.withParams (set cacheBusterQuery currentBuild url.params) := by
  rcases guard_cases newURL currentBuild now page browser with
    ⟨hpage, hmatch, heq⟩ | ⟨target', heq⟩ | ⟨url, browser'', hmarker, heq⟩
  · rw [heq] at h
    cases h
  · rw [heq] at h
    cases h
  · rw [heq] at h
    cases h
    exact ⟨hmarker, url, rfl⟩

end

section
variable (newURL : String → String → Option Url) (buildID : String)

/-- A load that asks for no other build, and under no worker but one of the build. -/
structure Ordinary (page : Url) (controller : Option Url) : Prop where
  page : Asked (normalizeBuildID (some buildID)) page
  controller : ∀ url ∈ controller,
    ∃ origin, url = pathReference origin (serviceWorkerScriptURL buildID)

/-- Loads one after the other, each with its time, its page and the worker in control,
of which every one completes the build. -/
def AllComplete : Browser → List (String × Url × Option Url) → Prop
  | _, [] => True
  | browser, (now, page, controller) :: rest =>
    ∃ page' browser', guardDocument newURL buildID now page { browser with controller } =
      (.completed page', browser') ∧ AllComplete browser' rest

/-- No later load of the same build is led anywhere else. -/
def Stays (browser : Browser) : Prop :=
  ∀ loads : List (String × Url × Option Url),
    (∀ load ∈ loads, Ordinary buildID load.2.1 load.2.2) → AllComplete newURL buildID browser loads

/-- The build guard cannot loop: a load is led to another address at most once, the load
there completes the build, and then every load does. -/
structure Guarded (browser : Browser) : Prop where
  idempotent : normalizeBuildID (some (normalizeBuildID (some buildID))) =
    normalizeBuildID (some buildID)
  workerBuild : serviceWorkerBuildFromURL newURL (some (serviceWorkerScriptURL buildID)) =
    some (normalizeBuildID (some buildID))
  reload : ∀ now page target browser',
    guardDocument newURL buildID now page browser = (.reloads target, browser') →
    ∀ now' controller, ∃ page' browser'',
      guardDocument newURL buildID now' target { browser' with controller } =
        (.completed page', browser'') ∧ Stays newURL buildID browser''
  direct : ∀ now page page' browser',
    guardDocument newURL buildID now page browser = (.completed page', browser') →
    Stays newURL buildID browser'

/-- The marker will be that of the build, or is so already. -/
def MarkerKept (browser : Browser) : Prop :=
  browser.marker.writable = true ∨ Fits (normalizeBuildID (some buildID)) browser

variable {newURL buildID}

theorem normalizeBuildID_nonempty (buildID : String) : normalizeBuildID (some buildID) ≠ "" := by
  intro h
  have hnormal := normalizeBuild_normal buildID
  rw [← normalizeBuild_eq, h] at hnormal
  exact hnormal.nonempty rfl

/-- A text that holds the build id is read as that of the build. -/
theorem build_read (h : Settled buildID) :
    ((nonEmpty (some (normalizeBuildID (some buildID)))).map normalizeBuild) =
      some (normalizeBuildID (some buildID)) := by
  have hne := normalizeBuildID_nonempty buildID
  have hsame := (normalizeBuild_settled buildID).2 h
  generalize normalizeBuildID (some buildID) = id at hne hsame
  rw [nonEmpty, Option.filter_some, if_pos (decide_eq_true hne), Option.map_some, hsame]

theorem MarkerKept.written (h : Settled buildID) {browser : Browser}
    (hkept : MarkerKept buildID browser) {browser' : Browser}
    (hmarker : browser'.marker = writeStorage browser.marker (normalizeBuildID (some buildID))) :
    Fits (normalizeBuildID (some buildID)) browser' := by
  have hread := build_read h
  unfold MarkerKept at hkept
  generalize normalizeBuildID (some buildID) = id at hkept hmarker hread ⊢
  unfold Fits markerBuild at *
  rw [hmarker, writeStorage]
  rcases hkept with hwritable | hfits
  · rw [if_pos hwritable, readStorage]
    dsimp only
    split
    · rw [hread]
      exact decide_eq_true rfl
    · rfl
  · split
    · rw [readStorage]
      dsimp only
      split
      · rw [hread]
        exact decide_eq_true rfl
      · rfl
    · exact hfits

/-- A worker of the build is read as one. -/
theorem Ordinary.controller_matches (h : Settled buildID) {page : Url} {controller : Option Url}
    (hload : Ordinary buildID page controller) :
    (controllerBuild controller).all (· = normalizeBuildID (some buildID)) = true := by
  cases controller with
  | none => rfl
  | some url =>
    obtain ⟨origin, rfl⟩ := hload.controller url rfl
    have hsame := (normalizeBuild_settled buildID).2 h
    have hne := normalizeBuildID_nonempty buildID
    have hparams := (params_scriptURL origin buildID).2
    unfold controllerBuild
    rw [Option.map_some, hparams, get_singleton]
    generalize normalizeBuildID (some buildID) = id at hsame hne
    dsimp only
    rw [if_neg hne, hsame]
    exact decide_eq_true rfl

theorem stays_of_fits (h : Settled buildID) (loads : List (String × Url × Option Url)) :
    ∀ browser : Browser, Fits (normalizeBuildID (some buildID)) browser →
      (∀ load ∈ loads, Ordinary buildID load.2.1 load.2.2) →
        AllComplete newURL buildID browser loads := by
  induction loads with
  | nil => exact fun _ _ _ => trivial
  | cons load rest ih =>
    obtain ⟨now, page, controller⟩ := load
    intro browser hfits hloads
    have hload := hloads _ List.mem_cons_self
    have hmatch : Matches (normalizeBuildID (some buildID)) { browser with controller } :=
      ⟨hfits, hload.controller_matches h⟩
    have hcompletes := guard_completes newURL now hload.page fun _ => hmatch
    refine ⟨_, _, hcompletes, ih _ ?_ fun l hl => hloads l (List.mem_cons_of_mem _ hl)⟩
    exact MarkerKept.written h (.inr hfits) (of_completed hcompletes).2.2

/-- Where a build id is normal the guard works, if the storage takes the marker. -/
theorem guarded_of_settled (h : Settled buildID) {browser : Browser}
    (hkept : MarkerKept buildID browser) : Guarded newURL buildID browser where
  idempotent := by rw [normalizeBuild_eq, (normalizeBuild_settled buildID).2 h]
  workerBuild := by rw [serviceWorkerBuild_scriptURL, (normalizeBuild_settled buildID).2 h]
  reload now page target browser' hreload now' controller := by
    obtain ⟨hmarker, url, rfl⟩ := of_reloads hreload
    have hrequested : requestedBuild (url.withParams (set cacheBusterQuery
        (normalizeBuildID (some buildID)) url.params)) = some (normalizeBuildID (some buildID)) := by
      unfold requestedBuild
      rw [params_withParams, get_set]
      exact build_read h
    have hcompletes : guardDocument newURL buildID now' _ { browser' with controller } = _ :=
      guard_requested newURL now' hrequested
    refine ⟨_, _, hcompletes, fun loads => stays_of_fits h loads _ ?_⟩
    refine MarkerKept.written h ?_ (of_completed hcompletes).2.2
    unfold MarkerKept Fits at hkept ⊢
    dsimp only
    rwa [hmarker]
  direct now page page' browser' hcompleted := fun loads =>
    stays_of_fits h loads _ (hkept.written h (of_completed hcompleted).2.2)

/-- Without a marker of the build in a storage that keeps it, the next load is led away again. -/
theorem markerKept_of_guarded {browser : Browser} (h : Guarded newURL buildID browser) :
    MarkerKept buildID browser := by
  by_contra hkept
  obtain ⟨hwritable, hfits⟩ := not_or.1 hkept
  let page : Url := ⟨"https://lexigo.example", "/", "", ""⟩
  have hpage : requestedBuild page = none := by decide
  have hmismatch : ¬Matches (normalizeBuildID (some buildID)) browser := fun hmatch => hfits hmatch.1
  obtain ⟨url, browser', hmarker, hreload⟩ := guard_reloads newURL "" hpage hmismatch
  obtain ⟨page', browser'', hcompleted, hstays⟩ := h.reload _ _ _ _ hreload "" none
  obtain ⟨page₃, browser₃, hthird, -⟩ := hstays [("", page, none)] fun load hload => by
    rw [List.mem_singleton.1 hload]
    refine ⟨?_, fun url hurl => (nomatch hurl)⟩
    unfold Asked
    rw [hpage]
    rfl
  have hagain := ((of_completed hthird).2.1 hpage).1
  have hmarker' := (of_completed hcompleted).2.2
  unfold Fits at hagain hfits
  rw [hmarker', writeStorage, hmarker, if_neg hwritable] at hagain
  exact hfits hagain

/-- The build guard cannot loop, exactly where the normalised build id is one that
normalising leaves as it is and the marker can be kept. -/
theorem guarded_iff (newURL : String → String → Option Url) (buildID : String) (browser : Browser) :
    Guarded newURL buildID browser ↔ Settled buildID ∧ MarkerKept buildID browser := by
  constructor
  · intro h
    refine ⟨(normalizeBuild_settled buildID).1 ?_, markerKept_of_guarded h⟩
    rw [← normalizeBuild_eq]
    exact h.idempotent
  · rintro ⟨h, hkept⟩
    exact guarded_of_settled h hkept

end

/-- A branch name of 79 letters, a slash and more. -/
def longBuild : String := String.ofList (List.replicate 79 'a' ++ ['/', 'b'])

/-- A browser that has been there before. -/
def visited : Browser := ⟨⟨some "earlier", true, true⟩, ⟨none, true, true⟩, none⟩

/-- All the addresses that the build writes begin with a path. -/
def otherURL (_reference _base : String) : Option Url := none

theorem longBuild_unguarded : ¬Guarded otherURL longBuild visited := by
  intro h
  have hsettled : ¬Settled longBuild := by decide +kernel
  refine hsettled ((normalizeBuild_settled longBuild).1 ?_)
  rw [← normalizeBuild_eq]
  exact h.idempotent

end BuildGuard
