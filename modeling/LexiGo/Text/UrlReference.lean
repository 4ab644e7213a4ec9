import LexiGo.SeparatedLists
import LexiGo.Text.UrlEncoded
import Mathlib

/-! Addresses as a browser keeps them, and the references by which it is led to them. -/
namespace UrlReference
open UrlEncoded

/-- An address in its parts; `search` and `hash` are empty or begin with their marks. -/
structure Url where
  origin : String
  pathname : String
  search : String
  hash : String
  deriving DecidableEq

def Url.href (url : Url) : String := url.origin ++ url.pathname ++ url.search ++ url.hash

/-- The characters of a path that are not escaped. -/
def pathKept (c : Char) : Bool :=
  ' ' < c && c ≤ '~' && c ≠ '"' && c ≠ '#' && c ≠ '<' && c ≠ '>' && c ≠ '?' && c ≠ '^' &&
    c ≠ '\x60' && c ≠ '\x7b' && c ≠ '\x7d'

def queryKept (c : Char) : Bool :=
  ' ' < c && c ≤ '~' && c ≠ '"' && c ≠ '#' && c ≠ '<' && c ≠ '>' && c ≠ '\''

def fragmentKept (c : Char) : Bool :=
  ' ' < c && c ≤ '~' && c ≠ '"' && c ≠ '<' && c ≠ '>' && c ≠ '\x60'

/-- Control characters and spaces are cut off at both ends, tabs and line breaks are left out. -/
def cleaned (text : List Char) : List Char :=
  ((text.dropWhile (· ≤ ' ')).rdropWhile (· ≤ ' ')).filter fun c =>
    c ≠ '\t' && c ≠ '\n' && c ≠ '\r'

/-- A reference that names a path and no host. -/
def isPathReference (reference : String) : Bool :=
  match cleaned reference.toList with
  | c :: rest => (c = '/' || c = '\\') && !rest.head?.any fun d => d = '/' || d = '\\'
  | [] => false

def isDot (segment : List Char) : Bool :=
  segment = ['.'] || segment.map Char.toLower = "%2e".toList

def isDoubleDot (segment : List Char) : Bool :=
  segment = ['.', '.'] || segment.map Char.toLower ∈
    [".%2e".toList, "%2e.".toList, "%2e%2e".toList]

/-- The segments of a path after its dots, after those that come `before`. -/
def resolve : List (List Char) → List (List Char) → List (List Char)
  | before, [] => before
  | before, [segment] =>
    if isDoubleDot segment then before.dropLast ++ [[]]
    else if isDot segment then before ++ [[]]
    else before ++ [segment]
  | before, segment :: rest =>
    if isDoubleDot segment then resolve before.dropLast rest
    else if isDot segment then resolve before rest
    else resolve (before ++ [segment]) rest

def pathnameOf (path : List Char) : List Char :=
  let segments := ((path.drop 1).map fun c => if c = '\\' then '/' else c).splitOn '/'
  '/' :: ['/'].intercalate ((resolve [] segments).map (·.flatMap (encodeWith pathKept)))

/-- What follows a mark, escaped, with the mark; nothing at all where nothing follows. -/
def marked (keep : Char → Bool) (text : List Char) : String :=
  match text.drop 1 with
  | [] => ""
  | c :: rest => String.ofList (text.take 1 ++ (c :: rest).flatMap (encodeWith keep))

/-- `new URL` of a path reference. -/
def pathReference (origin reference : String) : Url :=
  let text := cleaned reference.toList
  let beforeHash := text.takeWhile (· ≠ '#')
  { origin := origin
    pathname := String.ofList (pathnameOf (beforeHash.takeWhile (· ≠ '?')))
    search := marked queryKept (beforeHash.dropWhile (· ≠ '?'))
    hash := marked fragmentKept (text.dropWhile (· ≠ '#')) }

/-- `searchParams` -/
def Url.params (url : Url) : List (String × String) := parseQuery (url.search.toList.drop 1)

/-- The search that the names and values make up. -/
def searchOf (params : List (String × String)) : String :=
  match serialize params with
  | [] => ""
  | text => String.ofList ('?' :: text)

def Url.withParams (url : Url) (params : List (String × String)) : Url :=
  { url with search := searchOf params }

def get (name : String) (params : List (String × String)) : Option String :=
  (params.find? (·.1 = name)).map (·.2)

/-- The names that have a value. -/
def present (fields : List (String × Option String)) : List (String × String) :=
  fields.filterMap fun field => field.2.map fun value => (field.1, value)

def delete (name : String) (params : List (String × String)) : List (String × String) :=
  params.filter (·.1 ≠ name)

/-- The first value of a name is replaced and the others go, or the name comes last. -/
def set (name value : String) : List (String × String) → List (String × String)
  | [] => [(name, value)]
  | (name', value') :: rest =>
    if name' = name then (name, value) :: delete name rest
    else (name', value') :: set name value rest

@[simp] theorem get_set (name value : String) (params : List (String × String)) :
    get name (set name value params) = some value := by
  induction params with
  | nil => simp [get, set]
  | cons nameValue rest ih =>
    rw [set]
    by_cases hname : nameValue.1 = name
    · simp [get, hname]
    · rw [if_neg hname]
      unfold get at ih ⊢
      rwa [List.find?_cons_of_neg (by simpa using hname)]

@[simp] theorem get_singleton (name value : String) : get name [(name, value)] = some value := by
  simp [get]

@[simp] theorem get_present_self (name : String) (value : Option String)
    (fields : List (String × Option String)) :
    get name (present ((name, value) :: fields)) = value.or (get name (present fields)) := by
  cases value <;> simp [get, present]

theorem get_present_ne {name name' : String} (h : name' ≠ name) (value : Option String)
    (fields : List (String × Option String)) :
    get name (present ((name', value) :: fields)) = get name (present fields) := by
  cases value <;> simp [get, present, h]

@[simp] theorem get_present_nil (name : String) : get name (present []) = none := rfl

/-- The names and values of an address are those it was given. -/
@[simp] theorem params_withParams (url : Url) (params : List (String × String)) :
    (url.withParams params).params = params := by
  unfold Url.withParams Url.params searchOf
  cases htext : serialize params with
  | nil =>
    rw [← parseQuery_serialize params, htext]
    rfl
  | cons c text =>
    dsimp only
    rw [String.toList_ofList, List.drop_one, List.tail_cons, ← htext, parseQuery_serialize]

theorem resolve_plain (segments : List (List Char)) : ∀ before,
    (∀ segment ∈ segments, isDot segment = false ∧ isDoubleDot segment = false) →
      resolve before segments = before ++ segments := by
  induction segments with
  | nil => exact fun before _ => (List.append_nil before).symm
  | cons segment rest ih =>
    intro before h
    obtain ⟨hdot, hdouble⟩ := h segment List.mem_cons_self
    have hrest := ih (before ++ [segment]) fun s hs => h s (List.mem_cons_of_mem _ hs)
    cases rest with
    | nil => simp [resolve, hdot, hdouble]
    | cons segment' rest =>
      rw [resolve, hdouble, hdot]
      · simpa using hrest
      · exact List.cons_ne_nil _ _

theorem encodeWith_kept {keep : Char → Bool} {text : List Char} (h : ∀ c ∈ text, keep c = true) :
    text.flatMap (encodeWith keep) = text := by
  induction text with
  | nil => rfl
  | cons c text ih =>
    rw [List.flatMap_cons, encodeWith, if_pos (h c List.mem_cons_self), List.singleton_append,
      ih fun d hd => h d (List.mem_cons_of_mem _ hd)]

theorem marked_kept {keep : Char → Bool} {mark c : Char} {text : List Char}
    (h : ∀ d ∈ c :: text, keep d = true) :
    marked keep (mark :: c :: text) = String.ofList (mark :: c :: text) := by
  simp only [marked, List.drop_succ_cons, List.drop_zero, List.take_succ_cons, List.take_zero]
  rw [encodeWith_kept h, List.singleton_append]

theorem cleaned_graphic {text : List Char} (h : ∀ c ∈ text, ' ' < c) : cleaned text = text := by
  have hnot : ∀ c ∈ text, decide (c ≤ ' ') = false := fun c hc =>
    decide_eq_false (Char.not_le.2 (h c hc))
  unfold cleaned
  rw [ListParts.strip_eq_self _ (fun c hc => hnot c (List.mem_of_mem_head? hc))
    (fun c hc => hnot c (List.mem_of_getLast? hc))]
  refine List.filter_eq_self.2 fun c hc => ?_
  have hspace := h c hc
  have hne : ∀ d : Char, d ≤ ' ' → c ≠ d := fun d hd heq => absurd hspace (Char.not_lt.2 (heq ▸ hd))
  simp [hne '\t' (by decide), hne '\n' (by decide), hne '\r' (by decide)]

/-- The characters that a segment of a path keeps. -/
def segmentKept (c : Char) : Bool := pathKept c && c ≠ '/' && c ≠ '\\'

/-- A segment that a browser leaves as it is. -/
structure Plain (segment : List Char) : Prop where
  kept : ∀ c ∈ segment, segmentKept c = true
  dot : isDot segment = false
  doubleDot : isDoubleDot segment = false

theorem Plain.slash_free {segment : List Char} (h : Plain segment) : '/' ∉ segment :=
  fun hmem => absurd (h.kept _ hmem) (by decide)

theorem graphic_of_pathKept {c : Char} (h : pathKept c = true) :
    ' ' < c ∧ c ≠ '#' ∧ c ≠ '?' := by
  simp only [pathKept, Bool.and_eq_true, decide_eq_true_eq] at h
  exact ⟨h.1.1.1.1.1.1.1.1.1.1, h.1.1.1.1.1.1.1.2, h.1.1.1.1.2⟩

theorem graphic_of_queryKept {c : Char} (h : queryKept c = true) : ' ' < c ∧ c ≠ '#' := by
  simp only [queryKept, Bool.and_eq_true, decide_eq_true_eq] at h
  exact ⟨h.1.1.1.1.1.1, h.1.1.1.2⟩

theorem mem_path {segments : List (List Char)} (h : ∀ s ∈ segments, Plain s) {c : Char}
    (hc : c ∈ ['/'].intercalate segments) : pathKept c = true ∧ c ≠ '\\' := by
  rcases SeparatedLists.of_mem_intercalate hc with rfl | ⟨segment, hsegment, hmem⟩
  · exact ⟨by decide, by decide⟩
  · have hkept := (h segment hsegment).kept c hmem
    simp only [segmentKept, Bool.and_eq_true, decide_eq_true_eq] at hkept
    exact ⟨hkept.1.1, hkept.2⟩

def pathOf (segments : List (List Char)) : String :=
  String.ofList ('/' :: ['/'].intercalate segments)

theorem splitOn_pathOf {segments : List (List Char)} (hne : segments ≠ [])
    (h : ∀ s ∈ segments, '/' ∉ s) : (pathOf segments).toList.splitOn '/' = [] :: segments := by
  obtain ⟨s, rest, rfl⟩ := List.exists_cons_of_ne_nil hne
  have hcons : '/' :: ['/'].intercalate (s :: rest) = ['/'].intercalate ([] :: s :: rest) := by
    rw [List.intercalate_cons_cons, List.nil_append, List.singleton_append]
  unfold pathOf
  rw [String.toList_ofList, hcons]
  refine List.splitOn_intercalate _ ?_ (List.cons_ne_nil _ _)
  intro l hl
  rcases List.mem_cons.1 hl with rfl | hl
  · exact List.not_mem_nil
  · exact h l hl

theorem pathnameOf_plain {segments : List (List Char)} (hne : segments ≠ [])
    (h : ∀ s ∈ segments, Plain s) :
    pathnameOf ('/' :: ['/'].intercalate segments) = '/' :: ['/'].intercalate segments := by
  have hslashes : (['/'].intercalate segments).map (fun c => if c = '\\' then '/' else c) =
      ['/'].intercalate segments :=
    (List.map_congr_left fun c hc => if_neg (mem_path h hc).2).trans (List.map_id _)
  have hfree : ∀ s ∈ segments, '/' ∉ s := by
    intro s hs hmem
    have hkept := (h s hs).kept _ hmem
    exact absurd hkept (by decide)
  have hencoded : segments.map (·.flatMap (encodeWith pathKept)) = segments := by
    refine (List.map_congr_left fun s hs => encodeWith_kept fun c hc => ?_).trans (List.map_id _)
    have hkept := (h s hs).kept c hc
    simp only [segmentKept, Bool.and_eq_true] at hkept
    exact hkept.1.1
  dsimp only [pathnameOf]
  rw [List.drop_one, List.tail_cons, hslashes, List.splitOn_intercalate _ hfree hne,
    resolve_plain segments [] fun s hs => ⟨(h s hs).dot, (h s hs).doubleDot⟩, List.nil_append,
    hencoded]

/-- A query with its mark, where there is one. -/
def queryPart : List Char → List Char
  | [] => []
  | c :: text => '?' :: c :: text

/-- A reference of plain segments and a plain query is taken as it stands. -/
theorem pathReference_plain (origin : String) {segments : List (List Char)} {query : List Char}
    (hne : segments ≠ []) (hsegments : ∀ s ∈ segments, Plain s)
    (hquery : ∀ c ∈ query, queryKept c = true) :
    pathReference origin
        (String.ofList ('/' :: ['/'].intercalate segments ++ queryPart query)) =
      { origin := origin
        pathname := pathOf segments
        search := String.ofList (queryPart query)
        hash := "" } := by
  unfold pathOf
  generalize hpath : '/' :: ['/'].intercalate segments = path
  have hchars : ∀ c ∈ path, pathKept c = true := by
    intro c hc
    rw [← hpath] at hc
    rcases List.mem_cons.1 hc with rfl | hc
    · decide
    · exact (mem_path hsegments hc).1
  have hpart : ∀ c ∈ queryPart query, ' ' < c ∧ c ≠ '#' := by
    intro c hc
    cases query with
    | nil => exact absurd hc List.not_mem_nil
    | cons d text =>
      rcases List.mem_cons.1 hc with rfl | hc
      · exact ⟨by decide, by decide⟩
      · exact graphic_of_queryKept (hquery c hc)
  have hgraphic : ∀ c ∈ path ++ queryPart query, ' ' < c ∧ c ≠ '#' := by
    intro c hc
    rcases List.mem_append.1 hc with hc | hc
    · exact ⟨(graphic_of_pathKept (hchars c hc)).1, (graphic_of_pathKept (hchars c hc)).2.1⟩
    · exact hpart c hc
  have htake : (path ++ queryPart query).takeWhile (· ≠ '#') = path ++ queryPart query :=
    List.takeWhile_eq_self_iff.2 fun c hc => decide_eq_true (hgraphic c hc).2
  have hdrop : (path ++ queryPart query).dropWhile (· ≠ '#') = [] :=
    List.dropWhile_eq_nil_iff.2 fun c hc => decide_eq_true (hgraphic c hc).2
  have hmark : ∀ c ∈ path, decide (c ≠ '?') = true := fun c hc =>
    decide_eq_true (graphic_of_pathKept (hchars c hc)).2.2
  have hbefore : (queryPart query).takeWhile (· ≠ '?') = [] := by
    cases query <;> simp [queryPart]
  have hafter : (queryPart query).dropWhile (· ≠ '?') = queryPart query := by
    cases query <;> simp [queryPart]
  have hsearch : marked queryKept (queryPart query) = String.ofList (queryPart query) := by
    cases query with
    | nil => rfl
    | cons c text => exact marked_kept hquery
  dsimp only [pathReference]
  rw [String.toList_ofList, cleaned_graphic fun c hc => (hgraphic c hc).1, htake, hdrop,
    List.takeWhile_append_of_pos hmark, List.dropWhile_append_of_pos hmark, hbefore, hafter,
    List.append_nil, hsearch, ← hpath, pathnameOf_plain hne hsegments]
  rfl

theorem mem_serialize {params : List (String × String)} {c : Char} (h : c ∈ serialize params) :
    formKept c = true ∨ c = '%' ∨ c = '+' ∨ c = '=' ∨ c = '&' := by
  rcases SeparatedLists.of_mem_intercalate h with rfl | ⟨part, hpart, hc⟩
  · simp
  · obtain ⟨nameValue, -, rfl⟩ := List.mem_map.1 hpart
    rcases List.mem_append.1 hc with hc | hc
    · rcases mem_formEncode hc with h | h | h <;> simp [h]
    · rcases List.mem_cons.1 hc with rfl | hc
      · simp
      · rcases mem_formEncode hc with h | h | h <;> simp [h]

theorem searchOf_eq (params : List (String × String)) :
    searchOf params = String.ofList (queryPart (serialize params)) := by
  unfold searchOf
  cases serialize params <;> rfl

theorem toLower_spec (c : Char) :
    c.toLower = c ∨ 65 ≤ c.toNat ∧ c.toNat ≤ 90 ∧ c.toLower.toNat = c.toNat + 32 := by
  unfold Char.toLower
  split
  · next h =>
    obtain ⟨hlow, hhigh⟩ := h
    rw [ge_iff_le, UInt32.le_iff_toNat_le] at hlow
    rw [UInt32.le_iff_toNat_le] at hhigh
    change 65 ≤ c.toNat at hlow
    change c.toNat ≤ 90 at hhigh
    refine .inr ⟨hlow, hhigh, ?_⟩
    change (c.val + 32).toNat = c.val.toNat + 32
    rw [UInt32.toNat_add]
    change c.val.toNat ≤ 90 at hhigh
    exact Nat.mod_eq_of_lt (by change c.val.toNat + 32 < _; omega)
  · exact .inl rfl

/-- A character that becomes no letter is the same before. -/
theorem of_toLower {c d : Char} (h : c.toLower = d) (hd : d.toNat < 97) : c = d := by
  rcases toLower_spec c with hsame | ⟨hlow, -, hnat⟩
  · rw [← hsame, h]
  · rw [h] at hnat
    omega

theorem of_toLower_e {c : Char} (h : c.toLower = 'e') : c = 'e' ∨ c = 'E' := by
  rcases toLower_spec c with hsame | ⟨-, -, hnat⟩
  · rw [← hsame, h]
    exact .inl rfl
  · rw [h] at hnat
    change 101 = c.toNat + 32 at hnat
    right
    rw [← Char.toNat_inj]
    change c.toNat = 69
    omega

/-- What an escaped dot may look like. -/
theorem escaped_dot {l rest : List Char} (h : l.map Char.toLower = '%' :: '2' :: 'e' :: rest) :
    ∃ c l', (c = 'e' ∨ c = 'E') ∧ l = '%' :: '2' :: c :: l' ∧ l'.map Char.toLower = rest := by
  obtain ⟨a, l₁, rfl, ha, h⟩ := List.map_eq_cons_iff.1 h
  obtain ⟨b, l₂, rfl, hb, h⟩ := List.map_eq_cons_iff.1 h
  obtain ⟨c, l₃, rfl, hc, h⟩ := List.map_eq_cons_iff.1 h
  refine ⟨c, l₃, of_toLower_e hc, ?_, h⟩
  rw [of_toLower ha (by decide), of_toLower hb (by decide)]

theorem plain_dot {l rest : List Char} (h : l.map Char.toLower = '.' :: rest) :
    ∃ l', l = '.' :: l' ∧ l'.map Char.toLower = rest := by
  obtain ⟨a, l₁, rfl, ha, h⟩ := List.map_eq_cons_iff.1 h
  exact ⟨l₁, by rw [of_toLower ha (by decide)], h⟩

/-- A segment that a browser takes for dots is one that decodes to them. -/
theorem decode_isDot {segment : List Char} (h : isDot segment = true) :
    decodeURIComponent (String.ofList segment) = some "." := by
  simp only [isDot, Bool.or_eq_true, decide_eq_true_eq] at h
  rcases h with rfl | h
  · decide
  · have hlower : segment.map Char.toLower = ['%', '2', 'e'] := h
    obtain ⟨c, l, hc, rfl, hl⟩ := escaped_dot hlower
    rw [List.map_eq_nil_iff.1 hl]
    rcases hc with rfl | rfl <;> decide

theorem decode_isDoubleDot {segment : List Char} (h : isDoubleDot segment = true) :
    decodeURIComponent (String.ofList segment) = some ".." := by
  simp only [isDoubleDot, Bool.or_eq_true, decide_eq_true_eq, List.mem_cons, List.not_mem_nil,
    or_false] at h
  rcases h with rfl | h | h | h
  · decide
  · have hlower : segment.map Char.toLower = ['.', '%', '2', 'e'] := h
    obtain ⟨l, rfl, hl⟩ := plain_dot hlower
    obtain ⟨c, l', hc, rfl, hl'⟩ := escaped_dot hl
    rw [List.map_eq_nil_iff.1 hl']
    rcases hc with rfl | rfl <;> decide
  · have hlower : segment.map Char.toLower = ['%', '2', 'e', '.'] := h
    obtain ⟨c, l, hc, rfl, hl⟩ := escaped_dot hlower
    obtain ⟨l', rfl, hl'⟩ := plain_dot hl
    rw [List.map_eq_nil_iff.1 hl']
    rcases hc with rfl | rfl <;> decide
  · have hlower : segment.map Char.toLower = ['%', '2', 'e', '%', '2', 'e'] := h
    obtain ⟨c, l, hc, rfl, hl⟩ := escaped_dot hlower
    obtain ⟨d, l', hd, rfl, hl'⟩ := escaped_dot hl
    rw [List.map_eq_nil_iff.1 hl']
    rcases hc with rfl | rfl <;> rcases hd with rfl | rfl <;> decide

theorem segmentKept_of_range {c : Char}
    (h : 48 ≤ c.toNat ∧ c.toNat ≤ 57 ∨ 65 ≤ c.toNat ∧ c.toNat ≤ 90 ∨ 97 ≤ c.toNat ∧ c.toNat ≤ 122) :
    segmentKept c = true := by
  simp [segmentKept, pathKept, Char.lt_def, Char.le_def, UInt32.le_iff_toNat_le,
    UInt32.lt_iff_toNat_lt, ← Char.toNat_inj] at h ⊢
  change _ at h
  omega

theorem segmentKept_of_alphanum {c : Char} (h : c.isAlphanum = true) : segmentKept c = true := by
  simp only [Char.isAlphanum, Char.isAlpha, Char.isUpper, Char.isLower, Char.isDigit,
    Bool.or_eq_true, decide_eq_true_eq, Bool.and_eq_true, ge_iff_le, UInt32.le_iff_toNat_le] at h
  change ((65 ≤ c.toNat ∧ c.toNat ≤ 90) ∨ 97 ≤ c.toNat ∧ c.toNat ≤ 122) ∨
    48 ≤ c.toNat ∧ c.toNat ≤ 57 at h
  exact segmentKept_of_range (by omega)

/-- A component of a path that is no dot is plain once it has been encoded. -/
theorem plain_encoded {s : String} (hdot : s ≠ ".") (hdouble : s ≠ "..") :
    Plain (encodeURIComponent s).toList := by
  have hback := decodeURIComponent_encode s
  refine ⟨fun c hc => ?_, ?_, ?_⟩
  · rw [encodeURIComponent, String.toList_ofList] at hc
    rcases mem_encode hc with h | rfl | h
    · simp only [unreserved, Bool.or_eq_true, decide_eq_true_eq] at h
      rcases h with ((((((((h | rfl) | rfl) | rfl) | rfl) | rfl) | rfl) | rfl) | rfl) | rfl
      · exact segmentKept_of_alphanum h
      all_goals decide
    · decide
    · exact segmentKept_of_alphanum h
  · by_contra h
    have hdots := decode_isDot (Bool.not_eq_false _ ▸ h)
    rw [String.ofList_toList, hback] at hdots
    exact hdot (Option.some.inj hdots)
  · by_contra h
    have hdots := decode_isDoubleDot (Bool.not_eq_false _ ▸ h)
    rw [String.ofList_toList, hback] at hdots
    exact hdouble (Option.some.inj hdots)

theorem queryKept_of_formKept {c : Char} (h : formKept c = true) : queryKept c = true := by
  simp only [formKept, Bool.or_eq_true, decide_eq_true_eq] at h
  rcases h with (((h | rfl) | rfl) | rfl) | rfl
  · simp only [Char.isAlphanum, Char.isAlpha, Char.isUpper, Char.isLower, Char.isDigit,
      Bool.or_eq_true, decide_eq_true_eq, Bool.and_eq_true, ge_iff_le, UInt32.le_iff_toNat_le] at h
    change ((65 ≤ c.toNat ∧ c.toNat ≤ 90) ∨ 97 ≤ c.toNat ∧ c.toNat ≤ 122) ∨
      48 ≤ c.toNat ∧ c.toNat ≤ 57 at h
    simp [queryKept, Char.lt_def, Char.le_def, UInt32.le_iff_toNat_le, UInt32.lt_iff_toNat_lt,
      ← Char.toNat_inj]
    omega
  all_goals decide

theorem serialize_kept (params : List (String × String)) :
    ∀ c ∈ serialize params, queryKept c = true := by
  intro c hc
  rcases mem_serialize hc with h | rfl | rfl | rfl | rfl
  · exact queryKept_of_formKept h
  all_goals decide

/-- The address of a path of plain segments and of a query. -/
theorem pathReference_search (origin : String) {segments : List (List Char)}
    (hne : segments ≠ []) (hsegments : ∀ s ∈ segments, Plain s) (params : List (String × String)) :
    pathReference origin (pathOf segments ++ searchOf params) =
      { origin := origin, pathname := pathOf segments, search := searchOf params, hash := "" } := by
  have happend : pathOf segments ++ searchOf params = String.ofList
      ('/' :: ['/'].intercalate segments ++ queryPart (serialize params)) := by
    rw [searchOf_eq, pathOf, String.ofList_append]
  rw [happend, pathReference_plain origin hne hsegments (serialize_kept params), searchOf_eq]

end UrlReference
