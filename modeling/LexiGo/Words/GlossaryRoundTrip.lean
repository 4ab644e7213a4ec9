import LexiGo.ListParts
import LexiGo.StepHistories
import LexiGo.Words.LiteralSearch
import Mathlib.Data.List.Infix

/-! The glossary that a user exports, and what an import makes of it. The words come into
the vocabulary one by one, under the index of the database; the import looks at the whole
document, under a limit and a notion of duplicates of its own. -/
namespace GlossaryRoundTrip
open ListParts GoText CustomVocabulary WordCatalog OrderedPages StepHistories SourceAgreement
open AnswerJudgement Scheduler
open LearningSchema (UserId WordId)

section Texts

/-- Words of a text, none of which is empty or has a blank in it. -/
def Words (words : List (List Char)) : Prop :=
  ∀ word ∈ words, word ≠ [] ∧ ∀ c ∈ word, isSpace c = false

theorem words_fields (l : List Char) :
    Words ((l.splitOnP isSpace).filter fun part => !part.isEmpty) := by
  intro word hword
  obtain ⟨hpart, hne⟩ := List.mem_filter.1 hword
  exact ⟨by simpa using hne, fun c hc => part_free hpart hc⟩

theorem splitOnP_words {words : List (List Char)} (h : Words words) :
    (([' '].intercalate words).splitOnP isSpace).filter (fun part => !part.isEmpty) = words := by
  induction words with
  | nil => rfl
  | cons word words ih =>
    obtain ⟨hne, hnone⟩ := h word List.mem_cons_self
    have hrest := ih fun w hw => h w (List.mem_cons_of_mem _ hw)
    cases words with
    | nil => rw [List.intercalate_singleton, List.splitOnP_eq_singleton hnone]; simp [hne]
    | cons next words =>
      rw [List.intercalate_cons_cons, List.append_assoc, List.singleton_append,
        List.splitOnP_append_cons_of_forall_mem hnone ' ' (by decide),
        List.filter_cons_of_pos (by simpa using hne), hrest]

theorem normalizeCustomWordText_eq (value : String) : normalizeCustomWordText value =
    String.ofList ([' '].intercalate
      ((value.toList.splitOnP isSpace).filter fun part => !part.isEmpty)) := by
  rw [← String.toList_inj, normalizeCustomWordText, String.toList_intercalate, String.toList_ofList,
    fieldsFunc, List.map_map]
  have hid : String.toList ∘ String.ofList = id := by
    funext l
    simp
  rw [hid, List.map_id, String.toList_ofList]

theorem normalizeCustomWordText_again (value : String) :
    normalizeCustomWordText (normalizeCustomWordText value) = normalizeCustomWordText value := by
  rw [normalizeCustomWordText_eq (normalizeCustomWordText value), normalizeCustomWordText_eq value,
    String.toList_ofList, splitOnP_words (words_fields _)]

theorem defaultTopic_again (value : String) :
    defaultTopic (normalizeCustomWordText (defaultTopic (normalizeCustomWordText value))) =
      defaultTopic (normalizeCustomWordText value) := by
  by_cases h : normalizeCustomWordText value = ""
  · rw [h]
    decide +kernel
  · have htopic : defaultTopic (normalizeCustomWordText value) = normalizeCustomWordText value := by
      rw [defaultTopic, if_neg h]
    rw [htopic, normalizeCustomWordText_again, htopic]

/-- What a request is stored as is stored as it is. -/
theorem normalize_again {request item : CreateCustomWordRequest}
    (h : normalizeCustomWordRequest request = .ok item) :
    normalizeCustomWordRequest item = .ok item := by
  unfold normalizeCustomWordRequest at h
  dsimp only at h
  split at h
  · cases h
  split at h
  · cases h
  rename_i hheadword htranslation
  have hitem := h
  unfold rejectOverlong at h
  split at h
  · cases h
  cases h
  unfold normalizeCustomWordRequest
  dsimp only
  simp only [normalizeCustomWordText_again, defaultTopic_again]
  rw [if_neg hheadword, if_neg htranslation]
  exact hitem

end Texts

section Export
variable (lower : String → String) (collation : String → String → Bool)

/-- The columns of a row that an export has. -/
def glossaryItem (r : CatalogWord) : CreateCustomWordRequest where
  headword := r.headword
  translation := r.translation
  phonetic := r.phonetic
  partOfSpeech := r.partOfSpeech
  topic := r.topic
  note := r.note

def isGlossaryRow (u : UserId) (r : CatalogWord) : Bool :=
  r.owner = some u && r.source = customWordSource && r.kind = .word

/-- `order by lower(lemma), lower(translation)` -/
def textKeys {α : Type} (item : α → CreateCustomWordRequest) : List (α → α → Bool) :=
  [fun a b => collation (lower (item a).headword) (lower (item b).headword),
    fun a b => collation (lower (item a).translation) (lower (item b).translation)]

def glossaryOrder : WordId × CatalogWord → WordId × CatalogWord → Bool :=
  lexLe (textKeys lower collation (fun row => glossaryItem row.2) ++
    [fun a b => decide (a.1 ≤ b.1)])

def exportCustomGlossary (u : UserId) (s : CatalogState) : List CreateCustomWordRequest :=
  (orderBy (glossaryOrder lower collation) (s.rows.filter fun row => isGlossaryRow u row.2)).map
    fun row => glossaryItem row.2

def newCustomGlossaryExport (items : List CreateCustomWordRequest) : CustomGlossaryEnvelope :=
  ⟨1, items⟩

end Export

section Vocabulary
variable {lower : String → String}

/-- What holds of the words that users have written: each is stored as its request would
be again, and an owner has a text once. -/
structure Written (lower : String → String) (word : WordId → Option CatalogWord) : Prop where
  normal : ∀ w r u, word w = some r → r.owner = some u → r.kind = .word →
    normalizeCustomWordRequest (glossaryItem r) = .ok (glossaryItem r)
  unique : ∀ w w' r r' u, word w = some r → word w' = some r' → r.owner = some u →
    r'.owner = some u → sameText lower r.headword r.translation r' = true → w = w'

variable {s s' : CatalogState}

theorem glossaryItem_customWord (u : UserId) (item : CreateCustomWordRequest) :
    glossaryItem (customWord u item) = item := rfl

theorem sameText_comm (a b : CatalogWord) : sameText lower a.headword a.translation b =
    sameText lower b.headword b.translation a := by
  unfold sameText
  congr 1
  · exact decide_eq_decide.2 eq_comm
  · exact decide_eq_decide.2 eq_comm

theorem Written.part {word word' : WordId → Option CatalogWord} (h : Written lower word)
    (hsub : ∀ w r u, word' w = some r → r.owner = some u → word w = some r) :
    Written lower word' where
  normal w r u hr howner hkind := h.normal w r u (hsub w r u hr howner) howner hkind
  unique w w' r r' u hr hr' howner howner' hsame :=
    h.unique w w' r r' u (hsub w r u hr howner) (hsub w' r' u hr' howner') howner howner' hsame

/-- A row that the index lets in, and that is normal if it is a word of someone's own. -/
theorem Written.insert (h : Written lower s.word) {r : CatalogWord}
    (hnormal : ∀ u, r.owner = some u → r.kind = .word →
      normalizeCustomWordRequest (glossaryItem r) = .ok (glossaryItem r))
    (hinsert : insertWord lower s r = some s') : Written lower s'.word := by
  unfold insertWord at hinsert
  split at hinsert
  · cases hinsert
  rename_i hfree
  cases hinsert
  have hfree : ∀ w r', s.word w = some r' → r'.owner = r.owner →
      sameText lower r.headword r.translation r' = false := by
    intro w r' hr' howner
    by_contra hsame
    refine hfree (List.any_eq_true.2 ⟨(w, r'), CatalogState.mem_rows.2 hr', ?_⟩)
    rw [Bool.not_eq_false] at hsame
    simp [conflicts, howner, hsame]
  have hcase : ∀ w r', (s.append r).word w = some r' →
      (w = s.next ∧ r' = r) ∨ (w ≠ s.next ∧ s.word w = some r') := by
    intro w r' hr'
    by_cases hw : w = s.next
    · simp only [CatalogState.append, hw, if_true, Option.some.injEq] at hr'
      exact .inl ⟨hw, hr'.symm⟩
    · simp only [CatalogState.append, hw, if_false] at hr'
      exact .inr ⟨hw, hr'⟩
  constructor
  · intro w r' u hr' howner hkind
    rcases hcase w r' hr' with ⟨-, rfl⟩ | ⟨-, hr'⟩
    · exact hnormal u howner hkind
    · exact h.normal w r' u hr' howner hkind
  · intro w₁ w₂ r₁ r₂ u hr₁ hr₂ howner₁ howner₂ hsame
    rcases hcase w₁ r₁ hr₁ with ⟨rfl, rfl⟩ | ⟨-, hold₁⟩
    · rcases hcase w₂ r₂ hr₂ with ⟨rfl, -⟩ | ⟨-, hold₂⟩
      · rfl
      · rw [hfree w₂ r₂ hold₂ (howner₂.trans howner₁.symm)] at hsame
        cases hsame
    · rcases hcase w₂ r₂ hr₂ with ⟨rfl, rfl⟩ | ⟨-, hold₂⟩
      · rw [sameText_comm, hfree w₁ r₁ hold₁ (howner₁.trans howner₂.symm)] at hsame
        cases hsame
      · exact h.unique w₁ w₂ r₁ r₂ u hold₁ hold₂ howner₁ howner₂ hsame

theorem written_insertOwn (h : Written lower s.word) {now : Instant} {u : UserId} {r : CatalogWord}
    (hnormal : r.kind = .word → normalizeCustomWordRequest (glossaryItem r) = .ok (glossaryItem r))
    (hinsert : insertOwn lower now u r s = some s') : Written lower s'.word := by
  unfold insertOwn at hinsert
  split at hinsert
  · obtain ⟨s₁, hs₁, rfl⟩ := Option.map_eq_some_iff.1 hinsert
    change Written lower s₁.word
    exact h.insert (fun _ _ hkind => hnormal hkind) hs₁
  · cases hinsert

theorem written_insertCustomPhrase (h : Written lower s.word) {now : Instant} {u : UserId}
    {request : CreateCustomPhraseRequest} {slugs : List String}
    (hinsert : insertCustomPhrase lower now u request s slugs = some s') :
    Written lower s'.word := by
  induction slugs with
  | nil => cases hinsert
  | cons slug slugs ih =>
    rw [insertCustomPhrase] at hinsert
    split at hinsert
    · rename_i s₁ hs₁
      cases hinsert
      exact written_insertOwn h (fun hkind => by cases hkind) hs₁
    · split at hinsert
      · cases hinsert
      · exact ih hinsert

theorem written_insertGlossary {now : Instant} {u : UserId} {items : List CreateCustomWordRequest}
    (hitems : ∀ item ∈ items, normalizeCustomWordRequest item = .ok item)
    (h : Written lower s.word) (hinsert : insertGlossary lower now u items s = some s') :
    Written lower s'.word := by
  induction items generalizing s with
  | nil =>
    cases hinsert
    exact h
  | cons item rest ih =>
    rw [insertGlossary] at hinsert
    obtain ⟨s₁, hs₁, hrest⟩ := Option.bind_eq_some_iff.1 hinsert
    refine ih (fun i hi => hitems i (List.mem_cons_of_mem _ hi)) ?_ hrest
    refine written_insertOwn h (fun _ => ?_) hs₁
    rw [glossaryItem_customWord]
    exact hitems item List.mem_cons_self

theorem normalizeGlossaryItems_normal {unicode : Unicode} {request items : List CreateCustomWordRequest}
    {index : Nat} {seen : List (List Char × List Char)}
    (h : normalizeGlossaryItems unicode index seen request = .ok items) :
    ∀ item ∈ items, normalizeCustomWordRequest item = .ok item := by
  induction request generalizing index seen items with
  | nil =>
    cases h
    simp
  | cons first rest ih =>
    rw [normalizeGlossaryItems] at h
    split at h
    · cases h
    rename_i normalized hnormalized
    split at h
    · cases h
    split at h
    · cases h
    rename_i items' hitems
    cases h
    intro item hitem
    rcases List.mem_cons.1 hitem with rfl | hitem
    · exact normalize_again hnormalized
    · exact ih hitems item hitem

theorem normalizeImport_items {unicode : Unicode} {request : CustomGlossaryEnvelope}
    {items : List CreateCustomWordRequest}
    (h : normalizeCustomGlossaryImport unicode request = .ok items) :
    normalizeGlossaryItems unicode 0 [] request.items = .ok items := by
  unfold normalizeCustomGlossaryImport at h
  split at h
  · cases h
  split at h
  · cases h
  split at h
  · cases h
  · exact h

theorem written_append (h : Written lower s.word) {r : CatalogWord} (hr : r.owner = none) :
    Written lower (s.append r).word := by
  refine h.part fun w r' u hr' howner => ?_
  simp only [CatalogState.append] at hr'
  split at hr'
  · cases hr'
    rw [hr] at howner
    cases howner
  · exact hr'

theorem written_seedEntry (h : Written lower s.word) (entry : Entry) :
    Written lower (seedEntry lower s entry).word := by
  unfold seedEntry
  split
  · rename_i w r hfind
    have hshared : s.word w = some r ∧ r.owner = none := by
      refine ⟨CatalogState.mem_rows.1 (List.mem_of_find?_eq_some hfind), ?_⟩
      have hp := List.find?_some hfind
      simp only [Bool.and_eq_true, decide_eq_true_eq] at hp
      exact hp.1
    refine h.part fun w' r' u hr' howner => ?_
    simp only [CatalogState.revise] at hr'
    split at hr'
    · rename_i hw
      rw [hw, hshared.1] at hr'
      cases hr'
      rw [hshared.2] at howner
      cases howner
    · exact hr'
  · exact written_append h rfl

theorem written_seed (h : Written lower s.word) (entries : List Entry) :
    Written lower (entries.foldl (seedEntry lower) s).word := by
  induction entries generalizing s with
  | nil => exact h
  | cons entry rest ih => exact ih (written_seedEntry h entry)

theorem written_erase (h : Written lower s.word) (p : WordId → CatalogWord → Bool)
    (q : UserId → Bool) : Written lower (s.erase p q).word :=
  h.part fun _ _ _ hr _ => (Option.filter_eq_some_iff.1 hr).1

theorem written_createCustomWord (h : Written lower s.word) {now : Instant} {u : UserId}
    {request : CreateCustomWordRequest} (hs : createCustomWord lower now u request s = some s') :
    Written lower s'.word := by
  unfold createCustomWord at hs
  split at hs
  · cases hs
  · rename_i item hitem
    refine written_insertOwn h (fun _ => ?_) hs
    rw [glossaryItem_customWord]
    exact normalize_again hitem

theorem written_createCustomPhrase (h : Written lower s.word) {now : Instant} {u : UserId}
    {request : CreateCustomPhraseRequest} {slugs : List String}
    (hs : createCustomPhrase lower now u request slugs s = some s') : Written lower s'.word := by
  unfold createCustomPhrase at hs
  split at hs
  · cases hs
  · exact written_insertCustomPhrase h hs

theorem written_importCustomGlossary (h : Written lower s.word) {unicode : Unicode} {now : Instant}
    {u : UserId} {request : CustomGlossaryEnvelope}
    (hs : importCustomGlossary lower unicode now u request s = some s') : Written lower s'.word := by
  unfold importCustomGlossary at hs
  split at hs
  · cases hs
  · rename_i items hitems
    exact written_insertGlossary (normalizeGlossaryItems_normal (normalizeImport_items hitems)) h hs

/-- What fails leaves the words as they were. -/
theorem written_getD (h : Written lower s.word) {result : Option CatalogState}
    (hresult : ∀ s', result = some s' → Written lower s'.word) :
    Written lower (result.getD s).word := by
  cases result with
  | none => exact h
  | some s' => exact hresult s' rfl

theorem written_run {unicode : Unicode} (h : Written lower s.word) (c : Instant × Command) :
    Written lower (run lower unicode s c).word := by
  obtain ⟨now, c⟩ := c
  cases c with
  | seed entries => exact written_seed h entries
  | register u =>
    simp only [run, register]
    split
    · exact h
    · exact h
  | createCustomWord u request => exact written_getD h fun _ => written_createCustomWord h
  | createCustomPhrase u request slugs => exact written_getD h fun _ => written_createCustomPhrase h
  | importCustomGlossary u request => exact written_getD h fun _ => written_importCustomGlossary h
  | deleteCustom u w kind => exact written_erase h _ _
  | resolveScenarioReviewWord u target pick =>
    change Written lower (ensureScenarioWord lower target s).word
    refine written_getD h fun s' hs => h.insert (fun _ howner => ?_) hs
    cases howner
  | progress u w e => exact h
  | deleteUser u => exact written_erase h _ _

end Vocabulary

section Import
variable {lower : String → String} {collation : String → String → Bool} {unicode : Unicode}
variable {s s' : CatalogState}

theorem normalizeGlossaryItems_cons {item : CreateCustomWordRequest}
    {rest : List CreateCustomWordRequest} (hitem : normalizeCustomWordRequest item = .ok item)
    (index : Nat) (seen : List (List Char × List Char)) :
    normalizeGlossaryItems unicode index seen (item :: rest) = .ok (item :: rest) ↔
      identity unicode item ∉ seen ∧
        normalizeGlossaryItems unicode (index + 1) (identity unicode item :: seen) rest =
          .ok rest := by
  rw [normalizeGlossaryItems, hitem]
  dsimp only
  by_cases hseen : identity unicode item ∈ seen
  · rw [if_pos hseen]
    exact iff_of_false (fun h => (nomatch h)) fun h => h.1 hseen
  · rw [if_neg hseen]
    cases normalizeGlossaryItems unicode (index + 1) (identity unicode item :: seen) rest with
    | error error => exact iff_of_false (fun h => (nomatch h)) fun h => (nomatch h.2)
    | ok items => simp [hseen]

/-- Items that are stored as they are pass through the import as they are exactly when
Go's lower-casing tells them apart. -/
theorem normalizeGlossaryItems_iff {items : List CreateCustomWordRequest}
    (hitems : ∀ item ∈ items, normalizeCustomWordRequest item = .ok item) (index : Nat)
    (seen : List (List Char × List Char)) :
    normalizeGlossaryItems unicode index seen items = .ok items ↔
      (∀ item ∈ items, identity unicode item ∉ seen) ∧
        items.Pairwise fun a b => identity unicode a ≠ identity unicode b := by
  induction items generalizing index seen with
  | nil => simp [normalizeGlossaryItems]
  | cons item rest ih =>
    rw [normalizeGlossaryItems_cons (hitems item List.mem_cons_self),
      ih fun i hi => hitems i (List.mem_cons_of_mem _ hi), List.pairwise_cons]
    constructor
    · rintro ⟨hseen, hnew, hpair⟩
      refine ⟨fun i hi => ?_, fun i hi heq => ?_, hpair⟩
      · rcases List.mem_cons.1 hi with rfl | hi
        · exact hseen
        · exact fun hmem => hnew i hi (List.mem_cons_of_mem _ hmem)
      · exact hnew i hi (heq ▸ List.mem_cons_self)
    · rintro ⟨hnew, hfirst, hpair⟩
      refine ⟨hnew item List.mem_cons_self, fun i hi hmem => ?_, hpair⟩
      rcases List.mem_cons.1 hmem with heq | hmem
      · exact hfirst i hi heq.symm
      · exact hnew i (List.mem_cons_of_mem _ hi) hmem

theorem normalizeExport_iff {items : List CreateCustomWordRequest} (hne : items ≠ [])
    (hitems : ∀ item ∈ items, normalizeCustomWordRequest item = .ok item) :
    normalizeCustomGlossaryImport unicode (newCustomGlossaryExport items) = .ok items ↔
      items.length ≤ maxCustomGlossaryItems ∧
        items.Pairwise fun a b => identity unicode a ≠ identity unicode b := by
  unfold normalizeCustomGlossaryImport newCustomGlossaryExport
  dsimp only
  rw [if_neg (by decide), if_neg (by simpa using hne)]
  by_cases hlong : maxCustomGlossaryItems < items.length
  · rw [if_pos hlong]
    exact iff_of_false (fun h => (nomatch h)) fun h => absurd h.1 (Nat.not_le.2 hlong)
  · rw [if_neg hlong, normalizeGlossaryItems_iff hitems]
    simp [Nat.not_lt.1 hlong]

theorem rows_append (s : CatalogState) (r : CatalogWord) :
    (s.append r).rows = s.rows ++ [(s.next, r)] := by
  have hold : ∀ w ∈ List.range s.next, ((s.append r).word w).map (fun r => (w, r)) =
      (s.word w).map fun r => (w, r) := by
    intro w hw
    have hne : w ≠ s.next := Nat.ne_of_lt (List.mem_range.1 hw)
    simp only [CatalogState.append, if_neg hne]
  have hnew : (s.append r).word s.next = some r := by simp [CatalogState.append]
  change (List.range (s.next + 1)).filterMap _ = _
  rw [List.range_succ, List.filterMap_append, List.filterMap_congr hold]
  simp [hnew, CatalogState.rows]

/-- The rows that an import adds, from the next id on. -/
def imported (u : UserId) (first : WordId) (items : List CreateCustomWordRequest) :
    List (WordId × CatalogWord) :=
  items.mapIdx fun i item => (first + i, customWord u item)

theorem imported_cons (u : UserId) (first : WordId) (item : CreateCustomWordRequest)
    (rest : List CreateCustomWordRequest) : imported u first (item :: rest) =
      (first, customWord u item) :: imported u (first + 1) rest := by
  simp [imported, List.mapIdx_cons, Nat.add_assoc, Nat.add_comm 1]

theorem insertCustomWordTx_rows {now : Instant} {u : UserId} {item : CreateCustomWordRequest}
    (h : insertCustomWordTx lower now u item s = some s') :
    s'.rows = s.rows ++ [(s.next, customWord u item)] ∧ s'.next = s.next + 1 ∧ s'.users = s.users := by
  obtain ⟨-, rfl⟩ := insertOwn_eq h
  exact ⟨rows_append s (customWord u item), rfl, rfl⟩

/-- All of the items are added. -/
theorem insertGlossary_rows {now : Instant} {u : UserId} {items : List CreateCustomWordRequest}
    (h : insertGlossary lower now u items s = some s') :
    s'.rows = s.rows ++ imported u s.next items := by
  induction items generalizing s with
  | nil =>
    cases h
    simp [imported]
  | cons item rest ih =>
    rw [insertGlossary] at h
    obtain ⟨s₁, hs₁, hrest⟩ := Option.bind_eq_some_iff.1 h
    obtain ⟨hrows, hnext, -⟩ := insertCustomWordTx_rows hs₁
    rw [ih hrest, hrows, hnext, imported_cons, List.append_assoc, List.singleton_append]

theorem mem_imported {u : UserId} {first : WordId} {items : List CreateCustomWordRequest}
    {row : WordId × CatalogWord} (h : row ∈ imported u first items) :
    first ≤ row.1 ∧ ∃ item ∈ items, row.2 = customWord u item := by
  obtain ⟨i, hi, rfl⟩ := List.mem_mapIdx.1 h
  exact ⟨Nat.le_add_right first i, items[i], List.getElem_mem hi, rfl⟩

theorem imported_items (u : UserId) (first : WordId) (items : List CreateCustomWordRequest) :
    (imported u first items).map (fun row => glossaryItem row.2) = items := by
  induction items generalizing first with
  | nil => rfl
  | cons item rest ih => rw [imported_cons, List.map_cons, ih, glossaryItem_customWord]

/-- No text of the items is there yet, or comes twice: all of them are let in. -/
theorem insertGlossary_some {now : Instant} {u : UserId} {items : List CreateCustomWordRequest}
    (hu : u ∈ s.users)
    (hfree : ∀ row ∈ s.rows, row.2.owner = some u →
      ∀ item ∈ items, sameText lower item.headword item.translation row.2 = false)
    (hitems : items.Pairwise fun a b =>
      sameText lower b.headword b.translation (customWord u a) = false) :
    ∃ s', insertGlossary lower now u items s = some s' := by
  induction items generalizing s with
  | nil => exact ⟨s, rfl⟩
  | cons item rest ih =>
    obtain ⟨hfirst, hrest⟩ := List.pairwise_cons.1 hitems
    have hnone : ∀ row ∈ s.rows, ¬ conflicts lower (customWord u item) row.2 = true := by
      intro row hrow hconflict
      have hboth : row.2.owner = some u ∧
          sameText lower item.headword item.translation row.2 = true := by
        simp only [conflicts, customWord, Option.isSome_none, Bool.false_and, Bool.or_false,
          Bool.and_eq_true] at hconflict
        exact ⟨of_decide_eq_true hconflict.1, hconflict.2⟩
      rw [hfree row hrow hboth.1 item List.mem_cons_self] at hboth
      cases hboth.2
    have hinsert : ∃ s₁, insertCustomWordTx lower now u item s = some s₁ := by
      unfold insertCustomWordTx insertOwn insertWord
      rw [if_pos hu, List.any_eq_false.2 hnone]
      exact ⟨_, rfl⟩
    obtain ⟨s₁, hs₁⟩ := hinsert
    obtain ⟨hrows, -, husers⟩ := insertCustomWordTx_rows hs₁
    rw [insertGlossary, hs₁]
    refine ih (husers ▸ hu) ?_ hrest
    intro row hrow howner i hi
    rw [hrows, List.mem_append, List.mem_singleton] at hrow
    rcases hrow with hrow | rfl
    · exact hfree row hrow howner i (List.mem_cons_of_mem _ hi)
    · exact hfirst i hi

variable (lower collation) in
/-- The items of an export, by their texts. -/
def itemOrder : CreateCustomWordRequest → CreateCustomWordRequest → Bool :=
  lexLe (textKeys lower collation id)

theorem textKeys_isKey {α : Type} (hcollation : IsKey collation)
    (item : α → CreateCustomWordRequest) : ∀ le ∈ textKeys lower collation item, IsKey le := by
  intro le hle
  rcases List.mem_cons.1 hle with rfl | hle
  · exact hcollation.comap fun a => lower (item a).headword
  · rw [List.mem_singleton.1 hle]
    exact hcollation.comap fun a => lower (item a).translation

theorem glossaryOrder_isKey (hcollation : IsKey collation) :
    IsKey (glossaryOrder lower collation) := by
  refine lexLe_isKey fun le hle => ?_
  rcases List.mem_append.1 hle with hle | hle
  · exact textKeys_isKey hcollation _ le hle
  · rw [List.mem_singleton.1 hle]
    exact ⟨fun a b => by simpa using Nat.le_total a.1 b.1,
      fun a b c hab hbc => by simpa using Nat.le_trans (by simpa using hab) (by simpa using hbc)⟩

theorem export_sorted (hcollation : IsKey collation) (u : UserId) (s : CatalogState) :
    (exportCustomGlossary lower collation u s).Pairwise fun a b =>
      itemOrder lower collation a b = true := by
  refine List.pairwise_map.2 ((orderBy_sorted (glossaryOrder_isKey hcollation) _).imp ?_)
  intro a b h
  have htexts := lexLe_of_append h
  exact htexts

theorem imported_sorted {u : UserId} {items : List CreateCustomWordRequest}
    (h : items.Pairwise fun a b => itemOrder lower collation a b = true) (first : WordId) :
    (imported u first items).Pairwise fun a b => glossaryOrder lower collation a b = true := by
  induction items generalizing first with
  | nil => exact List.Pairwise.nil
  | cons item rest ih =>
    obtain ⟨hitem, hrest⟩ := List.pairwise_cons.1 h
    rw [imported_cons]
    refine List.pairwise_cons.2 ⟨fun row hrow => ?_, ih hrest (first + 1)⟩
    obtain ⟨hid, i, hi, heq⟩ := mem_imported hrow
    have hle : first ≤ row.1 := Nat.le_of_succ_le hid
    have htexts : itemOrder lower collation item (glossaryItem row.2) = true := by
      rw [heq, glossaryItem_customWord]
      exact hitem i hi
    exact lexLe_append htexts (by simp [lexLe, hle])

theorem glossary_imported {u : UserId} {items : List CreateCustomWordRequest}
    (hempty : ∀ w r, s.word w = some r → r.owner ≠ some u)
    (hrows : s'.rows = s.rows ++ imported u s.next items) :
    s'.rows.filter (fun row => isGlossaryRow u row.2) = imported u s.next items := by
  have hold : s.rows.filter (fun row => isGlossaryRow u row.2) = [] := by
    refine List.filter_eq_nil_iff.2 fun row hrow hglossary => ?_
    simp only [isGlossaryRow, Bool.and_eq_true, decide_eq_true_eq] at hglossary
    exact hempty row.1 row.2 (CatalogState.mem_rows.1 hrow) hglossary.1.1
  have hnew : (imported u s.next items).filter (fun row => isGlossaryRow u row.2) =
      imported u s.next items := by
    refine List.filter_eq_self.2 fun row hrow => ?_
    obtain ⟨-, item, -, heq⟩ := mem_imported hrow
    simp [heq, isGlossaryRow, customWord]
  rw [hrows, List.filter_append, hold, hnew, List.nil_append]

/-- An account without words of its own has, after the import, just the items. -/
theorem export_imported {u : UserId} {items : List CreateCustomWordRequest}
    (hsorted : items.Pairwise fun a b => itemOrder lower collation a b = true)
    (hempty : ∀ w r, s.word w = some r → r.owner ≠ some u)
    (hrows : s'.rows = s.rows ++ imported u s.next items) :
    exportCustomGlossary lower collation u s' = items := by
  unfold exportCustomGlossary
  rw [glossary_imported hempty hrows, orderBy_of_sorted (imported_sorted hsorted s.next),
    imported_items]

theorem export_length {u : UserId} {items : List CreateCustomWordRequest}
    (hempty : ∀ w r, s.word w = some r → r.owner ≠ some u)
    (hrows : s'.rows = s.rows ++ imported u s.next items) :
    (exportCustomGlossary lower collation u s').length = items.length := by
  unfold exportCustomGlossary
  rw [List.length_map, (orderBy_perm _ _).length_eq, glossary_imported hempty hrows, imported,
    List.length_mapIdx]

end Import

section Vocabularies
variable {lower : String → String} {collation : String → String → Bool} {unicode : Unicode}
variable {s : CatalogState}

variable (lower collation unicode) in
/-- The document with these items goes through the import as it is, and an empty account
has the same vocabulary after it. -/
def Recreates (items : List CreateCustomWordRequest) : Prop :=
  normalizeCustomGlossaryImport unicode (newCustomGlossaryExport items) = .ok items ∧
    ∀ now u s, u ∈ s.users → (∀ w r, s.word w = some r → r.owner ≠ some u) →
      ∃ s', importCustomGlossary lower unicode now u (newCustomGlossaryExport items) s = some s' ∧
        exportCustomGlossary lower collation u s' = items

/-- An import that does not leave everything as it was has created all of its items. -/
theorem import_all_or_nothing (now : Instant) (u : UserId) (request : CustomGlossaryEnvelope)
    (s : CatalogState) :
    run lower unicode s (now, .importCustomGlossary u request) = s ∨
      ∃ items, normalizeCustomGlossaryImport unicode request = .ok items ∧
        (run lower unicode s (now, .importCustomGlossary u request)).rows =
          s.rows ++ imported u s.next items := by
  simp only [run]
  cases hs : importCustomGlossary lower unicode now u request s with
  | none => exact .inl rfl
  | some s' =>
    unfold importCustomGlossary at hs
    split at hs
    · cases hs
    · rename_i items hitems
      exact .inr ⟨items, hitems, insertGlossary_rows hs⟩

theorem mem_export {u : UserId} {item : CreateCustomWordRequest}
    (h : item ∈ exportCustomGlossary lower collation u s) :
    ∃ w r, s.word w = some r ∧ isGlossaryRow u r = true ∧ glossaryItem r = item := by
  obtain ⟨⟨w, r⟩, hrow, rfl⟩ := List.mem_map.1 h
  obtain ⟨hmem, hglossary⟩ := List.mem_filter.1 ((orderBy_perm _ _).subset hrow)
  exact ⟨w, r, CatalogState.mem_rows.1 hmem, hglossary, rfl⟩

theorem export_normal (h : Written lower s.word) {u : UserId} :
    ∀ item ∈ exportCustomGlossary lower collation u s, normalizeCustomWordRequest item = .ok item := by
  intro item hitem
  obtain ⟨w, r, hr, hglossary, rfl⟩ := mem_export hitem
  simp only [isGlossaryRow, Bool.and_eq_true, decide_eq_true_eq] at hglossary
  exact h.normal w r u hr hglossary.1.1 hglossary.2

/-- The index keeps the texts of an export apart. -/
theorem export_unique (h : Written lower s.word) (u u' : UserId) :
    (exportCustomGlossary lower collation u s).Pairwise fun a b =>
      sameText lower b.headword b.translation (customWord u' a) = false := by
  refine List.pairwise_map.2 ?_
  have hnodup := ((orderBy_perm (glossaryOrder lower collation)
    (s.rows.filter fun row => isGlossaryRow u row.2)).nodup_iff.2
      ((CatalogPages.rows_nodup s).filter _))
  refine hnodup.imp_of_mem fun {a b} ha hb hne => ?_
  have hrow : ∀ row ∈ orderBy (glossaryOrder lower collation)
      (s.rows.filter fun row => isGlossaryRow u row.2),
      s.word row.1 = some row.2 ∧ row.2.owner = some u := by
    intro row hrow
    obtain ⟨hmem, hglossary⟩ := List.mem_filter.1 ((orderBy_perm _ _).subset hrow)
    simp only [isGlossaryRow, Bool.and_eq_true, decide_eq_true_eq] at hglossary
    exact ⟨CatalogState.mem_rows.1 hmem, hglossary.1.1⟩
  obtain ⟨har, haowner⟩ := hrow a ha
  obtain ⟨hbr, hbowner⟩ := hrow b hb
  by_contra hsame
  rw [Bool.not_eq_false] at hsame
  have hid : b.1 = a.1 := h.unique b.1 a.1 b.2 a.2 u hbr har hbowner haowner hsame
  have hrow : b.2 = a.2 := Option.some.inj (hbr.symm.trans ((congrArg s.word hid).trans har))
  exact hne (Prod.ext hid.symm hrow.symm)

theorem recreates_iff (hcollation : IsKey collation) (h : Written lower s.word) {u : UserId}
    (hne : exportCustomGlossary lower collation u s ≠ []) :
    Recreates lower collation unicode (exportCustomGlossary lower collation u s) ↔
      (exportCustomGlossary lower collation u s).length ≤ maxCustomGlossaryItems ∧
        (exportCustomGlossary lower collation u s).Pairwise fun a b =>
          identity unicode a ≠ identity unicode b := by
  have hnormalize := @normalizeExport_iff unicode _ hne (export_normal h)
  rw [← hnormalize]
  refine ⟨fun hrecreates => hrecreates.1, fun hok => ⟨hok, ?_⟩⟩
  intro now u' s₁ hu' hempty
  have hfree : ∀ row ∈ s₁.rows, row.2.owner = some u' →
      ∀ item ∈ exportCustomGlossary lower collation u s,
        sameText lower item.headword item.translation row.2 = false := by
    intro row hrow howner
    exact absurd howner (hempty row.1 row.2 (CatalogState.mem_rows.1 hrow))
  obtain ⟨s₂, hs₂⟩ := @insertGlossary_some lower s₁ now u' _ hu' hfree (export_unique h u u')
  refine ⟨s₂, ?_, export_imported (export_sorted hcollation u s) hempty (insertGlossary_rows hs₂)⟩
  unfold importCustomGlossary
  rw [hok]
  exact hs₂

theorem written_shared (h : ∀ w r, s.word w = some r → r.owner = none) : Written lower s.word := by
  have hnone : ∀ w r u, s.word w = some r → r.owner = some u → False := by
    intro w r u hr howner
    rw [h w r hr] at howner
    cases howner
  exact ⟨fun w r u hr howner => (hnone w r u hr howner).elim,
    fun w _ r _ u hr _ howner => (hnone w r u hr howner).elim⟩

/-- From a catalogue of shared words on, whatever is done to it: what a user exports can
be imported exactly when the import's own limit and its own notion of a duplicate have
nothing against it. -/
theorem export_import_iff (hcollation : IsKey collation)
    (hshared : ∀ w r, s.word w = some r → r.owner = none) (history : List (Instant × Command))
    (u : UserId)
    (hne : exportCustomGlossary lower collation u (replay (run lower unicode) s history) ≠ []) :
    (Recreates lower collation unicode
        (exportCustomGlossary lower collation u (replay (run lower unicode) s history)) ↔
      (exportCustomGlossary lower collation u (replay (run lower unicode) s history)).length ≤
          maxCustomGlossaryItems ∧
        (exportCustomGlossary lower collation u (replay (run lower unicode) s history)).Pairwise
          fun a b => identity unicode a ≠ identity unicode b) ∧
    ∀ now request, run lower unicode (replay (run lower unicode) s history)
          (now, .importCustomGlossary u request) = replay (run lower unicode) s history ∨
      ∃ items, normalizeCustomGlossaryImport unicode request = .ok items ∧
        (run lower unicode (replay (run lower unicode) s history)
          (now, .importCustomGlossary u request)).rows =
            (replay (run lower unicode) s history).rows ++
              imported u (replay (run lower unicode) s history).next items := by
  have hinv : ∀ s c, Written lower s.word → Written lower (run lower unicode s c).word :=
    fun s c h => written_run h c
  have hwritten := replay_keeps hinv (written_shared hshared) history
  exact ⟨recreates_iff hcollation hwritten hne,
    fun now request => import_all_or_nothing now u request _⟩

theorem parsing_recreated :
    let s := replay (run String.toLower ascii) oneWord
      [(0, .register 1), (0, .createCustomWord 1 (parsing "Travel"))]
    (Recreates String.toLower CatalogPages.plainCollation ascii
        (exportCustomGlossary String.toLower CatalogPages.plainCollation 1 s) ↔
      (exportCustomGlossary String.toLower CatalogPages.plainCollation 1 s).length ≤
          maxCustomGlossaryItems ∧
        (exportCustomGlossary String.toLower CatalogPages.plainCollation 1 s).Pairwise
          fun a b => identity ascii a ≠ identity ascii b) ∧
    ∀ now request, run String.toLower ascii s (now, .importCustomGlossary 1 request) = s ∨
      ∃ items, normalizeCustomGlossaryImport ascii request = .ok items ∧
        (run String.toLower ascii s (now, .importCustomGlossary 1 request)).rows =
          s.rows ++ imported 1 s.next items :=
  export_import_iff CatalogPages.plainCollation_isKey (fun w r hr => (oneWord_migrated w r hr).1)
    [(0, .register 1), (0, .createCustomWord 1 (parsing "Travel"))] 1 (by decide +kernel)

/-- Words that are created one by one come to what an import of all of them does. -/
theorem replay_created {now : Instant} {u : UserId} {items : List CreateCustomWordRequest}
    (hitems : ∀ item ∈ items, normalizeCustomWordRequest item = .ok item) {s' : CatalogState}
    (h : insertGlossary lower now u items s = some s') :
    replay (run lower unicode) s (items.map fun item => (now, .createCustomWord u item)) = s' := by
  induction items generalizing s with
  | nil => exact Option.some.inj h
  | cons item rest ih =>
    rw [insertGlossary] at h
    obtain ⟨s₁, hs₁, hrest⟩ := Option.bind_eq_some_iff.1 h
    have hrun : run lower unicode s (now, .createCustomWord u item) = s₁ := by
      simp only [run, createCustomWord]
      rw [hitems item List.mem_cons_self]
      dsimp only
      rw [hs₁]
      rfl
    rw [List.map_cons, replay_cons, hrun]
    exact ih (fun i hi => hitems i (List.mem_cons_of_mem _ hi)) hrest

/-- A word that is spelled with one letter. -/
def letterWord (n : Nat) : CreateCustomWordRequest where
  headword := String.ofList (List.replicate (n + 1) 'a')
  translation := "letters"
  topic := "Personal"

theorem letterWord_normal {n : Nat} (hn : n < 160) :
    normalizeCustomWordRequest (letterWord n) = .ok (letterWord n) := by
  have hwords : Words [List.replicate (n + 1) 'a'] := by
    intro word hword
    rw [List.mem_singleton.1 hword]
    refine ⟨by simp, fun c hc => ?_⟩
    rw [List.eq_of_mem_replicate hc]
    decide
  have hheadword : normalizeCustomWordText (String.ofList (List.replicate (n + 1) 'a')) =
      String.ofList (List.replicate (n + 1) 'a') := by
    have hsplit := splitOnP_words hwords
    rw [List.intercalate_singleton] at hsplit
    rw [normalizeCustomWordText_eq, String.toList_ofList, hsplit, List.intercalate_singleton]
  have htranslation : normalizeCustomWordText "letters" = "letters" := by decide +kernel
  have htopic : normalizeCustomWordText "Personal" = "Personal" := by decide +kernel
  have hempty : normalizeCustomWordText "" = "" := by decide +kernel
  have hlength : ¬ 160 < n + 1 := by omega
  have hletters : "letters".length = 7 := by decide
  have hpersonal : "Personal".length = 8 := by decide
  unfold normalizeCustomWordRequest letterWord
  simp only [hheadword, htranslation, htopic, hempty, defaultTopic]
  rw [if_neg (by simp [← String.toList_inj]), if_neg (by decide)]
  simp [rejectOverlong, overlong, List.find?, hlength, hletters, hpersonal]

theorem letterWord_distinct {m n : Nat} (h : m ≠ n) :
    sameText id (letterWord n).headword (letterWord n).translation (customWord 1 (letterWord m)) =
      false := by
  have hne : (letterWord m).headword ≠ (letterWord n).headword := by
    intro heq
    have hlength := congrArg (fun s => s.toList.length) heq
    simp only [letterWord, String.toList_ofList, List.length_replicate] at hlength
    omega
  simp [sameText, customWord, hne]

def letterWords (n : Nat) : List CreateCustomWordRequest := (List.range n).map letterWord

/-- A user who has created one word more than an import may have. -/
def manyWords : CatalogState :=
  replay (run id ascii) oneWord
    ((0, .register 1) :: (letterWords 101).map fun item => (0, .createCustomWord 1 item))

theorem manyWords_length :
    (exportCustomGlossary id CatalogPages.plainCollation 1 manyWords).length = 101 := by
  have hnormal : ∀ item ∈ letterWords 101, normalizeCustomWordRequest item = .ok item := by
    intro item hitem
    obtain ⟨n, hn, rfl⟩ := List.mem_map.1 hitem
    rw [List.mem_range] at hn
    exact letterWord_normal (by omega)
  have hdistinct : (letterWords 101).Pairwise fun a b =>
      sameText id b.headword b.translation (customWord 1 a) = false :=
    List.pairwise_map.2 (List.nodup_range.imp letterWord_distinct)
  have hempty : ∀ w r, (run id ascii oneWord (0, .register 1)).word w = some r → r.owner ≠ some 1 := by
    intro w r hr howner
    have hnone := (oneWord_migrated w r hr).1
    rw [hnone] at howner
    cases howner
  obtain ⟨s', hs'⟩ := @insertGlossary_some id (run id ascii oneWord (0, .register 1)) 0 1
    (letterWords 101) (by decide)
    (fun row hrow howner => absurd howner (hempty row.1 row.2 (CatalogState.mem_rows.1 hrow)))
    hdistinct
  have hmany : manyWords = s' := by
    unfold manyWords
    rw [replay_cons]
    exact replay_created hnormal hs'
  rw [hmany, export_length hempty (insertGlossary_rows hs'), letterWords, List.length_map,
    List.length_range]

/-- Two words that the index tells apart where `lower` knows the letters of English only. -/
def twoSpellings : CatalogState :=
  replay (run LiteralSearch.lowerAscii JudgeAgreement.latin) oneWord
    [(0, .register 1), (0, .createCustomWord 1 { headword := "İstanbul", translation := "город" }),
      (0, .createCustomWord 1 { headword := "istanbul", translation := "город" })]

theorem export_rejected :
    normalizeCustomGlossaryImport ascii
        (newCustomGlossaryExport (exportCustomGlossary id CatalogPages.plainCollation 1 manyWords)) =
      .error ⟨"items", "must contain at most 100 items"⟩ ∧
    normalizeCustomGlossaryImport JudgeAgreement.latin
        (newCustomGlossaryExport (exportCustomGlossary LiteralSearch.lowerAscii
          CatalogPages.plainCollation 1 twoSpellings)) =
      .error ⟨"items[1].lemma", "duplicate custom glossary item at items[1].lemma"⟩ := by
  refine ⟨?_, by decide +kernel⟩
  have hlength := manyWords_length
  generalize exportCustomGlossary id CatalogPages.plainCollation 1 manyWords = items at hlength ⊢
  have hne : items ≠ [] := by
    rintro rfl
    cases hlength
  unfold normalizeCustomGlossaryImport newCustomGlossaryExport
  dsimp only
  rw [if_neg (by decide), if_neg (by simpa using hne), if_pos (by rw [hlength]; decide)]
  rfl

end Vocabularies

end GlossaryRoundTrip
