import LexiGo.Words.CatalogSources

/-! When the catalogue and the lessons agree on their sources. Two columns decide
it: the owner of a word that somebody is enrolled in, and the topic of a private
word. Every other difference between the queries is one of spelling, because the
seed writes topic and source of an academic word together. -/
namespace SourceAgreement
open GoText AnswerJudgement Scheduler StepHistories CustomVocabulary WordCatalog CatalogSources
open LearningSchema (UserId WordId)

variable {lower : String → String}

/-- The state after the migrations, before the first start of the server. -/
def Migrated (s : CatalogState) : Prop :=
  ∀ w r, s.word w = some r →
    r.owner = none ∧ r.topic ≠ catalogTopic ∧ r.source ≠ catalogSource

/-- The columns of one word, as the operations leave them. -/
def Aligned (r : CatalogWord) : Prop :=
  (r.owner = none → (r.topic = catalogTopic ↔ r.source = catalogSource)) ∧
    (r.owner.isSome → r.source = customWordSource)

def WordsAligned (s : CatalogState) : Prop := ∀ w r, s.word w = some r → Aligned r

/-- A word in which `u` may be enrolled without confusion. -/
def Plain (u : UserId) (r : CatalogWord) : Prop :=
  (r.owner = none ∨ r.owner = some u) ∧
    (r.owner = some u → r.kind = .word → r.topic ≠ catalogTopic)

def EnrolmentsPlain (s : CatalogState) : Prop :=
  ∀ u w r, (s.enrolled u w).isSome → s.word w = some r → Plain u r

section Queries

theorem mem_enrolledRows {u : UserId} {s : CatalogState} {w : WordId} {e : Enrolment}
    {r : CatalogWord} :
    (w, e, r) ∈ enrolledRows u s ↔ s.word w = some r ∧ s.enrolled u w = some e := by
  simp only [enrolledRows, List.mem_filterMap, Option.map_eq_some_iff, Prod.mk.injEq, Prod.exists,
    CatalogState.mem_rows]
  constructor
  · rintro ⟨w', r', hr, e', he, rfl, rfl, rfl⟩
    exact ⟨hr, he⟩
  · rintro ⟨hr, he⟩
    exact ⟨w, r, hr, e, he, rfl, rfl, rfl⟩

theorem searched_nothing (r : CatalogWord) : searched lower "" r = true := by
  unfold searched
  rfl

theorem catalogListFilter_source (now : Instant) (u : UserId) (source : String) (e : Enrolment)
    (r : CatalogWord) :
    catalogListFilter lower now u { source := source } false e r =
      ((r.owner = none || r.owner = some u) && (source = "" ||
        sourceMatches lower (fun r => r.topic = catalogTopic) source r)) := by
  unfold catalogListFilter catalogTopic
  rw [searched_nothing]
  generalize sourceMatches lower _ source r = m
  simp

theorem mem_listPage {now : Instant} {u : UserId} {source : String} (hs : source ≠ "")
    {s : CatalogState} {w : WordId} {e : Enrolment} {r : CatalogWord} :
    (w, e, r) ∈ listPage lower now u { source := source } false s ↔
      (s.word w = some r ∧ s.enrolled u w = some e) ∧ (r.owner = none ∨ r.owner = some u) ∧
        sourceMatches lower (fun r => r.topic = catalogTopic) source r = true := by
  unfold listPage
  rw [List.mem_filter, mem_enrolledRows, catalogListFilter_source]
  generalize sourceMatches lower _ source r = m
  simp [hs]

theorem mem_considered {u : UserId} {source : String} {s : CatalogState} {w : WordId}
    {e : Enrolment} {r : CatalogWord} :
    (w, e, r) ∈ considered lower u source s ↔
      (s.word w = some r ∧ s.enrolled u w = some e) ∧
        sourceMatches lower (fun r => r.source = catalogSource) source r = true := by
  unfold considered
  rw [List.mem_filter, mem_enrolledRows]

theorem sourceMatches_congr {p q : CatalogWord → Bool} {r : CatalogWord} (source : String)
    (h : r.kind = .word → p r = q r) :
    sourceMatches lower p source r = sourceMatches lower q source r := by
  by_cases hk : r.kind = .word
  · simp only [sourceMatches, h hk]
  · simp [sourceMatches, hk]

theorem publicCatalogListFilter_source (source : String) (r : CatalogWord) :
    publicCatalogListFilter lower { source := source } r =
      (r.owner = none && r.kind = .word && (source = "" ||
        sourceMatches lower (fun r => r.topic = catalogTopic) source r)) := by
  unfold publicCatalogListFilter
  rw [searched_nothing]
  by_cases hk : r.kind = .word
  · simp only [sourceMatches, catalogTopic, hk]
    simp
    ac_rfl
  · simp [hk]

theorem metadata_total (s : CatalogState) {source : String} {total : CatalogSourceTotals → Nat}
    (h : (source, total) ∈ wordSources) :
    source ≠ "" ∧ total (metadata lower s) = (s.rows.filter fun row => row.2.owner = none).countP
      fun row => row.2.kind = .word &&
        sourceMatches lower (fun r => r.source = catalogSource) source row.2 := by
  simp only [wordSources, List.mem_cons, Prod.mk.injEq, List.not_mem_nil, or_false] at h
  rcases h with ⟨rfl, rfl⟩ | ⟨rfl, rfl⟩ | ⟨rfl, rfl⟩ | ⟨rfl, rfl⟩ | ⟨rfl, rfl⟩ | ⟨rfl, rfl⟩ |
    ⟨rfl, rfl⟩ | ⟨rfl, rfl⟩
  all_goals
    refine ⟨by decide, List.countP_congr fun row _ => ?_⟩
    by_cases hk : row.2.kind = .word <;> simp [sourceMatches, hk]

/-- Each total counts what the public list shows, as long as the columns of the
shared words are aligned. -/
theorem totals_agree {s : CatalogState} (h : WordsAligned s) {source : String}
    {total : CatalogSourceTotals → Nat} (hmem : (source, total) ∈ wordSources) :
    total (metadata lower s) = (listPublicPage lower { source := source } s).length := by
  obtain ⟨hsource, htotal⟩ := @metadata_total lower s _ _ hmem
  rw [htotal, List.countP_filter, List.countP_eq_length_filter, listPublicPage]
  congr 1
  refine List.filter_congr fun row hrow => ?_
  rw [publicCatalogListFilter_source]
  have haligned := (h row.1 row.2 (CatalogState.mem_rows.1 hrow)).1
  by_cases howner : row.2.owner = none
  · have hsame := @sourceMatches_congr lower (fun r => decide (r.topic = catalogTopic))
      (fun r => decide (r.source = catalogSource)) row.2 source fun _ => decide_eq_decide.2 (haligned howner)
    simp [hsource, howner, hsame]
  · simp [howner]

/-- Where every enrolment is plain, a list and a candidate query select alike. -/
theorem listed_iff_considered {s : CatalogState} (hw : WordsAligned s) (he : EnrolmentsPlain s)
    {now : Instant} {u : UserId} {source : String} (hs : source ≠ "")
    (item : WordId × Enrolment × CatalogWord) :
    item ∈ listPage lower now u { source := source } false s ↔
      item ∈ considered lower u source s := by
  obtain ⟨w, e, r⟩ := item
  rw [mem_listPage hs, mem_considered]
  refine and_congr_right fun ⟨hr, hen⟩ => ?_
  obtain ⟨howner, htopic⟩ := he u w r (by simp [hen]) hr
  have hsame := @sourceMatches_congr lower (fun r => decide (r.topic = catalogTopic))
    (fun r => decide (r.source = catalogSource)) r source fun hkind => by
      rcases howner with h | h
      · exact decide_eq_decide.2 ((hw w r hr).1 h)
      · have hsource : r.source ≠ catalogSource := by
          rw [(hw w r hr).2 (by simp [h])]
          decide
        simp [htopic h hkind, hsource]
  simp [howner, hsame]

/-- The two sources that tell the queries apart are `mixed`, by the owner, and the
academic one, by the topic. -/
theorem enrolmentsPlain_of_listed_iff {s : CatalogState} (hw : WordsAligned s)
    (h : ∀ now u, ∀ source ∈ learningSources, ∀ item,
      item ∈ listPage lower now u { source := source } false s ↔
        item ∈ considered lower u source s) : EnrolmentsPlain s := by
  intro u w r hen hr
  obtain ⟨e, he⟩ := Option.isSome_iff_exists.1 hen
  constructor
  · have hmixed := h 0 u "mixed" (by decide) (w, e, r)
    rw [mem_listPage (by decide), mem_considered] at hmixed
    exact (hmixed.2 ⟨⟨hr, he⟩, by simp [sourceMatches]⟩).2.1
  · intro howner hkind htopic
    have hacademic := h 0 u "academic-technical-english" (by decide) (w, e, r)
    rw [mem_listPage (by decide), mem_considered] at hacademic
    have hsource := (hacademic.1 ⟨⟨hr, he⟩, .inr howner, by simp [sourceMatches, hkind, htopic]⟩).2
    rw [sourceMatches, (hw w r hr).2 (by simp [howner])] at hsource
    revert hsource
    simp [customWordSource, catalogSource]

theorem sourcesAgree_iff {s : CatalogState} (hw : WordsAligned s) :
    SourcesAgree lower s ↔ EnrolmentsPlain s := by
  constructor
  · intro h
    exact enrolmentsPlain_of_listed_iff hw fun now u source hs item => (h.items now u source hs item).1
  · intro he
    refine ⟨fun now u source hs item => ?_, fun source total hmem => totals_agree hw hmem⟩
    have hne : source ≠ "" := by
      rintro rfl
      exact absurd hs (by decide)
    exact ⟨listed_iff_considered hw he hne item, listed_iff_considered hw he hne item⟩

end Queries

section Statements
variable {s : CatalogState}

/-- Whoever owns a word is enrolled in it. -/
def OwnersEnrolled (s : CatalogState) : Prop :=
  ∀ u w r, s.word w = some r → r.owner = some u → (s.enrolled u w).isSome

/-- What holds in every state, whatever the commands. -/
structure Kept (s : CatalogState) : Prop where
  aligned : WordsAligned s
  owners : OwnersEnrolled s

theorem kept_append (h : Kept s) {r : CatalogWord} (hr : Aligned r) (howner : r.owner = none) :
    Kept (s.append r) := by
  constructor
  · intro w r' hw
    by_cases hn : w = s.next
    · have : r = r' := by simpa [CatalogState.append, hn] using hw
      exact this ▸ hr
    · exact h.aligned w r' (by simpa [CatalogState.append, hn] using hw)
  · intro u w r' hw hown
    by_cases hn : w = s.next
    · have : r = r' := by simpa [CatalogState.append, hn] using hw
      rw [← this, howner] at hown
      exact absurd hown (by simp)
    · exact h.owners u w r' (by simpa [CatalogState.append, hn] using hw) hown

theorem enrolled_enrol {now : Instant} {p : UserId → WordId → CatalogWord → Bool} {u : UserId}
    {w : WordId} : ((s.enrol now p).enrolled u w).isSome ↔
      (s.enrolled u w).isSome ∨ u ∈ s.users ∧ ∃ r, s.word w = some r ∧ p u w r := by
  simp only [CatalogState.enrol]
  cases s.enrolled u w with
  | some e => simp
  | none =>
    cases s.word w with
    | none => simp
    | some r => by_cases hp : p u w r <;> by_cases hu : u ∈ s.users <;> simp [hp, hu, Option.filter]

theorem kept_enrol (h : Kept s) (now : Instant) (p : UserId → WordId → CatalogWord → Bool) :
    Kept (s.enrol now p) := by
  refine ⟨h.aligned, fun u w r hw howner => ?_⟩
  exact enrolled_enrol.2 (.inl (h.owners u w r hw howner))

theorem kept_erase (h : Kept s) {p : WordId → CatalogWord → Bool} {q : UserId → Bool}
    (hpq : ∀ u w r, q u → r.owner = some u → p w r) : Kept (s.erase p q) := by
  have stays : ∀ w r, (s.erase p q).word w = some r → s.word w = some r ∧ p w r = false := by
    intro w r hw
    simpa [CatalogState.erase, Option.filter_eq_some_iff] using hw
  constructor
  · intro w r hw
    exact h.aligned w r (stays w r hw).1
  · intro u w r hw howner
    obtain ⟨hword, hp⟩ := stays w r hw
    have hq : q u = false := by
      by_contra hq
      have := hpq u w r (by simpa using hq) howner
      simp [hp] at this
    simpa [CatalogState.erase, hword, hp, hq] using h.owners u w r hword howner

theorem kept_progress (h : Kept s) (u : UserId) (w : WordId) (e : Enrolment) :
    Kept (s.progress u w e) := by
  refine ⟨h.aligned, fun u' w' r hw howner => ?_⟩
  have := h.owners u' w' r hw howner
  simp only [CatalogState.progress]
  split
  · simpa using this
  · exact this

theorem plain_append {r : CatalogWord} : EnrolmentsPlain (s.append r) ↔ EnrolmentsPlain s := by
  have hword : ∀ u w, (s.enrolled u w).isSome → (s.append r).word w = s.word w := by
    intro u w hen
    have hlt := s.word_lt w (s.word_of_enrolled u w hen)
    simp [CatalogState.append, Nat.ne_of_lt hlt]
  constructor
  · intro h u w r' hen hw
    exact h u w r' hen ((hword u w hen).trans hw)
  · intro h u w r' hen hw
    exact h u w r' hen ((hword u w hen).symm.trans hw)

theorem plain_enrol {now : Instant} {p : UserId → WordId → CatalogWord → Bool} :
    EnrolmentsPlain (s.enrol now p) ↔ EnrolmentsPlain s ∧
      ∀ u w r, u ∈ s.users → s.word w = some r → p u w r → Plain u r := by
  constructor
  · intro h
    refine ⟨fun u w r hen hw => h u w r (enrolled_enrol.2 (.inl hen)) hw, ?_⟩
    intro u w r hu hw hp
    exact h u w r (enrolled_enrol.2 (.inr ⟨hu, r, hw, hp⟩)) hw
  · rintro ⟨h, hnew⟩ u w r hen hw
    rcases enrolled_enrol.1 hen with hold | ⟨hu, r', hr', hp⟩
    · exact h u w r hold hw
    · have : r' = r := Option.some.inj (hr'.symm.trans hw)
      exact hnew u w r hu hw (this ▸ hp)

theorem plain_erase (h : EnrolmentsPlain s) (p : WordId → CatalogWord → Bool) (q : UserId → Bool) :
    EnrolmentsPlain (s.erase p q) := by
  intro u w r hen hw
  have hword : s.word w = some r := by
    have : s.word w = some r ∧ p w r = false := by
      simpa [CatalogState.erase, Option.filter_eq_some_iff] using hw
    exact this.1
  refine h u w r ?_ hword
  simp only [CatalogState.erase] at hen
  split at hen
  · simp at hen
  · exact hen

theorem plain_progress (h : EnrolmentsPlain s) (u : UserId) (w : WordId) (e : Enrolment) :
    EnrolmentsPlain (s.progress u w e) := by
  intro u' w' r hen hw
  refine h u' w' r ?_ hw
  simp only [CatalogState.progress] at hen
  split at hen
  · simpa using hen
  · exact hen

end Statements

section Operations
variable {s s' : CatalogState} {now : Instant} {u : UserId}

theorem insertOwn_eq {r : CatalogWord} (h : insertOwn lower now u r s = some s') :
    u ∈ s.users ∧ s' = (s.append r).enrol now fun u' w _ => u' = u && w = s.next := by
  unfold insertOwn insertWord at h
  split at h
  · rename_i hu
    split at h
    · simp at h
    · exact ⟨hu, by simpa using h.symm⟩
  · simp at h

/-- A word of one's own keeps the invariant; it is plain unless it takes the topic
of the academic words. -/
theorem insertOwn_effect {r : CatalogWord} (h : insertOwn lower now u r s = some s')
    (howner : r.owner = some u) (hsource : r.source = customWordSource) (hk : Kept s) :
    Kept s' ∧ (EnrolmentsPlain s' ↔
      EnrolmentsPlain s ∧ (r.kind = .word → r.topic ≠ catalogTopic)) := by
  obtain ⟨hu, rfl⟩ := insertOwn_eq h
  constructor
  · constructor
    · intro w r' hw
      by_cases hn : w = s.next
      · have : r = r' := by simpa [CatalogState.enrol, CatalogState.append, hn] using hw
        subst this
        exact ⟨fun hnone => by simp [howner] at hnone, fun _ => hsource⟩
      · exact hk.aligned w r' (by simpa [CatalogState.enrol, CatalogState.append, hn] using hw)
    · intro u' w r' hw hown
      refine enrolled_enrol.2 ?_
      by_cases hn : w = s.next
      · have : r = r' := by simpa [CatalogState.enrol, CatalogState.append, hn] using hw
        subst this
        have : u = u' := Option.some.inj (howner.symm.trans hown)
        exact .inr ⟨this ▸ hu, r, hw, by simp [this, hn]⟩
      · exact .inl (hk.owners u' w r'
          (by simpa [CatalogState.enrol, CatalogState.append, hn] using hw) hown)
  · rw [plain_enrol, plain_append]
    refine and_congr_right fun _ => ⟨fun hnew => ?_, fun htopic u' w r' _ hw hp => ?_⟩
    · exact (hnew u s.next r hu (by simp [CatalogState.append]) (by simp)).2 howner
    · obtain ⟨rfl, rfl⟩ : u' = u ∧ w = s.next := by simpa using hp
      have : r = r' := by simpa [CatalogState.append] using hw
      subst this
      exact ⟨.inr howner, fun _ => htopic⟩

theorem insertCustomWordTx_effect {request : CreateCustomWordRequest}
    (h : insertCustomWordTx lower now u request s = some s') (hk : Kept s) :
    Kept s' ∧ (EnrolmentsPlain s' ↔ EnrolmentsPlain s ∧ request.topic ≠ catalogTopic) := by
  simpa [customWord] using insertOwn_effect h rfl rfl hk

theorem insertCustomPhrase_effect {request : CreateCustomPhraseRequest} {slugs : List String}
    (h : insertCustomPhrase lower now u request s slugs = some s') (hk : Kept s) :
    Kept s' ∧ (EnrolmentsPlain s' ↔ EnrolmentsPlain s) := by
  induction slugs with
  | nil => simp [insertCustomPhrase] at h
  | cons slug slugs ih =>
    unfold insertCustomPhrase at h
    split at h
    · rename_i s₁ hs₁
      obtain rfl : s₁ = s' := by simpa using h
      simpa [customPhrase] using insertOwn_effect hs₁ rfl rfl hk
    · split at h
      · simp at h
      · exact ih h

/-- Along the items of a glossary: one with the topic spoils the whole. -/
theorem insertGlossary_effect {items : List CreateCustomWordRequest}
    (h : insertGlossary lower now u items s = some s') (hk : Kept s) :
    Kept s' ∧ (EnrolmentsPlain s' ↔
      EnrolmentsPlain s ∧ ∀ item ∈ items, item.topic ≠ catalogTopic) := by
  induction items generalizing s with
  | nil =>
    obtain rfl : s = s' := by simpa [insertGlossary] using h
    exact ⟨hk, by simp⟩
  | cons item rest ih =>
    obtain ⟨s₁, hs₁, hrest⟩ := Option.bind_eq_some_iff.1 h
    obtain ⟨hk₁, hplain₁⟩ := insertCustomWordTx_effect hs₁ hk
    obtain ⟨hk', hplain'⟩ := ih hrest hk₁
    refine ⟨hk', hplain'.trans ?_⟩
    rw [hplain₁, and_assoc, List.forall_mem_cons]

theorem kept_revise (hk : Kept s) {w : WordId} {f : CatalogWord → CatalogWord}
    (h : ∀ r, s.word w = some r → Aligned (f r) ∧ (f r).owner = r.owner) : Kept (s.revise w f) := by
  have found : ∀ w' r, (s.revise w f).word w' = some r →
      ∃ r₀, s.word w' = some r₀ ∧ r₀.owner = r.owner ∧ Aligned r := by
    intro w' r hw
    by_cases hn : w' = w
    · subst hn
      obtain ⟨r₀, hr₀, rfl⟩ : ∃ r₀, s.word w' = some r₀ ∧ f r₀ = r := by
        simpa [CatalogState.revise] using hw
      exact ⟨r₀, hr₀, (h r₀ hr₀).2.symm, (h r₀ hr₀).1⟩
    · have hw' : s.word w' = some r := by simpa [CatalogState.revise, hn] using hw
      exact ⟨r, hw', rfl, hk.aligned w' r hw'⟩
  constructor
  · intro w' r hw
    obtain ⟨r₀, -, -, hr⟩ := found w' r hw
    exact hr
  · intro u w' r hw howner
    obtain ⟨r₀, hr₀, heq, -⟩ := found w' r hw
    exact hk.owners u w' r₀ hr₀ (heq.trans howner)

theorem plain_revise (h : EnrolmentsPlain s) {w : WordId} {f : CatalogWord → CatalogWord}
    (hf : ∀ r, s.word w = some r → (f r).owner = none) : EnrolmentsPlain (s.revise w f) := by
  intro u w' r hen hw
  by_cases hn : w' = w
  · subst hn
    obtain ⟨r₀, hr₀, rfl⟩ : ∃ r₀, s.word w' = some r₀ ∧ f r₀ = r := by
      simpa [CatalogState.revise] using hw
    have hnone := hf r₀ hr₀
    exact ⟨.inl hnone, fun howner => by simp [hnone] at howner⟩
  · exact h u w' r hen (by simpa [CatalogState.revise, hn] using hw)

/-- An entry of the catalogue touches shared rows only. -/
theorem seedEntry_effect (hk : Kept s) (entry : Entry) :
    Kept (seedEntry lower s entry) ∧
      (EnrolmentsPlain s → EnrolmentsPlain (seedEntry lower s entry)) := by
  unfold seedEntry
  split
  · rename_i w r hfound
    obtain ⟨howner, -⟩ : r.owner = none ∧ _ := by
      simpa using List.find?_some hfound
    have hword : s.word w = some r := CatalogState.mem_rows.1 (List.mem_of_find?_eq_some hfound)
    have shared : ∀ r', s.word w = some r' → r'.owner = none := by
      intro r' hr'
      exact (Option.some.inj (hr'.symm.trans hword)) ▸ howner
    refine ⟨kept_revise hk fun r' hr' => ⟨⟨fun _ => ?_, fun hsome => ?_⟩, rfl⟩,
      fun h => plain_revise h shared⟩
    · exact ⟨fun _ => rfl, fun _ => rfl⟩
    · simp [shared r' hr'] at hsome
  · refine ⟨kept_append hk ⟨fun _ => ⟨fun _ => rfl, fun _ => rfl⟩, fun hsome => ?_⟩ rfl,
      plain_append.2⟩
    simp at hsome

theorem seedEntries_effect (hk : Kept s) (entries : List Entry) :
    Kept (entries.foldl (seedEntry lower) s) ∧
      (EnrolmentsPlain s → EnrolmentsPlain (entries.foldl (seedEntry lower) s)) := by
  induction entries generalizing s with
  | nil => exact ⟨hk, id⟩
  | cons entry rest ih =>
    obtain ⟨hk₁, hplain₁⟩ := @seedEntry_effect lower _ hk entry
    obtain ⟨hk', hplain'⟩ := ih hk₁
    exact ⟨hk', hplain' ∘ hplain₁⟩

/-- To enrol in words by a source of the catalogue is to enrol in shared ones. -/
theorem plain_enrol_shared (hk : Kept s) (h : EnrolmentsPlain s)
    {p : UserId → WordId → CatalogWord → Bool}
    (hp : ∀ u w r, p u w r → r.source ≠ customWordSource) : EnrolmentsPlain (s.enrol now p) := by
  refine plain_enrol.2 ⟨h, fun u w r _ hw hpr => ?_⟩
  have hnone : r.owner = none := by
    cases howner : r.owner with
    | none => rfl
    | some u' => exact absurd ((hk.aligned w r hw).2 (by simp [howner])) (hp u w r hpr)
  exact ⟨.inl hnone, fun howner => by simp [hnone] at howner⟩

theorem register_effect (hk : Kept s) :
    Kept (register now u s) ∧ (EnrolmentsPlain s → EnrolmentsPlain (register now u s)) := by
  unfold register
  split
  · exact ⟨hk, id⟩
  · have hk' : Kept { s with
        users := u :: s.users } := ⟨hk.aligned, hk.owners⟩
    refine ⟨kept_enrol hk' _ _, fun h => plain_enrol_shared hk' h fun u' w r hp hcustom => ?_⟩
    have hdefault : u' = u ∧ r.source ∈ defaultSources := by simpa using hp
    rw [hcustom] at hdefault
    exact absurd hdefault.2 (by decide)

theorem ensureScenarioWord_effect (hk : Kept s) (target : ReviewTarget) :
    Kept (ensureScenarioWord lower target s) ∧
      (EnrolmentsPlain (ensureScenarioWord lower target s) ↔ EnrolmentsPlain s) := by
  unfold ensureScenarioWord insertWord
  split
  · exact ⟨hk, Iff.rfl⟩
  · refine ⟨kept_append hk ⟨fun _ => ?_, fun hsome => by simp [scenarioWord] at hsome⟩ rfl,
      plain_append⟩
    simp [scenarioWord, catalogTopic, catalogSource]

theorem ensureScenarioWord_word {target : ReviewTarget} {w : WordId} {r : CatalogWord}
    (h : (ensureScenarioWord lower target s).word w = some r) :
    s.word w = some r ∨ r.owner = none := by
  unfold ensureScenarioWord insertWord at h
  split at h
  · exact .inl h
  · by_cases hn : w = s.next
    · have : scenarioWord target = r := by simpa [CatalogState.append, hn] using h
      exact .inr (this ▸ rfl)
    · exact .inl (by simpa [CatalogState.append, hn] using h)

theorem word_ensureScenarioWord (target : ReviewTarget) {w : WordId} {r : CatalogWord}
    (h : s.word w = some r) : (ensureScenarioWord lower target s).word w = some r := by
  have hlt := s.word_lt w (by simp [h])
  unfold ensureScenarioWord insertWord
  split
  · exact h
  · simpa [CatalogState.append, Nat.ne_of_lt hlt] using h

theorem users_ensureScenarioWord (target : ReviewTarget) :
    (ensureScenarioWord lower target s).users = s.users := by
  unfold ensureScenarioWord insertWord
  split <;> rfl

end Operations

section History
variable (lower) (unicode : Unicode)

/-- The command stores no private word under the topic of the academic words, and
finds for a scenario no private word of somebody else. -/
def Harmless (s : CatalogState) : Instant × Command → Prop
  | (now, .createCustomWord u request) => ∀ item, normalizeCustomWordRequest request = .ok item →
    item.topic = catalogTopic → insertCustomWordTx lower now u item s = none
  | (now, .importCustomGlossary u request) => ∀ items,
    normalizeCustomGlossaryImport unicode request = .ok items →
    (∃ item ∈ items, item.topic = catalogTopic) → insertGlossary lower now u items s = none
  | (_, .resolveScenarioReviewWord u target pick) => u ∈ s.users → ∀ r, s.word pick = some r →
    sameText lower target.term target.translation r → r.owner = none ∨ r.owner = some u
  | _ => True

variable {lower unicode} {s : CatalogState}

theorem resolve_plain_iff (hk : Kept s) (h : EnrolmentsPlain s) (now : Instant) (u : UserId)
    (target : ReviewTarget) (pick : WordId) :
    EnrolmentsPlain (resolveScenarioReviewWord lower now u target pick s) ↔
      Harmless lower unicode s (now, .resolveScenarioReviewWord u target pick) := by
  have hensured := (@ensureScenarioWord_effect lower _ hk target).2.2 h
  rw [resolveScenarioReviewWord, plain_enrol, users_ensureScenarioWord]
  constructor
  · rintro ⟨-, hnew⟩ hu r hw htext
    exact (hnew u pick r hu (word_ensureScenarioWord target hw) (by simp [htext])).1
  · intro hfree
    refine ⟨hensured, fun u' w r hu hw hp => ?_⟩
    obtain ⟨⟨rfl, rfl⟩, htext⟩ : (u' = u ∧ w = pick) ∧ _ := by simpa using hp
    rcases ensureScenarioWord_word hw with hold | hnone
    · rcases hfree hu r hold htext with hnone | howner
      · exact ⟨.inl hnone, fun howner => by simp [hnone] at howner⟩
      · exact h u' w r (hk.owners u' w r hold howner) hold
    · exact ⟨.inl hnone, fun howner => by simp [hnone] at howner⟩

theorem kept_run (hk : Kept s) (c : Instant × Command) : Kept (run lower unicode s c) := by
  obtain ⟨now, c⟩ := c
  cases c with
  | seed entries => exact kept_enrol (seedEntries_effect hk entries).1 _ _
  | register u => exact (register_effect hk).1
  | createCustomWord u request =>
    cases hs : createCustomWord lower now u request s with
    | none => simpa [run, hs] using hk
    | some s' =>
      simp only [run, hs, Option.getD_some]
      unfold createCustomWord at hs
      split at hs
      · simp at hs
      · exact (insertCustomWordTx_effect hs hk).1
  | createCustomPhrase u request slugs =>
    cases hs : createCustomPhrase lower now u request slugs s with
    | none => simpa [run, hs] using hk
    | some s' =>
      simp only [run, hs, Option.getD_some]
      unfold createCustomPhrase at hs
      split at hs
      · simp at hs
      · exact (insertCustomPhrase_effect hs hk).1
  | importCustomGlossary u request =>
    cases hs : importCustomGlossary lower unicode now u request s with
    | none => simpa [run, hs] using hk
    | some s' =>
      simp only [run, hs, Option.getD_some]
      unfold importCustomGlossary at hs
      split at hs
      · simp at hs
      · exact (insertGlossary_effect hs hk).1
  | deleteCustom u w kind => exact kept_erase hk (by simp)
  | resolveScenarioReviewWord u target pick =>
    exact kept_enrol (ensureScenarioWord_effect hk target).1 _ _
  | progress u w e => exact kept_progress hk u w e
  | deleteUser u =>
    refine kept_erase hk fun u' w r hu howner => ?_
    have : u' = u := by simpa using hu
    simpa [this] using howner

/-- A command leaves the enrolments plain exactly when it is harmless. -/
theorem plain_run_iff (hk : Kept s) (h : EnrolmentsPlain s) (c : Instant × Command) :
    EnrolmentsPlain (run lower unicode s c) ↔ Harmless lower unicode s c := by
  obtain ⟨now, c⟩ := c
  cases c with
  | seed entries =>
    obtain ⟨hk', hplain⟩ := @seedEntries_effect lower _ hk entries
    refine iff_of_true (plain_enrol_shared hk' (hplain h) fun u w r hp => ?_) trivial
    have : r.source = catalogSource := by simpa using hp
    rw [this]
    decide
  | register u => exact iff_of_true ((register_effect hk).2 h) trivial
  | createCustomWord u request =>
    cases hn : normalizeCustomWordRequest request with
    | error error => simp [run, createCustomWord, Harmless, hn, h]
    | ok item =>
      cases hs : insertCustomWordTx lower now u item s with
      | none => simp [run, createCustomWord, Harmless, hn, hs, h]
      | some s' =>
        have heffect := (insertCustomWordTx_effect hs hk).2
        simp [run, createCustomWord, Harmless, hn, hs, heffect, h]
  | createCustomPhrase u request slugs =>
    refine iff_of_true ?_ trivial
    cases hs : createCustomPhrase lower now u request slugs s with
    | none => simpa [run, hs] using h
    | some s' =>
      simp only [run, hs, Option.getD_some]
      unfold createCustomPhrase at hs
      split at hs
      · simp at hs
      · exact (insertCustomPhrase_effect hs hk).2.2 h
  | importCustomGlossary u request =>
    cases hn : normalizeCustomGlossaryImport unicode request with
    | error error => simp [run, importCustomGlossary, Harmless, hn, h]
    | ok items =>
      cases hs : insertGlossary lower now u items s with
      | none => simp [run, importCustomGlossary, Harmless, hn, hs, h]
      | some s' =>
        have heffect := (insertGlossary_effect hs hk).2
        simp [run, importCustomGlossary, Harmless, hn, hs, heffect, h]
  | deleteCustom u w kind => exact iff_of_true (plain_erase h _ _) trivial
  | resolveScenarioReviewWord u target pick => exact resolve_plain_iff hk h now u target pick
  | progress u w e => exact iff_of_true (plain_progress h u w e) trivial
  | deleteUser u => exact iff_of_true (plain_erase h _ _) trivial

theorem migrated_kept (h : Migrated s) : Kept s := by
  constructor
  · intro w r hw
    obtain ⟨howner, htopic, hsource⟩ := h w r hw
    exact ⟨fun _ => iff_of_false htopic hsource, fun hsome => by simp [howner] at hsome⟩
  · intro u w r hw howner
    simp [(h w r hw).1] at howner

theorem migrated_plain (h : Migrated s) : EnrolmentsPlain s := by
  intro u w r _ hw
  have howner := (h w r hw).1
  exact ⟨.inl howner, fun hsome => by simp [howner] at hsome⟩

/-- The queries agree in every state of a history exactly when every command of it
is harmless. -/
theorem sources_agree_iff (h : Migrated s) (history : List (Instant × Command)) :
    Always (run lower unicode) (SourcesAgree lower) s history ↔
      EachStep (run lower unicode) (Harmless lower unicode) s history := by
  have hstart : SourcesAgree lower s :=
    (sourcesAgree_iff (migrated_kept h).aligned).2 (migrated_plain h)
  have hinv : ∀ s c, Kept s → Kept (run lower unicode s c) := fun s c hk => kept_run hk c
  refine always_iff_eachStep hinv (fun s c hk hagree => ?_) (migrated_kept h) hstart history
  rw [sourcesAgree_iff (kept_run hk c).aligned]
  exact plain_run_iff hk ((sourcesAgree_iff hk.aligned).1 hagree) c

end History

section Example

/-- One shared word, as a migration leaves it. -/
def oneWord : CatalogState :=
  CatalogState.append ⟨[], fun _ => none, fun _ _ => none, 0, by simp, by simp⟩
    { headword := "luggage"
      translation := "багаж"
      partOfSpeech := "noun"
      topic := "Travel"
      source := "lexigo-travel-v1" }

theorem oneWord_migrated : Migrated oneWord := by
  intro w r hw
  by_cases hn : w = 0
  · obtain rfl : _ = r := by simpa [oneWord, CatalogState.append, hn] using hw
    exact ⟨rfl, by decide, by decide⟩
  · simp [oneWord, CatalogState.append, hn] at hw

def parsing (topic : String) : CreateCustomWordRequest where
  headword := "parser"
  translation := "анализатор"
  partOfSpeech := "noun"
  topic := topic

theorem travelWord_agrees :
    Always (run String.toLower ascii) (SourcesAgree String.toLower) oneWord
      [(0, .register 1), (0, .createCustomWord 1 (parsing "Travel"))] := by
  refine (sources_agree_iff oneWord_migrated _).2 ⟨trivial, fun item hitem htopic => ?_, trivial⟩
  have hstored : normalizeCustomWordRequest (parsing "Travel") = .ok (parsing "Travel") := by
    decide +kernel
  obtain rfl : parsing "Travel" = item := Except.ok.inj (hstored.symm.trans hitem)
  exact absurd htopic (by decide)

/-- A private word under the topic of the academic words is listed under their source,
and never studied from it. -/
theorem academicWord_disagrees :
    ¬ Always (run String.toLower ascii) (SourcesAgree String.toLower) oneWord
      [(0, .register 1), (0, .createCustomWord 1 (parsing catalogTopic))] := by
  intro h
  have hagree := (h.2.2.items 0 1 "academic-technical-english" (by decide)
    (1, ⟨.new, 0⟩, customWord 1 (parsing catalogTopic))).1
  have hlisted : (1, ⟨.new, 0⟩, customWord 1 (parsing catalogTopic)) ∈
      listPage String.toLower 0 1 { source := "academic-technical-english" } false
        (run String.toLower ascii (run String.toLower ascii oneWord (0, .register 1))
          (0, .createCustomWord 1 (parsing catalogTopic))) := by
    decide +kernel
  revert hagree
  simp only [hlisted, true_iff]
  decide +kernel

end Example

end SourceAgreement
