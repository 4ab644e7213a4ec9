import LexiGo.Moderation.ModerationRuns

/-! A moderator decides by a version about what a listing showed under it. The
upsert of the learners changes the text and the review of a suggestion without a
new version, so this holds of the runs in which a resubmission repeats both. -/
namespace ShownContent
open RowStore TransactionProgram Interleaving CommitContract RunSoundness CommitNotes
open GoText AnswerJudgement ModerationSchema ModerationRepository ModerationService
open ModerationMachine ModerationRefinement ModerationRuns
open LearningSchema (UserId WordId EventId EventRow)

variable {unicode : Unicode} {lower : String → String} {db : ModerationDb}
variable {c c' : ModerationConfig} {w w' : ModerationWorld}

/-- Resubmissions repeat what the pending suggestion says. -/
def repeatsContent (_ : Nat) (notes : List Note) (w _ : ModerationWorld) : Prop :=
  ∀ n ∈ notes, RepeatsContent (view w.db) n

instance (m : Moderation) (n : Note) : Decidable (RepeatsContent m n) := by
  cases n <;> unfold RepeatsContent <;> infer_instance

instance (i : Nat) (notes : List Note) (w w' : ModerationWorld) :
    Decidable (repeatsContent i notes w w') :=
  inferInstanceAs (Decidable (∀ n ∈ notes, RepeatsContent (view w.db) n))

/-- A moderator has been shown `item`. -/
def Listed (c : ModerationConfig) (item : SuggestionContext) : Prop :=
  ∃ i p q response, c.procs[i]? = some p ∧ p.op = .list q ∧
    c.answer i = some (.ok (.listed response)) ∧ item ∈ response.items

/-- The next step of some request commits a decision about `s` at version `v`. -/
def Decides (unicode : Unicode) (lower : String → String) (c : ModerationConfig)
    (s : SuggestionId) (v : Nat) : Prop :=
  ∃ a c' j notes p actor request, step (program unicode lower) c a = some c' ∧
    published c a = some (j, notes) ∧ c.procs[j]? = some p ∧
    p.op = .decide actor s request ∧ request.expectedVersion = v

/-- The rows of a suggestion between `c` and `c'` go by its version, and a decision
in `c` is about what has been listed under its version by `c'`. -/
structure ShownIsDecided (unicode : Unicode) (lower : String → String)
    (c c' : ModerationConfig) : Prop where
  versioned : ∀ s r r', suggestionAt s c.world.db = some r → suggestionAt s c'.world.db = some r' →
    r'.version = r.version → r'.content = r.content ∧ r'.status = r.status
  decided : ∀ item, Listed c' item → Decides unicode lower c item.id item.version →
    ∃ r, suggestionAt item.id c.world.db = some r ∧ r.content = item.content

/-- What the listings of a log have shown is not newer than the suggestions. -/
def Shown (w : ModerationWorld) : Prop :=
  ∀ i items, (i, Note.listed items) ∈ w.log → ∀ item ∈ items,
    ∃ r, suggestionAt item.id w.db = some r ∧ item.version ≤ r.version ∧
      (r.version = item.version → r.content = item.content)

theorem commits_newer (h : Commits (moderationContract unicode repeatsContent) w w')
    {s : SuggestionId} {r : SuggestionRow} (hr : suggestionAt s w.db = some r) :
    ∃ r', suggestionAt s w'.db = some r' ∧ Newer r r' := by
  obtain ⟨i, n, -, hstep, hrepeats⟩ := commits_step h
  exact hstep.newer (hrepeats n List.mem_cons_self) hr

/-- A listing that is new in the log shows the rows as they are. -/
theorem commits_listed {allow : Nat → List Note → ModerationWorld → ModerationWorld → Prop}
    (h : Commits (moderationContract unicode allow) w w') {i : Nat}
    {items : List SuggestionContext} (hi : (i, Note.listed items) ∈ w'.log) :
    (i, Note.listed items) ∈ w.log ∨
      ∀ item ∈ items, Shows (view w.db) item ∧ suggestionAt item.id w'.db = suggestionAt item.id w.db := by
  obtain ⟨j, n, hlog, hstep, -⟩ := commits_step h
  rw [hlog, List.mem_cons] at hi
  rcases hi with heq | hi
  · right
    cases heq
    obtain ⟨hshows, hsame⟩ := hstep.of_listed
    exact fun item hitem =>
      ⟨hshows item hitem, congrFun (congrArg Moderation.suggestion hsame) item.id⟩
  · exact .inl hi

theorem commits_shown (h : Commits (moderationContract unicode repeatsContent) w w')
    (hw : Shown w) : Shown w' := by
  intro i items hi item hitem
  rcases commits_listed h hi with hi | hshows
  · obtain ⟨r, hr, hversion, hsame⟩ := hw i items hi item hitem
    obtain ⟨r', hr', hnewer⟩ := commits_newer h hr
    have hle := hnewer.version
    refine ⟨r', hr', by omega, fun heq => ?_⟩
    have hstay : r'.version = r.version := by omega
    exact (hnewer.same hstay).1.trans (hsame (by omega))
  · obtain ⟨⟨r, hr, hversion, hcontent, -⟩, hkeep⟩ := hshows item hitem
    exact ⟨r, hkeep.trans hr, by omega, fun _ => hcontent⟩

theorem shown_start : Shown (start db).world := by
  intro i items hi
  cases hi

/-- From a state on, whatever is listed of a suggestion under the version it has is
what it says. -/
structure Follow (s : SuggestionId) (r : SuggestionRow) (w : ModerationWorld) : Prop where
  newer : ∃ r', suggestionAt s w.db = some r' ∧ Newer r r'
  listed : ∀ i items, (i, Note.listed items) ∈ w.log → ∀ item ∈ items, item.id = s →
    item.version = r.version → item.content = r.content

theorem follow_start {s : SuggestionId} {r : SuggestionRow} (hw : Shown w)
    (hr : suggestionAt s w.db = some r) : Follow s r w := by
  refine ⟨⟨r, hr, .refl r⟩, fun i items hi item hitem hid hversion => ?_⟩
  obtain ⟨r', hr', -, hsame⟩ := hw i items hi item hitem
  subst hid
  cases hr.symm.trans hr'
  exact (hsame hversion.symm).symm

theorem commits_follow {s : SuggestionId} {r : SuggestionRow}
    (h : Commits (moderationContract unicode repeatsContent) w w') (hw : Follow s r w) :
    Follow s r w' := by
  obtain ⟨r₁, hr₁, hnewer₁⟩ := hw.newer
  obtain ⟨r₂, hr₂, hnewer₂⟩ := commits_newer h hr₁
  refine ⟨⟨r₂, hr₂, hnewer₁.trans hnewer₂⟩, fun i items hi item hitem hid hversion => ?_⟩
  rcases commits_listed h hi with hi | hshows
  · exact hw.listed i items hi item hitem hid hversion
  · obtain ⟨⟨r', hr', hv, hcontent, -⟩, -⟩ := hshows item hitem
    subst hid
    have hr' : suggestionAt item.id w.db = some r' := hr'
    cases hr₁.symm.trans hr'
    exact hcontent.symm.trans (hnewer₁.same (by omega)).1

/-- A commit of a decision finds the suggestion pending at the version expected. -/
theorem decides_row {allow : Nat → List Note → ModerationWorld → ModerationWorld → Prop}
    (safe : ModerationSafe unicode allow c) (tracked : Tracked Told Reported c)
    (hallow : ∀ i notes w w', (∃ s v d, notes = [.decided s v d]) → allow i notes w w')
    {s : SuggestionId} {v : Nat} (h : Decides unicode lower c s v) :
    ∃ r, suggestionAt s c.world.db = some r ∧ r.version = v := by
  obtain ⟨a, c', j, notes, p, actor, request, hs, hpub, hp, hop, hversion⟩ := h
  obtain ⟨p', hp', htold⟩ := tracked.published hpub
  cases hp.symm.trans hp'
  rw [hop] at htold
  obtain ⟨-, -, valid, hvalid, rfl⟩ := htold
  have allowed : ∀ i notes, published c a = some (i, notes) →
      allow i notes c.world c'.world := by
    intro i notes hpub'
    cases hpub.symm.trans hpub'
    exact hallow _ _ _ _ ⟨_, _, _, rfl⟩
  rcases safe.commits hs allowed with ⟨hnone, -⟩ | ⟨i, notes, hpub', hc⟩
  · rw [hpub] at hnone
    cases hnone
  · cases hpub.symm.trans hpub'
    obtain ⟨n, hn, hstep⟩ := hc.step
    cases hn
    have hexpected := validateDecision_version hvalid
    obtain ⟨r, -, -, -, -, hr, -, -, hopen, -⟩ := hstep.of_decided
    exact ⟨r, hr, by omega⟩

theorem decides_on_what_was_shown (hdb : Suits unicode db)
    (hrun : Run (program unicode lower) repeatsContent (start db) c)
    (hlater : Run (program unicode lower) repeatsContent c c') :
    ShownIsDecided unicode lower c c' := by
  obtain ⟨safe, hist⟩ := run_history hdb hrun
  have hshown : Shown c.world := history_keeps hist (fun _ _ => commits_shown) shown_start
  have follow : ∀ {s r}, suggestionAt s c.world.db = some r → Follow s r c'.world := by
    intro s r hr
    exact history_keeps (run_later safe hlater).2 (fun _ _ => commits_follow)
      (follow_start hshown hr)
  refine ⟨fun s r r' hr hr' hversion => ?_, fun item hlisted hdecides => ?_⟩
  · obtain ⟨r'', hr'', hnewer⟩ := (follow hr).newer
    cases hr'.symm.trans hr''
    exact hnewer.same hversion
  · obtain ⟨i, p, q, response, hp, hop, ha, hitem⟩ := hlisted
    obtain ⟨items, hnoted, hsub⟩ := listed_noted ((run_tracked hrun).run program_follows hlater)
      hp hop ha
    obtain ⟨r, hr, hversion⟩ := decides_row safe (run_tracked hrun) (by
      rintro _ _ _ _ ⟨s, v, d, rfl⟩ n hn
      rw [List.mem_singleton] at hn
      subst hn
      trivial) hdecides
    exact ⟨r, hr, ((follow hr).listed i items hnoted item (hsub hitem) rfl hversion.symm).symm⟩

/-- Suggestion 9 as request 3 lists it. -/
def kitty : SuggestionContext where
  id := 9
  version := 1
  status := .pending
  exerciseKind := .translation
  submittedAnswer := "kitty"
  normalizedAnswer := "kitty"
  createdAt := 2000
  updatedAt := 2000
  decidedAt := none
  decisionReason := none
  decisionComment := none
  item := ⟨1, .word, "cat", "feline", "", []⟩
  review := ⟨5, .recall, .known, .again, false, .rejectedNoMatch, 1000⟩

/-- The learner submits once more, by review `e`, before the decision commits. -/
def resubmittedAnswer (second : String) (e : Int) : List (Action Op) :=
  suggested "kitty" second ++
  .start (.list {}) :: steps 3 [1, 0] ++
  .start (.submitAnswerSuggestion 1 1 ⟨e, "translation", second⟩) ::
    steps 4 [0, 0, 3000, 0, 0, 0, 0, 0, 0, 0, 0, 0, 0] ++
  .start (.decide 7 9 ⟨"accepted", 1, "valid_variant", ""⟩) ::
    steps 5 [1, 0, 0, 0, 0, 0, 0, 0, 0, 4000, 0, 0, 0, 0]

theorem repeated_decides : ∃ c, Listed c kitty ∧ ShownIsDecided ascii id c c := by
  have shown : (exec (program ascii id) repeatsContent (start catDb)
      (resubmittedAnswer "kitty" 5)).map (fun c => (c.procs[3]?.map Proc.op, c.answer 3)) =
      some (some (.list {}), some (.ok (.listed ⟨[kitty], none⟩))) := by
    decide +kernel
  obtain ⟨c, hc, heq⟩ := Option.map_eq_some_iff.mp shown
  simp only [Prod.mk.injEq, Option.map_eq_some_iff] at heq
  obtain ⟨⟨p, hp, hop⟩, ha⟩ := heq
  exact ⟨c, ⟨3, p, {}, _, hp, hop, ha, List.mem_singleton.2 rfl⟩,
    decides_on_what_was_shown catDb_suits (.of_exec _ hc) (.refl c)⟩

/-- The learner's second review and text take the place of the first ones, and the
moderator, who was shown the first ones, decides about the second at version 1. -/
theorem resubmission_unseen : ¬ ∀ db c c', Suits ascii db →
    Run (program ascii id) (fun _ _ _ _ => True) (start db) c →
    Run (program ascii id) (fun _ _ _ _ => True) c c' → ShownIsDecided ascii id c c' := by
  intro always
  have shown : (exec (program ascii id) (fun _ _ _ _ => True) (start catDb)
      (resubmittedAnswer "Kitty!" 6)).map (fun c => (c.procs[3]?.map Proc.op, c.answer 3)) =
      some (some (.list {}), some (.ok (.listed ⟨[kitty], none⟩))) := by
    decide +kernel
  have decides : (exec (program ascii id) (fun _ _ _ _ => True) (start catDb)
      (resubmittedAnswer "Kitty!" 6)).map (fun c => (c.procs[5]?.map Proc.op,
        published c (.advance 5 0), (step (program ascii id) c (.advance 5 0)).isSome)) =
      some (some (.decide 7 9 ⟨"accepted", 1, "valid_variant", ""⟩),
        some (5, [.decided 9 1 .accepted]), true) := by
    decide +kernel
  have about : (exec (program ascii id) (fun _ _ _ _ => True) (start catDb)
      (resubmittedAnswer "Kitty!" 6)).map (fun c =>
        (suggestionAt 9 c.world.db).map SuggestionRow.content) =
      some (some ⟨"Kitty!", 1, some 6⟩) := by
    decide +kernel
  obtain ⟨c, hc, heq⟩ := Option.map_eq_some_iff.mp shown
  rw [hc] at decides about
  simp only [Option.map_some, Option.some.injEq, Prod.mk.injEq, Option.map_eq_some_iff,
    Option.isSome_iff_exists] at heq decides about
  obtain ⟨⟨p, hp, hop⟩, ha⟩ := heq
  obtain ⟨⟨q, hq, hqop⟩, hpub, c', hs⟩ := decides
  obtain ⟨row, hrow, hcontent⟩ := about
  obtain ⟨r, hr, hsame⟩ := (always catDb c c catDb_suits (.of_exec _ hc) (.refl c)).decided kitty
    ⟨3, p, {}, _, hp, hop, ha, List.mem_singleton.2 rfl⟩
    ⟨.advance 5 0, c', 5, _, q, 7, _, hs, hpub, hq, hqop, rfl⟩
  cases hrow.symm.trans hr
  rw [hcontent] at hsame
  exact absurd hsame (by decide)

end ShownContent
