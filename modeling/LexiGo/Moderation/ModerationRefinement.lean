import LexiGo.Moderation.ModerationMachine
import LexiGo.ReadCommitted.RowStatements

/-! Every commit of a request about suggestions is one step of the machine,
whatever the other requests do between its statements. -/
namespace ModerationRefinement
open RowStore TransactionProgram Interleaving CommitContract RowStatements RunSoundness
open GoText AnswerJudgement ModerationSchema ModerationRepository ModerationService
open ModerationMachine Function
open LearningSchema (UserId WordId EventId EventRow)

abbrev ModerationWorld := World Row Note

def moderationContract (unicode : Unicode)
    (allow : Nat → List Note → ModerationWorld → ModerationWorld → Prop) : Contract Row Note where
  inv w := Judgeable unicode (view w.db)
  step _ notes w w' := ∃ n, notes = [n] ∧ Step unicode n (view w.db) (view w'.db)
  allow := allow

section Views
variable (db : ModerationDb)

@[simp] theorem view_set_word (w : WordId) (v : Option WordRow) :
    view (set (Key.word w) v db) = { view db with word := update (view db).word w v } := by
  ext1 <;> funext x
  case word =>
    by_cases heq : x = w
    · subst heq; simp [view, wordAt]
    · simp [view, wordAt, lookup_set_ne, heq]
  all_goals simp [view, eventAt, suggestionAt, lookup_set_ne]

@[simp] theorem view_set_event (e : EventId) (v : Option EventRow) :
    view (set (Key.event e) v db) = { view db with event := update (view db).event e v } := by
  ext1 <;> funext x
  case event =>
    by_cases heq : x = e
    · subst heq; simp [view, eventAt]
    · simp [view, eventAt, lookup_set_ne, heq]
  all_goals simp [view, wordAt, suggestionAt, lookup_set_ne]

@[simp] theorem view_set_suggestion (s : SuggestionId) (v : Option SuggestionRow) :
    view (set (Key.suggestion s) v db) =
      { view db with suggestion := update (view db).suggestion s v } := by
  ext1 <;> funext x
  case suggestion =>
    by_cases heq : x = s
    · subst heq; simp [view, suggestionAt]
    · simp [view, suggestionAt, lookup_set_ne, heq]
  all_goals simp [view, wordAt, eventAt, lookup_set_ne]

end Views

variable {unicode : Unicode} {lower : String → String}
variable {allow : Nat → List Note → ModerationWorld → ModerationWorld → Prop}
variable {i : Nat} {t t' : Tx Row} {w w' w'' : ModerationWorld}

abbrev ModerationRely (unicode : Unicode)
    (allow : Nat → List Note → ModerationWorld → ModerationWorld → Prop) (i : Nat) (t : Tx Row) :=
  Rely (moderationContract unicode allow) i t

abbrev Keeps (unicode : Unicode) (allow : Nat → List Note → ModerationWorld → ModerationWorld → Prop)
    (p : ModerationProg α) : Prop :=
  Transactional (moderationContract unicode allow) p

theorem publishes {n : Note} (inv : Judgeable unicode (view w.db))
    (step : Step unicode n (view w.db) (view (t.visible w.db))) :
    Publishes (moderationContract unicode allow) i t [n] w :=
  ⟨step.judgeable inv, ⟨n, rfl, step⟩, fun _ _ _ => trivial⟩

theorem answered_keeps {β : Type} {f : β → Answer} {p : ModerationProg (Reply β)}
    (hp : Keeps unicode allow p) : Keeps unicode allow (answered f p) := by
  refine .bind hp fun r => ?_
  cases r <;> exact .pure _

theorem recordReview_keeps (event : EventRow) : Keeps unicode allow (recordReview event) := by
  intro i w
  unfold recordReview
  rw [wp_bind, wp_choose]
  intro e
  rw [wp_bind]
  refine wp_insertRow (fun _ _ _ _ _ => rfl) fun w₁ _ _ hfree => ?_
  simp only [Bool.not_true, Bool.false_eq_true, if_false, wp_bind, wp_commit]
  intro w₂ hr₂ hi₂ _
  refine ⟨publishes hi₂ ?_, rfl⟩
  have free : (view w₂.db).event e = none := hr₂.kept (by simp) hfree
  simpa using @Step.reviewed unicode _ e event free

/-- What a statement that only waits leaves behind. -/
structure Waits (unicode : Unicode)
    (allow : Nat → List Note → ModerationWorld → ModerationWorld → Prop) (i : Nat)
    (t : Tx Row) (w : ModerationWorld) (t' : Tx Row) (w' : ModerationWorld) : Prop where
  rely : ModerationRely unicode allow i t w w'
  held : t.held ⊆ t'.held
  visible : ∀ db, t'.visible db = t.visible db

theorem Waits.trans {t'' : Tx Row} (h : Waits unicode allow i t w t' w')
    (h' : Waits unicode allow i t' w' t'' w'') : Waits unicode allow i t w t'' w'' :=
  ⟨h.rely.trans (h'.rely.mono h.held), List.Subset.trans h.held h'.held,
    fun db => (h'.visible db).trans (h.visible db)⟩

theorem wp_reference {k : Key} {Q : Option (Row k) → Tx Row → ModerationWorld → Prop}
    (h : ∀ found t' w', Waits unicode allow i t w t' w' → Q found t' w') :
    wp (moderationContract unicode allow) i Q (selectFor k .keyShare fun _ => true) t w := by
  refine wp_selectFor ?_ ?_ ?_
  · exact fun w' hr _ _ => h none t w' ⟨hr, List.Subset.refl _, fun _ => rfl⟩
  · exact fun w' hr _ _ => h none _ w' ⟨hr, List.subset_cons_self _ _, fun _ => rfl⟩
  · exact fun w' r hr _ _ _ => h (some r) _ w' ⟨hr, List.subset_cons_self _ _, fun _ => rfl⟩

theorem wp_referenceEvent {e : Option EventId} {Q : Bool → Tx Row → ModerationWorld → Prop}
    (h : ∀ found t' w', Waits unicode allow i t w t' w' → Q found t' w') :
    wp (moderationContract unicode allow) i Q (referenceEvent e) t w := by
  cases e with
  | none => exact h true t w ⟨.refl, List.Subset.refl _, fun _ => rfl⟩
  | some e =>
    unfold referenceEvent
    rw [wp_bind]
    exact wp_reference fun found t' w' hw => h found.isSome t' w' hw

/-- The transaction has prepared the step that its commit takes. -/
def Prepared (unicode : Unicode)
    (allow : Nat → List Note → ModerationWorld → ModerationWorld → Prop) (i : Nat) (n : Note)
    (t : Tx Row) (w : ModerationWorld) : Prop :=
  ∀ w', ModerationRely unicode allow i t w w' →
    Step unicode n (view w'.db) (view (t.visible w'.db))

theorem commit_prepared {n : Note} {a : α} (h : Prepared unicode allow i n t w) :
    wp (moderationContract unicode allow) i (fun _ t _ => t = {})
      (do commit [n]; return a) t w := by
  rw [wp_bind, wp_commit]
  intro w' hr hi _
  exact ⟨publishes hi (h w' hr), rfl⟩

def Clean (t : Tx Row) : Prop := ∀ db, t.visible db = db

/-- Reviews stay as they are, so that a verdict once seen is there at the commit. -/
theorem rely_judged {row : SuggestionRow} (h : ModerationRely unicode allow i t w w')
    (hw : Judged (view w.db) row) : Judged (view w'.db) row := by
  have stable : Stable (moderationContract unicode allow) i t fun v => Judged (view v.db) row := by
    intro v v' ho hv
    obtain ⟨j, notes, -, hc⟩ := ho.author
    obtain ⟨n, -, hstep⟩ := hc.step
    exact hv.kept fun e event he => hstep.event_kept he
  exact stable.rely h hw

section Submission
variable {row : SuggestionRow} (hrow : normalizeSubmittedAnswer unicode row.submittedAnswer ≠ "")
include hrow

theorem wp_insertSuggestion (clean : Clean t) (hjudged : Judged (view w.db) row)
    {Q : Option (SuggestionId × SuggestionRow) → Tx Row → ModerationWorld → Prop}
    (failed : ∀ t' w', Q none t' w')
    (inserted : ∀ s t' w', Prepared unicode allow i (.submitted s) t' w' → Q (some (s, row)) t' w') :
    wp (moderationContract unicode allow) i Q (insertSuggestion row) t w := by
  unfold insertSuggestion
  rw [wp_bind, wp_choose]
  intro s
  rw [wp_bind]
  refine wp_insertRow (fun _ _ _ _ _ => failed _ _) fun w₁ hr₁ _ hfree => ?_
  simp only [Bool.not_true, Bool.false_eq_true, if_false]
  rw [wp_bind]
  refine wp_reference fun word t₂ w₂ hw₂ => ?_
  cases word with
  | none => exact failed _ _
  | some word =>
    dsimp only
    rw [wp_bind]
    refine wp_referenceEvent fun found t₃ w₃ hw₃ => ?_
    cases found with
    | false => exact failed _ _
    | true =>
      refine inserted s t₃ w₃ fun w₄ hr₄ => ?_
      have waited := hw₂.trans hw₃
      have free : (view w₄.db).suggestion s = none := by
        rw [clean] at hfree
        exact (waited.rely.trans (hr₄.mono waited.held)).kept (by simp) hfree
      rw [waited.visible, Tx.visible_write, Tx.visible_hold, clean, view_set_suggestion]
      exact .submitted free hrow (rely_judged hr₄ (rely_judged waited.rely (rely_judged hr₁ hjudged)))

/-- A submission ends in a step that its commit takes, or without one. -/
theorem wp_upsertSuggestion (hjudged : Judged (view w.db) row)
    {Q : Option (SuggestionId × SuggestionRow × Note) → Tx Row → ModerationWorld → Prop}
    (failed : ∀ t' w', Q none t' w')
    (done : ∀ s r n t' w', Prepared unicode allow i n t' w' → Q (some (s, r, n)) t' w') :
    wp (moderationContract unicode allow) i Q (upsertSuggestion row) {} w := by
  have inserts : ∀ t w (next : Option (SuggestionId × SuggestionRow) → ModerationProg _),
      Clean t → Judged (view w.db) row → next none = pure none →
      (∀ s, next (some (s, row)) = pure (some (s, row, Note.submitted s))) →
      wp (moderationContract unicode allow) i Q (insertSuggestion row >>= next) t w := by
    intro t w next clean hjudged hnone hsome
    rw [wp_bind]
    refine wp_insertSuggestion hrow clean hjudged (fun t' w' => ?_) fun s t' w' h => ?_
    · rw [hnone]
      exact failed t' w'
    · rw [hsome]
      exact done s row _ t' w' h
  unfold upsertSuggestion
  rw [wp_bind, wp_lockRow]
  intro w₁ hr₁ _
  dsimp only
  rw [wp_bind, wp_select]
  intro w₂ hr₂ _
  have hjudged₂ := rely_judged hr₂ (rely_judged hr₁ hjudged)
  generalize conflicting row _ = found
  cases found with
  | none => exact inserts _ _ _ (fun _ => rfl) hjudged₂ rfl fun _ => rfl
  | some s =>
    dsimp only
    rw [wp_bind]
    unfold resubmitted
    refine @wp_updateRow Key _ Row Note _ i _ w₂ (.suggestion s) .noKeyUpdate row.conflicts
      row.resubmit _ (Or.inl rfl) ?_ ?_ ?_
    · exact fun w₃ hr₃ _ _ =>
        inserts _ _ _ (fun _ => rfl) (rely_judged hr₃ hjudged₂) rfl fun _ => rfl
    · exact fun w₃ hr₃ _ _ =>
        inserts _ _ _ (fun _ => rfl) (rely_judged hr₃ hjudged₂) rfl fun _ => rfl
    · intro w₃ r hr₃ _ hr hconf
      dsimp only
      rw [wp_bind]
      refine wp_referenceEvent fun found t₄ w₄ hw₄ => ?_
      cases found with
      | false => exact failed _ _
      | true =>
        refine done _ _ _ t₄ w₄ fun w₅ hr₅ => ?_
        have now : (view w₅.db).suggestion s = some r :=
          (hw₄.rely.trans (hr₅.mono hw₄.held)).kept (by simp) hr
        rw [hw₄.visible]
        have verdict := rely_judged hr₅ (rely_judged hw₄.rely (rely_judged hr₃ hjudged₂))
        simpa using Step.resubmitted now hconf hrow verdict

end Submission

/-- The review that the submission has found. -/
theorem judged_of_rejected {u : UserId} {x : WordId} {request : SuggestionRequest}
    {db : ModerationDb} {rejected : Option String}
    (h : rejectedAnswer u x request.reviewEventId db = some rejected) (normalized : String)
    (now : Scheduler.Instant) : Judged (view db) (newSuggestion u x request normalized now) := by
  intro e he
  cases he
  simp only [rejectedAnswer, Option.map_eq_some_iff, Option.filter_eq_some_iff, Bool.and_eq_true,
    decide_eq_true_eq] at h
  obtain ⟨event, ⟨hevent, ⟨⟨-, hcorrect⟩, -⟩⟩, -⟩ := h
  exact ⟨event, hevent, by rw [hcorrect]; rfl⟩

theorem submitAnswerSuggestion_keeps (u : UserId) (word : WordId) (request : SuggestionRequest) :
    Keeps unicode allow (submitAnswerSuggestion unicode u word request) := by
  intro i w
  unfold submitAnswerSuggestion
  generalize hnormalized : normalizeSubmittedAnswer unicode request.submittedAnswer = normalized
  dsimp only
  by_cases hblank : normalized = ""
  · rw [if_pos hblank]
    exact rfl
  rw [if_neg hblank, wp_bind, wp_select]
  intro w₁ _ _
  generalize assignedKind u word _ = kind
  cases kind with
  | none => exact rfl
  | some kind =>
    dsimp only
    split
    · exact rfl
    rw [wp_bind, wp_select]
    intro w₂ _ _
    cases hrejected : rejectedAnswer u word request.reviewEventId (({} : Tx Row).visible w₂.db) with
    | none => exact rfl
    | some rejected =>
      dsimp only
      split
      · exact rfl
      rw [wp_bind, wp_choose]
      intro now
      rw [wp_bind]
      refine wp_upsertSuggestion ?_ (judged_of_rejected hrejected normalized now) (fun _ _ => rfl)
        fun s r n t' w' h => commit_prepared h
      rw [newSuggestion, AnswerCandidates.normalizeSubmittedAnswer_trimSpace, hnormalized]
      exact hblank

section Listing
variable {filter : ListFilter} {db : ModerationDb}

theorem joined_shows {s : SuggestionId} {item : SuggestionContext}
    (h : joined lower filter db s = some (some item)) : Shows (view db) item := by
  simp only [joined, bind, Option.bind_eq_some_iff] at h
  obtain ⟨r, hr, word, -, e, he, event, -, hscan⟩ := h
  split_ifs at hscan
  simp only [Option.some.injEq, scanSuggestion, Option.map_eq_some_iff] at hscan
  obtain ⟨correct, -, rfl⟩ := hscan
  exact ⟨r, hr, rfl, by simp [SuggestionRow.content, SuggestionContext.content, he], rfl⟩

theorem mem_of_mapM {β : Type} {found : List (Option β)} {items : List β}
    (h : found.mapM id = some items) {item : β} (hitem : item ∈ items) : some item ∈ found := by
  induction found generalizing items with
  | nil =>
    simp only [List.mapM_nil, pure, Option.some.injEq] at h
    simp [← h] at hitem
  | cons o rest ih =>
    simp only [List.mapM_cons, id, bind, pure, Option.bind_eq_some_iff, Option.some.injEq] at h
    obtain ⟨first, rfl, others, hothers, rfl⟩ := h
    rcases List.mem_cons.1 hitem with rfl | hitem
    · exact List.mem_cons_self
    · exact List.mem_cons_of_mem _ (ih hothers hitem)

theorem listedItems_shows {items : List SuggestionContext}
    (h : listedItems lower filter db = some items) : ∀ item ∈ items, Shows (view db) item := by
  intro item hitem
  simp only [listedItems, Option.map_eq_some_iff] at h
  obtain ⟨found, hfound, rfl⟩ := h
  have hmem : item ∈ found := (List.perm_insertionSort _ _).mem_iff.1 (List.mem_of_mem_take hitem)
  obtain ⟨s, -, hs⟩ := List.mem_filterMap.1 (mem_of_mapM hfound hmem)
  exact joined_shows hs

theorem list_keeps : Keeps unicode allow (list lower filter) := by
  intro i w
  unfold list
  rw [wp_bind, wp_query]
  intro w₁ _ hi₁ _
  refine ⟨publishes hi₁ (.listed ?_), ?_⟩
  · cases h : listedItems lower filter (({} : Tx Row).visible w₁.db) with
    | none => simp
    | some items => exact listedItems_shows h
  · cases listedItems lower filter (({} : Tx Row).visible w₁.db) <;> exact rfl

end Listing

section Deciding
variable {actor : UserId} {s : SuggestionId} {request : DecisionRequest}

/-- Both rows of a decision, as they are and locked. -/
structure Locked (s : SuggestionId) (r : SuggestionRow) (word : WordRow) (t : Tx Row)
    (w : ModerationWorld) : Prop where
  clean : Clean t
  suggestion : w.db.lookup (Key.suggestion s) = some r
  word : w.db.lookup (Key.word r.wordId) = some word
  heldSuggestion : t.holds (Key.suggestion s)
  heldWord : t.holds (Key.word r.wordId)

theorem suggestionOf_eq_some {db : ModerationDb} {r : SuggestionRow} {word : WordRow} :
    suggestionOf s db = some (r, word) ↔
      db.lookup (Key.suggestion s) = some r ∧ db.lookup (Key.word r.wordId) = some word := by
  simp only [suggestionOf, bind, pure, Option.bind_eq_some_iff, Option.some.injEq, Prod.mk.injEq,
    suggestionAt, wordAt]
  constructor
  · rintro ⟨_, hr, _, hw, rfl, rfl⟩
    exact ⟨hr, hw⟩
  · exact fun h => ⟨r, h.1, word, h.2, rfl, rfl⟩

theorem wp_lockDecision {Q : Option (SuggestionRow × WordRow) → Tx Row → ModerationWorld → Prop}
    (missing : ∀ t' w', Q none t' w')
    (found : ∀ r word t' w', Locked s r word t' w' → Q (some (r, word)) t' w') :
    wp (moderationContract unicode allow) i Q (lockDecision s) {} w := by
  unfold lockDecision
  rw [wp_bind, wp_select]
  intro w₁ _ _
  generalize suggestionOf s _ = seen
  obtain _ | ⟨seen, _⟩ := seen
  · exact missing _ _
  simp only [wp_bind, wp_lockRow, wp_select]
  intro w₂ _ _ w₃ _ _ w₄ _ _
  cases hfound : (suggestionOf s _).filter _ with
  | none => exact missing _ _
  | some both =>
    obtain ⟨r, word⟩ := both
    rw [Option.filter_eq_some_iff, decide_eq_true_iff] at hfound
    obtain ⟨hboth, hsame⟩ := hfound
    obtain ⟨hr, hword⟩ := suggestionOf_eq_some.1 hboth
    have hsame : r.wordId = seen.wordId := hsame
    exact found r word _ w₄ ⟨fun _ => rfl, hr, hword, by simp, by simp [hsame]⟩

/-- The word as the decision leaves it, whether it had to be taught or not. -/
theorem wp_teach {r : SuggestionRow} {word : WordRow} (locked : Locked s r word t w)
    {Q : Unit → Tx Row → ModerationWorld → Prop}
    (h : ∀ t' w', ModerationRely unicode allow i t w w' → t.held ⊆ t'.held →
      (∀ w'', ModerationRely unicode allow i t' w' w'' → view (t'.visible w''.db) =
        { view w''.db with
          word := update (view w''.db).word r.wordId (some (taught unicode request r word)) }) →
      (t'.visible w'.db).lookup (Key.suggestion s) = some r → Q () t' w') :
    wp (moderationContract unicode allow) i Q (teach unicode request r word) t w := by
  unfold teach
  by_cases hteach : teaches unicode request r word = true
  · rw [if_pos hteach, wp_bind]
    have hrow : (t.visible w.db).lookup (Key.word r.wordId) = some word := by
      rw [locked.clean]
      exact locked.word
    refine @wp_updateRow_locked Key _ Row Note _ i t w (.word r.wordId) .noKeyUpdate
      (fun _ => true) (WordRow.learn r.submittedAnswer) word _ (Or.inl rfl) locked.heldWord hrow rfl
      fun w₁ hr₁ _ => ?_
    refine h _ w₁ hr₁ (fun _ hp => List.mem_cons_of_mem _ (List.mem_cons_of_mem _ hp)) ?_ ?_
    · intro w₂ _
      simp [locked.clean _, taught, hteach]
    · rw [Tx.visible_write, lookup_set_ne (by simp), Tx.visible_hold, locked.clean]
      exact hr₁.kept locked.heldSuggestion locked.suggestion
  · rw [if_neg hteach]
    refine h t w .refl (List.Subset.refl _) (fun w₂ hr₂ => ?_) ?_
    · have hw : (view w₂.db).word r.wordId = some word := hr₂.kept locked.heldWord locked.word
      rw [locked.clean, taught, if_neg hteach, ← hw, update_eq_self]
    · rw [locked.clean]
      exact locked.suggestion

theorem decide_keeps : Keeps unicode allow (decide unicode actor s request) := by
  intro i w
  unfold ModerationRepository.decide
  rw [wp_bind]
  refine wp_lockDecision (fun _ _ => rfl) fun r word t₁ w₁ locked => ?_
  dsimp only
  by_cases hopen : r.undecided request.expectedVersion = true
  · simp only [hopen, Bool.not_true, Bool.false_eq_true, if_false]
    rw [wp_bind]
    refine wp_teach locked fun t₂ w₂ hr₂ hsub hword hrow => ?_
    rw [wp_bind, wp_choose]
    intro now
    rw [wp_bind]
    refine @wp_updateRow_locked Key _ Row Note _ i t₂ w₂ (.suggestion s) .noKeyUpdate
      (fun r => r.undecided request.expectedVersion) (SuggestionRow.settle actor request now) r _
      (Or.inl rfl) (locked.heldSuggestion.mono hsub) hrow hopen fun w₃ hr₃ _ => ?_
    refine commit_prepared fun w₄ hr₄ => ?_
    have later := (hr₂.trans (hr₃.mono hsub)).trans
      ((rely_hold (rely_write hr₄)).mono hsub)
    have hsuggestion : (view w₄.db).suggestion s = some r :=
      later.kept locked.heldSuggestion locked.suggestion
    have hw : (view w₄.db).word r.wordId = some word := later.kept locked.heldWord locked.word
    have hview := hword w₄ (hr₃.trans (rely_hold (rely_write hr₄)))
    rw [Tx.visible_write, Tx.visible_hold, view_set_suggestion, hview]
    exact .decided hsuggestion hw hopen
  · simp only [hopen, Bool.not_false, if_true]
    exact rfl

end Deciding

theorem authorize_keeps : Keeps unicode allow authorize :=
  .bind .choose fun _ => .pure _

theorem authorized_keeps {p : ModerationProg Response} (hp : Keeps unicode allow p) :
    Keeps unicode allow (authorized p) := by
  unfold authorized
  refine .bind authorize_keeps fun allowed => ?_
  cases allowed with
  | false => exact .pure _
  | true => exact hp

theorem program_keeps (op : Op) : Keeps unicode allow (program unicode lower op) := by
  cases op with
  | recordReview event => exact answered_keeps (recordReview_keeps event)
  | submitAnswerSuggestion u w request =>
    simp only [program]
    generalize acceptSuggestion w request = accepted
    obtain why | ⟨w, request⟩ := accepted
    · exact .pure _
    · refine answered_keeps ?_
      exact @submitAnswerSuggestion_keeps unicode allow u w request
  | list q =>
    refine authorized_keeps ?_
    unfold listing
    cases normalizeListFilter q with
    | error why => exact .pure _
    | ok filter => exact answered_keeps list_keeps
  | decide actor s request =>
    refine authorized_keeps ?_
    unfold deciding
    split
    · exact .pure _
    · cases validateDecision request with
      | error why => exact .pure _
      | ok request => exact answered_keeps decide_keeps

theorem moderation_sound :
    Sound (moderationContract unicode allow) (program unicode lower) (fun _ _ _ _ _ => True) := by
  intro op i w _
  refine wp_mono ?_ (program_keeps op i w)
  intro _ _ _ _ _ _ _
  trivial

end ModerationRefinement
