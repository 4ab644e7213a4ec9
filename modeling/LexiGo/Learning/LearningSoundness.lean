import LexiGo.Learning.LearningRefinement
import LexiGo.Learning.LessonConstraints

/-! Creating lessons and deleting words, the requests that touch the lessons of a
user all at once; and with them every request of the learning services. -/
namespace LearningSoundness
open RowStore TransactionProgram Interleaving CommitContract RowStatements RunSoundness
open AnswerJudgement Scheduler LearningSchema LessonRepository LessonCreation CustomWords
open LessonReviewIdempotency LearningService LearningMachine LearningContract LearningRefinement
open Function GoText

variable {unicode : Unicode} {thorough : Prop}
variable {allow : Nat → List Note → LearningWorld → LearningWorld → Prop}
variable {i : Nat} {t t' : Tx Row} {w w' w'' : LearningWorld} {n : Note} {α β : Type}

/-- A transaction has discarded the lessons among `seen` that were still active, and
has written nothing else. -/
structure Discarded (unicode : Unicode) (thorough : Prop)
    (allow : Nat → List Note → LearningWorld → LearningWorld → Prop) (i : Nat) (u : UserId)
    (now : Instant) (seen : List Key) (t : Tx Row) (w : LearningWorld) : Prop where
  writes : ∀ w', LearningRely unicode thorough allow i t w w' →
    view (t.visible w'.db) = { view w'.db with lesson := (view w'.db).discardSeen seen u now }
  held : ∀ k ∈ seen, (k, Mode.noKeyUpdate) ∈ t.held

theorem Discarded.rely {u : UserId} {now : Instant} {seen : List Key}
    (h : Discarded unicode thorough allow i u now seen t w)
    (hr : LearningRely unicode thorough allow i t w w') :
    Discarded unicode thorough allow i u now seen t w' :=
  ⟨fun _ hr' => h.writes _ (hr.trans hr'), h.held⟩

theorem Discarded.hold {u : UserId} {now : Instant} {seen : List Key}
    (h : Discarded unicode thorough allow i u now seen t w) {k : Key} {m : Mode} :
    Discarded unicode thorough allow i u now seen (t.hold k m) w :=
  ⟨fun _ hr => h.writes _ (rely_hold hr), fun _ hk => List.mem_cons_of_mem _ (h.held _ hk)⟩

theorem wp_discardSeen {u : UserId} {now : Instant} {seen : List Key}
    {Q : List Key → Tx Row → LearningWorld → Prop} (nodup : seen.Nodup)
    (clean : ∀ db, t.visible db = db)
    (h : ∀ done t' w', LearningRely unicode thorough allow i t w w' → t.held ⊆ t'.held →
      Discarded unicode thorough allow i u now seen t' w' → Q done t' w') :
    wp (learningContract unicode thorough allow) i Q
      (updateRows .noKeyUpdate (lessons fun _ r => r.activeOf u) (onLesson (LessonRow.discard now))
        seen) t w := by
  refine wp_changeEach (Or.inl rfl) _ nodup fun done t' w' hc => ?_
  refine h done t' w' hc.rely hc.held ⟨fun w'' hr => ?_, hc.locked⟩
  have row : ∀ k, (t'.visible w''.db).lookup k = (w''.db.lookup k).map fun r =>
      if k ∈ seen ∧ lessons (fun _ r => r.activeOf u) k r = true
      then onLesson (LessonRow.discard now) k r else r := by
    intro k
    rw [hc.visible (hc.settled (Or.inl rfl) hr), bind_outcome_update, clean]
  have same : ∀ k, (∀ l, k ≠ .lesson l) → (t'.visible w''.db).lookup k = w''.db.lookup k := by
    intro k hk
    rw [row]
    cases hrow : w''.db.lookup k with
    | none => rfl
    | some r =>
      cases k with
      | lesson l => exact absurd rfl (hk l)
      | _ => simp [lessons]
  ext1 <;> funext x
  case lesson =>
    change (t'.visible w''.db).lookup (.lesson x) = _
    rw [row]
    rfl
  all_goals first | exact same _ (by simp) | (funext y; exact same _ (by simp))

section Deletion
variable {u : UserId} {k : WordId} {now : Instant} {seen : List Key}

/-- What a transaction sees now it saw before, if it comes from rows that were there. -/
theorem visible_back {key : Key} {p : Row key → Prop} {r : Row key}
    (h : (t.visible w'.db).lookup key = some r) (hp : p r)
    (back : w'.db.lookup key = some r → ∃ r₀, w.db.lookup key = some r₀ ∧ p r₀) :
    ∃ r₀, (t.visible w.db).lookup key = some r₀ ∧ p r₀ := by
  by_cases wrote : t.wrote key
  · exact ⟨r, (Tx.visible_wrote t wrote _ _).trans h, hp⟩
  · rw [Tx.visible_unwritten t wrote] at h
    obtain ⟨r₀, hr₀, hp₀⟩ := back h
    exact ⟨r₀, (Tx.visible_unwritten t wrote _).trans hr₀, hp₀⟩

/-- The rows that name a word: none is added while the word is locked for deletion. -/
def naming (k : WordId) : ∀ key, Row key → Bool
  | .item _ k', _ => k' = k
  | .userWord _ k', _ => k' = k
  | .event _, r => r.wordId = k
  | .idempotency _ _, r => r.requestHash.wordId = k
  | _, _ => false

theorem naming_back (h : LearningRely unicode thorough allow i t w w')
    (hk : (Key.word k, Mode.update) ∈ t.held) {key : Key} {r : Row key}
    (hr : w'.db.lookup key = some r) (hn : naming k key r = true) :
    ∃ r₀, w.db.lookup key = some r₀ ∧ naming k key r₀ = true := by
  have guard := rely_word h hk
  cases key with
  | item l k' =>
    obtain rfl : k' = k := by simpa [naming] using hn
    have hitem : ((view w'.db).item l k').isSome = true := Option.isSome_iff_exists.2 ⟨r, hr⟩
    obtain ⟨r₀, hr₀⟩ := Option.isSome_iff_exists.1 (guard.items rfl l hitem)
    exact ⟨r₀, hr₀, by simp [naming]⟩
  | userWord u k' =>
    obtain rfl : k' = k := by simpa [naming] using hn
    have hstate : ((view w'.db).userWord u k').isSome = true := Option.isSome_iff_exists.2 ⟨r, hr⟩
    obtain ⟨r₀, hr₀⟩ := Option.isSome_iff_exists.1 (guard.userWords rfl u hstate)
    exact ⟨r₀, hr₀, by simp [naming]⟩
  | event e => exact ⟨r, guard.events rfl e r hr (by simpa [naming] using hn), hn⟩
  | idempotency u key => exact ⟨r, guard.kept rfl u key r hr (by simpa [naming] using hn), hn⟩
  | _ => simp [naming] at hn

/-- The tables with a foreign key to the words, in the order in which they are cleared. -/
def cascadeTable : Key → Nat
  | .item _ _ => 1
  | .userWord _ _ => 2
  | .event _ => 3
  | .idempotency _ _ => 4
  | _ => 0

theorem items_naming (key : Key) (r : Row key) :
    items (fun _ k' _ => k' = k) key r = (cascadeTable key = 1 && naming k key r) := by
  cases key <;> simp [items, naming, cascadeTable]

theorem userWords_naming (key : Key) (r : Row key) :
    userWords (fun _ k' _ => k' = k) key r = (cascadeTable key = 2 && naming k key r) := by
  cases key <;> simp [userWords, naming, cascadeTable]

theorem events_naming (key : Key) (r : Row key) :
    events (fun _ r => r.wordId = k) key r = (cascadeTable key = 3 && naming k key r) := by
  cases key <;> simp [events, naming, cascadeTable]

theorem idempotencyRows_naming (key : Key) (r : Row key) :
    idempotencyRows (fun _ _ r => r.requestHash.wordId = k) key r =
      (cascadeTable key = 4 && naming k key r) := by
  cases key <;> simp [idempotencyRows, naming, cascadeTable]

theorem naming_cases (key : Key) (r : Row key) (h : naming k key r = true) :
    cascadeTable key = 1 ∨ cascadeTable key = 2 ∨ cascadeTable key = 3 ∨ cascadeTable key = 4 := by
  cases key <;> simp_all [naming, cascadeTable]

/-- Deleting the rows of one table that name a locked word. -/
theorem wp_deleteNaming {n : Nat} {p : ∀ key, Row key → Bool}
    {Q : List Key → Tx Row → LearningWorld → Prop} (hk : (Key.word k, Mode.update) ∈ t.held)
    (hp : ∀ key r, p key r = (cascadeTable key = n && naming k key r))
    (h : ∀ done t' w', LearningRely unicode thorough allow i t w w' → t.held ⊆ t'.held →
      (∀ w₂, LearningRely unicode thorough allow i t' w' w₂ → ∀ key, (t'.visible w₂.db).lookup key =
        ((t.visible w₂.db).lookup key).filter fun r => !(cascadeTable key = n && naming k key r)) →
      Q done t' w') :
    wp (learningContract unicode thorough allow) i Q (deleteWhere p) t w := by
  refine wp_deleteWhere (fun w₁ w₂ hr key r hrow hpr => ?_) fun done t' w' hr hsub hrows => ?_
  · rw [hp, Bool.and_eq_true] at hpr
    obtain ⟨r₀, hr₀, hn₀⟩ := @visible_back t w₁ w₂ key (fun r => naming k key r = true) r hrow
      hpr.2 fun hcommitted => naming_back hr hk hcommitted hpr.2
    exact ⟨r₀, hr₀, by rw [hp, hpr.1, hn₀]; rfl⟩
  · refine h done t' w' hr hsub fun w₂ hr₂ key => ?_
    rw [hrows w₂ hr₂ key]
    simp only [hp]

theorem wp_cascadeWord {Q : Unit → Tx Row → LearningWorld → Prop}
    (hk : (Key.word k, Mode.update) ∈ t.held)
    (h : ∀ t' w', LearningRely unicode thorough allow i t w w' → t.held ⊆ t'.held →
      (∀ w₂, LearningRely unicode thorough allow i t' w' w₂ → ∀ key, (t'.visible w₂.db).lookup key =
        ((t.visible w₂.db).lookup key).filter fun r => !naming k key r) → Q () t' w') :
    wp (learningContract unicode thorough allow) i Q (cascadeWord k) t w := by
  unfold cascadeWord
  rw [wp_bind]
  refine wp_deleteNaming hk items_naming fun _ t₁ w₁ hr₁ hsub₁ hrows₁ => ?_
  rw [wp_bind]
  refine wp_deleteNaming (hsub₁ hk) userWords_naming fun _ t₂ w₂ hr₂ hsub₂ hrows₂ => ?_
  rw [wp_bind]
  refine wp_deleteNaming (hsub₂ (hsub₁ hk)) events_naming fun _ t₃ w₃ hr₃ hsub₃ hrows₃ => ?_
  rw [wp_bind]
  refine wp_deleteNaming (hsub₃ (hsub₂ (hsub₁ hk))) idempotencyRows_naming
    fun _ t₄ w₄ hr₄ hsub₄ hrows₄ => ?_
  have hsub₁₂ : t.held ⊆ t₂.held := fun _ hp => hsub₂ (hsub₁ hp)
  have hsub₁₃ : t.held ⊆ t₃.held := fun _ hp => hsub₃ (hsub₁₂ hp)
  refine h t₄ w₄ (hr₁.trans ((hr₂.mono hsub₁).trans ((hr₃.mono hsub₁₂).trans (hr₄.mono hsub₁₃))))
    (fun _ hp => hsub₄ (hsub₁₃ hp)) fun w₅ hr₅ key => ?_
  have later₃ := hr₄.trans (hr₅.mono hsub₄)
  have later₂ := hr₃.trans (later₃.mono hsub₃)
  have later₁ := hr₂.trans (later₂.mono hsub₂)
  rw [hrows₄ _ hr₅, hrows₃ _ later₃, hrows₂ _ later₂, hrows₁ _ later₁, Option.filter_filter,
    Option.filter_filter, Option.filter_filter]
  congr 1
  funext r
  cases hn : naming k key r with
  | false => simp
  | true => rcases naming_cases key r hn with h | h | h | h <;> simp [h]

theorem wp_discardUsing {Q : List Key → Tx Row → LearningWorld → Prop}
    (clean : ∀ db, t.visible db = db)
    (h : ∀ seen t' w', LearningRely unicode thorough allow i t w w' →
      Discarded unicode thorough allow i u now seen t' w' → Q seen t' w') :
    wp (learningContract unicode thorough allow) i Q (discardUsing u k now) t w := by
  unfold discardUsing
  rw [wp_bind, wp_select]
  intro w₁ hr₁ _
  rw [wp_bind]
  refine wp_discardSeen (rowsWhere_nodup _ _) clean fun done t₂ w₂ hr₂ hsub₂ hdiscarded => ?_
  split
  · rw [wp_bind, wp_lockRow]
    intro w₃ hr₃ _
    exact h _ _ _ (hr₁.trans (hr₂.trans (hr₃.mono hsub₂))) (hdiscarded.rely hr₃).hold
  · exact h _ _ _ (hr₁.trans hr₂) hdiscarded

/-- What is left once the rows that name the word are gone as well. -/
theorem view_cascaded {before after : LearningDb} {s : Learning} (hbefore : view before = s)
    (h : ∀ key, after.lookup key =
      ((set (Key.word k) none before).lookup key).filter fun r => !naming k key r) :
    view after = { s.withoutWord k with lesson := s.lesson } := by
  subst hbefore
  have other : ∀ key, key ≠ .word k → after.lookup key =
      (before.lookup key).filter fun r => !naming k key r := by
    intro key hne
    rw [h, lookup_set_ne hne]
  have keeps : ∀ {key : Key} (o : Option (Row key)), (∀ r, naming k key r = false) →
      (o.filter fun r => !naming k key r) = o := by
    intro key o hn
    cases o <;> simp [hn]
  ext1 <;> funext x
  case word =>
    by_cases hx : x = k
    · subst hx
      change after.lookup (.word x) = _
      simp [h, Learning.withoutWord]
    · change after.lookup (.word x) = _
      rw [other _ (by simpa using hx), keeps _ fun _ => rfl]
      simp [Learning.withoutWord, hx, view]
  case userWord =>
    funext y
    change after.lookup (.userWord x y) = _
    rw [other _ (by simp)]
    by_cases hy : y = k
    · simp [naming, Learning.withoutWord, hy]
    · rw [keeps _ fun _ => by simp [naming, hy]]
      simp [Learning.withoutWord, hy, view]
  case lesson =>
    change after.lookup (.lesson x) = _
    rw [other _ (by simp), keeps _ fun _ => rfl]
    rfl
  case item =>
    funext y
    change after.lookup (.item x y) = _
    rw [other _ (by simp)]
    by_cases hy : y = k
    · simp [naming, Learning.withoutWord, hy]
    · rw [keeps _ fun _ => by simp [naming, hy]]
      simp [Learning.withoutWord, hy, view]
  case event =>
    change after.lookup (.event x) = _
    rw [other _ (by simp)]
    simp [naming, Learning.withoutWord, view]
  case kept =>
    funext y
    change after.lookup (.idempotency x y) = _
    rw [other _ (by simp)]
    simp [naming, Learning.withoutWord, view]

theorem deleteCustom_keeps (kind : WordKind) (missing : LessonError) (u : UserId) (k : WordId)
    (sees : thorough → ∀ i seen w w', allow i [.wordDeleted u k seen] w w' →
      SeesLessons (.wordDeleted u k seen) (view w.db)) :
    Keeps unicode thorough allow (deleteCustom kind missing u k) := by
  intro i w
  unfold deleteCustom
  rw [wp_bind, wp_choose]
  intro now
  rw [wp_bind]
  refine wp_discardUsing (fun _ => rfl) fun seen t₁ w₁ _ hdiscarded => ?_
  rw [wp_bind]
  refine wp_lockWord (fun _ _ => rfl) fun w₂ row hr₂ hrow hcustom => ?_
  dsimp only
  rw [wp_bind, wp_writeRow]
  intro w₃ hr₃ _ _
  rw [wp_bind]
  refine wp_cascadeWord (by simp) fun t₄ w₄ hr₄ hsub₄ hrows₄ => ?_
  rw [wp_bind, wp_commit]
  intro w₅ hr₅ hi₅ hallow
  have later : LearningRely unicode thorough allow i (t₁.hold (.word k) .update) w₂ w₅ :=
    hr₃.trans (rely_write (hr₄.trans (hr₅.mono hsub₄)))
  have before : LearningRely unicode thorough allow i t₁ w₁ w₅ := hr₂.trans (rely_hold later)
  have row₂ : (view w₂.db).word k = some row :=
    (congrArg (fun s => s.word k) (hdiscarded.writes w₂ hr₂)).symm.trans hrow
  have row₅ : (view w₅.db).word k = some row :=
    (later.row (m := .update) List.mem_cons_self (by simp)).trans row₂
  have owner : row.owner = some u := by
    simp only [isCustom, Bool.and_eq_true, decide_eq_true_eq] at hcustom
    exact hcustom.1.1
  have step : Step unicode thorough (.wordDeleted u k seen) (view w₅.db) (view (t₄.visible w₅.db)) := by
    have heq : view (t₄.visible w₅.db) = { (view w₅.db).withoutWord k with
        lesson := (view w₅.db).discardSeen seen u now } :=
      view_cascaded (hdiscarded.writes w₅ before) (hrows₄ w₅ hr₅)
    rw [heq]
    exact .wordDeleted row₅ owner
  have licensed : Licensed t₄.held (.wordDeleted u k seen) :=
    ⟨hsub₄ (by simp), fun key hkey =>
      hsub₄ (List.mem_cons_of_mem _ (List.mem_cons_of_mem _ (hdiscarded.held key hkey)))⟩
  exact ⟨publishes hi₅ step licensed fun ht => sees ht _ _ _ _ hallow, rfl⟩

end Deletion

section Creation
variable {u : UserId} {l : LessonId} {now : Instant} {seen : List Key}
variable {request : LessonCreateRequest} {selected : Selection}

/-- A user has a word for as long as the word is there. -/
def Assigned (u : UserId) (k : WordId) (s : Learning) : Prop :=
  (s.word k).isSome = true → (s.userWord u k).isSome = true

theorem Assigned.step {k : WordId} {s s' : Learning} (h : Assigned u k s)
    (hs : Step unicode thorough n s s') : Assigned u k s' := by
  intro hword
  obtain ⟨r, hr⟩ := Option.isSome_iff_exists.1 hword
  exact hs.userWord_stays hword (h (Option.isSome_iff_exists.2 ⟨r, hs.word_back hr⟩))

/-- What a selection of words may be relied on for. -/
structure Chosen (u : UserId) (selected : Selection) (w : LearningWorld) : Prop where
  some : selected ≠ []
  nodup : (selected.map Prod.fst).Nodup
  assigned : ∀ k ∈ selected.map Prod.fst, Assigned u k (view w.db)

theorem Chosen.rely (h : Chosen u selected w)
    (hr : LearningRely unicode thorough allow i t w w') : Chosen u selected w' :=
  ⟨h.some, h.nodup, fun k hk => rely_view hr (fun _ _ _ hs ha => ha.step hs) (h.assigned k hk)⟩

/-- The lesson `l` has been put in, and items for it as far as `placing` says. -/
structure Draft (unicode : Unicode) (thorough : Prop)
    (allow : Nat → List Note → LearningWorld → LearningWorld → Prop) (i : Nat) (u : UserId)
    (l : LessonId) (request : LessonCreateRequest) (now : Instant)
    (placing : WordId → Option ItemRow) (t : Tx Row) (w : LearningWorld) : Prop where
  writes : ∀ w', LearningRely unicode thorough allow i t w w' →
    view (t.visible w'.db) = { view w'.db with
      lesson := update ((view w'.db).discardActive u now) l (some (newLesson u request now))
      item := fun l' k => if l' = l then placing k else (view w'.db).item l' k }
  free : (view w.db).lesson l = none
  source : request.source ∈ storableSources
  heldLesson : (Key.lesson l, Mode.update) ∈ t.held
  heldActive : (Key.activeLesson u, Mode.update) ∈ t.held

variable {placing : WordId → Option ItemRow}

theorem Draft.rely (h : Draft unicode thorough allow i u l request now placing t w)
    (hr : LearningRely unicode thorough allow i t w w') :
    Draft unicode thorough allow i u l request now placing t w' :=
  { h with
    writes := fun _ hr' => h.writes _ (hr.trans hr')
    free := (hr.row h.heldLesson (by simp)).trans h.free }

theorem Draft.hold (h : Draft unicode thorough allow i u l request now placing t w) {k : Key}
    {m : Mode} : Draft unicode thorough allow i u l request now placing (t.hold k m) w :=
  { h with
    writes := fun _ hr => h.writes _ (rely_hold hr)
    heldLesson := List.mem_cons_of_mem _ h.heldLesson
    heldActive := List.mem_cons_of_mem _ h.heldActive }

/-- One more item. -/
theorem Draft.item (h : Draft unicode thorough allow i u l request now placing t w) {k : WordId}
    {row : ItemRow} : Draft unicode thorough allow i u l request now
      (update placing k (some row)) ((t.hold (.item l k) .update).write (.item l k) .update (some row))
      w where
  writes := by
    intro w' hr
    have hw := h.writes w' (rely_hold (rely_write hr))
    rw [Tx.visible_write, view_set_item, Tx.visible_hold, hw]
    ext1 <;> try rfl
    funext l' k'
    by_cases hl : l' = l
    · subst hl
      by_cases hk : k' = k
      · subst hk
        simp
      · simp [updateAt, hk]
    · simp [updateAt, hl]
  free := h.free
  source := h.source
  heldLesson := List.mem_cons_of_mem _ (List.mem_cons_of_mem _ h.heldLesson)
  heldActive := List.mem_cons_of_mem _ (List.mem_cons_of_mem _ h.heldActive)

theorem wp_insertItems {position : Nat} {Q : Bool → Tx Row → LearningWorld → Prop}
    (h : Draft unicode thorough allow i u l request now placing t w) (failed : ∀ t' w', Q false t' w')
    (done : ∀ t' w', LearningRely unicode thorough allow i t w w' → t.held ⊆ t'.held →
      Draft unicode thorough allow i u l request now
        (fun k => (placing k).or (placed position selected k)) t' w' → Q true t' w') :
    wp (learningContract unicode thorough allow) i Q (insertItems l position selected) t w := by
  induction selected generalizing position placing t w with
  | nil =>
    refine done t w .refl (fun _ hp => hp) ?_
    simpa [placed] using h
  | cons p rest ih =>
    obtain ⟨k, reason⟩ := p
    unfold insertItems
    rw [wp_bind]
    refine wp_insertRow (fun w₁ _ _ _ _ => failed _ _) fun w₁ hr₁ _ hfree => ?_
    have unplaced : placing k = none := by
      have hitem : (view (t.visible w₁.db)).item l k = none := hfree
      simpa [h.writes w₁ hr₁] using hitem
    have hdraft : Draft unicode thorough allow i u l request now
        (update placing k (some { position := position, selectionReason := some reason })) _ w₁ :=
      (h.rely hr₁).item
    refine ih hdraft fun t' w' hr hsub hdone => done t' w' (hr₁.trans (rely_hold (rely_write hr)))
      (fun _ hp => hsub (List.mem_cons_of_mem _ (List.mem_cons_of_mem _ hp))) ?_
    have heq : ∀ k', (update placing k
        (some { position := position, selectionReason := some reason }) k').or
          (placed (position + 1) rest k') =
        (placing k').or (placed position ((k, reason) :: rest) k') := by
      intro k'
      by_cases hk : k' = k
      · subst hk
        simp [placed, unplaced]
      · simp [placed, hk]
    simpa only [heq] using hdone

/-- A statement that finds no active lesson of the user left has been preceded by one
that saw them all. -/
theorem discardSeen_all (hd : Discarded unicode thorough allow i u now seen t w)
    (empty : (rowsWhere (lessons fun _ r => r.activeOf u) (t.visible w.db)).isEmpty = true)
    (quiet : NoNewActive u (view w.db) (view w'.db)) :
    (view w'.db).discardSeen seen u now = (view w'.db).discardActive u now := by
  funext l
  unfold Learning.discardSeen Learning.discardActive
  cases hrow : (view w'.db).lesson l with
  | none => rfl
  | some r =>
    by_cases hactive : r.activeOf u = true
    · obtain ⟨r₀, hr₀, hactive₀⟩ := quiet l r hrow hactive
      have seen_l : Key.lesson l ∈ seen := by
        by_contra hn
        have hvisible : (view (t.visible w.db)).lesson l = some r₀ := by
          rw [hd.writes w .refl]
          simp [Learning.discardSeen, hr₀, hn]
        have hmem : Key.lesson l ∈ rowsWhere (lessons fun _ r => r.activeOf u) (t.visible w.db) :=
          mem_rowsWhere.2 ⟨r₀, hvisible, hactive₀⟩
        rw [List.isEmpty_iff.1 empty] at hmem
        cases hmem
      simp [seen_l, hactive]
    · simp [hactive]

theorem wp_insertLesson {Q : Bool → Tx Row → LearningWorld → Prop}
    (hd : Discarded unicode thorough allow i u now seen t w) (failed : ∀ t' w', Q false t' w')
    (done : ∀ t' w', LearningRely unicode thorough allow i t w w' → t.held ⊆ t'.held →
      Draft unicode thorough allow i u l request now (fun _ => none) t' w' → Q true t' w') :
    wp (learningContract unicode thorough allow) i Q (insertLesson l (newLesson u request now)) t w := by
  have howner : (newLesson u request now).userId = u := rfl
  unfold insertLesson
  rw [howner]
  split
  · exact failed _ _
  rename_i hstorable
  rw [wp_bind, wp_lockRow]
  intro w₁ hr₁ _
  rw [wp_bind, wp_select]
  intro w₂ hr₂ _
  split
  · rename_i hempty
    have hd₂ := (hd.rely hr₁).hold.rely hr₂
    refine wp_insertRow (fun w₃ _ _ _ _ => failed _ _) fun w₃ hr₃ hi₃ hfree => ?_
    refine done _ _ (hr₁.trans (rely_hold (hr₂.trans hr₃)))
      (fun _ hp => List.mem_cons_of_mem _ (List.mem_cons_of_mem _ (List.mem_cons_of_mem _ hp))) ?_
    have free : (view w₃.db).lesson l = none := by
      have hlesson : (view ((t.hold (.activeLesson u) .update).visible w₃.db)).lesson l = none := hfree
      rw [hd₂.writes w₃ hr₃] at hlesson
      simpa [Learning.discardSeen] using hlesson
    have source : request.source ∈ storableSources := by
      by_contra hsource
      exact hstorable (by simp [newLesson, hsource])
    refine ⟨fun w' hr => ?_, free, source, by simp, by simp⟩
    have later := hr₃.trans (rely_hold (rely_write hr))
    have hall : (view w'.db).discardSeen seen u now = (view w'.db).discardActive u now :=
      discardSeen_all hd₂ hempty (rely_active later (by simp))
    have unlinked : ∀ k, (view w'.db).item l k = none := by
      intro k
      have free' : (view w'.db).lesson l = none :=
        (hr.row (m := .update) List.mem_cons_self (by simp)).trans free
      by_contra hitem
      have := (hr.inv hi₃ : Linked (view w'.db)) l k (Option.isSome_iff_ne_none.2 hitem)
      rw [free'] at this
      cases this
    rw [Tx.visible_write, view_set_lesson, Tx.visible_hold, hd₂.writes w' later, hall]
    ext1 <;> try rfl
    funext l' k
    by_cases hl : l' = l
    · subst hl
      simp [unlinked]
    · simp [hl]
  · exact failed _ _

theorem wp_referenceWords {words : List WordId} {Q : Bool → Tx Row → LearningWorld → Prop}
    (h : Draft unicode thorough allow i u l request now placing t w) (failed : ∀ t' w', Q false t' w')
    (done : ∀ t' w', LearningRely unicode thorough allow i t w w' → t.held ⊆ t'.held →
      Draft unicode thorough allow i u l request now placing t' w' →
      (∀ k ∈ words, (Key.word k, Mode.keyShare) ∈ t'.held ∧ ((view w'.db).word k).isSome = true) →
      Q true t' w') :
    wp (learningContract unicode thorough allow) i Q (referenceWords words) t w := by
  induction words generalizing t w with
  | nil => exact done t w .refl (fun _ hp => hp) h (by simp)
  | cons k rest ih =>
    unfold referenceWords
    rw [wp_bind]
    refine wp_referenceWord (fun _ _ => failed _ _) fun w₁ hr₁ hword => ?_
    refine ih (h.rely hr₁).hold fun t' w' hr hsub hdraft hrest => done t' w' (hr₁.trans (rely_hold hr))
      (fun _ hp => hsub (List.mem_cons_of_mem _ hp)) hdraft ?_
    have held : (Key.word k, Mode.keyShare) ∈ t'.held := hsub List.mem_cons_self
    have word₁ : ((view w₁.db).word k).isSome = true := by
      have heq : (view (t.visible w₁.db)).word k = (view w₁.db).word k :=
        congrArg (fun s => s.word k) (h.writes w₁ hr₁)
      rw [← heq]
      exact hword
    intro k' hk'
    rcases List.mem_cons.1 hk' with rfl | hk'
    · exact ⟨held, (rely_word hr (m := .keyShare) List.mem_cons_self).stays word₁⟩
    · exact hrest k' hk'

theorem wp_composeLessonCandidates {limit : Nat} {candidates : List WordId}
    {Q : Selection → Tx Row → LearningWorld → Prop} (nodup : candidates.Nodup)
    (h : ∀ selected, (selected.map Prod.fst).Nodup → selected.map Prod.fst ⊆ candidates →
      Q selected t w) :
    wp (learningContract unicode thorough allow) i Q
      (LessonCreation.composeLessonCandidates limit candidates) t w := by
  induction limit generalizing candidates Q with
  | zero => exact h [] (by simp) (by simp)
  | succ limit ih =>
    unfold LessonCreation.composeLessonCandidates
    rw [wp_bind, wp_choose]
    intro n
    rw [wp_bind, wp_choose]
    intro why
    split
    · rename_i k reason hk _
      rw [wp_bind]
      refine ih (nodup.erase k) fun rest hnodup hsub => h ((k, reason) :: rest) ?_ ?_
      · exact List.nodup_cons.2 ⟨fun hmem => (nodup.mem_erase_iff.1 (hsub hmem)).1 rfl, hnodup⟩
      · exact List.cons_subset.2 ⟨List.mem_of_getElem? hk, fun _ hx => List.erase_subset (hsub hx)⟩
    · exact h [] (by simp) (by simp)

/-- As many rows as words means that no word is named twice and that all are there. -/
theorem all_of_length {ids : List WordId} {p : WordId → Bool}
    (h : (ids.dedup.filter p).length = ids.length) : ids.Nodup ∧ ∀ k ∈ ids, p k = true := by
  have hfilter := List.length_filter_le p ids.dedup
  have hdedup := (List.dedup_sublist ids).length_le
  have heq : ids.dedup = ids := (List.dedup_sublist ids).eq_of_length (by omega)
  rw [heq] at h
  exact ⟨heq ▸ List.nodup_dedup ids, List.length_filter_eq_length_iff.1 h⟩

theorem wp_lessonWords {Q : Reply Selection → Tx Row → LearningWorld → Prop}
    (hids : request.wordIds ≠ some []) (clean : ∀ db, t.visible db = db)
    (failed : ∀ e w', Q (.error e) t w')
    (done : ∀ selected w', LearningRely unicode thorough allow i t w w' → Chosen u selected w' →
      Q (.ok selected) t w') :
    wp (learningContract unicode thorough allow) i Q (lessonWords u request) t w := by
  unfold lessonWords
  cases hwords : request.wordIds with
  | none =>
    dsimp only
    rw [wp_bind, wp_select]
    intro w₁ hr₁ _
    rw [wp_bind, clean]
    refine wp_composeLessonCandidates (LessonConstraints.candidateWords_nodup u w₁.db)
      fun selected hnodup hsub => ?_
    split
    · exact failed _ _
    · rename_i hsome
      refine done selected w₁ hr₁ ⟨by simpa using hsome, hnodup, fun k hk _ => ?_⟩
      exact (LessonConstraints.mem_candidateWords.1 (hsub hk)).1
  | some ids =>
    dsimp only
    rw [wp_bind, wp_select]
    intro w₁ hr₁ _
    rw [clean]
    split
    · exact failed _ _
    · rename_i hlength
      obtain ⟨hnodup, hall⟩ := all_of_length (not_not.1 hlength)
      have hmap : (ids.map fun k => (k, SelectionReason.manual)).map Prod.fst = ids := by
        rw [List.map_map]
        exact List.map_id ids
      refine done _ w₁ hr₁ ⟨fun hnil => hids ?_, hmap.symm ▸ hnodup, fun k hk _ => ?_⟩
      · rw [hwords, List.map_eq_nil_iff.1 hnil]
      · rw [hmap] at hk
        exact hall k hk

theorem attachLessonSelectionReasons_keeps (lesson : LessonSession) :
    Keeps unicode thorough allow (attachLessonSelectionReasons lesson) := by
  refine .bind (query_keeps _) fun kind => ?_
  cases kind with
  | none => exact .pure _
  | some kind => exact .bind (query_keeps _) fun rows => .pure _

theorem lessonByIdWithReasons_keeps (u : UserId) (l : LessonId) :
    Keeps unicode thorough allow (lessonByIdWithReasons u l) :=
  andThen_keeps (query_keeps _) attachLessonSelectionReasons_keeps

theorem activeLesson_keeps (u : UserId) : Keeps unicode thorough allow (activeLesson u) := by
  refine .bind (query_keeps _) fun found => ?_
  cases found with
  | none => exact .pure _
  | some l => exact lessonByIdWithReasons_keeps u l

theorem wp_matchingRecentActiveLesson {Q : Option LessonId → Tx Row → LearningWorld → Prop}
    (h : ∀ found t' w', (∀ db, t'.visible db = t.visible db) →
      LearningRely unicode thorough allow i t w w' → Q found t' w') :
    wp (learningContract unicode thorough allow) i Q (matchingRecentActiveLesson u request now) t w := by
  unfold matchingRecentActiveLesson
  rw [wp_bind, wp_select]
  intro w₁ hr₁ _
  split
  · exact h _ _ _ (fun _ => rfl) hr₁
  · rw [wp_bind, wp_lockRow]
    intro w₂ hr₂ _
    rw [wp_bind, wp_select]
    intro w₃ hr₃ _
    split <;> exact h _ _ _ (fun _ => rfl) (hr₁.trans (hr₂.trans (rely_hold hr₃)))

theorem wp_discardActive {Q : Unit → Tx Row → LearningWorld → Prop}
    (clean : ∀ db, t.visible db = db)
    (h : ∀ seen t' w', LearningRely unicode thorough allow i t w w' →
      Discarded unicode thorough allow i u now seen t' w' → Q () t' w') :
    wp (learningContract unicode thorough allow) i Q (LessonCreation.discardActive u now) t w := by
  unfold LessonCreation.discardActive
  rw [wp_bind, wp_select]
  intro w₁ hr₁ _
  rw [wp_bind]
  refine wp_discardSeen (rowsWhere_nodup _ _) clean fun done t₂ w₂ hr₂ _ hdiscarded => ?_
  exact h _ t₂ w₂ (hr₁.trans hr₂) hdiscarded

/-- A draft with all its items and the references of those. -/
theorem Draft.publishes (h : Draft unicode thorough allow i u l request now
      (placed 0 selected) t w) (hchosen : Chosen u selected w) (inv : Linked (view w.db))
    (words : ∀ k ∈ selected.map Prod.fst, (Key.word k, Mode.keyShare) ∈ t.held ∧
      ((view w.db).word k).isSome = true) :
    Publishes (learningContract unicode thorough allow) i t
      [.lessonCreated u l (selected.map Prod.fst)] w := by
  refine LearningContract.publishes inv ?_ ⟨h.heldActive, h.heldLesson, fun k hk => (words k hk).1⟩
    fun _ => not_wordDeleted_sees (by simp)
  rw [h.writes w .refl]
  exact .lessonCreated h.free hchosen.some hchosen.nodup (fun k hk =>
    ⟨(words k hk).2, hchosen.assigned k hk (words k hk).2⟩) h.source

theorem createProgressiveLesson_keeps (u : UserId) (request : LessonCreateRequest)
    (hids : request.wordIds ≠ some []) :
    Keeps unicode thorough allow (createProgressiveLesson u request) := by
  intro i w
  unfold createProgressiveLesson
  rw [wp_bind, wp_choose]
  intro dbNow
  rw [wp_bind, wp_lockRow]
  intro w₁ _ _
  rw [wp_bind]
  refine wp_matchingRecentActiveLesson fun found t₂ w₂ clean₂ _ => ?_
  cases found with
  | some l =>
    dsimp only
    rw [wp_bind, wp_commit]
    intro w₃ _ hi₃ _
    refine ⟨publishes hi₃ ?_ trivial (fun _ => not_wordDeleted_sees (by simp)), ?_⟩
    · rw [clean₂]
      exact .lessonResumed
    · exact lessonByIdWithReasons_keeps u l i _
  | none =>
    dsimp only
    rw [wp_bind]
    refine wp_lessonWords hids (fun db => clean₂ db) (fun e _ => ?_) fun selected w₃ _ hchosen => ?_
    · exact rfl
    dsimp only
    rw [wp_bind]
    refine wp_discardActive (fun db => clean₂ db) fun seen t₄ w₄ hr₄ hdiscarded => ?_
    rw [wp_bind, wp_choose]
    intro l
    rw [wp_bind]
    refine wp_insertLesson hdiscarded (fun _ _ => ?_) fun t₅ w₅ hr₅ hsub₅ hdraft₅ => ?_
    · exact rfl
    rw [if_neg (by simp), wp_bind]
    refine wp_insertItems hdraft₅ (fun _ _ => ?_) fun t₆ w₆ hr₆ hsub₆ hdraft₆ => ?_
    · exact rfl
    rw [if_neg (by simp), wp_bind]
    refine wp_referenceWords hdraft₆ (fun _ _ => ?_) fun t₇ w₇ hr₇ hsub₇ hdraft₇ hwords₇ => ?_
    · exact rfl
    rw [if_neg (by simp), wp_bind, wp_commit]
    intro w₈ hr₈ hi₈ _
    have chosen₈ : Chosen u selected w₈ :=
      ((((hchosen.rely hr₄).rely hr₅).rely hr₆).rely hr₇).rely hr₈
    have placed₈ : Draft unicode thorough allow i u l request dbNow (placed 0 selected) t₇ w₈ := by
      simpa using hdraft₇.rely hr₈
    refine ⟨placed₈.publishes chosen₈ hi₈ fun k hk => ?_, ?_⟩
    · obtain ⟨held, word₇⟩ := hwords₇ k hk
      exact ⟨held, (rely_word hr₈ held).stays word₇⟩
    · exact lessonByIdWithReasons_keeps u l i _

theorem createLesson_keeps (u : UserId) (request : LessonCreateRequest) :
    Keeps unicode thorough allow (createLesson u request) := by
  unfold createLesson
  split
  · exact .pure _
  · rename_i hvalid
    refine createProgressiveLesson_keeps u request fun hids => hvalid ?_
    simp [hids]

end Creation

theorem answered_keeps {f : α → Answer} {p : LearningProg (Reply α)}
    (h : Keeps unicode thorough allow p) : Keeps unicode thorough allow (answered f p) := by
  refine .bind h fun r => ?_
  cases r <;> exact .pure _

/-- Every request keeps the contract, in the runs whose deletions see what they are
asked to see. -/
theorem program_keeps (op : Op)
    (sees : thorough → ∀ i u k seen w w', allow i [.wordDeleted u k seen] w w' →
      SeesLessons (.wordDeleted u k seen) (view w.db)) :
    Keeps unicode thorough allow (program unicode op) := by
  cases op with
  | createLesson u request => exact answered_keeps (createLesson_keeps u request)
  | activeLesson u => exact answered_keeps (activeLesson_keeps u)
  | discardLesson u l version => exact answered_keeps (discardLesson_keeps u l version)
  | reviewLessonWord call =>
    simp only [program]
    cases acceptLessonReview call with
    | error why => exact .pure _
    | ok call => exact answered_keeps (reviewLessonWordIdempotent_keeps call)
  | reviewWord u k request =>
    simp only [program]
    cases acceptReview request with
    | error why => exact .pure _
    | ok request => exact answered_keeps (reviewWord_keeps u k request)
  | deleteCustomWord u k =>
    exact answered_keeps (deleteCustom_keeps _ _ u k fun ht i => sees ht i u k)
  | deleteCustomPhrase u k =>
    exact answered_keeps (deleteCustom_keeps _ _ u k fun ht i => sees ht i u k)

end LearningSoundness
