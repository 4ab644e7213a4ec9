import LexiGo.Learning.LearningContract

/-! Every commit of the learning services is one step of the learning machine,
whatever the other requests do between the statements that lead to it. -/
namespace LearningRefinement
open RowStore TransactionProgram Interleaving CommitContract RowStatements RunSoundness
open AnswerJudgement Scheduler LearningSchema LessonRepository LessonCreation CustomWords
open LessonReviewIdempotency LearningMachine LearningContract Function GoText

variable {unicode : Unicode} {thorough : Prop}
variable {allow : Nat → List Note → LearningWorld → LearningWorld → Prop}
variable {i : Nat} {t t' : Tx Row} {w w' w'' : LearningWorld} {n : Note} {α β : Type}

section Statements

theorem wp_lockLesson {l : LessonId} {m : Mode} {p : LessonRow → Bool}
    {Q : Option LessonRow → Tx Row → LearningWorld → Prop} (missing : ∀ t' w', Q none t' w')
    (found : ∀ w' (r : LessonRow), LearningRely unicode thorough allow i t w w' →
      (t.visible w'.db).lookup (Key.lesson l) = some r → p r = true →
      Q (some r) (t.hold (Key.lesson l) m) w') :
    wp (learningContract unicode thorough allow) i Q (lockLesson l m p) t w := by
  refine @wp_selectFor Key _ Row Note _ i t w (.lesson l) m p Q ?_ ?_ ?_
  · exact fun w' _ _ _ => missing _ w'
  · exact fun w' _ _ _ => missing _ w'
  · exact fun w' r hr _ hrow hp => found w' r hr hrow hp

theorem wp_lockItem {l : LessonId} {k : WordId}
    {Q : Option ItemRow → Tx Row → LearningWorld → Prop} (missing : ∀ t' w', Q none t' w')
    (found : ∀ w' (r : ItemRow), LearningRely unicode thorough allow i t w w' →
      (t.visible w'.db).lookup (Key.item l k) = some r →
      Q (some r) (t.hold (Key.item l k) .update) w') :
    wp (learningContract unicode thorough allow) i Q (lockItem l k) t w := by
  refine @wp_selectFor Key _ Row Note _ i t w (.item l k) .update (fun _ => true) Q ?_ ?_ ?_
  · exact fun w' _ _ _ => missing _ w'
  · exact fun w' _ _ _ => missing _ w'
  · exact fun w' r hr _ hrow _ => found w' r hr hrow

theorem wp_lockUserWord {u : UserId} {k : WordId}
    {Q : Option UserWordRow → Tx Row → LearningWorld → Prop} (missing : ∀ t' w', Q none t' w')
    (found : ∀ w' (r : UserWordRow), LearningRely unicode thorough allow i t w w' →
      (t.visible w'.db).lookup (Key.userWord u k) = some r →
      Q (some r) (t.hold (Key.userWord u k) .update) w') :
    wp (learningContract unicode thorough allow) i Q (lockUserWord u k) t w := by
  refine @wp_selectFor Key _ Row Note _ i t w (.userWord u k) .update (fun _ => true) Q ?_ ?_ ?_
  · exact fun w' _ _ _ => missing _ w'
  · exact fun w' _ _ _ => missing _ w'
  · exact fun w' r hr _ hrow _ => found w' r hr hrow

theorem wp_lockWord {k : WordId} {p : WordRow → Bool}
    {Q : Option WordRow → Tx Row → LearningWorld → Prop} (missing : ∀ t' w', Q none t' w')
    (found : ∀ w' (r : WordRow), LearningRely unicode thorough allow i t w w' →
      (t.visible w'.db).lookup (Key.word k) = some r → p r = true →
      Q (some r) (t.hold (Key.word k) .update) w') :
    wp (learningContract unicode thorough allow) i Q (lockWord k p) t w := by
  refine @wp_selectFor Key _ Row Note _ i t w (.word k) .update p Q ?_ ?_ ?_
  · exact fun w' _ _ _ => missing _ w'
  · exact fun w' _ _ _ => missing _ w'
  · exact fun w' r hr _ hrow hp => found w' r hr hrow hp

theorem wp_updateLesson {l : LessonId} {p : LessonRow → Bool} {g : LessonRow → LessonRow}
    {r : LessonRow} {Q : Option LessonRow → Tx Row → LearningWorld → Prop}
    (held : t.holds (Key.lesson l)) (hrow : (t.visible w.db).lookup (Key.lesson l) = some r)
    (hp : p r = true)
    (found : ∀ w', LearningRely unicode thorough allow i t w w' →
      Q (some r) ((t.hold (Key.lesson l) .noKeyUpdate).write (Key.lesson l) .noKeyUpdate
        (some (g r))) w') :
    wp (learningContract unicode thorough allow) i Q (updateLesson l p g) t w :=
  @wp_updateRow_locked Key _ Row Note _ i t w (.lesson l) .noKeyUpdate p g r Q (Or.inl rfl) held
    hrow hp fun w' hr _ => found w' hr

theorem wp_referenceWord {k : WordId} {Q : Bool → Tx Row → LearningWorld → Prop}
    (missing : ∀ t' w', Q false t' w')
    (found : ∀ w', LearningRely unicode thorough allow i t w w' →
      ((t.visible w'.db).lookup (Key.word k)).isSome = true →
      Q true (t.hold (Key.word k) .keyShare) w') :
    wp (learningContract unicode thorough allow) i Q (referenceWord k) t w := by
  unfold referenceWord
  rw [wp_bind, wp_lockRow]
  intro w₁ hr₁ _
  rw [wp_select]
  intro w₂ hr₂ _
  rw [Tx.visible_hold]
  cases hk : ((t.visible w₂.db).lookup (Key.word k)).isSome with
  | false => exact missing _ _
  | true => exact found w₂ (hr₁.trans (rely_hold hr₂)) hk

theorem wp_insertEvent {row : EventRow} {Q : Option EventId → Tx Row → LearningWorld → Prop}
    (missing : ∀ t' w', Q none t' w')
    (found : ∀ e w', LearningRely unicode thorough allow i t w w' →
      (t.visible w'.db).lookup (Key.event e) = none →
      Q (some e) (((t.hold (Key.event e) .update).write (Key.event e) .update (some row)).hold
        (Key.word row.wordId) .keyShare) w') :
    wp (learningContract unicode thorough allow) i Q (insertEvent row) t w := by
  unfold insertEvent nextEventId
  rw [wp_bind, wp_bind, wp_choose]
  intro e
  rw [wp_bind, wp_select]
  intro w₁ hr₁ _
  cases (rowsWhere (events fun e' _ => e ≤ e') (t.visible w₁.db)).isEmpty with
  | false => exact missing _ _
  | true =>
    rw [if_pos rfl, wp_pure]
    dsimp only
    split
    · exact missing _ _
    rw [wp_bind]
    refine wp_insertRow (fun w₂ _ _ _ _ => missing _ _) fun w₂ hr₂ _ hfree => ?_
    rw [if_pos rfl, wp_bind]
    refine wp_referenceWord (fun _ _ => missing _ _) fun w₃ hr₃ _ => ?_
    have free : w₂.db.lookup (Key.event e) = w₃.db.lookup (Key.event e) :=
      (hr₃.kept (by simp) rfl).symm
    refine found e w₃ (hr₁.trans (hr₂.trans (rely_hold (rely_write hr₃)))) ?_
    exact (t.visible_congr free).symm.trans hfree

/-- A request that goes on only with the value of what it asked for. -/
theorem andThen_keeps {ε : Type} {p : LearningProg (Except ε α)}
    {f : α → LearningProg (Except ε β)} (hp : Keeps unicode thorough allow p)
    (hf : ∀ a, Keeps unicode thorough allow (f a)) :
    Keeps unicode thorough allow (andThen p f) := by
  refine .bind hp fun r => ?_
  cases r with
  | error e => exact .pure _
  | ok a => exact hf a

/-- A query that leaves no note. -/
theorem query_keeps (f : LearningDb → α) :
    Keeps unicode thorough allow (query f fun _ => []) := by
  intro i w
  rw [wp_query]
  exact fun w' _ hi _ => ⟨publishes_nothing hi rfl, rfl⟩

end Statements

/-- While what a user has learned of a word is locked, the word stays as it is. -/
theorem rely_learned {u : UserId} {k : WordId} {m : Mode} {r : WordRow} {state : UserWordRow}
    (h : LearningRely unicode thorough allow i t w w') (hu : (Key.userWord u k, m) ∈ t.held)
    (hm : m ≠ .keyShare) (hstate : (view w.db).userWord u k = some state)
    (hr : (view w.db).word k = some r) : (view w'.db).word k = some r := by
  have stable : Stable (learningContract unicode thorough allow) i t (fun v =>
      (view v.db).userWord u k = some state ∧ (view v.db).word k = some r) := by
    rintro v v' ho ⟨hv, hw⟩
    have hv' : (view v'.db).userWord u k = some state := (ho.rows _ _ hu hm).trans hv
    refine ⟨hv', ?_⟩
    obtain ⟨j, notes, -, hc⟩ := ho.author
    rcases hc.step with ⟨-, hsame⟩ | ⟨n, -, hstep⟩
    · rw [hsame]; exact hw
    · rw [hstep.word_same (by rw [hv']; rfl)]; exact hw
  exact (stable.rely h ⟨hstate, hr⟩).2

/-- What a transaction sees of a lesson's items depends on the committed ones alone. -/
theorem visible_items {l : LessonId} (t : Tx Row)
    (h : ∀ k, (view w'.db).item l k = (view w.db).item l k) (k : WordId) :
    (view (t.visible w'.db)).item l k = (view (t.visible w.db)).item l k :=
  t.visible_congr (h k)

theorem reviewWord_keeps (u : UserId) (k : WordId) (request : ReviewRequest) :
    Keeps unicode thorough allow (reviewWord unicode u k request) := by
  intro i w
  unfold reviewWord
  rw [wp_bind]
  refine wp_lockUserWord (fun _ _ => rfl) fun w₁ state _ hstate => ?_
  dsimp only
  rw [wp_bind]
  unfold wordRow
  rw [wp_select]
  intro w₂ hr₂ _
  rw [Tx.visible_hold, Tx.visible_empty]
  cases hword : w₂.db.lookup (Key.word k) with
  | none => exact rfl
  | some word =>
    dsimp only
    rw [wp_bind, wp_choose]
    intro now
    split
    · exact rfl
    rename_i hfits
    rw [wp_bind, wp_writeRow]
    intro w₃ hr₃ _ _
    rw [wp_bind]
    refine wp_insertEvent (fun _ _ => rfl) fun e w₄ hr₄ hfree => ?_
    dsimp only
    rw [wp_bind, wp_commit]
    intro w₅ hr₅ hi₅ _
    have later := (hr₃.trans (rely_write hr₄)).trans
      (rely_write (rely_hold (rely_write (rely_hold hr₅))))
    have state₂ : w₂.db.lookup (Key.userWord u k) = some state := hr₂.kept (by simp) hstate
    have state₅ : (view w₅.db).userWord u k = some state := later.kept (by simp) state₂
    have word₅ : (view w₅.db).word k = some word :=
      rely_learned later (m := .update) (by simp) (by simp) state₂ hword
    have fresh : (view w₅.db).event e = none :=
      hr₅.kept (by simp) ((Tx.visible_unwritten _ (by simp) _).symm.trans hfree)
    have reviewing : Reviewing unicode (view w₅.db) u k request now e
        (attempt unicode request state word now) :=
      ⟨⟨state, word, state₅, word₅, rfl⟩, by simpa using hfits, fresh⟩
    refine ⟨publishes hi₅ ?_ (by simp [Licensed, Attempt.event])
      (fun _ => not_wordDeleted_sees (by simp)), rfl⟩
    simpa using Step.wordReviewed reviewing

theorem discardLesson_keeps (u : UserId) (l : LessonId) (version : Nat) :
    Keeps unicode thorough allow (discardLesson u l version) := by
  intro i w
  unfold discardLesson
  rw [wp_bind, wp_choose]
  intro dbNow
  rw [wp_bind]
  refine wp_lockLesson (fun _ _ => rfl) fun w₁ lesson _ hlesson hactive => ?_
  dsimp only
  split
  · exact rfl
  rename_i hversion
  obtain rfl : lesson.version = version := by simpa using hversion
  rw [wp_bind]
  refine wp_updateLesson (by simp) hlesson (by simp [hactive]) fun w₂ hr₂ => ?_
  dsimp only
  rw [wp_bind, wp_lockRow]
  intro w₃ hr₃ _
  rw [wp_bind, wp_commit]
  intro w₄ hr₄ hi₄ _
  have lesson₄ : (view w₄.db).lesson l = some lesson :=
    hr₄.kept (by simp) (hr₃.kept (by simp) (hr₂.kept (by simp) hlesson))
  refine ⟨publishes hi₄ ?_ (by simp [Licensed]) (fun _ => not_wordDeleted_sees (by simp)), rfl⟩
  simpa using Step.lessonDiscarded lesson₄ hactive

/-- What a review has read and locked before it writes. -/
structure ReviewLocks (t : Tx Row) (call : ReviewCall) (w : LearningWorld) (lesson : LessonRow)
    (item : ItemRow) (state : UserWordRow) (word : WordRow) : Prop where
  lessonRow : w.db.lookup (Key.lesson call.lessonId) = some lesson
  itemRow : w.db.lookup (Key.item call.lessonId call.wordId) = some item
  stateRow : w.db.lookup (Key.userWord call.userId call.wordId) = some state
  wordRow : w.db.lookup (Key.word call.wordId) = some word
  heldLesson : (Key.lesson call.lessonId, Mode.update) ∈ t.held
  heldItem : (Key.item call.lessonId call.wordId, Mode.update) ∈ t.held
  heldState : (Key.userWord call.userId call.wordId, Mode.update) ∈ t.held

section Review
variable {call : ReviewCall} {lesson : LessonRow} {item : ItemRow} {state : UserWordRow}
variable {word : WordRow}

theorem ReviewLocks.rely (h : ReviewLocks t call w lesson item state word)
    (hr : LearningRely unicode thorough allow i t w w') :
    ReviewLocks t call w' lesson item state word :=
  { h with
    lessonRow := (hr.row h.heldLesson (by simp)).trans h.lessonRow
    itemRow := (hr.row h.heldItem (by simp)).trans h.itemRow
    stateRow := (hr.row h.heldState (by simp)).trans h.stateRow
    wordRow := rely_learned hr h.heldState (by simp) h.stateRow h.wordRow }

theorem ReviewLocks.hold (h : ReviewLocks t call w lesson item state word) {k : Key} {m : Mode} :
    ReviewLocks (t.hold k m) call w lesson item state word :=
  { h with
    heldLesson := List.mem_cons_of_mem _ h.heldLesson
    heldItem := List.mem_cons_of_mem _ h.heldItem
    heldState := List.mem_cons_of_mem _ h.heldState }

theorem ReviewLocks.write (h : ReviewLocks t call w lesson item state word) {k : Key} {m : Mode}
    {v : Option (Row k)} : ReviewLocks (t.write k m v) call w lesson item state word :=
  { h with
    heldLesson := List.mem_cons_of_mem _ h.heldLesson
    heldItem := List.mem_cons_of_mem _ h.heldItem
    heldState := List.mem_cons_of_mem _ h.heldState }

variable {now : Instant} {e : EventId} {progress : LessonProgress}

/-- A review that has written all but the lesson. -/
structure ReviewWritten (t : Tx Row) (call : ReviewCall) (w : LearningWorld) (lesson : LessonRow)
    (item : ItemRow) (state : UserWordRow) (word : WordRow) (now : Instant) (e : EventId)
    (a : Attempt) : Prop extends ReviewLocks t call w lesson item state word where
  fits : a.fits = true
  fresh : w.db.lookup (Key.event e) = none
  heldEvent : t.holds (Key.event e)
  heldWord : (Key.word call.wordId, Mode.keyShare) ∈ t.held
  untouched : ¬ t.wrote (Key.lesson call.lessonId)
  writes : ∀ db, view (t.visible db) = { view db with
    userWord := updateAt (view db).userWord call.userId call.wordId (some (a.row now))
    event := update (view db).event e (some (a.event call.userId call.wordId
      call.request.toReviewRequest now lesson.sessionKind item.selectionReason))
    item := updateAt (view db).item call.lessonId call.wordId
      (some (item.rate call.request.rating now)) }

theorem ReviewWritten.rely {a : Attempt} (h : ReviewWritten t call w lesson item state word now e a)
    (hr : LearningRely unicode thorough allow i t w w') :
    ReviewWritten t call w' lesson item state word now e a :=
  { h with
    toReviewLocks := h.toReviewLocks.rely hr
    fresh := hr.kept h.heldEvent h.fresh }

/-- The items of a lesson look the same to whoever has it locked. -/
theorem ReviewLocks.items (h : ReviewLocks t call w lesson item state word) (ht : thorough)
    (hactive : lesson.activeOf call.userId = true)
    (hr : LearningRely unicode thorough allow i t w w') (k : WordId) :
    (view (t.visible w'.db)).item call.lessonId k = (view (t.visible w.db)).item call.lessonId k :=
  visible_items t (rely_items ht hr h.heldLesson (by simp) h.lessonRow (activeOf_iff.mp hactive).2) k

/-- A review that is about to commit: `t` has written what `before` had, and the lesson. -/
structure ReviewReady (thorough : Prop) (before t : Tx Row) (w : LearningWorld)
    (call : ReviewCall) (lesson : LessonRow) (now : Instant) (progress : LessonProgress) : Prop where
  held : before.held ⊆ t.held
  writes : ∀ db, view (t.visible db) = { view (before.visible db) with
    lesson := update (view (before.visible db)).lesson call.lessonId
      (some (lesson.advance progress.index progress.completed now)) }
  counted : thorough → progress = (view (before.visible w.db)).progress call.lessonId

theorem ReviewReady.commits {before : Tx Row}
    (h : ReviewReady thorough before t w call lesson now progress)
    (written : ReviewWritten before call w lesson item state word now e
      (attempt unicode call.request.toReviewRequest state word now))
    (hactive : lesson.activeOf call.userId = true)
    (hversion : lesson.version = call.request.lessonVersion)
    (hmode : lesson.studyMode = call.request.answerMode) (hrating : item.rating = none)
    (hposition : item.position = lesson.currentIndex) (answer : α) :
    wp (learningContract unicode thorough allow) i (fun _ t _ => t = {})
      (do
        commit [.reviewed call (lessonReviewResult call.lessonId (lesson.version + 1) progress
          ((attempt unicode call.request.toReviewRequest state word now).result call.wordId e now))
          ((attempt unicode call.request.toReviewRequest state word now).row now)]
        return answer) t w := by
  rw [wp_bind, wp_commit]
  intro w' hr hi _
  have hr := hr.mono h.held
  have later := written.rely hr
  have licensed : Licensed t.held (.reviewed call (lessonReviewResult call.lessonId
      (lesson.version + 1) progress ((attempt unicode call.request.toReviewRequest state word
        now).result call.wordId e now))
      ((attempt unicode call.request.toReviewRequest state word now).row now)) :=
    ⟨h.held written.heldLesson, h.held written.heldWord⟩
  refine ⟨publishes hi ?_ licensed (fun _ => not_wordDeleted_sees (by simp)), rfl⟩
  refine .reviewed later.lessonRow hactive hversion hmode later.itemRow hrating hposition
    ⟨⟨state, word, later.stateRow, later.wordRow, rfl⟩, later.fits, later.fresh⟩ (fun ht => ?_) ?_
  · rw [h.writes, h.counted ht]
    exact progress_congr fun k => (written.items ht hactive hr k).symm
  · rw [h.writes, later.writes]

/-- Counting the items left and moving the lesson on. -/
theorem wp_finishReview
    (written : ReviewWritten t call w lesson item state word now e
      (attempt unicode call.request.toReviewRequest state word now))
    (hactive : lesson.activeOf call.userId = true)
    (hversion : lesson.version = call.request.lessonVersion)
    (hmode : lesson.studyMode = call.request.answerMode) (hrating : item.rating = none)
    (hposition : item.position = lesson.currentIndex) :
    wp (learningContract unicode thorough allow) i (fun _ t _ => t = {})
      (do
        let progress ← select (lessonProgress call.lessonId)
        let some previous ← updateLesson call.lessonId
            (fun r => r.userId = call.userId && r.version = call.request.lessonVersion)
            (LessonRow.advance progress.index progress.completed now)
          | leave (Except.error LessonError.lessonVersionConflict)
        if progress.completed then
          lockRow (.activeLesson call.userId) .update
        let result := lessonReviewResult call.lessonId (previous.version + 1) progress
          ((attempt unicode call.request.toReviewRequest state word now).result call.wordId e now)
        commit [.reviewed call result
          ((attempt unicode call.request.toReviewRequest state word now).row now)]
        return .ok result) t w := by
  rw [wp_bind, wp_select]
  intro w₁ hr₁ _
  have written₁ := written.rely hr₁
  generalize hprogress : lessonProgress call.lessonId (t.visible w₁.db) = progress
  rw [wp_bind]
  have hlesson : (t.visible w₁.db).lookup (Key.lesson call.lessonId) = some lesson :=
    (Tx.visible_unwritten _ written.untouched _).trans written₁.lessonRow
  have held : t.holds (Key.lesson call.lessonId) := ⟨.update, by simp, written.heldLesson⟩
  refine wp_updateLesson held hlesson (by simp [hversion, (activeOf_iff.mp hactive).1])
    fun w₂ hr₂ => ?_
  have counted : thorough → progress = (view (t.visible w₂.db)).progress call.lessonId := by
    intro ht
    rw [← hprogress, lessonProgress_view]
    exact progress_congr fun k => (written₁.items ht hactive hr₂ k).symm
  dsimp only
  split
  · rw [wp_bind, wp_lockRow]
    intro w₃ hr₃ _
    have hr₃ : LearningRely unicode thorough allow i t w₂ w₃ := rely_hold (rely_write hr₃)
    refine ReviewReady.commits ⟨?_, ?_, ?_⟩ ((written₁.rely hr₂).rely hr₃) hactive hversion hmode
      hrating hposition _
    · exact fun p hp => List.mem_cons_of_mem _ (List.mem_cons_of_mem _ (List.mem_cons_of_mem _ hp))
    · exact fun db => by simp
    · exact fun ht => (counted ht).trans (progress_congr fun k =>
        ((written₁.rely hr₂).items ht hactive hr₃ k).symm)
  · refine ReviewReady.commits ⟨?_, ?_, counted⟩ (written₁.rely hr₂) hactive hversion hmode hrating
      hposition _
    · exact fun p hp => List.mem_cons_of_mem _ (List.mem_cons_of_mem _ hp)
    · exact fun db => by simp

end Review

theorem reviewLessonWord_keeps (call : ReviewCall) :
    Keeps unicode thorough allow (reviewLessonWord unicode call) := by
  intro i w
  unfold reviewLessonWord
  dsimp only
  rw [wp_bind]
  refine wp_lockLesson (fun _ _ => rfl) fun w₁ lesson _ hlesson hactive => ?_
  dsimp only
  split
  · exact rfl
  rename_i hversion
  split
  · exact rfl
  rename_i hmode
  rw [wp_bind]
  refine wp_lockItem (fun _ _ => rfl) fun w₂ item hr₂ hitem => ?_
  dsimp only
  split
  · exact rfl
  rename_i hrating
  split
  · exact rfl
  rename_i hposition
  rw [wp_bind]
  refine wp_lockUserWord (fun _ _ => rfl) fun w₃ state hr₃ hstate => ?_
  dsimp only
  rw [wp_bind]
  unfold wordRow
  rw [wp_select]
  intro w₄ hr₄ _
  simp only [Tx.visible_hold, Tx.visible_empty]
  cases hword : w₄.db.lookup (Key.word call.wordId) with
  | none => exact rfl
  | some word =>
    have locks : ReviewLocks (((({} : Tx Row).hold (.lesson call.lessonId) .update).hold
        (.item call.lessonId call.wordId) .update).hold (.userWord call.userId call.wordId) .update)
        call w₄ lesson item state word :=
      { lessonRow := hr₄.kept (by simp) (hr₃.kept (by simp) (hr₂.kept (by simp) hlesson))
        itemRow := hr₄.kept (by simp) (hr₃.kept (by simp) hitem)
        stateRow := hr₄.kept (by simp) hstate
        wordRow := hword
        heldLesson := by simp
        heldItem := by simp
        heldState := by simp }
    dsimp only
    rw [wp_bind, wp_choose]
    intro now
    split
    · exact rfl
    rename_i hfits
    rw [wp_bind, wp_writeRow]
    intro w₅ hr₅ _ _
    rw [wp_bind]
    refine wp_insertEvent (fun _ _ => rfl) fun e w₆ hr₆ hfree => ?_
    dsimp only
    rw [wp_bind, wp_writeRow]
    intro w₇ hr₇ _ _
    have free₇ : w₇.db.lookup (Key.event e) = none :=
      hr₇.kept (by simp) ((Tx.visible_unwritten _ (by simp) _).symm.trans hfree)
    have locks₇ := (((locks.rely hr₅).write.rely hr₆).hold.write.hold.rely hr₇)
    refine wp_finishReview ⟨locks₇.write, by simpa using hfits, free₇, ?_, ?_, ?_, ?_⟩ hactive
      (by simpa using hversion) (by simpa using hmode) (by simpa using hrating)
      (by simpa using hposition)
    · simp
    · simp [Attempt.event]
    · simp
    · exact fun db => by simp

theorem loadIdempotentLessonReview_keeps {call : ReviewCall} {k : IdempotencyKey}
    {note : Loaded → Note} (hdel : ∀ o u k seen, note o ≠ .wordDeleted u k seen)
    (licensed : ∀ o held, Licensed held (note o))
    (step : ∀ now s, Step unicode thorough (note (loadedFrom call now (s.kept call.userId k))) s s) :
    Keeps unicode thorough allow (loadIdempotentLessonReview call k note) := by
  refine .bind .choose fun now => ?_
  intro i w
  rw [wp_query]
  intro w' _ hi _
  exact ⟨publishes hi (step now (view w'.db)) (licensed _ _) (fun _ => not_wordDeleted_sees (hdel _)), rfl⟩

theorem latestEvent_iff {p : EventRow → Bool} {db : LearningDb} {e : EventId} :
    latestEvent p db = some e ↔ (∃ r, (view db).event e = some r ∧ p r = true) ∧
      ∀ e' r, (view db).event e' = some r → p r = true → e' ≤ e := by
  have mem : ∀ e', e' ∈ (rowsWhere (events fun _ r => p r) db).filterMap Key.eventId ↔
      ∃ r, (view db).event e' = some r ∧ p r = true := by
    intro e'
    rw [List.mem_filterMap]
    constructor
    · rintro ⟨k, hk, he⟩
      obtain ⟨r, hr, hp⟩ := mem_rowsWhere.mp hk
      cases k with
      | event e'' =>
        cases he
        exact ⟨r, hr, hp⟩
      | _ => cases he
    · rintro ⟨r, hr, hp⟩
      exact ⟨.event e', mem_rowsWhere.mpr ⟨r, hr, hp⟩, rfl⟩
  rw [latestEvent, List.max?_eq_some_iff, mem]
  refine and_congr_right fun _ => ?_
  constructor
  · exact fun h e' r hr hp => h e' ((mem e').mpr ⟨r, hr, hp⟩)
  · intro h e' he'
    obtain ⟨r, hr, hp⟩ := (mem e').mp he'
    exact h e' r hr hp

theorem recoverySnapshot_iff {call : ReviewCall} {db : LearningDb} {found : RecoverySnapshot} :
    recoverySnapshot call db = some found ↔ Recovers (view db) call found := by
  constructor
  · intro h
    simp only [recoverySnapshot, Option.bind_eq_bind, Option.bind_eq_some_iff, Option.pure_def] at h
    obtain ⟨lesson, hlesson, u, hguard, item, hitem, userWord, huser, e, he, event, hevent, heq⟩ := h
    obtain ⟨howner, hversion⟩ : lesson.userId = call.userId ∧
        lesson.version = call.request.lessonVersion + 1 := by
      by_contra hn
      simp [guard, hn] at hguard
    obtain ⟨⟨r, hr, hfits⟩, hlatest⟩ := latestEvent_iff.mp he
    cases heq
    cases hr.symm.trans hevent
    exact ⟨hlesson, howner, hversion, hitem, huser, hevent, hfits, hlatest, itemsOf_length _ _ _,
      itemsOf_length _ _ _⟩
  · intro h
    obtain ⟨lesson, item, userWord, e, event, total, reviewed⟩ := found
    have hlesson : db.lookup (Key.lesson call.lessonId) = some lesson := h.lesson
    have hitem : db.lookup (Key.item call.lessonId call.wordId) = some item := h.item
    have huser : db.lookup (Key.userWord call.userId call.wordId) = some userWord := h.userWord
    have hevent : db.lookup (Key.event e) = some event := h.event
    have hlatest : latestEvent (fitsCall call item.reviewedAt) db = some e :=
      latestEvent_iff.mpr ⟨⟨event, h.event, h.fits⟩, h.latest⟩
    have hcheck : lesson.userId = call.userId ∧ lesson.version = call.request.lessonVersion + 1 :=
      ⟨h.owner, h.version⟩
    have htotal : (itemsOf call.lessonId (fun _ => true) db).length = total :=
      (itemsOf_length _ _ _).trans h.totalItems.symm
    have hreviewed : (itemsOf call.lessonId (fun r => r.rating.isSome) db).length = reviewed :=
      (itemsOf_length _ _ _).trans h.reviewedItems.symm
    simp [recoverySnapshot, hlesson, hcheck, hitem, huser, hlatest, hevent, htotal, hreviewed]

theorem recoverCommittedLessonReview_keeps (call : ReviewCall) :
    Keeps unicode thorough allow (recoverCommittedLessonReview unicode call) := by
  unfold recoverCommittedLessonReview
  split
  · exact .pure _
  refine .bind ?_ fun s => .pure _
  intro i w
  rw [wp_query]
  intro w' _ hi _
  have step : Step unicode thorough (.recovered call (recoverySnapshot call w'.db)) (view w'.db)
      (view w'.db) := .recovered fun found => recoverySnapshot_iff
  exact ⟨publishes hi step trivial (fun _ => not_wordDeleted_sees (by simp)), rfl⟩

theorem wp_skipLocked {limit : Nat} {keys : List Key}
    {Q : List Key → Tx Row → LearningWorld → Prop}
    (h : ∀ taken, taken.Sublist keys → Q taken t w) :
    wp (learningContract unicode thorough allow) i Q (skipLocked limit keys) t w := by
  induction keys generalizing limit Q with
  | nil =>
    unfold skipLocked
    exact h [] .slnil
  | cons k rest ih =>
    cases limit with
    | zero => exact h [] (List.nil_sublist _)
    | succ limit =>
      unfold skipLocked
      rw [wp_bind, wp_choose]
      intro free
      split
      · exact ih fun taken hsub => h taken (hsub.cons k)
      · rw [wp_bind]
        exact ih fun taken hsub => h (k :: taken) (hsub.cons_cons k)

/-- What a transaction has done that has so far only deleted the rows `swept`. -/
structure Swept (thorough : Prop) (unicode : Unicode)
    (allow : Nat → List Note → LearningWorld → LearningWorld → Prop) (i : Nat) (now : Instant)
    (swept : List Key) (t : Tx Row) (w : LearningWorld) : Prop where
  writes : ∀ db, view (t.visible db) = { view db with kept := (view db).sweep swept }
  expired : ∀ w', LearningRely unicode thorough allow i t w w' → Expired (view w'.db) now swept

theorem Swept.rely {now : Instant} {swept : List Key}
    (h : Swept thorough unicode allow i now swept t w)
    (hr : LearningRely unicode thorough allow i t w w') :
    Swept thorough unicode allow i now swept t w' :=
  ⟨h.writes, fun _ hr' => h.expired _ (hr.trans hr')⟩

theorem wp_sweepExpired {u : UserId} {k : IdempotencyKey} {now : Instant}
    {Q : List Key → Tx Row → LearningWorld → Prop}
    (h : ∀ swept t' w', Swept thorough unicode allow i now swept t' w' → Q swept t' w') :
    wp (learningContract unicode thorough allow) i Q (sweepExpired u k now) {} w := by
  unfold sweepExpired
  rw [wp_bind, wp_select]
  intro w₁ _ _
  rw [wp_bind]
  refine wp_skipLocked fun taken hsub => ?_
  have nodup : taken.Nodup := by
    refine hsub.nodup ?_
    exact (List.perm_insertionSort _ _).nodup_iff.mpr (rowsWhere_nodup _ _)
  refine wp_changeEach (Or.inr rfl) _ nodup fun done t' w' hc => h done t' w' ?_
  have dropped : ∀ key ∈ done, (∃ u k, key = .idempotency u k) ∧
      ∀ db, (t'.visible db).lookup key = none := by
    intro key hkey
    obtain ⟨r, v, hr, hf, hv⟩ := hc.changed _ hkey
    split_ifs at hf with hp
    cases hf
    refine ⟨?_, hv⟩
    cases key with
    | idempotency u k => exact ⟨u, k, rfl⟩
    | _ => cases hp
  have same : ∀ key, (∀ u k, key ≠ .idempotency u k) → ∀ db,
      (t'.visible db).lookup key = db.lookup key := by
    intro key hkey db
    refine hc.same key (fun hd => ?_) db
    obtain ⟨⟨u, k, rfl⟩, -⟩ := dropped key hd
    exact hkey u k rfl
  refine ⟨fun db => ?_, fun w'' hr u' k' r hk hrow => ?_⟩
  · ext1 <;> funext x
    case kept =>
      funext y
      by_cases hd : Key.idempotency x y ∈ done
      · have gone : (view (t'.visible db)).kept x y = none := (dropped _ hd).2 db
        simp [gone, Learning.sweep, hd]
      · have kept : (view (t'.visible db)).kept x y = (view db).kept x y := hc.same _ hd db
        rw [kept]
        cases hrow : (view db).kept x y <;> simp [Learning.sweep, hrow, hd, Option.filter]
    all_goals first | exact same _ (by simp) db | (funext y; exact same _ (by simp) db)
  · obtain ⟨r', v, hr', hf, -⟩ := hc.changed _ hk
    have held := hc.locked _ (hc.chosen _ hk)
    have hrow' : w'.db.lookup (Key.idempotency u' k') = some r := (hr.row held (by simp)).symm.trans hrow
    cases hr'.symm.trans hrow'
    split_ifs at hf with hp
    simpa [idempotencyRows] using hp

theorem Swept.kept {now : Instant} {swept : List Key} {u : UserId} {k : IdempotencyKey}
    (h : Swept thorough unicode allow i now swept t w) :
    (view (t.visible w.db)).kept u k =
      ((view w.db).kept u k).filter fun _ => Key.idempotency u k ∉ swept := by
  rw [h.writes]
  rfl

/-- Keeping the response under its key, or finding that somebody else's is there. -/
theorem wp_upsertKept {call : ReviewCall} {k : IdempotencyKey} {response : LessonReviewResult}
    {now : Instant} {swept : List Key} {Q : Bool → Tx Row → LearningWorld → Prop}
    (swept_ : Swept thorough unicode allow i now swept t w)
    (wrote : ∀ w', LearningRely unicode thorough allow i t w w' →
      (∀ r, (view w'.db).kept call.userId k = some r → r.expiresAt ≤ now) →
      Q true (((t.hold (.idempotency call.userId k) .update).write (.idempotency call.userId k)
        .update (some (keptResponse call response now)))) w')
    (lost : ∀ w' r, LearningRely unicode thorough allow i t w w' →
      (view w'.db).kept call.userId k = some r → now < r.expiresAt →
      Q false (t.hold (.idempotency call.userId k) .update) w') :
    wp (learningContract unicode thorough allow) i Q (upsertKept call k response now) t w := by
  unfold upsertKept
  rw [wp_bind, wp_lockRow]
  intro w₁ hr₁ _
  rw [wp_bind, wp_select]
  intro w₂ hr₂ _
  have before := hr₁.trans (rely_hold hr₂)
  have seen : keptRow call.userId k ((t.hold (.idempotency call.userId k) .update).visible w₂.db) =
      ((view w₂.db).kept call.userId k).filter fun _ => Key.idempotency call.userId k ∉ swept :=
    (swept_.rely before).kept
  rw [seen]
  cases hall : (((view w₂.db).kept call.userId k).filter
      fun _ => Key.idempotency call.userId k ∉ swept).all fun r => r.expiresAt ≤ now with
  | true =>
    rw [if_pos rfl, wp_bind, wp_writeRow]
    intro w₃ hr₃ _ _
    refine wrote w₃ (before.trans (rely_hold hr₃)) fun r hr => ?_
    have hr₂' : (view w₂.db).kept call.userId k = some r :=
      (hr₃.row (m := .update) List.mem_cons_self (by simp)).symm.trans hr
    by_cases hs : Key.idempotency call.userId k ∈ swept
    · exact swept_.expired _ (before.trans (rely_hold hr₃)) _ _ _ hs hr
    · simpa [hr₂', hs, Option.filter] using hall
  | false =>
    rw [if_neg (by simp)]
    cases hrow : (view w₂.db).kept call.userId k with
    | none => simp [hrow] at hall
    | some r =>
      refine lost w₂ r before hrow ?_
      by_cases hs : Key.idempotency call.userId k ∈ swept
      · simp [hrow, hs, Option.filter] at hall
      · simpa [hrow, hs, Option.filter] using hall

theorem storeIdempotentLessonReview_keeps {call : ReviewCall} {k : IdempotencyKey}
    (hkey : call.key = some k) (response : LessonReviewResult) :
    Keeps unicode thorough allow (storeIdempotentLessonReview call k response) := by
  intro i w
  unfold storeIdempotentLessonReview
  rw [wp_bind, wp_choose]
  intro now
  rw [wp_bind]
  refine wp_sweepExpired fun swept t₁ w₁ hswept => ?_
  rw [wp_bind]
  refine wp_upsertKept hswept (fun w₂ hr₂ hgone => ?_) fun w₂ r hr₂ hrow hlate => ?_
  · rw [if_pos rfl, wp_bind]
    unfold referenceLesson
    rw [wp_bind, wp_lockRow]
    intro w₃ hr₃ _
    rw [wp_select]
    intro w₄ hr₄ _
    split
    · exact rfl
    rw [wp_bind]
    refine wp_referenceWord (fun _ _ => ?_) fun w₅ hr₅ hword => ?_
    · exact rfl
    rw [if_neg (by simp), wp_bind, wp_commit]
    intro w₆ hr₆ hi₆ _
    have later : LearningRely unicode thorough allow i
        ((t₁.hold (.idempotency call.userId k) .update).write (.idempotency call.userId k) .update
          (some (keptResponse call response now))) w₂ w₆ :=
      hr₃.trans ((rely_hold hr₄).trans ((rely_hold hr₅).trans (rely_hold (rely_hold hr₆))))
    have expired : Expired (view w₆.db) now swept :=
      hswept.expired _ (hr₂.trans (rely_hold (rely_write later)))
    have gone : ∀ r, (view w₆.db).kept call.userId k = some r → r.expiresAt ≤ now := fun r hr =>
      hgone r ((later.row (m := .update) (by simp) (by simp)).symm.trans hr)
    have word : ((view w₆.db).word call.wordId).isSome = true := by
      refine (rely_word hr₆ (m := .keyShare) (by simp)).stays ?_
      have same : (t₁.visible w₅.db).lookup (Key.word call.wordId) = (view w₅.db).word call.wordId :=
        congrArg (fun s => s.word call.wordId) (hswept.writes w₅.db)
      rw [← same]
      simpa [lookup_set_ne] using hword
    refine ⟨publishes hi₆ ?_ (by simp [Licensed]) (fun _ => not_wordDeleted_sees (by simp)), rfl⟩
    have step : Step unicode thorough (.bound call response swept) (view w₆.db) _ :=
      .bound hkey expired gone word
    simpa [hswept.writes] using step
  · rw [if_neg (by simp), wp_bind, wp_commit]
    intro w₃ hr₃ hi₃ _
    have row : (view w₃.db).kept call.userId k = some r :=
      (hr₃.row (m := .update) List.mem_cons_self (by simp)).trans hrow
    have step : Step unicode thorough (.insertLost call swept) (view w₃.db)
        { view w₃.db with kept := (view w₃.db).sweep swept } :=
      .insertLost hkey (hswept.expired _ (hr₂.trans (rely_hold hr₃))) row hlate
    refine ⟨publishes hi₃ ?_ trivial (fun _ => not_wordDeleted_sees (by simp)), ?_⟩
    · simpa [hswept.writes] using step
    rw [wp_bind]
    refine wp_mono ?_ (@loadIdempotentLessonReview_keeps unicode thorough allow call k (.reloaded call) (by simp)
      (fun _ _ => trivial) (fun _ _ => .reloaded hkey) i _)
    rintro o t₄ w₄ rfl
    cases o <;> exact rfl

theorem loaded_keeps {call : ReviewCall} {k : IdempotencyKey} (hkey : call.key = some k) :
    Keeps unicode thorough allow (loadIdempotentLessonReview call k (.loaded call)) :=
  loadIdempotentLessonReview_keeps (by simp) (fun _ _ => trivial) fun _ _ => .loaded hkey

theorem reviewOrRecover_keeps (call : ReviewCall) :
    Keeps unicode thorough allow (reviewOrRecover unicode call) := by
  refine .bind (reviewLessonWord_keeps call) fun r => ?_
  cases r with
  | ok result => exact .pure _
  | error e =>
    dsimp only
    split
    · refine .bind (recoverCommittedLessonReview_keeps call) fun r => ?_
      rcases r with e' | (_ | result) <;> exact .pure _
    · exact .pure _

theorem reviewLessonWordIdempotent_keeps (call : ReviewCall) :
    Keeps unicode thorough allow (reviewLessonWordIdempotent unicode call) := by
  unfold reviewLessonWordIdempotent
  cases hkey : call.key with
  | none => exact reviewLessonWord_keeps call
  | some k =>
    refine .bind (loaded_keeps hkey) fun o => ?_
    cases o with
    | replayed stored => exact .pure _
    | reused => exact .pure _
    | absent | expired =>
      refine andThen_keeps (reviewOrRecover_keeps call) fun result => ?_
      refine .bind (storeIdempotentLessonReview_keeps hkey result) fun r => ?_
      cases r <;> exact .pure _

end LearningRefinement
