import LexiGo.Learning.LessonOrder
import LexiGo.OrderedPages

/-! What becomes of active lessons when words are deleted beside them. A deletion
discards the lessons that it has seen to use its word; a lesson that it has not
seen loses the item, and can no longer be loaded. -/
namespace LoadableLessons
open RowStore TransactionProgram Interleaving CommitContract CommitNotes RunSoundness
open AnswerJudgement Scheduler LearningSchema LessonRepository LessonCreation
open LearningService LearningMachine LearningContract LearningRuns LessonOrder GoText Function

variable {unicode : Unicode} {n : Note} {s s' : Learning} {db : LearningDb}

section Machine

/-- An active lesson stands as its row says, and its words are those of its user. -/
structure Sturdy (s : Learning) : Prop where
  linked : Linked s
  inStep : ∀ l r, s.lesson l = some r → r.status = .active → ∃ m, InStep s l r m
  known : ∀ l r w, s.lesson l = some r → r.status = .active → (s.item l w).isSome = true →
    (s.word w).isSome = true ∧ (s.userWord r.userId w).isSome = true

/-- A deletion has seen every active lesson that uses its word, and they are all the
owner's. -/
def SeesAll (n : Note) (s : Learning) : Prop :=
  ∀ u w seen, n = .wordDeleted u w seen → ∀ l r, s.lesson l = some r → r.status = .active →
    (s.item l w).isSome = true → r.userId = u ∧ Key.lesson l ∈ seen

theorem SeesAll.lessons (h : SeesAll n s) : SeesLessons n s :=
  fun u w seen hn l r hr hactive hitem => (h u w seen hn l r hr hactive hitem).2

/-- Such a deletion leaves the lessons that stay active as they are. -/
theorem moves_active (h : Step unicode True n s s') (hsees : SeesAll n s) {l : LessonId}
    {r' : LessonRow} (hr' : s'.lesson l = some r') (hactive : r'.status = .active) :
    Moves n s s' l r' := by
  by_cases hn : ∃ u w seen, n = .wordDeleted u w seen
  · obtain ⟨u, w, seen, rfl⟩ := hn
    cases h with
    | @wordDeleted s u w row seen now _ _ =>
      obtain ⟨r, hr, heq⟩ := Option.map_eq_some_iff.mp hr'
      by_cases hseen : Key.lesson l ∈ seen ∧ r.activeOf u = true
      · rw [if_pos hseen] at heq
        rw [← heq] at hactive
        cases hactive
      · rw [if_neg hseen] at heq
        subst heq
        have hitem : s.item l w = none := by
          by_contra hsome
          obtain ⟨howner, hmem⟩ := hsees u w seen rfl l r hr hactive
            (Option.isSome_iff_ne_none.2 hsome)
          exact hseen ⟨hmem, activeOf_iff.2 ⟨howner, hactive⟩⟩
        refine .stays hr fun w' => ?_
        by_cases hw : w' = w
        · simp [Learning.withoutWord, hw, hitem]
        · simp [Learning.withoutWord, hw]
  · push Not at hn
    exact step_moves h hn hr'

/-- Where an item is, the word of it is, and what its user has learned of the word. -/
theorem step_known (h : Step unicode True n s s') {u : UserId} {l : LessonId} {w : WordId}
    (hknown : (s.word w).isSome = true ∧ (s.userWord u w).isSome = true)
    (hitem : (s'.item l w).isSome = true) :
    (s'.word w).isSome = true ∧ (s'.userWord u w).isSome = true := by
  have hword : (s'.word w).isSome = true := by
    refine h.word_stays ?_ hknown.1
    rintro u' seen rfl
    cases h with
    | wordDeleted _ _ => simp [Learning.withoutWord] at hitem
  exact ⟨hword, h.userWord_stays hword hknown.2⟩

theorem created_known {u : UserId} {l : LessonId} {words : List WordId}
    (h : Step unicode True (.lessonCreated u l words) s s') (w : WordId) (hw : w ∈ words) :
    (s'.word w).isSome = true ∧ (s'.userWord u w).isSome = true := by
  cases h with
  | lessonCreated _ _ _ hwords _ => exact hwords w hw

theorem Sturdy.step (hs : Sturdy s) (h : Step unicode True n s s') (hsees : SeesAll n s) :
    Sturdy s' := by
  refine ⟨h.linked hs.linked, fun l r' hr' hactive => ?_, fun l r' w hr' hactive hitem => ?_⟩
  · refine (moves_active h hsees hr' hactive).inStep fun r hr hor => ?_
    exact hs.inStep l r hr (hor.elim (fun heq => heq ▸ hactive) id)
  · cases moves_active h hsees hr' hactive with
    | stays hr hsame =>
      exact step_known h (hs.known l r' w hr hactive (hsame w ▸ hitem)) hitem
    | @created u request now selected hn hfree _ _ hitems hrow =>
      have hmem : w ∈ selected.map Prod.fst := placed_isSome.1 (hitems w ▸ hitem)
      subst hrow hn
      exact created_known h w hmem
    | discarded _ _ _ _ heq =>
      rw [heq] at hactive
      cases hactive
    | @reviewed call result row r item now _ _ hr hmine hold _ _ hitems heq =>
      subst heq
      have hback : (s.item l w).isSome = true := by
        rw [hitems] at hitem
        by_cases hw : w = call.wordId
        · rw [hw, hold]
          rfl
        · rwa [update_of_ne hw] at hitem
      exact step_known h (hs.known l r w hr (activeOf_iff.mp hmine).2 hback) hitem

end Machine

section Loading
variable {l : LessonId} {u : UserId} {m : Nat}

theorem mem_orderedItems {w : WordId} {item : ItemRow} :
    (w, item) ∈ orderedItems l db ↔ (view db).item l w = some item := by
  unfold orderedItems
  rw [List.mem_insertionSort, List.mem_filterMap]
  constructor
  · rintro ⟨k, hk, hrow⟩
    obtain ⟨w', rfl, -⟩ := (mem_itemsOf db).1 hk
    obtain ⟨item', hitem', heq⟩ := Option.map_eq_some_iff.1 hrow
    cases heq
    exact hitem'
  · intro hitem
    refine ⟨.item l w, (mem_itemsOf db).2 ⟨w, rfl, item, hitem, rfl⟩, ?_⟩
    exact Option.map_eq_some_iff.2 ⟨item, hitem, rfl⟩

theorem orderedItems_nodup : (orderedItems l db).Nodup := by
  unfold orderedItems
  rw [(List.perm_insertionSort _ _).nodup_iff, List.nodup_iff_pairwise_ne, List.pairwise_filterMap]
  refine (List.nodup_iff_pairwise_ne.1 (rowsWhere_nodup _ _)).imp_of_mem ?_
  rintro k k' hk hk' hne p hp p' hp' rfl
  obtain ⟨w, rfl, -⟩ := (mem_itemsOf db).1 hk
  obtain ⟨w', rfl, -⟩ := (mem_itemsOf db).1 hk'
  obtain ⟨item, -, rfl⟩ := Option.map_eq_some_iff.1 hp
  obtain ⟨item', -, heq⟩ := Option.map_eq_some_iff.1 hp'
  cases heq
  exact hne rfl

/-- The items of a lesson in their order stand at the positions from 0 on. -/
theorem orderedItems_positions (h : Lined (view db) l m) :
    (orderedItems l db).map (fun p => p.2.position) = List.range m := by
  have sorted : ((orderedItems l db).map fun p => p.2.position).Pairwise (· ≤ ·) := by
    rw [List.pairwise_map]
    have : Std.Total fun a b : WordId × ItemRow => a.2.position ≤ b.2.position :=
      ⟨fun a b => Nat.le_total _ _⟩
    have : IsTrans (WordId × ItemRow) fun a b => a.2.position ≤ b.2.position :=
      ⟨fun _ _ _ => Nat.le_trans⟩
    exact List.pairwise_insertionSort _ _
  have nodup : ((orderedItems l db).map fun p => p.2.position).Nodup := by
    refine orderedItems_nodup.map_on ?_
    rintro ⟨w, item⟩ hp ⟨w', item'⟩ hp' heq
    obtain rfl := h.apart w w' item item' (mem_orderedItems.1 hp) (mem_orderedItems.1 hp') heq
    obtain rfl := Option.some.inj ((mem_orderedItems.1 hp).symm.trans (mem_orderedItems.1 hp'))
    rfl
  have perm : ((orderedItems l db).map fun p => p.2.position).Perm (List.range m) := by
    rw [List.perm_ext_iff_of_nodup nodup List.nodup_range]
    intro q
    rw [List.mem_map, List.mem_range]
    constructor
    · rintro ⟨⟨w, item⟩, hp, rfl⟩
      exact h.below w item (mem_orderedItems.1 hp)
    · intro hq
      obtain ⟨w, item, hitem, hpos⟩ := h.filled q hq
      exact ⟨(w, item), mem_orderedItems.2 hitem, hpos⟩
  exact perm.eq_of_pairwise (fun a b _ _ => Nat.le_antisymm) sorted List.pairwise_le_range

/-- The join drops no item whose word is there and learned. -/
theorem lessonItems_standing (hknown : ∀ w, ((view db).item l w).isSome = true →
      ((view db).word w).isSome = true ∧ ((view db).userWord u w).isSome = true) :
    (lessonItems u l db).map (fun item => (item.position, item.rating)) =
      (orderedItems l db).map fun p => (p.2.position, p.2.rating) := by
  have hall : ∀ p ∈ orderedItems l db, ((view db).item l p.1).isSome = true := fun p hp =>
    Option.isSome_iff_exists.2 ⟨p.2, mem_orderedItems.1 hp⟩
  unfold lessonItems
  generalize orderedItems l db = rows at hall
  induction rows with
  | nil => rfl
  | cons p rest ih =>
    obtain ⟨w, item⟩ := p
    obtain ⟨hword, hlearned⟩ := hknown w (hall _ List.mem_cons_self)
    obtain ⟨word, hword⟩ := Option.isSome_iff_exists.1 hword
    obtain ⟨state, hstate⟩ := Option.isSome_iff_exists.1 hlearned
    have hw : db.lookup (.word w) = some word := hword
    have hu : db.lookup (.userWord u w) = some state := hstate
    have hrest := ih fun p hp => hall p (List.mem_cons_of_mem _ hp)
    simp only [List.filterMap_cons, hw, hu, List.map_cons]
    exact congrArg _ hrest

/-- What is loaded of a lesson that stands as its row says is a valid state. -/
theorem valid_of_inStep {r : LessonRow} (h : InStep (view db) l r m)
    (hactive : r.status = .active) (hknown : ∀ w, ((view db).item l w).isSome = true →
      ((view db).word w).isSome = true ∧ ((view db).userWord u w).isSome = true) :
    validLessonState r.status r.currentIndex (lessonItems u l db) = true ∧
      (lessonItems u l db).length = m := by
  have standing := lessonItems_standing hknown
  have hpositions : (lessonItems u l db).map LessonItem.position = List.range m := by
    have hfst := congrArg (List.map Prod.fst) standing
    rw [List.map_map, List.map_map] at hfst
    exact hfst.trans (orderedItems_positions h.lined)
  have hlength : (lessonItems u l db).length = m := by
    simpa using congrArg List.length hpositions
  have hindex : r.currentIndex < m := by
    have hne : r.currentIndex ≠ m := by
      intro heq
      have hcompleted := h.completed.2 heq
      rw [hactive] at hcompleted
      cases hcompleted
    have := h.within
    omega
  have hrated : ∀ item index, (item, index) ∈ (lessonItems u l db).zipIdx →
      item.rating.isSome = decide (index < r.currentIndex) := by
    intro item index hmem
    have hat : (lessonItems u l db)[index]? = some item := List.mem_zipIdx_iff_getElem?.1 hmem
    have hpos : item.position = index := by
      have hget : ((lessonItems u l db).map LessonItem.position)[index]? = some item.position := by
        rw [List.getElem?_map, hat]
        rfl
      rw [hpositions] at hget
      have hlt : index < m := by
        by_contra hge
        rw [List.getElem?_eq_none (by simpa using hge)] at hget
        cases hget
      rw [List.getElem?_range hlt] at hget
      exact (Option.some.inj hget).symm
    have hpair : (item.position, item.rating) ∈
        (orderedItems l db).map fun p => (p.2.position, p.2.rating) := by
      rw [← standing]
      exact List.mem_map.2 ⟨item, List.mem_of_getElem? hat, rfl⟩
    obtain ⟨⟨w, row⟩, hrow, heq⟩ := List.mem_map.1 hpair
    obtain ⟨hposition, hrating⟩ := Prod.mk.inj heq
    have hiff := h.rated w row (mem_orderedItems.1 hrow)
    rw [← hrating, Bool.eq_iff_iff, hiff, decide_eq_true_eq, hposition, hpos]
  refine ⟨?_, hlength⟩
  have hsome : (lessonItems u l db).isEmpty = false := by
    rw [List.isEmpty_eq_false_iff, ← List.length_pos_iff, hlength]
    exact h.nonempty
  unfold validLessonState
  rw [hactive, hsome, hpositions, hlength]
  simpa [hindex] using fun item index hmem => hrated item index hmem

/-- Every active lesson can be loaded, with all the items stored for it. -/
def ActiveLessonsLoad (db : LearningDb) : Prop :=
  ∀ l r, (view db).lesson l = some r → r.status = .active →
    ∃ lesson, loadActive r.userId l db = .ok lesson ∧
      lesson.items.length = ((view db).itemWords l fun _ => true).ncard

theorem Sturdy.loads (hs : Sturdy (view db)) : ActiveLessonsLoad db := by
  intro l r hr hactive
  obtain ⟨m, hin⟩ := hs.inStep l r hr hactive
  obtain ⟨hvalid, hlength⟩ := valid_of_inStep hin hactive fun w => hs.known l r w hr hactive
  have hfound : (db.lookup (.lesson l)).filter (LessonRow.activeOf r.userId) = some r :=
    Option.filter_eq_some_iff.2 ⟨hr, activeOf_iff.2 ⟨rfl, hactive⟩⟩
  refine ⟨lessonSession r.userId l r db, ?_, ?_⟩
  · unfold loadActive
    rw [hfound]
    exact if_pos hvalid
  · exact hlength.trans hin.lined.total.symm

end Loading

section Runs
variable {c : LearningConfig}

/-- Deletions see every active lesson that uses their word. -/
def Careful (_ : Nat) (notes : List Note) (w _ : LearningWorld) : Prop :=
  ∀ n ∈ notes, SeesAll n (view w.db)

/-- As long as no deletion overlooks a lesson, every active lesson can be loaded. -/
theorem active_lessons_load (hdb : Sturdy (view db))
    (h : Run (program unicode) Careful (start db) c) : ActiveLessonsLoad c.world.db := by
  have sees : Thorough True Careful := fun _ i u k seen w w' hcareful =>
    (hcareful _ List.mem_cons_self).lessons
  obtain ⟨-, hist⟩ := run_history sees hdb.linked h
  have hsturdy : Sturdy (view c.world.db) := by
    refine @history_keeps _ _ _ (learningContract unicode True Careful) _ _
      (fun w => Sturdy (view w.db)) hist ?_ hdb
    intro w w' hc hw
    rcases commits_step hc with ⟨-, hsame⟩ | ⟨i, n, -, hstep, hcareful⟩
    · rw [hsame]
      exact hw
    · exact hw.step hstep (hcareful n List.mem_cons_self)
  exact hsturdy.loads

/-- The lessons that a deletion takes an item from and leaves active. -/
def overlooked (u : UserId) (w : WordId) (seen : List Key) (db : LearningDb) : List Key :=
  rowsWhere (lessons fun l r => r.status = .active && (db.lookup (.item l w)).isSome &&
    !(r.userId = u && Key.lesson l ∈ seen)) db

theorem seesAll_iff {u : UserId} {w : WordId} {seen : List Key} :
    overlooked u w seen db = [] ↔ SeesAll (.wordDeleted u w seen) (view db) := by
  rw [List.eq_nil_iff_forall_not_mem]
  constructor
  · rintro h u w seen ⟨⟩ l r hr hactive hitem
    by_contra hmissed
    refine h (.lesson l) (mem_rowsWhere.2 ⟨r, hr, ?_⟩)
    have hitem : (db.lookup (.item l w)).isSome = true := hitem
    simpa [lessons, hactive, hitem, imp_iff_not_or] using hmissed
  · intro h k hk
    obtain ⟨r, hr, hp⟩ := mem_rowsWhere.1 hk
    cases k with
    | lesson l =>
      simp only [lessons, Bool.and_eq_true, decide_eq_true_eq, Bool.not_eq_true',
        Bool.and_eq_false_iff, decide_eq_false_iff_not] at hp
      obtain ⟨⟨hactive, hitem⟩, hmissed⟩ := hp
      obtain ⟨howner, hmem⟩ := h u w seen rfl l r hr hactive hitem
      exact hmissed.elim (absurd howner) (absurd hmem)
    | _ => cases hp

instance (n : Note) (db : LearningDb) : Decidable (SeesAll n (view db)) :=
  match n with
  | .wordDeleted _ _ _ => decidable_of_iff _ seesAll_iff
  | .lessonCreated _ _ _ | .lessonResumed _ _ | .lessonDiscarded _ _ _ | .reviewed _ _ _
  | .wordReviewed _ _ _ | .loaded _ _ | .recovered _ _ | .bound _ _ _ | .insertLost _ _
  | .reloaded _ _ => isTrue (by rintro _ _ _ ⟨⟩)

instance (i : Nat) (notes : List Note) (w w' : LearningWorld) : Decidable (Careful i notes w w') :=
  inferInstanceAs (Decidable (∀ n ∈ notes, SeesAll n (view w.db)))

/-- A user with a word of their own and one of the catalogue. -/
def ownAndShared : LearningDb :=
  let own : WordRow :=
    { owner := some 1, source := CustomWords.customWordSource, topic := "", translation := "багаж" }
  let shared : WordRow := { source := "lexigo-travel-v1", topic := "Travel", translation := "билет" }
  let learned : UserWordRow :=
    { status := .new, easiness := 250, intervalDays := 0, repetitions := 0, dueAt := 0 }
  ((((∅ : LearningDb).insert (.word 1) own).insert (.word 2) shared).insert
    (.userWord 1 1) learned).insert (.userWord 1 2) learned

theorem ownAndShared_sturdy : Sturdy (view ownAndShared) := by
  refine ⟨fun l w h => ?_, fun l r hr => ?_, fun l r w hr => ?_⟩
  · exact absurd h Bool.false_ne_true
  · exact absurd hr (Option.some_ne_none r).symm
  · exact absurd hr (Option.some_ne_none r).symm

/-- The steps of a request that makes lesson `l` of both words. -/
def creation (i l : Nat) : List (Action Op) :=
  .start (.createLesson 1 bothWords) :: steps i ([1000, 0, 0, 0, 0, l] ++ List.replicate 19 0)

/-- Lesson 7 is there before the deletion of its first word looks for it. -/
def seenLesson : List (Action Op) :=
  creation 0 7 ++ .start (.deleteCustomWord 1 1) :: steps 1 (List.replicate 20 0)

theorem seenLesson_loads : ∃ c, exec (program ascii) Careful (start ownAndShared) seenLesson = some c ∧
    ActiveLessonsLoad c.world.db := by
  have deletes : (exec (program ascii) Careful (start ownAndShared) seenLesson).isSome = true := by
    decide +kernel
  obtain ⟨c, hc⟩ := Option.isSome_iff_exists.1 deletes
  exact ⟨c, hc, active_lessons_load ownAndShared_sturdy (.of_exec _ hc)⟩

/-- Lesson 7 comes to be when the deletion has looked for lessons already. -/
def missedLesson : List (Action Op) :=
  .start (.deleteCustomWord 1 1) :: steps 0 [1000, 0] ++ creation 1 7 ++ steps 0 (List.replicate 15 0)

/-- Its user keeps an active lesson that no longer begins with its first item. -/
theorem missedLesson_stuck : ¬ ∀ (db : LearningDb) (c : LearningConfig), Sturdy (view db) →
    Run (program ascii) (fun _ _ _ _ => True) (start db) c → ActiveLessonsLoad c.world.db := by
  intro always
  have breaks : (exec (program ascii) (fun _ _ _ _ => True) (start ownAndShared) missedLesson).map
      (fun c => ((c.world.db.lookup (.lesson 7)).map fun r => (r.userId, r.status),
        (loadActive 1 7 c.world.db).toBool)) = some (some (1, .active), false) := by
    decide +kernel
  obtain ⟨c, hc, heq⟩ := Option.map_eq_some_iff.1 breaks
  obtain ⟨hrow, hload⟩ := Prod.mk.inj heq
  obtain ⟨r, hr, howner⟩ := Option.map_eq_some_iff.1 hrow
  obtain ⟨howner, hactive⟩ : r.userId = 1 ∧ r.status = .active := by simpa using howner
  obtain ⟨lesson, hlesson, -⟩ := always ownAndShared c ownAndShared_sturdy (.of_exec _ hc) 7 r hr hactive
  rw [howner] at hlesson
  rw [hlesson] at hload
  cases hload

end Runs

end LoadableLessons
