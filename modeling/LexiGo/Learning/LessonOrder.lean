import LexiGo.Learning.LearningRuns
import LexiGo.Learning.RequestNotes

/-! The course of a lesson: its items are taken one after the other, each once, and
the row of the lesson says how far it has come. No request but a review moves it
on, and none leaves a change behind that the version does not tell of. -/
namespace LessonOrder
open RowStore TransactionProgram Interleaving CommitContract CommitNotes RunSoundness
open AnswerJudgement Scheduler LearningSchema LessonRepository LessonCreation
open LearningService LearningMachine LearningContract LearningSoundness LearningRuns RequestNotes
open GoText Function

section Positions
variable {s s' : Learning} {l : LessonId} {n m : Nat}

/-- The items of a lesson stand at the positions below `n`, one at each. -/
structure Lined (s : Learning) (l : LessonId) (n : Nat) : Prop where
  below : ∀ w item, s.item l w = some item → item.position < n
  filled : ∀ p, p < n → ∃ w item, s.item l w = some item ∧ item.position = p
  apart : ∀ w w' item item', s.item l w = some item → s.item l w' = some item' →
    item.position = item'.position → w = w'

/-- The items rated are those below `m`. -/
def RatedBelow (s : Learning) (l : LessonId) (m : Nat) : Prop :=
  ∀ w item, s.item l w = some item → (item.rating.isSome = true ↔ item.position < m)

/-- As many words as there are positions that `p` admits. -/
theorem Lined.ncard (h : Lined s l n) {p : ItemRow → Bool} {a b : Nat} (hb : b ≤ n)
    (hp : ∀ w item, s.item l w = some item →
      (p item = true ↔ a ≤ item.position ∧ item.position < b)) :
    (s.itemWords l p).ncard = b - a := by
  let place (w : WordId) : Nat := ((s.item l w).map ItemRow.position).getD 0
  have image : place '' s.itemWords l p = (Finset.Ico a b : Set Nat) := by
    ext q
    simp only [Set.mem_image, Finset.coe_Ico, Set.mem_Ico, Learning.itemWords, Set.mem_ofPred_eq]
    constructor
    · rintro ⟨w, ⟨item, hitem, hadmits⟩, rfl⟩
      simpa [place, hitem] using (hp w item hitem).1 hadmits
    · intro hq
      obtain ⟨w, item, hitem, rfl⟩ := h.filled q (by omega)
      exact ⟨w, ⟨item, hitem, (hp w item hitem).2 hq⟩, by simp [place, hitem]⟩
  have injective : Set.InjOn place (s.itemWords l p) := by
    rintro w ⟨item, hitem, -⟩ w' ⟨item', hitem', -⟩ heq
    exact h.apart w w' item item' hitem hitem' (by simpa [place, hitem, hitem'] using heq)
  rw [← injective.ncard_image, image, Set.ncard_coe_finset, Nat.card_Ico]

theorem Lined.total (h : Lined s l n) : (s.progress l).totalItems = n := by
  have hcount := h.ncard (le_refl n) (p := fun _ => true) (a := 0) fun w item hitem =>
    iff_of_true rfl ⟨Nat.zero_le _, h.below w item hitem⟩
  simpa [Learning.progress] using hcount

theorem Lined.remaining (h : Lined s l n) (hr : RatedBelow s l m) :
    (s.progress l).remaining = n - m := by
  refine h.ncard (le_refl n) fun w item hitem => ?_
  have hrated := hr w item hitem
  have hbelow := h.below w item hitem
  rw [← Option.not_isSome, Bool.not_eq_true', ← Bool.not_eq_true, hrated]
  omega

/-- The first item left is the one that the index names. -/
theorem Lined.nextIndex (h : Lined s l n) (hr : RatedBelow s l m) (hm : m < n) :
    (s.progress l).nextIndex = m := by
  have left : ∀ w item, s.item l w = some item → (item.rating.isNone = true ↔ m ≤ item.position) := by
    intro w item hitem
    rw [← Option.not_isSome, Bool.not_eq_true', ← Bool.not_eq_true, hr w item hitem]
    omega
  apply le_antisymm
  · obtain ⟨w, item, hitem, hp⟩ := h.filled m hm
    exact Nat.sInf_le ⟨w, item, hitem, (left w item hitem).2 (le_of_eq hp.symm), hp⟩
  · obtain ⟨w, item, hitem, hp⟩ := h.filled m hm
    have some : {q | ∃ w item, s.item l w = some item ∧ item.rating.isNone = true ∧
        item.position = q}.Nonempty :=
      ⟨m, w, item, hitem, (left w item hitem).2 (le_of_eq hp.symm), hp⟩
    obtain ⟨w', item', hitem', hnone, hq⟩ := Nat.sInf_mem some
    have := (left w' item' hitem').1 hnone
    simp only [Learning.progress]
    omega

theorem Lined.completed (h : Lined s l n) (hr : RatedBelow s l m) (hm : m ≤ n) :
    (s.progress l).completed = decide (m = n) := by
  unfold LessonProgress.completed
  rw [h.remaining hr]
  by_cases heq : m = n
  · simp [heq]
  · simp only [heq, decide_false, decide_eq_false_iff_not]
    omega

theorem Lined.index (h : Lined s l n) (hr : RatedBelow s l m) (hm : m ≤ n) :
    (s.progress l).index = m := by
  unfold LessonProgress.index
  rw [h.completed hr hm]
  by_cases heq : m = n
  · simp [heq, h.total]
  · rw [if_neg (by simpa using heq)]
    exact h.nextIndex hr (by omega)

end Positions

/-- A lesson whose row says how far it has come. -/
structure InStep (s : Learning) (l : LessonId) (r : LessonRow) (n : Nat) : Prop where
  lined : Lined s l n
  nonempty : 0 < n
  within : r.currentIndex ≤ n
  rated : RatedBelow s l r.currentIndex
  completed : r.status = .completed ↔ r.currentIndex = n

/-- All lessons say how far they have come, and of each user one is active at most. -/
structure Orderly (s : Learning) : Prop where
  linked : Linked s
  inStep : ∀ l r, s.lesson l = some r → ∃ n, InStep s l r n
  single : ∀ u l l' r r', s.lesson l = some r → s.lesson l' = some r' → r.activeOf u = true →
    r'.activeOf u = true → l = l'

/-- The commits that move a lesson. -/
def changesLesson : Note → Bool
  | .lessonCreated _ _ _ | .lessonDiscarded _ _ _ | .reviewed _ _ _ => true
  | _ => false

def SameItems (s s' : Learning) (l : LessonId) : Prop := ∀ w, s'.item l w = s.item l w

/-- What one commit makes of a lesson, if it deletes no word. -/
inductive Moves (n : Note) (s s' : Learning) (l : LessonId) (r' : LessonRow) : Prop
  | stays : s.lesson l = some r' → SameItems s s' l → Moves n s s' l r'
  | created {u request now selected} : n = .lessonCreated u l (selected.map Prod.fst) →
      s.lesson l = none → selected ≠ [] → (selected.map Prod.fst).Nodup →
      (∀ w, s'.item l w = placed 0 selected w) → r' = newLesson u request now → Moves n s s' l r'
  | discarded {r now} : changesLesson n = true → s.lesson l = some r → r.status = .active →
      SameItems s s' l → r' = r.discard now → Moves n s s' l r'
  | reviewed {call result row r item now} : n = .reviewed call result row → call.lessonId = l →
      s.lesson l = some r → r.activeOf call.userId = true → s.item l call.wordId = some item →
      item.rating = none → item.position = r.currentIndex →
      s'.item l = update (s.item l) call.wordId (some (item.rate call.request.rating now)) →
      r' = r.advance (s'.progress l).index (s'.progress l).completed now → Moves n s s' l r'

variable {unicode : Unicode} {n : Note} {s s' : Learning}

theorem step_moves (h : Step unicode True n s s') (hn : ∀ u w seen, n ≠ .wordDeleted u w seen)
    {l : LessonId} {r' : LessonRow} (hr' : s'.lesson l = some r') : Moves n s s' l r' := by
  cases h with
  | @lessonCreated s u l' request now selected hfree hsome hnodup _ _ =>
    by_cases hl : l = l'
    · subst hl
      have hrow : r' = newLesson u request now := by simpa using hr'.symm
      exact .created rfl hfree hsome hnodup (fun w => if_pos rfl) hrow
    · have hitems : ∀ w, (if l = l' then placed 0 selected w else s.item l w) = s.item l w :=
        fun w => if_neg hl
      have hold : s.discardActive u now l = some r' := by simpa [update_of_ne hl] using hr'
      obtain ⟨r, hr, rfl⟩ := Option.map_eq_some_iff.mp hold
      by_cases hactive : r.activeOf u = true
      · rw [if_pos hactive]
        exact .discarded rfl hr (activeOf_iff.mp hactive).2 hitems rfl
      · rw [if_neg hactive]
        exact .stays hr hitems
  | @lessonDiscarded s u l' r now hr hactive =>
    by_cases hl : l = l'
    · subst hl
      have hrow : r' = r.discard now := by simpa using hr'.symm
      exact .discarded rfl hr (activeOf_iff.mp hactive).2 (fun _ => rfl) hrow
    · exact .stays (by simpa [update_of_ne hl] using hr') fun _ => rfl
  | @reviewed s s' call lesson item a now e progress hl hactive _ _ hitem hnone hpos _ hprogress heq =>
    by_cases hne : l = call.lessonId
    · subst hne
      have hitems : s'.item call.lessonId = update (s.item call.lessonId) call.wordId
          (some (item.rate call.request.rating now)) := by
        funext w
        rw [heq]
        by_cases hw : w = call.wordId
        · simp [hw]
        · rw [update_of_ne hw]
          exact updateAt_ne _ _ fun h => hw h.2
      have hrow : r' = lesson.advance (s'.progress call.lessonId).index
          (s'.progress call.lessonId).completed now := by
        rw [← hprogress trivial]
        rw [heq] at hr'
        simpa using hr'.symm
      exact .reviewed rfl rfl hl hactive hitem hnone hpos hitems hrow
    · rw [heq] at hr'
      refine .stays (by simpa [update_of_ne hne] using hr') fun w => ?_
      rw [heq]
      exact updateAt_ne _ _ fun h => hne h.1
  | @wordDeleted s u w row seen now _ _ => exact absurd rfl (hn u w seen)
  | _ => exact .stays hr' fun _ => rfl

theorem Lined.congr {l : LessonId} {m : Nat} (h : Lined s l m) (hsame : SameItems s s' l) :
    Lined s' l m := by
  refine ⟨fun w item hi => ?_, fun p hp => ?_, fun w w' item item' hi hi' => ?_⟩
  · exact h.below w item (hsame w ▸ hi)
  · obtain ⟨w, item, hi, hpos⟩ := h.filled p hp
    exact ⟨w, item, (hsame w).trans hi, hpos⟩
  · exact h.apart w w' item item' (hsame w ▸ hi) (hsame w' ▸ hi')

/-- A new lesson has an item for each word that was selected, in their order. -/
theorem lined_placed {selected : Selection} {l : LessonId} (hnodup : (selected.map Prod.fst).Nodup)
    (hitems : ∀ w, s.item l w = placed 0 selected w) : Lined s l selected.length := by
  have place : ∀ w item, s.item l w = some item →
      (selected.map Prod.fst)[item.position]? = some w := by
    intro w item hi
    simpa using (placed_position ((hitems w).symm.trans hi)).2.2
  refine ⟨fun w item hi => ?_, fun p hp => ?_, fun w w' item item' hi hi' heq => ?_⟩
  · have hlt := (List.getElem?_eq_some_iff.1 (place w item hi)).1
    simpa using hlt
  · obtain ⟨w, hw⟩ : ∃ w, (selected.map Prod.fst)[p]? = some w :=
      ⟨_, List.getElem?_eq_getElem (by simpa using hp)⟩
    obtain ⟨item, hi, hpos⟩ := @placed_of_getElem? 0 selected w hnodup p hw
    exact ⟨w, item, (hitems w).trans hi, by simpa using hpos⟩
  · have hw := place w item hi
    rw [heq, place w' item' hi'] at hw
    exact (Option.some.inj hw).symm

/-- Rating the item whose turn it is leaves the items where they are. -/
theorem Lined.rate {l : LessonId} {m : Nat} {w : WordId} {item : ItemRow} {rating : Rating}
    {now : Instant} (h : Lined s l m) (hitem : s.item l w = some item)
    (hs' : s'.item l = update (s.item l) w (some (item.rate rating now))) : Lined s' l m := by
  have back : ∀ w' item', s'.item l w' = some item' →
      ∃ old, s.item l w' = some old ∧ old.position = item'.position := by
    intro w' item' hi
    rw [hs'] at hi
    by_cases hw : w' = w
    · subst hw
      rw [update_self] at hi
      cases hi
      exact ⟨item, hitem, rfl⟩
    · rw [update_of_ne hw] at hi
      exact ⟨item', hi, rfl⟩
  refine ⟨fun w' item' hi => ?_, fun p hp => ?_, fun w₁ w₂ item₁ item₂ h₁ h₂ heq => ?_⟩
  · obtain ⟨old, hold, hpos⟩ := back w' item' hi
    exact hpos ▸ h.below w' old hold
  · obtain ⟨w', old, hold, hpos⟩ := h.filled p hp
    by_cases hw : w' = w
    · subst hw
      obtain rfl : old = item := Option.some.inj (hold.symm.trans hitem)
      exact ⟨w', old.rate rating now, by rw [hs', update_self], hpos⟩
    · exact ⟨w', old, by rw [hs', update_of_ne hw, hold], hpos⟩
  · obtain ⟨old₁, hold₁, hpos₁⟩ := back w₁ item₁ h₁
    obtain ⟨old₂, hold₂, hpos₂⟩ := back w₂ item₂ h₂
    exact h.apart w₁ w₂ old₁ old₂ hold₁ hold₂ (by rw [hpos₁, hpos₂, heq])

theorem RatedBelow.rate {l : LessonId} {m : Nat} {w : WordId} {item : ItemRow} {rating : Rating}
    {now : Instant} {k : Nat} (h : RatedBelow s l m) (lined : Lined s l k)
    (hitem : s.item l w = some item) (hpos : item.position = m)
    (hs' : s'.item l = update (s.item l) w (some (item.rate rating now))) :
    RatedBelow s' l (m + 1) := by
  intro w' item' hi
  rw [hs'] at hi
  by_cases hw : w' = w
  · subst hw
    rw [update_self] at hi
    cases hi
    exact iff_of_true rfl (by rw [show (item.rate rating now).position = item.position from rfl]; omega)
  · rw [update_of_ne hw] at hi
    rw [h w' item' hi]
    have hne : item'.position ≠ m := by
      intro heq
      exact hw (lined.apart w' w item' item hi hitem (heq.trans hpos.symm))
    omega

/-- Whatever a commit makes of a lesson, the lesson still says how far it has come. -/
theorem Moves.inStep {l : LessonId} {r' : LessonRow} (h : Moves n s s' l r')
    (hs : ∀ r, s.lesson l = some r → r = r' ∨ r.status = .active → ∃ m, InStep s l r m) :
    ∃ m, InStep s' l r' m := by
  cases h with
  | stays hr hsame =>
    obtain ⟨m, h⟩ := hs r' hr (.inl rfl)
    exact ⟨m, h.lined.congr hsame, h.nonempty, h.within, fun w item hi => h.rated w item (hsame w ▸ hi),
      h.completed⟩
  | @created u request now selected _ _ hsome hnodup hitems hr =>
    subst hr
    have lined := lined_placed hnodup hitems
    have nonempty : 0 < selected.length := List.length_pos_iff.mpr hsome
    refine ⟨_, lined, nonempty, Nat.zero_le _, fun w item hi => ?_, ?_⟩
    · have hnone := (placed_position ((hitems w).symm.trans hi)).2.1
      simp [hnone, newLesson]
    · simp only [newLesson]
      constructor
      · intro hstatus
        cases hstatus
      · intro hlength
        omega
  | @discarded r now _ hr hactive hsame heq =>
    subst heq
    obtain ⟨m, h⟩ := hs r hr (.inr hactive)
    refine ⟨m, h.lined.congr hsame, h.nonempty, h.within, fun w item hi => h.rated w item (hsame w ▸ hi), ?_⟩
    have hcompleted := h.completed
    rw [hactive] at hcompleted
    refine iff_of_false (by simp [LessonRow.discard]) fun hindex => ?_
    cases hcompleted.2 hindex
  | @reviewed call result row r item now _ _ hr hactive hitem _ hpos hitems heq =>
    obtain ⟨m, h⟩ := hs r hr (.inr (activeOf_iff.mp hactive).2)
    have hlt : r.currentIndex < m := hpos ▸ h.lined.below _ _ hitem
    have lined := h.lined.rate hitem hitems
    have rated := h.rated.rate h.lined hitem hpos hitems
    rw [lined.index rated hlt, lined.completed rated hlt] at heq
    subst heq
    refine ⟨m, lined, h.nonempty, hlt, rated, ?_⟩
    by_cases hlast : r.currentIndex + 1 = m
    · simp [LessonRow.advance, hlast]
    · simp [LessonRow.advance, hlast]

/-- An active lesson was active before, or it is the one that its user has just made. -/
theorem step_active (h : Step unicode True n s s') {u : UserId} {l : LessonId} {r' : LessonRow}
    (hr' : s'.lesson l = some r') (hu : r'.activeOf u = true) :
    (∃ words, n = .lessonCreated u l words) ∨
      (∀ l' words, n ≠ .lessonCreated u l' words) ∧
        ∃ r, s.lesson l = some r ∧ r.activeOf u = true := by
  by_cases hn : ∃ l' words, n = .lessonCreated u l' words
  · obtain ⟨l', words, rfl⟩ := hn
    cases h with
    | @lessonCreated s u l' request now selected hfree _ _ _ _ =>
      by_cases hl : l = l'
      · subst hl
        exact .inl ⟨_, rfl⟩
      · have hold : s.discardActive u now l = some r' := by simpa [update_of_ne hl] using hr'
        obtain ⟨r, hr, rfl⟩ := Option.map_eq_some_iff.mp hold
        split_ifs at hu with hactive
        · simp at hu
        · exact absurd hu hactive
  · push Not at hn
    exact .inr ⟨hn, h.active_back hn hr' hu⟩

theorem Orderly.step (hs : Orderly s) (h : Step unicode True n s s')
    (hn : ∀ u w seen, n ≠ .wordDeleted u w seen) : Orderly s' := by
  refine ⟨h.linked hs.linked, fun l r' hr' => (step_moves h hn hr').inStep fun r hr _ => hs.inStep l r hr, ?_⟩
  intro u l l' r r' hr hr' hu hu'
  rcases step_active h hr hu with ⟨words, rfl⟩ | ⟨hnone, old, hold, hactive⟩
  · rcases step_active h hr' hu' with ⟨words', heq⟩ | ⟨hnone, -⟩
    · cases heq
      rfl
    · exact absurd rfl (hnone l words)
  · rcases step_active h hr' hu' with ⟨words', rfl⟩ | ⟨-, old', hold', hactive'⟩
    · exact absurd rfl (hnone l' words')
    · exact hs.single u l l' old old' hold hold' hactive hactive'

section Commits

/-- What a review that commits has found of its lesson. -/
theorem step_reviewed {call : ReviewCall} {result : LessonReviewResult} {row : UserWordRow}
    (h : Step unicode True (.reviewed call result row) s s') :
    ∃ r item now, s.lesson call.lessonId = some r ∧ r.activeOf call.userId = true ∧
      r.version = call.request.lessonVersion ∧ s.item call.lessonId call.wordId = some item ∧
      item.rating = none ∧ item.position = r.currentIndex ∧
      s'.item call.lessonId call.wordId = some (item.rate call.request.rating now) := by
  cases h with
  | @reviewed s s' call lesson item a now e progress hl hactive hversion _ hitem hnone hpos _ _ heq =>
    refine ⟨lesson, item, now, hl, hactive, hversion, hitem, hnone, hpos, ?_⟩
    rw [heq]
    simp

/-- The tables that a review or a change of a lesson may touch. -/
structure Unchanged (s s' : Learning) : Prop where
  lesson : s'.lesson = s.lesson
  item : s'.item = s.item
  userWord : s'.userWord = s.userWord
  event : s'.event = s.event

theorem Unchanged.refl (s : Learning) : Unchanged s s := ⟨rfl, rfl, rfl, rfl⟩

theorem step_silent (h : Step unicode True n s s') (hn : ∀ u w seen, n ≠ .wordDeleted u w seen)
    (hquiet : changesLesson n = false) : s'.lesson = s.lesson ∧ s'.item = s.item := by
  cases h with
  | lessonCreated | lessonDiscarded | reviewed => cases hquiet
  | @wordDeleted s u w row seen now _ _ => exact absurd rfl (hn u w seen)
  | _ => exact ⟨rfl, rfl⟩

/-- The event that a commit adds. -/
def addedEvent : Note → Option EventId
  | .reviewed _ result _ => some result.reviewEventId
  | .wordReviewed _ _ e => some e
  | _ => none

/-- The event that a commit adds for an item of a lesson. -/
def producedEvent (l : LessonId) (w : WordId) : Note → Option EventId
  | .reviewed call result _ =>
    if call.lessonId = l ∧ call.wordId = w then some result.reviewEventId else none
  | _ => none

theorem step_events (h : Step unicode True n s s') (hn : ∀ u w seen, n ≠ .wordDeleted u w seen)
    (e : EventId) : (s'.event e).isSome = true ↔ (s.event e).isSome = true ∨ addedEvent n = some e := by
  cases h with
  | @reviewed s s' call lesson item a now e' progress _ _ _ _ _ _ _ _ _ heq =>
    rw [heq]
    by_cases he : e = e'
    · simp [he, addedEvent, lessonReviewResult, Attempt.result]
    · simp [update_of_ne he, addedEvent, lessonReviewResult, Attempt.result, Ne.symm he]
  | @wordReviewed s u w request a now e' _ =>
    by_cases he : e = e'
    · simp [he, addedEvent]
    · simp [update_of_ne he, addedEvent, Ne.symm he]
  | @wordDeleted s u w row seen now _ _ => exact absurd rfl (hn u w seen)
  | _ => simp [addedEvent]

/-- An item that is rated stays so, and no review takes it up again. -/
theorem step_rated (hs : Orderly s) (h : Step unicode True n s s')
    (hn : ∀ u w seen, n ≠ .wordDeleted u w seen) {l : LessonId} {w : WordId} {item : ItemRow}
    (hitem : s.item l w = some item) (hrated : item.rating.isSome = true) :
    s'.item l w = some item ∧ producedEvent l w n = none := by
  have hlesson : (s.lesson l).isSome = true := hs.linked l w (by rw [hitem]; rfl)
  obtain ⟨r', hr'⟩ := Option.isSome_iff_exists.1 (h.lesson_stays hlesson)
  constructor
  · cases step_moves h hn hr' with
    | stays _ hsame | discarded _ _ _ hsame => exact (hsame w).trans hitem
    | created _ hfree => simp [hfree] at hlesson
    | @reviewed call result row r item' now _ _ _ _ hitem' hnone _ hitems _ =>
      have hw : w ≠ call.wordId := by
        rintro rfl
        rw [hitem] at hitem'
        cases hitem'
        simp [hnone] at hrated
      rw [hitems, update_of_ne hw, hitem]
  · cases n with
    | reviewed call result row =>
      refine if_neg ?_
      rintro ⟨rfl, rfl⟩
      obtain ⟨-, item', -, -, -, -, hitem', hnone, -, -⟩ := step_reviewed h
      rw [hitem] at hitem'
      cases hitem'
      simp [hnone] at hrated
    | _ => rfl

/-- A commit raises the version of each lesson that it changes by one. -/
theorem step_raises (h : Step unicode True n s s') (hn : ∀ u w seen, n ≠ .wordDeleted u w seen)
    {l : LessonId} {r : LessonRow} (hr : s.lesson l = some r) :
    ∃ r', s'.lesson l = some r' ∧ (r' = r ∧ SameItems s s' l ∨ r'.version = r.version + 1) := by
  obtain ⟨r', hr'⟩ := Option.isSome_iff_exists.1 (h.lesson_stays (by rw [hr]; rfl))
  refine ⟨r', hr', ?_⟩
  cases step_moves h hn hr' with
  | stays hold hsame => exact .inl ⟨Option.some.inj (hold.symm.trans hr), hsame⟩
  | created _ hfree => simp [hfree] at hr
  | @discarded old now _ hold _ _ heq =>
    obtain rfl : old = r := Option.some.inj (hold.symm.trans hr)
    exact .inr (heq ▸ rfl)
  | @reviewed call result row old item now _ _ hold _ _ _ _ _ heq =>
    obtain rfl : old = r := Option.some.inj (hold.symm.trans hr)
    exact .inr (heq ▸ rfl)

end Commits

section Runs
variable {db : LearningDb}

abbrev LessonConfig := Config Row Note LessonOp Response

def fresh (db : LearningDb) : LessonConfig := ⟨⟨db, []⟩, []⟩

/-- Runs of any requests but those that delete a word, in any order of their steps. -/
abbrev LessonRun (unicode : Unicode) : LessonConfig → LessonConfig → Prop :=
  Run (lessonProgram unicode) fun _ _ _ _ => True

/-- Commits that delete no word. -/
def Spares (_ : Nat) (notes : List Note) (_ _ : LearningWorld) : Prop :=
  ∀ u w seen, Note.wordDeleted u w seen ∉ notes

variable {c c' : LessonConfig} {allow : Nat → List Note → LearningWorld → LearningWorld → Prop}

abbrev LessonTracked (unicode : Unicode) (c : LessonConfig) : Prop :=
  Tracked (fun op : LessonOp => Told unicode op.1) (fun op => Reported unicode op.1) c

theorem run_tracked (h : Run (lessonProgram unicode) allow (fresh db) c) : LessonTracked unicode c :=
  (tracked_start db).run (fun op => program_follows op.1) h

theorem told_spares {op : LessonOp} {notes past : List Note} (h : Told unicode op.1 notes past)
    {u : UserId} {w : WordId} {seen : List Key} : Note.wordDeleted u w seen ∉ notes := by
  intro hmem
  obtain ⟨op, hop⟩ := op
  cases op with
  | createLesson u' request =>
    rcases h with rfl | ⟨-, l, rfl | ⟨words, rfl⟩⟩ <;> simp at hmem
  | activeLesson u' =>
    obtain rfl : notes = [] := h
    simp at hmem
  | discardLesson u' l version =>
    obtain ⟨-, rfl⟩ := h
    simp at hmem
  | reviewLessonWord raw =>
    obtain ⟨call, n, -, rfl, hcourse⟩ := h
    obtain rfl : Note.wordDeleted u w seen = n := by simpa using hmem
    cases hcourse
  | reviewWord u' w' request =>
    obtain ⟨-, e, rfl⟩ := h
    simp at hmem
  | deleteCustomWord | deleteCustomPhrase => cases hop

/-- Requests that delete no word make no commit that does. -/
theorem run_spares (h : LessonRun unicode (fresh db) c) :
    Run (lessonProgram unicode) Spares (fresh db) c := by
  induction h with
  | refl => exact .refl _
  | tail a hrun hs _ ih =>
    refine .tail a ih hs fun i notes hpublished u w seen => ?_
    obtain ⟨p, -, htold⟩ := (run_tracked hrun).published hpublished
    exact told_spares htold

theorem lesson_sound : Sound (learningContract unicode True Spares) (lessonProgram unicode)
    (fun _ _ _ _ _ => True) := by
  intro op i w _
  have sees : True → ∀ i u k seen w w', Spares i [.wordDeleted u k seen] w w' →
      SeesLessons (.wordDeleted u k seen) (view w.db) :=
    fun _ _ u k seen _ _ h => absurd (List.mem_singleton_self _) (h u k seen)
  refine wp_mono ?_ (program_keeps op.1 sees i w)
  intro _ _ _ _ _ _ _
  trivial

/-- The events that reviews of an item have produced in a lesson. -/
def lessonEvents (l : LessonId) (w : WordId) (log : List (Nat × Note)) : List EventId :=
  log.filterMap fun entry => producedEvent l w entry.2

def addedEvents (log : List (Nat × Note)) : List EventId :=
  log.filterMap fun entry => addedEvent entry.2

/-- What a run has made of the tables, by its log. -/
structure Accounted (s₀ : Learning) (w : LearningWorld) : Prop where
  orderly : Orderly (view w.db)
  once : ∀ l k, lessonEvents l k w.log = [] ∨ ∃ e item, lessonEvents l k w.log = [e] ∧
    (view w.db).item l k = some item ∧ item.rating.isSome = true
  events : ∀ e, ((view w.db).event e).isSome = true ↔
    (s₀.event e).isSome = true ∨ e ∈ addedEvents w.log

theorem accounted_start {w : LearningWorld} (hs : Orderly (view w.db)) (hlog : w.log = []) :
    Accounted (view w.db) w := by
  refine ⟨hs, fun l k => .inl ?_, fun e => ?_⟩
  · rw [hlog]
    rfl
  · simp [hlog, addedEvents]

theorem commits_spared {w w' : LearningWorld}
    (h : Commits (learningContract unicode True Spares) w w') :
    (w'.log = w.log ∧ view w'.db = view w.db) ∨
      ∃ i n, w'.log = (i, n) :: w.log ∧ Step unicode True n (view w.db) (view w'.db) ∧
        ∀ u k seen, n ≠ .wordDeleted u k seen := by
  rcases commits_step h with hsame | ⟨i, n, hlog, hstep, hallow⟩
  · exact .inl hsame
  · refine .inr ⟨i, n, hlog, hstep, ?_⟩
    rintro u k seen rfl
    exact hallow u k seen List.mem_cons_self

theorem Accounted.commit {s₀ : Learning} {w w' : LearningWorld} (hw : Accounted s₀ w)
    (h : Commits (learningContract unicode True Spares) w w') : Accounted s₀ w' := by
  rcases commits_spared h with ⟨hlog, hsame⟩ | ⟨i, n, hlog, hstep, hn⟩
  · exact ⟨hsame ▸ hw.orderly, fun l k => by rw [hlog, hsame]; exact hw.once l k,
      fun e => by rw [hlog, hsame]; exact hw.events e⟩
  · refine ⟨hw.orderly.step hstep hn, fun l k => ?_, fun e => ?_⟩
    · have hevents : lessonEvents l k w'.log =
          (producedEvent l k n).toList ++ lessonEvents l k w.log := by
        rw [hlog, lessonEvents, List.filterMap_cons]
        cases producedEvent l k n <;> rfl
      rcases hw.once l k with hnone | ⟨e, item, hone, hitem, hrated⟩
      · cases n with
        | reviewed call result row =>
          by_cases hmine : call.lessonId = l ∧ call.wordId = k
          · obtain ⟨rfl, rfl⟩ := hmine
            obtain ⟨r, item, now, -, -, -, -, -, -, hitem⟩ := step_reviewed hstep
            refine .inr ⟨result.reviewEventId, _, ?_, hitem, rfl⟩
            rw [hevents, hnone]
            simp [producedEvent]
          · refine .inl ?_
            rw [hevents, hnone]
            simp [producedEvent, hmine]
        | _ => exact .inl (hevents.trans hnone)
      · obtain ⟨hitem', hproduced⟩ := step_rated hw.orderly hstep hn hitem hrated
        refine .inr ⟨e, item, ?_, hitem', hrated⟩
        rw [hevents, hproduced, hone]
        rfl
    · have hadded : addedEvents w'.log = (addedEvent n).toList ++ addedEvents w.log := by
        rw [hlog, addedEvents, List.filterMap_cons]
        cases addedEvent n <;> rfl
      rw [step_events hstep hn e, hw.events e, hadded, List.mem_append, Option.mem_toList,
        or_assoc, or_comm (a := e ∈ addedEvents w.log)]

theorem run_accounted (hdb : Orderly (view db)) (h : LessonRun unicode (fresh db) c) :
    Safe (learningContract unicode True Spares) (fun _ _ _ _ _ => True) c ∧
      Accounted (view db) c.world := by
  obtain ⟨safe, hist⟩ := run_sound lesson_sound (run_spares h) (safe_init hdb.linked)
  have hstart : Accounted (view (fresh db).world.db) (fresh db).world := accounted_start hdb rfl
  exact ⟨safe, history_keeps hist (fun _ _ hc hv => hv.commit hc) hstart⟩

/-- A request changes lessons with one commit at most. -/
theorem noted_once {op : Op} {past : List Note} (h : Noted (Told unicode op) past) :
    (past.filter changesLesson).length ≤ 1 := by
  induction h with
  | start => exact Nat.zero_le _
  | @commit notes past htold hpast ih =>
    cases op with
    | createLesson u request =>
      rcases htold with rfl | ⟨rfl, l, rfl | ⟨words, rfl⟩⟩
      · exact ih
      · exact Nat.zero_le _
      · exact le_refl _
    | activeLesson u =>
      obtain rfl : notes = [] := htold
      exact ih
    | discardLesson u l version =>
      obtain ⟨rfl, rfl⟩ := htold
      exact le_refl _
    | reviewLessonWord raw =>
      obtain ⟨call, n, -, rfl, hcourse⟩ := htold
      have once : ∀ {past response}, Obtained unicode call response past →
          (past.filter changesLesson).length ≤ 1 := by
        intro past response hobtained
        cases hobtained with
        | reviewed _ => exact le_refl _
        | recovered _ _ => exact Nat.zero_le _
      cases hcourse with
      | keyless _ | reviewed _ => exact le_refl _
      | loaded _ | recovered _ => exact Nat.zero_le _
      | bound hobtained | insertLost hobtained | reloaded hobtained =>
        have hone := once hobtained
        exact hone
    | reviewWord u w request =>
      obtain ⟨rfl, e, rfl⟩ := htold
      exact Nat.zero_le _
    | deleteCustomWord u w | deleteCustomPhrase u w =>
      obtain ⟨rfl, seen, rfl⟩ := htold
      exact Nat.zero_le _

/-- A request that changes a lesson names it as it stands: its version, and for a review
the item whose turn it is. -/
def Due (s : Learning) : Op → Prop
  | .reviewLessonWord call => ∃ r item, s.lesson call.lessonId = some r ∧
      r.activeOf call.userId = true ∧ r.version = call.request.lessonVersion ∧
      s.item call.lessonId call.wordId = some item ∧ item.rating = none ∧
      item.position = r.currentIndex
  | .discardLesson u l version => ∃ r, s.lesson l = some r ∧ r.activeOf u = true ∧ r.version = version
  | _ => True

/-- A commit of a review or of a discard that is not due leaves the tables alone. -/
theorem step_idle {op : Op} {past : List Note} (h : Step unicode True n s s')
    (htold : Told unicode op [n] past) (hdue : ¬ Due s op) : Unchanged s s' := by
  cases op with
  | discardLesson u l version =>
    obtain ⟨-, hn⟩ := htold
    obtain rfl : n = .lessonDiscarded u l version := by simpa using hn
    cases h with
    | lessonDiscarded hr hactive => exact absurd ⟨_, hr, hactive, rfl⟩ hdue
  | reviewLessonWord raw =>
    obtain ⟨call, n', haccept, hn, hcourse⟩ := htold
    obtain rfl : n = n' := by simpa using hn
    have notReviewed : ∀ result row, n ≠ .reviewed call result row := by
      rintro result row rfl
      obtain ⟨request, rfl⟩ := accepted_eq haccept
      obtain ⟨r, item, -, hr, hactive, hversion, hitem, hnone, hpos, -⟩ := step_reviewed h
      exact hdue ⟨r, item, hr, hactive, hversion, hitem, hnone, hpos⟩
    cases hcourse with
    | keyless _ | reviewed _ => exact absurd rfl (notReviewed _ _)
    | loaded _ | recovered _ | bound _ | insertLost _ | reloaded _ =>
      cases h
      exact ⟨rfl, rfl, rfl, rfl⟩
  | createLesson | activeLesson | reviewWord | deleteCustomWord | deleteCustomPhrase =>
    exact absurd trivial hdue

/-- What one step of a run does to the lessons. -/
structure Advances (c : LessonConfig) (a : Action LessonOp) (c' : LessonConfig) : Prop where
  raised : ∀ l r, (view c.world.db).lesson l = some r → ∃ r', (view c'.world.db).lesson l = some r' ∧
    (r' = r ∧ SameItems (view c.world.db) (view c'.world.db) l ∨ r'.version = r.version + 1)
  silent : (∀ i notes, published c a = some (i, notes) → ∀ n ∈ notes, changesLesson n = false) →
    (view c'.world.db).lesson = (view c.world.db).lesson ∧
      (view c'.world.db).item = (view c.world.db).item
  idle : ∀ i choice p, a = .advance i choice → c.procs[i]? = some p →
    ¬ Due (view c.world.db) p.op.1 → Unchanged (view c.world.db) (view c'.world.db)

theorem advances_same {a : Action LessonOp} (h : view c'.world.db = view c.world.db) :
    Advances c a c' := by
  refine ⟨fun l r hr => ⟨r, by rw [h]; exact hr, .inl ⟨rfl, fun w => by rw [h]⟩⟩,
    fun _ => by rw [h]; exact ⟨rfl, rfl⟩, fun _ _ _ _ _ _ => by rw [h]; exact .refl _⟩

theorem run_advances (hdb : Orderly (view db)) (h : LessonRun unicode (fresh db) c)
    {a : Action LessonOp} (hs : step (lessonProgram unicode) c a = some c') : Advances c a c' := by
  obtain ⟨safe, -⟩ := run_accounted hdb h
  have tracked := run_tracked h
  have spares : ∀ i notes, published c a = some (i, notes) → Spares i notes c.world c'.world := by
    intro i notes hpublished u w seen
    obtain ⟨p, -, htold⟩ := tracked.published hpublished
    exact told_spares htold
  rcases safe.commits hs spares with ⟨-, hworld⟩ | ⟨i, notes, hpublished, hc⟩
  · exact advances_same (by rw [hworld])
  rcases hc.step with ⟨-, hsame⟩ | ⟨n, rfl, hstep⟩
  · exact advances_same hsame
  have hn : ∀ u w seen, n ≠ .wordDeleted u w seen := by
    rintro u w seen rfl
    exact spares i _ hpublished u w seen List.mem_cons_self
  refine ⟨fun l r hr => step_raises hstep hn hr, fun hquiet => ?_, fun j choice p ha hp hdue => ?_⟩
  · exact step_silent hstep hn (hquiet i _ hpublished n List.mem_cons_self)
  · subst ha
    obtain rfl : i = j := published_own hpublished
    obtain ⟨q, hq, htold⟩ := tracked.published hpublished
    obtain rfl : q = p := Option.some.inj (hq.symm.trans hp)
    exact step_idle hstep htold hdue

theorem InStep.index {l : LessonId} {r : LessonRow} {m : Nat} (h : InStep s l r m) :
    r.currentIndex = (s.itemWords l fun item => item.rating.isSome).ncard := by
  have hcount := h.lined.ncard h.within (p := fun item => item.rating.isSome) (a := 0)
    fun w item hitem => (h.rated w item hitem).trans (by simp)
  simpa using hcount.symm

theorem InStep.allRated {l : LessonId} {r : LessonRow} {m : Nat} (h : InStep s l r m) :
    r.status = .completed ↔ ∀ w item, s.item l w = some item → item.rating.isSome = true := by
  rw [h.completed]
  constructor
  · intro hindex w item hitem
    rw [h.rated w item hitem, hindex]
    exact h.lined.below w item hitem
  · intro hall
    by_contra hne
    have hwithin := h.within
    obtain ⟨w, item, hitem, hpos⟩ := h.lined.filled r.currentIndex (by omega)
    have hlt := (h.rated w item hitem).1 (hall w item hitem)
    omega

/-- However many requests review, discard and create lessons, and in whatever order their
steps come: each item is reviewed once at most in its lesson, each change of a lesson
raises its version by one, and the row of a lesson says how far it has come. -/
theorem reviews_atMostOnce (hdb : Orderly (view db)) (h : LessonRun unicode (fresh db) c) :
    (∀ l w, (lessonEvents l w c.world.log).length ≤ 1) ∧
    (∀ e, ((view c.world.db).event e).isSome = true ↔
      ((view db).event e).isSome = true ∨ e ∈ addedEvents c.world.log) ∧
    (∀ a c', step (lessonProgram unicode) c a = some c' → Advances c a c') ∧
    (∀ i, ((ownNotes i c.world.log).filter changesLesson).length ≤ 1) ∧
    (∀ l r, (view c.world.db).lesson l = some r →
      r.currentIndex = ((view c.world.db).itemWords l fun item => item.rating.isSome).ncard ∧
      RatedBelow (view c.world.db) l r.currentIndex ∧
      (r.status = .completed ↔
        ∀ w item, (view c.world.db).item l w = some item → item.rating.isSome = true)) ∧
    ∀ u l l' r r', (view c.world.db).lesson l = some r → (view c.world.db).lesson l' = some r' →
      r.activeOf u = true → r'.activeOf u = true → l = l' := by
  obtain ⟨-, accounted⟩ := run_accounted hdb h
  refine ⟨fun l w => ?_, accounted.events, fun a c' hs => run_advances hdb h hs, fun i => ?_,
    fun l r hr => ?_, accounted.orderly.single⟩
  · rcases accounted.once l w with hnone | ⟨e, item, hone, -, -⟩
    · simp [hnone]
    · simp [hone]
  · by_cases hi : i < c.procs.length
    · exact noted_once ((run_tracked h).noted i _ (List.getElem?_eq_getElem hi))
    · have hnone : ownNotes i c.world.log = [] := ownNotes_unknown fun entry he =>
        lt_of_lt_of_le ((run_tracked h).known entry he) (Nat.le_of_not_lt hi)
      simp [hnone]
  · obtain ⟨m, hin⟩ := accounted.orderly.inStep l r hr
    exact ⟨hin.index, hin.rated, hin.allRated⟩

theorem orderly_of_none (hlesson : ∀ l, s.lesson l = none) (hitem : ∀ l w, s.item l w = none) :
    Orderly s := by
  refine ⟨fun l w h => ?_, fun l r hr => ?_, fun u l l' r r' hr => ?_⟩
  · simp [hitem] at h
  · simp [hlesson] at hr
  · simp [hlesson] at hr

/-- A user with two new words. -/
def twoWords : LearningDb :=
  let word : WordRow := { source := "lexigo-travel-v1", topic := "Travel", translation := "багаж" }
  let learned : UserWordRow :=
    { status := .new, easiness := 250, intervalDays := 0, repetitions := 0, dueAt := 0 }
  ((((∅ : LearningDb).insert (.word 1) word).insert (.word 2) word).insert
    (.userWord 1 1) learned).insert (.userWord 1 2) learned

theorem twoWords_orderly : Orderly (view twoWords) :=
  orderly_of_none (fun _ => rfl) fun _ _ => rfl

def bothWords : LessonCreateRequest where
  source := "mixed"
  studyMode := .study
  lessonSize := "15"
  wordIds := some [1, 2]

def revealed : LessonReviewRequest where
  rating := .known
  responseMs := none
  answerMode := .study
  correct := none
  answerRevealed := some true
  submittedAnswer := none
  lessonVersion := 1

def createBoth : LessonOp := ⟨.createLesson 1 bothWords, rfl⟩

def reviewFirst : LessonOp := ⟨.reviewLessonWord ⟨1, 7, 1, revealed, none⟩, rfl⟩

/-- Lesson 7 is created, and its first word is reviewed. -/
def firstReview : List (Action LessonOp) :=
  .start createBoth :: steps 0 ([1000, 0, 0, 0, 0, 7] ++ List.replicate 19 0) ++
  .start reviewFirst :: steps 1 (List.replicate 10 0 ++ [2000000, 0, 5] ++ List.replicate 13 0)

theorem firstReview_inOrder : ∃ c, exec (lessonProgram ascii) (fun _ _ _ _ => True)
      (fresh twoWords) firstReview = some c ∧
    lessonEvents 7 1 c.world.log = [5] ∧ (lessonEvents 7 1 c.world.log).length ≤ 1 ∧
    ∀ a c', step (lessonProgram ascii) c a = some c' → Advances c a c' := by
  have reviews : (exec (lessonProgram ascii) (fun _ _ _ _ => True) (fresh twoWords)
      firstReview).map (fun c => lessonEvents 7 1 c.world.log) = some [5] := by decide +kernel
  obtain ⟨c, hc, heq⟩ := Option.map_eq_some_iff.mp reviews
  obtain ⟨once, -, advances, -⟩ := reviews_atMostOnce twoWords_orderly (.of_exec _ hc)
  exact ⟨c, hc, heq, once 7 1, advances⟩

end Runs

end LessonOrder
