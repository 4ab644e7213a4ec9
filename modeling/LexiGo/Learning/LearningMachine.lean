import LexiGo.Learning.LearningService
import Mathlib.Data.Set.Card
import Mathlib.Order.Lattice.Nat

/-! The learning loop as an abstract machine: the six tables as functions, and
for each commit of the services the one step it amounts to. Nothing here knows
of statements, locks or snapshots. -/
namespace LearningMachine
open AnswerJudgement Scheduler LearningSchema LessonRepository LessonCreation
open LessonReviewIdempotency Function GoText

@[ext] structure Learning where
  word : WordId → Option WordRow
  userWord : UserId → WordId → Option UserWordRow
  lesson : LessonId → Option LessonRow
  item : LessonId → WordId → Option ItemRow
  event : EventId → Option EventRow
  kept : UserId → IdempotencyKey → Option IdempotencyRow

section Tables
variable {α β γ : Type} [DecidableEq α] [DecidableEq β]

/-- `Function.update` for a table with two key columns. -/
def updateAt (f : α → β → γ) (a : α) (b : β) (v : γ) : α → β → γ :=
  fun x y => if x = a ∧ y = b then v else f x y

@[simp] theorem updateAt_self (f : α → β → γ) (a : α) (b : β) (v : γ) :
    updateAt f a b v a b = v := by simp [updateAt]

theorem updateAt_ne (f : α → β → γ) {a x : α} {b y : β} (v : γ) (h : ¬ (x = a ∧ y = b)) :
    updateAt f a b v x y = f x y := by simp [updateAt, h]

end Tables

namespace Learning
variable (s : Learning)

/-- The words of a lesson whose items satisfy `p`. -/
def itemWords (l : LessonId) (p : ItemRow → Bool) : Set WordId :=
  {w | ∃ r, s.item l w = some r ∧ p r = true}

noncomputable def progress (l : LessonId) : LessonProgress where
  remaining := (s.itemWords l fun r => r.rating.isNone).ncard
  nextIndex := sInf {n | ∃ w r, s.item l w = some r ∧ r.rating.isNone = true ∧ r.position = n}
  totalItems := (s.itemWords l fun _ => true).ncard

def discardActive (u : UserId) (now : Instant) : LessonId → Option LessonRow :=
  fun l => (s.lesson l).map fun r => if r.activeOf u then r.discard now else r

def discardSeen (seen : List Key) (u : UserId) (now : Instant) : LessonId → Option LessonRow :=
  fun l => (s.lesson l).map fun r =>
    if Key.lesson l ∈ seen ∧ r.activeOf u = true then r.discard now else r

def sweep (swept : List Key) : UserId → IdempotencyKey → Option IdempotencyRow :=
  fun u k => (s.kept u k).filter fun _ => Key.idempotency u k ∉ swept

/-- Every row that names `w` is gone. -/
def withoutWord (w : WordId) : Learning where
  word := update s.word w none
  userWord := fun u w' => if w' = w then none else s.userWord u w'
  lesson := s.lesson
  item := fun l w' => if w' = w then none else s.item l w'
  event := fun e => (s.event e).filter fun r => r.wordId ≠ w
  kept := fun u k => (s.kept u k).filter fun r => r.requestHash.wordId ≠ w

end Learning

/-- The item that a selection puts down for a word, counting from `position`. -/
def placed : Nat → Selection → WordId → Option ItemRow
  | _, [], _ => none
  | position, (w, reason) :: rest, w' =>
    if w' = w then some { position := position, selectionReason := some reason }
    else placed (position + 1) rest w'

/-- What the query for a committed review joins together. -/
structure Recovers (s : Learning) (call : ReviewCall) (found : RecoverySnapshot) : Prop where
  lesson : s.lesson call.lessonId = some found.lesson
  owner : found.lesson.userId = call.userId
  version : found.lesson.version = call.request.lessonVersion + 1
  item : s.item call.lessonId call.wordId = some found.item
  userWord : s.userWord call.userId call.wordId = some found.userWord
  event : s.event found.eventId = some found.event
  fits : fitsCall call found.item.reviewedAt found.event = true
  latest : ∀ e r, s.event e = some r → fitsCall call found.item.reviewedAt r = true →
    e ≤ found.eventId
  totalItems : found.totalItems = (s.itemWords call.lessonId fun _ => true).ncard
  reviewedItems : found.reviewedItems = (s.itemWords call.lessonId fun r => r.rating.isSome).ncard

/-- The rows that a statement deleting what has run out may take. -/
def Expired (s : Learning) (now : Instant) (swept : List Key) : Prop :=
  ∀ u k r, Key.idempotency u k ∈ swept → s.kept u k = some r → r.expiresAt ≤ now

variable (unicode : Unicode)

/-- The review of one word, once the row of it is locked. -/
structure Reviewing (s : Learning) (u : UserId) (w : WordId) (request : ReviewRequest)
    (now : Instant) (e : EventId) (a : Attempt) : Prop where
  attempt : ∃ state word, s.userWord u w = some state ∧ s.word w = some word ∧
    a = attempt unicode request state word now
  fits : a.fits = true
  fresh : s.event e = none

/-- `thorough` says that every deletion of a word has seen all the lessons that
use it; only then can a review be sure of what it read of its lesson. -/
inductive Step (thorough : Prop) : Note → Learning → Learning → Prop
  | lessonCreated {s u l request now selected} :
      s.lesson l = none → selected ≠ [] → (selected.map Prod.fst).Nodup →
      (∀ w ∈ selected.map Prod.fst, (s.word w).isSome = true ∧ (s.userWord u w).isSome = true) →
      request.source ∈ storableSources →
      Step thorough (.lessonCreated u l (selected.map Prod.fst)) s
        { s with
          lesson := update (s.discardActive u now) l (some (newLesson u request now))
          item := fun l' w => if l' = l then placed 0 selected w else s.item l' w }
  | lessonResumed {s u l} : Step thorough (.lessonResumed u l) s s
  | lessonDiscarded {s u l r now} : s.lesson l = some r → r.activeOf u = true →
      Step thorough (.lessonDiscarded u l r.version) s
        { s with lesson := update s.lesson l (some (r.discard now)) }
  | reviewed {s s' call lesson item a now e} {progress : LessonProgress} :
      s.lesson call.lessonId = some lesson → lesson.activeOf call.userId = true →
      lesson.version = call.request.lessonVersion → lesson.studyMode = call.request.answerMode →
      s.item call.lessonId call.wordId = some item → item.rating = none →
      item.position = lesson.currentIndex →
      Reviewing unicode s call.userId call.wordId call.request.toReviewRequest now e a →
      (thorough → progress = s'.progress call.lessonId) →
      s' = { s with
        userWord := updateAt s.userWord call.userId call.wordId (some (a.row now))
        event := update s.event e (some (a.event call.userId call.wordId
          call.request.toReviewRequest now lesson.sessionKind item.selectionReason))
        item := updateAt s.item call.lessonId call.wordId (some (item.rate call.request.rating now))
        lesson := update s.lesson call.lessonId
          (some (lesson.advance progress.index progress.completed now)) } →
      Step thorough (.reviewed call (lessonReviewResult call.lessonId (lesson.version + 1) progress
        (a.result call.wordId e now)) (a.row now)) s s'
  | wordReviewed {s u w request a now e} : Reviewing unicode s u w request now e a →
      Step thorough (.wordReviewed u w e) s
        { s with
          userWord := updateAt s.userWord u w (some (a.row now))
          event := update s.event e (some (a.event u w request now none none)) }
  | loaded {s call k now} : call.key = some k →
      Step thorough (.loaded call (loadedFrom call now (s.kept call.userId k))) s s
  | recovered {s call found} : (∀ snapshot, found = some snapshot ↔ Recovers s call snapshot) →
      Step thorough (.recovered call found) s s
  | bound {s call k response swept now} : call.key = some k → Expired s now swept →
      (∀ r, s.kept call.userId k = some r → r.expiresAt ≤ now) →
      (s.word call.wordId).isSome = true →
      Step thorough (.bound call response swept) s
        { s with
          kept := updateAt (s.sweep swept) call.userId k (some (keptResponse call response now)) }
  | insertLost {s call k swept now r} : call.key = some k → Expired s now swept →
      s.kept call.userId k = some r → now < r.expiresAt →
      Step thorough (.insertLost call swept) s { s with kept := s.sweep swept }
  | reloaded {s call k now} : call.key = some k →
      Step thorough (.reloaded call (loadedFrom call now (s.kept call.userId k))) s s
  | wordDeleted {s u w row seen now} : s.word w = some row → row.owner = some u →
      Step thorough (.wordDeleted u w seen) s
        { s.withoutWord w with lesson := s.discardSeen seen u now }

/-- An item belongs to a lesson. -/
def Linked (s : Learning) : Prop := ∀ l w, (s.item l w).isSome = true → (s.lesson l).isSome = true

section Placed
variable {position : Nat} {selected : Selection} {w : WordId} {r : ItemRow}

theorem placed_isSome : (placed position selected w).isSome = true ↔ w ∈ selected.map Prod.fst := by
  induction selected generalizing position with
  | nil => simp [placed]
  | cons p rest ih =>
    by_cases hw : w = p.1
    · simp [placed, hw]
    · simp only [placed, hw, if_false, ih, List.map_cons, List.mem_cons, false_or]

theorem placed_none (h : w ∉ selected.map Prod.fst) : placed position selected w = none := by
  have hn : ¬ (placed position selected w).isSome = true := fun hs => h (placed_isSome.mp hs)
  simpa using hn

theorem placed_position (h : placed position selected w = some r) :
    position ≤ r.position ∧ r.rating = none ∧
      (selected.map Prod.fst)[r.position - position]? = some w := by
  induction selected generalizing position with
  | nil => cases h
  | cons p rest ih =>
    by_cases hw : w = p.1
    · rw [placed, if_pos hw] at h
      cases h
      simp [hw]
    · rw [placed, if_neg hw] at h
      obtain ⟨hle, hr, hget⟩ := ih h
      refine ⟨by omega, hr, ?_⟩
      have hsub : r.position - position = (r.position - (position + 1)) + 1 := by omega
      rw [hsub, List.map_cons, List.getElem?_cons_succ]
      exact hget

theorem placed_unreviewed (h : placed position selected w = some r) : r.reviewedAt = none := by
  induction selected generalizing position with
  | nil => cases h
  | cons p rest ih =>
    by_cases hw : w = p.1
    · rw [placed, if_pos hw] at h
      cases h
      rfl
    · rw [placed, if_neg hw] at h
      exact ih h

theorem placed_of_getElem? (nodup : (selected.map Prod.fst).Nodup) {n : Nat}
    (h : (selected.map Prod.fst)[n]? = some w) :
    ∃ r, placed position selected w = some r ∧ r.position = position + n := by
  induction selected generalizing position n with
  | nil => simp at h
  | cons p rest ih =>
    obtain ⟨hp, nodup⟩ := List.nodup_cons.mp nodup
    cases n with
    | zero =>
      have hw : p.1 = w := by simpa using h
      exact ⟨_, if_pos hw.symm, rfl⟩
    | succ n =>
      have h : (rest.map Prod.fst)[n]? = some w := by simpa using h
      have hw : w ≠ p.1 := fun heq => hp (heq ▸ List.mem_of_getElem? h)
      obtain ⟨r, hr, hpos⟩ := ih nodup h
      exact ⟨r, (if_neg hw).trans hr, by omega⟩

end Placed

theorem activeOf_iff {u : UserId} {r : LessonRow} :
    r.activeOf u = true ↔ r.userId = u ∧ r.status = .active := by simp [LessonRow.activeOf]

@[simp] theorem discard_activeOf (u : UserId) (r : LessonRow) (now : Instant) :
    (r.discard now).activeOf u = false := by simp [LessonRow.discard, LessonRow.activeOf]

section Steps
variable {unicode} {thorough : Prop} {n : Note} {s s' : Learning}

/-- The words that a commit adds rows for. -/
def Names (w : WordId) : Note → Prop
  | .lessonCreated _ _ words => w ∈ words
  | .reviewed call _ _ => call.wordId = w
  | .wordReviewed _ w' _ => w' = w
  | .bound call _ _ => call.wordId = w
  | _ => False

theorem Step.word_stays (h : Step unicode thorough n s s') {w : WordId}
    (hn : ∀ u seen, n ≠ .wordDeleted u w seen) (hw : (s.word w).isSome = true) :
    (s'.word w).isSome = true := by
  cases h with
  | @wordDeleted s u w' row seen now hrow howner =>
    have hne : w ≠ w' := by
      rintro rfl
      exact hn u seen rfl
    simpa [Learning.withoutWord, hne] using hw
  | reviewed _ _ _ _ _ _ _ _ _ heq => rw [heq]; exact hw
  | _ => exact hw

theorem Step.word_back (h : Step unicode thorough n s s') {w : WordId} {r : WordRow}
    (hw : s'.word w = some r) : s.word w = some r := by
  cases h with
  | @wordDeleted s u w' row seen now hrow howner =>
    have hne : w ≠ w' := by
      rintro rfl
      simp [Learning.withoutWord] at hw
    simpa [Learning.withoutWord, hne] using hw
  | reviewed _ _ _ _ _ _ _ _ _ heq => rw [heq] at hw; exact hw
  | _ => exact hw

/-- Nobody changes a word, and whoever deletes it deletes what was learned of it. -/
theorem Step.word_same (h : Step unicode thorough n s s') {u : UserId} {w : WordId}
    (hu : (s'.userWord u w).isSome = true) : s'.word w = s.word w := by
  cases h with
  | @wordDeleted s u' w' row seen now hrow howner =>
    have hne : w ≠ w' := by
      rintro rfl
      simp [Learning.withoutWord] at hu
    simp [Learning.withoutWord, hne]
  | reviewed _ _ _ _ _ _ _ _ _ heq => rw [heq]
  | _ => rfl

/-- Items appear with the lesson they belong to, and go with their word. -/
theorem Step.item_back (h : Step unicode thorough n s s') {l : LessonId} {w : WordId}
    (hn : ¬ Names w n) (hi : (s'.item l w).isSome = true) : (s.item l w).isSome = true := by
  cases h with
  | @lessonCreated s u l' request now selected hl hne hnodup hwords _ =>
    by_cases heq : l = l'
    · rw [show ({ s with lesson := _, item := _ } : Learning).item l w =
        placed 0 selected w from if_pos heq] at hi
      exact absurd (placed_isSome.mp hi) hn
    · simpa [heq] using hi
  | @reviewed s s' call lesson item a now e progress _ _ _ _ hitem _ _ _ _ heq =>
    have hne : ¬ (l = call.lessonId ∧ w = call.wordId) := fun hw => hn hw.2.symm
    rw [heq] at hi
    simpa [updateAt, hne] using hi
  | @wordDeleted s u w' row seen now hrow howner =>
    by_cases heq : w = w'
    · simp [Learning.withoutWord, heq] at hi
    · simpa [Learning.withoutWord, heq] using hi
  | _ => exact hi

theorem Step.userWord_back (h : Step unicode thorough n s s') {u : UserId} {w : WordId}
    (hu : (s'.userWord u w).isSome = true) : (s.userWord u w).isSome = true := by
  cases h with
  | @reviewed s s' call lesson item a now e progress _ _ _ _ _ _ _ hr _ heq =>
    obtain ⟨state, word, hstate, -, -⟩ := hr.attempt
    rw [heq] at hu
    by_cases hne : u = call.userId ∧ w = call.wordId
    · rw [hne.1, hne.2, hstate]; rfl
    · simpa [updateAt, hne] using hu
  | @wordReviewed s u' w' request a now e hr =>
    obtain ⟨state, word, hstate, -, -⟩ := hr.attempt
    by_cases hne : u = u' ∧ w = w'
    · rw [hne.1, hne.2, hstate]; rfl
    · simpa [updateAt, hne] using hu
  | @wordDeleted s u' w' row seen now hrow howner =>
    by_cases heq : w = w'
    · simp [Learning.withoutWord, heq] at hu
    · simpa [Learning.withoutWord, heq] using hu
  | _ => exact hu

/-- What a user has learned of a word stays as long as the word does. -/
theorem Step.userWord_stays (h : Step unicode thorough n s s') {u : UserId} {w : WordId}
    (hw : (s'.word w).isSome = true) (hu : (s.userWord u w).isSome = true) :
    (s'.userWord u w).isSome = true := by
  cases h with
  | @reviewed s s' call lesson item a now e progress _ _ _ _ _ _ _ _ _ heq =>
    rw [heq]
    by_cases hne : u = call.userId ∧ w = call.wordId
    · simp [updateAt, hne]
    · simpa [updateAt, hne] using hu
  | @wordReviewed s u' w' request a now e _ =>
    by_cases hne : u = u' ∧ w = w'
    · simp [updateAt, hne]
    · simpa [updateAt, hne] using hu
  | @wordDeleted s u' w' row seen now hrow howner =>
    by_cases heq : w = w'
    · simp [Learning.withoutWord, heq] at hw
    · simpa [Learning.withoutWord, heq] using hu
  | _ => exact hu

theorem Step.event_back (h : Step unicode thorough n s s') {w : WordId} (hn : ¬ Names w n)
    {e : EventId} {r : EventRow} (hr : s'.event e = some r) (hw : r.wordId = w) :
    s.event e = some r := by
  cases h with
  | @reviewed s s' call lesson item a now e' progress _ _ _ _ _ _ _ _ _ heq =>
    rw [heq] at hr
    by_cases hne : e = e'
    · subst hne
      obtain rfl : a.event call.userId call.wordId call.request.toReviewRequest now
        lesson.sessionKind item.selectionReason = r := by simpa using hr
      exact absurd hw hn
    · simpa [update_of_ne hne] using hr
  | @wordReviewed s u' w' request a now e' _ =>
    by_cases hne : e = e'
    · subst hne
      obtain rfl : a.event u' w' request now none none = r := by simpa using hr
      exact absurd hw hn
    · simpa [update_of_ne hne] using hr
  | @wordDeleted s u' w' row seen now hrow howner =>
    exact (Option.filter_eq_some_iff.mp hr).1
  | _ => exact hr

theorem Step.kept_back (h : Step unicode thorough n s s') {w : WordId} (hn : ¬ Names w n)
    {u : UserId} {k : IdempotencyKey} {r : IdempotencyRow} (hr : s'.kept u k = some r)
    (hw : r.requestHash.wordId = w) : s.kept u k = some r := by
  cases h with
  | @bound s call k' response swept now _ _ _ _ =>
    by_cases hne : u = call.userId ∧ k = k'
    · obtain rfl : keptResponse call response now = r := by simpa [updateAt, hne] using hr
      exact absurd hw hn
    · have hr : s.sweep swept u k = some r := by simpa [updateAt, hne] using hr
      exact (Option.filter_eq_some_iff.mp hr).1
  | insertLost _ _ _ _ => exact (Option.filter_eq_some_iff.mp hr).1
  | @wordDeleted s u' w' row seen now hrow howner =>
    exact (Option.filter_eq_some_iff.mp hr).1
  | @reviewed s s' _ _ _ _ _ _ _ _ _ _ _ _ _ _ _ _ heq => rw [heq] at hr; exact hr
  | _ => exact hr

/-- A user gets an active lesson only by creating one. -/
theorem Step.active_back (h : Step unicode thorough n s s') {u : UserId}
    (hn : ∀ l words, n ≠ .lessonCreated u l words) {l : LessonId} {r' : LessonRow}
    (hr : s'.lesson l = some r') (hu : r'.activeOf u = true) :
    ∃ r, s.lesson l = some r ∧ r.activeOf u = true := by
  cases h with
  | @lessonCreated s u' l' request now selected _ _ _ _ _ =>
    by_cases heq : l = l'
    · subst heq
      obtain rfl : newLesson u' request now = r' := by simpa using hr
      have hu' : u' = u := (activeOf_iff.mp hu).1
      exact absurd rfl (hu' ▸ hn l _)
    · have hr : s.discardActive u' now l = some r' := by simpa [update_of_ne heq] using hr
      obtain ⟨r, hold, rfl⟩ := Option.map_eq_some_iff.mp hr
      split_ifs at hu
      · simp at hu
      · exact ⟨r, hold, hu⟩
  | @lessonDiscarded s u' l' r now hl _ =>
    by_cases heq : l = l'
    · subst heq
      obtain rfl : r.discard now = r' := by simpa using hr
      simp at hu
    · exact ⟨r', by simpa [update_of_ne heq] using hr, hu⟩
  | @reviewed s s' call lesson item a now e progress hl hactive _ _ _ _ _ _ _ heq =>
    rw [heq] at hr
    by_cases hne : l = call.lessonId
    · subst hne
      obtain rfl : lesson.advance progress.index progress.completed now = r' := by simpa using hr
      have hmine : lesson.userId = u := (activeOf_iff.mp hu).1
      have huser : lesson.userId = call.userId := (activeOf_iff.mp hactive).1
      exact ⟨lesson, hl, hmine ▸ huser ▸ hactive⟩
    · exact ⟨r', by simpa [update_of_ne hne] using hr, hu⟩
  | @wordDeleted s u' w' row seen now _ _ =>
    obtain ⟨r, hold, rfl⟩ := Option.map_eq_some_iff.mp hr
    split_ifs at hu
    · simp at hu
    · exact ⟨r, hold, hu⟩
  | _ => exact ⟨r', hr, hu⟩

/-- An active lesson keeps its items: a review changes those of its own lesson,
and a deletion has discarded the lessons it takes items from. -/
theorem Step.items_stay (h : Step unicode thorough n s s') {l : LessonId} {r : LessonRow}
    (hr : s.lesson l = some r) (hother : ∀ call result row, call.lessonId = l →
      n ≠ .reviewed call result row)
    (hdel : ∀ u w seen, n = .wordDeleted u w seen → s.item l w = none) (w : WordId) :
    s'.item l w = s.item l w := by
  cases h with
  | @lessonCreated s u l' request now selected hl _ _ _ _ =>
    have hne : l ≠ l' := by
      rintro rfl
      rw [hl] at hr
      cases hr
    exact if_neg hne
  | @reviewed s s' call lesson item a now e progress _ _ _ _ _ _ _ _ _ heq =>
    have hne : l ≠ call.lessonId := fun hl => hother call _ _ hl.symm rfl
    rw [heq]
    exact updateAt_ne _ _ fun hl => hne hl.1
  | @wordDeleted s u' w' row seen now _ _ =>
    by_cases hw : w = w'
    · subst hw
      rw [hdel u' w seen rfl]
      exact if_pos rfl
    · exact if_neg hw
  | _ => rfl

theorem Step.lesson_stays (h : Step unicode thorough n s s') {l : LessonId}
    (hl : (s.lesson l).isSome = true) : (s'.lesson l).isSome = true := by
  cases h with
  | @lessonCreated s u l' request now selected _ _ _ _ _ =>
    by_cases heq : l = l'
    · simp [heq]
    · simpa [update_of_ne heq, Learning.discardActive] using hl
  | @lessonDiscarded s u' l' r now _ _ =>
    by_cases heq : l = l'
    · simp [heq]
    · simpa [update_of_ne heq] using hl
  | @reviewed s s' call lesson item a now e progress _ _ _ _ _ _ _ _ _ heq =>
    rw [heq]
    by_cases hne : l = call.lessonId
    · simp [hne]
    · simpa [update_of_ne hne] using hl
  | @wordDeleted s u' w' row seen now _ _ => simpa [Learning.discardSeen] using hl
  | _ => exact hl

theorem Step.linked (h : Step unicode thorough n s s') (hs : Linked s) : Linked s' := by
  intro l w hi
  cases h with
  | @lessonCreated s u l' request now selected _ _ _ _ _ =>
    by_cases heq : l = l'
    · simp [heq]
    · have hi : (s.item l w).isSome = true := by simpa [heq] using hi
      simpa [update_of_ne heq, Learning.discardActive] using hs l w hi
  | @reviewed s s' call lesson item a now e progress hl _ _ _ hitem _ _ _ _ heq =>
    rw [heq] at hi ⊢
    by_cases hne : l = call.lessonId
    · simp [hne]
    · have hi : (s.item l w).isSome = true := by simpa [updateAt, hne] using hi
      simpa [update_of_ne hne] using hs l w hi
  | @lessonDiscarded s u' l' r now _ _ =>
    by_cases heq : l = l'
    · simp [heq]
    · simpa [update_of_ne heq] using hs l w hi
  | @wordDeleted s u' w' row seen now _ _ =>
    have hne : w ≠ w' := by
      rintro rfl
      simp [Learning.withoutWord] at hi
    have hi : (s.item l w).isSome = true := by simpa [Learning.withoutWord, hne] using hi
    simpa [Learning.discardSeen] using hs l w hi
  | _ => exact hs l w hi

end Steps

end LearningMachine
