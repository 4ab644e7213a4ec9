import LexiGo.Learning.LearningSoundness
import LexiGo.Learning.SchedulerRuns

/-! Runs of any number of learning requests, as histories of the machine. -/
namespace LearningRuns
open RowStore TransactionProgram Interleaving CommitContract RowStatements RunSoundness
open GoText AnswerJudgement Scheduler SchedulerRuns LearningSchema LessonRepository LearningService
open LearningMachine LearningContract LearningSoundness

abbrev LearningConfig := Config Row Note Op Response

abbrev LearningHistory (unicode : Unicode) (thorough : Prop)
    (allow : Nat → List Note → LearningWorld → LearningWorld → Prop) :=
  History (learningContract unicode thorough allow)

abbrev LearningSafe (unicode : Unicode) (thorough : Prop)
    (allow : Nat → List Note → LearningWorld → LearningWorld → Prop) (c : LearningConfig) : Prop :=
  Safe (learningContract unicode thorough allow) (fun _ _ _ _ _ => True) c

/-- Deletions of words see the lessons they are asked to see, where that is assumed. -/
def Thorough (thorough : Prop)
    (allow : Nat → List Note → LearningWorld → LearningWorld → Prop) : Prop :=
  thorough → ∀ i u k seen w w', allow i [.wordDeleted u k seen] w w' →
    SeesLessons (.wordDeleted u k seen) (view w.db)

variable {unicode : Unicode} {thorough : Prop}
variable {allow : Nat → List Note → LearningWorld → LearningWorld → Prop}
variable {db : LearningDb} {c c' : LearningConfig}

theorem thorough_false : Thorough False allow := False.elim

theorem learning_sound (sees : Thorough thorough allow) :
    Sound (learningContract unicode thorough allow) (program unicode) (fun _ _ _ _ _ => True) := by
  intro op i w _
  refine wp_mono ?_ (program_keeps op sees i w)
  intro _ _ _ _ _ _ _
  trivial

/-- Nobody has asked for anything yet. -/
def start (db : LearningDb) : LearningConfig := ⟨⟨db, []⟩, []⟩

theorem run_later (sees : Thorough thorough allow) (safe : LearningSafe unicode thorough allow c)
    (h : Run (program unicode) allow c c') :
    LearningSafe unicode thorough allow c' ∧
      LearningHistory unicode thorough allow c.world c'.world :=
  run_sound (learning_sound sees) h safe

theorem run_history (sees : Thorough thorough allow) (hdb : Linked (view db))
    (h : Run (program unicode) allow (start db) c) :
    LearningSafe unicode thorough allow c ∧
      LearningHistory unicode thorough allow (start db).world c.world :=
  run_later sees (safe_init hdb) h

/-- A commit is a step of the machine that the log tells of, or nothing at all. -/
theorem commits_step {w w' : LearningWorld}
    (h : Commits (learningContract unicode thorough allow) w w') :
    (w'.log = w.log ∧ view w'.db = view w.db) ∨
      ∃ i n, w'.log = (i, n) :: w.log ∧ Step unicode thorough n (view w.db) (view w'.db) ∧
        allow i [n] w w' := by
  obtain ⟨i, notes, hc⟩ := h
  rcases hc.step with ⟨rfl, hsame⟩ | ⟨n, rfl, hstep⟩
  · exact .inl ⟨hc.log, hsame⟩
  · exact .inr ⟨i, n, hc.log, hstep, hc.allow⟩

/-- What every step keeps holds wherever a run leads. -/
theorem run_keeps {P : Learning → Prop} (sees : Thorough thorough allow)
    (keeps : ∀ n s s', Step unicode thorough n s s' → P s → P s') (hlinked : Linked (view db))
    (hdb : P (view db)) (h : Run (program unicode) allow (start db) c) : P (view c.world.db) := by
  obtain ⟨-, hist⟩ := run_history sees hlinked h
  refine @history_keeps _ _ _ (learningContract unicode thorough allow) _ _
    (fun w => P (view w.db)) hist ?_ hdb
  intro v v' hc hv
  rcases commits_step hc with ⟨-, hsame⟩ | ⟨i, n, -, hstep, -⟩
  · rw [hsame]
    exact hv
  · exact keeps n _ _ hstep hv

/-- What the tables hold from the beginning: rows that refer to rows there are, what
the scheduler makes of a card, and the time of each rating. -/
structure Suits (s : Learning) : Prop where
  linked : Linked s
  learned : ∀ u w, (s.userWord u w).isSome = true → (s.word w).isSome = true
  sound : ∀ u w r, s.userWord u w = some r → Sound r.toReviewState
  rated : ∀ l w r, s.item l w = some r → r.rating.isSome = r.reviewedAt.isSome

/-- What a review leaves of a sound card is sound. -/
theorem sound_attempt {request : ReviewRequest} {state : UserWordRow} {word : WordRow}
    {now : Instant} (hs : Sound state.toReviewState)
    (hfits : (attempt unicode request state word now).fits = true) :
    Sound ((attempt unicode request state word now).row now).toReviewState := by
  let a : CardAttempt :=
    ⟨(attempt unicode request state word now).assessment.effectiveRating, request.answerMode, now⟩
  have heq : attempted state.toReviewState a =
      some ((attempt unicode request state word now).row now).toReviewState :=
    (attempted_eq unicode request state word now).trans (if_pos hfits)
  have hrecord : Sound (record state.toReviewState a) := hs.record a
  rw [record, heq] at hrecord
  exact hrecord

theorem Suits.reviewing {s : Learning} (hs : Suits s) {u : UserId} {w : WordId}
    {request : ReviewRequest} {now : Instant} {e : EventId} {a : Attempt}
    (h : Reviewing unicode s u w request now e a) {u' : UserId} {w' : WordId} {r : UserWordRow}
    (hr : updateAt s.userWord u w (some (a.row now)) u' w' = some r) : Sound r.toReviewState := by
  by_cases hne : u' = u ∧ w' = w
  · obtain ⟨rfl, rfl⟩ := hne
    obtain ⟨state, word, hstate, -, rfl⟩ := h.attempt
    rw [updateAt_self] at hr
    cases hr
    exact sound_attempt (hs.sound u' w' state hstate) h.fits
  · rw [updateAt_ne _ _ hne] at hr
    exact hs.sound u' w' r hr

theorem Suits.step {s s' : Learning} {n : Note} (hs : Suits s)
    (h : Step unicode thorough n s s') : Suits s' := by
  refine ⟨h.linked hs.linked, ?_, ?_, ?_⟩
  · intro u w hu
    rw [h.word_same hu]
    exact hs.learned u w (h.userWord_back hu)
  · intro u w r hr
    cases h with
    | reviewed _ _ _ _ _ _ _ reviewing _ heq =>
      rw [heq] at hr
      exact hs.reviewing reviewing hr
    | wordReviewed reviewing => exact hs.reviewing reviewing hr
    | @wordDeleted s u' w' row seen now _ _ =>
      by_cases hw : w = w'
      · simp [Learning.withoutWord, hw] at hr
      · exact hs.sound u w r (by simpa [Learning.withoutWord, hw] using hr)
    | _ => exact hs.sound u w r hr
  · intro l w r hr
    cases h with
    | @lessonCreated s u l' request now selected _ _ _ _ _ =>
      by_cases hl : l = l'
      · have hr : placed 0 selected w = some r := by simpa [hl] using hr
        rw [(placed_position hr).2.1, placed_unreviewed hr]
        rfl
      · exact hs.rated l w r (by simpa [hl] using hr)
    | @reviewed s s' call lesson item a now e progress _ _ _ _ _ _ _ _ _ heq =>
      rw [heq] at hr
      by_cases hne : l = call.lessonId ∧ w = call.wordId
      · obtain rfl : item.rate call.request.rating now = r := by simpa [updateAt, hne] using hr
        rfl
      · exact hs.rated l w r (by simpa [updateAt, hne] using hr)
    | @wordDeleted s u' w' row seen now _ _ =>
      by_cases hw : w = w'
      · simp [Learning.withoutWord, hw] at hr
      · exact hs.rated l w r (by simpa [Learning.withoutWord, hw] using hr)
    | _ => exact hs.rated l w r hr

/-- Wherever a run leads, the tables hold what they held at the beginning. -/
theorem run_suits (hdb : Suits (view db)) (h : Run (program unicode) allow (start db) c) :
    Suits (view c.world.db) :=
  run_keeps thorough_false (fun _ _ _ hstep hs => hs.step hstep) hdb.linked hdb h

end LearningRuns
