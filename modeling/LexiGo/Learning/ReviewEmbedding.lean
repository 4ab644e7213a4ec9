import LexiGo.Learning.ReviewTransaction
import LexiGo.ReadCommitted.WiderSchema

/-! The review of a word as a part of transactions that know more tables than the
learning loop does: what it has done once it is over. -/
namespace ReviewEmbedding
open RowStore TransactionProgram Interleaving CommitContract RowStatements WiderSchema
open AnswerJudgement Scheduler LearningSchema LessonRepository ReviewTransaction

variable {Extra : Type} [DecidableEq Extra] {More : Extra → Type} {Note' : Type}
variable {notes : List LearningSchema.Note → List Note'}
variable {C : Contract (Both LearningSchema.Row More) Note'} {i : Nat}
variable {t t' t'' : Tx (Both LearningSchema.Row More)}
variable {w w' w'' : World (Both LearningSchema.Row More) Note'}

/-- A statement has let others commit and has locked rows, and this is what it
makes of the rows that the transaction sees. -/
structure Did (C : Contract (Both LearningSchema.Row More) Note') (i : Nat)
    (change : Db (Both LearningSchema.Row More) → Db (Both LearningSchema.Row More))
    (t : Tx (Both LearningSchema.Row More)) (w : World (Both LearningSchema.Row More) Note')
    (t' : Tx (Both LearningSchema.Row More)) (w' : World (Both LearningSchema.Row More) Note') :
    Prop where
  rely : Rely C i t w w'
  inv : C.inv w'
  held : t.held ⊆ t'.held
  visible : ∀ db, t'.visible db = change (t.visible db)

theorem Did.trans {f g : Db (Both LearningSchema.Row More) → Db (Both LearningSchema.Row More)}
    (h : Did C i f t w t' w') (h' : Did C i g t' w' t'' w'') :
    Did C i (fun db => g (f db)) t w t'' w'' :=
  ⟨h.rely.trans (h'.rely.mono h.held), h'.inv, List.Subset.trans h.held h'.held,
    fun db => by rw [h'.visible, h.visible]⟩

/-- The row of an event, as the review has inserted it. -/
def putEvent (e : EventId) (row : EventRow) (db : Db (Both LearningSchema.Row More)) :
    Db (Both LearningSchema.Row More) :=
  set (Sum.inl (Key.event e)) (some row) db

def putUserWord (u : UserId) (word : WordId) (row : UserWordRow)
    (db : Db (Both LearningSchema.Row More)) : Db (Both LearningSchema.Row More) :=
  set (Sum.inl (Key.userWord u word)) (some row) db

theorem wp_nextEventId
    {Q : Option EventId → Tx (Both LearningSchema.Row More) →
      World (Both LearningSchema.Row More) Note' → Prop}
    (h : ∀ e w', Rely C i t w w' → C.inv w' → Q e t w') :
    wp C i Q (lift notes nextEventId) t w := by
  unfold nextEventId
  rw [lift_bind, wp_bind, lift_choose, wp_choose]
  intro e
  rw [lift_bind, wp_bind, lift_select, wp_select]
  intro w' hr hi
  rw [lift_ite]
  split
  · exact h _ w' hr hi
  · exact h _ w' hr hi

/-- The foreign key of the event waits for the word and changes nothing. -/
theorem wp_referenceWord {word : WordId}
    {Q : Bool → Tx (Both LearningSchema.Row More) →
      World (Both LearningSchema.Row More) Note' → Prop}
    (h : ∀ found t' w', Did C i id t w t' w' → Q found t' w') :
    wp C i Q (lift notes (referenceWord word)) t w := by
  unfold referenceWord
  rw [lift_bind, wp_bind, lift_lockRow, wp_lockRow]
  intro w₁ hr₁ _
  rw [lift_select, wp_select]
  intro w₂ hr₂ hi₂
  exact h _ _ w₂ ⟨hr₁.trans (rely_hold hr₂), hi₂, List.subset_cons_self _ _, fun _ => rfl⟩

theorem wp_insertEvent {row : EventRow}
    {Q : Option EventId → Tx (Both LearningSchema.Row More) →
      World (Both LearningSchema.Row More) Note' → Prop}
    (failed : ∀ t' w', Q none t' w')
    (inserted : ∀ e t' w', Did C i (putEvent e row) t w t' w' →
      (t.visible w'.db).lookup (Sum.inl (Key.event e)) = none →
      t'.holds (Sum.inl (Key.event e)) → Q (some e) t' w') :
    wp C i Q (lift notes (insertEvent row)) t w := by
  unfold insertEvent
  rw [lift_bind, wp_bind]
  refine wp_nextEventId fun next w₁ hr₁ _ => ?_
  cases next with
  | none => exact failed _ _
  | some e =>
    dsimp only
    rw [lift_ite]
    by_cases hstorable : row.storable = true
    · rw [if_neg (by simp [hstorable]), lift_bind, wp_bind, lift_insertRow]
      refine wp_insertRow (fun w₂ _ _ _ _ => ?_) fun w₂ hr₂ hi₂ hfree => ?_
      · exact failed _ _
      · rw [if_pos rfl, lift_bind, wp_bind]
        refine wp_referenceWord fun found t₃ w₃ hdid => ?_
        cases found with
        | false => exact failed _ _
        | true =>
          have hheld := hdid.held
          rw [Tx.held_write, Tx.held_hold] at hheld
          have hrely : Rely C i t w₂ w₃ := rely_hold (rely_write hdid.rely)
          refine inserted e t₃ w₃ ⟨(hr₁.trans hr₂).trans hrely, hdid.inv, ?_, ?_⟩ ?_ ?_
          · exact fun p hp => hheld (List.mem_cons_of_mem _ (List.mem_cons_of_mem _ hp))
          · intro db
            rw [hdid.visible]
            rfl
          · have hrow := hdid.rely.row (k := Sum.inl (Key.event e)) List.mem_cons_self (by simp)
            rw [t.visible_congr hrow]
            exact hfree
          · exact Tx.holds.mono (by simp) hdid.held
    · rw [if_pos (by simp [hstorable])]
      exact failed _ _

/-- A review that has been applied: the word as it is scheduled now, and one event. -/
theorem wp_applyReviewTx {u : UserId} {word : WordId} {request : ReviewRequest}
    {state : UserWordRow} {assessment : ReviewAssessment}
    {Q : Reply ReviewResult → Tx (Both LearningSchema.Row More) →
      World (Both LearningSchema.Row More) Note' → Prop}
    (failed : ∀ why t' w', Q (.error why) t' w')
    (applied : ∀ now e t' w',
      Did C i (fun db => putEvent e ((scheduled request state assessment now).event u word request
          now none none) (putUserWord u word ((scheduled request state assessment now).row now) db))
        t w t' w' →
      (t.visible w'.db).lookup (Sum.inl (Key.event e)) = none →
      t'.holds (Sum.inl (Key.event e)) → t'.holds (Sum.inl (Key.userWord u word)) →
      Q (.ok ((scheduled request state assessment now).result word e now)) t' w') :
    wp C i Q (lift notes (applyReviewTx u word request state assessment)) t w := by
  unfold applyReviewTx
  rw [lift_bind, wp_bind, lift_choose, wp_choose]
  intro now
  dsimp only
  rw [lift_ite]
  by_cases hfits : (scheduled request state assessment now).fits = true
  · rw [if_neg (by simp [hfits]), lift_bind, wp_bind, lift_writeRow, wp_writeRow]
    intro w₁ hr₁ _ _
    rw [lift_bind, wp_bind]
    refine wp_insertEvent (fun _ _ => failed _ _ _) fun e t₂ w₂ hdid hfree hheld => ?_
    have hwrote : ∀ db, t₂.visible db = putEvent e _ (putUserWord u word _ (t.visible db)) :=
      hdid.visible
    refine applied now e t₂ w₂ ⟨hr₁.trans (rely_write hdid.rely), hdid.inv, ?_, hwrote⟩ ?_ hheld ?_
    · exact fun p hp => hdid.held (List.mem_cons_of_mem _ hp)
    · rw [Tx.visible_write, lookup_set_ne (by simp)] at hfree
      exact hfree
    · exact Tx.holds.mono (by simp) hdid.held
  · rw [if_pos (by simp [hfits])]
    exact failed _ _ _

theorem wp_lockUserWord {u : UserId} {word : WordId}
    {Q : Option UserWordRow → Tx (Both LearningSchema.Row More) →
      World (Both LearningSchema.Row More) Note' → Prop}
    (missing : ∀ t' w', Q none t' w')
    (found : ∀ state t' w', Did C i id t w t' w' → Q (some state) t' w') :
    wp C i Q (lift notes (lockUserWord u word)) t w := by
  unfold lockUserWord
  rw [lift_selectFor]
  refine @wp_selectFor (Key ⊕ Extra) _ (Both LearningSchema.Row More) Note' C i t w
    (.inl (.userWord u word)) .update (fun _ => true) Q ?_ ?_ ?_
  · exact fun _ _ _ _ => missing _ _
  · exact fun _ _ _ _ => missing _ _
  intro w₁ state hr₁ hi₁ _ _
  exact found state _ w₁ ⟨hr₁, hi₁, List.subset_cons_self _ _, fun _ => rfl⟩

theorem wp_reviewWordTxWithAssessment {u : UserId} {word : WordId} {request : ReviewRequest}
    {assessment : ReviewAssessment}
    {Q : Except TrustedReviewError ReviewResult → Tx (Both LearningSchema.Row More) →
      World (Both LearningSchema.Row More) Note' → Prop}
    (failed : ∀ why t' w', Q (.error why) t' w')
    (applied : ∀ state now e t' w',
      Did C i (fun db => putEvent e ((scheduled request state assessment now).event u word request
          now none none) (putUserWord u word ((scheduled request state assessment now).row now) db))
        t w t' w' →
      (t.visible w'.db).lookup (Sum.inl (Key.event e)) = none →
      t'.holds (Sum.inl (Key.event e)) →
      Q (.ok ((scheduled request state assessment now).result word e now)) t' w') :
    wp C i Q (lift notes (reviewWordTxWithAssessment u word request assessment)) t w := by
  unfold reviewWordTxWithAssessment
  cases validateTrustedReviewAssessment request assessment with
  | error text => exact failed _ _ _
  | ok =>
    dsimp only
    rw [lift_bind, wp_bind]
    refine wp_lockUserWord (fun _ _ => failed _ _ _) fun state t₁ w₁ hlocked => ?_
    dsimp only
    rw [lift_bind, wp_bind]
    refine wp_applyReviewTx (fun _ _ _ => failed _ _ _) fun now e t₂ w₂ hdid hfree hheld _ => ?_
    refine applied state now e t₂ w₂ (hlocked.trans hdid) ?_ hheld
    rw [hlocked.visible] at hfree
    exact hfree

end ReviewEmbedding
