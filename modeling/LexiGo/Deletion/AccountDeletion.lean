import LexiGo.Deletion.DeletionCascade

/-! When an account or a custom word can be deleted: not as long as somebody's
accepted step keeps one of its reviews. -/
namespace AccountDeletion
open RowStore ReferentialActions AnswerJudgement Scheduler DeletionSchema DeletionCascade
open LearningSchema (UserId WordId EventId LessonId)

variable {db db' : DeletionDb} {u : UserId} {w : WordId} {now : Instant}

/-- No foreign key of any row leads to `u`. -/
def Unreferenced (u : UserId) (db : DeletionDb) : Prop :=
  ∀ fk ∈ schema.foreignKeys, ∀ k r, db.lookup k = some r → fk.target k r ≠ some (.user u)

/-- The account goes, given the password that it has, and leaves nothing behind. -/
def Deletes (u : UserId) (row : UserRow) (db : DeletionDb) : Prop :=
  ∃ db', delete u db row.passwordHash = .ok db' ∧ Unreferenced u db'

def DeletesWord (u : UserId) (w : WordId) (now : Instant) (db : DeletionDb) : Prop :=
  ∃ db', deleteCustomWord u w now db = .ok db'

theorem executed_ok {ε : Type} {failed : ε} {o : Option DeletionDb} :
    (∃ db', executed failed o = .ok db') ↔ o ≠ none := by
  cases o with
  | none => simp [executed]
  | some db => exact iff_of_true ⟨db, rfl⟩ (by simp)

theorem delete_eq {row : UserRow} (h : db.lookup (.user u) = some row) :
    delete u db row.passwordHash = executed .internal (deleteRow schema (.user u) db) := by
  unfold delete
  rw [h]
  dsimp only
  rw [if_pos rfl]

theorem deletes_iff (hdb : Legal schema db) {row : UserRow} (h : db.lookup (.user u) = some row) :
    Deletes u row db ↔ ¬ HoldsReviewOf u db := by
  unfold Deletes
  rw [← user_refused_iff hdb, delete_eq h]
  constructor
  · rintro ⟨db', hok, -⟩
    exact executed_ok.1 ⟨db', hok⟩
  · intro hsome
    obtain ⟨db', hdelete⟩ := Option.ne_none_iff_exists'.1 hsome
    have hdeleted := deleteRow_spec hdelete
    exact ⟨db', by rw [hdelete, executed], hdeleted.clean (.user u) (.inl rfl) hdeleted.gone⟩

/-- To discard lessons is to change rows of theirs only. -/
theorem lookup_discardUsing (u : UserId) (w : WordId) (now : Instant) (db : DeletionDb) (k : Key)
    (h : ∀ l, k ≠ .lesson l) : (discardUsing u w now db).lookup k = db.lookup k := by
  rw [discardUsing, lookup_amend (rowsWhere_nodup _ _)]
  split
  · cases k with
    | lesson l => exact absurd rfl (h l)
    | _ => cases AList.lookup _ db <;> rfl
  · rfl

theorem discardUsing_legal (hdb : Legal schema db) : Legal schema (discardUsing u w now db) := by
  refine hdb.amend (rowsWhere_nodup _ _) fun k r => ?_
  cases k with
  | lesson l =>
    refine ⟨_, rfl, fun _ => rfl, fun fk hfk => ?_⟩
    obtain ⟨c, rfl⟩ := mem_foreignKeys hfk
    cases c <;> rfl
  | _ => exact ⟨r, rfl, id, fun _ _ => rfl⟩

theorem holdsReviewAbout_discard :
    HoldsReviewAbout w (discardUsing u w now db) ↔ HoldsReviewAbout w db := by
  have hreviewed : ∀ a n step e event,
      ReviewedStep (discardUsing u w now db) a n step e event ↔ ReviewedStep db a n step e event := by
    intro a n step e event
    have hstep := lookup_discardUsing u w now db (.step a n) (by simp)
    have hevent := lookup_discardUsing u w now db (.event e) (by simp)
    exact ⟨fun h => ⟨hstep ▸ h.found, h.review, hevent ▸ h.event⟩,
      fun h => ⟨hstep ▸ h.found, h.review, hevent ▸ h.event⟩⟩
  simp only [HoldsReviewAbout, hreviewed]

theorem deletesWord_iff (hdb : Legal schema db) {row : WordRow} (h : db.lookup (.word w) = some row)
    (howner : row.owner = some u) (hkind : row.kind = .word) :
    DeletesWord u w now db ↔ ¬ HoldsReviewAbout w db := by
  have hsource : row.source = CustomWords.customWordSource := by
    have := hdb.checks _ _ h
    simpa [schema, check, howner] using this
  have hcustom : isCustomWord u row = true := by
    simp [isCustomWord, howner, hkind, hsource]
  have hfound : (discardUsing u w now db).lookup (.word w) = some row := by
    rw [lookup_discardUsing u w now db (.word w) (by simp), h]
  unfold DeletesWord deleteCustomWord
  dsimp only
  rw [hfound]
  dsimp only
  rw [if_pos hcustom, executed_ok, Ne, word_refused_iff (discardUsing_legal hdb),
    holdsReviewAbout_discard]

/-- In every state that there can be, an account or a custom word can be deleted
exactly when no accepted step keeps one of its reviews. -/
theorem deletion_works_iff (h : Reached schema db) :
    (∀ u row, db.lookup (.user u) = some row → (Deletes u row db ↔ ¬ HoldsReviewOf u db)) ∧
      ∀ u w row now, db.lookup (.word w) = some row → row.owner = some u → row.kind = .word →
        (DeletesWord u w now db ↔ ¬ HoldsReviewAbout w db) :=
  ⟨fun _ _ hu => deletes_iff h.legal hu, fun _ _ _ _ hw howner hkind =>
    deletesWord_iff h.legal hw howner hkind⟩

/-- One user, whose own word is the one that the term of a scenario step comes upon,
and the step once it is submitted. -/
def submittedOnce : List (Statement Row) :=
  [.insert (.user 1) (⟨"hash"⟩ : UserRow),
    .insert (.word 7) ({ owner := some 1, source := "user-custom-v1" } : WordRow),
    .insert (.userWord 1 7) (),
    .insert (.attempt 1) (⟨1⟩ : OwnedRow),
    .insert (.word 8) ({ source := "lexigo-scenario-vocabulary-v1" } : WordRow),
    .insert (.event 1) (⟨1, 7⟩ : EventRow),
    .insert (.step 1 0) (⟨.accepted, some 1, some "{}", some 0⟩ : StepRow)]

def afterSubmission : DeletionDb := (executeAll schema submittedOnce ∅).getD ∅

theorem afterSubmission_reached : Reached schema afterSubmission := by
  have hsome : (executeAll schema submittedOnce ∅).isSome = true := by decide +kernel
  obtain ⟨db, hdb⟩ := Option.isSome_iff_exists.1 hsome
  refine @Reached.all _ _ _ schema _ _ submittedOnce .empty ?_
  rw [afterSubmission, hdb, Option.getD_some]

theorem submission_iff :
    (Deletes 1 ⟨"hash"⟩ afterSubmission ↔ ¬ HoldsReviewOf 1 afterSubmission) ∧
      (DeletesWord 1 7 0 afterSubmission ↔ ¬ HoldsReviewAbout 7 afterSubmission) :=
  ⟨(deletion_works_iff afterSubmission_reached).1 1 ⟨"hash"⟩ (by decide +kernel),
    (deletion_works_iff afterSubmission_reached).2 1 7
      { owner := some 1, source := "user-custom-v1" } 0 (by decide +kernel) rfl rfl⟩

/-- After one submission neither the account nor the word can be deleted any more. -/
theorem submission_blocks : Reached schema afterSubmission ∧
    (afterSubmission.lookup (.user 1) : Option UserRow) = some ⟨"hash"⟩ ∧
    ¬ Deletes 1 ⟨"hash"⟩ afterSubmission ∧
    (afterSubmission.lookup (.word 7) : Option WordRow) =
      some { owner := some 1, source := "user-custom-v1" } ∧
    ¬ DeletesWord 1 7 0 afterSubmission := by
  have hdelete : (delete 1 afterSubmission "hash").toBool = false := by decide +kernel
  have hdeleteWord : (deleteCustomWord 1 7 0 afterSubmission).toBool = false := by decide +kernel
  refine ⟨afterSubmission_reached, by decide +kernel, ?_, by decide +kernel, ?_⟩
  · rintro ⟨db', hok, -⟩
    rw [hok] at hdelete
    cases hdelete
  · rintro ⟨db', hok⟩
    rw [hok] at hdeleteWord
    cases hdeleteWord

end AccountDeletion
