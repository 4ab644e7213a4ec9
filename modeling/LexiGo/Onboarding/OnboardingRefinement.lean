import LexiGo.Onboarding.OnboardingMachine
import LexiGo.Learning.LearningWrites

/-! Every commit of a request is one move of the onboarding machine, whatever the other
requests do between its statements. -/
namespace OnboardingRefinement
open RowStore TransactionProgram Interleaving CommitContract RowStatements RunSoundness FrameRule
open WiderSchema ConfinedWrites GoText AnswerJudgement Scheduler OnboardingSchema
open OnboardingRepository OnboardingMachine Function
open LearningSchema (UserId WordId UserWordRow WordRow)

abbrev OnboardingWorld := World Row Note

/-- What the advisory lock of a user and the lock on a word are good for. -/
def Guard (m : Mode) (s s' : Onboarding) : Key → Prop
  | .inr (.onboarding u) => m = .update → Untouched u s s'
  | .inl (.word w) => WordStays w s s' ∧ (m = .update → NoNewItem w s s')
  | _ => True

def onboardingContract (allow : Nat → List Note → OnboardingWorld → OnboardingWorld → Prop) :
    Contract Row Note where
  inv w := Sound (view w.db)
  step _ notes w w' := Moves notes (view w.db) (view w'.db)
  allow := allow
  guard k m w w' := Guard m (view w.db) (view w'.db) k

/-- The rows that the machine does not speak of. -/
def Outside : Key → Prop
  | .inl (.word _) | .inl (.userWord _ _) | .inr (.preferences _) | .inr (.diagnostic _ _) => False
  | _ => True

section Views
variable {db db' : OnboardingDb}

theorem view_congr (h : ∀ k, ¬ Outside k → db'.lookup k = db.lookup k) : view db' = view db := by
  ext1
  · exact funext fun u => h (preferencesKey u) not_false
  · exact funext fun u => funext fun position => h (diagnosticKey u position) not_false
  · exact funext fun u => funext fun w => h (userWordKey u w) not_false
  · exact funext fun w => h (wordKey w) not_false

theorem view_set_outside {k : Key} (hk : Outside k) (v : Option (Row k)) :
    view (set k v db) = view db := by
  refine view_congr fun k' hk' => lookup_set_ne ?_ v db
  rintro rfl
  exact hk' hk

theorem view_set_preferences (u : UserId) (r : PreferenceRow) :
    view (set (preferencesKey u) (some r) db) = (view db).putPreferences u r := by
  ext1
  · funext u'
    by_cases hu : u' = u
    · subst hu
      simp [view, preferencesOf, Onboarding.putPreferences]
    · simp [view, preferencesOf, Onboarding.putPreferences, lookup_set_ne, hu]
  · exact funext fun u' => funext fun position => lookup_set_ne (by simp) _ _
  · exact funext fun u' => funext fun w => lookup_set_ne (by simp) _ _
  · exact funext fun w => lookup_set_ne (by simp) _ _

theorem view_set_item (u : UserId) (position : Nat) (r : DiagnosticRow) :
    view (set (diagnosticKey u position) (some r) db) = (view db).putItem u position r := by
  ext1
  · exact funext fun u' => lookup_set_ne (by simp) _ _
  · funext u' p
    by_cases hu : u' = u
    · subst hu
      by_cases hp : p = position
      · subst hp
        simp [view, diagnosticAt, Onboarding.putItem]
      · simp [view, diagnosticAt, Onboarding.putItem, lookup_set_ne, hp]
    · simp [view, diagnosticAt, Onboarding.putItem, lookup_set_ne, hu]
  · exact funext fun u' => funext fun w => lookup_set_ne (by simp) _ _
  · exact funext fun w => lookup_set_ne (by simp) _ _

theorem view_set_userWord (u : UserId) (x : WordId) (r : UserWordRow) :
    view (set (userWordKey u x) (some r) db) = (view db).putUserWord u x r := by
  ext1
  · exact funext fun u' => lookup_set_ne (by simp) _ _
  · exact funext fun u' => funext fun p => lookup_set_ne (by simp) _ _
  · funext u' x'
    by_cases hu : u' = u
    · subst hu
      by_cases hx : x' = x
      · subst hx
        simp [view, Onboarding.putUserWord]
      · simp [view, Onboarding.putUserWord, lookup_set_ne, hx]
    · simp [view, Onboarding.putUserWord, lookup_set_ne, hu]
  · exact funext fun x' => lookup_set_ne (by simp) _ _

end Views

variable {allow : Nat → List Note → OnboardingWorld → OnboardingWorld → Prop}
variable {i : Nat} {t t' : Tx Row} {w w' w'' : OnboardingWorld} {u : UserId} {x : WordId}

abbrev OnboardingRely (allow : Nat → List Note → OnboardingWorld → OnboardingWorld → Prop) (i : Nat)
    (t : Tx Row) := Rely (onboardingContract allow) i t

abbrev Keeps (allow : Nat → List Note → OnboardingWorld → OnboardingWorld → Prop)
    (p : OnboardingProg α) : Prop := Transactional (onboardingContract allow) p

theorem rely_view {P : Onboarding → Prop} (h : OnboardingRely allow i t w w')
    (keeps : ∀ notes s s', Moves notes s s' → P s → P s') (hw : P (view w.db)) : P (view w'.db) := by
  have stable : Stable (onboardingContract allow) i t fun v => P (view v.db) := by
    intro v v' ho hv
    obtain ⟨j, notes, -, hc⟩ := ho.author
    exact keeps notes _ _ hc.step hv
  exact stable.rely h hw

/-- What holds between the moves of the others, one by one, holds from first to last. -/
theorem rely_between {P : Onboarding → Onboarding → Prop} {k : Key} {m : Mode}
    (h : OnboardingRely allow i t w w') (hk : (k, m) ∈ t.held)
    (guarded : ∀ s s', Guard m s s' k → P s s') (refl : ∀ s, P s s)
    (trans : ∀ s s' s'', P s s' → P s' s'' → P s s'') : P (view w.db) (view w'.db) := by
  have stable : Stable (onboardingContract allow) i t fun v => P (view w.db) (view v.db) :=
    fun v v' ho hv => trans _ _ _ hv (guarded _ _ (ho.guard k m hk))
  exact stable.rely h (refl _)

theorem rely_untouched (h : OnboardingRely allow i t w w') (hk : (onboardingKey u, .update) ∈ t.held) :
    Untouched u (view w.db) (view w'.db) :=
  rely_between h hk (fun _ _ hg => hg rfl) (fun _ => ⟨rfl, fun _ _ hr => hr⟩) fun _ _ _ hs hs' =>
    ⟨hs'.state.trans hs.state, fun p r hr => hs.items p r (hs'.items p r hr)⟩

theorem rely_word {m : Mode} (h : OnboardingRely allow i t w w') (hk : (wordKey x, m) ∈ t.held) :
    WordStays x (view w.db) (view w'.db) :=
  rely_between h hk (fun _ _ hg => hg.1) (fun _ => ⟨id, fun _ => id⟩) fun _ _ _ hs hs' =>
    ⟨fun hword => hs'.word (hs.word hword), fun u hrow => hs'.userWord u (hs.userWord u hrow)⟩

theorem rely_noNewItem (h : OnboardingRely allow i t w w') (hk : (wordKey x, .update) ∈ t.held) :
    NoNewItem x (view w.db) (view w'.db) := by
  refine rely_between h hk (fun _ _ hg => hg.2 rfl) (fun _ u p r hr hx => ⟨r, hr, hx⟩) ?_
  intro s s' s'' hs hs' u p r hr hx
  obtain ⟨r', hr', hx'⟩ := hs' u p r hr hx
  exact hs u p r' hr' hx'

theorem rely_known (h : OnboardingRely allow i t w w') (hw : Known (view w.db) u x) :
    Known (view w'.db) u x := rely_view h (fun _ _ _ hm hk => hm.known hk) hw

theorem rely_notNew (h : OnboardingRely allow i t w w') (hw : NotNew (view w.db) u x) :
    NotNew (view w'.db) u x := rely_view h (fun _ _ _ hm hn => hm.notNew hn) hw

/-- What a request has to hold when it commits with this note. -/
structure Licensed (held : List (Key × Mode)) (n : Note) : Prop where
  onboarding : ∀ u, exclusive n = some u → (onboardingKey u, .update) ∈ held
  words : ∀ u words, n = .started u words → ∀ x ∈ words, ∃ m, (wordKey x, m) ∈ held
  deletion : ∀ u x, n = .wordDeleted u x → (wordKey x, .update) ∈ held

theorem publishes {n : Note} (inv : Sound (view w.db))
    (step : Step n (view w.db) (view (t.visible w.db))) (licensed : Licensed t.held n) :
    Publishes (onboardingContract allow) i t [n] w := by
  refine ⟨step.sound inv, .stepped step, fun k m hadmits => ?_⟩
  cases k with
  | inl k =>
    cases k with
    | word x =>
      refine ⟨step.wordStays ?_, ?_⟩
      · rintro u rfl
        have hconflict := hadmits _ (licensed.deletion u x rfl)
        cases m <;> cases hconflict
      · rintro rfl
        refine step.noNewItem ?_
        rintro u words rfl hx
        obtain ⟨n, hn⟩ := licensed.words u words rfl x hx
        have hconflict := hadmits _ hn
        cases n <;> cases hconflict
    | userWord | lesson | item | event | idempotency | lessonCreation | activeLesson => exact trivial
  | inr k =>
    cases k with
    | onboarding u =>
      rintro rfl
      refine step.untouched fun hu => ?_
      have hconflict := hadmits _ (licensed.onboarding u hu)
      cases hconflict
    | preferences | diagnostic | facets => exact trivial

theorem learned_publishes {told : List LearningSchema.Note} (inv : Sound (view w.db))
    (learned : Learned (view w.db) (view (t.visible w.db))) :
    Publishes (onboardingContract allow) i t (told.map .learned) w := by
  refine ⟨learned.sound inv, .learned told learned, fun k m _ => ?_⟩
  cases k with
  | inl k =>
    cases k with
    | word x => exact ⟨learned.wordStays x, fun _ => learned.noNewItem x⟩
    | userWord | lesson | item | event | idempotency | lessonCreation | activeLesson => exact trivial
  | inr k =>
    cases k with
    | onboarding u => exact fun _ => learned.untouched u
    | preferences | diagnostic | facets => exact trivial

section Lessons

theorem altered_learned (h : Altered (Widened LearningWrites.Learns) {} t) (db : OnboardingDb) :
    Learned (view db) (view (t.visible db)) := by
  refine ⟨?_, ?_, ?_, ?_⟩
  · exact funext fun u => (h db (preferencesKey u)).resolve_right not_false
  · exact funext fun u => funext fun p => (h db (diagnosticKey u p)).resolve_right not_false
  · exact funext fun x => (h db (wordKey x)).resolve_right not_false
  · exact fun u x => h db (userWordKey u x)

/-- The requests of the learning loop go on as if there were no onboarding. -/
theorem learn_keeps (unicode : Unicode) (op : LearningService.LessonOp) :
    wp (onboardingContract allow) i (fun _ _ _ => True)
      (lift (List.map .learned) (LearningService.lessonProgram unicode op)) {} w := by
  refine wp_confined (N := fun notes => ∃ told, notes = told.map .learned) ?_
    ((LearningWrites.lessonProgram_learns op).lift fun told _ => ⟨told, rfl⟩) .refl
  rintro t w _ halt ⟨told, rfl⟩ hi
  exact learned_publishes hi (altered_learned halt w.db)

end Lessons

section Deletion

/-- What the statements write that discard lessons. -/
def Discards : ∀ k, Option (LearningSchema.Row k) → Prop
  | .lesson _, _ => True
  | _, _ => False

/-- What a cascade writes of the tables of the learning loop. -/
def Cascades (x : WordId) : ∀ k, Option (LearningSchema.Row k) → Prop
  | .userWord _ x', v => x' = x ∧ v = none
  | .word _, _ => False
  | _, _ => True

theorem discardUsing_discards (u : UserId) (x : WordId) (now : Instant) :
    Confined Discards (fun _ => True) (CustomWords.discardUsing u x now) := by
  refine .bind (.select _) fun seen => .bind (.updateRows _ _ (fun k r hp => ?_) seen) fun changed => ?_
  · cases k with
    | lesson => exact trivial
    | word | userWord | item | event | idempotency | lessonCreation | activeLesson => cases hp
  · split
    · exact .bind (.lockRow _ _) fun _ => .pure _
    · exact .pure _

theorem discardUsing_sparing (u : UserId) (x : WordId) (now : Instant) :
    Sparing (fun _ => True) (CustomWords.discardUsing u x now) := by
  refine .bind (.select _) fun seen => .bind (.changeEach _ (fun _ _ _ _ => trivial) seen) fun changed => ?_
  split
  · exact .bind (.lockRow _ _) fun _ => .pure _
  · exact .pure _

theorem deleteWhere_sparing (p : ∀ k, LearningSchema.Row k → Bool) :
    Sparing (fun _ => True) (deleteWhere p : LessonRepository.LearningProg _) :=
  .bind (.select _) fun seen => .changeEach _ (fun _ _ _ _ => trivial) seen

theorem deleteWhere_cascades {p : ∀ k, LearningSchema.Row k → Bool}
    (hp : ∀ k r, p k r = true → Cascades x k none) :
    Confined (Cascades x) (fun _ => True) (deleteWhere p : LessonRepository.LearningProg _) := by
  refine .bind (.select _) fun seen => .changeEach _ (fun k r v hv => ?_) seen
  split at hv
  · rename_i hpr
    cases hv
    exact hp k r hpr
  · cases hv

theorem cascadeWord_sparing (x : WordId) : Sparing (fun _ => True) (CustomWords.cascadeWord x) :=
  .bind (deleteWhere_sparing _) fun _ => .bind (deleteWhere_sparing _) fun _ =>
    .bind (deleteWhere_sparing _) fun _ => .bind (deleteWhere_sparing _) fun _ => .pure _

theorem cascadeWord_cascades (x : WordId) :
    Confined (Cascades x) (fun _ => True) (CustomWords.cascadeWord x) := by
  refine .bind (deleteWhere_cascades ?_) fun _ => .bind (deleteWhere_cascades ?_) fun _ =>
    .bind (deleteWhere_cascades ?_) fun _ => .bind (deleteWhere_cascades ?_) fun _ => .pure _
  all_goals
    intro k r hp
    cases k with
    | userWord u x' =>
      first
      | exact ⟨of_decide_eq_true hp, rfl⟩
      | cases hp
    | word => cases hp
    | lesson | item | event | idempotency | lessonCreation | activeLesson => exact trivial

theorem altered_discards (h : Altered (Widened Discards) t t') (db : OnboardingDb) :
    view (t'.visible db) = view (t.visible db) := by
  refine view_congr fun k hk => (h db k).resolve_right ?_
  cases k with
  | inl k =>
    cases k with
    | word | userWord => exact not_false
    | lesson | item | event | idempotency | lessonCreation | activeLesson => exact absurd trivial hk
  | inr k => exact not_false

/-- A cascade takes rows of the learned words away, and nothing else that counts here. -/
theorem altered_cascades (h : Altered (Widened (Cascades x)) t t') (db : OnboardingDb) :
    (view (t.visible db)).Left x (view (t'.visible db)).userWord ∧
      view (t'.visible db) =
        { view (t.visible db) with userWord := (view (t'.visible db)).userWord } := by
  refine ⟨fun u x' => (h db (userWordKey u x')).imp id id, ?_⟩
  ext1
  · exact funext fun u => (h db (preferencesKey u)).resolve_right not_false
  · exact funext fun u => funext fun p => (h db (diagnosticKey u p)).resolve_right not_false
  · rfl
  · exact funext fun x' => (h db (wordKey x')).resolve_right not_false

theorem view_set_word (x : WordId) (db : OnboardingDb) :
    view (set (wordKey x) none db) = { view db with word := update (view db).word x none } := by
  ext1
  · exact funext fun u => lookup_set_ne (by simp) _ _
  · exact funext fun u => funext fun p => lookup_set_ne (by simp) _ _
  · exact funext fun u => funext fun x' => lookup_set_ne (by simp) _ _
  · funext x'
    by_cases hx : x' = x
    · subst hx
      simp [view, wordAt]
    · simp [view, wordAt, lookup_set_ne, hx]

/-- With the word locked, nobody is asked about it behind the statement's back. -/
theorem wp_deleteItems {Q : List Key → Tx Row → OnboardingWorld → Prop}
    (hx : (wordKey x, .update) ∈ t.held)
    (clean : ∀ db, (view (t.visible db)).item = (view db).item)
    (h : ∀ done t' w', OnboardingRely allow i t w w' → t.held ⊆ t'.held →
      (∀ w₂, OnboardingRely allow i t' w' w₂ → view (t'.visible w₂.db) =
        { view (t.visible w₂.db) with
          item := fun u p => ((view w₂.db).item u p).filter fun r => r.wordId ≠ x }) → Q done t' w') :
    wp (onboardingContract allow) i Q (deleteWhere (diagnosticItems fun _ _ r => r.wordId = x)) t w := by
  refine wp_deleteWhere ?_ fun done t' w' hr hheld hdone => h done t' w' hr hheld fun w₂ hr₂ => ?_
  · intro w₁ w₂ hr k r hrow hp
    cases k with
    | inl k => cases hp
    | inr k =>
      cases k with
      | preferences | facets | onboarding => cases hp
      | diagnostic u p =>
        have now : (view w₂.db).item u p = some r :=
          (congrFun (congrFun (clean w₂.db) u) p).symm.trans hrow
        obtain ⟨r₀, hr₀, hx₀⟩ := rely_noNewItem hr hx u p r now (of_decide_eq_true hp)
        exact ⟨r₀, (congrFun (congrFun (clean w₁.db) u) p).trans hr₀, decide_eq_true hx₀⟩
  · have kept : ∀ k, (∀ r, diagnosticItems (fun _ _ r => r.wordId = x) k r = false) →
        (t'.visible w₂.db).lookup k = (t.visible w₂.db).lookup k := by
      intro k hk
      rw [hdone w₂ hr₂]
      cases (t.visible w₂.db).lookup k with
      | none => rfl
      | some r => exact Option.filter_some_pos (by rw [hk]; rfl)
    ext1
    · exact funext fun u => kept (preferencesKey u) fun _ => rfl
    · funext u p
      refine (hdone w₂ hr₂ (diagnosticKey u p)).trans ?_
      have same := congrFun (congrFun (clean w₂.db) u) p
      change (Option.filter (fun r : DiagnosticRow => !decide (r.wordId = x))
        ((view (t.visible w₂.db)).item u p)) = _
      rw [same]
      simp only [decide_not]
    · exact funext fun u => funext fun x' => kept (userWordKey u x') fun _ => rfl
    · exact funext fun x' => kept (wordKey x') fun _ => rfl

theorem deleteCustom_keeps (kind : WordKind) (missing : LessonRepository.LessonError) (u : UserId)
    (x : WordId) : Keeps allow (deleteCustom kind missing u x) := by
  intro i w
  unfold deleteCustom
  rw [wp_bind, wp_choose]
  intro dbNow
  have discards : Confined (Widened Discards) (fun _ => True)
      (lift (fun _ => []) (CustomWords.discardUsing u x dbNow) : OnboardingProg _) :=
    (discardUsing_discards u x dbNow).lift fun _ _ => trivial
  have cascades : Confined (Widened (Cascades x)) (fun _ => True)
      (lift (fun _ => []) (CustomWords.cascadeWord x) : OnboardingProg _) :=
    (cascadeWord_cascades x).lift fun _ _ => trivial
  rw [wp_bind]
  refine wp_part (sparing_lift (discardUsing_sparing u x dbNow)) discards
    fun _ t₁ w₁ hr₁ hheld₁ halt₁ => ?_
  unfold CustomWords.lockWord
  rw [lift_selectFor, wp_bind]
  refine @wp_selectFor Key _ Row Note _ i t₁ w₁ (wordKey x) .update (CustomWords.isCustom u kind) _
    (fun _ _ _ _ => rfl) (fun _ _ _ _ => rfl) fun w₂ r hr₂ _ _ _ => ?_
  dsimp only
  rw [wp_bind, wp_writeRow]
  intro w₃ hr₃ _ _
  have gone : ∀ db, view (((t₁.hold (wordKey x) .update).write (wordKey x) .update none).visible db) =
      { view db with word := update (view db).word x none } := by
    intro db
    rw [Tx.visible_write, Tx.visible_hold, view_set_word, altered_discards halt₁]
    rfl
  rw [wp_bind]
  refine wp_part (sparing_lift (cascadeWord_sparing x)) cascades fun _ t₄ w₄ hr₄ hheld₄ halt₄ => ?_
  have hx : (wordKey x, .update) ∈ t₄.held := hheld₄ List.mem_cons_self
  have cascaded : ∀ db, (view db).Left x (view (t₄.visible db)).userWord ∧
      view (t₄.visible db) = { view db with
        userWord := (view (t₄.visible db)).userWord, word := update (view db).word x none } := by
    intro db
    obtain ⟨hleft, heq⟩ := altered_cascades halt₄ db
    rw [gone] at hleft heq
    exact ⟨hleft, heq⟩
  rw [wp_bind]
  refine wp_deleteItems hx (fun db => ?_) fun done t₅ w₅ hr₅ hheld₅ hview₅ => ?_
  · rw [(cascaded db).2]
  rw [wp_bind, wp_writeRow]
  intro w₆ hr₆ _ _
  rw [wp_bind, wp_commit]
  intro w₇ hr₇ hi₇ _
  have hr := hr₆.trans (rely_write hr₇)
  obtain ⟨hleft, heq⟩ := cascaded w₇.db
  refine ⟨publishes hi₇ ?_ ⟨?_, ?_, ?_⟩, rfl⟩
  · have outside : Outside (.inr (.facets x)) := trivial
    rw [Tx.visible_write, view_set_outside outside, hview₅ w₇ hr, heq]
    exact .wordDeleted hleft
  · rintro _ ⟨⟩
  · rintro _ _ ⟨⟩
  · rintro _ _ ⟨⟩
    exact List.mem_cons_of_mem _ (hheld₅ hx)

end Deletion

end OnboardingRefinement
