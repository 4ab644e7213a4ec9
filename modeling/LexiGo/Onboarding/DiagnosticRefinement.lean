import LexiGo.Onboarding.OnboardingRefinement
import LexiGo.Onboarding.DiagnosticItems

/-! The transactions of the diagnostic keep the contract of the onboarding, and what they
answer is so. -/
namespace DiagnosticRefinement
open RowStore TransactionProgram Interleaving CommitContract RowStatements RunSoundness
open WiderSchema GoText AnswerJudgement Scheduler DiagnosticSelection OnboardingSchema
open OnboardingRepository OnboardingMachine OnboardingRefinement DiagnosticItems Function
open LearningSchema (UserId WordId UserWordRow WordRow)

variable {allow : Nat → List Note → OnboardingWorld → OnboardingWorld → Prop}
variable {i : Nat} {t t' : Tx Row} {w w' w'' born : OnboardingWorld} {u : UserId} {r : PreferenceRow}

/-- Every word there is was there before. -/
def Since (born w : OnboardingWorld) : Prop :=
  ∀ x, ((view w.db).word x).isSome = true → ((view born.db).word x).isSome = true

theorem Since.rely (h : Since born w) (hr : OnboardingRely allow i t w w') : Since born w' :=
  rely_view (P := fun m => ∀ x, (m.word x).isSome = true → ((view born.db).word x).isSome = true) hr
    (fun _ _ _ hm hs x hx => hs x (hm.word_back hx)) h

theorem Since.publish {notes : List Note} (h : Since born w)
    (hp : Publishes (onboardingContract allow) i t notes w) : Since born (w.publish i t notes) :=
  fun x hx => h x (hp.step.word_back hx)

theorem rely_completed (hr : OnboardingRely allow i t w w') (hw : (view w.db).state u = .completed) :
    (view w'.db).state u = .completed :=
  rely_view (P := fun m => m.state u = .completed) hr (fun _ _ _ hm hs => hm.completed_kept hs) hw

/-- What is so of a snapshot whenever it was taken. -/
structure Snapped (born : OnboardingWorld) (snapshot : OnboardingSnapshot) : Prop where
  marked : snapshot.marked ≤ snapshot.total
  total : snapshot.total ≤ 12
  current : ∀ found, snapshot.current = some found → snapshot.state = .inProgress ∧
    found.position < 12 ∧ ((view born.db).word found.wordId).isSome = true
  finished : snapshot.state = .completed → snapshot.marked = snapshot.total

/-- A reply with a snapshot, which says `completed` if it has to. -/
def Shows (born : OnboardingWorld) (final : Prop) (reply : Reply OnboardingSnapshot) (t : Tx Row)
    (_ : OnboardingWorld) : Prop :=
  t = {} ∧ ∀ snapshot, reply = .ok snapshot →
    Snapped born snapshot ∧ (final → snapshot.state = .completed)

theorem Shows.refused {final : Prop} {why : OnboardingError} (w : OnboardingWorld) :
    Shows born final (.error why) {} w := ⟨rfl, fun _ h => by cases h⟩

theorem Shows.final {final : Prop} {reply : Reply OnboardingSnapshot} (hf : final)
    (h : Shows born final reply t w) (other : Prop) : Shows born other reply t w :=
  ⟨h.1, fun s hs => ⟨(h.2 s hs).1, fun _ => (h.2 s hs).2 hf⟩⟩

theorem wp_onboardingStatus (since : Since born w) : wp (onboardingContract allow) i
    (Shows born ((view w.db).state u = .completed)) (onboardingStatus u) {} w := by
  unfold onboardingStatus
  rw [wp_bind, wp_select]
  intro w₁ hr₁ _
  rw [wp_bind, wp_select]
  intro w₂ hr₂ hi₂
  rw [Tx.visible_empty, Tx.visible_empty]
  have since₂ := (since.rely hr₁).rely hr₂
  have finished : stateOf u w₁.db = .completed → (progress u w₂.db).2 = (progress u w₂.db).1 :=
    fun hs => progress_finished.2 fun position r hr =>
      hi₂.finished u position r (rely_completed hr₂ hs) hr
  dsimp only
  split
  · refine ⟨rfl, ?_⟩
    rintro _ ⟨⟩
    refine ⟨⟨progress_le, progress_bounded hi₂, ?_, finished⟩, fun hs => rely_completed hr₁ hs⟩
    rintro _ ⟨⟩
  · rename_i hstate
    have hstate : stateOf u w₁.db = .inProgress := not_not.1 hstate
    rw [wp_bind, wp_select]
    intro w₃ hr₃ hi₃
    rw [Tx.visible_empty]
    refine ⟨rfl, ?_⟩
    rintro _ ⟨⟩
    refine ⟨⟨progress_le, progress_bounded hi₂, ?_, finished⟩, fun hs => rely_completed hr₁ hs⟩
    intro found hfound
    obtain ⟨r, hr, -, -, hword⟩ := currentPrompt_some hfound
    exact ⟨hstate, hi₃.bounded u _ r hr, since₂.rely hr₃ _ hword⟩

/-- A commit of a note, and then a look at what has become of the onboarding. -/
theorem wp_commitStatus {n : Note} {final : Prop} (since : Since born w)
    (licensed : Licensed t.held n)
    (step : ∀ w', OnboardingRely allow i t w w' → Sound (view w'.db) →
      Step n (view w'.db) (view (t.visible w'.db)) ∧
        (final → (view (t.visible w'.db)).state u = .completed)) :
    wp (onboardingContract allow) i (Shows born final)
      (do commit [n]; onboardingStatus u) t w := by
  rw [wp_bind, wp_commit]
  intro w' hr hi _
  obtain ⟨hstep, hfinal⟩ := step w' hr hi
  have hpublishes : Publishes (onboardingContract allow) i t [n] w' := publishes hi hstep licensed
  refine ⟨hpublishes, wp_mono ?_ (wp_onboardingStatus ((since.rely hr).publish hpublishes))⟩
  exact fun reply t w hs => ⟨hs.1, fun s h => ⟨(hs.2 s h).1, fun hf => (hs.2 s h).2 (hfinal hf)⟩⟩

/-- The onboarding of a user is locked; so is the row of the preferences, which the
transaction sees as `r`. -/
structure Begun (u : UserId) (r : PreferenceRow) (t : Tx Row) (w : OnboardingWorld) : Prop where
  onboarding : (onboardingKey u, .update) ∈ t.held
  held : (preferencesKey u, .update) ∈ t.held
  row : (preferencesOf u w.db).getD {} = r
  visible : ∀ db, preferencesOf u db = preferencesOf u w.db →
    view (t.visible db) = (view db).putPreferences u r
  others : ∀ db, { view (t.visible db) with preferences := (view db).preferences } = view db

theorem Begun.rely (h : Begun u r t w) (hr : OnboardingRely allow i t w w') : Begun u r t w' := by
  have same : preferencesOf u w'.db = preferencesOf u w.db := hr.row h.held (by simp)
  refine ⟨h.onboarding, h.held, ?_, fun db hdb => h.visible db (hdb.trans same), h.others⟩
  rw [same]
  exact h.row

theorem Begun.state (h : Begun u r t w) : (view w.db).state u = r.onboardingState := by
  rw [← h.row, ← getD_state]
  rfl

theorem Begun.now (h : Begun u r t w) : view (t.visible w.db) = (view w.db).putPreferences u r :=
  h.visible _ rfl

theorem Begun.item (h : Begun u r t w) (db : OnboardingDb) :
    (view (t.visible db)).item = (view db).item := by
  have hothers := congrArg Onboarding.item (h.others db)
  exact hothers

theorem Begun.word (h : Begun u r t w) (db : OnboardingDb) :
    (view (t.visible db)).word = (view db).word := by
  have hothers := congrArg Onboarding.word (h.others db)
  exact hothers

theorem Begun.sees (h : Begun u r t w) : (t.visible w.db).lookup (preferencesKey u) = some r := by
  have hrow := congrFun (congrArg Onboarding.preferences h.now) u
  exact hrow.trans (update_self ..)

theorem Begun.found (h : Begun u r t w) (hr : r.onboardingState ≠ .notStarted) :
    (view w.db).preferences u = some r := by
  have hrow := h.row
  change preferencesOf u w.db = _
  cases hp : preferencesOf u w.db with
  | none =>
    rw [hp] at hrow
    subst hrow
    exact absurd rfl hr
  | some r' =>
    rw [hp] at hrow
    exact congrArg some hrow

/-- A row that was there is what the transaction sees, and all it sees is committed. -/
theorem Begun.clean (h : Begun u r t w) (hr : r.onboardingState ≠ .notStarted) :
    view (t.visible w.db) = view w.db := by
  rw [h.now, putPreferences_self (h.found hr)]

theorem begun_found (hlock : (onboardingKey u, .update) ∈ t.held) (clean : ∀ db, t.visible db = db)
    (hrow : (t.visible w.db).lookup (preferencesKey u) = some r) :
    Begun u r (t.hold (preferencesKey u) .update) w := by
  have hrow : preferencesOf u w.db = some r := by rwa [clean] at hrow
  refine ⟨List.mem_cons_of_mem _ hlock, List.mem_cons_self, by rw [hrow]; rfl, fun db hdb => ?_,
    fun db => ?_⟩
  · rw [Tx.visible_hold, clean, putPreferences_self (hdb.trans hrow)]
  · rw [Tx.visible_hold, clean]

/-- The row is inserted with its defaults, or with what the statement gives. -/
theorem inserted_sees (clean : ∀ db, t.visible db = db) (db : OnboardingDb) :
    view (((t.hold (preferencesKey u) .update).write (preferencesKey u) .update (some r)).visible db) =
      (view db).putPreferences u r := by
  rw [Tx.visible_write, Tx.visible_hold, clean, view_set_preferences]

theorem wp_lockPreferences {Q : Option PreferenceRow → Tx Row → OnboardingWorld → Prop}
    (hlock : (onboardingKey u, .update) ∈ t.held) (clean : ∀ db, t.visible db = db)
    (missing : ∀ t' w', OnboardingRely allow i t w w' → t.held ⊆ t'.held →
      (∀ db, t'.visible db = db) → Q none t' w')
    (found : ∀ r w', OnboardingRely allow i t w w' → Sound (view w'.db) →
      Begun u r (t.hold (preferencesKey u) .update) w' →
      Q (some r) (t.hold (preferencesKey u) .update) w') :
    wp (onboardingContract allow) i Q (lockPreferences u) t w := by
  unfold lockPreferences
  refine @wp_selectFor Key _ Row Note _ i t w (preferencesKey u) .update (fun _ => true) Q ?_ ?_ ?_
  · exact fun w' hr _ _ => missing t w' hr (List.Subset.refl _) clean
  · exact fun w' hr _ _ => missing _ w' hr (fun _ hx => List.mem_cons_of_mem _ hx) clean
  · exact fun w' r hr hi hrow _ => found r w' hr hi (begun_found hlock clean hrow)

/-- Changing the preferences once they are locked. -/
theorem wp_updatePreferences {g : PreferenceRow → PreferenceRow}
    {Q : Option PreferenceRow → Tx Row → OnboardingWorld → Prop}
    (held : t.holds (preferencesKey u))
    (sees : (t.visible w.db).lookup (preferencesKey u) = some r)
    (h : ∀ t' w', OnboardingRely allow i t w w' → t.held ⊆ t'.held →
      (∀ db, view (t'.visible db) = (view (t.visible db)).putPreferences u (g r)) →
      Q (some r) t' w') :
    wp (onboardingContract allow) i Q (updatePreferences u g) t w := by
  unfold updatePreferences
  refine @wp_updateRow_locked Key _ Row Note _ i t w (preferencesKey u) .noKeyUpdate (fun _ => true)
    g r Q (.inl rfl) held sees rfl fun w' hr _ => h _ w' hr ?_ fun db => ?_
  · exact fun _ hx => List.mem_cons_of_mem _ (List.mem_cons_of_mem _ hx)
  · rw [Tx.visible_write, view_set_preferences, Tx.visible_hold]

theorem setDailyGoal_keeps (u : UserId) (goal : Nat) : Keeps allow (setDailyGoal u goal) := by
  intro i w
  unfold setDailyGoal
  have licensed : ∀ held, Licensed held (.goalSet u goal) := fun held =>
    ⟨by rintro _ ⟨⟩, by rintro _ _ ⟨⟩, by rintro _ _ ⟨⟩⟩
  rw [wp_bind]
  refine wp_insertRow (fun w₁ r hr₁ _ hrow => ?_) fun w₁ hr₁ _ hfree => ?_
  · rw [if_neg (by simp), wp_bind]
    refine wp_updatePreferences ⟨.update, by simp, List.mem_cons_self⟩ hrow fun t₂ w₂ hr₂ hheld₂ hview₂ => ?_
    rw [wp_bind, wp_commit]
    intro w₃ hr₃ hi₃ _
    have hkept : preferencesOf u w₃.db = some r :=
      (hr₂.trans (hr₃.mono fun _ hx => hheld₂ hx)).row List.mem_cons_self (by simp) |>.trans hrow
    refine ⟨publishes hi₃ ?_ (licensed _), rfl⟩
    rw [hview₂]
    refine .goalSet (r := r) ?_
    change r = (preferencesOf u w₃.db).getD {}
    rw [hkept]
    rfl
  · rw [if_pos rfl, wp_bind, wp_commit]
    intro w₂ hr₂ hi₂ _
    have hnone : preferencesOf u w₂.db = none :=
      (hr₂.row (List.mem_cons_self) (by simp)).trans hfree
    refine ⟨publishes hi₂ ?_ (licensed _), rfl⟩
    rw [inserted_sees fun _ => rfl]
    refine .goalSet (r := {}) ?_
    change _ = (preferencesOf u w₂.db).getD {}
    rw [hnone]
    rfl

theorem skipOnboarding_keeps (u : UserId) (born : OnboardingWorld) (since : Since born w) :
    wp (onboardingContract allow) i (Shows born False) (skipOnboarding u) {} w := by
  unfold skipOnboarding lockOnboarding
  rw [wp_bind, wp_lockRow]
  intro w₁ hr₁ _
  rw [wp_bind, wp_choose]
  intro now
  rw [wp_bind]
  have since₁ := since.rely hr₁
  have licensed : ∀ {held n}, (onboardingKey u, Mode.update) ∈ held → n = .skipped u ∨ n = .skipKept u →
      Licensed held n := by
    rintro held n hheld hn
    refine ⟨?_, ?_, ?_⟩
    · rcases hn with rfl | rfl <;> (rintro _ ⟨⟩; exact hheld)
    · rcases hn with rfl | rfl <;> rintro _ _ ⟨⟩
    · rcases hn with rfl | rfl <;> rintro _ _ ⟨⟩
  refine wp_lockPreferences List.mem_cons_self (fun _ => rfl) ?_ ?_
  · intro t₂ w₂ hr₂ hheld₂ clean₂
    dsimp only
    rw [wp_bind]
    refine wp_insertRow (fun w' _ _ _ _ => .refused w') fun w₃ hr₃ _ hfree => ?_
    rw [if_pos rfl]
    refine wp_commitStatus ((since₁.rely hr₂).rely hr₃) (licensed ?_ (.inl rfl)) fun w₄ hr₄ _ => ?_
    · exact List.mem_cons_of_mem _ (List.mem_cons_of_mem _ (hheld₂ List.mem_cons_self))
    refine ⟨?_, False.elim⟩
    have hnone : preferencesOf u w₄.db = none := by
      rw [clean₂] at hfree
      exact (hr₄.row List.mem_cons_self (by simp)).trans hfree
    rw [inserted_sees clean₂]
    refine .skipped (r := {}) ?_ ?_
    · rw [← getD_state]
      change ((preferencesOf u w₄.db).getD {}).onboardingState ≠ _
      rw [hnone]
      exact OnboardingState.noConfusion
    · change _ = (preferencesOf u w₄.db).getD {}
      rw [hnone]
      rfl
  · intro r w₂ hr₂ hi₂ begun
    dsimp only
    have since₂ := since₁.rely hr₂
    split
    · rename_i hdone
      refine wp_commitStatus since₂ (licensed begun.onboarding (.inr rfl)) fun w₃ hr₃ _ =>
        ⟨?_, False.elim⟩
      have begun₃ := begun.rely hr₃
      rw [begun₃.clean (by rw [hdone]; exact OnboardingState.noConfusion)]
      exact .skipKept (begun₃.state.trans hdone)
    · rename_i hnot
      rw [wp_bind]
      refine wp_updatePreferences ⟨.update, by simp, begun.held⟩ begun.sees fun t₃ w₃ hr₃ hheld₃ hview₃ => ?_
      refine wp_commitStatus (since₂.rely hr₃) (licensed (hheld₃ begun.onboarding) (.inl rfl))
        fun w₄ hr₄ _ => ⟨?_, False.elim⟩
      have begun₄ := begun.rely (hr₃.trans (hr₄.mono fun _ hx => hheld₃ hx))
      rw [hview₃, begun₄.now, putPreferences_twice]
      exact .skipped (by rw [begun₄.state]; exact hnot) begun₄.row.symm

section Starting
variable {unicode : Unicode} {digest : UserId → WordId → Nat}

/-- With the onboarding locked, no item of the user comes up behind the statement's back. -/
theorem wp_clearItems {Q : List Key → Tx Row → OnboardingWorld → Prop}
    (hlock : (onboardingKey u, .update) ∈ t.held)
    (clean : ∀ db, (view (t.visible db)).item = (view db).item)
    (h : ∀ done t' w', OnboardingRely allow i t w w' → t.held ⊆ t'.held →
      (∀ w₂, OnboardingRely allow i t' w' w₂ →
        view (t'.visible w₂.db) = (view (t.visible w₂.db)).putItems u []) → Q done t' w') :
    wp (onboardingContract allow) i Q (deleteWhere (diagnosticItems fun u' _ _ => u' = u)) t w := by
  refine wp_deleteWhere ?_ fun done t' w' hr hheld hdone => h done t' w' hr hheld fun w₂ hr₂ => ?_
  · intro w₁ w₂ hr k r hrow hp
    cases k with
    | inl k => cases hp
    | inr k =>
      cases k with
      | preferences | facets | onboarding => cases hp
      | diagnostic u' p =>
        obtain rfl := of_decide_eq_true hp
        have now : (view w₂.db).item u' p = some r :=
          (congrFun (congrFun (clean w₂.db) u') p).symm.trans hrow
        have before := (rely_untouched hr hlock).items p r now
        exact ⟨r, (congrFun (congrFun (clean w₁.db) u') p).trans before, hp⟩
  · have kept : ∀ k, (∀ r, diagnosticItems (fun u' _ _ => u' = u) k r = false) →
        (t'.visible w₂.db).lookup k = (t.visible w₂.db).lookup k := by
      intro k hk
      rw [hdone w₂ hr₂]
      cases (t.visible w₂.db).lookup k with
      | none => rfl
      | some r => exact Option.filter_some_pos (by rw [hk]; rfl)
    ext1
    · exact funext fun u' => kept (preferencesKey u') fun _ => rfl
    · funext u' p
      by_cases hu : u' = u
      · subst hu
        refine (hdone w₂ hr₂ (diagnosticKey u' p)).trans ?_
        change _ = update (view (t.visible w₂.db)).item u' (fun _ => none) u' p
        rw [update_self]
        cases (t.visible w₂.db).lookup (diagnosticKey u' p) with
        | none => rfl
        | some r => exact Option.filter_some_neg (by simp [diagnosticItems])
      · refine (kept (diagnosticKey u' p) fun _ => decide_eq_false hu).trans ?_
        change _ = update (view (t.visible w₂.db)).item u _ u' p
        rw [update_of_ne hu]
        rfl
    · exact funext fun u' => funext fun x => kept (userWordKey u' x) fun _ => rfl
    · exact funext fun x => kept (wordKey x) fun _ => rfl

theorem wp_insertItem {position : Nat} {x : WordId} {Q : Bool → Tx Row → OnboardingWorld → Prop}
    (failed : ∀ t' w', Q false t' w')
    (inserted : ∀ t' w', OnboardingRely allow i t w w' → t.held ⊆ t'.held →
      (∀ db, view (t'.visible db) = (view (t.visible db)).putItem u position { wordId := x }) →
      (wordKey x, .keyShare) ∈ t'.held → ((view (t.visible w'.db)).word x).isSome = true → Q true t' w') :
    wp (onboardingContract allow) i Q (insertItem u position x) t w := by
  unfold insertItem
  split
  · exact failed _ _
  rw [wp_bind, wp_select]
  intro w₁ hr₁ _
  split
  · exact failed _ _
  rw [wp_bind]
  refine wp_insertRow (fun w₂ r hr₂ _ _ => ?_) fun w₂ hr₂ _ _ => ?_
  · exact failed _ _
  · rw [if_pos rfl]
    unfold LessonRepository.referenceWord
    rw [lift_bind, lift_lockRow, wp_bind, wp_lockRow]
    intro w₃ hr₃ _ w₄ hr₄ _
    have hr : OnboardingRely allow i t w w₄ := (hr₁.trans hr₂).trans
      (((rely_hold (rely_write hr₃))).trans (rely_hold (rely_write (rely_hold hr₄))))
    dsimp only
    rw [lookup_part, Tx.visible_hold, Tx.visible_write, lookup_set_ne (by simp), Tx.visible_hold]
    by_cases hthere : ((view (t.visible w₄.db)).word x).isSome = true
    · change Q ((view (t.visible w₄.db)).word x).isSome _ _
      rw [hthere]
      refine inserted _ w₄ hr ?_ ?_ List.mem_cons_self hthere
      · exact fun _ hx => List.mem_cons_of_mem _ (List.mem_cons_of_mem _ (List.mem_cons_of_mem _ hx))
      · intro db
        rw [Tx.visible_hold, Tx.visible_write, view_set_item, Tx.visible_hold]
    · change Q ((view (t.visible w₄.db)).word x).isSome _ _
      rw [Bool.eq_false_iff.2 hthere]
      exact failed _ _

/-- What the transaction knows of the words whose items are in place. -/
def Placed (t : Tx Row) (w : OnboardingWorld) (words : List WordId) : Prop :=
  ∀ x ∈ words, (wordKey x, .keyShare) ∈ t.held ∧ ((view w.db).word x).isSome = true

theorem Placed.rely {words : List WordId} (h : Placed t w words) (hr : OnboardingRely allow i t w w') :
    Placed t w' words :=
  fun x hx => ⟨(h x hx).1, (rely_word hr (h x hx).1).word (h x hx).2⟩

theorem wp_insertItems {words : List WordId} {position : Nat}
    {Q : Bool → Tx Row → OnboardingWorld → Prop}
    (clean : ∀ w', OnboardingRely allow i t w w' →
      (view (t.visible w'.db)).word = (view w'.db).word) (failed : ∀ t' w', Q false t' w')
    (inserted : ∀ t' w', OnboardingRely allow i t w w' → t.held ⊆ t'.held →
      (∀ db, view (t'.visible db) = lay (view (t.visible db)) u position words) →
      Placed t' w' words → Q true t' w') :
    wp (onboardingContract allow) i Q (insertItems u position words) t w := by
  induction words generalizing t w position with
  | nil =>
    refine inserted t w .refl (List.Subset.refl _) (fun _ => rfl) ?_
    intro x hx
    cases hx
  | cons x rest ih =>
    unfold insertItems
    rw [wp_bind]
    refine wp_insertItem (fun t' w' => failed t' w') fun t₁ w₁ hr₁ hheld₁ hview₁ hlock hthere => ?_
    rw [if_pos rfl]
    have clean₁ : ∀ w', OnboardingRely allow i t₁ w₁ w' →
        (view (t₁.visible w'.db)).word = (view w'.db).word := by
      intro w' hr'
      rw [hview₁]
      exact clean w' (hr₁.trans (hr'.mono fun _ hx => hheld₁ hx))
    refine ih clean₁ fun t₂ w₂ hr₂ hheld₂ hview₂ placed => ?_
    refine inserted t₂ w₂ (hr₁.trans (hr₂.mono fun _ hx => hheld₁ hx)) (fun _ hx => hheld₂ (hheld₁ hx))
      (fun db => ?_) fun x' hx' => ?_
    · rw [hview₂, hview₁]
      rfl
    · rcases List.mem_cons.1 hx' with rfl | hx'
      · rw [clean w₁ hr₁] at hthere
        exact ⟨hheld₂ hlock, (rely_word hr₂ hlock).word hthere⟩
      · exact placed x' hx'

theorem startDiagnostic_keeps (since : Since born w) (begun : Begun u r t w)
    (hnot : r.onboardingState ≠ .inProgress) (hnever : r.onboardingState ≠ .completed) :
    wp (onboardingContract allow) i (Shows born False) (startDiagnostic unicode digest u) t w := by
  unfold startDiagnostic
  rw [wp_bind, wp_select]
  intro w₁ hr₁ _
  have begun₁ := begun.rely hr₁
  dsimp only
  generalize hwords : (selectDiagnosticCandidates unicode _ diagnosticOnboardingItemLimit).map
    (fun candidate => candidate.wordId.toNat) = words
  obtain ⟨hlength, hnodup, hlearned⟩ := selected_learned hwords.symm
  have known₁ : ∀ x ∈ words, Known (view w₁.db) u x := by
    intro x hx _
    have hrow : ((view (t.visible w₁.db)).userWord u x).isSome = true := hlearned x hx
    rwa [begun₁.now] at hrow
  split
  · exact .refused w₁
  rename_i hwords
  rw [wp_bind]
  refine wp_clearItems begun₁.onboarding begun₁.item
    fun _ t₂ w₂ hr₂ hheld₂ hview₂ => ?_
  rw [wp_bind]
  refine wp_insertItems (fun w' hr' => ?_) (fun _ w' => .refused w')
    fun t₃ w₃ hr₃ hheld₃ hview₃ placed => ?_
  · rw [hview₂ w' hr']
    exact begun₁.word w'.db
  rw [if_pos rfl, wp_bind, wp_choose]
  intro now
  have hheld : t.held ⊆ t₃.held := fun _ hx => hheld₃ (hheld₂ hx)
  have sees : ∀ w', OnboardingRely allow i t₃ w₃ w' →
      view (t₃.visible w'.db) = ((view w'.db).putPreferences u r).putItems u words := by
    intro w' hr'
    have hr₂' := hr₃.trans (hr'.mono fun _ hx => hheld₃ hx)
    have begun' := begun₁.rely (hr₂.trans (hr₂'.mono fun _ hx => hheld₂ hx))
    rw [hview₃, hview₂ w' hr₂', begun'.now]
    exact lay_putItems [] words
  rw [wp_bind]
  refine wp_updatePreferences (r := r) ⟨.update, by simp, hheld begun₁.held⟩ ?_
    fun t₄ w₄ hr₄ hheld₄ hview₄ => ?_
  · exact (congrFun (congrArg Onboarding.preferences (sees w₃ .refl)) u).trans (update_self ..)
  have hr : OnboardingRely allow i t w₁ w₄ :=
    hr₂.trans ((hr₃.mono fun _ hx => hheld₂ hx).trans (hr₄.mono fun _ hx => hheld hx))
  refine wp_commitStatus ((since.rely hr₁).rely hr) ⟨?_, ?_, ?_⟩ fun w₅ hr₅ _ => ⟨?_, False.elim⟩
  · rintro _ ⟨⟩
    exact hheld₄ (hheld begun₁.onboarding)
  · rintro _ _ ⟨⟩ x hx
    exact ⟨_, hheld₄ (placed x hx).1⟩
  · rintro _ _ ⟨⟩
  · have hr₃₅ := hr₄.trans (hr₅.mono fun _ hx => hheld₄ hx)
    have hr₁₅ := hr.trans (hr₅.mono fun _ hx => hheld₄ (hheld hx))
    have begun₅ := begun₁.rely hr₁₅
    have hview : view (t₄.visible w₅.db) =
        ((view w₅.db).putPreferences u (r.begin now)).putItems u words := by
      rw [hview₄, sees w₅ hr₃₅]
      change (((view w₅.db).putPreferences u r).putPreferences u (r.begin now)).putItems u words = _
      rw [putPreferences_twice]
    rw [hview]
    refine .started ?_ ?_ begun₅.row.symm hwords hlength hnodup fun x hx => ?_
    · rw [begun₅.state]
      exact hnot
    · rw [begun₅.state]
      exact hnever
    · have hthere := ((placed.rely hr₃₅) x hx).2
      exact ⟨hthere, rely_known hr₁₅ (known₁ x hx) hthere⟩

theorem startFrom_keeps {state : OnboardingState} (since : Since born w) (begun : Begun u r t w)
    (hstate : r.onboardingState = state) :
    wp (onboardingContract allow) i (Shows born False) (startFrom unicode digest u state) t w := by
  unfold startFrom
  split
  · rename_i hdone
    refine wp_commitStatus since ⟨?_, ?_, ?_⟩ fun w₁ hr₁ _ => ⟨?_, False.elim⟩
    · rintro _ ⟨⟩
      exact begun.onboarding
    · rintro _ _ ⟨⟩
    · rintro _ _ ⟨⟩
    · have begun₁ := begun.rely hr₁
      rw [begun₁.clean]
      · exact .startKept (by rw [begun₁.state, hstate]; exact hdone)
      · rw [hstate]
        rcases hdone with rfl | rfl <;> exact OnboardingState.noConfusion
  · rename_i hnot
    push Not at hnot
    subst hstate
    exact startDiagnostic_keeps since begun hnot.1 hnot.2

theorem startOnboarding_keeps (unicode : Unicode) (digest : UserId → WordId → Nat) (u : UserId)
    (since : Since born w) :
    wp (onboardingContract allow) i (Shows born False) (startOnboarding unicode digest u) {} w := by
  unfold startOnboarding lockOnboarding
  rw [wp_bind, wp_lockRow]
  intro w₁ hr₁ _
  rw [wp_bind]
  refine wp_lockPreferences List.mem_cons_self (fun _ => rfl) ?_ ?_
  · intro t₂ w₂ hr₂ hheld₂ clean₂
    dsimp only
    rw [wp_bind]
    refine wp_insertRow (fun w' _ _ _ _ => .refused w') fun w₃ hr₃ _ hfree => ?_
    rw [if_pos rfl]
    refine startFrom_keeps (r := {}) (((since.rely hr₁).rely hr₂).rely hr₃) ⟨?_, ?_, ?_, ?_, ?_⟩ rfl
    · exact List.mem_cons_of_mem _ (List.mem_cons_of_mem _ (hheld₂ List.mem_cons_self))
    · exact List.mem_cons_self
    · rw [clean₂] at hfree
      change Option.getD (w₃.db.lookup (preferencesKey u)) {} = _
      rw [hfree]
      rfl
    · exact fun db _ => inserted_sees clean₂ db
    · intro db
      rw [inserted_sees clean₂]
      rfl
  · intro r w₂ hr₂ _ begun
    exact startFrom_keeps ((since.rely hr₁).rely hr₂) begun rfl

end Starting

end DiagnosticRefinement
