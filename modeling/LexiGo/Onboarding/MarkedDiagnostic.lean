import LexiGo.Onboarding.DiagnosticRefinement

/-! Marking the items of a diagnostic one after the other, and completing it. -/
namespace MarkedDiagnostic
open RowStore TransactionProgram Interleaving CommitContract RowStatements RunSoundness
open WiderSchema Scheduler OnboardingSchema OnboardingRepository OnboardingMachine
open OnboardingRefinement DiagnosticItems DiagnosticRefinement Function
open LearningSchema (UserId WordId UserWordRow WordRow)

variable {allow : Nat → List Note → OnboardingWorld → OnboardingWorld → Prop}
variable {i : Nat} {t t' : Tx Row} {w w' w'' born : OnboardingWorld} {u : UserId} {r : PreferenceRow}

section Marking
variable {x : WordId} {selfMark : DiagnosticSelfMark} {position : Nat} {s : DiagnosticRow}

/-- The item whose turn it is, locked. -/
structure Current (u : UserId) (position : Nat) (s : DiagnosticRow) (t : Tx Row)
    (w : OnboardingWorld) : Prop where
  held : (diagnosticKey u position, .update) ∈ t.held
  item : (view w.db).item u position = some s
  unmarked : s.marking = none
  first : ∀ position' s', position' < position → (view w.db).item u position' = some s' →
    isMarked s' = true

theorem Current.rely (h : Current u position s t w) (hlock : (onboardingKey u, .update) ∈ t.held)
    (hr : OnboardingRely allow i t w w') : Current u position s t w' := by
  refine ⟨h.held, (hr.row h.held (by simp)).trans h.item, h.unmarked, ?_⟩
  exact fun p' s' hp hs => h.first p' s' hp ((rely_untouched hr hlock).items p' s' hs)

theorem Current.mono (h : Current u position s t w) (hheld : t.held ⊆ t'.held) :
    Current u position s t' w :=
  ⟨hheld h.held, h.item, h.unmarked, h.first⟩

/-- The first item that has no mark is found if it is among the positions chosen, which are
tried in their order. -/
theorem wp_lockCurrent {positions : List Nat}
    {Q : Option (Nat × DiagnosticRow × String) → Tx Row → OnboardingWorld → Prop}
    (hlock : (onboardingKey u, .update) ∈ t.held) (clean : ∀ db, t.visible db = db)
    (sorted : positions.Pairwise (· < ·))
    (covers : ∀ p s, (view w.db).item u p = some s → isUnmarked s = true → p ∈ positions)
    (missing : ∀ t' w', Q none t' w')
    (found : ∀ position s translation t' w', OnboardingRely allow i t w w' → t.held ⊆ t'.held →
      (∀ db, t'.visible db = db) → Current u position s t' w' →
      Q (some (position, s, translation)) t' w') :
    wp (onboardingContract allow) i Q (lockCurrent u positions) t w := by
  induction positions generalizing t w with
  | nil => exact missing t w
  | cons position rest ih =>
    obtain ⟨hbelow, sorted⟩ := List.pairwise_cons.1 sorted
    unfold lockCurrent
    rw [wp_bind, wp_lockRow]
    intro w₁ hr₁ _
    rw [wp_bind, wp_select]
    intro w₂ hr₂ hi₂
    have hr := hr₁.trans (rely_hold hr₂)
    have before : ∀ p s, (view w₂.db).item u p = some s → isUnmarked s = true → p ∈ position :: rest :=
      fun p s hs => covers p s ((rely_untouched hr hlock).items p s hs)
    rw [Tx.visible_hold, clean]
    cases hnow : currentAt u position w₂.db with
    | some now =>
      obtain ⟨s, translation, rfl, hs, hunmarked⟩ := currentAt_some hnow
      refine found position s translation _ w₂ hr (fun _ hx => List.mem_cons_of_mem _ hx) clean
        ⟨List.mem_cons_self, hs, hunmarked, fun p s' hp hs' => ?_⟩
      by_contra hs'unmarked
      rw [isMarked, Bool.not_eq_true, Option.isSome_eq_false_iff] at hs'unmarked
      rcases List.mem_cons.1 (before p s' hs' hs'unmarked) with rfl | hmem
      · exact Nat.lt_irrefl _ hp
      · exact Nat.lt_asymm hp (hbelow p hmem)
    | none =>
      refine ih (List.mem_cons_of_mem _ hlock) clean sorted (fun p s hs hunmarked => ?_)
        fun position s translation t' w' hr' hheld => ?_
      · rcases List.mem_cons.1 (before p s hs hunmarked) with rfl | hmem
        · rw [currentAt_none hi₂ hnow hs] at hunmarked
          cases hunmarked
        · exact hmem
      · exact found position s translation t' w' (hr.trans (rely_hold hr'))
          fun _ hx => hheld (List.mem_cons_of_mem _ hx)

/-- What the statement that marks the item with a word has made of the transaction. -/
theorem wp_markItem {now : Instant} {Q : List Key → Tx Row → OnboardingWorld → Prop} (clean : ∀ db, t.visible db = db)
    (current : Current u position s t w) (hx : s.wordId = x)
    (h : ∀ done t' w', OnboardingRely allow i t w w' → t.held ⊆ t'.held →
      (∀ w₂, OnboardingRely allow i t' w' w₂ →
        view (t'.visible w₂.db) = (view w₂.db).putItem u position (s.mark selfMark now)) →
      Q done t' w') :
    wp (onboardingContract allow) i Q (markItem u x selfMark now) t w := by
  subst hx
  unfold markItem
  rw [wp_bind, wp_select]
  intro w₁ hr₁ hi₁
  rw [clean]
  have hitem : diagnosticAt u position w₁.db = some s := (hr₁.row current.held (by simp)).trans current.item
  refine wp_changeEach (.inl rfl) _ (rowsWhere_nodup _ _) fun done t' w' hc => ?_
  refine h done t' w' (hr₁.trans hc.rely) hc.held fun w₂ hr₂ => ?_
  have kept : diagnosticAt u position w₂.db = some s := by
    have hlater := hr₂.mono hc.held
    exact ((hc.rely.trans hlater).row current.held (by simp)).trans hitem
  rw [← view_set_item]
  refine view_congr fun k _ => ?_
  rw [hc.visible (hc.settled (.inl rfl) hr₂), clean, bind_outcome_update]
  by_cases hk : k = diagnosticKey u position
  · subst hk
    rw [lookup_set_self]
    change Option.map _ (diagnosticAt u position w₂.db) = _
    have seen : diagnosticKey u position ∈
        rowsWhere (diagnosticItems fun u' _ r => u' = u && r.wordId = s.wordId) w₁.db :=
      mem_itemKeys.2 ⟨position, s, rfl, hitem, decide_eq_true rfl⟩
    rw [kept, Option.map_some, if_pos ⟨seen, by simp [diagnosticItems]⟩]
    rfl
  · rw [lookup_set_ne hk]
    cases hrow : w₂.db.lookup k with
    | none => rfl
    | some row =>
      rw [Option.map_some, if_neg]
      rintro ⟨seen, -⟩
      obtain ⟨p, s', rfl, hs', hword⟩ := mem_itemKeys.1 seen
      obtain rfl := hi₁.distinct u p position s' s hs' hitem (of_decide_eq_true hword)
      exact hk rfl

/-- An accepted mark has been committed, and the counts are those of the moment. -/
def Marks (i : Nat) (u : UserId) (x : WordId) (selfMark : DiagnosticSelfMark)
    (reply : Reply DiagnosticMarkResult) (t : Tx Row) (w : OnboardingWorld) : Prop :=
  t = {} ∧ ∀ result, reply = .ok result → (i, .marked u x selfMark) ∈ w.log ∧
    result.reveal.wordId = x ∧ 0 < result.marked ∧ result.marked ≤ result.total ∧
    result.total ≤ 12 ∧ (result.completeReady = true ↔ result.marked = result.total)

theorem Marks.refused {why : OnboardingError} (w : OnboardingWorld) :
    Marks i u x selfMark (.error why) {} w := ⟨rfl, fun _ h => by cases h⟩

theorem markCurrent_keeps (hlock : (onboardingKey u, .update) ∈ t.held)
    (clean : ∀ db, t.visible db = db) (hstate : (view w.db).state u = .inProgress)
    (current : Current u position s t w) (hx : s.wordId = x) (translation : String) :
    wp (onboardingContract allow) i (Marks i u x selfMark)
      (markCurrent u x selfMark translation) t w := by
  unfold markCurrent
  rw [wp_bind, wp_choose]
  intro now
  rw [wp_bind]
  refine wp_markItem clean current hx fun done t₁ w₁ hr₁ hheld₁ hview₁ => ?_
  have step : ∀ w', OnboardingRely allow i t₁ w₁ w' →
      Step (.marked u x selfMark) (view w'.db) (view (t₁.visible w'.db)) := by
    intro w' hr'
    have hr := hr₁.trans (hr'.mono fun _ hx => hheld₁ hx)
    have current' := current.rely hlock hr
    rw [hview₁ w' hr', ← hx]
    exact .marked ((rely_untouched hr hlock).state.trans hstate) current'.item current'.unmarked
      current'.first
  rw [wp_bind, wp_select]
  intro w₂ hr₂ hi₂
  dsimp only
  rw [wp_bind, wp_commit]
  intro w₃ hr₃ hi₃ _
  have licensed : Licensed t₁.held (.marked u x selfMark) := by
    refine ⟨?_, by rintro _ _ ⟨⟩, by rintro _ _ ⟨⟩⟩
    rintro _ ⟨⟩
    exact hheld₁ hlock
  have sound₂ : Sound (view (t₁.visible w₂.db)) := (step w₂ hr₂).sound hi₂
  refine ⟨publishes hi₃ (step w₃ (hr₂.trans hr₃)) licensed, rfl, ?_⟩
  rintro _ ⟨⟩
  have hmarked : diagnosticAt u position (t₁.visible w₂.db) = some (s.mark selfMark now) := by
    have hitem := congrFun (congrFun (congrArg Onboarding.item (hview₁ w₂ hr₂)) u) position
    exact hitem.trans (putItem_item.2 (.inl ⟨rfl, rfl, rfl⟩))
  have hpos := progress_pos hmarked rfl
  have hle : (progress u (t₁.visible w₂.db)).2 ≤ _ := progress_le
  refine ⟨List.mem_cons_self, rfl, hpos, hle, progress_bounded sound₂, ?_⟩
  dsimp only
  rw [Bool.and_eq_true_iff, decide_eq_true_iff, decide_eq_true_iff]
  exact ⟨And.right, fun heq => ⟨Nat.lt_of_lt_of_le hpos hle, heq⟩⟩

theorem markOnboardingItem_keeps (u : UserId) (x : WordId) (selfMark : DiagnosticSelfMark) :
    wp (onboardingContract allow) i (Marks i u x selfMark) (markOnboardingItem u x selfMark) {} w := by
  unfold markOnboardingItem lockOnboarding
  rw [wp_bind, wp_lockRow]
  intro w₁ hr₁ _
  rw [wp_bind]
  refine wp_lockPreferences List.mem_cons_self (fun _ => rfl) (fun _ w' _ _ _ => .refused w') ?_
  intro r w₂ hr₂ _ begun
  dsimp only
  split
  · exact .refused w₂
  rename_i hstate
  have hstate : r.onboardingState = .inProgress := not_not.1 hstate
  rw [wp_bind, wp_select]
  intro w₃ hr₃ _
  have begun₃ := begun.rely hr₃
  rw [wp_bind]
  refine wp_lockCurrent begun.onboarding (fun _ => rfl) itemsOf_sorted (fun p s hs hunmarked => ?_)
    (fun _ w' => .refused w') ?_
  · exact List.mem_map.2 ⟨(p, s), mem_itemsOf.2 ⟨hs, hunmarked⟩, rfl⟩
  · intro position s translation t₄ w₄ hr₄ hheld₄ clean₄ current
    dsimp only
    split
    · exact .refused w₄
    rename_i hword
    have hlater := (rely_untouched hr₄ begun.onboarding).state
    exact markCurrent_keeps (hheld₄ begun.onboarding) clean₄
      (hlater.trans (begun₃.state.trans hstate)) current (not_not.1 hword) translation

end Marking

section Completing
variable {x : WordId} {now : Instant}

/-- The rows at the positions chosen, each locked before it is read. -/
theorem wp_lockItems {positions : List Nat} {Q : List DiagnosticRow → Tx Row → OnboardingWorld → Prop}
    (clean : ∀ db, t.visible db = db)
    (h : ∀ t' w', OnboardingRely allow i t w w' → t.held ⊆ t'.held → (∀ db, t'.visible db = db) →
      (∀ p ∈ positions, (diagnosticKey u p, .update) ∈ t'.held) →
      Q (positions.filterMap fun p => diagnosticAt u p w'.db) t' w') :
    wp (onboardingContract allow) i Q (lockItems u positions) t w := by
  induction positions generalizing t w Q with
  | nil => exact h t w .refl (List.Subset.refl _) clean fun p hp => absurd hp List.not_mem_nil
  | cons position rest ih =>
    unfold lockItems
    rw [wp_bind, wp_lockRow]
    intro w₁ hr₁ _
    rw [wp_bind, wp_select]
    intro w₂ hr₂ _
    rw [Tx.visible_hold, clean, wp_bind]
    refine ih clean fun t₃ w₃ hr₃ hheld₃ clean₃ hlocked => ?_
    rw [wp_pure]
    have same : diagnosticAt u position w₃.db = diagnosticAt u position w₂.db :=
      hr₃.row List.mem_cons_self (by simp)
    have hrows : (diagnosticAt u position w₂.db).toList ++
        rest.filterMap (fun p => diagnosticAt u p w₃.db) =
          (position :: rest).filterMap fun p => diagnosticAt u p w₃.db := by
      rw [List.filterMap_cons, same]
      cases diagnosticAt u position w₂.db <;> rfl
    rw [hrows]
    refine h t₃ w₃ ((hr₁.trans (rely_hold hr₂)).trans (rely_hold hr₃))
      (fun _ hx => hheld₃ (List.mem_cons_of_mem _ hx)) clean₃ fun p hp => ?_
    rcases List.mem_cons.1 hp with rfl | hp
    · exact hheld₃ List.mem_cons_self
    · exact hlocked p hp

theorem marksOf_some {rows : List DiagnosticRow} {marks : List (WordId × DiagnosticSelfMark)}
    (h : marksOf rows = some marks) :
    marks.map Prod.fst = rows.map DiagnosticRow.wordId ∧
    (∀ s ∈ rows, ∃ marking, s.marking = some marking ∧ (s.wordId, marking.selfMark) ∈ marks) ∧
    ∀ mark ∈ marks, ∃ s ∈ rows, ∃ marking, s.marking = some marking ∧
      mark = (s.wordId, marking.selfMark) := by
  induction rows generalizing marks with
  | nil =>
    cases h
    exact ⟨rfl, fun s hs => absurd hs List.not_mem_nil, fun m hm => absurd hm List.not_mem_nil⟩
  | cons s rest ih =>
    obtain ⟨marking, hmarking, h⟩ := Option.bind_eq_some_iff.1 h
    obtain ⟨others, hothers, h⟩ := Option.bind_eq_some_iff.1 h
    cases h
    obtain ⟨hwords, hall, hback⟩ := ih hothers
    refine ⟨?_, ?_, ?_⟩
    · rw [List.map_cons, List.map_cons, hwords]
    · intro s' hs'
      rcases List.mem_cons.1 hs' with rfl | hs'
      · exact ⟨marking, hmarking, List.mem_cons_self⟩
      · obtain ⟨marking', hmarking', hmem⟩ := hall s' hs'
        exact ⟨marking', hmarking', List.mem_cons_of_mem _ hmem⟩
    · intro mark hmark
      rcases List.mem_cons.1 hmark with rfl | hmark
      · exact ⟨s, List.mem_cons_self, marking, hmarking, rfl⟩
      · obtain ⟨s', hs', hrest⟩ := hback mark hmark
        exact ⟨s', List.mem_cons_of_mem _ hs', hrest⟩

/-- The locked rows of all the positions are all the items of the user, and they stay. -/
structure AllLocked (u : UserId) (rows : List DiagnosticRow) (t : Tx Row) (w : OnboardingWorld) :
    Prop where
  onboarding : (onboardingKey u, .update) ∈ t.held
  held : ∀ p s, (view w.db).item u p = some s → (diagnosticKey u p, .update) ∈ t.held ∧ s ∈ rows
  there : ∀ s ∈ rows, ∃ p, (diagnosticKey u p, Mode.update) ∈ t.held ∧ (view w.db).item u p = some s
  distinct : (rows.map DiagnosticRow.wordId).Nodup

theorem allLocked_of {positions : List Nat} (hlock : (onboardingKey u, .update) ∈ t.held)
    (sound : Sound (view w.db)) (sorted : positions.Pairwise (· < ·))
    (covers : ∀ p s, (view w.db).item u p = some s → p ∈ positions)
    (held : ∀ p ∈ positions, (diagnosticKey u p, .update) ∈ t.held) :
    AllLocked u (positions.filterMap fun p => diagnosticAt u p w.db) t w := by
  refine ⟨hlock, ?_, ?_, ?_⟩
  · intro p s hs
    have hp := covers p s hs
    exact ⟨held p hp, List.mem_filterMap.2 ⟨p, hp, hs⟩⟩
  · intro s hs
    obtain ⟨p, hp, hs⟩ := List.mem_filterMap.1 hs
    exact ⟨p, held p hp, hs⟩
  · rw [List.map_filterMap, List.nodup_iff_pairwise_ne, List.pairwise_filterMap]
    refine sorted.imp ?_
    intro p p' hlt x hx x' hx' heq
    obtain ⟨s, hs, hsx⟩ := Option.map_eq_some_iff.1 hx
    obtain ⟨s', hs', hsx'⟩ := Option.map_eq_some_iff.1 hx'
    have hp := sound.distinct u p p' s s' hs hs' (hsx.trans (heq.trans hsx'.symm))
    exact Nat.ne_of_lt hlt hp

theorem AllLocked.rely {rows : List DiagnosticRow} (h : AllLocked u rows t w)
    (hr : OnboardingRely allow i t w w') : AllLocked u rows t w' := by
  refine ⟨h.onboarding, ?_, ?_, h.distinct⟩
  · exact fun p s hs => h.held p s ((rely_untouched hr h.onboarding).items p s hs)
  · intro s hs
    obtain ⟨p, hp, hitem⟩ := h.there s hs
    exact ⟨p, hp, (hr.row hp (by simp)).trans hitem⟩

theorem AllLocked.mono {rows : List DiagnosticRow} (h : AllLocked u rows t w)
    (hheld : t.held ⊆ t'.held) : AllLocked u rows t' w := by
  refine ⟨hheld h.onboarding, ?_, ?_, h.distinct⟩
  · exact fun p s hs => ⟨hheld (h.held p s hs).1, (h.held p s hs).2⟩
  · intro s hs
    obtain ⟨p, hp, hitem⟩ := h.there s hs
    exact ⟨p, hheld hp, hitem⟩

theorem AllLocked.marked {rows : List DiagnosticRow} {marks : List (WordId × DiagnosticSelfMark)}
    (h : AllLocked u rows t w) (hrows : rows ≠ []) (hmarks : marksOf rows = some marks) :
    (view w.db).Marked u marks := by
  obtain ⟨hwords, hall, hback⟩ := marksOf_some hmarks
  refine ⟨?_, ?_, ?_, ?_⟩
  · exact fun p s hs => hall s (h.held p s hs).2
  · intro x mark hmark
    obtain ⟨s, hs, marking, hmarking, heq⟩ := hback _ hmark
    obtain ⟨p, -, hitem⟩ := h.there s hs
    cases heq
    exact ⟨p, s, marking, hitem, rfl, hmarking, rfl⟩
  · rintro rfl
    rw [List.map_nil] at hwords
    exact hrows (List.map_eq_nil_iff.1 hwords.symm)
  · rw [hwords]
    exact h.distinct

/-- What the transaction sees once the words of these marks have been gone through: a word
that an update has missed has stayed as it was, because nobody makes a word new. -/
def Initialized (allow : Nat → List Note → OnboardingWorld → OnboardingWorld → Prop) (i : Nat)
    (u : UserId) (now : Instant) (marks : List (WordId × DiagnosticSelfMark)) (t : Tx Row)
    (w : OnboardingWorld) : Prop :=
  ∀ w', OnboardingRely allow i t w w' →
    view (t.visible w'.db) = (view w'.db).initialized u marks now

theorem wp_initializeWords {done rest : List (WordId × DiagnosticSelfMark)}
    {Q : Unit → Tx Row → OnboardingWorld → Prop} (nodup : ((done ++ rest).map Prod.fst).Nodup)
    (sees : Initialized allow i u now done t w)
    (h : ∀ t' w', OnboardingRely allow i t w w' → t.held ⊆ t'.held →
      Initialized allow i u now (done ++ rest) t' w' → Q () t' w') :
    wp (onboardingContract allow) i Q (initializeWords u now rest) t w := by
  induction rest generalizing t w done with
  | nil =>
    rw [List.append_nil] at h
    exact h t w .refl (List.Subset.refl _) sees
  | cons mark rest ih =>
    obtain ⟨x, selfMark⟩ := mark
    have hsplit : done ++ (x, selfMark) :: rest = (done ++ [(x, selfMark)]) ++ rest := by
      rw [List.append_assoc, List.singleton_append]
    have hx : x ∉ done.map Prod.fst := by
      rw [List.map_append, List.map_cons] at nodup
      exact fun hmem => (List.nodup_append.1 nodup).2.2 x hmem x List.mem_cons_self rfl
    rw [hsplit] at nodup h
    unfold initializeWords
    cases hpolicy : diagnosticInitializationForMark selfMark with
    | none =>
      refine ih nodup (fun w' hr => ?_) h
      rw [sees w' hr, initialized_skip hx (.inl hpolicy)]
    | some policy =>
      dsimp only
      rw [wp_bind]
      -- the row as the statement sees it is the committed one: no mark before was for this word
      have same : ∀ w', OnboardingRely allow i t w w' →
          (t.visible w'.db).lookup (userWordKey u x) = (view w'.db).userWord u x := by
        intro w' hr
        have hrow := congrFun (congrFun (congrArg Onboarding.userWord (sees w' hr)) u) x
        refine hrow.trans ?_
        change update (view w'.db).userWord u _ u x = _
        rw [update_self]
        cases (view w'.db).userWord u x with
        | none => rfl
        | some r => rw [Option.map_some, initialRow_unmarked hx]
      have missed : ∀ w', OnboardingRely allow i t w w' →
          Misses t w' (userWordKey u x) (fun r => decide (r.status = .new)) → NotNew (view w'.db) u x := by
        intro w' hr hmiss r hrow
        exact of_decide_eq_false (hmiss r ((same w' hr).trans hrow))
      refine @wp_updateRow Key _ Row Note _ i t w (userWordKey u x) .noKeyUpdate
        (fun r => r.status = .new) (policy.apply now) _ (.inl rfl) ?_ ?_ ?_
      · intro w₁ hr₁ _ hmiss
        refine ih nodup (fun w' hr => ?_) fun t' w' hr => h t' w' (hr₁.trans hr)
        rw [sees w' (hr₁.trans hr), initialized_skip hx (.inr (rely_notNew hr (missed w₁ hr₁ hmiss)))]
      · intro w₁ hr₁ _ hmiss
        refine ih nodup (fun w' hr => ?_) fun t' w' hr hheld =>
          h t' w' (hr₁.trans (rely_hold hr)) fun _ hx => hheld (List.mem_cons_of_mem _ hx)
        have hr' := rely_hold hr
        rw [Tx.visible_hold, sees w' (hr₁.trans hr'),
          initialized_skip hx (.inr (rely_notNew hr' (missed w₁ hr₁ hmiss)))]
      · intro w₁ r hr₁ _ hrow hnew
        refine ih nodup (fun w' hr => ?_) fun t' w' hr hheld =>
          h t' w' (hr₁.trans (rely_hold (rely_write hr))) fun _ hx =>
            hheld (List.mem_cons_of_mem _ (List.mem_cons_of_mem _ hx))
        have kept : (view w'.db).userWord u x = some r :=
          (hr.row List.mem_cons_self (by simp)).trans ((same w₁ hr₁).symm.trans hrow)
        rw [Tx.visible_write, view_set_userWord, Tx.visible_hold,
          sees w' (hr₁.trans (rely_hold (rely_write hr))),
          initialized_put hx kept (of_decide_eq_true hnew) hpolicy]

theorem completeOnboarding_keeps (u : UserId) (since : Since born w) :
    wp (onboardingContract allow) i (Shows born True) (completeOnboarding u) {} w := by
  unfold completeOnboarding lockOnboarding
  rw [wp_bind, wp_lockRow]
  intro w₁ hr₁ _
  rw [wp_bind]
  refine wp_lockPreferences List.mem_cons_self (fun _ => rfl) (fun _ w' _ _ _ => .refused w') ?_
  intro r w₂ hr₂ hi₂ begun
  have since₂ := (since.rely hr₁).rely hr₂
  dsimp only
  split
  · rename_i hdone
    refine wp_commitStatus since₂ ⟨?_, ?_, ?_⟩ fun w₃ hr₃ _ => ?_
    · rintro _ ⟨⟩
      exact begun.onboarding
    · rintro _ _ ⟨⟩
    · rintro _ _ ⟨⟩
    · have begun₃ := begun.rely hr₃
      have hstate := begun₃.state.trans hdone
      rw [begun₃.clean (by rw [hdone]; exact OnboardingState.noConfusion)]
      exact ⟨.completeKept hstate, fun _ => hstate⟩
  split
  · exact .refused w₂
  rename_i hstate
  have hstate : r.onboardingState = .inProgress := not_not.1 hstate
  have started : r.onboardingState ≠ .notStarted := by
    rw [hstate]
    exact OnboardingState.noConfusion
  rw [wp_bind, wp_select]
  intro w₃ hr₃ _
  have sorted : ((itemsOf u (fun _ => true) w₃.db).map Prod.fst).Pairwise (· < ·) := itemsOf_sorted
  have covers : ∀ p s, (view w₃.db).item u p = some s →
      p ∈ (itemsOf u (fun _ => true) w₃.db).map Prod.fst :=
    fun p s hs => List.mem_map.2 ⟨(p, s), mem_itemsOf.2 ⟨hs, rfl⟩, rfl⟩
  rw [Tx.visible_hold, Tx.visible_hold, Tx.visible_empty, wp_bind]
  generalize (itemsOf u (fun _ => true) w₃.db).map Prod.fst = positions at sorted covers
  refine wp_lockItems (fun _ => rfl) fun t₄ w₄ hr₄ hheld₄ clean₄ hlocked => ?_
  have hr₂₄ := hr₃.trans hr₄
  have locked := allLocked_of (hheld₄ begun.onboarding) (hr₂₄.inv hi₂) sorted
    (fun p s hs => covers p s ((rely_untouched hr₄ begun.onboarding).items p s hs)) hlocked
  generalize positions.filterMap (fun p => diagnosticAt u p w₄.db) = rows at locked
  split
  · exact .refused w₄
  rename_i hrows
  cases hmarks : marksOf rows with
  | none => exact .refused w₄
  | some marks =>
    dsimp only
    rw [wp_bind, wp_choose]
    intro now
    have marked : ∀ w', OnboardingRely allow i t₄ w₄ w' → (view w'.db).Marked u marks :=
      fun w' hr => (locked.rely hr).marked hrows hmarks
    rw [wp_bind]
    refine @wp_initializeWords allow i t₄ w₄ u now [] marks _ (marked w₄ .refl).nodup (fun w' _ => ?_)
      fun t₅ w₅ hr₅ hheld₅ sees => ?_
    · rw [clean₄, initialized_nil]
    rw [List.nil_append] at sees
    have hheld : (Tx.hold (Tx.hold {} (onboardingKey u) .update) (preferencesKey u) .update).held ⊆ t₅.held :=
      fun _ hx => hheld₅ (hheld₄ hx)
    have hr₂₅ := hr₂₄.trans (hr₅.mono fun _ hx => hheld₄ hx)
    rw [wp_bind]
    refine wp_updatePreferences (r := r) ⟨.update, by simp, hheld begun.held⟩ ?_
      fun t₆ w₆ hr₆ hheld₆ hview₆ => ?_
    · have hrow := congrFun (congrArg Onboarding.preferences (sees w₅ .refl)) u
      exact hrow.trans ((begun.rely hr₂₅).found started)
    have hr₂₆ := hr₂₅.trans (hr₆.mono fun _ hx => hheld hx)
    refine wp_commitStatus (since₂.rely hr₂₆) ⟨?_, ?_, ?_⟩ fun w₇ hr₇ _ => ?_
    · rintro _ ⟨⟩
      exact hheld₆ (hheld begun.onboarding)
    · rintro _ _ ⟨⟩
    · rintro _ _ ⟨⟩
    · have hr₅₇ := hr₆.trans (hr₇.mono fun _ hx => hheld₆ hx)
      have begun₇ := begun.rely (hr₂₅.trans (hr₅₇.mono fun _ hx => hheld hx))
      rw [hview₆, sees w₇ hr₅₇]
      refine ⟨.completed (begun₇.state.trans hstate) ?_ (marked w₇ (hr₅.trans (hr₅₇.mono fun _ hx => hheld₅ hx))), fun _ => ?_⟩
      · exact begun₇.found started
      · rw [putPreferences_state, if_pos rfl]
        rfl

end Completing

end MarkedDiagnostic
