import LexiGo.Deletion.DeletionSchema

/-! What goes with a user or with a custom word, and which row stands in the way:
an accepted step keeps the number of its review, and no constraint lets it go
without. -/
namespace DeletionCascade
open RowStore ReferentialActions AnswerJudgement Scheduler DeletionSchema
open LearningSchema (UserId WordId EventId LessonId)

variable {db db' : DeletionDb} {u : UserId} {w : WordId} {a : AttemptId} {n : Nat} {e : EventId}

section Targets
variable {c : Reference} {key : Key}

theorem target_user {r : UserRow} : c.target (.user u) r = none := by
  cases c <;> rfl

theorem target_word {r : WordRow} (h : c.target (.word w) r = some key) :
    ∃ u, r.owner = some u ∧ key = .user u := by
  cases c <;> first | cases h | exact (Option.map_eq_some_iff.1 h).imp fun _ h => ⟨h.1, h.2.symm⟩

theorem target_attempt {r : OwnedRow} (h : c.target (.attempt a) r = some key) :
    key = .user r.userId := by
  cases c <;> cases h
  rfl

theorem target_event {r : EventRow} (h : c.target (.event e) r = some key) :
    key = .user r.userId ∨ key = .word r.wordId := by
  cases c <;> cases h
  · exact .inl rfl
  · exact .inr rfl

theorem target_step {r : StepRow} (h : c.target (.step a n) r = some key) :
    key = .attempt a ∨ c = .attemptStepsReviewEvent ∧ r.reviewEventId.map .event = some key := by
  cases c <;> first | exact .inr ⟨rfl, h⟩ | cases h
  exact .inl rfl

end Targets

/-- What the rows are like that a user takes along, as far as it matters. -/
def Belongs (u : UserId) (db : DeletionDb) : Key → Prop
  | .user u' => u' = u
  | .word w => ∃ r : WordRow, db.lookup (.word w) = some r ∧ r.owner = some u
  | .attempt a => ∃ r : OwnedRow, db.lookup (.attempt a) = some r ∧ r.userId = u
  | .event e => ∃ r : EventRow, db.lookup (.event e) = some r ∧
      (r.userId = u ∨ ∃ word : WordRow, db.lookup (.word r.wordId) = some word ∧
        word.owner = some u)
  | _ => True

theorem doomed_belongs {k : Key} (h : Doomed schema (.user u) db k) : Belongs u db k := by
  induction h with
  | root => exact rfl
  | @cascade fk key k r _ hfk _ hr htarget ih =>
    obtain ⟨c, rfl⟩ := mem_foreignKeys hfk
    cases k with
    | user u' =>
      cases (target_user (c := c)).symm.trans htarget
    | word w =>
      obtain ⟨u', howner, rfl⟩ := target_word (c := c) htarget
      cases (show u' = u from ih)
      exact ⟨r, hr, howner⟩
    | attempt a =>
      cases target_attempt (c := c) htarget
      exact ⟨r, hr, ih⟩
    | event e =>
      rcases target_event (c := c) htarget with rfl | rfl
      · exact ⟨r, hr, .inl ih⟩
      · exact ⟨r, hr, .inr ih⟩
    | _ => trivial

/-- The rows that a word takes along are about the word, and no attempt is among them. -/
def About (w : WordId) (db : DeletionDb) : Key → Prop
  | .user _ | .attempt _ => False
  | .word w' => w' = w
  | .event e => ∃ r : EventRow, db.lookup (.event e) = some r ∧ r.wordId = w
  | _ => True

theorem doomed_about {k : Key} (h : Doomed schema (.word w) db k) : About w db k := by
  induction h with
  | root => exact rfl
  | @cascade fk key k r _ hfk _ hr htarget ih =>
    obtain ⟨c, rfl⟩ := mem_foreignKeys hfk
    cases k with
    | user u' =>
      cases (target_user (c := c)).symm.trans htarget
    | word w' =>
      obtain ⟨u', howner, rfl⟩ := target_word (c := c) htarget
      exact absurd ih id
    | attempt a =>
      cases target_attempt (c := c) htarget
      exact ih
    | event e =>
      rcases target_event (c := c) htarget with rfl | rfl
      · exact absurd ih id
      · exact ⟨r, hr, ih⟩
    | _ => trivial

/-- Only the steps and the suggestions can lose a reference. -/
theorem reduced_eq {k : Key} {r r' : Row k} (h : Reduced schema k r r')
    (hstep : ∀ a n, k ≠ .step a n) (hsuggestion : ∀ s, k ≠ .suggestion s) : r' = r := by
  refine h.eq_of_fixed fun fk hfk clear key hclear htarget => ?_
  obtain ⟨c, rfl⟩ := mem_foreignKeys hfk
  obtain ⟨rfl | rfl, -⟩ := Reference.onDelete_setNull hclear
  · cases k <;> first | exact absurd rfl (hstep _ _) | cases htarget
  · cases k <;> first | exact absurd rfl (hsuggestion _) | cases htarget

theorem clear_violates {r : StepRow} (h : r.reviewChk = true) (he : r.reviewEventId = some e) :
    StepRow.reviewChk { r with reviewEventId := none } = false := by
  simp only [StepRow.reviewChk, he, Bool.or_eq_true, Bool.and_eq_true, Option.isNone_some,
    Bool.false_eq_true, and_false, false_and, false_or, decide_eq_true_eq] at h
  simp [StepRow.reviewChk, h.1.1.1]

section Blocked
variable {r : StepRow} {event : EventRow}

/-- A deletion that goes through has taken the step along, if it took the review. -/
theorem deleted_step {k : Key} (h : Deleted schema k db db')
    (hchk : r.reviewChk = true) (hr : db.lookup (.step a n) = some r)
    (he : r.reviewEventId = some e) (hevent : db.lookup (.event e) = some event)
    (hgone : db'.lookup (.event e) = none) : Doomed schema k db (.step a n) := by
  cases hfound : (db'.lookup (.step a n) : Option StepRow) with
  | none => exact h.doomed _ _ hr hfound
  | some r' =>
    obtain ⟨r₀, hr₀, hreduced⟩ := h.survives _ r' hfound
    cases hr.symm.trans hr₀
    have hsame : r' = r := by
      refine hreduced.eq_of_fixed fun fk hfk clear key hclear htarget => ?_
      obtain ⟨c, rfl⟩ := mem_foreignKeys hfk
      obtain ⟨-, rfl⟩ := Reference.onDelete_setNull hclear
      exact clear_violates hchk he
    subst hsame
    refine absurd ?_ (h.clean (.event e) (.inr (by simp [hevent])) hgone
      (Reference.foreignKey .attemptStepsReviewEvent) (List.mem_map_of_mem (by decide)) _ _ hfound)
    exact congrArg (Option.map Key.event) he

theorem step_attempt_doomed {k : Key} (h : Doomed schema k db (.step a n)) (hk : k ≠ .step a n) :
    Doomed schema k db (.attempt a) := by
  cases h with
  | root => exact absurd rfl hk
  | @cascade fk key _ r' hkey hfk hcascade hr' htarget =>
    obtain ⟨c, rfl⟩ := mem_foreignKeys hfk
    rcases target_step (c := c) htarget with rfl | ⟨rfl, -⟩
    · exact hkey
    · cases hcascade

/-- The foreign keys that a user's deletion comes to before the one of the reviews. -/
def before : List (ForeignKey Row) :=
  [Reference.refreshTokensUser, .userWordsUser, .userWordsWord].map Reference.foreignKey

def after : List (ForeignKey Row) := foreignKeys.drop 4

theorem foreignKeys_user :
    foreignKeys = before ++ Reference.reviewEventsUser.foreignKey :: after := rfl

theorem foreignKeys_event : foreignKeys =
    foreignKeys.take 17 ++ Reference.attemptStepsReviewEvent.foreignKey :: foreignKeys.drop 18 := rfl

/-- Nothing that comes before the reviews takes along a review or an attempt. -/
theorem before_removes {later : List (Event Row)} {db₁ : DeletionDb}
    (h : Rounded schema (before.map fun fk => (fk, Key.user u)) db db₁ later) {event : Event Row}
    (hevent : event ∈ later) : (∀ e, event.2 ≠ .event e) ∧ ∀ a, event.2 ≠ .attempt a := by
  obtain ⟨-, hsome, hnone⟩ := (h.later event).1 hevent
  obtain ⟨v, hv⟩ := Option.isSome_iff_exists.1 hsome
  obtain ⟨event', hevent', -, htarget⟩ := h.removed _ v hv hnone
  obtain ⟨fk, hfk, rfl⟩ := List.mem_map.1 hevent'
  simp only [before, List.map_cons, List.map_nil, List.mem_cons, List.not_mem_nil, or_false] at hfk
  obtain ⟨key, k⟩ := event
  rcases hfk with rfl | rfl | rfl <;> cases k <;>
    first | exact ⟨fun _ => Key.noConfusion, fun _ => Key.noConfusion⟩ | cases htarget

/-- The events of a user's reviews come before those of the user's attempts. -/
theorem own_event_first {db₁ : DeletionDb} {later : List (Event Row)}
    (hround : round schema (triggers schema (.user u)) db = some (db₁, later))
    (he : r.reviewEventId = some e) (hevent : db.lookup (.event e) = some event)
    (howner : event.userId = u) : ∃ xs ys,
      later = xs ++ (Reference.attemptStepsReviewEvent.foreignKey, .event e) :: ys ∧
        ∀ event ∈ xs, event.1 ∈ schema.foreignKeys ∧
          event.1.target (.step a n) r ≠ some event.2 := by
  have hsplit : triggers schema (.user u) = (before.map fun fk => (fk, Key.user u)) ++
      (Reference.reviewEventsUser.foreignKey, .user u) :: after.map fun fk => (fk, Key.user u) := rfl
  rw [hsplit, round_append] at hround
  simp only [Option.bind_eq_some_iff, Option.map_eq_some_iff, Prod.exists, Prod.mk.injEq] at hround
  obtain ⟨dbA, laterA, hroundA, dbB, laterB, hroundB, -, rfl⟩ := hround
  have hA := round_spec (s := schema) (fun event hevent => by
    obtain ⟨fk, hfk, rfl⟩ := List.mem_map.1 hevent
    exact List.mem_append_left _ hfk) hroundA
  obtain ⟨dbC, gone, laterC, hfire, -, rfl⟩ := round_cons hroundB
  have hthere : dbA.lookup (.event e) = some event := by
    rw [hA.untouched (.event e) fun ev hev r' hr' => ?_, hevent]
    obtain ⟨fk, hfk, rfl⟩ := List.mem_map.1 hev
    simp only [before, List.map_cons, List.map_nil, List.mem_cons, List.not_mem_nil, or_false] at hfk
    rcases hfk with rfl | rfl | rfl <;> exact fun h => (by cases h)
  have hin : Key.event e ∈ gone := by
    have hfate := fire_fate hfire (.event e)
    generalize dbA.lookup (Key.event e) = v, dbC.lookup (Key.event e) = v' at hfate hthere
    cases hfate with
    | untouched hnot _ =>
      exact absurd (congrArg (fun u => some (Key.user u)) howner) (hnot _ hthere)
    | deleted _ _ hin => exact hin
    | cleared _ hclear _ _ => cases hclear
  have hevents : ∀ k ∈ gone, ∃ e', k = .event e' := by
    intro k hk
    have hfate := fire_fate hfire k
    generalize dbA.lookup k = v, dbC.lookup k = v' at hfate
    cases hfate with
    | untouched _ hnot => exact absurd hk hnot
    | deleted htarget _ _ => cases k <;> first | exact ⟨_, rfl⟩ | cases htarget
    | cleared _ hclear _ _ => cases hclear
  obtain ⟨g₁, g₂, rfl, hnot⟩ := List.eq_append_cons_of_mem hin
  refine ⟨laterA ++ (g₁.flatMap (triggers schema) ++
      (foreignKeys.take 17).map fun fk => (fk, Key.event e)),
    ((foreignKeys.drop 18).map fun fk => (fk, Key.event e)) ++
      (g₂.flatMap (triggers schema) ++ laterC), ?_, ?_⟩
  · have htriggers : triggers schema (.event e) =
        ((foreignKeys.take 17).map fun fk => (fk, Key.event e)) ++
          (Reference.attemptStepsReviewEvent.foreignKey, .event e) ::
            (foreignKeys.drop 18).map fun fk => (fk, Key.event e) := rfl
    simp only [List.flatMap_append, List.flatMap_cons, htriggers, List.append_assoc,
      List.cons_append]
  · intro ev hev
    rcases List.mem_append.1 hev with hev | hev
    · refine ⟨((hA.later ev).1 hev).1, fun htarget => ?_⟩
      obtain ⟨hnoEvent, hnoAttempt⟩ := before_removes hA hev
      obtain ⟨c, hc⟩ := mem_foreignKeys ((hA.later ev).1 hev).1
      rw [hc] at htarget
      rcases target_step (c := c) htarget with hkey | ⟨-, hkey⟩
      · exact hnoAttempt a hkey
      · rw [he] at hkey
        exact hnoEvent e (Option.some.inj hkey).symm
    rcases List.mem_append.1 hev with hev | hev
    · obtain ⟨k, hk, hev⟩ := List.mem_flatMap.1 hev
      obtain ⟨hfk, rfl⟩ := mem_triggers.1 hev
      refine ⟨hfk, fun htarget => ?_⟩
      obtain ⟨e', he'⟩ := hevents ev.2 (List.mem_append_left _ hk)
      obtain ⟨c, hc⟩ := mem_foreignKeys hfk
      rw [hc] at htarget
      rcases target_step (c := c) htarget with hkey | ⟨-, hkey⟩
      · rw [he'] at hkey
        cases hkey
      · rw [he] at hkey
        rw [← Option.some.inj hkey] at hk
        exact hnot hk
    · obtain ⟨fk, hfk, rfl⟩ := List.mem_map.1 hev
      refine ⟨List.mem_of_mem_take hfk, fun htarget => ?_⟩
      rw [foreignKeys, ← List.map_take] at hfk
      obtain ⟨c, hc, rfl⟩ := List.mem_map.1 hfk
      rcases target_step (c := c) htarget with hkey | ⟨rfl, -⟩
      · cases hkey
      · exact absurd hc (by decide)

theorem own_event_blocks (hchk : r.reviewChk = true) (hr : db.lookup (.step a n) = some r)
    (he : r.reviewEventId = some e) (hevent : db.lookup (.event e) = some event)
    (howner : event.userId = u) : deleteRow schema (.user u) db = none := by
  have hr₀ : (set (.user u) none db).lookup (.step a n) = some r := by
    rw [lookup_set_ne (by simp), hr]
  have hevent₀ : (set (.user u) none db).lookup (.event e) = some event := by
    rw [lookup_set_ne (by simp), hevent]
  unfold deleteRow settle
  cases hround : round schema (triggers schema (.user u)) (set (.user u) none db) with
  | none => rfl
  | some rounded =>
    obtain ⟨db₁, later⟩ := rounded
    have hrounded := round_spec (fun ev hev => (mem_triggers.1 hev).1) hround
    have hr₁ : db₁.lookup (.step a n) = some r := by
      rw [hrounded.untouched (.step a n) fun ev hev r' hr' htarget => ?_, hr₀]
      obtain ⟨hfk, hkey⟩ := mem_triggers.1 hev
      obtain ⟨c, hc⟩ := mem_foreignKeys hfk
      rw [hc, hkey] at htarget
      rcases target_step (c := c) htarget with hkey | ⟨-, hkey⟩
      · cases hkey
      · obtain ⟨e', -, hkey⟩ := Option.map_eq_some_iff.1 hkey
        cases hkey
    obtain ⟨xs, ys, rfl, hxs⟩ := own_event_first (a := a) (n := n) hround he hevent₀ howner
    have hstuck : round schema (xs ++ (Reference.attemptStepsReviewEvent.foreignKey, .event e) :: ys)
        db₁ = none :=
      round_stuck (fun ev hev => (hxs ev hev).1) rfl hr₁ (congrArg (Option.map Key.event) he)
        (clear_violates hchk he) fun ev hev => (hxs ev hev).2
    have hsome : (xs ++ (Reference.attemptStepsReviewEvent.foreignKey, Key.event e) :: ys).isEmpty ≠
        true := by simp
    rw [Option.bind_some]
    dsimp only
    rw [if_neg hsome]
    cases db.keys.length with
    | zero => rfl
    | succ fuel => rw [settle, hstuck, Option.bind_none]

end Blocked

/-- A step with the review it was accepted with. -/
structure ReviewedStep (db : DeletionDb) (a : AttemptId) (n : Nat) (step : StepRow) (e : EventId)
    (event : EventRow) : Prop where
  found : db.lookup (.step a n) = some step
  review : step.reviewEventId = some e
  event : db.lookup (.event e) = some event

/-- Some step keeps a review of `u`, or keeps a review of a word of `u` in an attempt
that is not one of `u`. -/
def HoldsReviewOf (u : UserId) (db : DeletionDb) : Prop :=
  ∃ a n step e event, ReviewedStep db a n step e event ∧ (event.userId = u ∨
    (∃ word : WordRow, db.lookup (.word event.wordId) = some word ∧ word.owner = some u) ∧
      ∀ attempt : OwnedRow, db.lookup (.attempt a) = some attempt → attempt.userId ≠ u)

def HoldsReviewAbout (w : WordId) (db : DeletionDb) : Prop :=
  ∃ a n step e event, ReviewedStep db a n step e event ∧ event.wordId = w

/-- What stands in the way is an accepted step. -/
theorem stuck_step {start : DeletionDb}
    (hstart : ∀ k r', start.lookup k = some r' → ∃ r, db.lookup k = some r ∧ Reduced schema k r r')
    {event : ReferentialActions.Event Row} (hmem : event.1 ∈ schema.foreignKeys)
    (h : Stuck schema start event) : ∃ a n step e, db.lookup (.step a n) = some step ∧
      step.reviewEventId = some e ∧ event.2 = .event e ∧ (start.lookup (.step a n)).isSome := by
  obtain ⟨clear, k, r₁, r', hdelete, hr₁, hreduced₁, htarget, hcheck⟩ := h
  obtain ⟨r, hr, hreduced⟩ := hstart k r₁ hr₁
  have htarget := (hreduced.trans hreduced₁).target hmem htarget
  obtain ⟨c, hc⟩ := mem_foreignKeys hmem
  rw [hc] at hdelete htarget
  obtain ⟨rfl | rfl, rfl⟩ := Reference.onDelete_setNull hdelete
  · cases k with
    | step a n =>
      obtain ⟨e, he, hkey⟩ := Option.map_eq_some_iff.1 htarget
      exact ⟨a, n, r, e, hr, he, hkey.symm, by simp [hr₁]⟩
    | _ => cases htarget
  · cases k with
    | suggestion s => cases hcheck
    | _ => cases htarget

theorem event_there (hdb : Legal schema db) {step : StepRow} (hstep : db.lookup (.step a n) = some step)
    (he : step.reviewEventId = some e) : ∃ event, ReviewedStep db a n step e event := by
  have hthere := hdb.resolved (Reference.foreignKey .attemptStepsReviewEvent)
    (List.mem_map_of_mem (by decide)) _ _ (.event e) hstep (congrArg (Option.map Key.event) he)
  obtain ⟨event, hevent⟩ := Option.isSome_iff_exists.1 hthere
  exact ⟨event, hstep, he, hevent⟩

/-- A row with a reference that it cannot lose goes with the row that it refers to. -/
theorem taken_along {k key k' : Key} {r : Row k'} (h : Deleted schema k db db')
    (hkey : key = k ∨ (db.lookup key).isSome) (hgone : db'.lookup key = none) (c : Reference)
    (hc : c ∈ Reference.all) (hr : db.lookup k' = some r) (htarget : c.target k' r = some key)
    (hstep : ∀ a n, k' ≠ .step a n) (hsuggestion : ∀ s, k' ≠ .suggestion s) :
    db'.lookup k' = none := by
  cases hfound : db'.lookup k' with
  | none => rfl
  | some r' =>
    obtain ⟨r₀, hr₀, hreduced⟩ := h.survives _ r' hfound
    cases hr.symm.trans hr₀
    have hsame := reduced_eq hreduced hstep hsuggestion
    subst hsame
    exact absurd htarget (h.clean key hkey hgone c.foreignKey (List.mem_map_of_mem hc) _ _ hfound)

theorem word_refused_iff (hdb : Legal schema db) (w : WordId) :
    deleteRow schema (.word w) db = none ↔ HoldsReviewAbout w db := by
  constructor
  · intro h
    obtain ⟨ev, hmem, hdoomed, hstuck⟩ := deleteRow_refused h
    obtain ⟨a, n, step, e, hstep, he, hkey, -⟩ :=
      stuck_step (settling_delete _ db).origin hmem hstuck
    obtain ⟨event, hreviewed⟩ := event_there hdb hstep he
    rw [hkey] at hdoomed
    obtain ⟨r, hr, hw⟩ := doomed_about hdoomed
    cases hr.symm.trans hreviewed.event
    exact ⟨a, n, step, e, event, hreviewed, hw⟩
  · rintro ⟨a, n, step, e, event, hreviewed, rfl⟩
    cases h : deleteRow schema (.word event.wordId) db with
    | none => rfl
    | some db' =>
      have hdeleted := deleteRow_spec h
      have hgone := taken_along hdeleted (.inl rfl) hdeleted.gone .reviewEventsWord (by decide)
        hreviewed.event rfl (by simp) (by simp)
      have hstep := deleted_step hdeleted (hdb.checks _ _ hreviewed.found) hreviewed.found
        hreviewed.review hreviewed.event hgone
      exact absurd (doomed_about (step_attempt_doomed hstep (by simp))) id

/-- Once the attempts of a user are gone, so are their steps. -/
theorem steps_gone {db₁ db₂ : DeletionDb} {later later' : List (ReferentialActions.Event Row)}
    {attempt : OwnedRow} (h₁ : Rounded schema (triggers schema (.user u)) db db₁ later)
    (h₂ : Rounded schema later db₁ db₂ later') (hattempt : db.lookup (.attempt a) = some attempt)
    (howner : attempt.userId = u) : db₂.lookup (.step a n) = none := by
  have hgone : db₁.lookup (.attempt a) = none := by
    cases hfound : (db₁.lookup (.attempt a) : Option OwnedRow) with
    | none => rfl
    | some attempt' =>
      obtain ⟨r, hr, hreduced⟩ := h₁.survives _ attempt' hfound
      cases hr.symm.trans hattempt
      have hsame : attempt' = attempt := reduced_eq hreduced (by simp) (by simp)
      subst hsame
      refine absurd ?_ (h₁.released (Reference.foreignKey .attemptsUser, .user u)
        (mem_triggers.2 ⟨List.mem_map_of_mem (by decide), rfl⟩) _ _ hfound)
      exact congrArg (fun u => some (Key.user u)) howner
  cases hfound : (db₂.lookup (.step a n) : Option StepRow) with
  | none => rfl
  | some step =>
    exact absurd rfl (h₂.released (Reference.foreignKey .attemptStepsAttempt, .attempt a)
      ((h₁.later _).2 ⟨List.mem_map_of_mem (by decide), by simp [hattempt], hgone⟩) _ _ hfound)

/-- Only the reviews of the user itself are dealt with before the attempts are. -/
theorem user_refused (hdb : Legal schema db) (h : deleteRow schema (.user u) db = none) :
    HoldsReviewOf u db := by
  have hstart := settling_delete (s := schema) (.user u) db
  have hfuel := Nat.lt_succ_of_le (length_keys_delete (Key.user u) db)
  rcases settle_none hstart.keys hfuel h with ⟨ev, hev, hstuck⟩ | ⟨db₁, later, h₁, hs₁, hfuel₁⟩
  · obtain ⟨hmem, hkey⟩ := mem_triggers.1 hev
    obtain ⟨a, n, step, e, -, -, hkey', -⟩ := stuck_step hstart.origin hmem hstuck
    cases hkey.symm.trans hkey'
  obtain ⟨fuel, hlen⟩ : ∃ fuel, db.keys.length = fuel + 1 := ⟨db.keys.length - 1, by omega⟩
  rw [hlen] at hs₁ hfuel₁
  have hnext := hstart.next h₁
  rcases settle_none hnext.keys hfuel₁ hs₁ with ⟨ev, hev, hstuck⟩ | ⟨db₂, later', h₂, hs₂, hfuel₂⟩
  · obtain ⟨a, n, step, e, hstep, he, hkey, -⟩ := stuck_step hnext.origin (hnext.keys ev hev) hstuck
    obtain ⟨event, hreviewed⟩ := event_there hdb hstep he
    obtain ⟨-, -, hgone⟩ := (h₁.later ev).1 hev
    rw [hkey] at hgone
    have hevent : (set (Key.user u) none db).lookup (.event e) = some event := by
      rw [lookup_set_ne (by simp), hreviewed.event]
    obtain ⟨ev', hev', -, htarget⟩ := h₁.removed _ event hevent hgone
    obtain ⟨hmem, hkey'⟩ := mem_triggers.1 hev'
    obtain ⟨c, hc⟩ := mem_foreignKeys hmem
    rw [hc, hkey'] at htarget
    rcases target_event (c := c) htarget with heq | heq
    · cases heq
      exact ⟨a, n, step, e, event, hreviewed, .inl rfl⟩
    · cases heq
  · obtain ⟨ev, hmem, hdoomed, hstuck⟩ := settle_refused (hnext.next h₂) hfuel₂ hs₂
    obtain ⟨a, n, step, e, hstep, he, hkey, hthere⟩ :=
      stuck_step (hnext.next h₂).origin hmem hstuck
    obtain ⟨event, hreviewed⟩ := event_there hdb hstep he
    rw [hkey] at hdoomed
    obtain ⟨r, hr, howned⟩ := doomed_belongs hdoomed
    cases hr.symm.trans hreviewed.event
    refine ⟨a, n, step, e, event, hreviewed, howned.imp_right fun hword => ⟨hword, ?_⟩⟩
    intro attempt hattempt howner
    have hattempt : (set (Key.user u) none db).lookup (.attempt a) = some attempt := by
      rw [lookup_set_ne (by simp), hattempt]
    rw [steps_gone (n := n) h₁ h₂ hattempt howner] at hthere
    cases hthere

theorem user_refused_iff (hdb : Legal schema db) (u : UserId) :
    deleteRow schema (.user u) db = none ↔ HoldsReviewOf u db := by
  refine ⟨user_refused hdb, ?_⟩
  rintro ⟨a, n, step, e, event, hreviewed, howned⟩
  have hchk := hdb.checks _ _ hreviewed.found
  by_cases hown : event.userId = u
  · exact own_event_blocks hchk hreviewed.found hreviewed.review hreviewed.event hown
  obtain ⟨⟨word, hword, howner⟩, hattempt⟩ := howned.resolve_left hown
  cases h : deleteRow schema (.user u) db with
  | none => rfl
  | some db' =>
    have hdeleted := deleteRow_spec h
    have hnoWord := taken_along hdeleted (.inl rfl) hdeleted.gone .wordsOwner (by decide) hword
      (congrArg (Option.map Key.user) howner) (by simp) (by simp)
    have hnoEvent := taken_along hdeleted (.inr (by simp [hword])) hnoWord .reviewEventsWord
      (by decide) hreviewed.event rfl (by simp) (by simp)
    have hstep := deleted_step hdeleted hchk hreviewed.found hreviewed.review hreviewed.event hnoEvent
    obtain ⟨attempt, hfound, howner⟩ := doomed_belongs (step_attempt_doomed hstep (by simp))
    exact absurd howner (hattempt attempt hfound)

end DeletionCascade
