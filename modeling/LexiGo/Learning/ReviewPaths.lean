import LexiGo.Learning.AnswerCandidates
import LexiGo.Learning.ReviewTransaction
import LexiGo.ReadCommitted.SoloRun

/-! The ways to review a word, side by side. Each is followed from the same rows,
at the same time and with the same number for its event, to the commit of the
transaction it is part of. -/
namespace ReviewPaths
open RowStore TransactionProgram SoloRun GoText AnswerJudgement AnswerCandidates Scheduler
open LearningSchema LessonRepository ReviewTransaction

variable {unicode : Unicode} {ε α β : Type} {db : LearningDb} {u : UserId} {w : WordId}
variable {request : ReviewRequest} {now e : Nat}

/-- A path whose caller commits what it leaves open. -/
def ended (p : LearningProg (Except ε α)) : LearningProg (Except ε α) := do
  let answer ← p
  commit []
  return answer

/-- Whether a path accepts the review, and the rows it leaves. -/
def outcome (p : LearningProg (Except ε α)) (db : LearningDb) (now e : Nat) :
    Option (Bool × LearningDb) :=
  (solo (ended p) ⟨db, db, [now, e]⟩).map fun r => (r.1.toBool, r.2.committed)

/-- What a review records, but for the lesson it belongs to. -/
def unattributed (event : EventRow) : EventRow :=
  { event with sessionKind := none, selectionReason := none }

structure Unchanged (db db' : LearningDb) : Prop where
  userWord : ∀ u w, db'.lookup (.userWord u w) = db.lookup (.userWord u w)
  event : ∀ e, db'.lookup (.event e) = db.lookup (.event e)

/-- Both paths reject the review and change nothing, or both accept it and leave the
same learning state and the same events. -/
inductive Agree (db : LearningDb) (u : UserId) (w : WordId) :
    Option (Bool × LearningDb) → Option (Bool × LearningDb) → Prop
  | rejects {db₁ db₂ : LearningDb} : Unchanged db db₁ → Unchanged db db₂ →
      Agree db u w (some (false, db₁)) (some (false, db₂))
  | accepts {db₁ db₂ : LearningDb} :
      db₁.lookup (.userWord u w) = db₂.lookup (.userWord u w) →
      (∀ e, Option.map unattributed (db₁.lookup (.event e)) =
        Option.map unattributed (db₂.lookup (.event e))) →
      Agree db u w (some (true, db₁)) (some (true, db₂))

/-- The lesson of `call` is active at the version that the request gives, in its
mode, and the word is the item it has come to. -/
structure CurrentItem (db : LearningDb) (call : ReviewCall) (lesson : LessonRow)
    (item : ItemRow) : Prop where
  foundLesson : db.lookup (.lesson call.lessonId) = some lesson
  active : lesson.activeOf call.userId = true
  version : lesson.version = call.request.lessonVersion
  mode : lesson.studyMode = call.request.answerMode
  foundItem : db.lookup (.item call.lessonId call.wordId) = some item
  unreviewed : item.rating = none
  position : item.position = lesson.currentIndex

/-- What the review of `w` amounts to: the row it leaves and the event it records, or
nothing where it is rejected. -/
def reviewed (unicode : Unicode) (db : LearningDb) (u : UserId) (w : WordId)
    (request : ReviewRequest) (now e : Nat) : Option (UserWordRow × EventRow) :=
  match (db.lookup (.userWord u w) : Option UserWordRow), (db.lookup (.word w) : Option WordRow) with
  | some state, some word =>
    let a := attempt unicode request state word now
    let event := a.event u w request now none none
    if a.fits && (rowsWhere (events fun e' _ => e ≤ e') db).isEmpty && event.storable then
      some (a.row now, event)
    else none
  | _, _ => none

/-- A path did what the review amounts to; `attributed` adds the lesson. -/
structure Did (db : LearningDb) (u : UserId) (w : WordId) (e : EventId)
    (r : Option (UserWordRow × EventRow)) (attributed : EventRow → EventRow)
    (o : Option (Bool × LearningDb)) : Prop where
  rejects : r = none → o = some (false, db)
  accepts : ∀ row event, r = some (row, event) → ∃ db', o = some (true, db') ∧
    db'.lookup (.userWord u w) = some row ∧ db'.lookup (.event e) = some (attributed event) ∧
    ∀ e', e' ≠ e → db'.lookup (.event e') = db.lookup (.event e')

theorem Did.agree {r : Option (UserWordRow × EventRow)} {f g : EventRow → EventRow}
    {o o' : Option (Bool × LearningDb)} (h : Did db u w e r f o) (h' : Did db u w e r g o')
    (hf : ∀ event, unattributed (f event) = unattributed (g event)) : Agree db u w o o' := by
  cases r with
  | none =>
    rw [h.rejects rfl, h'.rejects rfl]
    exact .rejects ⟨fun _ _ => rfl, fun _ => rfl⟩ ⟨fun _ _ => rfl, fun _ => rfl⟩
  | some r =>
    obtain ⟨db₁, rfl, hrow₁, hevent₁, hrest₁⟩ := h.accepts r.1 r.2 rfl
    obtain ⟨db₂, rfl, hrow₂, hevent₂, hrest₂⟩ := h'.accepts r.1 r.2 rfl
    refine .accepts (hrow₁.trans hrow₂.symm) fun e' => ?_
    by_cases he : e' = e
    · subst he
      rw [hevent₁, hevent₂]
      exact congrArg some (hf r.2)
    · rw [hrest₁ e' he, hrest₂ e' he]

section Statements
variable {s : Solo Row} {rest : List Nat} {row : EventRow}

/-- The event is stored if its number is the next one, the constraints hold and the
word is there; otherwise the statement fails. -/
theorem solo_insertEvent (hs : s.choices = e :: rest) :
    ∃ s', s'.committed = s.committed ∧ s'.choices = rest ∧
      solo (insertEvent row) s = some (if (rowsWhere (events fun e' _ => e ≤ e') s.view).isEmpty &&
        row.storable && (s.view.lookup (.word row.wordId)).isSome then some e else none, s') ∧
      ((rowsWhere (events fun e' _ => e ≤ e') s.view).isEmpty && row.storable &&
        (s.view.lookup (.word row.wordId)).isSome → s'.view = set (.event e) (some row) s.view) := by
  have hnext : solo nextEventId s =
      some (if (rowsWhere (events fun e' _ => e ≤ e') s.view).isEmpty then some e else none,
        { s with choices := rest }) := by
    unfold nextEventId
    rw [solo_bind, solo_choose hs, Option.bind_some, solo_bind, solo_select, Option.bind_some]
    dsimp only
    split <;> rfl
  unfold insertEvent
  rw [solo_bind, hnext, Option.bind_some]
  cases hlast : (rowsWhere (events fun e' _ => e ≤ e') s.view).isEmpty with
  | false => exact ⟨{ s with choices := rest }, rfl, rfl, rfl, by simp⟩
  | true =>
    rw [if_pos rfl]
    dsimp only
    cases hstorable : row.storable with
    | false => exact ⟨{ s with choices := rest }, rfl, rfl, rfl, by simp⟩
    | true =>
      have free : s.view.lookup (.event e) = none := by
        cases hfound : s.view.lookup (.event e) with
        | none => rfl
        | some r =>
          have hmem : Key.event e ∈ rowsWhere (events fun e' _ => e ≤ e') s.view :=
            mem_rowsWhere.2 ⟨r, hfound, by simp [events]⟩
          rw [List.isEmpty_iff.1 hlast] at hmem
          cases hmem
      simp only [Bool.not_true, Bool.false_eq_true, if_false, if_true, solo_bind, solo_insertRow,
        Option.bind_some, free, Option.isNone_none, referenceWord, solo_lockRow, solo_select,
        Bool.and_self, Bool.true_and]
      have hword : (set (Key.event e) (some row) s.view).lookup (.word row.wordId) =
          s.view.lookup (.word row.wordId) := lookup_set_ne (by simp) _ _
      refine ⟨{ s with choices := rest, view := set (.event e) (some row) s.view }, rfl, rfl, ?_,
        fun _ => rfl⟩
      change solo (if ((set (Key.event e) (some row) s.view).lookup (.word row.wordId)).isSome = true
        then _ else _) _ = _
      rw [hword]
      cases (s.view.lookup (.word row.wordId)).isSome <;> rfl

/-- The learning state of a word is no event. -/
theorem events_set_userWord (p : EventId → EventRow → Bool) (v : Option UserWordRow) :
    (rowsWhere (events p) (set (Key.userWord u w) v db)).isEmpty =
      (rowsWhere (events p) db).isEmpty := by
  have same : ∀ k, k ∈ rowsWhere (events p) (set (Key.userWord u w) v db) ↔
      k ∈ rowsWhere (events p) db := by
    intro k
    rw [mem_rowsWhere, mem_rowsWhere]
    cases k with
    | event e => rw [lookup_set_ne (by simp)]
    | _ => simp [events]
  rw [Bool.eq_iff_iff, List.isEmpty_iff, List.isEmpty_iff, List.eq_nil_iff_forall_not_mem,
    List.eq_nil_iff_forall_not_mem]
  exact forall_congr' fun k => not_congr (same k)

/-- The event of a review, after the new state of the word has been written. -/
theorem solo_record (hs : s.choices = e :: rest) (state : UserWordRow)
    (hword : (s.view.lookup (.word row.wordId)).isSome = true) :
    ∃ s', s'.committed = s.committed ∧ s'.choices = rest ∧
      solo (insertEvent row) (s.put (.userWord u w) (some state)) =
        some (if (rowsWhere (events fun e' _ => e ≤ e') s.view).isEmpty && row.storable
          then some e else none, s') ∧
      ((rowsWhere (events fun e' _ => e ≤ e') s.view).isEmpty && row.storable →
        s'.view = set (.event e) (some row) (set (.userWord u w) (some state) s.view)) := by
  obtain ⟨s', hcommitted, hchoices, hsolo, hview⟩ :=
    @solo_insertEvent e (s.put (.userWord u w) (some state)) rest row hs
  have hword' : ((s.put (.userWord u w) (some state)).view.lookup (.word row.wordId)).isSome =
      true := by
    rw [Solo.put, lookup_set_ne (by simp)]
    exact hword
  have hlast : (rowsWhere (events fun e' _ => e ≤ e')
      (s.put (.userWord u w) (some state)).view).isEmpty =
      (rowsWhere (events fun e' _ => e ≤ e') s.view).isEmpty := events_set_userWord _ _
  rw [hword', hlast, Bool.and_true] at hsolo hview
  exact ⟨s', hcommitted, hchoices, hsolo, hview⟩

@[simp] theorem solo_lockUserWord :
    solo (lockUserWord u w) s = some (s.view.lookup (.userWord u w), s) := by
  rw [lockUserWord, solo_selectFor]
  have hall : ∀ o : Option UserWordRow, (o.filter fun _ => true) = o := by
    rintro (_ | _) <;> rfl
  exact congrArg (fun o => some (o, s)) (hall _)

@[simp] theorem solo_wordRow : solo (wordRow w) s = some (s.view.lookup (.word w), s) := rfl

end Statements

theorem outcome_eq (p : LearningProg (Except ε α)) : outcome p db now e =
    (solo p ⟨db, db, [now, e]⟩).map fun r => (r.1.toBool, r.2.view) := by
  unfold outcome ended
  rw [solo_bind]
  cases solo p ⟨db, db, [now, e]⟩ <;> rfl

/-- What a path comes to is what a run of it alone comes to, one scheduler step
after another. -/
theorem outcome_run {Op : Type} {p : LearningProg (Except ε α)} {ok : Bool} {db' : LearningDb}
    {log : List (Nat × Note)} {op : Op} (h : outcome p db now e = some (ok, db')) :
    ∃ w' t' r, Interleaving.Run (fun _ : Op => ended p) (fun _ _ _ _ => True)
      ⟨⟨db, log⟩, [⟨op, ⟨db, log⟩, {}, some (ended p)⟩]⟩
      ⟨w', [⟨op, ⟨db, log⟩, t', some (.ret r)⟩]⟩ ∧ w'.db = db' ∧ r.toBool = ok := by
  unfold outcome at h
  obtain ⟨⟨r, s⟩, hsolo, hr⟩ := Option.map_eq_some_iff.1 h
  cases hr
  obtain ⟨w', t', hrun, hdb, -⟩ := @run_of_solo _ _ _ _ _ _ (fun _ => ended p) op ⟨db, log⟩
    ⟨db, log⟩ {} _ _ _ _ _ _ hsolo
  exact ⟨w', t', r, hrun, hdb, rfl⟩

variable {attributed : EventRow → EventRow}

theorem did_missing {o : Option (Bool × LearningDb)} (h : reviewed unicode db u w request now e = none)
    (ho : o = some (false, db)) : Did db u w e (reviewed unicode db u w request now e) attributed o := by
  refine ⟨fun _ => ho, fun row event hr => ?_⟩
  rw [h] at hr
  cases hr

/-- The rows that a review leaves, seen through what a path writes besides. -/
structure Recorded (db : LearningDb) (u : UserId) (w : WordId) (e : EventId) (state : UserWordRow)
    (event : EventRow) (db' : LearningDb) : Prop where
  userWord : db'.lookup (.userWord u w) = some state
  event : db'.lookup (.event e) = some event
  others : ∀ e', e' ≠ e → db'.lookup (.event e') = db.lookup (.event e')

theorem recorded_set (db : LearningDb) (state : UserWordRow) (event : EventRow) :
    Recorded db u w e state event
      (set (.event e) (some event) (set (.userWord u w) (some state) db)) := by
  refine ⟨?_, lookup_set_self _ _ _, fun e' he => ?_⟩
  · rw [lookup_set_ne (by simp), lookup_set_self]
  · rw [lookup_set_ne (by simpa using he), lookup_set_ne (by simp)]

theorem Recorded.put {state : UserWordRow} {event : EventRow} {db' : LearningDb}
    (h : Recorded db u w e state event db') {k : Key} (hu : ∀ u w, k ≠ .userWord u w)
    (he : ∀ e, k ≠ .event e) (v : Option (Row k)) :
    Recorded db u w e state event (set k v db') := by
  refine ⟨?_, ?_, fun e' hne => ?_⟩
  · rw [lookup_set_ne (hu u w).symm, h.userWord]
  · rw [lookup_set_ne (he e).symm, h.event]
  · rw [lookup_set_ne (he e').symm, h.others e' hne]

theorem did_recorded {state : UserWordRow} {word : WordRow} {a : Attempt}
    {o : Option (Bool × LearningDb)}
    (hstate : (db.lookup (.userWord u w) : Option UserWordRow) = some state)
    (hword : (db.lookup (.word w) : Option WordRow) = some word)
    (ha : attempt unicode request state word now = a) (hfits : a.fits = true)
    (hfails : ((rowsWhere (events fun e' _ => e ≤ e') db).isEmpty &&
      (a.event u w request now none none).storable) = false → o = some (false, db))
    (hdone : ((rowsWhere (events fun e' _ => e ≤ e') db).isEmpty &&
      (a.event u w request now none none).storable) = true → ∃ db', o = some (true, db') ∧
        Recorded db u w e (a.row now) (attributed (a.event u w request now none none)) db') :
    Did db u w e (reviewed unicode db u w request now e) attributed o := by
  have heq : reviewed unicode db u w request now e =
      if (rowsWhere (events fun e' _ => e ≤ e') db).isEmpty &&
        (a.event u w request now none none).storable
      then some (a.row now, a.event u w request now none none) else none := by
    simp only [reviewed, hstate, hword, ha, hfits, Bool.true_and]
  rw [heq]
  cases hok : (rowsWhere (events fun e' _ => e ≤ e') db).isEmpty &&
    (a.event u w request now none none).storable with
  | false =>
    refine ⟨fun _ => hfails hok, fun row event hr => ?_⟩
    cases hr
  | true =>
    refine ⟨fun hr => (by cases hr), fun row event hr => ?_⟩
    cases hr
    obtain ⟨db', ho, hrecorded⟩ := hdone hok
    exact ⟨db', ho, hrecorded.userWord, hrecorded.event, hrecorded.others⟩

theorem reviewWord_did : Did db u w e (reviewed unicode db u w request now e) id
    (outcome (reviewWord unicode u w request) db now e) := by
  rw [outcome_eq, reviewWord, solo_bind, solo_lockUserWord, Option.bind_some]
  dsimp only
  cases hstate : (db.lookup (.userWord u w) : Option UserWordRow) with
  | none => exact did_missing (by simp [reviewed, hstate]) rfl
  | some state =>
    dsimp only
    rw [solo_bind, solo_wordRow, Option.bind_some]
    dsimp only
    cases hword : (db.lookup (.word w) : Option WordRow) with
    | none => exact did_missing (by simp [reviewed, hstate, hword]) rfl
    | some word =>
      dsimp only
      rw [solo_bind, solo_choose rfl, Option.bind_some]
      dsimp only
      generalize ha : attempt unicode request state word now = a
      cases hfits : a.fits with
      | false => exact did_missing (by simp [reviewed, hstate, hword, ha, hfits]) rfl
      | true =>
        rw [Bool.not_true, if_neg (by simp), solo_bind, solo_writeRow (.inl rfl),
          Option.bind_some, solo_bind]
        obtain ⟨⟨committed, view, choices⟩, rfl, rfl, hsolo, hview⟩ :=
          @solo_record u w e ⟨db, db, [e]⟩ [] (a.event u w request now none none) rfl (a.row now)
            (by exact Option.isSome_iff_exists.2 ⟨word, hword⟩)
        rw [hsolo, Option.bind_some]
        refine did_recorded hstate hword ha hfits (fun hok => ?_) (fun hok => ?_)
        · rw [hok]
          rfl
        · rw [hok]
          refine ⟨view, rfl, ?_⟩
          rw [show view = _ from hview hok]
          exact recorded_set _ _ _

/-- The shared end of the paths that do not own their transaction. -/
theorem solo_applyReviewTx {assessment : ReviewAssessment} {state : UserWordRow} {word : WordRow}
    {a : Attempt} (hword : (db.lookup (.word w) : Option WordRow) = some word)
    (ha : scheduled request state assessment now = a) :
    ∃ r view, solo (applyReviewTx u w request state assessment) ⟨db, db, [now, e]⟩ =
        some (r, ⟨db, view, if a.fits then [] else [e]⟩) ∧
      r.toBool = (a.fits && ((rowsWhere (events fun e' _ => e ≤ e') db).isEmpty &&
        (a.event u w request now none none).storable)) ∧
      (r.toBool = false → view = db) ∧
      (r.toBool = true → Recorded db u w e (a.row now) (a.event u w request now none none) view) := by
  rw [applyReviewTx, solo_bind, solo_choose rfl, Option.bind_some]
  dsimp only
  rw [ha]
  cases hfits : a.fits with
  | false => exact ⟨_, db, rfl, rfl, fun _ => rfl, fun h => (by cases h)⟩
  | true =>
    rw [Bool.not_true, if_neg (by simp), solo_bind, solo_writeRow (.inl rfl), Option.bind_some,
      solo_bind]
    obtain ⟨⟨committed, view, choices⟩, hcommitted, hchoices, hsolo, hview⟩ :=
      @solo_record u w e ⟨db, db, [e]⟩ [] (a.event u w request now none none) rfl (a.row now)
        (by exact Option.isSome_iff_exists.2 ⟨word, hword⟩)
    have hcommitted : committed = db := hcommitted
    have hchoices : choices = [] := hchoices
    rw [hsolo, Option.bind_some]
    cases hok : (rowsWhere (events fun e' _ => e ≤ e') db).isEmpty &&
      (a.event u w request now none none).storable with
    | false =>
      refine ⟨.error .internal, db, ?_, rfl, fun _ => rfl, fun h => (by cases h)⟩
      rw [hcommitted, hchoices]
      rfl
    | true =>
      refine ⟨.ok (a.result w e now), view, ?_, rfl, fun h => (by cases h), fun _ => ?_⟩
      · rw [hcommitted, hchoices]
        rfl
      · rw [show view = _ from hview hok]
        exact recorded_set _ _ _

theorem reviewWordTx_did : Did db u w e (reviewed unicode db u w request now e) id
    (outcome (reviewWordTx unicode u w request) db now e) := by
  rw [outcome_eq, reviewWordTx, solo_bind, solo_lockUserWord, Option.bind_some]
  dsimp only
  cases hstate : (db.lookup (.userWord u w) : Option UserWordRow) with
  | none => exact did_missing (by simp [reviewed, hstate]) rfl
  | some state =>
    dsimp only
    rw [solo_bind, solo_wordRow, Option.bind_some]
    dsimp only
    cases hword : (db.lookup (.word w) : Option WordRow) with
    | none => exact did_missing (by simp [reviewed, hstate, hword]) rfl
    | some word =>
      dsimp only
      have ha : scheduled request state (assessReview unicode request word.definition) now =
          attempt unicode request state word now := rfl
      obtain ⟨r, view, hsolo, hr, hfails, hdone⟩ := @solo_applyReviewTx db u w request now e
        (assessReview unicode request word.definition) state word _ hword ha
      rw [hsolo, Option.map_some]
      cases hfits : (attempt unicode request state word now).fits with
      | false =>
        rw [hfits, Bool.false_and] at hr
        refine did_missing (by simp [reviewed, hstate, hword, hfits]) ?_
        rw [hr, hfails hr]
      | true =>
        rw [hfits, Bool.true_and] at hr
        refine did_recorded hstate hword rfl hfits (fun hok => ?_) (fun hok => ?_)
        · rw [hr, hok, hfails (hr.trans hok)]
        · exact ⟨view, by rw [hr, hok], hdone (hr.trans hok)⟩

/-- What the judge of the cards finds is evidence that the other judge's entry takes,
unless the answer is longer than any that can be stored. -/
theorem validate_assessed {definition : AnswerDefinition} {submitted : String}
    (hmode : request.answerMode.objective = true) (hsubmitted : request.submittedAnswer = some submitted)
    (hrevealed : request.answerRevealed ≠ some true) :
    (submitted.length ≤ 500 →
      validateTrustedReviewAssessment request (assessReview unicode request definition) = .ok ()) ∧
    (500 < submitted.length → ∃ text,
      validateTrustedReviewAssessment request (assessReview unicode request definition) =
        .error text) := by
  generalize hjudged : judgeSubmittedAnswer unicode definition submitted = judged
  obtain ⟨correct, reason, matched⟩ := judged
  have hassessment : assessReview unicode request definition =
      (ReviewAssessment.penalize
        { exposure request with
          correct := some correct
          judgementSource := .server
          judgementReason := reason
          matchedAnswer := matched
          suggestionAvailable := !correct && normalizeSubmittedAnswer unicode submitted ≠ "" }) := by
    simp only [assessReview, hmode, Bool.not_true, Bool.false_eq_true, if_false,
      objectiveAssessment, hsubmitted, hjudged]
  have hreason : trimSpace (judgementReasonText reason) ≠ "" := by
    cases reason <;> decide
  have hlimit : submittedAnswerWithinLimit submitted = decide (submitted.length ≤ 500) := rfl
  rw [hassessment]
  cases correct with
  | true =>
    have hmatched : trimSpace matched ≠ "" := by
      have := @judge_matched unicode definition submitted
      rw [hjudged] at this
      exact this rfl
    constructor
    · intro hlen
      simp [validateTrustedReviewAssessment, ReviewAssessment.penalize, exposure, hmode, hrevealed,
        hreason, hsubmitted, hlimit, hlen, hmatched]
    · intro hlen
      refine ⟨"trusted review assessment submitted answer exceeds the supported limit", ?_⟩
      simp [validateTrustedReviewAssessment, ReviewAssessment.penalize, exposure, hmode, hrevealed,
        hreason, hsubmitted, hlimit, Nat.not_le.2 hlen]
  | false =>
    have hmatched : matched = "" := by
      have := @judge_unmatched unicode definition submitted
      rw [hjudged] at this
      exact this rfl
    have hblank : trimSpace "" = "" := rfl
    constructor
    · intro hlen
      simp [validateTrustedReviewAssessment, ReviewAssessment.penalize, exposure, hmode, hrevealed,
        hreason, hsubmitted, hlimit, hlen, hmatched, hblank]
    · intro hlen
      refine ⟨"trusted review assessment submitted answer exceeds the supported limit", ?_⟩
      simp [validateTrustedReviewAssessment, ReviewAssessment.penalize, exposure, hmode, hrevealed,
        hreason, hsubmitted, hlimit, Nat.not_le.2 hlen]

theorem storable_submitted {state : UserWordRow} {word : WordRow} {submitted : String}
    (hsubmitted : request.submittedAnswer = some submitted)
    (h : ((attempt unicode request state word now).event u w request now none none).storable = true) :
    submitted.length ≤ 500 := by
  have hanswer : (attempt unicode request state word now).assessment.submittedAnswer =
      some submitted := assessReview_submittedAnswer.trans hsubmitted
  simp only [EventRow.storable, Attempt.event, hanswer, Option.all_some, Bool.and_eq_true,
    decide_eq_true_eq] at h
  exact h.1.2.2

theorem reviewWordTxWithAssessment_did {word : WordRow} {submitted : String}
    (hword : (db.lookup (.word w) : Option WordRow) = some word)
    (hmode : request.answerMode.objective = true) (hsubmitted : request.submittedAnswer = some submitted)
    (hrevealed : request.answerRevealed ≠ some true) :
    Did db u w e (reviewed unicode db u w request now e) id
      (outcome (reviewWordTxWithAssessment u w request
        (assessReview unicode request word.definition)) db now e) := by
  obtain ⟨hvalid, hlong⟩ :=
    @validate_assessed unicode request word.definition submitted hmode hsubmitted hrevealed
  rw [outcome_eq, reviewWordTxWithAssessment]
  by_cases hlen : submitted.length ≤ 500
  · rw [hvalid hlen]
    dsimp only
    rw [solo_bind, solo_lockUserWord, Option.bind_some]
    dsimp only
    cases hstate : (db.lookup (.userWord u w) : Option UserWordRow) with
    | none => exact did_missing (by simp [reviewed, hstate]) rfl
    | some state =>
      dsimp only
      have ha : scheduled request state (assessReview unicode request word.definition) now =
          attempt unicode request state word now := rfl
      obtain ⟨r, view, hsolo, hr, hfails, hdone⟩ := @solo_applyReviewTx db u w request now e
        (assessReview unicode request word.definition) state word _ hword ha
      rw [solo_bind, hsolo, Option.bind_some]
      have herror : (r.mapError TrustedReviewError.refused).toBool = r.toBool := by
        cases r <;> rfl
      rw [solo_pure, Option.map_some]
      dsimp only
      rw [herror]
      cases hfits : (attempt unicode request state word now).fits with
      | false =>
        rw [hfits, Bool.false_and] at hr
        refine did_missing (by simp [reviewed, hstate, hword, hfits]) ?_
        rw [hr, hfails hr]
      | true =>
        rw [hfits, Bool.true_and] at hr
        refine did_recorded hstate hword rfl hfits (fun hok => ?_) (fun hok => ?_)
        · rw [hr, hok, hfails (hr.trans hok)]
        · exact ⟨view, by rw [hr, hok], hdone (hr.trans hok)⟩
  · obtain ⟨text, htext⟩ := hlong (Nat.lt_of_not_le hlen)
    rw [htext]
    refine did_missing ?_ rfl
    unfold reviewed
    rw [hword]
    cases (db.lookup (.userWord u w) : Option UserWordRow) with
    | none => rfl
    | some state =>
      dsimp only
      rw [if_neg]
      simp only [Bool.and_eq_true, not_and]
      exact fun _ hstorable => hlen (storable_submitted hsubmitted hstorable)

section Lessons
variable {call : ReviewCall} {lesson : LessonRow} {item : ItemRow}

/-- The event of a review says which lesson it was part of. -/
def lessonEvent (lesson : LessonRow) (item : ItemRow) (event : EventRow) : EventRow :=
  { event with
    sessionKind := lesson.sessionKind
    selectionReason := item.selectionReason }

/-- A review as the item that a lesson has come to. -/
theorem reviewLessonWord_did (current : CurrentItem db call lesson item) :
    Did db call.userId call.wordId e
      (reviewed unicode db call.userId call.wordId call.request.toReviewRequest now e)
      (lessonEvent lesson item) (outcome (reviewLessonWord unicode call) db now e) := by
  have hlesson : (db.lookup (.lesson call.lessonId) : Option LessonRow).filter
      (LessonRow.activeOf call.userId) = some lesson := by
    rw [current.foundLesson]
    simp [current.active]
  have hitem : (db.lookup (.item call.lessonId call.wordId) : Option ItemRow).filter
      (fun _ => true) = some item := by
    rw [current.foundItem]
    rfl
  rw [outcome_eq, reviewLessonWord, solo_bind, lockLesson, solo_selectFor, Option.bind_some]
  dsimp only
  rw [hlesson]
  dsimp only
  rw [if_neg (not_not.2 current.version), if_neg (not_not.2 current.mode), solo_bind, lockItem,
    solo_selectFor, Option.bind_some]
  dsimp only
  rw [hitem]
  dsimp only
  rw [if_neg (by simp [current.unreviewed]), if_neg (not_not.2 current.position), solo_bind,
    solo_lockUserWord, Option.bind_some]
  dsimp only
  cases hstate : (db.lookup (.userWord call.userId call.wordId) : Option UserWordRow) with
  | none => exact did_missing (by simp [reviewed, hstate]) rfl
  | some state =>
    dsimp only
    rw [solo_bind, solo_wordRow, Option.bind_some]
    dsimp only
    cases hword : (db.lookup (.word call.wordId) : Option WordRow) with
    | none => exact did_missing (by simp [reviewed, hstate, hword]) rfl
    | some word =>
      dsimp only
      rw [solo_bind, solo_choose rfl, Option.bind_some]
      dsimp only
      generalize ha : attempt unicode call.request.toReviewRequest state word now = a
      cases hfits : a.fits with
      | false => exact did_missing (by simp [reviewed, hstate, hword, ha, hfits]) rfl
      | true =>
        rw [Bool.not_true, if_neg (by simp), solo_bind, solo_writeRow (.inl rfl),
          Option.bind_some, solo_bind]
        obtain ⟨⟨committed, view, choices⟩, hcommitted, hchoices, hsolo, hview⟩ :=
          @solo_record call.userId call.wordId e ⟨db, db, [e]⟩ []
            (a.event call.userId call.wordId call.request.toReviewRequest now
              lesson.sessionKind item.selectionReason) rfl (a.row now)
            (by exact Option.isSome_iff_exists.2 ⟨word, hword⟩)
        have hcommitted : committed = db := hcommitted
        rw [hsolo, Option.bind_some]
        refine did_recorded hstate hword ha hfits (fun hok => ?_) (fun hok => ?_)
        · have hok' : ((rowsWhere (events fun e' _ => e ≤ e') db).isEmpty &&
            (a.event call.userId call.wordId call.request.toReviewRequest now
              lesson.sessionKind item.selectionReason).storable) = false := hok
          rw [hok', hcommitted]
          rfl
        · have hok' : ((rowsWhere (events fun e' _ => e ≤ e') db).isEmpty &&
            (a.event call.userId call.wordId call.request.toReviewRequest now
              lesson.sessionKind item.selectionReason).storable) = true := hok
          rw [hok', if_pos rfl]
          dsimp only
          rw [solo_bind, solo_writeRow (.inl rfl), Option.bind_some, solo_bind, solo_select,
            Option.bind_some]
          generalize lessonProgress call.lessonId _ = progress
          dsimp only
          have hview' : view = _ := hview hok'
          have hrecorded : Recorded db call.userId call.wordId e (a.row now)
              (lessonEvent lesson item (a.event call.userId call.wordId
                call.request.toReviewRequest now none none)) view := by
            rw [hview']
            exact recorded_set _ _ _
          have hsame : (view.lookup (.lesson call.lessonId) : Option LessonRow) = some lesson := by
            rw [hview', lookup_set_ne (by simp), lookup_set_ne (by simp), current.foundLesson]
          have hfilter : ((set (Key.item call.lessonId call.wordId)
              (some (item.rate call.request.rating now)) view).lookup (.lesson call.lessonId) :
                Option LessonRow).filter (fun r => r.userId = call.userId &&
                  r.version = call.request.lessonVersion) = some lesson := by
            have howner : lesson.userId = call.userId := by
              have := current.active
              simp only [LessonRow.activeOf, Bool.and_eq_true, decide_eq_true_eq] at this
              exact this.1
            rw [lookup_set_ne (by simp), hsame]
            simp [howner, current.version]
          rw [solo_bind, updateLesson, solo_updateRow (.inl rfl)]
          simp only [Solo.put]
          rw [hfilter, Option.bind_some]
          dsimp only
          have hrated := hrecorded.put (k := .item call.lessonId call.wordId) (by simp) (by simp)
            (some (item.rate call.request.rating now))
          refine ⟨_, ?_, hrated.put (k := .lesson call.lessonId) (by simp) (by simp)
            (some (lesson.advance progress.index progress.completed now))⟩
          by_cases hdone : progress.completed = true
          · rw [if_pos hdone]
            rfl
          · rw [if_neg hdone]
            rfl

end Lessons

/-- The review of `w` on its own has the same effect as inside another transaction, as
the current item of a lesson, and, where there is an answer that was not revealed,
with the judge's assessment handed in. -/
structure PathsAgree (unicode : Unicode) (db : LearningDb) (u : UserId) (w : WordId)
    (request : ReviewRequest) (now e : Nat) : Prop where
  transaction : Agree db u w (outcome (reviewWord unicode u w request) db now e)
    (outcome (reviewWordTx unicode u w request) db now e)
  lesson : ∀ call lesson item, call.userId = u → call.wordId = w →
    call.request.toReviewRequest = request → CurrentItem db call lesson item →
      Agree db u w (outcome (reviewWord unicode u w request) db now e)
        (outcome (reviewLessonWord unicode call) db now e)
  trusted : ∀ word submitted, db.lookup (.word w) = some word →
    request.answerMode.objective = true → request.submittedAnswer = some submitted →
      request.answerRevealed ≠ some true →
        Agree db u w (outcome (reviewWord unicode u w request) db now e)
          (outcome (reviewWordTxWithAssessment u w request
            (assessReview unicode request word.definition)) db now e)

theorem review_paths_agree (unicode : Unicode) (db : LearningDb) (u : UserId) (w : WordId)
    (request : ReviewRequest) (now e : Nat) : PathsAgree unicode db u w request now e := by
  refine ⟨reviewWord_did.agree reviewWordTx_did fun _ => rfl, ?_, ?_⟩
  · rintro call lesson item rfl rfl rfl current
    exact reviewWord_did.agree (reviewLessonWord_did current) fun _ => rfl
  · intro word submitted hword hmode hsubmitted hrevealed
    exact reviewWord_did.agree
      (reviewWordTxWithAssessment_did hword hmode hsubmitted hrevealed) fun _ => rfl

end ReviewPaths
