import LexiGo.CountedRows
import LexiGo.Learning.LearningProgress

/-! The counters of the summary add up: every event is counted in one mode, every recall of
the week on one of its days, and no success without its attempt. -/
namespace ProgressConservation
open AnswerJudgement Scheduler ProgressTables ProgressStreaks LearningProgress CountedRows OrderedPages
open LearningSchema (UserId)

def allModes (modes : ProgressModes) : List ModeProgress :=
  [modes.study, modes.recalled, modes.choice, modes.listening, modes.legacy]

/-- The successes that a summary tells, each beside the attempts it is one of. -/
def successes (s : ProgressSummary) : List (Nat × Nat) :=
  ((allModes s.modes).flatMap fun mode => [(mode.successfulToday, mode.attemptsToday),
    (mode.successfulTotal, mode.attemptsTotal)]) ++
  [(s.objectiveSuccessfulToday, s.objectiveReviewsToday), (s.successfulToday, s.reviewsToday),
    (s.weekly.recallSuccessful, s.weekly.recallAttempts),
    (s.weekly.previousRecallSuccessful, s.weekly.previousRecallAttempts),
    (s.weekly.choiceSuccessful, s.weekly.choiceAttempts),
    (s.processes.retention.successful, s.processes.retention.attempts)] ++
  s.weekly.trend.map (fun day => (day.successful, day.attempts)) ++
  (s.weekly.weakTopics ++ s.weekly.strongTopic.toList).map (fun topic =>
    (topic.successful, topic.attempts)) ++
  (s.weekly.weakPartsOfSpeech.getD []).map fun part => (part.successful, part.attempts)

structure Conserved (s : ProgressSummary) : Prop where
  reviewsToday : s.reviewsToday = s.modes.study.attemptsToday + s.modes.recalled.attemptsToday +
    s.modes.choice.attemptsToday + s.modes.listening.attemptsToday + s.modes.legacy.attemptsToday
  reviewsTotal : s.reviewsTotal = s.modes.study.attemptsTotal + s.modes.recalled.attemptsTotal +
    s.modes.choice.attemptsTotal + s.modes.listening.attemptsTotal + s.modes.legacy.attemptsTotal
  objectiveReviewsToday : s.objectiveReviewsToday = s.modes.recalled.attemptsToday +
    s.modes.choice.attemptsToday + s.modes.listening.attemptsToday
  objectiveSuccessfulToday : s.objectiveSuccessfulToday = s.modes.recalled.successfulToday +
    s.modes.choice.successfulToday + s.modes.listening.successfulToday
  successes : ∀ pair ∈ successes s, pair.1 ≤ pair.2
  trendDays : s.weekly.trend.length = 7
  trendAttempts : (s.weekly.trend.map (·.attempts)).sum = s.weekly.recallAttempts
  trendSuccessful : (s.weekly.trend.map (·.successful)).sum = s.weekly.recallSuccessful

section Modes
variable (p : ReviewEvent → Bool)

theorem splits_modes (e : ReviewEvent) :
    Splits p [fun e => p e && e.inMode .study, fun e => p e && e.inMode .recall,
      fun e => p e && e.inMode .choice, fun e => p e && e.inMode .listening,
      fun e => p e && e.isLegacy] e := by
  unfold Splits
  rcases e.mode_cases with ⟨hlegacy, hmodes⟩ | ⟨hlegacy, mode, -, hmodes⟩
  · cases hp : p e <;> simp [hlegacy, hmodes, hp]
  · cases mode <;> cases hp : p e <;> simp [hlegacy, hmodes, hp]

theorem inModes_objective (e : ReviewEvent) :
    inModes [.recall, .choice] e = (e.inMode .recall || e.inMode .choice) := by
  unfold inModes ReviewEvent.inMode
  cases e.answerMode <;> simp [Bool.and_or_distrib_left]

theorem splits_objective (e : ReviewEvent) :
    Splits (fun e => p e && inModes [.recall, .choice] e)
      [fun e => p e && e.inMode .recall, fun e => p e && e.inMode .choice] e := by
  have hobjective := inModes_objective e
  unfold Splits
  rcases e.mode_cases with ⟨-, hmodes⟩ | ⟨-, mode, -, hmodes⟩
  · cases hp : p e <;> simp [hobjective, hmodes, hp]
  · cases mode <;> cases hp : p e <;> simp [hobjective, hmodes, hp]

variable (events : List ReviewEvent)

theorem sum_modes : events.countP p =
    (events.countP fun e => p e && e.inMode .study) +
      (events.countP fun e => p e && e.inMode .recall) +
      (events.countP fun e => p e && e.inMode .choice) +
      (events.countP fun e => p e && e.inMode .listening) +
      events.countP fun e => p e && e.isLegacy := by
  have hsum := sum_countP fun e (_ : e ∈ events) => splits_modes p e
  simp only [List.map_cons, List.map_nil, List.sum_cons, List.sum_nil] at hsum
  omega

theorem sum_objective : (events.countP fun e => p e && inModes [.recall, .choice] e) =
    (events.countP fun e => p e && e.inMode .recall) +
      events.countP fun e => p e && e.inMode .choice := by
  have hsum := sum_countP fun e (_ : e ∈ events) => splits_objective p e
  simp only [List.map_cons, List.map_nil, List.sum_cons, List.sum_nil] at hsum
  omega

end Modes

section Week

/-- The day on which an event of a week was reviewed. -/
def dayWindow (startUTC : Instant) (dayIndex : Nat) : ReviewEvent → Bool :=
  reviewedIn (addDays startUTC dayIndex) (addDays startUTC (dayIndex + 1))

theorem splits_days (p : ReviewEvent → Bool) (startUTC : Instant) (e : ReviewEvent) :
    Splits (fun e => reviewedIn startUTC (addDays startUTC 7) e && p e)
      ((List.range 7).map fun dayIndex e => dayWindow startUTC dayIndex e && p e) e :=
  splits_intervals (fun e : ReviewEvent => e.reviewedAt) p startUTC (by decide) 7 e

theorem sum_days (events : List ReviewEvent) (p : ReviewEvent → Bool) (startUTC : Instant) :
    ((List.range 7).map fun dayIndex =>
      events.countP fun e => dayWindow startUTC dayIndex e && p e).sum =
      events.countP fun e => reviewedIn startUTC (addDays startUTC 7) e && p e := by
  rw [← sum_countP fun e _ => splits_days p startUTC e, List.map_map]
  rfl

/-- The week lies in what its query looks at. -/
theorem countP_recent (events : List ReviewEvent) (p : ReviewEvent → Bool) (startUTC : Instant) :
    ((events.filter (reviewedIn (addDays startUTC (-7)) (addDays startUTC 7))).countP
      fun e => reviewedIn startUTC (addDays startUTC 7) e && p e) =
      events.countP fun e => reviewedIn startUTC (addDays startUTC 7) e && p e := by
  rw [List.countP_filter]
  refine List.countP_congr fun e _ => ?_
  have hbefore : ∀ t : Int, t + -7 * 86400000000000 ≤ t := by omega
  simp only [reviewedIn, Bool.and_eq_true, decide_eq_true_eq]
  constructor
  · exact And.left
  · intro h
    exact ⟨h, (hbefore startUTC).trans h.1.1, h.1.2⟩

theorem trend_attempts (events : List ReviewEvent) (offset : Int) (startUTC : Instant) :
    ((recallTrend events offset startUTC).map (·.attempts)).sum =
      events.countP fun e => reviewedIn startUTC (addDays startUTC 7) e && e.inMode .recall := by
  rw [recallTrend, List.map_map]
  exact sum_days events (·.inMode .recall) startUTC

theorem trend_successful (events : List ReviewEvent) (offset : Int) (startUTC : Instant) :
    ((recallTrend events offset startUTC).map (·.successful)).sum =
      events.countP fun e =>
        reviewedIn startUTC (addDays startUTC 7) e && e.inMode .recall && e.wasCorrect := by
  have hsum := sum_days events (fun e => e.inMode .recall && e.wasCorrect) startUTC
  simp only [← Bool.and_assoc] at hsum
  rw [recallTrend, List.map_map]
  exact hsum

/-- The week of the server begins when the week of the database does. -/
theorem weekStart_eq (now : Instant) (offset : Int) :
    retentionWeekStart now offset = (weekOf now offset).startUTC := by
  have hday : dayOf (micros now - minutes offset) = dayOf (localNow now offset) := by
    unfold dayOf micros localNow minutes minute dayLength
    omega
  have hmidnight : dayOf (dateOnly (localNow now offset)) = dayOf (localNow now offset) :=
    Int.mul_ediv_cancel _ (by decide)
  unfold retentionWeekStart truncateWeek
  rw [hday]
  dsimp only [weekOf]
  unfold startOfWeek weekday
  rw [hmidnight]
  unfold dateOnly
  rw [addDays_midnight]
  generalize dayOf (localNow now offset) = d
  have hback : (d + 3) % 7 = ((d + 4) % 7 + 6) % 7 := by omega
  rw [hback, Int.sub_eq_add_neg]

end Week

section Successes

theorem percentage_le {successful attempts : Nat} (h : successful ≤ attempts) :
    percentage successful attempts ≤ 100 := by
  unfold percentage
  split
  · exact Nat.zero_le _
  · next hsome =>
    refine Nat.lt_succ_iff.1 ((Nat.div_lt_iff_lt_mul (by omega)).2 ?_)
    omega

theorem modeProgress_le (today attempt success : ReviewEvent → Bool) (events : List ReviewEvent) :
    (modeProgress today attempt success events).successfulToday ≤
        (modeProgress today attempt success events).attemptsToday ∧
      (modeProgress today attempt success events).successfulTotal ≤
        (modeProgress today attempt success events).attemptsTotal := by
  constructor
  · exact List.countP_mono_left fun e _ h => (Bool.and_eq_true_iff.1 h).1
  · exact List.countP_mono_left fun e _ h => (Bool.and_eq_true_iff.1 h).1

theorem successful_le (today : ReviewEvent → Bool) (events : List ReviewEvent) :
    (events.countP fun e => today e &&
        (inModes [.recall, .choice] e && e.wasCorrect || e.isLegacy && 4 ≤ e.grade)) +
      (events.countP fun e => today e && e.inMode .listening && e.wasCorrect) ≤
      events.countP today := by
  refine countP_add_le fun e _ => ?_
  have hobjective := inModes_objective e
  rcases e.mode_cases with ⟨hlegacy, hmodes⟩ | ⟨hlegacy, mode, -, hmodes⟩
  · cases today e <;> simp [hobjective, hlegacy, hmodes, Bool.toNat_le]
  · cases mode <;> cases today e <;> simp [hobjective, hlegacy, hmodes, Bool.toNat_le]

variable {κ : Type} [DecidableEq κ] {collation : κ → κ → Bool} {rows : List (κ × ReviewEvent)}
  {evidence : Evidence κ}

/-- What a group says about itself. -/
structure Sound (evidence : Evidence κ) : Prop where
  total : evidence.attempts = evidence.successful + evidence.errors
  rate : evidence.rate = percentage evidence.successful evidence.attempts

omit [DecidableEq κ] in
theorem sound_evidenceOf (name : κ) (events : List ReviewEvent) : Sound (evidenceOf name events) := by
  refine ⟨?_, rfl⟩
  have hsplit := @List.length_eq_countP_add_countP _ (·.wasCorrect) events
  simp only [Bool.not_eq_true, Bool.decide_eq_false] at hsplit
  exact hsplit

theorem sound_groups (h : evidence ∈ groups rows) : Sound evidence := by
  obtain ⟨name, -, rfl⟩ := List.mem_map.1 h
  exact sound_evidenceOf _ _

theorem sound_weak (h : evidence ∈ weakEvidence collation rows) : Sound evidence := by
  have hordered := (orderBy_perm _ _).subset (List.mem_of_mem_take h)
  exact sound_groups (List.mem_filter.1 hordered).1

theorem sound_strong (h : evidence ∈ strongEvidence collation rows) : Sound evidence := by
  have hordered := (orderBy_perm _ _).subset (List.mem_of_head? h)
  exact sound_groups (List.mem_filter.1 hordered).1

omit [DecidableEq κ] in
theorem Sound.le (h : Sound evidence) : evidence.successful ≤ evidence.attempts :=
  h.total ▸ Nat.le_add_right _ _

theorem weak_length : (weakEvidence collation rows).length ≤ 3 := List.length_take_le _ _

end Successes

section Summary
variable (lower : String → String) (collation : String → String → Bool)
variable (db : Snapshot) (now : Instant) (userId : UserId) (offset : Int)

theorem modes_le : ∀ mode ∈ allModes (progressResponse lower collation db now userId offset).modes,
    mode.successfulToday ≤ mode.attemptsToday ∧ mode.successfulTotal ≤ mode.attemptsTotal := by
  have hmode := fun attempt success => modeProgress_le (isToday now (clampOffset offset)) attempt
    success (userEvents db userId)
  exact List.forall_mem_cons.2 ⟨hmode _ _, List.forall_mem_cons.2 ⟨hmode _ _,
    List.forall_mem_cons.2 ⟨hmode _ _, List.forall_mem_cons.2 ⟨hmode _ _,
      List.forall_mem_singleton.2 (hmode _ _)⟩⟩⟩⟩

theorem successes_le :
    ∀ pair ∈ successes (progressResponse lower collation db now userId offset), pair.1 ≤ pair.2 := by
  have hfilter : ∀ (events : List ReviewEvent) (attempt : ReviewEvent → Bool),
      (events.countP fun e => attempt e && e.wasCorrect) ≤ events.countP attempt :=
    fun events attempt => List.countP_mono_left fun e _ h => (Bool.and_eq_true_iff.1 h).1
  unfold successes
  refine List.forall_mem_append.2 ⟨List.forall_mem_append.2 ⟨List.forall_mem_append.2
    ⟨List.forall_mem_append.2 ⟨?_, ?_⟩, ?_⟩, ?_⟩, ?_⟩
  · intro pair hpair
    obtain ⟨mode, hmode, hpair⟩ := List.mem_flatMap.1 hpair
    have hle := modes_le lower collation db now userId offset mode hmode
    rcases List.mem_cons.1 hpair with rfl | hpair
    · exact hle.1
    · rw [List.mem_singleton.1 hpair]
      exact hle.2
  · refine List.forall_mem_cons.2 ⟨?_, List.forall_mem_cons.2 ⟨?_, List.forall_mem_cons.2
      ⟨hfilter _ _, List.forall_mem_cons.2 ⟨hfilter _ _, List.forall_mem_cons.2
        ⟨hfilter _ _, List.forall_mem_singleton.2 (hfilter _ _)⟩⟩⟩⟩⟩
    · exact Nat.add_le_add (hfilter _ _) (hfilter _ _)
    · exact successful_le _ _
  · intro pair hpair
    obtain ⟨day, hday, rfl⟩ := List.mem_map.1 hpair
    obtain ⟨dayIndex, -, rfl⟩ := List.mem_map.1 hday
    exact hfilter _ _
  · intro pair hpair
    obtain ⟨topic, htopic, rfl⟩ := List.mem_map.1 hpair
    have hsound : Sound topic := by
      rcases List.mem_append.1 htopic with hweak | hstrong
      · exact sound_weak hweak
      · exact sound_strong (Option.mem_toList.1 hstrong)
    exact hsound.le
  · intro pair hpair
    obtain ⟨part, hpart, rfl⟩ := List.mem_map.1 hpair
    have hsound : Sound part := sound_weak hpart
    exact hsound.le

theorem conserved_response :
    Conserved (progressResponse lower collation db now userId offset) where
  reviewsToday := sum_modes (isToday now (clampOffset offset)) (userEvents db userId)
  reviewsTotal := by
    have hsum := sum_modes (fun _ => true) (userEvents db userId)
    simp only [List.countP_true, Bool.true_and] at hsum
    exact hsum
  objectiveReviewsToday := by
    have hsum := sum_objective (isToday now (clampOffset offset)) (userEvents db userId)
    exact congrArg (· + _) hsum
  objectiveSuccessfulToday := by
    have hsum := sum_objective (fun e => isToday now (clampOffset offset) e && e.wasCorrect)
      (userEvents db userId)
    simp only [Bool.and_right_comm] at hsum
    exact congrArg (· + _) hsum
  successes := successes_le lower collation db now userId offset
  trendDays := rfl
  trendAttempts := (trend_attempts _ _ _).trans (countP_recent _ (·.inMode .recall) _).symm
  trendSuccessful := by
    have hrecent := countP_recent (userEvents db userId) (fun e => e.inMode .recall && e.wasCorrect)
      (weekOf now (clampOffset offset)).startUTC
    simp only [← Bool.and_assoc] at hrecent
    exact (trend_successful _ _ _).trans hrecent.symm

end Summary

end ProgressConservation
