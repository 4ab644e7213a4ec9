import LexiGo.Onboarding.MarkedDiagnostic
import LexiGo.Scenarios.ScenarioRuns

/-! Runs of any number of requests about the onboarding, beside lessons and reviews: in
which order its items are marked, which marks count in the end, and what it makes of the
words. -/
namespace OnboardingRuns
open RowStore TransactionProgram Interleaving CommitContract RowStatements RunSoundness
open WiderSchema GoText Scheduler OnboardingSchema OnboardingRepository OnboardingService
open OnboardingMachine OnboardingRefinement DiagnosticRefinement MarkedDiagnostic Function
open LearningSchema (UserId WordId UserWordRow WordRow)

abbrev OnboardingConfig := Config Row Note Op Response

variable {unicode : Unicode} {digest : UserId → WordId → Nat}
variable {allow : Nat → List Note → OnboardingWorld → OnboardingWorld → Prop}
variable {i : Nat} {t : Tx Row} {w w' born : OnboardingWorld} {db : OnboardingDb}
variable {c c' : OnboardingConfig}

/-- What an answer says is so, of the database as the request found it and of the commits. -/
def Answered (op : Op) (born : OnboardingWorld) (i : Nat) : Response → OnboardingWorld → Prop
  | .ok (.snapshot snapshot), _ =>
    Snapped born snapshot ∧ (∀ u, op = .complete u → snapshot.state = .completed)
  | .ok (.marked result), w => ∃ u wordID text selfMark, op = .mark u wordID text ∧ 0 < wordID ∧
    selfMarkOf text = some selfMark ∧ (i, .marked u wordID.toNat selfMark) ∈ w.log ∧
    result.reveal.wordId = wordID.toNat ∧ 0 < result.marked ∧ result.marked ≤ result.total ∧
    result.total ≤ 12 ∧ (result.completeReady = true ↔ result.marked = result.total)
  | _, _ => True

theorem rely_log (h : OnboardingRely allow i t w w') {e : Nat × Note} (he : e ∈ w.log) :
    e ∈ w'.log := by
  have stable : Stable (onboardingContract allow) i t fun v => e ∈ v.log := by
    intro v v' ho hv
    obtain ⟨j, notes, -, hc⟩ := ho.author
    rw [hc.log]
    exact List.mem_append_right _ hv
  exact stable.rely h he

theorem Answered.rely {op : Op} {response : Response} (h : Answered op born i response w)
    (hr : OnboardingRely allow i t w w') : Answered op born i response w' := by
  match response with
  | .ok (.snapshot snapshot) => exact h
  | .ok (.marked result) =>
    obtain ⟨u, wordID, text, selfMark, hop, hpos, hmark, hlog, hrest⟩ := h
    exact ⟨u, wordID, text, selfMark, hop, hpos, hmark, rely_log hr hlog, hrest⟩
  | .ok (.learned _) | .ok (.deleted _) | .ok .done | .error _ => exact trivial

def Told (allow : Nat → List Note → OnboardingWorld → OnboardingWorld → Prop) (op : Op)
    (born : OnboardingWorld) (i : Nat) : Response → Tx Row → OnboardingWorld → Prop :=
  Answers (onboardingContract allow) (fun op born i a w => Answered op born i a w) op born i

theorem told_of {op : Op} {response : Response} (h : Answered op born i response w) :
    Told allow op born i response t w := fun _ hr _ => h.rely hr

section Programs
variable {u : UserId}

/-- What is asked of a response, said of the reply behind it. -/
def Rendered {α : Type} (explain : OnboardingError → ScenarioService.HttpError) (f : α → Answer)
    (Q : Response → Tx Row → OnboardingWorld → Prop) : Reply α → Tx Row → OnboardingWorld → Prop
  | .ok a, t, w => Q (.ok (f a)) t w
  | .error why, t, w => Q (.error (explain why)) t w

theorem wp_answered {α : Type} {explain : OnboardingError → ScenarioService.HttpError}
    {f : α → Answer} {p : OnboardingProg (Reply α)} {Q : Response → Tx Row → OnboardingWorld → Prop}
    (h : wp (onboardingContract allow) i (Rendered explain f Q) p t w) :
    wp (onboardingContract allow) i Q (answered explain f p) t w := by
  unfold answered
  rw [wp_bind]
  refine wp_mono ?_ h
  intro reply t w hreply
  cases reply <;> exact hreply

theorem snapshot_told {op : Op} {final : Prop} {explain : OnboardingError → ScenarioService.HttpError}
    {p : OnboardingProg (Reply OnboardingSnapshot)}
    (hp : wp (onboardingContract allow) i (Shows born final) p {} w)
    (hop : ∀ u, op = .complete u → final) :
    wp (onboardingContract allow) i (Told allow op born i) (answered explain .snapshot p) {} w := by
  refine wp_answered (wp_mono ?_ hp)
  rintro reply t w ⟨-, hshows⟩
  cases reply with
  | error why => exact told_of trivial
  | ok snapshot =>
    obtain ⟨hsnapped, hfinal⟩ := hshows snapshot rfl
    exact told_of ⟨hsnapped, fun u heq => hfinal (hop u heq)⟩

theorem marking_told (u : UserId) (wordID : Int) (text : String) :
    wp (onboardingContract allow) i (Told allow (.mark u wordID text) born i)
      (marking u wordID text) {} w := by
  unfold marking
  split
  · exact told_of trivial
  rename_i hpos
  cases hmark : selfMarkOf text with
  | none => exact told_of trivial
  | some selfMark =>
    refine wp_answered (wp_mono ?_ (markOnboardingItem_keeps u wordID.toNat selfMark))
    rintro reply t w ⟨-, hmarks⟩
    cases reply with
    | error why => exact told_of trivial
    | ok result =>
      exact told_of ⟨u, wordID, text, selfMark, rfl, Int.not_le.1 hpos, hmark, hmarks result rfl⟩

theorem setting_told (u : UserId) (goal : Int) :
    wp (onboardingContract allow) i (Told allow (.setDailyGoal u goal) born i)
      (settingDailyGoal u goal) {} w := by
  unfold settingDailyGoal
  split
  · exact told_of trivial
  · refine wp_answered (wp_mono ?_ (setDailyGoal_keeps u goal.toNat i w))
    intro reply t w _
    cases reply <;> exact told_of trivial

theorem deleting_told {op : Op} (kind : AnswerJudgement.WordKind)
    (missing : LessonRepository.LessonError) (u : UserId) (x : WordId) :
    wp (onboardingContract allow) i (Told allow op born i)
      (do return .ok (.deleted (← deleteCustom kind missing u x))) {} w := by
  rw [wp_bind]
  exact wp_mono (fun _ _ _ _ => told_of trivial) (deleteCustom_keeps kind missing u x i w)

theorem onboarding_sound : RunSoundness.Sound (onboardingContract allow) (program unicode digest)
    (fun op born i response w => Answered op born i response w) := by
  intro op i w hw
  have since : Since w w := fun _ hx => hx
  cases op with
  | status u => exact snapshot_told (wp_onboardingStatus since) (by rintro _ ⟨⟩)
  | start u => exact snapshot_told (startOnboarding_keeps unicode digest u since) (by rintro _ ⟨⟩)
  | mark u wordID text => exact marking_told u wordID text
  | complete u => exact snapshot_told (completeOnboarding_keeps u since) fun _ _ => trivial
  | skip u => exact snapshot_told (skipOnboarding_keeps u w since) (by rintro _ ⟨⟩)
  | setDailyGoal u goal => exact setting_told u goal
  | learn op =>
    unfold program
    dsimp only
    rw [wp_bind]
    exact wp_mono (fun _ _ _ _ => told_of trivial) (learn_keeps unicode op)
  | deleteCustomWord u x | deleteCustomPhrase u x => exact deleting_told _ _ u x

end Programs

/-- Nobody has asked for anything yet. -/
def start (db : OnboardingDb) : OnboardingConfig := ⟨⟨db, []⟩, []⟩

abbrev OnboardingSafe (allow : Nat → List Note → OnboardingWorld → OnboardingWorld → Prop)
    (c : OnboardingConfig) : Prop :=
  Safe (onboardingContract allow) (fun op born i response w => Answered op born i response w) c

abbrev OnboardingHistory (allow : Nat → List Note → OnboardingWorld → OnboardingWorld → Prop) :=
  History (onboardingContract allow)

theorem run_history (hdb : OnboardingMachine.Sound (view db))
    (h : Run (program unicode digest) allow (start db) c) :
    OnboardingSafe allow c ∧ OnboardingHistory allow (start db).world c.world :=
  run_sound onboarding_sound h (safe_init hdb)

theorem run_later (safe : OnboardingSafe allow c) (h : Run (program unicode digest) allow c c') :
    OnboardingSafe allow c' ∧ OnboardingHistory allow c.world c'.world :=
  run_sound onboarding_sound h safe

/-- What every move keeps holds from one configuration of a run to the next. -/
theorem later_keeps {P : Onboarding → Prop} (safe : OnboardingSafe allow c)
    (h : Run (program unicode digest) allow c c')
    (keeps : ∀ notes m m', Moves notes m m' → P m → P m') (hc : P (view c.world.db)) :
    P (view c'.world.db) := by
  refine @history_keeps _ _ _ (onboardingContract allow) _ _ (fun w => P (view w.db))
    (run_later safe h).2 ?_ hc
  rintro v v' ⟨i, notes, hcommit⟩ hv
  exact keeps notes _ _ hcommit.step hv

section OneWord

/-- One word, which user 1 has begun to learn. -/
def oneWord : OnboardingDb :=
  (((∅ : OnboardingDb).insert (wordKey 5)
    ({ source := "", topic := "home", translation := "кот" } : WordRow)).insert (.inr (.facets 5))
    (⟨"cat", "", "noun"⟩ : WordFacets)).insert (userWordKey 1 5)
    (⟨⟨.new, 250, 0, 0, 0⟩, none⟩ : UserWordRow)

theorem oneWord_none (u : UserId) (p : Nat) : (view oneWord).item u p = none := rfl

def oneWordProgram : Op → OnboardingProg Response := program ascii fun _ w => w

def oneWordMarking : List (Action Op) :=
  .start (.start 1) :: steps 0 (List.replicate 22 7) ++
  .start (.mark 1 5 "known") :: steps 1 (List.replicate 14 7)

/-- Up to the moment before the commit. -/
def oneWordCompleting : List (Action Op) :=
  oneWordMarking ++ .start (.complete 1) :: steps 2 (List.replicate 16 7)

abbrev OneWordRun : OnboardingConfig → Prop :=
  Run oneWordProgram (fun _ _ _ _ => True) (start oneWord)

theorem oneWord_marks : ∃ (c : OnboardingConfig) (p : Proc Row Note Op Response), OneWordRun c ∧
    c.procs[1]? = some p ∧ c.answer 1 = some (.ok (.marked ⟨1, 1, true, ⟨5, "кот"⟩⟩)) := by
  have shown : (exec oneWordProgram (fun _ _ _ _ => True) (start oneWord) oneWordMarking).any
      (fun c => (c.procs[1]?).isSome &&
        c.answer 1 = some (.ok (.marked ⟨1, 1, true, ⟨5, "кот"⟩⟩))) = true := by
    decide +kernel
  simp only [Option.any_eq_true, Bool.and_eq_true, decide_eq_true_eq, Option.isSome_iff_exists]
    at shown
  obtain ⟨c, hc, ⟨p, hp⟩, ha⟩ := shown
  exact ⟨c, p, .of_exec _ hc, hp, ha⟩

end OneWord

section Marks
variable {u : UserId} {x : WordId} {m m' : Onboarding} {n : Note} {log : List (Nat × Note)}

/-- The mark that the user has given a word last, unless the diagnostic has begun anew since
or the word is gone. -/
def latestMark (u : UserId) (x : WordId) : List (Nat × Note) → Option DiagnosticSelfMark
  | [] => none
  | (_, .marked u' x' selfMark) :: rest =>
    if u' = u ∧ x' = x then some selfMark else latestMark u x rest
  | (_, .started u' _) :: rest => if u' = u then none else latestMark u x rest
  | (_, .wordDeleted _ x') :: rest => if x' = x then none else latestMark u x rest
  | (_, .startKept _) :: rest | (_, .completed _) :: rest | (_, .completeKept _) :: rest
  | (_, .skipped _) :: rest | (_, .skipKept _) :: rest | (_, .goalSet _ _) :: rest
  | (_, .learned _) :: rest => latestMark u x rest

/-- The marks of the items are those that the log tells of. -/
structure Recorded (log : List (Nat × Note)) (m : Onboarding) : Prop where
  items : ∀ u p s, m.item u p = some s →
    s.marking.map Marking.selfMark = latestMark u s.wordId log
  marks : ∀ u x selfMark, latestMark u x log = some selfMark →
    ∃ p s, m.item u p = some s ∧ s.wordId = x

theorem latestMark_learned (told : List LearningSchema.Note) :
    latestMark u x ((told.map Note.learned).map (fun n => (i, n)) ++ log) = latestMark u x log := by
  induction told with
  | nil => rfl
  | cons note told ih => exact ih

theorem Recorded.of_eq {log' : List (Nat × Note)} (h : Recorded log m) (hitem : m'.item = m.item)
    (hlog : ∀ u x, latestMark u x log' = latestMark u x log) : Recorded log' m' := by
  refine ⟨fun u p s hs => ?_, fun u x selfMark hmark => ?_⟩
  · rw [hlog]
    rw [hitem] at hs
    exact h.items u p s hs
  · rw [hlog] at hmark
    rw [hitem]
    exact h.marks u x selfMark hmark

theorem Recorded.started {words : List WordId} {row : PreferenceRow} (h : Recorded log m) :
    Recorded ((i, .started u words) :: log) ((m.putPreferences u row).putItems u words) := by
  refine ⟨fun u' p s hs => ?_, fun u' x selfMark hmark => ?_⟩
  · rcases putItems_item.1 hs with ⟨rfl, w, -, rfl⟩ | ⟨hne, hs⟩
    · rw [latestMark, if_pos rfl]
      rfl
    · rw [latestMark, if_neg hne.symm]
      exact h.items u' p s hs
  · rw [latestMark] at hmark
    by_cases hu : u = u'
    · rw [if_pos hu] at hmark
      cases hmark
    · rw [if_neg hu] at hmark
      obtain ⟨p, s, hs, hx⟩ := h.marks u' x selfMark hmark
      exact ⟨p, s, putItems_item.2 (.inr ⟨Ne.symm hu, hs⟩), hx⟩

theorem Recorded.marked {position : Nat} {r : DiagnosticRow} {selfMark : DiagnosticSelfMark}
    {now : Instant} (h : Recorded log m) (hm : OnboardingMachine.Sound m)
    (hr : m.item u position = some r) :
    Recorded ((i, .marked u r.wordId selfMark) :: log) (m.putItem u position (r.mark selfMark now)) := by
  refine ⟨fun u' p s hs => ?_, fun u' x selfMark' hmark => ?_⟩
  · rcases putItem_item.1 hs with ⟨rfl, rfl, rfl⟩ | ⟨hne, hs⟩
    · rw [latestMark, if_pos ⟨rfl, rfl⟩]
      rfl
    · rw [latestMark, if_neg]
      · exact h.items u' p s hs
      · rintro ⟨rfl, hword⟩
        exact hne ⟨rfl, hm.distinct u p position s r hs hr hword.symm⟩
  · rw [latestMark] at hmark
    by_cases hux : u = u' ∧ r.wordId = x
    · obtain ⟨rfl, rfl⟩ := hux
      exact ⟨position, _, putItem_item.2 (.inl ⟨rfl, rfl, rfl⟩), rfl⟩
    · rw [if_neg hux] at hmark
      obtain ⟨p, s, hs, hx⟩ := h.marks u' x selfMark' hmark
      by_cases hp : u' = u ∧ p = position
      · obtain ⟨rfl, rfl⟩ := hp
        cases hs.symm.trans hr
        exact absurd ⟨rfl, hx⟩ hux
      · exact ⟨p, s, putItem_item.2 (.inr ⟨hp, hs⟩), hx⟩

theorem Recorded.wordDeleted {w : WordId} {rows : UserId → WordId → Option UserWordRow}
    (h : Recorded log m) :
    Recorded ((i, .wordDeleted u w) :: log) { m.withoutWord w with userWord := rows } := by
  refine ⟨fun u' p s hs => ?_, fun u' x selfMark hmark => ?_⟩
  · obtain ⟨hs, hne⟩ := withoutWord_item.1 hs
    rw [latestMark, if_neg (Ne.symm hne)]
    exact h.items u' p s hs
  · rw [latestMark] at hmark
    by_cases hx : w = x
    · rw [if_pos hx] at hmark
      cases hmark
    · rw [if_neg hx] at hmark
      obtain ⟨p, s, hs, hsx⟩ := h.marks u' x selfMark hmark
      exact ⟨p, s, withoutWord_item.2 ⟨hs, fun heq => hx (heq.symm.trans hsx)⟩, hsx⟩

theorem Recorded.step (h : Recorded log m) (hm : OnboardingMachine.Sound m) (step : Step n m m') :
    Recorded ((i, n) :: log) m' := by
  cases step with
  | started => exact h.started
  | marked _ hr => exact h.marked hm hr
  | wordDeleted => exact h.wordDeleted
  | startKept | completed | completeKept | skipped | skipKept | goalSet =>
    exact h.of_eq rfl fun _ _ => rfl

theorem recorded_commits {v v' : OnboardingWorld} (h : Commits (onboardingContract allow) v v')
    (hv : Recorded v.log (view v.db)) : Recorded v'.log (view v'.db) := by
  obtain ⟨i, notes, hcommit⟩ := h
  rw [hcommit.log]
  obtain hmoves := hcommit.step
  cases hmoves with
  | learned told h => exact hv.of_eq h.item fun u x => latestMark_learned told
  | stepped h => exact hv.step hcommit.before h

theorem run_recorded (hdb : OnboardingMachine.Sound (view db))
    (hnone : ∀ u p, (view db).item u p = none)
    (h : Run (program unicode digest) allow (start db) c) :
    Recorded c.world.log (view c.world.db) := by
  have hstart : Recorded (start db).world.log (view (start db).world.db) := by
    refine ⟨fun u p s hs => ?_, fun u x selfMark hmark => ?_⟩
    · cases (hnone u p).symm.trans hs
    · cases hmark
  exact @history_keeps _ _ _ (onboardingContract allow) _ _
    (fun w => Recorded w.log (view w.db)) (run_history hdb h).2 (fun _ _ => recorded_commits) hstart

/-- No mark is lost: whenever a mark has been answered it has been committed, and the marks
of the items are the last ones that were. -/
theorem marks_recorded (hdb : OnboardingMachine.Sound (view db))
    (hnone : ∀ u p, (view db).item u p = none)
    (h : Run (program unicode digest) allow (start db) c) :
    Recorded c.world.log (view c.world.db) ∧
    ∀ (i : Nat) p result, c.procs[i]? = some p → c.answer i = some (.ok (.marked result)) →
      ∃ u wordID text selfMark, p.op = .mark u wordID text ∧ selfMarkOf text = some selfMark ∧
        (i, .marked u wordID.toNat selfMark) ∈ c.world.log := by
  refine ⟨run_recorded hdb hnone h, fun i p result hp hanswer => ?_⟩
  obtain ⟨u, wordID, text, selfMark, hop, -, hmark, hlog, -⟩ :=
    (run_history hdb h).1.answer hp hanswer
  exact ⟨u, wordID, text, selfMark, hop, hmark, hlog⟩

theorem oneWord_mark_recorded : ∃ (c : OnboardingConfig) (p : Proc Row Note Op Response),
    Recorded c.world.log (view c.world.db) ∧
    ∃ u wordID text selfMark, p.op = .mark u wordID text ∧ selfMarkOf text = some selfMark ∧
      (1, .marked u wordID.toNat selfMark) ∈ c.world.log := by
  obtain ⟨c, p, hrun, hp, ha⟩ := oneWord_marks
  obtain ⟨recorded, hmarks⟩ := marks_recorded (sound_of_none oneWord_none) oneWord_none hrun
  exact ⟨c, p, recorded, hmarks 1 p _ hp ha⟩

end Marks

section Completion
variable {u : UserId} {m : Onboarding} {marks : List (WordId × DiagnosticSelfMark)} {now : Instant}
variable {log : List (Nat × Note)}

/-- The words of a user that are still new are where these marks put them. -/
def placed (m : Onboarding) (u : UserId) (markOf : WordId → Option DiagnosticSelfMark)
    (now : Instant) : Onboarding :=
  { m with
    userWord := update m.userWord u fun x => (m.userWord u x).map fun r =>
      if r.status = .new then
        ((markOf x).bind diagnosticInitializationForMark).elim r fun policy => policy.apply now r
      else r }

theorem find_mark (marked : m.Marked u marks) (recorded : Recorded log m) (x : WordId) :
    (marks.find? fun mark => mark.1 = x).map Prod.snd = latestMark u x log := by
  cases hlatest : latestMark u x log with
  | none =>
    rw [Option.map_eq_none_iff, List.find?_eq_none]
    rintro ⟨x', selfMark⟩ hmark hx
    obtain rfl := of_decide_eq_true hx
    obtain ⟨p, s, marking, hs, rfl, hmarking, -⟩ := marked.back _ _ hmark
    have hrecorded := recorded.items u p s hs
    rw [hmarking, hlatest] at hrecorded
    cases hrecorded
  | some selfMark =>
    obtain ⟨p, s, hs, rfl⟩ := recorded.marks u x selfMark hlatest
    obtain ⟨marking, hmarking, hmem⟩ := marked.all p s hs
    have hrecorded := recorded.items u p s hs
    rw [hmarking, hlatest] at hrecorded
    obtain rfl := Option.some.inj hrecorded
    cases hfind : marks.find? fun mark => mark.1 = s.wordId with
    | none => exact absurd (decide_eq_true rfl) (List.find?_eq_none.1 hfind _ hmem)
    | some mark =>
      have hfst := List.find?_some hfind
      have hfst : mark.1 = s.wordId := of_decide_eq_true hfst
      have heq := List.inj_on_of_nodup_map marked.nodup (List.mem_of_find?_eq_some hfind) hmem hfst
      rw [heq]
      rfl

theorem initialized_placed (marked : m.Marked u marks) (recorded : Recorded log m) :
    m.initialized u marks now = placed m u (fun x => latestMark u x log) now := by
  unfold Onboarding.initialized placed
  rw [Onboarding.mk.injEq]
  refine ⟨rfl, rfl, congrArg _ (funext fun x => ?_), rfl⟩
  congr 1
  funext r
  unfold initialRow
  dsimp only
  rw [← find_mark marked recorded x]
  cases marks.find? fun mark => mark.1 = x <;> rfl

theorem completed_logged (hdb : OnboardingMachine.Sound (view db))
    (h : Run (program unicode digest) allow (start db) c) {j : Nat}
    (hlog : (j, .completed u) ∈ c.world.log) : (view c.world.db).state u = .completed := by
  have hstart : (j, Note.completed u) ∈ (start db).world.log →
      (view (start db).world.db).state u = .completed := fun hmem => absurd hmem List.not_mem_nil
  refine @history_keeps _ _ _ (onboardingContract allow) _ _ (fun w => (j, Note.completed u) ∈ w.log →
    (view w.db).state u = .completed) (run_history hdb h).2 ?_ hstart hlog
  rintro v v' ⟨i, notes, hcommit⟩ hv hmem
  rw [hcommit.log] at hmem
  have hmoves : Moves notes (view v.db) (view v'.db) := hcommit.step
  rcases List.mem_append.1 hmem with hmem | hmem
  · obtain ⟨n, hn, heq⟩ := List.mem_map.1 hmem
    cases heq
    obtain ⟨r, marks, now, -, -, -, hview⟩ := hmoves.completed_inv hn
    rw [hview, putPreferences_state, if_pos rfl]
    rfl
  · exact hmoves.completed_kept (hv hmem)

/-- The commit that completes a diagnostic is the only one that ever does for its user. It
comes when every item has its mark, puts each word of the user that is still new where the
last mark given to it says, and changes nothing else. -/
theorem completion_places (hdb : OnboardingMachine.Sound (view db))
    (hnone : ∀ u p, (view db).item u p = none)
    (h : Run (program unicode digest) allow (start db) c) {a : Action Op} {notes : List Note}
    (hs : Interleaving.step (program unicode digest) c a = some c')
    (hpublished : published c a = some (i, notes)) (hallow : allow i notes c.world c'.world)
    (hu : .completed u ∈ notes) :
    (∀ j, (j, .completed u) ∉ c.world.log) ∧
    (∀ p s, (view c.world.db).item u p = some s → isMarked s = true) ∧
    ∃ r now, (view c.world.db).preferences u = some r ∧
      view c'.world.db = (placed (view c.world.db) u (fun x => latestMark u x c.world.log)
        now).putPreferences u (r.complete now) := by
  obtain ⟨safe, -⟩ := run_history hdb h
  have hallowed : ∀ j notes', published c a = some (j, notes') → allow j notes' c.world c'.world := by
    intro j notes' hp
    cases hpublished.symm.trans hp
    exact hallow
  rcases safe.commits hs hallowed with ⟨hno, -⟩ | ⟨j, notes', hp, hcommit⟩
  · cases hno.symm.trans hpublished
  cases hpublished.symm.trans hp
  have hmoves : Moves notes (view c.world.db) (view c'.world.db) := hcommit.step
  obtain ⟨r, marks, now, hstate, hr, hmarked, hview⟩ := hmoves.completed_inv hu
  refine ⟨fun j hj => ?_, fun p s hs => ?_, r, now, hr, ?_⟩
  · cases hstate.symm.trans (completed_logged hdb h hj)
  · obtain ⟨marking, hmarking, -⟩ := hmarked.all p s hs
    rw [isMarked, hmarking]
    rfl
  · rw [hview, initialized_placed hmarked (run_recorded hdb hnone h)]

theorem oneWord_placed : ∃ (c c' : OnboardingConfig) (r : PreferenceRow) (now : Instant),
    (∀ j, (j, .completed 1) ∉ c.world.log) ∧
    view c'.world.db = (placed (view c.world.db) 1 (fun x => latestMark 1 x c.world.log)
      now).putPreferences 1 (r.complete now) := by
  have shown : (exec oneWordProgram (fun _ _ _ _ => True) (start oneWord) oneWordCompleting).any
      (fun c => (step oneWordProgram c (.advance 2 0)).isSome &&
        published c (.advance 2 0) = some (2, [.completed 1])) = true := by
    decide +kernel
  simp only [Option.any_eq_true, Bool.and_eq_true, decide_eq_true_eq, Option.isSome_iff_exists]
    at shown
  obtain ⟨c, hc, ⟨c', hs⟩, hpublished⟩ := shown
  have hrun : OneWordRun c := .of_exec _ hc
  obtain ⟨hfirst, -, r, now, -, hview⟩ := completion_places (sound_of_none oneWord_none) oneWord_none
    hrun hs hpublished trivial (List.mem_singleton.2 rfl)
  exact ⟨c, c', r, now, hfirst, hview⟩

end Completion

end OnboardingRuns
