import LexiGo.Scenarios.AttemptOrder
import LexiGo.ReadCommitted.GuidedRuns

/-! Starting a scenario that is published: the attempt that is answered has been open
while the request was under way, unless the open one is completed between the two
statements with which a request finds it. -/
namespace StartedAttempts
open RowStore TransactionProgram Interleaving CommitContract RunSoundness GuidedRuns
open GoText AnswerJudgement ScenarioSchema ScenarioRepository ScenarioService
open ScenarioMachine ScenarioRefinement ScenarioRuns
open LearningSchema (UserId WordId EventId)

/-- The slug of a scenario is not blank: `scenarios_slug_chk`. -/
structure Published (catalogue : Catalogue) (slug : String) : Prop where
  named : trimSpace slug ≠ ""
  active : ∃ scenario, catalogue (trimSpace slug) = some scenario ∧ scenario.isActive = true

section Stages
variable (catalogue : Catalogue) (u : UserId) (slug : Slug)

/-- What is left of a request to start once it has found the attempt that it answers. -/
def answering (resumed : Bool) (a : AttemptId) : ScenarioProg Response :=
  answered .started (do return (← loadAttempt catalogue u a).map (startResponse resumed))

/-- What is left of it once its insertion has met an open attempt. -/
def lookingUp : ScenarioProg Response :=
  answered .started (do
    match ← select (newestOpen u slug) with
    | none => return .error .internal
    | some a => return (← loadAttempt catalogue u a).map (startResponse true))

end Stages

/-- The second statement of request `i` comes next: its transaction is over, and the
lookup is another. -/
def Looks (catalogue : Catalogue) (i : Nat) (u : UserId) (slug : String) (c : ScenarioConfig) : Prop :=
  ∃ p, c.procs[i]? = some p ∧ p.op = .start u slug ∧ p.tx = {} ∧
    p.code = some (lookingUp catalogue u (trimSpace slug))

/-- `gen_random_uuid()`: an attempt that is being opened has an identifier of its own. -/
def Fresh (c : ScenarioConfig) : Prop :=
  ∀ (i : Nat) (p : Proc Row Note Op Response), c.procs[i]? = some p →
    ∀ u slug a m, p.op = .start u slug → (attemptKey a, m) ∈ p.tx.held → attemptAt a c.world.db = none

/-- Identifiers are fresh, and a request that has met an open attempt looks for it while
one is open. -/
structure Calm (catalogue : Catalogue) (c : ScenarioConfig) (act : Action Op) : Prop where
  fresh : Fresh c
  open_ : ∀ i choice u slug, act = .advance i choice → Looks catalogue i u slug c →
    ¬ NoneOpen u (trimSpace slug) (view c.world.db)

abbrev CalmRun (catalogue : Catalogue) (unicode : Unicode) (lower : String → String)
    (hashSubmission : Int → SubmitStepRequest → RequestHash) :=
  Reaches (program catalogue unicode lower hashSubmission) (Calm catalogue)

variable {catalogue : Catalogue} {unicode : Unicode} {lower : String → String}
variable {hashSubmission : Int → SubmitStepRequest → RequestHash}
variable {db : ScenarioDb} {c c' c₁ c₂ : ScenarioConfig} {i : Nat} {u : UserId} {slug : Slug}
variable {a : AttemptId}

def IsOpen (u : UserId) (slug : Slug) (a : AttemptId) (db : ScenarioDb) : Prop :=
  ∃ r, attemptAt a db = some r ∧ r.openFor u slug = true

/-- Request `i` has not come to its answer. -/
def Underway (i : Nat) (c : ScenarioConfig) : Prop :=
  ∃ p code, c.procs[i]? = some p ∧ p.code = some code ∧ ∀ answer, code ≠ .ret answer

/-- At some moment of the run, after request `i` came and before it answered, the
attempt was open. -/
def OpenDuring (reach : ScenarioConfig → ScenarioConfig → Prop) (db : ScenarioDb) (i : Nat)
    (u : UserId) (slug : Slug) (a : AttemptId) (c : ScenarioConfig) : Prop :=
  ∃ c₁, reach (start db) c₁ ∧ reach c₁ c ∧ Underway i c₁ ∧ IsOpen u slug a c₁.world.db

theorem mem_attemptsWhere {p : AttemptRow → Bool} {entry : AttemptId × AttemptRow} :
    entry ∈ attemptsWhere p db ↔ attemptAt entry.1 db = some entry.2 ∧ p entry.2 = true := by
  obtain ⟨a, r⟩ := entry
  unfold attemptsWhere
  rw [List.mem_filterMap]
  constructor
  · rintro ⟨k, hk, hentry⟩
    obtain ⟨r', hr', hp⟩ := mem_rowsWhere.1 hk
    cases k with
    | inl k => exact absurd hp Bool.false_ne_true
    | inr k =>
      cases k with
      | attempt a' =>
        obtain ⟨r'', hr'', heq⟩ := Option.map_eq_some_iff.1 hentry
        have hr' : attemptAt a' db = some r' := hr'
        cases hr'.symm.trans hr''
        cases heq
        exact ⟨hr', hp⟩
      | step | headword | openAttempt | submission | sharedWord =>
        exact absurd hp Bool.false_ne_true
  · rintro ⟨hr, hp⟩
    exact ⟨attemptKey a, mem_rowsWhere.2 ⟨r, hr, hp⟩, Option.map_eq_some_iff.2 ⟨r, hr, rfl⟩⟩

theorem newestOpen_isOpen (h : newestOpen u slug db = some a) : IsOpen u slug a db := by
  obtain ⟨entry, hentry, rfl⟩ := Option.map_eq_some_iff.1 h
  have hmem := List.mem_of_mem_head? hentry
  rw [List.mem_insertionSort, mem_attemptsWhere] at hmem
  exact ⟨entry.2, hmem⟩

theorem newestOpen_none : newestOpen u slug db = none ↔ NoneOpen u slug (view db) := by
  constructor
  · intro h a r hr
    rw [newestOpen, Option.map_eq_none_iff, List.head?_eq_none_iff] at h
    cases hopen : r.openFor u slug with
    | false => rfl
    | true =>
      have hmem : (a, r) ∈ attemptsWhere (AttemptRow.openFor u slug) db :=
        mem_attemptsWhere.2 ⟨hr, hopen⟩
      rw [← List.mem_insertionSort (fun s s' => s'.2.updatedAt ≤ s.2.updatedAt), h] at hmem
      cases hmem
  · intro h
    cases hfound : newestOpen u slug db with
    | none => rfl
    | some a =>
      obtain ⟨r, hr, hopen⟩ := newestOpen_isOpen hfound
      rw [h a r hr] at hopen
      cases hopen

/-- An attempt that is there stays with its user. -/
theorem reaches_attempt (hdb : Suits catalogue db)
    (hc : CalmRun catalogue unicode lower hashSubmission (start db) c)
    (h : CalmRun catalogue unicode lower hashSubmission c c') {r : AttemptRow}
    (hr : attemptAt a c.world.db = some r) :
    ∃ r', attemptAt a c'.world.db = some r' ∧ r'.userId = r.userId := by
  induction h with
  | refl => exact ⟨r, hr, rfl⟩
  | tail hreach hnext ih =>
    obtain ⟨r₁, hr₁, hu₁⟩ := ih
    obtain ⟨act, hs, -⟩ := hnext
    have hrun := Reaches.run (hc.trans hreach)
    rcases (run_history hdb hrun).1.commits hs (fun _ _ _ => trivial) with ⟨-, heq⟩ | ⟨j, n, -, hcommit⟩
    · exact ⟨r₁, by rw [heq]; exact hr₁, hu₁⟩
    · obtain ⟨n, -, hstep, -⟩ := hcommit.step
      obtain ⟨r₂, hr₂, hfollows⟩ := hstep.attempt_kept hr₁
      exact ⟨r₂, hr₂, hfollows.userId.trans hu₁⟩

variable (catalogue unicode lower hashSubmission db) in
/-- A request to start a published scenario answers with an attempt that was open while
it was under way. -/
def Replies (i : Nat) : Op → Response → ScenarioConfig → Prop
  | .start u slug, answer, c => Published catalogue slug → ∃ response,
    answer = .ok (.started response) ∧
      OpenDuring (CalmRun catalogue unicode lower hashSubmission) db i u (trimSpace slug)
        response.attempt.id c
  | .pause _ _ _, _, _ | .resume _ _ _, _, _ | .submitStep _ _ _ _, _, _ => True

theorem OpenDuring.later
    (h : OpenDuring (CalmRun catalogue unicode lower hashSubmission) db i u slug a c)
    (hr : CalmRun catalogue unicode lower hashSubmission c c') :
    OpenDuring (CalmRun catalogue unicode lower hashSubmission) db i u slug a c' := by
  obtain ⟨c₁, hbefore, hafter, hopen⟩ := h
  exact ⟨c₁, hbefore, hafter.trans hr, hopen⟩

/-- An attempt that has been open is there, and it is loaded. -/
theorem answering_leads (hdb : Suits catalogue db) {s : String} {resumed : Bool}
    (hopen : OpenDuring (CalmRun catalogue unicode lower hashSubmission) db i u (trimSpace s) a c) :
    Leads (program catalogue unicode lower hashSubmission) (Calm catalogue) i (.start u s)
      (Replies catalogue unicode lower hashSubmission db i (.start u s))
      (answering catalogue u resumed a) {} c := by
  obtain ⟨c₀, hc₀, hreach, -, r, hr, hfor⟩ := id hopen
  obtain ⟨-, hu, -⟩ := openFor_iff.1 hfor
  unfold answering answered loadAttempt select
  simp only [bind, pure, Prog.bind]
  intro c₁ c₂ choice hg
  obtain ⟨r₁, hr₁, hu₁⟩ := reaches_attempt hdb hc₀ (hreach.trans hg.reaches) hr
  have hfound : (attemptAt a (({} : Tx Row).visible c₁.world.db)).filter (fun r => r.userId = u) =
      some r₁ := by
    rw [Tx.visible_empty, hr₁, Option.filter_some, if_pos (decide_eq_true (hu₁.trans hu))]
  dsimp only
  rw [hfound]
  intro c₃ c₄ choice' hg' c₅ hr₅ _
  refine ⟨_, rfl, ?_⟩
  exact hopen.later (hg.trans.trans (hg'.trans.trans hr₅))

/-- The lookup finds the attempt that is open. -/
theorem lookingUp_leads (hdb : Suits catalogue db) {s : String}
    (hc : CalmRun catalogue unicode lower hashSubmission (start db) c) :
    Leads (program catalogue unicode lower hashSubmission) (Calm catalogue) i (.start u s)
      (Replies catalogue unicode lower hashSubmission db i (.start u s))
      (lookingUp catalogue u (trimSpace s)) {} c := by
  intro c₁ c₂ choice hg
  obtain ⟨p, hp, hop, ht, hcode⟩ := hg.stands
  have hlooks : Looks catalogue i u s c₁ := ⟨p, hp, hop, ht, hcode⟩
  have hsome := hg.ok.open_ i choice u s rfl hlooks
  rw [← newestOpen_none, ← ne_eq, Option.ne_none_iff_exists'] at hsome
  obtain ⟨a, ha⟩ := hsome
  have hunder : Underway i c₁ := ⟨p, _, hp, hcode, by rintro _ ⟨⟩⟩
  have hopen : OpenDuring (CalmRun catalogue unicode lower hashSubmission) db i u (trimSpace s) a c₂ :=
    ⟨c₁, hc.trans hg.reaches, .single ⟨_, hg.step, hg.ok⟩, hunder, newestOpen_isOpen ha⟩
  rw [Tx.visible_empty]
  change Leads _ _ _ _ _ (Prog.bind (Prog.bind (Prog.ret (newestOpen u (trimSpace s) c₁.world.db)) _) _) _ _
  rw [ha]
  exact answering_leads hdb hopen

theorem starting_leads (hdb : Suits catalogue db) {s : String} (hs : Published catalogue s)
    (hc : CalmRun catalogue unicode lower hashSubmission (start db) c) :
    Leads (program catalogue unicode lower hashSubmission) (Calm catalogue) i (.start u s)
      (Replies catalogue unicode lower hashSubmission db i (.start u s))
      (starting catalogue u s) {} c := by
  generalize hcode : starting catalogue u s = code
  obtain ⟨scenario, hscenario, hactive⟩ := hs.active
  have hfound : (catalogue (trimSpace s)).filter Scenario.isActive = some scenario := by
    rw [hscenario, Option.filter_some, if_pos hactive]
  subst hcode
  unfold starting
  rw [if_neg hs.named]
  unfold answered ScenarioRepository.start
  rw [hfound]
  dsimp only
  unfold insertAttempt choose
  simp only [bind, pure, Prog.bind]
  intro c₁ c₂ now hg₁ c₃ c₄ a hg₂ c₅ c₆ _ hg₃ c₇ c₈ _ hg₄
  have hc₈ := (((hc.trans hg₁.trans).trans hg₂.trans).trans hg₃.trans).trans hg₄.trans
  change Leads _ _ _ _ _ (Prog.bind (Prog.bind (if _ then _ else _) _) _) _ _
  by_cases hempty : (rowsWhere (attempts (AttemptRow.openFor u (trimSpace s)))
      ((({} : Tx Row).hold (.inr (.openAttempt u (trimSpace s))) .update).visible c₇.world.db)).isEmpty = true
  · rw [if_pos hempty]
    intro c₉ c₁₀ _ hg₅ c₁₁ c₁₂ _ hg₆
    obtain ⟨p, hp, hop, ht, -⟩ := hg₆.stands
    have hfree : attemptAt a c₁₁.world.db = none := by
      refine hg₆.ok.fresh i p hp u s a .update hop ?_
      rw [ht]
      exact List.mem_cons_self
    change Leads _ _ _ _ _ (Prog.bind (Prog.bind (Prog.bind (if _ then _ else _) _) _) _) _ _
    rw [if_neg]
    · intro c₁₃ c₁₄ _ hg₇ c₁₅ c₁₆ _ hg₈
      have hc₁₆ := (((hc₈.trans hg₅.trans).trans hg₆.trans).trans hg₇.trans).trans hg₈.trans
      have hnew : attemptAt a c₁₆.world.db = some (newAttempt u (trimSpace s) scenario.version now) := by
        rw [hg₈.published, attemptAt, Tx.visible_write, lookup_set_self]
      obtain ⟨q, -, -, -, hq⟩ := hg₈.after
      have hunder : Underway i c₁₆ := ⟨_, _, hq, rfl, by rintro _ ⟨⟩⟩
      refine answering_leads hdb ⟨c₁₆, hc₁₆, .refl, hunder, _, hnew, ?_⟩
      exact openFor_iff.2 ⟨rfl, rfl, rfl⟩
    · simp only [Tx.visible_hold, Tx.visible_empty]
      rw [show c₁₁.world.db.lookup (attemptKey a) = none from hfree]
      exact Bool.false_ne_true
  · rw [if_neg hempty]
    intro c₉ c₁₀ _ hg₅
    exact lookingUp_leads hdb (hc₈.trans hg₅.trans)

theorem program_leads (hdb : Suits catalogue db) (i : Nat) (op : Op) (c : ScenarioConfig)
    (hc : CalmRun catalogue unicode lower hashSubmission (start db) c) :
    Leads (program catalogue unicode lower hashSubmission) (Calm catalogue) i op
      (Replies catalogue unicode lower hashSubmission db i op)
      (program catalogue unicode lower hashSubmission op) {} c := by
  generalize hcode : program catalogue unicode lower hashSubmission op = code
  cases op with
  | start u slug =>
    by_cases hs : Published catalogue slug
    · rw [← hcode]
      exact starting_leads hdb hs hc
    · exact leads_of_forall fun _ _ h => absurd h hs
  | pause | resume | submitStep => exact leads_of_forall fun _ _ => trivial

/-- What a request answers whose lookup finds nothing open. -/
theorem lookup_misses {slug : String} {choice : Nat} (hlooks : Looks catalogue i u slug c)
    (hnone : NoneOpen u (trimSpace slug) (view c.world.db))
    (hs : step (program catalogue unicode lower hashSubmission) c (.advance i choice) = some c') :
    c'.answer i = some (.error (writeScenarioError .internal)) := by
  obtain ⟨p, hp, -, htx, hcode⟩ := hlooks
  obtain ⟨q, code, hq, hcode', hprocs⟩ := advance_moves hs
  cases hp.symm.trans hq
  cases hcode.symm.trans hcode'
  have hlt := (List.getElem?_eq_some_iff.1 hp).1
  have hnext : c'.procs[i]? = some { p with code := some (.ret (.error (writeScenarioError .internal))) } := by
    rw [hprocs, List.getElem?_set_self hlt]
    change some { p with code := some (Prog.bind (Prog.bind (Prog.ret
      (newestOpen u (trimSpace slug) (p.tx.visible c.world.db))) _) _) } = _
    rw [htx, Tx.visible_empty, newestOpen_none.2 hnone]
    rfl
  rw [Config.answer, hnext]

theorem code_of_answered {p : Proc Row Note Op Response} {answer : Response}
    (hp : c.procs[i]? = some p) (ha : c.answer i = some answer) : p.code = some (.ret answer) := by
  obtain ⟨op, born, tx, code⟩ := p
  revert ha
  simp only [Config.answer, hp]
  split <;> simp_all

/-- Whatever the other requests do, a request to start a published scenario answers with
an attempt that was open while it was under way, if identifiers are fresh and every lookup
finds something open; a lookup that does not is answered with an internal error. -/
theorem start_opens (hdb : Suits catalogue db)
    (h : CalmRun catalogue unicode lower hashSubmission (start db) c)
    {p : Proc Row Note Op Response} (hp : c.procs[i]? = some p) {slug : String}
    (hop : p.op = .start u slug) (hslug : Published catalogue slug) :
    (∀ answer, c.answer i = some answer → ∃ response, answer = .ok (.started response) ∧
      OpenDuring (CalmRun catalogue unicode lower hashSubmission) db i u (trimSpace slug)
        response.attempt.id c) ∧
    ∀ choice c', Looks catalogue i u slug c → NoneOpen u (trimSpace slug) (view c.world.db) →
      step (program catalogue unicode lower hashSubmission) c (.advance i choice) = some c' →
      c'.answer i = some (.error (writeScenarioError .internal)) := by
  refine ⟨fun answer ha => ?_, fun choice c' hlooks hnone hs => lookup_misses hlooks hnone hs⟩
  have hleads := leads_run (program_leads hdb) rfl h i p hp _ (code_of_answered hp ha)
  have hreplies := hleads c .refl
  rw [hop] at hreplies
  exact hreplies hslug

/-- What the code that is left would answer at once if there were no rows. -/
def atOnce : Option (ScenarioProg Response) → Option Response
  | some (.look next) =>
    match next ∅ with
    | .ret answer => some answer
    | _ => none
  | _ => none

theorem atOnce_lookingUp (catalogue : Catalogue) (u : UserId) (slug : Slug) :
    atOnce (some (lookingUp catalogue u slug)) = some (.error (writeScenarioError .internal)) := by
  have hnone : newestOpen u slug (∅ : ScenarioDb) = none :=
    newestOpen_none.2 fun a r hr => by cases hr
  unfold atOnce lookingUp answered select
  simp only [bind, pure, Prog.bind]
  rw [hnone]
  rfl

def startedKeys (held : List (Key × Mode)) : List AttemptId :=
  held.filterMap fun
    | (.inr (.attempt a), _) => some a
    | _ => none

def isFresh (db : ScenarioDb) (p : Proc Row Note Op Response) : Bool :=
  match p.op with
  | .start _ _ => (startedKeys p.tx.held).all fun a => (attemptAt a db).isNone
  | _ => true

def finds (db : ScenarioDb) (p : Proc Row Note Op Response) : Bool :=
  match p.op with
  | .start u slug => atOnce p.code ≠ some (.error (writeScenarioError .internal)) ||
    (newestOpen u (trimSpace slug) db).isSome
  | _ => true

/-- A check that a step is calm, for schedules that are run. -/
def isCalm (c : ScenarioConfig) (act : Action Op) : Bool :=
  c.procs.all (isFresh c.world.db) &&
  match act with
  | .advance i _ => (c.procs[i]?).all (finds c.world.db)
  | _ => true

theorem fresh_of_isFresh (h : c.procs.all (isFresh c.world.db) = true) : Fresh c := by
  intro i p hp u slug a m hop hheld
  have hall := List.all_eq_true.1 h p (List.mem_of_getElem? hp)
  rw [isFresh, hop] at hall
  have hmem : a ∈ startedKeys p.tx.held := List.mem_filterMap.2 ⟨_, hheld, rfl⟩
  exact Option.isNone_iff_eq_none.1 (List.all_eq_true.1 hall a hmem)

theorem calm_of_isCalm {act : Action Op} (h : isCalm c act = true) : Calm catalogue c act := by
  obtain ⟨hfresh, hfinds⟩ := Bool.and_eq_true_iff.1 h
  refine ⟨fresh_of_isFresh hfresh, ?_⟩
  · rintro i choice u slug rfl ⟨p, hp, hop, -, hcode⟩ hnone
    have hfound : finds c.world.db p = true := by
      change (c.procs[i]?).all (finds c.world.db) = true at hfinds
      rw [hp] at hfinds
      exact hfinds
    rw [finds, hop] at hfound
    simp only [hcode, atOnce_lookingUp, newestOpen_none.2 hnone] at hfound
    simp at hfound

/-- Two devices of learner 1 start the lesson at once: the second meets the attempt that
the first has opened, and finds it. -/
def startedTwice : List (Action Op) :=
  weeklyStarted ++ .start (.start 1 "weekly-status-update") :: steps 1 [2000, 8, 0, 0, 0, 0, 0, 0]

theorem published (h : ((catalogue "weekly-status-update").any Scenario.isActive) = true) :
    Published catalogue "weekly-status-update" where
  named := by decide +kernel
  active := by
    have hslug : trimSpace "weekly-status-update" = "weekly-status-update" := by decide +kernel
    rw [hslug]
    exact Option.any_eq_true _ _ |>.1 h

def isResumed : Response → Bool
  | .ok (.started response) => response.resumed
  | _ => false

theorem second_start_opens : ∃ (c : ScenarioConfig) (response : StartAttemptResponse),
    c.answer 1 = some (.ok (.started response)) ∧ response.resumed = true ∧
      OpenDuring (CalmRun weekly JudgeAgreement.latin id fun position _ => position.toNat) ∅ 1 1
        (trimSpace "weekly-status-update") response.attempt.id c := by
  have shown : (execIf (program weekly JudgeAgreement.latin id fun position _ => position.toNat)
      isCalm (start ∅) startedTwice).any (fun c =>
        (c.procs[1]?.any fun p => p.op = .start 1 "weekly-status-update") &&
        (c.answer 1).any isResumed) = true := by
    decide +kernel
  simp only [Option.any_eq_true, Bool.and_eq_true, decide_eq_true_eq] at shown
  obtain ⟨c, hc, ⟨p, hp, hop⟩, answer, ha, hresumed⟩ := shown
  have hrun : CalmRun weekly JudgeAgreement.latin id (fun position _ => position.toNat) (start ∅) c :=
    .of_exec (fun _ _ => calm_of_isCalm) _ hc
  obtain ⟨response, rfl, hopen⟩ := (start_opens empty_suits hrun hp hop (published rfl)).1 answer ha
  exact ⟨c, response, ha, hresumed, hopen⟩

/-- A scenario of one step. -/
def brief : Catalogue := fun slug =>
  if slug = "weekly-status-update" then
    some ⟨1, true, [⟨false, 50, ⟨"outcome", "результат", "noun"⟩⟩], by simp⟩
  else none

/-- The last step is accepted between the two statements of a request to start. -/
def completedBetween : List (Action Op) :=
  weeklyStarted ++
  .start (.start 1 "weekly-status-update") :: steps 1 [5000, 8, 0, 0, 0] ++
  .start (.submitStep 1 attemptSeven 0 (weeklyStep "1" 1 outcomeResponse)) ::
    acceptance 2 5 9 [0, 0, 0, 0] ++
  steps 1 [0]

/-- Fresh identifiers alone are not enough. -/
theorem start_misses : ∃ (c : ScenarioConfig) (p : Proc Row Note Op Response),
    Reaches (program brief JudgeAgreement.latin id fun position _ => position.toNat)
      (fun c _ => Fresh c) (start ∅) c ∧
    c.procs[1]? = some p ∧ p.op = .start 1 "weekly-status-update" ∧
    Published brief "weekly-status-update" ∧
    c.answer 1 = some (.error (writeScenarioError .internal)) := by
  have shown : (execIf (program brief JudgeAgreement.latin id fun position _ => position.toNat)
      (fun c _ => c.procs.all (isFresh c.world.db)) (start ∅) completedBetween).any (fun c =>
        (c.procs[1]?.any fun p => p.op = .start 1 "weekly-status-update") &&
        c.answer 1 = some (.error (writeScenarioError .internal))) = true := by
    decide +kernel
  simp only [Option.any_eq_true, Bool.and_eq_true, decide_eq_true_eq] at shown
  obtain ⟨c, hc, ⟨p, hp, hop⟩, ha⟩ := shown
  exact ⟨c, p, .of_exec (fun _ _ => fresh_of_isFresh) _ hc, hp, hop, published rfl, ha⟩

end StartedAttempts
