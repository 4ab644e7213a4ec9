import LexiGo.Moderation.ModerationRuns

/-! What the decisions of moderators make of the accepted answers of the words. -/
namespace TaughtAnswers
open RowStore TransactionProgram Interleaving CommitContract RunSoundness CommitNotes
open GoText AnswerJudgement ModerationSchema ModerationRepository ModerationService
open ModerationMachine ModerationRefinement ModerationRuns Function
open LearningSchema (UserId WordId EventId EventRow)

variable {unicode : Unicode} {lower : String → String} {db : ModerationDb}
variable {allow : Nat → List Note → ModerationWorld → ModerationWorld → Prop}
variable {c c' c'' : ModerationConfig} {w w' : ModerationWorld}

/-- The words of `db'` accept what those of `db` accept, and keep their curated answers. -/
def WordsLearned (unicode : Unicode) (db db' : ModerationDb) : Prop :=
  ∀ w word, wordAt w db = some word → ∃ word', wordAt w db' = some word' ∧ Learned unicode word word'

theorem WordsLearned.refl (db : ModerationDb) : WordsLearned unicode db db :=
  fun _ word hword => ⟨word, hword, .refl word⟩

theorem WordsLearned.trans {db db' db'' : ModerationDb} (h : WordsLearned unicode db db')
    (h' : WordsLearned unicode db' db'') : WordsLearned unicode db db'' := by
  intro w word hword
  obtain ⟨word', hword', hlearned⟩ := h w word hword
  obtain ⟨word'', hword'', hlearned'⟩ := h' w word' hword'
  exact ⟨word'', hword'', hlearned.trans hlearned'⟩

theorem commits_learned (h : Commits (moderationContract unicode allow) w w') :
    WordsLearned unicode w.db w'.db := by
  obtain ⟨-, n, -, hstep, -⟩ := commits_step h
  exact fun _ _ hword => hstep.word_learned hword

theorem history_learned (h : ModerationHistory unicode allow w w') :
    WordsLearned unicode w.db w'.db := by
  have keeps : ∀ v v', Commits (moderationContract unicode allow) v v' →
      WordsLearned unicode w.db v.db → WordsLearned unicode w.db v'.db :=
    fun _ _ hc hv => hv.trans (commits_learned hc)
  exact history_keeps h keeps (.refl w.db)

/-- Request `j` commits its decision with the action `a`. -/
structure Deciding (c : ModerationConfig) (a : Action Op) (j : Nat) (s : Int)
    (request : DecisionBody) : Prop where
  commits : ∃ notes, published c a = some (j, notes)
  decides : ∃ p actor, c.procs[j]? = some p ∧ p.op = .decide actor s request

/-- What the step `a` from `c` to `c'` makes of words and suggestions, as far as it
is due to decisions, and what has become of the words by `c''`. -/
structure DecisionsTeach (unicode : Unicode) (a : Action Op) (c c' c'' : ModerationConfig) :
    Prop where
  keeps : WordsLearned unicode c.world.db c''.world.db
  accepted : ∀ j s request valid, Deciding c a j s request →
    validateDecision request = .ok valid → valid.decision = .accepted →
    ∃ r word, suggestionAt s.toNat c.world.db = some r ∧ wordAt r.wordId c''.world.db = some word ∧
      accepts unicode word r.submittedAnswer = true
  rejected : ∀ j s request valid, Deciding c a j s request →
    validateDecision request = .ok valid → valid.decision = .rejected →
    ∀ w, wordAt w c'.world.db = wordAt w c.world.db
  unsuccessful : ∀ j p actor s request e, c.procs[j]? = some p → p.op = .decide actor s request →
    c''.answer j = some (.error e) → (∃ choice, a = .advance j choice) →
    c'.world.db = c.world.db

/-- The step that commits a decision. -/
theorem deciding_step (hdb : Suits unicode db)
    (hrun : Run (program unicode lower) (fun _ _ _ _ => True) (start db) c) {a : Action Op}
    (hs : step (program unicode lower) c a = some c') {j : Nat} {s : Int} {request : DecisionBody}
    (h : Deciding c a j s request) :
    ∃ valid, validateDecision request = .ok valid ∧
      Step unicode (.decided s.toNat valid.expectedVersion valid.decision)
        (view c.world.db) (view c'.world.db) ∧
      (j, Note.decided s.toNat valid.expectedVersion valid.decision) ∈ c'.world.log := by
  obtain ⟨notes, hpub⟩ := h.commits
  obtain ⟨p, actor, hp, hop⟩ := h.decides
  obtain ⟨p', hp', htold⟩ := (run_tracked hrun).published hpub
  cases hp.symm.trans hp'
  rw [hop] at htold
  obtain ⟨-, -, valid, hvalid, rfl⟩ := htold
  rcases (run_history hdb hrun).1.commits hs (fun _ _ _ => trivial) with
    ⟨hnone, -⟩ | ⟨i, notes, hpub', hc⟩
  · rw [hpub] at hnone
    cases hnone
  · cases hpub.symm.trans hpub'
    obtain ⟨n, hn, hstep⟩ := hc.step
    cases hn
    refine ⟨valid, hvalid, hstep, ?_⟩
    rw [hc.log]
    exact List.mem_cons_self

/-- A decision that has been committed is not reported as a failure. -/
theorem deciding_succeeds (hdb : Suits unicode db)
    (hrun : Run (program unicode lower) (fun _ _ _ _ => True) (start db) c) {a : Action Op}
    (hs : step (program unicode lower) c a = some c')
    (hlater : Run (program unicode lower) (fun _ _ _ _ => True) c' c'') {j : Nat} {s : Int}
    {request : DecisionBody} (h : Deciding c a j s request) (e : Failure) :
    c''.answer j ≠ some (.error e) := by
  intro he
  obtain ⟨p, actor, hp, hop⟩ := h.decides
  obtain ⟨valid, -, -, hlog⟩ := deciding_step hdb hrun hs h
  have hrun' := (Run.tail a (.refl c) hs fun _ _ _ => trivial).trans hlater
  obtain ⟨p', hp', hop'⟩ := run_stays hrun' hp
  have hnothing := ((run_tracked hrun).run program_follows hrun').answer hp' he
  rw [hop', hop] at hnothing
  have hmem := mem_ownNotes.2 (run_log hlater hlog)
  rw [hnothing] at hmem
  cases hmem

theorem decide_teaches (hdb : Suits unicode db)
    (hrun : Run (program unicode lower) (fun _ _ _ _ => True) (start db) c) {a : Action Op}
    (hs : step (program unicode lower) c a = some c')
    (hlater : Run (program unicode lower) (fun _ _ _ _ => True) c' c'') :
    DecisionsTeach unicode a c c' c'' := by
  obtain ⟨safe, -⟩ := run_history hdb hrun
  have hnext : Run (program unicode lower) (fun _ _ _ _ => True) c c' :=
    .tail a (.refl c) hs fun _ _ _ => trivial
  have learned := history_learned (run_later (run_later safe hnext).1 hlater).2
  refine ⟨history_learned (run_later safe (hnext.trans hlater)).2, ?_, ?_, ?_⟩
  · intro j s request valid h hvalid haccepted
    obtain ⟨valid', hvalid', hstep, -⟩ := deciding_step hdb hrun hs h
    cases hvalid.symm.trans hvalid'
    obtain ⟨r, word, actor, request', now, hr, hword, -, -, hsame, heq⟩ := hstep.of_decided
    have hnow : wordAt r.wordId c'.world.db = some (taught unicode request' r word) :=
      (congrFun (congrArg Moderation.word heq) r.wordId).trans (update_self _ _ _)
    obtain ⟨word'', hword'', hlearned⟩ := learned _ _ hnow
    exact ⟨r, word'', hr, hword'', hlearned.accepts _
      (taught_accepts (hsame.trans haccepted) (safe.inv s.toNat r hr))⟩
  · intro j s request valid h hvalid hrejected w
    obtain ⟨valid', hvalid', hstep, -⟩ := deciding_step hdb hrun hs h
    cases hvalid.symm.trans hvalid'
    obtain ⟨r, word, actor, request', now, hr, hword, -, -, hsame, heq⟩ := hstep.of_decided
    have hnow := congrFun (congrArg Moderation.word heq) w
    rw [taught_of_rejected (hsame.trans hrejected), ← hword, update_eq_self] at hnow
    exact hnow
  · rintro j p actor s request e hp hop he ⟨choice, rfl⟩
    rcases safe.commits hs (fun _ _ _ => trivial) with ⟨-, hsame⟩ | ⟨i, notes, hpub, -⟩
    · rw [hsame]
    · cases published_own hpub
      exact absurd he (deciding_succeeds hdb hrun hs hlater ⟨⟨notes, hpub⟩, p, actor, hp, hop⟩ e)

/-- Request 3 accepts what the learner suggested. -/
def acceptedKitty : List (Action Op) :=
  suggested "kitty" "kitten" ++
  .start (.decide 7 9 ⟨"accepted", 1, "valid_variant", ""⟩) ::
    steps 3 [1, 0, 0, 0, 0, 0, 0, 0, 0, 4000, 0, 0, 0, 0]

theorem acceptedKitty_taught : ∃ c c' : ModerationConfig,
    Deciding c (.advance 3 0) 3 9 ⟨"accepted", 1, "valid_variant", ""⟩ ∧
      DecisionsTeach ascii (.advance 3 0) c c' c' := by
  have decides : (exec (program ascii id) (fun _ _ _ _ => True) (start catDb) acceptedKitty).map
      (fun c => (c.procs[3]?.map Proc.op, published c (.advance 3 0),
        (step (program ascii id) c (.advance 3 0)).isSome)) =
      some (some (.decide 7 9 ⟨"accepted", 1, "valid_variant", ""⟩),
        some (3, [.decided 9 1 .accepted]), true) := by
    decide +kernel
  obtain ⟨c, hc, heq⟩ := Option.map_eq_some_iff.mp decides
  simp only [Prod.mk.injEq, Option.map_eq_some_iff, Option.isSome_iff_exists] at heq
  obtain ⟨⟨p, hp, hop⟩, hpub, c', hs⟩ := heq
  exact ⟨c, c', ⟨⟨_, hpub⟩, p, 7, hp, hop⟩, decide_teaches catDb_suits (.of_exec _ hc) hs (.refl c')⟩

end TaughtAnswers
