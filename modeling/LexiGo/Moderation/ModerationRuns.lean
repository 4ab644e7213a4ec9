import LexiGo.Moderation.ModerationRefinement
import LexiGo.ReadCommitted.CommitNotes

/-! Runs of any number of requests about suggestions, as histories of the machine,
and what the notes of a request tell of it. -/
namespace ModerationRuns
open RowStore TransactionProgram Interleaving CommitContract RowStatements RunSoundness CommitNotes
open GoText AnswerJudgement ModerationSchema ModerationRepository ModerationService
open ModerationMachine ModerationRefinement
open LearningSchema (UserId WordId EventId EventRow)

abbrev ModerationConfig := Config Row Note Op Response

abbrev ModerationHistory (unicode : Unicode)
    (allow : Nat → List Note → ModerationWorld → ModerationWorld → Prop) :=
  History (moderationContract unicode allow)

variable {unicode : Unicode} {lower : String → String}
variable {allow : Nat → List Note → ModerationWorld → ModerationWorld → Prop}
variable {db : ModerationDb} {c c' : ModerationConfig}

/-- Nobody has asked for anything yet. -/
def start (db : ModerationDb) : ModerationConfig := ⟨⟨db, []⟩, []⟩

def Suits (unicode : Unicode) (db : ModerationDb) : Prop := Judgeable unicode (view db)

/-- There are no suggestions before the first one is submitted. -/
theorem suits_of_none (h : ∀ s, suggestionAt s db = none) : Suits unicode db := by
  intro s r hr
  have hr : suggestionAt s db = some r := hr
  rw [h s] at hr
  cases hr

/-- One word, which one learner has been assigned. -/
def catDb : ModerationDb :=
  AList.insert (Key.userWord 1 1) () (AList.insert (Key.word 1)
    (⟨⟨none, .word, "oxford", "Travel", "feline", "", []⟩, "cat"⟩ : WordRow) ∅)

/-- The learner's answer has been turned down by the server. -/
def rejectedReview (answer : String) : EventRow where
  userId := 1
  wordId := 1
  grade := 1
  responseMs := none
  reviewedAt := 1000
  rating := .known
  answerMode := .recall
  correct := some false
  answerRevealed := none
  submittedAnswer := some answer
  effectiveRating := .again
  judgementSource := .server
  judgementReason := .rejectedNoMatch
  matchedAnswer := none

/-- Reviews 5 and 6 are followed by a suggestion on account of the first, with
number 9 and in version 1. -/
def suggested (first second : String) : List (Action Op) :=
  .start (.recordReview (rejectedReview first)) :: steps 0 [5, 0, 0, 0, 0] ++
  .start (.recordReview (rejectedReview second)) :: steps 1 [6, 0, 0, 0, 0] ++
  .start (.submitAnswerSuggestion 1 1 ⟨5, "translation", first⟩) ::
    steps 2 [0, 0, 2000, 0, 0, 9, 0, 0, 0, 0, 0, 0, 0, 0, 0, 0]

theorem catDb_suits : Suits unicode catDb := suits_of_none fun _ => rfl

abbrev ModerationSafe (unicode : Unicode)
    (allow : Nat → List Note → ModerationWorld → ModerationWorld → Prop) (c : ModerationConfig) :
    Prop :=
  Safe (moderationContract unicode allow) (fun _ _ _ _ _ => True) c

theorem run_history (hdb : Suits unicode db) (h : Run (program unicode lower) allow (start db) c) :
    ModerationSafe unicode allow c ∧ ModerationHistory unicode allow (start db).world c.world :=
  run_sound moderation_sound h (safe_init hdb)

theorem run_later (safe : ModerationSafe unicode allow c)
    (h : Run (program unicode lower) allow c c') :
    ModerationSafe unicode allow c' ∧ ModerationHistory unicode allow c.world c'.world :=
  run_sound moderation_sound h safe

/-- A commit is one step of the machine, and the log says which. -/
theorem commits_step {w w' : ModerationWorld} (h : Commits (moderationContract unicode allow) w w') :
    ∃ i n, w'.log = (i, n) :: w.log ∧ Step unicode n (view w.db) (view w'.db) ∧ allow i [n] w w' := by
  obtain ⟨i, notes, hc⟩ := h
  obtain ⟨n, rfl, hstep⟩ := hc.step
  exact ⟨i, n, hc.log, hstep, hc.allow⟩

/-- What a request notes when it commits. -/
def Told : Op → List Note → List Note → Prop
  | .decide _ s request, notes, past => past = [] ∧ 0 < s ∧ ∃ valid,
      validateDecision request = .ok valid ∧
        notes = [.decided s.toNat valid.expectedVersion valid.decision]
  | .recordReview _, _, _ | .submitAnswerSuggestion _ _ _, _, _ | .list _, _, _ => True

/-- What a request answers, by what it has noted. -/
def Reported : Op → List Note → Response → Prop
  | .list _, past, .ok (.listed response) => ∃ items, past = [.listed items] ∧ response.items ⊆ items
  | .decide _ _ _, past, .error _ => past = []
  | _, _, _ => True

theorem page_items (filter : ListFilter) (items : List SuggestionContext) :
    (page filter items).items ⊆ items := by
  unfold page
  split
  · exact List.take_subset _ _
  · exact List.Subset.refl _

theorem authorize_quiet : Quiet authorize := .bind .choose fun _ => .pure _

theorem follows_authorized {P : List Note → List Note → Prop} {Q : List Note → Response → Prop}
    {past : List Note} {p : ModerationProg Response} (hforbidden : Q past (.error .forbidden))
    (hp : Follows P Q past p) : Follows P Q past (authorized p) := by
  unfold authorized
  refine follows_quiet authorize_quiet fun allowed => ?_
  cases allowed with
  | false => exact hforbidden
  | true => exact hp

theorem listing_follows (q : ListQuery) :
    Follows (Told (.list q)) (Reported (.list q)) [] (listing lower q) := by
  unfold listing
  cases normalizeListFilter q with
  | error why => exact trivial
  | ok filter =>
    dsimp only
    unfold answered ModerationRepository.list
    rw [follows_bind, follows_bind]
    refine follows_query _ _ fun found => ⟨trivial, ?_⟩
    cases found with
    | none => exact trivial
    | some items => exact ⟨items, rfl, page_items filter items⟩

theorem lockDecision_quiet (s : SuggestionId) : Quiet (lockDecision s) := by
  refine .bind (.select _) fun seen => ?_
  obtain _ | ⟨seen, _⟩ := seen
  · exact .pure _
  · exact .bind (.lockRow _ _) fun _ => .bind (.lockRow _ _) fun _ => .select _

theorem teach_quiet (request : DecisionRequest) (r : SuggestionRow) (word : WordRow) :
    Quiet (teach unicode request r word) := by
  unfold teach
  split
  · exact .bind (.updateRow _ _ _ _) fun _ => .pure _
  · exact .pure _

theorem settle_quiet (actor : UserId) (s : SuggestionId) (request : DecisionRequest) (now : Nat) :
    Quiet (settle actor s request now) :=
  .updateRow _ _ _ _

theorem decide_follows {P : List Note → List Note → Prop}
    {Q : List Note → Reply DecisionResult → Prop} (actor : UserId) (s : SuggestionId)
    (request : DecisionRequest) (hfails : ∀ e, Q [] (.error e))
    (hcommits : P [.decided s request.expectedVersion request.decision] [])
    (hdone : ∀ past result, Q past (.ok result)) :
    Follows P Q [] (decide unicode actor s request) := by
  unfold ModerationRepository.decide
  refine follows_quiet (lockDecision_quiet s) fun found => ?_
  obtain _ | ⟨r, word⟩ := found
  · exact hfails _
  dsimp only
  split
  · exact hfails _
  refine follows_quiet (teach_quiet request r word) fun _ => ?_
  refine follows_quiet .choose fun now => ?_
  refine follows_quiet (settle_quiet actor s request now) fun found => ?_
  cases found with
  | none => exact hfails _
  | some before =>
    rw [follows_bind, follows_commit]
    exact ⟨hcommits, hdone _ _⟩

theorem deciding_follows (actor : UserId) (s : Int) (request : DecisionBody) :
    Follows (Told (.decide actor s request)) (Reported (.decide actor s request)) []
      (deciding unicode actor s request) := by
  unfold deciding
  by_cases hs : s ≤ 0
  · rw [if_pos hs]
    exact rfl
  rw [if_neg hs]
  cases hvalid : validateDecision request with
  | error why => exact rfl
  | ok valid =>
    dsimp only
    unfold answered
    rw [follows_bind]
    refine decide_follows actor s.toNat valid (fun _ => rfl) ?_ (fun _ _ => trivial)
    exact ⟨rfl, by omega, valid, hvalid, rfl⟩

theorem program_follows (op : Op) :
    Follows (Told op) (Reported op) [] (program unicode lower op) := by
  cases op with
  | recordReview event => exact follows_of_forall (fun _ _ => trivial) (fun _ _ => trivial) _
  | submitAnswerSuggestion u w request =>
    exact follows_of_forall (fun _ _ => trivial) (fun _ _ => trivial) _
  | list q => exact follows_authorized trivial (listing_follows q)
  | decide actor s request => exact follows_authorized rfl (deciding_follows actor s request)

theorem run_tracked (h : Run (program unicode lower) allow (start db) c) :
    Tracked Told Reported c :=
  (tracked_start db).run program_follows h

/-- What a list shows is in the log. -/
theorem listed_noted (tracked : Tracked Told Reported c) {i : Nat} {p : Proc Row Note Op Response}
    {q : ListQuery} {response : ListResponse} (hp : c.procs[i]? = some p) (hop : p.op = .list q)
    (ha : c.answer i = some (.ok (.listed response))) :
    ∃ items, (i, Note.listed items) ∈ c.world.log ∧ response.items ⊆ items := by
  have := tracked.answer hp ha
  rw [hop] at this
  obtain ⟨items, hnotes, hsub⟩ := this
  exact ⟨items, mem_ownNotes.1 (by simp [hnotes]), hsub⟩

end ModerationRuns
