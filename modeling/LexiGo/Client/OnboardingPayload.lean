import LexiGo.Client.ProgressPayload
import LexiGo.Onboarding.OnboardingRuns

/-! The answers about the onboarding as the server writes them, and what the client checks
of them before it shows the next word. -/
namespace OnboardingPayload
open ClientValues OnboardingSchema OnboardingService OnboardingMachine OnboardingRuns
open RowStore TransactionProgram Interleaving RunSoundness
open DiagnosticRefinement (Snapped)
open OnboardingRefinement (OnboardingWorld onboardingContract)
open OnboardingRepository (kindText)
open ProgressPayload (count isIntegral isText isOneOf atMost)
open LearningSchema (UserId WordId)

section Writing

def stateText : OnboardingState → String
  | .notStarted => "not_started"
  | .inProgress => "in_progress"
  | .completed => "completed"
  | .skipped => "skipped"

def promptJson (prompt : DiagnosticPrompt) : JsValue :=
  record [("position", some (count prompt.position)), ("id", some (count prompt.wordId)),
    ("kind", some (.string (kindText prompt.kind))), ("lemma", some (.string prompt.lemmaText)),
    ("phonetic", some (.string prompt.phonetic)),
    ("partOfSpeech", some (.string prompt.partOfSpeech)), ("topic", some (.string prompt.topic))]

def snapshotJson (snapshot : OnboardingSnapshot) : JsValue :=
  record [("state", some (.string (stateText snapshot.state))),
    ("total", some (count snapshot.total)), ("marked", some (count snapshot.marked)),
    ("current", snapshot.current.map promptJson)]

def revealJson (reveal : DiagnosticReveal) : JsValue :=
  record [("id", some (count reveal.wordId)), ("translation", some (.string reveal.translation))]

def markResultJson (result : DiagnosticMarkResult) : JsValue :=
  record [("marked", some (count result.marked)), ("total", some (count result.total)),
    ("completeReady", some (.boolean result.completeReady)),
    ("reveal", some (revealJson result.reveal))]

end Writing

section Reading

def onboardingStates : List String := ["not_started", "in_progress", "completed", "skipped"]

def isNonNegativeInteger (value : JsValue) : Bool :=
  (number value).any fun x => isIntegral x && nonNegative x

def isPositiveInteger (value : JsValue) : Bool :=
  (number value).any fun x => isIntegral x && lessThan (.integer 0) x

def isBoolean : JsValue → Bool
  | .boolean _ => true
  | _ => false

def isDiagnosticPrompt (value : JsValue) : Bool :=
  isRecord value && isNonNegativeInteger (property "position" value) &&
    isPositiveInteger (property "id" value) && isText (property "kind" value) &&
    isText (property "lemma" value) && isText (property "phonetic" value) &&
    isText (property "partOfSpeech" value) && isText (property "topic" value)

def isDiagnosticReveal (value : JsValue) : Bool :=
  isRecord value && isPositiveInteger (property "id" value) && isText (property "translation" value)

def isOnboardingSnapshotPayload (value : JsValue) : Bool :=
  let state := property "state" value
  let total := property "total" value
  let marked := property "marked" value
  let current := property "current" value
  if !isRecord value || !isText state || !isOneOf onboardingStates state ||
      !isNonNegativeInteger total || !isNonNegativeInteger marked || !atMost marked total then false
  else if !isUndefined current && !isDiagnosticPrompt current then false
  else if text state ≠ some "in_progress" && !isUndefined current then false
  else true

def isDiagnosticMarkResultPayload (value : JsValue) : Bool :=
  isRecord value && isNonNegativeInteger (property "marked" value) &&
    isNonNegativeInteger (property "total" value) &&
    atMost (property "marked" value) (property "total" value) &&
    isBoolean (property "completeReady" value) && isDiagnosticReveal (property "reveal" value)

end Reading

@[simp] theorem nonNegative_count (n : Nat) : isNonNegativeInteger (count n) = true :=
  decide_eq_true (Int.natCast_nonneg n)

theorem positive_count {n : Nat} (h : 0 < n) : isPositiveInteger (count n) = true := by
  refine decide_eq_true ?_
  change ((0 : Int) : Rat) < ((n : Int) : Rat)
  exact Rat.intCast_lt_intCast.2 (Int.natCast_pos.2 h)

theorem stateText_known (state : OnboardingState) :
    isOneOf onboardingStates (.string (stateText state)) = true := by
  cases state <;> decide

theorem prompt_accepted {prompt : DiagnosticPrompt} (h : 0 < prompt.wordId) :
    isDiagnosticPrompt (promptJson prompt) = true := by
  simp [isDiagnosticPrompt, promptJson, property, record, isRecord, positive_count h, isText, text]

/-- A snapshot is accepted if its counts fit and a word is shown in the course of the
diagnostic only. -/
theorem snapshot_accepted {snapshot : OnboardingSnapshot} (hle : snapshot.marked ≤ snapshot.total)
    (hcurrent : ∀ prompt, snapshot.current = some prompt →
      snapshot.state = .inProgress ∧ 0 < prompt.wordId) :
    isOnboardingSnapshotPayload (snapshotJson snapshot) = true := by
  have hatMost : atMost (count snapshot.marked) (count snapshot.total) = true := by
    rw [ProgressPayload.atMost_count]
    exact decide_eq_true hle
  have hstate := stateText_known snapshot.state
  cases hprompt : snapshot.current with
  | none =>
    simp [isOnboardingSnapshotPayload, snapshotJson, hprompt, property, record, isRecord, isText,
      text, hstate, hatMost, isUndefined]
  | some prompt =>
    obtain ⟨hin, hpos⟩ := hcurrent prompt hprompt
    have haccepted := prompt_accepted hpos
    rw [hin] at hstate
    simp [isOnboardingSnapshotPayload, snapshotJson, hprompt, hin, property, record, isRecord, isText,
      text, hstate, hatMost, haccepted]
    exact .inl rfl

theorem markResult_accepted {result : DiagnosticMarkResult} (hle : result.marked ≤ result.total)
    (hword : 0 < result.reveal.wordId) :
    isDiagnosticMarkResultPayload (markResultJson result) = true := by
  have hatMost : atMost (count result.marked) (count result.total) = true := by
    rw [ProgressPayload.atMost_count]
    exact decide_eq_true hle
  simp [isDiagnosticMarkResultPayload, markResultJson, revealJson, isDiagnosticReveal, property,
    record, isRecord, hatMost, isBoolean, positive_count hword, isText, text]

variable {unicode : GoText.Unicode} {digest : UserId → WordId → Nat}
variable {allow : Nat → List Note → OnboardingWorld → OnboardingWorld → Prop} {db : OnboardingDb}
variable {c : OnboardingConfig}

/-- The words that a request may find are those that there were from the beginning. -/
theorem born_words (hdb : OnboardingMachine.Sound (view db))
    (h : Run (OnboardingService.program unicode digest) allow (start db) c) {i : Nat}
    {p : Proc Row Note Op Response} (hp : c.procs[i]? = some p) {x : WordId}
    (hx : ((view p.born.db).word x).isSome = true) : ((view db).word x).isSome = true := by
  have hist := run_origin onboarding_sound h (safe_init hdb)
    (fun i p hp => by cases hp) i p hp
  refine history_keeps (P := fun w => ((view w.db).word x).isSome = true →
    ((view db).word x).isSome = true) hist ?_ id hx
  rintro v v' ⟨i, notes, hcommit⟩ hv hx'
  have hmoves : Moves notes (view v.db) (view v'.db) := hcommit.step
  exact hv (hmoves.word_back hx')

/-- Whatever the requests do to each other, the client takes every answer for what it is: the
snapshots and the results of marks pass its checks, a mark is answered for the word that was
marked, and a diagnostic that has been completed is shown as completed, with no mark missing. -/
theorem answers_accepted (hdb : OnboardingMachine.Sound (view db))
    (hwords : ∀ x, ((view db).word x).isSome = true → 0 < x)
    (h : Run (OnboardingService.program unicode digest) allow (start db) c) {i : Nat}
    {p : Proc Row Note Op Response} (hp : c.procs[i]? = some p) :
    (∀ snapshot, c.answer i = some (.ok (.snapshot snapshot)) →
      isOnboardingSnapshotPayload (snapshotJson snapshot) = true ∧
      (∀ u, p.op = .complete u → snapshot.state = .completed) ∧
      (snapshot.state = .completed → snapshot.marked = snapshot.total)) ∧
    ∀ result, c.answer i = some (.ok (.marked result)) →
      isDiagnosticMarkResultPayload (markResultJson result) = true ∧
      (∃ u text, p.op = .mark u result.reveal.wordId text) ∧
      (result.completeReady = true ↔ result.marked = result.total) := by
  have safe := (run_history hdb h).1
  refine ⟨fun snapshot hanswer => ?_, fun result hanswer => ?_⟩
  · obtain ⟨hsnapped, hcomplete⟩ := safe.answer hp hanswer
    refine ⟨snapshot_accepted hsnapped.marked fun prompt hprompt => ?_, hcomplete, hsnapped.finished⟩
    obtain ⟨hin, -, hword⟩ := hsnapped.current prompt hprompt
    exact ⟨hin, hwords _ (born_words hdb h hp hword)⟩
  · obtain ⟨u, wordID, text, selfMark, hop, hpos, -, -, hreveal, -, hle, -, hready⟩ :=
      safe.answer hp hanswer
    have hid : (result.reveal.wordId : Int) = wordID := by
      rw [hreveal]
      exact Int.toNat_of_nonneg (Int.le_of_lt hpos)
    have hword : 0 < result.reveal.wordId := Int.natCast_pos.1 (hid ▸ hpos)
    refine ⟨markResult_accepted hle hword, ⟨u, text, ?_⟩, hready⟩
    rw [hid]
    exact hop

theorem oneWord_positive (x : WordId) (h : ((view oneWord).word x).isSome = true) : 0 < x := by
  rcases Nat.eq_zero_or_pos x with rfl | hpos
  · cases h
  · exact hpos

theorem oneWord_accepted : ∃ (c : OnboardingConfig) (result : DiagnosticMarkResult),
    c.answer 1 = some (.ok (.marked result)) ∧
    isDiagnosticMarkResultPayload (markResultJson result) = true := by
  obtain ⟨c, p, hrun, hp, ha⟩ := oneWord_marks
  have haccepted := (answers_accepted (sound_of_none oneWord_none) oneWord_positive hrun hp).2 _ ha
  exact ⟨c, _, ha, haccepted.1⟩

end OnboardingPayload
