import LexiGo.StepHistories
import Mathlib.Algebra.GroupWithZero.Nat
import Mathlib.Data.List.Perm.Subperm

/-! The recorder of a learner's pronunciation, with the browser around it. A media stream is
known by the token of the start that asked for it, an object URL by its number, and so is the
promise of a stop. Every handler runs to its end before the next one; what the browser makes
of a call that may throw comes with the step. -/
namespace PronunciationRecorder
open StepHistories

inductive RecorderState
  | unsupported | idle | requesting | recording | stopping | recorded | denied | error
  deriving DecidableEq

inductive RecorderErrorCode
  | permissionDenied | recordingFailed | unsupported
  deriving DecidableEq

structure PronunciationRecording where
  url : Nat
  mimeType : String
  size : Nat
  durationMs : Int
  deriving DecidableEq

structure Snapshot where
  state : RecorderState
  recording : Option PronunciationRecording
  errorCode : Option RecorderErrorCode
  deriving DecidableEq

def recordingMimeTypes : List String :=
  ["audio/webm;codecs=opus", "audio/webm", "audio/mp4", "audio/ogg;codecs=opus"]

/-- The probe gives no answer where it throws. -/
def selectRecordingMimeType (isMimeTypeSupported : String → Option Bool) : Option String :=
  recordingMimeTypes.find? fun mimeType => isMimeTypeSupported mimeType = some true

/-- What becomes of a request for the microphone. -/
inductive MediaAnswer
  | granted
  | refused (denied : Bool)
  deriving DecidableEq

/-- A start that waits for the microphone; its answer may have come already. -/
structure Acquisition where
  token : Nat
  mimeType : String
  answer : Option MediaAnswer
  deriving DecidableEq

structure MediaRecorder where
  token : Nat
  mimeType : String
  deriving DecidableEq

/-- The fields of the recorder, then the browser: the starts that wait, the streams that are
live, how many URLs there have been and which are revoked, how many promises of a stop and
which are settled. Starts below `cancelledBelow` came before the last cancel or dispose. -/
structure State where
  snapshot : Snapshot
  stream : Option Nat
  recorder : Option MediaRecorder
  chunks : List Nat
  startedAt : Int
  timeout : Bool
  recordingURL : Option Nat
  lifecycle : Nat
  permissionRequestPending : Bool
  disposed : Bool
  stopPromise : Option Nat
  resolveStop : Option Nat
  acquisitions : List Acquisition
  live : List Nat
  created : Nat
  revoked : List Nat
  promises : Nat
  settled : List (Nat × Snapshot)
  cancelledBelow : Nat
  deriving DecidableEq

def initialSnapshot (supported : Bool) : Snapshot :=
  if supported then ⟨.idle, none, none⟩ else ⟨.unsupported, none, some .unsupported⟩

/-- A new recorder. -/
def initial (supported : Bool) : State where
  snapshot := initialSnapshot supported
  stream := none
  recorder := none
  chunks := []
  startedAt := 0
  timeout := false
  recordingURL := none
  lifecycle := 0
  permissionRequestPending := false
  disposed := false
  stopPromise := none
  resolveStop := none
  acquisitions := []
  live := []
  created := 0
  revoked := []
  promises := 0
  settled := []
  cancelledBelow := 0

def publish (snapshot : Snapshot) (s : State) : State := { s with snapshot := snapshot }

def publishError (s : State) : State :=
  publish ⟨.error, s.snapshot.recording, some .recordingFailed⟩ s

def stopMediaStream (stream : Option Nat) (s : State) : State :=
  { s with live := s.live.filter fun t => stream ≠ some t }

def detachRecorder (s : State) : State := { s with recorder := none }

def cancelTimeout (s : State) : State := { s with timeout := false }

def revokeRecordingURL (s : State) : State :=
  { s with
    recordingURL := none
    revoked := s.recordingURL.elim s.revoked fun url => url :: s.revoked }

def resolvePendingStop (snapshot : Snapshot) (s : State) : State :=
  { s with
    resolveStop := none
    stopPromise := none
    settled := s.resolveStop.elim s.settled fun promise => (promise, snapshot) :: s.settled }

/-- The stream is stopped and the chunks are dropped. -/
def releaseStream (s : State) : State := { stopMediaStream s.stream s with stream := none, chunks := [] }

def cancel (s : State) : State :=
  let idle : Snapshot := ⟨.idle, none, none⟩
  let s := { s with lifecycle := s.lifecycle + 1, cancelledBelow := s.lifecycle + 1 }
  publish idle (revokeRecordingURL (resolvePendingStop idle (releaseStream (detachRecorder (cancelTimeout s)))))

def failActiveRecording (s : State) : State :=
  let s := { s with lifecycle := s.lifecycle + 1 }
  let s := publishError (releaseStream (detachRecorder (cancelTimeout s)))
  resolvePendingStop s.snapshot s

def clearRecording (s : State) : State :=
  let s := revokeRecordingURL s
  if s.snapshot.recording.isSome then publish ⟨.idle, none, none⟩ s else s

def dispose (s : State) : State :=
  if s.disposed then { s with cancelledBelow := s.lifecycle + 1 }
  else { cancel s with disposed := true }

/-- `startRecording` until it waits for the microphone. -/
def startRecording (isMimeTypeSupported : String → Option Bool) (s : State) : State :=
  if s.disposed then publishError s
  else if s.snapshot.state = .unsupported then s
  else if s.permissionRequestPending || s.recorder.isSome then s
  else
    match selectRecordingMimeType isMimeTypeSupported with
    | none => publish ⟨.unsupported, none, some .unsupported⟩ s
    | some mimeType =>
      publish ⟨.requesting, s.snapshot.recording, none⟩
        { s with
          lifecycle := s.lifecycle + 1
          permissionRequestPending := true
          acquisitions := ⟨s.lifecycle + 1, mimeType, none⟩ :: s.acquisitions }

/-- Whether `createRecorder` and `start` return, and the time. -/
structure RecorderCalls where
  creates : Bool
  starts : Bool
  now : Int

/-- `startRecording` from the answer on. -/
def resumeStart (calls : RecorderCalls) (a : Acquisition) (answer : MediaAnswer) (s : State) : State :=
  let s := { s with permissionRequestPending := false, acquisitions := s.acquisitions.erase a }
  match answer with
  | .refused denied =>
    if a.token ≠ s.lifecycle || s.disposed then s
    else if denied then publish ⟨.denied, s.snapshot.recording, some .permissionDenied⟩ s
    else publishError s
  | .granted =>
    if a.token ≠ s.lifecycle || s.disposed then stopMediaStream (some a.token) s
    else if !calls.creates then publishError (stopMediaStream (some a.token) s)
    else
      let s := { revokeRecordingURL s with
        stream := some a.token
        recorder := some ⟨a.token, a.mimeType⟩
        chunks := []
        startedAt := calls.now }
      if !calls.starts then failActiveRecording s
      else { publish ⟨.recording, none, none⟩ s with timeout := true }

/-- `stops` says whether the recorder's own `stop` returns. -/
def stopRecording (stops : Bool) (s : State) : State :=
  if s.recorder.isNone || s.snapshot.state ≠ .recording then
    { s with promises := s.promises + 1, settled := (s.promises, s.snapshot) :: s.settled }
  else if s.stopPromise.isSome then s
  else
    let s := { publish ⟨.stopping, none, none⟩ s with
      promises := s.promises + 1
      resolveStop := some s.promises
      stopPromise := some s.promises }
    if stops then s else failActiveRecording s

/-- `creates` says whether an object URL is made. -/
def finishRecording (maxDurationMs : Int) (creates : Bool) (now : Int) (mimeType : String) (s : State) :
    State :=
  let durationMs := max 0 (min maxDurationMs (now - s.startedAt))
  let size := s.chunks.sum
  let s := releaseStream (detachRecorder (cancelTimeout s))
  let s :=
    if size = 0 || !creates then publishError s
    else
      publish ⟨.recorded, some ⟨s.created, mimeType, size, durationMs⟩, none⟩
        { s with created := s.created + 1, recordingURL := some s.created }
  resolvePendingStop s.snapshot s

inductive Act
  | startRecording (isMimeTypeSupported : String → Option Bool)
  | answer (token : Nat) (answer : MediaAnswer)
  | resume (token : Nat) (calls : RecorderCalls)
  | stopRecording (stops : Bool)
  | timeUp (stops : Bool)
  | clearRecording
  | cancel
  | dispose
  | dataAvailable (token size : Nat)
  | recorderError (token : Nat)
  | recorderStop (token : Nat) (creates : Bool) (now : Int)
  | trackEnded (token : Nat)

/-- The recorder whose events are heard. -/
def heard (s : State) (token : Nat) : Option MediaRecorder :=
  s.recorder.filter fun recorder => recorder.token = token && token = s.lifecycle

def step (maxDurationMs : Int) (s : State) : Act → State
  | .startRecording isMimeTypeSupported => startRecording isMimeTypeSupported s
  | .answer token answer =>
    match s.acquisitions.find? fun a => a.token = token && a.answer.isNone with
    | none => s
    | some a =>
      { s with
        acquisitions := { a with answer := some answer } :: s.acquisitions.erase a
        live := if answer = .granted then token :: s.live else s.live }
  | .resume token calls =>
    match s.acquisitions.find? fun a => a.token = token && a.answer.isSome with
    | none => s
    | some a => a.answer.elim s fun answer => resumeStart calls a answer s
  | .stopRecording stops => stopRecording stops s
  | .timeUp stops => if s.timeout then stopRecording stops s else s
  | .clearRecording => clearRecording s
  | .cancel => cancel s
  | .dispose => dispose s
  | .dataAvailable token size =>
    match heard s token with
    | none => s
    | some _ => if size = 0 then s else { s with chunks := s.chunks ++ [size] }
  | .recorderError token =>
    match heard s token with
    | none => s
    | some _ => failActiveRecording s
  | .recorderStop token creates now =>
    match heard s token with
    | none => s
    | some recorder => finishRecording maxDurationMs creates now recorder.mimeType s
  | .trackEnded token => stopMediaStream (some token) s

/-- What the recorder owes to the page: at most one live stream; one that belongs to a start
before the last cancel or dispose lives only until that start goes on; no revoked URL is
published; every URL is held or revoked; no promise is left open once the state has left
`stopping`. -/
structure Disciplined (s : State) : Prop where
  oneLive : s.live.length ≤ 1
  cancelled : ∀ t ∈ s.live, t < s.cancelledBelow → ∃ a ∈ s.acquisitions, a.token = t
  published : ∀ recording ∈ s.snapshot.recording, recording.url ∉ s.revoked
  urls : ∀ url < s.created, s.recordingURL = some url ∨ url ∈ s.revoked
  stops : s.snapshot.state ≠ .stopping → ∀ promise < s.promises, promise ∈ s.settled.map (·.1)

/-- `start` does not throw while a recording is published. -/
def StartsCleanly (s : State) : Act → Prop
  | .resume token calls =>
    calls.creates = true → calls.starts = false → s.disposed = false → token = s.lifecycle →
      (∃ a ∈ s.acquisitions, a.token = token ∧ a.answer = some .granted) →
        s.snapshot.recording = none
  | _ => True

structure Urls (created : Nat) (held : Option Nat) (revoked : List Nat)
    (shown : Option PronunciationRecording) : Prop where
  owned : ∀ url < created, held = some url ∨ url ∈ revoked
  held_lt : ∀ url ∈ held, url < created
  revoked_lt : ∀ url ∈ revoked, url < created
  shown_lt : ∀ recording ∈ shown, recording.url < created

def Settling (promises : Nat) (settled : List (Nat × Snapshot)) (resolveStop : Option Nat) : Prop :=
  ∀ promise < promises, promise ∈ settled.map (·.1) ∨ resolveStop = some promise

/-- At most one start waits, and no other stream is live. -/
inductive Waiting : List Acquisition → Bool → List Nat → Nat → Prop
  | nobody (lifecycle : Nat) : Waiting [] false [] lifecycle
  | asked (a : Acquisition) {lifecycle : Nat} (h : a.token ≤ lifecycle) : Waiting [a] true [] lifecycle
  | granted (a : Acquisition) {lifecycle : Nat} (h : a.token ≤ lifecycle)
      (hanswer : a.answer = some .granted) : Waiting [a] true [a.token] lifecycle

structure Quiet (s : State) : Prop where
  recorder : s.recorder = none
  stream : s.stream = none
  resolveStop : s.resolveStop = none
  stopPromise : s.stopPromise = none
  notRecording : s.snapshot.state ≠ .recording
  notStopping : s.snapshot.state ≠ .stopping
  waiting : Waiting s.acquisitions s.permissionRequestPending s.live s.lifecycle

/-- A stop of a recorder that is at work has been asked for, or not yet. -/
inductive Stopping : RecorderState → Option Nat → Option Nat → Prop
  | no : Stopping .recording none none
  | yes (promise : Nat) : Stopping .stopping (some promise) (some promise)

structure Capturing (s : State) : Prop where
  recorder : ∀ r ∈ s.recorder, r.token = s.lifecycle
  stream : s.stream = some s.lifecycle
  held : s.recordingURL = none
  shown : s.snapshot.recording = none
  disposed : s.disposed = false
  nobody : s.acquisitions = [] ∧ s.permissionRequestPending = false
  live : s.live ⊆ [s.lifecycle] ∧ s.live.Nodup
  stopping : Stopping s.snapshot.state s.resolveStop s.stopPromise

/-- The recorder is at rest, perhaps with a start that waits, or at work. -/
structure Steady (s : State) : Prop where
  urls : Urls s.created s.recordingURL s.revoked s.snapshot.recording
  promises : Settling s.promises s.settled s.resolveStop
  cancelled : s.disposed = false → s.cancelledBelow ≤ s.lifecycle
  phase : Quiet s ∨ (s.recorder.isSome = true ∧ Capturing s)

theorem steady_initial (supported : Bool) : Steady (initial supported) where
  urls := ⟨nofun, nofun, nofun, by cases supported <;> exact nofun⟩
  promises := nofun
  cancelled := fun _ => Nat.le_refl _
  phase := .inl ⟨rfl, rfl, rfl, rfl, by cases supported <;> decide, by cases supported <;> decide, .nobody _⟩

theorem Waiting.later {acquisitions : List Acquisition} {pending : Bool} {live : List Nat}
    {lifecycle lifecycle' : Nat} (h : Waiting acquisitions pending live lifecycle)
    (hle : lifecycle ≤ lifecycle') : Waiting acquisitions pending live lifecycle' := by
  cases h with
  | nobody => exact .nobody _
  | asked a h => exact .asked a (Nat.le_trans h hle)
  | granted a h hanswer => exact .granted a (Nat.le_trans h hle) hanswer

theorem Urls.hidden {created : Nat} {held : Option Nat} {revoked : List Nat}
    {shown : Option PronunciationRecording} (h : Urls created held revoked shown) :
    Urls created held revoked none := ⟨h.owned, h.held_lt, h.revoked_lt, nofun⟩

theorem Urls.revoke {created : Nat} {held : Option Nat} {revoked : List Nat}
    {shown : Option PronunciationRecording} (h : Urls created held revoked shown) :
    Urls created none (held.elim revoked fun url => url :: revoked) shown := by
  cases held with
  | none => exact h
  | some url =>
    refine ⟨fun u hu => .inr ?_, nofun, fun u hu => ?_, h.shown_lt⟩
    · rcases h.owned u hu with heq | hmem
      · cases heq
        exact List.mem_cons_self
      · exact List.mem_cons_of_mem _ hmem
    · rcases List.mem_cons.1 hu with rfl | hmem
      · exact h.held_lt u rfl
      · exact h.revoked_lt u hmem

theorem Urls.make {created : Nat} {revoked : List Nat} {shown : Option PronunciationRecording}
    (h : Urls created none revoked shown) (mimeType : String) (size : Nat) (durationMs : Int) :
    Urls (created + 1) (some created) revoked (some ⟨created, mimeType, size, durationMs⟩) := by
  refine ⟨fun url hurl => ?_, fun url hurl => ?_, fun url hurl => ?_, fun recording hrecording => ?_⟩
  · rcases Nat.lt_succ_iff_lt_or_eq.1 hurl with hlt | rfl
    · exact .inr ((h.owned url hlt).resolve_left nofun)
    · exact .inl rfl
  · cases hurl
    exact Nat.lt_succ_self _
  · exact Nat.lt_succ_of_lt (h.revoked_lt url hurl)
  · cases hrecording
    exact Nat.lt_succ_self _

theorem Settling.resolve {promises : Nat} {settled : List (Nat × Snapshot)} {resolveStop : Option Nat}
    (h : Settling promises settled resolveStop) (snapshot : Snapshot) :
    Settling promises (resolveStop.elim settled fun promise => (promise, snapshot) :: settled) none := by
  intro promise hpromise
  cases resolveStop with
  | none => exact h promise hpromise
  | some p =>
    refine .inl ?_
    rcases h promise hpromise with hmem | heq
    · exact List.mem_cons_of_mem _ hmem
    · cases heq
      exact List.mem_cons_self

/-- The recorder without its device. -/
def released (s : State) : State := releaseStream (detachRecorder (cancelTimeout s))

/-- What is live before a device is let go: the stream of a start that waits, or the device's. -/
def OnlyDevice (s : State) : Prop :=
  s.stream = none ∧ Waiting s.acquisitions s.permissionRequestPending s.live s.lifecycle ∨
    s.stream = some s.lifecycle ∧ s.acquisitions = [] ∧ s.permissionRequestPending = false ∧
      s.live ⊆ [s.lifecycle]

theorem Steady.onlyDevice {s : State} (h : Steady s) : OnlyDevice s := by
  rcases h.phase with hquiet | ⟨-, hcapturing⟩
  · exact .inl ⟨hquiet.stream, hquiet.waiting⟩
  · exact .inr ⟨hcapturing.stream, hcapturing.nobody.1, hcapturing.nobody.2, hcapturing.live.1⟩

/-- Whatever the recorder was doing, no stream of it is live once it has let its device go. -/
theorem waiting_released {s : State} (h : OnlyDevice s) :
    Waiting s.acquisitions s.permissionRequestPending (released s).live s.lifecycle := by
  rcases h with ⟨hstream, hwaiting⟩ | ⟨hstream, hnobody, hpending, hlive⟩
  · have hsame : (released s).live = s.live := by
      refine List.filter_eq_self.2 fun t _ => ?_
      have hnone : (detachRecorder (cancelTimeout s)).stream = none := hstream
      rw [hnone]
      rfl
    rw [hsame]
    exact hwaiting
  · have hnone : (released s).live = [] := by
      refine List.filter_eq_nil_iff.2 fun t ht => ?_
      have hsome : (detachRecorder (cancelTimeout s)).stream = some s.lifecycle := hstream
      rw [hsome, List.mem_singleton.1 (hlive ht)]
      simp
    rw [hnone, hnobody, hpending]
    exact .nobody _

theorem steady_cancel {s : State} (h : Steady s) : Steady (cancel s) where
  urls := h.urls.hidden.revoke
  promises := h.promises.resolve _
  cancelled := fun _ => Nat.le_refl _
  phase := by
    refine .inl ⟨rfl, rfl, rfl, rfl, nofun, nofun, ?_⟩
    exact (waiting_released h.onlyDevice).later (Nat.le_succ _)

theorem steady_fail {s : State} (hurls : Urls s.created s.recordingURL s.revoked s.snapshot.recording)
    (hpromises : Settling s.promises s.settled s.resolveStop)
    (hcancelled : s.disposed = false → s.cancelledBelow ≤ s.lifecycle) (hdevice : OnlyDevice s) :
    Steady (failActiveRecording s) where
  urls := hurls
  promises := hpromises.resolve _
  cancelled := fun hdisposed => Nat.le_succ_of_le (hcancelled hdisposed)
  phase := by
    refine .inl ⟨rfl, rfl, rfl, rfl, nofun, nofun, ?_⟩
    exact (waiting_released hdevice).later (Nat.le_succ _)

theorem Steady.capturing {s : State} (h : Steady s) (hrecorder : s.recorder.isSome = true) :
    Capturing s := by
  rcases h.phase with hquiet | ⟨-, hcapturing⟩
  · rw [hquiet.recorder] at hrecorder
    cases hrecorder
  · exact hcapturing

theorem steady_clear {s : State} (h : Steady s) : Steady (clearRecording s) := by
  unfold clearRecording
  dsimp only
  split
  · next hshown =>
    rcases h.phase with hquiet | ⟨-, hcapturing⟩
    · exact ⟨h.urls.hidden.revoke, h.promises, h.cancelled, .inl ⟨hquiet.recorder, hquiet.stream,
        hquiet.resolveStop, hquiet.stopPromise, nofun, nofun, hquiet.waiting⟩⟩
    · have hnone : (revokeRecordingURL s).snapshot.recording = none := hcapturing.shown
      rw [hnone] at hshown
      cases hshown
  · refine ⟨h.urls.revoke, h.promises, h.cancelled, ?_⟩
    rcases h.phase with hquiet | ⟨hrecorder, hcapturing⟩
    · exact .inl ⟨hquiet.recorder, hquiet.stream, hquiet.resolveStop, hquiet.stopPromise,
        hquiet.notRecording, hquiet.notStopping, hquiet.waiting⟩
    · exact .inr ⟨hrecorder, hcapturing.recorder, hcapturing.stream, rfl, hcapturing.shown,
        hcapturing.disposed, hcapturing.nobody, hcapturing.live, hcapturing.stopping⟩

theorem steady_dispose {s : State} (h : Steady s) : Steady (dispose s) := by
  unfold dispose
  split
  · next hdisposed =>
    rcases h.phase with hquiet | ⟨-, hcapturing⟩
    · exact ⟨h.urls, h.promises, fun hopen => absurd (hdisposed.symm.trans hopen) nofun,
        .inl ⟨hquiet.recorder, hquiet.stream, hquiet.resolveStop, hquiet.stopPromise,
          hquiet.notRecording, hquiet.notStopping, hquiet.waiting⟩⟩
    · rw [hcapturing.disposed] at hdisposed
      cases hdisposed
  · have hcancelled := steady_cancel h
    refine ⟨hcancelled.urls, hcancelled.promises, nofun, .inl ⟨rfl, rfl, rfl, rfl, nofun, nofun, ?_⟩⟩
    exact (waiting_released h.onlyDevice).later (Nat.le_succ _)

/-- A snapshot that shows no other recording, while no recorder is at work. -/
theorem steady_publish {s : State} (h : Steady s) (hquiet : Quiet s) {snapshot : Snapshot}
    (hshown : ∀ recording ∈ snapshot.recording, recording ∈ s.snapshot.recording)
    (hrecording : snapshot.state ≠ .recording) (hstopping : snapshot.state ≠ .stopping) :
    Steady (publish snapshot s) where
  urls := ⟨h.urls.owned, h.urls.held_lt, h.urls.revoked_lt, fun r hr => h.urls.shown_lt r (hshown r hr)⟩
  promises := h.promises
  cancelled := h.cancelled
  phase := .inl ⟨hquiet.recorder, hquiet.stream, hquiet.resolveStop, hquiet.stopPromise, hrecording,
    hstopping, hquiet.waiting⟩

theorem steady_start {s : State} (h : Steady s) (isMimeTypeSupported : String → Option Bool) :
    Steady (startRecording isMimeTypeSupported s) := by
  have hquiet : s.recorder.isSome = false → Quiet s := by
    intro hrecorder
    rcases h.phase with hquiet | ⟨hsome, -⟩
    · exact hquiet
    · rw [hsome] at hrecorder
      cases hrecorder
  unfold startRecording
  split
  · next hdisposed =>
    rcases h.phase with hquiet | ⟨-, hcapturing⟩
    · exact steady_publish h hquiet (fun _ hr => hr) nofun nofun
    · rw [hcapturing.disposed] at hdisposed
      cases hdisposed
  split
  · exact h
  split
  · exact h
  · next hidle =>
    rw [Bool.not_eq_true, Bool.or_eq_false_iff] at hidle
    have hquiet := hquiet hidle.2
    split
    · exact steady_publish h hquiet nofun nofun nofun
    · next mimeType =>
      have hwaiting := hquiet.waiting
      rw [hidle.1] at hwaiting
      have hnobody : s.acquisitions = [] ∧ s.live = [] := by
        generalize s.acquisitions = acquisitions, s.live = live at hwaiting
        cases hwaiting
        exact ⟨rfl, rfl⟩
      refine ⟨h.urls, h.promises, fun hopen => Nat.le_succ_of_le (h.cancelled hopen), .inl
        ⟨hquiet.recorder, hquiet.stream, hquiet.resolveStop, hquiet.stopPromise, nofun, nofun, ?_⟩⟩
      dsimp only [publish]
      rw [hnobody.1, hnobody.2]
      exact .asked _ (Nat.le_refl _)

/-- A start that waits does so alone, and the recorder is at rest. -/
theorem Steady.waits {s : State} (h : Steady s) {a : Acquisition} (ha : a ∈ s.acquisitions) :
    Quiet s ∧ s.acquisitions = [a] ∧ s.permissionRequestPending = true ∧ a.token ≤ s.lifecycle ∧
      (s.live ⊆ [a.token] ∧ s.live.Nodup) ∧ (a.answer ≠ some .granted → s.live = []) := by
  rcases h.phase with hquiet | ⟨-, hcapturing⟩
  · refine ⟨hquiet, ?_⟩
    have hwaiting := hquiet.waiting
    generalize s.acquisitions = acquisitions, s.permissionRequestPending = pending, s.live = live
      at hwaiting ha
    cases hwaiting with
    | nobody => exact absurd ha List.not_mem_nil
    | asked b hle =>
      cases List.mem_singleton.1 ha
      exact ⟨rfl, rfl, hle, ⟨List.nil_subset _, List.nodup_nil⟩, fun _ => rfl⟩
    | granted b hle hanswer =>
      cases List.mem_singleton.1 ha
      exact ⟨rfl, rfl, hle, ⟨List.Subset.refl _, List.pairwise_singleton _ _⟩,
        fun hnot => absurd hanswer hnot⟩
  · rw [hcapturing.nobody.1] at ha
    exact absurd ha List.not_mem_nil

theorem filter_none {live : List Nat} {t : Nat} (h : live ⊆ [t]) :
    (live.filter fun u => some t ≠ some u) = [] := by
  refine List.filter_eq_nil_iff.2 fun u hu => ?_
  rw [List.mem_singleton.1 (h hu)]
  simp

theorem steady_answer {s : State} (h : Steady s) {a : Acquisition} (ha : a ∈ s.acquisitions)
    (hasked : a.answer = none) (answer : MediaAnswer) :
    Steady { s with
      acquisitions := { a with answer := some answer } :: s.acquisitions.erase a
      live := if answer = .granted then a.token :: s.live else s.live } := by
  obtain ⟨hquiet, hone, hpending, hle, -, hlive⟩ := h.waits ha
  refine ⟨h.urls, h.promises, h.cancelled, .inl ⟨hquiet.recorder, hquiet.stream, hquiet.resolveStop,
    hquiet.stopPromise, hquiet.notRecording, hquiet.notStopping, ?_⟩⟩
  have hnone : s.live = [] := by
    refine hlive ?_
    rw [hasked]
    exact nofun
  have hrest : s.acquisitions.erase a = [] := by
    rw [hone]
    simp
  dsimp only
  rw [hrest, hnone, hpending]
  split
  · next hgranted => exact .granted _ hle (congrArg some hgranted)
  · exact .asked _ hle

theorem steady_resume {s : State} (h : Steady s) {a : Acquisition} (ha : a ∈ s.acquisitions)
    {answer : MediaAnswer} (hanswer : a.answer = some answer) (calls : RecorderCalls) :
    Steady (resumeStart calls a answer s) := by
  obtain ⟨hquiet, hone, -, hle, ⟨hlive, hnodup⟩, hrefused⟩ := h.waits ha
  have hrest : s.acquisitions.erase a = [] := by
    rw [hone]
    simp
  have hquiet' : ∀ live, live = [] → Quiet { s with
      permissionRequestPending := false, acquisitions := s.acquisitions.erase a, live := live } := by
    intro live hnone
    refine ⟨hquiet.recorder, hquiet.stream, hquiet.resolveStop, hquiet.stopPromise,
      hquiet.notRecording, hquiet.notStopping, ?_⟩
    dsimp only
    rw [hrest, hnone]
    exact .nobody _
  have hsteady : ∀ live, live = [] → Steady { s with
      permissionRequestPending := false, acquisitions := s.acquisitions.erase a, live := live } :=
    fun live hnone => ⟨h.urls, h.promises, h.cancelled, .inl (hquiet' live hnone)⟩
  unfold resumeStart
  cases answer with
  | refused denied =>
    have hnone : s.live = [] := by
      refine hrefused ?_
      rw [hanswer]
      exact nofun
    dsimp only
    split
    · exact hsteady s.live hnone
    split
    · exact steady_publish (hsteady s.live hnone) (hquiet' s.live hnone) (fun _ hr => hr) nofun nofun
    · exact steady_publish (hsteady s.live hnone) (hquiet' s.live hnone) (fun _ hr => hr) nofun nofun
  | granted =>
    have hnone := filter_none hlive
    dsimp only
    split
    · exact hsteady _ hnone
    split
    · exact steady_publish (hsteady _ hnone) (hquiet' _ hnone) (fun _ hr => hr) nofun nofun
    · next hcurrent _ =>
      rw [Bool.not_eq_true, Bool.or_eq_false_iff, decide_eq_false_iff_not, not_not] at hcurrent
      split
      · exact steady_fail h.urls.revoke h.promises h.cancelled
          (.inr ⟨congrArg some hcurrent.1, hrest, rfl, hcurrent.1 ▸ hlive⟩)
      · refine ⟨h.urls.hidden.revoke, h.promises, h.cancelled, .inr ⟨rfl, ?_⟩⟩
        have hstopping : Stopping .recording s.resolveStop s.stopPromise := by
          rw [hquiet.resolveStop, hquiet.stopPromise]
          exact .no
        refine ⟨fun r hr => ?_, congrArg some hcurrent.1, rfl, rfl, hcurrent.2, ⟨hrest, rfl⟩,
          ⟨hcurrent.1 ▸ hlive, hnodup⟩, hstopping⟩
        cases hr
        exact hcurrent.1

theorem steady_stop {s : State} (h : Steady s) (stops : Bool) : Steady (stopRecording stops s) := by
  unfold stopRecording
  split
  · have hpromises : Settling (s.promises + 1) ((s.promises, s.snapshot) :: s.settled) s.resolveStop := by
      intro promise hpromise
      rcases Nat.lt_succ_iff_lt_or_eq.1 hpromise with hlt | rfl
      · exact (h.promises promise hlt).imp (List.mem_cons_of_mem _) id
      · exact .inl List.mem_cons_self
    refine ⟨h.urls, hpromises, h.cancelled, ?_⟩
    rcases h.phase with hquiet | ⟨hrecorder, hcapturing⟩
    · exact .inl ⟨hquiet.recorder, hquiet.stream, hquiet.resolveStop, hquiet.stopPromise,
        hquiet.notRecording, hquiet.notStopping, hquiet.waiting⟩
    · exact .inr ⟨hrecorder, hcapturing.recorder, hcapturing.stream, hcapturing.held,
        hcapturing.shown, hcapturing.disposed, hcapturing.nobody, hcapturing.live, hcapturing.stopping⟩
  split
  · exact h
  · next hactive hpromise =>
    rw [Bool.or_eq_true, decide_eq_true_eq, not_or, not_not, Option.isNone_iff_eq_none] at hactive
    have hrecorder : s.recorder.isSome = true := Option.isSome_iff_ne_none.2 hactive.1
    have hcapturing := h.capturing hrecorder
    have hresolve : s.resolveStop = none := by
      have hstopping := hcapturing.stopping
      rw [hactive.2] at hstopping
      generalize s.resolveStop = resolve, s.stopPromise = promise at hstopping
      cases hstopping
      rfl
    have hpromises : Settling (s.promises + 1) s.settled (some s.promises) := by
      intro promise hpromise
      rcases Nat.lt_succ_iff_lt_or_eq.1 hpromise with hlt | rfl
      · refine .inl ((h.promises promise hlt).resolve_right ?_)
        rw [hresolve]
        exact nofun
      · exact .inr rfl
    dsimp only
    split
    · exact ⟨h.urls.hidden, hpromises, h.cancelled, .inr ⟨hrecorder, hcapturing.recorder,
        hcapturing.stream, hcapturing.held, rfl, hcapturing.disposed, hcapturing.nobody,
        hcapturing.live, .yes _⟩⟩
    · exact steady_fail h.urls.hidden hpromises h.cancelled
        (.inr ⟨hcapturing.stream, hcapturing.nobody.1, hcapturing.nobody.2, hcapturing.live.1⟩)

theorem steady_finish {s : State} (h : Steady s) (hrecorder : s.recorder.isSome = true)
    (maxDurationMs : Int) (creates : Bool) (now : Int) (mimeType : String) :
    Steady (finishRecording maxDurationMs creates now mimeType s) := by
  have hcapturing := h.capturing hrecorder
  have hwaiting := waiting_released h.onlyDevice
  unfold finishRecording
  dsimp only
  split
  · exact ⟨h.urls, h.promises.resolve _, h.cancelled,
      .inl ⟨rfl, rfl, rfl, rfl, nofun, nofun, hwaiting⟩⟩
  · have hurls := h.urls
    rw [hcapturing.held] at hurls
    exact ⟨hurls.make _ _ _, h.promises.resolve _, h.cancelled,
      .inl ⟨rfl, rfl, rfl, rfl, nofun, nofun, hwaiting⟩⟩

theorem steady_trackEnded {s : State} (h : Steady s) (token : Nat) :
    Steady (stopMediaStream (some token) s) := by
  refine ⟨h.urls, h.promises, h.cancelled, ?_⟩
  rcases h.phase with hquiet | ⟨hrecorder, hcapturing⟩
  · refine .inl ⟨hquiet.recorder, hquiet.stream, hquiet.resolveStop, hquiet.stopPromise,
      hquiet.notRecording, hquiet.notStopping, ?_⟩
    have hwaiting := hquiet.waiting
    dsimp only [stopMediaStream]
    generalize s.acquisitions = acquisitions, s.permissionRequestPending = pending, s.live = live
      at hwaiting
    cases hwaiting with
    | nobody => exact .nobody _
    | asked a hle => exact .asked a hle
    | granted a hle hanswer =>
      rw [List.filter_singleton]
      cases decide (some token ≠ some a.token) with
      | true => exact .granted a hle hanswer
      | false => exact .asked a hle
  · exact .inr ⟨hrecorder, hcapturing.recorder, hcapturing.stream, hcapturing.held, hcapturing.shown,
      hcapturing.disposed, hcapturing.nobody,
      ⟨List.Subset.trans (List.filter_subset_self _) hcapturing.live.1, hcapturing.live.2.filter _⟩,
      hcapturing.stopping⟩

theorem steady_step {maxDurationMs : Int} {s : State} (h : Steady s) (a : Act) :
    Steady (step maxDurationMs s a) := by
  have hheard : ∀ token r, heard s token = some r → s.recorder.isSome = true := by
    intro token r hr
    rw [(Option.filter_eq_some_iff.1 hr).1]
    rfl
  cases a with
  | startRecording isMimeTypeSupported => exact steady_start h isMimeTypeSupported
  | answer token answer =>
    rw [step]
    split
    · exact h
    · next a hfind =>
      have hasked := List.find?_some hfind
      rw [Bool.and_eq_true, decide_eq_true_eq, Option.isNone_iff_eq_none] at hasked
      rw [← hasked.1]
      exact steady_answer h (List.mem_of_find?_eq_some hfind) hasked.2 answer
  | resume token calls =>
    rw [step]
    split
    · exact h
    · next a hfind =>
      cases hanswer : a.answer with
      | none => exact h
      | some answer => exact steady_resume h (List.mem_of_find?_eq_some hfind) hanswer calls
  | stopRecording stops => exact steady_stop h stops
  | timeUp stops =>
    rw [step]
    split
    · exact steady_stop h stops
    · exact h
  | clearRecording => exact steady_clear h
  | cancel => exact steady_cancel h
  | dispose => exact steady_dispose h
  | dataAvailable token size =>
    rw [step]
    split
    · exact h
    split
    · exact h
    · refine ⟨h.urls, h.promises, h.cancelled, ?_⟩
      rcases h.phase with hquiet | ⟨hrecorder, hcapturing⟩
      · exact .inl ⟨hquiet.recorder, hquiet.stream, hquiet.resolveStop, hquiet.stopPromise,
          hquiet.notRecording, hquiet.notStopping, hquiet.waiting⟩
      · exact .inr ⟨hrecorder, hcapturing.recorder, hcapturing.stream, hcapturing.held,
          hcapturing.shown, hcapturing.disposed, hcapturing.nobody, hcapturing.live,
          hcapturing.stopping⟩
  | recorderError token =>
    rw [step]
    split
    · exact h
    · exact steady_fail h.urls h.promises h.cancelled h.onlyDevice
  | recorderStop token creates now =>
    rw [step]
    split
    · exact h
    · next r hr => exact steady_finish h (hheard token r hr) maxDurationMs creates now r.mimeType
  | trackEnded token => exact steady_trackEnded h token

def Published (s : State) : Prop := ∀ recording ∈ s.snapshot.recording, recording.url ∉ s.revoked

theorem published_none {s : State} (h : s.snapshot.recording = none) : Published s := by
  intro recording hrecording
  rw [h] at hrecording
  cases hrecording

theorem published_same {s t : State} (h : Published s) (hsnapshot : t.snapshot.recording = s.snapshot.recording)
    (hrevoked : t.revoked = s.revoked) : Published t := by
  intro recording hrecording
  rw [hsnapshot] at hrecording
  rw [hrevoked]
  exact h recording hrecording

/-- Of a steady recorder only the published recording is left to see to. -/
theorem disciplined_iff {s : State} (h : Steady s) : Disciplined s ↔ Published s := by
  refine ⟨fun hdisciplined => hdisciplined.published, fun hpublished => ?_⟩
  have hlive : s.live.length ≤ 1 ∧ ∀ t ∈ s.live, t < s.cancelledBelow → ∃ a ∈ s.acquisitions, a.token = t := by
    rcases h.phase with hquiet | ⟨-, hcapturing⟩
    · have hwaiting := hquiet.waiting
      generalize s.acquisitions = acquisitions, s.permissionRequestPending = pending, s.live = live
        at hwaiting
      cases hwaiting with
      | nobody => exact ⟨Nat.zero_le _, nofun⟩
      | asked a hle => exact ⟨Nat.zero_le _, nofun⟩
      | granted a hle hanswer =>
        exact ⟨Nat.le_refl _, fun t ht _ => ⟨a, List.mem_cons_self, (List.mem_singleton.1 ht).symm⟩⟩
    · refine ⟨(List.subperm_of_subset hcapturing.live.2 hcapturing.live.1).length_le, fun t ht hlt => ?_⟩
      have hopen := h.cancelled hcapturing.disposed
      rw [List.mem_singleton.1 (hcapturing.live.1 ht)] at hlt
      omega
  refine ⟨hlive.1, hlive.2, hpublished, h.urls.owned, fun hstate promise hpromise => ?_⟩
  refine (h.promises promise hpromise).resolve_right ?_
  rcases h.phase with hquiet | ⟨-, hcapturing⟩
  · rw [hquiet.resolveStop]
    exact nofun
  · have hstopping := hcapturing.stopping
    generalize s.snapshot.state = state, s.resolveStop = resolve, s.stopPromise = stop
      at hstopping hstate
    cases hstopping with
    | no => exact nofun
    | yes => exact absurd rfl hstate

/-- A start that fails leaves a recording published whose URL it has just revoked. -/
theorem published_failedStart {s : State} (h : Steady s) (hpublished : Published s) :
    Published (failActiveRecording (revokeRecordingURL s)) ↔ s.snapshot.recording = none := by
  constructor
  · intro hfailed
    cases hrecording : s.snapshot.recording with
    | none => rfl
    | some recording =>
      have hheld : s.recordingURL = some recording.url :=
        (h.urls.owned _ (h.urls.shown_lt recording hrecording)).resolve_right
          (hpublished recording hrecording)
      have hrevoked : (failActiveRecording (revokeRecordingURL s)).revoked = recording.url :: s.revoked :=
        congrArg (fun held : Option Nat => held.elim s.revoked fun url => url :: s.revoked) hheld
      refine absurd ?_ (hfailed recording hrecording)
      rw [hrevoked]
      exact List.mem_cons_self
  · exact fun hnone => published_none hnone

theorem published_resume {s : State} (h : Steady s) (hpublished : Published s) {a : Acquisition}
    (ha : a ∈ s.acquisitions) {answer : MediaAnswer} (hanswer : a.answer = some answer)
    (calls : RecorderCalls) :
    Published (resumeStart calls a answer s) ↔ StartsCleanly s (.resume a.token calls) := by
  obtain ⟨hquiet, hone, -⟩ := h.waits ha
  cases answer with
  | refused denied =>
    have hclean : StartsCleanly s (.resume a.token calls) := by
      intro _ _ _ _ hgranted
      obtain ⟨b, hb, -, hb'⟩ := hgranted
      rw [hone, List.mem_singleton] at hb
      rw [hb, hanswer] at hb'
      cases hb'
    refine iff_of_true ?_ hclean
    dsimp only [resumeStart]
    split
    · exact hpublished
    · split <;> exact hpublished
  | granted =>
    dsimp only [resumeStart]
    split
    · next hstale =>
      refine iff_of_true hpublished fun _ _ hopen hcurrent _ => ?_
      rw [Bool.or_eq_true, decide_eq_true_eq, hopen, hcurrent] at hstale
      rcases hstale with hne | hfalse
      · exact absurd rfl hne
      · cases hfalse
    split
    · next hthrows =>
      refine iff_of_true hpublished fun hcreates _ _ _ _ => ?_
      rw [hcreates] at hthrows
      cases hthrows
    · next hcurrent hcreates =>
      rw [Bool.not_eq_true, Bool.or_eq_false_iff, decide_eq_false_iff_not, not_not] at hcurrent
      rw [Bool.not_eq_true, Bool.not_eq_false'] at hcreates
      split
      · next hthrows =>
        rw [Bool.not_eq_true'] at hthrows
        exact (published_failedStart h hpublished).trans
          ⟨fun hnone _ _ _ _ _ => hnone, fun hclean =>
            hclean hcreates hthrows hcurrent.2 hcurrent.1 ⟨a, ha, rfl, hanswer⟩⟩
      · next hstarts =>
        refine iff_of_true (published_none rfl) fun _ hthrows _ _ _ => ?_
        rw [hthrows] at hstarts
        exact absurd rfl hstarts

theorem published_stop {s : State} (hpublished : Published s) (stops : Bool) :
    Published (stopRecording stops s) := by
  unfold stopRecording
  split
  · exact hpublished
  split
  · exact hpublished
  · dsimp only
    split
    · exact published_none rfl
    · exact published_none rfl

theorem published_step {maxDurationMs : Int} {s : State} (h : Steady s) (hpublished : Published s)
    (a : Act) : Published (step maxDurationMs s a) ↔ StartsCleanly s a := by
  have hheard : ∀ token r, heard s token = some r → s.recorder.isSome = true := by
    intro token r hr
    rw [(Option.filter_eq_some_iff.1 hr).1]
    rfl
  cases a with
  | resume token calls =>
    rw [step]
    split
    · next hnone =>
      refine iff_of_true hpublished fun _ _ _ _ hgranted => ?_
      obtain ⟨a, ha, htoken, hanswer⟩ := hgranted
      refine absurd ?_ (List.find?_eq_none.1 hnone a ha)
      rw [htoken, hanswer]
      simp
    · next a hfind =>
      have hanswered := List.find?_some hfind
      rw [Bool.and_eq_true, decide_eq_true_eq] at hanswered
      obtain ⟨answer, hanswer⟩ := Option.isSome_iff_exists.1 hanswered.2
      rw [hanswer, Option.elim_some, ← hanswered.1]
      exact published_resume h hpublished (List.mem_of_find?_eq_some hfind) hanswer calls
  | startRecording isMimeTypeSupported =>
    refine iff_of_true ?_ trivial
    dsimp only [step, startRecording]
    split
    · exact hpublished
    split
    · exact hpublished
    split
    · exact hpublished
    split
    · exact published_none rfl
    · exact hpublished
  | answer token answer =>
    refine iff_of_true ?_ trivial
    rw [step]
    split <;> exact hpublished
  | stopRecording stops => exact iff_of_true (published_stop hpublished stops) trivial
  | timeUp stops =>
    refine iff_of_true ?_ trivial
    rw [step]
    split
    · exact published_stop hpublished stops
    · exact hpublished
  | clearRecording =>
    refine iff_of_true ?_ trivial
    dsimp only [step, clearRecording]
    split
    · exact published_none rfl
    · next hnone => exact published_none (Option.not_isSome_iff_eq_none.1 hnone)
  | cancel => exact iff_of_true (published_none rfl) trivial
  | dispose =>
    refine iff_of_true ?_ trivial
    rw [step, dispose]
    split
    · exact hpublished
    · exact published_none rfl
  | dataAvailable token size =>
    refine iff_of_true ?_ trivial
    rw [step]
    split
    · exact hpublished
    · split <;> exact hpublished
  | recorderError token =>
    refine iff_of_true ?_ trivial
    rw [step]
    split
    · exact hpublished
    · next r hr => exact published_none (h.capturing (hheard token r hr)).shown
  | recorderStop token creates now =>
    refine iff_of_true ?_ trivial
    rw [step]
    split
    · exact hpublished
    · next r hr =>
      dsimp only [finishRecording]
      split
      · exact published_none (h.capturing (hheard token r hr)).shown
      · intro recording hrecording hmem
        cases hrecording
        exact absurd (h.urls.revoked_lt _ hmem) (Nat.lt_irrefl _)
  | trackEnded token => exact iff_of_true hpublished trivial

/-- One recording is made, and the recorder of the next throws on its start. -/
def secondStartThrows : List Act :=
  [.startRecording fun _ => some true, .answer 1 .granted, .resume 1 ⟨true, true, 0⟩,
    .dataAvailable 1 100, .stopRecording true, .recorderStop 1 true 1000,
    .startRecording fun _ => some true, .answer 2 .granted, .resume 2 ⟨true, false, 2000⟩]

end PronunciationRecorder
