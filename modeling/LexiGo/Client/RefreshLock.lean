import LexiGo.Account.RefreshRefusals

/-! The tabs of a browser and the session they share. A tab refreshes the session under a
lock that all of them ask for, with the cookie that the last answer has set; the server
goes on with everybody's requests in between. -/
namespace RefreshLock
open RowStore TransactionProgram Interleaving CommitContract CommitNotes RunSoundness KnownCommits
open Function
open AccountSchema AccountMachine AccountRepository AccountService AccountRefinement AccountRuns
open RotationAuthors RefreshRefusals

abbrev Tab := Nat

section Errors

inductive RequestFailureKind
  | unauthorized
  | forbidden
  | offline
  | timeout
  | malformed
  | server
  | client
  | unknown
  deriving DecidableEq

def kindForStatus (status : Nat) : RequestFailureKind :=
  if status = 401 then .unauthorized
  else if status = 403 then .forbidden
  else if 500 ≤ status then .server
  else if 400 ≤ status then .client
  else .unknown

structure SessionRefreshError where
  status : Nat
  kind : RequestFailureKind
  code : String
  deriving DecidableEq

/-- The status and the code with which the auth handler answers. -/
def writeServiceError : AccountError → Nat × String
  | .emailTaken => (409, "email_taken")
  | .invalidLogin => (401, "invalid_credentials")
  | .invalidPasswordReset => (400, "password_reset_invalid")
  | .refreshInProgress => (409, "refresh_conflict")
  | .refreshTokenReuse => (401, "session_compromised")
  | .invalidRefresh | .invalidAccess => (401, "unauthorized")
  | .userNotFound => (404, "not_found")
  | _ => (500, "internal_error")

/-- What becomes of the refresh cookie; the CSRF cookie is set and cleared with it. -/
def responseCookie : Reply Answer → Option TokenHash → Option TokenHash
  | .ok (.signedIn _ pair), _ => pair.refresh
  | .error .invalidRefresh, _ | .error .refreshTokenReuse, _ => none
  | _, cookie => cookie

inductive NetworkFailure
  | timeout
  | offline
  | unknown
  deriving DecidableEq

def networkError : NetworkFailure → SessionRefreshError
  | .timeout => ⟨0, .timeout, "request_timeout"⟩
  | .offline => ⟨0, .offline, "network_offline"⟩
  | .unknown => ⟨0, .unknown, "request_failed"⟩

def missingMarker : SessionRefreshError := ⟨401, .unauthorized, "session_refresh_failed"⟩

structure Session where
  user : User
  accessToken : AccessToken

/-- The response as the client reads it; `intact` says whether its body is. -/
def readResponse (intact : Bool) : Reply Answer → Except SessionRefreshError Session
  | .ok (.signedIn user pair) =>
    if intact then .ok ⟨user, pair.access⟩ else .error ⟨200, .malformed, "session_refresh_failed"⟩
  | .ok _ => .error ⟨200, .malformed, "session_refresh_failed"⟩
  | .error why =>
    let (status, code) := writeServiceError why
    .error ⟨status, kindForStatus status, if intact then code else "request_failed"⟩

def isRetryableSessionRefreshError (error : SessionRefreshError) : Bool :=
  error.code = "refresh_conflict" || error.kind = .offline || error.kind = .timeout ||
    error.kind = .server || error.kind = .unknown

def isDefinitiveSessionRefreshError (error : SessionRefreshError) : Bool :=
  error.kind = .unauthorized || error.kind = .forbidden

structure RefreshOptions where
  retryDelaysMs : List Nat
  retryTransient : Bool

/-- How long to wait for the next attempt, if there is to be one. -/
def retryDelay (options : RefreshOptions) (attempt : Nat) (error : SessionRefreshError) : Option Nat :=
  if isRetryableSessionRefreshError error &&
      (error.code = "refresh_conflict" || options.retryTransient) then
    options.retryDelaysMs[attempt]?
  else none

end Errors

section Tabs

/-- Where the refresh of a tab has come to, from the wait for the lock on. -/
inductive Phase
  | idle
  | queued (options : RefreshOptions)
  | trying (options : RefreshOptions) (attempt : Nat)
  | asking (options : RefreshOptions) (attempt : Nat) (request : Nat)

def Phase.working : Phase → Bool
  | .trying _ _ | .asking _ _ _ => true
  | _ => false

def Phase.request : Phase → Option Nat
  | .asking _ _ i => some i
  | _ => none

/-- `sent` are the requests to refresh that the browser has sent, `outcomes` how the refreshes
of the tabs have ended. -/
structure Browser where
  server : AccountConfig
  cookie : Option TokenHash
  lock : Option Tab
  phase : Tab → Phase
  sent : List Nat
  outcomes : List (Tab × Except SessionRefreshError Session)

inductive Action
  | server (a : Interleaving.Action Op)
  | refreshSession (tab : Tab) (options : RefreshOptions)
  | acquire (tab : Tab)
  | attempt (tab : Tab)
  | unsent (tab : Tab) (failure : NetworkFailure)
  | lost (tab : Tab) (failure : NetworkFailure)
  | answered (tab : Tab) (intact : Bool)

def Browser.move (b : Browser) (tab : Tab) (phase : Phase) : Browser :=
  { b with phase := update b.phase tab phase }

/-- The promise of the tab is settled, and the lock is free. -/
def Browser.settle (b : Browser) (tab : Tab) (outcome : Except SessionRefreshError Session) : Browser :=
  { b with phase := update b.phase tab .idle, lock := none, outcomes := (tab, outcome) :: b.outcomes }

def Browser.failed (b : Browser) (tab : Tab) (options : RefreshOptions) (attempt : Nat)
    (error : SessionRefreshError) : Browser :=
  match retryDelay options attempt error with
  | some _ => b.move tab (.trying options (attempt + 1))
  | none => b.settle tab (.error error)

def Browser.read (b : Browser) (tab : Tab) (options : RefreshOptions) (attempt : Nat) :
    Except SessionRefreshError Session → Browser
  | .ok session => b.settle tab (.ok session)
  | .error error => b.failed tab options attempt error

variable (platform : Platform)

/-- The request goes out with the cookie as it is. -/
def Browser.send (b : Browser) (tab : Tab) (options : RefreshOptions) (attempt : Nat)
    (token : TokenHash) : Browser :=
  { b with
    server := b.server.spawn (program platform) (.refresh token)
    phase := update b.phase tab (.asking options attempt b.server.procs.length)
    sent := b.server.procs.length :: b.sent }

/-- A tab that is refreshing already shares the promise that it has. -/
def step (b : Browser) : Action → Option Browser
  | .server a => (Interleaving.step (program platform) b.server a).map fun c => { b with server := c }
  | .refreshSession tab options =>
    match b.phase tab with
    | .idle => some (b.move tab (.queued options))
    | _ => some b
  | .acquire tab =>
    match b.phase tab, b.lock with
    | .queued options, none => some { b.move tab (.trying options 0) with lock := some tab }
    | _, _ => none
  | .attempt tab =>
    match b.phase tab, b.cookie with
    | .trying options attempt, none => some (b.failed tab options attempt missingMarker)
    | .trying options attempt, some token => some (b.send platform tab options attempt token)
    | _, _ => none
  | .unsent tab failure =>
    match b.phase tab, b.cookie with
    | .trying options attempt, some _ => some (b.failed tab options attempt (networkError failure))
    | _, _ => none
  | .lost tab failure =>
    match b.phase tab with
    | .asking options attempt _ => some (b.failed tab options attempt (networkError failure))
    | _ => none
  | .answered tab intact =>
    match b.phase tab with
    | .asking options attempt i => (b.server.answer i).map fun reply =>
      { b with cookie := responseCookie reply b.cookie }.read tab options attempt
        (readResponse intact reply)
    | _ => none

end Tabs

section Runs
variable {platform : Platform} {u : UserId} {f : FamilyId} {b b' : Browser} {tab : Tab}
variable {i : Nat} {h : TokenHash}

/-- Something other than the browser's own refreshes has ended the session. -/
def Closed (u : UserId) (f : FamilyId) (b : Browser) : Prop :=
  ∃ e ∈ b.server.world.log, Ends u f b.server.world.log e.2 ∧
    (e.1 ∉ b.sent ∨ ∃ x, e.2 = .expired x)

/-- A token of the session is presented by this browser only. -/
def Unshared (u : UserId) (f : FamilyId) (b : Browser) : Prop :=
  ∀ (j : Nat) p h, b.server.procs[j]? = some p → p.op = .refresh h →
    Given u f h b.server.world.log → j ∈ b.sent

/-- A request whose answer is lost has come to nothing. -/
def Harmless (b : Browser) : Action → Prop
  | .lost tab _ => ∀ i ∈ (b.phase tab).request, Silent i b.server.world ∧ Idle b.server i
  | _ => True

/-- One step of the browser or of the server, under the two assumptions. -/
def Goes (platform : Platform) (u : UserId) (f : FamilyId) (b b' : Browser) : Prop :=
  ∃ a, step platform b a = some b' ∧ Harmless b a ∧ Unshared u f b'

/-- The user has just signed in. -/
structure SignedIn (platform : Platform) (u : UserId) (f : FamilyId) (b : Browser) : Prop where
  run : Run (program platform) (fun _ _ _ _ => True) empty b.server
  cookie : ∃ h, b.cookie = some h ∧ Given u f h b.server.world.log
  unshared : Unshared u f b
  lock : b.lock = none
  phase : ∀ tab, b.phase tab = .idle
  sent : b.sent = []
  outcomes : b.outcomes = []

/-- The tabs that are at work hold the lock, so that there is one of them at most. -/
def Exclusive (b : Browser) : Prop := ∀ tab, (b.phase tab).working = true → b.lock = some tab

/-- The request that is on its way. -/
def current (b : Browser) : Option Nat := b.lock.bind fun tab => (b.phase tab).request

/-- The session as it is while nothing else has ended it: the cookie is the one token of it
that has not been replaced, but for the request `asked`. -/
structure Live (u : UserId) (f : FamilyId) (b : Browser) (asked : Option Nat) : Prop where
  token : ∃ h, b.cookie = some h ∧ Given u f h b.server.world.log ∧
    ∀ j v version new f', (j, Note.rotated v version h new f') ∈ b.server.world.log → asked = some j
  presented : ∀ j ∈ b.sent, ∃ p h, b.server.procs[j]? = some p ∧ p.op = .refresh h ∧
    Given u f h b.server.world.log
  settled : ∀ j ∈ b.sent, asked ≠ some j → Idle b.server j ∧
    ∀ n, (j, n) ∈ b.server.world.log → ∃ h, replaced n = some h
  now : ∀ i, asked = some i → i ∈ b.sent ∧ ∃ p h, b.server.procs[i]? = some p ∧
    p.op = .refresh h ∧ b.cookie = some h ∧
    ∀ j ∈ b.sent, ∀ q x, b.server.procs[j]? = some q → q.op = .refresh x → Given u f x p.born.log
  outcomes : ∀ tab error, (tab, .error error) ∈ b.outcomes →
    isDefinitiveSessionRefreshError error = false

structure Kept (platform : Platform) (u : UserId) (f : FamilyId) (b : Browser) : Prop where
  run : Run (program platform) (fun _ _ _ _ => True) empty b.server
  unshared : Unshared u f b
  exclusive : Exclusive b
  live : Closed u f b ∨ Live u f b (current b)

theorem replaced_ends {log : AccountLog} {n : Note} (hn : ∃ h, replaced n = some h) : ¬ Ends u f log n := by
  obtain ⟨h, hh⟩ := hn
  cases n <;> first | exact id | cases hh

theorem SignedIn.kept (hs : SignedIn platform u f b) : Kept platform u f b := by
  obtain ⟨h, hcookie, given⟩ := hs.cookie
  have none : current b = none := by simp [current, hs.lock]
  refine ⟨hs.run, hs.unshared, fun tab hw => ?_, .inr ?_⟩
  · rw [hs.phase tab] at hw
    cases hw
  rw [none]
  refine ⟨⟨h, hcookie, given, fun j v version new f' hmem => ?_⟩, ?_, ?_, ?_, ?_⟩
  · obtain ⟨p, hp, hop⟩ := replaced_presented hs.run hmem
    have hsent := hs.unshared j p h hp hop given
    rw [hs.sent] at hsent
    cases hsent
  · simp [hs.sent]
  · simp [hs.sent]
  · intro i hi
    cases hi
  · simp [hs.outcomes]

theorem failed_server (options : RefreshOptions) (attempt : Nat) (error : SessionRefreshError) :
    (b.failed tab options attempt error).server = b.server ∧
      (b.failed tab options attempt error).sent = b.sent := by
  unfold Browser.failed
  split <;> exact ⟨rfl, rfl⟩

theorem read_server (options : RefreshOptions) (attempt : Nat) (r : Except SessionRefreshError Session) :
    (b.read tab options attempt r).server = b.server ∧ (b.read tab options attempt r).sent = b.sent := by
  cases r with
  | ok session => exact ⟨rfl, rfl⟩
  | error error => exact failed_server options attempt error

/-- The cases of a step. -/
inductive Moves (platform : Platform) (b : Browser) : Action → Browser → Prop
  | server {sa c} : Interleaving.step (program platform) b.server sa = some c →
      Moves platform b (.server sa) { b with server := c }
  | joined {tab options} : Moves platform b (.refreshSession tab options) b
  | queued {tab options} : b.phase tab = .idle →
      Moves platform b (.refreshSession tab options) (b.move tab (.queued options))
  | acquired {tab options} : b.phase tab = .queued options → b.lock = none →
      Moves platform b (.acquire tab) { b.move tab (.trying options 0) with lock := some tab }
  | missing {tab options attempt} : b.phase tab = .trying options attempt → b.cookie = none →
      Moves platform b (.attempt tab) (b.failed tab options attempt missingMarker)
  | sent {tab options attempt token} : b.phase tab = .trying options attempt →
      b.cookie = some token → Moves platform b (.attempt tab) (b.send platform tab options attempt token)
  | unsent {tab options attempt failure} : b.phase tab = .trying options attempt →
      Moves platform b (.unsent tab failure) (b.failed tab options attempt (networkError failure))
  | lost {tab options attempt i failure} : b.phase tab = .asking options attempt i →
      Moves platform b (.lost tab failure) (b.failed tab options attempt (networkError failure))
  | answered {tab options attempt i reply intact} : b.phase tab = .asking options attempt i →
      b.server.answer i = some reply → Moves platform b (.answered tab intact)
        ({ b with cookie := responseCookie reply b.cookie }.read tab options attempt
          (readResponse intact reply))

theorem step_moves {a : Action} (hs : step platform b a = some b') : Moves platform b a b' := by
  cases a with
  | server sa =>
    obtain ⟨c, hc, rfl⟩ := Option.map_eq_some_iff.1 hs
    exact .server hc
  | refreshSession tab options =>
    simp only [step] at hs
    split at hs <;> cases hs
    · exact .queued ‹_›
    · exact .joined
  | acquire tab =>
    simp only [step] at hs
    split at hs <;> cases hs
    exact .acquired ‹_› ‹_›
  | attempt tab =>
    simp only [step] at hs
    split at hs <;> cases hs
    · exact .missing ‹_› ‹_›
    · exact .sent ‹_› ‹_›
  | unsent tab failure =>
    simp only [step] at hs
    split at hs <;> cases hs
    exact .unsent ‹_›
  | lost tab failure =>
    simp only [step] at hs
    split at hs <;> cases hs
    exact .lost ‹_›
  | answered tab intact =>
    simp only [step] at hs
    split at hs
    · obtain ⟨reply, hreply, rfl⟩ := Option.map_eq_some_iff.1 hs
      exact .answered ‹_› hreply
    · cases hs

/-- What a step adds to the log and to the requests that have been sent. -/
theorem step_grows {a : Action} (hs : step platform b a = some b') :
    (b'.server = b.server ∧ b'.sent = b.sent) ∨
      (∃ sa, Interleaving.step (program platform) b.server sa = some b'.server ∧
        (b'.sent = b.sent ∨ b'.sent = b.server.procs.length :: b.sent)) := by
  cases step_moves hs with
  | server hc => exact .inr ⟨_, hc, .inl rfl⟩
  | joined | queued | acquired => exact .inl ⟨rfl, rfl⟩
  | missing | unsent | lost => exact .inl (failed_server _ _ _)
  | sent => exact .inr ⟨.start _, rfl, .inr rfl⟩
  | answered => exact .inl (read_server _ _ _)

theorem log_known (hrun : Run (program platform) (fun _ _ _ _ => True) empty b.server) :
    ∀ e ∈ b.server.world.log, e.1 < b.server.procs.length := by
  intro e he
  obtain ⟨p, -, hp, -⟩ := run_authors program_replaces ⟨rfl, rfl⟩ hrun he
  exact (List.getElem?_eq_some_iff.1 hp).1

theorem step_run {a : Action} (hs : step platform b a = some b')
    (hrun : Run (program platform) (fun _ _ _ _ => True) empty b.server) :
    Run (program platform) (fun _ _ _ _ => True) empty b'.server := by
  rcases step_grows hs with ⟨heq, -⟩ | ⟨sa, hsa, -⟩
  · rw [heq]
    exact hrun
  · exact .tail sa hrun hsa fun _ _ _ => trivial

/-- What has been ended stays so. -/
theorem step_closed {a : Action} (hs : step platform b a = some b')
    (hrun : Run (program platform) (fun _ _ _ _ => True) empty b.server) (hc : Closed u f b) :
    Closed u f b' := by
  obtain ⟨e, he, hends, hwho⟩ := hc
  rcases step_grows hs with ⟨hserver, hsent⟩ | ⟨sa, hsa, hsent⟩
  · unfold Closed
    rw [hserver, hsent]
    exact ⟨e, he, hends, hwho⟩
  · have hlog := step_log hsa
    refine ⟨e, hlog he, hends.mono hlog, hwho.imp_left fun hnot hin => ?_⟩
    rcases hsent with hsent | hsent <;> rw [hsent] at hin
    · exact hnot hin
    · rcases List.mem_cons.1 hin with heq | hin
      · exact absurd (log_known hrun e he) (by rw [heq]; exact Nat.lt_irrefl _)
      · exact hnot hin

section Lock

/-- A tab that is at work has the lock. -/
theorem Exclusive.lock (he : Exclusive b) {phase : Phase} (hp : b.phase tab = phase)
    (hw : phase.working = true) : b.lock = some tab := he tab (by rw [hp, hw])

theorem Exclusive.current (he : Exclusive b) {phase : Phase} (hp : b.phase tab = phase)
    (hw : phase.working = true) : RefreshLock.current b = phase.request := by
  simp [RefreshLock.current, he.lock hp hw, hp]

/-- The tab that holds the lock goes on. -/
theorem Exclusive.move (he : Exclusive b) (hlock : b.lock = some tab) (phase : Phase) :
    Exclusive (b.move tab phase) ∧ RefreshLock.current (b.move tab phase) = phase.request := by
  refine ⟨fun tab' hw => ?_, by simp [RefreshLock.current, Browser.move, hlock]⟩
  by_cases heq : tab' = tab
  · rw [heq]
    exact hlock
  · exact he tab' (by simpa [Browser.move, heq] using hw)

theorem Exclusive.settle (he : Exclusive b) (hlock : b.lock = some tab)
    (outcome : Except SessionRefreshError Session) :
    Exclusive (b.settle tab outcome) ∧ RefreshLock.current (b.settle tab outcome) = none := by
  refine ⟨fun tab' hw => ?_, rfl⟩
  by_cases heq : tab' = tab
  · subst heq
    simp [Browser.settle, Phase.working] at hw
  · have hlock' := he tab' (by simpa [Browser.settle, heq] using hw)
    exact absurd (Option.some.inj (hlock'.symm.trans hlock)) heq

theorem Exclusive.failed (he : Exclusive b) (hlock : b.lock = some tab) (options : RefreshOptions)
    (attempt : Nat) (error : SessionRefreshError) :
    Exclusive (b.failed tab options attempt error) ∧
      RefreshLock.current (b.failed tab options attempt error) = none := by
  unfold Browser.failed
  split
  · exact he.move hlock _
  · exact he.settle hlock _

theorem Exclusive.read (he : Exclusive b) (hlock : b.lock = some tab) (options : RefreshOptions)
    (attempt : Nat) (r : Except SessionRefreshError Session) :
    Exclusive (b.read tab options attempt r) ∧
      RefreshLock.current (b.read tab options attempt r) = none := by
  cases r with
  | ok session => exact he.settle hlock _
  | error error => exact he.failed hlock _ _ _

theorem step_exclusive {a : Action} (hs : step platform b a = some b') (he : Exclusive b) :
    Exclusive b' := by
  cases step_moves hs with
  | server | joined => exact he
  | @queued tab options hp =>
    intro tab' hw
    by_cases heq : tab' = tab
    · subst heq
      simp [Browser.move, Phase.working] at hw
    · exact he tab' (by simpa [Browser.move, heq] using hw)
  | @acquired tab options hp hlock =>
    intro tab' hw
    by_cases heq : tab' = tab
    · rw [heq]
    · have hlock' := he tab' (by simpa [Browser.move, heq] using hw)
      cases hlock.symm.trans hlock'
  | missing hp | unsent hp | lost hp => exact (he.failed (he.lock hp rfl) _ _ _).1
  | sent hp => exact (he.move (he.lock hp rfl) _).1
  | @answered _ _ _ _ reply _ hp =>
    have he' : Exclusive { b with cookie := responseCookie reply b.cookie } := he
    exact (he'.read (he.lock hp rfl) _ _ _).1

end Lock

section Session

/-- A reason to refuse the cookie that is not the browser's own. -/
theorem Live.closed_of_reason (hl : Live u f b (some i)) (hcookie : b.cookie = some h)
    (hr : Reason i u f h b.server.world.log) : Closed u f b := by
  rcases hr with ⟨e, he, hwho, hends⟩ | ⟨j, v, version, new, f', hj, hmem⟩
  · refine ⟨e, he, hends, or_iff_not_imp_right.2 fun hnot hin => ?_⟩
    have hne : e.1 ≠ i := hwho.resolve_right hnot
    exact replaced_ends ((hl.settled e.1 hin fun heq => hne (Option.some.inj heq).symm).2 e.2 he) hends
  · obtain ⟨h', hcookie', -, honly⟩ := hl.token
    cases hcookie.symm.trans hcookie'
    exact absurd (Option.some.inj (honly j v version new f' hmem)).symm hj

theorem Live.closed_of_over (hl : Live u f b (some i))
    (hown : ∀ n, (i, n) ∈ b.server.world.log → ∃ x, replaced n = some x)
    (hover : Over u f b.server.world.log) : Closed u f b := by
  obtain ⟨e, he, hends⟩ := hover
  refine ⟨e, he, hends, .inl fun hin => ?_⟩
  refine replaced_ends ?_ hends
  by_cases heq : e.1 = i
  · exact hown e.2 (heq ▸ he)
  · exact (hl.settled e.1 hin fun hi => heq (Option.some.inj hi).symm).2 e.2 he

theorem rotated_replaced {log : AccountLog} (ho : OnlyRotated i h log) :
    ∀ n, (i, n) ∈ log → ∃ x, replaced n = some x := by
  intro n hn
  obtain ⟨v, version, new, f', rfl⟩ := ho n hn
  exact ⟨h, rfl⟩

/-- The request has come to its end, and to no more than the rotation of its token. -/
theorem Live.ended (hl : Live u f b (some i)) (idle : Idle b.server i)
    (hown : ∀ n, (i, n) ∈ b.server.world.log → ∃ x, replaced n = some x)
    {new : TokenHash} (given : Given u f new b.server.world.log)
    (unused : ∀ j v version x f', (j, Note.rotated v version new x f') ∉ b.server.world.log) :
    Live u f { b with cookie := some new } none := by
  refine ⟨⟨new, rfl, given, fun j v version x f' hmem => absurd hmem (unused j v version x f')⟩,
    hl.presented, fun j hj _ => ?_, fun _ hj => absurd hj (by simp), hl.outcomes⟩
  by_cases heq : j = i
  · subst heq
    exact ⟨idle, hown⟩
  · exact hl.settled j hj fun hi => heq (Option.some.inj hi).symm

/-- A request that has come to nothing leaves the cookie as good as it was. -/
theorem Live.nothing (hl : Live u f b (some i)) (idle : Idle b.server i)
    (silent : Silent i b.server.world) : Live u f b none := by
  obtain ⟨h, hcookie, given, honly⟩ := hl.token
  have unused : ∀ j v version x f', (j, Note.rotated v version h x f') ∉ b.server.world.log := by
    intro j v version x f' hmem
    cases honly j v version x f' hmem
    exact silent _ hmem
  have hl' := hl.ended idle (fun n hn => absurd hn (silent n)) given unused
  rw [← hcookie] at hl'
  exact hl'

/-- The answer to the request leaves the session as good as it was. -/
theorem Live.answered (hl : Live u f b (some i)) (run : Run (program platform) (fun _ _ _ _ => True) empty b.server)
    (unshared : Unshared u f b) {reply : Reply Answer} (ha : b.server.answer i = some reply) :
    Closed u f b ∨ (Live u f { b with cookie := responseCookie reply b.cookie } none ∧
      ∀ intact error, readResponse intact reply = .error error →
        isDefinitiveSessionRefreshError error = false) := by
  obtain ⟨hi, p, h, hp, hop, hcookie, hbefore⟩ := hl.now i rfl
  have outcome := (refresh_refusals run hp hop (hbefore i hi p h hp hop) ha).1
  have idle := idle_of_answer ha
  cases reply with
  | error why =>
    rcases outcome with hreason | ⟨rfl, silent⟩
    · exact .inl (hl.closed_of_reason hcookie hreason)
    · refine .inr ⟨hl.nothing idle silent, fun intact error herr => ?_⟩
      cases herr
      rfl
  | ok answer =>
    obtain ⟨user, access, new, rfl, hown, hreason⟩ := outcome
    rcases hreason with hreason | ⟨version, hmem⟩
    · exact .inl (hl.closed_of_reason hcookie hreason)
    have given : Given u f new b.server.world.log := ⟨i, version, .inr ⟨h, hmem⟩⟩
    refine or_iff_not_imp_left.2 fun hopen => ⟨hl.ended idle (rotated_replaced hown) given ?_, fun intact error herr => ?_⟩
    · intro k v version' x f' hrotated
      obtain ⟨q, hq, hqop⟩ := replaced_presented run hrotated
      have hgiven := hbefore k (unshared k q new hq hqop given) q new hq hqop
      exact hopen (hl.closed_of_over (rotated_replaced hown) (fresh_rotation run hp hgiven hmem))
    · cases intact <;> cases herr
      rfl

theorem Live.failed (hl : Live u f b none) (options : RefreshOptions) (attempt : Nat)
    {error : SessionRefreshError} (herr : isDefinitiveSessionRefreshError error = false) :
    Live u f (b.failed tab options attempt error) none := by
  unfold Browser.failed
  split
  · exact ⟨hl.token, hl.presented, hl.settled, hl.now, hl.outcomes⟩
  · refine ⟨hl.token, hl.presented, hl.settled, hl.now, fun tab' error' hmem => ?_⟩
    rcases List.mem_cons.1 hmem with heq | hmem
    · cases heq
      exact herr
    · exact hl.outcomes tab' error' hmem

theorem Live.read (hl : Live u f b none) (options : RefreshOptions) (attempt : Nat)
    {r : Except SessionRefreshError Session}
    (hr : ∀ error, r = .error error → isDefinitiveSessionRefreshError error = false) :
    Live u f (b.read tab options attempt r) none := by
  cases r with
  | error error => exact hl.failed _ _ (hr error rfl)
  | ok session =>
    refine ⟨hl.token, hl.presented, hl.settled, hl.now, fun tab' error' hmem => ?_⟩
    rcases List.mem_cons.1 hmem with heq | hmem
    · cases heq
    · exact hl.outcomes tab' error' hmem

/-- Whatever the server does for others, the session stays as good as it was. -/
theorem Live.others {asked : Option Nat} (hl : Live u f b asked) {c : AccountConfig}
    {sa : Interleaving.Action Op} (hs : Interleaving.step (program platform) b.server sa = some c)
    (run : Run (program platform) (fun _ _ _ _ => True) empty c)
    (unshared : Unshared u f { b with server := c }) : Live u f { b with server := c } asked := by
  have hlog := step_log hs
  have known : ∀ j ∈ b.sent, j < b.server.procs.length := by
    intro j hj
    obtain ⟨p, h, hp, -⟩ := hl.presented j hj
    exact (List.getElem?_eq_some_iff.1 hp).1
  refine ⟨?_, ?_, fun j hj hne => ?_, fun i hi => ?_, hl.outcomes⟩
  · obtain ⟨h, hcookie, given, honly⟩ := hl.token
    refine ⟨h, hcookie, given.mono hlog, fun j v version new f' hmem => ?_⟩
    by_contra hne
    obtain ⟨p, hp, hop⟩ := replaced_presented run hmem
    have hj : j ∈ b.sent := unshared j p h hp hop (given.mono hlog)
    have hold := (step_idle hs (known j hj) (hl.settled j hj hne).1).2 _ hmem
    exact hne (honly j v version new f' hold)
  · intro j hj
    obtain ⟨p, h, hp, hop, given⟩ := hl.presented j hj
    obtain ⟨p', hp', hop'⟩ := step_stays hs hp
    exact ⟨p', h, hp', hop'.trans hop, given.mono hlog⟩
  · obtain ⟨idle, hown⟩ := hl.settled j hj hne
    have hstep := step_idle hs (known j hj) idle
    exact ⟨hstep.1, fun n hn => hown n (hstep.2 n hn)⟩
  · obtain ⟨hsent, p, h, hp, hop, hcookie, hbefore⟩ := hl.now i hi
    obtain ⟨p', hp', hop', hborn⟩ := step_born hs hp
    refine ⟨hsent, p', h, hp', hop'.trans hop, hcookie, fun j hj q x hq hqop => ?_⟩
    obtain ⟨q₀, y, hq₀, hq₀op, -⟩ := hl.presented j hj
    obtain ⟨q', hq', hqop'⟩ := step_stays hs hq₀
    cases hq'.symm.trans hq
    rw [hborn]
    exact hbefore j hj q₀ x hq₀ (hqop'.symm.trans hqop)

/-- A request that goes out with the cookie is the only one on its way. -/
theorem Live.send (hl : Live u f b none) {token : TokenHash} (hcookie : b.cookie = some token)
    (options : RefreshOptions) (attempt : Nat) :
    Live u f (b.send platform tab options attempt token) (some b.server.procs.length) := by
  obtain ⟨h, hcookie', given, honly⟩ := hl.token
  cases hcookie.symm.trans hcookie'
  have hs : Interleaving.step (program platform) b.server (.start (.refresh token)) =
      some (b.server.spawn (program platform) (.refresh token)) := rfl
  have arrived : (b.server.spawn (program platform) (.refresh token)).procs[b.server.procs.length]? =
      some ⟨.refresh token, b.server.world, {}, some (program platform (.refresh token))⟩ := by
    simp [Config.spawn]
  have stays : ∀ j ∈ b.sent, ∃ p x, b.server.procs[j]? = some p ∧
      (b.server.spawn (program platform) (.refresh token)).procs[j]? = some p ∧ p.op = .refresh x ∧
      Given u f x b.server.world.log := by
    intro j hj
    obtain ⟨p, x, hp, hop, hx⟩ := hl.presented j hj
    have hlt : j < b.server.procs.length := (List.getElem?_eq_some_iff.1 hp).1
    refine ⟨p, x, hp, ?_, hop, hx⟩
    simpa [Config.spawn, List.getElem?_append_left hlt] using hp
  refine ⟨⟨token, hcookie, given, ?_⟩, fun j hj => ?_, fun j hj hne => ?_, fun i hi => ?_, hl.outcomes⟩
  · intro j v version new f' hmem
    cases honly j v version new f' hmem
  · rcases List.mem_cons.1 hj with rfl | hj
    · exact ⟨_, token, arrived, rfl, given⟩
    · obtain ⟨p, x, -, hp, hop, hx⟩ := stays j hj
      exact ⟨p, x, hp, hop, hx⟩
  · rcases List.mem_cons.1 hj with rfl | hj
    · exact absurd rfl hne
    · obtain ⟨p, x, hp, -⟩ := stays j hj
      obtain ⟨idle, hown⟩ := hl.settled j hj (by simp)
      have hstep := step_idle hs (List.getElem?_eq_some_iff.1 hp).1 idle
      exact ⟨hstep.1, fun n hn => hown n (hstep.2 n hn)⟩
  · cases hi
    refine ⟨List.mem_cons_self, _, token, arrived, rfl, hcookie, fun j hj q x hq hqop => ?_⟩
    rcases List.mem_cons.1 hj with rfl | hj
    · cases arrived.symm.trans hq
      cases hqop
      exact given
    · obtain ⟨p, y, -, hp, hop, hy⟩ := stays j hj
      cases hp.symm.trans hq
      cases hop.symm.trans hqop
      exact hy

theorem networkError_not_definitive (failure : NetworkFailure) :
    isDefinitiveSessionRefreshError (networkError failure) = false := by
  cases failure <;> rfl

theorem step_live {a : Action} (hs : step platform b a = some b') (hk : Kept platform u f b)
    (harm : Harmless b a) (run : Run (program platform) (fun _ _ _ _ => True) empty b'.server)
    (unshared : Unshared u f b') (hl : Live u f b (current b)) :
    Closed u f b ∨ Live u f b' (current b') := by
  have excl := hk.exclusive
  cases step_moves hs with
  | server hc => exact .inr (hl.others hc run unshared)
  | joined => exact .inr hl
  | @queued tab options hp =>
    have same : current (b.move tab (.queued options)) = current b := by
      unfold current
      cases hlock : b.lock with
      | none => simp [Browser.move, hlock]
      | some tab' =>
        by_cases heq : tab' = tab
        · subst heq
          simp [Browser.move, hlock, hp, Phase.request]
        · simp [Browser.move, hlock, heq]
    rw [same]
    exact .inr ⟨hl.token, hl.presented, hl.settled, hl.now, hl.outcomes⟩
  | @acquired tab options hp hlock =>
    have before : current b = none := by simp [current, hlock]
    have after : current { b.move tab (.trying options 0) with lock := some tab } = none := by
      simp [current, Browser.move, Phase.request]
    rw [before] at hl
    rw [after]
    exact .inr ⟨hl.token, hl.presented, hl.settled, hl.now, hl.outcomes⟩
  | missing hp hnone =>
    obtain ⟨h, hcookie, -⟩ := hl.token
    cases hnone.symm.trans hcookie
  | @sent tab options attempt token hp hcookie =>
    have hlock := excl.lock hp rfl
    have before : current b = none := excl.current hp rfl
    have after : current (b.send platform tab options attempt token) = some b.server.procs.length :=
      (excl.move hlock _).2
    rw [before] at hl
    rw [after]
    exact .inr (hl.send hcookie options attempt)
  | @unsent tab options attempt failure hp =>
    have before : current b = none := excl.current hp rfl
    rw [before] at hl
    rw [(excl.failed (excl.lock hp rfl) _ _ _).2]
    exact .inr (hl.failed _ _ (networkError_not_definitive failure))
  | @lost tab options attempt i failure hp =>
    have before : current b = some i := excl.current hp rfl
    obtain ⟨silent, idle⟩ := harm i (by rw [hp]; rfl)
    rw [before] at hl
    rw [(excl.failed (excl.lock hp rfl) _ _ _).2]
    exact .inr ((hl.nothing idle silent).failed _ _ (networkError_not_definitive failure))
  | @answered tab options attempt i reply intact hp ha =>
    have before : current b = some i := excl.current hp rfl
    rw [before] at hl
    refine (hl.answered hk.run hk.unshared ha).imp_right fun hread => ?_
    have excl' : Exclusive { b with cookie := responseCookie reply b.cookie } := excl
    rw [(excl'.read (excl.lock hp rfl) _ _ _).2]
    exact hread.1.read _ _ fun error => hread.2 intact error

theorem Kept.step (hk : Kept platform u f b) (hg : Goes platform u f b b') : Kept platform u f b' := by
  obtain ⟨a, hs, harm, unshared⟩ := hg
  have run := step_run hs hk.run
  refine ⟨run, unshared, step_exclusive hs hk.exclusive, ?_⟩
  rcases hk.live with hclosed | hl
  · exact .inl (step_closed hs hk.run hclosed)
  · exact (step_live hs hk harm run unshared hl).imp_left (step_closed hs hk.run)

theorem run_kept (hs : SignedIn platform u f b) (h : Relation.ReflTransGen (Goes platform u f) b b') :
    Kept platform u f b' := by
  induction h with
  | refl => exact hs.kept
  | tail _ hg ih => exact ih.step hg

end Session

section Example

def isRefresh : Op → Bool
  | .refresh _ => true
  | _ => false

/-- No answer is given up, and nobody else refreshes anything. -/
def alone (a : Action) (b : Browser) : Bool :=
  (match a with | .lost _ _ => false | _ => true) &&
    b.server.procs.zipIdx.all fun p => !isRefresh p.1.op || p.2 ∈ b.sent

def exec (b : Browser) : List Action → Option Browser
  | [] => some b
  | a :: rest => (step plainPlatform b a).bind fun b' => if alone a b' then exec b' rest else none

theorem goes_of_alone {a : Action} (hs : step platform b a = some b') (ha : alone a b' = true) :
    Goes platform u f b b' := by
  obtain ⟨hlost, hall⟩ := Bool.and_eq_true_iff.1 ha
  refine ⟨a, hs, ?_, fun j p h hp hop _ => ?_⟩
  · cases a with
    | lost => cases hlost
    | _ => exact trivial
  · have hmem : (p, j) ∈ b'.server.procs.zipIdx := List.mem_zipIdx_iff_getElem?.2 hp
    have hj := List.all_eq_true.1 hall _ hmem
    simpa [isRefresh, hop] using hj

theorem goes_of_exec (as : List Action) (h : exec b as = some b') :
    Relation.ReflTransGen (Goes plainPlatform u f) b b' := by
  induction as generalizing b with
  | nil =>
    cases h
    exact .refl
  | cons a rest ih =>
    obtain ⟨b₁, hs, hrest⟩ := Option.bind_eq_some_iff.1 h
    split at hrest
    · exact .head (goes_of_alone hs ‹_›) (ih hrest)
    · cases hrest

def opened (server : AccountConfig) : Browser := ⟨server, some 5, none, fun _ => .idle, [], []⟩

def defaultOptions : RefreshOptions := ⟨[100, 300], false⟩

/-- Two tabs refresh at once; the second of them finds the cookie that the first has left. -/
def twoTabs : List Action :=
  [.refreshSession 0 defaultOptions, .refreshSession 1 defaultOptions, .acquire 0, .attempt 0] ++
    (refreshing 1 5 6).tail.map .server ++ [.answered 0 true, .acquire 1, .attempt 1] ++
    (refreshing 2 6 7).tail.map .server ++ [.answered 1 true]

def opens : Note → Bool
  | .registered _ | .stored _ _ _ _ | .rotated _ _ _ _ _ => true
  | _ => false

theorem not_closed_of_opens (ho : b.server.world.log.all (fun e => opens e.2) = true) : ¬ Closed u f b := by
  rintro ⟨e, he, hends, -⟩
  have hopens := List.all_eq_true.1 ho e he
  obtain ⟨j, n⟩ := e
  cases n <;> first | exact hends | cases hopens

end Example

end Runs

end RefreshLock
