import LexiGo.Account.AccountRefinement

/-! Runs of any number of account requests, as histories of the account machine. -/
namespace AccountRuns
open RowStore TransactionProgram Interleaving CommitContract RowStatements RunSoundness
open AccountSchema AccountMachine AccountRepository AccountService AccountRefinement

variable {allow : Nat → List Note → AccountWorld → AccountWorld → Prop} {platform : Platform}

abbrev AccountConfig := Config Row Note Op (Reply Answer)

abbrev AccountHistory (allow : Nat → List Note → AccountWorld → AccountWorld → Prop) :=
  History (accountContract allow)

/-- Passwords kept as they are, for runs that are followed step by step. -/
def plainPlatform : Platform := ⟨fun _ p => p, fun h p => h = p, fun a b => a = b⟩

/-- Nobody has registered yet. -/
def empty : AccountConfig := ⟨⟨∅, []⟩, []⟩

/-- User 1 signs up and is given the refresh token 5 of family 2. -/
def signUp : List (Action Op) :=
  .start (.register "ada@example.org" "secret" "Ada") ::
    steps 0 [0, 1, 0, 0, 0, 0, 0, 0, 0, 0, 0, 1000, 5, 1000, 0, 0, 0, 2, 0, 0, 0, 0, 0, 0, 0]

/-- Request `i` rotates the token `old`. -/
def refreshing (i : Nat) (old new : TokenHash) : List (Action Op) :=
  .start (.refresh old) ::
    steps i [new, 1000, 10, 0, 0, 0, 0, 0, 0, 0, 20, 0, 0, 0, 0, 0, 0, 0, 0, 0, 1000]

theorem byEmail_keeps (email : String) : Keeps allow (byEmail email) := by
  refine .bind (.select _) fun found => ?_
  cases found <;> exact .pure _

theorem byID_keeps (u : UserId) : Keeps allow (byID u) := by
  refine .bind (.select _) fun found => ?_
  cases found <;> exact .pure _

theorem identity_keeps (u : UserId) : Keeps allow (identity u) := by
  refine .bind (.select _) fun found => ?_
  cases found <;> exact .pure _

/-- A request that goes on only with the value of what it asked for. -/
theorem andThen_keeps {p : AccountProg (Reply α)} {f : α → AccountProg (Reply β)}
    (hp : Keeps allow p) (hf : ∀ a, Keeps allow (f a)) :
    Keeps allow (andThen p f) := by
  refine .bind hp fun r => ?_
  cases r with
  | error e => exact .pure _
  | ok a => exact hf a

theorem issuePair_keeps (user : User) : Keeps allow (issuePair user) := by
  refine .bind .choose fun accessExpiresAt => ?_
  cases issueAccess user accessExpiresAt with
  | error e => exact .pure _
  | ok access =>
    refine .bind .choose fun _ => .bind .choose fun _ => ?_
    exact andThen_keeps (store_keeps _ _ _ _) fun _ => .pure _

theorem signIn_keeps (user : User) : Keeps allow (signIn user) :=
  andThen_keeps (issuePair_keeps user) fun _ => .pure _

theorem withVersion_keeps (user : User) (version : Nat) (refresh : Option TokenHash) :
    Keeps allow (withVersion user version refresh) := by
  refine .bind .choose fun expiresAt => ?_
  dsimp only
  cases issueAccess { user with authVersion := version } expiresAt <;> exact .pure _

theorem register_keeps (email password displayName : String) :
    Keeps allow (register platform email password displayName) :=
  .bind .choose fun _ => andThen_keeps (create_keeps _ _ _) fun user => signIn_keeps user

theorem login_keeps (email password : String) : Keeps allow (login platform email password) := by
  refine .bind (byEmail_keeps email) fun r => ?_
  cases r with
  | error e => cases e <;> exact .pure _
  | ok user =>
    dsimp only
    split_ifs
    · exact signIn_keeps user
    · exact .pure _

theorem refresh_keeps (token : TokenHash) : Keeps allow (refresh token) := by
  refine .bind .choose fun _ => .bind .choose fun _ => ?_
  refine andThen_keeps (rotate_keeps _ _ _) fun ⟨userId, version⟩ => ?_
  exact andThen_keeps (byID_keeps userId) fun user => withVersion_keeps _ _ _

theorem logout_keeps (token : TokenHash) : Keeps allow (logout token) :=
  andThen_keeps (revoke_keeps token) fun _ => .pure _

theorem validateAccess_keeps (token : AccessToken) : Keeps allow (validateAccess token) := by
  refine .bind .choose fun now => ?_
  split_ifs
  · exact .pure _
  unfold currentAccess
  refine .bind (.bind (.select _) fun found => ?_) fun r => ?_
  · cases found <;> exact .pure _
  cases r with
  | error e => cases e <;> exact .pure _
  | ok current =>
    dsimp only
    split_ifs <;> exact .pure _

theorem requestPasswordReset_keeps (email : String) :
    Keeps allow (requestPasswordReset email) := by
  refine .bind (byEmail_keeps email) fun r => ?_
  cases r with
  | error e => cases e <;> exact .pure _
  | ok user =>
    refine .bind .choose fun _ => .bind .choose fun _ => ?_
    exact andThen_keeps (replacePasswordReset_keeps _ _ _) fun _ => .pure _

theorem resetPassword_keeps (token : TokenHash) (newPassword : String) :
    Keeps allow (resetPassword platform token newPassword) :=
  .bind .choose fun _ => .bind .choose fun _ =>
    andThen_keeps (consumePasswordReset_keeps _ _ _) fun _ => .pure _

theorem reauthenticate_keeps (u : UserId) (currentPassword : String) :
    Keeps allow (reauthenticate platform u currentPassword) := by
  refine andThen_keeps (byID_keeps u) fun user => ?_
  split_ifs <;> exact .pure _

theorem confirmIdentity_keeps (u : UserId) (currentPassword : String) :
    Keeps allow (confirmIdentity platform u currentPassword) := by
  refine andThen_keeps (identity_keeps u) fun user => ?_
  split_ifs <;> exact .pure _

theorem changePassword_service_keeps (u : UserId) (token : TokenHash)
    (currentPassword newPassword : String) :
    Keeps allow (changePassword platform u token currentPassword newPassword) := by
  refine andThen_keeps (reauthenticate_keeps u currentPassword) fun user => ?_
  split_ifs
  · exact .pure _
  refine .bind .choose fun _ => .bind .choose fun _ => ?_
  exact andThen_keeps (changePassword_keeps _ _ _ _ _) fun version => withVersion_keeps _ _ _

theorem revokeOtherSessions_service_keeps (u : UserId) (token : TokenHash)
    (currentPassword : String) :
    Keeps allow (AccountService.revokeOtherSessions platform u token currentPassword) := by
  refine andThen_keeps (reauthenticate_keeps u currentPassword) fun user => ?_
  refine .bind .choose fun _ => ?_
  exact andThen_keeps (revokeOtherSessions_keeps _ _ _ _) fun version => withVersion_keeps _ _ _

theorem requestEmailChange_keeps (u : UserId) (currentPassword newEmail : String) :
    Keeps allow (requestEmailChange platform u currentPassword newEmail) := by
  refine andThen_keeps (confirmIdentity_keeps u currentPassword) fun user => ?_
  split_ifs
  · exact .pure _
  refine .bind .choose fun hash => .bind .choose fun _ => .bind .choose fun _ => ?_
  refine andThen_keeps (replaceEmailChange_keeps _ _ _ _ _ _) fun _ => .bind .choose fun _ => ?_
  split_ifs
  · exact .bind .choose fun _ => .bind (cancelEmailChange_keeps hash _) fun _ => .pure _
  · exact .pure _

theorem confirmEmailChange_keeps (token : TokenHash) : Keeps allow (confirmEmailChange token) :=
  .bind .choose fun _ => andThen_keeps (consumeEmailChange_keeps _ _) fun _ => .pure _

theorem deleteAccount_keeps (u : UserId) (currentPassword confirmationEmail : String) :
    Keeps allow (deleteAccount platform u currentPassword confirmationEmail) := by
  refine andThen_keeps (confirmIdentity_keeps u currentPassword) fun user => ?_
  split_ifs
  · exact andThen_keeps (delete_keeps _ _) fun _ => .pure _
  · exact .pure _

theorem program_keeps (op : Op) : Keeps allow (program platform op) := by
  cases op with
  | register => exact register_keeps _ _ _
  | login => exact login_keeps _ _
  | refresh => exact refresh_keeps _
  | logout => exact logout_keeps _
  | validateAccess => exact validateAccess_keeps _
  | requestPasswordReset => exact requestPasswordReset_keeps _
  | resetPassword => exact resetPassword_keeps _ _
  | changePassword => exact changePassword_service_keeps _ _ _ _
  | revokeOtherSessions => exact revokeOtherSessions_service_keeps _ _ _
  | requestEmailChange => exact requestEmailChange_keeps _ _ _
  | confirmEmailChange => exact confirmEmailChange_keeps _
  | deleteAccount => exact deleteAccount_keeps _ _ _

theorem account_sound :
    Sound (accountContract allow) (program platform) (fun _ _ _ _ _ => True) := by
  intro op i w _
  refine wp_mono ?_ (program_keeps op i w)
  intro _ _ _ _ _ _ _
  trivial

theorem empty_safe : Safe (accountContract allow) (fun _ _ _ _ _ => True) empty :=
  safe_init fun h r hr => by simp [view] at hr

/-- Every run from the empty database is a history of the account machine. -/
theorem run_history {c : AccountConfig} (h : Run (program platform) allow empty c) :
    Safe (accountContract allow) (fun _ _ _ _ _ => True) c ∧
      AccountHistory allow empty.world c.world :=
  run_sound account_sound h empty_safe

/-- A commit is one step of the account machine, and the log says which. -/
theorem commits_step {w w' : AccountWorld} (h : Commits (accountContract allow) w w') :
    ∃ i n, w'.log = (i, n) :: w.log ∧ Step n (view w.db) (view w'.db) ∧ allow i [n] w w' := by
  obtain ⟨i, notes, hc⟩ := h
  obtain ⟨n, rfl, hstep⟩ := hc.step
  exact ⟨i, n, hc.log, hstep, hc.allow⟩

theorem commits_linked {w w' : AccountWorld} (h : Commits (accountContract allow) w w') :
    Linked (view w.db) := by
  obtain ⟨i, notes, hc⟩ := h
  exact hc.before

theorem history_issued {w w' : AccountWorld} (h : AccountHistory allow w w')
    (hw : Issued (view w.db)) : Issued (view w'.db) := by
  have keeps : ∀ v v', Commits (accountContract allow) v v' → Issued (view v.db) →
      Issued (view v'.db) := by
    intro v v' hc hv
    obtain ⟨i, n, -, hstep, -⟩ := commits_step hc
    exact hstep.keeps_issued hv
  exact history_keeps h keeps hw

theorem empty_issued : Issued (view empty.world.db) :=
  ⟨fun u r hr => by simp [view, empty] at hr, fun h r hr => by simp [view, empty] at hr⟩

end AccountRuns
