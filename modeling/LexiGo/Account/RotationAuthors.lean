import LexiGo.Account.AccountRuns
import LexiGo.ReadCommitted.KnownCommits

/-! Only a refresh rotates a token, and only the token it was presented with. Every program
is gone through once; what a run commits follows from the requests it has seen. -/
namespace RotationAuthors
open RowStore TransactionProgram Interleaving CommitContract RowStatements
open KnownCommits ConfinedWrites
open AccountSchema AccountMachine AccountRepository AccountService AccountRefinement AccountRuns

variable {allow : Nat → List Note → AccountWorld → AccountWorld → Prop} {platform : Platform}

/-- The token that a commit replaces. -/
def replaced : Note → Option TokenHash
  | .rotated _ _ old _ _ => some old
  | _ => none

/-- The tokens that the program replaces are in `T`. -/
abbrev Replaces (T : TokenHash → Prop) (p : AccountProg α) : Prop :=
  Confined (fun _ _ => True) (fun notes => ∀ n ∈ notes, ∀ h ∈ replaced n, T h) p

variable {T : TokenHash → Prop}

theorem commit_replaces {n : Note} (hn : ∀ h ∈ replaced n, T h) : Replaces T (commit [n]) :=
  .commit fun m hm => by rwa [List.mem_singleton.1 hm]

theorem commit_none {n : Note} (hn : replaced n = none) : Replaces T (commit [n]) :=
  commit_replaces fun h hh => by simp [hn] at hh

theorem genRandomUuid_replaces : Replaces T genRandomUuid := by
  refine .bind .choose fun n => .bind (.insertRow trivial) fun inserted => ?_
  cases inserted <;> exact .pure _

theorem updates_replaces (p : ∀ k, Row k → Bool) (g : ∀ k, Row k → Row k) (seen : List Key) :
    Replaces T (updateRows .noKeyUpdate p g seen) := .updateRows _ _ (fun _ _ _ => trivial) _

theorem revokeFamily_replaces (f : FamilyId) (g : RefreshToken → RefreshToken) :
    Replaces T (revokeFamily f g) :=
  .bind (.select _) fun seen => .bind (updates_replaces _ _ seen) fun _ => .pure _

theorem spendPasswordResets_replaces (u : UserId) (now : Instant) : Replaces T (spendPasswordResets u now) :=
  .bind (.select _) fun seen => .bind (updates_replaces _ _ seen) fun _ => .pure _

theorem spendEmailChanges_replaces (u : UserId) (now : Instant) : Replaces T (spendEmailChanges u now) :=
  .bind (.select _) fun seen => .bind (updates_replaces _ _ seen) fun _ => .pure _

theorem updateTokensOf_replaces (u : UserId) (p : RefreshToken → Bool) (g : RefreshToken → RefreshToken) :
    Replaces T (updateTokensOf u p g) :=
  .bind (.select _) fun seen => .bind (updates_replaces _ _ seen) fun _ => .pure _

theorem referenceUser_replaces (u : UserId) : Replaces T (referenceUser u) :=
  .bind (.lockRow _ _) fun _ => .select _

theorem create_replaces (email passwordHash displayName : String) :
    Replaces T (create email passwordHash displayName) := by
  refine .bind genRandomUuid_replaces fun id => ?_
  cases id with
  | none => exact .leave _
  | some id =>
    refine .bind (.lockRow _ _) fun _ => .bind (.select _) fun taken => ?_
    split
    · exact .leave _
    · refine .bind (.insertRow trivial) fun inserted => ?_
      split
      · exact .bind (commit_none rfl) fun _ => .pure _
      · exact .leave _

theorem store_replaces (u : UserId) (version : Nat) (hash : TokenHash) (expiresAt : Instant) :
    Replaces T (store u version hash expiresAt) := by
  refine .bind (.selectFor _ _ _) fun user => ?_
  cases user with
  | none => exact .leave _
  | some user =>
    dsimp only
    split
    · exact .leave _
    · refine .bind genRandomUuid_replaces fun family => ?_
      cases family with
      | none => exact .leave _
      | some family =>
        refine .bind (.insertRow trivial) fun inserted => ?_
        split
        · exact .bind (commit_none rfl) fun _ => .pure _
        · exact .leave _

theorem revoke_replaces (hash : TokenHash) : Replaces T (revoke hash) := by
  refine .bind .choose fun dbNow => .bind (.selectFor _ _ _) fun token => ?_
  cases token with
  | none => exact .leave _
  | some token =>
    refine .bind (revokeFamily_replaces _ _) fun result => ?_
    dsimp only
    split
    · exact .leave _
    · exact .bind (commit_none rfl) fun _ => .pure _

theorem replacePasswordReset_replaces (u : UserId) (hash : TokenHash) (expiresAt : Instant) :
    Replaces T (replacePasswordReset u hash expiresAt) := by
  refine .bind .choose fun dbNow => .bind (spendPasswordResets_replaces _ _) fun seen => ?_
  refine .bind (.insertRow trivial) fun inserted => ?_
  split
  · refine .bind (referenceUser_replaces u) fun found => ?_
    split
    · exact .bind (commit_none rfl) fun _ => .pure _
    · exact .leave _
  · exact .leave _

theorem consumePasswordReset_replaces (hash : TokenHash) (passwordHash : String) (now : Instant) :
    Replaces T (consumePasswordReset hash passwordHash now) := by
  refine .bind (.selectFor _ _ _) fun token => ?_
  cases token with
  | none => exact .leave _
  | some token =>
    dsimp only
    split
    · exact .leave _
    · refine .bind (.updateRow _ _ fun _ => trivial) fun _ => ?_
      refine .bind (spendPasswordResets_replaces _ _) fun seen => ?_
      exact .bind (updateTokensOf_replaces _ _ _) fun _ => .bind (commit_none rfl) fun _ => .pure _

theorem revokeOthers_replaces {change : UserRow → UserRow} {between : AccountProg (List Key)}
    {note : FamilyId → List Key → Note} (hbetween : Replaces T between)
    (hnote : ∀ f seen, replaced (note f seen) = none) (u : UserId) (current : TokenHash)
    (expected : String) (now : Instant) :
    Replaces T (revokeOthers u current expected now change between note) := by
  refine .bind (.selectFor _ _ _) fun user => ?_
  cases user with
  | none => exact .leave _
  | some user =>
    dsimp only
    split
    · exact .leave _
    refine .bind (.bind (.selectFor _ _ _) fun found => .pure _) fun family => ?_
    cases family with
    | none => exact .leave _
    | some family =>
      refine .bind (.updateRow _ _ fun _ => trivial) fun previous => ?_
      cases previous with
      | none => exact .leave _
      | some previous =>
        dsimp only
        split
        · exact .leave _
        · refine .bind (updateTokensOf_replaces _ _ _) fun _ => .bind hbetween fun seen => ?_
          refine .bind (updateTokensOf_replaces _ _ _) fun _ => ?_
          exact .bind (commit_none (hnote _ _)) fun _ => .pure _

theorem replaceEmailChange_replaces (u : UserId) (oldEmail newEmail : String) (hash : TokenHash)
    (createdAt expiresAt : Instant) :
    Replaces T (replaceEmailChange u oldEmail newEmail hash createdAt expiresAt) := by
  refine .bind (.select _) fun taken => ?_
  split
  · exact .leave _
  · refine .bind (spendEmailChanges_replaces _ _) fun seen => .bind (.insertRow trivial) fun inserted => ?_
    split
    · refine .bind (referenceUser_replaces u) fun found => ?_
      split
      · exact .bind (commit_none rfl) fun _ => .pure _
      · exact .leave _
    · exact .leave _

theorem cancelEmailChange_replaces (hash : TokenHash) (cancelledAt : Instant) :
    Replaces T (cancelEmailChange hash cancelledAt) := by
  refine .bind (.updateRow _ _ fun _ => trivial) fun found => ?_
  cases found with
  | none => exact trivial
  | some r => exact commit_none rfl

theorem consumeEmailChange_replaces (hash : TokenHash) (confirmedAt : Instant) :
    Replaces T (consumeEmailChange hash confirmedAt) := by
  refine .bind (.selectFor _ _ _) fun token => ?_
  cases token with
  | none => exact .leave _
  | some token =>
    dsimp only
    split
    · exact .leave _
    refine .bind (.selectFor _ _ _) fun user => ?_
    cases user with
    | none => exact .leave _
    | some user =>
      refine .bind (.lockRow _ _) fun _ => .bind (.lockRow _ _) fun _ => .bind (.select _) fun taken => ?_
      split
      · exact .leave _
      · refine .bind (.writeRow trivial _) fun _ => .bind (spendEmailChanges_replaces _ _) fun seen => ?_
        exact .bind (updateTokensOf_replaces _ _ _) fun _ => .bind (commit_none rfl) fun _ => .pure _

theorem delete_replaces (u : UserId) (expected : String) : Replaces T (delete u expected) := by
  refine .bind (.selectFor _ _ _) fun user => ?_
  cases user with
  | none => exact .leave _
  | some user =>
    refine .bind (.lockRow _ _) fun _ => .bind (.writeRow trivial _) fun _ => ?_
    refine .bind (.deleteWhere _ fun _ _ _ => trivial) fun _ => ?_
    refine .bind (.deleteWhere _ fun _ _ _ => trivial) fun _ => ?_
    refine .bind (.deleteWhere _ fun _ _ _ => trivial) fun _ => ?_
    exact .bind (commit_none rfl) fun _ => .pure _


theorem byEmail_replaces (email : String) : Replaces T (byEmail email) := by
  refine .bind (.select _) fun found => ?_
  cases found <;> exact .pure _

theorem byID_replaces (u : UserId) : Replaces T (byID u) := by
  refine .bind (.select _) fun found => ?_
  cases found <;> exact .pure _

theorem identity_replaces (u : UserId) : Replaces T (identity u) := by
  refine .bind (.select _) fun found => ?_
  cases found <;> exact .pure _

theorem signIn_replaces (user : User) : Replaces T (signIn user) := by
  refine .andThen (.bind .choose fun accessExpiresAt => ?_) fun _ => .pure _
  cases issueAccess user accessExpiresAt with
  | error e => exact .pure _
  | ok access =>
    refine .bind .choose fun _ => .bind .choose fun _ => ?_
    exact .andThen (store_replaces _ _ _ _) fun _ => .pure _

theorem withVersion_replaces (user : User) (version : Nat) (refresh : Option TokenHash) :
    Replaces T (withVersion user version refresh) := by
  refine .bind .choose fun expiresAt => ?_
  dsimp only
  cases issueAccess { user with authVersion := version } expiresAt <;> exact .pure _

theorem login_replaces (email password : String) : Replaces T (login platform email password) := by
  refine .bind (byEmail_replaces email) fun r => ?_
  cases r with
  | error e => cases e <;> exact .pure _
  | ok user =>
    dsimp only
    split_ifs
    · exact signIn_replaces user
    · exact .pure _

theorem validateAccess_replaces (token : AccessToken) : Replaces T (validateAccess token) := by
  refine .bind .choose fun now => ?_
  split_ifs
  · exact .pure _
  unfold currentAccess
  refine .bind (.bind (.select _) fun found => ?_) fun r => ?_
  · cases found <;> exact .pure _
  cases r with
  | error e => cases e <;> exact .pure _
  | ok current =>
    dsimp only
    split_ifs <;> exact .pure _

theorem rotate_replaces (old new : TokenHash) (expiresAt : Instant) :
    Replaces (· = old) (rotate old new expiresAt) := by
  refine .bind .choose fun dbNow => .bind (.select _) fun found => ?_
  cases found with
  | none => exact .leave _
  | some userId =>
    refine .bind (.selectFor _ _ _) fun user => ?_
    cases user with
    | none => exact .leave _
    | some user =>
      refine .bind (.selectFor _ _ _) fun token => ?_
      cases token with
      | none => exact .leave _
      | some token =>
        refine .bind .choose fun clock => ?_
        dsimp only
        split
        · exact .bind (revokeFamily_replaces _ _) fun _ => .bind (commit_none rfl) fun _ => .pure _
        split
        · split
          · exact .leave _
          · exact .bind (revokeFamily_replaces _ _) fun _ => .bind (commit_none rfl) fun _ => .pure _
        split
        · refine .bind (.updateRow _ _ fun _ => trivial) fun _ => ?_
          exact .bind (commit_none rfl) fun _ => .pure _
        · refine .bind (.updateRow _ _ fun _ => trivial) fun _ => ?_
          refine .bind (.insertRow trivial) fun inserted => ?_
          split
          · exact .bind (commit_replaces fun h hh => (Option.some.inj hh).symm) fun _ => .pure _
          · exact .leave _

theorem refresh_replaces (token : TokenHash) : Replaces (· = token) (refresh token) := by
  refine .bind .choose fun _ => .bind .choose fun _ => ?_
  refine .andThen (rotate_replaces _ _ _) fun ⟨userId, version⟩ => ?_
  exact .andThen (byID_replaces userId) fun user => withVersion_replaces _ _ _

theorem requestPasswordReset_replaces (email : String) : Replaces T (requestPasswordReset email) := by
  refine .bind (byEmail_replaces email) fun r => ?_
  cases r with
  | error e => cases e <;> exact .pure _
  | ok user =>
    refine .bind .choose fun _ => .bind .choose fun _ => ?_
    exact .andThen (replacePasswordReset_replaces _ _ _) fun _ => .pure _

theorem reauthenticate_replaces (u : UserId) (currentPassword : String) :
    Replaces T (reauthenticate platform u currentPassword) := by
  refine .andThen (byID_replaces u) fun user => ?_
  split_ifs <;> exact .pure _

theorem confirmIdentity_replaces (u : UserId) (currentPassword : String) :
    Replaces T (confirmIdentity platform u currentPassword) := by
  refine .andThen (identity_replaces u) fun user => ?_
  split_ifs <;> exact .pure _

theorem changePassword_replaces (u : UserId) (token : TokenHash) (currentPassword newPassword : String) :
    Replaces T (changePassword platform u token currentPassword newPassword) := by
  refine .andThen (reauthenticate_replaces u currentPassword) fun user => ?_
  split_ifs
  · exact .pure _
  refine .bind .choose fun _ => .bind .choose fun _ => ?_
  refine .andThen ?_ fun version => withVersion_replaces _ _ _
  exact revokeOthers_replaces (spendPasswordResets_replaces _ _) (fun _ _ => rfl) _ _ _ _

theorem revokeOtherSessions_replaces (u : UserId) (token : TokenHash) (currentPassword : String) :
    Replaces T (AccountService.revokeOtherSessions platform u token currentPassword) := by
  refine .andThen (reauthenticate_replaces u currentPassword) fun user => .bind .choose fun _ => ?_
  refine .andThen ?_ fun version => withVersion_replaces _ _ _
  exact revokeOthers_replaces (.pure _) (fun _ _ => rfl) _ _ _ _

theorem requestEmailChange_replaces (u : UserId) (currentPassword newEmail : String) :
    Replaces T (requestEmailChange platform u currentPassword newEmail) := by
  refine .andThen (confirmIdentity_replaces u currentPassword) fun user => ?_
  split_ifs
  · exact .pure _
  refine .bind .choose fun hash => .bind .choose fun _ => .bind .choose fun _ => ?_
  refine .andThen (replaceEmailChange_replaces _ _ _ _ _ _) fun _ => .bind .choose fun _ => ?_
  split_ifs
  · exact .bind .choose fun _ => .bind (cancelEmailChange_replaces hash _) fun _ => .pure _
  · exact .pure _

theorem deleteAccount_replaces (u : UserId) (currentPassword confirmationEmail : String) :
    Replaces T (deleteAccount platform u currentPassword confirmationEmail) := by
  refine .andThen (confirmIdentity_replaces u currentPassword) fun user => ?_
  split_ifs
  · exact .andThen (delete_replaces _ _) fun _ => .pure _
  · exact .pure _

theorem program_replaces (op : Op) : Replaces (fun h => op = .refresh h) (program platform op) := by
  cases op with
  | register =>
    exact .bind .choose fun _ => .andThen (create_replaces _ _ _) fun user => signIn_replaces user
  | login => exact login_replaces _ _
  | refresh token =>
    exact (refresh_replaces token).imp fun notes hnotes n hn h hh => by rw [hnotes n hn h hh]
  | logout token => exact .andThen (revoke_replaces token) fun _ => .pure _
  | validateAccess => exact validateAccess_replaces _
  | requestPasswordReset => exact requestPasswordReset_replaces _
  | resetPassword =>
    refine .bind .choose fun _ => .bind .choose fun _ => ?_
    exact .andThen (consumePasswordReset_replaces _ _ _) fun _ => .pure _
  | changePassword => exact changePassword_replaces _ _ _ _
  | revokeOtherSessions => exact revokeOtherSessions_replaces _ _ _
  | requestEmailChange => exact requestEmailChange_replaces _ _ _
  | confirmEmailChange token =>
    exact .bind .choose fun _ => .andThen (consumeEmailChange_replaces _ _) fun _ => .pure _
  | deleteAccount => exact deleteAccount_replaces _ _ _

/-- Whoever has replaced a token was presented with it. -/
theorem replaced_presented {c : AccountConfig} (h : Run (program platform) allow empty c)
    {i version : Nat} {u : UserId} {old new : TokenHash} {f : FamilyId}
    (hmem : (i, Note.rotated u version old new f) ∈ c.world.log) :
    ∃ p, c.procs[i]? = some p ∧ p.op = .refresh old := by
  obtain ⟨p, notes, hp, hnotes, hn⟩ := run_authors program_replaces ⟨rfl, rfl⟩ h hmem
  exact ⟨p, hp, hnotes _ hn old rfl⟩

end RotationAuthors
