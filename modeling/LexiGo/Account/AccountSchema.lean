import LexiGo.ReadCommitted.TransactionProgram

/-! The tables behind an account and its sessions: users, refresh tokens,
password reset tokens and e-mail change tokens. Digests, passwords and
addresses are values that are only ever compared; instants are nanoseconds. -/
namespace AccountSchema
open RowStore TransactionProgram

abbrev UserId := Nat
abbrev FamilyId := Nat
abbrev TokenHash := Nat
abbrev Instant := Nat

/-- `email` is an entry of `users_email_unique_idx`: whoever adds or removes an
address holds it until the end of the transaction. `uuid` records what
`gen_random_uuid` has handed out. Neither stands for rows anyone reads. -/
inductive Key
  | user (id : UserId)
  | refreshToken (hash : TokenHash)
  | passwordReset (hash : TokenHash)
  | emailChange (hash : TokenHash)
  | email (address : String)
  | uuid (id : Nat)
  deriving DecidableEq

structure UserRow where
  email : String
  passwordHash : String
  displayName : String
  authVersion : Nat
  deriving DecidableEq

structure RefreshToken where
  userId : UserId
  familyId : FamilyId
  authVersion : Nat
  expiresAt : Instant
  revokedAt : Option Instant := none
  replacedByHash : Option TokenHash := none
  reuseDetectedAt : Option Instant := none
  deriving DecidableEq

structure PasswordReset where
  userId : UserId
  expiresAt : Instant
  usedAt : Option Instant := none
  deriving DecidableEq

structure EmailChange where
  userId : UserId
  oldEmail : String
  newEmail : String
  expiresAt : Instant
  usedAt : Option Instant := none
  deriving DecidableEq

abbrev Row : Key → Type
  | .user _ => UserRow
  | .refreshToken _ => RefreshToken
  | .passwordReset _ => PasswordReset
  | .emailChange _ => EmailChange
  | .email _ => Unit
  | .uuid _ => Unit

abbrev AccountDb := Db Row

/-- `coalesce(column, now)` -/
def coalesce (column : Option Instant) (now : Instant) : Option Instant :=
  some (column.getD now)

@[simp] theorem coalesce_isSome (column : Option Instant) (now : Instant) :
    (coalesce column now).isSome = true := rfl

def UserRow.withPassword (passwordHash : String) (r : UserRow) : UserRow :=
  { r with passwordHash := passwordHash, authVersion := r.authVersion + 1 }

def UserRow.bump (r : UserRow) : UserRow := { r with authVersion := r.authVersion + 1 }

def RefreshToken.revoke (now : Instant) (r : RefreshToken) : RefreshToken :=
  { r with revokedAt := coalesce r.revokedAt now }

theorem revoke_of_revoked {r : RefreshToken} (h : r.revokedAt ≠ none) (now : Instant) :
    r.revoke now = r := by
  obtain ⟨userId, familyId, authVersion, expiresAt, revokedAt, replacedByHash, reuse⟩ := r
  cases revokedAt with
  | none => exact absurd rfl h
  | some _ => rfl

def RefreshToken.markReuse (now : Instant) (r : RefreshToken) : RefreshToken :=
  { r.revoke now with reuseDetectedAt := coalesce r.reuseDetectedAt now }

def RefreshToken.replaceBy (hash : TokenHash) (now : Instant) (r : RefreshToken) : RefreshToken :=
  { r with revokedAt := some now, replacedByHash := some hash }

def RefreshToken.advance (version : Nat) (r : RefreshToken) : RefreshToken :=
  { r with authVersion := version }

def PasswordReset.spend (now : Instant) (r : PasswordReset) : PasswordReset :=
  { r with usedAt := coalesce r.usedAt now }

def EmailChange.spend (now : Instant) (r : EmailChange) : EmailChange :=
  { r with usedAt := coalesce r.usedAt now }

/-- Conditions on the rows of one table, and changes to them. -/
def refreshTokens (p : RefreshToken → Bool) : ∀ k, Row k → Bool
  | .refreshToken _, r => p r
  | _, _ => false

def passwordResets (p : PasswordReset → Bool) : ∀ k, Row k → Bool
  | .passwordReset _, r => p r
  | _, _ => false

def emailChanges (p : EmailChange → Bool) : ∀ k, Row k → Bool
  | .emailChange _, r => p r
  | _, _ => false

def users (p : UserId → UserRow → Bool) : ∀ k, Row k → Bool
  | .user u, r => p u r
  | _, _ => false

def onRefreshToken (g : RefreshToken → RefreshToken) : ∀ k, Row k → Row k
  | .refreshToken _, r => g r
  | .user _, r | .passwordReset _, r | .emailChange _, r | .email _, r | .uuid _, r => r

def onPasswordReset (g : PasswordReset → PasswordReset) : ∀ k, Row k → Row k
  | .passwordReset _, r => g r
  | .user _, r | .refreshToken _, r | .emailChange _, r | .email _, r | .uuid _, r => r

def onEmailChange (g : EmailChange → EmailChange) : ∀ k, Row k → Row k
  | .emailChange _, r => g r
  | .user _, r | .refreshToken _, r | .passwordReset _, r | .email _, r | .uuid _, r => r

/-- What a commit did, for the account of a run. `seen` are the keys that the
statement in question found in its snapshot. -/
inductive Note
  | registered (u : UserId)
  | stored (u : UserId) (authVersion : Nat) (h : TokenHash) (f : FamilyId)
  | rotated (u : UserId) (authVersion : Nat) (old new : TokenHash) (f : FamilyId)
  | expired (h : TokenHash)
  | familyRevoked (f : FamilyId) (seen : List Key)
  | resetRequested (u : UserId) (h : TokenHash) (seen : List Key)
  | passwordReset (u : UserId) (h : TokenHash) (seen : List Key)
  | passwordChanged (u : UserId) (keep : FamilyId) (seen : List Key)
  | othersRevoked (u : UserId) (keep : FamilyId)
  | emailRequested (u : UserId) (h : TokenHash) (seen : List Key)
  | emailCancelled (h : TokenHash)
  | emailChanged (u : UserId) (h : TokenHash) (seen : List Key)
  | deleted (u : UserId)
  deriving DecidableEq

end AccountSchema
