import LexiGo.Account.AccountSchema

/-! The transactions of the auth and account repositories.
Every function is one transaction unless it says otherwise; the unexpected
failures of a statement are not branches here, since any request can be lost at
any step. Columns that nothing here reads back (user agent, address, audit
events, timestamps of a row's creation) are left out. -/
namespace AccountRepository
open RowStore TransactionProgram AccountSchema

inductive AccountError
  | emailTaken
  | userNotFound
  | accountNotFound
  | invalidLogin
  | invalidRefresh
  | refreshInProgress
  | refreshTokenReuse
  | invalidAccess
  | invalidPasswordReset
  | reauthenticationFailed
  | passwordUnchanged
  | currentSessionNotFound
  | invalidEmailChange
  | emailUnchanged
  | emailConfirmationFailed
  | accountChanged
  | internal
  deriving DecidableEq

structure User where
  id : UserId
  email : String
  displayName : String
  passwordHash : String
  authVersion : Nat
  deriving DecidableEq

def userOf (id : UserId) (r : UserRow) : User :=
  ⟨id, r.email, r.displayName, r.passwordHash, r.authVersion⟩

abbrev AccountProg (α : Type) := Prog Row Note α

abbrev Reply (α : Type) := Except AccountError α

def lockUser (id : UserId) (m : Mode) (p : UserRow → Bool) : AccountProg (Option UserRow) :=
  selectFor (Key.user id) m p

def lockRefreshToken (hash : TokenHash) (p : RefreshToken → Bool) :
    AccountProg (Option RefreshToken) :=
  selectFor (Key.refreshToken hash) .update p

/-- `gen_random_uuid()` never hands out a value twice. -/
def genRandomUuid : AccountProg (Option Nat) := do
  let n ← choose
  if ← insertRow (.uuid n) () then
    return some n
  else
    return none

def emailInUse (address : String) (but : UserId → Bool) (db : AccountDb) : Bool :=
  !(rowsWhere (users fun id r => r.email = address && !but id) db).isEmpty

def create (email passwordHash displayName : String) : AccountProg (Reply User) := do
  let some id ← genRandomUuid | leave (.error .internal)
  let row : UserRow := ⟨email, passwordHash, displayName, 1⟩
  lockRow (.email email) .update
  if ← select (emailInUse email fun _ => false) then
    leave (.error .emailTaken)
  else
    if ← insertRow (.user id) row then
      commit [.registered id]
      return .ok (userOf id row)
    else
      leave (.error .internal)

def byEmail (email : String) : AccountProg (Reply User) := do
  let found ← select fun db => (rowsWhere (users fun _ r => r.email = email) db).head?.bind fun
    | .user id => (db.lookup (.user id)).map (userOf id)
    | _ => none
  match found with
  | some user => return .ok user
  | none => return .error .userNotFound

def byID (id : UserId) : AccountProg (Reply User) := do
  match ← select fun db => db.lookup (.user id) with
  | some r => return .ok (userOf id r)
  | none => return .error .userNotFound

/-- What the account service reads of a user. -/
def identity (id : UserId) : AccountProg (Reply User) := do
  match ← select fun db => db.lookup (.user id) with
  | some r => return .ok (userOf id r)
  | none => return .error .accountNotFound

def authVersion (id : UserId) : AccountProg (Reply Nat) := do
  match ← select fun db => db.lookup (.user id) with
  | some r => return .ok r.authVersion
  | none => return .error .userNotFound

def store (userId : UserId) (version : Nat) (hash : TokenHash) (expiresAt : Instant) :
    AccountProg (Reply Unit) := do
  let some user ← lockUser userId .share fun _ => true | leave (.error .invalidRefresh)
  if version = 0 || user.authVersion ≠ version then
    leave (.error .invalidRefresh)
  else
    let some family ← genRandomUuid | leave (.error .internal)
    if ← insertRow (.refreshToken hash) ⟨userId, family, version, expiresAt, none, none, none⟩ then
      commit [.stored userId version hash family]
      return .ok ()
    else
      leave (.error .internal)

/-- The rows of a family that the statement's snapshot shows are revoked; the
result lists the rows seen and the rows changed. -/
def revokeFamily (family : FamilyId) (g : RefreshToken → RefreshToken) :
    AccountProg (List Key × List Key) := do
  let inFamily := refreshTokens fun r => r.familyId = family
  let seen ← select (rowsWhere inFamily)
  let changed ← updateRows .noKeyUpdate inFamily (onRefreshToken g) seen
  return (seen, changed)

/-- Ten seconds. -/
def refreshRotationGrace : Nat := 10000000000

/-- `clock` is the reading of the application's clock, `dbNow` the database's
`now()`, which is the start of the transaction. -/
def rotate (old new : TokenHash) (newExpiresAt : Instant) : AccountProg (Reply (UserId × Nat)) := do
  let dbNow ← choose
  let some userId ← select fun db => (db.lookup (.refreshToken old)).map RefreshToken.userId
    | leave (.error .invalidRefresh)
  let some user ← lockUser userId .share fun _ => true | leave (.error .invalidRefresh)
  let some token ← lockRefreshToken old fun _ => true
    | leave (.error .invalidRefresh)
  let clock ← choose
  if token.userId ≠ userId || token.authVersion ≠ user.authVersion then
    let (seen, _) ← revokeFamily token.familyId (RefreshToken.revoke clock)
    commit [.familyRevoked token.familyId seen]
    return .error .invalidRefresh
  else if let some revokedAt := token.revokedAt then
    if token.replacedByHash.isSome && clock < revokedAt + refreshRotationGrace then
      leave (.error .refreshInProgress)
    else
      let (seen, _) ← revokeFamily token.familyId (RefreshToken.markReuse dbNow)
      commit [.familyRevoked token.familyId seen]
      return .error .refreshTokenReuse
  else if token.expiresAt ≤ clock then
    let _ ← updateRow (.refreshToken old) .noKeyUpdate (fun _ => true) (RefreshToken.revoke dbNow)
    commit [.expired old]
    return .error .invalidRefresh
  else
    let _ ← updateRow (.refreshToken old) .noKeyUpdate (fun _ => true)
      (RefreshToken.replaceBy new dbNow)
    if ← insertRow (.refreshToken new)
        ⟨userId, token.familyId, user.authVersion, newExpiresAt, none, none, none⟩ then
      commit [.rotated userId user.authVersion old new token.familyId]
      return .ok (userId, user.authVersion)
    else
      leave (.error .internal)

def revoke (hash : TokenHash) : AccountProg (Reply Unit) := do
  let dbNow ← choose
  let some token ← lockRefreshToken hash fun _ => true
    | leave (.error .invalidRefresh)
  let (seen, changed) ← revokeFamily token.familyId (RefreshToken.revoke dbNow)
  if changed.isEmpty then
    leave (.error .invalidRefresh)
  else
    commit [.familyRevoked token.familyId seen]
    return .ok ()

/-- The foreign key of a new row: the user must exist and cannot be deleted
before the transaction ends. -/
def referenceUser (userId : UserId) : AccountProg Bool := do
  lockRow (.user userId) .keyShare
  select fun db => (db.lookup (.user userId)).isSome

def spendPasswordResets (userId : UserId) (now : Instant) : AccountProg (List Key) := do
  let unused := passwordResets fun r => r.userId = userId && r.usedAt.isNone
  let seen ← select (rowsWhere unused)
  let _ ← updateRows .noKeyUpdate unused (onPasswordReset (PasswordReset.spend now)) seen
  return seen

def spendEmailChanges (userId : UserId) (now : Instant) : AccountProg (List Key) := do
  let unused := emailChanges fun r => r.userId = userId && r.usedAt.isNone
  let seen ← select (rowsWhere unused)
  let _ ← updateRows .noKeyUpdate unused (onEmailChange (EmailChange.spend now)) seen
  return seen

/-- `UPDATE refresh_tokens SET … WHERE user_id = … AND p`. -/
def updateTokensOf (userId : UserId) (p : RefreshToken → Bool) (g : RefreshToken → RefreshToken) :
    AccountProg Unit := do
  let those := refreshTokens fun r => r.userId = userId && p r
  let seen ← select (rowsWhere those)
  let _ ← updateRows .noKeyUpdate those (onRefreshToken g) seen
  return ()

def replacePasswordReset (userId : UserId) (hash : TokenHash) (expiresAt : Instant) :
    AccountProg (Reply Unit) := do
  let dbNow ← choose
  let seen ← spendPasswordResets userId dbNow
  if ← insertRow (.passwordReset hash) ⟨userId, expiresAt, none⟩ then
    if ← referenceUser userId then
      commit [.resetRequested userId hash seen]
      return .ok ()
    else
      leave (.error .internal)
  else
    leave (.error .internal)

def consumePasswordReset (hash : TokenHash) (passwordHash : String) (now : Instant) :
    AccountProg (Reply Unit) := do
  let some token ← selectFor (Key.passwordReset hash) .update fun _ => true
    | leave (.error .invalidPasswordReset)
  let token : PasswordReset := token
  if token.usedAt.isSome || token.expiresAt ≤ now then
    leave (.error .invalidPasswordReset)
  else
    let _ ← updateRow (.user token.userId) .noKeyUpdate (fun _ => true)
      (UserRow.withPassword passwordHash)
    let seen ← spendPasswordResets token.userId now
    updateTokensOf token.userId (fun _ => true) (RefreshToken.revoke now)
    commit [.passwordReset token.userId hash seen]
    return .ok ()

def currentActiveFamily (userId : UserId) (current : TokenHash) (now : Instant) :
    AccountProg (Option FamilyId) := do
  let found ← lockRefreshToken current fun r =>
    r.userId = userId && r.revokedAt.isNone && now < r.expiresAt
  return found.map RefreshToken.familyId

/-- The common course of `ChangePasswordAndRevokeOtherSessions` and
`RevokeOtherSessions`: the session that asks is kept and moved to the new
version, every other one is closed. `between` is what only the former does. -/
def revokeOthers (userId : UserId) (current : TokenHash) (expectedPasswordHash : String)
    (now : Instant) (change : UserRow → UserRow) (between : AccountProg (List Key))
    (note : FamilyId → List Key → Note) : AccountProg (Reply Nat) := do
  let some user ← lockUser userId .update fun _ => true | leave (.error .userNotFound)
  if user.passwordHash ≠ expectedPasswordHash then
    leave (.error .reauthenticationFailed)
  else
    let some family ← currentActiveFamily userId current now
      | leave (.error .currentSessionNotFound)
    let some previous ← updateRow (.user userId) .noKeyUpdate (fun _ => true) change
      | leave (.error .internal)
    let version := (change previous).authVersion
    if version ≠ user.authVersion + 1 then
      leave (.error .internal)
    else
      updateTokensOf userId (fun r => r.familyId = family) (RefreshToken.advance version)
      let seen ← between
      updateTokensOf userId (fun r => r.familyId ≠ family && r.revokedAt.isNone)
        (RefreshToken.revoke now)
      commit [note family seen]
      return .ok version

def changePasswordAndRevokeOtherSessions (userId : UserId) (current : TokenHash)
    (expectedPasswordHash passwordHash : String) (now : Instant) : AccountProg (Reply Nat) :=
  revokeOthers userId current expectedPasswordHash now (UserRow.withPassword passwordHash)
    (spendPasswordResets userId now) (Note.passwordChanged userId)

def revokeOtherSessions (userId : UserId) (current : TokenHash) (expectedPasswordHash : String)
    (now : Instant) : AccountProg (Reply Nat) :=
  revokeOthers userId current expectedPasswordHash now UserRow.bump (return [])
    fun family _ => .othersRevoked userId family

def replaceEmailChange (userId : UserId) (oldEmail newEmail : String) (hash : TokenHash)
    (createdAt expiresAt : Instant) : AccountProg (Reply Unit) := do
  if ← select (emailInUse newEmail fun id => id = userId) then
    leave (.error .emailTaken)
  else
    let seen ← spendEmailChanges userId createdAt
    if ← insertRow (.emailChange hash) ⟨userId, oldEmail, newEmail, expiresAt, none⟩ then
      if ← referenceUser userId then
        commit [.emailRequested userId hash seen]
        return .ok ()
      else
        leave (.error .internal)
    else
      leave (.error .emailTaken)

def cancelEmailChange (hash : TokenHash) (cancelledAt : Instant) : AccountProg Unit := do
  match ← updateRow (Key.emailChange hash) .noKeyUpdate (fun _ => true)
      (EmailChange.spend cancelledAt) with
  | none => rollback
  | some _ => commit [.emailCancelled hash]

structure EmailChangeResult where
  userId : UserId
  oldEmail : String
  newEmail : String
  displayName : String
  deriving DecidableEq

/-- Changing the address touches a key column, so the row is locked for
`UPDATE` and both index entries are held. -/
def consumeEmailChange (hash : TokenHash) (confirmedAt : Instant) :
    AccountProg (Reply EmailChangeResult) := do
  let some token ← selectFor (Key.emailChange hash) .update fun _ => true
    | leave (.error .invalidEmailChange)
  let token : EmailChange := token
  if token.usedAt.isSome || token.expiresAt ≤ confirmedAt then
    leave (.error .invalidEmailChange)
  else
    let some user ← lockUser token.userId .update fun r => r.email = token.oldEmail
      | leave (.error .invalidEmailChange)
    lockRow (.email token.oldEmail) .update
    lockRow (.email token.newEmail) .update
    if ← select (emailInUse token.newEmail fun id => id = token.userId) then
      leave (.error .emailTaken)
    else
      writeRow (.user token.userId) .update
        (some { user with email := token.newEmail, authVersion := user.authVersion + 1 })
      let seen ← spendEmailChanges token.userId confirmedAt
      updateTokensOf token.userId (fun r => r.revokedAt.isNone) (RefreshToken.revoke confirmedAt)
      commit [.emailChanged token.userId hash seen]
      return .ok ⟨token.userId, token.oldEmail, token.newEmail, user.displayName⟩

/-- Deleting a user cascades to the rows that refer to it, each table in a
statement of its own. -/
def delete (userId : UserId) (expectedPasswordHash : String) : AccountProg (Reply Unit) := do
  let some user ← lockUser userId .update fun r => r.passwordHash = expectedPasswordHash
    | leave (.error .accountChanged)
  lockRow (.email user.email) .update
  writeRow (.user userId) .update none
  let _ ← deleteWhere (refreshTokens fun r => r.userId = userId)
  let _ ← deleteWhere (passwordResets fun r => r.userId = userId)
  let _ ← deleteWhere (emailChanges fun r => r.userId = userId)
  commit [.deleted userId]
  return .ok ()

end AccountRepository
