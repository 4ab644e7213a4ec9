import LexiGo.Account.AccountRepository
import LexiGo.GoText

/-! The requests of the auth and account services, from the point where their
arguments have passed validation: addresses are normalised, passwords have an
acceptable form, presented tokens are well formed and hashed. Every digest and
every clock reading is chosen by the environment. Mail is sent after the commit
and decides nothing here but the cancellation of a token that was not mailed. -/
namespace AccountService
open RowStore TransactionProgram AccountSchema AccountRepository GoText

/-- What comes from outside: bcrypt, with the salt it draws, and the comparison
of addresses up to case. -/
structure Platform where
  hashPassword : Nat → String → String
  verifyPassword : String → String → Bool
  equalFold : String → String → Bool

structure AccessToken where
  subject : UserId
  authVersion : Nat
  expiresAt : Instant
  deriving DecidableEq

structure TokenPair where
  access : AccessToken
  refresh : Option TokenHash
  deriving DecidableEq

inductive Answer
  | signedIn (user : User) (pair : TokenPair)
  | authenticated (id : UserId)
  | emailChanged (result : EmailChangeResult)
  | done
  deriving DecidableEq

inductive Op
  | register (email password displayName : String)
  | login (email password : String)
  | refresh (token : TokenHash)
  | logout (token : TokenHash)
  | validateAccess (token : AccessToken)
  | requestPasswordReset (email : String)
  | resetPassword (token : TokenHash) (newPassword : String)
  | changePassword (userId : UserId) (token : TokenHash) (currentPassword newPassword : String)
  | revokeOtherSessions (userId : UserId) (token : TokenHash) (currentPassword : String)
  | requestEmailChange (userId : UserId) (currentPassword newEmail : String)
  | confirmEmailChange (token : TokenHash)
  | deleteAccount (userId : UserId) (currentPassword confirmationEmail : String)

variable (platform : Platform)

def issueAccess (user : User) (expiresAt : Instant) : Reply AccessToken :=
  if user.authVersion = 0 then .error .invalidAccess
  else .ok ⟨user.id, user.authVersion, expiresAt⟩

def issuePair (user : User) : AccountProg (Reply TokenPair) := do
  let accessExpiresAt ← choose
  match issueAccess user accessExpiresAt with
  | .error e => return .error e
  | .ok access =>
    let refresh ← choose
    let refreshExpiresAt ← choose
    andThen (store user.id user.authVersion refresh refreshExpiresAt) fun _ =>
      return .ok ⟨access, some refresh⟩

def signIn (user : User) : AccountProg (Reply Answer) :=
  andThen (issuePair user) fun pair => return .ok (.signedIn user pair)

def register (email password displayName : String) : AccountProg (Reply Answer) := do
  let salt ← choose
  andThen (create email (platform.hashPassword salt password) displayName) fun user => signIn user

def login (email password : String) : AccountProg (Reply Answer) := do
  match ← byEmail email with
  | .error .userNotFound => return .error .invalidLogin
  | .error e => return .error e
  | .ok user =>
    if platform.verifyPassword user.passwordHash password then signIn user
    else return .error .invalidLogin

/-- An access token for a user, bound to a version that was read under a lock. -/
def withVersion (user : User) (version : Nat) (refresh : Option TokenHash) :
    AccountProg (Reply Answer) := do
  let expiresAt ← choose
  let user := { user with authVersion := version }
  match issueAccess user expiresAt with
  | .error e => return .error e
  | .ok access => return .ok (.signedIn user ⟨access, refresh⟩)

def refresh (oldHash : TokenHash) : AccountProg (Reply Answer) := do
  let newHash ← choose
  let expiresAt ← choose
  andThen (rotate oldHash newHash expiresAt) fun (userId, rotatedAuthVersion) =>
    andThen (byID userId) fun user => withVersion user rotatedAuthVersion (some newHash)

def logout (token : TokenHash) : AccountProg (Reply Answer) :=
  andThen (revoke token) fun _ => return .ok .done

def currentAccess (token : AccessToken) : AccountProg (Reply Answer) := do
  match ← authVersion token.subject with
  | .error .userNotFound => return .error .invalidAccess
  | .error e => return .error e
  | .ok current =>
    if current ≠ token.authVersion then return .error .invalidAccess
    else return .ok (.authenticated token.subject)

/-- The signature is what makes a token one that `issueAccess` made. -/
def validateAccess (token : AccessToken) : AccountProg (Reply Answer) := do
  let now ← choose
  if token.authVersion = 0 || token.expiresAt ≤ now then
    return .error .invalidAccess
  else
    currentAccess token

/-- An unknown address is answered like a known one. -/
def requestPasswordReset (email : String) : AccountProg (Reply Answer) := do
  match ← byEmail email with
  | .error .userNotFound => return .ok .done
  | .error e => return .error e
  | .ok user =>
    let hash ← choose
    let expiresAt ← choose
    andThen (replacePasswordReset user.id hash expiresAt) fun _ => return .ok .done

def resetPassword (token : TokenHash) (newPassword : String) : AccountProg (Reply Answer) := do
  let salt ← choose
  let now ← choose
  andThen (consumePasswordReset token (platform.hashPassword salt newPassword) now) fun _ =>
    return .ok .done

def reauthenticate (userId : UserId) (currentPassword : String) : AccountProg (Reply User) :=
  andThen (byID userId) fun user => do
    if trimSpace currentPassword = "" ||
        !platform.verifyPassword user.passwordHash currentPassword then
      return .error .reauthenticationFailed
    else
      return .ok user

/-- The same question as the account service asks it. -/
def confirmIdentity (userId : UserId) (currentPassword : String) : AccountProg (Reply User) :=
  andThen (identity userId) fun user => do
    if platform.verifyPassword user.passwordHash currentPassword then return .ok user
    else return .error .reauthenticationFailed

def changePassword (userId : UserId) (token : TokenHash) (currentPassword newPassword : String) :
    AccountProg (Reply Answer) :=
  andThen (reauthenticate platform userId currentPassword) fun user => do
    if platform.verifyPassword user.passwordHash newPassword then
      return .error .passwordUnchanged
    else
      let salt ← choose
      let now ← choose
      let passwordHash := platform.hashPassword salt newPassword
      andThen (changePasswordAndRevokeOtherSessions userId token user.passwordHash passwordHash now)
        fun version => withVersion { user with passwordHash := passwordHash } version none

def revokeOtherSessions (userId : UserId) (token : TokenHash) (currentPassword : String) :
    AccountProg (Reply Answer) :=
  andThen (reauthenticate platform userId currentPassword) fun user => do
    let now ← choose
    andThen (AccountRepository.revokeOtherSessions userId token user.passwordHash now)
      fun version => withVersion user version none

/-- A token whose link cannot be mailed is cancelled again. -/
def requestEmailChange (userId : UserId) (currentPassword newEmail : String) :
    AccountProg (Reply Answer) :=
  andThen (confirmIdentity platform userId currentPassword) fun identity => do
    if platform.equalFold newEmail identity.email then
      return .error .emailUnchanged
    else
      let hash ← choose
      let now ← choose
      let expiresAt ← choose
      andThen (replaceEmailChange userId identity.email newEmail hash now expiresAt) fun _ => do
        let mailed ← choose
        if mailed = 0 then
          let cancelledAt ← choose
          cancelEmailChange hash cancelledAt
          return .error .internal
        else
          return .ok .done

def confirmEmailChange (token : TokenHash) : AccountProg (Reply Answer) := do
  let confirmedAt ← choose
  andThen (consumeEmailChange token confirmedAt) fun result => return .ok (.emailChanged result)

def deleteAccount (userId : UserId) (currentPassword confirmationEmail : String) :
    AccountProg (Reply Answer) :=
  andThen (confirmIdentity platform userId currentPassword) fun identity => do
    if platform.equalFold (trimSpace confirmationEmail) identity.email then
      andThen (delete userId identity.passwordHash) fun _ => return .ok .done
    else
      return .error .emailConfirmationFailed

def program : Op → AccountProg (Reply Answer)
  | .register email password displayName => register platform email password displayName
  | .login email password => login platform email password
  | .refresh token => refresh token
  | .logout token => logout token
  | .validateAccess token => validateAccess token
  | .requestPasswordReset email => requestPasswordReset email
  | .resetPassword token newPassword => resetPassword platform token newPassword
  | .changePassword userId token currentPassword newPassword =>
    changePassword platform userId token currentPassword newPassword
  | .revokeOtherSessions userId token currentPassword =>
    revokeOtherSessions platform userId token currentPassword
  | .requestEmailChange userId currentPassword newEmail =>
    requestEmailChange platform userId currentPassword newEmail
  | .confirmEmailChange token => confirmEmailChange token
  | .deleteAccount userId currentPassword confirmationEmail =>
    deleteAccount platform userId currentPassword confirmationEmail

end AccountService
