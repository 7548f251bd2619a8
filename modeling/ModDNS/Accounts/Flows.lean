import ModDNS.Accounts.Model

/-!
# The account flows

The service functions that read or write accounts, in the order of their repository, Redis, mail and
clock calls. Logging is left out.
-/

namespace ModDNS.Accounts

open Conc Go

abbrev AccountFlow (α : Type) := Flow accountCalls α

abbrev call (o : AccountOp) : AccountFlow o.Ans := act (C := accountCalls) o

/-- `model.MfaData`: the flows read the code only. -/
structure MfaData where
  otp : String

inductive UpdateOperation where
  | remove
  | add
  | replace
  | move
  | copy
  | test
  deriving DecidableEq

inductive UpdatePath where
  | password
  | errorReportsConsent
  | profiles
  | email
  deriving DecidableEq

/-- A decoded JSON value, as the flows read it: a scalar, with what `cast.ToString` and
`cast.ToBool` make of it; an object that unmarshals into the requests' structs; or neither. -/
inductive Value where
  | scalar (text : String) (truth : Bool)
  | object (currentPassword reauthToken : Option String) (newEmail : String)
  | other

structure AccountUpdate where
  operation : UpdateOperation
  path : UpdatePath
  value : Value

structure AccountDeletionRequest where
  deletionCode : String
  currentPassword : Option String
  reauthToken : Option String

/-- `cast.ToStringE`. -/
def toStringE : Value → AccountFlow String
  | .scalar text _ => return text
  | _ => throw .invalidUpdateValue

/-- `cast.ToBool`: what cannot be cast is false. -/
def toBool : Value → Bool
  | .scalar _ truth => truth
  | _ => false

variable (env : Env)

section Limiter

/-- `IDLimiter.Tick`. -/
def tick (label : Label) (id : ObjectID) : AccountFlow Unit := do
  let _ ← call (.incr label id env.idLimiterExpiration)
  return ()

/-- `IDLimiter.IsAllowed`: a counter that cannot be read counts as 0. -/
def isAllowed (label : Label) (id : ObjectID) : AccountFlow Bool := do
  match ← attempt (call (.getCounter label id)) with
  | .error _ => return decide (0 ≤ env.idLimiterMax)
  | .ok n => return decide ((n : ℤ) ≤ env.idLimiterMax)

end Limiter

section Tokens

/-- `NewToken`: how long a token lives, and its length. -/
def tokenExpiration : TokenType → ℕ
  | .passwordReset => 60 * minute
  | _ => 5 * minute

def newToken (tokenType : TokenType) : AccountFlow Token := do
  let now ← call .now
  let value ← call (.generateSecureToken 48)
  return ⟨value, tokenType, now + tokenExpiration tokenType⟩

/-- `SetPassword`. -/
def setPassword (acc : Account) (newPassword : String) : AccountFlow Account := do
  ensure (trimSpace newPassword ≠ "") .emptyPassword
  let hash ← call (.bcrypt newPassword)
  return { acc with password := some hash }

end Tokens

section Totp

/-- `TotpEnable`: the secret, and the account's address. -/
def totpEnable (accountId : ObjectID) : AccountFlow (String × String) := do
  let acc ← call (.getAccountById accountId)
  let secret ← call .totpGenerate
  call (.setTOTPSecret accountId secret env.otpExpirationTime)
  return (secret, acc.email)

def randomStrings : ℕ → AccountFlow (List String)
  | 0 => return []
  | n + 1 => do
    let code ← call (.randomString 16)
    let codes ← randomStrings n
    return code :: codes

/-- `TotpConfirm`: the backup codes. -/
def totpConfirm (accountId : ObjectID) (otp : String) : AccountFlow (List String) := do
  let secret ← call (.getTOTPSecret accountId)
  let acc ← call (.getAccountById accountId)
  ensure (acc.mfa.totp.enabled = false) .totpAlreadyConfigured
  let now ← call .now
  if env.validate otp secret now = false then
    tick env .totpConfirmFails accountId
    -- the limit changes the log line only
    let _ ← isAllowed env .totpConfirmFails accountId
    throw .incorrectOTP
  else
    let codes ← randomStrings 8
    let totp : TotpSettings :=
      { acc.mfa.totp with
        backupCodes := acc.mfa.totp.backupCodes ++ codes, enabled := true, secret }
    call (.updateAccount acc { acc with mfa := ⟨totp⟩ })
    return totp.backupCodes

/-- `verifyTotpBackup`: the settings after the code has been used. -/
def verifyTotpBackup (totp : TotpSettings) (otp : String) : Except AccountErr TotpSettings :=
  if otp ∈ totp.backupCodesUsed then .error .totpBackupAlreadyUsed
  else if otp ∈ totp.backupCodes then
    .ok { totp with
          backupCodes := totp.backupCodes.erase otp
          backupCodesUsed := totp.backupCodesUsed ++ [otp] }
  else .error .invalidTOTPCode

/-- The actions that `VerifyTotp` is called for. -/
inductive TotpAction where
  | login
  | disable

/-- `VerifyTotp`. -/
def verifyTotp (accountId : ObjectID) (otp : String) (action : TotpAction) :
    AccountFlow Account := do
  let acc ← call (.getAccountById accountId)
  ensure (acc.mfa.totp.enabled = true)
    (match action with | .login => .totpNotConfigured | .disable => .totpAlreadyDisabled)
  let now ← call .now
  if env.validate otp acc.mfa.totp.secret now = true then return acc
  else
    match verifyTotpBackup acc.mfa.totp otp with
    | .ok totp =>
      call (.updateAccount acc { acc with mfa := ⟨totp⟩ })
      return { acc with mfa := ⟨totp⟩ }
    | .error backupErr =>
      tick env .totpFails acc.id
      if (← isAllowed env .totpFails acc.id) = true then throw backupErr
      else throw .invalidTOTPCode

/-- `TotpDisable`. -/
def totpDisable (accountId : ObjectID) (otp : String) : AccountFlow Account := do
  let acc ← verifyTotp env accountId otp .disable
  call (.updateAccount acc { acc with mfa := ⟨⟨false, "", [], []⟩⟩ })
  return { acc with mfa := ⟨⟨false, "", [], []⟩⟩ }

def mfaCheck (acc : Account) (mfa : MfaData) : AccountFlow Unit := do
  if acc.mfa.totp.enabled = true then
    ensure (mfa.otp ≠ "") .totpRequired
    let _ ← verifyTotp env acc.id mfa.otp .login
    return ()
  else return ()

end Totp

section Reauth

/-- `reauth.Params`. -/
structure Params where
  purpose : Purpose
  password : Option String
  reauthToken : Option String
  mfa : MfaData

/-- The loop of the token path: what is kept, and whether the token was found. -/
def keepTokens (p : Purpose) (tokenValue : String) : List Token → AccountFlow (List Token × Bool)
  | [] => return ([], false)
  | t :: tokens => do
    if t.type = .reauth p ∧ t.value = tokenValue then
      let now ← call .now
      ensure (now ≤ t.expiresAt) .reauthTokenExpired
      let (kept, _) ← keepTokens p tokenValue tokens
      return (kept, true)
    else
      let (kept, matched) ← keepTokens p tokenValue tokens
      return (t :: kept, matched)

/-- `verifyOnLoadedAccount`: the account with its token consumed. -/
def verifyOnLoadedAccount (acc : Account) (p : Params) : AccountFlow Account := do
  match p.password with
  | some password =>
    mfaCheck env acc p.mfa
    ensure (acc.password.any (env.checkPasswordHash password) = true) .invalidPassword
    return acc
  | none =>
    let (kept, matched) ← keepTokens p.purpose (p.reauthToken.getD "") acc.tokens
    ensure (matched = true) .invalidReauthToken
    return { acc with tokens := kept }

/-- Exactly one of the two credentials. -/
def oneAuthMethod (p : Params) : AccountFlow Unit := do
  ensure (p.password ≠ none ∨ p.reauthToken ≠ none) .missingAuthMethod
  ensure (p.password = none ∨ p.reauthToken = none) .multipleAuthMethods

/-- `VerifyOnAccount`. -/
def verifyOnAccount (acc : Account) (p : Params) : AccountFlow Account := do
  oneAuthMethod p
  verifyOnLoadedAccount env acc p

/-- `Verify`, by callers that do not persist the account themselves. -/
def verify (accountId : ObjectID) (p : Params) : AccountFlow Account := do
  oneAuthMethod p
  match ← attempt (call (.getAccountById accountId)) with
  | .error .accountNotFound => throw .invalidPassword
  | .error e => throw e
  | .ok loaded =>
    let acc ← verifyOnLoadedAccount env loaded p
    if p.reauthToken ≠ none then
      call (.updateAccount loaded acc)
      return acc
    else return acc

end Reauth

section Update

def handleProfilesUpdateAtomic (accountId : ObjectID) (update : AccountUpdate) :
    AccountFlow Unit := do
  let value ← toStringE update.value
  match update.operation with
  | .add => call (.addProfileToAccount accountId value)
  | .remove => call (.removeProfileFromAccount accountId value)
  | _ => throw .invalidUpdateOperation

def handleProfileUpdates (accountId : ObjectID) : List AccountUpdate → AccountFlow Unit
  | [] => return ()
  | update :: updates => do
    handleProfilesUpdateAtomic accountId update
    handleProfileUpdates accountId updates

/-- `handleEmailUpdate`: the changed account. -/
def handleEmailUpdate (acc : Account) (update : AccountUpdate) (mfa : MfaData) :
    AccountFlow Account := do
  match update.value with
  | .object currentPassword reauthToken newEmail' =>
    let newEmail := normalizeEmail env newEmail'
    ensure (env.validateEmailUpdate currentPassword reauthToken newEmail = true)
      .invalidEmailUpdatePayload
    let acc ← verifyOnAccount env acc ⟨.emailChange, currentPassword, reauthToken, mfa⟩
    ensure (newEmail ≠ "") .invalidNewEmail
    ensure (env.equalFold newEmail acc.email = false) .sameEmailAddress
    match ← attempt (call (.getAccountByEmail newEmail)) with
    | .ok existing =>
      if existing.id ≠ acc.id then throw .emailAlreadyInUse
      else throw .sameEmailAddress
    | .error .accountNotFound =>
      let filtered := acc.tokens.filter fun t =>
        t.type ≠ .emailVerificationOTP ∧ t.type ≠ .passwordReset
      return { acc with email := newEmail, emailVerified := false, tokens := filtered }
    | .error e => throw e
  | _ => throw .invalidEmailUpdatePayload

/-- `verifyPasswordSetReauth`. -/
def verifyPasswordSetReauth (acc : Account) (value : Value) : AccountFlow Account := do
  match value with
  | .object _ (some reauthToken) _ =>
    ensure (reauthToken ≠ "") .missingAuthMethod
    verifyOnAccount env acc ⟨.passwordSet, none, some reauthToken, ⟨""⟩⟩
  | _ => throw .missingAuthMethod

def validatePassword (password : String) : Bool :=
  let cs := password.toList
  12 ≤ cs.length ∧ cs.length ≤ 64 ∧ cs.any Char.isUpper ∧ cs.any Char.isLower ∧
  cs.any Char.isDigit ∧
    cs.any env.isSpecial

/-- The loop of `handlePasswordUpdate`. -/
def passwordLoop (hasPassword : Bool) : List AccountUpdate → Account → Bool → AccountFlow Account
  | [], acc, _ => return acc
  | upd :: updates, acc, verified => do
    match upd.operation with
    | .test =>
      if hasPassword = true then
        let currPass ← toStringE upd.value
        ensure (acc.password.any (env.checkPasswordHash currPass) = true) .invalidPassword
        passwordLoop hasPassword updates acc true
      else
        let acc ← verifyPasswordSetReauth env acc upd.value
        passwordLoop hasPassword updates acc true
    | .replace =>
      ensure (verified = true) (if hasPassword = true then .passwordTestRequired
        else .missingAuthMethod)
      let pass ← toStringE upd.value
      ensure (validatePassword env pass = true) .passwordTooSimple
      let acc ← setPassword acc pass
      passwordLoop hasPassword updates acc false
    | _ => throw .invalidUpdateOperation

def handlePasswordUpdate (acc : Account) (updates : List AccountUpdate) (mfa : MfaData) :
    AccountFlow Account := do
  if acc.password.isSome = true then
    mfaCheck env acc mfa
    passwordLoop env true updates acc false
  else passwordLoop env false updates acc false

/-- The loop of `UpdateAccount` over what is no profile update. Password updates are left for
later. -/
def applyUpdates (mfa : MfaData) : List AccountUpdate → Account → AccountFlow Account
  | [], acc => return acc
  | update :: updates, acc => do
    match update.path with
    | .email =>
      let acc ← handleEmailUpdate env acc update mfa
      applyUpdates mfa updates acc
    | .errorReportsConsent =>
      applyUpdates mfa updates { acc with errorReportsConsent := toBool update.value }
    | _ => applyUpdates mfa updates acc

/-- The collected password updates. -/
def applyPasswordUpdates (acc : Account) (updates : List AccountUpdate) (mfa : MfaData) :
    AccountFlow Account := do
  if updates = [] then return acc
  else handlePasswordUpdate env acc updates mfa

/-- The part of `UpdateAccount` that loads the account and writes it back. -/
def updateLoaded (accountId : ObjectID) (otherUpdates : List AccountUpdate) (mfa : MfaData) :
    AccountFlow Unit := do
  let loaded ← call (.getAccountById accountId)
  let acc ← applyUpdates env mfa otherUpdates loaded
  let acc ← applyPasswordUpdates env acc (otherUpdates.filter (·.path = .password)) mfa
  call (.updateAccount loaded acc)

/-- `UpdateAccount`. -/
def updateAccount (accountId : ObjectID) (updates : List AccountUpdate) (mfa : MfaData) :
    AccountFlow Unit := do
  handleProfileUpdates accountId (updates.filter (·.path = .profiles))
  if updates.filter (·.path ≠ .profiles) = [] then return ()
  else updateLoaded env accountId (updates.filter (·.path ≠ .profiles)) mfa

end Update

end ModDNS.Accounts
