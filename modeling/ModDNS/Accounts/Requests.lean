import ModDNS.Accounts.Flows

/-!
# The account requests

E-mail proofs, password reset, deletion, passkeys, profile export and import, signup and
login, and the jobs that threads run.
-/

namespace ModDNS.Accounts

open Conc Go

variable (env : Env)

section Email

/-- `emailVerificationOTPExpires`. -/
def emailVerificationOTPExpires : ℕ := 15 * minute

/-- `RequestEmailVerificationOTP`. -/
def requestEmailVerificationOTP (accountId : ObjectID) : AccountFlow Unit := do
  let acc ← call (.getAccountById accountId)
  ensure (acc.emailVerified = false) .emailAlreadyVerified
  tick env .emailVerifyResend acc.id
  ensure ((← isAllowed env .emailVerifyResend acc.id) = true) .emailOTPRateLimited
  let filtered := acc.tokens.filter (·.type ≠ .emailVerificationOTP)
  let otp ← call .generateCode
  let now ← call .now
  let tokens := filtered ++ [⟨otp, .emailVerificationOTP, now + emailVerificationOTPExpires⟩]
  call (.updateAccount acc { acc with tokens })
  match ← attempt (call (.sendEmailVerificationOTP acc.email otp)) with
  | .ok _ => return ()
  | .error _ => throw .sendOTP

/-- The token that `VerifyEmailOTP` compares with: the last unexpired one. -/
def otpTarget (tokens : List Token) (now : ℕ) : Option Token :=
  (tokens.filter fun t => t.type = .emailVerificationOTP ∧ now ≤ t.expiresAt).getLast?

/-- `VerifyEmailOTP`. -/
def verifyEmailOTP (accountId : ObjectID) (otp : String) : AccountFlow Unit := do
  ensure (otp ≠ "") .emailOTPMissing
  let acc ← call (.getAccountById accountId)
  if acc.emailVerified = true then return ()
  else
    let now ← call .now
    match otpTarget acc.tokens now with
    | none => throw .invalidVerificationToken
    | some target =>
      if target.value ≠ otp then
        tick env .emailVerifyFail acc.id
        if (← isAllowed env .emailVerifyFail acc.id) = true then throw .incorrectOTP
        else throw .emailOTPManyAttempts
      else
        let others := acc.tokens.filter (·.type ≠ .emailVerificationOTP)
        match ← attempt
          (call (.updateAccount acc { acc with emailVerified := true, tokens := others })) with
        | .ok _ => return ()
        | .error .accountNotFound => throw .invalidVerificationToken
        | .error e => throw e

/-- `sendEmailCategory` for a reset mail: suppressed while the address is unverified. -/
def sendResetEmail (acc : Account) (email token : String) : AccountFlow Unit := do
  ensure (acc.emailVerified = true) .emailSuppressed
  call (.sendPasswordResetEmail email token)

/-- `SendResetPasswordEmail`. The address check runs beside the rest and is waited for at the
end. -/
def sendResetPasswordEmail (email : String) : AccountFlow Unit := do
  match ← attempt (call (.getAccountByEmail email)) with
  | .error _ => return ()
  | .ok acc =>
    if acc.emailVerified = false then return ()
    else
      let verified ← attempt (call (.mailVerify email))
      let token ← newToken .passwordReset
      call (.updateAccount acc { acc with tokens := acc.tokens ++ [token] })
      let sent ← attempt (sendResetEmail acc email token.value)
      match verified, sent with
      | .error e, _ => throw e
      | .ok _, .error e => throw e
      | .ok _, .ok _ => return ()

/-- The token loop of `VerifyPasswordReset`: the other tokens, and whether the token was found. -/
def otherTokens (tokenValue : String) : List Token → AccountFlow (List Token × Bool)
  | [] => return ([], false)
  | t :: tokens => do
    if t.type = .passwordReset ∧ t.value = tokenValue then
      let now ← call .now
      ensure (now ≤ t.expiresAt) .tokenExpired
      let (others, _) ← otherTokens tokenValue tokens
      return (others, true)
    else
      let (others, found) ← otherTokens tokenValue tokens
      return (t :: others, found)

/-- `VerifyPasswordReset`. -/
def verifyPasswordReset (tokenValue newPassword : String) (mfa : MfaData) : AccountFlow Unit := do
  match ← attempt (call (.getAccountByToken tokenValue .passwordReset)) with
  | .error _ => throw .invalidVerificationToken
  | .ok loaded =>
    mfaCheck env loaded mfa
    let (others, found) ← otherTokens tokenValue loaded.tokens
    ensure (found = true) .invalidVerificationToken
    let acc ← setPassword loaded newPassword
    call (.updateAccount loaded { acc with tokens := others })

end Email

section Deletion

def delCodeExpTime : ℕ := 15 * minute

/-- `GenerateDeletionCode`. -/
def generateDeletionCode (accountId : ObjectID) : AccountFlow (String × ℕ) := do
  let code ← call .generateDeletionCode
  let now ← call .now
  call (.updateDeletionCode accountId code (now + delCodeExpTime))
  return (code, now + delCodeExpTime)

def purgeProfiles (accountId : ObjectID) : List String → AccountFlow Unit
  | [] => return ()
  | p :: profiles => do
    call (.external (.deleteProfile p))
    call (.removeProfileFromAccount accountId p)
    purgeProfiles accountId profiles

/-- `PurgeAccountData`. -/
def purgeAccountData (accountId : ObjectID) : AccountFlow Unit := do
  call (.external (.deleteCredentials accountId))
  let profiles ← call (.getProfiles accountId)
  purgeProfiles accountId profiles
  call (.deleteAccountById accountId)
  call (.external (.deleteSubscription accountId))

/-- `DeleteAccount`. -/
def deleteAccount (accountId : ObjectID) (req : AccountDeletionRequest) (mfa : MfaData) :
    AccountFlow Unit := do
  let acc ← call (.getAccountById accountId)
  ensure (acc.deletionCode = req.deletionCode) .invalidDeletionCode
  match acc.deletionCodeExpires with
  | none => throw .deletionCodeExpired
  | some expires =>
    let now ← call .now
    ensure (now ≤ expires) .deletionCodeExpired
    let _ ← verifyOnAccount env acc ⟨.accountDeletion, req.currentPassword, req.reauthToken, mfa⟩
    purgeAccountData accountId

end Deletion

section Privileged

/-- `FinishReauth` with `finishAssertion`. -/
def finishReauth (accountId : ObjectID) (tmpToken : String) : AccountFlow Token := do
  ensure (tmpToken ≠ "") .missingCeremonyToken
  let ceremony ← call (.consumeCeremony tmpToken)
  ensure (ceremony.type = .reauth ∧ ceremony.accountId = accountId) .finishReauth
  let acc ← call (.getAccountById ceremony.accountId)
  call (.external (.finishAssertion acc.id))
  match ceremony.purpose with
  | none => throw .invalidReauthToken
  | some purpose =>
    let token ← newToken (.reauth purpose)
    call (.updateAccount acc { acc with tokens := acc.tokens ++ [token] })
    return token

/-- `Export`: its work does not touch the account. -/
def exportProfiles (accountId : ObjectID) (currentPassword reauthToken : Option String)
    (mfa : MfaData) :
    AccountFlow Unit := do
  let _ ← verify env accountId ⟨.profileExport, currentPassword, reauthToken, mfa⟩
  call (.external (.exportProfiles accountId))

/-- `Import`: its work does not touch the account. -/
def importProfiles (accountId : ObjectID) (currentPassword reauthToken : Option String)
    (mfa : MfaData) :
    AccountFlow Unit := do
  let _ ← verify env accountId ⟨.profileImport, currentPassword, reauthToken, mfa⟩
  call (.external (.importProfiles accountId))

/-- `BeginAddPasskey`. -/
def beginAddPasskey (accountId : ObjectID) (currentPassword reauthToken : Option String)
    (mfa : MfaData) :
    AccountFlow Unit := do
  let acc ← verify env accountId ⟨.passkeyAdd, currentPassword, reauthToken, mfa⟩
  call (.external (.beginRegistration acc.id))

/-- `ensureAnotherSignInMethod`. -/
def ensureAnotherSignInMethod (accountId : ObjectID) : AccountFlow Unit := do
  let count ← call (.getCredentialsCount accountId)
  if 1 < count then return ()
  else
    let acc ← call (.getAccountById accountId)
    ensure (acc.password ≠ none) .lastSignInMethod

/-- `DeletePasskeyByID`. -/
def deletePasskeyByID (credentialId accountId : ObjectID)
    (currentPassword reauthToken : Option String) (mfa : MfaData) : AccountFlow Unit := do
  let owner ← call (.getCredentialByID credentialId)
  ensure (owner = accountId) .passkeyNotOwned
  ensureAnotherSignInMethod accountId
  let _ ← verify env accountId ⟨.passkeyDelete, currentPassword, reauthToken, mfa⟩
  call (.external (.deleteCredential credentialId accountId))

end Privileged

section Signup

/-- An account is finished once it has a way to sign in. -/
def isFinished (acc : Account) : AccountFlow Bool := do
  if acc.password.isSome = true then return true
  else
    match ← attempt (call (.getCredentialsCount acc.id)) with
    | .error _ => return false
    | .ok count => return decide (0 < count)

/-- `CompleteRegistration`: the rest is best effort and does not touch the account. -/
def completeRegistration (acc : Account) : AccountFlow Unit := call (.mailVerify acc.email)

/-- `GetSubscription`, and `CreateSubscriptionFromPreauth` if there is none. -/
def ensureSubscription (accountId : ObjectID) : AccountFlow Unit := do
  match ← attempt (call (.getSubscription accountId)) with
  | .ok _ => return ()
  | .error .subscriptionNotFound =>
    match ← attempt (call (.external (.createSubscription accountId))) with
    | .ok _ => return ()
    | .error _ => throw .unableToCreateAccount
  | .error e => throw e

/-- The account with that address, if there is one. -/
def findByEmail (email : String) : AccountFlow (Option Account) := do
  match ← attempt (call (.getAccountByEmail email)) with
  | .ok acc => return some acc
  | .error .accountNotFound => return none
  | .error e => throw e

/-- `NewAccount`. -/
def newAccountWithPassword (email password : String) (accountId : ObjectID) (profileId : String) :
    AccountFlow Account := do
  if password ≠ "" then setPassword (newAccount email accountId profileId) password
  else return newAccount email accountId profileId

/-- `RegisterAccountWithPreauth`. -/
def registerAccountWithPreauth (email password : String) : AccountFlow Account := do
  ensure ((← findByEmail email) = none) .accountAlreadyExists
  let accountId ← call .newObjectID
  let profileId ← call (.createProfile accountId)
  call (.external (.createSubscription accountId))
  let acc ← newAccountWithPassword (normalizeEmail env email) password accountId profileId
  call (.createAccount acc)
  return acc

/-- The password of an unfinished account is set if the signup has one. -/
def setMissingPassword (acc : Account) (password : String) : AccountFlow Account := do
  if acc.password = none ∧ trimSpace password ≠ "" then
    let acc' ← setPassword acc password
    call (.updateAccount acc acc')
    return acc'
  else return acc

/-- `GetUnfinishedSignupOrPostAccount`. -/
def signup (email password sessionID : String) : AccountFlow Unit := do
  match ← attempt (call (.external (.validateAndGetPreauth sessionID))) with
  | .error _ => throw .unableToCreateAccount
  | .ok _ =>
    match ← findByEmail email with
    | some existingAcc =>
      ensure ((← isFinished existingAcc) = false) .unableToCreateAccount
      ensureSubscription existingAcc.id
      let acc ← setMissingPassword existingAcc password
      if password ≠ "" then completeRegistration acc else return ()
    | none =>
      let acc ← registerAccountWithPreauth env email password
      if password ≠ "" then completeRegistration acc else return ()

/-- The login handler, up to the session. -/
def login (email password : String) (mfa : MfaData) : AccountFlow Unit := do
  let acc ← call (.getAccountByEmail email)
  ensure (trimSpace password ≠ "" ∧ acc.password.any (env.checkPasswordHash password) =
    true) .unauthorized
  mfaCheck env acc mfa
  call (.external (.saveSession acc.id))

end Signup

/-- What a thread runs. -/
inductive Job where
  | signup (email password sessionID : String)
  | login (email password : String) (mfa : MfaData)
  | updateAccount (accountId : ObjectID) (updates : List AccountUpdate) (mfa : MfaData)
  | sendResetPasswordEmail (email : String)
  | verifyPasswordReset (tokenValue newPassword : String) (mfa : MfaData)
  | requestEmailVerificationOTP (accountId : ObjectID)
  | verifyEmailOTP (accountId : ObjectID) (otp : String)
  | totpEnable (accountId : ObjectID)
  | totpConfirm (accountId : ObjectID) (otp : String)
  | totpDisable (accountId : ObjectID) (otp : String)
  | generateDeletionCode (accountId : ObjectID)
  | deleteAccount (accountId : ObjectID) (req : AccountDeletionRequest) (mfa : MfaData)
  /-- The deletion cron. -/
  | purge (accountId : ObjectID)
  | finishReauth (accountId : ObjectID) (tmpToken : String)
  | exportProfiles (accountId : ObjectID) (currentPassword reauthToken : Option String)
      (mfa : MfaData)
  | importProfiles (accountId : ObjectID) (currentPassword reauthToken : Option String)
      (mfa : MfaData)
  | beginAddPasskey (accountId : ObjectID) (currentPassword reauthToken : Option String)
      (mfa : MfaData)
  | deletePasskeyByID (credentialId accountId : ObjectID)
      (currentPassword reauthToken : Option String)
    (mfa : MfaData)
  | idle

def Job.flow : Job → AccountFlow Unit
  | .signup email password sessionID => Accounts.signup env email password sessionID
  | .login email password mfa => Accounts.login env email password mfa
  | .updateAccount id updates mfa => Accounts.updateAccount env id updates mfa
  | .sendResetPasswordEmail email => Accounts.sendResetPasswordEmail email
  | .verifyPasswordReset tokenValue newPassword mfa =>
    Accounts.verifyPasswordReset env tokenValue newPassword mfa
  | .requestEmailVerificationOTP id => Accounts.requestEmailVerificationOTP env id
  | .verifyEmailOTP id otp => Accounts.verifyEmailOTP env id otp
  | .totpEnable id => do let _ ← Accounts.totpEnable env id
  | .totpConfirm id otp => do let _ ← Accounts.totpConfirm env id otp
  | .totpDisable id otp => do let _ ← Accounts.totpDisable env id otp
  | .generateDeletionCode id => do let _ ← Accounts.generateDeletionCode id
  | .deleteAccount id req mfa => Accounts.deleteAccount env id req mfa
  | .purge id => purgeAccountData id
  | .finishReauth id tmpToken => do let _ ← Accounts.finishReauth id tmpToken
  | .exportProfiles id pw token mfa => Accounts.exportProfiles env id pw token mfa
  | .importProfiles id pw token mfa => Accounts.importProfiles env id pw token mfa
  | .beginAddPasskey id pw token mfa => Accounts.beginAddPasskey env id pw token mfa
  | .deletePasskeyByID c id pw token mfa => Accounts.deletePasskeyByID env c id pw token mfa
  | .idle => return ()

/-- The pool of a set of jobs, on the state `s`. -/
def start {ι : Type} (s : State) (jobs : ι → Job) :
    Pool AccountSig ι State (Except AccountErr Unit) :=
  ⟨s, fun i => ((jobs i).flow env).run⟩

end ModDNS.Accounts
