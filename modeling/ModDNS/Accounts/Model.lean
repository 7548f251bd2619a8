import ModDNS.Conc.Flow
import ModDNS.Go.Strings

/-!
# Accounts

The account collection with the repository operations on it, the counters and secrets in
Redis, and the calls that the account flows make. Every call is one atomic action.
-/

namespace ModDNS.Accounts

open Conc

abbrev ObjectID := ℕ

/-- Nanoseconds, as in `time.Time`. -/
abbrev second : ℕ := 1000000000

abbrev minute : ℕ := 60 * second

/-- The purposes of `reauthTokenTypes`. -/
inductive Purpose where
  | emailChange
  | accountDeletion
  | profileExport
  | profileImport
  | passwordSet
  | passkeyAdd
  | passkeyDelete
  deriving DecidableEq

inductive TokenType where
  | emailVerificationOTP
  | passwordReset
  | reauth (purpose : Purpose)
  deriving DecidableEq

structure Token where
  value : String
  type : TokenType
  expiresAt : ℕ
  deriving DecidableEq

structure TotpSettings where
  enabled : Bool
  secret : String
  backupCodes : List String
  backupCodesUsed : List String
  deriving DecidableEq

structure MFASettings where
  totp : TotpSettings
  deriving DecidableEq

/-- `model.Account`, as it is stored. The empty deletion code is the absent one. -/
structure Account where
  id : ObjectID
  email : String
  emailVerified : Bool
  tokens : List Token
  password : Option String
  profiles : List String
  errorReportsConsent : Bool
  mfa : MFASettings
  deletionCode : String
  deletionCodeExpires : Option ℕ
  deriving DecidableEq

/-- `NewAccount` without a password. -/
def newAccount (email : String) (accountId : ObjectID) (profileId : String) : Account where
  id := accountId
  email := email
  emailVerified := false
  tokens := []
  password := none
  profiles := [profileId]
  errorReportsConsent := false
  mfa := ⟨false, "", [], []⟩
  deletionCode := ""
  deletionCodeExpires := none

/-- `$set` of a whole account on the stored one. What `omitempty` leaves out stays. -/
def Account.set (stored acc : Account) : Account :=
  { acc with
    id := stored.id
    password := acc.password.or stored.password
    deletionCode := if acc.deletionCode = "" then stored.deletionCode else acc.deletionCode
    deletionCodeExpires := acc.deletionCodeExpires.or stored.deletionCodeExpires }

/-- The collection; `_id` is unique. -/
structure Collection where
  docs : List Account
  nodup : (docs.map Account.id).Nodup

namespace Collection

def empty : Collection := ⟨[], List.nodup_nil⟩

variable (c : Collection)

/-- `FindOne` by `_id`. -/
def get (id : ObjectID) : Option Account := c.docs.find? (·.id = id)

/-- `FindOne` by another field. -/
def find (p : Account → Bool) : Option Account := c.docs.find? p

/-- `UpdateByID`, which leaves `_id` alone. It is no error if nothing matches. -/
def modify (id : ObjectID) (f : Account → Account) (hf : ∀ d, (f d).id = d.id) : Collection where
  docs := c.docs.map fun d => if d.id = id then f d else d
  nodup := by
    have hid : (Account.id ∘ fun d => if d.id = id then f d else d) = Account.id := by
      funext d
      by_cases h : d.id = id <;> simp [h, hf]
    rw [List.map_map, hid]
    exact c.nodup

/-- `InsertOne`; `none` is a duplicate key. -/
def insert (acc : Account) : Option Collection :=
  if h : acc.id ∈ c.docs.map Account.id then none
  else some ⟨acc :: c.docs, by simpa using ⟨by simpa using h, c.nodup⟩⟩

/-- `DeleteOne` by `_id`. -/
def erase (id : ObjectID) : Collection where
  docs := c.docs.filter (·.id ≠ id)
  nodup := c.nodup.sublist (List.filter_sublist.map _)

variable {c} {id id' : ObjectID} {acc d : Account}

@[simp] theorem get_empty : empty.get id = none := rfl

theorem get_id (h : c.get id = some d) : d.id = id := by
  simpa using List.find?_some h

theorem mem_of_get (h : c.get id = some d) : d ∈ c.docs := List.mem_of_find?_eq_some h

theorem get_of_mem (h : d ∈ c.docs) : c.get d.id = some d := by
  obtain ⟨docs, hn⟩ := c
  simp only [get] at *
  induction docs with
  | nil => cases h
  | cons x docs ih =>
    simp only [List.map_cons, List.nodup_cons] at hn
    rcases List.mem_cons.1 h with rfl | h
    · simp
    · have hne : x.id ≠ d.id := fun he => hn.1 (he ▸ List.mem_map_of_mem h)
      rw [List.find?_cons_of_neg (by simpa using hne)]
      exact ih hn.2 h

theorem get_of_find {p : Account → Bool} (h : c.find p = some d) : c.get d.id = some d ∧ p d :=
  ⟨get_of_mem (List.mem_of_find?_eq_some h), List.find?_some h⟩

theorem get_modify (f : Account → Account) (hf : ∀ d, (f d).id = d.id) :
    (c.modify id f hf).get id' = if id' = id then (c.get id').map f else c.get id' := by
  obtain ⟨docs, hn⟩ := c
  simp only [get, modify]
  clear hn
  induction docs with
  | nil => split <;> rfl
  | cons x docs ih =>
    by_cases hi : id' = id
    · subst hi
      by_cases hx : x.id = id'
      · simp [hx, hf]
      · simpa [hx] using ih
    · rw [if_neg hi] at ih ⊢
      by_cases hx : x.id = id
      · have hne : ¬ id = id' := fun he => hi he.symm
        simpa [hx, hf, hne] using ih
      · by_cases he : x.id = id'
        · simp [he, hi]
        · simpa [hx, he] using ih

theorem insert_new {c' : Collection} (h : c.insert acc = some c') : c.get acc.id = none := by
  unfold insert at h
  split at h
  · cases h
  · rename_i hid
    simpa [get] using hid

theorem get_insert {c' : Collection} (h : c.insert acc = some c') :
    c'.get id' = if id' = acc.id then some acc else c.get id' := by
  unfold insert at h
  split at h
  · cases h
  · cases h
    simp only [get, List.find?_cons]
    by_cases hi : id' = acc.id
    · simp [hi]
    · have hne : ¬ acc.id = id' := fun he => hi he.symm
      simp [hi, hne]

theorem get_erase : (c.erase id).get id' = if id' = id then none else c.get id' := by
  simp only [get, erase, List.find?_filter]
  split
  · subst id'
    rw [List.find?_eq_none]
    simp
  · congr 1
    funext x
    by_cases hx : x.id = id'
    · simp [*]
    · simp [hx]

end Collection

inductive AccountErr where
  /-- A call failed; a violated unique index is one way. -/
  | store
  | accountNotFound
  | subscriptionNotFound
  | unableToCreateAccount
  | accountAlreadyExists
  | unauthorized
  | emptyPassword
  | emailAlreadyVerified
  | emailOTPRateLimited
  | emailOTPMissing
  | emailOTPManyAttempts
  | invalidVerificationToken
  | emailSuppressed
  | sendOTP
  | incorrectOTP
  | tokenExpired
  | invalidTOTPCode
  | totpBackupAlreadyUsed
  | totpAlreadyConfigured
  | totpNotConfigured
  | totpAlreadyDisabled
  | totpRequired
  | missingAuthMethod
  | multipleAuthMethods
  | invalidPassword
  | invalidReauthToken
  | reauthTokenExpired
  | finishReauth
  | finishAddPasskey
  | finishRegistration
  | missingCeremonyToken
  | invalidUpdateValue
  | invalidUpdateOperation
  | invalidEmailUpdatePayload
  | invalidNewEmail
  | sameEmailAddress
  | emailAlreadyInUse
  | passwordTestRequired
  | passwordTooSimple
  | invalidDeletionCode
  | deletionCodeExpired
  | passkeyNotOwned
  | lastSignInMethod
  deriving DecidableEq

inductive CeremonyType where
  | registration
  | login
  | reauth
  | addPasskey
  deriving DecidableEq

/-- `model.Ceremony`, without the WebAuthn state. `none` is a purpose that is not in
`reauthTokenTypes`. -/
structure Ceremony where
  type : CeremonyType
  accountId : ObjectID
  purpose : Option Purpose

/-- The attempt counters. -/
inductive Label where
  | totpFails
  | totpConfirmFails
  | emailVerifyResend
  | emailVerifyFail
  deriving DecidableEq

/-- Calls that neither read nor write the account collection. -/
inductive External where
  | validateAndGetPreauth (sessionID : String)
  | createSubscription (accountId : ObjectID)
  | deleteSubscription (accountId : ObjectID)
  | saveSession (accountId : ObjectID)
  | deleteProfile (profileId : String)
  | exportProfiles (accountId : ObjectID)
  | importProfiles (accountId : ObjectID)
  | deleteCredentials (accountId : ObjectID)
  | deleteCredential (credentialId accountId : ObjectID)
  | beginRegistration (accountId : ObjectID)
  | finishRegistration (accountId : ObjectID)
  | saveCredential (accountId : ObjectID)
  | finishAssertion (accountId : ObjectID)

/-- The atomic actions of the flows. -/
inductive AccountOp where
  | now
  | getAccountById (accountId : ObjectID)
  | getAccountByEmail (email : String)
  | getAccountByToken (token : String) (tokenType : TokenType)
  | createAccount (acc : Account)
  /-- `loaded` is the account as the flow has last read or written it; the store does not see it. -/
  | updateAccount (loaded acc : Account)
  | updateDeletionCode (accountId : ObjectID) (code : String) (expiresAt : ℕ)
  | addProfileToAccount (accountId : ObjectID) (profileId : String)
  | removeProfileFromAccount (accountId : ObjectID) (profileId : String)
  | deleteAccountById (accountId : ObjectID)
  /-- Redis: `Incr` and `Get` on the counter of an account. -/
  | incr (label : Label) (accountId : ObjectID) (expiration : ℕ)
  | getCounter (label : Label) (accountId : ObjectID)
  | setTOTPSecret (accountId : ObjectID) (secret : String) (expiration : ℕ)
  | getTOTPSecret (accountId : ObjectID)
  /-- `RandomString`, with the letters of backup codes. -/
  | randomString (n : ℕ)
  | generateSecureToken (n : ℕ)
  | newObjectID
  | totpGenerate
  | generateCode
  | generateDeletionCode
  | bcrypt (password : String)
  | mailVerify (email : String)
  | sendEmailVerificationOTP (to_ otp : String)
  | sendPasswordResetEmail (to_ token : String)
  | getSubscription (accountId : ObjectID)
  | createProfile (accountId : ObjectID)
  | getProfiles (accountId : ObjectID)
  | getCredentialsCount (accountId : ObjectID)
  | getCredentialByID (credentialId : ObjectID)
  | consumeCeremony (token : String)
  | external (call : External)

abbrev AccountOp.Ans : AccountOp → Type
  | .now => ℕ
  | .getAccountById _ | .getAccountByEmail _ | .getAccountByToken _ _ => Account
  | .incr _ _ _ | .getCounter _ _ | .getCredentialsCount _ => ℕ
  | .getCredentialByID _ | .newObjectID => ObjectID
  | .getTOTPSecret _ | .randomString _ | .generateSecureToken _ | .totpGenerate | .generateCode
  | .generateDeletionCode | .bcrypt _ | .createProfile _ => String
  | .getProfiles _ => List String
  | .consumeCeremony _ => Ceremony
  | _ => Unit

/-- The writes to the account collection: no flow passes over their failures. -/
def AccountOp.stores : AccountOp → Bool
  | .createAccount _ | .updateAccount _ _ | .updateDeletionCode _ _ _ | .addProfileToAccount _ _
  | .removeProfileFromAccount _ _ | .deleteAccountById _ => true
  | _ => false

abbrev accountCalls : Calls := ⟨AccountOp, AccountOp.Ans, AccountErr, AccountOp.stores⟩

abbrev AccountSig : Sig := accountCalls.sig

/-- The configuration, and what the libraries compute. -/
structure Env where
  idLimiterMax : ℤ
  idLimiterExpiration : ℕ
  otpExpirationTime : ℕ
  /-- `totp.Validate`, at an instant. -/
  validate : (passcode secret : String) → ℕ → Bool
  checkPasswordHash : (password hash : String) → Bool
  /-- `strings.ToLower`, `strings.EqualFold` and the class `[^\p{L}\p{N}]`: the Unicode tables. -/
  toLower : String → String
  equalFold : String → String → Bool
  isSpecial : Char → Bool
  /-- `Validate.Struct` of an `AccountEmailUpdate`. -/
  validateEmailUpdate : (currentPassword reauthToken : Option String) → (newEmail : String) → Bool

def normalizeEmail (env : Env) (s : String) : String := env.toLower (Go.trimSpace s)

/-- `AlphaNumericUserFriendly`. -/
def alphaNumericUserFriendly : String := "ABCDEFGHJKLMNPQRSTUVWXYZabcdefghijkmnpqrstuvwxyz23456789"

/-- What `RandomString` can answer. -/
def IsRandomString (n : ℕ) (v : String) : Prop :=
  v.length = n ∧ ∀ c ∈ v.toList, c ∈ alphaNumericUserFriendly.toList

instance (n : ℕ) (v : String) : Decidable (IsRandomString n v) :=
  decidable_of_iff (v.length = n ∧ v.toList.all (· ∈ alphaNumericUserFriendly.toList))
    (by simp [IsRandomString])

/-- An attempt counter in Redis: its value, and when it is gone. -/
structure Counter where
  label : Label
  accountId : ObjectID
  value : ℕ
  expiresAt : ℕ

structure State where
  accounts : Collection
  counters : List Counter
  secrets : List (ObjectID × String × ℕ)
  /-- The random tokens and backup codes drawn so far. -/
  drawn : List String
  now : ℕ

def State.initial : State := ⟨.empty, [], [], [], 0⟩

/-- What the environment chooses at an action: how far the clock went on, whether the call
fails, and what it is answered. -/
structure Choice where
  tick : ℕ
  fail : Bool
  str : String
  num : ℕ
  strs : List String
  ceremony : Option Ceremony

section Handler

variable (env : Env) (ch : Choice) (s : State)

/-- `INCR`, with the expiry of a new counter. -/
def State.incr (label : Label) (accountId : ObjectID) (expiration : ℕ) : ℕ × State :=
  match s.counters.find? (fun c => c.label = label ∧ c.accountId = accountId ∧
    s.now < c.expiresAt) with
  | some c => (c.value + 1, { s with counters := { c with value := c.value + 1 } :: s.counters })
  | none => (1, { s with counters := ⟨label, accountId, 1, s.now + expiration⟩ :: s.counters })

def State.getCounter (label : Label) (accountId : ObjectID) : Option ℕ :=
  (s.counters.find? (fun c => c.label = label ∧ c.accountId = accountId ∧ s.now < c.expiresAt)).map
    (·.value)

def State.getTOTPSecret (accountId : ObjectID) : Option String :=
  (s.secrets.find? (fun x => x.1 = accountId ∧ s.now < x.2.2)).map (·.2.1)

/-- The account document of `id`, changed by `f`. -/
def State.modify (id : ObjectID) (f : Account → Account) (hf : ∀ d, (f d).id = d.id) : State :=
  { s with accounts := s.accounts.modify id f hf }

/-- A random string: one that has not been drawn before. -/
def State.draw : Option (Except AccountErr String × State) :=
  if ch.str ∈ s.drawn then none else some (.ok ch.str, { s with drawn := ch.str :: s.drawn })

/-- `FindOne`. -/
def found (d : Option Account) : Except AccountErr Account :=
  match d with
  | none => .error .accountNotFound
  | some d => .ok d

/-- What an action does, if it does not fail. -/
def accountAct : (o : AccountOp) → Option (Except AccountErr o.Ans × State)
  | .now => some (.ok s.now, s)
  | .getAccountById id => some (found (s.accounts.get id), s)
  | .getAccountByEmail email =>
    some (found (s.accounts.find fun d => d.email = normalizeEmail env email), s)
  | .getAccountByToken token tokenType =>
    -- the two conditions of the filter may be met by different tokens
    some (found (s.accounts.find fun d => d.tokens.any (·.value = token) ∧
      d.tokens.any (·.type = tokenType)), s)
  | .createAccount acc =>
    match s.accounts.insert acc with
    | none => some (.error .store, s)
    | some c => some (.ok (), { s with accounts := c })
  | .updateAccount _ acc => some (.ok (), s.modify acc.id (fun d => d.set acc) fun _ => rfl)
  | .updateDeletionCode id code expiresAt =>
    some (.ok (),
      s.modify id (fun d => { d with deletionCode := code, deletionCodeExpires := some expiresAt })
      fun _ => rfl)
  | .addProfileToAccount id p =>
    some (.ok (), s.modify id (fun d => { d with profiles := d.profiles.insert p }) fun _ => rfl)
  | .removeProfileFromAccount id p =>
    some (.ok (), s.modify id (fun d => { d with profiles := d.profiles.filter (· ≠ p) }) fun _ =>
      rfl)
  | .deleteAccountById id => some (.ok (), { s with accounts := s.accounts.erase id })
  | .incr label id expiration =>
    some (.ok (s.incr label id expiration).1, (s.incr label id expiration).2)
  | .getCounter label id =>
    match s.getCounter label id with
    | none => some (.error .store, s)
    | some n => some (.ok n, s)
  | .setTOTPSecret id secret expiration =>
    some (.ok (), { s with secrets := (id, secret, s.now + expiration) :: s.secrets })
  | .getTOTPSecret id =>
    match s.getTOTPSecret id with
    | none => some (.error .store, s)
    | some secret => some (.ok secret, s)
  | .randomString n => if IsRandomString n ch.str then s.draw ch else none
  | .generateSecureToken _ => s.draw ch
  | .newObjectID => some (.ok ch.num, s)
  | .totpGenerate => some (.ok ch.str, s)
  | .generateCode => some (.ok ch.str, s)
  | .generateDeletionCode => some (.ok ch.str, s)
  | .bcrypt _ => some (.ok ch.str, s)
  | .mailVerify _ => some (.ok (), s)
  | .sendEmailVerificationOTP _ _ => some (.ok (), s)
  | .sendPasswordResetEmail _ _ => some (.ok (), s)
  | .getSubscription _ => some (if ch.num = 0 then .error .subscriptionNotFound else .ok (), s)
  | .createProfile _ => some (.ok ch.str, s)
  | .getProfiles _ => some (.ok ch.strs, s)
  | .getCredentialsCount _ => some (.ok ch.num, s)
  | .getCredentialByID _ => some (.ok ch.num, s)
  | .consumeCeremony _ =>
    match ch.ceremony with
    | none => some (.error .store, s)
    | some x => some (.ok x, s)
  | .external _ => some (.ok (), s)

def AccountOp.canFail : AccountOp → Bool
  | .now | .randomString _ | .newObjectID => false
  | _ => true

/-- A call that fails has no effect. -/
def accountHandler {ι : Type} : Handler AccountSig ι State Choice := fun _ o ch s =>
  if ch.fail ∧ o.canFail then some (.error .store, { s with now := s.now + ch.tick })
  else accountAct env ch { s with now := s.now + ch.tick } o

end Handler

end ModDNS.Accounts
