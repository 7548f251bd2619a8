import ModDNS.Conc.Pool

/-!
# Subscriptions

The subscription collection, the Redis settings of an account's profiles, and the flows
that change them: signup with the retirement of superseded accounts, resync, and the
flags of the notification crons. Every repository, Redis or HTTP call is one atomic
action.
-/

namespace ModDNS.Api

open Conc

abbrev AccountID := ℕ

/-- `model.Subscription`, without its computed fields. An empty string and a zero time are
the absent values of `omitempty`. -/
structure Subscription where
  id : ℕ
  accountId : AccountID
  activeUntil : ℕ
  type : String
  tier : String
  tokenHash : String
  updatedAt : ℕ
  notified : Bool
  notifiedInactive : Bool
  maxQueriesPerMonth : ℕ
  deletionScheduledAt : Option ℕ
  deriving DecidableEq

/-- `Retired`. -/
def Subscription.Retired (s : Subscription) : Prop := s.deletionScheduledAt ≠ none

instance (s : Subscription) : Decidable s.Retired := inferInstanceAs (Decidable (_ ≠ _))

structure Preauth where
  id : String
  tokenHash : String
  activeUntil : ℕ
  tier : String
  deriving DecidableEq

structure PASession where
  id : String
  token : String
  preauthId : String

/-- What the flows read of a profile. -/
structure Profile where
  profileId : String
  accountId : AccountID
  /-- `Settings` is not nil. -/
  hasSettings : Bool
  deriving DecidableEq

section Repository

variable (subs : List Subscription)

/-- `FindActiveByTokenHash`. -/
def findActiveByTokenHash (tokenHash : String) (excludeAccountID : AccountID) : List Subscription :=
  subs.filter fun s => s.tokenHash = tokenHash ∧ s.accountId ≠ excludeAccountID

/-- `MarkSubscriptionRetired`. -/
def markSubscriptionRetired (id : ℕ) (now : ℕ) : List Subscription :=
  subs.map fun s =>
    if s.id = id then { s with deletionScheduledAt := some now, tokenHash := "" } else s

/-- `$set` of a whole subscription on a stored one: what `omitempty` leaves out stays. -/
def Subscription.set (stored sub : Subscription) : Subscription :=
  { id := stored.id
    accountId := sub.accountId
    activeUntil := sub.activeUntil
    type := if sub.type = "" then stored.type else sub.type
    tier := if sub.tier = "" then stored.tier else sub.tier
    tokenHash := if sub.tokenHash = "" then stored.tokenHash else sub.tokenHash
    updatedAt := if sub.updatedAt = 0 then stored.updatedAt else sub.updatedAt
    notified := sub.notified
    notifiedInactive := sub.notifiedInactive
    maxQueriesPerMonth := sub.maxQueriesPerMonth
    deletionScheduledAt := sub.deletionScheduledAt.or stored.deletionScheduledAt }

/-- `Upsert`, by account: an account has one subscription. -/
def upsert (sub : Subscription) : List Subscription :=
  if subs.any (·.accountId = sub.accountId) then
    subs.map fun s => if s.accountId = sub.accountId then s.set sub else s
  else subs ++ [sub]

/-- `ClearLegacyType`. -/
def clearLegacyType (accountId : AccountID) : List Subscription :=
  subs.map fun s => if s.accountId = accountId then { s with type := "" } else s

/-- `SetNotified`. -/
def setNotified (ids : List ℕ) (value : Bool) : List Subscription :=
  subs.map fun s => if s.id ∈ ids then { s with notified := value } else s

/-- `SetInactiveNotified`. -/
def setInactiveNotified (ids : List ℕ) (value : Bool) : List Subscription :=
  subs.map fun s => if s.id ∈ ids then { s with notifiedInactive := value } else s

end Repository

inductive SubErr where
  | store
  | subscriptionAlreadyExists
  | subscriptionNotFound
  | subscriptionScheduledForDeletion
  | paSessionNotFound
  | paNotFound
  | tokenHashMismatch
  | webhook
  deriving DecidableEq

/-- The atomic actions of the flows. -/
inductive SubOp where
  | uuid
  | now
  | create (sub : Subscription)
  | getSubscription (accountId : AccountID)
  | findActive (tokenHash : String) (excludeAccountID : AccountID)
  | markRetired (id : ℕ) (now : ℕ)
  | upsert (sub : Subscription)
  | clearLegacyType (accountId : AccountID)
  | setNotified (ids : List ℕ) (value : Bool)
  | setInactiveNotified (ids : List ℕ) (value : Bool)
  | getProfiles (accountId : AccountID)
  /-- Redis: `DeleteProfileSettings`. -/
  | deleteProfileSettings (profileId : String)
  /-- Redis: `CreateOrUpdateProfileSettings`. -/
  | createOrUpdateProfileSettings (profile : Profile)
  | getPASession (sessionID : String)
  | getPreauth (id : String)
  | signupWebhook (subID : String)

abbrev SubSig : Sig where
  Op := SubOp
  Res
    | .uuid => ℕ
    | .now => ℕ
    | .getSubscription _ => Except SubErr Subscription
    | .findActive _ _ => Except SubErr (List Subscription)
    | .getProfiles _ => Except SubErr (List Profile)
    | .getPASession _ => Except SubErr PASession
    | .getPreauth _ => Except SubErr Preauth
    | _ => Except SubErr Unit

/-- The subscription and profile collections, the profiles with settings in Redis, and
the clock. -/
structure SubState where
  subs : List Subscription
  profiles : List Profile
  redis : List String
  now : ℕ

/-- What the environment chooses at an action: how far the clock went on, whether a call
fails, and what the outside world answers. -/
structure SubChoice where
  tick : ℕ
  fail : Bool
  uuid : ℕ
  paSession : Option PASession
  preauth : Option Preauth

/-- A store call that may fail. -/
def orFail {α : Type} (ch : SubChoice) (s : SubState) (r : Except SubErr α × SubState) :
    Except SubErr α × SubState :=
  if ch.fail then (.error .store, s) else r

/-- What an action does. -/
def subAct (ch : SubChoice) (s : SubState) : (o : SubOp) → SubSig.Res o × SubState
  | .uuid => (ch.uuid, s)
  | .now => (s.now, s)
  | .create sub => orFail ch s <|
    -- `_id` is unique
    if s.subs.any (·.id = sub.id) then (.error .subscriptionAlreadyExists, s)
    else (.ok (), { s with subs := s.subs ++ [sub] })
  | .getSubscription a => orFail ch s <|
    match s.subs.find? (·.accountId = a) with
    | none => (.error .subscriptionNotFound, s)
    | some sub => (.ok sub, s)
  | .findActive h a => orFail ch s (.ok (findActiveByTokenHash s.subs h a), s)
  | .markRetired id now =>
    orFail ch s (.ok (), { s with subs := markSubscriptionRetired s.subs id now })
  | .upsert sub => orFail ch s (.ok (), { s with subs := upsert s.subs sub })
  | .clearLegacyType a => orFail ch s (.ok (), { s with subs := clearLegacyType s.subs a })
  | .setNotified ids v => orFail ch s (.ok (), { s with subs := setNotified s.subs ids v })
  | .setInactiveNotified ids v =>
    orFail ch s (.ok (), { s with subs := setInactiveNotified s.subs ids v })
  | .getProfiles a => orFail ch s (.ok (s.profiles.filter (·.accountId = a)), s)
  | .deleteProfileSettings p => orFail ch s (.ok (), { s with redis := s.redis.filter (· ≠ p) })
  | .createOrUpdateProfileSettings p =>
    orFail ch s (.ok (), { s with redis := s.redis.insert p.profileId })
  | .getPASession _ => (match ch.paSession with | none => .error .store | some x => .ok x, s)
  | .getPreauth _ => (match ch.preauth with | none => .error .store | some x => .ok x, s)
  | .signupWebhook _ => (if ch.fail then .error .webhook else .ok (), s)

def subHandler {ι : Type} : Handler SubSig ι SubState SubChoice := fun _ o ch s =>
  some (subAct ch { s with now := s.now + ch.tick } o)

/-- What a step of any thread does. -/
theorem sub_step {ι α : Type} [DecidableEq ι] {P Q : Pool SubSig ι SubState α} {e : Event SubSig ι}
    (hst : Step subHandler P e Q) :
    ∃ ch, subAct ch { P.state with now := P.state.now + ch.tick } e.op = (e.res, Q.state) := by
  obtain ⟨k, ch, s, -, hs, rfl⟩ := step_iff.1 hst
  exact ⟨ch, by simpa [subHandler] using hs⟩

theorem orFail_cases {α : Type} {ch : SubChoice} {s t : SubState} {r : Except SubErr α × SubState}
    {x : Except SubErr α} (h : orFail ch s r = (x, t)) :
    (x = .error .store ∧ t = s) ∨ (x = r.1 ∧ t = r.2) := by
  unfold orFail at h
  split at h <;> cases h
  · exact .inl ⟨rfl, rfl⟩
  · exact .inr ⟨rfl, rfl⟩

section Programs

abbrev SubProg := Prog SubSig

abbrev call (o : SubOp) : SubProg (SubSig.Res o) := Prog.op (S := SubSig) o

/-- `CreateSubscriptionFromPreauth`. -/
def createSubscriptionFromPreauth (accountId : AccountID) (preauth : Preauth) :
    SubProg (Except SubErr Unit) := do
  let id ← call .uuid
  let now ← call .now
  call (.create
    { id, accountId, activeUntil := preauth.activeUntil, type := "", tier := preauth.tier
      tokenHash := preauth.tokenHash, updatedAt := now, notified := false, notifiedInactive := false
      maxQueriesPerMonth := 0, deletionScheduledAt := none })

/-- The DNS cutoff: errors are logged only. -/
def cutOffDNS : List Profile → SubProg Unit
  | [] => return ()
  | p :: profiles => do
    let _ ← call (.deleteProfileSettings p.profileId)
    cutOffDNS profiles

/-- The loop of `retireSupersededAccounts`: a failure does not stop the others. -/
def retireEach (now : ℕ) : List Subscription → SubProg Unit
  | [] => return ()
  | old :: superseded => do
    match ← call (.markRetired old.id now) with
    | .error _ => retireEach now superseded
    | .ok _ =>
      match ← call (.getProfiles old.accountId) with
      | .error _ => retireEach now superseded
      | .ok profiles =>
        cutOffDNS profiles
        retireEach now superseded

def retireSupersededAccounts (newAccountID : AccountID) (tokenHash : String) : SubProg Unit := do
  if tokenHash = "" then return ()
  else
    match ← call (.findActive tokenHash newAccountID) with
    | .error _ => return ()
    | .ok superseded =>
      let now ← call .now
      retireEach now superseded

/-- A signup, as far as it touches subscriptions: once it has completed it dispatches the
retirement of the accounts it supersedes. -/
def signup (accountId : AccountID) (preauth : Preauth) : SubProg Unit := do
  match ← createSubscriptionFromPreauth accountId preauth with
  | .error _ => return ()
  | .ok _ => retireSupersededAccounts accountId preauth.tokenHash

/-- `ValidateAndGetPreauth`; `hash` is the encoded SHA-256. -/
def validateAndGetPreauth (hash : String → String) (sessionID : String) :
    SubProg (Except SubErr Preauth) := do
  match ← call (.getPASession sessionID) with
  | .error _ => return .error .paSessionNotFound
  | .ok paSession =>
    match ← call (.getPreauth paSession.preauthId) with
    | .error _ => return .error .paNotFound
    | .ok preauth =>
      if hash paSession.token = preauth.tokenHash then return .ok preauth
      else return .error .tokenHashMismatch

/-- `repopulateProfileCache`: errors are logged only. -/
def repopulateEach : List Profile → SubProg Unit
  | [] => return ()
  | p :: profiles => do
    if p.hasSettings = true then
      let _ ← call (.createOrUpdateProfileSettings p)
      repopulateEach profiles
    else repopulateEach profiles

def repopulateProfileCache (accountId : AccountID) : SubProg Unit := do
  match ← call (.getProfiles accountId) with
  | .error _ => return ()
  | .ok profiles => repopulateEach profiles

/-- `UpdateSubscriptionFromPASession`. -/
def updateSubscriptionFromPASession (hash : String → String) (sub : Subscription)
    (sessionID subID : String) :
    SubProg (Except SubErr Unit) := do
  if sub.Retired then return .error .subscriptionScheduledForDeletion
  else
    match ← validateAndGetPreauth hash sessionID with
    | .error e => return .error e
    | .ok preauth =>
      let now ← call .now
      match ← call (.upsert { sub with
          activeUntil := preauth.activeUntil, tier := preauth.tier, tokenHash := preauth.tokenHash
          updatedAt := now }) with
      | .error e => return .error e
      | .ok _ =>
        let _ ← call (.clearLegacyType sub.accountId)
        repopulateProfileCache sub.accountId
        if subID = "" then return .ok ()
        else call (.signupWebhook subID)

/-- The resync request: it loads the subscription first. -/
def updateSubscription (hash : String → String) (accountId : AccountID) (sessionID subID : String) :
    SubProg (Except SubErr Unit) := do
  match ← call (.getSubscription accountId) with
  | .error e => return .error e
  | .ok sub => updateSubscriptionFromPASession hash sub sessionID subID

/-- A thread: a signup, a resync, or a cron that sets a flag. -/
inductive SubJob where
  | signup (accountId : AccountID) (preauth : Preauth)
  | resync (accountId : AccountID) (sessionID subID : String)
  | notified (ids : List ℕ) (value : Bool)
  | inactiveNotified (ids : List ℕ) (value : Bool)
  | idle

def SubJob.prog (hash : String → String) : SubJob → SubProg Unit
  | .signup a preauth => Api.signup a preauth
  | .resync a sessionID subID => do
    let _ ← updateSubscription hash a sessionID subID
    return ()
  | .notified ids value => do
    let _ ← call (.setNotified ids value)
    return ()
  | .inactiveNotified ids value => do
    let _ ← call (.setInactiveNotified ids value)
    return ()
  | .idle => return ()

end Programs

end ModDNS.Api
