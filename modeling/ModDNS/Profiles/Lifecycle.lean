import ModDNS.Conc.Par
import ModDNS.Profiles.Patch

/-!
# How profiles come and go

The creation and the deletion of profiles, the DNS cutoff of the profiles of an account, and the
repopulation of the settings cache.
-/

namespace ModDNS.Profiles

open Conc

section Create

variable (env : ServiceEnv)

def createSettings (profileId : String) : ProfileFlow ProfileSettings := do
  let defaultBlocklists : List String ← call (.getBlocklist .isDefault)
  let settings := { newSettings with profileId, privacy.blocklists := defaultBlocklists }
  createOrUpdateProfileSettings settings
  return settings

def createProfile (name accountId : String) : ProfileFlow Profile := do
  ensure (normalizeName env name ≠ "") ServiceErr.profileNameEmpty
  ensure (isSafeName env (normalizeName env name)) ServiceErr.profileNameInvalid
  let profileId : String ← call .generate
  let settings ← createSettings profileId
  let profiles : List Profile ← call (.getProfilesByAccountId accountId)
  ensure (profiles.length < env.maxProfiles) ServiceErr.maxProfilesLimitReached
  ensure (nameTaken profiles (normalizeName env name) = false) ServiceErr.profileNameAlreadyExists
  let profile : Profile := ⟨profileId, accountId, normalizeName env name, settings⟩
  call (.createProfile profile)
  return profile

end Create

section Delete

/-- The goroutines of an `errgroup`. -/
abbrev goroutines (flows : List (ProfileFlow Unit)) : ProfileFlow Unit :=
  group (C := profileCalls) .turn (fun goesOn => goesOn.toOption.getD false) flows

/-- An account keeps its last profile, unless `removeLast`. -/
def checkNotLast (accountId : String) (removeLast : Bool) : ProfileFlow Unit :=
  if removeLast then pure ()
  else do
    let profiles : List Profile ← call (.getProfilesByAccountId accountId)
    ensure (1 < profiles.length) ServiceErr.lastProfileInAccount

def deleteProfile (accountId profileId : String) (removeLast : Bool) : ProfileFlow Unit := do
  let _ ← validateProfileIdAffiliation accountId profileId
  checkNotLast accountId removeLast
  goroutines [call (.deleteProfileById profileId), call (.deleteProfileQueryLogs profileId),
    deleteProfileSettings profileId]

/-- The loop of `PurgeAccountData`. -/
def purgeProfiles (accountId : String) : List Profile → ProfileFlow Unit
  | [] => pure ()
  | p :: profiles => do
    deleteProfile accountId p.profileId true
    call (.removeProfileFromAccount accountId p.profileId)
    purgeProfiles accountId profiles

def purgeAccountData (accountId : String) : ProfileFlow Unit := do
  call (.deleteCredentials accountId)
  let profiles : List Profile ← call (.getProfilesByAccountId accountId)
  purgeProfiles accountId profiles
  call (.deleteAccountById accountId)
  call (.deleteSubscription accountId)

variable {accountId profileId : String} {removeLast : Bool} {l : List profileCalls.sig.Act}

/-- A deletion that ends without an error has deleted the document and the settings. -/
theorem ends_deleteProfile_ok
    (h : Ends (deleteProfile accountId profileId removeLast).run l (.ok ())) :
    (⟨.deleteProfileById profileId, .ok ()⟩ : profileCalls.sig.Act) ∈ l ∧
      ∃ l', Ends (deleteProfileSettings profileId).run l' (.ok ()) ∧ l'.Sublist l := by
  obtain ⟨e, -, h⟩ | ⟨l₁, l₂, stored, rfl, -, hnext⟩ := ends_flow_bind h
  · cases h
  obtain ⟨e, -, h⟩ | ⟨l₃, l₄, u, rfl, -, hgroup⟩ := ends_flow_bind hnext
  · cases h
  obtain ⟨lm, lr, rm, rr, hmongo, hrest, hmerge, hok⟩ := ends_group_cons hgroup
  obtain ⟨rfl, rfl⟩ := hok.1 rfl
  obtain ⟨lq, ls, rq, rs, -, hsettings, hmerge', hok'⟩ := ends_group_cons hrest
  obtain ⟨rfl, rfl⟩ := hok'.1 rfl
  obtain ⟨lc, lz, rc, rz, hcache, -, hmerge'', hok''⟩ := ends_group_cons hsettings
  obtain ⟨rfl, rfl⟩ := hok''.1 rfl
  have hsub : lc.Sublist l₄ :=
    hmerge''.sublist_left.trans (hmerge'.sublist_right.trans hmerge.sublist_right)
  have hmem := hmerge.sublist_left.subset (ends_act hmongo ▸ List.mem_singleton_self _)
  refine ⟨List.mem_append_right _ (List.mem_append_right _ hmem), lc, hcache, hsub.trans ?_⟩
  exact (List.sublist_append_right ..).trans (List.sublist_append_right ..)

end Delete

section Cache

/-- For each of the profiles, past the errors of the others. -/
def eachProfile (f : Profile → ProfileFlow Unit) : List Profile → ProfileFlow Unit
  | [] => pure ()
  | profile :: profiles => do
    let _ ← attempt (f profile)
    eachProfile f profiles

/-- For each profile of an account; an error is logged. -/
def forAccount (accountId : String) (f : Profile → ProfileFlow Unit) : ProfileFlow Unit := do
  let profiles ← attempt (call (.getProfilesByAccountId accountId))
  match profiles with
  | .error _ => pure ()
  | .ok profiles => eachProfile f profiles

def repopulateProfileCache (accountId : String) : ProfileFlow Unit :=
  forAccount accountId fun profile => createOrUpdateProfileSettings profile.settings

/-- The DNS cutoff of an account. -/
def cutOff (accountId : String) : ProfileFlow Unit :=
  forAccount accountId fun profile => deleteProfileSettings profile.profileId

end Cache

end ModDNS.Profiles
