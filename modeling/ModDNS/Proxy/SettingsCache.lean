import Mathlib.Data.List.Basic
import ModDNS.Conc.Pool
import ModDNS.Proxy.Request

/-!
# Loading the settings of a profile

The in-process settings cache, the settings store, and `loadProfileSettings`: look into
the cache, consult the store if it may be consulted, store or evict. Each cache
operation and each store round trip is one atomic action; a query is a program over
them, so the queries of a proxy interleave between any two of its actions.
-/

namespace ModDNS.Proxy

open Go Conc

section Cache

/-- What `Get` found (`settingscache.State`). -/
inductive CacheState where
  | miss
  | fresh
  | stale
  deriving DecidableEq

/-- A cache entry; its size estimate is for accounting only. -/
structure Entry where
  settings : ProfileSettings
  fetchedAt : ℕ

/-- `settingscache.Cache`: the LRU entries with the most recently used in front, and the
instant before which the store is not consulted (zero: the store is healthy). -/
structure SettingsCache where
  ttl : ℕ
  size : ℕ
  probeInterval : ℕ
  entries : List (String × Entry)
  retryAt : ℕ

namespace SettingsCache

variable (c : SettingsCache)

/-- The entries without one profile. -/
def others (id : String) : List (String × Entry) := c.entries.filter (·.1 ≠ id)

/-- `Get`: a hit moves its entry to the front. -/
def get (now : ℕ) (id : String) : (Option ProfileSettings × CacheState) × SettingsCache :=
  match c.entries.lookup id with
  | none => ((none, .miss), c)
  | some e =>
    let state := if 0 < c.ttl ∧ c.ttl ≤ now - e.fetchedAt then .stale else .fresh
    ((some e.settings, state), { c with entries := (id, e) :: c.others id })

/-- `Put`: over capacity the least recently used entry goes. -/
def put (now : ℕ) (id : String) (settings : ProfileSettings) : SettingsCache :=
  { c with entries := ((id, ⟨settings, now⟩) :: c.others id).take c.size }

/-- `Evict`. -/
def evict (id : String) : SettingsCache := { c with entries := c.others id }

/-- The second half of `FetchAllowed`, after a mark `retryAt` was read: one caller per
probe interval wins the compare-and-swap. -/
def probe (now retryAt : ℕ) : Bool × SettingsCache :=
  if now < retryAt then (false, c)
  else if c.retryAt = retryAt then (true, { c with retryAt := now + c.probeInterval })
  else (false, c)

/-- `StoreFailed`: true on the transition from healthy to failed. -/
def storeFailed (now : ℕ) : Bool × SettingsCache :=
  (c.retryAt = 0, { c with retryAt := now + c.probeInterval })

/-- `StoreRecovered`. -/
def storeRecovered : Bool × SettingsCache := (c.retryAt ≠ 0, { c with retryAt := 0 })

/-- The profile has an entry. -/
def Cached (id : String) : Prop := ∃ e, (id, e) ∈ c.entries

variable {c}

theorem cached_of_others {id id' : String} {e : Entry} (h : (id', e) ∈ c.others id) :
    c.Cached id' :=
  ⟨e, (List.mem_filter.1 h).1⟩

theorem cached_of_lookup {id : String} {e : Entry} (h : c.entries.lookup id = some e) :
    c.Cached id := by
  obtain ⟨l₁, l₂, hl, -⟩ := List.lookup_eq_some_iff.1 h
  exact ⟨e, by simp [hl]⟩

/-- A lookup brings no profile into the cache. -/
theorem get_cached {now : ℕ} {id id' : String} (h : (c.get now id).2.Cached id') :
    c.Cached id' := by
  unfold get at h
  split at h
  · exact h
  · rename_i e he
    obtain ⟨e', he'⟩ := h
    rcases List.mem_cons.1 he' with heq | hmem
    · cases heq
      exact cached_of_lookup he
    · exact cached_of_others hmem

/-- A lookup answers from the cache only what is in it. -/
theorem get_miss {now : ℕ} {id : String} (h : ¬ c.Cached id) :
    (c.get now id).1 = (none, .miss) := by
  unfold get
  split
  · rfl
  · rename_i e he
    exact absurd (cached_of_lookup he) h

/-- `Put` brings in its own profile only. -/
theorem put_cached {now : ℕ} {id id' : String} {settings : ProfileSettings} (hne : id' ≠ id)
    (h : (c.put now id settings).Cached id') : c.Cached id' := by
  obtain ⟨e, he⟩ := h
  rcases List.mem_cons.1 (List.mem_of_mem_take he) with heq | hmem
  · exact absurd (congrArg Prod.fst heq) hne
  · exact cached_of_others hmem

theorem evict_cached {id id' : String} (h : (c.evict id).Cached id') : id' ≠ id ∧ c.Cached id' := by
  obtain ⟨e, he⟩ := h
  exact ⟨by simpa using (List.mem_filter.1 he).2, cached_of_others he⟩

theorem probe_entries (now retryAt : ℕ) : (c.probe now retryAt).2.entries = c.entries := by
  unfold probe
  split
  · rfl
  · split <;> rfl

end SettingsCache

end Cache

section Store

/-- An error of one settings group: absent, or a failed read. -/
inductive SettingsErr where
  | notFound
  | store
  deriving DecidableEq

/-- The groups that one batch reads, in the order of `StoreError`; privacy comes first and
the custom rules come last. -/
inductive Group where
  | privacy
  | logs
  | dnssec
  | rebindingProtection
  | advanced
  | statistics
  | blocklists
  | services
  | customRules
  deriving DecidableEq

/-- The keys of a profile in the store: a custom rule is a set member and its hash. -/
structure StoredProfile where
  groups : ProfileSettings
  customRules : List (String × Hash)

/-- A profile without any key. -/
def StoredProfile.gone : StoredProfile := ⟨ProfileSettings.empty, []⟩

/-- What a batch brings back: the settings, and the error of each group. -/
structure Fetched where
  settings : ProfileSettings
  privacyErr : Option SettingsErr
  /-- The errors of the groups between privacy and the custom rules. -/
  otherErrs : List (Option SettingsErr)
  customRulesErr : Option SettingsErr

/-- `hashResult`: the error of a hash group; an empty hash is not found. -/
def hashErr (failed : Bool) (val : Hash) : Option SettingsErr :=
  if failed then some .store else if val = [] then some .notFound else none

/-- The error of a list or set group, which is never absent. -/
def listErr (failed : Bool) : Option SettingsErr := if failed then some .store else none

/-- The first pipeline of `GetProfileSettingsBatch`; the server may answer any group with
an error. The second component is the members of the custom-rule set. -/
def readGroups (stored : StoredProfile) (failed : List Group) : Fetched × List String :=
  let g := stored.groups
  ({ settings := { g with customRules := [] }
     privacyErr := hashErr (.privacy ∈ failed) g.privacy
     otherErrs :=
       [hashErr (.logs ∈ failed) g.logs, hashErr (.dnssec ∈ failed) g.dnssec,
         hashErr (.rebindingProtection ∈ failed) g.rebindingProtection,
         hashErr (.advanced ∈ failed) g.advanced, hashErr (.statistics ∈ failed) g.statistics,
         listErr (.blocklists ∈ failed), listErr (.services ∈ failed)]
     customRulesErr := listErr (.customRules ∈ failed) },
    if .customRules ∈ failed then [] else stored.customRules.map (·.1))

/-- `getCustomRules`: the named hashes, without the empty ones. -/
def readRules (stored : StoredProfile) (ruleIDs : List String) : List Hash :=
  (ruleIDs.map fun id => (stored.customRules.lookup id).getD []).filter (· ≠ [])

/-- `StoreError`: the first error that is a failed read. -/
def Fetched.storeError (f : Fetched) : Bool := some .store ∈ f.otherErrs ++ [f.customRulesErr]

end Store

/-- The label of `RecordProfileCacheLookup`. -/
inductive CacheLookup where
  | hit
  | miss
  | stale
  | unavailable
  deriving DecidableEq

/-- The atomic actions of the queries and of a deletion. -/
inductive LoadOp where
  | get (id : String)
  | loadRetryAt
  | probe (retryAt : ℕ)
  /-- The first pipeline of a batch. -/
  | groups (id : String)
  /-- Its second pipeline. -/
  | rules (id : String) (ruleIDs : List String)
  | storeFailed
  | storeRecovered
  | evict (id : String)
  | put (id : String) (settings : ProfileSettings)
  /-- `RecordProfileCacheLookup`. -/
  | lookup (l : CacheLookup)
  /-- The API removes the keys of a profile. -/
  | delete (id : String)

/-- A connection-level failure. -/
inductive ConnErr where
  | failed

abbrev LoadSig : Sig where
  Op := LoadOp
  Res
    | .get _ => Option ProfileSettings × CacheState
    | .loadRetryAt => ℕ
    | .probe _ => Bool
    | .groups _ => Except ConnErr (Fetched × List String)
    | .rules _ _ => Except ConnErr (List Hash)
    | .storeFailed => Bool
    | .storeRecovered => Bool
    | _ => Unit

/-- The cache of the proxy, the store, and the clock. -/
structure LoadState where
  cache : SettingsCache
  store : String → StoredProfile
  now : ℕ

/-- What the environment chooses at an action: how far the clock went on, and how the
store round trip goes. -/
structure LoadChoice where
  tick : ℕ
  connFailed : Bool
  failed : List Group

/-- What an action does, at the time `s.now`. -/
def loadAct (ch : LoadChoice) (s : LoadState) : (o : LoadOp) → LoadSig.Res o × LoadState
  | .get id => ((s.cache.get s.now id).1, { s with cache := (s.cache.get s.now id).2 })
  | .loadRetryAt => (s.cache.retryAt, s)
  | .probe retryAt =>
    ((s.cache.probe s.now retryAt).1, { s with cache := (s.cache.probe s.now retryAt).2 })
  | .groups id =>
    (if ch.connFailed then .error .failed else .ok (readGroups (s.store id) ch.failed), s)
  | .rules id ruleIDs =>
    (if ch.connFailed ∨ .customRules ∈ ch.failed then .error .failed
      else .ok (readRules (s.store id) ruleIDs), s)
  | .storeFailed =>
    ((s.cache.storeFailed s.now).1, { s with cache := (s.cache.storeFailed s.now).2 })
  | .storeRecovered => (s.cache.storeRecovered.1, { s with cache := s.cache.storeRecovered.2 })
  | .evict id => ((), { s with cache := s.cache.evict id })
  | .put id settings => ((), { s with cache := s.cache.put s.now id settings })
  | .lookup _ => ((), s)
  | .delete id => ((), { s with store := Function.update s.store id .gone })

def loadHandler {ι : Type} : Handler LoadSig ι LoadState LoadChoice := fun _ o ch s =>
  some (loadAct ch { s with now := s.now + ch.tick } o)

section Program

abbrev LoadProg := Prog LoadSig

abbrev act (o : LoadOp) : LoadProg (LoadSig.Res o) := Prog.op (S := LoadSig) o

/-- How `loadProfileSettings` ends; the settings are a pointer, `none` being `nil`. -/
inductive Loaded where
  | settings (settings : Option ProfileSettings)
  | servFail
  /-- `errProfileIdNotFound`: the query is dropped. -/
  | notFound

/-- `FetchAllowed`. -/
def fetchAllowed : LoadProg Bool := do
  let retryAt ← act .loadRetryAt
  if retryAt = 0 then return true
  else act (.probe retryAt)

/-- `GetProfileSettingsBatch`. A failure of the second pipeline is the error of the
custom-rule group. -/
def getProfileSettingsBatch (id : String) : LoadProg (Except ConnErr Fetched) := do
  if id = "" then return .error .failed
  else
    match ← act (.groups id) with
    | .error e => return .error e
    | .ok (f, ruleIDs) =>
      if ruleIDs = [] then return .ok f
      else
        match ← act (.rules id ruleIDs) with
        | .error _ => return .ok { f with customRulesErr := some .store }
        | .ok rules => return .ok { f with settings := { f.settings with customRules := rules } }

/-- `settingsUnavailable`: last-known-good settings, or SERVFAIL. -/
def settingsUnavailable (cached : Option ProfileSettings) (state : CacheState) :
    LoadProg Loaded := do
  if state = .stale then
    act (.lookup .stale)
    return .settings cached
  else
    act (.lookup .unavailable)
    return .servFail

/-- What `loadProfileSettings` does with the outcome of a fetch. -/
def useFetched (id : String) (cached : Option ProfileSettings) (state : CacheState) :
    Except ConnErr Fetched → LoadProg Loaded
  | .error _ => do
    let _ ← act .storeFailed
    settingsUnavailable cached state
  | .ok fetched => do
    let _ ← act .storeRecovered
    match fetched.privacyErr with
    | some .notFound =>
      act (.evict id)
      act (.lookup .miss)
      return .notFound
    | some .store => settingsUnavailable cached state
    | none =>
      if fetched.storeError then settingsUnavailable cached state
      else
        act (.put id fetched.settings)
        act (.lookup .miss)
        return .settings (some fetched.settings)

/-- `loadProfileSettings`. -/
def loadProfileSettings (id : String) : LoadProg Loaded := do
  let (cached, state) ← act (.get id)
  if state = .fresh then
    act (.lookup .hit)
    return .settings cached
  else
    let allowed ← fetchAllowed
    if allowed = true then
      let fetched ← getProfileSettingsBatch id
      useFetched id cached state fetched
    else settingsUnavailable cached state

/-- A thread: a query of a profile, or the deletion of one. -/
inductive Job where
  | query (id : String)
  | delete (id : String)

def Job.prog : Job → LoadProg Loaded
  | .query id => loadProfileSettings id
  | .delete id => do
    act (.delete id)
    return .notFound

end Program

end ModDNS.Proxy
