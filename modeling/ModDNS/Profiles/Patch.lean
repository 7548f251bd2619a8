import ModDNS.Profiles.Cache
import ModDNS.Rules.Stored

/-!
# Settings patches

`UpdateProfile`: the operations of a PATCH are validated on a copy of the profile, the touched
fields go to Mongo in one update, and then to Redis with the values of the copy.

* `ends_applyPatchOperations`: the copy has at each touched path the last value that the PATCH gives
  it.
* `ends_updateProfile`: the actions of a PATCH that ends without an error.
-/

namespace ModDNS.Profiles

open Conc Go Rules

/-- The configuration of the service, with what it uses of other libraries: the validation tags, the
NFC form of a text, and the classes of characters that no name may have. -/
structure ServiceEnv where
  tags : ValidatorTags
  nfc : String → String
  unicodeIn : Char → Bool
  allowedDomains : List String
  maxProfiles : ℕ

/-- The values of a request, with the conversions of `cast`. -/
structure Casts (V : Type) where
  toBoolE : V → Option Bool
  toStringE : V → Option String
  toStringMapE : V → Option (String → V)

inductive UpdateOperation where
  | remove
  | add
  | replace
  | move
  | copy
  deriving DecidableEq

structure ProfileUpdate (V : Type) where
  operation : UpdateOperation
  path : PatchPath
  value : V

section Names

variable (env : ServiceEnv)

def normalizeName (s : String) : String := env.nfc (trimSpace s)

def isSafeName (s : String) : Bool := trimSpace s ≠ "" && s.toList.all fun c => !env.unicodeIn c

/-- The tags of `Profile.Name`. -/
def validName (s : String) : Bool := s ≠ "" && s.length ≤ maxProfileNameLen && isSafeName env s

def nameTaken (profiles : List Profile) (name : String) : Bool := profiles.any (·.name = name)

end Names

section Operations

variable {V : Type} (env : ServiceEnv) (casts : Casts V)

def recursors : List String := ["sdns", "knot"]

/-- `NewRetention` accepts. -/
def retentions : List String := ["1h", "6h", "1d", "1w", "1m"]

def statisticsRetentions : List String := ["30d", "90d", "1y"]

/-- The tags of `Privacy`. -/
def Privacy.valid (p : Privacy) : Bool :=
  p.defaultRule ∈ [defaultRuleBlock, defaultRuleAllow] && p.blocklistsSubdomainsRule ∈
    [defaultRuleBlock, defaultRuleAllow] &&
    p.customRulesSubdomainsRule ∈ ["", customRulesSubdomainsInclude, customRulesSubdomainsExact]

/-- `Unwrapped`. -/
def unwrapped (v : V) : V :=
  match casts.toStringMapE v with
  | some m => m "value"
  | none => v

/-- Replaces a switch. -/
def replaceBool (path : PatchPath) (p : Profile) (v : V) : Except ServiceErr Profile :=
  match casts.toBoolE v with
  | none => .error .cast
  | some b => .ok (p.set path (.bool b))

/-- Replaces a text: the profile has to be `valid` with it. -/
def replaceText (path : PatchPath) (castErr : ServiceErr) (valid : Profile → Bool)
    (invalid : ServiceErr) (p : Profile) (v : V) : Except ServiceErr Profile :=
  match casts.toStringE v with
  | none => .error castErr
  | some s => if valid (p.set path (.text s)) then .ok (p.set path (.text s)) else .error invalid

def updateStatisticsEnabled := replaceBool casts .statisticsEnabled

def updateStatisticsRetention :=
  replaceText casts .statisticsRetention .statisticsRetentionInvalid
    (·.settings.statistics.retention ∈ statisticsRetentions)
    .statisticsRetentionInvalid

def updateQueryLogsEnabled := replaceBool casts .logsEnabled

def updateQueryLogsLogClientsIPs := replaceBool casts .logClientsIPs

def updateQueryLogsLogDomains := replaceBool casts .logDomains

def updateQueryLogsRetention :=
  replaceText casts .logsRetention .cast (·.settings.logs.retention ∈ retentions) .invalidRetention

def handleDefaultRuleUpdate :=
  replaceText casts .defaultRule .cast (·.settings.privacy.valid) .defaultRuleInvalid

def handleBlocklistsSubdomainsRuleUpdate :=
  replaceText casts .blocklistsSubdomainsRule .cast
    (·.settings.privacy.valid) .blocklistsSubdomainsInvalid

def handleCustomRulesSubdomainsRuleUpdate :=
  replaceText casts .customRulesSubdomainsRule .cast
    (·.settings.privacy.valid) .customRulesSubdomainsInvalid

def updateDNSSECEnabled := replaceBool casts .dnssecEnabled

def updateDNSSECOKBit := replaceBool casts .sendDoBit

def updateRebindingProtectionEnabled := replaceBool casts .rebindingProtection

def updateRecursor :=
  replaceText casts .recursor .cast (·.settings.recursor ∈ recursors) .recursorInvalid

def handleProfileNameUpdate (p : Profile) (accountId : String) (v : V) : ProfileFlow Profile :=
  match casts.toStringE v with
  | none => throw ServiceErr.cast
  | some s => do
    ensure (normalizeName env s ≠ "") ServiceErr.profileNameCannotBeEmpty
    ensure (validName env (normalizeName env s)) ServiceErr.profileNameInvalid
    let profiles : List Profile ← call (.getProfilesByAccountId accountId)
    ensure (nameTaken profiles (normalizeName env s) = false) ServiceErr.profileNameAlreadyExists
    return p.set .name (.text (normalizeName env s))

/-- The handlers of the settings; the one of the name also reads the other profiles. -/
def patchSetting (p : Profile) (path : PatchPath) (v : V) : Except ServiceErr Profile :=
  match path with
  | .name => .ok p
  | .statisticsEnabled => updateStatisticsEnabled casts p v
  | .statisticsRetention => updateStatisticsRetention casts p v
  | .logsEnabled => updateQueryLogsEnabled casts p v
  | .logClientsIPs => updateQueryLogsLogClientsIPs casts p v
  | .logDomains => updateQueryLogsLogDomains casts p v
  | .logsRetention => updateQueryLogsRetention casts p v
  | .defaultRule => handleDefaultRuleUpdate casts p v
  | .blocklistsSubdomainsRule => handleBlocklistsSubdomainsRuleUpdate casts p v
  | .customRulesSubdomainsRule => handleCustomRulesSubdomainsRuleUpdate casts p v
  | .dnssecEnabled => updateDNSSECEnabled casts p v
  | .sendDoBit => updateDNSSECOKBit casts p v
  | .rebindingProtection => updateRebindingProtectionEnabled casts p v
  | .recursor => updateRecursor casts p v

/-- One operation: the handlers look at replacements only. -/
def applyPatchOperation (accountId : String) (p : Profile) (u : ProfileUpdate V) :
    ProfileFlow Profile :=
  if u.operation ≠ .replace then pure p
  else if u.path = .name then handleProfileNameUpdate env casts p accountId
    (unwrapped casts u.value)
  else match patchSetting casts p u.path (unwrapped casts u.value) with
    | .error e => throw e
    | .ok p => pure p

/-- The loop of `applyPatchOperations`. -/
def applyPatchLoop (accountId : String) : List (ProfileUpdate V) → Profile → List PatchPath →
    ProfileFlow (Profile × List PatchPath)
  | [], p, touched => pure (p, touched)
  | u :: updates, p, touched => do
    let p ← applyPatchOperation env casts accountId p u
    applyPatchLoop accountId updates p
      (if u.operation = .replace ∧ u.path ∉ touched then touched ++ [u.path] else touched)

def applyPatchOperations (accountId : String) (updates : List (ProfileUpdate V)) (p : Profile) :
    ProfileFlow (Profile × List PatchPath) := applyPatchLoop env casts accountId updates p []

/-- `validateProfileIdAffiliation`. -/
def validateProfileIdAffiliation (accountId pid : String) : ProfileFlow Profile := do
  let profile ← call (.getProfileById pid)
  ensure (profile.accountId = accountId) ServiceErr.profileNotFound
  return profile

/-- The allow rules that come with a blocking default rule: the domains of the service stay
reachable. -/
def allowedDomainRules (newID : ℕ → RuleID) : List CustomRule :=
  env.allowedDomains.zipIdx.map fun (domain, k) =>
    { id := newID k, action := .allow, value := domain, ruleSyntax := .unset }

/-- The update of the touched fields of `profile`. -/
def fieldsUpdate (newID : ℕ → RuleID) (now : ℕ) (touched : List PatchPath) (profile : Profile) :
    ProfileFieldsUpdate where
  set := touched.map fun path => (path, profile.value path)
  now := now
  appendCustomRules :=
    if .defaultRule ∈ touched ∧ profile.settings.privacy.defaultRule = defaultRuleBlock then
      allowedDomainRules env newID
    else []

/-- What the update does to the value of a path. -/
theorem value_fieldsUpdate {newID : ℕ → RuleID} {now : ℕ} {touched : List PatchPath}
    (h : touched.Nodup) (copy p : Profile) (path : PatchPath) :
    (updateFields p (fieldsUpdate env newID now touched copy)).value path =
      if path ∈ touched then copy.value path else p.value path := by
  have hkeys : (fieldsUpdate env newID now touched copy).set.map Prod.fst = touched := by
    simp [fieldsUpdate, Function.comp_def]
  split
  · next hpath =>
    refine value_updateFields p ?_ (typed_value copy path) (List.mem_map.2 ⟨path, hpath, rfl⟩)
    rwa [hkeys]
  · next hpath => exact value_updateFields_ne p (by rwa [hkeys])

def redisFields (touched : List PatchPath) (profile : Profile) : List SettingsField :=
  touched.filterMap fun path => (patchFields path).hash.map fun (hash, field) =>
    ⟨hash, field, profile.value path⟩

/-- `appendedCustomRules`. -/
def appendedCustomRules (after : Profile) (candidates : List CustomRule) : List CustomRule :=
  if candidates = [] then [] else after.settings.customRules.filter (·.id ∈ candidates.map (·.id))

/-- `UpdateProfile`; `newID` gives the ids of its own rules. -/
def updateProfile (newID : ℕ → RuleID) (accountId pid : String) (updates : List (ProfileUpdate V)) :
    ProfileFlow Profile := do
  let stored ← validateProfileIdAffiliation accountId pid
  let (profile, touched) ← applyPatchOperations env casts accountId updates stored
  if touched = [] then return profile
  else do
    let now ← call .now
    let upd := fieldsUpdate env newID now touched profile
    let _ ← call (.findOneAndUpdate pid upd)
    let after ← call (.findAfter pid)
    let cacheErr ← attempt (setProfileSettingsFields pid (redisFields touched profile))
    let addErr ← attempt (addCustomRules pid (appendedCustomRules after upd.appendCustomRules))
    match cacheErr, addErr with
    | .error e, _ => throw e
    | .ok _, .error e => throw e
    | .ok _, .ok _ => return after

end Operations

section Ends

variable {V : Type} (env : ServiceEnv) (casts : Casts V)

/-- The PATCH replaces the value at a path. -/
def Touches (updates : List (ProfileUpdate V)) (path : PatchPath) : Prop :=
  ∃ u ∈ updates, u.operation = .replace ∧ u.path = path

/-- The value that an operation gives its path. -/
def ProfileUpdate.assigns (u : ProfileUpdate V) : Option FieldValue :=
  match u.path with
  | .name => (casts.toStringE (unwrapped casts u.value)).map fun s => .text (normalizeName env s)
  | .statisticsRetention | .logsRetention | .defaultRule | .blocklistsSubdomainsRule
  | .customRulesSubdomainsRule | .recursor => (casts.toStringE (unwrapped casts u.value)).map .text
  | _ => (casts.toBoolE (unwrapped casts u.value)).map .bool

/-- The last value that the PATCH gives a path. -/
def assigned : List (ProfileUpdate V) → PatchPath → Option FieldValue
  | [], _ => none
  | u :: updates, path =>
    (assigned updates path).or (if u.operation = .replace ∧ u.path = path then
      u.assigns env casts else none)

/-- A path that has been given a value has been touched. -/
theorem touches_of_assigned {env : ServiceEnv} {casts : Casts V} {updates : List (ProfileUpdate V)}
    {path : PatchPath} {v : FieldValue} (h : assigned env casts updates path = some v) :
    Touches updates path := by
  induction updates with
  | nil => cases h
  | cons u updates ih =>
    rcases Option.or_eq_some_iff.1 h with h | ⟨-, h⟩
    · obtain ⟨u', hu', hpath⟩ := ih h
      exact ⟨u', List.mem_cons_of_mem _ hu', hpath⟩
    · rw [Option.ite_none_right_eq_some] at h
      exact ⟨u, List.mem_cons_self .., h.1⟩

/-- The calls that a PATCH makes before it writes. -/
def IsRead : ProfileOp → Prop
  | .now => True
  | .getProfileById _ => True
  | .getProfilesByAccountId _ => True
  | _ => False

theorem effect_read {o : ProfileOp} (h : IsRead o) (s : Stores) : o.effect s = s := by
  cases o <;> first | rfl | exact h.elim

variable {env casts} {l : List profileCalls.sig.Act} {accountId : String} {p q : Profile}

theorem replaceBool_ok {path : PatchPath} {v : V} (h : replaceBool casts path p v = .ok q) :
    ∃ b, casts.toBoolE v = some b ∧ q = p.set path (.bool b) := by
  unfold replaceBool at h
  cases hv : casts.toBoolE v with
  | none => simp [hv] at h
  | some b =>
    simp only [hv, Except.ok.injEq] at h
    exact ⟨b, rfl, h.symm⟩

theorem replaceText_ok {path : PatchPath} {e e' : ServiceErr} {valid : Profile → Bool} {v : V}
    (h : replaceText casts path e valid e' p v = .ok q) :
    ∃ s, casts.toStringE v = some s ∧ q = p.set path (.text s) ∧ valid q = true := by
  unfold replaceText at h
  cases hv : casts.toStringE v with
  | none => simp [hv] at h
  | some s =>
    simp only [hv] at h
    split at h
    · obtain rfl := Except.ok.inj h
      exact ⟨s, rfl, rfl, ‹_›⟩
    · cases h

/-- A handler that accepts a value writes it. -/
theorem patchSetting_ok {u : ProfileUpdate V} (hname : u.path ≠ .name)
    (h : patchSetting casts p u.path (unwrapped casts u.value) = .ok q) :
    ∃ v, u.assigns env casts = some v ∧ u.path.Typed v ∧ q = p.set u.path v := by
  obtain ⟨operation, path, value⟩ := u
  have hbool : ∀ path', replaceBool casts path' p (unwrapped casts value) = .ok q →
    (∀ b, path'.Typed (.bool b)) →
      ∃ v, (casts.toBoolE (unwrapped casts value)).map .bool = some v ∧ path'.Typed v ∧
        q = p.set path' v := by
    intro path' h htyped
    obtain ⟨b, hb, rfl⟩ := replaceBool_ok h
    exact ⟨.bool b, by rw [hb]; rfl, htyped b, rfl⟩
  have htext : ∀ path' e valid e', replaceText casts path' e valid e' p
    (unwrapped casts value) = .ok q →
      (∀ s, path'.Typed (.text s)) →
      ∃ v, (casts.toStringE (unwrapped casts value)).map .text = some v ∧ path'.Typed v ∧
      q = p.set path' v := by
    intro path' e valid e' h htyped
    obtain ⟨s, hs, rfl, -⟩ := replaceText_ok h
    exact ⟨.text s, by rw [hs]; rfl, htyped s, rfl⟩
  -- one handler a path, each of them one of the two kinds
  cases path with
  | name => exact absurd rfl hname
  | statisticsEnabled => exact hbool _ h fun _ _ => rfl
  | logsEnabled => exact hbool _ h fun _ _ => rfl
  | logClientsIPs => exact hbool _ h fun _ _ => rfl
  | logDomains => exact hbool _ h fun _ _ => rfl
  | dnssecEnabled => exact hbool _ h fun _ _ => rfl
  | sendDoBit => exact hbool _ h fun _ _ => rfl
  | rebindingProtection => exact hbool _ h fun _ _ => rfl
  | statisticsRetention =>
    simp only [patchSetting, updateStatisticsRetention] at h
    exact htext _ _ _ _ h fun _ _ => rfl
  | logsRetention =>
    simp only [patchSetting, updateQueryLogsRetention] at h
    exact htext _ _ _ _ h fun _ _ => rfl
  | defaultRule =>
    simp only [patchSetting, handleDefaultRuleUpdate] at h
    exact htext _ _ _ _ h fun _ _ => rfl
  | blocklistsSubdomainsRule =>
    simp only [patchSetting, handleBlocklistsSubdomainsRuleUpdate] at h
    exact htext _ _ _ _ h fun _ _ => rfl
  | customRulesSubdomainsRule =>
    simp only [patchSetting, handleCustomRulesSubdomainsRuleUpdate] at h
    exact htext _ _ _ _ h fun _ _ => rfl
  | recursor =>
    simp only [patchSetting, updateRecursor] at h
    exact htext _ _ _ _ h fun _ _ => rfl

/-- A name that has been accepted is a good one, and that of no profile of the account. -/
theorem ends_handleProfileNameUpdate {v : V}
    (h : Ends (handleProfileNameUpdate env casts p accountId v).run l (.ok q)) :
    ∃ s profiles, casts.toStringE v = some s ∧
    l = [⟨.getProfilesByAccountId accountId, .ok profiles⟩] ∧
      q = p.set .name (.text (normalizeName env s)) ∧ normalizeName env s ≠ "" ∧
        validName env (normalizeName env s) = true ∧
      nameTaken profiles (normalizeName env s) = false := by
  unfold handleProfileNameUpdate at h
  cases hs : casts.toStringE v with
  | none =>
    simp only [hs] at h
    cases (ends_throw h).2
  | some s =>
    simp only [hs] at h
    obtain ⟨-, -, h⟩ | ⟨hne, h⟩ := ends_ensure_bind h
    · cases h
    obtain ⟨-, -, h⟩ | ⟨hvalid, h⟩ := ends_ensure_bind h
    · cases h
    obtain ⟨profiles, l', rfl, hnext⟩ := ends_act_bind_ok h
    obtain ⟨-, -, h⟩ | ⟨hfree, hend⟩ := ends_ensure_bind hnext
    · cases h
    obtain ⟨rfl, heq⟩ := ends_flow_pure hend
    exact ⟨s, profiles, rfl, rfl, Except.ok.inj heq, hne, hvalid, hfree⟩

/-- What one operation of a PATCH does to the copy. -/
theorem ends_applyPatchOperation {u : ProfileUpdate V}
    (h : Ends (applyPatchOperation env casts accountId p u).run l (.ok q)) :
    (∀ x ∈ l, IsRead x.1) ∧
      if u.operation = .replace then ∃ v, u.assigns env casts = some v ∧ u.path.Typed v ∧
        q = p.set u.path v
      else q = p := by
  unfold applyPatchOperation at h
  split at h
  · next hop =>
    obtain ⟨rfl, heq⟩ := ends_flow_pure h
    rw [if_neg hop]
    exact ⟨List.forall_mem_nil _, Except.ok.inj heq⟩
  · next hop =>
    rw [if_pos (not_not.1 hop)]
    split at h
    · next hname =>
      obtain ⟨s, profiles, hs, rfl, rfl, -, -, -⟩ := ends_handleProfileNameUpdate h
      refine ⟨List.forall_mem_singleton.2 trivial, .text (normalizeName env s), ?_, ?_, ?_⟩
      · simp only [ProfileUpdate.assigns, hname, hs, Option.map_some]
      · rw [hname]
        exact fun _ => rfl
      · rw [hname]
    · next hname =>
      cases hset : patchSetting casts p u.path (unwrapped casts u.value) with
      | error e =>
        simp only [hset] at h
        cases (ends_throw h).2
      | ok q' =>
        simp only [hset] at h
        obtain ⟨rfl, heq⟩ := ends_flow_pure h
        cases heq
        exact ⟨List.forall_mem_nil _, patchSetting_ok hname hset⟩

/-- The copy of a PATCH, and the paths that it touched. -/
structure Patched (env : ServiceEnv) (casts : Casts V) (updates : List (ProfileUpdate V))
    (p q : Profile) (touched touched' : List PatchPath) : Prop where
  same : SameElse p q
  nodup : touched.Nodup → touched'.Nodup
  mem : ∀ path, path ∈ touched' ↔ path ∈ touched ∨ Touches updates path
  value : ∀ path, Touches updates path → assigned env casts updates path = some (q.value path)
  kept : ∀ path, ¬ Touches updates path → assigned env casts updates path = none ∧
    q.value path = p.value path

theorem touches_cons {u : ProfileUpdate V} {updates : List (ProfileUpdate V)} {path : PatchPath} :
    Touches (u :: updates) path ↔ (u.operation = .replace ∧ u.path = path) ∨
      Touches updates path := by
  simp [Touches]

theorem ends_applyPatchLoop {updates : List (ProfileUpdate V)} {touched touched' : List PatchPath}
    (h : Ends (applyPatchLoop env casts accountId updates p touched).run l (.ok (q, touched'))) :
    (∀ x ∈ l, IsRead x.1) ∧ Patched env casts updates p q touched touched' := by
  induction updates generalizing p touched l with
  | nil =>
    obtain ⟨rfl, heq⟩ := ends_flow_pure h
    cases heq
    refine ⟨List.forall_mem_nil _, ⟨rfl, rfl, rfl, rfl, rfl, rfl⟩, id, ?_, ?_, ?_⟩
    · simp [Touches]
    · simp [Touches]
    · exact fun _ _ => ⟨rfl, rfl⟩
  | cons u updates ih =>
    obtain ⟨e, -, h⟩ | ⟨l₁, l₂, p', rfl, h₁, h₂⟩ := ends_flow_bind h
    · cases h
    obtain ⟨hreads₁, hstep⟩ := ends_applyPatchOperation h₁
    obtain ⟨hreads₂, hrest⟩ := ih h₂
    refine ⟨fun x hx => (List.mem_append.1 hx).elim (hreads₁ x) (hreads₂ x), ?_⟩
    by_cases hop : u.operation = .replace
    -- a replace sets its path, and counts it as touched once
    · rw [if_pos hop] at hstep
      obtain ⟨v, hv, htyped, rfl⟩ := hstep
      refine ⟨(sameElse_set p u.path v).trans hrest.same, fun hnodup => hrest.nodup ?_,
        fun path => ?_, fun path hpath => ?_,
        fun path hpath => ?_⟩
      · split
        · next hc => exact List.nodup_append.2 ⟨hnodup, List.nodup_singleton _, by
            rintro a ha b hb rfl
            exact hc.2 (List.mem_singleton.1 hb ▸ ha)⟩
        · exact hnodup
      · rw [hrest.mem, touches_cons]
        split
        · simp [hop, eq_comm, or_assoc]
        · next hc =>
          have hmem : u.path ∈ touched := by
            by_contra hmem
            exact hc ⟨hop, hmem⟩
          constructor
          · exact fun h => h.imp_right .inr
          · rintro (h | ⟨-, rfl⟩ | h)
            · exact .inl h
            · exact .inl hmem
            · exact .inr h
      · rw [assigned]
        -- the last update of a path decides its value
        by_cases hlater : Touches updates path
        · rw [hrest.value path hlater]
          rfl
        · obtain ⟨hnone, hkept⟩ := hrest.kept path hlater
          obtain ⟨-, rfl⟩ := (touches_cons.1 hpath).resolve_right hlater
          rw [hnone, hkept, if_pos ⟨hop, rfl⟩, hv, htyped]
          rfl
      · rw [touches_cons, not_or] at hpath
        obtain ⟨hnone, hkept⟩ := hrest.kept path hpath.2
        rw [assigned, hnone, if_neg hpath.1, hkept]
        exact ⟨rfl, value_set_ne p v fun h => hpath.1 ⟨hop, h.symm⟩⟩
    -- any other operation is passed over
    · rw [if_neg hop] at hstep
      subst hstep
      have htouches : ∀ path, Touches (u :: updates) path ↔ Touches updates path := by
        intro path
        rw [touches_cons]
        exact or_iff_right fun h => hop h.1
      have hassigned : ∀ path, assigned env casts (u :: updates) path =
          assigned env casts updates path := by
        intro path
        rw [assigned, if_neg fun h => hop h.1, Option.or_none]
      rw [if_neg fun h => hop h.1] at hrest
      refine ⟨hrest.same, hrest.nodup, ?_, ?_, ?_⟩
      · intro path
        rw [htouches, hrest.mem]
      · intro path hpath
        rw [hassigned, hrest.value path ((htouches path).1 hpath)]
      · intro path hpath
        rw [hassigned]
        exact hrest.kept path fun h => hpath ((htouches path).2 h)

theorem ends_applyPatchOperations {updates : List (ProfileUpdate V)} {touched : List PatchPath}
    (h : Ends (applyPatchOperations env casts accountId updates p).run l (.ok (q, touched))) :
    (∀ x ∈ l, IsRead x.1) ∧ Patched env casts updates p q [] touched := ends_applyPatchLoop h

/-- On the way to its copy a PATCH lists the profiles of the account, if anything. -/
theorem within_applyPatchOperations {A : ProfileOp → Prop} {updates : List (ProfileUpdate V)}
    (hA : A (.getProfilesByAccountId accountId)) :
    Within A (applyPatchOperations env casts accountId updates p) := by
  have hstep : ∀ p (u : ProfileUpdate V), Within A
      (applyPatchOperation env casts accountId p u) := by
    intro p u
    refine within_ite within_pure (within_ite ?_ ?_)
    · unfold handleProfileNameUpdate
      cases casts.toStringE (unwrapped casts u.value) with
      | none => exact within_throw
      | some name =>
        refine within_bind within_ensure fun _ => ?_
        refine within_bind within_ensure fun _ => ?_
        refine within_bind (within_act hA) fun profiles => ?_
        exact within_bind within_ensure fun _ => within_pure
    · cases patchSetting casts p u.path (unwrapped casts u.value) with
      | error e => exact within_throw
      | ok q => exact within_pure
  have hloop : ∀ p touched, Within A (applyPatchLoop env casts accountId updates p touched) := by
    induction updates with
    | nil => exact fun p touched => within_pure
    | cons u updates ih => exact fun p touched => within_bind (hstep p u) fun q => ih q _
  exact hloop p []

/-- The commands of a PATCH: its fields, then the rules that it has added. -/
def patchCmds (touched : List PatchPath) (profile after : Profile) (upd : ProfileFieldsUpdate) :
    List RedisCmd :=
  (redisFields touched profile).map (fun f => .hset f.hash [(f.field, f.value)]) ++
    queueCustomRules (appendedCustomRules after upd.appendCustomRules)

/-- The actions of a PATCH that ends without an error and touches a path. -/
structure PatchTrace (env : ServiceEnv) (casts : Casts V) (newID : ℕ → RuleID) (pid : String)
    (updates : List (ProfileUpdate V)) (l : List profileCalls.sig.Act) where
  reads : List profileCalls.sig.Act
  stored : Profile
  profile : Profile
  touched : List PatchPath
  now : ℕ
  before : Profile
  after : Profile
  isRead : ∀ x ∈ reads, IsRead x.1
  patched : Patched env casts updates stored profile [] touched
  eq : l = reads ++
    (⟨.findOneAndUpdate pid (fieldsUpdate env newID now touched profile), .ok before⟩ ::
    ⟨.findAfter pid, .ok after⟩ ::
    (patchCmds touched profile after (fieldsUpdate env newID now touched profile)).map
      fun cmd => ⟨.redis pid cmd, .ok ()⟩)

theorem ends_validate {pid : String}
    (h : Ends (validateProfileIdAffiliation accountId pid).run l (.ok p)) :
    l = [⟨.getProfileById pid, .ok p⟩] ∧ p.accountId = accountId := by
  obtain ⟨e, -, h⟩ | ⟨p', l', rfl, hnext⟩ := ends_act_bind h
  · cases h
  obtain ⟨-, -, h⟩ | ⟨hacc, hend⟩ := ends_ensure_bind hnext
  · cases h
  obtain ⟨rfl, heq⟩ := ends_flow_pure hend
  cases heq
  exact ⟨rfl, hacc⟩

/-- How a PATCH goes that ends without an error: what it has read, and what it writes. -/
theorem ends_updateProfile_ok {newID : ℕ → RuleID} {pid : String} {updates : List (ProfileUpdate V)}
    (h : Ends (updateProfile env casts newID accountId pid updates).run l (.ok q)) :
    ∃ stored reads copy touched, stored.accountId = accountId ∧
      Ends (applyPatchOperations env casts accountId updates stored).run reads
        (.ok (copy, touched)) ∧
      ((touched = [] ∧ q = copy ∧ l = ⟨.getProfileById pid, .ok stored⟩ :: reads) ∨
        ∃ now before, l = ⟨.getProfileById pid, .ok stored⟩ :: reads ++ ⟨.now, .ok now⟩ ::
          ⟨.findOneAndUpdate pid (fieldsUpdate env newID now touched copy), .ok before⟩ ::
            ⟨.findAfter pid, .ok q⟩ ::
          (patchCmds touched copy q (fieldsUpdate env newID now touched copy)).map fun cmd =>
          ⟨.redis pid cmd, .ok ()⟩) := by
  obtain ⟨l₁, l₂, stored, rfl, h₁, hpatch⟩ := ends_flow_bind_ok h
  obtain ⟨rfl, hacc⟩ := ends_validate h₁
  obtain ⟨l₂, l₃, ⟨copy, touched⟩, rfl, h₂, hwrite⟩ := ends_flow_bind_ok hpatch
  refine ⟨stored, l₂, copy, touched, hacc, h₂, ?_⟩
  simp only at hwrite
  split at hwrite
  · next htouched =>
    obtain ⟨rfl, hq⟩ := ends_flow_pure hwrite
    exact .inl ⟨htouched, Except.ok.inj hq, by simp⟩
  · obtain ⟨now, l₄, rfl, hupd⟩ := ends_act_bind_ok hwrite
    obtain ⟨before, l₅, rfl, hfind⟩ := ends_act_bind_ok hupd
    obtain ⟨after, l₆, rfl, hcache⟩ := ends_act_bind_ok hfind
    obtain ⟨l₇, l₈, cacheErr, rfl, hfields, hrules⟩ := ends_attempt_bind hcache
    obtain ⟨l₉, l₁₀, addErr, rfl, hadd, hend⟩ := ends_attempt_bind hrules
    cases cacheErr with
    | error e => cases (ends_throw hend).2
    | ok u =>
      cases addErr with
      | error e => cases (ends_throw hend).2
      | ok u' =>
        obtain ⟨rfl, hq⟩ := ends_flow_pure hend
        cases hq
        rw [ends_pipeline_ok hfields, ends_pipeline_ok hadd]
        exact .inr ⟨now, before, by simp [patchCmds]⟩

theorem ends_updateProfile {newID : ℕ → RuleID} {pid : String} {updates : List (ProfileUpdate V)}
    (h : Ends (updateProfile env casts newID accountId pid updates).run l (.ok q)) :
    ((∀ x ∈ l, IsRead x.1) ∧ ∀ path, ¬ Touches updates path) ∨
    Nonempty (PatchTrace env casts newID pid updates l) := by
  obtain ⟨stored, reads, copy, touched, -, happly, hends⟩ := ends_updateProfile_ok h
  obtain ⟨hreads, hpatched⟩ := ends_applyPatchOperations happly
  have hreads' : ∀ x ∈ (⟨.getProfileById pid, .ok stored⟩ : profileCalls.sig.Act) ::
    reads, IsRead x.1 :=
    List.forall_mem_cons.2 ⟨trivial, hreads⟩
  obtain ⟨rfl, -, rfl⟩ | ⟨now, before, rfl⟩ := hends
  · exact .inl ⟨hreads', fun path hpath => nomatch (hpatched.mem path).2 (.inr hpath)⟩
  · refine .inr
      ⟨⟨⟨.getProfileById pid, .ok stored⟩ :: reads ++ [⟨.now, .ok now⟩], stored, copy, touched, now,
        before, q, ?_,
      hpatched, by simp⟩⟩
    intro x hx
    rcases List.mem_append.1 hx with hx | hx
    · exact hreads' x hx
    · rw [List.mem_singleton.1 hx]
      trivial

end Ends

section Examples

def exampleEnv : ServiceEnv where
  tags := exampleTags
  nfc s := s
  unicodeIn _ := false
  allowedDomains := ["login.example.com"]
  maxProfiles := 100

/-- The values of a request that are texts. -/
def textCasts : Casts String := ⟨fun _ => none, some, fun _ => none⟩

def oneProfile : Profile := ⟨"p", "a", "home", { newSettings with profileId := "p" }⟩

/-- One profile, as it has been created. -/
def oneStores : Stores where
  profiles := [oneProfile]
  redis _ := (settingsCmds oneProfile.settings []).foldl (fun c cmd => cmd.run c) .absent

end Examples

end ModDNS.Profiles
