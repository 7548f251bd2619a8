import ModDNS.Caches.Generation
import ModDNS.Conc.Lift
import ModDNS.Profiles.Patch
import ModDNS.QueryLogs.Model

/-!
# A PATCH with its side effects

`UpdateProfile` from the operations as a request has them, whose paths and operations are texts, to
the side effects of a settings change, which run after the stores have been written.

* `applyRawOperations_eq`: the handlers read an operation on a path of `patchFields` as the one on
  that field, and pass over every other one.
* `bare_withTransitions`: but for its side effects, the PATCH is `updateProfile`.
-/

namespace ModDNS.Profiles

open Conc Go Rules

/-- `model.ProfileUpdate`, as it has been decoded. -/
structure RawUpdate (V : Type) where
  operation : String
  path : String
  value : V

def PatchPath.text : PatchPath → String
  | .name => "/name"
  | .statisticsEnabled => "/settings/statistics/enabled"
  | .statisticsRetention => "/settings/statistics/retention"
  | .logsEnabled => "/settings/logs/enabled"
  | .logClientsIPs => "/settings/logs/log_clients_ips"
  | .logDomains => "/settings/logs/log_domains"
  | .logsRetention => "/settings/logs/retention"
  | .defaultRule => "/settings/privacy/default_rule"
  | .blocklistsSubdomainsRule => "/settings/privacy/blocklists_subdomains_rule"
  | .customRulesSubdomainsRule => "/settings/privacy/custom_rules_subdomains_rule"
  | .dnssecEnabled => "/settings/security/dnssec/enabled"
  | .sendDoBit => "/settings/security/dnssec/send_do_bit"
  | .rebindingProtection => "/settings/security/rebinding_protection/enabled"
  | .recursor => "/settings/advanced/recursor"

/-- The keys of `patchFields`. -/
def patchPaths : List PatchPath :=
  [.name, .statisticsEnabled, .statisticsRetention, .logsEnabled, .logClientsIPs, .logDomains,
    .logsRetention, .defaultRule,
    .blocklistsSubdomainsRule, .customRulesSubdomainsRule, .dnssecEnabled, .sendDoBit,
    .rebindingProtection, .recursor]

def PatchPath.ofText (s : String) : Option PatchPath := patchPaths.find? (·.text = s)

def UpdateOperation.ofText : String → Option UpdateOperation
  | "remove" => some .remove
  | "add" => some .add
  | "replace" => some .replace
  | "move" => some .move
  | "copy" => some .copy
  | _ => none

section Handlers

variable {V : Type} (env : ServiceEnv) (casts : Casts V)

/-- What a handler does with an operation: it looks at replacements only. -/
def onReplace (handler : Profile → V → Except ServiceErr Profile) (p : Profile) (u : RawUpdate V) :
    Except ServiceErr Profile :=
  if u.operation = "replace" then handler p (unwrapped casts u.value) else .ok p

def handleQueryLogsSettingsUpdate (p : Profile) (u : RawUpdate V) : Except ServiceErr Profile :=
  if u.path = "/settings/logs/enabled" then onReplace casts (updateQueryLogsEnabled casts) p u
  else if u.path = "/settings/logs/log_clients_ips" then
    onReplace casts (updateQueryLogsLogClientsIPs casts) p u
  else if u.path = "/settings/logs/log_domains" then
    onReplace casts (updateQueryLogsLogDomains casts) p u
  else if u.path = "/settings/logs/retention" then onReplace casts
    (updateQueryLogsRetention casts) p u
  else .ok p

def handleStatisticsSettingsUpdate (p : Profile) (u : RawUpdate V) : Except ServiceErr Profile :=
  if u.path = "/settings/statistics/enabled" then onReplace casts
    (updateStatisticsEnabled casts) p u
  else if u.path = "/settings/statistics/retention" then
    onReplace casts (updateStatisticsRetention casts) p u
  else .ok p

def handleDNSSECSettingsUpdate (p : Profile) (u : RawUpdate V) : Except ServiceErr Profile :=
  if u.path = "/settings/security/dnssec/enabled" then
    onReplace casts (updateDNSSECEnabled casts) p u
  else if u.path = "/settings/security/dnssec/send_do_bit" then
    onReplace casts (updateDNSSECOKBit casts) p u
  else .ok p

def handleRebindingProtectionUpdate (p : Profile) (u : RawUpdate V) : Except ServiceErr Profile :=
  if u.path = "/settings/security/rebinding_protection/enabled" then
    onReplace casts (updateRebindingProtectionEnabled casts) p u
  else .ok p

def handleAdvancedSettingsUpdate (p : Profile) (u : RawUpdate V) : Except ServiceErr Profile :=
  if u.path = "/settings/advanced/recursor" then onReplace casts (updateRecursor casts) p u
  else .ok p

/-- A handler that is asked about the paths with a part. -/
def onPart (part : String) (handler : Profile → RawUpdate V → Except ServiceErr Profile)
    (p : Profile) (u : RawUpdate V) :
    Except ServiceErr Profile :=
  if contains u.path part then handler p u else .ok p

/-- The handlers of the settings, but for those of the privacy. -/
def applySettingsHandlers (p : Profile) (u : RawUpdate V) : Except ServiceErr Profile := do
  let p ← onPart "/settings/logs/" (handleQueryLogsSettingsUpdate casts) p u
  let p ← onPart "/settings/statistics/" (handleStatisticsSettingsUpdate casts) p u
  let p ← onPart "/settings/security/dnssec/" (handleDNSSECSettingsUpdate casts) p u
  let p ← onPart "/settings/security/rebinding_protection/"
    (handleRebindingProtectionUpdate casts) p u
  onPart "/settings/advanced/" (handleAdvancedSettingsUpdate casts) p u

/-- One operation of `applyPatchOperations`. -/
def applyRawOperation (accountId : String) (p : Profile) (u : RawUpdate V) :
    ProfileFlow Profile := do
  let p ← ofExcept (applySettingsHandlers casts p u)
  if u.path = "/name" then
    if u.operation = "replace" then
      handleProfileNameUpdate env casts p accountId (unwrapped casts u.value)
    else return p
  else if u.path = "/settings/privacy/default_rule" then
    ofExcept (onReplace casts (handleDefaultRuleUpdate casts) p u)
  else if u.path = "/settings/privacy/blocklists_subdomains_rule" then
    ofExcept (onReplace casts (handleBlocklistsSubdomainsRuleUpdate casts) p u)
  else if u.path = "/settings/privacy/custom_rules_subdomains_rule" then
    ofExcept (onReplace casts (handleCustomRulesSubdomainsRuleUpdate casts) p u)
  else return p

/-- The paths that have been touched, after one more operation. -/
def touch (touched : List PatchPath) (u : RawUpdate V) : List PatchPath :=
  match PatchPath.ofText u.path with
  | none => touched
  | some path => if u.operation = "replace" ∧ path ∉ touched then touched ++ [path] else touched

def applyRawLoop (accountId : String) :
    List (RawUpdate V) → Profile → List PatchPath → ProfileFlow (Profile × List PatchPath)
  | [], p, touched => pure (p, touched)
  | u :: updates, p, touched => do
    let p ← applyRawOperation env casts accountId p u
    applyRawLoop accountId updates p (touch touched u)

/-- `applyPatchOperations`. -/
def applyRawOperations (accountId : String) (updates : List (RawUpdate V)) (p : Profile) :
    ProfileFlow (Profile × List PatchPath) := applyRawLoop env casts accountId updates p []

/-- The operation on its field; `none`: there is no such field, or no such operation. -/
def RawUpdate.typed (u : RawUpdate V) : Option (ProfileUpdate V) :=
  match UpdateOperation.ofText u.operation, PatchPath.ofText u.path with
  | some operation, some path => some ⟨operation, path, u.value⟩
  | _, _ => none

end Handlers

section Typed

variable {V : Type} {env : ServiceEnv} {casts : Casts V} {accountId : String} {p : Profile}
  {u : RawUpdate V}

theorem ofText_text (path : PatchPath) : PatchPath.ofText path.text = some path := by
  cases path <;> decide

theorem ofText_eq_some {s : String} {path : PatchPath} (h : PatchPath.ofText s = some path) :
    s = path.text := by
  have htext := List.find?_some h
  exact (of_decide_eq_true htext).symm

theorem ne_text {s : String} (h : PatchPath.ofText s = none) (path : PatchPath) :
    s ≠ path.text := by
  rintro rfl
  rw [ofText_text] at h
  cases h

theorem ofText_replace {s : String} {o : UpdateOperation} (h : UpdateOperation.ofText s = some o) :
    o = .replace ↔ s = "replace" := by
  unfold UpdateOperation.ofText at h
  split at h <;> cases h <;> simp_all

theorem ofText_operation {s : String} (h : UpdateOperation.ofText s = none) : s ≠ "replace" := by
  rintro rfl
  cases h

theorem ne_of_contains {part path : String} (h : contains path part = false) (t : String)
    (ht : contains t part = true) :
    path ≠ t := by
  rintro rfl
  rw [ht] at h
  cases h

/-- A handler that would pass over the paths that it is not asked about. -/
theorem onPart_eq {part : String} {handler : Profile → RawUpdate V → Except ServiceErr Profile}
    (h : contains u.path part = false → handler p u = .ok p) :
    onPart part handler p u = handler p u := by
  unfold onPart
  cases hc : contains u.path part with
  | true => exact if_pos rfl
  | false => exact (h hc).symm

theorem onPart_logs : onPart "/settings/logs/" (handleQueryLogsSettingsUpdate casts) p u =
    handleQueryLogsSettingsUpdate casts p u := by
  refine onPart_eq fun h => ?_
  unfold handleQueryLogsSettingsUpdate
  rw [if_neg (ne_of_contains h "/settings/logs/enabled" (by decide)),
    if_neg (ne_of_contains h "/settings/logs/log_clients_ips" (by decide)),
    if_neg (ne_of_contains h "/settings/logs/log_domains" (by decide)),
    if_neg (ne_of_contains h "/settings/logs/retention" (by decide))]

theorem onPart_statistics :
    onPart "/settings/statistics/" (handleStatisticsSettingsUpdate casts) p u =
    handleStatisticsSettingsUpdate casts p u := by
  refine onPart_eq fun h => ?_
  unfold handleStatisticsSettingsUpdate
  rw [if_neg (ne_of_contains h "/settings/statistics/enabled" (by decide)),
    if_neg (ne_of_contains h "/settings/statistics/retention" (by decide))]

theorem onPart_dnssec : onPart "/settings/security/dnssec/" (handleDNSSECSettingsUpdate casts) p u =
    handleDNSSECSettingsUpdate casts p u := by
  refine onPart_eq fun h => ?_
  unfold handleDNSSECSettingsUpdate
  rw [if_neg (ne_of_contains h "/settings/security/dnssec/enabled" (by decide)),
    if_neg (ne_of_contains h "/settings/security/dnssec/send_do_bit" (by decide))]

theorem onPart_rebinding :
    onPart "/settings/security/rebinding_protection/" (handleRebindingProtectionUpdate casts) p u =
    handleRebindingProtectionUpdate casts p u := by
  refine onPart_eq fun h => ?_
  unfold handleRebindingProtectionUpdate
  rw [if_neg (ne_of_contains h "/settings/security/rebinding_protection/enabled" (by decide))]

theorem onPart_advanced : onPart "/settings/advanced/" (handleAdvancedSettingsUpdate casts) p u =
    handleAdvancedSettingsUpdate casts p u := by
  refine onPart_eq fun h => ?_
  unfold handleAdvancedSettingsUpdate
  rw [if_neg (ne_of_contains h "/settings/advanced/recursor" (by decide))]

theorem ok_bind {α β : Type} (a : α) (f : α → Except ServiceErr β) :
    (Except.ok a >>= f) = f a := rfl

theorem bind_ok {α : Type} (x : Except ServiceErr α) : (x >>= fun a => .ok a) = x := by
  cases x <;> rfl

theorem ofExcept_ok (q : Profile) :
    (ofExcept (.ok q : Except ServiceErr Profile) : ProfileFlow Profile) = pure q := rfl

theorem onReplace_other {handler : Profile → V → Except ServiceErr Profile}
    (h : u.operation ≠ "replace") :
    onReplace casts handler p u = .ok p := if_neg h

theorem onReplace_replace {handler : Profile → V → Except ServiceErr Profile}
    (h : u.operation = "replace") :
    onReplace casts handler p u = handler p (unwrapped casts u.value) := if_pos h

/-- What is no replacement changes nothing. -/
theorem applyRawOperation_other (h : u.operation ≠ "replace") :
    applyRawOperation env casts accountId p u = pure p := by
  unfold applyRawOperation applySettingsHandlers
  simp only [onPart_logs, onPart_statistics, onPart_dnssec, onPart_rebinding, onPart_advanced,
    handleQueryLogsSettingsUpdate,
    handleStatisticsSettingsUpdate, handleDNSSECSettingsUpdate, handleRebindingProtectionUpdate,
    handleAdvancedSettingsUpdate,
    onReplace_other h, h, if_false, ite_self, ok_bind, ofExcept_ok, pure_bind]

/-- Neither does an operation on another path. -/
theorem applyRawOperation_unknown (h : PatchPath.ofText u.path = none) :
    applyRawOperation env casts accountId p u = pure p := by
  have hne : ∀ path ∈ patchPaths, u.path ≠ path.text := fun path _ => ne_text h path
  simp only [patchPaths, List.forall_mem_cons, PatchPath.text] at hne
  unfold applyRawOperation applySettingsHandlers
  simp only [onPart_logs, onPart_statistics, onPart_dnssec, onPart_rebinding, onPart_advanced,
    handleQueryLogsSettingsUpdate,
    handleStatisticsSettingsUpdate, handleDNSSECSettingsUpdate, handleRebindingProtectionUpdate,
    handleAdvancedSettingsUpdate,
    hne, if_false, ok_bind, ofExcept_ok, pure_bind]

theorem applyPatchOperation_replace {path : PatchPath} {v : V} (h : path ≠ .name) :
    applyPatchOperation env casts accountId p ⟨.replace, path, v⟩ = ofExcept
      (patchSetting casts p path (unwrapped casts v)) := by
  unfold applyPatchOperation
  rw [if_neg (not_not.2 rfl), if_neg h]
  cases patchSetting casts p path (unwrapped casts v) <;> rfl

/-- A replacement on a path of `patchFields` is one of its field. -/
theorem applyRawOperation_replace {path : PatchPath} (h : u.operation = "replace")
    (hpath : u.path = path.text) :
    applyRawOperation env casts accountId p u = applyPatchOperation env casts accountId p
    ⟨.replace, path, u.value⟩ := by
  unfold applyRawOperation applySettingsHandlers
  simp only [onPart_logs, onPart_statistics, onPart_dnssec, onPart_rebinding, onPart_advanced,
    handleQueryLogsSettingsUpdate,
    handleStatisticsSettingsUpdate, handleDNSSECSettingsUpdate, handleRebindingProtectionUpdate,
    handleAdvancedSettingsUpdate,
    onReplace_replace h, h]
  by_cases hname : path = .name
  · subst hname
    simp [hpath, PatchPath.text, ok_bind, ofExcept_ok, applyPatchOperation]
  · rw [applyPatchOperation_replace hname]
    cases path <;> simp [hpath, PatchPath.text, patchSetting, ok_bind, bind_ok,
      ofExcept_ok] at hname ⊢

theorem typed_eq_none (h : UpdateOperation.ofText u.operation = none ∨
    PatchPath.ofText u.path = none) : u.typed = none := by
  unfold RawUpdate.typed
  rcases h with h | h
  · rw [h]
  · rw [h]
    cases UpdateOperation.ofText u.operation <;> rfl

theorem typed_eq_some {o : UpdateOperation} {path : PatchPath}
    (ho : UpdateOperation.ofText u.operation = some o)
    (hpath : PatchPath.ofText u.path = some path) : u.typed = some ⟨o, path, u.value⟩ := by
  unfold RawUpdate.typed
  rw [ho, hpath]

/-- The operations of a request, by their fields. -/
theorem applyRawOperations_eq {updates : List (RawUpdate V)} :
    applyRawOperations env casts accountId updates p =
      applyPatchOperations env casts accountId (updates.filterMap RawUpdate.typed) p := by
  have hloop : ∀ p touched, applyRawLoop env casts accountId updates p touched =
      applyPatchLoop env casts accountId (updates.filterMap RawUpdate.typed) p touched := by
    induction updates with
    | nil => exact fun p touched => rfl
    | cons u updates ih =>
      intro p touched
      rw [applyRawLoop]
      cases hpath : PatchPath.ofText u.path with
      | none =>
        have htouch : touch touched u = touched := by
          unfold touch
          rw [hpath]
        rw [applyRawOperation_unknown hpath, pure_bind, htouch,
          List.filterMap_cons_none (typed_eq_none (.inr hpath))]
        exact ih p touched
      | some path =>
        have htouch : touch touched u = if u.operation = "replace" ∧ path ∉ touched then
            touched ++ [path] else touched := by
          unfold touch
          rw [hpath]
        cases hop : UpdateOperation.ofText u.operation with
        | none =>
          have hother := ofText_operation hop
          rw [if_neg fun h => hother h.1] at htouch
          rw [applyRawOperation_other hother, pure_bind, htouch,
            List.filterMap_cons_none (typed_eq_none (.inl hop))]
          exact ih p touched
        | some o =>
          rw [List.filterMap_cons_some (typed_eq_some hop hpath), applyPatchLoop]
          by_cases hreplace : u.operation = "replace"
          · obtain rfl := (ofText_replace hop).2 hreplace
            rw [applyRawOperation_replace hreplace (ofText_eq_some hpath), htouch]
            simp only [hreplace, true_and, ih]
          · have ho : o ≠ .replace := fun h => hreplace ((ofText_replace hop).1 h)
            rw [if_neg fun h => hreplace h.1] at htouch
            have hstep : applyPatchOperation env casts accountId p ⟨o, path, u.value⟩ = pure p :=
              if_pos ho
            rw [applyRawOperation_other hreplace, hstep, pure_bind, pure_bind, htouch,
              if_neg fun h => ho h.1]
            exact ih p touched
  exact hloop p []

end Typed

section Transitions

/-- `settingsSnapshot`. -/
structure SettingsSnapshot where
  statistics : StatisticsSettings
  logsEnabled : Bool
  logsRetention : String

def snapshotSettings (s : ProfileSettings) : SettingsSnapshot :=
  ⟨s.statistics, s.logs.enabled, s.logs.retention⟩

/-- The snapshot with the values of the PATCH at the paths that it touched. -/
def SettingsSnapshot.patched (s : SettingsSnapshot) (touched : List PatchPath)
    (patch : ProfileSettings) : SettingsSnapshot where
  statistics :=
    { s.statistics with
      enabled := if .statisticsEnabled ∈ touched then patch.statistics.enabled
        else s.statistics.enabled
      retention := if .statisticsRetention ∈ touched then patch.statistics.retention
        else s.statistics.retention }
  logsEnabled := if .logsEnabled ∈ touched then patch.logs.enabled else s.logsEnabled
  logsRetention := if .logsRetention ∈ touched then patch.logs.retention else s.logsRetention

/-- `StatisticsRetention.Window`, in days. -/
def statisticsWindow : String → ℕ
  | "90d" => 90
  | "1y" => 365
  | _ => 30

/-- The calls of a PATCH: those of the profile service, and those of its side effects. -/
inductive PatchOp where
  | store (o : ProfileOp)
  | deleteProfileStatistics (profileId : String)
  | trimProfileDailyStatistics (profileId retention : String)
  | deleteQueryLogs (profileId : String)
  | trimQueryLogs (profileId retention : String)
  /-- `INCR` of a generation counter. -/
  | incr (key : Caches.GenerationKey)

def PatchOp.Ans : PatchOp → Type
  | .store o => o.Ans
  -- how many documents have been deleted, and whether an error came after them
  | .trimProfileDailyStatistics _ _ => ℕ × Bool
  | _ => Unit

abbrev patchCalls : Calls := ⟨PatchOp, PatchOp.Ans, ServiceErr, fun _ => true⟩

abbrev PatchFlow := Flow patchCalls

/-- A flow of the profile service. -/
def inStores {α : Type} (p : ProfileFlow α) : PatchFlow α :=
  ExceptT.mk (Prog.lift (T := patchCalls.sig) PatchOp.store (fun _ r => r) p.run)

/-- A call whose error is only logged. -/
def bestEffort (o : PatchOp) : PatchFlow Unit := do
  let _ ← attempt (act (C := patchCalls) o)
  return ()

/-- `if c { p }`. -/
def onlyIf (c : Prop) [Decidable c] (p : PatchFlow Unit) : PatchFlow Unit := if c then p
    else return ()

/-- `BumpGeneration`. -/
def bumpGeneration (scope : Caches.Scope) (pid : String) : PatchFlow Unit :=
  bestEffort (.incr ⟨scope, pid⟩)

/-- `PurgeBestEffort`. -/
def purgeBestEffort (pid : String) : PatchFlow Unit := do
  bestEffort (.deleteProfileStatistics pid)
  bumpGeneration .statisticsRead pid

/-- `TrimBestEffort`. -/
def trimBestEffort (pid retention : String) : PatchFlow Unit := do
  let answer ← attempt (act (C := patchCalls) (.trimProfileDailyStatistics pid retention))
  match answer with
  | .ok (deleted, _) => onlyIf (deleted > 0) (bumpGeneration .statisticsRead pid)
  | .error _ => return ()

def purgeQueryLogsBestEffort (pid : String) : PatchFlow Unit := do
  bestEffort (.deleteQueryLogs pid)
  bumpGeneration .logs pid

def trimQueryLogsBestEffort (pid retention : String) : PatchFlow Unit := do
  bestEffort (.trimQueryLogs pid retention)
  bumpGeneration .logs pid

/-- The first part of `applySettingsTransitions`. -/
def applyStatisticsTransitions (pid : String) (before after : StatisticsSettings) :
    PatchFlow Unit := do
  onlyIf (before.enabled ∧ ¬ after.enabled) (purgeBestEffort pid)
  onlyIf (after.enabled ∧ statisticsWindow after.retention ≠ statisticsWindow before.retention)
    (bumpGeneration .statisticsRead pid)
  onlyIf (after.enabled ∧ statisticsWindow after.retention < statisticsWindow before.retention)
    (trimBestEffort pid after.retention)

/-- The `switch` of `applySettingsTransitions`. -/
def applyLogsTransitions (pid : String) (before after : SettingsSnapshot) : PatchFlow Unit :=
  if before.logsEnabled ∧ ¬ after.logsEnabled then purgeQueryLogsBestEffort pid
  else if after.logsEnabled ∧ QueryLogs.window after.logsRetention <
    QueryLogs.window before.logsRetention then
    trimQueryLogsBestEffort pid after.logsRetention
  else if before.logsRetention ≠ after.logsRetention then bumpGeneration .logs pid
  else return ()

def applySettingsTransitions (pid : String) (before after : SettingsSnapshot) : PatchFlow Unit := do
  applyStatisticsTransitions pid before.statistics after.statistics
  applyLogsTransitions pid before after

variable {V : Type} (env : ServiceEnv) (casts : Casts V)

/-- `UpdateProfile`, with the side effects. -/
def updateProfileWithTransitions (newID : ℕ → RuleID) (accountId pid : String)
    (updates : List (RawUpdate V)) :
    PatchFlow Profile := do
  let stored ← inStores (validateProfileIdAffiliation accountId pid)
  let (profile, touched) ← inStores (applyRawOperations env casts accountId updates stored)
  if touched = [] then return profile
  else do
    let now ← inStores (call .now)
    let upd := fieldsUpdate env newID now touched profile
    let before ← inStores (call (.findOneAndUpdate pid upd))
    let after ← inStores (call (.findAfter pid))
    let cacheErr ← attempt (inStores (setProfileSettingsFields pid (redisFields touched profile)))
    let addErr ← attempt
      (inStores (addCustomRules pid (appendedCustomRules after upd.appendCustomRules)))
    let beforeSnap := snapshotSettings before.settings
    applySettingsTransitions pid beforeSnap (beforeSnap.patched touched profile.settings)
    match cacheErr, addErr with
    | .error e, _ => throw e
    | .ok _, .error e => throw e
    | .ok _, .ok _ => return after

end Transitions

section Erased

variable {V α β : Type} {env : ServiceEnv} {casts : Casts V} {newID : ℕ → RuleID}
  {accountId pid : String}

/-- An action of the profile service. -/
def storeAct : patchCalls.sig.Act → Option profileCalls.sig.Act
  | ⟨.store o, r⟩ => some ⟨o, r⟩
  | _ => none

/-- But for its side effects, one flow is the other one. -/
def Bare (p : PatchFlow α) (q : ProfileFlow α) : Prop := Erases storeAct p.run q.run

theorem bare_pure (a : α) : Bare (pure a) (pure a) := erases_pure _

theorem bare_throw (e : ServiceErr) : Bare (throw e : PatchFlow α) (throw e) := erases_pure _

theorem bare_inStores (p : ProfileFlow α) : Bare (inStores p) p := erases_lift fun _ _ => rfl

theorem bare_bind {p : PatchFlow α} {q : ProfileFlow α} {f : α → PatchFlow β}
    {g : α → ProfileFlow β} (hp : Bare p q) (hf : ∀ a, Bare (f a) (g a)) :
    Bare (p >>= f) (q >>= g) := by
  unfold Bare
  rw [run_bind, run_bind]
  refine erases_bind hp fun r => ?_
  cases r with
  | ok a => exact hf a
  | error e => exact erases_pure _

theorem bare_attempt {p : PatchFlow α} {q : ProfileFlow α} (hp : Bare p q) :
    Bare (attempt p) (attempt q) :=
  erases_bind hp fun _ => erases_pure _

theorem ends_inStores {p : ProfileFlow α} {l : List patchCalls.sig.Act} {r : Except ServiceErr α}
    (h : Ends (inStores p).run l r) :
    ∃ l' : List profileCalls.sig.Act, l = l'.map (fun x => ⟨.store x.1, x.2⟩) ∧
    Ends p.run l' r := by
  obtain ⟨xs, rfl, hp⟩ := ends_lift h
  refine ⟨xs.map fun x => ⟨x.1, x.2⟩, ?_, hp⟩
  rw [List.map_map]
  rfl

theorem within_inStores {B : ProfileOp → Prop} {p : ProfileFlow α} (hB : Within B p) :
    Within (C := patchCalls) (fun o => ∃ o', o = .store o' ∧ B o') (inStores p) :=
  within_iff.2 (only_lift (only_mono (fun o ho => ⟨o, rfl, ho⟩) (within_iff.1 hB)))

/-- A side effect. -/
def SideEffect (p : PatchFlow Unit) : Prop :=
  ∀ l r, Ends p.run l r → l.filterMap storeAct = [] ∧ r = .ok ()

theorem bare_sideEffect {p : PatchFlow Unit} {f : Unit → PatchFlow β} {q : ProfileFlow β}
    (hp : SideEffect p) (hf : Bare (f ()) q) :
    Bare (p >>= f) q := by
  unfold Bare
  rw [run_bind]
  exact erases_silent hp hf

theorem sideEffect_pure : SideEffect (pure ()) := by
  intro l r h
  obtain ⟨rfl, rfl⟩ := ends_flow_pure h
  exact ⟨rfl, rfl⟩

theorem sideEffect_bind {p : PatchFlow Unit} {f : Unit → PatchFlow Unit} (hp : SideEffect p)
    (hf : SideEffect (f ())) : SideEffect (p >>= f) := by
  intro l r h
  obtain ⟨e, he, -⟩ | ⟨l₁, l₂, u, rfl, h₁, h₂⟩ := ends_flow_bind h
  · cases (hp l _ he).2
  · obtain ⟨hl₁, -⟩ := hp l₁ _ h₁
    obtain ⟨hl₂, rfl⟩ := hf l₂ r h₂
    rw [List.filterMap_append, hl₁, hl₂]
    exact ⟨rfl, rfl⟩

theorem sideEffect_onlyIf {c : Prop} [Decidable c] {p : PatchFlow Unit} (hp : SideEffect p) :
    SideEffect (onlyIf c p) := by
  unfold onlyIf
  split
  · exact hp
  · exact sideEffect_pure

/-- A call whose answer decides about another side effect. -/
theorem sideEffect_attempt {o : PatchOp} {f : Except ServiceErr o.Ans → PatchFlow Unit}
    (ho : ∀ r, storeAct ⟨o, r⟩ = none) (hf : ∀ r, SideEffect (f r)) :
    SideEffect (attempt (act (C := patchCalls) o) >>= f) := by
  intro l r h
  obtain ⟨l₁, l₂, x, rfl, h₁, h₂⟩ := ends_attempt_bind h
  obtain rfl := ends_act h₁
  obtain ⟨hl₂, rfl⟩ := hf x l₂ r h₂
  rw [List.singleton_append, List.filterMap_cons_none (ho x)]
  exact ⟨hl₂, rfl⟩

theorem sideEffect_bestEffort {o : PatchOp} (ho : ∀ r, storeAct ⟨o, r⟩ = none) :
    SideEffect (bestEffort o) :=
  sideEffect_attempt ho fun _ => sideEffect_pure

theorem sideEffect_bump {scope : Caches.Scope} : SideEffect (bumpGeneration scope pid) :=
  sideEffect_bestEffort fun _ => rfl

theorem sideEffect_trim {retention : String} : SideEffect (trimBestEffort pid retention) := by
  refine sideEffect_attempt (fun _ => rfl) fun r => ?_
  cases r with
  | ok a => exact sideEffect_onlyIf sideEffect_bump
  | error e => exact sideEffect_pure

theorem sideEffect_transitions {before after : SettingsSnapshot} :
    SideEffect (applySettingsTransitions pid before after) := by
  refine sideEffect_bind ?_ ?_
  · refine sideEffect_bind
      (sideEffect_onlyIf (sideEffect_bind (sideEffect_bestEffort fun _ => rfl) sideEffect_bump)) ?_
    exact sideEffect_bind (sideEffect_onlyIf sideEffect_bump) (sideEffect_onlyIf sideEffect_trim)
  · unfold applyLogsTransitions
    split
    · exact sideEffect_bind (sideEffect_bestEffort fun _ => rfl) sideEffect_bump
    · split
      · exact sideEffect_bind (sideEffect_bestEffort fun _ => rfl) sideEffect_bump
      · split
        · exact sideEffect_bump
        · exact sideEffect_pure

/-- **But for its side effects, the PATCH is `updateProfile`** of its operations by their fields. -/
theorem bare_withTransitions {updates : List (RawUpdate V)} :
    Bare (updateProfileWithTransitions env casts newID accountId pid updates)
      (updateProfile env casts newID accountId pid (updates.filterMap RawUpdate.typed)) := by
  unfold updateProfileWithTransitions updateProfile
  refine bare_bind (bare_inStores _) fun stored => ?_
  rw [applyRawOperations_eq]
  refine bare_bind (bare_inStores _) fun ⟨profile, touched⟩ => ?_
  dsimp only
  split
  · exact bare_pure _
  · refine bare_bind (bare_inStores _) fun now => ?_
    refine bare_bind (bare_inStores _) fun before => ?_
    refine bare_bind (bare_inStores _) fun after => ?_
    refine bare_bind (bare_attempt (bare_inStores _)) fun cacheErr => ?_
    refine bare_bind (bare_attempt (bare_inStores _)) fun addErr => ?_
    refine bare_sideEffect sideEffect_transitions ?_
    cases cacheErr with
    | error e => exact bare_throw e
    | ok _ =>
      cases addErr with
      | error e => exact bare_throw e
      | ok _ => exact bare_pure _

end Erased

section Handler

/-- The stores of the profile service, and the generation counters. -/
structure PatchStores where
  stores : Stores
  generations : Caches.GenerationKey → ℕ

/-- What a call does when it is carried out. The statistics and the query logs are none of the
stores. -/
def PatchOp.effect (s : PatchStores) : PatchOp → PatchStores
  | .store o => { s with stores := o.effect s.stores }
  | .incr key => { s with generations := Function.update s.generations key (s.generations key + 1) }
  | _ => s

/-- What the environment chooses: that of a call of the profile service, or what a trim answers. -/
inductive PatchChoice where
  | call (c : Choice)
  | trimmed (deleted : ℕ) (failed : Bool)

def PatchOp.answer (s : PatchStores) (c : PatchChoice) :
    (o : PatchOp) → Option (Except ServiceErr o.Ans)
  | .store o => match c with
    | .call c => o.answer s.stores c
    | .trimmed _ _ => none
  | .trimProfileDailyStatistics _ _ => match c with
    | .trimmed deleted failed => some (.ok (deleted, failed))
    | .call _ => none
  | .deleteProfileStatistics _ | .deleteQueryLogs _ | .trimQueryLogs _ _ | .incr _ => match c with
    | .call c => c.call (.ok ())
    | .trimmed _ _ => none

/-- The stores after one action. -/
def PatchStores.act (s : PatchStores) (x : patchCalls.sig.Act) : PatchStores :=
  if TookEffect x.2 then x.1.effect s else s

def patchHandler {ι : Type} : Handler patchCalls.sig ι PatchStores PatchChoice := fun _ o c s =>
  (o.answer s c).map fun r => (r, s.act ⟨o, r⟩)

end Handler

end ModDNS.Profiles
