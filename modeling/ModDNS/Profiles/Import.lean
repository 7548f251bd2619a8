import ModDNS.Profiles.Operations

/-!
# Imports

`Import` creates a profile from each profile of an export envelope, after the account has
reauthenticated. The first error ends it, and the profiles that it has created are deleted again.
-/

namespace ModDNS.Profiles

open Conc Go Rules

structure ExportedPrivacy where
  blocklists : List String := []
  services : List String := []
  defaultRule : String := ""
  blocklistsSubdomainsRule : String := ""
  customRulesSubdomainsRule : String := ""
  deriving DecidableEq

structure ExportedSecurity where
  dnssec : Option DNSSECSettings := none
  rebindingProtection : Option Bool := none
  deriving DecidableEq

structure ExportedCustomRule where
  action : String
  value : String
  note : String := ""
  group : String := ""
  deriving DecidableEq

structure ExportedSettings where
  privacy : Option ExportedPrivacy := none
  security : Option ExportedSecurity := none
  customRules : List ExportedCustomRule := []
  customRuleGroups : Option CustomRuleGroups := none
  logs : Option LogsSettings := none
  /-- `ExportedStatistics`: its switch. -/
  statistics : Option Bool := none
  deriving DecidableEq

structure ExportedProfile where
  name : String
  settings : Option ExportedSettings := none
  deriving DecidableEq

/-- Instants are in nanoseconds. -/
structure ExportEnvelope where
  schemaVersion : ℤ
  kind : String
  exportedAt : ℕ
  profiles : List ExportedProfile
  deriving DecidableEq

def importModeCreateNew : String := "create_new"
def exportKind : String := "moddns-export"
def maxCustomRuleGroupsPerList : ℕ := 100
def staleExportThreshold : ℕ := 90 * 24 * 60 * 60 * 10 ^ 9

inductive ImportWarning where
  | staleExport (exportedAt : ℕ)
  | nameTruncated
  | renamed (original candidate : String)
  | notInCatalog (kind id : String)
  | servicesUnavailable
  | invalidAction (index : ℕ) (profileName action : String)
  | invalidSyntax (index : ℕ) (profileName value : String)
  | internationalized (index : ℕ) (profileName value decoded : String)
  | groupsCapped (profileName listName : String) (discarded : ℕ)
  deriving DecidableEq

structure ImportResult where
  createdProfileIds : List String
  createdProfileNames : List String
  warnings : List ImportWarning
  deriving DecidableEq

section Names

variable (env : ServiceEnv)

/-- `fitNameWithSuffix`. -/
def fitNameWithSuffix (base suf : String) (max : ℕ) : String :=
  if base.length + suf.length ≤ max then base ++ suf
  else .ofList (base.toList.take (max - suf.length)) ++ suf

def importedSuffix (n : ℕ) : String := " (imported " ++ toString n ++ ")"

/-- `resolveImportName`; the last resort is a name with the time in it, which is not looked up. -/
def resolveImportName (original : String) (takenNames : List String) :
    ProfileFlow (String × List ImportWarning) :=
  let free := fun candidate => decide (normalizeName env candidate ∉ takenNames)
  if free original then pure (original, [])
  else
    let first := fitNameWithSuffix original " (imported)" maxProfileNameLen
    if free first then pure (first, [.renamed original first])
    else match (List.range' 2 998).find? fun n =>
      free (fitNameWithSuffix original (importedSuffix n) maxProfileNameLen) with
      | some n =>
        let candidate := fitNameWithSuffix original (importedSuffix n) maxProfileNameLen
        pure (candidate, [.renamed original candidate])
      | none => do
        let now : ℕ ← call .now
        let candidate := fitNameWithSuffix original (importedSuffix now) maxProfileNameLen
        return (candidate, [.renamed original candidate])

end Names

section Settings

/-- The switches and the texts of `mapExportedSettings`; a value that is not known leaves the
default. -/
def mapSections (src : ExportedSettings) (s : ProfileSettings) : ProfileSettings :=
  let s := match src.privacy with
    | none => s
    | some p =>
      { s with
        privacy.defaultRule :=
          if p.defaultRule = defaultRuleBlock ∨ p.defaultRule = defaultRuleAllow then p.defaultRule
          else s.privacy.defaultRule
        privacy.blocklistsSubdomainsRule :=
          if p.blocklistsSubdomainsRule = "block" ∨ p.blocklistsSubdomainsRule = "allow" then
            p.blocklistsSubdomainsRule
          else s.privacy.blocklistsSubdomainsRule
        privacy.customRulesSubdomainsRule :=
          if p.customRulesSubdomainsRule = customRulesSubdomainsInclude ∨
              p.customRulesSubdomainsRule = customRulesSubdomainsExact then
                p.customRulesSubdomainsRule
          else s.privacy.customRulesSubdomainsRule }
  let s := match src.security.bind (·.dnssec) with
    | none => s
    | some dnssec => { s with security.dnssec := dnssec }
  let s := match src.security.bind (·.rebindingProtection) with
    | none => s
    | some enabled => { s with security.rebindingProtection := enabled }
  match src.logs with
  | none => s
  | some logs =>
    { s with
      logs := { logs with
        retention := if logs.retention ∈ retentions then logs.retention else s.logs.retention } }

/-- Statistics that are on are on since now. -/
def importedStatistics (s : StatisticsSettings) : Option Bool → ProfileFlow StatisticsSettings
  | some true => do
    let now : ℕ ← call .now
    return { s with enabled := true, enabledAt := some now }
  | some false => pure { s with enabled := false }
  | none => pure s

/-- `mapExportedSettings`. -/
def mapExportedSettings (src : Option ExportedSettings) (profileId : String) :
    ProfileFlow ProfileSettings :=
  let s := { newSettings with profileId }
  match src with
  | none => pure s
  | some src => do
    let s := mapSections src s
    let statistics ← importedStatistics s.statistics src.statistics
    return { s with statistics, customRuleGroups := src.customRuleGroups.getD s.customRuleGroups }

/-- `filterCatalogRefs`, for blocklists. -/
def filterCatalogRefs : List String → ProfileFlow (List String × List ImportWarning)
  | [] => pure ([], [])
  | id :: ids => do
    let results ← attempt (call (.getBlocklist (.blocklistID id)))
    let known : Bool := match results with
      | .error _ => false
      | .ok results => !results.isEmpty
    let (validIDs, warnings) ← filterCatalogRefs ids
    return if known then (id :: validIDs, warnings)
    else (validIDs, .notInCatalog "blocklist" id :: warnings)

/-- `filterServiceRefs`: without a catalog every id is accepted. -/
def filterServiceRefs (ids : List String) : ProfileFlow (List String × List ImportWarning) := do
  let cat ← attempt (call .getServices)
  match cat with
  | .ok (some cat) =>
    return (ids.filter fun id => (cat.findByID id).isSome,
      (ids.filter fun id => (cat.findByID id).isNone).map (.notInCatalog "service"))
  | _ => return (ids, [.servicesUnavailable])

/-- `idn.ContainsIDN`. -/
def containsIDN (value : String) : Bool :=
  trimSpace value ≠ "" && (splitDots value).any fun label => hasPrefix (toLower label) "xn--"

section Rules

variable (tags : ValidatorTags) (decode : String → Option String) (newID : ℕ → RuleID)
  (profileName : String)

/-- One round of the loop of `validateAndMapRules`; `decode` is `idn.Decode`. -/
def mapRule (acc : List CustomRule × List ImportWarning) (line : ExportedCustomRule × ℕ) :
    List CustomRule × List ImportWarning :=
  let (valid, warnings) := acc
  let (r, i) := line
  match newCustomRuleAction r.action with
  | none => (valid, warnings ++ [.invalidAction i profileName r.action])
  | some action => match newCustomRuleSyntax tags r.value with
    | none => (valid, warnings ++ [.invalidSyntax i profileName r.value])
    | some ruleSyntax =>
      (valid ++
        [{ id := newID i, action, value := r.value, ruleSyntax, note := r.note, group := r.group
           order := i }],
        if containsIDN r.value then
          warnings ++ [.internationalized i profileName r.value
            ((decode r.value).getD "<not decodable>")]
        else warnings)

/-- `validateAndMapRules`; `newID` gives the id of the rule at each place of the payload. -/
def validateAndMapRules (rules : List ExportedCustomRule) : List CustomRule × List ImportWarning :=
  rules.zipIdx.foldl (mapRule tags decode newID profileName) ([], [])

end Rules

/-- `capGroups`. -/
def capGroups (list : List CustomRuleGroup) (listName profileName : String) :
    List CustomRuleGroup × List ImportWarning :=
  (list.take maxCustomRuleGroupsPerList,
    if maxCustomRuleGroupsPerList < list.length then
      [.groupsCapped profileName listName (list.length - maxCustomRuleGroupsPerList)] else [])

end Settings

section Import

variable (env : ServiceEnv) (decode : String → Option String) (accountId : String)

/-- The blocklists and the services of the payload that are in their catalogs. -/
def importRefs (ep : ExportedProfile) (settings : ProfileSettings) :
    ProfileFlow (ProfileSettings × List ImportWarning) :=
  match ep.settings.bind (·.privacy) with
  | none => pure (settings, [])
  | some privacy => do
    let (validBlocklists, blocklistWarnings) ← filterCatalogRefs privacy.blocklists
    let (validServices, serviceWarnings) ← filterServiceRefs privacy.services
    return ({ settings with
              privacy.blocklists := validBlocklists, privacy.services := validServices },
      blocklistWarnings ++ serviceWarnings)

/-- The writes of `importOneProfile`: the document goes in without the rules. -/
def writeImported (profile : Profile) (validRules : List CustomRule) : ProfileFlow Unit := do
  call (.createProfile profile)
  createOrUpdateProfileSettings profile.settings
  if validRules = [] then return ()
  else do
    let _ ← call (.edit profile.profileId (.createCustomRules validRules))
    addCustomRules profile.profileId validRules

/-- `importOneProfile`. -/
def importOneProfile (newID : ℕ → RuleID) (ep : ExportedProfile) (resolvedName : String) :
    ProfileFlow (String × List ImportWarning) := do
  let freshProfileId : String ← call .generate
  let settings ← mapExportedSettings ep.settings freshProfileId
  let refs ← importRefs ep settings
  let rules :=
    validateAndMapRules env.tags decode newID resolvedName
      ((ep.settings.map (·.customRules)).getD [])
  let block := capGroups refs.1.customRuleGroups.block "denylist" resolvedName
  let allow := capGroups refs.1.customRuleGroups.allow "allowlist" resolvedName
  let settings := { refs.1 with customRuleGroups := ⟨block.1, allow.1⟩ }
  writeImported ⟨freshProfileId, accountId, normalizeName env resolvedName, settings⟩ rules.1
  return (freshProfileId, refs.2 ++ rules.2 ++ block.2 ++ allow.2)

/-- `rollbackImportedProfiles`. -/
def rollbackImportedProfiles : List String → ProfileFlow Unit
  | [] => pure ()
  | pid :: pids => do
    let _ ← attempt (call (.deleteProfileById pid))
    let _ ← attempt (deleteProfileSettings pid)
    rollbackImportedProfiles pids

/-- The name of a profile, cut to the length that is stored. -/
def truncatedName (name : String) : String × List ImportWarning :=
  if maxProfileNameLen < name.length then
    (fitNameWithSuffix name "" maxProfileNameLen, [.nameTruncated]) else (name, [])

/-- The loop of `Import`; `newID` gives the ids of the rules of each profile. -/
def importLoop (newID : ℕ → ℕ → RuleID) :
    List ExportedProfile → ℕ → List String → ImportResult → ProfileFlow ImportResult
  | [], _, _, res => pure res
  | ep :: eps, k, takenNames, res => do
    let (name, truncateWarnings) := truncatedName ep.name
    let (resolvedName, renameWarnings) ← resolveImportName env name takenNames
    let created ← attempt (importOneProfile env decode accountId (newID k) ep resolvedName)
    match created with
    | .error e => do
      rollbackImportedProfiles res.createdProfileIds
      throw e
    | .ok (profileId, profileWarnings) =>
      importLoop newID eps (k + 1) (normalizeName env resolvedName :: takenNames)
        { createdProfileIds := res.createdProfileIds ++ [profileId]
          createdProfileNames := res.createdProfileNames ++ [normalizeName env resolvedName]
          warnings := res.warnings ++ truncateWarnings ++ renameWarnings ++ profileWarnings }

/-- The number of rules in the payload, those that will be skipped included. -/
def incomingRules (payload : ExportEnvelope) : ℕ :=
  (payload.profiles.map fun ep => ((ep.settings.map (·.customRules)).getD []).length).sum

/-- `Import`. -/
def importProfiles (newID : ℕ → ℕ → RuleID) (mode : String) (payload : ExportEnvelope) :
    ProfileFlow ImportResult := do
  ensure (mode = importModeCreateNew) ServiceErr.unsupportedImportMode
  ensure (payload.schemaVersion = 1) ServiceErr.unsupportedSchemaVersion
  ensure (payload.kind = exportKind) ServiceErr.invalidExportKind
  ensure (payload.profiles ≠ []) ServiceErr.emptyImportPayload
  let existingProfiles : List Profile ← call (.getProfilesByAccountId accountId)
  ensure (existingProfiles.length + payload.profiles.length ≤ env.maxProfiles)
    ServiceErr.maxProfilesExceeded
  ensure (countCustomRules existingProfiles + incomingRules payload ≤ maxCustomRulesPerAccount)
    ServiceErr.maxCustomRulesExceeded
  let now : ℕ ← call .now
  let stale :=
    if payload.exportedAt + staleExportThreshold < now then
      [.staleExport payload.exportedAt] else []
  importLoop env decode accountId newID payload.profiles 0
    (existingProfiles.map fun p => normalizeName env p.name) ⟨[], [], stale⟩

end Import

end ModDNS.Profiles
