import ModDNS.Profiles.Imports

/-!
# Exports

`Export` puts profiles into an envelope, without what only this store knows of them: the ids, the
places of the rules, the recursor, the instants and the retention of the statistics.

* `exportSettings_imported`: the settings that an import makes of a payload are exported as
  `received`.
* `received_export`: what is received of an export, for settings that the checks of an import
  accept.
* `received_received`: what has been imported once is received as it is.
-/

namespace ModDNS.Profiles

open Conc Go Rules

section Export

variable (env : ServiceEnv) (accountId : String)

def exportScopeAll : String := "all"
def exportScopeSelected : String := "selected"

/-- The errors of an export that are not of the stores. -/
inductive ExportErr where
  | tooManyProfileIds
  | invalidExportScope
  deriving DecidableEq

/-- The rules in display order. -/
def displayed (rules : List CustomRule) : List CustomRule := rules.mergeSort fun a b =>
    a.order ≤ b.order

def exportRule (r : CustomRule) : ExportedCustomRule := ⟨r.action.text, r.value, r.note, r.group⟩

/-- The registry, if there is a group in it. -/
def exportGroups (groups : CustomRuleGroups) : Option CustomRuleGroups :=
  if groups.block = [] ∧ groups.allow = [] then none else some groups

/-- `exportSettings`. -/
def exportSettings (s : ProfileSettings) : ExportedSettings where
  privacy := some
    { blocklists := s.privacy.blocklists
      services := s.privacy.services
      defaultRule := s.privacy.defaultRule
      blocklistsSubdomainsRule := s.privacy.blocklistsSubdomainsRule
      customRulesSubdomainsRule := s.privacy.customRulesSubdomainsRule }
  security := some ⟨some s.security.dnssec, some s.security.rebindingProtection⟩
  customRules := (displayed s.customRules).map exportRule
  customRuleGroups := exportGroups s.customRuleGroups
  logs := some s.logs
  statistics := some s.statistics.enabled

/-- `exportProfile`. -/
def exportProfile (p : Profile) : ExportedProfile := ⟨p.name, some (exportSettings p.settings)⟩

/-- The loop over the ids of a request. -/
def ownedProfiles : List String → ProfileFlow (List Profile)
  | [] => pure []
  | id :: ids => do
    let profile ← validateProfileIdAffiliation accountId id
    let profiles ← ownedProfiles ids
    return profile :: profiles

/-- `enumerateExportProfiles`. -/
def enumerateExportProfiles (scope : String) (profileIds : List String) :
    ProfileFlow (Except ExportErr (List Profile)) :=
  if scope = exportScopeAll then do
    let profiles : List Profile ← call (.getProfilesByAccountId accountId)
    return .ok profiles
  else if scope = exportScopeSelected then
    if env.maxProfiles < profileIds.length then pure (.error .tooManyProfileIds)
    else do
      let profiles ← ownedProfiles accountId profileIds
      return .ok profiles
  else pure (.error .invalidExportScope)

/-- `Export`, after the account has reauthenticated. -/
def exportProfiles (scope : String) (profileIds : List String) :
    ProfileFlow (Except ExportErr ExportEnvelope) := do
  match ← enumerateExportProfiles env accountId scope profileIds with
  | .error e => return .error e
  | .ok profiles => do
    let now : ℕ ← call .now
    return .ok ⟨1, exportKind, now, profiles.map exportProfile⟩

end Export

section Received

/-! ### What an import makes of a payload -/

variable (tags : ValidatorTags) (blocklists services : List String)

/-- A value that the import knows, or the one of a new profile. -/
def orNew (known : List String) (value new : String) : String :=
  if value ∈ known then value else new

def receivedPrivacy (p : ExportedPrivacy) : ExportedPrivacy where
  blocklists := blocklists
  services := services
  defaultRule :=
    orNew [defaultRuleBlock, defaultRuleAllow] p.defaultRule newSettings.privacy.defaultRule
  blocklistsSubdomainsRule :=
    orNew ["block", "allow"] p.blocklistsSubdomainsRule newSettings.privacy.blocklistsSubdomainsRule
  customRulesSubdomainsRule :=
    orNew [customRulesSubdomainsInclude, customRulesSubdomainsExact] p.customRulesSubdomainsRule
    newSettings.privacy.customRulesSubdomainsRule

/-- The rule is accepted by an import. -/
def ExportedCustomRule.Accepted (r : ExportedCustomRule) : Prop :=
  (newCustomRuleAction r.action).isSome ∧ (newCustomRuleSyntax tags r.value).isSome

instance (r : ExportedCustomRule) : Decidable (r.Accepted tags) := by
  unfold ExportedCustomRule.Accepted
  infer_instance

def receivedGroups (groups : CustomRuleGroups) : CustomRuleGroups :=
  ⟨groups.block.take maxCustomRuleGroupsPerList, groups.allow.take maxCustomRuleGroupsPerList⟩

def receivedLogs (logs : LogsSettings) : LogsSettings :=
  { logs with retention := orNew retentions logs.retention newSettings.logs.retention }

/-- What is received of settings, where these blocklists and services of theirs are in the catalogs:
every section, with the values of a new profile for what is not there or not known, and the rules
that are accepted. -/
def ExportedSettings.received (e : ExportedSettings) : ExportedSettings where
  privacy := some (receivedPrivacy blocklists services (e.privacy.getD {}))
  security := some ⟨some ((e.security.bind (·.dnssec)).getD newSettings.security.dnssec),
    some ((e.security.bind (·.rebindingProtection)).getD newSettings.security.rebindingProtection)⟩
  customRules := e.customRules.filter (·.Accepted tags)
  customRuleGroups := exportGroups (receivedGroups (e.customRuleGroups.getD {}))
  logs := some ((e.logs.map receivedLogs).getD newSettings.logs)
  statistics := some (e.statistics.getD false)

variable {tags blocklists services}

theorem orNew_mem {known : List String} {value new : String} (h : new ∈ known) :
    orNew known value new ∈ known := by
  unfold orNew
  split
  · assumption
  · exact h

theorem orNew_of_mem {known : List String} {value new : String} (h : value ∈ known) :
    orNew known value new = value := if_pos h

/-- Known values are received as they are. -/
theorem receivedPrivacy_idem (bl sv : List String) (p : ExportedPrivacy) :
    receivedPrivacy blocklists services (receivedPrivacy bl sv p) =
      receivedPrivacy blocklists services p := by
  unfold receivedPrivacy
  rw [orNew_of_mem (orNew_mem (by decide)), orNew_of_mem (orNew_mem (by decide)),
    orNew_of_mem (orNew_mem (by decide))]

theorem receivedGroups_idem (groups : CustomRuleGroups) :
    receivedGroups (receivedGroups groups) = receivedGroups groups := by
  simp [receivedGroups, List.take_take]

theorem exportGroups_getD (groups : CustomRuleGroups) : (exportGroups groups).getD {} = groups := by
  unfold exportGroups
  split
  · next h =>
    obtain ⟨block, allow⟩ := groups
    obtain ⟨rfl, rfl⟩ := h
    rfl
  · rfl

theorem receivedLogs_idem (logs : LogsSettings) :
    receivedLogs (receivedLogs logs) = receivedLogs logs := by
  unfold receivedLogs
  rw [orNew_of_mem (orNew_mem (by decide))]

theorem receivedLogs_new : receivedLogs newSettings.logs = newSettings.logs := by decide

/-- **What has been received once is received as it is**, apart from the references, which are
looked up again. -/
theorem received_received (bl sv : List String) (e : ExportedSettings) :
    (e.received tags bl sv).received tags blocklists services =
      e.received tags blocklists services := by
  have hlogs : ((some ((e.logs.map receivedLogs).getD newSettings.logs)).map receivedLogs).getD
    newSettings.logs =
      (e.logs.map receivedLogs).getD newSettings.logs := by
    cases e.logs with
    | none => exact receivedLogs_new
    | some logs => exact receivedLogs_idem logs
  have hgroups : receivedGroups
    ((exportGroups (receivedGroups (e.customRuleGroups.getD {}))).getD {}) =
      receivedGroups (e.customRuleGroups.getD {}) := by
    rw [exportGroups_getD, receivedGroups_idem]
  have hprivacy : receivedPrivacy blocklists services (receivedPrivacy bl sv (e.privacy.getD {})) =
      receivedPrivacy blocklists services (e.privacy.getD {}) := receivedPrivacy_idem bl sv _
  have hrules : (e.customRules.filter (·.Accepted tags)).filter (·.Accepted tags) =
      e.customRules.filter (·.Accepted tags) := by
    rw [List.filter_filter]
    simp
  unfold ExportedSettings.received
  simp only [Option.getD_some, Option.bind_some, hlogs, hgroups, hprivacy, hrules]

end Received

section Exportable

/-! ### Stored settings -/

variable {tags : ValidatorTags} {blocklists services : List String} {s : ProfileSettings}

/-- The checks of an import accept what is exported of the settings. -/
structure ProfileSettings.Exportable (tags : ValidatorTags) (s : ProfileSettings) : Prop where
  defaultRule : s.privacy.defaultRule ∈ [defaultRuleBlock, defaultRuleAllow]
  blocklistsSubdomainsRule : s.privacy.blocklistsSubdomainsRule ∈ ["block", "allow"]
  customRulesSubdomainsRule : s.privacy.customRulesSubdomainsRule ∈
    [customRulesSubdomainsInclude, customRulesSubdomainsExact]
  retention : s.logs.retention ∈ retentions
  rules : ∀ rule ∈ s.customRules, (newCustomRuleSyntax tags rule.value).isSome
  blockGroups : s.customRuleGroups.block.length ≤ maxCustomRuleGroupsPerList
  allowGroups : s.customRuleGroups.allow.length ≤ maxCustomRuleGroupsPerList

theorem newCustomRuleAction_text (action : CustomRuleAction) :
    newCustomRuleAction action.text = some action := by
  cases action <;> rfl

theorem newCustomRuleAction_some {text : String} {action : CustomRuleAction}
    (h : newCustomRuleAction text = some action) :
    action.text = text := by
  unfold newCustomRuleAction at h
  split at h <;> cases h <;> rfl

theorem accepted_exportRule {rule : CustomRule} (h : (newCustomRuleSyntax tags rule.value).isSome) :
    (exportRule rule).Accepted tags := by
  refine ⟨?_, h⟩
  show (newCustomRuleAction rule.action.text).isSome
  rw [newCustomRuleAction_text]
  rfl

/-- **The export of settings that the checks accept is received as it is**, apart from the
references. -/
theorem received_export (h : s.Exportable tags) :
    (exportSettings s).received tags blocklists services =
    { exportSettings s with
      privacy := (exportSettings s).privacy.map fun p => { p with blocklists, services } } := by
  have hrules : ((displayed s.customRules).map exportRule).filter (·.Accepted tags) =
    (displayed s.customRules).map
    exportRule := by
    apply List.filter_eq_self.2
    intro r hr
    obtain ⟨rule, hrule, rfl⟩ := List.mem_map.1 hr
    exact decide_eq_true (accepted_exportRule (h.rules rule (List.mem_mergeSort.1 hrule)))
  have hgroups : receivedGroups s.customRuleGroups = s.customRuleGroups := by
    unfold receivedGroups
    rw [List.take_of_length_le h.blockGroups, List.take_of_length_le h.allowGroups]
  have hlogs : receivedLogs s.logs = s.logs := by
    unfold receivedLogs
    rw [orNew_of_mem h.retention]
  unfold ExportedSettings.received exportSettings receivedPrivacy
  simp only [Option.getD_some, Option.bind_some, Option.map_some, exportGroups_getD, hgroups,
    hlogs, hrules,
    orNew_of_mem h.defaultRule, orNew_of_mem h.blocklistsSubdomainsRule,
    orNew_of_mem h.customRulesSubdomainsRule]

end Exportable

section Imported

/-! ### The settings of an imported profile -/

variable {tags : ValidatorTags} {newID : ℕ → RuleID} {pid : String}
  {blocklists services : List String} {statistics : StatisticsSettings} {src : ExportedSettings}

/-- What an import stores of the settings of a payload. -/
def importedSettings (tags : ValidatorTags) (newID : ℕ → RuleID) (pid : String)
    (src : ExportedSettings) (statistics : StatisticsSettings) (blocklists services : List String) :
    ProfileSettings :=
  let s := mapSections src { newSettings with profileId := pid }
  { s with
    privacy.blocklists := blocklists, privacy.services := services, statistics
    customRules := acceptedRules tags newID src.customRules
    customRuleGroups := receivedGroups (src.customRuleGroups.getD {}) }

/-- The accepted rules are displayed in the order of the payload. -/
theorem displayed_acceptedRules (payload : List ExportedCustomRule) :
    displayed (acceptedRules tags newID payload) = acceptedRules tags newID payload := by
  have hvalid : ValidRules tags newID payload (acceptedRules tags newID payload) := valid_rules
  apply List.mergeSort_of_pairwise
  refine hvalid.ordered.imp fun hlt => ?_
  exact decide_eq_true hlt.le

/-- The export of the rule of a line is the line. -/
theorem exportRule_accepted {line : ExportedCustomRule × ℕ} :
    (acceptRule tags newID line).map exportRule = if line.1.Accepted tags then some line.1
      else none := by
  by_cases haccepted : line.1.Accepted tags
  · obtain ⟨action, haction⟩ := Option.isSome_iff_exists.1 haccepted.1
    obtain ⟨ruleSyntax, hvalid⟩ := Option.isSome_iff_exists.1 haccepted.2
    rw [if_pos haccepted]
    unfold acceptRule
    rw [haction, hvalid]
    show some (ExportedCustomRule.mk action.text line.1.value line.1.note line.1.group) =
      some line.1
    rw [newCustomRuleAction_some haction]
  · rw [if_neg haccepted, Option.map_eq_none_iff]
    cases hrule : acceptRule tags newID line with
    | none => rfl
    | some rule =>
      obtain ⟨action, haction, hrest⟩ := Option.bind_eq_some_iff.1 hrule
      obtain ⟨ruleSyntax, hvalid, -⟩ := Option.map_eq_some_iff.1 hrest
      exact absurd ⟨Option.isSome_iff_exists.2 ⟨action, haction⟩,
        Option.isSome_iff_exists.2 ⟨ruleSyntax, hvalid⟩⟩ haccepted

theorem exportRules_accepted (tags : ValidatorTags) (newID : ℕ → RuleID)
    (payload : List ExportedCustomRule) :
    (acceptedRules tags newID payload).map exportRule = payload.filter (·.Accepted tags) := by
  have hfilter : payload.filter (·.Accepted tags) =
      payload.zipIdx.filterMap fun line => if line.1.Accepted tags then some line.1 else none := by
    conv_lhs => rw [← List.zipIdx_map_fst 0 payload]
    rw [List.filter_map, ← List.filterMap_eq_map, List.filterMap_filter]
    apply List.filterMap_congr
    intro line _
    simp only [Function.comp_apply, decide_eq_true_eq]
  unfold acceptedRules
  rw [hfilter, List.map_filterMap]
  apply List.filterMap_congr
  intro line _
  exact exportRule_accepted

/-- The sections of a payload, over those of a new profile. -/
theorem mapSections_received (src : ExportedSettings) (pid : String) :
    (mapSections src { newSettings with profileId := pid }).security =
        ⟨(src.security.bind (·.dnssec)).getD newSettings.security.dnssec,
          (src.security.bind (·.rebindingProtection)).getD
            newSettings.security.rebindingProtection⟩ ∧
      (mapSections src { newSettings with profileId := pid }).logs =
      (src.logs.map receivedLogs).getD newSettings.logs := by
  unfold mapSections
  cases src.privacy <;> cases src.security.bind (·.dnssec) <;>
    cases src.security.bind (·.rebindingProtection) <;>
    cases src.logs <;> exact ⟨rfl, rfl⟩

theorem mapSections_privacy (src : ExportedSettings) (pid : String)
    (blocklists services : List String) :
    receivedPrivacy blocklists services (src.privacy.getD {}) =
      { blocklists, services
        defaultRule := (mapSections src { newSettings with profileId := pid }).privacy.defaultRule
        blocklistsSubdomainsRule :=
          (mapSections src { newSettings with profileId := pid }).privacy.blocklistsSubdomainsRule
        customRulesSubdomainsRule :=
          (mapSections src { newSettings with profileId := pid }).privacy.customRulesSubdomainsRule
        } := by
  unfold mapSections receivedPrivacy orNew
  simp only [List.mem_cons, List.not_mem_nil, or_false]
  cases src.privacy with
  | none =>
    cases src.security.bind (·.dnssec) <;> cases src.security.bind (·.rebindingProtection) <;>
      cases src.logs <;> rfl
  | some p =>
    cases src.security.bind (·.dnssec) <;> cases src.security.bind (·.rebindingProtection) <;>
      cases src.logs <;> rfl

/-- **The settings that an import stores are exported as received.** -/
theorem exportSettings_imported (hstatistics : statistics.enabled = src.statistics.getD false) :
    exportSettings (importedSettings tags newID pid src statistics blocklists services) =
      src.received tags blocklists services := by
  have hrules := exportRules_accepted tags newID src.customRules
  rw [← displayed_acceptedRules] at hrules
  obtain ⟨hsecurity, hlogs⟩ := mapSections_received src pid
  have hprivacy := mapSections_privacy src pid blocklists services
  unfold exportSettings ExportedSettings.received importedSettings
  simp only [hrules, hstatistics, hsecurity, hlogs, hprivacy]

end Imported

end ModDNS.Profiles
