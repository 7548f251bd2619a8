import ModDNS.Profiles.Patch

/-!
# The edits of a profile

The operations on the custom rules, the blocklists and the services of a profile. Each of them reads
the profile, writes to Mongo, and then writes the same to Redis.
-/

namespace ModDNS.Profiles

open Conc Rules

section CustomRules

variable (env : ServiceEnv) (newID : ℕ → RuleID) (accountId pid : String)

/-- `CreateCustomRulesBulk`, with its store calls. -/
def createCustomRulesBulk (action : String) (values : List String) :
    ProfileFlow BulkCustomRuleResult := do
  let profile ← validateProfileIdAffiliation accountId pid
  match newCustomRuleAction action with
  | none => throw (ServiceErr.customRule .invalidCustomRuleAction)
  | some actionCustomRule =>
    let st := values.foldl (bulkStep env.tags newID profile.settings actionCustomRule)
      ⟨profile.settings.customRules.map (·.value), [], [], []⟩
    let result : BulkCustomRuleResult := ⟨actionCustomRule, values.length, st.toCreate, st.skipped⟩
    if st.toCreate = [] then return result
    else do
      let profiles : List Profile ← call (.getProfilesByAccountId accountId)
      ensure (countCustomRules profiles + st.toCreate.length ≤ maxCustomRulesPerAccount)
        (ServiceErr.customRule .maxCustomRulesReached)
      let _ ← call (.edit pid (.createCustomRules st.toCreate))
      addCustomRules pid st.toCreate
      return result

def createCustomRule (action value : String) : ProfileFlow Unit := do
  let result ← createCustomRulesBulk env newID accountId pid action [value]
  match result.created, result.skipped with
  | [], skipped :: _ => match skipped.reason with
    | .duplicateExisting => throw (ServiceErr.customRule .customRuleAlreadyExists)
    | .invalidSyntax => throw (ServiceErr.customRule .invalidCustomRuleSyntax)
    | .duplicatePayload => return ()
  | _, _ => return ()

def deleteCustomRule (customRuleId : RuleID) : ProfileFlow Unit := do
  let profile ← validateProfileIdAffiliation accountId pid
  ensure (customRuleId ∈ profile.settings.customRules.map (·.id))
    (ServiceErr.customRule .customRuleNotFound)
  let _ ← call (.edit pid (.removeCustomRules [customRuleId]))
  removeCustomRule pid customRuleId

/-- `CustomRulePatch`: a field that is not there stays as it is. -/
structure CustomRulePatch where
  action : Option String := none
  value : Option String := none
  note : Option String := none
  group : Option String := none
  order : Option ℕ := none

/-- The rule with the action and the value of the patch. -/
def patchProxyFields (settings : ProfileSettings) (existing : CustomRule)
    (patch : CustomRulePatch) :
    Except CustomRuleError CustomRule := do
  let updated ← match patch.action with
    | none => pure existing
    | some text => match newCustomRuleAction text with
      | none => throw .invalidCustomRuleAction
      | some action => pure { existing with action }
  match patch.value with
  | none => pure updated
  | some original =>
    let normalized := normalizeRuleValue settings original
    if normalized = "" then throw .invalidCustomRuleSyntax
    else match newCustomRuleSyntax env.tags normalized with
      | none => throw .invalidCustomRuleSyntax
      | some ruleSyntax =>
        if normalized = updated.value then pure updated
        else if settings.customRules.any fun r => r.id ≠ existing.id ∧ r.value = normalized then
          throw .customRuleAlreadyExists
        else pure { updated with value := normalized, ruleSyntax }

/-- The rule with the fields of the patch that are not for the proxy. -/
def patchLabels (rule : CustomRule) (patch : CustomRulePatch) : CustomRule :=
  { rule with
    note := patch.note.getD rule.note
    group := patch.group.getD rule.group
    order := patch.order.getD rule.order }

def updateCustomRule (customRuleId : RuleID) (patch : CustomRulePatch) :
    ProfileFlow CustomRule := do
  let profile ← validateProfileIdAffiliation accountId pid
  match profile.settings.customRules.find? (·.id = customRuleId) with
  | none => throw (ServiceErr.customRule .customRuleNotFound)
  | some existing => match patchProxyFields env profile.settings existing patch with
    | .error e => throw (ServiceErr.customRule e)
    | .ok rule => do
      let updated := patchLabels rule patch
      let matched : ℕ ← call (.edit pid (.updateCustomRule updated))
      ensure (matched ≠ 0) (ServiceErr.customRule .customRuleNotFound)
      -- `proxyFieldsChanged`
      if updated.cached ≠ existing.cached then addCustomRules pid [updated]
      return updated

/-- The map of `ReorderCustomRules`: the place of each id at its first occurrence. -/
def idToOrder (orderedIds : List RuleID) : List (RuleID × ℕ) :=
  orderedIds.zipIdx.foldl (fun m (id, i) => if id ∈ m.map Prod.fst then m else m ++ [(id, i)]) []

def reorderCustomRules (orderedIds : List RuleID) : ProfileFlow Unit := do
  let profile ← validateProfileIdAffiliation accountId pid
  ensure (∀ id ∈ orderedIds, id ∈ profile.settings.customRules.map (·.id))
    (ServiceErr.customRule .customRuleNotFound)
  if orderedIds = [] then return ()
  else do
    let _ ← call (.edit pid (.updateCustomRulesOrder (idToOrder orderedIds)))
    return ()

end CustomRules

section Lists

variable (accountId pid : String)

/-- The loops over the ids of a request: each of them has to be a known blocklist. -/
def checkBlocklists (enabled : List String) : List String → ProfileFlow Unit
  | [] => pure ()
  | id :: ids => do
    let found : List String ← call (.getBlocklist (.blocklistID id))
    ensure (found ≠ []) ServiceErr.blocklistNotFound
    ensure (id ∉ enabled) ServiceErr.blocklistAlreadyEnabled
    checkBlocklists enabled ids

def enableBlocklists (blocklistIds : List String) : ProfileFlow Unit := do
  let profile ← validateProfileIdAffiliation accountId pid
  ensure (blocklistIds ≠ []) ServiceErr.invalidBlocklistValue
  checkBlocklists profile.settings.privacy.blocklists blocklistIds
  let _ ← call (.edit pid (.enableBlocklists blocklistIds))
  appendToProfileSettings pid .blocklists blocklistIds

def disableBlocklists (blocklistIds : List String) : ProfileFlow Unit := do
  let _ ← validateProfileIdAffiliation accountId pid
  ensure (blocklistIds ≠ []) ServiceErr.invalidBlocklistValue
  checkBlocklists [] blocklistIds
  let _ ← call (.edit pid (.disableBlocklists blocklistIds))
  removeFromProfileSettings pid .blocklists blocklistIds

def enableServices (serviceIds : List String) : ProfileFlow Unit := do
  let profile ← validateProfileIdAffiliation accountId pid
  ensure (serviceIds ≠ []) ServiceErr.invalidServiceValue
  match serviceIds.find? fun id => id = "" ∨ id ∈ profile.settings.privacy.services with
  | some id =>
    throw (if id = "" then ServiceErr.invalidServiceValue else ServiceErr.serviceAlreadyEnabled)
  | none => do
    let _ ← call (.edit pid (.enableServices serviceIds))
    appendToProfileSettings pid .services serviceIds

def disableServices (serviceIds : List String) : ProfileFlow Unit := do
  let _ ← validateProfileIdAffiliation accountId pid
  ensure (serviceIds ≠ []) ServiceErr.invalidServiceValue
  ensure ("" ∉ serviceIds) ServiceErr.invalidServiceValue
  let _ ← call (.edit pid (.disableServices serviceIds))
  removeFromProfileSettings pid .services serviceIds

end Lists

end ModDNS.Profiles
