import ModDNS.Proxy.Match

/-!
# The eight filter stages

`DomainFilter` judges the query name before resolution, `IPFilter` judges the answer
after it. Every stage returns its one result, or the store error that stopped it.
-/

namespace ModDNS.Proxy

open Go Libs

/-- How a stage body ends: `return result, nil` or `return nil, err`. -/
def StageRun.ofExcept : Except StageError StageResult → StageRun
  | .ok res => .returned (some res) none
  | .error err => .returned none (some err)

/-- What `ServicesCatalogGetter.Get` answers. -/
abbrev CatalogGetter := Except StageError (Option Catalog)

/-- What a stage uses of the catalog: no getter and a failing one leave it inert. -/
def loadedCatalog : Option CatalogGetter → Option Catalog
  | some (.ok cat) => cat
  | _ => none

/-- The fields of `DomainFilter`; `none` is `nil`. -/
structure DomainFilter where
  cache : BlocklistStore
  servicesCatalog : Option CatalogGetter

/-- The fields of `IPFilter`; `none` is `nil`. -/
structure IPFilter where
  cache : BlocklistStore
  servicesCatalog : Option CatalogGetter
  asnLookup : Option (IP → Except StageError ℕ)
  rebindingConfig : Option RebindingConfig
  /-- `FilteringConfig.CNAMEUncloakingEnabled`. -/
  cnameUncloakingEnabled : Option Bool
  mapOrder : MapOrder

/-- The reasons of a blocklist match. -/
def BlocklistMatch.reasons (m : BlocklistMatch) : List String :=
  (FilterReasons.blocklistPrefix ++ m.blocklistID) ::
    if m.viaParent then [FilterReasons.blocklistsSubdomains] else []

namespace DomainFilter

variable (f : DomainFilter) (reqCtx : RequestContext) (dctx : DNSContext)

def filterBlocklists : Except StageError StageResult := do
  let fqdn := toLower (trimSuffix dctx.question.name ".")
  match ← matchDomainAgainstBlocklists f.cache reqCtx reqCtx.blocklists fqdn with
  | none => return ⟨.none, tierBlocklists, []⟩
  | some m => return ⟨.block, tierBlocklists, m.reasons⟩

/-- The loop of `filterCustomRules`: the first matching Block returns at once. -/
def customRulesLoop (fqdn : String) : List Hash → Bool → Decision
  | [], allowMatched => if allowMatched then .allow else .none
  | hash :: rules, allowMatched =>
    if matchDomainPattern fqdn (mapGet hash "value") then
      if mapGet hash "action" = actionBlock then .block
      else customRulesLoop fqdn rules (allowMatched || mapGet hash "action" = actionAllow)
    else customRulesLoop fqdn rules allowMatched

def filterCustomRules : Except StageError StageResult :=
  match customRulesLoop (trimSuffix dctx.question.name ".") reqCtx.customRules false with
  | .none => .ok ⟨.none, tierCustomRules, []⟩
  | decision => .ok ⟨decision, tierCustomRules, [FilterReasons.customRules]⟩

/-- The walk of `filterServiceDomains`: the name, then its parents. -/
def serviceDomainsLoop (domainMap : List (String × String)) : List String → Option String
  | [] => none
  | label :: parts =>
    match domainMap.lookup (joinDots (label :: parts)) with
    | some svcID => some svcID
    | none => serviceDomainsLoop domainMap parts

def filterServiceDomains : Except StageError StageResult :=
  match loadedCatalog f.servicesCatalog with
  | none => .ok ⟨.none, tierServices, []⟩
  | some cat =>
    let fqdn := toLower (trimSuffix dctx.question.name ".")
    match serviceDomainsLoop (cat.domainMapForServiceIDs reqCtx.blockedServices)
      (splitDots fqdn) with
    | none => .ok ⟨.none, tierServices, []⟩
    | some svcID =>
      .ok ⟨.block, tierServices, [FilterReasons.services, FilterReasons.servicePrefix ++ svcID]⟩

def defaultRuleSetting : String := "default_rule"

def applyDefaultRule : Except StageError StageResult :=
  if mapGet reqCtx.privacySettings defaultRuleSetting = ruleBlock then
    .ok ⟨.block, tierDefaultRule, [FilterReasons.defaultRule]⟩
  else .ok ⟨.none, tierDefaultRule, []⟩

/-- `NewDomainFilter`. -/
def filter : Filter where
  filterType := "domain"
  stages :=
    [⟨"blocklists", fun r d => .ofExcept (filterBlocklists f r d)⟩,
      ⟨"custom_rules", fun r d => .ofExcept (filterCustomRules r d)⟩,
      ⟨"service_domains", fun r d => .ofExcept (filterServiceDomains f r d)⟩,
      ⟨"default_rule", fun r _ => .ofExcept (applyDefaultRule r)⟩]

end DomainFilter

namespace IPFilter

variable (f : IPFilter) (reqCtx : RequestContext) (dctx : DNSContext)

/-- `blockedSvcs`: a map from service ID to service, a later write replacing an earlier. -/
def blockedSvcs (cat : Catalog) (blockedServices : List String) : List (String × Service) :=
  blockedServices.foldl (fun svcs id =>
    if id = "" then svcs
    else match cat.findByID id with
      | none => svcs
      | some svc => (svc.id, svc) :: svcs.filter (·.1 ≠ svc.id)) []

/-- `matchedServices`: the IDs of the blocked services with the ASN of some address. -/
def matchedServices (asnOf : IP → Except StageError ℕ) (svcs : List (String × Service))
    (ips : List IP) :
    List String :=
  ips.foldl (fun matched ip =>
    match asnOf ip with
    | .error _ => matched
    | .ok asn =>
      if asn = 0 then matched
      else svcs.foldl (fun matched svc => if asn ∈ svc.2.asns then matched.insert svc.1
      else matched) matched) []

def filterServices : Except StageError StageResult :=
  match loadedCatalog f.servicesCatalog, f.asnLookup, dctx.res with
  | some cat, some asnOf, some res =>
    let matched :=
      matchedServices asnOf (blockedSvcs cat reqCtx.blockedServices)
        (extractIPsFromAnswer res.answer)
    if matched.isEmpty then .ok ⟨.none, tierServices, []⟩
    else .ok ⟨.block, tierServices,
      FilterReasons.services :: (f.mapOrder.order matched).map (FilterReasons.servicePrefix ++ ·)⟩
  | _, _, _ => .ok ⟨.none, tierServices, []⟩

def rebindingEnabledKey : String := "enabled"

def filterRebinding : Except StageError StageResult :=
  match dctx.res, f.rebindingConfig with
  | some res, some cfg =>
    if !cfg.enabled then .ok ⟨.none, tierRebinding, []⟩
    -- a value that does not parse reads as false
    else if parseBool (mapGet reqCtx.rebindingProtectionSettings rebindingEnabledKey) ≠
      some true then
      .ok ⟨.none, tierRebinding, []⟩
    else if isRebindingAllowedSuffix dctx.question.name cfg.allowSuffixes then
      .ok ⟨.none, tierRebinding, []⟩
    else if (extractIPsFromAnswer res.answer).any (isPrivateRebindingIP · cfg) then
      .ok ⟨.block, tierRebinding, [FilterReasons.rebinding]⟩
    else .ok ⟨.none, tierRebinding, []⟩
  | _, _ => .ok ⟨.none, tierRebinding, []⟩

/-- What a matching rule does: whether it allows, and whether it blocks. -/
def actionMatch (action : String) : Bool × Bool := (action = actionAllow, action = actionBlock)

def matchASNRule (asnOf : IP → Except StageError ℕ) (ip : IP) (ruleASN : ℕ) (action : String) :
    Bool × Bool :=
  if ip = [] then (false, false)
  else match asnOf ip with
    | .error _ => (false, false)
    | .ok asn => if asn = 0 ∨ asn ≠ ruleASN then (false, false) else actionMatch action

def matchIPRule (ip : IP) (hash : Hash) : Bool × Bool :=
  if ip = [] then (false, false)
  else if !ip.equal (parseIP (mapGet hash "value")) then (false, false)
  else actionMatch (mapGet hash "action")

/-- What one custom rule does to the addresses of the answer. -/
def ruleMatches (ips : List IP) (hash : Hash) : List (Bool × Bool) :=
  let syn := mapGet hash "syntax"
  if syn = "" then []
  else if contains syn "ip" then ips.map fun ip => matchIPRule ip hash
  else if syn = "asn" then
    match f.asnLookup, parseCustomRuleASN (mapGet hash "value") with
    | some asnOf, some ruleASN =>
      ips.map fun ip => matchASNRule asnOf ip ruleASN (mapGet hash "action")
    | _, _ => []
  else []

/-- `filterCustomRules`: here a Block wins over an Allow. -/
def filterCustomRules : Except StageError StageResult :=
  match dctx.res with
  | none => .ok ⟨.none, tierCustomRules, []⟩
  | some res =>
    let matched := reqCtx.customRules.flatMap (ruleMatches f (extractIPsFromAnswer res.answer))
    if matched.any (·.2) then .ok ⟨.block, tierCustomRules, [FilterReasons.customRules]⟩
    else if matched.any (·.1) then .ok ⟨.allow, tierCustomRules, [FilterReasons.customRules]⟩
    else .ok ⟨.none, tierCustomRules, []⟩

/-- The blocklist part of `filterCNAME`: the first target that a list blocks. -/
def cnameBlocklistsLoop : List String → Except StageError StageResult
  | [] => .ok ⟨.none, tierBlocklists, []⟩
  | target :: targets => do
    match ← matchDomainAgainstBlocklists f.cache reqCtx reqCtx.blocklists target with
    | none => cnameBlocklistsLoop targets
    | some m => return ⟨.block, tierBlocklists, m.reasons ++ [FilterReasons.cnameUncloaking]⟩

/-- `filterCNAME`: here an Allow wins over a Block, and a custom rule over the lists. -/
def filterCNAME : Except StageError StageResult :=
  match f.cnameUncloakingEnabled, dctx.res with
  | some false, _ => .ok ⟨.none, tierBlocklists, []⟩
  | _, none => .ok ⟨.none, tierBlocklists, []⟩
  | _, some res =>
    let targets := extractCNAMETargets res.answer dctx.question.name
    let actions := reqCtx.customRules.flatMap fun hash =>
      targets.flatMap fun target =>
        if matchDomainPattern target (mapGet hash "value") then [mapGet hash "action"] else []
    if actionAllow ∈ actions then
      .ok ⟨.allow, tierCustomRules, [FilterReasons.customRules, FilterReasons.cnameUncloaking]⟩
    else if actionBlock ∈ actions then
      .ok ⟨.block, tierCustomRules, [FilterReasons.customRules, FilterReasons.cnameUncloaking]⟩
    else cnameBlocklistsLoop f reqCtx targets

/-- `NewIPFilter`. -/
def filter : Filter where
  filterType := "ip"
  stages :=
    [⟨"services", fun r d => .ofExcept (filterServices f r d)⟩,
      ⟨"rebinding", fun r d => .ofExcept (filterRebinding f r d)⟩,
      ⟨"custom_rules", fun r d => .ofExcept (filterCustomRules f r d)⟩,
      ⟨"cname", fun r d => .ofExcept (filterCNAME f r d)⟩]

end IPFilter

end ModDNS.Proxy
