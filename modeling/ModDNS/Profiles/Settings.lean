import ModDNS.Go.Strings

/-!
# Profiles and their settings

The records of the `profiles` collection. The API creates a profile with every section of
its settings, so none of them is `nil` here.
-/

namespace ModDNS.Profiles

/-- The id that Mongo gives a custom rule. -/
abbrev RuleID := ℕ

inductive CustomRuleAction where
  | block
  | allow
  | comment
  deriving DecidableEq

def CustomRuleAction.text : CustomRuleAction → String
  | .block => "block"
  | .allow => "allow"
  | .comment => "comment"

/-- `NewCustomRuleAction`; `none` is `ErrInvalidCustomRuleAction`. -/
def newCustomRuleAction : String → Option CustomRuleAction
  | "block" => some .block
  | "allow" => some .allow
  | "comment" => some .comment
  | _ => none

/-- `CustomRuleSyntax`: the validation that accepted a value, or `""` for a rule that was
stored without one. -/
inductive CustomRuleSyntax where
  | fqdn
  | ip4Addr
  | ip6Addr
  | fqdnWildcard
  | asn
  | unset
  deriving DecidableEq

structure CustomRule where
  id : RuleID
  action : CustomRuleAction
  value : String
  ruleSyntax : CustomRuleSyntax
  note : String := ""
  group : String := ""
  order : ℕ := 0
  deriving DecidableEq

structure CustomRuleGroup where
  name : String
  comment : String
  deriving DecidableEq

/-- The group registry, one list for each action that can have groups. -/
structure CustomRuleGroups where
  block : List CustomRuleGroup := []
  allow : List CustomRuleGroup := []
  deriving DecidableEq

structure Privacy where
  blocklists : List String
  services : List String
  defaultRule : String
  blocklistsSubdomainsRule : String
  customRulesSubdomainsRule : String
  deriving DecidableEq

structure DNSSECSettings where
  enabled : Bool
  sendDoBit : Bool
  deriving DecidableEq

structure Security where
  dnssec : DNSSECSettings
  rebindingProtection : Bool
  deriving DecidableEq

structure LogsSettings where
  enabled : Bool
  logClientsIPs : Bool
  logDomains : Bool
  retention : String
  deriving DecidableEq

/-- `StatisticsSettings`; the three instants are in Mongo only. -/
structure StatisticsSettings where
  enabled : Bool
  enabledAt : Option ℕ
  historyDeletedAt : Option ℕ
  disabledAt : Option ℕ
  retention : String
  deriving DecidableEq

structure ProfileSettings where
  profileId : String
  security : Security
  privacy : Privacy
  customRules : List CustomRule
  customRuleGroups : CustomRuleGroups
  logs : LogsSettings
  statistics : StatisticsSettings
  recursor : String
  deriving DecidableEq

structure Profile where
  profileId : String
  accountId : String
  name : String
  settings : ProfileSettings
  deriving DecidableEq

def defaultRuleBlock : String := "block"
def defaultRuleAllow : String := "allow"
def customRulesSubdomainsInclude : String := "include"
def customRulesSubdomainsExact : String := "exact"
def retentionOneHour : String := "1h"
def statisticsRetention30d : String := "30d"
def recursorDefault : String := "knot"

def maxProfileNameLen : ℕ := 50
def maxCustomRulesPerAccount : ℕ := 10000

/-- `NewSettings`. -/
def newSettings : ProfileSettings where
  profileId := ""
  security := ⟨⟨true, false⟩, false⟩
  privacy := ⟨[], [], defaultRuleAllow, "block", customRulesSubdomainsInclude⟩
  customRules := []
  customRuleGroups := {}
  logs := ⟨false, false, true, retentionOneHour⟩
  statistics := ⟨false, none, none, none, statisticsRetention30d⟩
  recursor := recursorDefault

/-- `countCustomRules`. -/
def countCustomRules (profiles : List Profile) : ℕ :=
  (profiles.map fun profile => profile.settings.customRules.length).sum

end ModDNS.Profiles
