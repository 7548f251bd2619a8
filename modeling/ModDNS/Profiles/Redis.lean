import Mathlib.Data.List.Lattice
import Mathlib.Logic.Function.Basic
import ModDNS.Profiles.Settings

/-!
# The settings cache

The keys `settings:<profile id>:…` of one profile, which the proxy reads, and the commands
that the API sends for them.

* `RedisCmd.run`: what one command does to the keys.
* `settingsCmds`: the pipeline of `CreateOrUpdateProfileSettings`.
-/

namespace ModDNS.Profiles

/-- A value of a field of a Redis hash, or of a document. -/
inductive FieldValue where
  | bool (b : Bool)
  | text (s : String)
  deriving DecidableEq

inductive SettingsHash where
  | logs
  | statistics
  | dnssec
  | rebindingProtection
  | advanced
  | privacy
  deriving DecidableEq

inductive SettingsList where
  | blocklists
  | services
  deriving DecidableEq

/-- What the hash of a custom rule has of the rule. -/
structure CachedRule where
  action : CustomRuleAction
  value : String
  ruleSyntax : CustomRuleSyntax
  deriving DecidableEq

def CustomRule.cached (rule : CustomRule) : CachedRule := ⟨rule.action, rule.value, rule.ruleSyntax⟩

/-- The keys of a profile. -/
inductive SettingsKey where
  | list (l : SettingsList)
  | hash (h : SettingsHash)
  /-- The set of the keys of the custom rules. -/
  | customRules
  | customRule (id : RuleID)
  deriving DecidableEq

/-- What Redis has under the keys of a profile. A key that is absent is an empty list, set or
hash. -/
@[ext]
structure CachedSettings where
  lists : SettingsList → List String
  hashes : SettingsHash → String → Option FieldValue
  customRules : List RuleID
  rules : RuleID → Option CachedRule

/-- No key of the profile is in Redis. -/
def CachedSettings.absent : CachedSettings := ⟨fun _ => [], fun _ _ => none, [], fun _ => none⟩

inductive RedisCmd where
  | del (keys : List SettingsKey)
  | hset (h : SettingsHash) (fields : List (String × FieldValue))
  | hsetRule (rule : CustomRule)
  | sadd (ids : List RuleID)
  | srem (ids : List RuleID)
  | rpush (l : SettingsList) (ids : List String)
  | lrem (l : SettingsList) (id : String)
  deriving DecidableEq

def CachedSettings.del (c : CachedSettings) : SettingsKey → CachedSettings
  | .list l => { c with lists := Function.update c.lists l [] }
  | .hash h => { c with hashes := Function.update c.hashes h fun _ => none }
  | .customRules => { c with customRules := [] }
  | .customRule id => { c with rules := Function.update c.rules id none }

/-- `HSET`: the fields that are not named stay. -/
def hsetFields (hash : String → Option FieldValue) (fields : List (String × FieldValue)) :
    String → Option FieldValue :=
  fields.foldl (fun hash f => Function.update hash f.1 (some f.2)) hash

def RedisCmd.run : RedisCmd → CachedSettings → CachedSettings
  | .del keys, c => keys.foldl CachedSettings.del c
  | .hset h fields, c =>
    { c with hashes := Function.update c.hashes h (hsetFields (c.hashes h) fields) }
  | .hsetRule rule, c => { c with rules := Function.update c.rules rule.id (some rule.cached) }
  | .sadd ids, c => { c with customRules := ids ∪ c.customRules }
  | .srem ids, c => { c with customRules := c.customRules.filter (· ∉ ids) }
  | .rpush l ids, c => { c with lists := Function.update c.lists l (c.lists l ++ ids) }
  | .lrem l id, c => { c with lists := Function.update c.lists l ((c.lists l).filter (· ≠ id)) }

/-- One field of one hash is written. -/
theorem hashes_hset (c : CachedSettings) (h k : SettingsHash) (f g : String) (v : FieldValue) :
    ((RedisCmd.hset k [(g, v)]).run c).hashes h f = if h = k ∧ f = g then some v
      else c.hashes h f := by
  simp only [RedisCmd.run, hsetFields, List.foldl_cons, List.foldl_nil]
  by_cases hk : h = k
  · subst hk
    by_cases hg : f = g
    · subst hg
      simp
    · simp [hg]
  · simp [hk]

theorem rules_hsetRule (c : CachedSettings) (rule : CustomRule) (id : RuleID) :
    ((RedisCmd.hsetRule rule).run c).rules id = if id = rule.id then some rule.cached
      else c.rules id :=
  Function.update_apply ..

section Hashes

/-! What `HSET` of a section of the settings writes. -/

def LogsSettings.fields (s : LogsSettings) : List (String × FieldValue) :=
  [("enabled", .bool s.enabled), ("log_clients_ips", .bool s.logClientsIPs),
    ("log_domains", .bool s.logDomains),
    ("retention", .text s.retention)]

def StatisticsSettings.fields (s : StatisticsSettings) : List (String × FieldValue) :=
  [("enabled", .bool s.enabled), ("retention", .text s.retention)]

def DNSSECSettings.fields (s : DNSSECSettings) : List (String × FieldValue) :=
  [("enabled", .bool s.enabled), ("send_do_bit", .bool s.sendDoBit)]

def Privacy.fields (s : Privacy) : List (String × FieldValue) :=
  [("default_rule", .text s.defaultRule),
    ("blocklists_subdomains_rule", .text s.blocklistsSubdomainsRule),
    ("custom_rules_subdomains_rule", .text s.customRulesSubdomainsRule)]

end Hashes

/-- `queueCustomRules`. -/
def queueCustomRules (rules : List CustomRule) : List RedisCmd :=
  if rules = [] then [] else rules.map .hsetRule ++ [.sadd (rules.map (·.id))]

/-- `queueReplaceCustomRules`. -/
def queueReplaceCustomRules (rules : List CustomRule) (stored : List RuleID) : List RedisCmd :=
  let stale := stored.filter (· ∉ rules.map (·.id))
  queueCustomRules rules ++ if stale = [] then [] else [.srem stale, .del (stale.map .customRule)]

/-- The commands that `CreateOrUpdateProfileSettings` queues. -/
def settingsCmds (settings : ProfileSettings) (storedRules : List RuleID) : List RedisCmd :=
  .del [.list .blocklists] :: settings.privacy.blocklists.map (fun id => .rpush .blocklists [id]) ++
  .del [.list .services] :: settings.privacy.services.map (fun id => .rpush .services [id]) ++
  [.hset .logs settings.logs.fields, .hset .statistics settings.statistics.fields,
    .hset .dnssec settings.security.dnssec.fields,
    .hset .rebindingProtection [("enabled", .bool settings.security.rebindingProtection)],
    .hset .advanced [("recursor", .text settings.recursor)],
    .hset .privacy settings.privacy.fields] ++
  queueReplaceCustomRules settings.customRules storedRules

/-- The keys of the first `DEL` of `DeleteProfileSettings`. -/
def settingsKeys : List SettingsKey :=
  [.list .blocklists, .list .services, .hash .logs, .hash .privacy, .hash .advanced,
    .hash .statistics, .hash .dnssec,
    .hash .rebindingProtection]

end ModDNS.Profiles
