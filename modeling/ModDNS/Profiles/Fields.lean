import ModDNS.Profiles.Redis

/-!
# The fields of a PATCH

`patchFields` maps a path to its field in Mongo and, where the proxy reads it, to its field in
Redis. `updateFields` is the pipeline update that writes the touched fields of a profile.

* `typed_value`, `value_set_ne`: a write sets its own field, and no other one.
* `hash_injective`: no two paths share a field in Redis.
-/

namespace ModDNS.Profiles

inductive PatchPath where
  | name
  | statisticsEnabled
  | statisticsRetention
  | logsEnabled
  | logClientsIPs
  | logDomains
  | logsRetention
  | defaultRule
  | blocklistsSubdomainsRule
  | customRulesSubdomainsRule
  | dnssecEnabled
  | sendDoBit
  | rebindingProtection
  | recursor
  deriving DecidableEq

/-- `patchField`, without its `value`; `none` is the empty `hash`. -/
structure PatchField where
  field : String
  hash : Option (SettingsHash × String)

def patchFields : PatchPath → PatchField
  | .name => ⟨"name", none⟩
  | .statisticsEnabled => ⟨"settings.statistics.enabled", some (.statistics, "enabled")⟩
  | .statisticsRetention => ⟨"settings.statistics.retention", some (.statistics, "retention")⟩
  | .logsEnabled => ⟨"settings.logs.enabled", some (.logs, "enabled")⟩
  | .logClientsIPs => ⟨"settings.logs.log_clients_ips", some (.logs, "log_clients_ips")⟩
  | .logDomains => ⟨"settings.logs.log_domains", some (.logs, "log_domains")⟩
  | .logsRetention => ⟨"settings.logs.retention", some (.logs, "retention")⟩
  | .defaultRule => ⟨"settings.privacy.default_rule", some (.privacy, "default_rule")⟩
  | .blocklistsSubdomainsRule =>
    ⟨"settings.privacy.blocklists_subdomains_rule", some (.privacy, "blocklists_subdomains_rule")⟩
  | .customRulesSubdomainsRule =>
    ⟨"settings.privacy.custom_rules_subdomains_rule",
      some (.privacy, "custom_rules_subdomains_rule")⟩
  | .dnssecEnabled => ⟨"settings.security.dnssec.enabled", some (.dnssec, "enabled")⟩
  | .sendDoBit => ⟨"settings.security.dnssec.send_do_bit", some (.dnssec, "send_do_bit")⟩
  | .rebindingProtection =>
    ⟨"settings.security.rebinding_protection.enabled", some (.rebindingProtection, "enabled")⟩
  | .recursor => ⟨"settings.advanced.recursor", some (.advanced, "recursor")⟩

/-- The `value` of a path. -/
def Profile.value (p : Profile) : PatchPath → FieldValue
  | .name => .text p.name
  | .statisticsEnabled => .bool p.settings.statistics.enabled
  | .statisticsRetention => .text p.settings.statistics.retention
  | .logsEnabled => .bool p.settings.logs.enabled
  | .logClientsIPs => .bool p.settings.logs.logClientsIPs
  | .logDomains => .bool p.settings.logs.logDomains
  | .logsRetention => .text p.settings.logs.retention
  | .defaultRule => .text p.settings.privacy.defaultRule
  | .blocklistsSubdomainsRule => .text p.settings.privacy.blocklistsSubdomainsRule
  | .customRulesSubdomainsRule => .text p.settings.privacy.customRulesSubdomainsRule
  | .dnssecEnabled => .bool p.settings.security.dnssec.enabled
  | .sendDoBit => .bool p.settings.security.dnssec.sendDoBit
  | .rebindingProtection => .bool p.settings.security.rebindingProtection
  | .recursor => .text p.settings.recursor

/-- The profile with one field replaced. A value of the wrong type is not written. -/
def Profile.set (p : Profile) : PatchPath → FieldValue → Profile
  | .name, .text v => { p with name := v }
  | .statisticsEnabled, .bool v => { p with settings.statistics.enabled := v }
  | .statisticsRetention, .text v => { p with settings.statistics.retention := v }
  | .logsEnabled, .bool v => { p with settings.logs.enabled := v }
  | .logClientsIPs, .bool v => { p with settings.logs.logClientsIPs := v }
  | .logDomains, .bool v => { p with settings.logs.logDomains := v }
  | .logsRetention, .text v => { p with settings.logs.retention := v }
  | .defaultRule, .text v => { p with settings.privacy.defaultRule := v }
  | .blocklistsSubdomainsRule, .text v => { p with settings.privacy.blocklistsSubdomainsRule := v }
  | .customRulesSubdomainsRule, .text v =>
    { p with settings.privacy.customRulesSubdomainsRule := v }
  | .dnssecEnabled, .bool v => { p with settings.security.dnssec.enabled := v }
  | .sendDoBit, .bool v => { p with settings.security.dnssec.sendDoBit := v }
  | .rebindingProtection, .bool v => { p with settings.security.rebindingProtection := v }
  | .recursor, .text v => { p with settings.recursor := v }
  | _, _ => p

/-- The value has the type of the field: it can be written. -/
def PatchPath.Typed (path : PatchPath) (v : FieldValue) : Prop :=
  ∀ p : Profile, (p.set path v).value path = v

theorem typed_value (p : Profile) (path : PatchPath) : path.Typed (p.value path) := by
  intro q
  cases path <;> rfl

theorem value_set_ne {path path' : PatchPath} (p : Profile) (v : FieldValue) (h : path' ≠ path) :
    (p.set path v).value path' = p.value path' := by
  cases path <;> cases v <;> first | rfl | (cases path' <;> first | rfl | exact absurd rfl h)

theorem hash_injective {path path' : PatchPath} {k : SettingsHash × String}
    (h : (patchFields path).hash = some k) (h' : (patchFields path').hash = some k) :
    path = path' := by
  cases path <;> cases h <;> cases path' <;> first | rfl | simp [patchFields] at h'

section Update

/-- `ProfileFieldsUpdate`. -/
structure ProfileFieldsUpdate where
  set : List (PatchPath × FieldValue)
  now : ℕ
  appendCustomRules : List CustomRule := []

/-- `enabledAtExpr`, `historyDeletedAtExpr` and `disabledAtExpr`: the instants that go with a write
of `enabled`, from the stored document. -/
def StatisticsSettings.switched (stored : StatisticsSettings) (enabled : Bool) (now : ℕ) :
    Option ℕ × Option ℕ × Option ℕ :=
  match enabled, stored.enabled with
  | true, true => (stored.enabledAt, stored.historyDeletedAt, stored.disabledAt)
  | true, false => (some now, stored.disabledAt, none)
  | false, true => (none, none, some now)
  | false, false => (stored.enabledAt, stored.historyDeletedAt, stored.disabledAt)

/-- `appendCustomRuleIfAbsentStage`. -/
def appendCustomRuleIfAbsent (rules : List CustomRule) (rule : CustomRule) : List CustomRule :=
  if rule.value ∈ rules.map (·.value) then rules else rules ++ [rule]

/-- The first stage of `UpdateFields`: its expressions read the stored document. -/
def setFields (stored : Profile) (upd : ProfileFieldsUpdate) : Profile :=
  let p := upd.set.foldl (fun p f => p.set f.1 f.2) stored
  match upd.set.lookup .statisticsEnabled with
  | none => p
  | some v =>
    let (enabledAt, historyDeletedAt, disabledAt) :=
      stored.settings.statistics.switched (v == .bool true) upd.now
    { p with settings.statistics.enabledAt := enabledAt
             settings.statistics.historyDeletedAt := historyDeletedAt
             settings.statistics.disabledAt := disabledAt }

/-- The update of `UpdateFields`. -/
def updateFields (stored : Profile) (upd : ProfileFieldsUpdate) : Profile :=
  let p := setFields stored upd
  { p with
    settings.customRules :=
      upd.appendCustomRules.foldl appendCustomRuleIfAbsent p.settings.customRules }

/-- What a write of one field leaves as it is. -/
structure SameElse (p q : Profile) : Prop where
  profileId : q.profileId = p.profileId
  accountId : q.accountId = p.accountId
  blocklists : q.settings.privacy.blocklists = p.settings.privacy.blocklists
  services : q.settings.privacy.services = p.settings.privacy.services
  customRules : q.settings.customRules = p.settings.customRules
  customRuleGroups : q.settings.customRuleGroups = p.settings.customRuleGroups

theorem SameElse.trans {p q r : Profile} (h : SameElse p q) (h' : SameElse q r) : SameElse p r where
  profileId := h'.profileId.trans h.profileId
  accountId := h'.accountId.trans h.accountId
  blocklists := h'.blocklists.trans h.blocklists
  services := h'.services.trans h.services
  customRules := h'.customRules.trans h.customRules
  customRuleGroups := h'.customRuleGroups.trans h.customRuleGroups

theorem sameElse_set (p : Profile) (path : PatchPath) (v : FieldValue) :
    SameElse p (p.set path v) := by
  cases path <;> cases v <;> exact ⟨rfl, rfl, rfl, rfl, rfl, rfl⟩

/-- What a write does not reach, beside what `SameElse` names. -/
theorem set_rest (p : Profile) (path : PatchPath) (v : FieldValue) :
    (p.set path v).settings.profileId = p.settings.profileId ∧
      (p.set path v).settings.statistics.enabledAt = p.settings.statistics.enabledAt ∧
      (p.set path v).settings.statistics.historyDeletedAt = p.settings.statistics.historyDeletedAt ∧
      (p.set path v).settings.statistics.disabledAt = p.settings.statistics.disabledAt := by
  cases path <;> cases v <;> exact ⟨rfl, rfl, rfl, rfl⟩

theorem sets_rest (p : Profile) (l : List (PatchPath × FieldValue)) :
    (l.foldl (fun p f => p.set f.1 f.2) p).settings.profileId = p.settings.profileId ∧
      (l.foldl (fun p f => p.set f.1 f.2) p).settings.statistics.enabledAt =
        p.settings.statistics.enabledAt ∧
      (l.foldl (fun p f => p.set f.1 f.2) p).settings.statistics.historyDeletedAt =
      p.settings.statistics.historyDeletedAt ∧
      (l.foldl (fun p f => p.set f.1 f.2) p).settings.statistics.disabledAt =
      p.settings.statistics.disabledAt := by
  induction l generalizing p with
  | nil => exact ⟨rfl, rfl, rfl, rfl⟩
  | cons f l ih =>
    obtain ⟨h₁, h₂, h₃, h₄⟩ := ih (p.set f.1 f.2)
    obtain ⟨k₁, k₂, k₃, k₄⟩ := set_rest p f.1 f.2
    exact ⟨h₁.trans k₁, h₂.trans k₂, h₃.trans k₃, h₄.trans k₄⟩

theorem sameElse_sets (p : Profile) (l : List (PatchPath × FieldValue)) :
    SameElse p (l.foldl (fun p f => p.set f.1 f.2) p) := by
  induction l generalizing p with
  | nil => exact ⟨rfl, rfl, rfl, rfl, rfl, rfl⟩
  | cons f l ih => exact (sameElse_set p f.1 f.2).trans (ih _)

theorem sameElse_setFields (stored : Profile) (upd : ProfileFieldsUpdate) :
    SameElse stored (setFields stored upd) := by
  unfold setFields
  split
  · exact sameElse_sets stored upd.set
  · exact (sameElse_sets stored upd.set).trans ⟨rfl, rfl, rfl, rfl, rfl, rfl⟩

theorem updateFields_customRules (p : Profile) (upd : ProfileFieldsUpdate) :
    (updateFields p upd).settings.customRules =
      upd.appendCustomRules.foldl appendCustomRuleIfAbsent p.settings.customRules :=
  congrArg (upd.appendCustomRules.foldl appendCustomRuleIfAbsent)
  (sameElse_setFields p upd).customRules

/-- A field that is not among the written ones keeps its value. -/
theorem value_sets_ne {path : PatchPath} {l : List (PatchPath × FieldValue)} (p : Profile)
    (h : path ∉ l.map Prod.fst) :
    (l.foldl (fun p f => p.set f.1 f.2) p).value path = p.value path := by
  induction l generalizing p with
  | nil => rfl
  | cons f l ih =>
    rw [List.map_cons, List.mem_cons, not_or] at h
    rw [List.foldl_cons, ih _ h.2, value_set_ne _ _ h.1]

theorem value_sets {path : PatchPath} {v : FieldValue}
    {l : List (PatchPath × FieldValue)} (p : Profile) (hl : (l.map Prod.fst).Nodup)
    (hv : path.Typed v) (h : (path, v) ∈ l) :
    (l.foldl (fun p f => p.set f.1 f.2) p).value path = v := by
  induction l generalizing p with
  | nil => cases h
  | cons f l ih =>
    rw [List.map_cons, List.nodup_cons] at hl
    rw [List.foldl_cons]
    rcases List.mem_cons.1 h with rfl | h
    · rw [value_sets_ne _ hl.1, hv p]
    · exact ih _ hl.2 h

theorem value_setFields (stored : Profile) (upd : ProfileFieldsUpdate) (path : PatchPath) :
    (setFields stored upd).value path =
      (upd.set.foldl (fun p f => p.set f.1 f.2) stored).value path := by
  unfold setFields
  split
  · rfl
  · cases path <;> rfl

theorem value_updateFields_ne {path : PatchPath} {upd : ProfileFieldsUpdate} (stored : Profile)
    (h : path ∉ upd.set.map Prod.fst) :
    (updateFields stored upd).value path = stored.value path := by
  have hvalue : (updateFields stored upd).value path = (setFields stored upd).value path := by
    cases path <;> rfl
  rw [hvalue, value_setFields, value_sets_ne _ h]

theorem value_updateFields {path : PatchPath} {v : FieldValue} {upd : ProfileFieldsUpdate}
    (stored : Profile) (hset : (upd.set.map Prod.fst).Nodup) (hv : path.Typed v)
    (h : (path, v) ∈ upd.set) :
    (updateFields stored upd).value path = v := by
  have hvalue : (updateFields stored upd).value path = (setFields stored upd).value path := by
    cases path <;> rfl
  rw [hvalue, value_setFields, value_sets _ hset hv h]

/-- The instants after an update. -/
theorem updateFields_instants (p : Profile) (upd : ProfileFieldsUpdate) :
    ((updateFields p upd).settings.statistics.enabledAt,
      (updateFields p upd).settings.statistics.historyDeletedAt,
        (updateFields p upd).settings.statistics.disabledAt) =
      match upd.set.lookup .statisticsEnabled with
      | some v => p.settings.statistics.switched (v == .bool true) upd.now
      | none =>
        (p.settings.statistics.enabledAt, p.settings.statistics.historyDeletedAt,
          p.settings.statistics.disabledAt) := by
  unfold updateFields setFields
  cases upd.set.lookup .statisticsEnabled with
  | none =>
    obtain ⟨-, h₁, h₂, h₃⟩ := sets_rest p upd.set
    simp only [h₁, h₂, h₃]
  | some v => rfl

theorem updateFields_settingsId (p : Profile) (upd : ProfileFieldsUpdate) :
    (updateFields p upd).settings.profileId = p.settings.profileId := by
  unfold updateFields setFields
  split <;> exact (sets_rest p upd.set).1

end Update

end ModDNS.Profiles
