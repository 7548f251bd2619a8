import ModDNS.Profiles.Deletion
import ModDNS.Profiles.Import

/-!
# What an import writes

Each profile that an import inserts has been checked against the list of profiles that it has read
and against the profiles that it has inserted before, and gets its rules in one write.

* `valid_rules`: the rules that are accepted.
* `follows_importProfiles`: the calls of an import, each with what has been answered before.
-/

namespace ModDNS.Profiles

open Conc Go Rules

section Histories

abbrev Acts := List profileCalls.sig.Act

/-- The profile that a call inserts. -/
def insertedBy : profileCalls.sig.Act → Option Profile
  | ⟨.createProfile p, _⟩ => some p
  | _ => none

/-- The reading of a clock. -/
def clockOf : profileCalls.sig.Act → Option ℕ
  | ⟨.now, .ok t⟩ => some t
  | _ => none

/-- The answer of a listing of the profiles. -/
def listingOf : profileCalls.sig.Act → Option (List Profile)
  | ⟨.getProfilesByAccountId _, .ok profiles⟩ => some profiles
  | _ => none

/-- The number of rules that a call adds to a profile. -/
def rulesAddedBy : profileCalls.sig.Act → ℕ
  | ⟨.edit _ (.createCustomRules rules), _⟩ => rules.length
  | _ => 0

def inserted (l : Acts) : List Profile := l.filterMap insertedBy

def lastNow (l : Acts) : Option ℕ := (l.filterMap clockOf).getLast?

def lastListing (l : Acts) : Option (List Profile) := (l.filterMap listingOf).getLast?

def rulesAdded (l : Acts) : ℕ := (l.map rulesAddedBy).sum

/-- A call that none of these look at. -/
def Silent : ProfileOp → Prop
  | .createProfile _ => False
  | .now => False
  | .getProfilesByAccountId _ => False
  | .edit _ _ => False
  | _ => True

variable {l l' : Acts} {x : profileCalls.sig.Act}

theorem inserted_append : inserted (l ++ l') = inserted l ++ inserted l' := List.filterMap_append ..

theorem rulesAdded_append : rulesAdded (l ++ l') = rulesAdded l + rulesAdded l' := by
  unfold rulesAdded
  rw [List.map_append, List.sum_append]

theorem lastNow_append : lastNow (l ++ l') = (lastNow l').or (lastNow l) := by
  unfold lastNow
  rw [List.filterMap_append, List.getLast?_append]

theorem lastListing_append : lastListing (l ++ l') = (lastListing l').or (lastListing l) := by
  unfold lastListing
  rw [List.filterMap_append, List.getLast?_append]

theorem silent_act (h : Silent x.1) :
    insertedBy x = none ∧ clockOf x = none ∧ listingOf x = none ∧ rulesAddedBy x = 0 := by
  obtain ⟨o, r⟩ := x
  cases o with
  | createProfile _ => exact absurd h id
  | now => exact absurd h id
  | getProfilesByAccountId _ => exact absurd h id
  | edit _ _ => exact absurd h id
  | _ => exact ⟨rfl, rfl, rfl, rfl⟩

/-- Silent calls change nothing of these. -/
theorem silent_acts (h : ∀ x ∈ l', Silent x.1) :
    inserted (l ++ l') = inserted l ∧ lastNow (l ++ l') = lastNow l ∧
      lastListing (l ++ l') = lastListing l ∧
      rulesAdded (l ++ l') = rulesAdded l := by
  have hnone : ∀ {α : Type} (f : profileCalls.sig.Act → Option α), (∀ x ∈ l', f x = none) →
    l'.filterMap f = [] :=
    fun f hf => List.filterMap_eq_nil_iff.2 hf
  have hsum : rulesAdded l' = 0 := by
    clear hnone
    induction l' with
    | nil => rfl
    | cons x l' ih =>
      obtain ⟨hx, hl⟩ := List.forall_mem_cons.1 h
      unfold rulesAdded at ih ⊢
      rw [List.map_cons, List.sum_cons, ih hl, (silent_act hx).2.2.2]
  refine ⟨?_, ?_, ?_, ?_⟩
  · rw [inserted_append, inserted, inserted, hnone insertedBy fun x hx => (silent_act (h x hx)).1,
      List.append_nil]
  · rw [lastNow_append, lastNow, hnone clockOf fun x hx => (silent_act (h x hx)).2.1]
    rfl
  · rw [lastListing_append, lastListing, hnone listingOf fun x hx => (silent_act (h x hx)).2.2.1]
    rfl
  · rw [rulesAdded_append, hsum, Nat.add_zero]

end Histories

section Rules

variable {tags : ValidatorTags} {decode : String → Option String} {newID : ℕ → RuleID}
  {profileName : String} {payload : List ExportedCustomRule}

/-- The rule of a line of the payload, if it is accepted. -/
def acceptRule (tags : ValidatorTags) (newID : ℕ → RuleID) (line : ExportedCustomRule × ℕ) :
    Option CustomRule :=
  (newCustomRuleAction line.1.action).bind fun action =>
  (newCustomRuleSyntax tags line.1.value).map fun ruleSyntax =>
    { id := newID line.2, action, value := line.1.value, ruleSyntax, note := line.1.note
      group := line.1.group,
      order := line.2 }

/-- The rules of the lines that are accepted. -/
def acceptedRules (tags : ValidatorTags) (newID : ℕ → RuleID) (payload : List ExportedCustomRule) :
    List CustomRule :=
  payload.zipIdx.filterMap (acceptRule tags newID)

/-- The accepted rules, as a list of their own. -/
theorem validateAndMapRules_fst :
    (validateAndMapRules tags decode newID profileName payload).1 =
      acceptedRules tags newID payload := by
  have hstep : ∀ acc line, (mapRule tags decode newID profileName acc line).1 =
      acc.1 ++ (acceptRule tags newID line).toList := by
    intro acc line
    unfold mapRule acceptRule
    cases hact : newCustomRuleAction line.1.action with
    | none => simp [hact]
    | some action =>
      cases hsyntax : newCustomRuleSyntax tags line.1.value with
      | none => simp [hact, hsyntax]
      | some ruleSyntax => simp [hact, hsyntax]
  have hloop :
    ∀ (lines : List (ExportedCustomRule × ℕ)) (acc : List CustomRule × List ImportWarning),
      (lines.foldl (mapRule tags decode newID profileName) acc).1 = acc.1 ++ lines.filterMap
        (acceptRule tags newID) := by
    intro lines
    induction lines with
    | nil => exact fun acc => (List.append_nil _).symm
    | cons line lines ih =>
      intro acc
      rw [List.foldl_cons, ih, hstep, List.append_assoc, List.filterMap_cons]
      cases acceptRule tags newID line with
      | none => rfl
      | some rule => rfl
  exact hloop _ _

/-- What the rules of an import have from the payload: they are in its order. -/
structure ValidRules (tags : ValidatorTags) (newID : ℕ → RuleID) (payload : List ExportedCustomRule)
    (rules : List CustomRule) :
    Prop where
  ordered : rules.Pairwise fun a b => a.order < b.order
  accepted : ∀ rule ∈ rules, ∃ r, payload[rule.order]? = some r ∧ rule.value = r.value ∧
    rule.id = newID rule.order ∧
    newCustomRuleSyntax tags rule.value = some rule.ruleSyntax
  length : rules.length ≤ payload.length

theorem valid_rules : ValidRules tags newID payload (acceptedRules tags newID payload) := by
  have haccept : ∀ {line rule}, acceptRule tags newID line = some rule → rule.order = line.2 ∧
    rule.value = line.1.value ∧
      rule.id = newID line.2 ∧ newCustomRuleSyntax tags rule.value = some rule.ruleSyntax := by
    intro line rule h
    obtain ⟨action, -, h⟩ := Option.bind_eq_some_iff.1 h
    obtain ⟨ruleSyntax, hsyntax, rfl⟩ := Option.map_eq_some_iff.1 h
    exact ⟨rfl, rfl, rfl, hsyntax⟩
  unfold acceptedRules
  refine ⟨?_, ?_, ?_⟩
  · rw [List.pairwise_filterMap]
    have hplaces : payload.zipIdx.Pairwise fun a b => a.2 < b.2 := by
      refine List.pairwise_map.1 ?_
      rw [List.zipIdx_map_snd]
      exact List.pairwise_lt_range'
    refine hplaces.imp fun hlt a ha b hb => ?_
    rw [(haccept ha).1, (haccept hb).1]
    exact hlt
  · intro rule hrule
    obtain ⟨line, hline, hacc⟩ := List.mem_filterMap.1 hrule
    obtain ⟨horder, hvalue, hid, hsyntax⟩ := haccept hacc
    refine ⟨line.1, ?_, hvalue, horder ▸ hid, hsyntax⟩
    rw [horder]
    exact List.mem_zipIdx_iff_getElem?.1 hline
  · refine (List.length_filterMap_le _ _).trans ?_
    rw [List.length_zipIdx]

end Rules

section Calls

variable (env : ServiceEnv) (accountId : String) (newID : ℕ → ℕ → RuleID) (payload : ExportEnvelope)

def rulesOf (ep : ExportedProfile) : List ExportedCustomRule :=
  (ep.settings.map (·.customRules)).getD []

/-- The list of profiles that an import has read, with room for those of the payload and their
rules. -/
def Listed (l : Acts) (existing : List Profile) : Prop := lastListing l = some existing ∧
  existing.length + payload.profiles.length ≤ env.maxProfiles ∧
  countCustomRules existing + incomingRules payload ≤ maxCustomRulesPerAccount

/-- The names of the profiles that have been listed and of those that have been inserted since. -/
def takenNames (existing : List Profile) (l : Acts) : List String :=
  existing.map (fun p => normalizeName env p.name) ++ (inserted l).map (·.name)

/-- No name is left but the one with the time in it. -/
def LastResort (taken : List String) (name : String) : Prop := ∃ original now,
  name = normalizeName env (fitNameWithSuffix original (importedSuffix now) maxProfileNameLen) ∧
  ∀ n ∈ List.range' 2 998, normalizeName env
  (fitNameWithSuffix original (importedSuffix n) maxProfileNameLen) ∈ taken

/-- The statistics of an imported profile: on since the clock was read, or as in a new profile. -/
def ImportedStatistics (l : Acts) (statistics : StatisticsSettings) : Prop :=
  statistics = newSettings.statistics ∨
    ∃ t, lastNow l = some t ∧ statistics =
      { newSettings.statistics with enabled := true, enabledAt := some t }

/-- A profile that an import inserts. -/
structure Inserts (l : Acts) (p : Profile) : Prop where
  generated : (⟨.generate, .ok p.profileId⟩ : profileCalls.sig.Act) ∈ l
  account : p.accountId = accountId
  noRules : p.settings.customRules = []
  settingsId : p.settings.profileId = p.profileId
  statistics : ImportedStatistics l p.settings.statistics
  fits : (inserted l).length < payload.profiles.length
  checked : ∃ existing, Listed env payload l existing ∧
    ∃ resolved, p.name = normalizeName env resolved ∧
    (p.name ∉ takenNames env existing l ∨ LastResort env (takenNames env existing l) p.name)

/-- The calls that an import makes at any time. -/
def AnyTime : ProfileOp → Prop
  | .generate | .getBlocklist _ | .getServices | .smembers _ | .redis _ _ => True
  | _ => False

/-- The rules that an import adds to the profile that it has inserted last. -/
structure AddsRules (l : Acts) (pid : String) (rules : List CustomRule) : Prop where
  profile : ∃ l₁ p l₂, l = l₁ ++ ⟨.createProfile p, .ok ()⟩ :: l₂ ∧ p.profileId = pid ∧
    ∀ x ∈ l₂, AnyTime x.1
  nonempty : rules ≠ []
  accepted : ∃ k ep, (inserted l).length = k + 1 ∧ payload.profiles[k]? = some ep ∧
    rules = acceptedRules env.tags (newID k) (rulesOf ep)
  fits : rulesAdded l + rules.length ≤ incomingRules payload
  listed : ∃ existing, Listed env payload l existing

/-- The calls of an import. -/
def ImportCall (l : Acts) : ProfileOp → Prop
  | .createProfile p => Inserts env accountId payload l p
  | .edit pid (.createCustomRules rules) => AddsRules env newID payload l pid rules
  | .deleteProfileById pid =>
    ∃ p, (⟨.createProfile p, .ok ()⟩ : profileCalls.sig.Act) ∈ l ∧ p.profileId = pid
  | .getProfilesByAccountId a => a = accountId ∧ l = []
  | .generate | .now | .getBlocklist _ | .getServices | .smembers _ | .redis _ _ => True
  | _ => False

end Calls

section Follows

variable {env : ServiceEnv} {accountId : String} {newID : ℕ → ℕ → RuleID} {payload : ExportEnvelope}
  {decode : String → Option String} {l : Acts}

theorem AnyTime.silent {o : ProfileOp} (h : AnyTime o) : Silent o := by
  cases o <;> trivial

theorem AnyTime.allowed {o : ProfileOp} (h : AnyTime o) :
    ImportCall env accountId newID payload l o := by
  cases o <;> trivial

/-- What does not change with calls that are made at any time. -/
structure SameSince (l l' : Acts) : Prop where
  inserted : inserted l' = inserted l
  lastNow : lastNow l' = lastNow l
  lastListing : lastListing l' = lastListing l
  rulesAdded : rulesAdded l' = rulesAdded l

theorem sameSince_append {l' : Acts} (h : ∀ x ∈ l', AnyTime x.1) : SameSince l (l ++ l') := by
  obtain ⟨h₁, h₂, h₃, h₄⟩ := silent_acts (l := l) fun x hx => (h x hx).silent
  exact ⟨h₁, h₂, h₃, h₄⟩

/-- A flow of such calls. -/
theorem follows_anyTime {α : Type} {p : ProfileFlow α} {Q : Acts → Except ServiceErr α → Prop}
    (hp : Within AnyTime p) (hQ : ∀ l' r, l <+: l' → SameSince l l' →
      (∃ acts, Ends p.run acts r) → Q l' r) :
    Follows (ImportCall env accountId newID payload) Q p l := by
  refine follows_of_only hp (fun _ _ _ ho => ho.allowed) fun l' r hends => ?_
  exact hQ _ _ (List.prefix_append _ _) (sameSince_append (within_path hp hends)) ⟨l', hends⟩

/-- What an import of a profile may have done with the settings before the insertion. -/
structure Mapped (l : Acts) (pid : String) (s : ProfileSettings) : Prop where
  settingsId : s.profileId = pid
  noRules : s.customRules = []
  statistics : ImportedStatistics l s.statistics

theorem mapSections_same (src : ExportedSettings) (s : ProfileSettings) :
    (mapSections src s).profileId = s.profileId ∧ (mapSections src s).customRules = s.customRules ∧
      (mapSections src s).statistics = s.statistics := by
  unfold mapSections
  cases src.privacy <;> cases src.security.bind (·.dnssec) <;>
    cases src.security.bind (·.rebindingProtection) <;>
    cases src.logs <;> exact ⟨rfl, rfl, rfl⟩

/-- The calls that look something up in a catalog. -/
def Lookup : ProfileOp → Prop
  | .getBlocklist _ | .getServices => True
  | _ => False

theorem Lookup.anyTime {o : ProfileOp} (h : Lookup o) : AnyTime o := by
  cases o with
  | getBlocklist filter => trivial
  | getServices => trivial
  | _ => exact h.elim

theorem within_filterCatalogRefs (ids : List String) : Within Lookup (filterCatalogRefs ids) := by
  induction ids with
  | nil => exact within_pure
  | cons id ids ih =>
    refine within_bind (within_attempt (within_act trivial)) fun results =>
      within_bind ih fun rest => ?_
    exact within_pure

theorem within_importRefs (ep : ExportedProfile) (settings : ProfileSettings) :
    Within Lookup (importRefs ep settings) := by
  unfold importRefs
  cases ep.settings.bind (·.privacy) with
  | none => exact within_pure
  | some privacy =>
    refine within_bind (within_filterCatalogRefs _) fun blocklists =>
      within_bind ?_ fun services => within_pure
    refine within_bind (within_attempt (within_act trivial)) fun cat => ?_
    split <;> exact within_pure

/-- The references are all that `importRefs` changes. -/
theorem ends_importRefs {ep : ExportedProfile} {s s' : ProfileSettings}
    {w : List ImportWarning} {acts : Acts} (h : Ends (importRefs ep s).run acts (.ok (s', w))) :
    s'.profileId = s.profileId ∧ s'.customRules = s.customRules ∧ s'.statistics = s.statistics := by
  unfold importRefs at h
  cases hprivacy : ep.settings.bind (·.privacy) with
  | none =>
    rw [hprivacy] at h
    obtain ⟨-, heq⟩ := ends_flow_pure h
    cases heq
    exact ⟨rfl, rfl, rfl⟩
  | some privacy =>
    rw [hprivacy] at h
    obtain ⟨l₁, l₂, b, rfl, -, hnext⟩ := ends_flow_bind_ok h
    obtain ⟨l₃, l₄, c, rfl, -, hend⟩ := ends_flow_bind_ok hnext
    obtain ⟨-, heq⟩ := ends_flow_pure hend
    cases heq
    exact ⟨rfl, rfl, rfl⟩

theorem within_settingsCache (settings : ProfileSettings) :
    Within AnyTime (createOrUpdateProfileSettings settings) :=
  within_bind (within_act trivial) fun _ => within_pipeline fun _ _ => trivial

theorem lastNow_now (t : ℕ) : lastNow (l ++ [⟨.now, .ok t⟩]) = some t := by
  rw [lastNow_append]
  rfl

/-- What is as it was, apart from the clock. -/
structure SameBut (l l' : Acts) : Prop where
  inserted : inserted l' = inserted l
  lastListing : lastListing l' = lastListing l
  rulesAdded : rulesAdded l' = rulesAdded l

theorem sameBut_now (r : Except ServiceErr ℕ) : SameBut l (l ++ [⟨.now, r⟩]) := by
  refine ⟨?_, ?_, ?_⟩
  · rw [inserted_append]
    exact List.append_nil _
  · rw [lastListing_append]
    rfl
  · rw [rulesAdded_append]
    rfl

theorem follows_importedStatistics (src : Option Bool) :
    Follows (ImportCall env accountId newID payload)
      (fun l' r => SameBut l l' ∧ ∀ s, r = .ok s → ImportedStatistics l' s)
      (importedStatistics newSettings.statistics src) l := by
  have hpure : ∀ s : StatisticsSettings, s = newSettings.statistics →
      Follows (ImportCall env accountId newID payload)
        (fun l' r => SameBut l l' ∧ ∀ s, r = .ok s → ImportedStatistics l' s)
        (pure s) l := by
    rintro s rfl
    refine follows_pure ⟨⟨rfl, rfl, rfl⟩, fun s hs => ?_⟩
    cases hs
    exact .inl rfl
  match src with
  | none => exact hpure _ rfl
  | some false => exact hpure _ rfl
  | some true =>
    refine follows_act_bind trivial (fun e => ⟨sameBut_now _, fun s hs => nomatch hs⟩) fun t => ?_
    refine follows_pure ⟨sameBut_now _, fun s hs => ?_⟩
    cases hs
    exact .inr ⟨t, lastNow_now t, rfl⟩

/-- The settings of a payload, with the readings of the clock. -/
theorem follows_mapExportedSettings (src : Option ExportedSettings) (pid : String) :
    Follows (ImportCall env accountId newID payload)
      (fun l' r => SameBut l l' ∧ ∀ s, r = .ok s → Mapped l' pid s)
      (mapExportedSettings src pid) l := by
  cases src with
  | none =>
    unfold mapExportedSettings
    refine follows_pure ⟨⟨rfl, rfl, rfl⟩, fun s hs => ?_⟩
    cases hs
    exact ⟨rfl, rfl, .inl rfl⟩
  | some src =>
    obtain ⟨hid, hrules, hstats⟩ := mapSections_same src { newSettings with profileId := pid }
    have hmapped : ∀ mapped : ProfileSettings, mapped.profileId = pid → mapped.customRules = [] →
        mapped.statistics = newSettings.statistics →
        Follows (ImportCall env accountId newID payload)
        (fun l' r => SameBut l l' ∧ ∀ s, r = .ok s → Mapped l' pid s)
          (importedStatistics mapped.statistics src.statistics >>= fun statistics =>
            pure { mapped with
                   statistics
                   customRuleGroups := src.customRuleGroups.getD mapped.customRuleGroups }) l := by
      intro mapped hid hrules hstats
      rw [hstats]
      refine follows_bind (follows_importedStatistics src.statistics) ?_ ?_
      · intro l' e _ h
        exact ⟨h.1, fun s hs => nomatch hs⟩
      · intro l' s _ h
        apply follows_pure
        refine ⟨h.1, fun s' hs => ?_⟩
        cases hs
        exact ⟨hid, hrules, h.2 s rfl⟩
    exact hmapped (mapSections src { newSettings with profileId := pid }) hid hrules hstats

/-- The lists of an import after it has inserted a profile. -/
structure Imported (l l' : Acts) (name pid : String) (ep : ExportedProfile) : Prop where
  inserted : ∃ p, inserted l' = inserted l ++ [p] ∧ p.profileId = pid ∧ p.name = name ∧
    (⟨.createProfile p, .ok ()⟩ : profileCalls.sig.Act) ∈ l'
  lastListing : lastListing l' = lastListing l
  rulesAdded : rulesAdded l' ≤ rulesAdded l + (rulesOf ep).length

theorem SameBut.listed {l' : Acts} {existing : List Profile} (h : SameBut l l')
    (hl : Listed env payload l existing) :
    Listed env payload l' existing := by
  unfold Listed
  rw [h.lastListing]
  exact hl

theorem SameBut.takenNames {l' : Acts} (h : SameBut l l') (env : ServiceEnv)
    (existing : List Profile) :
    takenNames env existing l' = takenNames env existing l := by
  unfold Profiles.takenNames
  rw [h.inserted]

theorem SameSince.sameBut {l' : Acts} (h : SameSince l l') : SameBut l l' :=
  ⟨h.inserted, h.lastListing, h.rulesAdded⟩

theorem SameBut.trans {l' l'' : Acts} (h : SameBut l l') (h' : SameBut l' l'') : SameBut l l'' :=
  ⟨h'.inserted.trans h.inserted, h'.lastListing.trans h.lastListing,
    h'.rulesAdded.trans h.rulesAdded⟩

/-- The writes for a profile whose insertion is allowed, as are its rules once it is inserted. -/
theorem follows_writeImported {p : Profile} {rules : List CustomRule}
    (hinsert : ImportCall env accountId newID payload l (.createProfile p))
    (hrules : rules ≠ [] → ∀ l₂, (∀ x ∈ l₂, AnyTime x.1) → ImportCall env accountId newID payload
      (l ++ ⟨.createProfile p, .ok ()⟩ :: l₂) (.edit p.profileId (.createCustomRules rules))) :
    Follows (ImportCall env accountId newID payload)
      (fun l' r => r = .ok () → inserted l' = inserted l ++ [p] ∧ lastListing l' = lastListing l ∧
        rulesAdded l' = rulesAdded l + rules.length ∧
          (⟨.createProfile p, .ok ()⟩ : profileCalls.sig.Act) ∈ l')
      (writeImported p rules) l := by
  unfold writeImported
  refine follows_act_bind hinsert (fun e h => nomatch h) fun u => ?_
  have hcreated : lastListing (l ++ [⟨.createProfile p, .ok u⟩]) = lastListing l ∧
      rulesAdded (l ++ [⟨.createProfile p, .ok u⟩]) = rulesAdded l := by
    constructor
    · rw [lastListing_append]
      rfl
    · rw [rulesAdded_append]
      rfl
  -- the settings go to Redis before the rules are created
  have hsettings : Follows (ImportCall env accountId newID payload)
      (fun l' _ => ∃ l₂, l' = l ++ ⟨.createProfile p, .ok u⟩ :: l₂ ∧ ∀ x ∈ l₂, AnyTime x.1)
      (createOrUpdateProfileSettings p.settings) (l ++ [⟨.createProfile p, .ok u⟩]) := by
    refine follows_within (within_settingsCache p.settings) (fun _ _ _ ho => ho.allowed)
      fun l₂ _ hl₂ _ => ⟨l₂, ?_, hl₂⟩
    rw [List.append_assoc, List.singleton_append]
  refine follows_bind hsettings (fun l' e _ _ h => nomatch h) ?_
  rintro l₁ _ hl₁ ⟨l₂, hl₁₂, hany⟩
  have hsame : SameSince (l ++ [⟨.createProfile p, .ok u⟩]) l₁ := by
    rw [hl₁₂, show l ++ ⟨.createProfile p, .ok u⟩ :: l₂ = l ++
      [⟨.createProfile p, .ok u⟩] ++ l₂ by simp]
    exact sameSince_append hany
  have hbut := hsame.sameBut
  have hmem : (⟨.createProfile p, .ok u⟩ : profileCalls.sig.Act) ∈ l₁ :=
    hl₁.subset (List.mem_append_right _ (List.mem_singleton_self _))
  have hinserted : inserted l₁ = inserted l ++ [p] := by
    rw [hbut.inserted, inserted_append]
    rfl
  have hlisting : lastListing l₁ = lastListing l := by rw [hbut.lastListing, hcreated.1]
  have hadded : rulesAdded l₁ = rulesAdded l := by rw [hbut.rulesAdded, hcreated.2]
  -- a profile without rules ends here
  split
  · next hnil =>
    refine follows_pure fun _ => ⟨hinserted, hlisting, ?_, hmem⟩
    rw [hnil, hadded]
    rfl
  · next hne =>
    refine follows_act_bind ?_ (fun e h => nomatch h) fun n => ?_
    · rw [hl₁₂]
      exact hrules hne l₂ hany
    refine follows_anyTime (within_pipeline fun cmd _ => trivial) fun l' r hl' hsame' _ _ => ?_
    have hbut' := hsame'.sameBut
    refine ⟨?_, ?_, ?_, hl'.subset (List.mem_append_left _ hmem)⟩
    · rw [hbut'.inserted, inserted_append, hinserted]
      exact List.append_nil _
    · rw [hbut'.lastListing, lastListing_append, hlisting]
      rfl
    · rw [hbut'.rulesAdded, rulesAdded_append, hadded]
      rfl

/-- One profile of the payload: `hchecked` is what has been checked for its name. -/
theorem follows_importOneProfile {ep : ExportedProfile} {k : ℕ} {resolved : String}
    {existing : List Profile} (hep : payload.profiles[k]? = some ep) (hk : (inserted l).length = k)
    (hlisted : Listed env payload l existing)
    (hchecked : normalizeName env resolved ∉ takenNames env existing l ∨
      LastResort env (takenNames env existing l) (normalizeName env resolved))
    (hfits : rulesAdded l + (rulesOf ep).length ≤ incomingRules payload) :
    Follows (ImportCall env accountId newID payload)
      (fun l' r => ∀ x, r = .ok x → Imported l l' (normalizeName env resolved) x.1 ep)
      (importOneProfile env decode accountId (newID k) ep resolved) l := by
  unfold importOneProfile
  refine follows_act_bind trivial (fun e x hx => nomatch hx) fun pid => ?_
  have hgen : SameBut l (l ++ [⟨.generate, .ok pid⟩]) := by
    refine (sameSince_append ?_).sameBut
    intro x hx
    rw [List.mem_singleton.1 hx]
    trivial
  -- the settings and the references are mapped before anything is inserted
  refine follows_bind (follows_mapExportedSettings ep.settings pid)
    (fun l' e _ _ x hx => nomatch hx) ?_
  intro l₁ s hl₁ hmapped
  have hs := hmapped.2 s rfl
  refine follows_bind
    (follows_anyTime (within_mono (fun _ => Lookup.anyTime) (within_importRefs ep s))
      fun l' r hl' hsame hends => And.intro hsame hends)
    (fun l' e _ _ x hx => nomatch hx) ?_
  rintro l₂ ⟨s₂, refWarnings⟩ hl₂ ⟨hsame₂, acts, hends⟩
  obtain ⟨hid, hnoRules, hstats⟩ := ends_importRefs hends
  have hbut : SameBut l l₂ := hgen.trans (hmapped.1.trans hsame₂.sameBut)
  -- so the names taken are those the name was checked against
  have htaken := hbut.takenNames env existing
  have hrules : (validateAndMapRules env.tags decode (newID k) resolved (rulesOf ep)).1 =
      acceptedRules env.tags (newID k) (rulesOf ep) := validateAndMapRules_fst
  have hlength : (validateAndMapRules env.tags decode (newID k) resolved (rulesOf ep)).1.length ≤
      (rulesOf ep).length := by
    rw [hrules]
    exact valid_rules.length
  have hplace : k < payload.profiles.length := (List.getElem?_eq_some_iff.1 hep).1
  -- the insertion, then the rules, then what the call has added
  refine follows_bind (follows_writeImported ?_ ?_) (fun l' e _ _ x hx => nomatch hx) ?_
  · refine ⟨hl₂.subset (hl₁.subset (List.mem_append_right _ (List.mem_singleton_self _))), rfl, ?_,
      ?_, ?_, ?_, ?_⟩
    · exact hnoRules.trans hs.noRules
    · exact hid.trans hs.settingsId
    · have hclock : lastNow l₂ = lastNow l₁ := hsame₂.lastNow
      unfold ImportedStatistics
      rw [hclock]
      dsimp only
      rw [hstats]
      exact hs.statistics
    · rw [hbut.inserted, hk]
      exact hplace
    · exact ⟨existing, hbut.listed hlisted, resolved, rfl, htaken.symm ▸ hchecked⟩
  · intro hne l₃ hany
    have hbut₃ : ∀ l' : Acts, SameBut l' (l' ++ l₃) := fun l' => (sameSince_append hany).sameBut
    refine ⟨⟨_, _, l₃, rfl, rfl, hany⟩, hne, ⟨k, ep, ?_, hep, hrules⟩, ?_, existing, ?_⟩
    all_goals rw [List.append_cons]
    · rw [(hbut₃ _).inserted, inserted_append, hbut.inserted, List.length_append, hk]
      rfl
    · rw [(hbut₃ _).rulesAdded, rulesAdded_append, hbut.rulesAdded]
      exact (Nat.add_le_add_left hlength _).trans hfits
    · refine ⟨?_, hlisted.2⟩
      rw [(hbut₃ _).lastListing, lastListing_append, hbut.lastListing]
      exact hlisted.1
  · intro l₃ _ hl₃ hwritten
    obtain ⟨hinserted, hlisting, hadded, hmem⟩ := hwritten rfl
    refine follows_pure fun x hx => ?_
    cases hx
    refine ⟨⟨_, ?_, rfl, rfl, hmem⟩, ?_, ?_⟩
    · rw [hinserted, hbut.inserted]
    · rw [hlisting, hbut.lastListing]
    · rw [hadded, hbut.rulesAdded]
      exact Nat.add_le_add_left hlength _

theorem within_deleteSettings (pid : String) : Within AnyTime (deleteProfileSettings pid) := by
  refine within_bind (within_act trivial) fun _ => within_bind (within_act trivial) fun ids => ?_
  refine within_bind ?_ fun _ => within_act trivial
  induction ids with
  | nil => exact within_pure
  | cons id ids ih => exact within_bind (within_act trivial) fun _ => ih

/-- The rollback deletes profiles that the import has inserted. -/
theorem follows_rollback {pids : List String}
    (h : ∀ pid ∈ pids, ∃ p, (⟨.createProfile p, .ok ()⟩ : profileCalls.sig.Act) ∈ l ∧
      p.profileId = pid) :
    Follows (ImportCall env accountId newID payload) (fun _ _ => True)
    (rollbackImportedProfiles pids) l := by
  induction pids generalizing l with
  | nil => exact follows_pure trivial
  | cons pid pids ih =>
    obtain ⟨hpid, hpids⟩ := List.forall_mem_cons.1 h
    have hgrows : ∀ {l' l'' : Acts} {pid : String}, l' <+: l'' →
        (∃ p, (⟨.createProfile p, .ok ()⟩ : profileCalls.sig.Act) ∈ l' ∧ p.profileId = pid) →
        ∃ p, (⟨.createProfile p, .ok ()⟩ : profileCalls.sig.Act) ∈ l'' ∧ p.profileId = pid := by
      rintro l' l'' pid hl ⟨p, hp, heq⟩
      exact ⟨p, hl.subset hp, heq⟩
    refine follows_attempt_act_bind hpid fun r => ?_
    refine follows_attempt_bind (follows_anyTime (within_deleteSettings pid) fun l' r hl' _ _ =>
      hl') fun l' r hl' _ => ?_
    refine ih fun pid' hpid' => hgrows hl' (hgrows (List.prefix_append _ _) (hpids pid' hpid'))

/-- The name that an import takes is free, or the last resort. -/
theorem follows_resolveImportName {original : String} {taken : List String}
    {existing : List Profile} (htaken : ∀ n, n ∈ taken ↔ n ∈ takenNames env existing l) :
    Follows (ImportCall env accountId newID payload)
      (fun l' r => SameBut l l' ∧ ∀ x, r = .ok x →
        normalizeName env x.1 ∉ takenNames env existing l' ∨
        LastResort env (takenNames env existing l') (normalizeName env x.1))
      (resolveImportName env original taken) l := by
  have hfree : ∀ {name : String} {w : List ImportWarning}, normalizeName env name ∉ taken →
      Follows (ImportCall env accountId newID payload)
        (fun l' r => SameBut l l' ∧ ∀ x, r = .ok x →
          normalizeName env x.1 ∉ takenNames env existing l' ∨
          LastResort env (takenNames env existing l') (normalizeName env x.1))
        (pure (name, w)) l := by
    intro name w hname
    refine follows_pure ⟨⟨rfl, rfl, rfl⟩, fun x hx => ?_⟩
    cases hx
    exact .inl fun hmem => hname ((htaken _).2 hmem)
  unfold resolveImportName
  dsimp only
  split
  · next h => exact hfree (of_decide_eq_true h)
  split
  · next h => exact hfree (of_decide_eq_true h)
  split
  · next n hn =>
    have hn' := List.find?_some hn
    exact hfree (of_decide_eq_true hn')
  · next hnone =>
    refine follows_act_bind trivial (fun e => ⟨sameBut_now _, fun x hx => nomatch hx⟩) fun t => ?_
    have hsame := sameBut_now (l := l) (.ok t)
    refine follows_pure ⟨hsame, fun x hx => ?_⟩
    cases hx
    refine .inr ⟨original, t, rfl, fun n hn => ?_⟩
    have hused : normalizeName env (fitNameWithSuffix original
        (importedSuffix n) maxProfileNameLen) ∈ taken := by
      have hnot := List.find?_eq_none.1 hnone n hn
      simpa using hnot
    exact (congrArg (_ ∈ ·) (hsame.takenNames env existing)).mpr ((htaken _).1 hused)

/-- What holds between two profiles of the payload: the first `k` of them have been inserted. -/
structure Progress (env : ServiceEnv) (payload : ExportEnvelope) (existing : List Profile) (k : ℕ)
    (taken : List String) (res : ImportResult) (l : Acts) : Prop where
  listed : Listed env payload l existing
  count : (inserted l).length = k
  le : k ≤ payload.profiles.length
  stored : ∀ p ∈ inserted l, (⟨.createProfile p, .ok ()⟩ : profileCalls.sig.Act) ∈ l
  taken : ∀ n, n ∈ taken ↔ n ∈ takenNames env existing l
  ids : res.createdProfileIds = (inserted l).map (·.profileId)
  names : res.createdProfileNames = (inserted l).map (·.name)
  rules : rulesAdded l ≤ ((payload.profiles.take k).map fun ep => (rulesOf ep).length).sum

theorem Progress.sameBut {existing : List Profile} {k : ℕ} {taken : List String}
    {res : ImportResult} {l' : Acts} (h : Progress env payload existing k taken res l)
    (hl : l <+: l') (hsame : SameBut l l') :
    Progress env payload existing k taken res l' where
  listed := hsame.listed h.listed
  count := by rw [hsame.inserted, h.count]
  le := h.le
  stored := fun p hp => hl.subset (h.stored p (hsame.inserted ▸ hp))
  taken := fun n => by rw [h.taken, hsame.takenNames]
  ids := by rw [hsame.inserted, h.ids]
  names := by rw [hsame.inserted, h.names]
  rules := hsame.rulesAdded ▸ h.rules

/-- The next profile has been inserted. -/
theorem Progress.next {existing : List Profile} {k : ℕ} {taken : List String} {res : ImportResult}
    {l' : Acts} {name pid : String} {ep : ExportedProfile} {w : List ImportWarning}
    (h : Progress env payload existing k taken res l) (hl : l <+: l')
    (hep : payload.profiles[k]? = some ep) (himported : Imported l l' name pid ep) :
    Progress env payload existing (k + 1) (name :: taken)
      ⟨res.createdProfileIds ++ [pid], res.createdProfileNames ++ [name], w⟩ l' := by
  obtain ⟨p, hinserted, rfl, rfl, hmem⟩ := himported.inserted
  refine ⟨?_, ?_, (List.getElem?_eq_some_iff.1 hep).1, ?_, ?_, ?_, ?_, ?_⟩
  · unfold Listed
    rw [himported.lastListing]
    exact h.listed
  · rw [hinserted, List.length_append, h.count]
    rfl
  · intro q hq
    rw [hinserted] at hq
    rcases List.mem_append.1 hq with hq | hq
    · exact hl.subset (h.stored q hq)
    · rw [List.mem_singleton.1 hq]
      exact hmem
  · intro n
    unfold takenNames
    rw [hinserted, List.map_append, ← List.append_assoc, List.mem_append, List.mem_cons,
      h.taken, or_comm]
    unfold takenNames
    rw [List.map_singleton, List.mem_singleton]
  · rw [hinserted, List.map_append, h.ids]
    rfl
  · rw [hinserted, List.map_append, h.names]
    rfl
  · have htake : payload.profiles.take (k + 1) = payload.profiles.take k ++ [ep] := by
      rw [List.take_add_one, hep]
      rfl
    rw [htake, List.map_append, List.sum_append]
    have hadded := himported.rulesAdded
    have hrules := h.rules
    simp only [List.map_cons, List.map_nil, List.sum_cons, List.sum_nil]
    omega

/-- There is room for the rules of the next profile. -/
theorem Progress.fits {existing : List Profile} {k : ℕ} {taken : List String} {res : ImportResult}
    {ep : ExportedProfile} (h : Progress env payload existing k taken res l)
    (hep : payload.profiles[k]? = some ep) :
    rulesAdded l + (rulesOf ep).length ≤ incomingRules payload := by
  have hsplit : incomingRules payload =
    ((payload.profiles.take k).map fun ep => (rulesOf ep).length).sum +
      ((payload.profiles.drop k).map fun ep => (rulesOf ep).length).sum := by
    rw [← List.sum_append, ← List.map_append, List.take_append_drop]
    rfl
  have hnext : (rulesOf ep).length ≤
      ((payload.profiles.drop k).map fun ep => (rulesOf ep).length).sum := by
    rw [List.drop_eq_getElem_cons (List.getElem?_eq_some_iff.1 hep).1,
      (List.getElem?_eq_some_iff.1 hep).2, List.map_cons,
      List.sum_cons]
    omega
  have hrules := h.rules
  omega

/-- **The loop**: every profile of the payload, or an error. -/
theorem follows_importLoop {existing : List Profile} {eps : List ExportedProfile} {k : ℕ}
    {taken : List String} {res : ImportResult} (heps : payload.profiles.drop k = eps)
    (h : Progress env payload existing k taken res l) :
    Follows (ImportCall env accountId newID payload)
      (fun l' r => ∀ res', r = .ok res' → ∃ taken',
        Progress env payload existing payload.profiles.length taken' res' l')
      (importLoop env decode accountId newID eps k taken res) l := by
  induction eps generalizing k taken res l with
  | nil =>
    refine follows_pure fun res' hres => ?_
    cases hres
    obtain rfl : k = payload.profiles.length := le_antisymm h.le (List.drop_eq_nil_iff.1 heps)
    exact ⟨taken, h⟩
  | cons ep eps ih =>
    have hep : payload.profiles[k]? = some ep := by
      rw [← List.head?_drop, heps]
      rfl
    have hdrop : payload.profiles.drop (k + 1) = eps := by
      rw [← List.tail_drop, heps]
      rfl
    unfold importLoop
    refine follows_bind (follows_resolveImportName h.taken)
      (fun l' e _ _ res' hres => nomatch hres) ?_
    rintro l₁ ⟨resolved, renameWarnings⟩ hl₁ ⟨hsame, hchecked⟩
    have h₁ := h.sameBut hl₁ hsame
    -- the name is checked against those taken so far
    have hname := hchecked (resolved, renameWarnings) rfl
    have hone : Follows (ImportCall env accountId newID payload)
        (fun l' r => ∀ x, r = .ok x → Imported l₁ l' (normalizeName env resolved) x.1 ep)
        (importOneProfile env decode accountId (newID k) ep resolved) l₁ :=
      follows_importOneProfile hep h₁.count h₁.listed hname (h₁.fits hep)
    refine follows_attempt_bind hone ?_
    rintro l₂ (e | ⟨pid, profileWarnings⟩) hl₂ hcreated
    -- a failure rolls back the profiles inserted before it
    · refine follows_bind (follows_rollback ?_) ?_ fun l' _ _ _ => ?_
      · intro pid hpid
        rw [h₁.ids] at hpid
        obtain ⟨p, hp, rfl⟩ := List.mem_map.1 hpid
        exact ⟨p, hl₂.subset (h₁.stored p hp), rfl⟩
      · intro l' e' _ _ res' hres
        cases hres
      · apply follows_throw
        intro res' hres
        cases hres
    · exact ih hdrop (h₁.next hl₂ hep (hcreated _ rfl))

/-- **An import**: it makes the calls of `ImportCall`, and ends without an error when it has
inserted every profile. -/
theorem follows_importProfiles (mode : String) :
    Follows (ImportCall env accountId newID payload)
      (fun l r => ∀ res, r = .ok res → ∃ existing taken,
        Progress env payload existing payload.profiles.length taken res l)
      (importProfiles env decode accountId newID mode payload) [] := by
  have herr : ∀ {e : ServiceErr} {l : Acts} {res : ImportResult},
    (Except.error e : Except ServiceErr ImportResult) = .ok res →
      ∃ existing taken, Progress env payload existing payload.profiles.length taken res l :=
        fun h => nomatch h
  unfold importProfiles
  refine follows_ensure_bind (fun _ res h => herr h) fun _ => ?_
  refine follows_ensure_bind (fun _ res h => herr h) fun _ => ?_
  refine follows_ensure_bind (fun _ res h => herr h) fun _ => ?_
  refine follows_ensure_bind (fun _ res h => herr h) fun _ => ?_
  refine follows_act_bind ⟨rfl, rfl⟩ (fun e res h => herr h) fun existing => ?_
  refine follows_ensure_bind (fun _ res h => herr h) fun hroom => ?_
  refine follows_ensure_bind (fun _ res h => herr h) fun hcap => ?_
  refine follows_act_bind trivial (fun e res h => herr h) fun now => ?_
  have hstart : ∀ stale : List ImportWarning, Progress env payload existing 0
    (existing.map fun p => normalizeName env p.name)
      ⟨[], [], stale⟩ ([] ++ [⟨.getProfilesByAccountId accountId, .ok existing⟩] ++
        [⟨.now, .ok now⟩]) := by
    intro stale
    refine ⟨⟨rfl, hroom, hcap⟩, rfl, Nat.zero_le _, List.forall_mem_nil _, fun n => ?_, rfl, rfl,
      Nat.zero_le _⟩
    unfold takenNames
    rw [show inserted _ = [] from rfl, List.map_nil, List.append_nil]
  refine follows_mono (follows_importLoop rfl (hstart _)) fun l' r _ hend res hres => ?_
  exact ⟨existing, hend res hres⟩

end Follows

end ModDNS.Profiles
