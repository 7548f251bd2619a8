import ModDNS.Profiles.Export
import ModDNS.Profiles.MirrorRuns

/-!
# Exports that are imported

An import of an export copies the profiles, for the same account or another one, in the same stores
or others.

* `lands_exportProfiles`, `lands_importProfiles`: what one of them does when no call fails.
* `export_import`: the copies.
-/

namespace ModDNS.Profiles

open Conc Go Rules

section Exporting

/-! ### The profiles of an envelope -/

variable {ι : Type} {i : ι} {env : ServiceEnv} {accountId scope : String} {profileIds : List String}
  {s₀ : Stores}

/-- The profiles that an export asks for: all of the account, or those with the ids of the
request. -/
def Selected (s : Stores) (accountId scope : String) (profileIds : List String)
    (profiles : List Profile) : Prop :=
  scope = exportScopeAll ∧ profiles = s.profiles.filter (·.accountId = accountId) ∨
    scope = exportScopeSelected ∧
      List.Forall₂ (fun id p => s.find id = some p ∧ p.accountId = accountId) profileIds profiles

theorem lands_listing {I P : Stores → Prop} :
    Lands workingHandler i I P (call (.getProfilesByAccountId accountId))
      fun (profiles : List Profile) s =>
        P s ∧ profiles = s.profiles.filter (·.accountId = accountId) := by
  refine lands_sure trivial fun s profiles h hgives => ⟨h, ?_⟩
  obtain ⟨c, hc, -⟩ := hgives
  cases c <;> cases hc
  rfl

theorem lands_now {I P : Stores → Prop} :
    Lands workingHandler i I P (call .now) fun (_ : ℕ) s => P s :=
  lands_sure (o := .now) trivial fun _ _ h _ => h

theorem lands_ownedProfiles :
    Lands workingHandler i (fun s => s = s₀) (fun s => s = s₀) (ownedProfiles accountId profileIds)
      fun profiles s => s = s₀ ∧
      List.Forall₂ (fun id p => s₀.find id = some p ∧ p.accountId = accountId) profileIds
      profiles := by
  induction profileIds with
  | nil => exact lands_pure fun s h => ⟨h, .nil⟩
  | cons id ids ih =>
    have hvalidate : Lands workingHandler i (fun s => s = s₀) (fun s => s = s₀)
      (validateProfileIdAffiliation accountId id)
        fun p s => s = s₀ ∧ s₀.find id = some p ∧ p.accountId = accountId := by
      refine lands_bind (lands_read (fun _ => rfl) fun s h => h) fun p => ?_
      refine lands_ensure_bind (fun s h => h.1) fun haccount => lands_pure ?_
      rintro s ⟨rfl, hgives⟩
      exact ⟨rfl, gives_find hgives, haccount⟩
    refine lands_bind hvalidate fun p => lands_known fun hp => lands_bind ih fun profiles => ?_
    exact lands_pure fun s h => ⟨h.1, .cons hp h.2⟩

/-- What an export answers. -/
def Exported (s : Stores) (accountId scope : String) (profileIds : List String)
    (envelope : ExportEnvelope) : Prop :=
  envelope.schemaVersion = 1 ∧ envelope.kind = exportKind ∧
    ∃ profiles, Selected s accountId scope profileIds profiles ∧
      envelope.profiles = profiles.map exportProfile

/-- **An export** leaves the stores, and its envelope holds the profiles that were asked for. -/
theorem lands_exportProfiles :
    Lands workingHandler i (fun s => s = s₀) (fun s => s = s₀)
      (exportProfiles env accountId scope profileIds)
      fun r s =>
      s = s₀ ∧ ∀ envelope, r = .ok envelope → Exported s₀ accountId scope profileIds envelope := by
  have hchosen : Lands workingHandler i (fun s => s = s₀) (fun s => s = s₀)
      (enumerateExportProfiles env accountId scope profileIds) fun r s => s = s₀ ∧
        ∀ profiles, r = .ok profiles → Selected s₀ accountId scope profileIds profiles := by
    unfold enumerateExportProfiles
    refine lands_ite (fun hall => ?_) fun _ =>
      lands_ite (fun hselected => lands_ite (fun _ => ?_) fun _ => ?_) fun _ => ?_
    · refine lands_bind lands_listing fun profiles => lands_pure ?_
      rintro s ⟨rfl, rfl⟩
      refine ⟨rfl, fun profiles heq => .inl ⟨hall, ?_⟩⟩
      cases heq
      rfl
    · exact lands_pure fun s h => ⟨h, fun profiles heq => nomatch heq⟩
    · refine lands_bind lands_ownedProfiles fun profiles => lands_pure fun s h =>
        ⟨h.1, fun profiles' heq => ?_⟩
      cases heq
      exact .inr ⟨hselected, h.2⟩
    · exact lands_pure fun s h => ⟨h, fun profiles heq => nomatch heq⟩
  unfold exportProfiles
  refine lands_bind hchosen fun chosen => ?_
  cases chosen with
  | error e => exact lands_pure fun s h => ⟨h.1, fun envelope heq => nomatch heq⟩
  | ok profiles =>
    refine lands_bind lands_now fun now => lands_pure fun s h => ⟨h.1, fun envelope heq => ?_⟩
    cases heq
    exact ⟨rfl, rfl, profiles, h.2 profiles rfl, rfl⟩

end Exporting

section Importing

/-! ### One profile of a payload -/

variable {ι : Type} {i : ι} {env : ServiceEnv} {decode : String → Option String}
  {accountId pid : String} {base : Stores} {docs : List Profile}

/-- The documents are these, and the catalogs are those of `base`. -/
structure At (base : Stores) (docs : List Profile) (s : Stores) : Prop where
  profiles : s.profiles = docs
  blocklists : s.blocklists = base.blocklists
  services : s.services = base.services

/-- The blocklist is in the catalog. -/
def Stores.knowsBlocklist (s : Stores) (id : String) : Bool := s.blocklists.any (·.id = id)

/-- The service is in the catalog, or no catalog is there. -/
def Stores.knowsService (s : Stores) (id : String) : Bool :=
  match s.services with
  | none => true
  | some cat => (cat.findByID id).isSome

theorem lands_filterCatalogRefs (ids : List String) :
    Lands workingHandler i (fun _ => False) (At base docs) (filterCatalogRefs ids)
      fun r s => At base docs s ∧ r.1 = ids.filter base.knowsBlocklist := by
  induction ids with
  | nil => exact lands_pure fun s h => ⟨h, rfl⟩
  | cons id ids ih =>
    have hlookup : Triple workingHandler i (At base docs)
      (call (.getBlocklist (.blocklistID id))) fun r s =>
        ∃ results : List String, r = .ok results ∧ At base docs s ∧
          (!results.isEmpty) = base.knowsBlocklist id := by
      refine triple_sure trivial fun s results h hgives => ⟨h, ?_⟩
      obtain ⟨c, hc, -⟩ := hgives
      have hresults : results = (base.blocklists.filter (·.id = id)).map (·.id) := by
        rw [← h.blocklists]
        cases c <;> cases hc
        rfl
      unfold Stores.knowsBlocklist
      rw [hresults, Bool.eq_iff_iff]
      simp [List.filter_eq_nil_iff]
    refine lands_attempt_bind hlookup fun r => ?_
    rintro s l r' s' ⟨results, rfl, hat, hknown⟩ hexec
    refine (lands_bind ih fun rest => ?_ : Lands workingHandler i (fun _ => False) (At base docs) _
      fun r s => At base docs s ∧ r.1 = (id :: ids).filter base.knowsBlocklist) s l r' s' hat hexec
    refine lands_pure fun s h => ⟨h.1, ?_⟩
    show (if (!results.isEmpty) then _ else _ : List String × List ImportWarning).1 = _
    rw [hknown, List.filter_cons, ← h.2]
    cases base.knowsBlocklist id <;> rfl

theorem lands_filterServiceRefs (ids : List String) :
    Lands workingHandler i (fun _ => False) (At base docs) (filterServiceRefs ids)
      fun r s => At base docs s ∧ r.1 = ids.filter base.knowsService := by
  have hcat : Triple workingHandler i (At base docs) (call .getServices) fun r s =>
      ∃ cat : Option Libs.Catalog, r = .ok cat ∧ At base docs s ∧ cat = base.services := by
    refine triple_sure (o := .getServices) trivial fun s cat h hgives => ⟨h, ?_⟩
    obtain ⟨c, hc, -⟩ := hgives
    rw [← h.services]
    cases c <;> cases hc
    rfl
  refine lands_attempt_bind hcat fun r => ?_
  rintro s l r' s' ⟨cat, rfl, hat, rfl⟩ hexec
  have hfilter : ∀ id, base.knowsService id = match base.services with
      | none => true
      | some cat => (cat.findByID id).isSome := fun _ => rfl
  cases hservices : base.services with
  | none =>
    rw [hservices] at hexec
    obtain ⟨-, rfl, rfl⟩ := hexec
    refine ⟨hat, (List.filter_eq_self.2 fun id _ => ?_).symm⟩
    rw [hfilter, hservices]
  | some cat =>
    rw [hservices] at hexec
    obtain ⟨-, rfl, rfl⟩ := hexec
    refine ⟨hat, List.filter_congr fun id _ => ?_⟩
    rw [hfilter, hservices]

/-- Without settings a payload is read as one without sections. -/
theorem importOneProfile_none {newID : ℕ → RuleID} {name resolved : String} :
    importOneProfile env decode accountId newID ⟨name, none⟩ resolved =
      importOneProfile env decode accountId newID ⟨name, some {}⟩ resolved := rfl

theorem mapSections_new (src : ExportedSettings) (pid : String) :
    (mapSections src { newSettings with profileId := pid }).privacy.blocklists = [] ∧
      (mapSections src { newSettings with profileId := pid }).privacy.services = [] ∧
      (mapSections src { newSettings with profileId := pid }).customRuleGroups = {} := by
  unfold mapSections
  cases src.privacy <;> cases src.security.bind (·.dnssec) <;>
    cases src.security.bind (·.rebindingProtection) <;>
    cases src.logs <;> exact ⟨rfl, rfl, rfl⟩

theorem lands_importedStatistics (stored : StatisticsSettings) (hoff : stored.enabled = false)
    (src : Option Bool) :
    Lands workingHandler i (fun _ => False) (At base docs) (importedStatistics stored src)
      fun statistics s => At base docs s ∧ statistics.enabled = src.getD false := by
  match src with
  | none => exact lands_pure fun s h => ⟨h, hoff⟩
  | some false => exact lands_pure fun s h => ⟨h, rfl⟩
  | some true => exact lands_bind lands_now fun now => lands_pure fun s h => ⟨h, rfl⟩

theorem lands_mapExportedSettings (src : ExportedSettings) :
    Lands workingHandler i (fun _ => False) (At base docs) (mapExportedSettings (some src) pid)
      fun settings s =>
      At base docs s ∧ ∃ statistics : StatisticsSettings, statistics.enabled =
      src.statistics.getD false ∧
        settings = { mapSections src { newSettings with profileId := pid } with
          statistics, customRuleGroups := src.customRuleGroups.getD {} } := by
  obtain ⟨-, -, hstatistics⟩ := mapSections_same src { newSettings with profileId := pid }
  obtain ⟨-, -, hgroups⟩ := mapSections_new src pid
  have hoff : (mapSections src { newSettings with profileId := pid }).statistics.enabled =
      false := by
    rw [hstatistics]
    rfl
  refine lands_bind (lands_importedStatistics _ hoff src.statistics) fun statistics =>
    lands_pure fun s h => ?_
  refine ⟨h.1, statistics, h.2, ?_⟩
  rw [hgroups]

/-- The blocklists and the services of the payload that are known. -/
def knownRefs (base : Stores) (src : ExportedSettings) : List String × List String :=
  ((src.privacy.getD {}).blocklists.filter base.knowsBlocklist,
    (src.privacy.getD {}).services.filter base.knowsService)

theorem lands_importRefs {name : String} {src : ExportedSettings} {settings : ProfileSettings}
    (hblocklists : settings.privacy.blocklists = []) (hservices : settings.privacy.services = []) :
    Lands workingHandler i (fun _ => False) (At base docs) (importRefs ⟨name, some src⟩ settings)
    fun r s => At base docs s ∧
      r.1 = { settings with
        privacy.blocklists := (knownRefs base src).1, privacy.services :=
          (knownRefs base src).2 } := by
  obtain ⟨privacy, security, rules, groups, logs, statistics⟩ := src
  cases privacy with
  | none =>
    refine lands_pure fun s h => ⟨h, ?_⟩
    obtain ⟨id, security, ⟨blocklists, services, _, _, _⟩, rules, groups, logs, statistics,
        recursor⟩ := settings
    obtain rfl : blocklists = [] := hblocklists
    obtain rfl : services = [] := hservices
    rfl
  | some privacy =>
    refine lands_bind (lands_filterCatalogRefs privacy.blocklists) fun blocklists => ?_
    refine lands_known fun hblocklists =>
      lands_bind (lands_filterServiceRefs privacy.services) fun services => ?_
    refine lands_pure fun s h => ⟨h.1, ?_⟩
    dsimp only
    rw [hblocklists, h.2]
    rfl

theorem At.redis {s : Stores} (h : At base docs s) (pid : String) (cmd : RedisCmd) :
    At base docs ((ProfileOp.redis pid cmd).effect s) := ⟨h.profiles, h.blocklists, h.services⟩

theorem at_pays (base : Stores) (docs : List Profile) (pid : String) : Pays pid fun _ =>
    At base docs :=
  fun cmd _ _ h => h.redis pid cmd

/-- The document with its rules comes after the others. -/
theorem lands_writeImported_doc {p : Profile} {rules : List CustomRule}
    (hnew : ∀ q ∈ docs, q.profileId ≠ p.profileId) :
    Lands workingHandler i (fun _ => False) (At base docs) (writeImported p rules) fun _ =>
      At base (docs ++ [{ p with settings.customRules := p.settings.customRules ++ rules }]) := by
  -- the insertion: no document has the drawn id
  have hinsert : Lands workingHandler i (fun _ => False) (At base docs) (call (.createProfile p))
      fun _ => At base (docs ++ [p]) := by
    refine triple_act fun s c r s' hat hc => ?_
    obtain ⟨hanswer, rfl, hfail, -⟩ := handled_working hc
    have hfresh : s.find p.profileId = none := by
      refine List.find?_eq_none.2 fun q hq => ?_
      rw [hat.profiles] at hq
      simpa using hnew q hq
    have hcall : (if (s.find p.profileId).isSome then some (.error (.store false))
      else c.call (.ok ())) =
        (some r : Option (Except ServiceErr Unit)) := hanswer
    rw [hfresh, Option.isSome_none, if_neg Bool.false_ne_true] at hcall
    cases c with
    | ok =>
      cases hcall
      have hstate : s.act ⟨.createProfile p, (.ok () : Except ServiceErr Unit)⟩ =
        (ProfileOp.createProfile p).effect s :=
        if_pos trivial
      show At base (docs ++ [p]) (s.act ⟨.createProfile p, (.ok () : Except ServiceErr Unit)⟩)
      rw [hstate]
      exact ⟨congrArg (· ++ [p]) hat.profiles, hat.blocklists, hat.services⟩
    | fail applied => exact absurd rfl (hfail applied)
    | _ => cases hcall
  unfold writeImported
  refine lands_bind hinsert fun _ => ?_
  refine lands_bind (lands_settings (at_pays base (docs ++ [p]) _) fun s h => h) fun _ =>
    lands_ite (fun hnil => ?_) fun _ => ?_
  · refine lands_pure fun s h => ?_
    rw [hnil, List.append_nil]
    exact h
  -- the rules: the other documents have other ids
  have hedit : Lands workingHandler i (fun _ => False) (At base (docs ++ [p]))
      (call (.edit p.profileId (.createCustomRules rules))) fun (_ : ℕ) =>
        At base (docs ++ [{ p with settings.customRules := p.settings.customRules ++ rules }]) := by
    refine lands_sure (o := .edit p.profileId (.createCustomRules rules)) trivial
      fun s matched h _ => ?_
    refine ⟨?_, h.blocklists, h.services⟩
    have hothers : (docs.map fun q => if q.profileId = p.profileId then
      (ProfileEdit.createCustomRules rules).run q else q) =
        docs := by
      conv_rhs => rw [← List.map_id docs]
      exact List.map_congr_left fun q hq => if_neg (hnew q hq)
    show s.profiles.map (fun q => if q.profileId = p.profileId then
      (ProfileEdit.createCustomRules rules).run q else q) = _
    rw [h.profiles, List.map_append, hothers, List.map_singleton, if_pos rfl]
    rfl
  refine lands_bind hedit fun _ => ?_
  exact lands_pipeline (at_pays base _ _) _

theorem lands_generate_new : Lands workingHandler i (fun _ => False) (At base docs) (call .generate)
    fun (pid : String) s => At base docs s ∧ ∀ q ∈ docs, q.profileId ≠ pid := by
  refine lands_sure (o := .generate) trivial fun s (pid : String) h hgives =>
    ⟨h, fun q hq heq => ?_⟩
  obtain ⟨c, hc, hfree⟩ := hgives
  cases c with
  | id pid' =>
    cases hc
    exact List.find?_eq_none.1 (hfree pid rfl) q (h.profiles ▸ hq) (decide_eq_true heq)
  | _ => cases hc

/-- **One profile of a payload**: its document comes after the others. -/
theorem lands_importOneProfile_doc {newID : ℕ → RuleID} {name resolved : String}
    (src : ExportedSettings) :
    Lands workingHandler i (fun _ => False) (At base docs)
      (importOneProfile env decode accountId newID ⟨name, some src⟩ resolved) fun x s =>
        ∃ q : Profile,
        At base (docs ++ [q]) s ∧ q.profileId = x.1 ∧ q.accountId = accountId ∧
        q.name = normalizeName env resolved ∧
          ∃ statistics : StatisticsSettings, statistics.enabled =
            src.statistics.getD false ∧ q.settings =
            importedSettings env.tags newID x.1 src statistics (knownRefs base src).1
              (knownRefs base src).2 := by
  unfold importOneProfile
  refine lands_bind lands_generate_new fun pid => lands_known fun hnew => ?_
  refine lands_bind (lands_mapExportedSettings src) fun settings => lands_known ?_
  rintro ⟨statistics, hon, rfl⟩
  obtain ⟨hblocklists, hservices, -⟩ := mapSections_new src pid
  refine lands_bind (lands_importRefs hblocklists hservices) ?_
  rintro ⟨refs, warnings⟩
  refine lands_known fun hrefs => ?_
  dsimp only at hrefs
  subst hrefs
  refine lands_bind (lands_writeImported_doc hnew) fun _ => lands_pure fun s h => ?_
  refine ⟨_, h, rfl, rfl, rfl, statistics, hon, ?_⟩
  have hnone : (mapSections src { newSettings with profileId := pid }).customRules = [] :=
    (mapSections_same src { newSettings with profileId := pid }).2.1
  dsimp only
  rw [hnone, validateAndMapRules_fst]
  rfl

end Importing

section Copies

/-! ### Copies -/

variable {ι : Type} {i : ι} {env : ServiceEnv} {decode : String → Option String}
  {accountId : String} {base : Stores}

/-- The profile is what an import makes of one of a payload; `taken` are the names that are
taken. -/
structure Copy (env : ServiceEnv) (base : Stores) (accountId : String) (taken : List String)
    (ep : ExportedProfile) (q : Profile) : Prop where
  account : q.accountId = accountId
  name : normalizeName env (truncatedName ep.name).1 ∉ taken →
    q.name = normalizeName env (truncatedName ep.name).1
  settings : exportSettings q.settings = (ep.settings.getD {}).received env.tags
    (knownRefs base (ep.settings.getD {})).1
    (knownRefs base (ep.settings.getD {})).2
  exportable : q.settings.Exportable env.tags

/-- The copies of profiles, each of which takes a name. -/
inductive Copies (env : ServiceEnv) (base : Stores) (accountId : String) :
    List String → List ExportedProfile → List Profile → Prop
  | nil (taken : List String) : Copies env base accountId taken [] []
  | cons {taken : List String} {ep : ExportedProfile} {eps : List ExportedProfile} {q : Profile}
      {qs : List Profile}
      (hcopy : Copy env base accountId taken ep q)
      (hrest : Copies env base accountId (q.name :: taken) eps qs) :
      Copies env base accountId taken (ep :: eps) (q :: qs)

/-- What is stored by an import can be exported and imported again. -/
theorem exportable_imported {tags : ValidatorTags} {newID : ℕ → RuleID} {pid : String}
    {src : ExportedSettings} {statistics : StatisticsSettings} {blocklists services : List String} :
    (importedSettings tags newID pid src statistics blocklists services).Exportable tags := by
  have hprivacy := mapSections_privacy src pid blocklists services
  have hdefault : orNew _ _ _ =
    (importedSettings tags newID pid src statistics blocklists services).privacy.defaultRule :=
    congrArg ExportedPrivacy.defaultRule hprivacy
  have hsubdomains : orNew _ _ _ =
      (importedSettings tags newID pid src statistics blocklists
        services).privacy.blocklistsSubdomainsRule :=
    congrArg ExportedPrivacy.blocklistsSubdomainsRule hprivacy
  have hcustom : orNew _ _ _ =
      (importedSettings tags newID pid src statistics blocklists
        services).privacy.customRulesSubdomainsRule :=
    congrArg ExportedPrivacy.customRulesSubdomainsRule hprivacy
  have hlogs : (importedSettings tags newID pid src statistics blocklists services).logs =
      (src.logs.map receivedLogs).getD newSettings.logs := (mapSections_received src pid).2
  refine ⟨?_, ?_, ?_, ?_, fun rule hrule => ?_, List.length_take_le .., List.length_take_le ..⟩
  · rw [← hdefault]
    exact orNew_mem (by decide)
  · rw [← hsubdomains]
    exact orNew_mem (by decide)
  · rw [← hcustom]
    exact orNew_mem (by decide)
  · rw [hlogs]
    cases src.logs with
    | none => decide
    | some logs => exact orNew_mem (by decide)
  · obtain ⟨r, -, -, -, hvalid⟩ := valid_rules.accepted rule hrule
    rw [hvalid]
    rfl

theorem lands_resolveImportName_free {P : Stores → Prop} (original : String) (taken : List String) :
    Lands workingHandler i (fun _ => False) P (resolveImportName env original taken) fun x s =>
      P s ∧ (normalizeName env original ∉ taken → x.1 = original) := by
  unfold resolveImportName
  dsimp only
  refine lands_ite (fun _ => lands_pure fun s h => ⟨h, fun _ => rfl⟩) fun hused => ?_
  have htaken : ¬ normalizeName env original ∉ taken := by simpa using hused
  refine lands_ite (fun _ => lands_pure fun s h => ⟨h, fun hfree => absurd hfree htaken⟩) fun _ =>
    ?_
  split
  · exact lands_pure fun s h => ⟨h, fun hfree => absurd hfree htaken⟩
  · exact lands_bind lands_now fun now => lands_pure fun s h =>
      ⟨h, fun hfree => absurd hfree htaken⟩

/-- **The loop** copies every profile of the payload. -/
theorem lands_importLoop {newID : ℕ → ℕ → RuleID} (eps : List ExportedProfile)
    (docs : List Profile) (k : ℕ) (taken : List String) (res : ImportResult) :
    Lands workingHandler i (fun _ => False) (At base docs)
    (importLoop env decode accountId newID eps k taken res)
      fun res' s => ∃ news, At base (docs ++ news) s ∧ Copies env base accountId taken eps news ∧
        res'.createdProfileIds = res.createdProfileIds ++ news.map (·.profileId) ∧
        res'.createdProfileNames = res.createdProfileNames ++ news.map (·.name) := by
  induction eps generalizing docs k taken res with
  | nil =>
    refine lands_pure fun s h =>
      ⟨[], ?_, .nil taken, (List.append_nil _).symm, (List.append_nil _).symm⟩
    rwa [List.append_nil]
  | cons ep eps ih =>
    unfold importLoop
    dsimp only
    refine lands_bind (lands_resolveImportName_free (truncatedName ep.name).1 taken) ?_
    rintro ⟨resolved, renameWarnings⟩
    refine lands_known fun hfree => ?_
    -- one profile, with the default settings where the payload has none
    have hone : Lands workingHandler i (fun _ => False) (At base docs)
        (importOneProfile env decode accountId (newID k) ep resolved) fun x s =>
          ∃ q : Profile, At base (docs ++ [q]) s ∧
          q.profileId = x.1 ∧ q.name = normalizeName env resolved ∧
          Copy env base accountId taken ep q := by
      obtain ⟨name, settings⟩ := ep
      have hsome : importOneProfile env decode accountId (newID k) ⟨name, settings⟩ resolved =
          importOneProfile env decode accountId (newID k)
            ⟨name, some (settings.getD {})⟩ resolved := by
        cases settings with
        | none => exact importOneProfile_none
        | some src => rfl
      rw [hsome]
      refine lands_conseq (lands_importOneProfile_doc (settings.getD {})) (fun s h => h) ?_
      rintro x s ⟨q, hat, hid, haccount, hname, statistics, hon, hsettings⟩
      refine ⟨q, hat, hid, hname, haccount, fun hnot => ?_, ?_, ?_⟩
      · rw [hname]
        exact congrArg (normalizeName env) (hfree hnot)
      · rw [hsettings]
        exact exportSettings_imported hon
      · rw [hsettings]
        exact exportable_imported
    refine lands_attempt_bind hone fun created => ?_
    -- the working store makes it, and the rest follows by induction
    cases created with
    | error e => exact fun s l r s' h _ => h.elim
    | ok imported =>
      rintro s l r s' ⟨q, hat, hid, hname, hcopy⟩ hexec
      have hrest :=
        ih (docs ++ [q]) (k + 1) (normalizeName env resolved :: taken) _ s l r s' hat hexec
      cases r with
      | error e => exact hrest
      | ok res' =>
        obtain ⟨news, hat', hcopies, hids, hnames⟩ := hrest
        rw [List.append_assoc, List.singleton_append] at hat'
        refine ⟨q :: news, hat', .cons hcopy (hname ▸ hcopies), ?_, ?_⟩
        · rw [hids, List.map_cons, hid, List.append_assoc, List.singleton_append]
        · rw [hnames, List.map_cons, hname, List.append_assoc, List.singleton_append]

/-- **An import** into an account with room succeeds, and copies every profile of the payload. -/
theorem lands_importProfiles {newID : ℕ → ℕ → RuleID} {payload : ExportEnvelope}
    (hversion : payload.schemaVersion = 1) (hkind : payload.kind = exportKind)
    (hsome : payload.profiles ≠ [])
    (hroom : (base.profiles.filter (·.accountId = accountId)).length + payload.profiles.length ≤
      env.maxProfiles)
    (hrules : countCustomRules (base.profiles.filter (·.accountId = accountId)) +
      incomingRules payload ≤
      maxCustomRulesPerAccount) :
    Lands workingHandler i (fun _ => False) (fun s => s = base)
      (importProfiles env decode accountId newID importModeCreateNew payload) fun res s => ∃ news,
        s.profiles = base.profiles ++ news ∧ res.createdProfileIds = news.map (·.profileId) ∧
          res.createdProfileNames = news.map (·.name) ∧ Copies env base accountId
            ((base.profiles.filter (·.accountId = accountId)).map fun p => normalizeName env p.name)
              payload.profiles news := by
  unfold importProfiles
  refine lands_ensure_known (fun _ _ => rfl) (lands_ensure_known (fun _ _ => hversion) ?_)
  refine lands_ensure_known (fun _ _ => hkind) (lands_ensure_known (fun _ _ => hsome) ?_)
  have hlisting : Lands workingHandler i (fun _ => False) (fun s => s = base)
    (call (.getProfilesByAccountId accountId))
      fun (existing : List Profile) s =>
        s = base ∧ existing = base.profiles.filter (·.accountId = accountId) := by
    refine lands_conseq lands_listing (fun s h => h) ?_
    rintro existing s ⟨rfl, rfl⟩
    exact ⟨rfl, rfl⟩
  refine lands_bind hlisting fun existing => lands_known ?_
  rintro rfl
  refine lands_ensure_known (fun _ _ => hroom) (lands_ensure_known (fun _ _ => hrules) ?_)
  refine lands_bind lands_now fun now => ?_
  refine lands_conseq (P := At base base.profiles)
    (lands_importLoop payload.profiles base.profiles 0 _ _) ?_ ?_
  · rintro s rfl
    exact ⟨rfl, rfl, rfl⟩
  · rintro res s ⟨news, hat, hcopies, hids, hnames⟩
    exact ⟨news, hat.profiles, hids, hnames, hcopies⟩

/-- The export of `q` is that of `p`, apart from the name and from the blocklists and services that
are not in the catalogs. -/
def Restores (base : Stores) (p q : Profile) : Prop :=
  exportSettings q.settings = { exportSettings p.settings with
    privacy := (exportSettings p.settings).privacy.map fun privacy =>
      { privacy with
        blocklists := privacy.blocklists.filter base.knowsBlocklist
        services := privacy.services.filter base.knowsService } }

theorem copies_restore {taken : List String} {profiles news : List Profile}
    (h : Copies env base accountId taken (profiles.map exportProfile) news) :
    List.Forall₂ (fun p q => p.settings.Exportable env.tags → Restores base p q) profiles news := by
  induction profiles generalizing taken news with
  | nil =>
    cases h
    exact .nil
  | cons p profiles ih =>
    cases h with
    | cons hcopy hrest =>
      exact .cons (fun hexportable => hcopy.settings.trans (received_export hexportable)) (ih hrest)

/-- **Exported and imported.** An export leaves its stores. An import of it into an account with
room succeeds: each profile that was asked for gets a copy, with its own name unless that is taken,
and no document changes. What the import checks is received as it was exported, apart from the
blocklists and the services that are not in the catalogs. -/
theorem export_import {env' : ServiceEnv} {owner scope : String} {profileIds : List String}
    {envelope : ExportEnvelope} {κ : Type} {j : κ} {newID : ℕ → ℕ → RuleID} {s₀ s₁ s s' : Stores}
    {l l' : Acts} {r : Except ServiceErr ImportResult}
    (hexport : Exec workingHandler j (exportProfiles env' owner scope profileIds).run s₀ l
      (.ok (.ok envelope)) s₁)
    (himport : Exec workingHandler i
      (importProfiles env decode accountId newID importModeCreateNew envelope).run s l' r s')
    (hsome : envelope.profiles ≠ [])
    (hroom : (s.profiles.filter (·.accountId = accountId)).length + envelope.profiles.length ≤
      env.maxProfiles)
    (hrules : countCustomRules (s.profiles.filter (·.accountId = accountId)) +
      incomingRules envelope ≤
      maxCustomRulesPerAccount) :
    s₁ = s₀ ∧ ∃ profiles news res, Selected s₀ owner scope profileIds profiles ∧ r = .ok res ∧
      s'.profiles = s.profiles ++ news ∧ res.createdProfileIds = news.map (·.profileId) ∧
      Copies env s accountId ((s.profiles.filter (·.accountId = accountId)).map fun p =>
        normalizeName env p.name)
        (profiles.map exportProfile) news ∧
      List.Forall₂ (fun p q => p.settings.Exportable env.tags → Restores s p q) profiles news := by
  obtain ⟨rfl, hexported⟩ := lands_exportProfiles s₀ l _ s₁ rfl hexport
  obtain ⟨hversion, hkind, profiles, hselected, hprofiles⟩ := hexported envelope rfl
  -- what was exported has the version and the kind that the import asks for
  have hlanded := lands_importProfiles hversion hkind hsome hroom hrules s l' r s' rfl himport
  cases r with
  | error e => exact hlanded.elim
  | ok res =>
    obtain ⟨news, hdocs, hids, -, hcopies⟩ := hlanded
    rw [hprofiles] at hcopies
    exact ⟨rfl, profiles, news, res, hselected, rfl, hdocs, hids, hcopies, copies_restore hcopies⟩

end Copies

section Examples

/-- Two rules, out of order, and a blocklist that is in no catalog. -/
def sharedProfile : Profile where
  profileId := "p"
  accountId := "a"
  name := "home"
  settings := { newSettings with
    profileId := "p"
    privacy.blocklists := ["ads", "gone"]
    customRules := [⟨7, .block, "b.io", .fqdn, "", "", 1⟩, ⟨8, .allow, "a.io", .fqdn, "", "", 0⟩] }

def sharedStores : Stores where
  profiles := [sharedProfile]
  redis _ := .absent
  blocklists := [⟨"ads", true⟩]

def sharedExport : ExportedProfile where
  name := "home"
  settings := some
    { privacy := some ⟨["ads", "gone"], [], "allow", "block", "include"⟩
      security := some ⟨some ⟨true, false⟩, some false⟩
      customRules := [⟨"allow", "a.io", "", ""⟩, ⟨"block", "b.io", "", ""⟩]
      logs := some ⟨false, false, true, "1h"⟩
      statistics := some false }

def sharedEnvelope : ExportEnvelope := ⟨1, exportKind, 0, [sharedExport]⟩

theorem sharedExport_eq : exportProfile sharedProfile = sharedExport := by
  have hdisplayed : displayed sharedProfile.settings.customRules =
      [⟨8, .allow, "a.io", .fqdn, "", "", 0⟩, ⟨7, .block, "b.io", .fqdn, "", "", 1⟩] := by
    simp [displayed, sharedProfile, List.mergeSort]
  unfold exportProfile exportSettings
  rw [hdisplayed]
  rfl

theorem shared_exports :
    ∃ l, Exec workingHandler () (exportProfiles exampleEnv "a" exportScopeAll []).run sharedStores l
    (.ok (.ok sharedEnvelope)) sharedStores := by
  have hrun : (exportProfiles exampleEnv "a" exportScopeAll []).run.exec workingHandler ()
    [.ok, .time 0] sharedStores =
      some (_, .ok (.ok ⟨1, exportKind, 0, [exportProfile sharedProfile]⟩), sharedStores) := rfl
  unfold sharedEnvelope
  rw [← sharedExport_eq]
  exact ⟨_, exec_of_choices hrun⟩

/-- An import by the same account, under a list of choices. -/
def importsShared (choices : List Choice) :
    Option (Acts × Except ServiceErr ImportResult × Stores) :=
  (importProfiles exampleEnv (fun _ => none) "a"
    (fun k n => 10 * k + n) importModeCreateNew sharedEnvelope).run.exec
    workingHandler () choices sharedStores

theorem shared_imports :
    (importsShared (.ok :: .time 0 :: .id "q" :: List.replicate 18 .ok)).isSome := by decide +kernel

theorem shared_exportable : sharedProfile.settings.Exportable exampleEnv.tags := by
  refine ⟨by decide, by decide, by decide, by decide, ?_, by decide, by decide⟩
  decide +kernel

theorem export_import_shared :
    ∃ l r s' q, Exec workingHandler () (importProfiles exampleEnv (fun _ => none) "a"
      (fun k n => 10 * k + n) importModeCreateNew sharedEnvelope).run sharedStores l r s' ∧
    s'.profiles = [sharedProfile, q] ∧ Restores sharedStores sharedProfile q := by
  obtain ⟨l, hexport⟩ := shared_exports
  obtain ⟨⟨l', r, s'⟩, hchoices⟩ := Option.isSome_iff_exists.1 shared_imports
  have himport := exec_of_choices hchoices
  obtain ⟨-, profiles, news, res, hselected, -, hdocs, -, -, hrestored⟩ :=
    export_import hexport himport (by decide) (by decide) (by decide)
  have hall : profiles = [sharedProfile] := by
    rcases hselected with ⟨-, rfl⟩ | ⟨hscope, -⟩
    · decide
    · exact absurd hscope (by decide)
  subst hall
  obtain ⟨q, rfl⟩ : ∃ q, news = [q] := List.length_eq_one_iff.1 hrestored.length_eq.symm
  refine ⟨l', r, s', q, himport, hdocs, ?_⟩
  cases hrestored with
  | cons hrestores hnil => exact hrestores shared_exportable

end Examples

end ModDNS.Profiles
