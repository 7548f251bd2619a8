import ModDNS.Profiles.Collisions
import ModDNS.Profiles.MirrorEdits

/-!
# Redis shows Mongo

The requests that make and delete profiles, and all requests, one after the other.

* `lands_createProfile`, `keeps_importProfiles`, `keeps_deleteProfile`: profiles that come and go.
* `repopulate_repairs`: the keys of an account, from whatever they held.
* `requests_mirror`: after any requests every document is shown.
-/

namespace ModDNS.Profiles

open Conc Rules

section Making

/-! ### New profiles -/

variable {ι : Type} {i : ι} {env : ServiceEnv} {decode : String → Option String}
  {accountId pid : String} {s : Stores} {cmds : List RedisCmd} {p : Profile}
  {settings : ProfileSettings}

/-- The profile has no document yet. One with these settings will be shown when the commands have
been sent. -/
structure Ready (settings : ProfileSettings) (cmds : List RedisCmd) (s : Stores) : Prop where
  mirrors : Mirrors s
  fresh : s.find settings.profileId = none
  will : ∀ p : Profile, p.settings = settings → ((s.redis settings.profileId).after cmds).Shows p

theorem mirrors_redis (h : Mirrors s) (hfresh : s.find pid = none) (cmd : RedisCmd) :
    Mirrors ((ProfileOp.redis pid cmd).effect s) := ((h.others pid).redis cmd).gone hfresh

theorem ready_pays (settings : ProfileSettings) : Pays settings.profileId (Ready settings) := by
  intro cmd cmds s h
  refine ⟨mirrors_redis h.mirrors h.fresh cmd, h.fresh, fun p hp => ?_⟩
  have hself : ((ProfileOp.redis settings.profileId cmd).effect s).redis settings.profileId =
      cmd.run (s.redis settings.profileId) := Function.update_self ..
  rw [hself]
  exact h.will p hp

theorem lands_generate {P : Stores → Prop} (hI : ∀ s, P s → Mirrors s) :
    Lands workingHandler i Mirrors P (call .generate) fun (pid : String) s =>
      P s ∧ s.find pid = none := by
  refine lands_call hI fun s pid h hgives => ⟨h, ?_⟩
  obtain ⟨c, hc, hfree⟩ := hgives
  cases c with
  | id pid' =>
    cases hc
    exact hfree pid rfl
  | _ => cases hc

theorem lands_createSettings :
    Lands workingHandler i Mirrors (fun s => Mirrors s ∧ s.find pid = none) (createSettings pid)
      fun settings s =>
        (settings.profileId = pid ∧ settings.customRules = []) ∧ Ready settings [] s := by
  unfold createSettings
  refine lands_bind (lands_read (o := .getBlocklist .isDefault) (fun _ => rfl) fun s h => h.1)
    fun defaultBlocklists => ?_
  dsimp only
  refine lands_bind (lands_settings (ready_pays _) fun s h => ?_) fun _ => lands_pure fun s h =>
    ⟨⟨rfl, rfl⟩, h⟩
  refine ⟨h.1.1, h.1.2, fun p hp => ?_⟩
  rw [← hp]
  refine shows_settingsCmds p ?_ _
  rw [Profile.ruleIDs, hp]
  exact List.nodup_nil

theorem lands_createProfile (name : String) :
    Lands workingHandler i Mirrors Mirrors (createProfile env name accountId) fun _ => Mirrors := by
  unfold createProfile
  refine lands_ensure_bind (fun s h => h) fun _ => lands_ensure_bind (fun s h => h) fun _ => ?_
  refine lands_bind (lands_generate fun s h => h) fun pid =>
    lands_bind lands_createSettings fun settings => ?_
  refine lands_bind (lands_read (o := .getProfilesByAccountId accountId) (fun _ => rfl)
    fun s h => h.2.mirrors)
    fun profiles => ?_
  refine lands_ensure_bind (fun s h => h.1.2.mirrors) fun _ =>
    lands_ensure_bind (fun s h => h.1.2.mirrors) fun _ => ?_
  refine lands_bind (R := fun _ => Mirrors)
    (lands_call (fun s h => h.1.2.mirrors) fun s _ h _ => ?_)
    fun _ => lands_pure fun s h => h
  obtain ⟨⟨⟨rfl, hrules⟩, hready⟩, -⟩ := h
  refine Owes.mirrors ((hready.mirrors.others _).insert hready.fresh rfl ?_ (hready.will _ rfl))
  rw [Profile.ruleIDs, hrules]
  exact List.nodup_nil

theorem keeps_read {o : ProfileOp} (ho : ∀ s, o.effect s = s) :
    Keeps workingHandler i Mirrors (call o) :=
  keeps_of_lands (lands_conseq (lands_read ho fun _ h => h) (fun _ h => h) fun _ _ h => h.1)

/-- The questions of a flow. -/
theorem lands_asks {α : Type} {P : Stores → Prop} {flow : ProfileFlow α} (hflow : Within Asks flow)
    (hI : ∀ s, P s → Mirrors s) : Lands workingHandler i Mirrors P flow fun a s =>
      P s ∧ ∃ l, Ends flow.run l (.ok a) := by
  have hkeeps : Keeps workingHandler i P flow := by
    refine keeps_within hflow fun o c s r s' ho hP hc => ?_
    obtain ⟨a, -, -, rfl⟩ | ⟨e, -, -, rfl⟩ := handled_works hc
    · have heffect : o.effect s = s := by cases o <;> first | rfl | exact ho.elim
      rwa [heffect]
    · exact hP
  intro s l r s' hP hexec
  have hP' := hkeeps s l r s' hP hexec
  cases r with
  | error e => exact hI s' hP'
  | ok a => exact ⟨hP', l, exec_path hexec⟩

/-- The settings have no rules yet. -/
theorem noRules_mapped {src : Option ExportedSettings} {l : Acts}
    (h : Ends (mapExportedSettings src pid).run l (.ok settings)) : settings.customRules = [] := by
  cases src with
  | none =>
    obtain ⟨-, heq⟩ := ends_flow_pure h
    cases heq
    rfl
  | some src =>
    obtain ⟨l₁, l₂, statistics, rfl, -, hnext⟩ := ends_flow_bind_ok h
    obtain ⟨-, heq⟩ := ends_flow_pure hnext
    cases heq
    exact (mapSections_same src { newSettings with profileId := pid }).2.1

theorem nodup_validRules {newID : ℕ → RuleID} (hnew : Function.Injective newID)
    (profileName : String) (payload : List ExportedCustomRule) :
    ((validateAndMapRules env.tags decode newID profileName payload).1.map (·.id)).Nodup := by
  rw [validateAndMapRules_fst]
  have hvalid : ValidRules env.tags newID payload (acceptedRules env.tags newID payload) :=
    valid_rules
  refine List.pairwise_map.2 (hvalid.ordered.imp_of_mem fun {a b} ha hb hlt heq => ?_)
  obtain ⟨-, -, -, hida, -⟩ := hvalid.accepted a ha
  obtain ⟨-, -, -, hidb, -⟩ := hvalid.accepted b hb
  have horder : a.order = b.order := hnew (hida.symm.trans (heq.trans hidb))
  omega

/-- A document that has just been inserted owes Redis its keys, and then its rules. -/
theorem lands_writeImported {rules : List CustomRule} (hnamed : p.settings.profileId = p.profileId)
    (hnone : p.settings.customRules = []) (hids : (rules.map (·.id)).Nodup) :
    Lands workingHandler i Mirrors (fun s => Mirrors s ∧ s.find p.profileId = none)
    (writeImported p rules)
      fun _ => Mirrors := by
  have hempty : p.ruleIDs.Nodup := by
    rw [Profile.ruleIDs, hnone]
    exact List.nodup_nil
  unfold writeImported
  refine lands_bind (R := fun _ s =>
    Owes (fun _ => True) p.profileId (settingsCmds p.settings (s.redis p.profileId).customRules) s ∧
      s.find p.profileId = some p)
    (lands_call (fun s h => h.1) fun s _ h _ => ⟨?_, ?_⟩) fun _ => ?_
  · exact (h.1.others _).insert h.2 hnamed hempty (shows_settingsCmds p hempty _)
  · have hfresh : s.profiles.find? (·.profileId = p.profileId) = none := h.2
    show (s.profiles ++ [p]).find? (·.profileId = p.profileId) = some p
    rw [List.find?_append, hfresh, Option.none_or, List.find?_cons_of_pos (by simp)]
  have hpays : Pays p.settings.profileId fun cmds s =>
      Owes (fun _ => True) p.profileId cmds s ∧ s.find p.profileId = some p := by
    intro cmd cmds s h
    rw [hnamed]
    exact ⟨h.1.sent, h.2⟩
  refine lands_bind (R := fun _ s => Mirrors s ∧ s.find p.profileId = some p) ?_ fun _ => ?_
  · refine lands_conseq (lands_settings hpays fun s h => ?_) (fun s h => h) fun _ s h =>
      ⟨h.1.mirrors, h.2⟩
    rw [hnamed]
    exact h
  refine lands_ite (fun _ => lands_pure fun s h => h.1) fun _ => ?_
  refine lands_bind (lands_edit p (queueCustomRules rules) fun s h => ?_) fun n =>
    lands_send fun s h => h.1
  have hnew : ∀ rule ∈ p.settings.customRules, rule.id ∉ rules.map (·.id) := by
    rw [hnone]
    exact List.forall_mem_nil _
  exact ⟨h.1, h.2, nodup_created hempty hids hnew, shows_created (h.1.shown h.2) hids hnew⟩

theorem lands_importOneProfile {newID : ℕ → RuleID} (hnew : Function.Injective newID) 
    (ep : ExportedProfile) (resolved : String) :
    Lands workingHandler i Mirrors Mirrors (importOneProfile env decode accountId newID ep resolved)
    fun _ => Mirrors := by
  unfold importOneProfile
  refine lands_bind (lands_generate fun s h => h) fun pid => ?_
  refine lands_bind (lands_asks (within_mapExportedSettings ep.settings) fun s h => h.1)
    fun settings => ?_
  refine lands_bind (lands_asks (within_mono (fun _ => Lookup.asks) (within_importRefs ep settings))
    fun s h => h.1.1) ?_
  rintro ⟨refs, warnings⟩
  refine lands_bind (R := fun _ => Mirrors) ?_ fun _ => lands_pure fun s h => h
  rintro s l r s' ⟨⟨⟨hmirrors, hfresh⟩, l₁, hmapped⟩, l₂, hrefs⟩ hexec
  obtain ⟨hid, hrules, -⟩ := ends_importRefs hrefs
  have hnamed : refs.profileId = pid := hid.trans (ends_mapExportedSettings hmapped)
  refine lands_writeImported hnamed (hrules.trans (noRules_mapped hmapped))
    (nodup_validRules hnew resolved _) s l r s'
    ⟨hmirrors, hfresh⟩ hexec

theorem keeps_deleteProfileSettings :
    Keeps workingHandler i (fun s => Mirrors s ∧ s.find pid = none)
      (deleteProfileSettings pid) := by
  refine keeps_within (within_deleteSettings_on pid) fun o c s r s' ho h hc => ?_
  obtain ⟨a, -, -, rfl⟩ | ⟨e, -, -, rfl⟩ := handled_works hc
  · cases o with
    | redis pid' cmd =>
      obtain rfl : pid' = pid := ho
      exact ⟨mirrors_redis h.1 h.2 cmd, h.2⟩
    | smembers pid' => exact h
    | _ => exact ho.elim
  · exact h

theorem find_deleteEffect (s : Stores) (pid : String) :
    ((ProfileOp.deleteProfileById pid).effect s).find pid = none := by
  rw [← act_ok (o := .deleteProfileById pid) (a := ())]
  exact find_deleted s pid

theorem keeps_rollback (pids : List String) :
    Keeps workingHandler i Mirrors (rollbackImportedProfiles pids) := by
  induction pids with
  | nil => exact keeps_pure
  | cons pid pids ih =>
    refine triple_attempt_bind (R := fun _ s => Mirrors s ∧ s.find pid = none) ?_ fun _ => ?_
    · refine triple_conseq (triple_sure (o := .deleteProfileById pid) trivial
        (Q := fun _ s => Mirrors s ∧ s.find pid = none)
        fun s a h _ => ⟨h.delete, find_deleteEffect s pid⟩) (fun s h => h) fun r s h => ?_
      obtain ⟨a, -, h⟩ := h
      exact h
    · refine triple_attempt_bind keeps_deleteProfileSettings fun _ => ?_
      exact triple_conseq ih (fun s h => h.1) fun r s h => h

theorem keeps_importLoop {newID : ℕ → ℕ → RuleID} (hnew : ∀ k, Function.Injective (newID k))
    (eps : List ExportedProfile) (k : ℕ) (taken : List String) (res : ImportResult) :
    Keeps workingHandler i Mirrors (importLoop env decode accountId newID eps k taken res) := by
  induction eps generalizing k taken res with
  | nil => exact keeps_pure
  | cons ep eps ih =>
    unfold importLoop
    dsimp only
    refine keeps_bind
      (keeps_of_lands (lands_conseq (lands_asks (within_resolveImportName _ taken) fun s h => h)
        (fun s h => h)
      fun _ s h => h.1)) ?_
    rintro ⟨resolved, renameWarnings⟩
    refine triple_attempt_bind (keeps_of_lands (lands_importOneProfile (hnew k) ep resolved))
      fun created => ?_
    cases created with
    | error e => exact keeps_bind (keeps_rollback _) fun _ => keeps_throw
    | ok imported => exact ih _ _ _

theorem keeps_importProfiles {newID : ℕ → ℕ → RuleID} (hnew : ∀ k, Function.Injective (newID k))
    (mode : String) (payload : ExportEnvelope) :
    Keeps workingHandler i Mirrors (importProfiles env decode accountId newID mode payload) := by
  unfold importProfiles
  refine keeps_bind keeps_ensure fun _ => keeps_bind keeps_ensure fun _ => ?_
  refine keeps_bind keeps_ensure fun _ => keeps_bind keeps_ensure fun _ => ?_
  refine keeps_bind (keeps_read (o := .getProfilesByAccountId accountId) fun _ => rfl)
    fun existing => ?_
  refine keeps_bind keeps_ensure fun _ => keeps_bind keeps_ensure fun _ => ?_
  exact keeps_bind (keeps_read (o := .now) fun _ => rfl) fun now => keeps_importLoop hnew _ _ _ _

end Making

section Unmaking

/-! ### Profiles that go -/

variable {ι : Type} {i : ι} {accountId pid : String} {s s' : Stores}

/-- What a call of a deletion keeps: the other profiles are shown, and a document that is gone stays
so. -/
theorem deletionCall_keeps {o : ProfileOp} {c : Choice} {r : Except ServiceErr o.Ans}
    (ho : DeletionCall pid o) (hc : workingHandler i o c s = some (r, s')) :
    (MirrorsOn (Without (fun _ => True) pid) s → MirrorsOn (Without (fun _ => True) pid) s') ∧
    (s.find pid = none → s'.find pid = none) := by
  obtain ⟨-, hact, -, -⟩ := handled_working hc
  have hnone : s.find pid = none → s'.find pid = none := by
    rw [hact]
    refine fun h => find_act_none h fun p hp => ?_
    have hop : o = .createProfile p := hp
    rw [hop] at ho
    exact ho
  refine ⟨fun h => ?_, hnone⟩
  obtain ⟨a, -, -, rfl⟩ | ⟨e, -, -, rfl⟩ := handled_works hc
  · cases o with
    | deleteProfileById pid' => exact h.delete
    | redis pid' cmd =>
      have hpid : pid' = pid := by
        cases cmd with
        | del keys => exact ho
        | _ => exact ho.elim
      subst hpid
      exact h.redis cmd
    | turn => exact h
    | getProfileById pid' => exact h
    | getProfilesByAccountId a => exact h
    | deleteProfileQueryLogs pid' => exact h
    | smembers pid' => exact h
    | _ => exact ho.elim
  · exact h

/-- The goroutines of a deletion leave no document that would have to be shown. -/
theorem keeps_deleteGroup :
    Keeps workingHandler i Mirrors
      (goroutines [call (.deleteProfileById pid), call (.deleteProfileQueryLogs pid),
      deleteProfileSettings pid]) := by
  have hothers : Keeps workingHandler i (MirrorsOn (Without (fun _ => True) pid))
    (goroutines [call (.deleteProfileById pid),
      call (.deleteProfileQueryLogs pid), deleteProfileSettings pid]) :=
    keeps_within within_deleteGroup fun o c s r s' ho h hc => (deletionCall_keeps ho hc).1 h
  have hgone : Triple workingHandler i Mirrors
    (goroutines [call (.deleteProfileById pid), call (.deleteProfileQueryLogs pid),
      deleteProfileSettings pid]) fun _ s => s.find pid = none := by
    refine triple_reaches (o := .deleteProfileById pid) within_deleteGroup
      (fun o c s r s' ho h hc => (deletionCall_keeps ho hc).2 h) ?_ ?_
    · intro l r hends
      obtain ⟨l₁, l₂, r₁, r₂, hmongo, -, hmerge, -⟩ := ends_group_cons hends
      have hmem : (⟨.deleteProfileById pid, r₁⟩ : profileCalls.sig.Act) ∈ l₁ :=
        ends_act hmongo ▸ List.mem_singleton_self _
      exact ⟨_, hmerge.sublist_left.subset hmem, rfl⟩
    · intro c s r s' hc
      obtain ⟨a, -, -, rfl⟩ | ⟨e, -, hsure, -⟩ := handled_works hc
      · exact find_deleteEffect s pid
      · exact absurd trivial hsure
  exact fun s l r s' h hexec =>
    (hothers s l r s' (h.others pid) hexec).gone (hgone s l r s' h hexec)

theorem keeps_deleteProfile (removeLast : Bool) :
    Keeps workingHandler i Mirrors (deleteProfile accountId pid removeLast) := by
  unfold deleteProfile
  refine keeps_bind
    (keeps_of_lands (lands_conseq (lands_validate fun s h => h) (fun s h => h) fun _ s h => h.1))
    fun p => ?_
  refine keeps_bind ?_ fun _ => keeps_deleteGroup
  refine keeps_ite keeps_pure
    (keeps_bind (keeps_read (o := .getProfilesByAccountId accountId) fun _ => rfl) ?_)
  exact fun profiles => keeps_ensure

/-- A call that touches neither documents nor keys. -/
theorem keeps_elsewhere {o : ProfileOp} (hprofiles : ∀ s, (o.effect s).profiles = s.profiles)
    (hredis : ∀ s, (o.effect s).redis = s.redis) : Keeps workingHandler i Mirrors (call o) := by
  refine keeps_of_lands (lands_call (fun s h => h) fun s a h _ => ?_)
  refine ⟨?_, ?_, ?_, ?_, ?_⟩
  · rw [hprofiles]
    exact h.pids
  · rw [hredis]
    exact h.sets
  · rw [hprofiles]
    exact h.named
  · rw [hprofiles]
    exact h.ids
  · rw [hprofiles, hredis]
    exact h.shows

theorem keeps_purgeProfiles (profiles : List Profile) :
    Keeps workingHandler i Mirrors (purgeProfiles accountId profiles) := by
  induction profiles with
  | nil => exact keeps_pure
  | cons p profiles ih =>
    refine keeps_bind (keeps_deleteProfile true) fun _ => ?_
    exact keeps_bind (keeps_elsewhere (o := .removeProfileFromAccount accountId p.profileId)
      (fun _ => rfl) fun _ => rfl)
      fun _ => ih

theorem keeps_purgeAccountData : Keeps workingHandler i Mirrors (purgeAccountData accountId) := by
  unfold purgeAccountData
  refine keeps_bind (keeps_elsewhere (o := .deleteCredentials accountId) (fun _ => rfl) fun _ =>
    rfl) fun _ => ?_
  refine keeps_bind (keeps_read (o := .getProfilesByAccountId accountId) fun _ => rfl)
    fun profiles => ?_
  refine keeps_bind (keeps_purgeProfiles profiles) fun _ => ?_
  refine keeps_bind (keeps_elsewhere (o := .deleteAccountById accountId) (fun _ => rfl) fun _ =>
    rfl) fun _ => ?_
  exact keeps_elsewhere (o := .deleteSubscription accountId) (fun _ => rfl) fun _ => rfl

end Unmaking

section Repair

/-! ### The repopulation -/

variable {ι : Type} {i : ι} {asked : String → Prop} {p : Profile}

/-- The keys of a profile show its document after the pipeline of its settings, whatever they
held. -/
theorem triple_settings (profiles : List Profile) :
    Triple workingHandler i (fun s => MirrorsOn asked s ∧ s.profiles = profiles ∧ p ∈ profiles)
      (createOrUpdateProfileSettings p.settings) fun _ s =>
        MirrorsOn (fun pid => asked pid ∨ pid = p.profileId) s ∧ s.profiles = profiles := by
  have hpays : p.settings.profileId = p.profileId →
      Pays p.settings.profileId fun cmds s =>
        Owes asked p.profileId cmds s ∧ s.profiles = profiles := by
    intro hnamed cmd cmds s h
    rw [hnamed]
    exact ⟨h.1.sent, h.2⟩
  rintro s l r s' ⟨hmirrors, hprofiles, hmem⟩ hexec
  have hin : p ∈ s.profiles := hprofiles ▸ hmem
  have hnamed := hmirrors.named p hin
  have hlanded : Lands workingHandler i (fun _ => False) (fun s' => s' = s)
    (createOrUpdateProfileSettings p.settings)
      fun _ s => Owes asked p.profileId [] s ∧ s.profiles = profiles := by
    refine lands_settings (hpays hnamed) ?_
    rintro s' rfl
    refine ⟨⟨hmirrors.others _, fun q hq => ?_⟩, hprofiles⟩
    obtain rfl : p = q := Option.some.inj ((find_of_mem hmirrors.pids hin).symm.trans hq)
    rw [hnamed]
    exact shows_settingsCmds p (hmirrors.ids p hin) _
  have hend := hlanded s l r s' rfl hexec
  cases r with
  | error e => exact hend.elim
  | ok u => exact ⟨hend.1.settled, hend.2⟩

theorem triple_eachProfile (profiles listed : List Profile) (hlisted : ∀ p ∈ listed, p ∈ profiles) :
    Triple workingHandler i (fun s => MirrorsOn asked s ∧ s.profiles = profiles)
      (eachProfile (fun profile => createOrUpdateProfileSettings profile.settings) listed)
        fun _ s =>
        MirrorsOn (fun pid => asked pid ∨ ∃ p ∈ listed, p.profileId = pid) s ∧
        s.profiles = profiles := by
  induction listed generalizing asked with
  | nil => exact triple_pure fun s h => ⟨h.1.mono fun pid hpid => hpid.resolve_right (by simp), h.2⟩
  | cons p listed ih =>
    obtain ⟨hp, hlisted⟩ := List.forall_mem_cons.1 hlisted
    refine triple_attempt_bind (triple_conseq (triple_settings (p := p) profiles)
      (fun s h => ⟨h.1, h.2, hp⟩) fun r s h => h)
      fun r => ?_
    refine triple_conseq (ih hlisted) (fun s h => h) fun r s h => ⟨h.1.mono fun pid hpid => ?_, h.2⟩
    simp only [List.mem_cons, exists_eq_or_imp] at hpid
    rcases hpid with hpid | rfl | hpid
    · exact .inl (.inl hpid)
    · exact .inl (.inr rfl)
    · exact .inr hpid

theorem triple_repopulate (accountId : String) (profiles : List Profile) :
    Triple workingHandler i (fun s => MirrorsOn asked s ∧ s.profiles = profiles)
      (repopulateProfileCache accountId) fun _ s =>
      MirrorsOn (fun pid => asked pid ∨ ∃ p ∈ profiles, p.accountId = accountId ∧
        p.profileId = pid) s ∧
        s.profiles = profiles := by
  unfold repopulateProfileCache forAccount
  have hlist : Triple workingHandler i (fun s => MirrorsOn asked s ∧ s.profiles = profiles)
      (call (.getProfilesByAccountId accountId)) fun r s => ∃ listed, r = .ok listed ∧
        (MirrorsOn asked s ∧ s.profiles = profiles) ∧
          listed = profiles.filter (·.accountId = accountId) := by
    refine triple_sure trivial fun s listed h hgives => ?_
    obtain ⟨c, hc, -⟩ := hgives
    refine ⟨h, ?_⟩
    rw [← h.2]
    cases c <;> cases hc
    rfl
  refine triple_attempt_bind hlist fun r => ?_
  rintro s l r' s' ⟨listed, rfl, h, rfl⟩ hexec
  have hlisted : ∀ p ∈ profiles.filter (·.accountId = accountId), p ∈ profiles := fun p hp =>
    (List.mem_filter.1 hp).1
  obtain ⟨hmirrors, hprofiles⟩ := triple_eachProfile profiles _ hlisted s l r' s' h hexec
  refine ⟨hmirrors.mono fun pid hpid => hpid.imp_right ?_, hprofiles⟩
  rintro ⟨p, hp, haccount, hid⟩
  exact ⟨p, List.mem_filter.2 ⟨hp, by simpa using haccount⟩, hid⟩

/-- **A repopulation repairs the keys of its account**, whatever they held, and the profiles that
were shown are shown still. -/
theorem repopulate_repairs {accountId : String} {s s' : Stores} {l : Acts}
    {r : Except ServiceErr Unit} (h : MirrorsOn asked s)
    (hexec : Exec workingHandler i (repopulateProfileCache accountId).run s l r s') :
    s'.profiles = s.profiles ∧
      ∀ p ∈ s.profiles, p.accountId = accountId ∨ asked p.profileId →
        (s'.redis p.profileId).Shows p := by
  obtain ⟨hmirrors, hprofiles⟩ := triple_repopulate accountId s.profiles s l r s' ⟨h, rfl⟩ hexec
  refine ⟨hprofiles, fun p hp hor => hmirrors.shows p (hprofiles ▸ hp) ?_⟩
  rcases hor with haccount | hasked
  · exact .inr ⟨p, hp, haccount, rfl⟩
  · exact .inl hasked

end Repair

section Requests

/-! ### All requests -/

variable {V : Type} (env : ServiceEnv) (casts : Casts V)

/-- A request of an account that changes its profiles or their settings. -/
inductive Request (V : Type) where
  /-- A request on rules; `newID` gives the ids of the rules. -/
  | rules (newID : ℕ → ℕ → RuleID) (job : RuleJob V)
  | profiles (job : SetJob V)
  | applyGroupOps (profileId : String) (ops : List CustomRuleGroupOp)
  | reorderGroups (profileId action : String) (orderedNames : List String)
  | enableBlocklists (profileId : String) (ids : List String)
  | disableBlocklists (profileId : String) (ids : List String)
  | enableServices (profileId : String) (ids : List String)
  | disableServices (profileId : String) (ids : List String)
  | repopulate
  | purge

def Request.flow (accountId : String) : Request V → ProfileFlow Unit
  | .rules newID job => job.flow env casts newID accountId
  | .profiles job => job.flow env casts accountId
  | .applyGroupOps pid ops => do let _ ← applyCustomRuleGroupOps accountId pid ops
  | .reorderGroups pid action orderedNames =>
    do let _ ← reorderCustomRuleGroups accountId pid action orderedNames
  | .enableBlocklists pid ids => Profiles.enableBlocklists accountId pid ids
  | .disableBlocklists pid ids => Profiles.disableBlocklists accountId pid ids
  | .enableServices pid ids => Profiles.enableServices accountId pid ids
  | .disableServices pid ids => Profiles.disableServices accountId pid ids
  | .repopulate => repopulateProfileCache accountId
  | .purge => purgeAccountData accountId

/-- The ids that a request gives to rules are new. -/
def Request.Fresh (s : Stores) : Request V → Prop
  | .rules newID _ => (∀ k, Function.Injective (newID k)) ∧ NewIDs (newID 0) s
  | .profiles (.importProfiles _ newID _ _) => ∀ k, Function.Injective (newID k)
  | .profiles (.patch newID _ _) => NewIDs newID s
  | _ => True

/-- Requests, one after the other. No call of theirs fails. -/
inductive Requests : Stores → List (String × Request V) → Stores → Prop
  | nil (s : Stores) : Requests s [] s
  | cons {s s₁ s₂ : Stores} {a : String} {req : Request V}
      {reqs : List (String × Request V)} {l : Acts}
      {r : Except ServiceErr Unit}
      (hfresh : req.Fresh s) (hreq : Exec workingHandler () (req.flow env casts a).run s l r s₁)
      (hreqs : Requests s₁ reqs s₂) :
      Requests s ((a, req) :: reqs) s₂

variable {env casts} {s s' : Stores} {reqs : List (String × Request V)}

theorem triple_lands {α : Type} {p : ProfileFlow α} {P : Stores → Prop}
    (hp : Lands workingHandler () Mirrors P p fun _ => Mirrors) :
    Triple workingHandler () P p fun _ => Mirrors :=
  triple_conseq hp (fun _ h => h) fun r _ h => match r with
    | .ok _ => h
    | .error _ => h

/-- The result of a request is answered, whatever it is. -/
theorem triple_answered {α : Type} {p : ProfileFlow α} {P : Stores → Prop} 
    (hp : Triple workingHandler () P p fun _ => Mirrors) :
    Triple workingHandler () P (do let _ ← p) fun _ => Mirrors :=
  triple_bind hp (fun _ _ h => h) fun _ => keeps_pure

theorem triple_ruleJob {newID : ℕ → ℕ → RuleID} (a : String) (job : RuleJob V)
    (hnew : ∀ k, Function.Injective (newID k)) :
    Triple workingHandler () (fun s => Mirrors s ∧ NewIDs (newID 0) s) (job.flow env casts newID a)
    fun _ => Mirrors := by
  cases job with
  | create pid action value => exact triple_lands (lands_createCustomRule action value)
  | createBulk pid action values =>
    exact triple_answered (triple_lands (lands_createCustomRulesBulk action values))
  | update pid id fields =>
    exact triple_conseq (triple_answered (triple_lands (lands_updateCustomRule id fields)))
      (fun s h => h.1) fun _ _ h => h
  | delete pid id =>
    exact triple_conseq (triple_lands (lands_deleteCustomRule id)) (fun s h => h.1) fun _ _ h => h
  | reorder pid orderedIds =>
    exact triple_conseq (triple_lands (lands_reorderCustomRules orderedIds)) (fun s h => h.1)
      fun _ _ h => h
  | importProfiles decode mode payload =>
    exact triple_conseq (triple_answered (keeps_importProfiles hnew mode payload)) (fun s h => h.1)
      fun _ _ h => h
  | patch pid updates => exact triple_answered (triple_lands (lands_updateProfile updates))

theorem triple_setJob (a : String) (job : SetJob V) :
    Triple workingHandler () (fun s => Mirrors s ∧ (Request.profiles job).Fresh s)
      (job.flow env casts a) fun _ => Mirrors := by
  cases job with
  | create name =>
    exact triple_conseq (triple_answered (triple_lands (lands_createProfile name))) (fun s h => h.1)
      fun _ _ h => h
  | importProfiles decode newID mode payload =>
    rintro s l r s' ⟨hmirrors, hnew⟩ hexec
    exact triple_answered (keeps_importProfiles hnew mode payload) s l r s' hmirrors hexec
  | delete pid => exact triple_conseq (keeps_deleteProfile false) (fun s h => h.1) fun _ _ h => h
  | patch newID pid updates => exact triple_answered (triple_lands (lands_updateProfile updates))

/-- **Step lemma.** -/
theorem triple_request (a : String) (req : Request V) :
    Triple workingHandler () (fun s => Mirrors s ∧ req.Fresh s) (req.flow env casts a) fun _ =>
      Mirrors := by
  have hkept : ∀ {α : Type} {p : ProfileFlow α}, Lands workingHandler () Mirrors Mirrors p
    (fun _ => Mirrors) →
      Triple workingHandler () (fun s => Mirrors s ∧ req.Fresh s) p fun _ => Mirrors := fun hp =>
    triple_conseq (triple_lands hp) (fun s h => h.1) fun _ _ h => h
  cases req with
  | rules newID job =>
    rintro s l r s' ⟨hmirrors, hnew, hids⟩ hexec
    exact triple_ruleJob a job hnew s l r s' ⟨hmirrors, hids⟩ hexec
  | profiles job => exact triple_setJob a job
  | applyGroupOps pid ops => exact triple_answered (hkept (lands_applyCustomRuleGroupOps ops))
  | reorderGroups pid action orderedNames =>
    exact triple_answered (hkept (lands_reorderCustomRuleGroups action orderedNames))
  | enableBlocklists pid ids => exact hkept (lands_enableBlocklists ids)
  | disableBlocklists pid ids => exact hkept (lands_disableBlocklists ids)
  | enableServices pid ids => exact hkept (lands_enableServices ids)
  | disableServices pid ids => exact hkept (lands_disableServices ids)
  | repopulate =>
    rintro s l r s' ⟨hmirrors, -⟩ hexec
    exact (triple_repopulate a s.profiles s l r s' ⟨hmirrors, rfl⟩ hexec).1.mono fun _ _ =>
      .inl trivial
  | purge => exact triple_conseq keeps_purgeAccountData (fun s h => h.1) fun _ _ h => h

/-- **Redis shows Mongo.** However many requests have been answered, in whatever order and with
whatever errors, the keys of every profile say what its document says. -/
theorem requests_mirror (hs : Mirrors s) (h : Requests env casts s reqs s') : Mirrors s' := by
  induction h with
  | nil s => exact hs
  | cons hfresh hreq hreqs ih => exact ih (triple_request _ _ _ _ _ _ ⟨hs, hfresh⟩ hreq)

end Requests

section Examples

/-- No profile, and every id has keys of one that is gone. -/
def leftoverStores : Stores where
  profiles := []
  redis := oneStores.redis
  blocklists := [⟨"ads", true⟩]

theorem mirrors_leftover : Mirrors leftoverStores :=
  ⟨List.nodup_nil, fun _ => List.nodup_nil, List.forall_mem_nil _, List.forall_mem_nil _,
    fun _ hp => nomatch hp⟩

/-- A request under a list of choices. -/
def requestUnder (req : Request String) (choices : List Choice) (s : Stores) :
    Option (Acts × Except ServiceErr Unit × Stores) :=
  (req.flow exampleEnv textCasts "a").run.exec workingHandler () choices s

/-- Its first request, under choices that it goes through. -/
theorem requests_under {req : Request String} {choices : List Choice} {s s' : Stores}
    {reqs : List (String × Request String)} (h : (requestUnder req choices s).isSome)
    (hfresh : req.Fresh s) (hreqs : Requests exampleEnv textCasts
      ((requestUnder req choices s).get h).2.2 reqs s') :
    Requests exampleEnv textCasts s (("a", req) :: reqs) s' :=
    .cons hfresh (exec_of_choices (Option.some_get h).symm) hreqs

/-- The rules of the profiles have no ids that a request could give again. -/
theorem fresh_of_none {s : Stores} {newID : ℕ → ℕ → RuleID} {job : RuleJob String}
    (hnew : ∀ k, Function.Injective (newID k)) (hnone : ∀ p ∈ s.profiles, p.ruleIDs = []) :
    (Request.rules newID job).Fresh s := by
  refine ⟨hnew, hnew 0, fun p hp id hid => ?_⟩
  rw [hnone p hp] at hid
  cases hid

/-- The profile has lost its keys, as by a cutoff. -/
def lostStores : Stores := { oneStores with redis := fun _ => .absent }

theorem lost_plays :
    ((repopulateProfileCache "a").run.exec workingHandler ()
      (List.replicate 10 .ok) lostStores).isSome := by
  decide +kernel

theorem repopulate_repairs_lost :
    ∃ l r s', Exec workingHandler () (repopulateProfileCache "a").run lostStores l r s' ∧
    (s'.redis "p").Shows oneProfile := by
  have hexec := exec_of_choices (Option.some_get lost_plays).symm
  have hdocuments : MirrorsOn (fun _ => False) lostStores := by
    refine ⟨List.nodup_singleton _, fun _ => List.nodup_nil, ?_, ?_, fun _ _ hasked => hasked.elim⟩
    · exact List.forall_mem_singleton.2 rfl
    · exact List.forall_mem_singleton.2 List.nodup_nil
  exact ⟨_, _, _, hexec, (repopulate_repairs hdocuments hexec).2 oneProfile
    (List.mem_singleton_self _) (.inl rfl)⟩

def officeRequest : Request String := .profiles (.create "office")

def drawsQThen : List Choice := .id "q" :: List.replicate 13 .ok

theorem office_plays : (requestUnder officeRequest drawsQThen leftoverStores).isSome := by
  decide +kernel

def officeStores : Stores :=
  ((requestUnder officeRequest drawsQThen leftoverStores).get office_plays).2.2

/-- Two rules for the new profile; the second one has an invalid value. -/
def rulesRequest : Request String := .rules (fun _ k => k) (.createBulk "q" "block" ["a.io", "a b"])

theorem rules_play : (requestUnder rulesRequest (List.replicate 5 .ok) officeStores).isSome := by
  decide +kernel

def ruledStores : Stores :=
  ((requestUnder rulesRequest (List.replicate 5 .ok) officeStores).get rules_play).2.2

theorem officeStores_rules : ∀ p ∈ officeStores.profiles, p.ruleIDs = [] := by decide +kernel

/-- A creation, and rules for the new profile. -/
theorem office_requests :
    Requests exampleEnv textCasts leftoverStores
      [("a", officeRequest), ("a", rulesRequest)] ruledStores :=
  requests_under office_plays trivial
    (requests_under rules_play (fresh_of_none (fun _ _ _ heq => heq) officeStores_rules)
      (.nil ruledStores))

theorem requests_mirror_office : Mirrors ruledStores ∧ (ruledStores.redis "q").customRules = [0] :=
  ⟨requests_mirror mirrors_leftover office_requests, by decide +kernel⟩

end Examples

end ModDNS.Profiles
