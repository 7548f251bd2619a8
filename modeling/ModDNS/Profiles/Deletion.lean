import ModDNS.Profiles.Lifecycle
import ModDNS.Profiles.Operations
import ModDNS.Profiles.Served

/-!
# Deletion under concurrent writes

One deletion of a profile, or one DNS cutoff of its account, beside any number of the operations
that write to Redis. They look for the profile in Mongo first and write to Redis last.

* `deletion_stays`: once the removal has ended the proxy cannot serve the profile, as long as no
  field of its privacy hash is written after the removal has deleted it; a PATCH of such a field and
  the repopulation write some.
* `late_patch`: a PATCH that brings a deleted profile back.
-/

namespace ModDNS.Profiles

open Conc Rules

/-- What takes the settings of a profile out of Redis. -/
inductive Removal where
  | deleteProfile (accountId profileId : String) (removeLast : Bool)
  | cutOff (accountId : String)

def Removal.run : Removal → ProfileFlow Unit
  | .deleteProfile accountId profileId removeLast =>
    Profiles.deleteProfile accountId profileId removeLast
  | .cutOff accountId => Profiles.cutOff accountId

/-- The operations of an account that write to Redis. -/
inductive RedisWriter (V : Type) where
  | updateProfile (profileId : String) (updates : List (ProfileUpdate V))
  | createCustomRules (profileId action : String) (values : List String)
  | createCustomRule (profileId action value : String)
  | updateCustomRule (profileId : String) (id : RuleID) (patch : CustomRulePatch)
  | deleteCustomRule (profileId : String) (id : RuleID)
  | enableBlocklists (profileId : String) (ids : List String)
  | disableBlocklists (profileId : String) (ids : List String)
  | enableServices (profileId : String) (ids : List String)
  | disableServices (profileId : String) (ids : List String)
  | repopulateProfileCache

section Pool

variable {V : Type} (env : ServiceEnv) (casts : Casts V)

def RedisWriter.run (newID : ℕ → RuleID) (accountId : String) : RedisWriter V → ProfileFlow Unit
  | .updateProfile pid updates =>
    do let _ ← Profiles.updateProfile env casts newID accountId pid updates
  | .createCustomRules pid action values =>
    do let _ ← createCustomRulesBulk env newID accountId pid action values
  | .createCustomRule pid action value =>
    Profiles.createCustomRule env newID accountId pid action value
  | .updateCustomRule pid id patch =>
    do let _ ← Profiles.updateCustomRule env accountId pid id patch
  | .deleteCustomRule pid id => Profiles.deleteCustomRule accountId pid id
  | .enableBlocklists pid ids => Profiles.enableBlocklists accountId pid ids
  | .disableBlocklists pid ids => Profiles.disableBlocklists accountId pid ids
  | .enableServices pid ids => Profiles.enableServices accountId pid ids
  | .disableServices pid ids => Profiles.disableServices accountId pid ids
  | .repopulateProfileCache => Profiles.repopulateProfileCache accountId

/-- The removal is the thread `none`. -/
def removalPool {ι : Type} (newID : ι → ℕ → RuleID) (removal : Removal)
    (writers : ι → String × RedisWriter V) (s : Stores) :
    Pool profileCalls.sig (Option ι) Stores (Except ServiceErr Unit) where
  state := s
  prog
    | none => removal.run.run
    | some i => ((writers i).2.run env casts (newID i) (writers i).1).run

/-- The hashes that the operation can write to. -/
def RedisWriter.Hashes : RedisWriter V → SettingsHash → Prop
  | .updateProfile _ updates, h =>
    ∃ path f, Touches updates path ∧ (patchFields path).hash = some (h, f)
  | .repopulateProfileCache, _ => True
  | _, _ => False

end Pool

section Calls

variable {V : Type} {env : ServiceEnv} {casts : Casts V} {newID : ℕ → RuleID}
  {accountId pid : String}

/-- The call makes no profile, and writes to the hashes of `K` only. -/
def WritesHashes (K : SettingsHash → Prop) : ProfileOp → Prop
  | .createProfile _ => False
  | .redis _ (.hset h _) => K h
  | _ => True

theorem writesHashes_mono {K K' : SettingsHash → Prop} (h : ∀ k, K k → K' k) (o : ProfileOp)
    (ho : WritesHashes K o) :
    WritesHashes K' o := by
  cases o with
  | redis pid cmd => cases cmd <;> first | exact h _ ho | trivial
  | _ => exact ho

/-- The calls of the edits. -/
abbrev IsEdit : ProfileOp → Prop := WritesHashes fun _ => False

theorem within_validate {A : ProfileOp → Prop} (h : A (.getProfileById pid)) :
    Within A (validateProfileIdAffiliation accountId pid) :=
  within_bind (within_act h) fun _ => within_bind within_ensure fun _ => within_pure

theorem within_pipeline {A : ProfileOp → Prop} {cmds : List RedisCmd}
    (h : ∀ cmd ∈ cmds, A (.redis pid cmd)) :
    Within A (pipeline pid cmds) := by
  induction cmds with
  | nil => exact within_pure
  | cons cmd cmds ih =>
    obtain ⟨hcmd, hcmds⟩ := List.forall_mem_cons.1 h
    refine within_bind (within_attempt (within_act hcmd)) fun first => ?_
    refine within_bind (within_attempt (ih hcmds)) fun rest => ?_
    cases first <;> cases rest <;> first | exact within_throw | exact within_pure

theorem within_addCustomRules (rules : List CustomRule) :
    Within IsEdit (addCustomRules pid rules) := by
  refine within_pipeline fun cmd hcmd => ?_
  unfold queueCustomRules at hcmd
  split at hcmd
  · cases hcmd
  · rcases List.mem_append.1 hcmd with hcmd | hcmd
    · obtain ⟨rule, -, rfl⟩ := List.mem_map.1 hcmd
      trivial
    · rw [List.mem_singleton.1 hcmd]
      trivial

theorem within_createCustomRulesBulk (action : String) (values : List String) :
    Within IsEdit (createCustomRulesBulk env newID accountId pid action values) := by
  refine within_bind (within_validate trivial) fun profile => ?_
  cases newCustomRuleAction action with
  | none => exact within_throw
  | some actionCustomRule =>
    simp only
    split
    · exact within_pure
    · refine within_bind (within_act trivial) fun profiles => ?_
      refine within_bind within_ensure fun _ => ?_
      refine within_bind (within_act trivial) fun _ => ?_
      exact within_bind (within_addCustomRules _) fun _ => within_pure

theorem within_createCustomRule (action value : String) :
    Within IsEdit (createCustomRule env newID accountId pid action value) := by
  refine within_bind (within_createCustomRulesBulk action [value]) fun result => ?_
  split
  · split <;> first | exact within_throw | exact within_pure
  · exact within_pure

theorem within_deleteCustomRule (id : RuleID) :
    Within IsEdit (deleteCustomRule accountId pid id) := by
  refine within_bind (within_validate trivial) fun profile => ?_
  refine within_bind within_ensure fun _ => ?_
  refine within_bind (within_act trivial) fun _ => ?_
  exact within_bind (within_act trivial) fun _ => within_act trivial

theorem within_updateCustomRule (id : RuleID) (patch : CustomRulePatch) :
    Within IsEdit (updateCustomRule env accountId pid id patch) := by
  refine within_bind (within_validate trivial) fun profile => ?_
  cases profile.settings.customRules.find? (·.id = id) with
  | none => exact within_throw
  | some existing =>
    simp only
    cases patchProxyFields env profile.settings existing patch with
    | error e => exact within_throw
    | ok rule =>
      refine within_bind (within_act trivial) fun matched => ?_
      refine within_bind within_ensure fun _ => ?_
      exact within_ite (within_bind (within_addCustomRules _) fun _ => within_pure) within_pure

theorem within_checkBlocklists (enabled ids : List String) :
    Within IsEdit (checkBlocklists enabled ids) := by
  induction ids with
  | nil => exact within_pure
  | cons id ids ih =>
    refine within_bind (within_act trivial) fun found => ?_
    exact within_bind within_ensure fun _ => within_bind within_ensure fun _ => ih

theorem within_appendToProfileSettings (list : SettingsList) (ids : List String) :
    Within IsEdit (appendToProfileSettings pid list ids) :=
  within_ite within_pure (within_act trivial)

theorem within_removeFromProfileSettings (list : SettingsList) (ids : List String) :
    Within IsEdit (removeFromProfileSettings pid list ids) := by
  induction ids with
  | nil => exact within_pure
  | cons id ids ih => exact within_bind (within_act trivial) fun _ => ih

theorem within_enableBlocklists (ids : List String) :
    Within IsEdit (enableBlocklists accountId pid ids) := by
  refine within_bind (within_validate trivial) fun profile => ?_
  refine within_bind within_ensure fun _ => ?_
  refine within_bind (within_checkBlocklists _ ids) fun _ => ?_
  exact within_bind (within_act trivial) fun _ => within_appendToProfileSettings _ ids

theorem within_disableBlocklists (ids : List String) :
    Within IsEdit (disableBlocklists accountId pid ids) := by
  refine within_bind (within_validate trivial) fun profile => ?_
  refine within_bind within_ensure fun _ => ?_
  refine within_bind (within_checkBlocklists _ ids) fun _ => ?_
  exact within_bind (within_act trivial) fun _ => within_removeFromProfileSettings _ ids

theorem within_enableServices (ids : List String) :
    Within IsEdit (enableServices accountId pid ids) := by
  refine within_bind (within_validate trivial) fun profile => ?_
  refine within_bind within_ensure fun _ => ?_
  split
  · exact within_throw
  · exact within_bind (within_act trivial) fun _ => within_appendToProfileSettings _ ids

theorem within_disableServices (ids : List String) :
    Within IsEdit (disableServices accountId pid ids) := by
  refine within_bind (within_validate trivial) fun profile => ?_
  refine within_bind within_ensure fun _ => ?_
  refine within_bind within_ensure fun _ => ?_
  exact within_bind (within_act trivial) fun _ => within_removeFromProfileSettings _ ids

/-- The calls of the deletion of a profile. -/
def DeletionCall (pid : String) : ProfileOp → Prop
  | .turn => True
  | .getProfileById _ => True
  | .getProfilesByAccountId _ => True
  | .deleteProfileById pid' => pid' = pid
  | .deleteProfileQueryLogs _ => True
  | .smembers _ => True
  | .redis pid' (.del _) => pid' = pid
  | _ => False

theorem isEdit_deletionCall (o : ProfileOp) (h : DeletionCall pid o) : IsEdit o := by
  cases o with
  | redis pid' cmd => cases cmd <;> trivial
  | createProfile p => exact h
  | _ => trivial

theorem within_deleteProfileSettings : Within (DeletionCall pid) (deleteProfileSettings pid) := by
  have hhashes : ∀ ids, Within (DeletionCall pid) (deleteRuleHashes pid ids) := by
    intro ids
    induction ids with
    | nil => exact within_pure
    | cons id ids ih => exact within_bind (within_act rfl) fun _ => ih
  refine within_bind (within_act rfl) fun _ => ?_
  refine within_bind (within_act trivial) fun ids => ?_
  exact within_bind (hhashes ids) fun _ => within_act rfl

theorem within_checkNotLast {removeLast : Bool} :
    Within (DeletionCall pid) (checkNotLast accountId removeLast) :=
  within_ite within_pure (within_bind (within_act trivial) fun _ => within_ensure)

theorem within_deleteGroup :
    Within (DeletionCall pid) (goroutines [call (.deleteProfileById pid),
      call (.deleteProfileQueryLogs pid), deleteProfileSettings pid]) := by
  refine within_group trivial (List.forall_mem_cons.2 ⟨within_act rfl, ?_⟩)
  refine List.forall_mem_cons.2 ⟨within_act trivial, ?_⟩
  exact List.forall_mem_singleton.2 within_deleteProfileSettings

theorem within_deleteProfile (removeLast : Bool) :
    Within (DeletionCall pid) (deleteProfile accountId pid removeLast) := by
  refine within_bind (within_validate trivial) fun profile => ?_
  exact within_bind within_checkNotLast fun _ => within_deleteGroup

theorem within_forAccount {A : ProfileOp → Prop} {f : Profile → ProfileFlow Unit}
    (hread : A (.getProfilesByAccountId accountId)) (hf : ∀ p, Within A (f p)) :
    Within A (forAccount accountId f) := by
  have heach : ∀ profiles, Within A (eachProfile f profiles) := by
    intro profiles
    induction profiles with
    | nil => exact within_pure
    | cons p profiles ih => exact within_bind (within_attempt (hf p)) fun _ => ih
  refine within_bind (within_attempt (within_act hread)) fun profiles => ?_
  cases profiles with
  | error e => exact within_pure
  | ok profiles => exact heach profiles

theorem within_removal (removal : Removal) : Within IsEdit removal.run := by
  cases removal with
  | deleteProfile accountId pid removeLast =>
    exact within_mono isEdit_deletionCall (within_deleteProfile removeLast)
  | cutOff accountId =>
    exact within_forAccount trivial fun _ =>
      within_mono isEdit_deletionCall within_deleteProfileSettings

/-- What is done for each profile has been done for each, whatever became of the others. -/
theorem ends_eachProfile {f : Profile → ProfileFlow Unit} {profiles : List Profile}
    {l : List profileCalls.sig.Act} {r : Except ServiceErr Unit}
    (h : Ends (eachProfile f profiles).run l r) :
    ∀ p ∈ profiles, ∃ l' r', Ends (f p).run l' r' ∧ l'.Sublist l := by
  induction profiles generalizing l with
  | nil => exact List.forall_mem_nil _
  | cons p profiles ih =>
    obtain ⟨l₁, l₂, r', rfl, hp, hrest⟩ := ends_attempt_bind h
    intro q hq
    rcases List.mem_cons.1 hq with rfl | hq
    · exact ⟨l₁, r', hp, List.sublist_append_left l₁ l₂⟩
    · obtain ⟨l', r'', hends, hsub⟩ := ih hrest q hq
      exact ⟨l', r'', hends, hsub.trans (List.sublist_append_right l₁ l₂)⟩

/-- **A cutoff that has ended** has not got the profiles, or has asked for the deletion of the
settings of each. -/
theorem ends_cutOff {l : List profileCalls.sig.Act} {r : Except ServiceErr Unit}
    (h : Ends (cutOff accountId).run l r) :
    (∃ e, (⟨.getProfilesByAccountId accountId, .error e⟩ : profileCalls.sig.Act) ∈ l) ∨
      ∃ profiles : List Profile,
        (⟨.getProfilesByAccountId accountId, .ok profiles⟩ : profileCalls.sig.Act) ∈ l ∧
        ∀ p ∈ profiles, ∃ r',
        (⟨.redis p.profileId (.del settingsKeys), r'⟩ : profileCalls.sig.Act) ∈ l := by
  obtain ⟨l₁, l₂, listed, rfl, hlist, hrest⟩ := ends_attempt_bind h
  obtain rfl := ends_act hlist
  cases listed with
  | error e => exact .inl ⟨e, List.mem_append_left _ (List.mem_singleton_self _)⟩
  | ok profiles =>
    refine .inr ⟨profiles, List.mem_append_left _ (List.mem_singleton_self _), fun p hp => ?_⟩
    obtain ⟨l', r', hends, hsub⟩ := ends_eachProfile hrest p hp
    -- the first call of a deletion of settings
    obtain ⟨e, rfl, -⟩ | ⟨a, l'', rfl, -⟩ := ends_act_bind hends
    · exact ⟨.error e, List.mem_append_right _ (hsub.subset (List.mem_singleton_self _))⟩
    · exact ⟨.ok a, List.mem_append_right _ (hsub.subset List.mem_cons_self)⟩

theorem within_createOrUpdateProfileSettings (settings : ProfileSettings) :
    Within (WritesHashes fun _ => True) (createOrUpdateProfileSettings settings) := by
  refine within_bind (within_act trivial) fun storedRules => within_pipeline fun cmd _ => ?_
  cases cmd <;> trivial

/-- A PATCH writes to the hashes of the fields that it touches. -/
theorem within_updateProfile (updates : List (ProfileUpdate V)) :
    Within (WritesHashes (RedisWriter.updateProfile pid updates).Hashes)
      (updateProfile env casts newID accountId pid updates) := by
  refine within_bind (within_validate trivial) fun stored => ?_
  refine within_bind_ends (within_mono (writesHashes_mono fun _ => False.elim)
    (within_applyPatchOperations trivial)) ?_
  rintro l ⟨profile, touched⟩ hends
  have hpatched := (ends_applyPatchOperations hends).2
  refine within_ite within_pure ?_
  refine within_bind (within_act trivial) fun now => ?_
  refine within_bind (within_act trivial) fun before => ?_
  refine within_bind (within_act trivial) fun after => ?_
  refine within_bind (within_attempt (within_pipeline ?_)) fun cacheErr => ?_
  · rintro cmd hcmd
    obtain ⟨field, hfield, rfl⟩ := List.mem_map.1 hcmd
    obtain ⟨path, hpath, hmap⟩ := List.mem_filterMap.1 hfield
    obtain ⟨⟨h, f⟩, hk, rfl⟩ := Option.map_eq_some_iff.1 hmap
    exact ⟨path, f, ((hpatched.mem path).1 hpath).resolve_left List.not_mem_nil, hk⟩
  · refine within_bind (within_attempt ?_) fun addErr => ?_
    · exact within_mono (writesHashes_mono fun _ => False.elim) (within_addCustomRules _)
    · cases cacheErr <;> cases addErr <;> first | exact within_throw | exact within_pure

/-- What an operation can write. -/
theorem within_writer (writer : RedisWriter V) :
    Within (WritesHashes writer.Hashes) (writer.run env casts newID accountId) := by
  cases writer with
  | updateProfile pid updates =>
    exact within_bind (within_updateProfile updates) fun _ => within_pure
  | createCustomRules pid action values =>
    exact within_bind (within_createCustomRulesBulk action values) fun _ => within_pure
  | createCustomRule pid action value => exact within_createCustomRule action value
  | updateCustomRule pid id patch =>
    exact within_bind (within_updateCustomRule id patch) fun _ => within_pure
  | deleteCustomRule pid id => exact within_deleteCustomRule id
  | enableBlocklists pid ids => exact within_enableBlocklists ids
  | disableBlocklists pid ids => exact within_disableBlocklists ids
  | enableServices pid ids => exact within_enableServices ids
  | disableServices pid ids => exact within_disableServices ids
  | repopulateProfileCache =>
    exact within_forAccount trivial fun _ => within_createOrUpdateProfileSettings _

end Calls

section Owners

variable {s : Stores} {p : Profile}

/-- A profile that is there after an update of the documents of an id was there before, in the same
account. -/
theorem exists_onProfile {pid : String} {f : Profile → Profile}
    (hf : ∀ q, (f q).profileId = q.profileId ∧ (f q).accountId = q.accountId)
    (hp : p ∈ (s.onProfile pid f).profiles) :
    ∃ q ∈ s.profiles, q.profileId = p.profileId ∧ q.accountId = p.accountId := by
  obtain ⟨q, hq, rfl⟩ := List.mem_map.1 hp
  refine ⟨q, hq, ?_⟩
  split
  · exact ⟨(hf q).1.symm, (hf q).2.symm⟩
  · exact ⟨rfl, rfl⟩

theorem exists_act {x : profileCalls.sig.Act} (hx : ∀ q, x.1 ≠ .createProfile q)
    (hp : p ∈ (s.act x).profiles) :
    ∃ q ∈ s.profiles, q.profileId = p.profileId ∧ q.accountId = p.accountId := by
  obtain ⟨o, r⟩ := x
  unfold Stores.act at hp
  split at hp
  · cases o with
    | createProfile q => exact absurd rfl (hx q)
    | deleteProfileById pid => exact ⟨p, (List.mem_filter.1 hp).1, rfl, rfl⟩
    | edit pid e => exact exists_onProfile (fun q => ⟨edit_profileId q e, by cases e <;> rfl⟩) hp
    | findOneAndUpdate pid upd =>
      exact exists_onProfile
        (fun q => ⟨updateFields_profileId q upd, (sameElse_setFields q upd).accountId⟩) hp
    | _ => exact ⟨p, hp, rfl, rfl⟩
  · exact ⟨p, hp, rfl, rfl⟩

/-- A profile that is there after some calls, of which none has made one, was there before. -/
theorem exists_before {l : List profileCalls.sig.Act} (hl : ∀ x ∈ l, ∀ q, x.1 ≠ .createProfile q)
    (hp : p ∈ (s.after l).profiles) :
    ∃ q ∈ s.profiles, q.profileId = p.profileId ∧ q.accountId = p.accountId := by
  induction l generalizing s with
  | nil => exact ⟨p, hp, rfl, rfl⟩
  | cons x l ih =>
    obtain ⟨hx, hl⟩ := List.forall_mem_cons.1 hl
    obtain ⟨q, hq, hid, howner⟩ := ih hl hp
    obtain ⟨q', hq', hid', howner'⟩ := exists_act hx hq
    exact ⟨q', hq', hid'.trans hid, howner'.trans howner⟩

end Owners

section Run

variable {ι V : Type} [DecidableEq ι] {env : ServiceEnv} {casts : Casts V} {newID : ι → ℕ → RuleID}
  {removal : Removal} {writers : ι → String × RedisWriter V} {s : Stores} {pid : String}
  {es : List (Event profileCalls.sig (Option ι))}
  {R : Pool profileCalls.sig (Option ι) Stores (Except ServiceErr Unit)}

/-- The calls of the thread of an event. -/
theorem event_within
    (hr : Run profileHandler Free (removalPool env casts newID removal writers s) es R)
    {e : Event profileCalls.sig (Option ι)} (he : e ∈ es) :
    WritesHashes (fun h => ∃ i, e.who = some i ∧ (writers i).2.Hashes h) e.op := by
  have hpath := run_path hr e.who
  have hmem : (⟨e.op, e.res⟩ : profileCalls.sig.Act) ∈ trace e.who es := mem_trace.2 he
  cases hwho : e.who with
  | none =>
    rw [hwho] at hpath hmem
    have hcalls := within_path (within_removal removal) hpath _ hmem
    exact writesHashes_mono (fun h => False.elim) _ hcalls
  | some i =>
    rw [hwho] at hpath hmem
    have hcalls := within_path (within_writer (writers i).2) hpath _ hmem
    exact writesHashes_mono (fun h hh => ⟨i, rfl, hh⟩) _ hcalls

/-- **No late write**: no field of the privacy hash of a profile is written after the removal has
deleted it. -/
def NoLateWrite (es : List (Event profileCalls.sig (Option ι))) : Prop :=
  ∀ es₁ x es₂ pid, es = es₁ ++ x :: es₂ → x.who = none → Cleared pid ⟨x.op, x.res⟩ →
    ∀ y ∈ es₂, ¬ Wrote pid ⟨y.op, y.res⟩

/-- The hash that the removal has deleted stays away. -/
theorem not_served_of_cleared (hr : Run profileHandler Free
    (removalPool env casts newID removal writers s) es R) (hcond : NoLateWrite es)
    {x : profileCalls.sig.Act} (hx : x ∈ trace none es) (hcleared : Cleared pid x) :
    ¬ (R.state.redis pid).Served := by
  obtain ⟨es₁, es₂, rfl⟩ := List.append_of_mem (mem_trace.1 hx)
  have hstate := state_run hr
  rw [hstate, served_after]
  refine .inr ⟨acts es₁, x, acts es₂, by simp [acts], hcleared, fun y hy => ?_⟩
  obtain ⟨e, he, rfl⟩ := List.mem_map.1 hy
  exact hcond es₁ _ es₂ pid rfl rfl hcleared e he

/-- No operation makes a profile. -/
theorem event_makes_none (hr : Run profileHandler Free
    (removalPool env casts newID removal writers s) es R) {x : profileCalls.sig.Act}
    (hx : x ∈ acts es) (p : Profile) : x.1 ≠ .createProfile p := by
  intro hop
  obtain ⟨e, he, rfl⟩ := List.mem_map.1 hx
  have hcalls := event_within hr he
  have hop' : e.op = .createProfile p := hop
  rw [hop'] at hcalls
  exact hcalls

/-- **A deletion that has ended** without an error has deleted the document and the hash. -/
theorem deleted_of_ended {accountId : String} {removeLast : Bool}
    (hr : Run profileHandler Free (removalPool env casts newID
      (.deleteProfile accountId pid removeLast) writers s) es R)
    (hdone : R.prog none = .pure (.ok ())) :
    R.state.find pid = none ∧ ∃ x ∈ trace none es, Cleared pid x := by
  have hpath := run_path hr none
  rw [hdone] at hpath
  obtain ⟨hmongo, l', hends, hsub⟩ := ends_deleteProfile_ok hpath
  obtain ⟨ids, rfl⟩ := ends_deleteProfileSettings_ok hends
  refine ⟨?_, ⟨.redis pid (.del settingsKeys), .ok ()⟩, hsub.subset List.mem_cons_self,
    ⟨settingsKeys, by decide, rfl⟩,
    trivial⟩
  obtain ⟨es₁, es₂, rfl⟩ := List.append_of_mem (mem_trace.1 hmongo)
  have hnone := @event_makes_none _ _ _ _ _ _ _ _ _ _ _ hr
  rw [state_run hr, acts, List.map_append, List.map_cons, after_append, after_cons]
  refine find_after_none (find_deleted _ pid) fun x hx p => ?_
  refine hnone ?_ p
  rw [acts, List.map_append, List.map_cons]
  exact List.mem_append_right _ (List.mem_cons_of_mem _ hx)

/-- **A cutoff that has ended** has deleted the hash of each profile of the account, unless a call
of it about the profile, or the read of the profiles, has failed. -/
theorem cleared_of_ended {accountId : String}
    (hr : Run profileHandler Free (removalPool env casts newID (.cutOff accountId) writers s) es R)
    (hdone : R.prog none = .pure (.ok ()))
    (hp : ∃ p ∈ R.state.profiles, p.profileId = pid ∧ p.accountId = accountId)
    (hcalls : ∀ x ∈ trace none es, x.1 = .getProfilesByAccountId accountId ∨
      (∃ cmd, x.1 = .redis pid cmd) →
      ∀ err, x.2 ≠ .error err) : ∃ x ∈ trace none es, Cleared pid x := by
  have hpath := run_path hr none
  rw [hdone] at hpath
  rcases ends_cutOff hpath with ⟨e, hfailed⟩ | ⟨profiles, hlisted, hasked⟩
  · exact absurd rfl (hcalls _ hfailed (.inl rfl) e)
  · -- the profile has been there when the profiles were read
    obtain ⟨q, hq, hid⟩ : ∃ q ∈ profiles, q.profileId = pid := by
      obtain ⟨p, hp, rfl, rfl⟩ := hp
      obtain ⟨es₁, es₂, rfl⟩ := List.append_of_mem (mem_trace.1 hlisted)
      have hnone := @event_makes_none _ _ _ _ _ _ _ _ _ _ _ hr
      obtain ⟨c, hanswer⟩ := answer_run hr
      have hprofiles : profiles = (s.after (acts es₁)).profiles.filter
          (·.accountId = p.accountId) := by
        cases c with
        | ok => exact (Except.ok.inj (Option.some.inj hanswer)).symm
        | _ => cases hanswer
      rw [state_run hr, acts, List.map_append, after_append] at hp
      obtain ⟨q, hq, hid, howner⟩ := exists_before (fun x hx p' => hnone (by
        rw [acts, List.map_append]
        exact List.mem_append_right _ hx) p') hp
      rw [hprofiles]
      exact ⟨q, List.mem_filter.2 ⟨hq, decide_eq_true howner⟩, hid⟩
    obtain ⟨r', hdel⟩ := hasked q hq
    rw [hid] at hdel
    refine ⟨_, hdel, ⟨settingsKeys, by decide, rfl⟩, ?_⟩
    cases r' with
    | ok a => trivial
    | error err => exact absurd rfl (hcalls _ hdel (.inr ⟨_, rfl⟩) err)

/-- **A removal stays**, in every run without a late write: once a `DeleteProfile` has ended without
an error, the profile is not in Mongo and the proxy cannot serve it; once a DNS cutoff has ended,
the proxy cannot serve any profile of the account, unless a call of the cutoff about it, or its read
of the profiles, has failed. Only a PATCH that touches a field of the hash and a repopulation can
write late. -/
theorem deletion_stays (hr : Run profileHandler Free
    (removalPool env casts newID removal writers s) es R) (hcond : NoLateWrite es) :
    (∀ accountId pid removeLast, removal = .deleteProfile accountId pid removeLast →
      R.prog none = .pure (.ok ()) →
      R.state.find pid = none ∧ ¬ (R.state.redis pid).Served) ∧
    (∀ accountId pid, removal = .cutOff accountId → R.prog none = .pure (.ok ()) →
      (∃ p ∈ R.state.profiles, p.profileId = pid ∧ p.accountId = accountId) →
      (∀ x ∈ trace none es, x.1 = .getProfilesByAccountId accountId ∨
        (∃ cmd, x.1 = .redis pid cmd) →
        ∀ err, x.2 ≠ .error err) → ¬ (R.state.redis pid).Served) ∧
    ∀ pid, ∀ e ∈ es, WritesPrivacy pid e.op → ∃ i, e.who = some i ∧
    (writers i).2.Hashes .privacy := by
  refine ⟨?_, ?_, ?_⟩
  · rintro accountId pid removeLast rfl hdone
    obtain ⟨hmongo, x, hx, hcleared⟩ := deleted_of_ended hr hdone
    exact ⟨hmongo, not_served_of_cleared hr hcond hx hcleared⟩
  · rintro accountId pid rfl hdone hp hcalls
    obtain ⟨x, hx, hcleared⟩ := cleared_of_ended hr hdone hp hcalls
    exact not_served_of_cleared hr hcond hx hcleared
  · rintro pid e he ⟨fields, -, hop⟩
    have hcalls := event_within hr he
    rw [hop] at hcalls
    exact hcalls

end Run

section Examples

/-- A PATCH of the default rule, beside the deletion of the profile. -/
def defaultRulePatch : Fin 1 → String × RedisWriter String
  | 0 => ("a", .updateProfile "p" [⟨.replace, .defaultRule, "allow"⟩])

def lastProfileRemoval : Removal := .deleteProfile "a" "p" true

def defaultRulePool : Pool profileCalls.sig (Option (Fin 1)) Stores (Except ServiceErr Unit) :=
  removalPool exampleEnv textCasts (fun _ k => k) lastProfileRemoval defaultRulePatch oneStores

/-- The calls of the deletion: the read, and then one goroutine after the other. -/
def deletes : List (Option (Fin 1) × Choice) :=
  [(none, .ok), (none, .left true), (none, .ok), (none, .left true), (none, .ok), (none, .ok),
    (none, .ok), (none, .ok)]

/-- The deletion comes between the Mongo update and the Redis write of the PATCH. -/
def deletedBetween : List (Option (Fin 1) × Choice) :=
  [(some 0, .ok), (some 0, .time 1), (some 0, .ok), (some 0, .ok)] ++ deletes ++ [(some 0, .ok)]

theorem deletedBetween_plays :
    (play profileHandler Free deletedBetween defaultRulePool).isSome := by
  decide

/-- The deleted profile is back, with a default rule and nothing else. -/
theorem late_patch :
    ∃ es R, Run profileHandler Free defaultRulePool es R ∧ (∀ i, R.prog i = .pure (.ok ())) ∧
      R.state.find "p" = none ∧ (R.state.redis "p").Served := by
  refine ⟨_, _, run_play deletedBetween_plays, fun i =>
    ?_, by decide, "default_rule", .text "allow", by decide⟩
  match i with
  | none => rfl
  | some 0 => rfl

/-- The call writes to a privacy hash. -/
def ProfileOp.setsPrivacy : ProfileOp → Bool
  | .redis _ (.hset .privacy _) => true
  | _ => false

/-- No write is late where each comes before the first call of the removal. -/
theorem noLateWrite_of_take {ι : Type} {es : List (Event profileCalls.sig (Option ι))} (n : ℕ)
    (hfirst : ∀ e ∈ es.take n, e.who ≠ none) (hrest : ∀ e ∈ es.drop n, e.op.setsPrivacy = false) :
    NoLateWrite es := by
  rintro es₁ x es₂ pid rfl hwho - y hy ⟨⟨fields, -, hop⟩, -⟩
  have hmem : y ∈ (es₁ ++ x :: es₂).drop n := by
    by_cases hn : n ≤ es₁.length
    · rw [List.drop_append_of_le_length hn]
      exact List.mem_append_right _ (List.mem_cons_of_mem _ hy)
    · refine absurd hwho (hfirst x ?_)
      rw [List.take_append, List.take_of_length_le (by omega)]
      obtain ⟨k, hk⟩ : ∃ k, n - es₁.length = k + 1 := ⟨n - es₁.length - 1, by omega⟩
      rw [hk, List.take_succ_cons]
      exact List.mem_append_right _ List.mem_cons_self
  have hquiet := hrest y hmem
  have hop' : y.op = .redis pid (.hset .privacy fields) := hop
  rw [hop'] at hquiet
  cases hquiet

/-- A PATCH of the default rule and a new rule, beside a removal. -/
def ruleAndPatch : Fin 2 → String × RedisWriter String
  | 0 => ("a", .updateProfile "p" [⟨.replace, .defaultRule, "allow"⟩])
  | 1 => ("a", .createCustomRule "p" "block" "ads.example.com")

def removedPool (removal : Removal) :
    Pool profileCalls.sig (Option (Fin 2)) Stores (Except ServiceErr Unit) :=
  removalPool exampleEnv textCasts (fun _ k => k) removal ruleAndPatch oneStores

/-- The PATCH, and the first calls of the creation of the rule. -/
def writtenBefore : List (Option (Fin 2) × Choice) :=
  [(some 0, .ok), (some 0, .time 1), (some 0, .ok), (some 0, .ok), (some 0, .ok), (some 1, .ok),
    (some 1, .ok),
    (some 1, .ok)]

/-- The rule comes to Redis between the calls of the deletion. -/
def deletedBeside : List (Option (Fin 2) × Choice) :=
  writtenBefore ++ [(none, .ok), (none, .left true), (none, .ok), (none, .left true),
    (none, .ok), (none, .ok),
    (some 1, .ok), (some 1, .ok), (none, .ok), (none, .ok), (none, .ok)]

/-- And between those of a cutoff. -/
def cutOffBeside : List (Option (Fin 2) × Choice) :=
  writtenBefore ++ [(none, .ok), (none, .ok), (some 1, .ok), (some 1, .ok), (none, .ok),
    (none, .ok), (none, .ok)]

/-- What the two runs have in common: they write the hash before the removal, and the removal has
ended. -/
abbrev Removed (es : List (Event profileCalls.sig (Option (Fin 2))))
    (R : Pool profileCalls.sig (Option (Fin 2)) Stores (Except ServiceErr Unit)) : Prop :=
  (∀ e ∈ es.take 8, e.who ≠ none) ∧ (∀ e ∈ es.drop 8, e.op.setsPrivacy = false) ∧
    (es.any fun e => e.op.setsPrivacy) = true ∧
    (R.prog none).result.map (fun r => r.toOption.isSome) = some true

theorem ended_of_map {R : Pool profileCalls.sig (Option (Fin 2)) Stores (Except ServiceErr Unit)}
    (h : (R.prog none).result.map (fun r => r.toOption.isSome) = some true) :
    R.prog none = .pure (.ok ()) := by
  obtain ⟨r, hr, hok⟩ := Option.map_eq_some_iff.1 h
  cases r with
  | error e => cases hok
  | ok u => exact Prog.result_eq_some.1 hr

theorem deletedBeside_plays :
    (play profileHandler Free deletedBeside (removedPool lastProfileRemoval)).any
    fun x => Removed x.1 x.2 := by
  decide +kernel

theorem cutOffBeside_plays : (play profileHandler Free cutOffBeside (removedPool (.cutOff "a"))).any
    fun x => Removed x.1 x.2 ∧ (∃ p ∈ x.2.state.profiles, p.profileId = "p" ∧ p.accountId = "a") ∧
      ∀ y ∈ trace none x.1, (y.2 : Except ServiceErr (profileCalls.Ans y.1)).toOption.isSome =
        true := by
  decide +kernel

/-- The rule is in Redis behind the deletion and the cutoff, and the proxy does not serve the
profile. -/
theorem deletion_stays_beside :
    (∃ es R, Run profileHandler Free (removedPool lastProfileRemoval) es R ∧
      (es.any fun e => e.op.setsPrivacy) = true ∧
      R.state.find "p" = none ∧ ¬ (R.state.redis "p").Served) ∧
    ∃ es R, Run profileHandler Free (removedPool (.cutOff "a")) es R ∧
    (es.any fun e => e.op.setsPrivacy) = true ∧
      ¬ (R.state.redis "p").Served := by
  constructor
  · obtain ⟨⟨es, R⟩, hplay, hfacts⟩ := (Option.any_eq_true _ _).1 deletedBeside_plays
    obtain ⟨hfirst, hrest, hwrites, hended⟩ := of_decide_eq_true hfacts
    have hr : Run profileHandler Free (removedPool lastProfileRemoval) es R := run_of_play hplay
    have hstays :=
      (deletion_stays hr (noLateWrite_of_take 8 hfirst hrest)).1 "a" "p" true rfl
        (ended_of_map hended)
    exact ⟨es, R, hr, hwrites, hstays⟩
  · obtain ⟨⟨es, R⟩, hplay, hfacts⟩ := (Option.any_eq_true _ _).1 cutOffBeside_plays
    obtain ⟨⟨hfirst, hrest, hwrites, hended⟩, hp, hok⟩ := of_decide_eq_true hfacts
    have hr : Run profileHandler Free (removedPool (.cutOff "a")) es R := run_of_play hplay
    refine ⟨es, R, hr, hwrites, ?_⟩
    refine (deletion_stays hr (noLateWrite_of_take 8 hfirst hrest)).2.1 "a" "p" rfl
      (ended_of_map hended) hp ?_
    intro x hx _ err herr
    have hsome := hok x hx
    rw [herr] at hsome
    cases hsome

end Examples

end ModDNS.Profiles
