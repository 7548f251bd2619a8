import ModDNS.Profiles.Groups
import ModDNS.Profiles.MirrorCalls

/-!
# Edits keep the mirror

Each request that edits a profile ends with its keys showing its document, or with an error that
leaves both.

* `lands_enable`, `lands_disable`: the lists of a profile.
* `lands_updateProfile`: a PATCH, with the rules that it adds.
-/

namespace ModDNS.Profiles

open Conc Rules

section Edits

/-! ### The edits of a profile -/

variable {ι : Type} {i : ι} {env : ServiceEnv} {newID : ℕ → RuleID} {accountId pid : String}
  {s : Stores} {p : Profile}

/-- The ids that a request gives to rules are new. -/
structure NewIDs (newID : ℕ → RuleID) (s : Stores) : Prop where
  injective : Function.Injective newID
  unused : ∀ p ∈ s.profiles, ∀ id ∈ p.ruleIDs, ∀ k, newID k ≠ id

/-- New rules behind those of the profile. -/
theorem shows_created {c : CachedSettings} {rules : List CustomRule} (h : c.Shows p)
    (hids : (rules.map (·.id)).Nodup)
    (hnew : ∀ rule ∈ p.settings.customRules, rule.id ∉ rules.map (·.id)) :
    (c.after (queueCustomRules rules)).Shows ((ProfileEdit.createCustomRules rules).run p) := by
  refine shows_queue h hids (fun l => ?_) (fun path => ?_) (fun id => ?_) fun rule hrule => ?_
  · cases l <;> rfl
  · cases path <;> rfl
  · have hall : ((ProfileEdit.createCustomRules rules).run p).ruleIDs = p.ruleIDs ++ rules.map
        (·.id) := List.map_append
    rw [hall, List.mem_append, or_comm]
  · rcases List.mem_append.1 hrule with hrule | hrule
    · exact .inr ⟨hnew rule hrule, hrule⟩
    · exact .inl hrule

theorem nodup_created {rules : List CustomRule} (h : p.ruleIDs.Nodup)
    (hids : (rules.map (·.id)).Nodup)
    (hnew : ∀ rule ∈ p.settings.customRules, rule.id ∉ rules.map (·.id)) :
    ((ProfileEdit.createCustomRules rules).run p).ruleIDs.Nodup := by
  have hall : ((ProfileEdit.createCustomRules rules).run p).ruleIDs = p.ruleIDs ++ rules.map
      (·.id) := List.map_append
  rw [hall]
  refine List.nodup_append.2 ⟨h, hids, ?_⟩
  rintro a ha b hb rfl
  obtain ⟨rule, hrule, rfl⟩ := List.mem_map.1 ha
  exact hnew rule hrule hb

theorem lands_createCustomRulesBulk (action : String) (values : List String) :
    Lands workingHandler i Mirrors (fun s => Mirrors s ∧ NewIDs newID s)
      (createCustomRulesBulk env newID accountId pid action values) fun _ => Mirrors := by
  unfold createCustomRulesBulk
  refine lands_bind (lands_validate fun s h => h.1) fun p => ?_
  cases newCustomRuleAction action with
  | none => exact lands_throw fun s h => h.1.1
  | some act =>
    have hsound : BulkSound newID p.settings (values.foldl (bulkStep env.tags newID p.settings act)
        ⟨p.settings.customRules.map (·.value), [], [], []⟩) := bulkSound_loop values
    dsimp only
    generalize values.foldl (bulkStep env.tags newID p.settings act) _ = st at hsound
    refine lands_ite (fun _ => lands_pure fun s h => h.1.1) fun _ => ?_
    refine lands_bind (lands_read (o := .getProfilesByAccountId accountId) (fun _ => rfl) fun s h =>
      h.1.1) fun profiles => ?_
    refine lands_ensure_bind (fun s h => h.1.1.1) fun _ => ?_
    refine lands_bind (lands_edit p (queueCustomRules st.toCreate) ?_) fun n => ?_
    · rintro s ⟨⟨⟨hmirrors, hnew⟩, hp⟩, -⟩
      have hids : (st.toCreate.map (·.id)).Nodup := by
        rw [hsound.ids]
        exact List.nodup_range.map hnew.injective
      have hfresh : ∀ rule ∈ p.settings.customRules, rule.id ∉ st.toCreate.map (·.id) := by
        intro rule hrule hid
        rw [hsound.ids] at hid
        obtain ⟨k, -, hk⟩ := List.mem_map.1 hid
        exact hnew.unused p (mem_of_find hp).1 rule.id (List.mem_map_of_mem hrule) k hk
      exact ⟨hmirrors, hp, nodup_created (hmirrors.ids p (mem_of_find hp).1) hids hfresh,
        shows_created (hmirrors.shown hp) hids hfresh⟩
    · exact lands_bind (lands_send fun s h => h.1) fun _ => lands_pure fun s h => h

theorem lands_createCustomRule (action value : String) :
    Lands workingHandler i Mirrors (fun s => Mirrors s ∧ NewIDs newID s)
      (createCustomRule env newID accountId pid action value) fun _ => Mirrors := by
  unfold createCustomRule
  refine lands_bind (lands_createCustomRulesBulk action [value]) fun result => ?_
  split
  · split
    · exact lands_throw fun s h => h
    · exact lands_throw fun s h => h
    · exact lands_pure fun s h => h
  · exact lands_pure fun s h => h

theorem lands_deleteCustomRule (id : RuleID) :
    Lands workingHandler i Mirrors Mirrors (deleteCustomRule accountId pid id) fun _ =>
      Mirrors := by
  unfold deleteCustomRule
  refine lands_bind (lands_validate fun s h => h) fun p => ?_
  refine lands_ensure_bind (fun s h => h.1) fun _ => ?_
  refine lands_bind (lands_edit p [.del [.customRule id], .srem [id]] ?_) fun n => ?_
  · rintro s ⟨hmirrors, hp⟩
    refine ⟨hmirrors, hp, ?_, shows_removeRule (hmirrors.shown hp) id (fun l => ?_)
      (fun path => ?_) rfl⟩
    · exact (hmirrors.ids p (mem_of_find hp).1).sublist (List.filter_sublist.map _)
    · cases l <;> rfl
    · cases path <;> rfl
  · refine lands_bind (lands_conseq (lands_redis (owes_pays _ pid) _ _) (fun s h => h.1)
      fun _ _ h => h) fun _ => ?_
    exact lands_conseq (lands_redis (owes_pays _ pid) _ _) (fun s h => h) fun _ _ howes =>
      howes.mirrors

theorem ruleIDs_updated (p : Profile) (updated : CustomRule) :
    ((ProfileEdit.updateCustomRule updated).run p).ruleIDs = p.ruleIDs := by
  simp only [Profile.ruleIDs, ProfileEdit.run, List.map_map]
  apply List.map_congr_left
  intro r _
  simp only [Function.comp_apply]
  split
  · next heq => exact heq.symm
  · rfl

/-- A rule in the place of the one with its id. -/
theorem shows_updated {c : CachedSettings} {existing updated : CustomRule} (h : c.Shows p)
    (hids : p.ruleIDs.Nodup) (hexisting : existing ∈ p.settings.customRules)
    (hid : updated.id = existing.id) :
    (c.after (if updated.cached ≠ existing.cached then queueCustomRules [updated] else [])).Shows
      ((ProfileEdit.updateCustomRule updated).run p) := by
  have hone : ∀ r ∈ p.settings.customRules, r.id = updated.id → r = existing := fun r hr hr' =>
    List.inj_on_of_nodup_map hids hr hexisting (hr'.trans hid)
  split
  · refine shows_queue h (List.nodup_singleton _) (fun l => ?_) (fun path => ?_) (fun id => ?_)
      fun rule hrule => ?_
    · cases l <;> rfl
    · cases path <;> rfl
    · rw [ruleIDs_updated, List.map_singleton, List.mem_singleton]
      refine ⟨.inr, fun hor => hor.elim (fun heq => ?_) fun h => h⟩
      rw [heq, hid]
      exact List.mem_map_of_mem hexisting
    · obtain ⟨r, hr, rfl⟩ := List.mem_map.1 hrule
      split
      · exact .inl (List.mem_singleton_self _)
      · next hne => exact .inr ⟨by rwa [List.map_singleton, List.mem_singleton], hr⟩
  · next hcached =>
    rw [cached_after_nil]
    refine h.congr (fun l => ?_) (fun path => ?_) ?_
    · cases l <;> rfl
    · cases path <;> rfl
    · simp only [ProfileEdit.run, List.map_map]
      apply List.map_congr_left
      intro r hr
      simp only [Function.comp_apply]
      split
      · next heq =>
        obtain rfl := hone r hr heq
        rw [not_not.1 hcached, hid]
      · rfl

theorem lands_updateCustomRule (id : RuleID) (patch : CustomRulePatch) :
    Lands workingHandler i Mirrors Mirrors (updateCustomRule env accountId pid id patch) fun _ =>
      Mirrors := by
  unfold updateCustomRule
  refine lands_bind (lands_validate fun s h => h) fun p => ?_
  cases hfound : p.settings.customRules.find? (·.id = id) with
  | none => exact lands_throw fun s h => h.1
  | some existing =>
    cases hpatch : patchProxyFields env p.settings existing patch with
    | error e =>
      dsimp only
      rw [hpatch]
      exact lands_throw fun s h => h.1
    | ok rule =>
      have hexisting := List.mem_of_find?_eq_some hfound
      have hid : (patchLabels rule patch).id = existing.id := (patchProxyFields_ok hpatch).1
      dsimp only
      rw [hpatch]
      dsimp only
      generalize patchLabels rule patch = updated at hid
      refine lands_bind
        (lands_edit p (if updated.cached ≠ existing.cached then
          queueCustomRules [updated] else []) ?_)
        fun (matched : ℕ) => ?_
      · rintro s ⟨hmirrors, hp⟩
        have hids := hmirrors.ids p (mem_of_find hp).1
        refine ⟨hmirrors, hp, ?_, shows_updated (hmirrors.shown hp) hids hexisting hid⟩
        rw [ruleIDs_updated]
        exact hids
      -- the document matches: the rule is in it
      have hmatches : (ProfileEdit.updateCustomRule updated).Matches p := by
        show updated.id ∈ p.settings.customRules.map (·.id)
        rw [hid]
        exact List.mem_map_of_mem hexisting
      refine lands_ensure_known (fun s h => h.2 hmatches) ?_
      split
      · exact lands_bind (lands_send fun s h => h.1) fun _ => lands_pure fun s h => h
      · exact lands_pure fun s h => h.1.mirrors

/-- An edit of what Redis does not hold. -/
theorem lands_aside {e : ProfileEdit} {P : Stores → Prop}
    (hP : ∀ s, P s → Mirrors s ∧ s.find pid = some p) (hlists : ∀ l, (e.run p).list l = p.list l)
    (hvalues : ∀ path, (e.run p).value path = p.value path)
    (hrules : (e.run p).settings.customRules.map (fun r => (r.id, r.cached)) =
      p.settings.customRules.map fun r => (r.id, r.cached)) :
    Lands workingHandler i Mirrors P (call (.edit pid e)) fun _ s =>
    Mirrors s ∧ s.find pid = some (e.run p) := by
  have hids : (e.run p).ruleIDs = p.ruleIDs := by
    have hfst := congrArg (List.map Prod.fst) hrules
    rwa [List.map_map, List.map_map] at hfst
  refine lands_sure (o := .edit pid e) trivial fun s matched h _ => ?_
  obtain ⟨hmirrors, hp⟩ := hP s h
  have hnamed : (e.run p).settings.profileId = p.settings.profileId := by cases e <;> rfl
  have hshows : ((s.redis pid).after []).Shows (e.run p) :=
    (hmirrors.shown hp).congr hlists hvalues hrules
  refine ⟨(hmirrors.update hp (fun p => edit_profileId p e) hnamed ?_ hshows).mirrors, ?_⟩
  · rw [hids]
    exact hmirrors.ids p (mem_of_find hp).1
  · have hfound : (s.onProfile pid e.run).find pid = (s.find pid).map e.run :=
      find_onProfile_self fun p => edit_profileId p e
    exact hfound.trans (by rw [hp]; rfl)

theorem lands_reorderCustomRules (orderedIds : List RuleID) :
    Lands workingHandler i Mirrors Mirrors (reorderCustomRules accountId pid orderedIds) fun _ =>
      Mirrors := by
  unfold reorderCustomRules
  refine lands_bind (lands_validate fun s h => h) fun p =>
    lands_ensure_bind (fun s h => h.1) fun _ => ?_
  refine lands_ite (fun _ => lands_pure fun s h => h.1) fun _ => ?_
  refine lands_bind (lands_aside (p := p) (fun s h => h) (fun l => ?_) (fun path => ?_) ?_) fun _ =>
    lands_pure fun s h => h.1
  · cases l <;> rfl
  · cases path <;> rfl
  · simp only [ProfileEdit.run, List.map_map]
    rfl

/-- A relabelling keeps the ids and what Redis holds of the rules. -/
theorem lands_reassign {P : Stores → Prop} (action src dst : String)
    (hP : ∀ s, P s → Mirrors s ∧ ∃ p, s.find pid = some p) :
    Lands workingHandler i Mirrors P (call (.edit pid (.reassignCustomRuleGroup action src dst)))
      fun _ s => Mirrors s ∧ ∃ p, s.find pid = some p := by
  intro s l r s' h hexec
  obtain ⟨hmirrors, p, hp⟩ := hP s h
  have hone : Lands workingHandler i Mirrors (fun s => Mirrors s ∧ s.find pid = some p)
      (call (.edit pid (.reassignCustomRuleGroup action src dst))) fun _ s =>
        Mirrors s ∧ ∃ p, s.find pid = some p := by
    refine lands_conseq (lands_aside (p := p) (fun s h => h) (fun l => ?_) (fun path => ?_) ?_)
      (fun _ h => h)
      fun _ s h => ⟨h.1, _, h.2⟩
    · cases l <;> rfl
    · cases path <;> rfl
    · simp only [ProfileEdit.run, List.map_map]
      apply List.map_congr_left
      intro r _
      simp only [Function.comp_apply]
      split
      · rfl
      · rfl
  exact hone s l r s' ⟨hmirrors, hp⟩ hexec

theorem lands_setGroups {P : Stores → Prop} (groups : CustomRuleGroups)
    (hP : ∀ s, P s → Mirrors s ∧ ∃ p, s.find pid = some p) :
    Lands workingHandler i Mirrors P (call (.edit pid (.setCustomRuleGroups groups))) fun _ =>
    Mirrors := by
  intro s l r s' h hexec
  obtain ⟨hmirrors, p, hp⟩ := hP s h
  have hone : Lands workingHandler i Mirrors (fun s => Mirrors s ∧ s.find pid = some p)
      (call (.edit pid (.setCustomRuleGroups groups))) fun _ => Mirrors := by
    refine lands_conseq (lands_aside (p := p) (fun s h => h) (fun l => ?_) (fun path => ?_) rfl)
      (fun _ h => h) fun _ s h => h.1
    · cases l <;> rfl
    · cases path <;> rfl
  exact hone s l r s' ⟨hmirrors, hp⟩ hexec

theorem lands_groupOp (op : CustomRuleGroupOp) (groups : CustomRuleGroups) :
    Lands workingHandler i Mirrors (fun s => Mirrors s ∧ ∃ p, s.find pid = some p)
      (groupOp pid op groups)
      fun _ s => Mirrors s ∧ ∃ p, s.find pid = some p := by
  unfold groupOp
  refine lands_ite (fun _ => ?_) fun _ => lands_ite (fun _ => ?_) fun _ =>
    lands_ite (fun _ => ?_) fun _ => ?_
  · exact lands_ensure_bind (fun s h => h.1) fun _ => lands_pure fun s h => h
  · refine lands_ensure_bind (fun s h => h.1) fun _ => ?_
    exact lands_bind (lands_reassign _ _ _ fun s h => h) fun _ => lands_pure fun s h => h
  · refine lands_ensure_bind (fun s h => h.1) fun _ =>
      lands_ite (fun _ => lands_pure fun s h => h) fun _ => ?_
    exact lands_bind (lands_reassign _ _ _ fun s h => h) fun _ => lands_pure fun s h => h
  · exact lands_throw fun s h => h.1

theorem lands_groupOps (ops : List CustomRuleGroupOp) (groups : CustomRuleGroups) :
    Lands workingHandler i Mirrors (fun s => Mirrors s ∧ ∃ p, s.find pid = some p)
      (groupOps pid ops groups)
      fun _ s => Mirrors s ∧ ∃ p, s.find pid = some p := by
  induction ops generalizing groups with
  | nil => exact lands_pure fun s h => h
  | cons op ops ih =>
    refine lands_ensure_bind (fun s h => h.1) fun _ => ?_
    exact lands_bind (lands_groupOp op groups) fun groups => ih groups

theorem lands_applyCustomRuleGroupOps (ops : List CustomRuleGroupOp) :
    Lands workingHandler i Mirrors Mirrors (applyCustomRuleGroupOps accountId pid ops) fun _ =>
      Mirrors := by
  unfold applyCustomRuleGroupOps
  refine lands_bind (lands_validate fun s h => h) fun p => ?_
  refine lands_bind (lands_conseq (lands_groupOps ops _) (fun s h => ⟨h.1, p, h.2⟩) fun _ _ h => h)
    fun groups => ?_
  exact lands_bind (lands_setGroups groups fun s h => h) fun _ => lands_pure fun s h => h

theorem lands_reorderCustomRuleGroups (action : String) (orderedNames : List String) :
    Lands workingHandler i Mirrors Mirrors
      (reorderCustomRuleGroups accountId pid action orderedNames) fun _ => Mirrors := by
  unfold reorderCustomRuleGroups
  refine lands_bind (lands_validate fun s h => h) fun p =>
    lands_ensure_bind (fun s h => h.1) fun _ => ?_
  exact lands_bind (lands_setGroups _ fun s h => ⟨h.1, p, h.2⟩) fun _ => lands_pure fun s h => h

theorem lands_checkBlocklists {P : Stores → Prop} (hI : ∀ s, P s → Mirrors s)
    (enabled ids : List String) :
    Lands workingHandler i Mirrors P (checkBlocklists enabled ids) fun _ => P := by
  induction ids with
  | nil => exact lands_pure fun s h => h
  | cons id ids ih =>
    refine lands_bind (lands_read (o := .getBlocklist (.blocklistID id)) (fun _ => rfl) hI)
      fun found => ?_
    refine lands_ensure_bind (fun s h => hI s h.1) fun _ =>
      lands_ensure_bind (fun s h => hI s h.1) fun _ => ?_
    exact lands_conseq ih (fun s h => h.1) fun _ _ h => h

/-- An edit that puts ids into a list. -/
theorem lands_enable {e : ProfileEdit} {P : Stores → Prop} (l : SettingsList) (ids : List String)
    (hP : ∀ s, P s → Mirrors s ∧ s.find pid = some p)
    (hlist : (e.run p).list l = addToSet (p.list l) ids)
    (hothers : ∀ l', l' ≠ l → (e.run p).list l' = p.list l')
    (hvalues : ∀ path, (e.run p).value path = p.value path)
    (hrules : (e.run p).settings.customRules = p.settings.customRules) (hids : ids ≠ []) :
    Lands workingHandler i Mirrors P
    (do let _ ← call (.edit pid e); appendToProfileSettings pid l ids) fun _ => Mirrors := by
  refine lands_bind (lands_edit p [.rpush l ids] fun s h => ?_) fun n => ?_
  · obtain ⟨hmirrors, hp⟩ := hP s h
    refine ⟨hmirrors, hp, ?_, shows_rpush (hmirrors.shown hp) l ids hlist hothers hvalues hrules⟩
    rw [Profile.ruleIDs, hrules]
    exact hmirrors.ids p (mem_of_find hp).1
  · refine lands_ite (fun hnil => absurd hnil hids) fun _ => ?_
    exact lands_conseq (lands_redis (owes_pays _ pid) _ _) (fun s h => h.1) fun _ _ howes =>
      howes.mirrors

theorem lands_removeFrom {asked : String → Prop} {I : Stores → Prop} (l : SettingsList)
    (ids : List String) :
    Lands workingHandler i I (Owes asked pid (ids.map (.lrem l)))
    (removeFromProfileSettings pid l ids)
      fun _ => Owes asked pid [] := by
  induction ids with
  | nil => exact lands_pure fun s h => h
  | cons id ids ih => exact lands_bind (lands_redis (owes_pays asked pid) _ _) fun _ => ih

/-- An edit that takes ids out of a list. -/
theorem lands_disable {e : ProfileEdit} {P : Stores → Prop} (l : SettingsList) (ids : List String)
    (hP : ∀ s, P s → Mirrors s ∧ s.find pid = some p)
    (hlist : (e.run p).list l = (p.list l).filter (· ∉ ids))
    (hothers : ∀ l', l' ≠ l → (e.run p).list l' = p.list l')
    (hvalues : ∀ path, (e.run p).value path = p.value path)
    (hrules : (e.run p).settings.customRules = p.settings.customRules) :
    Lands workingHandler i Mirrors P
    (do let _ ← call (.edit pid e); removeFromProfileSettings pid l ids) fun _ => Mirrors := by
  refine lands_bind (lands_edit p (ids.map (.lrem l)) fun s h => ?_) fun n => ?_
  · obtain ⟨hmirrors, hp⟩ := hP s h
    refine ⟨hmirrors, hp, ?_, shows_lrems (hmirrors.shown hp) l ids hlist hothers hvalues hrules⟩
    rw [Profile.ruleIDs, hrules]
    exact hmirrors.ids p (mem_of_find hp).1
  · exact lands_conseq (lands_removeFrom l ids) (fun s h => h.1) fun _ _ howes => howes.mirrors

theorem lands_enableBlocklists (ids : List String) :
    Lands workingHandler i Mirrors Mirrors (enableBlocklists accountId pid ids) fun _ =>
      Mirrors := by
  unfold enableBlocklists
  refine lands_bind (lands_validate fun s h => h) fun p =>
    lands_ensure_bind (fun s h => h.1) fun hids => ?_
  refine lands_bind (lands_checkBlocklists (fun s h => h.1) _ ids) fun _ => ?_
  refine lands_enable .blocklists ids (fun s h => h) rfl (fun l hl => ?_) (fun path => ?_) rfl hids
  · cases l with
    | blocklists => exact absurd rfl hl
    | services => rfl
  · cases path <;> rfl

theorem lands_disableBlocklists (ids : List String) :
    Lands workingHandler i Mirrors Mirrors (disableBlocklists accountId pid ids) fun _ =>
      Mirrors := by
  unfold disableBlocklists
  refine lands_bind (lands_validate fun s h => h) fun p =>
    lands_ensure_bind (fun s h => h.1) fun hids => ?_
  refine lands_bind (lands_checkBlocklists (fun s h => h.1) _ ids) fun _ => ?_
  refine lands_disable (p := p) .blocklists ids (fun s h => h) rfl (fun l hl => ?_)
    (fun path => ?_) rfl
  · cases l with
    | blocklists => exact absurd rfl hl
    | services => rfl
  · cases path <;> rfl

theorem lands_enableServices (ids : List String) :
    Lands workingHandler i Mirrors Mirrors (enableServices accountId pid ids) fun _ => Mirrors := by
  unfold enableServices
  refine lands_bind (lands_validate fun s h => h) fun p =>
    lands_ensure_bind (fun s h => h.1) fun hids => ?_
  split
  · exact lands_throw fun s h => h.1
  · refine lands_enable .services ids (fun s h => h) rfl (fun l hl => ?_) (fun path => ?_) rfl hids
    · cases l with
      | blocklists => rfl
      | services => exact absurd rfl hl
    · cases path <;> rfl

theorem lands_disableServices (ids : List String) :
    Lands workingHandler i Mirrors Mirrors (disableServices accountId pid ids) fun _ =>
      Mirrors := by
  unfold disableServices
  refine lands_bind (lands_validate fun s h => h) fun p =>
    lands_ensure_bind (fun s h => h.1) fun hids => ?_
  refine lands_ensure_bind (fun s h => h.1) fun _ => ?_
  refine lands_disable (p := p) .services ids (fun s h => h) rfl (fun l hl => ?_)
    (fun path => ?_) rfl
  · cases l with
    | blocklists => rfl
    | services => exact absurd rfl hl
  · cases path <;> rfl

end Edits

section Patch

/-! ### The settings of a profile -/

variable {ι V : Type} {i : ι} {env : ServiceEnv} {casts : Casts V} {newID : ℕ → RuleID}
  {accountId pid : String} {p : Profile}

/-- On the way to its copy a PATCH changes nothing. -/
theorem lands_applyPatchOperations {P : Stores → Prop} (hI : ∀ s, P s → Mirrors s)
    (updates : List (ProfileUpdate V)) :
    Lands workingHandler i Mirrors P (applyPatchOperations env casts accountId updates p)
      fun r s => P s ∧ Patched env casts updates p r.1 [] r.2 := by
  have hwithin : Within IsRead (applyPatchOperations env casts accountId updates p) :=
    within_applyPatchOperations (A := IsRead) trivial
  have hkeeps : Keeps workingHandler i P (applyPatchOperations env casts accountId updates p) := by
    refine keeps_within hwithin fun o c s r s' ho hP hc => ?_
    obtain ⟨a, -, -, rfl⟩ | ⟨e, -, -, rfl⟩ := handled_works hc
    · rwa [effect_read ho]
    · exact hP
  intro s l r s' hP hexec
  have hP' := hkeeps s l r s' hP hexec
  cases r with
  | error e => exact hI s' hP'
  | ok r => exact ⟨hP', (ends_applyPatchOperations (exec_path hexec)).2⟩

/-- A PATCH owes the commands of its fields and of the rules that it has added. -/
theorem owes_patch {s : Stores} {updates : List (ProfileUpdate V)} {copy : Profile}
    {touched : List PatchPath} (now : ℕ) (hmirrors : Mirrors s) (hnew : NewIDs newID s)
    (hp : s.find pid = some p) (hpatched : Patched env casts updates p copy [] touched) :
    Owes (fun _ => True) pid
      (patchCmds touched copy (updateFields p (fieldsUpdate env newID now touched copy))
        (fieldsUpdate env newID now touched copy))
      (s.onProfile pid (updateFields · (fieldsUpdate env newID now touched copy))) := by
  have hmem := (mem_of_find hp).1
  -- the ids drawn are none of the stored rules
  have hunused : ∀ rule ∈ p.settings.customRules, ∀ n, rule.id ≠ newID n := fun rule hrule n heq =>
    hnew.unused p hmem rule.id (List.mem_map_of_mem hrule) n heq.symm
  have hoffered : ((fieldsUpdate env newID now touched copy).appendCustomRules.map (·.id)).Nodup ∧
      ∀ id ∈ (fieldsUpdate env newID now touched copy).appendCustomRules.map (·.id), ∃ n,
        id = newID n :=
    offered_ids hnew.injective
  have hvalues : ∀ path, (updateFields p (fieldsUpdate env newID now touched copy)).value path =
      if path ∈ touched then copy.value path else p.value path :=
        value_fieldsUpdate env (hpatched.nodup List.nodup_nil) copy p
  generalize hupd : fieldsUpdate env newID now touched copy = upd at hoffered hvalues
  obtain ⟨rules, hrules, hcached⟩ :=
    cached_update hnew.injective hunused hpatched hupd.symm rfl (s.redis pid)
  -- the rules added are some of those offered, with ids of their own
  have hadded : rules.Sublist upd.appendCustomRules := by
    obtain ⟨added, heq, hsub⟩ := appended_sublist p.settings.customRules upd.appendCustomRules
    rw [updateFields_customRules, heq] at hrules
    exact (List.append_cancel_left hrules) ▸ hsub
  have hfresh : ∀ rule ∈ p.settings.customRules, rule.id ∉ rules.map (·.id) := by
    intro rule hrule hid
    obtain ⟨n, hn⟩ := hoffered.2 _ ((hadded.map _).subset hid)
    exact hunused rule hrule n hn
  have hids : (updateFields p upd).ruleIDs = p.ruleIDs ++ rules.map (·.id) := by
    rw [Profile.ruleIDs, hrules, List.map_append]
    rfl
  -- ids, lists, fields, members and rules, one after the other
  refine hmirrors.update hp (fun p => updateFields_profileId p upd)
    (updateFields_settingsId p upd) ?_
    ⟨fun l => ?_, fun path h f hk => ?_, fun id => ?_, fun rule hrule => ?_⟩
  · rw [hids]
    refine List.nodup_append.2 ⟨hmirrors.ids p hmem, hoffered.1.sublist (hadded.map _), ?_⟩
    rintro a ha b hb rfl
    obtain ⟨rule, hrule, rfl⟩ := List.mem_map.1 ha
    exact hfresh rule hrule hb
  · have hsame := sameElse_setFields p upd
    have hlist : (updateFields p upd).list l = p.list l := by
      cases l with
      | blocklists => exact hsame.blocklists
      | services => exact hsame.services
    rw [hcached.lists, hlist]
    exact (hmirrors.shown hp).lists l
  · by_cases htouches : Touches updates path
    · exact hcached.named path h f hk htouches
    · have huntouched : path ∉ touched := fun hin =>
        ((hpatched.mem path).1 hin).elim (fun hnil => absurd hnil List.not_mem_nil) htouches
      rw [hcached.unnamed h f fun path' hk' => hash_injective hk hk' ▸ htouches, hvalues,
        if_neg huntouched]
      exact (hmirrors.shown hp).fields path h f hk
  · rw [hcached.ids, hids, List.mem_append, (hmirrors.shown hp).members, or_comm]
  · rw [hrules] at hrule
    rcases List.mem_append.1 hrule with hrule | hrule
    · rw [hcached.other _ (hfresh rule hrule)]
      exact (hmirrors.shown hp).rules rule hrule
    · exact hcached.added rule hrule

theorem lands_updateProfile (updates : List (ProfileUpdate V)) :
    Lands workingHandler i Mirrors (fun s => Mirrors s ∧ NewIDs newID s)
      (updateProfile env casts newID accountId pid updates)
      fun _ => Mirrors := by
  unfold updateProfile
  refine lands_bind (lands_validate fun s h => h.1) fun stored => ?_
  refine lands_bind (lands_applyPatchOperations (fun s h => h.1.1) updates) ?_
  rintro ⟨copy, touched⟩
  dsimp only
  refine lands_ite (fun _ => lands_pure fun s h => h.1.1.1) fun _ => ?_
  refine lands_bind (lands_read (o := .now) (fun _ => rfl) fun s h => h.1.1.1) fun now => ?_
  generalize hupd : fieldsUpdate env newID now touched copy = upd
  have hafter : ∀ s, s.find pid = some stored → 
      ((ProfileOp.findOneAndUpdate pid upd).effect s).find pid = some
        (updateFields stored upd) := by
    intro s hp
    have hfound : (s.onProfile pid (updateFields · upd)).find pid = (s.find pid).map
      (updateFields · upd) :=
      find_onProfile_self fun p => updateFields_profileId p upd
    exact hfound.trans (by rw [hp]; rfl)
  refine lands_bind (R := fun _ s => Owes (fun _ => True) pid
    (patchCmds touched copy (updateFields stored upd) upd) s ∧
    s.find pid = some (updateFields stored upd))
    (lands_call (fun s h => h.1.1.1.1) fun s before h _ => ?_) fun before => ?_
  · obtain ⟨⟨⟨⟨hmirrors, hnew⟩, hp⟩, hpatched⟩, -⟩ := h
    have howes := owes_patch now hmirrors hnew hp hpatched
    rw [hupd] at howes
    exact ⟨howes, hafter s hp⟩
  refine lands_bind (lands_found fun s h => h.2) fun after => ?_
  rintro s l r s' ⟨⟨howes, -⟩, rfl⟩ hexec
  -- both pipelines go out, whatever the first one says
  refine (?writes : Lands workingHandler i Mirrors
    (Owes (fun _ => True) pid (fieldCmds touched copy ++
    queueCustomRules (appendedCustomRules (updateFields stored upd) upd.appendCustomRules))) _
    fun _ => Mirrors) s l r s' howes hexec
  refine lands_attempt_bind (triple_pipeline (owes_pays _ pid) _ _) fun cacheErr => ?_
  refine lands_attempt_bind (R := fun addErr s => (cacheErr = .ok () ∧ addErr = .ok ()) ∧ Mirrors s)
    ?_ fun addErr => ?_
  · rintro s l r s' ⟨hcache, howes⟩ hexec
    obtain ⟨hadd, howes'⟩ :=
      triple_pipeline (owes_pays _ pid) _ [] s l r s' (by rwa [List.append_nil]) hexec
    exact ⟨⟨hcache, hadd⟩, howes'.mirrors⟩
  · rintro s l r s' ⟨⟨rfl, rfl⟩, hmirrors⟩ hexec
    obtain ⟨-, rfl, rfl⟩ := hexec
    exact hmirrors

end Patch

end ModDNS.Profiles
