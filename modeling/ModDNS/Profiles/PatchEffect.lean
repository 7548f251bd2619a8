import ModDNS.Profiles.Deletion
import ModDNS.Profiles.PatchSteps
import ModDNS.Profiles.Transitions

/-!
# What a PATCH does

One PATCH, from the operations of its request to the two stores. An operation that a field does not
take ends it before it has written anything. Else each field that an operation names has the last
value of the request, in Mongo and in Redis, and everything else is as it was.

* `loop_valid`: a PATCH that gets past its operations has found each of them valid, on the copy that
  the ones before it have left.
* `patch_all_or_nothing`: what is in the stores when it has ended.
-/

namespace ModDNS.Profiles

open Conc Go Rules

section Statement

variable {V : Type} (env : ServiceEnv) (casts : Casts V)

/-- The field of a path takes the value that the profile has there, in an account with these
profiles. The rules of the privacy settings are judged together. -/
def PatchPath.Takes (profiles : List Profile) (p : Profile) : PatchPath → Prop
  | .name => p.name ≠ "" ∧ validName env p.name = true ∧ nameTaken profiles p.name = false
  | .statisticsRetention => p.settings.statistics.retention ∈ statisticsRetentions
  | .logsRetention => p.settings.logs.retention ∈ retentions
  | .defaultRule | .blocklistsSubdomainsRule | .customRulesSubdomainsRule =>
    p.settings.privacy.valid = true
  | .recursor => p.settings.recursor ∈ recursors
  | .statisticsEnabled | .logsEnabled | .logClientsIPs | .logDomains | .dnssecEnabled | .sendDoBit
  | .rebindingProtection => True

/-- The profile with the value that an operation gives its field. -/
def ProfileUpdate.write (p : Profile) (u : ProfileUpdate V) : Profile :=
  match u.operation, u.assigns env casts with
  | .replace, some v => p.set u.path v
  | _, _ => p

/-- The operation replaces the value of a field by none of its type, or by one that the field does
not take. -/
def ProfileUpdate.Invalid (profiles : List Profile) (p : Profile) (u : ProfileUpdate V) : Prop :=
  u.operation = .replace ∧
    (u.assigns env casts = none ∨ ¬ u.path.Takes env profiles (u.write env casts p))

/-- Some operation is invalid, for the profile with the values of the operations before it. -/
def SomeInvalid (profiles : List Profile) (p : Profile) (updates : List (ProfileUpdate V)) : Prop :=
  ∃ us₁ u us₂, updates = us₁ ++ u :: us₂ ∧
    u.Invalid env casts profiles (us₁.foldl (ProfileUpdate.write env casts) p)

instance (updates : List (ProfileUpdate V)) (path : PatchPath) : Decidable (Touches updates path) :=
  inferInstanceAs (Decidable (∃ u ∈ updates, u.operation = .replace ∧ u.path = path))

/-- The allow rules that come with a PATCH after which the profile is `q`. -/
def comingRules (newID : ℕ → RuleID) (updates : List (ProfileUpdate V)) (q : Profile) :
    List CustomRule :=
  if Touches updates .defaultRule ∧ q.settings.privacy.defaultRule = defaultRuleBlock then
    allowedDomainRules env newID else []

/-- What a PATCH makes of a stored profile. -/
structure Written (newID : ℕ → RuleID) (updates : List (ProfileUpdate V)) (now : ℕ)
    (p q : Profile) : Prop where
  named : ∀ path, Touches updates path → assigned env casts updates path = some (q.value path)
  unnamed : ∀ path, ¬ Touches updates path → q.value path = p.value path
  instants : (q.settings.statistics.enabledAt, q.settings.statistics.historyDeletedAt,
    q.settings.statistics.disabledAt) =
    match assigned env casts updates .statisticsEnabled with
    | some v => p.settings.statistics.switched (v == .bool true) now
    | none =>
      (p.settings.statistics.enabledAt, p.settings.statistics.historyDeletedAt,
        p.settings.statistics.disabledAt)
  rules : q.settings.customRules = (comingRules env newID updates q).foldl appendCustomRuleIfAbsent
    p.settings.customRules
  profileId : q.profileId = p.profileId
  settingsId : q.settings.profileId = p.settings.profileId
  accountId : q.accountId = p.accountId
  blocklists : q.settings.privacy.blocklists = p.settings.privacy.blocklists
  services : q.settings.privacy.services = p.settings.privacy.services
  groups : q.settings.customRuleGroups = p.settings.customRuleGroups

/-- What it makes of the keys of the profile in Redis; `rules` are those that it has added. -/
structure Cached (updates : List (ProfileUpdate V)) (q : Profile) (rules : List CustomRule)
    (c c' : CachedSettings) : Prop where
  named : ∀ path h f, (patchFields path).hash = some (h, f) → Touches updates path →
    c'.hashes h f = some (q.value path)
  unnamed : ∀ h f, (∀ path, (patchFields path).hash = some (h, f) → ¬ Touches updates path) →
    c'.hashes h f = c.hashes h f
  added : ∀ rule ∈ rules, c'.rules rule.id = some rule.cached
  other : ∀ id, id ∉ rules.map (·.id) → c'.rules id = c.rules id
  ids : ∀ id, id ∈ c'.customRules ↔ id ∈ rules.map (·.id) ∨ id ∈ c.customRules
  lists : c'.lists = c.lists

/-- What a PATCH of a profile has done to the stores when it has ended without an error, with `q` as
its answer. -/
structure Updated (newID : ℕ → RuleID) (pid : String) (updates : List (ProfileUpdate V)) (now : ℕ)
    (p q : Profile) (s s' : Stores) : Prop where
  stored : s'.find pid = some q
  written : Written env casts newID updates now p q
  cached : ∃ rules, q.settings.customRules = p.settings.customRules ++ rules ∧
    Cached updates q rules (s.redis pid) (s'.redis pid)
  elsewhere : ∀ pid', pid' ≠ pid → s'.find pid' = s.find pid' ∧ s'.redis pid' = s.redis pid'
  rest : s' = { s with profiles := s'.profiles, redis := s'.redis }

end Statement

section Operations

variable {V : Type} {env : ServiceEnv} {casts : Casts V} {accountId : String} {p q : Profile}
  {u : ProfileUpdate V} {updates : List (ProfileUpdate V)} {profiles : List Profile}
  {l : List profileCalls.sig.Act}

theorem write_replace {v : FieldValue} (hop : u.operation = .replace)
    (hv : u.assigns env casts = some v) :
    u.write env casts p = p.set u.path v := by
  unfold ProfileUpdate.write
  rw [hop, hv]

theorem write_other (hop : u.operation ≠ .replace) : u.write env casts p = p := by
  unfold ProfileUpdate.write
  cases ho : u.operation with
  | replace => exact absurd ho hop
  | _ => rfl

theorem someInvalid_cons : SomeInvalid env casts profiles p (u :: updates) ↔
    u.Invalid env casts profiles p ∨ SomeInvalid env casts profiles
      (u.write env casts p) updates := by
  constructor
  · rintro ⟨us₁, u', us₂, heq, hinvalid⟩
    cases us₁ with
    | nil =>
      obtain ⟨rfl, rfl⟩ := List.cons.inj heq
      exact .inl hinvalid
    | cons u₁ us₁ =>
      obtain ⟨rfl, rfl⟩ := List.cons.inj heq
      exact .inr ⟨us₁, u', us₂, rfl, hinvalid⟩
  · rintro (h | ⟨us₁, u', us₂, rfl, hinvalid⟩)
    · exact ⟨[], u, updates, rfl, h⟩
    · exact ⟨u :: us₁, u', us₂, rfl, hinvalid⟩

/-- A handler that accepts a value leaves the profile with one that the field takes. -/
theorem patchSetting_takes {path : PatchPath} {v : V} (hname : path ≠ .name)
    (h : patchSetting casts p path v = .ok q) :
    path.Takes env profiles q := by
  have htext : ∀ path' e (valid : Profile → Bool) e', replaceText casts path' e valid e' p v =
      .ok q → valid q = true := by
    intro path' e valid e' h
    obtain ⟨s, -, -, hvalid⟩ := replaceText_ok h
    exact hvalid
  cases path with
  | name => exact absurd rfl hname
  | statisticsRetention =>
    simp only [patchSetting, updateStatisticsRetention] at h
    have hvalid := htext _ _ _ _ h
    simpa [PatchPath.Takes] using hvalid
  | logsRetention =>
    simp only [patchSetting, updateQueryLogsRetention] at h
    have hvalid := htext _ _ _ _ h
    simpa [PatchPath.Takes] using hvalid
  | recursor =>
    simp only [patchSetting, updateRecursor] at h
    have hvalid := htext _ _ _ _ h
    simpa [PatchPath.Takes] using hvalid
  | defaultRule =>
    simp only [patchSetting, handleDefaultRuleUpdate] at h
    exact htext _ _ _ _ h
  | blocklistsSubdomainsRule =>
    simp only [patchSetting, handleBlocklistsSubdomainsRuleUpdate] at h
    exact htext _ _ _ _ h
  | customRulesSubdomainsRule =>
    simp only [patchSetting, handleCustomRulesSubdomainsRuleUpdate] at h
    exact htext _ _ _ _ h
  | _ => trivial

theorem applied_write (h : Ends (applyPatchOperation env casts accountId p u).run l (.ok q)) :
    q = u.write env casts p := by
  have hstep := (ends_applyPatchOperation h).2
  split at hstep
  · next hop =>
    obtain ⟨v, hv, -, hq⟩ := hstep
    exact hq.trans (write_replace hop hv).symm
  · next hop => exact hstep.trans (write_other hop).symm

/-- An operation that has been applied is valid, if the profiles that it has read are these. -/
theorem applied_valid (hl : ∀ listed : List Profile,
    ⟨.getProfilesByAccountId accountId, .ok listed⟩ ∈ l → listed = profiles)
    (h : Ends (applyPatchOperation env casts accountId p u).run l (.ok q)) :
    ¬ u.Invalid env casts profiles p := by
  rintro ⟨hop, hinvalid⟩
  have hstep := (ends_applyPatchOperation h).2
  rw [if_pos hop] at hstep
  obtain ⟨v, hv, -, -⟩ := hstep
  rcases hinvalid with hnone | hnot
  · rw [hv] at hnone
    cases hnone
  · rw [← applied_write h] at hnot
    refine hnot ?_
    unfold applyPatchOperation at h
    rw [if_neg (not_not.2 hop)] at h
    split at h
    · next hname =>
      obtain ⟨s, listed, -, rfl, rfl, hne, hvalid, hfree⟩ := ends_handleProfileNameUpdate h
      rw [hl listed (List.mem_singleton_self _)] at hfree
      rw [hname]
      exact ⟨hne, hvalid, hfree⟩
    · next hname =>
      cases hset : patchSetting casts p u.path (unwrapped casts u.value) with
      | error e =>
        simp only [hset] at h
        cases (ends_throw h).2
      | ok q' =>
        simp only [hset] at h
        obtain ⟨-, heq⟩ := ends_flow_pure h
        cases heq
        exact patchSetting_takes hname hset

theorem loop_writes {touched touched' : List PatchPath}
    (h : Ends (applyPatchLoop env casts accountId updates p touched).run l (.ok (q, touched'))) :
    q = updates.foldl (ProfileUpdate.write env casts) p := by
  induction updates generalizing p touched l with
  | nil =>
    obtain ⟨-, heq⟩ := ends_flow_pure h
    cases heq
    rfl
  | cons u updates ih =>
    obtain ⟨l₁, l₂, p', rfl, h₁, h₂⟩ := ends_flow_bind_ok h
    obtain rfl := applied_write h₁
    exact ih h₂

theorem loop_valid {touched touched' : List PatchPath}
    (hl : ∀ listed : List Profile, ⟨.getProfilesByAccountId accountId, .ok listed⟩ ∈ l →
      listed = profiles)
    (h : Ends (applyPatchLoop env casts accountId updates p touched).run l (.ok (q, touched'))) :
    ¬ SomeInvalid env casts profiles p updates := by
  induction updates generalizing p touched l with
  | nil =>
    rintro ⟨us₁, u, us₂, hnil, -⟩
    simp at hnil
  | cons u updates ih =>
    obtain ⟨l₁, l₂, p', rfl, h₁, h₂⟩ := ends_flow_bind_ok h
    have hvalid := applied_valid (fun listed hmem => hl listed (List.mem_append_left _ hmem)) h₁
    obtain rfl := applied_write h₁
    have hrest := ih (fun listed hmem => hl listed (List.mem_append_right _ hmem)) h₂
    exact fun hsome => (someInvalid_cons.1 hsome).elim hvalid hrest

theorem writes_untouched (h : ∀ path, ¬ Touches updates path) :
    updates.foldl (ProfileUpdate.write env casts) p = p := by
  induction updates with
  | nil => rfl
  | cons u updates ih =>
    have hop : u.operation ≠ .replace := fun hop => h u.path ⟨u, List.mem_cons_self .., hop, rfl⟩
    rw [List.foldl_cons, write_other hop]
    exact ih fun path ⟨u', hu', hpath⟩ => h path ⟨u', List.mem_cons_of_mem _ hu', hpath⟩

end Operations

section Profile

variable {V : Type} {env : ServiceEnv} {casts : Casts V} {newID : ℕ → RuleID}
  {updates : List (ProfileUpdate V)} {now : ℕ} {touched : List PatchPath} {p q copy : Profile}

theorem assigned_touched (h : Patched env casts updates p copy [] touched) (path : PatchPath) :
    assigned env casts updates path = if path ∈ touched then some (copy.value path) else none := by
  have hmem : path ∈ touched ↔ Touches updates path := (h.mem path).trans (by simp)
  split
  · next htouched => exact h.value path (hmem.1 htouched)
  · next hnot => exact (h.kept path fun ht => hnot (hmem.2 ht)).1

theorem lookup_fieldsUpdate (path : PatchPath) :
    (fieldsUpdate env newID now touched copy).set.lookup path =
    if path ∈ touched then some (copy.value path) else none := by
  split
  · next h => exact List.lookup_graph _ h
  · next h =>
    refine List.lookup_eq_none_iff.2 fun f hf => ?_
    obtain ⟨path', hpath', rfl⟩ := List.mem_map.1 hf
    exact bne_iff_ne.2 fun heq : path = path' => h (heq ▸ hpath')

/-- The update of a PATCH makes of a profile what the PATCH is to make of it. -/
theorem written_update (h : Patched env casts updates p copy [] touched) :
    Written env casts newID updates now p
      (updateFields p (fieldsUpdate env newID now touched copy)) := by
  have hmem : ∀ path, path ∈ touched ↔ Touches updates path := fun path =>
    (h.mem path).trans (by simp)
  have hvalue : ∀ path, (updateFields p (fieldsUpdate env newID now touched copy)).value path =
      if path ∈ touched then copy.value path else p.value path :=
        value_fieldsUpdate env (h.nodup List.nodup_nil) copy p
  have hsame := sameElse_setFields p (fieldsUpdate env newID now touched copy)
  refine ⟨fun path hpath => ?_, fun path hpath => ?_, ?_, ?_, hsame.profileId,
    updateFields_settingsId .., hsame.accountId,
    hsame.blocklists, hsame.services, hsame.customRuleGroups⟩
  · rw [hvalue, if_pos ((hmem path).2 hpath)]
    exact h.value path hpath
  · rw [hvalue, if_neg fun ht => hpath ((hmem path).1 ht)]
  · rw [updateFields_instants, lookup_fieldsUpdate, assigned_touched h]
    rfl
  · rw [updateFields_customRules]
    congr 1
    unfold comingRules
    -- a default rule that the PATCH names is the one of its copy
    by_cases hpath : .defaultRule ∈ touched
    · have hrule := (hvalue .defaultRule).trans (if_pos hpath)
      have hrule' := FieldValue.text.inj hrule
      rw [hrule']
      simp only [fieldsUpdate, hpath, (hmem _).1 hpath]
    · have hnot : ¬ Touches updates .defaultRule := fun ht => hpath ((hmem _).2 ht)
      rw [if_neg fun hc => hnot hc.1]
      exact if_neg fun hc => hpath hc.1

end Profile

section Redis

variable {V : Type} {env : ServiceEnv} {newID : ℕ → RuleID} {touched : List PatchPath}
  {copy p : Profile} {rules candidates : List CustomRule}

/-- The keys after a list of commands. -/
def CachedSettings.after (c : CachedSettings) (cmds : List RedisCmd) : CachedSettings :=
  cmds.foldl (fun c cmd => cmd.run c) c

def fieldCmds (touched : List PatchPath) (copy : Profile) : List RedisCmd :=
  (redisFields touched copy).map fun f => .hset f.hash [(f.field, f.value)]

/-- The fields that a PATCH writes: those of the paths that it has touched, with the values of its
copy. -/
theorem after_fieldCmds (touched : List PatchPath) (copy : Profile) (c : CachedSettings) :
    (∀ path h f, path ∈ touched → (patchFields path).hash = some (h, f) →
      (c.after (fieldCmds touched copy)).hashes h f = some (copy.value path)) ∧
    (∀ h f, (∀ path ∈ touched, (patchFields path).hash ≠ some (h, f)) →
      (c.after (fieldCmds touched copy)).hashes h f = c.hashes h f) ∧
    (c.after (fieldCmds touched copy)).lists = c.lists ∧
    (c.after (fieldCmds touched copy)).customRules = c.customRules ∧
    (c.after (fieldCmds touched copy)).rules = c.rules := by
  induction touched generalizing c with
  | nil => exact ⟨by simp, fun _ _ _ => rfl, rfl, rfl, rfl⟩
  | cons path₀ touched ih =>
    cases hhash : (patchFields path₀).hash with
    | none =>
      have hcmds : fieldCmds (path₀ :: touched) copy = fieldCmds touched copy := by
        simp [fieldCmds, redisFields, hhash]
      obtain ⟨hnamed, hother, hrest⟩ := ih c
      rw [hcmds]
      refine ⟨fun path h f hpath hk => ?_, fun h f hk => hother h f fun path hpath => hk path
        (List.mem_cons_of_mem _ hpath), hrest⟩
      rcases List.mem_cons.1 hpath with rfl | hpath
      · rw [hhash] at hk
        cases hk
      · exact hnamed path h f hpath hk
    | some k =>
      obtain ⟨h₀, f₀⟩ := k
      have hcmds : fieldCmds (path₀ :: touched) copy = .hset h₀ [(f₀, copy.value path₀)] ::
          fieldCmds touched copy := by
        simp [fieldCmds, redisFields, hhash]
      obtain ⟨hnamed, hother, hlists, hrules, hids⟩ :=
        ih ((RedisCmd.hset h₀ [(f₀, copy.value path₀)]).run c)
      rw [hcmds]
      refine ⟨fun path h f hpath hk => ?_, fun h f hk => ?_, hlists, hrules, hids⟩
      · by_cases hlater : path ∈ touched
        · exact hnamed path h f hlater hk
        -- no other path has the same field
        · obtain rfl := (List.mem_cons.1 hpath).resolve_right hlater
          rw [hhash] at hk
          cases hk
          have hkept := hother h₀ f₀ fun path' hpath' hk' =>
            hlater (hash_injective hhash hk' ▸ hpath')
          exact hkept.trans ((hashes_hset ..).trans (if_pos ⟨rfl, rfl⟩))
      · have hkept := hother h f fun path hpath => hk path (List.mem_cons_of_mem _ hpath)
        refine hkept.trans ((hashes_hset ..).trans (if_neg ?_))
        rintro ⟨rfl, rfl⟩
        exact hk path₀ (List.mem_cons_self ..) hhash

/-- The rules that a PATCH writes. -/
theorem after_queueCustomRules (c : CachedSettings) (hids : (rules.map (·.id)).Nodup) :
    (∀ rule ∈ rules, (c.after (queueCustomRules rules)).rules rule.id = some rule.cached) ∧
    (∀ id, id ∉ rules.map (·.id) → (c.after (queueCustomRules rules)).rules id = c.rules id) ∧
    (∀ id, id ∈ (c.after (queueCustomRules rules)).customRules ↔ id ∈ rules.map (·.id) ∨
      id ∈ c.customRules) ∧
    (c.after (queueCustomRules rules)).lists = c.lists ∧
    (c.after (queueCustomRules rules)).hashes = c.hashes := by
  have hloop : ∀ c : CachedSettings,
    (∀ rule ∈ rules, (c.after (rules.map .hsetRule)).rules rule.id = some rule.cached) ∧
      (∀ id, id ∉ rules.map (·.id) → (c.after (rules.map .hsetRule)).rules id = c.rules id) ∧
      (c.after (rules.map .hsetRule)).customRules = c.customRules ∧
      (c.after (rules.map .hsetRule)).lists = c.lists ∧
      (c.after (rules.map .hsetRule)).hashes = c.hashes := by
    induction rules with
    | nil => exact fun c => ⟨List.forall_mem_nil _, fun _ _ => rfl, rfl, rfl, rfl⟩
    | cons rule₀ rules ih =>
      intro c
      rw [List.map_cons, List.nodup_cons] at hids
      obtain ⟨hadded, hother, hrest⟩ := ih hids.2 ((RedisCmd.hsetRule rule₀).run c)
      refine ⟨fun rule hrule => ?_, fun id hid => ?_, hrest⟩
      · rcases List.mem_cons.1 hrule with rfl | hrule
        · exact (hother rule.id hids.1).trans ((rules_hsetRule ..).trans (if_pos rfl))
        · exact hadded rule hrule
      · rw [List.map_cons, List.mem_cons, not_or] at hid
        exact (hother id hid.2).trans ((rules_hsetRule ..).trans (if_neg hid.1))
  unfold queueCustomRules
  split
  · next hnil =>
    subst hnil
    exact ⟨List.forall_mem_nil _, fun _ _ => rfl,
      fun id => by simp [CachedSettings.after], rfl, rfl⟩
  · obtain ⟨hadded, hother, hset, hlists, hhashes⟩ := hloop c
    have hafter : c.after (rules.map .hsetRule ++ [.sadd (rules.map (·.id))]) =
        (RedisCmd.sadd (rules.map (·.id))).run (c.after (rules.map .hsetRule)) := List.foldl_append
    rw [hafter]
    refine ⟨hadded, hother, fun id => ?_, hlists, hhashes⟩
    rw [← hset]
    exact List.mem_union_iff

/-- The rules that are appended come last, in the order of the candidates. -/
theorem appended_sublist (rules candidates : List CustomRule) :
    ∃ added, candidates.foldl appendCustomRuleIfAbsent rules = rules ++ added ∧
      added.Sublist candidates := by
  induction candidates generalizing rules with
  | nil => exact ⟨[], (List.append_nil _).symm, .slnil⟩
  | cons rule candidates ih =>
    obtain ⟨added, heq, hsub⟩ := ih (appendCustomRuleIfAbsent rules rule)
    rw [List.foldl_cons, heq]
    unfold appendCustomRuleIfAbsent
    split
    · exact ⟨added, rfl, hsub.cons _⟩
    · exact ⟨rule :: added, by simp, hsub.cons_cons _⟩

theorem allowedDomainRules_ids :
    (allowedDomainRules env newID).map (·.id) =
    (List.range env.allowedDomains.length).map newID := by
  unfold allowedDomainRules
  rw [List.map_map]
  have hcomp : (fun rule : CustomRule => rule.id) ∘ (fun x : String × ℕ =>
      ({ id := newID x.2, action := .allow, value := x.1, ruleSyntax := .unset } : CustomRule)) =
        newID ∘ Prod.snd := rfl
  refine Eq.trans (congrArg (fun g => env.allowedDomains.zipIdx.map g) hcomp) ?_
  rw [← List.map_map, List.zipIdx_map_snd, List.range_eq_range']

end Redis

section Executions

variable {ι V : Type} {i : ι} {env : ServiceEnv} {casts : Casts V} {newID : ℕ → RuleID}
  {accountId pid : String} {updates : List (ProfileUpdate V)} {s s' : Stores}
  {l : List profileCalls.sig.Act} {now : ℕ} {touched : List PatchPath} {p q copy : Profile}

theorem after_reads (h : ∀ x ∈ l, IsRead x.1) : s.after l = s := by
  induction l with
  | nil => rfl
  | cons x l ih =>
    obtain ⟨hx, hl⟩ := List.forall_mem_cons.1 h
    rw [after_cons, act_read hx]
    exact ih hl

theorem after_cmds (s : Stores) (pid : String) (cmds : List RedisCmd) :
    s.after (cmds.map fun cmd => ⟨.redis pid cmd, .ok ()⟩) =
      { s with redis := Function.update s.redis pid ((s.redis pid).after cmds) } := by
  induction cmds generalizing s with
  | nil => simp [CachedSettings.after]
  | cons cmd cmds ih =>
    have hact : s.act (⟨.redis pid cmd, .ok ()⟩ : profileCalls.sig.Act) =
        { s with redis := Function.update s.redis pid (cmd.run (s.redis pid)) } := if_pos trivial
    rw [List.map_cons, after_cons, hact, ih]
    simp [CachedSettings.after]

/-- The rules that a PATCH offers have ids of their own, of the generator. -/
theorem offered_ids (hinj : Function.Injective newID) :
    ((fieldsUpdate env newID now touched copy).appendCustomRules.map (·.id)).Nodup ∧
      ∀ id ∈ (fieldsUpdate env newID now touched copy).appendCustomRules.map (·.id), ∃ n,
        id = newID n := by
  have happend : (fieldsUpdate env newID now touched copy).appendCustomRules =
    allowedDomainRules env newID ∨
      (fieldsUpdate env newID now touched copy).appendCustomRules = [] := ite_eq_or_eq ..
  rcases happend with happend | happend
  · rw [happend, allowedDomainRules_ids]
    refine ⟨List.nodup_range.map hinj, fun id hid => ?_⟩
    obtain ⟨n, -, rfl⟩ := List.mem_map.1 hid
    exact ⟨n, rfl⟩
  · rw [happend]
    exact ⟨List.nodup_nil, List.forall_mem_nil _⟩

/-- The rules that a PATCH finds by their ids are those that it has appended. -/
theorem appendedCustomRules_eq {rules offered : List CustomRule}
    (hcustom : q.settings.customRules = p.settings.customRules ++ rules)
    (hsub : rules.Sublist offered) (hnew : ∀ rule ∈ p.settings.customRules,
      rule.id ∉ offered.map (·.id)) :
    appendedCustomRules q offered = rules := by
  unfold appendedCustomRules
  split
  · next hnil =>
    rw [hnil] at hsub
    exact (List.sublist_nil.1 hsub).symm
  · have hold : p.settings.customRules.filter (·.id ∈ offered.map (·.id)) = [] :=
      List.filter_eq_nil_iff.2 fun rule hrule hid => hnew rule hrule (of_decide_eq_true hid)
    have hfound : rules.filter (·.id ∈ offered.map (·.id)) = rules :=
      List.filter_eq_self.2 fun rule hrule =>
        decide_eq_true (List.mem_map_of_mem (hsub.subset hrule))
    rw [hcustom, List.filter_append, hold, hfound, List.nil_append]

/-- What the commands of a PATCH do to the keys of the profile. -/
theorem cached_update (hinj : Function.Injective newID)
    (hunused : ∀ rule ∈ p.settings.customRules, ∀ n, rule.id ≠ newID n)
    (h : Patched env casts updates p copy [] touched) {upd : ProfileFieldsUpdate}
    (hupd : upd = fieldsUpdate env newID now touched copy) (hq : q = updateFields p upd)
    (c : CachedSettings) :
    ∃ rules, q.settings.customRules = p.settings.customRules ++ rules ∧
      Cached updates q rules c (c.after (patchCmds touched copy q upd)) := by
  have hmem : ∀ path, path ∈ touched ↔ Touches updates path := fun path =>
    (h.mem path).trans (by simp)
  have hvalue : ∀ path ∈ touched, q.value path = copy.value path := by
    intro path hpath
    rw [hq, hupd, value_fieldsUpdate env (h.nodup List.nodup_nil), if_pos hpath]
  obtain ⟨rules, hrules, hsub⟩ := appended_sublist p.settings.customRules upd.appendCustomRules
  have hids : (upd.appendCustomRules.map (·.id)).Nodup ∧
    ∀ id ∈ upd.appendCustomRules.map (·.id), ∃ n, id = newID n :=
    hupd ▸ offered_ids hinj
  have hcustom : q.settings.customRules = p.settings.customRules ++ rules := by
    rw [hq, updateFields_customRules, hrules]
  have hfound : appendedCustomRules q upd.appendCustomRules = rules := by
    refine appendedCustomRules_eq hcustom hsub fun rule hrule hid => ?_
    obtain ⟨n, hn⟩ := hids.2 _ hid
    exact hunused rule hrule n hn
  refine ⟨rules, hcustom, ?_⟩
  have hcmds : c.after (patchCmds touched copy q upd) = (c.after (fieldCmds touched copy)).after
      (queueCustomRules rules) := by
    unfold patchCmds
    rw [hfound]
    exact List.foldl_append
  obtain ⟨hnamed, hother, hlists, hset, hkept⟩ := after_fieldCmds touched copy c
  obtain ⟨hadded, hkept', hset', hlists', hhashes⟩ :=
    after_queueCustomRules (c.after (fieldCmds touched copy)) (hids.1.sublist (hsub.map _))
  rw [hcmds]
  refine ⟨fun path h f hk hpath => ?_, fun h f hk => ?_, hadded, fun id hid => ?_, fun id => ?_,
    hlists'.trans hlists⟩
  · have htouched := (hmem path).2 hpath
    rw [hhashes, hnamed path h f htouched hk, hvalue path htouched]
  · rw [hhashes]
    exact hother h f fun path hpath hk' => hk path hk' ((hmem path).1 hpath)
  · rw [hkept' id hid, hkept]
  · rw [hset', hset]

/-- A PATCH that touches nothing leaves everything. -/
theorem updated_untouched (huntouched : ∀ path, ¬ Touches updates path)
    (hpatched : Patched env casts updates q q [] []) (hfound : s.find pid = some q) :
    Updated env casts newID pid updates 0 q q s s := by
  have hwritten : Written env casts newID updates 0 q
      (updateFields q (fieldsUpdate env newID 0 [] q)) := written_update hpatched
  have hnone : updateFields q (fieldsUpdate env newID 0 [] q) = q := by
    simp [fieldsUpdate, updateFields, setFields]
  rw [hnone] at hwritten
  refine ⟨hfound, hwritten, ⟨[], (List.append_nil _).symm, ?_⟩, fun _ _ => ⟨rfl, rfl⟩, rfl⟩
  exact ⟨fun path h f _ hpath => absurd hpath (huntouched path), fun _ _ _ => rfl,
    List.forall_mem_nil _, fun _ _ => rfl,
    fun id => by simp, rfl⟩

theorem getProfileById_found {p : Profile} {c : Choice}
    (h : (ProfileOp.getProfileById pid).answer s c = some (.ok p)) :
    s.find pid = some p := by
  have hafter : (ProfileOp.findAfter pid).answer s c = some (.ok p) := h
  exact find_of_answer hafter

/-- **What a PATCH does** that ends without an error. -/
theorem exec_updated (hinj : Function.Injective newID)
    (hunused : ∀ p, s.find pid = some p → ∀ rule ∈ p.settings.customRules, ∀ n, rule.id ≠ newID n)
    (h : Exec profileHandler i (updateProfile env casts newID accountId pid updates).run s l
      (.ok q) s') :
    ∃ p now, s.find pid = some p ∧ ((∃ path, Touches updates path) → ⟨.now, .ok now⟩ ∈ l) ∧
      Updated env casts newID pid updates now p q s s' := by
  have hstate := state_exec h
  obtain ⟨p, reads, copy, touched, -, happly, hcase⟩ := ends_updateProfile_ok (exec_iff.1 h).1
  obtain ⟨hreads, hpatched⟩ := ends_applyPatchOperations happly
  have hmem : ∀ path, path ∈ touched ↔ Touches updates path := fun path =>
    (hpatched.mem path).trans (by simp)
  have hreads' : ∀ x ∈ (⟨.getProfileById pid, .ok p⟩ : profileCalls.sig.Act) :: reads, IsRead x.1 :=
    List.forall_mem_cons.2 ⟨trivial, hreads⟩
  -- the profile is found before anything is written
  have hfound : s.find pid = some p := by
    have hfirst : ∃ rest, l = [] ++ ⟨.getProfileById pid, .ok p⟩ :: rest := by
      rcases hcase with ⟨-, -, rfl⟩ | ⟨now, before, rfl⟩
      · exact ⟨_, rfl⟩
      · exact ⟨_, rfl⟩
    obtain ⟨rest, rfl⟩ := hfirst
    obtain ⟨c, hc⟩ := answer_exec h
    exact getProfileById_found hc
  rcases hcase with ⟨rfl, rfl, rfl⟩ | ⟨now, before, rfl⟩
  -- no path touched: the calls are reads
  · have huntouched : ∀ path, ¬ Touches updates path := fun path hpath =>
      List.not_mem_nil ((hmem path).2 hpath)
    rw [after_reads hreads'] at hstate
    subst hstate
    obtain rfl := (loop_writes happly).trans (writes_untouched huntouched)
    have hnever : ¬ ∃ path, Touches updates path := not_exists.2 huntouched
    exact ⟨q, 0, hfound, fun htouches => absurd htouches hnever,
      updated_untouched huntouched hpatched hfound⟩
  -- the update, the read after it and the commands built from that read
  · generalize hupd : fieldsUpdate env newID now touched copy = upd at h hstate
    have hbefore : s.after (⟨.getProfileById pid, .ok p⟩ :: reads ++
      [⟨.now, .ok now⟩, ⟨.findOneAndUpdate pid upd, .ok before⟩]) =
        s.onProfile pid (updateFields · upd) := by
      rw [after_append, after_reads hreads']
      rfl
    have hsplit : (⟨.getProfileById pid, .ok p⟩ :: reads ++ ⟨.now, .ok now⟩ ::
      ⟨.findOneAndUpdate pid upd, .ok before⟩ ::
        ⟨.findAfter pid, .ok q⟩ :: (patchCmds touched copy q upd).map fun cmd =>
          ⟨.redis pid cmd, .ok ()⟩ :
          List profileCalls.sig.Act) =
        (⟨.getProfileById pid, .ok p⟩ :: reads ++
          [⟨.now, .ok now⟩, ⟨.findOneAndUpdate pid upd, .ok before⟩]) ++
          ⟨.findAfter pid, .ok q⟩ :: (patchCmds touched copy q upd).map fun cmd =>
          ⟨.redis pid cmd, .ok ()⟩ := by simp
    have hid : ∀ p : Profile, (updateFields p upd).profileId = p.profileId := fun p =>
      updateFields_profileId p upd
    have hq : q = updateFields p upd := by
      rw [hsplit] at h
      obtain ⟨c, hc⟩ := answer_exec h
      have hread := find_of_answer hc
      rw [hbefore, find_onProfile_self hid, hfound] at hread
      exact (Option.some.inj hread).symm
    have hend : s' = { s.onProfile pid (updateFields · upd) with
        redis := Function.update s.redis pid
          ((s.redis pid).after (patchCmds touched copy q upd)) } := by
      rw [hstate, hsplit, after_append, hbefore]
      exact after_cmds (s.onProfile pid (updateFields · upd)) pid (patchCmds touched copy q upd)
    refine ⟨p, now, hfound, fun _ => by simp, ?_, ?_, ?_, ?_, ?_⟩
    · rw [hend, hq]
      exact (find_onProfile_self hid).trans (congrArg _ hfound)
    · rw [hq, ← hupd]
      exact written_update hpatched
    · rw [hend]
      have hredis := cached_update hinj (hunused p hfound) hpatched hupd.symm hq (s.redis pid)
      simpa using hredis
    · intro pid' hne
      rw [hend]
      exact ⟨find_onProfile_ne hid hne, Function.update_of_ne hne ..⟩
    · rw [hend]
      rfl

end Executions

section Requests

variable {ι V : Type} {i : ι} {env : ServiceEnv} {casts : Casts V} {newID : ℕ → RuleID}
  {accountId pid : String} {updates : List (RawUpdate V)} {s s' : PatchStores}
  {l : List patchCalls.sig.Act} {r : Except ServiceErr Profile} {p : Profile}

/-- A read of the stores. -/
def ReadsStores (o : PatchOp) : Prop := ∃ o', o = .store o' ∧ IsRead o'

theorem plays_reads (h : Plays patchHandler i s l s') (hl : ∀ x ∈ l, ReadsStores x.1) :
    s' = s ∧ ∀ o r, ⟨.store o, r⟩ ∈ l → ∃ c, o.answer s.stores c = some r := by
  induction l generalizing s with
  | nil => exact ⟨h.symm, fun _ _ hx => nomatch hx⟩
  | cons x l ih =>
    obtain ⟨c, s₁, hc, hrest⟩ := h
    obtain ⟨hx, hreads⟩ := List.forall_mem_cons.1 hl
    obtain ⟨o, r⟩ := x
    obtain ⟨o, rfl, hread⟩ := hx
    obtain ⟨r', hanswer, heq⟩ := Option.map_eq_some_iff.1 hc
    cases heq
    have heffect : (PatchOp.store o).effect s = s := by rw [PatchOp.effect, effect_read hread]
    have hact : s.act ⟨.store o, r⟩ = s := by
      show (if TookEffect r then (PatchOp.store o).effect s else s) = s
      rw [heffect]
      exact ite_self _
    rw [hact] at hrest
    obtain ⟨rfl, hanswers⟩ := ih hrest hreads
    refine ⟨rfl, fun o' r hmem => ?_⟩
    rcases List.mem_cons.1 hmem with heq | hmem
    · cases heq
      cases c with
      | call c => exact ⟨c, hanswer⟩
      | trimmed _ _ => cases hanswer
    · exact hanswers o' r hmem

theorem ends_reads {α : Type} {q : ProfileFlow α} {r : Except ServiceErr α} (hq : Within IsRead q)
    (h : Ends (inStores q).run l r) : ∀ x ∈ l, ReadsStores x.1 := within_path (within_inStores hq) h

/-- A PATCH with an invalid operation ends with an error, and has made no call but reads. -/
theorem exec_refused (hp : s.stores.find pid = some p)
    (hinvalid : SomeInvalid env casts (s.stores.profiles.filter (·.accountId = accountId)) p
      (updates.filterMap RawUpdate.typed))
    (h : Exec patchHandler i
      (updateProfileWithTransitions env casts newID accountId pid updates).run s l r s') :
    (∃ e, r = .error e) ∧ ∀ x ∈ l, ReadsStores x.1 := by
  obtain ⟨hends, hplays⟩ := exec_iff.1 h
  unfold updateProfileWithTransitions at hends
  have hvalidate : Within IsRead (validateProfileIdAffiliation accountId pid) :=
    within_validate trivial
  obtain ⟨e, h₁, rfl⟩ | ⟨l₁, l', stored, rfl, h₁, hrest⟩ := ends_flow_bind hends
  · exact ⟨⟨e, rfl⟩, ends_reads hvalidate h₁⟩
  have hreads₁ := ends_reads hvalidate h₁
  rw [applyRawOperations_eq] at hrest
  have happly : Within IsRead (applyPatchOperations env casts accountId
    (updates.filterMap RawUpdate.typed) stored) :=
    within_applyPatchOperations trivial
  obtain ⟨e, h₂, rfl⟩ | ⟨l₂, l₃, ⟨copy, touched⟩, rfl, h₂, -⟩ := ends_flow_bind hrest
  · exact ⟨⟨e, rfl⟩, fun x hx => (List.mem_append.1 hx).elim (hreads₁ x) (ends_reads happly h₂ x)⟩
  -- it got past its operations: each of them is valid for what it has read
  obtain ⟨s₁, hp₁, hplays⟩ := plays_append.1 hplays
  obtain ⟨s₂, hp₂, -⟩ := plays_append.1 hplays
  obtain ⟨rfl, hanswers₁⟩ := plays_reads hp₁ hreads₁
  obtain ⟨-, hanswers₂⟩ := plays_reads hp₂ (ends_reads happly h₂)
  obtain ⟨m₁, rfl, hends₁⟩ := ends_inStores h₁
  obtain ⟨rfl, -⟩ := ends_validate hends₁
  obtain ⟨c, hc⟩ := hanswers₁ _ _ (List.mem_singleton_self _)
  obtain rfl : p = stored := Option.some.inj (hp.symm.trans (getProfileById_found hc))
  obtain ⟨m₂, rfl, hends₂⟩ := ends_inStores h₂
  refine absurd hinvalid (loop_valid (fun listed hmem => ?_) hends₂)
  obtain ⟨c, hc⟩ := hanswers₂ _ _ (List.mem_map_of_mem hmem)
  cases c with
  | ok => exact (Except.ok.inj (Option.some.inj hc)).symm
  | _ => cases hc

theorem stores_act {o : ProfileOp} {r : Except ServiceErr o.Ans} :
    (s.act ⟨.store o, r⟩).stores = s.stores.act ⟨o, r⟩ :=
  apply_ite PatchStores.stores (TookEffect r) ((PatchOp.store o).effect s) s

theorem stores_act_other {x : patchCalls.sig.Act} (h : storeAct x = none) :
    (s.act x).stores = s.stores := by
  obtain ⟨o, r⟩ := x
  unfold PatchStores.act
  split
  · cases o with
    | store o => cases h
    | _ => rfl
  · rfl

/-- A PATCH, seen without its side effects. -/
theorem exec_stores
    (h : Exec patchHandler i
      (updateProfileWithTransitions env casts newID accountId pid updates).run s l r s') :
    Exec profileHandler i (updateProfile env casts newID accountId pid
      (updates.filterMap RawUpdate.typed)).run s.stores
      (l.filterMap storeAct) r s'.stores := by
  have hkeep : ∀ (s s₁ : PatchStores) c (x : patchCalls.sig.Act) y, patchHandler i x.1 c s = some
    (x.2, s₁) → storeAct x = some y →
      ∃ c', profileHandler i y.1 c' s.stores = some (y.2, s₁.stores) := by
    rintro s s₁ c ⟨o, r⟩ y hc hy
    obtain ⟨r', hanswer, heq⟩ := Option.map_eq_some_iff.1 hc
    cases heq
    cases o with
    | store o =>
      obtain rfl := Option.some.inj hy
      cases c with
      | trimmed _ _ => cases hanswer
      | call c =>
        exact ⟨c, Option.map_eq_some_iff.2 ⟨r, hanswer, congrArg (Prod.mk r) stores_act.symm⟩⟩
    | _ => cases hy
  have hdrop : ∀ (s s₁ : PatchStores) c (x : patchCalls.sig.Act), patchHandler i x.1 c s = some
    (x.2, s₁) → storeAct x = none →
      s₁.stores = s.stores := by
    intro s s₁ c x hc hnone
    obtain ⟨r', -, heq⟩ := Option.map_eq_some_iff.1 hc
    cases heq
    exact stores_act_other hnone
  exact exec_erases bare_withTransitions hkeep hdrop h

section Counters

/-- The call leaves the counters of other profiles alone. -/
def CountsOwn (pid : String) (o : PatchOp) : Prop := ∀ key, o = .incr key → key.profileId = pid

theorem within_stores {α : Type} (q : ProfileFlow α) : Within (CountsOwn pid) (inStores q) := by
  refine within_mono ?_ (within_inStores (within_iff.2 (only_any _ fun _ => trivial))
    (B := fun _ => True))
  rintro o ⟨o', rfl, -⟩ key ⟨⟩

theorem within_bestEffort {A : PatchOp → Prop} {o : PatchOp} (h : A o) : Within A (bestEffort o) :=
  within_bind (within_attempt (within_act h)) fun _ => within_pure

theorem within_bump {scope : Caches.Scope} : Within (CountsOwn pid) (bumpGeneration scope pid) := by
  refine within_bestEffort ?_
  rintro key ⟨⟩
  rfl

theorem within_onlyIf {A : PatchOp → Prop} {c : Prop} [Decidable c] {q : PatchFlow Unit}
    (h : Within A q) :
    Within A (onlyIf c q) := within_ite h within_pure

theorem within_trim {retention : String} :
    Within (CountsOwn pid) (trimBestEffort pid retention) := by
  refine within_bind (within_attempt (within_act nofun)) fun answer => ?_
  cases answer with
  | ok a => exact within_onlyIf within_bump
  | error e => exact within_pure

theorem within_transitions {before after : SettingsSnapshot} :
    Within (CountsOwn pid) (applySettingsTransitions pid before after) := by
  refine within_bind ?_ fun _ => ?_
  · refine within_bind (within_onlyIf (within_bind (within_bestEffort nofun) fun _ => within_bump))
      fun _ => ?_
    exact within_bind (within_onlyIf within_bump) fun _ => within_onlyIf within_trim
  · refine within_ite (within_bind (within_bestEffort nofun) fun _ => within_bump) ?_
    exact within_ite (within_bind (within_bestEffort nofun) fun _ => within_bump)
      (within_ite within_bump within_pure)

theorem within_withTransitions :
    Within (CountsOwn pid)
      (updateProfileWithTransitions env casts newID accountId pid updates) := by
  refine within_bind (within_stores _) fun stored => ?_
  refine within_bind (within_stores _) fun ⟨copy, touched⟩ => ?_
  refine within_ite within_pure ?_
  refine within_bind (within_stores _) fun now => ?_
  refine within_bind (within_stores _) fun before => ?_
  refine within_bind (within_stores _) fun after => ?_
  refine within_bind (within_attempt (within_stores _)) fun cacheErr => ?_
  refine within_bind (within_attempt (within_stores _)) fun addErr => ?_
  refine within_bind within_transitions fun _ => ?_
  cases cacheErr with
  | error e => exact within_throw
  | ok _ =>
    cases addErr with
    | error e => exact within_throw
    | ok _ => exact within_pure

theorem plays_counters {key : Caches.GenerationKey} (hkey : key.profileId ≠ pid)
    (h : Plays patchHandler i s l s') (hl : ∀ x ∈ l, CountsOwn pid x.1) :
    s'.generations key = s.generations key := by
  induction l generalizing s with
  | nil => exact congrArg (fun s : PatchStores => s.generations key) h.symm
  | cons x l ih =>
    obtain ⟨c, s₁, hc, hrest⟩ := h
    obtain ⟨hx, hown⟩ := List.forall_mem_cons.1 hl
    obtain ⟨o, r⟩ := x
    obtain ⟨r', -, heq⟩ := Option.map_eq_some_iff.1 hc
    cases heq
    rw [ih hrest hown]
    unfold PatchStores.act
    split
    · cases o with
      | incr key' =>
        have hne : key ≠ key' := by
          rintro rfl
          exact hkey (hx key rfl)
        exact Function.update_of_ne hne ..
      | _ => rfl
    · rfl

end Counters

/-- **A PATCH is all or nothing, and touches what it names.** With an invalid operation it ends with
an error, and nothing has been written. And when it ends without an error, the profile and its keys
in Redis are what the operations make of them, `Updated`, and nothing else has changed. -/
theorem patch_all_or_nothing (hinj : Function.Injective newID) (hp : s.stores.find pid = some p)
    (hunused : ∀ rule ∈ p.settings.customRules, ∀ n, rule.id ≠ newID n)
    (h : Exec patchHandler i
      (updateProfileWithTransitions env casts newID accountId pid updates).run s l r s') :
    (SomeInvalid env casts (s.stores.profiles.filter (·.accountId = accountId)) p
      (updates.filterMap RawUpdate.typed) →
      (∃ e, r = .error e) ∧ s' = s ∧ ∀ x ∈ l, ReadsStores x.1) ∧
    ∀ q, r = .ok q →
      (∃ now, ((∃ path, Touches (updates.filterMap RawUpdate.typed) path) →
        ⟨.store .now, .ok now⟩ ∈ l) ∧
        Updated env casts newID pid (updates.filterMap RawUpdate.typed) now p q
        s.stores s'.stores) ∧
      ∀ key : Caches.GenerationKey, key.profileId ≠ pid →
      s'.generations key = s.generations key := by
  have hplays := (exec_iff.1 h).2
  refine ⟨fun hinvalid => ?_, ?_⟩
  -- an invalid operation is met before the first write
  · obtain ⟨herr, hreads⟩ := exec_refused hp hinvalid h
    exact ⟨herr, (plays_reads hplays hreads).1, hreads⟩
  · rintro q rfl
    -- on the stores the call is the PATCH alone
    have hstores := exec_stores h
    have hunused' : ∀ p', s.stores.find pid = some p' →
        ∀ rule ∈ p'.settings.customRules, ∀ n, rule.id ≠ newID n := by
      intro p' hp'
      obtain rfl := Option.some.inj (hp.symm.trans hp')
      exact hunused
    obtain ⟨p', now, hp', hnow, hupdated⟩ := exec_updated hinj hunused' hstores
    obtain rfl : p = p' := Option.some.inj (hp.symm.trans hp')
    refine ⟨⟨now, fun htouches => ?_, hupdated⟩, fun key hkey => ?_⟩
    -- its clock is read among the calls to the stores
    · obtain ⟨x, hx, hact⟩ := List.mem_filterMap.1 (hnow htouches)
      obtain ⟨o, r⟩ := x
      cases o with
      | store o =>
        cases hact
        exact hx
      | _ => cases hact
    -- only counters of this profile are bumped
    · exact plays_counters hkey hplays (within_path within_withTransitions (exec_path h))

end Requests

section Examples

/-- The default rule blocks, and the logs are kept for a day, and then for a week. One of the paths
is that of no field. -/
def blockPatch : List (RawUpdate String) :=
  [⟨"replace", "/settings/logs/retention", "1d"⟩,
    ⟨"replace", "/settings/privacy/default_rule", "block"⟩,
    ⟨"replace", "/settings/logs/", "1y"⟩, ⟨"replace", "/settings/logs/retention", "1w"⟩]

/-- The last operation names a recursor that there is not. -/
def refusedPatch : List (RawUpdate String) :=
  blockPatch ++ [⟨"replace", "/settings/advanced/recursor", "bind"⟩]

def patchedStores : PatchStores := ⟨oneStores, fun _ => 0⟩

/-- A PATCH under a list of choices. -/
def patchUnder (updates : List (RawUpdate String)) (choices : List PatchChoice) :
    Option (List patchCalls.sig.Act × Except ServiceErr Profile × PatchStores) :=
  (updateProfileWithTransitions exampleEnv textCasts id "a" "p" updates).run.exec patchHandler
  () choices patchedStores

/-- The read, the clock, and the calls that write. -/
def blockChoices : List PatchChoice := .call .ok :: .call (.time 5) :: List.replicate 7 (.call .ok)

theorem block_plays : (patchUnder blockPatch blockChoices).isSome := by decide

theorem refused_plays : (patchUnder refusedPatch [.call .ok]).isSome := by decide

theorem patch_all_or_nothing_block :
    (∃ l q s' now, Exec patchHandler ()
      (updateProfileWithTransitions exampleEnv textCasts id "a" "p" blockPatch).run patchedStores
        l (.ok q) s' ∧
      Updated exampleEnv textCasts id "p"
      (blockPatch.filterMap RawUpdate.typed) now oneProfile q oneStores s'.stores ∧
      q.settings.logs.retention = "1w" ∧ q.settings.customRules.map (·.value) =
      ["login.example.com"]) ∧
    ∃ l e s', Exec patchHandler ()
    (updateProfileWithTransitions exampleEnv textCasts id "a" "p" refusedPatch).run patchedStores
        l (.error e) s' ∧ s' = patchedStores := by
  constructor
  · have hrun : Exec patchHandler ()
      (updateProfileWithTransitions exampleEnv textCasts id "a" "p" blockPatch).run patchedStores
        _ (.ok _) _ := exec_of_choices (Option.some_get block_plays).symm
    obtain ⟨⟨now, -, hupdated⟩, -⟩ :=
      (patch_all_or_nothing (p := oneProfile) Function.injective_id rfl
        (List.forall_mem_nil _) hrun).2 _ rfl
    exact ⟨_, _, _, now, hrun, hupdated, by decide, by decide⟩
  · have hrun : Exec patchHandler ()
      (updateProfileWithTransitions exampleEnv textCasts id "a" "p" refusedPatch).run patchedStores
        _ (.error _) _ := exec_of_choices (Option.some_get refused_plays).symm
    have hrefused :=
      (patch_all_or_nothing (p := oneProfile) Function.injective_id rfl
        (List.forall_mem_nil _) hrun).1 (by
      refine ⟨blockPatch.filterMap RawUpdate.typed, ⟨.replace, .recursor, "bind"⟩, [],
        List.filterMap_append, rfl, .inr ?_⟩
      show "bind" ∉ recursors
      decide)
    exact ⟨_, _, _, hrun, hrefused.2.1⟩

end Examples

end ModDNS.Profiles
