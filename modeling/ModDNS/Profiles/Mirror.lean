import ModDNS.Profiles.Keys
import ModDNS.Profiles.PatchEffect

/-!
# Redis as a mirror of Mongo

The keys of a profile are made from its document, and each edit of the document comes with commands
that make the same edit there.

* `Shows`: the keys say what the document says. The list of a section may hold an id more than once;
  only where it stands first counts.
* `shows_settingsCmds`: the pipeline of `CreateOrUpdateProfileSettings` makes keys show the
  document, whatever they held.
* `Mirrors`, `Owes`: every document is shown; it will be, when the commands that are left have been
  sent.
-/

namespace ModDNS.Profiles

open Conc

section Firsts

/-! ### Lists up to repetition -/

variable {l l' : List String} {id : String}

/-- The ids of a list, each where it stands first. -/
def firsts (l : List String) : List String := addToSet [] l

theorem mem_addToSet (stored ids : List String) :
    id ∈ addToSet stored ids ↔ id ∈ stored ∨ id ∈ ids := by
  unfold addToSet
  induction ids generalizing stored with
  | nil => simp
  | cons x ids ih =>
    rw [List.foldl_cons, ih]
    split
    · next hx =>
      have hid : id = x → id ∈ stored := fun h => h ▸ hx
      simp only [List.mem_cons]
      constructor
      · exact fun h => h.imp_right .inr
      · rintro (h | h | h)
        · exact .inl h
        · exact .inl (hid h)
        · exact .inr h
    · rw [List.mem_append, List.mem_singleton, List.mem_cons, or_assoc]

theorem mem_firsts : id ∈ firsts l ↔ id ∈ l := by
  unfold firsts
  rw [mem_addToSet]
  simp

theorem addToSet_append (stored ids ids' : List String) :
    addToSet stored (ids ++ ids') = addToSet (addToSet stored ids) ids' := List.foldl_append

theorem firsts_append (l ids : List String) : firsts (l ++ ids) = addToSet (firsts l) ids :=
  addToSet_append [] l ids

/-- What `$addToSet` leaves out would not have come first. -/
theorem firsts_addToSet (l ids : List String) : firsts (addToSet l ids) = firsts (l ++ ids) := by
  induction ids generalizing l with
  | nil => simp [addToSet]
  | cons id ids ih =>
    have hcons : addToSet l (id :: ids) = addToSet (if id ∈ l then l else l ++ [id]) ids := rfl
    rw [hcons, ih]
    split
    · next hid =>
      have hfirst : addToSet (firsts l) (id :: ids) = addToSet (firsts l) ids := by
        have hstep : addToSet (firsts l) (id :: ids) = addToSet
          (if id ∈ firsts l then firsts l else firsts l ++ [id]) ids :=
          rfl
        rw [hstep, if_pos (mem_firsts.2 hid)]
      rw [firsts_append, firsts_append, hfirst]
    · rw [List.append_assoc]
      rfl

theorem firsts_append_congr (h : firsts l = firsts l') (ids : List String) :
    firsts (l ++ ids) = firsts (l' ++ ids) := by
  rw [firsts_append, firsts_append, h]

theorem addToSet_filter (P : String → Bool) (stored ids : List String) :
    (addToSet stored ids).filter P = addToSet (stored.filter P) (ids.filter P) := by
  unfold addToSet
  induction ids generalizing stored with
  | nil => rfl
  | cons id ids ih =>
    rw [List.foldl_cons, ih, List.filter_cons]
    by_cases hP : P id = true
    · rw [if_pos hP, List.foldl_cons]
      congr 1
      by_cases hid : id ∈ stored
      · rw [if_pos hid, if_pos (List.mem_filter.2 ⟨hid, hP⟩)]
      · rw [if_neg hid, if_neg fun h => hid (List.mem_filter.1 h).1, List.filter_append,
          List.filter_singleton, hP, cond_true]
    · rw [if_neg hP]
      congr 1
      split
      · rfl
      · rw [List.filter_append, List.filter_singleton, Bool.eq_false_of_not_eq_true hP, cond_false,
          List.append_nil]

theorem firsts_filter (P : String → Bool) (l : List String) :
    firsts (l.filter P) = (firsts l).filter P :=
  (addToSet_filter P [] l).symm

end Firsts

section Shows

/-! ### The keys of one profile -/

/-- The list of the profile that has a key of its own. -/
def Profile.list (p : Profile) : SettingsList → List String
  | .blocklists => p.settings.privacy.blocklists
  | .services => p.settings.privacy.services

/-- The ids of the rules of the profile. -/
def Profile.ruleIDs (p : Profile) : List RuleID := p.settings.customRules.map (·.id)

/-- The keys say what the document says. -/
structure CachedSettings.Shows (c : CachedSettings) (p : Profile) : Prop where
  lists : ∀ l, firsts (c.lists l) = firsts (p.list l)
  fields : ∀ path h f, (patchFields path).hash = some (h, f) → c.hashes h f = some (p.value path)
  members : ∀ id, id ∈ c.customRules ↔ id ∈ p.ruleIDs
  rules : ∀ rule ∈ p.settings.customRules, c.rules rule.id = some rule.cached

variable {c : CachedSettings} {p q : Profile} {cmds cmds' : List RedisCmd}

@[simp] theorem cached_after_nil (c : CachedSettings) : c.after [] = c := rfl

@[simp] theorem cached_after_cons (c : CachedSettings) (cmd : RedisCmd) (cmds : List RedisCmd) :
    c.after (cmd :: cmds) = (cmd.run c).after cmds := rfl

theorem cached_after_append (c : CachedSettings) (cmds cmds' : List RedisCmd) :
    c.after (cmds ++ cmds') = (c.after cmds).after cmds' := List.foldl_append

/-- A set holds a key once. -/
theorem nodup_run (h : c.customRules.Nodup) (cmd : RedisCmd) : (cmd.run c).customRules.Nodup := by
  cases cmd with
  | del keys =>
    rw [customRules_del]
    split
    · exact List.nodup_nil
    · exact h
  | sadd ids => exact h.union ids
  | srem ids => exact h.filter _
  | _ => exact h

/-- A profile that differs in nothing that is shown. -/
theorem CachedSettings.Shows.congr (h : c.Shows p) (hlists : ∀ l, q.list l = p.list l)
    (hvalues : ∀ path, q.value path = p.value path)
    (hrules : q.settings.customRules.map (fun r => (r.id, r.cached)) = p.settings.customRules.map
      fun r => (r.id, r.cached)) :
    c.Shows q := by
  have hids : q.ruleIDs = p.ruleIDs := by
    have hfst := congrArg (List.map Prod.fst) hrules
    rwa [List.map_map, List.map_map] at hfst
  refine ⟨fun l => ?_, fun path hash f hk => ?_, fun id => ?_, fun rule hrule => ?_⟩
  · rw [h.lists, hlists]
  · rw [h.fields path hash f hk, hvalues]
  · rw [h.members, hids]
  · have hmem : (rule.id, rule.cached) ∈ p.settings.customRules.map fun r => (r.id, r.cached) :=
      hrules ▸ List.mem_map_of_mem hrule
    obtain ⟨r, hr, heq⟩ := List.mem_map.1 hmem
    rw [Prod.mk.injEq] at heq
    rw [← heq.1, ← heq.2]
    exact h.rules r hr

end Shows

section Commands

/-! ### What the commands of an edit do -/

variable {c : CachedSettings} {p q : Profile} {rules : List CustomRule}

theorem after_rpushes (l : SettingsList) (ids : List String) (c : CachedSettings) :
    c.after (ids.map fun id => .rpush l [id]) =
      { c with lists := Function.update c.lists l (c.lists l ++ ids) } := by
  induction ids generalizing c with
  | nil => simp
  | cons id ids ih =>
    rw [List.map_cons, cached_after_cons, ih]
    simp [RedisCmd.run]

theorem after_lrems (l : SettingsList) (ids : List String) (c : CachedSettings) :
    c.after (ids.map (.lrem l)) =
      { c with lists := Function.update c.lists l ((c.lists l).filter (· ∉ ids)) } := by
  induction ids generalizing c with
  | nil => simp
  | cons id ids ih =>
    rw [List.map_cons, cached_after_cons, ih]
    simp only [RedisCmd.run, Function.update_self, Function.update_idem, List.filter_filter]
    congr 3
    funext x
    simp [Bool.and_comm]

/-- The keys with another list show the profile with another list. -/
theorem CachedSettings.Shows.withList (h : c.Shows p) {l : SettingsList} {list : List String}
    (hlist : firsts list = firsts (q.list l))
    (hothers : ∀ l', l' ≠ l → q.list l' = p.list l') (hvalues : ∀ path, q.value path = p.value path)
    (hrules : q.settings.customRules = p.settings.customRules) :
    CachedSettings.Shows { c with lists := Function.update c.lists l list } q := by
  refine ⟨fun l' => ?_, fun path hash f hk => (h.fields path hash f hk).trans
    (congrArg some (hvalues path).symm), ?_, ?_⟩
  · by_cases hl : l' = l
    · subst hl
      rw [← hlist]
      exact congrArg firsts (Function.update_self ..)
    · rw [hothers l' hl, ← h.lists]
      exact congrArg firsts (Function.update_of_ne hl ..)
  · intro id
    rw [Profile.ruleIDs, hrules]
    exact h.members id
  · rw [hrules]
    exact h.rules

/-- The ids that go into a list of the profile go to the end of its key. -/
theorem shows_rpush (h : c.Shows p) (l : SettingsList) (ids : List String)
    (hlist : q.list l = addToSet (p.list l) ids) (hothers : ∀ l', l' ≠ l → q.list l' = p.list l')
    (hvalues : ∀ path, q.value path = p.value path)
    (hrules : q.settings.customRules = p.settings.customRules) :
    (c.after [.rpush l ids]).Shows q := by
  have hfirsts : firsts (c.lists l ++ ids) = firsts (q.list l) := by
    rw [hlist, firsts_addToSet]
    exact firsts_append_congr (h.lists l) ids
  exact h.withList hfirsts hothers hvalues hrules

theorem shows_lrems (h : c.Shows p) (l : SettingsList) (ids : List String)
    (hlist : q.list l = (p.list l).filter (· ∉ ids))
    (hothers : ∀ l', l' ≠ l → q.list l' = p.list l') (hvalues : ∀ path, q.value path = p.value path)
    (hrules : q.settings.customRules = p.settings.customRules) :
    (c.after (ids.map (.lrem l))).Shows q := by
  rw [after_lrems]
  have hfirsts : firsts ((c.lists l).filter (· ∉ ids)) = firsts (q.list l) := by
    rw [hlist, firsts_filter, firsts_filter, h.lists]
  exact h.withList hfirsts hothers hvalues hrules

/-- The rules that are written are put into the profile, where they replace those with their ids. -/
theorem shows_queue (h : c.Shows p) (hids : (rules.map (·.id)).Nodup)
    (hlists : ∀ l, q.list l = p.list l) (hvalues : ∀ path, q.value path = p.value path)
    (hmembers : ∀ id, id ∈ q.ruleIDs ↔ id ∈ rules.map (·.id) ∨ id ∈ p.ruleIDs)
    (hrules : ∀ rule ∈ q.settings.customRules, rule ∈ rules ∨ rule.id ∉ rules.map (·.id) ∧
      rule ∈ p.settings.customRules) :
    (c.after (queueCustomRules rules)).Shows q := by
  obtain ⟨hadded, hkept, hset, hlists', hhashes⟩ := after_queueCustomRules c hids
  refine ⟨fun l => ?_, fun path hash f hk => ?_, fun id => ?_, fun rule hrule => ?_⟩
  · rw [hlists', h.lists, hlists]
  · rw [hhashes, h.fields path hash f hk, hvalues]
  · rw [hset, hmembers, h.members]
  · rcases hrules rule hrule with hnew | ⟨hid, hold⟩
    · exact hadded rule hnew
    · rw [hkept rule.id hid]
      exact h.rules rule hold

/-- A rule that is taken away. -/
theorem shows_removeRule (h : c.Shows p) (id : RuleID) (hlists : ∀ l, q.list l = p.list l)
    (hvalues : ∀ path, q.value path = p.value path)
    (hrules : q.settings.customRules = p.settings.customRules.filter (·.id ∉ [id])) :
    (c.after [.del [.customRule id], .srem [id]]).Shows q := by
  have hids : ∀ id', id' ∈ q.ruleIDs ↔ id' ∈ p.ruleIDs ∧ id' ≠ id := by
    intro id'
    unfold Profile.ruleIDs
    rw [hrules]
    simp only [List.mem_map, List.mem_filter, List.mem_singleton, decide_eq_true_eq]
    constructor
    · rintro ⟨r, ⟨hr, hne⟩, rfl⟩
      exact ⟨⟨r, hr, rfl⟩, hne⟩
    · rintro ⟨⟨r, hr, rfl⟩, hne⟩
      exact ⟨r, ⟨hr, hne⟩, rfl⟩
  refine ⟨fun l => ?_, fun path hash f hk => ?_, fun id' => ?_, fun rule hrule => ?_⟩
  · rw [hlists, ← h.lists]
    rfl
  · rw [hvalues, ← h.fields path hash f hk]
    rfl
  · rw [hids]
    have hset : (c.after [.del [.customRule id], .srem [id]]).customRules = c.customRules.filter
        (· ∉ [id]) := rfl
    rw [hset, List.mem_filter, h.members, decide_eq_true_eq, List.mem_singleton]
  · rw [hrules, List.mem_filter, decide_eq_true_eq, List.mem_singleton] at hrule
    have hother : (c.after [.del [.customRule id], .srem [id]]).rules rule.id = c.rules rule.id :=
      Function.update_of_ne hrule.2 ..
    rw [hother]
    exact h.rules rule hrule.1

/-- The hashes of the sections of the settings. -/
def sectionCmds (settings : ProfileSettings) : List RedisCmd :=
  [.hset .logs settings.logs.fields, .hset .statistics settings.statistics.fields,
    .hset .dnssec settings.security.dnssec.fields,
    .hset .rebindingProtection [("enabled", .bool settings.security.rebindingProtection)],
    .hset .advanced [("recursor", .text settings.recursor)],
    .hset .privacy settings.privacy.fields]

/-- They hold every field that a PATCH can write, each under its own name. -/
theorem after_sectionCmds (p : Profile) (c : CachedSettings) :
    (∀ path h f, (patchFields path).hash = some (h, f) →
      (c.after (sectionCmds p.settings)).hashes h f = some (p.value path)) ∧
    (c.after (sectionCmds p.settings)).lists = c.lists ∧
    (c.after (sectionCmds p.settings)).customRules = c.customRules ∧
    (c.after (sectionCmds p.settings)).rules = c.rules := by
  refine ⟨fun path h f hk => ?_, rfl, rfl, rfl⟩
  cases path <;> cases hk <;>
    simp [CachedSettings.after, sectionCmds, RedisCmd.run, hsetFields, Profile.value,
      LogsSettings.fields,
      StatisticsSettings.fields, DNSSECSettings.fields, Privacy.fields]

/-- The rules of the profile replace those of which the set had been read. -/
theorem after_queueReplace (p : Profile) (hids : p.ruleIDs.Nodup) (c : CachedSettings) :
    (c.after (queueReplaceCustomRules p.settings.customRules c.customRules)).lists = c.lists ∧
    (c.after (queueReplaceCustomRules p.settings.customRules c.customRules)).hashes = c.hashes ∧
    (∀ id, id ∈
      (c.after (queueReplaceCustomRules p.settings.customRules c.customRules)).customRules ↔
      id ∈ p.ruleIDs) ∧
    ∀ rule ∈ p.settings.customRules,
      (c.after (queueReplaceCustomRules p.settings.customRules c.customRules)).rules rule.id =
        some rule.cached := by
  obtain ⟨hadded, -, hset, hlists, hhashes⟩ := after_queueCustomRules c hids
  unfold queueReplaceCustomRules
  generalize hstale : c.customRules.filter (· ∉ p.settings.customRules.map (·.id)) = stale
  -- the ids to be removed: in the set, but not in the profile
  have hmem : ∀ id, id ∈ stale ↔ id ∈ c.customRules ∧ id ∉ p.ruleIDs := by
    intro id
    rw [← hstale, List.mem_filter, decide_eq_true_eq]
    rfl
  dsimp only
  rw [cached_after_append]
  generalize c.after (queueCustomRules p.settings.customRules) = c' at hadded hset hlists hhashes ⊢
  split
  · next hnil =>
    refine ⟨hlists, hhashes, fun id => ?_, hadded⟩
    rw [cached_after_nil, hset]
    constructor
    · rintro (h | h)
      · exact h
      · by_contra hid
        exact List.not_mem_nil (hnil ▸ (hmem id).2 ⟨h, hid⟩)
    · exact .inl
  · simp only [cached_after_cons, cached_after_nil]
    refine ⟨funext fun l => ?_, funext fun h => ?_, fun id => ?_, fun rule hrule => ?_⟩
    · rw [lists_del, if_neg (by simp), ← hlists]
      rfl
    · rw [hashes_del, if_neg (by simp), ← hhashes]
      rfl
    · rw [customRules_del, if_neg (by simp)]
      simp only [RedisCmd.run, List.mem_filter, decide_eq_true_eq, hset, hmem]
      tauto
    · have hid : rule.id ∈ p.ruleIDs := List.mem_map_of_mem hrule
      have hkept : SettingsKey.customRule rule.id ∉ stale.map .customRule := by
        simp only [List.mem_map, SettingsKey.customRule.injEq, exists_eq_right, hmem]
        tauto
      rw [rules_del, if_neg hkept]
      exact hadded rule hrule

/-- **The pipeline of the settings makes keys show the profile**, whatever they held. -/
theorem shows_settingsCmds (p : Profile) (hids : p.ruleIDs.Nodup) (c : CachedSettings) :
    (c.after (settingsCmds p.settings c.customRules)).Shows p := by
  have hcmds : settingsCmds p.settings c.customRules =
      RedisCmd.del [.list .blocklists] :: p.settings.privacy.blocklists.map
        (fun id => .rpush .blocklists [id]) ++
      RedisCmd.del [.list .services] :: p.settings.privacy.services.map
      (fun id => .rpush .services [id]) ++
      sectionCmds p.settings ++ queueReplaceCustomRules p.settings.customRules c.customRules := rfl
  rw [hcmds]
  simp only [cached_after_append, cached_after_cons, after_rpushes]
  generalize hc₁ : ({ lists := _, hashes := _, customRules := _, rules := _ } : CachedSettings) = c₁
  obtain ⟨hfields, hlists, hset, -⟩ := after_sectionCmds p c₁
  have hset₁ : (c₁.after (sectionCmds p.settings)).customRules = c.customRules := by
    rw [hset, ← hc₁]
    rfl
  rw [← hset₁]
  obtain ⟨hlists', hhashes', hmembers, hrules⟩ :=
    after_queueReplace p hids (c₁.after (sectionCmds p.settings))
  refine ⟨fun l => ?_, fun path h f hk => ?_, hmembers, hrules⟩
  · rw [hlists', hlists, ← hc₁]
    cases l with
    | blocklists => simp [Profile.list, RedisCmd.run, CachedSettings.del]
    | services => simp [Profile.list, RedisCmd.run, CachedSettings.del]
  · rw [hhashes']
    exact hfields path h f hk

end Commands

end ModDNS.Profiles
