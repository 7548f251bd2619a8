import ModDNS.Profiles.Purge

/-!
# The keys that commands make and take away

A command of the cache makes keys of its profile, or can take keys away, or neither.

* `present_of_made`: a key that has been made stays, when no later call takes it away.
* `settingsCmds_ordered`: so it is in the pipeline of `CreateOrUpdateProfileSettings`.
-/

namespace ModDNS.Profiles

open Conc

/-- The key is in Redis. -/
def CachedSettings.Present (c : CachedSettings) : SettingsKey → Prop
  | .list l => c.lists l ≠ []
  | .hash h => ∃ f v, c.hashes h f = some v
  | .customRules => c.customRules ≠ []
  | .customRule id => c.rules id ≠ none

theorem not_present_absent (key : SettingsKey) : ¬ CachedSettings.absent.Present key := by
  cases key with
  | hash h => exact nofun
  | _ => exact not_not.2 rfl

/-- The key is in Redis after the command. -/
def RedisCmd.Makes (key : SettingsKey) : RedisCmd → Prop
  | .hset h fields => key = .hash h ∧ fields ≠ []
  | .hsetRule rule => key = .customRule rule.id
  | .sadd ids => key = .customRules ∧ ids ≠ []
  | .rpush l ids => key = .list l ∧ ids ≠ []
  | .del _ | .srem _ | .lrem _ _ => False

/-- The key may be gone after the command. -/
def RedisCmd.Takes (key : SettingsKey) : RedisCmd → Prop
  | .del keys => key ∈ keys
  | .srem _ => key = .customRules
  | .lrem l _ => key = .list l
  | .hset _ _ | .hsetRule _ | .sadd _ | .rpush _ _ => False

section Commands

variable {c : CachedSettings} {cmd : RedisCmd} {key : SettingsKey}

theorem present_makes (h : cmd.Makes key) : (cmd.run c).Present key := by
  cases cmd with
  | hset hash fields =>
    obtain ⟨rfl, hfields⟩ := h
    have hwritten : ∃ f v, hsetFields (c.hashes hash) fields f = some v :=
      hsetFields_eq_none.2 (.inl hfields)
    simpa [CachedSettings.Present, RedisCmd.run] using hwritten
  | hsetRule rule =>
    obtain rfl : key = .customRule rule.id := h
    simp [CachedSettings.Present, RedisCmd.run]
  | sadd ids =>
    obtain ⟨rfl, hids⟩ := h
    obtain ⟨id, hid⟩ := List.exists_mem_of_ne_nil ids hids
    exact List.ne_nil_of_mem (List.mem_union_left hid c.customRules)
  | rpush l ids =>
    obtain ⟨rfl, hids⟩ := h
    simp [CachedSettings.Present, RedisCmd.run, hids]
  | _ => exact h.elim

theorem present_run (h : c.Present key) (hcmd : ¬ cmd.Takes key) : (cmd.run c).Present key := by
  by_cases hmakes : cmd.Makes key
  · exact present_makes hmakes
  -- a command that does not make the key and does not take it
  cases cmd with
  | del keys =>
    have hkeys : key ∉ keys := hcmd
    cases key with
    | list l => rwa [CachedSettings.Present, lists_del, if_neg hkeys]
    | hash hash => rwa [CachedSettings.Present, hashes_del, if_neg hkeys]
    | customRules => rwa [CachedSettings.Present, customRules_del, if_neg hkeys]
    | customRule id => rwa [CachedSettings.Present, rules_del, if_neg hkeys]
  | hset hash fields =>
    cases key with
    | hash hash' =>
      by_cases heq : hash' = hash
      · subst heq
        have hwritten : ∃ f v, hsetFields (c.hashes hash') fields f = some v :=
          hsetFields_eq_none.2 (.inr h)
        simpa [CachedSettings.Present, RedisCmd.run] using hwritten
      · simpa [CachedSettings.Present, RedisCmd.run, heq] using h
    | _ => exact h
  | hsetRule rule =>
    cases key with
    | customRule id =>
      have hid : id ≠ rule.id := by
        rintro rfl
        exact hmakes rfl
      simpa [CachedSettings.Present, RedisCmd.run, hid] using h
    | _ => exact h
  | sadd ids =>
    cases key with
    | customRules =>
      obtain ⟨id, hid⟩ := List.exists_mem_of_ne_nil _ h
      exact List.ne_nil_of_mem (List.mem_union_right ids hid)
    | _ => exact h
  | srem ids =>
    cases key with
    | customRules => exact absurd rfl hcmd
    | _ => exact h
  | rpush l ids =>
    cases key with
    | list l' =>
      by_cases heq : l' = l
      · subst heq
        have hne : c.lists l' ≠ [] := h
        simp [CachedSettings.Present, RedisCmd.run, hne]
      · simpa [CachedSettings.Present, RedisCmd.run, heq] using h
    | _ => exact h
  | lrem l id =>
    cases key with
    | list l' =>
      have heq : l' ≠ l := by
        rintro rfl
        exact hcmd rfl
      simpa [CachedSettings.Present, RedisCmd.run, heq] using h
    | _ => exact h

theorem absent_run (h : ∀ key, ¬ cmd.Makes key) : cmd.run .absent = .absent := by
  cases cmd with
  | del keys => exact absent_del keys
  | hset hash fields =>
    obtain rfl : fields = [] := by
      by_contra hne
      exact h (.hash hash) ⟨rfl, hne⟩
    simp [RedisCmd.run, hsetFields]
  | hsetRule rule => exact absurd rfl (h (.customRule rule.id))
  | sadd ids =>
    obtain rfl : ids = [] := by
      by_contra hne
      exact h .customRules ⟨rfl, hne⟩
    rfl
  | srem ids => rfl
  | rpush l ids =>
    obtain rfl : ids = [] := by
      by_contra hne
      exact h (.list l) ⟨rfl, hne⟩
    simp [RedisCmd.run]
  | lrem l id => simp [RedisCmd.run, CachedSettings.absent]

end Commands

/-- The call makes the key of the profile. -/
def MakesKey (pid : String) (key : SettingsKey) (o : ProfileOp) : Prop :=
  ∃ cmd : RedisCmd, o = .redis pid cmd ∧ cmd.Makes key

/-- The call can take the key of the profile away. -/
def TakesKey (pid : String) (key : SettingsKey) (o : ProfileOp) : Prop :=
  ∃ cmd : RedisCmd, o = .redis pid cmd ∧ cmd.Takes key

section Actions

variable {s : Stores} {pid : String} {key : SettingsKey} {x : profileCalls.sig.Act}
  {l l₁ l₂ : List profileCalls.sig.Act}

theorem elsewhere_or (pid : String) (o : ProfileOp) :
    Elsewhere pid o ∨ ∃ cmd, o = .redis pid cmd := by
  by_cases h : Elsewhere pid o
  · exact .inl h
  · refine .inr ?_
    by_contra hne
    exact h fun cmd heq => hne ⟨cmd, heq⟩

theorem present_act_makes (h : MakesKey pid key x.1) (htook : TookEffect x.2) :
    ((s.act x).redis pid).Present key := by
  obtain ⟨cmd, hop, hcmd⟩ := h
  rw [redis_act_eq hop htook]
  exact present_makes hcmd

theorem present_act (h : (s.redis pid).Present key) (hx : ¬ TakesKey pid key x.1) :
    ((s.act x).redis pid).Present key := by
  rcases elsewhere_or pid x.1 with helse | ⟨cmd, hop⟩
  · rwa [redis_act_ne helse]
  · rcases redis_act_or (s := s) hop with hact | hact
    · rw [hact]
      exact present_run h fun htakes => hx ⟨cmd, hop, htakes⟩
    · rwa [hact]

theorem present_after (h : (s.redis pid).Present key) (hl : ∀ x ∈ l, ¬ TakesKey pid key x.1) :
    ((s.after l).redis pid).Present key := by
  induction l generalizing s with
  | nil => exact h
  | cons x l ih =>
    obtain ⟨hx, hl⟩ := List.forall_mem_cons.1 hl
    exact ih (present_act h hx) hl

/-- No call takes away a key that an earlier one has made. -/
def Ordered (pid : String) (l : List profileCalls.sig.Act) : Prop :=
  l.Pairwise fun x y => ∀ key, MakesKey pid key x.1 → ¬ TakesKey pid key y.1

/-- A key that has been made stays. -/
theorem present_of_made (hl : Ordered pid l) (hx : x ∈ l) (hkey : MakesKey pid key x.1)
    (htook : TookEffect x.2) :
    ((s.after l).redis pid).Present key := by
  obtain ⟨l₁, l₂, rfl⟩ := List.append_of_mem hx
  have hafter := (List.pairwise_cons.1 (List.pairwise_append.1 hl).2.1).1
  rw [after_append, after_cons]
  exact present_after (present_act_makes hkey htook) fun y hy => hafter y hy key hkey

theorem ordered_append : Ordered pid (l₁ ++ l₂) ↔
    Ordered pid l₁ ∧ Ordered pid l₂ ∧ ∀ x ∈ l₁, ∀ y ∈ l₂, ∀ key, MakesKey pid key x.1 →
      ¬ TakesKey pid key y.1 :=
  List.pairwise_append

theorem ordered_elsewhere (h : ∀ x ∈ l, Elsewhere pid x.1) : Ordered pid l :=
  List.pairwise_of_forall_mem_list fun x hx _ _ _ ⟨cmd, hcmd, _⟩ => absurd hcmd (h x hx cmd)

/-- The calls of a pipeline are ordered as its commands are. -/
theorem ordered_cmds {cmds : List RedisCmd} (hl : l.map (·.1) = cmds.map (.redis pid ·))
    (hcmds : cmds.Pairwise fun cmd cmd' => ∀ key, cmd.Makes key → ¬ cmd'.Takes key) :
    Ordered pid l := by
  have hops : (l.map (·.1)).Pairwise fun o o' =>
      ∀ key, MakesKey pid key o → ¬ TakesKey pid key o' := by
    rw [hl, List.pairwise_map]
    refine hcmds.imp fun h key => ?_
    rintro ⟨cmd, heq, hmakes⟩ ⟨cmd', heq', htakes⟩
    cases heq
    cases heq'
    exact h key hmakes htakes
  exact List.pairwise_map.1 hops

end Actions

/-- The pipeline of settings without custom rules makes no key that it takes away later. -/
theorem settingsCmds_ordered {settings : ProfileSettings} (h : settings.customRules = [])
    (stored : List RuleID) :
    (settingsCmds settings stored).Pairwise fun cmd cmd' =>
    ∀ key, cmd.Makes key → ¬ cmd'.Takes key := by
  have hrules : queueReplaceCustomRules settings.customRules stored =
      if stored = [] then [] else [.srem stored, .del (stored.map .customRule)] := by
    rw [h]
    simp [queueReplaceCustomRules, queueCustomRules]
  have hany : ∀ ids : List String, ids.Pairwise fun _ _ => True := fun ids =>
    List.pairwise_of_forall fun _ _ => trivial
  unfold settingsCmds
  rw [hrules]
  split <;>
    simp [List.pairwise_append, List.pairwise_map, RedisCmd.Makes, RedisCmd.Takes, hany,
      or_imp, forall_and]

end ModDNS.Profiles
