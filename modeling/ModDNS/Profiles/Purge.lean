import ModDNS.Profiles.Deletion

/-!
# The purge of an account

`PurgeAccountData`, run again and again until it succeeds, where any call of any run may fail.

* `purge_complete`: as long as anything of the account is left, its subscription is; after a run
  that succeeds nothing is left. Both need that a run that deletes the document of a profile gets to
  the end of the deletion of its settings.
* `orphaned_settings`: a profile whose document is deleted and whose settings stay in Redis for
  good.
-/

namespace ModDNS.Profiles

open Conc

section Answers

variable {s s' : Stores} {pid : String} {l l₁ l₂ : List profileCalls.sig.Act}

/-- The answers to `SMEMBERS` are the stored sets. -/
def Truthful (pid : String) : Stores → List profileCalls.sig.Act → Prop
  | _, [] => True
  | s, x :: l =>
    (∀ ids, x = ⟨.smembers pid, .ok ids⟩ → ids = (s.redis pid).customRules) ∧
      Truthful pid (s.act x) l

theorem truthful_exec {ι α : Type} {i : ι} {p : Prog profileCalls.sig α} {a : α}
    (h : Exec profileHandler i p s l a s') : Truthful pid s l := by
  induction p generalizing s l with
  | pure b =>
    obtain ⟨rfl, -, -⟩ := h
    trivial
  | call o k ih =>
    obtain ⟨c, r, s₁, l', hc, rfl, hk⟩ := h
    obtain ⟨hanswer, rfl⟩ := handled hc
    refine ⟨?_, ih r hk⟩
    rintro ids ⟨⟩
    cases c with
    | ok => exact (Except.ok.inj (Option.some.inj hanswer)).symm
    | _ => cases hanswer

theorem truthful_append :
    Truthful pid s (l₁ ++ l₂) ↔ Truthful pid s l₁ ∧ Truthful pid (s.after l₁) l₂ := by
  induction l₁ generalizing s with
  | nil => simp [Truthful]
  | cons x l₁ ih => simp [Truthful, ih, and_assoc]

/-- The call sends no command for the profile. -/
def Elsewhere (pid : String) (o : ProfileOp) : Prop := ∀ cmd, o ≠ .redis pid cmd

theorem redis_act_congr {x : profileCalls.sig.Act} (h : s.redis pid = s'.redis pid) :
    (s.act x).redis pid = (s'.act x).redis pid := by
  by_cases hx : Elsewhere pid x.1
  · rw [redis_act_ne hx, redis_act_ne hx, h]
  · obtain ⟨o, r⟩ := x
    obtain ⟨cmd, rfl⟩ : ∃ cmd, o = .redis pid cmd := by
      by_contra hne
      exact hx fun cmd heq => hne ⟨cmd, heq⟩
    by_cases htook : TookEffect r
    · rw [redis_act htook, redis_act htook, h]
    · have hact : ∀ s₁ : Stores, s₁.act ⟨.redis pid cmd, r⟩ = s₁ := fun s₁ => if_neg htook
      rw [hact, hact, h]

theorem redis_after_ne (h : ∀ x ∈ l, Elsewhere pid x.1) : (s.after l).redis pid = s.redis pid := by
  induction l generalizing s with
  | nil => rfl
  | cons x l ih =>
    obtain ⟨hx, hl⟩ := List.forall_mem_cons.1 h
    rw [after_cons, ih hl, redis_act_ne hx]

/-- A goroutine beside others that send no command for the profile. -/
theorem merge_redis (h : Merge (S := profileCalls.sig) .turn l l₁ l₂)
    (h₁ : ∀ x ∈ l₁, Elsewhere pid x.1) (ht : Truthful pid s l) (hs : s.redis pid = s'.redis pid) :
    Truthful pid s' l₂ ∧ (s.after l).redis pid = (s'.after l₂).redis pid := by
  induction h generalizing s s' with
  | nil => exact ⟨trivial, hs⟩
  | left _ ih =>
    obtain ⟨hx, h₁⟩ := List.forall_mem_cons.1 h₁
    exact ih h₁ ht.2 ((redis_act_ne hx).trans hs)
  | right _ ih =>
    obtain ⟨ht₂, hredis⟩ := ih h₁ ht.2 (redis_act_congr hs)
    exact ⟨⟨fun ids hx => hs ▸ ht.1 ids hx, ht₂⟩, hredis⟩
  | @turn t _ _ _ _ ih =>
    have hturn : Elsewhere pid .turn := nofun
    exact ih h₁ ht.2 ((redis_act_ne (x := ⟨.turn, t⟩) hturn).trans hs)

end Answers

section Settings

variable {c : CachedSettings} {s : Stores} {pid : String} {l : List profileCalls.sig.Act}
  {r : Except ServiceErr Unit}

/-- Every hash of a custom rule has its key in the set of the profile. -/
def CachedSettings.Listed (c : CachedSettings) : Prop :=
  ∀ id, c.rules id ≠ none → id ∈ c.customRules

theorem lists_del (keys : List SettingsKey) (list : SettingsList) :
    ((RedisCmd.del keys).run c).lists list = if .list list ∈ keys then [] else c.lists list := by
  simp only [RedisCmd.run]
  induction keys generalizing c with
  | nil => rfl
  | cons key keys ih =>
    rw [List.foldl_cons, ih]
    cases key with
    | list k =>
      by_cases hk : k = list
      · subst hk
        simp [CachedSettings.del]
      · simp [CachedSettings.del, Ne.symm hk]
    | _ => simp [CachedSettings.del]

theorem customRules_del (keys : List SettingsKey) :
    ((RedisCmd.del keys).run c).customRules = if .customRules ∈ keys then []
      else c.customRules := by
  simp only [RedisCmd.run]
  induction keys generalizing c with
  | nil => rfl
  | cons key keys ih =>
    rw [List.foldl_cons, ih]
    cases key <;> simp [CachedSettings.del]

theorem rules_del (keys : List SettingsKey) (id : RuleID) :
    ((RedisCmd.del keys).run c).rules id = if .customRule id ∈ keys then none else c.rules id := by
  simp only [RedisCmd.run]
  induction keys generalizing c with
  | nil => rfl
  | cons key keys ih =>
    rw [List.foldl_cons, ih]
    cases key with
    | customRule k =>
      by_cases hk : k = id
      · subst hk
        simp [CachedSettings.del]
      · simp [CachedSettings.del, Ne.symm hk]
    | _ => simp [CachedSettings.del]

theorem absent_del (keys : List SettingsKey) : (RedisCmd.del keys).run .absent = .absent := by
  simp only [RedisCmd.run]
  induction keys with
  | nil => rfl
  | cons key keys ih =>
    have hkey : CachedSettings.absent.del key = .absent := by
      cases key <;> simp [CachedSettings.del, CachedSettings.absent]
    rw [List.foldl_cons, hkey, ih]

theorem listed_del {keys : List SettingsKey} (h : c.Listed) (hkeys : .customRules ∉ keys) :
    ((RedisCmd.del keys).run c).Listed := by
  intro id hid
  rw [rules_del] at hid
  rw [customRules_del, if_neg hkeys]
  exact h id fun hnone => hid (by rw [hnone, ite_self])

theorem redis_act_eq {x : profileCalls.sig.Act} {cmd : RedisCmd} (hx : x.1 = .redis pid cmd)
    (h : TookEffect x.2) :
    (s.act x).redis pid = cmd.run (s.redis pid) := by
  obtain ⟨o, r⟩ := x
  subst hx
  exact redis_act h

theorem redis_act_or {x : profileCalls.sig.Act} {cmd : RedisCmd} (hx : x.1 = .redis pid cmd) :
    (s.act x).redis pid = cmd.run (s.redis pid) ∨ (s.act x).redis pid = s.redis pid := by
  by_cases htook : TookEffect x.2
  · exact .inl (redis_act_eq hx htook)
  · have hact : s.act x = s := if_neg htook
    exact .inr (by rw [hact])

/-- The last command of the deletion of the settings has been carried out. -/
def SettingsDeleted (pid : String) (l : List profileCalls.sig.Act) : Prop :=
  ∃ x ∈ l, x.1 = .redis pid (.del [.customRules]) ∧ TookEffect x.2

/-- A command: the flow ends at its error, or goes on after it has been carried out. -/
theorem ends_redis_bind {cmd : RedisCmd} {f : Unit → ProfileFlow Unit}
    (h : Ends (call (.redis pid cmd) >>= f).run l r) :
    ∃ x : profileCalls.sig.Act, x.1 = .redis pid cmd ∧
      ((l = [x] ∧ ∃ e, r = .error e) ∨ ∃ l', l = x :: l' ∧ TookEffect x.2 ∧
        Ends (f ()).run l' r) := by
  obtain ⟨e, rfl, rfl⟩ | ⟨a, l', rfl, hrest⟩ := ends_act_bind h
  · exact ⟨_, rfl, .inl ⟨rfl, e, rfl⟩⟩
  · exact ⟨_, rfl, .inr ⟨l', rfl, trivial, hrest⟩⟩

/-- What the loop over the hashes of the rules leaves as it is. -/
structure RulesOnly (c c' : CachedSettings) : Prop where
  lists : c'.lists = c.lists
  hashes : c'.hashes = c.hashes
  customRules : c'.customRules = c.customRules
  rules : ∀ id, c.rules id = none → c'.rules id = none

theorem RulesOnly.trans {c c' c'' : CachedSettings} (h : RulesOnly c c') (h' : RulesOnly c' c'') :
    RulesOnly c c'' :=
  ⟨h'.lists.trans h.lists, h'.hashes.trans h.hashes, h'.customRules.trans h.customRules,
    fun id hid => h'.rules id (h.rules id hid)⟩

theorem rulesOnly_act {x : profileCalls.sig.Act} {id : RuleID}
    (hx : x.1 = .redis pid (.del [.customRule id])) :
    RulesOnly (s.redis pid) ((s.act x).redis pid) := by
  rcases redis_act_or (s := s) hx with hact | hact
  · rw [hact]
    refine ⟨rfl, rfl, rfl, fun id' hid' => ?_⟩
    rw [rules_del, hid', ite_self]
  · rw [hact]
    exact ⟨rfl, rfl, rfl, fun id' hid' => hid'⟩

theorem rules_deleted {ids : List RuleID} (h : Ends (deleteRuleHashes pid ids).run l r) :
    RulesOnly (s.redis pid) ((s.after l).redis pid) ∧
      (r = .ok () → ∀ id ∈ ids, ((s.after l).redis pid).rules id = none) ∧
        ¬ SettingsDeleted pid l := by
  induction ids generalizing s l with
  | nil =>
    obtain ⟨rfl, -⟩ := ends_flow_pure h
    exact ⟨⟨rfl, rfl, rfl, fun _ hid => hid⟩, fun _ => List.forall_mem_nil _,
      fun ⟨_, hx, _⟩ => nomatch hx⟩
  | cons id ids ih =>
    obtain ⟨x, hx, ⟨rfl, e, rfl⟩ | ⟨l', rfl, htook, hrest⟩⟩ := ends_redis_bind h
    · refine ⟨rulesOnly_act hx, nofun, ?_⟩
      rintro ⟨y, hy, hop, -⟩
      rw [List.mem_singleton.1 hy, hx] at hop
      cases hop
    · have hstep := rulesOnly_act (s := s) hx
      obtain ⟨honly, hgone, hlast⟩ := ih (s := s.act x) hrest
      refine ⟨hstep.trans honly, fun hr => List.forall_mem_cons.2 ⟨honly.rules id ?_, hgone hr⟩, ?_⟩
      · rw [redis_act_eq hx htook, rules_del, if_pos (List.mem_singleton_self _)]
      · rintro ⟨y, hy, hop, htook'⟩
        rcases List.mem_cons.1 hy with rfl | hy
        · rw [hx] at hop
          cases hop
        · exact hlast ⟨y, hy, hop, htook'⟩

/-- **The deletion of the settings.** If it gets to its last command, no key of the profile is
left. -/
theorem settings_deleted (h : Ends (deleteProfileSettings pid).run l r) (ht : Truthful pid s l)
    (hl : (s.redis pid).Listed) : ((s.after l).redis pid).Listed ∧
      (SettingsDeleted pid l → (s.after l).redis pid = .absent) := by
  have hkeys : SettingsKey.customRules ∉ settingsKeys := by decide
  obtain ⟨x, hx, ⟨rfl, e, rfl⟩ | ⟨l₁, rfl, htook, hread⟩⟩ := ends_redis_bind h
  · refine ⟨?_, ?_⟩
    · rcases redis_act_or (s := s) hx with hact | hact
      · rw [after_cons, after_nil, hact]
        exact listed_del hl hkeys
      · rwa [after_cons, after_nil, hact]
    · rintro ⟨y, hy, hop, -⟩
      rw [List.mem_singleton.1 hy, hx] at hop
      cases hop
  have hs₁ : (s.act x).redis pid = (RedisCmd.del settingsKeys).run (s.redis pid) :=
    redis_act_eq hx htook
  have hl₁ : ((s.act x).redis pid).Listed := hs₁ ▸ listed_del hl hkeys
  have hfirst : SettingsDeleted pid (x :: l₁) → SettingsDeleted pid l₁ := by
    rintro ⟨y, hy, hop, htook'⟩
    rcases List.mem_cons.1 hy with rfl | hy
    · rw [hx] at hop
      cases hop
    · exact ⟨y, hy, hop, htook'⟩
  suffices hrest : ((s.act x).after l₁ |>.redis pid).Listed ∧
      (SettingsDeleted pid l₁ → ((s.act x).after l₁).redis pid = .absent) from
    ⟨hrest.1, fun hdone => hrest.2 (hfirst hdone)⟩
  obtain ⟨-, ht₁⟩ := ht
  generalize s.act x = s₁ at hs₁ hl₁ ht₁ ⊢
  obtain ⟨e, rfl, rfl⟩ | ⟨ids, l₂, rfl, hhashes⟩ := ends_act_bind hread
  · have hact : s₁.after [⟨.smembers pid, .error e⟩] = s₁ := ite_self _
    rw [hact]
    refine ⟨hl₁, ?_⟩
    rintro ⟨y, hy, hop, -⟩
    rw [List.mem_singleton.1 hy] at hop
    cases hop
  -- the hashes that are deleted are those of the set
  obtain rfl : ids = (s₁.redis pid).customRules := ht₁.1 ids rfl
  have hact : ∀ l, s₁.after (⟨.smembers pid, .ok (s₁.redis pid).customRules⟩ :: l) = s₁.after l :=
    fun l => rfl
  have hdone : SettingsDeleted pid (⟨.smembers pid, .ok (s₁.redis pid).customRules⟩ :: l₂) →
      SettingsDeleted pid l₂ := by
    rintro ⟨y, hy, hop, htook'⟩
    rcases List.mem_cons.1 hy with rfl | hy
    · cases hop
    · exact ⟨y, hy, hop, htook'⟩
  rw [hact]
  suffices hrest : ((s₁.after l₂).redis pid).Listed ∧
    (SettingsDeleted pid l₂ → (s₁.after l₂).redis pid = .absent) from
    ⟨hrest.1, fun h => hrest.2 (hdone h)⟩
  obtain ⟨e, herr, rfl⟩ | ⟨l₃, l₄, u, rfl, hloop, hlast⟩ := ends_flow_bind hhashes
  · obtain ⟨honly, -, hnot⟩ := rules_deleted (s := s₁) herr
    refine ⟨fun id hid => ?_, fun h => absurd h hnot⟩
    rw [honly.customRules]
    exact hl₁ id fun hnone => hid (honly.rules id hnone)
  · obtain ⟨honly, hgone, hnot⟩ := rules_deleted (s := s₁) hloop
    have hnone : ∀ id, ((s₁.after l₃).redis pid).rules id = none := by
      intro id
      by_contra hid
      exact hid (hgone rfl id (hl₁ id fun hnone => hid (honly.rules id hnone)))
    obtain rfl := ends_act hlast
    rw [after_append]
    refine ⟨?_, ?_⟩
    · rcases redis_act_or (s := s₁.after l₃) (x := ⟨.redis pid (.del [.customRules]), r⟩) rfl
        with hact | hact
      · rw [after_cons, after_nil, hact]
        exact fun id hid => absurd (hnone id) hid
      · rw [after_cons, after_nil, hact]
        exact fun id hid => absurd (hnone id) hid
    · rintro ⟨y, hy, hop, htook'⟩
      have hy' : y = ⟨.redis pid (.del [.customRules]), r⟩ :=
        List.mem_singleton.1 ((List.mem_append.1 hy).resolve_left fun hmem => hnot
          ⟨y, hmem, hop, htook'⟩)
      have hlists : ∀ list, ((s₁.after l₃).redis pid).lists list = [] := by
        intro list
        rw [honly.lists, hs₁, lists_del, if_pos (by cases list <;> decide)]
      have hhashes : ∀ h, ((s₁.after l₃).redis pid).hashes h = fun _ => none := by
        intro h
        rw [honly.hashes, hs₁, hashes_del, if_pos (by cases h <;> decide)]
      rw [after_cons, after_nil, redis_act_eq rfl (hy' ▸ htook')]
      refine CachedSettings.ext ?_ ?_ ?_ ?_
      · funext list
        rw [lists_del, if_neg (by simp), hlists]
        rfl
      · funext h
        rw [hashes_del, if_neg (by simp), hhashes]
        rfl
      · rw [customRules_del, if_pos (List.mem_singleton_self _)]
        rfl
      · funext id
        rw [rules_del, hnone, ite_self]
        rfl

/-- The commands for the profile are deletions. -/
def DeletesOnly (pid : String) (o : ProfileOp) : Prop :=
  ∀ cmd, o = .redis pid cmd → ∃ keys, cmd = .del keys

theorem absent_after {l : List profileCalls.sig.Act} (h : (s.redis pid) = .absent)
    (hl : ∀ x ∈ l, DeletesOnly pid x.1) :
    (s.after l).redis pid = .absent := by
  induction l generalizing s with
  | nil => exact h
  | cons x l ih =>
    obtain ⟨hx, hl⟩ := List.forall_mem_cons.1 hl
    refine ih ?_ hl
    by_cases hcmd : Elsewhere pid x.1
    · rw [redis_act_ne hcmd, h]
    · obtain ⟨cmd, hop⟩ : ∃ cmd, x.1 = .redis pid cmd := by
        by_contra hne
        exact hcmd fun cmd heq => hne ⟨cmd, heq⟩
      obtain ⟨keys, rfl⟩ := hx cmd hop
      rcases redis_act_or (s := s) hop with hact | hact
      · rw [hact, h, absent_del]
      · rw [hact, h]

/-- The actions delete the keys of a profile: all of them, if they get to the end. -/
structure Settles (pid : String) (l : List profileCalls.sig.Act) : Prop where
  deletes : ∀ x ∈ l, DeletesOnly pid x.1
  settles : ∀ s : Stores, Truthful pid s l → (s.redis pid).Listed →
    ((s.after l).redis pid).Listed ∧ (SettingsDeleted pid l → (s.after l).redis pid = .absent)

theorem settles_elsewhere {l : List profileCalls.sig.Act} (h : ∀ x ∈ l, Elsewhere pid x.1) :
    Settles pid l where
  deletes x hx cmd hop := absurd hop (h x hx cmd)
  settles s _ hl := by
    rw [redis_after_ne h]
    exact ⟨hl, fun ⟨x, hx, hop, _⟩ => absurd hop (h x hx _)⟩

theorem settles_append {l₁ l₂ : List profileCalls.sig.Act} (h₁ : Settles pid l₁)
    (h₂ : Settles pid l₂) :
    Settles pid (l₁ ++ l₂) where
  deletes x hx := (List.mem_append.1 hx).elim (h₁.deletes x) (h₂.deletes x)
  settles s ht hl := by
    obtain ⟨ht₁, ht₂⟩ := truthful_append.1 ht
    obtain ⟨hl₁, hdone₁⟩ := h₁.settles s ht₁ hl
    obtain ⟨hl₂, hdone₂⟩ := h₂.settles _ ht₂ hl₁
    rw [after_append]
    refine ⟨hl₂, ?_⟩
    rintro ⟨x, hx, hop, htook⟩
    rcases List.mem_append.1 hx with hx | hx
    · exact absent_after (hdone₁ ⟨x, hx, hop, htook⟩) h₂.deletes
    · exact hdone₂ ⟨x, hx, hop, htook⟩

theorem settles_nil : Settles pid [] := settles_elsewhere (List.forall_mem_nil _)

theorem settles_cons {x : profileCalls.sig.Act} {l : List profileCalls.sig.Act}
    (hx : Elsewhere pid x.1) (h : Settles pid l) : Settles pid (x :: l) :=
  settles_append (settles_elsewhere (List.forall_mem_singleton.2 hx)) h

theorem settles_merge {l l₁ l₂ : List profileCalls.sig.Act}
    (h : Merge (S := profileCalls.sig) .turn l l₁ l₂) (h₁ : ∀ x ∈ l₁, Elsewhere pid x.1)
    (h₂ : Settles pid l₂) : Settles pid l := by
  have hmem : ∀ x ∈ l, Elsewhere pid x.1 ∨ x ∈ l₂ := by
    intro x hx
    rcases h.mem hx with hx | hx | hx
    · exact .inl (h₁ x hx)
    · exact .inr hx
    · left
      rw [hx]
      exact nofun
  refine ⟨fun x hx => ?_, fun s ht hl => ?_⟩
  · rcases hmem x hx with hx | hx
    · exact fun cmd hop => absurd hop (hx cmd)
    · exact h₂.deletes x hx
  · have hsame : s.redis pid = s.redis pid := rfl
    obtain ⟨ht₂, hredis⟩ := merge_redis h h₁ ht hsame
    rw [hredis]
    obtain ⟨hlisted, hdone⟩ := h₂.settles s ht₂ hl
    refine ⟨hlisted, ?_⟩
    rintro ⟨x, hx, hop, htook⟩
    exact hdone ⟨x, (hmem x hx).resolve_left fun helse => helse _ hop, hop, htook⟩

theorem deletesOnly_deletionCall {pid' : String} (o : ProfileOp) (h : DeletionCall pid' o) :
    DeletesOnly pid o := by
  rintro cmd rfl
  cases cmd with
  | del keys => exact ⟨keys, rfl⟩
  | _ => exact h.elim

theorem elsewhere_deletionCall {pid' : String} (hpid : pid' ≠ pid) (o : ProfileOp)
    (h : DeletionCall pid' o) :
    Elsewhere pid o := by
  rintro cmd rfl
  cases cmd with
  | del keys => exact hpid (h : pid = pid').symm
  | _ => exact h.elim

theorem settles_settings (h : Ends (deleteProfileSettings pid).run l r) : Settles pid l where
  deletes x hx := deletesOnly_deletionCall x.1 (within_path within_deleteProfileSettings h x hx)
  settles _ ht hl := settings_deleted h ht hl

/-- The deletion of a profile deletes its keys. -/
theorem settles_deleteProfile {accountId : String} {removeLast : Bool}
    (h : Ends (deleteProfile accountId pid removeLast).run l r) : Settles pid l := by
  have hread : ∀ {l r}, Ends (validateProfileIdAffiliation accountId pid).run l r →
    ∀ x ∈ l, Elsewhere pid x.1 :=
    fun h x hx => within_path (within_validate (A := Elsewhere pid) nofun) h x hx
  have hlast : ∀ {l r}, Ends (checkNotLast accountId removeLast).run l r →
      ∀ x ∈ l, Elsewhere pid x.1 := by
    intro l r h x hx
    have hcheck : Within (Elsewhere pid) (checkNotLast accountId removeLast) :=
      within_ite within_pure (within_bind (within_act nofun) fun _ => within_ensure)
    exact within_path hcheck h x hx
  obtain ⟨e, h₁, rfl⟩ | ⟨l₁, l₂, stored, rfl, h₁, hnext⟩ := ends_flow_bind h
  · exact settles_elsewhere (hread h₁)
  refine settles_append (settles_elsewhere (hread h₁)) ?_
  obtain ⟨e, h₂, rfl⟩ | ⟨l₃, l₄, u, rfl, h₂, hgroup⟩ := ends_flow_bind hnext
  · exact settles_elsewhere (hlast h₂)
  refine settles_append (settles_elsewhere (hlast h₂)) ?_
  obtain ⟨lm, lr, rm, rr, hmongo, hrest, hmerge, -⟩ := ends_group_cons hgroup
  obtain ⟨lq, ls, rq, rs, hlogs, hsettings, hmerge', -⟩ := ends_group_cons hrest
  obtain ⟨lc, lz, rc, rz, hcache, hnil, hmerge'', -⟩ := ends_group_cons hsettings
  obtain ⟨rfl, -⟩ := ends_group_nil hnil
  refine settles_merge hmerge ?_ (settles_merge hmerge' ?_
    (settles_merge hmerge''.symm (List.forall_mem_nil _) ?_))
  · rw [ends_act hmongo]
    exact List.forall_mem_singleton.2 nofun
  · rw [ends_act hlogs]
    exact List.forall_mem_singleton.2 nofun
  · exact settles_settings hcache

end Settings

section Documents

variable {s : Stores} {a pid : String} {l : List profileCalls.sig.Act} {r : Except ServiceErr Unit}

/-- The calls of a purge: they make nothing. -/
def PurgeCall : ProfileOp → Prop
  | .createProfile _ => False
  | .edit _ _ => False
  | .findOneAndUpdate _ _ => False
  | .redis _ (.del _) => True
  | .redis _ _ => False
  | _ => True

theorem purgeCall_deletionCall (o : ProfileOp) (h : DeletionCall pid o) : PurgeCall o := by
  cases o with
  | redis pid' cmd => cases cmd <;> trivial
  | createProfile p => exact h
  | edit pid' e => exact h
  | findOneAndUpdate pid' upd => exact h
  | _ => trivial

/-- No document of the account is left, and no credential. -/
structure Gone (a : String) (s : Stores) : Prop where
  credentials : a ∉ s.credentials
  profiles : ∀ p ∈ s.profiles, p.accountId ≠ a
  account : ∀ doc ∈ s.accounts, doc.id ≠ a

/-- What a call of a purge can do to the documents. -/
structure Shrinks (s s' : Stores) : Prop where
  credentials : ∀ a ∈ s'.credentials, a ∈ s.credentials
  profiles : ∀ p ∈ s'.profiles, p ∈ s.profiles
  accounts : ∀ doc ∈ s'.accounts, ∃ doc' ∈ s.accounts, doc'.id = doc.id
  subscriptions : ∀ a ∈ s'.subscriptions, a ∈ s.subscriptions

theorem Shrinks.refl (s : Stores) : Shrinks s s :=
  ⟨fun _ h => h, fun _ h => h, fun doc h => ⟨doc, h, rfl⟩, fun _ h => h⟩

theorem Shrinks.trans {s' s'' : Stores} (h : Shrinks s s') (h' : Shrinks s' s'') :
    Shrinks s s'' where
  credentials a ha := h.credentials a (h'.credentials a ha)
  profiles p hp := h.profiles p (h'.profiles p hp)
  accounts doc hdoc := by
    obtain ⟨doc', hdoc', hid⟩ := h'.accounts doc hdoc
    obtain ⟨doc'', hdoc'', hid'⟩ := h.accounts doc' hdoc'
    exact ⟨doc'', hdoc'', hid'.trans hid⟩
  subscriptions a ha := h.subscriptions a (h'.subscriptions a ha)

theorem Gone.of_shrinks {s' : Stores} (h : Gone a s) (hs : Shrinks s s') : Gone a s' where
  credentials ha := h.credentials (hs.credentials a ha)
  profiles p hp := h.profiles p (hs.profiles p hp)
  account doc hdoc := by
    obtain ⟨doc', hdoc', hid⟩ := hs.accounts doc hdoc
    rw [← hid]
    exact h.account doc' hdoc'

theorem shrinks_act {x : profileCalls.sig.Act} (hx : PurgeCall x.1) : Shrinks s (s.act x) := by
  obtain ⟨o, r⟩ := x
  unfold Stores.act
  split
  · cases o with
    | createProfile p => exact hx.elim
    | edit pid e => exact hx.elim
    | findOneAndUpdate pid upd => exact hx.elim
    | deleteProfileById pid =>
      exact { Shrinks.refl s with profiles := fun p hp => (List.mem_filter.1 hp).1 }
    | deleteCredentials a =>
      exact { Shrinks.refl s with credentials := fun c hc => (List.mem_filter.1 hc).1 }
    | deleteAccountById a =>
      exact { Shrinks.refl s with
              accounts := fun doc hdoc => ⟨doc, (List.mem_filter.1 hdoc).1, rfl⟩ }
    | deleteSubscription a =>
      exact { Shrinks.refl s with subscriptions := fun c hc => (List.mem_filter.1 hc).1 }
    | removeProfileFromAccount a pid =>
      refine { Shrinks.refl s with accounts := fun doc hdoc => ?_ }
      obtain ⟨doc', hdoc', rfl⟩ := List.mem_map.1 hdoc
      refine ⟨doc', hdoc', ?_⟩
      split <;> rfl
    | _ => exact ⟨fun _ h => h, fun _ h => h, fun doc h => ⟨doc, h, rfl⟩, fun _ h => h⟩
  · exact Shrinks.refl s

theorem shrinks_after (hl : ∀ x ∈ l, PurgeCall x.1) : Shrinks s (s.after l) := by
  induction l generalizing s with
  | nil => exact Shrinks.refl s
  | cons x l ih =>
    obtain ⟨hx, hl⟩ := List.forall_mem_cons.1 hl
    exact (shrinks_act hx).trans (ih hl)

/-- A profile stays, unless its document is deleted. -/
theorem profile_stays {p : Profile} (hp : p ∈ s.profiles) (hl : ∀ x ∈ l, PurgeCall x.1) :
    p ∈ (s.after l).profiles ∨ ∃ x ∈ l, x.1 = .deleteProfileById p.profileId ∧ TookEffect x.2 := by
  induction l generalizing s with
  | nil => exact .inl hp
  | cons x l ih =>
    obtain ⟨hx, hl⟩ := List.forall_mem_cons.1 hl
    have hstep : p ∈ (s.act x).profiles ∨
        (x.1 = .deleteProfileById p.profileId ∧ TookEffect x.2) := by
      obtain ⟨o, r⟩ := x
      unfold Stores.act
      split
      · next htook =>
        cases o with
        | createProfile p => exact hx.elim
        | edit pid e => exact hx.elim
        | findOneAndUpdate pid upd => exact hx.elim
        | deleteProfileById pid =>
          by_cases hpid : p.profileId = pid
          · subst hpid
            exact .inr ⟨rfl, htook⟩
          · exact .inl (List.mem_filter.2 ⟨hp, by simpa using hpid⟩)
        | _ => exact .inl hp
      · exact .inl hp
    rcases hstep with hp' | hdeleted
    · exact (ih hp' hl).imp_right fun ⟨y, hy, hop⟩ => ⟨y, List.mem_cons_of_mem _ hy, hop⟩
    · exact .inr ⟨x, List.mem_cons_self .., hdeleted⟩

theorem profile_gone {p : Profile} {x : profileCalls.sig.Act}
    (hl : ∀ x ∈ l, PurgeCall x.1) (hx : x ∈ l) (hop : x.1 = .deleteProfileById p.profileId)
    (htook : TookEffect x.2) : p ∉ (s.after l).profiles := by
  obtain ⟨l₁, l₂, rfl⟩ := List.append_of_mem hx
  intro hp
  rw [after_append, after_cons] at hp
  have hp' := (shrinks_after fun y hy => hl y (by simp [hy])).profiles p hp
  rw [act_effect htook, hop] at hp'
  have hne := (List.mem_filter.1 hp').2
  simp at hne

theorem subscription_gone {x : profileCalls.sig.Act} (hl : ∀ x ∈ l, PurgeCall x.1) (hx : x ∈ l)
    (hop : x.1 = .deleteSubscription a) (htook : TookEffect x.2) :
    a ∉ (s.after l).subscriptions := by
  obtain ⟨l₁, l₂, rfl⟩ := List.append_of_mem hx
  intro ha
  rw [after_append, after_cons] at ha
  have ha' := (shrinks_after fun y hy => hl y (by simp [hy])).subscriptions a ha
  rw [act_effect htook, hop] at ha'
  have hne := (List.mem_filter.1 ha').2
  simp at hne

/-- A subscription stays until it is deleted. -/
theorem subscription_stays (ha : a ∈ s.subscriptions) (hl : ∀ x ∈ l, x.1 ≠ .deleteSubscription a) :
    a ∈ (s.after l).subscriptions := by
  induction l generalizing s with
  | nil => exact ha
  | cons x l ih =>
    obtain ⟨hx, hl⟩ := List.forall_mem_cons.1 hl
    refine ih ?_ hl
    obtain ⟨o, r⟩ := x
    unfold Stores.act
    split
    · cases o with
      | deleteSubscription b =>
        refine List.mem_filter.2 ⟨ha, ?_⟩
        have hab : a ≠ b := by
          rintro rfl
          exact hx rfl
        simpa using hab
      | _ => exact ha
    · exact ha

end Documents

section Runs

variable {s s' s'' : Stores} {a : String} {l : List profileCalls.sig.Act}
  {r : Except ServiceErr Unit} {profiles : List Profile}

theorem within_purgeProfiles : Within PurgeCall (purgeProfiles a profiles) := by
  induction profiles with
  | nil => exact within_pure
  | cons p profiles ih =>
    refine within_bind (within_mono purgeCall_deletionCall (within_deleteProfile true)) fun _ => ?_
    exact within_bind (within_act trivial) fun _ => ih

theorem within_purgeAccountData : Within PurgeCall (purgeAccountData a) := by
  refine within_bind (within_act trivial) fun _ => ?_
  refine within_bind (within_act trivial) fun profiles => ?_
  refine within_bind within_purgeProfiles fun _ => ?_
  exact within_bind (within_act trivial) fun _ => within_act trivial

/-- A purge of the profiles that ends without an error has deleted all of them. -/
theorem ends_purgeProfiles_ok (h : Ends (purgeProfiles a profiles).run l (.ok ())) :
    ∀ p ∈ profiles, ∃ x ∈ l, x.1 = .deleteProfileById p.profileId ∧ TookEffect x.2 := by
  induction profiles generalizing l with
  | nil => exact List.forall_mem_nil _
  | cons p profiles ih =>
    obtain ⟨e, -, h⟩ | ⟨l₁, l₂, u, rfl, h₁, hnext⟩ := ends_flow_bind h
    · cases h
    obtain ⟨e, -, h⟩ | ⟨v, l₃, rfl, hrest⟩ := ends_act_bind hnext
    · cases h
    refine List.forall_mem_cons.2
      ⟨⟨_, List.mem_append_left _ (ends_deleteProfile_ok h₁).1, rfl, trivial⟩, ?_⟩
    intro q hq
    obtain ⟨x, hx, hop⟩ := ih hrest q hq
    exact ⟨x, by simp [hx], hop⟩

theorem settles_purgeProfiles {pid : String} (h : Ends (purgeProfiles a profiles).run l r) :
    Settles pid l := by
  induction profiles generalizing l with
  | nil =>
    obtain ⟨rfl, -⟩ := ends_flow_pure h
    exact settles_nil
  | cons p profiles ih =>
    have hone : ∀ {l r}, Ends (deleteProfile a p.profileId true).run l r → Settles pid l := by
      intro l r h
      by_cases hpid : p.profileId = pid
      · subst hpid
        exact settles_deleteProfile h
      · refine settles_elsewhere fun x hx => elsewhere_deletionCall hpid x.1 ?_
        exact within_path (within_deleteProfile true) h x hx
    obtain ⟨e, h₁, rfl⟩ | ⟨l₁, l₂, u, rfl, h₁, hnext⟩ := ends_flow_bind h
    · exact hone h₁
    refine settles_append (hone h₁) ?_
    obtain ⟨e, rfl, rfl⟩ | ⟨v, l₃, rfl, hrest⟩ := ends_act_bind hnext
    · exact settles_cons nofun settles_nil
    · exact settles_cons nofun (ih hrest)

theorem settles_purge {pid : String} (h : Ends (purgeAccountData a).run l r) : Settles pid l := by
  obtain ⟨e, rfl, rfl⟩ | ⟨u, l₁, rfl, hlist⟩ := ends_act_bind h
  · exact settles_cons nofun settles_nil
  refine settles_cons nofun ?_
  obtain ⟨e, rfl, rfl⟩ | ⟨profiles, l₂, rfl, hprofiles⟩ := ends_act_bind hlist
  · exact settles_cons nofun settles_nil
  refine settles_cons nofun ?_
  obtain ⟨e, h₁, rfl⟩ | ⟨l₃, l₄, u, rfl, h₁, haccount⟩ := ends_flow_bind hprofiles
  · exact settles_purgeProfiles h₁
  refine settles_append (settles_purgeProfiles h₁) ?_
  obtain ⟨e, rfl, rfl⟩ | ⟨u, l₅, rfl, hsub⟩ := ends_act_bind haccount
  · exact settles_cons nofun settles_nil
  refine settles_cons nofun ?_
  rw [ends_act hsub]
  exact settles_cons nofun settles_nil

theorem purgeProfiles_keeps (h : Ends (purgeProfiles a profiles).run l r) :
    ∀ x ∈ l, x.1 ≠ .deleteSubscription a := by
  have hwithin : Within (fun o : ProfileOp => o ≠ .deleteSubscription a)
      (purgeProfiles a profiles) := by
    clear h
    induction profiles with
    | nil => exact within_pure
    | cons p profiles ih =>
      refine within_bind (within_mono (fun o ho => ?_) (within_deleteProfile true)) fun _ => ?_
      · rintro rfl
        exact ho
      · exact within_bind (within_act nofun) fun _ => ih
  exact within_path hwithin h

/-- The subscription is deleted last, after everything else has gone well. -/
theorem ends_purge (h : Ends (purgeAccountData a).run l r) :
    ((∀ x ∈ l, x.1 ≠ .deleteSubscription a) ∧ r ≠ .ok ()) ∨
      ∃ profiles l₁, l = ⟨.deleteCredentials a, .ok ()⟩ ::
        ⟨.getProfilesByAccountId a, .ok profiles⟩ :: l₁ ++
          ⟨.deleteAccountById a, .ok ()⟩ :: [⟨.deleteSubscription a, r⟩] ∧
        Ends (purgeProfiles a profiles).run l₁ (.ok ()) := by
  obtain ⟨e, rfl, rfl⟩ | ⟨u, l₁, rfl, hlist⟩ := ends_act_bind h
  · exact .inl ⟨List.forall_mem_singleton.2 nofun, nofun⟩
  obtain ⟨e, rfl, rfl⟩ | ⟨profiles, l₂, rfl, hprofiles⟩ := ends_act_bind hlist
  · exact .inl ⟨List.forall_mem_cons.2 ⟨nofun, List.forall_mem_singleton.2 nofun⟩, nofun⟩
  obtain ⟨e, h₁, rfl⟩ | ⟨l₃, l₄, v, rfl, h₁, haccount⟩ := ends_flow_bind hprofiles
  · exact .inl
      ⟨List.forall_mem_cons.2 ⟨nofun, List.forall_mem_cons.2 ⟨nofun, purgeProfiles_keeps h₁⟩⟩,
        nofun⟩
  obtain ⟨e, rfl, rfl⟩ | ⟨w, l₅, rfl, hsub⟩ := ends_act_bind haccount
  · refine .inl
      ⟨List.forall_mem_cons.2 ⟨nofun, List.forall_mem_cons.2 ⟨nofun, fun x hx => ?_⟩⟩, nofun⟩
    rcases List.mem_append.1 hx with hx | hx
    · exact purgeProfiles_keeps h₁ x hx
    · rw [List.mem_singleton.1 hx]
      exact nofun
  · refine .inr ⟨profiles, l₃, ?_, h₁⟩
    rw [ends_act hsub]
    rfl

/-- Before the subscription is deleted, everything else of the account is gone. -/
theorem gone_of_purge {l₁ : List profileCalls.sig.Act}
    (hl : l = ⟨.deleteCredentials a, .ok ()⟩ :: ⟨.getProfilesByAccountId a, .ok profiles⟩ :: l₁ ++
      ⟨.deleteAccountById a, .ok ()⟩ :: [⟨.deleteSubscription a, r⟩])
    (hends : Ends (purgeProfiles a profiles).run l₁ (.ok ()))
    (h : Exec profileHandler () (purgeAccountData a).run s l r s') : Gone a (s.after l) := by
  have hcalls : ∀ x ∈ l, PurgeCall x.1 := within_path within_purgeAccountData (exec_path h)
  subst hl
  obtain ⟨-, hcalls⟩ := List.forall_mem_cons.1 hcalls
  obtain ⟨-, hcalls⟩ := List.forall_mem_cons.1 hcalls
  generalize hs₁ : s.act ⟨.deleteCredentials a, (.ok () : Except ServiceErr Unit)⟩ = s₁
  have hlisted : profiles = s₁.profiles.filter (·.accountId = a) := by
    obtain ⟨c, hc⟩ := answer_exec (l := [⟨.deleteCredentials a, .ok ()⟩]) h
    cases c with
    | ok => exact (Except.ok.inj (Option.some.inj hc)).symm.trans (by rw [← hs₁]; rfl)
    | _ => cases hc
  have hafter : s.after (⟨.deleteCredentials a, .ok ()⟩ ::
    ⟨.getProfilesByAccountId a, .ok profiles⟩ :: l₁ ++
      ⟨.deleteAccountById a, .ok ()⟩ :: [⟨.deleteSubscription a, r⟩]) =
      s₁.after (l₁ ++ ⟨.deleteAccountById a, .ok ()⟩ :: [⟨.deleteSubscription a, r⟩]) := by
    rw [← hs₁]
    rfl
  rw [hafter]
  have hshrinks := shrinks_after (s := s₁) hcalls
  refine ⟨fun ha => ?_, fun p hp hpa => ?_, fun doc hdoc hid => ?_⟩
  · have hcred := hshrinks.credentials a ha
    rw [← hs₁] at hcred
    have hne := (List.mem_filter.1 hcred).2
    simp at hne
  · have hmem : p ∈ profiles := by
      rw [hlisted]
      exact List.mem_filter.2 ⟨hshrinks.profiles p hp, by simpa using hpa⟩
    obtain ⟨x, hx, hop, htook⟩ := ends_purgeProfiles_ok hends p hmem
    exact profile_gone hcalls (List.mem_append_left _ hx) hop htook hp
  · rw [after_append, after_cons] at hdoc
    obtain ⟨doc', hdoc', hid'⟩ := (shrinks_after (l := [⟨.deleteSubscription a, r⟩])
      (List.forall_mem_singleton.2 trivial)).accounts doc hdoc
    have hne := (List.mem_filter.1 hdoc').2
    rw [hid', hid] at hne
    simp at hne

/-- The runs of a purge, one after the other: their actions, and how they ended. -/
inductive PurgeRuns (a : String) (s : Stores) :
    List (List profileCalls.sig.Act × Except ServiceErr Unit) → Stores → Prop where
  | nil : PurgeRuns a s [] s
  | snoc {runs : List (List profileCalls.sig.Act × Except ServiceErr Unit)} {s' s'' : Stores}
      {l : List profileCalls.sig.Act} {r : Except ServiceErr Unit} :
      PurgeRuns a s runs s' → Exec profileHandler () (purgeAccountData a).run s' l r s'' →
      PurgeRuns a s (runs ++ [(l, r)]) s''

/-- Nothing is left of the account that had its profiles in `s`. -/
structure Emptied (a : String) (s s' : Stores) : Prop where
  gone : Gone a s'
  settings : ∀ p ∈ s.profiles, p.accountId = a → s'.redis p.profileId = .absent

/-- Where the run deletes the document of a profile, it gets to the end of the deletion of its
settings. -/
def CleansUp (l : List profileCalls.sig.Act) : Prop :=
  ∀ pid, ∀ x ∈ l, x.1 = .deleteProfileById pid → TookEffect x.2 → SettingsDeleted pid l

/-- What holds of the stores `t` between two runs of a purge that has started in `s`. -/
structure PurgeInv (a : String) (s t : Stores) : Prop where
  anchored : a ∈ t.subscriptions ∨ Emptied a s t
  stored : ∀ p ∈ s.profiles, p.accountId = a → p ∈ t.profiles ∨ t.redis p.profileId = .absent
  listed : ∀ p ∈ s.profiles, p.accountId = a → (t.redis p.profileId).Listed

theorem emptied_after {t : Stores} (h : Emptied a s t) (hl : ∀ x ∈ l, PurgeCall x.1)
    (hdel : ∀ pid, ∀ x ∈ l, DeletesOnly pid x.1) : Emptied a s (t.after l) where
  gone := h.gone.of_shrinks (shrinks_after hl)
  settings p hp hpa := absent_after (h.settings p hp hpa) (hdel p.profileId)

/-- **Step lemma**: one run. -/
theorem purge_step {t t' : Stores} (h : Exec profileHandler () (purgeAccountData a).run t l r t')
    (hinv : PurgeInv a s t) (hclean : CleansUp l) :
    PurgeInv a s t' ∧ (∀ l₁, l₁ <+: l → a ∈ (t.after l₁).subscriptions ∨ Emptied a s (t.after l₁)) ∧
      (r = .ok () → a ∉ t'.subscriptions ∧ Emptied a s t') := by
  have hends := exec_path h
  have hcalls : ∀ x ∈ l, PurgeCall x.1 := within_path within_purgeAccountData hends
  have hsettles : ∀ pid, Settles pid l := fun pid => settles_purge hends
  obtain rfl := state_exec h
  have hsettled := fun p hp hpa =>
    (hsettles p.profileId).settles t (truthful_exec h) (hinv.listed p hp hpa)
  have hstored : ∀ p ∈ s.profiles, p.accountId = a → p ∈ (t.after l).profiles ∨
      (t.after l).redis p.profileId = .absent := by
    intro p hp hpa
    rcases hinv.stored p hp hpa with hmem | habsent
    · refine (profile_stays hmem hcalls).imp_right fun ⟨x, hx, hop, htook⟩ => ?_
      exact (hsettled p hp hpa).2 (hclean p.profileId x hx hop htook)
    · exact .inr (absent_after habsent (hsettles p.profileId).deletes)
  have hemptied : Gone a (t.after l) → Emptied a s (t.after l) := fun hgone =>
    ⟨hgone, fun p hp hpa => (hstored p hp hpa).resolve_left fun hmem => hgone.profiles p hmem hpa⟩
  -- as long as it is not deleted in the run, the subscription is where it was
  have hkeeps : ∀ l₁, l₁ <+: l → (∀ x ∈ l₁, x.1 ≠ .deleteSubscription a) →
      a ∈ (t.after l₁).subscriptions ∨ Emptied a s (t.after l₁) := by
    intro l₁ hl₁ hnot
    have hsub := fun x (hx : x ∈ l₁) => hl₁.subset hx
    refine hinv.anchored.imp (fun ha => subscription_stays ha hnot) fun he => ?_
    exact emptied_after he (fun x hx => hcalls x (hsub x hx)) fun pid x hx =>
      (hsettles pid).deletes x (hsub x hx)
  rcases ends_purge hends with ⟨hnot, hr⟩ | ⟨profiles, l₂, hl, hprofiles⟩
  · have hbefore : ∀ l₁, l₁ <+: l → a ∈ (t.after l₁).subscriptions ∨ Emptied a s (t.after l₁) :=
      fun l₁ hl₁ => hkeeps l₁ hl₁ fun x hx => hnot x (hl₁.subset hx)
    refine ⟨⟨hbefore l (List.prefix_refl l), hstored, fun p hp hpa => (hsettled p hp hpa).1⟩,
      hbefore, ?_⟩
    exact fun h => absurd h hr
  · have he := hemptied (gone_of_purge hl hprofiles h)
    refine ⟨⟨.inr he, hstored, fun p hp hpa => (hsettled p hp hpa).1⟩, fun l₁ hl₁ => ?_, ?_⟩
    · have hl' : l = (⟨.deleteCredentials a, .ok ()⟩ ::
        ⟨.getProfilesByAccountId a, .ok profiles⟩ :: l₂ ++
          [⟨.deleteAccountById a, .ok ()⟩]) ++ [⟨.deleteSubscription a, r⟩] := by
        rw [hl]
        simp
      have hcases := hl₁
      rw [hl'] at hcases
      rcases List.prefix_concat_iff.1 hcases with heq | hbody
      · rw [heq, ← hl']
        exact .inr he
      · refine hkeeps l₁ hl₁ fun x hx => ?_
        have hmem := hbody.subset hx
        rcases List.mem_append.1 hmem with hmem | hmem
        · rcases List.mem_cons.1 hmem with rfl | hmem
          · exact nofun
          rcases List.mem_cons.1 hmem with rfl | hmem
          · exact nofun
          · exact purgeProfiles_keeps hprofiles x hmem
        · rw [List.mem_singleton.1 hmem]
          exact nofun
    · rintro rfl
      have hlast : (⟨.deleteSubscription a, .ok ()⟩ : profileCalls.sig.Act) ∈ l := by
        rw [hl]
        exact List.mem_append_right _ (List.mem_cons_of_mem _ (List.mem_cons_self ..))
      exact ⟨subscription_gone hcalls hlast rfl trivial, he⟩

/-- All actions of the runs. -/
def history (runs : List (List profileCalls.sig.Act × Except ServiceErr Unit)) :
    List profileCalls.sig.Act :=
  (runs.map Prod.fst).flatten

theorem purge_state {runs : List (List profileCalls.sig.Act × Except ServiceErr Unit)}
    (h : PurgeRuns a s runs s') :
    s' = s.after (history runs) := by
  induction h with
  | nil => rfl
  | @snoc runs t t' l r _ hexec ih =>
    have hhistory : history (runs ++ [(l, r)]) = history runs ++ l := by simp [history]
    rw [state_exec hexec, ih, hhistory, after_append]

/-- **The purge is complete.** In every sequence of runs each of which cleans up what it deletes, as
long as anything of the account is left, its subscription is; after a run without an error nothing
is left. -/
theorem purge_complete {runs : List (List profileCalls.sig.Act × Except ServiceErr Unit)}
    (hsub : a ∈ s.subscriptions) (hlisted : ∀ p ∈ s.profiles, p.accountId = a →
      (s.redis p.profileId).Listed)
    (hruns : PurgeRuns a s runs s') (hclean : ∀ run ∈ runs, CleansUp run.1) :
    (∀ l, l <+: history runs → a ∈ (s.after l).subscriptions ∨ Emptied a s (s.after l)) ∧
      ∀ run, runs.getLast? = some run → run.2 = .ok () → a ∉ s'.subscriptions ∧ Emptied a s s' := by
  -- by induction on the runs: `PurgeInv` is what the next one relies on
  have hinv : PurgeInv a s s' ∧ (∀ l, l <+: history runs → a ∈ (s.after l).subscriptions ∨
    Emptied a s (s.after l)) ∧
      ∀ run, runs.getLast? = some run → run.2 = .ok () → a ∉ s'.subscriptions ∧ Emptied a s s' := by
    induction hruns with
    | nil =>
      refine ⟨⟨.inl hsub, fun p hp _ => .inl hp, hlisted⟩, fun l hl => ?_,
        fun run hrun => nomatch hrun⟩
      rw [List.prefix_nil.1 hl]
      exact .inl hsub
    | @snoc runs t t' l r hruns hexec ih =>
      obtain ⟨hinv, hbefore, -⟩ := ih fun run hrun => hclean run (List.mem_append_left _ hrun)
      obtain ⟨hinv', hbefore', hok⟩ := purge_step hexec hinv (hclean (l, r) (by simp))
      refine ⟨hinv', fun l₁ hl₁ => ?_, fun run hrun hr => ?_⟩
      · have hhistory : history (runs ++ [(l, r)]) = history runs ++ l := by simp [history]
        obtain ⟨l₂, heq⟩ := hl₁
        rw [hhistory] at heq
        -- a prefix of the history ends in an earlier run or in this one
        rcases List.append_eq_append_iff.1 heq with ⟨l₃, hruns₁, -⟩ | ⟨l₃, rfl, hl⟩
        · exact hbefore l₁ ⟨l₃, hruns₁.symm⟩
        · rw [after_append, ← purge_state hruns]
          exact hbefore' l₃ ⟨l₂, hl.symm⟩
      · rw [List.getLast?_append, List.getLast?_singleton] at hrun
        obtain rfl := Option.some.inj hrun
        exact hok hr
  exact hinv.2

end Runs

section Examples

/-- An account with one profile, its credentials and its subscription. -/
def accountStores : Stores :=
  { oneStores with accounts := [⟨"a", ["p"]⟩], credentials := ["a"], subscriptions := ["a"] }

/-- A run under a list of choices. -/
def purgeUnder (choices : List Choice) (s : Stores) :
    Option (List profileCalls.sig.Act × Except ServiceErr Unit × Stores) :=
  (purgeAccountData "a").run.exec profileHandler () choices s

theorem exec_purgeUnder {choices : List Choice} {s : Stores} (h : (purgeUnder choices s).isSome) :
    Exec profileHandler () (purgeAccountData "a").run s ((purgeUnder choices s).get h).1
      ((purgeUnder choices s).get h).2.1 ((purgeUnder choices s).get h).2.2 :=
  exec_of_choices (Option.some_get h).symm

/-- The calls of a run, up to the first command of the deletion of the settings. -/
def upToSettings : List Choice := [.ok, .ok, .ok, .left true, .ok, .left true, .ok]

/-- The document is deleted, and the settings are not. -/
def redisFails : List Choice := upToSettings ++ [.fail false]

theorem redisFails_plays : (purgeUnder redisFails accountStores).isSome := by decide

/-- The next run finds no profile. -/
def secondRun : List Choice := [.ok, .ok, .ok, .ok]

theorem secondRun_plays :
    (purgeUnder secondRun
      ((purgeUnder redisFails accountStores).get redisFails_plays).2.2).isSome := by decide

/-- The account is gone with its subscription, and the proxy still serves its profile. -/
theorem orphaned_settings :
    ∃ runs s', PurgeRuns "a" accountStores runs s' ∧ (runs.getLast?.map Prod.snd) = some (.ok ()) ∧
      "a" ∉ s'.subscriptions ∧ s'.find "p" = none ∧ (s'.redis "p").Served := by
  refine ⟨_, _, .snoc (.snoc .nil (exec_purgeUnder redisFails_plays))
    (exec_purgeUnder secondRun_plays), rfl, by decide,
    by decide, "default_rule", .text "allow", by decide⟩

/-- The settings are deleted, and the document is not. -/
def storeFails : List Choice :=
  [.ok, .ok, .ok, .left true, .fail false, .left true, .ok, .ok, .ok, .ok]

theorem storeFails_plays : (purgeUnder storeFails accountStores).isSome := by decide

/-- The stores after the failed run. -/
def failedStores : Stores := ((purgeUnder storeFails accountStores).get storeFails_plays).2.2

/-- No call fails. -/
def retriedRun : List Choice := upToSettings ++ List.replicate 6 .ok

theorem retriedRun_plays : (purgeUnder retriedRun failedStores).isSome := by decide +kernel

/-- A run that fails and one that does not, with what they have done. -/
def retriedRuns : List (List profileCalls.sig.Act × Except ServiceErr Unit) :=
  [(((purgeUnder storeFails accountStores).get storeFails_plays).1,
      ((purgeUnder storeFails accountStores).get storeFails_plays).2.1),
    (((purgeUnder retriedRun failedStores).get retriedRun_plays).1,
      ((purgeUnder retriedRun failedStores).get retriedRun_plays).2.1)]

/-- The documents that a run deletes. -/
def deletedIn (l : List profileCalls.sig.Act) : List String :=
  (l.filter fun x => TookEffect x.2).flatMap fun x => match x.1 with
    | .deleteProfileById pid => [pid]
    | _ => []

theorem cleansUp_of_deleted {l : List profileCalls.sig.Act}
    (h : ∀ pid ∈ deletedIn l, SettingsDeleted pid l) :
    CleansUp l := by
  intro pid x hx hop htook
  refine h pid (List.mem_flatMap.2 ⟨x, List.mem_filter.2 ⟨hx, decide_eq_true htook⟩, ?_⟩)
  rw [hop]
  exact List.mem_singleton_self pid

/-- After the failed run the profile and the subscription are there, after the other one nothing
is. -/
theorem purge_complete_retried : ∃ s', PurgeRuns "a" accountStores retriedRuns s' ∧
    retriedRuns.map (fun run => run.2.toOption.isSome) = [false, true] ∧
    (failedStores.find "p").isSome ∧ "a" ∈ failedStores.subscriptions ∧
    (∀ l, l <+: history retriedRuns →
      "a" ∈ (accountStores.after l).subscriptions ∨
        Emptied "a" accountStores (accountStores.after l)) ∧
    "a" ∉ s'.subscriptions ∧ Emptied "a" accountStores s' := by
  have hruns : PurgeRuns "a" accountStores retriedRuns
    ((purgeUnder retriedRun failedStores).get retriedRun_plays).2.2 :=
    .snoc (.snoc .nil (exec_purgeUnder storeFails_plays)) (exec_purgeUnder retriedRun_plays)
  have hfirst : deletedIn ((purgeUnder storeFails accountStores).get storeFails_plays).1 = [] := by
    decide
  have hsecond : deletedIn ((purgeUnder retriedRun failedStores).get retriedRun_plays).1 =
      ["p"] := by decide +kernel
  have hclean : ∀ run ∈ retriedRuns, CleansUp run.1 := by
    refine List.forall_mem_cons.2 ⟨cleansUp_of_deleted ?_,
      List.forall_mem_singleton.2 (cleansUp_of_deleted ?_)⟩
    · rw [hfirst]
      exact List.forall_mem_nil _
    · rw [hsecond]
      exact List.forall_mem_singleton.2
        ⟨⟨.redis "p" (.del [.customRules]), .ok ()⟩, List.mem_iff_getElem?.2 ⟨9, rfl⟩, rfl, trivial⟩
  obtain ⟨hanchored, hlast⟩ :=
    purge_complete (by decide) (fun p _ _ id hid => absurd rfl hid) hruns hclean
  exact ⟨_, hruns, by decide +kernel, by decide, by decide, hanchored, hlast _ rfl rfl⟩

end Examples

end ModDNS.Profiles
