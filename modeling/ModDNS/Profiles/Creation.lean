import ModDNS.Profiles.Keys

/-!
# A creation that fails

`CreateProfile` writes the default settings to Redis while it builds them: before it has counted the
profiles of the account, looked for the name, and stored the document.

* `failed_creation`: what a creation that fails leaves in the stores.
* `limit_leaves_settings`: at the limit of the account the settings stay.
-/

namespace ModDNS.Profiles

open Conc

/-- The id that the call has drawn. -/
def Generated (l : List profileCalls.sig.Act) (pid : String) : Prop := ⟨.generate, .ok pid⟩ ∈ l

/-- The call makes a document or a key. -/
def ProfileOp.Creates (o : ProfileOp) : Prop :=
  (∃ p, o = .createProfile p) ∨ ∃ pid key, MakesKey pid key o

/-- The calls of a creation: reads, the commands for the new profile, and the insertion of its
document. -/
def CreationCall (pid : String) : ProfileOp → Prop
  | .generate => True
  | .getBlocklist _ => True
  | .getProfilesByAccountId _ => True
  | .smembers _ => True
  | .redis pid' _ => pid' = pid
  | .createProfile _ => True
  | _ => False

section Calls

variable {s : Stores} {pid : String} {x : profileCalls.sig.Act} {l : List profileCalls.sig.Act}

/-- Only an insertion changes the documents. -/
theorem profiles_effect {o : ProfileOp} (ho : CreationCall pid o)
    (hinsert : ∀ p, o ≠ .createProfile p) :
    (o.effect s).profiles = s.profiles := by
  cases o with
  | createProfile p => exact absurd rfl (hinsert p)
  | deleteProfileById => exact ho.elim
  | edit => exact ho.elim
  | findOneAndUpdate => exact ho.elim
  | _ => rfl

theorem profiles_act (hx : CreationCall pid x.1)
    (hinsert : (∃ p, x.1 = .createProfile p) → ¬ TookEffect x.2) :
    (s.act x).profiles = s.profiles := by
  by_cases htook : TookEffect x.2
  · rw [act_effect htook]
    exact profiles_effect hx fun p hp => hinsert ⟨p, hp⟩ htook
  · have hact : s.act x = s := if_neg htook
    rw [hact]

theorem profiles_inserted {p : Profile} (hop : x.1 = .createProfile p) (htook : TookEffect x.2) :
    (s.act x).profiles = s.profiles ++ [p] := by
  rw [act_effect htook, hop]
  rfl

theorem profiles_grow (hl : ∀ x ∈ l, CreationCall pid x.1) :
    s.profiles.length ≤ (s.after l).profiles.length := by
  induction l generalizing s with
  | nil => exact Nat.le_refl _
  | cons x l ih =>
    obtain ⟨hx, hl⟩ := List.forall_mem_cons.1 hl
    refine Nat.le_trans ?_ (ih hl)
    by_cases hinsert : (∃ p, x.1 = .createProfile p) ∧ TookEffect x.2
    · obtain ⟨⟨p, hop⟩, htook⟩ := hinsert
      rw [profiles_inserted hop htook, List.length_append]
      exact Nat.le_add_right _ _
    · rw [profiles_act hx fun hop htook => hinsert ⟨hop, htook⟩]

/-- The documents are those from before exactly if none has been inserted. -/
theorem profiles_after_iff (hl : ∀ x ∈ l, CreationCall pid x.1) :
    (s.after l).profiles = s.profiles ↔ ∀ x ∈ l, (∃ p, x.1 = .createProfile p) →
      ¬ TookEffect x.2 := by
  induction l generalizing s with
  | nil => exact ⟨fun _ => List.forall_mem_nil _, fun _ => rfl⟩
  | cons x l ih =>
    obtain ⟨hx, hl⟩ := List.forall_mem_cons.1 hl
    rw [after_cons, List.forall_mem_cons]
    constructor
    · intro hsame
      by_cases hinsert : (∃ p, x.1 = .createProfile p) ∧ TookEffect x.2
      · exfalso
        obtain ⟨⟨p, hop⟩, htook⟩ := hinsert
        have hlen := profiles_grow (s := s.act x) hl
        rw [hsame, profiles_inserted hop htook, List.length_append, List.length_singleton] at hlen
        omega
      · have hnot : (∃ p, x.1 = .createProfile p) → ¬ TookEffect x.2 := fun hop htook =>
          hinsert ⟨hop, htook⟩
        have hact : (s.act x).profiles = s.profiles := profiles_act hx hnot
        exact ⟨hnot, (ih hl).1 (hsame.trans hact.symm)⟩
    · rintro ⟨hnot, hrest⟩
      rw [(ih hl).2 hrest, profiles_act hx hnot]

/-- A call that makes nothing leaves the stores as they are. -/
theorem act_quiet (hs : s.redis pid = .absent) (hx : CreationCall pid x.1)
    (hquiet : x.1.Creates → ¬ TookEffect x.2) :
    s.act x = s := by
  obtain ⟨o, r⟩ := x
  by_cases htook : TookEffect r
  · have hact : s.act ⟨o, r⟩ = o.effect s := if_pos htook
    rw [hact]
    cases o with
    | redis pid' cmd =>
      obtain rfl : pid' = pid := hx
      have hcmd : cmd.run .absent = .absent :=
        absent_run fun key hkey => hquiet (.inr ⟨pid', key, cmd, rfl, hkey⟩) htook
      have hredis : Function.update s.redis pid' (cmd.run (s.redis pid')) = s.redis := by
        rw [hs, hcmd, ← hs, Function.update_eq_self]
      simp only [ProfileOp.effect, hredis]
    | createProfile p => exact absurd htook (hquiet (.inl ⟨p, rfl⟩))
    | generate => rfl
    | getBlocklist filter => rfl
    | getProfilesByAccountId a => rfl
    | smembers pid' => rfl
    | _ => exact hx.elim
  · exact if_neg htook

theorem after_quiet (hs : s.redis pid = .absent) (hl : ∀ x ∈ l, CreationCall pid x.1)
    (hquiet : ∀ x ∈ l, x.1.Creates → ¬ TookEffect x.2) : s.after l = s := by
  induction l with
  | nil => rfl
  | cons x l ih =>
    obtain ⟨hx, hl⟩ := List.forall_mem_cons.1 hl
    obtain ⟨hq, hquiet⟩ := List.forall_mem_cons.1 hquiet
    rw [after_cons, act_quiet hs hx hq, ih hl hquiet]

end Calls

section Trace

variable {env : ServiceEnv} {name accountId pid : String} {l : List profileCalls.sig.Act}

/-- The calls of `CreateOrUpdateProfileSettings`. -/
def SettingsCall (settings : ProfileSettings) (o : ProfileOp) : Prop :=
  o = .smembers settings.profileId ∨
    ∃ stored, ∃ cmd ∈ settingsCmds settings stored, o = .redis settings.profileId cmd

variable {settings : ProfileSettings} {r : Except ServiceErr Unit}

theorem ends_settings (h : Ends (createOrUpdateProfileSettings settings).run l r)
    (hrules : settings.customRules = []) :
    (∀ x ∈ l, SettingsCall settings x.1) ∧ Ordered settings.profileId l ∧
      (r = .ok () → ∃ x ∈ l, Wrote settings.profileId x) := by
  obtain ⟨e, rfl, rfl⟩ | ⟨stored, l', rfl, hpipe⟩ := ends_act_bind h
  · exact ⟨List.forall_mem_singleton.2 (.inl rfl), List.pairwise_singleton _ _, nofun⟩
  obtain ⟨hops, hok⟩ := ends_pipeline hpipe
  have hread : ∀ cmd, ProfileOp.smembers settings.profileId ≠ .redis settings.profileId cmd := nofun
  refine ⟨List.forall_mem_cons.2 ⟨.inl rfl, fun x hx => ?_⟩,
    List.pairwise_cons.2 ⟨?_, ?_⟩, fun hr => ?_⟩
  · have hmem : x.1 ∈ (settingsCmds settings stored).map (ProfileOp.redis settings.profileId ·) :=
      hops ▸ List.mem_map_of_mem hx
    obtain ⟨cmd, hcmd, heq⟩ := List.mem_map.1 hmem
    exact .inr ⟨stored, cmd, hcmd, heq.symm⟩
  · rintro y - key ⟨cmd, heq, -⟩
    exact absurd heq (hread cmd)
  · exact ordered_cmds hops (settingsCmds_ordered hrules stored)
  · have hprivacy : RedisCmd.hset .privacy settings.privacy.fields ∈
        settingsCmds settings stored := by
      simp [settingsCmds]
    have hop : ProfileOp.redis settings.profileId (.hset .privacy settings.privacy.fields) ∈
      l'.map (·.1) :=
      hops ▸ List.mem_map_of_mem hprivacy
    obtain ⟨x, hx, hxop⟩ := List.mem_map.1 hop
    obtain ⟨a, ha⟩ := hok hr x hx
    refine ⟨x, List.mem_cons_of_mem _ hx, ⟨settings.privacy.fields, List.cons_ne_nil _ _, hxop⟩, ?_⟩
    rw [ha]
    trivial

theorem SettingsCall.creation {o : ProfileOp} (h : SettingsCall settings o) :
    CreationCall settings.profileId o := by
  rcases h with rfl | ⟨stored, cmd, -, rfl⟩
  · trivial
  · rfl

/-- The pipeline of the settings takes no hash of a section away. -/
theorem hash_kept {stored : List RuleID} {keys : List SettingsKey} {hash : SettingsHash}
    (h : RedisCmd.del keys ∈ settingsCmds settings stored) : .hash hash ∉ keys := by
  have hstale : ∀ stale : List RuleID, SettingsKey.hash hash ∉ stale.map .customRule := by simp
  simp only [settingsCmds, queueReplaceCustomRules, queueCustomRules, List.mem_append,
    List.mem_cons, List.mem_map,
    reduceCtorEq, and_false, exists_false, or_false, List.not_mem_nil, RedisCmd.del.injEq] at h
  rcases h with (rfl | rfl) | hrules | hrules
  · simp
  · simp
  · split at hrules
    · cases hrules
    · simp at hrules
  · split at hrules
    · cases hrules
    · simp only [List.mem_cons, reduceCtorEq, RedisCmd.del.injEq, List.not_mem_nil, or_false,
        false_or] at hrules
      rw [hrules]
      exact hstale _

theorem SettingsCall.kept {o : ProfileOp} (h : SettingsCall settings o) :
    ¬ ClearsPrivacy settings.profileId o := by
  rcases h with rfl | ⟨stored, cmd, hcmd, rfl⟩
  · rintro ⟨keys, -, heq⟩
    cases heq
  · rintro ⟨keys, hkeys, heq⟩
    obtain rfl : cmd = .del keys := by injection heq
    exact hash_kept hcmd hkeys

/-- What a creation that fails after it has drawn the id `pid` has done. -/
structure Created (accountId pid : String) (l : List profileCalls.sig.Act) : Prop where
  generated : ∀ pid', Generated l pid' ↔ pid' = pid
  calls : ∀ x ∈ l, CreationCall pid x.1
  ordered : Ordered pid l
  kept : ∀ x ∈ l, ¬ ClearsPrivacy pid x.1
  /-- The settings come before the profiles of the account are read. -/
  wrote : (∃ x ∈ l, x.1 = .getProfilesByAccountId accountId) → ∃ x ∈ l, Wrote pid x

/-- The calls around the commands for the settings. -/
def Aside (pid : String) (o : ProfileOp) : Prop :=
  CreationCall pid o ∧ Elsewhere pid o ∧ o ≠ .generate

theorem created_of_parts {l₁ l₂ l₃ : List profileCalls.sig.Act} (hpid : settings.profileId = pid)
    (h₁ : ∀ x ∈ l₁, Aside pid x.1 ∧ x.1 ≠ .getProfilesByAccountId accountId)
    (h₂ : ∀ x ∈ l₂, SettingsCall settings x.1) (hordered : Ordered pid l₂)
    (h₃ : ∀ x ∈ l₃, Aside pid x.1)
    (hwrote : l₃ ≠ [] → ∃ x ∈ l₂, Wrote pid x) :
    Created accountId pid (⟨.generate, .ok pid⟩ :: (l₁ ++ l₂ ++ l₃)) := by
  subst hpid
  have hread : ∀ a, ProfileOp.smembers settings.profileId ≠ .getProfilesByAccountId a := nofun
  have hcmd : ∀ cmd a, ProfileOp.redis settings.profileId cmd ≠ .getProfilesByAccountId a := nofun
  -- no part draws a second id
  have hdraw : ∀ x ∈ l₁ ++ l₂ ++ l₃, x.1 ≠ .generate := by
    intro x hx
    rcases List.mem_append.1 hx with hx | hx
    · rcases List.mem_append.1 hx with hx | hx
      · exact (h₁ x hx).1.2.2
      · rcases h₂ x hx with hop | ⟨_, _, _, hop⟩
        · rw [hop]
          exact nofun
        · rw [hop]
          exact nofun
    · exact (h₃ x hx).2.2
  have hclears : ∀ o, Elsewhere settings.profileId o → ¬ ClearsPrivacy settings.profileId o :=
    fun o ho ⟨keys, _, heq⟩ => ho _ heq
  refine ⟨fun pid' => ⟨fun hgen => ?_, ?_⟩, ?_, ?_, ?_, ?_⟩
  · rcases List.mem_cons.1 hgen with heq | hmem
    · cases heq
      rfl
    · exact absurd rfl (hdraw _ hmem)
  · rintro rfl
    exact List.mem_cons_self ..
  · refine List.forall_mem_cons.2 ⟨trivial, fun x hx => ?_⟩
    rcases List.mem_append.1 hx with hx | hx
    · rcases List.mem_append.1 hx with hx | hx
      · exact (h₁ x hx).1.1
      · exact (h₂ x hx).creation
    · exact (h₃ x hx).1
  -- only the middle part writes settings, and it is ordered
  · have hrest : Ordered settings.profileId (l₁ ++ l₂ ++ l₃) := by
      rw [List.append_assoc]
      refine ordered_append.2 ⟨ordered_elsewhere fun x hx => (h₁ x hx).1.2.1, ordered_append.2
        ⟨hordered, ordered_elsewhere fun x hx => (h₃ x hx).2.1, ?_⟩, ?_⟩
      · rintro x - y hy key - ⟨cmd, heq, -⟩
        exact (h₃ y hy).2.1 cmd heq
      · rintro x hx y - key ⟨cmd, heq, -⟩
        exact absurd heq ((h₁ x hx).1.2.1 cmd)
    refine List.pairwise_cons.2 ⟨?_, hrest⟩
    rintro y - key ⟨cmd, heq, -⟩
    cases heq
  · refine List.forall_mem_cons.2 ⟨(fun ⟨_, _, heq⟩ => nomatch heq), fun x hx => ?_⟩
    rcases List.mem_append.1 hx with hx | hx
    · rcases List.mem_append.1 hx with hx | hx
      · exact hclears _ (h₁ x hx).1.2.1
      · exact (h₂ x hx).kept
    · exact hclears _ (h₃ x hx).2.1
  · rintro ⟨x, hx, hop⟩
    -- the profiles are listed in the last part only, behind the settings
    have hin : x ∈ l₃ := by
      rcases List.mem_cons.1 hx with rfl | hx
      · cases hop
      rcases List.mem_append.1 hx with hx | hx
      · exfalso
        rcases List.mem_append.1 hx with hx | hx
        · exact (h₁ x hx).2 hop
        · rcases h₂ x hx with hset | ⟨_, _, _, hset⟩
          · exact hread _ (hset.symm.trans hop)
          · exact hcmd _ _ (hset.symm.trans hop)
      · exact hx
    obtain ⟨y, hy, hwrites⟩ := hwrote (List.ne_nil_of_mem hin)
    exact ⟨y, List.mem_cons_of_mem _ (List.mem_append_left _ (List.mem_append_right _ hy)), hwrites⟩

theorem ends_createSettings {r : Except ServiceErr ProfileSettings}
    (h : Ends (createSettings pid).run l r) :
    ∃ found l₁ settings, l = ⟨.getBlocklist .isDefault, found⟩ :: l₁ ∧ settings.profileId = pid ∧
      (∀ x ∈ l₁, SettingsCall settings x.1) ∧ Ordered pid l₁ ∧
        ((∃ p, r = .ok p) → ∃ x ∈ l₁, Wrote pid x) := by
  obtain ⟨e, rfl, rfl⟩ | ⟨blocklists, l₁, rfl, hcache⟩ := ends_act_bind h
  · exact ⟨.error e, [], { newSettings with profileId := pid }, rfl, rfl, List.forall_mem_nil _,
      .nil, fun ⟨_, h⟩ => nomatch h⟩
  have hrules :
    ({ newSettings with profileId := pid, privacy.blocklists := blocklists } :
      ProfileSettings).customRules = [] :=
    rfl
  refine ⟨.ok blocklists, l₁,
    { newSettings with profileId := pid, privacy.blocklists := blocklists }, rfl, rfl, ?_⟩
  obtain ⟨e, hends, rfl⟩ | ⟨l₂, l₃, u, rfl, hends, hpure⟩ := ends_flow_bind hcache
  · obtain ⟨hcalls, hordered, -⟩ := ends_settings hends hrules
    exact ⟨hcalls, hordered, fun ⟨_, h⟩ => nomatch h⟩
  · obtain ⟨rfl, -⟩ := ends_flow_pure hpure
    obtain ⟨hcalls, hordered, hwrote⟩ := ends_settings hends hrules
    rw [List.append_nil]
    exact ⟨hcalls, hordered, fun _ => hwrote rfl⟩

/-- **Spec lemma** of a creation that fails. -/
theorem ends_createProfile {e : ServiceErr}
    (h : Ends (createProfile env name accountId).run l (.error e)) :
    (l = [] ∨ ∃ e, l = [⟨.generate, .error e⟩]) ∨ ∃ pid, Created accountId pid l := by
  obtain ⟨-, rfl, -⟩ | ⟨-, hnext⟩ := ends_ensure_bind h
  · exact .inl (.inl rfl)
  obtain ⟨-, rfl, -⟩ | ⟨-, hgen⟩ := ends_ensure_bind hnext
  · exact .inl (.inl rfl)
  obtain ⟨e', rfl, -⟩ | ⟨pid, l₁, rfl, hset⟩ := ends_act_bind hgen
  · exact .inl (.inr ⟨e', rfl⟩)
  refine .inr ⟨pid, ?_⟩
  have hlist : ∀ found, ∀ x ∈ [(⟨.getBlocklist .isDefault, found⟩ : profileCalls.sig.Act)],
      Aside pid x.1 ∧ x.1 ≠ .getProfilesByAccountId accountId :=
    fun found => List.forall_mem_singleton.2 ⟨⟨trivial, nofun, nofun⟩, nofun⟩
  have hread : Aside pid (.getProfilesByAccountId accountId) := ⟨trivial, nofun, nofun⟩
  have hinsert : ∀ p, Aside pid (.createProfile p) := fun p => ⟨trivial, nofun, nofun⟩
  obtain ⟨e', hcreate, -⟩ | ⟨l₂, l₃, settings, rfl, hcreate, hrest⟩ := ends_flow_bind hset
  · obtain ⟨found, l₂, settings, rfl, hpid, hcalls, hordered, -⟩ := ends_createSettings hcreate
    have hparts : Created accountId pid
      (⟨.generate, .ok pid⟩ :: ([⟨.getBlocklist .isDefault, found⟩] ++ l₂ ++ [])) :=
      created_of_parts hpid (hlist found) hcalls hordered (List.forall_mem_nil _) (absurd rfl)
    simpa using hparts
  · obtain ⟨found, l₄, settings', rfl, hpid, hcalls, hordered, hwrote⟩ :=
      ends_createSettings hcreate
    have hwrites := hwrote ⟨settings, rfl⟩
    refine created_of_parts hpid (hlist found) hcalls hordered ?_ fun _ => hwrites
    obtain ⟨e', rfl, -⟩ | ⟨profiles, l₅, rfl, hlimit⟩ := ends_act_bind hrest
    · exact List.forall_mem_singleton.2 hread
    refine List.forall_mem_cons.2 ⟨hread, ?_⟩
    obtain ⟨-, rfl, -⟩ | ⟨-, hname⟩ := ends_ensure_bind hlimit
    · exact List.forall_mem_nil _
    obtain ⟨-, rfl, -⟩ | ⟨-, hstore⟩ := ends_ensure_bind hname
    · exact List.forall_mem_nil _
    obtain ⟨e', rfl, -⟩ | ⟨u, l₆, rfl, hpure⟩ := ends_act_bind hstore
    · exact List.forall_mem_singleton.2 (hinsert _)
    · cases (ends_flow_pure hpure).2

end Trace

section Failure

variable {ι : Type} {i : ι} {env : ServiceEnv} {name accountId : String} {s s' : Stores}
  {l : List profileCalls.sig.Act} {e : ServiceErr}

/-- **What a creation that fails leaves.** The stores are as they were exactly if none of its calls
that make something has been carried out. No document has been added and the proxy serves no
settings for the drawn id exactly if neither the insertion nor the write of the `privacy` hash has;
it serves them after every failure that comes later than the write of the settings. -/
theorem failed_creation (h : Exec profileHandler i (createProfile env name accountId).run s l
    (.error e) s') (hfresh : ∀ pid, Generated l pid → s.redis pid = .absent) :
    (s' = s ↔ ∀ x ∈ l, x.1.Creates → ¬ TookEffect x.2) ∧
      ((s'.profiles = s.profiles ∧ ∀ pid, Generated l pid → ¬ (s'.redis pid).Served) ↔
        ∀ x ∈ l, ((∃ p, x.1 = .createProfile p) ∨ ∃ pid, WritesPrivacy pid x.1) →
          ¬ TookEffect x.2) ∧
      ((∃ x ∈ l, x.1 = .getProfilesByAccountId accountId) → ∀ pid, Generated l pid →
        (s'.redis pid).Served) := by
  obtain rfl := state_exec h
  rcases ends_createProfile (exec_path h) with hearly | ⟨pid, hcreated⟩
  -- it fails before an id is drawn: nothing is made
  · have hl : ∀ x ∈ l, x.1 = .generate ∧ ∀ pid, x ≠ ⟨.generate, .ok pid⟩ := by
      rcases hearly with rfl | ⟨e', rfl⟩
      · exact List.forall_mem_nil _
      · refine List.forall_mem_singleton.2 ⟨rfl, fun pid heq => ?_⟩
        cases heq
    have hsame : s.after l = s := by
      rcases hearly with rfl | ⟨e', rfl⟩
      · rfl
      · exact ite_self s
    have hnone : ∀ pid, ¬ Generated l pid := fun pid hgen => (hl _ hgen).2 pid rfl
    have hop : ∀ x ∈ l, ∀ o : ProfileOp, o ≠ .generate → x.1 ≠ o := fun x hx o ho heq =>
      ho (heq.symm.trans (hl x hx).1)
    refine ⟨⟨fun _ x hx => ?_, fun _ => hsame⟩,
      ⟨fun _ x hx => ?_, fun _ => ⟨by rw [hsame], fun pid hgen => absurd hgen (hnone pid)⟩⟩,
      fun _ pid hgen => absurd hgen (hnone pid)⟩
    · rintro (⟨p, heq⟩ | ⟨pid, key, cmd, heq, -⟩)
      · exact absurd heq (hop x hx _ nofun)
      · exact absurd heq (hop x hx _ nofun)
    · rintro (⟨p, heq⟩ | ⟨pid, fields, -, heq⟩)
      · exact absurd heq (hop x hx _ nofun)
      · exact absurd heq (hop x hx _ nofun)
  -- an id is drawn: the proxy serves it once the `privacy` hash is written
  have hpid : s.redis pid = .absent := hfresh pid ((hcreated.generated pid).2 rfl)
  have hserved : ((s.after l).redis pid).Served ↔ ∃ x ∈ l, Wrote pid x := by
    rw [← not_iff_not, served_after]
    push Not
    constructor
    · rintro (⟨-, hnone⟩ | ⟨l₁, x, l₂, rfl, hcleared, -⟩)
      · exact hnone
      · exact absurd hcleared.1 (hcreated.kept x (by simp))
    · intro hnone
      rw [StaysOff, hpid]
      exact .inl ⟨not_served_absent, hnone⟩
  -- the stores, the documents and the settings, one after the other
  refine ⟨⟨fun hsame x hx hcreates htook => ?_, after_quiet hpid hcreated.calls⟩, ?_,
    fun hread pid' hpid' => ?_⟩
  · rcases hcreates with ⟨p, hop⟩ | ⟨pid', key, hkey⟩
    · have hprofiles : (s.after l).profiles = s.profiles := by rw [hsame]
      exact (profiles_after_iff hcreated.calls).1 hprofiles x hx ⟨p, hop⟩ htook
    · have hin : pid' = pid := by
        obtain ⟨cmd, hop, -⟩ := hkey
        have hcall := hcreated.calls x hx
        rw [hop] at hcall
        exact hcall
      subst hin
      have hpresent := present_of_made (s := s) hcreated.ordered hx hkey htook
      rw [hsame, hpid] at hpresent
      exact not_present_absent key hpresent
  · rw [profiles_after_iff hcreated.calls]
    constructor
    · rintro ⟨hdocs, hoff⟩ x hx (hop | ⟨pid', hwrites⟩) htook
      · exact hdocs x hx hop htook
      · have hin : pid' = pid := by
          obtain ⟨fields, -, hop⟩ := hwrites
          have hcall := hcreated.calls x hx
          rw [hop] at hcall
          exact hcall
        subst hin
        exact hoff pid' ((hcreated.generated pid').2 rfl) (hserved.2 ⟨x, hx, hwrites, htook⟩)
    · intro hnone
      refine ⟨fun x hx hop => hnone x hx (.inl hop), fun pid' hpid' hon => ?_⟩
      rw [(hcreated.generated pid').1 hpid', hserved] at hon
      obtain ⟨x, hx, hwrites, htook⟩ := hon
      exact hnone x hx (.inr ⟨pid, hwrites⟩) htook
  · rw [(hcreated.generated pid').1 hpid', hserved]
    exact hcreated.wrote hread

end Failure

section Examples

/-- One profile; no other id has keys in Redis. -/
def freshStores : Stores :=
  { oneStores with redis := Function.update (fun _ => .absent) "p" (oneStores.redis "p") }

/-- An account may have one profile. -/
def fullEnv : ServiceEnv := { exampleEnv with maxProfiles := 1 }

/-- A creation under a list of choices. -/
def createUnder (choices : List Choice) :
    Option (List profileCalls.sig.Act × Except ServiceErr Profile × Stores) :=
  (createProfile fullEnv "office" "a").run.exec profileHandler () choices freshStores

theorem exec_createUnder {choices : List Choice} (h : (createUnder choices).isSome) :
    Exec profileHandler () (createProfile fullEnv "office" "a").run freshStores
      ((createUnder choices).get h).1
      ((createUnder choices).get h).2.1 ((createUnder choices).get h).2.2 :=
  exec_of_choices (Option.some_get h).symm

/-- The id is drawn, and no call fails. -/
def drawsQ : List Choice := .id "q" :: List.replicate 11 .ok

theorem drawsQ_plays : (createUnder drawsQ).isSome := by decide

/-- The account is full, and the proxy serves the profile that has not been created. -/
theorem limit_leaves_settings :
    ∃ l s', Exec profileHandler () (createProfile fullEnv "office" "a").run freshStores l
        (.error .maxProfilesLimitReached) s' ∧
      Generated l "q" ∧ freshStores.redis "q" = .absent ∧ s'.find "q" = none ∧ s' ≠ freshStores ∧
      (s'.redis "q").Served := by
  have hserved : (((createUnder drawsQ).get drawsQ_plays).2.2.redis "q").Served :=
    ⟨"default_rule", .text "allow", by decide⟩
  refine ⟨_, _, exec_createUnder drawsQ_plays, List.mem_cons_self ..,
    rfl, by decide, fun hsame => ?_, hserved⟩
  rw [hsame] at hserved
  exact not_served_absent hserved

/-- `SMEMBERS` fails. -/
def readFails : List Choice := [.id "q", .ok, .fail false]

theorem readFails_plays : (createUnder readFails).isSome := by decide

theorem failed_creation_readFails :
    ∃ l s', Exec profileHandler () (createProfile fullEnv "office" "a").run freshStores l
      (.error (.store false)) s' ∧
      (s' = freshStores ↔ ∀ x ∈ l, x.1.Creates → ¬ TookEffect x.2) := by
  have hrun := exec_createUnder readFails_plays
  refine ⟨_, _, hrun, (failed_creation hrun fun pid hgen => ?_).1⟩
  have hacts : ((createUnder readFails).get readFails_plays).1 =
      [⟨.generate, .ok "q"⟩, ⟨.getBlocklist .isDefault, .ok []⟩,
        ⟨.smembers "q", .error (.store false)⟩] := rfl
  rw [Generated, hacts] at hgen
  rcases List.mem_cons.1 hgen with heq | hmem
  · cases heq
    rfl
  · have hop : ProfileOp.generate ∈ [ProfileOp.getBlocklist .isDefault, .smembers "q"] :=
      List.mem_map_of_mem (f := Sigma.fst) hmem
    simp at hop

end Examples

end ModDNS.Profiles
