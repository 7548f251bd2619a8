import ModDNS.Conc.Pool
import ModDNS.Profiles.Patch

/-!
# The steps of concurrent patches

Any number of PATCHes, interleaved. Each of them writes its fields to Mongo in one step and to Redis
in later ones, so that two PATCHes of one field can reach the two stores in opposite orders.

* `event_effect`: what an event of a PATCH does to a profile, in both stores.
* `agree_step`: a field agrees in the two stores, or some PATCH has yet to write it to Redis.
* `rulesInv_update`, `rulesInv_read`, `rulesInv_rule`, `rulesInv_ids`: the rules that PATCHes add.
-/

namespace ModDNS.Profiles

open Conc

theorem act_read {s : Stores} {x : profileCalls.sig.Act} (h : IsRead x.1) : s.act x = s := by
  unfold Stores.act
  rw [effect_read h]
  exact ite_self _

/-- A PATCH request. -/
structure PatchCall (V : Type) where
  accountId : String
  profileId : String
  updates : List (ProfileUpdate V)

section Statement

variable {ι V : Type} [DecidableEq ι] (env : ServiceEnv) (casts : Casts V) (newID : ι → ℕ → RuleID)
  (calls : ι → PatchCall V)

def patchPool (s : Stores) : Pool profileCalls.sig ι Stores (Except ServiceErr Profile) :=
  ⟨s, fun i => (updateProfile env casts (newID i) (calls i).accountId (calls i).profileId
    (calls i).updates).run⟩

/-- The call writes the field of a path to Mongo. -/
def ToMongo (pid : String) (path : PatchPath) (o : ProfileOp) : Prop :=
  ∃ upd, o = .findOneAndUpdate pid upd ∧ path ∈ upd.set.map Prod.fst

/-- The call writes `v` to Redis, as the field of a path. -/
def ToRedis (pid : String) (path : PatchPath) (v : FieldValue) (o : ProfileOp) : Prop :=
  ∃ h f, (patchFields path).hash = some (h, f) ∧ o = .redis pid (.hset h [(f, v)])

/-- The PATCH has written the field to Mongo, and not yet to Redis. -/
def Pending (pid : String) (path : PatchPath) (i : ι) (es : List (Event profileCalls.sig ι)) :
    Prop :=
  (∃ e ∈ es, e.who = i ∧ ToMongo pid path e.op) ∧ ∀ e ∈ es, e.who = i →
  ∀ v, ¬ ToRedis pid path v e.op

def Stores.Has (s : Stores) (pid : String) (path : PatchPath) (v : FieldValue) : Prop :=
  ∃ p, s.find pid = some p ∧ p.value path = v

/-- A PATCH writes a field to Redis while Mongo still has its value, or while another PATCH that has
written the field to Mongo has yet to write it to Redis. -/
def InOrder (s : Stores) (pid : String) (es : List (Event profileCalls.sig ι)) : Prop :=
  ∀ es₁ e es₂, es = es₁ ++ e :: es₂ → ∀ path v, ToRedis pid path v e.op →
    (s.after (acts es₁)).Has pid path v ∨ ∃ j, j ≠ e.who ∧ Pending pid path j es₁

/-- The field of a path in Redis is the field in Mongo, where the proxy reads it. -/
def Stores.Agree (s : Stores) (pid : String) (path : PatchPath) : Prop :=
  ∀ h f, (patchFields path).hash = some (h, f) → ∃ v, s.Has pid path v ∧
    (s.redis pid).hashes h f = some v

/-- Redis has the settings of the profile: what the proxy reads is what Mongo has. -/
structure Mirrored (p : Profile) (c : CachedSettings) : Prop where
  fields : ∀ path h f, (patchFields path).hash = some (h, f) → c.hashes h f = some (p.value path)
  blocklists : c.lists .blocklists = p.settings.privacy.blocklists
  services : c.lists .services = p.settings.privacy.services
  ids : ∀ id ∈ c.customRules, ∃ rule ∈ p.settings.customRules, rule.id = id
  rules : ∀ id r, c.rules id = some r → ∃ rule ∈ p.settings.customRules, rule.id = id ∧
    rule.cached = r
  stored : ∀ rule ∈ p.settings.customRules, rule.id ∈ c.customRules ∧
    c.rules rule.id = some rule.cached

/-- The ids that the PATCHes give to rules are those of no other rule. -/
structure FreshRules (p : Profile) : Prop where
  distinct : ∀ i j m n, newID i m = newID j n → i = j ∧ m = n
  unused : ∀ i m, ∀ rule ∈ p.settings.customRules, rule.id ≠ newID i m

end Statement

section Shape

variable {ι V : Type} [DecidableEq ι] {env : ServiceEnv} {casts : Casts V} {ids : ℕ → RuleID}
  {pid : String} {updates : List (ProfileUpdate V)} {l : List profileCalls.sig.Act}

namespace PatchTrace

variable (T : PatchTrace env casts ids pid updates l)

/-- The update of the PATCH. -/
def upd : ProfileFieldsUpdate := fieldsUpdate env ids T.now T.touched T.profile

/-- The rules that the PATCH has added. -/
def appended : List CustomRule := appendedCustomRules T.after T.upd.appendCustomRules

def cmds : List RedisCmd := patchCmds T.touched T.profile T.after T.upd

theorem kind {x : profileCalls.sig.Act} (hx : x ∈ l) :
    IsRead x.1 ∨ x = ⟨.findOneAndUpdate pid T.upd, .ok T.before⟩ ∨
      x = ⟨.findAfter pid, .ok T.after⟩ ∨
      ∃ cmd ∈ T.cmds, x = ⟨.redis pid cmd, .ok ()⟩ := by
  rw [T.eq] at hx
  rcases List.mem_append.1 hx with hx | hx
  · exact .inl (T.isRead x hx)
  rcases List.mem_cons.1 hx with rfl | hx
  · exact .inr (.inl rfl)
  rcases List.mem_cons.1 hx with rfl | hx
  · exact .inr (.inr (.inl rfl))
  obtain ⟨cmd, hcmd, rfl⟩ := List.mem_map.1 hx
  exact .inr (.inr (.inr ⟨cmd, hcmd, rfl⟩))

theorem cmd_kind {cmd : RedisCmd} (h : cmd ∈ T.cmds) :
    (∃ path ∈ T.touched, ∃ k f, (patchFields path).hash = some (k, f) ∧
      cmd = .hset k [(f, T.profile.value path)]) ∨
      (∃ rule ∈ T.appended, cmd = .hsetRule rule) ∨ cmd = .sadd (T.appended.map (·.id)) := by
  rcases List.mem_append.1 h with h | h
  · obtain ⟨field, hfield, rfl⟩ := List.mem_map.1 h
    obtain ⟨path, hpath, hmap⟩ := List.mem_filterMap.1 hfield
    obtain ⟨⟨k, f⟩, hk, rfl⟩ := Option.map_eq_some_iff.1 hmap
    exact .inl ⟨path, hpath, k, f, hk, rfl⟩
  · unfold queueCustomRules at h
    split at h
    · cases h
    · rcases List.mem_append.1 h with h | h
      · obtain ⟨rule, hrule, rfl⟩ := List.mem_map.1 h
        exact .inr (.inl ⟨rule, hrule, rfl⟩)
      · exact .inr (.inr (List.mem_singleton.1 h))

theorem field_mem {path : PatchPath} {k : SettingsHash} {f : String} (hpath : path ∈ T.touched)
    (hk : (patchFields path).hash = some (k, f)) :
    RedisCmd.hset k [(f, T.profile.value path)] ∈ T.cmds := by
  refine List.mem_append_left _ (List.mem_map.2 ⟨⟨k, f, T.profile.value path⟩, ?_, rfl⟩)
  exact List.mem_filterMap.2 ⟨path, hpath, by rw [hk]; rfl⟩

theorem rule_mem {rule : CustomRule} (h : rule ∈ T.appended) :
    RedisCmd.hsetRule rule ∈ T.cmds ∧ RedisCmd.sadd (T.appended.map (·.id)) ∈ T.cmds := by
  have hne : T.appended ≠ [] := List.ne_nil_of_mem h
  have hqueue : queueCustomRules T.appended = T.appended.map .hsetRule ++
      [.sadd (T.appended.map (·.id))] := if_neg hne
  unfold cmds patchCmds
  change _ ∈ _ ++ queueCustomRules T.appended ∧ _ ∈ _ ++ queueCustomRules T.appended
  rw [hqueue]
  exact ⟨List.mem_append_right _ (List.mem_append_left _ (List.mem_map_of_mem h)),
    List.mem_append_right _ (List.mem_append_right _ (List.mem_singleton_self _))⟩

theorem cmd_mem {cmd : RedisCmd} (h : cmd ∈ T.cmds) :
    (⟨.redis pid cmd, .ok ()⟩ : profileCalls.sig.Act) ∈ l := by
  rw [T.eq]
  exact List.mem_append_right _ (List.mem_cons_of_mem _
    (List.mem_cons_of_mem _ (List.mem_map_of_mem h)))

theorem after_mem : (⟨.findAfter pid, .ok T.after⟩ : profileCalls.sig.Act) ∈ l := by
  refine (congrArg (_ ∈ ·) T.eq).mpr ?_
  exact List.mem_append_right _ (List.mem_cons_of_mem _ (List.mem_cons_self ..))

theorem update_mem : (⟨.findOneAndUpdate pid T.upd, .ok T.before⟩ : profileCalls.sig.Act) ∈ l := by
  refine (congrArg (_ ∈ ·) T.eq).mpr ?_
  exact List.mem_append_right _ (List.mem_cons_self ..)

include T in
/-- Before the update there are reads only, and the update is made once. -/
theorem before_update {l₁ l₂ : List profileCalls.sig.Act} {x : profileCalls.sig.Act} {pid' : String}
    {upd : ProfileFieldsUpdate} (h : l = l₁ ++ x :: l₂) (hx : x.1 = .findOneAndUpdate pid' upd) :
    (∀ y ∈ l₁, IsRead y.1) ∧ ∀ y ∈ l₂, y.1 ≠ .findOneAndUpdate pid' upd := by
  have hreads : ∀ y ∈ T.reads, ¬ ∃ p u, y.1 = .findOneAndUpdate p u := by
    rintro y hy ⟨p, u, hyu⟩
    have hread := T.isRead y hy
    rw [hyu] at hread
    exact hread
  have hwrites : ∀ y ∈ (⟨.findAfter pid, .ok T.after⟩ :: T.cmds.map fun cmd =>
    ⟨.redis pid cmd, .ok ()⟩ :
      List profileCalls.sig.Act), ¬ ∃ p u, y.1 = .findOneAndUpdate p u := by
    rintro y hy ⟨p, u, hyu⟩
    rcases List.mem_cons.1 hy with rfl | hy
    · cases hyu
    · obtain ⟨cmd, -, rfl⟩ := List.mem_map.1 hy
      cases hyu
  obtain ⟨rfl, -, rfl⟩ := split_unique (h.symm.trans T.eq) ⟨pid', upd, hx⟩ hreads hwrites
  exact ⟨T.isRead, fun y hy hyu => hwrites y hy ⟨pid', upd, hyu⟩⟩

theorem touched_iff (path : PatchPath) : path ∈ T.touched ↔ Touches updates path := by
  rw [T.patched.mem]
  simp

theorem touched_nodup : T.touched.Nodup := T.patched.nodup List.nodup_nil

theorem set_keys : T.upd.set.map Prod.fst = T.touched := by
  simp [upd, fieldsUpdate, Function.comp_def]

theorem value_upd (p : Profile) (path : PatchPath) :
    (updateFields p T.upd).value path = if path ∈ T.touched then T.profile.value path
      else p.value path :=
  value_fieldsUpdate env T.touched_nodup T.profile p path

end PatchTrace

end Shape

section Fields

variable {ι V : Type} [DecidableEq ι] {env : ServiceEnv} {casts : Casts V} {newID : ι → ℕ → RuleID}
  {calls : ι → PatchCall V} {s : Stores} {pid : String} {path : PatchPath}
  {es es₁ es₂ : List (Event profileCalls.sig ι)} {e : Event profileCalls.sig ι}

/-- The actions of PATCHes that have all ended without an error. -/
def Shaped (env : ServiceEnv) (casts : Casts V) (newID : ι → ℕ → RuleID) (calls : ι → PatchCall V)
    (es : List (Event profileCalls.sig ι)) : Prop :=
  ∀ i, ((∀ x ∈ trace i es, IsRead x.1) ∧ ∀ path, ¬ Touches (calls i).updates path) ∨
    Nonempty (PatchTrace env casts (newID i) (calls i).profileId (calls i).updates (trace i es))

theorem shaped_of_run {R : Pool profileCalls.sig ι Stores (Except ServiceErr Profile)}
    (hr : Run profileHandler Free (patchPool env casts newID calls s) es R)
    (hdone : ∀ i, ∃ q, R.prog i = .pure (.ok q)) :
    Shaped env casts newID calls es := by
  intro i
  obtain ⟨q, hq⟩ := hdone i
  have hpath := run_path hr i
  rw [hq] at hpath
  exact ends_updateProfile hpath

/-- The PATCH of an event. -/
abbrev TraceOf (env : ServiceEnv) (casts : Casts V) (newID : ι → ℕ → RuleID)
    (calls : ι → PatchCall V) (es : List (Event profileCalls.sig ι)) (i : ι) :=
  PatchTrace env casts (newID i) (calls i).profileId (calls i).updates (trace i es)

/-- What an event of a PATCH can be. -/
theorem event_kind (hs : Shaped env casts newID calls es) (he : e ∈ es) :
    IsRead e.op ∨ ∃ T : TraceOf env casts newID calls es e.who,
      (e.op = .findOneAndUpdate (calls e.who).profileId T.upd ∧ TookEffect e.res) ∨
      (⟨e.op, e.res⟩ : profileCalls.sig.Act) = ⟨.findAfter (calls e.who).profileId, .ok T.after⟩ ∨
      ∃ cmd ∈ T.cmds, e.op = .redis (calls e.who).profileId cmd ∧ TookEffect e.res := by
  have hmem : (⟨e.op, e.res⟩ : profileCalls.sig.Act) ∈ trace e.who es := mem_trace.2 he
  have htook : ∀ {o : ProfileOp} {a : o.Ans}, (⟨e.op, e.res⟩ : profileCalls.sig.Act) = ⟨o, .ok a⟩ →
      e.op = o ∧ TookEffect e.res := by
    intro o a h
    refine ⟨congrArg Sigma.fst h, ?_⟩
    have hres : TookEffect (⟨e.op, e.res⟩ : profileCalls.sig.Act).2 := by
      rw [h]
      trivial
    exact hres
  rcases hs e.who with ⟨hreads, -⟩ | ⟨⟨T⟩⟩
  · exact .inl (hreads _ hmem)
  · rcases T.kind hmem with h | h | h | ⟨cmd, hcmd, h⟩
    · exact .inl h
    · exact .inr ⟨T, .inl (htook h)⟩
    · exact .inr ⟨T, .inr (.inl h)⟩
    · exact .inr ⟨T, .inr (.inr ⟨cmd, hcmd, htook h⟩)⟩

theorem trace_around (hes : es = es₁ ++ e :: es₂) :
    trace e.who es = trace e.who es₁ ++ ⟨e.op, e.res⟩ :: trace e.who es₂ := by
  rw [hes, trace_append]
  simp [trace]

omit [DecidableEq ι] in
theorem pending_snoc {j : ι} (h : Pending pid path j es₁)
    (he : e.who = j → ∀ v, ¬ ToRedis pid path v e.op) :
    Pending pid path j (es₁ ++ [e]) := by
  obtain ⟨⟨u, hu, hj, hmongo⟩, hredis⟩ := h
  refine ⟨⟨u, List.mem_append_left _ hu, hj, hmongo⟩, fun u hu huj => ?_⟩
  rcases List.mem_append.1 hu with hu | hu
  · exact hredis u hu huj
  · rw [List.mem_singleton.1 hu] at huj ⊢
    exact he huj

/-- A PATCH that has just written to Mongo has yet to write to Redis. -/
theorem pending_update (hes : es = es₁ ++ e :: es₂) (T : TraceOf env casts newID calls es e.who)
    (he : e.op = .findOneAndUpdate pid T.upd) (hpath : path ∈ T.touched) :
    Pending pid path e.who (es₁ ++ [e]) := by
  refine ⟨⟨e, by simp, rfl, T.upd, he, by rwa [T.set_keys]⟩, fun u hu hwho v hredis => ?_⟩
  rcases List.mem_append.1 hu with hu | hu
  · have hread : IsRead u.op :=
      (T.before_update (trace_around hes) he).1 ⟨u.op, u.res⟩ (mem_trace.2 (hwho ▸ hu))
    obtain ⟨h, f, -, heq⟩ := hredis
    rw [heq] at hread
    exact hread
  · rw [List.mem_singleton.1 hu] at hredis
    obtain ⟨h, f, -, heq⟩ := hredis
    rw [he] at heq
    cases heq

/-- The call is not about the profile. -/
def Foreign (pid : String) (o : ProfileOp) : Prop :=
  (∀ upd, o ≠ .findOneAndUpdate pid upd) ∧ o ≠ .findAfter pid ∧ ∀ cmd, o ≠ .redis pid cmd

theorem foreign_read {o : ProfileOp} (h : IsRead o) : Foreign pid o := by
  refine ⟨?_, ?_, ?_⟩ <;> intros <;> rintro rfl <;> exact h

/-- **What an event does to the profile**, in Mongo and in Redis. -/
theorem event_effect (pid : String) (hs : Shaped env casts newID calls es) (he : e ∈ es)
    (s₁ : Stores) :
    (Foreign pid e.op ∧ (s₁.act ⟨e.op, e.res⟩).find pid = s₁.find pid ∧
      (s₁.act ⟨e.op, e.res⟩).redis pid = s₁.redis pid) ∨
    ∃ T : TraceOf env casts newID calls es e.who, (calls e.who).profileId = pid ∧
      ((e.op = .findOneAndUpdate pid T.upd ∧
          (s₁.act ⟨e.op, e.res⟩).find pid = (s₁.find pid).map (updateFields · T.upd) ∧
          (s₁.act ⟨e.op, e.res⟩).redis pid = s₁.redis pid) ∨
        ((⟨e.op, e.res⟩ : profileCalls.sig.Act) = ⟨.findAfter pid, .ok T.after⟩ ∧
          s₁.act ⟨e.op, e.res⟩ = s₁) ∨
        ∃ cmd ∈ T.cmds, e.op = .redis pid cmd ∧ (s₁.act ⟨e.op, e.res⟩).find pid = s₁.find pid ∧
          (s₁.act ⟨e.op, e.res⟩).redis pid = cmd.run (s₁.redis pid)) := by
  rcases event_kind hs he with hread | ⟨T, ⟨hop, htook⟩ | hx | ⟨cmd, hcmd, hop, htook⟩⟩
  -- the call of a PATCH counts for its own profile, a read for none
  · refine .inl ⟨foreign_read hread, ?_, ?_⟩ <;> rw [act_read hread]
  · have hact : s₁.act ⟨e.op, e.res⟩ = s₁.onProfile (calls e.who).profileId
        (updateFields · T.upd) := by
      rw [act_effect htook]
      simp only [hop]
      rfl
    have hid : ∀ p : Profile, (updateFields p T.upd).profileId = p.profileId := fun p =>
      updateFields_profileId p T.upd
    rw [hact]
    by_cases hpid : (calls e.who).profileId = pid
    · subst hpid
      exact .inr ⟨T, rfl, .inl ⟨hop, find_onProfile_self hid, rfl⟩⟩
    · refine .inl ⟨?_, find_onProfile_ne hid (Ne.symm hpid), rfl⟩
      rw [hop]
      refine ⟨?_, nofun, nofun⟩
      rintro upd ⟨⟩
      exact hpid rfl
  · have hact : s₁.act ⟨e.op, e.res⟩ = s₁ := by
      rw [hx]
      exact ite_self _
    have hop : e.op = .findAfter (calls e.who).profileId := congrArg Sigma.fst hx
    rw [hact]
    by_cases hpid : (calls e.who).profileId = pid
    · subst hpid
      exact .inr ⟨T, rfl, .inr (.inl ⟨hx, rfl⟩)⟩
    · refine .inl ⟨?_, rfl, rfl⟩
      rw [hop]
      refine ⟨nofun, ?_, nofun⟩
      rintro ⟨⟩
      exact hpid rfl
  · have hact : s₁.act ⟨e.op, e.res⟩ = { s₁ with
        redis := Function.update s₁.redis (calls e.who).profileId
          (cmd.run (s₁.redis (calls e.who).profileId)) } := by
      rw [act_effect htook]
      simp only [hop]
      rfl
    rw [hact]
    by_cases hpid : (calls e.who).profileId = pid
    · subst hpid
      exact .inr ⟨T, rfl, .inr (.inr ⟨cmd, hcmd, hop, rfl, Function.update_self ..⟩)⟩
    · refine .inl ⟨?_, rfl, Function.update_of_ne (Ne.symm hpid) ..⟩
      rw [hop]
      refine ⟨nofun, nofun, ?_⟩
      rintro cmd ⟨⟩
      exact hpid rfl

/-- An event that leaves a field alone, in both stores. -/
theorem agree_congr {s' : Stores} (hfind : ∀ p, s.find pid = some p → ∃ p', s'.find pid = some p' ∧
    p'.value path = p.value path)
    (hredis : ∀ k f, (patchFields path).hash = some (k, f) →
      (s'.redis pid).hashes k f = (s.redis pid).hashes k f)
    (h : s.Agree pid path) : s'.Agree pid path := by
  intro k f hk
  obtain ⟨v, ⟨p, hp, rfl⟩, hv⟩ := h k f hk
  obtain ⟨p', hp', hvalue⟩ := hfind p hp
  exact ⟨_, ⟨p', hp', hvalue⟩, by rw [hredis k f hk, hv]⟩

/-- **Step lemma.** A field agrees, or a PATCH still has to write it to Redis. -/
theorem agree_step (hs : Shaped env casts newID calls es) (horder : InOrder s pid es)
    (hes : es = es₁ ++ e :: es₂) (h : (s.after (acts es₁)).Agree pid path ∨
      ∃ j, Pending pid path j es₁) :
    ((s.after (acts es₁)).act ⟨e.op, e.res⟩).Agree pid path ∨
    ∃ j, Pending pid path j (es₁ ++ [e]) := by
  generalize hs₁ : s.after (acts es₁) = s₁ at h ⊢
  -- it is enough that the step writes no such field and keeps the values
  have hkeep : ∀ s₂ : Stores, (∀ v, ¬ ToRedis pid path v e.op) →
    (s₁.Agree pid path → s₂.Agree pid path) →
      s₂.Agree pid path ∨ ∃ j, Pending pid path j (es₁ ++ [e]) := by
    intro s₂ hredis hagree
    exact h.imp hagree fun ⟨j, hj⟩ => ⟨j, pending_snoc hj fun _ => hredis⟩
  have hsame : ∀ {s₂ : Stores}, s₂.find pid = s₁.find pid →
      ∀ p, s₁.find pid = some p → ∃ p', s₂.find pid = some p' ∧ p'.value path = p.value path :=
    fun hfind p hp => ⟨p, hfind.trans hp, rfl⟩
  rcases event_effect pid hs (hes ▸ List.mem_append_right _ (List.mem_cons_self ..)) s₁ with
    ⟨hforeign, hfind, hredis⟩ | ⟨T, hpid,
      ⟨hop, hfind, hredis⟩ | ⟨hx, hact⟩ | ⟨cmd, hcmd, hop, hfind, hredis⟩⟩
  -- another profile's event
  · refine hkeep _ ?_ (agree_congr (hsame hfind) fun k f _ => by rw [hredis])
    rintro v ⟨k, f, -, hop⟩
    exact hforeign.2.2 _ hop
  -- an update leaves the paths it touches pending
  · by_cases hpath : path ∈ T.touched
    · exact .inr ⟨e.who, pending_update hes T hop hpath⟩
    · refine hkeep _ ?_
        (agree_congr (fun p hp => ⟨updateFields p T.upd, by rw [hfind, hp]; rfl, ?_⟩)
        fun k f _ => by rw [hredis])
      · rintro v ⟨k, f, -, hop'⟩
        rw [hop] at hop'
        cases hop'
      · rw [T.value_upd, if_neg hpath]
  · rw [hact]
    refine hkeep s₁ ?_ id
    rintro v ⟨k, f, -, hop'⟩
    have hop : e.op = .findAfter pid := congrArg Sigma.fst hx
    rw [hop] at hop'
    cases hop'
  · rcases T.cmd_kind hcmd with ⟨path', hpath', k, f, hk, rfl⟩ | hother
    · by_cases heq : path' = path
      · subst heq
        -- the write to Redis: in order it is of the value stored, or another is pending
        rcases horder es₁ e es₂ hes path' _ ⟨k, f, hk, hop⟩ with ⟨p, hp, hvalue⟩ | ⟨j, hj, hpending⟩
        · refine .inl fun k' f' hk' => ⟨_, ⟨p, hfind.trans (hs₁ ▸ hp), hvalue⟩, ?_⟩
          obtain ⟨rfl, rfl⟩ := Prod.mk.inj (Option.some.inj (hk.symm.trans hk'))
          rw [hredis, hashes_hset, if_pos ⟨rfl, rfl⟩]
        · exact .inr ⟨j, pending_snoc hpending fun h => absurd h.symm hj⟩
      · have hfield : ∀ k' f', (patchFields path).hash = some (k', f') → ¬ (k' = k ∧ f' = f) := by
          rintro k' f' hk' ⟨rfl, rfl⟩
          exact heq (hash_injective hk hk')
        refine hkeep _ ?_ (agree_congr (hsame hfind) fun k' f' hk' => ?_)
        · rintro v ⟨k', f', hk', hop'⟩
          rw [hop] at hop'
          cases hop'
          exact hfield _ _ hk' ⟨rfl, rfl⟩
        · rw [hredis, hashes_hset, if_neg (hfield k' f' hk')]
    · have hhashes : (cmd.run (s₁.redis pid)).hashes = (s₁.redis pid).hashes := by
        rcases hother with ⟨rule, -, rfl⟩ | rfl <;> rfl
      refine hkeep _ ?_ (agree_congr (hsame hfind) fun k' f' hk' => by rw [hredis, hhashes])
      rintro v ⟨k', f', hk', hop'⟩
      rw [hop] at hop'
      cases hop'
      rcases hother with ⟨rule, -, h⟩ | h <;> cases h

theorem agree_or_pending (hs : Shaped env casts newID calls es) (horder : InOrder s pid es)
    (h0 : s.Agree pid path) (hes : es = es₁ ++ es₂) :
    (s.after (acts es₁)).Agree pid path ∨ ∃ j, Pending pid path j es₁ := by
  induction es₁ using List.reverseRecOn generalizing es₂ with
  | nil => exact .inl h0
  | append_singleton es₁ e ih =>
    rw [List.append_assoc, List.singleton_append] at hes
    rw [acts, List.map_append, after_append]
    exact agree_step hs horder hes (ih hes)

/-- When all have ended, none is pending. -/
theorem not_pending {k : SettingsHash} {f : String} {j : ι} (hs : Shaped env casts newID calls es)
    (hk : (patchFields path).hash = some (k, f)) : ¬ Pending pid path j es := by
  rintro ⟨⟨e, he, rfl, upd, hop, hmem⟩, hredis⟩
  rcases event_kind hs he with hread | ⟨T, ⟨hop', -⟩ | hx | ⟨cmd, -, hop', -⟩⟩
  · rw [hop] at hread
    exact hread
  · rw [hop'] at hop
    cases hop
    rw [T.set_keys] at hmem
    exact hredis _ (mem_trace.1 (T.cmd_mem (T.field_mem hmem hk))) rfl _ ⟨k, f, hk, rfl⟩
  · have hop' : e.op = .findAfter (calls e.who).profileId := congrArg Sigma.fst hx
    rw [hop] at hop'
    cases hop'
  · rw [hop] at hop'
    cases hop'

end Fields

section Rules

theorem mem_appendRules {rule : CustomRule} {rules l : List CustomRule}
    (h : rule ∈ l.foldl appendCustomRuleIfAbsent rules) :
    rule ∈ rules ∨ rule ∈ l := by
  induction l generalizing rules with
  | nil => exact .inl h
  | cons r l ih =>
    rcases ih h with h | h
    · unfold appendCustomRuleIfAbsent at h
      split at h
      · exact .inl h
      · rcases List.mem_append.1 h with h | h
        · exact .inl h
        · exact .inr (List.mem_cons.2 (.inl (List.mem_singleton.1 h)))
    · exact .inr (List.mem_cons_of_mem _ h)

theorem appendRules_kept {rule : CustomRule} {rules l : List CustomRule} (h : rule ∈ rules) :
    rule ∈ l.foldl appendCustomRuleIfAbsent rules := by
  induction l generalizing rules with
  | nil => exact h
  | cons r l ih =>
    refine ih ?_
    unfold appendCustomRuleIfAbsent
    split
    · exact h
    · exact List.mem_append_left _ h

theorem mem_allowedDomainRules {env : ServiceEnv} {ids : ℕ → RuleID} {rule : CustomRule}
    (h : rule ∈ allowedDomainRules env ids) : ∃ (m : ℕ) (hm : m < env.allowedDomains.length),
      rule =
        { id := ids m, action := .allow, value := env.allowedDomains[m], ruleSyntax := .unset } := by
  obtain ⟨⟨domain, m⟩, hmem, rfl⟩ := List.mem_map.1 h
  obtain ⟨hm, hdomain⟩ := List.mem_zipIdx' hmem
  exact ⟨m, hm, by rw [hdomain]⟩

variable {ι V : Type} [DecidableEq ι] {env : ServiceEnv} {casts : Casts V} {newID : ι → ℕ → RuleID}
  {calls : ι → PatchCall V} {s : Stores} {pid : String}
  {es es₁ es₂ : List (Event profileCalls.sig ι)} {e : Event profileCalls.sig ι} {p₀ p p' : Profile}
  {c c' : CachedSettings}

namespace PatchTrace

variable {ids : ℕ → RuleID} {updates : List (ProfileUpdate V)} {l : List profileCalls.sig.Act}
  (T : PatchTrace env casts ids pid updates l)

theorem append_allowed {rule : CustomRule} (h : rule ∈ T.upd.appendCustomRules) :
    rule ∈ allowedDomainRules env ids := by
  unfold upd fieldsUpdate at h
  simp only at h
  split at h
  · exact h
  · cases h

theorem mem_appended {rule : CustomRule} :
    rule ∈ T.appended ↔ rule ∈ T.after.settings.customRules ∧
      rule.id ∈ T.upd.appendCustomRules.map (·.id) := by
  unfold appended appendedCustomRules
  split
  · next h => simp [h]
  · simp

include T in
/-- A PATCH reads the profile back before it writes to Redis. -/
theorem after_before_cmd {l₁ l₂ : List profileCalls.sig.Act} {x : profileCalls.sig.Act}
    {cmd : RedisCmd} (h : l = l₁ ++ x :: l₂) (hx : x.1 = .redis pid cmd) :
    (⟨.findAfter pid, .ok T.after⟩ : profileCalls.sig.Act) ∈ l₁ := by
  have hsplit := T.eq
  rw [List.append_cons] at hsplit
  -- up to the update there are reads and the update, no command
  have hbefore :
    ∀ y ∈ T.reads ++ [⟨.findOneAndUpdate pid (fieldsUpdate env ids T.now T.touched T.profile),
      .ok T.before⟩],
      IsRead y.1 ∨ ∃ upd, y.1 = .findOneAndUpdate pid upd := by
    intro y hy
    rcases List.mem_append.1 hy with hy | hy
    · exact .inl (T.isRead y hy)
    · rw [List.mem_singleton.1 hy]
      exact .inr ⟨_, rfl⟩
  have hmem : (⟨.findAfter pid, .ok T.after⟩ : profileCalls.sig.Act) ∈ l₁ ++ x :: l₂ :=
    h ▸ T.after_mem
  rcases List.mem_append.1 hmem with hmem | hmem
  · exact hmem
  rcases List.mem_cons.1 hmem with heq | hmem
  · rw [← heq] at hx
    cases hx
  obtain ⟨m₁, m₂, rfl⟩ := List.append_of_mem hmem
  have heq : (l₁ ++ x :: m₁) ++ ⟨.findAfter pid, .ok T.after⟩ :: m₂ = l :=
    (List.append_assoc ..).trans h.symm
  -- the read after the update is the only one of its kind
  obtain ⟨hl₁, -, -⟩ :=
    split_unique (K := fun y => ∃ q, y.1 = .findAfter q) (heq.trans hsplit) ⟨pid, rfl⟩
    (by
      rintro y hy ⟨q, hq⟩
      rcases hbefore y hy with hread | ⟨upd, hupd⟩
      · rw [hq] at hread
        exact hread
      · rw [hq] at hupd
        cases hupd)
    (by
      rintro y hy ⟨q, hq⟩
      obtain ⟨cmd, -, rfl⟩ := List.mem_map.1 hy
      cases hq)
  have hxmem : x ∈ T.reads ++
      [⟨.findOneAndUpdate pid (fieldsUpdate env ids T.now T.touched T.profile), .ok T.before⟩] := by
    rw [← hl₁]
    simp
  rcases hbefore x hxmem with hread | ⟨upd, hupd⟩
  · rw [hx] at hread
    exact hread.elim
  · rw [hx] at hupd
    cases hupd

end PatchTrace

omit [DecidableEq ι] in
theorem exists_snoc {P : Event profileCalls.sig ι → Prop} :
    (∃ u ∈ es₁ ++ [e], P u) ↔ (∃ u ∈ es₁, P u) ∨ P e := by
  simp [or_and_right, exists_or]

/-- The rules of a profile along the PATCHes: `p` in Mongo and `c` in Redis, after `es₁`. -/
structure RulesInv (newID : ι → ℕ → RuleID) (pid : String) (p₀ : Profile)
    (es₁ : List (Event profileCalls.sig ι)) (p : Profile) (c : CachedSettings) : Prop where
  kept : ∀ rule ∈ p₀.settings.customRules, rule ∈ p.settings.customRules
  ids : ∀ id ∈ c.customRules, ∃ rule ∈ p.settings.customRules, rule.id = id
  rules : ∀ id r, c.rules id = some r → ∃ rule ∈ p.settings.customRules, rule.id = id ∧
    rule.cached = r
  once : ∀ rule ∈ p.settings.customRules, ∀ rule' ∈ p.settings.customRules, rule.id = rule'.id →
    rule.cached = rule'.cached
  source : ∀ rule ∈ p.settings.customRules, rule ∈ p₀.settings.customRules ∨
    ∃ e ∈ es₁, ∃ upd, e.op = .findOneAndUpdate pid upd ∧ rule ∈ upd.appendCustomRules
  /-- A PATCH that has read the profile back has seen all rules of its own. -/
  read : ∀ e ∈ es₁, ∀ after, (⟨e.op, e.res⟩ : profileCalls.sig.Act) = ⟨.findAfter pid, .ok after⟩ →
    (∀ rule ∈ after.settings.customRules, rule ∈ p.settings.customRules) ∧
      ∀ rule ∈ p.settings.customRules, (∃ m, rule.id = newID e.who m) →
        rule ∈ after.settings.customRules
  hash : ∀ rule, (rule ∈ p₀.settings.customRules ∨ ∃ e ∈ es₁, e.op = .redis pid (.hsetRule rule)) →
    c.rules rule.id = some rule.cached
  set : ∀ id, ((∃ rule ∈ p₀.settings.customRules, rule.id = id) ∨
    ∃ e ∈ es₁, ∃ ids, e.op = .redis pid (.sadd ids) ∧ id ∈ ids) → id ∈ c.customRules

omit [DecidableEq ι] in
theorem rulesInv_start (h : Mirrored p₀ c) :
    RulesInv newID pid p₀ ([] : List (Event profileCalls.sig ι)) p₀ c where
  kept _ h := h
  ids := h.ids
  rules := h.rules
  once rule hrule rule' hrule' hid := by
    have h₁ := (h.stored rule hrule).2
    rw [hid, (h.stored rule' hrule').2] at h₁
    exact (Option.some.inj h₁).symm
  source _ h := .inl h
  read _ he := nomatch he
  hash rule hrule := (h.stored rule (hrule.resolve_right fun ⟨_, he, _⟩ => nomatch he)).2
  set id hid := by
    obtain ⟨rule, hrule, rfl⟩ := hid.resolve_right fun ⟨_, he, _⟩ => nomatch he
    exact (h.stored rule hrule).1

omit [DecidableEq ι] in
/-- A step that leaves the rules alone. -/
theorem rulesInv_same (h : RulesInv newID pid p₀ es₁ p c)
    (hp : p'.settings.customRules = p.settings.customRules) (hids : c'.customRules = c.customRules)
    (hrules : c'.rules = c.rules) (hupd : ∀ after, (⟨e.op, e.res⟩ : profileCalls.sig.Act) ≠
      ⟨.findAfter pid, .ok after⟩)
    (hrule : ∀ rule, e.op ≠ .redis pid (.hsetRule rule))
    (hset : ∀ ids, e.op ≠ .redis pid (.sadd ids)) :
    RulesInv newID pid p₀ (es₁ ++ [e]) p' c' where
  kept := by rw [hp]; exact h.kept
  ids := by rw [hp, hids]; exact h.ids
  rules := by rw [hp, hrules]; exact h.rules
  once := by rw [hp]; exact h.once
  source rule hmem := by
    rw [hp] at hmem
    exact (h.source rule hmem).imp_right fun hex => exists_snoc.2 (.inl hex)
  read u hu after hafter := by
    rw [hp]
    rcases List.mem_append.1 hu with hu | hu
    · exact h.read u hu after hafter
    · rw [List.mem_singleton.1 hu] at hafter
      exact absurd hafter (hupd after)
  hash rule hmem := by
    rw [hrules]
    exact h.hash rule (hmem.imp_right fun hex => (exists_snoc.1 hex).resolve_right (hrule rule))
  set id hmem := by
    rw [hids]
    exact h.set id (hmem.imp_right fun hex => (exists_snoc.1 hex).resolve_right
      fun ⟨ids, hop, _⟩ => hset ids hop)

/-- The update of an event, as the PATCH of the event has it. -/
theorem upd_of_event {upd : ProfileFieldsUpdate}
    (hs : Shaped env casts newID calls es) (he : e ∈ es) (hop : e.op = .findOneAndUpdate pid upd) :
    ∃ T : TraceOf env casts newID calls es e.who, (calls e.who).profileId = pid ∧ upd = T.upd := by
  rcases event_kind hs he with hread | ⟨T, ⟨hop', -⟩ | hx | ⟨cmd, -, hop', -⟩⟩
  · rw [hop] at hread
    exact hread.elim
  · rw [hop] at hop'
    cases hop'
    exact ⟨T, rfl, rfl⟩
  · have hop' : e.op = .findAfter (calls e.who).profileId := congrArg Sigma.fst hx
    rw [hop] at hop'
    cases hop'
  · rw [hop] at hop'
    cases hop'

/-- The update of a PATCH adds rules that no other PATCH has. -/
theorem rulesInv_update (hs : Shaped env casts newID calls es) (hfresh : FreshRules newID p₀)
    (hes : es = es₁ ++ e :: es₂) (T : TraceOf env casts newID calls es e.who)
    (hop : e.op = .findOneAndUpdate pid T.upd) (h : RulesInv newID pid p₀ es₁ p c) :
    RulesInv newID pid p₀ (es₁ ++ [e]) (updateFields p T.upd) c := by
  -- the rules after it: the stored ones and those it appends
  have hold : ∀ rule ∈ p.settings.customRules, rule ∈
      (updateFields p T.upd).settings.customRules := by
    intro rule hrule
    rw [updateFields_customRules]
    exact appendRules_kept hrule
  have hnew : ∀ rule ∈ (updateFields p T.upd).settings.customRules,
      rule ∈ p.settings.customRules ∨ rule ∈ T.upd.appendCustomRules := by
    intro rule hrule
    rw [updateFields_customRules] at hrule
    exact mem_appendRules hrule
  have hown : ∀ u ∈ es₁, u.who = e.who → IsRead u.op := fun u hu hwho =>
    (T.before_update (trace_around hes) hop).1 ⟨u.op, u.res⟩ (mem_trace.2 (hwho ▸ hu))
  -- a stored rule has no id of this PATCH: its update has not been made yet
  have hother : ∀ rule ∈ p.settings.customRules, ∀ m, rule.id ≠ newID e.who m := by
    intro rule hrule m hid
    rcases h.source rule hrule with h₀ | ⟨u, hu, upd, hupd, hmem⟩
    · exact hfresh.unused _ _ rule h₀ hid
    · obtain ⟨T', -, rfl⟩ := upd_of_event hs (hes ▸ List.mem_append_left _ hu) hupd
      obtain ⟨n, hn, rfl⟩ := mem_allowedDomainRules (T'.append_allowed hmem)
      have hread := hown u hu (hfresh.distinct _ _ _ _ hid).1
      rw [hupd] at hread
      exact hread
  refine ⟨fun rule hrule => hold rule (h.kept rule hrule), ?_, ?_, ?_, ?_, ?_, ?_, ?_⟩
  · intro id hid
    obtain ⟨rule, hrule, heq⟩ := h.ids id hid
    exact ⟨rule, hold rule hrule, heq⟩
  · intro id r hr
    obtain ⟨rule, hrule, heq⟩ := h.rules id r hr
    exact ⟨rule, hold rule hrule, heq⟩
  -- one rule for an id: drawn ids are distinct across PATCHes
  · intro rule hrule rule' hrule' hid
    rcases hnew rule hrule with h₁ | h₁ <;> rcases hnew rule' hrule' with h₂ | h₂
    · exact h.once rule h₁ rule' h₂ hid
    · obtain ⟨n, hn, rfl⟩ := mem_allowedDomainRules (T.append_allowed h₂)
      exact absurd hid (hother rule h₁ n)
    · obtain ⟨m, hm, rfl⟩ := mem_allowedDomainRules (T.append_allowed h₁)
      exact absurd hid.symm (hother rule' h₂ m)
    · obtain ⟨m, hm, rfl⟩ := mem_allowedDomainRules (T.append_allowed h₁)
      obtain ⟨n, hn, rfl⟩ := mem_allowedDomainRules (T.append_allowed h₂)
      obtain rfl := (hfresh.distinct _ _ _ _ hid).2
      rfl
  · intro rule hrule
    rcases hnew rule hrule with h₁ | h₁
    · exact (h.source rule h₁).imp_right fun hex => exists_snoc.2 (.inl hex)
    · exact .inr ⟨e, by simp, T.upd, hop, h₁⟩
  -- what was read before has no rule of this PATCH
  · intro u hu after hafter
    rcases List.mem_append.1 hu with hu | hu
    · obtain ⟨hsub, hall⟩ := h.read u hu after hafter
      refine ⟨fun rule hrule => hold rule (hsub rule hrule), fun rule hrule hid => ?_⟩
      rcases hnew rule hrule with h₁ | h₁
      · exact hall rule h₁ hid
      · obtain ⟨m, hm⟩ := hid
        obtain ⟨n, hn, rfl⟩ := mem_allowedDomainRules (T.append_allowed h₁)
        have hread := hown u hu (hfresh.distinct _ _ _ _ hm).1.symm
        have hafter' : u.op = .findAfter pid := congrArg Sigma.fst hafter
        rw [hafter'] at hread
        exact hread.elim
    · rw [List.mem_singleton.1 hu] at hafter
      have hafter' : e.op = .findAfter pid := congrArg Sigma.fst hafter
      rw [hop] at hafter'
      cases hafter'
  -- it writes neither the hashes nor the list of ids
  · intro rule hmem
    refine h.hash rule (hmem.imp_right fun hex => (exists_snoc.1 hex).resolve_right ?_)
    rw [hop]
    exact nofun
  · intro id hmem
    refine h.set id (hmem.imp_right fun hex => (exists_snoc.1 hex).resolve_right ?_)
    rw [hop]
    rintro ⟨ids, ⟨⟩, -⟩

omit [DecidableEq ι] in
theorem rulesInv_read (h : RulesInv newID pid p₀ es₁ p c)
    (hx : (⟨e.op, e.res⟩ : profileCalls.sig.Act) = ⟨.findAfter pid, .ok p⟩) :
    RulesInv newID pid p₀ (es₁ ++ [e]) p c := by
  have hop : e.op = .findAfter pid := congrArg Sigma.fst hx
  refine ⟨h.kept, h.ids, h.rules, h.once, ?_, ?_, ?_, ?_⟩
  · intro rule hrule
    exact (h.source rule hrule).imp_right fun hex => exists_snoc.2 (.inl hex)
  · intro u hu after hafter
    rcases List.mem_append.1 hu with hu | hu
    · exact h.read u hu after hafter
    · rw [List.mem_singleton.1 hu, hx] at hafter
      cases hafter
      exact ⟨fun _ hrule => hrule, fun _ hrule _ => hrule⟩
  · intro rule hmem
    refine h.hash rule (hmem.imp_right fun hex => (exists_snoc.1 hex).resolve_right ?_)
    rw [hop]
    exact nofun
  · intro id hmem
    refine h.set id (hmem.imp_right fun hex => (exists_snoc.1 hex).resolve_right ?_)
    rw [hop]
    rintro ⟨ids, ⟨⟩, -⟩

/-- A rule that a PATCH writes to Redis is in Mongo. -/
theorem appended_stored (hes : es = es₁ ++ e :: es₂) (T : TraceOf env casts newID calls es e.who)
    (hpid : (calls e.who).profileId = pid) {cmd : RedisCmd} (hop : e.op = .redis pid cmd)
    (h : RulesInv newID pid p₀ es₁ p c) {rule : CustomRule} (hrule : rule ∈ T.appended) :
    rule ∈ p.settings.customRules := by
  subst hpid
  have hmem := mem_trace.1 (T.after_before_cmd (trace_around hes) hop)
  exact (h.read _ hmem T.after rfl).1 rule (T.mem_appended.1 hrule).1

omit [DecidableEq ι] in
theorem rulesInv_rule {rule : CustomRule} (hrule : rule ∈ p.settings.customRules)
    (hop : e.op = .redis pid (.hsetRule rule)) (h : RulesInv newID pid p₀ es₁ p c) :
    RulesInv newID pid p₀ (es₁ ++ [e]) p ((RedisCmd.hsetRule rule).run c) := by
  refine ⟨h.kept, h.ids, ?_, h.once, ?_, ?_, ?_, ?_⟩
  · intro id r hr
    by_cases hid : id = rule.id
    · subst hid
      rw [rules_hsetRule, if_pos rfl] at hr
      exact ⟨rule, hrule, rfl, Option.some.inj hr⟩
    · rw [rules_hsetRule, if_neg hid] at hr
      exact h.rules id r hr
  · intro rule hrule
    exact (h.source rule hrule).imp_right fun hex => exists_snoc.2 (.inl hex)
  · intro u hu after hafter
    rcases List.mem_append.1 hu with hu | hu
    · exact h.read u hu after hafter
    · rw [List.mem_singleton.1 hu] at hafter
      have hafter' : e.op = .findAfter pid := congrArg Sigma.fst hafter
      rw [hop] at hafter'
      cases hafter'
  · intro rule' hmem
    by_cases hid : rule'.id = rule.id
    · rw [rules_hsetRule, if_pos hid]
      rcases hmem.imp_right exists_snoc.1 with h₀ | h₁ | hop'
      · rw [h.once rule' (h.kept rule' h₀) rule hrule hid]
      · obtain ⟨r, hr, hrid, hcached⟩ := h.rules _ _ (h.hash rule' (.inr h₁))
        rw [← hcached, h.once r hr rule hrule (hrid.trans hid)]
      · rw [hop] at hop'
        cases hop'
        rfl
    · rw [rules_hsetRule, if_neg hid]
      refine h.hash rule' (hmem.imp_right fun hex => (exists_snoc.1 hex).resolve_right ?_)
      rw [hop]
      rintro ⟨⟩
      exact hid rfl
  · intro id hmem
    refine h.set id (hmem.imp_right fun hex => (exists_snoc.1 hex).resolve_right ?_)
    rw [hop]
    rintro ⟨ids, ⟨⟩, -⟩

omit [DecidableEq ι] in
theorem rulesInv_ids {ids : List RuleID}
    (hids : ∀ id ∈ ids, ∃ rule ∈ p.settings.customRules, rule.id = id)
    (hop : e.op = .redis pid (.sadd ids)) (h : RulesInv newID pid p₀ es₁ p c) :
    RulesInv newID pid p₀ (es₁ ++ [e]) p ((RedisCmd.sadd ids).run c) := by
  refine ⟨h.kept, ?_, h.rules, h.once, ?_, ?_, ?_, ?_⟩
  · intro id hid
    exact (List.mem_union_iff.1 hid).elim (hids id) (h.ids id)
  · intro rule hrule
    exact (h.source rule hrule).imp_right fun hex => exists_snoc.2 (.inl hex)
  · intro u hu after hafter
    rcases List.mem_append.1 hu with hu | hu
    · exact h.read u hu after hafter
    · rw [List.mem_singleton.1 hu] at hafter
      have hafter' : e.op = .findAfter pid := congrArg Sigma.fst hafter
      rw [hop] at hafter'
      cases hafter'
  · intro rule hmem
    refine h.hash rule (hmem.imp_right fun hex => (exists_snoc.1 hex).resolve_right ?_)
    rw [hop]
    exact nofun
  · intro id hmem
    refine List.mem_union_iff.2 ?_
    rcases hmem.imp_right exists_snoc.1 with h₀ | h₁ | ⟨ids', hop', hid⟩
    · exact .inr (h.set id (.inl h₀))
    · exact .inr (h.set id (.inr h₁))
    · rw [hop] at hop'
      cases hop'
      exact .inl hid

end Rules

end ModDNS.Profiles
