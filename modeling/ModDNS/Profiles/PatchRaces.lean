import Mathlib.Data.Fintype.Defs
import ModDNS.Profiles.PatchSteps

/-!
# Concurrent patches

* `patches_agree`: Redis and Mongo agree after PATCHes none of which writes a field to Redis over
  the value of a later one; each field has a value of a PATCH that touched it.
* `late_write`: two PATCHes that have both ended without an error, and a field on which the stores
  differ.
-/

namespace ModDNS.Profiles

open Conc Rules

section Run

variable {ι V : Type} [DecidableEq ι] {env : ServiceEnv} {casts : Casts V} {newID : ι → ℕ → RuleID}
  {calls : ι → PatchCall V} {s : Stores} {pid : String}
  {es es₁ es₂ : List (Event profileCalls.sig ι)} {e : Event profileCalls.sig ι} {p₀ p : Profile}
  {c₀ : CachedSettings} {R : Pool profileCalls.sig ι Stores (Except ServiceErr Profile)}

/-- What a PATCH reads back is what is stored. -/
theorem find_of_findAfter {after : Profile}
    (hr : Run profileHandler Free (patchPool env casts newID calls s) es R)
    (hes : es = es₁ ++ e :: es₂) (hx : (⟨e.op, e.res⟩ : profileCalls.sig.Act) =
      ⟨.findAfter pid, .ok after⟩) :
    (s.after (acts es₁)).find pid = some after := by
  subst hes
  obtain ⟨i, o, r⟩ := e
  cases hx
  obtain ⟨Q, Q', h₁, -, hs, -⟩ := run_mid hr
  obtain ⟨k, c, s', -, hc, -⟩ := step_iff.1 hs
  have hans : ProfileOp.answer Q.state c (.findAfter pid) = some (.ok after) := (handled hc).1
  rw [state_run h₁] at hans
  exact find_of_answer hans

/-- A profile along the PATCHes: `p` in Mongo and `c` in Redis, after `es₁`. -/
structure Along (env : ServiceEnv) (casts : Casts V) (newID : ι → ℕ → RuleID)
    (calls : ι → PatchCall V) (pid : String) (p₀ : Profile) (c₀ : CachedSettings)
    (es₁ : List (Event profileCalls.sig ι)) (p : Profile) (c : CachedSettings) :
    Prop where
  blocklists : p.settings.privacy.blocklists = p₀.settings.privacy.blocklists
  services : p.settings.privacy.services = p₀.settings.privacy.services
  lists : c.lists = c₀.lists
  rules : RulesInv newID pid p₀ es₁ p c
  value : ∀ path, (p.value path = p₀.value path ∧ ∀ e ∈ es₁, ¬ ToMongo pid path e.op) ∨
    ∃ i, (calls i).profileId = pid ∧ assigned env casts (calls i).updates path = some (p.value path)

/-- **Step lemma.** -/
theorem along_step (hr : Run profileHandler Free (patchPool env casts newID calls s) es R)
    (hs : Shaped env casts newID calls es) (hfresh : FreshRules newID p₀)
    (hes : es = es₁ ++ e :: es₂)
    (hp : (s.after (acts es₁)).find pid = some p)
    (h : Along env casts newID calls pid p₀ c₀ es₁ p ((s.after (acts es₁)).redis pid)) :
    ∃ p', ((s.after (acts es₁)).act ⟨e.op, e.res⟩).find pid = some p' ∧
      Along env casts newID calls pid p₀ c₀ (es₁ ++ [e]) p'
        (((s.after (acts es₁)).act ⟨e.op, e.res⟩).redis pid) := by
  have hread : ∀ after, (⟨e.op, e.res⟩ : profileCalls.sig.Act) = ⟨.findAfter pid, .ok after⟩ →
      (s.after (acts es₁)).find pid = some after := fun after => find_of_findAfter hr hes
  generalize s.after (acts es₁) = s₁ at hp h hread ⊢
  -- a step that writes none of the paths keeps what is known of each value
  have hvalue : (∀ path, ¬ ToMongo pid path e.op) → ∀ path,
      (p.value path = p₀.value path ∧ ∀ u ∈ es₁ ++ [e], ¬ ToMongo pid path u.op) ∨
        ∃ i, (calls i).profileId = pid ∧ assigned env casts (calls i).updates path = some
          (p.value path) := by
    intro he path
    refine (h.value path).imp_left fun ⟨hsame, hnone⟩ => ⟨hsame, fun u hu => ?_⟩
    rcases List.mem_append.1 hu with hu | hu
    · exact hnone u hu
    · rw [List.mem_singleton.1 hu]
      exact he path
  rcases event_effect pid hs (hes ▸ List.mem_append_right _ (List.mem_cons_self ..)) s₁ with
    ⟨hforeign, hfind, hredis⟩ | ⟨T, hpid,
      ⟨hop, hfind, hredis⟩ | ⟨hx, hact⟩ | ⟨cmd, hcmd, hop, hfind, hredis⟩⟩
  -- another profile's event
  · refine ⟨p, hfind.trans hp, ?_⟩
    rw [hredis]
    refine ⟨h.blocklists, h.services, h.lists,
      rulesInv_same h.rules rfl rfl rfl ?_ ?_ ?_, hvalue ?_⟩
    · exact fun after hx => hforeign.2.1 (congrArg Sigma.fst hx)
    · exact fun rule => hforeign.2.2 _
    · exact fun ids => hforeign.2.2 _
    · rintro path ⟨upd, hop, -⟩
      exact hforeign.1 upd hop
  -- the `$set` of a patch on this profile: its paths get the values assigned
  · refine ⟨updateFields p T.upd, by rw [hfind, hp]; rfl, ?_⟩
    rw [hredis]
    have hsame := sameElse_setFields p T.upd
    refine ⟨hsame.blocklists.trans h.blocklists, hsame.services.trans h.services, h.lists,
      rulesInv_update hs hfresh hes T hop h.rules, fun path => ?_⟩
    rw [T.value_upd]
    split
    · next hpath => exact .inr ⟨e.who, hpid, T.patched.value path ((T.touched_iff path).1 hpath)⟩
    · next hpath =>
      refine (h.value path).imp_left fun ⟨hsame, hnone⟩ => ⟨hsame, fun u hu => ?_⟩
      rcases List.mem_append.1 hu with hu | hu
      · exact hnone u hu
      · rw [List.mem_singleton.1 hu, hop]
        rintro ⟨upd, ⟨⟩, hmem⟩
        rw [T.set_keys] at hmem
        exact hpath hmem
  -- the read after it changes nothing
  · rw [hact]
    have hafter : T.after = p := Option.some.inj ((hread _ hx).symm.trans hp)
    rw [hafter] at hx
    have hop : e.op = .findAfter pid := congrArg Sigma.fst hx
    refine ⟨p, hp, h.blocklists, h.services, h.lists, rulesInv_read h.rules hx, hvalue ?_⟩
    rw [hop]
    rintro path ⟨upd, ⟨⟩, -⟩
  -- a command to Redis: a hash field, an appended rule or the list of rule ids
  · refine ⟨p, hfind.trans hp, ?_⟩
    rw [hredis]
    have hvalue' := hvalue (by rw [hop]; rintro path ⟨upd, ⟨⟩, -⟩)
    have hstored : ∀ rule ∈ T.appended, rule ∈ p.settings.customRules :=
      fun rule => appended_stored hes T hpid hop h.rules
    rcases T.cmd_kind hcmd with ⟨path, -, k, f, -, rfl⟩ | ⟨rule, hrule, rfl⟩ | rfl
    · refine ⟨h.blocklists, h.services, h.lists,
        rulesInv_same h.rules rfl rfl rfl ?_ ?_ ?_, hvalue'⟩
      · intro after hx
        have hop' : e.op = .findAfter pid := congrArg Sigma.fst hx
        rw [hop] at hop'
        cases hop'
      · rw [hop]
        exact nofun
      · rw [hop]
        exact nofun
    · exact ⟨h.blocklists, h.services, h.lists, rulesInv_rule
        (hstored rule hrule) hop h.rules, hvalue'⟩
    · refine ⟨h.blocklists, h.services, h.lists, rulesInv_ids
        (fun id hid => ?_) hop h.rules, hvalue'⟩
      obtain ⟨rule, hrule, rfl⟩ := List.mem_map.1 hid
      exact ⟨rule, hstored rule hrule, rfl⟩

theorem along_run (hr : Run profileHandler Free (patchPool env casts newID calls s) es R)
    (hs : Shaped env casts newID calls es) (hfresh : FreshRules newID p₀)
    (hstored : s.find pid = some p₀)
    (hmirror : Mirrored p₀ (s.redis pid)) (hes : es = es₁ ++ es₂) :
    ∃ p, (s.after (acts es₁)).find pid = some p ∧
      Along env casts newID calls pid p₀ (s.redis pid) es₁ p ((s.after (acts es₁)).redis pid) := by
  induction es₁ using List.reverseRecOn generalizing es₂ with
  | nil =>
    refine ⟨p₀, hstored, rfl, rfl, rfl, rulesInv_start hmirror, fun path => .inl ⟨rfl, ?_⟩⟩
    exact List.forall_mem_nil _
  | append_singleton es₁ e ih =>
    rw [List.append_assoc, List.singleton_append] at hes
    obtain ⟨p, hp, halong⟩ := ih hes
    rw [acts, List.map_append, after_append]
    exact along_step hr hs hfresh hes hp halong

/-- When all have ended, Redis has the rules of Mongo. -/
theorem stored_rules {c : CachedSettings} (hs : Shaped env casts newID calls es)
    (h : RulesInv newID pid p₀ es p c) :
    ∀ rule ∈ p.settings.customRules, rule.id ∈ c.customRules ∧
    c.rules rule.id = some rule.cached := by
  intro rule hrule
  rcases h.source rule hrule with h₀ | ⟨e, he, upd, hop, hmem⟩
  · exact ⟨h.set rule.id (.inl ⟨rule, h₀, rfl⟩), h.hash rule (.inl h₀)⟩
  · obtain ⟨T, hpid, rfl⟩ := upd_of_event hs he hop
    subst hpid
    obtain ⟨m, hm, hid⟩ := mem_allowedDomainRules (T.append_allowed hmem)
    -- the PATCH has read its rule back, and has written it to Redis then
    have hread := (h.read _ (mem_trace.1 T.after_mem) T.after rfl).2 rule hrule ⟨m, by rw [hid]⟩
    have happended : rule ∈ T.appended := T.mem_appended.2 ⟨hread, List.mem_map_of_mem hmem⟩
    obtain ⟨hhash, hset⟩ := T.rule_mem happended
    refine ⟨h.set rule.id
      (.inr ⟨_, mem_trace.1 (T.cmd_mem hset), _, rfl, List.mem_map_of_mem happended⟩), ?_⟩
    exact h.hash rule (.inr ⟨_, mem_trace.1 (T.cmd_mem hhash), rfl⟩)

/-- A touched path has been written to Mongo. -/
theorem toMongo_of_touches {i : ι} {path : PatchPath} (hs : Shaped env casts newID calls es)
    (hpid : (calls i).profileId = pid) (h : Touches (calls i).updates path) :
    ∃ e ∈ es, ToMongo pid path e.op := by
  rcases hs i with ⟨-, hnone⟩ | ⟨⟨T⟩⟩
  · exact absurd h (hnone path)
  · subst hpid
    refine ⟨_, mem_trace.1 T.update_mem, T.upd, rfl, ?_⟩
    rw [T.set_keys]
    exact (T.touched_iff path).2 h

/-- **Concurrent PATCHes of a profile.** When all of them have ended without an error, each field
has in Mongo a value of a PATCH that touched it, and Redis has what Mongo has if no PATCH has
written to Redis over a later one. -/
theorem patches_agree (hstored : s.find pid = some p₀) (hmirror : Mirrored p₀ (s.redis pid))
    (hfresh : FreshRules newID p₀) (hr : Run profileHandler Free
      (patchPool env casts newID calls s) es R)
    (hdone : ∀ i, ∃ q, R.prog i = .pure (.ok q)) :
    ∃ p, R.state.find pid = some p ∧ (InOrder s pid es → Mirrored p (R.state.redis pid)) ∧
      ∀ path, (∃ i, (calls i).profileId = pid ∧ Touches (calls i).updates path) →
        ∃ i, (calls i).profileId = pid ∧ Touches (calls i).updates path ∧
          assigned env casts (calls i).updates path = some (p.value path) := by
  have hs := shaped_of_run hr hdone
  have hstate : R.state = s.after (acts es) := state_run hr
  obtain ⟨p, hp, halong⟩ := along_run hr hs hfresh hstored hmirror (List.append_nil es).symm
  rw [hstate]
  refine ⟨p, hp, fun horder => ?_, ?_⟩
  · refine ⟨fun path k f hk => ?_, ?_, ?_, halong.rules.ids, halong.rules.rules,
      stored_rules hs halong.rules⟩
    -- in order, a field agrees or a write to Redis is pending; none is at the end
    · have hstart : s.Agree pid path := fun k' f' hk' =>
        ⟨_, ⟨p₀, hstored, rfl⟩, hmirror.fields path k' f' hk'⟩
      rcases agree_or_pending hs horder hstart (List.append_nil es).symm with hagree | ⟨j, hpending⟩
      · obtain ⟨v, ⟨p', hp', hv⟩, hfield⟩ := hagree k f hk
        obtain rfl := Option.some.inj (hp.symm.trans hp')
        rw [hfield, hv]
      · exact absurd hpending (not_pending hs hk)
    · rw [halong.lists, hmirror.blocklists, halong.blocklists]
    · rw [halong.lists, hmirror.services, halong.services]
  · rintro path ⟨i, hpid, htouches⟩
    -- a path that is touched was written, so it has not kept its old value
    obtain ⟨e, he, hmongo⟩ := toMongo_of_touches hs hpid htouches
    rcases halong.value path with ⟨-, hnone⟩ | ⟨j, hj, hvalue⟩
    · exact absurd hmongo (hnone e he)
    · exact ⟨j, hj, touches_of_assigned hvalue, hvalue⟩

end Run

section Current

instance : Fintype PatchPath where
  elems := ⟨([.name, .statisticsEnabled, .statisticsRetention, .logsEnabled, .logClientsIPs,
    .logDomains, .logsRetention,
    .defaultRule, .blocklistsSubdomainsRule, .customRulesSubdomainsRule, .dnssecEnabled, .sendDoBit,
    .rebindingProtection, .recursor] : List PatchPath), by decide⟩
  complete path := by cases path <;> decide

variable {ι V : Type} {pid : String}

/-- A field is written to Redis with the value that it has in Mongo. -/
def Current (pid : String) (s : Stores) (e : Event profileCalls.sig ι) : Prop :=
  match e.op with
  | .redis pid' (.hset h [(f, v)]) =>
    pid' = pid → ∀ path, (patchFields path).hash = some (h, f) →
      (s.find pid).map (·.value path) = some v
  | _ => True

instance (s : Stores) (e : Event profileCalls.sig ι) : Decidable (Current pid s e) := by
  unfold Current
  split <;> infer_instance

theorem inOrder_of_current [DecidableEq ι] {env : ServiceEnv} {casts : Casts V}
    {newID : ι → ℕ → RuleID} {calls : ι → PatchCall V} {s : Stores}
    {es : List (Event profileCalls.sig ι)}
    {R : Pool profileCalls.sig ι Stores (Except ServiceErr Profile)}
    (hr : Run profileHandler (Current pid) (patchPool env casts newID calls s) es R) :
    InOrder s pid es := by
  rintro es₁ e es₂ rfl path v ⟨h, f, hk, hop⟩
  obtain ⟨Q, Q', h₁, hcurrent, -, -⟩ := run_mid hr
  have hstate : Q.state = s.after (acts es₁) := state_run h₁
  unfold Current at hcurrent
  rw [hop, hstate] at hcurrent
  exact .inl (Option.map_eq_some_iff.1 (hcurrent rfl path hk))

end Current

section Examples

/-- A PATCH of the recursor. -/
def recursorPatch (v : String) : PatchCall String := ⟨"a", "p", [⟨.replace, .recursor, v⟩]⟩

def recursorPatches : Fin 2 → PatchCall String
  | 0 => recursorPatch "sdns"
  | 1 => recursorPatch "knot"

def exampleIDs (i : Fin 2) (k : ℕ) : RuleID := 2 * k + i.val

theorem exampleIDs_fresh : FreshRules exampleIDs oneProfile := by
  refine ⟨fun i j m n h => ?_, fun i m => List.forall_mem_nil _⟩
  have heq : 2 * m + i.val = 2 * n + j.val := h
  exact ⟨Fin.ext (by omega), by omega⟩

theorem oneStores_mirrored : Mirrored oneProfile (oneStores.redis "p") := by
  refine ⟨?_, rfl, rfl, List.forall_mem_nil _, nofun, List.forall_mem_nil _⟩
  intro path h f hk
  cases path <;> cases hk <;> decide

/-- The choices of the first four calls of a PATCH, the last of which reads the profile back. -/
def writesMongo (i : Fin 2) : List (Fin 2 × Choice) := [(i, .ok), (i, .time 1), (i, .ok), (i, .ok)]

def writesRedis (i : Fin 2) : List (Fin 2 × Choice) := [(i, .ok)]

/-- The second PATCH overtakes the first one between its two writes. -/
def overtaken : List (Fin 2 × Choice) :=
  writesMongo (thread 0) ++ writesMongo (thread 1) ++ writesRedis (thread 1) ++
    writesRedis (thread 0)

theorem overtaken_plays :
    (play profileHandler Free overtaken
      (patchPool exampleEnv textCasts exampleIDs recursorPatches oneStores)).isSome := by
  decide

/-- Redis keeps the value that the second PATCH has replaced. -/
theorem late_write :
    ∃ es R, Run profileHandler Free
      (patchPool exampleEnv textCasts exampleIDs recursorPatches oneStores) es R ∧
      oneStores.find "p" = some oneProfile ∧ Mirrored oneProfile (oneStores.redis "p") ∧
      FreshRules exampleIDs oneProfile ∧ (∀ i, ∃ q, R.prog i = .pure (.ok q)) ∧
      (R.state.find "p").map (·.settings.recursor) = some "knot" ∧
      (R.state.redis "p").hashes .advanced "recursor" = some (.text "sdns") := by
  refine ⟨_, _, run_play overtaken_plays, rfl, oneStores_mirrored, exampleIDs_fresh,
    fun i => ?_, by decide, by decide⟩
  match i with
  | 0 => exact ⟨_, rfl⟩
  | 1 => exact ⟨_, rfl⟩

/-- The same two PATCHes, written to Redis in their order. -/
def inTurn : List (Fin 2 × Choice) :=
  writesMongo (thread 0) ++ writesRedis (thread 0) ++ writesMongo (thread 1) ++
    writesRedis (thread 1)

theorem inTurn_plays :
    (play profileHandler (Current "p") inTurn
      (patchPool exampleEnv textCasts exampleIDs recursorPatches oneStores)).isSome := by
  decide

theorem patches_agree_inTurn :
    ∃ es R p, Run profileHandler (Current "p")
      (patchPool exampleEnv textCasts exampleIDs recursorPatches oneStores) es R ∧
      R.state.find "p" = some p ∧ Mirrored p (R.state.redis "p") := by
  have hr := run_play inTurn_plays
  obtain ⟨p, hp, hmirror, -⟩ :=
    patches_agree rfl oneStores_mirrored exampleIDs_fresh (run_free hr) fun i =>
    match i with
    | 0 => ⟨_, rfl⟩
    | 1 => ⟨_, rfl⟩
  exact ⟨_, _, p, hr, hp, hmirror (inOrder_of_current hr)⟩

end Examples

end ModDNS.Profiles
