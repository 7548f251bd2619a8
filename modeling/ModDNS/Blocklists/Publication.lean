import ModDNS.Blocklists.Update

/-!
# What the sets hold in every run

Updates of one list and lookups, interleaved in any way. A staging set belongs to one run, a set
that takes a run's place in Redis has all its names, and nothing else changes the two sets of the
list.

* `staged_run`: a staging set is what its own run has put into it.
* `live_run`: a set of the list is the one that was last published, or the one from before.
-/

namespace ModDNS.Blocklists

open Go Conc Data

/-- No staging set of the list has a uuid that is yet to be drawn. -/
def Fresh (id : String) (s : Stores) : Prop :=
  ∀ (n : SetName) (u : String), u ∉ s.uuids → s.redis (stagingKey (n.key id) u) = none

/-- The sets of the list do not expire. -/
def Lasting (id : String) (s : Stores) : Prop :=
  ∀ (n : SetName) (x : RedisSet), s.redis (n.key id) = some x → x.expires = none

/-- What a thread may do: an update of a list, or a lookup. -/
def Permits (env : ServiceEnv) : Option BlocklistMetadata → List BlocklistAct → BlocklistOp → Prop
  | some src => Allowed env src
  | none => fun _ o => ∃ key member, o = .sismember key member

/-- The names as a set in Redis; there is no empty set. -/
def publishedSet (names : List String) : Option RedisSet := if names = [] then none
    else some ⟨names.toFinset, none⟩

instance (cmd : RedisCmd) (key : String) : Decidable (cmd.Publishes key) :=
  match cmd with
  | .swap _ live => inferInstanceAs (Decidable (live = key))
  | .unlink keys => inferInstanceAs (Decidable (key ∈ keys))
  | .sadd _ _ => .isFalse id
  | .expire _ _ => .isFalse id

/-- The action has replaced the set at the key, or removed it. -/
def Published (key : String) : BlocklistAct → Prop
  | ⟨.redis _ cmd, r⟩ => cmd.Publishes key ∧ TookEffect r
  | _ => False

instance (key : String) (x : BlocklistAct) : Decidable (Published key x) := by
  unfold Published
  split <;> infer_instance

theorem published_iff {key : String} {x : BlocklistAct} :
    Published key x ↔ ∃ ctx cmd, x.1 = .redis ctx cmd ∧ cmd.Publishes key ∧ TookEffect x.2 := by
  obtain ⟨o, r⟩ := x
  constructor
  · intro h
    cases o with
    | redis ctx cmd => exact ⟨ctx, cmd, rfl, h⟩
    | _ => cases h
  · rintro ⟨ctx, cmd, rfl, h⟩
    exact h

section Runs

variable {ι α : Type} [DecidableEq ι] {env : ServiceEnv} {id key u : String} {grace : ℕ}
  {jobs : ι → Option BlocklistMetadata} {P Q R : Pool blocklistCalls.sig ι Stores α}
  {es es' : List (Event blocklistCalls.sig ι)} {e : Event blocklistCalls.sig ι} {n : SetName}
  {i j : ι} {s s' : Stores}

/-- The thread that was the last to replace the set at the key. -/
def lastPublisher (key : String) (es : List (Event blocklistCalls.sig ι)) : Option ι :=
  es.foldl (fun last e => if Published key ⟨e.op, e.res⟩ then some e.who else last) none

/-- Updates of the list `id` and lookups, from a state in which the list may have been published
before. -/
structure Publishing (env : ServiceEnv) (id : String) (jobs : ι → Option BlocklistMetadata)
    (P : Pool blocklistCalls.sig ι Stores α) : Prop where
  list : ∀ i src, jobs i = some src → src.blocklistID = id
  permits : ∀ i, Meets (S := blocklistCalls.sig) (Permits env (jobs i))
    (fun _ _ => True) (P.prog i) []
  fresh : Fresh id P.state

/-! One step. -/

theorem next_of_step (h : Step (blocklistHandler grace) Q e R) :
    Next grace Q.state ⟨e.op, e.res⟩ R.state := by
  obtain ⟨k, c, s, -, hc, rfl⟩ := step_iff.1 h
  exact next_of_handler hc

omit [DecidableEq ι] in
/-- What a thread knows when it sends a command. -/
theorem Publishing.command (hP : Publishing env id jobs P) {h : List BlocklistAct} {ctx : Context}
    {cmd : RedisCmd} (hallowed : Permits env (jobs i) h (.redis ctx cmd)) :
    ∃ src p, jobs i = some src ∧ Planned env src h p ∧ ctx = p.ctx ∧ Saved h ∧
    CmdAllowed id p h cmd := by
  cases hjob : jobs i with
  | none =>
    rw [hjob] at hallowed
    obtain ⟨key, member, hop⟩ := hallowed
    cases hop
  | some src =>
    rw [hjob] at hallowed
    obtain ⟨p, hplan, hctx, hsaved, hcmd⟩ := hallowed
    rw [hP.list i src hjob] at hcmd
    exact ⟨src, p, rfl, hplan, hctx, hsaved, hcmd⟩

theorem elapse_none {d : ℕ} (h : s.redis key = none) : (s.elapse d).redis key = none := by
  unfold Stores.elapse
  simp only
  rw [h]
  rfl

/-- A key that is not there appears by `SADD` and by a swap only. -/
theorem effect_none {now : ℕ} {redis : String → Option RedisSet} {cmd : RedisCmd}
    (h : redis key = none) (hsadd : ∀ members, cmd ≠ .sadd key members)
    (hswap : ∀ staging, cmd ≠ .swap staging key) :
    cmd.effect now redis key = none := by
  unfold RedisCmd.effect
  cases cmd with
  | sadd k members =>
    have hk : key ≠ k := fun hk => hsadd members (by rw [hk])
    simp only
    rw [Function.update_of_ne hk, h]
  | expire k ttl =>
    simp only
    by_cases hk : key = k
    · subst hk
      rw [Function.update_self, h]
      rfl
    · rw [Function.update_of_ne hk, h]
  | unlink keys =>
    simp only
    split
    · rfl
    · exact h
  | swap staging live =>
    have hlive : key ≠ live := fun hk => hswap staging (by rw [hk])
    simp only
    cases hstaging : redis staging with
    | none => exact h
    | some x =>
      simp only
      rw [Function.update_of_ne hlive]
      by_cases hk : key = staging
      · rw [hk, Function.update_self]
      · rw [Function.update_of_ne hk, h]

/-- A uuid that was drawn is known from then on. -/
theorem drawn_uuids (hrun : Run (blocklistHandler grace) Free P es Q) (h : Drew (trace i es) u) :
    u ∈ Q.state.uuids := by
  refine (mem_trail_uuids (trail_run hrun)).2 (.inr ⟨⟨.newUuid, .ok u⟩, ?_, rfl⟩)
  exact List.mem_map.2 ⟨_, mem_trace.1 h, rfl⟩

theorem next_uuids {x : BlocklistAct} (h : Next grace s x s') :
    s'.uuids = (drawn x).toList ++ s.uuids := by
  obtain ⟨d, c, -, rfl⟩ := h
  rw [act_uuids, elapse_uuids]

/-- **No staging set of the future is there.** -/
theorem staging_run (hP : Publishing env id jobs P)
    (hrun : Run (blocklistHandler grace) Free P es Q) : Fresh id Q.state := by
  refine run_ind_meets (I := fun _ Q => Fresh id Q.state) hP.permits hP.fresh
    (fun es R e R' hR hfresh hallowed _ hstep => ?_) hrun
  intro n u hu
  rw [next_uuids (next_of_step hstep), List.mem_append, not_or] at hu
  obtain ⟨d, -, ⟨hredis, -⟩ | ⟨ctx, cmd, hop, -, -, hredis⟩⟩ := next_redis (next_of_step hstep)
  · rw [hredis]
    exact elapse_none (hfresh n u hu.2)
  · simp only at hop
    rw [hop] at hallowed
    obtain ⟨src, p, -, -, -, -, hcmd⟩ := hP.command hallowed
    rw [hredis]
    refine effect_none (elapse_none (hfresh n u hu.2)) (fun members hsadd => ?_)
      fun staging hswap => ?_
    · subst hsadd
      obtain ⟨n', u', hkey, hdrew⟩ := hcmd
      obtain ⟨-, rfl⟩ := stagingKey_inj hkey
      exact hu.2 (drawn_uuids hR hdrew)
    · subst hswap
      obtain ⟨n', u', hkey, -⟩ := hcmd
      exact stagingKey_ne hkey

theorem next_newUuid (h : Next grace s ⟨.newUuid, .ok u⟩ s') : u ∉ s.uuids := by
  obtain ⟨d, c, hanswer, -⟩ := h
  cases c with
  | uuid v =>
    have hnew : (if v ∈ s.uuids then none else some (.ok v) : Option (Except BlocklistErr String)) =
        some (.ok u) := hanswer
    split at hnew
    · cases hnew
    · next hnot =>
      obtain rfl := Except.ok.inj (Option.some.inj hnew)
      exact hnot
  | _ => cases hanswer

theorem next_clock {t : ℕ} (h : Next grace s ⟨.now, .ok t⟩ s') : s'.now = t := by
  obtain ⟨d, c, hanswer, rfl⟩ := h
  rw [act_now]
  cases c with
  | ok => exact Except.ok.inj (Option.some.inj hanswer)
  | _ => cases hanswer

/-- A uuid is drawn once. -/
theorem drawn_once {es₁ es₂ : List (Event blocklistCalls.sig ι)}
    (hrun : Run (blocklistHandler grace) Free P (es₁ ++ ⟨i, .newUuid, .ok u⟩ :: es₂) Q) :
    (∀ j, ¬ Drew (trace j es₁) u) ∧ ∀ j, ¬ Drew (trace j es₂) u := by
  have hbefore : ∀ {es₁ es₂ : List (Event blocklistCalls.sig ι)} {i : ι},
      Run (blocklistHandler grace) Free P (es₁ ++ ⟨i, .newUuid, .ok u⟩ :: es₂) Q →
        ∀ j, ¬ Drew (trace j es₁) u := by
    intro es₁ es₂ i hrun j hdrew
    obtain ⟨Q₁, Q₂, hrun₁, -, hstep, -⟩ := run_mid hrun
    exact next_newUuid (next_of_step hstep) (drawn_uuids hrun₁ hdrew)
  refine ⟨hbefore hrun, fun j hdrew => ?_⟩
  obtain ⟨m₁, m₂, rfl⟩ := List.append_of_mem (mem_trace.1 hdrew)
  rw [← List.cons_append, ← List.append_assoc] at hrun
  exact hbefore hrun i (mem_trace.2 (List.mem_append_right _ List.mem_cons_self))

/-- A clock reading is past. -/
theorem now_le (hrun : Run (blocklistHandler grace) Free P es Q) {t : ℕ}
    (h : (⟨.now, .ok t⟩ : BlocklistAct) ∈ trace i es) :
    t ≤ Q.state.now := by
  obtain ⟨es₁, es₂, rfl⟩ := List.append_of_mem (mem_trace.1 h)
  obtain ⟨Q₁, Q₂, -, -, hstep, hrest⟩ := run_mid hrun
  rw [← next_clock (next_of_step hstep)]
  exact trail_now (trail_run hrest)

/-- A command of an update is one for the staging set, if it is for that key at all. -/
theorem fits_of_allowed {p : Plan} {h : List BlocklistAct} {cmd : RedisCmd}
    (hcmd : CmdAllowed id p h cmd) :
    Fits (stagingKey (n.key id) u) cmd := by
  refine ⟨fun ttl hexpire => ?_, fun staging hswap => ?_⟩
  · subst hexpire
    exact hcmd.1
  · subst hswap
    obtain ⟨n', u', hkey, -⟩ := hcmd
    exact stagingKey_ne hkey

/-- Only the update that has drawn the uuid touches the staging set. -/
theorem stage_other {p : Plan} {h : List BlocklistAct} {cmd : RedisCmd}
    {members : Option (Finset String)} (hcmd : CmdAllowed id p h cmd) (hnot : ¬ Drew h u) :
    cmd.stage (stagingKey (n.key id) u) members = members := by
  have hother : ∀ {n' u'}, Drew h u' → stagingKey (SetName.key id n') u' ≠ stagingKey
      (n.key id) u := by
    intro n' u' hdrew hkey
    obtain ⟨-, rfl⟩ := stagingKey_inj hkey
    exact hnot hdrew
  unfold RedisCmd.stage
  cases cmd with
  | sadd key ms =>
    obtain ⟨n', u', rfl, hdrew⟩ := hcmd
    simp only
    rw [if_neg (hother hdrew)]
  | expire key ttl => rfl
  | unlink keys =>
    simp only
    rw [if_neg]
    intro hkey
    have hexceptions : stagingKey (n.key id) u ≠ SetName.exceptions.key id := stagingKey_ne
    obtain ⟨rfl, -⟩ | hkeys := hcmd
    · exact hexceptions (List.mem_singleton.1 hkey)
    · obtain ⟨n', hlegacy⟩ | ⟨n', u', hstaging, hdrew⟩ := hkeys _ hkey
      · exact legacy_ne_stagingKey hlegacy rfl
      · exact hother hdrew hstaging.symm
  | swap staging live =>
    obtain ⟨n', u', rfl, rfl, -, ⟨l₁, r, rfl⟩, -⟩ := hcmd
    simp only
    rw [if_neg (hother (List.mem_append_right _ List.mem_cons_self))]

theorem stage_same {x : BlocklistAct} {members : Option (Finset String)}
    (h : ∀ ctx cmd, x.1 = .redis ctx cmd → cmd.stage key members = members) :
    stage key members x = members := by
  unfold stage
  split
  · split
    · next ctx cmd hop => exact h ctx cmd hop
    · rfl
  · rfl

/-- **A staging set is what its own run has put into it.** -/
theorem staged_run (hP : Publishing env id jobs P) {es₁ es₂ : List (Event blocklistCalls.sig ι)}
    (hrun : Run (blocklistHandler grace) Free P (es₁ ++ ⟨i, .newUuid, .ok u⟩ :: es₂) Q) {t₀ : ℕ}
    (ht₀ : (⟨.now, .ok t₀⟩ : BlocklistAct) ∈ trace i es₁) :
    Staged t₀ (stagingKey (n.key id) u)
      ((trace i es₂).foldl (stage (stagingKey (n.key id) u)) none) Q.state := by
  generalize hes : es₁ ++ ⟨i, .newUuid, .ok u⟩ :: es₂ = es at hrun
  -- by induction on the run: the set stays as its own commands have staged it
  refine run_ind_meets (I := fun es Q => ∀ es₂, es₁ ++ ⟨i, .newUuid, .ok u⟩ :: es₂ = es →
    Staged t₀ (stagingKey (n.key id) u)
      ((trace i es₂).foldl (stage (stagingKey (n.key id) u)) none) Q.state)
    hP.permits (fun es₂ hnil => by simp at hnil)
    (fun es R e R' hR hstaged hallowed _ hstep es₂ hes => ?_) hrun es₂ hes
  have hnext := next_of_step hstep
  rcases List.eq_nil_or_concat es₂ with rfl | ⟨es₃, e', rfl⟩
  · -- the uuid has just been drawn
    obtain ⟨rfl, he⟩ := List.append_inj' hes rfl
    obtain rfl := (List.cons.inj he).1
    have hnone : R.state.redis (stagingKey (n.key id) u) = none :=
      staging_run hP hR n u (next_newUuid hnext)
    obtain ⟨d, -, ⟨hredis, -⟩ | ⟨ctx, cmd, hop, -⟩⟩ := next_redis hnext
    · refine Staged.absent ?_
      rw [hredis]
      exact elapse_none hnone
    · cases hop
  · rw [List.concat_eq_append, ← List.cons_append, ← List.append_assoc] at hes
    obtain ⟨rfl, he⟩ := List.append_inj' hes rfl
    obtain rfl := (List.cons.inj he).1
    have hlate : t₀ ≤ R.state.now :=
      now_le hR (by rw [trace_append]; exact List.mem_append_left _ ht₀)
    have hnow := (hstaged es₃ rfl).next hlate hnext fun ctx cmd hop => by
      simp only at hop
      rw [hop] at hallowed
      obtain ⟨src, p, -, -, -, -, hcmd⟩ := hP.command hallowed
      exact fits_of_allowed hcmd
    rw [List.concat_eq_append, trace_append, List.foldl_append]
    -- another run has drawn another uuid, so its commands are on other keys
    by_cases hwho : e'.who = i
    · have hlast : trace i [e'] = [⟨e'.op, e'.res⟩] := by simp [trace, hwho]
      rw [hlast]
      exact hnow
    · have hlast : trace i [e'] = [] := by simp [trace, hwho]
      have hnot : ¬ Drew (trace e'.who (es₁ ++ ⟨i, .newUuid, .ok u⟩ :: es₃)) u := by
        obtain ⟨hbefore, hafter⟩ := drawn_once hR
        intro hdrew
        rcases List.mem_append.1 (mem_trace.1 hdrew) with hin | hin
        · exact hbefore _ (mem_trace.2 hin)
        · rcases List.mem_cons.1 hin with heq | hin
          · exact hwho (congrArg Event.who heq)
          · exact hafter _ (mem_trace.2 hin)
      rw [stage_same fun ctx cmd hop => ?_] at hnow
      · rw [hlast]
        exact hnow
      · simp only at hop
        rw [hop] at hallowed
        obtain ⟨src, p, -, -, -, -, hcmd⟩ := hP.command hallowed
        exact stage_other hcmd hnot

/-- The uuid was drawn after the clock had been read. -/
theorem started_before {src : BlocklistMetadata} {p : Plan} {l l' : List BlocklistAct}
    (h : Planned env src (l ++ ⟨.newUuid, .ok u⟩ :: l') p) :
    ∃ start : ℕ, (⟨.now, .ok start⟩ : BlocklistAct) ∈ l ∧ p.ctx = start + processingTimeout := by
  obtain ⟨l₀, hpre, hprepared⟩ := h.prepared
  obtain ⟨start, rest, rfl, hctx⟩ := hprepared.started
  refine ⟨start, ?_, hctx⟩
  cases l with
  | nil =>
    obtain ⟨hhead, -⟩ := List.cons_prefix_cons.1 hpre
    cases hhead
  | cons x l =>
    obtain ⟨rfl, -⟩ := List.cons_prefix_cons.1 hpre
    exact List.mem_cons_self

/-- **A set that takes its place in Redis has all the names.** -/
theorem swap_names (hP : Publishing env id jobs P) (hgrace : processingTimeout + grace < stagingTTL)
    (hrun : Run (blocklistHandler grace) Free P es Q) {ctx : Context}
    {staging live : String} {p : Plan}
    {src : BlocklistMetadata} (hplan : Planned env src (trace i es) p) (hctx : ctx = p.ctx)
    (hcmd : CmdAllowed id p (trace i es) (.swap staging live)) {d : ℕ}
    (hnow : Q.state.now + d ≤ ctx + grace) :
    ∃ n : SetName, live = n.key id ∧
      RedisCmd.effect (Q.state.now + d) (Q.state.elapse d).redis (.swap staging live) live =
        publishedSet (p.names n) := by
  obtain ⟨n, u, rfl, rfl, hne, ⟨l₁, r, hfilled⟩, -⟩ := hcmd
  refine ⟨n, rfl, ?_⟩
  rw [hfilled] at hplan
  obtain ⟨start, hstart, hdeadline⟩ := started_before hplan
  obtain ⟨es₁, es₂, rfl, rfl, hsent⟩ := trace_split hfilled
  have hstaged := (staged_run (n := n) hP hrun hstart).elapse d
  have hkept : stagingKey (n.key id) u ∉ legacyKeys (n.key id) := fun hin =>
    legacy_ne_stagingKey hin rfl
  have hlegacy : stage (stagingKey (n.key id) u) (some (p.names n).toFinset)
      ⟨.redis p.ctx (.unlink (legacyKeys (n.key id))), r⟩ = some (p.names n).toFinset := by
    refine stage_same fun ctx cmd hop => ?_
    cases hop
    exact if_neg hkept
  rw [hsent, List.foldl_append, staged_cmds hne, List.foldl_cons, List.foldl_nil,
    hlegacy] at hstaged
  have hlive : (Q.state.elapse d).now < start + stagingTTL := by
    rw [hctx, hdeadline] at hnow
    rw [elapse_now]
    omega
  obtain ⟨x, hx, hmembers⟩ := Option.map_eq_some_iff.1 (hstaged.members hlive)
  unfold RedisCmd.effect publishedSet
  simp only [hx]
  rw [Function.update_self, if_neg hne, hmembers]

/-- What a command that publishes a set leaves there. -/
theorem published_names (hP : Publishing env id jobs P)
    (hgrace : processingTimeout + grace < stagingTTL)
    (hrun : Run (blocklistHandler grace) Free P es Q) {ctx : Context} {cmd : RedisCmd} {p : Plan}
    {src : BlocklistMetadata} (hplan : Planned env src (trace i es) p) (hctx : ctx = p.ctx)
    (hcmd : CmdAllowed id p (trace i es) cmd) {d : ℕ} (hnow : Q.state.now + d ≤ ctx + grace)
    (hpub : cmd.Publishes (n.key id)) :
    cmd.effect (Q.state.now + d) (Q.state.elapse d).redis (n.key id) = publishedSet
    (p.names n) := by
  cases cmd with
  | sadd key members => cases hpub
  | expire key ttl => cases hpub
  | unlink keys =>
    have hin : n.key id ∈ keys := hpub
    obtain ⟨rfl, hnone⟩ | hkeys := hcmd
    · obtain rfl : n = .exceptions := by
        have hkey : n.key id = SetName.exceptions.key id := List.mem_singleton.1 hin
        exact key_inj hkey
      show (if _ then none else _) = publishedSet p.exceptions
      rw [if_pos hin, hnone]
      rfl
    · obtain ⟨n', hlegacy⟩ | ⟨n', u', hstaging, -⟩ := hkeys _ hin
      · exact absurd rfl (legacy_ne_key hlegacy)
      · exact absurd hstaging.symm stagingKey_ne
  | swap staging live =>
    obtain rfl : live = n.key id := hpub
    obtain ⟨n', hkey, heffect⟩ := swap_names hP hgrace hrun hplan hctx hcmd hnow
    obtain rfl := key_inj hkey
    exact heffect

/-- The main set is published after the exceptions. -/
theorem published_main {p : Plan} {h : List BlocklistAct} {cmd : RedisCmd}
    (hcmd : CmdAllowed id p h cmd) (hpub : cmd.Publishes (liveKey id)) :
    PublishedBy h p.ctx (exceptionsKey id) := by
  cases cmd with
  | sadd key members => cases hpub
  | expire key ttl => cases hpub
  | unlink keys =>
    have hin : SetName.main.key id ∈ keys := hpub
    obtain ⟨rfl, -⟩ | hkeys := hcmd
    · have hkey : SetName.main.key id = SetName.exceptions.key id := List.mem_singleton.1 hin
      cases key_inj hkey
    · obtain ⟨n', hlegacy⟩ | ⟨n', u', hstaging, -⟩ := hkeys _ hin
      · exact absurd rfl (legacy_ne_key hlegacy)
      · exact absurd hstaging.symm stagingKey_ne
  | swap staging live =>
    have hlive : live = SetName.main.key id := hpub
    obtain ⟨n', u', hkey, -, -, -, hready⟩ := hcmd
    exact hready (key_inj (hkey.symm.trans hlive))

theorem PublishedBy.published {l : List BlocklistAct} {ctx : Context} (h : PublishedBy l ctx key) :
    ∃ x ∈ l, Published key x := by
  obtain ⟨cmd, hcmd, hin⟩ := h
  exact ⟨sent ctx cmd, hin, hcmd, trivial⟩

theorem elapse_lasting {d : ℕ} (h : ∀ x, s.redis key = some x → x.expires = none) :
    (s.elapse d).redis key = s.redis key := by
  unfold Stores.elapse
  simp only
  cases hkey : s.redis key with
  | none => rfl
  | some x =>
    have hnot : ¬ x.Expired (s.now + d) := by
      rintro ⟨e, he, -⟩
      rw [h x hkey] at he
      cases he
    exact Option.filter_some_pos (decide_eq_true hnot)

/-- What an update sends leaves the sets of the list alone, unless it publishes them. -/
theorem effect_live {p : Plan} {h : List BlocklistAct} {cmd : RedisCmd} {now : ℕ}
    {redis : String → Option RedisSet} (hcmd : CmdAllowed id p h cmd)
    (hnot : ¬ cmd.Publishes (n.key id)) : cmd.effect now redis (n.key id) = redis (n.key id) := by
  unfold RedisCmd.effect
  cases cmd with
  | sadd key members =>
    obtain ⟨n', u', rfl, -⟩ := hcmd
    exact Function.update_of_ne stagingKey_ne.symm _ _
  | expire key ttl =>
    obtain ⟨-, n', u', rfl, -⟩ := hcmd
    exact Function.update_of_ne stagingKey_ne.symm _ _
  | unlink keys => exact if_neg hnot
  | swap staging live =>
    obtain ⟨n', u', rfl, rfl, -⟩ := hcmd
    simp only
    cases redis (stagingKey (n'.key id) u') with
    | none => rfl
    | some x =>
      simp only
      rw [Function.update_of_ne (Ne.symm hnot), Function.update_of_ne stagingKey_ne.symm]

/-- What the set `n` of the list is after the events: that of the run that was the last to publish
it, or the one from before, if it does not expire. -/
def Shows (env : ServiceEnv) (id : String) (jobs : ι → Option BlocklistMetadata)
    (s : Stores) (n : SetName) (es : List (Event blocklistCalls.sig ι)) (x : Option RedisSet) :
    Prop :=
  match lastPublisher (n.key id) es with
  | none => Lasting id s → x = s.redis (n.key id)
  | some i =>
    ∃ src p, jobs i = some src ∧ Planned env src (trace i es) p ∧ x = publishedSet (p.names n)

omit [DecidableEq ι] in
theorem lastPublisher_snoc : lastPublisher key (es ++ [e]) =
    if Published key ⟨e.op, e.res⟩ then some e.who else lastPublisher key es := by
  unfold lastPublisher
  rw [List.foldl_append]
  rfl

omit [DecidableEq ι] in
theorem lastPublisher_none :
    lastPublisher key es = none ↔ ∀ e ∈ es, ¬ Published key ⟨e.op, e.res⟩ := by
  induction es using List.reverseRecOn with
  | nil => exact ⟨fun _ => List.forall_mem_nil _, fun _ => rfl⟩
  | append_singleton es e ih =>
    rw [lastPublisher_snoc, List.forall_mem_append, ← ih, List.forall_mem_singleton]
    split
    · next hpub => exact ⟨nofun, fun h => absurd hpub h.2⟩
    · next hpub => exact ⟨fun h => ⟨h, hpub⟩, And.left⟩

omit [DecidableEq ι] in
/-- The event by which the set was last published. -/
theorem lastPublisher_some (h : lastPublisher key es = some i) :
    ∃ es₁ e es₂, es = es₁ ++ e :: es₂ ∧ e.who = i ∧
    Published key ⟨e.op, e.res⟩ ∧ ∀ e' ∈ es₂, ¬ Published key ⟨e'.op, e'.res⟩ := by
  induction es using List.reverseRecOn with
  | nil => cases h
  | append_singleton es e ih =>
    rw [lastPublisher_snoc] at h
    split at h
    · next hpub => exact ⟨es, e, [], rfl, Option.some.inj h, hpub, List.forall_mem_nil _⟩
    · next hpub =>
      obtain ⟨es₁, e', es₂, rfl, hwho, hpub', hnone⟩ := ih h
      refine ⟨es₁, e', es₂ ++ [e], by simp, hwho, hpub', ?_⟩
      exact List.forall_mem_append.2 ⟨hnone, List.forall_mem_singleton.2 hpub⟩

theorem publishedSet_lasting {names : List String} {x : RedisSet}
    (h : publishedSet names = some x) : x.expires = none := by
  unfold publishedSet at h
  split at h
  · cases h
  · cases h
    rfl

/-- The sets of the list stay what they are, in time. -/
theorem Shows.elapse {d : ℕ} (h : Shows env id jobs s' n es (s.redis (n.key id))) :
    Shows env id jobs s' n es ((s.elapse d).redis (n.key id)) := by
  unfold Shows at h ⊢
  cases hlast : lastPublisher (n.key id) es with
  | none =>
    rw [hlast] at h
    intro hlasting
    have hx := h hlasting
    rw [elapse_lasting fun x hx' => hlasting n x (hx.symm.trans hx'), hx]
  | some i =>
    rw [hlast] at h
    obtain ⟨src, p, hjob, hplan, hx⟩ := h
    exact ⟨src, p, hjob,
      hplan, by rw [elapse_lasting fun x hx' => publishedSet_lasting (hx.symm.trans hx'), hx]⟩

/-- An event that does not publish the set. -/
theorem Shows.snoc {x : Option RedisSet} (h : Shows env id jobs s n es x)
    (hnot : ¬ Published (n.key id) ⟨e.op, e.res⟩) :
    Shows env id jobs s n (es ++ [e]) x := by
  unfold Shows at h ⊢
  rw [lastPublisher_snoc, if_neg hnot]
  cases hlast : lastPublisher (n.key id) es with
  | none =>
    rw [hlast] at h
    exact h
  | some i =>
    rw [hlast] at h
    obtain ⟨src, p, hjob, hplan, hx⟩ := h
    refine ⟨src, p, hjob, hplan.mono ?_, hx⟩
    rw [trace_append]
    exact List.prefix_append _ _

/-- **A set of the list is the one that was last published**, whole, or the one from before. -/
theorem live_run (hP : Publishing env id jobs P) (hgrace : processingTimeout + grace < stagingTTL)
    (hrun : Run (blocklistHandler grace) Free P es Q) (n : SetName) :
    Shows env id jobs P.state n es (Q.state.redis (n.key id)) := by
  refine run_ind_meets (I := fun es Q => ∀ n : SetName, Shows env id jobs P.state n es
    (Q.state.redis (n.key id))) hP.permits
    (fun n _ => rfl) (fun es R e R' hR hshows hallowed _ hstep n => ?_) hrun n
  obtain ⟨d, hd, ⟨hredis, hnot⟩ | ⟨ctx, cmd, hop, htook, hnow, hredis⟩⟩ :=
    next_redis (next_of_step hstep)
  · rw [hredis]
    refine (hshows n).elapse.snoc fun hpublished => ?_
    obtain ⟨ctx, cmd, hop, -, htook⟩ := published_iff.1 hpublished
    exact hnot ctx cmd hop htook
  · simp only at hop
    rw [hop] at hallowed
    obtain ⟨src, p, hjob, hplan, hctx, -, hcmd⟩ := hP.command hallowed
    by_cases hpub : cmd.Publishes (n.key id)
    · unfold Shows
      rw [lastPublisher_snoc, if_pos (published_iff.2 ⟨ctx, cmd, hop, hpub, htook⟩)]
      refine ⟨src, p, hjob, hplan.mono ?_, ?_⟩
      · rw [trace_append]
        exact List.prefix_append _ _
      · rw [hredis, hd]
        rw [hd] at hnow
        exact published_names hP hgrace hR hplan hctx hcmd hnow hpub
    · rw [hredis, effect_live hcmd hpub]
      refine (hshows n).elapse.snoc fun hpublished => ?_
      obtain ⟨ctx', cmd', hop', hpub', -⟩ := published_iff.1 hpublished
      cases hop.symm.trans hop'
      exact hpub hpub'

end Runs

end ModDNS.Blocklists
