import ModDNS.Blocklists.Publish

/-!
# Staging sets

The keys of a list are all different, and a staging key belongs to the one run that drew its uuid. A
staging set holds what has been added to it, as long as its time to live has not passed.

* `populate_sends`: the commands of a population that succeeds.
* `staged_cmds`: what they leave in the staging set.
* `Staged.next`: Redis keeps it.
-/

namespace ModDNS.Blocklists

open Go Conc Data

/-- The two sets of a list. -/
inductive SetName where
  | main
  | exceptions
deriving DecidableEq

def SetName.key (id : String) : SetName → String
  | .main => liveKey id
  | .exceptions => exceptionsKey id

section Keys

variable {id u u' : String} {n n' : SetName}

/-- What a key has after `blocklist:` and the id. -/
def SetName.tail : SetName → List Char
  | .main => []
  | .exceptions => [':', 'e', 'x', 'c', 'e', 'p', 't', 'i', 'o', 'n', 's']

theorem toList_key (n : SetName) (id : String) :
    (n.key id).toList = (liveKey id).toList ++ n.tail := by
  cases n with
  | main => exact (List.append_nil _).symm
  | exceptions =>
    have htail : ":exceptions".toList = SetName.exceptions.tail := by decide
    show (exceptionsKey id).toList = _
    unfold exceptionsKey liveKey
    rw [String.toList_append, htail]

theorem toList_stagingKey (n : SetName) (id u : String) :
    (stagingKey (n.key id) u).toList = (liveKey id).toList ++
      (n.tail ++ ':' :: 't' :: 'm' :: 'p' :: ':' :: u.toList) := by
  have htmp : ":tmp:".toList = [':', 't', 'm', 'p', ':'] := by decide
  unfold stagingKey
  rw [String.toList_append, String.toList_append, toList_key, htmp]
  simp only [List.append_assoc, List.cons_append, List.nil_append]

theorem key_inj (h : n.key id = n'.key id) : n = n' := by
  have hlist := congrArg String.toList h
  rw [toList_key, toList_key, List.append_cancel_left_eq] at hlist
  cases n <;> cases n' <;> simp [SetName.tail] at hlist ⊢

theorem stagingKey_inj (h : stagingKey (n.key id) u = stagingKey (n'.key id) u') :
    n = n' ∧ u = u' := by
  have hlist := congrArg String.toList h
  rw [toList_stagingKey, toList_stagingKey, List.append_cancel_left_eq] at hlist
  have hu : n = n' ∧ u.toList = u'.toList := by
    cases n <;> cases n' <;> simp [SetName.tail] at hlist ⊢
    · exact hlist
    · exact hlist
  exact ⟨hu.1, String.toList_injective hu.2⟩

theorem stagingKey_ne : stagingKey (n.key id) u ≠ n'.key id := by
  intro h
  have hlist := congrArg String.toList h
  rw [toList_stagingKey, toList_key, List.append_cancel_left_eq] at hlist
  cases n <;> cases n' <;> simp [SetName.tail] at hlist

/-- The keys that previous versions of the code used. -/
def legacyKeys (liveName : String) : List String := [liveName ++ "_old", liveName ++ "_temp"]

theorem legacy_spec {key : String} (h : key ∈ legacyKeys (n.key id)) :
    ∃ cs, key.toList = (liveKey id).toList ++ (n.tail ++ '_' :: cs) := by
  have hold : "_old".toList = ['_', 'o', 'l', 'd'] := by decide
  have htemp : "_temp".toList = ['_', 't', 'e', 'm', 'p'] := by decide
  rcases List.mem_cons.1 h with rfl | h
  · refine ⟨['o', 'l', 'd'], ?_⟩
    rw [String.toList_append, toList_key, List.append_assoc, hold]
  · refine ⟨['t', 'e', 'm', 'p'], ?_⟩
    rw [List.mem_singleton.1 h, String.toList_append, toList_key, List.append_assoc, htemp]

theorem legacy_ne_key {key : String} (h : key ∈ legacyKeys (n.key id)) : key ≠ n'.key id := by
  rintro rfl
  obtain ⟨cs, hcs⟩ := legacy_spec h
  rw [toList_key, List.append_cancel_left_eq] at hcs
  cases n <;> cases n' <;> simp [SetName.tail] at hcs

theorem legacy_ne_stagingKey {key : String} (h : key ∈ legacyKeys (n.key id)) :
    key ≠ stagingKey (n'.key id) u := by
  rintro rfl
  obtain ⟨cs, hcs⟩ := legacy_spec h
  rw [toList_stagingKey, List.append_cancel_left_eq] at hcs
  cases n <;> cases n' <;> simp [SetName.tail] at hcs

end Keys

/-! The commands of a population. -/

/-- The commands for the chunks; the first chunk is followed by the time to live. -/
def stagingCmds (stagingName : String) : Bool → List (List String) → List RedisCmd
  | _, [] => []
  | first, chunk :: chunks =>
    [.sadd stagingName chunk] ++ (if first then [.expire stagingName stagingTTL] else []) ++
      stagingCmds stagingName false chunks

/-- The commands for the names. -/
def populateCmds (stagingName : String) (names : List String) : List RedisCmd :=
  stagingCmds stagingName true ((chunks chunkSize names).filter (· ≠ []))

/-- The command was carried out. -/
def sent (ctx : Context) (cmd : RedisCmd) : BlocklistAct := ⟨.redis ctx cmd, .ok ()⟩

/-- The commands of a population. -/
def Populates (stagingName : String) (cmd : RedisCmd) : Prop :=
  (∃ members, cmd = .sadd stagingName members) ∨ cmd = .expire stagingName stagingTTL

section Cmds

variable {ctx : Context} {stagingName : String} {pipe : List RedisCmd} {l : List BlocklistAct}
  {r : Except BlocklistErr Unit}

theorem ends_exec (h : Ends (exec ctx pipe).run l (.ok ())) : l = pipe.map (sent ctx) := by
  induction pipe generalizing l with
  | nil => exact (ends_flow_pure h).1
  | cons cmd pipe ih =>
    unfold exec at h
    obtain ⟨l₁, l₂, first, rfl, hfirst, hrest⟩ := ends_attempt_bind h
    obtain ⟨l₃, l₄, rest, rfl, hpipe, hend⟩ := ends_attempt_bind hrest
    obtain rfl := ends_act hfirst
    cases first with
    | error e => cases (ends_throw hend).2
    | ok a =>
      cases rest with
      | error e => cases (ends_throw hend).2
      | ok b =>
        obtain ⟨rfl, -⟩ := ends_flow_pure hend
        rw [ih hpipe, List.append_nil]
        rfl

theorem within_exec {A : BlocklistOp → Prop} (h : ∀ cmd ∈ pipe, A (.redis ctx cmd)) :
    Within A (exec ctx pipe) := by
  induction pipe with
  | nil => exact within_pure
  | cons cmd pipe ih =>
    obtain ⟨hcmd, hpipe⟩ := List.forall_mem_cons.1 h
    unfold exec
    refine within_bind (within_attempt (within_act hcmd)) fun first =>
      within_bind (within_attempt (ih hpipe)) fun rest => ?_
    cases first with
    | error e => exact within_throw
    | ok a => cases rest with
      | error e => exact within_throw
      | ok b => exact within_pure

theorem ends_populateLoop {first : Bool} {cs : List (List String)}
    (h : Ends (populateLoop ctx stagingName first cs pipe).run l (.ok ())) :
    l = (pipe ++ stagingCmds stagingName first cs).map (sent ctx) := by
  induction cs generalizing first pipe l with
  | nil =>
    unfold populateLoop at h
    unfold stagingCmds
    split at h
    · rw [List.append_nil]
      exact ends_exec h
    · next hpipe =>
      rw [List.length_eq_zero_iff.1 (by omega : pipe.length = 0)]
      exact (ends_flow_pure h).1
  | cons chunk cs ih =>
    unfold populateLoop at h
    unfold stagingCmds
    simp only at h
    rw [← List.append_assoc, ← List.append_assoc]
    generalize (pipe ++ [.sadd stagingName chunk] ++ if first then [.expire stagingName stagingTTL]
      else []) = next at h ⊢
    split at h
    · obtain ⟨e, -, he⟩ | ⟨l₁, l₂, a, rfl, h₁, h₂⟩ := ends_flow_bind h
      · cases he
      · rw [ends_exec h₁, ih h₂, List.nil_append, List.map_append]
    · exact ih h

theorem within_populateLoop {A : BlocklistOp → Prop}
    (hA : ∀ cmd, Populates stagingName cmd → A (.redis ctx cmd)) {first : Bool}
    {cs : List (List String)} (hpipe : ∀ cmd ∈ pipe, Populates stagingName cmd) :
    Within A (populateLoop ctx stagingName first cs pipe) := by
  induction cs generalizing first pipe with
  | nil =>
    unfold populateLoop
    exact within_ite (within_exec fun cmd hcmd => hA cmd (hpipe cmd hcmd)) within_pure
  | cons chunk cs ih =>
    have hnext :
      ∀ cmd ∈ pipe ++ [.sadd stagingName chunk] ++
        if first then [.expire stagingName stagingTTL] else [],
        Populates stagingName cmd := by
      intro cmd hcmd
      rcases List.mem_append.1 hcmd with hcmd | hcmd
      · rcases List.mem_append.1 hcmd with hcmd | hcmd
        · exact hpipe cmd hcmd
        · exact .inl ⟨chunk, List.mem_singleton.1 hcmd⟩
      · split at hcmd
        · exact .inr (List.mem_singleton.1 hcmd)
        · cases hcmd
    unfold populateLoop
    refine within_ite (within_bind (within_exec fun cmd hcmd => hA cmd (hnext cmd hcmd)) fun _ =>
      ih ?_) (ih hnext)
    exact List.forall_mem_nil _

/-- **A population that succeeds has sent all its commands.** -/
theorem populate_sends {names : List String} (hnames : ∀ d ∈ names, '\n' ∉ d.toList)
    (hne : names ≠ [])
    (h : Ends (populateStaging ctx stagingName (join names '\n')).run l (.ok ())) :
    l = (populateCmds stagingName names).map (sent ctx) := by
  unfold populateStaging at h
  rw [split_join hne hnames] at h
  rw [ends_populateLoop h, List.nil_append]
  rfl

theorem within_populate {A : BlocklistOp → Prop} {data : String}
    (hA : ∀ cmd, Populates stagingName cmd → A (.redis ctx cmd)) :
    Within A (populateStaging ctx stagingName data) := by
  unfold populateStaging
  exact within_populateLoop hA (List.forall_mem_nil _)

end Cmds

/-- What a command leaves in a staging set. -/
def RedisCmd.stage (key : String) (members : Option (Finset String)) :
    RedisCmd → Option (Finset String)
  | .sadd k ms => if k = key then some (members.getD ∅ ∪ ms.toFinset) else members
  | .expire _ _ => members
  | .unlink keys => if key ∈ keys then none else members
  | .swap staging _ => if staging = key then none else members

/-- What an action leaves in a staging set. -/
def stage (key : String) (members : Option (Finset String)) (x : BlocklistAct) :
    Option (Finset String) :=
  if TookEffect x.2 then
    match x.1 with
    | .redis _ cmd => cmd.stage key members
    | _ => members
  else members

/-- The set at the key, with a time to live that began at `t₀` or later, is as the actions have left
it, unless that time may be over. -/
structure Staged (t₀ : ℕ) (key : String) (members : Option (Finset String)) (s : Stores) :
    Prop where
  lasts : ∀ x, s.redis key = some x → ∀ e ∈ x.expires, t₀ + stagingTTL ≤ e
  members : s.now < t₀ + stagingTTL → (s.redis key).map RedisSet.members = members

/-- The command is one for the staging set at the key, if it is for that key at all. -/
def Fits (key : String) (cmd : RedisCmd) : Prop :=
  (∀ ttl, cmd = .expire key ttl → ttl = stagingTTL) ∧ ∀ staging, cmd ≠ .swap staging key

section Staged

variable {t₀ grace : ℕ} {key : String} {members : Option (Finset String)} {s s' : Stores}
  {ctx : Context} {x : BlocklistAct}

theorem stage_cmds {first : Bool} {cs : List (List String)} :
    ((stagingCmds key first cs).map (sent ctx)).foldl (stage key) members =
      if cs = [] then members else some (members.getD ∅ ∪ cs.flatten.toFinset) := by
  induction cs generalizing first members with
  | nil => rfl
  | cons chunk cs ih =>
    have hhead : List.foldl (stage key) members
        (([RedisCmd.sadd key chunk] ++ if first then [RedisCmd.expire key stagingTTL]
          else []).map (sent ctx)) =
          some (members.getD ∅ ∪ chunk.toFinset) := by
      cases first <;> simp [sent, stage, RedisCmd.stage, TookEffect]
    unfold stagingCmds
    rw [List.map_append, List.foldl_append, hhead, ih, if_neg (List.cons_ne_nil _ _)]
    split
    · next hcs =>
      rw [hcs, List.flatten_cons, List.flatten_nil, List.append_nil]
    · rw [Option.getD_some, List.flatten_cons, List.toFinset_append, Finset.union_assoc]

/-- **A population leaves all the names in the staging set.** -/
theorem staged_cmds {names : List String} (hne : names ≠ []) :
    ((populateCmds key names).map (sent ctx)).foldl (stage key) none = some names.toFinset := by
  have hpos : 0 < chunkSize := by decide
  have hflat : (chunks chunkSize names).flatten = names := flatten_chunks hpos
  have hfilter : (chunks chunkSize names).filter (· ≠ []) = chunks chunkSize names :=
    List.filter_eq_self.2 fun c hc => decide_eq_true (mem_chunks hpos hc).1
  unfold populateCmds
  rw [hfilter, stage_cmds, if_neg (chunks_ne_nil hpos hne), hflat, Option.getD_none,
    Finset.empty_union]

theorem Staged.elapse (h : Staged t₀ key members s) (d : ℕ) :
    Staged t₀ key members (s.elapse d) where
  lasts := by
    intro x hx
    obtain ⟨hx, -⟩ := Option.filter_eq_some_iff.1 hx
    exact h.lasts x hx
  members := by
    intro hnow
    rw [elapse_now] at hnow
    rw [← h.members (by omega)]
    unfold Stores.elapse
    simp only
    cases hkey : s.redis key with
    | none => rfl
    | some x =>
      have hlive : ¬ x.Expired (s.now + d) := by
        rintro ⟨e, he, hle⟩
        have hlast := h.lasts x hkey e he
        omega
      have hkeep : (some x).filter (fun y : RedisSet => decide ¬ y.Expired (s.now + d)) = some x :=
        Option.filter_some_pos (decide_eq_true hlive)
      rw [hkeep]

/-- What one command does to the staging set. -/
theorem Staged.effect {redis : String → Option RedisSet} {now : ℕ} {cmd : RedisCmd}
    (hnow : t₀ ≤ now) (hfits : Fits key cmd)
    (hlasts : ∀ x, redis key = some x → ∀ e ∈ x.expires, t₀ + stagingTTL ≤ e) :
    (∀ x, cmd.effect now redis key = some x → ∀ e ∈ x.expires, t₀ + stagingTTL ≤ e) ∧
      (cmd.effect now redis key).map RedisSet.members = cmd.stage key
        ((redis key).map RedisSet.members) := by
  have hsame : ∀ x, redis key = some x → ∀ e ∈ x.expires, t₀ + stagingTTL ≤ e := hlasts
  cases cmd with
  -- an added member keeps the expiry of its set
  | sadd k ms =>
    unfold RedisCmd.effect RedisCmd.stage
    simp only
    by_cases hk : k = key
    · subst hk
      rw [Function.update_self, if_pos rfl]
      cases hkey : redis k with
      | none =>
        refine ⟨fun x hx e he => ?_, rfl⟩
        cases hx
        cases he
      | some y =>
        refine ⟨fun x hx e he => ?_, rfl⟩
        cases hx
        exact hlasts y hkey e he
    · rw [Function.update_of_ne (Ne.symm hk), if_neg hk]
      exact ⟨hsame, rfl⟩
  -- a new expiry is a whole TTL away
  | expire k ttl =>
    unfold RedisCmd.effect RedisCmd.stage
    simp only
    by_cases hk : k = key
    · subst hk
      obtain rfl := hfits.1 ttl rfl
      rw [Function.update_self, Option.map_map]
      refine ⟨fun x hx e he => ?_, rfl⟩
      obtain ⟨y, -, rfl⟩ := Option.map_eq_some_iff.1 hx
      obtain rfl := Option.some.inj he
      omega
    · rw [Function.update_of_ne (Ne.symm hk)]
      exact ⟨hsame, rfl⟩
  | unlink keys =>
    unfold RedisCmd.effect RedisCmd.stage
    simp only
    split
    · exact ⟨fun x hx => (nomatch hx), rfl⟩
    · exact ⟨hsame, rfl⟩
  -- the staging set is gone after the rename
  | swap staging live =>
    have hlive : key ≠ live := fun h => hfits.2 staging (by rw [h])
    unfold RedisCmd.effect RedisCmd.stage
    simp only
    by_cases hk : staging = key
    · subst hk
      rw [if_pos rfl]
      cases hkey : redis staging with
      | none =>
        simp only
        rw [hkey]
        exact ⟨fun x hx => (nomatch hx), rfl⟩
      | some y =>
        simp only
        rw [Function.update_of_ne hlive, Function.update_self]
        exact ⟨fun x hx => (nomatch hx), rfl⟩
    · rw [if_neg hk]
      cases hkey : redis staging with
      | none => exact ⟨hsame, rfl⟩
      | some y =>
        simp only
        rw [Function.update_of_ne hlive, Function.update_of_ne (Ne.symm hk)]
        exact ⟨hsame, rfl⟩

theorem Staged.next (h : Staged t₀ key members s) (hnow : t₀ ≤ s.now) (hx : Next grace s x s')
    (hfits : ∀ ctx cmd, x.1 = .redis ctx cmd → Fits key cmd) :
    Staged t₀ key (stage key members x) s' := by
  obtain ⟨d, c, -, rfl⟩ := hx
  have hs := h.elapse d
  have hredis := act_redis (s.elapse d) x
  unfold onRedis at hredis
  unfold stage
  by_cases htook : TookEffect x.2
  · rw [if_pos htook] at hredis ⊢
    cases hop : x.1 with
    | redis ctx cmd =>
      simp only [hop] at hredis ⊢
      have hlate : t₀ ≤ (s.elapse d).now := Nat.le_trans hnow (Nat.le_add_right _ _)
      obtain ⟨hlasts, hmembers⟩ := Staged.effect hlate (hfits ctx cmd hop) hs.lasts
      refine ⟨hredis ▸ hlasts, fun ht => ?_⟩
      rw [act_now] at ht
      rw [hredis, hmembers, hs.members ht]
    | _ =>
      simp only [hop] at hredis ⊢
      exact ⟨hredis ▸ hs.lasts, fun ht => hredis ▸ hs.members (by rwa [act_now] at ht)⟩
  · rw [if_neg htook] at hredis ⊢
    exact ⟨hredis ▸ hs.lasts, fun ht => hredis ▸ hs.members (by rwa [act_now] at ht)⟩

/-- A key that is not there. -/
theorem Staged.absent (h : s.redis key = none) : Staged t₀ key none s where
  lasts := by
    intro x hx
    rw [h] at hx
    cases hx
  members := by
    intro _
    rw [h]
    rfl

end Staged

end ModDNS.Blocklists
