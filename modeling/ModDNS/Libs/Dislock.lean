import Mathlib.Data.List.Basic
import Mathlib.Data.List.Nodup

/-!
# The distributed lock

`TryLock` sets the key of a lock to a fresh token, if there is none, and `Unlock` deletes the key,
if it still has the token of this lock. Redis carries out either of them in one step. A command can
fail before it is carried out, or lose its reply after that.

* `Guarded`: a lock that is held has its token in Redis.
* `lock_safety`: at most one lock is held, no release touches the key of another lock, and a key
  that has been released can be set again.
-/

namespace ModDNS.Libs.Dislock

/-- The value of the key in Redis; without an expiry it stays. -/
structure Key where
  token : String
  expireAt : Option ℕ
  deriving DecidableEq

/-- A `Lock` that `TryLock` has returned: `done` is its `sync.Once`, and `err` the error of the
first `Unlock`. When its key expires is known to Redis alone. -/
structure Lock where
  token : String
  expireAt : Option ℕ
  done : Bool := false
  err : Bool := false
  deriving DecidableEq

/-- The clock of Redis, in milliseconds, and its key; the tokens that have been drawn, and the locks
that have been returned to any of the instances. -/
structure State where
  now : ℕ
  stored : Option Key := none
  drawn : List String := []
  locks : List Lock := []

/-- How a command ends: with its reply, with an error after it has been carried out, or with one
before that. -/
inductive Reply where
  | ok
  | lost
  | failed
  deriving DecidableEq

/-- What `TryLock` returns: a lock, `ErrNotAcquired`, or another error. -/
inductive Outcome where
  | acquired
  | notAcquired
  | err
  deriving DecidableEq

section Code

def Unexpired (now : ℕ) (expireAt : Option ℕ) : Prop := ∀ t ∈ expireAt, now < t

instance (now : ℕ) (expireAt : Option ℕ) : Decidable (Unexpired now expireAt) := by
  unfold Unexpired
  infer_instance

variable (s : State)

/-- The key, unless it has expired. -/
def State.live : Option Key := s.stored.filter fun k => Unexpired s.now k.expireAt

/-- The expiry of a key that is set now; without a time to live there is none. -/
def State.deadline (ttl : ℕ) : Option ℕ := if ttl = 0 then none else some (s.now + ttl)

/-- `TryLock`, with the token that has been drawn for it. -/
def State.tryLock (token : String) (ttl : ℕ) (reply : Reply) : Outcome × State :=
  let s := { s with drawn := token :: s.drawn }
  match reply with
  | .failed => (.err, s)
  | reply =>
    let acquired := s.live = none
    let s := if acquired then { s with stored := some ⟨token, s.deadline ttl⟩ } else s
    if reply = .lost then (.err, s)
    else if acquired then
      (.acquired, { s with locks := s.locks ++ [{ token, expireAt := s.deadline ttl }] })
    else (.notAcquired, s)

/-- `releaseScript`. -/
def State.release (token : String) : State :=
  if s.live.map (·.token) = some token then { s with stored := none } else s

/-- `Unlock`, of one of the locks: the script runs once at most. -/
def State.unlock (n : ℕ) (reply : Reply) : State :=
  match s.locks[n]? with
  | none => s
  | some l =>
    if l.done then s
    else
      let s := if reply = .failed then s else s.release l.token
      { s with locks := s.locks.set n { l with done := true, err := reply ≠ .ok } }

/-- A step of one of the instances, or of the clock. -/
inductive Event where
  | tick (d : ℕ)
  | tryLock (token : String) (ttl : ℕ) (reply : Reply)
  | unlock (n : ℕ) (reply : Reply)
  deriving DecidableEq

/-- Tokens are unique. -/
def Event.Allowed : Event → Prop
  | .tryLock token _ _ => token ∉ s.drawn
  | _ => True

instance (e : Event) : Decidable (e.Allowed s) := by
  cases e <;> unfold Event.Allowed <;> infer_instance

def Event.run : Event → State
  | .tick d => { s with now := s.now + d }
  | .tryLock token ttl reply => (s.tryLock token ttl reply).2
  | .unlock n reply => s.unlock n reply

/-- The states after the steps of any number of instances, from one without a key. -/
inductive Reachable : State → Prop
  | init (now : ℕ) : Reachable { now }
  | step {s : State} {e : Event} (h : Reachable s) (he : e.Allowed s) : Reachable (e.run s)

/-- A lock is held: its `Unlock` has not been called, and it has not expired. -/
structure Lock.Held (l : Lock) (now : ℕ) : Prop where
  undone : l.done = false
  unexpired : Unexpired now l.expireAt

instance (l : Lock) (now : ℕ) : Decidable (l.Held now) :=
  decidable_of_iff (l.done = false ∧ Unexpired now l.expireAt)
  ⟨fun h => ⟨h.1, h.2⟩, fun h => ⟨h.1, h.2⟩⟩

end Code

section Invariant

variable {s : State}

/-- **Every lock that is held has its token in Redis**, and no two locks have the same token. -/
structure Guarded (s : State) : Prop where
  tokens : (s.locks.map (·.token)).Nodup
  drawn : ∀ l ∈ s.locks, l.token ∈ s.drawn
  stored : ∀ k ∈ s.stored, k.token ∈ s.drawn
  held : ∀ l ∈ s.locks, l.Held s.now → s.live = some ⟨l.token, l.expireAt⟩

theorem unexpired_mono {now now' : ℕ} {expireAt : Option ℕ} (h : Unexpired now' expireAt)
    (hle : now ≤ now') :
    Unexpired now expireAt := fun t ht => Nat.lt_of_le_of_lt hle (h t ht)

theorem live_eq_some {k : Key} :
    s.live = some k ↔ s.stored = some k ∧ Unexpired s.now k.expireAt := by
  unfold State.live
  rw [Option.filter_eq_some_iff]
  simp

theorem unexpired_deadline (s : State) (ttl : ℕ) : Unexpired s.now (s.deadline ttl) := by
  intro t ht
  unfold State.deadline at ht
  split at ht
  · cases ht
  · cases ht
    omega

theorem guarded_tick (h : Guarded s) (d : ℕ) : Guarded { s with now := s.now + d } := by
  refine ⟨h.tokens, h.drawn, h.stored, fun l hl hheld => ?_⟩
  have hbefore := h.held l hl ⟨hheld.undone, unexpired_mono hheld.unexpired (Nat.le_add_right _ _)⟩
  exact live_eq_some.2 ⟨(live_eq_some.1 hbefore).1, hheld.unexpired⟩

theorem guarded_drawn (h : Guarded s) (token : String) :
    Guarded { s with drawn := token :: s.drawn } :=
  ⟨h.tokens, fun l hl => List.mem_cons_of_mem _ (h.drawn l hl),
    fun k hk => List.mem_cons_of_mem _ (h.stored k hk), h.held⟩

/-- What `TryLock` can do: nothing but draw a token; or set the key, with the lock or without it. -/
theorem tryLock_cases (s : State) (token : String) (ttl : ℕ) (reply : Reply) :
    (s.tryLock token ttl reply).2 = { s with drawn := token :: s.drawn } ∨
      (s.live = none ∧ (s.tryLock token ttl reply).2 =
        { s with drawn := token :: s.drawn, stored := some ⟨token, s.deadline ttl⟩ }) ∨
      (s.live = none ∧ (s.tryLock token ttl reply).2 =
        { s with
          drawn := token :: s.drawn
          stored := some ⟨token, s.deadline ttl⟩
          locks := s.locks ++ [{ token, expireAt := s.deadline ttl }] }) := by
  by_cases hlive : s.live = none
  · have hlive' : ({ s with drawn := token :: s.drawn } : State).live = none := hlive
    cases reply with
    | failed => exact .inl rfl
    | lost =>
      refine .inr (.inl ⟨hlive, ?_⟩)
      unfold State.tryLock
      dsimp only
      rw [if_pos hlive', if_pos rfl]
      rfl
    | ok =>
      refine .inr (.inr ⟨hlive, ?_⟩)
      unfold State.tryLock
      dsimp only
      rw [if_pos hlive', if_pos hlive', if_neg nofun]
      rfl
  · have hlive' : ¬ ({ s with drawn := token :: s.drawn } : State).live = none := hlive
    refine .inl ?_
    cases reply with
    | failed => rfl
    | lost =>
      unfold State.tryLock
      dsimp only
      rw [if_neg hlive', if_pos rfl]
    | ok =>
      unfold State.tryLock
      dsimp only
      rw [if_neg hlive', if_neg hlive', if_neg nofun]

/-- Without a key no lock is held. -/
theorem Guarded.unheld (h : Guarded s) (hlive : s.live = none) {l : Lock} (hl : l ∈ s.locks) :
    ¬ l.Held s.now := by
  intro hheld
  rw [h.held l hl hheld] at hlive
  cases hlive

theorem guarded_tryLock (h : Guarded s) {token : String} (hfresh : token ∉ s.drawn) (ttl : ℕ)
    (reply : Reply) :
    Guarded (s.tryLock token ttl reply).2 := by
  have hdrawn : ∀ l ∈ s.locks, l.token ∈ token :: s.drawn := fun l hl =>
    List.mem_cons_of_mem _ (h.drawn l hl)
  have hset : ∀ k ∈ some (⟨token, s.deadline ttl⟩ : Key), k.token ∈ token :: s.drawn := by
    intro k hk
    cases hk
    exact List.mem_cons_self ..
  rcases tryLock_cases s token ttl reply with heq | ⟨hlive, heq⟩ | ⟨hlive, heq⟩
  · rw [heq]
    exact guarded_drawn h token
  · rw [heq]
    exact ⟨h.tokens, hdrawn, hset, fun l hl hheld => absurd hheld (h.unheld hlive hl)⟩
  · rw [heq]
    refine ⟨?_, ?_, hset, ?_⟩
    · show ((s.locks ++ [({ token, expireAt := s.deadline ttl } : Lock)]).map (·.token)).Nodup
      rw [List.map_append]
      refine List.nodup_append.2 ⟨h.tokens, List.nodup_singleton _, ?_⟩
      rintro t ht t' ht' rfl
      obtain ⟨l, hl, rfl⟩ := List.mem_map.1 ht
      have hsame : l.token = token := List.mem_singleton.1 ht'
      exact hfresh (hsame ▸ h.drawn l hl)
    · intro l hl
      rcases List.mem_append.1 hl with hl | hl
      · exact hdrawn l hl
      · rw [List.mem_singleton.1 hl]
        exact List.mem_cons_self ..
    · intro l hl hheld
      rcases List.mem_append.1 hl with hl | hl
      · exact absurd hheld (h.unheld hlive hl)
      · rw [List.mem_singleton.1 hl]
        exact live_eq_some.2 ⟨rfl, unexpired_deadline s ttl⟩

/-- The script deletes the key of its token, and no other. -/
theorem release_cases (s : State) (token : String) : s.release token = s ∨
    ((s.release token) = { s with stored := none } ∧ s.live.map (·.token) = some token) := by
  unfold State.release
  split
  · next h => exact .inr ⟨rfl, h⟩
  · exact .inl rfl

/-- A second `Unlock` does nothing. -/
theorem unlock_done {n : ℕ} (h : ∀ l, s.locks[n]? = some l → l.done = true) (reply : Reply) :
    s.unlock n reply = s := by
  unfold State.unlock
  cases hl : s.locks[n]? with
  | none => rfl
  | some l => exact if_pos (h l hl)

/-- What the first `Unlock` of a lock can do: it marks the lock, and deletes its key or not. -/
theorem unlock_first {n : ℕ} {l : Lock} (hl : s.locks[n]? = some l) (hdone : l.done = false)
    (reply : Reply) :
    ∃ l', l'.token = l.token ∧ l'.done = true ∧
    (s.unlock n reply = { s with locks := s.locks.set n l' } ∨
      (s.unlock n reply = { s with stored := none, locks := s.locks.set n l' } ∧
        s.live.map (·.token) = some l.token)) := by
  refine ⟨{ l with done := true, err := reply ≠ .ok }, rfl, rfl, ?_⟩
  unfold State.unlock
  rw [hl]
  dsimp only
  rw [hdone, if_neg nofun]
  by_cases hfailed : reply = .failed
  · rw [if_pos hfailed]
    exact .inl rfl
  · rw [if_neg hfailed]
    rcases release_cases s l.token with heq | ⟨heq, hkey⟩
    · rw [heq]
      exact .inl rfl
    · rw [heq]
      exact .inr ⟨rfl, hkey⟩

/-- The lock of an `Unlock` has been unlocked before, or it is now. -/
theorem unlock_cases (s : State) (n : ℕ) : (∀ l, s.locks[n]? = some l → l.done = true) ∨
    ∃ l, s.locks[n]? = some l ∧ l.done = false := by
  cases hl : s.locks[n]? with
  | none => exact .inl nofun
  | some l =>
    cases hdone : l.done with
    | true =>
      refine .inl fun l' hl' => ?_
      cases hl'
      exact hdone
    | false => exact .inr ⟨l, rfl, hdone⟩

theorem guarded_unlock (h : Guarded s) (n : ℕ) (reply : Reply) : Guarded (s.unlock n reply) := by
  rcases unlock_cases s n with hdone | ⟨l, hl, hundone⟩
  · rw [unlock_done hdone]
    exact h
  obtain ⟨l', htoken, hdone, hstep⟩ := unlock_first hl hundone reply
  have hlen : n < s.locks.length := (List.getElem?_eq_some_iff.1 hl).1
  have htokens : (s.locks.set n l').map (·.token) = s.locks.map (·.token) := by
    refine List.ext_getElem? fun m => ?_
    rw [List.getElem?_map, List.getElem?_map, List.getElem?_set]
    split
    · next hm =>
      subst hm
      rw [hl]
      exact congrArg some htoken
    · rfl
  have hnodup : ((s.locks.set n l').map (·.token)).Nodup := htokens ▸ h.tokens
  have hdrawn : ∀ l'' ∈ s.locks.set n l', l''.token ∈ s.drawn := by
    intro l'' hl''
    rcases List.mem_or_eq_of_mem_set hl'' with hmem | rfl
    · exact h.drawn l'' hmem
    · rw [htoken]
      exact h.drawn l (List.mem_of_getElem? hl)
  -- the lock that is marked is not held, and the others have other tokens
  have hother : ∀ l'' ∈ s.locks.set n l', l''.Held s.now → l'' ∈ s.locks ∧ l''.token ≠ l.token := by
    intro l'' hl'' hheld
    have hne : l'' ≠ l' := by
      rintro rfl
      rw [hheld.undone] at hdone
      cases hdone
    refine ⟨(List.mem_or_eq_of_mem_set hl'').resolve_right hne, fun hsame => hne ?_⟩
    refine List.inj_on_of_nodup_map hnodup hl'' (List.mem_set hlen l') ?_
    exact hsame.trans htoken.symm
  rcases hstep with heq | ⟨heq, hkey⟩
  · rw [heq]
    exact ⟨hnodup, hdrawn, h.stored, fun l'' hl'' hheld => h.held l''
      (hother l'' hl'' hheld).1 hheld⟩
  · rw [heq]
    refine ⟨hnodup, hdrawn, nofun, fun l'' hl'' hheld => ?_⟩
    obtain ⟨hmem, hne⟩ := hother l'' hl'' hheld
    rw [h.held l'' hmem hheld] at hkey
    exact absurd (Option.some.inj hkey) hne

/-- **It holds in every state.** -/
theorem guarded_reachable (h : Reachable s) : Guarded s := by
  induction h with
  | init now => exact ⟨List.nodup_nil, List.forall_mem_nil _, nofun, List.forall_mem_nil _⟩
  | @step s e _ he ih =>
    cases e with
    | tick d => exact guarded_tick ih d
    | tryLock token ttl reply => exact guarded_tryLock ih he ttl reply
    | unlock n reply => exact guarded_unlock ih n reply

end Invariant

section Safety

variable {s : State}

theorem unlock_again (s : State) (n : ℕ) (reply reply' : Reply) :
    (s.unlock n reply).unlock n reply' = s.unlock n reply := by
  rcases unlock_cases s n with hdone | ⟨l, hl, hundone⟩
  · rw [unlock_done hdone, unlock_done hdone]
  · obtain ⟨l', -, hdone, hstep⟩ := unlock_first hl hundone reply
    refine unlock_done (fun l'' hl'' => ?_) reply'
    have hlocks : (s.unlock n reply).locks = s.locks.set n l' := by
      rcases hstep with heq | ⟨heq, -⟩ <;> rw [heq]
    rw [hlocks, List.getElem?_set_self (List.getElem?_eq_some_iff.1 hl).1] at hl''
    cases hl''
    exact hdone

/-- A key of another lock is not deleted by `Unlock`. -/
theorem unlock_keeps {n : ℕ} {k : Key} (hk : s.live = some k)
    (hother : ∀ l, s.locks[n]? = some l → l.token ≠ k.token) (reply : Reply) :
    (s.unlock n reply).live = some k := by
  rcases unlock_cases s n with hdone | ⟨l, hl, hundone⟩
  · rw [unlock_done hdone]
    exact hk
  · obtain ⟨l', -, -, heq | ⟨-, hkey⟩⟩ := unlock_first hl hundone reply
    · rw [heq]
      exact hk
    · rw [hk] at hkey
      exact absurd (Option.some.inj hkey).symm (hother l hl)

/-- The holder releases the key. -/
theorem unlock_releases (h : Guarded s) {n : ℕ} {l : Lock} {reply : Reply}
    (hl : s.locks[n]? = some l) (hheld : l.Held s.now) (hreply : reply ≠ .failed) :
    (s.unlock n reply).live = none := by
  have hkey := h.held l (List.mem_of_getElem? hl) hheld
  have hrelease : s.release l.token = { s with stored := none } := by
    unfold State.release
    rw [hkey]
    exact if_pos rfl
  unfold State.unlock
  rw [hl]
  dsimp only
  rw [hheld.undone, if_neg nofun, if_neg hreply, hrelease]
  rfl

/-- A key that is not there can be set. -/
theorem tryLock_acquires (hlive : s.live = none) (token : String) (ttl : ℕ) :
    (s.tryLock token ttl .ok).1 = .acquired := by
  have hlive' : ({ s with drawn := token :: s.drawn } : State).live = none := hlive
  unfold State.tryLock
  dsimp only
  rw [if_pos hlive', if_pos hlive', if_neg nofun]

/-- **Safety of the lock.** In every state that any number of instances can reach: at most one lock
is held; an `Unlock`, early, late or repeated, leaves a key with a token that is not its own as it
is, and a second one changes nothing; and after the `Unlock` of a lock that is held, unless Redis
has not carried it out, the next `TryLock` acquires it. -/
theorem lock_safety (h : Reachable s) :
    (∀ (n m : ℕ) (l l' : Lock), s.locks[n]? = some l → s.locks[m]? = some l' → l.Held s.now →
      l'.Held s.now → n = m) ∧
      (∀ (n : ℕ) reply k, s.live = some k → (∀ l, s.locks[n]? = some l → l.token ≠ k.token) →
        (s.unlock n reply).live = some k) ∧
      (∀ n reply reply', (s.unlock n reply).unlock n reply' = s.unlock n reply) ∧
      ∀ (n : ℕ) (l : Lock) reply token ttl, s.locks[n]? = some l → l.Held s.now → reply ≠ .failed →
        ((s.unlock n reply).tryLock token ttl .ok).1 = .acquired := by
  have hguarded := guarded_reachable h
  refine ⟨fun n m l l' hl hl' hheld hheld' => ?_, fun n reply k hk hother =>
    unlock_keeps hk hother reply,
    fun n reply reply' => ?_, fun n l reply token ttl hl hheld hreply => ?_⟩
  -- two locks that are held would be the one key, and tokens are distinct
  · have hkey := hguarded.held l (List.mem_of_getElem? hl) hheld
    rw [hguarded.held l' (List.mem_of_getElem? hl') hheld'] at hkey
    have hsame : l'.token = l.token := congrArg Key.token (Option.some.inj hkey)
    obtain ⟨hn, rfl⟩ := List.getElem?_eq_some_iff.1 hl
    obtain ⟨hm, rfl⟩ := List.getElem?_eq_some_iff.1 hl'
    have hn' : n < (s.locks.map (·.token)).length := by rwa [List.length_map]
    have hm' : m < (s.locks.map (·.token)).length := by rwa [List.length_map]
    have htokens : (s.locks.map (·.token))[n] = (s.locks.map (·.token))[m] := by
      rw [List.getElem_map, List.getElem_map]
      exact hsame.symm
    exact hguarded.tokens.getElem_inj_iff.1 htokens
  · exact unlock_again s n reply reply'
  · exact tryLock_acquires (unlock_releases hguarded hl hheld hreply) token ttl

/-- The steps of a holder that is late: its lock expires, and another instance acquires the lock. -/
def lateSteps : List Event := [.tryLock "a" 5 .ok, .tick 5, .tryLock "b" 5 .ok]

def lateState : State := lateSteps.foldl Event.run { now := 0 }

theorem lateState_reachable : Reachable lateState := by
  have h₁ : Reachable (Event.run { now := 0 } (.tryLock "a" 5 .ok)) := .step (.init 0) (by decide)
  have h₂ : Reachable (Event.run (Event.run { now := 0 } (.tryLock "a" 5 .ok)) (.tick 5)) :=
    .step h₁ trivial
  exact .step (e := .tryLock "b" 5 .ok) h₂ (by decide)

theorem lock_safety_late : (lateState.unlock 0 .ok).live = some ⟨"b", some 10⟩ := by
  obtain ⟨-, hkeeps, -, -⟩ := lock_safety lateState_reachable
  refine hkeeps 0 .ok _ (by decide) fun l hl => ?_
  cases hl
  decide

end Safety

end ModDNS.Libs.Dislock
