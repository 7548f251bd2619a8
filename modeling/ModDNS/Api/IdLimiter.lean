import Mathlib.Data.Int.Notation
import Mathlib.Data.List.Nodup
import Mathlib.Data.List.Perm.Subperm
import Mathlib.Tactic.Choose
import ModDNS.Conc.Meets

/-!
# Limits on what an account may ask for

A request counts itself and then reads the counter: two commands, with those of others in between.
Whoever counts as the first also gives the counter its expiry, by a third. Time passes before any
command, and a command may fail, carried out or not.

* `keys_apart`: the three limits.
* `limited`: of the requests that read the counter they are counted in, at most `Max` are admitted,
  and none is refused before more than `Max` are counted.
* `counted_before`: a request whose counter expires before it asks is admitted on top of them, and
  so is one that cannot read it.
* `locked_out`: a counter that has got no expiry never goes away.
-/

namespace ModDNS.Api.IdLimiter

open Conc

/-- `utils.IDLimiter`. The expiry is in seconds. -/
structure IDLimiter where
  id : String
  label : String
  max : ℤ
  exp : ℤ

def IDLimiter.key (l : IDLimiter) : String := l.label ++ ":" ++ l.id

section Callers

def queryLogsRateLimitMax : ℤ := 120

def queryLogsRateLimitWindow : ℤ := 60

def queryLogTopMissLimit : ℤ := 40

def queryLogTopMissWindow : ℤ := 60

def statisticsMissLimit : ℤ := 60

def statisticsMissWindow : ℤ := 60

/-- What `GetProfileQueryLogs` asks. -/
def queryLogsLimiter (accountId : String) : IDLimiter :=
  ⟨accountId ++ ":query_logs", "rate_limits", queryLogsRateLimitMax, queryLogsRateLimitWindow⟩

/-- What `loadTop` asks when the list is not cached. -/
def queryLogTopLimiter (accountId : String) : IDLimiter :=
  ⟨accountId ++ ":query_logs_top", "rate_limits", queryLogTopMissLimit, queryLogTopMissWindow⟩

/-- What the miss guard of `GetStatistics` asks. -/
def statisticsLimiter (accountId : String) : IDLimiter :=
  ⟨accountId ++ ":statistics", "rate_limits", statisticsMissLimit, statisticsMissWindow⟩

theorem append_ne {a b s t : String} (h : s.toList.reverse.take 3 ≠ t.toList.reverse.take 3)
    (hs : 3 ≤ s.toList.length) (ht : 3 ≤ t.toList.length) : a ++ s ≠ b ++ t := by
  intro heq
  have hrev := congrArg (fun x : String => x.toList.reverse.take 3) heq
  simp only [String.toList_append, List.reverse_append] at hrev
  rw [List.take_append_of_le_length (by simpa using hs),
    List.take_append_of_le_length (by simpa using ht)] at hrev
  exact h hrev

/-- The three count apart, whichever the accounts. -/
theorem keys_apart (a b : String) : (queryLogsLimiter a).key ≠ (queryLogTopLimiter b).key ∧
    (queryLogsLimiter a).key ≠ (statisticsLimiter b).key ∧
      (queryLogTopLimiter a).key ≠ (statisticsLimiter b).key := by
  have hkey : ∀ l : IDLimiter, ∀ id suffix : String, l.id = id ++ suffix →
      l.key = (l.label ++ ":" ++ id) ++ suffix := by
    intro l id suffix h
    rw [IDLimiter.key, h, ← String.append_assoc]
  rw [hkey (queryLogsLimiter a) a ":query_logs" rfl,
    hkey (queryLogTopLimiter b) b ":query_logs_top" rfl,
    hkey (queryLogTopLimiter a) a ":query_logs_top" rfl,
    hkey (statisticsLimiter b) b ":statistics" rfl]
  exact ⟨append_ne (by decide) (by decide) (by decide),
    append_ne (by decide) (by decide) (by decide),
    append_ne (by decide) (by decide) (by decide)⟩

end Callers

section Redis

/-- What is under a key. `window` tells the counters that are under one key, one after the other,
apart. -/
structure Counter where
  value : ℕ
  expireAt : Option ℕ
  window : ℕ

/-- `created` counters have been created so far. -/
structure LimiterState where
  now : ℕ
  created : ℕ
  store : String → Option Counter

/-- The counter has not expired. -/
def Counter.alive (c : Counter) (now : ℕ) : Bool :=
  match c.expireAt with
  | none => true
  | some t => decide (now < t)

/-- The counter that is under the key now. -/
def LimiterState.counter (s : LimiterState) (key : String) : Option Counter :=
  (s.store key).filter fun c => c.alive s.now

def LimiterState.put (s : LimiterState) (key : String) (c : Counter) : LimiterState :=
  { s with store := Function.update s.store key (some c) }

/-- `INCR` creates a counter that has no expiry. -/
def LimiterState.incr (s : LimiterState) (key : String) : ℕ × LimiterState :=
  match s.counter key with
  | some c => (c.value + 1, s.put key { c with value := c.value + 1 })
  | none => (1, { s.put key ⟨1, none, s.created⟩ with created := s.created + 1 })

def LimiterState.expire (s : LimiterState) (key : String) (ttl : ℕ) : ℕ × LimiterState :=
  match s.counter key with
  | some c => (1, s.put key { c with expireAt := some (s.now + ttl) })
  | none => (0, s)

/-- `GET`: an error, when there is no such key. -/
def LimiterState.get (s : LimiterState) (key : String) : Except Unit ℕ :=
  match s.counter key with
  | some c => .ok c.value
  | none => .error ()

inductive LimiterOp where
  | incr (key : String)
  | expire (key : String) (ttl : ℕ)
  | get (key : String)
  deriving DecidableEq

def LimiterOp.key : LimiterOp → String
  | .incr key => key
  | .expire key _ => key
  | .get key => key

/-- How a command is answered; and, which the caller does not see, whether it has been carried out,
and which counter is under its key then. -/
structure Reply where
  answer : Except Unit ℕ
  carried : Bool
  window : Option ℕ

abbrev LimiterSig : Sig where
  Op := LimiterOp
  Res _ := Reply

/-- What a command does. -/
def LimiterOp.act (s : LimiterState) : LimiterOp → Except Unit ℕ × LimiterState
  | .incr key => (.ok (s.incr key).1, (s.incr key).2)
  | .expire key ttl => (.ok (s.expire key ttl).1, (s.expire key ttl).2)
  | .get key => (s.get key, s)

/-- A command is answered, or its answer is lost, or it is lost itself. -/
inductive Delivery where
  | answered
  | answerLost
  | lost

/-- The environment chooses how much time passes before the command, and what becomes of it. -/
def limiterHandler {ι : Type} : Handler LimiterSig ι LimiterState (ℕ × Delivery) :=
  fun _ o choice s =>
  let s : LimiterState := { s with now := s.now + choice.1 }
  let done := o.act s
  match choice.2 with
  | .answered => some (⟨done.1, true, (done.2.counter o.key).map Counter.window⟩, done.2)
  | .answerLost => some (⟨.error (), true, (done.2.counter o.key).map Counter.window⟩, done.2)
  | .lost => some (⟨.error (), false, (s.counter o.key).map Counter.window⟩, s)

end Redis

section Programs

abbrev step (o : LimiterOp) : Prog LimiterSig Reply := Prog.op (S := LimiterSig) o

/-- `RedisCache.Incr`: only the first one sets the expiry. -/
def incr (key : String) (expiration : ℤ) : Prog LimiterSig (Except Unit ℕ) := do
  let incrCmd : Reply ← step (.incr key)
  match incrCmd.answer with
  | .error e => return .error e
  | .ok val =>
    if 0 < expiration ∧ val = 1 then
      let expireCmd : Reply ← step (.expire key expiration.toNat)
      match expireCmd.answer with
      | .error e => return .error e
      | .ok _ => return .ok val
    else return .ok val

def tick (l : IDLimiter) : Prog LimiterSig (Except Unit Unit) := do
  match ← incr l.key l.exp with
  | .error e => return .error e
  | .ok _ => return .ok ()

/-- A counter that cannot be read counts as 0. -/
def Reply.failedAttempts (r : Reply) : ℕ :=
  match r.answer with
  | .error _ => 0
  | .ok n => n

def isAllowed (l : IDLimiter) : Prog LimiterSig Bool := do
  let r : Reply ← step (.get l.key)
  if l.max < r.failedAttempts then return false else return true

/-- Whether a request is admitted; it is when its tick fails. -/
def request (l : IDLimiter) : Prog LimiterSig Bool := do
  match ← tick l with
  | .error _ => return true
  | .ok _ => isAllowed l

abbrev LimiterPool (ι : Type) := Pool LimiterSig ι LimiterState Bool

/-- Any number of requests, of any accounts. -/
def startRequests {ι : Type} (jobs : ι → IDLimiter) (now : ℕ) : LimiterPool ι :=
  ⟨⟨now, 0, fun _ => none⟩, fun i => request (jobs i)⟩

end Programs

section Histories

variable {ι : Type}

abbrev LimiterEvent (ι : Type) := Event LimiterSig ι

/-- The window that the step counts in. -/
def countedIn : LimiterEvent ι → Option ℕ
  | ⟨_, .incr _, (r : Reply)⟩ => if r.carried then r.window else none
  | _ => none

/-- How many are counted in the window. -/
def ticksIn (es : List (LimiterEvent ι)) (w : ℕ) : ℕ := es.countP fun e => countedIn e = some w

variable [DecidableEq ι]

/-- The window in which the last command of the request was answered. -/
def lastWindow (es : List (LimiterEvent ι)) (i : ι) : Option ℕ :=
  (trace i es).getLast?.bind fun a => (a.2 : Reply).window

/-- The request has been let through in the window. -/
def AdmittedIn (es : List (LimiterEvent ι)) (Q : LimiterPool ι) (w : ℕ) (i : ι) : Prop :=
  (Q.prog i).result = some true ∧ lastWindow es i = some w

/-- At most `Max` are let through in any window. -/
def Bounded (jobs : ι → IDLimiter) (es : List (LimiterEvent ι)) (Q : LimiterPool ι) : Prop :=
  ∀ l w, ∀ calls : List ι, calls.Nodup → (∀ i ∈ calls, jobs i = l ∧ AdmittedIn es Q w i) →
    calls.length ≤ l.max.toNat

/-- The request has read the counter of the window, and that is the one it is counted in. -/
def Checked (jobs : ι → IDLimiter) (es : List (LimiterEvent ι)) (w : ℕ) (i : ι) : Prop :=
  (∃ n : ℕ, (⟨i, .incr (jobs i).key, (⟨.ok n, true, some w⟩ : Reply)⟩ : LimiterEvent ι) ∈ es) ∧
    ∃ v : ℕ, (⟨i, .get (jobs i).key, (⟨.ok v, true, some w⟩ : Reply)⟩ : LimiterEvent ι) ∈ es

/-- A command of the request has failed, or its counter had expired when it asked. -/
def Slipped (jobs : ι → IDLimiter) (es : List (LimiterEvent ι)) (i : ι) : Prop :=
  (∃ e ∈ es, e.who = i ∧ (e.res : Reply).answer = .error ()) ∨
    ∃ w w' n v : ℕ, w ≠ w' ∧
      (⟨i, .incr (jobs i).key, (⟨.ok n, true, some w⟩ : Reply)⟩ : LimiterEvent ι) ∈ es ∧
      (⟨i, .get (jobs i).key, (⟨.ok v, true, some w'⟩ : Reply)⟩ : LimiterEvent ι) ∈ es

end Histories

section Books

variable {ι : Type} {s s' : LimiterState} {es : List (LimiterEvent ι)} {e : LimiterEvent ι}

theorem counter_iff {key : String} {c : Counter} :
    s.counter key = some c ↔ s.store key = some c ∧ c.alive s.now = true :=
      Option.filter_eq_some_iff

theorem counter_store {key : String} {c : Counter} (h : s.counter key = some c) :
    s.store key = some c :=
  (counter_iff.1 h).1

theorem counter_put {key : String} {c : Counter} (h : c.alive s.now = true) :
    (s.put key c).counter key = some c :=
  counter_iff.2 ⟨Function.update_self .., h⟩

/-- The accounts: each counter has its own window, and its value is how many are counted in it. -/
structure Books (es : List (LimiterEvent ι)) (s : LimiterState) : Prop where
  created : ∀ key c, s.store key = some c → c.window < s.created
  apart : ∀ key key' c c', s.store key = some c → s.store key' = some c' →
    c.window = c'.window → key = key'
  past : ∀ e ∈ es, ∀ w, countedIn e = some w → w < s.created
  counted : ∀ key c, s.store key = some c → c.value = ticksIn es c.window

theorem ticksIn_snoc (w : ℕ) :
    ticksIn (es ++ [e]) w = ticksIn es w + if countedIn e = some w then 1 else 0 := by
  unfold ticksIn
  rw [List.countP_append, List.countP_singleton]
  simp only [decide_eq_true_eq]

theorem ticksIn_mono (es es' : List (LimiterEvent ι)) (w : ℕ) :
    ticksIn es w ≤ ticksIn (es ++ es') w := by
  unfold ticksIn
  rw [List.countP_append]
  exact Nat.le_add_right _ _

/-- A step that counts nothing, and leaves every counter its window and its value. -/
theorem Books.keep (h : Books es s) (hcount : countedIn e = none)
    (hcreated : s'.created = s.created)
    (hstore : ∀ key c', s'.store key = some c' → ∃ c, s.store key = some c ∧ c'.window = c.window ∧
      c'.value = c.value) :
    Books (es ++ [e]) s' where
  created key c' hc' := by
    obtain ⟨c, hc, hw, -⟩ := hstore key c' hc'
    rw [hw, hcreated]
    exact h.created key c hc
  apart key key' c₁ c₂ h₁ h₂ hsame := by
    obtain ⟨d₁, hd₁, hw₁, -⟩ := hstore key c₁ h₁
    obtain ⟨d₂, hd₂, hw₂, -⟩ := hstore key' c₂ h₂
    exact h.apart key key' d₁ d₂ hd₁ hd₂ (by rw [← hw₁, ← hw₂, hsame])
  past f hf w hw := by
    rw [hcreated]
    rcases List.mem_append.1 hf with hf | hf
    · exact h.past f hf w hw
    · cases List.mem_singleton.1 hf
      rw [hcount] at hw
      cases hw
  counted key c' hc' := by
    obtain ⟨c, hc, hw, hv⟩ := hstore key c' hc'
    rw [ticksIn_snoc, hcount, if_neg (by simp), Nat.add_zero, hv, hw]
    exact h.counted key c hc

/-- What `INCR` does: it counts in the counter that is there, or in a new one. -/
theorem incr_counts (s : LimiterState) (key : String) : ∃ n expireAt w, (s.incr key).1 = n ∧
    (s.incr key).2.store = Function.update s.store key (some ⟨n, expireAt, w⟩) ∧
      ((s.incr key).2.counter key).map Counter.window = some w ∧
        ((∃ c, s.store key = some c ∧ c.window = w ∧ n = c.value + 1 ∧
          (s.incr key).2.created = s.created) ∨
          w = s.created ∧ n = 1 ∧ (s.incr key).2.created = s.created + 1) := by
  unfold LimiterState.incr
  split
  · next c hc =>
    refine ⟨c.value + 1, c.expireAt, c.window, rfl, rfl, ?_,
      .inl ⟨c, counter_store hc, rfl, rfl, rfl⟩⟩
    -- it has not expired before, and does not expire by being counted in
    have hlive : ({ c with value := c.value + 1 } : Counter).alive s.now = true :=
      (counter_iff.1 hc).2
    exact congrArg (Option.map Counter.window) (counter_put hlive)
  · refine ⟨1, none, s.created, rfl, rfl, ?_, .inr ⟨rfl, rfl, rfl⟩⟩
    have hlive : (⟨1, none, s.created⟩ : Counter).alive s.now = true := rfl
    exact congrArg (Option.map Counter.window) (counter_put (s := s) hlive)

theorem Books.incr (h : Books es s) {key : String}
    (hcount : countedIn e = ((s.incr key).2.counter key).map Counter.window) :
    Books (es ++ [e]) (s.incr key).2 := by
  obtain ⟨n, expireAt, w, -, hstore, hw, hcases⟩ := incr_counts s key
  rw [hw] at hcount
  have hle : s.created ≤ (s.incr key).2.created := by
    rcases hcases with ⟨-, -, -, -, hsame⟩ | ⟨-, -, hmore⟩ <;> omega
  have hlt : w < (s.incr key).2.created := by
    rcases hcases with ⟨c, hc, rfl, -, hsame⟩ | ⟨rfl, -, hmore⟩
    · rw [hsame]
      exact h.created key c hc
    · omega
  -- no other key has a counter of this window
  have hother : ∀ key' c, key' ≠ key → s.store key' = some c → c.window ≠ w := by
    intro key' c hne hc hsame
    rcases hcases with ⟨d, hd, hwd, -, -⟩ | ⟨hnew, -, -⟩
    · exact hne (h.apart key' key c d hc hd (hsame.trans hwd.symm))
    · exact absurd (h.created key' c hc) (by omega)
  refine ⟨fun key' c hc => ?_, fun key₁ key₂ c₁ c₂ h₁ h₂ hsame => ?_, fun f hf w' hw' => ?_,
    fun key' c hc => ?_⟩
  · rw [hstore, Function.update_apply] at hc
    split at hc
    · cases hc
      exact hlt
    · exact Nat.lt_of_lt_of_le (h.created key' c hc) hle
  · rw [hstore, Function.update_apply] at h₁ h₂
    split at h₁
    · next hk₁ =>
      cases h₁
      split at h₂
      · next hk₂ => rw [hk₁, hk₂]
      · next hk₂ => exact absurd hsame.symm (hother key₂ c₂ hk₂ h₂)
    · next hk₁ =>
      split at h₂
      · cases h₂
        exact absurd hsame (hother key₁ c₁ hk₁ h₁)
      · exact h.apart key₁ key₂ c₁ c₂ h₁ h₂ hsame
  · rcases List.mem_append.1 hf with hf | hf
    · exact Nat.lt_of_lt_of_le (h.past f hf w' hw') hle
    · cases List.mem_singleton.1 hf
      cases hcount.symm.trans hw'
      exact hlt
  · rw [ticksIn_snoc, hcount]
    rw [hstore, Function.update_apply] at hc
    split at hc
    · cases hc
      rw [if_pos rfl]
      rcases hcases with ⟨c, hc, rfl, rfl, -⟩ | ⟨hnew, rfl, -⟩
      · rw [h.counted key c hc]
      · have hnone : ticksIn es w = 0 := List.countP_eq_zero.2 fun f hf hin =>
          absurd (h.past f hf w (of_decide_eq_true hin)) (by omega)
        rw [hnone]
    · next hne =>
      rw [if_neg fun hsame => hother key' c hne hc (Option.some.inj hsame).symm, Nat.add_zero]
      exact h.counted key' c hc

variable {Q R : LimiterPool ι} [DecidableEq ι]

/-- What one step does. -/
theorem limiter_step (hs : Step limiterHandler Q e R) : ∃ elapsed,
    ((e.res : Reply).carried = true ∧
      R.state = (e.op.act { Q.state with now := Q.state.now + elapsed }).2 ∧
        (e.res : Reply).window = (R.state.counter e.op.key).map Counter.window ∧
        ∀ n, (e.res : Reply).answer = .ok n →
        (e.op.act { Q.state with now := Q.state.now + elapsed }).1 = .ok n) ∨
      (e.res : Reply).carried = false ∧ (e.res : Reply).answer = .error () ∧
        R.state = { Q.state with now := Q.state.now + elapsed } := by
  obtain ⟨i, o, r⟩ := e
  obtain ⟨k, ⟨elapsed, delivery⟩, s, hp, hc, rfl⟩ := step_iff.1 hs
  refine ⟨elapsed, ?_⟩
  dsimp only at hc ⊢
  cases delivery with
  | answered =>
    cases hc
    exact .inl ⟨rfl, rfl, rfl, fun n hn => hn⟩
  | answerLost =>
    cases hc
    exact .inl ⟨rfl, rfl, rfl, fun n hn => by cases hn⟩
  | lost =>
    cases hc
    exact .inr ⟨rfl, rfl, rfl⟩

omit [DecidableEq ι] in
theorem Books.elapse (h : Books es s) (now : ℕ) : Books es { s with now := now } :=
  ⟨h.created, h.apart, h.past, h.counted⟩

omit [DecidableEq ι] in
theorem Books.expire (h : Books es s) (hcount : countedIn e = none) (key : String) (ttl : ℕ) :
    Books (es ++ [e]) (s.expire key ttl).2 := by
  unfold LimiterState.expire
  split
  · next c hc =>
    refine h.keep hcount rfl fun key' c' hc' => ?_
    dsimp only [LimiterState.put] at hc'
    rw [Function.update_apply] at hc'
    split at hc'
    · next hk =>
      cases hc'
      exact ⟨c, by rw [hk, counter_store hc], rfl, rfl⟩
    · exact ⟨c', hc', rfl, rfl⟩
  · exact h.keep hcount rfl fun key' c' hc' => ⟨c', hc', rfl, rfl⟩

theorem books_step (h : Books es Q.state) (hs : Step limiterHandler Q e R) :
    Books (es ++ [e]) R.state := by
  obtain ⟨i, o, r⟩ := e
  obtain ⟨elapsed, ⟨hcarried, hR, hw, -⟩ | ⟨hlost, -, hR⟩⟩ := limiter_step hs
  · have helapsed := h.elapse (Q.state.now + elapsed)
    rw [hR] at hw ⊢
    cases o with
    | incr key => exact helapsed.incr ((if_pos hcarried).trans hw)
    | expire key ttl => exact helapsed.expire rfl key ttl
    | get key => exact helapsed.keep rfl rfl fun key' c' hc' => ⟨c', hc', rfl, rfl⟩
  · have hcount : countedIn (⟨i, o, r⟩ : LimiterEvent ι) = none := by
      cases o with
      | incr key => exact if_neg (by rw [hlost]; exact Bool.false_ne_true)
      | expire key ttl => rfl
      | get key => rfl
    rw [hR]
    exact h.keep hcount rfl fun key' c' hc' => ⟨c', hc', rfl, rfl⟩

theorem books {jobs : ι → IDLimiter} {now : ℕ}
    (hr : Run limiterHandler Free (startRequests jobs now) es Q) :
    Books es Q.state := by
  induction hr with
  | nil => exact ⟨fun _ _ h => (by cases h), fun _ _ _ _ h => (by cases h), fun _ h => (by cases h),
      fun _ _ h => (by cases h)⟩
  | snoc _ _ hs ih => exact books_step ih hs

end Books

section Requests

variable {ι : Type} {l : IDLimiter} {acts : List LimiterSig.Act}

/-- The request is counted, and has run `EXPIRE` if it was to. -/
def Counted (l : IDLimiter) (acts : List LimiterSig.Act) : Prop :=
  ∃ (r : Reply) (n : ℕ), r.answer = .ok n ∧ (acts = [⟨.incr l.key, r⟩] ∨
    ∃ (ttl : ℕ) (r' : Reply), acts = [⟨.incr l.key, r⟩, ⟨.expire l.key ttl, r'⟩])

/-- What a request has done when it runs a command. -/
def StepOf (l : IDLimiter) (acts : List LimiterSig.Act) : LimiterOp → Prop
  | .incr key => key = l.key ∧ acts = []
  | .expire key ttl => key = l.key ∧ ttl = l.exp.toNat ∧ 0 < l.exp ∧
      ∃ r : Reply, r.answer = .ok 1 ∧ acts = [⟨.incr l.key, r⟩]
  | .get key => key = l.key ∧ Counted l acts

/-- The tick has failed. -/
def TickFailed (l : IDLimiter) (acts : List LimiterSig.Act) : Prop :=
  ∃ r : Reply, r.answer = .error () ∧ (acts = [⟨.incr l.key, r⟩] ∨
    ∃ (ttl : ℕ) (r' : Reply), acts = [⟨.incr l.key, r'⟩, ⟨.expire l.key ttl, r⟩])

/-- What a request has done when it is answered. -/
def EndOf (l : IDLimiter) (acts : List LimiterSig.Act) (admitted : Bool) : Prop :=
  TickFailed l acts ∧ admitted = true ∨
    ∃ (acts' : List LimiterSig.Act) (r : Reply), Counted l acts' ∧
      acts = acts' ++ [⟨.get l.key, r⟩] ∧
      (admitted = true ↔ (r.failedAttempts : ℤ) ≤ l.max)

theorem Counted.mem (h : Counted l acts) : ∃ (r : Reply) (n : ℕ), r.answer = .ok n ∧
    (⟨.incr l.key, r⟩ : LimiterSig.Act) ∈ acts := by
  obtain ⟨r, n, hok, rfl | ⟨ttl, r', rfl⟩⟩ := h
  · exact ⟨r, n, hok, List.mem_cons_self⟩
  · exact ⟨r, n, hok, List.mem_cons_self⟩

theorem Counted.no_get (h : Counted l acts) {key : String} (r : Reply) :
    (⟨.get key, r⟩ : LimiterSig.Act) ∉ acts := by
  obtain ⟨r₁, n, -, rfl | ⟨ttl, r₂, rfl⟩⟩ := h <;> simp

theorem TickFailed.mem (h : TickFailed l acts) : ∃ a ∈ acts, (a.2 : Reply).answer = .error () := by
  obtain ⟨r, herr, rfl | ⟨ttl, r', rfl⟩⟩ := h
  · exact ⟨_, List.mem_cons_self, herr⟩
  · exact ⟨_, List.mem_cons_of_mem _ List.mem_cons_self, herr⟩

theorem TickFailed.no_get (h : TickFailed l acts) {key : String} (r : Reply) :
    (⟨.get key, r⟩ : LimiterSig.Act) ∉ acts := by
  obtain ⟨r₁, -, rfl | ⟨ttl, r₂, rfl⟩⟩ := h <;> simp

theorem incr_meets (l : IDLimiter) : Meets (StepOf l)
    (fun acts r => match r with | .error _ => TickFailed l acts | .ok _ => Counted l acts)
    (incr l.key l.exp) [] := by
  refine meets_bind (meets_op ⟨rfl, rfl⟩ fun _ => rfl)
    fun acts r _ (hacts : acts = [⟨.incr l.key, r⟩]) => ?_
  subst hacts
  obtain ⟨answer, carried, window⟩ := r
  cases answer with
  | error e => exact ⟨_, rfl, .inl rfl⟩
  | ok val =>
    dsimp only
    split
    · next hfirst =>
      obtain ⟨hexp, rfl⟩ := hfirst
      refine meets_bind (meets_op ⟨rfl, rfl, hexp, _, rfl, rfl⟩ fun _ => rfl) fun acts r' _
        (hacts : acts = [⟨.incr l.key, ⟨.ok 1, carried, window⟩⟩,
          ⟨.expire l.key l.exp.toNat, r'⟩]) => ?_
      subst hacts
      obtain ⟨answer', carried', window'⟩ := r'
      cases answer' with
      | error e => exact ⟨_, rfl, .inr ⟨_, _, rfl⟩⟩
      | ok _ => exact ⟨_, _, rfl, .inr ⟨_, _, rfl⟩⟩
    · exact ⟨_, _, rfl, .inl rfl⟩

theorem request_meets (l : IDLimiter) : Meets (StepOf l) (EndOf l) (request l) [] := by
  have htick : Meets (StepOf l)
      (fun acts r => match r with
        | .error _ => TickFailed l acts
        | .ok _ => Counted l acts) (tick l) [] := by
    refine meets_bind (incr_meets l) fun acts r _ h => ?_
    cases r <;> exact h
  refine meets_bind htick fun acts r _ h => ?_
  cases r with
  | error e => exact .inl ⟨h, rfl⟩
  | ok _ =>
    refine meets_bind (meets_op ⟨rfl, h⟩ fun _ => rfl)
      fun acts' r _ (hacts : acts' = acts ++ [⟨.get l.key, r⟩]) => ?_
    subst hacts
    split
    · next hover => exact .inr ⟨acts, r, h, rfl, iff_of_false Bool.false_ne_true (by omega)⟩
    · next hunder => exact .inr ⟨acts, r, h, rfl, iff_of_true rfl (by omega)⟩

end Requests

section Runs

variable {ι : Type} [DecidableEq ι] {jobs : ι → IDLimiter} {now : ℕ}
  {es es₁ es₂ : List (LimiterEvent ι)} {Q : LimiterPool ι}

theorem mem_acts {i : ι} {o : LimiterOp} {r : Reply} :
    (⟨o, r⟩ : LimiterSig.Act) ∈ trace i es ↔ (⟨i, o, r⟩ : LimiterEvent ι) ∈ es := mem_trace

/-- The number under which a request is counted. -/
theorem incr_number {i : ι} {key : String} {r : Reply} {n : ℕ}
    (hr : Run limiterHandler Free (startRequests jobs now) (es₁ ++ ⟨i, .incr key, r⟩ :: es₂) Q)
    (hok : r.answer = .ok n) :
    ∃ w, r = ⟨.ok n, true, some w⟩ ∧
    n = ticksIn (es₁ ++ [(⟨i, .incr key, r⟩ : LimiterEvent ι)]) w := by
  obtain ⟨Q₁, R₁, hr₁, -, hs, -⟩ := run_mid hr
  have hbooks := books_step (books hr₁) hs
  obtain ⟨elapsed, ⟨hcarried, hR, hw, hanswer⟩ | ⟨-, hlost, -⟩⟩ := limiter_step hs
  · obtain ⟨m, expireAt, w, hm, hstore, hwindow, -⟩ :=
      incr_counts { Q₁.state with now := Q₁.state.now + elapsed } key
    have hn : m = n := hm.symm.trans (Except.ok.inj (hanswer n hok))
    subst hn
    obtain ⟨answer, carried, window⟩ := r
    dsimp only at hok hcarried hw
    subst hok hcarried
    rw [hR] at hw
    rw [hw.trans hwindow] at hbooks ⊢
    refine ⟨w, rfl, hbooks.counted key ⟨m, expireAt, w⟩ ?_⟩
    rw [hR]
    exact (congrFun hstore key).trans (Function.update_self ..)
  · rw [hok] at hlost
    cases hlost

theorem incr_window {i : ι} {key : String} {r : Reply} {n : ℕ}
    (hr : Run limiterHandler Free (startRequests jobs now) es Q)
    (h : (⟨i, .incr key, r⟩ : LimiterEvent ι) ∈ es) (hok : r.answer = .ok n) :
    ∃ w, r = ⟨.ok n, true, some w⟩ := by
  obtain ⟨es₁, es₂, rfl⟩ := List.append_of_mem h
  obtain ⟨w, hw, -⟩ := incr_number hr hok
  exact ⟨w, hw⟩

/-- A request that reads the counter reads how many are counted in it. -/
theorem get_number {i : ι} {key : String} {r : Reply} {v : ℕ}
    (hr : Run limiterHandler Free (startRequests jobs now) (es₁ ++ ⟨i, .get key, r⟩ :: es₂) Q)
    (hok : r.answer = .ok v) : ∃ w, r = ⟨.ok v, true, some w⟩ ∧ v = ticksIn es₁ w := by
  obtain ⟨Q₁, R₁, hr₁, -, hs, -⟩ := run_mid hr
  obtain ⟨elapsed, ⟨hcarried, hR, hw, hanswer⟩ | ⟨-, hlost, -⟩⟩ := limiter_step hs
  · have hget := hanswer v hok
    change ({ Q₁.state with now := Q₁.state.now + elapsed } : LimiterState).get key = .ok v at hget
    unfold LimiterState.get at hget
    split at hget
    · next c hc =>
      cases hget
      obtain ⟨answer, carried, window⟩ := r
      dsimp only at hok hcarried hw
      subst hok hcarried
      rw [hR] at hw
      have hwindow : window = some c.window := hw.trans (congrArg (Option.map Counter.window) hc)
      subst hwindow
      exact ⟨c.window, rfl, ((books hr₁).elapse _).counted key c (counter_store hc)⟩
    · cases hget
  · rw [hok] at hlost
    cases hlost

/-- No two requests have the same number. -/
theorem number_unique {i j : ι} {key key' : String} {n w : ℕ}
    (hr : Run limiterHandler Free (startRequests jobs now) es Q)
    (hi : (⟨i, .incr key, (⟨.ok n, true, some w⟩ : Reply)⟩ : LimiterEvent ι) ∈ es)
    (hj : (⟨j, .incr key', (⟨.ok n, true, some w⟩ : Reply)⟩ : LimiterEvent ι) ∈ es) : i = j := by
  -- the later one counts itself on top of the earlier one
  have hlater : ∀ {i j key key' l₁ l₂ l₃}, es = l₁ ++
    ⟨i, .incr key, (⟨.ok n, true, some w⟩ : Reply)⟩ ::
      (l₂ ++ ⟨j, .incr key', (⟨.ok n, true, some w⟩ : Reply)⟩ :: l₃) → False := by
    intro i j key key' l₁ l₂ l₃ hes
    rw [hes] at hr
    obtain ⟨w₁, hw₁, hfirst⟩ := incr_number hr rfl
    rw [← List.cons_append, ← List.append_assoc] at hr
    obtain ⟨w₂, hw₂, hsecond⟩ := incr_number hr rfl
    cases hw₁
    cases hw₂
    rw [ticksIn_snoc, List.append_cons] at hsecond
    have hle :=
      ticksIn_mono (l₁ ++ [(⟨i, .incr key, (⟨.ok n, true, some w⟩ : Reply)⟩ : LimiterEvent ι)]) l₂ w
    rw [← hfirst] at hle
    have hcount : countedIn (⟨j, .incr key', (⟨.ok n, true, some w⟩ : Reply)⟩ : LimiterEvent ι) =
        some w := rfl
    rw [hcount, if_pos rfl] at hsecond
    omega
  rcases mem_before hi hj with heq | ⟨l₁, l₂, l₃, hes⟩ | ⟨l₁, l₂, l₃, hes⟩
  · exact congrArg Event.who heq
  · exact absurd hes hlater
  · exact absurd hes hlater

/-- The end of a request that has asked, in the run. -/
theorem asked_split {i : ι} {acts : List LimiterSig.Act} {r : Reply}
    (hr : Run limiterHandler Free (startRequests jobs now) es Q)
    (htrace : trace i es = acts ++ [⟨.get (jobs i).key, r⟩]) :
    lastWindow es i = r.window ∧ ∀ v, r.answer = .ok v →
      ∃ es₁ es₂ w, es = es₁ ++ ⟨i, .get (jobs i).key, r⟩ :: es₂ ∧ trace i es₁ = acts ∧
        r = ⟨.ok v, true, some w⟩ ∧
        v = ticksIn es₁ w := by
  refine ⟨?_, fun v hv => ?_⟩
  · rw [lastWindow, htrace, List.getLast?_concat]
    rfl
  · obtain ⟨es₁, es₂, rfl, htrace₁, -⟩ := trace_split htrace
    obtain ⟨w, hw, hnum⟩ := get_number hr hv
    exact ⟨es₁, es₂, w, rfl, htrace₁, hw, hnum⟩

/-- A number is at least 1, and at most what is counted by then. -/
theorem number_bounds {i : ι} {key : String} {n w : ℕ}
    (hr : Run limiterHandler Free (startRequests jobs now) (es₁ ++ es₂) Q)
    (h : (⟨i, .incr key, (⟨.ok n, true, some w⟩ : Reply)⟩ : LimiterEvent ι) ∈ es₁) :
    1 ≤ n ∧ n ≤ ticksIn es₁ w := by
  obtain ⟨l₁, l₂, rfl⟩ := List.append_of_mem h
  rw [List.append_assoc, List.cons_append] at hr
  obtain ⟨w', hw, hnum⟩ := incr_number hr rfl
  cases hw
  have hcount : countedIn (⟨i, .incr key, (⟨.ok n, true, some w⟩ : Reply)⟩ : LimiterEvent ι) =
      some w := rfl
  have hle :=
    ticksIn_mono (l₁ ++ [(⟨i, .incr key, (⟨.ok n, true, some w⟩ : Reply)⟩ : LimiterEvent ι)]) l₂ w
  rw [← hnum, ← List.append_cons] at hle
  rw [ticksIn_snoc, hcount, if_pos rfl] at hnum
  exact ⟨by omega, hle⟩

/-- A request that is admitted by the counter it is counted in has one of the first `Max`
numbers. -/
theorem admitted_number {i : ι} {w : ℕ} (hr : Run limiterHandler Free (startRequests jobs now) es Q)
    (hadmitted : (Q.prog i).result = some true) (hchecked : Checked jobs es w i) :
    ∃ n : ℕ, (⟨i, .incr (jobs i).key, (⟨.ok n, true, some w⟩ : Reply)⟩ : LimiterEvent ι) ∈ es ∧
      1 ≤ n ∧ (n : ℤ) ≤ (jobs i).max := by
  obtain ⟨⟨n, hn⟩, v, hv⟩ := hchecked
  refine ⟨n, hn, ?_⟩
  have hincr : (⟨.incr (jobs i).key, ⟨.ok n, true, some w⟩⟩ : LimiterSig.Act) ∈ trace i es :=
    mem_acts.2 hn
  have hget : (⟨.get (jobs i).key, ⟨.ok v, true, some w⟩⟩ : LimiterSig.Act) ∈ trace i es :=
    mem_acts.2 hv
  rcases run_ended (fun i => request_meets (jobs i)) hr (Prog.result_eq_some.1 hadmitted) with
    ⟨hfailed, -⟩ | ⟨acts, r, hcounted, htrace, hiff⟩
  · exact absurd hget (hfailed.no_get _)
  · rw [htrace] at hget hincr
    have hlast : (⟨.get (jobs i).key, ⟨.ok v, true, some w⟩⟩ : LimiterSig.Act) =
        ⟨.get (jobs i).key, r⟩ := by
      rcases List.mem_append.1 hget with hbefore | hlast
      · exact absurd hbefore (hcounted.no_get _)
      · exact List.mem_singleton.1 hlast
    cases hlast
    obtain ⟨es₁, es₂, w', rfl, htrace₁, hw, hread⟩ := (asked_split hr htrace).2 v rfl
    cases hw
    have hbefore : (⟨i, .incr (jobs i).key, (⟨.ok n, true, some w⟩ : Reply)⟩ : LimiterEvent ι) ∈
        es₁ := by
      rcases List.mem_append.1 hincr with hbefore | hlast
      · rw [← htrace₁] at hbefore
        exact mem_acts.1 hbefore
      · cases List.mem_singleton.1 hlast
    obtain ⟨hpos, hle⟩ := number_bounds hr hbefore
    have hallowed : (v : ℤ) ≤ (jobs i).max := hiff.1 rfl
    omega

/-- **Requests that are checked against the counter they are counted in.** -/
theorem checked_bounded {l : IDLimiter} {w : ℕ}
    (hr : Run limiterHandler Free (startRequests jobs now) es Q) {calls : List ι}
    (hnd : calls.Nodup) (h : ∀ i ∈ calls, jobs i = l ∧ (Q.prog i).result = some true ∧
      Checked jobs es w i) :
    calls.length ≤ l.max.toNat := by
  have hnumber : ∀ i ∈ calls, ∃ n : ℕ,
    (⟨i, .incr l.key, (⟨.ok n, true, some w⟩ : Reply)⟩ : LimiterEvent ι) ∈ es ∧
      1 ≤ n ∧ (n : ℤ) ≤ l.max := by
    intro i hi
    obtain ⟨rfl, hadmitted, hchecked⟩ := h i hi
    exact admitted_number hr hadmitted hchecked
  choose! number hmem hpos hle using hnumber
  -- their numbers are different ones of the first `Max`
  have hnodup : (calls.map number).Nodup := by
    refine List.Nodup.map_on (fun i hi j hj hsame => ?_) hnd
    have hi := hmem i hi
    rw [hsame] at hi
    exact number_unique hr hi (hmem j hj)
  have hsub : calls.map number ⊆ List.range' 1 l.max.toNat := by
    intro n hn
    obtain ⟨i, hi, rfl⟩ := List.mem_map.1 hn
    have hpos := hpos i hi
    have hle := hle i hi
    exact List.mem_range'_1.2 (by omega)
  have hlength := (List.subperm_of_subset hnodup hsub).length_le
  rwa [List.length_map, List.length_range'] at hlength

/-- How many are counted in the window in which the request was answered. -/
def ticksSeen (es : List (LimiterEvent ι)) (i : ι) : ℕ := (lastWindow es i).elim 0 (ticksIn es)

theorem refused_over {i : ι} (hr : Run limiterHandler Free (startRequests jobs now) es Q)
    (hrefused : (Q.prog i).result = some false) : (jobs i).max < ticksSeen es i := by
  rcases run_ended (fun i => request_meets (jobs i)) hr
    (Prog.result_eq_some.1 hrefused) with ⟨-, h⟩ | ⟨acts, r, -, htrace, hiff⟩
  · cases h
  · have hover : (jobs i).max < r.failedAttempts := by
      by_contra hnot
      exact Bool.false_ne_true (hiff.2 (by omega))
    obtain ⟨hlast, hread⟩ := asked_split hr htrace
    unfold ticksSeen
    obtain ⟨answer, carried, window⟩ := r
    cases answer with
    | error e =>
      -- nothing could be read, and 0 was too much
      have hzero : (jobs i).max < (0 : ℕ) := hover
      omega
    | ok v =>
      obtain ⟨es₁, es₂, w, rfl, -, hw, hnum⟩ := hread v rfl
      cases hw
      rw [hlast]
      have hmono :=
        ticksIn_mono es₁ (⟨i, .get (jobs i).key, (⟨.ok v, true, some w⟩ : Reply)⟩ :: es₂) w
      have hv : (jobs i).max < v := hover
      change (jobs i).max < (ticksIn _ w : ℕ)
      omega

/-- A request that is admitted is checked against the counter it is counted in, or something has
slipped. -/
theorem admitted_cases {i : ι} (hr : Run limiterHandler Free (startRequests jobs now) es Q)
    (hadmitted : (Q.prog i).result = some true) :
    (∃ w, AdmittedIn es Q w i ∧ Checked jobs es w i) ∨ Slipped jobs es i := by
  rcases run_ended (fun i => request_meets (jobs i)) hr (Prog.result_eq_some.1 hadmitted) with
    ⟨hfailed, -⟩ | ⟨acts, r, hcounted, htrace, -⟩
  · obtain ⟨a, ha, herr⟩ := hfailed.mem
    exact .inr (.inl ⟨_, mem_trace.1 ha, rfl, herr⟩)
  · obtain ⟨hlast, hread⟩ := asked_split hr htrace
    have hmem : (⟨.get (jobs i).key, r⟩ : LimiterSig.Act) ∈ trace i es := by
      rw [htrace]
      exact List.mem_append_right _ (List.mem_singleton.2 rfl)
    obtain ⟨answer, carried, window⟩ := r
    cases answer with
    | error e => exact .inr (.inl ⟨_, mem_acts.1 hmem, rfl, rfl⟩)
    | ok v =>
      obtain ⟨es₁, es₂, w, rfl, htrace₁, hw, -⟩ := hread v rfl
      cases hw
      obtain ⟨r, n, hn, hincr⟩ := hcounted.mem
      rw [← htrace₁] at hincr
      have hbefore : (⟨i, .incr (jobs i).key, r⟩ : LimiterEvent ι) ∈ es₁ := mem_acts.1 hincr
      have hincr :=
        List.mem_append_left
          (⟨i, .get (jobs i).key, (⟨.ok v, true, some w⟩ : Reply)⟩ :: es₂) hbefore
      obtain ⟨w', rfl⟩ := incr_window hr hincr hn
      by_cases hsame : w' = w
      · subst hsame
        exact .inl ⟨w', ⟨hadmitted, hlast⟩, ⟨n, hincr⟩, v, mem_acts.1 hmem⟩
      · exact .inr (.inr ⟨w', w, n, v, hsame, hincr, mem_acts.1 hmem⟩)

/-- **The limit**: of the requests that read the counter they are counted in, at most `Max` are
admitted in a window; a request is refused only when more than `Max` are counted; and whatever else
is admitted has slipped through. -/
theorem limited (jobs : ι → IDLimiter) (now : ℕ)
    (hr : Run limiterHandler Free (startRequests jobs now) es Q) :
    (∀ l w, ∀ calls : List ι, calls.Nodup →
      (∀ i ∈ calls, jobs i = l ∧ AdmittedIn es Q w i ∧ Checked jobs es w i) →
      calls.length ≤ l.max.toNat) ∧
      (∀ i, (Q.prog i).result = some false → (jobs i).max < ticksSeen es i) ∧
      ∀ i, (Q.prog i).result = some true → (∃ w, AdmittedIn es Q w i ∧ Checked jobs es w i) ∨
      Slipped jobs es i := by
  refine ⟨fun l w calls hnd h => checked_bounded (w := w) hr hnd fun i hi => ?_,
    fun i => refused_over hr, fun i => admitted_cases hr⟩
  obtain ⟨hl, hadmitted, hchecked⟩ := h i hi
  exact ⟨hl, hadmitted.1, hchecked⟩

end Runs

section Endless

variable {ι : Type} {i : ι} {l : IDLimiter} {s s' : LimiterState} {acts : List LimiterSig.Act}
  {b : Bool}

/-- The counter has no expiry, and no request is left in it. -/
def Endless (l : IDLimiter) (s : LimiterState) : Prop :=
  ∃ c, s.store l.key = some c ∧ c.expireAt = none ∧ 1 ≤ c.value ∧ l.max ≤ c.value

theorem endless_counter {c : Counter} (hc : s.store l.key = some c) (hend : c.expireAt = none)
    (elapsed : ℕ) :
    ({ s with now := s.now + elapsed } : LimiterState).counter l.key = some c := by
  refine counter_iff.2 ⟨hc, ?_⟩
  unfold Counter.alive
  rw [hend]

theorem endless_incr {choice : ℕ × Delivery} {r : Reply} (hs : Endless l s)
    (h : limiterHandler i (.incr l.key) choice s = some (r, s')) :
    Endless l s' ∧ ∀ n, r.answer = .ok n → n ≠ 1 ∧ ∃ c, s'.store l.key = some c ∧
    c.expireAt = none ∧ l.max < c.value := by
  obtain ⟨c, hc, hend, hpos, hover⟩ := hs
  obtain ⟨elapsed, delivery⟩ := choice
  have hincr : ({ s with now := s.now + elapsed } : LimiterState).incr l.key =
      (c.value + 1, ({ s with now := s.now + elapsed } : LimiterState).put l.key
        { c with value := c.value + 1 }) := by
    unfold LimiterState.incr
    rw [endless_counter hc hend elapsed]
  have hstore : (({ s with now := s.now + elapsed } : LimiterState).put l.key
    { c with value := c.value + 1 }).store l.key =
      some { c with value := c.value + 1 } := Function.update_self ..
  unfold limiterHandler LimiterOp.act at h
  dsimp only at h
  rw [hincr] at h
  have hafter : Endless l (({ s with now := s.now + elapsed } : LimiterState).put l.key
    { c with value := c.value + 1 }) :=
    ⟨_, hstore, hend, by dsimp only; omega, by dsimp only; omega⟩
  cases delivery with
  | answered =>
    cases h
    refine ⟨hafter, fun n hn => ?_⟩
    cases hn
    exact ⟨by omega, _, hstore, hend, by dsimp only; omega⟩
  | answerLost =>
    cases h
    exact ⟨hafter, fun n hn => by cases hn⟩
  | lost =>
    cases h
    exact ⟨⟨c, hc, hend, hpos, hover⟩, fun n hn => by cases hn⟩

theorem endless_get {choice : ℕ × Delivery} {r : Reply} {c : Counter} (hc : s.store l.key = some c)
    (hend : c.expireAt = none) (h : limiterHandler i (.get l.key) choice s = some (r, s')) :
    s'.store = s.store ∧ ∀ n, r.answer = .ok n → n = c.value := by
  obtain ⟨elapsed, delivery⟩ := choice
  have hget : ({ s with now := s.now + elapsed } : LimiterState).get l.key = .ok c.value := by
    unfold LimiterState.get
    rw [endless_counter hc hend elapsed]
  unfold limiterHandler LimiterOp.act at h
  dsimp only at h
  rw [hget] at h
  cases delivery with
  | answered =>
    cases h
    exact ⟨rfl, fun n hn => (Except.ok.inj hn).symm⟩
  | answerLost =>
    cases h
    exact ⟨rfl, fun n hn => by cases hn⟩
  | lost =>
    cases h
    exact ⟨rfl, fun n hn => by cases hn⟩

/-- **Without an expiry the account is locked out**: however much time passes, a request is refused
unless a command of it fails, and leaves the counter without one. -/
theorem locked_out (hs : Endless l s) (he : Exec limiterHandler i (request l) s acts b s') :
    Endless l s' ∧ (b = true → ∃ a ∈ acts, (a.2 : Reply).answer = .error ()) := by
  obtain ⟨choice, r, s₁, acts', hincr, rfl, he⟩ := he
  obtain ⟨hs₁, hcounted⟩ := endless_incr hs hincr
  obtain ⟨answer, carried, window⟩ := r
  cases answer with
  | error e =>
    obtain ⟨rfl, rfl, rfl⟩ := he
    exact ⟨hs₁, fun _ => ⟨_, List.mem_cons_self, rfl⟩⟩
  | ok n =>
    obtain ⟨hn, c, hc, hend, hover⟩ := hcounted n rfl
    have hask : Exec limiterHandler i (isAllowed l) s₁ acts' b s' := by
      change Exec limiterHandler i (Prog.bind (Prog.bind (if 0 < l.exp ∧ n = 1 then _ else _) _) _)
        s₁ acts' b s' at he
      rw [if_neg fun h => hn h.2] at he
      exact he
    obtain ⟨choice', r', s₂, acts'', hget, rfl, hend'⟩ := hask
    obtain ⟨hstore, hread⟩ := endless_get hc hend hget
    have hs₂ : Endless l s₂ := by
      unfold Endless
      rw [hstore]
      exact hs₁
    change Exec limiterHandler i (if l.max < (r' : Reply).failedAttempts then .pure false
      else .pure true) s₂ acts'' b s' at hend'
    split at hend'
    · obtain ⟨rfl, rfl, rfl⟩ := hend'
      exact ⟨hs₂, fun h => absurd h Bool.false_ne_true⟩
    · next hunder =>
      obtain ⟨rfl, rfl, rfl⟩ := hend'
      refine ⟨hs₂, fun _ => ⟨_, List.mem_cons_of_mem _ List.mem_cons_self, ?_⟩⟩
      -- what it would have read is too much
      obtain ⟨answer, carried, window⟩ := r'
      cases answer with
      | error e => rfl
      | ok v =>
        have hv : v = c.value := hread v rfl
        have hunder : ¬ l.max < v := hunder
        omega

end Endless

section Examples

/-- Two requests of one account, of which one is let through in a minute. -/
def onePerMinute : Fin 2 → IDLimiter := fun _ => { statisticsLimiter "a" with max := 1 }

/-- The first one is let through, and the second one is not. -/
def oneByOne : List (Fin 2 × ℕ × Delivery) :=
  [(thread 0, 0, .answered), (thread 0, 0, .answered), (thread 0, 0, .answered),
    (thread 1, 59, .answered), (thread 1, 0, .answered)]

theorem oneByOne_plays :
    (play limiterHandler Free oneByOne (startRequests onePerMinute 0)).isSome := by decide +kernel

theorem limited_one : ∃ es Q, Run limiterHandler Free (startRequests onePerMinute 0) es Q ∧
    (Q.prog (thread 0)).result = some true ∧ (Q.prog (thread 1)).result = some false ∧
      1 < ticksSeen es (thread 1) := by
  have hrefused :
    (((play limiterHandler Free oneByOne (startRequests onePerMinute 0)).get oneByOne_plays).2.prog
      (thread 1)).result = some false := by decide +kernel
  exact ⟨_, _, run_play oneByOne_plays, by decide +kernel, hrefused,
    Int.ofNat_lt.1 ((limited onePerMinute 0 (run_play oneByOne_plays)).2.1 (thread 1) hrefused)⟩

/-- The first request is counted, and its counter expires; the second one is counted in a new
counter, and both ask it. -/
def acrossExpiry : List (Fin 2 × ℕ × Delivery) :=
  [(thread 0, 0, .answered), (thread 0, 0, .answered), (thread 1, 60, .answered),
    (thread 1, 0, .answered),
    (thread 1, 0, .answered), (thread 0, 0, .answered)]

theorem acrossExpiry_plays :
    (play limiterHandler Free acrossExpiry (startRequests onePerMinute 0)).isSome := by
  decide +kernel

/-- The second request cannot read the counter. -/
def unread : List (Fin 2 × ℕ × Delivery) :=
  [(thread 0, 0, .answered), (thread 0, 0, .answered), (thread 0, 0, .answered),
    (thread 1, 0, .answered), (thread 1, 0, .lost)]

theorem unread_plays : (play limiterHandler Free unread (startRequests onePerMinute 0)).isSome := by
  decide +kernel

/-- **Two requests are let through in a window of one**, because the counter of one of them has
expired before it asks, though no command fails; or because one of them cannot read the counter. -/
theorem counted_before :
    (∃ es Q, Run limiterHandler Free (startRequests onePerMinute 0) es Q ∧
      (∀ e ∈ es, (e.res : Reply).answer.isOk = true) ∧ ¬ Bounded onePerMinute es Q) ∧
    ∃ es Q, Run limiterHandler Free (startRequests onePerMinute 0) es Q ∧
    ¬ Bounded onePerMinute es Q := by
  refine ⟨⟨_, _, run_play acrossExpiry_plays, by decide +kernel, fun h => ?_⟩,
    ⟨_, _, run_play unread_plays, fun h => ?_⟩⟩
  · have htwo :=
      h (onePerMinute (thread 0)) 1 [thread 0, thread 1] (by decide) (List.forall_mem_cons.2
      ⟨⟨rfl, by decide +kernel, by decide +kernel⟩,
        List.forall_mem_singleton.2 ⟨rfl, by decide +kernel, by decide +kernel⟩⟩)
    exact absurd htwo (by decide)
  · have htwo :=
      h (onePerMinute (thread 0)) 0 [thread 0, thread 1] (by decide) (List.forall_mem_cons.2
      ⟨⟨rfl, by decide +kernel, by decide +kernel⟩,
        List.forall_mem_singleton.2 ⟨rfl, by decide +kernel, by decide +kernel⟩⟩)
    exact absurd htwo (by decide)

/-- When the first `EXPIRE` is lost, the account is locked out. -/
example :
    (play limiterHandler Free [(thread 0, 0, .answered), (thread 0, 0, .lost)]
      (startRequests onePerMinute 0)).map
    (fun r => (r.2.state.store (onePerMinute (thread 0)).key).map fun c => (c.value, c.expireAt)) =
    some (some (1, none)) := by
  decide +kernel

end Examples

end ModDNS.Api.IdLimiter
