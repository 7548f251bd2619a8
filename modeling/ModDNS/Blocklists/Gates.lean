import ModDNS.Conc.Bounded
import ModDNS.Blocklists.Downloader

/-!
# The gates of the downloads

`Fetch` takes the gate of its host, waits until the host has been left alone for long enough, takes
one of the slots that all hosts share, and downloads. Time passes at any moment, and any context can
end at any moment.

* `fetchHandler`: the gates, the slots, the clock and the contexts.
* `fetch_meets`: what a call holds whenever it acts.
-/

namespace ModDNS.Blocklists.Downloader

open Go Conc

section State

/-- The two places that sleep. -/
inductive Why where
  | interval
  | backoff
  deriving DecidableEq

inductive FetchOp where
  | gateFor (host : String)
  | lock (gate : ℕ)
  | lastReq (gate : ℕ)
  | now
  | ctxErr
  /-- `time.NewTimer`; the answer is when it fires. -/
  | timer (why : Why) (d : ℤ)
  /-- The `select` on a timer and the context. -/
  | await (why : Why) (deadline : ℤ)
  /-- The `select` on the semaphore and the context. -/
  | acquire
  /-- What the network has for a round. -/
  | meets
  | begin
  | finish
  | release
  /-- `gate.lastReq = d.now()`. -/
  | record (gate : ℕ)
  | unlock (gate : ℕ)
  deriving DecidableEq

abbrev FetchSig : Sig where
  Op := FetchOp
  Res
    | .gateFor _ => ℕ
    | .lastReq _ => ℤ
    | .now => ℤ
    | .ctxErr => Bool
    | .timer _ _ => ℤ
    | .await _ _ => Bool
    | .acquire => Bool
    | .meets => Round
    | .begin => ℤ
    | .record _ => ℤ
    | _ => Unit

/-- A Downloader, with the clock, the contexts and the requests of its calls. -/
structure FetchState (ι : Type) where
  gates : String → Option ℕ
  /-- The gates that have been made. -/
  made : ℕ
  holder : ℕ → Option ι
  lastReq : ℕ → ℤ
  slots : ℕ
  clock : ℤ
  ended : ι → Bool
  flying : ι → Bool

/-- What happens before an action: time passes, contexts end. A `select` with two ready cases takes
either. -/
structure Env (ι : Type) where
  passes : ℕ
  ends : ι → Bool
  done : Bool
  round : Round

variable {ι : Type}

def FetchState.pass (s : FetchState ι) (c : Env ι) : FetchState ι :=
  { s with clock := s.clock + c.passes, ended := fun i => s.ended i || c.ends i }

variable [DecidableEq ι]

/-- What an action does, in the state after what has happened before it. -/
def perform (cfg : Config) (i : ι) (o : FetchOp) (c : Env ι) (s : FetchState ι) :
    Option (FetchSig.Res o × FetchState ι) :=
  match o with
  | .gateFor host =>
    match s.gates host with
    | some gate => some (gate, s)
    | none =>
      some (s.made,
        { s with gates := Function.update s.gates host (some s.made), made := s.made + 1 })
  | .lock gate =>
    match s.holder gate with
    | some _ => none
    | none => some ((), { s with holder := Function.update s.holder gate (some i) })
  | .lastReq gate => some (s.lastReq gate, s)
  | .now => some (s.clock, s)
  | .ctxErr => some (s.ended i, s)
  | .timer _ d => some (s.clock + d, s)
  | .await _ deadline =>
    if c.done then if s.ended i then some (false, s) else none
    else if deadline ≤ s.clock then some (true, s)
    else none
  | .acquire =>
    if c.done then if s.ended i then some (false, s) else none
    else if (s.slots : ℤ) < cfg.maxConcurrency.1 then some (true, { s with slots := s.slots + 1 })
    else none
  | .meets => some (c.round, s)
  | .begin => some (s.clock, { s with flying := Function.update s.flying i true })
  | .finish => some ((), { s with flying := Function.update s.flying i false })
  | .release => if s.slots = 0 then none else some ((), { s with slots := s.slots - 1 })
  | .record gate => some (s.clock, { s with lastReq := Function.update s.lastReq gate s.clock })
  | .unlock gate => some ((), { s with holder := Function.update s.holder gate none })

/-- An action that changes nothing, with what its answer says. -/
inductive Looks (s : FetchState ι) : FetchSig.Act → Prop where
  | lastReq (gate : ℕ) : Looks s ⟨.lastReq gate, s.lastReq gate⟩
  | now : Looks s ⟨.now, s.clock⟩
  | ctxErr (r : Bool) : Looks s ⟨.ctxErr, r⟩
  | timer (why : Why) (d : ℤ) : Looks s ⟨.timer why d, s.clock + d⟩
  | fired {why : Why} {deadline : ℤ} (h : deadline ≤ s.clock) : Looks s ⟨.await why deadline, true⟩
  | cut (why : Why) (deadline : ℤ) : Looks s ⟨.await why deadline, false⟩
  | refused : Looks s ⟨.acquire, false⟩
  | meets (r : Round) : Looks s ⟨.meets, r⟩

/-- What an action does, with its answer. -/
inductive Performs (cfg : Config) (i : ι) (s : FetchState ι) :
    FetchSig.Act → FetchState ι → Prop where
  | looks {x : FetchSig.Act} (h : Looks s x) : Performs cfg i s x s
  | found {host : String} {gate : ℕ} (h : s.gates host = some gate) : Performs cfg i s
      ⟨.gateFor host, gate⟩ s
  | made {host : String} (h : s.gates host = none) :
    Performs cfg i s ⟨.gateFor host, s.made⟩
      { s with gates := Function.update s.gates host (some s.made), made := s.made + 1 }
  | locked {gate : ℕ} (h : s.holder gate = none) :
    Performs cfg i s ⟨.lock gate, ()⟩ { s with holder := Function.update s.holder gate (some i) }
  | acquired (h : (s.slots : ℤ) < cfg.maxConcurrency.1) : Performs cfg i s ⟨.acquire, true⟩
      { s with slots := s.slots + 1 }
  | begins : Performs cfg i s ⟨.begin, s.clock⟩ { s with flying := Function.update s.flying i true }
  | finishes : Performs cfg i s ⟨.finish, ()⟩ { s with flying := Function.update s.flying i false }
  | released (h : s.slots ≠ 0) : Performs cfg i s ⟨.release, ()⟩ { s with slots := s.slots - 1 }
  | recorded (gate : ℕ) : Performs cfg i s ⟨.record gate, s.clock⟩
      { s with lastReq := Function.update s.lastReq gate s.clock }
  | unlocked (gate : ℕ) : Performs cfg i s ⟨.unlock gate, ()⟩
      { s with holder := Function.update s.holder gate none }

section Ready

variable {cfg : Config} {i : ι} {c : Env ι} {s : FetchState ι}

end Ready

def fetchHandler (cfg : Config) : Handler FetchSig ι (FetchState ι) (Env ι) := fun i o c s =>
    perform cfg i o c (s.pass c)

end State

section Code

inductive Failure where
  /-- `ctx.Err()`. -/
  | ended
  | download (err : FetchErr)
  deriving DecidableEq

abbrev step (o : FetchOp) : Prog FetchSig (FetchSig.Res o) := Prog.op (S := FetchSig) o

/-- The host of a URL, that requests are grouped by; `parse` is `url.Parse`. -/
def hostKey (parse : String → Option String) (rawURL : String) : String :=
  match parse rawURL with
  | none => rawURL
  | some host => if host = "" then rawURL else host

/-- `sleepCtx`; it is true if the context ends first. -/
def sleep (why : Why) (d : ℤ) : Prog FetchSig Bool := do
  if d ≤ 0 then step .ctxErr
  else
    let deadline : ℤ ← step (.timer why d)
    let fired : Bool ← step (.await why deadline)
    return !fired

/-- How long to wait, for a gate that was left at `lastReq`. -/
def waitFor (cfg : Config) (now lastReq : ℤ) : ℤ :=
  wrap64 (cfg.perHostMinInterval.1 - sub now lastReq)

/-- The wait for the interval of the host; it is true if the context ends first. -/
def waitInterval (cfg : Config) (gate : ℕ) : Prog FetchSig Bool := do
  let lastReq : ℤ ← step (.lastReq gate)
  if lastReq = 0 then return false
  else
    let now : ℤ ← step .now
    let wait := waitFor cfg now lastReq
    if 0 < wait then sleep .interval wait else return false

/-- The body of the loop of `fetchWithRetry`: an attempt with its request, that is not made where
the URL is malformed. -/
def attemptOnce (http : Http) (cfg : Config) (rawURL : String) : Prog FetchSig (Attempt × Rng) := do
  let r : Round ← step .meets
  if http.validURL rawURL then
    let _ ← step .begin
    let _ ← step .finish
    return (attempt http cfg rawURL r, r.rng)
  else return (attempt http cfg rawURL r, r.rng)

/-- The loop of `fetchWithRetry`. -/
def attempts (http : Http) (cfg : Config) (rawURL : String) :
    ℕ → ℕ → Except Failure (List UInt8) → Prog FetchSig (Except Failure (List UInt8))
  | 0, _, last => return last
  | left + 1, n, _ => do
    let (a, rng) ← attemptOnce http cfg rawURL
    match a.err with
    | none => return .ok a.body
    | some err =>
      if !a.retryable || (n : ℤ) = cfg.maxAttempts.1 then return .error (.download err)
      else
        let ended : Bool ← step .ctxErr
        if ended then return .error (.download err)
        else
          let cut ← sleep .backoff (backoff cfg n a.retryAfter rng).value
          if cut then return .error .ended
          else attempts http cfg rawURL left (n + 1) (.error (.download err))

/-- `Fetch` while it holds a slot. -/
def withSlot (http : Http) (cfg : Config) (rawURL : String) :
    Prog FetchSig (Except Failure (List UInt8)) := do
  let acquired : Bool ← step .acquire
  if acquired then
    let result ← attempts http cfg rawURL cfg.maxAttempts.1.toNat 1 (.ok [])
    let _ ← step .release
    return result
  else return .error .ended

/-- `Fetch` while it holds the gate. -/
def withGate (http : Http) (cfg : Config) (rawURL : String) (gate : ℕ) :
    Prog FetchSig (Except Failure (List UInt8)) := do
  let cut ← waitInterval cfg gate
  if cut then return .error .ended else withSlot http cfg rawURL

/-- `Fetch`; the functions that it defers are its last actions. -/
def fetch (http : Http) (parse : String → Option String) (cfg : Config) (rawURL : String) :
    Prog FetchSig (Except Failure (List UInt8)) := do
  let gate : ℕ ← step (.gateFor (hostKey parse rawURL))
  let _ ← step (.lock gate)
  let result ← withGate http cfg rawURL gate
  let _ ← step (.record gate)
  let _ ← step (.unlock gate)
  return result

end Code

section Bounds

variable (http : Http) (cfg : Config) (rawURL : String)

end Bounds

section Knowledge

/-- What a call holds: a gate, a slot, and whether its request is in flight; and whether it has set
the gate to its end. -/
structure Own where
  gate : Option ℕ := none
  slot : Bool := false
  flying : Bool := false
  recorded : Bool := false
  deriving DecidableEq

def Own.after (w : Own) : FetchSig.Act → Own
  | ⟨.lock gate, _⟩ => { w with gate := some gate }
  | ⟨.acquire, r⟩ => if r = true then { w with slot := true } else w
  | ⟨.begin, _⟩ => { w with flying := true }
  | ⟨.finish, _⟩ => { w with flying := false }
  | ⟨.release, _⟩ => { w with slot := false }
  | ⟨.record _, _⟩ => { w with recorded := true }
  | ⟨.unlock _, _⟩ => { w with gate := none }
  | _ => w

/-- What a call holds after its actions. -/
def own (l : List FetchSig.Act) : Own := l.foldl Own.after {}

@[simp] theorem own_snoc (l : List FetchSig.Act) (x : FetchSig.Act) :
    own (l ++ [x]) = (own l).after x := List.foldl_append ..

/-- The call has found that its host has been left alone for long enough, or has waited until
then. -/
def Waited (cfg : Config) (gate : ℕ) (l : List FetchSig.Act) : Prop :=
  ∃ l₁ l₂ l₃ last, l = l₁ ++ l₂ ++ l₃ ∧ (⟨.lastReq gate, (last : ℤ)⟩ : FetchSig.Act) ∈
    l₁ ∧ (last = 0 ∨
    ∃ now, (⟨.now, (now : ℤ)⟩ : FetchSig.Act) ∈ l₂ ∧ (waitFor cfg now last ≤ 0 ∨
      ∃ deadline, (⟨.timer .interval (waitFor cfg now last), (deadline : ℤ)⟩ : FetchSig.Act) ∈ l₃ ∧
        (⟨.await .interval deadline, true⟩ : FetchSig.Act) ∈ l₃))

/-- When a call for a host takes an action. -/
def Allowed (cfg : Config) (host : String) (l : List FetchSig.Act) : FetchOp → Prop
  | .gateFor h => h = host ∧ l = []
  | .lock gate => l = [⟨.gateFor host, gate⟩]
  | .lastReq gate => own l = { gate := some gate }
  | .await .interval _ => (own l).slot = false
  | .acquire => ∃ gate, own l = { gate := some gate } ∧ Waited cfg gate l
  | .begin => ∃ gate, own l = { gate := some gate, slot := true } ∧ Waited cfg gate l
  | .finish => ∃ gate, own l = { gate := some gate, slot := true, flying := true }
  | .release => ∃ gate, own l = { gate := some gate, slot := true }
  | .record gate => own l = { gate := some gate }
  | .unlock gate => own l = { gate := some gate, recorded := true }
  | _ => True

variable {http : Http} {cfg : Config} {host rawURL : String} {gate : ℕ} {l : List FetchSig.Act}

theorem Waited.append (h : Waited cfg gate l) (m : List FetchSig.Act) :
    Waited cfg gate (l ++ m) := by
  obtain ⟨l₁, l₂, l₃, last, rfl, hlast, hw⟩ := h
  refine ⟨l₁, l₂, l₃ ++ m, last, List.append_assoc .., hlast,
    hw.imp_right fun ⟨now, hnow, hw⟩ => ⟨now, hnow, hw.imp_right ?_⟩⟩
  exact fun ⟨deadline, htimer, hawait⟩ =>
    ⟨deadline, List.mem_append_left _ htimer, List.mem_append_left _ hawait⟩

end Knowledge

end ModDNS.Blocklists.Downloader
