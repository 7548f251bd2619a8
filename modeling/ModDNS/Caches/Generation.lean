import Mathlib.Data.List.Induction
import Mathlib.Logic.Function.Basic
import Mathlib.Order.Basic

/-!
# Cached answers and their generations

Answers that are derived from the data of a profile are cached under a generation number, a counter
in Redis. A read takes the number first, looks its answer up, queries the database when there is
none, and stores what it got under the number it has taken. A purge deletes the data and then
increments the counter. The counter expires, and starts again from 0.

The reads of a top list that find nothing cached share one computation for each key on an instance:
one leads the flight, the others join it and get its answer. A read that could not read the counter
does not use the cache, but shares the flight of number 0.

Every call is one step of its thread, at any later time; it may fail, with or without effect. An
answer carries in `asOf` how many increments had been carried out when its query ran, and a read in
`since` how many when it started. Neither has an influence on what the threads do.
-/

namespace ModDNS.Caches

/-- The scopes of the counters. -/
inductive Scope where
  | statisticsRead
  | logs
  deriving DecidableEq

structure GenerationKey where
  scope : Scope
  profileId : String
  deriving DecidableEq

/-- What a read asks for: the statistics of a timespan, the devices of the query logs, or a top list
of them. -/
inductive View where
  | statistics (timespan : String)
  | devices
  | top (kind timespan : String)
  deriving DecidableEq

def View.scope : View → Scope
  | .statistics _ => .statisticsRead
  | .devices => .logs
  | .top .. => .logs

structure EntryKey where
  profileId : String
  view : View
  gen : ℕ
  deriving DecidableEq

/-- In seconds. -/
def generationTTL : ℕ := 7 * 24 * 3600

def statisticsReadTTL : ℕ := 60

def queryLogDevicesCacheTTL : ℕ := 10 * 60

def queryLogTopCacheTTL : ℕ := 5 * 60

def queryLogTopEmptyCacheTTL : ℕ := 30

/-- An answer of the database; `count` is its total, or the number of its devices or items. -/
structure Answer where
  payload : String
  count : ℕ
  asOf : ℕ
  deriving DecidableEq

/-- For how long an answer is cached. An empty one is not, except for a top list, which is kept
briefly. -/
def View.ttl (view : View) (answer : Answer) : Option ℕ :=
  match view with
  | .statistics _ => if answer.count = 0 then none else some statisticsReadTTL
  | .devices => if answer.count = 0 then none else some queryLogDevicesCacheTTL
  | .top .. => some (if answer.count = 0 then queryLogTopEmptyCacheTTL else queryLogTopCacheTTL)

/-- A value in Redis, with the time at which its key expires. -/
structure Stored (α : Type) where
  value : α
  expireAt : Option ℕ

/-- The value at a time. -/
def Stored.at? {α : Type} (x : Option (Stored α)) (now : ℕ) : Option α :=
  match x with
  | none => none
  | some x => match x.expireAt with
    | none => some x.value
    | some t => if now < t then some x.value else none

inductive Job where
  /-- `GetProfileStatistics` with statistics on, `GetProfileQueryLogDevices`, or one of
  `GetProfileQueryLogTop`, `GetProfileQueryLogClients` and `GetProfileQueryLogBlocklists` with its
  logs on, at an instance of the API. -/
  | read (host : ℕ) (profileId : String) (view : View)
  /-- `PurgeProfile`, or `DeleteProfileQueryLogs`. -/
  | purge (profileId : String) (scope : Scope)
  deriving DecidableEq

def Job.key : Job → GenerationKey
  | .read _ profileId view => ⟨view.scope, profileId⟩
  | .purge profileId scope => ⟨scope, profileId⟩

/-- Where a thread is. -/
inductive Phase (ι : Type) where
  | start
  | toLookUp (since gen : ℕ)
  /-- A top list that is not cached: the limiter is asked, then the flight of the key is joined or
  led. -/
  | toShare (since : ℕ) (gen : Option ℕ)
  | joined (since : ℕ) (leader : ι)
  /-- Without a generation the cache is skipped both ways. -/
  | toQuery (since : ℕ) (gen : Option ℕ)
  /-- A top list whose coverage is still to be looked up. -/
  | toCover (since : ℕ) (gen : Option ℕ) (answer : Answer)
  | toWrite (since gen ttl : ℕ) (answer : Answer)
  /-- `none` is an error. -/
  | returned (since : ℕ) (answer : Option Answer)
  | toIncr
  | toExpire
  | purged
  deriving DecidableEq

/-- Where a read goes on that has found nothing cached. -/
def View.miss {ι : Type} (view : View) (since : ℕ) (gen : Option ℕ) : Phase ι :=
  match view with
  | .top .. => .toShare since gen
  | _ => .toQuery since gen

variable {ι : Type}

/-- `flights` has the thread that leads the computation of a key on an instance. -/
structure System (ι : Type) where
  now : ℕ
  counters : GenerationKey → Option (Stored ℕ)
  entries : EntryKey → Option (Stored Answer)
  bumps : GenerationKey → ℕ
  flights : ℕ → EntryKey → Option ι
  job : ι → Job
  phase : ι → Phase ι

/-- How the call of a step is answered. -/
inductive Outcome where
  | ok
  | fail (applied : Bool)
  deriving DecidableEq

def Outcome.applied : Outcome → Bool
  | .ok => true
  | .fail applied => applied

/-- The next step of a thread: when, how its call is answered, what the database answers to a query,
and whether the limiter refuses. -/
structure Move (ι : Type) where
  who : ι
  time : ℕ
  outcome : Outcome := .ok
  payload : String := ""
  count : ℕ := 0
  refused : Bool := false

section Redis

variable (s : System ι)

/-- `Generation`: 0 when none is stored. -/
def System.generation (k : GenerationKey) : ℕ := (Stored.at? (s.counters k) s.now).getD 0

def System.incr (k : GenerationKey) : System ι :=
  { s with
    counters := Function.update s.counters k <| some <|
      match s.counters k, Stored.at? (s.counters k) s.now with
      | some x, some gen => ⟨gen + 1, x.expireAt⟩
      | _, _ => ⟨1, none⟩
    bumps := Function.update s.bumps k (s.bumps k + 1) }

def System.expire (k : GenerationKey) : System ι :=
  match s.counters k, Stored.at? (s.counters k) s.now with
  | some x, some _ =>
    { s with
      counters := Function.update s.counters k
        (some { x with expireAt := some (s.now + generationTTL) }) }
  | _, _ => s

def System.setEntry (k : EntryKey) (answer : Answer) (ttl : ℕ) : System ι :=
  { s with entries := Function.update s.entries k (some ⟨answer, some (s.now + ttl)⟩) }

def System.lookUp (k : EntryKey) : Option Answer := Stored.at? (s.entries k) s.now

/-- The time has come to `t`. -/
def System.tick (t : ℕ) : System ι := { s with now := t }

end Redis

section Threads

variable (s : System ι) [DecidableEq ι]

def System.go (i : ι) (p : Phase ι) : System ι := { s with phase := Function.update s.phase i p }

def System.lead (i : ι) (host : ℕ) (k : EntryKey) : System ι :=
  { s with flights := Function.update s.flights host (Function.update (s.flights host) k (some i)) }

/-- The flight of the thread, if it leads one, is over. -/
def System.land (i : ι) : System ι :=
  { s with flights := fun host k => (s.flights host k).filter (· ≠ i) }

/-- `topFlight.Do`: what is in flight under the key on the instance is joined. -/
def System.share (i : ι) (host : ℕ) (k : EntryKey) (since : ℕ) (gen : Option ℕ) : System ι :=
  match s.flights host k with
  | some leader => s.go i (.joined since leader)
  | none => (s.go i (.toQuery since gen)).lead i host k

/-- The read returns, and those that have joined it may. -/
def System.finish (i : ι) (since : ℕ) (answer : Option Answer) : System ι :=
  (s.land i).go i (.returned since answer)

/-- The answer is there, and is stored if it may be. -/
def System.store (i : ι) (view : View) (since : ℕ) (gen : Option ℕ) (answer : Answer) : System ι :=
  match gen, view.ttl answer with
  | some gen, some ttl => s.go i (.toWrite since gen ttl answer)
  | _, _ => s.finish i since (some answer)

/-- The step of a read. -/
def System.readStep (m : Move ι) (host : ℕ) (profileId : String) (view : View) :
    Phase ι → Option (System ι)
  | .start => match m.outcome with
    | .ok => some (s.go m.who (.toLookUp (s.bumps ⟨view.scope, profileId⟩)
        (s.generation ⟨view.scope, profileId⟩)))
    | .fail _ => some (s.go m.who (view.miss (s.bumps ⟨view.scope, profileId⟩) none))
  | .toLookUp since gen => match m.outcome with
    | .ok => match s.lookUp ⟨profileId, view, gen⟩ with
      | some answer => some (s.finish m.who since (some answer))
      | none => some (s.go m.who (view.miss since (some gen)))
    | .fail _ => some (s.go m.who (view.miss since (some gen)))
  | .toShare since gen =>
    -- a limiter that fails lets the read pass
    if m.outcome = .ok ∧ m.refused then some (s.finish m.who since none)
    else some (s.share m.who host ⟨profileId, view, gen.getD 0⟩ since gen)
  | .joined since leader => match s.phase leader with
    | .returned _ answer => some (s.finish m.who since answer)
    | _ => none
  | .toQuery since gen => match m.outcome with
    | .fail _ => some (s.finish m.who since none)
    | .ok =>
      let answer : Answer := ⟨m.payload, m.count, s.bumps ⟨view.scope, profileId⟩⟩
      match view with
      | .top .. => some (s.go m.who (.toCover since gen answer))
      | _ => some (s.store m.who view since gen answer)
  | .toCover since gen answer => match m.outcome with
    -- without its coverage the list is not stored
    | .fail _ => some (s.finish m.who since (some answer))
    | .ok => some (s.store m.who view since gen
        { answer with payload := answer.payload ++ m.payload })
  | .toWrite since gen ttl answer =>
    let s := if m.outcome.applied then s.setEntry ⟨profileId, view, gen⟩ answer ttl else s
    some (s.finish m.who since (some answer))
  | _ => none

/-- The step of a purge. The statistics are invalidated also when their deletion has failed. -/
def System.purgeStep (m : Move ι) (profileId : String) (scope : Scope) : Phase ι → Option (System ι)
  | .start =>
    if m.outcome = .ok ∨ scope = .statisticsRead then some (s.go m.who .toIncr)
    else some (s.go m.who .purged)
  | .toIncr =>
    let s := if m.outcome.applied then s.incr ⟨scope, profileId⟩ else s
    if m.outcome = .ok ∧ s.generation ⟨scope, profileId⟩ = 1 then some (s.go m.who .toExpire)
    else some (s.go m.who .purged)
  | .toExpire =>
    let s := if m.outcome.applied then s.expire ⟨scope, profileId⟩ else s
    some (s.go m.who .purged)
  | _ => none

/-- A step, some time after the last one. -/
def System.step (m : Move ι) : Option (System ι) :=
  if m.time < s.now then none
  else match s.job m.who with
    | .read host profileId view => (s.tick m.time).readStep m host profileId view (s.phase m.who)
    | .purge profileId scope => (s.tick m.time).purgeStep m profileId scope (s.phase m.who)

/-- The system after a list of steps. -/
def System.play : List (Move ι) → System ι → Option (System ι)
  | [], s => some s
  | m :: ms, s => (s.step m).bind (System.play ms)

end Threads

/-- The system at the start: nothing is cached or in flight, and no thread has begun. -/
def System.initial (job : ι → Job) : System ι where
  now := 0
  counters _ := none
  entries _ := none
  bumps _ := 0
  flights _ _ := none
  job := job
  phase _ := .start

end ModDNS.Caches
