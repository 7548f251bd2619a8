import ModDNS.Data.Chunks
import ModDNS.Data.Tally
import Mathlib.Data.Finset.Basic

/-!
# The statistics of a proxy

Events are counted into the document of their hour, for the whole service, and, with consent, into
the entries of their profile and device in two tiers. Ticks, a full batch, a cap on the entries and
the stop of the collector hand what has been counted to the emitter.

Times are in nanoseconds of UTC, since the zero time of Go.
-/

namespace ModDNS.Collector

open Data

def statisticsBucket15Min : ℤ := 15 * 60 * 1000000000

def statisticsBucket1Hour : ℤ := 60 * 60 * 1000000000

def dayLength : ℤ := 24 * 60 * 60 * 1000000000

def maxDevicesPerProfileBucket : ℕ := 64

def otherDeviceID : String := "_other"

def statisticsEmitChunkSize : ℕ := 5000

def defaultMaxOpenEntries : ℤ := 12000

inductive StatisticsTier where
  | tier15Min
  | tier1Hour
  | tier1Day
  deriving DecidableEq

/-- `Time.Truncate`. -/
def truncate (t d : ℤ) : ℤ := t - t % d

/-- The start of the bucket that contains a time. -/
def StatisticsTier.bucketStart : StatisticsTier → ℤ → ℤ
  | .tier1Day, t => truncate t dayLength
  | .tier1Hour, t => truncate t statisticsBucket1Hour
  | .tier15Min, t => truncate t statisticsBucket15Min

/-- The one reason to which a blocked query is attributed. -/
inductive ReasonClass where
  | blocklist
  | service
  | customRule
  | rebinding
  | defaultRule
  | other
  deriving DecidableEq

inductive StatisticsProtocol where
  | doH
  | doT
  | doQ
  deriving DecidableEq

/-- The setting of the profile, verbatim. -/
abbrev StatisticsRetention := String

@[ext] structure Queries where
  total : ℤ
  blocked : ℤ
  dnssec : ℤ
  deriving DecidableEq

def Queries.add (q other : Queries) : Queries where
  total := q.total + other.total
  blocked := q.blocked + other.blocked
  dnssec := q.dnssec + other.dnssec

/-- The part of an event that is set with consent only. A query that is not blocked has no reason
class. -/
structure ConsentedStatistics where
  profileId : String
  deviceId : String
  retention : StatisticsRetention
  reasonClass : Option ReasonClass
  protocol : Option StatisticsProtocol
  deriving DecidableEq

structure EventStatistics where
  queries : Queries
  consented : Option ConsentedStatistics
  deriving DecidableEq

/-- The counters of a profile and a device, for a bucket of a tier. -/
structure Statistics where
  bucketStart : ℤ
  profileId : String
  deviceId : String
  total : ℤ := 0
  blocked : ℤ := 0
  dnssec : ℤ := 0
  reasonBlocklist : ℤ := 0
  reasonService : ℤ := 0
  reasonCustomRule : ℤ := 0
  reasonRebinding : ℤ := 0
  reasonDefaultRule : ℤ := 0
  reasonOther : ℤ := 0
  protoDoH : ℤ := 0
  protoDoT : ℤ := 0
  protoDoQ : ℤ := 0
  tier : StatisticsTier
  retention : StatisticsRetention
  deriving DecidableEq

/-- The same counters as a measurement of the day. -/
def Statistics.forDay (s : Statistics) : Statistics :=
  { s with tier := .tier1Day, bucketStart := StatisticsTier.tier1Day.bucketStart s.bucketStart }

def Statistics.countReason (s : Statistics) : Option ReasonClass → Statistics
  | some .blocklist => { s with reasonBlocklist := s.reasonBlocklist + 1 }
  | some .service => { s with reasonService := s.reasonService + 1 }
  | some .customRule => { s with reasonCustomRule := s.reasonCustomRule + 1 }
  | some .rebinding => { s with reasonRebinding := s.reasonRebinding + 1 }
  | some .defaultRule => { s with reasonDefaultRule := s.reasonDefaultRule + 1 }
  | some .other => { s with reasonOther := s.reasonOther + 1 }
  | none => s

def Statistics.countProtocol (s : Statistics) : Option StatisticsProtocol → Statistics
  | some .doH => { s with protoDoH := s.protoDoH + 1 }
  | some .doT => { s with protoDoT := s.protoDoT + 1 }
  | some .doQ => { s with protoDoQ := s.protoDoQ + 1 }
  | none => s

def Statistics.count (s : Statistics) (q : Queries) (c : ConsentedStatistics) : Statistics :=
  let s := { s with
             total := s.total + q.total, blocked := s.blocked + q.blocked
             dnssec := s.dnssec + q.dnssec }
  (s.countReason c.reasonClass).countProtocol c.protocol

/-- The counters of the whole service for an hour. Its ID is made from the PoP and the hour. -/
structure ServiceStatistics where
  timestamp : ℤ
  pop : String
  queries : Queries
  deriving DecidableEq

/-- The hour of a service document. -/
def bucketStart (t : ℤ) : ℤ := truncate t statisticsBucket1Hour

def newServiceStatistics (pop : String) (t : ℤ) : ServiceStatistics :=
  ⟨bucketStart t, pop, ⟨0, 0, 0⟩⟩

def ServiceStatistics.aggregate (s : ServiceStatistics) (event : EventStatistics) :
    ServiceStatistics :=
  { s with queries := s.queries.add event.queries }

structure FleetAccumulator where
  pop : String
  buckets : Table ℤ ServiceStatistics
  events : ℕ

def newFleetAccumulator (pop : String) : FleetAccumulator := ⟨pop, ∅, 0⟩

def FleetAccumulator.add (a : FleetAccumulator) (event : EventStatistics) (now : ℤ) :
    FleetAccumulator :=
  let bucket := bucketStart now
  let doc := (a.buckets.lookup bucket).getD (newServiceStatistics a.pop now)
  { a with buckets := a.buckets.insert bucket (doc.aggregate event), events := a.events + 1 }

/-- The open documents by hour, and the accumulator without them. -/
def FleetAccumulator.take (a : FleetAccumulator) : List ServiceStatistics × FleetAccumulator :=
  if (values a.buckets).isEmpty then ([], a)
  else ((values a.buckets).mergeSort fun x y => x.timestamp ≤ y.timestamp,
    { a with buckets := ∅, events := 0 })

structure ConsentedKey where
  profileId : String
  deviceId : String
  bucket : ℤ
  deriving DecidableEq

structure ProfileBucket where
  profileId : String
  bucket : ℤ
  deriving DecidableEq

def ConsentedKey.profileBucket (key : ConsentedKey) : ProfileBucket := ⟨key.profileId, key.bucket⟩

/-- The counters of the open buckets of a tier. -/
structure ConsentedAccumulator where
  tier : StatisticsTier
  entries : Table ConsentedKey Statistics
  devices : ProfileBucket → ℕ
  /-- The keys counted in `devices`, of which the entries may have been taken already. -/
  admitted : Finset ConsentedKey

def newConsentedAccumulator (tier : StatisticsTier) : ConsentedAccumulator :=
  ⟨tier, ∅, fun _ => 0, ∅⟩

/-- The order in which a map is ranged over. -/
structure RangeOrder where
  apply : List Statistics → List Statistics
  perm : ∀ docs, (apply docs).Perm docs

namespace ConsentedAccumulator

variable (a : ConsentedAccumulator)

def width : ℤ := if a.tier = .tier1Hour then statisticsBucket1Hour else statisticsBucket15Min

/-- The key of the profile, the device and the bucket. -/
def ownKey (cs : ConsentedStatistics) (now : ℤ) : ConsentedKey :=
  ⟨cs.profileId, cs.deviceId, a.tier.bucketStart now⟩

/-- The key that an event is counted under, and the accumulator in which its device is admitted. -/
def place (cs : ConsentedStatistics) (now : ℤ) : ConsentedKey × ConsentedAccumulator :=
  let key := a.ownKey cs now
  if (a.entries.lookup key).isSome || key ∈ a.admitted then (key, a)
  else if a.devices key.profileBucket ≥ maxDevicesPerProfileBucket then
    ({ key with deviceId := otherDeviceID }, a)
  else (key, { a with
    devices := Function.update a.devices key.profileBucket (a.devices key.profileBucket + 1)
    admitted := insert key a.admitted })

/-- The document under a key, a new one if there is none. -/
def document (key : ConsentedKey) (retention : StatisticsRetention) : Statistics :=
  (a.entries.lookup key).getD
    { bucketStart := key.bucket, profileId := key.profileId, deviceId := key.deviceId
      tier := a.tier, retention := retention }

def add (q : Queries) (cs : ConsentedStatistics) (now : ℤ) : ConsentedAccumulator :=
  let (key, a) := a.place cs now
  let doc := { a.document key cs.retention with retention := cs.retention }
  { a with entries := a.entries.insert key (doc.count q cs) }

def size : ℕ := (values a.entries).length

/-- `take`: the entries of some buckets, and the accumulator without them and without the devices of
some buckets. -/
def take (order : RangeOrder) (wantEntry wantDevices : ℤ → Bool) :
    List Statistics × ConsentedAccumulator :=
  (order.apply (values (keep a.entries fun key => wantEntry key.bucket)), { a with
    entries := keep a.entries fun key => !wantEntry key.bucket
    devices := fun pb => if wantDevices pb.bucket then 0 else a.devices pb
    admitted := a.admitted.filter fun key => !wantDevices key.bucket })

/-- The bucket is over. -/
def closed (now bucket : ℤ) : Bool := bucket + a.width ≤ now

def takeClosed (order : RangeOrder) (now : ℤ) : List Statistics × ConsentedAccumulator :=
  a.take order (a.closed now) (a.closed now)

def takeAll (order : RangeOrder) : List Statistics × ConsentedAccumulator :=
  a.take order (fun _ => true) (fun _ => true)

/-- Takes every entry, and keeps the devices of the buckets that are open. -/
def takeCounts (order : RangeOrder) (now : ℤ) : List Statistics × ConsentedAccumulator :=
  a.take order (fun _ => true) (a.closed now)

end ConsentedAccumulator

structure Config where
  pop : String
  batchSize : ℤ
  maxOpenEntries : ℤ

def Config.maxEntries (config : Config) : ℤ :=
  if config.maxOpenEntries > 0 then config.maxOpenEntries else defaultMaxOpenEntries

structure StatisticsCollector where
  fleet : FleetAccumulator
  quarter : ConsentedAccumulator
  hour : ConsentedAccumulator

def newStatisticsCollector (config : Config) : StatisticsCollector :=
  ⟨newFleetAccumulator config.pop, newConsentedAccumulator .tier15Min,
    newConsentedAccumulator .tier1Hour⟩

/-- Counts an event, and says whether it had consent. -/
def StatisticsCollector.record (c : StatisticsCollector) (event : EventStatistics) (now : ℤ) :
    Bool × StatisticsCollector :=
  let c := { c with fleet := c.fleet.add event now }
  match event.consented with
  | none => (false, c)
  | some cs =>
    (true, { c with
             quarter := c.quarter.add event.queries cs now
             hour := c.hour.add event.queries cs now })

/-- The orders in which the entries of the two tiers are taken. -/
structure Orders where
  quarter : RangeOrder
  hour : RangeOrder

/-- What `flushConsented` takes, and the batch that it makes of it. -/
def StatisticsCollector.takeConsented (c : StatisticsCollector) (all : Bool)
    (orders : Orders) (now : ℤ) :
    List Statistics × StatisticsCollector :=
  let (quarters, quarter) := if all then c.quarter.takeAll orders.quarter
    else c.quarter.takeClosed orders.quarter now
  let (hours, hour) :=
    if all then c.hour.takeAll orders.hour
    else if quarters.length > 0 then c.hour.takeCounts orders.hour now
    else c.hour.takeClosed orders.hour now
  (quarters ++ hours.flatMap fun h => [h, h.forDay], { c with quarter := quarter, hour := hour })

/-- The chunks of a batch that are emitted, and what is dropped because the flush deadline has
passed before its chunk. Without a deadline nothing is. -/
def emitConsented (inTime : Option ℕ) (batch : List Statistics) :
    List Statistics × List Statistics :=
  let calls := chunks statisticsEmitChunkSize batch
  match inTime with
  | none => (calls.flatten, [])
  | some n => ((calls.take n).flatten, (calls.drop n).flatten)

/-- The collector and what has left it. `seen` are the events, with the time at which each was
counted, `flushedAll` is how often every entry was taken, and `recent` are the documents that were
taken since. -/
structure System where
  collector : StatisticsCollector
  clock : ℤ
  stopped : Bool := false
  service : List ServiceStatistics := []
  emitted : List Statistics := []
  dropped : List Statistics := []
  seen : List (EventStatistics × ℤ) := []
  flushedAll : ℕ := 0
  recent : List Statistics := []

def System.initial (config : Config) (clock : ℤ) : System :=
  { collector := newStatisticsCollector config, clock := clock }

/-- What the loop of the collector receives. At a stop there may be events in the queue, and only so
many chunks may begin before the deadline. -/
inductive Move where
  | event (event : EventStatistics) (now : ℤ) (orders : Orders)
  | tick (now : ℤ) (orders : Orders)
  | stop (queue : List (EventStatistics × ℤ)) (orders : Orders) (inTime : ℕ)

namespace System

variable (s : System)

def record (event : EventStatistics) (now : ℤ) : System :=
  { s with
    collector := (s.collector.record event now).2, clock := now, seen := s.seen ++ [(event, now)] }

def flush : System :=
  let (batch, fleet) := s.collector.fleet.take
  { s with collector := { s.collector with fleet := fleet }, service := s.service ++ batch }

def flushConsented (all : Bool) (orders : Orders) (now : ℤ) (inTime : Option ℕ) : System :=
  let (batch, collector) := s.collector.takeConsented all orders now
  let (emitted, dropped) := emitConsented inTime batch
  { s with
    collector := collector, emitted := s.emitted ++ emitted, dropped := s.dropped ++ dropped
    flushedAll := if all then s.flushedAll + 1 else s.flushedAll
    recent := if all then [] else s.recent ++ batch }

/-- An event, and the flush of the entries when there are too many. -/
def add (config : Config) (event : EventStatistics) (now : ℤ) (orders : Orders) : System :=
  let recorded := (s.collector.record event now).1
  let s := s.record event now
  if recorded && ((s.collector.quarter.size + s.collector.hour.size : ℕ) : ℤ) ≥
    config.maxEntries then
    s.flushConsented true orders now none
  else s

/-- The events that are still in the queue at a stop. -/
def drain : List (EventStatistics × ℤ) → System → Option System
  | [], s => some s
  | (event, now) :: queue, s => if now < s.clock then none else drain queue (s.record event now)

/-- One round of `Collect`. The clock does not go back, and a collector that has stopped receives
nothing. -/
def step (config : Config) : Move → Option System
  | .event event now orders =>
    if s.stopped || now < s.clock then none
    else
      let s := s.add config event now orders
      some (if (s.collector.fleet.events : ℤ) ≥ config.batchSize then s.flush else s)
  | .tick now orders =>
    if s.stopped || now < s.clock then none
    else
      let s := { s with clock := now }
      let s := if s.collector.fleet.events = 0 then s else s.flush
      some (s.flushConsented false orders now none)
  | .stop queue orders inTime =>
    if s.stopped then none
    else (s.drain queue).map fun s =>
      { s.flush.flushConsented true orders s.clock (some inTime) with stopped := true }

section Steps

variable {s} {config : Config} {event : EventStatistics} {now : ℤ} {orders : Orders} {s' : System}

/-- After an event is counted every entry may be flushed, but nothing else is. -/
theorem add_cases (s : System) (config : Config) (event : EventStatistics) (now : ℤ)
    (orders : Orders) :
    s.add config event now orders = s.record event now ∨
      s.add config event now orders = (s.record event now).flushConsented true orders now none := by
  unfold add
  simp only
  split
  · exact .inr rfl
  · exact .inl rfl

/-- What holds before the queue is read and is kept by each event holds after it. -/
theorem drain_induct {P : System → Prop} {queue : List (EventStatistics × ℤ)}
    (hrecord : ∀ s event now, s.clock ≤ now → P s → P (s.record event now)) (h : P s)
    (hdrain : s.drain queue = some s') :
    P s' := by
  induction queue generalizing s with
  | nil =>
    obtain rfl := Option.some.inj hdrain
    exact h
  | cons e queue ih =>
    unfold drain at hdrain
    split at hdrain
    · cases hdrain
    · next hclock => exact ih (hrecord s e.1 e.2 (not_lt.1 hclock) h) hdrain

theorem step_event (h : s.step config (.event event now orders) = some s') :
    s.stopped = false ∧ s.clock ≤ now ∧
      (s' = s.add config event now orders ∨ s' = (s.add config event now orders).flush) := by
  unfold step at h
  simp only at h
  split at h
  · cases h
  · next hguard =>
    simp only [Bool.or_eq_true, decide_eq_true_eq, not_or, Bool.not_eq_true, not_lt] at hguard
    refine ⟨hguard.1, hguard.2, ?_⟩
    obtain rfl := Option.some.inj h
    split
    · exact .inr rfl
    · exact .inl rfl

/-- The service documents are flushed first, if there is an event in them. -/
theorem step_tick (h : s.step config (.tick now orders) = some s') :
    s.stopped = false ∧ s.clock ≤ now ∧ ∃ s₁,
      (s₁ = { s with clock := now } ∨ s₁ = System.flush { s with clock := now }) ∧
        s' = s₁.flushConsented false orders now none := by
  unfold step at h
  simp only at h
  split at h
  · cases h
  · next hguard =>
    simp only [Bool.or_eq_true, decide_eq_true_eq, not_or, Bool.not_eq_true, not_lt] at hguard
    refine ⟨hguard.1, hguard.2, ?_⟩
    obtain rfl := Option.some.inj h
    split
    · exact ⟨_, .inl rfl, rfl⟩
    · exact ⟨_, .inr rfl, rfl⟩

/-- The last flush is of every entry that the queue has left, and has a deadline. -/
theorem step_stop {queue : List (EventStatistics × ℤ)} {inTime : ℕ}
    (h : s.step config (.stop queue orders inTime) = some s') :
    ∃ s₁, s.drain queue = some s₁ ∧
      s' = { s₁.flush.flushConsented true orders s₁.clock (some inTime) with stopped := true } := by
  unfold step at h
  simp only at h
  split at h
  · cases h
  · obtain ⟨s₁, hdrain, rfl⟩ := Option.map_eq_some_iff.1 h
    exact ⟨s₁, hdrain, rfl⟩

end Steps

end System

/-- The system after a list of rounds. -/
def System.play (config : Config) : List Move → System → Option System
  | [], s => some s
  | m :: ms, s => (s.step config m).bind (System.play config ms)

/-- The states of the collector in its runs. -/
inductive Reaches (config : Config) : System → Prop where
  | initial (clock : ℤ) : Reaches config (System.initial config clock)
  | step {s s' : System} (m : Move) : Reaches config s → s.step config m = some s' →
      Reaches config s'

theorem reaches_play {config : Config} {ms : List Move} {s s' : System} (h : Reaches config s)
    (hplay : s.play config ms = some s') : Reaches config s' := by
  induction ms generalizing s with
  | nil =>
    obtain rfl := Option.some.inj hplay
    exact h
  | cons m ms ih =>
    obtain ⟨s₁, hstep, hrest⟩ := Option.bind_eq_some_iff.1 hplay
    exact ih (.step m h hstep) hrest

end ModDNS.Collector
