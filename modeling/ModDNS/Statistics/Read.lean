import Mathlib.Data.Prod.Lex
import Mathlib.Data.String.Basic
import ModDNS.Collector.Conservation
import ModDNS.Mongo.Pipeline

/-!
# Reading the statistics

`GetProfileStatistics` without the cache: the aggregation of the database, and what the API makes of
it. The totals, the series and the devices are facets of one aggregation, each with its own groups.

Times are in nanoseconds of UTC, since the zero time of Go; a document of the collector is stored
without its tier and its retention.
-/

namespace ModDNS.Statistics

open Data Mongo Pipeline Collector

section Settings

def minute : ℤ := 60 * 1000000000

def hour : ℤ := 60 * minute

def day : ℤ := 24 * hour

/-- `Retention.OrDefault`. -/
def orDefault (r : String) : String := if r = "30d" ∨ r = "90d" ∨ r = "1y" then r else "30d"

/-- `Retention.Window`. -/
def retentionWindow (r : String) : ℤ :=
  if orDefault r = "90d" then 90 * day else if orDefault r = "1y" then 365 * day else 30 * day

structure TimespanSpec where
  window : ℤ
  bucket : ℤ
  tier : StatisticsTier
  deriving DecidableEq

def newStatisticsTimespan (timespan : String) : Option TimespanSpec :=
  if timespan = "LAST_3_HOURS" then some ⟨3 * hour, 15 * minute, .tier15Min⟩
  else if timespan = "LAST_6_HOURS" then some ⟨6 * hour, 15 * minute, .tier15Min⟩
  else if timespan = "LAST_1_DAY" then some ⟨24 * hour, hour, .tier1Hour⟩
  else if timespan = "LAST_7_DAYS" then some ⟨7 * 24 * hour, hour, .tier1Hour⟩
  else if timespan = "LAST_MONTH" then some ⟨30 * 24 * hour, 24 * hour, .tier1Day⟩
  else if timespan = "LAST_3_MONTHS" then some ⟨90 * 24 * hour, 24 * hour, .tier1Day⟩
  else if timespan = "LAST_YEAR" then some ⟨365 * 24 * hour, 24 * hour, .tier1Day⟩
  else none

/-- What a read looks at in the settings of a profile. -/
structure ReadSettings where
  enabled : Bool
  enabledAt : Option ℤ
  historyDeletedAt : Option ℤ
  retention : String
  deriving DecidableEq

def statisticsRetention (settings : Option ReadSettings) : String × ℤ :=
  match settings with
  | none => (orDefault "", retentionWindow "")
  | some s => (orDefault s.retention, retentionWindow s.retention)

end Settings

section Responses

structure StatisticsTotals where
  total : ℤ := 0
  blocked : ℤ := 0
  dnssec : ℤ := 0
  deriving DecidableEq

structure StatisticsPoint where
  ts : ℤ
  total : ℤ := 0
  blocked : ℤ := 0
  dnssec : ℤ := 0
  deriving DecidableEq

structure StatisticsReasons where
  blocklist : ℤ := 0
  service : ℤ := 0
  customRule : ℤ := 0
  rebinding : ℤ := 0
  defaultRule : ℤ := 0
  other : ℤ := 0
  deriving DecidableEq

structure StatisticsProtocols where
  doH : ℤ := 0
  doT : ℤ := 0
  doQ : ℤ := 0
  deriving DecidableEq

structure StatisticsDevice where
  deviceId : String
  total : ℤ
  blocked : ℤ
  deriving DecidableEq

/-- What the repository returns for a range. -/
structure StatisticsAggregate where
  totals : StatisticsTotals
  series : List StatisticsPoint
  reasons : StatisticsReasons
  protocols : StatisticsProtocols
  devices : List StatisticsDevice

structure StatisticsResponse where
  enabled : Bool := false
  enabledAt : Option ℤ := none
  historyDeletedAt : Option ℤ := none
  retention : String
  timespan : String
  windowFrom : ℤ
  windowTo : ℤ
  bucketSeconds : ℤ
  totals : StatisticsTotals := {}
  series : List StatisticsPoint := []
  reasons : StatisticsReasons := {}
  protocols : StatisticsProtocols := {}
  devices : List StatisticsDevice := []
  deriving DecidableEq

end Responses

section Repository

inductive StatisticsColl where
  | coll15min
  | coll1h
  | coll1d30d
  | coll1d90d
  | coll1d1y
  deriving DecidableEq

/-- What is stored. -/
abbrev StatisticsDB := StatisticsColl → List Statistics

def statisticsCollectionNames : List StatisticsColl :=
  [.coll15min, .coll1h, .coll1d30d, .coll1d90d, .coll1d1y]

def tierCollections : StatisticsTier → ℕ × ℕ
  | .tier15Min => (0, 1)
  | .tier1Hour => (1, 2)
  | .tier1Day => (2, 5)

def tierCollectionNames (tier : StatisticsTier) : List StatisticsColl :=
  (statisticsCollectionNames.take (tierCollections tier).2).drop (tierCollections tier).1

def statisticsCounterFields : List Counter :=
  [.total, .blocked, .dnssec, .reason .blocklist, .reason .service, .reason .customRule,
    .reason .rebinding, .reason .defaultRule,
    .reason .other, .proto .doH, .proto .doT, .proto .doQ]

/-- An `_id`, and counters. -/
abbrev Row (κ : Type) := κ × (Counter → ℤ)

/-- A `$group` stage that sums counters. -/
def sumGroup {α κ : Type} [DecidableEq κ] (id : α → κ) (counters : List Counter)
    (source : α → Counter → ℤ) : Pipeline α (Row κ) :=
  group id fun docs k => if k ∈ counters then (docs.map fun d => source d k).sum else 0

/-- Sums counters that are sums already. -/
def facetGroup {κ κ' : Type} [DecidableEq κ'] (id : κ → κ') (counters : List Counter) :
    Pipeline (Row κ) (Row κ') :=
  sumGroup (fun row => id row.1) counters Prod.snd

inductive DateUnit where
  | minute
  | hour
  | day
  deriving DecidableEq

def DateUnit.length : DateUnit → ℤ
  | .minute => Statistics.minute
  | .hour => Statistics.hour
  | .day => Statistics.day

def dateTruncBucket (bucket : ℤ) : DateUnit × ℤ :=
  if bucket % (24 * hour) = 0 then (.day, bucket / (24 * hour))
  else if bucket % hour = 0 then (.hour, bucket / hour)
  else (.minute, bucket / minute)

/-- 2000-01-01, where the bins of `$dateTrunc` start. -/
def epoch2000 : ℤ := 730119 * day

/-- `$dateTrunc`. -/
def dateTrunc (bin : DateUnit × ℤ) (date : ℤ) : ℤ :=
  date - (date - epoch2000) % (bin.1.length * bin.2)

variable (profileId : String) (start stop bucket : ℤ)

/-- The documents of the profile with a bucket in the range. -/
def inRange (d : Statistics) : Bool :=
  d.profileId = profileId ∧ start ≤ d.bucketStart ∧ d.bucketStart < stop

/-- The point and the device of a document. -/
def pointDevice (d : Statistics) : ℤ × String :=
  (dateTrunc (dateTruncBucket bucket) d.bucketStart, d.deviceId)

def statisticsBranch : Pipeline Statistics (Row (ℤ × String)) :=
  (filter (inRange profileId start stop)).andThen
    (sumGroup (pointDevice bucket) statisticsCounterFields Statistics.get)

structure StatisticsFacets where
  series : List (Row ℤ)
  totals : List (Row Unit)
  reasons : List (Row Unit)
  protocols : List (Row Unit)
  devices : List (Row String)

/-- By total, the largest first, then by name. -/
def deviceOrder (total : ℤ) (deviceId : String) : ℤ ×ₗ String := toLex (-total, deviceId)

def statisticsMaxDevices : ℕ := 100

/-- The last stage of the pipeline, which gives one document. -/
def facet (rows : List (Row (ℤ × String))) : Set StatisticsFacets :=
  {f | f.series ∈ ((facetGroup Prod.fst [.total, .blocked, .dnssec]).andThen (sort Prod.fst)) rows ∧
    f.totals ∈ facetGroup (fun _ => ()) [.total, .blocked, .dnssec] rows ∧
    f.reasons ∈ facetGroup (fun _ => ())
    [.reason .blocklist, .reason .service, .reason .customRule, .reason .rebinding,
      .reason .defaultRule, .reason .other] rows ∧
    f.protocols ∈ facetGroup (fun _ => ()) [.proto .doH, .proto .doT, .proto .doQ] rows ∧
    f.devices ∈ (((facetGroup Prod.snd [.total, .blocked]).andThen
      (sort fun row => deviceOrder (row.2 .total) row.1)).andThen
        (limit (statisticsMaxDevices + 1))) rows}

/-- What the stages before the last one can give. -/
def statisticsRows (db : StatisticsDB) : List StatisticsColl → Set (List (Row (ℤ × String)))
  | [] => ∅
  | first :: others =>
    (statisticsBranch profileId start stop bucket).andThen
      (unionWiths (others.map fun c => (statisticsBranch profileId start stop bucket, db c)))
      (db first)

def statisticsReadPipeline (db : StatisticsDB) (colls : List StatisticsColl) :
    Set StatisticsFacets :=
  {f | ∃ rows ∈ statisticsRows profileId start stop bucket db colls, f ∈ facet rows}

/-- The decoded facets; a facet of totals is empty when nothing was read. -/
def StatisticsFacets.aggregate (f : StatisticsFacets) : StatisticsAggregate where
  totals :=
    match f.totals.head? with
    | some row => ⟨row.2 .total, row.2 .blocked, row.2 .dnssec⟩
    | none => {}
  series := f.series.map fun row => ⟨row.1, row.2 .total, row.2 .blocked, row.2 .dnssec⟩
  reasons :=
    match f.reasons.head? with
    | some row =>
      ⟨row.2 (.reason .blocklist), row.2 (.reason .service), row.2 (.reason .customRule),
        row.2 (.reason .rebinding),
        row.2 (.reason .defaultRule), row.2 (.reason .other)⟩
    | none => {}
  protocols :=
    match f.protocols.head? with
    | some row => ⟨row.2 (.proto .doH), row.2 (.proto .doT), row.2 (.proto .doQ)⟩
    | none => {}
  devices := f.devices.map fun row => ⟨row.1, row.2 .total, row.2 .blocked⟩

/-- `StatisticsRepository.GetProfileStatistics`. -/
def readAggregate (db : StatisticsDB) (tier : StatisticsTier) : Set StatisticsAggregate :=
  {agg | ∃ f ∈ statisticsReadPipeline profileId start stop bucket db (tierCollectionNames tier),
    agg = f.aggregate}

end Repository

section Service

def second : ℤ := 1000000000

/-- `Time.Unix`. -/
def unix (t : ℤ) : ℤ := t / second - 719162 * 86400

def computeWindow (now : ℤ) (spec : TimespanSpec) (retention : ℤ) : ℤ × ℤ :=
  (truncate (now - min spec.window retention) spec.bucket, now)

def keepSince (start : ℤ) (deletedAt : Option ℤ) (bucket : ℤ) : ℤ :=
  match deletedAt with
  | none => start
  | some t =>
    let cutoff := if truncate t bucket < t then truncate t bucket + bucket else truncate t bucket
    if start < cutoff then cutoff else start

/-- The times of the loop, with fuel for its rounds. -/
def gridFrom (stop bucket : ℤ) : ℕ → ℤ → List ℤ
  | 0, _ => []
  | fuel + 1, ts => if ts < stop then ts :: gridFrom stop bucket fuel (ts + bucket) else []

def grid (start stop bucket : ℤ) : List ℤ :=
  gridFrom stop bucket ((stop - start) / bucket + 1).toNat start

/-- The point with a start, of which the last one is in the map. -/
def byStart (sparse : List StatisticsPoint) (ts : ℤ) : StatisticsPoint :=
  (sparse.reverse.find? fun p => unix p.ts = unix ts).getD ⟨0, 0, 0, 0⟩

def fillSeries (sparse : List StatisticsPoint) (start stop bucket : ℤ) : List StatisticsPoint :=
  (grid start stop bucket).map fun ts => { byStart sparse ts with ts := ts }

/-- What `sortDevices` sorts by. -/
def StatisticsDevice.order (d : StatisticsDevice) : ℤ ×ₗ String := deviceOrder d.total d.deviceId

/-- A round of the loop of `FoldDevices`, on what is kept and the entry for all others. -/
def keepDevice (acc : List StatisticsDevice × StatisticsDevice) (d : StatisticsDevice) :
    List StatisticsDevice × StatisticsDevice :=
  if d.deviceId ≠ otherDeviceID ∧ acc.1.length < statisticsMaxDevices - 1 then
    (acc.1 ++ [d],
      { acc.2 with total := acc.2.total - d.total, blocked := acc.2.blocked - d.blocked })
  else acc

def foldDevices (devices : List StatisticsDevice) (all : StatisticsTotals) :
    Set (List StatisticsDevice) :=
  {folded | ∃ out, Sorts StatisticsDevice.order devices out ∧
    if out.length ≤ statisticsMaxDevices then folded = out
    else
      let (kept, other) := out.foldl keepDevice ([], ⟨otherDeviceID, all.total, all.blocked⟩)
      Sorts StatisticsDevice.order (kept ++ [other]) folded}

inductive ReadErr where
  | invalidTimespan
  /-- The guard refuses to query the database. -/
  | missGuard
  | database
  deriving DecidableEq

/-- `StatisticsService.GetProfileStatistics`, without a cache. -/
def getProfileStatistics (db : StatisticsDB) (clock : ℤ) (profileId timespan : String)
    (settings : Option ReadSettings) (missGuard : Bool) : Set (Except ReadErr StatisticsResponse) :=
  match newStatisticsTimespan timespan with
  | none => {.error .invalidTimespan}
  | some spec =>
    let now := truncate clock second
    let (retentionLabel, retention) := statisticsRetention settings
    let (start, stop) := computeWindow now spec retention
    let resp : StatisticsResponse :=
      { retention := retentionLabel
        timespan := timespan
        windowFrom := start
        windowTo := stop
        bucketSeconds := spec.bucket / second }
    match settings with
    | none => {.ok resp}
    | some s =>
      if s.enabled = false then {.ok resp}
      else
        let resp :=
          { resp with
            enabled := true, enabledAt := s.enabledAt, historyDeletedAt := s.historyDeletedAt }
        let queryFrom := keepSince start s.historyDeletedAt spec.bucket
        if stop ≤ queryFrom then {.ok { resp with series := fillSeries [] start stop spec.bucket }}
        else if missGuard then {.error .missGuard}
        else
          {r | r = .error .database ∨
            ∃ agg ∈ readAggregate profileId queryFrom stop spec.bucket db spec.tier,
              ∃ devices ∈ foldDevices agg.devices agg.totals,
              r = .ok
                { resp with
                  totals := agg.totals
                  series := fillSeries agg.series start stop spec.bucket
                  reasons := agg.reasons
                  protocols := agg.protocols
                  devices := devices }}

end Service

section Buckets

variable {timespan : String} {spec : TimespanSpec} {start stop bucket t : ℤ}

/-- The width of the points of a timespan. -/
def IsBucket (bucket : ℤ) : Prop := bucket = 15 * minute ∨ bucket = hour ∨ bucket = 24 * hour

theorem isBucket_timespan (h : newStatisticsTimespan timespan = some spec) :
    IsBucket spec.bucket := by
  unfold newStatisticsTimespan at h
  split_ifs at h
  all_goals
    obtain rfl := Option.some.inj h
    unfold IsBucket
    tauto

theorem IsBucket.pos (h : IsBucket bucket) : 0 < bucket := by
  rcases h with rfl | rfl | rfl
  · decide
  · decide
  · decide

/-- A bucket is of whole seconds. -/
theorem IsBucket.seconds (h : IsBucket bucket) : bucket % second = 0 := by
  rcases h with rfl | rfl | rfl
  · decide
  · decide
  · decide

theorem truncate_mod (t d : ℤ) : truncate t d % d = 0 := by
  unfold truncate
  rw [Int.sub_emod, Int.emod_emod, Int.sub_self, Int.zero_emod]

theorem truncate_le (t : ℤ) (hd : 0 < bucket) : truncate t bucket ≤ t := by
  have := Int.emod_nonneg t (Int.ne_of_gt hd)
  unfold truncate
  omega

theorem truncate_mono {s t d : ℤ} (hd : 0 < d) (hs : s % d = 0) (h : s ≤ t) : s ≤ truncate t d := by
  obtain ⟨i, rfl⟩ := Int.dvd_of_emod_eq_zero hs
  have hi : i ≤ t / d := (Int.le_ediv_iff_mul_le hd).2 (by rwa [Int.mul_comm])
  have hle : d * i ≤ d * (t / d) := Int.mul_le_mul_of_nonneg_left hi (Int.le_of_lt hd)
  have hsplit := Int.emod_add_mul_ediv t d
  unfold truncate
  omega

/-- **One grid**: 2000-01-01 starts a day since the zero time. -/
theorem dateTrunc_bucket (h : IsBucket bucket) (t : ℤ) :
    dateTrunc (dateTruncBucket bucket) t = truncate t bucket := by
  unfold dateTrunc truncate
  have hwidth : (dateTruncBucket bucket).1.length * (dateTruncBucket bucket).2 = bucket := by
    rcases h with rfl | rfl | rfl
    · decide
    · decide
    · decide
  have hepoch : epoch2000 % bucket = 0 := by
    rcases h with rfl | rfl | rfl
    · decide
    · decide
    · decide
  rw [hwidth, Int.sub_emod, hepoch, Int.sub_zero, Int.emod_emod]

/-- Multiples of a second are told apart by their seconds. -/
theorem unix_inj {s t : ℤ} (hs : s % second = 0) (ht : t % second = 0) (h : unix s = unix t) :
    s = t := by
  unfold unix at h
  unfold second at hs ht h
  omega

/-- Starts of buckets are such multiples. -/
theorem IsBucket.mod_second (h : IsBucket bucket) (ht : t % bucket = 0) : t % second = 0 :=
  Int.emod_eq_zero_of_dvd ((Int.dvd_of_emod_eq_zero h.seconds).trans (Int.dvd_of_emod_eq_zero ht))

end Buckets

section Grids

variable {start stop bucket t : ℤ} {fuel : ℕ}

theorem mem_gridFrom (hb : 0 < bucket) :
    t ∈ gridFrom stop bucket fuel start ↔ ∃ i : ℕ, i < fuel ∧ t = start + i * bucket ∧
      t < stop := by
  induction fuel generalizing start with
  | zero =>
    constructor
    · intro h
      cases h
    · rintro ⟨i, hi, -⟩
      exact absurd hi (Nat.not_lt_zero i)
  | succ fuel ih =>
    unfold gridFrom
    split
    · next hlt =>
      rw [List.mem_cons, ih]
      constructor
      · rintro (rfl | ⟨i, hi, rfl, hstop⟩)
        · exact ⟨0, Nat.succ_pos fuel, by simp, hlt⟩
        · refine ⟨i + 1, Nat.succ_lt_succ hi, ?_, hstop⟩
          rw [Nat.cast_succ, Int.add_mul, Int.one_mul]
          omega
      · rintro ⟨i, hi, rfl, hstop⟩
        cases i with
        | zero => exact .inl (by simp)
        | succ i =>
          refine .inr ⟨i, Nat.lt_of_succ_lt_succ hi, ?_, hstop⟩
          rw [Nat.cast_succ, Int.add_mul, Int.one_mul]
          omega
    · next hge =>
      constructor
      · intro h
        cases h
      · rintro ⟨i, -, rfl, hstop⟩
        have hpos : 0 ≤ (i : ℤ) * bucket := Int.mul_nonneg (Int.natCast_nonneg i) (Int.le_of_lt hb)
        omega

theorem gridFrom_ascending (hb : 0 < bucket) :
    (gridFrom stop bucket fuel start).Pairwise (· < ·) := by
  induction fuel generalizing start with
  | zero => exact List.Pairwise.nil
  | succ fuel ih =>
    unfold gridFrom
    split
    · refine List.Pairwise.cons (fun t ht => ?_) ih
      obtain ⟨i, -, rfl, -⟩ := (mem_gridFrom hb).1 ht
      have hpos : 0 ≤ (i : ℤ) * bucket := Int.mul_nonneg (Int.natCast_nonneg i) (Int.le_of_lt hb)
      omega
    · exact List.Pairwise.nil

theorem grid_ascending (hb : 0 < bucket) : (grid start stop bucket).Pairwise (· < ·) :=
  gridFrom_ascending hb

/-- **The grid**: the starts of the buckets in the window. -/
theorem mem_grid (hb : 0 < bucket) (hstart : start % bucket = 0) :
    t ∈ grid start stop bucket ↔ t % bucket = 0 ∧ start ≤ t ∧ t < stop := by
  unfold grid
  rw [mem_gridFrom hb]
  constructor
  · rintro ⟨i, -, rfl, hstop⟩
    have hpos : 0 ≤ (i : ℤ) * bucket := Int.mul_nonneg (Int.natCast_nonneg i) (Int.le_of_lt hb)
    refine ⟨?_, by omega, hstop⟩
    rw [Int.add_mul_emod_self_right]
    exact hstart
  · rintro ⟨hmod, hle, hstop⟩
    obtain ⟨i, hi⟩ :=
      Int.dvd_of_emod_eq_zero (Int.emod_eq_emod_iff_emod_sub_eq_zero.1 (hmod.trans hstart.symm))
    have hnonneg : 0 ≤ i := Int.le_of_mul_le_mul_left (a := bucket) (by rw [Int.mul_zero]; omega) hb
    -- the loop has a round for it
    have hround : i ≤ (stop - start) / bucket :=
      (Int.le_ediv_iff_mul_le hb).2 (by rw [Int.mul_comm]; omega)
    refine ⟨i.toNat, by omega, ?_, hstop⟩
    rw [Int.toNat_of_nonneg hnonneg, Int.mul_comm]
    omega

theorem grid_nodup (hb : 0 < bucket) : (grid start stop bucket).Nodup :=
  (grid_ascending hb).imp fun h => Int.ne_of_lt h

end Grids

section Windows

variable {start bucket now retention : ℤ} {spec : TimespanSpec} {deletedAt : Option ℤ}

theorem computeWindow_start : (computeWindow now spec retention).1 % spec.bucket = 0 :=
  truncate_mod _ _

/-- The query does not start before the window. -/
theorem le_keepSince : start ≤ keepSince start deletedAt bucket := by
  unfold keepSince
  cases deletedAt with
  | none => exact Int.le_refl start
  | some t =>
    dsimp only
    generalize (if truncate t bucket < t then truncate t bucket + bucket
      else truncate t bucket) = cutoff
    split
    · next hlt => exact Int.le_of_lt hlt
    · exact Int.le_refl start

end Windows
end ModDNS.Statistics
