import Mathlib.Algebra.Ring.Int.Defs
import ModDNS.Collector.Model

/-!
# Nothing is lost or counted twice

Every document and every open entry has the counters of the events that were counted under its key,
so the sums over documents and entries change with an event by what the event contributes
(`docSum_add`), and not at all when entries are taken (`docSum_take`).

* `conserved`: both tiers, the days and the service add up to the events seen, in every state of
  every run.
* `budget_spent`: at a stop whose flush deadline passes, documents are dropped.
-/

namespace ModDNS.Collector

open Data

inductive Counter where
  | total
  | blocked
  | dnssec
  | reason (reason : ReasonClass)
  | proto (protocol : StatisticsProtocol)
  deriving DecidableEq

def Statistics.get (s : Statistics) : Counter → ℤ
  | .total => s.total
  | .blocked => s.blocked
  | .dnssec => s.dnssec
  | .reason .blocklist => s.reasonBlocklist
  | .reason .service => s.reasonService
  | .reason .customRule => s.reasonCustomRule
  | .reason .rebinding => s.reasonRebinding
  | .reason .defaultRule => s.reasonDefaultRule
  | .reason .other => s.reasonOther
  | .proto .doH => s.protoDoH
  | .proto .doT => s.protoDoT
  | .proto .doQ => s.protoDoQ

/-- What an event adds to a counter. -/
def contribution (q : Queries) (cs : ConsentedStatistics) : Counter → ℤ
  | .total => q.total
  | .blocked => q.blocked
  | .dnssec => q.dnssec
  | .reason reason => if cs.reasonClass = some reason then 1 else 0
  | .proto protocol => if cs.protocol = some protocol then 1 else 0

def Statistics.key (s : Statistics) : ConsentedKey := ⟨s.profileId, s.deviceId, s.bucketStart⟩

/-- A counter of the documents with some keys. -/
def docSum (P : ConsentedKey → Bool) (k : Counter) (docs : List Statistics) : ℤ :=
  (docs.map fun d => if P d.key then d.get k else 0).sum

/-- The entries of a tier that are open. -/
def System.openEntries (s : System) : StatisticsTier → List Statistics
  | .tier15Min => values s.collector.quarter.entries
  | .tier1Hour => values s.collector.hour.entries
  | .tier1Day => []

/-- The documents of a tier that have left the collector. -/
def System.left (s : System) (tier : StatisticsTier) : List Statistics :=
  (s.emitted ++ s.dropped).filter fun d => d.tier = tier

/-- The events with consent that have been seen. -/
def System.consented (s : System) : List (Queries × ConsentedStatistics × ℤ) :=
  s.seen.filterMap fun e => e.1.consented.map fun cs => (e.1.queries, cs, e.2)

/-- An event, and the device under which it is counted. -/
structure Placed where
  queries : Queries
  cs : ConsentedStatistics
  now : ℤ
  deviceId : String

def Placed.event (p : Placed) : Queries × ConsentedStatistics × ℤ := (p.queries, p.cs, p.now)

/-- The key under which the event is counted in a tier. -/
def Placed.key (p : Placed) (tier : StatisticsTier) : ConsentedKey :=
  ⟨p.cs.profileId, p.deviceId, tier.bucketStart p.now⟩

/-- A counter of the events with some keys. -/
def placedSum (tier : StatisticsTier) (P : ConsentedKey → Bool) (k : Counter)
    (placed : List Placed) : ℤ :=
  (placed.map fun p => if P (p.key tier) then contribution p.queries p.cs k else 0).sum

section Documents

variable {P : ConsentedKey → Bool} {k : Counter} {docs docs' : List Statistics}

@[simp] theorem docSum_append :
    docSum P k (docs ++ docs') = docSum P k docs + docSum P k docs' := by
  unfold docSum
  rw [List.map_append, List.sum_append]

theorem docSum_perm (h : docs.Perm docs') : docSum P k docs = docSum P k docs' := (h.map _).sum_eq

theorem get_countReason (s : Statistics) (reason : Option ReasonClass) :
    (s.countReason reason).get k = s.get k + match k with
      | .reason r => if reason = some r then 1 else 0
      | _ => 0 := by
  cases reason with
  | none => cases k <;> simp [Statistics.countReason]
  | some r =>
    cases k with
    | reason r' => cases r <;> cases r' <;> simp [Statistics.countReason, Statistics.get]
    | proto p => cases r <;> cases p <;> simp [Statistics.countReason, Statistics.get]
    | _ => cases r <;> simp [Statistics.countReason, Statistics.get]

theorem get_countProtocol (s : Statistics) (protocol : Option StatisticsProtocol) :
    (s.countProtocol protocol).get k = s.get k + match k with
      | .proto p => if protocol = some p then 1 else 0
      | _ => 0 := by
  cases protocol with
  | none => cases k <;> simp [Statistics.countProtocol]
  | some p =>
    cases k with
    | proto p' => cases p <;> cases p' <;> simp [Statistics.countProtocol, Statistics.get]
    | reason r => cases p <;> cases r <;> simp [Statistics.countProtocol, Statistics.get]
    | _ => cases p <;> simp [Statistics.countProtocol, Statistics.get]

theorem get_count (s : Statistics) (q : Queries) (cs : ConsentedStatistics) :
    (s.count q cs).get k = s.get k + contribution q cs k := by
  unfold Statistics.count
  rw [get_countProtocol, get_countReason]
  cases k with
  | reason r => cases r <;> simp [Statistics.get, contribution]
  | proto p => cases p <;> simp [Statistics.get, contribution]
  | _ => simp [Statistics.get, contribution]

theorem countReason_same (s : Statistics) (reason : Option ReasonClass) :
    (s.countReason reason).key = s.key ∧ (s.countReason reason).tier = s.tier := by
  cases reason with
  | none => exact ⟨rfl, rfl⟩
  | some r => cases r <;> exact ⟨rfl, rfl⟩

theorem countProtocol_same (s : Statistics) (protocol : Option StatisticsProtocol) :
    (s.countProtocol protocol).key = s.key ∧ (s.countProtocol protocol).tier = s.tier := by
  cases protocol with
  | none => exact ⟨rfl, rfl⟩
  | some p => cases p <;> exact ⟨rfl, rfl⟩

/-- Counting leaves the key and the tier of a document alone. -/
theorem count_same (s : Statistics) (q : Queries) (cs : ConsentedStatistics) :
    (s.count q cs).key = s.key ∧ (s.count q cs).tier = s.tier := by
  unfold Statistics.count
  obtain ⟨hkey, htier⟩ := countProtocol_same (Statistics.countReason
    { s with
      total := s.total + q.total, blocked := s.blocked + q.blocked
      dnssec := s.dnssec + q.dnssec } cs.reasonClass) cs.protocol
  rw [hkey, htier]
  exact countReason_same _ _

end Documents

/-- The documents of an accumulator have the keys that they are stored under, and its tier. -/
def ConsentedAccumulator.Keyed (a : ConsentedAccumulator) : Prop :=
  ∀ e ∈ a.entries.entries, e.2.key = e.1 ∧ e.2.tier = a.tier

namespace ConsentedAccumulator

variable {a : ConsentedAccumulator} {q : Queries} {cs : ConsentedStatistics} {now : ℤ}
  {P : ConsentedKey → Bool} {k : Counter} {order : RangeOrder} {wantEntry wantDevices : ℤ → Bool}

/-- An event is counted under its own device, or under the one for all others, in the bucket of its
time. -/
theorem place_key (a : ConsentedAccumulator) (cs : ConsentedStatistics) (now : ℤ) :
    ∃ deviceId, (deviceId = cs.deviceId ∨ deviceId = otherDeviceID) ∧
      (a.place cs now).1 = ⟨cs.profileId, deviceId, a.tier.bucketStart now⟩ := by
  unfold place
  simp only
  split
  · exact ⟨cs.deviceId, .inl rfl, rfl⟩
  · split
    · exact ⟨otherDeviceID, .inr rfl, rfl⟩
    · exact ⟨cs.deviceId, .inl rfl, rfl⟩

theorem place_entries (a : ConsentedAccumulator) (cs : ConsentedStatistics) (now : ℤ) :
    (a.place cs now).2.entries = a.entries ∧ (a.place cs now).2.tier = a.tier := by
  unfold place
  simp only
  split
  · exact ⟨rfl, rfl⟩
  · split <;> exact ⟨rfl, rfl⟩

theorem add_tier : (a.add q cs now).tier = a.tier := (place_entries a cs now).2

/-- The document that an event is counted in. -/
theorem document_keyed (h : a.Keyed) (key : ConsentedKey) (retention : StatisticsRetention) :
    (a.document key retention).key = key ∧ (a.document key retention).tier = a.tier := by
  unfold document
  cases hlook : a.entries.lookup key with
  | none => exact ⟨rfl, rfl⟩
  | some doc => exact h _ (mem_entries_of_lookup hlook)

theorem keyed_add (h : a.Keyed) : (a.add q cs now).Keyed := by
  obtain ⟨hentries, htier⟩ := place_entries a cs now
  have hplaced : (a.place cs now).2.Keyed := by
    unfold Keyed
    rw [hentries, htier]
    exact h
  intro e he
  rcases mem_insert_entries he with rfl | hold
  · obtain ⟨hkey, htier'⟩ := document_keyed hplaced (a.place cs now).1 cs.retention
    obtain ⟨hkey₂, htier₂⟩ := count_same
      { (a.place cs now).2.document (a.place cs now).1 cs.retention with retention := cs.retention }
        q cs
    exact ⟨hkey₂.trans hkey, htier₂.trans htier'⟩
  · exact hplaced e hold

theorem keyed_take (order : RangeOrder) (h : a.Keyed) :
    (a.take order wantEntry wantDevices).2.Keyed :=
  fun e he => h e (mem_keep.1 he).1

/-- The sum over the documents is the sum over the entries. -/
theorem docSum_values {t : Table ConsentedKey Statistics} (h : ∀ e ∈ t.entries, e.2.key = e.1) :
    docSum P k (values t) = total t fun key doc => if P key then doc.get k else 0 := by
  unfold docSum values total
  rw [List.map_map]
  congr 1
  apply List.map_congr_left
  intro e he
  simp only [Function.comp_apply, h e he]

/-- **An event** adds its contribution, under the key that it is counted under. -/
theorem docSum_add (h : a.Keyed) :
    docSum P k (values (a.add q cs now).entries) =
      docSum P k (values a.entries) + if P (a.place cs now).1 then contribution q cs k else 0 := by
  obtain ⟨hentries, htier⟩ := place_entries a cs now
  have hkeyed : (a.add q cs now).Keyed := keyed_add h
  rw [docSum_values fun e he => (hkeyed e he).1, docSum_values fun e he => (h e he).1]
  have hdoc : (a.add q cs now).entries = a.entries.insert (a.place cs now).1 (Statistics.count
      { (a.place cs now).2.document (a.place cs now).1 cs.retention with retention := cs.retention }
        q cs) := by
    unfold add
    simp only [hentries]
  rw [hdoc]
  apply total_insert
  · intro hnone
    have hzero : ((a.place cs now).2.document (a.place cs now).1 cs.retention).get k = 0 := by
      unfold document
      rw [hentries, hnone]
      cases k with
      | reason r => cases r <;> rfl
      | proto p => cases p <;> rfl
      | _ => rfl
    split
    · rw [get_count]
      exact (congrArg (· + _) hzero).trans (zero_add _)
    · rfl
  · intro doc hsome
    have hget : ((a.place cs now).2.document (a.place cs now).1 cs.retention).get k =
        doc.get k := by
      unfold document
      rw [hentries, hsome]
      rfl
    split
    · rw [get_count]
      exact congrArg (· + _) hget
    · rfl

/-- **A take** leaves the sum of what is taken and what stays as it was. -/
theorem docSum_take (h : a.Keyed) :
    docSum P k (a.take order wantEntry wantDevices).1 +
      docSum P k (values (a.take order wantEntry wantDevices).2.entries) = docSum P k
        (values a.entries) := by
  have hkeyed : ∀ e ∈ a.entries.entries, e.2.key = e.1 := fun e he => (h e he).1
  unfold take
  rw [docSum_perm (order.perm _), docSum_values fun e he => hkeyed e (mem_keep.1 he).1,
    docSum_values fun e he => hkeyed e (mem_keep.1 he).1, docSum_values hkeyed]
  exact total_keep _ _

/-- An event changes one entry. -/
theorem add_entries :
    ∃ doc, (a.add q cs now).entries = a.entries.insert (a.place cs now).1 doc := by
  obtain ⟨hentries, -⟩ := place_entries a cs now
  unfold add
  simp only [hentries]
  exact ⟨_, rfl⟩

/-- What is taken is of the tier. -/
theorem tier_take (h : a.Keyed) :
    ∀ doc ∈ (a.take order wantEntry wantDevices).1, doc.tier = a.tier := by
  intro doc hdoc
  obtain ⟨e, he, rfl⟩ := List.mem_map.1 ((order.perm _).subset hdoc)
  exact (h e (mem_keep.1 he).1).2

end ConsentedAccumulator

/-- The events that have been seen are those that the documents and entries of the tier have
counted, each in the bucket of its time, for its own device or the one for all others. -/
def System.CountedIn (s : System) (tier : StatisticsTier) : Prop :=
  ∃ placed : List Placed, placed.map Placed.event = s.consented ∧
    (∀ p ∈ placed, p.deviceId = p.cs.deviceId ∨ p.deviceId = otherDeviceID) ∧
    ∀ P k, docSum P k (s.left tier ++ s.openEntries tier) = placedSum tier P k placed

/-- The documents of the whole service. -/
def System.serviceDocuments (s : System) : List ServiceStatistics :=
  s.service ++ values s.collector.fleet.buckets

/-- A counter of the service documents of an hour. -/
def serviceSum (g : Queries → ℤ) (hour : ℤ) (docs : List ServiceStatistics) : ℤ :=
  (docs.map fun d => if d.timestamp = hour then g d.queries else 0).sum

/-- What the documents of an hour have counted is what the events of the hour have brought. -/
def System.FleetCounted (s : System) : Prop :=
  ∀ g ∈ [Queries.total, Queries.blocked, Queries.dnssec], ∀ hour,
    serviceSum g hour s.serviceDocuments =
      (s.seen.map fun e => if bucketStart e.2 = hour then g e.1.queries else 0).sum

/-- **Invariant.** -/
structure System.Conserved (s : System) : Prop where
  quarterTier : s.collector.quarter.tier = .tier15Min
  hourTier : s.collector.hour.tier = .tier1Hour
  quarterKeyed : s.collector.quarter.Keyed
  hourKeyed : s.collector.hour.Keyed
  fleetKeyed : ∀ e ∈ s.collector.fleet.buckets.entries, e.2.timestamp = e.1
  quarter : s.CountedIn .tier15Min
  hour : s.CountedIn .tier1Hour
  days : ((s.left .tier1Hour).map Statistics.forDay).Perm (s.left .tier1Day)
  fleet : s.FleetCounted

section Placing

variable {a : ConsentedAccumulator} {q : Queries} {cs : ConsentedStatistics} {now : ℤ}
  {left : List Statistics} {placed : List Placed}

theorem counted_add (hkeyed : a.Keyed)
    (h : ∀ P k, docSum P k (left ++ values a.entries) = placedSum a.tier P k placed) :
    ∃ p : Placed, p.event = (q, cs, now) ∧
    (p.deviceId = p.cs.deviceId ∨ p.deviceId = otherDeviceID) ∧
      ∀ P k, docSum P k (left ++ values (a.add q cs now).entries) = placedSum a.tier P k
        (placed ++ [p]) := by
  obtain ⟨deviceId, hdevice, hkey⟩ := a.place_key cs now
  refine ⟨⟨q, cs, now, deviceId⟩, rfl, hdevice, fun P k => ?_⟩
  have hsum := h P k
  rw [docSum_append] at hsum
  rw [docSum_append, ConsentedAccumulator.docSum_add hkeyed, hkey, ← add_assoc, hsum]
  unfold placedSum
  rw [List.map_append, List.sum_append]
  simp only [List.map_cons, List.map_nil, List.sum_cons, List.sum_nil, add_zero]
  rfl

end Placing

section Steps

variable {s : System} {event : EventStatistics} {now : ℤ} {orders : Orders} {config : Config}

/-- The document of an hour. -/
theorem fleet_document {a : FleetAccumulator} (h : ∀ e ∈ a.buckets.entries, e.2.timestamp = e.1) :
    ((a.buckets.lookup (bucketStart now)).getD (newServiceStatistics a.pop now)).timestamp =
      bucketStart now := by
  cases hlook : a.buckets.lookup (bucketStart now) with
  | none => rfl
  | some doc => exact h _ (mem_entries_of_lookup hlook)

theorem fleetKeyed_add {a : FleetAccumulator} (h : ∀ e ∈ a.buckets.entries, e.2.timestamp = e.1) :
    ∀ e ∈ (a.add event now).buckets.entries, e.2.timestamp = e.1 := by
  intro e he
  rcases mem_insert_entries he with rfl | hold
  · exact fleet_document h
  · exact h e hold

theorem serviceSum_append {g : Queries → ℤ} {hour : ℤ} {docs docs' : List ServiceStatistics} :
    serviceSum g hour (docs ++ docs') = serviceSum g hour docs + serviceSum g hour docs' := by
  unfold serviceSum
  rw [List.map_append, List.sum_append]

theorem serviceSum_add {g : Queries → ℤ} (hzero : g ⟨0, 0, 0⟩ = 0)
    (hadd : ∀ q r, g (q.add r) = g q + g r) {a : FleetAccumulator}
    (h : ∀ e ∈ a.buckets.entries, e.2.timestamp = e.1) (hour : ℤ) :
    serviceSum g hour (values (a.add event now).buckets) =
      serviceSum g hour (values a.buckets) + if bucketStart now = hour then
        g event.queries else 0 := by
  have hsum : ∀ t : Table ℤ ServiceStatistics, (∀ e ∈ t.entries, e.2.timestamp = e.1) →
      serviceSum g hour (values t) = total t fun key doc =>
        if key = hour then g doc.queries else 0 := by
    intro t ht
    unfold serviceSum values total
    rw [List.map_map]
    congr 1
    apply List.map_congr_left
    intro e he
    simp only [Function.comp_apply, ht e he]
  rw [hsum _ (fleetKeyed_add h), hsum _ h]
  apply total_insert
  · intro hnone
    split
    · rw [hnone]
      exact (hadd _ _).trans
        (by rw [show g (Option.getD none (newServiceStatistics a.pop now)).queries =
          0 from hzero, zero_add])
    · rfl
  · intro doc hsome
    split
    · rw [hsome]
      exact hadd _ _
    · rfl

theorem record_fleet (c : StatisticsCollector) :
    (c.record event now).2.fleet = c.fleet.add event now := by
  unfold StatisticsCollector.record
  simp only
  split <;> rfl

theorem record_unconsented (hconsented : event.consented = none) :
    (s.record event now).collector =
      { s.collector with fleet := s.collector.fleet.add event now } := by
  unfold System.record StatisticsCollector.record
  simp only [hconsented]

theorem record_consented {cs : ConsentedStatistics} (hconsented : event.consented = some cs) :
    (s.record event now).collector =
      ⟨s.collector.fleet.add event now, s.collector.quarter.add event.queries cs now,
        s.collector.hour.add event.queries cs now⟩ := by
  unfold System.record StatisticsCollector.record
  simp only [hconsented]

theorem fleetCounted_record (h : s.Conserved) : (s.record event now).FleetCounted := by
  intro g hg hour
  have hzero : g ⟨0, 0, 0⟩ = 0 := by
    simp only [List.mem_cons, List.not_mem_nil, or_false] at hg
    rcases hg with rfl | rfl | rfl <;> rfl
  have hadd : ∀ q r, g (q.add r) = g q + g r := by
    simp only [List.mem_cons, List.not_mem_nil, or_false] at hg
    rcases hg with rfl | rfl | rfl <;> exact fun _ _ => rfl
  have hold := h.fleet g hg hour
  unfold System.serviceDocuments at hold ⊢
  rw [serviceSum_append] at hold
  show serviceSum g hour (s.service ++ values (s.collector.record event now).2.fleet.buckets) =
    ((s.seen ++ [(event, now)]).map _).sum
  rw [record_fleet, serviceSum_append, serviceSum_add hzero hadd h.fleetKeyed, ← add_assoc, hold,
    List.map_append,
    List.sum_append]
  simp only [List.map_cons, List.map_nil, List.sum_cons, List.sum_nil, add_zero]

theorem consented_record : (s.record event now).consented =
    s.consented ++ (event.consented.map fun cs => (event.queries, cs, now)).toList := by
  unfold System.consented System.record
  rw [List.filterMap_append]
  cases hc : event.consented <;> simp [hc]

/-- An event without consent is counted for the service only. -/
theorem countedIn_unconsented {tier : StatisticsTier} (hconsented : event.consented = none)
    (hopen : (s.record event now).openEntries tier = s.openEntries tier) (h : s.CountedIn tier) :
    (s.record event now).CountedIn tier := by
  unfold System.CountedIn
  rw [consented_record, hconsented, Option.map_none, Option.toList_none, List.append_nil, hopen]
  exact h

/-- An event with consent is placed in each of the two tiers. -/
theorem countedIn_consented {a : ConsentedAccumulator} {cs : ConsentedStatistics}
    (hconsented : event.consented = some cs) (hkeyed : a.Keyed)
    (hopen : s.openEntries a.tier = values a.entries)
    (hopen' : (s.record event now).openEntries a.tier = values (a.add event.queries cs now).entries)
    (h : s.CountedIn a.tier) :
    (s.record event now).CountedIn a.tier := by
  obtain ⟨placed, hevents, hdevices, hsum⟩ := h
  rw [hopen] at hsum
  obtain ⟨p, hevent, hdevice, hsum'⟩ : ∃ p : Placed, p.event = (event.queries, cs, now) ∧
      (p.deviceId = p.cs.deviceId ∨ p.deviceId = otherDeviceID) ∧
      ∀ P k, docSum P k (s.left a.tier ++ values (a.add event.queries cs now).entries) =
      placedSum a.tier P k (placed ++ [p]) :=
    counted_add hkeyed hsum
  refine ⟨placed ++ [p], ?_, fun p' hp' => ?_, ?_⟩
  · rw [List.map_append, hevents, consented_record, hconsented, Option.map_some,
      Option.toList_some, ← hevent]
    rfl
  · rcases List.mem_append.1 hp' with hp' | hp'
    · exact hdevices p' hp'
    · rw [List.mem_singleton.1 hp']
      exact hdevice
  · rw [hopen']
    exact hsum'

/-- **An event.** -/
theorem conserved_record (h : s.Conserved) : (s.record event now).Conserved := by
  have hfleetKeyed : ∀ e ∈ (s.record event now).collector.fleet.buckets.entries,
      e.2.timestamp = e.1 := by
    show ∀ e ∈ (s.collector.record event now).2.fleet.buckets.entries, _
    rw [record_fleet]
    exact fleetKeyed_add h.fleetKeyed
  have hfleet : (s.record event now).FleetCounted := fleetCounted_record h
  -- without consent the event is for the fleet only
  cases hconsented : event.consented with
  | none =>
    have hsame : (s.record event now).collector =
        { s.collector with fleet := s.collector.fleet.add event now } :=
      record_unconsented hconsented
    have hopen : ∀ tier, (s.record event now).openEntries tier = s.openEntries tier := by
      intro tier
      unfold System.openEntries
      rw [hsame]
    refine ⟨?_, ?_, ?_, ?_, hfleetKeyed, countedIn_unconsented hconsented (hopen _) h.quarter,
      countedIn_unconsented hconsented (hopen _) h.hour, h.days, hfleet⟩
    · rw [hsame]
      exact h.quarterTier
    · rw [hsame]
      exact h.hourTier
    · rw [hsame]
      exact h.quarterKeyed
    · rw [hsame]
      exact h.hourKeyed
  | some cs =>
    have hsame : (s.record event now).collector =
        ⟨s.collector.fleet.add event now, s.collector.quarter.add event.queries cs now,
          s.collector.hour.add event.queries cs now⟩ :=
      record_consented hconsented
    refine ⟨?_, ?_, ?_, ?_, hfleetKeyed, ?_, ?_, h.days, hfleet⟩
    · rw [hsame]
      exact ConsentedAccumulator.add_tier.trans h.quarterTier
    · rw [hsame]
      exact ConsentedAccumulator.add_tier.trans h.hourTier
    · rw [hsame]
      exact ConsentedAccumulator.keyed_add h.quarterKeyed
    · rw [hsame]
      exact ConsentedAccumulator.keyed_add h.hourKeyed
    · have hcounted := h.quarter
      rw [← h.quarterTier] at hcounted ⊢
      refine countedIn_consented hconsented h.quarterKeyed ?_ ?_ hcounted
      · rw [h.quarterTier]
        rfl
      · rw [h.quarterTier]
        unfold System.openEntries
        rw [hsame]
    · have hcounted := h.hour
      rw [← h.hourTier] at hcounted ⊢
      refine countedIn_consented hconsented h.hourKeyed ?_ ?_ hcounted
      · rw [h.hourTier]
        rfl
      · rw [h.hourTier]
        unfold System.openEntries
        rw [hsame]

/-- **A flush of the service documents.** -/
theorem conserved_flush (h : s.Conserved) : s.flush.Conserved := by
  have hcase : (values s.collector.fleet.buckets).isEmpty = true ∨
      (values s.collector.fleet.buckets).isEmpty = false := by
    cases (values s.collector.fleet.buckets).isEmpty <;> simp
  rcases hcase with hempty | hsome
  · have hsame : s.flush = { s with service := s.service ++ [] } := by
      unfold System.flush FleetAccumulator.take
      rw [if_pos hempty]
    rw [hsame, List.append_nil]
    exact h
  · have hflush : s.flush = { s with
        collector :=
          { s.collector with fleet := { s.collector.fleet with buckets := ∅, events := 0 } }
        service := s.service ++ (values s.collector.fleet.buckets).mergeSort fun x y =>
          x.timestamp ≤ y.timestamp } := by
      unfold System.flush FleetAccumulator.take
      rw [if_neg (by rw [hsome]; decide)]
    rw [hflush]
    refine ⟨h.quarterTier, h.hourTier, h.quarterKeyed, h.hourKeyed, nofun, h.quarter,
      h.hour, h.days, ?_⟩
    intro g hg hour
    have hold := h.fleet g hg hour
    rw [← hold]
    unfold System.serviceDocuments
    rw [serviceSum_append, serviceSum_append, serviceSum_append]
    have hsort : serviceSum g hour ((values s.collector.fleet.buckets).mergeSort fun x y =>
      x.timestamp ≤ y.timestamp) =
        serviceSum g hour (values s.collector.fleet.buckets) :=
      ((List.mergeSort_perm _ _).map _).sum_eq
    rw [hsort]
    exact add_zero _

/-- Each branch of `flushConsented` takes entries of both tiers. -/
theorem takeConsented_cases (c : StatisticsCollector) (all : Bool) (orders : Orders) (now : ℤ) :
    ∃ wantQuarter wantQuarterDevices wantHour wantHourDevices : ℤ → Bool,
      c.takeConsented all orders now =
        ((c.quarter.take orders.quarter wantQuarter wantQuarterDevices).1 ++
            (c.hour.take orders.hour wantHour wantHourDevices).1.flatMap fun h => [h, h.forDay],
          { c with
            quarter := (c.quarter.take orders.quarter wantQuarter wantQuarterDevices).2
            hour := (c.hour.take orders.hour wantHour wantHourDevices).2 }) := by
  unfold StatisticsCollector.takeConsented
  cases all with
  | true => exact ⟨fun _ => true, fun _ => true, fun _ => true, fun _ => true, rfl⟩
  | false =>
    by_cases hlen : (c.quarter.takeClosed orders.quarter now).1.length > 0
    · simp only [Bool.false_eq_true, if_false, if_pos hlen]
      exact ⟨_, _, _, _, rfl⟩
    · simp only [Bool.false_eq_true, if_false, if_neg hlen]
      exact ⟨_, _, _, _, rfl⟩

/-- The chunks together are the batch. -/
theorem emitConsented_append (inTime : Option ℕ) (batch : List Statistics) :
    (emitConsented inTime batch).1 ++ (emitConsented inTime batch).2 = batch := by
  have hbatch : (chunks statisticsEmitChunkSize batch).flatten = batch := flatten_chunks (by decide)
  cases inTime with
  | none =>
    rw [← List.append_nil batch] at hbatch
    simpa [emitConsented] using hbatch
  | some n =>
    unfold emitConsented
    rw [← List.flatten_append, List.take_append_drop, hbatch]

/-- The documents of a tier in a batch. -/
theorem filter_batch {quarters hours : List Statistics}
    (hquarters : ∀ d ∈ quarters, d.tier = .tier15Min) (hhours : ∀ d ∈ hours, d.tier = .tier1Hour)
    (tier : StatisticsTier) :
    (quarters ++ hours.flatMap fun h => [h, h.forDay]).filter (fun d => d.tier = tier) =
      match tier with
      | .tier15Min => quarters
      | .tier1Hour => hours
      | .tier1Day => hours.map Statistics.forDay := by
  have hsecond : (hours.flatMap fun h => [h, h.forDay]).filter (fun d => d.tier = tier) =
      match tier with
      | .tier15Min => []
      | .tier1Hour => hours
      | .tier1Day => hours.map Statistics.forDay := by
    induction hours with
    | nil => cases tier <;> rfl
    | cons h hours ih =>
      have htier : h.tier = .tier1Hour := hhours h (List.mem_cons_self)
      have hday : h.forDay.tier = .tier1Day := rfl
      have hrest := ih fun d hd => hhours d (List.mem_cons_of_mem _ hd)
      rw [List.flatMap_cons, List.filter_append, hrest]
      cases tier <;> simp [htier, hday]
  have hfirst : quarters.filter (fun d => d.tier = tier) =
      if tier = .tier15Min then quarters else [] := by
    split
    · next h => exact List.filter_eq_self.2 fun d hd => by rw [h, hquarters d hd]; rfl
    · next h =>
      exact List.filter_eq_nil_iff.2 fun d hd => by rw [hquarters d hd]; simpa using Ne.symm h
  rw [List.filter_append, hfirst, hsecond]
  cases tier <;> simp

/-- What has left the collector after a flush of the entries. -/
theorem left_flushConsented (s : System) (all : Bool) (orders : Orders) (now : ℤ)
    (inTime : Option ℕ) (tier : StatisticsTier) :
    ((s.flushConsented all orders now inTime).left tier).Perm
      (s.left tier ++ (s.collector.takeConsented all orders now).1.filter fun d =>
        d.tier = tier) := by
  have hbatch := emitConsented_append inTime (s.collector.takeConsented all orders now).1
  have hleft : (s.flushConsented all orders now inTime).left tier =
      ((s.emitted ++ (emitConsented inTime (s.collector.takeConsented all orders now).1).1) ++
        (s.dropped ++ (emitConsented inTime (s.collector.takeConsented all orders now).1).2)).filter
          fun d => d.tier = tier := rfl
  have hperm : ∀ e d b : List Statistics, e ++ d = b →
      ((s.emitted ++ e) ++ (s.dropped ++ d)).Perm (s.emitted ++ s.dropped ++ b) := by
    rintro e d b rfl
    rw [List.append_assoc, List.append_assoc]
    exact (List.perm_append_comm_assoc _ _ _).append_left _
  rw [hleft, System.left, ← List.filter_append]
  exact (hperm _ _ _ hbatch).filter _

/-- **A flush of the entries.** -/
theorem conserved_flushConsented {all : Bool} {inTime : Option ℕ} (h : s.Conserved) :
    (s.flushConsented all orders now inTime).Conserved := by
  obtain ⟨wantQuarter, wantQuarterDevices, wantHour, wantHourDevices, htake⟩ :=
    takeConsented_cases s.collector all orders now
  have hcollector : (s.flushConsented all orders now inTime).collector =
      (s.collector.takeConsented all orders now).2 := rfl
  have hquarters : ∀ d ∈ (s.collector.quarter.take orders.quarter wantQuarter wantQuarterDevices).1,
    d.tier = .tier15Min :=
    fun d hd => (ConsentedAccumulator.tier_take h.quarterKeyed d hd).trans h.quarterTier
  have hhours : ∀ d ∈ (s.collector.hour.take orders.hour wantHour wantHourDevices).1,
    d.tier = .tier1Hour :=
    fun d hd => (ConsentedAccumulator.tier_take h.hourKeyed d hd).trans h.hourTier
  -- what leaves in each tier
  have hleft := left_flushConsented s all orders now inTime
  have hbatch := filter_batch hquarters hhours
  rw [htake] at hleft hcollector
  have hcounted :
    ∀ (tier : StatisticsTier) (a : ConsentedAccumulator) (order : RangeOrder)
      (want wantDevices : ℤ → Bool), a.Keyed → s.openEntries tier = values a.entries →
      (s.flushConsented all orders now inTime).openEntries tier =
        values (a.take order want wantDevices).2.entries →
      ((s.flushConsented all orders now inTime).left tier).Perm
      (s.left tier ++ (a.take order want wantDevices).1) →
      s.CountedIn tier → (s.flushConsented all orders now inTime).CountedIn tier := by
    rintro tier a order want wantDevices hkeyed hopen hopen' hperm ⟨placed, hevents, hdevices, hsum⟩
    refine ⟨placed, hevents, hdevices, fun P k => ?_⟩
    rw [docSum_append, docSum_perm hperm, docSum_append, hopen', add_assoc,
      ConsentedAccumulator.docSum_take hkeyed,
      ← hopen, ← docSum_append]
    exact hsum P k
  refine ⟨?_, ?_, ?_, ?_, ?_, ?_, ?_, ?_, ?_⟩
  · rw [hcollector]
    exact h.quarterTier
  · rw [hcollector]
    exact h.hourTier
  · rw [hcollector]
    exact ConsentedAccumulator.keyed_take orders.quarter h.quarterKeyed
  · rw [hcollector]
    exact ConsentedAccumulator.keyed_take orders.hour h.hourKeyed
  · rw [hcollector]
    exact h.fleetKeyed
  · have hperm := hleft .tier15Min
    rw [hbatch] at hperm
    exact hcounted _ _ _ _ _ h.quarterKeyed rfl
      (by unfold System.openEntries; rw [hcollector]) hperm h.quarter
  · have hperm := hleft .tier1Hour
    rw [hbatch] at hperm
    exact hcounted _ _ _ _ _ h.hourKeyed rfl
      (by unfold System.openEntries; rw [hcollector]) hperm h.hour
  · have hhour := hleft .tier1Hour
    have hday := hleft .tier1Day
    rw [hbatch] at hhour hday
    refine (hhour.map _).trans ?_
    rw [List.map_append]
    exact (h.days.append_right _).trans hday.symm
  · intro g hg hour
    have hold := h.fleet g hg hour
    unfold System.serviceDocuments at hold ⊢
    rw [hcollector]
    exact hold

theorem conserved_clock (h : s.Conserved) (now : ℤ) : { s with clock := now }.Conserved :=
  ⟨h.quarterTier, h.hourTier, h.quarterKeyed, h.hourKeyed, h.fleetKeyed, h.quarter, h.hour,
    h.days, h.fleet⟩

theorem conserved_stopped (h : s.Conserved) : { s with stopped := true }.Conserved :=
  ⟨h.quarterTier, h.hourTier, h.quarterKeyed, h.hourKeyed, h.fleetKeyed, h.quarter, h.hour,
    h.days, h.fleet⟩

theorem conserved_add (h : s.Conserved) : (s.add config event now orders).Conserved := by
  rcases System.add_cases s config event now orders with hadd | hadd
  · rw [hadd]
    exact conserved_record h
  · rw [hadd]
    exact conserved_flushConsented (conserved_record h)

theorem conserved_drain {queue : List (EventStatistics × ℤ)} {s' : System} (h : s.Conserved)
    (hdrain : s.drain queue = some s') : s'.Conserved :=
  System.drain_induct (fun _ _ _ _ h => conserved_record h) h hdrain

/-- **Step lemma.** -/
theorem conserved_step {m : Move} {s' : System} (h : s.Conserved)
    (hstep : s.step config m = some s') :
    s'.Conserved := by
  cases m with
  | event event now orders =>
    obtain ⟨-, -, hs'⟩ := System.step_event hstep
    have hadd : (s.add config event now orders).Conserved := conserved_add h
    rcases hs' with rfl | rfl
    · exact hadd
    · exact conserved_flush hadd
  | tick now orders =>
    obtain ⟨-, -, s₁, hs₁, rfl⟩ := System.step_tick hstep
    have hclock : { s with clock := now }.Conserved := conserved_clock h now
    rcases hs₁ with rfl | rfl
    · exact conserved_flushConsented hclock
    · exact conserved_flushConsented (conserved_flush hclock)
  | stop queue orders inTime =>
    obtain ⟨s₁, hdrain, rfl⟩ := System.step_stop hstep
    have hdrained : s₁.Conserved := conserved_drain h hdrain
    exact conserved_stopped (conserved_flushConsented (conserved_flush hdrained))

theorem conserved_initial (config : Config) (clock : ℤ) :
    (System.initial config clock).Conserved := by
  have hleft : ∀ tier, (System.initial config clock).left tier = [] := fun _ => rfl
  have hopen : ∀ tier, (System.initial config clock).openEntries tier = [] := fun tier => by
    cases tier <;> rfl
  have hcounted : ∀ tier, (System.initial config clock).CountedIn tier := by
    intro tier
    refine ⟨[], rfl, fun p hp => absurd hp List.not_mem_nil, fun P k => ?_⟩
    rw [hleft, hopen]
    rfl
  refine ⟨rfl, rfl, fun e he => absurd he List.not_mem_nil, fun e he => absurd he List.not_mem_nil,
    fun e he => absurd he List.not_mem_nil, hcounted _, hcounted _, ?_, ?_⟩
  · rw [hleft, hleft]
    exact List.Perm.refl _
  · intro g _ hour
    rfl

theorem conserved_run (h : Reaches config s) : s.Conserved := by
  induction h with
  | initial clock => exact conserved_initial config clock
  | step m _ hstep ih => exact conserved_step ih hstep

end Steps

/-- A counter of a profile, over the documents and the open entries of a tier. -/
def System.profileSum (s : System) (tier : StatisticsTier) (profileId : String) (k : Counter) : ℤ :=
  (((s.left tier ++ s.openEntries tier).filter fun d => d.profileId = profileId).map
    fun d => d.get k).sum

/-- What the events of a profile with consent have contributed. -/
def System.contributed (s : System) (profileId : String) (k : Counter) : ℤ :=
  ((s.consented.filter fun e => e.2.1.profileId = profileId).map fun e =>
    contribution e.1 e.2.1 k).sum

theorem sum_filter {α : Type} (l : List α) (p : α → Bool) (f : α → ℤ) :
    ((l.filter p).map f).sum = (l.map fun x => if p x then f x else 0).sum := by
  induction l with
  | nil => rfl
  | cons x l ih => cases hp : p x <;> simp [hp, ih]

/-- A tier that has counted the events adds up, for each profile. -/
theorem profileSum_eq {s : System} {tier : StatisticsTier} (h : s.CountedIn tier)
    (profileId : String) (k : Counter) :
    s.profileSum tier profileId k = s.contributed profileId k := by
  obtain ⟨placed, hevents, -, hsum⟩ := h
  have hprofile := hsum (fun key => key.profileId = profileId) k
  unfold System.profileSum System.contributed
  rw [sum_filter, sum_filter, ← hevents, List.map_map]
  exact hprofile

/-- Without a deadline a flush drops nothing. -/
theorem dropped_flushConsented (s : System) (all : Bool) (orders : Orders) (now : ℤ) :
    (s.flushConsented all orders now none).dropped = s.dropped := by
  have hdrops : (s.flushConsented all orders now none).dropped = s.dropped ++ [] := rfl
  rw [hdrops, List.append_nil]

theorem dropped_add (s : System) (config : Config) (event : EventStatistics) (now : ℤ)
    (orders : Orders) :
    (s.add config event now orders).dropped = s.dropped ∧
    (s.add config event now orders).stopped = s.stopped := by
  rcases System.add_cases s config event now orders with hadd | hadd
  · rw [hadd]
    exact ⟨rfl, rfl⟩
  · rw [hadd]
    exact ⟨dropped_flushConsented _ _ _ _, rfl⟩

/-- No document is dropped before the collector stops. -/
theorem dropped_running {config : Config} {s : System} (h : Reaches config s)
    (hrunning : s.stopped = false) :
    s.dropped = [] := by
  -- only the last flush has a deadline after which it drops
  induction h with
  | initial clock => rfl
  | @step s s' m _ hstep ih =>
    cases m with
    | event event now orders =>
      obtain ⟨hold, -, hs'⟩ := System.step_event hstep
      have hadd : (s.add config event now orders).dropped = s.dropped :=
        (dropped_add s config event now orders).1
      rcases hs' with rfl | rfl
      · exact hadd.trans (ih hold)
      · exact hadd.trans (ih hold)
    | tick now orders =>
      obtain ⟨hold, -, s₁, hs₁, rfl⟩ := System.step_tick hstep
      rw [dropped_flushConsented]
      rcases hs₁ with rfl | rfl
      · exact ih hold
      · exact ih hold
    | stop queue orders inTime =>
      obtain ⟨s₁, -, rfl⟩ := System.step_stop hstep
      cases hrunning

theorem dropped_drain {queue : List (EventStatistics × ℤ)} {s s' : System}
    (hdrain : s.drain queue = some s') :
    s'.dropped = s.dropped :=
  System.drain_induct (P := fun s₁ => s₁.dropped = s.dropped) (fun _ _ _ _ h => h) rfl hdrain

/-- A stop that has the time for all chunks drops nothing. -/
theorem dropped_stop (s : System) (config : Config) (hnone : s.dropped = [])
    (queue : List (EventStatistics × ℤ)) (orders : Orders) :
    ∃ n, ∀ inTime ≥ n, ∀ s', s.step config (.stop queue orders inTime) = some s' →
    s'.dropped = [] := by
  cases hdrain : s.drain queue with
  | none =>
    refine ⟨0, fun inTime _ s' hstep => ?_⟩
    obtain ⟨s₁, hsome, -⟩ := System.step_stop hstep
    cases hdrain.symm.trans hsome
  | some s₁ =>
    refine ⟨(chunks statisticsEmitChunkSize
      (s₁.flush.collector.takeConsented true orders s₁.clock).1).length,
      fun inTime hn s' hstep => ?_⟩
    obtain ⟨s₂, hsome, rfl⟩ := System.step_stop hstep
    obtain rfl := Option.some.inj (hdrain.symm.trans hsome)
    have hdrops : (s₁.flush.flushConsented true orders s₁.clock (some inTime)).dropped =
      s₁.dropped ++
        ((chunks statisticsEmitChunkSize
          (s₁.flush.collector.takeConsented true orders s₁.clock).1).drop inTime).flatten :=
      rfl
    show (s₁.flush.flushConsented true orders s₁.clock (some inTime)).dropped = []
    rw [hdrops, dropped_drain hdrain, hnone, List.drop_eq_nil_of_le hn]
    rfl

/-- **Conservation.** In every state of every run, both tiers add up to what the events seen have
contributed, for each profile; each event is counted in the bucket of its time, for one device; the
days are the hours, and the service documents have counted each event. The documents include those
that a stop drops after its deadline; before a stop, and at a stop that has the time, none is. -/
theorem conserved {config : Config} {s : System} (h : Reaches config s) :
    (∀ profileId k, s.profileSum .tier15Min profileId k = s.contributed profileId k ∧
      s.profileSum .tier1Hour profileId k = s.contributed profileId k) ∧
    s.CountedIn .tier15Min ∧ s.CountedIn .tier1Hour ∧
    ((s.left .tier1Hour).map Statistics.forDay).Perm (s.left .tier1Day) ∧
    s.FleetCounted ∧
    (s.stopped = false → s.dropped = [] ∧ ∀ queue orders, ∃ n, ∀ inTime ≥ n, ∀ s',
      s.step config (.stop queue orders inTime) = some s' → s'.dropped = []) := by
  have hs : s.Conserved := conserved_run h
  refine ⟨fun profileId k => ⟨profileSum_eq hs.quarter profileId k,
    profileSum_eq hs.hour profileId k⟩, hs.quarter,
    hs.hour, hs.days, hs.fleet, fun hrunning => ?_⟩
  have hnone : s.dropped = [] := dropped_running h hrunning
  exact ⟨hnone, dropped_stop s config hnone⟩

/-- An event of a profile with consent. -/
def consentedEvent : EventStatistics := ⟨⟨1, 0, 0⟩, some ⟨"0a1b", "phone", "30d", none, some .doH⟩⟩

/-- A collector that stops with an event in its queue, after the deadline. -/
def budgetSpent : Move :=
  .stop [(consentedEvent, 0)] ⟨⟨id, fun _ => .refl _⟩, ⟨id, fun _ => .refl _⟩⟩ 0

/-- The entries are taken in the order of the table. -/
def tableOrder : Orders := ⟨⟨id, fun _ => .refl _⟩, ⟨id, fun _ => .refl _⟩⟩

/-- A query of a device, of a profile with consent. -/
def deviceEvent (profileId deviceId : String) : EventStatistics :=
  ⟨⟨1, 1, 0⟩, some ⟨profileId, deviceId, "30d", some .blocklist, some .doT⟩⟩

/-- The queries of two devices of a profile, of one of another and of one without consent, in a
quarter of an hour. -/
def firstQuarter : List Move :=
  [.event (deviceEvent "0a1b" "phone") 0 tableOrder,
    .event (deviceEvent "0a1b" "laptop") 1 tableOrder,
    .event (deviceEvent "9z8y" "phone") 2 tableOrder, .event ⟨⟨1, 0, 1⟩, none⟩ 3 tableOrder]

/-- The quarter is over, and a device has another query in the same hour. -/
def secondQuarter : List Move :=
  [.tick statisticsBucket15Min tableOrder,
    .event (deviceEvent "0a1b" "phone") statisticsBucket15Min tableOrder]

/-- A stop with a query in its queue, after the deadline. -/
def stopLate : Move := .stop [(deviceEvent "0a1b" "laptop", 2 * statisticsBucket15Min)] tableOrder 0

theorem quarters_plays : ((System.initial ⟨"ams1", 100, 0⟩ 0).play ⟨"ams1", 100, 0⟩
    (firstQuarter ++ secondQuarter ++ [stopLate])).any fun s =>
      s.contributed "0a1b" .total = 4 ∧ s.contributed "9z8y" .total = 1 ∧
      s.emitted.length = 9 ∧ s.dropped.length = 6 := by
  decide +kernel

/-- The quarters that were emitted and those that were dropped add up to the queries of each
profile. -/
theorem conserved_quarters :
    ∃ s, Reaches ⟨"ams1", 100, 0⟩ s ∧ s.emitted.length = 9 ∧ s.dropped.length = 6 ∧
    s.profileSum .tier15Min "0a1b" .total = 4 ∧ s.profileSum .tier1Hour "0a1b" .total = 4 ∧
    s.profileSum .tier15Min "9z8y" .total = 1 := by
  obtain ⟨s, hplay, hfacts⟩ := (Option.any_eq_true _ _).1 quarters_plays
  obtain ⟨hfirst, hother, hemitted, hdropped⟩ := of_decide_eq_true hfacts
  have hrun : Reaches ⟨"ams1", 100, 0⟩ s := reaches_play (.initial 0) hplay
  have hsums := (conserved hrun).1
  exact ⟨s, hrun, hemitted, hdropped, (hsums _ _).1.trans hfirst, (hsums _ _).2.trans hfirst,
    (hsums _ _).1.trans hother⟩

/-- A document that is dropped is in no emitted document. -/
theorem budget_spent : ¬ ∀ (config : Config) (s : System), Reaches config s → ∀ profileId k,
    ((((s.emitted.filter fun d => d.tier = .tier15Min) ++ s.openEntries .tier15Min).filter fun d =>
      d.profileId = profileId).map fun d => d.get k).sum = s.contributed profileId k := by
  intro hclaim
  have hrun : Reaches ⟨"ams1", 100, 0⟩ _ := .step budgetSpent (.initial 0) rfl
  have hsum := hclaim _ _ hrun "0a1b" .total
  exact absurd hsum (by decide)

end ModDNS.Collector
