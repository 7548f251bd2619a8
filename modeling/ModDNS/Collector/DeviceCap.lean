import ModDNS.Collector.Conservation
import Mathlib.Data.Finset.Card

/-!
# The cap on the devices of a bucket

The devices that have an entry of their own are those that are admitted, as long as their bucket is
open; once it is over, nothing is counted in it any more. A flush of every entry starts the cap
over.

* `device_cap`: between two flushes of every entry no bucket has too many devices, that flush
  included, and a device that has had an entry keeps it.
* `cap_starts_over`: over such a flush it does not hold.
-/

namespace ModDNS.Collector

open Data

/-- The devices that have a document of their own. -/
def ownDevices (tier : StatisticsTier) (pb : ProfileBucket) (docs : List Statistics) :
    Finset String :=
  ((docs.filter fun d => d.tier = tier ∧ d.key.profileBucket = pb).map fun d =>
    d.deviceId).toFinset.erase otherDeviceID

/-- The documents of a tier since the last flush of every entry. -/
def System.stretch (s : System) (tier : StatisticsTier) : List Statistics :=
  s.recent ++ s.openEntries tier

/-- **Invariant** of a tier. -/
structure Capped (a : ConsentedAccumulator) (recent : List Statistics) (clock : ℤ) : Prop where
  keyed : a.Keyed
  counted : ∀ pb, a.devices pb = (a.admitted.filter fun key => key.profileBucket = pb).card
  le : ∀ pb, a.devices pb ≤ maxDevicesPerProfileBucket
  covered : ∀ doc ∈ recent ++ values a.entries, doc.tier = a.tier →
    clock < doc.bucketStart + a.width →
    doc.deviceId = otherDeviceID ∨ doc.key ∈ a.admitted
  capped : ∀ pb, (ownDevices a.tier pb (recent ++ values a.entries)).card ≤
    maxDevicesPerProfileBucket

section Devices

variable {tier : StatisticsTier} {pb : ProfileBucket} {docs docs' : List Statistics}
  {device : String}

theorem mem_ownDevices : device ∈ ownDevices tier pb docs ↔
    device ≠ otherDeviceID ∧ ∃ doc ∈ docs, doc.tier = tier ∧
      doc.key = ⟨pb.profileId, device, pb.bucket⟩ := by
  unfold ownDevices
  simp only [Finset.mem_erase, List.mem_toFinset, List.mem_map, List.mem_filter, decide_eq_true_eq]
  refine and_congr_right fun _ => ⟨?_, ?_⟩
  · rintro ⟨doc, ⟨hdoc, htier, rfl⟩, rfl⟩
    exact ⟨doc, hdoc, htier, rfl⟩
  · rintro ⟨doc, hdoc, htier, hkey⟩
    exact ⟨doc, ⟨hdoc, htier, by rw [hkey]; rfl⟩, congrArg ConsentedKey.deviceId hkey⟩

/-- With documents under the same keys there are the same devices. -/
theorem ownDevices_mono (h : ∀ doc ∈ docs, doc.tier = tier → doc.key.profileBucket = pb →
    ∃ doc' ∈ docs', doc'.tier = tier ∧ doc'.key = doc.key) : ownDevices tier pb docs ⊆ ownDevices
      tier pb docs' := by
  intro device hdevice
  obtain ⟨hother, doc, hdoc, htier, hkey⟩ := mem_ownDevices.1 hdevice
  obtain ⟨doc', hdoc', htier', hkey'⟩ := h doc hdoc htier (by rw [hkey]; rfl)
  exact mem_ownDevices.2 ⟨hother, doc', hdoc', htier', hkey'.trans hkey⟩

/-- In a bucket whose devices are admitted, there are not too many. -/
theorem ownDevices_card {a : ConsentedAccumulator}
    (hcounted : a.devices pb = (a.admitted.filter fun key => key.profileBucket = pb).card)
    (hle : a.devices pb ≤ maxDevicesPerProfileBucket)
    (hcovered : ∀ doc ∈ docs, doc.tier = tier → doc.key.profileBucket = pb →
      doc.deviceId = otherDeviceID ∨ doc.key ∈ a.admitted) :
    (ownDevices tier pb docs).card ≤ maxDevicesPerProfileBucket := by
  have hsub : ownDevices tier pb docs ⊆ (a.admitted.filter fun key => key.profileBucket = pb).image
      fun key => key.deviceId := by
    intro device hdevice
    obtain ⟨hother, doc, hdoc, htier, hkey⟩ := mem_ownDevices.1 hdevice
    have hpb : doc.key.profileBucket = pb := by rw [hkey]; rfl
    have hdev : doc.deviceId = device := congrArg ConsentedKey.deviceId hkey
    rcases hcovered doc hdoc htier hpb with hdoc' | hadmitted
    · exact absurd (hdev.symm.trans hdoc') hother
    · exact Finset.mem_image.2 ⟨doc.key, Finset.mem_filter.2 ⟨hadmitted, hpb⟩, hdev⟩
  have hcard := (Finset.card_le_card hsub).trans Finset.card_image_le
  omega

end Devices

/-- A time is in its bucket. -/
theorem bucket_open (a : ConsentedAccumulator) (htier : a.tier ≠ .tier1Day) (now : ℤ) :
    a.tier.bucketStart now ≤ now ∧ now < a.tier.bucketStart now + a.width := by
  have hmod : ∀ d : ℤ, 0 < d → truncate now d ≤ now ∧ now < truncate now d + d := by
    intro d hd
    have h₀ := Int.emod_nonneg now (by omega : d ≠ 0)
    have h₁ := Int.emod_lt_of_pos now hd
    unfold truncate
    omega
  unfold ConsentedAccumulator.width
  cases h : a.tier with
  | tier15Min => exact hmod _ (by decide)
  | tier1Hour => exact hmod _ (by decide)
  | tier1Day => exact absurd h htier

section Steps

variable {a : ConsentedAccumulator} {recent : List Statistics} {clock now : ℤ} {q : Queries}
  {cs : ConsentedStatistics}

theorem mem_values {t : Table ConsentedKey Statistics} {doc : Statistics} :
    doc ∈ values t ↔ ∃ e ∈ t.entries, e.2 = doc := List.mem_map

/-- The device that an event is counted for is admitted. -/
theorem place_covered (htier : a.tier ≠ .tier1Day) (h : Capped a recent clock)
    (hclock : clock ≤ now) :
    (a.place cs now).1.deviceId = otherDeviceID ∨ (a.place cs now).1 ∈
    (a.place cs now).2.admitted := by
  unfold ConsentedAccumulator.place
  simp only
  split
  · next hold =>
    rcases Bool.or_eq_true _ _ ▸ hold with hentry | hadmitted
    · obtain ⟨doc, hdoc⟩ := Option.isSome_iff_exists.1 hentry
      have hmem := mem_entries_of_lookup hdoc
      obtain ⟨hkey, hdocTier⟩ := h.keyed _ hmem
      have hbucket : doc.bucketStart = a.tier.bucketStart now := congrArg ConsentedKey.bucket hkey
      have hopen := (bucket_open a htier now).2
      have hcovered :=
        h.covered doc (List.mem_append_right _ (mem_values.2 ⟨_, hmem, rfl⟩)) hdocTier (by omega)
      have hdevice : doc.deviceId = (a.ownKey cs now).deviceId :=
        congrArg ConsentedKey.deviceId hkey
      have hkey' : doc.key = a.ownKey cs now := hkey
      rw [hdevice, hkey'] at hcovered
      exact hcovered
    · exact .inr (of_decide_eq_true hadmitted)
  · split
    · exact .inl rfl
    · exact .inr (Finset.mem_insert_self _ _)

/-- Nobody is dropped from the devices by an event, and the count stays right. -/
theorem place_counted (h : Capped a recent clock) :
    a.admitted ⊆ (a.place cs now).2.admitted ∧
    (∀ pb, (a.place cs now).2.devices pb =
      ((a.place cs now).2.admitted.filter fun key => key.profileBucket = pb).card) ∧
    ∀ pb, (a.place cs now).2.devices pb ≤ maxDevicesPerProfileBucket := by
  unfold ConsentedAccumulator.place
  simp only
  split
  · exact ⟨Finset.Subset.refl _, h.counted, h.le⟩
  · next hnew =>
    split
    · exact ⟨Finset.Subset.refl _, h.counted, h.le⟩
    · next hroom =>
      have hnot : a.ownKey cs now ∉ a.admitted := fun hin => hnew (by simp [hin])
      refine ⟨Finset.subset_insert _ _, fun pb => ?_, fun pb => ?_⟩
      · by_cases hpb : pb = (a.ownKey cs now).profileBucket
        · subst hpb
          have hfilter : a.ownKey cs now ∉ a.admitted.filter fun key =>
            key.profileBucket = (a.ownKey cs now).profileBucket :=
            fun hin => hnot (Finset.mem_filter.1 hin).1
          simp only [Function.update_self]
          rw [Finset.filter_insert, if_pos rfl, Finset.card_insert_of_notMem hfilter, h.counted]
        · simp only [Function.update_of_ne hpb]
          rw [Finset.filter_insert, if_neg (fun heq => hpb heq.symm), h.counted]
      · by_cases hpb : pb = (a.ownKey cs now).profileBucket
        · subst hpb
          simp only [Function.update_self]
          omega
        · simp only [Function.update_of_ne hpb]
          exact h.le pb

/-- What an event does to the documents: the one that it is counted in, and the others as they
were. -/
theorem values_add (h : a.Keyed) (doc : Statistics) :
    (doc ∈ values (a.add q cs now).entries → doc.key = (a.place cs now).1 ∨
      doc ∈ values a.entries) ∧
    (doc ∈ values a.entries → ∃ doc' ∈ values (a.add q cs now).entries, doc'.tier = a.tier ∧
      doc'.key = doc.key) := by
  obtain ⟨new, hentries⟩ : ∃ new, (a.add q cs now).entries = a.entries.insert
    (a.place cs now).1 new :=
    ConsentedAccumulator.add_entries
  have hkeyed : (a.add q cs now).Keyed := ConsentedAccumulator.keyed_add h
  refine ⟨fun hdoc => ?_, fun hdoc => ?_⟩
  · obtain ⟨e, he, rfl⟩ := mem_values.1 hdoc
    have hkey := (hkeyed e he).1
    rw [hentries] at he
    rcases mem_insert_entries he with hnew | hold
    · left
      rw [hkey, hnew]
    · exact .inr (mem_values.2 ⟨e, hold, rfl⟩)
  · obtain ⟨e, he, rfl⟩ := mem_values.1 hdoc
    obtain ⟨e', he', hkey'⟩ : ∃ e' ∈ (a.add q cs now).entries.entries, e'.1 = e.1 := by
      rw [hentries]
      by_cases hne : e.1 = (a.place cs now).1
      · exact ⟨_, mem_insert_self, hne.symm⟩
      · exact ⟨e, mem_insert_of_ne he hne, rfl⟩
    refine ⟨e'.2, mem_values.2 ⟨e', he', rfl⟩,
      (hkeyed e' he').2.trans ConsentedAccumulator.add_tier, ?_⟩
    rw [(hkeyed e' he').1, (h e he).1, hkey']

/-- **An event.** -/
theorem capped_add (htier : a.tier ≠ .tier1Day) (h : Capped a recent clock) (hclock : clock ≤ now) :
    Capped (a.add q cs now) recent now := by
  obtain ⟨hsub, hcounted, hle⟩ := place_counted h
  have hplaced : (a.place cs now).1.deviceId = otherDeviceID ∨
    (a.place cs now).1 ∈ (a.place cs now).2.admitted :=
    place_covered htier h hclock
  have htier' : (a.add q cs now).tier = a.tier := ConsentedAccumulator.add_tier
  have hwidth : (a.add q cs now).width = a.width := by
    unfold ConsentedAccumulator.width
    rw [htier']
  -- the documents that were there before, and the new one
  have hdocs : ∀ doc ∈ recent ++ values (a.add q cs now).entries,
      doc ∈ recent ++ values a.entries ∨ doc.key = (a.place cs now).1 := by
    intro doc hdoc
    rcases List.mem_append.1 hdoc with hrecent | hvalue
    · exact .inl (List.mem_append_left _ hrecent)
    · exact ((values_add h.keyed doc).1 hvalue).elim .inr fun hold =>
        .inl (List.mem_append_right _ hold)
  have hcovered : ∀ doc ∈ recent ++ values (a.add q cs now).entries, doc.tier = a.tier →
    now < doc.bucketStart + a.width →
      doc.deviceId = otherDeviceID ∨ doc.key ∈ (a.place cs now).2.admitted := by
    intro doc hdoc hdocTier hopen
    rcases hdocs doc hdoc with hold | hkey
    · exact (h.covered doc hold hdocTier (by omega)).imp_right fun hin => hsub hin
    · rw [hkey, show doc.deviceId = (a.place cs now).1.deviceId from congrArg
        ConsentedKey.deviceId hkey]
      exact hplaced
  refine ⟨ConsentedAccumulator.keyed_add h.keyed, hcounted, hle, ?_, fun pb => ?_⟩
  · rw [htier', hwidth]
    exact hcovered
  · rw [htier']
    obtain ⟨deviceId, -, hkey⟩ := a.place_key cs now
    by_cases hpb : (a.place cs now).1.profileBucket = pb
    · -- the bucket of the event is open
      refine ownDevices_card (hcounted pb) (hle pb) fun doc hdoc hdocTier hdocPb =>
        hcovered doc hdoc hdocTier ?_
      have hbucket : doc.bucketStart = a.tier.bucketStart now := by
        rw [← hpb, hkey] at hdocPb
        exact congrArg ProfileBucket.bucket hdocPb
      rw [hbucket]
      exact (bucket_open a htier now).2
    · refine (Finset.card_le_card (ownDevices_mono fun doc hdoc hdocTier hdocPb => ?_)).trans
        (h.capped pb)
      rcases hdocs doc hdoc with hold | hnew
      · exact ⟨doc, hold, hdocTier, rfl⟩
      · rw [hnew] at hdocPb
        exact absurd hdocPb hpb

/-- **A take** that keeps the devices of the open buckets. -/
theorem capped_take (order : RangeOrder) {wantEntry wantDevices : ℤ → Bool}
    {batch : List Statistics} (h : Capped a recent clock) (hclock : clock ≤ now)
    (hclosed : ∀ bucket, wantDevices bucket = true → bucket + a.width ≤ now)
    (hbatch : ∀ doc ∈ batch, doc.tier = a.tier → doc ∈ (a.take order wantEntry wantDevices).1) :
    Capped (a.take order wantEntry wantDevices).2 (recent ++ batch) now := by
  -- what is flushed and what is left were both in the entries
  have hdocs : ∀ doc ∈ recent ++ batch ++ values (a.take order wantEntry wantDevices).2.entries,
    doc.tier = a.tier →
      doc ∈ recent ++ values a.entries := by
    intro doc hdoc hdocTier
    have hin : ∀ p : ConsentedKey → Bool, doc ∈ values (keep a.entries p) →
        doc ∈ values a.entries := by
      intro p hp
      obtain ⟨e, he, rfl⟩ := mem_values.1 hp
      exact mem_values.2 ⟨e, (mem_keep.1 he).1, rfl⟩
    rcases List.mem_append.1 hdoc with hleft | hvalue
    · rcases List.mem_append.1 hleft with hrecent | hnew
      · exact List.mem_append_left _ hrecent
      · exact List.mem_append_right _ (hin _ ((order.perm _).subset (hbatch doc hnew hdocTier)))
    · exact List.mem_append_right _ (hin _ hvalue)
  refine ⟨ConsentedAccumulator.keyed_take order h.keyed, fun pb => ?_, fun pb => ?_,
    ?_, fun pb => ?_⟩
  -- the counters of closed buckets are reset, and theirs alone
  · unfold ConsentedAccumulator.take
    simp only
    split
    · next hwant =>
      symm
      rw [Finset.card_eq_zero, Finset.filter_eq_empty_iff]
      rintro key hkey rfl
      have hkept := (Finset.mem_filter.1 hkey).2
      rw [show key.bucket = key.profileBucket.bucket from rfl, hwant] at hkept
      cases hkept
    · next hwant =>
      rw [h.counted, Finset.filter_filter]
      congr 1
      apply Finset.filter_congr
      rintro key hkey
      constructor
      · rintro rfl
        exact ⟨by rw [show key.bucket = key.profileBucket.bucket from rfl,
          Bool.eq_false_of_not_eq_true hwant]; rfl, rfl⟩
      · exact And.right
  · unfold ConsentedAccumulator.take
    simp only
    split
    · exact Nat.zero_le _
    · exact h.le pb
  · intro doc hdoc hdocTier hopen
    refine (h.covered doc (hdocs doc hdoc hdocTier) hdocTier
      (lt_of_le_of_lt hclock hopen)).imp_right fun hin => ?_
    refine Finset.mem_filter.2 ⟨hin, ?_⟩
    cases hwant : wantDevices doc.key.bucket with
    | false => rfl
    | true =>
      have hover := hclosed _ hwant
      exact absurd hopen (not_lt_of_ge hover)
  · refine (Finset.card_le_card (ownDevices_mono fun doc hdoc hdocTier _ => ?_)).trans (h.capped pb)
    exact ⟨doc, hdocs doc hdoc hdocTier, hdocTier, rfl⟩

/-- An accumulator without entries and devices. -/
theorem capped_empty (hentries : a.entries.entries = []) (hdevices : ∀ pb, a.devices pb = 0)
    (hadmitted : a.admitted = ∅) :
    Capped a [] now := by
  have hvalues : values a.entries = [] := by
    unfold values
    rw [hentries]
    rfl
  have hle : ∀ pb, a.devices pb ≤ maxDevicesPerProfileBucket := by
    intro pb
    rw [hdevices]
    exact Nat.zero_le _
  refine ⟨fun e he => ?_, fun pb => ?_, hle, fun doc hdoc => ?_, fun pb => ?_⟩
  · rw [hentries] at he
    cases he
  · rw [hdevices, hadmitted]
    rfl
  · rw [hvalues] at hdoc
    cases hdoc
  · rw [hvalues]
    exact Nat.zero_le _

/-- **A take of everything** starts over. -/
theorem capped_takeAll (order : RangeOrder) : Capped (a.takeAll order).2 [] now := by
  apply capped_empty
  · exact List.filter_eq_nil_iff.2 fun _ _ => by simp
  · exact fun pb => rfl
  · exact Finset.filter_false_of_mem fun _ _ => by simp

theorem capped_later (h : Capped a recent clock) (hclock : clock ≤ now) : Capped a recent now :=
  ⟨h.keyed, h.counted, h.le, fun doc hdoc htier hopen => h.covered doc hdoc htier
    (lt_of_le_of_lt hclock hopen), h.capped⟩

/-- A device with an entry of its own keeps it. -/
theorem place_own {pb : ProfileBucket} (htier : a.tier ≠ .tier1Day) (h : Capped a recent clock)
    (hclock : clock ≤ now) (hpb : (a.ownKey cs now).profileBucket = pb)
    (hown : cs.deviceId ∈ ownDevices a.tier pb (recent ++ values a.entries)) :
    (a.place cs now).1 = a.ownKey cs now := by
  obtain ⟨hother, doc, hdoc, hdocTier, hkey⟩ := mem_ownDevices.1 hown
  have hownKey : doc.key = a.ownKey cs now := by
    rw [hkey, ← hpb]
    rfl
  have hbucket : doc.bucketStart = a.tier.bucketStart now := congrArg ConsentedKey.bucket hownKey
  have hopen := (bucket_open a htier now).2
  have hadmitted : a.ownKey cs now ∈ a.admitted := by
    rcases h.covered doc hdoc hdocTier (by omega) with hdevice | hin
    · have hsame : doc.deviceId = cs.deviceId := congrArg ConsentedKey.deviceId hownKey
      exact absurd (hsame.symm.trans hdevice) hother
    · rwa [hownKey] at hin
  unfold ConsentedAccumulator.place
  simp only
  rw [if_pos (by simp [hadmitted])]

end Steps

section Runs

variable {s s' : System} {event : EventStatistics} {now : ℤ} {orders : Orders} {config : Config}
  {inTime : Option ℕ}

/-- **Invariant** of both tiers. -/
structure System.Capped (s : System) : Prop where
  conserved : s.Conserved
  quarter : Collector.Capped s.collector.quarter s.recent s.clock
  hour : Collector.Capped s.collector.hour s.recent s.clock

theorem quarter_notDay (h : s.Conserved) : s.collector.quarter.tier ≠ .tier1Day := by
  rw [h.quarterTier]
  decide

theorem hour_notDay (h : s.Conserved) : s.collector.hour.tier ≠ .tier1Day := by
  rw [h.hourTier]
  decide

theorem capped_record (h : s.Capped) (hclock : s.clock ≤ now) : (s.record event now).Capped := by
  have hconserved : (s.record event now).Conserved := conserved_record h.conserved
  cases hconsented : event.consented with
  | none =>
    refine ⟨hconserved, ?_, ?_⟩
    · rw [record_unconsented hconsented]
      exact capped_later h.quarter hclock
    · rw [record_unconsented hconsented]
      exact capped_later h.hour hclock
  | some cs =>
    refine ⟨hconserved, ?_, ?_⟩
    · rw [record_consented hconsented]
      exact capped_add (quarter_notDay h.conserved) h.quarter hclock
    · rw [record_consented hconsented]
      exact capped_add (hour_notDay h.conserved) h.hour hclock

theorem capped_flush (h : s.Capped) : s.flush.Capped :=
  ⟨conserved_flush h.conserved, h.quarter, h.hour⟩

/-- A flush of the closed buckets takes entries of both tiers, and the devices of the closed buckets
only. -/
theorem takeConsented_closed (c : StatisticsCollector) (orders : Orders) (now : ℤ) :
    ∃ wantQuarter wantHour : ℤ → Bool, c.takeConsented false orders now =
      ((c.quarter.take orders.quarter wantQuarter (c.quarter.closed now)).1 ++
          (c.hour.take orders.hour wantHour (c.hour.closed now)).1.flatMap fun h => [h, h.forDay],
        { c with
          quarter := (c.quarter.take orders.quarter wantQuarter (c.quarter.closed now)).2
          hour := (c.hour.take orders.hour wantHour (c.hour.closed now)).2 }) := by
  unfold StatisticsCollector.takeConsented
  by_cases hlen : (c.quarter.takeClosed orders.quarter now).1.length > 0
  · simp only [Bool.false_eq_true, if_false, if_pos hlen]
    exact ⟨_, _, rfl⟩
  · simp only [Bool.false_eq_true, if_false, if_neg hlen]
    exact ⟨_, _, rfl⟩

/-- The documents of a tier in a batch. -/
theorem mem_batch {quarters hours : List Statistics}
    (hquarters : ∀ d ∈ quarters, d.tier = .tier15Min) (hhours : ∀ d ∈ hours, d.tier = .tier1Hour)
    {doc : Statistics} (hdoc : doc ∈ quarters ++ hours.flatMap fun h => [h, h.forDay]) :
    (doc.tier = .tier15Min → doc ∈ quarters) ∧ (doc.tier = .tier1Hour → doc ∈ hours) := by
  have hfilter := filter_batch hquarters hhours
  have hmem : ∀ tier, doc.tier = tier →
    doc ∈ (quarters ++ hours.flatMap fun h => [h, h.forDay]).filter fun d => d.tier = tier :=
    fun tier htier => List.mem_filter.2 ⟨hdoc, decide_eq_true htier⟩
  refine ⟨fun htier => ?_, fun htier => ?_⟩
  · have hin := hmem _ htier
    rwa [hfilter] at hin
  · have hin := hmem _ htier
    rwa [hfilter] at hin

/-- What is taken of the two tiers is of their tiers. -/
theorem take_tiers (h : s.Conserved) (orders : Orders)
    (wantQuarter wantQuarterDevices wantHour wantHourDevices : ℤ → Bool) :
    (∀ d ∈ (s.collector.quarter.take orders.quarter wantQuarter wantQuarterDevices).1,
      d.tier = .tier15Min) ∧
    (∀ d ∈ (s.collector.hour.take orders.hour wantHour wantHourDevices).1, d.tier = .tier1Hour) :=
  ⟨fun d hd => (ConsentedAccumulator.tier_take h.quarterKeyed d hd).trans h.quarterTier,
    fun d hd => (ConsentedAccumulator.tier_take h.hourKeyed d hd).trans h.hourTier⟩

/-- **A flush of the closed buckets.** -/
theorem capped_flushClosed (h : s.Capped) :
    (s.flushConsented false orders s.clock inTime).Capped := by
  obtain ⟨wantQuarter, wantHour, htake⟩ := takeConsented_closed s.collector orders s.clock
  obtain ⟨hquarters, hhours⟩ :=
    take_tiers h.conserved orders wantQuarter (s.collector.quarter.closed s.clock) wantHour
    (s.collector.hour.closed s.clock)
  have hrecent : (s.flushConsented false orders s.clock inTime).recent =
      s.recent ++ (s.collector.takeConsented false orders s.clock).1 := rfl
  have hcollector : (s.flushConsented false orders s.clock inTime).collector =
      (s.collector.takeConsented false orders s.clock).2 := rfl
  rw [htake] at hrecent hcollector
  refine ⟨conserved_flushConsented h.conserved, ?_, ?_⟩
  · rw [hrecent, hcollector]
    refine capped_take orders.quarter h.quarter (Int.le_refl _)
      (fun bucket hclosed => of_decide_eq_true hclosed) fun doc hdoc htier => ?_
    exact (mem_batch hquarters hhours hdoc).1 (htier.trans h.conserved.quarterTier)
  · rw [hrecent, hcollector]
    refine capped_take orders.hour h.hour (Int.le_refl _)
      (fun bucket hclosed => of_decide_eq_true hclosed) fun doc hdoc htier => ?_
    exact (mem_batch hquarters hhours hdoc).2 (htier.trans h.conserved.hourTier)

/-- **A flush of every entry.** -/
theorem capped_flushAll (h : s.Conserved) : (s.flushConsented true orders now inTime).Capped :=
  ⟨conserved_flushConsented h, capped_takeAll orders.quarter, capped_takeAll orders.hour⟩

theorem capped_drain {queue : List (EventStatistics × ℤ)} (h : s.Capped)
    (hdrain : s.drain queue = some s') :
    s'.Capped :=
  System.drain_induct (fun _ _ _ hclock h => capped_record h hclock) h hdrain

/-- The events of a queue are counted before anything leaves. -/
theorem left_drain {queue : List (EventStatistics × ℤ)} (hdrain : s.drain queue = some s') :
    s'.recent = s.recent ∧ ∀ tier, s'.left tier = s.left tier :=
  System.drain_induct (P := fun s₁ => s₁.recent = s.recent ∧ ∀ tier, s₁.left tier = s.left tier)
    (fun _ _ _ _ h => h) ⟨rfl, fun _ => rfl⟩ hdrain

/-- The clock of a tick. -/
theorem capped_clock (h : s.Capped) (hclock : s.clock ≤ now) :
    System.Capped { s with clock := now } :=
  ⟨conserved_clock h.conserved now, capped_later h.quarter hclock, capped_later h.hour hclock⟩

theorem capped_event (h : s.Capped) (hclock : s.clock ≤ now) :
    (s.add config event now orders).Capped := by
  have hrecord : (s.record event now).Capped := capped_record h hclock
  rcases System.add_cases s config event now orders with hadd | hadd
  · rw [hadd]
    exact hrecord
  · rw [hadd]
    exact capped_flushAll hrecord.conserved

/-- **Step lemma.** -/
theorem capped_step {m : Move} (h : s.Capped) (hstep : s.step config m = some s') : s'.Capped := by
  cases m with
  | event event now orders =>
    obtain ⟨-, hclock, hs'⟩ := System.step_event hstep
    have hadd : (s.add config event now orders).Capped := capped_event h hclock
    rcases hs' with rfl | rfl
    · exact hadd
    · exact capped_flush hadd
  | tick now orders =>
    obtain ⟨-, hclock, s₁, hs₁, rfl⟩ := System.step_tick hstep
    have hlater : System.Capped { s with clock := now } := capped_clock h hclock
    rcases hs₁ with rfl | rfl
    · exact capped_flushClosed hlater
    · exact capped_flushClosed (capped_flush hlater)
  -- the last flush takes every bucket
  | stop queue orders inTime =>
    obtain ⟨s₁, hdrain, rfl⟩ := System.step_stop hstep
    have hdrained : s₁.Capped := capped_drain h hdrain
    have hall : (s₁.flush.flushConsented true orders s₁.clock (some inTime)).Capped :=
      capped_flushAll (capped_flush hdrained).conserved
    exact ⟨conserved_stopped hall.conserved, hall.quarter, hall.hour⟩

theorem capped_run (h : Reaches config s) : s.Capped := by
  induction h with
  | initial clock =>
    exact ⟨conserved_initial config clock, capped_empty rfl (fun _ => rfl) rfl,
      capped_empty rfl (fun _ => rfl) rfl⟩
  | step m _ hstep ih => exact capped_step ih hstep

/-- What leaves a tier between the states has few enough devices, with what has left since the last
flush of every entry. -/
def Releases (s s' : System) : Prop :=
  ∀ tier, tier ≠ .tier1Day → ∃ batch, (s'.left tier).Perm (s.left tier ++ batch) ∧
    ∀ pb, (ownDevices tier pb (s.recent ++ batch)).card ≤ maxDevicesPerProfileBucket

/-- Where nothing leaves, the documents are among those of the state. -/
theorem releases_nothing (h : s.Capped) (hleft : ∀ tier, s'.left tier = s.left tier) :
    Releases s s' := by
  intro tier htier
  refine ⟨[], by rw [hleft, List.append_nil], fun pb => ?_⟩
  rw [List.append_nil]
  have hrecent : ∀ a : ConsentedAccumulator, a.tier = tier → Collector.Capped a s.recent s.clock →
      (ownDevices tier pb s.recent).card ≤ maxDevicesPerProfileBucket := by
    rintro a rfl ha
    refine (Finset.card_le_card (ownDevices_mono fun doc hdoc hdocTier _ => ?_)).trans
      (ha.capped pb)
    exact ⟨doc, List.mem_append_left _ hdoc, hdocTier, rfl⟩
  cases tier with
  | tier15Min => exact hrecent _ h.conserved.quarterTier h.quarter
  | tier1Hour => exact hrecent _ h.conserved.hourTier h.hour
  | tier1Day => exact absurd rfl htier

/-- A flush of the entries, of every one or of some, hands over entries of the state. -/
theorem releases_flushConsented (h : s.Capped) (all : Bool) (orders : Orders) (now : ℤ)
    (inTime : Option ℕ) :
    Releases s (s.flushConsented all orders now inTime) := by
  obtain ⟨wantQuarter, wantQuarterDevices, wantHour, wantHourDevices, htake⟩ :=
    takeConsented_cases s.collector all orders now
  obtain ⟨hquarters, hhours⟩ :=
    take_tiers h.conserved orders wantQuarter wantQuarterDevices wantHour wantHourDevices
  intro tier htier
  refine ⟨_, left_flushConsented s all orders now inTime tier, fun pb => ?_⟩
  rw [htake]
  have hbound : ∀ (a : ConsentedAccumulator) (batch : List Statistics), a.tier = tier →
      Collector.Capped a s.recent s.clock → (∀ doc ∈ batch, doc ∈ values a.entries) →
      (ownDevices tier pb (s.recent ++ batch)).card ≤ maxDevicesPerProfileBucket := by
    rintro a batch rfl ha hbatch
    refine (Finset.card_le_card (ownDevices_mono fun doc hdoc hdocTier _ =>
      ⟨doc, ?_, hdocTier, rfl⟩)).trans
      (ha.capped pb)
    rcases List.mem_append.1 hdoc with hrecent | htaken
    · exact List.mem_append_left _ hrecent
    · exact List.mem_append_right _ (hbatch doc htaken)
  have htaken :
    ∀ (a : ConsentedAccumulator) (order : RangeOrder) (wantEntry wantDevices : ℤ → Bool),
      ∀ doc ∈ (a.take order wantEntry wantDevices).1, doc ∈ values a.entries := by
    intro a order wantEntry wantDevices doc hdoc
    obtain ⟨e, he, rfl⟩ := mem_values.1 ((order.perm _).subset hdoc)
    exact mem_values.2 ⟨e, (mem_keep.1 he).1, rfl⟩
  simp only
  rw [filter_batch hquarters hhours tier]
  cases tier with
  | tier15Min => exact hbound _ _ h.conserved.quarterTier h.quarter (htaken _ _ _ _)
  | tier1Hour => exact hbound _ _ h.conserved.hourTier h.hour (htaken _ _ _ _)
  | tier1Day => exact absurd rfl htier

theorem releases_event (h : s.Capped) (hclock : s.clock ≤ now) :
    Releases s (s.add config event now orders) := by
  rcases System.add_cases s config event now orders with hadd | hadd
  · rw [hadd]
    exact releases_nothing h fun _ => rfl
  · rw [hadd]
    exact releases_flushConsented (capped_record h hclock) true orders now none

/-- **What leaves in one step.** The flush may come after other events of the step, which are
counted by then. -/
theorem releases_step {m : Move} (h : s.Capped) (hstep : s.step config m = some s') :
    Releases s s' := by
  cases m with
  -- a full accumulator is flushed by the event that fills it
  | event event now orders =>
    obtain ⟨-, hclock, hs'⟩ := System.step_event hstep
    have hadd : Releases s (s.add config event now orders) := releases_event h hclock
    rcases hs' with rfl | rfl
    · exact hadd
    · exact hadd
  | tick now orders =>
    obtain ⟨-, hclock, s₁, hs₁, rfl⟩ := System.step_tick hstep
    have hlater : System.Capped { s with clock := now } := capped_clock h hclock
    rcases hs₁ with rfl | rfl
    · exact releases_flushConsented hlater false orders now none
    · exact releases_flushConsented (capped_flush hlater) false orders now none
  -- what is queued at the stop is counted before the last flush
  | stop queue orders inTime =>
    obtain ⟨s₁, hdrain, rfl⟩ := System.step_stop hstep
    obtain ⟨hrecent, hleft⟩ := left_drain hdrain
    have hflush : Releases s₁.flush
      (s₁.flush.flushConsented true orders s₁.clock (some inTime)) :=
      releases_flushConsented (capped_flush (capped_drain h hdrain)) true orders s₁.clock
      (some inTime)
    intro tier htier
    obtain ⟨batch, hperm, hbound⟩ := hflush tier htier
    have hrecent' : s₁.flush.recent = s.recent := hrecent
    have hleft' : s₁.flush.left tier = s.left tier := hleft tier
    rw [hrecent'] at hbound
    rw [hleft'] at hperm
    exact ⟨batch, hperm, hbound⟩

/-- Either every entry has been flushed since, or the devices with a document of their own still
have one. -/
def Keeps (s s' : System) : Prop :=
  s.flushedAll < s'.flushedAll ∨
    s.flushedAll = s'.flushedAll ∧ ∀ tier pb, ownDevices tier pb
      (s.stretch tier) ⊆ ownDevices tier pb (s'.stretch tier)

theorem Keeps.trans {s₁ s₂ s₃ : System} (h : Keeps s₁ s₂) (h' : Keeps s₂ s₃) : Keeps s₁ s₃ := by
  rcases h with hlt | ⟨heq, hsub⟩
  · rcases h' with hlt' | ⟨heq', -⟩
    · exact .inl (hlt.trans hlt')
    · exact .inl (heq' ▸ hlt)
  · rcases h' with hlt' | ⟨heq', hsub'⟩
    · exact .inl (heq ▸ hlt')
    · exact .inr ⟨heq.trans heq', fun tier pb => (hsub tier pb).trans (hsub' tier pb)⟩

theorem Keeps.refl (s : System) : Keeps s s := .inr ⟨rfl, fun _ _ => Finset.Subset.refl _⟩

theorem keeps_record (h : s.Conserved) : Keeps s (s.record event now) := by
  refine .inr ⟨rfl, fun tier pb => ?_⟩
  apply ownDevices_mono
  intro doc hdoc hdocTier _
  rcases List.mem_append.1 hdoc with hrecent | hopen
  · exact ⟨doc, List.mem_append_left _ hrecent, hdocTier, rfl⟩
  · suffices hopen' : ∃ doc' ∈ (s.record event now).openEntries tier, doc'.tier = tier ∧
      doc'.key = doc.key by
      obtain ⟨doc', hdoc', hsame⟩ := hopen'
      exact ⟨doc', List.mem_append_right _ hdoc', hsame⟩
    cases hconsented : event.consented with
    | none =>
      have hsame : (s.record event now).openEntries tier = s.openEntries tier := by
        unfold System.openEntries
        rw [record_unconsented hconsented]
      rw [hsame]
      exact ⟨doc, hopen, hdocTier, rfl⟩
    | some cs =>
      unfold System.openEntries at hopen ⊢
      rw [record_consented hconsented]
      cases tier with
      | tier15Min =>
        obtain ⟨doc', hdoc', htier, hkey⟩ := (values_add h.quarterKeyed doc).2 hopen
        exact ⟨doc', hdoc', htier.trans h.quarterTier, hkey⟩
      | tier1Hour =>
        obtain ⟨doc', hdoc', htier, hkey⟩ := (values_add h.hourKeyed doc).2 hopen
        exact ⟨doc', hdoc', htier.trans h.hourTier, hkey⟩
      | tier1Day => cases hopen

/-- What a take leaves, it has put into the batch. -/
theorem mem_take {a : ConsentedAccumulator} (order : RangeOrder) (wantEntry wantDevices : ℤ → Bool)
    {doc : Statistics} (h : doc ∈ values a.entries) : doc ∈ (a.take order wantEntry wantDevices).1 ∨
      doc ∈ values (a.take order wantEntry wantDevices).2.entries := by
  obtain ⟨e, he, rfl⟩ := mem_values.1 h
  cases hwant : wantEntry e.1.bucket with
  | true => exact .inl ((order.perm _).symm.subset (mem_values.2 ⟨e, mem_keep.2 ⟨he, hwant⟩, rfl⟩))
  | false => exact .inr (mem_values.2 ⟨e, mem_keep.2 ⟨he, by rw [hwant]; rfl⟩, rfl⟩)

theorem keeps_flushClosed (s : System) (orders : Orders) (now : ℤ) (inTime : Option ℕ) :
    Keeps s (s.flushConsented false orders now inTime) := by
  obtain ⟨wantQuarter, wantHour, htake⟩ := takeConsented_closed s.collector orders now
  have hrecent : (s.flushConsented false orders now inTime).recent =
      s.recent ++ (s.collector.takeConsented false orders now).1 := rfl
  have hcollector : (s.flushConsented false orders now inTime).collector =
    (s.collector.takeConsented false orders now).2 :=
    rfl
  rw [htake] at hrecent hcollector
  refine .inr ⟨rfl, fun tier pb => ?_⟩
  apply ownDevices_mono
  intro doc hdoc hdocTier _
  refine ⟨doc, ?_, hdocTier, rfl⟩
  unfold System.stretch System.openEntries
  rw [hrecent, hcollector]
  rcases List.mem_append.1 hdoc with hold | hopen
  · exact List.mem_append_left _ (List.mem_append_left _ hold)
  · cases tier with
    | tier15Min =>
      rcases mem_take orders.quarter wantQuarter (s.collector.quarter.closed now) hopen
        with htaken | hkept
      · exact List.mem_append_left _ (List.mem_append_right _ (List.mem_append_left _ htaken))
      · exact List.mem_append_right _ hkept
    | tier1Hour =>
      rcases mem_take orders.hour wantHour (s.collector.hour.closed now) hopen with htaken | hkept
      · refine List.mem_append_left _ (List.mem_append_right _ (List.mem_append_right _ ?_))
        exact List.mem_flatMap.2 ⟨doc, htaken, List.mem_cons_self⟩
      · exact List.mem_append_right _ hkept
    | tier1Day => cases hopen

theorem keeps_flushAll (s : System) (orders : Orders) (now : ℤ) (inTime : Option ℕ) :
    Keeps s (s.flushConsented true orders now inTime) := .inl (Nat.lt_succ_self _)

theorem keeps_flush (s : System) : Keeps s s.flush := .inr ⟨rfl, fun _ _ => Finset.Subset.refl _⟩

theorem keeps_drain {queue : List (EventStatistics × ℤ)} (h : s.Conserved)
    (hdrain : s.drain queue = some s') :
    Keeps s s' :=
  (System.drain_induct (P := fun s₁ => s₁.Conserved ∧ Keeps s s₁)
    (fun _ _ _ _ h => ⟨conserved_record h.1, h.2.trans (keeps_record h.1)⟩) ⟨h, Keeps.refl s⟩
    hdrain).2

theorem keeps_event (h : s.Conserved) : Keeps s (s.add config event now orders) := by
  rcases System.add_cases s config event now orders with hadd | hadd
  · rw [hadd]
    exact keeps_record h
  · rw [hadd]
    exact (keeps_record h).trans (keeps_flushAll _ _ _ _)

theorem keeps_step {m : Move} (h : s.Conserved) (hstep : s.step config m = some s') :
    Keeps s s' := by
  cases m with
  | event event now orders =>
    obtain ⟨-, -, hs'⟩ := System.step_event hstep
    have hadd : Keeps s (s.add config event now orders) := keeps_event h
    rcases hs' with rfl | rfl
    · exact hadd
    · exact hadd.trans (keeps_flush _)
  | tick now orders =>
    obtain ⟨-, -, s₁, hs₁, rfl⟩ := System.step_tick hstep
    have hclock : Keeps s { s with clock := now } := .inr ⟨rfl, fun _ _ => Finset.Subset.refl _⟩
    rcases hs₁ with rfl | rfl
    · exact hclock.trans (keeps_flushClosed _ _ _ _)
    · exact (hclock.trans (keeps_flush _)).trans (keeps_flushClosed _ _ _ _)
  | stop queue orders inTime =>
    obtain ⟨s₁, hdrain, rfl⟩ := System.step_stop hstep
    have hflushed : Keeps s (s₁.flush.flushConsented true orders s₁.clock (some inTime)) :=
      ((keeps_drain h hdrain).trans (keeps_flush _)).trans (keeps_flushAll _ _ _ _)
    exact hflushed

/-- The second state is reached from the first. -/
inductive Later (config : Config) (s : System) : System → Prop where
  | refl : Later config s s
  | step {s' s'' : System} (m : Move) : Later config s s' → s'.step config m = some s'' →
      Later config s s''

theorem reaches_later (h : Reaches config s) (hlater : Later config s s') : Reaches config s' := by
  induction hlater with
  | refl => exact h
  | step m _ hstep ih => exact .step m ih hstep

theorem keeps_later (h : Reaches config s) (hlater : Later config s s') : Keeps s s' := by
  induction hlater with
  | refl => exact Keeps.refl s
  | step m hbefore hstep ih =>
    exact ih.trans (keeps_step (conserved_run (reaches_later h hbefore)) hstep)

/-- The accumulators of the two tiers. -/
def System.accumulators (s : System) : List ConsentedAccumulator :=
  [s.collector.quarter, s.collector.hour]

/-- **The device cap**, between two flushes of every entry: no bucket has documents and entries for
more devices, and a device that has had its own in a bucket is not counted under another key in it.
The documents of the next step that leave, those of a flush of every entry too, are bounded with the
ones before. -/
theorem device_cap (h : Reaches config s) (hlater : Later config s s')
    (hsame : s'.flushedAll = s.flushedAll) :
    (∀ a ∈ s'.accumulators, ∀ pb,
      (ownDevices a.tier pb (s'.stretch a.tier)).card ≤ maxDevicesPerProfileBucket ∧
      ∀ cs now, s'.clock ≤ now → (a.ownKey cs now).profileBucket = pb →
        cs.deviceId ∈ ownDevices a.tier pb (s.stretch a.tier) →
          (a.place cs now).1 = a.ownKey cs now) ∧
    ∀ m s'', s'.step config m = some s'' → Releases s' s'' := by
  have hcapped : s'.Capped := capped_run (reaches_later h hlater)
  -- without a flush of every entry no device leaves its bucket
  have hkeeps : ∀ tier pb, ownDevices tier pb (s.stretch tier) ⊆ ownDevices tier pb
      (s'.stretch tier) := by
    rcases keeps_later h hlater with hlt | ⟨-, hsub⟩
    · omega
    · exact hsub
  -- the same argument for both accumulators
  have htier : ∀ (a : ConsentedAccumulator), a.tier ≠ .tier1Day →
    s'.openEntries a.tier = values a.entries →
      Capped a s'.recent s'.clock → ∀ pb, (ownDevices a.tier pb (s'.stretch a.tier)).card ≤
        maxDevicesPerProfileBucket ∧
      ∀ cs now, s'.clock ≤ now → (a.ownKey cs now).profileBucket = pb →
        cs.deviceId ∈ ownDevices a.tier pb (s.stretch a.tier) →
          (a.place cs now).1 = a.ownKey cs now := by
    intro a hday hopen ha pb
    have hstretch : s'.stretch a.tier = s'.recent ++ values a.entries := by
      unfold System.stretch
      rw [hopen]
    refine ⟨?_, fun cs now hclock hpb hown => ?_⟩
    · rw [hstretch]
      exact ha.capped pb
    · have hown' := hkeeps _ _ hown
      rw [hstretch] at hown'
      exact place_own hday ha hclock hpb hown'
  refine ⟨fun a ha => ?_, fun m s'' hstep => releases_step hcapped hstep⟩
  simp only [System.accumulators, List.mem_cons, List.not_mem_nil, or_false] at ha
  rcases ha with rfl | rfl
  · refine htier _ (quarter_notDay hcapped.conserved) ?_ hcapped.quarter
    rw [hcapped.conserved.quarterTier]
    rfl
  · refine htier _ (hour_notDay hcapped.conserved) ?_ hcapped.hour
    rw [hcapped.conserved.hourTier]
    rfl

theorem later_play {ms : List Move} {s₁ s₂ : System} (h : Later config s s₁)
    (hplay : s₁.play config ms = some s₂) :
    Later config s s₂ := by
  induction ms generalizing s₁ with
  | nil =>
    obtain rfl := Option.some.inj hplay
    exact h
  | cons m ms ih =>
    obtain ⟨s', hstep, hrest⟩ := Option.bind_eq_some_iff.1 hplay
    exact ih (.step m h hstep) hrest

end Runs

/-- The phone and the laptop have had entries of their own in the hour, and the quarter of those is
over. -/
theorem quarters_devices :
    ((System.initial ⟨"ams1", 100, 0⟩ 0).play ⟨"ams1", 100, 0⟩ firstQuarter).any fun s =>
    (s.play ⟨"ams1", 100, 0⟩ secondQuarter).any fun s' =>
      s'.flushedAll = s.flushedAll ∧ s'.recent.length = 9 ∧ s'.clock = statisticsBucket15Min ∧
      s'.collector.hour.tier = .tier1Hour ∧ ownDevices .tier1Hour ⟨"0a1b", 0⟩
      (s.stretch .tier1Hour) = {"phone", "laptop"} ∧
      (s'.step ⟨"ams1", 100, 0⟩ stopLate).any fun s'' => s''.flushedAll = 1 := by
  decide +kernel

/-- After the quarter the laptop is still counted as itself in the hour, and the stop hands over few
enough devices. -/
theorem device_cap_quarters : ∃ s s' s'', Reaches ⟨"ams1", 100, 0⟩ s ∧ Later ⟨"ams1", 100, 0⟩ s s' ∧
    s'.recent.length = 9 ∧ s'.step ⟨"ams1", 100, 0⟩ stopLate = some s'' ∧ s''.flushedAll = 1 ∧
      Releases s' s'' ∧
    (ownDevices .tier1Hour ⟨"0a1b", 0⟩ (s'.stretch .tier1Hour)).card ≤ maxDevicesPerProfileBucket ∧
    (s'.collector.hour.place ⟨"0a1b", "laptop", "30d", none, some .doT⟩ statisticsBucket15Min).1 =
      ⟨"0a1b", "laptop", 0⟩ := by
  obtain ⟨s, hplay, hafter⟩ := (Option.any_eq_true _ _).1 quarters_devices
  obtain ⟨s', hplay', hfacts⟩ := (Option.any_eq_true _ _).1 hafter
  obtain ⟨hsame, hrecent, hclock, htier, hdevices, hstop⟩ := of_decide_eq_true hfacts
  obtain ⟨s'', hstep, hall⟩ := (Option.any_eq_true _ _).1 hstop
  have hrun : Reaches ⟨"ams1", 100, 0⟩ s := reaches_play (.initial 0) hplay
  have hlater : Later ⟨"ams1", 100, 0⟩ s s' := later_play .refl hplay'
  have hcap := device_cap hrun hlater hsame
  have hhour := hcap.1 s'.collector.hour (List.mem_cons_of_mem _ List.mem_cons_self) ⟨"0a1b", 0⟩
  rw [htier] at hhour
  obtain ⟨hcard, hplace⟩ := hhour
  have hkey : s'.collector.hour.ownKey
    ⟨"0a1b", "laptop", "30d", none, some .doT⟩ statisticsBucket15Min =
      ⟨"0a1b", "laptop", 0⟩ := by
    unfold ConsentedAccumulator.ownKey
    rw [htier]
    decide
  have hplaced := hplace ⟨"0a1b", "laptop", "30d", none, some .doT⟩ statisticsBucket15Min (by omega)
    (by rw [hkey]; rfl) (by rw [hdevices]; decide)
  exact ⟨s, s', s'', hrun, hlater, hrecent, hstep, of_decide_eq_true hall, hcap.2 _ _ hstep, hcard,
    hplaced.trans hkey⟩

/-- The queries of 65 devices of a profile, one after the other, in a quarter of an hour. -/
def manyDevices (orders : Orders) : List Move :=
  (List.range 65).map fun i =>
    .event ⟨⟨1, 0, 0⟩, some ⟨"0a1b", toString i, "30d", none, some .doH⟩⟩ 0 orders

/-- With at most two open entries, every event is followed by a flush of everything, and every
device gets an entry. -/
theorem cap_starts_over :
    ¬ ∀ (config : Config) (s : System), Reaches config s → ∀ a ∈ s.accumulators, ∀ pb,
    (ownDevices a.tier pb (s.emitted ++ s.openEntries a.tier)).card ≤
    maxDevicesPerProfileBucket := by
  intro hclaim
  have hplay : ((System.initial ⟨"ams1", 100, 2⟩ 0).play ⟨"ams1", 100, 2⟩
      (manyDevices ⟨⟨id, fun _ => .refl _⟩, ⟨id, fun _ => .refl _⟩⟩)).map (fun s =>
      (s.collector.quarter.tier, (ownDevices s.collector.quarter.tier ⟨"0a1b", 0⟩
        (s.emitted ++ s.openEntries s.collector.quarter.tier)).card)) = some (.tier15Min, 65) := by
    decide +kernel
  obtain ⟨s, hs, hcard⟩ := Option.map_eq_some_iff.1 hplay
  have hle :=
    hclaim _ s (reaches_play (.initial 0) hs) s.collector.quarter (List.mem_cons_self) ⟨"0a1b", 0⟩
  rw [(Prod.mk.inj hcard).2] at hle
  exact absurd hle (by decide)

end ModDNS.Collector
