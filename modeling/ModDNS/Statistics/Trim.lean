import ModDNS.Mongo.DeleteMany
import ModDNS.Statistics.Facets

/-!
# The trim of the daily statistics

A profile whose retention is lowered has daily documents in collections of longer retentions.
`TrimProfileDailyStatistics` deletes the days of these that are before the retention.

* `counted_day`: the daily documents that some read counts.
* `trim_loses`: a document is counted before the trim and deleted by it exactly if its day is lost.
* `lost_iff`: the days that can be lost.
-/

namespace ModDNS.Statistics

open Data Mongo Collector

section Code

variable (replies : StatisticsColl → DeleteReply) (profileId retention : String) (now : ℤ)

def dailyCollectionNames : List (String × StatisticsColl) :=
  [("30d", .coll1d30d), ("90d", .coll1d90d), ("1y", .coll1d1y)]

/-- The daily collections that the loop gets to after that of the retention. -/
def longerDaily : List StatisticsColl :=
  ((dailyCollectionNames.dropWhile fun d => d.1 ≠ orDefault retention).drop 1).map Prod.snd

/-- The first day that the retention keeps. -/
def trimSince : ℤ := truncate (now - retentionWindow retention) (24 * hour)

def trimFilter (since : ℤ) (d : Statistics) : Bool :=
  d.profileId = profileId && d.bucketStart < since

/-- `TrimProfileDailyStatistics`. -/
def trimProfileDailyStatistics (db : StatisticsDB) : Deleted StatisticsColl Statistics :=
  deleteEach replies (trimFilter profileId (trimSince retention now)) (longerDaily retention) db 0

end Code

section Reads

/-- The documents that `GetProfileStatistics` asks for. -/
def counted (db : StatisticsDB) (clock : ℤ) (profileId : String) (settings : ReadSettings)
    (spec : TimespanSpec) :
    List Statistics :=
  let (start, stop) :=
    computeWindow (truncate clock second) spec (retentionWindow settings.retention)
  documents db profileId (keepSince start settings.historyDeletedAt spec.bucket) stop spec.tier

/-- A read of the days counts the document. -/
def Counted (db : StatisticsDB) (clock : ℤ) (profileId : String) (settings : ReadSettings)
    (d : Statistics) : Prop :=
  ∃ timespan spec, newStatisticsTimespan timespan = some spec ∧ spec.tier = .tier1Day ∧
    d ∈ counted db clock profileId settings spec

variable {db : StatisticsDB} {clock t : ℤ} {profileId timespan : String} {settings : ReadSettings}
  {spec : TimespanSpec}

end Reads

section Days

variable {t u width : ℤ} {deletedAt : Option ℤ}

/-- The buckets from that of a time on. -/
theorem truncate_le_iff (hw : 0 < width) (ht : t % width = 0) :
    truncate u width ≤ t ↔ u < t + width := by
  have hlt := Int.emod_lt_of_pos u hw
  have hnext : t + width ≤ u → t + width ≤ truncate u width :=
    truncate_mono hw (by rw [Int.add_emod_right, ht])
  have hle : truncate u width ≤ u := truncate_le u hw
  unfold truncate at hnext hle ⊢
  constructor
  · intro h
    by_contra hge
    have hge := hnext (by omega)
    omega
  · intro h
    by_contra hgt
    -- both are multiples of the width
    obtain ⟨i, hi⟩ := Int.dvd_of_emod_eq_zero ht
    have hsplit := Int.emod_add_mul_ediv u width
    have hlt : width * i < width * (u / width) := by omega
    have hq : i + 1 ≤ u / width := Int.lt_of_mul_lt_mul_left hlt (Int.le_of_lt hw)
    have hmul : width * (i + 1) ≤ width * (u / width) :=
      Int.mul_le_mul_of_nonneg_left hq (Int.le_of_lt hw)
    rw [Int.mul_add, Int.mul_one] at hmul
    omega

/-- The buckets before that of a time. -/
theorem lt_truncate_iff (hw : 0 < width) (ht : t % width = 0) :
    t < truncate u width ↔ t + width ≤ u := by
  have h : truncate u width ≤ t ↔ u < t + width := truncate_le_iff hw ht
  omega

/-- A query starts past the bucket with the deletion, if this is not its start. -/
theorem keepSince_le_iff (hw : 0 < width) (ht : t % width = 0) :
    keepSince u deletedAt width ≤ t ↔ u ≤ t ∧ ∀ at' ∈ deletedAt, at' ≤ t := by
  unfold keepSince
  cases deletedAt with
  | none => simp
  | some at' =>
    have hiff : (if truncate at' width < at' then truncate at' width + width
        else truncate at' width) ≤ t ↔ at' ≤ t := by
      have hle : truncate at' width ≤ at' := truncate_le at' hw
      have hbefore : t - width < truncate at' width ↔ t - width + width ≤ at' :=
        lt_truncate_iff hw (by rw [Int.sub_emod_right, ht])
      have hfrom : truncate at' width ≤ t ↔ at' < t + width := truncate_le_iff hw ht
      have hself : at' = t → truncate at' width = at' := by
        rintro rfl
        unfold truncate
        omega
      split
      · omega
      · omega
    simp only [Option.mem_some_iff, forall_eq']
    rw [← hiff]
    split
    · omega
    · omega

end Days

section Lost

/-- The daily documents of the profile are of whole days, none before that of the start of
counting. -/
structure DailySince (profileId : String) (enabledAt : Option ℤ) (db : StatisticsDB) : Prop where
  whole : ∀ c ∈ tierCollectionNames .tier1Day, ∀ d ∈ db c, d.profileId = profileId →
    d.bucketStart % (24 * hour) = 0
  since : ∀ c ∈ tierCollectionNames .tier1Day, ∀ d ∈ db c, d.profileId = profileId →
    ∀ at' ∈ enabledAt,
    truncate at' (24 * hour) ≤ d.bucketStart

/-- A day of daily documents that the trim deletes, and that a read before the trim can still
count. -/
def Lost (profileId : String) (settings : ReadSettings) (retention : String) (now t : ℤ) : Prop :=
  ∃ (db : StatisticsDB) (replies : StatisticsColl → DeleteReply),
    DailySince profileId settings.enabledAt db ∧
    (trimProfileDailyStatistics replies profileId retention now db).err = false ∧
    ∃ c ∈ tierCollectionNames .tier1Day, ∃ d ∈ db c, d.bucketStart = t ∧
    Counted db now profileId settings d ∧
      d ∉ (trimProfileDailyStatistics replies profileId retention now db).db c

/-- A day that a read can count: counting had begun when it ended, the last deletion is not after
its start, and the retention reaches its end. -/
structure Readable (settings : ReadSettings) (now t : ℤ) : Prop where
  whole : t % (24 * hour) = 0
  begun : ∀ at' ∈ settings.enabledAt, at' < t + 24 * hour
  undeleted : ∀ at' ∈ settings.historyDeletedAt, at' ≤ t
  reached : now - retentionWindow settings.retention < t + 24 * hour

variable {replies : StatisticsColl → DeleteReply} {db : StatisticsDB} {profileId retention : String}
  {settings : ReadSettings} {now t : ℤ} {c : StatisticsColl} {d : Statistics}

theorem orDefault_cases (r : String) :
    orDefault r = "30d" ∨ orDefault r = "90d" ∨ orDefault r = "1y" := by
  unfold orDefault
  split
  · next h => exact h
  · exact .inl rfl

theorem retentionWindow_cases (r : String) : (orDefault r = "30d" ∧ retentionWindow r = 30 * day) ∨
    (orDefault r = "90d" ∧ retentionWindow r = 90 * day) ∨
      (orDefault r = "1y" ∧ retentionWindow r = 365 * day) := by
  unfold retentionWindow
  rcases orDefault_cases r with hr | hr | hr
  · exact .inl ⟨hr, by rw [hr]; rfl⟩
  · exact .inr (.inl ⟨hr, by rw [hr]; rfl⟩)
  · exact .inr (.inr ⟨hr, by rw [hr]; rfl⟩)

theorem longerDaily_daily (h : c ∈ longerDaily retention) : c ∈ tierCollectionNames .tier1Day := by
  unfold longerDaily at h
  rcases orDefault_cases retention with hr | hr | hr
  all_goals
    rw [hr] at h
    revert h
    cases c <;> decide

/-- A retention that is not the longest one leaves the longest collection. -/
theorem longerDaily_year (h : retentionWindow retention < retentionWindow settings.retention) :
    .coll1d1y ∈ longerDaily retention := by
  unfold longerDaily
  rcases retentionWindow_cases retention with ⟨hr, -⟩ | ⟨hr, -⟩ | ⟨-, hw⟩
  · rw [hr]
    decide
  · rw [hr]
    decide
  · exfalso
    unfold day at hw
    rcases retentionWindow_cases settings.retention with ⟨-, hs⟩ | ⟨-, hs⟩ | ⟨-, hs⟩
    all_goals
      unfold day at hs
      have hhour : 0 < hour := by decide
      omega

theorem mem_counted {spec : TimespanSpec} : d ∈ counted db now profileId settings spec ↔
    (∃ c ∈ tierCollectionNames spec.tier, d ∈ db c) ∧ d.profileId = profileId ∧
      keepSince
        (truncate (truncate now second - min spec.window
          (retentionWindow settings.retention)) spec.bucket)
        settings.historyDeletedAt spec.bucket ≤ d.bucketStart ∧
        d.bucketStart < truncate now second := by
  unfold counted computeWindow documents inRange
  simp only [List.mem_filter, List.mem_flatMap, decide_eq_true_eq]

/-- The specifications of the reads of days. -/
theorem spec_day {timespan : String} {spec : TimespanSpec}
    (h : newStatisticsTimespan timespan = some spec) (htier : spec.tier = .tier1Day) :
    spec.bucket = 24 * hour := by
  unfold newStatisticsTimespan at h
  split_ifs at h
  all_goals
    obtain rfl := Option.some.inj h
    first | rfl | cases htier

/-- **The daily documents that some read counts** are those that the read over a year counts. -/
theorem counted_day (hwhole : d.bucketStart % (24 * hour) = 0) :
    Counted db now profileId settings d ↔
    (∃ c ∈ tierCollectionNames .tier1Day, d ∈ db c) ∧ d.profileId = profileId ∧
      (∀ at' ∈ settings.historyDeletedAt, at' ≤ d.bucketStart) ∧
      now - retentionWindow settings.retention < d.bucketStart + 24 * hour ∧
      d.bucketStart < truncate now second := by
  have hday : (0 : ℤ) < 24 * hour := by decide
  have hle : truncate now second ≤ now := truncate_le now (by decide)
  -- a day ends at a second
  have hsec : retentionWindow settings.retention % second = 0 ∧
      (d.bucketStart + 24 * hour) % second = 0 := by
    refine ⟨?_, ?_⟩
    · rcases retentionWindow_cases settings.retention with ⟨-, hw⟩ | ⟨-, hw⟩ | ⟨-, hw⟩
      all_goals
        rw [hw]
        decide
    · unfold hour minute at hwhole ⊢
      unfold second
      omega
  have hreach : truncate now second - retentionWindow settings.retention <
    d.bucketStart + 24 * hour ↔
      now - retentionWindow settings.retention < d.bucketStart + 24 * hour := by
    have hmono :=
      truncate_mono (s := d.bucketStart + 24 * hour + retentionWindow settings.retention) (t := now)
      (show 0 < second by decide) (by rw [Int.add_emod, hsec.1, hsec.2]; rfl)
    omega
  constructor
  · rintro ⟨timespan, spec, hspec, htier, hd⟩
    obtain ⟨hmem, hprofile, hfrom, hto⟩ := mem_counted.1 hd
    rw [spec_day hspec htier, keepSince_le_iff hday hwhole, truncate_le_iff hday hwhole] at hfrom
    have hmin : min spec.window (retentionWindow settings.retention) ≤
        retentionWindow settings.retention := Int.min_le_right ..
    exact ⟨htier ▸ hmem, hprofile, hfrom.2, hreach.1 (by omega), hto⟩
  · rintro ⟨hmem, hprofile, hdeleted, hreached, hto⟩
    refine ⟨"LAST_YEAR", ⟨365 * 24 * hour, 24 * hour, .tier1Day⟩, rfl, rfl,
      mem_counted.2 ⟨hmem, hprofile, ?_, hto⟩⟩
    dsimp only
    rw [keepSince_le_iff hday hwhole, truncate_le_iff hday hwhole]
    have hmin : min (365 * 24 * hour) (retentionWindow settings.retention) =
        retentionWindow settings.retention := by
      refine Int.min_eq_right ?_
      rcases retentionWindow_cases settings.retention with ⟨-, hw⟩ | ⟨-, hw⟩ | ⟨-, hw⟩
      all_goals
        rw [hw]
        decide
    rw [hmin]
    exact ⟨hreach.2 hreached, hdeleted⟩

/-- **The trim loses** of the daily documents in the longer collections those of the days that it
deletes and that a read can count. -/
theorem trim_loses (hdb : DailySince profileId settings.enabledAt db)
    (herr : (trimProfileDailyStatistics replies profileId retention now db).err = false)
    (hc : c ∈ longerDaily retention)
    (hd : d ∈ db c) (hprofile : d.profileId = profileId) :
    (Counted db now profileId settings d ∧
      d ∉ (trimProfileDailyStatistics replies profileId retention now db).db c) ↔
      Readable settings now d.bucketStart ∧ d.bucketStart + 24 * hour ≤
      now - retentionWindow retention := by
  have hday : (0 : ℤ) < 24 * hour := by decide
  have hdaily := longerDaily_daily hc
  have hwhole := hdb.whole c hdaily d hd hprofile
  have hgone : d ∉ (trimProfileDailyStatistics replies profileId retention now db).db c ↔
      d.bucketStart + 24 * hour ≤ now - retentionWindow retention := by
    unfold trimProfileDailyStatistics at herr ⊢
    rw [deleteEach_mem herr hc, List.mem_filter, ← lt_truncate_iff hday hwhole]
    unfold trimFilter trimSince
    simp only [hd, hprofile, true_and, decide_true, Bool.true_and, Bool.not_eq_true',
      decide_eq_false_iff_not, not_not]
  rw [hgone, counted_day hwhole]
  constructor
  · rintro ⟨⟨-, -, hdeleted, hreached, -⟩, hold⟩
    refine ⟨⟨hwhole, fun at' hat => ?_, hdeleted, hreached⟩, hold⟩
    exact (truncate_le_iff hday hwhole).1 (hdb.since c hdaily d hd hprofile at' hat)
  · rintro ⟨⟨-, -, hdeleted, hreached⟩, hold⟩
    refine ⟨⟨⟨c, hdaily, hd⟩, hprofile, hdeleted, hreached, ?_⟩, hold⟩
    -- the day has ended long ago
    have hwindow : 0 ≤ retentionWindow retention := by
      rcases retentionWindow_cases retention with ⟨-, hw⟩ | ⟨-, hw⟩ | ⟨-, hw⟩
      all_goals
        rw [hw]
        decide
    have hlt : now < truncate now second + second := by
      have hmod := Int.emod_lt_of_pos now (show 0 < second by decide)
      unfold truncate
      omega
    have hsecond : second < 24 * hour := by decide
    omega

/-- **The days that can be lost**, for a retention that is lower. -/
theorem lost_iff (hlower : retentionWindow retention < retentionWindow settings.retention) :
    Lost profileId settings retention now t ↔
      Readable settings now t ∧ t + 24 * hour ≤ now - retentionWindow retention := by
  constructor
  · rintro ⟨db, replies, hdb, herr, c, -, d, hd, rfl, hcounted, hgone⟩
    have hlonger : c ∈ longerDaily retention := by
      rcases @deleteEach_cases _ _ _ replies (trimFilter profileId (trimSince retention now))
        (longerDaily retention) db 0 c
        with hsame | ⟨hmem, -⟩
      · unfold trimProfileDailyStatistics at hgone
        rw [hsame] at hgone
        exact absurd hd hgone
      · exact hmem
    have hprofile : d.profileId = profileId := by
      obtain ⟨_, _, -, -, hin⟩ := hcounted
      exact (mem_counted.1 hin).2.1
    exact (trim_loses hdb herr hlonger hd hprofile).1 ⟨hcounted, hgone⟩
  · rintro ⟨hkept, hold⟩
    -- one document of the day, in the longest collection
    let d : Statistics :=
      { bucketStart := t, profileId := profileId, deviceId := "", tier := .tier1Day
        retention := "1y" }
    let db : StatisticsDB := fun c => if c = .coll1d1y then [d] else []
    have hself : ∀ c, ∀ d' ∈ db c, d' = d := by
      intro c d' hd'
      dsimp only [db] at hd'
      split at hd'
      · exact List.mem_singleton.1 hd'
      · cases hd'
    have hdb : DailySince profileId settings.enabledAt db := by
      refine ⟨fun c _ d' hd' _ => ?_, fun c _ d' hd' _ at' hat => ?_⟩
      · rw [hself c d' hd']
        exact hkept.whole
      · rw [hself c d' hd']
        exact (truncate_le_iff (by decide) hkept.whole).2 (hkept.begun at' hat)
    have hd : d ∈ db .coll1d1y := List.mem_singleton_self d
    have herr : (trimProfileDailyStatistics (fun _ => .ok) profileId retention now db).err =
      false :=
      deleteEach_ok fun _ _ => rfl
    have hlonger := longerDaily_year hlower
    obtain ⟨hcounted, hgone⟩ := (trim_loses hdb herr hlonger hd rfl).2 ⟨hkept, hold⟩
    exact ⟨db, fun _ => .ok, hdb, herr, .coll1d1y, longerDaily_daily hlonger, d, hd, rfl,
      hcounted, hgone⟩

end Lost
end ModDNS.Statistics
