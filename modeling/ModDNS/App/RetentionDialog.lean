import ModDNS.App.DataCollection
import ModDNS.Statistics.Trim

/-!
# The days that a lower retention deletes

The browser announces them from its own floors, in milliseconds, of three timestamps; the server
deletes and counts by its own. Both agree on every day but one: a deletion of the history at a
midnight.

* `lostDays_held`: what the browser announces.
* `announces_iff`: it announces what the server deletes, unless the history was deleted at the start
  of a day that is lost.
-/

namespace ModDNS.App.DataCollection

open Statistics

section Times

/-- The time of an instant of the server, in milliseconds since 1970. -/
def toMs (t : ℤ) : ℤ := (t - 719162 * day) / 1000000

/-- The instant of the server. -/
def ofMs (ms : ℤ) : ℤ := ms * 1000000 + 719162 * day

/-- The statistics settings as the server gives them to the browser. -/
structure Served (b : Browser) (s : ReadSettings) (m : ModelStatistics) : Prop where
  enabled : m.enabled = some s.enabled
  enabledAt : parseTime b m.enabledAt = s.enabledAt.map toMs
  historyDeletedAt : parseTime b m.historyDeletedAt = s.historyDeletedAt.map toMs
  retention : m.retention = some s.retention ∨ m.retention = some (orDefault s.retention) ∨
    m.retention = none ∧ s.retention = ""

variable {b : Browser} {s : ReadSettings} {m : ModelStatistics} {t u ms : ℤ}

/-- A day of the server starts and ends with milliseconds. -/
theorem day_ms (ht : t % (24 * hour) = 0) :
    ∃ k, t = 24 * hour * k ∧ toMs t = dayMs * (k - 719162) := by
  obtain ⟨k, rfl⟩ := Int.dvd_of_emod_eq_zero ht
  refine ⟨k, rfl, ?_⟩
  unfold toMs day hour minute dayMs
  omega

theorem floorDay_le_iff (ht : t % (24 * hour) = 0) :
    floorDay (toMs u) ≤ toMs t ↔ u < t + 24 * hour := by
  obtain ⟨k, hk, hms⟩ := day_ms ht
  rw [hms, hk]
  unfold floorDay toMs day hour minute dayMs
  omega

/-- The days of a retention, read by the server. -/
theorem retentionWindow_value (r : StatsRetention) :
    retentionWindow r.option.value = statsDays r * day := by
  cases r <;> decide

/-- An unknown retention is read alike by both. -/
theorem normalize_some (r : String) :
    (normalizeStatsRetention (some r)).option.value = orDefault r := by
  by_cases hr : r = "30d" ∨ r = "90d" ∨ r = "1y"
  · rcases hr with rfl | rfl | rfl
    · decide
    · decide
    · decide
  · unfold orDefault
    rw [if_neg hr]
    have hnone : ([StatsRetention.days30, .days90, .year].find? fun o => some o.option.value =
        some r) = none := by
      refine List.find?_eq_none.2 fun o _ heq => hr ?_
      rw [decide_eq_true_eq, Option.some.injEq] at heq
      rw [← heq]
      cases o <;> decide
    unfold normalizeStatsRetention
    rw [hnone]
    rfl

theorem retentionWindow_orDefault (r : String) :
    retentionWindow (orDefault r) = retentionWindow r := by
  rcases retentionWindow_cases r with ⟨hr, hw⟩ | ⟨hr, hw⟩ | ⟨hr, hw⟩
  all_goals
    rw [hr, hw]
    decide

/-- **Both read one retention.** -/
theorem Served.window (h : Served b s m) :
    retentionWindow s.retention = statsDays (normalizeStatsRetention m.retention) * day := by
  rw [← retentionWindow_value]
  rcases h.retention with hm | hm | ⟨hm, hs⟩
  · rw [hm, normalize_some, retentionWindow_orDefault]
  · rw [hm, normalize_some, retentionWindow_orDefault, retentionWindow_orDefault]
  · rw [hm, hs]
    decide

end Times

section Announced

/-- The days that are announced: so many, from the first one on. -/
def LostDays.days (l : LostDays) : List ℤ := (List.range l.count.toNat).map fun (i : ℕ) =>
    ofMs (l.first + i * dayMs)

variable {b : Browser} {s : ReadSettings} {profile : ModelProfile} {m : ModelStatistics}
  {h : StatsHeld} {l : LostDays} {now t keepDays : ℤ}

/-- The number of the days, and the last of them. -/
theorem lostDays_last (hl : l ∈ lostDays h keepDays) (hfirst : h.firstDayMs % dayMs = 0) :
    1 ≤ l.count ∧ l.last = l.first + (l.count - 1) * dayMs := by
  unfold lostDays at hl
  dsimp only at hl
  split at hl
  · cases hl
  · next hn =>
    obtain rfl := Option.mem_some_iff.1 hl
    dsimp only
    unfold roundDiv floorDay dayMs at hn ⊢
    unfold dayMs at hfirst
    omega

/-- They are counted from the first to the last one. -/
theorem days_ends (hcount : 1 ≤ l.count) (hlast : l.last = l.first + (l.count - 1) * dayMs) :
    l.days.length = l.count ∧ l.days.head? = some (ofMs l.first) ∧
      l.days.getLast? = some (ofMs l.last) := by
  obtain ⟨n, hn⟩ : ∃ n : ℕ, l.count = n + 1 := ⟨(l.count - 1).toNat, by omega⟩
  have hnat : l.count.toNat = n + 1 := by omega
  unfold LostDays.days
  refine ⟨?_, ?_, ?_⟩
  · rw [List.length_map, List.length_range]
    omega
  · rw [hnat, List.range_succ_eq_map, List.map_cons, List.head?_cons]
    simp
  · rw [hnat, List.range_succ, List.map_append, List.map_singleton, List.getLast?_concat, hlast, hn]
    simp

/-- The announced days are those from the first kept one to the new retention. -/
theorem mem_days (hfirst : h.firstDayMs % dayMs = 0) : (∃ l ∈ lostDays h keepDays, t ∈ l.days) ↔
    t % (24 * hour) = 0 ∧ h.firstDayMs ≤ toMs t ∧ toMs t < floorDay
      (h.nowMs - keepDays * dayMs) := by
  obtain ⟨i, hi⟩ := Int.dvd_of_emod_eq_zero hfirst
  constructor
  · rintro ⟨l, hl, ht⟩
    obtain ⟨n, hn, rfl⟩ := List.mem_map.1 ht
    rw [List.mem_range] at hn
    unfold lostDays at hl
    dsimp only at hl
    split at hl
    · cases hl
    · obtain rfl := Option.mem_some_iff.1 hl
      dsimp only at hn ⊢
      rw [hi] at hn ⊢
      unfold roundDiv floorDay dayMs at hn
      unfold floorDay ofMs toMs day hour minute dayMs
      omega
  · rintro ⟨hwhole, hfrom, hto⟩
    obtain ⟨k, hk, hms⟩ := day_ms hwhole
    rw [hms, hi] at hfrom
    rw [hms] at hto
    have hn : ¬ roundDiv (floorDay (h.nowMs - keepDays * dayMs) - h.firstDayMs) dayMs < 1 := by
      rw [hi]
      unfold roundDiv floorDay dayMs at *
      omega
    refine ⟨_, if_neg hn, List.mem_map.2 ⟨(k - 719162 - i).toNat, List.mem_range.2 ?_, ?_⟩⟩
    · dsimp only
      rw [hi]
      unfold roundDiv floorDay dayMs at *
      omega
    · dsimp only
      rw [hi, hk]
      unfold ofMs day hour minute dayMs at *
      omega

theorem maxTime_le {o : Option ℤ} {u x : ℤ} : maxTime o u ≤ x ↔ (∀ t ∈ o, t ≤ x) ∧ u ≤ x := by
  unfold maxTime
  cases o with
  | none => simp
  | some t => simp [and_comm]

theorem maxTime_whole {o : Option ℤ} {u : ℤ} (ho : ∀ t ∈ o, t % dayMs = 0) (hu : u % dayMs = 0) :
    maxTime o u % dayMs = 0 := by
  unfold maxTime
  cases o with
  | none => exact hu
  | some t =>
    rcases max_choice u t with heq | heq
    · exact (congrArg (· % dayMs) heq).trans hu
    · exact (congrArg (· % dayMs) heq).trans (ho t rfl)

theorem floorDay_whole (ms : ℤ) : floorDay ms % dayMs = 0 := Int.mul_emod_left ..

/-- What the browser holds of settings with a start of counting. -/
structure Holds (s : ReadSettings) (now : ℤ) (h : StatsHeld) : Prop where
  clock : h.nowMs = toMs now
  whole : h.firstDayMs % dayMs = 0
  first : ∀ t, t % (24 * hour) = 0 →
    (h.firstDayMs ≤ toMs t ↔ (∀ at' ∈ s.enabledAt, at' < t + 24 * hour) ∧
    (∀ at' ∈ s.historyDeletedAt, at' < t) ∧ now - retentionWindow s.retention < t + 24 * hour)

theorem statsHeld_none (hm : profile.statistics = some m) (hserved : Served b s m)
    (hon : s.enabled = true) :
    statsHeld b profile now = none ↔ s.enabledAt = none ∧ s.historyDeletedAt = none := by
  unfold statsHeld
  rw [hm]
  dsimp only
  rw [hserved.enabled, hserved.enabledAt, hserved.historyDeletedAt, if_neg (by simp [hon])]
  simp

/-- The deletion of the day before keeps the day. -/
theorem nextDay_le_iff {u : ℤ} (ht : t % (24 * hour) = 0) :
    floorDay (toMs u) + dayMs ≤ toMs t ↔ u < t := by
  obtain ⟨k, hk, hms⟩ := day_ms ht
  rw [hms, hk]
  unfold floorDay toMs day hour minute dayMs
  omega

/-- The window of the browser starts at that of the server. -/
theorem limit_eq {n : ℤ} : toMs now - n * dayMs = toMs (now - n * day) := by
  unfold toMs day hour minute dayMs
  omega

/-- **What the browser holds**, of the settings that it was given. -/
theorem statsHeld_some (hm : profile.statistics = some m) (hserved : Served b s m)
    (hh : statsHeld b profile (toMs now) = some h) :
    Holds s now h := by
  unfold statsHeld at hh
  rw [hm] at hh
  dsimp only at hh
  split at hh
  · cases hh
  · split at hh
    · cases hh
    · obtain rfl := Option.some.inj hh
      rw [hserved.enabledAt, hserved.historyDeletedAt, limit_eq, ← hserved.window]
      refine ⟨rfl, ?_, fun t ht => ?_⟩
      · refine maxTime_whole ?_ (maxTime_whole ?_ (floorDay_whole _))
        · simp only [Option.mem_def, Option.map_eq_some_iff]
          rintro _ ⟨u, -, rfl⟩
          exact floorDay_whole u
        · simp only [Option.mem_def, Option.map_eq_some_iff]
          rintro _ ⟨u, -, rfl⟩
          rw [Int.add_emod_right]
          exact floorDay_whole u
      · dsimp only
        rw [maxTime_le, maxTime_le, floorDay_le_iff ht]
        simp only [Option.mem_def, Option.map_eq_some_iff, exists_exists_and_eq_and,
          forall_exists_index, and_imp,
          forall_apply_eq_imp_iff₂, floorDay_le_iff ht, nextDay_le_iff ht]

/-- The history was deleted at the start of a day that the lower retention loses: counting had begun
when the day ended, the retention reaches its end, and the lower one does not. -/
def DeletedAtStart (s : ReadSettings) (retention : String) (now : ℤ) : Prop :=
  ∃ at' ∈ s.historyDeletedAt, at' % (24 * hour) = 0 ∧
    (∀ start ∈ s.enabledAt, start < at' + 24 * hour) ∧
    now - retentionWindow s.retention < at' + 24 * hour ∧
    at' + 24 * hour ≤ now - retentionWindow retention

/-- What the browser announces is what is lost. -/
def Exact (profileId : String) (s : ReadSettings) (retention : String) (now : ℤ)
    (lost : Option LostDays) : Prop :=
  ∀ t, Lost profileId s retention now t ↔ ∃ l ∈ lost, t ∈ l.days

/-- **The announced days are those that are lost**, if and only if the history was not deleted at
the start of one of them. -/
theorem exact_iff {profileId : String} {r : StatsRetention} (hholds : Holds s now h)
    (hlower : retentionWindow r.option.value < retentionWindow s.retention) :
    Exact profileId s r.option.value now (lostDays h (statsDays r)) ↔
    ¬ DeletedAtStart s r.option.value now := by
  have hdays : ∀ t, (∃ l ∈ lostDays h (statsDays r), t ∈ l.days) ↔ t % (24 * hour) = 0 ∧
      (∀ at' ∈ s.enabledAt, at' < t + 24 * hour) ∧ (∀ at' ∈ s.historyDeletedAt, at' < t) ∧
      now - retentionWindow s.retention < t + 24 * hour ∧
      t + 24 * hour ≤ now - retentionWindow r.option.value := by
    intro t
    rw [mem_days hholds.whole, hholds.clock, limit_eq, ← retentionWindow_value]
    constructor
    · rintro ⟨hwhole, hfirst, hlast⟩
      obtain ⟨hbegun, hdeleted, hreached⟩ := (hholds.first t hwhole).1 hfirst
      refine ⟨hwhole, hbegun, hdeleted, hreached, ?_⟩
      by_contra hkept
      have hle := (floorDay_le_iff (u := now - retentionWindow r.option.value) hwhole).2 (by omega)
      omega
    · rintro ⟨hwhole, hbegun, hdeleted, hreached, hold⟩
      refine ⟨hwhole, (hholds.first t hwhole).2 ⟨hbegun, hdeleted, hreached⟩, ?_⟩
      by_contra hkept
      have hlt := (floorDay_le_iff (u := now - retentionWindow r.option.value) hwhole).1 (by omega)
      omega
  unfold Exact
  simp only [hdays, lost_iff hlower]
  constructor
  · rintro hexact ⟨at', hat, hwhole, hbegun, hreached, hold⟩
    -- the server keeps the day from its start on, and the browser does not
    have hlost : Readable s now at' ∧ at' + 24 * hour ≤ now - retentionWindow r.option.value := by
      refine ⟨⟨hwhole, hbegun, fun u hu => ?_, hreached⟩, hold⟩
      rw [Option.mem_unique hu hat]
    obtain ⟨-, -, hdeleted, -, -⟩ := (hexact at').1 hlost
    exact absurd (hdeleted at' hat) (lt_irrefl at')
  · intro hnot t
    constructor
    · rintro ⟨⟨hwhole, hbegun, hundeleted, hreached⟩, hold⟩
      refine ⟨hwhole, hbegun, fun at' hat => ?_, hreached, hold⟩
      refine lt_of_le_of_ne (hundeleted at' hat) ?_
      rintro rfl
      exact hnot ⟨at', hat, hwhole, hbegun, hreached, hold⟩
    · rintro ⟨hwhole, hbegun, hdeleted, hreached, hold⟩
      exact ⟨⟨hwhole, hbegun, fun at' hat => Int.le_of_lt (hdeleted at' hat), hreached⟩, hold⟩

end Announced

section Lowering

variable {b : Browser} {s : ReadSettings} {profile : ModelProfile} {m : ModelStatistics}
  {pending : DataCollectionState} {profileId : String} {now : ℤ}

theorem window_lower (hm : profile.statistics = some m) (hserved : Served b s m)
    (hlower : retentionChange (fromProfile profile) pending = some .lower) :
    retentionWindow pending.statsRetention.option.value < retentionWindow s.retention := by
  have hdays : statsDays pending.statsRetention < statsDays
      (normalizeStatsRetention m.retention) := by
    unfold retentionChange fromProfile at hlower
    rw [hm] at hlower
    dsimp only [Option.bind_some] at hlower
    split at hlower
    · cases hlower
    · next hdiff =>
      split at hlower
      · cases hlower
      · next hle =>
        refine lt_of_le_of_ne (Int.not_lt.1 hle) fun heq => hdiff ?_
        have hsame : normalizeStatsRetention m.retention = pending.statsRetention := by
          revert heq
          cases normalizeStatsRetention m.retention <;> cases pending.statsRetention <;> decide
        simp [hsame]
  rw [retentionWindow_value, hserved.window]
  unfold day hour minute
  omega

/-- **The dialog announces what the server deletes**: a save that lowers the retention says how many
days are lost, from the first to the last one, or that no count is older; and these are the days of
daily documents that the trim deletes and that a read before it could count, if and only if the
history was not deleted at the start of one of them. -/
theorem announces_iff (hm : profile.statistics = some m) (hserved : Served b s m)
    (hon : s.enabled = true) (hlower : retentionChange (fromProfile profile) pending =
      some .lower) :
    let held := statsHeld b profile (toMs now)
    let lost := held.bind fun h => lostDays h (statsDays pending.statsRetention)
    (∃ t, transitionFor b (fromProfile profile) pending held = some t ∧
      t.lost = lost.map (LostDays.sentence b) ∧
      t.nothingOlder = (held.isSome && lost.isNone) ∧
      (t.dialog.isSome ↔ t.nothingOlder = false ∨ DeletesLogs (fromProfile profile) pending)) ∧
    (held = none ↔ s.enabledAt = none ∧ s.historyDeletedAt = none) ∧
    (∀ l ∈ lost, l.days.length = l.count ∧ l.days.head? = some (ofMs l.first) ∧
      l.days.getLast? = some (ofMs l.last)) ∧
    ((held.isSome → Exact profileId s pending.statsRetention.option.value now lost) ↔
      ¬ DeletedAtStart s pending.statsRetention.option.value now) := by
  intro held lost
  have hsentence : (held.bind fun h => lostSentence b h (statsDays pending.statsRetention)) =
    lost.map (LostDays.sentence b) :=
    (Option.map_bind ..).symm
  obtain ⟨t, ht, htells, hasks⟩ := @transitionFor_lower b _ _ held hlower
  rw [hsentence] at htells
  have hnothing : t.nothingOlder = (held.isSome && lost.isNone) := by
    rw [htells.nothingOlder, Option.isNone_map]
  refine ⟨⟨t, ht, htells.lost, hnothing, hasks⟩, statsHeld_none hm hserved hon, ?_⟩
  -- the first day held decides what can be lost
  cases hheld : statsHeld b profile (toMs now) with
  | none =>
    have hnone := ((statsHeld_none hm hserved hon).1 hheld).2
    refine ⟨fun l hl => ?_, fun _ => ?_, fun _ hsome => ?_⟩
    · dsimp only [lost, held] at hl
      rw [hheld] at hl
      cases hl
    · rintro ⟨at', hat, -⟩
      rw [hnone] at hat
      cases hat
    · dsimp only [held] at hsome
      rw [hheld] at hsome
      cases hsome
  | some h =>
    have hholds := statsHeld_some hm hserved hheld
    have hlost : lost = lostDays h (statsDays pending.statsRetention) := by
      dsimp only [lost, held]
      rw [hheld, Option.bind_some]
    have hsome : held.isSome := by
      dsimp only [held]
      rw [hheld, Option.isSome_some]
    rw [hlost]
    refine ⟨fun l hl => ?_, ?_⟩
    · obtain ⟨hcount, hlast⟩ := lostDays_last hl hholds.whole
      exact days_ends hcount hlast
    · rw [← exact_iff hholds (window_lower hm hserved hlower)]
      exact ⟨fun hexact => hexact hsome, fun hexact _ => hexact⟩

/-- A browser in English. -/
def summerBrowser : Browser where
  parse v :=
    if v = "2026-06-03T09:30:00Z" then some 1780479000000
    else if v = "2026-09-11T00:00:00Z" then some 1789084800000
    else none
  getFullYear _ := 2026
  toDateString ms := if ms = 1780479000000 then "Wed Jun 03 2026" else "Mon Oct 12 2026"
  utcDate ms := if ms = 1780444800000 then "Jun 3" else "Sep 11"
  formatDate _ ms := if ms = 1780479000000 then "Jun 3" else "Oct 12"
  formatTime _ ms := if ms = 1780479000000 then "Jun 3, 09:30" else "12:00"

/-- Statistics since 3 June, at 12:00 of 12 October. -/
def summerNow : ℤ := ofMs 1791806400000

def summerSettings : ReadSettings := ⟨true, some (ofMs 1780479000000), none, "1y"⟩

def summerProfile : ModelProfile :=
  ⟨none, some ⟨some true, some "2026-06-03T09:30:00Z", none, some "1y"⟩⟩

def keepMonth : DataCollectionState := { fromProfile summerProfile with statsRetention := .days30 }

theorem announces_iff_summer :
    (∃ t, transitionFor summerBrowser (fromProfile summerProfile) keepMonth
        (statsHeld summerBrowser summerProfile (toMs summerNow)) = some t ∧
      t.lost = some "That is 101 days of counts, from Jun 3 to Sep 11.") ∧
    Exact "p" summerSettings "30d" summerNow (some ⟨101, 1780444800000, 1789084800000⟩) := by
  have hserved : Served summerBrowser summerSettings
    ⟨some true, some "2026-06-03T09:30:00Z", none, some "1y"⟩ :=
    ⟨rfl, by decide, rfl, .inl rfl⟩
  obtain ⟨⟨t, ht, hlost, -⟩, -, -, hexact⟩ :=
    @announces_iff summerBrowser summerSettings summerProfile _ keepMonth "p" summerNow rfl hserved
      rfl (by decide)
  refine ⟨⟨t, ht, hlost.trans (by decide)⟩, hexact.2 ?_ (by decide)⟩
  rintro ⟨at', hat, -⟩
  cases hat

/-- The history was deleted on 11 September, at 00:00. -/
def midnightSettings : ReadSettings :=
  ⟨true, some (ofMs 1780479000000), some (ofMs 1789084800000), "1y"⟩

def midnightProfile : ModelProfile :=
  ⟨none, some ⟨some true, some "2026-06-03T09:30:00Z", some "2026-09-11T00:00:00Z", some "1y"⟩⟩

/-- No count is older, says the save, and asks nothing; the trim deletes 11 September. -/
theorem midnight_unannounced :
    (∃ t, transitionFor summerBrowser (fromProfile midnightProfile) keepMonth
        (statsHeld summerBrowser midnightProfile (toMs summerNow)) = some t ∧
      t.lost = none ∧ t.nothingOlder = true ∧ t.dialog = none) ∧
    Lost "p" midnightSettings "30d" summerNow (ofMs 1789084800000) := by
  refine ⟨⟨_, rfl, by decide, by decide, by decide⟩,
    (lost_iff (by decide)).2 ⟨⟨by decide, ?_, ?_, by decide⟩, by decide⟩⟩
  · rintro at' hat
    obtain rfl := Option.some.inj hat
    decide
  · rintro at' hat
    obtain rfl := Option.some.inj hat
    decide

end Lowering

end ModDNS.App.DataCollection
