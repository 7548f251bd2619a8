import ModDNS.Mongo.DeleteMany
import ModDNS.QueryLogs.Union

/-!
# The trim of the query logs

A profile whose retention is lowered has rows in collections of longer retentions. `TrimQueryLogs`
deletes those that are older than the retention; its own collection and the shorter ones are left to
the expiry of Mongo.

* `trim_longer`: what the trim deletes.
* `shows_iff`: the rows that some read returns.
* `trim_hidden`: the trim deletes what the retention hides, of the longer collections.
-/

namespace ModDNS.QueryLogs

open Data Go Libs.FilterReasons Mongo Mongo.Pipeline

/-- `Retentions`, the shortest first. -/
def retentions : List String := ["1h", "6h", "1d", "1w", "1m"]

/-- The retention of a collection. -/
def Collection.retention : Collection → String
  | .oneHour => "1h"
  | .sixHours => "6h"
  | .oneDay => "1d"
  | .oneWeek => "1w"
  | .oneMonth => "1m"

/-- `getCollObject`. -/
def getCollObject (retention : String) : Collection :=
  (queryLogsCollections retention).getD .oneHour

section Code

variable (replies : Collection → DeleteReply) (retention profileId : String) (now : ℤ)

/-- The filter of `TrimQueryLogs`. -/
def trimFilter (row : QueryLog) : Bool :=
  row.profileId = profileId && row.timestamp < now - window retention

/-- The collections of the longer retentions. -/
def longerCollections : List Collection :=
  (retentions.filter fun rt => window retention < window rt).map getCollObject

/-- `TrimQueryLogs`. -/
def trimQueryLogs (db : Database) : Deleted Collection QueryLog :=
  deleteEach replies (trimFilter retention profileId now) (longerCollections retention) db 0

end Code

section Trim

variable {replies : Collection → DeleteReply} {retention profileId : String} {now : ℤ}
  {db : Database} {c : Collection}

theorem mem_longerCollections :
    c ∈ longerCollections retention ↔ window retention < window c.retention := by
  unfold longerCollections
  rw [List.mem_map]
  constructor
  · rintro ⟨rt, hrt, rfl⟩
    obtain ⟨hmem, hlonger⟩ := List.mem_filter.1 hrt
    have hself : (getCollObject rt).retention = rt := by
      unfold retentions at hmem
      simp only [List.mem_cons, List.not_mem_nil, or_false] at hmem
      rcases hmem with rfl | rfl | rfl | rfl | rfl <;> rfl
    rw [hself]
    simpa using hlonger
  · intro hlonger
    refine ⟨c.retention, List.mem_filter.2 ⟨?_, by simpa using hlonger⟩, ?_⟩
    · cases c <;> decide
    · cases c <;> decide

/-- **What the trim deletes**, of the longer collections only. -/
theorem trim_cases (c : Collection) :
    (trimQueryLogs replies retention profileId now db).db c = db c ∨
    (window retention < window c.retention ∧
      (trimQueryLogs replies retention profileId now db).db c =
      (db c).filter fun row => !trimFilter retention profileId now row) :=
  (deleteEach_cases c).imp_right fun ⟨hmem, hcut⟩ => ⟨mem_longerCollections.1 hmem, hcut⟩

theorem trim_longer (herr : (trimQueryLogs replies retention profileId now db).err = false)
    (hlonger : window retention < window c.retention) :
    (trimQueryLogs replies retention profileId now db).db c =
      (db c).filter fun row => !trimFilter retention profileId now row :=
  deleteEach_mem herr (mem_longerCollections.2 hlonger)

/-- A row that is gone was one of the profile, older than the retention, in a longer collection. -/
theorem trim_deleted {row : QueryLog} (hrow : row ∈ db c)
    (hgone : row ∉ (trimQueryLogs replies retention profileId now db).db c) :
    window retention < window c.retention ∧ row.profileId = profileId ∧
    row.timestamp < now - window retention := by
  rcases @trim_cases replies retention profileId now db c with hsame | ⟨hlonger, hcut⟩
  · rw [hsame] at hgone
    exact absurd hrow hgone
  · refine ⟨hlonger, ?_⟩
    rw [hcut, List.mem_filter] at hgone
    by_contra hkept
    refine hgone ⟨hrow, ?_⟩
    unfold trimFilter
    simpa using not_and_or.1 hkept

end Trim

section Visible

variable {matchesSearch : String → String → Bool} {replies : Collection → DeleteReply}
  {retention old profileId : String} {now t : ℤ} {db : Database} {row : QueryLog}
  {timespanHours : ℤ}

/-- Some read of the profile returns the row, with this retention and timespan. -/
def Shows (matchesSearch : String → String → Bool) (db : Database) (now : ℤ)
    (profileId retention : String) (timespanHours : ℤ) (row : QueryLog) : Prop :=
  ∃ (q : LogsQuery) (page pageSize : ℤ), q.profileId = profileId ∧ q.retention = retention ∧
  q.timespan = timespanHours ∧
    ∃ rows ∈ getQueryLogs matchesSearch db now q page pageSize, row ∈ rows

/-- A page has rows that match only. -/
theorem mem_logsOf {q : LogsQuery} {page pageSize : ℤ} {rows o : List QueryLog}
    (ho : o ∈ logsOf matchesSearch rows now q page pageSize) (hrow : row ∈ o) :
    row ∈ rows.filter (matchFilter matchesSearch q (readFrom now q.retention q.timespan)) := by
  unfold logsOf at ho
  dsimp only at ho
  rw [filter_andThen] at ho
  split at ho
  · obtain ⟨s, hs, rfl⟩ := mem_page.1 ho
    exact hs.1.mem_iff.1 (List.mem_of_mem_drop (List.mem_of_mem_take hrow))
  · exact ho.1.mem_iff.1 hrow

/-- **The rows that some read returns** are those in its window, wherever they are. -/
theorem shows_iff : Shows matchesSearch db now profileId retention timespanHours row ↔
    row ∈ db.rows ∧ inRead profileId (readFrom now retention timespanHours) row = true := by
  constructor
  · rintro ⟨q, page, pageSize, rfl, rfl, rfl, o, ho, hrow⟩
    rw [getQueryLogs_eq] at ho
    obtain ⟨hmem, hmatch⟩ := List.mem_filter.1 (mem_logsOf ho hrow)
    exact ⟨hmem, matchFilter_inRead hmatch⟩
  · rintro ⟨hmem, hin⟩
    -- the read of all rows, in one page
    obtain ⟨s, hs⟩ := exists_sorts (buildSortSpec "") (db.rows.filter
      (matchFilter matchesSearch ⟨profileId, retention, queryLogStatusAll,
        timespanHours, "", "", ""⟩
        (readFrom now retention timespanHours)))
    refine ⟨⟨profileId, retention, queryLogStatusAll, timespanHours, "", "", ""⟩, 0, 0, rfl, rfl,
      rfl, s, ?_, ?_⟩
    · rw [getQueryLogs_eq]
      unfold logsOf
      dsimp only
      rw [filter_andThen, if_neg (by decide)]
      exact hs
    · refine hs.1.mem_iff.2 (List.mem_filter.2 ⟨hmem, ?_⟩)
      unfold matchFilter
      simpa using hin

theorem le_readFrom : now - window retention ≤ readFrom now retention timespanHours := by
  unfold readFrom
  dsimp only
  split
  · split <;> omega
  · exact Int.le_refl _

theorem readFrom_whole : readFrom now retention 0 = now - window retention := by
  unfold readFrom
  exact if_neg (by decide)

theorem inRead_iff {since : ℤ} :
    inRead profileId since row = true ↔ row.profileId = profileId ∧ since ≤ row.timestamp := by
  unfold inRead
  rw [Bool.and_eq_true, decide_eq_true_iff, decide_eq_true_iff]

/-- A row that is in the window of the old retention is hidden by the new one if it is older than
that, over every timespan. -/
theorem hidden_iff (hin : inRead profileId (readFrom now old timespanHours) row = true) :
    ¬ inRead profileId (readFrom now retention timespanHours) row = true ↔
      row.timestamp < now - window retention := by
  rw [inRead_iff] at hin ⊢
  obtain ⟨hprofile, hsince⟩ := hin
  have hold : timespanHours > 0 → now - timespanHours * hour ≤ row.timestamp := by
    intro hpos
    refine Int.le_trans ?_ hsince
    unfold readFrom
    dsimp only
    rw [if_pos hpos]
    split <;> omega
  constructor
  · intro hhidden
    by_contra hnew
    refine hhidden ⟨hprofile, ?_⟩
    unfold readFrom
    dsimp only
    split
    · next hpos =>
      have hspan := hold hpos
      split <;> omega
    · omega
  · rintro hlate ⟨-, hle⟩
    have hfrom : now - window retention ≤ readFrom now retention timespanHours := le_readFrom
    omega

end Visible

section Reads

variable {replies : Collection → DeleteReply} {retention profileId : String} {t₁ t₂ : ℤ}
  {db : Database}

/-- **The trim follows the retention.** For a trim at `t₁` and a read at `t₂`, then or later, with
the same retention: no row that the trim deletes is one that the read returns, over any timespan and
from any state of the collections. If the trim ends without an error, then of the collections longer
than the retention it deletes all rows of the profile that no read from `t₁` on returns. And of the
rows in these collections that a read with another retention returned at `t₁`, it deletes those that
the retention hides over the same timespan, and no others. The collection of the retention and the
shorter ones stay as they are, also when the trim fails. -/
theorem trim_hidden (matchesSearch : String → String → Bool) (hle : t₁ ≤ t₂) :
    let trimmed := trimQueryLogs replies retention profileId t₁ db
    (∀ c, ∀ row ∈ db c, row ∉ trimmed.db c →
      ∀ (db' : Database) (profileId' : String) (timespanHours : ℤ),
      ¬ Shows matchesSearch db' t₂ profileId' retention timespanHours row) ∧
    (trimmed.err = false → ∀ c, window retention < window c.retention →
      ∀ row ∈ db c, row.profileId = profileId →
      ((∀ t, t₁ ≤ t → ∀ timespanHours,
        ¬ Shows matchesSearch db t profileId retention timespanHours row) → row ∉ trimmed.db c) ∧
      ∀ old timespanHours, Shows matchesSearch db t₁ profileId old timespanHours row →
        (row ∉ trimmed.db c ↔ ¬ Shows matchesSearch db t₁ profileId retention timespanHours row)) ∧
    ∀ c, window c.retention ≤ window retention → trimmed.db c = db c := by
  intro trimmed
  refine ⟨fun c row hrow hgone db' profileId' timespanHours hshown => ?_,
    fun herr c hlonger row hrow hprofile => ?_, fun c hshorter => ?_⟩
  rotate_right
  · rcases @trim_cases replies retention profileId t₁ db c with hsame | ⟨hlonger, -⟩
    · exact hsame
    · omega
  · obtain ⟨-, -, hold⟩ := trim_deleted hrow hgone
    obtain ⟨-, hsince⟩ := inRead_iff.1 (shows_iff.1 hshown).2
    have hfrom : t₂ - window retention ≤ readFrom t₂ retention timespanHours := le_readFrom
    omega
  have hmem : row ∈ db.rows := by
    refine List.mem_flatten.2 ⟨db c, List.mem_map_of_mem ?_, hrow⟩
    cases c <;> simp [collections]
  -- of the longer collections, the rows before the window are gone
  have hgone : row ∉ trimmed.db c ↔ row.timestamp < t₁ - window retention := by
    rw [trim_longer herr hlonger, List.mem_filter]
    unfold trimFilter
    simp only [hrow, hprofile, true_and, decide_true, Bool.true_and, Bool.not_eq_true',
      decide_eq_false_iff_not, not_not]
  refine ⟨fun hnever => ?_, fun old timespanHours hshown => ?_⟩
  · rw [hgone]
    by_contra hyoung
    refine hnever t₁ (Int.le_refl _) 0 (shows_iff.2 ⟨hmem, inRead_iff.2 ⟨hprofile, ?_⟩⟩)
    rw [readFrom_whole]
    omega
  · rw [hgone, shows_iff, ← hidden_iff (shows_iff.1 hshown).2]
    simp [hmem]

/-- A row of the month, and one of the last hour. -/
def trimExample : Database := fun c => match c with
  | .oneMonth => [⟨1, 0, "p", none, "processed", [], "resolved", some "a.com", none⟩]
  | .oneHour => [⟨2, 2 * hour, "p", none, "processed", [], "resolved", some "b.com", none⟩]
  | _ => []

theorem trim_hidden_month :
    ⟨1, 0, "p", none, "processed", [], "resolved", some "a.com", none⟩ ∉
      (trimQueryLogs (fun _ => .ok) "1h" "p" (2 * hour) trimExample).db .oneMonth := by
  have htrim :=
    @trim_hidden (fun _ => .ok) "1h" "p" (2 * hour) (2 * hour) trimExample (fun _ _ => true)
      (Int.le_refl _)
  refine ((htrim.2.1 (by decide) .oneMonth (by decide) _ (by decide) rfl).2 "1m" 0 ?_).2 ?_
  · exact shows_iff.2 ⟨by decide, by decide⟩
  · exact fun hshown => absurd (shows_iff.1 hshown).2 (by decide)

/-- A row in the collection of the retention, which has been too old for a second: Mongo has not
deleted it yet. -/
def expiredExample : Database := fun c => match c with
  | .oneHour => [⟨1, 0, "p", none, "processed", [], "resolved", some "a.com", none⟩]
  | _ => []

/-- It was shown, the lowered retention hides it, and the trim leaves it. -/
theorem own_collection_kept :
    ¬ ∀ (matchesSearch : String → String → Bool) (replies : Collection → DeleteReply)
    (retention old profileId : String) (t₁ timespanHours : ℤ) (db : Database)
    (c : Collection), ∀ row ∈ db c,
      window retention < window old →
        (trimQueryLogs replies retention profileId t₁ db).err = false →
      Shows matchesSearch db t₁ profileId old timespanHours row →
      (row ∉ (trimQueryLogs replies retention profileId t₁ db).db c ↔
        ¬ Shows matchesSearch db t₁ profileId retention timespanHours row) := by
  intro hexact
  have hrow :=
    hexact (fun _ _ => true) (fun _ => .ok) "1h" "1d" "p" (hour + 1000) 0 expiredExample .oneHour _
    (List.mem_singleton_self _) (by decide) (by decide) (shows_iff.2 ⟨by decide, by decide⟩)
  refine absurd (hrow.2 fun hshown => ?_) (by decide)
  exact absurd (shows_iff.1 hshown).2 (by decide)

end Reads

end ModDNS.QueryLogs
