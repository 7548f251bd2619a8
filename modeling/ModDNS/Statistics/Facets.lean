import ModDNS.Statistics.Read

/-!
# What the aggregation gives

Every facet is made of the same documents, those of the profile in the range, of all the collections
of the tier.

* `counts_facet`: a facet has the keys of the documents, and for each key the counters of the
  documents with it.
* `fillSeries_eq`: so the series has the counters of every bucket, and no document is beside the
  grid.
* `aggregates_read`: and the devices are the first ones of all, with their counters.
-/

namespace ModDNS.Statistics

open Data Mongo Pipeline Collector

/-- A counter of some documents. -/
def sumOf (docs : List Statistics) (k : Counter) : ℤ := (docs.map fun d => d.get k).sum

/-- The documents that a read of a tier is about. -/
def documents (db : StatisticsDB) (profileId : String) (start stop : ℤ) (tier : StatisticsTier) :
    List Statistics :=
  ((tierCollectionNames tier).flatMap db).filter (inRange profileId start stop)

/-- The documents of a bucket. -/
def docsAt (docs : List Statistics) (bucket ts : ℤ) : List Statistics := docs.filter fun d =>
    truncate d.bucketStart bucket = ts

/-- The documents of a device. -/
def docsOf (docs : List Statistics) (deviceId : String) : List Statistics := docs.filter fun d =>
    d.deviceId = deviceId

def pointOf (docs : List Statistics) (bucket ts : ℤ) : StatisticsPoint :=
  ⟨ts, sumOf (docsAt docs bucket ts) .total, sumOf (docsAt docs bucket ts) .blocked,
    sumOf (docsAt docs bucket ts) .dnssec⟩

def deviceOf (docs : List Statistics) (deviceId : String) : StatisticsDevice :=
  ⟨deviceId, sumOf (docsOf docs deviceId) .total, sumOf (docsOf docs deviceId) .blocked⟩

/-- All devices of the documents, each once. -/
def allDevices (docs : List Statistics) : List StatisticsDevice :=
  (docs.map fun d => d.deviceId).dedup.map (deviceOf docs)

section Counts

variable {κ κ' : Type} {docs : List Statistics} {key : Statistics → κ} {counters : List Counter}
  {rows rows' : List (Row κ)} {k : Counter}

/-- The rows have the keys of the documents, and for each key the counters of the documents with
it. -/
structure Counts [DecidableEq κ] (docs : List Statistics) (key : Statistics → κ)
    (counters : List Counter) (rows : List (Row κ)) :
    Prop where
  nodup : (rows.map Prod.fst).Nodup
  keys : ∀ x, x ∈ rows.map Prod.fst ↔ x ∈ docs.map key
  count : ∀ row ∈ rows, ∀ k ∈ counters, row.2 k = sumOf (docs.filter fun d => key d = row.1) k

variable [DecidableEq κ]

theorem Counts.perm (h : Counts docs key counters rows) (hperm : rows'.Perm rows) :
    Counts docs key counters rows' where
  nodup := (hperm.map Prod.fst).nodup_iff.2 h.nodup
  keys x := by rw [(hperm.map Prod.fst).mem_iff, h.keys]
  count row hrow := h.count row (hperm.mem_iff.1 hrow)

/-- The rows add up to all documents. -/
theorem Counts.sum (h : Counts docs key counters rows) (hk : k ∈ counters) :
    (rows.map fun row => row.2 k).sum = sumOf docs k := by
  have hdocs : ∀ d ∈ docs, key d ∈ rows.map Prod.fst := fun d hd =>
    (h.keys _).2 (List.mem_map_of_mem hd)
  unfold sumOf
  rw [← sum_fibers key h.nodup hdocs, List.map_map]
  exact congrArg List.sum (List.map_congr_left fun row hrow => h.count row hrow k hk)

/-- A key that no row has is that of no document. -/
theorem Counts.absent {x : κ} (h : Counts docs key counters rows) (hx : x ∉ rows.map Prod.fst) :
    docs.filter (fun d => key d = x) = [] := by
  refine List.filter_eq_nil_iff.2 fun d hd heq => hx ?_
  rw [h.keys, ← of_decide_eq_true heq]
  exact List.mem_map_of_mem hd

/-- A facet of totals is empty when there are no documents. -/
theorem Counts.totals {docs : List Statistics} {rows : List (Row Unit)}
    (h : Counts docs (fun _ => ()) counters rows) :
    (rows.head? = none ∧ docs = []) ∨ ∃ row, rows.head? = some row ∧
    ∀ k ∈ counters, row.2 k = sumOf docs k := by
  cases rows with
  | nil =>
    refine .inl ⟨rfl, ?_⟩
    have hnone := h.absent (x := ()) List.not_mem_nil
    rwa [List.filter_eq_self.2 fun d _ => decide_eq_true rfl] at hnone
  | cons row rows =>
    refine .inr ⟨row, rfl, fun k hk => ?_⟩
    have hcount := h.count row List.mem_cons_self k hk
    rwa [List.filter_eq_self.2 fun d _ => decide_eq_true rfl] at hcount

end Counts

section Branches

variable {db : StatisticsDB} {profileId : String} {start stop bucket : ℤ} {docs : List Statistics}
  {colls : List StatisticsColl} {rows : List (Row (ℤ × String))}

theorem counter_mem (k : Counter) : k ∈ statisticsCounterFields := by
  cases k with
  | reason r => cases r <;> decide
  | proto p => cases p <;> decide
  | _ => decide

/-- The rows have the points and devices of the documents, and add up to them wherever they are
selected by these. -/
structure Sums (docs : List Statistics) (bucket : ℤ) (rows : List (Row (ℤ × String))) : Prop where
  keys : ∀ x, x ∈ rows.map Prod.fst ↔ x ∈ docs.map (pointDevice bucket)
  sum : ∀ (k : Counter) (P : ℤ × String → Bool),
    ((rows.filter fun row => P row.1).map fun row => row.2 k).sum = sumOf
      (docs.filter fun d => P (pointDevice bucket d)) k

theorem sums_branch (h : rows ∈ statisticsBranch profileId start stop bucket docs) :
    Sums (docs.filter (inRange profileId start stop)) bucket rows := by
  unfold statisticsBranch at h
  rw [filter_andThen] at h
  refine ⟨fun x => ?_, fun k P => ?_⟩
  · rw [((mem_group.1 h).map Prod.fst).mem_iff, keys_groups, List.mem_dedup]
  · exact sum_group (f := fun c : Counter → ℤ => c k) (fun l => if_pos (counter_mem k)) h P

theorem Sums.append {docs' : List Statistics} {rows' : List (Row (ℤ × String))}
    (h : Sums docs bucket rows) (h' : Sums docs' bucket rows') :
    Sums (docs ++ docs') bucket (rows ++ rows') where
  keys x := by
    rw [List.map_append, List.map_append, List.mem_append, List.mem_append, h.keys, h'.keys]
  sum k P := by
    have hdocs := h'.sum k P
    unfold sumOf at hdocs ⊢
    rw [List.filter_append, List.map_append, List.sum_append, h.sum, hdocs, List.filter_append,
      List.map_append, List.sum_append]
    rfl

theorem sums_branches {os : List (List (Row (ℤ × String)))}
    (h : List.Forall₂ (fun c o => o ∈ statisticsBranch profileId start stop bucket
      (db c)) colls os) :
    Sums ((colls.flatMap db).filter (inRange profileId start stop)) bucket os.flatten := by
  induction h with
  | nil => exact ⟨fun _ => Iff.rfl, fun _ _ => rfl⟩
  | cons hbranch _ ih =>
    rw [List.flatMap_cons, List.filter_append, List.flatten_cons]
    exact (sums_branch hbranch).append ih

/-- **The rows of all collections.** -/
theorem sums_rows (h : rows ∈ statisticsRows profileId start stop bucket db colls) :
    Sums ((colls.flatMap db).filter (inRange profileId start stop)) bucket rows := by
  cases colls with
  | nil => cases h
  | cons first others =>
    obtain ⟨os, hos, rfl⟩ := mem_unionWiths.1 h
    refine sums_branches (List.Forall₂.imp ?_ ((List.forall₂_map_left_iff (f := fun c =>
      (statisticsBranch profileId start stop bucket, db c)) (l := first :: others)).1 hos))
    exact fun c o ho => ho

/-- **A facet** of the rows counts the documents. -/
theorem counts_facet {κ : Type} [DecidableEq κ] {id : ℤ × String → κ} {counters : List Counter}
    {g : List (Row κ)} (h : Sums docs bucket rows) (hg : g ∈ facetGroup id counters rows) :
    Counts docs (fun d => id (pointDevice bucket d)) counters g := by
  have hgroups := mem_group.1 hg
  refine Counts.perm ⟨nodup_keys, fun x => ?_, fun row hrow k hk => ?_⟩ hgroups
  · rw [keys_groups, List.mem_dedup]
    have hid : ∀ {α : Type} (l : List α) (f : α → ℤ × String), x ∈ l.map (fun a => id (f a)) ↔
        ∃ y ∈ l.map f, id y = x := by
      intro α l f
      rw [← List.mem_map, List.map_map]
      rfl
    rw [hid, hid]
    exact exists_congr fun y => and_congr_left fun _ => h.keys y
  · obtain ⟨-, heq⟩ := mem_groups.1 hrow
    rw [heq]
    exact (if_pos hk).trans (h.sum k fun x => id x = row.1)

end Branches

section Aggregates

variable {db : StatisticsDB} {profileId : String} {start stop bucket : ℤ} {tier : StatisticsTier}
  {docs : List Statistics} {rows : List (Row (ℤ × String))} {agg : StatisticsAggregate}

/-- The counters of a series. -/
def seriesCounters : List Counter := [.total, .blocked, .dnssec]

/-- A decoded row of a series. -/
def pointRow (row : Row ℤ) : StatisticsPoint := ⟨row.1, row.2 .total, row.2 .blocked, row.2 .dnssec⟩

/-- A decoded row of the devices. -/
def deviceRow (row : Row String) : StatisticsDevice := ⟨row.1, row.2 .total, row.2 .blocked⟩

/-- **The series**: each bucket of the grid has the counters of its documents. -/
theorem fillSeries_eq {rows : List (Row ℤ)} (hb : IsBucket bucket) (hstart : start % bucket = 0)
    (h : Counts docs (fun d => truncate d.bucketStart bucket) seriesCounters rows) :
    fillSeries (rows.map pointRow) start stop bucket = (grid start stop bucket).map
    (pointOf docs bucket) := by
  unfold fillSeries
  refine List.map_congr_left fun ts hts => ?_
  have hmod : ts % bucket = 0 := ((mem_grid hb.pos hstart).1 hts).1
  unfold byStart
  cases hfind : (rows.map pointRow).reverse.find? fun p => unix p.ts = unix ts with
  | some p =>
    obtain ⟨row, hrow, rfl⟩ := List.mem_map.1 (List.mem_reverse.1 (List.mem_of_find?_eq_some hfind))
    -- the row of the same second is that of the bucket
    have hrowmod : row.1 % bucket = 0 := by
      obtain ⟨d, -, hd⟩ := List.mem_map.1 ((h.keys row.1).1 (List.mem_map_of_mem hrow))
      rw [← hd]
      exact truncate_mod _ _
    have hunix : decide (unix (pointRow row).ts = unix ts) = true := by
      have hfound := List.find?_some hfind
      exact hfound
    obtain rfl : row.1 = ts :=
      unix_inj (hb.mod_second hrowmod) (hb.mod_second hmod) (of_decide_eq_true hunix)
    have hcount := h.count row hrow
    unfold seriesCounters at hcount
    rw [Option.getD_some]
    unfold pointRow pointOf docsAt
    rw [hcount .total (by decide), hcount .blocked (by decide), hcount .dnssec (by decide)]
  | none =>
    have hnone : ts ∉ rows.map Prod.fst := by
      intro hmem
      obtain ⟨row, hrow, heq⟩ := List.mem_map.1 hmem
      refine List.find?_eq_none.1 hfind (pointRow row)
        (List.mem_reverse.2 (List.mem_map_of_mem hrow)) (decide_eq_true ?_)
      exact congrArg unix heq
    unfold pointOf docsAt
    rw [h.absent hnone]
    rfl

/-- The aggregate is that of the documents. -/
structure Aggregates (docs : List Statistics) (bucket : ℤ) (agg : StatisticsAggregate) : Prop where
  totals : agg.totals = ⟨sumOf docs .total, sumOf docs .blocked, sumOf docs .dnssec⟩
  reasons : agg.reasons = ⟨sumOf docs (.reason .blocklist), sumOf docs (.reason .service),
    sumOf docs (.reason .customRule),
    sumOf docs (.reason .rebinding), sumOf docs (.reason .defaultRule), sumOf docs (.reason .other)⟩
  protocols : agg.protocols = ⟨sumOf docs (.proto .doH), sumOf docs (.proto .doT),
    sumOf docs (.proto .doQ)⟩
  series : ∀ start stop, start % bucket = 0 →
    fillSeries agg.series start stop bucket = (grid start stop bucket).map (pointOf docs bucket)
  devices : Firsts StatisticsDevice.order (statisticsMaxDevices + 1) (allDevices docs) agg.devices

/-- The rows of the devices are those of all devices. -/
theorem devices_facet {g : List (Row String)}
    (h : Counts docs (fun d => d.deviceId) [.total, .blocked] g) :
    (g.map deviceRow).Perm (allDevices docs) := by
  have hids : (g.map Prod.fst).Perm (docs.map fun d => d.deviceId).dedup :=
    (List.perm_ext_iff_of_nodup h.nodup (List.nodup_dedup _)).2 fun x => by
      rw [h.keys, List.mem_dedup]
  have hrows : g.map deviceRow = (g.map Prod.fst).map (deviceOf docs) := by
    rw [List.map_map]
    refine List.map_congr_left fun row hrow => ?_
    have hcount := h.count row hrow
    unfold Function.comp deviceRow deviceOf docsOf
    rw [hcount .total (by decide), hcount .blocked (by decide)]
  rw [hrows]
  exact hids.map _

/-- **The aggregate of a read.** -/
theorem aggregates_read (hb : IsBucket bucket)
    (h : agg ∈ readAggregate profileId start stop bucket db tier) :
    Aggregates (documents db profileId start stop tier) bucket agg := by
  obtain ⟨f, ⟨rows, hrows, hseries, htotals, hreasons, hprotocols, hdevices⟩, rfl⟩ := h
  -- every facet counts the same documents
  have hsums : Sums (documents db profileId start stop tier) bucket rows := sums_rows hrows
  constructor
  · unfold StatisticsFacets.aggregate
    rcases (counts_facet hsums htotals).totals with ⟨hnone, hnil⟩ | ⟨row, hsome, hcount⟩
    · rw [hnone, hnil]
      rfl
    · rw [hsome]
      dsimp only
      rw [hcount .total (by decide), hcount .blocked (by decide), hcount .dnssec (by decide)]
  · unfold StatisticsFacets.aggregate
    rcases (counts_facet hsums hreasons).totals with ⟨hnone, hnil⟩ | ⟨row, hsome, hcount⟩
    · rw [hnone, hnil]
      rfl
    · rw [hsome]
      dsimp only
      rw [hcount (.reason .blocklist) (by decide), hcount (.reason .service) (by decide),
        hcount (.reason .customRule) (by decide),
        hcount (.reason .rebinding) (by decide), hcount (.reason .defaultRule) (by decide),
        hcount (.reason .other) (by decide)]
  · unfold StatisticsFacets.aggregate
    rcases (counts_facet hsums hprotocols).totals with ⟨hnone, hnil⟩ | ⟨row, hsome, hcount⟩
    · rw [hnone, hnil]
      rfl
    · rw [hsome]
      dsimp only
      rw [hcount (.proto .doH) (by decide), hcount (.proto .doT) (by decide),
        hcount (.proto .doQ) (by decide)]
  -- the series is filled up, the devices are the first of theirs
  · intro start' stop' hstart'
    obtain ⟨g, hg, hsort⟩ := hseries
    refine fillSeries_eq hb hstart' (Counts.perm ?_ hsort.1)
    have hcounts := counts_facet hsums hg
    unfold pointDevice at hcounts
    simp only [dateTrunc_bucket hb] at hcounts
    exact hcounts
  · obtain ⟨s, ⟨g, hg, hsort⟩, htake⟩ := hdevices
    refine Firsts.congr ⟨_, Sorts.map deviceRow hsort, ?_⟩ (devices_facet (counts_facet hsums hg))
    unfold StatisticsFacets.aggregate
    dsimp only
    rw [mem_limit.1 htake, List.map_take]
    rfl

end Aggregates
end ModDNS.Statistics
