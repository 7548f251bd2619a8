import ModDNS.QueryLogs.Model

/-!
# The rows of all collections read as one

Each read gives what its query gives over one collection with all the rows, in whatever order it has
them.

* `mem_populatedCollections`: the collections that a read takes.
* `aggregateUnion_eq`: a union whose branches and merge make one query.
* `reads_eq_union`: the reads.
-/

namespace ModDNS.QueryLogs

open Data Go Libs.FilterReasons Mongo Mongo.Pipeline

section Populated

variable {db : Database} {profileId : String} {since : ℤ} {colls : List Collection}

/-- The collections that have rows for the read. -/
def populated (db : Database) (profileId : String) (since : ℤ) : List Collection :=
  collections.filter fun c => (db c).any (inRead profileId since)

theorem mem_probe {name : String} {rows : List QueryLog} {o : List String} :
    o ∈ probe profileId since name rows ↔ o = if rows.any (inRead profileId since) then
      [name] else [] := by
  have hone : ((rows.filter (inRead profileId since)).take 1).map (fun _ => name) =
      if rows.any (inRead profileId since) then [name] else [] := by
    cases hrows : rows.filter (inRead profileId since) with
    | nil =>
      rw [List.filter_eq_nil_iff] at hrows
      rw [if_neg]
      · rfl
      · rintro hany
        obtain ⟨row, hrow, hin⟩ := List.any_eq_true.1 hany
        exact hrows row hrow hin
    | cons row rest =>
      have hrow : row ∈ rows.filter (inRead profileId since) := hrows ▸ List.mem_cons_self
      rw [if_pos (List.any_eq_true.2 ⟨row, (List.mem_filter.1 hrow).1, (List.mem_filter.1 hrow).2⟩)]
      rfl
  unfold probe
  rw [mem_andThen]
  simp only [filter_andThen, mem_limit, exists_eq_left]
  rw [← hone]
  rfl

/-- The collections of the names that the probes gave. -/
theorem collections_of_names (cs : List Collection) :
    ((cs.map fun c => if (db c).any (inRead profileId since) then [c.name]
      else []).flatten.filterMap fun name =>
      queryLogsCollections (trimPrefix name (collNameQueryLogs ++ "_"))) =
      cs.filter fun c => (db c).any (inRead profileId since) := by
  induction cs with
  | nil => rfl
  | cons c cs ih =>
    rw [List.map_cons, List.flatten_cons, List.filterMap_append, ih, List.filter_cons]
    split
    · rw [List.filterMap_cons, queryLogsCollections_name]
      rfl
    · rfl

theorem mem_populatedCollections :
    colls ∈ populatedCollections db profileId since ↔ colls = populated db profileId since := by
  have hresults : ∀ (cs : List Collection) {os : List (List String)},
      List.Forall₂ (fun b o => o ∈ b.1 b.2)
        (cs.map fun c => (probe profileId since c.name, db c)) os ↔
        os = cs.map fun c => if (db c).any (inRead profileId since) then [c.name] else [] := by
    intro cs os
    rw [List.forall₂_map_left_iff]
    simp only [mem_probe]
    exact forall₂_eq_map
  have hnames : ∀ {names : List String}, names ∈
    (probe profileId since Collection.oneHour.name).andThen
      (unionWiths ([Collection.sixHours, .oneDay, .oneWeek, .oneMonth].map fun c =>
        (probe profileId since c.name, db c)))
      (db .oneHour) ↔
        names = (collections.map fun c => if (db c).any (inRead profileId since) then [c.name]
          else []).flatten := by
    intro names
    rw [mem_unionWiths]
    constructor
    · rintro ⟨os, hos, rfl⟩
      rw [(hresults collections).1 hos]
    · intro h
      exact ⟨_, (hresults collections).2 rfl, h⟩
  unfold populatedCollections
  rw [Set.mem_image]
  constructor
  · rintro ⟨names, h, rfl⟩
    rw [hnames.1 h]
    exact collections_of_names collections
  · rintro rfl
    exact ⟨_, hnames.2 rfl, collections_of_names collections⟩

end Populated

section Union

variable {db : Database} {profileId : String} {since : ℤ} {β γ : Type} {matching : QueryLog → Bool}
  {body : Pipeline QueryLog β} {merge : Pipeline β β} {tail : Pipeline β γ}
  {query : Pipeline QueryLog γ}

/-- What the collections of a read have that matches. -/
def parts (db : Database) (profileId : String) (since : ℤ) (matching : QueryLog → Bool) :
    List (List QueryLog) :=
  (populated db profileId since).map fun c => (db c).filter matching

/-- The collections that are left out have nothing that matches. -/
theorem flatten_parts (h : ∀ row, matching row = true → inRead profileId since row = true) :
    (parts db profileId since matching).flatten = db.rows.filter matching := by
  unfold parts populated Database.rows
  induction collections with
  | nil => rfl
  | cons c cs ih =>
    rw [List.map_cons, List.flatten_cons, List.filter_append, ← ih, List.filter_cons]
    split
    · rw [List.map_cons, List.flatten_cons]
    · next hnone =>
      have hnil : (db c).filter matching = [] := by
        refine List.filter_eq_nil_iff.2 fun row hrow hmatch => hnone ?_
        exact List.any_eq_true.2 ⟨row, hrow, h row hmatch⟩
      rw [hnil, List.nil_append]

/-- **A union whose branches and merge make one query**, as does a branch with the tail alone. -/
theorem aggregateUnion_eq (h : ∀ row, matching row = true → inRead profileId since row = true)
    (hnil : query [] = {[]})
    (hone : ∀ l o, (∃ m ∈ body l, o ∈ tail m) ↔ o ∈ query l)
    (hmany : ∀ ls o, (∃ ms, List.Forall₂ (fun l m => m ∈ body l) ls ms ∧
      ∃ m ∈ merge ms.flatten, o ∈ tail m) ↔
      o ∈ query ls.flatten) :
    cursorAll '' aggregateUnion db profileId since ((filter matching).andThen body) merge tail =
      query (db.rows.filter matching) := by
  ext o
  rw [← flatten_parts h]
  unfold parts aggregateUnion
  simp only [Set.mem_image, Set.mem_ofPred_eq, mem_populatedCollections, exists_eq_left]
  -- no collection with rows, one of them, or a union of several
  cases populated db profileId since with
  | nil =>
    simp only [List.map_nil, List.flatten_nil, hnil, exists_eq_left, Set.mem_singleton_iff]
    exact eq_comm
  | cons c cs =>
    cases cs with
    | nil =>
      rw [List.map_singleton, List.flatten_singleton, ← hone]
      simp only [mem_andThen, filter_andThen]
      constructor
      · rintro ⟨-, ⟨rows, ⟨m, hm, hrows⟩, rfl⟩, rfl⟩
        exact ⟨m, hm, hrows⟩
      · rintro ⟨m, hm, hrows⟩
        exact ⟨some o, ⟨o, ⟨m, hm, hrows⟩, rfl⟩, rfl⟩
    | cons d cs =>
      rw [← hmany]
      have hbranches : ∀ ms, List.Forall₂ (fun b m => m ∈ b.1 b.2)
        (((filter matching).andThen body, db c) ::
          (d :: cs).map fun c => ((filter matching).andThen body, db c)) ms ↔
          List.Forall₂ (fun l m => m ∈ body l)
          ((c :: d :: cs).map fun c => (db c).filter matching) ms := by
        intro ms
        rw [← List.map_cons (f := fun c => ((filter matching).andThen body, db c)),
          List.forall₂_map_left_iff,
          List.forall₂_map_left_iff]
        simp only [filter_andThen]
      constructor
      · rintro ⟨-, ⟨rows, ⟨m', ⟨m, hm, hm'⟩, hrows⟩, rfl⟩, rfl⟩
        obtain ⟨ms, hms, rfl⟩ := mem_unionWiths.1 hm
        exact ⟨ms, (hbranches ms).1 hms, m', hm', hrows⟩
      · rintro ⟨ms, hms, m', hm', hrows⟩
        have hm := mem_unionWiths.2 ⟨ms, (hbranches ms).2 hms, rfl⟩
        exact ⟨some o, ⟨o, ⟨m', ⟨ms.flatten, hm, hm'⟩, hrows⟩, rfl⟩, rfl⟩

/-- Without a merge. -/
theorem aggregateUnion_nop (query : Pipeline QueryLog γ)
    (h : ∀ row, matching row = true → inRead profileId since row = true) (hnil : query [] = {[]})
    (hmany : ∀ ls o, (∃ ms, List.Forall₂ (fun l m => m ∈ body l) ls ms ∧ o ∈ tail ms.flatten) ↔
      o ∈ query ls.flatten) :
    cursorAll '' aggregateUnion db profileId since ((filter matching).andThen body) nop tail =
      query (db.rows.filter matching) := by
  refine aggregateUnion_eq h hnil (fun l o => ?_) (fun ls o => ?_)
  · have hone := hmany [l] o
    rw [List.flatten_singleton] at hone
    rw [← hone]
    constructor
    · rintro ⟨m, hm, ho⟩
      refine ⟨[m], .cons hm .nil, ?_⟩
      rw [List.flatten_singleton]
      exact ho
    · rintro ⟨ms, hms, ho⟩
      cases hms with
      | cons hm hrest =>
        cases hrest
        rw [List.flatten_singleton] at ho
        exact ⟨_, hm, ho⟩
  · rw [← hmany]
    simp only [mem_nop, exists_eq_left]

/-- With groups that are merged. -/
theorem aggregateUnion_group {α κ δ : Type} [DecidableEq κ] (tokens : List QueryLog → List α)
    {key : α → κ} {acc : List α → δ} {acc' : List δ → δ} {tail : Pipeline (κ × δ) γ}
    {body : Pipeline QueryLog (κ × δ)}
    (h : ∀ row, matching row = true → inRead profileId since row = true)
    (hbody : ∀ l, body l = group key acc (tokens l))
    (htokens : ∀ ls : List (List QueryLog), tokens ls.flatten = (ls.map tokens).flatten)
    (hmerge : ∀ parts : List (List α), parts ≠ [] → (∀ l ∈ parts, l ≠ []) →
      acc' (parts.map acc) = acc parts.flatten)
    (hnil : tail [] = {[]}) :
    cursorAll '' aggregateUnion db profileId since ((filter matching).andThen body)
        (group Prod.fst fun rows => acc' (rows.map Prod.snd)) tail =
      (body.andThen tail) (db.rows.filter matching) := by
  refine aggregateUnion_eq h ?_ (fun l o => Iff.rfl) (fun ls o => ?_)
  · ext o
    have htokens : tokens [] = [] := htokens []
    rw [mem_andThen, hbody, htokens]
    have hgroup : group key acc [] = {[]} := by
      ext g
      exact List.perm_nil
    rw [hgroup]
    simp only [Set.mem_singleton_iff, exists_eq_left, hnil]
  · rw [mem_andThen, hbody, htokens]
    have hparts : ∀ {ms : List (List (κ × δ))}, List.Forall₂ (fun l m => m ∈ body l) ls ms ↔
        List.Forall₂ (fun l m => m ∈ group key acc l) (ls.map tokens) ms := by
      intro ms
      rw [List.forall₂_map_left_iff]
      simp only [hbody]
    constructor
    · rintro ⟨ms, hms, m, hm, ho⟩
      exact ⟨m, (group_flatten hmerge).1 ⟨ms, hparts.1 hms, hm⟩, ho⟩
    · rintro ⟨m, hm, ho⟩
      obtain ⟨ms, hms, hm⟩ := (group_flatten hmerge).2 hm
      exact ⟨ms, hparts.2 hms, m, hm, ho⟩

end Union

/-! ### The queries over one collection -/

section OneCollection

variable (matchesSearch : String → String → Bool) (rows : List QueryLog) (now : ℤ) (q : LogsQuery)
  (profileId retention : String)

/-- The rows that match, sorted, and the page of them. -/
def logsOf (pageNumber pageSize : ℤ) : Set (List QueryLog) :=
  let sorted := sort (buildSortSpec q.sortBy)
  let paged := if pageSize > 0 then
      (sorted.andThen (skip ((max pageNumber 1 - 1) * pageSize).toNat)).andThen
        (limit pageSize.toNat)
    else sorted
  ((filter (matchFilter matchesSearch q (readFrom now q.retention q.timespan))).andThen paged) rows

/-- The devices, each with its latest timestamp. -/
def devicesOf : Set (List QueryLogDevice) :=
  let matching := filter fun row =>
    inRead profileId (readFrom now retention 0) row && present row.deviceId
  let devices := group (fun row => fieldKey row.deviceId) fun rows =>
    latest (rows.map fun row => row.timestamp)
  List.map (fun row => ⟨row.1.unbotD "", row.2⟩) ''
  (matching.andThen (devices.andThen ((sort Prod.fst).andThen (limit 500)))) rows

/-- The tokens of the rows that match, counted and ranked. -/
def topOf (matching : QueryLog → Bool) (tokens : QueryLog → List (WithBot String))
    (text : String → String) (n : ℕ) :
    Set (List (String × ℕ)) :=
  let ranked := sort fun row : WithBot String × ℕ => toLex (OrderDual.toDual row.2, row.1)
  List.map (fun row => (text (row.1.unbotD ""), row.2)) ''
    ((filter matching).andThen (((unwind tokens).andThen (group id List.length)).andThen
      (ranked.andThen (limit n)))) rows

/-- The minute of the oldest row. -/
def coveredFromOf (timespanHours : ℤ) : Option ℤ :=
  ((rows.filter (inRead profileId (readFrom now retention timespanHours))).map
    QueryLog.timestamp).min?.map fun t => t - t % minute

end OneCollection

section Reads

variable {matchesSearch : String → String → Bool} {db : Database} {rows : List QueryLog} {now : ℤ}
  {q : LogsQuery} {profileId retention : String}

theorem matchFilter_inRead {since : ℤ} {row : QueryLog}
    (h : matchFilter matchesSearch q since row = true) :
    inRead q.profileId since row = true := by
  unfold matchFilter at h
  rw [Bool.and_eq_true, Bool.and_eq_true, Bool.and_eq_true] at h
  exact h.1.1.1

theorem sort_nil {α κ : Type} [LinearOrder κ] {key : α → κ} : sort key [] = {[]} := by
  ext s
  exact sorts_nil

/-- The rows of the requested page are among the first `page * pageSize` rows. -/
theorem getQueryLogs_eq (page pageSize : ℤ) :
    getQueryLogs matchesSearch db now q page pageSize =
      logsOf matchesSearch db.rows now q page pageSize := by
  unfold getQueryLogs logsOf
  simp only [filter_andThen]
  have hread : ∀ row, matchFilter matchesSearch q (readFrom now q.retention q.timespan) row = true →
      inRead q.profileId (readFrom now q.retention q.timespan) row = true := fun row h =>
        matchFilter_inRead h
  split
  · next hsize =>
    have hpage : (if page ≤ 0 then 1 else page) = max page 1 := by
      split <;> omega
    rw [hpage, andThen_assoc]
    refine aggregateUnion_nop _ hread ?_ (fun ls o => ?_)
    · ext o
      simp [mem_andThen, sort_nil, mem_skip, mem_limit]
    · have htotal : (max page 1 * pageSize).toNat = ((max page 1 - 1) * pageSize).toNat +
          pageSize.toNat := by
        have hfirst : 0 ≤ (max page 1 - 1) * pageSize := Int.mul_nonneg (by omega) (by omega)
        rw [← Int.toNat_add hfirst (by omega), Int.sub_mul, Int.one_mul, Int.sub_add_cancel]
      rw [htotal]
      exact page_flatten
  · refine aggregateUnion_nop _ hread sort_nil (fun ls o => ?_)
    exact sort_flatten

theorem latest_append (l m : List (WithBot ℤ)) : latest (l ++ m) = max (latest l) (latest m) := by
  unfold latest
  induction l with
  | nil => rw [List.nil_append, List.foldr_nil, max_eq_right bot_le]
  | cons t l ih => rw [List.cons_append, List.foldr_cons, List.foldr_cons, ih, max_assoc]

theorem latest_flatten {α : Type} (f : α → WithBot ℤ) (parts : List (List α)) :
    latest (parts.map fun part => latest (part.map f)) = latest (parts.flatten.map f) := by
  induction parts with
  | nil => rfl
  | cons part parts ih =>
    rw [List.flatten_cons, List.map_append, latest_append, ← ih]
    rfl

/-- What a read makes of the list that it decodes. -/
theorem image_cursorAll {β γ : Type} (f : List β → γ) (cursors : Set (Option (List β))) :
    (fun rows => f (cursorAll rows)) '' cursors = f '' (cursorAll '' cursors) :=
  Set.image_comp _ _ _

theorem getQueryLogDevices_eq :
    getQueryLogDevices db now profileId retention = devicesOf db.rows now profileId retention := by
  unfold getQueryLogDevices devicesOf
  refine (image_cursorAll (List.map _) _).trans ?_
  simp only [filter_andThen]
  refine congrArg _ ?_
  refine aggregateUnion_group id ?_ (fun l => rfl) (fun ls => ?_) (fun parts _ _ => ?_) ?_
  · intro row h
    rw [Bool.and_eq_true] at h
    exact h.1
  · rw [List.map_id]
    rfl
  · rw [← latest_flatten]
  · ext o
    simp [mem_andThen, sort_nil, mem_limit]

/-- The counts of tokens, added up. -/
theorem topCounts_eq {since : ℤ} {matching : QueryLog → Bool}
    {tokens : QueryLog → List (WithBot String)} {body : Pipeline QueryLog (WithBot String × ℕ)}
    {n : ℕ} (text : String → String)
    (h : ∀ row, matching row = true → inRead profileId since row = true)
    (hbody : ∀ l, body l = group id List.length (l.flatMap tokens)) :
    (fun rows => (cursorAll rows).map fun row => (text (row.1.unbotD ""), row.2)) ''
        aggregateUnion db profileId since ((filter matching).andThen body) topCountMerge
          (topRankTail n) =
      topOf db.rows matching tokens text n := by
  have hcounts : ((unwind tokens).andThen (group id List.length) : Pipeline QueryLog
      (WithBot String × ℕ)) = body := by
    funext l
    rw [hbody, unwind_andThen]
  unfold topOf
  refine (image_cursorAll (List.map _) _).trans ?_
  simp only [filter_andThen, hcounts]
  refine congrArg _ ?_
  refine aggregateUnion_group (fun l => l.flatMap tokens) h hbody (fun ls => ?_)
    (fun parts _ _ => ?_) ?_
  · rw [List.flatMap_def, List.map_flatten, List.flatten_flatten, List.map_map]
    rfl
  · exact (List.length_flatten).symm
  · ext o
    simp [mem_andThen, sort_nil, mem_limit, topRankTail]

theorem countBy_eq {α : Type} (key : α → WithBot String) (l : List α) :
    countBy key l = group id List.length (l.map key) := by
  ext g
  unfold countBy
  rw [mem_group, mem_group, groups_length]

theorem topGroup_eq {since : ℤ} {matching : QueryLog → Bool}
    {groupExpr : QueryLog → Option String} {n : ℕ}
    (h : ∀ row, matching row = true → inRead profileId since row = true) :
    topGroup db profileId since matching groupExpr n =
      topOf db.rows matching (fun row => [fieldKey (groupExpr row)]) id n := by
  refine topCounts_eq id h fun l => ?_
  rw [countBy_eq, List.map_eq_flatMap]

/-- The tokens of a row that name blocklists. -/
def tokensOf (row : QueryLog) : List (WithBot String) :=
  (row.reasons.filter fun reason => hasPrefix reason blocklistPrefix).map WithBot.some

theorem getQueryLogTopBlocklists_eq (timespanHours : ℤ) (n : ℕ) :
    getQueryLogTopBlocklists db now profileId retention timespanHours n =
      topOf db.rows
        (fun row => inRead profileId (readFrom now retention timespanHours) row && row.status =
          queryLogStatusBlocked)
        tokensOf (fun text => trimPrefix text blocklistPrefix) n := by
  refine topCounts_eq (fun text => trimPrefix text blocklistPrefix) (fun row h => ?_) fun l => ?_
  · rw [Bool.and_eq_true] at h
    exact h.1
  · have htokens : l.flatMap tokensOf =
        ((l.flatMap QueryLog.reasons).filter fun reason => hasPrefix reason blocklistPrefix).map
          WithBot.some := by
      rw [List.filter_flatMap, List.map_flatMap]
      rfl
    unfold blocklistTokens
    rw [htokens, ← countBy_eq, andThen_assoc, unwind_andThen, filter_andThen]

/-- The oldest of the oldest rows. -/
theorem min?_flatten (ls : List (List ℤ)) :
    (ls.map fun l => l.min?.toList).flatten.min? = ls.flatten.min? := by
  ext t
  rw [List.min?_eq_some_iff, List.min?_eq_some_iff]
  have hmem : ∀ t, t ∈ (ls.map fun l => l.min?.toList).flatten ↔ ∃ l ∈ ls, l.min? = some t := by
    intro t
    simp only [List.mem_flatten, List.mem_map, exists_exists_and_eq_and, Option.mem_toList]
  constructor
  · rintro ⟨ht, hle⟩
    obtain ⟨l, hl, hmin⟩ := (hmem t).1 ht
    refine ⟨List.mem_flatten.2 ⟨l, hl, (List.min?_eq_some_iff.1 hmin).1⟩, fun t' ht' => ?_⟩
    obtain ⟨l', hl', ht'⟩ := List.mem_flatten.1 ht'
    obtain ⟨m, hm⟩ : ∃ m, l'.min? = some m := by
      refine Option.ne_none_iff_exists'.1 fun hnone => ?_
      rw [List.min?_eq_none_iff] at hnone
      rw [hnone] at ht'
      exact List.not_mem_nil ht'
    exact le_trans (hle m ((hmem m).2 ⟨l', hl', hm⟩)) ((List.min?_eq_some_iff.1 hm).2 t' ht')
  · rintro ⟨ht, hle⟩
    obtain ⟨l, hl, ht⟩ := List.mem_flatten.1 ht
    have hmin : l.min? = some t :=
      List.min?_eq_some_iff.2 ⟨ht, fun t' ht' => hle t' (List.mem_flatten.2 ⟨l, hl, ht'⟩)⟩
    refine ⟨(hmem t).2 ⟨l, hl, hmin⟩, fun t' ht' => ?_⟩
    obtain ⟨l', hl', hmin'⟩ := (hmem t').1 ht'
    exact hle t' (List.mem_flatten.2 ⟨l', hl', (List.min?_eq_some_iff.1 hmin').1⟩)

theorem firsts_one {α : Type} {key : α → ℤ} {t l : List α} (h : Firsts key 1 l t) :
    t.map key = (l.map key).min?.toList := by
  obtain ⟨s, ⟨hperm, hsorted⟩, rfl⟩ := h
  cases s with
  | nil =>
    rw [List.nil_perm.1 hperm]
    rfl
  | cons a s =>
    have hmin : (l.map key).min? = some (key a) := by
      refine List.min?_eq_some_iff.2
        ⟨List.mem_map_of_mem (hperm.mem_iff.1 List.mem_cons_self), fun t ht => ?_⟩
      obtain ⟨b, hb, rfl⟩ := List.mem_map.1 ht
      rcases List.mem_cons.1 (hperm.mem_iff.2 hb) with rfl | hb
      · exact le_rfl
      · exact (List.pairwise_cons.1 hsorted).1 b hb
    rw [hmin]
    rfl

theorem getQueryLogCoveredFrom_eq (timespanHours : ℤ) :
    getQueryLogCoveredFrom db now profileId retention timespanHours =
      {coveredFromOf db.rows now profileId retention timespanHours} := by
  -- a branch gives its earliest row, and the tail the earliest of those
  have hbody : ∀ l m, m ∈ (sort QueryLog.timestamp).andThen
    ((limit 1).andThen (project QueryLog.timestamp)) l ↔
      m = (l.map QueryLog.timestamp).min?.toList := by
    intro l m
    rw [← andThen_assoc]
    constructor
    · rintro ⟨t, ht, rfl⟩
      exact firsts_one ht
    · rintro rfl
      obtain ⟨t, ht⟩ := exists_firsts QueryLog.timestamp 1 l
      exact ⟨t, ht, (firsts_one ht).symm⟩
  have htail : ∀ l o, o ∈ (sort id).andThen (limit 1) l ↔ o = (l : List ℤ).min?.toList := by
    intro l o
    constructor
    · intro ho
      have hone := firsts_one ho
      rw [List.map_id, List.map_id] at hone
      exact hone
    · rintro rfl
      obtain ⟨t, ht⟩ := exists_firsts (id : ℤ → ℤ) 1 l
      have hone := firsts_one ht
      rw [List.map_id, List.map_id] at hone
      exact hone ▸ ht
  -- so the union gives the earliest row of all collections
  have hrows : cursorAll '' aggregateUnion db profileId (readFrom now retention timespanHours)
      ((filter (inRead profileId (readFrom now retention timespanHours))).andThen
        ((sort QueryLog.timestamp).andThen ((limit 1).andThen (project QueryLog.timestamp)))) nop
          ((sort id).andThen (limit 1)) =
      {((db.rows.filter (inRead profileId (readFrom now retention timespanHours))).map
        QueryLog.timestamp).min?.toList} := by
    refine aggregateUnion_nop (fun l => {(l.map QueryLog.timestamp).min?.toList})
      (fun row h => h) rfl (fun ls o => ?_)
    simp only [hbody, htail, forall₂_eq_map, exists_eq_left, Set.mem_singleton_iff]
    rw [List.map_flatten, ← min?_flatten (ls.map (List.map QueryLog.timestamp)), List.map_map]
    rfl
  unfold getQueryLogCoveredFrom coveredFromOf
  rw [image_cursorAll (fun rows : List ℤ => rows.head?.map fun t => t - t % minute), andThen_assoc,
    andThen_assoc, hrows,
    Set.image_singleton]
  cases ((db.rows.filter (inRead profileId (readFrom now retention timespanHours))).map
    QueryLog.timestamp).min? with
  | none => rfl
  | some t => rfl

theorem latest_perm {l l' : List (WithBot ℤ)} (h : l.Perm l') : latest l = latest l' := h.foldr_eq ⊥

section Order

variable {rows' : List QueryLog} (h : rows.Perm rows')
include h

theorem logsOf_perm (page pageSize : ℤ) :
    logsOf matchesSearch rows now q page pageSize =
      logsOf matchesSearch rows' now q page pageSize := by
  unfold logsOf
  simp only [filter_andThen]
  split
  · exact andThen_congr (andThen_congr (sort_perm (h.filter _)))
  · exact sort_perm (h.filter _)

theorem devicesOf_perm :
    devicesOf rows now profileId retention = devicesOf rows' now profileId retention := by
  unfold devicesOf
  simp only [filter_andThen]
  refine congrArg _ (andThen_congr (group_perm (fun l l' hl => ?_) (h.filter _)))
  exact latest_perm (hl.map _)

theorem topOf_perm (matching : QueryLog → Bool) (tokens : QueryLog → List (WithBot String))
    (text : String → String) (n : ℕ) :
    topOf rows matching tokens text n = topOf rows' matching tokens text n := by
  unfold topOf
  simp only [filter_andThen]
  refine congrArg _ (andThen_congr ?_)
  rw [unwind_andThen, unwind_andThen]
  exact group_perm (fun l l' hl => hl.length_eq) ((h.filter _).flatMap_right _)

theorem coveredFromOf_perm (timespanHours : ℤ) :
    coveredFromOf rows now profileId retention timespanHours =
      coveredFromOf rows' now profileId retention timespanHours := by
  unfold coveredFromOf
  congr 1
  ext t
  have hperm :=
    (h.filter (inRead profileId (readFrom now retention timespanHours))).map QueryLog.timestamp
  rw [List.min?_eq_some_iff, List.min?_eq_some_iff, hperm.mem_iff]
  simp only [hperm.mem_iff]

end Order

/-- **Reads over the union**: each read gives what its query gives over one collection with all
rows. -/
theorem reads_eq_union (matchesSearch : String → String → Bool) (db : Database)
    (rows : List QueryLog) (hrows : rows.Perm db.rows) (now : ℤ) :
    (∀ (q : LogsQuery) (page pageSize : ℤ),
      getQueryLogs matchesSearch db now q page pageSize =
        logsOf matchesSearch rows now q page pageSize) ∧
    ∀ profileId retention : String,
      getQueryLogDevices db now profileId retention = devicesOf rows now profileId retention ∧
      ∀ timespanHours : ℤ,
        let since := readFrom now retention timespanHours
        (∀ (status : String) (n : ℕ),
          getQueryLogTopDomains db now profileId retention status timespanHours n =
          topOf rows (fun row => inRead profileId since row && row.status = status &&
            present row.domain)
            (fun row => [fieldKey row.domain]) id n) ∧
        (∀ n : ℕ, getQueryLogTopClients db now profileId retention timespanHours n =
          topOf rows (fun row => inRead profileId since row && present row.clientIp)
            (fun row => [fieldKey row.clientIp]) id n) ∧
        (∀ n : ℕ, getQueryLogTopBlocklists db now profileId retention timespanHours n =
          topOf rows (fun row => inRead profileId since row && row.status =
            queryLogStatusBlocked) tokensOf
            (fun text => trimPrefix text blocklistPrefix) n) ∧
        getQueryLogCoveredFrom db now profileId retention timespanHours =
          {coveredFromOf rows now profileId retention timespanHours} := by
  -- each read is its query over the stored rows, and these are a permutation
  refine ⟨fun q page pageSize => ?_, fun profileId retention =>
    ⟨?_, fun timespanHours => ⟨fun status n => ?_, fun n => ?_,
    fun n => ?_, ?_⟩⟩⟩
  · rw [getQueryLogs_eq, logsOf_perm hrows]
  · rw [getQueryLogDevices_eq, devicesOf_perm hrows]
  · rw [topOf_perm hrows]
    refine topGroup_eq fun row h => ?_
    rw [Bool.and_eq_true, Bool.and_eq_true] at h
    exact h.1.1
  · rw [topOf_perm hrows]
    refine topGroup_eq fun row h => ?_
    rw [Bool.and_eq_true] at h
    exact h.1
  · rw [getQueryLogTopBlocklists_eq, topOf_perm hrows]
  · rw [getQueryLogCoveredFrom_eq, coveredFromOf_perm hrows]

theorem reads_eq_union_two :
    let a : QueryLog := ⟨1, 5, "p", some "tv", "processed", [], "resolved", some "a.com", none⟩
    let b : QueryLog :=
      ⟨2, 5, "p", none, "blocked", ["blocklist: ads"], "blocked", some "b.com", none⟩
    let db : Database := fun c => match c with | .oneHour => [a] | .oneWeek => [b] | _ => []
    let q : LogsQuery := ⟨"p", "1d", "all", 0, "", "", "created"⟩
    [b, a].Perm db.rows ∧
      getQueryLogs (fun _ _ => true) db 5 q 1 10 = logsOf (fun _ _ => true) [b, a] 5 q 1 10 :=
  ⟨by decide, (reads_eq_union _ _ _ (by decide) 5).1 _ 1 10⟩

end Reads

end ModDNS.QueryLogs
