import ModDNS.QueryLogs.Union

/-!
# Paging through the query logs

Each request sorts the rows again, and rows with the same sort key may come in another order than in
the request before.

* `mem_getQueryLogs`: the rows of a page.
* `complete_of_separates`: with no page boundary between rows with the same key, the pages have
  every row once.
* `complete_iff`: only then.
-/

namespace ModDNS.QueryLogs

open Data Mongo Mongo.Pipeline

variable {matchesSearch : String → String → Bool} {db : Database} {q : LogsQuery} {now : ℕ → ℤ}
  {pageSize : ℤ}

/-- The rows that a request matches. -/
def matching (matchesSearch : String → String → Bool) (db : Database) (q : LogsQuery) (now : ℤ) :
    List QueryLog :=
  db.rows.filter (matchFilter matchesSearch q (readFrom now q.retention q.timespan))

/-- The rows of the profile that are in the read window are the same at each request. -/
def StayInside (db : Database) (q : LogsQuery) (now : ℕ → ℤ) : Prop := ∀ k, ∀ row ∈ db.rows,
  inRead q.profileId (readFrom (now k) q.retention q.timespan) row = inRead q.profileId
    (readFrom (now 0) q.retention q.timespan) row

/-- Whatever the requests for the pages 1, 2, 3, … answer: they come to an empty page, and the pages
before it have every matching row exactly once. -/
def Complete (matchesSearch : String → String → Bool) (db : Database) (q : LogsQuery) (now : ℕ → ℤ)
    (pageSize : ℤ) : Prop :=
  ∀ out : ℕ → List QueryLog, (∀ k, out k ∈ getQueryLogs matchesSearch db (now k) q
    (k + 1) pageSize) →
    ∃ n, out n = [] ∧ (∀ k < n, out k ≠ []) ∧ ((List.range n).map out).flatten.Perm
    (matching matchesSearch db q (now 0))

/-- No page boundary is between two rows with the same sort key. -/
def SeparatedPages (matchesSearch : String → String → Bool) (db : Database) (q : LogsQuery)
    (now : ℤ) (pageSize : ℤ) : Prop :=
  ∀ s, Sorts (buildSortSpec q.sortBy) (matching matchesSearch db q now) s →
    ∀ k : ℕ, Separates (buildSortSpec q.sortBy) s (k * pageSize.toNat)

theorem matching_stays (h : StayInside db q now) (k : ℕ) :
    matching matchesSearch db q (now k) = matching matchesSearch db q (now 0) := by
  unfold matching
  refine List.filter_congr fun row hrow => ?_
  unfold matchFilter
  rw [h k row hrow]

theorem mem_getQueryLogs {now : ℤ} {k : ℕ} {o : List QueryLog} (hsize : 0 < pageSize) :
    o ∈ getQueryLogs matchesSearch db now q (k + 1) pageSize ↔
      ∃ s, Sorts (buildSortSpec q.sortBy) (matching matchesSearch db q now) s ∧
        o = (s.drop (k * pageSize.toNat)).take pageSize.toNat := by
  have hskip : ((max ((k : ℤ) + 1) 1 - 1) * pageSize).toNat = k * pageSize.toNat := by
    rw [max_eq_left (by omega), Int.add_sub_cancel, Int.toNat_mul (by omega) (by omega),
      Int.toNat_natCast]
  rw [getQueryLogs_eq]
  unfold logsOf
  simp only [filter_andThen, if_pos hsize, hskip]
  exact mem_page

section Answers

variable {out : ℕ → List QueryLog} {rows : List QueryLog} {n : ℕ}

/-- Each page is cut out of some order of the rows. -/
def Answers (q : LogsQuery) (rows : List QueryLog) (n : ℕ) (out : ℕ → List QueryLog) : Prop :=
  ∀ k, ∃ s, Sorts (buildSortSpec q.sortBy) rows s ∧ out k = (s.drop (k * n)).take n

theorem Answers.eq_nil_iff (h : Answers q rows n out) (hn : 0 < n) (k : ℕ) :
    out k = [] ↔ rows.length ≤ k * n := by
  obtain ⟨s, hs, hout⟩ := h k
  rw [hout, List.take_eq_nil_iff, List.drop_eq_nil_iff, hs.1.length_eq]
  omega

/-- There is a first empty page. -/
theorem Answers.exists_last (h : Answers q rows n out) (hn : 0 < n) :
    ∃ m, out m = [] ∧ (∀ k < m, out k ≠ []) ∧ rows.length ≤ m * n := by
  classical
  have hexists : ∃ m, out m = [] :=
    ⟨rows.length, (h.eq_nil_iff hn _).2 (Nat.le_mul_of_pos_right _ hn)⟩
  refine ⟨Nat.find hexists, Nat.find_spec hexists, fun k hk => Nat.find_min hexists hk, ?_⟩
  exact (h.eq_nil_iff hn _).1 (Nat.find_spec hexists)

/-- Between two boundaries that separate, every order has the same rows. -/
theorem Answers.page_perm (h : Answers q rows n out) {s : List QueryLog}
    (hs : Sorts (buildSortSpec q.sortBy) rows s)
    (hsep : ∀ k : ℕ, Separates (buildSortSpec q.sortBy) s (k * n)) (k : ℕ) :
    (out k).Perm ((s.drop (k * n)).take n) := by
  obtain ⟨s', hs', hout⟩ := h k
  have hfirst := hs.take_perm hs' (hsep k)
  have hnext := hs.take_perm hs' (hsep (k + 1))
  rw [Nat.succ_mul, List.take_add, List.take_add] at hnext
  rw [hout]
  exact (List.perm_append_left_iff _).1 (hnext.symm.trans (hfirst.append_right _))

theorem Answers.flatten_perm (h : Answers q rows n out) (hn : 0 < n) {s : List QueryLog}
    (hs : Sorts (buildSortSpec q.sortBy) rows s)
    (hsep : ∀ k : ℕ, Separates (buildSortSpec q.sortBy) s (k * n)) :
    ∃ m, out m = [] ∧ (∀ k < m, out k ≠ []) ∧ ((List.range m).map out).flatten.Perm rows := by
  obtain ⟨m, hlast, hnot, hlength⟩ := h.exists_last hn
  refine ⟨m, hlast, hnot, ?_⟩
  have hpages : ((List.range m).map out).flatten.Perm
      ((List.range m).map fun k => (s.drop (k * n)).take n).flatten := by
    induction List.range m with
    | nil => exact List.Perm.refl _
    | cons k ks ih =>
      rw [List.map_cons, List.flatten_cons, List.map_cons, List.flatten_cons]
      exact (h.page_perm hs hsep k).append ih
  rw [flatten_pages, List.take_of_length_le (hs.1.length_eq ▸ hlength)] at hpages
  exact hpages.trans hs.1

/-- The pages up to a boundary from one order, those behind it from another. -/
theorem mixed_answers {s s' : List QueryLog} (hs : Sorts (buildSortSpec q.sortBy) rows s)
    (hs' : Sorts (buildSortSpec q.sortBy) rows s') (n k : ℕ) :
    Answers q rows n fun j => if j < k then (s'.drop (j * n)).take n
    else (s.drop (j * n)).take n := by
  intro j
  by_cases hj : j < k
  · exact ⟨s', hs', if_pos hj⟩
  · exact ⟨s, hs, if_neg hj⟩

theorem flatten_mixed {s s' : List QueryLog} (n k m : ℕ) :
    ((List.range (k + m)).map fun j => if j < k then (s'.drop (j * n)).take n
      else (s.drop (j * n)).take n).flatten =
      s'.take (k * n) ++ (s.drop (k * n)).take (m * n) := by
  induction m with
  | zero =>
    rw [Nat.zero_mul, List.take_zero, List.append_nil, ← flatten_pages, Nat.add_zero]
    exact congrArg _ (List.map_congr_left fun j hj => if_pos (List.mem_range.1 hj))
  | succ m ih =>
    rw [← Nat.add_assoc, List.range_succ, List.map_append, List.flatten_append, ih, Nat.succ_mul,
      List.take_add,
      List.drop_drop, List.append_assoc, List.map_singleton, List.flatten_singleton,
      if_neg (by omega), Nat.add_mul]

end Answers

/-- **No boundary between rows with the same key**: then the pages have every row once. -/
theorem complete_of_separates (hsize : 0 < pageSize) (hstay : StayInside db q now)
    (h : SeparatedPages matchesSearch db q (now 0) pageSize) :
    Complete matchesSearch db q now pageSize := by
  intro out hout
  have hanswers : Answers q (matching matchesSearch db q (now 0)) pageSize.toNat out := by
    intro k
    obtain ⟨s, hs, hpage⟩ := (mem_getQueryLogs hsize).1 (hout k)
    rw [matching_stays hstay] at hs
    exact ⟨s, hs, hpage⟩
  obtain ⟨s, hs⟩ := exists_sorts (buildSortSpec q.sortBy) (matching matchesSearch db q (now 0))
  exact hanswers.flatten_perm (by omega) hs (h s hs)

/-- Two rows with the same key on the two sides of a boundary: a row can be on both. -/
theorem separates_of_complete (hsize : 0 < pageSize) (hstay : StayInside db q now)
    (hnodup : db.rows.Nodup) (h : Complete matchesSearch db q now pageSize) :
    SeparatedPages matchesSearch db q (now 0) pageSize := by
  intro s hs k a ha b hb hab
  obtain ⟨s', hs', hb'⟩ := hs.exists_swap ha hb hab
  have hanswers := mixed_answers hs hs' pageSize.toNat k
  obtain ⟨m, hlast, -, hperm⟩ := h _ fun j => (mem_getQueryLogs hsize).2 <| by
    rw [matching_stays hstay]
    exact hanswers j
  have hlength := (hanswers.eq_nil_iff (by omega) m).1 hlast
  have hlong : k * pageSize.toNat < s.length := by
    rw [← not_le]
    intro hle
    rw [List.drop_eq_nil_iff.2 hle] at hb
    exact List.not_mem_nil hb
  obtain ⟨m, rfl⟩ : ∃ m', m = k + m' := by
    have hlt : k * pageSize.toNat < m * pageSize.toNat := by
      rw [hs.1.length_eq] at hlong
      omega
    exact Nat.exists_eq_add_of_le (Nat.lt_of_mul_lt_mul_right hlt).le
  have hall : (s.drop (k * pageSize.toNat)).take (m * pageSize.toNat) = s.drop
      (k * pageSize.toNat) := by
    refine List.take_of_length_le ?_
    rw [List.length_drop, hs.1.length_eq]
    rw [Nat.add_mul] at hlength
    omega
  rw [flatten_mixed, hall] at hperm
  have hboth := hperm.nodup_iff.2 (hnodup.filter _)
  exact (List.nodup_append.1 hboth).2.2 b hb' b hb rfl

/-- **Paging**: the pages have every matching row exactly once, whatever the order of rows with the
same key in each request, if and only if no page boundary is between two of them. -/
theorem complete_iff (matchesSearch : String → String → Bool) (db : Database) (q : LogsQuery)
    (now : ℕ → ℤ) (pageSize : ℤ) (hsize : 0 < pageSize) (hstay : StayInside db q now)
    (hnodup : db.rows.Nodup) :
    Complete matchesSearch db q now pageSize ↔ SeparatedPages matchesSearch db q (now 0) pageSize :=
  ⟨separates_of_complete hsize hstay hnodup, complete_of_separates hsize hstay⟩

/-- Twelve rows, of which two at a time are of one instant. -/
def pairs : Database := fun c => match c with
  | .oneHour =>
    (List.range 12).map fun i =>
      ⟨i, 10 - i / 2, "p", none, "processed", [], "resolved", some "a.com", none⟩
  | _ => []

theorem separated_pairs :
    SeparatedPages (fun _ _ => true) pairs ⟨"p", "1h", "all", 0, "", "", "created"⟩ 11 10 := by
  have hmatching : matching (fun _ _ => true) pairs ⟨"p", "1h", "all", 0, "", "", "created"⟩ 11 =
      pairs .oneHour := by
    decide
  have hsorts : Sorts (buildSortSpec "created") (pairs .oneHour) (pairs .oneHour) :=
    ⟨List.Perm.refl _, by decide⟩
  intro s hs k
  rw [hmatching] at hs
  refine hsorts.separates hs ?_
  -- there is a boundary inside the rows after the first page only
  rcases k with _ | _ | k
  · intro a ha
    rw [Nat.zero_mul] at ha
    exact absurd ha List.not_mem_nil
  · have hseparates : ∀ a ∈ (pairs .oneHour).take 10, ∀ b ∈ (pairs .oneHour).drop 10,
        buildSortSpec "created" a ≠ buildSortSpec "created" b := by decide
    exact hseparates
  · intro a _ b hb
    have hend : (pairs .oneHour).drop ((k + 2) * (10 : ℤ).toNat) = [] := by
      rw [List.drop_eq_nil_iff, show (pairs .oneHour).length = 12 from rfl,
        show (10 : ℤ).toNat = 10 from rfl]
      omega
    rw [hend] at hb
    cases hb

/-- Two pages have the twelve rows. -/
theorem complete_iff_pairs :
    Complete (fun _ _ => true) pairs ⟨"p", "1h", "all", 0, "", "", "created"⟩ (fun _ => 11) 10 :=
  (complete_iff _ _ _ (fun _ => 11) _ (by decide) (fun _ _ _ => rfl) (by decide)).2 separated_pairs

/-- Eleven rows of one instant. -/
def burst : Database := fun c => match c with
  | .oneHour =>
    (List.range 11).map fun i => ⟨i, 5, "p", none, "processed", [], "resolved", some "a.com", none⟩
  | _ => []

/-- Ten of the rows are on the first page, and the row on the second page can be one of them. -/
theorem burst_incomplete :
    ¬ ∀ (matchesSearch : String → String → Bool) (db : Database) (q : LogsQuery) (now : ℕ → ℤ)
      (pageSize : ℤ), 0 < pageSize → StayInside db q now → db.rows.Nodup →
        Complete matchesSearch db q now pageSize := by
  intro h
  have hstay : StayInside burst ⟨"p", "1h", "all", 0, "", "", "created"⟩ (fun _ => 5) :=
    fun _ _ _ => rfl
  have hcomplete :=
    h (fun _ _ => true) burst ⟨"p", "1h", "all", 0, "", "", "created"⟩ (fun _ => 5) 10
      (by decide) hstay (by decide)
  have hsep := separates_of_complete (by decide) hstay (by decide) hcomplete
  have hmatching : matching (fun _ _ => true) burst ⟨"p", "1h", "all", 0, "", "", "created"⟩ 5 =
      burst .oneHour := by
    decide
  have hkeys : ∀ row ∈ burst .oneHour, buildSortSpec "created" row = toLex
      (⊥, OrderDual.toDual 5) := by
    intro row hrow
    obtain ⟨i, -, rfl⟩ := List.mem_map.1 hrow
    rfl
  have hsorts : Sorts (buildSortSpec "created") (burst .oneHour) (burst .oneHour) := by
    refine ⟨List.Perm.refl _, List.pairwise_of_forall_mem_list fun a ha b hb => ?_⟩
    rw [hkeys a ha, hkeys b hb]
  have hfirst : ∃ a, a ∈ (burst .oneHour).take (1 * (10 : ℤ).toNat) := ⟨_, List.mem_cons_self⟩
  have hlast : ∃ b, b ∈ (burst .oneHour).drop (1 * (10 : ℤ).toNat) := ⟨_, List.mem_cons_self⟩
  obtain ⟨a, ha⟩ := hfirst
  obtain ⟨b, hb⟩ := hlast
  refine hsep (burst .oneHour) (hmatching.symm ▸ hsorts) 1 a ha b hb ?_
  exact (hkeys a (List.mem_of_mem_take ha)).trans (hkeys b (List.mem_of_mem_drop hb)).symm

end ModDNS.QueryLogs
