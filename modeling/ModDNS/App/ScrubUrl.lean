import ModDNS.App.ScrubRoutes
import ModDNS.Data.Folds

/-!
# What `scrubUrl` leaves

A URL by its pieces: what is before the first hash, the path before the first question mark, the
parameters of the query.

* `scrubUrl_eq`, `scrubBefore_eq`: what becomes of the pieces.
* `scrubUrl_twice`: to scrub twice is to scrub once.
* `scrubUrl_isSome`: when `scrubUrl` returns.
-/

namespace ModDNS.App.SentryPrivacy

open Data
    (led led_nil led_cons eq_led exists_first splitOn_led not_mem_led not_mem_intercalate
      not_mem_splitOn mem_of_piece
  takeWhile_cut dropWhile_cut mapM_eq_some_iff isSome_mapM)

section Split

variable {sep c : Char} {s₀ s url before path query pair k v res : Text} {ss : List Text}

theorem split2_eq (h : s.splitOn sep = s₀ :: ss) : split2 sep s = (s₀, ss.head?) := by
  obtain ⟨rfl, h₀, hss⟩ := eq_led h
  unfold split2
  rw [takeWhile_cut h₀, dropWhile_cut h₀]
  cases ss with
  | nil => rfl
  | cons s ss =>
    have hcut : (s ++ led sep ss).takeWhile (· ≠ sep) = s :=
      takeWhile_cut (hss s (List.mem_cons_self ..))
    rw [led_cons]
    exact congrArg (fun x => (s₀, some x)) hcut

theorem split2_plain (h : sep ∉ s) : split2 sep s = (s, none) :=
  split2_eq (List.splitOn_eq_singleton h)

theorem split2_fst_cut (h : sep ∉ k) : (split2 sep (k ++ sep :: v)).1 = k := by
  obtain ⟨first, rest, hv⟩ := exists_first sep v
  have hsplit : (k ++ sep :: v).splitOn sep = k :: first :: rest := by
    rw [List.splitOn_append_cons_self_of_not_mem h, hv]
  rw [split2_eq hsplit]

/-- A parameter is a name alone, or a name and a value. -/
theorem pair_cases (pair : Text) : '=' ∉ pair ∨ ∃ k v, pair = k ++ '=' :: v ∧ '=' ∉ k := by
  by_cases h : '=' ∈ pair
  · exact .inr (List.eq_append_cons_of_mem h)
  · exact .inl h

theorem scrubPair_plain (h : '=' ∉ pair) : scrubPair pair = some pair := by
  unfold scrubPair
  rw [split2_plain h]

theorem scrubPair_cut (h : '=' ∉ k) : scrubPair (k ++ '=' :: v) =
    (decodeURIComponent k).map fun name => if toLowerCase name ∈ ID_PARAMS then k ++ '=' :: FILTERED
      else k ++ '=' :: v := by
  obtain ⟨first, rest, hv⟩ := exists_first '=' v
  have hsplit : (k ++ '=' :: v).splitOn '=' = k :: first :: rest := by
    rw [List.splitOn_append_cons_self_of_not_mem h, hv]
  unfold scrubPair
  simp only [split2_eq hsplit, List.head?_cons]
  cases decodeURIComponent k <;> rfl

theorem scrubBefore_eq (h : before.splitOn '?' = path :: ss) :
    scrubBefore before = ((ss.take 1).mapM scrubQuery).map fun params =>
      cleanPath path ++ led '?' params := by
  unfold scrubBefore
  rw [split2_eq h]
  cases ss with
  | nil => simp
  | cons query ss =>
    simp only [List.head?_cons, List.take_succ_cons, List.take_zero, List.mapM_cons, List.mapM_nil]
    cases scrubQuery query <;> simp

theorem scrubUrl_eq (h : url.splitOn '#' = before :: ss) :
    scrubUrl url = (scrubBefore before).map fun res => res ++ led '#' (ss.take 1) := by
  unfold scrubUrl
  split
  · next hempty =>
    rw [hempty] at h
    obtain ⟨rfl, rfl⟩ := List.cons.inj h
    rw [hempty]
    rfl
  · rw [split2_eq h]
    cases ss with
    | nil => simp
    | cons hash ss => simp

end Split

section Twice

variable {c : Char} {s url before path query pair res : Text}

/-- A character that is in nothing that `scrubUrl` writes. -/
def Foreign (c : Char) : Prop := (∀ p : Route, c ∉ p.label) ∧ c ∉ FILTERED ∧ c ≠ '=' ∧ c ≠ '/'

theorem foreign_hash : Foreign '#' := by
  refine ⟨fun p => ?_, by decide, by decide, by decide⟩
  cases p <;> decide

theorem foreign_question : Foreign '?' := by
  refine ⟨fun p => ?_, by decide, by decide, by decide⟩
  cases p <;> decide

theorem foreign_amp : Foreign '&' := by
  refine ⟨fun p => ?_, by decide, by decide, by decide⟩
  cases p <;> decide

/-- What a parameter becomes, if the name decodes: it stays as it is, or its value is filtered. -/
theorem scrubPair_result (h : scrubPair pair = some res) :
    res = pair ∨ ∃ k v, pair = k ++ '=' :: v ∧ '=' ∉ k ∧ res = k ++ '=' :: FILTERED := by
  rcases pair_cases pair with hplain | ⟨k, v, rfl, hk⟩
  · rw [scrubPair_plain hplain] at h
    exact .inl (Option.some.inj h).symm
  · rw [scrubPair_cut hk] at h
    obtain ⟨name, -, hres⟩ := Option.map_eq_some_iff.1 h
    split at hres
    · exact .inr ⟨k, v, rfl, hk, hres.symm⟩
    · exact .inl hres.symm

theorem scrubPair_twice (h : scrubPair pair = some res) : scrubPair res = some res := by
  rcases pair_cases pair with hplain | ⟨k, v, rfl, hk⟩
  · rw [scrubPair_plain hplain] at h
    obtain rfl := Option.some.inj h
    exact scrubPair_plain hplain
  · rw [scrubPair_cut hk] at h
    obtain ⟨name, hname, rfl⟩ := Option.map_eq_some_iff.1 h
    by_cases hid : toLowerCase name ∈ ID_PARAMS
    · rw [if_pos hid, scrubPair_cut hk, hname, Option.map_some, if_pos hid]
    · rw [if_neg hid, scrubPair_cut hk, hname, Option.map_some, if_neg hid]

theorem scrubPair_foreign (hc : Foreign c) (h : scrubPair pair = some res) (hpair : c ∉ pair) :
    c ∉ res := by
  rcases scrubPair_result h with rfl | ⟨k, v, rfl, -, rfl⟩
  · exact hpair
  · intro hmem
    rcases List.mem_append.1 hmem with hmem | hmem
    · exact hpair (List.mem_append_left _ hmem)
    · rcases List.mem_cons.1 hmem with heq | hmem
      · exact hc.2.2.1 heq
      · exact hc.2.1 hmem

theorem scrubQuery_eq_some : scrubQuery query = some res ↔
    ∃ params, (query.splitOn '&').map scrubPair = params.map some ∧
      res = ['&'].intercalate params := by
  unfold scrubQuery
  constructor
  · intro h
    obtain ⟨params, hparams, hres⟩ := Option.bind_eq_some_iff.1 h
    exact ⟨params, mapM_eq_some_iff.1 hparams, (Option.some.inj hres).symm⟩
  · rintro ⟨params, hparams, rfl⟩
    rw [mapM_eq_some_iff.2 hparams]
    rfl

/-- A parameter that is left comes from one of the query. -/
theorem mem_params {pairs params : List Text} {param : Text}
    (h : pairs.map scrubPair = params.map some) (hmem : param ∈ params) :
    ∃ pair ∈ pairs, scrubPair pair = some param := by
  have hsome : some param ∈ pairs.map scrubPair := by
    rw [h]
    exact List.mem_map_of_mem hmem
  exact List.mem_map.1 hsome

theorem scrubQuery_foreign (hc : Foreign c) (hamp : c ≠ '&') (h : scrubQuery query = some res)
    (hquery : c ∉ query) :
    c ∉ res := by
  obtain ⟨params, hparams, rfl⟩ := scrubQuery_eq_some.1 h
  refine not_mem_intercalate hamp fun param hmem => ?_
  obtain ⟨pair, hpair, hres⟩ := mem_params hparams hmem
  exact scrubPair_foreign hc hres fun h => hquery (mem_of_piece hpair h)

theorem scrubQuery_twice (h : scrubQuery query = some res) : scrubQuery res = some res := by
  obtain ⟨params, hparams, rfl⟩ := scrubQuery_eq_some.1 h
  have hfree : ∀ param ∈ params, '&' ∉ param := by
    intro param hmem
    obtain ⟨pair, hpair, hres⟩ := mem_params hparams hmem
    exact scrubPair_foreign foreign_amp hres (not_mem_splitOn hpair)
  have hne : params ≠ [] := by
    rintro rfl
    exact List.splitOn_ne_nil '&' query (List.map_eq_nil_iff.1 hparams)
  refine scrubQuery_eq_some.2 ⟨params, ?_, rfl⟩
  rw [List.splitOn_intercalate '&' hfree hne]
  refine List.map_congr_left fun param hmem => ?_
  obtain ⟨pair, -, hres⟩ := mem_params hparams hmem
  exact scrubPair_twice hres

theorem cleanPath_foreign (hc : Foreign c) (hpath : c ∉ path) : c ∉ cleanPath path := by
  obtain ⟨s, ss, hsplit⟩ := exists_first '/' path
  have hfree : ∀ t ∈ s :: ss, c ∉ t := fun t ht h => hpath (mem_of_piece (hsplit ▸ ht) h)
  rw [List.forall_mem_cons] at hfree
  rw [cleanPath_eq hsplit, List.mem_append, not_or, not_mem_led hc.2.2.2]
  exact ⟨hfree.1, mem_run hc.1 hfree.2⟩

theorem cleanPath_twice : cleanPath (cleanPath path) = cleanPath path := by
  obtain ⟨s, ss, hsplit⟩ := exists_first '/' path
  obtain ⟨-, hs, hss⟩ := eq_led hsplit
  have hagain : (s ++ led '/' (run none ss)).splitOn '/' = s :: run none ss :=
    splitOn_led hs (mem_run (fun _ => Route.label_slash) hss)
  rw [cleanPath_eq hsplit, cleanPath_eq hagain, run_run (.inl rfl)]

/-- What is left of the queries, of which there is one at most. -/
theorem mem_queries {queries params : List Text}
    (h : (queries.take 1).mapM scrubQuery = some params) :
    params.take 1 = params ∧ ∀ param ∈ params, ∃ query ∈ queries, scrubQuery query =
    some param := by
  cases queries with
  | nil =>
    obtain rfl : [] = params := Option.some.inj h
    exact ⟨rfl, fun _ h => absurd h List.not_mem_nil⟩
  | cons query queries =>
    have hmap : [scrubQuery query] = params.map some := mapM_eq_some_iff.1 h
    obtain ⟨param, rfl, hparam⟩ := List.map_eq_singleton_iff.1 hmap.symm
    refine ⟨rfl, fun param' hmem => ?_⟩
    rw [List.mem_singleton.1 hmem]
    exact ⟨query, List.mem_cons_self .., hparam.symm⟩

theorem scrubBefore_foreign (hc : Foreign c) (hamp : c ≠ '&') (hquestion : c ≠ '?')
    (h : scrubBefore before = some res) (hbefore : c ∉ before) : c ∉ res := by
  obtain ⟨path, queries, hsplit⟩ := exists_first '?' before
  have hfree : ∀ t ∈ path :: queries, c ∉ t := fun t ht h => hbefore (mem_of_piece (hsplit ▸ ht) h)
  rw [List.forall_mem_cons] at hfree
  rw [scrubBefore_eq hsplit] at h
  obtain ⟨params, hparams, rfl⟩ := Option.map_eq_some_iff.1 h
  rw [List.mem_append, not_or, not_mem_led hquestion]
  refine ⟨cleanPath_foreign hc hfree.1, fun param hmem => ?_⟩
  obtain ⟨query, hquery, hres⟩ := (mem_queries hparams).2 param hmem
  exact scrubQuery_foreign hc hamp hres (hfree.2 query hquery)

theorem scrubBefore_twice (h : scrubBefore before = some res) : scrubBefore res = some res := by
  obtain ⟨path, queries, hsplit⟩ := exists_first '?' before
  obtain ⟨-, hpath, hqueries⟩ := eq_led hsplit
  rw [scrubBefore_eq hsplit] at h
  obtain ⟨params, hparams, rfl⟩ := Option.map_eq_some_iff.1 h
  obtain ⟨hone, hmem⟩ := mem_queries hparams
  have hfree : ∀ param ∈ params, '?' ∉ param := by
    intro param hparam
    obtain ⟨query, hquery, hres⟩ := hmem param hparam
    exact scrubQuery_foreign foreign_question (by decide) hres (hqueries query hquery)
  have htwice : params.mapM scrubQuery = some params := by
    rw [mapM_eq_some_iff]
    refine List.map_congr_left fun param hparam => ?_
    obtain ⟨query, -, hres⟩ := hmem param hparam
    exact scrubQuery_twice hres
  have hagain : (cleanPath path ++ led '?' params).splitOn '?' = cleanPath path :: params :=
    splitOn_led (cleanPath_foreign foreign_question hpath) hfree
  rw [scrubBefore_eq hagain, hone, htwice, Option.map_some, cleanPath_twice]

/-- **To scrub twice** is to scrub once. -/
theorem scrubUrl_twice (h : scrubUrl url = some res) : scrubUrl res = some res := by
  obtain ⟨before, hashes, hsplit⟩ := exists_first '#' url
  obtain ⟨-, hbefore, hhashes⟩ := eq_led hsplit
  rw [scrubUrl_eq hsplit] at h
  obtain ⟨left, hleft, rfl⟩ := Option.map_eq_some_iff.1 h
  have hfree : ∀ hash ∈ hashes.take 1, '#' ∉ hash := fun hash hmem =>
    hhashes hash (List.mem_of_mem_take hmem)
  have hagain : (left ++ led '#' (hashes.take 1)).splitOn '#' = left :: hashes.take 1 :=
    splitOn_led (scrubBefore_foreign foreign_hash (by decide) (by decide) hleft hbefore) hfree
  rw [scrubUrl_eq hagain, scrubBefore_twice hleft, Option.map_some, List.take_take, Nat.min_self]

end Twice

section Returns

variable {url before path query pair : Text} {ss : List Text}

/-- The parameters of a URL whose names are decoded have names that decode. -/
def Decodes (url : Text) : Prop :=
  ∀ query ∈ (split2 '?' (split2 '#' url).1).2, ∀ pair ∈ query.splitOn '&',
    '=' ∈ pair → (decodeURIComponent (split2 '=' pair).1).isSome = true

instance : Decidable (Decodes url) :=
  inferInstanceAs (Decidable (∀ query ∈ (split2 '?' (split2 '#' url).1).2, _))

theorem isSome_scrubPair : (scrubPair pair).isSome = true ↔
    ('=' ∈ pair → (decodeURIComponent (split2 '=' pair).1).isSome = true) := by
  rcases pair_cases pair with hplain | ⟨k, v, rfl, hk⟩
  · rw [scrubPair_plain hplain]
    exact ⟨fun _ h => absurd h hplain, fun _ => rfl⟩
  · rw [scrubPair_cut hk, Option.isSome_map, split2_fst_cut hk]
    exact ⟨fun h _ => h, fun h => h (List.mem_append_right _ (List.mem_cons_self ..))⟩

theorem isSome_scrubQuery :
    (scrubQuery query).isSome = true ↔ ∀ pair ∈ query.splitOn '&',
    (scrubPair pair).isSome = true := by
  rw [← isSome_mapM]
  unfold scrubQuery
  cases (query.splitOn '&').mapM scrubPair <;> simp

/-- **When `scrubUrl` returns.** -/
theorem scrubUrl_isSome : (scrubUrl url).isSome = true ↔ Decodes url := by
  obtain ⟨before, hashes, hsplit⟩ := exists_first '#' url
  obtain ⟨path, queries, hbefore⟩ := exists_first '?' before
  unfold Decodes
  rw [scrubUrl_eq hsplit, Option.isSome_map, scrubBefore_eq hbefore, Option.isSome_map, isSome_mapM,
    split2_eq hsplit,
    split2_eq hbefore]
  cases queries with
  | nil => simp
  | cons query queries => simp [isSome_scrubQuery, isSome_scrubPair]

end Returns

end ModDNS.App.SentryPrivacy
