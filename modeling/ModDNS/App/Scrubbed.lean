import ModDNS.App.ScrubUrl

/-!
# What a report tells of an identifier

Two texts that differ in an identifier, where an identifier is expected, and what `scrubUrl` leaves
of them.

* `scrubUrl_hides`: the places whose identifier is not in what is left.
-/

namespace ModDNS.App.SentryPrivacy

open Data
    (led_nil led_inj eq_led exists_first exists_last splitOn_between intercalate_middle ne_sep
      mapM_eq_some_iff)

section Places

/-- Not empty, and without a character that ends a segment or a value. -/
def IsIdentifier (id : Text) : Prop := id ≠ [] ∧ ∀ c ∈ ['/', '?', '#', '&', '='], c ∉ id

instance {id : Text} : Decidable (IsIdentifier id) :=
  have : Decidable (∀ c ∈ ['/', '?', '#', '&', '='], c ∉ id) := List.decidableBAll _ _
  inferInstanceAs (Decidable (id ≠ [] ∧ ∀ c ∈ ['/', '?', '#', '&', '='], c ∉ id))

/-- The texts that an identifier follows, with or without a hash in them. -/
inductive Place : Text → Prop
  | afterWord (start word : Text) (r : Route) (h : toLowerCase word = r.word) : Place
      (start ++ '/' :: (word ++ ['/']))
  | device (start word profile : Text) (h : toLowerCase word = Route.dnsQuery.word)
      (hprofile : IsIdentifier profile) :
      Place (start ++ '/' :: (word ++ '/' :: (profile ++ ['/'])))
  | value (start params k name : Text) (hparams : params = [] ∨ ∃ others, params = others ++ ['&'])
      (hk : '=' ∉ k ∧ '&' ∉ k)
      (hname : decodeURIComponent k = some name) (hid : toLowerCase name ∈ ID_PARAMS) :
      Place (start ++ '?' :: (params ++ (k ++ ['='])))

variable {pre : Text}

theorem Place.ends_slash (h : Place pre) (hquery : '?' ∉ pre) : ∃ start, pre = start ++ ['/'] := by
  cases h with
  | afterWord start word r _ => exact ⟨start ++ '/' :: word, by simp⟩
  | device start word profile _ _ => exact ⟨start ++ '/' :: (word ++ '/' :: profile), by simp⟩
  | value start params k name _ _ _ _ =>
    exact absurd (List.mem_append_right _ (List.mem_cons_self ..)) hquery

end Places

section Hides

variable {pre id id' post query pair cur before path k v r res res' : Text} {q : Option Route}

/-- The route that is in force after a path that ends with a slash. -/
def governs (path : Text) : Option Route := state none (path.splitOn '/').tail.dropLast

/-- The identifier after a path is replaced up to its first white space, and what is after that does
not tell. If the segment that follows starts with an identifier, that stays or is labelled alike
after either one: they are the words of earlier routes with one label, or neither is such a word, or
the segment has the label already. -/
def InRoute (path id id' rest : Text) : Prop :=
  ∃ q, governs path = some q ∧ starts id = true ∧ starts id' = true ∧
    id.dropWhile inSegment = id'.dropWhile inSegment ∧
    ∀ s ∈ (split2 '/' rest).2, starts s = true →
      (labelAfter q (id ++ (split2 '/' rest).1)).getD (s.takeWhile inSegment) =
        (labelAfter q (id' ++ (split2 '/' rest).1)).getD (s.takeWhile inSegment)

/-- Before the fragment, the identifier is in a path whose routes replace it, in the value of a
parameter that names one, or after a second question mark. -/
def HiddenBefore (before id id' rest : Text) : Prop :=
  match before.splitOn '?' with
  | [path] => InRoute path id id' (split2 '?' rest).1
  | [_, query] => namesId ((query.splitOn '&').getLastD []) = true
  | _ => True

/-- The identifier is before the fragment and hidden there, or after a second hash. -/
def Hidden (pre id id' post : Text) : Prop :=
  match pre.splitOn '#' with
  | [before] => HiddenBefore before id id' (split2 '#' post).1
  | [_, _] => False
  | _ => True

theorem namesId_plain (h : '=' ∉ pair) : namesId pair = false := by
  unfold namesId
  rw [split2_plain h]
  rfl

theorem namesId_cut (h : '=' ∉ k) :
    namesId (k ++ '=' :: v) = (decodeURIComponent k).any fun name =>
      toLowerCase name ∈ ID_PARAMS := by
  obtain ⟨first, rest, hv⟩ := exists_first '=' v
  have hsplit : (k ++ '=' :: v).splitOn '=' = k :: first :: rest := by
    rw [List.splitOn_append_cons_self_of_not_mem h, hv]
  unfold namesId
  rw [split2_eq hsplit]
  rfl

/-- The name of a parameter stays. -/
theorem scrubPair_name (h : scrubPair pair = some res) :
    res.takeWhile (· ≠ '=') = pair.takeWhile (· ≠ '=') := by
  rcases scrubPair_result h with rfl | ⟨k, v, rfl, hk, rfl⟩
  · rfl
  · have hcut : ∀ w : Text, (k ++ '=' :: w).takeWhile (· ≠ '=') = k := by
      intro w
      rw [List.takeWhile_append_of_pos (ne_sep hk)]
      simp
    rw [hcut, hcut]

/-- An identifier in a parameter is hidden in the value of a parameter that names one, and nowhere
else. -/
theorem scrubPair_hides (hid : '=' ∉ id) (hid' : '=' ∉ id') (hne : id ≠ id')
    (h : scrubPair (cur ++ (id ++ r)) = some res) (h' : scrubPair (cur ++ (id' ++ r)) = some res') :
    res = res' ↔ namesId cur = true := by
  rcases pair_cases cur with hplain | ⟨k, v, rfl, hk⟩
  · rw [namesId_plain hplain]
    refine ⟨fun heq => absurd ?_ hne, fun h => absurd h Bool.false_ne_true⟩
    have hname := scrubPair_name h
    rw [heq, scrubPair_name h', List.takeWhile_append_of_pos (ne_sep hplain),
      List.takeWhile_append_of_pos (ne_sep hplain),
      List.takeWhile_append_of_pos (ne_sep hid), List.takeWhile_append_of_pos (ne_sep hid')]
      at hname
    exact (List.append_cancel_right (List.append_cancel_left hname)).symm
  · rw [List.append_assoc, List.cons_append, scrubPair_cut hk] at h h'
    rw [namesId_cut hk]
    obtain ⟨name, hname, rfl⟩ := Option.map_eq_some_iff.1 h
    obtain ⟨name', hname', rfl⟩ := Option.map_eq_some_iff.1 h'
    obtain rfl : name = name' := Option.some.inj (hname.symm.trans hname')
    rw [hname, Option.any_some, decide_eq_true_iff]
    by_cases hparam : toLowerCase name ∈ ID_PARAMS
    · rw [if_pos hparam, if_pos hparam]
      exact ⟨fun _ => hparam, fun _ => rfl⟩
    · rw [if_neg hparam, if_neg hparam]
      refine ⟨fun heq => absurd ?_ hne, fun h => absurd h hparam⟩
      have hvalue := (List.cons.inj (List.append_cancel_left heq)).2
      exact List.append_cancel_right (List.append_cancel_left hvalue)

/-- What becomes of the parameter between others. -/
theorem params_middle {a b params : List Text} {pair : Text}
    (h : (a ++ pair :: b).map scrubPair = params.map some) :
    ∃ a' param b', params = a' ++ param :: b' ∧ a.map scrubPair = a'.map some ∧
    scrubPair pair = some param ∧
      b.map scrubPair = b'.map some := by
  rw [List.map_append, List.map_cons] at h
  obtain ⟨a', rest, rfl, ha, hrest⟩ := List.map_eq_append_iff.1 h.symm
  obtain ⟨param, b', rfl, hparam, hb⟩ := List.map_eq_cons_iff.1 hrest
  exact ⟨a', param, b', rfl, ha.symm, hparam.symm, hb.symm⟩

theorem scrubQuery_hides (hid : IsIdentifier id) (hid' : IsIdentifier id') (hne : id ≠ id')
    (h : scrubQuery (query ++ (id ++ r)) = some res)
    (h' : scrubQuery (query ++ (id' ++ r)) = some res') :
    res = res' ↔ namesId ((query.splitOn '&').getLastD []) = true := by
  obtain ⟨others, cur, hcur⟩ := exists_last '&' query
  obtain ⟨first, after, hafter⟩ := exists_first '&' r
  have hfree : ∀ {x}, IsIdentifier x → '&' ∉ x ∧ '=' ∉ x := fun hx =>
    ⟨hx.2 '&' (by decide), hx.2 '=' (by decide)⟩
  obtain ⟨params, hparams, rfl⟩ := scrubQuery_eq_some.1 h
  obtain ⟨params', hparams', rfl⟩ := scrubQuery_eq_some.1 h'
  rw [splitOn_between hcur (hfree hid).1 hafter] at hparams
  rw [splitOn_between hcur (hfree hid').1 hafter] at hparams'
  obtain ⟨a, param, b, rfl, ha, hparam, hb⟩ := params_middle hparams
  obtain ⟨a', param', b', rfl, ha', hparam', hb'⟩ := params_middle hparams'
  obtain rfl : a = a' := List.map_injective_iff.2 (fun _ _ => Option.some.inj) (ha.symm.trans ha')
  obtain rfl : b = b' := List.map_injective_iff.2 (fun _ _ => Option.some.inj) (hb.symm.trans hb')
  have hlast : (query.splitOn '&').getLastD [] = cur := by
    rw [hcur]
    simp
  rw [hlast, ← scrubPair_hides (hfree hid).2 (hfree hid').2 hne hparam hparam']
  exact ⟨intercalate_middle, fun heq => by rw [heq]⟩

theorem starts_append (hne : id ≠ []) : starts (id ++ v) = starts id := by
  obtain ⟨c, s, rfl⟩ := List.exists_cons_of_ne_nil hne
  rw [List.cons_append, starts_cons, starts_cons]

/-- What starts with white space is not replaced. -/
theorem relabel_ne {p : Route} (hne : id ≠ []) (h : starts id = false) :
    id ++ v ≠ relabel p.label r := by
  intro heq
  obtain ⟨c, s, rfl⟩ := List.exists_cons_of_ne_nil hne
  obtain ⟨l, hlabel⟩ := p.label_head
  unfold relabel at heq
  rw [hlabel, List.cons_append, List.cons_append] at heq
  rw [starts_cons, (List.cons.inj heq).1] at h
  exact absurd h (by decide)

/-- The rest of a segment does not make up for what is left of an identifier. -/
theorem dropWhile_append_iff : (id ++ v).dropWhile inSegment = (id' ++ v).dropWhile inSegment ↔
    id.dropWhile inSegment = id'.dropWhile inSegment := by
  have hlonger : ∀ {x y : Text}, x ≠ [] → y.dropWhile inSegment ≠ x ++ y := by
    intro x y hx heq
    have hle : (y.dropWhile inSegment).length ≤ y.length := (List.dropWhile_suffix _).length_le
    have hpos : 0 < x.length := List.length_pos_iff.2 hx
    rw [heq, List.length_append] at hle
    omega
  rw [List.dropWhile_append, List.dropWhile_append]
  cases hleft : id.dropWhile inSegment with
  | nil =>
    cases hright : id'.dropWhile inSegment with
    | nil => simp
    | cons d t =>
      exact ⟨fun heq => absurd heq (hlonger (List.cons_ne_nil d t)),
        fun heq => absurd heq (List.cons_ne_nil d t).symm⟩
  | cons c s =>
    cases hright : id'.dropWhile inSegment with
    | nil =>
      exact ⟨fun heq => absurd heq.symm (hlonger (List.cons_ne_nil c s)),
        fun heq => absurd heq (List.cons_ne_nil c s)⟩
    | cons d t => exact List.append_left_inj v

/-- When two identifiers at the start of a segment are replaced by the same. -/
theorem out_eq_iff {p : Route} (hid : id ≠ []) (hid' : id' ≠ []) (hne : id ≠ id') :
    out (some p) (id ++ v) = out (some p) (id' ++ v) ↔
      starts id = true ∧ starts id' = true ∧ id.dropWhile inSegment = id'.dropWhile inSegment := by
  cases hs : starts id with
  | false =>
    rw [out_plain (by rw [starts_append hid, hs])]
    refine ⟨fun heq => ?_, fun h => absurd h.1 Bool.false_ne_true⟩
    cases hs' : starts id' with
    | false =>
      rw [out_plain (by rw [starts_append hid', hs'])] at heq
      exact absurd (List.append_cancel_right heq) hne
    | true =>
      rw [out_starts (by rw [starts_append hid', hs'])] at heq
      exact absurd heq (relabel_ne hid hs)
  | true =>
    rw [out_starts (by rw [starts_append hid, hs])]
    cases hs' : starts id' with
    | false =>
      rw [out_plain (by rw [starts_append hid', hs'])]
      exact ⟨fun heq => absurd heq.symm (relabel_ne hid' hs'),
        fun h => absurd h.2.1 Bool.false_ne_true⟩
    | true =>
      rw [out_starts (by rw [starts_append hid', hs'])]
      unfold relabel
      rw [List.append_right_inj, dropWhile_append_iff]
      simp

/-- An identifier in a path is hidden where a route replaces it, if the segment after it does not
tell. -/
theorem cleanPath_hides (hid : IsIdentifier id) (hid' : IsIdentifier id') (hne : id ≠ id')
    (hslash : ∃ start, path = start ++ ['/']) :
    cleanPath (path ++ (id ++ r)) = cleanPath (path ++ (id' ++ r)) ↔ InRoute path id id' r := by
  obtain ⟨start, rfl⟩ := hslash
  obtain ⟨s, ss, hstart⟩ := exists_first '/' start
  obtain ⟨first, after, hafter⟩ := exists_first '/' r
  have hpath : (start ++ ['/']).splitOn '/' = (s :: ss) ++ [[]] := by
    rw [List.splitOn_append_cons_self, hstart, List.splitOn_nil]
  have hgoverns : governs (start ++ ['/']) = state none ss := by
    unfold governs
    rw [hpath, List.cons_append, List.tail_cons, List.dropLast_concat]
  have hsplit : ∀ {x}, IsIdentifier x → (start ++ ['/'] ++ (x ++ r)).splitOn '/' = s ::
    (ss ++ (x ++ first) :: after) :=
    fun hx => splitOn_between hpath (hx.2 '/' (by decide)) hafter
  have hrun : ∀ {x}, run none (ss ++ (x ++ first) :: after) =
      run none ss ++ out (state none ss) (x ++ first) :: run
        (next (state none ss) (x ++ first)) after := run_append
  have hfree : ∀ {x}, IsIdentifier x → ∀ t ∈ run none (ss ++ (x ++ first) :: after), '/' ∉ t := by
    intro x hx
    obtain ⟨-, -, hpieces⟩ := eq_led (hsplit hx)
    exact mem_run (fun _ => Route.label_slash) hpieces
  -- the segments up to the identifier are the same, so those after them decide
  have hequal : cleanPath (start ++ ['/'] ++ (id ++ r)) = cleanPath (start ++ ['/'] ++ (id' ++ r)) ↔
      out (state none ss) (id ++ first) = out (state none ss) (id' ++ first) ∧
        run (next (state none ss) (id ++ first)) after = run
          (next (state none ss) (id' ++ first)) after := by
    rw [cleanPath_eq (hsplit hid), cleanPath_eq (hsplit hid'), ← List.cons.injEq,
      ← List.append_right_inj (run none ss), ← hrun,
      ← hrun]
    refine ⟨fun heq => led_inj (hfree hid) (hfree hid') (List.append_cancel_left heq),
      fun heq => by rw [heq]⟩
  rw [hequal]
  unfold InRoute
  rw [hgoverns, split2_eq hafter]
  cases state none ss with
  | none =>
    refine ⟨fun h => absurd (List.append_cancel_right h.1) hne, ?_⟩
    rintro ⟨q, hq, -⟩
    cases hq
  | some p =>
    rw [out_eq_iff hid.1 hid'.1 hne, run_eq_iff next_some_ne next_some_ne]
    constructor
    · rintro ⟨⟨hs, hs', hrest⟩, h⟩
      exact ⟨p, rfl, hs, hs', hrest, fun s hs => out_next_iff.1 (h s hs)⟩
    · rintro ⟨q, hq, hs, hs', hrest, h⟩
      obtain rfl := Option.some.inj hq
      exact ⟨⟨hs, hs', hrest⟩, fun s hs => out_next_iff.2 (h s hs)⟩

theorem scrubBefore_hides (hid : IsIdentifier id) (hid' : IsIdentifier id') (hne : id ≠ id')
    (hslash : '?' ∉ before → ∃ start, before = start ++ ['/'])
    (h : scrubBefore (before ++ (id ++ r)) = some res)
    (h' : scrubBefore (before ++ (id' ++ r)) = some res') :
    res = res' ↔ HiddenBefore before id id' r := by
  obtain ⟨pieces, last, hbefore⟩ := exists_last '?' before
  obtain ⟨first, after, hafter⟩ := exists_first '?' r
  have hsplit : ∀ x, IsIdentifier x → (before ++ (x ++ r)).splitOn '?' = pieces ++
    (last ++ (x ++ first)) :: after :=
    fun _ hx => splitOn_between hbefore (hx.2 '?' (by decide)) hafter
  unfold HiddenBefore
  rw [hbefore]
  rcases pieces with _ | ⟨path, _ | ⟨query, pieces⟩⟩
  · obtain ⟨hlast, hquery, -⟩ := eq_led hbefore
    rw [led_nil, List.append_nil] at hlast
    rw [scrubBefore_eq (hsplit id hid)] at h
    rw [scrubBefore_eq (hsplit id' hid')] at h'
    obtain ⟨params, hparams, rfl⟩ := Option.map_eq_some_iff.1 h
    obtain ⟨params', hparams', rfl⟩ := Option.map_eq_some_iff.1 h'
    obtain rfl : params = params' := Option.some.inj (hparams.symm.trans hparams')
    have hends : ∃ start, last = start ++ ['/'] := by
      rw [← hlast]
      exact hslash (hlast ▸ hquery)
    rw [List.append_left_inj, cleanPath_hides hid hid' hne hends]
    simp only [List.nil_append, split2_eq hafter]
  · rw [scrubBefore_eq (hsplit id hid)] at h
    rw [scrubBefore_eq (hsplit id' hid')] at h'
    obtain ⟨params, hparams, rfl⟩ := Option.map_eq_some_iff.1 h
    obtain ⟨params', hparams', rfl⟩ := Option.map_eq_some_iff.1 h'
    obtain ⟨param, rfl, hparam⟩ := List.map_eq_singleton_iff.1 (mapM_eq_some_iff.1 hparams).symm
    obtain ⟨param', rfl, hparam'⟩ := List.map_eq_singleton_iff.1 (mapM_eq_some_iff.1 hparams').symm
    simp only [List.nil_append, List.cons_append]
    rw [← scrubQuery_hides hid hid' hne hparam.symm hparam'.symm]
    simp
  · rw [scrubBefore_eq (hsplit id hid)] at h
    rw [scrubBefore_eq (hsplit id' hid')] at h'
    have hsame : res = res' := Option.some.inj (h.symm.trans h')
    cases pieces <;> exact ⟨fun _ => trivial, fun _ => hsame⟩

/-- **Where an identifier is hidden**, if `scrubUrl` returns. -/
theorem scrubUrl_hides (hplace : Place pre) (hid : IsIdentifier id) (hid' : IsIdentifier id')
    (hne : id ≠ id') (h : scrubUrl (pre ++ (id ++ post)) = some res)
    (h' : scrubUrl (pre ++ (id' ++ post)) = some res') :
    res = res' ↔ Hidden pre id id' post := by
  obtain ⟨pieces, last, hpre⟩ := exists_last '#' pre
  obtain ⟨first, after, hafter⟩ := exists_first '#' post
  have hsplit : ∀ x, IsIdentifier x → (pre ++ (x ++ post)).splitOn '#' = pieces ++
    (last ++ (x ++ first)) :: after :=
    fun _ hx => splitOn_between hpre (hx.2 '#' (by decide)) hafter
  unfold Hidden
  rw [hpre]
  rcases pieces with _ | ⟨before, _ | ⟨hash, pieces⟩⟩
  · obtain ⟨hlast, -, -⟩ := eq_led hpre
    rw [led_nil, List.append_nil] at hlast
    rw [scrubUrl_eq (hsplit id hid)] at h
    rw [scrubUrl_eq (hsplit id' hid')] at h'
    obtain ⟨left, hleft, rfl⟩ := Option.map_eq_some_iff.1 h
    obtain ⟨left', hleft', rfl⟩ := Option.map_eq_some_iff.1 h'
    have hends : '?' ∉ last → ∃ start, last = start ++ ['/'] := by
      rw [← hlast]
      exact hplace.ends_slash
    rw [List.append_left_inj, scrubBefore_hides hid hid' hne hends hleft hleft']
    simp only [List.nil_append, split2_eq hafter]
  · rw [scrubUrl_eq (hsplit id hid)] at h
    rw [scrubUrl_eq (hsplit id' hid')] at h'
    obtain ⟨left, hleft, rfl⟩ := Option.map_eq_some_iff.1 h
    obtain ⟨left', hleft', rfl⟩ := Option.map_eq_some_iff.1 h'
    obtain rfl : left = left' := Option.some.inj (hleft.symm.trans hleft')
    simp [hne]
  · rw [scrubUrl_eq (hsplit id hid)] at h
    rw [scrubUrl_eq (hsplit id' hid')] at h'
    have hsame : res = res' := Option.some.inj (h.symm.trans h')
    cases pieces <;> exact ⟨fun _ => trivial, fun _ => hsame⟩

end Hides

section Reports

variable {pre id id' post : Text}

/-- **What a report does not tell**, of any text, and of two that differ in an identifier. -/
theorem scrubs_iff (url pre id id' post : Text) :
    ((scrubUrl url).isSome = true ↔ Decodes url) ∧
    (∀ res, scrubUrl url = some res → scrubUrl res = some res) ∧
    (Place pre → IsIdentifier id → IsIdentifier id' → id ≠ id' →
      ((∃ res, scrubUrl (pre ++ (id ++ post)) = some res ∧
        scrubUrl (pre ++ (id' ++ post)) = some res) ↔
        Decodes (pre ++ (id ++ post)) ∧ Decodes (pre ++ (id' ++ post)) ∧
        Hidden pre id id' post)) := by
  refine ⟨scrubUrl_isSome, fun _ => scrubUrl_twice, fun hplace hid hid' hne => ?_⟩
  rw [← scrubUrl_isSome, ← scrubUrl_isSome, Option.isSome_iff_exists, Option.isSome_iff_exists]
  constructor
  · rintro ⟨res, h, h'⟩
    exact ⟨⟨res, h⟩, ⟨res, h'⟩, (scrubUrl_hides hplace hid hid' hne h h').1 rfl⟩
  · rintro ⟨⟨res, h⟩, ⟨res', h'⟩, hhidden⟩
    have hsame : res = res' := (scrubUrl_hides hplace hid hid' hne h h').2 hhidden
    exact ⟨res, h, hsame ▸ h'⟩

/-- The profile of a DoH address. -/
theorem scrubs_profile : ∃ res,
    scrubUrl ("/dns-query/".toList ++ ("abc123def4".toList ++ "/laptop?id=1".toList)) = some res ∧
    scrubUrl ("/dns-query/".toList ++ ("xyz123def4".toList ++ "/laptop?id=1".toList)) =
    some res := by
  have hplace : Place "/dns-query/".toList := .afterWord [] "dns-query".toList .dnsQuery rfl
  have hroute : InRoute "/dns-query/".toList "abc123def4".toList "xyz123def4".toList
    "/laptop".toList :=
    ⟨.dnsQuery, by decide, by decide, by decide, by decide, by decide⟩
  exact ((scrubs_iff [] _ _ _ _).2.2 hplace (by decide) (by decide) (by decide)).2
    ⟨by decide, by decide, hroute⟩

/-- The device of a DoH address, a profile in a fragment, and a parameter whose name does not
decode. -/
theorem scrubs_not :
    (Place "/dns-query/abc123def4/".toList ∧ IsIdentifier "laptop".toList ∧
      IsIdentifier "phone".toList ∧
      scrubUrl ("/dns-query/abc123def4/".toList ++ ("laptop".toList ++ [])) =
      some "/dns-query/:profile_id/laptop".toList ∧
      scrubUrl ("/dns-query/abc123def4/".toList ++ ("phone".toList ++ [])) =
      some "/dns-query/:profile_id/phone".toList) ∧
    (Place "/app#/profiles/".toList ∧
      scrubUrl ("/app#/profiles/".toList ++ ("abc123def4".toList ++ [])) ≠
        scrubUrl ("/app#/profiles/".toList ++ ("xyz123def4".toList ++ []))) ∧
    scrubUrl "/search?%=1".toList = none := by
  refine ⟨⟨?_, by decide, by decide, by decide, by decide⟩, ⟨?_, by decide⟩, by decide⟩
  · exact .device [] "dns-query".toList "abc123def4".toList rfl (by decide)
  · exact .afterWord "/app#".toList "profiles".toList .profiles rfl

end Reports

end ModDNS.App.SentryPrivacy
