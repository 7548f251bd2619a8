import ModDNS.Proxy.Match

/-!
# What a domain rule says

A domain rule stands for one of five kinds of patterns, each a set of names. The proxy
decides most of them by prefixes, suffixes and substrings, and leaves the rest to a
regular expression.

* `matchDomainPattern_*`: for a rule of each kind, the proxy's matcher decides the set of
  names.
* `matchRegex_between`: so does the regular expression, for a pattern with one star.
-/

namespace ModDNS.Rules

open Go Proxy

/-- The kinds of patterns, over the characters of a name. -/
inductive Pattern where
  | exactly (d : List Char)
  | tree (d : List Char)
  | under (b : List Char)
  | containing (n : List Char)
  | between (p s : List Char)
  deriving DecidableEq

/-- The names of a pattern: a name itself, with its subdomains, the names that start with
labels, that contain a text, that have a beginning and an end. -/
def Pattern.Matches : Pattern → List Char → Prop
  | exactly d, q => q = d
  | tree d, q => q = d ∨ '.' :: d <:+ q
  | under b, q => b ++ ['.'] <+: q
  | containing n, q => n <:+: q
  | between p s, q => p <+: q ∧ s <:+ q ∧ p.length + s.length ≤ q.length

section Regex

variable {p rest q : List Char}

theorem matchStar_iff {k : List Char → Bool} {q : List Char} (hq : '\n' ∉ q) :
    matchStar k q = true ↔ ∃ skipped tail, q = skipped ++ tail ∧ k tail = true := by
  induction q with
  | nil =>
    rw [matchStar]
    constructor
    · exact fun h => ⟨[], [], rfl, h⟩
    · rintro ⟨skipped, tail, heq, h⟩
      obtain ⟨-, rfl⟩ := List.append_eq_nil_iff.1 heq.symm
      exact h
  | cons c q ih =>
    obtain ⟨hc, hq⟩ : c ≠ '\n' ∧ '\n' ∉ q := by simpa [eq_comm] using hq
    rw [matchStar, Bool.or_eq_true, Bool.and_eq_true, ih hq]
    constructor
    · rintro (h | ⟨-, skipped, tail, rfl, h⟩)
      · exact ⟨[], c :: q, rfl, h⟩
      · exact ⟨c :: skipped, tail, rfl, h⟩
    · rintro ⟨skipped, tail, heq, h⟩
      cases skipped with
      | nil =>
        rw [List.nil_append] at heq
        exact .inl (heq ▸ h)
      | cons d skipped =>
        obtain ⟨rfl, rfl⟩ := List.cons.inj heq
        exact .inr ⟨by simpa using hc, skipped, tail, rfl, h⟩

theorem matchRegex_literal (hp : '*' ∉ p) : matchRegex p q = true ↔ q = p := by
  induction p generalizing q with
  | nil => cases q <;> simp [matchRegex]
  | cons c p ih =>
    obtain ⟨hc, hp⟩ : c ≠ '*' ∧ '*' ∉ p := by simpa [eq_comm] using hp
    cases q with
    | nil => simp [matchRegex, hc]
    | cons d q =>
      simp only [matchRegex, if_neg hc, Bool.and_eq_true, decide_eq_true_eq, ih hp, List.cons.injEq]
      exact and_congr_left' eq_comm

/-- A pattern up to its first star. -/
theorem matchRegex_star (hp : '*' ∉ p) (hq : '\n' ∉ q) :
    matchRegex (p ++ '*' :: rest) q = true ↔
      ∃ skipped tail, q = p ++ (skipped ++ tail) ∧ matchRegex rest tail = true := by
  induction p generalizing q with
  | nil =>
    rw [List.nil_append, matchRegex, if_pos rfl, matchStar_iff hq]
    simp
  | cons c p ih =>
    obtain ⟨hc, hp⟩ : c ≠ '*' ∧ '*' ∉ p := by simpa [eq_comm] using hp
    rw [List.cons_append, matchRegex, if_neg hc]
    cases q with
    | nil => simp
    | cons d q =>
      have hq' : '\n' ∉ q := fun h => hq (List.mem_cons_of_mem _ h)
      simp only [Bool.and_eq_true, decide_eq_true_eq, ih hp hq', List.cons_append, List.cons.injEq]
      constructor
      · rintro ⟨rfl, skipped, tail, rfl, h⟩
        exact ⟨skipped, tail, ⟨rfl, rfl⟩, h⟩
      · rintro ⟨skipped, tail, ⟨rfl, rfl⟩, h⟩
        exact ⟨rfl, skipped, tail, rfl, h⟩

/-- A pattern with one star has a beginning and an end. -/
theorem matchRegex_between {s : List Char} (hp : '*' ∉ p) (hs : '*' ∉ s) (hq : '\n' ∉ q) :
    matchRegex (p ++ '*' :: s) q = true ↔ (Pattern.between p s).Matches q := by
  rw [matchRegex_star hp hq]
  simp only [matchRegex_literal hs, Pattern.Matches]
  constructor
  · rintro ⟨skipped, tail, rfl, rfl⟩
    refine ⟨List.prefix_append _ _, ?_, ?_⟩
    · rw [← List.append_assoc]
      exact List.suffix_append _ _
    · simp only [List.length_append]
      omega
  · rintro ⟨⟨tail, rfl⟩, hsuffix, hlen⟩
    have hlen' : s.length ≤ tail.length := by
      simp only [List.length_append] at hlen
      omega
    obtain ⟨skipped, rfl⟩ :=
      List.suffix_of_suffix_length_le hsuffix (List.suffix_append p tail) hlen'
    exact ⟨skipped, s, rfl, rfl⟩

/-- A pattern between two stars is contained. -/
theorem matchRegex_containing {n : List Char} (hn : '*' ∉ n) (hq : '\n' ∉ q) :
    matchRegex ('*' :: n ++ ['*']) q = true ↔ (Pattern.containing n).Matches q := by
  have hstar : '*' :: n ++ ['*'] = [] ++ '*' :: (n ++ ['*']) := by simp
  rw [hstar, matchRegex_star List.not_mem_nil hq, Pattern.Matches]
  constructor
  · rintro ⟨skipped, tail, rfl, h⟩
    have htail : '\n' ∉ tail := fun hm => hq (by simp [hm])
    obtain ⟨⟨rest, rfl⟩, -⟩ := (matchRegex_between hn List.not_mem_nil htail).1 h
    exact ⟨skipped, rest, by simp⟩
  · rintro ⟨skipped, rest, rfl⟩
    have htail : '\n' ∉ n ++ rest := fun hm => hq (by
      rcases List.mem_append.1 hm with hm | hm <;> simp [hm])
    refine ⟨skipped, n ++ rest, by simp, (matchRegex_between hn List.not_mem_nil htail).2 ?_⟩
    exact ⟨List.prefix_append _ _, List.nil_suffix, by simp⟩

end Regex

section Match

variable {domain pattern w d : String}

/-- The branches of `matchDomainPattern`, on lower-case texts, for a pattern without a leading
dot. -/
theorem matchDomainPattern_eq (hw : toLower pattern = w) (hd : toLower domain = d)
    (hne : w.toList ≠ []) (hdot : w.toList.head? ≠ some '.') :
    matchDomainPattern domain pattern =
      if !contains w "*" then decide (d = w)
      else if hasPrefix w "*." ∧ '*' ∉ w.toList.drop 2 then
        d = String.ofList (w.toList.drop 2) || hasSuffix d ("." ++ String.ofList (w.toList.drop 2))
      else if hasSuffix w ".*" then
        if trimSuffix w ".*" = "" ∨ contains (trimSuffix w ".*") "*" then false
        else hasPrefix d (trimSuffix w ".*" ++ ".")
      else if hasPrefix w "*" ∧ hasSuffix w "*" ∧ w.toList.count '*' = 2 then
        if String.ofList ((w.toList.drop 1).dropLast) = "" then false
        else contains d (String.ofList ((w.toList.drop 1).dropLast))
      else matchRegex w.toList d.toList := by
  have hpre : hasPrefix w "." = false := by
    rw [Bool.eq_false_iff, Ne, hasPrefix_iff]
    rintro ⟨t, ht⟩
    rw [← ht] at hdot
    exact hdot rfl
  have hempty : w ≠ "" := ne_empty_iff.2 hne
  unfold matchDomainPattern
  simp only [hw, hd, if_neg hempty, hpre, Bool.false_eq_true, if_false]

theorem contains_star : contains w "*" = true ↔ '*' ∈ w.toList := by
  rw [contains_iff, show "*".toList = ['*'] from rfl, List.singleton_infix_iff]

theorem match_exactly (hw : toLower pattern = w) (hd : toLower domain = d) (hne : w.toList ≠ [])
    (hdot : w.toList.head? ≠ some '.') (hstar : '*' ∉ w.toList) :
    matchDomainPattern domain pattern = true ↔ (Pattern.exactly w.toList).Matches d.toList := by
  have hno : contains w "*" = false := by
    rw [Bool.eq_false_iff, Ne, contains_star]
    exact hstar
  rw [matchDomainPattern_eq hw hd hne hdot, hno, Bool.not_false, if_pos rfl, decide_eq_true_eq]
  exact String.toList_inj.symm

theorem match_tree (hw : toLower pattern = w) (hd : toLower domain = d) {r : List Char}
    (hr : w.toList = '*' :: '.' :: r) (hstar : '*' ∉ r) :
    matchDomainPattern domain pattern = true ↔ (Pattern.tree r).Matches d.toList := by
  have hyes : contains w "*" = true := contains_star.2 (by rw [hr]; exact List.mem_cons_self ..)
  have hpre : hasPrefix w "*." = true := hasPrefix_iff.2 ⟨r, hr.symm⟩
  have hdrop : w.toList.drop 2 = r := by rw [hr]; rfl
  rw [matchDomainPattern_eq hw hd (by rw [hr]; exact List.cons_ne_nil _ _) (by rw [hr]; simp), hyes,
    Bool.not_true,
    if_neg Bool.false_ne_true, hdrop, if_pos ⟨hpre, hstar⟩, Bool.or_eq_true, decide_eq_true_eq,
    hasSuffix_iff,
    ← String.toList_inj, String.toList_append, String.toList_ofList]
  rfl

theorem match_under (hw : toLower pattern = w) (hd : toLower domain = d) {b : List Char}
    (hb : w.toList = b ++ ['.', '*']) (hne : b ≠ []) (hdot : b.head? ≠ some '.') (hstar : '*' ∉ b) :
    matchDomainPattern domain pattern = true ↔ (Pattern.under b).Matches d.toList := by
  have hhead : w.toList.head? = b.head? := by
    rw [hb, List.head?_append_of_ne_nil _ hne]
  have hyes : contains w "*" = true := contains_star.2 (by rw [hb]; simp)
  have hpre : hasPrefix w "*." ≠ true := by
    rw [Ne, hasPrefix_iff]
    rintro ⟨t, ht⟩
    rw [← ht] at hhead
    exact hstar (List.mem_of_mem_head? (hhead ▸ rfl))
  have hsuffix : hasSuffix w ".*" = true := hasSuffix_iff.2 ⟨b, hb.symm⟩
  have htrim : trimSuffix w ".*" = String.ofList b := by
    rw [trimSuffix, if_pos hsuffix, hb]
    simp
  rw [matchDomainPattern_eq hw hd (by rw [hb]; simp) (by rw [hhead]; exact hdot), hyes,
    Bool.not_true,
    if_neg Bool.false_ne_true, if_neg (fun h => hpre h.1), if_pos hsuffix, htrim, if_neg,
    hasPrefix_iff,
    String.toList_append, String.toList_ofList]
  · rfl
  · rw [contains_star, String.toList_ofList]
    rintro (h | h)
    · exact hne (by simpa using h)
    · exact hstar h

theorem match_containing (hw : toLower pattern = w) (hd : toLower domain = d) {n : List Char}
    (hn : w.toList = '*' :: n ++ ['*']) (hne : n ≠ []) (hdot : n.getLast? ≠ some '.')
    (hstar : '*' ∉ n) :
    matchDomainPattern domain pattern = true ↔ (Pattern.containing n).Matches d.toList := by
  have hyes : contains w "*" = true := contains_star.2 (by rw [hn]; simp)
  have hpre : hasPrefix w "*" = true := hasPrefix_iff.2 ⟨n ++ ['*'], by rw [hn]; rfl⟩
  have hsuf : hasSuffix w "*" = true := hasSuffix_iff.2 ⟨'*' :: n, by rw [hn]; rfl⟩
  have hcount : w.toList.count '*' = 2 := by
    rw [hn]
    simp [List.count_eq_zero_of_not_mem hstar]
  have htree : ¬ (hasPrefix w "*." = true ∧ '*' ∉ w.toList.drop 2) := by
    rintro ⟨-, h⟩
    cases n with
    | nil => exact hne rfl
    | cons c n => exact h (by rw [hn]; simp)
  have hunder : hasSuffix w ".*" ≠ true := by
    rw [Ne, hasSuffix_iff, hn]
    rintro ⟨t, ht⟩
    have hlist : t ++ ['.'] = '*' :: n := by
      have h := congrArg List.dropLast ht
      rw [show ".*".toList = ['.'] ++ ['*'] from rfl, ← List.append_assoc, List.dropLast_concat,
        List.dropLast_concat] at h
      exact h
    have hlast := congrArg List.getLast? hlist
    rw [List.getLast?_concat, List.getLast?_cons_of_ne_nil hne] at hlast
    exact hdot hlast.symm
  have hneedle : (w.toList.drop 1).dropLast = n := by
    rw [hn, List.cons_append, List.drop_one, List.tail_cons, List.dropLast_concat]
  rw [matchDomainPattern_eq hw hd (by rw [hn]; simp) (by rw [hn]; simp), hyes, Bool.not_true,
    if_neg Bool.false_ne_true, if_neg htree, if_neg hunder, if_pos ⟨hpre, hsuf, hcount⟩,
      hneedle, if_neg,
    contains_iff, String.toList_ofList]
  · rfl
  · exact fun h => hne (by simpa using h)

/-- Every other pattern is left to the regular expression. -/
theorem match_between (hw : toLower pattern = w) (hd : toLower domain = d) {p s : List Char}
    (hps : w.toList = p ++ '*' :: s) (hp : '*' ∉ p) (hs : '*' ∉ s) (hdot : p.head? ≠ some '.')
    (htree : p = [] → s.head? ≠ some '.') (hunder : s = [] → p.getLast? ≠ some '.')
    (hq : '\n' ∉ d.toList) :
    matchDomainPattern domain pattern = true ↔ (Pattern.between p s).Matches d.toList := by
  have hyes : contains w "*" = true := contains_star.2 (by rw [hps]; simp)
  have hcount : w.toList.count '*' = 1 := by
    rw [hps]
    simp [List.count_eq_zero_of_not_mem hp, List.count_eq_zero_of_not_mem hs]
  have hhead : w.toList.head? ≠ some '.' := by
    cases p with
    | nil => rw [hps]; simp
    | cons c p => rw [hps]; exact hdot
  -- none of the branches for other patterns is taken
  have htree' : hasPrefix w "*." ≠ true := by
    rw [Ne, hasPrefix_iff, hps]
    cases p with
    | nil =>
      intro h
      obtain ⟨t, rfl⟩ := (List.cons_prefix_cons.1 h).2
      exact htree rfl rfl
    | cons c p =>
      intro h
      have hc : '*' = c := (List.cons_prefix_cons.1 h).1
      exact hp (hc ▸ List.mem_cons_self ..)
  have hunder' : hasSuffix w ".*" ≠ true := by
    rw [Ne, hasSuffix_iff, hps]
    rintro ⟨t, ht⟩
    rcases List.eq_nil_or_concat s with rfl | ⟨s, c, rfl⟩
    · have hp' : t ++ ['.'] = p := by
        have h := congrArg List.dropLast ht
        rw [show ".*".toList = ['.'] ++ ['*'] from rfl, ← List.append_assoc, List.dropLast_concat,
          List.dropLast_concat] at h
        exact h
      exact hunder rfl (by rw [← hp', List.getLast?_concat])
    · have hlast := congrArg List.getLast? ht
      rw [show ".*".toList = ['.'] ++ ['*'] from rfl, ← List.append_assoc, List.getLast?_concat,
        List.concat_eq_append, ← List.cons_append, ← List.append_assoc,
          List.getLast?_concat] at hlast
      cases hlast
      exact hs (by simp)
  -- so the regular expression decides
  rw [matchDomainPattern_eq hw hd (by rw [hps]; simp) hhead, hyes, Bool.not_true,
    if_neg Bool.false_ne_true, if_neg (fun h => htree' h.1), if_neg hunder', if_neg, hps]
  · exact matchRegex_between hp hs hq
  · rw [hcount]
    rintro ⟨-, -, h⟩
    omega

end Match

end ModDNS.Rules
