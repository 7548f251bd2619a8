import Mathlib.Data.List.TakeWhile
import ModDNS.Rules.Meaning
import ModDNS.Rules.Value

/-!
# A stored domain rule means what was typed

The API stores a custom rule in a normal form, and the proxy matches that form against
the names of queries.

* `rule_meaning`: for every rule that the API creates under a domain syntax, the proxy
  matches exactly the names that the typed value documents; a rule without an empty label
  matches some name; and the shortcuts of the matcher agree with its regular expression,
  except that the pattern of a subtree has its root too.
-/

namespace ModDNS.Rules

open Go Profiles Regex
open Proxy (matchDomainPattern matchRegex)

/-- What was typed, without surrounding space, a trailing dot and case. -/
def typed (v : String) : List Char := (toLower (trimSuffix (trimSpace v) ".")).toList

/-- The documented patterns. `sub` says whether a plain name includes its subdomains. -/
inductive Reads (sub : Bool) : List Char → Pattern → Prop
  | name {d : List Char} : '*' ∉ d → d.head? ≠ some '.' →
      Reads sub d (if sub then .tree d else .exactly d)
  | dotted {d : List Char} : '*' ∉ d → Reads sub ('.' :: d) (.tree d)
  | starred {d : List Char} : '*' ∉ d → Reads sub ('*' :: '.' :: d) (.tree d)
  | under {b : List Char} : '*' ∉ b → Reads sub (b ++ ['.', '*']) (.under b)
  | containing {n : List Char} : '*' ∉ n → Reads sub ('*' :: n ++ ['*']) (.containing n)
  | between {p s : List Char} : '*' ∉ p → '*' ∉ s → (p = [] → s.head? ≠ some '.') →
      (s = [] → p.getLast? ≠ some '.') → Reads sub (p ++ '*' :: s) (.between p s)

/-- The patterns as they are stored: a subtree is written with a star. -/
inductive Stored : List Char → Pattern → Prop
  | exactly {d : List Char} : d ≠ [] → '*' ∉ d → d.head? ≠ some '.' → Stored d (.exactly d)
  | tree {d : List Char} : '*' ∉ d → Stored ('*' :: '.' :: d) (.tree d)
  | under {b : List Char} : b ≠ [] → b.head? ≠ some '.' → '*' ∉ b →
      Stored (b ++ ['.', '*']) (.under b)
  | containing {n : List Char} : n ≠ [] → n.getLast? ≠ some '.' → '*' ∉ n →
      Stored ('*' :: n ++ ['*']) (.containing n)
  | between {p s : List Char} : '*' ∉ p → '*' ∉ s → p.head? ≠ some '.' →
      (p = [] → s.head? ≠ some '.') →
      (s = [] → p.getLast? ≠ some '.') → Stored (p ++ '*' :: s) (.between p s)

section Stored

variable {pattern domain : String} {W : List Char} {pat : Pattern}

/-- The proxy decides a stored pattern. -/
theorem match_stored (hW : (toLower pattern).toList = W) (h : Stored W pat)
    (hq : '\n' ∉ (toLower domain).toList) :
    matchDomainPattern domain pattern = true ↔ pat.Matches (toLower domain).toList := by
  cases h with
  | exactly hne hstar hdot =>
    subst hW
    exact match_exactly rfl rfl hne hdot hstar
  | tree hstar => exact match_tree rfl rfl hW hstar
  | under hne hdot hstar => exact match_under rfl rfl hW hne hdot hstar
  | containing hne hdot hstar => exact match_containing rfl rfl hW hne hdot hstar
  | between hp hs hdot htree hunder => exact match_between rfl rfl hW hp hs hdot htree hunder hq

/-- So does its regular expression, but for the root of a subtree. -/
theorem matchRegex_stored {Q : List Char} (h : Stored W pat) (hq : '\n' ∉ Q) :
    pat.Matches Q ↔ matchRegex W Q = true ∨ pat = .tree Q := by
  cases h with
  | exactly hne hstar hdot => simp [matchRegex_literal hstar, Pattern.Matches]
  | @tree d hstar =>
    have hdot : '*' ∉ '.' :: d := by simpa using hstar
    have hregex := matchRegex_between (p := []) List.not_mem_nil hdot hq
    rw [List.nil_append] at hregex
    rw [hregex]
    simp only [Pattern.Matches, List.nil_prefix, true_and, Pattern.tree.injEq,
      List.length_nil, Nat.zero_add]
    constructor
    · rintro (rfl | h)
      · exact .inr rfl
      · exact .inl ⟨h, h.length_le⟩
    · rintro (⟨h, -⟩ | rfl)
      · exact .inr h
      · exact .inl rfl
  | @under b hne hdot hstar =>
    have hb : '*' ∉ b ++ ['.'] := by simpa using hstar
    have hregex := matchRegex_between hb (List.not_mem_nil (a := '*')) hq
    rw [List.append_assoc, List.singleton_append] at hregex
    rw [hregex]
    simp only [Pattern.Matches, List.nil_suffix, true_and, List.length_nil, Nat.add_zero,
      reduceCtorEq, or_false]
    exact ⟨fun h => ⟨h, h.length_le⟩, fun h => h.1⟩
  | containing hne hdot hstar =>
    rw [matchRegex_containing hstar hq]
    simp
  | between hp hs _ _ _ => simp [matchRegex_between hp hs hq]

end Stored

section Accepted

/-- A label of letters, digits and hyphens. -/
def IsLabel (l : List Char) : Prop := l ≠ [] ∧ ∀ c ∈ l, c ∈ nameChars

/-- A name: labels with dots between them. -/
def IsName (q : List Char) : Prop :=
  ∃ ls, ls ≠ [] ∧ (∀ l ∈ ls, IsLabel l) ∧ q = ['.'].intercalate ls

/-- The tag `fqdn`: at least two labels, the last of them starting with a letter, and possibly a
dot. -/
def FqdnTag (fqdn : String → Bool) : Prop :=
  ∀ s, fqdn s = true → ∃ ls c rest, ls ≠ [] ∧ (∀ l ∈ ls, IsLabel l) ∧ c.isAlpha = true ∧
    (∀ d ∈ c :: rest, d ∈ alphanumeric) ∧
    (s.toList = ['.'].intercalate (ls ++ [c :: rest]) ∨
      s.toList = ['.'].intercalate (ls ++ [c :: rest]) ++ ['.'])

/-- The labels behind the first one, each after a dot. -/
def dotted (ls : List (List Char)) : List Char := (ls.map ('.' :: ·)).flatten

/-- The texts that the wildcard tag accepts. -/
inductive Wildcard : List Char → Prop
  | fqdn {p s : List Char} {ls : List (List Char)} : (∀ c ∈ p, c ∈ nameChars) →
      (∀ c ∈ s, c ∈ nameChars) →
      (∀ l ∈ ls, IsLabel l) → Wildcard (p ++ '*' :: (s ++ dotted ls))
  | suffix {l : List Char} {ls : List (List Char)} : IsLabel l → (∀ l ∈ ls, IsLabel l) →
      Wildcard (l ++ dotted ls ++ ['.', '*'])
  | contains {a b : Char} {m : List Char} : a ∈ alphanumeric → b ∈ alphanumeric →
      (∀ c ∈ m, c ∈ '.' :: nameChars) → Wildcard ('*' :: (a :: m ++ [b]) ++ ['*'])

variable {x : List Char}

theorem alphanumeric_nameChars {c : Char} (h : c ∈ alphanumeric) : c ∈ nameChars :=
  List.mem_cons_of_mem _ h

theorem isLabel_labelRegex (h : x ∈ labelRegex.matches') : IsLabel x := by
  obtain ⟨y, hy, z, hz, rfl⟩ := mem_seq.1 h
  obtain ⟨c, hc, rfl⟩ := mem_cls.1 hy
  refine ⟨List.cons_ne_nil _ _, fun d hd => ?_⟩
  rcases List.mem_cons.1 hd with rfl | hd
  · exact alphanumeric_nameChars hc
  · exact mem_star_cls.1 hz d hd

theorem isLabel_strictLabelRegex (h : x ∈ strictLabelRegex.matches') : IsLabel x := by
  obtain ⟨y, hy, z, hz, rfl⟩ := mem_seq.1 h
  obtain ⟨c, hc, rfl⟩ := mem_cls.1 hy
  refine ⟨List.cons_ne_nil _ _, fun d hd => ?_⟩
  rcases List.mem_cons.1 hd with rfl | hd
  · exact alphanumeric_nameChars hc
  · rcases mem_opt.1 hz with rfl | hz
    · cases hd
    · obtain ⟨u, hu, v, hv, rfl⟩ := mem_seq.1 hz
      obtain ⟨e, he, rfl⟩ := mem_cls.1 hv
      have hd : d ∈ u ++ [e] := hd
      rcases List.mem_append.1 hd with hd | hd
      · exact mem_star_cls.1 hu d hd
      · rw [List.mem_singleton.1 hd]
        exact alphanumeric_nameChars he

/-- A run of labels, each after a dot. -/
theorem dotted_of_star {P : RegularExpression Char} (hP : ∀ l ∈ P.matches', IsLabel l)
    (h : x ∈ (RegularExpression.char '.' * P).star.matches') :
    ∃ ls, (∀ l ∈ ls, IsLabel l) ∧ x = dotted ls := by
  obtain ⟨parts, rfl, hparts⟩ := mem_star.1 h
  induction parts with
  | nil => exact ⟨[], List.forall_mem_nil _, rfl⟩
  | cons part parts ih =>
    obtain ⟨hpart, hrest⟩ := List.forall_mem_cons.1 hparts
    obtain ⟨ls, hls, heq⟩ := ih hrest (mem_star.2 ⟨parts, rfl, hrest⟩)
    obtain ⟨dot, hdot, l, hl, rfl⟩ := mem_seq.1 hpart
    rw [mem_char.1 hdot]
    refine ⟨l :: ls, List.forall_mem_cons.2 ⟨hP l hl, hls⟩, ?_⟩
    rw [List.flatten_cons, heq, dotted, dotted, List.map_cons, List.flatten_cons]
    rfl

theorem wildcard_of_regex (h : ∃ re ∈ wildcardPatterns, re.rmatch x = true) : Wildcard x := by
  obtain ⟨re, hre, hmatch⟩ := h
  rw [RegularExpression.rmatch_iff_matches'] at hmatch
  simp only [wildcardPatterns, List.mem_cons, List.not_mem_nil, or_false] at hre
  rcases hre with rfl | rfl | rfl
  · obtain ⟨p, hp, r₁, hr₁, rfl⟩ := mem_seq.1 hmatch
    obtain ⟨star, hstar, r₂, hr₂, rfl⟩ := mem_seq.1 hr₁
    obtain ⟨s, hs, r₃, hr₃, rfl⟩ := mem_seq.1 hr₂
    obtain ⟨ls, hls, rfl⟩ := dotted_of_star (fun l hl => isLabel_labelRegex hl) hr₃
    rw [mem_char.1 hstar]
    exact .fqdn (mem_star_cls.1 hp) (mem_star_cls.1 hs) hls
  · obtain ⟨l, hl, r₁, hr₁, rfl⟩ := mem_seq.1 hmatch
    obtain ⟨r₂, hr₂, r₃, hr₃, rfl⟩ := mem_seq.1 hr₁
    obtain ⟨dot, hdot, star, hstar, rfl⟩ := mem_seq.1 hr₃
    obtain ⟨ls, hls, rfl⟩ := dotted_of_star (fun l hl => isLabel_strictLabelRegex hl) hr₂
    rw [mem_char.1 hdot, mem_char.1 hstar, ← List.append_assoc]
    exact .suffix (isLabel_strictLabelRegex hl) hls
  · obtain ⟨star, hstar, r₁, hr₁, rfl⟩ := mem_seq.1 hmatch
    obtain ⟨first, hfirst, r₂, hr₂, rfl⟩ := mem_seq.1 hr₁
    obtain ⟨m, hm, r₃, hr₃, rfl⟩ := mem_seq.1 hr₂
    obtain ⟨last, hlast, star', hstar', rfl⟩ := mem_seq.1 hr₃
    obtain ⟨a, ha, rfl⟩ := mem_cls.1 hfirst
    obtain ⟨b, hb, rfl⟩ := mem_cls.1 hlast
    have hwild : Wildcard ('*' :: (a :: m ++ [b]) ++ ['*']) := .contains ha hb (mem_star_cls.1 hm)
    rw [mem_char.1 hstar, mem_char.1 hstar']
    simpa using hwild

/-- The wildcard tag accepts texts of the three forms, and none of stars and dots only. -/
theorem wildcard_of_validation {w : String} (hdot : w.toList.head? ≠ some '.')
    (h : wildcardValidation w = true) :
    Wildcard w.toList ∧ ∃ c ∈ w.toList, c ≠ '*' ∧ c ≠ '.' := by
  have hpre : hasPrefix w "." = false := by
    rw [Bool.eq_false_iff, Ne, hasPrefix_iff]
    rintro ⟨t, ht⟩
    rw [← ht] at hdot
    exact hdot rfl
  unfold wildcardValidation at h
  simp only [hpre, Bool.and_false, Bool.false_eq_true, if_false] at h
  split at h
  · cases h
  · split at h
    · cases h
    · next htrim =>
      obtain ⟨re, hre, hmatch⟩ := List.any_eq_true.1 h
      refine ⟨wildcard_of_regex ⟨re, hre, hmatch⟩, ?_⟩
      by_contra hnone
      refine htrim ?_
      have hall : ∀ c ∈ w.toList, c ∈ "*.".toList := by
        intro c hc
        by_contra hc'
        refine hnone ⟨c, hc, ?_, ?_⟩ <;> rintro rfl <;> exact hc' (by decide)
      have hdrop : w.toList.dropWhile (· ∈ "*.".toList) = [] :=
        List.dropWhile_eq_nil_iff.2 fun c hc => by simpa using hall c hc
      rw [trim, hdrop]
      rfl

/-- A character that no label has. -/
theorem not_mem_nameChars {c : Char} (h : nameChars.contains c = false) : c ∉ nameChars := by
  intro hc
  rw [List.contains_iff_mem.2 hc] at h
  cases h

theorem intercalate_cons (l : List Char) (ls : List (List Char)) :
    ['.'].intercalate (l :: ls) = l ++ dotted ls := by
  induction ls generalizing l with
  | nil => simp [dotted]
  | cons l' ls ih =>
    rw [List.intercalate_cons_cons, ih]
    simp [dotted]

section Fqdn

variable {fqdn : String → Bool} {s : String}

theorem fqdn_chars (hfqdn : FqdnTag fqdn) (h : fqdn s = true) :
    (∀ c ∈ s.toList, c ∈ '.' :: nameChars) ∧ '.' ∈ s.toList ∧ s.toList.head? ≠ some '.' := by
  obtain ⟨ls, c, rest, hne, hls, -, hlast, hs⟩ := hfqdn s h
  obtain ⟨l, ls', rfl⟩ := List.exists_cons_of_ne_nil hne
  have hjoin : ∀ d ∈ ['.'].intercalate (l :: ls' ++ [c :: rest]), d ∈ '.' :: nameChars := by
    intro d hd
    rcases mem_intercalate hd with rfl | ⟨k, hk, hd⟩
    · exact List.mem_cons_self ..
    · rcases List.mem_append.1 hk with hk | hk
      · exact List.mem_cons_of_mem _ ((hls k hk).2 d hd)
      · rw [List.mem_singleton.1 hk] at hd
        exact List.mem_cons_of_mem _ (alphanumeric_nameChars (hlast d hd))
  have hdot : '.' ∈ ['.'].intercalate (l :: ls' ++ [c :: rest]) := by
    rw [List.cons_append, intercalate_cons]
    cases ls' <;> simp [dotted]
  have hhead : ∀ tail, (['.'].intercalate (l :: ls' ++ [c :: rest]) ++ tail).head? ≠ some '.' := by
    intro tail
    obtain ⟨hne', hchars⟩ := hls l (List.mem_cons_self ..)
    obtain ⟨e, l', rfl⟩ := List.exists_cons_of_ne_nil hne'
    rw [List.cons_append, intercalate_cons, List.append_assoc, List.cons_append, List.head?_cons]
    intro he
    cases he
    exact not_mem_nameChars (by decide) (hchars '.' (List.mem_cons_self ..))
  rcases hs with hs | hs
  · rw [hs]
    refine ⟨hjoin, hdot, ?_⟩
    have hplain := hhead []
    rwa [List.append_nil] at hplain
  · rw [hs]
    refine ⟨fun d hd => ?_, List.mem_append_left _ hdot, hhead _⟩
    rcases List.mem_append.1 hd with hd | hd
    · exact hjoin d hd
    · rw [List.mem_singleton.1 hd]
      exact List.mem_cons_self ..

/-- A name with a letter at the start of its last label is no IP address. -/
theorem parseIP_fqdn (hfqdn : FqdnTag fqdn) (h : fqdn s = true) : parseIP s = [] := by
  obtain ⟨hchars, hdot, -⟩ := fqdn_chars hfqdn h
  obtain ⟨ls, c, rest, hne, hls, halpha, hlast, hs⟩ := hfqdn s h
  -- the first separator is a dot, so it is read as an IPv4 address
  have hfind : s.toList.find? (fun c => c = '.' ∨ c = ':' ∨ c = '%') = some '.' := by
    cases hf : s.toList.find? (fun c => c = '.' ∨ c = ':' ∨ c = '%') with
    | none => exact absurd (List.find?_eq_none.1 hf '.' hdot) (by decide)
    | some d =>
      have hd : d = '.' ∨ d = ':' ∨ d = '%' := by simpa using List.find?_some hf
      have hmem := hchars d (List.mem_of_find?_eq_some hf)
      rcases hd with rfl | rfl | rfl
      · rfl
      · rcases List.mem_cons.1 hmem with hd | hd
        · cases hd
        · exact absurd hd (not_mem_nameChars (by decide))
      · rcases List.mem_cons.1 hmem with hd | hd
        · cases hd
        · exact absurd hd (not_mem_nameChars (by decide))
  have hlabel : ∀ l ∈ ls ++ [c :: rest], '.' ∉ l := by
    intro l hl hd
    rcases List.mem_append.1 hl with hl | hl
    · exact not_mem_nameChars (by decide) ((hls l hl).2 '.' hd)
    · rw [List.mem_singleton.1 hl] at hd
      exact not_mem_nameChars (by decide) (alphanumeric_nameChars (hlast '.' hd))
  have hsplit : (['.'].intercalate (ls ++ [c :: rest])).splitOn '.' = ls ++ [c :: rest] :=
    List.splitOn_intercalate '.' hlabel (by simp)
  -- one of its fields is the last label, which begins with a letter
  have hmem : String.ofList (c :: rest) ∈ splitDots s := by
    rw [splitDots]
    refine List.mem_map_of_mem ?_
    rcases hs with hs | hs
    · rw [hs, hsplit]
      simp
    · rw [hs, List.splitOn_append_cons_self, hsplit]
      simp
  have hdigit : c.isDigit = false := by
    rw [Bool.eq_false_iff]
    intro hdigit
    obtain ⟨h48, h57⟩ := isDigit_bounds hdigit
    change (c.isUpper || c.isLower) = true at halpha
    rw [Bool.or_eq_true, isUpper_iff, isLower_iff] at halpha
    omega
  have hoctet : parseOctet (String.ofList (c :: rest)) = none := by
    unfold parseOctet
    split
    · rfl
    · rw [String.toList_ofList, parseDigits, List.isEmpty_cons, if_neg Bool.false_ne_true,
        List.foldlM_cons, hdigit,
        if_neg Bool.false_ne_true]
      rfl
  have hfields : parseIPv4Fields s = none := by
    unfold parseIPv4Fields
    split
    · exact Data.mapM_none hmem hoctet
    · rfl
  rw [parseIP, hfind]
  simp only [hfields, Option.map_none, Option.getD_none]

end Fqdn

section Normal

variable {tags : ValidatorTags} {settings : ProfileSettings} {v : String}
  {ruleSyntax : CustomRuleSyntax}

/-- Whether plain names of the profile include their subdomains. -/
def includesSubdomains (settings : ProfileSettings) : Bool :=
  settings.privacy.customRulesSubdomainsRule ≠ customRulesSubdomainsExact

def IsDomain (ruleSyntax : CustomRuleSyntax) : Prop :=
  ruleSyntax = .fqdn ∨ ruleSyntax = .fqdnWildcard

/-- What a value of a domain syntax is: a name, or a text of the wildcard tag. -/
theorem domain_cases {w : String} (hdot : w.toList.head? ≠ some '.')
    (hsyn : newCustomRuleSyntax tags w = some ruleSyntax) (hdomain : IsDomain ruleSyntax) :
    tags.fqdn w = true ∨ (Wildcard w.toList ∧ ∃ c ∈ w.toList, c ≠ '*' ∧ c ≠ '.') := by
  unfold newCustomRuleSyntax at hsyn
  split at hsyn
  · next hfqdn => exact .inl hfqdn
  · split at hsyn
    · cases hsyn
      rcases hdomain with h | h <;> cases h
    · split at hsyn
      · cases hsyn
        rcases hdomain with h | h <;> cases h
      · split at hsyn
        · next hwild => exact .inr (wildcard_of_validation hdot hwild)
        · split at hsyn
          · cases hsyn
            rcases hdomain with h | h <;> cases h
          · cases hsyn

theorem Wildcard.star {x : List Char} (h : Wildcard x) : '*' ∈ x := by
  cases h <;> simp

/-- The stored form of a value, by what was typed. -/
inductive Normal (sub : Bool) (u w : List Char) : Prop
  | dotted (d : List Char) : u = '.' :: d → w = '*' :: '.' :: d → Normal sub u w
  | kept : u.head? ≠ some '.' → '*' ∈ u → w = u → Normal sub u w
  | exactly : u.head? ≠ some '.' → '*' ∉ u → sub = false → w = u → Normal sub u w
  | tree : u.head? ≠ some '.' → '*' ∉ u → sub = true → w = '*' :: '.' :: u → Normal sub u w

/-- A text that starts with a dot has one in front. -/
theorem hasPrefix_dot {s : String} : hasPrefix s "." = true ↔ ∃ d, s.toList = '.' :: d := by
  rw [hasPrefix_iff]
  exact ⟨fun ⟨d, hd⟩ => ⟨d, hd.symm⟩, fun ⟨d, hd⟩ => ⟨d, hd.symm⟩⟩

theorem head?_ne_dot {s : String} (h : hasPrefix s "." ≠ true) : s.toList.head? ≠ some '.' := by
  intro hhead
  obtain ⟨d, hd⟩ := List.head?_eq_some_iff.1 hhead
  exact h (hasPrefix_dot.2 ⟨d, hd⟩)

/-- A normalized ASN is of no domain syntax. -/
theorem asn_not_domain (hfqdn : FqdnTag tags.fqdn) {w : String}
    (hdigits : ∀ c ∈ w.toList, c.isDigit = true)
    (hsyn : newCustomRuleSyntax tags w = some ruleSyntax) (hdomain : IsDomain ruleSyntax) :
    False := by
  have hno : ∀ c ∈ w.toList, c ≠ '.' ∧ c ≠ '*' := by
    intro c hc
    refine ⟨?_, ?_⟩ <;> rintro rfl <;> exact absurd (hdigits _ hc) (by decide)
  have hdot : w.toList.head? ≠ some '.' := by
    intro h
    exact (hno '.' (List.mem_of_mem_head? h)).1 rfl
  rcases domain_cases hdot hsyn hdomain with h | ⟨h, -⟩
  · exact (hno '.' (fqdn_chars hfqdn h).2.1).1 rfl
  · exact (hno '*' h.star).2 rfl

/-- The last steps of `normalizeRuleValue`, behind the leading dot. -/
theorem normal_of_kept (hfqdn : FqdnTag tags.fqdn) {u w : String} (hdot : u.toList.head? ≠ some '.')
    (hw : w = if settings.privacy.customRulesSubdomainsRule ≠ customRulesSubdomainsExact ∧
        !contains u "*" ∧ !contains u "/" ∧ parseIP u = [] ∧ normalizeASN u = none then
          "*." ++ u else u)
    (hasn : normalizeASN u = none) (hsyn : newCustomRuleSyntax tags w = some ruleSyntax)
    (hdomain : IsDomain ruleSyntax) : Normal (includesSubdomains settings) u.toList w.toList := by
  split at hw
  · next hcond =>
    obtain ⟨hinclude, hstar, -⟩ := hcond
    subst hw
    refine .tree hdot ?_ ?_ (by rw [String.toList_append]; rfl)
    · intro h
      rw [contains_star.2 h] at hstar
      cases hstar
    · simpa [includesSubdomains] using hinclude
  · next hcond =>
    subst hw
    by_cases hstar : '*' ∈ w.toList
    · exact .kept hdot hstar rfl
    · have hno : contains w "*" = false := by
        rw [Bool.eq_false_iff, Ne, contains_star]
        exact hstar
      -- without a star it is a name, which has no slash and is no address
      have hname : tags.fqdn w = true := by
        rcases domain_cases hdot hsyn hdomain with h | ⟨h, -⟩
        · exact h
        · exact absurd h.star hstar
      have hslash : contains w "/" = false := by
        rw [Bool.eq_false_iff, Ne, contains_iff, show "/".toList = ['/'] from rfl,
          List.singleton_infix_iff]
        intro h
        rcases List.mem_cons.1 ((fqdn_chars hfqdn hname).1 '/' h) with h | h
        · cases h
        · exact not_mem_nameChars (by decide) h
      refine .exactly hdot hstar ?_ rfl
      by_contra hinclude
      refine hcond ⟨?_, by rw [hno]; rfl, by rw [hslash]; rfl, parseIP_fqdn hfqdn hname, hasn⟩
      simpa [includesSubdomains] using hinclude

theorem normal_of_domain (hfqdn : FqdnTag tags.fqdn)
    (hsyn : newCustomRuleSyntax tags (normalizeRuleValue settings v) = some ruleSyntax)
    (hdomain : IsDomain ruleSyntax) (hne : normalizeRuleValue settings v ≠ "") :
    Normal (includesSubdomains settings) (trimSuffix (trimSpace v) ".").toList
    (normalizeRuleValue settings v).toList := by
  generalize hw : normalizeRuleValue settings v = w at hsyn hne ⊢
  unfold normalizeRuleValue at hw
  simp only at hw
  split at hw
  · exact absurd hw.symm hne
  generalize trimSuffix (trimSpace v) "." = u at hw ⊢
  by_cases hdot : hasPrefix u "." = true
  · obtain ⟨d, hd⟩ := hasPrefix_dot.1 hdot
    have hstar : contains ("*" ++ u) "*" = true :=
      contains_star.2 (by rw [String.toList_append]; simp)
    have hasn : normalizeASN ("*" ++ u) = none := normalizeASN_star
      (show _ = '*' :: u.toList by rw [String.toList_append]; rfl)
    rw [if_pos hdot, hasn, Option.getD_none, if_neg (by rw [hstar]; simp)] at hw
    exact .dotted d hd (by rw [← hw, String.toList_append, hd]; rfl)
  · rw [if_neg hdot] at hw
    cases hasn : normalizeASN u with
    | none =>
      rw [hasn, Option.getD_none] at hw
      exact normal_of_kept hfqdn (head?_ne_dot hdot) (by rw [← hw]) hasn hsyn hdomain
    | some asn =>
      obtain ⟨hdigits, hself⟩ := normalizeASN_some hasn
      rw [hasn, Option.getD_some, if_neg (by rw [hself]; simp)] at hw
      subst hw
      exact absurd (asn_not_domain hfqdn hdigits hsyn hdomain) id

end Normal

section Lower

variable {cs : List Char}

theorem star_lower : '*' ∈ cs.map toLowerRune ↔ '*' ∈ cs := by
  rw [List.mem_map]
  constructor
  · rintro ⟨c, hc, h⟩
    rwa [(toLowerRune_eq_iff (by decide)).1 h] at hc
  · exact fun h => ⟨'*', h, by decide⟩

theorem dot_lower : '.' ∈ cs.map toLowerRune ↔ '.' ∈ cs := by
  rw [List.mem_map]
  constructor
  · rintro ⟨c, hc, h⟩
    rwa [(toLowerRune_eq_iff (by decide)).1 h] at hc
  · exact fun h => ⟨'.', h, by decide⟩

theorem head_lower : (cs.map toLowerRune).head? ≠ some '.' ↔ cs.head? ≠ some '.' := by
  cases cs with
  | nil => simp
  | cons c cs => simp [toLowerRune_eq_iff (c := c) (d := '.') (by decide)]

theorem Normal.lower {sub : Bool} {u w : List Char} (h : Normal sub u w) :
    Normal sub (u.map toLowerRune) (w.map toLowerRune) := by
  have hstar : toLowerRune '*' = '*' := by decide
  have hdot : toLowerRune '.' = '.' := by decide
  cases h with
  | dotted d hu hw =>
    refine .dotted (d.map toLowerRune) ?_ ?_
    · rw [hu, List.map_cons, hdot]
    · rw [hw, List.map_cons, List.map_cons, hdot, hstar]
  | kept hhead hmem hw => exact .kept (head_lower.2 hhead) (star_lower.2 hmem) (by rw [hw])
  | exactly hhead hmem hsub hw =>
    exact .exactly (head_lower.2 hhead) (fun h => hmem (star_lower.1 h)) hsub (by rw [hw])
  | tree hhead hmem hsub hw =>
    refine .tree (head_lower.2 hhead) (fun h => hmem (star_lower.1 h)) hsub ?_
    rw [hw, List.map_cons, List.map_cons, hdot, hstar]

end Lower

section Reading

variable {sub : Bool} {T W : List Char} {pat : Pattern}

/-- Where a stored text has its stars. -/
inductive Stars : List Char → Prop
  | none {d : List Char} : d ≠ [] → '*' ∉ d → Stars d
  | one {p s : List Char} : '*' ∉ p → '.' ∉ p → '*' ∉ s → Stars (p ++ '*' :: s)
  | under {b : List Char} : '*' ∉ b → b ≠ [] → b.head? ≠ some '.' → Stars (b ++ ['.', '*'])
  | containing {n : List Char} : '*' ∉ n → n ≠ [] → n.head? ≠ some '.' → n.getLast? ≠ some '.' →
      Stars ('*' :: n ++ ['*'])

theorem stars_dotted {d : List Char} (h : Stars ('*' :: '.' :: d)) : '*' ∉ d := by
  generalize hW : '*' :: '.' :: d = W at h
  cases h with
  | none _ hno => exact absurd (by rw [← hW]; exact List.mem_cons_self ..) hno
  | @one p s hp _ hs =>
    cases p with
    | nil =>
      cases hW
      exact fun h => hs (List.mem_cons_of_mem _ h)
    | cons c p =>
      obtain ⟨rfl, -⟩ := List.cons.inj hW
      exact absurd (List.mem_cons_self ..) hp
  | @under b hb hne _ =>
    cases b with
    | nil => exact absurd rfl hne
    | cons c b =>
      obtain ⟨rfl, -⟩ := List.cons.inj hW
      exact absurd (List.mem_cons_self ..) hb
  | @containing n _ hne hhead _ =>
    cases n with
    | nil => exact absurd rfl hne
    | cons c n =>
      cases hW
      exact absurd rfl hhead

theorem stars_containing {n : List Char} (hn : '*' ∉ n) (h : Stars ('*' :: n ++ ['*'])) :
    n ≠ [] ∧ n.getLast? ≠ some '.' := by
  generalize hW : '*' :: n ++ ['*'] = W at h
  have hcount : W.count '*' = 2 := by
    rw [← hW]
    simp [List.count_eq_zero_of_not_mem hn]
  cases h with
  | none _ hno => exact absurd (by rw [← hW]; simp) hno
  | one hp _ hs =>
    simp [List.count_eq_zero_of_not_mem hp, List.count_eq_zero_of_not_mem hs] at hcount
  | under hb _ _ =>
    simp [List.count_eq_zero_of_not_mem hb] at hcount
  | @containing n' _ hne _ hlast =>
    obtain rfl : n = n' := by simpa using hW
    exact ⟨hne, hlast⟩

/-- What was typed reads as a pattern that the stored text stands for. -/
theorem stored_of_reads (hnormal : Normal sub T W) (hstars : Stars W) (h : Reads sub T pat) :
    Stored W pat := by
  cases hnormal with
  | dotted d hT hW =>
    have hd : '*' ∉ d := stars_dotted (hW ▸ hstars)
    have hT' : '*' ∉ T := by
      rw [hT]
      simpa using hd
    rw [hW]
    cases h with
    | name _ hhead => exact absurd (by rw [hT]; rfl) hhead
    | dotted _ =>
      cases hT
      exact .tree hd
    | _ => exact absurd (by simp) hT'
  -- with a star in it the text is stored as it was typed
  | kept hhead hstar hW =>
    rw [hW] at hstars ⊢
    cases h with
    | name hno _ => exact absurd hstar hno
    | dotted _ => exact absurd rfl hhead
    | starred hno => exact .tree hno
    | @under b hno =>
      cases b with
      | nil => exact absurd rfl hhead
      | cons c b => exact .under (List.cons_ne_nil _ _) hhead hno
    | containing hno =>
      obtain ⟨hne, hlast⟩ := stars_containing hno hstars
      exact .containing hne hlast hno
    | @between p s hp hs htree hunder =>
      refine .between hp hs ?_ htree hunder
      cases p with
      | nil => exact nofun
      | cons c p => exact hhead
  -- without one it depends on the setting for subdomains
  | exactly hhead hno hsub hW =>
    rw [hW] at hstars ⊢
    cases h with
    | name _ _ =>
      rw [hsub, if_neg Bool.false_ne_true]
      cases hstars with
      | none hne _ => exact .exactly hne hno hhead
      | _ => exact absurd (by simp) hno
    | dotted _ => exact absurd rfl hhead
    | _ => exact absurd (by simp) hno
  | tree hhead hno hsub hW =>
    rw [hW]
    cases h with
    | name _ _ =>
      rw [hsub, if_pos rfl]
      exact .tree hno
    | dotted _ => exact absurd rfl hhead
    | _ => exact absurd (by simp) hno

/-- What was typed has a reading. -/
theorem reads_exists (hnormal : Normal sub T W) (hstars : Stars W) : ∃ pat, Reads sub T pat := by
  cases hnormal with
  | dotted d hT hW =>
    rw [hT]
    exact ⟨_, .dotted (stars_dotted (hW ▸ hstars))⟩
  | kept hhead hstar hW =>
    rw [hW] at hstars
    cases hstars with
    | none _ hno => exact absurd hstar hno
    | @one p s hp hdot hs =>
      by_cases htree : p = [] ∧ s.head? = some '.'
      · obtain ⟨rfl, hs'⟩ := htree
        obtain ⟨d, rfl⟩ := List.head?_eq_some_iff.1 hs'
        exact ⟨_, .starred fun h => hs (List.mem_cons_of_mem _ h)⟩
      · refine ⟨_, .between hp hs (fun hp' hs' => htree ⟨hp', hs'⟩) fun _ hlast => ?_⟩
        exact hdot (List.mem_of_getLast? hlast)
    | under hb _ _ => exact ⟨_, .under hb⟩
    | containing hn _ _ _ => exact ⟨_, .containing hn⟩
  | exactly hhead hno _ _ => exact ⟨_, .name hno hhead⟩
  | tree hhead hno _ _ => exact ⟨_, .name hno hhead⟩

end Reading

section Names

theorem nameChars_plain {c : Char} (h : c ∈ nameChars) : c ≠ '*' ∧ c ≠ '.' ∧ c ≠ '\n' := by
  refine ⟨?_, ?_, ?_⟩ <;> rintro rfl <;> exact not_mem_nameChars (by decide) h

theorem mem_dotted {c : Char} {ls : List (List Char)} (hls : ∀ l ∈ ls, IsLabel l)
    (h : c ∈ dotted ls) :
    c = '.' ∨ c ∈ nameChars := by
  obtain ⟨part, hpart, hc⟩ := List.mem_flatten.1 h
  obtain ⟨l, hl, rfl⟩ := List.mem_map.1 hpart
  exact (List.mem_cons.1 hc).imp_right ((hls l hl).2 c)

theorem star_not_mem_dotted {ls : List (List Char)} (hls : ∀ l ∈ ls, IsLabel l) :
    '*' ∉ dotted ls := by
  intro h
  rcases mem_dotted hls h with h | h
  · cases h
  · exact (nameChars_plain h).1 rfl

/-- A first label and further ones are a name. -/
theorem isName_dotted {l : List Char} {ls : List (List Char)} (hl : IsLabel l)
    (hls : ∀ l ∈ ls, IsLabel l) :
    IsName (l ++ dotted ls) :=
  ⟨l :: ls, List.cons_ne_nil _ _, List.forall_mem_cons.2 ⟨hl, hls⟩, (intercalate_cons l ls).symm⟩

/-- A text of labels and dots is cut at its dots; a label is empty only where two dots meet or at
the ends. -/
theorem cut_at_dots {n : List Char} (hchars : ∀ c ∈ n, c = '.' ∨ c ∈ nameChars)
    (hlast : n.getLast? ≠ some '.') (hdots : ¬ ['.', '.'] <:+: n) :
    ∃ l ls, n = l ++ dotted ls ∧ (∀ c ∈ l, c ∈ nameChars) ∧ (∀ l ∈ ls, IsLabel l) ∧
      (l = [] → n = [] ∨ n.head? = some '.') := by
  induction n with
  | nil => exact ⟨[], [], rfl, List.forall_mem_nil _, List.forall_mem_nil _, fun _ => .inl rfl⟩
  | cons c n ih =>
    obtain ⟨hc, hn⟩ := List.forall_mem_cons.1 hchars
    have hlast' : n.getLast? ≠ some '.' := by
      intro h
      refine hlast ?_
      rw [List.getLast?_cons, h]
      rfl
    have hdots' : ¬ ['.', '.'] <:+: n := fun h => hdots (h.trans (List.suffix_cons c n).isInfix)
    obtain ⟨l, ls, rfl, hl, hls, hempty⟩ := ih hn hlast' hdots'
    rcases hc with rfl | hc
    · have hne : l ≠ [] := by
        intro hnil
        rcases hempty hnil with h | h
        · rw [h] at hlast
          exact hlast rfl
        · obtain ⟨rest, hrest⟩ := List.head?_eq_some_iff.1 h
          refine hdots ?_
          rw [hrest]
          exact ⟨[], rest, rfl⟩
      refine ⟨[], l :: ls, ?_, List.forall_mem_nil _, List.forall_mem_cons.2 ⟨⟨hne, hl⟩, hls⟩,
        fun _ => .inr rfl⟩
      rw [dotted, dotted, List.map_cons, List.flatten_cons]
      rfl
    · exact ⟨c :: l, ls, rfl, List.forall_mem_cons.2 ⟨hc, hl⟩, hls,
        fun h => absurd h (List.cons_ne_nil _ _)⟩

theorem isName_of_chars {n : List Char} (hchars : ∀ c ∈ n, c = '.' ∨ c ∈ nameChars) (hne : n ≠ [])
    (hhead : n.head? ≠ some '.') (hlast : n.getLast? ≠ some '.') (hdots : ¬ ['.', '.'] <:+: n) :
    IsName n := by
  obtain ⟨l, ls, rfl, hl, hls, hempty⟩ := cut_at_dots hchars hlast hdots
  refine isName_dotted ⟨fun hnil => ?_, hl⟩ hls
  rcases hempty hnil with h | h
  · exact hne h
  · exact hhead h

theorem IsName.no_newline {q : List Char} (h : IsName q) : '\n' ∉ q.map toLowerRune := by
  obtain ⟨ls, -, hls, rfl⟩ := h
  intro hn
  obtain ⟨c, hc, heq⟩ := List.mem_map.1 hn
  obtain rfl := (toLowerRune_eq_iff (by decide)).1 heq
  rcases mem_intercalate hc with h | ⟨l, hl, h⟩
  · cases h
  · exact (nameChars_plain ((hls l hl).2 _ h)).2.2 rfl

/-- The stars of what the wildcard tag accepts. -/
theorem Wildcard.stars {w : List Char} (h : Wildcard w) : Stars (w.map toLowerRune) := by
  have hstar : toLowerRune '*' = '*' := by decide
  have hdot : toLowerRune '.' = '.' := by decide
  cases h with
  | @fqdn p s ls hp hs hls =>
    rw [List.map_append, List.map_cons, hstar]
    refine .one (fun h => ?_) (fun h => ?_) (fun h => ?_)
    · exact (nameChars_plain (hp _ (star_lower.1 h))).1 rfl
    · exact (nameChars_plain (hp _ (dot_lower.1 h))).2.1 rfl
    · rcases List.mem_append.1 (star_lower.1 h) with h | h
      · exact (nameChars_plain (hs _ h)).1 rfl
      · exact star_not_mem_dotted hls h
  | @suffix l ls hl hls =>
    rw [List.map_append, List.map_cons, List.map_cons, List.map_nil, hstar, hdot]
    refine .under (fun h => ?_) (by simp [hl.1]) (head_lower.2 fun h => ?_)
    · rcases List.mem_append.1 (star_lower.1 h) with h | h
      · exact (nameChars_plain (hl.2 _ h)).1 rfl
      · exact star_not_mem_dotted hls h
    · rw [List.head?_append_of_ne_nil _ hl.1] at h
      exact (nameChars_plain (hl.2 _ (List.mem_of_mem_head? h))).2.1 rfl
  | @contains a b m ha hb hm =>
    rw [List.map_append, List.map_cons, List.map_cons, List.map_nil, hstar]
    refine .containing (fun h => ?_) (by simp) (head_lower.2 fun h => ?_) (fun h => ?_)
    · rcases List.mem_append.1 (star_lower.1 h) with h | h
      · rcases List.mem_cons.1 h with rfl | h
        · exact (nameChars_plain (alphanumeric_nameChars ha)).1 rfl
        · rcases List.mem_cons.1 (hm _ h) with h | h
          · cases h
          · exact (nameChars_plain h).1 rfl
      · rw [← List.mem_singleton.1 h] at hb
        exact (nameChars_plain (alphanumeric_nameChars hb)).1 rfl
    · cases h
      exact (nameChars_plain (alphanumeric_nameChars ha)).2.1 rfl
    · rw [List.map_append, List.map_singleton, List.getLast?_concat] at h
      have hb' : toLowerRune b = '.' := by simpa using h
      rw [(toLowerRune_eq_iff (by decide)).1 hb'] at hb
      exact (nameChars_plain (alphanumeric_nameChars hb)).2.1 rfl

end Names

section Meaning

variable {tags : ValidatorTags} {settings : ProfileSettings} {v : String}
  {ruleSyntax : CustomRuleSyntax}

theorem trimSuffix_dot (s : String) : s.toList = (trimSuffix s ".").toList ++ ['.'] ∨
    (trimSuffix s "." = s ∧ s.toList.getLast? ≠ some '.') := by
  by_cases h : hasSuffix s "." = true
  · obtain ⟨r, hr⟩ := hasSuffix_iff.1 h
    have hr' : s.toList = r ++ ['.'] := hr.symm
    refine .inl ?_
    rw [trimSuffix, if_pos h, hr', String.toList_ofList]
    simp
  · refine .inr ⟨by rw [trimSuffix, if_neg h], fun hlast => h (hasSuffix_iff.2 ?_)⟩
    obtain ⟨r, hr⟩ := List.getLast?_eq_some_iff.1 hlast
    exact ⟨r, hr.symm⟩

/-- What is left of a text lies in it. -/
theorem trimSuffix_part (s : String) : (trimSuffix s ".").toList <:+: s.toList := by
  rcases trimSuffix_dot s with h | ⟨h, -⟩
  · exact ⟨[], ['.'], by rw [List.nil_append, ← h]⟩
  · rw [h]

/-- Where the stars of an accepted value stand. -/
theorem stars_of_domain (hfqdn : FqdnTag tags.fqdn) {w : String} (hdot : w.toList.head? ≠ some '.')
    (hne : w ≠ "") (hsyn : newCustomRuleSyntax tags w = some ruleSyntax)
    (hdomain : IsDomain ruleSyntax) :
    Stars (w.toList.map toLowerRune) := by
  rcases domain_cases hdot hsyn hdomain with h | ⟨h, -⟩
  · refine .none (by simpa using hne) fun hstar => ?_
    rcases List.mem_cons.1 ((fqdn_chars hfqdn h).1 _ (star_lower.1 hstar)) with h | h
    · cases h
    · exact (nameChars_plain h).1 rfl
  · exact h.stars

theorem Normal.head {sub : Bool} {u w : List Char} (h : Normal sub u w) : w.head? ≠ some '.' := by
  cases h with
  | dotted d _ hw => rw [hw]; simp
  | kept hhead _ hw => rw [hw]; exact hhead
  | exactly hhead _ _ hw => rw [hw]; exact hhead
  | tree _ _ _ hw => rw [hw]; simp

/-- A text that does not begin with a star and a dot is kept as it was typed. -/
theorem Normal.eq_of_ne {sub : Bool} {u w : List Char} (h : Normal sub u w)
    (htree : ∀ d, w ≠ '*' :: '.' :: d) :
    w = u := by
  cases h with
  | dotted d _ hw => exact absurd hw (htree d)
  | kept _ _ hw => exact hw
  | exactly _ _ _ hw => exact hw
  | tree _ _ _ hw => exact absurd hw (htree u)

section Alive

variable {W : List Char} {q w : String} {pat : Pattern}

/-- A name among those of a stored pattern is matched. -/
theorem alive_of_stored (pat : Pattern) {q : List Char} (hq : IsName q)
    (h : Stored (w.toList.map toLowerRune) pat) (hmatch : pat.Matches (q.map toLowerRune)) :
    ∃ q : String, IsName q.toList ∧ matchDomainPattern q w = true := by
  have hlower : (toLower (String.ofList q)).toList = q.map toLowerRune := by
    rw [toList_toLower, String.toList_ofList]
  refine ⟨String.ofList q, by rw [String.toList_ofList]; exact hq, ?_⟩
  rw [match_stored (toList_toLower w) h (by rw [hlower]; exact hq.no_newline), hlower]
  exact hmatch

theorem lower_star : toLowerRune '*' = '*' := by decide

theorem lower_dot : toLowerRune '.' = '.' := by decide

/-- Labels are lower-cased to labels. -/
theorem star_not_mem_label {l : List Char} {ls : List (List Char)} (hl : ∀ c ∈ l, c ∈ nameChars)
    (hls : ∀ l ∈ ls, IsLabel l) : '*' ∉ (l ++ dotted ls).map toLowerRune := by
  intro h
  rcases List.mem_append.1 (star_lower.1 h) with h | h
  · exact (nameChars_plain (hl _ h)).1 rfl
  · exact star_not_mem_dotted hls h

theorem head_label {l r : List Char} (hl : IsLabel l) :
    ((l ++ r).map toLowerRune).head? ≠ some '.' := by
  refine head_lower.2 fun h => ?_
  rw [List.head?_append_of_ne_nil _ hl.1] at h
  exact (nameChars_plain (hl.2 _ (List.mem_of_mem_head? h))).2.1 rfl

/-- A name that was kept: unless a second trailing dot was left over. -/
theorem alive_name {fqdn : String → Bool} (hfqdn : FqdnTag fqdn) (hname : fqdn w = true)
    (hkept : w.toList = (trimSuffix (trimSpace v) ".").toList)
    (hdots : ¬ ['.', '.'] <:+: (trimSpace v).toList) :
    ∃ q : String, IsName q.toList ∧ matchDomainPattern q w = true := by
  obtain ⟨hchars, hdot, hhead⟩ := fqdn_chars hfqdn hname
  obtain ⟨ls, c, rest, -, hls, -, hlast, hs | hs⟩ := hfqdn w hname
  · have hlabels : ∀ l ∈ ls ++ [c :: rest], IsLabel l := by
      intro l hl
      rcases List.mem_append.1 hl with hl | hl
      · exact hls l hl
      · rw [List.mem_singleton.1 hl]
        exact ⟨List.cons_ne_nil _ _, fun d hd => alphanumeric_nameChars (hlast d hd)⟩
    have hstar : '*' ∉ w.toList := by
      intro h
      rcases List.mem_cons.1 (hchars _ h) with h | h
      · cases h
      · exact (nameChars_plain h).1 rfl
    refine alive_of_stored _ ⟨_, by simp, hlabels, hs⟩
      (.exactly ?_ (fun h => hstar (star_lower.1 h)) (head_lower.2 hhead)) rfl
    exact fun h => List.ne_nil_of_mem hdot (List.map_eq_nil_iff.1 h)
  · exfalso
    rcases trimSuffix_dot (trimSpace v) with h | ⟨h, hend⟩
    · refine hdots ?_
      rw [h, ← hkept, hs]
      exact ⟨['.'].intercalate (ls ++ [c :: rest]), [], by simp⟩
    · rw [h] at hkept
      rw [← hkept, hs] at hend
      exact hend (List.getLast?_concat ..)

/-- A wildcard in a first label: the name without the star. -/
theorem alive_wildcard {p s : List Char} {ls : List (List Char)}
    (hw : w.toList = p ++ '*' :: (s ++ dotted ls)) (hp : ∀ c ∈ p, c ∈ nameChars)
    (hs : ∀ c ∈ s, c ∈ nameChars) (hls : ∀ l ∈ ls, IsLabel l)
    (hplain : ∃ c ∈ w.toList, c ≠ '*' ∧ c ≠ '.') :
    ∃ q : String, IsName q.toList ∧ matchDomainPattern q w = true := by
  by_cases hps : p ++ s = []
  · obtain ⟨rfl, rfl⟩ := List.append_eq_nil_iff.1 hps
    cases ls with
    | nil =>
      obtain ⟨c, hc, hstar, -⟩ := hplain
      rw [hw] at hc
      exact absurd (by simpa [dotted] using hc) hstar
    | cons l ls =>
      obtain ⟨hl, hls⟩ := List.forall_mem_cons.1 hls
      have htree : w.toList = '*' :: '.' :: (l ++ dotted ls) := by
        rw [hw]
        simp [dotted]
      refine alive_of_stored (.tree ((l ++ dotted ls).map toLowerRune))
        (isName_dotted hl hls) ?_ (.inl rfl)
      rw [htree, List.map_cons, List.map_cons, lower_star, lower_dot]
      exact .tree (star_not_mem_label hl.2 hls)
  · have hlabel : IsLabel (p ++ s) := by
      refine ⟨hps, fun c hc => ?_⟩
      rcases List.mem_append.1 hc with hc | hc
      · exact hp c hc
      · exact hs c hc
    have hdot : '.' ∉ p.map toLowerRune := fun h => (nameChars_plain (hp _ (dot_lower.1 h))).2.1 rfl
    refine alive_of_stored (.between (p.map toLowerRune) ((s ++ dotted ls).map toLowerRune))
      (isName_dotted hlabel hls) ?_ ?_
    · rw [hw, List.map_append, List.map_cons, lower_star]
      refine .between (fun h => ?_) (star_not_mem_label hs hls)
        (fun h => hdot (List.mem_of_mem_head? h))
        (fun hnil => ?_) fun _ h => hdot (List.mem_of_getLast? h)
      · exact (nameChars_plain (hp _ (star_lower.1 h))).1 rfl
      · have hp' : p = [] := by simpa using hnil
        exact head_label ⟨fun h => hps (by rw [hp', h]; rfl), hs⟩
    · rw [Pattern.Matches, List.append_assoc, List.map_append, List.length_append]
      exact ⟨List.prefix_append _ _, List.suffix_append _ _, Nat.le_refl _⟩

/-- A wildcard behind labels: the name with one more label. -/
theorem alive_suffix {l : List Char} {ls : List (List Char)}
    (hw : w.toList = l ++ dotted ls ++ ['.', '*']) (hl : IsLabel l) (hls : ∀ l ∈ ls, IsLabel l) :
    ∃ q : String, IsName q.toList ∧ matchDomainPattern q w = true := by
  have hlabels : ∀ l ∈ ls ++ [['a']], IsLabel l := by
    intro k hk
    rcases List.mem_append.1 hk with hk | hk
    · exact hls k hk
    · rw [List.mem_singleton.1 hk]
      exact ⟨List.cons_ne_nil _ _, List.forall_mem_singleton.2
        (List.contains_iff_mem.1 (by decide))⟩
  refine alive_of_stored (.under ((l ++ dotted ls).map toLowerRune))
    (isName_dotted hl hlabels) ?_ ?_
  · rw [hw, List.map_append, List.map_cons, List.map_singleton, lower_star, lower_dot]
    exact .under (by simp [hl.1]) (head_label hl) (star_not_mem_label hl.2 hls)
  · refine ⟨['a'.toLower], ?_⟩
    simp [dotted, lower_dot]
    decide

/-- A text between two stars: the text itself. -/
theorem alive_contains {sub : Bool} {a b : Char} {m : List Char}
    (hw : w.toList = '*' :: (a :: m ++ [b]) ++ ['*']) (ha : a ∈ alphanumeric)
    (hb : b ∈ alphanumeric) (hm : ∀ c ∈ m, c ∈ '.' :: nameChars)
    (hnormal : Normal sub (trimSuffix (trimSpace v) ".").toList w.toList)
    (hdots : ¬ ['.', '.'] <:+: (trimSpace v).toList) :
    ∃ q : String, IsName q.toList ∧ matchDomainPattern q w = true := by
  -- the text begins with a star, so it is stored as it was typed
  have hkept : w.toList = (trimSuffix (trimSpace v) ".").toList := by
    refine hnormal.eq_of_ne fun d hd => ?_
    rw [hw] at hd
    have ha' : a = '.' := by simpa using congrArg (fun l => l.tail.head?) hd
    rw [ha'] at ha
    exact (nameChars_plain (alphanumeric_nameChars ha)).2.1 rfl
  have hmem : ∀ c ∈ a :: m ++ [b], c = '.' ∨ c ∈ nameChars := by
    intro c hc
    rcases List.mem_append.1 hc with hc | hc
    · rcases List.mem_cons.1 hc with rfl | hc
      · exact .inr (alphanumeric_nameChars ha)
      · exact List.mem_cons.1 (hm c hc)
    · rw [List.mem_singleton.1 hc]
      exact .inr (alphanumeric_nameChars hb)
  have hhead : (a :: m ++ [b]).head? ≠ some '.' := by
    intro h
    cases h
    exact (nameChars_plain (alphanumeric_nameChars ha)).2.1 rfl
  have hlast : (a :: m ++ [b]).getLast? ≠ some '.' := by
    intro h
    rw [List.getLast?_concat] at h
    cases h
    exact (nameChars_plain (alphanumeric_nameChars hb)).2.1 rfl
  have hinfix : a :: m ++ [b] <:+: (trimSpace v).toList := by
    refine List.IsInfix.trans ?_ (trimSuffix_part (trimSpace v))
    rw [← hkept, hw]
    exact ⟨['*'], ['*'], by simp⟩
  have hno : '*' ∉ (a :: m ++ [b]).map toLowerRune := by
    intro h
    rcases hmem _ (star_lower.1 h) with h | h
    · cases h
    · exact (nameChars_plain h).1 rfl
  have hwild : Wildcard w.toList := by
    rw [hw]
    exact .contains ha hb hm
  -- it matches the name that stands between the stars
  refine alive_of_stored (.containing ((a :: m ++ [b]).map toLowerRune))
    (isName_of_chars hmem (by simp) hhead hlast fun h => hdots (h.trans hinfix)) ?_ List.infix_rfl
  refine stored_of_reads hnormal.lower hwild.stars ?_
  rw [← hkept, hw, List.map_append, List.map_cons, List.map_singleton, lower_star]
  exact .containing hno

end Alive

/-- **No rule without an empty label is dead.** -/
theorem matches_some (hfqdn : FqdnTag tags.fqdn) (hne : normalizeRuleValue settings v ≠ "")
    (hsyn : newCustomRuleSyntax tags (normalizeRuleValue settings v) = some ruleSyntax)
    (hdomain : IsDomain ruleSyntax) (hdots : ¬ ['.', '.'] <:+: (trimSpace v).toList) :
    ∃ q : String, IsName q.toList ∧ matchDomainPattern q
    (normalizeRuleValue settings v) = true := by
  have hnormal := normal_of_domain hfqdn hsyn hdomain hne
  generalize normalizeRuleValue settings v = w at hne hsyn hnormal ⊢
  rcases domain_cases hnormal.head hsyn hdomain with hname | ⟨hwild, hplain⟩
  · refine alive_name hfqdn hname (hnormal.eq_of_ne fun d hd => ?_) hdots
    have hstar : '*' ∈ w.toList := by rw [hd]; exact List.mem_cons_self ..
    rcases List.mem_cons.1 ((fqdn_chars hfqdn hname).1 _ hstar) with h | h
    · cases h
    · exact (nameChars_plain h).1 rfl
  · generalize hw : w.toList = W at hwild
    cases hwild with
    | fqdn hp hs hls => exact alive_wildcard hw hp hs hls hplain
    | suffix hl hls => exact alive_suffix hw hl hls
    | contains ha hb hm => exact alive_contains hw ha hb hm hnormal hdots

/-- What a stored value means for the names of queries. -/
structure Means (sub : Bool) (v value : String) : Prop where
  reads : ∃ pat, Reads sub (typed v) pat
  /-- The proxy matches the names that the typed pattern documents. -/
  documented : ∀ pat, Reads sub (typed v) pat → ∀ q : String, '\n' ∉ q.toList →
    (matchDomainPattern q value = true ↔ pat.Matches (toLower q).toList)
  alive : ¬ ['.', '.'] <:+: (trimSpace v).toList → ∃ q : String, IsName q.toList ∧
    matchDomainPattern q value = true
  /-- The shortcuts agree with the regular expression, which leaves out the root of a subtree. -/
  shortcuts : ∀ q : String, '\n' ∉ q.toList → (matchDomainPattern q value = true ↔
    matchRegex (toLower value).toList (toLower q).toList = true ∨
      (toLower value).toList = '*' :: '.' :: (toLower q).toList)

/-- **A stored domain rule means what was typed**, in every request that creates rules. -/
theorem rule_meaning (tags : ValidatorTags) (newID : ℕ → RuleID) (settings : ProfileSettings)
    (hfqdn : FqdnTag tags.fqdn) {accountRules : ℕ} {action : String} {values : List String}
    {result : BulkCustomRuleResult} {rule : CustomRule}
    (h : createCustomRulesBulk tags newID settings accountRules action values = .ok result)
    (hrule : rule ∈ result.created) (hdomain : IsDomain rule.ruleSyntax) :
    (∃ v ∈ values, rule.value = normalizeRuleValue settings v) ∧
      ∀ v, rule.value = normalizeRuleValue settings v →
        Means (includesSubdomains settings) v rule.value := by
  obtain ⟨hvalue, hne, hsyn⟩ := created_of_value h hrule
  refine ⟨hvalue, fun v hv => ?_⟩
  rw [hv] at hne hsyn ⊢
  -- what is stored, lower-cased, as what was typed
  have hraw := normal_of_domain hfqdn hsyn hdomain hne
  have hnormal : Normal (includesSubdomains settings) (typed v)
      (toLower (normalizeRuleValue settings v)).toList := by
    rw [typed, toList_toLower, toList_toLower]
    exact hraw.lower
  have hstars : Stars (toLower (normalizeRuleValue settings v)).toList := by
    rw [toList_toLower]
    exact stars_of_domain hfqdn hraw.head hne hsyn hdomain
  have hline : ∀ q : String, '\n' ∉ q.toList → '\n' ∉ (toLower q).toList := by
    intro q hq hn
    rw [toList_toLower] at hn
    obtain ⟨c, hc, heq⟩ := List.mem_map.1 hn
    exact hq ((toLowerRune_eq_iff (by decide)).1 heq ▸ hc)
  -- it matches as the pattern read from what was typed
  have hdocumented : ∀ pat, Reads (includesSubdomains settings) (typed v) pat →
    ∀ q : String, '\n' ∉ q.toList →
      (matchDomainPattern q (normalizeRuleValue settings v) = true ↔
        pat.Matches (toLower q).toList) :=
    fun pat hpat q hq => match_stored rfl (stored_of_reads hnormal hstars hpat) (hline q hq)
  obtain ⟨pat, hpat⟩ := reads_exists hnormal hstars
  refine ⟨⟨pat, hpat⟩, hdocumented, matches_some hfqdn hne hsyn hdomain, fun q hq => ?_⟩
  have hstored := stored_of_reads hnormal hstars hpat
  -- and as the regular expression does, apart from the root of a tree
  have hregex := matchRegex_stored hstored (hline q hq)
  constructor
  · intro hmatch
    refine (hregex.1 ((hdocumented pat hpat q hq).1 hmatch)).imp_right fun htree => ?_
    rw [htree] at hstored
    generalize (toLower (normalizeRuleValue settings v)).toList = W at hstored
    cases hstored
    rfl
  · rintro (hmatch | hroot)
    · exact (hdocumented pat hpat q hq).2 (hregex.2 (.inl hmatch))
    · exact (match_tree rfl rfl hroot (stars_dotted (hroot ▸ hstars))).2 (.inl rfl)

end Meaning

end Accepted

section Examples

def letters : List Char := "abcdefghijklmnopqrstuvwxyzABCDEFGHIJKLMNOPQRSTUVWXYZ".toList

/-- The expression of the tag `fqdn`, without its bounds on lengths. -/
def fqdnRegex : RegularExpression Char :=
  labelRegex * ((RegularExpression.char '.' * labelRegex).star *
    (RegularExpression.char '.' *
      (cls letters * ((cls alphanumeric).star * opt (RegularExpression.char '.')))))

def exampleTags : ValidatorTags where
  fqdn s := fqdnRegex.rmatch s.toList && (s.toList.splitOn '.').all (·.length ≤ 63)
  ip4Addr s := (parseIP s).take 12 = v4InV6Prefix
  ip6Addr s := parseIP s ≠ []

theorem exampleTags_fqdn : FqdnTag exampleTags.fqdn := by
  intro s hs
  have hmatch : fqdnRegex.rmatch s.toList = true := (Bool.and_eq_true_iff.1 hs).1
  rw [RegularExpression.rmatch_iff_matches'] at hmatch
  obtain ⟨l, hl, r₁, hr₁, h₁⟩ := mem_seq.1 hmatch
  obtain ⟨r₂, hr₂, r₃, hr₃, rfl⟩ := mem_seq.1 hr₁
  obtain ⟨dot, hdot, r₄, hr₄, rfl⟩ := mem_seq.1 hr₃
  obtain ⟨first, hfirst, r₅, hr₅, rfl⟩ := mem_seq.1 hr₄
  obtain ⟨rest, hrest, last, hlast, rfl⟩ := mem_seq.1 hr₅
  obtain ⟨ls, hls, rfl⟩ := dotted_of_star (fun l hl => isLabel_labelRegex hl) hr₂
  obtain ⟨c, hc, rfl⟩ := mem_cls.1 hfirst
  obtain rfl := mem_char.1 hdot
  have hletters : letters.all (fun c => c.isAlpha && alphanumeric.contains c) = true := by decide
  obtain ⟨halpha, hcontains⟩ := Bool.and_eq_true_iff.1 (List.all_eq_true.1 hletters c hc)
  refine ⟨l :: ls, c, rest, List.cons_ne_nil _ _, List.forall_mem_cons.2
    ⟨isLabel_labelRegex hl, hls⟩, halpha,
    List.forall_mem_cons.2 ⟨List.contains_iff_mem.1 hcontains, mem_star_cls.1 hrest⟩, ?_⟩
  have hjoin : ['.'].intercalate (l :: ls ++ [c :: rest]) = l ++
      (dotted ls ++ ('.' :: c :: rest)) := by
    rw [List.cons_append, intercalate_cons]
    simp [dotted]
  rw [hjoin, ← h₁]
  rcases mem_opt.1 hlast with rfl | hlast
  · exact .inl (by simp)
  · rw [mem_char.1 hlast]
    exact .inr (by simp)

/-- A rule that is created for `*.ads.com`. -/
def exampleRule : CustomRule :=
  { id := 7, action := .block, value := "*.ads.com", ruleSyntax := .fqdnWildcard }

theorem exampleRule_created :
    createCustomRulesBulk exampleTags (fun _ => 7) newSettings 0 "block" ["*.ads.com"] =
    .ok ⟨.block, 1, [exampleRule], []⟩ := by
  have h : (createCustomRulesBulk exampleTags (fun _ => 7) newSettings 0 "block"
    ["*.ads.com"]).toOption =
      some ⟨.block, 1, [exampleRule], []⟩ := by decide +kernel
  generalize createCustomRulesBulk exampleTags (fun _ => 7) newSettings 0 "block"
    ["*.ads.com"] = result at h
  cases result with
  | error e => cases h
  | ok r => exact congrArg Except.ok (Option.some.inj h)

/-- The shortcut for a subtree has its root, which the regular expression leaves out. -/
theorem shortcut_has_root :
    exampleRule ∈ [exampleRule] ∧ IsDomain exampleRule.ruleSyntax ∧
      createCustomRulesBulk exampleTags (fun _ => 7) newSettings 0 "block" ["*.ads.com"] =
        .ok ⟨.block, 1, [exampleRule], []⟩ ∧
      matchDomainPattern "ads.com" exampleRule.value = true ∧
      matchRegex (toLower exampleRule.value).toList (toLower "ads.com").toList = false :=
  ⟨List.mem_singleton_self _, .inr rfl, exampleRule_created, by decide +kernel, by decide +kernel⟩

theorem rule_meaning_subtree : Means true "*.ads.com" "*.ads.com" :=
  (rule_meaning exampleTags (fun _ => 7) newSettings exampleTags_fqdn exampleRule_created
    (List.mem_singleton_self exampleRule) (.inr rfl)).2 "*.ads.com" (by decide)

end Examples

end ModDNS.Rules
