import ModDNS.Go.Bytes
import Mathlib.Algebra.Order.BigOperators.Group.List

/-!
# Names of a blocklist

Every source passes its names through the same two functions before they are published. What passes
is in ASCII, on one line, and normal already (`normalizeDomain_valid`).
-/

namespace ModDNS.Blocklists

open Go

def bom : String := String.singleton (Char.ofNat 0xFEFF)

def maxDomainLen : ℕ := 253

/-- `strings.TrimRight(s, ".")`. -/
def trimRightDots (s : String) : String := .ofList ((s.toList.reverse.dropWhile (· = '.')).reverse)

/-- The string, with `U+FFFD` for each byte that is part of no character, which `ToLower` turns it
into. -/
def text (bs : Bytes) : String := .ofList (decode bs)

def normalizeDomain (s : String) : String :=
  let s := trimPrefix s bom
  let s := trimSpace s
  let s := trimRightDots s
  toLower s

/-- `[a-z0-9_-]`. -/
def isLabelChar (c : Char) : Bool := c.isLower || c.isDigit || c = '_' || c = '-'

/-- `[a-z]{2,}|xn--[a-z0-9-]+`. -/
def isTopLevel (label : List Char) : Bool :=
  (2 ≤ label.length && label.all Char.isLower) ||
    (['x', 'n', '-', '-'].isPrefixOf label && 5 ≤ label.length && label.all fun c =>
      isLabelChar c && c ≠ '_')

/-- `^([a-z0-9_-]+\\.)+([a-z]{2,}|xn--[a-z0-9-]+)$`. -/
def validDomainRegex (s : String) : Bool :=
  let labels := s.toList.splitOn '.'
  2 ≤ labels.length && labels.dropLast.all (fun label => !label.isEmpty && label.all isLabelChar) &&
    isTopLevel (labels.getLastD [])

def validDomain (s : String) : Bool := len s ≤ maxDomainLen && validDomainRegex s

/-- `scanValidatedDomains`: the names that are published, or no result after an error of the
scanner. -/
def scanValidatedDomains (bs : Bytes) : Option (List String) :=
  (scanLines bs).map fun lines => lines.filterMap fun line =>
    let domain := normalizeDomain (text line)
    if domain = "" || !validDomain domain then none else some domain

section Valid

variable {s : String}

/-- A joined text ends with its last part. -/
theorem intercalate_suffix {α : Type} {sep : α} (init : List (List α)) (last : List α) :
    last <:+ [sep].intercalate (init ++ [last]) := by
  induction init with
  | nil =>
    rw [List.nil_append, List.intercalate_singleton]
  | cons l ls ih =>
    rw [List.cons_append, List.intercalate_cons_of_ne_nil (by simp)]
    exact ih.trans (List.suffix_append _ _)

theorem isTopLevel_chars {label : List Char} (h : isTopLevel label = true) :
    label ≠ [] ∧ ∀ c ∈ label, isLabelChar c = true := by
  unfold isTopLevel at h
  rcases Bool.or_eq_true _ _ ▸ h with h | h
  · rw [Bool.and_eq_true, decide_eq_true_eq] at h
    refine ⟨fun hnil => by rw [hnil] at h; simp at h, fun c hc => ?_⟩
    unfold isLabelChar
    rw [List.all_eq_true.1 h.2 c hc]
    rfl
  · rw [Bool.and_eq_true, Bool.and_eq_true, decide_eq_true_eq] at h
    refine ⟨fun hnil => by rw [hnil] at h; simp at h, fun c hc => ?_⟩
    have hchar := List.all_eq_true.1 h.2 c hc
    rw [Bool.and_eq_true] at hchar
    exact hchar.1

/-- The characters of a valid name, and its last one. -/
theorem validDomain_chars (h : validDomain s = true) :
    (∀ c ∈ s.toList, c = '.' ∨ isLabelChar c = true) ∧ ∃ cs c, s.toList = cs ++ [c] ∧
      isLabelChar c = true := by
  unfold validDomain validDomainRegex at h
  simp only [Bool.and_eq_true, decide_eq_true_eq] at h
  obtain ⟨-, ⟨-, hinit⟩, htop⟩ := h
  have hjoin : ['.'].intercalate (s.toList.splitOn '.') = s.toList := List.intercalate_splitOn '.'
  obtain ⟨init, last, hlabels⟩ :=
    (List.eq_nil_or_concat' (s.toList.splitOn '.')).resolve_left (List.splitOn_ne_nil '.' _)
  rw [hlabels] at hinit htop hjoin
  rw [List.dropLast_concat] at hinit
  rw [List.getLastD_concat] at htop
  obtain ⟨hne, htopChars⟩ := isTopLevel_chars htop
  refine ⟨fun c hc => ?_, ?_⟩
  · rw [← hjoin] at hc
    rcases mem_intercalate hc with hdot | ⟨label, hlabel, hc⟩
    · exact .inl hdot
    · right
      rcases List.mem_append.1 hlabel with hlabel | hlabel
      · have hall := List.all_eq_true.1 hinit label hlabel
        rw [Bool.and_eq_true] at hall
        exact List.all_eq_true.1 hall.2 c hc
      · rw [List.mem_singleton.1 hlabel] at hc
        exact htopChars c hc
  · obtain ⟨pre, hpre⟩ := intercalate_suffix init last
    rw [hjoin] at hpre
    obtain ⟨cs, c, hlast⟩ := (List.eq_nil_or_concat' last).resolve_left hne
    refine ⟨pre ++ cs, c, ?_, ?_⟩
    · rw [← hpre, hlast, List.append_assoc]
    · exact htopChars c (by rw [hlast]; simp)

theorem isLabelChar_bounds {c : Char} (h : isLabelChar c = true) :
    c.toNat = 45 ∨ c.toNat = 95 ∨ (48 ≤ c.toNat ∧ c.toNat ≤ 57) ∨
      (97 ≤ c.toNat ∧ c.toNat ≤ 122) := by
  unfold isLabelChar at h
  simp only [Bool.or_eq_true, decide_eq_true_eq] at h
  rcases h with ((hlower | hdigit) | rfl) | rfl
  · exact .inr (.inr (.inr (isLower_iff.1 hlower)))
  · exact .inr (.inr (.inl (isDigit_bounds hdigit)))
  · exact .inr (.inl rfl)
  · exact .inl rfl

/-- Where the characters of a valid name are among all. -/
theorem validDomain_bounds (h : validDomain s = true) {c : Char} (hc : c ∈ s.toList) :
    c.toNat = 45 ∨ c.toNat = 46 ∨ c.toNat = 95 ∨ (48 ≤ c.toNat ∧ c.toNat ≤ 57) ∨
      (97 ≤ c.toNat ∧ c.toNat ≤ 122) := by
  rcases (validDomain_chars h).1 c hc with rfl | hlabel
  · exact .inr (.inl rfl)
  · have hbounds := isLabelChar_bounds hlabel
    omega

theorem validDomain_ascii (h : validDomain s = true) {c : Char} (hc : c ∈ s.toList) :
    c.toNat < 0x80 := by
  have hbounds := validDomain_bounds h hc
  omega

theorem validDomain_ne (h : validDomain s = true) : s ≠ "" := by
  obtain ⟨-, cs, c, hs, -⟩ := validDomain_chars h
  rw [ne_empty_iff, hs]
  simp

theorem validDomain_lower (h : validDomain s = true) : toLower s = s := by
  have hsame : ∀ c ∈ s.toList, toLowerRune c = id c := by
    intro c hc
    have hbounds := validDomain_bounds h hc
    exact toLowerRune_eq (by omega)
  have hmap : s.toList.map toLowerRune = s.toList := by
    rw [List.map_congr_left hsame, List.map_id]
  unfold toLower
  rw [hmap, String.ofList_toList]

theorem validDomain_trimSpace (h : validDomain s = true) : trimSpace s = s := by
  apply trimSpace_eq
  intro c hc
  have hbounds := validDomain_bounds h hc
  simp only [isSpace, Bool.or_eq_false_iff, Bool.and_eq_false_iff, decide_eq_false_iff_not,
    beq_eq_false_iff_ne]
  omega

theorem validDomain_trimRightDots (h : validDomain s = true) : trimRightDots s = s := by
  obtain ⟨-, cs, c, hs, hc⟩ := validDomain_chars h
  have hdot : c ≠ '.' := by
    rintro rfl
    exact absurd hc (by decide)
  unfold trimRightDots
  rw [hs, List.reverse_append, List.reverse_singleton, List.singleton_append,
    List.dropWhile_cons_of_neg (by simpa using hdot), List.reverse_cons, List.reverse_reverse, ← hs,
      String.ofList_toList]

theorem validDomain_trimBom (h : validDomain s = true) : trimPrefix s bom = s := by
  have hnot : ¬ hasPrefix s bom = true := by
    rw [hasPrefix_iff]
    intro hpre
    have hmem : Char.ofNat 0xFEFF ∈ s.toList := hpre.subset (by simp [bom])
    exact absurd (validDomain_ascii h hmem) (by decide)
  unfold trimPrefix
  rw [if_neg hnot]

/-- **A valid name is normal.** -/
theorem normalizeDomain_valid (h : validDomain s = true) : normalizeDomain s = s := by
  unfold normalizeDomain
  simp only
  rw [validDomain_trimBom h, validDomain_trimSpace h, validDomain_trimRightDots h,
    validDomain_lower h]

/-- A valid name is read back from its bytes. -/
theorem text_encode (h : validDomain s = true) : text (encode s) = s := by
  have hascii : ∀ c ∈ s.toList, c.toNat < 0x80 := fun c hc => validDomain_ascii h hc
  unfold text
  rw [encode_ascii hascii, decode_map_byte hascii, String.ofList_toList]

theorem length_le (h : validDomain s = true) : s.toList.length ≤ maxDomainLen := by
  have hlen : len s ≤ maxDomainLen := by
    unfold validDomain at h
    rw [Bool.and_eq_true, decide_eq_true_eq] at h
    exact h.1
  have hsum : s.toList.length ≤ len s := by
    have hle := List.length_le_sum_of_one_le (s.toList.map Char.utf8Size) fun n hn => by
      obtain ⟨c, -, rfl⟩ := List.mem_map.1 hn
      exact Char.utf8Size_pos c
    rwa [List.length_map] at hle
  omega

/-- What a scan publishes is valid. -/
theorem scan_valid {bs : Bytes} {names : List String} (h : scanValidatedDomains bs = some names) :
    ∀ d ∈ names, validDomain d = true := by
  obtain ⟨lines, -, rfl⟩ := Option.map_eq_some_iff.1 h
  intro d hd
  obtain ⟨line, -, hline⟩ := List.mem_filterMap.1 hd
  simp only [Option.ite_none_left_eq_some, Bool.or_eq_true, Bool.not_eq_true', not_or,
    Option.some.injEq] at hline
  obtain ⟨⟨-, hvalid⟩, rfl⟩ := hline
  simpa using hvalid

/-- The line of a valid name. -/
theorem line_valid (h : validDomain s = true) :
    (encode s).length < maxScanTokenSize ∧ dropCR (encode s) = encode s ∧ encode s ≠ [] ∧
      byte '\n' ∉ encode s := by
  have hascii : ∀ c ∈ s.toList, c.toNat < 0x80 := fun c hc => validDomain_ascii h hc
  have hbyte : ∀ b ∈ encode s, b.toNat ≠ 10 ∧ b.toNat ≠ 13 := by
    intro b hb
    rw [encode_ascii hascii] at hb
    obtain ⟨c, hc, rfl⟩ := List.mem_map.1 hb
    have hbounds := validDomain_bounds h hc
    rw [byte_toNat (hascii c hc)]
    omega
  refine ⟨?_, ?_, ?_, fun hin => (hbyte _ hin).1 rfl⟩
  · have hlen := length_le h
    rw [encode_ascii hascii, List.length_map]
    exact Nat.lt_of_le_of_lt hlen (by decide)
  · unfold dropCR
    rw [if_neg]
    intro hlast
    exact (hbyte _ (List.mem_of_getLast? hlast)).2 rfl
  · rw [encode_ascii hascii]
    intro hnil
    have hempty : s = String.ofList [] := by rw [← List.map_eq_nil_iff.1 hnil, String.ofList_toList]
    exact validDomain_ne h hempty

theorem flatMap_intercalate {α β : Type} {f : α → List β} {sep : α} {b : β} (h : f sep = [b])
    (ls : List (List α)) :
    ([sep].intercalate ls).flatMap f = [b].intercalate (ls.map fun l => l.flatMap f) := by
  induction ls with
  | nil => rfl
  | cons l ls ih =>
    by_cases hls : ls = []
    · subst hls
      rw [List.map_singleton, List.intercalate_singleton, List.intercalate_singleton]
    · rw [List.intercalate_cons_of_ne_nil hls, List.map_cons,
        List.intercalate_cons_of_ne_nil (by simpa using hls),
        List.flatMap_append, List.flatMap_append, ih, List.flatMap_singleton, h]

theorem filterMap_map_some {α β : Type} {f : β → Option α} {g : α → β} {l : List α}
    (h : ∀ x ∈ l, f (g x) = some x) :
    (l.map g).filterMap f = l := by
  induction l with
  | nil => rfl
  | cons x l ih =>
    obtain ⟨hx, hl⟩ := List.forall_mem_cons.1 h
    rw [List.map_cons, List.filterMap_cons_some hx, ih hl]

theorem encode_join (ds : List String) :
    encode (join ds '\n') = [byte '\n'].intercalate (ds.map encode) := by
  unfold encode join
  rw [String.toList_ofList, flatMap_intercalate (b := byte '\n')
    (encode_char (by decide)), List.map_map]
  rfl

/-- **Valid names that were joined are read back.** -/
theorem scan_join {ds : List String} (h : ∀ d ∈ ds, validDomain d = true) :
    scanValidatedDomains (encode (join ds '\n')) = some ds := by
  have hlines : scanLines (encode (join ds '\n')) = some (ds.map encode) := by
    unfold scanLines
    rw [encode_join]
    by_cases hds : ds = []
    · subst hds
      rfl
    · have hsplit : ([byte '\n'].intercalate (ds.map encode)).splitOn (byte '\n') =
          ds.map encode := by
        refine List.splitOn_intercalate _ (fun l hl => ?_) (by simpa using hds)
        obtain ⟨d, hd, rfl⟩ := List.mem_map.1 hl
        exact (line_valid (h d hd)).2.2.2
      have hlast : ¬ (ds.map encode).getLast? = some [] := by
        intro hlast
        obtain ⟨d, hd, hnil⟩ := List.mem_map.1 (List.mem_of_getLast? hlast)
        exact (line_valid (h d hd)).2.2.1 hnil
      have hshort : (ds.map encode).all (fun line => line.length < maxScanTokenSize) = true := by
        rw [List.all_eq_true]
        intro l hl
        obtain ⟨d, hd, rfl⟩ := List.mem_map.1 hl
        exact decide_eq_true (line_valid (h d hd)).1
      have hdrop : (ds.map encode).map dropCR = ds.map encode := by
        rw [List.map_map]
        exact List.map_congr_left fun d hd => (line_valid (h d hd)).2.1
      simp only [hsplit]
      rw [if_neg hlast, if_pos hshort, hdrop]
  unfold scanValidatedDomains
  rw [hlines, Option.map_some]
  refine congrArg some (filterMap_map_some fun d hd => ?_)
  have hvalid : validDomain d = true := h d hd
  simp only [text_encode hvalid, normalizeDomain_valid hvalid, hvalid, validDomain_ne hvalid]
  rfl

end Valid

end ModDNS.Blocklists
