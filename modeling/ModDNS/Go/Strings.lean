import Mathlib.Algebra.Ring.Nat
import Mathlib.Data.List.Infix
import Mathlib.Data.String.Defs

/-!
# Go's string functions

The functions of Go's `strings`, `unicode` and `strconv` packages that the code
calls, on the characters of a string.
-/

namespace ModDNS.Go

/-- `unicode.ToLower`. Go maps every other non-ASCII letter to a non-ASCII one, which
no name on the wire and no stored key contains; those are left alone. -/
def toLowerRune (c : Char) : Char :=
  if c = Char.ofNat 0x130 then 'i' else if c = Char.ofNat 0x212A then 'k' else c.toLower

def toLower (s : String) : String := .ofList (s.toList.map toLowerRune)

theorem toLower_capital {c : Char} (h : 65 ≤ c.val ∧ c.val ≤ 90) :
    c.toLower.val = c.val + ('a'.val - 'A'.val) := by
  have hcapital : c.toLower = ⟨c.val + ('a'.val - 'A'.val), _⟩ := dif_pos h
  rw [hcapital]

theorem toLower_other {c : Char} (h : ¬ (65 ≤ c.val ∧ c.val ≤ 90)) : c.toLower = c := dif_neg h

theorem toUpper_other {c : Char} (h : ¬ (97 ≤ c.val ∧ c.val ≤ 122)) : c.toUpper = c := dif_neg h

theorem isLower_iff {c : Char} : c.isLower = true ↔ 97 ≤ c.toNat ∧ c.toNat ≤ 122 := by
  change (decide (97 ≤ c.val) && decide (c.val ≤ 122)) = true ↔ _
  rw [Bool.and_eq_true, decide_eq_true_eq, decide_eq_true_eq]
  rfl

theorem isUpper_iff {c : Char} : c.isUpper = true ↔ 65 ≤ c.toNat ∧ c.toNat ≤ 90 := by
  change decide (65 ≤ c.val ∧ c.val ≤ 90) = true ↔ _
  rw [decide_eq_true_eq]
  rfl

/-- ASCII apart from the capitals stays as it is. -/
theorem toLowerRune_eq {c : Char} (h : c.toNat < 65 ∨ (90 < c.toNat ∧ c.toNat < 128)) :
    toLowerRune c = c := by
  have h1 : c ≠ Char.ofNat 0x130 := by rintro rfl; revert h; decide
  have h2 : c ≠ Char.ofNat 0x212A := by rintro rfl; revert h; decide
  rw [toLowerRune, if_neg h1, if_neg h2]
  refine toLower_other ?_
  rintro ⟨hA, hZ⟩
  have hA' : 65 ≤ c.toNat := hA
  have hZ' : c.toNat ≤ 90 := hZ
  omega
theorem toNat_toLowerRune {c : Char} (h : 65 ≤ c.toNat) (h' : c.toNat ≤ 90) :
    (toLowerRune c).toNat = c.toNat + 32 := by
  have h1 : c ≠ Char.ofNat 0x130 := by rintro rfl; revert h'; decide
  have h2 : c ≠ Char.ofNat 0x212A := by rintro rfl; revert h'; decide
  rw [toLowerRune, if_neg h1, if_neg h2]
  show c.toLower.val.toNat = c.val.toNat + 32
  rw [toLower_capital ⟨h, h'⟩]
  have hc : c.val.toNat ≤ 90 := h'
  rw [UInt32.toNat_add, show ('a'.val - 'A'.val).toNat = 32 from rfl]
  omega

/-- A character that is not a letter comes from itself only. -/
theorem toLowerRune_eq_iff {c d : Char} (h : d.toNat < 97 ∧ (d.toNat < 65 ∨ 90 < d.toNat)) :
    toLowerRune c = d ↔ c = d := by
  constructor
  · intro hc
    by_cases h1 : c = Char.ofNat 0x130
    · subst h1
      subst hc
      revert h
      decide
    by_cases h2 : c = Char.ofNat 0x212A
    · subst h2
      subst hc
      revert h
      decide
    by_cases hup : 65 ≤ c.toNat ∧ c.toNat ≤ 90
    · have := toNat_toLowerRune hup.1 hup.2
      rw [hc] at this
      omega
    · rw [← hc, toLowerRune, if_neg h1, if_neg h2]
      exact (toLower_other hup).symm
  · rintro rfl
    exact toLowerRune_eq (by omega)

/-- `unicode.ToUpper`, on ASCII and on what it maps into ASCII. -/
def toUpperRune (c : Char) : Char :=
  if c = Char.ofNat 0x17F then 'S' else if c = Char.ofNat 0x131 then 'I' else c.toUpper

def toUpper (s : String) : String := .ofList (s.toList.map toUpperRune)

/-- `s[n:]`, which cuts bytes; `none` where the cut splits a character. -/
def sliceFrom (s : String) : ℕ → Option String :=
  go s.toList
where
  go : List Char → ℕ → Option String
    | cs, 0 => some (.ofList cs)
    | [], _ + 1 => none
    | c :: cs, n + 1 => if c.utf8Size ≤ n + 1 then go cs (n + 1 - c.utf8Size) else none

/-- `len(s)`: the number of bytes. -/
def len (s : String) : ℕ := (s.toList.map Char.utf8Size).sum

/-- `s[:n]`, which cuts bytes; `none` where the cut splits a character. -/
def sliceTo (s : String) (n : ℕ) : Option String := (go s.toList n).map .ofList
where
  go : List Char → ℕ → Option (List Char)
    | _, 0 => some []
    | [], _ + 1 => none
    | c :: cs, n + 1 =>
      if c.utf8Size ≤ n + 1 then (go cs (n + 1 - c.utf8Size)).map (c :: ·) else none

theorem len_append (s t : String) : len (s ++ t) = len s + len t := by
  simp [len, String.toList_append]

theorem sliceTo_append (s t : String) : sliceTo (s ++ t) (len s) = some s := by
  have hgo : ∀ cs ds : List Char, sliceTo.go (cs ++ ds) (cs.map Char.utf8Size).sum = some cs := by
    intro cs ds
    induction cs with
    | nil => rw [List.map_nil, List.sum_nil, sliceTo.go]
    | cons c cs ih =>
      have hpos : 0 < c.utf8Size := Char.utf8Size_pos c
      obtain ⟨n, hn⟩ : ∃ n, ((c :: cs).map Char.utf8Size).sum = n + 1 :=
        ⟨_, (Nat.succ_pred_eq_of_pos (by simp; omega)).symm⟩
      have hsum : n + 1 - c.utf8Size = (cs.map Char.utf8Size).sum := by
        rw [← hn, List.map_cons, List.sum_cons]
        omega
      have hle : c.utf8Size ≤ n + 1 := by
        rw [← hn, List.map_cons, List.sum_cons]
        omega
      rw [List.cons_append, hn, sliceTo.go, if_pos hle, hsum, ih, Option.map_some]
  rw [sliceTo, len, String.toList_append, hgo, Option.map_some, String.ofList_toList]

/-- `unicode.IsSpace`. -/
def isSpace (c : Char) : Bool :=
  let n := c.toNat
  (9 ≤ n && n ≤ 13) || n == 0x20 || n == 0x85 || n == 0xA0 || n == 0x1680 ||
    (0x2000 ≤ n && n ≤ 0x200A) || n == 0x2028 || n == 0x2029 || n == 0x202F ||
      n == 0x205F || n == 0x3000

def trimSpace (s : String) : String :=
  .ofList (((s.toList.dropWhile isSpace).reverse.dropWhile isSpace).reverse)

theorem trimSpace_eq {s : String} (h : ∀ c ∈ s.toList, isSpace c = false) : trimSpace s = s := by
  have hdrop : ∀ cs : List Char, (∀ c ∈ cs, isSpace c = false) → cs.dropWhile isSpace = cs := by
    intro cs hcs
    cases cs with
    | nil => rfl
    | cons c cs => rw [List.dropWhile_cons_of_neg (by simp [hcs c (by simp)])]
  rw [trimSpace, hdrop _ h, hdrop _ fun c hc => h c (List.mem_reverse.1 hc), List.reverse_reverse,
    String.ofList_toList]

/-- A text that does not start with a space keeps its first character. -/
theorem trimSpace_cons {s : String} {c : Char} {cs : List Char} (hs : s.toList = c :: cs)
    (h : isSpace c = false) :
    ∃ cs', (trimSpace s).toList = c :: cs' := by
  have hdrop : (c :: cs).dropWhile isSpace = c :: cs := List.dropWhile_cons_of_neg (by simp [h])
  have hkeep : ∀ ds : List Char, ∃ ds', (ds ++ [c]).dropWhile isSpace = ds' ++ [c] := by
    intro ds
    rw [List.dropWhile_append]
    split
    · exact ⟨[], by rw [List.dropWhile_cons_of_neg (by simp [h]), List.nil_append]⟩
    · exact ⟨_, rfl⟩
  obtain ⟨ds', hds⟩ := hkeep cs.reverse
  exact ⟨ds'.reverse, by rw [trimSpace, String.toList_ofList, hs, hdrop, List.reverse_cons, hds,
    List.reverse_append, List.reverse_singleton, List.singleton_append]⟩

theorem trimSpace_trimSpace (s : String) : trimSpace (trimSpace s) = trimSpace s := by
  have hdrop : ∀ cs : List Char, (cs.dropWhile isSpace).dropWhile isSpace =
      cs.dropWhile isSpace := by
    intro cs
    induction cs with
    | nil => rfl
    | cons c cs ih =>
      cases hc : isSpace c with
      | true => rw [List.dropWhile_cons_of_pos hc, ih]
      | false =>
        rw [List.dropWhile_cons_of_neg (by simp [hc]), List.dropWhile_cons_of_neg (by simp [hc])]
  -- what is left begins as before, so that nothing is dropped in front
  have hfront :
    ((((s.toList.dropWhile isSpace).reverse.dropWhile isSpace).reverse).dropWhile isSpace) =
      ((s.toList.dropWhile isSpace).reverse.dropWhile isSpace).reverse := by
    have hsuffix := List.dropWhile_suffix isSpace (l := (s.toList.dropWhile isSpace).reverse)
    rw [← List.reverse_prefix, List.reverse_reverse] at hsuffix
    cases hleft : ((s.toList.dropWhile isSpace).reverse.dropWhile isSpace).reverse with
    | nil => rfl
    | cons c cs =>
      rw [hleft] at hsuffix
      obtain ⟨ds, hds⟩ := hsuffix
      have hagain := hdrop s.toList
      rw [← hds] at hagain
      cases hc : isSpace c with
      | true =>
        rw [List.cons_append, List.dropWhile_cons_of_pos hc] at hagain
        have hlength := congrArg List.length hagain
        have hle := (List.dropWhile_sublist isSpace (l := cs ++ ds)).length_le
        rw [List.length_cons] at hlength
        omega
      | false => rw [List.dropWhile_cons_of_neg (by simp [hc])]
  unfold trimSpace
  rw [String.toList_ofList, hfront, List.reverse_reverse, hdrop]

/-- A text without spaces at its ends is not trimmed. -/
theorem trimSpace_ends {s : String} (hhead : ∀ c ∈ s.toList.head?, isSpace c = false)
    (hlast : ∀ c ∈ s.toList.getLast?, isSpace c = false) : trimSpace s = s := by
  have hdrop : ∀ cs : List Char, (∀ c ∈ cs.head?, isSpace c = false) →
      cs.dropWhile isSpace = cs := by
    intro cs hcs
    cases cs with
    | nil => rfl
    | cons c cs => exact List.dropWhile_cons_of_neg (by simp [hcs c rfl])
  have hback : ∀ c ∈ s.toList.reverse.head?, isSpace c = false := by
    rw [List.head?_reverse]
    exact hlast
  rw [trimSpace, hdrop _ hhead, hdrop _ hback, List.reverse_reverse, String.ofList_toList]

/-- A text that begins and ends with no space stays at the end. -/
theorem trimSpace_tail {b t : String} (hne : t.toList ≠ [])
    (hhead : ∀ c ∈ t.toList.head?, isSpace c = false)
    (hlast : ∀ c ∈ t.toList.getLast?, isSpace c = false) : ∃ x, trimSpace (b ++ t) = x ++ t := by
  have hleft : ∃ x, (b ++ t).toList.dropWhile isSpace = x ++ t.toList := by
    rw [String.toList_append, List.dropWhile_append]
    split
    · refine ⟨[], ?_⟩
      cases ht : t.toList with
      | nil => exact absurd ht hne
      | cons c cs =>
        rw [ht] at hhead
        exact List.dropWhile_cons_of_neg (by simp [hhead c rfl])
    · exact ⟨_, rfl⟩
  obtain ⟨x, hx⟩ := hleft
  have hright : (x ++ t.toList).reverse.dropWhile isSpace = (x ++ t.toList).reverse := by
    cases ht : t.toList.reverse with
    | nil => exact absurd (List.reverse_eq_nil_iff.1 ht) hne
    | cons c cs =>
      have hc : isSpace c = false := by
        refine hlast c ?_
        rw [List.getLast?_eq_head?_reverse, ht]
        rfl
      rw [List.reverse_append, ht]
      exact List.dropWhile_cons_of_neg (by simp [hc])
  refine ⟨.ofList x, ?_⟩
  rw [trimSpace, hx, hright, List.reverse_reverse, String.ofList_append, String.ofList_toList]

/-- A trimmed text does not start with a space. -/
theorem head_trimSpace {s : String} {c : Char} (h : (trimSpace s).toList.head? = some c) :
    isSpace c = false := by
  obtain ⟨cs, hcs⟩ := List.head?_eq_some_iff.1 h
  rw [Bool.eq_false_iff]
  intro hspace
  have hagain := congrArg (fun t : String => t.toList.length) (trimSpace_trimSpace s)
  rw [trimSpace, String.toList_ofList, hcs, List.dropWhile_cons_of_pos hspace,
    List.length_reverse] at hagain
  have hle := (List.dropWhile_sublist isSpace (l := (cs.dropWhile isSpace).reverse)).length_le
  rw [List.length_reverse] at hle
  have hle' := (List.dropWhile_sublist isSpace (l := cs)).length_le
  rw [List.length_cons] at hagain
  omega

/-- `strings.Trim`. -/
def trim (s cutset : String) : String :=
  .ofList (((s.toList.dropWhile (· ∈ cutset.toList)).reverse.dropWhile (· ∈ cutset.toList)).reverse)

def hasPrefix (s pre : String) : Bool := pre.toList.isPrefixOf s.toList

def hasSuffix (s suf : String) : Bool := suf.toList.isSuffixOf s.toList

/-- `strings.TrimPrefix`. -/
def trimPrefix (s pre : String) : String :=
  if hasPrefix s pre then .ofList (s.toList.drop pre.toList.length) else s

/-- `strings.TrimSuffix`, and the first result of `strings.CutSuffix`. -/
def trimSuffix (s suf : String) : String :=
  if hasSuffix s suf then .ofList (s.toList.take (s.toList.length - suf.toList.length)) else s

/-- `sub` starts somewhere in `s`. -/
def containsList (sub : List Char) : List Char → Bool
  | [] => sub.isPrefixOf []
  | c :: cs => sub.isPrefixOf (c :: cs) || containsList sub cs

/-- `strings.Contains`. -/
def contains (s sub : String) : Bool := containsList sub.toList s.toList

section Lists

variable {s sub : String} {c : Char}

theorem toList_toLower (s : String) : (toLower s).toList = s.toList.map toLowerRune := by
  rw [toLower, String.toList_ofList]

theorem hasPrefix_iff : hasPrefix s sub = true ↔ sub.toList <+: s.toList :=
  List.isPrefixOf_iff_prefix

theorem hasSuffix_iff : hasSuffix s sub = true ↔ sub.toList <:+ s.toList :=
  List.isSuffixOf_iff_suffix

/-- A suffix that is not there is not cut. -/
theorem trimSuffix_of_not {s suf : String} (h : ¬ suf.toList <:+ s.toList) : trimSuffix s suf = s :=
  if_neg fun hhas => h (hasSuffix_iff.1 hhas)

theorem containsList_iff {sub cs : List Char} : containsList sub cs = true ↔ sub <:+: cs := by
  induction cs with
  | nil => rw [containsList, List.isPrefixOf_iff_prefix, List.prefix_nil, List.infix_nil]
  | cons c cs ih =>
    rw [containsList, Bool.or_eq_true, List.isPrefixOf_iff_prefix, ih, List.infix_cons_iff]

theorem contains_iff : contains s sub = true ↔ sub.toList <:+: s.toList := containsList_iff

theorem ne_empty_iff : s ≠ "" ↔ s.toList ≠ [] := by simp

end Lists

/-- `strings.ReplaceAll` of a text that is not empty: `skip` characters belong to the
occurrence replaced last. -/
def replaceAllList (old new : List Char) : ℕ → List Char → List Char
  | _, [] => []
  | skip + 1, _ :: cs => replaceAllList old new skip cs
  | 0, c :: cs =>
    if old.isPrefixOf (c :: cs) then new ++ replaceAllList old new (old.length - 1) cs
    else c :: replaceAllList old new 0 cs

def replaceAll (s old new : String) : String :=
  .ofList (replaceAllList old.toList new.toList 0 s.toList)

/-- `strings.Split` by one character. -/
def split (s : String) (sep : Char) : List String := (s.toList.splitOn sep).map .ofList

/-- `strings.Join` with one character. -/
def join (parts : List String) (sep : Char) : String :=
  .ofList ([sep].intercalate (parts.map String.toList))

theorem mem_intercalate {α : Type} {sep c : α} {ls : List (List α)} (h : c ∈ [sep].intercalate ls) :
    c = sep ∨ ∃ l ∈ ls, c ∈ l := by
  induction ls with
  | nil => cases h
  | cons l ls ih =>
    by_cases hls : ls = []
    · subst hls
      rw [List.intercalate_singleton] at h
      exact .inr ⟨l, List.mem_cons_self, h⟩
    · rw [List.intercalate_cons_of_ne_nil hls] at h
      rcases List.mem_append.1 h with h | h
      · rcases List.mem_append.1 h with h | h
        · exact .inr ⟨l, List.mem_cons_self, h⟩
        · exact .inl (List.mem_singleton.1 h)
      · rcases ih h with h | ⟨l', hl', hc⟩
        · exact .inl h
        · exact .inr ⟨l', List.mem_cons_of_mem _ hl', hc⟩

/-- The characters of a joined text. -/
theorem mem_join {parts : List String} {sep c : Char} (h : c ∈ (join parts sep).toList) :
    c = sep ∨ ∃ s ∈ parts, c ∈ s.toList := by
  rw [join, String.toList_ofList] at h
  simpa using mem_intercalate h

theorem join_split (s : String) (sep : Char) : join (split s sep) sep = s := by
  rw [join, split, List.map_map]
  simp [Function.comp_def]

theorem split_join {parts : List String} {sep : Char} (hne : parts ≠ [])
    (h : ∀ s ∈ parts, sep ∉ s.toList) :
    split (join parts sep) sep = parts := by
  unfold split join
  rw [String.toList_ofList, List.splitOn_intercalate]
  · rw [List.map_map]
    simp [Function.comp_def]
  · intro l hl
    obtain ⟨s, hs, rfl⟩ := List.mem_map.1 hl
    exact h s hs
  · simpa using hne

theorem split_append {s : String} {sep : Char} (t : String) (h : sep ∉ t.toList) :
    split (s ++ String.singleton sep ++ t) sep = split s sep ++ [t] := by
  have htext : (s ++ String.singleton sep ++ t).toList = s.toList ++ sep :: t.toList := by
    simp [String.toList_append]
  rw [split, htext, List.splitOn_append_cons_self, List.splitOn_eq_singleton h]
  simp [split]

/-- `strings.Split(s, ".")`. -/
def splitDots (s : String) : List String := (s.toList.splitOn '.').map .ofList

/-- `strings.Join(parts, ".")`. -/
def joinDots (parts : List String) : String := ".".intercalate parts

/-- A run of decimal digits, read as a number. -/
def parseDigits (cs : List Char) : Option ℕ :=
  if cs.isEmpty then none
  else cs.foldlM (fun n c => if c.isDigit then some (10 * n + (c.toNat - '0'.toNat)) else none) 0

/-- `strconv.ParseUint(s, 10, bits)`; `none` is an error. -/
def parseUint (bits : ℕ) (s : String) : Option ℕ :=
  (parseDigits s.toList).bind fun n => if n < 2 ^ bits then some n else none

theorem isDigit_bounds {c : Char} (h : c.isDigit = true) : 48 ≤ c.toNat ∧ c.toNat ≤ 57 := by
  simp only [Char.isDigit, Bool.and_eq_true, decide_eq_true_eq, ge_iff_le,
    UInt32.le_iff_toNat_le] at h
  exact h

theorem isDigit_not_space {c : Char} (h : c.isDigit = true) : isSpace c = false := by
  have hbounds := isDigit_bounds h
  simp only [isSpace, Bool.or_eq_false_iff, Bool.and_eq_false_iff, decide_eq_false_iff_not,
    beq_eq_false_iff_ne]
  omega

theorem toUpperRune_digit {c : Char} (h : c.isDigit = true) : toUpperRune c = c := by
  have hbounds := isDigit_bounds h
  have h1 : c ≠ Char.ofNat 0x17F := by rintro rfl; revert hbounds; decide
  have h2 : c ≠ Char.ofNat 0x131 := by rintro rfl; revert hbounds; decide
  rw [toUpperRune, if_neg h1, if_neg h2]
  refine toUpper_other ?_
  rintro ⟨ha, -⟩
  have ha' : 97 ≤ c.toNat := ha
  omega

theorem toList_toString (n : ℕ) : (toString n).toList = Nat.toDigits 10 n := by
  rw [Nat.toString_eq_ofList_toDigits, String.toList_ofList]

theorem isDigit_toString {n : ℕ} {c : Char} (h : c ∈ (toString n).toList) : c.isDigit = true := by
  rw [toList_toString] at h
  exact Nat.isDigit_of_mem_toDigits (by decide) (by decide) h

theorem parseDigits_eq {cs : List Char} (hne : cs ≠ []) (h : ∀ c ∈ cs, c.isDigit = true) :
    parseDigits cs = some (Nat.ofDigitChars 10 cs 0) := by
  have hfold : ∀ (cs : List Char) (init : ℕ), (∀ c ∈ cs, c.isDigit = true) →
      cs.foldlM (fun n c => if c.isDigit then some (10 * n + (c.toNat - '0'.toNat))
        else none) init =
        some (Nat.ofDigitChars 10 cs init) := by
    intro cs
    induction cs with
    | nil => intro init _; rfl
    | cons c cs ih =>
      intro init h
      obtain ⟨hc, hcs⟩ := List.forall_mem_cons.1 h
      rw [List.foldlM_cons, if_pos hc, Nat.ofDigitChars_cons]
      exact ih _ hcs
  rw [parseDigits, List.isEmpty_eq_false_iff.2 hne, if_neg Bool.false_ne_true]
  exact hfold cs 0 h

/-- A number is read back from its digits. -/
theorem parseUint_toString {bits n : ℕ} (h : n < 2 ^ bits) :
    parseUint bits (toString n) = some n := by
  have hne : (toString n).toList ≠ [] := by
    rw [toList_toString]
    exact Nat.toDigits_ne_nil
  rw [parseUint, parseDigits_eq hne fun c hc => isDigit_toString hc, toList_toString,
    Nat.ofDigitChars_ten_toDigits,
    Option.bind_some, if_pos h]

/-- `strconv.ParseBool`; `none` is an error. -/
def parseBool (s : String) : Option Bool :=
  if s ∈ ["1", "t", "T", "true", "TRUE", "True"] then some true
  else if s ∈ ["0", "f", "F", "false", "FALSE", "False"] then some false
  else none

/-- A lookup in a `map[string]string`: an absent key reads as `""`. -/
def mapGet (m : List (String × String)) (k : String) : String := (m.lookup k).getD ""

/-- The order in which Go ranges over a map: any order of its keys. -/
structure MapOrder where
  order : List String → List String
  perm : ∀ l, (order l).Perm l

theorem MapOrder.mem_order (m : MapOrder) {l : List String} {x : String} : x ∈ m.order l ↔ x ∈ l :=
  (m.perm l).mem_iff

end ModDNS.Go
