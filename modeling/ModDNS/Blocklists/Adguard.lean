import ModDNS.Blocklists.Normalize
import Mathlib.Data.Finset.Insert
import Mathlib.Data.List.TakeWhile
import Mathlib.Data.Finset.Lattice.Lemmas

/-!
# The AdGuard format

`Convert` goes through the lines of a list once. What one line adds does not depend on those before
it (`line_append`), so what is published is traced to a line of its own (`contributed`). The name
that a line contributes is its pattern, with the anchors at its ends and what `NormalizeDomain`
trims taken off, as long as no separator or anchor is left inside (`conversion_sound`).
-/

namespace ModDNS.Blocklists

open Go

/-- `ConversionStats`: the rules that were dropped, by reason. -/
structure ConversionStats where
  skippedExceptions : ℕ := 0
  skippedBadfilter : ℕ := 0
  skippedModifiers : ℕ := 0
  skippedWildcards : ℕ := 0
  skippedPrefixes : ℕ := 0
  skippedInvalid : ℕ := 0
deriving DecidableEq, Repr

structure ConversionResult where
  exceptions : List String := []
  stats : ConversionStats := {}
deriving DecidableEq, Repr

namespace Adguard

def commentPrefixExclamation : Bytes := [byte '!']

def commentPrefixHash : Bytes := [byte '#']

def exceptionPrefix : Bytes := [byte '@', byte '@']

def modifierSeparator : UInt8 := byte '$'

def badfilterModifier : Bytes := encode "badfilter"

def importantModifier : Bytes := encode "important"

def regexDelimiter : Bytes := [byte '/']

def wildcard : UInt8 := byte '*'

def isCommentOrEmpty (line : Bytes) : Bool :=
  line.isEmpty || commentPrefixExclamation.isPrefixOf line || commentPrefixHash.isPrefixOf line

/-- The pattern of a rule and its modifiers. -/
def splitModifiers (rule : Bytes) : Bytes × List Bytes :=
  match cut modifierSeparator rule with
  | (pattern, none) => (pattern, [])
  | (pattern, some modifiers) => (pattern, modifiers.splitOn (byte ','))

def hasModifier (modifiers : List Bytes) (name : Bytes) : Bool := modifiers.any (· = name)

/-- A modifier that may make the rule hold for less than its pattern. -/
def hasUnsupportedModifier (modifiers : List Bytes) : Bool := modifiers.any (· ≠ importantModifier)

def isPrefixRule (pattern : Bytes) : Bool :=
  [byte '|'].isPrefixOf pattern && !([byte '|', byte '|'].isPrefixOf pattern) &&
    [byte '.'].isSuffixOf pattern

/-- `strings.ReplaceAll` of `^` and of `|` by nothing. -/
def withoutMarks (pattern : Bytes) : Bytes := (pattern.filter (· ≠ byte '^')).filter (· ≠ byte '|')

/-- The name as it is published, or `""`. -/
def published (s : String) : String :=
  if validDomain (normalizeDomain s) then normalizeDomain s else ""

def processRule (rule : Bytes) : String :=
  if exceptionPrefix.isPrefixOf rule then ""
  else published (trimSpace (text (withoutMarks ((rule.splitOn modifierSeparator).headD []))))

/-- `processException`, for what comes after `@@`. -/
def processException (body : Bytes) : String :=
  if regexDelimiter.isPrefixOf body then ""
  else
    let (pattern, modifiers) := splitModifiers body
    if hasModifier modifiers badfilterModifier || hasUnsupportedModifier modifiers then ""
    else if wildcard ∈ pattern || isPrefixRule pattern then ""
    else published (text (withoutMarks pattern))

/-- The variables of `Convert`. -/
structure Conversion where
  domains : List String := []
  exceptions : List String := []
  disabled : Finset String := ∅
  stats : ConversionStats := {}
deriving DecidableEq

/-- One turn of the loop. -/
def Conversion.line (c : Conversion) (line : Bytes) : Conversion :=
  if isCommentOrEmpty line then c
  else if exceptionPrefix.isPrefixOf line then
    let domain := processException (line.drop exceptionPrefix.length)
    if domain ≠ "" then { c with exceptions := c.exceptions ++ [domain] }
    else { c with stats.skippedExceptions := c.stats.skippedExceptions + 1 }
  else if regexDelimiter.isPrefixOf line then
    { c with stats.skippedInvalid := c.stats.skippedInvalid + 1 }
  else
    let (pattern, modifiers) := splitModifiers line
    if hasModifier modifiers badfilterModifier then
      let domain := processRule line
      { c with
        stats.skippedBadfilter := c.stats.skippedBadfilter + 1
        disabled := if domain ≠ "" then c.disabled ∪ {domain} else c.disabled }
    else if hasUnsupportedModifier modifiers then
      { c with stats.skippedModifiers := c.stats.skippedModifiers + 1 }
    else if wildcard ∈ pattern then
      { c with stats.skippedWildcards := c.stats.skippedWildcards + 1 }
    else if isPrefixRule pattern then
      { c with stats.skippedPrefixes := c.stats.skippedPrefixes + 1 }
    else
      let domain := processRule line
      if domain ≠ "" then { c with domains := c.domains ++ [domain] }
      else { c with stats.skippedInvalid := c.stats.skippedInvalid + 1 }

/-- What comes after the loop: the names that a `$badfilter` rule disables are dropped. -/
def Conversion.kept (c : Conversion) : List String := c.domains.filter (· ∉ c.disabled)

/-- `Convert`; `none` is an error of the scanner. -/
def convert (blocklist : Bytes) : Option (Bytes × ConversionResult) :=
  (scanLines blocklist).map fun lines =>
    let c := lines.foldl Conversion.line {}
    let dropped := c.domains.length - c.kept.length
    (encode (join c.kept '\n'),
      { exceptions := c.exceptions
        stats := { c.stats with skippedBadfilter := c.stats.skippedBadfilter + dropped } })

/-- What two stretches of lines add up to. -/
instance : Append Conversion where
  append c c' :=
    { domains := c.domains ++ c'.domains
      exceptions := c.exceptions ++ c'.exceptions
      disabled := c.disabled ∪ c'.disabled
      stats :=
        { skippedExceptions := c.stats.skippedExceptions + c'.stats.skippedExceptions
          skippedBadfilter := c.stats.skippedBadfilter + c'.stats.skippedBadfilter
          skippedModifiers := c.stats.skippedModifiers + c'.stats.skippedModifiers
          skippedWildcards := c.stats.skippedWildcards + c'.stats.skippedWildcards
          skippedPrefixes := c.stats.skippedPrefixes + c'.stats.skippedPrefixes
          skippedInvalid := c.stats.skippedInvalid + c'.stats.skippedInvalid } }

/-- What a line adds. -/
def adds (line : Bytes) : Conversion := ({} : Conversion).line line

/-- The rule of a line: the line, or what comes after `@@`. -/
def rule (line : Bytes) : Bytes :=
  if exceptionPrefix.isPrefixOf line then line.drop exceptionPrefix.length else line

/-- The pattern without `||` or `|` before it. -/
def withoutStart (pattern : Bytes) : Bytes :=
  if [byte '|', byte '|'].isPrefixOf pattern then pattern.drop 2
  else if [byte '|'].isPrefixOf pattern then pattern.drop 1 else pattern

/-- The pattern without the marker after it, if it is there. -/
def withoutLast (mark : UInt8) (pattern : Bytes) : Bytes :=
  if pattern.getLast? = some mark then pattern.dropLast else pattern

/-- The pattern without the anchors at its ends: `||` or `|` before it, `^`, `|` or `^|` after
it. -/
def withoutAnchors (pattern : Bytes) : Bytes :=
  withoutLast (byte '^') (withoutLast (byte '|') (withoutStart pattern))

/-- One bar, then text that does not begin with a second one, and a dot at the very end: with a
blank after the dot it is not one. -/
def PrefixToken (pattern : Bytes) : Prop :=
  ∃ name, pattern = byte '|' :: name ++ [byte '.'] ∧ name.head? ≠ some (byte '|')

def pattern (line : Bytes) : Bytes := (splitModifiers (rule line)).1

def modifiers (line : Bytes) : List Bytes := (splitModifiers (rule line)).2

/-- The line gives the name, as a domain or as an exception, and the name is published. -/
def Contributes (blocklist line : Bytes) (d : String) : Prop :=
  ∃ lines out result names, scanLines blocklist = some lines ∧
    convert blocklist = some (out, result) ∧
    scanValidatedDomains out = some names ∧ line ∈ lines ∧
    (d ∈ (adds line).domains ∧ d ∈ names ∨ d ∈ (adds line).exceptions ∧ d ∈ result.exceptions)

/-- The one text is the other without what `NormalizeDomain` trims: byte order marks and blanks
before it, blanks and dots after it. -/
def Trims (s m : String) : Prop :=
  ∃ pre post, s.toList = pre ++ m.toList ++ post ∧
    (∀ c ∈ pre, c = Char.ofNat 0xFEFF ∨ isSpace c = true) ∧
    ∀ c ∈ post, isSpace c = true ∨ c = '.'

section Pattern

variable {bs p : Bytes} {sep : UInt8} {s m d : String}

/-- What is cut off before a separator. -/
theorem cut_spec (sep : UInt8) (bs : Bytes) :
    sep ∉ (cut sep bs).1 ∧
      (((cut sep bs).2 = none ∧ bs = (cut sep bs).1) ∨
        ∃ rest, (cut sep bs).2 = some rest ∧ bs = (cut sep bs).1 ++ sep :: rest) := by
  have hbefore : sep ∉ bs.takeWhile (· ≠ sep) := by
    intro hin
    simpa using List.mem_takeWhile_imp hin
  have hall : bs.takeWhile (· ≠ sep) ++ bs.dropWhile (· ≠ sep) = bs :=
    List.takeWhile_append_dropWhile
  unfold cut
  split
  · next hnil =>
    rw [hnil, List.append_nil] at hall
    rw [hall] at hbefore
    exact ⟨hbefore, .inl ⟨rfl, rfl⟩⟩
  · next x rest hcons =>
    have hx : x = sep := by
      have hhead :=
        List.head_dropWhile_not (p := (· ≠ sep)) (l := bs)
          (by rw [hcons]; exact List.cons_ne_nil _ _)
      simp only [hcons, List.head_cons] at hhead
      simpa using hhead
    rw [hcons, hx] at hall
    exact ⟨hbefore, .inr ⟨rest, rfl, hall.symm⟩⟩

theorem fst_splitModifiers : (splitModifiers bs).1 = (cut modifierSeparator bs).1 := by
  unfold splitModifiers
  split
  · next h => rw [h]
  · next h => rw [h]

/-- `strings.Split` and `strings.Cut` agree on what is before the first separator. -/
theorem headD_splitOn : (bs.splitOn sep).headD [] = (cut sep bs).1 := by
  obtain ⟨hbefore, ⟨-, hbs⟩ | ⟨rest, -, hbs⟩⟩ := cut_spec sep bs
  · conv_lhs => rw [hbs]
    rw [List.splitOn_eq_singleton hbefore]
    rfl
  · conv_lhs => rw [hbs]
    rw [List.splitOn_append_cons_self_of_not_mem hbefore]
    rfl

/-- A marker is dropped wherever it is. -/
theorem mem_withoutMarks {b : UInt8} :
    b ∈ withoutMarks p ↔ b ∈ p ∧ b ≠ byte '^' ∧ b ≠ byte '|' := by
  unfold withoutMarks
  simp only [List.mem_filter, decide_eq_true_eq]
  tauto

theorem withoutStart_spec (p : Bytes) :
    ∃ pre, p = pre ++ withoutStart p ∧ ∀ b ∈ pre, b = byte '|' := by
  unfold withoutStart
  split
  · next h =>
    obtain ⟨rest, hp⟩ := List.isPrefixOf_iff_prefix.1 h
    refine ⟨[byte '|', byte '|'], ?_, by simp⟩
    rw [← hp]
    rfl
  · split
    · next h =>
      obtain ⟨rest, hp⟩ := List.isPrefixOf_iff_prefix.1 h
      refine ⟨[byte '|'], ?_, by simp⟩
      rw [← hp]
      rfl
    · exact ⟨[], rfl, by simp⟩

theorem withoutLast_spec (mark : UInt8) (p : Bytes) :
    ∃ post, p = withoutLast mark p ++ post ∧ ∀ b ∈ post, b = mark := by
  unfold withoutLast
  split
  · next h => exact ⟨[mark], (List.dropLast_append_getLast? mark h).symm, by simp⟩
  · exact ⟨[], (List.append_nil p).symm, by simp⟩

/-- What is taken off the ends of a pattern are markers. -/
theorem withoutAnchors_spec (p : Bytes) :
    ∃ pre post, p = pre ++ withoutAnchors p ++ post ∧ (∀ b ∈ pre, b = byte '|') ∧
      ∀ b ∈ post, b = byte '^' ∨ b = byte '|' := by
  obtain ⟨pre, hstart, hpre⟩ := withoutStart_spec p
  obtain ⟨pipe, hpipe, hpipes⟩ := withoutLast_spec (byte '|') (withoutStart p)
  obtain ⟨caret, hcaret, hcarets⟩ :=
    withoutLast_spec (byte '^') (withoutLast (byte '|') (withoutStart p))
  refine ⟨pre, caret ++ pipe, ?_, hpre, fun b hb => ?_⟩
  · unfold withoutAnchors
    rw [List.append_assoc, ← List.append_assoc _ caret, ← hcaret, ← hpipe, ← hstart]
  · exact (List.mem_append.1 hb).imp (hcarets b) (hpipes b)

/-- Where no marker is left inside, the markers are the anchors. -/
theorem withoutMarks_eq (hcaret : byte '^' ∉ withoutAnchors p)
    (hpipe : byte '|' ∉ withoutAnchors p) :
    withoutMarks p = withoutAnchors p := by
  obtain ⟨pre, post, hp, hpre, hpost⟩ := withoutAnchors_spec p
  have hnone : ∀ l : Bytes, (∀ b ∈ l, b = byte '^' ∨ b = byte '|') → withoutMarks l = [] := by
    intro l hl
    apply List.eq_nil_iff_forall_not_mem.2
    intro b hb
    obtain ⟨hin, hc, hb⟩ := mem_withoutMarks.1 hb
    exact (hl b hin).elim hc hb
  have hnoCaret : (withoutAnchors p).filter (· ≠ byte '^') = withoutAnchors p :=
    List.filter_eq_self.2 fun b hb => decide_eq_true fun h => hcaret (h ▸ hb)
  have hnoPipe : (withoutAnchors p).filter (· ≠ byte '|') = withoutAnchors p :=
    List.filter_eq_self.2 fun b hb => decide_eq_true fun h => hpipe (h ▸ hb)
  have hall : withoutMarks (withoutAnchors p) = withoutAnchors p := by
    unfold withoutMarks
    rw [hnoCaret, hnoPipe]
  have happend : ∀ l l' : Bytes, withoutMarks (l ++ l') = withoutMarks l ++ withoutMarks l' := by
    intro l l'
    unfold withoutMarks
    rw [List.filter_append, List.filter_append]
  conv_lhs => rw [hp]
  rw [happend, happend, hall, hnone pre fun b hb => .inr (hpre b hb), hnone post hpost,
    List.nil_append, List.append_nil]

theorem Trims.trans {t : String} (h : Trims s t) (h' : Trims t m) : Trims s m := by
  obtain ⟨pre, post, hs, hpre, hpost⟩ := h
  obtain ⟨pre', post', ht, hpre', hpost'⟩ := h'
  refine ⟨pre ++ pre', post' ++ post, ?_, fun c hc => ?_, fun c hc => ?_⟩
  · rw [hs, ht]
    simp only [List.append_assoc]
  · exact (List.mem_append.1 hc).elim (hpre c) (hpre' c)
  · exact (List.mem_append.1 hc).elim (hpost' c) (hpost c)

theorem trims_trimSpace (s : String) : Trims s (trimSpace s) := by
  have hspaces : ∀ cs : List Char, ∀ c ∈ cs.takeWhile isSpace, isSpace c = true := fun cs c hc =>
    List.mem_takeWhile_imp hc
  have hsplit : ∀ cs : List Char, cs = cs.takeWhile isSpace ++ cs.dropWhile isSpace :=
    fun cs => List.takeWhile_append_dropWhile.symm
  have hback : s.toList.dropWhile isSpace = (trimSpace s).toList ++
      ((s.toList.dropWhile isSpace).reverse.takeWhile isSpace).reverse := by
    unfold trimSpace
    rw [String.toList_ofList, ← List.reverse_append, ← hsplit, List.reverse_reverse]
  refine ⟨s.toList.takeWhile isSpace,
    ((s.toList.dropWhile isSpace).reverse.takeWhile isSpace).reverse, ?_, ?_, ?_⟩
  · rw [List.append_assoc, ← hback]
    exact hsplit _
  · exact fun c hc => .inr (hspaces _ c hc)
  · exact fun c hc => .inl (hspaces _ c (List.mem_reverse.1 hc))

theorem trims_bom (s : String) : Trims s (trimPrefix s bom) := by
  unfold trimPrefix
  split
  · next h =>
    obtain ⟨rest, hs⟩ := hasPrefix_iff.1 h
    refine ⟨bom.toList, [], ?_, ?_, by simp⟩
    · rw [String.toList_ofList, ← hs, List.drop_left, List.append_nil]
    · intro c hc
      left
      simpa [bom] using hc
  · exact ⟨[], [], by simp, by simp, by simp⟩

theorem trims_dots (s : String) : Trims s (trimRightDots s) := by
  refine ⟨[], (s.toList.reverse.takeWhile (· = '.')).reverse, ?_, by simp, ?_⟩
  · unfold trimRightDots
    rw [String.toList_ofList, List.nil_append, ← List.reverse_append,
      List.takeWhile_append_dropWhile, List.reverse_reverse]
  · intro c hc
    right
    simpa using List.mem_takeWhile_imp (List.mem_reverse.1 hc)

/-- `NormalizeDomain` only trims, up to case. -/
theorem normalizeDomain_trims (s : String) : ∃ m, Trims s m ∧ toLower m = normalizeDomain s :=
  ⟨_, ((trims_bom s).trans (trims_trimSpace _)).trans (trims_dots _), rfl⟩

/-- A character that is no letter, and that nothing trims, is in the name as well. -/
theorem Trims.mem (h : Trims s m) {c : Char} (hc : c ∈ s.toList) (hbom : c ≠ Char.ofNat 0xFEFF)
    (hspace : isSpace c = false) (hdot : c ≠ '.') : c ∈ m.toList := by
  obtain ⟨pre, post, hs, hpre, hpost⟩ := h
  rw [hs] at hc
  rcases List.mem_append.1 hc with hc | hc
  · rcases List.mem_append.1 hc with hc | hc
    · rcases hpre c hc with h | h
      · exact absurd h hbom
      · rw [hspace] at h
        cases h
    · exact hc
  · rcases hpost c hc with h | h
    · rw [hspace] at h
      cases h
    · exact absurd h hdot

theorem isPrefixRule_iff : isPrefixRule p = true ↔ PrefixToken p := by
  simp only [isPrefixRule, Bool.and_eq_true, Bool.not_eq_true', List.isPrefixOf_iff_prefix,
    List.isSuffixOf_iff_suffix, ← Bool.not_eq_true]
  constructor
  · rintro ⟨⟨hbar, hsecond⟩, hdot⟩
    obtain ⟨rest, rfl⟩ := hbar
    obtain ⟨front, hfront⟩ := hdot
    cases front with
    | nil => exact absurd hfront (by simp [byte])
    | cons b name =>
      rw [List.cons_append, List.singleton_append, List.cons.injEq] at hfront
      obtain ⟨rfl, rfl⟩ := hfront
      refine ⟨name, rfl, fun hhead => hsecond ?_⟩
      cases name with
      | nil => cases hhead
      | cons b name =>
        cases hhead
        exact ⟨name ++ [byte '.'], rfl⟩
  · rintro ⟨name, rfl, hhead⟩
    refine ⟨⟨⟨name ++ [byte '.'], rfl⟩, ?_⟩, ⟨byte '|' :: name, rfl⟩⟩
    rintro ⟨rest, hrest⟩
    cases name with
    | nil => exact absurd hrest (by simp [byte])
    | cons b name =>
      rw [List.cons_append, List.cons_append, List.cons_append] at hrest
      injection hrest with _ hrest
      injection hrest with hb _
      exact hhead (congrArg some hb.symm)

/-- A marker in the pattern would be in the name. -/
theorem marker_kept {b : UInt8} {c : Char} (htrims : Trims (text p) m) (hb : b ∈ p)
    (hc : Char.ofNat b.toNat = c) (hascii : b.toNat < 0x80) (hbom : c ≠ Char.ofNat 0xFEFF)
    (hspace : isSpace c = false) (hdot : c ≠ '.') (hlower : toLowerRune c = c) :
    c ∈ (toLower m).toList := by
  have htext : c ∈ (text p).toList := by
    unfold text
    rw [String.toList_ofList, ← hc]
    exact mem_decode hb hascii
  rw [toList_toLower]
  exact List.mem_map.2 ⟨c, htrims.mem htext hbom hspace hdot, hlower⟩

end Pattern

/-- The lines that give a name, and which name it is. -/
structure Gives (line : Bytes) (d : String) : Prop where
  noComment : isCommentOrEmpty line = false
  noRegex : regexDelimiter.isPrefixOf (rule line) = false
  supported : ∀ m ∈ modifiers line, m = importantModifier
  noWildcard : wildcard ∉ pattern line
  noToken : isPrefixRule (pattern line) = false
  valid : validDomain d = true
  name : ∃ m, Trims (text (withoutMarks (pattern line))) m ∧ toLower m = d

section Lines

variable {line blocklist : Bytes} {c : Conversion} {d : String}

/-- **What a line adds does not depend on the lines before it.** -/
theorem line_append (c : Conversion) (line : Bytes) : c.line line = c ++ adds line := by
  show c.line line = Append.append c (adds line)
  unfold adds Conversion.line
  simp only [Append.append]
  split_ifs <;> simp

theorem foldl_line (lines : List Bytes) (c : Conversion) :
    (lines.foldl Conversion.line c).domains = c.domains ++ lines.flatMap
      (fun line => (adds line).domains) ∧
      (lines.foldl Conversion.line c).exceptions = c.exceptions ++ lines.flatMap
      (fun line => (adds line).exceptions) := by
  induction lines generalizing c with
  | nil => simp
  | cons line lines ih =>
    obtain ⟨hdomains, hexceptions⟩ := ih (c.line line)
    rw [line_append] at hdomains hexceptions
    constructor
    · rw [List.foldl_cons, line_append, hdomains, List.flatMap_cons, ← List.append_assoc]
      rfl
    · rw [List.foldl_cons, line_append, hexceptions, List.flatMap_cons, ← List.append_assoc]
      rfl

theorem published_ne {s : String} (h : published s ≠ "") :
    validDomain (published s) = true ∧ ∃ m, Trims s m ∧ toLower m = published s := by
  unfold published at h ⊢
  split at h
  · next hvalid =>
    rw [if_pos hvalid]
    exact ⟨hvalid, normalizeDomain_trims s⟩
  · exact absurd rfl h

theorem supported_of {ms : List Bytes} (h : hasUnsupportedModifier ms = false) :
    ∀ m ∈ ms, m = importantModifier := by
  intro m hm
  have hall := List.any_eq_false.1 h m hm
  simpa using hall

/-- A block rule is a line that starts with no marker of the format. -/
theorem gives_domain (h : d ∈ (adds line).domains) : Gives line d := by
  have hno : ∀ {P : Prop}, d ∈ ([] : List String) → P := fun h => absurd h List.not_mem_nil
  -- each check that fails gives no domain
  unfold adds Conversion.line at h
  split at h
  · exact hno h
  next hcomment =>
  split at h
  · simp only at h
    split at h
    · exact hno h
    · exact hno h
  next hexception =>
  split at h
  · exact hno h
  next hregex =>
  simp only at h
  split at h
  · exact hno h
  split at h
  · exact hno h
  next hmodifiers =>
  split at h
  · exact hno h
  next hwildcard =>
  split at h
  · exact hno h
  next htoken =>
  split at h
  -- all have passed, so each says its part
  · next hname =>
    obtain rfl := List.mem_singleton.1 h
    have hrule : rule line = line := if_neg hexception
    unfold processRule at hname ⊢
    rw [if_neg hexception, headD_splitOn, ← fst_splitModifiers] at hname ⊢
    obtain ⟨hvalid, m, htrims, hm⟩ := published_ne hname
    refine ⟨by simpa using hcomment, ?_, ?_, ?_, ?_, hvalid, m, (trims_trimSpace _).trans ?_, hm⟩
    · rw [hrule]
      exact Bool.eq_false_iff.2 hregex
    · unfold modifiers
      rw [hrule]
      exact supported_of (by simpa using hmodifiers)
    · unfold pattern
      rwa [hrule]
    · unfold pattern
      rw [hrule]
      simpa using htoken
    · unfold pattern
      rwa [hrule]
  · exact hno h

/-- An exception is a line that starts with `@@`. -/
theorem gives_exception (h : d ∈ (adds line).exceptions) : Gives line d := by
  have hno : ∀ {P : Prop}, d ∈ ([] : List String) → P := fun h => absurd h List.not_mem_nil
  unfold adds Conversion.line at h
  split at h
  · exact hno h
  next hcomment =>
  split at h
  · next hexception =>
    simp only at h
    split at h
    · next hname =>
      obtain rfl := List.mem_singleton.1 h
      have hrule : rule line = line.drop exceptionPrefix.length := if_pos hexception
      rw [← hrule] at hname ⊢
      unfold processException at hname ⊢
      split at hname
      · exact absurd rfl hname
      next hregex =>
      rw [if_neg hregex]
      simp only at hname ⊢
      split at hname
      · exact absurd rfl hname
      next hmodifiers =>
      rw [if_neg hmodifiers]
      split at hname
      · exact absurd rfl hname
      next htoken =>
      rw [if_neg htoken]
      obtain ⟨hvalid, m, htrims, hm⟩ := published_ne hname
      simp only [Bool.or_eq_true, decide_eq_true_eq, not_or, Bool.not_eq_true]
        at hmodifiers htoken hregex
      exact ⟨by
        simpa using hcomment, hregex, supported_of hmodifiers.2, htoken.1, htoken.2, hvalid,
        m, htrims, hm⟩
    · exact hno h
  next hexception =>
  split at h
  · exact hno h
  simp only at h
  split_ifs at h
  all_goals exact hno h

/-- A marker that a valid name cannot have is not in the pattern, unless it is dropped. -/
theorem Gives.absent {b : UInt8} {c : Char} (h : Gives line d) (hb : Char.ofNat b.toNat = c)
    (hascii : b.toNat < 0x80) (hmark : b ≠ byte '^' ∧ b ≠ byte '|') (hbom : c ≠ Char.ofNat 0xFEFF)
    (hspace : isSpace c = false) (hdot : c ≠ '.') (hlower : toLowerRune c = c)
    (hlabel : isLabelChar c = false) : b ∉ pattern line := by
  intro hin
  obtain ⟨m, htrims, rfl⟩ := h.name
  have hmem :=
    marker_kept htrims (mem_withoutMarks.2 ⟨hin, hmark⟩) hb hascii hbom hspace hdot hlower
  rcases (validDomain_chars h.valid).1 c hmem with h | h
  · exact hdot h
  · rw [hlabel] at h
    cases h

/-- A path is not published. -/
theorem Gives.noPath (h : Gives line d) : byte '/' ∉ pattern line :=
  h.absent (c := '/') (by decide) (by decide) (by decide) (by decide) (by decide) (by decide)
    (by decide) (by decide)

/-- What is published is what a line of the list gives. -/
theorem contributed {out : Bytes} {result : ConversionResult} {names : List String}
    (hconvert : convert blocklist = some (out, result))
    (hscan : scanValidatedDomains out = some names)
    (hd : d ∈ names ∨ d ∈ result.exceptions) : ∃ line, Contributes blocklist line d := by
  obtain ⟨lines, hlines, hout⟩ := Option.map_eq_some_iff.1 hconvert
  simp only [Prod.mk.injEq] at hout
  obtain ⟨rfl, rfl⟩ := hout
  obtain ⟨hdomains, hexceptions⟩ := foldl_line lines {}
  rcases hd with hd | hd
  · have hvalid : ∀ d ∈ (lines.foldl Conversion.line {}).kept, validDomain d = true := by
      intro d hd
      have hin := List.mem_of_mem_filter hd
      rw [hdomains] at hin
      obtain ⟨line, -, hline⟩ := List.mem_flatMap.1 hin
      exact (gives_domain hline).valid
    have hnames : names = (lines.foldl Conversion.line {}).kept := by
      rw [scan_join hvalid] at hscan
      exact (Option.some.inj hscan).symm
    have hin := List.mem_of_mem_filter (hnames ▸ hd)
    rw [hdomains] at hin
    obtain ⟨line, hline, hadds⟩ := List.mem_flatMap.1 hin
    exact ⟨line, lines, _, _, names, hlines, hconvert, hscan, hline, .inl ⟨hadds, hd⟩⟩
  · have hin := hd
    simp only at hin
    rw [hexceptions] at hin
    obtain ⟨line, hline, hadds⟩ := List.mem_flatMap.1 hin
    exact ⟨line, lines, _, _, names, hlines, hconvert, hscan, hline, .inr ⟨hadds, hd⟩⟩

theorem Contributes.gives (h : Contributes blocklist line d) : Gives line d := by
  obtain ⟨-, -, -, -, -, -, -, -, ⟨hadds, -⟩ | ⟨hadds, -⟩⟩ := h
  · exact gives_domain hadds
  · exact gives_exception hadds

/-- **Conversion is sound.** Every name that is published comes from a line whose pattern, without
the anchors at its ends, is the name in another case, apart from what `NormalizeDomain` trims; no
such line has a path, a wildcard, a regular expression, a prefix token or an unsupported modifier.
Nothing is said of a pattern with a separator or an anchor inside. -/
theorem conversion_sound (blocklist : Bytes) :
    (∀ out result names d, convert blocklist = some (out, result) →
      scanValidatedDomains out = some names →
      d ∈ names ∨ d ∈ result.exceptions → ∃ line, Contributes blocklist line d) ∧
    ∀ line d, Contributes blocklist line d →
      (byte '^' ∉ withoutAnchors (pattern line) → byte '|' ∉ withoutAnchors (pattern line) →
        ∃ m, Trims (text (withoutAnchors (pattern line))) m ∧ toLower m = d) ∧
      byte '/' ∉ pattern line ∧ wildcard ∉ pattern line ∧
      regexDelimiter.isPrefixOf (rule line) = false ∧
      ¬ PrefixToken (pattern line) ∧ ∀ m ∈ modifiers line, m = importantModifier := by
  refine ⟨fun out result names d hconvert hscan hd => contributed hconvert hscan hd,
    fun line d h => ?_⟩
  have hgives := h.gives
  have htoken : ¬ PrefixToken (pattern line) := by
    rw [← isPrefixRule_iff, hgives.noToken]
    exact Bool.false_ne_true
  refine ⟨fun hcaret hpipe => ?_, hgives.noPath, hgives.noWildcard, hgives.noRegex, htoken,
    hgives.supported⟩
  have hname := hgives.name
  rwa [withoutMarks_eq hcaret hpipe] at hname

/-- The anchors at the ends of an exception. -/
theorem conversion_sound_anchors :
    let blocklist := encode "||blocked.com^\n@@|CDN.example.com^|$important"
    (∃ m, Trims (text (withoutAnchors (encode "|CDN.example.com^|"))) m ∧
      toLower m = "cdn.example.com") ∧
      wildcard ∉ pattern (encode "@@|CDN.example.com^|$important") ∧
      ∃ line, Contributes blocklist line "blocked.com" := by
  intro blocklist
  have hcontributes : Contributes blocklist
    (encode "@@|CDN.example.com^|$important") "cdn.example.com" :=
    ⟨[encode "||blocked.com^", encode "@@|CDN.example.com^|$important"], encode "blocked.com",
      { exceptions := ["cdn.example.com"] }, ["blocked.com"], by decide +kernel⟩
  obtain ⟨hall, heach⟩ := conversion_sound blocklist
  obtain ⟨hname, -, hwildcard, -⟩ := heach _ _ hcontributes
  have hpattern : pattern (encode "@@|CDN.example.com^|$important") =
      encode "|CDN.example.com^|" := by decide +kernel
  rw [hpattern] at hname
  refine ⟨hname (by decide +kernel) (by decide +kernel), hwildcard, ?_⟩
  exact hall (encode "blocked.com") { exceptions := ["cdn.example.com"] } ["blocked.com"] _
    (by decide +kernel)
    (by decide +kernel) (.inl (by decide))

/-- A dot after the name is trimmed, as is meant; but a separator inside it is dropped too, and
another name is published. -/
theorem pattern_changed :
    let blocklist := encode "||example.com.^\n||exam^ple.org^"
    (Contributes blocklist (encode "||example.com.^") "example.com" ∧
      toLower (text (withoutAnchors (pattern (encode "||example.com.^")))) ≠
        toLower "example.com") ∧
    (Contributes blocklist (encode "||exam^ple.org^") "example.org" ∧
      toLower (text (withoutAnchors (pattern (encode "||exam^ple.org^")))) ≠
        toLower "example.org") := by
  intro blocklist
  refine ⟨⟨⟨[encode "||example.com.^", encode "||exam^ple.org^"],
    encode "example.com\nexample.org", {},
    ["example.com", "example.org"], by decide +kernel⟩, by decide +kernel⟩,
    ⟨⟨[encode "||example.com.^", encode "||exam^ple.org^"], encode "example.com\nexample.org", {},
    ["example.com", "example.org"], by decide +kernel⟩, by decide +kernel⟩⟩

/-- **What the separators inside a pattern do.** The name is the pattern, so read, exactly when
there are none. -/
theorem pattern_iff (h : Contributes blocklist line d) :
    (∃ m, Trims (text (withoutAnchors (pattern line))) m ∧ toLower m = d) ↔
      byte '^' ∉ withoutAnchors (pattern line) ∧ byte '|' ∉ withoutAnchors (pattern line) := by
  constructor
  · rintro ⟨m, htrims, rfl⟩
    have hchars := (validDomain_chars h.gives.valid).1
    constructor
    · intro hin
      have hmem :=
        marker_kept (c := '^') htrims hin (by decide) (by decide) (by decide) (by decide)
          (by decide) (by decide)
      exact absurd (hchars _ hmem) (by decide)
    · intro hin
      have hmem :=
        marker_kept (c := '|') htrims hin (by decide) (by decide) (by decide) (by decide)
          (by decide) (by decide)
      exact absurd (hchars _ hmem) (by decide)
  · rintro ⟨hcaret, hpipe⟩
    have hname := h.gives.name
    rwa [withoutMarks_eq hcaret hpipe] at hname

end Lines

end Adguard

end ModDNS.Blocklists
