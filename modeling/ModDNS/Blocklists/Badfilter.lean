import ModDNS.Blocklists.Accounted
import ModDNS.Data.Folds

/-!
# The `$badfilter` rules

A `$badfilter` rule is meant for the rule with the remaining text (`IsBadfilterOf`). The converter
goes by the name that it takes out of the two (`kept_iff`), and drops such a rule among the
exceptions without a look at the others. So the rules that stay are the ones that are meant to
exactly when no such rule meets another text (`badfilter_iff`).
-/

namespace ModDNS.Blocklists.Adguard

open Go Data

/-- A line that is gone through as a block rule. -/
def isBlocking (line : Bytes) : Bool :=
  !isCommentOrEmpty line && !exceptionPrefix.isPrefixOf line && !regexDelimiter.isPrefixOf line

/-- A block rule whose syntax is understood. -/
def isBlockRule (line : Bytes) : Bool :=
  isBlocking line && !hasModifier (modifiers line) badfilterModifier && !hasUnsupportedModifier
    (modifiers line) &&
    !decide (wildcard ∈ pattern line) && !isPrefixRule (pattern line)

/-- A `$badfilter` rule for block rules. -/
def isBadfilterRule (line : Bytes) : Bool :=
  isBlocking line && hasModifier (modifiers line) badfilterModifier

def isExceptionRule (line : Bytes) : Bool :=
  !isCommentOrEmpty line && exceptionPrefix.isPrefixOf line

/-- The line is the rule of `target` with a `badfilter` modifier. -/
def IsBadfilterOf (target line : Bytes) : Prop :=
  exceptionPrefix.isPrefixOf line = exceptionPrefix.isPrefixOf target ∧
    pattern line = pattern target ∧
    hasModifier (modifiers line) badfilterModifier = true ∧
    (modifiers line).filter (· ≠ badfilterModifier) = modifiers target

instance (target line : Bytes) : Decidable (IsBadfilterOf target line) := by
  unfold IsBadfilterOf
  infer_instance

/-- The block rules that give a name. -/
def blockRules (lines : List Bytes) : List Bytes := lines.filter fun line =>
    isBlockRule line && processRule line ≠ ""

/-- The exceptions that give a name. -/
def exceptionRules (lines : List Bytes) : List Bytes :=
  lines.filter fun line => isExceptionRule line && processException (rule line) ≠ ""

/-- No `$badfilter` rule of the list has the text of the rule. -/
def enabled (lines : List Bytes) (target : Bytes) : Bool := lines.all fun line =>
    !decide (IsBadfilterOf target line)

def enabledDomains (lines : List Bytes) : List String :=
  ((blockRules lines).filter (enabled lines)).map processRule

def enabledExceptions (lines : List Bytes) : List String :=
  ((exceptionRules lines).filter (enabled lines)).map fun line => processException (rule line)

/-- The `$badfilter` rules meet their own texts only: one that has the name of a block rule is not
the first without its text, and none has the text of an exception. -/
structure MeetsTexts (lines : List Bytes) : Prop where
  blocks : ∀ target ∈ blockRules lines, ∀ line ∈ lines, isBadfilterRule line = true →
    processRule line = processRule target → ∃ l ∈ lines, IsBadfilterOf target l
  exceptions : ∀ target ∈ exceptionRules lines, ∀ line ∈ lines, ¬ IsBadfilterOf target line

section Lines

variable {line target : Bytes} {lines : List Bytes} {blocklist : Bytes} {d : String}

theorem rule_blocking (h : isBlocking line = true) : rule line = line := by
  unfold isBlocking at h
  simp only [Bool.and_eq_true, Bool.not_eq_true'] at h
  unfold rule
  rw [h.1.2]
  rfl

/-- The name of a block rule depends on its pattern. -/
theorem processRule_eq (h : isBlocking line = true) :
    processRule line = published (trimSpace (text (withoutMarks (pattern line)))) := by
  have hrule := rule_blocking h
  unfold isBlocking at h
  simp only [Bool.and_eq_true, Bool.not_eq_true'] at h
  unfold processRule pattern
  rw [if_neg (by rw [h.1.2]; exact Bool.false_ne_true), hrule, headD_splitOn, fst_splitModifiers]

/-- What a line adds that is neither a block rule nor an exception. -/
theorem adds_neither (hblocking : isBlocking line = false)
    (hexception : isExceptionRule line = false) :
    (adds line).domains = [] ∧ (adds line).exceptions = [] ∧ (adds line).disabled = ∅ := by
  unfold isBlocking at hblocking
  unfold isExceptionRule at hexception
  unfold adds Conversion.line
  split
  · exact ⟨rfl, rfl, rfl⟩
  · next hcomment =>
    rw [Bool.eq_false_iff.2 hcomment, Bool.not_false, Bool.true_and] at hblocking hexception
    rw [hexception, Bool.not_false, Bool.true_and, Bool.not_eq_false'] at hblocking
    rw [hexception, hblocking, if_neg Bool.false_ne_true, if_pos rfl]
    exact ⟨rfl, rfl, rfl⟩

theorem adds_exceptionRule (h : isExceptionRule line = true) :
    (adds line).domains = [] ∧ (adds line).disabled = ∅ ∧
      (adds line).exceptions = if processException (rule line) ≠ "" then
        [processException (rule line)] else [] := by
  unfold isExceptionRule at h
  obtain ⟨hcomment, hexception⟩ := Bool.and_eq_true_iff.1 h
  rw [Bool.not_eq_true'] at hcomment
  have hrule : rule line = line.drop exceptionPrefix.length := if_pos hexception
  unfold adds Conversion.line
  rw [hcomment, if_neg Bool.false_ne_true, if_pos hexception, hrule]
  dsimp only
  split
  · exact ⟨rfl, rfl, rfl⟩
  · exact ⟨rfl, rfl, rfl⟩

theorem adds_blocking (h : isBlocking line = true) :
    (adds line).exceptions = [] ∧
      (adds line).domains = (if isBlockRule line && processRule line ≠ "" then
        [processRule line] else []) ∧
      (adds line).disabled = if isBadfilterRule line && processRule line ≠ "" then
      {processRule line} else ∅ := by
  have hrule := rule_blocking h
  unfold isBlockRule isBadfilterRule
  rw [h]
  unfold isBlocking at h
  simp only [Bool.and_eq_true, Bool.not_eq_true'] at h
  obtain ⟨⟨hcomment, hexception⟩, hregex⟩ := h
  unfold adds Conversion.line modifiers pattern
  rw [hcomment, hexception, hregex, hrule]
  simp only [Bool.false_eq_true, if_false, Bool.true_and]
  cases hasModifier (splitModifiers line).2 badfilterModifier with
  | true =>
    by_cases hname : processRule line = ""
    · simp [hname]
    · simp [hname]
  | false =>
    split_ifs <;> simp_all

theorem adds_domains (line : Bytes) :
    (adds line).domains = if isBlockRule line && processRule line ≠ "" then
      [processRule line] else [] := by
  cases hblocking : isBlocking line with
  | true => exact (adds_blocking hblocking).2.1
  | false =>
    have hno : isBlockRule line = false := by simp [isBlockRule, hblocking]
    rw [hno, Bool.false_and, if_neg Bool.false_ne_true]
    cases hexception : isExceptionRule line with
    | true => exact (adds_exceptionRule hexception).1
    | false => exact (adds_neither hblocking hexception).1

theorem adds_exceptions (line : Bytes) :
    (adds line).exceptions =
      if isExceptionRule line && processException (rule line) ≠ "" then
        [processException (rule line)] else [] := by
  cases hexception : isExceptionRule line with
  | true => simpa using (adds_exceptionRule hexception).2.2
  | false =>
    rw [Bool.false_and, if_neg Bool.false_ne_true]
    cases hblocking : isBlocking line with
    | true => exact (adds_blocking hblocking).1
    | false => exact (adds_neither hblocking hexception).2.1

theorem mem_disabled_adds :
    d ∈ (adds line).disabled ↔ isBadfilterRule line = true ∧ processRule line = d ∧ d ≠ "" := by
  cases hblocking : isBlocking line with
  | true =>
    rw [(adds_blocking hblocking).2.2]
    split
    · next h =>
      obtain ⟨hbadfilter, hne⟩ := Bool.and_eq_true_iff.1 h
      rw [Finset.mem_singleton]
      exact ⟨fun hd => ⟨hbadfilter, hd.symm, hd ▸ of_decide_eq_true hne⟩, fun hd => hd.2.1.symm⟩
    · next h =>
      refine iff_of_false (Finset.notMem_empty d) ?_
      rintro ⟨hbadfilter, rfl, hne⟩
      exact h (Bool.and_eq_true_iff.2 ⟨hbadfilter, decide_eq_true hne⟩)
  | false =>
    have hempty : (adds line).disabled = ∅ := by
      cases hexception : isExceptionRule line with
      | true => exact (adds_exceptionRule hexception).2.1
      | false => exact (adds_neither hblocking hexception).2.2
    rw [hempty]
    refine iff_of_false (Finset.notMem_empty d) ?_
    rintro ⟨hbadfilter, -, -⟩
    rw [isBadfilterRule, hblocking] at hbadfilter
    cases hbadfilter

/-- The names that the `$badfilter` rules of the list disable. -/
theorem mem_disabled (lines : List Bytes) (c : Conversion) :
    d ∈ (lines.foldl Conversion.line c).disabled ↔
      d ∈ c.disabled ∨ ∃ line ∈ lines, isBadfilterRule line = true ∧
        processRule line = d ∧ d ≠ "" := by
  induction lines generalizing c with
  | nil => simp
  | cons line lines ih =>
    rw [List.foldl_cons, ih, line_append, disabled_append, Finset.mem_union,
      mem_disabled_adds, or_assoc]
    simp only [List.mem_cons, exists_eq_or_imp]

/-- **What the converter keeps**: the block rules whose name no `$badfilter` rule has. -/
theorem kept_eq (lines : List Bytes) : (lines.foldl Conversion.line {}).kept =
    ((blockRules lines).filter fun target =>
      lines.all fun line =>
        !(isBadfilterRule line && processRule line = processRule target)).map processRule := by
  have hdomains : (lines.foldl Conversion.line {}).domains =
      (blockRules lines).map processRule := by
    rw [(foldl_line lines {}).1]
    simp only [adds_domains]
    exact flatMap_filter lines
  unfold Conversion.kept
  rw [hdomains, List.filter_map]
  congr 1
  refine List.filter_congr fun target htarget => ?_
  have hne : processRule target ≠ "" := by
    have hname := (List.mem_filter.1 htarget).2
    simp only [Bool.and_eq_true, decide_eq_true_eq] at hname
    exact hname.2
  rw [Bool.eq_iff_iff]
  simp only [Function.comp_apply, decide_eq_true_eq, mem_disabled, List.all_eq_true,
    Bool.not_eq_true',
    Bool.and_eq_false_iff, decide_eq_false_iff_not]
  constructor
  · intro hnone line hline
    by_contra hboth
    rw [not_or, not_not, Bool.not_eq_false] at hboth
    exact hnone (.inr ⟨line, hline, hboth.1, hboth.2, hne⟩)
  · rintro hall (hmem | ⟨line, hline, hbadfilter, hname, -⟩)
    · exact Finset.notMem_empty _ hmem
    · rcases hall line hline with h | h
      · rw [hbadfilter] at h
        cases h
      · exact h hname

theorem exceptions_eq (lines : List Bytes) : (lines.foldl Conversion.line {}).exceptions =
    (exceptionRules lines).map fun line => processException (rule line) := by
  rw [(foldl_line lines {}).2]
  simp only [adds_exceptions]
  exact flatMap_filter lines

/-- A line starts with its pattern, if there is one. -/
theorem head_pattern (hexception : exceptionPrefix.isPrefixOf line = false)
    (h : pattern line ≠ []) :
    line.head? = (pattern line).head? := by
  have hpattern : pattern line = (cut modifierSeparator line).1 := by
    have hrule : rule line = line := if_neg (by rw [hexception]; exact Bool.false_ne_true)
    rw [pattern, hrule, fst_splitModifiers]
  rw [hpattern] at h ⊢
  obtain ⟨b, bs, hcut⟩ := List.exists_cons_of_ne_nil h
  obtain ⟨-, ⟨-, hline⟩ | ⟨rest, -, hline⟩⟩ := cut_spec modifierSeparator line
  · exact congrArg _ hline
  · rw [hcut] at hline ⊢
    rw [hline]
    rfl

/-- Whether a line is gone through as a block rule is seen from its first byte, apart from the
exceptions. -/
theorem isBlocking_head {l : Bytes} (h : line.head? = l.head?)
    (hexception : exceptionPrefix.isPrefixOf line = false)
    (hexception' : exceptionPrefix.isPrefixOf l = false) : isBlocking line = isBlocking l := by
  unfold isBlocking
  rw [hexception, hexception']
  cases line with
  | nil =>
    cases l with
    | nil => rfl
    | cons b bs => cases h
  | cons a as =>
    cases l with
    | nil => cases h
    | cons b bs =>
      obtain rfl : a = b := Option.some.inj h
      rfl

/-- **A rule with the text of a block rule has its name.** -/
theorem IsBadfilterOf.name (h : IsBadfilterOf target line) (htarget : isBlockRule target = true)
    (hne : processRule target ≠ "") :
    isBadfilterRule line = true ∧ processRule line = processRule target := by
  obtain ⟨hexception, hpattern, hbadfilter, -⟩ := h
  have hblocking : isBlocking target = true := by
    simp only [isBlockRule, Bool.and_eq_true] at htarget
    exact htarget.1.1.1.1
  have htargetException : exceptionPrefix.isPrefixOf target = false := by
    simp only [isBlocking, Bool.and_eq_true, Bool.not_eq_true'] at hblocking
    exact hblocking.1.2
  have hsome : pattern target ≠ [] := by
    intro hnil
    rw [processRule_eq hblocking, hnil] at hne
    exact hne (by decide +kernel)
  have hlineException : exceptionPrefix.isPrefixOf line = false := hexception.trans htargetException
  have hhead : line.head? = target.head? := by
    rw [head_pattern hlineException (hpattern ▸ hsome),
      head_pattern htargetException hsome, hpattern]
  have hlineBlocking : isBlocking line = true :=
    (isBlocking_head hhead hlineException htargetException).trans hblocking
  refine ⟨Bool.and_eq_true_iff.2 ⟨hlineBlocking, hbadfilter⟩, ?_⟩
  rw [processRule_eq hlineBlocking, processRule_eq hblocking, hpattern]

theorem mem_blockRules :
    target ∈ blockRules lines ↔ target ∈ lines ∧ isBlockRule target = true ∧
    processRule target ≠ "" := by
  unfold blockRules
  simp only [List.mem_filter, Bool.and_eq_true, decide_eq_true_eq]

theorem enabled_iff :
    enabled lines target = true ↔ ∀ line ∈ lines, ¬ IsBadfilterOf target line := by
  simp only [enabled, List.all_eq_true, Bool.not_eq_true', decide_eq_false_iff_not]

/-- The block rules: what is kept is what is meant to be, unless a name is met by another text. -/
theorem kept_iff : (lines.foldl Conversion.line {}).kept = enabledDomains lines ↔
    ∀ target ∈ blockRules lines, ∀ line ∈ lines, isBadfilterRule line = true →
      processRule line = processRule target → ∃ l ∈ lines, IsBadfilterOf target l := by
  have hstricter : ∀ target ∈ blockRules lines,
      (lines.all fun line => !(isBadfilterRule line && processRule line = processRule target)) =
        true →
        enabled lines target = true := by
    intro target htarget hall
    obtain ⟨-, hrule, hne⟩ := mem_blockRules.1 htarget
    refine enabled_iff.2 fun line hline hof => ?_
    obtain ⟨hbadfilter, hname⟩ := hof.name hrule hne
    have hno := List.all_eq_true.1 hall line hline
    simp [hbadfilter, hname] at hno
  rw [kept_eq, enabledDomains, filter_map_eq_iff hstricter]
  refine forall₂_congr fun target htarget => ?_
  constructor
  · intro hall line hline hbadfilter hname
    by_contra hnone
    have hpass := hall (enabled_iff.2 fun l hl hof => hnone ⟨l, hl, hof⟩)
    have hno := List.all_eq_true.1 hpass line hline
    simp [hbadfilter, hname] at hno
  · intro hmeets henabled
    refine List.all_eq_true.2 fun line hline => ?_
    by_contra hboth
    simp only [Bool.not_eq_true', Bool.not_eq_false, Bool.and_eq_true, decide_eq_true_eq] at hboth
    obtain ⟨l, hl, hof⟩ := hmeets line hline hboth.1 hboth.2
    exact enabled_iff.1 henabled l hl hof

/-- The exceptions: all are kept. -/
theorem exceptions_iff : (lines.foldl Conversion.line {}).exceptions = enabledExceptions lines ↔
    ∀ target ∈ exceptionRules lines, ∀ line ∈ lines, ¬ IsBadfilterOf target line := by
  have hall : (exceptionRules lines).filter (fun _ => true) = exceptionRules lines :=
    List.filter_eq_self.2 fun _ _ => rfl
  have hsame :=
    @filter_map_eq_iff _ _ (enabled lines) (fun _ => true)
      (fun line => processException (rule line))
    (exceptionRules lines) fun _ _ _ => rfl
  rw [hall] at hsame
  rw [exceptions_eq, enabledExceptions, eq_comm, hsame]
  exact forall₂_congr fun target _ => (forall_prop_of_true rfl).trans enabled_iff

/-- **When a `$badfilter` rule disables exactly its target.** -/
theorem badfilter_iff (h : scanLines blocklist = some lines) :
    ∃ names result, Converts blocklist names result ∧
      (names = enabledDomains lines ∧ result.exceptions = enabledExceptions lines ↔
        MeetsTexts lines) := by
  refine ⟨_, _, (converts_iff h).2 ⟨rfl, rfl⟩, ?_⟩
  constructor
  · rintro ⟨hnames, hexceptions⟩
    exact ⟨kept_iff.1 hnames, exceptions_iff.1 hexceptions⟩
  · rintro ⟨hblocks, hexceptions⟩
    exact ⟨kept_iff.2 hblocks, exceptions_iff.2 hexceptions⟩

/-- A rule, its own `$badfilter` rule and an exception. -/
theorem badfilter_iff_own :
    ∃ names result, Converts (encode "||a.com^$badfilter
||a.com^
@@||b.com^") names result ∧
      (names = enabledDomains [encode "||a.com^$badfilter", encode "||a.com^",
        encode "@@||b.com^"] ∧
        result.exceptions = enabledExceptions
        [encode "||a.com^$badfilter", encode "||a.com^", encode "@@||b.com^"] ↔
        MeetsTexts [encode "||a.com^$badfilter", encode "||a.com^", encode "@@||b.com^"]) :=
  badfilter_iff (by decide +kernel)

/-- The rule that is disabled has other modifiers, but the plain block goes; the exception that is
disabled stays. -/
theorem badfilter_other_text :
    let lines :=
      [encode "||a.com^", encode "||a.com^$dnstype=AAAA,badfilter", encode "@@||b.com^",
        encode "@@||b.com^$badfilter"]
    scanLines (encode "||a.com^
||a.com^$dnstype=AAAA,badfilter
@@||b.com^
@@||b.com^$badfilter") = some lines ∧
      (∃ result, Converts (encode "||a.com^
||a.com^$dnstype=AAAA,badfilter
@@||b.com^
@@||b.com^$badfilter") [] result ∧
        result.exceptions = ["b.com"]) ∧
      enabledDomains lines = ["a.com"] ∧ enabledExceptions lines = [] := by
  intro lines
  have hlines : scanLines (encode "||a.com^
||a.com^$dnstype=AAAA,badfilter
@@||b.com^
@@||b.com^$badfilter") = some lines := by
    decide +kernel
  refine ⟨hlines, ⟨_, (converts_iff hlines).2 ⟨?_, rfl⟩, ?_⟩, ?_, ?_⟩
  all_goals decide +kernel

end Lines

end ModDNS.Blocklists.Adguard
