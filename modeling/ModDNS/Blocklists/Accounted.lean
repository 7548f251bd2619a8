import ModDNS.Blocklists.Adguard
import Mathlib.Algebra.Ring.Nat
import Mathlib.Tactic.Ring

/-!
# What becomes of the lines

Each line that is neither empty nor a comment is published or counted under one reason
(`weight_line`); the second pass moves what it removes from the names to the counter of `$badfilter`
(`accounted`). Two lines may be swapped (`line_swap`), so the order of the lines changes the order
of what is published and nothing else (`foldl_same`).
-/

namespace ModDNS.Blocklists

open Go

/-- All the rules that were dropped. -/
def ConversionStats.total (s : ConversionStats) : ℕ :=
  s.skippedExceptions + s.skippedBadfilter + s.skippedModifiers + s.skippedWildcards +
    s.skippedPrefixes + s.skippedInvalid

namespace Adguard

/-- The lines that are neither empty nor comments. -/
def rules (lines : List Bytes) : List Bytes := lines.filter fun line => !isCommentOrEmpty line

/-- The rules that a conversion has gone through. -/
def Conversion.weight (c : Conversion) : ℕ := c.domains.length + c.exceptions.length + c.stats.total

/-- The same conversion, up to the order of what is published. -/
structure Conversion.Same (c c' : Conversion) : Prop where
  domains : c.domains.Perm c'.domains
  exceptions : c.exceptions.Perm c'.exceptions
  disabled : c.disabled = c'.disabled
  stats : c.stats = c'.stats

/-- What a conversion of the input hands over: the names that the updater reads out of it, and the
result. -/
structure Converts (blocklist : Bytes) (names : List String) (result : ConversionResult) :
    Prop where
  converted : ∃ out, convert blocklist = some (out, result) ∧ scanValidatedDomains out = some names

/-- The result of `Convert` once the loop is over. -/
def Conversion.result (c : Conversion) : ConversionResult :=
  { exceptions := c.exceptions
    stats := { c.stats with
               skippedBadfilter := c.stats.skippedBadfilter + (c.domains.length - c.kept.length) } }

section Fields

variable (c c' : Conversion)

theorem domains_append : (c ++ c').domains = c.domains ++ c'.domains := rfl

theorem exceptions_append : (c ++ c').exceptions = c.exceptions ++ c'.exceptions := rfl

theorem disabled_append : (c ++ c').disabled = c.disabled ∪ c'.disabled := rfl

end Fields

section Runs

variable {blocklist blocklist' : Bytes} {lines lines' : List Bytes} {c c' c'' : Conversion}
  {names names' : List String} {result result' : ConversionResult}

/-- **Each rule is published or counted, once.** -/
theorem weight_line (c : Conversion) (line : Bytes) :
    (c.line line).weight = c.weight + if isCommentOrEmpty line then 0 else 1 := by
  unfold Conversion.line
  split
  · rfl
  split
  · simp only
    split
    · simp only [Conversion.weight, List.length_append, List.length_singleton]
      omega
    · simp only [Conversion.weight, ConversionStats.total]
      omega
  simp only
  split_ifs
  all_goals
    simp only [Conversion.weight, ConversionStats.total, List.length_append, List.length_singleton]
    omega

theorem foldl_weight (lines : List Bytes) (c : Conversion) :
    (lines.foldl Conversion.line c).weight = c.weight + (rules lines).length := by
  induction lines generalizing c with
  | nil => rfl
  | cons line lines ih =>
    have hrules : (rules (line :: lines)).length = (if isCommentOrEmpty line then 0 else 1) +
        (rules lines).length := by
      unfold rules
      rw [List.filter_cons]
      cases isCommentOrEmpty line with
      | true => simp
      | false => simp [Nat.add_comm]
    rw [List.foldl_cons, ih, weight_line, hrules, Nat.add_assoc]

theorem kept_le (c : Conversion) : c.kept.length ≤ c.domains.length := List.length_filter_le _ _

/-- What the second pass removes it counts. -/
theorem accounted (c : Conversion) :
    c.weight = c.kept.length + c.result.exceptions.length + c.result.stats.total := by
  have hle := kept_le c
  unfold Conversion.weight Conversion.result ConversionStats.total
  simp only
  omega

theorem Conversion.Same.refl (c : Conversion) : c.Same c := ⟨.refl _, .refl _, rfl, rfl⟩

theorem Conversion.Same.trans (h : c.Same c') (h' : c'.Same c'') : c.Same c'' :=
  ⟨h.domains.trans h'.domains, h.exceptions.trans h'.exceptions, h.disabled.trans h'.disabled,
    h.stats.trans h'.stats⟩

theorem Conversion.Same.line (h : c.Same c') (line : Bytes) :
    (c.line line).Same (c'.line line) := by
  rw [line_append, line_append]
  refine ⟨h.domains.append_right _, h.exceptions.append_right _, ?_, ?_⟩
  · rw [disabled_append, disabled_append, h.disabled]
  · show (Append.append c (adds line)).stats = (Append.append c' (adds line)).stats
    simp only [Append.append, h.stats]

/-- **Two lines may be swapped.** -/
theorem line_swap (c : Conversion) (a b : Bytes) :
    ((c.line a).line b).Same ((c.line b).line a) := by
  simp only [line_append]
  refine ⟨?_, ?_, ?_, ?_⟩
  · simp only [domains_append, List.append_assoc]
    exact List.perm_append_comm.append_left _
  · simp only [exceptions_append, List.append_assoc]
    exact List.perm_append_comm.append_left _
  · simp only [disabled_append, Finset.union_assoc]
    rw [Finset.union_comm (adds a).disabled]
  · show (Append.append (Append.append c (adds a)) (adds b)).stats =
      (Append.append (Append.append c (adds b)) (adds a)).stats
    simp only [Append.append, Nat.add_right_comm]

theorem foldl_line_same (lines : List Bytes) (h : c.Same c') :
    (lines.foldl Conversion.line c).Same (lines.foldl Conversion.line c') := by
  induction lines generalizing c c' with
  | nil => exact h
  | cons line lines ih => exact ih (h.line line)

/-- **The order of the lines does not matter**, by the steps that the permutation is made of. -/
theorem foldl_same (h : lines.Perm lines') (c : Conversion) :
    (lines.foldl Conversion.line c).Same (lines'.foldl Conversion.line c) := by
  induction h generalizing c with
  | nil => exact .refl c
  | cons line _ ih => exact ih (c.line line)
  | swap a b lines => exact foldl_line_same lines (line_swap c b a)
  | trans _ _ ih ih' => exact (ih c).trans (ih' c)

theorem Conversion.Same.kept (h : c.Same c') : c.kept.Perm c'.kept := by
  unfold Conversion.kept
  rw [h.disabled]
  exact h.domains.filter _

theorem Conversion.Same.stats_eq (h : c.Same c') : c.result.stats = c'.result.stats := by
  unfold Conversion.result
  rw [h.stats, h.domains.length_eq, h.kept.length_eq]

/-- What the loop collects is valid. -/
theorem kept_valid {d : String} (hd : d ∈ (lines.foldl Conversion.line {}).kept) :
    validDomain d = true := by
  have hin := List.mem_of_mem_filter hd
  rw [(foldl_line lines {}).1] at hin
  obtain ⟨line, -, hline⟩ := List.mem_flatMap.1 hin
  exact (gives_domain hline).valid

/-- What `Convert` hands over, by the loop. -/
theorem converts_iff (h : scanLines blocklist = some lines) :
    Converts blocklist names result ↔
      names = (lines.foldl Conversion.line {}).kept ∧
        result = (lines.foldl Conversion.line {}).result := by
  have hconvert : convert blocklist =
      some (encode (join (lines.foldl Conversion.line {}).kept '\n'),
        (lines.foldl Conversion.line {}).result) := by
    unfold convert
    rw [h]
    rfl
  have hscan := scan_join fun _ hd => @kept_valid lines _ hd
  constructor
  · rintro ⟨out, hout, hnames⟩
    rw [hconvert] at hout
    obtain ⟨rfl, rfl⟩ := Prod.mk.inj (Option.some.inj hout)
    rw [hscan] at hnames
    exact ⟨(Option.some.inj hnames).symm, rfl⟩
  · rintro ⟨rfl, rfl⟩
    exact ⟨_, hconvert, hscan⟩

/-- **Conversion accounts for every line and ignores their order.** -/
theorem lines_accounted (h : scanLines blocklist = some lines) :
    ∃ names result, Converts blocklist names result ∧
      (rules lines).length = names.length + result.exceptions.length + result.stats.total ∧
      ∀ blocklist' lines', scanLines blocklist' = some lines' → lines'.Perm lines →
        ∃ names' result', Converts blocklist' names' result' ∧ names'.Perm names ∧
          result'.exceptions.Perm result.exceptions ∧ result'.stats = result.stats := by
  refine ⟨_, _, (converts_iff h).2 ⟨rfl, rfl⟩, ?_, fun blocklist' lines' h' hperm => ?_⟩
  · have hweight := foldl_weight lines {}
    have hzero : ({} : Conversion).weight = 0 := rfl
    rw [hzero, Nat.zero_add] at hweight
    rw [← hweight]
    exact accounted _
  · have hsame := foldl_same hperm {}
    exact ⟨_, _, (converts_iff h').2 ⟨rfl, rfl⟩, hsame.kept, hsame.exceptions, hsame.stats_eq⟩

/-- The `$badfilter` rule before the rule that it disables, or after it. -/
theorem lines_accounted_badfilter :
    ∃ names result, Converts (encode "||a.com^$badfilter\n! title\n||a.com^\n||b.com^")
      names result ∧
      3 = names.length + result.exceptions.length + result.stats.total ∧
      ∃ names' result', Converts (encode "||b.com^\n||a.com^\n||a.com^$badfilter\n! title")
      names' result' ∧
        names'.Perm names ∧ result'.exceptions.Perm result.exceptions ∧
          result'.stats = result.stats := by
  have hlines : scanLines (encode "||a.com^$badfilter\n! title\n||a.com^\n||b.com^") =
      some [encode "||a.com^$badfilter", encode "! title", encode "||a.com^",
        encode "||b.com^"] := by decide +kernel
  have hlines' : scanLines (encode "||b.com^\n||a.com^\n||a.com^$badfilter\n! title") =
      some [encode "||b.com^", encode "||a.com^", encode "||a.com^$badfilter",
        encode "! title"] := by decide +kernel
  obtain ⟨names, result, hconverts, hcount, hperm⟩ := lines_accounted hlines
  exact ⟨names, result, hconverts, hcount, hperm _ _ hlines' (by decide +kernel)⟩

end Runs

end Adguard

end ModDNS.Blocklists
