import ModDNS.Data.Folds
import ModDNS.Go.Net
import ModDNS.Profiles.Settings
import ModDNS.Rules.Regex

/-!
# The values of custom rules

How the API brings the value of a custom rule into its stored form, and which values it
accepts. The tags `fqdn`, `ip4_addr` and `ip6_addr` are the validator library's; the
wildcard and ASN tags are the API's own.
-/

namespace ModDNS.Rules

open Go Profiles Regex RegularExpression

def alphanumeric : List Char :=
  "abcdefghijklmnopqrstuvwxyzABCDEFGHIJKLMNOPQRSTUVWXYZ0123456789".toList

/-- `[a-zA-Z0-9-]`. -/
def nameChars : List Char := '-' :: alphanumeric

/-- `[a-zA-Z0-9][-a-zA-Z0-9]*`. -/
def labelRegex : RegularExpression Char := cls alphanumeric * (cls nameChars).star

/-- `[a-zA-Z0-9]([-a-zA-Z0-9]*[a-zA-Z0-9])?`. -/
def strictLabelRegex : RegularExpression Char :=
  cls alphanumeric * opt ((cls nameChars).star * cls alphanumeric)

/-- `FQDNWildcardRegex`. -/
def fqdnWildcardRegex : RegularExpression Char :=
  (cls nameChars).star * (char '*' * ((cls nameChars).star * (char '.' * labelRegex).star))

/-- `SuffixWildcardRegex`. -/
def suffixWildcardRegex : RegularExpression Char :=
  strictLabelRegex * ((char '.' * strictLabelRegex).star * (char '.' * char '*'))

/-- `ContainsWildcardRegex`. -/
def containsWildcardRegex : RegularExpression Char :=
  char '*' * (cls alphanumeric * ((cls ('.' :: nameChars)).star * (cls alphanumeric * char '*')))

def wildcardPatterns : List (RegularExpression Char) :=
  [fqdnWildcardRegex, suffixWildcardRegex, containsWildcardRegex]

/-- `wildcardValidation`. -/
def wildcardValidation (value : String) : Bool :=
  let value := if !contains value "*" && hasPrefix value "." then "*" ++ value else value
  if !contains value "*" then false
  else if trim value "*." = "" then false
  else wildcardPatterns.any fun re => re.rmatch value.toList

/-- The digits of an ASN, behind the letters `AS` if there are any: `none` is a value that
`asnValidation` and `normalizeASN` turn down before they parse it. -/
def asnDigits (value : String) : Option String :=
  let trimmed := trimSpace value
  if trimmed = "" then none
  else
    let digits := if hasPrefix (toUpper trimmed) "AS" then (sliceFrom trimmed 2).map trimSpace
      else some trimmed
    digits.bind fun digits => if digits = "" then none else some digits

/-- `asnValidation`. -/
def asnValidation (value : String) : Bool :=
  match (asnDigits value).bind (parseUint 32) with
  | some parsed => 0 < parsed
  | none => false

/-- `normalizeASN`. -/
def normalizeASN (value : String) : Option String :=
  match (asnDigits value).bind (parseUint 32) with
  | some parsed => if parsed = 0 then none else some (toString parsed)
  | none => none

theorem normalizeASN_toString {n : ℕ} (hpos : n ≠ 0) (hbound : n < 2 ^ 32) :
    normalizeASN (toString n) = some (toString n) := by
  have hdigits : ∀ c ∈ (toString n).toList, c.isDigit = true := fun c hc => isDigit_toString hc
  have hspace : trimSpace (toString n) = toString n := trimSpace_eq fun c hc =>
    isDigit_not_space (hdigits c hc)
  have hne : (toString n).toList ≠ [] := by
    rw [toList_toString]
    exact Nat.toDigits_ne_nil
  have hAS : hasPrefix (toUpper (toString n)) "AS" = false := by
    obtain ⟨c, cs, hcs⟩ := List.exists_cons_of_ne_nil hne
    have hc : c.isDigit = true := hdigits c (by rw [hcs]; exact List.mem_cons_self ..)
    have hupper : (toUpper (toString n)).toList = c :: cs.map toUpperRune := by
      rw [toUpper, String.toList_ofList, hcs, List.map_cons, toUpperRune_digit hc]
    rw [Bool.eq_false_iff, Ne, hasPrefix_iff, hupper]
    intro h
    have hA : 'A' = c := (List.cons_prefix_cons.1 h).1
    rw [← hA] at hc
    cases hc
  have hself : asnDigits (toString n) = some (toString n) := by
    simp only [asnDigits, hspace, if_neg (ne_empty_iff.2 hne), hAS, Bool.false_eq_true, if_false,
      Option.bind_some]
  rw [normalizeASN, hself, Option.bind_some, parseUint_toString hbound]
  simp only [if_neg hpos]

/-- A normalized ASN is the digits of a number, and is its own normal form. -/
theorem normalizeASN_some {value asn : String} (h : normalizeASN value = some asn) :
    (∀ c ∈ asn.toList, c.isDigit = true) ∧ normalizeASN asn = some asn := by
  unfold normalizeASN at h
  split at h
  · next parsed hparsed =>
    split at h
    · cases h
    · next hpos =>
      obtain rfl : toString parsed = asn := by simpa using h
      have hdigits : ∀ c ∈ (toString parsed).toList, c.isDigit = true := fun c hc =>
        isDigit_toString hc
      have hbound : parsed < 2 ^ 32 := by
        obtain ⟨digits, -, hparse⟩ := Option.bind_eq_some_iff.1 hparsed
        obtain ⟨n, -, hn⟩ := Option.bind_eq_some_iff.1 hparse
        split at hn
        · cases hn
          assumption
        · cases hn
      exact ⟨hdigits, normalizeASN_toString hpos hbound⟩
  · cases h

/-- A text that starts with a star is no ASN. -/
theorem normalizeASN_star {s : String} {cs : List Char} (hs : s.toList = '*' :: cs) :
    normalizeASN s = none := by
  obtain ⟨ds, hds⟩ := trimSpace_cons hs (by decide)
  have hne : trimSpace s ≠ "" := ne_empty_iff.2 (by rw [hds]; exact List.cons_ne_nil _ _)
  have hAS : hasPrefix (toUpper (trimSpace s)) "AS" = false := by
    have hupper : (toUpper (trimSpace s)).toList = toUpperRune '*' :: ds.map toUpperRune := by
      rw [toUpper, String.toList_ofList, hds, List.map_cons]
    rw [Bool.eq_false_iff, Ne, hasPrefix_iff, hupper]
    intro h
    have hA : 'A' = toUpperRune '*' := (List.cons_prefix_cons.1 h).1
    revert hA
    decide
  have hparse : parseUint 32 (trimSpace s) = none := by
    rw [parseUint, hds, parseDigits, List.isEmpty_cons, if_neg Bool.false_ne_true, List.foldlM_cons,
      if_neg (by decide)]
    rfl
  have hdigits : asnDigits s = some (trimSpace s) := by
    simp only [asnDigits, if_neg hne, hAS, Bool.false_eq_true, if_false, Option.bind_some]
  rw [normalizeASN, hdigits, Option.bind_some, hparse]

/-- The tags of the validator library. -/
structure ValidatorTags where
  fqdn : String → Bool
  ip4Addr : String → Bool
  ip6Addr : String → Bool

/-- `NewCustomRuleSyntax`: the first of the validations that accepts the value. -/
def newCustomRuleSyntax (tags : ValidatorTags) (value : String) : Option CustomRuleSyntax :=
  if tags.fqdn value then some .fqdn
  else if tags.ip4Addr value then some .ip4Addr
  else if tags.ip6Addr value then some .ip6Addr
  else if wildcardValidation value then some .fqdnWildcard
  else if asnValidation value then some .asn
  else none

/-- `normalizeRuleValue`. -/
def normalizeRuleValue (settings : ProfileSettings) (original : String) : String :=
  let trimmed := trimSpace original
  if trimmed = "" then ""
  else
    let normalized := trimSuffix trimmed "."
    let normalized := if hasPrefix normalized "." then "*" ++ normalized else normalized
    let normalized := (normalizeASN normalized).getD normalized
    if settings.privacy.customRulesSubdomainsRule ≠ customRulesSubdomainsExact ∧
        !contains normalized "*" ∧ !contains normalized "/" ∧ parseIP normalized = [] ∧
        normalizeASN normalized = none then
      "*." ++ normalized
    else normalized

inductive BulkCustomRuleSkipReason where
  | invalidSyntax
  | duplicateExisting
  | duplicatePayload
  deriving DecidableEq

structure BulkCustomRuleSkipped where
  value : String
  reason : BulkCustomRuleSkipReason
  deriving DecidableEq

/-- `skippedRule.Message`. -/
def BulkCustomRuleSkipReason.message : BulkCustomRuleSkipReason → String
  | .duplicateExisting => "Rule already exists on this profile."
  | .duplicatePayload => "Value appears more than once in this request."
  | .invalidSyntax => "Value must be a valid domain, wildcard, IP address, or ASN."

/-- The variables of the loop in `CreateCustomRulesBulk`. -/
structure BulkState where
  existingValues : List String
  payloadSeen : List String
  toCreate : List CustomRule
  skipped : List BulkCustomRuleSkipped

def BulkState.skip (st : BulkState) (value : String) (reason : BulkCustomRuleSkipReason) :
    BulkState :=
  { st with skipped := st.skipped ++ [⟨value, reason⟩] }

structure BulkCustomRuleResult where
  action : CustomRuleAction
  totalRequested : ℕ
  created : List CustomRule
  skipped : List BulkCustomRuleSkipped
  deriving DecidableEq

inductive CustomRuleError where
  | invalidCustomRuleAction
  | invalidCustomRuleSyntax
  | customRuleAlreadyExists
  | customRuleNotFound
  | maxCustomRulesReached
  deriving DecidableEq

section Bulk

variable (tags : ValidatorTags) (newID : ℕ → RuleID) (settings : ProfileSettings)

/-- One round of the loop; `newID` gives the id of the rule at each place of `toCreate`. -/
def bulkStep (action : CustomRuleAction) (st : BulkState) (original : String) : BulkState :=
  let normalized := normalizeRuleValue settings original
  if normalized = "" then st.skip original .invalidSyntax
  else if normalized ∈ st.payloadSeen then st.skip normalized .duplicatePayload
  else
    let st := { st with payloadSeen := normalized :: st.payloadSeen }
    match newCustomRuleSyntax tags normalized with
    | none => st.skip normalized .invalidSyntax
    | some ruleSyntax =>
      if normalized ∈ st.existingValues then st.skip normalized .duplicateExisting
      else
        let customRule : CustomRule :=
          { id := newID st.toCreate.length, action, value := normalized, ruleSyntax,
            order := settings.customRules.length + st.toCreate.length }
        { st with
          toCreate := st.toCreate ++ [customRule]
          existingValues := normalized :: st.existingValues }

/-- `CreateCustomRulesBulk`, between reading the profile and writing the rules: `accountRules`
is the number of rules on the profiles of the account. -/
def createCustomRulesBulk (accountRules : ℕ) (action : String) (values : List String) :
    Except CustomRuleError BulkCustomRuleResult :=
  match newCustomRuleAction action with
  | none => .error .invalidCustomRuleAction
  | some actionCustomRule =>
    let st := values.foldl (bulkStep tags newID settings actionCustomRule)
      ⟨settings.customRules.map (·.value), [], [], []⟩
    if st.toCreate ≠ [] ∧ accountRules + st.toCreate.length > maxCustomRulesPerAccount then
      .error .maxCustomRulesReached
    else .ok ⟨actionCustomRule, values.length, st.toCreate, st.skipped⟩

variable {tags newID settings} {action : CustomRuleAction} {st : BulkState} {rule : CustomRule}

/-- A round creates at most one rule: the stored form of its value, under its syntax. -/
theorem bulkStep_created {v : String}
    (h : rule ∈ (bulkStep tags newID settings action st v).toCreate) :
    rule ∈ st.toCreate ∨ (rule.value = normalizeRuleValue settings v ∧ rule.value ≠ "" ∧
      newCustomRuleSyntax tags rule.value = some rule.ruleSyntax) := by
  unfold bulkStep at h
  generalize normalizeRuleValue settings v = normalized at h ⊢
  simp only at h
  generalize hsyntax : newCustomRuleSyntax tags normalized = ruleSyntax at h
  split at h
  · exact .inl h
  · next hne =>
    split at h
    · exact .inl h
    · cases ruleSyntax with
      | none => exact .inl h
      | some ruleSyntax =>
        simp only at h
        split at h
        · exact .inl h
        · rcases List.mem_append.1 h with h | h
          · exact .inl h
          · rw [List.mem_singleton.1 h]
            exact .inr ⟨rfl, hne, hsyntax⟩

/-- Every created rule is the stored form of a value of the request, under the syntax of that
form. -/
theorem created_of_value {accountRules : ℕ} {text : String} {values : List String}
    {result : BulkCustomRuleResult}
    (h : createCustomRulesBulk tags newID settings accountRules text values = .ok result)
    (hrule : rule ∈ result.created) :
    (∃ v ∈ values, rule.value = normalizeRuleValue settings v) ∧ rule.value ≠ "" ∧
      newCustomRuleSyntax tags rule.value = some rule.ruleSyntax := by
  have hfold : ∀ (values : List String) (action : CustomRuleAction) (st : BulkState),
      rule ∈ (values.foldl (bulkStep tags newID settings action) st).toCreate → rule ∈ st.toCreate ∨
        ((∃ v ∈ values, rule.value = normalizeRuleValue settings v) ∧ rule.value ≠ "" ∧
          newCustomRuleSyntax tags rule.value = some rule.ruleSyntax) := by
    intro values action
    induction values with
    | nil => exact fun st h => .inl h
    | cons v values ih =>
      intro st h
      rw [List.foldl_cons] at h
      rcases ih (bulkStep tags newID settings action st v) h with hnew | ⟨⟨u, hu, heq⟩, hrest⟩
      · rcases bulkStep_created hnew with h | ⟨heq, hrest⟩
        · exact .inl h
        · exact .inr ⟨⟨v, List.mem_cons_self .., heq⟩, hrest⟩
      · exact .inr ⟨⟨u, List.mem_cons_of_mem _ hu, heq⟩, hrest⟩
  unfold createCustomRulesBulk at h
  split at h
  · cases h
  · simp only at h
    split at h
    · cases h
    · cases h
      exact (hfold values _ _ hrule).resolve_left (List.not_mem_nil)

/-- The rules of the loop so far: their values are new and different, their ids and orders are the
next ones. -/
structure BulkSound (newID : ℕ → RuleID) (settings : ProfileSettings) (st : BulkState) : Prop where
  known : ∀ v, v ∈ settings.customRules.map (·.value) ∨ v ∈ st.toCreate.map (·.value) →
    v ∈ st.existingValues
  values : (st.toCreate.map (·.value)).Nodup
  fresh : ∀ rule ∈ st.toCreate, rule.value ∉ settings.customRules.map (·.value)
  ids : st.toCreate.map (·.id) = (List.range st.toCreate.length).map newID
  orders : st.toCreate.map (·.order) = (List.range st.toCreate.length).map
    (settings.customRules.length + ·)

theorem BulkSound.step {v : String} (h : BulkSound newID settings st) :
    BulkSound newID settings (bulkStep tags newID settings action st v) := by
  unfold bulkStep
  generalize normalizeRuleValue settings v = normalized
  dsimp only
  split
  · exact ⟨h.known, h.values, h.fresh, h.ids, h.orders⟩
  split
  · exact ⟨h.known, h.values, h.fresh, h.ids, h.orders⟩
  cases newCustomRuleSyntax tags normalized with
  | none => exact ⟨h.known, h.values, h.fresh, h.ids, h.orders⟩
  | some ruleSyntax =>
    dsimp only
    split
    · exact ⟨h.known, h.values, h.fresh, h.ids, h.orders⟩
    · next hnew =>
      have hfresh : normalized ∉ settings.customRules.map (·.value) := fun hmem =>
        hnew (h.known _ (.inl hmem))
      have hother : normalized ∉ st.toCreate.map (·.value) := fun hmem =>
        hnew (h.known _ (.inr hmem))
      refine ⟨fun u hu => ?_, ?_, ?_, ?_, ?_⟩
      · rw [List.map_append, List.mem_append] at hu
        rcases hu with hu | hu | hu
        · exact List.mem_cons_of_mem _ (h.known u (.inl hu))
        · exact List.mem_cons_of_mem _ (h.known u (.inr hu))
        · rw [List.mem_singleton.1 hu]
          exact List.mem_cons_self ..
      · rw [List.map_append]
        refine List.nodup_append.2 ⟨h.values, List.nodup_singleton _, ?_⟩
        rintro u hu u' hu' rfl
        rw [List.mem_singleton.1 hu'] at hu
        exact hother hu
      · intro rule hrule
        rcases List.mem_append.1 hrule with hrule | hrule
        · exact h.fresh rule hrule
        · rw [List.mem_singleton.1 hrule]
          exact hfresh
      · rw [List.map_append, h.ids, List.length_append, List.length_singleton, List.range_succ,
          List.map_append]
        rfl
      · rw [List.map_append, h.orders, List.length_append, List.length_singleton, List.range_succ,
          List.map_append]
        rfl

/-- **The loop**: what it creates, whatever the values of the request. -/
theorem bulkSound_loop (values : List String) :
    BulkSound newID settings (values.foldl (bulkStep tags newID settings action)
    ⟨settings.customRules.map (·.value), [], [], []⟩) := by
  have hkept : ∀ st v, BulkSound newID settings st →
    BulkSound newID settings (bulkStep tags newID settings action st v) :=
    fun st v h => h.step
  have hstart : BulkSound newID settings ⟨settings.customRules.map (·.value), [], [], []⟩ :=
    ⟨fun v hv => hv.resolve_right List.not_mem_nil, List.nodup_nil, List.forall_mem_nil _, rfl, rfl⟩
  exact Data.foldl_invariant hkept hstart values

end Bulk

end ModDNS.Rules
