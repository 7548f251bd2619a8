import ModDNS.Profiles.Imports
import ModDNS.Proxy.Filters
import ModDNS.Rules.Bulk

/-!
# The rules for addresses and networks

The API stores a custom rule under the syntax that accepted its value, on each path that stores
rules (`StoredRule.accepted`). The three readings of an ASN agree (`asn_readings`), and an address
is the same in the form of four bytes and in the mapped one (`equal_iff`). So the phase that goes
through the answer does what the action of a rule says to the addresses that the value names
(`address_rules`).
-/

namespace ModDNS.Proxy

open Go Profiles Rules

section Numbers

variable {s : String} {n : ℕ}

/-- **The three readings of an ASN agree.** -/
theorem asn_readings (s : String) : asnValidation s = (parseCustomRuleASN s).isSome ∧
    normalizeASN s = (parseCustomRuleASN s).map toString ∧ ∀ n ∈ parseCustomRuleASN s, 0 < n ∧
      n < 2 ^ 32 := by
  have hempty : parseUint 32 "" = none := rfl
  have hsame : ((asnDigits s).bind (parseUint 32)).bind
    (fun parsed => if parsed = 0 then none else some parsed) =
      parseCustomRuleASN s := by
    unfold asnDigits parseCustomRuleASN
    dsimp only
    by_cases htrim : trimSpace s = ""
    · rw [if_pos htrim, if_pos htrim]
      rfl
    · rw [if_neg htrim, if_neg htrim]
      generalize (if hasPrefix (toUpper (trimSpace s)) "AS" then
        (sliceFrom (trimSpace s) 2).map trimSpace else some (trimSpace s)) = digits
      cases digits with
      | none => rfl
      | some digits =>
        by_cases hdigits : digits = ""
        · simp [hdigits, hempty]
        · simp [hdigits]
  rw [← hsame]
  unfold asnValidation normalizeASN
  cases hparsed : (asnDigits s).bind (parseUint 32) with
  | none => exact ⟨rfl, rfl, fun n hn => by cases hn⟩
  | some parsed =>
    have hbound : parsed < 2 ^ 32 := by
      obtain ⟨digits, -, hparse⟩ := Option.bind_eq_some_iff.1 hparsed
      obtain ⟨m, -, hm⟩ := Option.bind_eq_some_iff.1 hparse
      split at hm
      · cases hm
        assumption
      · cases hm
    by_cases hzero : parsed = 0
    · subst hzero
      exact ⟨rfl, rfl, fun n hn => by cases hn⟩
    · rw [Option.bind_some, if_neg hzero]
      dsimp only
      rw [if_neg hzero]
      refine ⟨decide_eq_true (Nat.pos_of_ne_zero hzero), rfl, fun n hn => ?_⟩
      obtain rfl : parsed = n := Option.some.inj hn
      exact ⟨Nat.pos_of_ne_zero hzero, hbound⟩

/-- The spellings of a number: spaces, the two letters in any case and spaces behind them, zeros,
the digits, spaces. -/
structure Spells (n : ℕ) (s : String) : Prop where
  spelled : ∃ before letters inner zeros after,
    s.toList = before ++
      (letters ++ (inner ++ (List.replicate zeros '0' ++ (toString n).toList))) ++ after ∧
      (∀ c ∈ before ++ inner ++ after, isSpace c = true) ∧
      (letters = [] ∧ inner = [] ∨ letters ∈ [['A', 'S'], ['A', 's'], ['a', 'S'], ['a', 's']])

theorem toList_toUpper (s : String) : (toUpper s).toList = s.toList.map toUpperRune :=
  String.toList_ofList

/-- Spaces around a text are trimmed. -/
theorem trimSpace_pad {before core after : List Char} (hbefore : ∀ c ∈ before, isSpace c = true)
    (hafter : ∀ c ∈ after, isSpace c = true) (hhead : ∀ c ∈ core.head?, isSpace c = false)
    (hlast : ∀ c ∈ core.getLast?, isSpace c = false) (hne : core ≠ []) :
    trimSpace (.ofList (before ++ core ++ after)) = .ofList core := by
  have hdrop : ∀ pre rest : List Char, (∀ c ∈ pre, isSpace c = true) →
    (∀ c ∈ rest.head?, isSpace c = false) →
      (pre ++ rest).dropWhile isSpace = rest := by
    intro pre rest hpre hrest
    rw [List.dropWhile_append_of_pos hpre]
    cases rest with
    | nil => rfl
    | cons c rest => exact List.dropWhile_cons_of_neg (by simp [hrest c rfl])
  obtain ⟨c, cs, rfl⟩ := List.exists_cons_of_ne_nil hne
  unfold trimSpace
  rw [String.toList_ofList, List.append_assoc, hdrop before _ hbefore (by simpa using hhead),
    List.reverse_append,
    hdrop after.reverse _ (fun c hc => hafter c (List.mem_reverse.1 hc))
    (by rw [List.head?_reverse]; exact hlast),
    List.reverse_reverse]

theorem digits_spelled {zeros : ℕ} {c : Char}
    (hc : c ∈ List.replicate zeros '0' ++ (toString n).toList) : c.isDigit = true := by
  rcases List.mem_append.1 hc with hc | hc
  · rw [List.eq_of_mem_replicate hc]
    rfl
  · exact isDigit_toString hc

theorem digits_ne_nil (zeros n : ℕ) : List.replicate zeros '0' ++ (toString n).toList ≠ [] := by
  rw [toList_toString]
  exact List.append_ne_nil_of_right_ne_nil _ Nat.toDigits_ne_nil

/-- Zeros in front do not change what is read. -/
theorem parseUint_zeros (zeros : ℕ) (h : n < 2 ^ 32) :
    parseUint 32 (.ofList (List.replicate zeros '0' ++ (toString n).toList)) = some n := by
  rw [parseUint, String.toList_ofList, parseDigits_eq (digits_ne_nil zeros n) fun c hc =>
    digits_spelled hc,
    Nat.ofDigitChars_append, Nat.ofDigitChars_replicate_zero, Nat.mul_zero, toList_toString,
    Nat.ofDigitChars_ten_toDigits,
    Option.bind_some, if_pos h]

/-- Digits with spaces around them, trimmed. -/
theorem trimSpace_digits {before after : List Char} {zeros : ℕ}
    (hbefore : ∀ c ∈ before, isSpace c = true) (hafter : ∀ c ∈ after, isSpace c = true) :
    trimSpace (.ofList (before ++ (List.replicate zeros '0' ++ (toString n).toList) ++ after)) =
      .ofList (List.replicate zeros '0' ++ (toString n).toList) := by
  refine trimSpace_pad hbefore hafter (fun c hc => ?_) (fun c hc => ?_) (digits_ne_nil zeros n)
  · exact isDigit_not_space (digits_spelled (List.mem_of_mem_head? hc))
  · exact isDigit_not_space (digits_spelled (List.mem_of_getLast? hc))

section Spellings

variable {zeros : ℕ} {before inner after : List Char}

/-- The digits alone, with spaces around them. -/
theorem parse_digits (hbefore : ∀ c ∈ before, isSpace c = true)
    (hafter : ∀ c ∈ after, isSpace c = true) (hpos : 0 < n) (hbound : n < 2 ^ 32)
    (hs : s = .ofList (before ++ (List.replicate zeros '0' ++ (toString n).toList) ++ after)) :
    parseCustomRuleASN s = some n := by
  have hread := @parseUint_zeros n zeros hbound
  have hzero : n ≠ 0 := Nat.pos_iff_ne_zero.1 hpos
  have htrim : trimSpace s = .ofList (List.replicate zeros '0' ++ (toString n).toList) := by
    rw [hs]
    exact trimSpace_digits hbefore hafter
  have hne : String.ofList (List.replicate zeros '0' ++ (toString n).toList) ≠ "" :=
    ne_empty_iff.2 (by rw [String.toList_ofList]; exact digits_ne_nil zeros n)
  -- a digit is no letter
  have hAS : hasPrefix (toUpper (.ofList (List.replicate zeros '0' ++ (toString n).toList))) "AS" =
      false := by
    obtain ⟨c, cs, hcs⟩ := List.exists_cons_of_ne_nil (digits_ne_nil zeros n)
    have hc : c.isDigit = true := digits_spelled (by rw [hcs]; exact List.mem_cons_self ..)
    rw [Bool.eq_false_iff, Ne, hasPrefix_iff, toList_toUpper, String.toList_ofList,
      String.toList_ofList, hcs, List.map_cons, toUpperRune_digit hc]
    intro hpre
    rw [← (List.cons_prefix_cons.1 hpre).1] at hc
    cases hc
  unfold parseCustomRuleASN
  dsimp only
  rw [htrim, if_neg hne, hAS, if_neg Bool.false_ne_true, Option.bind_some, hread,
    Option.bind_some, if_neg hzero]

/-- The digits behind the two letters, with spaces between them. -/
theorem parse_lettered {a b : Char} (hletters : [a, b] ∈
    [['A', 'S'], ['A', 's'], ['a', 'S'], ['a', 's']]) (hbefore : ∀ c ∈ before, isSpace c = true)
    (hinner : ∀ c ∈ inner, isSpace c = true) (hafter : ∀ c ∈ after, isSpace c = true) (hpos : 0 < n)
    (hbound : n < 2 ^ 32)
    (hs : s = .ofList
      (before ++ (a :: b :: (inner ++ (List.replicate zeros '0' ++ (toString n).toList))) ++
        after)) :
    parseCustomRuleASN s = some n := by
  have hread := @parseUint_zeros n zeros hbound
  have hzero : n ≠ 0 := Nat.pos_iff_ne_zero.1 hpos
  obtain ⟨ha, hb, hsa, hsb, hspace⟩ : toUpperRune a = 'A' ∧ toUpperRune b = 'S' ∧ a.utf8Size = 1 ∧
    b.utf8Size = 1 ∧
      isSpace a = false := by
    simp only [List.mem_cons, List.not_mem_nil, or_false, List.cons.injEq, and_true] at hletters
    rcases hletters with ⟨rfl, rfl⟩ | ⟨rfl, rfl⟩ | ⟨rfl, rfl⟩ | ⟨rfl, rfl⟩
    all_goals exact ⟨by decide, by decide, by decide, by decide, by decide⟩
  have htrim : trimSpace s = .ofList
      (a :: b :: (inner ++ (List.replicate zeros '0' ++ (toString n).toList))) := by
    rw [hs]
    refine trimSpace_pad hbefore hafter (fun c hc => ?_) (fun c hc => ?_) (List.cons_ne_nil _ _)
    · obtain rfl : a = c := Option.some.inj hc
      exact hspace
    · have hlast :
        (a :: b :: (inner ++ (List.replicate zeros '0' ++ (toString n).toList))).getLast? =
          (List.replicate zeros '0' ++ (toString n).toList).getLast? := by
        rw [← List.cons_append, ← List.cons_append,
          List.getLast?_append_of_ne_nil _ (digits_ne_nil zeros n)]
      have hin : c ∈ (List.replicate zeros '0' ++ (toString n).toList).getLast? := hlast ▸ hc
      exact isDigit_not_space (digits_spelled (List.mem_of_getLast? hin))
  have hne : String.ofList
    (a :: b :: (inner ++ (List.replicate zeros '0' ++ (toString n).toList))) ≠ "" :=
    ne_empty_iff.2 (by rw [String.toList_ofList]; exact List.cons_ne_nil _ _)
  have hAS : hasPrefix
      (toUpper (.ofList (a :: b :: (inner ++ (List.replicate zeros '0' ++ (toString n).toList)))))
      "AS" = true := by
    rw [hasPrefix_iff, toList_toUpper, String.toList_ofList, String.toList_ofList, List.map_cons,
      List.map_cons, ha, hb]
    exact ⟨_, rfl⟩
  -- the two letters are two bytes
  have hslice : sliceFrom
    (.ofList (a :: b :: (inner ++ (List.replicate zeros '0' ++ (toString n).toList)))) 2 =
      some (.ofList (inner ++ (List.replicate zeros '0' ++ (toString n).toList))) := by
    rw [sliceFrom, String.toList_ofList, sliceFrom.go, hsa, if_pos (by decide), sliceFrom.go, hsb,
      if_pos (by decide), sliceFrom.go]
  have hinside := @trimSpace_digits n inner [] zeros hinner (List.forall_mem_nil _)
  rw [List.append_nil] at hinside
  unfold parseCustomRuleASN
  dsimp only
  rw [htrim, if_neg hne, hAS, if_pos rfl, hslice, Option.map_some, hinside, Option.bind_some, hread,
    Option.bind_some, if_neg hzero]

end Spellings

/-- **Every spelling of a number is read as the number.** -/
theorem parseCustomRuleASN_spelled (h : Spells n s) (hpos : 0 < n) (hbound : n < 2 ^ 32) :
    parseCustomRuleASN s = some n := by
  obtain ⟨before, letters, inner, zeros, after, hs, hspaces, hletters⟩ := h
  have hbefore : ∀ c ∈ before, isSpace c = true := fun c hc => hspaces c (by simp [hc])
  have hinner : ∀ c ∈ inner, isSpace c = true := fun c hc => hspaces c (by simp [hc])
  have hafter : ∀ c ∈ after, isSpace c = true := fun c hc => hspaces c (by simp [hc])
  have hstring : s = .ofList
      (before ++ (letters ++ (inner ++ (List.replicate zeros '0' ++ (toString n).toList))) ++
        after) := by
    rw [← hs, String.ofList_toList]
  rcases hletters with ⟨rfl, rfl⟩ | hletters
  · exact parse_digits hbefore hafter hpos hbound hstring
  · obtain ⟨a, b, rfl⟩ : ∃ a b, letters = [a, b] := by
      simp only [List.mem_cons, List.not_mem_nil, or_false] at hletters
      rcases hletters with rfl | rfl | rfl | rfl
      all_goals exact ⟨_, _, rfl⟩
    exact parse_lettered hletters hbefore hinner hafter hpos hbound hstring

end Numbers

section Addresses

variable {s : String} {ip x : IP}

theorem length_parseIPv4Fields {v4 : List UInt8} (h : parseIPv4Fields s = some v4) :
    v4.length = 4 := by
  unfold parseIPv4Fields at h
  split at h
  · next hlength => exact (Data.length_mapM h).trans hlength
  · cases h

/-- The ellipsis stays within the bytes read so far. -/
theorem ellipsis_parseIPv6Loop {fuel : ℕ} {cs : List Char} {acc acc' : V6Acc}
    (h : parseIPv6Loop fuel cs acc = some acc') (hacc : ∀ e ∈ acc.ellipsis, e ≤ acc.bytes.length) :
    ∀ e ∈ acc'.ellipsis, e ≤ acc'.bytes.length := by
  induction fuel generalizing cs acc with
  | zero => cases h
  | succ fuel ih =>
    rw [parseIPv6Loop] at h
    split at h
    · obtain ⟨-, hdone⟩ := Option.ite_none_right_eq_some.1 h
      cases hdone
      exact hacc
    dsimp only at h
    split at h
    · cases h
    have hmore : ∀ bs : List UInt8, ∀ e ∈ acc.ellipsis, e ≤ (acc.bytes ++ bs).length := by
      intro bs e he
      rw [List.length_append]
      exact Nat.le_add_right_of_le (hacc e he)
    split at h
    · split at h
      · cases h
      · obtain ⟨v4, -, rfl⟩ := Option.map_eq_some_iff.1 h
        exact hmore v4
    · split at h
      · cases h
        exact hmore _
      · split at h
        · cases h
        have hhere : ∀ bs : List UInt8, ∀ e ∈ some bs.length, e ≤ bs.length := by
          intro bs e he
          exact le_of_eq (Option.some.inj he).symm
        split at h
        · cases h
          exact hhere _
        · exact ih h (hhere _)
      · exact ih h (hmore _)
      · cases h

theorem length_expand {acc : V6Acc} (h : acc.expand = some ip)
    (hellipsis : ∀ e ∈ acc.ellipsis, e ≤ acc.bytes.length) : ip.length = 16 := by
  unfold V6Acc.expand at h
  split at h
  · split at h
    · next hlength =>
      cases h
      exact hlength
    · cases h
  · next e he =>
    split at h
    · cases h
    · next hlength =>
      cases h
      have hle := hellipsis e he
      simp only [List.length_append, List.length_take, List.length_replicate, List.length_drop]
      omega

/-- `net.ParseIP` gives sixteen bytes. -/
theorem length_parseIP (h : parseIP s ≠ []) : (parseIP s).length = 16 := by
  unfold parseIP at h ⊢
  split at h
  · cases hfields : parseIPv4Fields s with
    | none =>
      rw [hfields] at h
      exact absurd rfl h
    | some v4 =>
      rw [Option.map_some, Option.getD_some, List.length_append, length_parseIPv4Fields hfields]
      rfl
  · split at h
    · exact absurd rfl h
    next hzone =>
    rw [if_neg hzone]
    cases hparse : parseIPv6 s with
    | none =>
      rw [hparse] at h
      exact absurd rfl h
    | some ip =>
      rw [Option.getD_some]
      unfold parseIPv6 at hparse
      split at hparse
      · obtain rfl := Option.some.inj hparse
        rfl
      · obtain ⟨acc, hacc, hexpand⟩ := Option.bind_eq_some_iff.1 hparse
        refine length_expand hexpand (ellipsis_parseIPv6Loop hacc fun e he => ?_)
        exact le_of_eq (Option.some.inj he).symm
      · obtain ⟨acc, hacc, hexpand⟩ := Option.bind_eq_some_iff.1 hparse
        exact length_expand hexpand (ellipsis_parseIPv6Loop hacc fun e he => by cases he)
  · exact absurd rfl h

/-- The four bytes of an IPv4 address, in both of its forms. -/
def canonical (ip : IP) : IP := ip.to4.getD ip

theorem canonical_of_16 (h : ip.length = 16) :
    canonical ip = if ip.take 12 = v4InV6Prefix then ip.drop 12 else ip := by
  unfold canonical IP.to4
  rw [if_neg (by omega)]
  by_cases hpre : ip.take 12 = v4InV6Prefix
  · rw [if_pos ⟨h, hpre⟩, if_pos hpre, Option.getD_some]
  · rw [if_neg fun hboth => hpre hboth.2, if_neg hpre, Option.getD_none]

theorem canonical_of_ne_16 (h : ip.length ≠ 16) : canonical ip = ip := by
  unfold canonical IP.to4
  by_cases h4 : ip.length = 4
  · rw [if_pos h4, Option.getD_some]
  · rw [if_neg h4, if_neg fun hboth => h hboth.1, Option.getD_none]

/-- **Equal addresses have one canonical form**, mapped or not. -/
theorem equal_iff (hx : x.length = 16) : ip.equal x = true ↔ canonical ip = canonical x := by
  have hdrop : ∀ y : IP, y.length = 16 → (y.drop 12).length = 4 := fun y hy => by
    rw [List.length_drop, hy]
  have hx4 := hdrop x hx
  unfold IP.equal
  rw [canonical_of_16 hx]
  by_cases h16 : ip.length = 16
  · have hip4 := hdrop ip h16
    rw [if_pos (h16.trans hx.symm), canonical_of_16 h16, beq_iff_eq]
    refine ⟨fun heq => by rw [heq], fun heq => ?_⟩
    by_cases hpre : ip.take 12 = v4InV6Prefix <;> by_cases hpre' : x.take 12 = v4InV6Prefix
    · rw [if_pos hpre, if_pos hpre'] at heq
      rw [← List.take_append_drop 12 ip, ← List.take_append_drop 12 x, hpre, hpre', heq]
    · rw [if_pos hpre, if_neg hpre'] at heq
      rw [heq] at hip4
      omega
    · rw [if_neg hpre, if_pos hpre'] at heq
      rw [← heq] at hx4
      omega
    · rwa [if_neg hpre, if_neg hpre'] at heq
  rw [if_neg fun hlength => h16 (hlength.trans hx), canonical_of_ne_16 h16]
  by_cases h4 : ip.length = 4
  · rw [if_pos ⟨h4, hx⟩, Bool.and_eq_true, beq_iff_eq, beq_iff_eq]
    by_cases hpre : x.take 12 = v4InV6Prefix
    · rw [if_pos hpre]
      exact and_iff_right hpre
    · rw [if_neg hpre]
      refine iff_of_false (fun hboth => hpre hboth.1) ?_
      rintro rfl
      exact h16 hx
  · rw [if_neg fun hboth => h4 hboth.1, if_neg fun hboth => h16 hboth.1]
    refine iff_of_false Bool.false_ne_true fun heq => ?_
    split at heq
    · rw [← heq] at hx4
      exact h4 hx4
    · rw [heq] at h16
      exact h16 hx

end Addresses

/-- `CustomRuleSyntax`, as it is stored. -/
def syntaxText : CustomRuleSyntax → String
  | .fqdn => "fqdn"
  | .ip4Addr => "ip4_addr"
  | .ip6Addr => "ip6_addr"
  | .fqdnWildcard => "fqdn_wildcard"
  | .asn => "asn"
  | .unset => ""

/-- The hash of a custom rule, as the proxy reads it. -/
def ruleHash (rule : CustomRule) : Hash :=
  [("action", rule.action.text), ("value", rule.value), ("syntax", syntaxText rule.ruleSyntax)]

/-- The rules that the API stores: by creating them, by an edit of one of them, or from an
import. -/
inductive StoredRule (tags : ValidatorTags) : CustomRule → Prop
  | created {newID settings accountRules action values result rule} :
      Rules.createCustomRulesBulk tags newID settings accountRules action values = .ok result →
        rule ∈ result.created →
        StoredRule tags rule
  | edited {env : ServiceEnv} {settings existing rule patch} : env.tags = tags →
      StoredRule tags existing →
      patchProxyFields env settings existing patch = .ok rule →
      StoredRule tags (patchLabels rule patch)
  | imported {decode newID profileName rules rule} :
      rule ∈ (validateAndMapRules tags decode newID profileName rules).1 → StoredRule tags rule

/-- The addresses that the value of a rule names. -/
def Names (f : IPFilter) (rule : CustomRule) (ip : IP) : Prop :=
  match rule.ruleSyntax with
  | .asn =>
    ip ≠ [] ∧ ∃ asnOf n, f.asnLookup = some asnOf ∧ asnOf ip = .ok n ∧
      parseCustomRuleASN rule.value = some n
  | .ip4Addr | .ip6Addr => canonical ip = canonical (parseIP rule.value)
  | .fqdn | .fqdnWildcard | .unset => False

section Phase

variable {tags : ValidatorTags} {rule existing : CustomRule} {f : IPFilter} {ips : List IP}
  {ip : IP}

/-- The last step of an edit, behind the action. -/
theorem patchValue_accepted {settings : Profiles.ProfileSettings} {updated : CustomRule}
    {value : Option String} (hupdated : newCustomRuleSyntax tags updated.value =
      some updated.ruleSyntax)
    (h : (match value with
      | none => pure updated
      | some original =>
        let normalized := normalizeRuleValue settings original
        if normalized = "" then throw .invalidCustomRuleSyntax
        else match newCustomRuleSyntax tags normalized with
          | none => throw .invalidCustomRuleSyntax
          | some ruleSyntax =>
            if normalized = updated.value then pure updated
            else if settings.customRules.any fun r => r.id ≠ existing.id ∧ r.value = normalized then
              throw .customRuleAlreadyExists
            else pure { updated with value := normalized, ruleSyntax } : Except CustomRuleError
              CustomRule) = .ok rule) :
    newCustomRuleSyntax tags rule.value = some rule.ruleSyntax := by
  split at h
  · cases h
    exact hupdated
  · next original =>
    dsimp only at h
    generalize normalizeRuleValue settings original = normalized at h
    split at h
    · cases h
    cases hsyn : newCustomRuleSyntax tags normalized with
    | none =>
      rw [hsyn] at h
      cases h
    | some ruleSyntax =>
      rw [hsyn] at h
      dsimp only at h
      split at h
      · cases h
        exact hupdated
      split at h
      · cases h
      · cases h
        exact hsyn

theorem patchProxyFields_accepted {env : ServiceEnv} {settings : Profiles.ProfileSettings}
    {patch : CustomRulePatch} (hexisting : newCustomRuleSyntax env.tags existing.value =
      some existing.ruleSyntax)
    (h : patchProxyFields env settings existing patch = .ok rule) :
    newCustomRuleSyntax env.tags rule.value = some rule.ruleSyntax := by
  unfold patchProxyFields at h
  dsimp only at h
  split at h
  · exact patchValue_accepted hexisting h
  · split at h
    · cases h
    · next action _ =>
      have hlabels : newCustomRuleSyntax env.tags
        ({ existing with action := action } : CustomRule).value =
          some existing.ruleSyntax := hexisting
      exact patchValue_accepted hlabels h

/-- The value of a rule that is stored has the syntax that is stored with it. -/
theorem StoredRule.accepted (h : StoredRule tags rule) :
    newCustomRuleSyntax tags rule.value = some rule.ruleSyntax := by
  induction h with
  | created hbulk hrule =>
    obtain ⟨-, -, hsyn⟩ := created_of_value hbulk hrule
    exact hsyn
  | edited htags _ hpatch ih =>
    subst htags
    have hvalue := patchProxyFields_accepted ih hpatch
    exact hvalue
  | imported hrule =>
    rw [validateAndMapRules_fst] at hrule
    obtain ⟨r, -, -, -, hsyn⟩ := valid_rules.accepted _ hrule
    exact hsyn

theorem syntax_asn (h : newCustomRuleSyntax tags rule.value = some .asn) :
    ∃ n, parseCustomRuleASN rule.value = some n := by
  have hasn : asnValidation rule.value = true := by
    unfold newCustomRuleSyntax at h
    split_ifs at h with hfqdn h4 h6 hwild hasn
    · cases h
    · cases h
    · cases h
    · cases h
    · exact hasn
  rw [(asn_readings rule.value).1] at hasn
  exact Option.isSome_iff_exists.1 hasn

theorem syntax_address (hip : AddressTags tags)
    (h : newCustomRuleSyntax tags rule.value = some .ip4Addr ∨
      newCustomRuleSyntax tags rule.value = some .ip6Addr) :
    parseIP rule.value ≠ [] := by
  refine hip rule.value ?_
  unfold newCustomRuleSyntax at h
  split_ifs at h with hfqdn h4 h6 hwild hasn
  · simp at h
  · exact .inl h4
  · exact .inr h6
  · simp at h
  · simp at h
  · simp at h

theorem mapGet_ruleHash (rule : CustomRule) : mapGet (ruleHash rule) "action" = rule.action.text ∧
    mapGet (ruleHash rule) "value" = rule.value ∧ mapGet (ruleHash rule) "syntax" =
      syntaxText rule.ruleSyntax :=
  ⟨rfl, rfl, rfl⟩

/-- An action where a condition holds. -/
theorem any_where {p : Bool × Bool → Bool} (hp : p (false, false) = false) {C : IP → Prop}
    {g : IP → Bool × Bool} {m : Bool × Bool} (hyes : ∀ ip, C ip → g ip = m)
    (hno : ∀ ip, ¬ C ip → g ip = (false, false)) :
    (ips.map g).any p = true ↔ p m = true ∧ ∃ ip ∈ ips, C ip := by
  rw [List.any_map, List.any_eq_true]
  constructor
  · rintro ⟨ip, hip, hmatch⟩
    rw [Function.comp_apply] at hmatch
    by_cases hC : C ip
    · rw [hyes ip hC] at hmatch
      exact ⟨hmatch, ip, hip, hC⟩
    · rw [hno ip hC, hp] at hmatch
      cases hmatch
  · rintro ⟨hm, ip, hip, hC⟩
    exact ⟨ip, hip, by rw [Function.comp_apply, hyes ip hC, hm]⟩

theorem any_address {p : Bool × Bool → Bool} (hp : p (false, false) = false)
    (hparsed : parseIP rule.value ≠ []) :
    (ips.map fun ip => IPFilter.matchIPRule ip (ruleHash rule)).any p = true ↔
      p (IPFilter.actionMatch rule.action.text) = true ∧
        ∃ ip ∈ ips, canonical ip = canonical (parseIP rule.value) := by
  obtain ⟨haction, hvalue, -⟩ := mapGet_ruleHash rule
  have hlength := length_parseIP hparsed
  have hnil : canonical [] ≠ canonical (parseIP rule.value) := by
    intro heq
    exact absurd ((equal_iff hlength).2 heq)
      (by rw [IP.equal, if_neg (by rw [hlength]; decide), if_neg (by simp),
        if_neg (by simp)]; decide)
  refine any_where hp (fun ip hsame => ?_) fun ip hother => ?_
  · have hne : ip ≠ [] := by
      rintro rfl
      exact hnil hsame
    unfold IPFilter.matchIPRule
    rw [hvalue, haction, if_neg hne, (equal_iff hlength).2 hsame, if_neg (by simp)]
  · unfold IPFilter.matchIPRule
    rw [hvalue, Bool.eq_false_iff.2 fun h => hother ((equal_iff hlength).1 h)]
    simp

theorem any_asn {p : Bool × Bool → Bool} (hp : p (false, false) = false)
    {asnOf : IP → Except StageError ℕ} {n : ℕ} (hn : 0 < n) (action : String) :
    (ips.map fun ip => IPFilter.matchASNRule asnOf ip n action).any p = true ↔
      p (IPFilter.actionMatch action) = true ∧ ∃ ip ∈ ips, ip ≠ [] ∧ asnOf ip = .ok n := by
  refine any_where hp ?_ ?_
  · rintro ip ⟨hne, hasn⟩
    unfold IPFilter.matchASNRule
    rw [if_neg hne, hasn]
    exact if_neg fun h => h.elim (Nat.pos_iff_ne_zero.1 hn) fun h => h rfl
  · intro ip hother
    unfold IPFilter.matchASNRule
    by_cases hne : ip = []
    · exact if_pos hne
    rw [if_neg hne]
    cases hasn : asnOf ip with
    | error e => rfl
    | ok asn => exact if_pos (.inr fun heq => hother ⟨hne, heq ▸ hasn⟩)

/-- **What one rule does**: its action, at the addresses that it names. -/
theorem any_ruleMatches (hip : AddressTags tags)
    (h : newCustomRuleSyntax tags rule.value = some rule.ruleSyntax) {p : Bool × Bool → Bool}
    (hp : p (false, false) = false) :
    (IPFilter.ruleMatches f ips (ruleHash rule)).any p = true ↔
      p (IPFilter.actionMatch rule.action.text) = true ∧ ∃ ip ∈ ips, Names f rule ip := by
  obtain ⟨haction, hvalue, hsyntax⟩ := mapGet_ruleHash rule
  unfold IPFilter.ruleMatches Names
  dsimp only
  rw [haction, hvalue, hsyntax]
  -- the other rules name no address
  have hnothing : ¬ (p (IPFilter.actionMatch rule.action.text) = true ∧ ∃ ip ∈ ips, False) := by
    rintro ⟨-, ip, -, h⟩
    exact h
  cases hsyn : rule.ruleSyntax with
  | ip4Addr =>
    rw [hsyn] at h
    rw [if_neg (by decide), if_pos (by decide)]
    exact any_address hp (syntax_address hip (.inl h))
  | ip6Addr =>
    rw [hsyn] at h
    rw [if_neg (by decide), if_pos (by decide)]
    exact any_address hp (syntax_address hip (.inr h))
  | asn =>
    rw [hsyn] at h
    obtain ⟨n, hn⟩ := syntax_asn h
    have hpos := ((asn_readings rule.value).2.2 n hn).1
    rw [if_neg (by decide), if_neg (by decide), if_pos (by decide), hn]
    cases hlookup : f.asnLookup with
    | none =>
      refine iff_of_false Bool.false_ne_true ?_
      rintro ⟨-, ip, -, -, asnOf, m, hsome, -⟩
      cases hsome
    | some asnOf =>
      refine (any_asn hp hpos _).trans
        (and_congr_right fun _ => exists_congr fun ip => and_congr_right fun _ => ?_)
      refine and_congr_right fun _ => ⟨fun hasn => ⟨asnOf, n, rfl, hasn, rfl⟩, ?_⟩
      rintro ⟨asnOf', m, hsame, hasn, hm⟩
      rw [Option.some.inj hsame, Option.some.inj hm]
      exact hasn
  | fqdn =>
    rw [if_neg (by decide), if_neg (by decide), if_neg (by decide)]
    exact iff_of_false Bool.false_ne_true hnothing
  | fqdnWildcard =>
    rw [if_neg (by decide), if_neg (by decide), if_neg (by decide)]
    exact iff_of_false Bool.false_ne_true hnothing
  | unset =>
    have hempty : syntaxText .unset = "" := rfl
    rw [if_pos hempty]
    exact iff_of_false Bool.false_ne_true hnothing

/-- Some rule with the action names an address of the answer. -/
def RuleHits (f : IPFilter) (rules : List CustomRule) (action : CustomRuleAction) (ips : List IP) :
    Prop :=
  ∃ rule ∈ rules, rule.action = action ∧ ∃ ip ∈ ips, Names f rule ip

theorem any_rules (hip : AddressTags tags) {rules : List CustomRule}
    (h : ∀ rule ∈ rules, StoredRule tags rule) {p : Bool × Bool → Bool}
    (hp : p (false, false) = false) {action : CustomRuleAction}
    (haction : ∀ a : CustomRuleAction, p (IPFilter.actionMatch a.text) = true ↔ a = action) :
    ((rules.map ruleHash).flatMap (IPFilter.ruleMatches f ips)).any p = true ↔
    RuleHits f rules action ips := by
  rw [List.any_flatMap, List.any_map, List.any_eq_true]
  refine exists_congr fun rule => and_congr_right fun hrule => ?_
  exact (any_ruleMatches hip (h rule hrule).accepted hp).trans
    (and_congr_left fun _ => haction rule.action)

/-- The phase for the answer, by the rules of the profile. -/
theorem filterCustomRules_hits (hip : AddressTags tags) {rules : List CustomRule}
    (h : ∀ rule ∈ rules, StoredRule tags rule) {reqCtx : RequestContext} {dctx : DNSContext}
    {res : Msg} (hrules : reqCtx.customRules = rules.map ruleHash) (hres : dctx.res = some res) :
    ∃ r, IPFilter.filterCustomRules f reqCtx dctx = .ok r ∧
      (r.decision = .block ↔ RuleHits f rules .block (extractIPsFromAnswer res.answer)) ∧
      (r.decision = .allow ↔ ¬ RuleHits f rules .block (extractIPsFromAnswer res.answer) ∧
        RuleHits f rules .allow (extractIPsFromAnswer res.answer)) := by
  have hblock :=
    @any_rules tags f (extractIPsFromAnswer res.answer) hip rules h (·.2) rfl .block fun a => by
    cases a <;> decide
  have hallow :=
    @any_rules tags f (extractIPsFromAnswer res.answer) hip rules h (·.1) rfl .allow fun a => by
    cases a <;> decide
  unfold IPFilter.filterCustomRules
  rw [hres]
  dsimp only
  rw [hrules]
  split
  · next hany =>
    refine ⟨_, rfl, iff_of_true rfl (hblock.1 hany),
      iff_of_false (by decide) fun hboth => hboth.1 (hblock.1 hany)⟩
  · next hnone =>
    have hno : ¬ RuleHits f rules .block (extractIPsFromAnswer res.answer) := fun hhits =>
      hnone (hblock.2 hhits)
    split
    · next hany =>
      exact ⟨_, rfl, iff_of_false (by decide) hno, iff_of_true rfl ⟨hno, hallow.1 hany⟩⟩
    · next hneither =>
      exact ⟨_, rfl, iff_of_false (by decide) hno, iff_of_false (by decide) fun hboth => hneither
        (hallow.2 hboth.2)⟩

/-- **Rules for addresses and networks mean the same to the API and to the proxy.** An ASN is read
alike in every spelling; a stored rule names the addresses of its ASN, or the address that is its
value in either form; and the phase for the answer goes by the addresses that the rules name. -/
theorem address_rules (hip : AddressTags tags) :
    (∀ s, asnValidation s = (parseCustomRuleASN s).isSome ∧
      normalizeASN s = (parseCustomRuleASN s).map toString ∧
      ∀ n ∈ parseCustomRuleASN s, 0 < n ∧ n < 2 ^ 32) ∧
    (∀ n s, Spells n s → 0 < n → n < 2 ^ 32 → parseCustomRuleASN s = some n) ∧
    (∀ rule, StoredRule tags rule →
      (rule.ruleSyntax = .asn → ∃ n, parseCustomRuleASN rule.value = some n ∧ ∀ f ip,
        Names f rule ip ↔ ip ≠ [] ∧ ∃ asnOf, f.asnLookup = some asnOf ∧ asnOf ip = .ok n) ∧
      (rule.ruleSyntax = .ip4Addr ∨ rule.ruleSyntax = .ip6Addr → parseIP rule.value ≠ [] ∧ ∀ f ip,
        Names f rule ip ↔ canonical ip = canonical (parseIP rule.value))) ∧
    ∀ (f : IPFilter) (reqCtx : RequestContext) (dctx : DNSContext) (res : Msg)
      (rules : List CustomRule),
      (∀ rule ∈ rules, StoredRule tags rule) → reqCtx.customRules = rules.map ruleHash →
        dctx.res = some res →
        ∃ r, IPFilter.filterCustomRules f reqCtx dctx = .ok r ∧
          (r.decision = .block ↔ RuleHits f rules .block (extractIPsFromAnswer res.answer)) ∧
          (r.decision = .allow ↔ ¬ RuleHits f rules .block (extractIPsFromAnswer res.answer) ∧
            RuleHits f rules .allow (extractIPsFromAnswer res.answer)) := by
  refine ⟨asn_readings, fun n s => parseCustomRuleASN_spelled,
    fun rule hrule => ⟨fun hsyn => ?_, fun hsyn => ?_⟩, ?_⟩
  -- an ASN that was accepted is read as one number
  · obtain ⟨n, hn⟩ := syntax_asn (hsyn ▸ hrule.accepted)
    refine ⟨n, hn, fun f ip => ?_⟩
    unfold Names
    rw [hsyn]
    refine and_congr_right fun _ => exists_congr fun asnOf =>
      ⟨?_, fun ⟨hlookup, hasn⟩ => ⟨n, hlookup, hasn, hn⟩⟩
    rintro ⟨m, hlookup, hasn, hm⟩
    rw [Option.some.inj (hn.symm.trans hm)]
    exact ⟨hlookup, hasn⟩
  -- an address that was accepted is read in one way
  · have haccepted := hrule.accepted
    rcases hsyn with hsyn | hsyn
    all_goals
      rw [hsyn] at haccepted
      refine ⟨syntax_address hip (by simp [haccepted]), fun f ip => ?_⟩
      unfold Names
      rw [hsyn]
  · exact fun f reqCtx dctx res rules hstored hrules hres =>
      filterCustomRules_hits hip hstored hrules hres

/-- A network, and an address that was typed in the mapped form. -/
def asnRule : CustomRule := { id := 7, action := .block, value := "15169", ruleSyntax := .asn }

def mappedRule : CustomRule :=
  { id := 7, action := .allow, value := "::ffff:192.0.2.1", ruleSyntax := .ip4Addr }

/-- All addresses are in one network. -/
def oneNetwork : IPFilter where
  cache := ⟨fun _ _ => .ok false, fun _ _ => .ok false⟩
  servicesCatalog := none
  asnLookup := some fun _ => .ok 64500
  rebindingConfig := none
  cnameUncloakingEnabled := none
  mapOrder := ⟨id, List.Perm.refl⟩

def addressReply : Msg :=
  { (DNSContext.req ⟨0, ⟨"a.example.", .a⟩, none⟩).setReply with answer := [.a [192, 0, 2, 1]] }

/-- The two rules, and an answer with the address in its short form. -/
theorem address_rules_mapped :
    parseCustomRuleASN " aS 00015169 " = some 15169 ∧
      ∃ r, IPFilter.filterCustomRules oneNetwork
        { newRequestContext "p" .empty with customRules := [asnRule, mappedRule].map ruleHash }
          ⟨0, ⟨"a.example.", .a⟩, some addressReply⟩ = .ok r ∧
        (r.decision = .block ↔ RuleHits oneNetwork [asnRule, mappedRule] .block
          (extractIPsFromAnswer addressReply.answer)) := by
  have hbulk : Rules.createCustomRulesBulk exampleTags (fun _ => 7) newSettings 0 "block"
    ["AS 015169"] =
      .ok ⟨.block, 1, [asnRule], []⟩ := toOption_eq_some.1 (by decide +kernel)
  have hbulk' : Rules.createCustomRulesBulk exampleTags (fun _ => 7) newSettings 0 "allow"
    ["::ffff:192.0.2.1"] =
      .ok ⟨.allow, 1, [mappedRule], []⟩ := toOption_eq_some.1 (by decide +kernel)
  have hstored : ∀ rule ∈ [asnRule, mappedRule], StoredRule exampleTags rule := by
    refine List.forall_mem_cons.2 ⟨.created hbulk (List.mem_singleton_self _),
      List.forall_mem_cons.2 ⟨?_, List.forall_mem_nil _⟩⟩
    exact .created hbulk' (List.mem_singleton_self _)
  have hspells : Spells 15169 " aS 00015169 " :=
    ⟨[' '], ['a', 'S'], [' '], 3,
      [' '], by decide +kernel, by simp [isSpace], .inr (by decide +kernel)⟩
  obtain ⟨-, hread, -, hphase⟩ := address_rules exampleTags_address
  obtain ⟨r, hr, hblock, -⟩ := hphase oneNetwork
    { newRequestContext "p" .empty with customRules := [asnRule, mappedRule].map ruleHash }
    ⟨0, ⟨"a.example.", .a⟩, some addressReply⟩ addressReply [asnRule, mappedRule] hstored rfl rfl
  exact ⟨hread 15169 _ hspells (by decide) (by decide), r, hr, hblock⟩

end Phase

end ModDNS.Proxy
