import ModDNS.Go.Addr
import ModDNS.Profiles.Operations
import ModDNS.Rules.Stored

/-!
# Requests for many rules

What `normalizeRuleValue` gives begins with no space and no dot, is the spelling of its number, if
it is an ASN, and is not plain (`normalForm`): so it is its own normal form, if it also ends with no
space and no dot. The loop of `CreateCustomRulesBulk` lists each value of the request once
(`listed_loop`); it looks for an earlier value with the same normal form before it looks at the
syntax.
-/

namespace ModDNS.Rules

open Go Profiles

section NormalForm

variable {tags : ValidatorTags} {settings : ProfileSettings} {v : String}
  {ruleSyntax : CustomRuleSyntax}

/-- The plain values that are stored with their subdomains. -/
def Plain (settings : ProfileSettings) (normalized : String) : Prop :=
  settings.privacy.customRulesSubdomainsRule ≠ customRulesSubdomainsExact ∧
    !contains normalized "*" ∧
    !contains normalized "/" ∧ parseIP normalized = [] ∧ normalizeASN normalized = none

instance (settings : ProfileSettings) (normalized : String) :
    Decidable (Plain settings normalized) :=
  inferInstanceAs (Decidable (_ ∧ _))

/-- A normal form begins with no space and no dot, is the spelling of its number, if it is an ASN,
and is not plain. -/
structure NormalForm (settings : ProfileSettings) (v : String) : Prop where
  head : ∀ c ∈ v.toList.head?, isSpace c = false ∧ c ≠ '.'
  asn : (normalizeASN v).getD v = v
  notPlain : ¬ Plain settings v

theorem normalizeRuleValue_self (h : NormalForm settings v) (hne : v ≠ "")
    (hlast : ∀ c ∈ v.toList.getLast?, isSpace c = false ∧ c ≠ '.') :
    normalizeRuleValue settings v = v := by
  have htrim : trimSpace v = v := trimSpace_ends (fun c hc => (h.head c hc).1) fun c hc =>
    (hlast c hc).1
  have hcut : trimSuffix v "." = v := by
    refine trimSuffix_of_not ?_
    rintro ⟨cs, hcs⟩
    have hdot : v.toList.getLast? = some '.' := by
      rw [← hcs]
      exact List.getLast?_concat
    exact (hlast _ hdot).2 rfl
  have hdot : ¬ hasPrefix v "." = true := by
    intro hdot
    obtain ⟨cs, hcs⟩ := hasPrefix_dot.1 hdot
    exact (h.head '.' (by rw [hcs]; rfl)).2 rfl
  unfold normalizeRuleValue
  simp only
  rw [htrim, if_neg hne, hcut, if_neg hdot, h.asn]
  exact if_neg h.notPlain

theorem star_normalForm (w : String) : NormalForm settings ("*" ++ w) := by
  have hlist : ("*" ++ w).toList = '*' :: w.toList := by rw [String.toList_append]; rfl
  refine ⟨fun c hc => ?_, ?_, ?_⟩
  · rw [hlist] at hc
    obtain rfl : '*' = c := Option.some.inj hc
    exact ⟨by decide, by decide⟩
  · rw [normalizeASN_star hlist, Option.getD_none]
  · rintro ⟨-, hstar, -⟩
    rw [contains_star.2 (by rw [hlist]; exact List.mem_cons_self ..)] at hstar
    cases hstar

/-- **What `normalizeRuleValue` gives is a normal form**, unless it is empty. -/
theorem normalForm {original : String} (h : normalizeRuleValue settings original ≠ "") :
    NormalForm settings (normalizeRuleValue settings original) := by
  unfold normalizeRuleValue at h ⊢
  simp only at h ⊢
  have hempty : trimSpace original ≠ "" := fun hempty => h (if_pos hempty)
  rw [if_neg hempty]
  clear h
  have hhead : ∀ c ∈ (trimSuffix (trimSpace original) ".").toList.head?, isSpace c = false := by
    intro c hc
    obtain ⟨cs, hcs⟩ := List.head?_eq_some_iff.1 hc
    rcases trimSuffix_dot (trimSpace original) with hcut | ⟨hcut, -⟩
    · exact head_trimSpace (by rw [hcut, hcs]; rfl)
    · exact head_trimSpace (by rw [← hcut, hcs]; rfl)
  generalize trimSuffix (trimSpace original) "." = u at hhead ⊢
  generalize hn : (normalizeASN (if hasPrefix u "." then "*" ++ u else u)).getD
    (if hasPrefix u "." then "*" ++ u else u) = n
  change NormalForm settings (if Plain settings n then "*." ++ n else n)
  rw [← hn]
  clear hn
  -- a leading dot gives a wildcard, an ASN stays, a plain name is widened
  by_cases hdot : hasPrefix u "." = true
  · have hstar := @star_normalForm settings u
    rw [if_pos hdot, hstar.asn, if_neg hstar.notPlain]
    exact hstar
  rw [if_neg hdot]
  cases hasn : normalizeASN u with
  | some asn =>
    obtain ⟨hdigits, hself⟩ := normalizeASN_some hasn
    have hplain : ¬ Plain settings asn := fun hplain => by
      have hnone := hplain.2.2.2.2
      rw [hself] at hnone
      exact absurd hnone (Option.some_ne_none asn)
    rw [Option.getD_some, if_neg hplain]
    refine ⟨fun c hc => ?_, by rw [hself, Option.getD_some], hplain⟩
    have hdigit := hdigits c (List.mem_of_mem_head? hc)
    refine ⟨isDigit_not_space hdigit, ?_⟩
    rintro rfl
    cases hdigit
  | none =>
    rw [Option.getD_none]
    by_cases hplain : Plain settings u
    · have hstar := @star_normalForm settings ("." ++ u)
      have hassoc : "*" ++ ("." ++ u) = "*." ++ u := by rw [← String.append_assoc]; rfl
      rw [if_pos hplain, ← hassoc]
      exact hstar
    · rw [if_neg hplain]
      refine ⟨fun c hc => ⟨hhead c hc, ?_⟩, by rw [hasn, Option.getD_none], hplain⟩
      rintro rfl
      exact head?_ne_dot hdot hc

theorem asnValidation_iff : asnValidation v = true ↔ ∃ asn, normalizeASN v = some asn := by
  unfold asnValidation normalizeASN
  cases (asnDigits v).bind (parseUint 32) with
  | none => simp
  | some parsed =>
    by_cases hzero : parsed = 0
    · simp [hzero]
    · simp [hzero, Nat.pos_iff_ne_zero]

/-- The tags for addresses accept what `net.ParseIP` parses. -/
def AddressTags (tags : ValidatorTags) : Prop :=
  ∀ s, tags.ip4Addr s = true ∨ tags.ip6Addr s = true → parseIP s ≠ []

theorem nameChars_no_space {c : Char} (h : c ∈ nameChars) : isSpace c = false := by
  have hall : nameChars.all (fun c => !isSpace c) = true := by decide
  simpa using List.all_eq_true.1 hall c h

theorem ipChar_no_space {c : Char} (h : IPChar c) : isSpace c = false := by
  have hletter : ∀ a b : Char, 65 ≤ a.toNat → b.toNat ≤ 102 → a ≤ c → c ≤ b →
      isSpace c = false := by
    intro a b ha hb hac hcb
    have hlow : a.toNat ≤ c.toNat := UInt32.le_iff_toNat_le.1 hac
    have hhigh : c.toNat ≤ b.toNat := UInt32.le_iff_toNat_le.1 hcb
    simp only [isSpace, Bool.or_eq_false_iff, Bool.and_eq_false_iff, decide_eq_false_iff_not,
      beq_eq_false_iff_ne, ne_eq]
    omega
  rcases h with h | rfl | rfl
  · unfold hexDigit at h
    split at h
    · next hdigit => exact isDigit_not_space hdigit
    split at h
    · next hlower => exact hletter 'a' 'f' (by decide) (by decide) hlower.1 hlower.2
    split at h
    · next hupper => exact hletter 'A' 'F' (by decide) (by decide) hupper.1 hupper.2
    · cases h
  · decide
  · decide

theorem Wildcard.no_space {x : List Char} (h : Wildcard x) : ∀ c ∈ x, isSpace c = false := by
  have hdotted : ∀ ls : List (List Char), (∀ l ∈ ls, IsLabel l) →
      ∀ c ∈ dotted ls, isSpace c = false := by
    intro ls hls c hc
    rcases mem_dotted hls hc with rfl | hc
    · decide
    · exact nameChars_no_space hc
  intro c hc
  cases h with
  | fqdn hp hs hls =>
    rcases List.mem_append.1 hc with hc | hc
    · exact nameChars_no_space (hp c hc)
    rcases List.mem_cons.1 hc with rfl | hc
    · decide
    rcases List.mem_append.1 hc with hc | hc
    · exact nameChars_no_space (hs c hc)
    · exact hdotted _ hls c hc
  | suffix hl hls =>
    rcases List.mem_append.1 hc with hc | hc
    · rcases List.mem_append.1 hc with hc | hc
      · exact nameChars_no_space (hl.2 c hc)
      · exact hdotted _ hls c hc
    · simp only [List.mem_cons, List.not_mem_nil, or_false] at hc
      rcases hc with rfl | rfl <;> decide
  | contains ha hb hm =>
    simp only [List.cons_append, List.mem_cons, List.mem_append, List.not_mem_nil, or_false] at hc
    rcases hc with rfl | rfl | (hc | rfl) | rfl
    · decide
    · exact nameChars_no_space (alphanumeric_nameChars ha)
    · rcases List.mem_cons.1 (hm c hc) with rfl | hc
      · decide
      · exact nameChars_no_space hc
    · exact nameChars_no_space (alphanumeric_nameChars hb)
    · decide

/-- **A value that has a syntax has no spaces**, in its normal form. -/
theorem stored_no_space (hfqdn : FqdnTag tags.fqdn) (hip : AddressTags tags)
    (hnormal : NormalForm settings v) (hsyn : newCustomRuleSyntax tags v = some ruleSyntax) :
    ∀ c ∈ v.toList, isSpace c = false := by
  intro c hc
  unfold newCustomRuleSyntax at hsyn
  split at hsyn
  · next hname =>
    rcases List.mem_cons.1 ((fqdn_chars hfqdn hname).1 c hc) with rfl | h
    · decide
    · exact nameChars_no_space h
  split at hsyn
  · next h4 => exact ipChar_no_space (parseIP_chars (hip v (.inl h4)) c hc)
  split at hsyn
  · next h6 => exact ipChar_no_space (parseIP_chars (hip v (.inr h6)) c hc)
  split at hsyn
  · next hwild =>
    have hdot : v.toList.head? ≠ some '.' := fun h => (hnormal.head '.' h).2 rfl
    exact (wildcard_of_validation hdot hwild).1.no_space c hc
  split at hsyn
  · next hasn =>
    obtain ⟨asn, hasn⟩ := asnValidation_iff.1 hasn
    have hself := hnormal.asn
    rw [hasn, Option.getD_some] at hself
    subst hself
    exact isDigit_not_space ((normalizeASN_some hasn).1 c hc)
  · cases hsyn

end NormalForm

section Listing

variable {tags : ValidatorTags} {newID : ℕ → RuleID} {settings : ProfileSettings}
  {action : CustomRuleAction} {before values : List String} {v : String} {st : BulkState}

/-- How a value of the request is listed: as a rule that is created, or with the reason why it is
skipped. -/
structure Entry where
  value : String
  reason : Option BulkCustomRuleSkipReason

/-- The value is the normal form of none of the values. -/
def NewIn (settings : ProfileSettings) (normalized : String) (before : List String) : Prop :=
  ∀ u ∈ before, normalizeRuleValue settings u ≠ normalized

/-- The entry of `v`, behind the values `before` it. -/
structure Accounts (tags : ValidatorTags) (settings : ProfileSettings) (before : List String)
    (v : String) (e : Entry) : Prop where
  value : e.value = if normalizeRuleValue settings v = "" then v else normalizeRuleValue settings v
  created : e.reason = none ↔
    normalizeRuleValue settings v ≠ "" ∧
      (newCustomRuleSyntax tags (normalizeRuleValue settings v)).isSome = true ∧
      normalizeRuleValue settings v ∉ settings.customRules.map (·.value) ∧
      NewIn settings (normalizeRuleValue settings v) before
  invalidSyntax : e.reason = some .invalidSyntax ↔
    normalizeRuleValue settings v = "" ∨
      newCustomRuleSyntax tags (normalizeRuleValue settings v) = none ∧
        NewIn settings (normalizeRuleValue settings v) before
  duplicatePayload : e.reason = some .duplicatePayload ↔
    normalizeRuleValue settings v ≠ "" ∧ ¬ NewIn settings (normalizeRuleValue settings v) before
  duplicateExisting : e.reason = some .duplicateExisting ↔
    normalizeRuleValue settings v ≠ "" ∧
      (newCustomRuleSyntax tags (normalizeRuleValue settings v)).isSome = true ∧
      normalizeRuleValue settings v ∈ settings.customRules.map (·.value) ∧
      NewIn settings (normalizeRuleValue settings v) before

/-- The entries of a request, value by value, and the two lists that they make. -/
structure Listed (tags : ValidatorTags) (settings : ProfileSettings) (values created : List String)
    (skipped : List BulkCustomRuleSkipped) (entries : List Entry) : Prop where
  length : entries.length = values.length
  accounts : ∀ i v, values[i]? = some v → ∃ e, entries[i]? = some e ∧
    Accounts tags settings (values.take i) v e
  created : created = (entries.filter (·.reason = none)).map (·.value)
  skipped : skipped = entries.filterMap fun e => e.reason.map fun reason => ⟨e.value, reason⟩

/-- The variables of the loop behind the values `before`. -/
structure BulkLoop (tags : ValidatorTags) (settings : ProfileSettings) (before : List String)
    (st : BulkState) : Prop where
  seen : ∀ n, n ∈ st.payloadSeen ↔ n ≠ "" ∧ ¬ NewIn settings n before
  known : ∀ n, n ∉ st.payloadSeen → (n ∈ st.existingValues ↔ n ∈ settings.customRules.map (·.value))
  listed : ∃ entries, Listed tags settings before (st.toCreate.map (·.value)) st.skipped entries

theorem newIn_concat {n : String} :
    NewIn settings n (before ++ [v]) ↔ NewIn settings n before ∧
    normalizeRuleValue settings v ≠ n := by
  unfold NewIn
  simp only [List.mem_append, List.mem_singleton]
  constructor
  · exact fun h => ⟨fun u hu => h u (.inl hu), h v (.inr rfl)⟩
  · rintro ⟨hbefore, hv⟩ u (hu | rfl)
    · exact hbefore u hu
    · exact hv

/-- One entry more. -/
theorem Listed.concat {created created' : List String}
    {skipped skipped' : List BulkCustomRuleSkipped} {entries : List Entry} {e : Entry}
    (h : Listed tags settings before created skipped entries)
    (he : Accounts tags settings before v e)
    (hcreated : created' = created ++ if e.reason = none then [e.value] else [])
    (hskipped : skipped' = skipped ++ (e.reason.map fun reason => ⟨e.value, reason⟩).toList) :
    Listed tags settings (before ++ [v]) created' skipped' (entries ++ [e]) := by
  refine ⟨by simp [h.length], fun i u hu => ?_, ?_, ?_⟩
  · by_cases hi : i < before.length
    · rw [List.getElem?_append_left hi] at hu
      obtain ⟨e', he', haccounts⟩ := h.accounts i u hu
      refine ⟨e', ?_, ?_⟩
      · rw [List.getElem?_append_left (h.length ▸ hi)]
        exact he'
      · rwa [List.take_append_of_le_length (le_of_lt hi)]
    · have hlen := (List.getElem?_eq_some_iff.1 hu).1
      rw [List.length_append, List.length_singleton] at hlen
      obtain rfl : i = before.length := by omega
      rw [List.getElem?_concat_length] at hu
      obtain rfl : v = u := Option.some.inj hu
      refine ⟨e, ?_, ?_⟩
      · rw [← h.length]
        exact List.getElem?_concat_length
      · rwa [List.take_left]
  · rw [hcreated, h.created, List.filter_append, List.map_append]
    congr 1
    by_cases hreason : e.reason = none <;> simp [hreason]
  · rw [hskipped, h.skipped, List.filterMap_append]
    cases hreason : e.reason <;> simp [hreason]

/-- **One round lists its value**, whichever branch it takes. -/
theorem BulkLoop.step (h : BulkLoop tags settings before st) :
    BulkLoop tags settings (before ++ [v]) (bulkStep tags newID settings action st v) := by
  obtain ⟨hseen, hknown, entries, hlisted⟩ := h
  unfold bulkStep
  generalize hn : normalizeRuleValue settings v = n
  dsimp only
  -- a name stays new as long as no value before it has that normal form
  have hsame : ∀ m, NewIn settings m (before ++ [v]) ↔ NewIn settings m before ∧ n ≠ m := by
    intro m
    rw [newIn_concat, hn]
  by_cases hempty : n = ""
  · rw [if_pos hempty]
    refine ⟨fun m => ?_, hknown, _, hlisted.concat (e := ⟨v, some .invalidSyntax⟩) ?_ ?_ rfl⟩
    · rw [BulkState.skip, hseen m, hsame m]
      refine and_congr_right fun hm => not_congr ?_
      have hne : n ≠ m := fun heq => hm (heq ▸ hempty)
      exact (and_iff_left hne).symm
    · constructor <;> simp [hn, hempty]
    · simp [BulkState.skip]
  -- a second value with the normal form of an earlier one
  rw [if_neg hempty]
  by_cases hmem : n ∈ st.payloadSeen
  · have hold : ¬ NewIn settings n before := ((hseen n).1 hmem).2
    rw [if_pos hmem]
    refine ⟨fun m => ?_, hknown, _, hlisted.concat (e := ⟨n, some .duplicatePayload⟩) ?_ ?_ rfl⟩
    · rw [BulkState.skip, hseen m, hsame m]
      refine and_congr_right fun hm => not_congr ⟨fun hnew => ⟨hnew, ?_⟩, And.left⟩
      rintro rfl
      exact hold hnew
    · constructor <;> simp [hn, hempty, hold]
    · simp [BulkState.skip]
  rw [if_neg hmem]
  -- a normal form that comes for the first time
  have hnew : NewIn settings n before := by
    by_contra hold
    exact hmem ((hseen n).2 ⟨hempty, hold⟩)
  have hseen' : ∀ m, m ∈ n :: st.payloadSeen ↔ m ≠ "" ∧ ¬ NewIn settings m (before ++ [v]) := by
    intro m
    rw [List.mem_cons, hseen m, hsame m, not_and_or, not_not]
    constructor
    · rintro (rfl | ⟨hm, hold⟩)
      · exact ⟨hempty, .inr rfl⟩
      · exact ⟨hm, .inl hold⟩
    · rintro ⟨hm, hold | rfl⟩
      · exact .inr ⟨hm, hold⟩
      · exact .inl rfl
  have hknown' : ∀ m, m ∉ n :: st.payloadSeen →
    (m ∈ st.existingValues ↔ m ∈ settings.customRules.map (·.value)) :=
    fun m hm => hknown m fun hin => hm (List.mem_cons_of_mem n hin)
  cases hsyn : newCustomRuleSyntax tags n with
  | none =>
    refine ⟨hseen', hknown', _, hlisted.concat (e := ⟨n, some .invalidSyntax⟩) ?_ ?_ rfl⟩
    · constructor <;> simp [hn, hempty, hsyn, hnew]
    · simp [BulkState.skip]
  | some ruleSyntax =>
    dsimp only
    by_cases hexists : n ∈ st.existingValues
    · have hin : n ∈ settings.customRules.map (·.value) := (hknown n hmem).1 hexists
      rw [if_pos hexists]
      refine ⟨hseen', hknown', _, hlisted.concat (e := ⟨n, some .duplicateExisting⟩) ?_ ?_ rfl⟩
      · constructor <;> simp only [hn, hsyn, hnew, hin] <;> simp [hempty]
      · simp [BulkState.skip]
    · have hin : n ∉ settings.customRules.map (·.value) := fun hin =>
        hexists ((hknown n hmem).2 hin)
      rw [if_neg hexists]
      refine ⟨hseen', fun m hm => ?_, _, hlisted.concat (e := ⟨n, none⟩) ?_ ?_ ?_⟩
      · have hne : m ≠ n := fun heq => hm (heq ▸ List.mem_cons_self ..)
        rw [← hknown' m hm]
        exact List.mem_cons.trans (or_iff_right hne)
      · constructor <;> simp only [hn, hsyn, hnew, hin] <;> simp [hempty]
      · simp
      · simp

theorem bulkLoop (tags : ValidatorTags) (newID : ℕ → RuleID) (settings : ProfileSettings)
    (action : CustomRuleAction) (values : List String) :
    BulkLoop tags settings values (values.foldl (bulkStep tags newID settings action)
      ⟨settings.customRules.map (·.value), [], [], []⟩) := by
  induction values using List.reverseRecOn with
  | nil =>
    refine ⟨fun n => ?_, fun _ _ => Iff.rfl, [], ⟨rfl, fun i v hv => ?_, rfl, rfl⟩⟩
    · refine iff_of_false List.not_mem_nil fun h => h.2 ?_
      exact List.forall_mem_nil _
    · cases hv
  | append_singleton before v ih =>
    rw [List.foldl_append, List.foldl_cons, List.foldl_nil]
    exact ih.step

theorem Listed.entry {created : List String} {skipped : List BulkCustomRuleSkipped}
    {entries : List Entry} {e : Entry} (h : Listed tags settings values created skipped entries)
    (he : e ∈ entries) :
    ∃ before v, Accounts tags settings before v e := by
  obtain ⟨i, hi, rfl⟩ := List.getElem_of_mem he
  obtain ⟨e', he', haccounts⟩ := h.accounts i _ (List.getElem?_eq_getElem (h.length ▸ hi))
  rw [List.getElem?_eq_getElem hi] at he'
  exact ⟨_, _, Option.some.inj he' ▸ haccounts⟩

/-- **A value that there is already is listed as such**, and it is not created again. -/
theorem Listed.duplicate {created : List String} {skipped : List BulkCustomRuleSkipped}
    {entries : List Entry} {n : String} (h : Listed tags settings values created skipped entries)
    (hasked : ∃ u ∈ values, normalizeRuleValue settings u = n) (hne : n ≠ "")
    (hsyn : (newCustomRuleSyntax tags n).isSome = true)
    (hin : n ∈ settings.customRules.map (·.value)) :
    n ∉ created ∧ ⟨n, .duplicateExisting⟩ ∈ skipped := by
  constructor
  · rw [h.created]
    intro hcreated
    obtain ⟨e, he, hvalue⟩ := List.mem_map.1 hcreated
    obtain ⟨hmem, hnone⟩ := List.mem_filter.1 he
    obtain ⟨before, v, haccounts⟩ := h.entry hmem
    obtain ⟨hsome, -, hnew, -⟩ := haccounts.created.1 (of_decide_eq_true hnone)
    rw [haccounts.value, if_neg hsome] at hvalue
    exact hnew (hvalue ▸ hin)
  · obtain ⟨u, hu, hnormal⟩ := hasked
    have hfind : (values.find? fun u => normalizeRuleValue settings u = n).isSome = true :=
      List.find?_isSome.2 ⟨u, hu, decide_eq_true hnormal⟩
    obtain ⟨first, hfirst⟩ := Option.isSome_iff_exists.1 hfind
    obtain ⟨hnormal', before, rest, rfl, hbefore⟩ := List.find?_eq_some_iff_append.1 hfirst
    have hnormal'' : normalizeRuleValue settings first = n := of_decide_eq_true hnormal'
    obtain ⟨e, he, haccounts⟩ := h.accounts before.length first (by simp)
    rw [List.take_left] at haccounts
    have hnew : NewIn settings n before := fun a ha => by simpa using hbefore a ha
    have hreason : e.reason = some .duplicateExisting :=
      haccounts.duplicateExisting.2 (hnormal''.symm ▸ ⟨hne, hsyn, hin, hnew⟩)
    have hvalue := haccounts.value
    rw [hnormal'', if_neg hne] at hvalue
    rw [h.skipped]
    refine List.mem_filterMap.2 ⟨e, List.mem_of_getElem? he, ?_⟩
    rw [hreason, hvalue]
    rfl

end Listing

section Requests

variable {tags : ValidatorTags} {newID : ℕ → RuleID} {settings settings' : ProfileSettings}
  {accountRules : ℕ} {action : String} {values : List String} {result : BulkCustomRuleResult}
  {rule : CustomRule} {v : String}

theorem listed_bulk
    (h : createCustomRulesBulk tags newID settings accountRules action values = .ok result) :
    result.totalRequested = values.length ∧
      ∃ entries, Listed tags settings values
        (result.created.map (·.value)) result.skipped entries := by
  unfold createCustomRulesBulk at h
  split at h
  · cases h
  · next actionCustomRule haction =>
    simp only at h
    split at h
    · cases h
    · cases h
      exact ⟨rfl, (bulkLoop tags newID settings actionCustomRule values).listed⟩

/-- The normal form depends on the settings for the subdomains only. -/
theorem normalizeRuleValue_congr
    (h : settings'.privacy.customRulesSubdomainsRule = settings.privacy.customRulesSubdomainsRule) :
    normalizeRuleValue settings' v = normalizeRuleValue settings v := by
  unfold normalizeRuleValue
  rw [h]

/-- A created value that does not end with a dot is its own normal form. -/
theorem created_self (hfqdn : FqdnTag tags.fqdn) (hip : AddressTags tags)
    (h : createCustomRulesBulk tags newID settings accountRules action values = .ok result)
    (hrule : rule ∈ result.created)
    (hdot : rule.value.toList.getLast? ≠ some '.') :
    normalizeRuleValue settings rule.value = rule.value := by
  obtain ⟨⟨v, -, hv⟩, hne, hsyn⟩ := created_of_value h hrule
  have hnormal : NormalForm settings rule.value := by
    rw [hv]
    exact normalForm (hv ▸ hne)
  refine normalizeRuleValue_self hnormal hne fun c hc => ⟨?_, ?_⟩
  · exact stored_no_space hfqdn hip hnormal hsyn c (List.mem_of_getLast? hc)
  · rintro rfl
    exact hdot hc

/-- An edit that sends the text of the rule, which is its own normal form, is one that leaves the
text out. -/
theorem patchProxyFields_same {env : ServiceEnv} {patch : CustomRulePatch}
    (hvalue : patch.value = some rule.value)
    (hself : normalizeRuleValue settings rule.value = rule.value) (hne : rule.value ≠ "")
    (hsyn : newCustomRuleSyntax env.tags rule.value = some rule.ruleSyntax) :
    patchProxyFields env settings rule patch = patchProxyFields env settings rule
    { patch with value := none } := by
  obtain ⟨action, value, note, group, order⟩ := patch
  obtain rfl : value = some rule.value := hvalue
  unfold patchProxyFields
  dsimp only
  simp only [hself, hne, hsyn, if_false]
  cases action with
  | none => simp only [pure_bind, if_true]
  | some text =>
    dsimp only
    cases newCustomRuleAction text with
    | none => rfl
    | some action => simp only [pure_bind, if_true]

/-- **A request for many rules accounts for every value**: each is listed once, in order, as a rule
that is created or with the reason why it is skipped. A created value that does not end with a dot
is its own normal form, so that an edit with the same text changes nothing, and a later request for
it finds that it exists. -/
theorem bulk_accounts (hfqdn : FqdnTag tags.fqdn) (hip : AddressTags tags)
    (h : createCustomRulesBulk tags newID settings accountRules action values = .ok result) :
    result.totalRequested = values.length ∧
    (∃ entries, Listed tags settings values (result.created.map (·.value)) result.skipped entries) ∧
    ∀ rule ∈ result.created, rule.value.toList.getLast? ≠ some '.' →
      normalizeRuleValue settings rule.value = rule.value ∧
      ∀ settings' : ProfileSettings,
        settings'.privacy.customRulesSubdomainsRule = settings.privacy.customRulesSubdomainsRule →
        (∀ (env : ServiceEnv) (patch : CustomRulePatch), env.tags = tags →
          patch.value = some rule.value →
          patchProxyFields env settings' rule patch = patchProxyFields env settings' rule
          { patch with value := none }) ∧
        ∀ newID' accountRules' action' values' result', rule ∈ settings'.customRules →
        rule.value ∈ values' →
          createCustomRulesBulk tags newID' settings' accountRules' action' values' = .ok result' →
          rule.value ∉ result'.created.map (·.value) ∧
          ⟨rule.value, .duplicateExisting⟩ ∈ result'.skipped := by
  obtain ⟨htotal, hlisted⟩ := listed_bulk h
  refine ⟨htotal, hlisted, fun rule hrule hdot => ?_⟩
  have hself := created_self hfqdn hip h hrule hdot
  obtain ⟨-, hne, hsyn⟩ := created_of_value h hrule
  refine ⟨hself, fun settings' hsub => ?_⟩
  -- a created value stays as it is under settings with the same choice
  have hself' : normalizeRuleValue settings' rule.value = rule.value :=
    (normalizeRuleValue_congr hsub).trans hself
  refine ⟨fun env patch henv hvalue => ?_,
    fun newID' accountRules' action' values' result' hstored hasked h' => ?_⟩
  · subst henv
    exact patchProxyFields_same hvalue hself' hne hsyn
  · obtain ⟨-, entries, hlisted'⟩ := listed_bulk h'
    exact hlisted'.duplicate ⟨rule.value, hasked, hself'⟩ hne (by rw [hsyn]; rfl)
      (List.mem_map_of_mem hstored)

theorem toOption_eq_some {ε α : Type} {x : Except ε α} {a : α} :
    x.toOption = some a ↔ x = .ok a := by
  cases x with
  | error e => simp [Except.toOption]
  | ok b => simp [Except.toOption]

theorem exampleTags_address : AddressTags exampleTags := by
  intro s hs hnil
  rcases hs with h4 | h6
  · have hmapped : decide ((parseIP s).take 12 = v4InV6Prefix) = true := h4
    have htake := of_decide_eq_true hmapped
    rw [hnil] at htake
    cases htake
  · have hparsed : decide (parseIP s ≠ []) = true := h6
    exact of_decide_eq_true hparsed hnil

/-- A wildcard is asked for twice. -/
theorem bulk_accounts_twice :
    (∃ entries, Listed exampleTags newSettings ["*.ads.com", "*.ads.com"] ["*.ads.com"]
      [⟨"*.ads.com", .duplicatePayload⟩] entries) ∧
    normalizeRuleValue newSettings "*.ads.com" = "*.ads.com" := by
  have h : createCustomRulesBulk exampleTags (fun _ => 7) newSettings 0 "block"
    ["*.ads.com", "*.ads.com"] =
      .ok ⟨.block, 2, [exampleRule], [⟨"*.ads.com", .duplicatePayload⟩]⟩ :=
        toOption_eq_some.1 (by decide +kernel)
  obtain ⟨-, hlisted, hself⟩ := bulk_accounts exampleTags_fqdn exampleTags_address h
  exact ⟨hlisted, (hself exampleRule (List.mem_singleton_self _) (by decide)).1⟩

/-- A value without a syntax is a duplicate of the request the second time. And with exact names one
of the two dots behind a name stays; the next edit takes it away. -/
theorem bulk_masks :
    let exact : ProfileSettings := { newSettings with
      privacy :=
        { newSettings.privacy with customRulesSubdomainsRule := customRulesSubdomainsExact } }
    newCustomRuleSyntax exampleTags (normalizeRuleValue newSettings "no rule") = none ∧
      createCustomRulesBulk exampleTags (fun _ => 7) newSettings 0 "block" ["no rule", "no rule"] =
        .ok ⟨.block, 2, [], [⟨"*.no rule", .invalidSyntax⟩, ⟨"*.no rule", .duplicatePayload⟩]⟩ ∧
      (∃ rule skipped, createCustomRulesBulk exampleTags (fun _ => 7) exact 0 "block"
        ["ads.com.."] = .ok ⟨.block, 1, [rule], skipped⟩ ∧
        rule.value = "ads.com." ∧ normalizeRuleValue exact rule.value = "ads.com") := by
  intro exact
  refine ⟨by decide +kernel, toOption_eq_some.1 (by decide +kernel),
    { id := 7, action := .block, value := "ads.com.", ruleSyntax := .fqdn }, [],
      toOption_eq_some.1 (by decide +kernel), rfl, ?_⟩
  decide +kernel

end Requests

end ModDNS.Rules
