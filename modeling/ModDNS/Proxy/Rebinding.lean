import ModDNS.Go.Names
import ModDNS.Go.Prefix
import ModDNS.Proxy.Filters

/-!
# Rebinding protection

An answer is blocked if one of its addresses is private, unless the query name is at or below a
suffix that the operator allows. The ranges are computed byte by byte (`isPrivate_iff`); a suffix
without a leading dot also exempts the names that end in it in the middle of a label
(`allowedSuffix_iff`).

* `filterRebinding_iff`: when the stage blocks what it should.
-/

namespace ModDNS.Proxy

open Go

/-- The ranges that the configuration takes for private. -/
def privateRanges (cfg : RebindingConfig) : List IPNet :=
  alwaysPrivateRanges ++ (if cfg.blockCGNAT then [cgnatRange] else []) ++ if cfg.blockNAT64 then
    [nat64Range] else []

/-- The address lies in one of the ranges, an IPv4-mapped address as the IPv4 address. -/
def IsPrivate (cfg : RebindingConfig) (ip : IP) : Prop :=
  ∃ n ∈ privateRanges cfg, n.InRange ip.normal

/-- A suffix as it is compared. -/
def normalSuffix (suffix : String) : String := toLower (trimSpace suffix)

/-- The name is at or below an allowed suffix, with or without the dot before it. Blank suffixes do
not count, and the root is below none. -/
def Exempt (suffixes : List String) (name : String) : Prop :=
  normalName name ≠ "" ∧ ∃ suffix ∈ suffixes, normalSuffix suffix ≠ "" ∧
    AtOrBelow (normalName name) (trimPrefix (normalSuffix suffix) ".")

/-- The name ends in a suffix without a leading dot, but in the middle of a label. -/
def EndsInLabel (suffixes : List String) (name : String) : Prop :=
  ∃ suffix ∈ suffixes, normalSuffix suffix ≠ "" ∧ hasPrefix (normalSuffix suffix) "." = false ∧
    hasSuffix (normalName name) (normalSuffix suffix) = true ∧
      ¬ AtOrBelow (normalName name) (normalSuffix suffix)

section Suffixes

variable {suffixes : List String} {name suffix : String}

theorem trimPrefix_dot (h : hasPrefix suffix "." = true) :
    suffix = "." ++ trimPrefix suffix "." := by
  obtain ⟨rest, hrest⟩ := hasPrefix_iff.1 h
  apply String.toList_injective
  rw [trimPrefix, if_pos h, ← hrest]
  simp

/-- Which names a suffix exempts. -/
theorem suffix_iff :
    (hasSuffix name suffix = true ∨ name = trimPrefix suffix ".") ↔
      AtOrBelow name (trimPrefix suffix ".") ∨
        (hasPrefix suffix "." = false ∧ hasSuffix name suffix = true ∧
          ¬ AtOrBelow name suffix) := by
  cases hdot : hasPrefix suffix "." with
  | true =>
    have hsuffix := trimPrefix_dot hdot
    rw [AtOrBelow, ← hsuffix]
    simp [or_comm]
  | false =>
    have hsame : trimPrefix suffix "." = suffix := by
      rw [trimPrefix, hdot, if_neg Bool.false_ne_true]
    have hbelow : AtOrBelow name suffix → hasSuffix name suffix = true := by
      rintro (rfl | h)
      · exact hasSuffix_iff.2 (List.suffix_refl _)
      · refine hasSuffix_iff.2 (List.IsSuffix.trans ?_ (hasSuffix_iff.1 h))
        rw [String.toList_append]
        exact List.suffix_append _ _
    rw [hsame]
    constructor
    · intro h
      by_cases hat : AtOrBelow name suffix
      · exact .inl hat
      · exact .inr ⟨rfl, h.resolve_right fun heq => hat (.inl heq), hat⟩
    · rintro (h | ⟨-, h, -⟩)
      · exact .inl (hbelow h)
      · exact .inl h

/-- What the stage exempts: the names at or below a suffix, and those that end in one in the middle
of a label. -/
theorem allowedSuffix_iff (suffixes : List String) (name : String) :
    isRebindingAllowedSuffix name suffixes = true ↔ Exempt suffixes name ∨
      EndsInLabel suffixes name := by
  unfold isRebindingAllowedSuffix
  dsimp only
  rw [← normalName]
  split
  · next hroot =>
    refine iff_of_false Bool.false_ne_true ?_
    rintro (⟨hne, -⟩ | ⟨suffix, -, hsuffix, -, hends, -⟩)
    · exact hne hroot
    · rw [hroot, hasSuffix_iff] at hends
      exact ne_empty_iff.1 hsuffix (List.suffix_nil.1 hends)
  · next hroot =>
    simp only [List.any_eq_true, Bool.and_eq_true, Bool.or_eq_true, decide_eq_true_eq, normalSuffix,
      suffix_iff, Exempt,
      EndsInLabel, ne_eq, hroot, not_false_eq_true, true_and]
    grind

end Suffixes

section Ranges

variable {cfg : RebindingConfig} {ip ip' : IP}

theorem range_fits : ∀ n ∈ alwaysPrivateRanges ++ [cgnatRange] ++ [nat64Range],
    n.ip.length ≠ 0 ∧ n.ones ≤ 8 * n.ip.length := by decide

theorem fits_of_mem {n : IPNet} (h : n ∈ privateRanges cfg) :
    n.ip.length ≠ 0 ∧ n.ones ≤ 8 * n.ip.length := by
  refine range_fits n ?_
  unfold privateRanges at h
  grind

/-- The test of the stage is the test of the ranges. -/
theorem isPrivate_iff : isPrivateRebindingIP ip cfg = true ↔ IsPrivate cfg ip := by
  have hany : isPrivateRebindingIP ip cfg = true ↔ ip ≠ [] ∧
      ∃ n ∈ privateRanges cfg, n.contains ip.normal = true := by
    unfold isPrivateRebindingIP privateRanges
    rw [← IP.normal]
    split
    · next h => simp [h]
    · next h =>
      cases hc : cfg.blockCGNAT <;> cases hn : cfg.blockNAT64 <;>
        simp [h, or_and_right, exists_or, or_assoc]
  rw [hany, IsPrivate]
  constructor
  · rintro ⟨-, n, hn, hin⟩
    rw [IPNet.contains_iff (fits_of_mem hn).2, IP.normal_normal] at hin
    exact ⟨n, hn, hin⟩
  · rintro ⟨n, hn, hin⟩
    refine ⟨?_, n, hn, ?_⟩
    · rintro rfl
      exact (fits_of_mem hn).1 hin.1.symm
    · rw [IPNet.contains_iff (fits_of_mem hn).2, IP.normal_normal]
      exact hin

/-- Two forms of an address are private together. -/
theorem isPrivate_of_equal (h : ip.equal ip' = true) : IsPrivate cfg ip ↔ IsPrivate cfg ip' := by
  rw [IsPrivate, IsPrivate, normal_of_equal h]

end Ranges

section Stage

variable {f : IPFilter} {cfg : RebindingConfig} {reqCtx : RequestContext} {dctx : DNSContext}
  {res : Msg}

/-- An address of the answer is private. -/
def PrivateAnswer (cfg : RebindingConfig) (answer : List RR) : Prop :=
  ∃ rr ∈ answer, ∃ ip, rr.Holds ip ∧ IsPrivate cfg ip

/-- The two answers hold the same addresses, in one form or another. -/
def SameAddresses (answer answer' : List RR) : Prop :=
  (∀ rr ∈ answer, ∀ ip, rr.Holds ip → ∃ rr' ∈ answer', ∃ ip', rr'.Holds ip' ∧ ip.equal ip' = true) ∧
    ∀ rr' ∈ answer', ∀ ip', rr'.Holds ip' → ∃ rr ∈ answer, ∃ ip, rr.Holds ip ∧ ip.equal ip' = true

theorem privateAnswer_congr {answer answer' : List RR} (h : SameAddresses answer answer') :
    PrivateAnswer cfg answer ↔ PrivateAnswer cfg answer' := by
  constructor
  · rintro ⟨rr, hrr, ip, hip, hprivate⟩
    obtain ⟨rr', hrr', ip', hip', heq⟩ := h.1 rr hrr ip hip
    exact ⟨rr', hrr', ip', hip', (isPrivate_of_equal heq).1 hprivate⟩
  · rintro ⟨rr', hrr', ip', hip', hprivate⟩
    obtain ⟨rr, hrr, ip, hip, heq⟩ := h.2 rr' hrr' ip' hip'
    exact ⟨rr, hrr, ip, hip, (isPrivate_of_equal heq).2 hprivate⟩

/-- The stage is on, for the server and for the profile. -/
structure Protects (f : IPFilter) (cfg : RebindingConfig) (reqCtx : RequestContext) : Prop where
  config : f.rebindingConfig = some cfg
  enabled : cfg.enabled = true
  profile : parseBool (mapGet reqCtx.rebindingProtectionSettings IPFilter.rebindingEnabledKey) =
    some true

/-- What the stage decides. -/
theorem filterRebinding_decision (h : Protects f cfg reqCtx) (hres : dctx.res = some res) :
    ∃ r, f.filterRebinding reqCtx dctx = .ok r ∧ r.tier = tierRebinding ∧
      (r.decision = .block ↔ PrivateAnswer cfg res.answer ∧
        ¬ Exempt cfg.allowSuffixes dctx.question.name ∧
        ¬ EndsInLabel cfg.allowSuffixes dctx.question.name) ∧
        (r.decision = .block ∨ r = ⟨.none, tierRebinding, []⟩) := by
  have hprivate : (extractIPsFromAnswer res.answer).any (isPrivateRebindingIP · cfg) = true ↔
      PrivateAnswer cfg res.answer := by
    simp only [List.any_eq_true, isPrivate_iff, mem_extractIPsFromAnswer, PrivateAnswer]
    grind
  have hallowed := allowedSuffix_iff cfg.allowSuffixes dctx.question.name
  unfold IPFilter.filterRebinding
  rw [hres, h.config]
  simp only [h.enabled, h.profile, Bool.not_true, Bool.false_eq_true, if_false, ne_eq,
    not_true_eq_false]
  split
  · next hskip =>
    exact ⟨_, rfl, rfl, iff_of_false nofun fun hb =>
      (hallowed.1 hskip).elim hb.2.1 hb.2.2, .inr rfl⟩
  · next hskip =>
    rw [hallowed, not_or] at hskip
    split
    · next hp => exact ⟨_, rfl, rfl, iff_of_true rfl ⟨hprivate.1 hp, hskip⟩, .inl rfl⟩
    · next hp => exact ⟨_, rfl, rfl, iff_of_false nofun fun hb => hp (hprivate.2 hb.1), .inr rfl⟩

/-- **When the stage blocks what it should**: the answers with a private address, whatever its form,
except for names at or below an allowed suffix. That is unless such a name ends in a suffix in the
middle of a label. -/
theorem filterRebinding_iff (h : Protects f cfg reqCtx) (hres : dctx.res = some res) :
    ((∃ r, f.filterRebinding reqCtx dctx = .ok r ∧
        (r.decision = .block ↔ PrivateAnswer cfg res.answer ∧
          ¬ Exempt cfg.allowSuffixes dctx.question.name)) ∧
      ∀ res', SameAddresses res.answer res'.answer → ∃ r r', f.filterRebinding reqCtx dctx = .ok r ∧
        f.filterRebinding reqCtx { dctx with res := some res' } = .ok r' ∧
          r.decision = r'.decision) ↔
      ¬ (PrivateAnswer cfg res.answer ∧ ¬ Exempt cfg.allowSuffixes dctx.question.name ∧
        EndsInLabel cfg.allowSuffixes dctx.question.name) := by
  obtain ⟨r, hr, -, hblock, hnone⟩ := filterRebinding_decision h hres
  -- the form of an address does not matter, whatever the suffixes are
  have hforms : ∀ res', SameAddresses res.answer res'.answer →
    ∃ r r', f.filterRebinding reqCtx dctx = .ok r ∧
      f.filterRebinding reqCtx { dctx with res := some res' } = .ok r' ∧
        r.decision = r'.decision := by
    intro res' hsame
    obtain ⟨r', hr', -, hblock', hnone'⟩ :=
      @filterRebinding_decision f cfg reqCtx { dctx with res := some res' } res' h rfl
    refine ⟨r, r', hr, hr', ?_⟩
    rw [← privateAnswer_congr hsame] at hblock'
    rcases hnone with hb | rfl
    · rw [hb, hblock'.2 (hblock.1 hb)]
    · rcases hnone' with hb' | rfl
      · cases hblock.2 (hblock'.1 hb')
      · rfl
  rw [and_iff_left hforms, hr]
  simp only [Except.ok.injEq, exists_eq_left', hblock]
  tauto

end Stage

section Examples

/-- Protection is on, and names below `lan` are exempt. -/
def lanConfig : RebindingConfig := ⟨true, false, false, ["lan"]⟩

def lanStage : IPFilter where
  cache := ⟨fun _ _ => .ok false, fun _ _ => .ok false⟩
  servicesCatalog := none
  asnLookup := none
  rebindingConfig := some lanConfig
  cnameUncloakingEnabled := none
  mapOrder := ⟨id, List.Perm.refl⟩

def protectedProfile : RequestContext :=
  { newRequestContext "p" .empty with rebindingProtectionSettings := [("enabled", "1")] }

/-- A name with an address of the home network. -/
def homeAnswer (name : String) : DNSContext :=
  { id := 0, question := ⟨name, .a⟩
    res := some
      { (DNSContext.req ⟨0, ⟨name, .a⟩, none⟩).setReply with answer := [.a [192, 168, 1, 1]] } }

theorem protects_lan : Protects lanStage lanConfig protectedProfile := ⟨rfl, rfl, by decide⟩

theorem private_home (name : String) :
    ∃ res, (homeAnswer name).res = some res ∧ PrivateAnswer lanConfig res.answer :=
  ⟨_, rfl, _, List.mem_singleton_self _, [192, 168, 1, 1], rfl, ⟨[192, 168, 0, 0], 16⟩,
    by simp [privateRanges, alwaysPrivateRanges], by decide⟩

theorem filterRebinding_iff_lan : ∃ res, (homeAnswer "nas.lan.").res = some res ∧
    ∃ r, lanStage.filterRebinding protectedProfile (homeAnswer "nas.lan.") = .ok r ∧
      (r.decision = .block ↔ PrivateAnswer lanConfig res.answer ∧
        ¬ Exempt lanConfig.allowSuffixes "nas.lan.") := by
  have hexempt : Exempt lanConfig.allowSuffixes "nas.lan." := by
    unfold Exempt
    decide +kernel
  have hiff :=
    @filterRebinding_iff lanStage lanConfig protectedProfile
      (homeAnswer "nas.lan.") _ protects_lan rfl
  exact ⟨_, rfl, (hiff.2 fun h => h.2.1 hexempt).1⟩

/-- A name that ends in the suffix, but is not below it. -/
theorem notlan_passes :
    lanStage.filterRebinding protectedProfile (homeAnswer "notlan.") = .ok
      ⟨.none, tierRebinding, []⟩ ∧
      (∃ res, (homeAnswer "notlan.").res = some res ∧ PrivateAnswer lanConfig res.answer) ∧
      ¬ Exempt lanConfig.allowSuffixes "notlan." := by
  refine ⟨by decide +kernel, private_home _, ?_⟩
  unfold Exempt
  decide +kernel

end Examples

end ModDNS.Proxy
