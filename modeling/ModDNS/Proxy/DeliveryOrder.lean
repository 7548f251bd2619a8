import ModDNS.Proxy.BlockedServices
import ModDNS.Proxy.Uncloaking
import ModDNS.Proxy.Verdict

/-!
# The order of delivery

The custom rules and the blocked services come out of unordered sets, a resolver may order the
records of an answer as it likes, and a map is ranged over in any order. The verdict does not show
it.

* `verdict_order`: the same status for the same reasons, whether the store fails or not. Only the
  CNAME records of an answer have to keep their order among themselves.
* `verdict_any_order`: if the store answers every lookup, the subscribed lists and the CNAME records
  may come in any order too. The status is the same, and so are the reasons, apart from those that
  name a list.
-/

namespace ModDNS.Proxy

open Go Data Libs

/-! ## Results that say the same -/

/-- The stage decides the same, and gives the same of the reasons `P`. -/
structure StageResult.Same (P : String → Prop) (r r' : StageResult) : Prop where
  decision : r.decision = r'.decision
  tier : r.tier = r'.tier
  reasons : ∀ x, P x → (x ∈ r.reasons ↔ x ∈ r'.reasons)

/-- The two lists hold results that say the same. -/
structure SameResults (P : String → Prop) (l l' : List StageResult) : Prop where
  left : ∀ r ∈ l, ∃ r' ∈ l', r.Same P r'
  right : ∀ r' ∈ l', ∃ r ∈ l, r.Same P r'

structure FilterResult.Same (P : String → Prop) (fr fr' : FilterResult) : Prop where
  status : fr.status = fr'.status
  reasons : ∀ x, P x → (x ∈ fr.reasons ↔ x ∈ fr'.reasons)

section Results

variable {P : String → Prop} {l l' m m' : List StageResult} {r r' : StageResult} {d : Decision}
  {x : String}

theorem StageResult.Same.rfl : r.Same P r := ⟨Eq.refl _, Eq.refl _, fun _ _ => Iff.rfl⟩

theorem StageResult.Same.symm (h : r.Same P r') : r'.Same P r :=
  ⟨h.decision.symm, h.tier.symm, fun x hx => (h.reasons x hx).symm⟩

theorem StageResult.Same.trans {r'' : StageResult} (h : r.Same P r') (h' : r'.Same P r'') :
    r.Same P r'' :=
  ⟨h.decision.trans h'.decision, h.tier.trans h'.tier,
    fun x hx => (h.reasons x hx).trans (h'.reasons x hx)⟩

theorem SameResults.refl (l : List StageResult) : SameResults P l l :=
  ⟨fun r hr => ⟨r, hr, .rfl⟩, fun r hr => ⟨r, hr, .rfl⟩⟩

theorem SameResults.symm (h : SameResults P l l') : SameResults P l' l := by
  constructor
  · intro r' hr'
    obtain ⟨r, hr, hsame⟩ := h.right r' hr'
    exact ⟨r, hr, hsame.symm⟩
  · intro r hr
    obtain ⟨r', hr', hsame⟩ := h.left r hr
    exact ⟨r', hr', hsame.symm⟩

theorem SameResults.append (h : SameResults P l l') (h' : SameResults P m m') :
    SameResults P (l ++ m) (l' ++ m') := by
  constructor
  · intro r hr
    rcases List.mem_append.1 hr with hr | hr
    · obtain ⟨r', hr', hsame⟩ := h.left r hr
      exact ⟨r', List.mem_append_left _ hr', hsame⟩
    · obtain ⟨r', hr', hsame⟩ := h'.left r hr
      exact ⟨r', List.mem_append_right _ hr', hsame⟩
  · intro r hr
    rcases List.mem_append.1 hr with hr | hr
    · obtain ⟨r', hr', hsame⟩ := h.right r hr
      exact ⟨r', List.mem_append_left _ hr', hsame⟩
    · obtain ⟨r', hr', hsame⟩ := h'.right r hr
      exact ⟨r', List.mem_append_right _ hr', hsame⟩

theorem SameResults.decides (h : SameResults P l l') : Decides d l ↔ Decides d l' := by
  constructor
  · rintro ⟨r, hr, rfl⟩
    obtain ⟨r', hr', hsame⟩ := h.left r hr
    exact ⟨r', hr', hsame.decision.symm⟩
  · rintro ⟨r', hr', rfl⟩
    obtain ⟨r, hr, hsame⟩ := h.right r' hr'
    exact ⟨r, hr, hsame.decision⟩

theorem SameResults.winning (h : SameResults P l l') : winning l = winning l' := by
  simp only [Proxy.winning, h.decides]

/-- A result at the top has one like it at the top of the other list. -/
theorem SameResults.topTier (h : SameResults P l l') (hr : TopTier d l r) :
    ∃ r', TopTier d l' r' ∧ r.Same P r' := by
  obtain ⟨hmem, hd, hmax⟩ := hr
  obtain ⟨r', hr', hsame⟩ := h.left r hmem
  refine ⟨r', ⟨hr', hsame.decision ▸ hd, ?_⟩, hsame⟩
  intro s' hs' hsd
  obtain ⟨s, hs, hss⟩ := h.right s' hs'
  have hle := hmax s hs (hss.decision.trans hsd)
  rwa [hss.tier, hsame.tier] at hle

theorem SameResults.reason (h : SameResults P l l') (hx : P x)
    (hin : ∃ r, TopTier d l r ∧ x ∈ r.reasons) : ∃ r', TopTier d l' r' ∧ x ∈ r'.reasons := by
  obtain ⟨r, htop, hxr⟩ := hin
  obtain ⟨r', htop', hsame⟩ := h.topTier htop
  exact ⟨r', htop', (hsame.reasons x hx).1 hxr⟩

/-- **The aggregator does not see the order.** -/
theorem SameResults.final (h : SameResults P l l') :
    (getFinalFilteringResult l).Same P (getFinalFilteringResult l') := by
  obtain ⟨hst, hre⟩ := getFinalFilteringResult_spec l
  obtain ⟨hst', hre'⟩ := getFinalFilteringResult_spec l'
  refine ⟨by rw [hst, hst']; simp only [h.decides], ?_⟩
  intro x hx
  rw [hre.mem, hre'.mem, h.winning]
  exact and_congr_right fun _ => ⟨h.reason hx, h.symm.reason hx⟩

/-- Reasons that are sorted are given by their set. -/
theorem eq_of_sorted {reasons reasons' : List String} (h : reasons.Pairwise (· < ·))
    (h' : reasons'.Pairwise (· < ·)) (hmem : ∀ x, x ∈ reasons ↔ x ∈ reasons') :
    reasons = reasons' := by
  have hperm : reasons.Perm reasons' :=
    (List.perm_ext_iff_of_nodup (h.imp ne_of_lt) (h'.imp ne_of_lt)).2 hmem
  exact hperm.eq_of_pairwise (fun a b _ _ hab hba => absurd hba (lt_asymm hab)) h h'

theorem FilterResult.Same.eq {fr fr' : FilterResult} (h : fr.Same (fun _ => True) fr')
    (hs : fr.reasons.Pairwise (· < ·)) (hs' : fr'.reasons.Pairwise (· < ·)) : fr = fr' := by
  obtain ⟨status, reasons⟩ := fr
  obtain ⟨status', reasons'⟩ := fr'
  rw [FilterResult.mk.injEq]
  exact ⟨h.status, eq_of_sorted hs hs' fun x => h.reasons x trivial⟩

end Results

/-! ## Phases that say the same -/

/-- Both stages return results that say the same, or both return an error. -/
def SameReturn (P : String → Prop) :
    Except StageError StageResult → Except StageError StageResult → Prop
  | .ok r, .ok r' => r.Same P r'
  | .error _, .error _ => True
  | _, _ => False

/-- Stage by stage, the two phases return the same. -/
def SamePhase (P : String → Prop) (stages stages' : List Stage) (reqCtx reqCtx' : RequestContext)
    (dctx dctx' : DNSContext) : Prop :=
  List.Forall₂ (fun st st' => ∃ x x', st.run reqCtx dctx = .ofExcept x ∧
    st'.run reqCtx' dctx' = .ofExcept x' ∧
    SameReturn P x x') stages stages'

section Phases

variable {P : String → Prop} {stages stages' : List Stage} {reqCtx reqCtx' : RequestContext}
  {dctx dctx' : DNSContext} {phase phase' : String}

theorem SameReturn.rfl {x : Except StageError StageResult} : SameReturn P x x := by
  cases x with
  | error e => trivial
  | ok r => exact StageResult.Same.rfl

theorem SameReturn.of_eq {x x' : Except StageError StageResult} (h : x = x') :
    SameReturn P x x' := h ▸ .rfl

theorem SamePhase.failures (h : SamePhase P stages stages' reqCtx reqCtx' dctx dctx') :
    stageFailures phase stages reqCtx dctx = [] ↔
      stageFailures phase' stages' reqCtx' dctx' = [] := by
  simp only [stageFailures, List.filterMap_eq_nil_iff, Option.map_eq_none_iff]
  induction h with
  | nil => simp
  | cons hhead _ ih =>
    obtain ⟨x, x', hx, hx', hsame⟩ := hhead
    rw [List.forall_mem_cons, List.forall_mem_cons, ih, hx, hx']
    refine and_congr_left fun _ => ?_
    cases x <;> cases x' <;> simp_all [SameReturn, StageRun.ofExcept, StageRun.outcome]

theorem SamePhase.results (h : SamePhase P stages stages' reqCtx reqCtx' dctx dctx') :
    SameResults P (stageResults stages reqCtx dctx) (stageResults stages' reqCtx' dctx') := by
  induction h with
  | nil => exact .refl _
  | @cons st st' stages stages' hhead _ ih =>
    obtain ⟨x, x', hx, hx', hsame⟩ := hhead
    cases x with
    | error e =>
      cases x' with
      | ok r' => exact hsame.elim
      | error e' =>
        have hl : stageResults (st :: stages) reqCtx dctx = stageResults stages reqCtx dctx := by
          simp [stageResults, outcomes, hx, StageRun.ofExcept, StageRun.outcome]
        have hl' : stageResults (st' :: stages') reqCtx' dctx' =
            stageResults stages' reqCtx' dctx' := by
          simp [stageResults, outcomes, hx', StageRun.ofExcept, StageRun.outcome]
        rw [hl, hl']
        exact ih
    | ok r =>
      cases x' with
      | error e' => exact hsame.elim
      | ok r' =>
        have hl : stageResults (st :: stages) reqCtx dctx = [r] ++
            stageResults stages reqCtx dctx := by
          simp [stageResults, outcomes, hx, StageRun.ofExcept, StageRun.outcome]
        have hl' : stageResults (st' :: stages') reqCtx' dctx' = [r'] ++
            stageResults stages' reqCtx' dctx' := by
          simp [stageResults, outcomes, hx', StageRun.ofExcept, StageRun.outcome]
        have hrr : r.Same P r' := hsame
        rw [hl, hl']
        exact SameResults.append ⟨by simpa using hrr, by simpa using hrr⟩ ih

end Phases

section Requests

variable {P : String → Prop} {s s' : Server} {reqCtx reqCtx' : RequestContext} {dctx : DNSContext}

/-- **The same stages, the same verdict.** -/
theorem handleRequest_same (hcheck : s.isDnsCheck dctx = s'.isDnsCheck dctx)
    (hfr : reqCtx.filterResult = reqCtx'.filterResult)
    (hp : reqCtx.partialFilteringResults = reqCtx'.partialFilteringResults)
    (hdomain : SamePhase P s.domainFilter.stages s'.domainFilter.stages reqCtx reqCtx' dctx dctx)
    (hip : SamePhase P s.ipFilter.stages s'.ipFilter.stages (s.ipInput reqCtx dctx).1
      (s'.ipInput reqCtx' dctx).1
      (s.ipInput reqCtx dctx).2 (s'.ipInput reqCtx' dctx).2) :
    (s.handleRequest reqCtx dctx).reqCtx.filterResult.Same P
    (s'.handleRequest reqCtx' dctx).reqCtx.filterResult := by
  cases hc : s.isDnsCheck dctx with
  | true =>
    have hc' : s'.isDnsCheck dctx = true := hcheck ▸ hc
    rw [Server.handleRequest, if_pos hc, Server.handleRequest, if_pos hc']
    dsimp only
    rw [hfr]
    exact ⟨rfl, fun _ _ => Iff.rfl⟩
  | false =>
    have hc' : s'.isDnsCheck dctx = false := hcheck ▸ hc
    -- after the first phase the two agree on the status
    have hfirst : (s.domainFilter.execute reqCtx dctx).1.filterResult.Same P
        (s'.domainFilter.execute reqCtx' dctx).1.filterResult := by
      have hfail : s.domainFailures reqCtx dctx = [] ↔ s'.domainFailures reqCtx' dctx = [] :=
        hdomain.failures
      rw [s.domain_filterResult, s'.domain_filterResult]
      by_cases hf : s.domainFailures reqCtx dctx = []
      · rw [if_pos hf, if_pos (hfail.1 hf), hp]
        exact ((SameResults.refl _).append hdomain.results).final
      · rw [if_neg hf, if_neg fun hf' => hf (hfail.2 hf')]
        exact ⟨rfl, fun _ _ => Iff.rfl⟩
    -- so both resolve the query, or neither does
    by_cases hst : (s.domainFilter.execute reqCtx dctx).1.filterResult.status = .processed
    · have hst' : (s'.domainFilter.execute reqCtx' dctx).1.filterResult.status = .processed :=
        hfirst.status ▸ hst
      rw [s.handleRequest_resolved hc hst, s'.handleRequest_resolved hc' hst']
      dsimp only
      have hfail : s.ipFailures reqCtx dctx = [] ↔ s'.ipFailures reqCtx' dctx = [] := hip.failures
      rw [s.ip_filterResult, s'.ip_filterResult]
      by_cases hf : s.ipFailures reqCtx dctx = []
      · rw [if_pos hf, if_pos (hfail.1 hf), hp]
        exact (((SameResults.refl _).append hdomain.results).append hip.results).final
      · rw [if_neg hf, if_neg fun hf' => hf (hfail.2 hf')]
        exact ⟨rfl, fun _ _ => Iff.rfl⟩
    · have hst' : (s'.domainFilter.execute reqCtx' dctx).1.filterResult.status ≠ .processed :=
        hfirst.status ▸ hst
      rw [s.handleRequest_final hc hst, s'.handleRequest_final hc' hst']
      exact hfirst

/-- The reasons of a handled request are sorted. -/
theorem handleRequest_sorted (h : reqCtx.filterResult.reasons.Pairwise (· < ·)) :
    (s.handleRequest reqCtx dctx).reqCtx.filterResult.reasons.Pairwise (· < ·) := by
  have hfinal : ∀ (f : Filter) reqCtx dctx,
      (f.execute reqCtx dctx).1.filterResult.reasons.Pairwise (· < ·) := by
    intro f reqCtx dctx
    rw [f.execute_filterResult]
    split
    · exact (getFinalFilteringResult_spec _).2.sorted
    · exact List.Pairwise.nil
  cases hc : s.isDnsCheck dctx with
  | true =>
    rw [Server.handleRequest, if_pos hc]
    exact h
  | false =>
    by_cases hst : (s.domainFilter.execute reqCtx dctx).1.filterResult.status = .processed
    · rw [s.handleRequest_resolved hc hst]
      exact hfinal _ _ _
    · rw [s.handleRequest_final hc hst]
      exact hfinal _ _ _

end Requests

/-! ## Stages that see the same -/

/-- The two requests carry the same rules and the same blocked services, in any order and however
often, and the same settings. -/
structure SameRequest (reqCtx reqCtx' : RequestContext) : Prop where
  privacy : reqCtx'.privacySettings = reqCtx.privacySettings
  rebinding : reqCtx'.rebindingProtectionSettings = reqCtx.rebindingProtectionSettings
  rules : ∀ hash, hash ∈ reqCtx'.customRules ↔ hash ∈ reqCtx.customRules
  services : ∀ id, id ∈ reqCtx'.blockedServices ↔ id ∈ reqCtx.blockedServices

def RR.isCNAME : RR → Bool
  | .cname _ => true
  | _ => false

/-- The two responses hold the same records, if any. -/
def SameAnswer : Option Msg → Option Msg → Prop
  | none, none => True
  | some res, some res' => ∀ rr, rr ∈ res'.answer ↔ rr ∈ res.answer
  | _, _ => False

/-- The two responses hold their CNAME records in the same order. -/
def SameCNAMEs : Option Msg → Option Msg → Prop
  | some res, some res' => res'.answer.filter RR.isCNAME = res.answer.filter RR.isCNAME
  | _, _ => True

/-- The catalog that the stages load has passed `Validate`. -/
def Validated (getter : Option CatalogGetter) : Prop :=
  ∀ cat, loadedCatalog getter = some cat → cat.validate = .ok ()

section Stages

variable {P : String → Prop} {f : DomainFilter} {g : IPFilter} {reqCtx reqCtx' : RequestContext}
  {dctx dctx' : DNSContext} {ls : Lists} {cat : Catalog}

/-- The loop over the rules, where a Block wins over an Allow wherever it stands. -/
theorem customRulesLoop_eq (fqdn : String) (rules : List Hash) (allowed : Bool) :
    DomainFilter.customRulesLoop fqdn rules allowed =
      if ∃ hash ∈ rules, matchDomainPattern fqdn (mapGet hash "value") = true ∧
        mapGet hash "action" = actionBlock then
        .block
      else if allowed = true ∨ ∃ hash ∈ rules, matchDomainPattern fqdn
        (mapGet hash "value") = true ∧
        mapGet hash "action" = actionAllow then .allow
      else .none := by
  induction rules generalizing allowed with
  | nil => simp [DomainFilter.customRulesLoop]
  | cons hash rules ih =>
    simp only [List.exists_mem_cons_iff]
    by_cases hmatch : matchDomainPattern fqdn (mapGet hash "value") = true
    · by_cases hblock : mapGet hash "action" = actionBlock
      · rw [DomainFilter.customRulesLoop, if_pos hmatch, if_pos hblock,
          if_pos (.inl ⟨hmatch, hblock⟩)]
      · rw [DomainFilter.customRulesLoop, if_pos hmatch, if_neg hblock, ih]
        simp [hmatch, hblock, or_assoc]
    · rw [DomainFilter.customRulesLoop, if_neg hmatch, ih]
      simp [hmatch]

theorem filterCustomRules_same (h : SameRequest reqCtx reqCtx') :
    DomainFilter.filterCustomRules reqCtx' dctx = DomainFilter.filterCustomRules reqCtx dctx := by
  have hloop : ∀ fqdn, DomainFilter.customRulesLoop fqdn reqCtx'.customRules false =
      DomainFilter.customRulesLoop fqdn reqCtx.customRules false := by
    intro fqdn
    rw [customRulesLoop_eq, customRulesLoop_eq]
    simp only [h.rules]
  rw [DomainFilter.filterCustomRules, DomainFilter.filterCustomRules, hloop]

theorem denotes_same (h : SameRequest reqCtx reqCtx') (s : Service) :
    cat.Denotes reqCtx'.blockedServices s ↔ cat.Denotes reqCtx.blockedServices s := by
  simp only [Catalog.Denotes, h.services]

theorem serviceDomainsLoop_congr {m m' : List (String × String)} (h : ∀ d, m.lookup d = m'.lookup d)
    (parts : List String) :
    DomainFilter.serviceDomainsLoop m parts = DomainFilter.serviceDomainsLoop m' parts := by
  induction parts with
  | nil => rfl
  | cons label parts ih =>
    rw [DomainFilter.serviceDomainsLoop, DomainFilter.serviceDomainsLoop, h, ih]

theorem filterServiceDomains_same (hcat : Validated f.servicesCatalog)
    (h : SameRequest reqCtx reqCtx') :
    f.filterServiceDomains reqCtx' dctx = f.filterServiceDomains reqCtx dctx := by
  unfold DomainFilter.filterServiceDomains
  cases hload : loadedCatalog f.servicesCatalog with
  | none => rfl
  | some cat =>
    have hvalid := valid_of_validate (hcat cat hload)
    have hlookup : ∀ d, (cat.domainMapForServiceIDs reqCtx'.blockedServices).lookup d =
        (cat.domainMapForServiceIDs reqCtx.blockedServices).lookup d := by
      intro d
      apply Option.ext
      intro v
      rw [lookup_domainMap hvalid, lookup_domainMap hvalid]
      simp only [denotes_same h]
    dsimp only
    rw [serviceDomainsLoop_congr hlookup]

theorem applyDefaultRule_same (h : SameRequest reqCtx reqCtx') :
    DomainFilter.applyDefaultRule reqCtx' = DomainFilter.applyDefaultRule reqCtx := by
  rw [DomainFilter.applyDefaultRule, DomainFilter.applyDefaultRule, h.privacy]

theorem filterBlocklists_same (h : SameRequest reqCtx reqCtx')
    (hlists : reqCtx'.blocklists = reqCtx.blocklists) :
    f.filterBlocklists reqCtx' dctx = f.filterBlocklists reqCtx dctx := by
  rw [DomainFilter.filterBlocklists, DomainFilter.filterBlocklists,
    matchDomainAgainstBlocklists_only f.cache h.privacy, hlists]

theorem reached_same {asnOf : IP → Except StageError ℕ} {answer answer' : List RR}
    (h : ∀ rr, rr ∈ answer' ↔ rr ∈ answer) (s : Service) :
    Reached asnOf answer' s ↔ Reached asnOf answer s := by
  simp only [Reached, h]

theorem extractIPs_same {answer answer' : List RR}
    (h : ∀ rr, rr ∈ answer' ↔ rr ∈ answer) (ip : IP) :
    ip ∈ extractIPsFromAnswer answer' ↔ ip ∈ extractIPsFromAnswer answer := by
  simp only [mem_extractIPsFromAnswer, h]

theorem any_same {α : Type} {l l' : List α} (h : ∀ x, x ∈ l' ↔ x ∈ l) (p : α → Bool) :
    l'.any p = l.any p := by
  rw [Bool.eq_iff_iff, List.any_eq_true, List.any_eq_true]
  simp only [h]

theorem filterServices_same (hcat : Validated g.servicesCatalog) (h : SameRequest reqCtx reqCtx')
    (ha : SameAnswer dctx.res dctx'.res) (order : MapOrder) :
    SameReturn P (g.filterServices reqCtx dctx)
    ({ g with mapOrder := order }.filterServices reqCtx' dctx') := by
  unfold IPFilter.filterServices
  dsimp only
  cases hload : loadedCatalog g.servicesCatalog with
  | none => exact .rfl
  | some cat =>
    cases hasn : g.asnLookup with
    | none => exact .rfl
    | some asnOf =>
      cases hres : dctx.res with
      | none =>
        cases hres' : dctx'.res with
        | none => exact .rfl
        | some res' =>
          rw [hres, hres'] at ha
          exact ha.elim
      | some res =>
        cases hres' : dctx'.res with
        | none =>
          rw [hres, hres'] at ha
          exact ha.elim
        | some res' =>
          rw [hres, hres'] at ha
          have hvalid := valid_of_validate (hcat cat hload)
          -- the services matched depend on the set of addresses, not on their order
          have hmem : ∀ id,
              id ∈ IPFilter.matchedServices asnOf (IPFilter.blockedSvcs cat reqCtx'.blockedServices)
                (extractIPsFromAnswer res'.answer) ↔
              id ∈ IPFilter.matchedServices asnOf (IPFilter.blockedSvcs cat reqCtx.blockedServices)
                (extractIPsFromAnswer res.answer) := by
            intro id
            rw [mem_matched hvalid, mem_matched hvalid]
            simp only [denotes_same h, reached_same ha]
          dsimp only
          generalize IPFilter.matchedServices asnOf
            (IPFilter.blockedSvcs cat reqCtx'.blockedServices) _ = ids' at hmem ⊢
          generalize IPFilter.matchedServices asnOf
            (IPFilter.blockedSvcs cat reqCtx.blockedServices) _ = ids at hmem ⊢
          have hempty : ids'.isEmpty = ids.isEmpty := by
            rw [Bool.eq_iff_iff, List.isEmpty_iff, List.isEmpty_iff, List.eq_nil_iff_forall_not_mem,
              List.eq_nil_iff_forall_not_mem]
            simp only [hmem]
          rw [hempty]
          split
          · exact .rfl
          · refine ⟨rfl, rfl, fun x _ => ?_⟩
            simp only [List.mem_cons, List.mem_map, MapOrder.mem_order, hmem]

theorem filterRebinding_same (h : SameRequest reqCtx reqCtx') (hq : dctx'.question = dctx.question)
    (ha : SameAnswer dctx.res dctx'.res) (order : MapOrder) :
    SameReturn P (g.filterRebinding reqCtx dctx)
    ({ g with mapOrder := order }.filterRebinding reqCtx' dctx') := by
  apply SameReturn.of_eq
  unfold IPFilter.filterRebinding
  rw [h.rebinding, hq]
  cases hres : dctx.res <;> cases hres' : dctx'.res <;> rewrite [hres, hres'] at ha
  · rfl
  · exact ha.elim
  · exact ha.elim
  · dsimp only
    cases g.rebindingConfig with
    | none => rfl
    | some cfg =>
      dsimp only
      rw [any_same (extractIPs_same ha)]

theorem mem_ruleMatches_same {ips ips' : List IP} (h : ∀ ip, ip ∈ ips' ↔ ip ∈ ips)
    (order : MapOrder) (hash : Hash) (x : Bool × Bool) :
    x ∈ { g with mapOrder := order }.ruleMatches ips' hash ↔ x ∈ g.ruleMatches ips hash := by
  unfold IPFilter.ruleMatches
  dsimp only
  split
  · rfl
  split
  · simp only [List.mem_map, h]
  split
  · split
    · simp only [List.mem_map, h]
    · rfl
  · rfl

theorem ipCustomRules_same (h : SameRequest reqCtx reqCtx') (ha : SameAnswer dctx.res dctx'.res)
    (order : MapOrder) :
    SameReturn P (g.filterCustomRules reqCtx dctx)
    ({ g with mapOrder := order }.filterCustomRules reqCtx' dctx') := by
  apply SameReturn.of_eq
  unfold IPFilter.filterCustomRules
  cases hres : dctx.res <;> cases hres' : dctx'.res <;> rewrite [hres, hres'] at ha
  · rfl
  · exact ha.elim
  · exact ha.elim
  · next res res' =>
    dsimp only
    have hmatched : ∀ x, x ∈ reqCtx'.customRules.flatMap
        ({ g with mapOrder := order }.ruleMatches (extractIPsFromAnswer res'.answer)) ↔
        x ∈ reqCtx.customRules.flatMap (g.ruleMatches (extractIPsFromAnswer res.answer)) := by
      intro x
      simp only [List.mem_flatMap, h.rules, mem_ruleMatches_same (extractIPs_same ha)]
    rw [any_same hmatched, any_same hmatched]

/-- Only the CNAME records of an answer give targets. -/
theorem extractCNAMETargets_filter (answer : List RR) (qname : String) :
    extractCNAMETargets (answer.filter RR.isCNAME) qname = extractCNAMETargets answer qname := by
  unfold extractCNAMETargets
  dsimp only
  rw [List.foldl_filter]
  congr 1
  funext targets rr
  cases rr <;> rfl

theorem cnameBlocklistsLoop_same (h : SameRequest reqCtx reqCtx')
    (hlists : reqCtx'.blocklists = reqCtx.blocklists) (order : MapOrder) (targets : List String) :
    { g with mapOrder := order }.cnameBlocklistsLoop reqCtx' targets =
    g.cnameBlocklistsLoop reqCtx targets := by
  induction targets with
  | nil => rfl
  | cons target targets ih =>
    rw [IPFilter.cnameBlocklistsLoop, IPFilter.cnameBlocklistsLoop, ih, hlists,
      matchDomainAgainstBlocklists_only g.cache h.privacy]

/-- The actions of the rules that match a target. -/
def targetActions (rules : List Hash) (targets : List String) : List String :=
  rules.flatMap fun hash => targets.flatMap fun target =>
    if matchDomainPattern target (mapGet hash "value") then [mapGet hash "action"] else []

/-- The stage on the targets of an answer. -/
def IPFilter.uncloak (g : IPFilter) (reqCtx : RequestContext) (targets : List String) :
    Except StageError StageResult :=
  if actionAllow ∈ targetActions reqCtx.customRules targets then
    .ok ⟨.allow, tierCustomRules, [FilterReasons.customRules, FilterReasons.cnameUncloaking]⟩
  else if actionBlock ∈ targetActions reqCtx.customRules targets then
    .ok ⟨.block, tierCustomRules, [FilterReasons.customRules, FilterReasons.cnameUncloaking]⟩
  else g.cnameBlocklistsLoop reqCtx targets

theorem filterCNAME_uncloak (g : IPFilter) (reqCtx : RequestContext) (dctx : DNSContext) :
    g.filterCNAME reqCtx dctx =
      match dctx.res with
      | none => .ok ⟨.none, tierBlocklists, []⟩
      | some res =>
        if g.cnameUncloakingEnabled = some false then .ok ⟨.none, tierBlocklists, []⟩
        else g.uncloak reqCtx (extractCNAMETargets res.answer dctx.question.name) := by
  unfold IPFilter.filterCNAME
  cases dctx.res with
  | none =>
    split <;> first | rfl | contradiction
  | some res =>
    split
    · next hoff => exact (if_pos hoff).symm
    · next hnone _ => cases hnone
    · next hsome hon =>
      obtain rfl := Option.some.inj hsome
      exact (if_neg hon).symm

theorem mem_targetActions_same (h : SameRequest reqCtx reqCtx') {targets targets' : List String}
    (ht : ∀ t, t ∈ targets' ↔ t ∈ targets) (action : String) :
    action ∈ targetActions reqCtx'.customRules targets' ↔
    action ∈ targetActions reqCtx.customRules targets := by
  simp only [targetActions, List.mem_flatMap, h.rules, ht]

/-- The stage sees the answers through their targets only. -/
theorem filterCNAME_of_targets (order : MapOrder) (hq : dctx'.question = dctx.question)
    (ha : SameAnswer dctx.res dctx'.res)
    (huncloak : ∀ res res', dctx.res = some res → dctx'.res = some res' →
      SameReturn P (g.uncloak reqCtx (extractCNAMETargets res.answer dctx.question.name))
        ({ g with mapOrder := order }.uncloak reqCtx'
          (extractCNAMETargets res'.answer dctx.question.name))) :
    SameReturn P (g.filterCNAME reqCtx dctx)
    ({ g with mapOrder := order }.filterCNAME reqCtx' dctx') := by
  rw [filterCNAME_uncloak, filterCNAME_uncloak, hq]
  cases hres : dctx.res with
  | none =>
    cases hres' : dctx'.res with
    | none => exact .rfl
    | some res' =>
      rw [hres, hres'] at ha
      exact ha.elim
  | some res =>
    cases hres' : dctx'.res with
    | none =>
      rw [hres, hres'] at ha
      exact ha.elim
    | some res' =>
      dsimp only
      split
      · exact .rfl
      · exact huncloak res res' hres hres'

theorem filterCNAME_same (h : SameRequest reqCtx reqCtx')
    (hlists : reqCtx'.blocklists = reqCtx.blocklists) (hq : dctx'.question = dctx.question)
    (ha : SameAnswer dctx.res dctx'.res) (hc : SameCNAMEs dctx.res dctx'.res) (order : MapOrder) :
    SameReturn P (g.filterCNAME reqCtx dctx)
    ({ g with mapOrder := order }.filterCNAME reqCtx' dctx') := by
  apply filterCNAME_of_targets order hq ha
  intro res res' hres hres'
  rw [hres, hres'] at hc
  have htargets : extractCNAMETargets res'.answer dctx.question.name =
      extractCNAMETargets res.answer dctx.question.name := by
    rw [← extractCNAMETargets_filter res'.answer, ← extractCNAMETargets_filter res.answer,
      show _ = _ from hc]
  apply SameReturn.of_eq
  rw [IPFilter.uncloak, IPFilter.uncloak, htargets, cnameBlocklistsLoop_same h hlists]
  simp only [mem_targetActions_same h fun _ => Iff.rfl]

/-! ### Lists and targets in any order -/

/-- A reason that is not about which list matched. -/
def NotListed (x : String) : Prop :=
  ¬ hasPrefix x FilterReasons.blocklistPrefix = true ∧ x ≠ FilterReasons.blocklistsSubdomains

theorem not_mem_reasons {m : BlocklistMatch} {x : String} (hx : NotListed x) : x ∉ m.reasons := by
  intro hin
  rw [BlocklistMatch.reasons, List.mem_cons] at hin
  rcases hin with rfl | hin
  · exact hx.1 (hasPrefix_iff.2 (by rw [String.toList_append]; exact List.prefix_append _ _))
  · split at hin
    · exact hx.2 (List.mem_singleton.1 hin)
    · cases hin

theorem blocks_same (h : SameRequest reqCtx reqCtx') (id name : String) :
    ls.Blocks reqCtx' id name ↔ ls.Blocks reqCtx id name := by
  simp only [Lists.Blocks, Lists.Hits, SubdomainsBlocked, h.privacy]

/-- The lists find a match in any order of them. -/
theorem blocklists_same (ls : Lists) (h : SameRequest reqCtx reqCtx')
    (hlists : ∀ id, id ∈ reqCtx'.blocklists ↔ id ∈ reqCtx.blocklists) (name : String) :
    ∃ found found', matchDomainAgainstBlocklists ls.store reqCtx reqCtx.blocklists name =
    .ok found ∧
      matchDomainAgainstBlocklists ls.store reqCtx' reqCtx'.blocklists name = .ok found' ∧
      (found = none ↔ found' = none) := by
  obtain ⟨found, hfound, hnone, -⟩ :=
    matchDomainAgainstBlocklists_eq ls reqCtx reqCtx.blocklists name
  obtain ⟨found', hfound', hnone', -⟩ :=
    matchDomainAgainstBlocklists_eq ls reqCtx' reqCtx'.blocklists name
  refine ⟨found, found', hfound, hfound', ?_⟩
  rw [hnone, hnone']
  simp only [hlists, blocks_same h]

theorem filterBlocklists_any (hcache : f.cache = ls.store) (h : SameRequest reqCtx reqCtx')
    (hlists : ∀ id, id ∈ reqCtx'.blocklists ↔ id ∈ reqCtx.blocklists) :
    SameReturn NotListed (f.filterBlocklists reqCtx dctx) (f.filterBlocklists reqCtx' dctx) := by
  obtain ⟨found, found', hfound, hfound', hnone⟩ :=
    blocklists_same ls h hlists (toLower (trimSuffix dctx.question.name "."))
  rw [DomainFilter.filterBlocklists, DomainFilter.filterBlocklists, hcache, hfound, hfound']
  cases found with
  | none =>
    obtain rfl := hnone.1 rfl
    exact .rfl
  | some m =>
    cases found' with
    | none => cases hnone.2 rfl
    | some m' =>
      exact ⟨rfl, rfl, fun x hx => iff_of_false (not_mem_reasons hx) (not_mem_reasons hx)⟩

/-- What the loop over the targets comes to, up to the list that it names. -/
theorem cnameBlocklistsLoop_reasons (reqCtx : RequestContext) (hcache : g.cache = ls.store)
    (targets : List String) :
    ∃ r, g.cnameBlocklistsLoop reqCtx targets = .ok r ∧
      (TargetListed ls.store reqCtx (· ∈ targets) →
        r.Same NotListed ⟨.block, tierBlocklists, [FilterReasons.cnameUncloaking]⟩) ∧
      (¬ TargetListed ls.store reqCtx (· ∈ targets) → r = ⟨.none, tierBlocklists, []⟩) := by
  induction targets with
  | nil => exact ⟨_, rfl, fun ⟨_, _, ht, _⟩ => (List.not_mem_nil ht).elim, fun _ => rfl⟩
  | cons target targets ih =>
    obtain ⟨r, hr, hlisted, hnone⟩ := ih
    obtain ⟨found, hfound, -⟩ := matchDomainAgainstBlocklists_eq ls reqCtx reqCtx.blocklists target
    have hcons : TargetListed ls.store reqCtx (· ∈ target :: targets) ↔
        (∃ m, found = some m) ∨ TargetListed ls.store reqCtx (· ∈ targets) :=
      targetListed_cons hfound
    rw [IPFilter.cnameBlocklistsLoop, hcache, hfound]
    cases found with
    | none =>
      have hiff : TargetListed ls.store reqCtx (· ∈ target :: targets) ↔
          TargetListed ls.store reqCtx (· ∈ targets) := by
        simpa using hcons
      rw [hiff]
      exact ⟨r, hr, hlisted, hnone⟩
    | some m =>
      refine ⟨_, rfl, fun _ => ⟨rfl, rfl, fun x hx => ?_⟩,
        fun hno => absurd (hcons.2 (.inl ⟨m, rfl⟩)) hno⟩
      rw [List.mem_append]
      exact or_iff_right (not_mem_reasons hx)

theorem filterCNAME_any (hcache : g.cache = ls.store) (h : SameRequest reqCtx reqCtx')
    (hlists : ∀ id, id ∈ reqCtx'.blocklists ↔ id ∈ reqCtx.blocklists)
    (hq : dctx'.question = dctx.question)
    (ha : SameAnswer dctx.res dctx'.res) (order : MapOrder) :
    SameReturn NotListed (g.filterCNAME reqCtx dctx)
    ({ g with mapOrder := order }.filterCNAME reqCtx' dctx') := by
  apply filterCNAME_of_targets order hq ha
  intro res res' hres hres'
  rw [hres, hres'] at ha
  have htargets : ∀ t, t ∈ extractCNAMETargets res'.answer dctx.question.name ↔
      t ∈ extractCNAMETargets res.answer dctx.question.name := by
    intro t
    rw [mem_extractCNAMETargets, mem_extractCNAMETargets, isTarget_congr ha]
  generalize extractCNAMETargets res'.answer dctx.question.name = targets' at htargets ⊢
  generalize extractCNAMETargets res.answer dctx.question.name = targets at htargets ⊢
  have hfound : ∀ t, (∃ m, matchDomainAgainstBlocklists ls.store reqCtx' reqCtx'.blocklists t =
    .ok (some m)) ↔
      ∃ m, matchDomainAgainstBlocklists ls.store reqCtx reqCtx.blocklists t = .ok (some m) := by
    intro t
    obtain ⟨found, found', hfound, hfound', hnone⟩ := blocklists_same ls h hlists t
    rw [hfound, hfound']
    cases found <;> cases found' <;> simp_all
  have hlisted : TargetListed ls.store reqCtx' (· ∈ targets') ↔
      TargetListed ls.store reqCtx (· ∈ targets) := by
    simp only [TargetListed, exists_and_left, hfound, htargets]
  obtain ⟨r, hr, hblock, hnone⟩ := cnameBlocklistsLoop_reasons (g := g) reqCtx hcache targets
  obtain ⟨r', hr', hblock', hnone'⟩ :=
    cnameBlocklistsLoop_reasons (g := { g with mapOrder := order }) reqCtx' hcache targets'
  rw [IPFilter.uncloak, IPFilter.uncloak]
  simp only [mem_targetActions_same h htargets]
  split
  · exact .rfl
  split
  · exact .rfl
  rw [hr, hr']
  by_cases hl : TargetListed ls.store reqCtx (· ∈ targets)
  · exact (hblock hl).trans (hblock' (hlisted.2 hl)).symm
  · rw [hnone hl, hnone' fun hl' => hl (hlisted.1 hl')]
    exact .rfl

end Stages

section Verdicts

variable {P : String → Prop} {f : DomainFilter} {g : IPFilter} {reqCtx reqCtx' : RequestContext}
  {dctx dctx' : DNSContext}

/-- The domain phase, apart from its lists. -/
theorem domainPhase_same (hcat : Validated f.servicesCatalog) (h : SameRequest reqCtx reqCtx')
    (hlists : SameReturn P (f.filterBlocklists reqCtx dctx) (f.filterBlocklists reqCtx' dctx)) :
    SamePhase P f.filter.stages f.filter.stages reqCtx reqCtx' dctx dctx :=
  .cons ⟨_, _, rfl, rfl, hlists⟩
    (.cons ⟨_, _, rfl, rfl, .of_eq (filterCustomRules_same h).symm⟩
      (.cons ⟨_, _, rfl, rfl, .of_eq (filterServiceDomains_same hcat h).symm⟩
        (.cons ⟨_, _, rfl, rfl, .of_eq (applyDefaultRule_same h).symm⟩ .nil)))

/-- The IP phase, apart from the CNAME targets. -/
theorem ipPhase_same (hcat : Validated g.servicesCatalog) (h : SameRequest reqCtx reqCtx')
    (hq : dctx'.question = dctx.question) (ha : SameAnswer dctx.res dctx'.res) (order : MapOrder)
    (hcname : SameReturn P (g.filterCNAME reqCtx dctx)
      ({ g with mapOrder := order }.filterCNAME reqCtx' dctx')) :
    SamePhase P g.filter.stages { g with mapOrder := order }.filter.stages reqCtx
    reqCtx' dctx dctx' :=
  .cons ⟨_, _, rfl, rfl, filterServices_same hcat h ha order⟩
    (.cons ⟨_, _, rfl, rfl, filterRebinding_same h hq ha order⟩
      (.cons ⟨_, _, rfl, rfl, ipCustomRules_same h ha order⟩ (.cons ⟨_, _, rfl, rfl, hcname⟩ .nil)))

theorem SameRequest.ipInput {s s' : Server} (h : SameRequest reqCtx reqCtx') :
    SameRequest (s.ipInput reqCtx dctx).1 (s'.ipInput reqCtx' dctx).1 :=
  ⟨h.privacy, h.rebinding, h.rules, h.services⟩

variable (dnsCheckDomain : String) (domainFilter : DomainFilter) (ipFilter : IPFilter)
  (resolve resolve' : DNSContext → Option Msg × Option String)
  (exchange : String → ℕ → String → Option Msg) (order : MapOrder) (profileId : String)
  (settings : ProfileSettings)

/-- The two requests at the two servers. -/
theorem handleRequest_filters (hcat : Validated domainFilter.servicesCatalog)
    (hcat' : Validated ipFilter.servicesCatalog) (h : SameRequest reqCtx reqCtx')
    (hfr : reqCtx.filterResult = reqCtx'.filterResult)
    (hp : reqCtx.partialFilteringResults = reqCtx'.partialFilteringResults)
    (hanswer : SameAnswer (resolve dctx).1 (resolve' dctx).1)
    (hlists : SameReturn P (domainFilter.filterBlocklists reqCtx dctx)
      (domainFilter.filterBlocklists reqCtx' dctx))
    (hcname : ∀ ipCtx ipCtx', SameRequest ipCtx ipCtx' → ipCtx.blocklists = reqCtx.blocklists →
      ipCtx'.blocklists = reqCtx'.blocklists →
      SameReturn P (ipFilter.filterCNAME ipCtx { dctx with res := (resolve dctx).1 })
        ({ ipFilter with mapOrder := order }.filterCNAME ipCtx'
          { dctx with res := (resolve' dctx).1 })) :
    FilterResult.Same P
      ((Server.new dnsCheckDomain domainFilter ipFilter resolve exchange).handleRequest reqCtx
        dctx).reqCtx.filterResult
      ((Server.new dnsCheckDomain domainFilter
        { ipFilter with mapOrder := order } resolve' exchange).handleRequest
        reqCtx' dctx).reqCtx.filterResult :=
  handleRequest_same rfl hfr hp (domainPhase_same hcat h hlists)
    (ipPhase_same hcat' h.ipInput (by rfl) hanswer order (hcname _ _ h.ipInput rfl rfl))

/-- **The verdict does not show the order of delivery.** The rules and the blocked services of the
profile come in another order, the map is ranged over in another order, and the answer holds its
records in another one, except that the CNAME records keep theirs. -/
theorem verdict_order (hcat : Validated domainFilter.servicesCatalog)
    (hcat' : Validated ipFilter.servicesCatalog) {rules : List Hash} {services : List String}
    (hrules : rules.Perm settings.customRules) (hservices : services.Perm settings.services)
    (dctx : DNSContext) (hanswer : SameAnswer (resolve dctx).1 (resolve' dctx).1)
    (hcnames : SameCNAMEs (resolve dctx).1 (resolve' dctx).1) :
    ((Server.new dnsCheckDomain domainFilter ipFilter resolve exchange).handleRequest
        (newRequestContext profileId settings) dctx).reqCtx.filterResult =
      ((Server.new dnsCheckDomain domainFilter
        { ipFilter with mapOrder := order } resolve' exchange).handleRequest
        (newRequestContext profileId { settings with customRules := rules, services := services })
        dctx).reqCtx.filterResult := by
  have h : SameRequest (newRequestContext profileId settings)
      (newRequestContext profileId { settings with customRules := rules, services := services }) :=
    ⟨rfl, rfl, fun hash => hrules.mem_iff, fun id => hservices.mem_iff⟩
  have hsame :=
    handleRequest_filters (P := fun _ => True) dnsCheckDomain domainFilter ipFilter resolve
      resolve' exchange
    order hcat hcat' h rfl rfl hanswer (.of_eq (filterBlocklists_same h rfl).symm)
    fun _ _ hip hlists hlists' =>
    filterCNAME_same hip (hlists'.trans hlists.symm) (by rfl) hanswer hcnames order
  exact hsame.eq (handleRequest_sorted List.Pairwise.nil) (handleRequest_sorted List.Pairwise.nil)

/-- **With a store that answers, nothing has to keep its order.** Only which list is named may
differ. -/
theorem verdict_any_order {ls : Lists} (hcache : domainFilter.cache = ls.store)
    (hcache' : ipFilter.cache = ls.store) (hcat : Validated domainFilter.servicesCatalog)
    (hcat' : Validated ipFilter.servicesCatalog) {rules : List Hash}
    {services blocklists : List String} (hrules : rules.Perm settings.customRules)
    (hservices : services.Perm settings.services) (hlists : blocklists.Perm settings.blocklists)
    (dctx : DNSContext) (hanswer : SameAnswer (resolve dctx).1 (resolve' dctx).1) :
    FilterResult.Same NotListed
      ((Server.new dnsCheckDomain domainFilter ipFilter resolve exchange).handleRequest
        (newRequestContext profileId settings) dctx).reqCtx.filterResult
      ((Server.new dnsCheckDomain domainFilter
        { ipFilter with mapOrder := order } resolve' exchange).handleRequest
        (newRequestContext profileId
          { settings with customRules := rules, services := services, blocklists := blocklists })
            dctx).reqCtx.filterResult := by
  have h : SameRequest (newRequestContext profileId settings)
      (newRequestContext profileId
        { settings with customRules := rules, services := services, blocklists := blocklists }) :=
    ⟨rfl, rfl, fun hash => hrules.mem_iff, fun id => hservices.mem_iff⟩
  have hl : ∀ id, id ∈ blocklists ↔ id ∈ settings.blocklists := fun id => hlists.mem_iff
  -- the two list stages are the ones that could depend on the order
  apply handleRequest_filters dnsCheckDomain domainFilter ipFilter resolve resolve' exchange order
    hcat hcat' h rfl rfl
    hanswer (filterBlocklists_any hcache h hl)
  intro ipCtx ipCtx' hip hctx hctx'
  have hip' : ∀ id, id ∈ ipCtx'.blocklists ↔ id ∈ ipCtx.blocklists := by
    rw [hctx, hctx']
    exact hl
  exact filterCNAME_any hcache' hip hip' (by rfl) hanswer order

end Verdicts

section Examples

/-- Two lists, each with one name. -/
def twoLists : Lists :=
  ⟨fun id d => (id = "ads" ∧ d = "ads.example") ∨ (id = "spy" ∧ d = "spy.example"),
    fun _ _ => false⟩

def officeDomains : DomainFilter := ⟨twoLists.store, some (.ok (some officeCatalog))⟩

def officeAnswers : IPFilter where
  cache := twoLists.store
  servicesCatalog := some (.ok (some officeCatalog))
  asnLookup := some fun ip => .ok (if ip = [192, 0, 2, 1] then 64500 else 64501)
  rebindingConfig := none
  cnameUncloakingEnabled := none
  mapOrder := ⟨id, List.Perm.refl⟩

/-- The map the other way round. -/
def backwards : MapOrder := ⟨List.reverse, List.reverse_perm⟩

def answering (answer : List RR) (dctx : DNSContext) : Option Msg × Option String :=
  (some { dctx.req.setReply with answer }, none)

def officeProfile : ProfileSettings :=
  { ProfileSettings.empty with
    blocklists := ["ads", "spy"]
    services := ["office", "mail"]
    customRules := [[("action", "block"), ("value", "a.test"), ("syntax", "domain")],
      [("action", "allow"), ("value", "b.test"), ("syntax", "domain")]] }

theorem validated_office : Validated (some (.ok (some officeCatalog))) := by
  intro cat hcat
  obtain rfl : officeCatalog = cat := Option.some.inj hcat
  decide +kernel

/-- An answer with an address of each service. -/
theorem verdict_order_office :
    ((Server.new "check.example" officeDomains officeAnswers
      (answering [.a [192, 0, 2, 1], .a [192, 0, 2, 2]])
        fun _ _ _ => none).handleRequest (newRequestContext "p" officeProfile)
          ⟨1, ⟨"c.test.", .a⟩, none⟩).reqCtx.filterResult =
      ((Server.new "check.example" officeDomains { officeAnswers with mapOrder := backwards }
        (answering [.a [192, 0, 2, 2], .a [192, 0, 2, 1]]) fun _ _ _ => none).handleRequest
        (newRequestContext "p"
          { officeProfile with
            customRules := officeProfile.customRules.reverse, services := ["mail", "office"] })
        ⟨1, ⟨"c.test.", .a⟩, none⟩).reqCtx.filterResult :=
  verdict_order _ _ _ _ _ _ _ _ _ validated_office validated_office (List.reverse_perm _)
  (.swap _ _ _) _
    (fun _ => by simp [or_comm]) rfl

/-- An answer with two targets, one in each list: the other order names the other list. -/
theorem verdict_any_order_office :
    FilterResult.Same NotListed
      ((Server.new "check.example" officeDomains officeAnswers
        (answering [.cname "ads.example.", .cname "spy.example."])
        fun _ _ _ => none).handleRequest (newRequestContext "p" officeProfile)
        ⟨1, ⟨"c.test.", .a⟩, none⟩).reqCtx.filterResult
      ((Server.new "check.example" officeDomains { officeAnswers with mapOrder := backwards }
        (answering [.cname "spy.example.", .cname "ads.example."]) fun _ _ _ => none).handleRequest
        (newRequestContext "p"
          { officeProfile with
            customRules := officeProfile.customRules.reverse, services :=
              ["mail", "office"], blocklists := ["spy", "ads"] })
        ⟨1, ⟨"c.test.", .a⟩, none⟩).reqCtx.filterResult :=
  verdict_any_order _ _ _ _ _ _ _ _ _ rfl rfl validated_office validated_office
  (List.reverse_perm _) (.swap _ _ _)
    (.swap _ _ _) _ fun _ => by simp [or_comm]

end Examples

end ModDNS.Proxy
