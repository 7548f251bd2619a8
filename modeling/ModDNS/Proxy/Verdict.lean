import ModDNS.Proxy.Handle

/-!
# The verdict of a query

What the aggregator computes, and from it the outcome of a whole request.

* `getFinalFilteringResult_spec`: any Allow wins, and the reasons are those of the
  winning action's highest tier.
* `verdict_law`: the outcome of `handleRequest`, over the results of both phases.
-/

namespace ModDNS.Proxy

open Go

section Aggregation

variable {results : List StageResult}

/-- Some result decides `d`. -/
def Decides (d : Decision) (results : List StageResult) : Prop := ∃ res ∈ results, res.decision = d

instance (d : Decision) (results : List StageResult) : Decidable (Decides d results) :=
  inferInstanceAs (Decidable (∃ res ∈ results, res.decision = d))

/-- The action that wins over the results. -/
def winning (results : List StageResult) : Decision :=
  if Decides .allow results then .allow else .block

/-- `res` decides `d` at the highest tier of all results that do. -/
def TopTier (d : Decision) (results : List StageResult) (res : StageResult) : Prop :=
  res ∈ results ∧ res.decision = d ∧ ∀ res' ∈ results, res'.decision = d → res'.tier ≤ res.tier

/-- The reported reasons: sorted, distinct, non-empty, and exactly those of the winning
action's results at its highest tier. -/
structure ReasonsLaw (results : List StageResult) (reasons : List String) : Prop where
  sorted : reasons.Pairwise (· < ·)
  mem : ∀ x, x ∈ reasons ↔ x ≠ "" ∧ ∃ res, TopTier (winning results) results res ∧ x ∈ res.reasons

theorem decides_append {d : Decision} {l l' : List StageResult} :
    Decides d (l ++ l') ↔ Decides d l ∨ Decides d l' := by
  simp only [Decides, List.mem_append, or_and_right, exists_or]

theorem dedupeAndSort_sorted (l : List String) : (dedupeAndSort l).Pairwise (· < ·) := by
  have hle : (dedupeAndSort l).Pairwise (· ≤ ·) := List.pairwise_insertionSort _ _
  have hnd : (dedupeAndSort l).Nodup :=
    (List.perm_insertionSort _ _).nodup_iff.2 (List.nodup_dedup _)
  exact (hle.and hnd).imp fun h => lt_of_le_of_ne h.1 h.2

theorem mem_dedupeAndSort {l : List String} {x : String} :
    x ∈ dedupeAndSort l ↔ x ≠ "" ∧ x ∈ l := by
  simp [dedupeAndSort, and_comm]

/-- What the best tier and its reasons say about the results of one action. -/
structure Best.Spec (b : Best) (l : List StageResult) : Prop where
  some_iff : b.tier.isSome ↔ l ≠ []
  reasons : ∀ x, x ∈ b.reasons ↔ ∃ res ∈ l, (∀ res' ∈ l, res'.tier ≤ res.tier) ∧ x ∈ res.reasons
  max : ∀ t ∈ b.tier, (∃ res ∈ l, res.tier = t) ∧ ∀ res ∈ l, res.tier ≤ t

section Add

variable {b : Best} {l : List StageResult} {res : StageResult} {t : ℕ}

theorem tiers_append (hl : ∀ r ∈ l, r.tier ≤ t) (hres : res.tier ≤ t) :
    ∀ r ∈ l ++ [res], r.tier ≤ t := by
  intro r hr
  rcases List.mem_append.1 hr with hr | hr
  · exact hl r hr
  · rw [List.mem_singleton.1 hr]
    exact hres

/-- A new highest tier: only the new result stands. -/
theorem spec_higher (hlt : ∀ r ∈ l, r.tier < res.tier) :
    (⟨some res.tier, res.reasons⟩ : Best).Spec (l ++ [res]) := by
  have hall : ∀ r ∈ l ++ [res], r.tier ≤ res.tier := tiers_append (fun r hr => (hlt r hr).le) le_rfl
  refine ⟨by simp, fun x => ⟨fun hx => ⟨res, by simp, hall, hx⟩, ?_⟩, ?_⟩
  · rintro ⟨r, hr, htier, hx⟩
    rcases List.mem_append.1 hr with hr | hr
    · have htop := htier res (by simp)
      have hbelow := hlt r hr
      omega
    · rwa [List.mem_singleton.1 hr] at hx
  · rintro t ⟨⟩
    exact ⟨⟨res, by simp, rfl⟩, hall⟩

/-- The same tier: its reasons are added. -/
theorem Best.Spec.same (hb : b.Spec l) {top : StageResult} (htop : top ∈ l)
    (hmax : ∀ r ∈ l, r.tier ≤ top.tier) (heq : top.tier = res.tier) :
    (⟨some top.tier, b.reasons ++ res.reasons⟩ : Best).Spec (l ++ [res]) := by
  have hall : ∀ r ∈ l ++ [res], r.tier ≤ top.tier := tiers_append hmax heq.ge
  refine ⟨by simp, fun x => ?_, ?_⟩
  · rw [List.mem_append, hb.reasons]
    constructor
    · rintro (⟨r, hr, htier, hx⟩ | hx)
      · refine ⟨r, by simp [hr], fun r' hr' => ?_, hx⟩
        have hle := hall r' hr'
        have hge := htier top htop
        omega
      · exact ⟨res, by simp, fun r' hr' => heq ▸ hall r' hr', hx⟩
    · rintro ⟨r, hr, htier, hx⟩
      rcases List.mem_append.1 hr with hr | hr
      · exact .inl ⟨r, hr, fun r' hr' => htier r' (by simp [hr']), hx⟩
      · rw [List.mem_singleton.1 hr] at hx
        exact .inr hx
  · rintro t ⟨⟩
    exact ⟨⟨top, by simp [htop], rfl⟩, hall⟩

/-- A lower tier: nothing changes. -/
theorem Best.Spec.lower (hb : b.Spec l) {top : StageResult} (htop : top ∈ l)
    (hmax : ∀ r ∈ l, r.tier ≤ top.tier) (ht : b.tier = some top.tier) (hgt : res.tier < top.tier) :
    b.Spec (l ++ [res]) := by
  refine ⟨by simp [ht], fun x => ?_, ?_⟩
  · rw [hb.reasons]
    constructor
    · rintro ⟨r, hr, htier, hx⟩
      have hge := htier top htop
      exact ⟨r, by simp [hr], tiers_append htier (by omega), hx⟩
    · rintro ⟨r, hr, htier, hx⟩
      rcases List.mem_append.1 hr with hr | hr
      · exact ⟨r, hr, fun r' hr' => htier r' (by simp [hr']), hx⟩
      · have hge := htier top (by simp [htop])
        rw [List.mem_singleton.1 hr] at hge
        omega
  · intro t' ht'
    obtain rfl : top.tier = t' := by simpa [ht] using ht'
    exact ⟨⟨top, by simp [htop], rfl⟩, tiers_append hmax hgt.le⟩

/-- **One more result** of the action. -/
theorem Best.Spec.add (hb : b.Spec l) (res : StageResult) : (b.add res).Spec (l ++ [res]) := by
  cases ht : b.tier with
  | none =>
    have hl : l = [] := by
      by_contra hl
      have := hb.some_iff.2 hl
      simp [ht] at this
    have hadd : b.add res = ⟨some res.tier, res.reasons⟩ := by simp [Best.add, ht]
    rw [hadd, hl]
    exact spec_higher (List.forall_mem_nil _)
  | some t =>
    obtain ⟨⟨top, htop, rfl⟩, hmax⟩ := hb.max t ht
    rcases lt_trichotomy top.tier res.tier with hlt | heq | hgt
    · have hadd : b.add res = ⟨some res.tier, res.reasons⟩ := by simp [Best.add, ht, hlt]
      rw [hadd]
      exact spec_higher fun r hr => lt_of_le_of_lt (hmax r hr) hlt
    · have hadd : b.add res = ⟨some top.tier, b.reasons ++ res.reasons⟩ := by
        simp [Best.add, ht, heq]
      rw [hadd]
      exact hb.same htop hmax heq
    · have hadd : b.add res = b := by
        have h1 : ¬ top.tier < res.tier := by omega
        have h2 : ¬ res.tier = top.tier := by omega
        simp [Best.add, ht, h1, h2]
      rw [hadd]
      exact hb.lower htop hmax ht hgt

end Add

/-- The results that decide `d`. -/
def deciding (d : Decision) (results : List StageResult) : List StageResult :=
  results.filter (·.decision = d)

theorem mem_deciding {d : Decision} {res : StageResult} :
    res ∈ deciding d results ↔ res ∈ results ∧ res.decision = d := by simp [deciding]

theorem deciding_ne_nil {d : Decision} : deciding d results ≠ [] ↔ Decides d results := by
  simp [deciding, Decides]

theorem aggregate_concat (l : List StageResult) (res : StageResult) :
    aggregate (l ++ [res]) = match res.decision with
      | .allow => ((aggregate l).1.add res, (aggregate l).2)
      | .block => ((aggregate l).1, (aggregate l).2.add res)
      | .none => aggregate l := by
  cases hres : res.decision <;> simp [aggregate, List.foldl_append, hres]

/-- The loop keeps the best Allow and the best Block apart. -/
theorem aggregate_spec (results : List StageResult) :
    (aggregate results).1.Spec (deciding .allow results) ∧
      (aggregate results).2.Spec (deciding .block results) := by
  induction results using List.reverseRecOn with
  | nil => constructor <;> constructor <;> simp [aggregate, deciding]
  | append_singleton l res ih =>
    rw [aggregate_concat]
    cases hd : res.decision <;> simp only [deciding, List.filter_append,
      List.filter_singleton, hd] <;>
      simp only [decide_true, decide_false, reduceCtorEq, cond_true, cond_false, List.append_nil]
    · exact ih
    · exact ⟨ih.1.add res, ih.2⟩
    · exact ⟨ih.1, ih.2.add res⟩

theorem TopTier.iff_deciding {d : Decision} {res : StageResult} :
    TopTier d results res ↔
      res ∈ deciding d results ∧ ∀ res' ∈ deciding d results, res'.tier ≤ res.tier := by
  simp only [TopTier, mem_deciding, and_imp, and_assoc]

/-- The reasons of the winning action's best are lawful. -/
theorem reasonsLaw_of_spec {b : Best} (hb : b.Spec (deciding (winning results) results)) :
    ReasonsLaw results (dedupeAndSort b.reasons) := by
  refine ⟨dedupeAndSort_sorted _, fun x => ?_⟩
  rw [mem_dedupeAndSort, hb.reasons]
  simp only [TopTier.iff_deciding, and_assoc]

/-- **The aggregator.** Any Allow wins over every Block, and the reasons are those of
the winning action at its highest tier. -/
theorem getFinalFilteringResult_spec (results : List StageResult) :
    (getFinalFilteringResult results).status =
        (if Decides .block results ∧ ¬ Decides .allow results then .blocked else .processed) ∧
      ReasonsLaw results (getFinalFilteringResult results).reasons := by
  obtain ⟨ha, hb⟩ := aggregate_spec results
  by_cases hallow : Decides .allow results
  · have h1 : (aggregate results).1.tier.isSome := ha.some_iff.2 (deciding_ne_nil.2 hallow)
    have hw : winning results = .allow := if_pos hallow
    simp only [getFinalFilteringResult, h1, if_true, hallow, not_true, and_false,
      if_false, true_and]
    exact reasonsLaw_of_spec (hw ▸ ha)
  · have h1 : (aggregate results).1.tier.isSome = false := by
      rw [← Bool.not_eq_true, ha.some_iff, deciding_ne_nil]; exact hallow
    have hw : winning results = .block := if_neg hallow
    by_cases hblock : Decides .block results
    · have h2 : (aggregate results).2.tier.isSome := hb.some_iff.2 (deciding_ne_nil.2 hblock)
      simp only [getFinalFilteringResult, h1, h2, hallow, hblock, if_true,
        not_false_eq_true, and_self,
        Bool.false_eq_true, if_false, true_and]
      exact reasonsLaw_of_spec (hw ▸ hb)
    · have h2 : (aggregate results).2.tier.isSome = false := by
        rw [← Bool.not_eq_true, hb.some_iff, deciding_ne_nil]; exact hblock
      simp only [getFinalFilteringResult, h1, h2, hblock, Bool.false_eq_true, if_false,
        false_and, true_and]
      refine ⟨by simp, fun x => ?_⟩
      have hnone : ∀ res, ¬ TopTier (winning results) results res := by
        intro res hres
        exact hblock ⟨res, hres.1, by rw [← hw]; exact hres.2.1⟩
      simp [hnone]

end Aggregation

section Law

/-- The domain phase settles the query: some stage blocks it and none allows it. -/
def DomainBlocked (domain : List StageResult) : Prop :=
  Decides .block domain ∧ ¬ Decides .allow domain

instance (domain : List StageResult) : Decidable (DomainBlocked domain) :=
  inferInstanceAs (Decidable (_ ∧ _))

/-- The outcome of a request, by the results of the two phases. -/
structure VerdictLaw (domain ip : List StageResult) (out : Server.Handled) : Prop where
  /-- A query the domain phase blocks is not resolved, whatever the IP phase thinks. -/
  blocked : DomainBlocked domain → out.resolved = false ∧
    out.reqCtx.filterResult.status = .blocked ∧
    ReasonsLaw domain out.reqCtx.filterResult.reasons
  /-- Any other query is resolved, and blocked only by the IP phase. -/
  resolved : ¬ DomainBlocked domain → out.resolved = true ∧
    out.reqCtx.filterResult.status =
      (if Decides .block ip ∧ ¬ Decides .allow (domain ++ ip) then .blocked else .processed) ∧
    ReasonsLaw (domain ++ ip) out.reqCtx.filterResult.reasons
  /-- No Block overturns an Allow of the domain phase. -/
  allowed : Decides .allow domain → out.resolved = true ∧
    out.reqCtx.filterResult.status = .processed

variable {s : Server} {reqCtx : RequestContext} {dctx : DNSContext}

/-- The law for any two filters. -/
theorem Server.handleRequest_verdict (hp : reqCtx.partialFilteringResults = [])
    (hc : s.isDnsCheck dctx = false) (hD : s.domainFailures reqCtx dctx = [])
    (hI : ¬ DomainBlocked (s.domainResults reqCtx dctx) → s.ipFailures reqCtx dctx = []) :
    VerdictLaw (s.domainResults reqCtx dctx) (s.ipResults reqCtx dctx)
      (s.handleRequest reqCtx dctx) := by
  have hdom := s.domain_filterResult reqCtx dctx
  rw [if_pos hD, hp, List.nil_append] at hdom
  obtain ⟨hst, hre⟩ := getFinalFilteringResult_spec (s.domainResults reqCtx dctx)
  by_cases hb : DomainBlocked (s.domainResults reqCtx dctx)
  · have hst' : (s.domainFilter.execute reqCtx dctx).1.filterResult.status = .blocked := by
      rw [hdom, hst]; exact if_pos hb
    rw [s.handleRequest_final hc (by rw [hst']; decide)]
    refine ⟨fun _ => ⟨rfl, hst', ?_⟩, fun h => absurd hb h, fun h => absurd h hb.2⟩
    rw [hdom]; exact hre
  · have hst' : (s.domainFilter.execute reqCtx dctx).1.filterResult.status = .processed := by
      rw [hdom, hst]; exact if_neg hb
    rw [s.handleRequest_resolved hc hst']
    obtain ⟨hst2, hre2⟩ :=
      getFinalFilteringResult_spec (s.domainResults reqCtx dctx ++ s.ipResults reqCtx dctx)
    have hip := s.ip_filterResult reqCtx dctx
    rw [if_pos (hI hb), hp, List.nil_append] at hip
    have hiff : (Decides .block (s.domainResults reqCtx dctx ++ s.ipResults reqCtx dctx) ∧
          ¬ Decides .allow (s.domainResults reqCtx dctx ++ s.ipResults reqCtx dctx)) ↔
        (Decides .block (s.ipResults reqCtx dctx) ∧
          ¬ Decides .allow (s.domainResults reqCtx dctx ++ s.ipResults reqCtx dctx)) := by
      rw [decides_append, decides_append]
      -- a Block of the domain phase alone would have settled the query
      have : Decides .block (s.domainResults reqCtx dctx) →
        Decides .allow (s.domainResults reqCtx dctx) :=
        fun h => by_contra fun h' => hb ⟨h, h'⟩
      tauto
    refine ⟨fun h => absurd h hb, fun _ => ⟨rfl, ?_, ?_⟩, fun ha => ⟨rfl, ?_⟩⟩
    · rw [hip, hst2]; exact if_congr hiff rfl rfl
    · rw [hip]; exact hre2
    · rw [hip, hst2]; exact if_neg fun h => h.2 (decides_append.2 (.inl ha))

variable (dnsCheckDomain : String) (domainFilter : DomainFilter) (ipFilter : IPFilter)
  (resolve : DNSContext → Option Msg × Option String) (exchange : String → ℕ → String → Option Msg)
  (profileId : String) (settings : ProfileSettings)

/-- **Verdict law.** For every profile, blocklist store, catalog, name and answer: unless
the name contains the DNS check domain, and if no stage that runs fails, the outcome
of the request is the lawful one. -/
theorem verdict_law (dctx : DNSContext) (hc : contains dctx.question.name dnsCheckDomain = false)
    (hD : (Server.new dnsCheckDomain domainFilter ipFilter resolve exchange).domainFailures
      (newRequestContext profileId settings) dctx = [])
    (hI : ¬ DomainBlocked
      ((Server.new dnsCheckDomain domainFilter ipFilter resolve exchange).domainResults
        (newRequestContext profileId settings) dctx) →
      (Server.new dnsCheckDomain domainFilter ipFilter resolve exchange).ipFailures
        (newRequestContext profileId settings) dctx = []) :
    VerdictLaw
      ((Server.new dnsCheckDomain domainFilter ipFilter resolve exchange).domainResults
        (newRequestContext profileId settings) dctx)
      ((Server.new dnsCheckDomain domainFilter ipFilter resolve exchange).ipResults
        (newRequestContext profileId settings) dctx)
      ((Server.new dnsCheckDomain domainFilter ipFilter resolve exchange).handleRequest
        (newRequestContext profileId settings) dctx) :=
  Server.handleRequest_verdict rfl hc hD hI

/-- A server with an empty blocklist store and no catalog, whose resolver answers with
a private address. -/
def privateServer : Server :=
  Server.new "check.example" ⟨⟨fun _ _ => .ok false, fun _ _ => .ok false⟩, none⟩
    ⟨⟨fun _ _ => .ok false, fun _ _ => .ok false⟩, none, none, some ⟨true, false, false, []⟩, none,
      ⟨id, fun _ => .refl _⟩⟩
    (fun dctx => (some { dctx.req.setReply with answer := [.a [10, 0, 0, 1]] }, none)) fun _ _ _ =>
    none

/-- A profile with rebinding protection and one custom rule. -/
def oneRule (action value : String) : ProfileSettings :=
  { ProfileSettings.empty with
    rebindingProtection := [("enabled", "1")]
    customRules := [[("action", action), ("value", value), ("syntax", "domain")]] }

/-- A domain Allow against a rebinding Block. -/
theorem verdict_law_allow :
    VerdictLaw
      (privateServer.domainResults (newRequestContext "p" (oneRule "allow" "nas.test"))
        ⟨1, ⟨"nas.test.", .a⟩, none⟩)
      (privateServer.ipResults (newRequestContext "p" (oneRule "allow" "nas.test"))
        ⟨1, ⟨"nas.test.", .a⟩, none⟩)
      (privateServer.handleRequest (newRequestContext "p" (oneRule "allow" "nas.test"))
        ⟨1, ⟨"nas.test.", .a⟩, none⟩) :=
  verdict_law _ _ _ _ _ _ _ _ (by decide) (by decide) fun _ => by decide

/-- A name that contains the DNS check domain passes by a custom Block: no stage fails,
and no phase runs. -/
theorem verdict_dnsCheck :
    privateServer.domainFailures (newRequestContext "p" (oneRule "block" "*.check.example"))
        ⟨1, ⟨"a.check.example.", .a⟩, none⟩ = [] ∧
      privateServer.ipFailures (newRequestContext "p" (oneRule "block" "*.check.example"))
        ⟨1, ⟨"a.check.example.", .a⟩, none⟩ = [] ∧
      ¬ VerdictLaw
        (privateServer.domainResults (newRequestContext "p" (oneRule "block" "*.check.example"))
          ⟨1, ⟨"a.check.example.", .a⟩, none⟩)
        (privateServer.ipResults (newRequestContext "p" (oneRule "block" "*.check.example"))
          ⟨1, ⟨"a.check.example.", .a⟩, none⟩)
        (privateServer.handleRequest (newRequestContext "p" (oneRule "block" "*.check.example"))
          ⟨1, ⟨"a.check.example.", .a⟩, none⟩) := by
  refine ⟨by decide, by decide, fun h => ?_⟩
  have hst := (h.blocked (by decide)).2.1
  revert hst
  decide

end Law

end ModDNS.Proxy
