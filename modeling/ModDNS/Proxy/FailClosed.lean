import ModDNS.Proxy.Verdict

/-!
# Failing closed

A phase fails closed if one of its stages not completing makes the query unavailable.

* `failClosed_iff`: a request fails closed exactly when no panic goes unaccompanied by
  an error, since a recovered panic looks like a stage without a result.
-/

namespace ModDNS.Proxy

open Go

/-- The stage returned an error. -/
def StageRun.errs : StageRun → Bool
  | .returned _ err => err.isSome
  | .panicked => false

def StageRun.panics : StageRun → Bool
  | .returned _ _ => false
  | .panicked => true

/-- The stage ran its check to the end. -/
def StageRun.completes (r : StageRun) : Bool := !r.errs && !r.panics

theorem StageRun.completes_eq_false {r : StageRun} :
    r.completes = false ↔ r.errs = true ∨ r.panics = true := by
  cases r <;> simp [StageRun.completes, StageRun.errs, StageRun.panics]

theorem StageRun.errs_iff {r : StageRun} : r.errs = true ↔ r.outcome.2 ≠ none := by
  cases r with
  | returned res err => cases err <;> simp [StageRun.errs, StageRun.outcome]
  | panicked => simp [StageRun.errs, StageRun.outcome]

theorem stageFailures_eq_nil {phase : String} {stages : List Stage} {reqCtx : RequestContext}
    {dctx : DNSContext} :
    stageFailures phase stages reqCtx dctx = [] ↔ ∀ st ∈ stages,
    (st.run reqCtx dctx).errs = false := by
  simp only [stageFailures, List.filterMap_eq_nil_iff, Option.map_eq_none_iff]
  refine forall₂_congr fun st _ => ?_
  rw [← Bool.not_eq_true, StageRun.errs_iff, not_not]

theorem getFinalFilteringResult_available (results : List StageResult) :
    (getFinalFilteringResult results).status ≠ .unavailable := by
  rw [(getFinalFilteringResult_spec results).1]
  split <;> decide

namespace Server

variable (s : Server) (reqCtx : RequestContext) (dctx : DNSContext)

/-- How the stages of the domain phase end. -/
def domainRuns : List StageRun := s.domainFilter.stages.map fun st => st.run reqCtx dctx

/-- How the stages of the IP phase end, on the resolved query. -/
def ipRuns : List StageRun :=
  s.ipFilter.stages.map fun st => st.run (s.ipInput reqCtx dctx).1 (s.ipInput reqCtx dctx).2

/-- The domain phase is run: the query is not a DNS check. -/
def DomainPhase : Prop := s.isDnsCheck dctx = false

/-- The IP phase is run: no domain stage returned an error or settled the query. -/
def IPPhase : Prop :=
  s.DomainPhase dctx ∧ (∀ r ∈ s.domainRuns reqCtx dctx, r.errs = false) ∧
    ¬ DomainBlocked (s.domainResults reqCtx dctx)

/-- The request is reported unavailable, without a decision, and the client gets
SERVFAIL whatever the resolver answered. -/
def Unavailable (out : Handled) : Prop :=
  out.reqCtx.filterResult = ⟨.unavailable, []⟩ ∧ out.dctx.res = some (servFailResponse dctx.req)

/-- The request fails closed. -/
structure FailClosed : Prop where
  domain : s.DomainPhase dctx → (∃ r ∈ s.domainRuns reqCtx dctx, r.completes = false) →
    Unavailable dctx (s.handleRequest reqCtx dctx) ∧ (s.handleRequest reqCtx dctx).resolved = false
  ip : s.IPPhase reqCtx dctx → (∃ r ∈ s.ipRuns reqCtx dctx, r.completes = false) →
    Unavailable dctx (s.handleRequest reqCtx dctx)
  converse : (s.handleRequest reqCtx dctx).reqCtx.filterResult.status = .unavailable →
    (s.DomainPhase dctx ∧ ∃ r ∈ s.domainRuns reqCtx dctx, r.completes = false) ∨
      (s.IPPhase reqCtx dctx ∧ ∃ r ∈ s.ipRuns reqCtx dctx, r.completes = false)

/-- Where a stage of the phase panics, another one of it returns an error. -/
def PanicAccompanied (runs : List StageRun) : Prop :=
  (∃ r ∈ runs, r.panics = true) → ∃ r ∈ runs, r.errs = true

variable {s reqCtx dctx}

theorem domainFailures_eq_nil :
    s.domainFailures reqCtx dctx = [] ↔ ∀ r ∈ s.domainRuns reqCtx dctx, r.errs = false := by
  simp [domainFailures, stageFailures_eq_nil, domainRuns]

theorem ipFailures_eq_nil :
    s.ipFailures reqCtx dctx = [] ↔ ∀ r ∈ s.ipRuns reqCtx dctx, r.errs = false := by
  simp [ipFailures, stageFailures_eq_nil, ipRuns]

theorem errs_of_not_forall {runs : List StageRun} (h : ∃ r ∈ runs, r.errs = true) :
    ¬ ∀ r ∈ runs, r.errs = false := by
  obtain ⟨r, hr, he⟩ := h
  exact fun hall => by simp [hall r hr] at he

/-- A stage that does not complete and no lone panic: a stage returns an error. -/
theorem PanicAccompanied.errs {runs : List StageRun} (h : PanicAccompanied runs)
    (hi : ∃ r ∈ runs, r.completes = false) : ∃ r ∈ runs, r.errs = true := by
  obtain ⟨r, hr, hc⟩ := hi
  rcases StageRun.completes_eq_false.1 hc with he | hp
  · exact ⟨r, hr, he⟩
  · exact h ⟨r, hr, hp⟩

/-- A domain stage that returns an error closes the request. -/
theorem handleRequest_domain_errs (hc : s.DomainPhase dctx)
    (he : ∃ r ∈ s.domainRuns reqCtx dctx, r.errs = true) :
    Unavailable dctx (s.handleRequest reqCtx dctx) ∧
    (s.handleRequest reqCtx dctx).resolved = false := by
  have hne : s.domainFailures reqCtx dctx ≠ [] := fun h =>
    errs_of_not_forall he (domainFailures_eq_nil.1 h)
  have hres := s.domain_filterResult reqCtx dctx
  rw [if_neg hne] at hres
  rw [s.handleRequest_final hc (by rw [hres]; decide)]
  exact ⟨⟨hres, by simp [respond, hres]⟩, rfl⟩

/-- In the IP phase the domain phase has aggregated to a processed query. -/
theorem IPPhase.processed (hp : reqCtx.partialFilteringResults = []) (h : s.IPPhase reqCtx dctx) :
    (s.domainFilter.execute reqCtx dctx).1.filterResult.status = .processed := by
  rw [s.domain_filterResult, if_pos (domainFailures_eq_nil.2 h.2.1), hp, List.nil_append,
    (getFinalFilteringResult_spec _).1]
  exact if_neg h.2.2

/-- An IP stage that returns an error closes the request. -/
theorem handleRequest_ip_errs (hp : reqCtx.partialFilteringResults = [])
    (hi : s.IPPhase reqCtx dctx) (he : ∃ r ∈ s.ipRuns reqCtx dctx, r.errs = true) :
    Unavailable dctx (s.handleRequest reqCtx dctx) := by
  have hne : s.ipFailures reqCtx dctx ≠ [] := fun h => errs_of_not_forall he (ipFailures_eq_nil.1 h)
  have hres := s.ip_filterResult reqCtx dctx
  rw [if_neg hne] at hres
  rw [s.handleRequest_resolved hi.1 (hi.processed hp)]
  refine ⟨hres, ?_⟩
  simp only [respond, hres]
  rfl

/-- A request whose phases return no error is available. -/
theorem handleRequest_available (hp : reqCtx.partialFilteringResults = [])
    (hst : reqCtx.filterResult.status ≠ .unavailable)
    (hD : s.DomainPhase dctx → ∀ r ∈ s.domainRuns reqCtx dctx, r.errs = false)
    (hI : s.IPPhase reqCtx dctx → ∀ r ∈ s.ipRuns reqCtx dctx, r.errs = false) :
    (s.handleRequest reqCtx dctx).reqCtx.filterResult.status ≠ .unavailable := by
  by_cases hc : s.isDnsCheck dctx = false
  · have hres := s.domain_filterResult reqCtx dctx
    rw [if_pos (domainFailures_eq_nil.2 (hD hc)), hp, List.nil_append] at hres
    by_cases hb : DomainBlocked (s.domainResults reqCtx dctx)
    · have hbl : (s.domainFilter.execute reqCtx dctx).1.filterResult.status ≠ .processed := by
        rw [hres, (getFinalFilteringResult_spec _).1]
        simp only [if_pos (show Decides .block _ ∧ ¬ Decides .allow _ from hb)]
        decide
      rw [s.handleRequest_final hc hbl, hres]
      exact getFinalFilteringResult_available _
    · have hi : s.IPPhase reqCtx dctx := ⟨hc, hD hc, hb⟩
      rw [s.handleRequest_resolved hc (hi.processed hp), s.ip_filterResult,
        if_pos (ipFailures_eq_nil.2 (hI hi))]
      exact getFinalFilteringResult_available _
  · simpa [handleRequest, hc] using hst

/-- A request is resolved once the IP phase is run. -/
theorem IPPhase.resolved (hp : reqCtx.partialFilteringResults = []) (h : s.IPPhase reqCtx dctx) :
    (s.handleRequest reqCtx dctx).resolved = true := by
  rw [s.handleRequest_resolved h.1 (h.processed hp)]

/-- **Failing closed.** For every outcome of every stage, the request fails closed if and
only if, in each phase that is run, a panic never comes without an error. -/
theorem failClosed_iff (s : Server) (profileId : String) (settings : ProfileSettings)
    (dctx : DNSContext) :
    s.FailClosed (newRequestContext profileId settings) dctx ↔
      (s.DomainPhase dctx → PanicAccompanied
        (s.domainRuns (newRequestContext profileId settings) dctx)) ∧
        (s.IPPhase (newRequestContext profileId settings) dctx →
          PanicAccompanied (s.ipRuns (newRequestContext profileId settings) dctx)) := by
  set reqCtx := newRequestContext profileId settings with hreq
  have hp : reqCtx.partialFilteringResults = [] := rfl
  have hu : reqCtx.filterResult.status ≠ .unavailable := by rw [hreq]; simp [newRequestContext]
  constructor
  · intro h
    have hD : s.DomainPhase dctx → PanicAccompanied (s.domainRuns reqCtx dctx) := by
      rintro hc ⟨r, hr, hpan⟩
      by_contra hno
      have hall : ∀ r ∈ s.domainRuns reqCtx dctx, r.errs = false := by simpa using hno
      obtain ⟨⟨hres, -⟩, hnot⟩ := h.domain hc ⟨r, hr, StageRun.completes_eq_false.2 (.inr hpan)⟩
      by_cases hb : DomainBlocked (s.domainResults reqCtx dctx)
      · -- the other stages' Block is reported instead
        refine handleRequest_available hp hu (fun _ => hall) (fun hi => absurd hb hi.2.2) ?_
        rw [hres]
      · -- the query is resolved
        have hi : s.IPPhase reqCtx dctx := ⟨hc, hall, hb⟩
        simp [hi.resolved hp] at hnot
    refine ⟨hD, ?_⟩
    -- a panic of the second phase without an error goes unseen
    rintro hi ⟨r, hr, hpan⟩
    by_contra hno
    have hall : ∀ r ∈ s.ipRuns reqCtx dctx, r.errs = false := by simpa using hno
    have hres := (h.ip hi ⟨r, hr, StageRun.completes_eq_false.2 (.inr hpan)⟩).1
    refine handleRequest_available hp hu (fun _ => hi.2.1) (fun _ => hall) ?_
    rw [hres]
  -- with an error beside each panic the error decides
  · rintro ⟨hD, hI⟩
    refine ⟨fun hc hi => handleRequest_domain_errs hc ((hD hc).errs hi),
      fun hph hi => handleRequest_ip_errs hp hph ((hI hph).errs hi), fun hun => ?_⟩
    by_contra hno
    rw [not_or] at hno
    refine handleRequest_available hp hu (fun hc r hr => ?_) (fun hi r hr => ?_) hun
    · by_contra he
      exact hno.1 ⟨hc, r, hr, StageRun.completes_eq_false.2 (.inl (by simpa using he))⟩
    · by_contra he
      exact hno.2 ⟨hi, r, hr, StageRun.completes_eq_false.2 (.inl (by simpa using he))⟩

/-- A server whose blocklists stage panics; no other stage has an opinion. -/
def panicServer : Server :=
  { privateServer with
    domainFilter := { privateServer.domainFilter with
      stages := ⟨"blocklists", fun _ _ => .panicked⟩ :: privateServer.domainFilter.stages.tail } }

/-- The unchecked query is resolved and its answer sent. -/
theorem not_failClosed_panic :
    ¬ panicServer.FailClosed (newRequestContext "p"
      { ProfileSettings.empty with blocklists := ["ads"] })
      ⟨1, ⟨"ads.test.", .a⟩, none⟩ := by
  intro h
  have hres := (h.domain (by unfold DomainPhase; decide)
    ⟨.panicked, by simp [domainRuns, panicServer], rfl⟩).2
  revert hres
  decide

end Server

end ModDNS.Proxy
