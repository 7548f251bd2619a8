import ModDNS.Go.Names
import ModDNS.Proxy.Handle

/-!
# Who gets past the filters

A name that contains the check domain goes to the check server, with the ID of the profile, and to
no filter. The text is compared as it came over the wire, wherever in the name it stands.

* `handled_right_iff`: the names for which this is the check domain, and the names below it.
-/

namespace ModDNS.Proxy

open Go

/-- What the server does for a request. -/
inductive Call where
  | exchange (name : String) (qtype : ℕ) (profileId : String)
  | domainFilter
  | resolve
  | ipFilter
  | queryLog (profileId : String) (result : FilterResult)
  | statistics (total blocked : ℕ)
  deriving DecidableEq

/-- The profile keeps logs: a value that does not parse reads as false. -/
def loggingEnabled (logsSettings : Option Hash) : Bool :=
  match logsSettings with
  | none => false
  | some logs => parseBool (mapGet logs "enabled") = some true

/-- `EmitQueryLog`. -/
def emitQueryLog (logsSettings : Option Hash) (reqCtx : RequestContext) : List Call :=
  if loggingEnabled logsSettings then [.queryLog reqCtx.profileId reqCtx.filterResult] else []

/-- `EmitStatistics`: the counters that every query has. -/
def emitStatistics (reqCtx : RequestContext) : List Call :=
  [.statistics 1 (if reqCtx.filterResult.status = .blocked then 1 else 0)]

namespace Server

variable (s : Server) (logsSettings : Option Hash) (reqCtx : RequestContext) (dctx : DNSContext)

/-- What `postResolve` does. -/
def postResolveCalls : List Call :=
  let post := (s.postResolve reqCtx dctx).1
  (if reqCtx.filterResult.status = .processed then [.ipFilter] else []) ++
  emitQueryLog logsSettings post ++
    emitStatistics post

/-- What `handleRequest` does. -/
def handleRequestCalls : List Call :=
  if s.isDnsCheck dctx then
    [.exchange dctx.question.name (dnsCheckQtype dctx.question.qtype) reqCtx.profileId]
  else
    let reqCtx := (s.domainFilter.execute reqCtx dctx).1
    if reqCtx.filterResult.status = .processed then
      let step := s.resolveStep reqCtx dctx
      .domainFilter :: .resolve :: s.postResolveCalls logsSettings step.1 step.2
    else .domainFilter :: s.postResolveCalls logsSettings reqCtx dctx

/-- The request goes to the check server, and nowhere else. -/
def Checked : Prop :=
  s.handleRequestCalls logsSettings reqCtx dctx =
    [.exchange dctx.question.name (dnsCheckQtype dctx.question.qtype) reqCtx.profileId]

/-- The request goes through the filters, is logged if the profile keeps logs, and is counted. The
check server does not see it. -/
structure Filtered : Prop where
  domain : .domainFilter ∈ s.handleRequestCalls logsSettings reqCtx dctx
  ip : (s.domainFilter.execute reqCtx dctx).1.filterResult.status = .processed →
    .ipFilter ∈ s.handleRequestCalls logsSettings reqCtx dctx
  logged : loggingEnabled logsSettings = true →
    .queryLog reqCtx.profileId (s.handleRequest reqCtx dctx).reqCtx.filterResult ∈
      s.handleRequestCalls logsSettings reqCtx dctx
  counted : ∃ blocked, .statistics 1 blocked ∈ s.handleRequestCalls logsSettings reqCtx dctx
  unseen : ∀ name qtype profileId, .exchange name qtype profileId ∉ s.handleRequestCalls
    logsSettings reqCtx dctx

end Server

section Calls

variable {s : Server} {logsSettings : Option Hash} {reqCtx : RequestContext} {dctx : DNSContext}

theorem execute_profileId (f : Filter) (reqCtx : RequestContext) (dctx : DNSContext) :
    (f.execute reqCtx dctx).1.profileId = reqCtx.profileId := by
  unfold Filter.execute runStages
  rfl

theorem postResolve_profileId (s : Server) (reqCtx : RequestContext) (dctx : DNSContext) :
    (s.postResolve reqCtx dctx).1.profileId = reqCtx.profileId := by
  unfold Server.postResolve
  dsimp only
  split
  · exact execute_profileId _ _ _
  · rfl

theorem queryLog_mem (h : loggingEnabled logsSettings = true) :
    .queryLog reqCtx.profileId (s.postResolve reqCtx dctx).1.filterResult ∈
      s.postResolveCalls logsSettings reqCtx dctx := by
  rw [← postResolve_profileId s reqCtx dctx]
  simp [Server.postResolveCalls, emitQueryLog, h]

theorem statistics_mem :
    ∃ blocked, .statistics 1 blocked ∈ s.postResolveCalls logsSettings reqCtx dctx :=
  ⟨_, List.mem_append_right _ (List.mem_singleton_self _)⟩

theorem exchange_not_mem (name : String) (qtype : ℕ) (profileId : String) :
    .exchange name qtype profileId ∉ s.postResolveCalls logsSettings reqCtx dctx := by
  unfold Server.postResolveCalls emitQueryLog emitStatistics
  grind

theorem checked_of (h : s.isDnsCheck dctx = true) : s.Checked logsSettings reqCtx dctx := if_pos h

/-- A request that reaches `postResolve` after the domain phase is filtered, logged and counted. -/
theorem filtered_of_calls {front : List Call} {reqCtx' : RequestContext} {dctx' : DNSContext}
    (hcalls : s.handleRequestCalls logsSettings reqCtx dctx = front ++
      s.postResolveCalls logsSettings reqCtx' dctx')
    (hdomain : .domainFilter ∈ front)
    (hfront : ∀ name qtype profileId, .exchange name qtype profileId ∉ front)
    (hhandled : (s.handleRequest reqCtx dctx).reqCtx = (s.postResolve reqCtx' dctx').1)
    (hid : reqCtx'.profileId = reqCtx.profileId)
    (hip : (s.domainFilter.execute reqCtx dctx).1.filterResult.status = .processed →
      reqCtx'.filterResult.status = .processed) :
    s.Filtered logsSettings reqCtx dctx where
  domain := by
    rw [hcalls]
    exact List.mem_append_left _ hdomain
  ip hprocessed := by
    rw [hcalls]
    refine List.mem_append_right _ ?_
    simp [Server.postResolveCalls, hip hprocessed]
  logged hlogs := by
    rw [hcalls, hhandled, ← hid]
    exact List.mem_append_right _ (queryLog_mem hlogs)
  counted := by
    obtain ⟨blocked, hblocked⟩ := @statistics_mem s logsSettings reqCtx' dctx'
    exact ⟨blocked, hcalls ▸ List.mem_append_right _ hblocked⟩
  unseen name qtype profileId hin := by
    rw [hcalls] at hin
    rcases List.mem_append.1 hin with hin | hin
    · exact hfront name qtype profileId hin
    · exact exchange_not_mem name qtype profileId hin

theorem filtered_of (h : ¬ s.isDnsCheck dctx = true) : s.Filtered logsSettings reqCtx dctx := by
  have hid := execute_profileId s.domainFilter reqCtx dctx
  by_cases hprocessed : (s.domainFilter.execute reqCtx dctx).1.filterResult.status = .processed
  · have hcalls : s.handleRequestCalls logsSettings reqCtx dctx = [.domainFilter, .resolve] ++
        s.postResolveCalls logsSettings (s.ipInput reqCtx dctx).1 (s.ipInput reqCtx dctx).2 := by
      rw [Server.handleRequestCalls, if_neg h]
      exact if_pos hprocessed
    refine filtered_of_calls hcalls List.mem_cons_self (by simp) ?_ hid fun _ => hprocessed
    simp only [Server.handleRequest, if_neg h, if_pos hprocessed, Server.ipInput]
  · have hcalls : s.handleRequestCalls logsSettings reqCtx dctx = [.domainFilter] ++
        s.postResolveCalls logsSettings (s.domainFilter.execute reqCtx dctx).1 dctx := by
      rw [Server.handleRequestCalls, if_neg h]
      exact if_neg hprocessed
    refine filtered_of_calls hcalls List.mem_cons_self (by simp) ?_ hid fun hp =>
      absurd hp hprocessed
    simp only [Server.handleRequest, if_neg h, if_neg hprocessed]

theorem not_checked_of_filtered (h : s.Filtered logsSettings reqCtx dctx) :
    ¬ s.Checked logsSettings reqCtx dctx := by
  intro hchecked
  obtain ⟨blocked, hblocked⟩ := h.counted
  rw [hchecked] at hblocked
  cases List.mem_singleton.1 hblocked

end Calls

section CheckDomain

variable {check name : String}

/-- The name is the check domain or lies below it, in any letter case. -/
def OfCheckDomain (check name : String) : Prop := AtOrBelow (normalName name) (normalName check)

instance (check name : String) : Decidable (OfCheckDomain check name) :=
  inferInstanceAs (Decidable (AtOrBelow _ _))

/-- The check domain stands in a name that is not of it: in the middle of a label, or in front of
another domain. -/
def Misplaced (check name : String) : Prop :=
  check.toList <:+: name.toList ∧ ¬ OfCheckDomain check name

/-- The name is of the check domain, but writes it in other letters than the configuration. -/
def Respelt (check name : String) : Prop :=
  OfCheckDomain check name ∧ ¬ check.toList <:+: name.toList

variable (s : Server) (logsSettings : Option Hash) (reqCtx : RequestContext) (dctx : DNSContext)

/-- **Which names are handled as they should be**: the check path for the names of the check domain,
the filters for all others. That is unless the check domain is misplaced in the name or respelt. -/
theorem handled_right_iff :
    ((OfCheckDomain s.dnsCheckDomain dctx.question.name → s.Checked logsSettings reqCtx dctx) ∧
      (¬ OfCheckDomain s.dnsCheckDomain dctx.question.name → s.Filtered logsSettings reqCtx dctx)) ↔
      ¬ Misplaced s.dnsCheckDomain dctx.question.name ∧
      ¬ Respelt s.dnsCheckDomain dctx.question.name := by
  have hcheck : s.isDnsCheck dctx = true ↔ s.dnsCheckDomain.toList <:+: dctx.question.name.toList :=
    contains_iff
  have hchecked : s.Checked logsSettings reqCtx dctx ↔ s.isDnsCheck dctx = true := by
    refine ⟨fun hc => ?_, checked_of⟩
    by_contra hno
    exact not_checked_of_filtered (filtered_of hno) hc
  have hfiltered : s.Filtered logsSettings reqCtx dctx ↔ ¬ s.isDnsCheck dctx = true :=
    ⟨fun hf hc => not_checked_of_filtered hf (checked_of hc), filtered_of⟩
  rw [hchecked, hfiltered, hcheck, Misplaced, Respelt]
  tauto

end CheckDomain

section Examples

/-- A server without any lists, whose upstream does not answer. -/
def checkServer : Server :=
  Server.new "test.moddns.net" ⟨⟨fun _ _ => .ok false, fun _ _ => .ok false⟩, none⟩
    ⟨⟨fun _ _ => .ok false, fun _ _ => .ok false⟩, none, none, none, none, ⟨id, List.Perm.refl⟩⟩
      (fun _ => (none, none))
    fun _ _ _ => none

/-- A name of another domain is not filtered, and a name of the check domain in capitals is not
checked. -/
theorem misplaced_and_respelt :
    (¬ OfCheckDomain "test.moddns.net" "test.moddns.net.example.com." ∧
      ¬ checkServer.Filtered none (newRequestContext "p" .empty)
        ⟨0, ⟨"test.moddns.net.example.com.", .a⟩, none⟩) ∧
    OfCheckDomain "test.moddns.net" "TEST.MODDNS.NET." ∧
      ¬ checkServer.Checked none (newRequestContext "p" .empty)
        ⟨0, ⟨"TEST.MODDNS.NET.", .a⟩, none⟩ := by
  refine ⟨⟨by decide +kernel, fun hf => ?_⟩, by decide +kernel, fun hc => ?_⟩
  · exact not_checked_of_filtered hf (checked_of (by decide +kernel))
  · exact not_checked_of_filtered (filtered_of (by decide +kernel)) hc

end Examples

end ModDNS.Proxy
