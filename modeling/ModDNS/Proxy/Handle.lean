import ModDNS.Proxy.Filters

/-!
# Handling a request

`handleRequest` after admission: the DNS check, the domain phase, resolution, the IP
phase and the response. The resolver and the DNS check server are parameters.
-/

namespace ModDNS.Proxy

open Go

/-- What `handleRequest` uses of the server. -/
structure Server where
  /-- `Config.Server.DnsCheckDomain`. -/
  dnsCheckDomain : String
  domainFilter : Filter
  ipFilter : Filter
  /-- `Proxy.Resolve`: the answer it leaves in the context, and its error. -/
  resolve : DNSContext → Option Msg × Option String
  /-- The exchange of `dnsCheckHandler`, by name, type and profile: the reply, if any. -/
  exchange : String → ℕ → String → Option Msg

/-- The server of the proxy: its two filters are the real ones. -/
def Server.new (dnsCheckDomain : String) (domainFilter : DomainFilter) (ipFilter : IPFilter)
    (resolve : DNSContext → Option Msg × Option String)
    (exchange : String → ℕ → String → Option Msg) :
    Server :=
  { dnsCheckDomain, domainFilter := domainFilter.filter, ipFilter := ipFilter.filter, resolve
    exchange }

/-- `servFailResponse`. -/
def servFailResponse (req : Msg) : Msg := req.setRcode .serverFailure

/-- The synthesized answer of `respond` for a blocked query: the zero address, or
nothing for other query types. -/
def blockedResponse (req : Msg) (qtype : QType) : Msg :=
  { req.setReply with
    answer := match qtype with
      | .a => [.a [0, 0, 0, 0]]
      | .aaaa => [.aaaa (List.replicate 16 0)]
      | .other _ => [] }

def respond (reqCtx : RequestContext) (dctx : DNSContext) : DNSContext :=
  match reqCtx.filterResult.status with
  | .unavailable => { dctx with res := some (servFailResponse dctx.req) }
  | .blocked => { dctx with res := some (blockedResponse dctx.req dctx.question.qtype) }
  | _ => dctx

/-- `filterSection`: a section without its OPT records. -/
def filterSection (src : List RR) : List RR := src.filter (· ≠ .opt)

/-- `buildDNSCheckResponse`. -/
def buildDNSCheckResponse (origReq upstream : Msg) : Msg :=
  { origReq.setReply with
    authoritative := true
    rcode := upstream.rcode
    answer := upstream.answer
    ns := filterSection upstream.ns
    extra := filterSection upstream.extra }

/-- The query type `dnsCheckHandler` asks for. -/
def dnsCheckQtype : QType → ℕ
  | .a => 1
  | .aaaa => 28
  | .other _ => 0

namespace Server

variable (s : Server)

/-- Whether `dnsCheckHandler` takes the query. -/
def isDnsCheck (dctx : DNSContext) : Bool := contains dctx.question.name s.dnsCheckDomain

/-- `dnsCheckHandler` on a query it takes: without a reply the response stays as it is. -/
def dnsCheckHandler (dctx : DNSContext) (profileId : String) : DNSContext :=
  match s.exchange dctx.question.name (dnsCheckQtype dctx.question.qtype) profileId with
  | none => dctx
  | some r => { dctx with res := some (buildDNSCheckResponse dctx.req r) }

/-- What a handled request leaves behind, and whether it was resolved. -/
structure Handled where
  reqCtx : RequestContext
  dctx : DNSContext
  resolved : Bool

/-- The resolution step: the answer goes to the context, an error to the request. -/
def resolveStep (reqCtx : RequestContext) (dctx : DNSContext) : RequestContext × DNSContext :=
  ({ reqCtx with upstreamErr := (s.resolve dctx).2 }, { dctx with res := (s.resolve dctx).1 })

/-- `postResolve`: only a processed query has an answer to inspect. -/
def postResolve (reqCtx : RequestContext) (dctx : DNSContext) : RequestContext × DNSContext :=
  let reqCtx :=
    if reqCtx.filterResult.status = .processed then (s.ipFilter.execute reqCtx dctx).1 else reqCtx
  (reqCtx, respond reqCtx dctx)

/-- `handleRequest`. -/
def handleRequest (reqCtx : RequestContext) (dctx : DNSContext) : Handled :=
  if s.isDnsCheck dctx then ⟨reqCtx, s.dnsCheckHandler dctx reqCtx.profileId, false⟩
  else
    let reqCtx := (s.domainFilter.execute reqCtx dctx).1
    if reqCtx.filterResult.status = .processed then
      let step := s.resolveStep reqCtx dctx
      let post := s.postResolve step.1 step.2
      ⟨post.1, post.2, true⟩
    else
      let post := s.postResolve reqCtx dctx
      ⟨post.1, post.2, false⟩

/-- The results of the domain phase. -/
def domainResults (reqCtx : RequestContext) (dctx : DNSContext) : List StageResult :=
  stageResults s.domainFilter.stages reqCtx dctx

/-- The failures of the domain phase. -/
def domainFailures (reqCtx : RequestContext) (dctx : DNSContext) : List StageFailure :=
  stageFailures s.domainFilter.filterType s.domainFilter.stages reqCtx dctx

/-- What the IP phase gets to see: the contexts after the domain phase and resolution. -/
def ipInput (reqCtx : RequestContext) (dctx : DNSContext) : RequestContext × DNSContext :=
  s.resolveStep (s.domainFilter.execute reqCtx dctx).1 dctx

/-- The results of the IP phase, run on the resolved query. -/
def ipResults (reqCtx : RequestContext) (dctx : DNSContext) : List StageResult :=
  stageResults s.ipFilter.stages (s.ipInput reqCtx dctx).1 (s.ipInput reqCtx dctx).2

/-- The failures of the IP phase, run on the resolved query. -/
def ipFailures (reqCtx : RequestContext) (dctx : DNSContext) : List StageFailure :=
  stageFailures s.ipFilter.filterType s.ipFilter.stages (s.ipInput reqCtx dctx).1
    (s.ipInput reqCtx dctx).2

end Server

theorem Filter.execute_filterResult (f : Filter) (reqCtx : RequestContext) (dctx : DNSContext) :
    (f.execute reqCtx dctx).1.filterResult =
      if stageFailures f.filterType f.stages reqCtx dctx = [] then
        getFinalFilteringResult (reqCtx.partialFilteringResults ++
          stageResults f.stages reqCtx dctx)
      else ⟨.unavailable, []⟩ := by
  simp only [Filter.execute, runStages, List.isEmpty_iff]

section Dispatch

variable (s : Server) {reqCtx : RequestContext} {dctx : DNSContext}

/-- A query that is not processed by the domain phase is answered without resolution. -/
theorem Server.handleRequest_final (hc : s.isDnsCheck dctx = false)
    (hst : (s.domainFilter.execute reqCtx dctx).1.filterResult.status ≠ .processed) :
    s.handleRequest reqCtx dctx =
      ⟨(s.domainFilter.execute reqCtx dctx).1, respond
        (s.domainFilter.execute reqCtx dctx).1 dctx, false⟩ := by
  simp [Server.handleRequest, Server.postResolve, hc, hst]

/-- A query that the domain phase processes is resolved and goes through the IP phase. -/
theorem Server.handleRequest_resolved (hc : s.isDnsCheck dctx = false)
    (hst : (s.domainFilter.execute reqCtx dctx).1.filterResult.status = .processed) :
    s.handleRequest reqCtx dctx =
      ⟨(s.ipFilter.execute (s.ipInput reqCtx dctx).1 (s.ipInput reqCtx dctx).2).1,
        respond (s.ipFilter.execute (s.ipInput reqCtx dctx).1 (s.ipInput reqCtx dctx).2).1
          (s.ipInput reqCtx dctx).2, true⟩ := by
  simp [Server.handleRequest, Server.postResolve, Server.ipInput, Server.resolveStep, hc, hst]

/-- The result of the domain phase. -/
theorem Server.domain_filterResult (reqCtx : RequestContext) (dctx : DNSContext) :
    (s.domainFilter.execute reqCtx dctx).1.filterResult =
      if s.domainFailures reqCtx dctx = [] then
        getFinalFilteringResult (reqCtx.partialFilteringResults ++ s.domainResults reqCtx dctx)
      else ⟨.unavailable, []⟩ :=
  Filter.execute_filterResult _ _ _

/-- The result of the IP phase: it aggregates the results of both phases. -/
theorem Server.ip_filterResult (reqCtx : RequestContext) (dctx : DNSContext) :
    (s.ipFilter.execute (s.ipInput reqCtx dctx).1 (s.ipInput reqCtx dctx).2).1.filterResult =
      if s.ipFailures reqCtx dctx = [] then
        getFinalFilteringResult
          (reqCtx.partialFilteringResults ++ s.domainResults reqCtx dctx ++ s.ipResults reqCtx dctx)
      else ⟨.unavailable, []⟩ :=
  Filter.execute_filterResult _ _ _

end Dispatch

end ModDNS.Proxy
