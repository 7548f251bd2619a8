import ModDNS.Go.Net

/-!
# What a query carries through the proxy

DNS messages, the settings of a profile, and the request context that the two
filter phases share.
-/

namespace ModDNS.Proxy

open Go

/-- A key-value pair of an HTTPS or SVCB record. -/
inductive SVCBKeyValue where
  | ipv4Hint (hint : List IP)
  | ipv6Hint (hint : List IP)
  | other (key : ℕ)
  deriving DecidableEq

/-- A resource record: what the proxy looks into, and the type of any other record. -/
inductive RR where
  | a (addr : IP)
  | aaaa (addr : IP)
  | https (value : List SVCBKeyValue)
  | svcb (value : List SVCBKeyValue)
  | cname (target : String)
  | opt
  | other (rrtype : ℕ)
  deriving DecidableEq

/-- The query types that `respond` tells apart. -/
inductive QType where
  | a
  | aaaa
  | other (qtype : ℕ)
  deriving DecidableEq

structure Question where
  name : String
  qtype : QType
  deriving DecidableEq

/-- The response codes the proxy sets. -/
inductive Rcode where
  | success
  | formatError
  | serverFailure
  | refused
  | other (code : ℕ)
  deriving DecidableEq

/-- A DNS message. -/
structure Msg where
  id : ℕ
  response : Bool
  authoritative : Bool
  rcode : Rcode
  question : List Question
  answer : List RR
  ns : List RR
  extra : List RR
  deriving DecidableEq

/-- `Msg.SetReply`. -/
def Msg.setReply (req : Msg) : Msg :=
  { id := req.id, response := true, authoritative := false, rcode := .success
    question := req.question.take 1, answer := [], ns := [], extra := [] }

/-- `Msg.SetRcode`. -/
def Msg.setRcode (req : Msg) (rcode : Rcode) : Msg := { req.setReply with rcode := rcode }

/-- What the vendor proxy hands over: the request, which has exactly one question, and
the response, set in the course of the handling. -/
structure DNSContext where
  id : ℕ
  question : Question
  res : Option Msg
  deriving DecidableEq

/-- The request message (`dctx.Req`). -/
def DNSContext.req (dctx : DNSContext) : Msg :=
  { id := dctx.id, response := false, authoritative := false, rcode := .success
    question := [dctx.question], answer := [], ns := [], extra := [] }

/-- The outcome of one filter stage. -/
inductive Decision where
  | none
  | allow
  | block
  deriving DecidableEq

structure StageResult where
  decision : Decision
  tier : ℕ
  reasons : List String
  deriving DecidableEq

/-- The status of a query; `unset` is the zero value, before any phase has run. -/
inductive Status where
  | unset
  | blocked
  | processed
  | unavailable
  deriving DecidableEq

structure FilterResult where
  status : Status
  reasons : List String
  deriving DecidableEq

/-- A string map of the settings store. -/
abbrev Hash := List (String × String)

/-- The settings of a profile (`model.ProfileSettings`), without the per-key errors. -/
structure ProfileSettings where
  privacy : Hash
  logs : Hash
  dnssec : Hash
  rebindingProtection : Hash
  advanced : Hash
  statistics : Hash
  blocklists : List String
  services : List String
  customRules : List Hash
  deriving DecidableEq

/-- Settings of which nothing has been read. -/
def ProfileSettings.empty : ProfileSettings :=
  { privacy := [], logs := [], dnssec := [], rebindingProtection := [], advanced := []
    statistics := []
    blocklists := [], services := [], customRules := [] }

structure RequestContext where
  profileId : String
  privacySettings : Hash
  rebindingProtectionSettings : Hash
  blocklists : List String
  blockedServices : List String
  customRules : List Hash
  partialFilteringResults : List StageResult
  filterResult : FilterResult
  /-- The resolve error (`UpstreamErr`), if any. -/
  upstreamErr : Option String
  deriving DecidableEq

/-- `NewRequestContext`. -/
def newRequestContext (profileId : String) (settings : ProfileSettings) : RequestContext :=
  { profileId
    privacySettings := settings.privacy
    rebindingProtectionSettings := settings.rebindingProtection
    blocklists := settings.blocklists
    blockedServices := settings.services
    customRules := settings.customRules
    partialFilteringResults := []
    filterResult := ⟨.unset, []⟩
    upstreamErr := none }

end ModDNS.Proxy
