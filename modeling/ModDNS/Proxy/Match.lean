import ModDNS.Libs.Catalog
import ModDNS.Proxy.Stages

/-!
# Matching names and addresses

The matchers the stages share: custom-rule patterns, subscribed blocklists with their
exceptions, the addresses and CNAME targets of an answer, private address ranges.
-/

namespace ModDNS.Proxy

open Go Libs

def actionAllow : String := "allow"
def actionBlock : String := "block"
def ruleBlock : String := "block"

/-- `.*` in front of a pattern: `k` matches after some run without a line feed. -/
def matchStar (k : List Char → Bool) : List Char → Bool
  | [] => k []
  | c :: cs => k (c :: cs) || (c ≠ '\n' && matchStar k cs)

/-- The regex fallback of `matchDomainPattern`: every `*` is `.*`, every other
character stands for itself, and the whole name is matched. -/
def matchRegex : List Char → List Char → Bool
  | [] => List.isEmpty
  | c :: ps =>
    if c = '*' then matchStar (matchRegex ps)
    else fun
      | [] => false
      | d :: ds => c = d && matchRegex ps ds

/-- `matchDomainPattern`. The cache of compiled patterns is left out: a pattern
compiles to one matcher. -/
def matchDomainPattern (domain pattern : String) : Bool :=
  let domain := toLower domain
  let pattern := toLower pattern
  if pattern = "" then false
  else
    let pattern := if hasPrefix pattern "." then "*" ++ pattern else pattern
    let cs := pattern.toList
    if !contains pattern "*" then domain = pattern
    else if hasPrefix pattern "*." ∧ '*' ∉ cs.drop 2 then
      let root := String.ofList (cs.drop 2)
      domain = root || hasSuffix domain ("." ++ root)
    else if hasSuffix pattern ".*" then
      let base := trimSuffix pattern ".*"
      if base = "" ∨ contains base "*" then false else hasPrefix domain (base ++ ".")
    else if hasPrefix pattern "*" ∧ hasSuffix pattern "*" ∧ cs.count '*' = 2 then
      let needle := String.ofList ((cs.drop 1).dropLast)
      if needle = "" then false else contains domain needle
    else matchRegex cs domain.toList

/-- The blocklist sets of the settings store, as `GetBlocklistEntry` and
`GetBlocklistExceptionEntry` answer for them. -/
structure BlocklistStore where
  getBlocklistEntry : String → String → Except StageError Bool
  getBlocklistExceptionEntry : String → String → Except StageError Bool

/-- Which blocklist matched, and whether through a parent domain. -/
structure BlocklistMatch where
  blocklistID : String
  viaParent : Bool
  deriving DecidableEq

def subdomainsRuleSetting : String := "blocklists_subdomains_rule"

/-- The parent-domain walk of `matchDomainAgainstBlocklist`: `labels` are put in front
of `candidate` one by one. -/
def matchParents (c : BlocklistStore) (blocklistId : String) :
    String → List String → Except StageError (Option BlocklistMatch)
  | _, [] => .ok none
  | candidate, label :: labels => do
    let candidate := label ++ "." ++ candidate
    if ← c.getBlocklistEntry blocklistId candidate then return some ⟨blocklistId, true⟩
    matchParents c blocklistId candidate labels

/-- `matchDomainAgainstBlocklist`. The walk leaves out the top-level domain and the
full name. -/
def matchDomainAgainstBlocklist (c : BlocklistStore) (reqCtx : RequestContext)
    (blocklistId fqdn : String) :
    Except StageError (Option BlocklistMatch) := do
  if ← c.getBlocklistEntry blocklistId fqdn then return some ⟨blocklistId, false⟩
  if mapGet reqCtx.privacySettings subdomainsRuleSetting = ruleBlock then
    match ((splitDots fqdn).drop 1).reverse with
    | [] => return none
    | tld :: labels => matchParents c blocklistId tld labels
  else return none

/-- `matchDomainAgainstExceptions`: the name and its parents of two labels and more. -/
def matchDomainAgainstExceptions (c : BlocklistStore) (blocklistId fqdn : String) :
    Except StageError Bool :=
  go (splitDots fqdn)
where
  go : List String → Except StageError Bool
    | a :: b :: parts => do
      if ← c.getBlocklistExceptionEntry blocklistId (joinDots (a :: b :: parts)) then return true
      go (b :: parts)
    | _ => .ok false

/-- `matchDomainAgainstBlocklists`: the first list that matches and does not except. -/
def matchDomainAgainstBlocklists (c : BlocklistStore) (reqCtx : RequestContext) :
    List String → String → Except StageError (Option BlocklistMatch)
  | [], _ => .ok none
  | blocklistId :: blocklists, fqdn => do
    match ← matchDomainAgainstBlocklist c reqCtx blocklistId fqdn with
    | none => matchDomainAgainstBlocklists c reqCtx blocklists fqdn
    | some m =>
      if ← matchDomainAgainstExceptions c blocklistId fqdn then
        matchDomainAgainstBlocklists c reqCtx blocklists fqdn
      else return some m

/-- `extractIPsFromSVCB`. -/
def extractIPsFromSVCB (values : List SVCBKeyValue) : List IP :=
  values.flatMap fun
    | .ipv4Hint hint => hint
    | .ipv6Hint hint => hint
    | .other _ => []

/-- `extractIPsFromAnswer`. -/
def extractIPsFromAnswer (answers : List RR) : List IP :=
  answers.flatMap fun
    | .a addr => [addr]
    | .aaaa addr => [addr]
    | .https value => extractIPsFromSVCB value
    | .svcb value => extractIPsFromSVCB value
    | _ => []

/-- The record has the address, or gives it as a hint. -/
def RR.Holds (ip : IP) : RR → Prop
  | .a addr | .aaaa addr => addr = ip
  | .https value | .svcb value =>
    ∃ hint, (.ipv4Hint hint ∈ value ∨ .ipv6Hint hint ∈ value) ∧ ip ∈ hint
  | _ => False

theorem mem_extractIPsFromSVCB {values : List SVCBKeyValue} {ip : IP} :
    ip ∈ extractIPsFromSVCB values ↔ ∃ hint, (.ipv4Hint hint ∈ values ∨ .ipv6Hint hint ∈ values) ∧
      ip ∈ hint := by
  unfold extractIPsFromSVCB
  rw [List.mem_flatMap]
  constructor
  · rintro ⟨kv, hkv, hip⟩
    cases kv with
    | ipv4Hint hint => exact ⟨hint, .inl hkv, hip⟩
    | ipv6Hint hint => exact ⟨hint, .inr hkv, hip⟩
    | other key => cases hip
  · rintro ⟨hint, hkv | hkv, hip⟩
    · exact ⟨_, hkv, hip⟩
    · exact ⟨_, hkv, hip⟩

theorem mem_extractIPsFromAnswer {answers : List RR} {ip : IP} :
    ip ∈ extractIPsFromAnswer answers ↔ ∃ rr ∈ answers, rr.Holds ip := by
  unfold extractIPsFromAnswer
  rw [List.mem_flatMap]
  refine exists_congr fun rr => and_congr_right fun _ => ?_
  cases rr with
  | a addr => exact List.mem_singleton.trans eq_comm
  | aaaa addr => exact List.mem_singleton.trans eq_comm
  | https value => exact mem_extractIPsFromSVCB
  | svcb value => exact mem_extractIPsFromSVCB
  | _ => exact iff_of_false List.not_mem_nil id

/-- `extractCNAMETargets`: without the query name and without repetition. -/
def extractCNAMETargets (answers : List RR) (qname : String) : List String :=
  let q := toLower (trimSuffix qname ".")
  answers.foldl (fun targets rr =>
    match rr with
    | .cname target =>
      let t := toLower (trimSuffix target ".")
      if t = "" ∨ t = q ∨ t ∈ targets then targets else targets ++ [t]
    | _ => targets) []

/-- `config.RebindingConfig`. -/
structure RebindingConfig where
  enabled : Bool
  blockCGNAT : Bool
  blockNAT64 : Bool
  allowSuffixes : List String

/-- `alwaysPrivateRanges`. -/
def alwaysPrivateRanges : List IPNet :=
  [⟨[0, 0, 0, 0], 8⟩, ⟨[10, 0, 0, 0], 8⟩, ⟨[127, 0, 0, 0], 8⟩, ⟨[169, 254, 0, 0], 16⟩,
    ⟨[172, 16, 0, 0], 12⟩, ⟨[192, 168, 0, 0], 16⟩,
    ⟨List.replicate 16 0, 128⟩, ⟨List.replicate 15 0 ++ [1], 128⟩,
    ⟨0xfc :: List.replicate 15 0, 7⟩, ⟨0xfe :: 0x80 :: List.replicate 14 0, 10⟩]

def cgnatRange : IPNet := ⟨[100, 64, 0, 0], 10⟩

def nat64Range : IPNet := ⟨[0, 0x64, 0xff, 0x9b] ++ List.replicate 12 0, 96⟩

/-- `isPrivateRebindingIP`. -/
def isPrivateRebindingIP (ip : IP) (cfg : RebindingConfig) : Bool :=
  if ip = [] then false
  else
    let ip := ip.to4.getD ip
    alwaysPrivateRanges.any (·.contains ip) || (cfg.blockCGNAT && cgnatRange.contains ip) ||
      (cfg.blockNAT64 && nat64Range.contains ip)

/-- `isRebindingAllowedSuffix`. -/
def isRebindingAllowedSuffix (name : String) (suffixes : List String) : Bool :=
  let name := toLower (trimSuffix name ".")
  if name = "" then false
  else suffixes.any fun suffix =>
    let suffix := toLower (trimSpace suffix)
    suffix ≠ "" && (hasSuffix name suffix || name = trimPrefix suffix ".")

/-- `parseCustomRuleASN`; `none` is an invalid value. -/
def parseCustomRuleASN (value : String) : Option ℕ :=
  let trimmed := trimSpace value
  if trimmed = "" then none
  else
    let digits := if hasPrefix (toUpper trimmed) "AS" then (sliceFrom trimmed 2).map trimSpace
      else some trimmed
    (digits.bind (parseUint 32)).bind fun parsed => if parsed = 0 then none else some parsed

end ModDNS.Proxy
