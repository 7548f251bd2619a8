import ModDNS.Go.Strings

/-!
# The services catalog and the filter reasons

What the proxy reads of `libs/servicescatalog` and `libs/filterreasons`.
-/

namespace ModDNS.Libs

open Go

/-- A service preset: its logo is for the frontend only. -/
structure Service where
  id : String
  name : String
  asns : List ℕ
  domains : List String
  aliases : List String
  deriving DecidableEq

structure Catalog where
  services : List Service
  deriving DecidableEq

/-- `buildIndex`: every ID and alias, in declaration order. The first occurrence of a
key is the one a lookup finds. -/
def Catalog.buildIndex (c : Catalog) : List (String × Service) :=
  c.services.flatMap fun s => (s.id, s) :: s.aliases.map fun a => (a, s)

inductive CatalogErr where
  | idRequired (i : ℕ)
  | nameRequired (i : ℕ)
  | duplicateID (id : String)
  | emptyAlias (i : ℕ) (id : String)
  | duplicateAlias (i : ℕ) (id a : String)
  | notLowercase (i : ℕ) (id domain : String)
  | trailingDot (i : ℕ) (id domain : String)
  | domainUsed (i : ℕ) (id domain other : String)
  deriving DecidableEq

/-- The loop of `Validate` over the aliases of service `i`: the names seen, with these. -/
def validateAliases (i : ℕ) (id : String) :
    List String → List String → Except CatalogErr (List String)
  | seen, [] => .ok seen
  | seen, a :: aliases =>
    if a = "" then .error (.emptyAlias i id)
    else if a ∈ seen then .error (.duplicateAlias i id a)
    else validateAliases i id (a :: seen) aliases

/-- The loop of `Validate` over the domains of service `i`: the domains seen, each with its
service. -/
def validateDomains (i : ℕ) (id : String) : List (String × String) → List String →
    Except CatalogErr (List (String × String))
  | seenDomains, [] => .ok seenDomains
  | seenDomains, d :: domains =>
    if toLower d ≠ d then .error (.notLowercase i id d)
    else if hasSuffix d "." then .error (.trailingDot i id d)
    else match seenDomains.lookup (toLower d) with
      | some other => .error (.domainUsed i id d other)
      | none => validateDomains i id ((toLower d, id) :: seenDomains) domains

/-- The loop of `Validate` over the services, from number `i` on. -/
def validateServices (i : ℕ) (seen : List String) (seenDomains : List (String × String)) :
    List Service → Except CatalogErr Unit
  | [] => .ok ()
  | svc :: services =>
    if svc.id = "" then .error (.idRequired i)
    else if svc.name = "" then .error (.nameRequired i)
    else if svc.id ∈ seen then .error (.duplicateID svc.id)
    else do
      let seen ← validateAliases i svc.id (svc.id :: seen) svc.aliases
      let seenDomains ← validateDomains i svc.id seenDomains svc.domains
      validateServices (i + 1) seen seenDomains services

/-- `Validate`. -/
def Catalog.validate (c : Catalog) : Except CatalogErr Unit := validateServices 0 [] [] c.services

/-- `FindByID`. -/
def Catalog.findByID (c : Catalog) (id : String) : Option Service := c.buildIndex.lookup id

/-- `DomainMapForServiceIDs`: domain to service ID, the last write in front. -/
def Catalog.domainMapForServiceIDs (c : Catalog) (ids : List String) : List (String × String) :=
  ids.foldl (fun out id =>
    match c.findByID id with
    | none => out
    | some svc => svc.domains.foldl (fun out d => (toLower d, svc.id) :: out) out) []

namespace FilterReasons

def defaultRule : String := "default_rule"
def blocklistsSubdomains : String := "blocklists_subdomains_rule"
def blocklistPrefix : String := "blocklist: "
def services : String := "services"
def servicePrefix : String := "service: "
def customRules : String := "custom_rules"
def rebinding : String := "rebinding_protection"
def cnameUncloaking : String := "cname_uncloaking"

end FilterReasons

end ModDNS.Libs
