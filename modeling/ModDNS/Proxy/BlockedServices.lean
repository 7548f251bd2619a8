import ModDNS.Libs.CatalogNames
import ModDNS.Proxy.Filters

/-!
# Blocked services

The domain phase blocks the names at or below a domain of a blocked service, the IP phase the
answers with an address of one of its networks. Both read the list of IDs through the same catalog.

* `services_follow_catalog`: what the two stages block, and what they name.
-/

namespace ModDNS.Proxy

open Go Data Libs

section Domains

variable {m : List (String × String)} {parts : List String} {v : String}

theorem serviceDomainsLoop_none :
    DomainFilter.serviceDomainsLoop m parts = none ↔ ∀ l, l <:+ parts → l ≠ [] →
      m.lookup (joinDots l) = none := by
  induction parts with
  | nil => exact iff_of_true rfl fun l hl hne => absurd (List.suffix_nil.1 hl) hne
  | cons label parts ih =>
    unfold DomainFilter.serviceDomainsLoop
    split
    · next svcID hfound =>
      refine iff_of_false nofun fun h => ?_
      rw [h _ (List.suffix_refl _) (List.cons_ne_nil _ _)] at hfound
      cases hfound
    · next hnone =>
      rw [ih]
      constructor
      · intro h l hl hne
        rcases List.suffix_cons_iff.1 hl with rfl | hl
        · exact hnone
        · exact h l hl hne
      · exact fun h l hl hne => h l (hl.trans (List.suffix_cons _ _)) hne

/-- The walk stops at the longest domain that the map has. -/
theorem serviceDomainsLoop_some (h : DomainFilter.serviceDomainsLoop m parts = some v) :
    ∃ l, l <:+ parts ∧ l ≠ [] ∧ m.lookup (joinDots l) = some v ∧
      ∀ l', l' <:+ parts → l.length < l'.length → m.lookup (joinDots l') = none := by
  induction parts with
  | nil => cases h
  | cons label parts ih =>
    unfold DomainFilter.serviceDomainsLoop at h
    split at h
    · next svcID hfound =>
      obtain rfl := Option.some.inj h
      refine ⟨label :: parts, List.suffix_refl _, List.cons_ne_nil _ _, hfound,
        fun l' hl' hlong => ?_⟩
      exact absurd hl'.length_le (Nat.not_le.2 hlong)
    · next hnone =>
      obtain ⟨l, hl, hne, hlookup, hlongest⟩ := ih h
      refine ⟨l, hl.trans (List.suffix_cons _ _), hne, hlookup, fun l' hl' hlong => ?_⟩
      rcases List.suffix_cons_iff.1 hl' with rfl | hl'
      · exact hnone
      · exact hlongest l' hl' hlong

variable {c : Catalog} {ids : List String} {name : String}

/-- A service that the IDs stand for covers the name with this domain, and none does with a longer
one. -/
def CoveredBy (c : Catalog) (ids : List String) (name : String) (s : Service) : Prop :=
  c.Denotes ids s ∧ ∃ d ∈ s.domains, AtOrBelow name d ∧
    ∀ s' d', c.Denotes ids s' → d' ∈ s'.domains → AtOrBelow name d' → labelCount d' ≤ labelCount d

theorem serviceDomainsLoop_iff (h : c.Valid) :
    (DomainFilter.serviceDomainsLoop (c.domainMapForServiceIDs ids) (splitDots name) = none ↔
      ∀ s, c.Denotes ids s → ¬ s.Covers name) ∧
    ∀ v, DomainFilter.serviceDomainsLoop (c.domainMapForServiceIDs ids) (splitDots name) = some v →
      ∃ s, CoveredBy c ids name s ∧ v = s.id := by
  have hmap : ∀ d, (c.domainMapForServiceIDs ids).lookup d = none ↔ ∀ s, c.Denotes ids s →
      d ∉ s.domains := by
    intro d
    rw [Option.eq_none_iff_forall_ne_some]
    constructor
    · exact fun hn s hs hd => hn s.id ((lookup_domainMap h).2 ⟨s, hs, hd, rfl⟩)
    · intro hn v hv
      obtain ⟨s, hs, hd, -⟩ := (lookup_domainMap h).1 hv
      exact hn s hs hd
  constructor
  · rw [serviceDomainsLoop_none]
    constructor
    · rintro hn s hs ⟨d, hd, hbelow⟩
      have hnone := hn (splitDots d) (atOrBelow_iff.1 hbelow) (splitDots_ne_nil d)
      rw [joinDots_splitDots] at hnone
      exact (hmap d).1 hnone s hs hd
    · intro hn l hl hne
      refine (hmap _).2 fun s hs hd => hn s hs ⟨joinDots l, hd, atOrBelow_iff.2 ?_⟩
      rwa [splitDots_suffix hne hl]
  · intro v hv
    obtain ⟨l, hl, hne, hlookup, hlongest⟩ := serviceDomainsLoop_some hv
    obtain ⟨s, hs, hd, rfl⟩ := (lookup_domainMap h).1 hlookup
    have hsplit := splitDots_suffix hne hl
    refine ⟨s, ⟨hs, joinDots l, hd, atOrBelow_iff.2 (by rwa [hsplit]),
      fun s' d' hs' hd' hbelow => ?_⟩, rfl⟩
    rw [labelCount, labelCount, hsplit]
    by_contra hlong
    have hnone := hlongest (splitDots d') (atOrBelow_iff.1 hbelow) (Nat.not_le.1 hlong)
    rw [joinDots_splitDots] at hnone
    exact (hmap d').1 hnone s' hs' hd'

end Domains

section Networks

variable {c : Catalog} {ids ids' : List String} {s : Service} {x : String × Service}
  {asnOf : IP → Except StageError ℕ} {svcs : List (String × Service)} {ips : List IP} {id : String}

/-- The lookup finds an AS for the address; `0` says that it is in none. -/
def InAS (asnOf : IP → Except StageError ℕ) (ip : IP) (asn : ℕ) : Prop :=
  asnOf ip = .ok asn ∧ asn ≠ 0

theorem same_of_id (h : c.Valid) {s s' : Service} (hs : s ∈ c.services) (hs' : s' ∈ c.services)
    (heq : s.id = s'.id) :
    s = s' := by
  refine same_of_flatMap h.keys hs hs' (x := s.id) List.mem_cons_self ?_
  rw [heq]
  exact List.mem_cons_self

/-- The map of the blocked services has the services that the IDs stand for. -/
theorem mem_blockedSvcs (h : c.Valid) :
    x ∈ IPFilter.blockedSvcs c ids ↔ ∃ s, c.Denotes ids s ∧ x = (s.id, s) := by
  have hne : ∀ {id s}, c.findByID id = some s → id ≠ "" := by
    intro id s hfound
    obtain ⟨hs, hid⟩ := mem_of_findByID hfound
    exact h.keys_ne s hs id hid
  -- the invariant: every entry of the map is a service under its own id
  refine (mem_foldl_of (I := fun svcs => ∀ y ∈ svcs, ∃ s ∈ c.services, y = (s.id, s))
    (p := fun id => ∃ s, c.findByID id = some s ∧ x = (s.id, s)) ?_ ?_ ids
      (List.forall_mem_nil _)).trans ?_
  · intro svcs id hsvcs
    split
    · exact hsvcs
    · split
      · exact hsvcs
      · next s hfound =>
        refine List.forall_mem_cons.2 ⟨⟨s, (mem_of_findByID hfound).1, rfl⟩, fun y hy => ?_⟩
        exact hsvcs y (List.mem_of_mem_filter hy)
  · intro svcs id hsvcs
    split
    · next hid =>
      refine (or_iff_left ?_).symm
      rintro ⟨s, hfound, -⟩
      exact hne hfound hid
    · split
      · next hnone => simp [hnone]
      · next s hfound =>
        have hs := (mem_of_findByID hfound).1
        simp only [List.mem_cons, List.mem_filter, hfound, Option.some.injEq, exists_eq_left',
          decide_eq_true_eq]
        constructor
        · rintro (hx | ⟨hx, -⟩)
          · exact .inr hx
          · exact .inl hx
        · rintro (hx | hx)
          · obtain ⟨s', hs', rfl⟩ := hsvcs x hx
            by_cases heq : s'.id = s.id
            · exact .inl (by rw [same_of_id h hs' hs heq])
            · exact .inr ⟨hx, heq⟩
          · exact .inl hx
  · simp only [List.not_mem_nil, false_or, findByID_iff h, Catalog.Denotes]
    constructor
    · rintro ⟨id, hid, s, ⟨hs, hkey⟩, rfl⟩
      exact ⟨s, ⟨hs, id, hid, hkey⟩, rfl⟩
    · rintro ⟨s, ⟨hs, id, hid, hkey⟩, rfl⟩
      exact ⟨id, hid, s, ⟨hs, hkey⟩, rfl⟩

/-- The services that are named: those with the AS of an address. -/
theorem mem_matchedServices :
    id ∈ IPFilter.matchedServices asnOf svcs ips ↔
      ∃ ip ∈ ips, ∃ asn, InAS asnOf ip asn ∧ ∃ svc ∈ svcs, asn ∈ svc.2.asns ∧ id = svc.1 := by
  unfold IPFilter.matchedServices
  refine (mem_foldl (p := fun ip => ∃ asn, InAS asnOf ip asn ∧ ∃ svc ∈ svcs, asn ∈ svc.2.asns ∧
    id = svc.1) ?_ ips
    []).trans (by simp)
  intro matched ip
  unfold InAS
  cases hasn : asnOf ip with
  | error e => simp
  | ok asn =>
    dsimp only
    split
    · next hzero => simp [hzero]
    · next hzero =>
      refine (mem_foldl (p := fun svc : String × Service => asn ∈ svc.2.asns ∧ id = svc.1) ?_ svcs
        matched).trans ?_
      · intro matched svc
        split
        · next hin =>
          rw [List.mem_insert_iff]
          tauto
        · next hin => simp [hin]
      · simp [hzero]

theorem nodup_matchedServices : (IPFilter.matchedServices asnOf svcs ips).Nodup := by
  unfold IPFilter.matchedServices
  refine List.foldlRecOn ips _ List.nodup_nil fun matched hmatched ip _ => ?_
  cases asnOf ip with
  | error e => exact hmatched
  | ok asn =>
    dsimp only
    split
    · exact hmatched
    · refine List.foldlRecOn svcs _ hmatched fun matched hmatched svc _ => ?_
      split
      · exact hmatched.insert
      · exact hmatched

theorem blockedSvcs_same (h : c.Valid) (hsame : List.Forall₂ (SameID c) ids ids') :
    IPFilter.blockedSvcs c ids = IPFilter.blockedSvcs c ids' := by
  unfold IPFilter.blockedSvcs
  generalize ([] : List (String × Service)) = svcs
  induction hsame generalizing svcs with
  | nil => rfl
  | @cons id id' _ _ hid _ ih =>
    have hempty : id = "" ↔ id' = "" := by
      rcases hid with rfl | ⟨s, hs, hkey, hkey'⟩
      · rfl
      · exact iff_of_false (h.keys_ne s hs _ hkey) (h.keys_ne s hs _ hkey')
    rw [List.foldl_cons, List.foldl_cons, findByID_same h hid]
    simp only [hempty]
    exact ih _

end Networks

section Stages

variable {c : Catalog} {asnOf : IP → Except StageError ℕ} {answer : List RR} {ids : List String}
  {s : Service} {id : String}

/-- The service has the AS of an address of the answer. -/
def Reached (asnOf : IP → Except StageError ℕ) (answer : List RR) (s : Service) : Prop :=
  ∃ rr ∈ answer, ∃ ip, rr.Holds ip ∧ ∃ asn ∈ s.asns, InAS asnOf ip asn

/-- What the domain phase does with the names at or below the domains of blocked services. -/
def BlocksDomains (c : Catalog) (ids : List String) (name : String) (r : StageResult) : Prop :=
  (r = ⟨.none, tierServices, []⟩ ∧ ∀ s, c.Denotes ids s → ¬ s.Covers name) ∨
    ∃ s, CoveredBy c ids name s ∧ r =
      ⟨.block, tierServices, [FilterReasons.services, FilterReasons.servicePrefix ++ s.id]⟩

/-- What the IP phase does with answers from the networks of blocked services: it names them all,
each once. -/
def BlocksNetworks (c : Catalog) (ids : List String) (asnOf : IP → Except StageError ℕ)
    (answer : List RR) (r : StageResult) : Prop :=
  (r = ⟨.none, tierServices, []⟩ ∧ ∀ s, c.Denotes ids s → ¬ Reached asnOf answer s) ∨
    ∃ named, named ≠ [] ∧ named.Nodup ∧
      (∀ id, id ∈ named ↔ ∃ s, c.Denotes ids s ∧ Reached asnOf answer s ∧ id = s.id) ∧
      r = ⟨.block, tierServices, FilterReasons.services :: named.map
        (FilterReasons.servicePrefix ++ ·)⟩

theorem filterServiceDomains_eq (h : c.Valid) (f : DomainFilter) (reqCtx : RequestContext)
    (dctx : DNSContext) :
    ∃ r, DomainFilter.filterServiceDomains
    { f with servicesCatalog := some (.ok (some c)) } reqCtx dctx = .ok r ∧
      BlocksDomains c reqCtx.blockedServices (normalName dctx.question.name) r := by
  obtain ⟨hnone, hsome⟩ :=
    @serviceDomainsLoop_iff c reqCtx.blockedServices (normalName dctx.question.name) h
  unfold DomainFilter.filterServiceDomains loadedCatalog
  dsimp only
  rw [← normalName]
  split
  · next hloop => exact ⟨_, rfl, .inl ⟨rfl, hnone.1 hloop⟩⟩
  · next v hloop =>
    obtain ⟨s, hs, rfl⟩ := hsome v hloop
    exact ⟨_, rfl, .inr ⟨s, hs, rfl⟩⟩

theorem mem_matched (h : c.Valid) :
    id ∈ IPFilter.matchedServices asnOf (IPFilter.blockedSvcs c ids) (extractIPsFromAnswer answer) ↔
      ∃ s, c.Denotes ids s ∧ Reached asnOf answer s ∧ id = s.id := by
  simp only [mem_matchedServices, mem_extractIPsFromAnswer, mem_blockedSvcs h]
  constructor
  · rintro ⟨ip, ⟨rr, hrr, hip⟩, asn, hasn, _, ⟨s, hs, rfl⟩, hin, rfl⟩
    exact ⟨s, hs, ⟨rr, hrr, ip, hip, asn, hin, hasn⟩, rfl⟩
  · rintro ⟨s, hs, ⟨rr, hrr, ip, hip, asn, hin, hasn⟩, rfl⟩
    exact ⟨ip, ⟨rr, hrr, hip⟩, asn, hasn, _, ⟨s, hs, rfl⟩, hin, rfl⟩

theorem filterServices_eq (h : c.Valid) (f : IPFilter) (reqCtx : RequestContext)
    (dctx : DNSContext) (res : Msg) :
    ∃ r, IPFilter.filterServices
    { f with servicesCatalog := some (.ok (some c)), asnLookup := some asnOf } reqCtx
        { dctx with res := some res } = .ok r ∧
          BlocksNetworks c reqCtx.blockedServices asnOf res.answer r := by
  unfold IPFilter.filterServices loadedCatalog
  dsimp only
  have hmem := fun id => @mem_matched c asnOf res.answer reqCtx.blockedServices id h
  split
  · next hempty =>
    refine ⟨_, rfl, .inl ⟨rfl, fun s hs hreached => ?_⟩⟩
    have hin := (hmem s.id).2 ⟨s, hs, hreached, rfl⟩
    rw [List.isEmpty_iff.1 hempty] at hin
    cases hin
  · next hsome =>
    refine ⟨_, rfl, .inr ⟨_, ?_, ?_, fun id => (f.mapOrder.mem_order).trans (hmem id), rfl⟩⟩
    · exact fun hnil =>
        hsome (List.isEmpty_iff.2 (List.Perm.nil_eq (hnil ▸ f.mapOrder.perm _)).symm)
    · exact (f.mapOrder.perm _).nodup_iff.2 nodup_matchedServices

/-- **Service blocking follows the catalog**: the index finds what a scan finds, and no two services
share an ID, an alias or a domain. The two stages block the names and the networks of the services
that the IDs stand for, and an alias does what the ID does. -/
theorem services_follow_catalog (cat : Catalog) (h : cat.validate = .ok ()) :
    (∀ id, cat.findByID id = cat.scan id) ∧
      (∀ (i j : ℕ) (s s' : Service), cat.services[i]? = some s → cat.services[j]? = some s' →
        (∃ id ∈ s.keys, id ∈ s'.keys) ∨ (∃ d ∈ s.domains, d ∈ s'.domains) → i = j) ∧
      (∀ (f : DomainFilter) (reqCtx : RequestContext) (dctx : DNSContext), ∃ r,
        DomainFilter.filterServiceDomains
          { f with servicesCatalog := some (.ok (some cat)) } reqCtx dctx = .ok r ∧
          BlocksDomains cat reqCtx.blockedServices (normalName dctx.question.name) r ∧
          ∀ ids, List.Forall₂ (SameID cat) reqCtx.blockedServices ids →
            DomainFilter.filterServiceDomains { f with servicesCatalog := some (.ok (some cat)) }
              { reqCtx with blockedServices := ids } dctx = .ok r) ∧
      ∀ (f : IPFilter) (asnOf : IP → Except StageError ℕ) (reqCtx : RequestContext)
        (dctx : DNSContext) (res : Msg), ∃ r,
        IPFilter.filterServices
          { f with servicesCatalog := some (.ok (some cat)), asnLookup := some asnOf } reqCtx
            { dctx with res := some res } = .ok r ∧
          BlocksNetworks cat reqCtx.blockedServices asnOf res.answer r ∧
          ∀ ids, List.Forall₂ (SameID cat) reqCtx.blockedServices ids →
            IPFilter.filterServices
              { f with servicesCatalog := some (.ok (some cat)), asnLookup := some asnOf }
              { reqCtx with blockedServices := ids } { dctx with res := some res } = .ok r := by
  have hvalid := valid_of_validate h
  refine ⟨findByID_eq cat, ?_, ?_, ?_⟩
  -- validation refuses an ID, an alias or a domain that is there twice
  · rintro i j s s' hs hs' (⟨id, hid, hid'⟩ | ⟨d, hd, hd'⟩)
    · exact unique_of_flatMap hvalid.keys hs hs' hid hid'
    · exact unique_of_flatMap hvalid.domains hs hs' hd hd'
  -- each stage goes by the services that the IDs stand for, not by how they are spelled
  · intro f reqCtx dctx
    obtain ⟨r, hr, hblocks⟩ := filterServiceDomains_eq hvalid f reqCtx dctx
    refine ⟨r, hr, hblocks, fun ids hsame => ?_⟩
    rw [← hr]
    unfold DomainFilter.filterServiceDomains loadedCatalog
    dsimp only
    rw [domainMap_same hvalid hsame]
  · intro f asnOf reqCtx dctx res
    obtain ⟨r, hr, hblocks⟩ := @filterServices_eq cat asnOf hvalid f reqCtx dctx res
    refine ⟨r, hr, hblocks, fun ids hsame => ?_⟩
    rw [← hr]
    unfold IPFilter.filterServices loadedCatalog
    dsimp only
    rw [blockedSvcs_same hvalid hsame]

end Stages

section Examples

/-- Two services: the second has a domain below one of the first. -/
def officeCatalog : Catalog :=
  ⟨[⟨"office", "Office", [64500], ["office.com"], ["o365"]⟩,
    ⟨"mail", "Mail", [64501], ["mail.office.com"], []⟩]⟩

theorem services_follow_catalog_office : officeCatalog.findByID "o365" = officeCatalog.scan "o365" ∧
    ∃ r, DomainFilter.filterServiceDomains
      ⟨⟨fun _ _ => .ok false, fun _ _ => .ok false⟩, some (.ok (some officeCatalog))⟩
        { newRequestContext "p" .empty with blockedServices := ["o365"] }
          ⟨0, ⟨"www.office.com.", .a⟩, none⟩ =
        .ok r ∧
      BlocksDomains officeCatalog ["o365"] (normalName "www.office.com.") r := by
  obtain ⟨hfind, -, hdomains, -⟩ := services_follow_catalog officeCatalog (by decide +kernel)
  refine ⟨hfind "o365", ?_⟩
  obtain ⟨r, hr, hblocks, -⟩ := hdomains ⟨⟨fun _ _ => .ok false, fun _ _ => .ok false⟩, none⟩
    { newRequestContext "p" .empty with blockedServices := ["o365"] }
      ⟨0, ⟨"www.office.com.", .a⟩, none⟩
  exact ⟨r, hr, hblocks⟩

end Examples

end ModDNS.Proxy
