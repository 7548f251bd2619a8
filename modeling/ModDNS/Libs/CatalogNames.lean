import Mathlib.Data.List.Nodup
import ModDNS.Data.Folds
import ModDNS.Data.Lru
import ModDNS.Go.Names
import ModDNS.Libs.Catalog

/-!
# What a catalog names

In a catalog that `Validate` accepts, an ID or alias stands for one service, and a domain belongs to
one (`valid_of_validate`). The index finds what a scan over the services would find (`findByID_eq`).
-/

namespace ModDNS.Libs

open Go Data

namespace Service

/-- The IDs of a service: its own, and its aliases. -/
def keys (s : Service) : List String := s.id :: s.aliases

/-- The name is a domain of the service, or lies below one. -/
def Covers (s : Service) (name : String) : Prop := ∃ d ∈ s.domains, AtOrBelow name d

end Service

namespace Catalog

/-- The linear scan over the services: the own ID of each, then its aliases. -/
def scan (c : Catalog) (id : String) : Option Service := c.services.find? fun s => id ∈ s.keys

/-- One of the IDs stands for the service. -/
def Denotes (c : Catalog) (ids : List String) (s : Service) : Prop :=
  s ∈ c.services ∧ ∃ id ∈ ids, id ∈ s.keys

/-- No ID is given twice or empty, no domain is listed twice, and domains are in the form of names
that are compared. -/
structure Valid (c : Catalog) : Prop where
  keys : (c.services.flatMap Service.keys).Nodup
  keys_ne : ∀ s ∈ c.services, ∀ id ∈ s.keys, id ≠ ""
  domains : (c.services.flatMap Service.domains).Nodup
  lower : ∀ s ∈ c.services, ∀ d ∈ s.domains, toLower d = d

end Catalog

section Scan

variable {c : Catalog} {id id' k d : String} {s s' : Service} {ids ids' : List String}

theorem lookup_aliases (s : Service) (aliases : List String) (id : String) :
    (aliases.map fun a => (a, s)).lookup id = if id ∈ aliases then some s else none := by
  induction aliases with
  | nil => rfl
  | cons a aliases ih => grind

/-- **The index finds what the scan finds.** -/
theorem findByID_eq (c : Catalog) (id : String) : c.findByID id = c.scan id := by
  obtain ⟨services⟩ := c
  unfold Catalog.findByID Catalog.buildIndex Catalog.scan
  induction services with
  | nil => rfl
  | cons s services ih =>
    simp only [List.flatMap_cons, List.lookup_append, ih, List.find?_cons, Service.keys,
      List.mem_cons, List.lookup_cons,
      lookup_aliases]
    grind

theorem mem_of_findByID (h : c.findByID id = some s) : s ∈ c.services ∧ id ∈ s.keys := by
  rw [findByID_eq] at h
  exact ⟨List.mem_of_find?_eq_some h, by simpa using List.find?_some h⟩

end Scan

section Validate

variable {c : Catalog} {i : ℕ} {id : String} {seen seen' l : List String}
  {seenDomains seenDomains' : List (String × String)}

theorem validateAliases_ok (h : validateAliases i id seen l = .ok seen') :
    seen' = l.reverse ++ seen ∧ l.Nodup ∧ ∀ a ∈ l, a ≠ "" ∧ a ∉ seen := by
  induction l generalizing seen with
  | nil => exact ⟨(Except.ok.inj h).symm, List.nodup_nil, List.forall_mem_nil _⟩
  | cons a l ih =>
    rw [validateAliases] at h
    split at h
    · cases h
    next hne =>
    split at h
    · cases h
    next hnew =>
    obtain ⟨hseen, hnodup, hall⟩ := ih h
    refine ⟨?_, List.nodup_cons.2 ⟨fun ha => (hall a ha).2 List.mem_cons_self, hnodup⟩,
      List.forall_mem_cons.2 ⟨⟨hne, hnew⟩, ?_⟩⟩
    · rw [hseen, List.reverse_cons, List.append_assoc, List.singleton_append]
    · exact fun x hx => ⟨(hall x hx).1, fun hs => (hall x hx).2 (List.mem_cons_of_mem _ hs)⟩

theorem validateDomains_ok (h : validateDomains i id seenDomains l = .ok seenDomains') :
    seenDomains'.map Prod.fst = l.reverse ++ seenDomains.map Prod.fst ∧ l.Nodup ∧
      ∀ d ∈ l, toLower d = d ∧ d ∉ seenDomains.map Prod.fst := by
  induction l generalizing seenDomains with
  | nil =>
    obtain rfl := Except.ok.inj h
    exact ⟨rfl, List.nodup_nil, List.forall_mem_nil _⟩
  | cons d l ih =>
    rw [validateDomains] at h
    split at h
    · cases h
    next hlower =>
    split at h
    · cases h
    split at h
    · cases h
    next hnone =>
    rw [not_not.1 hlower] at h hnone
    have hnew : d ∉ seenDomains.map Prod.fst := lookup_none_iff.1 hnone
    obtain ⟨hseen, hnodup, hall⟩ := ih h
    rw [List.map_cons] at hseen hall
    refine ⟨?_, List.nodup_cons.2 ⟨fun hd => (hall d hd).2 List.mem_cons_self, hnodup⟩,
      List.forall_mem_cons.2 ⟨⟨not_not.1 hlower, hnew⟩, ?_⟩⟩
    · rw [hseen, List.reverse_cons, List.append_assoc, List.singleton_append]
    · exact fun x hx => ⟨(hall x hx).1, fun hs => (hall x hx).2 (List.mem_cons_of_mem _ hs)⟩

theorem validateServices_ok {services : List Service}
    (h : validateServices i seen seenDomains services = .ok ()) :
    (services.flatMap Service.keys).Nodup ∧
    (∀ k ∈ services.flatMap Service.keys, k ≠ "" ∧ k ∉ seen) ∧
      (services.flatMap Service.domains).Nodup ∧
      ∀ d ∈ services.flatMap Service.domains, toLower d = d ∧ d ∉ seenDomains.map Prod.fst := by
  induction services generalizing i seen seenDomains with
  | nil => exact ⟨List.nodup_nil, List.forall_mem_nil _, List.nodup_nil, List.forall_mem_nil _⟩
  | cons s services ih =>
    rw [validateServices] at h
    split at h
    · cases h
    next hid =>
    split at h
    · cases h
    split at h
    · cases h
    next hnew =>
    cases haliases : validateAliases i s.id (s.id :: seen) s.aliases with
    | error e =>
      rw [haliases] at h
      cases h
    | ok seen' =>
      rw [haliases] at h
      cases hdomains : validateDomains i s.id seenDomains s.domains with
      | error e =>
        simp only [bind, Except.bind, hdomains] at h
        cases h
      | ok seenDomains' =>
        simp only [bind, Except.bind, hdomains] at h
        obtain ⟨rfl, hnodup, halias⟩ := validateAliases_ok haliases
        obtain ⟨hseen, hnodup', hdomain⟩ := validateDomains_ok hdomains
        obtain ⟨hkeys, hkey, hrest, hrestDomain⟩ := ih h
        rw [hseen] at hrestDomain
        simp only [List.flatMap_cons, Service.keys]
        refine ⟨?_, ?_, ?_, ?_⟩
        · refine List.nodup_append.2
            ⟨List.nodup_cons.2 ⟨fun hin => (halias _ hin).2 List.mem_cons_self, hnodup⟩, hkeys, ?_⟩
          grind
        · grind
        · refine List.nodup_append.2 ⟨hnodup', hrest, ?_⟩
          grind
        · grind

/-- **What `Validate` accepts is unambiguous.** -/
theorem valid_of_validate (h : c.validate = .ok ()) : c.Valid := by
  obtain ⟨hkeys, hkey, hdomains, hdomain⟩ := validateServices_ok h
  exact ⟨hkeys, fun s hs id hid => (hkey id (List.mem_flatMap.2 ⟨s, hs, hid⟩)).1, hdomains,
    fun s hs d hd => (hdomain d (List.mem_flatMap.2 ⟨s, hs, hd⟩)).1⟩

end Validate

section Unique

variable {c : Catalog} {id d v : String} {s s' : Service} {ids : List String} {i j : ℕ}

/-- Where nothing is listed twice, a list of lists has each element in one of them. -/
theorem unique_of_flatMap {f : Service → List String} {services : List Service} {x : String}
    (h : (services.flatMap f).Nodup) (hi : services[i]? = some s) (hj : services[j]? = some s')
    (hs : x ∈ f s)
    (hs' : x ∈ f s') : i = j := by
  have hpair := (List.nodup_flatMap.1 h).2
  rw [List.pairwise_iff_getElem] at hpair
  obtain ⟨hil, rfl⟩ := List.getElem?_eq_some_iff.1 hi
  obtain ⟨hjl, rfl⟩ := List.getElem?_eq_some_iff.1 hj
  rcases Nat.lt_trichotomy i j with hlt | heq | hlt
  · exact absurd hs' (hpair i j hil hjl hlt hs)
  · exact heq
  · exact absurd hs (hpair j i hjl hil hlt hs')

theorem same_of_flatMap {f : Service → List String} {services : List Service} {x : String}
    (h : (services.flatMap f).Nodup) (hs : s ∈ services) (hs' : s' ∈ services) (hx : x ∈ f s)
    (hx' : x ∈ f s') : s = s' := by
  obtain ⟨i, hi⟩ := List.getElem?_of_mem hs
  obtain ⟨j, hj⟩ := List.getElem?_of_mem hs'
  obtain rfl := unique_of_flatMap h hi hj hx hx'
  exact Option.some.inj (hi.symm.trans hj)

/-- In a valid catalog an ID or alias finds the service that it stands for. -/
theorem findByID_iff (h : c.Valid) : c.findByID id = some s ↔ s ∈ c.services ∧ id ∈ s.keys := by
  refine ⟨mem_of_findByID, fun ⟨hs, hid⟩ => ?_⟩
  cases hfound : c.findByID id with
  | none =>
    rw [findByID_eq, Catalog.scan, List.find?_eq_none] at hfound
    exact absurd (decide_eq_true hid) (hfound s hs)
  | some s' =>
    obtain ⟨hs', hid'⟩ := mem_of_findByID hfound
    exact congrArg some (same_of_flatMap h.keys hs' hs hid' hid)

theorem mem_domainMap :
    (d, v) ∈ c.domainMapForServiceIDs ids ↔
      ∃ id ∈ ids, ∃ s, c.findByID id = some s ∧ v = s.id ∧ ∃ d' ∈ s.domains, d = toLower d' := by
  unfold Catalog.domainMapForServiceIDs
  refine (mem_foldl (p := fun id => ∃ s, c.findByID id = some s ∧ v = s.id ∧
    ∃ d' ∈ s.domains, d = toLower d') ?_ ids
    []).trans (by simp)
  intro out id
  cases hfound : c.findByID id with
  | none => simp
  | some s =>
    dsimp only
    refine (mem_foldl (p := fun d' => v = s.id ∧ d = toLower d') ?_ s.domains out).trans (by grind)
    intro acc d'
    rw [List.mem_cons, Prod.mk.injEq]
    tauto

/-- The domains of the services that the IDs stand for, and of no others. -/
theorem lookup_domainMap (h : c.Valid) :
    (c.domainMapForServiceIDs ids).lookup d = some v ↔ ∃ s, c.Denotes ids s ∧ d ∈ s.domains ∧
      v = s.id := by
  have hmem : ∀ v, (d, v) ∈ c.domainMapForServiceIDs ids ↔ ∃ s, c.Denotes ids s ∧ d ∈ s.domains ∧
      v = s.id := by
    intro v
    rw [mem_domainMap]
    constructor
    · rintro ⟨id, hid, s, hfound, hv, d', hd', hd⟩
      obtain ⟨hs, hkey⟩ := mem_of_findByID hfound
      rw [h.lower s hs d' hd'] at hd
      exact ⟨s, ⟨hs, id, hid, hkey⟩, hd ▸ hd', hv⟩
    · rintro ⟨s, ⟨hs, id, hid, hkey⟩, hd, hv⟩
      exact ⟨id, hid, s, (findByID_iff h).2 ⟨hs, hkey⟩, hv, d, hd, (h.lower s hs d hd).symm⟩
  have hin : ∀ v, (c.domainMapForServiceIDs ids).lookup d = some v →
      (d, v) ∈ c.domainMapForServiceIDs ids := by
    intro v hv
    obtain ⟨before, after, heq, -⟩ := List.lookup_eq_some_iff.1 hv
    rw [heq]
    exact List.mem_append_right _ List.mem_cons_self
  refine ⟨fun hv => (hmem v).1 (hin v hv), fun hs => ?_⟩
  cases hlookup : (c.domainMapForServiceIDs ids).lookup d with
  | none =>
    have hnone := lookup_none_iff.1 hlookup
    exact absurd (List.mem_map_of_mem (f := Prod.fst) ((hmem v).2 hs)) hnone
  | some v' =>
    obtain ⟨s', ⟨hs', -⟩, hd', rfl⟩ := (hmem v').1 (hin v' hlookup)
    obtain ⟨s, ⟨hs, -⟩, hd, rfl⟩ := hs
    rw [same_of_flatMap h.domains hs' hs hd' hd]

/-- Two IDs for the same, or one and the same. -/
def SameID (c : Catalog) (id id' : String) : Prop :=
  id = id' ∨ ∃ s ∈ c.services, id ∈ s.keys ∧ id' ∈ s.keys

theorem findByID_same (h : c.Valid) {id' : String} (hsame : SameID c id id') :
    c.findByID id = c.findByID id' := by
  rcases hsame with rfl | ⟨s, hs, hid, hid'⟩
  · rfl
  · rw [(findByID_iff h).2 ⟨hs, hid⟩, (findByID_iff h).2 ⟨hs, hid'⟩]

theorem domainMap_same (h : c.Valid) {ids' : List String}
    (hsame : List.Forall₂ (SameID c) ids ids') :
    c.domainMapForServiceIDs ids = c.domainMapForServiceIDs ids' := by
  unfold Catalog.domainMapForServiceIDs
  generalize ([] : List (String × String)) = out
  induction hsame generalizing out with
  | nil => rfl
  | cons hid _ ih =>
    rw [List.foldl_cons, List.foldl_cons, findByID_same h hid]
    exact ih _

end Unique

end ModDNS.Libs
