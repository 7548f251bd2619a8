import ModDNS.Blocklists.Lookups
import ModDNS.Go.Names

/-!
# What is published is what the proxy can match

The proxy finds a name in a list exactly if it is one of the names that the last update has
published: those that are valid in the download, and stored in the documents of the update.

* `matched_iff`, `parent_of_match`, `excepted_iff`: what the proxy finds in a published set.
* `published_matches`: what an update publishes.
-/

namespace ModDNS.Blocklists

open Go Conc Data Proxy

section Sets

variable {redis : String → Option RedisSet} {id q : String} {names : List String}
  {reqCtx : RequestContext}

theorem mem_published {key d : String} (h : redis key = publishedSet names) :
    (redis key).any (fun x => d ∈ x.members) = true ↔ d ∈ names := by
  rw [h]
  unfold publishedSet
  split
  · next hnil =>
    subst hnil
    simp
  · next hne => simp

theorem joinDots_merge {l : List String} {a b : String} :
    joinDots (l ++ [a ++ "." ++ b]) = joinDots (l ++ [a, b]) := by
  unfold joinDots
  induction l with
  | nil =>
    rw [List.nil_append, List.nil_append, String.intercalate_cons_cons,
      String.intercalate_singleton,
      String.intercalate_singleton]
  | cons c l ih =>
    rw [List.cons_append, List.cons_append, String.intercalate_cons_of_ne_nil (by simp),
      String.intercalate_cons_of_ne_nil (by simp), ih]

/-- A name that the walk finds is a parent. -/
theorem parent_of_matchParents {candidate : String} {labels : List String} {m : BlocklistMatch}
    (hset : redis (liveKey id) = publishedSet names)
    (h : matchParents (storeOf redis) id candidate labels = .ok (some m)) :
    m = ⟨id, true⟩ ∧ ∃ parts, parts ≠ [] ∧ parts <:+ labels.reverse ∧
    joinDots (parts ++ [candidate]) ∈ names := by
  induction labels generalizing candidate with
  | nil => cases h
  | cons label labels ih =>
    have hmatch : matchParents (storeOf redis) id candidate (label :: labels) =
        if (redis (liveKey id)).any fun x =>
          label ++ "." ++ candidate ∈ x.members then .ok (some ⟨id, true⟩)
        else matchParents (storeOf redis) id (label ++ "." ++ candidate) labels := rfl
    rw [hmatch] at h
    rw [List.reverse_cons]
    split at h
    · next hfound =>
      obtain rfl := Option.some.inj (Except.ok.inj h)
      refine ⟨rfl, [label], by simp, List.suffix_append _ _, ?_⟩
      have hin := (mem_published hset).1 hfound
      have hmerge : joinDots ([] ++ [label ++ "." ++ candidate]) = joinDots
          ([] ++ [label, candidate]) := joinDots_merge
      rw [List.nil_append, List.nil_append] at hmerge
      have hsingle : joinDots [label ++ "." ++ candidate] = label ++ "." ++ candidate :=
        String.intercalate_singleton
      rw [List.singleton_append, ← hmerge, hsingle]
      exact hin
    · obtain ⟨hm, parts, hne, hsuffix, hin⟩ := ih h
      refine ⟨hm, parts ++ [label], by simp, ?_, ?_⟩
      · obtain ⟨before, hbefore⟩ := hsuffix
        exact ⟨before, by rw [← hbefore, List.append_assoc]⟩
      · rw [joinDots_merge] at hin
        rw [List.append_assoc]
        exact hin

theorem matchDomain_eq (store : BlocklistStore) (reqCtx : RequestContext) (id q : String) :
    matchDomainAgainstBlocklist store reqCtx id q = (store.getBlocklistEntry id q).bind fun found =>
      if found then .ok (some ⟨id, false⟩)
      else if mapGet reqCtx.privacySettings subdomainsRuleSetting = ruleBlock then
        match ((splitDots q).drop 1).reverse with
        | [] => .ok none
        | tld :: labels => matchParents store id tld labels
      else .ok none := rfl

/-- **A name that the proxy finds** has been published, or one of its parents. -/
theorem parent_of_match {m : BlocklistMatch} (hset : redis (liveKey id) = publishedSet names)
    (h : matchDomainAgainstBlocklist (storeOf redis) reqCtx id q = .ok (some m)) :
    (m = ⟨id, false⟩ ∧ q ∈ names) ∨
      (m = ⟨id, true⟩ ∧ ∃ parts, 2 ≤ parts.length ∧ parts <:+ (splitDots q).drop 1 ∧
        joinDots parts ∈ names) := by
  have hread : (storeOf redis).getBlocklistEntry id q = .ok
      ((redis (liveKey id)).any fun x => q ∈ x.members) := rfl
  rw [matchDomain_eq, hread] at h
  change (if (redis (liveKey id)).any fun x => q ∈ x.members then _ else _) = _ at h
  split at h
  · next hfound =>
    obtain rfl := Option.some.inj (Except.ok.inj h)
    exact .inl ⟨rfl, (mem_published hset).1 hfound⟩
  · split at h
    · generalize hlabels : ((splitDots q).drop 1).reverse = labels at h
      cases labels with
      | nil => cases h
      | cons tld labels =>
        obtain ⟨hm, parts, hne, hsuffix, hin⟩ := parent_of_matchParents hset h
        have hlength : 0 < parts.length := List.length_pos_iff.2 hne
        have hparts : (splitDots q).drop 1 = labels.reverse ++ [tld] := by
          rw [← List.reverse_cons, ← hlabels, List.reverse_reverse]
        refine .inr ⟨hm, parts ++ [tld], ?_, ?_, hin⟩
        · rw [List.length_append, List.length_singleton]
          omega
        · obtain ⟨before, hbefore⟩ := hsuffix
          rw [hparts, ← hbefore, List.append_assoc]
          exact List.suffix_append _ _
    · cases h

/-- **The proxy finds a published name.** -/
theorem matched_iff (hset : redis (liveKey id) = publishedSet names) :
    matchDomainAgainstBlocklist (storeOf redis) reqCtx id q = .ok (some ⟨id, false⟩) ↔
      q ∈ names := by
  constructor
  · intro h
    obtain ⟨-, hin⟩ | ⟨hparent, -⟩ := parent_of_match hset h
    · exact hin
    · cases hparent
  · intro hin
    have hfound := (mem_published hset).2 hin
    unfold matchDomainAgainstBlocklist
    have hentry : (storeOf redis).getBlocklistEntry id q = .ok true := congrArg Except.ok hfound
    rw [hentry]
    rfl

/-- **The proxy finds the exceptions**: the name itself, or a parent of two labels and more. -/
theorem excepted_iff (hset : redis (exceptionsKey id) = publishedSet names) :
    matchDomainAgainstExceptions (storeOf redis) id q = .ok true ↔
      ∃ parts, 2 ≤ parts.length ∧ parts <:+ splitDots q ∧ joinDots parts ∈ names := by
  unfold matchDomainAgainstExceptions
  induction splitDots q with
  | nil =>
    refine ⟨fun h => (nomatch h), ?_⟩
    rintro ⟨parts, hlength, hsuffix, -⟩
    have hle := hsuffix.length_le
    rw [List.length_nil] at hle
    omega
  | cons a rest ih =>
    cases rest with
    | nil =>
      refine ⟨fun h => (nomatch h), ?_⟩
      rintro ⟨parts, hlength, hsuffix, -⟩
      have hle := hsuffix.length_le
      rw [List.length_singleton] at hle
      omega
    | cons b rest =>
      have hgo : matchDomainAgainstExceptions.go (storeOf redis) id (a :: b :: rest) =
          if (redis (exceptionsKey id)).any fun x =>
            joinDots (a :: b :: rest) ∈ x.members then .ok true
          else matchDomainAgainstExceptions.go (storeOf redis) id (b :: rest) := rfl
      rw [hgo]
      split
      · next hfound =>
        refine ⟨fun _ => ⟨_, by simp, List.suffix_refl _, (mem_published hset).1 hfound⟩,
          fun _ => rfl⟩
      · next hnot =>
        rw [ih]
        constructor
        · rintro ⟨parts, hlength, hsuffix, hin⟩
          exact ⟨parts, hlength, hsuffix.trans (List.suffix_cons _ _), hin⟩
        · rintro ⟨parts, hlength, hsuffix, hin⟩
          rcases List.suffix_cons_iff.1 hsuffix with rfl | hsuffix
          · exact absurd ((mem_published hset).2 hin) hnot
          · exact ⟨parts, hlength, hsuffix, hin⟩

/-- The proxy finds the names of a set for the question `q`, and no others; of a list also the names
below them if the profile wants so, and of its exceptions always. -/
def Finds (redis : String → Option RedisSet) (id : String) (names : List String) (q : String) :
    SetName → Prop
  | .main => ∀ reqCtx : RequestContext,
      (matchDomainAgainstBlocklist (storeOf redis) reqCtx id q = .ok
        (some ⟨id, false⟩) ↔ q ∈ names) ∧
      ∀ m, matchDomainAgainstBlocklist (storeOf redis) reqCtx id q = .ok (some m) →
        q ∈ names ∨ ∃ parts, 2 ≤ parts.length ∧ parts <:+ (splitDots q).drop 1 ∧
          joinDots parts ∈ names
  | .exceptions =>
      (q ∈ names → matchDomainAgainstExceptions (storeOf redis) id q = .ok true) ∧
      (matchDomainAgainstExceptions (storeOf redis) id q = .ok true ↔
        ∃ parts, 2 ≤ parts.length ∧ parts <:+ splitDots q ∧ joinDots parts ∈ names)

theorem length_labels (h : validDomain q = true) : 2 ≤ (splitDots q).length := by
  unfold validDomain validDomainRegex at h
  simp only [Bool.and_eq_true, decide_eq_true_eq] at h
  obtain ⟨-, ⟨hlength, -⟩, -⟩ := h
  unfold splitDots
  rw [List.length_map]
  exact hlength

theorem finds_published {n : SetName} (hset : redis (n.key id) = publishedSet names)
    (hvalid : ∀ d ∈ names, validDomain d = true) : Finds redis id names q n := by
  cases n with
  | main =>
    intro reqCtx
    refine ⟨matched_iff hset, fun m hm => ?_⟩
    obtain ⟨-, hin⟩ | ⟨-, hparent⟩ := parent_of_match hset hm
    · exact .inl hin
    · exact .inr hparent
  | exceptions =>
    refine ⟨fun hin => (excepted_iff hset).2
      ⟨splitDots q, length_labels (hvalid q hin), List.suffix_refl _, ?_⟩, excepted_iff hset⟩
    rw [joinDots_splitDots]
    exact hin

end Sets

section Updates

variable {env : ServiceEnv} {src : BlocklistMetadata} {l : List BlocklistAct} {grace : ℕ}
  {s s' : Stores} {r : Except BlocklistErr BlocklistMetadata}

/-- **What is published is what the proxy can match.** A set that an update publishes has exactly
the names that are valid in the download; the documents of the update have them too, in order; every
name is in normal form; and the proxy finds these names and no others. -/
theorem published_matches (hgrace : processingTimeout + grace < stagingTTL)
    (hfresh : Fresh src.blocklistID s)
    (hexec : Exec (blocklistHandler grace) () (processBlocklist env src).run s l r s') (n : SetName)
    (hpub : ∃ x ∈ l, Published (n.key src.blocklistID) x) :
    ∃ p kept docs body, Planned env src l p ∧
      (⟨.fetch p.ctx src.blocklistID src.sourceUrl, .ok body⟩ : BlocklistAct) ∈ l ∧
      Converts env src.blocklistID body p.validated p.exceptions ∧
      s'.content = kept ++ docs ∧ (∀ c ∈ docs, c.blocklistID = src.blocklistID ∧
        c.id ∉ s.content.map (·.id)) ∧
      namesOf "" docs = p.validated ∧ namesOf contentKindExceptions docs = p.exceptions ∧
      s'.redis (n.key src.blocklistID) = publishedSet (p.names n) ∧
      (∀ d ∈ p.names n, d ≠ "" ∧ '\n' ∉ d.toList ∧ normalizeDomain d = d ∧ validDomain d = true) ∧
      ∀ question, Finds s'.redis src.blocklistID (p.names n)
      (toLower (trimSuffix question ".")) n := by
  obtain ⟨kept, docs, hcollected⟩ := exec_collected hexec
  obtain ⟨x, hx, hpublished⟩ := hpub
  obtain ⟨ctx, cmd, hop, -⟩ := published_iff.1 hpublished
  obtain ⟨p, hplan, hheld⟩ := hcollected.complete (.inr (.inl ⟨x, hx, ctx, cmd, hop⟩))
  -- the set that this run has published, and not an older one
  have hset : s'.redis (n.key src.blocklistID) = publishedSet (p.names n) := by
    obtain ⟨hnone, -⟩ | ⟨-, q, hq, hset⟩ := exec_sets hgrace hfresh hexec n
    · exact absurd hpublished (hnone x hx)
    · obtain rfl := hq.unique hplan
      exact hset
  obtain ⟨l₀, hl₀, hprepared⟩ := hplan.prepared
  obtain ⟨body, hbody, hconverts⟩ := hprepared.fetched
  -- valid names have no newline, so that the documents give them back
  have hvalid := valid_of_planned hplan
  obtain ⟨hnames, hexceptions⟩ := names_of_parts hheld fun n d hd =>
    newline_of_valid (hvalid n d hd)
  refine ⟨p, kept, docs, body, hplan, hl₀.subset hbody, hconverts, hcollected.content,
    hcollected.added, hnames, hexceptions,
    hset, fun d hd => ?_, fun question => finds_published hset (hvalid n)⟩
  have hd' := hvalid n d hd
  exact ⟨validDomain_ne hd', newline_of_valid hd', normalizeDomain_valid hd', hd'⟩

/-- The update of `exec_healing` publishes two names, one of them twice, and an exception. -/
theorem published_matches_rules : ∃ l m s',
    Exec (blocklistHandler 0) () (processBlocklist rulesEnv rulesSource).run leftStores l
      (.ok m) s' ∧
      s'.redis (liveKey rulesSource.blocklistID) =
        publishedSet ["example.org", "example.net", "example.org"] ∧
      Finds s'.redis rulesSource.blocklistID ["example.org", "example.net", "example.org"]
        "www.example.org" .main ∧
      s'.redis (exceptionsKey rulesSource.blocklistID) = publishedSet ["ok.example.org"] ∧
      Finds s'.redis rulesSource.blocklistID
      ["ok.example.org"] "www.ok.example.org" .exceptions := by
  obtain ⟨l, m, s', hexec, -, hnames, hexceptions, -⟩ := exec_healing
  have hfresh : Fresh rulesSource.blocklistID leftStores := fresh_attempts fresh_rules attempts_left
  obtain ⟨p, -, -, -, hplan, -, -, -, -, -, -, hset, -, hfinds⟩ :=
    published_matches (by decide) hfresh hexec .main (published_exec hexec .main)
  obtain ⟨p', -, -, -, hplan', -, -, -, -, -, -, hset', -, hfinds'⟩ :=
    published_matches (by decide) hfresh hexec .exceptions (published_exec hexec .exceptions)
  obtain rfl := hplan'.unique hplan
  obtain ⟨-, hmain, hexcepted⟩ := documents_exec hplan hexec
  have hvalidated : p'.names .main = ["example.org", "example.net", "example.org"] :=
    hmain.symm.trans hnames
  have hexceptions' : p'.names .exceptions = ["ok.example.org"] := hexcepted.symm.trans hexceptions
  rw [hvalidated] at hset hfinds
  rw [hexceptions'] at hset' hfinds'
  exact ⟨l, m, s', hexec, hset, hfinds "www.example.org.", hset', hfinds' "www.ok.example.org."⟩

end Updates

end ModDNS.Blocklists
