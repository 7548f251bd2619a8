import ModDNS.Profiles.MirrorRuns
import ModDNS.Proxy.AddressRules
import ModDNS.Proxy.DeliveryOrder
import ModDNS.Proxy.SettingsCache

/-!
# What is stored is enforced

The proxy reads the keys that the API writes, and decides from them what it would decide from the
document in Mongo.

* `load_asked`: a load that asks the store, while the store answers.
* `reads_stored`: keys that show a document are read as its settings, up to the order of the rules
  and to repetition.
* `handleRequest_reads`: such settings give the same verdict.
* `enforced_verdict`: after any requests, every query gets the verdict of the document.
-/

namespace ModDNS.Proxy

open Conc Go Profiles

section Firsts

/-! ## Lists of which only the first places count -/

variable {c : BlocklistStore} {reqCtx : RequestContext} {f : DomainFilter} {g : IPFilter}
  {dctx : DNSContext} {stored ids l l' : List String} {fqdn id : String}

/-- A list is passed over, or ends the search, whatever comes behind it. -/
theorem matchBlocklists_cons (c : BlocklistStore) (reqCtx : RequestContext) (id fqdn : String) :
    (∀ ids, matchDomainAgainstBlocklists c reqCtx (id :: ids) fqdn =
      matchDomainAgainstBlocklists c reqCtx ids fqdn) ∨
      ∃ r, ∀ ids, matchDomainAgainstBlocklists c reqCtx (id :: ids) fqdn = r := by
  cases hone : matchDomainAgainstBlocklist c reqCtx id fqdn with
  | error err => exact .inr ⟨.error err, fun ids => by rw [matchDomainAgainstBlocklists, hone]; rfl⟩
  | ok found =>
    cases found with
    | none => exact .inl fun ids => by rw [matchDomainAgainstBlocklists, hone]; rfl
    | some m =>
      cases hexcept : matchDomainAgainstExceptions c id fqdn with
      | error err =>
        refine .inr ⟨.error err, fun ids => ?_⟩
        rw [matchDomainAgainstBlocklists, hone]
        simp only [hexcept]
        rfl
      | ok excepted =>
        cases excepted with
        | true =>
          exact .inl fun ids => by rw [matchDomainAgainstBlocklists, hone]; simp only [hexcept]; rfl
        | false =>
          refine .inr ⟨.ok (some m), fun ids => ?_⟩
          rw [matchDomainAgainstBlocklists, hone]
          simp only [hexcept]
          rfl

/-- A list that has been passed over before is passed over again. -/
theorem matchBlocklists_again (hid : id ∈ stored) (ids : List String) :
    matchDomainAgainstBlocklists c reqCtx (stored ++ id :: ids) fqdn =
      matchDomainAgainstBlocklists c reqCtx (stored ++ ids) fqdn := by
  induction stored with
  | nil => cases hid
  | cons a stored ih =>
    rcases matchBlocklists_cons c reqCtx a fqdn with hskip | ⟨r, hr⟩
    · rw [List.cons_append, List.cons_append, hskip, hskip]
      by_cases hin : id ∈ stored
      · exact ih hin
      · obtain rfl : id = a := (List.mem_cons.1 hid).resolve_right hin
        -- nothing but lists that are passed over stands between
        clear hid hin ih
        induction stored with
        | nil => exact hskip ids
        | cons b stored ih =>
          rcases matchBlocklists_cons c reqCtx b fqdn with hnext | ⟨r, hr⟩
          · rw [List.cons_append, List.cons_append, hnext, hnext, ih]
          · rw [List.cons_append, List.cons_append, hr, hr]
    · rw [List.cons_append, List.cons_append, hr, hr]

theorem matchBlocklists_addToSet (stored ids : List String) :
    matchDomainAgainstBlocklists c reqCtx (addToSet stored ids) fqdn =
      matchDomainAgainstBlocklists c reqCtx (stored ++ ids) fqdn := by
  induction ids generalizing stored with
  | nil => simp [addToSet]
  | cons id ids ih =>
    have hcons : addToSet stored (id :: ids) = addToSet
        (if id ∈ stored then stored else stored ++ [id]) ids := rfl
    rw [hcons, ih]
    split
    · next hid => exact (matchBlocklists_again hid ids).symm
    · rw [List.append_assoc]
      rfl

/-- Only where a list comes first counts. -/
theorem matchBlocklists_firsts (h : firsts l = firsts l') :
    matchDomainAgainstBlocklists c reqCtx l fqdn =
      matchDomainAgainstBlocklists c reqCtx l' fqdn := by
  have hall : ∀ l, matchDomainAgainstBlocklists c reqCtx l fqdn =
    matchDomainAgainstBlocklists c reqCtx (firsts l) fqdn :=
    fun l => (matchBlocklists_addToSet [] l).symm
  rw [hall l, hall l', h]

end Firsts

section Load

/-! ## A load that asks the store -/

/-- The store answers. -/
def answeringHandler : Handler LoadSig Unit LoadState ℕ := fun i o tick s =>
    loadHandler i o ⟨tick, false, []⟩ s

/-- What a batch brings back when every group is read. -/
def readSettings (stored : StoredProfile) : ProfileSettings :=
  { stored.groups with customRules := readRules stored (stored.customRules.map (·.1)) }

variable {id : String} {S S' : LoadState} {l : List LoadSig.Act}

theorem answered {o : LoadOp} {tick : ℕ} {r : LoadSig.Res o}
    (h : answeringHandler () o tick S = some (r, S')) :
    loadAct ⟨tick, false, []⟩ { S with now := S.now + tick } o = (r, S') := Option.some.inj h

theorem act_answered {o : LoadOp} {α : Type} {k : LoadSig.Res o → LoadProg α} {a : α}
    (h : Exec answeringHandler () (act o >>= k) S l a S') :
    ∃ tick l', l = ⟨o, (loadAct ⟨tick, false, []⟩ { S with now := S.now + tick } o).1⟩ :: l' ∧
      Exec answeringHandler () (k (loadAct ⟨tick, false, []⟩ { S with now := S.now + tick } o).1)
        (loadAct ⟨tick, false, []⟩ { S with now := S.now + tick } o).2 l' a S' := by
  obtain ⟨tick, r, S₁, l', hact, rfl, h⟩ := h
  obtain ⟨rfl, rfl⟩ := Prod.mk.inj (answered hact)
  exact ⟨tick, l', rfl, h⟩

/-- Nothing fails, and a hash that is empty is not found. -/
structure ReadAll (stored : StoredProfile) (f : Fetched) : Prop where
  settings : f.settings = readSettings stored
  privacy : f.privacyErr = hashErr false stored.groups.privacy
  others : f.storeError = false

theorem storeError_answered (stored : StoredProfile) :
    (readGroups stored []).1.storeError = false := by
  have hhash : ∀ val : Hash, hashErr false val ≠ some .store := by
    intro val
    unfold hashErr
    rw [if_neg Bool.false_ne_true]
    split
    · simp
    · simp
  simp only [Fetched.storeError, readGroups, List.not_mem_nil, decide_false, listErr,
    Bool.false_eq_true, if_false]
  simp [(hhash _).symm]

/-- **A batch reads what is stored**, while the store answers. -/
theorem batch_answered {r : Except ConnErr Fetched} (hid : id ≠ "")
    (h : Exec answeringHandler () (getProfileSettingsBatch id) S l r S') :
    ∃ f, r = .ok f ∧ ReadAll (S.store id) f ∧ S'.store = S.store := by
  unfold getProfileSettingsBatch at h
  rw [if_neg hid] at h
  obtain ⟨tick, l₁, -, h⟩ := act_answered h
  have hgroups : (loadAct ⟨tick, false, []⟩ { S with now := S.now + tick } (.groups id)).1 =
      .ok ((readGroups (S.store id) []).1, (S.store id).customRules.map (·.1)) := rfl
  have herr := storeError_answered (S.store id)
  rw [hgroups] at h
  dsimp only at h
  split at h
  · next hnil =>
    obtain ⟨-, rfl, rfl⟩ := h
    refine ⟨_, rfl, ⟨?_, rfl, herr⟩, rfl⟩
    rw [readSettings, hnil]
    rfl
  · obtain ⟨tick', l₂, -, h⟩ := act_answered h
    have hrules : ∀ S₁ : LoadState, (loadAct ⟨tick', false, []⟩ S₁
      (.rules id ((S.store id).customRules.map (·.1)))).1 =
        .ok (readRules (S₁.store id) ((S.store id).customRules.map (·.1))) := fun _ => rfl
    rw [hrules] at h
    obtain ⟨-, rfl, rfl⟩ := h
    exact ⟨_, rfl, ⟨rfl, rfl, herr⟩, rfl⟩

/-- Neither a read of the groups nor a deletion. -/
def Apart (id : String) (o : LoadOp) : Prop := o ≠ .groups id ∧ ∀ id', o ≠ .delete id'

theorem store_answered {α : Type} {p : LoadProg α} {a : α} (hp : Only (Apart id) p)
    (h : Exec answeringHandler () p S l a S') :
    S'.store = S.store ∧ ∀ x ∈ l, x.1 ≠ .groups id := by
  refine ⟨?_, fun x hx => (only_path hp (exec_path h) x hx).1⟩
  induction p generalizing S l with
  | pure b =>
    obtain ⟨-, -, rfl⟩ := h
    rfl
  | call o k ih =>
    obtain ⟨tick, r, S₁, l', hact, -, h⟩ := h
    obtain ⟨-, rfl⟩ := Prod.mk.inj (answered hact)
    rw [ih _ (hp.2 _) h]
    cases o with
    | delete id' => exact absurd rfl (hp.1.2 id')
    | _ => rfl

theorem apart_fetchAllowed : Only (Apart id) fetchAllowed := by
  refine only_op ⟨nofun, nofun⟩ fun retryAt => ?_
  split
  · trivial
  · exact only_op ⟨nofun, nofun⟩ fun _ => trivial

theorem apart_unavailable (cached : Option ProfileSettings) (state : CacheState) :
    Only (Apart id) (settingsUnavailable cached state) := by
  unfold settingsUnavailable
  split
  · exact only_op ⟨nofun, nofun⟩ fun _ => trivial
  · exact only_op ⟨nofun, nofun⟩ fun _ => trivial

/-- **A load that asks the store** gets what is stored. -/
theorem load_asked {r : Loaded} (hid : id ≠ "") (hserved : (S.store id).groups.privacy ≠ [])
    (h : Exec answeringHandler () (loadProfileSettings id) S l r S')
    (hasked : ∃ x ∈ l, x.1 = .groups id) :
    r = .settings (some (readSettings (S.store id))) := by
  obtain ⟨x, hx, hop⟩ := hasked
  unfold loadProfileSettings at h
  obtain ⟨tick, l', rfl, hnext⟩ := act_answered h
  clear h
  have hx' : x ∈ l' := by
    refine (List.mem_cons.1 hx).resolve_left ?_
    rintro rfl
    cases hop
  clear hx
  have hstore : (loadAct ⟨tick, false, []⟩ { S with now := S.now + tick } (.get id)).2.store =
      S.store := rfl
  generalize (loadAct ⟨tick, false, []⟩ { S with now := S.now + tick } (.get id)).2 =
    S₁ at hnext hstore
  generalize (loadAct ⟨tick, false, []⟩ { S with now := S.now + tick } (.get id)).1 = found at hnext
  obtain ⟨cached, state⟩ := found
  dsimp only at hnext
  split at hnext
  · -- the cache has answered
    have hlookup : Only (Apart id) (act (.lookup .hit) >>= fun _ => pure
      (Loaded.settings cached)) :=
      only_op ⟨nofun, nofun⟩ fun _ => trivial
    exact absurd hop ((store_answered hlookup hnext).2 x hx')
  -- the breaker is asked before the store is
  obtain ⟨l₁, l₂, allowed, S₂, rfl, hallowed, h⟩ := exec_bind.1 hnext
  obtain ⟨hstore₂, hapart⟩ := store_answered apart_fetchAllowed hallowed
  have hx₂ : x ∈ l₂ := (List.mem_append.1 hx').resolve_left fun hin => hapart x hin hop
  split at h
  · obtain ⟨l₃, l₄, fetched, S₃, rfl, hbatch, h⟩ := exec_bind.1 h
    obtain ⟨f, rfl, hread, -⟩ := batch_answered hid hbatch
    rw [hstore₂, hstore] at hread
    -- the batch has the `privacy` hash, so it is used and put into the cache
    have hprivacy : f.privacyErr = none := by
      rw [hread.privacy]
      unfold hashErr
      rw [if_neg Bool.false_ne_true, if_neg hserved]
    unfold useFetched at h
    obtain ⟨t₅, l₅, -, hused⟩ := act_answered h
    rw [hprivacy] at hused
    dsimp only at hused
    rw [hread.others, if_neg Bool.false_ne_true] at hused
    obtain ⟨t₆, l₆, -, hput⟩ := act_answered hused
    obtain ⟨t₇, l₇, -, hend⟩ := act_answered hput
    obtain ⟨-, hr, -⟩ := hend
    rw [← hr, hread.settings]
  · exact absurd hop ((store_answered (apart_unavailable cached state) h).2 x hx₂)

end Load

section Keys

/-! ## The keys of a profile -/

/-- A value, as Redis holds it: a switch is a digit. -/
def storedText : FieldValue → String
  | .bool true => "1"
  | .bool false => "0"
  | .text s => s

/-- The fields that the API writes to a hash. -/
def hashFields : SettingsHash → List String
  | .logs => ["enabled", "log_clients_ips", "log_domains", "retention"]
  | .statistics => ["enabled", "retention"]
  | .dnssec => ["enabled", "send_do_bit"]
  | .rebindingProtection => ["enabled"]
  | .advanced => ["recursor"]
  | .privacy => ["default_rule", "blocklists_subdomains_rule", "custom_rules_subdomains_rule"]

/-- `HGETALL` of a section. -/
def sectionHash (c : CachedSettings) (h : SettingsHash) : Hash :=
  (hashFields h).filterMap fun field => (c.hashes h field).map fun v => (field, storedText v)

/-- `HGETALL` of a custom rule. -/
def cachedHash (rule : CachedRule) : Hash :=
  [("action", rule.action.text), ("value", rule.value), ("syntax", syntaxText rule.ruleSyntax)]

def customRuleKey (profileId : String) (ruleId : RuleID) : String :=
  "settings:" ++ profileId ++ ":custom_rule:" ++ toString ruleId

/-- The keys of a profile, as the proxy reads them. -/
def storedProfile (profileId : String) (c : CachedSettings) : StoredProfile where
  groups :=
    { privacy := sectionHash c .privacy
      logs := sectionHash c .logs
      dnssec := sectionHash c .dnssec
      rebindingProtection := sectionHash c .rebindingProtection
      advanced := sectionHash c .advanced
      statistics := sectionHash c .statistics
      blocklists := c.lists .blocklists
      services := c.lists .services
      customRules := [] }
  customRules := c.customRules.map fun id =>
    (customRuleKey profileId id, ((c.rules id).map cachedHash).getD [])

/-- A section of a document, as a hash. -/
def documentHash (fields : List (String × FieldValue)) : Hash := fields.map fun field =>
    (field.1, storedText field.2)

/-- What the proxy is to enforce for a document. -/
def enforced (p : Profile) : ProfileSettings where
  privacy := documentHash p.settings.privacy.fields
  logs := documentHash p.settings.logs.fields
  dnssec := documentHash p.settings.security.dnssec.fields
  rebindingProtection := documentHash [("enabled", .bool p.settings.security.rebindingProtection)]
  advanced := documentHash [("recursor", .text p.settings.recursor)]
  statistics := documentHash p.settings.statistics.fields
  blocklists := p.settings.privacy.blocklists
  services := p.settings.privacy.services
  customRules := p.settings.customRules.map ruleHash

/-- The settings are the same up to the order of the rules and to what is said again. -/
structure ProfileSettings.Reads (settings settings' : ProfileSettings) : Prop where
  privacy : settings.privacy = settings'.privacy
  logs : settings.logs = settings'.logs
  dnssec : settings.dnssec = settings'.dnssec
  rebindingProtection : settings.rebindingProtection = settings'.rebindingProtection
  advanced : settings.advanced = settings'.advanced
  statistics : settings.statistics = settings'.statistics
  blocklists : firsts settings.blocklists = firsts settings'.blocklists
  services : firsts settings.services = firsts settings'.services
  customRules : ∀ hash, hash ∈ settings.customRules ↔ hash ∈ settings'.customRules

variable {c : CachedSettings} {p : Profile} {profileId : String}

theorem customRuleKey_injective (profileId : String) :
    Function.Injective (customRuleKey profileId) := by
  intro a b h
  have hchars := congrArg String.toList h
  simp only [customRuleKey, String.toList_append] at hchars
  have hdigits := congrArg (fun cs => Nat.ofDigitChars 10 cs 0) (List.append_cancel_left hchars)
  simpa [Nat.toString_eq_ofList_toDigits] using hdigits

/-- The hash of each rule is found under its key. -/
theorem lookup_rules {key : RuleID → String} (hkey : Function.Injective key) (hash : RuleID → Hash)
    {ids : List RuleID} {id : RuleID} (hid : id ∈ ids) :
    (ids.map fun id => (key id, hash id)).lookup (key id) = some (hash id) := by
  induction ids with
  | nil => cases hid
  | cons a ids ih =>
    rw [List.map_cons, List.lookup_cons]
    by_cases ha : key id = key a
    · rw [ha, beq_self_eq_true, hkey ha]
    · have hne : id ≠ a := fun h => ha (congrArg key h)
      rw [beq_false_of_ne ha]
      exact ih ((List.mem_cons.1 hid).resolve_left hne)

/-- The rules that are read are those of the set. -/
theorem mem_readRules {hash : Hash} :
    hash ∈ readRules (storedProfile profileId c)
      ((storedProfile profileId c).customRules.map (·.1)) ↔
      ∃ id ∈ c.customRules, ∃ rule, c.rules id = some rule ∧ cachedHash rule = hash := by
  have hrules : ∀ id ∈ c.customRules,
    ((storedProfile profileId c).customRules.lookup (customRuleKey profileId id)).getD [] =
      ((c.rules id).map cachedHash).getD [] := fun id hid => by
    have hfound : (storedProfile profileId c).customRules.lookup (customRuleKey profileId id) =
        some (((c.rules id).map cachedHash).getD []) :=
      lookup_rules (customRuleKey_injective profileId)
      (fun id => ((c.rules id).map cachedHash).getD []) hid
    rw [hfound, Option.getD_some]
  simp only [readRules, storedProfile, List.map_map, List.mem_filter, List.mem_map,
    Function.comp_apply, decide_eq_true_eq]
  constructor
  · rintro ⟨⟨id, hid, rfl⟩, hne⟩
    have hread := hrules id hid
    cases hrule : c.rules id with
    | none =>
      rw [hrule] at hread
      exact absurd hread hne
    | some rule =>
      rw [hrule] at hread
      exact ⟨id, hid, rule, hrule, hread.symm⟩
  · rintro ⟨id, hid, rule, hrule, rfl⟩
    have hread := hrules id hid
    rw [hrule] at hread
    refine ⟨⟨id, hid, hread⟩, ?_⟩
    exact List.cons_ne_nil _ _

theorem sectionHash_eq {hash : SettingsHash} {fields : List (String × FieldValue)}
    (h : ∀ field ∈ fields, c.hashes hash field.1 = some field.2)
    (hnames : fields.map Prod.fst = hashFields hash) :
    sectionHash c hash = documentHash fields := by
  unfold sectionHash documentHash
  rw [← hnames, List.filterMap_map, ← List.filterMap_eq_map]
  apply List.filterMap_congr
  intro field hfield
  simp [h field hfield]

/-- **Keys that show a document are read as its settings.** -/
theorem reads_stored (h : c.Shows p) :
    (readSettings (storedProfile profileId c)).Reads (enforced p) := by
  refine ⟨sectionHash_eq ?_ rfl, sectionHash_eq ?_ rfl, sectionHash_eq ?_ rfl,
    sectionHash_eq ?_ rfl, sectionHash_eq ?_ rfl,
    sectionHash_eq ?_ rfl, h.lists .blocklists, h.lists .services, fun hash => ?_⟩
  · simp only [Privacy.fields, List.forall_mem_cons, List.not_mem_nil, false_implies,
      implies_true, and_true]
    exact ⟨h.fields .defaultRule _ _ rfl, h.fields .blocklistsSubdomainsRule _ _ rfl,
      h.fields .customRulesSubdomainsRule _ _ rfl⟩
  · simp only [LogsSettings.fields, List.forall_mem_cons, List.not_mem_nil, false_implies,
      implies_true, and_true]
    exact ⟨h.fields .logsEnabled _ _ rfl, h.fields .logClientsIPs _ _ rfl,
      h.fields .logDomains _ _ rfl,
      h.fields .logsRetention _ _ rfl⟩
  · simp only [DNSSECSettings.fields, List.forall_mem_cons, List.not_mem_nil, false_implies,
      implies_true, and_true]
    exact ⟨h.fields .dnssecEnabled _ _ rfl, h.fields .sendDoBit _ _ rfl⟩
  · exact List.forall_mem_singleton.2 (h.fields .rebindingProtection _ _ rfl)
  · exact List.forall_mem_singleton.2 (h.fields .recursor _ _ rfl)
  · simp only [StatisticsSettings.fields, List.forall_mem_cons, List.not_mem_nil, false_implies,
      implies_true, and_true]
    exact ⟨h.fields .statisticsEnabled _ _ rfl, h.fields .statisticsRetention _ _ rfl⟩
  · refine mem_readRules.trans ?_
    simp only [enforced, List.mem_map]
    constructor
    · rintro ⟨id, hid, cached, hcached, rfl⟩
      obtain ⟨rule, hrule, rfl⟩ := List.mem_map.1 ((h.members id).1 hid)
      rw [h.rules rule hrule] at hcached
      obtain rfl := Option.some.inj hcached
      exact ⟨rule, hrule, rfl⟩
    · rintro ⟨rule, hrule, rfl⟩
      exact ⟨rule.id, (h.members rule.id).2 (List.mem_map_of_mem hrule), rule.cached,
        h.rules rule hrule, rfl⟩

end Keys

section Verdict

/-! ## The verdict -/

variable {c : BlocklistStore} {f : DomainFilter} {g : IPFilter} {reqCtx reqCtx' : RequestContext}
  {dctx : DNSContext}

theorem filterBlocklists_firsts (h : SameRequest reqCtx reqCtx')
    (hlists : firsts reqCtx'.blocklists = firsts reqCtx.blocklists) :
    f.filterBlocklists reqCtx' dctx = f.filterBlocklists reqCtx dctx := by
  rw [DomainFilter.filterBlocklists, DomainFilter.filterBlocklists,
    matchDomainAgainstBlocklists_only f.cache h.privacy,
    matchBlocklists_firsts hlists]

theorem cnameBlocklistsLoop_firsts (h : SameRequest reqCtx reqCtx')
    (hlists : firsts reqCtx'.blocklists = firsts reqCtx.blocklists) (targets : List String) :
    g.cnameBlocklistsLoop reqCtx' targets = g.cnameBlocklistsLoop reqCtx targets := by
  induction targets with
  | nil => rfl
  | cons target targets ih =>
    rw [IPFilter.cnameBlocklistsLoop, IPFilter.cnameBlocklistsLoop, ih,
      matchDomainAgainstBlocklists_only g.cache h.privacy,
      matchBlocklists_firsts hlists]

theorem uncloak_firsts (h : SameRequest reqCtx reqCtx')
    (hlists : firsts reqCtx'.blocklists = firsts reqCtx.blocklists) (targets : List String) :
    g.uncloak reqCtx' targets = g.uncloak reqCtx targets := by
  rw [IPFilter.uncloak, IPFilter.uncloak, cnameBlocklistsLoop_firsts h hlists]
  simp only [mem_targetActions_same h fun _ => Iff.rfl]

variable (dnsCheckDomain : String) (domainFilter : DomainFilter) (ipFilter : IPFilter)
  (resolve : DNSContext → Option Msg × Option String) (exchange : String → ℕ → String → Option Msg)
  (profileId : String)

theorem sameAnswer_refl (res : Option Msg) : SameAnswer res res := by
  cases res with
  | none => trivial
  | some res => exact fun rr => Iff.rfl

/-- **The verdict does not show how the settings are stored**: not the order of the rules, nor what
is said again. -/
theorem handleRequest_reads {settings settings' : ProfileSettings} (h : settings.Reads settings')
    (hcat : Validated domainFilter.servicesCatalog) (hcat' : Validated ipFilter.servicesCatalog)
    (dctx : DNSContext) :
    ((Server.new dnsCheckDomain domainFilter ipFilter resolve exchange).handleRequest
        (newRequestContext profileId settings) dctx).reqCtx.filterResult =
      ((Server.new dnsCheckDomain domainFilter ipFilter resolve exchange).handleRequest
        (newRequestContext profileId settings') dctx).reqCtx.filterResult := by
  have hservices : ∀ id, id ∈ settings'.services ↔ id ∈ settings.services := fun id => by
    rw [← mem_firsts, ← h.services, mem_firsts]
  have hsame : SameRequest (newRequestContext profileId settings)
    (newRequestContext profileId settings') :=
    ⟨h.privacy.symm, h.rebindingProtection.symm, fun hash => (h.customRules hash).symm, hservices⟩
  have hblocklists : domainFilter.filterBlocklists (newRequestContext profileId settings') dctx =
      domainFilter.filterBlocklists (newRequestContext profileId settings) dctx :=
    filterBlocklists_firsts hsame h.blocklists.symm
  have hall :=
    handleRequest_filters (P := fun _ => True) dnsCheckDomain domainFilter ipFilter resolve
      resolve exchange
    ipFilter.mapOrder hcat hcat' hsame rfl rfl (sameAnswer_refl (resolve dctx).1)
    (.of_eq hblocklists.symm)
    fun ipCtx ipCtx' hip hctx hctx' => ?_
  · exact hall.eq (handleRequest_sorted List.Pairwise.nil) (handleRequest_sorted List.Pairwise.nil)
  · have hlists : firsts ipCtx'.blocklists = firsts ipCtx.blocklists := by
      rw [hctx, hctx']
      exact h.blocklists.symm
    refine filterCNAME_of_targets ipFilter.mapOrder (by rfl) (sameAnswer_refl _)
      fun res res' hres hres' => ?_
    obtain rfl : res = res' := Option.some.inj (hres.symm.trans hres')
    exact .of_eq (uncloak_firsts hip hlists _).symm

end Verdict

section Enforcement

/-! ## From a request to a query -/

variable {V : Type} {env : ServiceEnv} {casts : Casts V} {s s' : Stores}
  {reqs : List (String × Request V)} {p : Profile} {profileId : String} {S S' : LoadState}
  {l : List LoadSig.Act} {r : Loaded} {domainFilter : DomainFilter} {ipFilter : IPFilter}

/-- **What is stored is enforced.** After any requests, a load that asks the store gets the settings
of the document, and every query gets from them the verdict that it would get from the document. -/
theorem enforced_verdict (hs : Mirrors s) (hreqs : Requests env casts s reqs s')
    (hp : s'.find profileId = some p) (hid : profileId ≠ "")
    (hstore : S.store profileId = storedProfile profileId (s'.redis profileId))
    (hload : Exec answeringHandler () (loadProfileSettings profileId) S l r S')
    (hasked : ∃ x ∈ l, x.1 = .groups profileId) (hcat : Validated domainFilter.servicesCatalog)
    (hcat' : Validated ipFilter.servicesCatalog) :
    ∃ settings, r = .settings (some settings) ∧ settings.Reads (enforced p) ∧
      ∀ dnsCheckDomain resolve exchange dctx,
        ((Server.new dnsCheckDomain domainFilter ipFilter resolve exchange).handleRequest
            (newRequestContext profileId settings) dctx).reqCtx.filterResult =
          ((Server.new dnsCheckDomain domainFilter ipFilter resolve exchange).handleRequest
            (newRequestContext profileId (enforced p)) dctx).reqCtx.filterResult := by
  have hshows : (s'.redis profileId).Shows p := (requests_mirror hs hreqs).shown hp
  have hreads : (readSettings (S.store profileId)).Reads (enforced p) := by
    rw [hstore]
    exact reads_stored hshows
  have hserved : (S.store profileId).groups.privacy ≠ [] := by
    have hprivacy : (S.store profileId).groups.privacy = documentHash p.settings.privacy.fields :=
      hreads.privacy
    rw [hprivacy]
    exact List.cons_ne_nil _ _
  refine ⟨_, load_asked hid hserved hload hasked, hreads,
    fun dnsCheckDomain resolve exchange dctx => ?_⟩
  exact handleRequest_reads dnsCheckDomain domainFilter ipFilter resolve exchange profileId hreads
    hcat hcat' dctx

end Enforcement

section Examples

/-- A proxy that has just started, in front of the keys after the requests. -/
def startedProxy : LoadState where
  cache := ⟨60, 100, 5, [], 0⟩
  store id := storedProfile id (ruledStores.redis id)
  now := 1

theorem ruledStores_find : (ruledStores.find "q").isSome := by decide +kernel

def asked (id : String) : LoadOp → Bool
  | .groups id' => id' = id
  | _ => false

theorem asked_of_any {id : String} {l : List LoadSig.Act}
    (h : l.any (fun x => asked id x.1) = true) :
    ∃ x ∈ l, x.1 = .groups id := by
  obtain ⟨⟨o, r⟩, hx, hop⟩ := List.any_eq_true.1 h
  cases o with
  | groups id' =>
    obtain rfl : id' = id := of_decide_eq_true hop
    exact ⟨_, hx, rfl⟩
  | _ => cases hop

theorem startedProxy_asks :
    ((loadProfileSettings "q").exec answeringHandler () (List.replicate 7 1) startedProxy).any
      (fun x => x.1.any fun y => asked "q" y.1) = true := by decide +kernel

/-- The rule of the new profile blocks its name. -/
theorem enforced_verdict_office : ∃ l settings S',
    Exec answeringHandler () (loadProfileSettings "q") startedProxy l
      (.settings (some settings)) S' ∧
      ((Server.new "check.example" officeDomains officeAnswers (answering []) fun _ _ _ =>
        none).handleRequest
        (newRequestContext "q" settings) ⟨1, ⟨"a.io.", .a⟩, none⟩).reqCtx.filterResult.status =
        .blocked := by
  obtain ⟨⟨l, r, S'⟩, hexec, hasks⟩ := (Option.any_eq_true _ _).1 startedProxy_asks
  have hload := exec_of_choices hexec
  have hcat : Validated officeDomains.servicesCatalog := validated_office
  have hcat' : Validated officeAnswers.servicesCatalog := validated_office
  obtain ⟨settings, hr, -, hverdict⟩ := enforced_verdict mirrors_leftover office_requests
    (Option.some_get ruledStores_find).symm
    (by decide) rfl hload (asked_of_any hasks) hcat hcat'
  rw [hr] at hload
  refine ⟨l, settings, S', hload, ?_⟩
  rw [hverdict]
  decide +kernel

end Examples

end ModDNS.Proxy
