import ModDNS.Data.Folds
import ModDNS.Proxy.Filters
import ModDNS.Proxy.Subscribed

/-!
# CNAME uncloaking

The targets of an answer are judged like query names: by the custom rules, where one that allows
wins, and then by the subscribed blocklists. Only what the answer and the rules hold counts, not in
which order or how often.

* `filterCNAME_decides`: the decision, and which rules and lists count for a target.
-/

namespace ModDNS.Proxy

open Go Data Libs

/-- The stage runs: a missing configuration leaves it on. -/
def IPFilter.Uncloaks (f : IPFilter) : Prop := f.cnameUncloakingEnabled ≠ some false

/-- A name that a CNAME record of the answer points to, other than the query name and the root. -/
def IsTarget (answer : List RR) (qname t : String) : Prop :=
  t ≠ "" ∧ t ≠ toLower (trimSuffix qname ".") ∧ ∃ target, RR.cname target ∈ answer ∧
    t = toLower (trimSuffix target ".")

/-- A target matches a rule with the action. -/
def TargetRuled (rules : List Hash) (T : String → Prop) (action : String) : Prop :=
  ∃ hash ∈ rules, ∃ t, T t ∧ matchDomainPattern t (mapGet hash "value") = true ∧
    mapGet hash "action" = action

/-- A target is matched by the subscribed blocklists. -/
def TargetListed (c : BlocklistStore) (reqCtx : RequestContext) (T : String → Prop) : Prop :=
  ∃ t m, T t ∧ matchDomainAgainstBlocklists c reqCtx reqCtx.blocklists t = .ok (some m)

open Classical in
/-- What the targets `T` come to: the decision and its tier. -/
noncomputable def uncloaked (c : BlocklistStore) (reqCtx : RequestContext) (T : String → Prop) :
    Decision × ℕ :=
  if TargetRuled reqCtx.customRules T actionAllow then (.allow, tierCustomRules)
  else if TargetRuled reqCtx.customRules T actionBlock then (.block, tierCustomRules)
  else if TargetListed c reqCtx T then (.block, tierBlocklists)
  else (.none, tierBlocklists)

section Names

variable {s pattern : String} {c : Char}

theorem toLowerRune_toLowerRune (c : Char) : toLowerRune (toLowerRune c) = toLowerRune c := by
  by_cases hcapital : 65 ≤ c.toNat ∧ c.toNat ≤ 90
  · refine toLowerRune_eq (.inr ?_)
    rw [toNat_toLowerRune hcapital.1 hcapital.2]
    omega
  · by_cases h1 : c = Char.ofNat 0x130
    · subst h1
      decide
    by_cases h2 : c = Char.ofNat 0x212A
    · subst h2
      decide
    have hsame : toLowerRune c = c := by
      rw [toLowerRune, if_neg h1, if_neg h2]
      exact toLower_other hcapital
    rw [hsame, hsame]

theorem toLower_toLower (s : String) : toLower (toLower s) = toLower s := by
  unfold toLower
  rw [String.toList_ofList, List.map_map]
  exact congrArg _ (List.map_congr_left fun c _ => toLowerRune_toLowerRune c)

/-- A pattern matches names in any case. -/
theorem matchDomainPattern_toLower (s pattern : String) :
    matchDomainPattern (toLower s) pattern = matchDomainPattern s pattern := by
  unfold matchDomainPattern
  rw [toLower_toLower]

end Names

section Targets

variable {answer : List RR} {qname t : String}

/-- The targets that are collected. -/
theorem mem_extractCNAMETargets :
    t ∈ extractCNAMETargets answer qname ↔ IsTarget answer qname t := by
  refine (mem_foldl (p := fun rr : RR => t ≠ "" ∧ t ≠ toLower (trimSuffix qname ".") ∧
    ∃ target, rr = .cname target ∧ t = toLower (trimSuffix target ".")) ?_ answer []).trans ?_
  · intro targets rr
    cases rr with
    | cname target =>
      dsimp only
      split <;> grind
    | _ => simp
  · simp only [List.not_mem_nil, false_or, IsTarget]
    grind

/-- Only the CNAME records that the answer holds count. -/
theorem isTarget_congr {answer' : List RR} (h : ∀ rr, rr ∈ answer ↔ rr ∈ answer') :
    IsTarget answer qname = IsTarget answer' qname := by
  funext t
  simp only [IsTarget, h]

end Targets

section Stage

variable {f : IPFilter} {reqCtx : RequestContext} {dctx : DNSContext} {res : Msg} {ls : Lists}

/-- The search over the lists looks at the privacy settings only. -/
theorem matchDomainAgainstBlocklists_only (c : BlocklistStore) {reqCtx reqCtx' : RequestContext}
    (h : reqCtx'.privacySettings = reqCtx.privacySettings) (blocklists : List String)
    (name : String) :
    matchDomainAgainstBlocklists c reqCtx' blocklists name =
    matchDomainAgainstBlocklists c reqCtx blocklists name := by
  induction blocklists with
  | nil => rfl
  | cons id blocklists ih =>
    unfold matchDomainAgainstBlocklists matchDomainAgainstBlocklist
    rw [ih, h]

theorem targetListed_cons {target : String} {targets : List String}
    {found : Option BlocklistMatch}
    (hfound : matchDomainAgainstBlocklists ls.store reqCtx reqCtx.blocklists target = .ok found) :
    TargetListed ls.store reqCtx (· ∈ target :: targets) ↔
      (∃ m, found = some m) ∨ TargetListed ls.store reqCtx (· ∈ targets) := by
  simp only [TargetListed, List.mem_cons, or_and_right, exists_or, ↓existsAndEq, hfound,
    Except.ok.injEq, true_and]

/-- The loop over the targets finds one that the lists match. -/
theorem cnameBlocklistsLoop_iff (reqCtx : RequestContext) (hcache : f.cache = ls.store)
    (targets : List String) :
    ∃ r, f.cnameBlocklistsLoop reqCtx targets = .ok r ∧
      ((r.decision, r.tier) = (.block, tierBlocklists) ∧
        TargetListed ls.store reqCtx (· ∈ targets) ∨
        (r.decision, r.tier) = (.none, tierBlocklists) ∧
        ¬ TargetListed ls.store reqCtx (· ∈ targets)) := by
  induction targets with
  | nil => exact ⟨_, rfl, .inr ⟨rfl, by simp [TargetListed]⟩⟩
  | cons target targets ih =>
    obtain ⟨r, hr, hloop⟩ := ih
    obtain ⟨found, hfound, -⟩ := matchDomainAgainstBlocklists_eq ls reqCtx reqCtx.blocklists target
    rw [targetListed_cons hfound]
    unfold IPFilter.cnameBlocklistsLoop
    rw [hcache, hfound]
    cases found with
    | none => exact ⟨r, hr, by simpa using hloop⟩
    | some m => exact ⟨_, rfl, .inl ⟨rfl, .inl ⟨m, rfl⟩⟩⟩

theorem filterCNAME_eq (reqCtx : RequestContext) (hcache : f.cache = ls.store) (hon : f.Uncloaks)
    (hres : dctx.res = some res) :
    ∃ r, f.filterCNAME reqCtx dctx = .ok r ∧
      (r.decision, r.tier) = uncloaked ls.store reqCtx
        (IsTarget res.answer dctx.question.name) := by
  obtain ⟨r, hr, hloop⟩ := cnameBlocklistsLoop_iff reqCtx hcache
    (extractCNAMETargets res.answer dctx.question.name)
  have htargets : (· ∈ extractCNAMETargets res.answer dctx.question.name) =
    IsTarget res.answer dctx.question.name :=
    funext fun t => propext mem_extractCNAMETargets
  rw [htargets] at hloop
  -- the rules that match some target, whatever the order of the two loops
  have hactions : ∀ action, action ∈ (reqCtx.customRules.flatMap fun hash =>
      (extractCNAMETargets res.answer dctx.question.name).flatMap fun target =>
        if matchDomainPattern target (mapGet hash "value") then [mapGet hash "action"] else []) ↔
      TargetRuled reqCtx.customRules (IsTarget res.answer dctx.question.name) action := by
    intro action
    simp only [List.mem_flatMap, mem_extractCNAMETargets, TargetRuled]
    grind
  unfold IPFilter.filterCNAME uncloaked
  rw [hres]
  split
  · next hoff => exact absurd hoff hon
  · next hnil _ => cases hnil
  · next hsome _ =>
    obtain rfl := Option.some.inj hsome
    dsimp only
    -- a rule that allows, a rule that blocks, then the lists
    by_cases hallow : TargetRuled reqCtx.customRules
      (IsTarget res.answer dctx.question.name) actionAllow
    · rw [if_pos ((hactions _).2 hallow), if_pos hallow]
      exact ⟨_, rfl, rfl⟩
    rw [if_neg fun h => hallow ((hactions _).1 h), if_neg hallow]
    by_cases hblock : TargetRuled reqCtx.customRules
      (IsTarget res.answer dctx.question.name) actionBlock
    · rw [if_pos ((hactions _).2 hblock), if_pos hblock]
      exact ⟨_, rfl, rfl⟩
    rw [if_neg fun h => hblock ((hactions _).1 h), if_neg hblock]
    refine ⟨r, hr, ?_⟩
    obtain ⟨hdecision, hlisted⟩ | ⟨hdecision, hlisted⟩ := hloop
    · rw [if_pos hlisted, hdecision]
    · rw [if_neg hlisted, hdecision]

/-- The rules and the lists that count for a target are those that the domain phase would match, if
the target were the query name. -/
structure LikeQueryName (ls : Lists) (reqCtx : RequestContext) (dctx : DNSContext)
    (target : String) : Prop where
  rule : ∀ hash, ∃ r,
    DomainFilter.filterCustomRules { reqCtx with customRules := [hash] }
      { dctx with question.name := target } = .ok r ∧
      ∀ t, t = toLower (trimSuffix target ".") →
        (r.decision = .allow ↔ matchDomainPattern t (mapGet hash "value") = true ∧
          mapGet hash "action" = actionAllow) ∧
        (r.decision = .block ↔ matchDomainPattern t (mapGet hash "value") = true ∧
          mapGet hash "action" = actionBlock)
  lists : ∀ catalog ids, ∃ r,
    DomainFilter.filterBlocklists ⟨ls.store, catalog⟩ { reqCtx with blocklists := ids }
        { dctx with question.name := target } = .ok r ∧
      ∀ t, t = toLower (trimSuffix target ".") →
        (r.decision = .block ↔ ∃ m, matchDomainAgainstBlocklists ls.store reqCtx ids t = .ok
          (some m))

theorem filterCustomRules_decision (reqCtx : RequestContext) (dctx : DNSContext) :
    ∃ r, DomainFilter.filterCustomRules reqCtx dctx = .ok r ∧
      r.decision = DomainFilter.customRulesLoop
        (trimSuffix dctx.question.name ".") reqCtx.customRules false := by
  unfold DomainFilter.filterCustomRules
  split
  · next h => exact ⟨_, rfl, h.symm⟩
  · exact ⟨_, rfl, rfl⟩

theorem actionBlock_ne : actionBlock ≠ actionAllow := by decide

/-- What one rule alone does to a query name. -/
theorem customRulesLoop_single (name : String) (hash : Hash) :
    (DomainFilter.customRulesLoop name [hash] false = .allow ↔
      matchDomainPattern name (mapGet hash "value") = true ∧ mapGet hash "action" = actionAllow) ∧
    (DomainFilter.customRulesLoop name [hash] false = .block ↔
      matchDomainPattern name (mapGet hash "value") = true ∧
        mapGet hash "action" = actionBlock) := by
  have hne := actionBlock_ne
  unfold DomainFilter.customRulesLoop DomainFilter.customRulesLoop
  split
  · next hvalue =>
    split
    · next hblock => simp [hvalue, hblock, hne]
    · next hblock =>
      by_cases hallow : mapGet hash "action" = actionAllow
      · simp [hvalue, hallow, hne.symm]
      · simp [hblock, hallow]
  · next hvalue => simp [hvalue]

theorem likeQueryName (ls : Lists) (reqCtx : RequestContext) (dctx : DNSContext) (target : String) :
    LikeQueryName ls reqCtx dctx target where
  rule hash := by
    obtain ⟨r, hr, hdecision⟩ :=
      filterCustomRules_decision { reqCtx with customRules := [hash] }
        { dctx with question.name := target }
    refine ⟨r, hr, ?_⟩
    rintro t rfl
    rw [hdecision, matchDomainPattern_toLower]
    exact customRulesLoop_single (trimSuffix target ".") hash
  lists catalog ids := by
    obtain ⟨found, hfound, -⟩ :=
      matchDomainAgainstBlocklists_eq ls reqCtx ids (toLower (trimSuffix target "."))
    unfold DomainFilter.filterBlocklists
    dsimp only
    rw [@matchDomainAgainstBlocklists_only ls.store reqCtx
      { reqCtx with blocklists := ids } rfl, hfound]
    cases found with
    | none =>
      refine ⟨_, rfl, ?_⟩
      rintro t rfl
      simp [hfound]
    | some m =>
      refine ⟨_, rfl, ?_⟩
      rintro t rfl
      simp [hfound]

/-- **What uncloaking decides.** Over the targets of the answer, a rule that allows wins over one
that blocks, and a rule over the lists; the order and the repetition of records and rules do not
matter; and a target is judged by the rules and lists that would judge it as a query name. -/
theorem filterCNAME_decides (hcache : f.cache = ls.store) (hon : f.Uncloaks)
    (hres : dctx.res = some res) :
    (∃ r, f.filterCNAME reqCtx dctx = .ok r ∧
      (r.decision, r.tier) = uncloaked ls.store reqCtx (IsTarget res.answer dctx.question.name)) ∧
    (∀ rules answer, (∀ hash, hash ∈ reqCtx.customRules ↔ hash ∈ rules) →
      (∀ rr, rr ∈ res.answer ↔ rr ∈ answer) →
      ∃ r r', f.filterCNAME reqCtx dctx = .ok r ∧
        f.filterCNAME { reqCtx with customRules := rules }
          { dctx with res := some { res with answer := answer } } = .ok r' ∧
        (r.decision, r.tier) = (r'.decision, r'.tier)) ∧
    ∀ target, LikeQueryName ls reqCtx dctx target := by
  obtain ⟨r, hr, hdecision⟩ := filterCNAME_eq reqCtx hcache hon hres
  refine ⟨⟨r, hr, hdecision⟩, fun rules answer hrules hanswer => ?_, likeQueryName ls reqCtx dctx⟩
  obtain ⟨r', hr', hdecision'⟩ :=
    @filterCNAME_eq f { dctx with res := some { res with answer := answer } } _ ls
    { reqCtx with customRules := rules } hcache hon rfl
  refine ⟨r, r', hr, hr', ?_⟩
  -- only which rules and records there are goes into the decision
  have hruled : TargetRuled rules = TargetRuled reqCtx.customRules := by
    funext T action
    simp only [TargetRuled, hrules]
  have hlisted : TargetListed ls.store { reqCtx with customRules := rules } =
      TargetListed ls.store reqCtx := by
    funext T
    unfold TargetListed
    simp only [@matchDomainAgainstBlocklists_only ls.store reqCtx
      { reqCtx with customRules := rules } rfl]
  rw [hdecision, hdecision', uncloaked, uncloaked, hlisted, hruled, isTarget_congr hanswer]

/-- A stage with empty lists. -/
def emptyStage : IPFilter where
  cache := Lists.store ⟨fun _ _ => false, fun _ _ => false⟩
  servicesCatalog := none
  asnLookup := none
  rebindingConfig := none
  cnameUncloakingEnabled := none
  mapOrder := ⟨id, List.Perm.refl⟩

/-- An answer that points to a name. -/
def aliasContext (target : String) : DNSContext :=
  { id := 0, question := ⟨"shop.example.", .a⟩
    res := some
      { (DNSContext.req ⟨0, ⟨"shop.example.", .a⟩, none⟩).setReply with
        answer := [.cname target] } }

/-- Every name is allowed. -/
def allowAll : RequestContext :=
  { newRequestContext "p" .empty with customRules := [[("value", "*"), ("action", "allow")]] }

theorem filterCNAME_decides_alias :
    emptyStage.filterCNAME allowAll (aliasContext "Tracker.example.") =
        .ok ⟨.allow, tierCustomRules, [FilterReasons.customRules, FilterReasons.cnameUncloaking]⟩ ∧
      ∃ res, (aliasContext "Tracker.example.").res = some res ∧ ∃ r,
        emptyStage.filterCNAME allowAll (aliasContext "Tracker.example.") = .ok r ∧
          (r.decision, r.tier) = uncloaked emptyStage.cache allowAll
            (IsTarget res.answer "shop.example.") :=
  ⟨by decide +kernel, _, rfl, (filterCNAME_decides (f := emptyStage) rfl nofun rfl).1⟩

/-- The root is passed over, although the rule matches it. -/
theorem root_passed_over :
    emptyStage.filterCNAME allowAll (aliasContext ".") = .ok ⟨.none, tierBlocklists, []⟩ ∧
      toLower (trimSuffix "." ".") ≠ toLower (trimSuffix "shop.example." ".") ∧
      (∃ hash ∈ allowAll.customRules, matchDomainPattern (toLower (trimSuffix "." "."))
        (mapGet hash "value") = true ∧
        mapGet hash "action" = actionAllow) := by
  decide +kernel

end Stage

end ModDNS.Proxy
