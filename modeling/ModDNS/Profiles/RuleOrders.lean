import Mathlib.Tactic.FinCases
import ModDNS.Profiles.RuleRuns

/-!
# The display order of the rules

Requests on the rules of the profiles of an account, one after the other. A new rule gets the number
of the rules that are there as its order.

* `orders_act`: when a call keeps the orders different, and puts new rules behind.
* `orders_kept`: the orders after every sequence of requests in which no stored order has reached
  the number of the rules when rules are created, and nothing is appended to a profile that has
  rules.
-/

namespace ModDNS.Profiles

open Conc Data

section Calls

variable {s : Stores} {pid : String} {x : profileCalls.sig.Act}

/-- The rules that come are behind those that were there. -/
def NewBehind (old new : List CustomRule) : Prop :=
  ∀ rule ∈ new, rule.id ∉ old.map (·.id) → ∀ r ∈ old, r.order < rule.order

/-- The orders that a call writes fit those of the profile. -/
def OrderFits (pid : String) (rules : List CustomRule) : ProfileOp → Prop
  | .createProfile p => p.profileId = pid → (p.settings.customRules.map (·.order)).Nodup
  | .edit pid' (.createCustomRules new) => pid' = pid →
      (new.map (·.order)).Nodup ∧ ∀ rule ∈ new, ∀ r ∈ rules, r.order < rule.order
  | .edit pid' (.updateCustomRule rule) =>
    pid' = pid → ∀ r ∈ rules, r.id = rule.id → r.order = rule.order
  | .edit pid' (.updateCustomRulesOrder idToOrder) => pid' = pid →
      (rules.map fun r => (idToOrder.lookup r.id).getD r.order).Nodup
  | .findOneAndUpdate pid' upd => pid' = pid →
      missing rules upd.appendCustomRules = [] ∨
        (rules = [] ∧ (missing rules upd.appendCustomRules).length ≤ 1)
  | _ => True

/-- **The orders after a call.** -/
theorem orders_act (h : ((s.rules pid).map (·.order)).Nodup)
    (hfits : TookEffect x.2 → OrderFits pid (s.rules pid) x.1) :
    (((s.act x).rules pid).map (·.order)).Nodup ∧ NewBehind (s.rules pid)
    ((s.act x).rules pid) := by
  have hold : ∀ {old new : List CustomRule}, (∀ rule ∈ new, ∃ r ∈ old, r.id = rule.id) →
      NewBehind old new := by
    intro old new hids rule hrule hnot
    obtain ⟨r, hr, hid⟩ := hids rule hrule
    exact absurd (List.mem_map.2 ⟨r, hr, hid⟩) hnot
  -- a call either leaves the rules or is one of the steps on them
  rcases ruleStep_act s pid x with hsame | ⟨htook, hstep⟩
  · rw [hsame]
    exact ⟨h, hold fun rule hrule => ⟨rule, hrule, rfl⟩⟩
  obtain ⟨o, r⟩ := x
  have hnew := hfits htook
  change OrderFits pid _ o at hnew
  change RuleStep pid o _ _ at hstep
  generalize s.rules pid = old at h hnew hstep ⊢
  generalize (s.act ⟨o, r⟩).rules pid = new at hstep ⊢
  cases hstep with
  | gone => exact ⟨List.nodup_nil, hold (List.forall_mem_nil _)⟩
  | inserted hpid => exact ⟨hnew hpid, fun rule _ _ => List.forall_mem_nil _⟩
  -- the added orders are all above the stored ones
  | @created _ added =>
    obtain ⟨hadded, hbehind⟩ := hnew rfl
    constructor
    · exact nodup_field_append h hadded fun rule hrule r₁ hr₁ =>
        Nat.ne_of_lt (hbehind rule hrule r₁ hr₁)
    · intro rule hrule hnot r₁ hr₁
      rcases List.mem_append.1 hrule with hrule | hrule
      · exact absurd (List.mem_map_of_mem hrule) hnot
      · exact hbehind rule hrule r₁ hr₁
  | @replaced _ rule =>
    constructor
    · refine nodup_field_map h fun r₀ hr₀ => ?_
      split
      · next hid => exact (hnew rfl r₀ hr₀ hid).symm
      · rfl
    · refine hold fun rule' hrule' => ?_
      obtain ⟨r₀, hr₀, rfl⟩ := List.mem_map.1 hrule'
      refine ⟨r₀, hr₀, ?_⟩
      split
      · next hid => exact hid
      · rfl
  | removed =>
    exact ⟨h.sublist (List.filter_sublist.map _), hold fun rule hrule =>
      ⟨rule, (List.mem_filter.1 hrule).1, rfl⟩⟩
  | reordered =>
    constructor
    · rw [List.map_map]
      exact hnew rfl
    · refine hold fun rule hrule => ?_
      obtain ⟨r₀, hr₀, rfl⟩ := List.mem_map.1 hrule
      exact ⟨r₀, hr₀, rfl⟩
  | regrouped =>
    constructor
    · exact nodup_field_map h fun r₀ _ => by split <;> rfl
    · refine hold fun rule hrule => ?_
      obtain ⟨r₀, hr₀, rfl⟩ := List.mem_map.1 hrule
      refine ⟨r₀, hr₀, ?_⟩
      split <;> rfl
  -- a PATCH appends with the orders it read: nothing, or one rule to none
  | @appended _ upd =>
    obtain ⟨added, heq, hle⟩ := appended_le old upd.appendCustomRules
    rw [heq]
    rcases hnew rfl with hnone | ⟨rfl, hone⟩
    · have hnil : added = [] := by
        rw [hnone] at hle
        exact List.length_eq_zero_iff.1 (Nat.le_zero.1 hle)
      rw [hnil, List.append_nil]
      exact ⟨h, hold fun rule hrule => ⟨rule, hrule, rfl⟩⟩
    · refine ⟨?_, fun rule _ _ => List.forall_mem_nil _⟩
      rw [List.nil_append]
      match added, hle.trans hone with
      | [], _ => exact List.nodup_nil
      | [rule], _ => exact List.nodup_singleton _

end Calls

section Reorder

variable {ids : List RuleID}

/-- One id of the list: it gets its place, unless it has one. -/
def placed (m : List (RuleID × ℕ)) (row : RuleID × ℕ) : List (RuleID × ℕ) :=
  if row.1 ∈ m.map Prod.fst then m else m ++ [row]

theorem idToOrder_eq (ids : List RuleID) : idToOrder ids = ids.zipIdx.foldl placed [] := rfl

/-- The loop keeps what it has, and gives a place to each id. -/
theorem placed_loop (l m : List (RuleID × ℕ)) :
    (∀ row ∈ l.foldl placed m, row ∈ m ∨ row ∈ l) ∧
      ∀ row, row ∈ m ∨ row ∈ l → row.1 ∈ (l.foldl placed m).map Prod.fst := by
  induction l generalizing m with
  | nil => exact ⟨fun row hrow => .inl hrow, fun row hrow => List.mem_map_of_mem
      (hrow.resolve_right List.not_mem_nil)⟩
  | cons first l ih =>
    obtain ⟨hfrom, hall⟩ := ih (placed m first)
    rw [List.foldl_cons]
    -- one id is placed at the end, or has a place
    have hplaced : ∀ row ∈ placed m first, row ∈ m ∨ row = first := by
      intro row hrow
      unfold placed at hrow
      split at hrow
      · exact .inl hrow
      · exact (List.mem_append.1 hrow).imp_right List.mem_singleton.1
    have hkeys : ∀ row, row ∈ m ∨ row = first → row.1 ∈ (placed m first).map Prod.fst := by
      intro row hrow
      unfold placed
      split
      · next hseen =>
        rcases hrow with hrow | rfl
        · exact List.mem_map_of_mem hrow
        · exact hseen
      · rcases hrow with hrow | rfl
        · exact List.mem_map_of_mem (List.mem_append_left _ hrow)
        · exact List.mem_map_of_mem (List.mem_append_right _ (List.mem_singleton_self _))
    constructor
    · intro row hrow
      rcases hfrom row hrow with hrow | hrow
      · refine (hplaced row hrow).imp_right fun heq => ?_
        rw [heq]
        exact List.mem_cons_self ..
      · exact .inr (List.mem_cons_of_mem _ hrow)
    · intro row hrow
      have hkey : row ∈ m ∨ row = first →
          row.1 ∈ (l.foldl placed (placed m first)).map Prod.fst := by
        intro h
        obtain ⟨row', hrow', heq⟩ := List.mem_map.1 (hkeys row h)
        rw [← heq]
        exact hall row' (.inl hrow')
      rcases hrow with hrow | hrow
      · exact hkey (.inl hrow)
      · rcases List.mem_cons.1 hrow with heq | hrow
        · exact hkey (.inr heq)
        · exact hall row (.inr hrow)

/-- The map of a reorder: it has the ids of the list, each with a place of its own. -/
theorem idToOrder_rows (ids : List RuleID) : (∀ row ∈ idToOrder ids, ids[row.2]? = some row.1) ∧
    ∀ id ∈ ids, id ∈ (idToOrder ids).map Prod.fst := by
  obtain ⟨hfrom, hall⟩ := placed_loop ids.zipIdx []
  rw [idToOrder_eq]
  constructor
  · intro row hrow
    exact List.mem_zipIdx_iff_getElem?.1 ((hfrom row hrow).resolve_left List.not_mem_nil)
  · intro id hid
    obtain ⟨k, hk⟩ := List.mem_iff_getElem?.1 hid
    exact hall (id, k) (.inr (List.mem_zipIdx_iff_getElem?.2 hk))

/-- **A complete reorder** gives the rules different orders. -/
theorem reorder_nodup {rules : List CustomRule} (hids : (rules.map (·.id)).Nodup)
    (hall : ∀ rule ∈ rules, rule.id ∈ ids) :
    (rules.map fun r => ((idToOrder ids).lookup r.id).getD r.order).Nodup := by
  obtain ⟨hplaces, hkeys⟩ := idToOrder_rows ids
  have hplace : ∀ rule ∈ rules, ids[((idToOrder ids).lookup rule.id).getD rule.order]? =
      some rule.id := by
    intro rule hrule
    have hkey := hkeys rule.id (hall rule hrule)
    cases hlookup : (idToOrder ids).lookup rule.id with
    | none =>
      obtain ⟨row, hrow, hid⟩ := List.mem_map.1 hkey
      have hne := List.lookup_eq_none_iff.1 hlookup row hrow
      simp [hid] at hne
    | some k =>
      obtain ⟨l₁, l₂, hsplit, -⟩ := List.lookup_eq_some_iff.1 hlookup
      exact hplaces (rule.id, k) (by rw [hsplit]; simp)
  have hmap : ((rules.map fun r => ((idToOrder ids).lookup r.id).getD r.order).map
    fun k => ids[k]?) =
      (rules.map (·.id)).map some := by
    rw [List.map_map, List.map_map]
    exact List.map_congr_left hplace
  refine List.Nodup.of_map (fun k => ids[k]?) ?_
  rw [hmap]
  exact hids.map (Option.some_injective _)

end Reorder

section Condition

variable {ι V : Type}

section

variable (newID : ι → ℕ → ℕ → RuleID) (s : Stores) (jobs : ι → RuleJob V)

/-- The rules of each profile have ids and orders of their own. -/
structure RuleOrders : Prop where
  profiles : (s.profiles.map (·.profileId)).Nodup
  ids : ∀ pid, ((s.rules pid).map (·.id)).Nodup
  orders : ∀ pid, ((s.rules pid).map (·.order)).Nodup

/-- Edits without an order, and reorders of all the rules of a profile. -/
structure WholeOrders (es : List (SetEvent ι)) : Prop where
  edits : ∀ i pid id fields, jobs i = .update pid id fields → fields.order = none
  reorders : ∀ es₁ e es₂ pid ids, es = es₁ ++ e :: es₂ → jobs e.who = .reorder pid ids →
    e.op = .edit pid (.updateCustomRulesOrder (idToOrder ids)) →
      ∀ rule ∈ (s.after (acts es₁)).rules pid, rule.id ∈ ids

/-- **The next order is free.** When rules are created in a profile, each of its orders is below the
number of its rules; and the rules that come with a default rule are at most one, of a profile that
has none. -/
structure NextFree (es : List (SetEvent ι)) : Prop where
  creations : ∀ es₁ e es₂ pid rules, es = es₁ ++ e :: es₂ →
    e.op = .edit pid (.createCustomRules rules) → TookEffect e.res →
    ∀ rule ∈ (s.after (acts es₁)).rules pid, rule.order < ((s.after (acts es₁)).rules pid).length
  appends : ∀ es₁ e es₂ pid upd, es = es₁ ++ e :: es₂ → e.op = .findOneAndUpdate pid upd →
    TookEffect e.res →
    missing ((s.after (acts es₁)).rules pid) upd.appendCustomRules = [] ∨
    ((s.after (acts es₁)).rules pid = [] ∧
      (missing ((s.after (acts es₁)).rules pid) upd.appendCustomRules).length ≤ 1)

/-- One request after the other, and the next order is free whenever a rule comes. -/
structure InTurn (es : List (SetEvent ι)) : Prop where
  sequential : Sequential es
  whole : WholeOrders s jobs es
  free : NextFree s es

end

variable {s : Stores} {jobs : ι → RuleJob V} {es es' : List (SetEvent ι)}

theorem WholeOrders.left (h : WholeOrders s jobs (es ++ es')) : WholeOrders s jobs es := by
  refine ⟨h.edits, ?_⟩
  rintro es₁ e es₂ pid ids rfl
  exact h.reorders es₁ e (es₂ ++ es') pid ids (by simp)

theorem NextFree.left (h : NextFree s (es ++ es')) : NextFree s es := by
  constructor
  · rintro es₁ e es₂ pid rules rfl
    exact h.creations es₁ e (es₂ ++ es') pid rules (by simp)
  · rintro es₁ e es₂ pid upd rfl
    exact h.appends es₁ e (es₂ ++ es') pid upd (by simp)

theorem InTurn.left (h : InTurn s jobs (es ++ es')) : InTurn s jobs es :=
  ⟨h.sequential.left, h.whole.left, h.free.left⟩

end Condition

section Runs

variable {ι V : Type} [DecidableEq ι] {env : ServiceEnv} {casts : Casts V}
  {newID : ι → ℕ → ℕ → RuleID} {a : String} {s : Stores} {jobs : ι → RuleJob V}
  {es es₁ es₂ : List (SetEvent ι)} {e x : SetEvent ι} {pid : String} {R : SetPool ι}

omit [DecidableEq ι] in
theorem rules_calm_after (h : ∀ y ∈ es₂, Calm y.op) :
    (s.after (acts (es₁ ++ es₂))).rules pid = (s.after (acts es₁)).rules pid := by
  induction es₂ using List.reverseRecOn with
  | nil => rw [List.append_nil]
  | append_singleton es₂ y ih =>
    have hlast : Calm (actOf y).1 := h y (List.mem_append_right _ (List.mem_singleton_self y))
    rw [← List.append_assoc, after_concat, rules_calm hlast]
    exact ih fun z hz => h z (List.mem_append_left _ hz)

/-- A profile that a request has taken is as it was, when the request writes. -/
theorem rules_taken (hseq : Sequential (es₁ ++ x :: (es₂ ++ [e]))) (hx : x.who = e.who)
    (hown : ∀ y ∈ trace e.who es₂, Calm y.1) :
    (s.after (acts (es₁ ++ x :: es₂))).rules pid = (s.after (acts (es₁ ++ [x]))).rules pid := by
  rw [List.append_cons]
  exact rules_calm_after fun y hy => calm_own hown y hy (hseq.own hx y hy)

/-- The rules are still those that the request has read. -/
theorem rules_since_read {p : Profile} {l₁ l₂ : Acts}
    (hr : Run profileHandler Free (startRules env casts newID a s jobs) (es ++ [e]) R)
    (hseq : Sequential (es ++ [e]))
    (hread : trace e.who es = l₁ ++ ⟨.getProfileById pid, .ok p⟩ :: l₂)
    (hcalm : ∀ y ∈ l₂, Calm y.1) : (s.after (acts es)).rules pid = p.settings.customRules := by
  obtain ⟨es₁, es₂, rfl, -, hrest⟩ := trace_split hread
  rw [List.append_assoc, List.cons_append] at hseq hr
  rw [rules_taken hseq rfl (hrest.symm ▸ hcalm)]
  exact rules_read hr

/-- The profile that the request has made has no rules yet. -/
theorem rules_since_made {p : Profile} {l₁ l₂ : Acts}
    (hr : Run profileHandler Free (startRules env casts newID a s jobs) (es ++ [e]) R)
    (hseq : Sequential (es ++ [e]))
    (hmade : trace e.who es = l₁ ++ ⟨.createProfile p, .ok ()⟩ :: l₂)
    (hcalm : ∀ y ∈ l₂, Calm y.1) : (s.after (acts es)).rules p.profileId = [] := by
  obtain ⟨es₁, es₂, rfl, -, hrest⟩ := trace_split hmade
  rw [List.append_assoc, List.cons_append] at hseq hr
  rw [rules_taken hseq rfl (hrest.symm ▸ hcalm)]
  exact rules_made hr

/-- **What is written fits.** -/
theorem fits_step (hr : Run profileHandler Free (startRules env casts newID a s jobs) (es ++ [e]) R)
    (hcond : InTurn s jobs (es ++ [e])) (hnow : RuleOrders (s.after (acts es)))
    (htook : TookEffect e.res) (pid : String) :
    OrderFits pid ((s.after (acts es)).rules pid) e.op := by
  obtain ⟨hseq, hwhole, hfree⟩ := hcond
  have hmet : RuleCall env (newID e.who) a (trace e.who es) e.op (jobs e.who) := run_ruleCall hr
  obtain ⟨i, o, r⟩ := e
  cases o with
  | createProfile p =>
    intro _
    rw [ruleCall_inserts hmet]
    exact List.nodup_nil
  | edit pid' edit =>
    cases edit with
    | createCustomRules new =>
      rintro rfl
      have hbelow := hfree.creations es _ [] pid' new rfl rfl htook
      -- a creation numbers its rules from the count it read, an import from nothing
      rcases ruleCall_creates hmet with ⟨p, L, hl, hnew, -⟩ | ⟨decode, mode, payload, hjob, hadds⟩
      · have hread : trace i es = ([] : Acts) ++ ⟨.getProfileById pid', .ok p⟩ ::
            [⟨.getProfilesByAccountId a, .ok L⟩] := hl
        have hsame : (s.after (acts es)).rules pid' = p.settings.customRules :=
          rules_since_read hr hseq hread (List.forall_mem_singleton.2 trivial)
        rw [hsame] at hbelow
        rw [hsame, hnew.orders]
        refine ⟨List.nodup_range.map fun k k' h => Nat.add_left_cancel h,
          fun rule hrule old hold => ?_⟩
        have horder := List.mem_map_of_mem (f := (·.order)) hrule
        rw [hnew.orders] at horder
        obtain ⟨k, -, heq⟩ := List.mem_map.1 horder
        have hlt := hbelow old hold
        omega
      -- the import has made the profile itself, so it has no rules yet
      · obtain ⟨m₁, p, m₂, hsplit, rfl, hany⟩ := hadds.profile
        obtain ⟨k, ep, -, -, haccepted⟩ := hadds.accepted
        have hnone : (s.after (acts es)).rules p.profileId = [] :=
          rules_since_made hr hseq hsplit fun y hy => (hany y hy).calm
        rw [hnone]
        refine ⟨?_, fun rule _ => List.forall_mem_nil _⟩
        have hvalid : ValidRules env.tags (newID i k) (rulesOf ep) new := by
          rw [haccepted]
          exact valid_rules
        exact List.pairwise_map.2 (hvalid.ordered.imp fun hlt => hlt.ne)
    | updateCustomRule rule =>
      -- an edit keeps the order of the rule it replaces
      rintro rfl old hold hid
      obtain ⟨id, patch, p, hjob, hl, existing, hexisting, hid', horder, -⟩ := ruleCall_updates hmet
      have hread : trace i es = ([] : Acts) ++ ⟨.getProfileById pid', .ok p⟩ :: [] := hl
      have hsame : (s.after (acts es)).rules pid' = p.settings.customRules :=
        rules_since_read hr hseq hread (List.forall_mem_nil _)
      have hids := hnow.ids pid'
      rw [hsame] at hids hold
      obtain rfl : old = existing := List.inj_on_of_nodup_map hids hold hexisting (hid.trans hid')
      exact (horder (hwhole.edits i pid' id patch hjob)).symm
    | updateCustomRulesOrder m =>
      rintro rfl
      obtain ⟨orderedIds, hjob, rfl⟩ := ruleCall_reorders hmet
      exact reorder_nodup (hnow.ids pid') (hwhole.reorders es _ [] pid' orderedIds rfl hjob rfl)
    | _ => trivial
  | findOneAndUpdate pid' upd =>
    rintro rfl
    exact hfree.appends es _ [] pid' upd rfl rfl htook
  | _ => trivial

/-- One step, whatever it is. -/
theorem orders_step (hnew : FreshIDs newID s)
    (hr : Run profileHandler Free (startRules env casts newID a s jobs) (es ++ [e]) R)
    (hcond : InTurn s jobs (es ++ [e]))
    (hnow : RuleOrders (s.after (acts es))) : RuleOrders (s.after (acts (es ++ [e]))) ∧
      ∀ pid, NewBehind ((s.after (acts es)).rules pid)
        ((s.after (acts (es ++ [e]))).rules pid) := by
  rw [after_concat]
  have hstep : ∀ pid, ((((s.after (acts es)).act (actOf e)).rules pid).map (·.order)).Nodup ∧
      NewBehind ((s.after (acts es)).rules pid)
        (((s.after (acts es)).act (actOf e)).rules pid) := by
    intro pid
    exact orders_act (hnow.orders pid) fun htook => fits_step hr hcond hnow htook pid
  refine ⟨⟨?_, fun pid => ?_, fun pid => (hstep pid).1⟩, fun pid => (hstep pid).2⟩
  · obtain ⟨c, hanswer⟩ := answer_run hr
    exact profileIds_act hnow.profiles hanswer
  · obtain ⟨hnodup, hfresh⟩ := fresh_ids hnew hr pid
    exact ids_act (hnow.ids pid) hnodup hfresh

/-- **The display order.** After every sequence of creations, edits without an order, deletions and
complete reorders of rules, imports and patches in which the next order is free whenever a rule
comes: the rules of a profile have different orders, and every rule that has come has come behind
those that were there. -/
theorem orders_kept (hnew : FreshIDs newID s) (h0 : RuleOrders s)
    (hr : Run profileHandler Free (startRules env casts newID a s jobs) es R) (hseq : Sequential es)
    (hwhole : WholeOrders s jobs es) (hfree : NextFree s es) :
    (∀ p ∈ R.state.profiles, (p.settings.customRules.map (·.order)).Nodup) ∧
      ∀ es₁ e es₂, es = es₁ ++ e :: es₂ → ∀ pid,
        NewBehind ((s.after (acts es₁)).rules pid) ((s.after (acts (es₁ ++ [e]))).rules pid) := by
  have hcond : InTurn s jobs es := ⟨hseq, hwhole, hfree⟩
  have hpast : ∀ es₁, es₁ <+: es → RuleOrders (s.after (acts es₁)) :=
    run_past (fun _ _ h => h.left) h0
      (fun es e R hr hcond hpast => (orders_step hnew hr hcond (hpast es (List.prefix_refl _))).1)
      hr hcond
  constructor
  · have hset := hpast es (List.prefix_refl _)
    have hstate : R.state = s.after (acts es) := state_run hr
    intro p hp
    rw [hstate] at hp
    have horders := hset.orders p.profileId
    rwa [rules_of_find (find_of_mem hset.profiles hp)] at horders
  · rintro es₁ e es₂ rfl
    rw [List.append_cons] at hr hcond
    obtain ⟨Q, hrun, -⟩ := run_split hr
    exact (orders_step hnew hrun hcond.left (hpast es₁ (List.prefix_append _ _))).2

end Runs

section Checks

/-! ### Runs that meet the condition -/

variable {ι V : Type} {s : Stores} {jobs : ι → RuleJob V} {before es : List (SetEvent ι)}
  {e : SetEvent ι}

/-- The rules that a reorder lists. -/
def RuleJob.listed : RuleJob V → List (String × List RuleID)
  | .reorder pid ids => [(pid, ids)]
  | _ => []

/-- The reorder of the event lists all rules of its profile. -/
def AllListed (s : Stores) (jobs : ι → RuleJob V) (before : List (SetEvent ι)) (e : SetEvent ι) :
    Prop :=
  ∀ x ∈ (jobs e.who).listed, ∀ rule ∈ (s.after (acts before)).rules x.1, rule.id ∈ x.2

/-- The next order is free when the event creates rules, and it appends at most one rule to a
profile without rules. -/
def Behind (s : Stores) (before : List (SetEvent ι)) (e : SetEvent ι) : Prop :=
  (∀ pid ∈ e.op.fills, ∀ rule ∈ (s.after (acts before)).rules pid,
      rule.order < ((s.after (acts before)).rules pid).length) ∧
    ∀ x ∈ e.op.appends, missing ((s.after (acts before)).rules x.1) x.2 = [] ∨
      ((s.after (acts before)).rules x.1 = [] ∧
        (missing ((s.after (acts before)).rules x.1) x.2).length ≤ 1)

instance : Decidable (AllListed s jobs before e) := by
  unfold AllListed
  infer_instance

instance : Decidable (Behind s before e) := by
  unfold Behind
  infer_instance

theorem wholeOrders_of_checks (hedits : ∀ i pid id fields, jobs i = .update pid id fields →
    fields.order = none)
    (h : ∀ n (hn : n < es.length), AllListed s jobs (es.take n) es[n]) : WholeOrders s jobs es := by
  refine ⟨hedits, ?_⟩
  intro es₁ e es₂ pid ids hes hjob _
  exact forall_splits (P := AllListed s jobs) h es₁ e es₂ hes (pid, ids)
    (by simp [hjob, RuleJob.listed])

theorem nextFree_of_checks (h : ∀ n (hn : n < es.length), Behind s (es.take n) es[n]) :
    NextFree s es := by
  constructor
  · intro es₁ e es₂ pid rules hes hop _
    exact (forall_splits (P := Behind s) h es₁ e es₂ hes).1 pid (by simp [hop, ProfileOp.fills])
  · intro es₁ e es₂ pid upd hes hop _
    exact (forall_splits (P := Behind s) h es₁ e es₂ hes).2 (pid, upd.appendCustomRules)
      (by simp [hop, ProfileOp.appends])

end Checks

section Examples

theorem sequential_of_sorted {n : ℕ} {es : List (SetEvent (Fin n))}
    (h : (es.map Event.who).Pairwise (· ≤ ·)) :
    Sequential es := by
  rintro es₁ x es₂ y es₃ z es₄ rfl hwho
  have hsorted := (List.pairwise_append.1 (List.pairwise_map.1 h)).2.1
  obtain ⟨hfirst, hrest⟩ := List.pairwise_cons.1 hsorted
  have hxy : x.who ≤ y.who := hfirst y (by simp)
  have hyz : y.who ≤ z.who :=
    (List.pairwise_cons.1 (List.pairwise_append.1 hrest).2.1).1 z (by simp)
  rw [← hwho] at hyz
  exact le_antisymm hyz hxy

/-- Two rules are created, the first of them is deleted, and a third one is created. -/
def gapRequests : List (RuleJob String) :=
  [.createBulk "p" "block" ["192.0.2.1", "192.0.2.2"], .delete "p" 0,
    .create "p" "block" "192.0.2.3"]

def gapJobs (i : Fin 3) : RuleJob String := gapRequests[i.val]?.getD (.delete "p" 0)

/-- The requests one after the other. -/
def oneByOne : List (Fin 3 × Choice) :=
  List.replicate 6 (thread 0, .ok) ++ List.replicate 4 (thread 1, .ok) ++ List.replicate 5
    (thread 2, .ok)

theorem oneByOne_plays : (play profileHandler Free oneByOne
    (startRules rulesEnv textCasts pairIDs "a" freshStores gapJobs)).isSome := by decide

theorem orders_freshStores : RuleOrders freshStores := by
  refine ⟨freshStores_rules.profiles, freshStores_rules.ids, fun pid => ?_⟩
  rw [rules_freshStores]
  exact List.nodup_nil

/-- Two rules have one order. -/
theorem orders_collide : FreshIDs (pairIDs (n := 3)) freshStores ∧ RuleOrders freshStores ∧
    ∃ es R, Run profileHandler Free (startRules rulesEnv textCasts pairIDs "a" freshStores gapJobs)
      es R ∧ Sequential es ∧
      WholeOrders freshStores gapJobs es ∧ ∃ p ∈ R.state.profiles,
      ¬ (p.settings.customRules.map (·.order)).Nodup := by
  refine ⟨pairIDs_fresh, orders_freshStores, _, _, run_play oneByOne_plays,
    sequential_of_sorted (by decide), ⟨?_, ?_⟩, by decide⟩
  · intro i pid id fields hjob
    fin_cases i <;> cases hjob
  · intro es₁ e es₂ pid ids _ hjob
    generalize e.who = i at hjob
    fin_cases i <;> cases hjob

/-- Two rules are created, the last of them is deleted, two more are created one after the other,
all three are reordered, a fourth one is created, and a note is edited. -/
def orderRequests : List (RuleJob String) :=
  [.createBulk "p" "block" ["192.0.2.1", "192.0.2.2"], .delete "p" (pairIDs (0 : Fin 7) 0 1),
    .create "p" "block" "192.0.2.3", .create "p" "allow" "192.0.2.4",
    .reorder "p" [pairIDs (3 : Fin 7) 0 0, pairIDs (0 : Fin 7) 0 0, pairIDs (2 : Fin 7) 0 0],
    .create "p" "block" "192.0.2.5", .update "p" (pairIDs (2 : Fin 7) 0 0)
    { note := some "printer" }]

def orderJobs (i : Fin 7) : RuleJob String := orderRequests[i.val]?.getD (.delete "p" 0)

def orderTurns : List (Fin 7 × Choice) :=
  List.replicate 6 (0, .ok) ++ List.replicate 4 (1, .ok) ++ List.replicate 5 (2, .ok) ++
    List.replicate 5 (3, .ok) ++
    List.replicate 2 (4, .ok) ++ List.replicate 5 (5, .ok) ++ List.replicate 2 (6, .ok)

/-- Every rule is created behind the others, and stays where the reorder has put it. -/
theorem orders_kept_turns : ∃ es R,
    Run profileHandler Free (startRules rulesEnv textCasts pairIDs "a" freshStores orderJobs) es R ∧
      R.state.profiles.map (fun p => p.settings.customRules.map fun rule =>
        (rule.value, rule.order)) =
        [[("192.0.2.1", 1), ("192.0.2.3", 2), ("192.0.2.4", 0), ("192.0.2.5", 3)]] ∧
      (∀ p ∈ R.state.profiles, (p.settings.customRules.map (·.order)).Nodup) ∧
      ∀ es₁ e es₂, es = es₁ ++ e :: es₂ → ∀ pid,
        NewBehind ((freshStores.after (acts es₁)).rules pid)
          ((freshStores.after (acts (es₁ ++ [e]))).rules pid) := by
  have hplays : (play profileHandler Free orderTurns
      (startRules rulesEnv textCasts pairIDs "a" freshStores orderJobs)).any (fun x =>
        (x.1.map Event.who).Pairwise (· ≤ ·) ∧
          (∀ n (hn : n < x.1.length), AllListed freshStores orderJobs (x.1.take n) x.1[n]) ∧
          (∀ n (hn : n < x.1.length), Behind freshStores (x.1.take n) x.1[n]) ∧
          x.2.state.profiles.map (fun p => p.settings.customRules.map fun rule =>
            (rule.value, rule.order)) =
            [[("192.0.2.1", 1), ("192.0.2.3", 2), ("192.0.2.4", 0), ("192.0.2.5", 3)]]) := by
    decide +kernel
  obtain ⟨⟨es, R⟩, hplay, hfacts⟩ := (Option.any_eq_true _ _).1 hplays
  obtain ⟨hsorted, hlisted, hbehind, hrules⟩ := of_decide_eq_true hfacts
  have hrun := run_of_play hplay
  have hedits : ∀ i pid id fields, orderJobs i = .update pid id fields → fields.order = none := by
    intro i pid id fields hjob
    fin_cases i <;> cases hjob
    rfl
  exact ⟨es, R, hrun, hrules, orders_kept pairIDs_fresh orders_freshStores hrun
    (sequential_of_sorted hsorted)
    (wholeOrders_of_checks hedits hlisted) (nextFree_of_checks hbehind)⟩

end Examples

end ModDNS.Profiles
