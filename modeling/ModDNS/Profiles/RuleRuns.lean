import Mathlib.Data.Nat.Pairing
import Mathlib.Tactic.FinCases
import ModDNS.Profiles.RuleJobs
import ModDNS.Profiles.SetRuns

/-!
# Runs of requests on rules

Any number of requests on the rules of the profiles of an account, interleaved.

* `row_since`, `count_since`: what has become of a profile, and of a list of profiles, when a
  request writes.
* `rules_kept`: the values and the number of the rules after every run in which nothing comes
  between a check and the write that relies on it.
-/

namespace ModDNS.Profiles

open Conc Data Rules

variable {ι V : Type} {env : ServiceEnv} {casts : Casts V} {newID : ι → ℕ → ℕ → RuleID} {a : String}
  {s : Stores} {jobs : ι → RuleJob V}

/-- The pool of a set of requests on the rules of the account `a`; `newID` gives the ids of the
rules of each. -/
def startRules (env : ServiceEnv) (casts : Casts V) (newID : ι → ℕ → ℕ → RuleID)
    (a : String) (s : Stores) (jobs : ι → RuleJob V) : SetPool ι :=
  ⟨s, fun i => ((jobs i).flow env casts (newID i) a).run⟩

section Condition

variable (env newID a s jobs)

/-- Ids of rules that are given once. -/
structure FreshIDs : Prop where
  injective : ∀ i k m i' k' m', newID i k m = newID i' k' m' → i = i' ∧ k = k' ∧ m = m'
  unstored : ∀ i k m pid, ∀ rule ∈ s.rules pid, rule.id ≠ newID i k m

/-- The rules of an account: different ids and values in each profile, and not too many. -/
structure RuleSet : Prop where
  profiles : (s.profiles.map (·.profileId)).Nodup
  ids : ∀ pid, ((s.rules pid).map (·.id)).Nodup
  values : ∀ pid, ((s.rules pid).map (·.value)).Nodup
  room : s.ruleCount a ≤ maxCustomRulesPerAccount

/-- A request takes a profile as it is: it has read it, or made it. -/
def Takes (pid : String) : profileCalls.sig.Act → Prop
  | ⟨.getProfileById pid', .ok _⟩ => pid' = pid
  | ⟨.createProfile p, .ok _⟩ => p.profileId = pid
  | _ => False

/-- A call after which a rule of the profile has a value that it has not had before. -/
def Puts (pid v : String) (x : profileCalls.sig.Act) : Prop := ∃ id,
  (id, v) ∈ ((s.act x).rules pid).map CustomRule.row ∧ (id, v) ∉ (s.rules pid).map CustomRule.row

/-- A call that adds rules to the account. -/
def Grows (x : profileCalls.sig.Act) : Prop := s.ruleCount a < (s.act x).ruleCount a

/-- **Nothing comes between a check and the write that relies on it.** Between the moment at which a
request takes a profile and its own write of rules to it, no other request puts one of their values
there. Between its list of the profiles and its write of new rules, no other request adds rules to
the account. No file lists a value twice in one profile, and the rules that come with a default rule
are appended only where there is room for them. -/
structure Orderly (es : List (SetEvent ι)) : Prop where
  values : ∀ es₁ x es₂ y es₃ e es₄, es = es₁ ++ x :: (es₂ ++ y :: (es₃ ++ e :: es₄)) →
    x.who = e.who → y.who ≠ e.who →
    ∀ pid edit, Takes pid (actOf x) → e.op = .edit pid edit → ∀ rule ∈ written pid (actOf e),
      ¬ Puts (s.after (acts (es₁ ++ x :: es₂))) pid rule.value (actOf y)
  room : ∀ es₁ i L es₂ y es₃ e es₄, es = es₁ ++ ⟨i, .getProfilesByAccountId a, .ok L⟩ ::
    (es₂ ++ y :: (es₃ ++ e :: es₄)) →
    e.who = i → y.who ≠ i → ∀ pid rules, e.op = .edit pid (.createCustomRules rules) →
      ¬ Grows a (s.after (acts (es₁ ++ ⟨i, .getProfilesByAccountId a, .ok L⟩ :: es₂))) (actOf y)
  payloads : ∀ i decode mode payload, jobs i = .importProfiles decode mode payload →
    ∀ k, ∀ ep ∈ payload.profiles,
    ((acceptedRules env.tags (newID i k) (rulesOf ep)).map (·.value)).Nodup
  appends : ∀ es₁ e es₂ pid upd, es = es₁ ++ e :: es₂ → e.op = .findOneAndUpdate pid upd →
    TookEffect e.res →
    (s.after (acts es₁)).ruleCount a +
    (missing ((s.after (acts es₁)).rules pid) upd.appendCustomRules).length ≤
      maxCustomRulesPerAccount

variable {env newID a s jobs}

theorem Orderly.left {es es' : List (SetEvent ι)} (h : Orderly env newID a s jobs (es ++ es')) :
    Orderly env newID a s jobs es := by
  refine ⟨?_, ?_, h.payloads, ?_⟩
  · rintro es₁ x es₂ y es₃ e es₄ rfl
    exact h.values es₁ x es₂ y es₃ e (es₄ ++ es') (by simp)
  · rintro es₁ i L es₂ y es₃ e es₄ rfl
    exact h.room es₁ i L es₂ y es₃ e (es₄ ++ es') (by simp)
  · rintro es₁ e es₂ pid upd rfl
    exact h.appends es₁ e (es₂ ++ es') pid upd (by simp)

end Condition

section Calls

variable {ids : ℕ → ℕ → RuleID} {J : RuleJob V} {l l₁ l₂ : Acts} {pid : String}
  {x : profileCalls.sig.Act}

/-- A call that writes no rules. -/
def Calm : ProfileOp → Prop
  | .getProfilesByAccountId _ => True
  | o => Aloof o

theorem Aloof.calm {o : ProfileOp} (h : Aloof o) : Calm o := by
  cases o <;> first | exact h | trivial

theorem AnyTime.calm {o : ProfileOp} (h : AnyTime o) : Calm o := by
  cases o <;> first | exact h.elim | trivial

theorem rules_calm (h : Calm x.1) : (s.act x).rules pid = s.rules pid := by
  rcases ruleStep_act s pid x with hsame | ⟨-, hstep⟩
  · exact hsame
  · obtain ⟨o, r⟩ := x
    cases o with
    | createProfile p => exact h.elim
    | deleteProfileById pid' => exact h.elim
    | edit pid' e => exact h.elim
    | findOneAndUpdate pid' upd => exact h.elim
    | _ => cases hstep

/-- What a write of new rules relies on. -/
theorem ruleCall_creates {rules : List CustomRule}
    (h : RuleCall env ids a l (.edit pid (.createCustomRules rules)) J) :
    (∃ p L, l = [⟨.getProfileById pid, .ok p⟩, ⟨.getProfilesByAccountId a, .ok L⟩] ∧
      NewRules ids p rules ∧
        countCustomRules L + rules.length ≤ maxCustomRulesPerAccount) ∨
      ∃ decode mode payload, J = .importProfiles decode mode payload ∧
      AddsRules env ids payload l pid rules := by
  cases J with
  | create pid' action value =>
    obtain ⟨rfl, h⟩ := h
    exact .inl h
  | createBulk pid' action values =>
    obtain ⟨rfl, h⟩ := h
    exact .inl h
  | update pid' id fields => exact h.elim
  | delete pid' id =>
    obtain ⟨-, h⟩ := h
    cases h
  | reorder pid' orderedIds =>
    obtain ⟨-, h⟩ := h
    cases h
  | importProfiles decode mode payload => exact .inr ⟨decode, mode, payload, rfl, h⟩
  | patch pid' updates => exact h.elim

/-- What a write of an edited rule relies on. -/
theorem ruleCall_updates {rule : CustomRule}
    (h : RuleCall env ids a l (.edit pid (.updateCustomRule rule)) J) :
    ∃ id patch p, J = .update pid id patch ∧ l = [⟨.getProfileById pid, .ok p⟩] ∧
    EditedRule p patch rule := by
  cases J with
  | create pid' action value => exact h.elim
  | createBulk pid' action values => exact h.elim
  | update pid' id fields =>
    obtain ⟨rfl, p, hl, hedited⟩ := h
    exact ⟨id, fields, p, rfl, hl, hedited⟩
  | delete pid' id =>
    obtain ⟨-, h⟩ := h
    cases h
  | reorder pid' orderedIds =>
    obtain ⟨-, h⟩ := h
    cases h
  | importProfiles decode mode payload => exact h.elim
  | patch pid' updates => exact h.elim

/-- A reorder of rules writes the places of its list. -/
theorem ruleCall_reorders {m : List (RuleID × ℕ)}
    (h : RuleCall env ids a l (.edit pid (.updateCustomRulesOrder m)) J) :
    ∃ orderedIds, J = .reorder pid orderedIds ∧ m = idToOrder orderedIds := by
  cases J with
  | create pid' action value => exact h.elim
  | createBulk pid' action values => exact h.elim
  | update pid' id fields => exact h.elim
  | delete pid' id =>
    obtain ⟨-, h⟩ := h
    cases h
  | reorder pid' orderedIds =>
    obtain ⟨rfl, h⟩ := h
    cases h
    exact ⟨orderedIds, rfl, rfl⟩
  | importProfiles decode mode payload => exact h.elim
  | patch pid' updates => exact h.elim

/-- A profile goes in without rules. -/
theorem ruleCall_inserts {p : Profile} (h : RuleCall env ids a l (.createProfile p) J) :
    p.settings.customRules = [] := by
  cases J with
  | importProfiles decode mode payload => exact h.noRules
  | _ => exact h.elim

theorem creates_inserted {p : Profile} (h : RuleCall env ids a l (.createProfile p) J)
    (pid : String) :
    (ProfileOp.createProfile p).creates pid = [] := by
  show (if p.profileId = pid then p.settings.customRules else []) = []
  rw [ruleCall_inserts h, ite_self]

theorem ruleCall_appends {upd : ProfileFieldsUpdate}
    (h : RuleCall env ids a l (.findOneAndUpdate pid upd) J) :
    (∀ y ∈ l, IsRead y.1) ∧ (upd.appendCustomRules = [] ∨
      upd.appendCustomRules = allowedDomainRules env (ids 0)) := by
  cases J with
  | patch pid' updates => exact h
  | _ => exact h.elim

/-- The batch of ids that the next rules are from. -/
def batch (l : Acts) : ℕ := (inserted l).length - 1

/-- The ids of new rules. -/
theorem ruleCall_ids {o : ProfileOp} (h : RuleCall env ids a l o J) (pid : String) :
    ∃ places : List ℕ, places.Nodup ∧ (o.creates pid).map (·.id) = places.map (ids (batch l)) := by
  have hnone : o.creates pid = [] → ∃ places : List ℕ, places.Nodup ∧
    (o.creates pid).map (·.id) = places.map (ids (batch l)) :=
    fun hnil => ⟨[], List.nodup_nil, by rw [hnil]; rfl⟩
  cases o with
  | createProfile p => exact hnone (creates_inserted h pid)
  | edit pid' e =>
    cases e with
    | createCustomRules rules =>
      by_cases hpid : pid' = pid
      · subst hpid
        rw [creates_rules]
        rcases ruleCall_creates h with ⟨p, L, hl, hnew, -⟩ | ⟨decode, mode, payload, -, hadds⟩
        -- a request takes one id a rule, an import one for each accepted place
        · refine ⟨List.range rules.length, List.nodup_range, ?_⟩
          rw [hnew.ids, hl]
          rfl
        · obtain ⟨k, ep, hk, -, haccepted⟩ := hadds.accepted
          have hvalid : ValidRules env.tags (ids k) (rulesOf ep)
              (acceptedRules env.tags (ids k) (rulesOf ep)) := valid_rules
          rw [← haccepted] at hvalid
          have hbatch : batch l = k := by
            unfold batch
            omega
          refine ⟨rules.map (·.order), ?_, ?_⟩
          · exact List.pairwise_map.2 (hvalid.ordered.imp fun hlt => hlt.ne)
          · rw [List.map_map, hbatch]
            refine List.map_congr_left fun rule hrule => ?_
            obtain ⟨r, -, -, hid, -⟩ := hvalid.accepted rule hrule
            exact hid
      · exact hnone (if_neg hpid)
    | _ => exact hnone rfl
  | findOneAndUpdate pid' upd =>
    by_cases hpid : pid' = pid
    · subst hpid
      -- a PATCH takes one for each allowed domain
      obtain ⟨hreads, happend⟩ := ruleCall_appends h
      rw [creates_append]
      rcases happend with happend | happend
      · exact ⟨[], List.nodup_nil, by rw [happend]; rfl⟩
      · have hbatch : batch l = 0 := by
          unfold batch
          rw [inserted_reads hreads]
          rfl
        refine ⟨env.allowedDomains.zipIdx.map Prod.snd, ?_, ?_⟩
        · rw [List.zipIdx_map_snd]
          exact List.nodup_range'
        · rw [happend, hbatch, allowedDomainRules, List.map_map, List.map_map]
          rfl
    · exact hnone (if_neg hpid)
  | _ => exact hnone rfl

/-- **Each write of new rules has a batch of its own.** -/
theorem batch_lt {o o' : ProfileOp} {r : Except ServiceErr o.Ans} {pid' : String}
    (hl : l = l₁ ++ ⟨o, r⟩ :: l₂) (h : RuleCall env ids a l₁ o J) (h' : RuleCall env ids a l o' J)
    (hcreates : o.creates pid ≠ []) (hcreates' : o'.creates pid' ≠ []) : batch l₁ < batch l := by
  -- what is not a write of new rules is not before one of a single request, or before a PATCH
  have hwrites : ¬ Calm o := by
    intro hcalm
    cases o <;> first | exact hcalm.elim | exact hcreates rfl
  have hbefore : (⟨o, r⟩ : profileCalls.sig.Act) ∈ l := by
    rw [hl]
    exact List.mem_append_right _ (List.mem_cons_self ..)
  cases o' with
  | createProfile p => exact absurd (creates_inserted h' pid') hcreates'
  | edit pid'' e =>
    cases e with
    | createCustomRules rules =>
      rcases ruleCall_creates h' with ⟨p, L, hreads, -⟩ | ⟨decode, mode, payload, rfl, hadds⟩
      · rw [hreads] at hbefore
        rcases List.mem_pair.1 hbefore with heq | heq
        · cases heq
          exact (hwrites trivial).elim
        · cases heq
          exact (hwrites trivial).elim
      · obtain ⟨m₁, p, m₂, hsplit, -, hany⟩ := hadds.profile
        -- the profile has been inserted since
        have hinserted : (inserted l₁).length + 1 ≤ (inserted l).length := by
          rw [hsplit] at hl
          rcases List.append_eq_append_iff.1 hl with ⟨t, rfl, ht⟩ | ⟨t, rfl, ht⟩
          · exfalso
            cases t with
            | nil =>
              obtain ⟨heq, -⟩ := List.cons.inj ht
              cases heq
              exact hcreates (creates_inserted h pid)
            | cons y t =>
              obtain ⟨-, rfl⟩ := List.cons.inj ht
              exact hwrites (hany ⟨o, r⟩ (by simp)).calm
          · rw [hsplit, inserted_append, inserted_append, List.length_append, List.length_append]
            have hone : (inserted (⟨.createProfile p, .ok ()⟩ :: m₂)).length =
                (inserted m₂).length + 1 := rfl
            omega
        have hfirst : 1 ≤ (inserted l₁).length := by
          cases o with
          | edit pid₁ e₁ =>
            cases e₁ with
            | createCustomRules rules₁ =>
              obtain ⟨k, ep, hk, -⟩ := AddsRules.accepted h
              omega
            | _ => exact (hcreates rfl).elim
          | createProfile p₁ => exact absurd (creates_inserted h pid) hcreates
          | findOneAndUpdate pid₁ upd₁ => exact h.elim
          | _ => exact (hcreates rfl).elim
        unfold batch
        omega
    | _ => exact (hcreates' rfl).elim
  | findOneAndUpdate pid'' upd =>
    have hread := (ruleCall_appends h').1 _ hbefore
    refine (hwrites ?_).elim
    cases o <;> first | exact hread.elim | trivial
  | _ => exact (hcreates' rfl).elim

end Calls

section Past

variable {es es₁ es₂ : List (SetEvent ι)} {e x : SetEvent ι} {pid : String}

theorem after_concat (s : Stores) (es : List (SetEvent ι)) (e : SetEvent ι) :
    s.after (acts (es ++ [e])) = (s.after (acts es)).act (actOf e) := by
  unfold acts
  rw [List.map_append, after_append]
  rfl

/-- The rows of the rules of a profile. -/
def Stores.ruleRows (s : Stores) (pid : String) : List (RuleID × String) :=
  (s.rules pid).map CustomRule.row

/-- A rule has had its value, or a call has put it there. -/
theorem row_since {row : RuleID × String} (h : row ∈ (s.after (acts (es₁ ++ es₂))).ruleRows pid) :
    row ∈ (s.after (acts es₁)).ruleRows pid ∨
      ∃ es₃ y es₄, es₂ = es₃ ++ y :: es₄ ∧ Puts (s.after (acts (es₁ ++ es₃))) pid row.2
        (actOf y) := by
  induction es₂ using List.reverseRecOn with
  | nil =>
    rw [List.append_nil] at h
    exact .inl h
  | append_singleton es₂ y ih =>
    rw [← List.append_assoc, after_concat] at h
    by_cases hbefore : row ∈ (s.after (acts (es₁ ++ es₂))).ruleRows pid
    · rcases ih hbefore with hfirst | ⟨es₃, z, es₄, rfl, hputs⟩
      · exact .inl hfirst
      · exact .inr ⟨es₃, z, es₄ ++ [y], by simp, hputs⟩
    · exact .inr ⟨es₂, y, [], rfl, row.1, h, hbefore⟩

variable [DecidableEq ι] {R : SetPool ι}

/-- Every event of a run is a call that its request makes. -/
theorem run_ruleCall (hr : Run profileHandler Free (startRules env casts newID a s jobs)
    (es₁ ++ e :: es₂) R) :
    RuleCall env (newID e.who) a (trace e.who es₁) e.op (jobs e.who) :=
  run_met_mid (fun i => follows_run (follows_ruleJob (jobs i))) hr

/-- The events of a thread that has not written. -/
theorem calm_own {i : ι} (h : ∀ y ∈ trace i es, Calm y.1) : ∀ y ∈ es, y.who = i → Calm y.op := by
  rintro y hy rfl
  exact h (actOf y) (mem_trace.2 hy)

/-- **The rows that a write relies on**: a rule with a value that a request writes has had it when
the request took the profile. -/
theorem row_taken {edit : ProfileEdit} {rule : CustomRule} {id : RuleID}
    (hcond : Orderly env newID a s jobs (es₁ ++ x :: (es₂ ++ [e]))) (hx : x.who = e.who)
    (htakes : Takes pid (actOf x))
    (hop : e.op = .edit pid edit) (hrule : rule ∈ written pid (actOf e))
    (hown : ∀ y ∈ es₂, y.who = e.who → Calm y.op)
    (hrow : (id, rule.value) ∈ (s.after (acts (es₁ ++ x :: es₂))).ruleRows pid) :
    (id, rule.value) ∈ (s.after (acts (es₁ ++ [x]))).ruleRows pid := by
  rw [List.append_cons] at hrow
  rcases row_since hrow with hfirst | ⟨es₃, y, es₄, rfl, hputs⟩
  · exact hfirst
  exfalso
  by_cases hy : y.who = e.who
  · obtain ⟨id', hnow, hbefore⟩ := hputs
    have hcalm := hown y (List.mem_append_right _ (List.mem_cons_self ..)) hy
    rw [rules_calm (x := actOf y) hcalm] at hnow
    exact hbefore hnow
  · rw [List.append_assoc, List.singleton_append] at hputs
    exact hcond.values es₁ x es₃ y es₄ e [] (by simp) hx hy pid edit htakes hop rule hrule hputs

end Past

section Steps

variable [DecidableEq ι] {es es₁ es₂ : List (SetEvent ι)} {e : SetEvent ι} {i : ι} {pid : String}
  {R : SetPool ι}

theorem mem_ruleRows {row : RuleID × String} :
    row ∈ s.ruleRows pid ↔ ∃ rule ∈ s.rules pid, rule.row = row := List.mem_map

/-- The rules of a profile that a request has read. -/
theorem rules_read {p : Profile}
    (hr : Run profileHandler Free (startRules env casts newID a s jobs)
      (es₁ ++ ⟨i, .getProfileById pid, .ok p⟩ :: es₂) R) :
    (s.after (acts (es₁ ++ [⟨i, .getProfileById pid, .ok p⟩]))).rules pid =
    p.settings.customRules := by
  have hcalm : Calm (.getProfileById pid) := trivial
  obtain ⟨c, hanswer⟩ := answer_run hr
  rw [after_concat, rules_calm (x := ⟨.getProfileById pid, .ok p⟩) hcalm]
  exact rules_of_find (find_of_answer hanswer)

/-- A profile that a request has made has no rules yet. -/
theorem rules_made {p : Profile}
    (hr : Run profileHandler Free (startRules env casts newID a s jobs)
      (es₁ ++ ⟨i, .createProfile p, .ok ()⟩ :: es₂) R) :
    (s.after (acts (es₁ ++ [⟨i, .createProfile p, .ok ()⟩]))).rules p.profileId = [] := by
  have hmet : RuleCall env (newID i) a (trace i es₁) (.createProfile p) (jobs i) := run_ruleCall hr
  rw [after_concat]
  rcases ruleStep_act (s.after (acts es₁)) p.profileId
    ⟨.createProfile p, .ok ()⟩ with hsame | ⟨-, hstep⟩
  · rw [hsame]
    apply rules_of_none
    obtain ⟨c, hanswer⟩ := answer_run hr
    by_contra hsome
    have hrefused : (ProfileOp.createProfile p).answer (s.after (acts es₁)) c = some
      (.error (.store false)) :=
      if_pos (Option.isSome_iff_ne_none.2 hsome)
    cases hanswer.symm.trans hrefused
  · generalize (s.after (acts es₁)).rules p.profileId = old at hstep
    generalize hnew : ((s.after (acts es₁)).act ⟨.createProfile p, .ok ()⟩).rules p.profileId =
      new at hstep
    cases hstep
    exact ruleCall_inserts hmet

/-- A rule with a value that a request writes: one with its id had the value when the request took
the profile. -/
theorem value_taken {edit : ProfileEdit} {rule old : CustomRule} {x : profileCalls.sig.Act}
    {r : profileCalls.sig.Res (.edit pid edit)} {l₁ l₂ : Acts}
    (hcond : Orderly env newID a s jobs (es ++ [⟨i, .edit pid edit, r⟩]))
    (hsplit : trace i es = l₁ ++ x :: l₂) (htakes : Takes pid x) (hcalm : ∀ y ∈ l₂, Calm y.1)
    (hrule : rule ∈ written pid (⟨.edit pid edit, r⟩ : profileCalls.sig.Act))
    (hold : old ∈ (s.after (acts es)).rules pid) (hvalue : old.value = rule.value) :
    ∃ es₁ es₂, es = es₁ ++ ⟨i, x.1, x.2⟩ :: es₂ ∧
      ∃ old' ∈ (s.after (acts (es₁ ++ [⟨i, x.1, x.2⟩]))).rules pid, old'.id = old.id ∧
        old'.value = rule.value := by
  obtain ⟨es₁, es₂, rfl, -, hrest⟩ := trace_split hsplit
  rw [← hrest] at hcalm
  have hrow : (old.id, rule.value) ∈ (s.after (acts (es₁ ++ ⟨i, x.1, x.2⟩ :: es₂))).ruleRows pid :=
    mem_ruleRows.2 ⟨old, hold, Prod.ext rfl hvalue⟩
  rw [List.append_assoc, List.cons_append] at hcond
  obtain ⟨old', hold', heq⟩ :=
    mem_ruleRows.1 (row_taken hcond rfl htakes rfl hrule (calm_own hcalm) hrow)
  obtain ⟨hid, hvalue'⟩ := Prod.mk.inj heq
  exact ⟨es₁, es₂, rfl, old', hold', hid, hvalue'⟩

/-- **What is written is fresh.** -/
theorem fresh_values (hr : Run profileHandler Free (startRules env casts newID a s jobs)
    (es ++ [e]) R) (hcond : Orderly env newID a s jobs (es ++ [e]))
    (hpast : ∀ es₁, es₁ <+: es → RuleSet a (s.after (acts es₁))) (htook : TookEffect e.res)
    (pid : String) : FreshValues pid ((s.after (acts es)).rules pid) e.op := by
  have hmet : RuleCall env (newID e.who) a (trace e.who es) e.op (jobs e.who) := run_ruleCall hr
  obtain ⟨i, o, r⟩ := e
  cases o with
  | createProfile p =>
    intro _
    rw [ruleCall_inserts hmet]
    exact List.nodup_nil
  | edit pid' edit =>
    cases edit with
    | createCustomRules new =>
      rintro rfl
      have hwritten : ∀ rule ∈ new, rule ∈ written pid'
          (⟨.edit pid' (.createCustomRules new), r⟩ : profileCalls.sig.Act) := by
        intro rule hrule
        refine mem_written.2 ⟨htook, .inl ?_⟩
        rwa [creates_rules]
      rcases ruleCall_creates hmet with ⟨p, L, hl, hnew, -⟩ | ⟨decode, mode, payload, hjob, hadds⟩
      · -- the rules of a request are new to the profile that it has read
        refine ⟨hnew.values, fun rule hrule old hold hvalue => ?_⟩
        have hread : trace i es = ([] : Acts) ++ ⟨.getProfileById pid', .ok p⟩ ::
            [⟨.getProfilesByAccountId a, .ok L⟩] := hl
        obtain ⟨es₁, es₂, rfl, old', hold', -, hvalue'⟩ :=
          value_taken hcond hread rfl (List.forall_mem_singleton.2 trivial)
            (hwritten rule hrule) hold hvalue
        rw [List.append_assoc, List.cons_append] at hr
        rw [rules_read hr] at hold'
        exact hnew.fresh rule hrule (List.mem_map.2 ⟨old', hold', hvalue'⟩)
      · -- those of an import come into a profile that it has made, without rules
        obtain ⟨m₁, p, m₂, hsplit, rfl, hany⟩ := hadds.profile
        obtain ⟨k, ep, -, hep, haccepted⟩ := hadds.accepted
        refine ⟨?_, fun rule hrule old hold hvalue => ?_⟩
        · rw [haccepted]
          exact hcond.payloads i decode mode payload hjob k ep (List.mem_of_getElem? hep)
        · obtain ⟨es₁, es₂, rfl, old', hold', -, -⟩ :=
            value_taken hcond hsplit rfl (fun y hy => (hany y hy).calm)
              (hwritten rule hrule) hold hvalue
          rw [List.append_assoc, List.cons_append] at hr
          rw [rules_made hr] at hold'
          cases hold'
    | updateCustomRule rule =>
      -- an edit was checked against the profile that it has read
      rintro rfl old hold hne hvalue
      obtain ⟨id, patch, p, -, hl, existing, hexisting, hid, -, hchecked⟩ := ruleCall_updates hmet
      have hread : trace i es = ([] : Acts) ++ ⟨.getProfileById pid', .ok p⟩ :: [] := hl
      have hwritten : rule ∈ written pid'
          (⟨.edit pid' (.updateCustomRule rule), r⟩ : profileCalls.sig.Act) := by
        refine mem_written.2 ⟨htook, .inr ?_⟩
        rw [replaces_rule]
        exact List.mem_singleton_self _
      obtain ⟨es₁, es₂, rfl, old', hold', hid', hvalue'⟩ :=
        value_taken hcond hread rfl (List.forall_mem_nil _) hwritten hold hvalue
      rw [List.append_assoc, List.cons_append] at hr
      rw [rules_read hr] at hold'
      have hother : old'.id ≠ rule.id := by
        rw [hid']
        exact hne
      rcases hchecked with hsame | hfree
      · -- the value of the rule is as it was, and no other rule had it
        have hvalues :=
          (hpast (es₁ ++ [⟨i, .getProfileById pid', .ok p⟩]) ⟨es₂, by simp⟩).values pid'
        rw [rules_read hr] at hvalues
        obtain rfl : old' = existing :=
          List.inj_on_of_nodup_map hvalues hold' hexisting (hvalue'.trans hsame)
        exact hother hid.symm
      · exact hfree old' hold' hother hvalue'
    | _ => trivial
  | _ => trivial

/-- New rules have ids that no stored rule has. -/
theorem fresh_ids (hnew : FreshIDs newID s)
    (hr : Run profileHandler Free (startRules env casts newID a s jobs) (es ++ [e]) R)
    (pid : String) : ((created pid (actOf e)).map (·.id)).Nodup ∧
      ∀ new ∈ created pid (actOf e), ∀ old ∈ (s.after (acts es)).rules pid, old.id ≠ new.id := by
  have hmet : RuleCall env (newID e.who) a (trace e.who es) e.op (jobs e.who) := run_ruleCall hr
  obtain ⟨places, hplaces, hids⟩ := ruleCall_ids hmet pid
  -- every new id is drawn for this call and this batch
  have hcreated : ∀ new ∈ created pid (actOf e), e.op.creates pid ≠ [] ∧
      ∃ m, new.id = newID e.who (batch (trace e.who es)) m := by
    intro new hmem
    have hcreates := (mem_created.1 hmem).2
    have hid := List.mem_map_of_mem (f := (·.id)) hcreates
    rw [hids] at hid
    obtain ⟨m, -, heq⟩ := List.mem_map.1 hid
    exact ⟨List.ne_nil_of_mem hcreates, m, heq.symm⟩
  constructor
  · have hall : ((e.op.creates pid).map (·.id)).Nodup := by
      rw [hids]
      exact hplaces.map fun m m' heq => (hnew.injective _ _ _ _ _ _ heq).2.2
    unfold created
    split
    · exact hall
    · exact List.nodup_nil
  · intro new hmem old hold heq
    obtain ⟨hcreates, m, hid⟩ := hcreated new hmem
    rw [hid] at heq
    rcases id_after hold with ⟨first, hfirst, hsame⟩ | ⟨z, hz, other, hother, hsame⟩
    · exact hnew.unstored _ _ _ pid first hfirst (hsame.trans heq)
    · -- the old rule has come with a batch of its own
      obtain ⟨y, hy, rfl⟩ := List.mem_map.1 hz
      obtain ⟨es₁, es₂, rfl⟩ := List.append_of_mem hy
      have hrun : Run profileHandler Free (startRules env casts newID a s jobs)
          (es₁ ++ y :: (es₂ ++ [e])) R := by simpa using hr
      have hmet' : RuleCall env (newID y.who) a (trace y.who es₁) y.op (jobs y.who) :=
        run_ruleCall hrun
      obtain ⟨places', -, hids'⟩ := ruleCall_ids hmet' pid
      have hcreates' := (mem_created.1 hother).2
      have hid' := List.mem_map_of_mem (f := (·.id)) hcreates'
      rw [hids'] at hid'
      obtain ⟨m', -, heq'⟩ := List.mem_map.1 hid'
      obtain ⟨hwho, hbatch, -⟩ := hnew.injective _ _ _ _ _ _ (heq'.trans (hsame.trans heq))
      have hsplit : trace e.who (es₁ ++ y :: es₂) = trace e.who es₁ ++ ⟨y.op, y.res⟩ ::
          trace e.who es₂ := by
        rw [trace_append, trace_cons, ← hwho]
        simp [trace]
      rw [hwho] at hmet' hbatch
      have hlt : batch (trace e.who es₁) < batch (trace e.who (es₁ ++ y :: es₂)) :=
        batch_lt hsplit hmet' hmet (List.ne_nil_of_mem hcreates') hcreates
      exact absurd hbatch (Nat.ne_of_lt hlt)

/-- The profiles keep ids of their own. -/
theorem profileIds_act {c : Choice} {x : profileCalls.sig.Act}
    (h : (s.profiles.map (·.profileId)).Nodup) (hanswer : x.1.answer s c = some x.2) :
    ((s.act x).profiles.map (·.profileId)).Nodup := by
  have honProfile : ∀ {pid : String} {f : Profile → Profile}, (∀ p, (f p).profileId = p.profileId) →
      ((s.onProfile pid f).profiles.map (·.profileId)).Nodup := by
    intro pid f hf
    have hsame : (s.onProfile pid f).profiles.map (·.profileId) = s.profiles.map (·.profileId) := by
      unfold Stores.onProfile
      rw [List.map_map]
      refine List.map_congr_left fun p _ => ?_
      show (if p.profileId = pid then f p else p).profileId = p.profileId
      split
      · exact hf p
      · rfl
    rw [hsame]
    exact h
  obtain ⟨o, r⟩ := x
  unfold Stores.act
  split
  · next htook =>
    cases o with
    | createProfile p =>
      show ((s.profiles ++ [p]).map (·.profileId)).Nodup
      rw [List.map_append]
      refine List.Nodup.append h (List.nodup_singleton _) (List.disjoint_singleton.2 fun hmem => ?_)
      obtain ⟨q, hq, hid⟩ := List.mem_map.1 hmem
      have hsome : (s.find p.profileId).isSome := List.find?_isSome.2 ⟨q, hq, decide_eq_true hid⟩
      have hrefused : (ProfileOp.createProfile p).answer s c = some (.error (.store false)) :=
        if_pos hsome
      cases hanswer.symm.trans hrefused
      cases htook
    | deleteProfileById pid => exact h.sublist (List.filter_sublist.map _)
    | edit pid edit => exact honProfile fun p => edit_profileId p edit
    | findOneAndUpdate pid upd => exact honProfile fun p => updateFields_profileId p upd
    | _ => exact h
  · exact h

/-- An import adds the rules that it writes, and no others. -/
theorem gain_import {ids : ℕ → ℕ → RuleID} {payload : ExportEnvelope} {l : Acts} {o : ProfileOp}
    (h : ImportCall env a ids payload l o) (r : Except ServiceErr o.Ans) :
    o.gain s ≤ rulesAddedBy ⟨o, r⟩ := by
  cases o with
  | createProfile p =>
    have hnone : p.settings.customRules = [] := Inserts.noRules h
    show p.settings.customRules.length ≤ 0
    rw [hnone]
    exact Nat.le_refl _
  | edit pid edit =>
    cases edit with
    | createCustomRules rules => exact Nat.le_refl _
    | _ => exact h.elim
  | findOneAndUpdate pid upd => exact h.elim
  | _ => exact Nat.zero_le _

/-- The rules of the account since a request has listed the profiles, while no other request adds
any. -/
theorem count_since {L : List Profile}
    (hr : Run profileHandler Free (startRules env casts newID a s jobs)
      (es₁ ++ ⟨i, .getProfilesByAccountId a, .ok L⟩ :: es₂) R)
    (hpast : ∀ es', es' <+: es₁ ++ ⟨i, .getProfilesByAccountId a, .ok L⟩ :: es₂ →
      RuleSet a (s.after (acts es')))
    (hothers : ∀ es₃ y es₄, es₂ = es₃ ++ y :: es₄ → y.who ≠ i →
      ¬ Grows a (s.after (acts (es₁ ++ ⟨i, .getProfilesByAccountId a, .ok L⟩ :: es₃))) (actOf y))
    (hown : ∀ es₃ y es₄, es₂ = es₃ ++ y :: es₄ → y.who = i →
      y.op.gain (s.after (acts (es₁ ++ ⟨i, .getProfilesByAccountId a, .ok L⟩ :: es₃))) ≤
        rulesAddedBy (actOf y)) :
    (s.after (acts (es₁ ++ ⟨i, .getProfilesByAccountId a, .ok L⟩ :: es₂))).ruleCount a ≤
      countCustomRules L + rulesAdded (trace i es₂) := by
  induction es₂ using List.reverseRecOn generalizing R with
  | nil =>
    obtain ⟨c, hanswer⟩ := answer_run hr
    have hlisted : L = (s.after (acts es₁)).owned a := by
      cases c with
      | ok => exact (Except.ok.inj (Option.some.inj hanswer)).symm
      | _ => cases hanswer
    rw [after_concat, hlisted]
    exact Nat.le_refl _
  | append_singleton es₂ y ih =>
    rw [← List.cons_append, ← List.append_assoc] at hr hpast ⊢
    obtain ⟨Q, hrun, -, -⟩ := run_last hr
    have hbefore := ih hrun (fun es' hes => hpast es' (hes.trans (List.prefix_append _ _)))
      (fun es₃ z es₄ hes => hothers es₃ z (es₄ ++ [y]) (by rw [hes]; simp))
      (fun es₃ z es₄ hes => hown es₃ z (es₄ ++ [y]) (by rw [hes]; simp))
    rw [after_concat, trace_append, rulesAdded_append]
    by_cases hy : y.who = i
    · have hgain := ruleCount_act (a := a) (hpast _ (List.prefix_append _ _)).profiles (actOf y)
      have hadded := hown es₂ y [] rfl hy
      have hone : rulesAdded (trace i [y]) = rulesAddedBy (actOf y) := by
        simp [trace, rulesAdded, hy]
      rw [hone]
      dsimp only [actOf] at hgain hadded ⊢
      omega
    · have hstill := hothers es₂ y [] rfl hy
      unfold Grows at hstill
      omega

/-- **There is room for what is written.** -/
theorem room_step (hr : Run profileHandler Free (startRules env casts newID a s jobs) (es ++ [e]) R)
    (hcond : Orderly env newID a s jobs (es ++ [e]))
    (hpast : ∀ es₁, es₁ <+: es → RuleSet a (s.after (acts es₁))) :
    (s.after (acts (es ++ [e]))).ruleCount a ≤ maxCustomRulesPerAccount := by
  have hnow := hpast es (List.prefix_refl _)
  have hmet : RuleCall env (newID e.who) a (trace e.who es) e.op (jobs e.who) := run_ruleCall hr
  have hgain := ruleCount_act (a := a) hnow.profiles (actOf e)
  rw [after_concat]
  -- only a call that took effect can add rules
  by_cases htook : TookEffect e.res
  · obtain ⟨i, o, r⟩ := e
    have hsame : o.gain (s.after (acts es)) = 0 → ((s.after (acts es)).act ⟨o, r⟩).ruleCount a ≤
        maxCustomRulesPerAccount := by
      intro hzero
      have hroom := hnow.room
      dsimp only [actOf] at hgain
      omega
    obtain ⟨Q, hrun, -, -⟩ := run_last hr
    cases o with
    | createProfile p =>
      refine hsame ?_
      show p.settings.customRules.length = 0
      rw [ruleCall_inserts hmet]
      rfl
    | edit pid edit =>
      cases edit with
      | createCustomRules rules =>
        -- since the last listing nobody else has added rules
        have hothers : ∀ {es₁ L es₂}, es = es₁ ++ ⟨i, .getProfilesByAccountId a, .ok L⟩ :: es₂ →
            ∀ es₃ y es₄, es₂ = es₃ ++ y :: es₄ → y.who ≠ i →
              ¬ Grows a (s.after (acts (es₁ ++ ⟨i, .getProfilesByAccountId a, .ok L⟩ :: es₃)))
                (actOf y) := by
          rintro es₁ L es₂ rfl es₃ y es₄ rfl hy
          exact hcond.room es₁ i L es₃ y es₄ _ [] (by simp; rfl) rfl hy pid rules rfl
        refine hgain.trans ?_
        change _ + rules.length ≤ _
        rcases ruleCall_creates hmet with ⟨p, L, hl, -, hroom⟩ | ⟨decode, mode,
          payload, hjob, hadds⟩
        -- a request counts the rules right before its creation
        · have hread : trace i es = ([⟨.getProfileById pid, .ok p⟩] : Acts) ++
              ⟨.getProfilesByAccountId a, .ok L⟩ :: [] := hl
          obtain ⟨es₁, es₂, rfl, -, hrest⟩ := trace_split hread
          have hcount := count_since hrun hpast (hothers rfl) fun es₃ y es₄ hes hy => by
            have hmem : (actOf y) ∈ trace i es₂ := mem_trace.2 (by rw [← hy, hes]; simp)
            rw [hrest] at hmem
            cases hmem
          rw [hrest] at hcount
          refine (Nat.add_le_add_right hcount _).trans ?_
          exact hroom
        -- an import counts them once and the rules it has added itself after that
        · obtain ⟨existing, hlisted, -, hroom⟩ := hadds.listed
          obtain ⟨es₁, es₂, a', rfl, -⟩ := last_listing hlisted
          have hlist : RuleCall env (newID i) a (trace i es₁) (.getProfilesByAccountId a')
              (jobs i) := run_ruleCall hrun
          rw [hjob] at hlist
          obtain rfl : a' = a := hlist.1
          have hcount := count_since hrun hpast (hothers rfl) fun es₃ y es₄ hes hy => by
            subst hes
            have hrun' : Run profileHandler Free (startRules env casts newID a' s jobs)
                ((es₁ ++ ⟨i, .getProfilesByAccountId a', .ok existing⟩ :: es₃) ++ y :: es₄) Q := by
                  simpa using hrun
            have hmet' : RuleCall env (newID y.who) a' (trace y.who _) y.op (jobs y.who) :=
              run_ruleCall hrun'
            rw [hy, hjob] at hmet'
            exact gain_import hmet' y.res
          have hadded := hadds.fits
          rw [trace_append, rulesAdded_append, trace_cons, rulesAdded_append] at hadded
          omega
      | _ => exact hsame rfl
    | findOneAndUpdate pid upd =>
      exact hgain.trans (hcond.appends es _ [] pid upd rfl rfl htook)
    | _ => exact hsame rfl
  · have hsame : (s.after (acts es)).act (actOf e) = s.after (acts es) := if_neg htook
    rw [hsame]
    exact hnow.room

end Steps

section Runs

variable [DecidableEq ι] {es : List (SetEvent ι)} {R : SetPool ι}

/-- **The rules of an account.** After every run of creations, edits, deletions and reorders of
rules, imports and patches in which nothing comes between a check and the write that relies on it:
no profile holds two rules with one value, and the account has at most `MaxCustomRulesPerAccount`
rules. -/
theorem rules_kept (hnew : FreshIDs newID s) (h0 : RuleSet a s)
    (hr : Run profileHandler Free (startRules env casts newID a s jobs) es R)
    (hcond : Orderly env newID a s jobs es) :
    (∀ p ∈ R.state.profiles, (p.settings.customRules.map (·.value)).Nodup) ∧
      R.state.ruleCount a ≤ maxCustomRulesPerAccount := by
  have hpast : ∀ es₁, es₁ <+: es → RuleSet a (s.after (acts es₁)) := by
    -- by induction on the run: ids, values and room after every prefix of it
    refine run_past (fun _ _ h => h.left) h0 (fun es e R hr hcond hpast => ?_) hr hcond
    have hnow := hpast es (List.prefix_refl _)
    refine ⟨?_, fun pid => ?_, fun pid => ?_, room_step hr hcond hpast⟩
    · obtain ⟨c, hanswer⟩ := answer_run hr
      rw [after_concat]
      exact profileIds_act hnow.profiles hanswer
    · obtain ⟨hnodup, hfresh⟩ := fresh_ids hnew hr pid
      rw [after_concat]
      exact ids_act (hnow.ids pid) hnodup hfresh
    · rw [after_concat]
      exact values_act (hnow.ids pid) (hnow.values pid) fun htook =>
        fresh_values hr hcond hpast htook pid
  have hset := hpast es (List.prefix_refl _)
  have hstate : R.state = s.after (acts es) := state_run hr
  rw [hstate]
  refine ⟨fun p hp => ?_, hset.room⟩
  have hvalues := hset.values p.profileId
  rwa [rules_of_find (find_of_mem hset.profiles hp)] at hvalues

end Runs

section Checks

/-! ### Runs that meet the condition -/

variable {ι V : Type} {env : ServiceEnv} {newID : ι → ℕ → ℕ → RuleID} {a pid v : String}
  {s : Stores} {jobs : ι → RuleJob V} {es : List (SetEvent ι)} {x : profileCalls.sig.Act}

/-- A value is put into a profile by a call that writes it. -/
theorem written_of_puts (h : Puts s pid v x) : ∃ rule ∈ written pid x, rule.value = v := by
  obtain ⟨id, hnow, hbefore⟩ := h
  obtain ⟨rule, hrule, hrow⟩ := List.mem_map.1 hnow
  refine ⟨rule, ?_, (Prod.mk.inj hrow).2⟩
  rcases origin_act hrule with ⟨old, hold, hsame⟩ | hcreated | ⟨hwritten, -⟩
  · exact absurd (List.mem_map.2 ⟨old, hold, hsame.trans hrow⟩) hbefore
  · exact written_of_created hcreated
  · exact hwritten

theorem ruleCount_calm (h : Calm x.1) : (s.act x).ruleCount a = s.ruleCount a := by
  obtain ⟨o, r⟩ := x
  unfold Stores.act
  split
  · cases o <;> first | exact h.elim | rfl
  · rfl

/-- The profile whose rules an edit is about. -/
def ProfileOp.edited : ProfileOp → List String
  | .edit pid _ => [pid]
  | _ => []

/-- The profile to which rules are added. -/
def ProfileOp.fills : ProfileOp → List String
  | .edit pid (.createCustomRules _) => [pid]
  | _ => []

def ProfileOp.appends : ProfileOp → List (String × List CustomRule)
  | .findOneAndUpdate pid upd => [(pid, upd.appendCustomRules)]
  | _ => []

/-- An edit writes no value that another request writes to the profile. -/
def Apart (es : List (SetEvent ι)) : Prop :=
  ∀ e ∈ es, ∀ pid ∈ e.op.edited, ∀ y ∈ es, y.who ≠ e.who →
    ∀ rule ∈ written pid (actOf e), ∀ new ∈ written pid (actOf y), new.value ≠ rule.value

/-- From the list of a request up to its write of rules, no other request writes. -/
def UnmixedLists : List (SetEvent ι) → Prop :=
  Between (fun x => x.op.lists = true) fun x y e =>
    y.who ≠ x.who → e.who = x.who → e.op.fills ≠ [] → Calm y.op

/-- The rules of a default rule are appended where there is room. -/
def RoomFor (a : String) (s : Stores) (before : List (SetEvent ι)) (e : SetEvent ι) : Prop :=
  ∀ y ∈ e.op.appends, (s.after (acts before)).ruleCount a +
    (missing ((s.after (acts before)).rules y.1) y.2).length ≤ maxCustomRulesPerAccount

def RoomAt (a : String) (s : Stores) (es : List (SetEvent ι)) : Prop :=
  ∀ n (hn : n < es.length), RoomFor a s (es.take n) es[n]

section Decidable

variable [DecidableEq ι]

instance (o : ProfileOp) : Decidable (Calm o) := by
  unfold Calm Aloof
  split <;> (try split) <;> infer_instance

instance : Decidable (Apart es) := by
  unfold Apart
  infer_instance

instance : Decidable (UnmixedLists es) := by
  unfold UnmixedLists
  infer_instance

instance : Decidable (RoomAt a s es) := by
  unfold RoomAt RoomFor
  infer_instance

end Decidable

/-- The condition can be checked event by event. -/
theorem orderly_of_checks (hvalues : Apart es) (hlists : UnmixedLists es) (hroom : RoomAt a s es)
    (hpayloads : ∀ i decode mode payload, jobs i = .importProfiles decode mode payload → ∀ k,
      ∀ ep ∈ payload.profiles, ((acceptedRules env.tags (newID i k) (rulesOf ep)).map
        (·.value)).Nodup) :
    Orderly env newID a s jobs es := by
  refine ⟨?_, ?_, hpayloads, ?_⟩
  · rintro es₁ x es₂ y es₃ e es₄ rfl - hother pid edit - hop rule hrule hputs
    obtain ⟨new, hnew, heq⟩ := written_of_puts hputs
    have hedited : pid ∈ e.op.edited := by
      rw [hop]
      exact List.mem_singleton_self pid
    exact hvalues e (by simp) pid hedited y (by simp) hother rule hrule new hnew heq
  · rintro es₁ i L es₂ y es₃ e es₄ rfl hwho hother pid rules hop hgrows
    have hsplit : es₁ ++ ⟨i, .getProfilesByAccountId a, .ok L⟩ :: (es₂ ++ y :: (es₃ ++ e :: es₄)) =
        es₁ ++ ⟨i, .getProfilesByAccountId a, .ok L⟩ :: ((es₂ ++ y :: es₃) ++ e :: es₄) := by simp
    rw [hsplit] at hlists
    have hcalm : Calm y.op := hlists.mid rfl (by simp) hother hwho (by simp [hop, ProfileOp.fills])
    unfold Grows at hgrows
    rw [ruleCount_calm (x := actOf y) hcalm] at hgrows
    exact absurd hgrows (Nat.lt_irrefl _)
  · intro es₁ e es₂ pid upd hes hop _
    exact forall_splits (P := RoomFor a s) hroom es₁ e es₂ hes (pid, upd.appendCustomRules)
      (by simp [hop, ProfileOp.appends])

end Checks

section Examples

/-- One name is known to be a domain name. -/
def rulesEnv : ServiceEnv :=
  { exampleEnv with tags := { exampleTags with fqdn := fun s => s = "ads.example" } }

/-- Ids for the rules of a few requests. -/
def pairIDs {n : ℕ} (i : Fin n) (k m : ℕ) : RuleID := Nat.pair i (Nat.pair k m)

theorem rules_freshStores (pid : String) : freshStores.rules pid = [] := by
  unfold Stores.rules Stores.find
  cases h : freshStores.profiles.find? (·.profileId = pid) with
  | none => rfl
  | some p =>
    obtain rfl : p = oneProfile := List.mem_singleton.1 (List.mem_of_find?_eq_some h)
    rfl

theorem pairIDs_fresh {n : ℕ} : FreshIDs (pairIDs (n := n)) freshStores := by
  constructor
  · intro i k m i' k' m' h
    obtain ⟨hi, hrest⟩ := Nat.pair_eq_pair.1 h
    exact ⟨Fin.ext hi, Nat.pair_eq_pair.1 hrest⟩
  · intro i k m pid rule hrule
    rw [rules_freshStores] at hrule
    cases hrule

theorem freshStores_rules : RuleSet "a" freshStores := by
  refine ⟨by decide, fun pid => ?_, fun pid => ?_, by decide⟩
  all_goals
    rw [rules_freshStores]
    exact List.nodup_nil

/-- A file that lists a value twice. -/
def repeatedRule : ExportEnvelope where
  schemaVersion := 1
  kind := exportKind
  exportedAt := 0
  profiles :=
    [{ name := "office"
       settings := some
         { customRules :=
             [⟨"block", "ads.example", "", ""⟩, ⟨"allow", "ads.example", "", ""⟩] } }]

def importsRepeated : Fin 1 → RuleJob String := fun _ =>
    .importProfiles (fun _ => none) importModeCreateNew repeatedRule

/-- The import goes through. -/
def importGoes : List (Fin 1 × Choice) :=
  [(thread 0, .ok), (thread 0, .time 0), (thread 0, .id "q")] ++ List.replicate 11 (thread 0, .ok)

theorem importGoes_plays : (play profileHandler Free importGoes
    (startRules rulesEnv textCasts pairIDs "a" freshStores importsRepeated)).isSome := by decide

/-- The profile holds the value twice. -/
theorem repeated_imported : FreshIDs (pairIDs (n := 1)) freshStores ∧ RuleSet "a" freshStores ∧
    ∃ es R, Run profileHandler Free
      (startRules rulesEnv textCasts pairIDs "a" freshStores importsRepeated) es R ∧
      ∃ p ∈ R.state.profiles, ¬ (p.settings.customRules.map (·.value)).Nodup := by
  refine ⟨pairIDs_fresh, freshStores_rules, _, _, run_play importGoes_plays, ?_⟩
  decide

/-- A file with two rules. -/
def twoRules : ExportEnvelope where
  schemaVersion := 1
  kind := exportKind
  exportedAt := 0
  profiles :=
    [{ name := "office"
       settings := some
         { customRules := [⟨"block", "ads.example", "", ""⟩, ⟨"allow", "192.0.2.1", "", ""⟩] } }]

theorem twoRules_accepted (newID : ℕ → RuleID) (ep : ExportedProfile) (h : ep ∈ twoRules.profiles) :
    ((acceptedRules rulesEnv.tags newID (rulesOf ep)).map (·.value)).Nodup := by
  obtain rfl := List.mem_singleton.1 h
  have hvalues : (acceptedRules rulesEnv.tags newID
      [⟨"block", "ads.example", "", ""⟩, ⟨"allow", "192.0.2.1", "", ""⟩]).map (·.value) =
        ["ads.example", "192.0.2.1"] := rfl
  show ((acceptedRules rulesEnv.tags newID
    [⟨"block", "ads.example", "", ""⟩, ⟨"allow", "192.0.2.1", "", ""⟩]).map (·.value)).Nodup
  rw [hvalues]
  decide

/-- Two creations of rules in one profile, an import, and a patch of the default rule. -/
def writers : List (RuleJob String) :=
  [.createBulk "p" "block" ["192.0.2.1", "192.0.2.2"], .create "p" "allow" "192.0.2.3",
    .importProfiles (fun _ => none) importModeCreateNew twoRules,
    .patch "p" [⟨.replace, .defaultRule, "block"⟩]]

def writerJobs (i : Fin 4) : RuleJob String := writers[i.val]?.getD (.delete "p" 0)

/-- The creations and the patch load the profile before any of them writes, and the creations go on
while the import writes. -/
def writersMixed : List (Fin 4 × Choice) :=
  [(thread 0, .ok), (thread 1, .ok), (thread 3, .ok), (thread 0, .ok), (thread 0, .ok),
    (thread 1, .ok), (thread 1, .ok), (thread 2, .ok), (thread 2, .time 0), (thread 2, .id "q"),
    (thread 0, .ok), (thread 2, .ok), (thread 0, .ok)] ++ List.replicate 12 (thread 2, .ok) ++
    [(thread 1, .ok), (thread 3, .time 0), (thread 1, .ok), (thread 3, .ok), (thread 3, .ok)]

/-- All the rules arrive, each value once in its profile. -/
theorem rules_kept_writers : ∃ es R,
    Run profileHandler Free
      (startRules rulesEnv textCasts pairIDs "a" freshStores writerJobs) es R ∧
      R.state.profiles.map (fun p => (p.profileId, p.settings.customRules.map (·.value))) =
        [("p", ["192.0.2.1", "192.0.2.2", "192.0.2.3", "login.example.com"]),
          ("q", ["ads.example", "192.0.2.1"])] ∧
      (∀ p ∈ R.state.profiles, (p.settings.customRules.map (·.value)).Nodup) ∧
      R.state.ruleCount "a" ≤ maxCustomRulesPerAccount := by
  have hplays : (play profileHandler Free writersMixed
      (startRules rulesEnv textCasts pairIDs "a" freshStores writerJobs)).any (fun x =>
        Apart x.1 ∧ UnmixedLists x.1 ∧ RoomAt "a" freshStores x.1 ∧
          x.2.state.profiles.map (fun p => (p.profileId, p.settings.customRules.map (·.value))) =
            [("p", ["192.0.2.1", "192.0.2.2", "192.0.2.3", "login.example.com"]),
              ("q", ["ads.example", "192.0.2.1"])]) := by
    decide +kernel
  obtain ⟨⟨es, R⟩, hplay, hfacts⟩ := (Option.any_eq_true _ _).1 hplays
  obtain ⟨hvalues, hlists, hroom, hrules⟩ := of_decide_eq_true hfacts
  have hrun := run_of_play hplay
  refine ⟨es, R, hrun, hrules, rules_kept pairIDs_fresh freshStores_rules hrun ?_⟩
  refine orderly_of_checks hvalues hlists hroom ?_
  intro i decode mode payload hjob k
  have hpayload : payload = twoRules := by
    fin_cases i <;> cases hjob
    rfl
  subst hpayload
  exact twoRules_accepted (pairIDs i k)

end Examples

end ModDNS.Profiles
