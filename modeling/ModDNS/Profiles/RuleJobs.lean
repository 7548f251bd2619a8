import ModDNS.Profiles.ProfileSet
import ModDNS.Profiles.RuleRows

/-!
# Requests on the rules of an account

Creations, edits, deletions and reorders of rules, imports, and patches, which append the rules that
come with a blocking default rule.

* `follows_ruleJob`: what each of them has read and checked when it writes rules.
-/

namespace ModDNS.Profiles

open Conc Rules

section Jobs

variable {V : Type} (env : ServiceEnv) (casts : Casts V) (newID : ℕ → ℕ → RuleID) (a : String)

/-- A request on the rules of the profiles of an account. -/
inductive RuleJob (V : Type) where
  | create (profileId action value : String)
  | createBulk (profileId action : String) (values : List String)
  | update (profileId : String) (customRuleId : RuleID) (fields : CustomRulePatch)
  | delete (profileId : String) (customRuleId : RuleID)
  | reorder (profileId : String) (orderedIds : List RuleID)
  | importProfiles (decode : String → Option String) (mode : String) (payload : ExportEnvelope)
  | patch (profileId : String) (updates : List (ProfileUpdate V))

/-- `newID` gives the ids of the rules, for each batch of them. -/
def RuleJob.flow : RuleJob V → ProfileFlow Unit
  | .create profileId action value => createCustomRule env (newID 0) a profileId action value
  | .createBulk profileId action values => do
    let _ ← createCustomRulesBulk env (newID 0) a profileId action values
  | .update profileId customRuleId fields =>
    do let _ ← updateCustomRule env a profileId customRuleId fields
  | .delete profileId customRuleId => deleteCustomRule a profileId customRuleId
  | .reorder profileId orderedIds => reorderCustomRules a profileId orderedIds
  | .importProfiles decode mode payload =>
    do let _ ← Profiles.importProfiles env decode a newID mode payload
  | .patch profileId updates => do let _ ← updateProfile env casts (newID 0) a profileId updates

/-- The calls that leave the profiles as they are. -/
def Aloof : ProfileOp → Prop
  | .generate | .now | .turn | .getBlocklist _ | .getServices | .getProfileById _ | .findAfter
      _ | .smembers _
  | .redis _ _ => True
  | _ => False

/-- The rules of a creation, against the profile that it has read. -/
structure NewRules (p : Profile) (rules : List CustomRule) : Prop where
  values : (rules.map (·.value)).Nodup
  fresh : ∀ rule ∈ rules, rule.value ∉ p.settings.customRules.map (·.value)
  ids : rules.map (·.id) = (List.range rules.length).map (newID 0)
  orders : rules.map (·.order) = (List.range rules.length).map (p.settings.customRules.length + ·)

/-- The calls of a creation. -/
def CreateRulesCall (pid : String) (l : Acts) : ProfileOp → Prop
  | .edit pid' (.createCustomRules rules) => pid' = pid ∧ ∃ p L,
      l = [⟨.getProfileById pid, .ok p⟩, ⟨.getProfilesByAccountId a, .ok L⟩] ∧
        NewRules newID p rules ∧
        countCustomRules L + rules.length ≤ maxCustomRulesPerAccount
  | .getProfilesByAccountId a' => a' = a
  | o => Aloof o

/-- The rule of an edit, against the profile that it has read. -/
def EditedRule (p : Profile) (patch : CustomRulePatch) (rule : CustomRule) : Prop :=
  ∃ existing ∈ p.settings.customRules, rule.id = existing.id ∧
    (patch.order = none → rule.order = existing.order) ∧
    (rule.value = existing.value ∨ ∀ r ∈ p.settings.customRules, r.id ≠ rule.id →
      r.value ≠ rule.value)

/-- The calls of an edit. -/
def UpdateRuleCall (pid : String) (patch : CustomRulePatch) (l : Acts) : ProfileOp → Prop
  | .edit pid' (.updateCustomRule rule) =>
    pid' = pid ∧ ∃ p, l = [⟨.getProfileById pid, .ok p⟩] ∧ EditedRule p patch rule
  | o => Aloof o

/-- The calls of a PATCH that may append rules. -/
def AppendRulesCall (l : Acts) : ProfileOp → Prop
  | .findOneAndUpdate _ upd => (∀ x ∈ l, IsRead x.1) ∧
      (upd.appendCustomRules = [] ∨ upd.appendCustomRules = allowedDomainRules env (newID 0))
  | .getProfilesByAccountId _ => True
  | o => Aloof o

def RuleCall (l : Acts) (o : ProfileOp) : RuleJob V → Prop
  | .create pid _ _ | .createBulk pid _ _ => CreateRulesCall newID a pid l o
  | .update pid _ patch => UpdateRuleCall pid patch l o
  | .delete pid id => match o with
    | .edit pid' e => pid' = pid ∧ e = .removeCustomRules [id]
    | o => Aloof o
  | .reorder pid ids => match o with
    | .edit pid' e => pid' = pid ∧ e = .updateCustomRulesOrder (idToOrder ids)
    | o => Aloof o
  | .importProfiles _ _ payload => ImportCall env a newID payload l o
  | .patch _ _ => AppendRulesCall env newID l o

end Jobs

section Follows

variable {V : Type} {env : ServiceEnv} {casts : Casts V} {newID : ℕ → ℕ → RuleID} {a pid : String}
  {l : Acts}

/-- A request has done nothing but read its profile. -/
def Loaded (pid : String) (l : Acts) (r : Except ServiceErr Profile) : Prop :=
  ∀ p : Profile, r = .ok p → l = [⟨.getProfileById pid, .ok p⟩]

theorem follows_loaded {A : Acts → ProfileOp → Prop} (ho : A [] (.getProfileById pid)) :
    Follows A (Loaded pid) (validateProfileIdAffiliation a pid) [] := by
  unfold validateProfileIdAffiliation
  refine follows_act_bind ho (fun e p h => nomatch h) fun stored => ?_
  refine follows_ensure_bind (fun _ p h => nomatch h) fun _ => follows_pure fun p h => ?_
  cases h
  rfl

/-- A flow that leaves the profiles as they are, at the end of a request. -/
theorem follows_aloof {α : Type} {A : Acts → ProfileOp → Prop} {p : ProfileFlow α}
    (hp : Within Aloof p) (hA : ∀ l' o, Aloof o → A l' o) : Follows A (fun _ _ => True) p l :=
  follows_within hp (fun l' o _ ho => hA (l ++ l') o ho) fun _ _ _ _ => trivial

theorem Aloof.createRules {o : ProfileOp} (h : Aloof o) : CreateRulesCall newID a pid l o := by
  cases o <;> first | exact h | exact h.elim

theorem Aloof.updateRule {patch : CustomRulePatch} {o : ProfileOp} (h : Aloof o) :
    UpdateRuleCall pid patch l o := by
  cases o <;> first | exact h | exact h.elim

theorem Aloof.appendRules {o : ProfileOp} (h : Aloof o) : AppendRulesCall env newID l o := by
  cases o <;> first | exact h | exact h.elim

theorem within_pipeline_aloof {cmds : List RedisCmd} : Within Aloof (pipeline pid cmds) :=
  within_pipeline fun _ _ => trivial

theorem follows_createCustomRulesBulk (action : String) (values : List String) :
    Follows (CreateRulesCall newID a pid) (fun _ _ => True)
      (createCustomRulesBulk env (newID 0) a pid action values) [] := by
  unfold createCustomRulesBulk
  have hvalidate : Follows (CreateRulesCall newID a pid) (Loaded pid)
    (validateProfileIdAffiliation a pid) [] :=
    follows_loaded trivial
  refine follows_bind hvalidate (fun _ _ _ _ => trivial) fun l₁ p _ hl₁ => ?_
  cases newCustomRuleAction action with
  | none => exact follows_throw trivial
  | some act =>
    have hsound : BulkSound (newID 0) p.settings
      (values.foldl (bulkStep env.tags (newID 0) p.settings act)
        ⟨p.settings.customRules.map (·.value), [], [], []⟩) := bulkSound_loop values
    dsimp only
    generalize values.foldl (bulkStep env.tags (newID 0) p.settings act) _ = st at hsound
    split
    · exact follows_pure trivial
    refine follows_act_bind rfl (fun _ => trivial) fun profiles => ?_
    refine follows_ensure_bind (fun _ => trivial) fun hroom => ?_
    refine follows_act_bind ⟨rfl, p, profiles, ?_,
      ⟨hsound.values, hsound.fresh, hsound.ids, hsound.orders⟩, hroom⟩
      (fun _ => trivial) fun _ => ?_
    · rw [hl₁ p rfl]
      rfl
    refine follows_bind (follows_aloof within_pipeline_aloof fun _ _ ho => ho.createRules)
      (fun _ _ _ _ => trivial) fun _ _ _ _ => ?_
    exact follows_pure trivial

theorem follows_createCustomRule (action value : String) :
    Follows (CreateRulesCall newID a pid) (fun _ _ => True)
      (createCustomRule env (newID 0) a pid action value) [] := by
  unfold createCustomRule
  refine follows_bind (follows_createCustomRulesBulk action [value]) (fun _ _ _ _ => trivial)
    fun l₁ result _ _ => ?_
  split
  · split
    · exact follows_throw trivial
    · exact follows_throw trivial
    · exact follows_pure trivial
  · exact follows_pure trivial

/-- The value of a patch, for a rule with the id, the order and the value of the stored one. -/
theorem patchValue_ok {settings : ProfileSettings} {existing updated rule : CustomRule}
    {patch : CustomRulePatch} (hsame : updated.id = existing.id ∧ updated.order = existing.order ∧
      updated.value = existing.value)
    (h : (match patch.value with
      | none => pure updated
      | some original =>
        let normalized := normalizeRuleValue settings original
        if normalized = "" then throw .invalidCustomRuleSyntax
        else match newCustomRuleSyntax env.tags normalized with
          | none => throw .invalidCustomRuleSyntax
          | some ruleSyntax =>
            if normalized = updated.value then pure updated
            else if settings.customRules.any fun r => r.id ≠ existing.id ∧ r.value = normalized then
              throw .customRuleAlreadyExists
            else pure { updated with value := normalized, ruleSyntax } : Except CustomRuleError
              CustomRule) = .ok rule) :
    rule.id = existing.id ∧ rule.order = existing.order ∧
      (rule.value = existing.value ∨ ∀ r ∈ settings.customRules, r.id ≠ existing.id →
        r.value ≠ rule.value) := by
  obtain ⟨hid, horder, hvalue⟩ := hsame
  split at h
  · cases h
    exact ⟨hid, horder, .inl hvalue⟩
  · next original _ =>
    dsimp only at h
    generalize normalizeRuleValue settings original = normalized at h
    split at h
    · cases h
    cases hsyn : newCustomRuleSyntax env.tags normalized with
    | none =>
      rw [hsyn] at h
      cases h
    | some ruleSyntax =>
      rw [hsyn] at h
      dsimp only at h
      split at h
      · cases h
        exact ⟨hid, horder, .inl hvalue⟩
      split at h
      · cases h
      · next hfree =>
        cases h
        refine ⟨hid, horder, .inr fun r hr hne hsame => hfree ?_⟩
        exact List.any_eq_true.2 ⟨r, hr, decide_eq_true ⟨hne, hsame⟩⟩

/-- The fields of a patch that are for the proxy. -/
theorem patchProxyFields_ok {settings : ProfileSettings} {existing rule : CustomRule}
    {patch : CustomRulePatch} (h : patchProxyFields env settings existing patch = .ok rule) :
    rule.id = existing.id ∧ rule.order = existing.order ∧
      (rule.value = existing.value ∨ ∀ r ∈ settings.customRules, r.id ≠ existing.id →
        r.value ≠ rule.value) := by
  unfold patchProxyFields at h
  dsimp only at h
  split at h
  · exact patchValue_ok ⟨rfl, rfl, rfl⟩ h
  · split at h
    · cases h
    · next action _ =>
      have hlabels : ({ existing with action := action } : CustomRule).id = existing.id ∧
          existing.order = existing.order ∧ existing.value = existing.value := ⟨rfl, rfl, rfl⟩
      exact patchValue_ok hlabels h

theorem follows_updateCustomRule (customRuleId : RuleID) (patch : CustomRulePatch) :
    Follows (UpdateRuleCall pid patch) (fun _ _ => True)
      (updateCustomRule env a pid customRuleId patch) [] := by
  unfold updateCustomRule
  have hvalidate : Follows (UpdateRuleCall pid patch) (Loaded pid)
    (validateProfileIdAffiliation a pid) [] :=
    follows_loaded trivial
  refine follows_bind hvalidate (fun _ _ _ _ => trivial) fun l₁ p _ hl₁ => ?_
  cases hfound : p.settings.customRules.find? (·.id = customRuleId) with
  | none => exact follows_throw trivial
  | some existing =>
    cases hpatch : patchProxyFields env p.settings existing patch with
    | error e =>
      dsimp only
      rw [hpatch]
      exact follows_throw trivial
    | ok rule =>
      obtain ⟨hid, horder, hvalue⟩ := patchProxyFields_ok hpatch
      dsimp only
      rw [hpatch]
      have hmem := List.mem_of_find?_eq_some hfound
      refine follows_act_bind ⟨rfl, p, hl₁ p rfl, existing, hmem, hid, fun hnone => ?_, ?_⟩
        (fun _ => trivial) fun (matched : ℕ) => ?_
      · show patch.order.getD rule.order = existing.order
        rw [hnone]
        exact horder
      · refine hvalue.imp_right fun hother r hr hne => hother r hr ?_
        rw [← hid]
        exact hne
      refine follows_ensure_bind (fun _ => trivial) fun _ => ?_
      have hend : ∀ l', Follows (UpdateRuleCall pid patch) (fun _ _ => True)
        (pure (patchLabels rule patch) : ProfileFlow CustomRule) l' :=
        fun l' => follows_pure trivial
      split
      · exact follows_bind (follows_aloof within_pipeline_aloof fun _ _ ho => ho.updateRule)
          (fun _ _ _ _ => trivial)
          fun _ _ _ _ => hend _
      · exact hend _

theorem follows_updateProfile_rules (updates : List (ProfileUpdate V)) :
    Follows (AppendRulesCall env newID) (fun _ _ => True)
      (updateProfile env casts (newID 0) a pid updates) [] := by
  unfold updateProfile
  have hvalidate : Follows (AppendRulesCall env newID) (Loaded pid)
    (validateProfileIdAffiliation a pid) [] :=
    follows_loaded trivial
  refine follows_bind hvalidate (fun _ _ _ _ => trivial) fun l₁ stored _ hl₁ => ?_
  -- the operations list the profiles of the account at most
  have hpatch : Follows (AppendRulesCall env newID) (fun l' _ => ∀ x ∈ l', IsRead x.1)
      (applyPatchOperations env casts a updates stored) l₁ := by
    have hlists : Within (fun o : ProfileOp => o = .getProfilesByAccountId a)
      (applyPatchOperations env casts a updates stored) :=
      within_applyPatchOperations rfl
    refine follows_within hlists (fun _ o _ ho => ?_) fun l' _ hl' _ x hx => ?_
    · rw [ho]
      trivial
    · rw [hl₁ stored rfl] at hx
      rcases List.mem_append.1 hx with hx | hx
      · rw [List.mem_singleton.1 hx]
        trivial
      · rw [hl' x hx]
        trivial
  refine follows_bind hpatch (fun _ _ _ _ => trivial) ?_
  rintro l₂ ⟨profile, touched⟩ - hreads
  dsimp only
  split
  · exact follows_pure trivial
  refine follows_act_bind trivial (fun _ => trivial) fun now => ?_
  -- the update appends all the allowed domains or none
  refine follows_act_bind ⟨fun x hx => ?_, ?_⟩ (fun _ => trivial) fun before => ?_
  · rcases List.mem_append.1 hx with hx | hx
    · exact hreads x hx
    · rw [List.mem_singleton.1 hx]
      trivial
  · show (if _ then allowedDomainRules env (newID 0) else []) = [] ∨
      (if _ then allowedDomainRules env (newID 0) else []) = _
    split
    · exact .inr rfl
    · exact .inl rfl
  refine follows_act_bind trivial (fun _ => trivial) fun after => ?_
  -- what goes to Redis is after it
  have hcache : ∀ {cmds : List RedisCmd} {l : Acts}, Follows (AppendRulesCall env newID)
    (fun _ _ => True) (pipeline pid cmds) l :=
    follows_aloof within_pipeline_aloof fun _ _ ho => ho.appendRules
  refine follows_attempt_bind hcache fun l₃ cacheErr _ _ =>
    follows_attempt_bind hcache fun l₄ addErr _ _ => ?_
  split
  · exact follows_throw trivial
  · exact follows_throw trivial
  · exact follows_pure trivial

/-- **The requests**: what each of them has read and checked. -/
theorem follows_ruleJob (J : RuleJob V) :
    Follows (fun l o => RuleCall env newID a l o J) (fun _ _ => True)
      (J.flow env casts newID a) [] := by
  cases J with
  | create pid action value => exact follows_createCustomRule action value
  | createBulk pid action values =>
    exact follows_bind (follows_createCustomRulesBulk action values) (fun _ _ _ _ => trivial)
      fun _ _ _ _ => follows_pure trivial
  | update pid id fields =>
    exact follows_bind (follows_updateCustomRule id fields) (fun _ _ _ _ => trivial) fun _ _ _ _ =>
      follows_pure trivial
  | delete pid id =>
    have hvalidate : Follows (fun l o => RuleCall env newID a l o (.delete pid id : RuleJob V))
      (Loaded pid)
        (validateProfileIdAffiliation a pid) [] := follows_loaded trivial
    refine follows_bind hvalidate (fun _ _ _ _ => trivial) fun l₁ p _ _ => ?_
    refine follows_ensure_bind (fun _ => trivial) fun _ =>
      follows_act_bind ⟨rfl, rfl⟩ (fun _ => trivial) fun _ => ?_
    have hcache : Within Aloof (removeCustomRule pid id) :=
      within_bind (within_act trivial) fun _ => within_act trivial
    refine follows_aloof hcache fun l' o ho => ?_
    cases o <;> first | exact ho | exact ho.elim
  | reorder pid ids =>
    have hvalidate : Follows (fun l o => RuleCall env newID a l o (.reorder pid ids : RuleJob V))
      (Loaded pid)
        (validateProfileIdAffiliation a pid) [] := follows_loaded trivial
    show Follows _ _ (reorderCustomRules a pid ids) []
    unfold reorderCustomRules
    refine follows_bind hvalidate (fun _ _ _ _ => trivial) fun l₁ p _ _ =>
      follows_ensure_bind (fun _ => trivial) fun _ => ?_
    split
    · exact follows_pure trivial
    · exact follows_act_bind ⟨rfl, rfl⟩ (fun _ => trivial) fun _ => follows_pure trivial
  | importProfiles decode mode payload =>
    exact follows_bind (follows_importProfiles mode) (fun _ _ _ _ => trivial) fun _ _ _ _ =>
      follows_pure trivial
  | patch pid updates =>
    exact follows_bind (follows_updateProfile_rules updates) (fun _ _ _ _ => trivial) fun _ _ _ _ =>
      follows_pure trivial

end Follows

end ModDNS.Profiles
