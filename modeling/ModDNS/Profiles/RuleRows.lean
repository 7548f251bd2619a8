import Mathlib.Data.List.Dedup
import ModDNS.Profiles.Rows

/-!
# The rules of a profile, call by call

The custom rules that are stored under a profile id, and what a call on the stores does to them.

* `ruleStep_act`: what one call can do to the rules of a profile.
* `ids_act`, `rows_subset`: where the ids and the values of the stored rules come from.
* `ruleCount_act`: how many rules a call adds to an account.
-/

namespace ModDNS.Profiles

open Conc Data

section Views

variable (s : Stores) (a pid : String)

/-- The rules that are stored under a profile id. -/
def Stores.rules : List CustomRule := ((s.find pid).map (·.settings.customRules)).getD []

/-- The number of rules of an account. -/
def Stores.ruleCount : ℕ := countCustomRules (s.owned a)

def CustomRule.row (rule : CustomRule) : RuleID × String := (rule.id, rule.value)

/-- The rules that a call puts into a profile with ids of their own. -/
def ProfileOp.creates : ProfileOp → List CustomRule
  | .createProfile p => if p.profileId = pid then p.settings.customRules else []
  | .edit pid' (.createCustomRules rules) => if pid' = pid then rules else []
  | .findOneAndUpdate pid' upd => if pid' = pid then upd.appendCustomRules else []
  | _ => []

/-- The rule that a call puts into the place of a stored one. -/
def ProfileOp.replaces : ProfileOp → List CustomRule
  | .edit pid' (.updateCustomRule rule) => if pid' = pid then [rule] else []
  | _ => []

/-- The rules that a call writes to a profile. -/
def written (x : profileCalls.sig.Act) : List CustomRule :=
  if TookEffect x.2 then x.1.creates pid ++ x.1.replaces pid else []

/-- The rules that a call writes to a profile with ids of their own. -/
def created (x : profileCalls.sig.Act) : List CustomRule :=
  if TookEffect x.2 then x.1.creates pid else []

/-- What a call that is carried out can do to the rules of a profile. -/
inductive RuleStep : ProfileOp → List CustomRule → List CustomRule → Prop
  | gone {rules} : RuleStep (.deleteProfileById pid) rules []
  | inserted {p} (hpid : p.profileId = pid) : RuleStep (.createProfile p) [] p.settings.customRules
  | created {rules new} : RuleStep (.edit pid (.createCustomRules new)) rules (rules ++ new)
  | replaced {rules} {rule : CustomRule} : RuleStep (.edit pid (.updateCustomRule rule)) rules
    (rules.map fun r => if r.id = rule.id then rule else r)
  | removed {rules ids} : RuleStep (.edit pid (.removeCustomRules ids)) rules
      (rules.filter (·.id ∉ ids))
  | reordered {rules idToOrder} : RuleStep (.edit pid (.updateCustomRulesOrder idToOrder)) rules
    (rules.map fun r => { r with order := (idToOrder.lookup r.id).getD r.order })
  | regrouped {rules action src dst} : RuleStep
      (.edit pid (.reassignCustomRuleGroup action src dst)) rules
    (rules.map fun r => if r.group = src ∧ r.action.text = action then
      { r with group := dst } else r)
  | appended {rules upd} : RuleStep (.findOneAndUpdate pid upd) rules
    (upd.appendCustomRules.foldl appendCustomRuleIfAbsent rules)

end Views

section Step

variable {s : Stores} {a pid : String}

@[simp] theorem creates_profile {p : Profile} (h : p.profileId = pid) :
    (ProfileOp.createProfile p).creates pid = p.settings.customRules := if_pos h

@[simp] theorem creates_rules {rules : List CustomRule} :
    (ProfileOp.edit pid (.createCustomRules rules)).creates pid = rules := if_pos rfl

@[simp] theorem creates_append {upd : ProfileFieldsUpdate} :
    (ProfileOp.findOneAndUpdate pid upd).creates pid = upd.appendCustomRules := if_pos rfl

@[simp] theorem replaces_rule {rule : CustomRule} :
    (ProfileOp.edit pid (.updateCustomRule rule)).replaces pid = [rule] := if_pos rfl

theorem rules_of_find {p : Profile} (h : s.find pid = some p) :
    s.rules pid = p.settings.customRules := by
  unfold Stores.rules
  rw [h]
  rfl

theorem rules_of_none (h : s.find pid = none) : s.rules pid = [] := by
  unfold Stores.rules
  rw [h]
  rfl

/-- An update in place, of the profile itself or of another one. -/
theorem rules_onProfile {pid' : String} {f : Profile → Profile}
    (hf : ∀ p : Profile, (f p).profileId = p.profileId) :
    (s.onProfile pid' f).rules pid = s.rules pid ∨
      (pid' = pid ∧ ∃ p, s.find pid = some p ∧ (s.onProfile pid' f).rules pid =
        (f p).settings.customRules) := by
  by_cases hpid : pid = pid'
  · subst hpid
    cases hp : s.find pid with
    | none =>
      refine .inl ?_
      unfold Stores.rules
      rw [find_onProfile_none hf hp, hp]
    | some p =>
      refine .inr ⟨rfl, p, rfl, ?_⟩
      refine rules_of_find ?_
      rw [find_onProfile_self hf, hp]
      rfl
  · refine .inl ?_
    unfold Stores.rules
    rw [find_onProfile_ne hf hpid]

/-- A new profile comes with its rules; an id that is taken already keeps those of the first. -/
theorem rules_creation (s : Stores) (pid : String) (p : Profile) :
    ((ProfileOp.createProfile p).effect s).rules pid = s.rules pid ∨
      (s.rules pid = [] ∧ p.profileId = pid ∧ ((ProfileOp.createProfile p).effect s).rules pid =
        p.settings.customRules) := by
  by_cases hnew : s.find pid = none ∧ p.profileId = pid
  · have hfind : ((ProfileOp.createProfile p).effect s).find pid = some p := by
      show (s.profiles ++ [p]).find? _ = some p
      rw [List.find?_append, show s.profiles.find? (·.profileId = pid) = none from hnew.1]
      simp [hnew.2]
    exact .inr ⟨rules_of_none hnew.1, hnew.2, rules_of_find hfind⟩
  · have hfind : ((ProfileOp.createProfile p).effect s).find pid = s.find pid := by
      show (s.profiles ++ [p]).find? _ = s.find pid
      rw [List.find?_append]
      show (s.find pid).or _ = s.find pid
      cases hp : s.find pid with
      | none => simpa [hp] using hnew
      | some q => rfl
    refine .inl ?_
    unfold Stores.rules
    rw [hfind]

/-- A deleted profile has no rules, and the others keep theirs. -/
theorem rules_deletion (s : Stores) (pid pid' : String) :
    ((ProfileOp.deleteProfileById pid').effect s).rules pid = if pid' = pid then []
      else s.rules pid := by
  split
  · next hpid =>
    subst hpid
    have hact : s.act ⟨.deleteProfileById pid', (.ok () : Except ServiceErr Unit)⟩ =
      (ProfileOp.deleteProfileById pid').effect s :=
      if_pos trivial
    rw [← hact]
    exact rules_of_none (find_deleted s pid')
  · next hpid =>
    have hfind : ((ProfileOp.deleteProfileById pid').effect s).find pid = s.find pid := by
      show (s.profiles.filter (·.profileId ≠ pid')).find? (·.profileId = pid) = s.find pid
      unfold Stores.find
      rw [List.find?_filter]
      congr 1
      funext p
      by_cases hp : p.profileId = pid
      · simp [hp, Ne.symm hpid]
      · simp [hp]
    unfold Stores.rules
    rw [hfind]

/-- **What one call can do** to the rules of a profile. -/
theorem ruleStep_act (s : Stores) (pid : String) (x : profileCalls.sig.Act) :
    (s.act x).rules pid = s.rules pid ∨
      (TookEffect x.2 ∧ RuleStep pid x.1 (s.rules pid) ((s.act x).rules pid)) := by
  obtain ⟨o, r⟩ := x
  unfold Stores.act
  split
  · next htook =>
    have hstep : ∀ {rules : List CustomRule}, RuleStep pid o (s.rules pid) rules →
        rules = s.rules pid ∨ (TookEffect r ∧ RuleStep pid o (s.rules pid) rules) := fun h =>
          .inr ⟨htook, h⟩
    cases o with
    -- an insertion, a deletion, an edit or a PATCH; nothing else changes a document
    | createProfile p =>
      change ((ProfileOp.createProfile p).effect s).rules pid = _ ∨
        (_ ∧ RuleStep pid _ _ (((ProfileOp.createProfile p).effect s).rules pid))
      rcases rules_creation s pid p with hsame | ⟨hold, hpid, hrules⟩
      · exact .inl hsame
      · rw [hold, hrules]
        exact .inr ⟨htook, .inserted hpid⟩
    | deleteProfileById pid' =>
      change ((ProfileOp.deleteProfileById pid').effect s).rules pid = _ ∨
        (_ ∧ RuleStep pid _ _ (((ProfileOp.deleteProfileById pid').effect s).rules pid))
      rw [rules_deletion]
      split
      · next hpid =>
        subst hpid
        exact .inr ⟨htook, .gone⟩
      · exact .inl rfl
    | edit pid' e =>
      have hedit : (s.onProfile pid' e.run).rules pid = s.rules pid ∨ _ := rules_onProfile fun p =>
        edit_profileId p e
      rcases hedit with h | ⟨rfl, p, hp, h⟩
      · exact .inl h
      · change (s.onProfile pid' e.run).rules pid' = _ ∨
          (_ ∧ RuleStep pid' _ _ ((s.onProfile pid' e.run).rules pid'))
        rw [h, rules_of_find hp]
        cases e with
        | createCustomRules rules => exact .inr ⟨htook, .created⟩
        | updateCustomRule rule => exact .inr ⟨htook, .replaced⟩
        | removeCustomRules ids => exact .inr ⟨htook, .removed⟩
        | updateCustomRulesOrder idToOrder => exact .inr ⟨htook, .reordered⟩
        | reassignCustomRuleGroup action src dst => exact .inr ⟨htook, .regrouped⟩
        | _ => exact .inl rfl
    | findOneAndUpdate pid' upd =>
      have hupdate : (s.onProfile pid' (updateFields · upd)).rules pid = s.rules pid ∨ _ :=
        rules_onProfile fun p => updateFields_profileId p upd
      rcases hupdate with h | ⟨rfl, p, hp, h⟩
      · exact .inl h
      · refine hstep ?_
        change RuleStep pid' _ _ ((s.onProfile pid' (updateFields · upd)).rules pid')
        rw [h, rules_of_find hp, updateFields_customRules]
        exact .appended
    | _ => exact .inl rfl
  · exact .inl rfl

/-- What the append of a PATCH adds: rules with values of their own. -/
theorem appendRules_spec (rules l : List CustomRule) :
    ∃ new, l.foldl appendCustomRuleIfAbsent rules = rules ++ new ∧
    new.Sublist l ∧ (new.map (·.value)).Nodup ∧ ∀ rule ∈ new, rule.value ∉ rules.map (·.value) := by
  induction l generalizing rules with
  | nil => exact ⟨[], (List.append_nil _).symm, .slnil, List.nodup_nil, List.forall_mem_nil _⟩
  | cons r l ih =>
    rw [List.foldl_cons]
    by_cases habsent : r.value ∈ rules.map (·.value)
    · rw [show appendCustomRuleIfAbsent rules r = rules from if_pos habsent]
      obtain ⟨new, heq, hsub, hnodup, hfresh⟩ := ih rules
      exact ⟨new, heq, hsub.cons r, hnodup, hfresh⟩
    · rw [show appendCustomRuleIfAbsent rules r = rules ++ [r] from if_neg habsent]
      obtain ⟨new, heq, hsub, hnodup, hfresh⟩ := ih (rules ++ [r])
      have hother : ∀ rule ∈ new, rule.value ∉ rules.map (·.value) ∧ rule.value ≠ r.value := by
        intro rule hrule
        have hnot := hfresh rule hrule
        rw [List.map_append, List.mem_append, not_or] at hnot
        exact ⟨hnot.1, fun h => hnot.2 (List.mem_singleton.2 h)⟩
      refine ⟨r :: new, ?_, hsub.cons_cons r, List.nodup_cons.2 ⟨fun hmem => ?_, hnodup⟩, ?_⟩
      · rw [heq, List.append_assoc]
        rfl
      · obtain ⟨rule, hrule, hvalue⟩ := List.mem_map.1 hmem
        exact (hother rule hrule).2 hvalue
      · exact List.forall_mem_cons.2 ⟨habsent, fun rule hrule => (hother rule hrule).1⟩

end Step

section Origins

variable {s : Stores} {pid : String} {x : profileCalls.sig.Act} {l : Acts}

theorem mem_created {rule : CustomRule} :
    rule ∈ created pid x ↔ TookEffect x.2 ∧ rule ∈ x.1.creates pid := by
  unfold created
  split
  · next h => exact (and_iff_right h).symm
  · next h => exact ⟨fun hmem => (List.not_mem_nil hmem).elim, fun hboth => absurd hboth.1 h⟩

theorem mem_written {rule : CustomRule} :
    rule ∈ written pid x ↔ TookEffect x.2 ∧ (rule ∈ x.1.creates pid ∨ rule ∈ x.1.replaces pid) := by
  unfold written
  rw [← List.mem_append]
  split
  · next h => exact (and_iff_right h).symm
  · next h => exact ⟨fun hmem => (List.not_mem_nil hmem).elim, fun hboth => absurd hboth.1 h⟩

theorem written_of_created {rule : CustomRule} (h : rule ∈ created pid x) :
    rule ∈ written pid x := by
  obtain ⟨htook, hmem⟩ := mem_created.1 h
  exact mem_written.2 ⟨htook, .inl hmem⟩

/-- **Where a stored rule comes from**: it was there with its id and value, or it has been written,
in the place of one with its id or with an id of its own. -/
theorem origin_act {rule : CustomRule} (h : rule ∈ (s.act x).rules pid) :
    (∃ old ∈ s.rules pid, old.row = rule.row) ∨ rule ∈ created pid x ∨
      (rule ∈ written pid x ∧ ∃ old ∈ s.rules pid, old.id = rule.id) := by
  rcases ruleStep_act s pid x with hsame | ⟨htook, hstep⟩
  · rw [hsame] at h
    exact .inl ⟨rule, h, rfl⟩
  obtain ⟨o, r⟩ := x
  change RuleStep pid o _ _ at hstep
  generalize hold : s.rules pid = old at hstep ⊢
  generalize hnew : (s.act ⟨o, r⟩).rules pid = new at hstep h
  have hcreates : rule ∈ o.creates pid → rule ∈ created pid ⟨o, r⟩ := fun hmem =>
    mem_created.2 ⟨htook, hmem⟩
  cases hstep with
  | gone => cases h
  | inserted hpid =>
    refine .inr (.inl (hcreates ?_))
    rwa [creates_profile hpid]
  | created =>
    rcases List.mem_append.1 h with h | h
    · exact .inl ⟨rule, h, rfl⟩
    · refine .inr (.inl (hcreates ?_))
      rwa [creates_rules]
  -- a replaced rule stands where the one with its id stood
  | @replaced _ rule' =>
    obtain ⟨r₀, hr₀, heq⟩ := List.mem_map.1 h
    by_cases hid : r₀.id = rule'.id
    · rw [if_pos hid] at heq
      subst heq
      refine .inr (.inr ⟨mem_written.2 ⟨htook, .inr ?_⟩, r₀, hr₀, hid⟩)
      rw [replaces_rule]
      exact List.mem_singleton_self _
    · rw [if_neg hid] at heq
      exact .inl ⟨r₀, hr₀, by rw [heq]⟩
  | removed => exact .inl ⟨rule, (List.mem_filter.1 h).1, rfl⟩
  | reordered =>
    obtain ⟨r₀, hr₀, rfl⟩ := List.mem_map.1 h
    exact .inl ⟨r₀, hr₀, rfl⟩
  | regrouped =>
    obtain ⟨r₀, hr₀, rfl⟩ := List.mem_map.1 h
    refine .inl ⟨r₀, hr₀, ?_⟩
    split <;> rfl
  -- of the offered rules some are appended
  | @appended _ upd =>
    obtain ⟨added, heq, hsub, -, -⟩ := appendRules_spec old upd.appendCustomRules
    rw [heq] at h
    rcases List.mem_append.1 h with h | h
    · exact .inl ⟨rule, h, rfl⟩
    · refine .inr (.inl (hcreates ?_))
      rw [creates_append]
      exact hsub.subset h

/-- Their ids have been there, or have come with new rules. -/
theorem id_after {rule : CustomRule} (h : rule ∈ (s.after l).rules pid) :
    (∃ old ∈ s.rules pid, old.id = rule.id) ∨ ∃ x ∈ l, ∃ new ∈ created pid x, new.id = rule.id := by
  induction l using List.reverseRecOn generalizing rule with
  | nil => exact .inl ⟨rule, h, rfl⟩
  | append_singleton l x ih =>
    rw [after_append] at h
    have hbefore : ∀ old ∈ (s.after l).rules pid, old.id = rule.id →
        (∃ old ∈ s.rules pid, old.id = rule.id) ∨ ∃ y ∈ l ++ [x], ∃ new ∈ created pid y,
          new.id = rule.id := by
      intro old hold heq
      rw [← heq]
      exact (ih hold).imp_right fun ⟨y, hy, hnew⟩ => ⟨y, List.mem_append_left _ hy, hnew⟩
    rcases origin_act h with ⟨old, hold, heq⟩ | hnew | ⟨-, old, hold, heq⟩
    · exact hbefore old hold (Prod.mk.inj heq).1
    · exact .inr ⟨x, List.mem_append_right _ (List.mem_singleton_self x), rule, hnew, rfl⟩
    · exact hbefore old hold heq

end Origins

section Nodup

variable {s : Stores} {pid : String} {x : profileCalls.sig.Act}

section Fields

variable {β : Type} {f : CustomRule → β} {old added : List CustomRule}

/-- A field stays without duplicates when that of what comes is different. -/
theorem nodup_field_append (h : (old.map f).Nodup) (hadded : (added.map f).Nodup)
    (hfresh : ∀ rule ∈ added, ∀ r ∈ old, f r ≠ f rule) : ((old ++ added).map f).Nodup := by
  rw [List.map_append]
  refine List.nodup_append.2 ⟨h, hadded, ?_⟩
  rintro v hv v' hv' rfl
  obtain ⟨r₁, hr₁, heq₁⟩ := List.mem_map.1 hv
  obtain ⟨r₂, hr₂, heq₂⟩ := List.mem_map.1 hv'
  exact hfresh r₂ hr₂ r₁ hr₁ (heq₁.trans heq₂.symm)

/-- And when what changes the rules leaves the field. -/
theorem nodup_field_map {g : CustomRule → CustomRule} (h : (old.map f).Nodup)
    (hsame : ∀ r ∈ old, f (g r) = f r) :
    ((old.map g).map f).Nodup := by
  have hfield : (old.map g).map f = old.map f := by
    rw [List.map_map]
    exact List.map_congr_left hsame
  rw [hfield]
  exact h

end Fields

/-- The ids stay different when the new ones are. -/
theorem ids_act (h : ((s.rules pid).map (·.id)).Nodup) (hnew : ((created pid x).map (·.id)).Nodup)
    (hfresh : ∀ new ∈ created pid x, ∀ old ∈ s.rules pid, old.id ≠ new.id) :
    (((s.act x).rules pid).map (·.id)).Nodup := by
  rcases ruleStep_act s pid x with hsame | ⟨htook, hstep⟩
  · rw [hsame]
    exact h
  obtain ⟨o, r⟩ := x
  have hcreated : created pid ⟨o, r⟩ = o.creates pid := if_pos htook
  rw [hcreated] at hnew hfresh
  change RuleStep pid o _ _ at hstep
  generalize s.rules pid = old at h hfresh hstep
  generalize (s.act ⟨o, r⟩).rules pid = new at hstep ⊢
  have happend : ∀ {added : List CustomRule}, added.Sublist (o.creates pid) →
      ((old ++ added).map (·.id)).Nodup := fun hsub =>
    nodup_field_append h (hnew.sublist (hsub.map _)) fun rule hrule =>
    hfresh rule (hsub.subset hrule)
  cases hstep with
  | gone => exact List.nodup_nil
  | inserted hpid =>
    rw [creates_profile hpid] at hnew
    exact hnew
  | created =>
    rw [creates_rules] at happend
    exact happend (List.Sublist.refl _)
  | replaced =>
    refine nodup_field_map h fun r₀ _ => ?_
    split
    · next hid => exact hid.symm
    · rfl
  | removed => exact h.sublist (List.filter_sublist.map _)
  | reordered =>
    rw [List.map_map]
    exact h
  | regrouped => exact nodup_field_map h fun r₀ _ => by split <;> rfl
  | @appended _ upd =>
    obtain ⟨added, heq, hsub, -, -⟩ := appendRules_spec old upd.appendCustomRules
    rw [heq]
    rw [creates_append] at happend
    exact happend hsub

/-- The values that a call writes are not those of other rules of the profile. -/
def FreshValues (pid : String) (rules : List CustomRule) : ProfileOp → Prop
  | .createProfile p => p.profileId = pid → (p.settings.customRules.map (·.value)).Nodup
  | .edit pid' (.createCustomRules new) => pid' = pid →
      (new.map (·.value)).Nodup ∧ ∀ r ∈ new, ∀ old ∈ rules, old.value ≠ r.value
  | .edit pid' (.updateCustomRule rule) =>
    pid' = pid → ∀ old ∈ rules, old.id ≠ rule.id → old.value ≠ rule.value
  | _ => True

/-- The values stay different when what is written is fresh. -/
theorem values_act (hids : ((s.rules pid).map (·.id)).Nodup)
    (h : ((s.rules pid).map (·.value)).Nodup)
    (hfresh : TookEffect x.2 → FreshValues pid (s.rules pid) x.1) :
    (((s.act x).rules pid).map (·.value)).Nodup := by
  rcases ruleStep_act s pid x with hsame | ⟨htook, hstep⟩
  · rw [hsame]
    exact h
  obtain ⟨o, r⟩ := x
  have hnew := hfresh htook
  change FreshValues pid _ o at hnew
  change RuleStep pid o _ _ at hstep
  generalize s.rules pid = old at hids h hnew hstep
  generalize (s.act ⟨o, r⟩).rules pid = new at hstep ⊢
  cases hstep with
  | gone => exact List.nodup_nil
  | inserted hpid => exact hnew hpid
  | created => exact nodup_field_append h (hnew rfl).1 (hnew rfl).2
  | @replaced _ rule =>
    -- a change of the row with the id of the rule
    have hrows : Distinct (old.map CustomRule.row) := by
      refine distinct_iff.2 ⟨?_, ?_⟩
      · rw [List.map_map]
        exact hids
      · rw [List.map_map]
        exact h
    have hreplaced : Distinct ((Change.rename rule.id rule.value).run
        (old.map CustomRule.row)) := by
      refine distinct_replace hrows fun row hrow hne => ?_
      obtain ⟨r₀, hr₀, rfl⟩ := List.mem_map.1 hrow
      exact hnew rfl r₀ hr₀ hne
    have hmap : (Change.rename rule.id rule.value).run (old.map CustomRule.row) =
        (old.map fun r => if r.id = rule.id then rule else r).map CustomRule.row := by
      show (old.map CustomRule.row).map _ = _
      rw [List.map_map, List.map_map]
      refine List.map_congr_left fun r₀ _ => ?_
      show (if r₀.id = rule.id then (rule.id, rule.value) else r₀.row) =
        (if r₀.id = rule.id then rule else r₀).row
      split <;> rfl
    rw [hmap] at hreplaced
    have hvalues := (distinct_iff.1 hreplaced).2
    rwa [List.map_map] at hvalues
  | removed => exact h.sublist (List.filter_sublist.map _)
  | reordered =>
    rw [List.map_map]
    exact h
  | regrouped => exact nodup_field_map h fun r₀ _ => by split <;> rfl
  | @appended _ upd =>
    obtain ⟨added, heq, -, hnodup, hadded⟩ := appendRules_spec old upd.appendCustomRules
    rw [heq]
    exact nodup_field_append h hnodup fun rule hrule r₀ hr₀ hvalue =>
      hadded rule hrule (List.mem_map.2 ⟨r₀, hr₀, hvalue⟩)

end Nodup

section Count

variable {s : Stores} {a pid : String} {x : profileCalls.sig.Act}

/-- The values of new rules that no stored rule has. -/
def missing (rules new : List CustomRule) : List String :=
  ((new.map (·.value)).filter (· ∉ rules.map (·.value))).dedup

/-- An append adds no more rules than there are values missing. -/
theorem appended_le (rules l : List CustomRule) :
    ∃ added, l.foldl appendCustomRuleIfAbsent rules = rules ++ added ∧
    added.length ≤ (missing rules l).length := by
  obtain ⟨added, heq, hsub, hnodup, hfresh⟩ := appendRules_spec rules l
  refine ⟨added, heq, ?_⟩
  have hle : (added.map (·.value)).length ≤ (missing rules l).length := by
    refine (hnodup.subperm fun v hv => ?_).length_le
    obtain ⟨rule, hrule, rfl⟩ := List.mem_map.1 hv
    unfold missing
    rw [List.mem_dedup, List.mem_filter]
    exact ⟨List.mem_map_of_mem (hsub.subset hrule), decide_eq_true (hfresh rule hrule)⟩
  rwa [List.length_map] at hle

/-- At most so many rules does a call add to an account. -/
def ProfileOp.gain (s : Stores) : ProfileOp → ℕ
  | .createProfile p => p.settings.customRules.length
  | .edit _ (.createCustomRules rules) => rules.length
  | .findOneAndUpdate pid upd => (missing (s.rules pid) upd.appendCustomRules).length
  | _ => 0

theorem countCustomRules_append (l l' : List Profile) :
    countCustomRules (l ++ l') = countCustomRules l + countCustomRules l' := by
  unfold countCustomRules
  rw [List.map_append, List.sum_append]

theorem countCustomRules_cons (p : Profile) (l : List Profile) :
    countCustomRules (p :: l) = p.settings.customRules.length + countCustomRules l := rfl

theorem countCustomRules_filter (l : List Profile) (P : Profile → Bool) :
    countCustomRules (l.filter P) ≤ countCustomRules l := by
  induction l with
  | nil => exact Nat.le_refl _
  | cons p l ih =>
    rw [List.filter_cons]
    split
    · rw [countCustomRules_cons, countCustomRules_cons]
      omega
    · rw [countCustomRules_cons]
      omega

/-- An update in place of one of the profiles. -/
theorem countCustomRules_update {l : List Profile} {f : Profile → Profile} {k : ℕ}
    (hids : (l.map (·.profileId)).Nodup)
    (hf : ∀ p ∈ l, p.profileId = pid → (f p).settings.customRules.length ≤
      p.settings.customRules.length + k) :
    countCustomRules (l.map fun p => if p.profileId = pid then f p else p) ≤
    countCustomRules l + k := by
  induction l with
  | nil => exact Nat.zero_le _
  | cons p l ih =>
    rw [List.map_cons, List.nodup_cons] at hids
    have hrest := ih hids.2 fun q hq => hf q (List.mem_cons_of_mem _ hq)
    rw [List.map_cons, countCustomRules_cons, countCustomRules_cons]
    by_cases hp : p.profileId = pid
    · have hsame : (l.map fun q => if q.profileId = pid then f q else q) = l := by
        refine (List.map_congr_left fun q hq => if_neg fun hqid => ?_).trans (List.map_id l)
        exact hids.1 (List.mem_map.2 ⟨q, hq, hqid.trans hp.symm⟩)
      have hone := hf p (List.mem_cons_self ..) hp
      rw [if_pos hp, hsame]
      omega
    · rw [if_neg hp]
      omega

theorem find_of_mem {p : Profile} (hids : (s.profiles.map (·.profileId)).Nodup)
    (hp : p ∈ s.profiles) :
    s.find p.profileId = some p := by
  unfold Stores.find
  generalize s.profiles = l at hids hp
  induction l with
  | nil => cases hp
  | cons q l ih =>
    rw [List.map_cons, List.nodup_cons] at hids
    rcases List.mem_cons.1 hp with rfl | hp
    · exact List.find?_cons_of_pos (decide_eq_true rfl)
    · have hne : q.profileId ≠ p.profileId := fun h => hids.1 (List.mem_map.2 ⟨p, hp, h.symm⟩)
      rw [List.find?_cons_of_neg (by simpa using hne)]
      exact ih hids.2 hp

/-- **What a call adds to an account.** -/
theorem ruleCount_act (hids : (s.profiles.map (·.profileId)).Nodup) (x : profileCalls.sig.Act) :
    (s.act x).ruleCount a ≤ s.ruleCount a + x.1.gain s := by
  obtain ⟨o, r⟩ := x
  unfold Stores.act
  split
  · next htook =>
    have howned : ((s.owned a).map (·.profileId)).Nodup := hids.sublist (List.filter_sublist.map _)
    -- an update of one profile adds what it adds to its rules
    have hupdate : ∀ {pid : String} {f : Profile → Profile} {k : ℕ},
      (∀ p, (f p).accountId = p.accountId) →
        (∀ p, s.find pid = some p → (f p).settings.customRules.length ≤
          p.settings.customRules.length + k) →
        (s.onProfile pid f).ruleCount a ≤ s.ruleCount a + k := by
      intro pid f k hacc hf
      unfold Stores.ruleCount
      rw [owned_onProfile hacc]
      refine countCustomRules_update howned fun p hp hpid => hf p ?_
      rw [← hpid]
      exact find_of_mem hids (List.mem_filter.1 hp).1
    cases o with
    | createProfile p =>
      show countCustomRules ((s.profiles ++ [p]).filter _) ≤ countCustomRules
        (s.profiles.filter _) + _
      rw [List.filter_append, countCustomRules_append]
      refine Nat.add_le_add_left ?_ _
      refine (countCustomRules_filter [p] _).trans ?_
      exact Nat.le_refl _
    | deleteProfileById pid =>
      show countCustomRules ((s.profiles.filter _).filter _) ≤ countCustomRules
        (s.profiles.filter _) + 0
      rw [List.filter_comm]
      exact countCustomRules_filter _ _
    | edit pid e =>
      refine hupdate (fun p => (edit_frame p e).2.1) fun p _ => ?_
      cases e with
      | createCustomRules rules => exact (List.length_append ..).le
      | updateCustomRule rule => exact (List.length_map _).le
      | removeCustomRules ids => exact List.length_filter_le _ _
      | updateCustomRulesOrder idToOrder => exact (List.length_map _).le
      | reassignCustomRuleGroup action src dst => exact (List.length_map _).le
      | _ => exact Nat.le_refl _
    | findOneAndUpdate pid upd =>
      refine hupdate (fun p => (sameElse_setFields p upd).accountId) fun p hp => ?_
      obtain ⟨added, heq, hle⟩ := appended_le p.settings.customRules upd.appendCustomRules
      rw [updateFields_customRules, heq, List.length_append]
      show _ ≤ _ + (missing (s.rules pid) upd.appendCustomRules).length
      rw [rules_of_find hp]
      exact Nat.add_le_add_left hle _
    | _ => exact Nat.le_add_right _ _
  · exact Nat.le_add_right _ _

end Count

end ModDNS.Profiles
