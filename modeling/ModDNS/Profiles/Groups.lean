import Mathlib.Data.List.Dedup
import ModDNS.Profiles.RuleJobs

/-!
# The groups of the custom rules

Each of the two lists of rules has groups of its own: a registry of names with comments, and a label
on each rule. A batch of operations relabels the rules in Mongo one operation at a time, and writes
the registry once, at its end.

* `reorder_perm`: a reorder permutes the registry of its list.
* `ends_applyCustomRuleGroupOps`: a batch that succeeds has done all of its operations, in turn, on
  the registry and on the rules.
* `groups_consistent`: the names of a list stay distinct, and what a batch has taken away no rule
  carries.
-/

namespace ModDNS.Profiles

open Conc Rules

section Registry

def actionBlock : String := "block"
def actionAllow : String := "allow"

namespace CustomRuleGroups

/-- The groups of an action; none, if the action has no list. -/
def list (g : CustomRuleGroups) (action : String) : List CustomRuleGroup :=
  if action = actionBlock then g.block else if action = actionAllow then g.allow else []

def assign (g : CustomRuleGroups) (action : String) (list : List CustomRuleGroup) :
    CustomRuleGroups :=
  if action = actionBlock then { g with block := list }
  else if action = actionAllow then { g with allow := list } else g

/-- Sets the comment of the first group with the name, if there is one. -/
def setComment (name comment : String) : List CustomRuleGroup → Option (List CustomRuleGroup)
  | [] => none
  | grp :: list =>
    if grp.name = name then some ({ grp with comment } :: list)
    else (setComment name comment list).map (grp :: ·)

def upsert (g : CustomRuleGroups) (action name comment : String) : CustomRuleGroups :=
  g.assign action ((setComment name comment (g.list action)).getD
    (g.list action ++ [⟨name, comment⟩]))

def remove (g : CustomRuleGroups) (action name : String) : CustomRuleGroups :=
  g.assign action ((g.list action).filter (·.name ≠ name))

/-- The last group with the name: what a map of the groups by their names holds for it. -/
def byName (list : List CustomRuleGroup) (name : String) : Option CustomRuleGroup :=
  (list.filter (·.name = name)).getLast?

def rename (g : CustomRuleGroups) (action src dst : String) : CustomRuleGroups :=
  if src = dst then g
  else
    let out := (g.list action).filter (·.name ≠ src)
    g.assign action
      (if dst ∈ (g.list action).map (·.name) then out
        else out ++ [⟨dst, ((byName (g.list action) src).map (·.comment)).getD ""⟩])

/-- One name of the order: its group is placed, unless it has been or there is none. -/
def place (list : List CustomRuleGroup) (st : List CustomRuleGroup × List String) (name : String) :
    List CustomRuleGroup × List String :=
  if name ∈ st.2 then st
  else
    match byName list name with
    | some grp => (st.1 ++ [grp], st.2 ++ [name])
    | none => st

/-- One group that may not have been placed. -/
def placeRest (st : List CustomRuleGroup × List String) (grp : CustomRuleGroup) :
    List CustomRuleGroup × List String :=
  if grp.name ∈ st.2 then st else (st.1 ++ [grp], st.2 ++ [grp.name])

def reorder (g : CustomRuleGroups) (action : String) (orderedNames : List String) :
    CustomRuleGroups :=
  if g.list action = [] then g
  else g.assign action ((g.list action).foldl placeRest
    (orderedNames.foldl (place (g.list action)) ([], []))).1

end CustomRuleGroups

open CustomRuleGroups

/-- The names of a list. -/
def groupNames (list : List CustomRuleGroup) : List String := list.map (·.name)

/-- **Distinct names**, in each list. -/
def CustomRuleGroups.Distinct (g : CustomRuleGroups) : Prop :=
  ∀ action, (groupNames (g.list action)).Nodup

variable {g : CustomRuleGroups} {action : String} {list : List CustomRuleGroup}

/-- The action has a list. -/
def HasGroups (action : String) : Prop := action = actionBlock ∨ action = actionAllow

instance (action : String) : Decidable (HasGroups action) := inferInstanceAs (Decidable (_ ∨ _))

theorem list_assign_self (h : HasGroups action) : (g.assign action list).list action = list := by
  rcases h with rfl | rfl <;> rfl

theorem list_assign_ne {other : String} (h : other ≠ action) :
    (g.assign action list).list other = g.list other := by
  unfold CustomRuleGroups.assign CustomRuleGroups.list
  by_cases hb : action = actionBlock
  · have hother : other ≠ actionBlock := fun ho => h (ho.trans hb.symm)
    rw [if_pos hb, if_neg hother, if_neg hother]
  · rw [if_neg hb]
    by_cases ha : action = actionAllow
    · rw [if_pos ha]
      have hother : other ≠ actionAllow := fun ho => h (ho.trans ha.symm)
      rw [if_neg hother, if_neg hother]
    · rw [if_neg ha]

/-- A list that is assigned keeps the names distinct, if its own are. -/
theorem distinct_assign (h : g.Distinct)
    (hlist : (groupNames (g.list action)).Nodup → (groupNames list).Nodup) :
    (g.assign action list).Distinct := by
  intro other
  by_cases ho : other = action
  · subst ho
    by_cases hg : HasGroups other
    · rw [list_assign_self hg]
      exact hlist (h other)
    · obtain ⟨hb, ha⟩ := not_or.1 hg
      rw [CustomRuleGroups.list, if_neg hb, if_neg ha]
      exact List.nodup_nil
  · rw [list_assign_ne ho]
    exact h other

theorem setComment_names {name comment : String} {list' : List CustomRuleGroup}
    (h : setComment name comment list = some list') : groupNames list' = groupNames list := by
  induction list generalizing list' with
  | nil => cases h
  | cons grp list ih =>
    rw [setComment] at h
    split at h
    · cases h
      rfl
    · obtain ⟨rest, hrest, rfl⟩ := Option.map_eq_some_iff.1 h
      exact congrArg (grp.name :: ·) (ih hrest)

theorem setComment_none {name comment : String} (h : setComment name comment list = none) :
    name ∉ groupNames list := by
  induction list with
  | nil => exact List.not_mem_nil
  | cons grp list ih =>
    rw [setComment] at h
    split at h
    · cases h
    · next hne =>
      have hrest := ih (Option.map_eq_none_iff.1 h)
      exact List.not_mem_cons_of_ne_of_not_mem (Ne.symm hne) hrest

theorem nodup_concat {name comment : String} (h : (groupNames list).Nodup)
    (hname : name ∉ groupNames list) :
    (groupNames (list ++ [⟨name, comment⟩])).Nodup := by
  unfold groupNames at h hname ⊢
  rw [List.map_append, List.map_singleton]
  exact List.Nodup.append h (List.nodup_singleton name) (List.disjoint_singleton.2 hname)

theorem distinct_upsert (h : g.Distinct) (name comment : String) :
    (g.upsert action name comment).Distinct := by
  refine distinct_assign h fun hnd => ?_
  cases hset : setComment name comment (g.list action) with
  | none => exact nodup_concat hnd (setComment_none hset)
  | some list' =>
    rw [Option.getD_some, setComment_names hset]
    exact hnd

theorem nodup_filter (h : (groupNames list).Nodup) (p : CustomRuleGroup → Bool) :
    (groupNames (list.filter p)).Nodup :=
  h.sublist (List.filter_sublist.map _)

theorem distinct_remove (h : g.Distinct) (name : String) : (g.remove action name).Distinct :=
  distinct_assign h fun hnd => nodup_filter hnd _

theorem renamed_distinct (h : g.Distinct) (src dst : String) :
    (g.rename action src dst).Distinct := by
  unfold CustomRuleGroups.rename
  split
  · exact h
  · refine distinct_assign h fun hnd => ?_
    split
    · exact nodup_filter hnd _
    · next hnew =>
      refine nodup_concat (nodup_filter hnd _) fun hmem => hnew ?_
      exact (List.filter_sublist.map _).subset hmem

section Reorder

/-- What has been placed: some of the groups, each name once. -/
structure Placed (list : List CustomRuleGroup) (st : List CustomRuleGroup × List String) :
    Prop where
  names : st.2 = groupNames st.1
  nodup : (groupNames st.1).Nodup
  sub : st.1 ⊆ list

theorem Placed.add {st : List CustomRuleGroup × List String} (h : Placed list st)
    {grp : CustomRuleGroup} (hgrp : grp ∈ list) (hnew : grp.name ∉ st.2) :
    Placed list (st.1 ++ [grp], st.2 ++ [grp.name]) := by
  refine ⟨?_, ?_, ?_⟩
  · rw [h.names, groupNames, groupNames, List.map_append]
    rfl
  · exact nodup_concat h.nodup (h.names ▸ hnew)
  · exact List.append_subset.2 ⟨h.sub, List.cons_subset.2 ⟨hgrp, List.nil_subset _⟩⟩

theorem placed_place {st : List CustomRuleGroup × List String} (h : Placed list st)
    (name : String) :
    Placed list (place list st name) := by
  unfold place
  split
  · exact h
  · next hnew =>
    split
    · next grp hgrp =>
      obtain ⟨hmem, hname⟩ := List.mem_filter.1 (List.mem_of_getLast? hgrp)
      obtain rfl : grp.name = name := of_decide_eq_true hname
      exact h.add hmem hnew
    · exact h

theorem placed_places {names : List String} :
    ∀ {st : List CustomRuleGroup × List String}, Placed list st →
    Placed list (names.foldl (place list) st) := by
  induction names with
  | nil => exact fun h => h
  | cons name names ih => exact fun h => ih (placed_place h name)

/-- The groups that are left are placed behind. -/
theorem placed_rest {rest : List CustomRuleGroup} (hrest : rest ⊆ list) :
    ∀ {st : List CustomRuleGroup × List String},
    Placed list st → Placed list (rest.foldl placeRest st) ∧
    (∀ n ∈ st.2, n ∈ (rest.foldl placeRest st).2) ∧
      ∀ grp ∈ rest, grp.name ∈ (rest.foldl placeRest st).2 := by
  induction rest with
  | nil => exact fun h => ⟨h, fun _ hn => hn, List.forall_mem_nil _⟩
  | cons grp rest ih =>
    intro st h
    obtain ⟨hgrp, hrest⟩ := List.cons_subset.1 hrest
    have hstep : Placed list (placeRest st grp) ∧ (∀ n ∈ st.2, n ∈ (placeRest st grp).2) ∧
        grp.name ∈ (placeRest st grp).2 := by
      unfold placeRest
      split
      · next hold => exact ⟨h, fun _ hn => hn, hold⟩
      · next hnew =>
        exact ⟨h.add hgrp hnew, fun n hn => List.mem_append_left _ hn,
          List.mem_append_right _ (List.mem_singleton_self _)⟩
    obtain ⟨hplaced, hkept, hall⟩ := ih hrest hstep.1
    refine ⟨hplaced, fun n hn => hkept n (hstep.2.1 n hn),
      List.forall_mem_cons.2 ⟨hkept _ hstep.2.2, hall⟩⟩

/-- **A reorder permutes the registry of its list.** -/
theorem reorder_perm (h : g.Distinct) (action : String) (orderedNames : List String) :
    ((g.reorder action orderedNames).list action).Perm (g.list action) := by
  unfold CustomRuleGroups.reorder
  split
  · exact .refl _
  · next hne =>
    have hgroups : HasGroups action := by
      by_contra hnot
      obtain ⟨hb, ha⟩ := not_or.1 hnot
      exact hne (by rw [CustomRuleGroups.list, if_neg hb, if_neg ha])
    have hstart : Placed (g.list action) ([], []) := ⟨rfl, List.nodup_nil, List.nil_subset _⟩
    have hplace : Placed (g.list action) (orderedNames.foldl (place (g.list action)) ([], [])) :=
      placed_places hstart
    obtain ⟨hplaced, -, hall⟩ := placed_rest (List.Subset.refl _) hplace
    rw [list_assign_self hgroups]
    refine (List.perm_ext_iff_of_nodup hplaced.nodup.of_map (h action).of_map).2 fun grp =>
      ⟨fun hgrp => hplaced.sub hgrp, fun hgrp => ?_⟩
    have hname := hall grp hgrp
    rw [hplaced.names] at hname
    obtain ⟨grp', hgrp', heq⟩ := List.mem_map.1 hname
    rwa [← List.inj_on_of_nodup_map (h action) (hplaced.sub hgrp') hgrp heq]

theorem reorder_other {other : String} (ho : other ≠ action) (orderedNames : List String) :
    (g.reorder action orderedNames).list other = g.list other := by
  unfold CustomRuleGroups.reorder
  split
  · rfl
  · exact list_assign_ne ho

theorem distinct_reorder (h : g.Distinct) (orderedNames : List String) :
    (g.reorder action orderedNames).Distinct := by
  intro other
  by_cases ho : other = action
  · subst ho
    exact ((reorder_perm h other orderedNames).map _).nodup_iff.2 (h other)
  · rw [reorder_other ho]
    exact h other

end Reorder

end Registry

section Flows

variable (accountId pid : String)

def maxGroupNameLen : ℕ := 64

/-- `CustomRuleGroupOp`. -/
structure CustomRuleGroupOp where
  operation : String
  action : String
  group : String
  fromGroup : String := ""
  note : Option String := none

/-- A name that a group can be given. -/
def GroupName (name : String) : Prop := name ≠ "" ∧ name.utf8ByteSize ≤ maxGroupNameLen

instance (name : String) : Decidable (GroupName name) := inferInstanceAs (Decidable (_ ∧ _))

def invalidSyntax : ServiceErr := .customRule .invalidCustomRuleSyntax

/-- One operation of the loop, on the registry in memory and the rules in Mongo. -/
def groupOp (op : CustomRuleGroupOp) (groups : CustomRuleGroups) : ProfileFlow CustomRuleGroups :=
  if op.operation = "add" ∨ op.operation = "replace" then do
    ensure (GroupName op.group) invalidSyntax
    return groups.upsert op.action op.group (op.note.getD "")
  else if op.operation = "remove" then do
    ensure (op.group ≠ "") invalidSyntax
    let _ ← call (.edit pid (.reassignCustomRuleGroup op.action op.group ""))
    return groups.remove op.action op.group
  else if op.operation = "move" then do
    ensure (op.fromGroup ≠ "" ∧ GroupName op.group) invalidSyntax
    if op.fromGroup = op.group then return groups
    else do
      let _ ← call (.edit pid (.reassignCustomRuleGroup op.action op.fromGroup op.group))
      return groups.rename op.action op.fromGroup op.group
  else throw invalidSyntax

/-- The loop of `ApplyCustomRuleGroupOps`. -/
def groupOps : List CustomRuleGroupOp → CustomRuleGroups → ProfileFlow CustomRuleGroups
  | [], groups => pure groups
  | op :: ops, groups => do
    ensure (HasGroups op.action) (ServiceErr.customRule .invalidCustomRuleAction)
    let groups ← groupOp pid op groups
    groupOps ops groups

def applyCustomRuleGroupOps (ops : List CustomRuleGroupOp) : ProfileFlow Unit := do
  let profile ← validateProfileIdAffiliation accountId pid
  let groups ← groupOps pid ops profile.settings.customRuleGroups
  let _ ← call (.edit pid (.setCustomRuleGroups groups))
  return ()

def reorderCustomRuleGroups (action : String) (orderedNames : List String) : ProfileFlow Unit := do
  let profile ← validateProfileIdAffiliation accountId pid
  ensure (HasGroups action) (ServiceErr.customRule .invalidCustomRuleAction)
  let _ ← call
    (.edit pid
      (.setCustomRuleGroups (profile.settings.customRuleGroups.reorder action orderedNames)))
  return ()

end Flows

section Batches

/-- The rules after a relabelling. -/
def relabel (action src dst : String) (rules : List CustomRule) : List CustomRule :=
  rules.map fun r => if r.group = src ∧ r.action.text = action then { r with group := dst } else r

namespace CustomRuleGroupOp

/-- The rules of the group `src` get the label `dst`. -/
def Moves (op : CustomRuleGroupOp) (src dst : String) : Prop :=
  (op.operation = "remove" ∧ op.group = src ∧ dst = "") ∨
    (op.operation = "move" ∧ op.fromGroup = src ∧ op.group = dst ∧ src ≠ dst)

/-- What an operation makes of the registry. -/
def onGroups (op : CustomRuleGroupOp) (groups : CustomRuleGroups) : CustomRuleGroups :=
  if op.operation = "add" ∨ op.operation = "replace" then
    groups.upsert op.action op.group (op.note.getD "")
  else if op.operation = "remove" then groups.remove op.action op.group
  else groups.rename op.action op.fromGroup op.group

/-- What an operation makes of the rules. -/
def onRules (op : CustomRuleGroupOp) (rules : List CustomRule) : List CustomRule :=
  if op.operation = "remove" then relabel op.action op.group "" rules
  else if op.operation = "move" ∧ op.fromGroup ≠ op.group then
    relabel op.action op.fromGroup op.group rules
  else rules

/-- The operation has been accepted. -/
structure Accepted (op : CustomRuleGroupOp) : Prop where
  action : HasGroups op.action
  moved : ∀ src dst, op.Moves src dst → src ≠ ""

variable {op : CustomRuleGroupOp} {rules : List CustomRule} {groups : CustomRuleGroups}

theorem onRules_moves {src dst : String} (h : op.Moves src dst) :
    op.onRules rules = relabel op.action src dst rules := by
  unfold onRules
  rcases h with ⟨hop, rfl, rfl⟩ | ⟨hop, rfl, rfl, hne⟩
  · rw [if_pos hop]
  · have hmove : op.operation ≠ "remove" := by
      rw [hop]
      decide
    rw [if_neg hmove, if_pos ⟨hop, hne⟩]

theorem onRules_still (h : ∀ src dst, ¬ op.Moves src dst) : op.onRules rules = rules := by
  unfold onRules
  rw [if_neg fun hop => h _ _ (.inl ⟨hop, rfl, rfl⟩),
    if_neg fun hop => h _ _ (.inr ⟨hop.1, rfl, rfl, hop.2⟩)]

theorem distinct_onGroups (h : groups.Distinct) : (op.onGroups groups).Distinct := by
  unfold onGroups
  split
  · exact distinct_upsert h _ _
  · split
    · exact distinct_remove h _
    · exact renamed_distinct h _ _

end CustomRuleGroupOp

open CustomRuleGroupOp

variable {accountId pid : String} {l : Acts} {op : CustomRuleGroupOp} {ops : List CustomRuleGroupOp}
  {groups groups' : CustomRuleGroups}

/-- The rules of a stored profile after a flow. -/
def Relabels (pid : String) (l : Acts) (f : List CustomRule → List CustomRule) : Prop :=
  ∀ (s : Stores) (p : Profile), s.find pid = some p →
    (s.after l).find pid = some { p with settings.customRules := f p.settings.customRules }

theorem relabels_edit (action src dst : String) (n : ℕ) :
    Relabels pid [⟨.edit pid (.reassignCustomRuleGroup action src dst), .ok n⟩]
      (relabel action src dst) := by
  intro s p h
  have hact : s.act ⟨.edit pid (.reassignCustomRuleGroup action src dst), .ok n⟩ =
      s.onProfile pid (ProfileEdit.run · (.reassignCustomRuleGroup action src dst)) := act_ok
  rw [after_cons, after_nil, hact, find_onProfile_self fun p => edit_profileId p _, h]
  rfl

theorem ends_groupOp (h : Ends (groupOp pid op groups).run l (.ok groups'))
    (haction : HasGroups op.action) :
    op.Accepted ∧ groups' = op.onGroups groups ∧ Relabels pid l op.onRules := by
  have hnothing : Relabels pid [] fun rules => rules := fun s p h => h
  unfold groupOp at h
  split at h
  -- an addition relabels no rule
  · next hadd =>
    obtain ⟨-, -, herr⟩ | ⟨-, hend⟩ := ends_ensure_bind h
    · cases herr
    obtain ⟨rfl, heq⟩ := ends_flow_pure hend
    cases heq
    have hstill : ∀ src dst, ¬ op.Moves src dst := by
      rintro src dst (⟨hop, -⟩ | ⟨hop, -⟩) <;> rw [hop] at hadd <;> revert hadd <;> decide
    refine ⟨⟨haction, fun src dst hm => absurd hm (hstill src dst)⟩, ?_, ?_⟩
    · rw [onGroups, if_pos hadd]
    · rw [show op.onRules = fun rules => rules from funext fun rules => onRules_still hstill]
      exact hnothing
  · next hadd =>
    split at h
    -- a removal moves the rules of the group to no group
    · next hremove =>
      obtain ⟨-, -, herr⟩ | ⟨hname, hedit⟩ := ends_ensure_bind h
      · cases herr
      obtain ⟨n, l', rfl, hend⟩ := ends_act_bind_ok hedit
      obtain ⟨rfl, heq⟩ := ends_flow_pure hend
      cases heq
      have hmoves : op.Moves op.group "" := .inl ⟨hremove, rfl, rfl⟩
      refine ⟨⟨haction, ?_⟩, ?_, ?_⟩
      · rintro src dst (⟨-, rfl, -⟩ | ⟨hop, -⟩)
        · exact hname
        · rw [hremove] at hop
          exact absurd hop (by decide)
      · rw [onGroups, if_neg hadd, if_pos hremove]
      · rw [show op.onRules = relabel op.action op.group "" from funext fun rules =>
          onRules_moves hmoves]
        exact relabels_edit _ _ _ n
    · next hremove =>
      split at h
      -- a move relabels them unless it goes where they are
      · next hmove =>
        obtain ⟨-, -, herr⟩ | ⟨hnames, hnext⟩ := ends_ensure_bind h
        · cases herr
        have haccepted : op.Accepted := by
          refine ⟨haction, ?_⟩
          rintro src dst (⟨hop, -⟩ | ⟨-, rfl, -⟩)
          · exact absurd hop hremove
          · exact hnames.1
        split at hnext
        · next hsame =>
          obtain ⟨rfl, heq⟩ := ends_flow_pure hnext
          cases heq
          refine ⟨haccepted, ?_, ?_⟩
          · rw [onGroups, if_neg hadd, if_neg hremove, CustomRuleGroups.rename, if_pos hsame]
          · have hstill : ∀ src dst, ¬ op.Moves src dst := by
              rintro src dst (⟨hop, -⟩ | ⟨-, rfl, rfl, hne⟩)
              · exact hremove hop
              · exact hne hsame
            rw [show op.onRules = fun rules => rules from funext fun rules => onRules_still hstill]
            exact hnothing
        · next hne =>
          obtain ⟨n, l', rfl, hend⟩ := ends_act_bind_ok hnext
          obtain ⟨rfl, heq⟩ := ends_flow_pure hend
          cases heq
          refine ⟨haccepted, ?_, ?_⟩
          · rw [onGroups, if_neg hadd, if_neg hremove]
          · have hmoves : op.Moves op.fromGroup op.group := .inr ⟨hmove, rfl, rfl, hne⟩
            rw [show op.onRules = relabel op.action op.fromGroup op.group from funext fun rules =>
              onRules_moves hmoves]
            exact relabels_edit _ _ _ n
      · cases (ends_throw h).2

theorem ends_groupOps (h : Ends (groupOps pid ops groups).run l (.ok groups')) :
    (∀ op ∈ ops, op.Accepted) ∧ groups' = ops.foldl (fun g op => op.onGroups g) groups ∧
      Relabels pid l fun rules => ops.foldl (fun rules op => op.onRules rules) rules := by
  induction ops generalizing groups l with
  | nil =>
    obtain ⟨rfl, heq⟩ := ends_flow_pure h
    cases heq
    exact ⟨List.forall_mem_nil _, rfl, fun s p h => h⟩
  | cons op ops ih =>
    unfold groupOps at h
    obtain ⟨-, -, herr⟩ | ⟨haction, hnext⟩ := ends_ensure_bind h
    · cases herr
    obtain ⟨l₁, l₂, groups₁, rfl, hop, hrest⟩ := ends_flow_bind_ok hnext
    obtain ⟨haccepted, rfl, hrules⟩ := ends_groupOp hop haction
    obtain ⟨hall, rfl, hrules'⟩ := ih hrest
    refine ⟨List.forall_mem_cons.2 ⟨haccepted, hall⟩, rfl, fun s p hp => ?_⟩
    rw [after_append]
    exact hrules' _ _ (hrules s p hp)

section Exec

variable {ι : Type} {i : ι} {s s' : Stores} {p : Profile}

theorem found_of_answer {stored : Profile} {c : Choice}
    (h : (ProfileOp.getProfileById pid).answer s c = some (.ok stored)) :
    s.find pid = some stored := find_of_answer h

theorem after_setGroups {n : ℕ} (h : s.find pid = some p) :
    (s.after [⟨.edit pid (.setCustomRuleGroups groups), .ok n⟩]).find pid =
      some { p with settings.customRuleGroups := groups } := by
  have hact : s.act ⟨.edit pid (.setCustomRuleGroups groups), .ok n⟩ =
      s.onProfile pid (ProfileEdit.run · (.setCustomRuleGroups groups)) := act_ok
  rw [after_cons, after_nil, hact, find_onProfile_self fun p => edit_profileId p _, h]
  rfl

/-- **A batch that succeeds** has done its operations in turn, on the registry and on the rules. -/
theorem exec_applyCustomRuleGroupOps
    (h : Exec profileHandler i (applyCustomRuleGroupOps accountId pid ops).run s l (.ok ()) s')
    (hp : s.find pid = some p) : (∀ op ∈ ops, op.Accepted) ∧
      s'.find pid = some { p with
        settings.customRules := ops.foldl (fun rules op => op.onRules rules) p.settings.customRules
        settings.customRuleGroups :=
          ops.foldl (fun g op => op.onGroups g) p.settings.customRuleGroups } := by
  obtain rfl := state_exec h
  obtain ⟨l₁, l₂, stored, rfl, hload, hrest⟩ := ends_flow_bind_ok (exec_path h)
  obtain ⟨rfl, -⟩ := ends_validate hload
  obtain ⟨c, hanswer⟩ := answer_exec (l := []) h
  have hstored : stored = p := Option.some.inj ((found_of_answer hanswer).symm.trans hp)
  subst hstored
  obtain ⟨l₃, l₄, groups, rfl, hops, hset⟩ := ends_flow_bind_ok hrest
  obtain ⟨haccepted, rfl, hrules⟩ := ends_groupOps hops
  obtain ⟨n, l₅, rfl, hend⟩ := ends_act_bind_ok hset
  obtain ⟨rfl, -⟩ := ends_flow_pure hend
  refine ⟨haccepted, ?_⟩
  have hread : s.act ⟨.getProfileById pid, .ok stored⟩ = s := act_ok
  rw [List.singleton_append, after_cons, hread, after_append]
  exact after_setGroups (hrules s stored hp)

theorem exec_reorderCustomRuleGroups {action : String} {orderedNames : List String}
    (h : Exec profileHandler i (reorderCustomRuleGroups accountId pid action orderedNames).run s l
      (.ok ()) s')
    (hp : s.find pid = some p) : s'.find pid =
      some
        { p with
          settings.customRuleGroups :=
            p.settings.customRuleGroups.reorder action orderedNames } := by
  obtain rfl := state_exec h
  obtain ⟨l₁, l₂, stored, rfl, hload, hrest⟩ := ends_flow_bind_ok (exec_path h)
  obtain ⟨rfl, -⟩ := ends_validate hload
  obtain ⟨c, hanswer⟩ := answer_exec (l := []) h
  have hstored : stored = p := Option.some.inj ((found_of_answer hanswer).symm.trans hp)
  subst hstored
  obtain ⟨-, -, herr⟩ | ⟨haction, hset⟩ := ends_ensure_bind hrest
  · cases herr
  obtain ⟨n, l₅, rfl, hend⟩ := ends_act_bind_ok hset
  obtain ⟨rfl, -⟩ := ends_flow_pure hend
  have hread : s.act ⟨.getProfileById pid, .ok stored⟩ = s := act_ok
  rw [List.singleton_append, after_cons, hread]
  exact after_setGroups hp

end Exec

end Batches

section Labels

/-- No rule of the list carries the label. -/
def Unlabelled (action name : String) (rules : List CustomRule) : Prop :=
  ∀ r ∈ rules, r.action.text = action → r.group ≠ name

/-- The rules of the list with the label `src` carry `dst` instead, and no other rule has
changed. -/
structure Moved (action src dst : String) (rules rules' : List CustomRule) : Prop where
  length : rules'.length = rules.length
  member : ∀ (n : ℕ) r, rules[n]? = some r → r.action.text = action → r.group = src →
    rules'[n]? = some { r with group := dst }
  other : ∀ (n : ℕ) r, rules[n]? = some r → ¬ (r.action.text = action ∧ r.group = src) →
    rules'[n]? = some r

/-- The rules of a list. -/
def rulesOn (action : String) (rules : List CustomRule) : List CustomRule :=
  rules.filter (·.action.text = action)

variable {action src dst name : String} {rules : List CustomRule} {op : CustomRuleGroupOp}
  {ops : List CustomRuleGroupOp}

theorem moved_relabel : Moved action src dst rules (relabel action src dst rules) := by
  refine ⟨List.length_map _, fun n r hr haction hgroup => ?_, fun n r hr hnot => ?_⟩
  · rw [relabel, List.getElem?_map, hr, Option.map_some, if_pos ⟨hgroup, haction⟩]
  · rw [relabel, List.getElem?_map, hr, Option.map_some, if_neg fun h => hnot ⟨h.2, h.1⟩]

theorem unlabelled_relabel (h : src ≠ dst) :
    Unlabelled action src (relabel action src dst rules) := by
  intro r hr haction
  obtain ⟨r', -, rfl⟩ := List.mem_map.1 hr
  by_cases hmember : r'.group = src ∧ r'.action.text = action
  · rw [if_pos hmember]
    exact h.symm
  · rw [if_neg hmember] at haction ⊢
    exact fun hgroup => hmember ⟨hgroup, haction⟩

theorem Unlabelled.relabel (h : Unlabelled action name rules) {action' : String}
    (hne : action' = action → dst ≠ name) :
    Unlabelled action name (relabel action' src dst rules) := by
  intro r hr haction
  obtain ⟨r', hr', rfl⟩ := List.mem_map.1 hr
  by_cases hmember : r'.group = src ∧ r'.action.text = action'
  · rw [if_pos hmember] at haction ⊢
    exact hne (hmember.2.symm.trans haction)
  · rw [if_neg hmember] at haction ⊢
    exact h r' hr' haction

/-- A label that is gone stays so, unless rules are moved to it. -/
theorem Unlabelled.onRules (h : Unlabelled action name rules)
    (hop : op.action = action → ∀ src, ¬ op.Moves src name) :
    Unlabelled action name (op.onRules rules) := by
  by_cases hm : ∃ src dst, op.Moves src dst
  · obtain ⟨src, dst, hm⟩ := hm
    rw [CustomRuleGroupOp.onRules_moves hm]
    refine h.relabel fun haction hdst => ?_
    exact hop haction src (hdst ▸ hm)
  · rw [CustomRuleGroupOp.onRules_still fun src dst hm' => hm ⟨src, dst, hm'⟩]
    exact h

theorem Unlabelled.foldl (h : Unlabelled action name rules)
    (hops : ∀ op ∈ ops, op.action = action → ∀ src, ¬ op.Moves src name) :
    Unlabelled action name (ops.foldl (fun rules op => op.onRules rules) rules) := by
  induction ops generalizing rules with
  | nil => exact h
  | cons op ops ih =>
    obtain ⟨hop, hops⟩ := List.forall_mem_cons.1 hops
    exact ih (h.onRules hop) hops

theorem rulesOn_relabel (action action' src dst : String) (rules : List CustomRule) :
    rulesOn action (relabel action' src dst rules) =
      if action' = action then relabel action' src dst (rulesOn action rules)
      else rulesOn action rules := by
  have htext : ∀ r : CustomRule,
      (if r.group = src ∧ r.action.text = action' then { r with group := dst } else r).action =
        r.action := by
    intro r
    split <;> rfl
  unfold rulesOn relabel
  rw [List.filter_map]
  have hfilter : ((fun r : CustomRule => decide (r.action.text = action)) ∘ fun r =>
      if r.group = src ∧ r.action.text = action' then { r with group := dst } else r) =
      fun r => decide (r.action.text = action) := by
    funext r
    rw [Function.comp_apply, htext]
  rw [hfilter]
  split
  · rfl
  · next hne =>
    refine (List.map_congr_left fun r hr => ?_).trans (List.map_id _)
    have haction : r.action.text = action := of_decide_eq_true (List.mem_filter.1 hr).2
    exact if_neg fun h => hne (h.2.symm.trans haction)

/-- What becomes of the rules of a list depends on the operations on it alone. -/
theorem rulesOn_onRules (action : String) (op : CustomRuleGroupOp) (rules : List CustomRule) :
    rulesOn action (op.onRules rules) =
      if op.action = action then op.onRules (rulesOn action rules) else rulesOn action rules := by
  by_cases hm : ∃ src dst, op.Moves src dst
  · obtain ⟨src, dst, hm⟩ := hm
    rw [CustomRuleGroupOp.onRules_moves hm, CustomRuleGroupOp.onRules_moves hm, rulesOn_relabel]
  · have hstill : ∀ rules, op.onRules rules = rules := fun _ =>
      CustomRuleGroupOp.onRules_still fun src dst hm' => hm ⟨src, dst, hm'⟩
    rw [hstill, hstill, ite_self]

theorem rulesOn_foldl (action : String) (ops : List CustomRuleGroupOp) (rules : List CustomRule) :
    rulesOn action (ops.foldl (fun rules op => op.onRules rules) rules) =
      (ops.filter (·.action = action)).foldl (fun rules op => op.onRules rules)
      (rulesOn action rules) := by
  induction ops generalizing rules with
  | nil => rfl
  | cons op ops ih =>
    rw [List.foldl_cons, ih, rulesOn_onRules, List.filter_cons]
    by_cases h : op.action = action
    · rw [if_pos h, if_pos (decide_eq_true h), List.foldl_cons]
    · rw [if_neg h, if_neg (by simpa using h)]

/-- What becomes of the registry of a list depends on the operations on it alone. -/
theorem list_onGroups {g g' : CustomRuleGroups} (action : String) (op : CustomRuleGroupOp)
    (h : g.list action = g'.list action) :
    (op.onGroups g).list action = if op.action = action then (op.onGroups g').list action
    else g'.list action := by
  have hassign : ∀ list, (g.assign action list).list action =
      (g'.assign action list).list action := by
    intro list
    by_cases hg : HasGroups action
    · rw [list_assign_self hg, list_assign_self hg]
    · obtain ⟨hb, ha⟩ := not_or.1 hg
      unfold CustomRuleGroups.list
      rw [if_neg hb, if_neg ha, if_neg hb, if_neg ha]
  split
  · next haction =>
    unfold CustomRuleGroupOp.onGroups CustomRuleGroups.upsert CustomRuleGroups.remove
      CustomRuleGroups.rename
    rw [haction, h]
    split
    · exact hassign _
    split
    · exact hassign _
    split
    · exact h
    · exact hassign _
  · next haction =>
    have hne : action ≠ op.action := Ne.symm haction
    unfold CustomRuleGroupOp.onGroups CustomRuleGroups.upsert CustomRuleGroups.remove
      CustomRuleGroups.rename
    rw [← h]
    split
    · exact list_assign_ne hne
    split
    · exact list_assign_ne hne
    split
    · rfl
    · exact list_assign_ne hne

theorem list_foldl {g g' : CustomRuleGroups} (action : String) (ops : List CustomRuleGroupOp)
    (h : g.list action = g'.list action) : (ops.foldl (fun g op => op.onGroups g) g).list action =
      ((ops.filter (·.action = action)).foldl (fun g op => op.onGroups g) g').list action := by
  induction ops generalizing g g' with
  | nil => exact h
  | cons op ops ih =>
    have hop := list_onGroups action op h
    rw [List.foldl_cons, List.filter_cons]
    by_cases haction : op.action = action
    · rw [if_pos haction] at hop
      rw [if_pos (decide_eq_true haction), List.foldl_cons]
      exact ih hop
    · rw [if_neg haction] at hop
      rw [if_neg (by simpa using haction)]
      exact ih hop

theorem distinct_foldl {g : CustomRuleGroups} (h : g.Distinct) (ops : List CustomRuleGroupOp) :
    (ops.foldl (fun g op => op.onGroups g) g).Distinct := by
  induction ops generalizing g with
  | nil => exact h
  | cons op ops ih => exact ih (CustomRuleGroupOp.distinct_onGroups h)

end Labels

section Sequences

/-- What a rule edit does to the profiles, if anything: it leaves their groups. -/
def KeepsGroups : ProfileOp → Prop
  | .edit _ (.setCustomRuleGroups _) => False
  | .createProfile _ | .deleteProfileById _ => False
  | _ => True

variable {V : Type} {a pid : String} {s s' : Stores} {p : Profile}

theorem groups_act {x : profileCalls.sig.Act} (hx : KeepsGroups x.1) (h : s.find pid = some p) :
    ∃ p', (s.act x).find pid = some p' ∧ p'.settings.customRuleGroups =
      p.settings.customRuleGroups := by
  by_cases htook : TookEffect x.2
  swap
  · have hact : s.act x = s := if_neg htook
    exact ⟨p, by rw [hact, h], rfl⟩
  obtain ⟨o, r⟩ := x
  rw [act_effect htook]
  have hon : ∀ (pid' : String) (f : Profile → Profile),
    (∀ p : Profile, (f p).profileId = p.profileId) →
      (∀ p : Profile, (f p).settings.customRuleGroups = p.settings.customRuleGroups) →
      ∃ p', (s.onProfile pid' f).find pid = some p' ∧
      p'.settings.customRuleGroups = p.settings.customRuleGroups := by
    intro pid' f hid hgroups
    by_cases heq : pid = pid'
    · subst heq
      exact ⟨f p, by rw [find_onProfile_self hid, h, Option.map_some], hgroups p⟩
    · exact ⟨p, by rw [find_onProfile_ne hid heq, h], rfl⟩
  cases o with
  | edit pid' e =>
    refine hon pid' _ (fun p => edit_profileId p e) fun p => ?_
    cases e with
    | setCustomRuleGroups groups => exact hx.elim
    | _ => rfl
  | findOneAndUpdate pid' upd =>
    exact hon pid' _ (fun p => updateFields_profileId p upd) fun p =>
      (sameElse_setFields p upd).customRuleGroups
  | createProfile q => exact hx.elim
  | deleteProfileById pid' => exact hx.elim
  | _ => exact ⟨p, h, rfl⟩

theorem groups_after {l : Acts} (hl : ∀ x ∈ l, KeepsGroups x.1) (h : s.find pid = some p) :
    ∃ p', (s.after l).find pid = some p' ∧ p'.settings.customRuleGroups =
      p.settings.customRuleGroups := by
  induction l generalizing s p with
  | nil => exact ⟨p, h, rfl⟩
  | cons x l ih =>
    obtain ⟨hx, hl⟩ := List.forall_mem_cons.1 hl
    obtain ⟨p₁, hp₁, hsame₁⟩ := groups_act hx h
    obtain ⟨p₂, hp₂, hsame₂⟩ := ih hl hp₁
    exact ⟨p₂, hp₂, hsame₂.trans hsame₁⟩

/-- A request on the rules of a profile, which imports none. -/
def RuleJob.Edits : RuleJob V → Prop
  | .importProfiles _ _ _ => False
  | _ => True

theorem ruleCall_keeps {env : ServiceEnv} {newID : ℕ → ℕ → RuleID} {J : RuleJob V} (hJ : J.Edits)
    {l : Acts} {o : ProfileOp} (h : RuleCall env newID a l o J) : KeepsGroups o := by
  have hcreate : ∀ pid, CreateRulesCall newID a pid l o → KeepsGroups o := by
    intro pid h
    cases o with
    | edit pid' e => cases e <;> trivial
    | createProfile q => exact h.elim
    | deleteProfileById pid' => exact h.elim
    | _ => trivial
  cases J with
  | importProfiles decode mode payload => exact hJ.elim
  | create pid action value => exact hcreate pid h
  | createBulk pid action values => exact hcreate pid h
  | update pid id fields =>
    cases o with
    | edit pid' e => cases e <;> trivial
    | createProfile q => exact h.elim
    | deleteProfileById pid' => exact h.elim
    | _ => trivial
  | delete pid' id =>
    cases o with
    | edit pid'' e =>
      obtain ⟨-, rfl⟩ := h
      trivial
    | createProfile q => exact h.elim
    | deleteProfileById pid' => exact h.elim
    | _ => trivial
  | reorder pid' ids =>
    cases o with
    | edit pid'' e =>
      obtain ⟨-, rfl⟩ := h
      trivial
    | createProfile q => exact h.elim
    | deleteProfileById pid' => exact h.elim
    | _ => trivial
  | patch pid updates =>
    cases o with
    | edit pid' e => exact h.elim
    | createProfile q => exact h.elim
    | deleteProfileById pid' => exact h.elim
    | _ => trivial

/-- One request after the other: batches and reorders of groups that succeed, and rule edits,
whatever they end with. -/
inductive GroupCalls (a pid : String) (s : Stores) : Stores → Prop where
  | nil : GroupCalls a pid s s
  | applyOps {s₁ s₂ : Stores} {l : Acts} (ops : List CustomRuleGroupOp) (h : GroupCalls a pid s s₁)
      (hops : Exec profileHandler () (applyCustomRuleGroupOps a pid ops).run s₁ l (.ok ()) s₂) :
      GroupCalls a pid s s₂
  | reorder {s₁ s₂ : Stores} {l : Acts} (action : String) (orderedNames : List String)
      (h : GroupCalls a pid s s₁)
      (hreorder : Exec profileHandler ()
        (reorderCustomRuleGroups a pid action orderedNames).run s₁ l (.ok ()) s₂) :
      GroupCalls a pid s s₂
  | edit {V : Type} {env : ServiceEnv} {casts : Casts V} {newID : ℕ → ℕ → RuleID}
      {s₁ s₂ : Stores} {l : Acts}
      {r : Except ServiceErr Unit} (J : RuleJob V) (hJ : J.Edits) (h : GroupCalls a pid s s₁)
      (hedit : Exec profileHandler () (J.flow env casts newID a).run s₁ l r s₂) :
      GroupCalls a pid s s₂

/-- **What a batch has done** to the registry and to the rules of a profile. -/
structure BatchDone (ops : List CustomRuleGroupOp) (p p' : Profile) : Prop where
  distinct : p'.settings.customRuleGroups.Distinct
  /-- A label that an operation has taken away is on no rule of the list, unless a later one has
  moved rules to it. -/
  gone : ∀ ops₁ op ops₂ name dst, ops = ops₁ ++ op :: ops₂ → op.Moves name dst →
    (∀ later ∈ ops₂, later.action = op.action → ∀ src, ¬ later.Moves src name) →
    Unlabelled op.action name p'.settings.customRules
  /-- The rules between two operations. -/
  steps : ∃ rules : ℕ → List CustomRule, rules 0 = p.settings.customRules ∧
    rules ops.length = p'.settings.customRules ∧
    ∀ (n : ℕ) op, ops[n]? = some op →
    (∀ src dst, op.Moves src dst → Moved op.action src dst (rules n) (rules (n + 1))) ∧
      ((∀ src dst, ¬ op.Moves src dst) → rules (n + 1) = rules n)
  /-- A list is as it would be after the operations on it alone. -/
  lists : ∀ action, p'.settings.customRuleGroups.list action =
    ((ops.filter (·.action = action)).foldl
      (fun g op => op.onGroups g) p.settings.customRuleGroups).list action ∧
    rulesOn action p'.settings.customRules =
      (ops.filter (·.action = action)).foldl (fun rules op => op.onRules rules)
      (rulesOn action p.settings.customRules)

/-- **What a reorder has done**: it has permuted the registry of its list. -/
structure Reordered (action : String) (p p' : Profile) : Prop where
  perm : (p'.settings.customRuleGroups.list action).Perm (p.settings.customRuleGroups.list action)
  lists : ∀ other, other ≠ action → p'.settings.customRuleGroups.list other =
    p.settings.customRuleGroups.list other
  rules : p'.settings.customRules = p.settings.customRules

theorem batch_done {ops : List CustomRuleGroupOp} {p' : Profile}
    (hd : p.settings.customRuleGroups.Distinct) (haccepted : ∀ op ∈ ops, op.Accepted)
    (hrules : p'.settings.customRules = ops.foldl
      (fun rules op => op.onRules rules) p.settings.customRules)
    (hgroups : p'.settings.customRuleGroups = ops.foldl
      (fun g op => op.onGroups g) p.settings.customRuleGroups) :
    BatchDone ops p p' := by
  refine ⟨?_, ?_, ?_, fun action => ⟨?_, ?_⟩⟩
  · rw [hgroups]
    exact distinct_foldl hd ops
  · rintro ops₁ op ops₂ name dst rfl hmoves hlater
    have hne : name ≠ dst := by
      have hname := (haccepted op (by simp)).moved name dst hmoves
      rcases hmoves with ⟨-, -, rfl⟩ | ⟨-, -, -, hne⟩
      · exact hname
      · exact hne
    rw [hrules, List.foldl_append, List.foldl_cons, CustomRuleGroupOp.onRules_moves hmoves]
    exact (unlabelled_relabel hne).foldl hlater
  · refine ⟨fun n => (ops.take n).foldl (fun rules op => op.onRules rules) p.settings.customRules,
      rfl, ?_, fun n op hn => ?_⟩
    · dsimp only
      rw [List.take_length, hrules]
    · have hstep : (ops.take (n + 1)).foldl
        (fun rules op => CustomRuleGroupOp.onRules op rules) p.settings.customRules =
          op.onRules
            ((ops.take n).foldl (fun rules op => op.onRules rules) p.settings.customRules) := by
        rw [List.take_add_one, hn, Option.toList_some, List.foldl_append]
        rfl
      dsimp only
      rw [hstep]
      refine ⟨fun src dst hmoves => ?_, fun hstill => CustomRuleGroupOp.onRules_still hstill⟩
      rw [CustomRuleGroupOp.onRules_moves hmoves]
      exact moved_relabel
  · rw [hgroups]
    exact list_foldl action ops rfl
  · rw [hrules]
    exact rulesOn_foldl action ops _

/-- The names stay distinct through any sequence of requests. -/
theorem calls_distinct (h : GroupCalls a pid s s') (hp : s.find pid = some p)
    (hd : p.settings.customRuleGroups.Distinct) :
    ∃ p', s'.find pid = some p' ∧ p'.settings.customRuleGroups.Distinct := by
  induction h with
  | nil => exact ⟨p, hp, hd⟩
  | applyOps ops _ hops ih =>
    obtain ⟨p₁, hp₁, hd₁⟩ := ih
    exact ⟨_, (exec_applyCustomRuleGroupOps hops hp₁).2, distinct_foldl hd₁ ops⟩
  | reorder action orderedNames _ hreorder ih =>
    obtain ⟨p₁, hp₁, hd₁⟩ := ih
    exact ⟨_, exec_reorderCustomRuleGroups hreorder hp₁, distinct_reorder hd₁ orderedNames⟩
  | @edit V env casts newID s₁ s₂ l r J hJ _ hedit ih =>
    obtain ⟨p₁, hp₁, hd₁⟩ := ih
    have hkeeps : ∀ x ∈ l, KeepsGroups x.1 := by
      intro x hx
      obtain ⟨l₁, l₂, rfl⟩ := List.append_of_mem hx
      exact ruleCall_keeps hJ (meets_mid (follows_run (follows_ruleJob J)) (exec_path hedit))
    obtain ⟨p₂, hp₂, hsame⟩ := groups_after hkeeps hp₁
    rw [← state_exec hedit] at hp₂
    exact ⟨p₂, hp₂, hsame ▸ hd₁⟩

/-- **The registry and the labels stay consistent**, through any sequence of batches and reorders
that succeed and of rule edits. -/
theorem groups_consistent (h : GroupCalls a pid s s') (hp : s.find pid = some p)
    (hd : p.settings.customRuleGroups.Distinct) :
    ∃ p', s'.find pid = some p' ∧ p'.settings.customRuleGroups.Distinct ∧
      (∀ ops l s'', Exec profileHandler () (applyCustomRuleGroupOps a pid ops).run s' l
        (.ok ()) s'' →
        ∃ p'', s''.find pid = some p'' ∧ BatchDone ops p' p'') ∧
      ∀ action orderedNames l s'',
        Exec profileHandler () (reorderCustomRuleGroups a pid action orderedNames).run s' l
          (.ok ()) s'' →
        ∃ p'', s''.find pid = some p'' ∧ Reordered action p' p'' := by
  obtain ⟨p', hp', hd'⟩ := calls_distinct h hp hd
  refine ⟨p', hp', hd', fun ops l s'' hops => ?_, fun action orderedNames l s'' hreorder => ?_⟩
  · obtain ⟨haccepted, hafter⟩ := exec_applyCustomRuleGroupOps hops hp'
    exact ⟨_, hafter, batch_done hd' haccepted rfl rfl⟩
  · refine ⟨_, exec_reorderCustomRuleGroups hreorder hp', ?_, fun other ho => ?_, rfl⟩
    · exact reorder_perm hd' action orderedNames
    · exact reorder_other ho orderedNames

/-- A profile with two groups of blocked names and one of allowed names, each with a rule. -/
def labelledProfile : Profile :=
  { oneProfile with
    settings := { oneProfile.settings with
      customRuleGroups := ⟨[⟨"Ads", ""⟩, ⟨"Social", ""⟩], [⟨"Ads", ""⟩]⟩
      customRules :=
        [⟨7, .block, "ads.example", .fqdn, "", "Ads", 0⟩,
          ⟨8, .block, "chat.example", .fqdn, "", "Social", 1⟩,
        ⟨9, .allow, "shop.example", .fqdn, "", "Ads", 2⟩] } }

def labelledStores : Stores := { oneStores with profiles := [labelledProfile] }

theorem distinct_labelled : labelledProfile.settings.customRuleGroups.Distinct := by
  intro action
  unfold CustomRuleGroups.list
  split
  · decide
  · split <;> decide

/-- A group is renamed, one is made, and one is removed. -/
def renameOps : List CustomRuleGroupOp :=
  [⟨"move", "block", "Trackers", "Ads", none⟩, ⟨"add", "block", "Games", "", none⟩]

def removeOps : List CustomRuleGroupOp := [⟨"remove", "block", "Social", "", none⟩]

/-- A flow on the profile in which no call fails. -/
def goesThrough (p : ProfileFlow Unit) (calls : ℕ) (s : Stores) :=
  p.run.exec profileHandler () (List.replicate calls .ok) s

theorem exec_goesThrough {p : ProfileFlow Unit} {calls : ℕ} {s : Stores}
    (h : (goesThrough p calls s).isSome) (hok : ((goesThrough p calls s).get h).2.1 = .ok ()) :
    Exec profileHandler () p.run s ((goesThrough p calls s).get h).1 (.ok ())
      ((goesThrough p calls s).get h).2.2 := by
  rw [← hok]
  exact exec_of_choices (Option.some_get h).symm

theorem rename_goes :
    (goesThrough (applyCustomRuleGroupOps "a" "p" renameOps) 3 labelledStores).isSome := by decide

def renamedStores : Stores :=
  ((goesThrough (applyCustomRuleGroupOps "a" "p" renameOps) 3 labelledStores).get rename_goes).2.2

theorem reorder_goes :
    (goesThrough (reorderCustomRuleGroups "a" "p" "block" ["Games", "Social"]) 2
      renamedStores).isSome := by decide

def reorderedStores : Stores :=
  ((goesThrough (reorderCustomRuleGroups "a" "p" "block" ["Games", "Social"]) 2 renamedStores).get
    reorder_goes).2.2

theorem remove_goes :
    (goesThrough (applyCustomRuleGroupOps "a" "p" removeOps) 3 reorderedStores).isSome := by decide

/-- The rules follow the groups, in their own list alone. -/
theorem groups_consistent_renamed :
    ∃ l s'' p' p'', GroupCalls "a" "p" labelledStores reorderedStores ∧
    Exec profileHandler () (applyCustomRuleGroupOps "a" "p" removeOps).run reorderedStores l
    (.ok ()) s'' ∧
    s''.find "p" = some p'' ∧ BatchDone removeOps p' p'' ∧
    Unlabelled "block" "Social" p''.settings.customRules ∧
    p''.settings.customRuleGroups = ⟨[⟨"Games", ""⟩, ⟨"Trackers", ""⟩], [⟨"Ads", ""⟩]⟩ ∧
    p''.settings.customRules.map (·.group) = ["Trackers", "", "Ads"] := by
  have hcalls : GroupCalls "a" "p" labelledStores reorderedStores :=
    .reorder "block" ["Games", "Social"]
      (.applyOps renameOps .nil (exec_goesThrough rename_goes rfl))
      (exec_goesThrough reorder_goes rfl)
  have hremove := exec_goesThrough remove_goes rfl
  obtain ⟨p', -, -, hbatches, -⟩ :=
    groups_consistent hcalls (p := labelledProfile) rfl distinct_labelled
  obtain ⟨p'', hp'', hdone⟩ := hbatches removeOps _ _ hremove
  have hgone : Unlabelled "block" "Social" p''.settings.customRules :=
    hdone.gone [] _ [] "Social" "" rfl (.inl ⟨rfl, rfl, rfl⟩) (List.forall_mem_nil _)
  have hlabels :
    (((goesThrough (applyCustomRuleGroupOps "a" "p" removeOps) 3 reorderedStores).get
      remove_goes).2.2.find
      "p").map (fun p => (p.settings.customRuleGroups, p.settings.customRules.map (·.group))) =
        some (⟨[⟨"Games", ""⟩, ⟨"Trackers", ""⟩], [⟨"Ads", ""⟩]⟩, ["Trackers", "", "Ads"]) := by
          decide
  rw [hp''] at hlabels
  obtain ⟨hgroups, hrules⟩ := Prod.mk.inj (Option.some.inj hlabels)
  exact ⟨_, _, p', p'', hcalls, hremove, hp'', hdone, hgone, hgroups, hrules⟩

end Sequences

end ModDNS.Profiles
