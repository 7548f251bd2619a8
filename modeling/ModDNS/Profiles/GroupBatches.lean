import ModDNS.Conc.Triple
import ModDNS.Profiles.Groups

/-!
# Batches of group operations that fail

The rules are relabelled in Mongo while the operations are gone through, the registry is written
after the last one, and an operation is checked when its turn comes.

* `groupOps_keeps`: where no operation finds a rule to relabel, the loop leaves the profile as it
  is.
* `relabels_early`: where one does, the batch can fail after it.
* `failed_batch_iff`: a failed batch changes nothing exactly if no operation up to the first one
  refused finds a rule.
-/

namespace ModDNS.Profiles

open Conc

section Statement

namespace CustomRuleGroupOp

/-- The checks of the loop pass. -/
def Valid (op : CustomRuleGroupOp) : Prop :=
  HasGroups op.action ∧ ((op.operation = "add" ∨ op.operation = "replace") ∧ GroupName op.group ∨
    op.operation = "remove" ∧ op.group ≠ "" ∨ op.operation = "move" ∧ op.fromGroup ≠ "" ∧
      GroupName op.group)

instance (op : CustomRuleGroupOp) : Decidable op.Valid := inferInstanceAs (Decidable (_ ∧ _))

/-- The operation finds no rule whose label it would replace. -/
def Idle (op : CustomRuleGroupOp) (rules : List CustomRule) : Prop :=
  ∀ src dst, op.Moves src dst → Unlabelled op.action src rules

end CustomRuleGroupOp

/-- No operation up to the first one refused finds a rule. -/
def AllIdle (ops : List CustomRuleGroupOp) (rules : List CustomRule) : Prop :=
  ∀ op ∈ ops.takeWhile (·.Valid), op.Idle rules

/-- The batch is valid, and makes of the registry what it is already. -/
def SameRegistry (ops : List CustomRuleGroupOp) (groups : CustomRuleGroups) : Prop :=
  (∀ op ∈ ops, op.Valid) → ops.foldl (fun g op => op.onGroups g) groups = groups

/-- The profile is stored with the groups that it had, and each rule with its label. -/
def GroupsAsBefore (p : Profile) (stored : Option Profile) : Prop :=
  ∃ p', stored = some p' ∧ p'.settings.customRuleGroups = p.settings.customRuleGroups ∧
    p'.settings.customRules.map (·.group) = p.settings.customRules.map (·.group)

/-- No call that failed has taken effect all the same. -/
def Effectless (l : Acts) : Prop := ∀ x ∈ l, x.2 ≠ .error (.store true)

end Statement

section Operations

variable {op : CustomRuleGroupOp} {ops : List CustomRuleGroupOp} {groups groups' : CustomRuleGroups}
  {rules : List CustomRule} {action src dst pid : String} {l l' : Acts}

/-- One round of the loop. -/
def groupRound (pid : String) (op : CustomRuleGroupOp) (groups : CustomRuleGroups) :
    ProfileFlow CustomRuleGroups := do
  ensure (HasGroups op.action) (ServiceErr.customRule .invalidCustomRuleAction)
  groupOp pid op groups

theorem groupOps_cons (pid : String) (op : CustomRuleGroupOp) (ops : List CustomRuleGroupOp)
    (groups : CustomRuleGroups) :
    groupOps pid (op :: ops) groups = groupRound pid op groups >>= groupOps pid ops := by
  unfold groupOps groupRound
  rw [bind_assoc]

theorem ensure_ok {C : Calls} {α : Type} {c : Prop} [Decidable c] {e : C.Err}
    {f : Unit → Flow C α} (h : c) :
    (ensure c e >>= f) = f () := by
  unfold ensure
  rw [if_pos h, pure_bind]

theorem ensure_refused {C : Calls} {α : Type} {c : Prop} [Decidable c] {e : C.Err}
    {f : Unit → Flow C α} (h : ¬ c) :
    (ensure c e >>= f) = throw e := by
  unfold ensure
  rw [if_neg h]
  rfl

/-- The flow is refused, does without the store, or relabels rules first. -/
def RoundOf (pid : String) (op : CustomRuleGroupOp) (groups : CustomRuleGroups)
    (flow : ProfileFlow CustomRuleGroups) : Prop :=
  (¬ op.Valid ∧ ∃ e, flow = throw e) ∨
    (op.Valid ∧ (∀ src dst, ¬ op.Moves src dst) ∧ flow = pure (op.onGroups groups)) ∨
    (op.Valid ∧ ∃ src dst, op.Moves src dst ∧ flow = do
      let _ ← call (.edit pid (.reassignCustomRuleGroup op.action src dst))
      return op.onGroups groups)

section Rounds

variable {pid : String} {op : CustomRuleGroupOp} {groups : CustomRuleGroups}

theorem roundOf_add (haction : HasGroups op.action)
    (hadd : op.operation = "add" ∨ op.operation = "replace") :
    RoundOf pid op groups (groupOp pid op groups) := by
  have hremove : op.operation ≠ "remove" := by rcases hadd with h | h <;> rw [h] <;> decide
  have hmove : op.operation ≠ "move" := by rcases hadd with h | h <;> rw [h] <;> decide
  unfold groupOp
  rw [if_pos hadd]
  by_cases hname : GroupName op.group
  · refine .inr (.inl ⟨⟨haction, .inl ⟨hadd, hname⟩⟩, ?_, ?_⟩)
    · rintro src dst (⟨h, -⟩ | ⟨h, -⟩)
      · exact hremove h
      · exact hmove h
    · rw [ensure_ok hname, CustomRuleGroupOp.onGroups, if_pos hadd]
  · refine .inl ⟨?_, _, ensure_refused hname⟩
    rintro ⟨-, ⟨-, h⟩ | ⟨h, -⟩ | ⟨h, -⟩⟩
    · exact hname h
    · exact hremove h
    · exact hmove h

theorem roundOf_remove (haction : HasGroups op.action) (hremove : op.operation = "remove") :
    RoundOf pid op groups (groupOp pid op groups) := by
  have hadd : ¬ (op.operation = "add" ∨ op.operation = "replace") := by
    rw [hremove]
    decide
  have hmove : op.operation ≠ "move" := by
    rw [hremove]
    decide
  unfold groupOp
  rw [if_neg hadd, if_pos hremove]
  by_cases hname : op.group = ""
  · refine .inl ⟨?_, _, ensure_refused (not_not.2 hname)⟩
    rintro ⟨-, ⟨h, -⟩ | ⟨-, h⟩ | ⟨h, -⟩⟩
    · exact hadd h
    · exact h hname
    · exact hmove h
  · refine .inr
      (.inr ⟨⟨haction, .inr (.inl ⟨hremove, hname⟩)⟩, op.group, "", .inl ⟨hremove, rfl, rfl⟩, ?_⟩)
    rw [ensure_ok hname, CustomRuleGroupOp.onGroups, if_neg hadd, if_pos hremove]

theorem roundOf_move (haction : HasGroups op.action) (hmove : op.operation = "move") :
    RoundOf pid op groups (groupOp pid op groups) := by
  have hadd : ¬ (op.operation = "add" ∨ op.operation = "replace") := by
    rw [hmove]
    decide
  have hremove : op.operation ≠ "remove" := by
    rw [hmove]
    decide
  unfold groupOp
  rw [if_neg hadd, if_neg hremove, if_pos hmove]
  by_cases hnames : op.fromGroup ≠ "" ∧ GroupName op.group
  · have hvalid : op.Valid := ⟨haction, .inr (.inr ⟨hmove, hnames⟩)⟩
    rw [ensure_ok hnames]
    by_cases hsame : op.fromGroup = op.group
    · -- a group that is moved to its own name
      refine .inr (.inl ⟨hvalid, ?_, ?_⟩)
      · rintro src dst (⟨h, -⟩ | ⟨-, rfl, rfl, hne⟩)
        · exact hremove h
        · exact hne hsame
      · rw [if_pos hsame, CustomRuleGroupOp.onGroups, if_neg hadd, if_neg hremove,
          CustomRuleGroups.rename, if_pos hsame]
    · refine .inr (.inr ⟨hvalid, op.fromGroup, op.group, .inr ⟨hmove, rfl, rfl, hsame⟩, ?_⟩)
      rw [if_neg hsame, CustomRuleGroupOp.onGroups, if_neg hadd, if_neg hremove]
  · refine .inl ⟨?_, _, ensure_refused hnames⟩
    rintro ⟨-, ⟨h, -⟩ | ⟨h, -⟩ | ⟨-, h⟩⟩
    · exact hadd h
    · exact hremove h
    · exact hnames h

end Rounds

/-- **A round** is refused, does without the store, or relabels rules first. -/
theorem groupRound_cases (pid : String) (op : CustomRuleGroupOp) (groups : CustomRuleGroups) :
    RoundOf pid op groups (groupRound pid op groups) := by
  unfold groupRound
  by_cases haction : HasGroups op.action
  swap
  · exact .inl ⟨fun h => haction h.1, _, ensure_refused haction⟩
  rw [ensure_ok haction]
  by_cases hadd : op.operation = "add" ∨ op.operation = "replace"
  · exact roundOf_add haction hadd
  by_cases hremove : op.operation = "remove"
  · exact roundOf_remove haction hremove
  by_cases hmove : op.operation = "move"
  · exact roundOf_move haction hmove
  -- the API knows no other operation
  unfold groupOp
  rw [if_neg hadd, if_neg hremove, if_neg hmove]
  refine .inl ⟨?_, _, rfl⟩
  rintro ⟨-, ⟨h, -⟩ | ⟨h, -⟩ | ⟨h, -⟩⟩
  · exact hadd h
  · exact hremove h
  · exact hmove h

/-- A valid operation never gives the label that it takes. -/
theorem moves_ne (hvalid : op.Valid) (h : op.Moves src dst) : src ≠ dst := by
  rcases h with ⟨hop, rfl, rfl⟩ | ⟨-, -, -, hne⟩
  · obtain ⟨-, ⟨hadd, -⟩ | ⟨-, hname⟩ | ⟨hmove, -⟩⟩ := hvalid
    · rw [hop] at hadd
      exact absurd hadd (by decide)
    · exact hname
    · rw [hop] at hmove
      exact absurd hmove (by decide)
  · exact hne

theorem relabel_idle (h : Unlabelled action src rules) : relabel action src dst rules = rules := by
  refine (List.map_congr_left fun r hr => ?_).trans (List.map_id rules)
  exact if_neg fun hr' => h r hr hr'.2 hr'.1

/-- A relabelling that finds a rule shows in the labels. -/
theorem relabel_shows (hne : src ≠ dst) (h : ¬ Unlabelled action src rules) :
    (relabel action src dst rules).map (·.group) ≠ rules.map (·.group) := by
  intro heq
  refine h fun r hr haction hgroup => hne ?_
  have hgroups : (relabel action src dst rules).map (·.group) =
      rules.map fun r =>
        (if r.group = src ∧ r.action.text = action then { r with group := dst } else r).group :=
          List.map_map
  rw [hgroups] at heq
  have hr' := List.map_inj_left.1 heq r hr
  rw [if_pos ⟨hgroup, haction⟩, hgroup] at hr'
  exact hr'.symm

theorem Effectless.append (h : Effectless l) (h' : Effectless l') : Effectless (l ++ l') :=
  List.forall_mem_append.2 ⟨h, h'⟩

theorem effectless_ok {o : ProfileOp} {a : o.Ans} : Effectless [⟨o, .ok a⟩] := by
  intro x hx
  rw [List.mem_singleton.1 hx]
  exact fun h => by cases h

theorem effectless_fails {o : ProfileOp} : Effectless [⟨o, .error (.store false)⟩] := by
  intro x hx
  rw [List.mem_singleton.1 hx]
  exact fun h => by cases h

end Operations

section Loop

variable {ι : Type} {i : ι} {ops : List CustomRuleGroupOp} {groups groups' : CustomRuleGroups}
  {s : Stores} {p : Profile} {pid action src dst : String} {l : Acts}

theorem allIdle_cons {op : CustomRuleGroupOp} (hvalid : op.Valid) {rules : List CustomRule} :
    AllIdle (op :: ops) rules ↔ op.Idle rules ∧ AllIdle ops rules := by
  have htake : (op :: ops).takeWhile (·.Valid) = op :: ops.takeWhile (·.Valid) :=
    List.takeWhile_cons_of_pos (decide_eq_true hvalid)
  unfold AllIdle
  rw [htake, List.forall_mem_cons]

/-- An answer to a relabelling that finds no rule. -/
theorem relabelling_idle {r : Except ServiceErr ℕ} (hp : s.find pid = some p)
    (hidle : Unlabelled action src p.settings.customRules) :
    (s.act ⟨.edit pid (.reassignCustomRuleGroup action src dst), r⟩).find pid = some p := by
  by_cases htook : TookEffect r
  · have hact :=
      act_effect (s := s) (x := ⟨.edit pid (.reassignCustomRuleGroup action src dst), r⟩) htook
    rw [hact]
    refine (find_onProfile_self fun p => edit_profileId p _).trans ?_
    rw [hp, Option.map_some]
    exact congrArg some (congrArg (fun rules => { p with settings.customRules := rules })
      (relabel_idle hidle))
  · have hact : s.act ⟨.edit pid (.reassignCustomRuleGroup action src dst), r⟩ = s := if_neg htook
    rw [hact, hp]

/-- **The loop leaves the profile as it is**, whatever it ends with, where no operation finds a
rule. -/
theorem groupOps_keeps (hidle : AllIdle ops p.settings.customRules) :
    Keeps profileHandler i (fun s => s.find pid = some p) (groupOps pid ops groups) := by
  induction ops generalizing groups with
  | nil => exact keeps_pure
  | cons op ops ih =>
    rw [groupOps_cons]
    obtain ⟨-, e, hround⟩ | ⟨hvalid, -, hround⟩ | ⟨hvalid, src, dst, hmoves, hround⟩ :=
      groupRound_cases pid op groups
    · rw [hround]
      exact keeps_throw (e := e)
    · rw [hround]
      exact keeps_bind keeps_pure fun _ => ih ((allIdle_cons hvalid).1 hidle).2
    · obtain ⟨hop, hops⟩ := (allIdle_cons hvalid).1 hidle
      rw [hround]
      refine keeps_bind (keeps_bind (triple_act fun s c r s' hp hc => ?_) fun _ => keeps_pure)
        fun _ => ih hops
      obtain ⟨-, rfl⟩ := handled hc
      exact relabelling_idle hp (hop src dst hmoves)

/-- A loop that ends well has refused nothing. -/
theorem groupOps_valid (h : Ends (groupOps pid ops groups).run l (.ok groups')) :
    ∀ op ∈ ops, op.Valid := by
  induction ops generalizing groups l with
  | nil => exact List.forall_mem_nil _
  | cons op ops ih =>
    rw [groupOps_cons] at h
    obtain ⟨l₁, l₂, groups₁, -, hround, hrest⟩ := ends_flow_bind_ok h
    refine List.forall_mem_cons.2 ⟨?_, ih hrest⟩
    obtain ⟨-, e, hrefused⟩ | ⟨hvalid, -⟩ | ⟨hvalid, -⟩ := groupRound_cases pid op groups
    · rw [hrefused] at hround
      cases (ends_throw hround).2
    · exact hvalid
    · exact hvalid

end Loop

section Failures

variable {ι : Type} {i : ι} {op : CustomRuleGroupOp} {ops : List CustomRuleGroupOp}
  {groups : CustomRuleGroups} {s : Stores} {p : Profile} {pid action src dst : String}

/-- The rest of a batch: the loop, and the registry at its end. -/
def batchRest (pid : String) (ops : List CustomRuleGroupOp) (groups : CustomRuleGroups) :
    ProfileFlow Unit := do
  let groups ← groupOps pid ops groups
  let _ ← call (.edit pid (.setCustomRuleGroups groups))
  return ()

theorem batchRest_cons (pid : String) (op : CustomRuleGroupOp) (ops : List CustomRuleGroupOp)
    (groups : CustomRuleGroups) :
    batchRest pid (op :: ops) groups = groupRound pid op groups >>= batchRest pid ops := by
  unfold batchRest
  rw [groupOps_cons, bind_assoc]

/-- An edit can be carried out, and it can fail, with or without effect. -/
theorem edit_exec (pid : String) (e : ProfileEdit) (s : Stores) :
    ∃ n, Exec profileHandler i (call (.edit pid e)).run s [⟨.edit pid e, .ok n⟩] (.ok n)
    (s.act ⟨.edit pid e, .ok n⟩) :=
  ⟨_, exec_act.2 ⟨⟨.ok, rfl⟩, rfl⟩⟩

theorem edit_fails (pid : String) (e : ProfileEdit) (applied : Bool) (s : Stores) :
    Exec profileHandler i (call (.edit pid e)).run s [⟨.edit pid e, .error (.store applied)⟩]
      (.error (.store applied))
      (s.act ⟨.edit pid e, .error (.store applied)⟩) :=
  exec_act.2 ⟨⟨.fail applied, rfl⟩, rfl⟩

theorem act_effectless {o : ProfileOp} : s.act ⟨o, .error (.store false)⟩ = s :=
  if_neg Bool.false_ne_true

/-- **What is left of a batch can fail**, and leave the stores as they are. -/
theorem rest_fails (pid : String) (ops : List CustomRuleGroupOp) (groups : CustomRuleGroups)
    (s : Stores) :
    ∃ l e, Exec profileHandler i (batchRest pid ops groups).run s l (.error e) s ∧
    Effectless l := by
  induction ops generalizing groups with
  | nil =>
    have hset := edit_fails (i := i) pid (.setCustomRuleGroups groups) false s
    rw [act_effectless] at hset
    have hrest : Exec profileHandler i (batchRest pid [] groups).run s _ _ s :=
      exec_flow_bind.2
        (.inr ⟨[], _, groups, s, rfl, ⟨rfl, rfl, rfl⟩, exec_flow_bind.2 (.inl ⟨_, hset, rfl⟩)⟩)
    exact ⟨_, _, hrest, effectless_fails⟩
  | cons op ops ih =>
    rw [batchRest_cons]
    obtain ⟨-, e, hround⟩ | ⟨-, -, hround⟩ | ⟨-, src, dst, -, hround⟩ :=
      groupRound_cases pid op groups
    · rw [hround]
      exact ⟨[], e, ⟨rfl, rfl, rfl⟩, List.forall_mem_nil _⟩
    · rw [hround, pure_bind]
      exact ih (op.onGroups groups)
    · have hedit := edit_fails (i := i) pid (.reassignCustomRuleGroup op.action src dst) false s
      rw [act_effectless] at hedit
      rw [hround, bind_assoc]
      exact ⟨_, _, exec_flow_bind.2 (.inl ⟨_, hedit, rfl⟩), effectless_fails⟩

/-- A round that finds rules, or not, can go through. -/
theorem round_succeeds (hvalid : op.Valid) (groups : CustomRuleGroups) (s : Stores)
    (hp : s.find pid = some p) :
    ∃ l s', Exec profileHandler i (groupRound pid op groups).run s l (.ok (op.onGroups groups)) s' ∧
    Effectless l ∧
      s'.find pid = some { p with settings.customRules := op.onRules p.settings.customRules } := by
  obtain ⟨hnot, -⟩ | ⟨-, hstill, hround⟩ | ⟨-, src, dst, hmoves, hround⟩ :=
    groupRound_cases pid op groups
  · exact absurd hvalid hnot
  · rw [hround, CustomRuleGroupOp.onRules_still hstill]
    exact ⟨[], s, ⟨rfl, rfl, rfl⟩, List.forall_mem_nil _, hp⟩
  · obtain ⟨n, hedit⟩ := edit_exec (i := i) pid (.reassignCustomRuleGroup op.action src dst) s
    rw [hround, CustomRuleGroupOp.onRules_moves hmoves]
    refine ⟨_, _, exec_flow_bind.2 (.inr ⟨_, [], n, _, rfl, hedit, rfl, rfl, rfl⟩), ?_, ?_⟩
    · rw [List.append_nil]
      exact effectless_ok
    · exact relabels_edit op.action src dst n s p hp

/-- **A relabelling that finds rules stays**, when the batch fails after it. -/
theorem relabels_early (groups : CustomRuleGroups) (hp : s.find pid = some p)
    (hearly : ¬ AllIdle ops p.settings.customRules) :
    ∃ l e s', Exec profileHandler i (batchRest pid ops groups).run s l (.error e) s' ∧
    Effectless l ∧
      ¬ GroupsAsBefore p (s'.find pid) := by
  induction ops generalizing groups s with
  | nil => exact absurd (List.forall_mem_nil _) hearly
  | cons op ops ih =>
    rw [batchRest_cons]
    by_cases hvalid : op.Valid
    swap
    · refine absurd ?_ hearly
      unfold AllIdle
      rw [List.takeWhile_cons_of_neg (by simpa using hvalid)]
      exact List.forall_mem_nil _
    obtain ⟨l₁, s₁, hround, hl₁, hp₁⟩ := round_succeeds (i := i) hvalid groups s hp
    by_cases hop : op.Idle p.settings.customRules
    · -- nothing has changed so far
      have hrules : op.onRules p.settings.customRules = p.settings.customRules := by
        by_cases hm : ∃ src dst, op.Moves src dst
        · obtain ⟨src, dst, hm⟩ := hm
          rw [CustomRuleGroupOp.onRules_moves hm, relabel_idle (hop src dst hm)]
        · exact CustomRuleGroupOp.onRules_still fun src dst hm' => hm ⟨src, dst, hm'⟩
      rw [hrules] at hp₁
      obtain ⟨l₂, e, s', hrest, hl₂, hchanged⟩ := ih (op.onGroups groups) hp₁ fun h =>
        hearly ((allIdle_cons hvalid).2 ⟨hop, h⟩)
      exact ⟨_, e, s', exec_flow_bind.2 (.inr ⟨l₁, l₂, _, s₁, rfl, hround, hrest⟩),
        hl₁.append hl₂, hchanged⟩
    -- the operation finds a rule: it is relabelled, and the next call fails
    · obtain ⟨src, dst, hmoves, hfinds⟩ : ∃ src dst, op.Moves src dst ∧
          ¬ Unlabelled op.action src p.settings.customRules := by
        by_contra hnone
        refine hop fun src dst hmoves => ?_
        by_contra hfinds
        exact hnone ⟨src, dst, hmoves, hfinds⟩
      obtain ⟨l₂, e, hrest, hl₂⟩ := rest_fails (i := i) pid ops (op.onGroups groups) s₁
      refine ⟨_, e, s₁, exec_flow_bind.2 (.inr ⟨l₁, l₂, _, s₁, rfl, hround, hrest⟩),
        hl₁.append hl₂, ?_⟩
      rw [hp₁, CustomRuleGroupOp.onRules_moves hmoves]
      rintro ⟨p', hp', -, hlabels⟩
      cases hp'
      exact relabel_shows (moves_ne hvalid hmoves) hfinds hlabels

/-- A batch of valid operations that find no rules comes to the registry. -/
theorem idle_reaches (groups : CustomRuleGroups) (hp : s.find pid = some p)
    (hidle : AllIdle ops p.settings.customRules) (hvalid : ∀ op ∈ ops, op.Valid) :
    ∃ l s', Exec profileHandler i (groupOps pid ops groups).run s l
    (.ok (ops.foldl (fun g op => op.onGroups g) groups)) s' ∧
      s'.find pid = some p := by
  induction ops generalizing groups s with
  | nil => exact ⟨[], s, ⟨rfl, rfl, rfl⟩, hp⟩
  | cons op ops ih =>
    obtain ⟨hop, hops⟩ := List.forall_mem_cons.1 hvalid
    obtain ⟨-, hidles⟩ := (allIdle_cons hop).1 hidle
    obtain ⟨l₁, s₁, hround, -, -⟩ := round_succeeds (i := i) hop groups s hp
    have hp₁ : s₁.find pid = some p := by
      have hkeeps : Keeps profileHandler i (fun s => s.find pid = some p)
        (groupOps pid [op] groups) :=
        groupOps_keeps
        ((allIdle_cons hop).2 ⟨((allIdle_cons hop).1 hidle).1, List.forall_mem_nil _⟩)
      refine hkeeps s (l₁ ++ []) (.ok (op.onGroups groups)) s₁ hp ?_
      rw [groupOps_cons]
      exact exec_flow_bind.2 (.inr ⟨l₁, [], _, s₁, rfl, hround, rfl, rfl, rfl⟩)
    obtain ⟨l₂, s', hrest, hp'⟩ := ih (op.onGroups groups) hp₁ hidles hops
    rw [groupOps_cons]
    exact ⟨_, s', exec_flow_bind.2 (.inr ⟨l₁, l₂, _, s₁, rfl, hround, hrest⟩), hp'⟩

end Failures

section Batch

variable {accountId pid : String} {ops : List CustomRuleGroupOp} {s : Stores} {p : Profile}

theorem read_act {r : Except ServiceErr Profile} : s.act ⟨.getProfileById pid, r⟩ = s := ite_self s

/-- The check of a stored profile: it is read, if the read does not fail, and belongs to the
account. -/
theorem exec_validate {l : Acts} {r : Except ServiceErr Profile} {s' : Stores}
    (hp : s.find pid = some p) (h : Exec profileHandler ()
      (validateProfileIdAffiliation accountId pid).run s l r s') :
    s' = s ∧ ∀ stored, r = .ok stored → stored = p ∧ p.accountId = accountId := by
  obtain rfl : s' = s := by
    have hreads : Keeps profileHandler () (· = s) (validateProfileIdAffiliation accountId pid) := by
      refine keeps_bind (triple_act fun s₁ c r s' hs hc => ?_) fun stored =>
        keeps_bind keeps_ensure fun _ => keeps_pure
      obtain ⟨-, rfl⟩ := handled hc
      exact read_act.trans hs
    exact hreads s l r s' rfl h
  refine ⟨rfl, ?_⟩
  rintro stored rfl
  obtain ⟨rfl, hown⟩ := ends_validate (exec_path h)
  obtain ⟨c, hanswer⟩ := answer_exec (l := []) h
  have hstored : stored = p := Option.some.inj ((found_of_answer hanswer).symm.trans hp)
  exact ⟨hstored, hstored ▸ hown⟩

/-- A batch on a profile of the account is its loop and the registry, after the profile has been
read. -/
theorem batch_exec (hp : s.find pid = some p) (hown : p.accountId = accountId) {l : Acts}
    {r : Except ServiceErr Unit} {s' : Stores}
    (h : Exec profileHandler () (batchRest pid ops p.settings.customRuleGroups).run s l r s') :
    Exec profileHandler () (applyCustomRuleGroupOps accountId pid ops).run s
    (⟨.getProfileById pid, .ok p⟩ :: l) r s' := by
  have hread : Exec profileHandler () (call (.getProfileById pid)).run s
      [⟨.getProfileById pid, .ok p⟩] (.ok p) s := by
    refine exec_act.2 ⟨⟨.ok, ?_⟩, rfl⟩
    have hfound : s.findOrErr pid = .ok p := by
      unfold Stores.findOrErr
      rw [hp]
    have hanswer : (ProfileOp.getProfileById pid).answer s .ok = some (.ok p) :=
      congrArg some hfound
    unfold profileHandler
    rw [hanswer]
    exact congrArg (fun s' => some (_, s')) read_act
  refine exec_flow_bind.2 (.inr ⟨[⟨.getProfileById pid, .ok p⟩], l, p, s, rfl, ?_, h⟩)
  refine exec_flow_bind.2 (.inr ⟨_, [], p, s, rfl, hread, ?_⟩)
  rw [ensure_ok hown]
  exact ⟨rfl, rfl, rfl⟩

/-- An error comes from the check of the profile, from the loop, or from the registry, which may be
written all the same. -/
theorem failed_exec {l : Acts} {e : ServiceErr} {s' : Stores} (hp : s.find pid = some p)
    (h : Exec profileHandler () (applyCustomRuleGroupOps accountId pid ops).run s l (.error e) s') :
    s' = s ∨ p.accountId = accountId ∧ ∃ l₁ r s₁,
      Exec profileHandler () (groupOps pid ops p.settings.customRuleGroups).run s l₁ r s₁ ∧
        (s' = s₁ ∨ ∃ groups applied, r = .ok groups ∧
          ⟨.edit pid (.setCustomRuleGroups groups), .error (.store applied)⟩ ∈ l ∧
          s' = s₁.act ⟨.edit pid (.setCustomRuleGroups groups), .error (.store applied)⟩) := by
  obtain ⟨e, hcheck, -⟩ | ⟨l₁, l₂, stored, s₁, rfl, hcheck, hrest⟩ := exec_flow_bind.1 h
  · exact .inl (exec_validate hp hcheck).1
  obtain ⟨rfl, hstored⟩ := exec_validate hp hcheck
  obtain ⟨rfl, hown⟩ := hstored stored rfl
  refine .inr ⟨hown, ?_⟩
  obtain ⟨e, hloop, -⟩ | ⟨l₃, l₄, groups, s₂, rfl, hloop, hset⟩ := exec_flow_bind.1 hrest
  · exact ⟨_, _, _, hloop, .inl rfl⟩
  refine ⟨_, _, s₂, hloop, .inr ?_⟩
  obtain ⟨e, hset, -⟩ | ⟨l₅, l₆, n, s₃, rfl, -, hend⟩ := exec_flow_bind.1 hset
  · obtain ⟨⟨c, hc⟩, rfl⟩ := exec_act.1 hset
    obtain ⟨hanswer, rfl⟩ := handled hc
    cases c with
    | fail applied =>
      cases hanswer
      exact ⟨groups, applied, rfl, by simp, rfl⟩
    | _ => cases hanswer
  · obtain ⟨-, hend, -⟩ := hend
    cases hend

theorem set_applied {groups : CustomRuleGroups} (hp : s.find pid = some p) :
    (s.act ⟨.edit pid (.setCustomRuleGroups groups), .error (.store true)⟩).find pid =
      some { p with settings.customRuleGroups := groups } := by
  have hact : s.act ⟨.edit pid (.setCustomRuleGroups groups), .error (.store true)⟩ =
      s.onProfile pid (ProfileEdit.run · (.setCustomRuleGroups groups)) := act_effect rfl
  rw [hact, find_onProfile_self fun p => edit_profileId p _, hp]
  rfl

theorem asBefore_self : GroupsAsBefore p (some p) := ⟨p, rfl, rfl, rfl⟩

theorem failed_idle {l : Acts} {e : ServiceErr} {s' : Stores} (hp : s.find pid = some p)
    (hidle : p.accountId = accountId → AllIdle ops p.settings.customRules)
    (hset : Effectless l ∨ (p.accountId = accountId → SameRegistry ops p.settings.customRuleGroups))
    (h : Exec profileHandler () (applyCustomRuleGroupOps accountId pid ops).run s l (.error e) s') :
    GroupsAsBefore p (s'.find pid) := by
  obtain rfl | ⟨hown, l₁, r, s₁, hloop, hend⟩ := failed_exec hp h
  · rw [hp]
    exact asBefore_self
  have hp₁ : s₁.find pid = some p := groupOps_keeps (hidle hown) s l₁ r s₁ hp hloop
  obtain rfl | ⟨groups, applied, rfl, hx, rfl⟩ := hend
  · rw [hp₁]
    exact asBefore_self
  cases applied with
  | false =>
    rw [act_effectless, hp₁]
    exact asBefore_self
  | true =>
    have hsame := (hset.resolve_left fun hl => hl _ hx rfl) hown (groupOps_valid (exec_path hloop))
    obtain ⟨-, rfl, -⟩ := ends_groupOps (exec_path hloop)
    rw [hsame, set_applied hp₁]
    exact asBefore_self

/-- **A failed batch changes nothing** exactly if no operation up to the first one refused finds a
rule; and, where the last call may take effect and fail all the same, if the registry would be what
it is already. -/
theorem failed_batch_iff (accountId pid : String) (ops : List CustomRuleGroupOp)
    (s : Stores) (p : Profile) (hp : s.find pid = some p) :
    ((∀ l e s', Exec profileHandler () (applyCustomRuleGroupOps accountId pid ops).run s l
      (.error e) s' → Effectless l →
        GroupsAsBefore p (s'.find pid)) ↔
          (p.accountId = accountId → AllIdle ops p.settings.customRules)) ∧
      ((∀ l e s', Exec profileHandler () (applyCustomRuleGroupOps accountId pid ops).run s l
        (.error e) s' →
        GroupsAsBefore p (s'.find pid)) ↔
          (p.accountId = accountId → AllIdle ops p.settings.customRules ∧
            SameRegistry ops p.settings.customRuleGroups)) := by
  -- an operation that finds a rule takes effect before a later one fails
  have hearly :
    (∀ l e s', Exec profileHandler () (applyCustomRuleGroupOps accountId pid ops).run s l
      (.error e) s' →
      Effectless l → GroupsAsBefore p (s'.find pid)) → p.accountId = accountId →
      AllIdle ops p.settings.customRules := by
    intro hall hown
    by_contra hnot
    obtain ⟨l, e, s', hexec, hl, hchanged⟩ := relabels_early p.settings.customRuleGroups hp hnot
    refine hchanged (hall _ e s' (batch_exec hp hown hexec) ?_)
    exact effectless_ok.append hl
  refine ⟨⟨hearly, fun hidle l e s' h hl => failed_idle hp hidle (.inl hl) h⟩, fun hall hown => ?_,
    fun hcond l e s' h => ?_⟩
  -- if the write of the registry takes effect and fails, the registry shows it
  · have hidle := hearly (fun l e s' h _ => hall l e s' h) hown
    refine ⟨hidle, fun hvalid => ?_⟩
    obtain ⟨l, s₁, hloop, hp₁⟩ := idle_reaches (i := ()) p.settings.customRuleGroups hp hidle hvalid
    have hset := edit_fails (i := ()) pid
      (.setCustomRuleGroups (ops.foldl (fun g op => op.onGroups g) p.settings.customRuleGroups))
        true s₁
    have hend := hall _ _ _ (batch_exec hp hown (exec_flow_bind.2 (.inr ⟨l, _, _, s₁, rfl, hloop,
      exec_flow_bind.2 (.inl ⟨_, hset, rfl⟩)⟩)))
    rw [set_applied hp₁] at hend
    obtain ⟨p', hp', hgroups, -⟩ := hend
    cases hp'
    exact hgroups
  · exact failed_idle hp (fun hown => (hcond hown).1) (.inr fun hown => (hcond hown).2) h

end Batch

section Examples

/-- A profile with a rule in a group. -/
def groupedProfile : Profile :=
  { oneProfile with
    settings.customRules :=
      [{ id := 0, action := .block, value := "ads.example.com", ruleSyntax := .fqdn
         group := "Ads" }]
    settings.customRuleGroups := ⟨[⟨"Ads", ""⟩], []⟩ }

def groupedStores : Stores := { oneStores with profiles := [groupedProfile] }

/-- A note, and an action that there is not. -/
def notedOps : List CustomRuleGroupOp :=
  [⟨"add", "block", "Ads", "", some "noisy"⟩, ⟨"add", "comment", "Ads", "", none⟩]

theorem failed_batch_noted : groupedStores.find "p" = some groupedProfile ∧
    AllIdle notedOps groupedProfile.settings.customRules ∧
    ∀ l e s', Exec profileHandler () (applyCustomRuleGroupOps "a" "p" notedOps).run groupedStores l
    (.error e) s' →
      Effectless l → GroupsAsBefore groupedProfile (s'.find "p") := by
  have hadd : ∀ op ∈ notedOps, op.operation = "add" := by decide
  have hidle : AllIdle notedOps groupedProfile.settings.customRules := by
    rintro op hop src dst (⟨hremove, -⟩ | ⟨hmove, -⟩)
    · rw [hadd op (List.takeWhile_subset _ hop)] at hremove
      exact absurd hremove (by decide)
    · rw [hadd op (List.takeWhile_subset _ hop)] at hmove
      exact absurd hmove (by decide)
  exact ⟨rfl, hidle, (failed_batch_iff "a" "p" notedOps groupedStores groupedProfile rfl).1.2
    fun _ => hidle⟩

/-- A group that is removed, and an action that there is not. -/
def removedOps : List CustomRuleGroupOp :=
  [⟨"remove", "block", "Ads", "", none⟩, ⟨"add", "comment", "Ads", "", none⟩]

theorem removedOps_exec :
    ((applyCustomRuleGroupOps "a" "p" removedOps).run.exec profileHandler ()
      [.ok, .ok] groupedStores).isSome := by
  decide

/-- The batch is refused, and the rule has lost its group, which the registry still has. -/
theorem removed_loses_label :
    ∃ l s' p', Exec profileHandler ()
    (applyCustomRuleGroupOps "a" "p" removedOps).run groupedStores l
      (.error (.customRule .invalidCustomRuleAction)) s' ∧ Effectless l ∧ s'.find "p" = some p' ∧
    p'.settings.customRuleGroups = ⟨[⟨"Ads", ""⟩], []⟩ ∧
    p'.settings.customRules.map (·.group) = [""] ∧
    ¬ GroupsAsBefore groupedProfile (s'.find "p") := by
  have hexec : Exec profileHandler () (applyCustomRuleGroupOps "a" "p" removedOps).run groupedStores
      ([⟨.getProfileById "p", .ok groupedProfile⟩] ++
        [⟨.edit "p" (.reassignCustomRuleGroup "block" "Ads" ""), .ok (1 : ℕ)⟩])
      (.error (.customRule .invalidCustomRuleAction)) _ :=
      exec_of_choices (Option.some_get removedOps_exec).symm
  refine ⟨_, _, _, hexec, effectless_ok.append effectless_ok, rfl, rfl, rfl, ?_⟩
  · rintro ⟨p', hp', -, hlabels⟩
    cases hp'
    exact absurd hlabels (by decide)

end Examples

end ModDNS.Profiles
