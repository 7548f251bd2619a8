import ModDNS.Profiles.Transitions
import ModDNS.Statistics.Timestamps

/-!
# Turning the collection off

An account whose subscription has ended may still send a PATCH of a profile that does nothing but
turn the statistics or the query logs off. `isTurnOffOnly` decides from the request whether it is
one, before the service has read it.

* `Profile.turnOff`: what such a PATCH does to the stored profile.
* `follows_turnOff`: its calls, whatever they are answered.
-/

namespace ModDNS.Profiles

open Conc Go Rules

section Guard

variable {W Body : Type} (casts : Casts (Option W))

def turnOffPaths : List String := ["/settings/statistics/enabled", "/settings/logs/enabled"]

/-- The test of one operation in `isTurnOffOnly`; `none` is a nil value. -/
def isTurnOff (u : RawUpdate (Option W)) : Bool :=
  if u.operation ≠ "replace" ∨ u.path ∉ turnOffPaths then false
  else match unwrapped casts u.value with
    | none => false
    | some v => casts.toBoolE (some v) = some false

/-- `strings.CutPrefix`. -/
def cutPrefix (s pre : String) : Option String :=
  if hasPrefix s pre then some (trimPrefix s pre) else none

/-- `unmarshal` decodes the updates of a body. -/
def isTurnOffOnly (unmarshal : Body → Option (List (RawUpdate (Option W)))) (method path : String)
    (body : Body) : Bool :=
  match cutPrefix path "/api/v1/profiles/" with
  | none => false
  | some id =>
    if method ≠ "PATCH" ∨ id = "" ∨ contains id "/" then false
    else match unmarshal body with
      | none => false
      | some updates => !updates.isEmpty && updates.all (isTurnOff casts)

/-- The service reads the value of an operation as false. -/
def RawUpdate.ReadsFalse (u : RawUpdate (Option W)) : Prop :=
  casts.toBoolE (unwrapped casts u.value) = some false

end Guard

section TurnedOff

/-- The profile with its statistics or its query logs turned off. The statistics lose the instants
of their on-period and get the one of the switch. -/
def Profile.turnOff (statistics logs : Bool) (now : ℕ) (p : Profile) : Profile :=
  { p with
    settings.statistics :=
      if statistics && p.settings.statistics.enabled then
        { p.settings.statistics with
          enabled := false, enabledAt := none, historyDeletedAt := none, disabledAt := some now }
      else p.settings.statistics
    settings.logs.enabled := p.settings.logs.enabled && !logs }

variable {W : Type} (pid : String) (updates : List (RawUpdate (Option W)))
  (l : List patchCalls.sig.Act)

/-- The PATCH turns the statistics off. -/
def StatisticsOff : Prop := "/settings/statistics/enabled" ∈ updates.map (·.path)

/-- The PATCH turns the query logs off. -/
def LogsOff : Prop := "/settings/logs/enabled" ∈ updates.map (·.path)

instance : Decidable (StatisticsOff updates) := inferInstanceAs (Decidable (_ ∈ _))

instance : Decidable (LogsOff updates) := inferInstanceAs (Decidable (_ ∈ _))

/-- The PATCH turns off what a hash is about. -/
def TurnsOffHash : SettingsHash → Prop
  | .statistics => StatisticsOff updates
  | .logs => LogsOff updates
  | _ => False

/-- What the caches of a scope are derived from has been found on, and turned off. -/
def SwitchedOff (scope : Caches.Scope) : Prop :=
  ∃ upd before, ⟨.store (.findOneAndUpdate pid upd), .ok before⟩ ∈ l ∧
    match scope with
    | .statisticsRead => StatisticsOff updates ∧ before.settings.statistics.enabled = true
    | .logs => LogsOff updates ∧ before.settings.logs.enabled = true

/-- What one step of such a PATCH does to the stores, after the actions `l`. -/
inductive TurnOffStep (s : PatchStores) : PatchStores → Prop where
  | same : TurnOffStep s s
  | profile (now : ℕ) : TurnOffStep s
    { s with
      stores :=
        s.stores.onProfile pid (Profile.turnOff (decide (StatisticsOff updates))
          (decide (LogsOff updates)) now) }
  | field (h : SettingsHash) : TurnsOffHash updates h → TurnOffStep s
    { s with
      stores.redis := Function.update s.stores.redis pid
        ((RedisCmd.hset h [("enabled", .bool false)]).run (s.stores.redis pid)) }
  | generation (scope : Caches.Scope) : SwitchedOff pid updates l scope → TurnOffStep s
    { s with
      generations := Function.update s.generations ⟨scope, pid⟩ (s.generations ⟨scope, pid⟩ + 1) }

end TurnedOff

section Accepted

variable {W Body : Type} {casts : Casts (Option W)} {u : RawUpdate (Option W)}
  {updates : List (RawUpdate (Option W))}

theorem isTurnOff_iff : isTurnOff casts u = true ↔
    u.operation = "replace" ∧ u.path ∈ turnOffPaths ∧ u.ReadsFalse casts ∧
      unwrapped casts u.value ≠ none := by
  unfold isTurnOff RawUpdate.ReadsFalse
  by_cases hop : u.operation ≠ "replace" ∨ u.path ∉ turnOffPaths
  · rw [if_pos hop]
    refine ⟨nofun, fun h => ?_⟩
    rcases hop with hop | hop
    · exact absurd h.1 hop
    · exact absurd h.2.1 hop
  · rw [if_neg hop]
    rw [not_or, not_not, not_not] at hop
    cases unwrapped casts u.value with
    | none => simp
    | some v => simp [hop.1, hop.2]

theorem cutPrefix_append (pre s : String) : cutPrefix (pre ++ s) pre = some s := by
  have hpre : hasPrefix (pre ++ s) pre = true := by
    rw [hasPrefix_iff, String.toList_append]
    exact List.prefix_append _ _
  unfold cutPrefix trimPrefix
  rw [if_pos hpre, if_pos hpre, String.toList_append, List.drop_left, String.ofList_toList]

/-- The bodies that the guard accepts. -/
theorem isTurnOffOnly_body {unmarshal : Body → Option (List (RawUpdate (Option W)))}
    {method path : String} {body : Body} (hbody : unmarshal body = some updates)
    (h : isTurnOffOnly casts unmarshal method path body = true) :
    ∀ u ∈ updates, isTurnOff casts u = true := by
  unfold isTurnOffOnly at h
  cases hid : cutPrefix path "/api/v1/profiles/" with
  | none => simp [hid] at h
  | some id =>
    simp only [hid, hbody] at h
    split at h
    · cases h
    · rw [Bool.and_eq_true, List.all_eq_true] at h
      exact h.2

theorem isTurnOffOnly_of {unmarshal : Body → Option (List (RawUpdate (Option W)))}
    {id : String} {body : Body} (hid : id ≠ "") (hslash : contains id "/" = false)
    (hbody : unmarshal body = some updates) (hne : updates ≠ [])
    (h : ∀ u ∈ updates, isTurnOff casts u = true) :
    isTurnOffOnly casts unmarshal "PATCH" ("/api/v1/profiles/" ++ id) body = true := by
  have hcond : ¬ ("PATCH" ≠ "PATCH" ∨ id = "" ∨ contains id "/" = true) := by simp [hid, hslash]
  unfold isTurnOffOnly
  rw [cutPrefix_append]
  simp only [hbody]
  rw [if_neg hcond, Bool.and_eq_true, List.all_eq_true]
  exact ⟨by simpa using hne, h⟩

end Accepted

section Copy

variable {W : Type} {env : ServiceEnv} {casts : Casts (Option W)} {newID : ℕ → RuleID} {now : ℕ}
  {updates : List (RawUpdate (Option W))} {touched : List PatchPath} {stored copy : Profile}

/-- The copy of a PATCH that only turns off, and the paths that it touched. -/
structure Off (updates : List (RawUpdate (Option W))) (touched : List PatchPath) (copy : Profile) :
    Prop where
  only : ∀ path ∈ touched, path = .statisticsEnabled ∨ path = .logsEnabled
  value : ∀ path ∈ touched, copy.value path = .bool false
  statistics : .statisticsEnabled ∈ touched ↔ StatisticsOff updates
  logs : .logsEnabled ∈ touched ↔ LogsOff updates

/-- The paths of the guard are those of two fields. -/
theorem typed_turnOff {u : RawUpdate (Option W)} (h : isTurnOff casts u = true) :
    ∃ path : PatchPath, u.path = path.text ∧ (path = .statisticsEnabled ∨ path = .logsEnabled) ∧
      u.typed = some ⟨.replace, path, u.value⟩ := by
  obtain ⟨hop, hpath, -⟩ := isTurnOff_iff.1 h
  have hreplace : UpdateOperation.ofText u.operation = some .replace := by
    rw [hop]
    rfl
  rw [turnOffPaths, List.mem_cons, List.mem_singleton] at hpath
  rcases hpath with hpath | hpath
  · refine ⟨.statisticsEnabled, hpath, .inl rfl, typed_eq_some hreplace ?_⟩
    rw [hpath]
    exact ofText_text .statisticsEnabled
  · refine ⟨.logsEnabled, hpath, .inr rfl, typed_eq_some hreplace ?_⟩
    rw [hpath]
    exact ofText_text .logsEnabled

theorem text_injective {path path' : PatchPath} (h : path.text = path'.text) : path = path' := by
  have hof := ofText_text path
  rw [h, ofText_text] at hof
  exact (Option.some.inj hof).symm

theorem touches_typed (h : ∀ u ∈ updates, isTurnOff casts u = true) (path : PatchPath) :
    Touches (updates.filterMap RawUpdate.typed) path ↔ path.text ∈ updates.map (·.path) := by
  constructor
  · rintro ⟨t, ht, -, rfl⟩
    obtain ⟨u, hu, htyped⟩ := List.mem_filterMap.1 ht
    obtain ⟨path', hpath, -, htyped'⟩ := typed_turnOff (h u hu)
    rw [htyped] at htyped'
    obtain rfl := Option.some.inj htyped'
    exact List.mem_map.2 ⟨u, hu, hpath⟩
  · intro hmem
    obtain ⟨u, hu, hpath⟩ := List.mem_map.1 hmem
    obtain ⟨path', hpath', -, htyped⟩ := typed_turnOff (h u hu)
    rw [hpath] at hpath'
    exact ⟨_, List.mem_filterMap.2 ⟨u, hu, htyped⟩, rfl, (text_injective hpath').symm⟩

/-- Such a PATCH gives false to the paths that it touches. -/
theorem assigned_off (h : ∀ u ∈ updates, isTurnOff casts u = true) {path : PatchPath}
    {v : FieldValue} (hv : assigned env casts (updates.filterMap RawUpdate.typed) path = some v) :
    v = .bool false := by
  induction updates with
  | nil => cases hv
  | cons u updates ih =>
    obtain ⟨hu, hupdates⟩ := List.forall_mem_cons.1 h
    obtain ⟨path', -, hswitch, htyped⟩ := typed_turnOff hu
    obtain ⟨-, -, hfalse, -⟩ := isTurnOff_iff.1 hu
    unfold RawUpdate.ReadsFalse at hfalse
    rw [List.filterMap_cons_some htyped, assigned] at hv
    rcases Option.or_eq_some_iff.1 hv with hv | ⟨-, hv⟩
    · exact ih hupdates hv
    · obtain ⟨-, hv⟩ := Option.ite_none_right_eq_some.1 hv
      rcases hswitch with rfl | rfl
      all_goals
        simp only [ProfileUpdate.assigns, hfalse, Option.map_some, Option.some.injEq] at hv
        exact hv.symm

theorem off_of_patched (h : ∀ u ∈ updates, isTurnOff casts u = true)
    (hp : Patched env casts (updates.filterMap RawUpdate.typed) stored copy [] touched) :
    Off updates touched copy := by
  have hmem : ∀ path, path ∈ touched ↔ path.text ∈ updates.map (·.path) := by
    intro path
    rw [hp.mem, touches_typed h]
    exact or_iff_right List.not_mem_nil
  refine ⟨fun path hpath => ?_, fun path hpath => ?_, hmem .statisticsEnabled, hmem .logsEnabled⟩
  · obtain ⟨u, hu, htext⟩ := List.mem_map.1 ((hmem path).1 hpath)
    obtain ⟨path', hpath', hswitch, -⟩ := typed_turnOff (h u hu)
    rw [htext] at hpath'
    rwa [text_injective hpath']
  · exact assigned_off h (hp.value path ((touches_typed h path).2 ((hmem path).1 hpath)))

/-- The fields of the copy, written to a profile. -/
theorem sets_off (p : Profile) (honly : ∀ path ∈ touched, path = .statisticsEnabled ∨
    path = .logsEnabled)
    (hvalue : ∀ path ∈ touched, copy.value path = .bool false) :
    (touched.map fun path => (path, copy.value path)).foldl (fun p f => p.set f.1 f.2) p =
      { p with
        settings.statistics.enabled :=
          p.settings.statistics.enabled && decide (.statisticsEnabled ∉ touched)
        settings.logs.enabled := p.settings.logs.enabled && decide (.logsEnabled ∉ touched) } := by
  induction touched generalizing p with
  | nil => simp
  | cons path touched ih =>
    obtain ⟨hpath, hrest⟩ := List.forall_mem_cons.1 honly
    obtain ⟨hv, hvrest⟩ := List.forall_mem_cons.1 hvalue
    rw [List.map_cons, List.foldl_cons, hv, ih _ hrest hvrest]
    rcases hpath with rfl | rfl
    · simp [Profile.set]
    · simp [Profile.set]

/-- No custom rule is appended. -/
theorem append_off (hoff : Off updates touched copy) :
    (fieldsUpdate env newID now touched copy).appendCustomRules = [] := by
  refine if_neg fun hrule => ?_
  rcases hoff.only _ hrule.1 with h | h <;> cases h

/-- The update of Mongo turns off. -/
theorem updateFields_off (h : Off updates touched copy) (p : Profile) :
    updateFields p (fieldsUpdate env newID now touched copy) =
      p.turnOff (decide (StatisticsOff updates)) (decide (LogsOff updates)) now := by
  have happend : (fieldsUpdate env newID now touched copy).appendCustomRules = [] := append_off h
  have hset : (fieldsUpdate env newID now touched copy).set = touched.map fun path =>
      (path, copy.value path) := rfl
  have hnow : (fieldsUpdate env newID now touched copy).now = now := rfl
  have hupd : updateFields p (fieldsUpdate env newID now touched copy) = setFields p
      (fieldsUpdate env newID now touched copy) := by
    unfold updateFields
    rw [happend]
    rfl
  have hl : decide (.logsEnabled ∉ touched) = !decide (LogsOff updates) := by
    simp only [h.logs, decide_not]
  have hs : decide (.statisticsEnabled ∉ touched) = !decide (StatisticsOff updates) := by
    simp only [h.statistics, decide_not]
  rw [hupd]
  unfold setFields
  rw [hset, sets_off p h.only h.value, Statistics.lookup_copied, hnow, hl, hs]
  by_cases hmem : .statisticsEnabled ∈ touched
  · rw [if_pos hmem, h.value _ hmem, decide_eq_true (h.statistics.1 hmem)]
    have hoff : (FieldValue.bool false == FieldValue.bool true) = false := rfl
    unfold Profile.turnOff StatisticsSettings.switched
    cases hon : p.settings.statistics.enabled with
    | true => simp [hoff]
    | false =>
      simp only [hoff, Bool.and_false, Bool.false_eq_true, if_false, Bool.false_and]
      rw [← hon]
  · rw [if_neg hmem, decide_eq_false fun h' => hmem (h.statistics.2 h')]
    unfold Profile.turnOff
    simp

end Copy

section Calls

variable {W : Type} {env : ServiceEnv} {casts : Casts (Option W)} {newID : ℕ → RuleID}
  {accountId pid : String} {updates : List (RawUpdate (Option W))} {touched : List PatchPath}
  {copy before : Profile} {upd : ProfileFieldsUpdate} {l l' : List patchCalls.sig.Act}
  {scope : Caches.Scope}

/-- The calls of a PATCH that only turns off, after the actions `l`. -/
def TurnOffOp (pid : String) (updates : List (RawUpdate (Option W))) (l : List patchCalls.sig.Act) :
    PatchOp → Prop
  | .store o => IsRead o ∨ o = .findAfter pid ∨
    (∃ upd now, o = .findOneAndUpdate pid upd ∧
      ∀ p, updateFields p upd = p.turnOff (decide (StatisticsOff updates))
        (decide (LogsOff updates)) now) ∨
    ∃ h, TurnsOffHash updates h ∧ o = .redis pid (.hset h [("enabled", .bool false)])
  | .deleteProfileStatistics pid' => pid' = pid ∧ SwitchedOff pid updates l .statisticsRead
  | .deleteQueryLogs pid' => pid' = pid ∧ SwitchedOff pid updates l .logs
  | .incr key => key.profileId = pid ∧ SwitchedOff pid updates l key.scope
  | .trimProfileDailyStatistics _ _ => False
  | .trimQueryLogs _ _ => False

theorem switchedOff_mono (h : SwitchedOff pid updates l scope) (hl : l <+: l') :
    SwitchedOff pid updates l' scope := by
  obtain ⟨upd, before, hmem, hon⟩ := h
  exact ⟨upd, before, hl.subset hmem, hon⟩

theorem follows_seq {A : List patchCalls.sig.Act → PatchOp → Prop} {α β : Type} {p : PatchFlow α}
    {f : α → PatchFlow β} (hp : Follows A (fun _ _ => True) p l)
    (hf : ∀ l' a, l <+: l' → Follows A (fun _ _ => True) (f a) l') :
    Follows A (fun _ _ => True) (p >>= f) l :=
  follows_bind hp (fun _ _ _ _ => trivial) fun l' a hl _ => hf l' a hl

theorem follows_bestEffort {A : List patchCalls.sig.Act → PatchOp → Prop} {o : PatchOp}
    (ho : A l o) :
    Follows A (fun _ _ => True) (bestEffort o) l :=
  follows_attempt_act_bind ho fun _ => follows_pure trivial

theorem follows_onlyIf {A : List patchCalls.sig.Act → PatchOp → Prop} {c : Prop} [Decidable c]
    {p : PatchFlow Unit} (hp : c → Follows A (fun _ _ => True) p l) :
    Follows A (fun _ _ => True) (onlyIf c p) l := by
  unfold onlyIf
  split
  · exact hp ‹c›
  · exact follows_pure trivial

/-- A purge comes with the new generation of the caches. -/
theorem follows_purge (h : SwitchedOff pid updates l .statisticsRead) :
    Follows (TurnOffOp pid updates) (fun _ _ => True) (purgeBestEffort pid) l := by
  refine follows_seq (follows_bestEffort ⟨rfl, h⟩) fun l' _ hl => ?_
  exact follows_bestEffort ⟨rfl, switchedOff_mono h hl⟩

theorem follows_purgeQueryLogs (h : SwitchedOff pid updates l .logs) :
    Follows (TurnOffOp pid updates) (fun _ _ => True) (purgeQueryLogsBestEffort pid) l := by
  refine follows_seq (follows_bestEffort ⟨rfl, h⟩) fun l' _ hl => ?_
  exact follows_bestEffort ⟨rfl, switchedOff_mono h hl⟩

theorem follows_transitions (hoff : Off updates touched copy)
    (hbefore : ⟨.store (.findOneAndUpdate pid upd), .ok before⟩ ∈ l) :
    Follows (TurnOffOp pid updates) (fun _ _ => True)
      (applySettingsTransitions pid (snapshotSettings before.settings)
        ((snapshotSettings before.settings).patched touched copy.settings)) l := by
  have hret : .statisticsRetention ∉ touched := fun h => by
    rcases hoff.only _ h with h | h <;> cases h
  have hlret : .logsRetention ∉ touched := fun h => by
    rcases hoff.only _ h with h | h <;> cases h
  unfold applySettingsTransitions applyStatisticsTransitions applyLogsTransitions snapshotSettings
    SettingsSnapshot.patched
  simp only [if_neg hret, if_neg hlret]
  refine follows_seq (follows_seq (follows_onlyIf ?_) fun l₁ _ hl₁ => ?_) fun l₁ _ hl₁ => ?_
  · rintro ⟨hon, hnot⟩
    have hmem : .statisticsEnabled ∈ touched := by
      by_contra hmem
      rw [if_neg hmem] at hnot
      exact hnot hon
    exact follows_purge ⟨upd, before, hbefore, hoff.statistics.1 hmem, hon⟩
  · refine follows_seq (follows_onlyIf fun h => absurd rfl h.2) fun l₂ _ hl₂ => ?_
    exact follows_onlyIf fun h => absurd h.2 (lt_irrefl _)
  · by_cases hmem : .logsEnabled ∈ touched
    · simp only [if_pos hmem]
      by_cases hsw : before.settings.logs.enabled = true ∧ ¬ copy.settings.logs.enabled = true
      · rw [if_pos hsw]
        exact follows_purgeQueryLogs ⟨upd, before, hl₁.subset hbefore, hoff.logs.1 hmem, hsw.1⟩
      · rw [if_neg hsw, if_neg fun h => absurd h.2 (lt_irrefl _), if_neg fun h => absurd rfl h]
        exact follows_pure trivial
    · simp only [if_neg hmem]
      rw [if_neg fun h => absurd h.1 h.2, if_neg fun h => absurd h.2 (lt_irrefl _),
        if_neg fun h => absurd rfl h]
      exact follows_pure trivial

theorem inStores_call (o : ProfileOp) : inStores (call o) = act (C := patchCalls) (.store o) := rfl

/-- A flow of the profile service whose calls are allowed. -/
theorem follows_inStores {A : List patchCalls.sig.Act → PatchOp → Prop} {B : ProfileOp → Prop}
    {α : Type} {p : ProfileFlow α} (hB : Within B p)
    (hA : ∀ l' o, l <+: l' → B o → A l' (.store o)) :
    Follows A (fun _ r => ∃ l', Ends p.run l' r) (inStores p) l := by
  refine follows_of_only (within_inStores hB) ?_ fun l' r hend => ?_
  · rintro l' o hl ⟨o', rfl, ho'⟩
    exact hA l' o' hl ho'
  · obtain ⟨l', -, hp⟩ := ends_inStores hend
    exact ⟨l', hp⟩

/-- The fields of Redis that are written. -/
theorem within_fields (hoff : Off updates touched copy) :
    Within (C := profileCalls) (fun o => ∃ h, TurnsOffHash updates h ∧
      o = .redis pid (.hset h [("enabled", .bool false)]))
      (setProfileSettingsFields pid (redisFields touched copy)) := by
  refine within_pipeline fun cmd hcmd => ?_
  obtain ⟨f, hf, rfl⟩ := List.mem_map.1 hcmd
  obtain ⟨path, hpath, heq⟩ := List.mem_filterMap.1 hf
  rw [hoff.value path hpath] at heq
  rcases hoff.only path hpath with rfl | rfl
  · obtain rfl := Option.some.inj heq
    exact ⟨.statistics, hoff.statistics.1 hpath, rfl⟩
  · obtain rfl := Option.some.inj heq
    exact ⟨.logs, hoff.logs.1 hpath, rfl⟩

theorem within_append {now : ℕ} {after : Profile} (hoff : Off updates touched copy) :
    Within (fun _ => False)
      (addCustomRules pid (appendedCustomRules after
        (fieldsUpdate env newID now touched copy).appendCustomRules)) := by
  rw [append_off hoff]
  exact within_pure

/-- **The calls of a PATCH that the guard lets pass.** -/
theorem follows_turnOff (h : ∀ u ∈ updates, isTurnOff casts u = true) :
    Follows (TurnOffOp pid updates) (fun _ _ => True)
      (updateProfileWithTransitions env casts newID accountId pid updates) [] := by
  unfold updateProfileWithTransitions
  refine follows_bind (follows_inStores (within_validate (A := IsRead) trivial)
    fun l' o _ ho => .inl ho)
    (fun _ _ _ _ => trivial) fun l₁ stored hl₁ _ => ?_
  rw [applyRawOperations_eq]
  refine follows_bind (follows_inStores (within_applyPatchOperations (A := IsRead) trivial)
    fun l' o _ ho => .inl ho)
    (fun _ _ _ _ => trivial) fun l₂ p hl₂ hends => ?_
  obtain ⟨copy, touched⟩ := p
  obtain ⟨l', hends⟩ := hends
  -- the fields touched are all off in the copy
  have hoff : Off updates touched copy := off_of_patched h (ends_applyPatchOperations hends).2
  dsimp only
  by_cases htouched : touched = []
  · rw [if_pos htouched]
    exact follows_pure trivial
  · rw [if_neg htouched]
    rw [inStores_call]
    refine follows_act_bind (.inl trivial) (fun _ => trivial) fun now => ?_
    rw [inStores_call]
    refine follows_act_bind (.inr (.inr (.inl ⟨_, now, rfl, updateFields_off hoff⟩)))
      (fun _ => trivial) fun before => ?_
    rw [inStores_call]
    refine follows_act_bind (.inr (.inl rfl)) (fun _ => trivial) fun after => ?_
    have hbefore :
      (⟨.store (.findOneAndUpdate pid (fieldsUpdate env newID now touched copy)),
        .ok before⟩ : patchCalls.sig.Act) ∈
        l₂ ++ [⟨.store .now, .ok now⟩] ++
        [⟨.store (.findOneAndUpdate pid (fieldsUpdate env newID now touched copy)), .ok before⟩] ++
          [⟨.store (.findAfter pid), .ok after⟩] := by simp
    refine follows_attempt_bind (follows_inStores (within_fields hoff) fun l' o _ ho => .inr
      (.inr (.inr ho)))
      fun l₃ cacheErr hl₃ _ => ?_
    -- nothing is appended: the default rule is not among what turns off
    refine follows_attempt_bind (follows_inStores (within_append hoff) fun l' o _ ho => ho.elim)
      fun l₄ addErr hl₄ _ => ?_
    refine follows_seq (follows_transitions hoff ((hl₃.trans hl₄).subset hbefore)) fun l₅ _ _ => ?_
    cases cacheErr with
    | error e => exact follows_throw trivial
    | ok _ =>
      cases addErr with
      | error e => exact follows_throw trivial
      | ok _ => exact follows_pure trivial

end Calls

section Steps

variable {ι W Body : Type} {pid : String} {updates : List (RawUpdate (Option W))}
  {l : List patchCalls.sig.Act} {s s' : PatchStores}

/-- What one of those calls does. -/
theorem turnOffStep_effect {o : PatchOp} (h : TurnOffOp pid updates l o) :
    TurnOffStep pid updates l s (o.effect s) := by
  cases o with
  | store o =>
    rcases h with h | rfl | ⟨upd, now, rfl, hupd⟩ | ⟨hash, hh, rfl⟩
    · rw [PatchOp.effect, effect_read h]
      exact .same
    · exact .same
    · have heq : (fun p => updateFields p upd) = Profile.turnOff (decide (StatisticsOff updates))
        (decide (LogsOff updates)) now :=
        funext hupd
      rw [PatchOp.effect, ProfileOp.effect, heq]
      exact .profile now
    · exact .field hash hh
  | incr key =>
    obtain ⟨scope, pid'⟩ := key
    obtain ⟨rfl, hscope⟩ := h
    exact .generation scope hscope
  | deleteProfileStatistics _ => exact .same
  | deleteQueryLogs _ => exact .same
  | trimProfileDailyStatistics _ _ => exact .same
  | trimQueryLogs _ _ => exact .same

theorem turnOffStep_handled {i : ι} {o : PatchOp} {c : PatchChoice} {r : Except ServiceErr o.Ans}
    (h : TurnOffOp pid updates l o) (hc : patchHandler i o c s = some (r, s')) :
    TurnOffStep pid updates l s s' := by
  obtain ⟨r', -, heq⟩ := Option.map_eq_some_iff.1 hc
  obtain ⟨rfl, rfl⟩ := Prod.mk.inj heq
  unfold PatchStores.act
  split
  · exact turnOffStep_effect h
  · exact .same

/-- **The exemption only turns off.** In whatever run a PATCH takes part that the guard lets pass,
each of its steps leaves the stores as they are, turns off what its operations name in the stored
profile or in Redis, or counts up the generation of caches whose data it has found on and turned
off. And the guard lets a PATCH of a profile pass whose operations, one at least, all turn off: a
value that is nil when it has been unwrapped apart, though the service reads it as false. -/
theorem turn_off_only [DecidableEq ι] (env : ServiceEnv) (casts : Casts (Option W))
    (newID : ℕ → RuleID) (accountId pid : String)
    (unmarshal : Body → Option (List (RawUpdate (Option W)))) :
    (∀ method path body updates, unmarshal body = some updates →
      isTurnOffOnly casts unmarshal method path body = true →
      ∀ (P R R' : Pool patchCalls.sig ι PatchStores (Except ServiceErr Profile)) es
        (e : Event patchCalls.sig ι),
        P.prog e.who = (updateProfileWithTransitions env casts newID accountId pid updates).run →
        Run patchHandler Free P es R → Step patchHandler R e R' →
        TurnOffStep pid updates (trace e.who es) R.state R'.state) ∧
    (∀ id body updates, id ≠ "" → contains id "/" = false → unmarshal body = some updates →
      updates ≠ [] →
      (∀ u ∈ updates, u.operation = "replace" ∧ u.path ∈ turnOffPaths ∧ u.ReadsFalse casts ∧
        unwrapped casts u.value ≠ none) →
      isTurnOffOnly casts unmarshal "PATCH" ("/api/v1/profiles/" ++ id) body = true) := by
  constructor
  · intro method path body updates hbody haccepted P R R' es e hprog hrun hstep
    have hflow : Follows (TurnOffOp pid updates) (fun _ _ => True)
        (updateProfileWithTransitions env casts newID accountId pid updates) [] :=
      follows_turnOff (isTurnOffOnly_body hbody haccepted)
    have hcalls := follows_run hflow
    rw [← hprog] at hcalls
    obtain ⟨k, c, s, hp, hc, rfl⟩ := step_iff.1 hstep
    have hpath := path_snoc (r := e.res) (run_path hrun e.who) hp
    -- whatever the interleaving, the calls of the PATCH are those of its own path
    have hop := meets_mid hcalls hpath
    rw [List.nil_append] at hop
    exact turnOffStep_handled hop hc
  · intro id body updates hid hslash hbody hne hall
    exact isTurnOffOnly_of hid hslash hbody hne fun u hu => isTurnOff_iff.2 (hall u hu)

/-- The values of a request that are booleans, plain or wrapped; `none` is a null. -/
inductive SwitchValue where
  | bool (b : Bool)
  | wrapped (b : Option Bool)
  deriving DecidableEq

def switchCasts : Casts (Option SwitchValue) where
  toBoolE
    | none => some false
    | some (.bool b) => some b
    | some (.wrapped _) => none
  toStringE
    | none => some ""
    | some (.bool b) => some (if b then "true" else "false")
    | some (.wrapped _) => none
  toStringMapE
    | some (.wrapped b) => some fun key => if key = "value" then b.map .bool else none
    | _ => none

/-- A PATCH that sets the switch of the statistics. -/
def statisticsSwitch (v : Option SwitchValue) : List (RawUpdate (Option SwitchValue)) :=
  [⟨"replace", "/settings/statistics/enabled", v⟩]

/-- A profile whose statistics are on. -/
def countedProfile : Profile :=
  { oneProfile with settings.statistics := ⟨true, some 1, none, none, statisticsRetention30d⟩ }

def countedStores : PatchStores := ⟨{ oneStores with profiles := [countedProfile] }, fun _ => 0⟩

def statisticsOffPool : Pool patchCalls.sig (Fin 1) PatchStores (Except ServiceErr Profile) :=
  ⟨countedStores,
    fun _ => (updateProfileWithTransitions exampleEnv switchCasts id "a" "p"
      (statisticsSwitch (some (.bool false)))).run⟩

/-- The read, and the clock. -/
def beforeWrite : List (Fin 1 × PatchChoice) := [(thread 0, .call .ok), (thread 0, .call (.time 5))]

theorem beforeWrite_plays :
    (play patchHandler Free beforeWrite statisticsOffPool).isSome := by decide

theorem write_fires :
    (fire patchHandler Free
      ((play patchHandler Free beforeWrite statisticsOffPool).get beforeWrite_plays).2
    (thread 0) (.call .ok)).isSome := by decide

theorem turn_off_only_statistics :
    ∃ es e R R', Run patchHandler Free statisticsOffPool es R ∧ Step patchHandler R e R' ∧
      TurnOffStep "p" (statisticsSwitch (some (.bool false))) (trace e.who es) R.state R'.state ∧
      (R'.state.stores.find "p").map (·.settings.statistics) = some
      ⟨false, none, none, some 5, statisticsRetention30d⟩ := by
  have hrun := run_play beforeWrite_plays
  have hstep := (step_of_fire (Option.some_get write_fires).symm).2
  refine ⟨_, _, _, _, hrun, hstep, ?_, by decide⟩
  exact (turn_off_only exampleEnv switchCasts id "a" "p" some).1 "PATCH" "/api/v1/profiles/p"
    (statisticsSwitch (some (.bool false))) _ rfl (by decide) _ _ _ _ _ rfl hrun hstep

/-- The calls after the update: the read of the document, Redis, the purge and the generation. -/
def statisticsOffSchedule : List (Fin 1 × PatchChoice) :=
  beforeWrite ++ List.replicate 5 (thread 0, .call .ok)

theorem statisticsOff_plays :
    (play patchHandler Free statisticsOffSchedule statisticsOffPool).isSome := by decide

/-- The purge that comes with the switch counts up the generation of the cached statistics. And the
guard accepts neither the empty list of updates, nor a null inside an object, which the service
reads as false. -/
theorem generation_written :
    (isTurnOffOnly switchCasts some "PATCH" "/api/v1/profiles/p"
      (statisticsSwitch (some (.bool false))) = true ∧
      ∃ es Q, Run patchHandler Free statisticsOffPool es Q ∧
        Q.state.generations ⟨.statisticsRead, "p"⟩ ≠ countedStores.generations
          ⟨.statisticsRead, "p"⟩) ∧
      isTurnOffOnly switchCasts some "PATCH" "/api/v1/profiles/p" [] = false ∧
      (∀ u ∈ statisticsSwitch (some (.wrapped none)), u.ReadsFalse switchCasts) ∧
      isTurnOffOnly switchCasts some "PATCH" "/api/v1/profiles/p"
      (statisticsSwitch (some (.wrapped none))) = false :=
  ⟨⟨by decide, _, _, run_play statisticsOff_plays, by decide⟩, by
    decide, fun u hu => by cases List.mem_singleton.1 hu; rfl,
    by decide⟩

end Steps

end ModDNS.Profiles
