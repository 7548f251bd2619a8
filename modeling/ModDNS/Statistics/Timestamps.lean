import Mathlib.Data.Option.Basic
import Mathlib.Order.Lattice
import ModDNS.Profiles.Creation
import ModDNS.Profiles.Imports

/-!
# The instants of the statistics

`enabled_at`, `history_deleted_at` and `disabled_at` are written together with `enabled`, from the
stored document. Two more writes change one of them: the deletion of the history, and the removal of
a `disabled_at` that the purge needs no more.

* `onPeriod`: what a run says about the current on-period, from the changes of `enabled` alone.
* `patched_instants`: the write of a PATCH.
* `timestamps`: after every run the three instants are those of the on-period.
-/

namespace ModDNS.Statistics

open Conc Profiles Rules

section Writes

variable (env : ServiceEnv)

/-- `SetStatisticsHistoryDeletedAt`, on a document: the filter asks for statistics that are on. -/
def setStatisticsHistoryDeletedAt (p : Profile) (instant : ℕ) : Profile :=
  if p.settings.statistics.enabled then
    { p with settings.statistics.historyDeletedAt := some instant } else p

/-- `UnsetStatisticsDisabledAtBefore`, on a document. -/
def unsetStatisticsDisabledAtBefore (p : Profile) (before : ℕ) : Profile :=
  if p.settings.statistics.disabledAt.any (· < before) then
    { p with settings.statistics.disabledAt := none } else p

/-- The updates of a stored profile. A PATCH brings the touched paths and the validated copy, with
the instant at which the service has read its clock. -/
inductive Write where
  | patch (newID : ℕ → RuleID) (now : ℕ) (touched : List PatchPath) (copy : Profile)
  | setHistoryDeletedAt (instant : ℕ)
  | unsetDisabledAtBefore (before : ℕ)
  | edit (e : ProfileEdit)

def Write.run (p : Profile) : Write → Profile
  | .patch newID now touched copy => updateFields p (fieldsUpdate env newID now touched copy)
  | .setHistoryDeletedAt instant => setStatisticsHistoryDeletedAt p instant
  | .unsetDisabledAtBefore before => unsetStatisticsDisabledAtBefore p before
  | .edit e => e.run p

/-- The document after a list of writes. -/
def after (p : Profile) (ws : List Write) : Profile := ws.foldl (Write.run env) p

/-- The clock of a write that stores it. -/
def Write.clock : Write → Option ℕ
  | .patch _ now _ _ => some now
  | .setHistoryDeletedAt instant => some instant
  | _ => none

/-- The instant of a deletion of the history. -/
def Write.deletion : Write → Option ℕ
  | .setHistoryDeletedAt instant => some instant
  | _ => none

/-- A time in which the statistics are on: since when, the `disabled_at` of the time before, and the
last deletion of the history in it. -/
structure OnPeriod where
  since : ℕ
  consumed : Option ℕ
  lastDeletion : Option ℕ
  deriving DecidableEq

/-- The on-period after a write of `stored`. -/
def Write.period (stored : Profile) (o : Option OnPeriod) (w : Write) : Option OnPeriod :=
  match stored.settings.statistics.enabled, (w.run env stored).settings.statistics.enabled with
  | true, true => o.map fun o => { o with lastDeletion := w.deletion.or o.lastDeletion }
  | false, true => w.clock.map fun t => ⟨t, stored.settings.statistics.disabledAt, none⟩
  | _, false => none

/-- The current on-period after a list of writes; `o` is the one in which they start. -/
def onPeriod (p : Profile) (o : Option OnPeriod) : List Write → Option OnPeriod
  | [] => o
  | w :: ws => onPeriod (w.run env p) (w.period env p o) ws

/-- The later of two instants, of which there may be none. -/
def later : Option ℕ → Option ℕ → Option ℕ := Option.merge max

variable {env} {p : Profile} {o : Option OnPeriod} {w : Write} {ws : List Write}

theorem after_concat : after env p (ws ++ [w]) = w.run env (after env p ws) := by
  unfold after
  rw [List.foldl_append]
  rfl

theorem onPeriod_concat :
    onPeriod env p o (ws ++ [w]) = w.period env (after env p ws) (onPeriod env p o ws) := by
  induction ws generalizing p o with
  | nil => rfl
  | cons w' ws ih => exact ih

end Writes

section Patch

variable {env : ServiceEnv} {newID : ℕ → RuleID} {now : ℕ} {touched : List PatchPath}
  {stored copy : Profile}

/-- A path is written from the copy as often as it is touched, always with the same value. -/
theorem value_copied (stored copy : Profile) {path : PatchPath} (h : path ∈ touched) :
    ((touched.map fun path => (path, copy.value path)).foldl
      (fun p f => p.set f.1 f.2) stored).value path =
      copy.value path := by
  induction touched using List.reverseRecOn with
  | nil => cases h
  | append_singleton touched path' ih =>
    rw [List.map_append, List.foldl_append, List.map_singleton, List.foldl_cons, List.foldl_nil]
    by_cases hpath : path = path'
    · subst hpath
      exact typed_value copy path _
    · rw [value_set_ne _ _ hpath]
      refine ih ?_
      simpa [hpath] using h

theorem value_patched :
    (updateFields stored (fieldsUpdate env newID now touched copy)).settings.statistics.enabled =
      if .statisticsEnabled ∈ touched then copy.settings.statistics.enabled
      else stored.settings.statistics.enabled := by
  have hvalue : ∀ p q : Profile, p.value .statisticsEnabled = q.value .statisticsEnabled →
      p.settings.statistics.enabled = q.settings.statistics.enabled := fun p q h =>
        FieldValue.bool.inj h
  have hset : (updateFields stored (fieldsUpdate env newID now touched copy)).value
    .statisticsEnabled =
      (setFields stored (fieldsUpdate env newID now touched copy)).value .statisticsEnabled := rfl
  split
  · next h => exact hvalue _ _ (by rw [hset, value_setFields]; exact value_copied stored copy h)
  · next h =>
    refine hvalue _ _ ?_
    rw [hset, value_setFields]
    refine value_sets_ne _ fun hmem => h ?_
    unfold fieldsUpdate at hmem
    rw [List.map_map] at hmem
    simpa using hmem

/-- The three instants of a document. -/
def instants (p : Profile) : Option ℕ × Option ℕ × Option ℕ :=
  (p.settings.statistics.enabledAt, p.settings.statistics.historyDeletedAt,
    p.settings.statistics.disabledAt)

theorem lookup_copied (path : PatchPath) :
    (touched.map fun path => (path, copy.value path)).lookup path =
    if path ∈ touched then some (copy.value path) else none := by
  induction touched with
  | nil => rfl
  | cons path' touched ih =>
    rw [List.map_cons, List.lookup_cons, ih]
    by_cases h : path = path'
    · subst h
      simp
    · have hne : (path == path') = false := beq_false_of_ne h
      rw [hne]
      simp [h]

theorem instants_set (p : Profile) (path : PatchPath) (v : FieldValue) :
    instants (p.set path v) = instants p := by
  cases path <;> cases v <;> rfl

/-- **The instants after a PATCH**: those of the switch if it touches `enabled`, and the stored ones
if not. -/
theorem patched_instants :
    instants (updateFields stored (fieldsUpdate env newID now touched copy)) =
    if .statisticsEnabled ∈ touched then
      stored.settings.statistics.switched copy.settings.statistics.enabled now
    else instants stored := by
  have hset : instants (updateFields stored (fieldsUpdate env newID now touched copy)) =
      instants (setFields stored (fieldsUpdate env newID now touched copy)) := rfl
  have hlookup : (fieldsUpdate env newID now touched copy).set.lookup .statisticsEnabled =
      if .statisticsEnabled ∈ touched then some (copy.value .statisticsEnabled) else none :=
        lookup_copied _
  rw [hset]
  unfold setFields
  rw [hlookup]
  by_cases h : .statisticsEnabled ∈ touched
  · rw [if_pos h, if_pos h]
    have hbool : (copy.value .statisticsEnabled == .bool true) =
        copy.settings.statistics.enabled := by
      show (FieldValue.bool copy.settings.statistics.enabled == .bool true) = _
      cases copy.settings.statistics.enabled <;> decide
    dsimp only
    rw [hbool]
    rfl
  · rw [if_neg h, if_neg h]
    dsimp only
    generalize (fieldsUpdate env newID now touched copy).set = l
    induction l using List.reverseRecOn with
    | nil => rfl
    | append_singleton l f ih =>
      rw [List.foldl_append, List.foldl_cons, List.foldl_nil, instants_set, ih]

end Patch

section Law

variable {env : ServiceEnv} {p : Profile} {o : Option OnPeriod} {w : Write} {ws : List Write}

/-- The instants are those of the on-period, or gone. -/
structure Timely (s : StatisticsSettings) (o : Option OnPeriod) : Prop where
  on : s.enabled = true → ∃ period, o = some period ∧ s.enabledAt = some period.since ∧
    s.disabledAt = none ∧
    s.historyDeletedAt = later period.consumed period.lastDeletion
  off : s.enabled = false → s.enabledAt = none ∧ s.historyDeletedAt = none

/-- The instants that a deletion of the history comes after. -/
structure Past (s : StatisticsSettings) (o : Option OnPeriod) (t : ℕ) : Prop where
  disabledAt : ∀ d, s.disabledAt = some d → d ≤ t
  consumed : ∀ period d, o = some period → period.consumed = some d → d ≤ t

theorem later_none (a : Option ℕ) : later a none = a := by
  cases a <;> rfl

theorem later_of_le {a : Option ℕ} {t : ℕ} (h : ∀ d, a = some d → d ≤ t) :
    later a (some t) = some t := by
  cases a with
  | none => rfl
  | some d => exact congrArg some (max_eq_right (h d rfl))

theorem statistics_edit (p : Profile) (e : ProfileEdit) :
    (e.run p).settings.statistics = p.settings.statistics := by
  cases e <;> rfl

/-- A write that leaves `enabled` as it is, within an on-period or outside of one. -/
theorem timely_unswitched {stored : Profile} (h : Timely stored.settings.statistics o)
    (henabled : (w.run env stored).settings.statistics.enabled = stored.settings.statistics.enabled)
    (hdeletion : stored.settings.statistics.enabled = true → w.deletion = none)
    (hinstants : (w.run env stored).settings.statistics.enabledAt =
      stored.settings.statistics.enabledAt ∧
      (w.run env stored).settings.statistics.historyDeletedAt =
      stored.settings.statistics.historyDeletedAt)
    (hdisabled : stored.settings.statistics.disabledAt = none →
      (w.run env stored).settings.statistics.disabledAt = none) :
    Timely (w.run env stored).settings.statistics (w.period env stored o) := by
  obtain ⟨hsince, hdeleted⟩ := hinstants
  constructor
  · intro hon
    rw [henabled] at hon
    obtain ⟨period, rfl, hat, hoff, hhistory⟩ := h.on hon
    refine ⟨period, ?_, hsince.trans hat, hdisabled hoff, hdeleted.trans hhistory⟩
    unfold Write.period
    rw [henabled, hon, hdeletion hon]
    rfl
  · intro hoff
    rw [henabled] at hoff
    obtain ⟨hat, hhistory⟩ := h.off hoff
    exact ⟨hsince.trans hat, hdeleted.trans hhistory⟩

/-- The write of a PATCH that touches `enabled`. -/
theorem timely_switched {stored : Profile} {t : ℕ} {enabled : Bool}
    (h : Timely stored.settings.statistics o) (hclock : w.clock = some t)
    (hdeletion : w.deletion = none)
    (henabled : (w.run env stored).settings.statistics.enabled = enabled)
    (hinstants : instants (w.run env stored) = stored.settings.statistics.switched enabled t) :
    Timely (w.run env stored).settings.statistics (w.period env stored o) := by
  have hinst : ∀ {a b c : Option ℕ}, stored.settings.statistics.switched enabled t = (a, b, c) →
      (w.run env stored).settings.statistics.enabledAt = a ∧
        (w.run env stored).settings.statistics.historyDeletedAt = b ∧
        (w.run env stored).settings.statistics.disabledAt = c := by
    intro a b c heq
    rw [heq] at hinstants
    unfold instants at hinstants
    simpa using hinstants
  cases hstored : stored.settings.statistics.enabled <;> cases enabled
  -- turned off: the period ends, and its end is noted
  case true.false =>
    obtain ⟨hat, hhistory, -⟩ :=
      hinst (a := none) (b := none) (c := some t)
        (by unfold StatisticsSettings.switched; rw [hstored])
    refine ⟨fun hon => ?_, fun _ => ⟨hat, hhistory⟩⟩
    rw [henabled] at hon
    cases hon
  -- turned on: a period starts, with the deletion that the last end stands for
  case false.true =>
    obtain ⟨hat, hhistory, hdisabled⟩ :=
      hinst (a := some t) (b := stored.settings.statistics.disabledAt) (c := none)
      (by unfold StatisticsSettings.switched; rw [hstored])
    refine ⟨fun _ => ⟨⟨t, stored.settings.statistics.disabledAt, none⟩, ?_, hat, hdisabled, ?_⟩,
      fun hoff => ?_⟩
    · unfold Write.period
      rw [hstored, henabled, hclock]
      rfl
    · rw [hhistory, later_none]
    · rw [henabled] at hoff
      cases hoff
  -- named but not changed
  all_goals
    obtain ⟨hat, hhistory, hdisabled⟩ := hinst (a := stored.settings.statistics.enabledAt)
      (b := stored.settings.statistics.historyDeletedAt)
      (c := stored.settings.statistics.disabledAt)
      (by unfold StatisticsSettings.switched; rw [hstored])
    refine timely_unswitched h (henabled.trans hstored.symm) (fun _ => hdeletion) ⟨hat, hhistory⟩
      fun hnone => ?_
    exact hdisabled.trans hnone

/-- **One write.** -/
theorem timely_write (h : Timely p.settings.statistics o)
    (hpast : ∀ t, w.clock = some t → Past p.settings.statistics o t) :
    Timely (w.run env p).settings.statistics (w.period env p o) := by
  cases w with
  -- a PATCH that names `enabled` may start or end a period
  | patch newID now touched copy =>
    have henabled : ((Write.patch newID now touched copy).run env p).settings.statistics.enabled =
        _ := value_patched
    have hinstants : instants ((Write.patch newID now touched copy).run env p) = _ :=
      patched_instants
    split at henabled
    · next htouched =>
      rw [if_pos htouched] at hinstants
      exact timely_switched h rfl rfl henabled hinstants
    · next htouched =>
      rw [if_neg htouched] at hinstants
      unfold instants at hinstants
      simp only [Prod.mk.injEq] at hinstants
      obtain ⟨hat, hhistory, hdisabled⟩ := hinstants
      exact timely_unswitched h henabled (fun _ => rfl) ⟨hat, hhistory⟩ fun hnone =>
        hdisabled.trans hnone
  -- a deletion is noted only while statistics are on
  | setHistoryDeletedAt t =>
    cases hstored : p.settings.statistics.enabled with
    | true =>
      obtain ⟨period, rfl, hat, hdisabled, -⟩ := h.on hstored
      have hrun : (Write.setHistoryDeletedAt t).run env p =
          { p with settings.statistics.historyDeletedAt := some t } := if_pos hstored
      refine ⟨fun _ => ⟨{ period with lastDeletion := some t }, ?_, ?_, ?_, ?_⟩, fun hoff => ?_⟩
      · unfold Write.period
        rw [hrun]
        dsimp only
        rw [hstored]
        rfl
      · rw [hrun]
        exact hat
      · rw [hrun]
        exact hdisabled
      · rw [hrun, later_of_le fun d => (hpast t rfl).consumed period d rfl]
      · rw [hrun] at hoff
        exact absurd (hstored.symm.trans hoff) Bool.noConfusion
    | false =>
      have hrun : (Write.setHistoryDeletedAt t).run env p = p :=
        if_neg (by rw [hstored]; exact Bool.noConfusion)
      refine timely_unswitched h (by rw [hrun]) (fun hon => ?_) (by rw [hrun]; exact ⟨rfl, rfl⟩)
        (by rw [hrun]; exact id)
      rw [hstored] at hon
      cases hon
  -- the clean-up removes an end that is old enough, and nothing else
  | unsetDisabledAtBefore before =>
    have hrun : (Write.unsetDisabledAtBefore before).run env p =
        unsetStatisticsDisabledAtBefore p before := rfl
    unfold unsetStatisticsDisabledAtBefore at hrun
    split at hrun
    · exact timely_unswitched h (by rw [hrun]) (fun _ => rfl) (by rw [hrun]; exact ⟨rfl, rfl⟩)
        (by rw [hrun]; exact fun _ => rfl)
    · exact timely_unswitched h (by rw [hrun]) (fun _ => rfl) (by rw [hrun]; exact ⟨rfl, rfl⟩)
        (by rw [hrun]; exact id)
  | edit e =>
    have hrun : ((Write.edit e).run env p).settings.statistics = p.settings.statistics :=
      statistics_edit p e
    exact timely_unswitched h (by rw [hrun]) (fun _ => rfl) (by rw [hrun]; exact ⟨rfl, rfl⟩)
      (by rw [hrun]; exact id)

theorem disabledAt_write {d : ℕ} (h : (w.run env p).settings.statistics.disabledAt = some d) :
    p.settings.statistics.disabledAt = some d ∨ w.clock = some d := by
  cases w with
  | patch newID now touched copy =>
    have hinstants : instants ((Write.patch newID now touched copy).run env p) = _ :=
      patched_instants
    have hdisabled := congrArg (·.2.2) hinstants
    replace hdisabled := h.symm.trans hdisabled
    unfold StatisticsSettings.switched at hdisabled
    split at hdisabled
    · split at hdisabled
      · exact .inl hdisabled.symm
      · cases hdisabled
      · exact .inr hdisabled.symm
      · exact .inl hdisabled.symm
    · exact .inl hdisabled.symm
  | setHistoryDeletedAt t =>
    have hrun : (Write.setHistoryDeletedAt t).run env p = setStatisticsHistoryDeletedAt p t := rfl
    rw [hrun] at h
    unfold setStatisticsHistoryDeletedAt at h
    split at h <;> exact .inl h
  | unsetDisabledAtBefore before =>
    have hrun : (Write.unsetDisabledAtBefore before).run env p =
        unsetStatisticsDisabledAtBefore p before := rfl
    rw [hrun] at h
    unfold unsetStatisticsDisabledAtBefore at h
    split at h
    · cases h
    · exact .inl h
  | edit e => exact .inl ((congrArg (·.disabledAt) (statistics_edit p e)).symm.trans h)

theorem past_write {t : ℕ} (h : Past p.settings.statistics o t)
    (hw : ∀ c, w.clock = some c → c ≤ t) :
    Past (w.run env p).settings.statistics (w.period env p o) t := by
  constructor
  · intro d hd
    rcases disabledAt_write hd with hd | hd
    · exact h.disabledAt d hd
    · exact hw d hd
  · intro period d hperiod hd
    unfold Write.period at hperiod
    split at hperiod
    · obtain ⟨o', ho, rfl⟩ := Option.map_eq_some_iff.1 hperiod
      exact h.consumed o' d ho hd
    · obtain ⟨t', -, rfl⟩ := Option.map_eq_some_iff.1 hperiod
      exact h.disabledAt d hd
    · cases hperiod

/-- **A run of writes** whose clocks do not go back. -/
theorem timely_after (h : Timely p.settings.statistics o)
    (hpast : ∀ t, Past p.settings.statistics o t)
    (hclocks : (ws.filterMap Write.clock).Pairwise (· ≤ ·)) :
    Timely (after env p ws).settings.statistics (onPeriod env p o ws) ∧
      ∀ t, (∀ c ∈ ws.filterMap Write.clock, c ≤ t) →
        Past (after env p ws).settings.statistics (onPeriod env p o ws) t := by
  induction ws using List.reverseRecOn with
  | nil => exact ⟨h, fun t _ => hpast t⟩
  | append_singleton ws w ih =>
    rw [List.filterMap_append, List.pairwise_append] at hclocks
    obtain ⟨hws, -, hlast⟩ := hclocks
    obtain ⟨htimely, hpast⟩ := ih hws
    have hclock : ∀ {t}, w.clock = some t → t ∈ [w].filterMap Write.clock := fun ht =>
      List.mem_filterMap.2 ⟨w, List.mem_singleton_self w, ht⟩
    rw [after_concat, onPeriod_concat]
    refine ⟨timely_write htimely fun t ht => hpast t fun c hc => hlast c hc t (hclock ht),
      fun t ht => ?_⟩
    rw [List.filterMap_append] at ht
    refine past_write (hpast t fun c hc => ht c (List.mem_append_left _ hc)) fun c hc => ?_
    exact ht c (List.mem_append_right _ (hclock hc))

end Law

section Born

variable {env : ServiceEnv} {p : Profile}

/-- The profiles that come into being, with the instant since which their statistics are on. -/
inductive Born (env : ServiceEnv) (p : Profile) : Option ℕ → Prop where
  | created {name accountId : String} {l : Acts}
      {q : Prog profileCalls.sig (Except ServiceErr Profile)}
      {r : Except ServiceErr Unit} :
      Path (S := profileCalls.sig) (createProfile env name accountId).run
        (l ++ [⟨.createProfile p, r⟩]) q → Born env p none
  | imported {decode : String → Option String} {accountId mode : String} {newID : ℕ → ℕ → RuleID}
      {payload : ExportEnvelope}
      {l : Acts} {q : Prog profileCalls.sig (Except ServiceErr ImportResult)}
      {r : Except ServiceErr Unit} :
      Path (S := profileCalls.sig) (importProfiles env decode accountId newID mode payload).run
        (l ++ [⟨.createProfile p, r⟩]) q →
      Born env p (if p.settings.statistics.enabled then lastNow l else none)

/-- The on-period in which a profile comes into being. -/
def bornOn (since : Option ℕ) : Option OnPeriod := since.map fun t => ⟨t, none, none⟩

/-- A new profile has the statistics of the defaults. -/
def NewStatistics : ProfileOp → Prop
  | .createProfile p => p.settings.statistics = newSettings.statistics
  | _ => True

theorem within_createProfile (name accountId : String) :
    Within NewStatistics (createProfile env name accountId) := by
  refine within_bind within_ensure fun _ => within_bind within_ensure fun _ =>
    within_bind (within_act trivial) fun pid => ?_
  have hcreate : Within NewStatistics (createSettings pid) := by
    refine within_bind (within_act trivial) fun blocklists => within_bind ?_ fun _ => within_pure
    exact within_mono (fun o ho => by cases o <;> trivial) (within_settingsCache _)
  refine within_bind_ends hcreate fun l settings hends => ?_
  obtain ⟨l₁, l₂, blocklists, -, -, hwrite⟩ := ends_flow_bind_ok hends
  obtain ⟨l₃, l₄, u, -, -, hreturn⟩ := ends_flow_bind_ok hwrite
  obtain ⟨-, hsettings⟩ := ends_flow_pure hreturn
  cases hsettings
  refine within_bind (within_act trivial) fun profiles => within_bind within_ensure fun _ => ?_
  refine within_bind within_ensure fun _ => within_bind (within_act ?_) fun _ => within_pure
  exact rfl

theorem timely_new {s : StatisticsSettings} (h : s = newSettings.statistics) : Timely s none := by
  subst h
  exact ⟨fun hon => (nomatch hon), fun _ => ⟨rfl, rfl⟩⟩

/-- How a profile comes into being. -/
theorem timely_born {since : Option ℕ} (h : Born env p since) :
    Timely p.settings.statistics (bornOn since) ∧ ∀ t, Past p.settings.statistics
      (bornOn since) t := by
  -- a new profile has no earlier time in it
  have hnew : ∀ {s : StatisticsSettings} {o : Option OnPeriod}, s.disabledAt = none →
    (∀ period, o = some period → period.consumed = none) →
      ∀ t, Past s o t := by
    intro s o hs ho t
    refine ⟨fun d hd => ?_, fun period d hperiod hd => ?_⟩
    · rw [hs] at hd
      cases hd
    · rw [ho period hperiod] at hd
      cases hd
  cases h with
  | @created name accountId l q r hpath =>
    have hcall : NewStatistics (.createProfile p) :=
      within_path (within_createProfile name accountId) hpath _
        (List.mem_append_right _ (List.mem_singleton_self _))
    refine ⟨timely_new hcall, hnew ?_ fun period hperiod => nomatch hperiod⟩
    rw [show p.settings.statistics = _ from hcall]
    rfl
  -- an import that turns statistics on starts a period of its own
  | @imported decode accountId mode newID payload l q r hpath =>
    have hfollows : Follows (ImportCall env accountId newID payload) _
      (importProfiles env decode accountId newID mode payload) [] :=
      follows_importProfiles mode
    have hinserts : Inserts env accountId payload ([] ++ l) p :=
      meets_mid (follows_run hfollows) hpath
    rw [List.nil_append] at hinserts
    rcases hinserts.statistics with hdefault | ⟨t, hnow, hon⟩
    · have hoff : p.settings.statistics.enabled = false := by rw [hdefault]; rfl
      rw [if_neg (by rw [hoff]; exact Bool.noConfusion)]
      refine ⟨timely_new hdefault, hnew ?_ fun period hperiod => nomatch hperiod⟩
      rw [hdefault]
      rfl
    · have henabled : p.settings.statistics.enabled = true := by rw [hon]
      rw [if_pos henabled, hnow]
      refine ⟨⟨fun _ => ⟨⟨t, none, none⟩, rfl, ?_, ?_, ?_⟩, fun hoff => ?_⟩, hnew ?_ ?_⟩
      · rw [hon]
      · rw [hon]
        rfl
      · rw [hon]
        rfl
      · exact absurd (henabled.symm.trans hoff) Bool.noConfusion
      · rw [hon]
        rfl
      · intro period hperiod
        cases hperiod
        rfl

/-- **The instants of the statistics.** After every run of writes whose clocks do not go back: while
the statistics are on, `enabled_at` is the instant of the last turn-on, or of the import, there is
no `disabled_at`, and `history_deleted_at` is the later of the last deletion of the history since
then and the `disabled_at` that the turn-on has found; while they are off, there is neither an
`enabled_at` nor a `history_deleted_at`. A PATCH with the stored value of `enabled` changes none of
the three. -/
theorem timestamps {since : Option ℕ} {ws : List Write} (hborn : Born env p since)
    (hclocks : (ws.filterMap Write.clock).Pairwise (· ≤ ·)) :
    Timely (after env p ws).settings.statistics (onPeriod env p (bornOn since) ws) ∧
      ∀ newID now touched copy, copy.settings.statistics.enabled =
        (after env p ws).settings.statistics.enabled →
        instants ((Write.patch newID now touched copy).run env (after env p ws)) = instants
        (after env p ws) := by
  obtain ⟨htimely, hpast⟩ := timely_born hborn
  refine ⟨(timely_after htimely hpast hclocks).1, fun newID now touched copy hsame => ?_⟩
  have hinstants : instants ((Write.patch newID now touched copy).run env (after env p ws)) = _ :=
    patched_instants
  rw [hinstants, hsame]
  split
  · unfold StatisticsSettings.switched
    cases (after env p ws).settings.statistics.enabled <;> rfl
  · rfl

/-- A new profile of an account without profiles. -/
def newOffice : Profile := ⟨"q", "a", "office", { newSettings with profileId := "q" }⟩

def createOffice : Option (Acts × Except ServiceErr Profile × Stores) :=
  (createProfile exampleEnv "office" "a").run.exec profileHandler ()
  (.id "q" :: List.replicate 12 .ok) freshStores

theorem createOffice_plays : createOffice.isSome := by decide

theorem newOffice_born : Born exampleEnv newOffice none := by
  have hexec : Exec profileHandler () (createProfile exampleEnv "office" "a").run freshStores
      (createOffice.get createOffice_plays).1 (createOffice.get createOffice_plays).2.1
        (createOffice.get createOffice_plays).2.2 :=
    exec_of_choices (Option.some_get createOffice_plays).symm
  have hlast : (createOffice.get createOffice_plays).1 =
      (createOffice.get createOffice_plays).1.dropLast ++ [⟨.createProfile newOffice, .ok ()⟩] :=
        rfl
  have hpath := exec_path hexec
  rw [hlast] at hpath
  exact .created hpath

/-- On at 3, the history deleted at 5, off at 8, a deletion that comes too late, and on again at
9. -/
def switches : List Write :=
  let copy (enabled : Bool) : Profile := { newOffice with settings.statistics.enabled := enabled }
  [.patch id 3 [.statisticsEnabled] (copy true), .setHistoryDeletedAt 5,
    .patch id 8 [.statisticsEnabled] (copy false),
    .setHistoryDeletedAt 8, .patch id 9 [.statisticsEnabled] (copy true)]

theorem timestamps_switches :
    onPeriod exampleEnv newOffice (bornOn none) switches = some ⟨9, some 8, none⟩ ∧
    Timely (after exampleEnv newOffice switches).settings.statistics
      (onPeriod exampleEnv newOffice (bornOn none) switches) := by
  refine ⟨by decide, (timestamps newOffice_born ?_).1⟩
  decide

end Born

end ModDNS.Statistics
