import ModDNS.Conc.Triple
import ModDNS.Profiles.Mirror
import ModDNS.Profiles.RuleRows

/-!
# The mirror during a request

A request whose calls do not fail writes to Mongo, and then sends the commands that go with it.
Until it has sent the last one, it owes Redis those that are left.

* `Mirrors`: the keys of every profile show its document.
* `Owes`: they will, when the commands that are left have been sent.
* `lands_edit`, `lands_send`: an edit owes its commands, and a pipeline sends them.
-/

namespace ModDNS.Profiles

open Conc Rules

section Mirror

/-- Every document has its id and its rules have theirs, and those of the profiles that are asked
for are shown. -/
structure MirrorsOn (asked : String → Prop) (s : Stores) : Prop where
  pids : (s.profiles.map (·.profileId)).Nodup
  sets : ∀ pid, (s.redis pid).customRules.Nodup
  named : ∀ p ∈ s.profiles, p.settings.profileId = p.profileId
  ids : ∀ p ∈ s.profiles, p.ruleIDs.Nodup
  shows : ∀ p ∈ s.profiles, asked p.profileId → (s.redis p.profileId).Shows p

/-- Every document is shown by the keys of its profile. -/
abbrev Mirrors : Stores → Prop := MirrorsOn fun _ => True

/-- The profiles that are asked for, without one of them. -/
def Without (asked : String → Prop) (pid : String) : String → Prop := fun pid' =>
    asked pid' ∧ pid' ≠ pid

/-- The keys of the profile will show its document when the commands have been sent. -/
structure Owes (asked : String → Prop) (pid : String) (cmds : List RedisCmd) (s : Stores) :
    Prop where
  others : MirrorsOn (Without asked pid) s
  will : ∀ p, s.find pid = some p → ((s.redis pid).after cmds).Shows p

variable {asked : String → Prop} {s : Stores} {pid : String} {p q : Profile} {cmd : RedisCmd}
  {cmds : List RedisCmd}

theorem mem_of_find (h : s.find pid = some p) : p ∈ s.profiles ∧ p.profileId = pid :=
  ⟨List.mem_of_find?_eq_some h, by simpa using List.find?_some h⟩

theorem MirrorsOn.mono {asked' : String → Prop} (h : MirrorsOn asked s)
    (himp : ∀ pid, asked' pid → asked pid) :
    MirrorsOn asked' s :=
  ⟨h.pids, h.sets, h.named, h.ids, fun p hp hasked => h.shows p hp (himp _ hasked)⟩

theorem MirrorsOn.others (h : MirrorsOn asked s) (pid : String) : MirrorsOn (Without asked pid) s :=
  h.mono fun _ => And.left

theorem Mirrors.shown (h : Mirrors s) (hp : s.find pid = some p) : (s.redis pid).Shows p := by
  obtain ⟨hmem, rfl⟩ := mem_of_find hp
  exact h.shows p hmem trivial

/-- A profile that owes nothing is shown. -/
theorem Owes.settled (h : Owes asked pid [] s) :
    MirrorsOn (fun pid' => asked pid' ∨ pid' = pid) s := by
  obtain ⟨h, hpid⟩ := h
  refine ⟨h.pids, h.sets, h.named, h.ids, fun p hp hasked => ?_⟩
  by_cases hid : p.profileId = pid
  · subst hid
    exact hpid p (find_of_mem h.pids hp)
  · exact h.shows p hp ⟨hasked.resolve_right hid, hid⟩

theorem Owes.mirrors (h : Owes asked pid [] s) : MirrorsOn asked s := h.settled.mono fun _ => .inl

/-- A command on the keys of a profile that need not be shown. -/
theorem MirrorsOn.redis (h : MirrorsOn (Without asked pid) s) (cmd : RedisCmd) :
    MirrorsOn (Without asked pid) ((ProfileOp.redis pid cmd).effect s) := by
  refine ⟨h.pids, fun pid' => ?_, h.named, h.ids, fun p hp hne => ?_⟩
  · by_cases hid : pid' = pid
    · subst hid
      have hself : ((ProfileOp.redis pid' cmd).effect s).redis pid' = cmd.run (s.redis pid') :=
        Function.update_self ..
      rw [hself]
      exact nodup_run (h.sets pid') cmd
    · have hother : ((ProfileOp.redis pid cmd).effect s).redis pid' = s.redis pid' :=
        Function.update_of_ne hid ..
      rw [hother]
      exact h.sets pid'
  · have hother : ((ProfileOp.redis pid cmd).effect s).redis p.profileId = s.redis p.profileId :=
      Function.update_of_ne hne.2 ..
    rw [hother]
    exact h.shows p hp hne

theorem Owes.sent (h : Owes asked pid (cmd :: cmds) s) :
    Owes asked pid cmds ((ProfileOp.redis pid cmd).effect s) := by
  refine ⟨h.others.redis cmd, fun p hp => ?_⟩
  have hself : ((ProfileOp.redis pid cmd).effect s).redis pid = cmd.run (s.redis pid) :=
    Function.update_self ..
  rw [hself]
  exact h.will p hp

/-- An update of one document. -/
theorem MirrorsOn.update (h : MirrorsOn asked s) {f : Profile → Profile} (hp : s.find pid = some p)
    (hf : ∀ p : Profile, (f p).profileId = p.profileId)
    (hnamed : (f p).settings.profileId = p.settings.profileId)
    (hids : (f p).ruleIDs.Nodup) (hcmds : ((s.redis pid).after cmds).Shows (f p)) :
    Owes asked pid cmds (s.onProfile pid f) := by
  have hone : ∀ p' ∈ s.profiles, p'.profileId = pid → p' = p := by
    rintro p' hp' rfl
    exact Option.some.inj ((find_of_mem h.pids hp').symm.trans hp)
  have hmem : ∀ q ∈ (s.onProfile pid f).profiles, (q = f p ∧ q.profileId = pid) ∨ q ∈ s.profiles ∧
      q.profileId ≠ pid := by
    intro q hq
    obtain ⟨p', hp', rfl⟩ := List.mem_map.1 hq
    by_cases hid : p'.profileId = pid
    · obtain rfl := hone p' hp' hid
      rw [if_pos hid]
      exact .inl ⟨rfl, (hf p').trans hid⟩
    · rw [if_neg hid]
      exact .inr ⟨hp', hid⟩
  obtain ⟨hin, hpid⟩ := mem_of_find hp
  refine ⟨⟨?_, h.sets, fun q hq => ?_, fun q hq => ?_, fun q hq hne => ?_⟩, fun q hq => ?_⟩
  · have hsame : (s.onProfile pid f).profiles.map (·.profileId) = s.profiles.map (·.profileId) := by
      simp only [Stores.onProfile, List.map_map]
      apply List.map_congr_left
      intro p' _
      simp only [Function.comp_apply]
      split
      · exact hf p'
      · rfl
    rw [hsame]
    exact h.pids
  · obtain ⟨rfl, hq⟩ | ⟨hq, -⟩ := hmem q hq
    · rw [hnamed, hf]
      exact h.named p hin
    · exact h.named q hq
  · obtain ⟨rfl, -⟩ | ⟨hq, -⟩ := hmem q hq
    · exact hids
    · exact h.ids q hq
  · obtain ⟨-, hq⟩ | ⟨hq, -⟩ := hmem q hq
    · exact absurd hq hne.2
    · exact h.shows q hq hne.1
  · rw [find_onProfile_self hf, hp] at hq
    obtain rfl := Option.some.inj hq
    exact hcmds

/-- The insertion of a document whose keys will show it. -/
theorem MirrorsOn.insert (h : MirrorsOn (Without asked p.profileId) s)
    (hnone : s.find p.profileId = none) (hnamed : p.settings.profileId = p.profileId)
    (hids : p.ruleIDs.Nodup) (hcmds : ((s.redis p.profileId).after cmds).Shows p) :
    Owes asked p.profileId cmds ((ProfileOp.createProfile p).effect s) := by
  have hnew : ∀ q ∈ s.profiles, q.profileId ≠ p.profileId := fun q hq heq => by
    simpa [heq] using List.find?_eq_none.1 hnone q hq
  have hmem : ∀ q ∈ ((ProfileOp.createProfile p).effect s).profiles, q ∈ s.profiles ∨ q = p := by
    intro q hq
    rcases List.mem_append.1 hq with hq | hq
    · exact .inl hq
    · exact .inr (List.mem_singleton.1 hq)
  refine ⟨⟨?_, h.sets, fun q hq => ?_, fun q hq => ?_, fun q hq hne => ?_⟩, fun q hq => ?_⟩
  · have hpids : ((ProfileOp.createProfile p).effect s).profiles.map (·.profileId) =
        s.profiles.map (·.profileId) ++ [p.profileId] := List.map_append
    rw [hpids]
    refine List.nodup_append.2 ⟨h.pids, List.nodup_singleton _, ?_⟩
    rintro a ha b hb rfl
    obtain ⟨q, hq, hqa⟩ := List.mem_map.1 ha
    exact hnew q hq (hqa.trans (List.mem_singleton.1 hb))
  · obtain hq | rfl := hmem q hq
    · exact h.named q hq
    · exact hnamed
  · obtain hq | rfl := hmem q hq
    · exact h.ids q hq
    · exact hids
  · obtain hq | rfl := hmem q hq
    · exact h.shows q hq hne
    · exact absurd rfl hne.2
  · obtain ⟨hq, hid⟩ := mem_of_find hq
    obtain hq | rfl := hmem q hq
    · exact absurd hid (hnew q hq)
    · exact hcmds

/-- Without its document a profile owes nothing. -/
theorem MirrorsOn.gone (h : MirrorsOn (Without asked pid) s) (hnone : s.find pid = none) :
    MirrorsOn asked s := by
  refine ⟨h.pids, h.sets, h.named, h.ids, fun p hp hasked => h.shows p hp ⟨hasked, ?_⟩⟩
  rintro rfl
  rw [find_of_mem h.pids hp] at hnone
  cases hnone

theorem MirrorsOn.delete (h : MirrorsOn asked s) :
    MirrorsOn asked ((ProfileOp.deleteProfileById pid).effect s) := by
  have hmem : ∀ q ∈ ((ProfileOp.deleteProfileById pid).effect s).profiles, q ∈ s.profiles :=
    fun q hq =>
    (List.mem_filter.1 hq).1
  exact ⟨h.pids.sublist (List.filter_sublist.map _), h.sets, fun q hq => h.named q (hmem q hq),
    fun q hq => h.ids q (hmem q hq),
    fun q hq => h.shows q (hmem q hq)⟩

end Mirror

section Working

variable {ι : Type} {i : ι} {s s' : Stores} {o : ProfileOp} {c : Choice}

/-- No call fails, and no id is drawn that a profile has. -/
def workingHandler : Handler profileCalls.sig ι Stores Choice := fun i o c s => match c with
  | .fail _ => none
  | .id id => if s.find id = none then profileHandler i o (.id id) s else none
  | c => profileHandler i o c s

/-- The calls that find what they need. -/
def ProfileOp.Sure : ProfileOp → Prop
  | .getProfileById _ | .findOneAndUpdate _ _ | .findAfter _ | .createProfile _ => False
  | _ => True

/-- What a call may answer that does not fail. -/
def Gives (s : Stores) (o : ProfileOp) (a : o.Ans) : Prop :=
  ∃ c, o.answer s c = some (.ok a) ∧ ∀ id, c = .id id → s.find id = none

theorem findOrErr_error {pid : String} {e : ServiceErr} (h : s.findOrErr pid = .error e) :
    e = .profileNotFound := by
  unfold Stores.findOrErr at h
  split at h
  · exact (Except.error.inj h).symm
  · cases h

/-- Without a failure, a call finds nothing, or an index refuses it. -/
theorem answer_error {e : ServiceErr} (hc : ∀ applied, c ≠ .fail applied)
    (h : o.answer s c = some (.error e)) :
    ¬ o.Sure ∧ (e = .profileNotFound ∨ e = .store false) := by
  cases o with
  | createProfile p =>
    refine ⟨id, .inr ?_⟩
    have hanswer : (if (s.find p.profileId).isSome then some (.error (.store false))
      else c.call (.ok ())) =
        (some (.error e) : Option (Except ServiceErr Unit)) := h
    split at hanswer
    · exact (Except.error.inj (Option.some.inj hanswer)).symm
    · cases c <;> cases hanswer
      exact absurd rfl (hc _)
  | getProfileById pid | findOneAndUpdate pid upd | findAfter pid =>
    refine ⟨id, .inl ?_⟩
    cases c with
    | ok => exact findOrErr_error (Option.some.inj h)
    | fail applied => exact absurd rfl (hc applied)
    | _ => cases h
  | getBlocklist filter =>
    cases filter <;> cases c <;> first | cases h; done | exact absurd rfl (hc _)
  | _ => cases c <;> first | cases h; done | exact absurd rfl (hc _)

theorem handled_working {r : Except ServiceErr o.Ans} (h : workingHandler i o c s = some (r, s')) :
    o.answer s c = some r ∧ s' = s.act ⟨o, r⟩ ∧ (∀ applied, c ≠ .fail applied) ∧ ∀ id, c = .id id →
      s.find id = none := by
  unfold workingHandler at h
  split at h
  · cases h
  · split at h
    · next hfree =>
      obtain ⟨hanswer, hstate⟩ := handled h
      refine ⟨hanswer, hstate, nofun, fun id hid => ?_⟩
      cases hid
      exact hfree
    · cases h
  · next hfail hid =>
    obtain ⟨hanswer, hstate⟩ := handled h
    exact ⟨hanswer, hstate, hfail, fun id heq => absurd heq (hid id)⟩

/-- A call that works does what was asked for, or finds nothing and leaves the stores. -/
theorem handled_works {r : Except ServiceErr o.Ans} (h : workingHandler i o c s = some (r, s')) :
    (∃ a, r = .ok a ∧ Gives s o a ∧ s' = o.effect s) ∨ ∃ e, r = .error e ∧ ¬ o.Sure ∧ s' = s := by
  obtain ⟨hanswer, rfl, hfail, hid⟩ := handled_working h
  cases r with
  | ok a => exact .inl ⟨a, rfl, ⟨c, hanswer, hid⟩, act_ok⟩
  | error e =>
    obtain ⟨hsure, he⟩ := answer_error hfail hanswer
    have htook : ¬ TookEffect (.error e : Except ServiceErr o.Ans) := by
      rcases he with rfl | rfl
      · exact id
      · exact Bool.false_ne_true
    exact .inr ⟨e, rfl, hsure, if_neg htook⟩

variable {I P : Stores → Prop} {Q : o.Ans → Stores → Prop}

theorem lands_call (hI : ∀ s, P s → I s) (hQ : ∀ s a, P s → Gives s o a → Q a (o.effect s)) :
    Lands workingHandler i I P (call o) Q := by
  refine triple_act fun s c r s' hP hc => ?_
  obtain ⟨a, rfl, hgives, rfl⟩ | ⟨e, rfl, -, rfl⟩ := handled_works hc
  · exact hQ s a hP hgives
  · exact hI _ hP

theorem lands_sure (ho : o.Sure) (hQ : ∀ s a, P s → Gives s o a → Q a (o.effect s)) :
    Lands workingHandler i I P (call o) Q := by
  refine triple_act fun s c r s' hP hc => ?_
  obtain ⟨a, rfl, hgives, rfl⟩ | ⟨e, rfl, hsure, -⟩ := handled_works hc
  · exact hQ s a hP hgives
  · exact absurd ho hsure

/-- A sure call is answered. -/
theorem triple_sure (ho : o.Sure) (hQ : ∀ s a, P s → Gives s o a → Q a (o.effect s)) :
    Triple workingHandler i P (call o) fun r s => ∃ a, r = .ok a ∧ Q a s := by
  refine triple_act fun s c r s' hP hc => ?_
  obtain ⟨a, rfl, hgives, rfl⟩ | ⟨e, rfl, hsure, -⟩ := handled_works hc
  · exact ⟨a, rfl, hQ s a hP hgives⟩
  · exact absurd ho hsure

end Working

section Calls

/-! ### Reads, edits and commands -/

variable {ι : Type} {i : ι} {asked : String → Prop} {I P : Stores → Prop} {accountId pid : String}
  {s : Stores} {p : Profile} {cmds : List RedisCmd}

theorem gives_find {p : Profile} (h : Gives s (.getProfileById pid) p) : s.find pid = some p := by
  obtain ⟨c, hc, -⟩ := h
  exact getProfileById_found hc

theorem lands_read {o : ProfileOp} (ho : ∀ s, o.effect s = s) (hI : ∀ s, P s → I s) :
    Lands workingHandler i I P (call o) fun a s => P s ∧ Gives s o a := by
  refine lands_call hI fun s a hP hgives => ?_
  rw [ho]
  exact ⟨hP, hgives⟩

/-- A document that is there is read. -/
theorem lands_found {q : Profile} (hP : ∀ s, P s → s.find pid = some q) :
    Lands workingHandler i I P (call (.findAfter pid)) fun after s => P s ∧ after = q := by
  refine triple_act fun s c r s' h hc => ?_
  obtain ⟨hanswer, rfl, hfail, -⟩ := handled_working hc
  have hfound : s.findOrErr pid = .ok q := by
    unfold Stores.findOrErr
    rw [hP s h]
  cases c with
  | ok =>
    have hr : r = .ok q := (Option.some.inj hanswer).symm.trans hfound
    subst hr
    exact ⟨h, rfl⟩
  | fail applied => exact absurd rfl (hfail applied)
  | _ => cases hanswer

theorem lands_validate (hI : ∀ s, P s → I s) :
    Lands workingHandler i I P (validateProfileIdAffiliation accountId pid) fun p s =>
      P s ∧ s.find pid = some p := by
  refine lands_bind (lands_read (fun _ => rfl) hI) fun p => ?_
  refine lands_ensure_bind (fun s h => hI s h.1) fun _ => ?_
  exact lands_pure fun s h => ⟨h.1, gives_find h.2⟩

/-- A command that is sent is one of those that are left. -/
def Pays (pid : String) (K : List RedisCmd → Stores → Prop) : Prop :=
  ∀ cmd cmds s, K (cmd :: cmds) s → K cmds ((ProfileOp.redis pid cmd).effect s)

theorem owes_pays (asked : String → Prop) (pid : String) : Pays pid (Owes asked pid) :=
  fun _ _ _ h => h.sent

variable {K : List RedisCmd → Stores → Prop}

/-- A command is always answered. -/
theorem triple_redis (hK : Pays pid K) (cmd : RedisCmd) (cmds : List RedisCmd) :
    Triple workingHandler i (K (cmd :: cmds)) (call (.redis pid cmd)) fun r s =>
      r = .ok () ∧ K cmds s := by
  refine triple_act fun s c r s' h hc => ?_
  obtain ⟨⟨⟩, rfl, -, rfl⟩ | ⟨e, rfl, hsure, -⟩ := handled_works hc
  · exact ⟨rfl, hK cmd cmds s h⟩
  · exact absurd trivial hsure

/-- A pipeline sends the first of the commands that are left. -/
theorem triple_pipeline (hK : Pays pid K) (cmds rest : List RedisCmd) :
    Triple workingHandler i (K (cmds ++ rest)) (pipeline pid cmds) fun r s =>
      r = .ok () ∧ K rest s := by
  induction cmds with
  | nil => exact triple_pure fun s h => ⟨rfl, h⟩
  | cons cmd cmds ih =>
    refine triple_attempt_bind (triple_redis hK cmd (cmds ++ rest)) fun first => ?_
    refine triple_attempt_bind (R := fun rest' s => (first = .ok () ∧ rest' = .ok ()) ∧ K rest s) ?_
      fun rest' => ?_
    · rintro s l r s' ⟨hfirst, h⟩ hexec
      obtain ⟨hr, h'⟩ := ih s l r s' h hexec
      exact ⟨⟨hfirst, hr⟩, h'⟩
    · rintro s l r s' ⟨⟨rfl, rfl⟩, h⟩ hexec
      obtain ⟨-, rfl, rfl⟩ := hexec
      exact ⟨rfl, h⟩

theorem lands_redis (hK : Pays pid K) (cmd : RedisCmd) (cmds : List RedisCmd) :
    Lands workingHandler i I (K (cmd :: cmds)) (call (.redis pid cmd)) fun _ => K cmds :=
  triple_conseq (triple_redis hK cmd cmds) (fun _ h => h) fun r s h => by
    obtain ⟨rfl, h⟩ := h
    exact h

theorem lands_pipeline (hK : Pays pid K) (cmds : List RedisCmd) :
    Lands workingHandler i I (K cmds) (pipeline pid cmds) fun _ => K [] :=
  triple_conseq (triple_pipeline hK cmds []) (fun s h => by rwa [List.append_nil]) fun r s h => by
    obtain ⟨rfl, h⟩ := h
    exact h

/-- A pipeline that sends all that is owed. -/
theorem lands_send (hP : ∀ s, P s → Owes asked pid cmds s) :
    Lands workingHandler i I P (pipeline pid cmds) fun _ => MirrorsOn asked :=
  lands_conseq (lands_pipeline (owes_pays asked pid) cmds) hP fun _ _ howes => howes.mirrors

/-- The settings of a profile, from any keys. -/
theorem lands_settings {settings : ProfileSettings} (hK : Pays settings.profileId K)
    (hP : ∀ s, P s → K (settingsCmds settings (s.redis settings.profileId).customRules) s) :
    Lands workingHandler i I P (createOrUpdateProfileSettings settings) fun _ => K [] := by
  refine lands_bind (R := fun stored => K (settingsCmds settings stored)) ?_ fun stored =>
    lands_pipeline hK _
  refine lands_sure (o := .smembers settings.profileId) trivial fun s stored h hgives => ?_
  obtain ⟨c, hc, -⟩ := hgives
  have hstored : stored = (s.redis settings.profileId).customRules := by
    cases c <;> cases hc
    rfl
  rw [hstored]
  exact hP s h

/-- An edit of a profile, with the commands that go with it. -/
theorem lands_edit {e : ProfileEdit} (p : Profile) (cmds : List RedisCmd)
    (hP : ∀ s, P s → Mirrors s ∧ s.find pid = some p ∧
      (e.run p).ruleIDs.Nodup ∧ ((s.redis pid).after cmds).Shows (e.run p)) :
    Lands workingHandler i I P (call (.edit pid e))
      fun (matched : ℕ) s => Owes (fun _ => True) pid cmds s ∧ (e.Matches p → matched ≠ 0) := by
  refine lands_sure (o := .edit pid e) trivial fun s matched h hgives => ?_
  obtain ⟨hmirrors, hfind, hids, hshows⟩ := hP s h
  have hnamed : (e.run p).settings.profileId = p.settings.profileId := by cases e <;> rfl
  refine ⟨hmirrors.update hfind (fun p => edit_profileId p e) hnamed hids hshows,
    fun hmatches => ?_⟩
  obtain ⟨c, hc, -⟩ := hgives
  have hcount : matched = s.profiles.countP fun p => decide (p.profileId = pid ∧ e.Matches p) := by
    cases c <;> cases hc
    rfl
  obtain ⟨hmem, hid⟩ := mem_of_find hfind
  rw [hcount]
  exact (List.countP_pos_iff.2 ⟨p, hmem, decide_eq_true ⟨hid, hmatches⟩⟩).ne'

end Calls

end ModDNS.Profiles
