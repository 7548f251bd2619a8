import ModDNS.Conc.Flow
import ModDNS.Libs.Catalog
import ModDNS.Profiles.Fields
import ModDNS.Rules.Value

/-!
# The stores of the profile service

The calls that the profile service makes, and what they do to the collections and to Redis. Every
repository call and every Redis command is one atomic action; the commands of a pipeline are
actions of their own. Each of them may fail, with or without effect.

* `Stores.after`: the stores after a list of actions, read off the actions and their answers.
* `state_exec`, `state_run`: the stores at the end of an execution and of a run.
-/

namespace ModDNS.Profiles

open Conc Rules

inductive ServiceErr where
  /-- A store or the id generator fails; `applied`: what was asked for has been done all the
  same. -/
  | store (applied : Bool)
  | profileNotFound
  | profileNameEmpty
  | profileNameInvalid
  | profileNameCannotBeEmpty
  | profileNameAlreadyExists
  | maxProfilesLimitReached
  | lastProfileInAccount
  | customRule (e : CustomRuleError)
  | invalidBlocklistValue
  | blocklistNotFound
  | blocklistAlreadyEnabled
  | invalidServiceValue
  | serviceAlreadyEnabled
  | cast
  | statisticsRetentionInvalid
  | invalidRetention
  | defaultRuleInvalid
  | blocklistsSubdomainsInvalid
  | customRulesSubdomainsInvalid
  | recursorInvalid
  | unsupportedImportMode
  | unsupportedSchemaVersion
  | invalidExportKind
  | emptyImportPayload
  | maxProfilesExceeded
  | maxCustomRulesExceeded
  deriving DecidableEq

/-- The updates of one stored profile, without the one of `UpdateFields`. -/
inductive ProfileEdit where
  | createCustomRules (rules : List CustomRule)
  | updateCustomRule (rule : CustomRule)
  | removeCustomRules (ids : List RuleID)
  | updateCustomRulesOrder (idToOrder : List (RuleID × ℕ))
  | reassignCustomRuleGroup (action src dst : String)
  | setCustomRuleGroups (groups : CustomRuleGroups)
  | enableBlocklists (ids : List String)
  | disableBlocklists (ids : List String)
  | enableServices (ids : List String)
  | disableServices (ids : List String)
  deriving DecidableEq

/-- `$addToSet` with `$each`. -/
def addToSet (stored ids : List String) : List String :=
  ids.foldl (fun l id => if id ∈ l then l else l ++ [id]) stored

def ProfileEdit.run (p : Profile) : ProfileEdit → Profile
  | .createCustomRules rules => { p with settings.customRules := p.settings.customRules ++ rules }
  | .updateCustomRule rule =>
    { p with
      settings.customRules :=
        p.settings.customRules.map fun r => if r.id = rule.id then rule else r }
  | .removeCustomRules ids =>
    { p with settings.customRules := p.settings.customRules.filter (·.id ∉ ids) }
  | .updateCustomRulesOrder idToOrder =>
    { p with settings.customRules := p.settings.customRules.map fun r =>
        { r with order := (idToOrder.lookup r.id).getD r.order } }
  | .reassignCustomRuleGroup action src dst =>
    { p with settings.customRules := p.settings.customRules.map fun r =>
        if r.group = src ∧ r.action.text = action then { r with group := dst } else r }
  | .setCustomRuleGroups groups => { p with settings.customRuleGroups := groups }
  | .enableBlocklists ids =>
    { p with settings.privacy.blocklists := addToSet p.settings.privacy.blocklists ids }
  | .disableBlocklists ids =>
    { p with settings.privacy.blocklists := p.settings.privacy.blocklists.filter (· ∉ ids) }
  | .enableServices ids =>
    { p with settings.privacy.services := addToSet p.settings.privacy.services ids }
  | .disableServices ids =>
    { p with settings.privacy.services := p.settings.privacy.services.filter (· ∉ ids) }

/-- The document matches the filter of the update. -/
def ProfileEdit.Matches (p : Profile) : ProfileEdit → Prop
  | .updateCustomRule rule => rule.id ∈ p.settings.customRules.map (·.id)
  | _ => True

instance (p : Profile) (e : ProfileEdit) : Decidable (e.Matches p) := by
  cases e <;> unfold ProfileEdit.Matches <;> infer_instance

inductive BlocklistFilter where
  | isDefault
  | blocklistID (id : String)
  deriving DecidableEq

inductive ProfileOp where
  /-- `IdGen.Generate`. -/
  | generate
  | now
  /-- Which of two goroutines goes on. -/
  | turn
  | getBlocklist (filter : BlocklistFilter)
  /-- `ServicesCatalog.Get`. -/
  | getServices
  | getProfileById (profileId : String)
  | getProfilesByAccountId (accountId : String)
  | createProfile (profile : Profile)
  | deleteProfileById (profileId : String)
  | edit (profileId : String) (e : ProfileEdit)
  /-- The two calls of `UpdateFields`: the update, and the read of the document after it. -/
  | findOneAndUpdate (profileId : String) (upd : ProfileFieldsUpdate)
  | findAfter (profileId : String)
  | deleteProfileQueryLogs (profileId : String)
  /-- `SMEMBERS` of the custom rules of a profile. -/
  | smembers (profileId : String)
  | redis (profileId : String) (cmd : RedisCmd)
  | deleteCredentials (accountId : String)
  | removeProfileFromAccount (accountId profileId : String)
  | deleteAccountById (accountId : String)
  | deleteSubscription (accountId : String)

def ProfileOp.Ans : ProfileOp → Type
  | .generate => String
  | .now => ℕ
  | .turn => Bool
  | .getBlocklist _ => List String
  | .getServices => Option Libs.Catalog
  | .getProfileById _ => Profile
  | .getProfilesByAccountId _ => List Profile
  -- `MatchedCount`
  | .edit _ _ => ℕ
  | .findOneAndUpdate _ _ => Profile
  | .findAfter _ => Profile
  | .smembers _ => List RuleID
  | _ => Unit

abbrev profileCalls : Calls := ⟨ProfileOp, ProfileOp.Ans, ServiceErr, fun _ => true⟩

abbrev ProfileFlow := Flow profileCalls

abbrev call (o : ProfileOp) : ProfileFlow o.Ans := act (C := profileCalls) o

/-- An account document, as far as the profiles are concerned. -/
structure AccountDoc where
  id : String
  profiles : List String
  deriving DecidableEq

structure Blocklist where
  id : String
  isDefault : Bool
  deriving DecidableEq

structure Stores where
  profiles : List Profile
  redis : String → CachedSettings
  accounts : List AccountDoc := []
  /-- The accounts of the credentials and of the subscriptions. -/
  credentials : List String := []
  subscriptions : List String := []
  blocklists : List Blocklist := []
  services : Option Libs.Catalog := none

section Actions

variable (s : Stores)

def Stores.find (profileId : String) : Option Profile := s.profiles.find? (·.profileId = profileId)

def Stores.onProfile (profileId : String) (f : Profile → Profile) : Stores :=
  { s with profiles := s.profiles.map fun p => if p.profileId = profileId then f p else p }

/-- What a call does when it is carried out. -/
def ProfileOp.effect (s : Stores) : ProfileOp → Stores
  | .createProfile p => { s with profiles := s.profiles ++ [p] }
  | .deleteProfileById pid => { s with profiles := s.profiles.filter (·.profileId ≠ pid) }
  | .edit pid e => s.onProfile pid e.run
  | .findOneAndUpdate pid upd => s.onProfile pid (updateFields · upd)
  | .redis pid cmd => { s with redis := Function.update s.redis pid (cmd.run (s.redis pid)) }
  | .deleteCredentials a => { s with credentials := s.credentials.filter (· ≠ a) }
  | .removeProfileFromAccount a pid =>
    { s with accounts := s.accounts.map fun doc =>
        if doc.id = a then { doc with profiles := doc.profiles.filter (· ≠ pid) } else doc }
  | .deleteAccountById a => { s with accounts := s.accounts.filter (·.id ≠ a) }
  | .deleteSubscription a => { s with subscriptions := s.subscriptions.filter (· ≠ a) }
  | _ => s

/-- What the environment chooses at a call: that it is carried out, or fails, and what it answers
where the stores do not say. -/
inductive Choice where
  | ok
  | fail (applied : Bool)
  | id (id : String)
  | time (now : ℕ)
  | left (goesOn : Bool)

def Stores.findOrErr (profileId : String) : Except ServiceErr Profile :=
  match s.find profileId with
  | none => .error .profileNotFound
  | some p => .ok p

/-- A call that is carried out, or fails. -/
def Choice.call {α : Type} (r : Except ServiceErr α) : Choice → Option (Except ServiceErr α)
  | .ok => some r
  | .fail applied => some (.error (.store applied))
  | _ => none

/-- The answer of a call; `none` where the environment cannot choose so. -/
def ProfileOp.answer (s : Stores) (c : Choice) : (o : ProfileOp) → Option (Except ServiceErr o.Ans)
  | .turn => match c with
    | .left b => some (.ok b)
    | _ => none
  | .now => match c with
    | .time t => some (.ok t)
    | _ => none
  | .generate => match c with
    | .id id => some (.ok id)
    | .fail applied => some (.error (.store applied))
    | _ => none
  | .getBlocklist .isDefault => c.call (.ok ((s.blocklists.filter (·.isDefault)).map (·.id)))
  | .getBlocklist (.blocklistID id) => c.call (.ok ((s.blocklists.filter (·.id = id)).map (·.id)))
  | .getServices => c.call (.ok s.services)
  | .getProfileById pid => c.call (s.findOrErr pid)
  | .getProfilesByAccountId a => c.call (.ok (s.profiles.filter (·.accountId = a)))
  | .edit pid e =>
    c.call (.ok (s.profiles.countP fun p => decide (p.profileId = pid ∧ e.Matches p)))
  | .findOneAndUpdate pid _ => c.call (s.findOrErr pid)
  | .findAfter pid => c.call (s.findOrErr pid)
  | .smembers pid => c.call (.ok (s.redis pid).customRules)
  -- the index on the ids is unique
  | .createProfile p =>
    if (s.find p.profileId).isSome then some (.error (.store false)) else c.call (.ok ())
  | .deleteProfileById _ => c.call (.ok ())
  | .deleteProfileQueryLogs _ => c.call (.ok ())
  | .redis _ _ => c.call (.ok ())
  | .deleteCredentials _ => c.call (.ok ())
  | .removeProfileFromAccount _ _ => c.call (.ok ())
  | .deleteAccountById _ => c.call (.ok ())
  | .deleteSubscription _ => c.call (.ok ())

/-- The answer says that what was asked for has been done. -/
def TookEffect {α : Type} : Except ServiceErr α → Prop
  | .ok _ => True
  | .error (.store applied) => applied = true
  | .error _ => False

instance {α : Type} (r : Except ServiceErr α) : Decidable (TookEffect r) := by
  unfold TookEffect
  split <;> infer_instance

/-- The stores after one action. -/
def Stores.act (x : profileCalls.sig.Act) : Stores := if TookEffect x.2 then x.1.effect s else s

/-- The stores after a list of actions. -/
def Stores.after (l : List profileCalls.sig.Act) : Stores := l.foldl Stores.act s

end Actions

def profileHandler {ι : Type} : Handler profileCalls.sig ι Stores Choice := fun _ o c s =>
  (o.answer s c).map fun r => (r, s.act ⟨o, r⟩)

section After

variable {s s' : Stores} {l l' : List profileCalls.sig.Act}

@[simp] theorem after_nil : s.after [] = s := rfl

@[simp] theorem after_cons (x : profileCalls.sig.Act) : s.after (x :: l) = (s.act x).after l := rfl

theorem after_append : s.after (l ++ l') = (s.after l).after l' := List.foldl_append

/-- A read of a profile answers the stored one. -/
theorem find_of_answer {pid : String} {p : Profile} {c : Choice}
    (h : (ProfileOp.findAfter pid).answer s c = some (.ok p)) :
    s.find pid = some p := by
  cases c with
  | ok =>
    have herr : s.findOrErr pid = .ok p := Option.some.inj h
    unfold Stores.findOrErr at herr
    cases hf : s.find pid with
    | none => simp [hf] at herr
    | some q => simpa [hf] using herr
  | _ => cases h

theorem act_effect {x : profileCalls.sig.Act} (h : TookEffect x.2) :
    s.act x = x.1.effect s := if_pos h

@[simp] theorem act_ok {o : ProfileOp} {a : o.Ans} : s.act ⟨o, .ok a⟩ = o.effect s := if_pos trivial

theorem handled {ι : Type} {i : ι} {o : ProfileOp} {c : Choice} {r : Except ServiceErr o.Ans}
    (h : profileHandler i o c s = some (r, s')) : o.answer s c = some r ∧ s' = s.act ⟨o, r⟩ := by
  obtain ⟨r', hr, heq⟩ := Option.map_eq_some_iff.1 h
  cases heq
  exact ⟨hr, rfl⟩

/-- The stores at the end of an execution. -/
theorem state_exec {ι α : Type} {i : ι} {p : Prog profileCalls.sig α} {a : α}
    (h : Exec profileHandler i p s l a s') : s' = s.after l := by
  induction p generalizing s l with
  | pure b =>
    obtain ⟨rfl, -, rfl⟩ := h
    rfl
  | call o k ih =>
    obtain ⟨c, r, s₁, l', hc, rfl, hk⟩ := h
    rw [after_cons, ← (handled hc).2]
    exact ih r hk

/-- Every action of an execution is an answer of the stores at its moment. -/
theorem answer_exec {ι α : Type} {i : ι} {p : Prog profileCalls.sig α} {a : α}
    {x : profileCalls.sig.Act} (h : Exec profileHandler i p s (l ++ x :: l') a s') :
    ∃ c, x.1.answer (s.after l) c = some x.2 := by
  induction p generalizing s l with
  | pure b =>
    obtain ⟨hl, -, -⟩ := h
    simp at hl
  | call o k ih =>
    obtain ⟨c, r, s₁, l₁, hc, hl, hk⟩ := h
    obtain ⟨hanswer, rfl⟩ := handled hc
    cases l with
    | nil =>
      obtain ⟨rfl, -⟩ := List.cons.inj hl
      exact ⟨c, hanswer⟩
    | cons y l =>
      obtain ⟨rfl, rfl⟩ := List.cons.inj hl
      have hrest := ih r hk
      exact hrest

/-- The actions of a list of events. -/
def acts {ι : Type} (es : List (Event profileCalls.sig ι)) : List profileCalls.sig.Act :=
  es.map fun e => ⟨e.op, e.res⟩

/-- The stores at the end of a run. -/
theorem state_run {ι α : Type} [DecidableEq ι] {P Q : Pool profileCalls.sig ι Stores α}
    {ok : Stores → Event profileCalls.sig ι → Prop} {es : List (Event profileCalls.sig ι)}
    (h : Run profileHandler ok P es Q) : Q.state = P.state.after (acts es) := by
  induction h with
  | nil => rfl
  | snoc _ _ hs ih =>
    obtain ⟨k, c, s, -, hc, rfl⟩ := step_iff.1 hs
    rw [acts, List.map_append, after_append, ← acts, ← ih]
    exact (handled hc).2

/-- Every action of a run is an answer of the stores at its moment. -/
theorem answer_run {ι α : Type} [DecidableEq ι] {P Q : Pool profileCalls.sig ι Stores α}
    {ok : Stores → Event profileCalls.sig ι → Prop} {es₁ es₂ : List (Event profileCalls.sig ι)}
    {e : Event profileCalls.sig ι} (h : Run profileHandler ok P (es₁ ++ e :: es₂) Q) :
    ∃ c, e.op.answer (P.state.after (acts es₁)) c = some e.res := by
  obtain ⟨P₁, P₂, hrun, -, hst, -⟩ := run_mid h
  obtain ⟨k, c, s', -, hhandled, -⟩ := step_iff.1 hst
  rw [← state_run hrun]
  exact ⟨c, (handled hhandled).1⟩

end After

section Find

variable {s : Stores} {pid pid' : String} {f : Profile → Profile}

theorem find_onProfile_self (hf : ∀ p : Profile, (f p).profileId = p.profileId) :
    (s.onProfile pid f).find pid = (s.find pid).map f := by
  simp only [Stores.find, Stores.onProfile]
  induction s.profiles with
  | nil => rfl
  | cons p l ih =>
    by_cases hp : p.profileId = pid
    · simp [hp, hf]
    · simp [hp, ih]

theorem find_onProfile_ne (hf : ∀ p : Profile, (f p).profileId = p.profileId) (h : pid' ≠ pid) :
    (s.onProfile pid f).find pid' = s.find pid' := by
  simp only [Stores.find, Stores.onProfile]
  induction s.profiles with
  | nil => rfl
  | cons p l ih =>
    by_cases hp : p.profileId = pid
    · have hne : (f p).profileId ≠ pid' := by
        rw [hf, hp]
        exact Ne.symm h
      simp [hp, hne, Ne.symm h, ih]
    · simp only [List.map_cons, if_neg hp, List.find?_cons, ih]

theorem updateFields_profileId (p : Profile) (upd : ProfileFieldsUpdate) :
    (updateFields p upd).profileId = p.profileId := (sameElse_setFields p upd).profileId

theorem edit_profileId (p : Profile) (e : ProfileEdit) : (e.run p).profileId = p.profileId := by
  cases e <;> rfl

theorem find_onProfile_none (hf : ∀ p : Profile, (f p).profileId = p.profileId)
    (h : s.find pid = none) :
    (s.onProfile pid' f).find pid = none := by
  by_cases hpid : pid = pid'
  · subst hpid
    rw [find_onProfile_self hf, h]
    rfl
  · rw [find_onProfile_ne hf hpid, h]

theorem find_deleted (s : Stores) (pid : String) :
    (s.act ⟨.deleteProfileById pid, (.ok () : Except ServiceErr Unit)⟩).find pid = none := by
  have hact : s.act ⟨.deleteProfileById pid, (.ok () : Except ServiceErr Unit)⟩ =
      (ProfileOp.deleteProfileById pid).effect s := if_pos trivial
  rw [hact]
  refine List.find?_eq_none.2 fun p hp => ?_
  have hne := (List.mem_filter.1 hp).2
  simpa using hne

/-- A profile that is not there stays so, unless a call makes one. -/
theorem find_act_none {x : profileCalls.sig.Act} (h : s.find pid = none)
    (hx : ∀ p, x.1 ≠ .createProfile p) :
    (s.act x).find pid = none := by
  obtain ⟨o, r⟩ := x
  unfold Stores.act
  split
  · cases o with
    | createProfile p => exact absurd rfl (hx p)
    | deleteProfileById pid' =>
      refine List.find?_eq_none.2 fun p hp => ?_
      exact List.find?_eq_none.1 h p (List.mem_filter.1 hp).1
    | edit pid' e => exact find_onProfile_none (fun p => edit_profileId p e) h
    | findOneAndUpdate pid' upd =>
      exact find_onProfile_none (fun p => updateFields_profileId p upd) h
    | _ => exact h
  · exact h

theorem find_after_none {l : List profileCalls.sig.Act} (h : s.find pid = none)
    (hl : ∀ x ∈ l, ∀ p, x.1 ≠ .createProfile p) :
    (s.after l).find pid = none := by
  induction l generalizing s with
  | nil => exact h
  | cons x l ih =>
    obtain ⟨hx, hl⟩ := List.forall_mem_cons.1 hl
    exact ih (find_act_none h hx) hl

end Find

end ModDNS.Profiles
