import ModDNS.Api.Subscription

/-!
# Resync against retirement

Resyncs, signups that retire accounts, and the notification crons, on the same
subscriptions.

* `retirement_terminal`: as long as no resync writes back what was retired or flagged
  since it was loaded, a retired subscription stays without token hash, its profiles
  stay out of Redis, and the flags stay as the crons set them.
-/

namespace ModDNS.Api

open Conc

/-- The step undoes no retirement and no flag: the copy a resync writes has the flags of the
stored subscription, and what it writes, to the collection or to Redis, belongs to an
account that is not retired. -/
def Undisturbed {ι : Type} (s : SubState) (e : Event SubSig ι) : Prop :=
  match e.op with
  | .upsert sub => ∀ d ∈ s.subs, d.accountId = sub.accountId →
      ¬ d.Retired ∧ d.notified = sub.notified ∧ d.notifiedInactive = sub.notifiedInactive
  | .createOrUpdateProfileSettings p => ∀ q ∈ s.profiles, q.profileId = p.profileId →
      ∀ d ∈ s.subs, d.accountId = q.accountId → ¬ d.Retired
  | _ => True

/-- What any of the flows writes as a whole subscription is not retired. -/
def WritesLive : SubOp → Prop
  | .create sub => ¬ sub.Retired
  | .upsert sub => ¬ sub.Retired
  | _ => True

section Programs

variable (hash : String → String)

theorem retireEach_writesLive (now : ℕ) (l : List Subscription) :
    Only WritesLive (retireEach now l) := by
  have hcut : ∀ profiles, Only WritesLive (cutOffDNS profiles) := by
    intro profiles
    induction profiles with
    | nil => trivial
    | cons p profiles ih => exact only_op trivial fun _ => ih
  induction l with
  | nil => trivial
  | cons old l ih =>
    refine only_op trivial fun r => ?_
    cases r with
    | error e => exact ih
    | ok u =>
      refine only_op trivial fun r => ?_
      cases r with
      | error e => exact ih
      | ok profiles => exact only_bind (hcut profiles) fun _ => ih

theorem signup_writesLive (a : AccountID) (preauth : Preauth) :
    Only WritesLive (signup a preauth) := by
  have hcreate : Only WritesLive (createSubscriptionFromPreauth a preauth) :=
    only_op trivial fun _ => only_op trivial fun _ =>
      only_op (by simp [WritesLive, Subscription.Retired]) fun _ => trivial
  refine only_bind hcreate fun r => ?_
  cases r with
  | error e => trivial
  | ok u =>
    simp only [retireSupersededAccounts]
    by_cases hh : preauth.tokenHash = ""
    · rw [if_pos hh]; trivial
    · rw [if_neg hh]
      refine only_op trivial fun r => ?_
      cases r with
      | error e => trivial
      | ok found => exact only_op trivial fun _ => retireEach_writesLive _ _

theorem repopulate_writesLive (a : AccountID) : Only WritesLive (repopulateProfileCache a) := by
  have heach : ∀ profiles, Only WritesLive (repopulateEach profiles) := by
    intro profiles
    induction profiles with
    | nil => trivial
    | cons p profiles ih =>
      simp only [repopulateEach]
      split
      · exact only_op trivial fun _ => ih
      · exact ih
  refine only_op trivial fun r => ?_
  cases r with
  | error e => trivial
  | ok profiles => exact heach profiles

theorem validate_writesLive (sessionID : String) :
    Only WritesLive (validateAndGetPreauth hash sessionID) := by
  refine only_op trivial fun r => ?_
  cases r with
  | error e => trivial
  | ok session =>
    refine only_op trivial fun r => ?_
    cases r with
    | error e => trivial
    | ok preauth =>
      simp only
      split <;> trivial

theorem resync_writesLive (a : AccountID) (sessionID subID : String) :
    Only WritesLive (updateSubscription hash a sessionID subID) := by
  refine only_op trivial fun r => ?_
  cases r with
  | error e => trivial
  | ok sub =>
    simp only [updateSubscriptionFromPASession]
    by_cases hret : sub.Retired
    · rw [if_pos hret]; trivial
    · rw [if_neg hret]
      refine only_bind (validate_writesLive hash sessionID) fun r => ?_
      cases r with
      | error e => trivial
      | ok preauth =>
        refine only_op trivial fun now => only_op hret fun r => ?_
        cases r with
        | error e => trivial
        | ok u =>
          refine only_op trivial fun _ => only_bind (repopulate_writesLive _) fun _ => ?_
          split
          · trivial
          · exact only_op trivial fun _ => trivial

theorem job_writesLive (j : SubJob) : Only WritesLive (j.prog hash) := by
  cases j with
  | signup a preauth => exact signup_writesLive a preauth
  | resync a sessionID subID =>
    exact only_bind (resync_writesLive hash a sessionID subID) fun _ => trivial
  | notified ids value => exact only_op trivial fun _ => trivial
  | inactiveNotified ids value => exact only_op trivial fun _ => trivial
  | idle => trivial

end Programs

section Runs

variable {ι : Type} {P Q Q₁ : Pool SubSig ι SubState Unit} {e : Event SubSig ι}
  {es es₁ es₂ : List (Event SubSig ι)}

/-- The flag of a subscription after an action. -/
def notifiedAfter (id : ℕ) (b : Bool) : (o : SubOp) → SubSig.Res o → Bool
  | .setNotified ids value, .ok _ => if id ∈ ids then value else b
  | _, _ => b

def inactiveNotifiedAfter (id : ℕ) (b : Bool) : (o : SubOp) → SubSig.Res o → Bool
  | .setInactiveNotified ids value, .ok _ => if id ∈ ids then value else b
  | _, _ => b

/-- The flag as the crons left it. -/
def lastNotified (id : ℕ) (b : Bool) (es : List (Event SubSig ι)) : Bool :=
  es.foldl (fun b e => notifiedAfter id b e.op e.res) b

def lastInactiveNotified (id : ℕ) (b : Bool) (es : List (Event SubSig ι)) : Bool :=
  es.foldl (fun b e => inactiveNotifiedAfter id b e.op e.res) b

/-- What a step may do to a stored subscription. -/
structure Kept (e : Event SubSig ι) (d d' : Subscription) : Prop where
  id : d'.id = d.id
  accountId : d'.accountId = d.accountId
  retired : d.Retired → d'.Retired
  hash : (d.Retired → d.tokenHash = "") → d'.Retired → d'.tokenHash = ""
  notified : d'.notified = notifiedAfter d.id d.notified e.op e.res
  inactiveNotified : d'.notifiedInactive = inactiveNotifiedAfter d.id d.notifiedInactive e.op e.res

/-- The step allowed in a run of undisturbed flows. -/
def FlowStep (s : SubState) (e : Event SubSig ι) : Prop := WritesLive e.op ∧ Undisturbed s e

/-- Every stored subscription is kept, and a new one is not retired. -/
def StepKeeps (P Q : Pool SubSig ι SubState Unit) (e : Event SubSig ι) : Prop :=
  (∀ d ∈ P.state.subs, ∃ d' ∈ Q.state.subs, Kept e d d') ∧
    ∀ d' ∈ Q.state.subs, (∃ d ∈ P.state.subs, Kept e d d') ∨ ¬ d'.Retired

theorem stepKeeps_map {f : Subscription → Subscription} (hsubs : Q.state.subs = P.state.subs.map f)
    (hf : ∀ d ∈ P.state.subs, Kept e d (f d)) : StepKeeps P Q e := by
  rw [StepKeeps, hsubs]
  refine ⟨fun d hd => ⟨f d, List.mem_map_of_mem hd, hf d hd⟩, fun d' hd' => ?_⟩
  obtain ⟨d, hd, rfl⟩ := List.mem_map.1 hd'
  exact .inl ⟨d, hd, hf d hd⟩

/-- A step that is no cron's leaves the flags. -/
def KeepsFlags (e : Event SubSig ι) : Prop :=
  ∀ id b, notifiedAfter id b e.op e.res = b ∧ inactiveNotifiedAfter id b e.op e.res = b

theorem kept_self (hf : KeepsFlags e) (d : Subscription) : Kept e d d :=
  ⟨rfl, rfl, fun h => h, fun h => h, (hf _ _).1.symm, (hf _ _).2.symm⟩

theorem stepKeeps_same (hsubs : Q.state.subs = P.state.subs) (hf : KeepsFlags e) :
    StepKeeps P Q e :=
  stepKeeps_map (f := fun d => d) (by rw [hsubs, List.map_id']) fun d _ => kept_self hf d

theorem stepKeeps_append {sub : Subscription} (hsubs : Q.state.subs = P.state.subs ++ [sub])
    (hl : ¬ sub.Retired) (hf : KeepsFlags e) : StepKeeps P Q e := by
  rw [StepKeeps, hsubs]
  refine ⟨fun d hd => ⟨d, by simp [hd], kept_self hf d⟩, fun d' hd' => ?_⟩
  rcases List.mem_append.1 hd' with hd' | hd'
  · exact .inl ⟨d', hd', kept_self hf d'⟩
  · obtain rfl := List.mem_singleton.1 hd'
    exact .inr hl

variable [DecidableEq ι]

theorem step_kept (hst : Step subHandler P e Q) (hok : FlowStep P.state e) : StepKeeps P Q e := by
  obtain ⟨ch, hs⟩ := sub_step hst
  obtain ⟨hw, hu⟩ := hok
  obtain ⟨i, o, r⟩ := e
  -- only the two notification writes may change a flag
  have hno : ∀ {o : SubOp} {r : SubSig.Res o}, (∀ ids v, o ≠ .setNotified ids v) →
      (∀ ids v, o ≠ .setInactiveNotified ids v) → KeepsFlags (⟨i, o, r⟩ : Event SubSig ι) := by
    intro o r h1 h2 id b
    cases o <;> simp_all [notifiedAfter, inactiveNotifiedAfter]
  cases o with
  -- what is created is live
  | create sub =>
    rcases orFail_cases hs with ⟨-, hq⟩ | ⟨-, hq⟩
    · exact stepKeeps_same (by rw [hq]) (hno (by simp) (by simp))
    · split at hq
      · exact stepKeeps_same (by rw [hq]) (hno (by simp) (by simp))
      · exact stepKeeps_append (by rw [hq]) hw (hno (by simp) (by simp))
  -- the one write of a whole copy: the flow's condition is about this step
  | upsert sub =>
    rcases orFail_cases hs with ⟨-, hq⟩ | ⟨-, hq⟩
    · exact stepKeeps_same (by rw [hq]) (hno (by simp) (by simp))
    · by_cases hany : P.state.subs.any (·.accountId = sub.accountId)
      · refine stepKeeps_map (f := fun s => if s.accountId = sub.accountId then s.set sub else s) ?_
          fun d hd => ?_
        · rw [hq]; simp only [upsert, if_pos hany]
        · -- the copy fits what is stored
          by_cases hacc : d.accountId = sub.accountId
          · obtain ⟨hl, hn, hi⟩ := hu d hd hacc
            have hlive : ¬ (d.set sub).Retired := by
              simp only [WritesLive, Subscription.Retired, not_not] at hw hl
              simp [Subscription.Retired, Subscription.set, hw, hl]
            rw [if_pos hacc]
            exact ⟨rfl, hacc.symm, fun h => absurd h hl, fun _ h => absurd h hlive,
              hn.symm, hi.symm⟩
          · rw [if_neg hacc]
            exact kept_self (hno (by simp) (by simp)) d
      · have happ : upsert P.state.subs sub = P.state.subs ++ [sub] := by rw [upsert, if_neg hany]
        exact stepKeeps_append (by rw [hq, ← happ]) hw (hno (by simp) (by simp))
  -- retiring keeps what is retired and touches no flag
  | markRetired id now =>
    rcases orFail_cases hs with ⟨-, hq⟩ | ⟨-, hq⟩
    · exact stepKeeps_same (by rw [hq]) (hno (by simp) (by simp))
    · refine stepKeeps_map (by rw [hq]; rfl) fun d _ => ?_
      split
      · exact ⟨rfl, rfl, fun _ => by simp [Subscription.Retired], fun _ _ => rfl, rfl, rfl⟩
      · exact kept_self (hno (by simp) (by simp)) d
  | clearLegacyType a =>
    rcases orFail_cases hs with ⟨-, hq⟩ | ⟨-, hq⟩
    · exact stepKeeps_same (by rw [hq]) (hno (by simp) (by simp))
    · refine stepKeeps_map (by rw [hq]; rfl) fun d _ => ?_
      split
      · exact ⟨rfl, rfl, fun h => h, fun h => h, rfl, rfl⟩
      · exact kept_self (hno (by simp) (by simp)) d
  -- a notification job sets its own flag on the ids it was told of
  | setNotified ids v =>
    rcases orFail_cases hs with ⟨rfl, hq⟩ | ⟨rfl, hq⟩
    · exact stepKeeps_same (by rw [hq]) fun _ _ => ⟨rfl, rfl⟩
    · refine stepKeeps_map (by rw [hq]; rfl) fun d _ => ?_
      by_cases hd : d.id ∈ ids
      · rw [if_pos hd]
        exact ⟨rfl, rfl, fun h => h, fun h => h, (if_pos hd).symm, rfl⟩
      · rw [if_neg hd]
        exact ⟨rfl, rfl, fun h => h, fun h => h, (if_neg hd).symm, rfl⟩
  | setInactiveNotified ids v =>
    rcases orFail_cases hs with ⟨rfl, hq⟩ | ⟨rfl, hq⟩
    · exact stepKeeps_same (by rw [hq]) fun _ _ => ⟨rfl, rfl⟩
    · refine stepKeeps_map (by rw [hq]; rfl) fun d _ => ?_
      by_cases hd : d.id ∈ ids
      · rw [if_pos hd]
        exact ⟨rfl, rfl, fun h => h, fun h => h, rfl, (if_pos hd).symm⟩
      · rw [if_neg hd]
        exact ⟨rfl, rfl, fun h => h, fun h => h, rfl, (if_neg hd).symm⟩
  -- reads and calls to Redis leave the subscriptions
  | getSubscription a =>
    rcases orFail_cases hs with ⟨-, hq⟩ | ⟨-, hq⟩
    · exact stepKeeps_same (by rw [hq]) (hno (by simp) (by simp))
    · refine stepKeeps_same ?_ (hno (by simp) (by simp))
      rw [hq]; split <;> rfl
  | findActive h a =>
    rcases orFail_cases hs with ⟨-, hq⟩ | ⟨-, hq⟩ <;>
      exact stepKeeps_same (by rw [hq]) (hno (by simp) (by simp))
  | getProfiles a =>
    rcases orFail_cases hs with ⟨-, hq⟩ | ⟨-, hq⟩ <;>
      exact stepKeeps_same (by rw [hq]) (hno (by simp) (by simp))
  | deleteProfileSettings p =>
    rcases orFail_cases hs with ⟨-, hq⟩ | ⟨-, hq⟩ <;>
      exact stepKeeps_same (by rw [hq]) (hno (by simp) (by simp))
  | createOrUpdateProfileSettings p =>
    rcases orFail_cases hs with ⟨-, hq⟩ | ⟨-, hq⟩ <;>
      exact stepKeeps_same (by rw [hq]) (hno (by simp) (by simp))
  | _ => exact stepKeeps_same (by rw [← (Prod.mk.inj hs).2]) (hno (by simp) (by simp))

/-- Settings get into Redis only where they are written. -/
theorem step_redis (hst : Step subHandler P e Q) :
    Q.state.profiles = P.state.profiles ∧
      ∀ x ∈ Q.state.redis, x ∈ P.state.redis ∨ ∃ p, e.op = .createOrUpdateProfileSettings p ∧
        p.profileId = x := by
  obtain ⟨ch, hs⟩ := sub_step hst
  obtain ⟨i, o, r⟩ := e
  have hsame : Q.state.profiles = P.state.profiles ∧ Q.state.redis = P.state.redis →
      Q.state.profiles = P.state.profiles ∧
        ∀ x ∈ Q.state.redis, x ∈ P.state.redis ∨ ∃ p, o = .createOrUpdateProfileSettings p ∧
          p.profileId = x :=
    fun h => ⟨h.1, fun x hx => .inl (h.2 ▸ hx)⟩
  cases o with
  | create sub =>
    rcases orFail_cases hs with ⟨-, hq⟩ | ⟨-, hq⟩
    · exact hsame (by rw [hq]; exact ⟨rfl, rfl⟩)
    · exact hsame (by rw [hq]; split <;> exact ⟨rfl, rfl⟩)
  | getSubscription a =>
    rcases orFail_cases hs with ⟨-, hq⟩ | ⟨-, hq⟩
    · exact hsame (by rw [hq]; exact ⟨rfl, rfl⟩)
    · exact hsame (by rw [hq]; split <;> exact ⟨rfl, rfl⟩)
  | deleteProfileSettings p =>
    rcases orFail_cases hs with ⟨-, hq⟩ | ⟨-, hq⟩
    · exact hsame (by rw [hq]; exact ⟨rfl, rfl⟩)
    · rw [hq]
      exact ⟨rfl, fun x hx => .inl (List.mem_filter.1 hx).1⟩
  | createOrUpdateProfileSettings p =>
    rcases orFail_cases hs with ⟨-, hq⟩ | ⟨-, hq⟩
    · exact hsame (by rw [hq]; exact ⟨rfl, rfl⟩)
    · rw [hq]
      refine ⟨rfl, fun x hx => ?_⟩
      rcases List.mem_insert_iff.1 hx with rfl | hx
      · exact .inr ⟨p, rfl, rfl⟩
      · exact .inl hx
  | uuid => exact hsame (by rw [← (Prod.mk.inj hs).2]; exact ⟨rfl, rfl⟩)
  | now => exact hsame (by rw [← (Prod.mk.inj hs).2]; exact ⟨rfl, rfl⟩)
  | getPASession _ => exact hsame (by rw [← (Prod.mk.inj hs).2]; exact ⟨rfl, rfl⟩)
  | getPreauth _ => exact hsame (by rw [← (Prod.mk.inj hs).2]; exact ⟨rfl, rfl⟩)
  | signupWebhook _ => exact hsame (by rw [← (Prod.mk.inj hs).2]; exact ⟨rfl, rfl⟩)
  | _ => rcases orFail_cases hs with ⟨-, hq⟩ | ⟨-,
      hq⟩ <;> exact hsame (by rw [hq]; exact ⟨rfl, rfl⟩)

/-- A retired subscription has no token hash. -/
def RetiredHashless (s : SubState) : Prop := ∀ d ∈ s.subs, d.Retired → d.tokenHash = ""

instance (s : SubState) : Decidable (RetiredHashless s) :=
  inferInstanceAs (Decidable (∀ d ∈ s.subs, d.Retired → d.tokenHash = ""))

theorem run_hashless (hr : Run subHandler FlowStep P es Q) (h : RetiredHashless P.state) :
    RetiredHashless Q.state :=
  run_ind (I := fun _ Q => RetiredHashless Q.state) h (fun _ Q _ R ih hok hst d' hd' hret => by
    rcases (step_kept hst hok).2 d' hd' with ⟨d, hd, hk⟩ | hl
    · exact hk.hash (ih d hd) hret
    · exact absurd hret hl) hr

/-- What a run keeps of a stored subscription. -/
theorem run_flags (hr : Run subHandler FlowStep P es Q) {d : Subscription} (hd : d ∈ P.state.subs) :
    ∃ d' ∈ Q.state.subs, d'.id = d.id ∧ d'.accountId = d.accountId ∧ (d.Retired → d'.Retired) ∧
      d'.notified = lastNotified d.id d.notified es ∧
      d'.notifiedInactive = lastInactiveNotified d.id d.notifiedInactive es := by
  induction hr with
  | nil => exact ⟨d, hd, rfl, rfl, fun h => h, rfl, rfl⟩
  | @snoc es Q R e _ hok hst ih =>
    obtain ⟨d₁, hd₁, hid, hacc, hret, hn, hi⟩ := ih
    obtain ⟨d₂, hd₂, hk⟩ := (step_kept hst hok).1 d₁ hd₁
    refine ⟨d₂, hd₂, hk.id.trans hid, hk.accountId.trans hacc, fun h => hk.retired (hret h), ?_, ?_⟩
    · rw [hk.notified, hid, hn, lastNotified, lastNotified, List.foldl_append]; rfl
    · rw [hk.inactiveNotified, hid, hi, lastInactiveNotified, lastInactiveNotified,
        List.foldl_append]; rfl

/-- Settings of a retired account's profile that are out of Redis stay out. -/
theorem run_redis (hr : Run subHandler FlowStep P es Q) {d : Subscription} (hd : d ∈ P.state.subs)
    (hret : d.Retired) {q : Profile} (hq : q ∈ P.state.profiles) (hacc : q.accountId = d.accountId)
    (hout : q.profileId ∉ P.state.redis) :
    q ∈ Q.state.profiles ∧ q.profileId ∉ Q.state.redis := by
  induction hr with
  | nil => exact ⟨hq, hout⟩
  | @snoc es Q R e hrun hok hst ih =>
    obtain ⟨hqQ, houtQ⟩ := ih
    obtain ⟨hprof, hred⟩ := step_redis hst
    refine ⟨hprof ▸ hqQ, fun hin => ?_⟩
    rcases hred _ hin with h | ⟨p, hop, hp⟩
    · exact houtQ h
    · obtain ⟨d', hd', -, hacc', hret', -⟩ := run_flags hrun hd
      have hu := hok.2
      rw [Undisturbed, hop] at hu
      exact hu q hqQ hp.symm d' hd' (hacc'.trans hacc.symm) (hret' hret)

/-- Any flows over any state. -/
def flows (hash : String → String) (jobs : ι → SubJob) (s : SubState) :
    Pool SubSig ι SubState Unit :=
  ⟨s, fun i => (jobs i).prog hash⟩

/-- Retirement is terminal between two states of a run, and the flags are the crons'. -/
structure Terminal (s s' : SubState) (es : List (Event SubSig ι)) : Prop where
  hashless : RetiredHashless s'
  retired : ∀ d ∈ s.subs, d.Retired →
    ∃ d' ∈ s'.subs, d'.id = d.id ∧ d'.accountId = d.accountId ∧ d'.Retired ∧ d'.tokenHash = ""
  redis : ∀ d ∈ s.subs, d.Retired → ∀ q ∈ s.profiles, q.accountId = d.accountId →
    q.profileId ∉ s.redis →
    q.profileId ∉ s'.redis
  flags : ∀ d ∈ s.subs, ∃ d' ∈ s'.subs, d'.id = d.id ∧
    d'.notified = lastNotified d.id d.notified es ∧
    d'.notifiedInactive = lastInactiveNotified d.id d.notifiedInactive es

/-- **Retirement is terminal.** In every run whose steps undo no retirement and no flag:
between any two of its states, what is retired stays retired and without token hash, the
profiles of a retired account stay out of Redis, and each flag is the one last set by a
cron. -/
theorem retirement_terminal (hash : String → String) (jobs : ι → SubJob) (s : SubState)
    (hs : RetiredHashless s) (hr₁ : Run subHandler Undisturbed (flows hash jobs s) es₁ Q₁)
    (hr₂ : Run subHandler Undisturbed Q₁ es₂ Q) :
    Terminal Q₁.state Q.state es₂ := by
  have hprog : ∀ i, Only WritesLive ((flows hash jobs s).prog i) := fun i =>
    job_writesLive hash (jobs i)
  have hrun₁ : Run subHandler FlowStep _ es₁ Q₁ := run_only hprog hr₁
  have hrun₂ : Run subHandler FlowStep Q₁ es₂ Q :=
    run_only (fun i => only_left (hprog i) (run_path hr₁ i)) hr₂
  have hless₁ : RetiredHashless Q₁.state := run_hashless hrun₁ hs
  have hless : RetiredHashless Q.state := run_hashless hrun₂ hless₁
  refine ⟨hless, fun d hd hret => ?_, fun d hd hret q hq hacc hout => ?_, fun d hd => ?_⟩
  · obtain ⟨d', hd', hid, hacc, hret', -⟩ := run_flags hrun₂ hd
    exact ⟨d', hd', hid, hacc, hret' hret, hless d' hd' (hret' hret)⟩
  · exact (run_redis hrun₂ hd hret hq hacc hout).2
  · obtain ⟨d', hd', hid, -, -, hn, hi⟩ := run_flags hrun₂ hd
    exact ⟨d', hd', hid, hn, hi⟩

end Runs

section Examples

instance {ι : Type} (s : SubState) : (e : Event SubSig ι) → Decidable (Undisturbed s e)
  | ⟨_, .upsert sub, _⟩ => inferInstanceAs (Decidable (∀ d ∈ s.subs, d.accountId = sub.accountId →
      ¬ d.Retired ∧ d.notified = sub.notified ∧ d.notifiedInactive = sub.notifiedInactive))
  | ⟨_, .createOrUpdateProfileSettings p, _⟩ => inferInstanceAs (Decidable (∀ q ∈ s.profiles,
      q.profileId = p.profileId → ∀ d ∈ s.subs, d.accountId = q.accountId → ¬ d.Retired))
  | ⟨_, .uuid, _⟩ | ⟨_, .now, _⟩ | ⟨_, .create _, _⟩ | ⟨_, .getSubscription _, _⟩ | ⟨_,
      .findActive _ _, _⟩
  | ⟨_, .markRetired _ _, _⟩ | ⟨_, .clearLegacyType _, _⟩ | ⟨_, .setNotified _ _, _⟩
  | ⟨_, .setInactiveNotified _ _, _⟩ | ⟨_, .getProfiles _, _⟩ | ⟨_, .deleteProfileSettings _, _⟩
  | ⟨_, .getPASession _, _⟩ | ⟨_, .getPreauth _, _⟩ | ⟨_, .signupWebhook _, _⟩ => .isTrue trivial

/-- A subscription with one profile. -/
def oneSub : SubState where
  subs := [{ id := 1, accountId := 1, activeUntil := 50, type := "", tier := "IVPN Pro"
             tokenHash := "h"
             updatedAt := 1, notified := false, notifiedInactive := false, maxQueriesPerMonth := 0
             deletionScheduledAt := none }]
  profiles := [⟨"p1", 1, true⟩]
  redis := ["p1"]
  now := 1

/-- A resync of account 1, the signup of account 2 by the same customer, and a cron. -/
def resyncJobs : Fin 3 → SubJob
  | 0 => .resync 1 "session" ""
  | 1 => .signup 2 ⟨"pa", "h", 100, "IVPN Pro"⟩
  | 2 => .notified [1] true

/-- Threads acting in the given order, without failures. -/
def actions (order : List (Fin 3)) : List (Fin 3 × SubChoice) :=
  order.map fun i =>
    (i, { tick := 1, fail := false, uuid := 2, paSession := some ⟨"session", "t", "pa"⟩
          preauth := some ⟨"pa", "h", 100, "IVPN Pro"⟩ })

/-- The resync first. -/
def resyncFirst : List (Fin 3 × SubChoice) := actions [0, 0, 0, 0, 0, 0, 0, 0, 2, 1, 1, 1, 1, 1]

/-- The retirement, and the DNS cutoff. -/
def cutOff : List (Fin 3 × SubChoice) := actions [1, 1, 1]

theorem resyncFirst_plays :
    (play subHandler Undisturbed resyncFirst (flows (fun _ => "h") resyncJobs oneSub)).isSome := by
      decide

theorem cutOff_plays : (play subHandler Undisturbed cutOff
    ((play subHandler Undisturbed resyncFirst (flows (fun _ => "h") resyncJobs oneSub)).get
      resyncFirst_plays).2).isSome := by decide

theorem retirement_terminal_resyncFirst :
    Terminal
      ((play subHandler Undisturbed resyncFirst (flows (fun _ => "h") resyncJobs oneSub)).get
        resyncFirst_plays).2.state
      ((play subHandler Undisturbed cutOff
        ((play subHandler Undisturbed resyncFirst (flows (fun _ => "h") resyncJobs oneSub)).get
          resyncFirst_plays).2).get cutOff_plays).2.state
      ((play subHandler Undisturbed cutOff
        ((play subHandler Undisturbed resyncFirst (flows (fun _ => "h") resyncJobs oneSub)).get
          resyncFirst_plays).2).get cutOff_plays).1 :=
  retirement_terminal (fun _ => "h") resyncJobs oneSub (by decide) (run_play resyncFirst_plays)
    (run_play cutOff_plays)

/-- The resync loads the subscription, the cron flags it, the signup retires it. -/
def retiredMeanwhile : List (Fin 3 × SubChoice) := actions [0, 2, 1, 1, 1, 1, 1, 1, 1, 1]

/-- The rest of the resync. -/
def resyncRest : List (Fin 3 × SubChoice) := actions [0, 0, 0, 0, 0, 0, 0]

theorem retiredMeanwhile_plays :
    (play subHandler Free retiredMeanwhile (flows (fun _ => "h") resyncJobs oneSub)).isSome := by
      decide

theorem resyncRest_plays : (play subHandler Free resyncRest
    ((play subHandler Free retiredMeanwhile (flows (fun _ => "h") resyncJobs oneSub)).get
      retiredMeanwhile_plays).2).isSome := by decide

/-- A resync that was under way gives a retired subscription its token hash back, reverts
its flag, and puts its profile back into Redis. -/
theorem resync_undoes_retirement :
    ∃ es₁ Q₁ es₂ Q, Run subHandler Free (flows (fun _ => "h") resyncJobs oneSub) es₁ Q₁ ∧
      Run subHandler Free Q₁ es₂ Q ∧
      (∃ d ∈ Q₁.state.subs, d.id = 1 ∧ d.Retired ∧ d.tokenHash = "" ∧ d.notified = true) ∧
      "p1" ∉ Q₁.state.redis ∧
      (∃ d ∈ Q.state.subs, d.id = 1 ∧ d.Retired ∧ d.tokenHash = "h" ∧ d.notified = false) ∧
      "p1" ∈ Q.state.redis :=
  ⟨_, _, _, _, run_play retiredMeanwhile_plays,
    run_play resyncRest_plays, by decide, by decide, by decide, by decide⟩

end Examples

end ModDNS.Api
