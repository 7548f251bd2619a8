import Mathlib.Data.Finset.Basic
import ModDNS.Api.Subscription

/-!
# Signups of one customer

Any number of signups of the same customer, whose subscriptions share a token hash.

* `live_iff`: an account survives exactly when no other signup looks for superseded
  accounts after its subscription was created.
* `one_live_iff`: never two accounts survive, and one does exactly when some
  subscription is created after all other signups have looked.
-/

namespace ModDNS.Api

open Conc

section Paths

/-- An action of a thread with its answer. -/
abbrev SubAct := SubSig.Act

def failed : (o : SubOp) → SubSig.Res o → Bool
  | .uuid, _ => false
  | .now, _ => false
  | .getSubscription _, r => !r.isOk
  | .findActive _ _, r => !r.isOk
  | .getProfiles _, r => !r.isOk
  | .getPASession _, r => !r.isOk
  | .getPreauth _, r => !r.isOk
  | .create _, r => !r.isOk
  | .markRetired _ _, r => !r.isOk
  | .upsert _, r => !r.isOk
  | .clearLegacyType _, r => !r.isOk
  | .setNotified _ _, r => !r.isOk
  | .setInactiveNotified _ _, r => !r.isOk
  | .deleteProfileSettings _, r => !r.isOk
  | .createOrUpdateProfileSettings _, r => !r.isOk
  | .signupWebhook _, r => !r.isOk

/-- The action failed. -/
abbrev Failed (o : SubOp) (r : SubSig.Res o) : Prop := failed o r = true

/-- No call of the run fails. -/
def NoErrors : SubState → Event SubSig AccountID → Prop := fun _ e => ¬ Failed e.op e.res

instance (s : SubState) (e : Event SubSig AccountID) : Decidable (NoErrors s e) :=
  inferInstanceAs (Decidable (¬ _))

/-- What the retirement of `superseded` does. -/
def RetireAct (superseded : List Subscription) : SubOp → Prop
  | .markRetired id _ => ∃ old ∈ superseded, old.id = id
  | .getProfiles _ => True
  | .deleteProfileSettings _ => True
  | _ => False

theorem cutOffDNS_only (superseded : List Subscription) (profiles : List Profile) :
    Only (RetireAct superseded) (cutOffDNS profiles) := by
  induction profiles with
  | nil => trivial
  | cons p profiles ih => exact only_op trivial fun _ => ih

theorem retireEach_only {now : ℕ} {superseded l : List Subscription}
    (hl : ∀ old ∈ l, old ∈ superseded) :
    Only (RetireAct superseded) (retireEach now l) := by
  induction l with
  | nil => trivial
  | cons old l ih =>
    have ih := ih fun x hx => hl x (List.mem_cons_of_mem _ hx)
    refine only_op ⟨old, hl old (by simp), rfl⟩ fun r => ?_
    cases r with
    | error e => exact ih
    | ok u =>
      refine only_op trivial fun r => ?_
      cases r with
      | error e => exact ih
      | ok profiles => exact only_bind (cutOffDNS_only _ _) fun _ => ih

variable {tr : List SubAct} {a : AccountID}

/-- A loop that ends has retired all it was given. -/
theorem retireEach_ends {now : ℕ} {l : List Subscription} (hp : Ends (retireEach now l) tr ()) :
    ∀ old ∈ l, ∃ r, ⟨.markRetired old.id now, r⟩ ∈ tr := by
  induction l generalizing tr with
  | nil => simp
  | cons old l ih =>
    obtain ⟨r, tr', rfl, hk⟩ := ends_op hp
    have hrest : ∃ tr₁ tr₂, tr' = tr₁ ++ tr₂ ∧ Ends (retireEach now l) tr₂ () := by
      cases r with
      | error e => exact ⟨[], tr', rfl, hk⟩
      | ok u =>
        obtain ⟨r', tr', rfl, hk'⟩ := ends_op hk
        cases r' with
        | error e => exact ⟨[_], tr', rfl, hk'⟩
        | ok profiles =>
          obtain ⟨tr₁, u, tr₂, rfl, -, h⟩ := ends_bind hk'
          exact ⟨_ :: tr₁, tr₂, rfl, h⟩
    obtain ⟨tr₁, tr₂, rfl, h⟩ := hrest
    intro old' hold
    rcases List.mem_cons.1 hold with rfl | hold
    · exact ⟨r, by simp⟩
    · obtain ⟨r', hr'⟩ := ih h old' hold
      exact ⟨r', by simp [hr']⟩

/-- The actions of a signup that has ended without a failure: it creates its subscription,
looks for superseded ones, and retires what it found. -/
structure SignupTrace (a : AccountID) (tokenHash : String) (sub : Subscription)
    (found : List Subscription) (pre post : List SubAct) (tr : List SubAct) : Prop where
  eq : tr = pre ++ ⟨.create sub, .ok ()⟩ :: ⟨.findActive tokenHash a, .ok found⟩ :: post
  accountId : sub.accountId = a
  tokenHash : sub.tokenHash = tokenHash
  live : ¬ sub.Retired
  preActs : ∀ x ∈ pre, x.1 = .uuid ∨ x.1 = .now
  postActs : ∀ x ∈ post, x.1 = .now ∨ RetireAct found x.1
  retired : ∀ old ∈ found, ∃ now r, (⟨.markRetired old.id now, r⟩ : SubAct) ∈ post

theorem signup_trace {preauth : Preauth} (hh : preauth.tokenHash ≠ "")
    (hp : Ends (signup a preauth) tr ()) (hok : ∀ x ∈ tr, ¬ Failed x.1 x.2) :
    ∃ sub found pre post, SignupTrace a preauth.tokenHash sub found pre post tr := by
  obtain ⟨tr₁, r, tr₂, rfl, hcreate, hretire⟩ := ends_bind hp
  obtain ⟨id, tr₁, rfl, hk₁⟩ := ends_op hcreate
  obtain ⟨now, tr₁, rfl, hk₂⟩ := ends_op hk₁
  obtain ⟨r', tr₁, rfl, hk₃⟩ := ends_op (f := Prog.pure) hk₂
  obtain ⟨rfl, rfl⟩ := ends_pure hk₃
  cases r' with
  | error e => exact (hok _ (List.mem_append_left _ (.tail _ (.tail _ (.head _)))) rfl).elim
  | ok u =>
    simp only [retireSupersededAccounts, if_neg hh] at hretire
    obtain ⟨r, tr₂, rfl, hk₄⟩ := ends_op hretire
    cases r with
    | error e => exact (hok _ (List.mem_append_right _ (.head _)) rfl).elim
    | ok found =>
      obtain ⟨now', tr₂, rfl, h₂⟩ := ends_op hk₄
      refine ⟨_, found, [_, _], _ :: tr₂,
        ⟨rfl, rfl, rfl, by simp [Subscription.Retired], by simp, ?_, ?_⟩⟩
      · intro x hx
        rcases List.mem_cons.1 hx with rfl | hx
        · exact .inl rfl
        · exact .inr (only_path (retireEach_only fun _ h => h) h₂ x hx)
      · intro old hold
        obtain ⟨r, hr⟩ := retireEach_ends h₂ old hold
        exact ⟨now', r, List.mem_cons_of_mem _ hr⟩

/-- What signups do. -/
def SignupOp : SubOp → Prop
  | .uuid => True
  | .now => True
  | .create _ => True
  | .findActive _ _ => True
  | .markRetired _ _ => True
  | .getProfiles _ => True
  | .deleteProfileSettings _ => True
  | _ => False

theorem signup_only (preauth : Preauth) : Only SignupOp (signup a preauth) := by
  refine only_bind (only_op trivial fun _ => only_op trivial fun _ => only_op trivial
    fun _ => trivial) ?_
  rintro (e | u)
  · trivial
  · simp only [retireSupersededAccounts]
    by_cases hh : preauth.tokenHash = ""
    · rw [if_pos hh]; trivial
    · rw [if_neg hh]
      refine only_op trivial fun r => ?_
      cases r with
      | error e => trivial
      | ok found =>
        refine only_op trivial fun now => only_mono ?_ (retireEach_only fun _ (h : _ ∈ found) => h)
        intro o ho
        cases o <;> simp_all [RetireAct, SignupOp]

end Paths

section Steps

variable {P Q : Pool SubSig AccountID SubState Unit} {e : Event SubSig AccountID}
  {es : List (Event SubSig AccountID)}

/-- How a step of a signup changes the collection. -/
theorem step_subs (hst : Step subHandler P e Q) (ho : SignupOp e.op) (hok : ¬ Failed e.op e.res) :
    (∃ sub, e.op = .create sub ∧ (∀ d ∈ P.state.subs, d.id ≠ sub.id) ∧
      Q.state.subs = P.state.subs ++ [sub]) ∨
      (∃ id now, e.op = .markRetired id now ∧ Q.state.subs =
        markSubscriptionRetired P.state.subs id now) ∨
      (∀ id now, e.op ≠ .markRetired id now) ∧ (∀ sub, e.op ≠ .create sub) ∧
        Q.state.subs = P.state.subs := by
  obtain ⟨ch, hs⟩ := sub_step hst
  obtain ⟨i, o, r⟩ := e
  cases o with
  | create sub =>
    left
    refine ⟨sub, rfl, ?_⟩
    rcases orFail_cases hs with ⟨rfl, -⟩ | ⟨hr, hq⟩
    · exact absurd rfl hok
    · split at hr
      · exact absurd (by rw [hr]; rfl) hok
      · rename_i hany
        rw [if_neg hany] at hq
        rw [hq]
        exact ⟨by simpa using hany, rfl⟩
  | markRetired id now =>
    right; left
    refine ⟨id, now, rfl, ?_⟩
    rcases orFail_cases hs with ⟨rfl, -⟩ | ⟨-, hq⟩
    · exact absurd rfl hok
    · rw [hq]
  | uuid => exact .inr (.inr ⟨by simp, by simp, by rw [← (Prod.mk.inj hs).2]⟩)
  | now => exact .inr (.inr ⟨by simp, by simp, by rw [← (Prod.mk.inj hs).2]⟩)
  | findActive h a =>
    right; right
    rcases orFail_cases hs with ⟨-, hq⟩ | ⟨-, hq⟩ <;> exact ⟨by simp, by simp, by rw [hq]⟩
  | getProfiles a =>
    right; right
    rcases orFail_cases hs with ⟨-, hq⟩ | ⟨-, hq⟩ <;> exact ⟨by simp, by simp, by rw [hq]⟩
  | deleteProfileSettings p =>
    right; right
    rcases orFail_cases hs with ⟨-, hq⟩ | ⟨-, hq⟩ <;> exact ⟨by simp, by simp, by rw [hq]⟩
  | _ => cases ho

/-- What a successful look for superseded subscriptions has found. -/
theorem step_found {h : String} {i a : AccountID} {found : List Subscription}
    (hst : Step subHandler P ⟨i, .findActive h a, .ok found⟩ Q) :
    found = findActiveByTokenHash P.state.subs h a := by
  obtain ⟨ch, hs⟩ := sub_step hst
  rcases orFail_cases hs with ⟨hr, -⟩ | ⟨hr, -⟩
  · cases hr
  · exact Except.ok.inj hr

theorem mem_markSubscriptionRetired {subs : List Subscription} {id now : ℕ} {d' : Subscription} :
    d' ∈ markSubscriptionRetired subs id now ↔
      ∃ d ∈ subs, (if d.id = id then { d with deletionScheduledAt := some now, tokenHash := "" }
        else d) = d' := by
  simp [markSubscriptionRetired]

/-- The events allowed in a run of signups without failures. -/
def SignupStep : SubState → Event SubSig AccountID → Prop := fun _ e =>
  SignupOp e.op ∧ ¬ Failed e.op e.res

/-- Some signup has retired the subscription. -/
def RetiredIn (id : ℕ) (es : List (Event SubSig AccountID)) : Prop :=
  ∃ e ∈ es, ∃ now, e.op = .markRetired id now

/-- A stored subscription stays, and is retired exactly when someone retires it. -/
theorem run_kept (hr : Run subHandler SignupStep P es Q) {d : Subscription}
    (hd : d ∈ P.state.subs) :
    ∃ d' ∈ Q.state.subs, d'.id = d.id ∧ d'.accountId = d.accountId ∧
      (d'.Retired ↔ d.Retired ∨ RetiredIn d.id es) ∧
        (¬ d'.Retired → d'.tokenHash = d.tokenHash) := by
  induction hr with
  | nil => exact ⟨d, hd, rfl, rfl, by simp [RetiredIn], fun _ => rfl⟩
  | @snoc es Q R e _ hok hst ih =>
    obtain ⟨d₁, hd₁, hid, hacc, hret, hhash⟩ := ih
    have hsplit : RetiredIn d.id (es ++ [e]) ↔ RetiredIn d.id es ∨
        ∃ now, e.op = .markRetired d.id now := by
      simp [RetiredIn, or_and_right, exists_or]
    rcases step_subs hst hok.1 hok.2 with ⟨sub, hop, -, hsubs⟩ | ⟨id, now, hop,
      hsubs⟩ | ⟨hop, -, hsubs⟩
    · refine ⟨d₁, by rw [hsubs]; simp [hd₁], hid, hacc, ?_, hhash⟩
      rw [hret, hsplit, hop]; simp
    · by_cases hd₁id : d₁.id = id
      · refine ⟨{ d₁ with deletionScheduledAt := some now, tokenHash := "" }, ?_, hid, hacc, ?_, ?_⟩
        · rw [hsubs, mem_markSubscriptionRetired]
          exact ⟨d₁, hd₁, if_pos hd₁id⟩
        · rw [hsplit, hop]
          simp [Subscription.Retired, ← hid, hd₁id]
        · simp [Subscription.Retired]
      · refine ⟨d₁, ?_, hid, hacc, ?_, hhash⟩
        · rw [hsubs, mem_markSubscriptionRetired]
          exact ⟨d₁, hd₁, if_neg hd₁id⟩
        · rw [hret, hsplit, hop]
          simp only [SubOp.markRetired.injEq]
          rw [← hid]
          simp [Ne.symm hd₁id]
    · refine ⟨d₁, by rw [hsubs]; exact hd₁, hid, hacc, ?_, hhash⟩
      rw [hret, hsplit]
      simp [hop]

/-- A stored subscription was there at the start, or was created in the run. -/
theorem run_origin (hr : Run subHandler SignupStep P es Q) {d' : Subscription}
    (hd : d' ∈ Q.state.subs) :
    (∃ d ∈ P.state.subs, d.id = d'.id ∧ d.accountId = d'.accountId) ∨
      ∃ e ∈ es, ∃ sub, e.op = .create sub ∧ sub.id = d'.id ∧ sub.accountId = d'.accountId := by
  induction hr generalizing d' with
  | nil => exact .inl ⟨d', hd, rfl, rfl⟩
  | @snoc es Q R e _ hok hst ih =>
    have hmono : ∀ {d'' : Subscription}, d'' ∈ Q.state.subs →
        (∃ d ∈ P.state.subs, d.id = d''.id ∧ d.accountId = d''.accountId) ∨
          ∃ e' ∈ es ++ [e], ∃ sub, e'.op = .create sub ∧ sub.id = d''.id ∧
            sub.accountId = d''.accountId := by
      intro d'' hd''
      rcases ih hd'' with h | ⟨e', he', h⟩
      · exact .inl h
      · exact .inr ⟨e', by simp [he'], h⟩
    rcases step_subs hst hok.1 hok.2 with ⟨sub, hop, -, hsubs⟩ | ⟨id, now, hop,
      hsubs⟩ | ⟨hop, -, hsubs⟩
    · rw [hsubs] at hd
      rcases List.mem_append.1 hd with hd | hd
      · exact hmono hd
      · obtain rfl := List.mem_singleton.1 hd
        exact .inr ⟨e, by simp, d', hop, rfl, rfl⟩
    · rw [hsubs, mem_markSubscriptionRetired] at hd
      obtain ⟨d₁, hd₁, rfl⟩ := hd
      have := hmono hd₁
      split <;> exact this
    · rw [hsubs] at hd
      exact hmono hd

/-- Subscription IDs stay distinct. -/
theorem run_nodup (hr : Run subHandler SignupStep P es Q) (hn : (P.state.subs.map (·.id)).Nodup) :
    (Q.state.subs.map (·.id)).Nodup := by
  induction hr with
  | nil => exact hn
  | @snoc es Q R e _ hok hst ih =>
    rcases step_subs hst hok.1 hok.2 with ⟨sub, hop, hnew, hsubs⟩ | ⟨id, now, hop,
      hsubs⟩ | ⟨hop, -, hsubs⟩
    · rw [hsubs, List.map_append, List.nodup_append]
      refine ⟨ih, by simp, ?_⟩
      rintro x hx y hy rfl
      obtain ⟨d, hd, rfl⟩ := List.mem_map.1 hx
      exact hnew d hd (by simpa using hy)
    · have : (markSubscriptionRetired Q.state.subs id now).map (·.id) =
          Q.state.subs.map (·.id) := by
        simp only [markSubscriptionRetired, List.map_map]
        refine List.map_congr_left fun d _ => ?_
        simp only [Function.comp]
        split <;> rfl
      rw [hsubs, this]; exact ih
    · rw [hsubs]; exact ih

end Steps

section Signups

/-- Signups of the accounts, over any collection. -/
def signups (hash : String → String) (accounts : Finset AccountID) (preauth : AccountID → Preauth)
    (s : SubState) :
    Pool SubSig AccountID SubState Unit :=
  ⟨s, fun a => (if a ∈ accounts then SubJob.signup a (preauth a) else .idle).prog hash⟩

/-- A run in which new accounts of one customer sign up, and in which every signup and
its retirement task has finished without a failure. -/
structure SignupRun (hash : String → String) (accounts : Finset AccountID)
    (preauth : AccountID → Preauth) (tokenHash : String) (s : SubState)
    (es : List (Event SubSig AccountID)) (Q : Pool SubSig AccountID SubState Unit) : Prop where
  nonempty : tokenHash ≠ ""
  shared : ∀ a ∈ accounts, (preauth a).tokenHash = tokenHash
  fresh : ∀ d ∈ s.subs, d.accountId ∉ accounts
  ids : (s.subs.map (·.id)).Nodup
  run : Run subHandler NoErrors (signups hash accounts preauth s) es Q
  done : ∀ a ∈ accounts, Q.prog a = .pure ()

/-- The account has a subscription that is not retired. -/
def Live (a : AccountID) (s : SubState) : Prop := ∃ d ∈ s.subs, d.accountId = a ∧ ¬ d.Retired

/-- The subscription of the account is created, and no other signup looks for superseded
accounts after that. -/
def CreatedLast (a : AccountID) (es : List (Event SubSig AccountID)) : Prop :=
  ∃ es₁ sub r es₂, es = es₁ ++ ⟨a, .create sub, r⟩ :: es₂ ∧
    ∀ e ∈ es₂, e.who ≠ a → ∀ h b, e.op ≠ .findActive h b

variable {hash : String → String} {accounts : Finset AccountID} {preauth : AccountID → Preauth}
  {tokenHash : String} {s : SubState} {es es₁ es₂ : List (Event SubSig AccountID)}
  {Q : Pool SubSig AccountID SubState Unit} {a : AccountID}

namespace SignupRun

theorem steps (hR : SignupRun hash accounts preauth tokenHash s es Q) :
    Run subHandler SignupStep (signups hash accounts preauth s) es Q := by
  refine run_only (fun a => ?_) hR.run
  simp only [signups]
  split
  · exact signup_only _
  · trivial

theorem trace (hR : SignupRun hash accounts preauth tokenHash s es Q) (ha : a ∈ accounts) :
    ∃ sub found pre post, SignupTrace a tokenHash sub found pre post (Conc.trace a es) := by
  have hp := run_path hR.run a
  rw [hR.done a ha] at hp
  simp only [signups, if_pos ha, SubJob.prog] at hp
  have := signup_trace (by rw [hR.shared a ha]; exact hR.nonempty) hp fun x hx => by
    obtain ⟨_, h⟩ := run_ok hR.run (mem_trace.1 hx)
    exact h
  rwa [hR.shared a ha] at this

/-- Only the signups act. -/
theorem who_mem (hR : SignupRun hash accounts preauth tokenHash s es Q) {e : Event SubSig AccountID}
    (he : e ∈ es) : e.who ∈ accounts := by
  by_contra hw
  have hp := run_path hR.run e.who
  simp only [signups, if_neg hw, SubJob.prog] at hp
  obtain ⟨hnil, -⟩ := path_pure hp
  have : (⟨e.op, e.res⟩ : SubAct) ∈ Conc.trace e.who es := mem_trace.2 he
  simp [hnil] at this

end SignupRun

namespace SignupTrace

variable {sub : Subscription} {found : List Subscription} {pre post tr l₁ l₂ : List SubAct}

theorem post_not_create (hT : SignupTrace a tokenHash sub found pre post tr) :
    ∀ x ∈ post, ¬ ∃ sub, x.1 = .create sub := by
  rintro x hx ⟨sub, h⟩
  rcases hT.postActs x hx with h' | h'
  · rw [h] at h'; cases h'
  · rw [h] at h'; exact h'

theorem post_not_find (hT : SignupTrace a tokenHash sub found pre post tr) :
    ∀ x ∈ post, ¬ ∃ h b, x.1 = .findActive h b := by
  rintro x hx ⟨h, b, hf⟩
  rcases hT.postActs x hx with h' | h'
  · rw [hf] at h'; cases h'
  · rw [hf] at h'; exact h'

/-- The trace around its one creation. -/
theorem at_create (hT : SignupTrace a tokenHash sub found pre post tr) {x : SubAct}
    (hx : ∃ sub, x.1 = .create sub) (heq : tr = l₁ ++ x :: l₂) :
    l₁ = pre ∧ x = ⟨.create sub, .ok ()⟩ ∧ l₂ = ⟨.findActive tokenHash a, .ok found⟩ :: post := by
  refine split_unique (K := fun x => ∃ sub, x.1 = .create sub) (heq ▸ hT.eq) hx ?_ ?_
  · rintro x hx ⟨sub, h⟩
    rcases hT.preActs x hx with h' | h' <;> · rw [h] at h'; cases h'
  · intro x hx
    rcases List.mem_cons.1 hx with rfl | hx
    · simp
    · exact hT.post_not_create x hx

/-- The trace around its one look for superseded subscriptions. -/
theorem at_find (hT : SignupTrace a tokenHash sub found pre post tr) {x : SubAct}
    (hx : ∃ h b, x.1 = .findActive h b) (heq : tr = l₁ ++ x :: l₂) :
    x = ⟨.findActive tokenHash a, .ok found⟩ ∧ l₂ = post := by
  have heq' : l₁ ++ x :: l₂ = (pre ++ [⟨.create sub, .ok ()⟩]) ++
      ⟨.findActive tokenHash a, .ok found⟩ :: post := by
    rw [← heq, hT.eq]; simp
  refine (split_unique (K := fun x => ∃ h b, x.1 = .findActive h b) heq' hx ?_ ?_).2
  · intro x hx
    rcases List.mem_append.1 hx with hx | hx
    · rintro ⟨h, b, hf⟩
      rcases hT.preActs x hx with h' | h' <;> · rw [hf] at h'; cases h'
    · obtain rfl := List.mem_singleton.1 hx
      simp
  · exact hT.post_not_find

/-- What the signup retires it has found. -/
theorem found_of_retire (hT : SignupTrace a tokenHash sub found pre post tr) {x : SubAct}
    {id now : ℕ} (hx : x ∈ tr) (hop : x.1 = .markRetired id now) : ∃ old ∈ found, old.id = id := by
  obtain ⟨o, r⟩ := x
  cases hop
  rw [hT.eq, List.mem_append, List.mem_cons, List.mem_cons] at hx
  rcases hx with h | h | h | h
  · rcases hT.preActs _ h with h' | h' <;> cases h'
  · cases h
  · cases h
  · rcases hT.postActs _ h with h | h
    · cases h
    · exact h

end SignupTrace

theorem RetiredIn.append_left {id : ℕ} (h : RetiredIn id es₁) : RetiredIn id (es₁ ++ es₂) := by
  obtain ⟨e, he, h⟩ := h
  exact ⟨e, List.mem_append_left _ he, h⟩

theorem RetiredIn.append_right {id : ℕ} (h : RetiredIn id es₂) : RetiredIn id (es₁ ++ es₂) := by
  obtain ⟨e, he, h⟩ := h
  exact ⟨e, List.mem_append_right _ he, h⟩

/-- The facts around the creation of a signup's subscription. -/
structure Creation (a : AccountID) (tokenHash : String) (sub : Subscription)
    (es₁ es₂ : List (Event SubSig AccountID)) (start Q : Pool SubSig AccountID SubState Unit)
    (P₁ P₂ : Pool SubSig AccountID SubState Unit) : Prop where
  before : Run subHandler SignupStep start es₁ P₁
  after : Run subHandler SignupStep P₂ es₂ Q
  nodup : (P₂.state.subs.map (·.id)).Nodup
  accountId : sub.accountId = a
  tokenHash : sub.tokenHash = tokenHash
  live : ¬ sub.Retired
  new : ∀ d ∈ P₁.state.subs, d.id ≠ sub.id
  subs : P₂.state.subs = P₁.state.subs ++ [sub]

namespace SignupRun

/-- Wherever a signup's creation stands in the run. -/
theorem creation (hR : SignupRun hash accounts preauth tokenHash s es Q) (ha : a ∈ accounts)
    {sub' : Subscription} {r : SubSig.Res (.create sub')}
    (heq : es = es₁ ++ ⟨a, .create sub', r⟩ :: es₂) :
    ∃ found pre post P₁ P₂, SignupTrace a tokenHash sub' found pre post (Conc.trace a es) ∧
      Conc.trace a es₁ = pre ∧ Conc.trace a es₂ = ⟨.findActive tokenHash a, .ok found⟩ :: post ∧
      Creation a tokenHash sub' es₁ es₂ (signups hash accounts preauth s) Q P₁ P₂ := by
  obtain ⟨sub, found, pre, post, hT⟩ := hR.trace ha
  have htr : Conc.trace a es = Conc.trace a es₁ ++ ⟨.create sub', r⟩ :: Conc.trace a es₂ := by
    rw [heq, trace_append, trace_cons_self]
  obtain ⟨h₁, hx, h₂⟩ := hT.at_create ⟨sub', rfl⟩ htr
  cases hx
  have hrun := hR.steps
  rw [heq] at hrun
  obtain ⟨P₁, P₂, hb, hok, hst, haft⟩ := run_mid hrun
  have hsubs : (∀ d ∈ P₁.state.subs, d.id ≠ sub'.id) ∧ P₂.state.subs = P₁.state.subs ++ [sub'] := by
    rcases step_subs hst hok.1 hok.2 with ⟨sub'', hop, h⟩ | ⟨id, now, hop, -⟩ | ⟨-, hop, -⟩
    · cases hop; exact h
    · cases hop
    · exact absurd rfl (hop sub')
  have hnd := run_nodup (.snoc hb hok hst) hR.ids
  exact ⟨found, pre, post, P₁, P₂, hT, h₁, h₂, hb, haft, hnd, hT.accountId, hT.tokenHash, hT.live,
    hsubs.1, hsubs.2⟩

/-- A signup's creation stands somewhere in the run. -/
theorem exists_creation (hR : SignupRun hash accounts preauth tokenHash s es Q)
    (ha : a ∈ accounts) :
    ∃ es₁ sub es₂, es = es₁ ++ ⟨a, .create sub, .ok ()⟩ :: es₂ := by
  obtain ⟨sub, found, pre, post, hT⟩ := hR.trace ha
  have hm : (⟨.create sub, .ok ()⟩ : SubAct) ∈ Conc.trace a es := by rw [hT.eq]; simp
  obtain ⟨es₁, es₂, heq⟩ := List.append_of_mem (mem_trace.1 hm)
  exact ⟨es₁, sub, es₂, heq⟩

/-- A look of a signup for superseded subscriptions, and what follows it. -/
theorem find (hR : SignupRun hash accounts preauth tokenHash s es Q)
    {e : Event SubSig AccountID} {h : String} {b : AccountID} (hop : e.op = .findActive h b)
    (heq : es = es₁ ++ e :: es₂) :
    ∃ found, e = ⟨e.who, .findActive tokenHash e.who, .ok found⟩ ∧
      ∀ old ∈ found, RetiredIn old.id es₂ := by
  obtain ⟨i, o, r⟩ := e
  have ha : i ∈ accounts := hR.who_mem (e := ⟨i, o, r⟩) (by rw [heq]; simp)
  obtain ⟨sub, found, pre, post, hT⟩ := hR.trace ha
  have htr : Conc.trace i es = Conc.trace i es₁ ++ ⟨o, r⟩ :: Conc.trace i es₂ := by
    rw [heq, trace_append, trace_cons_self]
  obtain ⟨hx, hpost⟩ := hT.at_find ⟨h, b, hop⟩ htr
  cases hx
  refine ⟨found, rfl, fun old hold => ?_⟩
  obtain ⟨now, r, hm⟩ := hT.retired old hold
  rw [← hpost] at hm
  exact ⟨_, mem_trace.1 hm, now, rfl⟩

/-- Nobody else's creation, and no second one, makes a subscription of the account. -/
theorem create_eq (hR : SignupRun hash accounts preauth tokenHash s es Q)
    {e : Event SubSig AccountID} {sub sub' : Subscription} {r : SubSig.Res (.create sub)}
    (he : e ∈ es) (hop : e.op = .create sub') (hacc : sub'.accountId = a)
    (heq : es = es₁ ++ ⟨a, .create sub, r⟩ :: es₂) (ha : a ∈ accounts) :
    sub' = sub := by
  obtain ⟨i, o, r'⟩ := e
  cases hop
  obtain ⟨l₁, l₂, heq'⟩ := List.append_of_mem he
  obtain ⟨_, _, _, _, _, _, _, _, hC'⟩ := hR.creation (hR.who_mem he) heq'
  have hia : i = a := hC'.accountId.symm.trans hacc
  subst hia
  obtain ⟨found, pre, post, _, _, hT, -, -, hC⟩ := hR.creation ha heq
  have htr : Conc.trace i es = Conc.trace i l₁ ++ ⟨.create sub', r'⟩ :: Conc.trace i l₂ := by
    rw [heq', trace_append, trace_cons_self]
  obtain ⟨-, hx, -⟩ := hT.at_create ⟨sub', rfl⟩ htr
  cases hx
  rfl

/-- An account survives exactly when nobody retires its subscription. -/
theorem live_iff_not_retired (hR : SignupRun hash accounts preauth tokenHash s es Q)
    (ha : a ∈ accounts) {sub : Subscription} {r : SubSig.Res (.create sub)}
    (heq : es = es₁ ++ ⟨a, .create sub, r⟩ :: es₂) :
    Live a Q.state ↔ ¬ RetiredIn sub.id es₂ := by
  obtain ⟨_, _, _, P₁, P₂, -, -, -, hC⟩ := hR.creation ha heq
  obtain ⟨d', hd', hid, hacc, hret, -⟩ := run_kept hC.after (d := sub) (by rw [hC.subs]; simp)
  rw [or_iff_right hC.live] at hret
  constructor
  · rintro ⟨d, hd, hda, hlive⟩
    have hdd : d = d' := by
      have hnd := run_nodup hR.steps hR.ids
      refine List.inj_on_of_nodup_map hnd hd hd' ?_
      rcases run_origin hR.steps hd with ⟨d₀, hd₀, -, hacc₀⟩ | ⟨e, he, sub', hop, hid', hacc'⟩
      · exact absurd ha (by rw [← hda, ← hacc₀]; exact hR.fresh d₀ hd₀)
      · rw [← hid', hR.create_eq he hop (hacc'.trans hda) heq ha, hid]
    rw [← hret, ← hdd]
    exact hlive
  · intro h
    exact ⟨d', hd', hacc.trans hC.accountId, fun h' => h (hret.1 h')⟩

/-- Another signup that looks after the creation finds the account, and retires it. -/
theorem retired_of_find (hR : SignupRun hash accounts preauth tokenHash s es Q) (ha : a ∈ accounts)
    {sub : Subscription} {r : SubSig.Res (.create sub)}
    (heq : es = es₁ ++ ⟨a, .create sub, r⟩ :: es₂)
    {e : Event SubSig AccountID} (he : e ∈ es₂) (hne : e.who ≠ a) {h : String} {b : AccountID}
    (hop : e.op = .findActive h b) : RetiredIn sub.id es₂ := by
  obtain ⟨_, _, _, P₁, P₂, -, -, -, hC⟩ := hR.creation ha heq
  obtain ⟨u, v, rfl⟩ := List.append_of_mem he
  have heq' : es = (es₁ ++ ⟨a, .create sub, r⟩ :: u) ++ e :: v := by rw [heq]; simp
  obtain ⟨found, he', hall⟩ := hR.find hop heq'
  obtain ⟨P₃, P₄, hu, hok, hst, -⟩ := run_mid hC.after
  obtain ⟨d, hd, hid, hacc, hret, hhash⟩ := run_kept hu (d := sub) (by rw [hC.subs]; simp)
  rw [or_iff_right hC.live] at hret
  by_cases hdr : d.Retired
  · exact (hret.1 hdr).append_left
  · -- still live when the other one looks
    have hfound : d ∈ found := by
      rw [he'] at hst
      rw [step_found hst, findActiveByTokenHash, List.mem_filter]
      refine ⟨hd, ?_⟩
      rw [decide_eq_true_eq, hhash hdr, hacc, hC.accountId]
      exact ⟨hC.tokenHash, Ne.symm hne⟩
    obtain ⟨x, hx, now, hxop⟩ := hall d hfound
    exact ⟨x, by simp [hx], now, by rw [hxop, hid]⟩

/-- Who retires the account has looked after its creation, and is another signup. -/
theorem find_of_retired (hR : SignupRun hash accounts preauth tokenHash s es Q) (ha : a ∈ accounts)
    {sub : Subscription} {r : SubSig.Res (.create sub)}
    (heq : es = es₁ ++ ⟨a, .create sub, r⟩ :: es₂)
    (hret : RetiredIn sub.id es₂) : ∃ e ∈ es₂, e.who ≠ a ∧ ∃ h b, e.op = .findActive h b := by
  obtain ⟨_, _, _, P₁, P₂, -, -, -, hC⟩ := hR.creation ha heq
  obtain ⟨e, he, now, hop⟩ := hret
  have hmem : e ∈ es := by rw [heq]; simp [he]
  -- the look of the retiring thread
  obtain ⟨sub', found, pre, post, hT⟩ := hR.trace (hR.who_mem hmem)
  obtain ⟨old, hold, hid⟩ := hT.found_of_retire (x := ⟨e.op, e.res⟩) (mem_trace.2 hmem) hop
  have hf : (⟨e.who, .findActive tokenHash e.who, .ok found⟩ : Event SubSig AccountID) ∈ es := by
    have hm : (⟨.findActive tokenHash e.who, .ok found⟩ : SubAct) ∈ Conc.trace e.who es := by
      rw [hT.eq]; simp
    exact mem_trace.1 hm
  rw [heq, List.mem_append, List.mem_cons] at hf
  rcases hf with hf | hf | hf
  · -- before the creation nothing has its ID
    obtain ⟨u, v, rfl⟩ := List.append_of_mem hf
    obtain ⟨P₃, P₄, -, -, hst, hv⟩ := run_mid hC.before
    have hold' : old ∈ P₃.state.subs := by
      rw [step_found hst] at hold
      exact (List.mem_filter.1 hold).1
    have hsame : P₄.state.subs = P₃.state.subs := by
      rcases step_subs hst trivial Bool.false_ne_true with
        ⟨_, h, -⟩ | ⟨_, _, h, -⟩ | ⟨-, -, h⟩
      · cases h
      · cases h
      · exact h
    obtain ⟨d, hd, hdid, -⟩ := run_kept hv (hsame ▸ hold')
    exact absurd (hdid.trans hid) (hC.new d hd)
  · cases hf
  · refine ⟨_, hf, fun hea => ?_, _, _, rfl⟩
    -- the account's own look leaves it out
    obtain ⟨u, v, rfl⟩ := List.append_of_mem hf
    obtain ⟨P₃, P₄, hu, -, hst, -⟩ := run_mid hC.after
    obtain ⟨d, hd, hdid, hdacc, -⟩ := run_kept hu (d := sub) (by rw [hC.subs]; simp)
    rw [step_found hst] at hold
    obtain ⟨hold', hp⟩ := List.mem_filter.1 hold
    have heq' : old = d :=
      List.inj_on_of_nodup_map (run_nodup hu hC.nodup) hold' hd (hid.trans hdid.symm)
    have hacc : old.accountId ≠ e.who := by simpa using (of_decide_eq_true hp).2
    exact hacc (by rw [heq', hdacc, hC.accountId]; exact hea.symm)

/-- **Survival.** An account survives exactly when no other signup looks for superseded
accounts after its subscription was created. -/
theorem live_iff (hR : SignupRun hash accounts preauth tokenHash s es Q) (ha : a ∈ accounts) :
    Live a Q.state ↔ CreatedLast a es := by
  constructor
  · intro hl
    obtain ⟨es₁, sub, es₂, heq⟩ := hR.exists_creation ha
    refine ⟨es₁, sub, .ok (), es₂, heq, fun e he hne h b hop => ?_⟩
    exact (hR.live_iff_not_retired ha heq).1 hl (hR.retired_of_find ha heq he hne hop)
  · rintro ⟨es₁, sub, r, es₂, heq, hall⟩
    refine (hR.live_iff_not_retired ha heq).2 fun hret => ?_
    obtain ⟨e, he, hne, h, b, hop⟩ := hR.find_of_retired ha heq hret
    exact hall e he hne h b hop

/-- Never do two accounts survive. -/
theorem live_unique (hR : SignupRun hash accounts preauth tokenHash s es Q) {b : AccountID}
    (ha : a ∈ accounts) (hb : b ∈ accounts) (hla : Live a Q.state) (hlb : Live b Q.state) :
    a = b := by
  by_contra hab
  obtain ⟨es₁, sub, r, es₂, heq, hall⟩ := (hR.live_iff ha).1 hla
  obtain ⟨es₁', sub', r', es₂', heq', hall'⟩ := (hR.live_iff hb).1 hlb
  -- each of them looks after its own creation, so the later one sees the earlier one
  have hfind : ∀ {c : AccountID} {sub : Subscription} {r : SubSig.Res (.create sub)}
      {l₁ l₂ : List (Event SubSig AccountID)}, c ∈ accounts → es = l₁ ++ ⟨c, .create sub, r⟩ :: l₂ →
      ∃ e ∈ l₂, e.who = c ∧ ∃ h b, e.op = .findActive h b := by
    intro c sub r l₁ l₂ hc hl
    obtain ⟨found, post, _, _, _, -, -, htr, -⟩ := hR.creation hc hl
    have hm : (⟨.findActive tokenHash c, .ok found⟩ : SubAct) ∈ Conc.trace c l₂ := by rw [htr]; simp
    exact ⟨_, mem_trace.1 hm, rfl, _, _, rfl⟩
  have hearlier : ∀ {c d : AccountID} {sub sub' : Subscription} {r : SubSig.Res (.create sub)}
      {r' : SubSig.Res (.create sub')} {l₁ l₂ m₂ t : List (Event SubSig AccountID)}, c ≠ d →
        d ∈ accounts →
      (∀ e ∈ l₂, e.who ≠ c → ∀ h b, e.op ≠ .findActive h b) → es = l₁ ++ ⟨c, .create sub, r⟩ :: l₂ →
      (⟨c, .create sub, r⟩ :: l₂ : List (Event SubSig AccountID)) = t ++ ⟨d, .create sub', r'⟩ ::
      m₂ → False := by
    intro c d sub sub' r r' l₁ l₂ m₂ t hcd hd hall hl ht
    have hd' : es = (l₁ ++ t) ++ ⟨d, .create sub', r'⟩ :: m₂ := by rw [hl, ht, List.append_assoc]
    obtain ⟨e, he, hwho, h, b, hop⟩ := hfind hd hd'
    cases t with
    | nil =>
      have := (List.cons.inj ht).1
      cases this
      exact hcd rfl
    | cons x t =>
      obtain ⟨-, rfl⟩ := List.cons.inj ht
      exact hall e (by simp [he]) (by rw [hwho]; exact Ne.symm hcd) h b hop
  rcases List.append_eq_append_iff.1 (heq.symm.trans heq') with ⟨t, -, ht⟩ | ⟨t, -, ht⟩
  · exact hearlier hab hb hall heq ht
  · exact hearlier (Ne.symm hab) ha hall' heq' ht

end SignupRun

/-- **Signup-reset.** Once all signups and their retirement tasks have finished without
store errors, never two of the accounts are live, and exactly one is if and only if some
account's subscription was created after every other signup had looked. -/
theorem one_live_iff (hR : SignupRun hash accounts preauth tokenHash s es Q) :
    ((∃! a, a ∈ accounts ∧ Live a Q.state) ↔ ∃ a ∈ accounts, CreatedLast a es) ∧
      ∀ a ∈ accounts, ∀ b ∈ accounts, Live a Q.state → Live b Q.state → a = b := by
  refine ⟨⟨?_, ?_⟩, fun a ha b hb => hR.live_unique ha hb⟩
  · rintro ⟨a, ⟨ha, hl⟩, -⟩
    exact ⟨a, ha, (hR.live_iff ha).1 hl⟩
  · rintro ⟨a, ha, hc⟩
    have hl := (hR.live_iff ha).2 hc
    exact ⟨a, ⟨ha, hl⟩, fun b hb => hR.live_unique hb.1 ha hb.2 hl⟩

end Signups

section Examples

instance (a : AccountID) (s : SubState) : Decidable (Live a s) :=
  inferInstanceAs (Decidable (∃ d ∈ s.subs, d.accountId = a ∧ ¬ d.Retired))

/-- An empty store. -/
def noSubs : SubState := ⟨[], [], [], 0⟩

/-- The preauth of the customer. -/
def customer : AccountID → Preauth := fun _ => ⟨"pa", "h", 100, "IVPN Pro"⟩

/-- The accounts 1 and 2 act in the given order, without failures. -/
def twoSignups (order : List AccountID) : List (AccountID × SubChoice) :=
  order.map fun a =>
    (a, { tick := 1, fail := false, uuid := a, paSession := none, preauth := none })

/-- Account 2 signs up after account 1. -/
def inTurn : List (AccountID × SubChoice) := twoSignups [1, 1, 1, 1, 1, 2, 2, 2, 2, 2, 2, 2]

/-- Both signups complete before either looks. -/
def crossed : List (AccountID × SubChoice) := twoSignups [1, 1, 1, 2, 2, 2, 1, 2, 1, 1, 1, 2, 2, 2]

theorem inTurn_plays :
    (play subHandler NoErrors inTurn (signups id {1, 2} customer noSubs)).isSome := by decide

theorem crossed_plays :
    (play subHandler NoErrors crossed (signups id {1, 2} customer noSubs)).isSome := by decide

/-- A schedule of the two signups that plays to their end is such a run. -/
theorem signupRun_of_play {l : List (AccountID × SubChoice)}
    (hp : (play subHandler NoErrors l (signups id {1, 2} customer noSubs)).isSome)
    (h1 : ((play subHandler NoErrors l (signups id {1, 2} customer noSubs)).get hp).2.prog 1 = .pure
      ())
    (h2 : ((play subHandler NoErrors l (signups id {1, 2} customer noSubs)).get hp).2.prog 2 = .pure
      ()) :
    SignupRun id {1, 2} customer "h" noSubs
      ((play subHandler NoErrors l (signups id {1, 2} customer noSubs)).get hp).1
      ((play subHandler NoErrors l (signups id {1, 2} customer noSubs)).get hp).2 := by
  refine ⟨by
    decide, fun _ _ => rfl, by simp [noSubs], by simp [noSubs], run_play hp, fun a ha => ?_⟩
  rcases Finset.mem_insert.1 ha with rfl | ha
  · exact h1
  · obtain rfl := Finset.mem_singleton.1 ha
    exact h2

theorem one_live_inTurn :
    ((∃! a, a ∈ ({1, 2} : Finset AccountID) ∧
        Live a ((play subHandler NoErrors inTurn (signups id {1, 2} customer noSubs)).get
          inTurn_plays).2.state) ↔
      ∃ a ∈ ({1, 2} : Finset AccountID),
        CreatedLast a
          ((play subHandler NoErrors inTurn (signups id {1, 2} customer noSubs)).get
            inTurn_plays).1) ∧
    ∀ a ∈ ({1, 2} : Finset AccountID), ∀ b ∈ ({1, 2} : Finset AccountID),
      Live a ((play subHandler NoErrors inTurn (signups id {1, 2} customer noSubs)).get
        inTurn_plays).2.state →
        Live b ((play subHandler NoErrors inTurn (signups id {1, 2} customer noSubs)).get
          inTurn_plays).2.state → a = b :=
  one_live_iff (signupRun_of_play inTurn_plays rfl rfl)

/-- Two signups that see each other retire each other. -/
theorem crossed_none_live :
    ∃ es Q, SignupRun id {1, 2} customer "h" noSubs es Q ∧ ∀ a ∈ ({1, 2} : Finset AccountID),
      ¬ Live a Q.state :=
  ⟨_, _, signupRun_of_play crossed_plays rfl rfl, by decide⟩

end Examples

end ModDNS.Api
