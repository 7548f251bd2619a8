import Mathlib.Data.List.Pairwise
import ModDNS.Accounts.JobWrites

/-!
# Runs of the account jobs

* `step_field`: where the value of a stored field comes from after a step.
* `run_copies`: what all copies of an account satisfy, the stored one and those of the flows.
* `run_draws`: no string is drawn twice.
-/

namespace ModDNS.Accounts

open Conc

variable {ι : Type} {env : Env} {ok : State → Event AccountSig ι → Prop} {s : State}
  {jobs : ι → Job} {P Q : AccountPool ι} {e : Event AccountSig ι} {es : List (Event AccountSig ι)}

/-- An event, as an action of its thread. -/
abbrev actOf (e : Event AccountSig ι) : Act := ⟨e.op, e.res⟩

section Jobs

variable [DecidableEq ι]

/-- **Rule for jobs.** What holds at the start and is kept by every allowed step holds after every
run. -/
theorem run_ind_jobs {I : List (Event AccountSig ι) → AccountPool ι → Prop}
    (hI : I [] (start env s jobs)) (hstep : ∀ es P e Q, Run (accountHandler env) ok
      (start env s jobs) es P → I es P →
      Allowed (jobs e.who) (trace e.who es) e.op → ok P.state e → Step (accountHandler env) P e Q →
        I (es ++ [e]) Q)
    (hr : Run (accountHandler env) ok (start env s jobs) es Q) : I es Q :=
  run_ind_meets (A := fun i => Allowed (jobs i))
    (Q := fun i l r => ∀ a, r = .ok a → Clean l ∧ ∀ r ∈ (jobs i).reauths, Used l r)
    (fun i => does_run (job_does env (jobs i))) hI hstep hr

/-- Every action of a job was allowed when it was taken. -/
theorem run_allowed {es₁ es₂ : List (Event AccountSig ι)}
    (hr : Run (accountHandler env) ok (start env s jobs) (es₁ ++ e :: es₂) Q) :
    Allowed (jobs e.who) (trace e.who es₁) e.op := by
  have hn : (es₁ ++ e :: es₂)[es₁.length]? = some e := by simp
  have hmet := run_met (A := fun i => Allowed (jobs i))
    (Q := fun i l r => ∀ a, r = .ok a → Clean l ∧ ∀ r ∈ (jobs i).reauths, Used l r)
    (fun i => does_run (job_does env (jobs i))) hr hn
  rw [List.take_left] at hmet
  exact hmet

/-- All writes of a job that has succeeded have succeeded, and it has used the reauthentications
that it presents. -/
theorem run_used {i : ι} (hr : Run (accountHandler env) ok (start env s jobs) es Q)
    (hi : Q.prog i = .pure (.ok ())) :
    Clean (C := accountCalls) (trace i es) ∧ ∀ r ∈ (jobs i).reauths, Used (trace i es) r :=
  run_ended (A := fun i => Allowed (jobs i))
    (Q := fun i l r => ∀ a, r = .ok a → Clean l ∧ ∀ r ∈ (jobs i).reauths, Used l r)
    (fun i => does_run (job_does env (jobs i))) hr hi () rfl

end Jobs

section Fields

/-- A field that is stored by whole-account writes only, and always by them. -/
structure WholeField {β : Type} (f : Account → β) : Prop where
  set : ∀ (d acc : Account), f (d.set acc) = f acc
  deletionCode : ∀ (d : Account) code expiresAt,
    f { d with deletionCode := code, deletionCodeExpires := expiresAt } = f d
  profiles : ∀ (d : Account) profiles, f { d with profiles := profiles } = f d

variable {β : Type} {f : Account → β} {id : ObjectID} [DecidableEq ι]

/-- A stored field after a step: it was there before, or a flow has written it, or the account is
new. -/
theorem step_field (hf : WholeField f) (hst : Step (accountHandler env) P e Q) {d' : Account}
    (hd' : Q.state.accounts.get id = some d') :
    (∃ d, P.state.accounts.get id = some d ∧ f d' = f d) ∨
      (∃ w ∈ written (actOf e), w.2.id = id ∧ f d' = f w.2 ∧
        ∃ d, P.state.accounts.get id = some d) ∨
      d' ∈ created (actOf e) ∧ P.state.accounts.get id = none := by
  have hget := step_get hst id
  rw [hd'] at hget
  obtain ⟨i, o, r⟩ := e
  have hsame : docAfter id o r (P.state.accounts.get id) = P.state.accounts.get id →
      ∃ d, P.state.accounts.get id = some d ∧ f d' = f d := fun h => ⟨d', (hget.trans h).symm, rfl⟩
  cases r with
  | error err => exact .inl (hsame docAfter_error)
  | ok a =>
    -- an operator on single fields
    have hmod : ∀ {j : ObjectID} {g : Account → Account}, (∀ d, f (g d) = f d) →
        some d' = (if id = j then (P.state.accounts.get id).map g else P.state.accounts.get id) →
        ∃ d, P.state.accounts.get id = some d ∧ f d' = f d := by
      intro j g hg h
      split at h
      · obtain ⟨d, hd, rfl⟩ := Option.map_eq_some_iff.1 h.symm
        exact ⟨d, hd, hg d⟩
      · exact ⟨d', h.symm, rfl⟩
    cases o with
    | createAccount acc =>
      simp only [docAfter] at hget
      split at hget
      · rename_i hid
        cases hget
        exact .inr (.inr ⟨rfl, by rw [hid]; exact step_create hst⟩)
      · exact .inl ⟨d', hget.symm, rfl⟩
    | updateAccount loaded acc =>
      simp only [docAfter] at hget
      split at hget
      · rename_i hid
        obtain ⟨d, hd, rfl⟩ := Option.map_eq_some_iff.1 hget.symm
        exact .inr (.inl ⟨_, rfl, hid.symm, hf.set d acc, d, hd⟩)
      · exact .inl ⟨d', hget.symm, rfl⟩
    | updateDeletionCode j code expiresAt =>
      exact .inl (hmod (fun d => hf.deletionCode d code _) hget)
    | addProfileToAccount j p => exact .inl (hmod (fun d => hf.profiles d _) hget)
    | removeProfileFromAccount j p => exact .inl (hmod (fun d => hf.profiles d _) hget)
    | deleteAccountById j =>
      simp only [docAfter] at hget
      split at hget
      · cases hget
      · exact .inl ⟨d', hget.symm, rfl⟩
    | _ => exact .inl (hsame rfl)

end Fields

section Copies

variable [DecidableEq ι]

/-- A copy of an account: the stored one, or one that a flow has loaded or written. -/
def Copy (es : List (Event AccountSig ι)) (s : State) (acc : Account) : Prop :=
  s.accounts.get acc.id = some acc ∨ ∃ i, Seen (trace i es) acc

variable {β : Type} {f : Account → β} {K : List (Event AccountSig ι) → ObjectID → β → Prop}

theorem trace_snoc (i : ι) : trace i (es ++ [e]) = if e.who = i then trace i es ++ [actOf e]
    else trace i es := by
  rw [trace_append]
  split <;> rename_i h <;> simp [trace, h]

/-- **Rule for copies.** What holds of a whole field of new accounts and is kept by every change of
a copy holds of every copy, in every run: also of stale ones. -/
theorem run_copies (hf : WholeField f) (hmono : ∀ es e id b, K es id b → K (es ++ [e]) id b)
    (hnew : ∀ es (acc : Account), acc.emailVerified = false → acc.tokens = [] →
      acc.mfa = ⟨⟨false, "", [], []⟩⟩ →
      K es acc.id (f acc))
    (hchange : ∀ es Q i loaded acc, Run (accountHandler env) ok (start env s jobs) es Q →
      K es loaded.id (f loaded) → Change (jobs i) (trace i es) loaded acc →
      K (es ++ [⟨i, .updateAccount loaded acc, .ok ()⟩]) acc.id (f acc))
    (h0 : ∀ acc, s.accounts.get acc.id = some acc → K [] acc.id (f acc))
    (hr : Run (accountHandler env) ok (start env s jobs) es Q) :
    ∀ acc, Copy es Q.state acc → K es acc.id (f acc) := by
  refine run_ind_jobs (I := fun es Q => ∀ acc, Copy es Q.state acc → K es acc.id (f acc)) ?_ ?_ hr
  · rintro acc (h | ⟨i, x, hx, -⟩)
    · exact h0 acc h
    · cases hx
  intro es P e Q hr ih hA _ hst
  -- what a write stores is a copy that the flow has changed
  have hwrite : ∀ w ∈ written (actOf e), K (es ++ [e]) w.2.id (f w.2) := by
    intro w hw
    obtain ⟨i, o, r⟩ := e
    cases mem_written.1 hw
    exact hchange es P i w.1 w.2 hr (ih w.1 (.inr ⟨i, hA.1⟩)) hA.2
  have hstored : ∀ d', Q.state.accounts.get d'.id = some d' → K (es ++ [e]) d'.id (f d') := by
    intro d' hd'
    rcases step_field hf hst hd' with ⟨d, hd, hfd⟩ | ⟨w, hw, hid, hfd, -⟩ | ⟨he, -⟩
    · rw [hfd, ← Collection.get_id hd]
      refine hmono es e _ _ (ih d (.inl ?_))
      rw [Collection.get_id hd]
      exact hd
    · rw [hfd, ← hid]
      exact hwrite w hw
    · obtain ⟨i, o, r⟩ := e
      cases mem_created.1 he
      exact hnew _ d' hA.1 hA.2.1 hA.2.2
  rintro acc (h | ⟨i, x, hx, hseen⟩)
  · exact hstored acc h
  · rw [trace_snoc] at hx
    split at hx
    · rcases List.mem_append.1 hx with hx | hx
      · exact hmono es e _ _ (ih acc (.inr ⟨i, x, hx, hseen⟩))
      · obtain rfl := List.mem_singleton.1 hx
        rcases hseen with hload | ⟨w, hw, rfl⟩
        · exact hmono es e _ _ (ih acc (.inl (step_loads hst hload)))
        · exact hwrite w hw
    · exact hmono es e _ _ (ih acc (.inr ⟨i, x, hx, hseen⟩))

end Copies

section Draws

variable [DecidableEq ι]

/-- The events draw no string that is the same. -/
def DrawApart (e e' : Event AccountSig ι) : Prop := ∀ v, Draws v (actOf e) → ¬ Draws v (actOf e')

instance : Std.Symm (DrawApart (ι := ι)) := ⟨fun _ _ h v h1 h2 => h v h2 h1⟩

/-- No string is drawn twice. -/
theorem run_draws (hr : Run (accountHandler env) ok P es Q) :
    (∀ e ∈ es, ∀ v, Draws v (actOf e) → v ∈ Q.state.drawn) ∧ es.Pairwise DrawApart := by
  refine run_ind (I := fun es Q => (∀ e ∈ es, ∀ v, Draws v (actOf e) → v ∈ Q.state.drawn) ∧
    es.Pairwise DrawApart) ⟨by simp, .nil⟩ ?_ hr
  rintro es P e Q ⟨hmem, hpair⟩ - hst
  rcases step_draws hst with ⟨w, hw, hfresh, hdr⟩ | ⟨hno, hdr⟩
  · refine ⟨fun e' he' v hv => ?_, ?_⟩
    · rw [hdr]
      rcases List.mem_append.1 he' with he' | he'
      · exact List.mem_cons_of_mem _ (hmem e' he' v hv)
      · rw [List.mem_singleton.1 he'] at hv
        rw [draws_eq hv hw]
        exact List.mem_cons_self
    · rw [List.pairwise_append]
      refine ⟨hpair, List.pairwise_singleton _ _, fun e' he' e'' he'' v hv hv' => ?_⟩
      rw [List.mem_singleton.1 he''] at hv'
      rw [draws_eq hw hv'] at hfresh
      exact hfresh (hmem e' he' v hv)
  · refine ⟨fun e' he' v hv => ?_, ?_⟩
    · rw [hdr]
      rcases List.mem_append.1 he' with he' | he'
      · exact hmem e' he' v hv
      · rw [List.mem_singleton.1 he'] at hv
        exact absurd hv (hno v)
    · rw [List.pairwise_append]
      refine ⟨hpair, List.pairwise_singleton _ _, fun e' he' e'' he'' v hv hv' => ?_⟩
      rw [List.mem_singleton.1 he''] at hv'
      exact hno v hv'

/-- A string has one flow that has drawn it. -/
theorem draws_unique (hr : Run (accountHandler env) ok P es Q) {i j : ι} {v : String} {x y : Act}
    (hx : x ∈ trace i es) (hxv : Draws v x) (hy : y ∈ trace j es) (hyv : Draws v y) : i = j := by
  rw [mem_trace] at hx hy
  by_contra hij
  have hne : (⟨i, x.1, x.2⟩ : Event AccountSig ι) ≠ ⟨j, y.1, y.2⟩ := fun h =>
    hij (congrArg Event.who h)
  exact (run_draws hr).2.forall hx hy hne v hxv hyv

/-- A flow does not draw a backup code twice. -/
theorem drawnCodes_nodup (hr : Run (accountHandler env) ok P es Q) (i : ι) :
    (drawnCodes (trace i es)).Nodup := by
  unfold drawnCodes trace
  rw [List.filterMap_filterMap]
  refine (run_draws hr).2.filterMap _ fun e e' hapart v hv w hw hvw => ?_
  have hdraws : ∀ {e : Event AccountSig ι} {v : String},
      ((if e.who = i then some (actOf e) else none).bind drawnCode) = some v →
        Draws v (actOf e) := by
    intro e v h
    split at h
    · exact drawnCode_draws h
    · cases h
  exact hapart v (hdraws hv) (hvw ▸ hdraws hw)

end Draws

section Examples

/-- An environment with few attempts, where a password is its own hash. -/
def exampleEnv : Env where
  idLimiterMax := 1
  idLimiterExpiration := 100
  otpExpirationTime := 100
  validate p _ _ := p = "123456"
  checkPasswordHash p h := p = h
  toLower s := s
  equalFold a b := a = b
  isSpecial _ := true
  validateEmailUpdate _ _ _ := true

/-- An answer without a value. -/
def answer : Choice := ⟨0, false, "", 0, [], none⟩

def answerStr (v : String) : Choice := { answer with str := v }

def exampleCodes : List String :=
  ["AAAAAAAAAAAAAAAA", "BBBBBBBBBBBBBBBB", "CCCCCCCCCCCCCCCC", "DDDDDDDDDDDDDDDD",
  "EEEEEEEEEEEEEEEE", "FFFFFFFFFFFFFFFF", "GGGGGGGGGGGGGGGG", "HHHHHHHHHHHHHHHH"]

/-- The choices of a signup of account 1. -/
def signupChoices (password : String) : List Choice :=
  [answer, answer, answer, { answer with num := 1 }, answerStr "p", answer, answerStr password,
    answer, answer]

/-- The choices of `TotpEnable` and `TotpConfirm`. -/
def enableChoices : List Choice := [answer, answerStr "secret", answer]

def confirmChoices : List Choice :=
  [answer, answer, answer] ++ exampleCodes.map answerStr ++ [answer]

/-- Thread `i` goes on under the choices. -/
def goes {ι : Type} (i : ι) (chs : List Choice) : List (ι × Choice) := chs.map fun ch => (i, ch)

def steps {ι : Type} (i : ι) (n : ℕ) : List (ι × Choice) := goes i (List.replicate n answer)

/-- An account with TOTP. -/
def totpSetup {ι : Type} (i j k : ι) : List (ι × Choice) :=
  goes i (signupChoices "Password1234!") ++ goes j enableChoices ++ goes k confirmChoices

end Examples

end ModDNS.Accounts
