import ModDNS.Accounts.Runs

/-!
# Lost account updates

* `changes_kept`: the changes that operations make to different fields are all there in the end, in
  every run in which every account is written back from a copy that is out of date in no field but
  those that the operation changes itself.
* `consent_drops_profile`: a consent change writes back the profiles that it has loaded.
-/

namespace ModDNS.Accounts

open Conc Relation

/-- The stored fields. The expiry of the deletion code goes with it, and each profile is a field. -/
inductive Field where
  | email
  | emailVerified
  | tokens
  | password
  | profile (profileId : String)
  | errorReportsConsent
  | mfa
  | deletionCode
  deriving DecidableEq

/-- The accounts agree in the field. -/
def Field.Same (d d' : Account) : Field → Prop
  | .email => d.email = d'.email
  | .emailVerified => d.emailVerified = d'.emailVerified
  | .tokens => d.tokens = d'.tokens
  | .password => d.password = d'.password
  | .profile p => p ∈ d.profiles ↔ p ∈ d'.profiles
  | .errorReportsConsent => d.errorReportsConsent = d'.errorReportsConsent
  | .mfa => d.mfa = d'.mfa
  | .deletionCode =>
    d.deletionCode = d'.deletionCode ∧ d.deletionCodeExpires = d'.deletionCodeExpires

instance (d d' : Account) : (f : Field) → Decidable (f.Same d d')
  | .email | .emailVerified | .tokens | .password | .errorReportsConsent | .mfa =>
    inferInstanceAs (Decidable (_ = _))
  | .profile _ => inferInstanceAs (Decidable (_ ↔ _))
  | .deletionCode => inferInstanceAs (Decidable (_ ∧ _))

def Account.fields (d : Account) : List Field :=
  [.email, .emailVerified, .tokens, .password, .errorReportsConsent, .mfa, .deletionCode] ++
    d.profiles.map .profile

/-- The fields in which the accounts differ. -/
def differing (d d' : Account) : List Field := (d.fields ++ d'.fields).filter fun f => ¬ f.Same d d'

/-- The fields of the account `id` that the action sets to something else than the flow has
loaded. -/
def AccountOp.changes (id : ObjectID) : AccountOp → List Field
  | .updateAccount loaded acc => if acc.id = id then differing loaded acc else []
  | .updateDeletionCode i _ _ => if i = id then [.deletionCode] else []
  | .addProfileToAccount i p | .removeProfileFromAccount i p => if i = id then [.profile p] else []
  | _ => []

/-- The account is a new one, or deleted. -/
def AccountOp.replaces (id : ObjectID) : AccountOp → Bool
  | .createAccount acc => acc.id = id
  | .deleteAccountById i => i = id
  | _ => false

/-- The field is stored as the action leaves it. -/
def AsLeft (f : Field) : AccountOp → Account → Prop
  | .updateAccount _ acc, d => f.Same acc d
  | .updateDeletionCode _ code expiresAt, d =>
    d.deletionCode = code ∧ d.deletionCodeExpires = some expiresAt
  | .addProfileToAccount _ p, d => p ∈ d.profiles
  | .removeProfileFromAccount _ p, d => p ∉ d.profiles
  | _, _ => True

variable {ι : Type} {env : Env} {ok : State → Event AccountSig ι → Prop} {s : State}
  {jobs : ι → Job} {P Q : AccountPool ι} {e : Event AccountSig ι} {es : List (Event AccountSig ι)}
  {id : ObjectID} {f : Field} {d d' d'' : Account}

/-- The operations change different fields of the account, which none of them creates or deletes. -/
def DifferentFields (id : ObjectID) (es : List (Event AccountSig ι)) : Prop :=
  (∀ e ∈ es, e.op.replaces id = false) ∧
    ∀ e ∈ es, ∀ e' ∈ es, ∀ f ∈ e.op.changes id, f ∈ e'.op.changes id → e.who = e'.who

instance [DecidableEq ι] : Decidable (DifferentFields id es) := inferInstanceAs (Decidable (_ ∧ _))

/-- The last change that a successful operation has made to a field is stored. -/
def ChangesKept [DecidableEq ι] (id : ObjectID) (es : List (Event AccountSig ι))
    (Q : AccountPool ι) : Prop :=
  ∀ i, Q.prog i = .pure (.ok ()) → ∀ l₁ x l₂ f, trace i es = l₁ ++ x :: l₂ → f ∈ x.1.changes id →
    (∀ y ∈ l₂, f ∉ y.1.changes id) → ∀ d, Q.state.accounts.get id = some d → AsLeft f x.1 d

/-- An account is written back from a copy that is out of date in no field but those that the flow
has changed. -/
def UpToDate (s : State) (e : Event AccountSig ι) : Prop :=
  ∀ w ∈ written (actOf e), ∀ d ∈ s.accounts.get w.2.id, ∀ f : Field, f.Same w.1 w.2 →
    f.Same d (d.set w.1)

section Fields

theorem Field.Same.refl (f : Field) (d : Account) : f.Same d d := by
  cases f <;> simp [Same]

theorem Field.Same.trans (h : f.Same d d') (h' : f.Same d' d'') : f.Same d d'' := by
  cases f with
  | profile p => exact Iff.trans h h'
  | deletionCode => exact ⟨h.1.trans h'.1, h.2.trans h'.2⟩
  | _ => exact Eq.trans h h'

theorem Field.Same.symm (h : f.Same d d') : f.Same d' d := by
  cases f with
  | profile p => exact Iff.symm h
  | deletionCode => exact ⟨h.1.symm, h.2.symm⟩
  | _ => exact Eq.symm h

/-- Copies that agree in a field store the same in it. -/
theorem Field.Same.set (h : f.Same d d') : f.Same (d''.set d) (d''.set d') := by
  cases f with
  | profile p => exact h
  | password => exact congrArg (fun x => x.or d''.password) h
  | deletionCode =>
    refine ⟨?_, congrArg (fun x => x.or d''.deletionCodeExpires) h.2⟩
    simp only [Account.set, h.1]
  | _ => exact h

theorem mem_differing : f ∈ differing d d' ↔ ¬ f.Same d d' := by
  simp only [differing, List.mem_filter, decide_eq_true_eq, and_iff_right_iff_imp]
  intro h
  cases f with
  | profile p =>
    have hp : p ∈ d.profiles ∨ p ∈ d'.profiles := by
      by_contra hp
      simp only [not_or] at hp
      exact h (by simp [Field.Same, hp])
    simpa [Account.fields] using hp
  | _ => simp [Account.fields]

theorem AsLeft.same {o : AccountOp} (h : AsLeft f o d) (hf : f ∈ o.changes id) (hs : f.Same d d') :
    AsLeft f o d' := by
  have hone : ∀ {i : ObjectID} {g : Field}, f ∈ (if i = id then [g] else []) → f = g := by
    intro i g hg
    split at hg
    · exact List.mem_singleton.1 hg
    · cases hg
  cases o with
  | updateAccount loaded acc => exact Field.Same.trans h hs
  | updateDeletionCode i code expiresAt =>
    obtain rfl := hone hf
    exact ⟨hs.1.symm.trans h.1, hs.2.symm.trans h.2⟩
  | addProfileToAccount i p =>
    obtain rfl := hone hf
    exact hs.1 h
  | removeProfileFromAccount i p =>
    obtain rfl := hone hf
    exact fun hp => h (hs.2 hp)
  | _ => trivial

end Fields

section Steps

variable [DecidableEq ι] {J : Job} {l : List Act} {loaded acc : Account}

/-- What a flow writes of a field that it has changed is stored. -/
theorem change_stored (h : Change J l loaded acc) (hf : ¬ f.Same loaded acc) :
    f.Same acc (d.set acc) := by
  cases f with
  | password =>
    show acc.password = acc.password.or d.password
    cases h with
    | edits hedit =>
      -- once a password has been written, there is one
      have hsome : acc.password.isSome ∨ acc.password = loaded.password := by
        clear hf
        induction hedit with
        | refl => exact .inr rfl
        | tail _ hab ih =>
          cases hab with
          | password hash => exact .inl rfl
          | _ => exact ih
      rcases hsome with hsome | hsame
      · obtain ⟨hash, hhash⟩ := Option.isSome_iff_exists.1 hsome
        rw [hhash]
        rfl
      · exact absurd hsame.symm hf
    | resetPassword v hash => rfl
    | _ => exact absurd rfl hf
  | deletionCode =>
    have hsame : Field.Same loaded acc .deletionCode := by
      cases h with
      | edits hedit =>
        clear hf
        induction hedit with
        | refl => exact .refl _ _
        | tail _ hab ih => exact ih.trans (by cases hab <;> exact ⟨rfl, rfl⟩)
      | _ => exact ⟨rfl, rfl⟩
    exact absurd hsame hf
  | profile p => exact Iff.rfl
  | _ => exact rfl

/-- A step that does not change the field leaves it as it is stored. -/
theorem step_kept (hok : UpToDate P.state e) (hst : Step (accountHandler env) P e Q)
    (hrep : e.op.replaces id = false) (hf : f ∉ e.op.changes id)
    (hd' : Q.state.accounts.get id = some d') :
    ∃ d, P.state.accounts.get id = some d ∧ f.Same d d' := by
  have hget := step_get hst id
  rw [hd'] at hget
  obtain ⟨i, o, r⟩ := e
  have hsame : docAfter id o r (P.state.accounts.get id) = P.state.accounts.get id →
      ∃ d, P.state.accounts.get id = some d ∧ f.Same d d' := fun h =>
        ⟨d', (hget.trans h).symm, .refl f d'⟩
  -- an operator on a single field
  have hmod : ∀ {j : ObjectID} {g : Account → Account}, (j = id → ∀ d, f.Same d (g d)) →
      some d' = (if id = j then (P.state.accounts.get id).map g else P.state.accounts.get id) →
      ∃ d, P.state.accounts.get id = some d ∧ f.Same d d' := by
    intro j g hg h
    split at h
    · rename_i hid
      obtain ⟨d, hd, rfl⟩ := Option.map_eq_some_iff.1 h.symm
      exact ⟨d, hd, hg hid.symm d⟩
    · exact ⟨d', h.symm, .refl f d'⟩
  cases r with
  | error err => exact hsame docAfter_error
  | ok a =>
    cases o with
    | createAccount acc =>
      have hne : id ≠ acc.id := by rintro rfl; simp [AccountOp.replaces] at hrep
      exact hsame (if_neg hne)
    | deleteAccountById j =>
      have hne : id ≠ j := by rintro rfl; simp [AccountOp.replaces] at hrep
      exact hsame (if_neg hne)
    | updateAccount loaded acc =>
      simp only [docAfter] at hget
      split at hget
      · rename_i hid
        obtain ⟨d, hd, rfl⟩ := Option.map_eq_some_iff.1 hget.symm
        have hloaded : f.Same loaded acc := by
          by_contra h
          exact hf (by simp [AccountOp.changes, hid.symm, mem_differing, h])
        exact ⟨d, hd,
          (hok (loaded, acc) rfl d (by rw [← hid]; exact hd) f hloaded).trans hloaded.set⟩
      · exact ⟨d', hget.symm, .refl f d'⟩
    | updateDeletionCode j code expiresAt =>
      refine hmod (fun hj d => ?_) hget
      have hne : f ≠ .deletionCode := by simpa [AccountOp.changes, hj] using hf
      cases f with
      | deletionCode => exact absurd rfl hne
      | profile p => exact Iff.rfl
      | _ => exact rfl
    | addProfileToAccount j p =>
      refine hmod (fun hj d => ?_) hget
      have hne : f ≠ .profile p := by simpa [AccountOp.changes, hj] using hf
      cases f with
      | profile q =>
        have hq : q ≠ p := fun h => hne (by rw [h])
        simp [Field.Same, hq]
      | deletionCode => exact ⟨rfl, rfl⟩
      | _ => exact rfl
    | removeProfileFromAccount j p =>
      refine hmod (fun hj d => ?_) hget
      have hne : f ≠ .profile p := by simpa [AccountOp.changes, hj] using hf
      cases f with
      | profile q =>
        have hq : q ≠ p := fun h => hne (by rw [h])
        simp [Field.Same, hq]
      | deletionCode => exact ⟨rfl, rfl⟩
      | _ => exact rfl
    | _ => exact hsame rfl

/-- A step that changes the field leaves its change. -/
theorem step_left {i : ι} {o : AccountOp} {a : o.Ans} (hA : Allowed J l o)
    (hst : Step (accountHandler env) P ⟨i, o, .ok a⟩ Q) (hf : f ∈ o.changes id)
    (hd : Q.state.accounts.get id = some d) : AsLeft f o d := by
  have hget := step_get hst id
  rw [hd] at hget
  cases o with
  | updateAccount loaded acc =>
    simp only [AccountOp.changes] at hf
    split at hf
    · rename_i hid
      simp only [docAfter, if_pos hid.symm] at hget
      obtain ⟨d₀, -, rfl⟩ := Option.map_eq_some_iff.1 hget.symm
      exact change_stored hA.2 (mem_differing.1 hf)
    · cases hf
  | updateDeletionCode j code expiresAt =>
    simp only [AccountOp.changes] at hf
    split at hf
    · rename_i hid
      simp only [docAfter, if_pos hid.symm] at hget
      obtain ⟨d₀, -, rfl⟩ := Option.map_eq_some_iff.1 hget.symm
      exact ⟨rfl, rfl⟩
    · cases hf
  | addProfileToAccount j p =>
    simp only [AccountOp.changes] at hf
    split at hf
    · rename_i hid
      simp only [docAfter, if_pos hid.symm] at hget
      obtain ⟨d₀, -, rfl⟩ := Option.map_eq_some_iff.1 hget.symm
      simp [AsLeft]
    · cases hf
  | removeProfileFromAccount j p =>
    simp only [AccountOp.changes] at hf
    split at hf
    · rename_i hid
      simp only [docAfter, if_pos hid.symm] at hget
      obtain ⟨d₀, -, rfl⟩ := Option.map_eq_some_iff.1 hget.symm
      simp [AsLeft]
    · cases hf
  | _ => trivial

/-- Steps that do not change the field leave it as it is stored. -/
theorem run_kept (hr : Run (accountHandler env) UpToDate P es Q)
    (hrep : ∀ e ∈ es, e.op.replaces id = false) (hf : ∀ e ∈ es, f ∉ e.op.changes id)
    (hd' : Q.state.accounts.get id = some d') :
    ∃ d, P.state.accounts.get id = some d ∧ f.Same d d' := by
  induction hr generalizing d' with
  | nil => exact ⟨d', hd', .refl f d'⟩
  | snoc hr hok hst ih =>
    simp only [List.forall_mem_append, List.forall_mem_singleton] at hrep hf
    obtain ⟨d₁, hd₁, hs₁⟩ := step_kept hok hst hrep.2 hf.2 hd'
    obtain ⟨d, hd, hs⟩ := ih hrep.1 hf.1 hd₁
    exact ⟨d, hd, hs.trans hs₁⟩

/-- **No lost update**, in every run in which every account is written back from a copy that is up
to date in the fields that are not changed. -/
theorem changes_kept (env : Env) (jobs : ι → Job) (s : State) (id : ObjectID)
    (hr : Run (accountHandler env) UpToDate (start env s jobs) es Q)
    (hdiff : DifferentFields id es) :
    ChangesKept id es Q := by
  intro i hi l₁ x l₂ f hsplit hf hlast d hd
  have hclean := (run_used hr hi).1 x (by simp [hsplit])
  obtain ⟨es₁, es₂, rfl, rfl, rfl⟩ := trace_split hsplit
  obtain ⟨o, r⟩ := x
  -- the write has succeeded
  obtain ⟨a, rfl⟩ : ∃ a, r = .ok a := by
    refine hclean ?_
    cases o with
    | updateAccount | updateDeletionCode | addProfileToAccount | removeProfileFromAccount => rfl
    | _ => cases hf
  -- nobody else changes the field
  have hothers : ∀ e ∈ es₂, f ∉ e.op.changes id := by
    intro e he hfe
    have hwho : i = e.who := hdiff.2 ⟨i, o, .ok a⟩ (by simp) e (by simp [he]) f hf hfe
    subst hwho
    exact hlast ⟨e.op, e.res⟩ (mem_trace.2 he) hfe
  have hA := run_allowed hr
  obtain ⟨P, P', -, -, hst, hr₂⟩ := run_mid hr
  obtain ⟨d₀, hd₀, hs⟩ := run_kept hr₂ (fun e he => hdiff.1 e (by simp [he])) hothers hd
  exact (step_left hA hst hf hd₀).same hf hs

end Steps

section Examples

/-- The stored account of a signup. -/
def oneAccount : State where
  accounts := ⟨[{ newAccount "a@x" 1 "p1" with password := some "Password1234!" }], by decide⟩
  counters := []
  secrets := []
  drawn := []
  now := 0

/-- A consent change, and a profile that is added. -/
def consentJobs : Fin 2 → Job
  | 0 => .updateAccount 1 [⟨.replace, .errorReportsConsent, .scalar "true" true⟩] ⟨""⟩
  | 1 => .updateAccount 1 [⟨.add, .profiles, .scalar "p2" false⟩] ⟨""⟩

/-- The profile is added between the two steps of the consent change. -/
def addedBetween : List (Fin 2 × Choice) :=
  steps (thread 0) 1 ++ steps (thread 1) 1 ++ steps (thread 0) 1

theorem addedBetween_plays :
    (play (accountHandler exampleEnv) Free addedBetween
      (start exampleEnv oneAccount consentJobs)).isSome := by decide

/-- The added profile is lost. -/
theorem consent_drops_profile :
    ∃ es Q, Run (accountHandler exampleEnv) Free (start exampleEnv oneAccount consentJobs) es Q ∧
      (∀ i, (Q.prog i).result = some (.ok ())) ∧ DifferentFields 1 es ∧ ¬ ChangesKept 1 es Q := by
  refine ⟨_, _, run_play addedBetween_plays, by decide, by decide, fun h => ?_⟩
  have hlost : AsLeft (.profile "p2") (.addProfileToAccount 1 "p2") _ :=
    h 1 (Prog.result_eq_some.1 (by decide)) [] ⟨.addProfileToAccount 1 "p2", .ok ()⟩
      [] _ rfl (by decide)
      (List.forall_mem_nil _) _ rfl
  have hkept : "p2" ∉ ["p1"] := by decide
  exact hkept hlost

/-- The profile is added before. -/
def addedBefore : List (Fin 2 × Choice) := steps (thread 1) 1 ++ steps (thread 0) 2

/-- An account is written back from the stored one. -/
def Unchanged (s : State) (e : Event AccountSig ι) : Prop :=
  ∀ w ∈ written (actOf e), ∀ d ∈ s.accounts.get w.2.id, d = w.1

instance (s : State) (e : Event AccountSig ι) : Decidable (Unchanged s e) :=
  inferInstanceAs (Decidable (∀ w ∈ written (actOf e), ∀ d ∈ s.accounts.get w.2.id, d = w.1))

theorem unchanged_upToDate (s : State) (e : Event AccountSig ι) (h : Unchanged s e) :
    UpToDate s e := by
  intro w hw d hd f _
  rw [h w hw d hd]
  cases f with
  | password => show w.1.password = w.1.password.or w.1.password; cases w.1.password <;> rfl
  | deletionCode =>
    refine ⟨?_, ?_⟩
    · show w.1.deletionCode = if w.1.deletionCode = "" then w.1.deletionCode else w.1.deletionCode
      simp
    · show w.1.deletionCodeExpires = w.1.deletionCodeExpires.or w.1.deletionCodeExpires
      cases w.1.deletionCodeExpires <;> rfl
  | profile p => exact Iff.rfl
  | _ => exact rfl

theorem addedBefore_plays :
    (play (accountHandler exampleEnv) Unchanged addedBefore
      (start exampleEnv oneAccount consentJobs)).isSome := by
  decide

theorem changes_kept_before : ChangesKept 1
    ((play (accountHandler exampleEnv) Unchanged addedBefore
      (start exampleEnv oneAccount consentJobs)).get
      addedBefore_plays).1
    ((play (accountHandler exampleEnv) Unchanged addedBefore
      (start exampleEnv oneAccount consentJobs)).get
      addedBefore_plays).2 :=
  changes_kept exampleEnv consentJobs oneAccount 1
  (run_mono unchanged_upToDate (run_play addedBefore_plays)) (by decide)

end Examples

end ModDNS.Accounts
