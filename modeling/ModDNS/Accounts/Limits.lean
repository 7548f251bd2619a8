import ModDNS.Accounts.Runs

/-!
# Attempt limits

* `limit_iff`: attempts are cut off after too many failures exactly if no right code is submitted
  then: the limiter is asked about wrong codes only.
* `guess_after_limit`: the right code is accepted after the limit has been passed.
-/

namespace ModDNS.Accounts

open Conc

/-- The kinds of submissions, each with its counter. -/
inductive CodeKind where
  | verifyTotp (action : TotpAction)
  | totpConfirm
  | verifyEmailOTP

def CodeKind.label : CodeKind → Label
  | .verifyTotp _ => .totpFails
  | .totpConfirm => .totpConfirmFails
  | .verifyEmailOTP => .emailVerifyFail

variable {env : Env} {kind : CodeKind} {id : ObjectID} {otp : String} {l : List Act}

def submit (env : Env) (id : ObjectID) (otp : String) : CodeKind → AccountFlow Unit
  | .verifyTotp action => do let _ ← verifyTotp env id otp action
  | .totpConfirm => do let _ ← totpConfirm env id otp
  | .verifyEmailOTP => verifyEmailOTP env id otp

/-- The code is right, for the account, the secret and the time that the flow has read. -/
def RightCode (env : Env) (id : ObjectID) (otp : String) (l : List Act) : CodeKind → Prop
  | .verifyTotp _ =>
    ∃ acc now, (⟨.getAccountById id, .ok acc⟩ : Act) ∈ l ∧ (⟨.now, .ok now⟩ : Act) ∈ l ∧
      acc.mfa.totp.enabled = true ∧ (env.validate otp acc.mfa.totp.secret now = true ∨
        otp ∉ acc.mfa.totp.backupCodesUsed ∧ otp ∈ acc.mfa.totp.backupCodes)
  | .totpConfirm => ∃ secret acc now, (⟨.getTOTPSecret id, .ok secret⟩ : Act) ∈ l ∧
      (⟨.getAccountById id, .ok acc⟩ : Act) ∈ l ∧ (⟨.now, .ok now⟩ : Act) ∈ l ∧
        acc.mfa.totp.enabled = false ∧
        env.validate otp secret now = true
  | .verifyEmailOTP =>
    otp ≠ "" ∧ ∃ acc, (⟨.getAccountById id, .ok acc⟩ : Act) ∈ l ∧ (acc.emailVerified = true ∨
      ∃ now target, (⟨.now, .ok now⟩ : Act) ∈ l ∧ otpTarget acc.tokens now = some target ∧
        target.value = otp)

/-- No call was answered by an error. -/
def NoErrors (l : List Act) : Prop := ∀ x ∈ l, ∃ a, x.2 = .ok a

section Flows

theorem NoErrors.append {l' : List Act} : NoErrors (l ++ l') ↔ NoErrors l ∧ NoErrors l' := by
  simp only [NoErrors, List.forall_mem_append]

@[simp] theorem noErrors_nil : NoErrors [] := by simp [NoErrors]

@[simp] theorem noErrors_cons {x : Act} : NoErrors (x :: l) ↔ (∃ a, x.2 = .ok a) ∧ NoErrors l := by
  simp [NoErrors]

theorem tick_yields (label : Label) :
    Yields (fun l' _ => ∃ r, l' = l ++ [⟨.incr label id env.idLimiterExpiration, r⟩])
    (tick env label id) l :=
  yields_act_bind (fun _ => ⟨_, rfl⟩) fun _ => yields_pure ⟨_, rfl⟩

theorem isAllowed_yields (label : Label) :
    Yields (fun l' _ => ∃ r, l' = l ++ [⟨.getCounter label id, r⟩])
    (isAllowed env label id) l := by
  refine yields_attempt_bind fun r => ?_
  cases r <;> exact yields_pure ⟨_, rfl⟩

theorem verifyTotp_yields (action : TotpAction) :
    Yields (fun l r => (∃ a, r = .ok a) ↔ RightCode env id otp l (.verifyTotp action) ∧ NoErrors l)
      (verifyTotp env id otp action) [] := by
  refine yields_act_bind (fun e => by simp [NoErrors]) fun acc => ?_
  refine yields_ensure_bind (fun h => ?_) fun hen =>
    yields_act_bind (fun e => by simp [NoErrors]) fun now => ?_
  · simp [RightCode, NoErrors]
  · split
    · rename_i hval
      exact yields_pure (by simp [RightCode, hen, hval])
    · rename_i hval
      split
      · rename_i totp hb
        obtain ⟨hused, hmem, -⟩ := verifyTotpBackup_ok hb
        refine yields_act_bind (fun e => by simp [NoErrors]) fun _ => yields_pure ?_
        simp [RightCode, hen, hused, hmem]
      · rename_i e hb
        -- the flow reads nothing else before it fails
        have hwrong : ∀ l', (∀ acc', (⟨.getAccountById id, .ok acc'⟩ : Act) ∈ l' → acc' = acc) →
            (∀ now', (⟨.now, .ok now'⟩ : Act) ∈ l' → now' = now) →
              ¬ RightCode env id otp l' (.verifyTotp action) := by
          rintro l' hacc hnow ⟨acc', now', ha, ht, -, hcode⟩
          obtain rfl := hacc _ ha
          obtain rfl := hnow _ ht
          rcases hcode with hcode | ⟨hused, hmem⟩
          · exact hval hcode
          · exact verifyTotpBackup_error hb hused hmem
        refine yields_bind (tick_yields _) ?_ ?_
        · rintro _ e - ⟨r, rfl⟩
          exact iff_of_false (by simp) fun h => hwrong _ (by simp) (by simp) h.1
        rintro _ u - ⟨r, rfl⟩
        refine yields_bind (isAllowed_yields _) ?_ ?_
        · rintro _ e - ⟨r', rfl⟩
          exact iff_of_false (by simp) fun h => hwrong _ (by simp) (by simp) h.1
        rintro _ b - ⟨r', rfl⟩
        split <;> exact yields_throw
          (iff_of_false (by simp) fun h => hwrong _ (by simp) (by simp) h.1)

theorem randomStrings_yields (n : ℕ) : Yields (fun l' r => (∃ cs : List String, r = .ok cs ∧
      l' = l ++ cs.map fun c => (⟨.randomString 16, .ok c⟩ : Act)) ∨ (∃ e, r = .error e) ∧
        ¬ NoErrors l')
    (randomStrings n) l := by
  induction n generalizing l with
  | zero => exact yields_pure (.inl ⟨[], rfl, by simp⟩)
  | succ n ih =>
    refine yields_act_bind (fun e => .inr ⟨⟨e, rfl⟩, by simp [NoErrors.append]⟩) fun c => ?_
    refine yields_bind ih ?_ ?_
    · rintro l' e - (⟨cs, h, -⟩ | h)
      · cases h
      · exact .inr ⟨⟨e, rfl⟩, h.2⟩
    · rintro l' codes - (⟨cs, ⟨⟩, rfl⟩ | ⟨⟨e, h⟩, -⟩)
      · exact yields_pure (.inl ⟨c :: codes, rfl, by simp⟩)
      · cases h

theorem totpConfirm_yields :
    Yields (fun l r => (∃ a, r = .ok a) ↔ RightCode env id otp l .totpConfirm ∧ NoErrors l)
      (totpConfirm env id otp) [] := by
  refine yields_act_bind (fun e => by simp) fun secret =>
    yields_act_bind (fun e => by simp) fun acc => ?_
  refine yields_ensure_bind (fun h => ?_) fun hdis =>
    yields_act_bind (fun e => by simp) fun now => ?_
  · simp [RightCode]
  split
  · rename_i hval
    refine yields_bind (tick_yields _) ?_ ?_
    · rintro _ e - ⟨r, rfl⟩
      simp [RightCode, hval]
    rintro _ u - ⟨r, rfl⟩
    refine yields_bind (isAllowed_yields _) ?_ ?_
    · rintro _ e - ⟨r', rfl⟩
      simp [RightCode, hval]
    rintro _ b - ⟨r', rfl⟩
    exact yields_throw (by simp [RightCode, hval])
  · rename_i hval
    refine yields_bind (randomStrings_yields 8) ?_ ?_
    · rintro l' e - (⟨cs, h, -⟩ | ⟨-, h⟩)
      · cases h
      · simp [h]
    rintro _ codes - (⟨cs, ⟨⟩, rfl⟩ | ⟨⟨e, h⟩, -⟩)
    · refine yields_act_bind (fun e => by simp [NoErrors.append]) fun _ => yields_pure ?_
      have hcodes : NoErrors (codes.map fun c => (⟨.randomString 16, .ok c⟩ : Act)) := by
        intro x hx
        obtain ⟨c, -, rfl⟩ := List.mem_map.1 hx
        exact ⟨c, rfl⟩
      simp [RightCode, NoErrors.append, hdis, hval, hcodes]
    · cases h

theorem verifyEmailOTP_yields :
    Yields (fun l r => (∃ a, r = .ok a) ↔ RightCode env id otp l .verifyEmailOTP ∧ NoErrors l)
      (verifyEmailOTP env id otp) [] := by
  refine yields_ensure_bind (fun h => ?_) fun hne =>
    yields_act_bind (fun e => by simp) fun acc => ?_
  · simp only [RightCode]
    simp_all
  split
  · rename_i hv
    exact yields_pure (by simp [RightCode, hne, hv])
  · rename_i hv
    refine yields_act_bind (fun e => by simp) fun now => ?_
    split
    · rename_i hnone
      exact yields_throw (by simp [RightCode, hv, hnone])
    · rename_i target htarget
      split
      · rename_i hotp
        refine yields_bind (tick_yields _) ?_ ?_
        · rintro _ e - ⟨r, rfl⟩
          simp [RightCode, hv, htarget, hotp]
        rintro _ u - ⟨r, rfl⟩
        refine yields_bind (isAllowed_yields _) ?_ ?_
        · rintro _ e - ⟨r', rfl⟩
          simp [RightCode, hv, htarget, hotp]
        rintro _ b - ⟨r', rfl⟩
        split <;> exact yields_throw (by simp [RightCode, hv, htarget, hotp])
      · rename_i hotp
        have hotp : target.value = otp := by simpa using hotp
        refine yields_attempt_bind fun r => ?_
        cases r with
        | ok u => exact yields_pure (by simp [RightCode, hne, htarget, hotp])
        | error e => cases e <;> exact yields_throw (by simp)

/-- **A submission succeeds exactly if its code is right**, unless a call fails. -/
theorem submit_yields (kind : CodeKind) :
    Yields (fun l r => (∃ a, r = .ok a) ↔ RightCode env id otp l kind ∧ NoErrors l)
      (submit env id otp kind) [] := by
  -- the result of the two TOTP functions is left
  have hdiscard : ∀ {α : Type} {p : AccountFlow α} {R : List Act → Prop},
      Yields (fun l r => (∃ a, r = .ok a) ↔ R l) p [] →
        Yields (fun l r => (∃ a, r = .ok a) ↔ R l) (do let _ ← p) [] := by
    intro α p R hp
    refine yields_bind hp (fun l' e _ h => ?_) fun l' a _ h => yields_pure ?_
    · simpa using h
    · simpa using h
  cases kind with
  | verifyTotp action => exact hdiscard (verifyTotp_yields action)
  | totpConfirm => exact hdiscard totpConfirm_yields
  | verifyEmailOTP => exact verifyEmailOTP_yields

end Flows

section Limit

/-- A submission of a code, run in some state. -/
structure Attempt (env : Env) (kind : CodeKind) (id : ObjectID) where
  otp : String
  before : State
  acts : List Act
  result : Except AccountErr Unit
  after : State
  runs : Exec (accountHandler env) () (submit env id otp kind).run before acts result after

def Attempt.Failed (a : Attempt env kind id) : Prop := ∃ e, a.result = .error e

/-- The code is right, and no call has failed. -/
def Attempt.Right (a : Attempt env kind id) : Prop :=
  RightCode env id a.otp a.acts kind ∧ NoErrors a.acts

/-- The attempts that have failed. -/
def failures (as : List (Attempt env kind id)) : ℤ := (as.countP fun a => a.result.isOk = false : ℕ)

/-- After more than `IdLimiterMax` failures, every attempt fails. -/
def CutOff (as : List (Attempt env kind id)) : Prop :=
  ∀ as₁ a as₂, as = as₁ ++ a :: as₂ → env.idLimiterMax < failures as₁ → a.Failed

/-- After more than `IdLimiterMax` failures, no right code is submitted. -/
def NoLateGuess (as : List (Attempt env kind id)) : Prop :=
  ∀ as₁ a as₂, as = as₁ ++ a :: as₂ → env.idLimiterMax < failures as₁ → ¬ a.Right

theorem attempt_failed (a : Attempt env kind id) : a.Failed ↔ ¬ a.Right := by
  have hend := meets_exec (submit_yields kind) a.runs
  rw [List.nil_append] at hend
  rw [Attempt.Right, ← hend]
  unfold Attempt.Failed
  cases a.result <;> simp

/-- **The limit cuts attempts off exactly if no right code is submitted after it.** -/
theorem limit_iff (env : Env) (kind : CodeKind) (id : ObjectID) (as : List (Attempt env kind id)) :
    CutOff as ↔ NoLateGuess as := by
  simp only [CutOff, NoLateGuess, attempt_failed]

end Limit

section Examples

/-- The attempt that runs under the choices. -/
def attemptOf (otp : String) (chs : List Choice) (s : State)
    (h : ((submit env id otp kind).run.exec (accountHandler env) () chs s).isSome) :
    Attempt env kind id where
  otp := otp
  before := s
  acts := (((submit env id otp kind).run.exec (accountHandler env) () chs s).get h).1
  result := (((submit env id otp kind).run.exec (accountHandler env) () chs s).get h).2.1
  after := (((submit env id otp kind).run.exec (accountHandler env) () chs s).get h).2.2
  runs := exec_of_choices (Option.some_get h).symm

/-- An account with TOTP. -/
def totpAccount : State where
  accounts := ⟨[{ newAccount "a@x" 1 "p1" with mfa := ⟨⟨true, "secret", [], []⟩⟩ }], by decide⟩
  counters := []
  secrets := []
  drawn := []
  now := 0

def firstGuess : Attempt exampleEnv (.verifyTotp .login) 1 :=
  attemptOf "000000" [answer, answer, answer, answer] totpAccount (by decide)

def secondGuess : Attempt exampleEnv (.verifyTotp .login) 1 :=
  attemptOf "000001" [answer, answer, answer, answer] firstGuess.after (by decide)

def thirdGuess : Attempt exampleEnv (.verifyTotp .login) 1 :=
  attemptOf "123456" [answer, answer] secondGuess.after (by decide)

/-- With a limit of one, two attempts have failed, their counter is alive, and the third one
succeeds. -/
theorem guess_after_limit :
    secondGuess.before = firstGuess.after ∧ thirdGuess.before = secondGuess.after ∧
    thirdGuess.before.getCounter .totpFails 1 = some 2 ∧
    ¬ CutOff [firstGuess, secondGuess, thirdGuess] := by
  refine ⟨rfl, rfl, by decide, fun h => ?_⟩
  obtain ⟨e, he⟩ := h [firstGuess, secondGuess] thirdGuess [] rfl (by decide)
  have hok : thirdGuess.result.isOk = true := by decide
  rw [he] at hok
  cases hok

end Examples

end ModDNS.Accounts
