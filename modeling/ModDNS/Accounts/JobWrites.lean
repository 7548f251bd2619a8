import ModDNS.Accounts.FlowWrites

/-!
# The jobs write what is allowed

`job_does`: whatever a job does is `Allowed`, and if it succeeds, it has used every
reauthentication that it presents.
-/

namespace ModDNS.Accounts

open Conc Relation

variable {env : Env} {J : Job} {l : List Act}

section Email

/-- A request that succeeds has mailed the code that it has generated, to the address that it has
stored. -/
theorem requestEmailVerificationOTP_does (id : ObjectID)
    (hJ : ∃ id, J = .requestEmailVerificationOTP id) :
    Does (Allowed J)
    (fun l' _ => ∃ email otp, (⟨.sendEmailVerificationOTP email otp, .ok ()⟩ : Act) ∈ l' ∧
      (∀ v, (⟨.generateCode, .ok v⟩ : Act) ∈ l' → v = otp) ∧
      ∀ loaded acc, (⟨.updateAccount loaded acc, .ok ()⟩ : Act) ∈ l' → acc.email = email)
      (requestEmailVerificationOTP env id) [] := by
  refine does_act_bind trivial fun acc => does_ensure_bind fun _ => does_bind (tick_does _ _) ?_
  rintro _ ⟨⟩ - ⟨n, rfl⟩
  refine does_bind (isAllowed_does _ _) ?_
  rintro _ b - ⟨r, rfl⟩
  refine does_ensure_bind fun _ => does_act_bind trivial fun otp =>
    does_act_bind trivial fun now => ?_
  refine does_act_bind ⟨⟨⟨.getAccountById id, .ok acc⟩, by simp, .inl rfl⟩,
    .issueOTP acc _ rfl hJ (by simp)⟩ fun _ => ?_
  refine does_attempt_bind rfl
    ⟨hJ, by simp, acc, _, _, List.mem_concat_self, rfl, rfl, List.mem_concat_self, rfl, rfl⟩
      fun sent => ?_
  cases sent with
  | error e => exact does_throw
  | ok u =>
    refine does_pure ⟨acc.email, otp, by simp, fun v hv => ?_, fun loaded acc' hw => ?_⟩
    · simpa using hv
    · simp only [List.nil_append, List.cons_append, List.mem_cons, List.not_mem_nil, or_false] at hw
      simp at hw
      rw [hw.2]

theorem otpTarget_mem {tokens : List Token} {now : ℕ} {t : Token}
    (h : otpTarget tokens now = some t) :
    t ∈ tokens ∧ t.type = .emailVerificationOTP ∧ now ≤ t.expiresAt := by
  have hm := List.mem_of_getLast? h
  simpa using List.mem_filter.1 hm

theorem verifyEmailOTP_does (id : ObjectID) (otp : String) (hJ : ∃ id, J = .verifyEmailOTP id otp) :
    Does (Allowed J) (fun _ _ => True) (verifyEmailOTP env id otp) l := by
  refine does_ensure_bind fun _ => does_act_bind trivial fun acc => ?_
  split
  · exact does_pure trivial
  · refine does_act_bind trivial fun now => ?_
    split
    · exact does_throw
    · rename_i target htarget
      obtain ⟨hm, htype, hexp⟩ := otpTarget_mem htarget
      split
      · refine does_bind (tick_does _ _) fun _ _ _ _ =>
          does_bind (isAllowed_does _ _) fun _ _ _ _ => ?_
        split <;> exact does_throw
      · rename_i hotp
        obtain rfl : target.value = otp := by simpa using hotp
        refine does_attempt_throw ⟨seen_byId.mono (List.prefix_append _ _), ?_⟩
          (fun _ => does_pure trivial) fun e => ?_
        · exact .verifyEmail acc target hm htype hJ ⟨now, hexp, by simp⟩
        · cases e <;> exact ⟨_, rfl⟩

theorem newToken_does (type : TokenType) :
    Does (Allowed J) (fun l' t => t.type = type ∧
      ∃ now, l' = l ++ [⟨.now, .ok now⟩] ++ [⟨.generateSecureToken 48, .ok t.value⟩])
        (newToken type) l :=
  does_act_bind trivial fun now => does_act_bind trivial fun _ => does_pure ⟨rfl, now, rfl⟩

/-- A request that succeeds has mailed the token that it has generated, if it has stored one. -/
theorem sendResetPasswordEmail_does (email : String)
    (hJ : ∃ email, J = .sendResetPasswordEmail email) :
    Does (Allowed J) (fun l' _ => Unwritten l' ∨ ∃ v,
      (⟨.sendPasswordResetEmail email v, .ok ()⟩ : Act) ∈ l' ∧
      (∀ w, (⟨.generateSecureToken 48, .ok w⟩ : Act) ∈ l' → w = v) ∧
      ∀ loaded acc, (⟨.updateAccount loaded acc, .ok ()⟩ : Act) ∈ l' →
        (⟨.getAccountByEmail email, .ok loaded⟩ : Act) ∈ l' ∧ acc.email = loaded.email)
      (sendResetPasswordEmail email) [] := by
  refine does_attempt_bind rfl trivial fun r => ?_
  cases r with
  | error e => exact does_pure (.inl (by simp [Unwritten]))
  | ok acc =>
    dsimp only
    split
    · exact does_pure (.inl (by simp [Unwritten]))
    · refine does_attempt_bind rfl trivial fun verified =>
        does_bind (newToken_does .passwordReset) ?_
      rintro _ token - ⟨htype, now, rfl⟩
      refine does_act_bind ⟨⟨⟨.getAccountByEmail email, .ok acc⟩, by simp, .inl rfl⟩,
        .issue acc token (by simp [htype]) (fun _ => hJ) (by simp) (by simp [Unwritten])⟩ fun _ =>
          ?_
      -- the mail
      have hsend : ∀ l, Allowed J l (.sendPasswordResetEmail email token.value) →
          Does (Allowed J) (fun l' r => ∀ u, r = Except.ok u →
            l' = l ++ [⟨.sendPasswordResetEmail email token.value, .ok ()⟩])
            (attempt (sendResetEmail acc email token.value)) l := by
        intro l hl
        have honly : Only (fun o => accountCalls.must o = false)
            (sendResetEmail acc email token.value).run := by
          unfold sendResetEmail ensure
          split
          · exact ⟨rfl, fun _ => trivial⟩
          · trivial
        refine does_attempt (Q := fun l' _ => l' = l ++
          [⟨.sendPasswordResetEmail email token.value, .ok ()⟩]) ?_ honly
          (fun l' a _ h _ _ => h) (fun _ _ _ _ => nofun)
        exact does_ensure_bind fun _ =>
          call_does (.sendPasswordResetEmail email token.value) hl fun _ => rfl
      refine does_bind (hsend _ ⟨hJ, by simp, acc, _, token, by simp, List.mem_concat_self, rfl,
        by simp, htype, rfl⟩) ?_
      rintro l₂ sent - hsent
      split
      · exact does_throw
      · exact does_throw
      · rw [hsent () rfl]
        refine does_pure (.inr ⟨token.value, by simp, fun w hw => ?_, fun loaded acc' hw => ?_⟩)
        · simpa using hw
        · simp at hw
          obtain ⟨rfl, rfl⟩ := hw
          exact ⟨by simp, rfl⟩

theorem otherTokens_does (v : String) (tokens : List Token) :
    Does (Allowed J) (fun _ x => x.1 = tokens.filter fun t =>
      ¬ (t.type = .passwordReset ∧ t.value = v))
      (otherTokens v tokens) l := by
  induction tokens generalizing l with
  | nil => exact does_pure rfl
  | cons t tokens ih =>
    unfold otherTokens
    split
    · rename_i hof
      refine does_act_bind trivial fun now => does_ensure_bind fun _ => does_bind ih ?_
      rintro l' ⟨others, found⟩ - ho
      exact does_pure (by simpa [hof] using ho)
    · rename_i hof
      refine does_bind ih ?_
      rintro l' ⟨others, found⟩ - ho
      refine does_pure ?_
      rw [List.filter_cons, if_pos (decide_eq_true hof)]
      exact congrArg (t :: ·) ho

theorem verifyPasswordReset_does (v newPassword : String) (mfa : MfaData) :
    Does (Allowed J) (fun _ _ => True) (verifyPasswordReset env v newPassword mfa) l := by
  refine does_attempt_bind rfl trivial fun r => ?_
  cases r with
  | error e => exact does_throw
  | ok loaded =>
    refine does_bind (mfaCheck_does _ _) fun l₁ _ hl₁ _ =>
      does_bind (otherTokens_does v loaded.tokens) ?_
    rintro l₂ ⟨others, found⟩ hl₂ ho
    refine does_ensure_bind fun _ => does_bind (setPassword_does loaded newPassword) ?_
    rintro l₃ acc hl₃ ⟨hash, rfl⟩
    have hload : Seen (l ++ [⟨.getAccountByToken v .passwordReset, .ok loaded⟩]) loaded :=
      seen_last (.inl rfl)
    dsimp only at ho
    subst ho
    exact call_does (.updateAccount _ _)
      ⟨hload.mono (hl₁.trans (hl₂.trans hl₃)), .resetPassword loaded v hash⟩ fun _ => trivial

end Email

section Totp

theorem totpEnable_does (id : ObjectID) :
    Does (Allowed J) (fun _ _ => True) (totpEnable env id) l :=
  does_act_bind trivial fun _ => does_act_bind trivial fun _ => does_act_bind trivial fun _ =>
  does_pure trivial

theorem randomStrings_does (n : ℕ) (hl : Unwritten l) :
    Does (Allowed J) (fun l' codes => Unwritten l' ∧ drawnCodes l' = drawnCodes l ++ codes)
      (randomStrings n) l := by
  induction n generalizing l with
  | zero => exact does_pure ⟨hl, by simp⟩
  | succ n ih =>
    refine does_act_bind rfl fun code => does_bind (ih (hl.snoc (by simp))) ?_
    rintro l' codes - ⟨hl', hc⟩
    refine does_pure ⟨hl', ?_⟩
    rw [hc]
    simp [drawnCodes, drawnCode]

theorem totpConfirm_does (id : ObjectID) (otp : String) :
    Does (Allowed J) (fun _ _ => True) (totpConfirm env id otp) [] := by
  refine does_act_bind trivial fun secret => does_act_bind trivial fun acc =>
    does_ensure_bind fun hdis => ?_
  refine does_act_bind trivial fun now => ?_
  split
  · refine does_bind (tick_does _ _) fun _ _ _ _ => does_bind (isAllowed_does _ _) fun _ _ _ _ => ?_
    exact does_throw
  · have hnew : Unwritten ([] ++ [(⟨.getTOTPSecret id, .ok secret⟩ : Act)] ++
      [⟨.getAccountById id, .ok acc⟩] ++
        [⟨.now, .ok now⟩]) := by
      intro x hx
      simp only [List.nil_append, List.cons_append, List.mem_cons, List.not_mem_nil, or_false] at hx
      rcases hx with rfl | rfl | rfl <;> simp
    refine does_bind (randomStrings_does 8 hnew) ?_
    rintro l' codes hl ⟨hnew', hcodes⟩
    have hseen : Seen l' acc := ⟨⟨.getAccountById id, .ok acc⟩, hl.subset (by simp), .inl rfl⟩
    have hcodes : codes = drawnCodes l' := by rw [hcodes]; simp [drawnCodes, drawnCode]
    subst hcodes
    exact does_act_bind ⟨hseen, .enableTotp acc secret hdis hnew'⟩ fun _ => does_pure trivial

theorem totpDisable_does (id : ObjectID) (otp : String) :
    Does (Allowed J) (fun _ _ => True) (totpDisable env id otp) l := by
  refine does_bind (verifyTotp_does id otp .disable) fun l' acc _ h => ?_
  exact does_act_bind ⟨h.1, .disableTotp acc h.2.1⟩ fun _ => does_pure trivial

end Totp

section Deletion

theorem generateDeletionCode_does (id : ObjectID) :
    Does (Allowed J) (fun _ _ => True) (generateDeletionCode id) l :=
  does_act_bind trivial fun _ => does_act_bind trivial fun _ => does_act_bind trivial fun _ =>
  does_pure trivial

theorem purgeProfiles_does (id : ObjectID) (profiles : List String) :
    Does (Allowed J) (fun _ _ => True) (purgeProfiles id profiles) l := by
  induction profiles generalizing l with
  | nil => exact does_pure trivial
  | cons p profiles ih => exact does_act_bind trivial fun _ => does_act_bind trivial fun _ => ih

theorem purgeAccountData_does (id : ObjectID)
    (h : Allowed J l (.external (.deleteCredentials id))) :
    Does (Allowed J) (fun l' _ => (⟨.external (.deleteCredentials id), .ok ()⟩ : Act) ∈ l')
    (purgeAccountData id) l := by
  refine does_act_bind h fun _ => does_act_bind trivial fun profiles => ?_
  refine does_bind (purgeProfiles_does id profiles) fun l' _ hl _ =>
    does_act_bind trivial fun _ => ?_
  refine call_does (.external (.deleteSubscription id)) trivial fun _ => ?_
  have hm : (⟨.external (.deleteCredentials id), .ok ()⟩ : Act) ∈ l' := hl.subset (by simp)
  simp [hm]

theorem deleteAccount_does (id : ObjectID) (req : AccountDeletionRequest) (mfa : MfaData)
    (hJ : J.reauths = req.reauthToken.toList.map fun v => (.accountDeletion, v)) :
    Does (Allowed J) (fun l' _ => ∀ r ∈ J.reauths, Used l' r) (deleteAccount env id req mfa) l := by
  refine does_act_bind trivial fun acc => does_ensure_bind fun _ => ?_
  split
  · exact does_throw
  · refine does_act_bind trivial fun now => does_ensure_bind fun _ => ?_
    refine does_bind (verifyOnAccount_does acc _ ?_) ?_
    · intro v hv
      obtain hv : req.reauthToken = some v := hv
      simp [hJ, hv]
    rintro l' acc' hl ⟨-, hspend⟩
    have hload : (⟨.getAccountById id, .ok acc⟩ : Act) ∈ l' := hl.subset (by simp)
    refine does_mono (purgeAccountData_does id ?_) fun l'' _ _ hm r hr => ?_
    · intro r hr
      rw [hJ] at hr
      obtain ⟨v, hv, rfl⟩ := List.mem_map.1 hr
      obtain ⟨-, t, ht, hof, hread⟩ := hspend v (by simpa using hv)
      exact ⟨acc, t, hload, ht, hof, hread⟩
    · rw [hJ] at hr
      obtain ⟨v, -, rfl⟩ := List.mem_map.1 hr
      exact ⟨id, hm⟩

end Deletion

section Privileged

theorem finishReauth_does (id : ObjectID) (tmpToken : String) :
    Does (Allowed J) (fun _ _ => True) (finishReauth id tmpToken) [] := by
  refine does_ensure_bind fun _ => does_act_bind trivial fun ceremony =>
    does_ensure_bind fun _ => ?_
  refine does_act_bind trivial fun acc => does_act_bind trivial fun _ => ?_
  split
  · exact does_throw
  · rename_i purpose hp
    refine does_bind (newToken_does (.reauth purpose)) ?_
    rintro _ token - ⟨htype, now, rfl⟩
    refine does_act_bind ⟨⟨⟨.getAccountById ceremony.accountId, .ok acc⟩, by simp, .inl rfl⟩, ?_⟩
      fun _ => does_pure trivial
    exact .issue acc token (by simp [htype]) (by simp [htype]) (by simp) (by simp [Unwritten])

/-- A request that reauthenticates and then does its work has used the token it presents. -/
theorem verified_does {id : ObjectID} {p : Purpose} {pw token : Option String} {mfa : MfaData}
    {f : Account → AccountFlow Unit} (hp : p ≠ .accountDeletion)
    (hJ : J.reauths = token.toList.map fun v => (p, v))
    (hf : ∀ acc l, Does (Allowed J) (fun _ _ => True) (f acc) l) :
    Does (Allowed J) (fun l' _ => ∀ r ∈ J.reauths, Used l' r)
    (verify env id ⟨p, pw, token, mfa⟩ >>= f) l := by
  refine does_bind (verify_does id _ hp ?_) fun l' acc _ hused =>
    does_mono (hf acc l') fun l'' _ hl _ r hr => ?_
  · intro v hv
    obtain hv : token = some v := hv
    simp [hJ, hv]
  · rw [hJ] at hr
    obtain ⟨v, hv, rfl⟩ := List.mem_map.1 hr
    exact Used.mono hl (hused v (by simpa using hv))

theorem ensureAnotherSignInMethod_does (id : ObjectID) :
    Does (Allowed J) (fun _ _ => True) (ensureAnotherSignInMethod id) l := by
  refine does_act_bind trivial fun count => ?_
  split
  · exact does_pure trivial
  · exact does_act_bind trivial fun acc => does_ensure fun _ => trivial

end Privileged

section Signup

theorem findByEmail_does (email : String) :
    Does (Allowed J) (fun l' acc => ∀ d, acc = some d → Seen l' d) (findByEmail email) l := by
  refine does_attempt_bind rfl trivial fun r => ?_
  split
  · refine does_pure ?_
    rintro _ ⟨⟩
    exact seen_last (.inl rfl)
  · exact does_pure nofun
  · exact does_throw

theorem isFinished_does (acc : Account) :
    Does (Allowed J) (fun _ _ => True) (isFinished acc) l := by
  unfold isFinished
  split
  · exact does_pure trivial
  · refine does_attempt_bind rfl trivial fun r => ?_
    cases r <;> exact does_pure trivial

theorem ensureSubscription_does (id : ObjectID) :
    Does (Allowed J) (fun _ _ => True) (ensureSubscription id) l := by
  refine does_attempt_bind rfl trivial fun r => ?_
  split
  · exact does_pure trivial
  · refine does_attempt_bind rfl trivial fun r => ?_
    cases r
    · exact does_throw
    · exact does_pure trivial
  · exact does_throw

theorem newAccountWithPassword_does (email password : String) (id : ObjectID) (profileId : String) :
    Does (Allowed J) (fun _ acc => acc.emailVerified = false ∧ acc.tokens = [] ∧
      acc.mfa = ⟨⟨false, "", [], []⟩⟩)
      (newAccountWithPassword email password id profileId) l := by
  unfold newAccountWithPassword
  split
  · refine does_mono (setPassword_does _ password) ?_
    rintro l' acc - ⟨hash, rfl⟩
    exact ⟨rfl, rfl, rfl⟩
  · exact does_pure ⟨rfl, rfl, rfl⟩

theorem registerAccountWithPreauth_does (email password : String) :
    Does (Allowed J) (fun _ _ => True) (registerAccountWithPreauth env email password) l := by
  refine does_bind (findByEmail_does email) fun _ _ _ _ => does_ensure_bind fun _ => ?_
  refine does_act_bind trivial fun id => does_act_bind trivial fun profileId =>
    does_act_bind trivial fun _ => ?_
  refine does_bind (newAccountWithPassword_does _ password id profileId) fun l' acc _ hacc => ?_
  exact does_act_bind hacc fun _ => does_pure trivial

theorem setMissingPassword_does (acc : Account) (password : String) (hseen : Seen l acc) :
    Does (Allowed J) (fun _ _ => True) (setMissingPassword acc password) l := by
  unfold setMissingPassword
  split
  · refine does_bind (setPassword_does acc password) ?_
    rintro l' acc' hl ⟨hash, rfl⟩
    exact does_act_bind ⟨hseen.mono hl, .edits (.single (.password acc hash))⟩ fun _ =>
      does_pure trivial
  · exact does_pure trivial

theorem signup_does (email password sessionID : String) :
    Does (Allowed J) (fun _ _ => True) (signup env email password sessionID) l := by
  -- the end of either way
  have hend : ∀ (acc : Account) (l : List Act), Does (Allowed J) (fun _ _ => True)
      (if password ≠ "" then completeRegistration acc else return ()) l := by
    intro acc l
    split
    · exact call_does (.mailVerify acc.email) trivial fun _ => trivial
    · exact does_pure trivial
  refine does_attempt_bind rfl trivial fun r => ?_
  cases r with
  | error e => exact does_throw
  | ok u =>
    refine does_bind (findByEmail_does email) fun l₁ found _ hfound => ?_
    cases found with
    | some acc =>
      refine does_bind (isFinished_does acc) fun l₂ _ hl₂ _ => does_ensure_bind fun _ => ?_
      refine does_bind (ensureSubscription_does acc.id) fun l₃ _ hl₃ _ => ?_
      refine does_bind (setMissingPassword_does acc password ?_) fun l₄ acc' _ _ => hend acc' l₄
      exact (hfound acc rfl).mono (hl₂.trans hl₃)
    | none =>
      exact does_bind (registerAccountWithPreauth_does email password) fun l₂ acc _ _ => hend acc l₂

theorem login_does (email password : String) (mfa : MfaData) :
    Does (Allowed J) (fun _ _ => True) (login env email password mfa) l := by
  refine does_act_bind trivial fun acc => does_ensure_bind fun _ => ?_
  exact does_bind (mfaCheck_does acc mfa) fun _ _ _ _ =>
    call_does (.external (.saveSession acc.id)) trivial fun _ => trivial

end Signup

/-- A job that presents no reauthentication. -/
theorem does_none {Q : List Act → Unit → Prop} {p : AccountFlow Unit} (hJ : J.reauths = [])
    (hp : Does (Allowed J) Q p l) :
    Does (Allowed J) (fun l' _ => ∀ r ∈ J.reauths, Used l' r) p l := by
  rw [hJ]
  exact does_mono hp fun _ _ _ _ => nofun

theorem does_discard {α : Type} {Q : List Act → α → Prop} {p : AccountFlow α} (hJ : J.reauths = [])
    (hp : Does (Allowed J) Q p l) :
    Does (Allowed J) (fun l' _ => ∀ r ∈ J.reauths, Used l' r) (do let _ ← p) l := by
  rw [hJ]
  exact does_bind hp fun _ _ _ _ => does_pure nofun

/-- **What jobs do.** Whatever a job does is allowed, and a job that succeeds has used every
reauthentication that it presents. -/
theorem job_does (env : Env) (J : Job) :
    Does (Allowed J) (fun l _ => ∀ r ∈ J.reauths, Used l r) (J.flow env) [] := by
  cases J with
  | signup email password sessionID => exact does_none rfl (signup_does email password sessionID)
  | login email password mfa => exact does_none rfl (login_does email password mfa)
  | updateAccount id updates mfa =>
    refine does_mono (updateAccount_does id updates mfa fun u hu r hr => List.mem_flatMap.2
      ⟨u, hu, hr⟩) ?_
    intro l _ _ h r hr
    obtain ⟨u, hu, hr⟩ := List.mem_flatMap.1 hr
    exact h u hu r hr
  | sendResetPasswordEmail email => exact does_none rfl (sendResetPasswordEmail_does email ⟨_, rfl⟩)
  | verifyPasswordReset v newPassword mfa =>
    exact does_none rfl (verifyPasswordReset_does v newPassword mfa)
  | requestEmailVerificationOTP id =>
    exact does_none rfl (requestEmailVerificationOTP_does id ⟨_, rfl⟩)
  | verifyEmailOTP id otp => exact does_none rfl (verifyEmailOTP_does id otp ⟨_, rfl⟩)
  | totpEnable id => exact does_discard rfl (totpEnable_does id)
  | totpConfirm id otp => exact does_discard rfl (totpConfirm_does id otp)
  | totpDisable id otp => exact does_discard rfl (totpDisable_does id otp)
  | generateDeletionCode id => exact does_discard rfl (generateDeletionCode_does id)
  | deleteAccount id req mfa => exact deleteAccount_does id req mfa rfl
  | purge id => exact does_none rfl (purgeAccountData_does id nofun)
  | finishReauth id tmpToken => exact does_discard rfl (finishReauth_does id tmpToken)
  | exportProfiles id pw token mfa =>
    exact verified_does (by decide) rfl fun _ _ =>
      call_does (.external (.exportProfiles id)) trivial fun _ => trivial
  | importProfiles id pw token mfa =>
    exact verified_does (by decide) rfl fun _ _ =>
      call_does (.external (.importProfiles id)) trivial fun _ => trivial
  | beginAddPasskey id pw token mfa =>
    exact verified_does (by decide) rfl fun acc _ =>
      call_does (.external (.beginRegistration acc.id)) trivial fun _ => trivial
  | deletePasskeyByID c id pw token mfa =>
    refine does_act_bind trivial fun owner => does_ensure_bind fun _ => ?_
    refine does_bind (ensureAnotherSignInMethod_does id) fun l' _ _ _ => ?_
    exact verified_does (by decide) rfl fun _ _ =>
      call_does (.external (.deleteCredential c id)) trivial fun _ => trivial
  | idle => exact does_pure nofun

end ModDNS.Accounts
