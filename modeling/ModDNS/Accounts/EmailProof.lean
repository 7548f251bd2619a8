import ModDNS.Accounts.Runs

/-!
# Proofs of the e-mail address

* `email_proof`: in every state of every run, a stored verification code or reset token has been
  issued for the current address and, once its request has succeeded, mailed to it; and the address
  is verified only if such a code was presented in time.
* `unsent_stored`: a code whose mail has failed stays stored.
-/

namespace ModDNS.Accounts

open Conc Relation

variable {ι : Type} [DecidableEq ι] {env : Env} {ok : State → Event AccountSig ι → Prop} {s : State}
  {jobs : ι → Job} {P Q : AccountPool ι} {e : Event AccountSig ι} {es : List (Event AccountSig ι)}
  {id : ObjectID} {email : String} {t : Token}

/-- A token that is sent by mail. -/
def Token.IsProof (t : Token) : Prop := t.type = .emailVerificationOTP ∨ t.type = .passwordReset

/-- Thread `i` has generated the token, and stored it in an account that had the address when it
loaded it. -/
structure IssuedBy (jobs : ι → Job) (es : List (Event AccountSig ι)) (id : ObjectID)
    (email : String) (t : Token) (i : ι) : Prop where
  otp : t.type = .emailVerificationOTP →
    (∃ id, jobs i = .requestEmailVerificationOTP id) ∧
      (⟨.generateCode, .ok t.value⟩ : Act) ∈ trace i es
  reset : t.type = .passwordReset →
    (∃ email, jobs i = .sendResetPasswordEmail email) ∧
      (⟨.generateSecureToken 48, .ok t.value⟩ : Act) ∈ trace i es
  stored : ∃ loaded acc, (⟨.updateAccount loaded acc, .ok ()⟩ : Act) ∈ trace i es ∧ acc.id = id ∧
    loaded.email = email ∧ acc.email = email ∧ t ∈ acc.tokens

/-- The token has been mailed to the address: a reset token also to another spelling of it. -/
def Mailed (env : Env) (l : List Act) (email : String) (t : Token) : Prop :=
  (t.type = .emailVerificationOTP → (⟨.sendEmailVerificationOTP email t.value, .ok ()⟩ : Act) ∈ l) ∧
    (t.type = .passwordReset →
      ∃ to_, normalizeEmail env to_ = email ∧
        (⟨.sendPasswordResetEmail to_ t.value, .ok ()⟩ : Act) ∈ l)

/-- Thread `i` presents the code for an account that had the address when it loaded it, before the
code expires. -/
structure ProvedBy (jobs : ι → Job) (es : List (Event AccountSig ι)) (id : ObjectID)
    (email : String) (t : Token) (i : ι) : Prop where
  job : ∃ id, jobs i = .verifyEmailOTP id t.value
  stored : ∃ loaded acc, (⟨.updateAccount loaded acc, .ok ()⟩ : Act) ∈ trace i es ∧ acc.id = id ∧
    loaded.email = email ∧ acc.email = email ∧ t ∈ loaded.tokens
  unexpired : ReadBy (trace i es) t.expiresAt

/-- What the stored tokens and the verified flags prove, after the events `es`. -/
structure EmailProof (env : Env) (jobs : ι → Job) (es : List (Event AccountSig ι))
    (Q : AccountPool ι) : Prop where
  issued : ∀ d ∈ Q.state.accounts.docs, ∀ t ∈ d.tokens, t.IsProof →
    ∃ i, IssuedBy jobs es d.id d.email t i ∧
    (Q.prog i = .pure (.ok ()) → Mailed env (trace i es) d.email t)
  verified : ∀ d ∈ Q.state.accounts.docs, d.emailVerified = true →
    ∃ t i j, t.type = .emailVerificationOTP ∧
    IssuedBy jobs es d.id d.email t i ∧
    (Q.prog i = .pure (.ok ()) → Mailed env (trace i es) d.email t) ∧
      ProvedBy jobs es d.id d.email t j
  /-- A code is mailed to the address that it has been issued for only. -/
  mails : ∀ es₁ e es₂ to_ v, es = es₁ ++ e :: es₂ →
    (e.op = .sendEmailVerificationOTP to_ v →
      ∃ id t, t.type = .emailVerificationOTP ∧ t.value = v ∧ IssuedBy jobs es₁ id to_ t e.who) ∧
    (e.op = .sendPasswordResetEmail to_ v →
      ∃ id t, t.type = .passwordReset ∧ t.value = v ∧
        IssuedBy jobs es₁ id (normalizeEmail env to_) t e.who)

section Copies

theorem trace_mono (es : List (Event AccountSig ι)) (i : ι) (e : Event AccountSig ι) :
    trace i es <+: trace i (es ++ [e]) := by
  rw [trace_append]
  exact List.prefix_append _ _

theorem IssuedBy.mono {i : ι} (h : IssuedBy jobs es id email t i) :
    IssuedBy jobs (es ++ [e]) id email t i := by
  have hsub := (trace_mono es i e).subset
  obtain ⟨loaded, acc, hm, hw⟩ := h.stored
  exact ⟨fun ht => ⟨(h.otp ht).1, hsub (h.otp ht).2⟩,
    fun ht => ⟨(h.reset ht).1, hsub (h.reset ht).2⟩,
    loaded, acc, hsub hm, hw⟩

theorem ProvedBy.mono {i : ι} (h : ProvedBy jobs es id email t i) :
    ProvedBy jobs (es ++ [e]) id email t i := by
  obtain ⟨loaded, acc, hm, hw⟩ := h.stored
  exact ⟨h.job, ⟨loaded, acc, (trace_mono es i e).subset hm, hw⟩,
    h.unexpired.mono (trace_mono es i e)⟩

/-- The address, its flag and the tokens, as they are in every copy. -/
structure ProofsOk (jobs : ι → Job) (es : List (Event AccountSig ι)) (id : ObjectID)
    (email : String) (verified : Bool) (tokens : List Token) : Prop where
  issued : ∀ t ∈ tokens, t.IsProof → ∃ i, IssuedBy jobs es id email t i
  verified : verified = true → ∃ t i j, t.type = .emailVerificationOTP ∧
    IssuedBy jobs es id email t i ∧
    ProvedBy jobs es id email t j

theorem ProofsOk.mono {v : Bool} {ts : List Token} (h : ProofsOk jobs es id email v ts) :
    ProofsOk jobs (es ++ [e]) id email v ts := by
  refine ⟨fun t ht hp => ?_, fun hv => ?_⟩
  · obtain ⟨i, hi⟩ := h.issued t ht hp
    exact ⟨i, hi.mono⟩
  · obtain ⟨t, i, j, htype, hi, hj⟩ := h.verified hv
    exact ⟨t, i, j, htype, hi.mono, hj.mono⟩

/-- Tokens may be left out. -/
theorem ProofsOk.subset {v : Bool} {ts ts' : List Token} (h : ProofsOk jobs es id email v ts)
    (hsub : ts' ⊆ ts) :
    ProofsOk jobs es id email v ts' := ⟨fun t ht => h.issued t (hsub ht), h.verified⟩

theorem edits_proofs {J : Job} {l : List Act} {loaded acc : Account} (h : Edits J l loaded acc)
    (hok : ProofsOk jobs es id loaded.email loaded.emailVerified loaded.tokens) :
    ProofsOk jobs es id acc.email acc.emailVerified acc.tokens := by
  induction h with
  | refl => exact hok
  | tail _ hab ih =>
    cases hab with
    | consent b => exact ih
    | password hash => exact ih
    | email email =>
      refine ⟨fun t ht hp => ?_, nofun⟩
      obtain ⟨-, hne⟩ := List.mem_filter.1 ht
      rcases hp with hp | hp <;> simp [hp] at hne
    | reauth r _ _ _ => exact ih.subset (List.filter_subset_self _)

theorem proofs_whole : WholeField fun acc => (acc.email, acc.emailVerified, acc.tokens) :=
  ⟨fun _ _ => rfl, fun _ _ _ => rfl, fun _ _ => rfl⟩

/-- **Invariant.** Every copy satisfies it, so that writing back a stale one does no harm. -/
theorem run_proofs (h0 : s.accounts.docs = [])
    (hr : Run (accountHandler env) ok (start env s jobs) es Q) :
    ∀ acc, Copy es Q.state acc → ProofsOk jobs es acc.id acc.email acc.emailVerified
    acc.tokens := by
  -- a copy is new, or the change of one that satisfied it
  refine run_copies (K := fun es id x => ProofsOk jobs es id x.1 x.2.1 x.2.2) proofs_whole
    (fun _ _ _ _ h => h.mono) ?_ ?_ ?_ hr
  · intro es acc hv htok _
    rw [hv, htok]
    exact ⟨nofun, nofun⟩
  · intro es Q i loaded acc hr h hchange
    have hid := change_id hchange
    have hmem : (⟨.updateAccount loaded acc, .ok ()⟩ : Act) ∈
        trace i (es ++ [⟨i, .updateAccount loaded acc, .ok ()⟩]) := by
      rw [trace_snoc, if_pos rfl]
      exact List.mem_concat_self
    have hsub :=
      (trace_mono es i (⟨i, .updateAccount loaded acc, .ok ()⟩ : Event AccountSig ι)).subset
    have h' := h.mono (e := (⟨i, .updateAccount loaded acc, .ok ()⟩ : Event AccountSig ι))
    rw [← hid] at h'
    cases hchange with
    | edits hedit => exact edits_proofs hedit h'
    -- an issued token points at the write that has stored it
    | issue t hne hjob hdraw _ =>
      refine ⟨fun t' ht' hp => ?_, h'.verified⟩
      rcases List.mem_append.1 ht' with ht' | ht'
      · exact h'.issued t' ht' hp
      · obtain rfl := List.mem_singleton.1 ht'
        refine ⟨i, fun htype => absurd htype hne, fun htype => ⟨hjob htype, hsub hdraw⟩, loaded, _,
          hmem, rfl, rfl, rfl, ?_⟩
        exact List.mem_concat_self
    | issueOTP t htype hjob hcode =>
      refine ⟨fun t' ht' hp => ?_, h'.verified⟩
      rcases List.mem_append.1 ht' with ht' | ht'
      · exact h'.issued t' (List.mem_filter.1 ht').1 hp
      · obtain rfl := List.mem_singleton.1 ht'
        refine ⟨i, fun _ => ⟨hjob, hsub hcode⟩, fun hreset => ?_, loaded, _, hmem, rfl, rfl, rfl,
          List.mem_concat_self⟩
        rw [htype] at hreset
        cases hreset
    -- the mark points at the token that was shown in time
    | verifyEmail t ht htype hjob hexp =>
      refine ⟨fun t' ht' => h'.issued t' (List.mem_filter.1 ht').1, fun _ => ?_⟩
      obtain ⟨k, hk⟩ := h'.issued t ht (.inl htype)
      exact ⟨t, k, i, htype, hk, hjob, ⟨loaded, _, hmem, rfl, rfl, rfl, ht⟩,
        hexp.mono (trace_mono _ i _)⟩
    | resetPassword v hash => exact h'.subset (List.filter_subset_self _)
    | _ => exact h'
  · intro acc hacc
    have hmem := Collection.mem_of_get hacc
    rw [h0] at hmem
    cases hmem

end Copies

section Mails

/-- What a job that has succeeded has mailed. -/
def MailsToken (l : List Act) : Job → Prop
  | .requestEmailVerificationOTP _ =>
    ∃ email otp, (⟨.sendEmailVerificationOTP email otp, .ok ()⟩ : Act) ∈ l ∧
      (∀ v, (⟨.generateCode, .ok v⟩ : Act) ∈ l → v = otp) ∧
      ∀ loaded acc, (⟨.updateAccount loaded acc, .ok ()⟩ : Act) ∈ l → acc.email = email
  | .sendResetPasswordEmail email =>
    Unwritten l ∨ ∃ v, (⟨.sendPasswordResetEmail email v, .ok ()⟩ : Act) ∈ l ∧
      (∀ w, (⟨.generateSecureToken 48, .ok w⟩ : Act) ∈ l → w = v) ∧
      ∀ loaded acc, (⟨.updateAccount loaded acc, .ok ()⟩ : Act) ∈ l →
        (⟨.getAccountByEmail email, .ok loaded⟩ : Act) ∈ l ∧ acc.email = loaded.email
  | _ => True

theorem job_mails (env : Env) (J : Job) :
    Does (Allowed J) (fun l _ => MailsToken l J) (J.flow env) [] := by
  cases J with
  | requestEmailVerificationOTP id => exact requestEmailVerificationOTP_does id ⟨_, rfl⟩
  | sendResetPasswordEmail email => exact sendResetPasswordEmail_does email ⟨_, rfl⟩
  | _ => exact does_mono (job_does env _) fun _ _ _ _ => trivial

/-- An account that was found by an address has it. -/
theorem run_byEmail (hr : Run (accountHandler env) ok P es Q) {i : ι} {acc : Account}
    (hm : (⟨.getAccountByEmail email, .ok acc⟩ : Act) ∈ trace i es) :
    acc.email = normalizeEmail env email := by
  obtain ⟨es₁, es₂, rfl⟩ := List.append_of_mem (mem_trace.1 hm)
  obtain ⟨P₁, P₂, -, -, hst, -⟩ := run_mid hr
  obtain ⟨ch, s, -, -, ⟨-, hres, -⟩ | hs⟩ := account_step hst
  · cases hres
  · exact act_byEmail hs

/-- Once the request that has issued a token has succeeded, it has mailed it. -/
theorem run_mailed (hr : Run (accountHandler env) ok (start env s jobs) es Q) {i : ι}
    (hissued : IssuedBy jobs es id email t i) (hi : Q.prog i = .pure (.ok ())) :
    Mailed env (trace i es) email t := by
  have hmails : MailsToken (trace i es) (jobs i) :=
    (run_ended (A := fun i => Allowed (jobs i))
      (Q := fun i l r => ∀ a, r = .ok a → Clean l ∧ MailsToken l (jobs i))
      (fun i => does_run (job_mails env (jobs i))) hr hi () rfl).2
  obtain ⟨loaded, acc, hw, -, -, hemail, -⟩ := hissued.stored
  refine ⟨fun htype => ?_, fun htype => ?_⟩
  · obtain ⟨⟨a, hjob⟩, hcode⟩ := hissued.otp htype
    rw [hjob] at hmails
    obtain ⟨email', otp, hsent, hone, haddr⟩ := hmails
    rw [hone _ hcode, ← hemail, haddr loaded acc hw]
    exact hsent
  · obtain ⟨⟨to_, hjob⟩, hdraw⟩ := hissued.reset htype
    rw [hjob] at hmails
    obtain hunw | ⟨v, hsent, hone, haddr⟩ := hmails
    · exact absurd rfl (hunw _ hw loaded acc)
    · obtain ⟨hload, hacc⟩ := haddr loaded acc hw
      refine ⟨to_, ?_, ?_⟩
      · rw [← hemail, hacc, run_byEmail hr hload]
      · rw [hone _ hdraw]
        exact hsent

/-- **E-mail proofs.** In every run, every stored code has been issued for the current address of
its account, and the address is verified only if one was presented before it expired. -/
theorem email_proof (env : Env) (jobs : ι → Job)
    (hr : Run (accountHandler env) Free (start env .initial jobs) es Q) :
    EmailProof env jobs es Q := by
  have hok : ∀ d ∈ Q.state.accounts.docs, ProofsOk jobs es d.id d.email d.emailVerified d.tokens :=
    fun d hd => run_proofs rfl hr d (.inl (Collection.get_of_mem hd))
  refine ⟨fun d hd t ht hp => ?_, fun d hd hv => ?_, ?_⟩
  · obtain ⟨i, hi⟩ := (hok d hd).issued t ht hp
    exact ⟨i, hi, run_mailed hr hi⟩
  · obtain ⟨t, i, j, htype, hi, hj⟩ := (hok d hd).verified hv
    exact ⟨t, i, j, htype, hi, run_mailed hr hi, hj⟩
  -- what is mailed was drawn for a token that had been stored before
  · rintro es₁ e es₂ to_ v rfl
    have hA := run_allowed hr
    obtain ⟨P, -, hr₁, -⟩ := run_mid hr
    obtain ⟨i, o, a⟩ := e
    refine ⟨fun ho => ?_, fun ho => ?_⟩
    · obtain rfl : o = .sendEmailVerificationOTP to_ v := ho
      obtain ⟨hjob, hcode, loaded, acc, t, hw, hloaded, hacc, ht, htype, rfl⟩ := hA
      refine ⟨acc.id, t, htype, rfl, fun _ => ⟨hjob, hcode⟩, fun hreset => ?_, loaded, acc, hw, rfl,
        hloaded, hacc, ht⟩
      rw [htype] at hreset
      cases hreset
    · obtain rfl : o = .sendPasswordResetEmail to_ v := ho
      obtain ⟨hjob, hdraw, loaded, acc, t, hload, hw, hacc, ht, htype, rfl⟩ := hA
      have hemail := run_byEmail hr₁ hload
      refine ⟨acc.id, t, htype, rfl, fun hotp => ?_, fun _ => ⟨hjob, hdraw⟩, loaded, acc,
        hw, rfl, hemail,
        hacc.trans hemail, ht⟩
      rw [htype] at hotp
      cases hotp

end Mails

section Examples

/-- A signup, and a verification code that cannot be mailed. -/
def unsentJobs : Fin 2 → Job
  | 0 => .signup "a@x" "Password1234!" "session"
  | 1 => .requestEmailVerificationOTP 1

/-- The choices of `RequestEmailVerificationOTP`, up to the mail. -/
def codeChoices (otp : String) : List Choice :=
  [answer, answer, answer, answerStr otp, answer, answer]

def unsent : List (Fin 2 × Choice) :=
  goes (thread 0) (signupChoices "Password1234!") ++ goes (thread 1) (codeChoices "111111") ++ goes
    (thread 1) [{ answer with fail := true }]

set_option maxRecDepth 4000 in
theorem unsent_plays :
    (play (accountHandler exampleEnv) Free unsent
      (start exampleEnv .initial unsentJobs)).isSome := by decide

/-- The mail to which the action has put the token. -/
def mailedTo : Act → Option (String × String)
  | ⟨.sendEmailVerificationOTP to_ otp, .ok _⟩ => some (to_, otp)
  | ⟨.sendPasswordResetEmail to_ token, .ok _⟩ => some (to_, token)
  | _ => none

set_option maxRecDepth 4000 in
/-- A stored code that has been mailed to nobody. -/
theorem unsent_stored :
    ∃ es Q, Run (accountHandler exampleEnv) Free (start exampleEnv .initial unsentJobs) es Q ∧
      (∀ i, (Q.prog i).result.isSome) ∧
      ∃ d ∈ Q.state.accounts.docs, ∃ t ∈ d.tokens, t.type = .emailVerificationOTP ∧
        ∀ e ∈ es, (d.email, t.value) ∉ mailedTo (actOf e) :=
  ⟨_, _, run_play unsent_plays, by decide, by decide⟩

/-- The code is mailed, and presented. -/
def verifyJobs : Fin 3 → Job
  | 0 => .signup "a@x" "Password1234!" "session"
  | 1 => .requestEmailVerificationOTP 1
  | 2 => .verifyEmailOTP 1 "111111"

def verifySchedule : List (Fin 3 × Choice) :=
  goes (thread 0) (signupChoices "Password1234!") ++ goes (thread 1) (codeChoices "111111") ++ steps
    (thread 1) 1 ++ steps (thread 2) 3

set_option maxRecDepth 4000 in
theorem verifySchedule_plays :
    (play (accountHandler exampleEnv) Free verifySchedule
      (start exampleEnv .initial verifyJobs)).isSome := by decide

theorem email_proof_verified : EmailProof exampleEnv verifyJobs
    ((play (accountHandler exampleEnv) Free verifySchedule
      (start exampleEnv .initial verifyJobs)).get
      verifySchedule_plays).1
    ((play (accountHandler exampleEnv) Free verifySchedule
      (start exampleEnv .initial verifyJobs)).get
      verifySchedule_plays).2 := email_proof exampleEnv verifyJobs (run_play verifySchedule_plays)

end Examples

end ModDNS.Accounts
