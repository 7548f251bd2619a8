import Mathlib.Logic.Relation
import ModDNS.Accounts.Steps

/-!
# What the flows write

Every whole-account write of every flow is a `Change` of the account that the flow has loaded.
`Allowed` says so, with what the flow has to know before it acts.
-/

namespace ModDNS.Accounts

open Conc Relation

/-- A reauthentication that a request presents: its purpose and the token. -/
abbrev Reauth := Purpose × String

/-- The token is one for this reauthentication. -/
def Reauth.Of (r : Reauth) (t : Token) : Prop := t.type = .reauth r.1 ∧ t.value = r.2

instance (r : Reauth) (t : Token) : Decidable (r.Of t) := inferInstanceAs (Decidable (_ ∧ _))

def AccountUpdate.reauths (update : AccountUpdate) : List Reauth :=
  match update.path, update.value with
  | .email, .object _ (some v) _ => [(.emailChange, v)]
  | .password, .object _ (some v) _ => [(.passwordSet, v)]
  | _, _ => []

theorem AccountUpdate.reauths_purpose {update : AccountUpdate} {r : Reauth}
    (h : r ∈ update.reauths) :
    r.1 ≠ .accountDeletion := by
  unfold reauths at h
  split at h
  · rw [List.mem_singleton.1 h]; exact nofun
  · rw [List.mem_singleton.1 h]; exact nofun
  · cases h

/-- The reauthentications that a job presents. -/
def Job.reauths : Job → List Reauth
  | .updateAccount _ updates _ => updates.flatMap AccountUpdate.reauths
  | .deleteAccount _ req _ => req.reauthToken.toList.map fun v => (.accountDeletion, v)
  | .exportProfiles _ _ token _ => token.toList.map fun v => (.profileExport, v)
  | .importProfiles _ _ token _ => token.toList.map fun v => (.profileImport, v)
  | .beginAddPasskey _ _ token _ => token.toList.map fun v => (.passkeyAdd, v)
  | .deletePasskeyByID _ _ _ token _ => token.toList.map fun v => (.passkeyDelete, v)
  | _ => []

section History

/-- The flow has read the clock when `t` had not passed. -/
def ReadBy (l : List Act) (t : ℕ) : Prop := ∃ now ≤ t, (⟨.now, .ok now⟩ : Act) ∈ l

/-- The account as the flow has loaded it, or last written it. -/
def Seen (l : List Act) (acc : Account) : Prop := ∃ x ∈ l, Loads acc x ∨ ∃ w ∈ written x, w.2 = acc

/-- The action wrote an account whose backup code `otp` has been used by it. -/
def UsesBackup (id : ObjectID) (otp : String) (x : Act) : Prop :=
  ∃ w ∈ written x, w.2.id = id ∧ verifyTotpBackup w.1.mfa.totp otp = .ok w.2.mfa.totp

instance (id : ObjectID) (otp : String) (x : Act) : Decidable (UsesBackup id otp x) :=
  inferInstanceAs (Decidable (∃ w ∈ written x, _))

/-- The flow has not tried to write a whole account. -/
def Unwritten (l : List Act) : Prop := ∀ x ∈ l, ∀ loaded acc, x.1 ≠ .updateAccount loaded acc

def drawnCode : Act → Option String
  | ⟨.randomString _, .ok v⟩ => some v
  | _ => none

/-- The backup codes that the flow has drawn. -/
def drawnCodes (l : List Act) : List String := l.filterMap drawnCode

variable {l l' : List Act}

theorem drawnCode_draws {x : Act} {v : String} (h : drawnCode x = some v) : Draws v x := by
  unfold drawnCode at h
  split at h
  · exact Option.some.inj h
  · cases h

theorem ReadBy.mono {t : ℕ} (hl : l <+: l') (h : ReadBy l t) : ReadBy l' t := by
  obtain ⟨now, hle, hm⟩ := h
  exact ⟨now, hle, hl.subset hm⟩

theorem Seen.mono {acc : Account} (hl : l <+: l') (h : Seen l acc) : Seen l' acc := by
  obtain ⟨x, hm, hx⟩ := h
  exact ⟨x, hl.subset hm, hx⟩

theorem seen_last {x : Act} {acc : Account} (hx : Loads acc x ∨ ∃ w ∈ written x, w.2 = acc) :
    Seen (l ++ [x]) acc := ⟨x, by simp, hx⟩

theorem seen_byId {id : ObjectID} {acc : Account} :
    Seen (l ++ [⟨.getAccountById id, .ok acc⟩]) acc :=
  seen_last (.inl rfl)

theorem Unwritten.snoc {x : Act} (h : Unwritten l)
    (hx : ∀ loaded acc, x.1 ≠ .updateAccount loaded acc) :
    Unwritten (l ++ [x]) := by
  intro y hy
  rcases List.mem_append.1 hy with hy | hy
  · exact h y hy
  · rw [List.mem_singleton.1 hy]; exact hx

end History

section Changes

variable (J : Job) (l : List Act)

/-- The changes that one request may combine. -/
inductive Edit : Account → Account → Prop where
  | consent (acc : Account) (b : Bool) : Edit acc { acc with errorReportsConsent := b }
  | password (acc : Account) (hash : String) : Edit acc { acc with password := some hash }
  | email (acc : Account) (email : String) : Edit acc
      { acc with
        email := email, emailVerified := false
        tokens := acc.tokens.filter fun t =>
          t.type ≠ .emailVerificationOTP ∧ t.type ≠ .passwordReset }
  | reauth (acc : Account) (r : Reauth) (hr : r ∈ J.reauths) (ht : ∃ t ∈ acc.tokens, r.Of t)
      (hexp : ∀ t ∈ acc.tokens, r.Of t → ReadBy l t.expiresAt) :
      Edit acc { acc with tokens := acc.tokens.filter fun t => ¬ r.Of t }

abbrev Edits : Account → Account → Prop := ReflTransGen (Edit J l)

/-- What a flow makes of the account it has loaded. -/
inductive Change : Account → Account → Prop where
  | edits {loaded acc : Account} (h : Edits J l loaded acc) : Change loaded acc
  | issue (acc : Account) (t : Token) (ht : t.type ≠ .emailVerificationOTP)
      (hjob : t.type = .passwordReset → ∃ email, J = .sendResetPasswordEmail email)
      (hdraw : (⟨.generateSecureToken 48, .ok t.value⟩ : Act) ∈ l) (hnew : Unwritten l) :
      Change acc { acc with tokens := acc.tokens ++ [t] }
  | issueOTP (acc : Account) (t : Token) (ht : t.type = .emailVerificationOTP)
      (hjob : ∃ id, J = .requestEmailVerificationOTP id)
      (hcode : (⟨.generateCode, .ok t.value⟩ : Act) ∈ l) :
      Change acc { acc with tokens := acc.tokens.filter (·.type ≠ .emailVerificationOTP) ++ [t] }
  | verifyEmail (acc : Account) (t : Token) (ht : t ∈ acc.tokens)
      (htype : t.type = .emailVerificationOTP)
      (hjob : ∃ id, J = .verifyEmailOTP id t.value) (hexp : ReadBy l t.expiresAt) :
      Change acc
        { acc with
          emailVerified := true, tokens := acc.tokens.filter (·.type ≠ .emailVerificationOTP) }
  | resetPassword (acc : Account) (v hash : String) :
      Change acc
        { acc with
          password := some hash
          tokens := acc.tokens.filter fun t => ¬ (t.type = .passwordReset ∧ t.value = v) }
  | enableTotp (acc : Account) (secret : String) (hdis : acc.mfa.totp.enabled = false)
      (hnew : Unwritten l) :
      Change acc
        { acc with
          mfa := ⟨⟨true, secret, acc.mfa.totp.backupCodes ++ drawnCodes l,
            acc.mfa.totp.backupCodesUsed⟩⟩ }
  | useBackup (acc : Account) (otp : String) (totp : TotpSettings)
      (hen : acc.mfa.totp.enabled = true)
      (h : verifyTotpBackup acc.mfa.totp otp = .ok totp) : Change acc { acc with mfa := ⟨totp⟩ }
  | disableTotp (acc : Account) (hen : acc.mfa.totp.enabled = true) :
      Change acc { acc with mfa := ⟨⟨false, "", [], []⟩⟩ }

/-- The reauthentication was still stored when the account was loaded, and is not written back. -/
def Spends (r : Reauth) (loaded acc : Account) : Prop :=
  (∃ t ∈ loaded.tokens, r.Of t) ∧ ∀ t ∈ acc.tokens, ¬ r.Of t

/-- What the flow of the job `J` may do, knowing the answers so far. -/
def Allowed : AccountOp → Prop
  | .updateAccount loaded acc => Seen l loaded ∧ Change J l loaded acc
  | .createAccount acc =>
    acc.emailVerified = false ∧ acc.tokens = [] ∧ acc.mfa = ⟨⟨false, "", [], []⟩⟩
  | .sendEmailVerificationOTP to_ otp => (∃ id, J = .requestEmailVerificationOTP id) ∧
      (⟨.generateCode, .ok otp⟩ : Act) ∈ l ∧ ∃ loaded acc t,
        (⟨.updateAccount loaded acc, .ok ()⟩ : Act) ∈ l ∧
        loaded.email = to_ ∧ acc.email = to_ ∧ t ∈ acc.tokens ∧
        t.type = .emailVerificationOTP ∧ t.value = otp
  | .sendPasswordResetEmail to_ token => (∃ email, J = .sendResetPasswordEmail email) ∧
      (⟨.generateSecureToken 48, .ok token⟩ : Act) ∈ l ∧ ∃ loaded acc t,
        (⟨.getAccountByEmail to_, .ok loaded⟩ : Act) ∈ l ∧
          (⟨.updateAccount loaded acc, .ok ()⟩ : Act) ∈ l ∧
          acc.email = loaded.email ∧ t ∈ acc.tokens ∧ t.type = .passwordReset ∧ t.value = token
  | .external (.deleteCredentials id) =>
    ∀ r ∈ J.reauths, ∃ acc t, (⟨.getAccountById id, .ok acc⟩ : Act) ∈ l ∧
      t ∈ acc.tokens ∧ r.Of t ∧ ReadBy l t.expiresAt
  | .randomString n => n = 16
  | _ => True

/-- The request went through by this reauthentication: a deletion has begun, or the token has been
spent. -/
def Used (r : Reauth) : Prop :=
  if r.1 = .accountDeletion then ∃ id, (⟨.external (.deleteCredentials id), .ok ()⟩ : Act) ∈ l
  else ∃ x ∈ l, ∃ w ∈ written x, Spends r w.1 w.2

end Changes

section Changes

variable {J : Job} {l l' : List Act} {acc acc' acc'' : Account} {r : Reauth}

theorem Used.mono (hl : l <+: l') (h : Used l r) : Used l' r := by
  unfold Used at h ⊢
  split at h
  · rename_i hr
    rw [if_pos hr]
    obtain ⟨id, hm⟩ := h
    exact ⟨id, hl.subset hm⟩
  · rename_i hr
    rw [if_neg hr]
    obtain ⟨x, hm, hx⟩ := h
    exact ⟨x, hl.subset hm, hx⟩

/-- The write of a flow that ends with it. -/
theorem used_last (hr : r.1 ≠ .accountDeletion) (hs : Spends r acc acc') :
    Used (l ++ [⟨.updateAccount acc acc', .ok ()⟩]) r := by
  unfold Used
  rw [if_neg hr]
  exact ⟨_, List.mem_concat_self, _, rfl, hs⟩

theorem edits_mono (hl : l <+: l') (h : Edits J l acc acc') : Edits J l' acc acc' := by
  refine ReflTransGen.mono (fun a b hab => ?_) _ _ h
  cases hab with
  | consent b => exact .consent _ _
  | password hash => exact .password _ _
  | email email => exact .email _ _
  | reauth r hr ht hexp => exact .reauth _ r hr ht fun t hm hof => (hexp t hm hof).mono hl

/-- Edits only take tokens away. -/
theorem edits_tokens (h : Edits J l acc acc') : acc'.tokens.Sublist acc.tokens := by
  induction h with
  | refl => exact .refl _
  | tail _ hab ih =>
    cases hab with
    | consent b => exact ih
    | password hash => exact ih
    | email email => exact List.filter_sublist.trans ih
    | reauth r hr ht hexp => exact List.filter_sublist.trans ih

theorem edits_id (h : Edits J l acc acc') : acc'.id = acc.id := by
  induction h with
  | refl => rfl
  | tail _ hab ih => cases hab <;> exact ih

theorem edits_mfa (h : Edits J l acc acc') : acc'.mfa = acc.mfa := by
  induction h with
  | refl => rfl
  | tail _ hab ih => cases hab <;> exact ih

/-- A used backup code moves from the codes to the used ones. -/
theorem verifyTotpBackup_ok {totp totp' : TotpSettings} {otp : String}
    (h : verifyTotpBackup totp otp = .ok totp') :
    otp ∉ totp.backupCodesUsed ∧ otp ∈ totp.backupCodes ∧
      totp' = { totp with
                backupCodes := totp.backupCodes.erase otp
                backupCodesUsed := totp.backupCodesUsed ++ [otp] } := by
  unfold verifyTotpBackup at h
  split at h
  · cases h
  · rename_i hused
    split at h
    · rename_i hmem
      cases h
      exact ⟨hused, hmem, rfl⟩
    · cases h

theorem verifyTotpBackup_error {totp : TotpSettings} {otp : String} {e : AccountErr}
    (h : verifyTotpBackup totp otp = .error e) :
    otp ∉ totp.backupCodesUsed → otp ∉ totp.backupCodes := by
  intro hused hmem
  rw [verifyTotpBackup, if_neg hused, if_pos hmem] at h
  cases h

theorem verifyTotpBackup_enabled {totp totp' : TotpSettings} {otp : String}
    (h : verifyTotpBackup totp otp = .ok totp') :
    totp'.enabled = totp.enabled := by
  rw [(verifyTotpBackup_ok h).2.2]

theorem change_id (h : Change J l acc acc') : acc'.id = acc.id := by
  cases h with
  | edits h => exact edits_id h
  | _ => rfl

theorem Spends.before (h : Edits J l acc acc') (hs : Spends r acc' acc'') : Spends r acc acc'' := by
  obtain ⟨⟨t, ht, hof⟩, hno⟩ := hs
  exact ⟨⟨t, (edits_tokens h).subset ht, hof⟩, hno⟩

theorem Spends.after (h : Edits J l acc' acc'') (hs : Spends r acc acc') : Spends r acc acc'' :=
  ⟨hs.1, fun t ht => hs.2 t ((edits_tokens h).subset ht)⟩

end Changes

end ModDNS.Accounts
