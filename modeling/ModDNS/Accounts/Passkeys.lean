import Mathlib.Data.List.Nodup
import ModDNS.Accounts.Limits

/-!
# Passkeys

The collection of credentials beside the accounts, and the requests that add passkeys and delete
them.

* `others_run`: how many credentials of an account are left, besides a given one.
* `signIn_kept`: an account with a way to sign in keeps one while no deletion relies on a count that
  the deletions since then have used up.
-/

namespace ModDNS.Accounts

open Conc

section Requests

variable (env : Env)

/-- `consumeCeremony`; `none` is the empty `accountID`. -/
def consumeCeremony (token : String) (ceremonyType : CeremonyType) (accountId : Option ObjectID)
    (mismatchErr : AccountErr) :
    AccountFlow Ceremony := do
  ensure (token ≠ "") .missingCeremonyToken
  let ceremony ← call (.consumeCeremony token)
  ensure (ceremony.type = ceremonyType ∧ ∀ id ∈ accountId, ceremony.accountId = id) mismatchErr
  return ceremony

/-- `FinishAddPasskey`; the check of the response reads the credentials. -/
def finishAddPasskey (accountId : ObjectID) (token : String) : AccountFlow Unit := do
  let ceremony ← consumeCeremony token .addPasskey (some accountId) .finishAddPasskey
  let acc ← call (.getAccountById ceremony.accountId)
  call (.external (.finishRegistration acc.id))
  call (.external (.saveCredential acc.id))

/-- `FinishRegistration`. -/
def finishRegistration (token : String) : AccountFlow Unit := do
  let ceremony ← consumeCeremony token .registration none .finishRegistration
  let acc ← call (.getAccountById ceremony.accountId)
  call (.external (.finishRegistration acc.id))
  call (.external (.saveCredential acc.id))
  let _ ← attempt (call (.getSubscription acc.id))
  completeRegistration acc

/-- The requests that add a passkey, or delete one. -/
inductive PasskeyJob where
  | beginAddPasskey (accountId : ObjectID) (currentPassword reauthToken : Option String)
      (mfa : MfaData)
  | finishAddPasskey (accountId : ObjectID) (token : String)
  | finishRegistration (token : String)
  | deletePasskeyByID (credentialId accountId : ObjectID)
      (currentPassword reauthToken : Option String) (mfa : MfaData)

def PasskeyJob.flow : PasskeyJob → AccountFlow Unit
  | .beginAddPasskey id pw token mfa => Accounts.beginAddPasskey env id pw token mfa
  | .finishAddPasskey id token => Accounts.finishAddPasskey id token
  | .finishRegistration token => Accounts.finishRegistration token
  | .deletePasskeyByID c id pw token mfa => Accounts.deletePasskeyByID env c id pw token mfa

end Requests

section Store

/-- `model.Credential`, without the key. -/
structure Credential where
  id : ObjectID
  accountId : ObjectID
  deriving DecidableEq

/-- The accounts and the credentials, with unique ids. -/
structure Keyring where
  base : State
  credentials : List Credential
  nodup : (credentials.map Credential.id).Nodup

namespace Keyring

variable (s : Keyring)

/-- `CountDocuments`. -/
def count (accountId : ObjectID) : ℕ := s.credentials.countP (·.accountId = accountId)

/-- `FindOne` by `_id`. -/
def owner (credentialId : ObjectID) : Except AccountErr ObjectID :=
  match s.credentials.find? (·.id = credentialId) with
  | none => .error .store
  | some c => .ok c.accountId

/-- `DeleteMany`. -/
def remove (p : Credential → Bool) : Keyring where
  base := s.base
  credentials := s.credentials.filter fun c => !p c
  nodup := s.nodup.sublist (List.filter_sublist.map _)

/-- `InsertOne`. -/
def add (c : Credential) (h : c.id ∉ s.credentials.map Credential.id) : Keyring where
  base := s.base
  credentials := s.credentials ++ [c]
  nodup := by
    rw [List.map_append, List.nodup_append]
    refine ⟨s.nodup, List.nodup_singleton _, fun a ha b hb hab => h ?_⟩
    rw [List.mem_singleton.1 hb] at hab
    exact hab ▸ ha

/-- The account has a password, or a credential. -/
def SignsIn (accountId : ObjectID) : Prop :=
  (∃ acc, s.base.accounts.get accountId = some acc ∧ acc.password ≠ none) ∨
    ∃ c ∈ s.credentials, c.accountId = accountId

instance (accountId : ObjectID) : Decidable (s.SignsIn accountId) :=
  decidable_of_iff ((s.base.accounts.get accountId).any (fun acc => acc.password ≠ none) = true ∨
    ∃ c ∈ s.credentials, c.accountId = accountId) (by simp [SignsIn, Option.any_eq_true])

end Keyring

variable (env : Env) (ch : Choice) (s : Keyring)

/-- What an action does, if it does not fail: those on the credentials, and the others. -/
def passkeyAct : (o : AccountOp) → Option (Except AccountErr o.Ans × Keyring)
  | .getCredentialsCount a => some (.ok (s.count a), s)
  | .getCredentialByID c => some (s.owner c, s)
  | .external (.deleteCredential c a) => some (.ok (), s.remove fun x => x.id = c ∧ x.accountId = a)
  | .external (.deleteCredentials a) => some (.ok (), s.remove fun x => x.accountId = a)
  | .external (.saveCredential a) =>
    if h : ch.num ∈ s.credentials.map Credential.id then none
    else some (.ok (), s.add ⟨ch.num, a⟩ h)
  | o => (accountAct env ch s.base o).map fun x => (x.1, { s with base := x.2 })

/-- As `accountHandler`. -/
def passkeyHandler {ι : Type} : Handler AccountSig ι Keyring Choice := fun _ o ch s =>
  if ch.fail ∧ o.canFail then some (.error .store, { s with base.now := s.base.now + ch.tick })
  else passkeyAct env ch { s with base.now := s.base.now + ch.tick } o

/-- The pool of a set of requests, on the keyring `s`. -/
def startPasskeys {ι : Type} (jobs : ι → PasskeyJob) :
    Pool AccountSig ι Keyring (Except AccountErr Unit) :=
  ⟨s, fun i => ((jobs i).flow env).run⟩

end Store

section Calls

variable {env : Env} {l : List Act}

/-- What a deletion has to know: a second credential, or a password. -/
def OtherSignIn (l : List Act) (accountId : ObjectID) : Prop :=
  (∃ n : ℕ, (⟨.getCredentialsCount accountId, .ok n⟩ : Act) ∈ l ∧ 1 < n) ∨
    ∃ acc, (⟨.getAccountById accountId, .ok acc⟩ : Act) ∈ l ∧ acc.password ≠ none

/-- The calls of the requests. -/
def PasskeyCall (l : List Act) : AccountOp → Prop
  | .external (.deleteCredential _ a) => OtherSignIn l a
  | .external (.deleteCredentials _) | .deleteAccountById _ | .createAccount _ => False
  | _ => True

/-- The calls that are made at any time. -/
def PlainCall : AccountOp → Prop
  | .external (.deleteCredential _ _) | .external
      (.deleteCredentials _) | .deleteAccountById _ | .createAccount _ => False
  | _ => True

theorem PlainCall.allowed {o : AccountOp} (h : PlainCall o) : PasskeyCall l o := by
  cases o with
  | external call => cases call <;> trivial
  | _ => trivial

theorem within_verifyTotp (accountId : ObjectID) (otp : String) (action : TotpAction) :
    Within PlainCall (verifyTotp env accountId otp action) := by
  refine within_bind (within_act trivial) fun acc => within_bind within_ensure fun _ => ?_
  refine within_bind (within_act trivial) fun now => within_ite within_pure ?_
  split
  · exact within_bind (within_act trivial) fun _ => within_pure
  · refine within_bind (within_bind (within_act trivial) fun _ => within_pure) fun _ => ?_
    refine within_bind ?_ fun allowed => within_ite within_throw within_throw
    refine within_bind (within_attempt (within_act trivial)) fun r => ?_
    split <;> exact within_pure

theorem within_mfaCheck (acc : Account) (mfa : MfaData) :
    Within PlainCall (mfaCheck env acc mfa) := by
  refine within_ite ?_ within_pure
  exact within_bind within_ensure fun _ => within_bind (within_verifyTotp ..) fun _ => within_pure

theorem within_verify (accountId : ObjectID) (p : Params) :
    Within PlainCall (verify env accountId p) := by
  refine within_bind (within_bind within_ensure fun _ => within_ensure) fun _ => ?_
  refine within_bind (within_attempt (within_act trivial)) fun r => ?_
  split
  · exact within_throw
  · exact within_throw
  · refine within_bind ?_ fun acc =>
      within_ite (within_bind (within_act trivial) fun _ => within_pure) within_pure
    unfold verifyOnLoadedAccount
    split
    · exact within_bind (within_mfaCheck ..) fun _ => within_bind within_ensure fun _ => within_pure
    · refine within_bind (within_mono ?_ (within_keepTokens ..)) fun _ =>
        within_bind within_ensure fun _ => within_pure
      rintro _ rfl
      trivial

theorem within_consumeCeremony (token : String) (ceremonyType : CeremonyType)
    (accountId : Option ObjectID) (e : AccountErr) :
    Within PlainCall (consumeCeremony token ceremonyType accountId e) := by
  refine within_bind within_ensure fun _ => within_bind (within_act trivial) fun ceremony => ?_
  exact within_bind within_ensure fun _ => within_pure

/-- A flow of such calls. -/
theorem follows_plain {α : Type} {p : AccountFlow α} (hp : Within PlainCall p) :
    Follows PasskeyCall (fun l' _ => l <+: l') p l :=
  follows_of_only hp (fun _ _ _ ho => ho.allowed) fun l' _ _ => List.prefix_append l l'

theorem follows_ensureAnotherSignInMethod (accountId : ObjectID) :
    Follows PasskeyCall (fun l' r => r = .ok () → OtherSignIn l' accountId)
      (ensureAnotherSignInMethod accountId) l := by
  refine follows_act_bind trivial (fun e h => by cases h) fun n => ?_
  split
  · next hn =>
    refine follows_pure fun _ => .inl ⟨n, ?_, hn⟩
    exact List.mem_append_right _ (List.mem_singleton_self _)
  · refine follows_act_bind trivial (fun e h => by cases h) fun acc => ?_
    unfold ensure
    split
    · next hpw =>
      refine follows_pure fun _ => .inr ⟨acc, ?_, hpw⟩
      exact List.mem_append_right _ (List.mem_singleton_self _)
    · exact follows_throw fun h => by cases h

theorem OtherSignIn.mono {l' : List Act} {a : ObjectID} (h : OtherSignIn l a) (hl : l <+: l') :
    OtherSignIn l' a := by
  rcases h with ⟨n, hmem, hn⟩ | ⟨acc, hmem, hpw⟩
  · exact .inl ⟨n, hl.subset hmem, hn⟩
  · exact .inr ⟨acc, hl.subset hmem, hpw⟩

/-- **The requests**: a deletion has seen another way to sign in. -/
theorem follows_passkeyJob (J : PasskeyJob) :
    Follows PasskeyCall (fun _ _ => True) (J.flow env) [] := by
  cases J with
  | beginAddPasskey id pw token mfa =>
    refine follows_mono (follows_plain ?_) fun _ _ _ _ => trivial
    exact within_bind (within_verify ..) fun acc => within_act trivial
  | finishAddPasskey id token =>
    refine follows_mono (follows_plain ?_) fun _ _ _ _ => trivial
    refine within_bind (within_consumeCeremony ..) fun ceremony =>
      within_bind (within_act trivial) fun acc => ?_
    exact within_bind (within_act trivial) fun _ => within_act trivial
  | finishRegistration token =>
    refine follows_mono (follows_plain ?_) fun _ _ _ _ => trivial
    refine within_bind (within_consumeCeremony ..) fun ceremony =>
      within_bind (within_act trivial) fun acc => ?_
    refine within_bind (within_act trivial) fun _ => within_bind (within_act trivial) fun _ => ?_
    exact within_bind (within_attempt (within_act trivial)) fun _ => within_act trivial
  | deletePasskeyByID c id pw token mfa =>
    refine follows_act_bind trivial (fun _ => trivial) fun owner => ?_
    refine follows_ensure_bind (fun _ => trivial) fun _ => ?_
    refine follows_bind (follows_ensureAnotherSignInMethod id) (fun _ _ _ _ => trivial)
      fun l₁ _ _ hother => ?_
    refine follows_bind (follows_plain (within_verify ..)) (fun _ _ _ _ => trivial) fun l₂ _ _ hl =>
      ?_
    exact follows_act (C := accountCalls) (o := .external (.deleteCredential c id))
      ((hother rfl).mono hl) fun _ => trivial

end Calls

section Steps

variable {ι α : Type} [DecidableEq ι] {env : Env} {P Q : Pool AccountSig ι Keyring α}
  {e : Event AccountSig ι} {a c : ObjectID}

/-- The credentials of an account besides one. -/
def Keyring.others (s : Keyring) (a c : ObjectID) : ℕ := s.credentials.countP fun x =>
    x.accountId = a ∧ x.id ≠ c

/-- The event deletes another credential of the account. -/
def deletesOther (a c : ObjectID) : Event AccountSig ι → Bool
  | ⟨_, .external (.deleteCredential c' a'), .ok _⟩ => a' = a ∧ c' ≠ c
  | _ => false

/-- A step is a failure without effect, or does what its action does. -/
theorem passkey_step (hst : Step (passkeyHandler env) P e Q) :
    ∃ ch s, s.base.accounts = P.state.base.accounts ∧
    s.credentials = P.state.credentials ∧ ((e.res = .error .store ∧ Q.state = s) ∨
      passkeyAct env ch s e.op = some (e.res, Q.state)) := by
  obtain ⟨k, ch, s, -, hs, rfl⟩ := step_iff.1 hst
  refine ⟨ch, { P.state with base.now := P.state.base.now + ch.tick }, rfl, rfl, ?_⟩
  unfold passkeyHandler at hs
  split at hs
  · simp only [Option.some.injEq, Prod.mk.injEq] at hs
    exact .inl ⟨hs.1.symm, hs.2.symm⟩
  · exact .inr hs

/-- The calls on the accounts and the rest. -/
def OnAccounts : AccountOp → Prop
  | .getCredentialsCount _ | .getCredentialByID _ | .external (.deleteCredential _ _) | .external
      (.deleteCredentials _)
  | .external (.saveCredential _) => False
  | _ => True

theorem onAccounts_act {ch : Choice} {s s' : Keyring} {o : AccountOp} {r : Except AccountErr o.Ans}
    (h : passkeyAct env ch s o = some (r, s')) (ho : OnAccounts o) :
    accountAct env ch s.base o = some (r, s'.base) ∧ s'.credentials = s.credentials := by
  have hbase : passkeyAct env ch s o = (accountAct env ch s.base o).map fun x =>
      (x.1, { s with base := x.2 }) := by
    cases o with
    | getCredentialsCount a => exact ho.elim
    | getCredentialByID c => exact ho.elim
    | external call => cases call <;> first | rfl | exact ho.elim
    | _ => rfl
  rw [hbase] at h
  obtain ⟨x, hx, heq⟩ := Option.map_eq_some_iff.1 h
  cases heq
  exact ⟨hx, rfl⟩

theorem passkeyAct_get {ch : Choice} {s s' : Keyring} {o : AccountOp} {r : Except AccountErr o.Ans}
    (h : passkeyAct env ch s o = some (r, s')) (id : ObjectID) :
    s'.base.accounts.get id = docAfter id o r (s.base.accounts.get id) := by
  cases o with
  | getCredentialsCount a => cases h; rfl
  | getCredentialByID c => cases h; rfl
  | external call =>
    cases call with
    | deleteCredential c a => cases h; rfl
    | deleteCredentials a => cases h; rfl
    | saveCredential a =>
      simp only [passkeyAct] at h
      split at h <;> cases h
      rfl
    | _ => cases h; rfl
  | _ => exact act_get (onAccounts_act h trivial).1 id

/-- The credentials after an action. -/
theorem passkeyAct_credentials {ch : Choice} {s s' : Keyring} {o : AccountOp}
    {r : Except AccountErr o.Ans} (h : passkeyAct env ch s o = some (r, s')) :
    s'.credentials = s.credentials ∨ (∃ x, s'.credentials = s.credentials ++ [x]) ∨
      (∃ c a, (⟨o, r⟩ : Act) = ⟨.external (.deleteCredential c a), .ok ()⟩ ∧
        s'.credentials = s.credentials.filter fun x => !decide (x.id = c ∧ x.accountId = a)) ∨
      ∃ a, o = .external (.deleteCredentials a) := by
  cases o with
  | getCredentialsCount a => cases h; exact .inl rfl
  | getCredentialByID c => cases h; exact .inl rfl
  | external call =>
    cases call with
    | deleteCredential c a => cases h; exact .inr (.inr (.inl ⟨c, a, rfl, rfl⟩))
    | deleteCredentials a => exact .inr (.inr (.inr ⟨a, rfl⟩))
    | saveCredential a =>
      simp only [passkeyAct] at h
      split at h <;> cases h
      exact .inr (.inl ⟨_, rfl⟩)
    | _ => cases h; exact .inl rfl
  | _ => exact .inl (onAccounts_act h trivial).2

theorem key_get (hst : Step (passkeyHandler env) P e Q) (id : ObjectID) :
    Q.state.base.accounts.get id = docAfter id e.op e.res (P.state.base.accounts.get id) := by
  obtain ⟨ch, s, hacc, -, ⟨hr, hq⟩ | hs⟩ := passkey_step hst
  · rw [hq, hr, docAfter_error, hacc]
  · rw [← hacc]
    exact passkeyAct_get hs id

/-- The credentials after a step that deletes no account. -/
theorem key_credentials (hst : Step (passkeyHandler env) P e Q)
    (hop : ∀ a, e.op ≠ .external (.deleteCredentials a)) :
    Q.state.credentials = P.state.credentials ∨
    (∃ x, Q.state.credentials = P.state.credentials ++ [x]) ∨
      ∃ c a, actOf e = ⟨.external (.deleteCredential c a), .ok ()⟩ ∧
        Q.state.credentials = P.state.credentials.filter fun x =>
          !decide (x.id = c ∧ x.accountId = a) := by
  obtain ⟨ch, s, -, hcred, ⟨-, hq⟩ | hs⟩ := passkey_step hst
  · exact .inl (by rw [hq, hcred])
  · rw [← hcred]
    rcases passkeyAct_credentials hs with h | h | h | ⟨a, ha⟩
    · exact .inl h
    · exact .inr (.inl h)
    · exact .inr (.inr h)
    · exact absurd ha (hop a)

/-- What a count answers, and what a read of an account does. -/
theorem key_answers (hst : Step (passkeyHandler env) P e Q) :
    (∀ n, actOf e = ⟨.getCredentialsCount a, .ok n⟩ → n = P.state.count a) ∧
      ∀ acc, actOf e = ⟨.getAccountById a, .ok acc⟩ → P.state.base.accounts.get a = some acc := by
  obtain ⟨ch, s, hacc, hcred, ⟨hr, -⟩ | hs⟩ := passkey_step hst
  · obtain ⟨i, o, r⟩ := e
    constructor <;> intro x hx <;> cases hx <;> cases hr
  · obtain ⟨i, o, r⟩ := e
    constructor
    · intro n hn
      cases hn
      have hcount : s.count a = n := by
        simp only [passkeyAct, Option.some.injEq, Prod.mk.injEq, Except.ok.injEq] at hs
        exact hs.1
      unfold Keyring.count at hcount ⊢
      rw [← hcount, hcred]
    · intro acc hn
      cases hn
      have hact : accountAct env ch s.base (.getAccountById a) = some (.ok acc, Q.state.base) :=
        (onAccounts_act hs trivial).1
      have hfound : found (s.base.accounts.get a) = .ok acc :=
        congrArg Prod.fst (Option.some.inj hact)
      rw [← hacc]
      cases hd : s.base.accounts.get a with
      | none => rw [hd] at hfound; cases hfound
      | some d => rw [hd] at hfound; cases hfound; rfl

/-- The ids are unique. -/
theorem Keyring.countP_id_le (s : Keyring) (c : ObjectID) :
    s.credentials.countP (·.id = c) ≤ 1 := by
  have hreplicate : (s.credentials.filter (·.id = c)).map Credential.id =
      List.replicate (s.credentials.filter (·.id = c)).length c := by
    rw [List.eq_replicate_iff]
    refine ⟨List.length_map _, fun b hb => ?_⟩
    obtain ⟨x, hx, rfl⟩ := List.mem_map.1 hb
    exact of_decide_eq_true (List.mem_filter.1 hx).2
  have hnodup :=
    s.nodup.sublist ((List.filter_sublist (p := fun x : Credential => x.id = c)).map Credential.id)
  rw [hreplicate, List.nodup_replicate] at hnodup
  rw [List.countP_eq_length_filter]
  exact hnodup

/-- At most one credential of the account goes with a deletion, and none with another step. -/
theorem others_step (hst : Step (passkeyHandler env) P e Q)
    (hop : ∀ a, e.op ≠ .external (.deleteCredentials a)) :
    P.state.others a c ≤ Q.state.others a c + [e].countP (deletesOther a c) := by
  unfold Keyring.others
  rcases key_credentials hst hop with h | ⟨x, h⟩ | ⟨c', a', he, h⟩
  · rw [h]
    exact Nat.le_add_right _ _
  · rw [h, List.countP_append]
    omega
  · rw [h, List.countP_eq_countP_filter_add P.state.credentials _ fun x => !decide
      (x.id = c' ∧ x.accountId = a')]
    refine Nat.add_le_add_left ?_ _
    obtain ⟨i, o, r⟩ := e
    cases he
    by_cases hother : a' = a ∧ c' ≠ c
    · have hdeletes :
          [(⟨i, .external (.deleteCredential c' a'), .ok ()⟩ : Event AccountSig ι)].countP
          (deletesOther a c) = 1 := by
        simp [deletesOther, hother]
      rw [hdeletes, List.countP_filter]
      refine (List.countP_mono_left fun x _ hx => ?_).trans (P.state.countP_id_le c')
      simp only [Bool.not_not, Bool.and_eq_true, decide_eq_true_eq] at hx ⊢
      exact hx.2.1
    · refine (Nat.le_zero.2 ?_).trans (Nat.zero_le _)
      rw [List.countP_eq_zero]
      intro x hx hcounted
      have hgone := (List.mem_filter.1 hx).2
      simp only [Bool.not_not, decide_eq_true_eq] at hgone hcounted
      exact hother ⟨hgone.2.symm.trans hcounted.1, fun heq => hcounted.2 (hgone.1.trans heq)⟩

/-- The account has a password. -/
def HasPassword (d : Option Account) : Prop := ∃ acc, d = some acc ∧ acc.password ≠ none

/-- No write of the requests takes a password away. -/
theorem hasPassword_docAfter {o : AccountOp} {r : Except AccountErr o.Ans} {d : Option Account}
    {l : List Act} (ho : PasskeyCall l o) (h : HasPassword d) : HasPassword (docAfter a o r d) := by
  obtain ⟨acc, rfl, hpw⟩ := h
  cases r with
  | error e =>
    rw [docAfter_error]
    exact ⟨acc, rfl, hpw⟩
  | ok x =>
    cases o with
    | createAccount _ => exact ho.elim
    | deleteAccountById _ => exact ho.elim
    | updateAccount loaded acc' =>
      simp only [docAfter]
      split
      · refine ⟨acc.set acc', rfl, fun hnone => hpw ?_⟩
        exact (Option.or_eq_none_iff.1 hnone).2
      · exact ⟨acc, rfl, hpw⟩
    | updateDeletionCode _ _ _ => simp only [docAfter]; split <;> exact ⟨_, rfl, hpw⟩
    | addProfileToAccount _ _ => simp only [docAfter]; split <;> exact ⟨_, rfl, hpw⟩
    | removeProfileFromAccount _ _ => simp only [docAfter]; split <;> exact ⟨_, rfl, hpw⟩
    | _ => exact ⟨acc, rfl, hpw⟩

theorem hasPassword_step {l : List Act} (hst : Step (passkeyHandler env) P e Q)
    (ho : PasskeyCall l e.op) (h : HasPassword (P.state.base.accounts.get a)) :
    HasPassword (Q.state.base.accounts.get a) := by
  rw [key_get hst]
  exact hasPassword_docAfter ho h

end Steps

section Runs

variable {ι : Type} [DecidableEq ι] {env : Env} {ok : Keyring → Event AccountSig ι → Prop}
  {s : Keyring} {jobs : ι → PasskeyJob} {P Q : Pool AccountSig ι Keyring (Except AccountErr Unit)}
  {e : Event AccountSig ι} {es : List (Event AccountSig ι)} {a c : ObjectID}

theorem not_deleteCredentials {l : List Act} {o : AccountOp} (h : PasskeyCall l o) (a : ObjectID) :
    o ≠ .external (.deleteCredentials a) := by
  rintro rfl
  exact h

/-- The events are calls of the requests. -/
def Calling (es : List (Event AccountSig ι)) : Prop := ∀ e ∈ es, ∃ l, PasskeyCall l e.op

theorem run_calling (hr : Run (passkeyHandler env) ok (startPasskeys env s jobs) es Q) :
    Calling es := by
  intro e he
  obtain ⟨es₁, es₂, rfl⟩ := List.append_of_mem he
  exact ⟨_, run_met_mid (fun i => follows_run (follows_passkeyJob (jobs i))) hr⟩

/-- **What is left of the credentials**: each deletion in a run takes one of them at most. -/
theorem others_run (hr : Run (passkeyHandler env) ok P es Q) (hcalls : Calling es) :
    P.state.others a c ≤ Q.state.others a c + es.countP (deletesOther a c) := by
  induction hr with
  | nil => exact Nat.le_add_right _ _
  | @snoc es R R' e _ _ hst ih =>
    have hrest := ih fun e' he' => hcalls e' (List.mem_append_left _ he')
    obtain ⟨l, hcall⟩ := hcalls e (List.mem_append_right _ (List.mem_singleton_self e))
    have hlast := others_step (a := a) (c := c) hst (not_deleteCredentials hcall)
    rw [List.countP_append]
    omega

theorem hasPassword_run (hr : Run (passkeyHandler env) ok P es Q) (hcalls : Calling es)
    (h : HasPassword (P.state.base.accounts.get a)) :
    HasPassword (Q.state.base.accounts.get a) := by
  induction hr with
  | nil => exact h
  | @snoc es R R' e _ _ hst ih =>
    obtain ⟨l, hcall⟩ := hcalls e (List.mem_append_right _ (List.mem_singleton_self e))
    exact hasPassword_step hst hcall (ih fun e' he' => hcalls e' (List.mem_append_left _ he'))

/-- No deletion relies on a count that is used up: since it has counted the credentials of the
account, fewer others of them have been deleted than it has counted besides its own one. -/
def Apart (a : ObjectID) (es : List (Event AccountSig ι)) : Prop :=
  ∀ es₁ es₂ es₃ i (n : ℕ) c,
    es = es₁ ++ ⟨i, .getCredentialsCount a, .ok n⟩ ::
      (es₂ ++ ⟨i, .external (.deleteCredential c a), .ok ()⟩ :: es₃) →
    1 < n → es₂.countP (deletesOther a c) + 1 < n

omit [DecidableEq ι] in
theorem Apart.left {es' : List (Event AccountSig ι)} (h : Apart a (es ++ es')) : Apart a es := by
  rintro es₁ es₂ es₃ i n c rfl hn
  refine h es₁ es₂ (es₃ ++ es') i n c ?_ hn
  simp

theorem count_le_others (s : Keyring) (a c : ObjectID) : s.count a ≤ s.others a c + 1 := by
  unfold Keyring.count Keyring.others
  rw [List.countP_eq_countP_filter_add s.credentials _ fun x => x.id ≠ c, List.countP_filter,
    List.countP_filter]
  refine Nat.add_le_add (List.countP_mono_left fun x _ hx => ?_)
    ((List.countP_mono_left fun x _ hx => ?_).trans (s.countP_id_le c))
  · simpa using hx
  · simp only [Bool.and_eq_true, Bool.not_eq_true', decide_eq_true_eq, decide_not] at hx
    simpa using hx.2

theorem signsIn_of_others (h : 0 < s.others a c) : s.SignsIn a := by
  obtain ⟨x, hx, hp⟩ := List.countP_pos_iff.1 h
  exact .inr ⟨x, hx, (of_decide_eq_true hp).1⟩

/-- The event deletes a credential of the account. -/
def deletesOf (a : ObjectID) : Event AccountSig ι → Bool
  | ⟨_, .external (.deleteCredential _ a'), .ok _⟩ => a' = a
  | _ => false

omit [DecidableEq ι] in
theorem deletesOf_of_other {x : Event AccountSig ι} (h : deletesOther a c x = true) :
    deletesOf a x = true := by
  unfold deletesOther at h
  split at h
  · exact decide_eq_true (of_decide_eq_true h).1
  · cases h

omit [DecidableEq ι] in
/-- A run with one deletion. -/
theorem apart_of_one (h : es.countP (deletesOf a) ≤ 1) : Apart a es := by
  rintro es₁ es₂ es₃ i n c rfl hn
  have hother : es₂.countP (deletesOther a c) ≤ es₂.countP (deletesOf a) :=
    List.countP_mono_left fun x _ => deletesOf_of_other
  have hone : deletesOf a (⟨i, .external (.deleteCredential c a), .ok ()⟩ : Event AccountSig ι) =
      true := by simp [deletesOf]
  rw [List.countP_append, List.countP_cons, List.countP_append, List.countP_cons_of_pos hone] at h
  omega

/-- A deletion leaves a way to sign in, if it has seen another one and relies on no count that is
used up. -/
theorem signsIn_deletion {R R' : Pool AccountSig ι Keyring (Except AccountErr Unit)} {i : ι}
    (hr : Run (passkeyHandler env) Free (startPasskeys env s jobs) es R)
    (hst : Step (passkeyHandler env) R ⟨i, .external (.deleteCredential c a), .ok ()⟩ R')
    (hapart : Apart a (es ++ [⟨i, .external (.deleteCredential c a), .ok ()⟩]))
    (hother : OtherSignIn (trace i es) a) :
    R'.state.SignsIn a := by
  have hcalls := run_calling hr
  rcases hother with ⟨n, hmem, hn⟩ | ⟨acc, hmem, hpw⟩
  · obtain ⟨es₁, es₂, rfl⟩ := List.append_of_mem (mem_trace.1 hmem)
    obtain ⟨P₁, P₂, -, -, hcount, hrest⟩ := run_mid hr
    obtain rfl : n = P₁.state.count a := (key_answers hcount).1 n rfl
    have hcalls₂ : Calling es₂ := fun e he =>
      hcalls e (List.mem_append_right _ (List.mem_cons_of_mem _ he))
    have hseen := count_le_others P₁.state a c
    have hread := others_step (a := a) (c := c) hcount (fun a' h => nomatch h)
    have hlater := others_run (a := a) (c := c) hrest hcalls₂
    have hdelete := others_step (a := a) (c := c) hst (fun a' h => nomatch h)
    have hused := hapart es₁ es₂ [] i _ c (by simp) hn
    have hnone : ∀ x : Event AccountSig ι, deletesOther a c x = false →
        [x].countP (deletesOther a c) = 0 := by
      intro x hx
      simp [hx]
    rw [hnone _ rfl] at hread
    rw [hnone _ (by simp [deletesOther])] at hdelete
    refine signsIn_of_others (c := c) ?_
    omega
  · obtain ⟨es₁, es₂, rfl⟩ := List.append_of_mem (mem_trace.1 hmem)
    obtain ⟨P₁, P₂, -, -, hread, hrest⟩ := run_mid hr
    have hcalls₂ : Calling es₂ := fun e he =>
      hcalls e (List.mem_append_right _ (List.mem_cons_of_mem _ he))
    have hstored : HasPassword (P₁.state.base.accounts.get a) :=
      ⟨acc, (key_answers hread).2 acc rfl, hpw⟩
    have hlater := hasPassword_run hrest hcalls₂ (hasPassword_step (l := []) hread trivial hstored)
    have hcall : PasskeyCall [⟨.getAccountById a, .ok acc⟩] (.external (.deleteCredential c a)) :=
      .inr ⟨acc, List.mem_singleton_self _, hpw⟩
    exact .inl (hasPassword_step hst hcall hlater)

/-- **The last way to sign in.** An account with a password or a credential has one after every run
of requests in which no deletion relies on a count that is used up. -/
theorem signIn_kept (hr : Run (passkeyHandler env) Free (startPasskeys env s jobs) es Q)
    (hapart : Apart a es) (h : s.SignsIn a) : Q.state.SignsIn a := by
  induction hr with
  | nil => exact h
  | @snoc es R R' e hr _ hst ih =>
    have hsigns := ih hapart.left
    have hmet : PasskeyCall (trace e.who es) e.op := by
      have hrun := hr.snoc trivial hst
      exact run_met_mid (fun i => follows_run (follows_passkeyJob (jobs i))) hrun
    rcases hsigns with hpw | ⟨x, hx, hxa⟩
    · exact .inl (hasPassword_step hst hmet hpw)
    rcases key_credentials hst (not_deleteCredentials hmet)
      with hsame | ⟨y, hadded⟩ | ⟨c', a', he, hdeleted⟩
    · exact .inr ⟨x, hsame ▸ hx, hxa⟩
    · exact .inr ⟨x, hadded ▸ List.mem_append_left _ hx, hxa⟩
    · by_cases ha : a' = a
      · subst ha
        obtain ⟨i, o, r⟩ := e
        cases he
        exact signsIn_deletion hr hst hapart hmet
      · refine .inr ⟨x, hdeleted ▸ List.mem_filter.2 ⟨hx, ?_⟩, hxa⟩
        have hne : decide (x.id = c' ∧ x.accountId = a') = false := decide_eq_false fun heq =>
          ha (heq.2.symm.trans hxa)
        rw [hne]
        rfl

end Runs

section Examples

/-- An account without a password, with two passkeys and a token for the deletion of each. -/
def twoPasskeys : Keyring where
  base := { totpAccount with
    accounts := ⟨[{ newAccount "a@x" 1 "p1" with
      tokens :=
        [⟨"S", .reauth .passkeyDelete, 100⟩, ⟨"T", .reauth .passkeyDelete, 100⟩] }], by decide⟩ }
  credentials := [⟨7, 1⟩, ⟨8, 1⟩]
  nodup := by decide

/-- Both passkeys are deleted. -/
def deletions : Fin 2 → PasskeyJob
  | 0 => .deletePasskeyByID 7 1 none (some "S") ⟨""⟩
  | 1 => .deletePasskeyByID 8 1 none (some "T") ⟨""⟩

/-- Both deletions count before either deletes. -/
def deletionsOverlap : List (Fin 2 × Choice) :=
  steps (thread 0) 2 ++ steps (thread 1) 2 ++ steps (thread 0) 4 ++ steps (thread 1) 4

set_option maxRecDepth 4000 in
theorem deletionsOverlap_plays :
    (play (passkeyHandler exampleEnv) Free deletionsOverlap
      (startPasskeys exampleEnv twoPasskeys deletions)).isSome := by decide

set_option maxRecDepth 4000 in
/-- No way to sign in is left. -/
theorem last_signIn_lost : twoPasskeys.SignsIn 1 ∧
    ∃ es Q, Run (passkeyHandler exampleEnv) Free
      (startPasskeys exampleEnv twoPasskeys deletions) es Q ∧ ¬ Q.state.SignsIn 1 := by
  refine ⟨by decide, _, _, run_play deletionsOverlap_plays, ?_⟩
  decide

/-- One deletion after the other. -/
def deletionsInTurn : List (Fin 2 × Choice) := steps (thread 0) 6 ++ steps (thread 1) 3

set_option maxRecDepth 4000 in
theorem deletionsInTurn_plays :
    (play (passkeyHandler exampleEnv) Free deletionsInTurn
      (startPasskeys exampleEnv twoPasskeys deletions)).isSome := by decide

set_option maxRecDepth 4000 in
theorem signIn_kept_inTurn : ((play (passkeyHandler exampleEnv) Free deletionsInTurn
    (startPasskeys exampleEnv twoPasskeys deletions)).get deletionsInTurn_plays).2.state.SignsIn
      1 := by
  refine signIn_kept (run_play deletionsInTurn_plays) (apart_of_one ?_) (by decide)
  decide

end Examples

end ModDNS.Accounts
