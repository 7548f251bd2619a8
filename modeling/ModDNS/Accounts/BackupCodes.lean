import ModDNS.Accounts.Runs

/-!
# Backup codes

* `backupCodes_singleUse`: a backup code is accepted once while TOTP stays enabled, in every run in
  which no account is written back from a copy that lacks a used code.
* `mailChange_restores`: an e-mail change by a backup code writes back the code it has used.
-/

namespace ModDNS.Accounts

open Conc Go

variable {ι : Type} {env : Env} {ok : State → Event AccountSig ι → Prop} {s : State}
  {jobs : ι → Job} {P Q : AccountPool ι} {e : Event AccountSig ι} {es : List (Event AccountSig ι)}
  {id : ObjectID} {otp : String}

/-- `VerifyTotp` accepts the backup code `otp` of the account `id`. -/
abbrev Accepts (id : ObjectID) (otp : String) (e : Event AccountSig ι) : Prop :=
  UsesBackup id otp (actOf e)

/-- TOTP does not stay enabled: the account is deleted, or new, or TOTP is disabled. -/
def TotpEnds (id : ObjectID) (e : Event AccountSig ι) : Prop :=
  id ∈ deleted (actOf e) ∨ (∃ acc ∈ created (actOf e), acc.id = id) ∨
    ∃ w ∈ written (actOf e), w.2.id = id ∧ w.2.mfa.totp.enabled = false

instance (id : ObjectID) (e : Event AccountSig ι) : Decidable (TotpEnds id e) :=
  inferInstanceAs (Decidable (_ ∨ (∃ acc ∈ created (actOf e), _) ∨ ∃ w ∈ written (actOf e), _))

/-- Single use of the backup codes, after the events `es`, in the state `s`. -/
structure SingleUse (env : Env) (es : List (Event AccountSig ι)) (s : State) : Prop where
  /-- A code that has been accepted is listed as used only, and is not accepted again. -/
  once : ∀ id otp es₁ e es₂ d, es = es₁ ++ e :: es₂ → Accepts id otp e →
    (∀ e' ∈ es₂, ¬ TotpEnds id e') →
    s.accounts.get id = some d →
      otp ∈ d.mfa.totp.backupCodesUsed ∧ otp ∉ d.mfa.totp.backupCodes ∧
        ∀ e' ∈ es₂, ¬ Accepts id otp e'
  /-- A call of `VerifyTotp` that succeeds with a stored code accepts it as a backup code. -/
  only : ∀ d ∈ s.accounts.docs, ∀ otp ∈ d.mfa.totp.backupCodes ++ d.mfa.totp.backupCodesUsed,
    ∀ id action l acc,
    Path (verifyTotp env id otp action).run l (.pure (.ok acc)) → ∃ x ∈ l, UsesBackup acc.id otp x

/-- An account is written back from a copy that has all of its used backup codes. -/
def KeepsUsed (s : State) (e : Event AccountSig ι) : Prop :=
  ∀ w ∈ written (actOf e), ∀ d ∈ s.accounts.get w.2.id,
    d.mfa.totp.backupCodesUsed ⊆ w.1.mfa.totp.backupCodesUsed

instance (s : State) (e : Event AccountSig ι) : Decidable (KeepsUsed s e) :=
  inferInstanceAs (Decidable (∀ w ∈ written (actOf e), ∀ d ∈ s.accounts.get w.2.id, _))

section Settings

/-- The settings as they are in every copy. -/
structure SettingsOk (m : MFASettings) : Prop where
  nodup : (m.totp.backupCodes ++ m.totp.backupCodesUsed).Nodup
  off : m.totp.enabled = false → m.totp.backupCodes = [] ∧ m.totp.backupCodesUsed = []
  letters : ∀ c ∈ m.totp.backupCodes ++ m.totp.backupCodesUsed, IsRandomString 16 c

theorem settingsOk_off {secret : String} : SettingsOk ⟨⟨false, secret, [], []⟩⟩ :=
  ⟨List.nodup_nil, fun _ => ⟨rfl, rfl⟩, nofun⟩

theorem SettingsOk.useBackup {m : MFASettings} {totp : TotpSettings} (h : SettingsOk m)
    (hen : m.totp.enabled = true) (hb : verifyTotpBackup m.totp otp = .ok totp) :
    SettingsOk ⟨totp⟩ := by
  obtain ⟨hused, hmem, rfl⟩ := verifyTotpBackup_ok hb
  have hperm : (m.totp.backupCodes.erase otp ++ (m.totp.backupCodesUsed ++ [otp])).Perm
      (m.totp.backupCodes ++ m.totp.backupCodesUsed) := by
    rw [← List.append_assoc]
    refine List.perm_append_comm.trans ?_
    exact ((List.perm_cons_erase hmem).symm.append_right m.totp.backupCodesUsed)
  refine ⟨hperm.nodup_iff.2 h.nodup, fun hoff => ?_, fun c hc => h.letters c (hperm.mem_iff.1 hc)⟩
  rw [hen] at hoff
  cases hoff

variable [DecidableEq ι]

/-- The backup codes that a flow has drawn. -/
theorem run_letters (hr : Run (accountHandler env) ok (start env s jobs) es Q) :
    ∀ i, ∀ c ∈ drawnCodes (trace i es), IsRandomString 16 c := by
  refine run_ind_jobs (I := fun es _ => ∀ i, ∀ c ∈ drawnCodes (trace i es),
    IsRandomString 16 c) nofun ?_ hr
  intro es P e Q _ ih hA _ hst i c hc
  rw [trace_snoc] at hc
  split at hc
  · rw [drawnCodes, List.filterMap_append] at hc
    rcases List.mem_append.1 hc with hc | hc
    · exact ih i c hc
    · obtain ⟨x, hx, hxc⟩ := List.mem_filterMap.1 hc
      obtain rfl := List.mem_singleton.1 hx
      obtain ⟨j, o, r⟩ := e
      cases o with
      | randomString n =>
        cases r with
        | error e => cases hxc
        | ok v =>
          cases hxc
          obtain rfl : n = 16 := hA
          exact step_randomString hst
      | _ => cases hxc
  · exact ih i c hc

theorem mfa_whole : WholeField Account.mfa := ⟨fun _ _ => rfl, fun _ _ _ => rfl, fun _ _ => rfl⟩

theorem run_settings (h0 : ∀ d ∈ s.accounts.docs, SettingsOk d.mfa)
    (hr : Run (accountHandler env) ok (start env s jobs) es Q) :
    ∀ acc, Copy es Q.state acc → SettingsOk acc.mfa := by
  refine run_copies (K := fun _ _ m => SettingsOk m) mfa_whole (fun _ _ _ _ h => h) ?_ ?_ ?_ hr
  · intro es acc _ _ hmfa
    rw [hmfa]
    exact settingsOk_off
  · intro es Q i loaded acc hr h hchange
    cases hchange with
    | edits hedit => rw [edits_mfa hedit]; exact h
    | enableTotp secret hdis _ =>
      obtain ⟨hcodes, hused⟩ := h.off hdis
      simp only [hcodes, hused, List.nil_append]
      refine ⟨by
        simpa using drawnCodes_nodup hr i, fun h => Bool.noConfusion h, fun c hc =>
        run_letters hr i c (by simpa using hc)⟩
    | useBackup otp totp hen hb => exact h.useBackup hen hb
    | disableTotp hen => exact settingsOk_off
    | _ => exact h
  · intro acc hacc
    exact h0 acc (Collection.mem_of_get hacc)

end Settings

section Once

variable [DecidableEq ι] {J : Job} {l : List Act} {loaded acc d : Account}

theorem change_used (h : Change J l loaded acc) (hen : acc.mfa.totp.enabled ≠ false)
    (hused : otp ∈ loaded.mfa.totp.backupCodesUsed) : otp ∈ acc.mfa.totp.backupCodesUsed := by
  cases h with
  | edits hedit => rw [edits_mfa hedit]; exact hused
  | useBackup _ totp _ hb =>
    rw [(verifyTotpBackup_ok hb).2.2]
    exact List.mem_append_left _ hused
  | disableTotp => exact absurd rfl hen
  | _ => exact hused

/-- A step, as long as TOTP stays enabled: a used code stays used. -/
theorem step_used (hA : Allowed J l e.op) (hok : KeepsUsed P.state e)
    (hst : Step (accountHandler env) P e Q) (hends : ¬ TotpEnds id e)
    (hd : Q.state.accounts.get id = some d) :
    ∃ d₀, P.state.accounts.get id = some d₀ ∧
      (otp ∈ d₀.mfa.totp.backupCodesUsed → otp ∈ d.mfa.totp.backupCodesUsed) := by
  rcases step_field mfa_whole hst hd with ⟨d₀, hd₀, hmfa⟩ | ⟨w, hw, hid, hmfa, d₀, hd₀⟩ | ⟨hnew, -⟩
  · exact ⟨d₀, hd₀, fun h => by rw [hmfa]; exact h⟩
  · refine ⟨d₀, hd₀, fun h => ?_⟩
    have hen : w.2.mfa.totp.enabled ≠ false := fun hoff => hends (.inr (.inr ⟨w, hw, hid, hoff⟩))
    have hloaded := hok w hw d₀ (by rw [hid]; exact hd₀) h
    rw [hmfa]
    obtain ⟨i, o, r⟩ := e
    cases mem_written.1 hw
    exact change_used hA.2 hen hloaded
  · exact absurd (.inr (.inl ⟨d, hnew, Collection.get_id hd⟩)) hends

/-- The step that accepts a code. -/
theorem step_accepts (hst : Step (accountHandler env) P e Q) (hacc : Accepts id otp e)
    (hd : Q.state.accounts.get id = some d) : otp ∈ d.mfa.totp.backupCodesUsed := by
  obtain ⟨⟨loaded, acc⟩, hw, hid, hb⟩ := hacc
  obtain ⟨i, o, r⟩ := e
  cases mem_written.1 hw
  have hget := step_get hst id
  simp only [docAfter, if_pos hid.symm, hd] at hget
  obtain ⟨d₀, -, rfl⟩ := Option.map_eq_some_iff.1 hget.symm
  show otp ∈ acc.mfa.totp.backupCodesUsed
  rw [(verifyTotpBackup_ok hb).2.2]
  exact List.mem_append_right _ (List.mem_singleton_self _)

/-- **Once.** A code that has been accepted stays used, and is not accepted again. -/
theorem run_once (hr : Run (accountHandler env) KeepsUsed (start env s jobs) es Q) :
    ∀ es₁ e es₂, es = es₁ ++ e :: es₂ → Accepts id otp e → (∀ e' ∈ es₂, ¬ TotpEnds id e') →
      ∀ d, Q.state.accounts.get id = some d →
        otp ∈ d.mfa.totp.backupCodesUsed ∧ ∀ e' ∈ es₂, ¬ Accepts id otp e' := by
  refine run_ind_jobs (I := fun es Q => ∀ es₁ e es₂, es = es₁ ++ e :: es₂ → Accepts id otp e →
      (∀ e' ∈ es₂, ¬ TotpEnds id e') → ∀ d, Q.state.accounts.get id = some d →
        otp ∈ d.mfa.totp.backupCodesUsed ∧ ∀ e' ∈ es₂, ¬ Accepts id otp e') (by simp) ?_ hr
  intro es P x Q _ ih hA hok hst es₁ e es₂ heq hacc hends d hd
  rcases List.eq_nil_or_concat es₂ with rfl | ⟨es₂, y, rfl⟩
  · obtain ⟨-, he⟩ := List.append_inj' heq rfl
    cases he
    exact ⟨step_accepts hst hacc hd, List.forall_mem_nil _⟩
  · rw [List.concat_eq_append, ← List.cons_append, ← List.append_assoc] at heq
    obtain ⟨rfl, he⟩ := List.append_inj' heq rfl
    cases he
    simp only [List.concat_eq_append, List.forall_mem_append, List.forall_mem_singleton] at hends ⊢
    obtain ⟨d₀, hd₀, hkeep⟩ := step_used hA hok hst hends.2 hd
    obtain ⟨hused, hno⟩ := ih es₁ e es₂ rfl hacc hends.1 d₀ hd₀
    refine ⟨hkeep hused, hno, fun hacc' => ?_⟩
    -- a copy that has all used codes does not accept one of them
    obtain ⟨w, hw, hid, hb⟩ := hacc'
    exact (verifyTotpBackup_ok hb).1 (hok w hw d₀ (by rw [hid]; exact hd₀) hused)

/-- A code of `RandomString` is not one that the TOTP library accepts. -/
theorem randomString_invalid (hval : ∀ p secret now, env.validate p secret now = true →
    (trimSpace p).length = 6) (h : IsRandomString 16 otp) (secret : String)
    (now : ℕ) : env.validate otp secret now = false := by
  have hspace : alphaNumericUserFriendly.toList.all (fun c => isSpace c = false) = true := by decide
  have htrim : trimSpace otp = otp := trimSpace_eq fun c hc => by
    simpa using List.all_eq_true.1 hspace c (h.2 c hc)
  by_contra hv
  have h6 := hval otp secret now (by simpa using hv)
  rw [htrim, h.1] at h6
  cases h6

/-- **Backup codes are single-use**, in every run in which no account is written back from a copy
that lacks a used code. The library `totp` accepts codes of six digits only. -/
theorem backupCodes_singleUse (env : Env) (jobs : ι → Job)
    (hval : ∀ p secret now, env.validate p secret now = true → (trimSpace p).length = 6)
    (hr : Run (accountHandler env) KeepsUsed (start env .initial jobs) es Q) :
    SingleUse env es Q.state := by
  have hset : ∀ acc, Copy es Q.state acc → SettingsOk acc.mfa :=
    run_settings (by simp [State.initial, Collection.empty]) hr
  refine ⟨fun id otp es₁ e es₂ d heq hacc hends hd => ?_,
    fun d hd otp hotp id action l acc hl => ?_⟩
  · obtain ⟨hused, hno⟩ := run_once hr es₁ e es₂ heq hacc hends d hd
    have hstored : Q.state.accounts.get d.id = some d := by rw [Collection.get_id hd]; exact hd
    refine ⟨hused, fun hcode => ?_, hno⟩
    exact (List.nodup_append.1 (hset d (.inl hstored)).nodup).2.2 otp hcode otp hused rfl
  · have hletters := (hset d (.inl (Collection.get_of_mem hd))).letters otp hotp
    obtain ⟨-, -, -, ⟨now, hv⟩ | hx⟩ :=
      meets_path (does_run (verifyTotp_does (J := .idle) id otp action)) hl acc rfl
    · rw [randomString_invalid hval hletters] at hv
      cases hv
    · exact hx

end Once

section Examples

/-- An e-mail change by password and backup code, and a login by the same code. -/
def mailChangeJobs : Fin 5 → Job
  | 0 => .signup "a@x" "Password1234!" "session"
  | 1 => .totpEnable 1
  | 2 => .totpConfirm 1 "123456"
  | 3 => .updateAccount 1 [⟨.replace, .email, .object
      (some "Password1234!") none "b@x"⟩] ⟨"AAAAAAAAAAAAAAAA"⟩
  | 4 => .login "b@x" "Password1234!" ⟨"AAAAAAAAAAAAAAAA"⟩

def mailChange : List (Fin 5 × Choice) := totpSetup 0 1 2 ++ steps 3 6 ++ steps 4 5

set_option maxRecDepth 4000 in
theorem mailChange_plays :
    (play (accountHandler exampleEnv) Free mailChange
      (start exampleEnv .initial mailChangeJobs)).isSome := by decide

theorem not_singleUse (id : ObjectID) (otp : String) {n : ℕ} (hn : n < es.length)
    (hacc : Accepts id otp (es.get ⟨n, hn⟩)) (hends : ∀ e ∈ es.drop (n + 1), ¬ TotpEnds id e)
    (hd : (s.accounts.get id).isSome) (hagain : ∃ e ∈ es.drop (n + 1), Accepts id otp e) :
    ¬ SingleUse env es s := by
  intro h
  have hsplit : es = es.take n ++ es.get ⟨n, hn⟩ :: es.drop (n + 1) := by simp
  obtain ⟨d, hd⟩ := Option.isSome_iff_exists.1 hd
  obtain ⟨e, he, hacc'⟩ := hagain
  exact (h.once id otp _ _ _ d hsplit hacc hends hd).2.2 e he hacc'

set_option maxRecDepth 4000 in
theorem mailChange_length : 27 < ((play (accountHandler exampleEnv) Free mailChange
    (start exampleEnv .initial mailChangeJobs)).get mailChange_plays).1.length := by decide

set_option maxRecDepth 4000 in
/-- The e-mail change writes back the account as it was before its backup code was used, and the
login accepts the code again. -/
theorem mailChange_restores :
    ∃ es Q, Run (accountHandler exampleEnv) Free (start exampleEnv .initial mailChangeJobs) es Q ∧
      (∀ i, (Q.prog i).result.isSome) ∧ ¬ SingleUse exampleEnv es Q.state := by
  refine ⟨_, _, run_play mailChange_plays, by decide, ?_⟩
  exact not_singleUse 1 "AAAAAAAAAAAAAAAA" mailChange_length (by decide) (by decide) (by decide)
    (by decide)

/-- Two logins by the same code. -/
def loginTwiceJobs : Fin 5 → Job
  | 0 => .signup "a@x" "Password1234!" "session"
  | 1 => .totpEnable 1
  | 2 => .totpConfirm 1 "123456"
  | _ => .login "a@x" "Password1234!" ⟨"AAAAAAAAAAAAAAAA"⟩

def loginTwice : List (Fin 5 × Choice) := totpSetup 0 1 2 ++ steps 3 5 ++ steps 4 5

set_option maxRecDepth 4000 in
theorem loginTwice_plays :
    (play (accountHandler exampleEnv) KeepsUsed loginTwice
      (start exampleEnv .initial loginTwiceJobs)).isSome := by
  decide

theorem backupCodes_singleUse_login : SingleUse exampleEnv
    ((play (accountHandler exampleEnv) KeepsUsed loginTwice
      (start exampleEnv .initial loginTwiceJobs)).get
      loginTwice_plays).1
    ((play (accountHandler exampleEnv) KeepsUsed loginTwice
      (start exampleEnv .initial loginTwiceJobs)).get
      loginTwice_plays).2.state := by
  refine backupCodes_singleUse exampleEnv loginTwiceJobs (fun p secret now h => ?_)
    (run_play loginTwice_plays)
  obtain rfl : p = "123456" := by simpa [exampleEnv] using h
  decide

end Examples

end ModDNS.Accounts
