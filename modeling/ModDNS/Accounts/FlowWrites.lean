import ModDNS.Accounts.Writes

/-!
# The flows of `Flows` write what is allowed

One lemma for each function, in its order, with what the caller has to know of its result.
-/

namespace ModDNS.Accounts

open Conc Relation

section Flows

variable {env : Env} {J : Job} {l : List Act}

theorem call_does (o : AccountOp) {Q : List Act → o.Ans → Prop} (ho : Allowed J l o)
    (hQ : ∀ a, Q (l ++ [⟨o, .ok a⟩]) a) : Does (Allowed J) Q (call o) l :=
  does_act (C := accountCalls) o ho hQ

theorem tick_does (label : Label) (id : ObjectID) :
    Does (Allowed J) (fun l' _ => ∃ n, l' = l ++ [⟨.incr label id env.idLimiterExpiration, .ok n⟩])
      (tick env label id) l :=
  does_act_bind trivial fun n => does_pure ⟨n, rfl⟩

theorem isAllowed_does (label : Label) (id : ObjectID) :
    Does (Allowed J) (fun l' _ => ∃ r, l' = l ++ [⟨.getCounter label id, r⟩])
      (isAllowed env label id) l := by
  refine does_attempt_bind rfl trivial fun r => ?_
  cases r <;> exact does_pure ⟨_, rfl⟩

/-- A successful check ends with the account as it is stored. The code was a valid one at some
instant, or a backup code, which the flow has used up. -/
theorem verifyTotp_does (id : ObjectID) (otp : String) (action : TotpAction) :
    Does (Allowed J) (fun l' acc => Seen l' acc ∧ acc.mfa.totp.enabled = true ∧
      ((∃ now, env.validate otp acc.mfa.totp.secret now = true) ∨
        ∃ x ∈ l', UsesBackup acc.id otp x))
      (verifyTotp env id otp action) l := by
  refine does_act_bind trivial fun acc => does_ensure_bind fun hen =>
    does_act_bind trivial fun now => ?_
  have hseen : Seen (l ++ [⟨.getAccountById id, .ok acc⟩] ++ [⟨.now, .ok now⟩]) acc :=
    seen_byId.mono (List.prefix_append _ _)
  split
  · rename_i hval
    exact does_pure ⟨hseen, hen, .inl ⟨now, hval⟩⟩
  · split
    · rename_i totp h
      refine does_act_bind ⟨hseen, .useBackup acc otp totp hen h⟩ fun _ => does_pure ?_
      refine ⟨seen_last (.inr ⟨_, rfl, rfl⟩), ?_, .inr ⟨_, List.mem_concat_self, _, rfl, rfl, h⟩⟩
      rw [← hen]
      exact verifyTotpBackup_enabled h
    · refine does_bind (tick_does _ _) fun _ _ _ _ =>
        does_bind (isAllowed_does _ _) fun _ _ _ _ => ?_
      split <;> exact does_throw

theorem mfaCheck_does (acc : Account) (mfa : MfaData) :
    Does (Allowed J) (fun _ _ => True) (mfaCheck env acc mfa) l := by
  unfold mfaCheck
  split
  · exact does_ensure_bind fun _ => does_bind (verifyTotp_does _ _ _) fun _ _ _ _ =>
      does_pure trivial
  · exact does_pure trivial

theorem keepTokens_does (p : Purpose) (v : String) (tokens : List Token) :
    Does (Allowed J) (fun l' x => x.1 = tokens.filter (fun t => ¬ Reauth.Of (p, v) t) ∧
      (x.2 = true → ∃ t ∈ tokens, Reauth.Of (p, v) t) ∧
      ∀ t ∈ tokens, Reauth.Of (p, v) t → ReadBy l' t.expiresAt) (keepTokens p v tokens) l := by
  induction tokens generalizing l with
  | nil => exact does_pure ⟨rfl, nofun, nofun⟩
  | cons t tokens ih =>
    unfold keepTokens
    split
    · rename_i hof
      have hof : Reauth.Of (p, v) t := hof
      refine does_act_bind trivial fun now => does_ensure_bind fun hnow => does_bind ih ?_
      rintro l' ⟨kept, matched⟩ hl ⟨hk, -, hexp⟩
      refine does_pure ⟨by simpa [hof] using hk, fun _ => ⟨t, by simp, hof⟩, ?_⟩
      intro t' ht' hof'
      rcases List.mem_cons.1 ht' with rfl | ht'
      · exact ReadBy.mono hl ⟨now, hnow, by simp⟩
      · exact hexp t' ht' hof'
    · rename_i hof
      have hof : ¬ Reauth.Of (p, v) t := hof
      refine does_bind ih ?_
      rintro l' ⟨kept, matched⟩ - ⟨hk, hm, hexp⟩
      refine does_pure ⟨by simpa [hof] using hk, fun h => ?_, ?_⟩
      · obtain ⟨t', ht', hof'⟩ := hm h
        exact ⟨t', by simp [ht'], hof'⟩
      · intro t' ht' hof'
        rcases List.mem_cons.1 ht' with rfl | ht'
        · exact absurd hof' hof
        · exact hexp t' ht' hof'

/-- The loop over the tokens reads the clock, and nothing else. -/
theorem within_keepTokens (p : Purpose) (v : String) (tokens : List Token) :
    Within (· = AccountOp.now) (keepTokens p v tokens) := by
  induction tokens with
  | nil => exact within_pure
  | cons t tokens ih =>
    refine within_ite ?_ (within_bind ih fun _ => within_pure)
    refine within_bind (within_act rfl) fun now => within_bind within_ensure fun _ => ?_
    exact within_bind ih fun _ => within_pure

/-- What a reauthentication on a loaded account comes to: an edit, which spends the token if
one is presented. -/
theorem verifyOnLoadedAccount_does (acc : Account) (p : Params)
    (hone : p.password ≠ none ∨ p.reauthToken ≠ none)
    (hboth : p.password = none ∨ p.reauthToken = none)
    (hR : ∀ v, p.reauthToken = some v → (p.purpose, v) ∈ J.reauths) :
    Does (Allowed J) (fun l' acc' => Edits J l' acc acc' ∧
      ∀ v, p.reauthToken = some v → Spends (p.purpose, v) acc acc' ∧
        ∃ t ∈ acc.tokens, Reauth.Of (p.purpose, v) t ∧ ReadBy l' t.expiresAt)
      (verifyOnLoadedAccount env acc p) l := by
  unfold verifyOnLoadedAccount
  split
  · rename_i password hpw
    have hno : p.reauthToken = none := by rcases hboth with h | h <;> simp_all
    refine does_bind (mfaCheck_does _ _) fun l' _ _ _ => does_ensure_bind fun _ =>
      does_pure ⟨.refl, ?_⟩
    intro v hv
    rw [hno] at hv
    cases hv
  · rename_i hpw
    obtain ⟨v, hv⟩ : ∃ v, p.reauthToken = some v := by
      rcases hone with h | h
      · exact absurd hpw h
      · exact Option.ne_none_iff_exists'.1 h
    rw [hv]
    refine does_bind (keepTokens_does p.purpose v acc.tokens) ?_
    rintro l' ⟨kept, matched⟩ - ⟨hk, hm, hexp⟩
    refine does_ensure_bind fun hmatched => does_pure ?_
    obtain ⟨t, ht, hof⟩ := hm hmatched
    dsimp only at hk
    subst hk
    refine ⟨.single (.reauth acc (p.purpose, v) (hR v hv) ⟨t, ht, hof⟩ hexp), ?_⟩
    rintro _ ⟨⟩
    refine ⟨⟨⟨t, ht, hof⟩, fun t' ht' => ?_⟩, t, ht, hof, hexp t ht hof⟩
    simpa using (List.mem_filter.1 ht').2

theorem oneAuthMethod_does (p : Params) :
    Does (Allowed J) (fun l' _ => l' = l ∧ (p.password ≠ none ∨ p.reauthToken ≠ none) ∧
      (p.password = none ∨ p.reauthToken = none)) (oneAuthMethod p) l :=
  does_ensure_bind fun h1 => does_ensure fun h2 => ⟨rfl, h1, h2⟩

theorem verifyOnAccount_does (acc : Account) (p : Params)
    (hR : ∀ v, p.reauthToken = some v → (p.purpose, v) ∈ J.reauths) :
    Does (Allowed J) (fun l' acc' => Edits J l' acc acc' ∧
      ∀ v, p.reauthToken = some v → Spends (p.purpose, v) acc acc' ∧
        ∃ t ∈ acc.tokens, Reauth.Of (p.purpose, v) t ∧ ReadBy l' t.expiresAt)
      (verifyOnAccount env acc p) l := by
  refine does_bind (oneAuthMethod_does p) ?_
  rintro l' ⟨⟩ - ⟨rfl, h1, h2⟩
  exact verifyOnLoadedAccount_does acc p h1 h2 hR

/-- A request that persists its own reauthentication has used the token it presents. -/
theorem verify_does (id : ObjectID) (p : Params) (hp : p.purpose ≠ .accountDeletion)
    (hR : ∀ v, p.reauthToken = some v → (p.purpose, v) ∈ J.reauths) :
    Does (Allowed J) (fun l' _ => ∀ v, p.reauthToken = some v → Used l' (p.purpose, v))
    (verify env id p) l := by
  refine does_bind (oneAuthMethod_does p) ?_
  rintro l' ⟨⟩ - ⟨rfl, h1, h2⟩
  refine does_attempt_bind rfl trivial fun r => ?_
  split
  · exact does_throw
  · exact does_throw
  · rename_i loaded
    refine does_bind (verifyOnLoadedAccount_does loaded p h1 h2 hR) ?_
    rintro l'' acc hl ⟨hedit, hspend⟩
    have hseen : Seen l'' loaded := seen_byId.mono hl
    split
    · refine does_act_bind ⟨hseen, .edits hedit⟩ fun _ => does_pure ?_
      intro v hv
      exact used_last hp (hspend v hv).1
    · rename_i hnone
      refine does_pure fun v hv => ?_
      exact absurd (by simp [hv]) hnone

end Flows

section Updates

variable {env : Env} {J : Job} {l : List Act}

theorem toStringE_does (v : Value) :
    Does (Allowed J) (fun l' _ => l' = l ∧ ∃ text truth, v = .scalar text truth)
      (toStringE v) l := by
  cases v with
  | scalar text truth => exact does_pure ⟨rfl, text, truth, rfl⟩
  | _ => exact does_throw

theorem setPassword_does (acc : Account) (pw : String) :
    Does (Allowed J) (fun _ acc' => ∃ hash, acc' = { acc with password := some hash })
      (setPassword acc pw) l :=
  does_ensure_bind fun _ => does_act_bind trivial fun hash => does_pure ⟨hash, rfl⟩

theorem handleProfilesUpdateAtomic_does (id : ObjectID) (update : AccountUpdate) :
    Does (Allowed J) (fun _ _ => True) (handleProfilesUpdateAtomic id update) l := by
  refine does_bind (toStringE_does _) fun l' _ _ _ => ?_
  split
  · exact call_does (.addProfileToAccount id _) trivial fun _ => trivial
  · exact call_does (.removeProfileFromAccount id _) trivial fun _ => trivial
  · exact does_throw

theorem handleProfileUpdates_does (id : ObjectID) (updates : List AccountUpdate) :
    Does (Allowed J) (fun _ _ => True) (handleProfileUpdates id updates) l := by
  induction updates generalizing l with
  | nil => exact does_pure trivial
  | cons update updates ih =>
    exact does_bind (handleProfilesUpdateAtomic_does _ _) fun _ _ _ _ => ih

theorem handleEmailUpdate_does (acc : Account) (update : AccountUpdate) (mfa : MfaData)
    (hpath : update.path = .email) (hR : ∀ r ∈ update.reauths, r ∈ J.reauths) :
    Does (Allowed J) (fun l' acc' => Edits J l' acc acc' ∧ ∀ r ∈ update.reauths, Spends r acc acc')
      (handleEmailUpdate env acc update mfa) l := by
  unfold handleEmailUpdate
  split
  · rename_i pw token newEmail hval
    have hreauths : update.reauths = token.toList.map fun v => (.emailChange, v) := by
      unfold AccountUpdate.reauths
      rw [hpath, hval]
      cases token <;> rfl
    rw [hreauths] at hR ⊢
    refine does_ensure_bind fun _ => does_bind (verifyOnAccount_does acc _ fun v hv => hR _ ?_) ?_
    · obtain rfl : token = some v := hv
      simp
    rintro l' acc₁ - ⟨hedit, hspend⟩
    refine does_ensure_bind fun _ => does_ensure_bind fun _ =>
      does_attempt_bind rfl trivial fun r => ?_
    split
    · split <;> exact does_throw
    · refine does_pure ⟨(edits_mono (List.prefix_append _ _) hedit).tail (.email acc₁ _),
        fun r hr => ?_⟩
      obtain ⟨v, hv, rfl⟩ := List.mem_map.1 hr
      exact (hspend v (by simpa using hv)).1.after (J := J) (l := l') (.single (.email acc₁ _))
    · exact does_throw
  · exact does_throw

theorem verifyPasswordSetReauth_does (acc : Account) (update : AccountUpdate)
    (hpath : update.path = .password) (hR : ∀ r ∈ update.reauths, r ∈ J.reauths) :
    Does (Allowed J) (fun l' acc' => Edits J l' acc acc' ∧ ∀ r ∈ update.reauths, Spends r acc acc')
      (verifyPasswordSetReauth env acc update.value) l := by
  unfold verifyPasswordSetReauth
  split
  · rename_i pw v newEmail hval
    have hreauths : update.reauths = [(.passwordSet, v)] := by
      unfold AccountUpdate.reauths
      rw [hpath, hval]
    rw [hreauths] at hR ⊢
    refine does_ensure_bind fun _ => does_mono (verifyOnAccount_does acc _ ?_) ?_
    · rintro _ ⟨⟩
      exact hR _ (by simp)
    · rintro l' acc' - ⟨hedit, hspend⟩
      refine ⟨hedit, fun r hr => ?_⟩
      obtain rfl := List.mem_singleton.1 hr
      exact (hspend v rfl).1
  · exact does_throw

theorem reauths_scalar {update : AccountUpdate} {text : String} {truth : Bool}
    (h : update.value = .scalar text truth) :
    update.reauths = [] := by
  unfold AccountUpdate.reauths
  rw [h]
  split <;> simp_all

theorem passwordLoop_does (hasPassword : Bool) (updates : List AccountUpdate) (acc : Account)
    (verified : Bool) (hpath : ∀ u ∈ updates, u.path = .password)
    (hR : ∀ u ∈ updates, ∀ r ∈ u.reauths, r ∈ J.reauths) :
    Does (Allowed J) (fun l' acc' => Edits J l' acc acc' ∧
      ∀ u ∈ updates, ∀ r ∈ u.reauths, Spends r acc acc')
      (passwordLoop env hasPassword updates acc verified) l := by
  induction updates generalizing acc verified l with
  | nil => exact does_pure ⟨.refl, nofun⟩
  | cons update updates ih =>
    have hih : ∀ acc verified l, Does (Allowed J)
        (fun l' acc' => Edits J l' acc acc' ∧ ∀ u ∈ updates, ∀ r ∈ u.reauths, Spends r acc acc')
        (passwordLoop env hasPassword updates acc verified) l := fun acc verified l =>
      ih acc verified (fun u hu => hpath u (by simp [hu])) fun u hu => hR u (by simp [hu])
    -- an update whose value is a scalar presents no reauthentication
    have hscalar :
      ∀ {acc₀ acc₁ : Account} {verified : Bool} {l : List Act} {text : String} {truth : Bool},
        update.value = .scalar text truth → Edits J l acc₀ acc₁ → Does (Allowed J)
        (fun l' acc' => Edits J l' acc₀ acc' ∧ ∀ u ∈ update :: updates, ∀ r ∈ u.reauths,
          Spends r acc₀ acc')
        (passwordLoop env hasPassword updates acc₁ verified) l := by
      intro acc₀ acc₁ verified l text truth hval hedit
      refine does_mono (hih acc₁ verified l) ?_
      rintro l' acc' hl ⟨hedit', hs⟩
      refine ⟨(edits_mono hl hedit).trans hedit', fun u hu r hr => ?_⟩
      rcases List.mem_cons.1 hu with rfl | hu
      · rw [reauths_scalar hval] at hr; cases hr
      · exact (hs u hu r hr).before hedit
    unfold passwordLoop
    split
    · split
      · refine does_bind (toStringE_does _) ?_
        rintro l' pw - ⟨rfl, text, truth, hval⟩
        exact does_ensure_bind fun _ => hscalar hval .refl
      · refine does_bind (verifyPasswordSetReauth_does acc update (hpath _ (by simp))
          (hR _ (by simp))) ?_
        rintro l' acc₁ - ⟨hedit, hspend⟩
        refine does_mono (hih acc₁ true l') ?_
        rintro l'' acc' hl ⟨hedit', hs⟩
        refine ⟨(edits_mono hl hedit).trans hedit', fun u hu r hr => ?_⟩
        rcases List.mem_cons.1 hu with rfl | hu
        · exact (hspend r hr).after hedit'
        · exact (hs u hu r hr).before hedit
    · refine does_ensure_bind fun _ => does_bind (toStringE_does _) ?_
      rintro l' pw - ⟨rfl, text, truth, hval⟩
      refine does_ensure_bind fun _ => does_bind (setPassword_does acc pw) ?_
      rintro l' acc₁ - ⟨hash, rfl⟩
      exact hscalar hval (.single (.password acc hash))
    · exact does_throw

theorem handlePasswordUpdate_does (acc : Account) (updates : List AccountUpdate) (mfa : MfaData)
    (hpath : ∀ u ∈ updates, u.path = .password)
    (hR : ∀ u ∈ updates, ∀ r ∈ u.reauths, r ∈ J.reauths) :
    Does (Allowed J) (fun l' acc' => Edits J l' acc acc' ∧
      ∀ u ∈ updates, ∀ r ∈ u.reauths, Spends r acc acc')
      (handlePasswordUpdate env acc updates mfa) l := by
  unfold handlePasswordUpdate
  split
  · exact does_bind (mfaCheck_does _ _) fun _ _ _ _ => passwordLoop_does _ _ _ _ hpath hR
  · exact passwordLoop_does _ _ _ _ hpath hR

theorem applyUpdates_does (mfa : MfaData) (updates : List AccountUpdate) (acc : Account)
    (hR : ∀ u ∈ updates, ∀ r ∈ u.reauths, r ∈ J.reauths) :
    Does (Allowed J) (fun l' acc' => Edits J l' acc acc' ∧
      ∀ u ∈ updates, u.path ≠ .password → ∀ r ∈ u.reauths, Spends r acc acc')
      (applyUpdates env mfa updates acc) l := by
  induction updates generalizing acc l with
  | nil => exact does_pure ⟨.refl, nofun⟩
  | cons update updates ih =>
    have hih : ∀ acc l, Does (Allowed J) (fun l' acc' => Edits J l' acc acc' ∧
        ∀ u ∈ updates, u.path ≠ .password → ∀ r ∈ u.reauths, Spends r acc acc')
          (applyUpdates env mfa updates acc) l :=
      fun acc l => ih acc fun u hu => hR u (by simp [hu])
    -- an update that is neither of the address nor of the password presents no reauthentication
    have hnone : update.path ≠ .email → update.path ≠ .password → update.reauths = [] := by
      intro h1 h2
      unfold AccountUpdate.reauths
      split <;> simp_all
    unfold applyUpdates
    split
    · rename_i hpath
      refine does_bind (handleEmailUpdate_does acc update mfa hpath (hR _ (by simp))) ?_
      rintro l' acc₁ - ⟨hedit, hspend⟩
      refine does_mono (hih acc₁ l') ?_
      rintro l'' acc' hl ⟨hedit', hs⟩
      refine ⟨(edits_mono hl hedit).trans hedit', fun u hu hpw r hr => ?_⟩
      rcases List.mem_cons.1 hu with rfl | hu
      · exact (hspend r hr).after hedit'
      · exact (hs u hu hpw r hr).before hedit
    · rename_i hpath
      refine does_mono (hih _ l) ?_
      rintro l' acc' - ⟨hedit, hs⟩
      have hconsent : Edits J l' acc { acc with errorReportsConsent := toBool update.value } :=
        .single (.consent acc _)
      refine ⟨hconsent.trans hedit, fun u hu hpw r hr => ?_⟩
      rcases List.mem_cons.1 hu with rfl | hu
      · rw [hnone (by simp [hpath]) hpw] at hr; cases hr
      · exact (hs u hu hpw r hr).before hconsent
    · rename_i hne _
      refine does_mono (hih acc l) ?_
      rintro l' acc' - ⟨hedit, hs⟩
      refine ⟨hedit, fun u hu hpw r hr => ?_⟩
      rcases List.mem_cons.1 hu with rfl | hu
      · rw [hnone hne hpw] at hr; cases hr
      · exact hs u hu hpw r hr

theorem applyPasswordUpdates_does (acc : Account) (updates : List AccountUpdate) (mfa : MfaData)
    (hpath : ∀ u ∈ updates, u.path = .password)
    (hR : ∀ u ∈ updates, ∀ r ∈ u.reauths, r ∈ J.reauths) :
    Does (Allowed J) (fun l' acc' => Edits J l' acc acc' ∧
      ∀ u ∈ updates, ∀ r ∈ u.reauths, Spends r acc acc')
      (applyPasswordUpdates env acc updates mfa) l := by
  unfold applyPasswordUpdates
  split
  · rename_i hnil
    subst hnil
    exact does_pure ⟨.refl, nofun⟩
  · exact handlePasswordUpdate_does acc updates mfa hpath hR

theorem updateLoaded_does (id : ObjectID) (updates : List AccountUpdate) (mfa : MfaData)
    (hR : ∀ u ∈ updates, ∀ r ∈ u.reauths, r ∈ J.reauths) :
    Does (Allowed J) (fun l' _ => ∀ u ∈ updates, ∀ r ∈ u.reauths, Used l' r)
    (updateLoaded env id updates mfa) l := by
  refine does_act_bind trivial fun loaded => does_bind (applyUpdates_does mfa updates loaded hR) ?_
  rintro l₁ acc hl₁ ⟨hedit, hspend⟩
  have hpath : ∀ u ∈ updates.filter (·.path = .password), u.path = .password := by
    intro u hu
    simpa using (List.mem_filter.1 hu).2
  refine does_bind (applyPasswordUpdates_does acc _ mfa hpath fun u hu => hR u
    (List.mem_filter.1 hu).1) ?_
  rintro l₂ acc' hl₂ ⟨hedit', hspend'⟩
  have hseen : Seen l₂ loaded := seen_byId.mono (hl₁.trans hl₂)
  have hall : Edits J l₂ loaded acc' := (edits_mono hl₂ hedit).trans hedit'
  refine call_does (.updateAccount loaded acc') ?_ ?_
  · exact ⟨hseen, .edits hall⟩
  intro _ u hu r hr
  refine used_last (AccountUpdate.reauths_purpose hr) ?_
  by_cases hpw : u.path = .password
  · exact (hspend' u (List.mem_filter.2 ⟨hu, by simpa using hpw⟩) r hr).before hedit
  · exact (hspend u hu hpw r hr).after hedit'

theorem updateAccount_does (id : ObjectID) (updates : List AccountUpdate) (mfa : MfaData)
    (hR : ∀ u ∈ updates, ∀ r ∈ u.reauths, r ∈ J.reauths) :
    Does (Allowed J) (fun l' _ => ∀ u ∈ updates, ∀ r ∈ u.reauths, Used l' r)
    (updateAccount env id updates mfa) l := by
  -- a profile update presents no reauthentication
  have hother : ∀ u ∈ updates, ∀ r ∈ u.reauths, u ∈ updates.filter (·.path ≠ .profiles) := by
    intro u hu r hr
    refine List.mem_filter.2 ⟨hu, ?_⟩
    unfold AccountUpdate.reauths at hr
    split at hr <;> simp_all
  refine does_bind (handleProfileUpdates_does _ _) fun l' _ _ _ => ?_
  split
  · rename_i hnil
    refine does_pure fun u hu r hr => ?_
    have hmem := hother u hu r hr
    rw [hnil] at hmem
    cases hmem
  · refine does_mono (updateLoaded_does id _ mfa fun u hu => hR u (List.mem_filter.1 hu).1) ?_
    intro l'' _ _ h u hu r hr
    exact h u (hother u hu r hr) r hr

end Updates

end ModDNS.Accounts
