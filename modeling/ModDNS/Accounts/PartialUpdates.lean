import ModDNS.Accounts.AppliedUpdates
import ModDNS.Accounts.LostUpdates
import ModDNS.Conc.Triple

/-!
# Account updates that fail halfway

* `verifyTotp_keeps`: the check of a code writes the account at most once, with the backup code
  used.
* `others_or_none`: the updates of other paths come into effect together, or not at all.
* `all_or_nothing_iff`: with those of the profiles, exactly if no profile has changed while
  something is left that may fail.
-/

namespace ModDNS.Accounts

open Conc Data

/-- The profiles after the update, if it is well formed. -/
def AccountUpdate.profilesAfter (u : AccountUpdate) (profiles : List String) :
    Option (List String) :=
  match u.value, u.operation with
  | .scalar text _, .add => some (profiles.insert text)
  | .scalar text _, .remove => some (profiles.filter (· ≠ text))
  | _, _ => none

/-- One of the updates of the profiles changes them, and another one comes after it, or other
updates do. -/
def changesBefore (others : Bool) : List AccountUpdate → List String → Bool
  | [], _ => false
  | u :: updates, profiles =>
    match u.profilesAfter profiles with
    | none => false
    | some after =>
      if after = profiles then changesBefore others updates profiles else !updates.isEmpty || others

def changesEarly (updates : List AccountUpdate) (profiles : List String) : Bool :=
  changesBefore (updates.any (·.path ≠ .profiles)) (updates.filter (·.path = .profiles)) profiles

section Statement

variable (env : Env) (mfa : MfaData) (acc : Account)

/-- The account is stored as it was, but that the backup code may have been used. -/
def AsBefore (doc : Option Account) : Prop :=
  doc = some acc ∨ ∃ totp, verifyTotpBackup acc.mfa.totp mfa.otp = .ok totp ∧
    doc = some { acc with mfa := ⟨totp⟩ }

/-- An error leaves the account as it was. Without one, the stored account is what the updates make
of it in their order, and the password is another one only after a test. -/
def AllOrNothing (updates : List AccountUpdate) (l : List Act) (r : Except AccountErr Unit)
    (doc : Option Account) : Prop :=
  match r with
  | .error _ => AsBefore mfa acc doc
  | .ok () => ∃ acc' tested, doc = some acc' ∧
      Steps (UpdateStep env l acc.password.isSome) (acc, false) updates (acc', tested) ∧
      (acc'.password ≠ acc.password → ReplacedAfterTest env l acc.password.isSome acc updates)

end Statement

section Reads

variable {env : Env} {o : AccountOp} {ch : Choice} {s s' : State} {r : Except AccountErr o.Ans}
  {id : ObjectID}

theorem handler_get (h : accountHandler env () o ch s = some (r, s')) (id : ObjectID) :
    s'.accounts.get id = docAfter id o r (s.accounts.get id) := by
  unfold accountHandler at h
  split at h
  · cases h
    rw [docAfter_error]
  · exact act_get h id

/-- The call leaves the accounts as they are. -/
abbrev AccountOp.Reads (o : AccountOp) : Prop := o.stores = false

theorem docAfter_reads {d : Option Account} (ho : o.Reads) : docAfter id o r d = d := by
  cases o <;> first | rfl | cases ho

theorem handler_loads {d : Account} (h : accountHandler env () (.getAccountById id) ch s = some
    (.ok d, s')) :
    s.accounts.get id = some d := by
  unfold accountHandler at h
  split at h
  · cases h
  · cases hget : s.accounts.get id with
    | none =>
      simp only [accountAct, hget] at h
      cases h
    | some d' =>
      simp only [accountAct, hget] at h
      cases h
      rfl

end Reads

section Keeps

variable {env : Env} {mfa : MfaData} {acc acc' : Account} {updates : List AccountUpdate}
  {update : AccountUpdate}

/-- `AsBefore`, of the account that is stored. -/
abbrev StoredAsBefore (mfa : MfaData) (acc : Account) (s : State) : Prop :=
  AsBefore mfa acc (s.accounts.get acc.id)

theorem reads_keeps {α : Type} {I : Option Account → Prop} {id : ObjectID} {p : AccountFlow α}
    (hp : Within AccountOp.Reads p) :
    Keeps (accountHandler env) () (fun s => I (s.accounts.get id)) p := by
  refine keeps_within hp fun o c s r s' ho hI hc => ?_
  rw [handler_get hc id, docAfter_reads ho]
  exact hI

/-- A code is used once: with the backup code used, it is refused. -/
theorem used_refused {totp totp' : TotpSettings} {otp : String}
    (h : verifyTotpBackup totp otp = .ok totp') :
    verifyTotpBackup totp' otp = .error .totpBackupAlreadyUsed := by
  obtain ⟨-, -, rfl⟩ := verifyTotpBackup_ok h
  simp [verifyTotpBackup]

theorem set_mfa (mfa : MFASettings) :
    acc.set { acc with mfa := mfa } = { acc with mfa := mfa } := by
  simp [Account.set]

theorem verifyTotp_keeps (action : TotpAction) :
    Keeps (accountHandler env) () (StoredAsBefore mfa acc)
      (verifyTotp env acc.id mfa.otp action) := by
  unfold verifyTotp
  refine triple_bind (R := fun r s => StoredAsBefore mfa acc s ∧ ∀ d, r = .ok d →
    s.accounts.get acc.id = some d) ?_
    (fun _ _ h => h.1) fun d => ?_
  · refine triple_act fun s c r s' hI hc => ?_
    have hget : s'.accounts.get acc.id = s.accounts.get acc.id := handler_get hc acc.id
    refine ⟨by rwa [StoredAsBefore, hget], ?_⟩
    rintro d rfl
    rw [hget]
    exact handler_loads hc
  -- from here on, `d` is what is stored
  refine triple_conseq (P := fun s => StoredAsBefore mfa acc s ∧ s.accounts.get acc.id = some d)
    (Q := fun _ s => StoredAsBefore mfa acc s) ?_ (fun s h => ⟨h.1, h.2 d rfl⟩) fun _ _ h => h
  refine triple_ensure_bind (fun _ h => h.1) fun _ => ?_
  refine triple_bind (R := fun _ s => StoredAsBefore mfa acc s ∧ s.accounts.get acc.id = some d) ?_
    (fun _ _ h => h.1) fun now => ?_
  · exact reads_keeps (I := fun doc => AsBefore mfa acc doc ∧ doc = some d) (within_act rfl)
  split
  · exact triple_pure fun _ h => h.1
  · split
    · rename_i totp hcode
      refine triple_bind (R := fun _ s => StoredAsBefore mfa acc s) ?_ (fun _ _ h => h) fun _ =>
        triple_pure fun _ h => h
      refine triple_act fun s c r s' hI hc => ?_
      obtain ⟨hbefore, hd⟩ : AsBefore mfa acc (s.accounts.get acc.id) ∧
          s.accounts.get acc.id = some d := hI
      have hid : acc.id = d.id := (Collection.get_id hd).symm
      have hget := handler_get hc acc.id
      cases r with
      | error e =>
        rw [StoredAsBefore, hget]
        exact hbefore
      | ok a =>
        rw [hd] at hbefore hget
        simp only [docAfter, if_pos hid, Option.map_some, set_mfa] at hget
        rw [StoredAsBefore, hget]
        obtain hacc | ⟨totp', hcode', hacc⟩ := hbefore
        · cases hacc
          exact .inr ⟨totp, hcode, rfl⟩
        · cases hacc
          rw [used_refused hcode'] at hcode
          cases hcode
    · refine triple_conseq (P := fun s => StoredAsBefore mfa acc s)
        (Q := fun _ s => StoredAsBefore mfa acc s) ?_
        (fun s h => h.1) fun _ _ h => h
      refine reads_keeps
        (within_bind (within_bind (within_act rfl) fun _ => within_pure) fun _ => ?_)
      refine within_bind ?_ fun allowed => within_ite within_throw within_throw
      refine within_bind (within_attempt (within_act rfl)) fun r => ?_
      split <;> exact within_pure

theorem mfaCheck_keeps (hid : acc'.id = acc.id) :
    Keeps (accountHandler env) () (StoredAsBefore mfa acc) (mfaCheck env acc' mfa) := by
  unfold mfaCheck
  rw [hid]
  refine keeps_ite ?_ keeps_pure
  exact keeps_bind keeps_ensure fun _ => keeps_bind (verifyTotp_keeps _) fun _ => keeps_pure

theorem reads_keepTokens (p : Purpose) (v : String) (tokens : List Token) :
    Within AccountOp.Reads (keepTokens p v tokens) :=
  within_mono (by rintro _ rfl; rfl) (within_keepTokens p v tokens)

theorem verifyOnAccount_keeps {p : Params} (hid : acc'.id = acc.id) (hmfa : p.mfa = mfa) :
    Keeps (accountHandler env) () (StoredAsBefore mfa acc) (verifyOnAccount env acc' p) := by
  subst hmfa
  refine keeps_bind (keeps_bind keeps_ensure fun _ => keeps_ensure) fun _ => ?_
  unfold verifyOnLoadedAccount
  split
  · exact keeps_bind (mfaCheck_keeps hid) fun _ => keeps_bind keeps_ensure fun _ => keeps_pure
  · refine keeps_bind (reads_keeps (reads_keepTokens ..)) fun _ => ?_
    exact keeps_bind keeps_ensure fun _ => keeps_pure

theorem handleEmailUpdate_keeps (hid : acc'.id = acc.id) :
    Keeps (accountHandler env) () (StoredAsBefore mfa acc)
      (handleEmailUpdate env acc' update mfa) := by
  unfold handleEmailUpdate
  split
  · refine keeps_bind keeps_ensure fun _ => keeps_bind (verifyOnAccount_keeps hid rfl) fun _ => ?_
    refine keeps_bind keeps_ensure fun _ => keeps_bind keeps_ensure fun _ => ?_
    refine keeps_bind (reads_keeps (within_attempt (within_act rfl))) fun r => ?_
    split
    · split <;> exact keeps_throw
    · exact keeps_pure
    · exact keeps_throw
  · exact keeps_throw

theorem reads_passwordLoop (hasPassword verified : Bool) :
    Within AccountOp.Reads (passwordLoop env hasPassword updates acc verified) := by
  induction updates generalizing acc verified with
  | nil => exact within_pure
  | cons update updates ih =>
    have hstring : ∀ v, Within AccountOp.Reads (toStringE v) := by
      intro v
      cases v <;> first | exact within_pure | exact within_throw
    unfold passwordLoop
    split
    · split
      · exact within_bind (hstring _) fun _ => within_bind within_ensure fun _ => ih _
      · refine within_bind ?_ fun _ => ih _
        unfold verifyPasswordSetReauth
        split
        · refine within_bind within_ensure fun _ => ?_
          refine within_bind (within_bind within_ensure fun _ => within_ensure) fun _ => ?_
          exact within_bind (reads_keepTokens ..) fun _ =>
            within_bind within_ensure fun _ => within_pure
        · exact within_throw
    · refine within_bind within_ensure fun _ => within_bind (hstring _) fun _ =>
        within_bind within_ensure fun _ => ?_
      refine within_bind ?_ fun _ => ih _
      exact within_bind within_ensure fun _ => within_bind (within_act rfl) fun _ => within_pure
    · exact within_throw

theorem applyPasswordUpdates_keeps (hid : acc'.id = acc.id) :
    Keeps (accountHandler env) () (StoredAsBefore mfa acc)
      (applyPasswordUpdates env acc' updates mfa) := by
  unfold applyPasswordUpdates handlePasswordUpdate
  refine keeps_ite keeps_pure (keeps_ite ?_ (reads_keeps (reads_passwordLoop ..)))
  exact keeps_bind (mfaCheck_keeps hid) fun _ => reads_keeps (reads_passwordLoop ..)

end Keeps

section Written

variable {env : Env} {mfa : MfaData} {acc acc' : Account} {updates : List AccountUpdate}
  {l : List Act} {hadPassword : Bool} {a b : Account × Bool} {s s' : State}
  {r : Except AccountErr Unit} {id : ObjectID}

/-- The fields of `set` that a written account does not decide alone. -/
def Account.SameKey (acc acc' : Account) : Prop :=
  acc'.id = acc.id ∧ acc'.deletionCode = acc.deletionCode ∧
    acc'.deletionCodeExpires = acc.deletionCodeExpires ∧
    (acc.password.isSome → acc'.password.isSome)

theorem updateStep_sameKey {u : AccountUpdate} (h : UpdateStep env l hadPassword a u b) :
    a.1.SameKey b.1 := by
  cases h with
  | email acc tested operation currentPassword token newEmail =>
    cases token <;> exact ⟨rfl, rfl, rfl, fun h => h⟩
  | replacePassword => exact ⟨rfl, rfl, rfl, fun _ => rfl⟩
  | _ => exact ⟨rfl, rfl, rfl, fun h => h⟩

theorem steps_sameKey (h : Steps (UpdateStep env l hadPassword) a updates b) : a.1.SameKey b.1 := by
  induction h with
  | nil a => exact ⟨rfl, rfl, rfl, fun h => h⟩
  | cons hstep _ ih =>
    obtain ⟨hid, hcode, hexpires, hpassword⟩ := updateStep_sameKey hstep
    obtain ⟨hid', hcode', hexpires', hpassword'⟩ := ih
    exact ⟨hid'.trans hid, hcode'.trans hcode, hexpires'.trans hexpires,
      fun h => hpassword' (hpassword h)⟩

/-- What is written is what is stored. -/
theorem set_sameKey (h : acc.SameKey acc') : acc.set acc' = acc' := by
  obtain ⟨hid, hcode, hexpires, hpassword⟩ := h
  obtain ⟨id', email', verified', tokens', password', profiles', consent', mfa', code', expires'⟩ :=
    acc'
  dsimp only at hid hcode hexpires hpassword
  subst hid hcode hexpires
  cases password' with
  | some hash => simp [Account.set]
  | none =>
    have hnone : acc.password = none := by
      cases hacc : acc.password with
      | none => rfl
      | some hash => exact absurd (hpassword (by rw [hacc]; rfl)) Bool.false_ne_true
    simp [Account.set, hnone]

theorem applyUpdates_keeps (hpath : ∀ u ∈ updates, u.path ≠ .profiles) (hid : acc'.id = acc.id) :
    Keeps (accountHandler env) () (StoredAsBefore mfa acc) (applyUpdates env mfa updates acc') := by
  induction updates generalizing acc' with
  | nil => exact keeps_pure
  | cons update updates ih =>
    obtain ⟨-, hpaths⟩ := List.forall_mem_cons.1 hpath
    unfold applyUpdates
    split
    · rename_i hemail
      refine keeps_bind_ends (handleEmailUpdate_keeps hid) fun l acc₁ hends => ih hpaths ?_
      have hstep : UpdateStep env l true (acc', false) update (acc₁, false) :=
        ends_handleEmailUpdate hemail hends
      rw [(updateStep_sameKey hstep).1, hid]
    · exact ih hpaths hid
    · exact ih hpaths hid

/-- **The updates of other paths**: the account is written once, with all of them. -/
theorem others_or_none (hdoc : s.accounts.get id = some acc)
    (hpath : ∀ u ∈ updates, u.path ≠ .profiles)
    (h : Exec (accountHandler env) () (updateLoaded env id updates mfa).run s l r s') :
    (∀ e, r = .error e → AsBefore mfa acc (s'.accounts.get id)) ∧
      (r = .ok () → ∃ acc' tested, s'.accounts.get id = some acc' ∧
        Steps (UpdateStep env l acc.password.isSome) (acc, false)
        (updates.filter (·.path ≠ .password) ++ updates.filter (·.path = .password))
        (acc', tested)) := by
  obtain rfl : acc.id = id := Collection.get_id hdoc
  obtain ⟨e, hload, rfl⟩ | ⟨l₁, l', d, s₁, rfl, hload, h⟩ := exec_flow_bind.1 h
  · exact ⟨fun _ _ => reads_keeps (within_act rfl) s l _ s' (.inl hdoc) hload, nofun⟩
  -- nothing is written before the last call
  have hbefore : StoredAsBefore mfa acc s₁ :=
    reads_keeps (within_act rfl) s l₁ _ s₁ (.inl hdoc) hload
  have hd : d = acc := by
    obtain ⟨⟨c, hc⟩, -⟩ := exec_act.1 hload
    exact Option.some.inj ((handler_loads hc).symm.trans hdoc)
  rw [hd] at h
  obtain ⟨e, happly, rfl⟩ | ⟨l₂, l'', acc₁, s₂, rfl, happly, h⟩ := exec_flow_bind.1 h
  · exact ⟨fun _ _ => applyUpdates_keeps hpath rfl s₁ l' _ s' hbefore happly, nofun⟩
  have hbefore₂ : StoredAsBefore mfa acc s₂ :=
    applyUpdates_keeps hpath rfl s₁ l₂ _ s₂ hbefore happly
  have hothers : Steps (UpdateStep env l₂ acc.password.isSome) (acc, false)
    (updates.filter (·.path ≠ .password)) (acc₁, false) :=
    ends_applyUpdates hpath (exec_path happly)
  obtain ⟨e, hpasswords, rfl⟩ | ⟨l₃, l₄, acc₂, s₃, rfl, hpasswords, h⟩ := exec_flow_bind.1 h
  · exact ⟨fun _ _ => applyPasswordUpdates_keeps
      (steps_sameKey hothers).1 s₂ l'' _ s' hbefore₂ hpasswords, nofun⟩
  have hbefore₃ : StoredAsBefore mfa acc s₃ :=
    applyPasswordUpdates_keeps (steps_sameKey hothers).1 s₂ l₃ _ s₃ hbefore₂ hpasswords
  have hhad : acc.password.isSome = acc₁.password.isSome := by
    rw [steps_password (by simp) hothers]
  obtain ⟨tested, htests⟩ := ends_applyPasswordUpdates (by simp) hhad (exec_path hpasswords)
  -- the copy is written after the updates of other paths and then those of the password
  have hsteps : Steps (UpdateStep env (l₁ ++ (l₂ ++ (l₃ ++ l₄))) acc.password.isSome) (acc, false)
      (updates.filter (·.path ≠ .password) ++ updates.filter (·.path = .password))
      (acc₂, tested) := by
    refine steps_append.2 ⟨_, steps_mono (fun _ _ _ => updateStep_mono ?_) hothers,
      steps_mono (fun _ _ _ => updateStep_mono ?_) htests⟩
    · exact fun x hx => by simp [hx]
    · exact fun x hx => by simp [hx]
  obtain ⟨⟨c, hc⟩, -⟩ := exec_act.1 h
  -- the one write: the stored document gets the whole copy, or stays
  have hget := handler_get hc acc.id
  have hkey : acc.SameKey acc₂ := steps_sameKey hsteps
  constructor
  · rintro e rfl
    rw [docAfter_error] at hget
    rwa [hget]
  · rintro rfl
    refine ⟨acc₂, tested, ?_, hsteps⟩
    have hset : s'.accounts.get acc.id = (s₃.accounts.get acc.id).map fun stored =>
      stored.set acc₂ :=
      hget.trans (if_pos hkey.1.symm)
    rw [hset]
    obtain hacc | ⟨totp, -, hacc⟩ := hbefore₃
    · rw [hacc, Option.map_some, set_sameKey hkey]
    · rw [hacc, Option.map_some]
      exact congrArg some (set_sameKey hkey)

end Written

section Profiles

variable {env : Env} {mfa : MfaData} {acc : Account} {updates : List AccountUpdate}
  {u : AccountUpdate} {l : List Act} {hadPassword tested others : Bool} {profiles : List String}
  {s s' : State} {r : Except AccountErr Unit} {id : ObjectID}

theorem profilesAfter_step (hpath : u.path = .profiles)
    (h : u.profilesAfter acc.profiles = some profiles) :
    UpdateStep env l hadPassword (acc, tested) u ({ acc with profiles := profiles }, tested) := by
  obtain ⟨operation, path, value⟩ := u
  obtain rfl : path = .profiles := hpath
  cases value with
  | scalar text truth =>
    cases operation with
    | add =>
      cases h
      exact .addProfile ..
    | remove =>
      cases h
      exact .removeProfile ..
    | _ => cases h
  | _ => cases operation <;> cases h

/-- An update of the profiles is one call, or a failure. -/
theorem profileUpdate_cases (id : ObjectID) (u : AccountUpdate) :
    (∃ e, handleProfilesUpdateAtomic id u = throw e ∧ ∀ profiles, u.profilesAfter profiles = none) ∨
      (∃ p, handleProfilesUpdateAtomic id u = call (.addProfileToAccount id p) ∧
        ∀ profiles, u.profilesAfter profiles = some (profiles.insert p)) ∨
      ∃ p, handleProfilesUpdateAtomic id u = call (.removeProfileFromAccount id p) ∧
        ∀ profiles, u.profilesAfter profiles = some (profiles.filter (· ≠ p)) := by
  obtain ⟨operation, path, value⟩ := u
  cases value with
  | scalar text truth =>
    cases operation with
    | add => exact .inr (.inl ⟨text, rfl, fun _ => rfl⟩)
    | remove => exact .inr (.inr ⟨text, rfl, fun _ => rfl⟩)
    | _ => exact .inl ⟨_, rfl, fun _ => rfl⟩
  | _ => exact .inl ⟨_, rfl, fun _ => by cases operation <;> rfl⟩

theorem exec_profileUpdate (hdoc : s.accounts.get id = some acc)
    (h : Exec (accountHandler env) () (handleProfilesUpdateAtomic id u).run s l r s') :
    (∀ e, r = .error e → s'.accounts.get id = some acc) ∧
      (r = .ok () → ∃ profiles, u.profilesAfter acc.profiles = some profiles ∧
        s'.accounts.get id = some { acc with profiles := profiles }) := by
  obtain ⟨e, hflow, -⟩ | ⟨p, hflow, hafter⟩ | ⟨p, hflow, hafter⟩ := profileUpdate_cases id u
  · rw [hflow] at h
    obtain ⟨-, rfl, rfl⟩ := h
    exact ⟨fun _ _ => hdoc, nofun⟩
  · rw [hflow] at h
    obtain ⟨⟨c, hc⟩, -⟩ := exec_act.1 h
    have hget := handler_get hc id
    rw [hdoc] at hget
    refine ⟨?_, ?_⟩
    · rintro e rfl
      exact hget
    · rintro rfl
      exact ⟨_, hafter _, hget.trans (if_pos rfl)⟩
  · rw [hflow] at h
    obtain ⟨⟨c, hc⟩, -⟩ := exec_act.1 h
    have hget := handler_get hc id
    rw [hdoc] at hget
    refine ⟨?_, ?_⟩
    · rintro e rfl
      exact hget
    · rintro rfl
      exact ⟨_, hafter _, hget.trans (if_pos rfl)⟩

/-- **The updates of the profiles**, where none of them changes the account too early. -/
theorem profiles_or_none (hadPassword : Bool) (hdoc : s.accounts.get id = some acc)
    (hpath : ∀ u ∈ updates, u.path = .profiles)
    (hearly : changesBefore others updates acc.profiles = false)
    (h : Exec (accountHandler env) () (handleProfileUpdates id updates).run s l r s') :
    (∀ e, r = .error e → s'.accounts.get id = some acc) ∧
      (r = .ok () → ∃ profiles, s'.accounts.get id = some { acc with profiles := profiles } ∧
        (others = true → profiles = acc.profiles) ∧
        Steps (UpdateStep env l hadPassword) (acc, false) updates
        ({ acc with profiles := profiles }, false)) := by
  induction updates generalizing s l with
  | nil =>
    obtain ⟨rfl, rfl, rfl⟩ := h
    exact ⟨nofun, fun _ => ⟨acc.profiles, hdoc, fun _ => rfl, .nil _⟩⟩
  | cons u updates ih =>
    obtain ⟨hu, hpaths⟩ := List.forall_mem_cons.1 hpath
    obtain ⟨e, hupdate, rfl⟩ | ⟨l₁, l₂, ⟨⟩, s₁, rfl, hupdate, h⟩ := exec_flow_bind.1 h
    · exact ⟨fun _ _ => (exec_profileUpdate hdoc hupdate).1 e rfl, nofun⟩
    obtain ⟨profiles, hprofiles, hdoc₁⟩ := (exec_profileUpdate hdoc hupdate).2 rfl
    have hstep : UpdateStep env (l₁ ++ l₂) hadPassword (acc, false) u
      ({ acc with profiles := profiles }, false) :=
      profilesAfter_step hu hprofiles
    unfold changesBefore at hearly
    rw [hprofiles] at hearly
    dsimp only at hearly
    split at hearly
    · rename_i hsame
      subst hsame
      obtain ⟨herr, hok⟩ := ih hdoc₁ hpaths hearly h
      refine ⟨herr, fun hr => ?_⟩
      obtain ⟨profiles', hdoc', hkept, hsteps⟩ := hok hr
      exact ⟨profiles', hdoc', hkept,
        .cons hstep
          (steps_mono (fun _ _ _ => updateStep_mono (List.subset_append_right ..)) hsteps)⟩
    · -- nothing is left to do
      obtain ⟨hnil, hothers⟩ : updates = [] ∧ others = false := by simpa using hearly
      subst hnil hothers
      obtain ⟨rfl, rfl, rfl⟩ := h
      exact ⟨nofun, fun _ => ⟨profiles, hdoc₁, nofun, .cons hstep (.nil _)⟩⟩

theorem all_or_nothing (hdoc : s.accounts.get id = some acc)
    (hearly : changesEarly updates acc.profiles = false)
    (h : Exec (accountHandler env) () (updateAccount env id updates mfa).run s l r s') :
    AllOrNothing env mfa acc updates l r (s'.accounts.get id) := by
  have happlied : ∀ (acc' : Account) (tested : Bool), s'.accounts.get id = some acc' →
      Steps (UpdateStep env l acc.password.isSome) (acc, false)
        (updates.filter (·.path = .profiles) ++
        ((updates.filter (·.path ≠ .profiles)).filter (·.path ≠ .password) ++
          (updates.filter (·.path ≠ .profiles)).filter (·.path = .password))) (acc', tested) →
      AllOrNothing env mfa acc updates l (.ok ()) (s'.accounts.get id) := by
    intro acc' tested hdoc' hsteps
    exact ⟨acc', tested, hdoc', updates_regroup hsteps,
      fun hne => steps_replaced (updates_regroup hsteps) hne⟩
  obtain ⟨e, hprofiles, rfl⟩ | ⟨l₁, l₂, ⟨⟩, s₁, rfl, hprofiles, hrest⟩ := exec_flow_bind.1 h
  · obtain ⟨herr, -⟩ := profiles_or_none acc.password.isSome hdoc (by simp) hearly hprofiles
    exact .inl (herr e rfl)
  obtain ⟨profiles, hdoc₁, hkept, hsteps⟩ :=
    (profiles_or_none acc.password.isSome hdoc (by simp) hearly hprofiles).2 rfl
  split at hrest
  · rename_i hnone
    obtain ⟨rfl, rfl, rfl⟩ := hrest
    refine happlied _ false hdoc₁ ?_
    rw [hnone]
    simpa using hsteps
  · rename_i hsome
    have hany : updates.any (·.path ≠ .profiles) = true := by
      obtain ⟨u, hu⟩ := List.exists_mem_of_ne_nil _ hsome
      exact List.any_eq_true.2 ⟨u, (List.mem_filter.1 hu).1, (List.mem_filter.1 hu).2⟩
    obtain rfl := hkept hany
    obtain ⟨herr, hok⟩ := others_or_none hdoc₁ (by simp) hrest
    cases r with
    | error e => exact herr e rfl
    | ok a =>
      obtain ⟨acc', tested, hdoc', hsteps'⟩ := hok rfl
      refine happlied acc' tested hdoc'
        (steps_append.2 ⟨_, steps_mono (fun _ _ _ => updateStep_mono ?_) hsteps,
        steps_mono (fun _ _ _ => updateStep_mono ?_) hsteps'⟩)
      · exact List.subset_append_left ..
      · exact List.subset_append_right ..

end Profiles

section Failures

variable (env : Env) {acc : Account} {updates : List AccountUpdate} {u : AccountUpdate}
  {others : Bool} {profiles : List String} {s : State} {id : ObjectID}

/-- Any call to the store may fail. -/
theorem call_fails (id : ObjectID) (s : State) {o : AccountOp} (ho : o.canFail = true) :
    ∃ s', Exec (accountHandler env) () (call o).run s [⟨o, .error .store⟩] (.error .store) s' ∧
      s'.accounts.get id = s.accounts.get id := by
  have hc : accountHandler env () o { answer with fail := true } s = some
    (.error .store, { s with now := s.now + 0 }) :=
    if_pos ⟨rfl, ho⟩
  exact ⟨_, exec_act.2 ⟨⟨_, hc⟩, rfl⟩, rfl⟩

/-- An update of the profiles fails by itself, or by its call. -/
theorem profileUpdate_fails (id : ObjectID) (u : AccountUpdate) (s : State) :
    ∃ l e s', Exec (accountHandler env) () (handleProfilesUpdateAtomic id u).run s l (.error e) s' ∧
      s'.accounts.get id = s.accounts.get id := by
  obtain ⟨e, hflow, -⟩ | ⟨p, hflow, -⟩ | ⟨p, hflow, -⟩ := profileUpdate_cases id u
  · rw [hflow]
    exact ⟨[], e, s, ⟨rfl, rfl, rfl⟩, rfl⟩
  · rw [hflow]
    obtain ⟨s', hexec, hget⟩ := call_fails env id s (o := .addProfileToAccount id p) rfl
    exact ⟨_, _, s', hexec, hget⟩
  · rw [hflow]
    obtain ⟨s', hexec, hget⟩ := call_fails env id s (o := .removeProfileFromAccount id p) rfl
    exact ⟨_, _, s', hexec, hget⟩

/-- A well-formed one may succeed. -/
theorem profileUpdate_succeeds (hdoc : s.accounts.get id = some acc)
    (hprofiles : u.profilesAfter acc.profiles = some profiles) :
    ∃ l s', Exec (accountHandler env) () (handleProfilesUpdateAtomic id u).run s l (.ok ()) s' ∧
      s'.accounts.get id = some { acc with profiles := profiles } := by
  have hcall : ∀ {o : AccountOp} {a : o.Ans} {s' : State}, accountHandler env () o answer s =
    some (.ok a, s') →
      Exec (accountHandler env) () (call o).run s [⟨o, .ok a⟩] (.ok a) s' ∧
        s'.accounts.get id = docAfter id o (.ok a) (some acc) := by
    intro o a s' hc
    rw [handler_get hc id, hdoc]
    exact ⟨exec_act.2 ⟨⟨_, hc⟩, rfl⟩, rfl⟩
  obtain ⟨e, -, hafter⟩ | ⟨p, hflow, hafter⟩ | ⟨p, hflow, hafter⟩ := profileUpdate_cases id u
  · rw [hafter] at hprofiles
    cases hprofiles
  · rw [hafter] at hprofiles
    cases hprofiles
    rw [hflow]
    obtain ⟨hexec, hget⟩ := hcall (o := .addProfileToAccount id p) rfl
    exact ⟨_, _, hexec, hget.trans (if_pos rfl)⟩
  · rw [hafter] at hprofiles
    cases hprofiles
    rw [hflow]
    obtain ⟨hexec, hget⟩ := hcall (o := .removeProfileFromAccount id p) rfl
    exact ⟨_, _, hexec, hget.trans (if_pos rfl)⟩

/-- **The other way round**: the profiles may have changed when the request fails, or before the
rest of it. -/
theorem profiles_early (hdoc : s.accounts.get id = some acc)
    (hearly : changesBefore others updates acc.profiles = true) :
    ∃ l r s' profiles, Exec (accountHandler env) () (handleProfileUpdates id updates).run s l r s' ∧
      s'.accounts.get id = some { acc with profiles := profiles } ∧ profiles ≠ acc.profiles ∧
        (r = .ok () → others = true) := by
  induction updates generalizing s with
  | nil => cases hearly
  | cons u updates ih =>
    unfold changesBefore at hearly
    split at hearly
    · cases hearly
    · rename_i profiles hprofiles
      obtain ⟨l₁, s₁, hupdate, hdoc₁⟩ := profileUpdate_succeeds env hdoc hprofiles
      split at hearly
      · rename_i hsame
        subst hsame
        obtain ⟨l₂, r, s', profiles', hrest, hdoc', hne, hothers⟩ := ih hdoc₁ hearly
        exact ⟨_, r, s', profiles', exec_flow_bind.2 (.inr ⟨l₁, l₂, (), s₁, rfl, hupdate, hrest⟩),
          hdoc', hne, hothers⟩
      · rename_i hne
        cases updates with
        | nil =>
          have hothers : others = true := by simpa using hearly
          refine ⟨_, .ok (), s₁, profiles, exec_flow_bind.2
            (.inr ⟨l₁, [], (), s₁, rfl, hupdate, rfl, rfl, rfl⟩), hdoc₁, hne, ?_⟩
          exact fun _ => hothers
        | cons u' updates =>
          obtain ⟨l₂, e, s', hfails, hget⟩ := profileUpdate_fails env id u' s₁
          refine ⟨_, .error e, s', profiles, exec_flow_bind.2
            (.inr ⟨l₁, l₂, (), s₁, rfl, hupdate, ?_⟩), ?_, hne, nofun⟩
          · exact exec_flow_bind.2 (.inl ⟨e, hfails, rfl⟩)
          · rw [hget, hdoc₁]

theorem not_asBefore {mfa : MfaData} (hne : profiles ≠ acc.profiles) :
    ¬ AsBefore mfa acc (some { acc with profiles := profiles }) := by
  rintro (h | ⟨totp, -, h⟩)
  · exact hne (congrArg Account.profiles (Option.some.inj h))
  · exact hne (congrArg Account.profiles (Option.some.inj h))

end Failures

/-- **Account updates are all or nothing** exactly if none of them changes the profiles and leaves
something to be done: another update of the profiles, or the updates of other paths. -/
theorem account_all_or_nothing (env : Env) (id : ObjectID) (updates : List AccountUpdate)
    (mfa : MfaData) (s : State) (acc : Account) (hdoc : s.accounts.get id = some acc) :
    (∀ l r s', Exec (accountHandler env) () (updateAccount env id updates mfa).run s l r s' →
      AllOrNothing env mfa acc updates l r (s'.accounts.get id)) ↔
        changesEarly updates acc.profiles = false := by
  constructor
  · intro hall
    by_contra hearly
    rw [Bool.not_eq_false] at hearly
    obtain ⟨l₁, r, s₁, profiles, hprofiles, hdoc₁, hne, hothers⟩ := profiles_early env hdoc hearly
    -- the profiles are written first: a failure of any later call leaves them changed
    cases r with
    | error e =>
      have hend := hall _ _ _ (exec_flow_bind.2 (.inl ⟨e, hprofiles, rfl⟩))
      rw [hdoc₁] at hend
      exact not_asBefore hne hend
    | ok a =>
      obtain ⟨s₂, hload, hget⟩ := call_fails env id s₁ (o := .getAccountById id) rfl
      have hsome : ¬ updates.filter (·.path ≠ .profiles) = [] := by
        obtain ⟨u, hu, hpath⟩ := List.any_eq_true.1 (hothers rfl)
        exact List.ne_nil_of_mem (List.mem_filter.2 ⟨hu, hpath⟩)
      have hend := hall _ _ _ (exec_flow_bind.2 (.inr ⟨l₁, _, (), s₁, rfl, hprofiles, by
        rw [if_neg hsome]
        exact exec_flow_bind.2 (.inl ⟨_, hload, rfl⟩)⟩))
      rw [hget, hdoc₁] at hend
      exact not_asBefore hne hend
  · exact fun hearly l r s' h => all_or_nothing hdoc hearly h

section Examples

/-- A consent change and a profile that is stored already. -/
def harmlessUpdates : List AccountUpdate :=
  [⟨.replace, .errorReportsConsent, .scalar "true" true⟩, ⟨.add, .profiles, .scalar "p1" false⟩]

theorem harmless_all_or_nothing :
    ∃ acc, oneAccount.accounts.get 1 = some acc ∧
    changesEarly harmlessUpdates acc.profiles = false ∧
    ∀ l r s', Exec (accountHandler exampleEnv) ()
    (updateAccount exampleEnv 1 harmlessUpdates ⟨""⟩).run oneAccount l r s' →
      AllOrNothing exampleEnv ⟨""⟩ acc harmlessUpdates l r (s'.accounts.get 1) :=
  ⟨_, rfl, by decide, (account_all_or_nothing exampleEnv 1 harmlessUpdates
    ⟨""⟩ oneAccount _ rfl).2 (by decide)⟩

/-- A profile, and a password without a test. -/
def untestedUpdates : List AccountUpdate :=
  [⟨.add, .profiles, .scalar "p2" false⟩, ⟨.replace, .password, .scalar "Password5678!" false⟩]

theorem untested_exec :
    ((updateAccount exampleEnv 1 untestedUpdates ⟨""⟩).run.exec (accountHandler exampleEnv) ()
      [answer, answer] oneAccount).isSome := by decide

/-- The password is refused, and the profile stays. -/
theorem untested_adds_profile : ∃ acc l s', oneAccount.accounts.get 1 = some acc ∧
    Exec (accountHandler exampleEnv) ()
      (updateAccount exampleEnv 1 untestedUpdates ⟨""⟩).run oneAccount l
      (.error .passwordTestRequired) s' ∧ s'.accounts.get 1 = some
      { acc with profiles := ["p2", "p1"] } ∧
    ¬ AllOrNothing exampleEnv ⟨""⟩ acc untestedUpdates l (.error .passwordTestRequired)
    (s'.accounts.get 1) := by
  have hexec : Exec (accountHandler exampleEnv) ()
    (updateAccount exampleEnv 1 untestedUpdates ⟨""⟩).run oneAccount _
      (.error .passwordTestRequired) _ := exec_of_choices (Option.some_get untested_exec).symm
  exact ⟨_, _, _, rfl, hexec, rfl, not_asBefore (by decide)⟩

end Examples

end ModDNS.Accounts
