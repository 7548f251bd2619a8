import ModDNS.Accounts.FlowWrites
import ModDNS.Data.Steps

/-!
# The updates of an account, in their order

What a list of updates is to make of an account, one update after the other. `UpdateAccount` takes
them in another order: first those of the profiles, and last those of the password.

* `updates_regroup`: the order does not matter.
* `steps_replaced`: the password is another one only where a test has been passed since the last
  replacement.
-/

namespace ModDNS.Accounts

open Conc Data

/-- The account without the token of a reauthentication. -/
def Account.spend (acc : Account) (p : Purpose) (token : Option String) : Account :=
  match token with
  | none => acc
  | some v => { acc with tokens := acc.tokens.filter fun t => ¬ Reauth.Of (p, v) t }

/-- The account with another address, after a reauthentication by the token, if there is one. -/
def Account.changeEmail (env : Env) (acc : Account) (token : Option String) (newEmail : String) :
    Account :=
  { acc.spend .emailChange token with
    email := normalizeEmail env newEmail
    emailVerified := false
    tokens := (acc.spend .emailChange token).tokens.filter fun t =>
      t.type ≠ .emailVerificationOTP ∧ t.type ≠ .passwordReset }

section Statement

variable (env : Env) (l : List Act) (hadPassword : Bool)

/-- A token for setting a password, which had not passed. -/
def Unspent (acc : Account) (v : String) : Prop :=
  ∃ t ∈ acc.tokens, Reauth.Of (.passwordSet, v) t ∧ ReadBy l t.expiresAt

/-- The effect of one update on the account, and on whether a test has been passed that no
replacement has used up. An account that has a password tests it, and another one a token. The calls
`l` tell the hashes and the times. -/
inductive UpdateStep : Account × Bool → AccountUpdate → Account × Bool → Prop where
  | addProfile (acc : Account) (tested : Bool) (text : String) (truth : Bool) :
    UpdateStep (acc, tested) ⟨.add, .profiles, .scalar text truth⟩
      ({ acc with profiles := acc.profiles.insert text }, tested)
  | removeProfile (acc : Account) (tested : Bool) (text : String) (truth : Bool) :
    UpdateStep (acc, tested) ⟨.remove, .profiles, .scalar text truth⟩
      ({ acc with profiles := acc.profiles.filter (· ≠ text) }, tested)
  | consent (acc : Account) (tested : Bool) (operation : UpdateOperation) (value : Value) :
    UpdateStep (acc, tested) ⟨operation, .errorReportsConsent, value⟩
      ({ acc with errorReportsConsent := toBool value }, tested)
  | email (acc : Account) (tested : Bool) (operation : UpdateOperation)
      (currentPassword token : Option String)
      (newEmail : String) :
    UpdateStep (acc, tested) ⟨operation, .email, .object currentPassword token newEmail⟩
      (acc.changeEmail env token newEmail, tested)
  | testPassword (acc : Account) (tested : Bool) (text : String) (truth : Bool)
      (had : hadPassword = true)
      (check : acc.password.any (env.checkPasswordHash text) = true) :
    UpdateStep (acc, tested) ⟨.test, .password, .scalar text truth⟩ (acc, true)
  | testToken (acc : Account) (tested : Bool) (currentPassword : Option String)
      (v newEmail : String)
      (had : hadPassword = false) (check : Unspent l acc v) :
    UpdateStep (acc, tested) ⟨.test, .password, .object currentPassword (some v) newEmail⟩
    (acc.spend .passwordSet (some v), true)
  | replacePassword (acc : Account) (text hash : String) (truth : Bool)
      (hashed : (⟨.bcrypt text, .ok hash⟩ : Act) ∈ l) :
    UpdateStep (acc, true) ⟨.replace, .password, .scalar text truth⟩
    ({ acc with password := some hash }, false)

def AccountUpdate.IsReplace (u : AccountUpdate) : Prop :=
  u.path = .password ∧ u.operation = .replace

/-- The update is a test that the account passes. -/
def AccountUpdate.Passes (acc : Account) (u : AccountUpdate) : Prop :=
  u.path = .password ∧ u.operation = .test ∧
    ((hadPassword = true ∧ ∃ text truth, u.value = .scalar text truth ∧
      acc.password.any (env.checkPasswordHash text) = true) ∨
      (hadPassword = false ∧ ∃ currentPassword v newEmail, u.value = .object currentPassword
        (some v) newEmail ∧ Unspent l acc v))

/-- There is a replacement among the updates, and before it a test that the account passed as it was
then, with no other replacement in between. -/
def ReplacedAfterTest (acc : Account) (updates : List AccountUpdate) : Prop :=
  ∃ us₁ t us₂ r us₃ m, updates = us₁ ++ t :: (us₂ ++ r :: us₃) ∧
    Steps (UpdateStep env l hadPassword) (acc, false) us₁ m ∧ t.Passes env l hadPassword m.1 ∧
    (∀ u ∈ us₂, ¬ u.IsReplace) ∧ r.IsReplace

end Statement

section Order

variable {env : Env} {l l' : List Act} {hadPassword : Bool} {a b c : Account × Bool}
  {u v : AccountUpdate} {acc : Account} {updates : List AccountUpdate} {token : Option String}
  {newEmail : String}

theorem ReadBy.subset {t : ℕ} (hl : l ⊆ l') (h : ReadBy l t) : ReadBy l' t := by
  obtain ⟨now, hle, hm⟩ := h
  exact ⟨now, hle, hl hm⟩

theorem Unspent.subset {w : String} {acc' : Account} (ht : acc.tokens ⊆ acc'.tokens) (hl : l ⊆ l')
    (h : Unspent l acc w) :
    Unspent l' acc' w := by
  obtain ⟨t, hm, hof, hread⟩ := h
  exact ⟨t, ht hm, hof, hread.subset hl⟩

theorem updateStep_mono (hl : l ⊆ l') (h : UpdateStep env l hadPassword a u b) :
    UpdateStep env l' hadPassword a u b := by
  cases h with
  | addProfile acc tested text truth => exact .addProfile ..
  | removeProfile acc tested text truth => exact .removeProfile ..
  | consent acc tested operation value => exact .consent ..
  | email acc tested operation currentPassword token newEmail => exact .email ..
  | testPassword acc tested text truth had check => exact .testPassword _ _ _ _ had check
  | testToken acc tested currentPassword v newEmail had check =>
    exact .testToken _ _ _ _ _ had (check.subset (List.Subset.refl _) hl)
  | replacePassword acc text hash truth hashed => exact .replacePassword _ _ _ _ (hl hashed)

theorem spend_password (p : Purpose) : (acc.spend p token).password = acc.password := by
  cases token <;> rfl

theorem spend_tokens (p : Purpose) : (acc.spend p token).tokens ⊆ acc.tokens := by
  cases token with
  | none => exact List.Subset.refl _
  | some v => exact List.filter_subset_self _

theorem changeEmail_password : (acc.changeEmail env token newEmail).password = acc.password :=
  spend_password _

theorem changeEmail_tokens : (acc.changeEmail env token newEmail).tokens ⊆ acc.tokens :=
  List.Subset.trans (List.filter_subset_self _) (spend_tokens _)

theorem changeEmail_spend (p : Purpose) (w : String) :
    (acc.changeEmail env token newEmail).spend p (some w) =
      (acc.spend p (some w)).changeEmail env token newEmail := by
  cases token <;> simp [Account.changeEmail, Account.spend, Bool.and_comm, Bool.and_left_comm]

/-- An update of the profiles may as well come later. -/
theorem profiles_commute (hu : u.path = .profiles) (hv : ¬ v.path = .profiles)
    (h₁ : UpdateStep env l hadPassword a u b) (h₂ : UpdateStep env l hadPassword b v c) :
    ∃ b', UpdateStep env l hadPassword a v b' ∧ UpdateStep env l hadPassword b' u c := by
  cases h₁ with
  | addProfile acc tested text truth =>
    cases h₂ with
    | consent _ _ operation value => exact ⟨_, .consent .., .addProfile ..⟩
    | email _ _ operation currentPassword token newEmail =>
      refine ⟨_, .email acc .., ?_⟩
      cases token <;> exact .addProfile ..
    | testPassword _ _ _ _ had check => exact ⟨_, .testPassword _ _ _ _ had check, .addProfile ..⟩
    | testToken _ _ _ _ _ had check => exact ⟨_, .testToken acc _ _ _ _ had check, .addProfile ..⟩
    | replacePassword _ _ _ _ hashed => exact ⟨_, .replacePassword acc _ _ _ hashed, .addProfile ..⟩
    | _ => exact absurd rfl hv
  | removeProfile acc tested text truth =>
    cases h₂ with
    | consent _ _ operation value => exact ⟨_, .consent .., .removeProfile ..⟩
    | email _ _ operation currentPassword token newEmail =>
      refine ⟨_, .email acc .., ?_⟩
      cases token <;> exact .removeProfile ..
    | testPassword _ _ _ _ had check =>
      exact ⟨_, .testPassword _ _ _ _ had check, .removeProfile ..⟩
    | testToken _ _ _ _ _ had check =>
      exact ⟨_, .testToken acc _ _ _ _ had check, .removeProfile ..⟩
    | replacePassword _ _ _ _ hashed =>
      exact ⟨_, .replacePassword acc _ _ _ hashed, .removeProfile ..⟩
    | _ => exact absurd rfl hv
  | _ => cases hu

/-- An update of the password may as well come earlier. -/
theorem password_commute (hu : ¬ u.path = .password) (hv : v.path = .password)
    (h₁ : UpdateStep env l hadPassword a u b) (h₂ : UpdateStep env l hadPassword b v c) :
    ∃ b', UpdateStep env l hadPassword a v b' ∧ UpdateStep env l hadPassword b' u c := by
  by_cases hprofiles : u.path = .profiles
  · exact profiles_commute hprofiles (by rw [hv]; exact nofun) h₁ h₂
  cases h₁ with
  | consent acc tested operation value =>
    cases h₂ with
    | testPassword _ _ _ _ had check => exact ⟨_, .testPassword _ _ _ _ had check, .consent ..⟩
    | testToken _ _ _ _ _ had check => exact ⟨_, .testToken acc _ _ _ _ had check, .consent ..⟩
    | replacePassword _ _ _ _ hashed => exact ⟨_, .replacePassword acc _ _ _ hashed, .consent ..⟩
    | _ => cases hv
  | email acc tested operation currentPassword token newEmail =>
    cases h₂ with
    | testPassword _ _ _ _ had check =>
      rw [changeEmail_password] at check
      exact ⟨_, .testPassword _ _ _ _ had check, .email ..⟩
    | testToken _ _ _ _ _ had check =>
      rw [changeEmail_spend]
      exact ⟨_, .testToken _ _ _ _ _ had (check.subset changeEmail_tokens (List.Subset.refl _)),
        .email ..⟩
    | replacePassword _ _ _ _ hashed =>
      refine ⟨_, .replacePassword acc _ _ _ hashed, ?_⟩
      cases token <;> exact .email ..
    | _ => cases hv
  | addProfile => exact absurd rfl hprofiles
  | removeProfile => exact absurd rfl hprofiles
  | _ => exact absurd rfl hu

/-- **The order of the paths**: the profiles first and the password last is as good as the order of
the list. -/
theorem updates_regroup
    (h : Steps (UpdateStep env l hadPassword) a (updates.filter (·.path = .profiles) ++
      ((updates.filter (·.path ≠ .profiles)).filter (·.path ≠ .password) ++
        (updates.filter (·.path ≠ .profiles)).filter (·.path = .password))) b) :
    Steps (UpdateStep env l hadPassword) a updates b := by
  refine steps_regroup (p := fun u => u.path = .profiles) (fun _ _ _ _ _ => profiles_commute) ?_
  obtain ⟨m, hprofiles, hrest⟩ := steps_append.1 h
  refine steps_append.2 ⟨m, hprofiles, ?_⟩
  refine steps_regroup (p := fun u => ¬ u.path = .password) (fun _ _ _ _ _ hu hv => ?_) ?_
  · exact password_commute hu (not_not.1 hv)
  · simpa only [not_not] using hrest

end Order

section Password

variable {env : Env} {l : List Act} {hadPassword : Bool} {a b : Account × Bool} {u : AccountUpdate}
  {acc : Account} {updates : List AccountUpdate}

theorem updateStep_password (h : UpdateStep env l hadPassword a u b) (hu : ¬ u.IsReplace) :
    b.1.password = a.1.password := by
  cases h with
  | email => exact changeEmail_password
  | testToken => exact spend_password _
  | replacePassword => exact absurd ⟨rfl, rfl⟩ hu
  | _ => rfl

theorem updateStep_tested (h : UpdateStep env l hadPassword a u b) (hb : b.2 = true) :
    u.Passes env l hadPassword a.1 ∨ (a.2 = true ∧ ¬ u.IsReplace) := by
  cases h with
  | addProfile => exact .inr ⟨hb, nofun⟩
  | removeProfile => exact .inr ⟨hb, nofun⟩
  | consent => exact .inr ⟨hb, nofun⟩
  | email => exact .inr ⟨hb, nofun⟩
  | testPassword acc tested text truth had check =>
    exact .inl ⟨rfl, rfl, .inl ⟨had, text, truth, rfl, check⟩⟩
  | testToken acc tested currentPassword v newEmail had check =>
    exact .inl ⟨rfl, rfl, .inr ⟨had, currentPassword, v, newEmail, rfl, check⟩⟩
  | replacePassword => cases hb

theorem updateStep_replace (h : UpdateStep env l hadPassword a u b) (hu : u.IsReplace) :
    a.2 = true := by
  cases h with
  | replacePassword => rfl
  | consent => exact absurd hu.1 nofun
  | email => exact absurd hu.1 nofun
  | _ => exact absurd hu.2 nofun

/-- Where a test stands, the last one passed stands after the last replacement. -/
theorem steps_tested (h : Steps (UpdateStep env l hadPassword) (acc, false) updates b)
    (hb : b.2 = true) :
    ∃ us₁ t us₂ m, updates = us₁ ++ t :: us₂ ∧ Steps (UpdateStep env l hadPassword)
    (acc, false) us₁ m ∧
      t.Passes env l hadPassword m.1 ∧ ∀ u ∈ us₂, ¬ u.IsReplace := by
  induction updates using List.reverseRecOn generalizing b with
  | nil =>
    rw [steps_nil h] at hb
    cases hb
  | append_singleton updates u ih =>
    obtain ⟨m, hsteps, hstep⟩ := steps_snoc h
    obtain hpass | ⟨hm, hu⟩ := updateStep_tested hstep hb
    · exact ⟨updates, u, [], m, rfl, hsteps, hpass, List.forall_mem_nil _⟩
    · obtain ⟨us₁, t, us₂, m', rfl, hfirst, hpass, hus⟩ := ih hsteps hm
      refine ⟨us₁, t, us₂ ++ [u], m', by simp, hfirst, hpass, fun u' hu' => ?_⟩
      obtain hu' | hu' := List.mem_append.1 hu'
      · exact hus u' hu'
      · rwa [List.mem_singleton.1 hu']

/-- **Tests and replacements**: the password stays what it is, or one replacement at least had its
test. -/
theorem steps_replaced (h : Steps (UpdateStep env l hadPassword) (acc, false) updates b)
    (hb : b.1.password ≠ acc.password) :
    ReplacedAfterTest env l hadPassword acc updates := by
  induction updates using List.reverseRecOn generalizing b with
  | nil =>
    rw [steps_nil h] at hb
    exact absurd rfl hb
  | append_singleton updates u ih =>
    obtain ⟨m, hsteps, hstep⟩ := steps_snoc h
    by_cases hu : u.IsReplace
    · obtain ⟨us₁, t, us₂, m', rfl, hfirst, hpass, hus⟩ :=
        steps_tested hsteps (updateStep_replace hstep hu)
      exact ⟨us₁, t, us₂, u, [], m', by simp, hfirst, hpass, hus, hu⟩
    · rw [updateStep_password hstep hu] at hb
      obtain ⟨us₁, t, us₂, r, us₃, m', rfl, hfirst, hpass, hus, hr⟩ := ih hsteps hb
      exact ⟨us₁, t, us₂, r, us₃ ++ [u], m', by simp, hfirst, hpass, hus, hr⟩

end Password

section Values

/-! What the flows make of the account is what the steps make of it. -/

variable {env : Env} {l : List Act} {hadPassword tested : Bool} {acc acc' : Account}
  {update : AccountUpdate} {updates : List AccountUpdate} {mfa : MfaData}

theorem ends_toStringE {v : Value} {text : String} (h : Ends (toStringE v).run l (.ok text)) :
    l = [] ∧ ∃ truth, v = .scalar text truth := by
  cases v with
  | scalar text' truth =>
    obtain ⟨rfl, h⟩ := ends_flow_pure h
    cases h
    exact ⟨rfl, truth, rfl⟩
  | _ => cases (ends_throw h).2

theorem ends_keepTokens {p : Purpose} {v : String} {tokens : List Token} {x : List Token × Bool}
    (h : Ends (keepTokens p v tokens).run l (.ok x)) :
    x.1 = tokens.filter (fun t => ¬ Reauth.Of (p, v) t) ∧
      (x.2 = true → ∃ t ∈ tokens, Reauth.Of (p, v) t ∧ ReadBy l t.expiresAt) := by
  obtain ⟨-, hkept, hmatched, hexp⟩ :=
    meets_path (does_run (keepTokens_does (J := .idle) p v tokens)) h _ rfl
  refine ⟨hkept, fun hx => ?_⟩
  obtain ⟨t, ht, hof⟩ := hmatched hx
  exact ⟨t, ht, hof, hexp t ht hof⟩

theorem ends_verifyOnAccount {p : Params} (h : Ends (verifyOnAccount env acc p).run l (.ok acc')) :
    acc' = acc.spend p.purpose p.reauthToken ∧
      ∀ v, p.reauthToken = some v → ∃ t ∈ acc.tokens, Reauth.Of (p.purpose, v) t ∧
        ReadBy l t.expiresAt := by
  obtain ⟨l₁, l₂, ⟨⟩, rfl, hone, h⟩ := ends_flow_bind_ok h
  obtain ⟨-, -, hsome, hnone⟩ :=
    meets_path (does_run (oneAuthMethod_does (J := .idle) p)) hone _ rfl
  obtain ⟨purpose, password, reauthToken, mfa⟩ := p
  cases password with
  | some password =>
    obtain rfl : reauthToken = none := hnone.resolve_left nofun
    obtain ⟨l₃, l₄, ⟨⟩, rfl, -, h⟩ := ends_flow_bind_ok h
    obtain ⟨-, -, herr⟩ | ⟨-, h⟩ := ends_ensure_bind h
    · cases herr
    · cases (ends_flow_pure h).2
      exact ⟨rfl, nofun⟩
  | none =>
    obtain ⟨v, rfl⟩ := Option.ne_none_iff_exists'.1 (hsome.resolve_left fun hno => hno rfl)
    obtain ⟨l₃, l₄, ⟨kept, matched⟩, rfl, hkeep, h⟩ := ends_flow_bind_ok h
    obtain ⟨hkept, hmatched⟩ := ends_keepTokens hkeep
    obtain ⟨-, -, herr⟩ | ⟨hm, h⟩ := ends_ensure_bind h
    · cases herr
    · cases (ends_flow_pure h).2
      obtain ⟨t, ht, hof, hread⟩ := hmatched hm
      dsimp only at hkept
      refine ⟨by rw [hkept]; rfl, ?_⟩
      rintro _ ⟨⟩
      exact ⟨t, ht, hof, hread.subset (by simp)⟩

theorem ends_handleEmailUpdate (hpath : update.path = .email)
    (h : Ends (handleEmailUpdate env acc update mfa).run l (.ok acc')) :
    UpdateStep env l hadPassword (acc, tested) update (acc', tested) := by
  obtain ⟨operation, path, value⟩ := update
  obtain rfl : path = .email := hpath
  cases value with
  | object currentPassword reauthToken newEmail =>
    obtain ⟨-, -, herr⟩ | ⟨-, h⟩ := ends_ensure_bind h
    · cases herr
    obtain ⟨l₁, l₂, acc₁, rfl, hverify, h⟩ := ends_flow_bind_ok h
    obtain ⟨rfl, -⟩ := ends_verifyOnAccount hverify
    obtain ⟨-, -, herr⟩ | ⟨-, h⟩ := ends_ensure_bind h
    · cases herr
    obtain ⟨-, -, herr⟩ | ⟨-, h⟩ := ends_ensure_bind h
    · cases herr
    obtain ⟨l₃, l₄, x, rfl, -, h⟩ := ends_attempt_bind h
    split at h
    · split at h <;> cases (ends_throw h).2
    · cases (ends_flow_pure h).2
      exact .email ..
    · cases (ends_throw h).2
  | _ => cases (ends_throw h).2

theorem ends_setPassword {pass : String} (h : Ends (setPassword acc pass).run l (.ok acc')) :
    ∃ hash, acc' = { acc with password := some hash } ∧ (⟨.bcrypt pass, .ok hash⟩ : Act) ∈ l := by
  obtain ⟨-, -, herr⟩ | ⟨-, hhash⟩ := ends_ensure_bind h
  · cases herr
  · obtain ⟨hash, l', rfl, hend⟩ := ends_act_bind_ok hhash
    cases (ends_flow_pure hend).2
    exact ⟨hash, rfl, List.mem_cons_self⟩

theorem ends_passwordLoop (hpath : ∀ u ∈ updates, u.path = .password)
    (h : Ends (passwordLoop env hadPassword updates acc tested).run l (.ok acc')) :
    ∃ tested', Steps (UpdateStep env l hadPassword) (acc, tested) updates (acc', tested') := by
  induction updates generalizing acc tested l with
  | nil =>
    cases (ends_flow_pure h).2
    exact ⟨tested, .nil _⟩
  | cons update updates ih =>
    obtain ⟨hu, hpaths⟩ := List.forall_mem_cons.1 hpath
    obtain ⟨operation, path, value⟩ := update
    obtain rfl : path = .password := hu
    -- the steps that are left, with the calls made before them
    have hrest : ∀ {l₁ l₂ : List Act} {acc₁ : Account} {tested₁ : Bool},
        UpdateStep env (l₁ ++ l₂) hadPassword (acc, tested) ⟨operation, .password, value⟩
          (acc₁, tested₁) →
        Ends (passwordLoop env hadPassword updates acc₁ tested₁).run l₂ (.ok acc') →
        ∃ tested', Steps (UpdateStep env (l₁ ++ l₂) hadPassword) (acc, tested)
        (⟨operation, .password, value⟩ :: updates)
          (acc', tested') := by
      intro l₁ l₂ acc₁ tested₁ hstep h
      obtain ⟨tested', hsteps⟩ := ih hpaths h
      exact ⟨tested',
        .cons hstep
        (steps_mono (fun _ _ _ => updateStep_mono (List.subset_append_right ..)) hsteps)⟩
    unfold passwordLoop at h
    cases operation with
    | test =>
      dsimp only at h
      split at h
      · rename_i had
        obtain ⟨l₁, l₂, text, rfl, hvalue, h⟩ := ends_flow_bind_ok h
        obtain ⟨rfl, truth, rfl⟩ := ends_toStringE hvalue
        obtain ⟨-, -, herr⟩ | ⟨hcheck, h⟩ := ends_ensure_bind h
        · cases herr
        · exact hrest (.testPassword acc tested text truth had hcheck) h
      · rename_i had
        obtain ⟨l₁, l₂, acc₁, rfl, hverify, h⟩ := ends_flow_bind_ok h
        unfold verifyPasswordSetReauth at hverify
        split at hverify
        · rename_i currentPassword v newEmail
          obtain ⟨-, -, herr⟩ | ⟨-, hverify⟩ := ends_ensure_bind hverify
          · cases herr
          obtain ⟨rfl, htoken⟩ := ends_verifyOnAccount hverify
          obtain ⟨t, ht, hof, hread⟩ := htoken v rfl
          refine hrest (.testToken acc tested currentPassword v newEmail (by simpa using had) ?_) h
          exact ⟨t, ht, hof, hread.subset (List.subset_append_left ..)⟩
        · cases (ends_throw hverify).2
    | replace =>
      obtain ⟨-, -, herr⟩ | ⟨htested, hloop⟩ := ends_ensure_bind h
      · cases herr
      clear h
      obtain rfl : tested = true := htested
      obtain ⟨l₁, l₂, text, rfl, hvalue, h⟩ := ends_flow_bind_ok hloop
      obtain ⟨rfl, truth, rfl⟩ := ends_toStringE hvalue
      obtain ⟨-, -, herr⟩ | ⟨-, h⟩ := ends_ensure_bind h
      · cases herr
      obtain ⟨l₁, l₃, acc₁, rfl, hset, h⟩ := ends_flow_bind_ok h
      obtain ⟨hash, rfl, hhash⟩ := ends_setPassword hset
      rw [List.nil_append]
      exact hrest (.replacePassword acc text hash truth (by simp [hhash])) h
    | _ => cases (ends_throw h).2

theorem ends_applyUpdates (hpath : ∀ u ∈ updates, u.path ≠ .profiles)
    (h : Ends (applyUpdates env mfa updates acc).run l (.ok acc')) :
    Steps (UpdateStep env l hadPassword) (acc, tested) (updates.filter (·.path ≠ .password))
    (acc', tested) := by
  induction updates generalizing acc l with
  | nil =>
    cases (ends_flow_pure h).2
    exact .nil _
  | cons update updates ih =>
    obtain ⟨hu, hpaths⟩ := List.forall_mem_cons.1 hpath
    unfold applyUpdates at h
    split at h
    · rename_i hemail
      obtain ⟨l₁, l₂, acc₁, rfl, hupdate, h⟩ := ends_flow_bind_ok h
      rw [List.filter_cons_of_pos (by simp [hemail])]
      have hstep : UpdateStep env l₁ hadPassword (acc, tested) update (acc₁, tested) :=
        ends_handleEmailUpdate hemail hupdate
      exact .cons (updateStep_mono (List.subset_append_left ..) hstep)
        (steps_mono (fun _ _ _ => updateStep_mono (List.subset_append_right ..)) (ih hpaths h))
    · rename_i hconsent
      rw [List.filter_cons_of_pos (by simp [hconsent])]
      obtain ⟨operation, path, value⟩ := update
      obtain rfl : path = .errorReportsConsent := hconsent
      exact .cons (.consent acc tested operation value) (ih hpaths h)
    · rename_i hemail hconsent
      have hpassword : update.path = .password := by
        cases hpath' : update.path with
        | password => rfl
        | errorReportsConsent => exact absurd hpath' hconsent
        | profiles => exact absurd hpath' hu
        | email => exact absurd hpath' hemail
      rw [List.filter_cons_of_neg (by simp [hpassword])]
      exact ih hpaths h

/-- No update but a replacement touches the password. -/
theorem steps_password {a b : Account × Bool} (hpath : ∀ u ∈ updates, u.path ≠ .password)
    (h : Steps (UpdateStep env l hadPassword) a updates b) : b.1.password = a.1.password := by
  induction h with
  | nil a => rfl
  | cons hstep _ ih =>
    obtain ⟨hu, hpath⟩ := List.forall_mem_cons.1 hpath
    rw [ih hpath, updateStep_password hstep fun hreplace => hu hreplace.1]

theorem ends_applyPasswordUpdates (hpath : ∀ u ∈ updates, u.path = .password)
    (hhad : hadPassword = acc.password.isSome)
    (h : Ends (applyPasswordUpdates env acc updates mfa).run l (.ok acc')) :
    ∃ tested, Steps (UpdateStep env l hadPassword) (acc, false) updates (acc', tested) := by
  subst hhad
  unfold applyPasswordUpdates at h
  split at h
  · rename_i hnil
    subst hnil
    cases (ends_flow_pure h).2
    exact ⟨false, .nil _⟩
  · unfold handlePasswordUpdate at h
    split at h
    · rename_i had
      obtain ⟨l₁, l₂, ⟨⟩, rfl, -, h⟩ := ends_flow_bind_ok h
      obtain ⟨tested, hsteps⟩ := ends_passwordLoop hpath h
      rw [had]
      exact ⟨tested, steps_mono (fun _ _ _ => updateStep_mono (List.subset_append_right ..)) hsteps⟩
    · rename_i had
      rw [Bool.not_eq_true] at had
      rw [had]
      exact ends_passwordLoop hpath h

end Values

end ModDNS.Accounts
