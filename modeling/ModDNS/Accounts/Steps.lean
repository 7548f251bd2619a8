import ModDNS.Accounts.Requests

/-!
# What one step does to the accounts

* `step_get`: the stored document of an account after a step.
* `step_loads`: an account that a flow loads is stored.
* `step_draws`: a random string has not been drawn before.
-/

namespace ModDNS.Accounts

open Conc

abbrev Act := AccountSig.Act

abbrev AccountPool (ι : Type) := Pool AccountSig ι State (Except AccountErr Unit)

/-- The document of `id` after an action. -/
def docAfter (id : ObjectID) :
    (o : AccountOp) → Except AccountErr o.Ans → Option Account → Option Account
  | .createAccount acc, .ok _, d => if id = acc.id then some acc else d
  | .updateAccount _ acc, .ok _, d => if id = acc.id then d.map fun d => d.set acc else d
  | .updateDeletionCode i code expiresAt, .ok _, d =>
    if id = i then
      d.map fun d => { d with deletionCode := code, deletionCodeExpires := some expiresAt }
    else d
  | .addProfileToAccount i p, .ok _, d =>
    if id = i then d.map fun d => { d with profiles := d.profiles.insert p } else d
  | .removeProfileFromAccount i p, .ok _, d =>
    if id = i then d.map fun d => { d with profiles := d.profiles.filter (· ≠ p) } else d
  | .deleteAccountById i, .ok _, d => if id = i then none else d
  | _, _, d => d

/-- The action loaded `acc`. -/
def Loads (acc : Account) : Act → Prop
  | ⟨.getAccountById _, .ok d⟩ | ⟨.getAccountByEmail _, .ok d⟩ | ⟨.getAccountByToken _ _, .ok d⟩ =>
    d = acc
  | _ => False

/-- The action drew the random string `v`. -/
def Draws (v : String) : Act → Prop
  | ⟨.randomString _, .ok w⟩ | ⟨.generateSecureToken _, .ok w⟩ => w = v
  | _ => False

/-- The account that the action inserted. -/
def created : Act → Option Account
  | ⟨.createAccount acc, .ok _⟩ => some acc
  | _ => none

/-- The whole-account write of the action: the copy that it was made from, and what it wrote. -/
def written : Act → Option (Account × Account)
  | ⟨.updateAccount loaded acc, .ok _⟩ => some (loaded, acc)
  | _ => none

/-- The account that the action deleted. -/
def deleted : Act → Option ObjectID
  | ⟨.deleteAccountById id, .ok _⟩ => some id
  | _ => none

theorem mem_created {x : Act} {acc : Account} :
    acc ∈ created x ↔ x = ⟨.createAccount acc, .ok ()⟩ := by
  constructor
  · intro h
    unfold created at h
    split at h
    · cases h; rfl
    · cases h
  · rintro rfl; rfl

theorem mem_written {x : Act} {w : Account × Account} :
    w ∈ written x ↔ x = ⟨.updateAccount w.1 w.2, .ok ()⟩ := by
  constructor
  · intro h
    unfold written at h
    split at h
    · cases h; rfl
    · cases h
  · rintro rfl; rfl

theorem draws_eq {v w : String} {x : Act} (hv : Draws v x) (hw : Draws w x) : v = w := by
  obtain ⟨o, r⟩ := x
  cases r with
  | error e => cases o <;> exact hv.elim
  | ok a =>
    cases o with
    | randomString n => exact hv.symm.trans hw
    | generateSecureToken n => exact hv.symm.trans hw
    | _ => exact hv.elim

section Acts

variable {env : Env} {ch : Choice} {s s' : State} {o : AccountOp} {r : Except AccountErr o.Ans}

theorem modify_get {i : ObjectID} {f : Account → Account} {hf : ∀ d, (f d).id = d.id}
    (id : ObjectID) :
    (s.modify i f hf).accounts.get id = if id = i then (s.accounts.get id).map f
    else s.accounts.get id :=
  Collection.get_modify f hf

theorem act_get (h : accountAct env ch s o = some (r, s')) (id : ObjectID) :
    s'.accounts.get id = docAfter id o r (s.accounts.get id) := by
  cases o with
  | createAccount acc =>
    simp only [accountAct] at h
    split at h
    · cases h; rfl
    · rename_i c hc
      cases h
      exact Collection.get_insert hc
  | updateAccount loaded acc => cases h; exact modify_get id
  | updateDeletionCode i code expiresAt => cases h; exact modify_get id
  | addProfileToAccount i p => cases h; exact modify_get id
  | removeProfileFromAccount i p => cases h; exact modify_get id
  | deleteAccountById i => cases h; exact Collection.get_erase
  | incr label i expiration =>
    cases h
    simp only [State.incr]
    split <;> rfl
  | getCounter label i => simp only [accountAct] at h; split at h <;> cases h <;> rfl
  | getTOTPSecret i => simp only [accountAct] at h; split at h <;> cases h <;> rfl
  | consumeCeremony token => simp only [accountAct] at h; split at h <;> cases h <;> rfl
  | randomString n =>
    simp only [accountAct, State.draw] at h
    split at h
    · split at h <;> cases h; rfl
    · cases h
  | generateSecureToken n =>
    simp only [accountAct, State.draw] at h
    split at h <;> cases h; rfl
  | _ => cases h; rfl

theorem act_loads (h : accountAct env ch s o = some (r, s')) {acc : Account}
    (hl : Loads acc ⟨o, r⟩) :
    s.accounts.get acc.id = some acc := by
  have hfound : ∀ {d : Option Account}, found d = .ok acc → d = some acc := by
    intro d hd
    cases d with
    | none => cases hd
    | some d => cases hd; rfl
  cases o with
  | getAccountById i =>
    cases h
    cases hd : found (s.accounts.get i) with
    | error e => rw [hd] at hl; exact hl.elim
    | ok d =>
      rw [hd] at hl
      obtain rfl : d = acc := hl
      have hget := hfound hd
      rw [Collection.get_id hget]
      exact hget
  | getAccountByEmail email =>
    cases h
    cases hd : found (s.accounts.find fun d => d.email = normalizeEmail env email) with
    | error e => rw [hd] at hl; exact hl.elim
    | ok d =>
      rw [hd] at hl
      obtain rfl : d = acc := hl
      exact (Collection.get_of_find (hfound hd)).1
  | getAccountByToken token tokenType =>
    cases h
    cases hd : found (s.accounts.find fun d => d.tokens.any (·.value = token) ∧
      d.tokens.any (·.type = tokenType)) with
    | error e => rw [hd] at hl; exact hl.elim
    | ok d =>
      rw [hd] at hl
      obtain rfl : d = acc := hl
      exact (Collection.get_of_find (hfound hd)).1
  | _ => cases r <;> exact hl.elim

theorem act_byEmail {email : String} {acc : Account}
    (h : accountAct env ch s (.getAccountByEmail email) = some (.ok acc, s')) :
    acc.email = normalizeEmail env email := by
  simp only [accountAct, Option.some.injEq, Prod.mk.injEq] at h
  cases hd : s.accounts.find fun d => d.email = normalizeEmail env email with
  | none => rw [hd] at h; cases h.1
  | some d =>
    rw [hd] at h
    cases h.1
    simpa using (Collection.get_of_find hd).2

theorem act_draws (h : accountAct env ch s o = some (r, s')) :
    (∃ v, Draws v ⟨o, r⟩ ∧ v ∉ s.drawn ∧ s'.drawn = v :: s.drawn) ∨
      (∀ v, ¬ Draws v ⟨o, r⟩) ∧ s'.drawn = s.drawn := by
  have hdraw : ∀ {x : Except AccountErr String × State}, s.draw ch = some x →
      ∃ v, x.1 = .ok v ∧ v ∉ s.drawn ∧ x.2.drawn = v :: s.drawn := by
    intro x hx
    unfold State.draw at hx
    split at hx <;> cases hx
    exact ⟨ch.str, rfl, ‹_›, rfl⟩
  cases o with
  | randomString n =>
    simp only [accountAct] at h
    split at h
    · obtain ⟨v, rfl, hv⟩ := hdraw h
      exact .inl ⟨v, rfl, hv⟩
    · cases h
  | generateSecureToken n =>
    obtain ⟨v, rfl, hv⟩ := hdraw h
    exact .inl ⟨v, rfl, hv⟩
  | createAccount acc =>
    simp only [accountAct] at h; split at h <;> cases h <;> exact .inr ⟨fun _ => id, rfl⟩
  | getCounter label i =>
    simp only [accountAct] at h; split at h <;> cases h <;> exact .inr ⟨fun _ => id, rfl⟩
  | getTOTPSecret i =>
    simp only [accountAct] at h; split at h <;> cases h <;> exact .inr ⟨fun _ => id, rfl⟩
  | consumeCeremony t =>
    simp only [accountAct] at h; split at h <;> cases h <;> exact .inr ⟨fun _ => id, rfl⟩
  | incr label i expiration =>
    cases h
    refine .inr ⟨fun _ => id, ?_⟩
    simp only [State.incr]
    split <;> rfl
  | _ => cases h; exact .inr ⟨fun _ => id, rfl⟩

end Acts

section Steps

variable {ι α : Type} [DecidableEq ι] {env : Env} {P Q : Pool AccountSig ι State α}
  {e : Event AccountSig ι}

/-- A step is a failure without effect, or does what its action does; the clock may have gone on. -/
theorem account_step (hst : Step (accountHandler env) P e Q) :
    ∃ ch s, s.accounts = P.state.accounts ∧ s.drawn = P.state.drawn ∧
      ((e.op.canFail = true ∧ e.res = .error .store ∧ Q.state = s) ∨
        accountAct env ch s e.op = some (e.res, Q.state)) := by
  obtain ⟨k, ch, s, -, hs, rfl⟩ := step_iff.1 hst
  refine ⟨ch, { P.state with now := P.state.now + ch.tick }, rfl, rfl, ?_⟩
  unfold accountHandler at hs
  split at hs
  · rename_i hf
    simp only [Option.some.injEq, Prod.mk.injEq] at hs
    exact .inl ⟨hf.2, hs.1.symm, hs.2.symm⟩
  · exact .inr hs

theorem docAfter_error {o : AccountOp} {err : AccountErr} {id : ObjectID} {d : Option Account} :
    docAfter id o (.error err) d = d := by
  cases o <;> rfl

theorem step_get (hst : Step (accountHandler env) P e Q) (id : ObjectID) :
    Q.state.accounts.get id = docAfter id e.op e.res (P.state.accounts.get id) := by
  obtain ⟨ch, s, hacc, -, ⟨-, hr, hq⟩ | hs⟩ := account_step hst
  · rw [hq, hr, docAfter_error, hacc]
  · rw [← hacc]; exact act_get hs id

theorem step_create {acc : Account} {i : ι}
    (hst : Step (accountHandler env) P ⟨i, .createAccount acc, .ok ()⟩ Q) :
    P.state.accounts.get acc.id = none := by
  obtain ⟨ch, s, hacc, -, ⟨-, hr, -⟩ | hs⟩ := account_step hst
  · cases hr
  · simp only [accountAct] at hs
    split at hs
    · cases hs
    · rename_i c hc
      rw [← hacc]
      exact Collection.insert_new hc

theorem step_loads {acc : Account} (hst : Step (accountHandler env) P e Q)
    (hl : Loads acc ⟨e.op, e.res⟩) :
    P.state.accounts.get acc.id = some acc := by
  obtain ⟨ch, s, hacc, -, ⟨-, hr, -⟩ | hs⟩ := account_step hst
  · obtain ⟨i, o, r⟩ := e
    obtain rfl : r = .error .store := hr
    cases o <;> exact hl.elim
  · rw [← hacc]; exact act_loads hs hl

theorem step_draws (hst : Step (accountHandler env) P e Q) :
    (∃ v, Draws v ⟨e.op, e.res⟩ ∧ v ∉ P.state.drawn ∧ Q.state.drawn = v :: P.state.drawn) ∨
      (∀ v, ¬ Draws v ⟨e.op, e.res⟩) ∧ Q.state.drawn = P.state.drawn := by
  obtain ⟨ch, s, -, hdr, ⟨-, hr, hq⟩ | hs⟩ := account_step hst
  · refine .inr ⟨fun v hv => ?_, by rw [hq, hdr]⟩
    obtain ⟨i, o, r⟩ := e
    obtain rfl : r = .error .store := hr
    cases o <;> exact hv.elim
  · rw [← hdr]; exact act_draws hs

theorem step_randomString {i : ι} {n : ℕ} {v : String}
    (hst : Step (accountHandler env) P ⟨i, .randomString n, .ok v⟩ Q) : IsRandomString n v := by
  obtain ⟨ch, s, -, -, ⟨-, hr, -⟩ | hs⟩ := account_step hst
  · cases hr
  · simp only [accountAct, State.draw] at hs
    split at hs
    · rename_i hv
      split at hs
      · cases hs
      · simp only [Option.some.injEq, Prod.mk.injEq, Except.ok.injEq] at hs
        rw [← hs.1]
        exact hv
    · cases hs

end Steps

end ModDNS.Accounts
