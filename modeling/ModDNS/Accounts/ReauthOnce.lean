import ModDNS.Accounts.Runs

/-!
# Reauthentication tokens

* `reauth_once`: a token authorises one request, of its own purpose and before its expiry, and never
  comes back, in every run in which no account is written back from a copy with a token that is no
  longer stored.
* `exports_share_token`: two exports that overlap go through by the same token.
-/

namespace ModDNS.Accounts

open Conc Relation

variable {ι : Type} {env : Env} {ok : State → Event AccountSig ι → Prop} {s : State}
  {jobs : ι → Job} {P Q : AccountPool ι} {e : Event AccountSig ι} {es : List (Event AccountSig ι)}
  {id : ObjectID} {r : Reauth}

def Token.isReauth (t : Token) : Bool :=
  match t.type with
  | .reauth _ => true
  | _ => false

/-- The account that the action has begun to purge. -/
def purged : Act → Option ObjectID
  | ⟨.external (.deleteCredentials id), .ok _⟩ => some id
  | _ => none

theorem mem_purged {x : Act} : id ∈ purged x ↔ x = ⟨.external (.deleteCredentials id), .ok ()⟩ := by
  constructor
  · intro h
    unfold purged at h
    split at h
    · cases h; rfl
    · cases h
  · rintro rfl; rfl

instance (loaded acc : Account) : Decidable (Spends r loaded acc) :=
  inferInstanceAs (Decidable ((∃ t ∈ loaded.tokens, r.Of t) ∧ ∀ t ∈ acc.tokens, ¬ r.Of t))

/-- A write that consumes the token of the account `id`. -/
def Consumes (id : ObjectID) (r : Reauth) (e : Event AccountSig ι) : Prop :=
  ∃ w ∈ written (actOf e), w.2.id = id ∧ Spends r w.1 w.2

instance (e : Event AccountSig ι) : Decidable (Consumes id r e) :=
  inferInstanceAs (Decidable (∃ w ∈ written (actOf e), _))

/-- The request goes through by the token that it presents: a deletion begins, or the token is
consumed. -/
def Authorises (jobs : ι → Job) (id : ObjectID) (r : Reauth) (e : Event AccountSig ι) : Prop :=
  r ∈ (jobs e.who).reauths ∧ if r.1 = .accountDeletion then id ∈ purged (actOf e)
    else Consumes id r e

instance (e : Event AccountSig ι) : Decidable (Authorises jobs id r e) :=
  inferInstanceAs (Decidable (_ ∧ ite _ _ _))

/-- The request has loaded an account that has the token. -/
def FindsToken [DecidableEq ι] (es : List (Event AccountSig ι)) (r : Reauth) (i : ι) : Prop :=
  ∃ id acc, (⟨.getAccountById id, .ok acc⟩ : Act) ∈ trace i es ∧ ∃ t ∈ acc.tokens, r.Of t

/-- Reauthentications are used at most once, after the events `es`. -/
structure UsedOnce [DecidableEq ι] (jobs : ι → Job) (es : List (Event AccountSig ι))
    (Q : AccountPool ι) : Prop where
  /-- A token authorises at most one request. -/
  once : ∀ id r, ∀ e ∈ es, ∀ e' ∈ es, Authorises jobs id r e → Authorises jobs id r e' →
    e.who = e'.who
  consumed : es.Pairwise fun e e' => ∀ id r, Consumes id r e → ¬ Consumes id r e'
  /-- A token that has been consumed is not stored again. -/
  gone : ∀ e ∈ es, ∀ id r, Consumes id r e → ∀ d, Q.state.accounts.get id = some d →
    ∀ t ∈ d.tokens, ¬ r.Of t
  /-- The token was one of that purpose, and the flow has seen that it was not expired. -/
  proper : ∀ es₁ e es₂ id r, es = es₁ ++ e :: es₂ → Authorises jobs id r e →
    ∃ acc, Seen (trace e.who es₁) acc ∧ ∃ t ∈ acc.tokens, r.Of t ∧
      ReadBy (trace e.who es₁) t.expiresAt
  /-- A request that succeeds has been authorised by every token that it presents. -/
  needed : ∀ i, Q.prog i = .pure (.ok ()) → ∀ r ∈ (jobs i).reauths, ∃ e ∈ es, e.who = i ∧
    ∃ id, Authorises jobs id r e

/-- An account is written back from a copy all of whose reauthentication tokens are still stored. -/
def TokensStored (s : State) (e : Event AccountSig ι) : Prop :=
  ∀ w ∈ written (actOf e), ∀ t ∈ w.1.tokens, t.isReauth → ∃ d ∈ s.accounts.get w.2.id, t ∈ d.tokens

instance (s : State) (e : Event AccountSig ι) : Decidable (TokensStored s e) :=
  inferInstanceAs (Decidable (∀ w ∈ written (actOf e), ∀ t ∈ w.1.tokens, t.isReauth →
    ∃ d ∈ s.accounts.get w.2.id, t ∈ d.tokens))

section Changes

variable {J : Job} {l : List Act} {loaded acc : Account} {t : Token}

theorem Reauth.Of.isReauth (h : r.Of t) : t.isReauth := by
  unfold Token.isReauth
  rw [h.1]

theorem Reauth.Of.unique {r' : Reauth} (h : r.Of t) (h' : r'.Of t) : r = r' := by
  have h1 := h.1.symm.trans h'.1
  simp only [TokenType.reauth.injEq] at h1
  exact Prod.ext h1 (h.2.symm.trans h'.2)

/-- Where the reauthentication tokens of a written account come from. -/
theorem change_tokens (h : Change J l loaded acc) (ht : t ∈ acc.tokens) (hre : t.isReauth) :
    t ∈ loaded.tokens ∨ (⟨.generateSecureToken 48, .ok t.value⟩ : Act) ∈ l ∧ Unwritten l := by
  cases h with
  | edits hedit => exact .inl ((edits_tokens hedit).subset ht)
  | issue t' _ _ hdraw hnew =>
    rcases List.mem_append.1 ht with ht | ht
    · exact .inl ht
    · rw [List.mem_singleton.1 ht]
      exact .inr ⟨hdraw, hnew⟩
  | issueOTP t' htype _ _ =>
    rcases List.mem_append.1 ht with ht | ht
    · exact .inl (List.mem_filter.1 ht).1
    · rw [List.mem_singleton.1 ht, Token.isReauth, htype] at hre
      cases hre
  | verifyEmail t' _ _ _ _ => exact .inl (List.mem_filter.1 ht).1
  | resetPassword v hash => exact .inl (List.mem_filter.1 ht).1
  | _ => exact .inl ht

/-- A token that edits take away has been presented, and was not expired. -/
theorem edits_spend (h : Edits J l loaded acc) (ht : t ∈ loaded.tokens) (hof : r.Of t) :
    t ∈ acc.tokens ∨ r ∈ J.reauths ∧ ReadBy l t.expiresAt := by
  induction h with
  | refl => exact .inl ht
  | tail _ hab ih =>
    rcases ih with ih | ih
    · cases hab with
      | consent b => exact .inl ih
      | password hash => exact .inl ih
      | email email =>
        refine .inl (List.mem_filter.2 ⟨ih, ?_⟩)
        rw [hof.1]
        rfl
      | reauth r' hr' _ hexp =>
        by_cases hof' : r'.Of t
        · obtain rfl := hof.unique hof'
          exact .inr ⟨hr', hexp t ih hof'⟩
        · exact .inl (List.mem_filter.2 ⟨ih, by simpa using hof'⟩)
    · exact .inr ih

theorem change_spend (h : Change J l loaded acc) (ht : t ∈ loaded.tokens) (hof : r.Of t) :
    t ∈ acc.tokens ∨ r ∈ J.reauths ∧ ReadBy l t.expiresAt := by
  cases h with
  | edits hedit => exact edits_spend hedit ht hof
  | issue t' _ _ _ _ => exact .inl (List.mem_append_left _ ht)
  | issueOTP t' htype _ _ =>
    refine .inl (List.mem_append_left _ (List.mem_filter.2 ⟨ht, ?_⟩))
    rw [hof.1]
    rfl
  | verifyEmail t' _ _ _ _ =>
    refine .inl (List.mem_filter.2 ⟨ht, ?_⟩)
    rw [hof.1]
    rfl
  | resetPassword v hash =>
    refine .inl (List.mem_filter.2 ⟨ht, ?_⟩)
    rw [hof.1]
    simp
  | _ => exact .inl ht

/-- The token that a write consumes is in a copy that the flow has seen. -/
theorem consumes_seen (hA : Allowed J l e.op) (hc : Consumes id r e) :
    ∃ acc, Seen l acc ∧ ∃ t ∈ acc.tokens, r.Of t ∧ r ∈ J.reauths ∧ ReadBy l t.expiresAt := by
  obtain ⟨⟨loaded, acc⟩, hw, -, ⟨t, ht, hof⟩, hno⟩ := hc
  obtain ⟨i, o, a⟩ := e
  cases mem_written.1 hw
  rcases change_spend hA.2 ht hof with hkept | ⟨hR, hread⟩
  · exact absurd hof (hno t hkept)
  · exact ⟨loaded, hA.1, t, ht, hof, hR, hread⟩

end Changes

section Published

variable [DecidableEq ι]

/-- The flow that has drawn the token has written an account since. -/
def Published (es : List (Event AccountSig ι)) (v : String) : Prop :=
  ∃ i, (∃ x ∈ trace i es, Draws v x) ∧ ¬ Unwritten (trace i es)

theorem Published.mono {v : String} (h : Published es v) : Published (es ++ [e]) v := by
  obtain ⟨i, ⟨x, hx, hv⟩, hw⟩ := h
  have hsub : trace i es <+: trace i (es ++ [e]) := by
    rw [trace_append]
    exact List.prefix_append _ _
  exact ⟨i, ⟨x, hsub.subset hx, hv⟩, fun hnew => hw fun y hy => hnew y (hsub.subset hy)⟩

theorem tokens_whole : WholeField Account.tokens :=
  ⟨fun _ _ => rfl, fun _ _ _ => rfl, fun _ _ => rfl⟩

/-- The reauthentication tokens of every copy have been published. -/
theorem run_published (h0 : s.accounts.docs = [])
    (hr : Run (accountHandler env) ok (start env s jobs) es Q) :
    ∀ acc, Copy es Q.state acc → ∀ t ∈ acc.tokens, t.isReauth → Published es t.value := by
  refine run_copies (K := fun es _ ts => ∀ t ∈ ts, t.isReauth → Published es t.value) tokens_whole
    ?_ ?_ ?_ ?_ hr
  · intro es e id ts h t ht hre
    exact (h t ht hre).mono
  · intro es acc _ htok _ t ht
    rw [htok] at ht
    cases ht
  · intro es Q i loaded acc hr h hchange t ht hre
    rcases change_tokens hchange ht hre with hold | ⟨hdraw, -⟩
    · exact (h t hold hre).mono
    · refine ⟨i, ⟨⟨.generateSecureToken 48, .ok t.value⟩, ?_, rfl⟩, fun hnew => ?_⟩
      · rw [trace_snoc, if_pos rfl]
        exact List.mem_append_left _ hdraw
      · refine hnew ⟨.updateAccount loaded acc, .ok ()⟩ ?_ loaded acc rfl
        rw [trace_snoc, if_pos rfl]
        exact List.mem_concat_self
  · intro acc hacc
    have hmem := Collection.mem_of_get hacc
    rw [h0] at hmem
    cases hmem

/-- A token that has been published is not issued again. -/
theorem step_gone (hr : Run (accountHandler env) ok (start env s jobs) es P)
    (hpub : Published es r.2) (hA : Allowed (jobs e.who) (trace e.who es) e.op)
    (hok : TokensStored P.state e) (hst : Step (accountHandler env) P e Q)
    (hgone : ∀ d, P.state.accounts.get id = some d → ∀ t ∈ d.tokens, ¬ r.Of t) :
    ∀ d, Q.state.accounts.get id = some d → ∀ t ∈ d.tokens, ¬ r.Of t := by
  intro d hd t ht hof
  rcases step_field tokens_whole hst hd with ⟨d₀, hd₀, htok⟩ | ⟨w, hw, hid, htok, -⟩ | ⟨hnew, -⟩
  · rw [htok] at ht
    exact hgone d₀ hd₀ t ht hof
  · rw [htok] at ht
    have hstored := hok w hw
    obtain ⟨i, o, a⟩ := e
    cases mem_written.1 hw
    rcases change_tokens hA.2 ht hof.isReauth with hold | ⟨hdraw, hunw⟩
    · obtain ⟨d₀, hd₀, ht₀⟩ := hstored t hold hof.isReauth
      exact hgone d₀ (by rw [← hid]; exact hd₀) t ht₀ hof
    · -- the flow that issues it is the one that has published it
      obtain ⟨j, ⟨x, hx, hxv⟩, hj⟩ := hpub
      rw [← hof.2] at hxv
      obtain rfl := draws_unique hr hdraw rfl hx hxv
      exact hj hunw
  · obtain ⟨i, o, a⟩ := e
    cases mem_created.1 hnew
    rw [hA.2.1] at ht
    cases ht

/-- The write that consumes a token. -/
theorem step_consumes (hst : Step (accountHandler env) P e Q) (hc : Consumes id r e) :
    ∀ d, Q.state.accounts.get id = some d → ∀ t ∈ d.tokens, ¬ r.Of t := by
  intro d hd
  obtain ⟨⟨loaded, acc⟩, hw, hid, hspend⟩ := hc
  obtain ⟨i, o, a⟩ := e
  cases mem_written.1 hw
  have hget := step_get hst id
  simp only [docAfter, if_pos hid.symm, hd] at hget
  obtain ⟨d₀, -, rfl⟩ := Option.map_eq_some_iff.1 hget.symm
  exact hspend.2

/-- **Consumed once.** A consumed token has been published, and is no longer stored. -/
theorem run_consumed (h0 : s.accounts.docs = [])
    (hr : Run (accountHandler env) TokensStored (start env s jobs) es Q) :
    (∀ e ∈ es, ∀ id r, Consumes id r e → Published es r.2 ∧
        ∀ d, Q.state.accounts.get id = some d → ∀ t ∈ d.tokens, ¬ r.Of t) ∧
      es.Pairwise fun e e' => ∀ id r, Consumes id r e → ¬ Consumes id r e' := by
  refine run_ind_jobs (I := fun es Q => (∀ e ∈ es, ∀ id r, Consumes id r e → Published es r.2 ∧
      ∀ d, Q.state.accounts.get id = some d → ∀ t ∈ d.tokens, ¬ r.Of t) ∧
    es.Pairwise fun e e' => ∀ id r, Consumes id r e → ¬ Consumes id r e') ⟨by simp, .nil⟩ ?_ hr
  rintro es P e Q hr ⟨ih, hpair⟩ hA hok hst
  refine ⟨fun e' he' id r hc => ?_, ?_⟩
  · rcases List.mem_append.1 he' with he' | he'
    · obtain ⟨hpub, hgone⟩ := ih e' he' id r hc
      exact ⟨hpub.mono, step_gone hr hpub hA hok hst hgone⟩
    · obtain rfl := List.mem_singleton.1 he'
      obtain ⟨acc, hseen, t, ht, hof, -, -⟩ := consumes_seen hA hc
      have hpub := run_published h0 hr acc (.inr ⟨_, hseen⟩) t ht hof.isReauth
      rw [hof.2] at hpub
      exact ⟨hpub.mono, step_consumes hst hc⟩
  · rw [List.pairwise_append]
    refine ⟨hpair, List.pairwise_singleton _ _, fun e₁ he₁ e₂ he₂ id r hc₁ hc₂ => ?_⟩
    obtain rfl := List.mem_singleton.1 he₂
    -- the copy that it was made from has the token, so that it is still stored
    obtain ⟨w, hw, hid, ⟨t, ht, hof⟩, -⟩ := hc₂
    obtain ⟨d, hd, htd⟩ := hok w hw t ht hof.isReauth
    exact (ih e₁ he₁ id r hc₁).2 d (by rw [← hid]; exact hd) t htd hof

end Published

section Once

variable [DecidableEq ι]

/-- A deletion that begins has found the token that it presents. -/
theorem run_deletes (hr : Run (accountHandler env) ok (start env s jobs) es Q) (he : e ∈ es)
    (hr1 : r.1 = .accountDeletion) (hauth : Authorises jobs id r e) : FindsToken es r e.who := by
  obtain ⟨hR, hact⟩ := hauth
  rw [if_pos hr1] at hact
  obtain ⟨es₁, es₂, rfl⟩ := List.append_of_mem he
  have hA := run_allowed hr
  obtain ⟨i, o, a⟩ := e
  cases mem_purged.1 hact
  obtain ⟨acc, t, hload, ht, hof, -⟩ := hA r hR
  refine ⟨id, acc, ?_, t, ht, hof⟩
  rw [trace_append]
  exact List.mem_append_left _ hload

/-- **A reauthentication is used at most once**, in every run in which every account is written back
from a copy whose tokens are still stored, and of the account deletions that present one token only
one finds it. -/
theorem reauth_once (env : Env) (jobs : ι → Job)
    (hr : Run (accountHandler env) TokensStored (start env .initial jobs) es Q)
    (hdel : ∀ r : Reauth, r.1 = .accountDeletion → ∀ i j, r ∈ (jobs i).reauths →
      r ∈ (jobs j).reauths →
      FindsToken es r i → FindsToken es r j → i = j) : UsedOnce jobs es Q := by
  -- a token that was consumed is gone for every write after it
  obtain ⟨hgone, hpair⟩ := run_consumed rfl hr
  refine ⟨fun id r e he e' he' ha ha' => ?_, hpair,
    fun e he id r hc => (hgone e he id r hc).2, ?_, ?_⟩
  -- an account deletion deletes the account, the others delete the token
  · by_cases hr1 : r.1 = .accountDeletion
    · exact hdel r hr1 e.who e'.who ha.1 ha'.1 (run_deletes hr he hr1 ha)
        (run_deletes hr he' hr1 ha')
    · have hc := ha.2
      have hc' := ha'.2
      rw [if_neg hr1] at hc hc'
      by_contra hne
      have : Std.Symm fun e e' : Event AccountSig ι =>
        ∀ id r, Consumes id r e → ¬ Consumes id r e' :=
        ⟨fun _ _ h id r h1 h2 => h id r h2 h1⟩
      exact hpair.forall he he' (fun heq => hne (congrArg Event.who heq)) id r hc hc'
  -- what is consumed was read from the account, and fits
  · rintro es₁ e es₂ id r rfl ⟨hR, hact⟩
    have hA := run_allowed hr
    split at hact
    · obtain ⟨i, o, a⟩ := e
      cases mem_purged.1 hact
      obtain ⟨acc, t, hload, ht, hof, hread⟩ := hA r hR
      exact ⟨acc, ⟨_, hload, .inl rfl⟩, t, ht, hof, hread⟩
    · obtain ⟨acc, hseen, t, ht, hof, -, hread⟩ := consumes_seen hA hact
      exact ⟨acc, hseen, t, ht, hof, hread⟩
  -- a call that has ended well has consumed what it was shown
  · intro i hi r hR
    have hused := (run_used hr hi).2 r hR
    unfold Used at hused
    split at hused
    · rename_i hr1
      obtain ⟨id, hm⟩ := hused
      refine ⟨_, mem_trace.1 hm, rfl, id, hR, ?_⟩
      rw [if_pos hr1]
      exact mem_purged.2 rfl
    · rename_i hr1
      obtain ⟨x, hm, w, hw, hspend⟩ := hused
      refine ⟨_, mem_trace.1 hm, rfl, w.2.id, hR, ?_⟩
      rw [if_neg hr1]
      exact ⟨w, hw, rfl, hspend⟩

end Once

section Examples

/-- Two exports by one token. -/
def exportJobs : Fin 4 → Job
  | 0 => .signup "a@x" "Password1234!" "session"
  | 1 => .finishReauth 1 "ceremony"
  | _ => .exportProfiles 1 none (some "T") ⟨""⟩

/-- The choices of `FinishReauth` for an export. -/
def reauthChoices : List Choice :=
  [{ answer with ceremony := some ⟨.reauth, 1, some .profileExport⟩ }, answer, answer, answer,
    answerStr "T", answer]

/-- The first export ends before the second begins. -/
def exportsInTurn : List (Fin 4 × Choice) :=
  goes (thread 0) (signupChoices "Password1234!") ++ goes (thread 1) reauthChoices ++ steps
    (thread 2) 4 ++ steps (thread 3) 1

set_option maxRecDepth 4000 in
theorem exportsInTurn_plays :
    (play (accountHandler exampleEnv) TokensStored exportsInTurn
      (start exampleEnv .initial exportJobs)).isSome := by
  decide

theorem reauth_once_inTurn : UsedOnce exportJobs
    ((play (accountHandler exampleEnv) TokensStored exportsInTurn
      (start exampleEnv .initial exportJobs)).get
      exportsInTurn_plays).1
    ((play (accountHandler exampleEnv) TokensStored exportsInTurn
      (start exampleEnv .initial exportJobs)).get
      exportsInTurn_plays).2 := by
  refine reauth_once exampleEnv exportJobs (run_play exportsInTurn_plays) ?_
  have hnone : ∀ i, ∀ r ∈ (exportJobs i).reauths, r.1 ≠ .accountDeletion := by decide
  intro r hr1 i j hi
  exact absurd hr1 (hnone i r hi)

/-- Both exports load the account before either writes it. -/
def exportsOverlap : List (Fin 4 × Choice) :=
  goes (thread 0) (signupChoices "Password1234!") ++ goes (thread 1) reauthChoices ++ steps
    (thread 2) 1 ++ steps (thread 3) 1 ++ steps (thread 2) 3 ++ steps (thread 3) 3

set_option maxRecDepth 4000 in
theorem exportsOverlap_plays :
    (play (accountHandler exampleEnv) Free exportsOverlap
      (start exampleEnv .initial exportJobs)).isSome := by decide

theorem not_usedOnce [DecidableEq ι] (id : ObjectID) (r : Reauth) {i j : ι} (hij : i ≠ j)
    (hi : ∃ e ∈ es, e.who = i ∧ Authorises jobs id r e)
    (hj : ∃ e ∈ es, e.who = j ∧ Authorises jobs id r e) :
    ¬ UsedOnce jobs es Q := by
  intro h
  obtain ⟨e, he, rfl, ha⟩ := hi
  obtain ⟨e', he', rfl, ha'⟩ := hj
  exact hij (h.once id r e he e' he' ha ha')

set_option maxRecDepth 4000 in
/-- Both exports go through by the one token, and no account deletion is involved. -/
theorem exports_share_token :
    ∃ es Q, Run (accountHandler exampleEnv) Free (start exampleEnv .initial exportJobs) es Q ∧
      (∀ i, (Q.prog i).result.isSome) ∧ ¬ UsedOnce exportJobs es Q := by
  refine ⟨_, _, run_play exportsOverlap_plays, by decide, ?_⟩
  have hij : (2 : Fin 4) ≠ 3 := by decide
  exact not_usedOnce 1 (.profileExport, "T") hij (by decide) (by decide)

end Examples

end ModDNS.Accounts
