import ModDNS.Profiles.Rows

/-!
# Requests on the profiles of an account

Creations, imports, deletions and patches: each lists the profiles of the account, and inserts,
deletes or renames afterwards.

* `follows_setJob`: what each of them has checked in its list.
* `change_cases`: the changes of the register that calls make.
-/

namespace ModDNS.Profiles

open Conc Data

section Jobs

variable {V : Type} (env : ServiceEnv) (casts : Casts V) (a : String)

/-- A request on the profiles of an account. -/
inductive SetJob (V : Type) where
  | create (name : String)
  | importProfiles (decode : String → Option String) (newID : ℕ → ℕ → RuleID) (mode : String)
      (payload : ExportEnvelope)
  | delete (profileId : String)
  | patch (newID : ℕ → RuleID) (profileId : String) (updates : List (ProfileUpdate V))

def SetJob.flow : SetJob V → ProfileFlow Unit
  | .create name => do let _ ← createProfile env name a
  | .importProfiles decode newID mode payload =>
    do let _ ← Profiles.importProfiles env decode a newID mode payload
  | .delete profileId => deleteProfile a profileId false
  | .patch newID profileId updates => do let _ ← updateProfile env casts newID a profileId updates

/-- The name is normal, and no listed profile has it. -/
def CheckedName (l : Acts) (n : String) : Prop :=
  (∃ name, n = normalizeName env name) ∧ ∃ L, lastListing l = some L ∧ n ∉ L.map (·.name)

/-- The calls of a creation. -/
def CreateCall (l : Acts) : ProfileOp → Prop
  | .createProfile p =>
    p.accountId = a ∧ inserted l = [] ∧ (∃ name, p.name = normalizeName env name) ∧
      ∃ L, lastListing l = some L ∧ L.length < env.maxProfiles ∧ p.name ∉ L.map (·.name)
  | .deleteProfileById _ | .findOneAndUpdate _ _ => False
  | .getProfilesByAccountId a' => a' = a
  | _ => True

/-- The calls of a deletion. -/
def DeleteCall (pid : String) (l : Acts) : ProfileOp → Prop
  | .deleteProfileById pid' => pid' = pid ∧ ∃ L, lastListing l = some L ∧ 1 < L.length
  | .createProfile _ | .findOneAndUpdate _ _ => False
  | .getProfilesByAccountId a' => a' = a
  | _ => True

/-- The calls of a PATCH that may rename. -/
def RenameCall (l : Acts) : ProfileOp → Prop
  | .findOneAndUpdate _ upd =>
    (∀ x ∈ l, IsRead x.1) ∧ ∀ n, upd.renames = some n → CheckedName env l n
  | .createProfile _ | .deleteProfileById _ => False
  | .getProfilesByAccountId a' => a' = a
  | _ => True

def SetCall (l : Acts) (o : ProfileOp) : SetJob V → Prop
  | .create _ => CreateCall env a l o
  | .importProfiles _ newID _ payload => ImportCall env a newID payload l o
  | .delete pid => DeleteCall a pid l o
  | .patch _ _ _ => RenameCall env a l o

end Jobs

section Follows

variable {V : Type} {env : ServiceEnv} {casts : Casts V} {a : String} {l : Acts}

theorem lastListing_append_of {l' : Acts} (h : ∀ x ∈ l', listingOf x = none) :
    lastListing (l ++ l') = lastListing l := by
  rw [lastListing_append]
  have hnone : lastListing l' = none := by
    unfold lastListing
    rw [List.filterMap_eq_nil_iff.2 h]
    rfl
  rw [hnone]
  rfl

theorem lastListing_concat {L : List Profile} :
    lastListing (l ++ [⟨.getProfilesByAccountId a, .ok L⟩]) = some L := by
  rw [lastListing_append]
  rfl

theorem not_taken {L : List Profile} {n : String} (h : nameTaken L n = false) :
    n ∉ L.map (·.name) := by
  unfold nameTaken at h
  rw [List.any_eq_false] at h
  intro hn
  obtain ⟨p, hp, rfl⟩ := List.mem_map.1 hn
  exact h p hp (decide_eq_true rfl)

theorem within_createSettings (pid : String) : Within AnyTime (createSettings pid) :=
  within_bind (within_act trivial) fun _ =>
    within_bind (within_settingsCache _) fun _ => within_pure

theorem follows_createProfile (name : String) :
    Follows (CreateCall env a) (fun _ _ => True) (createProfile env name a) [] := by
  unfold createProfile
  refine follows_ensure_bind (fun _ => trivial) fun _ =>
    follows_ensure_bind (fun _ => trivial) fun _ => ?_
  refine follows_act_bind trivial (fun _ => trivial) fun pid => ?_
  have hsettings : Follows (CreateCall env a) (fun l' _ => inserted l' = []) (createSettings pid)
      ([] ++ [⟨.generate, .ok pid⟩]) := by
    refine follows_within (within_createSettings pid) (fun l' o _ ho => ?_) fun l' r hl' _ => ?_
    · cases o <;> first | exact ho.elim | exact trivial
    · exact (sameSince_append hl').inserted
  refine follows_bind hsettings (fun _ _ _ _ => trivial) fun l₁ settings _ hnone => ?_
  refine follows_act_bind rfl (fun _ => trivial) fun profiles => ?_
  refine follows_ensure_bind (fun _ => trivial) fun hroom =>
    follows_ensure_bind (fun _ => trivial) fun hfree => ?_
  refine follows_act_bind ⟨rfl, ?_, ⟨name, rfl⟩, profiles, lastListing_concat, hroom,
    not_taken hfree⟩ (fun _ => trivial) fun _ =>
    follows_pure trivial
  rw [inserted_append, hnone]
  rfl

/-- The calls of the goroutines of a deletion. -/
def GoroutineCall (pid : String) : ProfileOp → Prop
  | .deleteProfileById pid' => pid' = pid
  | .deleteProfileQueryLogs _ | .turn => True
  | o => AnyTime o

theorem follows_deleteProfile (pid : String) :
    Follows (DeleteCall a pid) (fun _ _ => True) (deleteProfile a pid false) [] := by
  unfold deleteProfile
  have hvalidate : Follows (DeleteCall a pid) (fun _ _ => True)
      (validateProfileIdAffiliation a pid) [] := by
    refine follows_act_bind trivial (fun _ => trivial) fun stored =>
      follows_ensure_bind (fun _ => trivial) fun _ => ?_
    exact follows_pure trivial
  refine follows_bind hvalidate (fun _ _ _ _ => trivial) fun l₁ _ _ _ => ?_
  have hcheck : Follows (DeleteCall a pid)
    (fun l' r => r = .ok () → ∃ L, lastListing l' = some L ∧ 1 < L.length)
      (checkNotLast a false) l₁ := by
    refine follows_act_bind rfl (fun e h => nomatch h) fun profiles => ?_
    unfold ensure
    split
    · next hmany => exact follows_pure fun _ => ⟨profiles, lastListing_concat, hmany⟩
    · exact follows_throw fun h => nomatch h
  refine follows_bind hcheck (fun _ _ _ _ => trivial) fun l₂ _ _ hlisted => ?_
  obtain ⟨L, hL, hmany⟩ := hlisted rfl
  have hgroup : Within (GoroutineCall pid)
    (goroutines [call (.deleteProfileById pid), call (.deleteProfileQueryLogs pid),
      deleteProfileSettings pid]) := by
    refine within_group trivial (List.forall_mem_cons.2 ⟨within_act rfl, ?_⟩)
    refine List.forall_mem_cons.2 ⟨within_act trivial, List.forall_mem_singleton.2 ?_⟩
    exact within_mono (fun o ho => by cases o <;> first | exact ho.elim | exact trivial)
      (within_deleteSettings pid)
  refine follows_within hgroup (fun l' o hl' ho => ?_) fun _ _ _ _ => trivial
  cases o with
  | deleteProfileById pid' =>
    refine ⟨ho, L, (lastListing_append_of fun x hx => ?_).trans hL, hmany⟩
    obtain ⟨o, r⟩ := x
    have hcall := hl' _ hx
    cases o <;> first | exact hcall.elim | rfl
  | _ => first | exact ho.elim | exact trivial

/-- What the loop of a PATCH knows: it has only read, and a touched name is checked. -/
structure PatchKnows (env : ServiceEnv) (l : Acts) (p : Profile) (touched : List PatchPath) :
    Prop where
  reads : ∀ x ∈ l, IsRead x.1
  name : .name ∈ touched → CheckedName env l p.name

theorem PatchKnows.read {p : Profile} {touched : List PatchPath} {x : profileCalls.sig.Act}
    (h : PatchKnows env l p touched) (hread : IsRead x.1) (hx : listingOf x = none) :
    PatchKnows env (l ++ [x]) p touched := by
  refine ⟨fun y hy => ?_, fun hname => ?_⟩
  · rcases List.mem_append.1 hy with hy | hy
    · exact h.reads y hy
    · rw [List.mem_singleton.1 hy]
      exact hread
  · obtain ⟨hnormal, L, hL, hfree⟩ := h.name hname
    refine ⟨hnormal, L, ?_, hfree⟩
    rw [lastListing_append_of (List.forall_mem_singleton.2 hx)]
    exact hL

theorem follows_handleProfileNameUpdate {p : Profile} {touched : List PatchPath} {v : V}
    (h : PatchKnows env l p touched) :
    Follows (RenameCall env a) (fun l' r => ∀ q, r = .ok q → (∀ x ∈ l', IsRead x.1) ∧
      CheckedName env l' q.name)
      (handleProfileNameUpdate env casts p a v) l := by
  unfold handleProfileNameUpdate
  cases casts.toStringE v with
  | none => exact follows_throw fun q hq => nomatch hq
  | some n =>
    refine follows_ensure_bind (fun _ q hq => nomatch hq) fun _ =>
      follows_ensure_bind (fun _ q hq => nomatch hq) fun _ => ?_
    refine follows_act_bind rfl (fun e q hq => nomatch hq) fun profiles => ?_
    refine follows_ensure_bind (fun _ q hq => nomatch hq) fun hfree => follows_pure fun q hq => ?_
    cases hq
    refine ⟨fun x hx => ?_, ⟨n, rfl⟩, profiles, lastListing_concat, not_taken hfree⟩
    rcases List.mem_append.1 hx with hx | hx
    · exact h.reads x hx
    · rw [List.mem_singleton.1 hx]
      trivial

theorem follows_applyPatchOperation {p : Profile} {touched : List PatchPath} {u : ProfileUpdate V}
    (h : PatchKnows env l p touched) :
    Follows (RenameCall env a)
      (fun l' r => ∀ q, r = .ok q → PatchKnows env l' q
        (if u.operation = .replace ∧ u.path ∉ touched then touched ++ [u.path] else touched))
      (applyPatchOperation env casts a p u) l := by
  have hgrown : ∀ {l' : Acts} {q : Profile}, (∀ x ∈ l', IsRead x.1) →
    (.name ∈ touched ∨ u.path = .name → CheckedName env l' q.name) →
      PatchKnows env l' q (if u.operation = .replace ∧ u.path ∉ touched then touched ++ [u.path]
        else touched) := by
    intro l' q hreads hname
    refine ⟨hreads, fun hmem => hname ?_⟩
    split at hmem
    · rcases List.mem_append.1 hmem with hmem | hmem
      · exact .inl hmem
      · exact .inr (List.mem_singleton.1 hmem).symm
    · exact .inl hmem
  unfold applyPatchOperation
  by_cases hop : u.operation ≠ .replace
  · rw [if_pos hop]
    refine follows_pure fun q hq => ?_
    cases hq
    rw [if_neg fun hc => hop hc.1]
    exact h
  rw [if_neg hop]
  by_cases hname : u.path = .name
  · rw [if_pos hname]
    refine follows_mono (follows_handleProfileNameUpdate h) fun l' r _ hend q hq => ?_
    exact hgrown (hend q hq).1 fun _ => (hend q hq).2
  · rw [if_neg hname]
    cases hpatch : patchSetting casts p u.path (unwrapped casts u.value) with
    | error e => exact follows_throw fun q hq => nomatch hq
    | ok q =>
      refine follows_pure fun q' hq' => ?_
      cases hq'
      obtain ⟨v, hv, -, rfl⟩ : ∃ v, u.assigns env casts = some v ∧ _ := patchSetting_ok hname hpatch
      refine hgrown h.reads fun hmem => ?_
      have hkept : (p.set u.path v).value .name = p.value .name := value_set_ne p v (Ne.symm hname)
      have hsame : (p.set u.path v).name = p.name := FieldValue.text.inj hkept
      rw [hsame]
      exact h.name (hmem.resolve_right hname)

theorem follows_applyPatchLoop {updates : List (ProfileUpdate V)} {p : Profile}
    {touched : List PatchPath} (h : PatchKnows env l p touched) :
    Follows (RenameCall env a) (fun l' r => ∀ x, r = .ok x → PatchKnows env l' x.1 x.2)
      (applyPatchLoop env casts a updates p touched) l := by
  induction updates generalizing p touched l with
  | nil =>
    refine follows_pure fun x hx => ?_
    cases hx
    exact h
  | cons u updates ih =>
    refine follows_bind (follows_applyPatchOperation h) (fun l' e _ _ x hx => nomatch hx)
      fun l' q _ hq => ?_
    exact ih (hq q rfl)

theorem renames_fieldsUpdate {newID : ℕ → RuleID} {now : ℕ} {touched : List PatchPath}
    {p : Profile} {n : String} (h : (fieldsUpdate env newID now touched p).renames = some n) :
    .name ∈ touched ∧ n = p.name := by
  obtain ⟨f, hf, hn⟩ := List.mem_filterMap.1 (List.mem_of_getLast? h)
  obtain ⟨path, hpath, rfl⟩ := List.mem_map.1 hf
  cases path <;> first | (cases hn; exact ⟨hpath, rfl⟩) | cases hn

theorem follows_updateProfile {newID : ℕ → RuleID} {pid : String}
    {updates : List (ProfileUpdate V)} :
    Follows (RenameCall env a) (fun _ _ => True)
    (updateProfile env casts newID a pid updates) [] := by
  unfold updateProfile
  have hvalidate : Follows (RenameCall env a) (fun l' r => ∀ p, r = .ok p → PatchKnows env l' p [])
      (validateProfileIdAffiliation a pid) [] := by
    refine follows_act_bind trivial (fun e p hp => nomatch hp) fun stored => ?_
    refine follows_ensure_bind (fun _ p hp => nomatch hp) fun _ => follows_pure fun p hp => ?_
    refine ⟨List.forall_mem_singleton.2 trivial, fun hname => nomatch hname⟩
  refine follows_bind hvalidate (fun _ _ _ _ => trivial) fun l₁ stored _ hstored => ?_
  refine follows_bind (follows_applyPatchLoop (hstored stored rfl)) (fun _ _ _ _ => trivial) ?_
  rintro l₂ ⟨profile, touched⟩ - hknows
  have hknown := hknows (profile, touched) rfl
  dsimp only at hknown ⊢
  split
  · exact follows_pure trivial
  refine follows_act_bind trivial (fun _ => trivial) fun now => ?_
  have hnow := hknown.read (x := ⟨.now, .ok now⟩) trivial rfl
  refine follows_act_bind ⟨hnow.reads, fun n hn => ?_⟩ (fun _ => trivial) fun before => ?_
  · obtain ⟨htouched, rfl⟩ := renames_fieldsUpdate hn
    exact hnow.name htouched
  refine follows_act_bind trivial (fun _ => trivial) fun after => ?_
  have hcache : ∀ {α : Type} {p : ProfileFlow α} {l : Acts}, Within AnyTime p →
      Follows (RenameCall env a) (fun _ _ => True) p l := by
    intro α p l hp
    refine follows_within hp (fun l' o _ ho => ?_) fun _ _ _ _ => trivial
    cases o <;> first | exact ho.elim | exact trivial
  refine follows_attempt_bind (hcache (within_pipeline fun _ _ => trivial)) fun l₃ cacheErr _ _ =>
    ?_
  refine follows_attempt_bind (hcache (within_pipeline fun _ _ => trivial)) fun l₄ addErr _ _ => ?_
  split
  · exact follows_throw trivial
  · exact follows_throw trivial
  · exact follows_pure trivial

/-- **The requests**: what each of them has checked. -/
theorem follows_setJob (J : SetJob V) :
    Follows (fun l o => SetCall env a l o J) (fun _ _ => True) (J.flow env casts a) [] := by
  cases J with
  | create name =>
    exact follows_bind (follows_createProfile name) (fun _ _ _ _ => trivial) fun _ _ _ _ =>
      follows_pure trivial
  | importProfiles decode newID mode payload =>
    exact follows_bind (follows_importProfiles mode) (fun _ _ _ _ => trivial) fun _ _ _ _ =>
      follows_pure trivial
  | delete pid => exact follows_deleteProfile pid
  | patch newID pid updates =>
    exact follows_bind follows_updateProfile (fun _ _ _ _ => trivial) fun _ _ _ _ =>
      follows_pure trivial

def SetJob.Imports : SetJob V → Prop
  | .importProfiles _ _ _ _ => True
  | _ => False

variable {J : SetJob V} {l' : Acts}

/-- What the insertion of a profile relies on. -/
theorem setCall_add {p : Profile} (h : SetCall env a l (.createProfile p) J) :
    ∃ L, lastListing l = some L ∧ L.length + (inserted l).length < env.maxProfiles ∧
      (∃ name, p.name = normalizeName env name) ∧
      ((p.name ∉ L.map (·.name) ∧ inserted l = []) ∨
        (J.Imports ∧ (p.name ∉ takenNames env L l ∨
          LastResort env (takenNames env L l) p.name))) := by
  cases J with
  | create name =>
    obtain ⟨-, hnone, hnormal, L, hL, hroom, hfree⟩ := h
    refine ⟨L, hL, ?_, hnormal, .inl ⟨hfree, hnone⟩⟩
    rw [hnone]
    exact hroom
  | importProfiles decode newID mode payload =>
    obtain ⟨L, ⟨hL, hroom, -⟩, resolved, hname, hchecked⟩ := h.checked
    refine ⟨L, hL, ?_, ⟨resolved, hname⟩, .inr ⟨trivial, hchecked⟩⟩
    have hfits := h.fits
    omega
  | delete pid => exact h.elim
  | patch newID pid updates => exact h.elim

/-- Who inserts does not rename. -/
theorem setCall_add_update {p : Profile} {pid : String} {upd : ProfileFieldsUpdate}
    (h : SetCall env a l (.createProfile p) J) :
    ¬ SetCall env a l' (.findOneAndUpdate pid upd) J := by
  cases J with
  | create name => exact id
  | importProfiles decode newID mode payload => exact id
  | delete pid => exact h.elim
  | patch newID pid updates => exact h.elim

/-- What a renaming relies on. -/
theorem setCall_update {pid : String} {upd : ProfileFieldsUpdate}
    (h : SetCall env a l (.findOneAndUpdate pid upd) J) :
    (∀ x ∈ l, IsRead x.1) ∧ ∀ n, upd.renames = some n → CheckedName env l n := by
  cases J with
  | patch newID pid updates => exact h
  | create name => exact h.elim
  | importProfiles decode newID mode payload => exact h.elim
  | delete pid => exact h.elim

/-- What the deletion of a profile relies on. -/
theorem setCall_drop {pid : String} (h : SetCall env a l (.deleteProfileById pid) J) :
    (¬ J.Imports ∧ ∃ L, lastListing l = some L ∧ 1 < L.length ∧
        ∀ l' pid', SetCall env a l' (.deleteProfileById pid') J → pid' = pid) ∨
      (J.Imports ∧ ∃ p, (⟨.createProfile p, .ok ()⟩ : profileCalls.sig.Act) ∈ l ∧
        p.profileId = pid) := by
  cases J with
  | delete pid' =>
    obtain ⟨rfl, L, hL, hmany⟩ := h
    exact .inl ⟨id, L, hL, hmany, fun _ _ h' => h'.1⟩
  | importProfiles decode newID mode payload => exact .inr ⟨trivial, h⟩
  | create name => exact h.elim
  | patch newID pid updates => exact h.elim

/-- An import lists first. -/
theorem setCall_listing {a' : String} (h : SetCall env a l (.getProfilesByAccountId a') J) :
    a' = a ∧ (J.Imports → l = []) := by
  cases J with
  | importProfiles decode newID mode payload => exact ⟨h.1, fun _ => h.2⟩
  | create name => exact ⟨h, fun h' => h'.elim⟩
  | delete pid => exact ⟨h, fun h' => h'.elim⟩
  | patch newID pid updates => exact ⟨h, fun h' => h'.elim⟩

end Follows

section Changes

variable {a : String}

/-- The changes of a register that calls make. -/
theorem change_cases (x : profileCalls.sig.Act) :
    change a x = .none ∨
      (∃ p, x.1 = .createProfile p ∧ TookEffect x.2 ∧ change a x = .add p.profileId p.name) ∨
      (∃ pid, x.1 = .deleteProfileById pid ∧ change a x = .drop pid) ∨
      ∃ pid upd n, x.1 = .findOneAndUpdate pid upd ∧ upd.renames = some n ∧
      change a x = .rename pid n := by
  obtain ⟨o, r⟩ := x
  unfold change
  split
  · next htook =>
    cases o with
    | createProfile p =>
      unfold ProfileOp.change
      dsimp only
      split
      · exact .inr (.inl ⟨p, rfl, htook, rfl⟩)
      · exact .inl rfl
    | deleteProfileById pid => exact .inr (.inr (.inl ⟨pid, rfl, rfl⟩))
    | findOneAndUpdate pid upd =>
      unfold ProfileOp.change
      dsimp only
      cases hn : upd.renames with
      | none => exact .inl rfl
      | some n => exact .inr (.inr (.inr ⟨pid, upd, n, rfl, hn, rfl⟩))
    | _ => exact .inl rfl
  · exact .inl rfl

theorem change_read {x : profileCalls.sig.Act} (h : IsRead x.1) : change a x = .none := by
  rcases change_cases (a := a) x with hc | ⟨p, hop, -⟩ | ⟨pid, hop, -⟩ | ⟨pid, upd, n, hop, -⟩
  · exact hc
  all_goals
    rw [hop] at h
    exact h.elim

theorem drops_op {x : profileCalls.sig.Act} {k : String} (h : (change a x).Drops k) :
    ∃ pid, x.1 = .deleteProfileById pid ∧ pid = k := by
  rcases change_cases (a := a) x with hc | ⟨p, -, -, hc⟩ | ⟨pid, hop, hc⟩ | ⟨pid, upd, n, -, -, hc⟩
  · rw [hc] at h
    exact h.elim
  · rw [hc] at h
    exact h.elim
  · rw [hc] at h
    exact ⟨pid, hop, h⟩
  · rw [hc] at h
    exact h.elim

theorem renames_op {x : profileCalls.sig.Act} (h : (change a x).Renames) :
    ∃ pid upd, x.1 = .findOneAndUpdate pid upd := by
  rcases change_cases (a := a) x with hc | ⟨p, -, -, hc⟩ | ⟨pid, -, hc⟩ | ⟨pid, upd, n, hop, -, hc⟩
  · rw [hc] at h
    exact h.elim
  · rw [hc] at h
    exact h.elim
  · rw [hc] at h
    exact h.elim
  · exact ⟨pid, upd, hop⟩

/-- What a call adds to the register is the row of a profile that it inserts. -/
theorem added_inserted {x : profileCalls.sig.Act} {row : String × String}
    (h : (change a x).added = some row) :
    (insertedBy x).map Profile.row = some row := by
  obtain ⟨o, r⟩ := x
  rcases change_cases (a := a) ⟨o, r⟩ with hc | ⟨p, hop, -, hc⟩ | ⟨pid, -, hc⟩ | ⟨pid,
    upd, n, -, -, hc⟩
  · rw [hc] at h
    cases h
  · rw [hc] at h
    cases hop
    exact h
  · rw [hc] at h
    cases h
  · rw [hc] at h
    cases h

end Changes

end ModDNS.Profiles
