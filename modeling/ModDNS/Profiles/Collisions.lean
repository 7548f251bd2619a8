import ModDNS.Profiles.Creation
import ModDNS.Profiles.ProfileSet

/-!
# Drawn ids that collide

An id is the number of a millisecond, and a generator gives each number once. Generators of other
instances, or of the same one before it was started again, know nothing of it. `CreateProfile`
writes to Redis under the id that it has drawn before its document is stored; `Import` stores the
document first.

* `own_step`: a step changes a stored profile only if its call has stored it, or is a creation that
  has drawn its id.
* `creations_undisturbed`: so no profile is disturbed, unless a creation draws the id of another
  one.
* `colliding_creation`: a creation that does takes the settings of the other profile away.
-/

namespace ModDNS.Profiles

open Conc

section Generator

/-- `SquidsGenerator`: the last number that was given. -/
structure SquidsGenerator where
  last : ℕ

/-- `Generate`, at the time `now` in milliseconds, up to the encoding of the number. -/
def SquidsGenerator.generate (gen : SquidsGenerator) (now : ℕ) : SquidsGenerator :=
  if now ≤ gen.last then ⟨gen.last + 1⟩ else ⟨now⟩

/-- The stores, and the generators of the instances. -/
structure Platform (κ : Type) where
  stores : Stores
  gens : κ → SquidsGenerator

variable {ι κ : Type} [DecidableEq κ]

/-- The calls of the threads, each on an instance. The environment chooses what the clock of the
instance shows, too. -/
def platformHandler (encode : ℕ → String) (instanceOf : ι → κ) :
    Handler profileCalls.sig ι (Platform κ) (Choice × ℕ) :=
  fun i o c s =>
    match o with
    | .generate =>
      let gen := (s.gens (instanceOf i)).generate c.2
      let drawn : Except ServiceErr String :=
        match c.1 with
        | .fail applied => .error (.store applied)
        | _ => .ok (encode gen.last)
      some (drawn, { s with gens := Function.update s.gens (instanceOf i) gen })
    | o => (o.answer s.stores c.1).map fun r => (r, { s with stores := s.stores.act ⟨o, r⟩ })

/-- Whatever is drawn, the stores take the calls as they are. -/
theorem platform_refines {encode : ℕ → String} {instanceOf : ι → κ} (i : ι) (o : ProfileOp)
    (c : Choice × ℕ) (s : Platform κ) (r : Except ServiceErr o.Ans) (s' : Platform κ)
    (h : platformHandler encode instanceOf i o c s = some (r, s')) :
    ∃ c', profileHandler i o c' s.stores = some (r, s'.stores) := by
  have hkept : ∀ r : Except ServiceErr String, s.stores.act ⟨.generate, r⟩ = s.stores := fun r => by
    unfold Stores.act
    split <;> rfl
  cases o with
  | generate =>
    obtain ⟨choice, now⟩ := c
    have hdrawn : ∃ c', ProfileOp.answer s.stores c' .generate = some r ∧ s'.stores = s.stores := by
      cases choice with
      | fail applied =>
        cases h
        exact ⟨.fail applied, rfl, rfl⟩
      | _ =>
        cases h
        exact ⟨.id _, rfl, rfl⟩
    obtain ⟨c', hanswer, hstores⟩ := hdrawn
    refine ⟨c', ?_⟩
    rw [profileHandler, hanswer, Option.map_some, hstores]
    exact congrArg (fun s => some (r, s)) (hkept r)
  | _ =>
    obtain ⟨r', hanswer, hres⟩ := Option.map_eq_some_iff.1 h
    cases hres
    exact ⟨c.1, Option.map_eq_some_iff.2 ⟨_, hanswer, rfl⟩⟩

end Generator

section Jobs

/-- A call that creates profiles. -/
inductive CreationJob where
  | create (name accountId : String)
  | imports (decode : String → Option String) (accountId : String) (newID : ℕ → ℕ → RuleID)
      (mode : String)
      (payload : ExportEnvelope)

def CreationJob.flow (env : ServiceEnv) : CreationJob → ProfileFlow Unit
  | .create name accountId => do
    let _ ← createProfile env name accountId
    return ()
  | .imports decode accountId newID mode payload => do
    let _ ← importProfiles env decode accountId newID mode payload
    return ()

/-- The call is a `CreateProfile`. -/
def CreationJob.Creates : CreationJob → Prop
  | .create _ _ => True
  | .imports _ _ _ _ _ => False

/-- A profile with the id has been stored. -/
def Stored (l : Acts) (pid : String) : Prop :=
  ∃ p, (⟨.createProfile p, .ok ()⟩ : profileCalls.sig.Act) ∈ l ∧ p.profileId = pid

theorem Stored.mono {l l' : Acts} {pid : String} (h : Stored l pid) (hl : l <+: l') :
    Stored l' pid := by
  obtain ⟨p, hp, hpid⟩ := h
  exact ⟨p, hl.subset hp, hpid⟩

/-- A call that changes no profile. -/
def Asks : ProfileOp → Prop
  | .generate | .now | .getBlocklist _ | .getServices | .getProfilesByAccountId _ | .smembers _ =>
    True
  | _ => False

/-- The calls for what belongs to the profile. -/
def CallsOn (pid : String) : ProfileOp → Prop
  | .redis pid' _ => pid' = pid
  | .smembers _ => True
  | _ => False

/-- The calls of a job, each with what has been answered before. -/
def OwnCall (J : CreationJob) (l : Acts) : ProfileOp → Prop
  | .createProfile _ => True
  | .redis pid _ => Stored l pid ∨ (J.Creates ∧ Generated l pid)
  | .edit pid _ | .deleteProfileById pid => Stored l pid
  | o => Asks o

variable {J : CreationJob} {env : ServiceEnv} {l : Acts} {pid : String}

theorem Asks.own {o : ProfileOp} (h : Asks o) : OwnCall J l o := by
  cases o <;> first | exact h.elim | trivial

theorem Lookup.asks {o : ProfileOp} (h : Lookup o) : Asks o := by
  cases o <;> first | exact h.elim | trivial

theorem CallsOn.own {o : ProfileOp} (h : CallsOn pid o)
    (hpid : Stored l pid ∨ (J.Creates ∧ Generated l pid)) : OwnCall J l o := by
  cases o with
  | redis pid' cmd =>
    obtain rfl : pid' = pid := h
    exact hpid
  | smembers pid' => trivial
  | _ => exact h.elim

theorem follows_asks {α : Type} {p : ProfileFlow α} {Q : Acts → Except ServiceErr α → Prop}
    (hp : Within Asks p) (hQ : ∀ l' r, Ends p.run l' r → Q (l ++ l') r) :
    Follows (OwnCall J) Q p l :=
  follows_of_only hp (fun _ _ _ h => h.own) hQ

theorem within_settings_on (settings : ProfileSettings) :
    Within (CallsOn settings.profileId) (createOrUpdateProfileSettings settings) :=
  within_bind (within_act trivial) fun _ => within_pipeline fun _ _ => rfl

theorem within_deleteSettings_on (pid : String) :
    Within (CallsOn pid) (deleteProfileSettings pid) := by
  refine within_bind (within_act rfl) fun _ => within_bind (within_act trivial) fun ids => ?_
  refine within_bind ?_ fun _ => within_act rfl
  induction ids with
  | nil => exact within_pure
  | cons id ids ih => exact within_bind (within_act rfl) fun _ => ih

/-- Calls for a profile that has been stored. -/
theorem follows_callsOn {α : Type} {p : ProfileFlow α} {Q : Acts → Except ServiceErr α → Prop}
    (hp : Within (CallsOn pid) p) (hstored : Stored l pid) (hQ : ∀ l' r, l <+: l' → Q l' r) :
    Follows (OwnCall J) Q p l :=
  follows_of_only hp (fun _ _ hl h => h.own (.inl (hstored.mono hl))) fun _ r _ =>
  hQ _ r (List.prefix_append _ _)

theorem within_mapExportedSettings (src : Option ExportedSettings) :
    Within Asks (mapExportedSettings src pid) := by
  have hstatistics : ∀ (s : StatisticsSettings) (enabled : Option Bool), Within Asks
      (importedStatistics s enabled) := by
    intro s enabled
    match enabled with
    | none => exact within_pure
    | some false => exact within_pure
    | some true => exact within_bind (within_act trivial) fun _ => within_pure
  cases src with
  | none => exact within_pure
  | some src => exact within_bind (hstatistics _ _) fun _ => within_pure

theorem ends_mapExportedSettings {src : Option ExportedSettings} {s : ProfileSettings}
    (h : Ends (mapExportedSettings src pid).run l (.ok s)) : s.profileId = pid := by
  cases src with
  | none =>
    obtain ⟨-, heq⟩ := ends_flow_pure h
    cases heq
    rfl
  | some src =>
    obtain ⟨l₁, l₂, statistics, rfl, -, hnext⟩ := ends_flow_bind_ok h
    obtain ⟨-, heq⟩ := ends_flow_pure hnext
    cases heq
    exact (mapSections_same src { newSettings with profileId := pid }).1

theorem within_resolveImportName (original : String) (taken : List String) :
    Within Asks (resolveImportName env original taken) := by
  unfold resolveImportName
  dsimp only
  split
  · exact within_pure
  split
  · exact within_pure
  split
  · exact within_pure
  · exact within_bind (within_act trivial) fun _ => within_pure

theorem follows_writeImported_own {p : Profile} {rules : List CustomRule}
    (hpid : p.settings.profileId = p.profileId) :
    Follows (OwnCall J) (fun l' r => r = .ok () → Stored l' p.profileId)
    (writeImported p rules) l := by
  unfold writeImported
  refine follows_act_bind trivial (fun e h => nomatch h) fun u => ?_
  have hstored : Stored (l ++ [⟨.createProfile p, .ok u⟩]) p.profileId :=
    ⟨p, List.mem_append_right _ (List.mem_singleton_self _), rfl⟩
  refine follows_bind (follows_callsOn (hpid ▸ within_settings_on p.settings) hstored
    fun _ _ h => h)
    (fun l' e _ _ h => nomatch h) fun l₁ _ hl₁ _ => ?_
  split
  · exact follows_pure fun _ => hstored.mono hl₁
  · refine follows_act_bind (hstored.mono hl₁) (fun e h => nomatch h) fun n => ?_
    have hstored' :=
      (hstored.mono hl₁).mono (List.prefix_append _
        [⟨.edit p.profileId (.createCustomRules rules), .ok n⟩])
    exact follows_callsOn (within_pipeline fun _ _ => rfl) hstored' fun l' _ hl' _ =>
      hstored'.mono hl'

theorem follows_importOneProfile_own {decode : String → Option String} {accountId : String}
    {newID : ℕ → RuleID} {ep : ExportedProfile} {resolved : String} :
    Follows (OwnCall J) (fun l' r => ∀ x, r = .ok x → Stored l' x.1)
    (importOneProfile env decode accountId newID ep resolved) l := by
  unfold importOneProfile
  refine follows_act_bind trivial (fun e x h => nomatch h) fun pid => ?_
  refine follows_bind
    (follows_asks (Q := fun _ r => ∃ acts, Ends (mapExportedSettings ep.settings pid).run acts r)
    (within_mapExportedSettings ep.settings) fun l' _ hends => ⟨l', hends⟩)
    (fun l' e _ _ x h => nomatch h) ?_
  rintro l₁ s - ⟨acts, hs⟩
  refine follows_bind (follows_asks (Q := fun _ r => ∃ acts, Ends (importRefs ep s).run acts r)
    (within_mono (fun _ => Lookup.asks) (within_importRefs ep s)) fun l' _ hends => ⟨l', hends⟩)
    (fun l' e _ _ x h => nomatch h) ?_
  rintro l₂ ⟨s', warnings⟩ - ⟨acts', hs'⟩
  have hid : s'.profileId = pid := (ends_importRefs hs').1.trans (ends_mapExportedSettings hs)
  refine follows_bind (follows_writeImported_own hid) (fun l' e _ _ x h => nomatch h)
    fun l₃ _ _ hstored => ?_
  refine follows_pure fun x hx => ?_
  cases hx
  exact hstored rfl

theorem follows_rollback_own {pids : List String} (h : ∀ pid ∈ pids, Stored l pid) :
    Follows (OwnCall J) (fun _ _ => True) (rollbackImportedProfiles pids) l := by
  induction pids generalizing l with
  | nil => exact follows_pure trivial
  | cons pid pids ih =>
    obtain ⟨hpid, hpids⟩ := List.forall_mem_cons.1 h
    refine follows_attempt_act_bind hpid fun r => ?_
    have hpid' := hpid.mono (List.prefix_append l [⟨.deleteProfileById pid, r⟩])
    refine follows_attempt_bind (follows_callsOn (within_deleteSettings_on pid) hpid' fun _ _ h =>
      h) fun l' r' hl' _ => ?_
    exact ih fun pid' hpid'' => ((hpids pid' hpid'').mono (List.prefix_append _ _)).mono hl'

theorem follows_importLoop_own {decode : String → Option String} {accountId : String}
    {newID : ℕ → ℕ → RuleID} {eps : List ExportedProfile} {k : ℕ} {taken : List String}
    {res : ImportResult} (h : ∀ pid ∈ res.createdProfileIds, Stored l pid) :
    Follows (OwnCall J) (fun _ _ => True)
    (importLoop env decode accountId newID eps k taken res) l := by
  induction eps generalizing k taken res l with
  | nil => exact follows_pure trivial
  | cons ep eps ih =>
    unfold importLoop
    refine follows_bind (follows_asks (Q := fun _ _ => True) (within_resolveImportName _ taken)
      fun _ _ _ => trivial) (fun _ _ _ _ => trivial) ?_
    rintro l₁ ⟨resolved, renameWarnings⟩ hl₁ -
    refine follows_attempt_bind follows_importOneProfile_own ?_
    rintro l₂ (e | ⟨pid, profileWarnings⟩) hl₂ hcreated
    · refine follows_bind (follows_rollback_own fun pid hpid => ((h pid hpid).mono hl₁).mono hl₂)
        (fun _ _ _ _ => trivial) ?_
      exact fun _ _ _ _ => follows_throw trivial
    · refine ih fun pid' hpid' => ?_
      rcases List.mem_append.1 hpid' with hold | hnew
      · exact ((h pid' hold).mono hl₁).mono hl₂
      · exact List.mem_singleton.1 hnew ▸ hcreated _ rfl

theorem follows_createProfile_own {name accountId : String} (hJ : J.Creates) :
    Follows (OwnCall J) (fun _ _ => True) (createProfile env name accountId) [] := by
  unfold createProfile
  refine follows_ensure_bind (fun _ => trivial) fun _ =>
    follows_ensure_bind (fun _ => trivial) fun _ => ?_
  refine follows_act_bind trivial (fun _ => trivial) fun pid => ?_
  have hdrawn : Generated ([] ++ [⟨.generate, .ok pid⟩]) pid := List.mem_singleton_self _
  have hsettings : Follows (OwnCall J) (fun _ _ => True) (createSettings pid)
      ([] ++ [⟨.generate, .ok pid⟩]) := by
    unfold createSettings
    refine follows_act_bind trivial (fun _ => trivial) fun blocklists => ?_
    refine follows_bind (follows_of_only (Q := fun _ _ => True) (within_settings_on _)
      (fun l' o hl' ho => ho.own (.inr ⟨hJ, ?_⟩)) fun _ _ _ => trivial)
      (fun _ _ _ _ => trivial) fun _ _ _ _ => follows_pure trivial
    exact hl'.subset (List.mem_append_left _ hdrawn)
  refine follows_bind hsettings (fun _ _ _ _ => trivial) fun l₁ settings _ _ => ?_
  refine follows_act_bind trivial (fun _ => trivial) fun profiles => ?_
  refine follows_ensure_bind (fun _ => trivial) fun _ =>
    follows_ensure_bind (fun _ => trivial) fun _ => ?_
  exact follows_act_bind trivial (fun _ => trivial) fun _ => follows_pure trivial

theorem follows_importProfiles_own {decode : String → Option String} {accountId : String}
    {newID : ℕ → ℕ → RuleID} {mode : String} {payload : ExportEnvelope} :
    Follows (OwnCall J) (fun _ _ => True)
    (importProfiles env decode accountId newID mode payload) [] := by
  unfold importProfiles
  refine follows_ensure_bind (fun _ => trivial) fun _ =>
    follows_ensure_bind (fun _ => trivial) fun _ => ?_
  refine follows_ensure_bind (fun _ => trivial) fun _ =>
    follows_ensure_bind (fun _ => trivial) fun _ => ?_
  refine follows_act_bind trivial (fun _ => trivial) fun existing => ?_
  refine follows_ensure_bind (fun _ => trivial) fun _ =>
    follows_ensure_bind (fun _ => trivial) fun _ => ?_
  refine follows_act_bind trivial (fun _ => trivial) fun now => ?_
  exact follows_importLoop_own (List.forall_mem_nil _)

/-- **Spec lemma** of the calls. -/
theorem follows_creationJob (env : ServiceEnv) (J : CreationJob) :
    Follows (OwnCall J) (fun _ _ => True) (J.flow env) [] := by
  cases J with
  | create name accountId =>
    exact follows_bind (follows_createProfile_own trivial) (fun _ _ _ _ => trivial) fun _ _ _ _ =>
      follows_pure trivial
  | imports decode accountId newID mode payload =>
    exact follows_bind follows_importProfiles_own (fun _ _ _ _ => trivial) fun _ _ _ _ =>
      follows_pure trivial

end Jobs

section Steps

variable {s : Stores} {pid : String} {p : Profile}

/-- What belongs to the profile is as it was. -/
def SameProfile (pid : String) (s s' : Stores) : Prop :=
  s'.find pid = s.find pid ∧ s'.redis pid = s.redis pid

/-- A call for another profile. -/
theorem same_elsewhere {pid' : String} (h : pid' ≠ pid) {o : ProfileOp}
    (ho : (∃ cmd, o = .redis pid' cmd) ∨ (∃ e, o = .edit pid' e) ∨ o = .deleteProfileById pid') :
    SameProfile pid s (o.effect s) := by
  rcases ho with ⟨cmd, rfl⟩ | ⟨e, rfl⟩ | rfl
  · exact ⟨rfl, Function.update_of_ne h.symm _ _⟩
  · exact ⟨find_onProfile_ne (fun p => edit_profileId p e) h.symm, rfl⟩
  · refine ⟨?_, rfl⟩
    change (s.profiles.filter _).find? _ = s.profiles.find? _
    rw [List.find?_filter]
    congr 1
    funext q
    by_cases hq : q.profileId = pid <;> simp [hq, h.symm]

/-- A document that is stored is found before one that is added. -/
theorem same_created (h : s.find pid = some p) (q : Profile) :
    SameProfile pid s ((ProfileOp.createProfile q).effect s) := by
  refine ⟨?_, rfl⟩
  change (s.profiles ++ [q]).find? _ = s.profiles.find? _
  have hfound : s.profiles.find? (·.profileId = pid) = some p := h
  rw [List.find?_append, hfound, Option.some_or]

/-- **A step changes a stored profile** only if its call has stored it, or is a creation that has
drawn its id. -/
theorem own_step {J : CreationJob} {l : Acts} {o : ProfileOp} {r : Except ServiceErr o.Ans}
    (hcall : OwnCall J l o) (h : s.find pid = some p) :
    Stored l pid ∨ (J.Creates ∧ Generated l pid ∧ ∃ cmd, o = .redis pid cmd) ∨
    SameProfile pid s (s.act ⟨o, r⟩) := by
  by_cases htook : TookEffect r
  swap
  · have hact : s.act ⟨o, r⟩ = s := if_neg htook
    rw [hact]
    exact .inr (.inr ⟨rfl, rfl⟩)
  have hact : s.act ⟨o, r⟩ = o.effect s := if_pos htook
  rw [hact]
  cases o with
  | createProfile q => exact .inr (.inr (same_created h q))
  | redis pid' cmd =>
    by_cases heq : pid' = pid
    · subst heq
      exact hcall.imp_right fun h => .inl ⟨h.1, h.2, cmd, rfl⟩
    · exact .inr (.inr (same_elsewhere heq (.inl ⟨cmd, rfl⟩)))
  | edit pid' e =>
    by_cases heq : pid' = pid
    · subst heq
      exact .inl hcall
    · exact .inr (.inr (same_elsewhere heq (.inr (.inl ⟨e, rfl⟩))))
  | deleteProfileById pid' =>
    by_cases heq : pid' = pid
    · subst heq
      exact .inl hcall
    · exact .inr (.inr (same_elsewhere heq (.inr (.inr rfl))))
  | generate => exact .inr (.inr ⟨rfl, rfl⟩)
  | now => exact .inr (.inr ⟨rfl, rfl⟩)
  | getBlocklist filter => exact .inr (.inr ⟨rfl, rfl⟩)
  | getServices => exact .inr (.inr ⟨rfl, rfl⟩)
  | getProfilesByAccountId a => exact .inr (.inr ⟨rfl, rfl⟩)
  | smembers pid' => exact .inr (.inr ⟨rfl, rfl⟩)
  | _ => exact hcall.elim

/-- A document that has come has been inserted. -/
theorem inserted_since {l : Acts} (h : s.find pid = none) (hl : (s.after l).find pid ≠ none) :
    ∃ x ∈ l, ∃ p, x.1 = .createProfile p ∧ p.profileId = pid ∧ TookEffect x.2 := by
  by_contra hnone
  refine hl ?_
  clear hl
  induction l generalizing s with
  | nil => exact h
  | cons x l ih =>
    refine ih ?_ fun ⟨y, hy, hins⟩ => hnone ⟨y, List.mem_cons_of_mem _ hy, hins⟩
    by_cases hop : ∃ p, x.1 = .createProfile p
    swap
    · exact find_act_none h fun p hp => hop ⟨p, hp⟩
    obtain ⟨p, hp⟩ := hop
    by_cases htook : TookEffect x.2
    · have hpid : p.profileId ≠ pid := fun hpid => hnone ⟨x, List.mem_cons_self, p, hp, hpid, htook⟩
      rw [act_effect htook, hp]
      change (s.profiles ++ [p]).find? _ = none
      have hbefore : s.profiles.find? (·.profileId = pid) = none := h
      rw [List.find?_append, hbefore, Option.none_or]
      exact List.find?_eq_none.2 (List.forall_mem_singleton.2 (by simpa using hpid))
    · have hact : s.act x = s := if_neg htook
      rw [hact]
      exact h

end Steps

section Runs

variable {ι κ : Type}

abbrev CreationPool (ι κ : Type) := Pool profileCalls.sig ι (Platform κ) (Except ServiceErr Unit)

abbrev CreationEvent (ι : Type) := Event profileCalls.sig ι

/-- Any number of calls, on any number of instances. -/
def startCreations (env : ι → ServiceEnv) (s : Platform κ) (jobs : ι → CreationJob) :
    CreationPool ι κ :=
  ⟨s, fun i => ((jobs i).flow (env i)).run⟩

/-- The step stores a profile with the id. -/
def StoresProfile (pid : String) (e : CreationEvent ι) : Prop :=
  ∃ p, e.op = .createProfile p ∧ p.profileId = pid ∧ TookEffect e.res

/-- **Creations share no id**: what a `CreateProfile` draws is not the id of a stored profile, and
no other call stores a profile with it before the `CreateProfile` has sent its last command to
Redis. -/
def Unshared (jobs : ι → CreationJob) (s : Stores) (es : List (CreationEvent ι)) : Prop :=
  ∀ es₁ es₂ i pid, es = es₁ ++ ⟨i, .generate, .ok pid⟩ :: es₂ → (jobs i).Creates →
    (s.after (acts es₁)).find pid = none ∧
      ∀ u f v e w, es₂ = u ++ f :: (v ++ e :: w) → StoresProfile pid f → f.who ≠ i → e.who = i →
        ∀ cmd, e.op ≠ .redis pid cmd

/-- **Other profiles are left alone**: no step changes what belongs to a stored profile, unless its
call has stored it. -/
def LeavesOthers (s : Stores) (es : List (CreationEvent ι)) : Prop :=
  ∀ es₁ e es₂ pid, es = es₁ ++ e :: es₂ → (s.after (acts es₁)).find pid ≠ none →
    (∃ f ∈ es₁, f.who = e.who ∧ StoresProfile pid f) ∨
      SameProfile pid (s.after (acts es₁)) (s.after (acts (es₁ ++ [e])))

variable [DecidableEq ι] [DecidableEq κ] {encode : ℕ → String} {instanceOf : ι → κ}
  {env : ι → ServiceEnv} {jobs : ι → CreationJob} {s : Platform κ} {es : List (CreationEvent ι)}
  {Q : CreationPool ι κ}

/-- **Creating a profile leaves the others alone**, whatever the instances and their clocks, if
creations share no id. -/
theorem creations_undisturbed (hr : Run (platformHandler encode instanceOf) Free
    (startCreations env s jobs) es Q) (hunshared : Unshared jobs s.stores es) : Q.state.stores =
    s.stores.after (acts es) ∧ LeavesOthers s.stores es := by
  have hrun := run_refine (f := Platform.stores) platform_refines hr
  refine ⟨state_run hrun, ?_⟩
  rintro es₁ e es₂ pid rfl hfind
  obtain ⟨p, hp⟩ := Option.ne_none_iff_exists'.1 hfind
  have hcall := run_met_mid (fun i => follows_run (follows_creationJob (env i) (jobs i))) hrun
  have hafter : s.stores.after (acts (es₁ ++ [e])) = (s.stores.after (acts es₁)).act
      ⟨e.op, e.res⟩ := by
    rw [acts, List.map_append, after_append]
    rfl
  rw [hafter]
  -- the call is for a profile of its own, for the drawn id, or changes nothing
  rcases own_step (r := e.res) hcall hp with ⟨q, hq, hpid⟩ | ⟨hcreates, hdrawn, cmd, hcmd⟩ | hsame
  · exact .inl ⟨_, mem_trace.1 hq, rfl, q, rfl, hpid, trivial⟩
  · obtain ⟨u, v, rfl⟩ := List.append_of_mem (mem_trace.1 hdrawn)
    obtain ⟨hfresh, hapart⟩ := hunshared u (v ++ e :: es₂) e.who pid (by simp) hcreates
    -- the id was not stored when it was drawn, so the profile has come since
    have hcame : ∃ f ∈ v, StoresProfile pid f := by
      have hgen : (s.stores.after (acts u)).act ⟨.generate, .ok pid⟩ = s.stores.after (acts u) :=
        rfl
      have hsplit : s.stores.after (acts (u ++ ⟨e.who, .generate, .ok pid⟩ :: v)) =
          (s.stores.after (acts u)).after (acts v) := by
        rw [acts, List.map_append, after_append, ← hgen]
        rfl
      rw [hsplit] at hfind
      obtain ⟨x, hx, q, hop, hpid, htook⟩ := inserted_since hfresh hfind
      obtain ⟨f, hf, rfl⟩ := List.mem_map.1 hx
      exact ⟨f, hf, q, hop, hpid, htook⟩
    obtain ⟨f, hf, hstores⟩ := hcame
    by_cases hwho : f.who = e.who
    · exact .inl ⟨f, by simp [hf], hwho, hstores⟩
    · obtain ⟨v₁, v₂, rfl⟩ := List.append_of_mem hf
      exact absurd hcmd (hapart v₁ f v₂ e es₂ (by simp) hstores hwho rfl cmd)
  · exact .inr hsame

omit [DecidableEq ι] in
/-- One thread that draws a fresh id shares it with nobody. -/
theorem unshared_alone {i : ι} {s : Stores} {pid : String} {rest : List (CreationEvent ι)}
    (hfresh : s.find pid = none) (hdraw : ∀ e ∈ rest, e.op ≠ .generate)
    (hwho : ∀ e ∈ rest, e.who = i) :
    Unshared jobs s (⟨i, .generate, .ok pid⟩ :: rest) := by
  intro es₁ es₂ j pid' heq _
  cases es₁ with
  | cons x es₁ =>
    obtain ⟨-, hrest⟩ := List.cons.inj heq
    exact absurd rfl (hdraw ⟨j, .generate, .ok pid'⟩ (hrest ▸ by simp))
  | nil =>
    obtain ⟨hgen, rfl⟩ := List.cons.inj heq
    cases hgen
    refine ⟨hfresh, ?_⟩
    rintro u f v e w rfl - hne
    exact absurd (hwho f (by simp)) hne

end Runs

section Examples

/-- A profile with a blocklist. -/
def listedProfile (pid : String) : Profile :=
  ⟨pid, "b", "home", { newSettings with profileId := pid, privacy.blocklists := ["ads"] }⟩

def listedStores (pid : String) : Stores where
  profiles := [listedProfile pid]
  redis pid' :=
    if pid' = pid then
      (settingsCmds (listedProfile pid).settings []).foldl (fun c cmd => cmd.run c) .absent
    else .absent

/-- An instance that has just been started, beside a profile. -/
def startedAnew (pid : String) : Platform Unit := ⟨listedStores pid, fun _ => ⟨0⟩⟩

/-- A creation in the fifth millisecond. -/
def officeCreation : Fin 1 → CreationJob := fun _ => .create "office" "a"

abbrev startOffice (pid : String) : CreationPool (Fin 1) Unit :=
  startCreations (fun _ => exampleEnv) (startedAnew pid) officeCreation

/-- The first calls of the creation, up to its first command to Redis. -/
def firstCalls : List (CreationEvent (Fin 1)) :=
  [⟨thread 0, .generate, .ok "5"⟩, ⟨thread 0, .getBlocklist .isDefault, .ok []⟩,
    ⟨thread 0, .smembers "5", .ok []⟩,
    ⟨thread 0, .redis "5" (.del [.list .blocklists]), .ok ()⟩]

def fifthMillisecond : List (Fin 1 × (Choice × ℕ)) := List.replicate 4 (thread 0, (.ok, 5))

theorem fifthMillisecond_plays (pid : String) (h : pid = "4" ∨ pid = "5") :
    (play (platformHandler toString fun _ : Fin 1 => ()) Free fifthMillisecond
      (startOffice pid)).isSome := by
  rcases h with rfl | rfl <;> decide

theorem creations_undisturbed_fresh :
    ∃ Q, Run (platformHandler toString fun _ => ()) Free (startOffice "4") firstCalls Q ∧
      LeavesOthers (listedStores "4") firstCalls := by
  have hr := run_play (fifthMillisecond_plays "4" (.inl rfl))
  refine ⟨_, hr, (creations_undisturbed hr (unshared_alone (by decide) ?_ ?_)).2⟩
  · simp
  · simp

/-- **A creation that draws the id of another profile** takes its blocklists out of Redis. -/
theorem colliding_creation :
    ∃ Q, Run (platformHandler toString fun _ => ()) Free (startOffice "5") firstCalls Q ∧
      ¬ LeavesOthers (listedStores "5") firstCalls := by
  refine ⟨_, run_play (fifthMillisecond_plays "5" (.inr rfl)), fun h => ?_⟩
  have hlast :=
    h (firstCalls.take 3) ⟨thread 0, .redis "5" (.del [.list .blocklists]), .ok ()⟩
      [] "5" rfl (by decide)
  rcases hlast with ⟨f, hf, -, p, hop, -⟩ | hsame
  · simp only [firstCalls, List.take_succ_cons, List.take_zero, List.mem_cons, List.not_mem_nil,
      or_false] at hf
    rcases hf with rfl | rfl | rfl <;> cases hop
  · have hlists := congrArg (fun c => c.lists .blocklists) hsame.2
    exact absurd hlists (by decide)

end Examples

end ModDNS.Profiles
