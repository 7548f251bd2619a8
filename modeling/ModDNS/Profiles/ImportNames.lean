import ModDNS.Profiles.Collisions

/-!
# The names of imported profiles

A name of the payload is cut to fit, and gets a suffix while its normal form is taken; what is
stored is the normal form.

* `candidates_nodup`: the names with the suffixes have distinct normal forms, wherever the name has
  been cut for them.
* `ends_resolveImportName`: so one of them is free while fewer than 999 names are taken.
* `imported_names`: the names under which an import inserts profiles.
-/

namespace ModDNS.Profiles

open Conc Go Rules

section Suffixes

/-- What a normal form makes of ASCII text behind another text: nothing. -/
def LeavesASCII (nfc : String → String) : Prop :=
  ∀ x s : String, (∀ c ∈ s.toList, c.toNat < 128) → nfc (x ++ s) = nfc x ++ s

variable {env : ServiceEnv} {original : String} {taken : List String}

theorem fit_suffix (base suf : String) (max : ℕ) :
    ∃ b, fitNameWithSuffix base suf max = b ++ suf := by
  unfold fitNameWithSuffix
  split
  · exact ⟨_, rfl⟩
  · exact ⟨_, rfl⟩

theorem fit_length {base suf : String} {max : ℕ} (h : suf.length ≤ max) :
    (fitNameWithSuffix base suf max).length ≤ max := by
  unfold fitNameWithSuffix
  split
  · rwa [String.length_append]
  · rw [String.length_append, String.length_ofList, List.length_take]
    omega

/-- The text of a suffix, without its space. -/
def importedTag (digits : List Char) : String := "(imported" ++ .ofList digits ++ ")"

/-- A name with a suffix still ends with it. -/
theorem normalize_tag (hnfc : LeavesASCII env.nfc) {digits : List Char}
    (hdigits : ∀ c ∈ digits, c.toNat < 128) (b : String) :
    ∃ y, normalizeName env (b ++ " " ++ importedTag digits) = y ++ importedTag digits := by
  have htag : (importedTag digits).toList = "(imported".toList ++ digits ++ [')'] := by
    simp [importedTag]
  obtain ⟨x, hx⟩ : ∃ x, trimSpace (b ++ " " ++ importedTag digits) = x ++ importedTag digits := by
    refine trimSpace_tail ?_ ?_ ?_
    · simp [htag]
    · rw [htag]
      intro c hc
      cases hc
      decide
    · rw [htag, List.getLast?_concat]
      intro c hc
      cases hc
      decide
  refine ⟨env.nfc x, ?_⟩
  unfold normalizeName
  rw [hx]
  refine hnfc _ _ fun c hc => ?_
  rw [htag] at hc
  rcases List.mem_append.1 hc with hc | hc
  · rcases List.mem_append.1 hc with hc | hc
    · exact List.all_eq_true.1 (by decide : "(imported".toList.all fun c => decide (c.toNat < 128))
        c hc |> of_decide_eq_true
    · exact hdigits c hc
  · rw [List.mem_singleton.1 hc]
    decide

/-- The digits before the last character of a name. -/
def counter (name : String) : List Char := (name.toList.reverse.tail.takeWhile Char.isDigit).reverse

theorem counter_tag {digits : List Char} (hdigits : ∀ c ∈ digits, c.isDigit = true) (y : String) :
    counter (y ++ importedTag (' ' :: digits)) = digits := by
  have hlist : (y ++ importedTag (' ' :: digits)).toList.reverse =
      ')' :: (digits.reverse ++ ' ' :: (y ++ "(imported").toList.reverse) := by
    simp [importedTag]
  unfold counter
  rw [hlist, List.tail_cons, List.takeWhile_append_of_pos fun c hc => hdigits c
    (List.mem_reverse.1 hc),
    List.takeWhile_cons_of_neg (by decide), List.append_nil, List.reverse_reverse]

theorem counter_first (y : String) : counter (y ++ importedTag []) = [] := by
  have hlist : (y ++ importedTag []).toList.reverse = ')' :: 'd' ::
      (y ++ "(importe").toList.reverse := by
    simp [importedTag]
  unfold counter
  rw [hlist]
  rfl

theorem importedSuffix_tag (n : ℕ) :
    importedSuffix n = " " ++ importedTag (' ' :: Nat.toDigits 10 n) := by
  refine String.toList_injective ?_
  simp [importedSuffix, importedTag]

theorem ascii_digits {digits : List Char} (h : ∀ c ∈ digits, c.isDigit = true) :
    ∀ c ∈ ' ' :: digits, c.toNat < 128 := by
  refine List.forall_mem_cons.2 ⟨by decide, fun c hc => ?_⟩
  have hdigit := h c hc
  simp only [Char.isDigit, Bool.and_eq_true, decide_eq_true_eq] at hdigit
  have hle : c.toNat ≤ 57 := hdigit.2
  omega

/-- The names that are looked up: with the plain suffix, and with the counters. -/
def candidates (env : ServiceEnv) (original : String) : List String :=
  normalizeName env (fitNameWithSuffix original " (imported)" maxProfileNameLen) ::
    (List.range' 2 998).map fun n =>
      normalizeName env (fitNameWithSuffix original (importedSuffix n) maxProfileNameLen)

/-- **The candidates are distinct**, whatever the name is cut to. -/
theorem candidates_nodup (hnfc : LeavesASCII env.nfc) (original : String) :
    (candidates env original).Nodup := by
  have hdigit : ∀ n, ∀ c ∈ Nat.toDigits 10 n, c.isDigit = true := fun n c hc =>
    Nat.isDigit_of_mem_toDigits (by decide) (by decide) hc
  have hfirst : counter
      (normalizeName env (fitNameWithSuffix original " (imported)" maxProfileNameLen)) = [] := by
    obtain ⟨b, hb⟩ := fit_suffix original " (imported)" maxProfileNameLen
    obtain ⟨y, hy⟩ := normalize_tag hnfc (List.forall_mem_nil _) b
    have hsuffix : " (imported)" = " " ++ importedTag [] := by decide
    rw [hb, hsuffix, ← String.append_assoc, hy]
    exact counter_first y
  have hnext : ∀ n, counter
    (normalizeName env (fitNameWithSuffix original (importedSuffix n) maxProfileNameLen)) =
      Nat.toDigits 10 n := by
    intro n
    obtain ⟨b, hb⟩ := fit_suffix original (importedSuffix n) maxProfileNameLen
    obtain ⟨y, hy⟩ := normalize_tag hnfc (ascii_digits (hdigit n)) b
    rw [hb, importedSuffix_tag, ← String.append_assoc, hy]
    exact counter_tag (hdigit n) y
  refine List.Nodup.of_map counter ?_
  unfold candidates
  rw [List.map_cons, hfirst, List.map_map]
  refine List.nodup_cons.2 ⟨fun hmem => ?_, ?_⟩
  · obtain ⟨n, -, hn⟩ := List.mem_map.1 hmem
    exact Nat.toDigits_ne_nil ((hnext n).symm.trans hn)
  · refine (List.nodup_range' ..).map_on fun n _ m _ heq => ?_
    have hdigits : Nat.toDigits 10 n = Nat.toDigits 10 m :=
      (hnext n).symm.trans (heq.trans (hnext m))
    rw [← Nat.ofDigitChars_ten_toDigits (n := n), hdigits, Nat.ofDigitChars_ten_toDigits]

theorem suffix_length {n : ℕ} (h : n < 1000) : (importedSuffix n).length ≤ maxProfileNameLen := by
  have hdigits : (Nat.toDigits 10 n).length ≤ 3 :=
    (Nat.length_toDigits_le_iff (by decide) (by decide)).2 h
  have hlength : (importedSuffix n).length = 12 + (Nat.toDigits 10 n).length := by
    rw [importedSuffix_tag, ← String.length_toList]
    simp [importedTag]
    omega
  have hmax : maxProfileNameLen = 50 := rfl
  omega

end Suffixes

section Names

variable {env : ServiceEnv} {original : String} {taken taken' : List String} {l : Acts}

/-- The profile of the payload with the name `original` has been called `name`, where the names
`taken` have been. -/
structure Named (env : ServiceEnv) (taken : List String) (original name : String) : Prop where
  fresh : taken.length < 999 → name ∉ taken
  resolved : ∃ resolved, name = normalizeName env resolved ∧
    (taken.length < 999 → resolved.length ≤ maxProfileNameLen) ∧
    (original.length ≤ maxProfileNameLen → normalizeName env original ∉ taken → resolved = original)

theorem Named.perm {name : String} (h : Named env taken original name) (hperm : taken.Perm taken') :
    Named env taken' original name := by
  obtain ⟨resolved, hname, hlength, hkept⟩ := h.resolved
  refine ⟨fun hlen hmem => ?_, resolved, hname, fun hlen => ?_, fun hfits hfree => ?_⟩
  · exact h.fresh (hperm.length_eq ▸ hlen) (hperm.mem_iff.2 hmem)
  · exact hlength (hperm.length_eq ▸ hlen)
  · exact hkept hfits fun hmem => hfree (hperm.mem_iff.1 hmem)

theorem truncated_length (name : String) : (truncatedName name).1.length ≤ maxProfileNameLen := by
  unfold truncatedName
  split
  · exact fit_length (Nat.zero_le _)
  · next h => exact not_lt.1 h

theorem truncated_fits {name : String} (h : name.length ≤ maxProfileNameLen) :
    (truncatedName name).1 = name := by
  unfold truncatedName
  rw [if_neg (not_lt.2 h)]

/-- **The name that is chosen** is free while fewer names are taken than there are candidates. -/
theorem ends_resolveImportName (hnfc : LeavesASCII env.nfc)
    {r : Except ServiceErr (String × List ImportWarning)}
    (h : Ends (resolveImportName env (truncatedName original).1 taken).run l r) :
    inserted l = [] ∧ ∀ x, r = .ok x → Named env taken original (normalizeName env x.1) := by
  have hfree : ∀ {name : String} {w : List ImportWarning}, normalizeName env name ∉ taken →
    name.length ≤ maxProfileNameLen →
      (normalizeName env (truncatedName original).1 ∉ taken → name = (truncatedName original).1) →
      Ends (pure (name, w) : ProfileFlow (String × List ImportWarning)).run l r →
      inserted l = [] ∧ ∀ x, r = .ok x → Named env taken original (normalizeName env x.1) := by
    intro name w hname hlength hkept hend
    obtain ⟨rfl, rfl⟩ := ends_flow_pure hend
    refine ⟨rfl, fun x hx => ?_⟩
    cases hx
    refine ⟨fun _ => hname, name, rfl, fun _ => hlength, fun hfits hfree => ?_⟩
    rw [truncated_fits hfits] at hkept
    exact hkept hfree
  have htaken : ∀ {name : String}, ¬ decide (normalizeName env name ∉ taken) = true →
      normalizeName env name ∈ taken := by
    intro name hname
    simpa using hname
  unfold resolveImportName at h
  dsimp only at h
  split at h
  · next hname => exact hfree (of_decide_eq_true hname) (truncated_length original) (fun _ => rfl) h
  next hcut =>
  have hcut' := htaken hcut
  split at h
  · next hname => exact hfree (of_decide_eq_true hname) (fit_length (by decide)) (absurd hcut') h
  next hfirst =>
  split at h
  · next n hn =>
    have hname := List.find?_some hn
    obtain ⟨-, hlt⟩ := List.mem_range'_1.1 (List.mem_of_find?_eq_some hn)
    exact hfree (of_decide_eq_true hname) (fit_length (suffix_length (by omega))) (absurd hcut') h
  · next hnone =>
    -- every candidate is taken, and there are 999 of them
    have hfull : ¬ taken.length < 999 := by
      have hsub : candidates env (truncatedName original).1 ⊆ taken := by
        refine List.cons_subset.2 ⟨htaken hfirst, fun name hname => ?_⟩
        obtain ⟨n, hn, rfl⟩ := List.mem_map.1 hname
        exact htaken (List.find?_eq_none.1 hnone n hn)
      have hlen := ((candidates_nodup hnfc (truncatedName original).1).subperm hsub).length_le
      have hcount : (candidates env (truncatedName original).1).length = 999 := by
        unfold candidates
        rw [List.length_cons, List.length_map, List.length_range']
      omega
    obtain ⟨e, rfl, rfl⟩ | ⟨now, l', rfl, hend⟩ := ends_act_bind h
    · exact ⟨rfl, fun x hx => by cases hx⟩
    · obtain ⟨rfl, rfl⟩ := ends_flow_pure hend
      refine ⟨rfl, fun x hx => ?_⟩
      cases hx
      refine ⟨fun hlt => absurd hlt hfull, _, rfl, fun hlt => absurd hlt hfull,
        fun hfits hfree => ?_⟩
      rw [truncated_fits hfits] at hcut'
      exact absurd hcut' hfree

/-- A call that inserts no profile. -/
def InsertsNone : ProfileOp → Prop
  | .createProfile _ => False
  | _ => True

theorem AnyTime.insertsNone {o : ProfileOp} (h : AnyTime o) : InsertsNone o := by
  cases o <;> trivial

theorem Asks.insertsNone {o : ProfileOp} (h : Asks o) : InsertsNone o := by
  cases o <;> trivial

theorem inserted_none (h : ∀ x ∈ l, InsertsNone x.1) : inserted l = [] := by
  refine List.filterMap_eq_nil_iff.2 fun x hx => ?_
  have hnone := h x hx
  obtain ⟨o, r⟩ := x
  cases o with
  | createProfile p => exact hnone.elim
  | _ => rfl

theorem within_mapSettings_none (src : Option ExportedSettings) (pid : String) :
    Within InsertsNone (mapExportedSettings src pid) :=
  within_mono (fun _ => Asks.insertsNone) (within_mapExportedSettings src)

theorem within_rollback (pids : List String) :
    Within InsertsNone (rollbackImportedProfiles pids) := by
  induction pids with
  | nil => exact within_pure
  | cons pid pids ih =>
    unfold rollbackImportedProfiles
    refine within_bind (within_attempt (within_act trivial)) fun _ =>
      within_bind (within_attempt ?_) fun _ => ih
    exact within_mono (fun _ => AnyTime.insertsNone) (within_deleteSettings pid)

theorem ends_writeImported {p : Profile} {rules : List CustomRule} {r : Except ServiceErr Unit}
    (h : Ends (writeImported p rules).run l r) : inserted l = [p] := by
  have hafter : Within InsertsNone (do
      createOrUpdateProfileSettings p.settings
      if rules = [] then return ()
      else do
        let _ ← call (.edit p.profileId (.createCustomRules rules))
        addCustomRules p.profileId rules) := by
    refine within_bind (within_mono (fun _ => AnyTime.insertsNone)
      (within_settingsCache p.settings)) fun _ => ?_
    refine within_ite within_pure (within_bind (within_act trivial) fun _ => ?_)
    exact within_pipeline fun _ _ => trivial
  obtain ⟨e, rfl, -⟩ | ⟨a, l', rfl, hrest⟩ := ends_act_bind h
  · rfl
  · have hnone : inserted l' = [] := inserted_none (within_path hafter hrest)
    rw [← List.singleton_append, inserted_append, hnone]
    rfl

/-- A profile of the payload is inserted under the name that has been chosen, if at all. -/
theorem ends_importOneProfile {decode : String → Option String} {accountId : String}
    {newID : ℕ → RuleID} {ep : ExportedProfile} {resolved : String}
    {r : Except ServiceErr (String × List ImportWarning)}
    (h : Ends (importOneProfile env decode accountId newID ep resolved).run l r) :
    (inserted l = [] ∧ ∀ x, r ≠ .ok x) ∨ (inserted l).map (·.name) =
    [normalizeName env resolved] := by
  obtain ⟨e, rfl, rfl⟩ | ⟨pid, l₁, rfl, hnext⟩ := ends_act_bind h
  · exact .inl ⟨rfl, fun x hx => by cases hx⟩
  have hgen : inserted (⟨.generate, .ok pid⟩ :: l₁) = inserted l₁ := rfl
  rw [hgen]
  obtain ⟨e, hmap, rfl⟩ | ⟨l₂, l₃, settings, rfl, hmap, hrest⟩ := ends_flow_bind hnext
  · exact .inl ⟨inserted_none (within_path (within_mapSettings_none ep.settings pid) hmap),
      fun x hx => by cases hx⟩
  have hmap' : inserted l₂ = [] :=
    inserted_none (within_path (within_mapSettings_none ep.settings pid) hmap)
  have hlookups : Within InsertsNone (importRefs ep settings) :=
    within_mono (fun _ ho => ho.anyTime.insertsNone) (within_importRefs ep settings)
  rw [inserted_append, hmap', List.nil_append]
  obtain ⟨e, hrefs, rfl⟩ | ⟨l₄, l₅, refs, rfl, hrefs, hwrites⟩ := ends_flow_bind hrest
  · exact .inl ⟨inserted_none (within_path hlookups hrefs), fun x hx => by cases hx⟩
  have hrefs' : inserted l₄ = [] := inserted_none (within_path hlookups hrefs)
  rw [inserted_append, hrefs', List.nil_append]
  right
  obtain ⟨e, hwrite, -⟩ | ⟨l₆, l₇, u, rfl, hwrite, hend⟩ := ends_flow_bind hwrites
  · rw [ends_writeImported hwrite]
    rfl
  · obtain ⟨rfl, -⟩ := ends_flow_pure hend
    rw [List.append_nil, ends_writeImported hwrite]
    rfl

/-- **The loop** names one profile after the other, with what has been taken so far. -/
theorem ends_importLoop (hnfc : LeavesASCII env.nfc) {decode : String → Option String}
    {accountId : String} {newID : ℕ → ℕ → RuleID} {eps : List ExportedProfile} {k : ℕ}
    {res : ImportResult} {r : Except ServiceErr ImportResult}
    (h : Ends (importLoop env decode accountId newID eps k taken res).run l r) :
    ∀ (n : ℕ) name, ((inserted l).map (·.name))[n]? = some name →
      ∃ ep, eps[n]? = some ep ∧ Named env
        (taken ++ ((inserted l).map (·.name)).take n) ep.name name := by
  induction eps generalizing k taken res l with
  | nil =>
    obtain ⟨rfl, -⟩ := ends_flow_pure h
    intro n name hname
    cases hname
  | cons ep eps ih =>
    unfold importLoop at h
    obtain ⟨e, hresolve, -⟩ | ⟨l₁, l₂, ⟨resolved, renamed⟩, rfl, hresolve, hone⟩ := ends_flow_bind h
    · rw [(ends_resolveImportName hnfc hresolve).1]
      intro n name hname
      cases hname
    obtain ⟨hnone, hnamed⟩ := ends_resolveImportName hnfc hresolve
    have hfirst := hnamed _ rfl
    rw [inserted_append, hnone, List.nil_append]
    obtain ⟨l₃, l₄, created, rfl, hcreate, hrest⟩ := ends_attempt_bind hone
    rw [inserted_append, List.map_append]
    cases created with
    | error e =>
      -- the profiles that were made are deleted, and no further one is named
      have hback : inserted l₄ = [] := by
        obtain ⟨e', hroll, -⟩ | ⟨l₅, l₆, u, rfl, hroll, hthrow⟩ := ends_flow_bind hrest
        · exact inserted_none (within_path (within_rollback _) hroll)
        · obtain ⟨rfl, -⟩ := ends_throw hthrow
          rw [List.append_nil]
          exact inserted_none (within_path (within_rollback _) hroll)
      rw [hback, List.map_nil, List.append_nil]
      intro n name hname
      obtain ⟨hno, -⟩ | hone := ends_importOneProfile hcreate
      · rw [hno] at hname
        cases hname
      · rw [hone] at hname ⊢
        cases n with
        | zero =>
          cases hname
          refine ⟨ep, rfl, ?_⟩
          rw [List.take_zero, List.append_nil]
          exact hfirst
        | succ n => cases hname
    | ok created =>
      -- the name that was given is taken for the others
      have hone : (inserted l₃).map (·.name) = [normalizeName env resolved] :=
        (ends_importOneProfile hcreate).resolve_left fun hno => hno.2 created rfl
      rw [hone, List.singleton_append]
      intro n name hname
      cases n with
      | zero =>
        cases hname
        refine ⟨ep, rfl, ?_⟩
        rw [List.take_zero, List.append_nil]
        exact hfirst
      | succ n =>
        obtain ⟨ep', hep', hnext⟩ := ih hrest n name hname
        refine ⟨ep', hep', hnext.perm ?_⟩
        rw [List.take_succ_cons]
        exact List.perm_middle.symm

/-- **The names of imported profiles**: while the existing profiles and those imported before are
fewer than 999, the name of a profile is none of theirs, and has been cut to fit before it was
normalized; and it is that of the payload, unless that is too long or taken. -/
theorem imported_names {ι : Type} (hnfc : LeavesASCII env.nfc) (i : ι)
    (decode : String → Option String) (accountId : String) (newID : ℕ → ℕ → RuleID) (mode : String)
    (payload : ExportEnvelope) (s : Stores) (l : Acts)
    (r : Except ServiceErr ImportResult) (s' : Stores)
    (h : Exec profileHandler i
      (importProfiles env decode accountId newID mode payload).run s l r s') :
    ∀ (n : ℕ) name, ((inserted l).map (·.name))[n]? = some name →
    ∃ ep, payload.profiles[n]? = some ep ∧
      Named env ((s.profiles.filter (·.accountId = accountId)).map
        (fun p => normalizeName env p.name) ++
        ((inserted l).map (·.name)).take n) ep.name name := by
  have hnothing : ∀ l : Acts, inserted l = [] → ∀ (n : ℕ) name, ((inserted l).map (·.name))[n]? =
      some name → False := by
    intro l hl n name hname
    rw [hl] at hname
    cases hname
  intro n name hname
  -- every check before the loop: nothing is inserted if it fails
  obtain ⟨-, rfl, -⟩ | ⟨-, hends⟩ := ends_ensure_bind (exec_path h)
  · exact (hnothing _ rfl n name hname).elim
  obtain ⟨-, rfl, -⟩ | ⟨-, hends⟩ := ends_ensure_bind hends
  · exact (hnothing _ rfl n name hname).elim
  obtain ⟨-, rfl, -⟩ | ⟨-, hends⟩ := ends_ensure_bind hends
  · exact (hnothing _ rfl n name hname).elim
  obtain ⟨-, rfl, -⟩ | ⟨-, hends⟩ := ends_ensure_bind hends
  · exact (hnothing _ rfl n name hname).elim
  obtain ⟨e, rfl, -⟩ | ⟨existing, l₁, rfl, hlisted⟩ := ends_act_bind hends
  · exact (hnothing _ rfl n name hname).elim
  -- the profiles listed are those of the account
  have hexisting : existing = s.profiles.filter (·.accountId = accountId) := by
    obtain ⟨c, hc⟩ := answer_exec (l := []) h
    cases c with
    | ok =>
      cases hc
      rfl
    | _ => cases hc
  obtain ⟨-, rfl, -⟩ | ⟨-, hroom⟩ := ends_ensure_bind hlisted
  · exact (hnothing _ rfl n name hname).elim
  obtain ⟨-, rfl, -⟩ | ⟨-, hcap⟩ := ends_ensure_bind hroom
  · exact (hnothing _ rfl n name hname).elim
  obtain ⟨e, rfl, -⟩ | ⟨now, l₂, rfl, hloop⟩ := ends_act_bind hcap
  · exact (hnothing _ rfl n name hname).elim
  rw [← hexisting]
  exact ends_importLoop hnfc hloop n name hname

end Names

section Examples

/-- A profile whose name starts with a space. -/
def spacedExport : ExportEnvelope := ⟨1, exportKind, 0, [⟨" work", none⟩]⟩

def spacedImport : ProfileFlow ImportResult :=
  importProfiles exampleEnv (fun _ => none) "a" (fun _ k => k) importModeCreateNew spacedExport

theorem spacedImport_exec :
    (spacedImport.run.exec profileHandler ()
      ([.ok, .time 0, .id "q"] ++ List.replicate 10 .ok) oneStores).isSome := by
  decide +kernel

/-- Two profiles of a name that is taken, and two of a name that is too long. -/
def collidingExport : ExportEnvelope :=
  ⟨1, exportKind, 0, [⟨"home", none⟩, ⟨"home", none⟩,
    ⟨"the-laptop-that-we-take-with-us-on-all-our-travels-abroad", none⟩,
    ⟨"the-laptop-that-we-take-with-us-on-all-our-travels-abroad", none⟩]⟩

def collidingImport : ProfileFlow ImportResult :=
  importProfiles exampleEnv (fun _ => none) "a" (fun _ k => k) importModeCreateNew collidingExport

/-- The calls of an import for one profile. -/
def oneImported (pid : String) : List Choice := .id pid :: List.replicate 10 .ok

def collidingNames : List String :=
  ["home (imported)", "home (imported 2)", "the-laptop-that-we-take-with-us-on-all-our-travels",
    "the-laptop-that-we-take-with-us-on-all- (imported)"]

theorem collidingImport_exec : ((collidingImport.run.exec profileHandler () ([.ok, .time 0] ++
    oneImported "q" ++ oneImported "r" ++ oneImported "t" ++ oneImported "u") oneStores).any
      fun x => (inserted x.1).map (·.name) = collidingNames) := by
  decide +kernel

/-- Each profile gets a name of its own that fits. -/
theorem imported_names_colliding :
    ∃ l r s', Exec profileHandler () collidingImport.run oneStores l r s' ∧
    (inserted l).map (·.name) = collidingNames ∧ ∀ (n : ℕ) name, collidingNames[n]? = some name →
      ∃ ep, collidingExport.profiles[n]? = some ep ∧
        Named exampleEnv ("home" :: collidingNames.take n) ep.name name := by
  obtain ⟨⟨l, r, s'⟩, hrun, hfacts⟩ := (Option.any_eq_true _ _).1 collidingImport_exec
  have hexec : Exec profileHandler () collidingImport.run oneStores l r s' := exec_of_choices hrun
  have hnames : (inserted l).map (·.name) = collidingNames := of_decide_eq_true hfacts
  have hnamed := imported_names (fun _ _ _ => rfl) () _ _ _ _ _ _ _ _ _ hexec
  have htaken : ((oneStores.profiles.filter (·.accountId = "a")).map
      fun p => normalizeName exampleEnv p.name) = ["home"] := by decide +kernel
  rw [hnames, htaken] at hnamed
  exact ⟨l, r, s', hexec, hnames, hnamed⟩

/-- The name is valid, fits and is not taken; without the space it is another one. -/
theorem spaced_changed : ∃ l r s', Exec profileHandler () spacedImport.run oneStores l (.ok r) s' ∧
    isSafeName exampleEnv " work" = true ∧ " work".length ≤ maxProfileNameLen ∧
    normalizeName exampleEnv " work" ∉ oneStores.profiles.map
    (fun p => normalizeName exampleEnv p.name) ∧
    s'.profiles.map (·.name) = ["home", "work"] ∧ "work" ≠ " work" := by
  have hexec : Exec profileHandler () spacedImport.run oneStores _ (.ok _) _ :=
    exec_of_choices (Option.some_get spacedImport_exec).symm
  exact ⟨_, _, _,
    hexec, by decide +kernel, by decide, by decide +kernel, by decide +kernel, by decide⟩

end Examples

end ModDNS.Profiles
