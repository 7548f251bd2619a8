import Mathlib.Tactic.FinCases
import ModDNS.Data.Splits
import ModDNS.Profiles.Creation
import ModDNS.Profiles.ProfileSet

/-!
# The set of profiles of an account

Any number of creations, imports, deletions and patches on one account, interleaved.

* `listed_sublist`, `listed_kept`: what has become of a list when a request relies on it.
* `profile_set`: the number and the names of the profiles after every run in which nothing comes
  between a list and what relies on it.
-/

namespace ModDNS.Profiles

open Conc Data

variable {ι V : Type} {env : ServiceEnv} {casts : Casts V} {a : String} {s : Stores}
  {jobs : ι → SetJob V}

abbrev SetEvent (ι : Type) := Event profileCalls.sig ι

abbrev SetPool (ι : Type) := Pool profileCalls.sig ι Stores (Except ServiceErr Unit)

/-- The pool of a set of requests on the account `a`. -/
def startSet (env : ServiceEnv) (casts : Casts V) (a : String) (s : Stores) (jobs : ι → SetJob V) :
    SetPool ι :=
  ⟨s, fun i => ((jobs i).flow env casts a).run⟩

/-- An event, as an action of its thread. -/
abbrev actOf (e : SetEvent ι) : profileCalls.sig.Act := ⟨e.op, e.res⟩

section Lists

variable {es : List (SetEvent ι)} {i : ι} {L : List Profile}

/-- What the thread has not listed again since. -/
def Unlisted (i : ι) (es : List (SetEvent ι)) : Prop :=
  ∀ e ∈ es, e.who = i → listingOf (actOf e) = none

/-- The last listing of a thread. -/
theorem last_listing [DecidableEq ι] (h : lastListing (trace i es) = some L) : ∃ es₁ es₂ a',
    es = es₁ ++ ⟨i, .getProfilesByAccountId a', .ok L⟩ :: es₂ ∧ Unlisted i es₂ := by
  induction es using List.reverseRecOn with
  | nil => cases h
  | append_singleton es e ih =>
    by_cases hlists : e.who = i ∧ listingOf (actOf e) ≠ none
    · obtain ⟨j, o, r⟩ := e
      obtain ⟨hi, hlisting⟩ := hlists
      obtain rfl : j = i := hi
      have hlast : listingOf ⟨o, r⟩ = some L := by
        rw [trace_append, lastListing_append] at h
        have htrace : trace j [(⟨j, o, r⟩ : SetEvent ι)] = [⟨o, r⟩] := by simp [trace]
        rw [htrace] at h
        unfold lastListing at h
        obtain ⟨L', hL'⟩ := Option.ne_none_iff_exists'.1 hlisting
        change listingOf ⟨o, r⟩ = some L' at hL'
        rw [List.filterMap_cons, hL'] at h
        rw [hL']
        exact h
      refine ⟨es, [], ?_⟩
      unfold listingOf at hlast
      split at hlast
      · next a' profiles heq =>
        cases heq
        cases hlast
        exact ⟨a', rfl, List.forall_mem_nil _⟩
      · cases hlast
    · have hsame : lastListing (trace i (es ++ [e])) = lastListing (trace i es) := by
        rw [trace_append]
        refine lastListing_append_of fun x hx => ?_
        have hmem := mem_trace.1 hx
        have he : (⟨i, x.1, x.2⟩ : SetEvent ι) = e := List.mem_singleton.1 hmem
        by_contra hne
        refine hlists ⟨(congrArg Event.who he).symm, ?_⟩
        rw [← he]
        exact hne
      rw [hsame] at h
      obtain ⟨es₁, es₂, a', rfl, hquiet⟩ := ih h
      refine ⟨es₁, es₂ ++ [e], a', by simp, fun e' he' hi => ?_⟩
      rcases List.mem_append.1 he' with he' | he'
      · exact hquiet e' he' hi
      · rw [List.mem_singleton.1 he'] at hi ⊢
        by_contra hne
        exact hlists ⟨hi, hne⟩

end Lists

section Condition

variable (env a jobs)

/-- No suffix of an import is free. -/
def Exhausted (taken : List String) : Prop := ∃ original, ∀ n ∈ List.range' 2 998,
  normalizeName env (fitNameWithSuffix original (importedSuffix n) maxProfileNameLen) ∈ taken

/-- **Nothing comes between a list and what relies on it.** Between the last listing of a request
and an insertion or a renaming of its own, no other request inserts or renames; between the last
listing and a deletion, no other one deletes. A rollback does not start from an account without
profiles, and no import has run out of suffixes. -/
structure Undisturbed [DecidableEq ι] (es : List (SetEvent ι)) : Prop where
  names : ∀ es₁ es₂ es₃ i L e, es = es₁ ++ ⟨i, .getProfilesByAccountId a, .ok L⟩ ::
    (es₂ ++ e :: es₃) → e.who = i →
    Unlisted i es₂ → (change a (actOf e)).Names → ∀ e' ∈ es₂, e'.who ≠ i →
    ¬ (change a (actOf e')).Names
  drops : ∀ es₁ es₂ es₃ i L e, es = es₁ ++ ⟨i, .getProfilesByAccountId a, .ok L⟩ ::
    (es₂ ++ e :: es₃) → e.who = i →
    Unlisted i es₂ → (∃ k, (change a (actOf e)).Drops k) →
    L ≠ [] ∧ ∀ e' ∈ es₂, e'.who ≠ i → ∀ k, ¬ (change a (actOf e')).Drops k
  suffixes : ∀ es₁ es₂ e p L, es = es₁ ++ e :: es₂ → e.op = .createProfile p →
    (jobs e.who).Imports →
    lastListing (trace e.who es₁) = some L → ¬ Exhausted env (takenNames env L (trace e.who es₁))

/-- The register of a valid set of profiles. -/
structure ValidRows (r : List (String × String)) : Prop where
  distinct : Distinct r
  normal : ∀ row ∈ r, normalizeName env row.2 = row.2
  room : r.length ≤ env.maxProfiles

variable {env a jobs}

theorem Undisturbed.left [DecidableEq ι] {es es' : List (SetEvent ι)}
    (h : Undisturbed env a jobs (es ++ es')) :
    Undisturbed env a jobs es := by
  refine ⟨?_, ?_, ?_⟩
  · rintro es₁ es₂ es₃ i L e rfl
    exact h.names es₁ es₂ (es₃ ++ es') i L e (by simp)
  · rintro es₁ es₂ es₃ i L e rfl
    exact h.drops es₁ es₂ (es₃ ++ es') i L e (by simp)
  · rintro es₁ es₂ e p L rfl
    exact h.suffixes es₁ (es₂ ++ es') e p L (by simp)

end Condition

section Segments

variable [DecidableEq ι] {P Q : SetPool ι} {es es₁ es₂ : List (SetEvent ι)} {e : SetEvent ι} {i : ι}
  {L : List Profile}

/-- Every event of a run is a call that the requests may make. -/
theorem run_setCall {es₃ : List (SetEvent ι)}
    (hr : Run profileHandler Free (startSet env casts a s jobs) (es₁ ++ e :: es₃) Q) :
    SetCall env a (trace e.who es₁) e.op (jobs e.who) :=
  run_met_mid (fun i => follows_run (follows_setJob (jobs i))) hr

/-- The run since the last listing of a thread, and what it has listed. -/
theorem run_listing (hr : Run profileHandler Free (startSet env casts a s jobs) es P)
    (hL : lastListing (trace i es) = some L) :
    ∃ es₁ es₂, es = es₁ ++ ⟨i, .getProfilesByAccountId a, .ok L⟩ :: es₂ ∧ Unlisted i es₂ ∧
      ((jobs i).Imports → trace i es₁ = []) ∧ L.map Profile.row = (s.after (acts es₁)).rows a ∧
      (s.after (acts es)).rows a = changed (L.map Profile.row) ((acts es₂).map (change a)) := by
  have hstate : P.state = s.after (acts es) := state_run hr
  obtain ⟨es₁, es₂, a', rfl, hquiet⟩ := last_listing hL
  have hmet := run_setCall hr
  obtain ⟨ha, hfirst⟩ := setCall_listing hmet
  obtain rfl : a' = a := ha
  obtain ⟨P₁, P₂, hrun₁, -, hst, hrun₂⟩ := run_mid hr
  obtain ⟨k, c, s', -, hhandled, rfl⟩ := step_iff.1 hst
  obtain ⟨hanswer, hafter⟩ := handled hhandled
  have hstate₁ := state_run hrun₁
  have hstate₂ := state_run hrun₂
  have hsame : s' = P₁.state := by
    rw [hafter]
    exact ite_self _
  have howned : L = P₁.state.owned a' := by
    cases c with
    | ok => exact (Except.ok.inj (Option.some.inj hanswer)).symm
    | _ => cases hanswer
  refine ⟨es₁, es₂, rfl, hquiet, hfirst, ?_, ?_⟩
  · rw [howned, hstate₁]
    rfl
  · refine (congrArg (fun s => Stores.rows s a') hstate.symm).trans ?_
    rw [hstate₂, rows_after, Pool.set_state, hsame, howned]
    rfl

/-- What is added while only one thread adds. -/
theorem added_sublist (h : ∀ e ∈ es, e.who ≠ i → ¬ (change a (actOf e)).Names) :
    (((acts es).map (change a)).filterMap Change.added).Sublist
      ((inserted (trace i es)).map Profile.row) := by
  induction es with
  | nil => exact List.Sublist.refl _
  | cons e es ih =>
    obtain ⟨he, hes⟩ := List.forall_mem_cons.1 h
    have hrest := ih hes
    have hsplit : ((acts (e :: es)).map (change a)).filterMap Change.added =
        (change a (actOf e)).added.toList ++ ((acts es).map (change a)).filterMap Change.added := by
      unfold acts
      rw [List.map_cons, List.map_cons, List.filterMap_cons]
      cases (change a (actOf e)).added <;> rfl
    have htrace : (inserted (trace i (e :: es))).map Profile.row =
        (if e.who = i then ((insertedBy (actOf e)).map Profile.row).toList else []) ++
          (inserted (trace i es)).map Profile.row := by
      rw [trace_cons, inserted_append, List.map_append]
      congr 1
      unfold trace inserted
      by_cases hi : e.who = i
      · rw [if_pos hi]
        cases hins : insertedBy (actOf e) <;> simp [hi, hins]
      · simp [hi]
    rw [hsplit, htrace]
    refine List.Sublist.append ?_ hrest
    cases hadded : (change a (actOf e)).added with
    | none => exact List.nil_sublist _
    | some row =>
      have hi : e.who = i := by
        by_contra hi
        refine he hi ?_
        cases hc : change a (actOf e) with
        | add k n => trivial
        | _ =>
          rw [hc] at hadded
          cases hadded
      rw [if_pos hi, added_inserted hadded]

/-- **What a request has listed**, when it inserts or renames: all that is there has been listed, or
the request has inserted it since. -/
theorem listed_sublist (hr : Run profileHandler Free (startSet env casts a s jobs) (es ++ [e]) Q)
    (hcond : Undisturbed env a jobs (es ++ [e])) (hnames : (change a (actOf e)).Names)
    (hown : ∀ e' ∈ es, e'.who = e.who → ¬ (change a (actOf e')).Renames)
    (hL : lastListing (trace e.who es) = some L) :
    ((s.after (acts es)).rows a).Sublist ((L ++ inserted (trace e.who es)).map Profile.row) := by
  obtain ⟨P, hrun, -, -⟩ := run_last hr
  obtain ⟨es₁, es₂, rfl, hquiet, -, -, hrows⟩ := run_listing hrun hL
  have hothers : ∀ e' ∈ es₂, e'.who ≠ e.who → ¬ (change a (actOf e')).Names :=
    hcond.names es₁ es₂ [] e.who L e (by simp) rfl hquiet hnames
  have hrenames : ∀ c ∈ (acts es₂).map (change a), ¬ c.Renames := by
    intro c hc
    obtain ⟨x, hx, rfl⟩ := List.mem_map.1 hc
    obtain ⟨e', he', rfl⟩ := List.mem_map.1 hx
    by_cases hi : e'.who = e.who
    · exact hown e' (List.mem_append_right _ (List.mem_cons_of_mem _ he')) hi
    · intro hren
      refine hothers e' he' hi ?_
      show (change a (actOf e')).Names
      change (change a (actOf e')).Renames at hren
      cases hc' : change a (actOf e') with
      | rename k n => trivial
      | _ =>
        rw [hc'] at hren
        exact hren.elim
  rw [hrows]
  refine (adds_sublist hrenames).trans ?_
  rw [List.map_append]
  refine List.Sublist.append_left ((added_sublist hothers).trans ?_) _
  rw [trace_append, inserted_append, List.map_append]
  refine List.Sublist.trans ?_ (List.sublist_append_right _ _)
  rw [trace_cons, inserted_append, List.map_append]
  exact List.sublist_append_right _ _

omit [DecidableEq ι] in
theorem rows_concat :
    (s.after (acts (es ++ [e]))).rows a = (change a (actOf e)).run
    ((s.after (acts es)).rows a) := by
  unfold acts
  rw [List.map_append, after_append]
  exact rows_act _ _

omit [DecidableEq ι] in
theorem kept_concat {k : String} (hk : k ∈ ((s.after (acts es)).rows a).map Prod.fst)
    (he : ¬ (change a (actOf e)).Drops k) :
    k ∈ ((s.after (acts (es ++ [e]))).rows a).map Prod.fst := by
  rw [rows_concat]
  have hkept : k ∈ (changed ((s.after (acts es)).rows a) [change a (actOf e)]).map Prod.fst :=
    kept_changes hk (List.forall_mem_singleton.2 he)
  exact hkept

/-- **What a deletion has listed**, when it deletes: every other profile of the list is still
there. -/
theorem listed_kept {pid k : String}
    (hr : Run profileHandler Free (startSet env casts a s jobs) (es ++ [e]) Q)
    (hcond : Undisturbed env a jobs (es ++ [e])) (hdrops : (change a (actOf e)).Drops pid)
    (hown : ∀ e' ∈ es, e'.who = e.who → ¬ (change a (actOf e')).Drops k)
    (hL : lastListing (trace e.who es) = some L) (hk : k ∈ L.map (·.profileId)) :
    k ∈ ((s.after (acts es)).rows a).map Prod.fst := by
  obtain ⟨P, hrun, -, -⟩ := run_last hr
  obtain ⟨es₁, es₂, rfl, hquiet, -, -, hrows⟩ := run_listing hrun hL
  obtain ⟨-, hothers⟩ := hcond.drops es₁ es₂ [] e.who L e (by simp) rfl hquiet ⟨pid, hdrops⟩
  rw [hrows]
  refine kept_changes ?_ fun c hc => ?_
  · rw [List.map_map]
    exact hk
  · obtain ⟨x, hx, rfl⟩ := List.mem_map.1 hc
    obtain ⟨e', he', rfl⟩ := List.mem_map.1 hx
    by_cases hi : e'.who = e.who
    · exact hown e' (List.mem_append_right _ (List.mem_cons_of_mem _ he')) hi
    · exact hothers e' he' hi k

/-- An insertion that succeeds has an id that no profile has. -/
theorem inserted_fresh {p : Profile}
    (hr : Run profileHandler Free (startSet env casts a s jobs) es P)
    (hst : Step profileHandler P e Q) (htook : TookEffect e.res) (hop : e.op = .createProfile p) :
    p.profileId ∉ ((s.after (acts es)).rows a).map Prod.fst := by
  obtain ⟨k, c, s', -, hhandled, -⟩ := step_iff.1 hst
  obtain ⟨hanswer, -⟩ := handled hhandled
  obtain ⟨i, o, r⟩ := e
  cases hop
  have hstate : P.state = s.after (acts es) := state_run hr
  rw [← hstate]
  have hnone : P.state.find p.profileId = none := by
    by_contra hsome
    have hisSome := Option.isSome_iff_ne_none.2 hsome
    have heq : some r = some (.error (.store false)) := hanswer.symm.trans (if_pos hisSome)
    cases heq
    cases htook
  intro hmem
  unfold Stores.rows at hmem
  rw [List.map_map] at hmem
  obtain ⟨q, hq, hid⟩ := List.mem_map.1 hmem
  exact List.find?_eq_none.1 hnone q (List.mem_filter.1 hq).1 (decide_eq_true hid)

/-- **What an import has listed**, when it rolls back: every profile of the list is still there, and
none of them is one that it has inserted. -/
theorem imported_kept (hr : Run profileHandler Free (startSet env casts a s jobs)
      (es₁ ++ ⟨i, .getProfilesByAccountId a, .ok L⟩ :: es₂) P) (himports : (jobs i).Imports)
        (hfirst : trace i es₁ = [])
    (hL : L.map Profile.row = (s.after (acts es₁)).rows a)
    (hothers : ∀ e' ∈ es₂, e'.who ≠ i → ∀ k, ¬ (change a (actOf e')).Drops k) :
    (∀ k ∈ L.map (·.profileId), k ∈
      ((s.after (acts (es₁ ++ ⟨i, .getProfilesByAccountId a, .ok L⟩ :: es₂))).rows a).map
      Prod.fst) ∧
      ∀ p, (⟨.createProfile p, .ok ()⟩ : profileCalls.sig.Act) ∈
        trace i (es₁ ++ ⟨i, .getProfilesByAccountId a, .ok L⟩ :: es₂) →
          p.profileId ∉ L.map (·.profileId) := by
  induction es₂ using List.reverseRecOn generalizing P with
  | nil =>
    refine ⟨fun k hk => ?_, fun p hp => ?_⟩
    · refine kept_concat ?_ (e := ⟨i, .getProfilesByAccountId a, .ok L⟩) fun hdrops => ?_
      · rw [← hL, List.map_map]
        exact hk
      · have hnone : change a (⟨.getProfilesByAccountId a, .ok L⟩ : profileCalls.sig.Act) = .none :=
          change_read trivial
        rw [hnone] at hdrops
        exact hdrops
    · rw [trace_append, hfirst, List.nil_append] at hp
      have hop := List.mem_singleton.1 (mem_trace.1 hp)
      cases hop
  -- by induction on the calls after the listing
  | append_singleton es₂ e ih =>
    have hsplit : es₁ ++ ⟨i, .getProfilesByAccountId a, .ok L⟩ :: (es₂ ++ [e]) =
        (es₁ ++ ⟨i, .getProfilesByAccountId a, .ok L⟩ :: es₂) ++ [e] := by simp
    rw [hsplit] at hr ⊢
    obtain ⟨R, hrun, -, hst⟩ := run_last hr
    obtain ⟨hids, hnew⟩ := ih hrun fun e' he' => hothers e' (List.mem_append_left _ he')
    have hmet : SetCall env a (trace e.who _) e.op (jobs e.who) := run_setCall hr
    constructor
    · intro k hk
      refine kept_concat (hids k hk) fun hdrops => ?_
      by_cases hi : e.who = i
      · -- the import deletes what it has inserted only
        obtain ⟨pid, hop, hpid⟩ := drops_op hdrops
        obtain rfl := hpid
        change e.op = _ at hop
        rw [hop, hi] at hmet
        rcases setCall_drop hmet with ⟨hnot, -⟩ | ⟨-, p, hp, rfl⟩
        · exact hnot himports
        · exact hnew p hp hk
      · exact hothers e (List.mem_append_right _ (List.mem_singleton_self e)) hi k hdrops
    · intro p hp hmem
      rw [trace_append] at hp
      rcases List.mem_append.1 hp with hp | hp
      · exact hnew p hp hmem
      · have he := List.mem_singleton.1 (mem_trace.1 hp)
        have hfresh := inserted_fresh (p := p) hrun hst (by rw [← he]; trivial) (by rw [← he])
        exact hfresh (hids _ hmem)

end Segments

section Steps

/-- What the service relies on the NFC form for. -/
structure NfcLaws (env : ServiceEnv) : Prop where
  idem : ∀ s, env.nfc (env.nfc s) = env.nfc s
  trimmed : ∀ s, Go.trimSpace (env.nfc (Go.trimSpace s)) = env.nfc (Go.trimSpace s)

theorem NfcLaws.normalizeName (h : NfcLaws env) (s : String) :
    Profiles.normalizeName env (Profiles.normalizeName env s) = Profiles.normalizeName env s := by
  unfold Profiles.normalizeName
  rw [h.trimmed, h.idem]

variable [DecidableEq ι] {P Q : SetPool ι} {es : List (SetEvent ι)} {e : SetEvent ι}

/-- The registers have been valid so far. -/
def ValidSoFar (env : ServiceEnv) (a : String) (s : Stores) (es : List (SetEvent ι)) : Prop :=
  ∀ es₁ es₂, es = es₁ ++ es₂ → ValidRows env ((s.after (acts es₁)).rows a)

/-- A list of profiles that a request has read was valid. -/
theorem valid_listing {L : List Profile} {i : ι}
    (hr : Run profileHandler Free (startSet env casts a s jobs) es P)
    (hvalid : ValidSoFar env a s es) (hL : lastListing (trace i es) = some L) :
    ValidRows env (L.map Profile.row) := by
  obtain ⟨es₁, es₂, hes, -, -, hrows, -⟩ := run_listing hr hL
  rw [hrows]
  exact hvalid es₁ _ hes

theorem names_normal {L : List Profile} (h : ValidRows env (L.map Profile.row)) :
    L.map (fun p => normalizeName env p.name) = L.map (·.name) :=
  List.map_congr_left fun p hp => h.normal p.row (List.mem_map_of_mem hp)

/-- An insertion keeps a valid register valid. -/
theorem add_step {p : Profile} (hn : NfcLaws env)
    (hr : Run profileHandler Free (startSet env casts a s jobs) (es ++ [e]) Q)
    (hcond : Undisturbed env a jobs (es ++ [e]))
    (hvalid : ValidSoFar env a s es) (hop : e.op = .createProfile p) (htook : TookEffect e.res)
    (hc : change a (actOf e) = .add p.profileId p.name) :
    ValidRows env ((s.after (acts (es ++ [e]))).rows a) := by
  obtain ⟨P, hrun, -, hst⟩ := run_last hr
  have hmet : SetCall env a (trace e.who es) e.op (jobs e.who) := run_setCall hr
  rw [hop] at hmet
  obtain ⟨L, hL, hroom, ⟨name, hname⟩, hchecked⟩ := setCall_add hmet
  -- a creation or an import renames nothing
  have hown : ∀ e' ∈ es, e'.who = e.who → ¬ (change a (actOf e')).Renames := by
    intro e' he' hi hren
    obtain ⟨es₁, es₂, rfl⟩ := List.append_of_mem he'
    have hmet' : SetCall env a (trace e'.who es₁) e'.op (jobs e'.who) := run_setCall hrun
    obtain ⟨pid, upd, hop'⟩ := renames_op hren
    change e'.op = _ at hop'
    rw [hop', hi] at hmet'
    exact setCall_add_update hmet hmet'
  have hsub := listed_sublist hr hcond (by rw [hc]; trivial) hown hL
  have hlisted := valid_listing hrun hvalid hL
  have hnow := hvalid es [] (List.append_nil _).symm
  -- the name was checked against the list, and against what the import has inserted
  have hfree : p.name ∉ (L ++ inserted (trace e.who es)).map (·.name) := by
    rw [List.map_append]
    rcases hchecked with ⟨hfree, hnone⟩ | ⟨himports, hfree | ⟨original, now, -, hall⟩⟩
    · rw [hnone, List.map_nil, List.append_nil]
      exact hfree
    · unfold takenNames at hfree
      rw [names_normal hlisted] at hfree
      exact hfree
    · exact absurd ⟨original, hall⟩ (hcond.suffixes es [] e p L rfl hop himports hL)
  have hrows : (s.after (acts (es ++ [e]))).rows a = (s.after (acts es)).rows a ++
      [(p.profileId, p.name)] := by
    rw [rows_concat, hc]
    rfl
  rw [hrows]
  refine ⟨distinct_append hnow.distinct (inserted_fresh hrun hst htook hop) fun hmem => hfree ?_,
    fun row hrow => ?_, ?_⟩
  · have hname' := (hsub.map Prod.snd).subset hmem
    rwa [List.map_map] at hname'
  · rcases List.mem_append.1 hrow with hrow | hrow
    · exact hnow.normal row hrow
    · rw [List.mem_singleton.1 hrow]
      show normalizeName env p.name = p.name
      rw [hname]
      exact hn.normalizeName name
  · have hlength := hsub.length_le
    rw [List.length_map, List.length_append] at hlength
    rw [List.length_append, List.length_singleton]
    omega

theorem inserted_reads {l : Acts} (h : ∀ x ∈ l, IsRead x.1) : inserted l = [] := by
  refine List.filterMap_eq_nil_iff.2 fun x hx => ?_
  obtain ⟨o, r⟩ := x
  have hread := h _ hx
  cases o <;> first | rfl | exact hread.elim

/-- So does a renaming. -/
theorem rename_step {pid n : String} {upd : ProfileFieldsUpdate} (hn : NfcLaws env)
    (hr : Run profileHandler Free (startSet env casts a s jobs) (es ++ [e]) Q)
    (hcond : Undisturbed env a jobs (es ++ [e]))
    (hvalid : ValidSoFar env a s es) (hop : e.op = .findOneAndUpdate pid upd)
    (hupd : upd.renames = some n)
    (hc : change a (actOf e) = .rename pid n) :
    ValidRows env ((s.after (acts (es ++ [e]))).rows a) := by
  obtain ⟨P, hrun, -, hst⟩ := run_last hr
  have hmet : SetCall env a (trace e.who es) e.op (jobs e.who) := run_setCall hr
  rw [hop] at hmet
  obtain ⟨hreads, hchecked⟩ := setCall_update hmet
  obtain ⟨⟨name, hname⟩, L, hL, hfree⟩ := hchecked n hupd
  have hown : ∀ e' ∈ es, e'.who = e.who → ¬ (change a (actOf e')).Renames := by
    intro e' he' hi hren
    have hread : IsRead e'.op := hreads (actOf e') (mem_trace.2 (by rw [← hi]; exact he'))
    rw [change_read hread] at hren
    exact hren
  have hsub := listed_sublist hr hcond (by rw [hc]; trivial) hown hL
  rw [inserted_reads hreads, List.append_nil] at hsub
  have hnow := hvalid es [] (List.append_nil _).symm
  have hrows : (s.after (acts (es ++ [e]))).rows a = (Change.rename pid n).run
      ((s.after (acts es)).rows a) := by
    rw [rows_concat, hc]
  rw [hrows]
  refine ⟨distinct_rename hnow.distinct fun hmem => hfree ?_, fun row hrow => ?_, ?_⟩
  · have hname' := (hsub.map Prod.snd).subset hmem
    rwa [List.map_map] at hname'
  · obtain ⟨row', hrow', rfl⟩ := List.mem_map.1 hrow
    split
    · show normalizeName env n = n
      rw [hname]
      exact hn.normalizeName name
    · exact hnow.normal row' hrow'
  · refine le_trans (le_of_eq ?_) hnow.room
    exact List.length_map _

/-- A deletion keeps a valid register valid, and leaves a row of a list that it relies on. -/
theorem drop_step {pid : String} (hr : Run profileHandler Free (startSet env casts a s jobs)
    (es ++ [e]) Q) (hcond : Undisturbed env a jobs (es ++ [e])) (hvalid : ValidSoFar env a s es)
    (hop : e.op = .deleteProfileById pid) (hc : change a (actOf e) = .drop pid) :
    ValidRows env ((s.after (acts (es ++ [e]))).rows a) ∧
    (s.after (acts (es ++ [e]))).rows a ≠ [] := by
  obtain ⟨P, hrun, -, hst⟩ := run_last hr
  have hmet : SetCall env a (trace e.who es) e.op (jobs e.who) := run_setCall hr
  rw [hop] at hmet
  have hnow := hvalid es [] (List.append_nil _).symm
  have hrows : (s.after (acts (es ++ [e]))).rows a = (Change.drop pid).run
      ((s.after (acts es)).rows a) := by
    rw [rows_concat, hc]
  have hdrops : (change a (actOf e)).Drops pid := by
    rw [hc]
    rfl
  -- any other row of the register is left
  have hleft : ∀ k ∈ ((s.after (acts es)).rows a).map Prod.fst, k ≠ pid →
      (Change.drop pid).run ((s.after (acts es)).rows a) ≠ [] := by
    intro k hk hne
    obtain ⟨row, hrow, rfl⟩ := List.mem_map.1 hk
    exact List.ne_nil_of_mem (List.mem_filter.2 ⟨hrow, decide_eq_true hne⟩)
  rw [hrows]
  refine ⟨⟨distinct_drop hnow.distinct, fun row hrow => hnow.normal row
    (List.mem_filter.1 hrow).1, ?_⟩, ?_⟩
  · exact (List.length_filter_le _ _).trans hnow.room
  rcases setCall_drop hmet with ⟨-, L, hL, hmany, hsame⟩ | ⟨himports, p, hp, rfl⟩
  · -- another profile of the list
    obtain ⟨q, hq, hne⟩ : ∃ q ∈ L, q.profileId ≠ pid := by
      by_contra hnone
      push Not at hnone
      have hdistinct := (valid_listing hrun hvalid hL).distinct
      match L, hmany with
      | q₁ :: q₂ :: _, _ =>
        have hpair := (List.pairwise_cons.1 hdistinct).1 q₂.row (by simp)
        refine hpair.1 ?_
        exact (hnone q₁ (by simp)).trans (hnone q₂ (by simp)).symm
    refine hleft q.profileId (listed_kept hr hcond hdrops ?_ hL (List.mem_map_of_mem hq)) hne
    intro e' he' hi hdrops'
    obtain ⟨es₁, es₂, rfl⟩ := List.append_of_mem he'
    have hmet' : SetCall env a (trace e'.who es₁) e'.op (jobs e'.who) := run_setCall hrun
    obtain ⟨pid', hop', rfl⟩ := drops_op hdrops'
    change e'.op = _ at hop'
    rw [hop', hi] at hmet'
    exact hne (hsame _ _ hmet')
  · -- the list that the import has begun with
    obtain ⟨L, hL⟩ : ∃ L, lastListing (trace e.who es) = some L := by
      obtain ⟨l₁, l₂, hsplit⟩ := List.append_of_mem hp
      obtain ⟨es₁, es₂, rfl, hes₁, -⟩ := trace_split hsplit
      have hmet' : SetCall env a (trace e.who es₁) (.createProfile p) (jobs e.who) :=
        run_setCall (e := ⟨e.who, .createProfile p, .ok ()⟩) hrun
      obtain ⟨L, hL, -⟩ := setCall_add hmet'
      rw [trace_append, lastListing_append, hL]
      cases lastListing (trace e.who (⟨e.who, .createProfile p, .ok ()⟩ :: es₂)) with
      | none => exact ⟨L, rfl⟩
      | some L' => exact ⟨L', rfl⟩
    obtain ⟨es₁, es₂, rfl, hquiet, hfirst, hlisted, -⟩ := run_listing hrun hL
    obtain ⟨hne, hothers⟩ :=
      hcond.drops es₁ es₂ [] e.who L e (by simp) rfl hquiet ⟨p.profileId, hdrops⟩
    obtain ⟨hkept, hnew⟩ := imported_kept hrun himports (hfirst himports) hlisted hothers
    obtain ⟨q, L', rfl⟩ := List.exists_cons_of_ne_nil hne
    have hq : q.profileId ∈ (q :: L').map (·.profileId) := by simp
    exact hleft q.profileId (hkept _ hq) fun heq => hnew p hp (heq ▸ hq)

end Steps

section Runs

variable [DecidableEq ι] {R : SetPool ι} {es : List (SetEvent ι)}

/-- A valid set of profiles: with different ids and different normal names, and not too many. -/
structure ValidSet (env : ServiceEnv) (a : String) (s : Stores) : Prop where
  ids : ((s.owned a).map (·.profileId)).Nodup
  normal : ∀ p ∈ s.owned a, normalizeName env p.name = p.name
  names : ((s.owned a).map fun p => normalizeName env p.name).Nodup
  room : (s.owned a).length ≤ env.maxProfiles

theorem validRows_iff : ValidRows env (s.rows a) ↔ ValidSet env a s := by
  unfold Stores.rows
  constructor
  · intro h
    have hids := List.pairwise_map.1 h.distinct
    refine ⟨List.pairwise_map.2 (hids.imp fun hab => hab.1),
      fun p hp => h.normal p.row (List.mem_map_of_mem hp), ?_, ?_⟩
    · rw [names_normal h]
      exact List.pairwise_map.2 (hids.imp fun hab => hab.2)
    · have hroom := h.room
      rwa [List.length_map] at hroom
  · intro h
    have hnames : ((s.owned a).map (·.name)).Nodup := by
      rw [← List.map_congr_left h.normal]
      exact h.names
    refine ⟨?_, fun row hrow => ?_, ?_⟩
    · refine List.pairwise_map.2 (List.Pairwise.and ?_ ?_)
      · exact List.pairwise_map.1 h.ids
      · exact List.pairwise_map.1 hnames
    · obtain ⟨p, hp, rfl⟩ := List.mem_map.1 hrow
      exact h.normal p hp
    · rw [List.length_map]
      exact h.room

/-- One step, whatever it is. -/
theorem set_step {e : SetEvent ι} (hn : NfcLaws env)
    (hr : Run profileHandler Free (startSet env casts a s jobs) (es ++ [e]) R)
    (hcond : Undisturbed env a jobs (es ++ [e]))
    (hvalid : ValidSoFar env a s es) :
    ValidRows env ((s.after (acts (es ++ [e]))).rows a) ∧
      ((s.after (acts es)).rows a ≠ [] → (s.after (acts (es ++ [e]))).rows a ≠ []) := by
  rcases change_cases (a := a) (actOf e) with hc | ⟨p, hop, htook, hc⟩ | ⟨pid, hop, hc⟩ | ⟨pid, upd,
    n, hop, hupd, hc⟩
  · have hsame : (s.after (acts (es ++ [e]))).rows a = (s.after (acts es)).rows a := by
      rw [rows_concat, hc]
      rfl
    rw [hsame]
    exact ⟨hvalid es [] (List.append_nil _).symm, id⟩
  · refine ⟨add_step hn hr hcond hvalid hop htook hc, fun _ => ?_⟩
    rw [rows_concat, hc]
    exact List.append_ne_nil_of_right_ne_nil _ (List.cons_ne_nil _ _)
  · obtain ⟨hrows, hleft⟩ := drop_step hr hcond hvalid hop hc
    exact ⟨hrows, fun _ => hleft⟩
  · refine ⟨rename_step hn hr hcond hvalid hop hupd hc, fun hne => ?_⟩
    rw [rows_concat, hc]
    exact fun hnil => hne (List.map_eq_nil_iff.1 hnil)

theorem set_run (hn : NfcLaws env) (h0 : ValidRows env (s.rows a))
    (hr : Run profileHandler Free (startSet env casts a s jobs) es R)
    (hcond : Undisturbed env a jobs es) :
    ValidSoFar env a s es ∧ ∀ es₁ es₂, es = es₁ ++ es₂ → (s.after (acts es₁)).rows a ≠ [] →
    (s.after (acts es)).rows a ≠ [] := by
  induction hr with
  | nil =>
    refine ⟨fun es₁ es₂ hes => ?_, fun es₁ es₂ hes hne => ?_⟩
    · rw [(List.append_eq_nil_iff.1 hes.symm).1]
      exact h0
    · rwa [(List.append_eq_nil_iff.1 hes.symm).1] at hne
  | @snoc es P Q e hr _ hst ih =>
    obtain ⟨hvalid, hkept⟩ := ih hcond.left
    obtain ⟨hrows, hstep⟩ := set_step hn (hr.snoc trivial hst) hcond hvalid
    have hcut : ∀ {es₁ es₂}, es ++ [e] = es₁ ++ es₂ → es₁ = es ++ [e] ∨ ∃ es₃, es = es₁ ++ es₃ := by
      intro es₁ es₂ hes
      rcases List.eq_nil_or_concat es₂ with rfl | ⟨es₃, e', rfl⟩
      · exact .inl (by simpa using hes.symm)
      · rw [List.concat_eq_append, ← List.append_assoc] at hes
        exact .inr ⟨es₃, (List.append_inj' hes rfl).1⟩
    refine ⟨fun es₁ es₂ hes => ?_, fun es₁ es₂ hes hne => ?_⟩
    · rcases hcut hes with rfl | ⟨es₃, hes'⟩
      · exact hrows
      · exact hvalid es₁ es₃ hes'
    · rcases hcut hes with rfl | ⟨es₃, hes'⟩
      · exact hne
      · exact hstep (hkept es₁ es₃ hes' hne)

/-- **The set of profiles.** After every run of creations, imports, deletions and patches on an
account in which nothing comes between a list and what relies on it: the profiles are at most
`MaxProfiles`, their normal names are pairwise different, and there is one if there has been one at
any time before. -/
theorem profile_set (hn : NfcLaws env) (h0 : ValidSet env a s)
    (hr : Run profileHandler Free (startSet env casts a s jobs) es R)
    (hcond : Undisturbed env a jobs es) :
    ValidSet env a R.state ∧ ∀ es₁ es₂, es = es₁ ++ es₂ → (s.after (acts es₁)).owned a ≠ [] →
    R.state.owned a ≠ [] := by
  obtain ⟨hvalid, hkept⟩ := set_run hn (validRows_iff.2 h0) hr hcond
  have hstate : R.state = s.after (acts es) := state_run hr
  have hrows : ∀ s : Stores, s.rows a ≠ [] ↔ s.owned a ≠ [] := fun s =>
    not_congr List.map_eq_nil_iff
  rw [hstate]
  refine ⟨validRows_iff.1 (hvalid es [] (List.append_nil _).symm), fun es₁ es₂ hes hne => ?_⟩
  exact (hrows _).1 (hkept es₁ es₂ hes ((hrows _).2 hne))

end Runs

section Checks

/-! ### Runs that meet the condition -/

variable [DecidableEq ι] {es : List (SetEvent ι)} {e e' : SetEvent ι}

def ProfileOp.lists : ProfileOp → Bool
  | .getProfilesByAccountId _ => true
  | _ => false

/-- The event drops a profile of the account. -/
def dropsOne (a : String) (e : SetEvent ι) : Bool :=
  match change a (actOf e) with
  | .drop _ => true
  | _ => false

instance : Decidable (change a (actOf e)).Names := by
  unfold Change.Names
  split <;> infer_instance

/-- From the list of a request up to its insertion or renaming, no other request inserts or
renames. -/
def NamesApart (a : String) : List (SetEvent ι) → Prop :=
  Between (fun x => x.op.lists = true) fun x e' e =>
    e.who = x.who → e'.who ≠ x.who → (change a (actOf e)).Names → ¬ (change a (actOf e')).Names

/-- From the list of a request up to its deletion, no other one deletes, and the list is not
empty. -/
def DropsApart (a : String) (es : List (SetEvent ι)) : Prop :=
  Between (fun x => x.op.lists = true) (fun x e' e =>
      e.who = x.who → e'.who ≠ x.who → dropsOne a e = true → dropsOne a e' = false) es ∧
    ∀ e ∈ es, dropsOne a e = true → ∀ x ∈ es, x.who = e.who → listingOf (actOf x) ≠ some []

instance : Decidable (NamesApart a es) := by
  unfold NamesApart
  infer_instance

instance : Decidable (DropsApart a es) := inferInstanceAs (Decidable (_ ∧ _))

omit [DecidableEq ι] in
theorem dropsOne_iff : dropsOne a e = true ↔ ∃ k, (change a (actOf e)).Drops k := by
  unfold dropsOne
  cases change a (actOf e) <;> simp [Change.Drops]

/-- The condition can be checked event by event. -/
theorem undisturbed_of_checks (hnames : NamesApart a es) (hdrops : DropsApart a es)
    (himports : ∀ i, ¬ (jobs i).Imports) : Undisturbed env a jobs es := by
  refine ⟨?_, ?_, fun es₁ es₂ e p L _ _ h => absurd h (himports _)⟩
  · rintro es₁ es₂ es₃ i L e rfl hwho - hnamed e' he' hother
    exact hnames.mid rfl he' hwho hother hnamed
  · rintro es₁ es₂ es₃ i L e rfl hwho - hdropped
    rw [← dropsOne_iff] at hdropped
    refine ⟨?_, fun e' he' hother k hk => ?_⟩
    · rintro rfl
      exact hdrops.2 e (by simp) hdropped ⟨i, .getProfilesByAccountId a, .ok []⟩
        (by simp) hwho.symm rfl
    · have hkept : dropsOne a e' = false := hdrops.1.mid rfl he' hwho hother hdropped
      rw [dropsOne_iff.2 ⟨k, hk⟩] at hkept
      cases hkept

end Checks

section Examples

/-- Creations of a profile. -/
def officeJobs (n : ℕ) : Fin n → SetJob String := fun _ => .create "office"

/-- A creation up to its list, and its insertion. -/
def lists {n : ℕ} (i : Fin n) (pid : String) : List (Fin n × Choice) :=
  (i, .id pid) :: List.replicate 11 (i, .ok)

/-- Both creations list the profiles before either inserts. -/
def createsOverlap : List (Fin 2 × Choice) :=
  lists (thread 0) "q" ++ lists (thread 1) "r" ++ [(thread 0, .ok), (thread 1, .ok)]

theorem createsOverlap_plays :
    (play profileHandler Free createsOverlap
      (startSet exampleEnv textCasts "a" freshStores (officeJobs 2))).isSome := by decide

/-- Two profiles have one name. -/
theorem names_collide : ValidSet exampleEnv "a" freshStores ∧
    ∃ es R, Run profileHandler Free (startSet exampleEnv textCasts "a" freshStores
      (officeJobs 2)) es R ∧
      ¬ ((R.state.owned "a").map fun p => normalizeName exampleEnv p.name).Nodup := by
  refine ⟨⟨by decide, by decide, by decide, by decide⟩, _, _, run_play createsOverlap_plays, ?_⟩
  decide

theorem exampleEnv_nfc : NfcLaws exampleEnv := ⟨fun _ => rfl, Go.trimSpace_trimSpace⟩

/-- Two creations, a deletion and a renaming. -/
def setRequests : List (SetJob String) :=
  [.create "office", .create "travel", .delete "p", .patch id "q" [⟨.replace, .name, "work"⟩]]

def setJobs (i : Fin 4) : SetJob String := setRequests[i.val]?.getD (.delete "p")

/-- The second creation comes between the list of the deletion and the deletion itself, the renaming
comes last. -/
def setTurns : List (Fin 4 × Choice) :=
  lists (thread 0) "q" ++ [(thread 0, .ok), (thread 2, .ok), (thread 2, .ok)] ++
    lists (thread 1) "r" ++ [(thread 1, .ok), (thread 2, .left true), (thread 2, .ok)] ++
    [(thread 3, .ok), (thread 3, .ok), (thread 3, .time 0), (thread 3, .ok)]

/-- The names stay different, and two of the profiles are left. -/
theorem profile_set_turns : ∃ es R,
    Run profileHandler Free (startSet exampleEnv textCasts "a" freshStores setJobs) es R ∧
      R.state.rows "a" = [("q", "work"), ("r", "travel")] ∧ ValidSet exampleEnv "a" R.state ∧
      ∀ es₁ es₂, es = es₁ ++ es₂ → (freshStores.after (acts es₁)).owned "a" ≠ [] →
      R.state.owned "a" ≠ [] := by
  have hplays : (play profileHandler Free setTurns
      (startSet exampleEnv textCasts "a" freshStores setJobs)).any (fun x =>
        NamesApart "a" x.1 ∧ DropsApart "a" x.1 ∧
          x.2.state.rows "a" = [("q", "work"), ("r", "travel")]) := by
    decide +kernel
  obtain ⟨⟨es, R⟩, hplay, hfacts⟩ := (Option.any_eq_true _ _).1 hplays
  obtain ⟨hnames, hdrops, hrows⟩ := of_decide_eq_true hfacts
  have hrun := run_of_play hplay
  have himports : ∀ i, ¬ (setJobs i).Imports := by
    intro i
    fin_cases i <;> exact id
  obtain ⟨hvalid, hkept⟩ :=
    profile_set exampleEnv_nfc ⟨by decide, by decide, by decide, by decide⟩ hrun
    (undisturbed_of_checks hnames hdrops himports)
  exact ⟨es, R, hrun, hrows, hvalid, hkept⟩

end Examples

end ModDNS.Profiles
