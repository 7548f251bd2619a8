import ModDNS.Proxy.SettingsCache

/-!
# Serving a deleted profile

What the queries of a proxy are served while a profile is deleted.

* `stale_law`: stale settings are served only if the store could not be consulted.
* `deleted_not_served`: a profile that a query found gone is not served again, unless
  a slower query puts it back into the cache.
-/

namespace ModDNS.Proxy

open Go Conc

section Paths

/-- An action of a thread with its answer. -/
abbrev LoadAct := LoadSig.Act

/-- The lookup is reported. -/
def Reports (x : CacheLookup) (l : List LoadAct) : Prop := ⟨.lookup x, ()⟩ ∈ l

/-- No look into the cache. -/
def NoGet (l : List LoadAct) : Prop := ∀ id r, ⟨.get id, r⟩ ∉ l

/-- The store could not be consulted for the query: it was not asked, or did not
answer, or some settings group could not be read. -/
def Unconsulted (l : List LoadAct) : Prop :=
  ∀ id f ruleIDs, ⟨.groups id, .ok (f, ruleIDs)⟩ ∈ l →
    f.privacyErr = some .store ∨ f.storeError = true ∨
      ∃ ruleIDs' e, ⟨.rules id ruleIDs', .error e⟩ ∈ l

variable {l l₁ l₂ : List LoadAct} {id : String} {cached : Option ProfileSettings}
  {state : CacheState}

theorem Unconsulted.append (h₁ : Unconsulted l₁) (h₂ : Unconsulted l₂) :
    Unconsulted (l₁ ++ l₂) := by
  intro id f ruleIDs h
  rcases List.mem_append.1 h with h | h
  · rcases h₁ id f ruleIDs h with h | h | ⟨i, e, h⟩
    · exact .inl h
    · exact .inr (.inl h)
    · exact .inr (.inr ⟨i, e, List.mem_append_left _ h⟩)
  · rcases h₂ id f ruleIDs h with h | h | ⟨i, e, h⟩
    · exact .inl h
    · exact .inr (.inl h)
    · exact .inr (.inr ⟨i, e, List.mem_append_right _ h⟩)

/-- One answered first pipeline. -/
theorem unconsulted_groups {f : Fetched} {ruleIDs : List String} {l : List LoadAct}
    (hl : ∀ id f ruleIDs, ⟨.groups id, .ok (f, ruleIDs)⟩ ∉ l)
    (hf : f.privacyErr = some .store ∨ f.storeError = true ∨
      ∃ ruleIDs' e, ⟨.rules id ruleIDs', .error e⟩ ∈ l) :
    Unconsulted (⟨.groups id, .ok (f, ruleIDs)⟩ :: l) := by
  intro id' f' ruleIDs' hmem
  rcases List.mem_cons.1 hmem with heq | hmem
  · cases heq
    rcases hf with hf | hf | ⟨i, e, hf⟩
    · exact .inl hf
    · exact .inr (.inl hf)
    · exact .inr (.inr ⟨i, e, List.mem_cons_of_mem _ hf⟩)
  · exact absurd hmem (hl _ _ _)

/-- Whether a fetch is allowed is settled without the store. -/
theorem fetchAllowed_path {q : LoadProg Bool} (hp : Path fetchAllowed l q) :
    NoGet l ∧ (∀ x, ¬ Reports x l) ∧ Unconsulted l := by
  rcases path_op hp with rfl | ⟨r, l', rfl, hk⟩
  · simp [NoGet, Reports, Unconsulted]
  · by_cases hr : r = 0
    · rw [if_pos hr] at hk
      obtain ⟨rfl, -⟩ := path_pure hk
      simp [NoGet, Reports, Unconsulted]
    · rw [if_neg hr] at hk
      rcases path_call hk with ⟨rfl, -⟩ | ⟨r', l'', rfl, hk'⟩
      · simp [NoGet, Reports, Unconsulted]
      · obtain ⟨rfl, -⟩ := path_pure hk'
        simp [NoGet, Reports, Unconsulted]

/-- The outcomes of a batch that make its query fall back. -/
def BatchFailed : Except ConnErr Fetched → Prop
  | .error _ => True
  | .ok f => f.privacyErr = some .store ∨ f.storeError = true

/-- A batch that makes its query fall back has not consulted the store. -/
theorem batch_path {q : LoadProg (Except ConnErr Fetched)}
    (hp : Path (getProfileSettingsBatch id) l q) :
    NoGet l ∧ (∀ x, ¬ Reports x l) ∧ ∀ x, q = .pure x → BatchFailed x → Unconsulted l := by
  unfold getProfileSettingsBatch at hp
  by_cases hid : id = ""
  · rw [if_pos hid] at hp
    obtain ⟨rfl, -⟩ := path_pure hp
    simp [NoGet, Reports, Unconsulted]
  rw [if_neg hid] at hp
  rcases path_op hp with rfl | ⟨r, l', rfl, hk⟩
  · simp [NoGet, Reports, Unconsulted]
  cases r with
  | error e =>
    obtain ⟨rfl, -⟩ := path_pure hk
    simp [NoGet, Reports, Unconsulted]
  | ok x =>
    obtain ⟨f, ruleIDs⟩ := x
    by_cases hids : ruleIDs = []
    · simp only [if_pos hids] at hk
      obtain ⟨rfl, rfl⟩ := path_pure hk
      refine ⟨by simp [NoGet], by simp [Reports], ?_⟩
      rintro _ ⟨⟩ hf
      exact unconsulted_groups (by simp) (hf.imp_right .inl)
    simp only [if_neg hids] at hk
    rcases path_op hk with rfl | ⟨r, l', rfl, hk'⟩
    · cases path_nil hk
      refine ⟨by simp [NoGet], by simp [Reports], ?_⟩
      rintro _ ⟨⟩
    cases r with
    | error e =>
      obtain ⟨rfl, rfl⟩ := path_pure hk'
      refine ⟨by simp [NoGet], by simp [Reports], ?_⟩
      rintro _ ⟨⟩ -
      exact unconsulted_groups (by simp) (.inr (.inr ⟨ruleIDs, e, by simp⟩))
    | ok rules =>
      obtain ⟨rfl, rfl⟩ := path_pure hk'
      refine ⟨by simp [NoGet], by simp [Reports], ?_⟩
      rintro _ ⟨⟩ hf
      exact unconsulted_groups (by simp) (hf.imp_right .inl)

/-- What a query does once the cache did not answer: no further look, and only a stale
copy is served from the cache. -/
structure Fallback (state : CacheState) (l : List LoadAct) : Prop where
  noGet : NoGet l
  noHit : ¬ Reports .hit l
  stale : Reports .stale l → state = .stale
  unconsulted : Unconsulted l

theorem fallback_nil : Fallback state [] := by constructor <;> simp [NoGet, Reports, Unconsulted]

theorem settingsUnavailable_path {q : LoadProg Loaded}
    (hp : Path (settingsUnavailable cached state) l q) :
    Fallback state l := by
  unfold settingsUnavailable at hp
  by_cases hst : state = .stale
  · rw [if_pos hst] at hp
    rcases path_op hp with rfl | ⟨r, l', rfl, hk⟩
    · exact fallback_nil
    · obtain ⟨rfl, -⟩ := path_pure hk
      constructor <;> simp [NoGet, Reports, Unconsulted, hst]
  · rw [if_neg hst] at hp
    rcases path_op hp with rfl | ⟨r, l', rfl, hk⟩
    · exact fallback_nil
    · obtain ⟨rfl, -⟩ := path_pure hk
      constructor <;> simp [NoGet, Reports, Unconsulted]

/-- One more action in front, neither a look nor a report nor a fetch. -/
theorem Fallback.cons {a : LoadAct} (h : Fallback state l) (h₁ : ∀ id, a.1 ≠ .get id)
    (h₂ : ∀ x, a.1 ≠ .lookup x) (h₃ : ∀ id, a.1 ≠ .groups id) : Fallback state (a :: l) := by
  have hne : ∀ b : LoadAct, a.1 ≠ b.1 → b ∈ a :: l → b ∈ l := by
    rintro b hb hmem
    rcases List.mem_cons.1 hmem with rfl | hmem
    · exact absurd rfl hb
    · exact hmem
  refine ⟨fun id r hm => h.noGet id r (hne _ (h₁ id) hm), fun hm => h.noHit (hne _ (h₂ _) hm),
    fun hm => h.stale (hne _ (h₂ _) hm), fun id f ruleIDs hm => ?_⟩
  rcases h.unconsulted id f ruleIDs (hne _ (h₃ id) hm) with hf | hf | ⟨i, e, hf⟩
  · exact .inl hf
  · exact .inr (.inl hf)
  · exact .inr (.inr ⟨i, e, List.mem_cons_of_mem _ hf⟩)

/-- Stale settings are used only after a failed batch. -/
theorem useFetched_path {x : Except ConnErr Fetched} {q : LoadProg Loaded}
    (hp : Path (useFetched id cached state x) l q) :
    Fallback state l ∧ (Reports .stale l → BatchFailed x) := by
  cases x with
  | error e =>
    rcases path_op hp with rfl | ⟨r, l', rfl, hk⟩
    · exact ⟨fallback_nil, fun _ => trivial⟩
    · exact ⟨(settingsUnavailable_path hk).cons (by simp) (by simp) (by simp), fun _ => trivial⟩
  | ok f =>
    rcases path_op hp with rfl | ⟨r, l', rfl, hk⟩
    · exact ⟨fallback_nil, by simp [Reports]⟩
    cases hf : f.privacyErr with
    | some e =>
      simp only [hf] at hk
      cases e with
      | notFound =>
        rcases path_op hk with rfl | ⟨r, l', rfl, hk'⟩
        · exact ⟨fallback_nil.cons (by simp) (by simp) (by simp), by simp [Reports]⟩
        rcases path_op hk' with rfl | ⟨r, l', rfl, hk''⟩
        · constructor
          · constructor <;> simp [NoGet, Reports, Unconsulted]
          · simp [Reports]
        · obtain ⟨rfl, -⟩ := path_pure hk''
          constructor
          · constructor <;> simp [NoGet, Reports, Unconsulted]
          · simp [Reports]
      | store =>
        exact ⟨(settingsUnavailable_path hk).cons (by simp) (by simp) (by simp), fun _ => .inl hf⟩
    | none =>
      simp only [hf] at hk
      by_cases hs : f.storeError = true
      · rw [if_pos hs] at hk
        exact ⟨(settingsUnavailable_path hk).cons (by simp) (by simp) (by simp), fun _ => .inr hs⟩
      · rw [if_neg hs] at hk
        rcases path_op hk with rfl | ⟨r, l', rfl, hk'⟩
        · exact ⟨fallback_nil.cons (by simp) (by simp) (by simp), by simp [Reports]⟩
        rcases path_op hk' with rfl | ⟨r, l', rfl, hk''⟩
        · constructor
          · constructor <;> simp [NoGet, Reports, Unconsulted]
          · simp [Reports]
        · obtain ⟨rfl, -⟩ := path_pure hk''
          constructor
          · constructor <;> simp [NoGet, Reports, Unconsulted]
          · simp [Reports]

theorem reports_append {x : CacheLookup} : Reports x (l₁ ++ l₂) ↔ Reports x l₁ ∨ Reports x l₂ :=
  List.mem_append

theorem NoGet.append (h₁ : NoGet l₁) (h₂ : NoGet l₂) : NoGet (l₁ ++ l₂) := fun id r hm =>
  (List.mem_append.1 hm).elim (h₁ id r) (h₂ id r)

/-- What a query does after a look into the cache that found nothing fresh. -/
structure AfterGet (state : CacheState) (l : List LoadAct) : Prop where
  noGet : NoGet l
  noHit : ¬ Reports .hit l
  stale : Reports .stale l → state = .stale ∧ Unconsulted l

theorem Fallback.afterGet (h : Fallback state l) : AfterGet state l :=
  ⟨h.noGet, h.noHit, fun hs => ⟨h.stale hs, h.unconsulted⟩⟩

/-- The fetch, once it is allowed. -/
theorem fetch_path {q : LoadProg Loaded}
    (hp : Path ((getProfileSettingsBatch id).bind (useFetched id cached state)) l q) :
    AfterGet state l := by
  rcases path_bind hp with ⟨p', h, -⟩ | ⟨l₁, x, l₂, rfl, h₁, h₂⟩
  · obtain ⟨hg, hr, -⟩ := batch_path h
    exact ⟨hg, hr _, fun h => absurd h (hr _)⟩
  · obtain ⟨hg, hr, hu⟩ := batch_path h₁
    obtain ⟨hf, hx⟩ := useFetched_path h₂
    refine ⟨hg.append hf.noGet, fun h => ?_, fun h => ?_⟩
    · exact (reports_append.1 h).elim (hr _) hf.noHit
    · have h' := (reports_append.1 h).resolve_left (hr _)
      exact ⟨hf.stale h', (hu x rfl (hx h')).append hf.unconsulted⟩

/-- The path of a query: one look into the cache, which it serves only if it found
something there, and serves as stale only without the store. -/
theorem load_path {q : LoadProg Loaded} (hp : Path (loadProfileSettings id) l q) :
    l = [] ∨ ∃ r l', l = ⟨.get id, r⟩ :: l' ∧ NoGet l' ∧
      (Reports .hit l' ∨ Reports .stale l' → r.2 ≠ .miss) ∧
        (Reports .stale l' → Unconsulted l') := by
  rcases path_op hp with rfl | ⟨r, l', rfl, hk⟩
  · exact .inl rfl
  refine .inr ⟨r, l', rfl, ?_⟩
  obtain ⟨cached, state⟩ := r
  by_cases hst : state = .fresh
  · simp only [if_pos hst] at hk
    rcases path_op hk with rfl | ⟨r, l', rfl, hk'⟩
    · simp [NoGet, Reports]
    · obtain ⟨rfl, -⟩ := path_pure hk'
      simp [NoGet, Reports, hst]
  · simp only [if_neg hst] at hk
    have hafter : AfterGet state l' := by
      rcases path_bind hk with ⟨p', h, -⟩ | ⟨l₁, allowed, l₂, rfl, h₁, h₂⟩
      · obtain ⟨hg, hr, -⟩ := fetchAllowed_path h
        exact ⟨hg, hr _, fun h => absurd h (hr _)⟩
      · obtain ⟨hg, hr, hu⟩ := fetchAllowed_path h₁
        have h2 : AfterGet state l₂ := by
          by_cases ha : allowed = true
          · rw [if_pos ha] at h₂; exact fetch_path h₂
          · rw [if_neg ha] at h₂; exact (settingsUnavailable_path h₂).afterGet
        refine ⟨hg.append h2.noGet, fun h => ?_, fun h => ?_⟩
        · exact (reports_append.1 h).elim (hr _) h2.noHit
        · obtain ⟨hs, hun⟩ := h2.stale ((reports_append.1 h).resolve_left (hr _))
          exact ⟨hs, hu.append hun⟩
    refine ⟨hafter.noGet, ?_, fun h => (hafter.stale h).2⟩
    rintro (h | h)
    · exact absurd h hafter.noHit
    · simp [(hafter.stale h).1]

end Paths

section Runs

variable {ι : Type} [DecidableEq ι] {id : String} {jobs : ι → Job} {s : LoadState}

/-- The queries and deletions at the start of a run, over any cache and store. -/
def start (jobs : ι → Job) (s : LoadState) : Pool LoadSig ι LoadState Loaded :=
  ⟨s, fun i => (jobs i).prog⟩

/-- A profile is served from the cache although a query had found it gone: it is
deleted, a fetch that starts after that reports it gone and evicts it, and a query that
starts after that still serves cached settings. -/
def ServedAfterGone (id : String) (es : List (Event LoadSig ι)) : Prop :=
  ∃ a b c d e : ℕ, a < b ∧ b < c ∧ c < d ∧ d < e ∧
    ∃ i j k f ruleIDs r x,
      es[a]? = some ⟨k, .delete id, ()⟩ ∧
      es[b]? = some ⟨j, .groups id, .ok (f, ruleIDs)⟩ ∧ f.privacyErr = some .notFound ∧
      es[c]? = some ⟨j, .evict id, ()⟩ ∧
      es[d]? = some ⟨i, .get id, r⟩ ∧
      es[e]? = some ⟨i, .lookup x, ()⟩ ∧ (x = .hit ∨ x = .stale)

/-- A Put of the profile comes after an Evict of it. -/
def LatePut (id : String) (es : List (Event LoadSig ι)) : Prop :=
  ∃ a b : ℕ, a < b ∧ ∃ j k settings,
    es[a]? = some ⟨j, .evict id, ()⟩ ∧ es[b]? = some ⟨k, .put id settings, ()⟩

variable {P Q : Pool LoadSig ι LoadState Loaded} {e : Event LoadSig ι} {es : List (Event LoadSig ι)}

/-- What a step does to the presence of a profile in the cache. -/
theorem step_cached (hst : Step loadHandler P e Q) (hc : Q.state.cache.Cached id) :
    e.op ≠ .evict id ∧ (P.state.cache.Cached id ∨ ∃ settings, e.op = .put id settings) := by
  cases hst with
  | @mk i o k ch r s hp hs =>
    simp only [loadHandler, Option.some.injEq] at hs
    have hs' : s = (loadAct ch { P.state with now := P.state.now + ch.tick } o).2 := by rw [hs]
    simp only [Pool.set_state] at hc
    subst hs'
    cases o with
    | get id' => exact ⟨by simp, .inl (SettingsCache.get_cached hc)⟩
    | probe n =>
      refine ⟨by simp, .inl ?_⟩
      obtain ⟨x, hx⟩ := hc
      exact ⟨x, by simpa [loadAct, SettingsCache.probe_entries] using hx⟩
    | evict id' =>
      obtain ⟨hne, hc'⟩ := SettingsCache.evict_cached hc
      exact ⟨by simpa using Ne.symm hne, .inl hc'⟩
    | put id' settings =>
      refine ⟨by simp, ?_⟩
      by_cases hid : id = id'
      · subst hid; exact .inr ⟨settings, rfl⟩
      · exact .inl (SettingsCache.put_cached hid hc)
    | _ => exact ⟨by simp, .inl hc⟩

/-- A look finds nothing of a profile that is not in the cache. -/
theorem step_get {i : ι} {r : LoadSig.Res (.get id)} (hst : Step loadHandler P ⟨i, .get id, r⟩ Q)
    (hc : ¬ P.state.cache.Cached id) : r = (none, .miss) := by
  cases hst with
  | mk hp hs =>
    simp only [loadHandler, loadAct, Option.some.injEq, Prod.mk.injEq] at hs
    rw [← hs.1, SettingsCache.get_miss hc]

/-- Without a Put of it, a profile that is not in the cache stays out, and looks miss. -/
theorem run_uncached (hr : Run loadHandler Free P es Q) (hc : ¬ P.state.cache.Cached id)
    (hput : ∀ e ∈ es, ∀ settings, e.op ≠ .put id settings) :
    ¬ Q.state.cache.Cached id ∧ ∀ i r, ⟨i, .get id, r⟩ ∈ es → r = (none, .miss) := by
  induction hr with
  | nil => exact ⟨hc, by simp⟩
  | snoc _ _ hst ih =>
    obtain ⟨hc', hget⟩ := ih fun e he => hput e (List.mem_append_left _ he)
    refine ⟨fun h => ?_, fun i r hm => ?_⟩
    · rcases (step_cached hst h).2 with h' | ⟨settings, hop⟩
      · exact hc' h'
      · exact hput _ (by simp) settings hop
    · rcases List.mem_append.1 hm with hm | hm
      · exact hget i r hm
      · obtain rfl := List.mem_singleton.1 hm
        exact step_get hst hc'

theorem job_path (hr : Run loadHandler Free (start jobs s) es Q) (i : ι) :
    (∀ a ∈ trace i es, ∃ id, a.1 = .delete id) ∨ ∃ id, Path (loadProfileSettings id) (trace i es)
    (Q.prog i) := by
  have hp := run_path hr i
  cases hj : jobs i with
  | query id => exact .inr ⟨id, by simpa [start, Job.prog, hj] using hp⟩
  | delete id =>
    left
    simp only [start, Job.prog, hj] at hp
    rcases path_op hp with hl | ⟨r, l', hl, hk⟩
    · simp [hl]
    · obtain ⟨rfl, -⟩ := path_pure hk
      simp [hl]

/-- **Stale settings.** A query serves stale settings only if the store could not be
consulted for it. -/
theorem stale_law (hr : Run loadHandler Free (start jobs s) es Q) (i : ι)
    (hs : Reports .stale (trace i es)) : Unconsulted (trace i es) := by
  rcases job_path hr i with hdel | ⟨id, hp⟩
  · obtain ⟨id, h⟩ := hdel _ hs
    cases h
  · rcases load_path hp with hl | ⟨r, l', hl, -, -, hun⟩
    · simp [hl, Unconsulted]
    · rw [hl] at hs ⊢
      have hs' : Reports .stale l' := by simpa [Reports] using hs
      intro id f ruleIDs hm
      rcases hun hs' id f ruleIDs (by simpa using hm) with h | h | ⟨i, e, h⟩
      · exact .inl h
      · exact .inr (.inl h)
      · exact .inr (.inr ⟨i, e, List.mem_cons_of_mem _ h⟩)

/-- A query that serves from the cache has found something there, in its only look. -/
theorem served_get {r : LoadSig.Res (.get id)} {l : List LoadAct} {id' : String}
    {q : LoadProg Loaded} (hp : Path (loadProfileSettings id') l q) (hm : ⟨.get id, r⟩ ∈ l)
    (hx : Reports .hit l ∨ Reports .stale l) :
    r.2 ≠ .miss := by
  rcases load_path hp with rfl | ⟨r₀, l', rfl, hng, hmiss, -⟩
  · simp at hm
  · rcases List.mem_cons.1 hm with heq | hm
    · cases heq
      exact hmiss (by simpa [Reports] using hx)
    · exact absurd hm (hng _ _)

theorem not_servedAfterGone (hr : Run loadHandler Free (start jobs s) es Q)
    (hlate : ¬ LatePut id es) :
    ¬ ServedAfterGone id es := by
  rintro ⟨a, b, c, d, e, -, -, hcd, hde, i, j, k, f, ruleIDs, r, x, -, -, -, hc, hd, he, hx⟩
  obtain ⟨P, P', -, -, hst, hrest⟩ := run_at hr hc
  have hgone : ¬ P'.state.cache.Cached id := fun h => (step_cached hst h).1 rfl
  have hput : ∀ e ∈ es.drop (c + 1), ∀ settings, e.op ≠ .put id settings := by
    rintro ⟨k, o, u⟩ hm settings rfl
    obtain ⟨n, hn⟩ := List.mem_iff_getElem?.1 hm
    rw [List.getElem?_drop] at hn
    exact hlate ⟨c, c + 1 + n, by omega, j, k, settings, hc, hn⟩
  have hmem : ⟨i, .get id, r⟩ ∈ es.drop (c + 1) := by
    refine List.mem_iff_getElem?.2 ⟨d - (c + 1), ?_⟩
    rw [List.getElem?_drop, show c + 1 + (d - (c + 1)) = d by omega]
    exact hd
  have hr0 := (run_uncached hrest hgone hput).2 i r hmem
  -- the query that looked in vain reports neither a hit nor a stale copy
  have hget : ⟨.get id, r⟩ ∈ trace i es := mem_trace.2 (List.mem_of_getElem? hd)
  have hrep : Reports x (trace i es) := mem_trace.2 (List.mem_of_getElem? he)
  rcases job_path hr i with hdel | ⟨id', hp⟩
  · obtain ⟨_, h⟩ := hdel _ hget
    cases h
  · refine served_get hp hget ?_ (by rw [hr0])
    rcases hx with rfl | rfl
    · exact .inl hrep
    · exact .inr hrep

/-- **A deleted profile.** In every interleaving of queries and deletions: unless a Put of
the profile comes after an Evict of it, no query is served it from the cache once a
query found it gone; and stale settings are served only without the store. -/
theorem deleted_not_served (jobs : ι → Job) (s : LoadState)
    (hr : Run loadHandler Free (start jobs s) es Q) :
    (∀ id, ¬ LatePut id es → ¬ ServedAfterGone id es) ∧
      ∀ i, Reports .stale (trace i es) → Unconsulted (trace i es) :=
  ⟨fun _ => not_servedAfterGone hr, stale_law hr⟩

end Runs

section SlowPut

/-! ### Two schedules -/

/-- Three queries of a profile, and its deletion. -/
def slowJobs : Fin 4 → Job
  | 1 => .delete "p"
  | _ => .query "p"

/-- An empty cache, and a profile in the store. -/
def slowStart : LoadState where
  cache := { ttl := 30, size := 100, probeInterval := 1, entries := [], retryAt := 0 }
  store _ :=
    { groups := { ProfileSettings.empty with privacy := [("default_rule", "allow")] }
      customRules := [] }
  now := 1

/-- Query 0 fetches, the profile is deleted, query 2 finds it gone and evicts it, query 0
puts it back, query 3 hits. -/
def slowSchedule : List (Fin 4 × LoadChoice) :=
  [0, 0, 0, 1, 2, 2, 2, 2, 2, 2, 0, 0, 0, 3, 3].map fun i => (thread i, ⟨0, false, []⟩)

theorem slowSchedule_plays :
    (play loadHandler Free slowSchedule (start slowJobs slowStart)).isSome := by decide

/-- A slow fetch brings a deleted profile back. -/
theorem slowPut_servedAfterGone :
    ∃ es Q, Run loadHandler Free (start slowJobs slowStart) es Q ∧ ServedAfterGone "p" es :=
  ⟨_, _, run_play slowSchedule_plays, 3, 6, 8, 13, 14, by decide, by decide, by decide, by decide,
    3, 2, 1, _, _, _, .hit, rfl, rfl, rfl, rfl, rfl, rfl, .inl rfl⟩

def LoadOp.evicts (id : String) : LoadOp → Bool
  | .evict id' => id' = id
  | _ => false

def LoadOp.puts (id : String) : LoadOp → Bool
  | .put id' _ => id' = id
  | _ => false

/-- All evictions of a profile come after its last Put. -/
theorem not_latePut {ι : Type} (id : String) (es : List (Event LoadSig ι)) (n : ℕ)
    (hevict : ∀ e ∈ es.take n, e.op.evicts id = false)
    (hput : ∀ e ∈ es.drop n, e.op.puts id = false) : ¬ LatePut id es := by
  rintro ⟨a, b, hab, j, k, settings, ha, hb⟩
  by_cases han : a < n
  · have hmem : ⟨j, .evict id, ()⟩ ∈ es.take n :=
      List.mem_of_getElem? (by rwa [List.getElem?_take_of_lt han])
    simpa [LoadOp.evicts] using hevict _ hmem
  · have hmem : ⟨k, .put id settings, ()⟩ ∈ es.drop n := by
      apply List.mem_iff_getElem?.2 ⟨b - n, ?_⟩
      rwa [List.getElem?_drop, show n + (b - n) = b by omega]
    simpa [LoadOp.puts] using hput _ hmem

/-- Four queries of a profile, and its deletion. -/
def goneJobs : Fin 5 → Job
  | 2 => .delete "p"
  | _ => .query "p"

/-- Query 0 fills the cache. Much later the store does not answer query 1, which serves the
stale copy. The profile is deleted, query 3 probes the store, finds it gone and evicts it, and
query 4 finds nothing in the cache. -/
def goneSchedule : List (Fin 5 × LoadChoice) :=
  List.replicate 6 (thread 0, ⟨0, false, []⟩) ++
    [(thread 1, ⟨40, false, []⟩), (thread 1, ⟨0, false, []⟩), (thread 1, ⟨0, true, []⟩),
      (thread 1, ⟨0, false, []⟩), (thread 1, ⟨0, false, []⟩)] ++
    (thread 2, ⟨0, false, []⟩) :: (thread 3, ⟨5, false, []⟩) ::
      List.replicate 6 (thread 3, ⟨0, false, []⟩) ++
    List.replicate 6 (thread 4, ⟨0, false, []⟩)

theorem goneSchedule_plays :
    (play loadHandler Free goneSchedule (start goneJobs slowStart)).isSome := by decide

/-- The stale copy is served to query 1, and nothing is served once the profile is evicted. -/
theorem deleted_not_served_gone :
    ∃ es Q, Run loadHandler Free (start goneJobs slowStart) es Q ∧
      (∃ settings, es[6]? = some ⟨1, .get "p", (settings, .stale)⟩ ∧
        Reports .stale (trace 1 es) ∧ Unconsulted (trace 1 es)) ∧
      es[11]? = some ⟨2, .delete "p", ()⟩ ∧ es[17]? = some ⟨3, .evict "p", ()⟩ ∧
      es[19]? = some ⟨4, .get "p", (none, .miss)⟩ ∧
      ¬ LatePut "p" es ∧ ¬ ServedAfterGone "p" es := by
  have hrun := run_play goneSchedule_plays
  obtain ⟨hgone, hstale⟩ := deleted_not_served goneJobs slowStart hrun
  have hlate : ¬ LatePut "p"
      ((play loadHandler Free goneSchedule (start goneJobs slowStart)).get goneSchedule_plays).1 :=
    not_latePut _ _ 11 (by decide +kernel) (by decide +kernel)
  have hserved : Reports .stale (trace 1
      ((play loadHandler Free goneSchedule (start goneJobs slowStart)).get goneSchedule_plays).1) :=
    mem_trace.2 (List.mem_iff_getElem?.2 ⟨10, rfl⟩)
  exact ⟨_, _, hrun, ⟨_, rfl, hserved, hstale 1 hserved⟩, rfl, rfl, rfl, hlate, hgone "p" hlate⟩

end SlowPut

end ModDNS.Proxy
