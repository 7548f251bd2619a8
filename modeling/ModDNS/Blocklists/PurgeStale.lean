import ModDNS.Blocklists.Publish

/-!
# The purge of stale lists

`PurgeStale` removes the lists that are stored and no longer among the sources: the metadata, the
contents and the sets in Redis of one after the other. Every call of it may fail, and a `DeleteMany`
that fails may have removed some documents.

* `purgeStale_follows`: a purge deletes lists that it found stale, and none beyond its two
  thresholds.
* `purge_only_stale`: so it leaves the live lists alone, exactly when no key of one is a key of a
  stale list.
-/

namespace ModDNS.Blocklists

open Go Conc

/-- `UpdaterConfig`, as far as a purge reads it. -/
structure UpdaterConfig where
  minSources : ℤ
  maxStalePurge : ℤ

def minSources : Option UpdaterConfig → ℤ
  | some updater => if 1 < updater.minSources then updater.minSources else 1
  | none => 1

def defaultMaxStalePurge : ℤ := 5

def maxStalePurge : Option UpdaterConfig → ℤ
  | some updater =>
    if 1 ≤ updater.maxStalePurge then updater.maxStalePurge else defaultMaxStalePurge
  | none => defaultMaxStalePurge

/-- The values in a filter of the repository. -/
inductive FilterValue where
  | string (v : String)
  | strings (v : List String)
  | objectID (v : ObjectID)
  | objectIDs (v : List ObjectID)
  /-- A map, with what it has under `$regex`. -/
  | map (regex : Option String)
  | bool (v : Bool)
  | other
deriving DecidableEq

abbrev Filter := List (String × FilterValue)

/-- A query of the repository. -/
inductive Query where
  | all
  | default (isDefault : Bool)
  | blocklistID (v : String)
  | notBlocklistIDs (v : List String)
  | blocklistIDRegex (regex : String)
  | id (v : ObjectID)
  | ids (v : List ObjectID)

/-- `cast.ToBoolE`, and the regular expressions of the database. -/
structure Repository where
  toBoolE : FilterValue → Option Bool
  matchesRegex : String → String → Bool

/-- The documents of a query; the contents have no field `default`. -/
def Query.holds (repo : Repository) (id : ObjectID) (blocklistID : String) : Query → Bool
  | .all => true
  | .default _ => false
  | .blocklistID v => blocklistID = v
  | .notBlocklistIDs v => blocklistID ∉ v
  | .blocklistIDRegex regex => repo.matchesRegex regex blocklistID
  | .id v => id = v
  | .ids v => id ∈ v

/-- The query of `DeleteMetadata`. -/
def metadataQuery (filter : Filter) : Query :=
  match filter.lookup "blocklist_id" with
  | some (.string v) => .blocklistID v
  | some (.strings v) => .notBlocklistIDs v
  | _ => .all

/-- The query of `Delete`; `none` is an error. -/
def contentQuery (repo : Repository) (filter : Filter) : Option Query := do
  let query ← match filter.lookup "default" with
    | some v => (repo.toBoolE v).map .default
    | none => some .all
  let query := match filter.lookup "blocklist_id" with
    | some (.string v) => .blocklistID v
    | some (.map (some regex)) => .blocklistIDRegex regex
    | _ => query
  match filter.lookup "_id" with
  | some (.objectID v) => some (.id v)
  | some (.objectIDs v) => some (.ids v)
  | some _ => none
  | none => some query

inductive PurgeOp where
  | getMetadata
  | deleteMetadata (filter : Filter)
  | delete (filter : Filter)
  | deleteBlocklist (blocklistId : String)
deriving DecidableEq

def PurgeOp.Ans : PurgeOp → Type
  | .getMetadata => List BlocklistMetadata
  | _ => Unit

abbrev purgeCalls : Calls := ⟨PurgeOp, PurgeOp.Ans, Unit, fun _ => false⟩

abbrev PurgeFlow := Flow purgeCalls

/-- How a call goes. -/
inductive CallOutcome where
  | ok
  /-- It fails; the documents that a `DeleteMany` has left by then, and whether Redis has carried
  the command out. -/
  | fail (left : ObjectID → Bool) (applied : Bool)

namespace CallOutcome

variable {α : Type}

def answer (a : α) : CallOutcome → Except Unit α
  | ok => .ok a
  | fail _ _ => .error ()

/-- `DeleteMany`. -/
def deleteMany (holds : α → Bool) (id : α → ObjectID) (docs : List α) : CallOutcome → List α
  | ok => docs.filter fun d => !holds d
  | fail left _ => docs.filter fun d => !holds d || left (id d)

def applied : CallOutcome → Bool
  | ok => true
  | fail _ applied => applied

end CallOutcome

/-- `DEL` of the set and the exceptions. -/
def deleteBlocklist (blocklistId : String) (redis : String → Option RedisSet) :
    String → Option RedisSet :=
  fun key => if key ∈ [liveKey blocklistId, exceptionsKey blocklistId] then none else redis key

def purgeHandler (repo : Repository) : Handler purgeCalls.sig Unit Stores CallOutcome :=
  fun _ o c s =>
  match o with
  | .getMetadata => some (c.answer s.metadata, s)
  | .deleteMetadata filter => some (c.answer (),
      { s with
        metadata := c.deleteMany (fun m => (metadataQuery filter).holds repo m.id m.blocklistID)
          (·.id) s.metadata })
  | .delete filter =>
    match contentQuery repo filter with
    | none => some (.error (), s)
    | some query => some (c.answer (),
        { s with
          content := c.deleteMany (fun m => query.holds repo m.id m.blocklistID) (·.id) s.content })
  | .deleteBlocklist id =>
    some (c.answer (), if c.applied then { s with redis := deleteBlocklist id s.redis } else s)

/-- The stored lists that are not among the sources. -/
def staleIDs (sources allMetadata : List BlocklistMetadata) : List String :=
  (allMetadata.map (·.blocklistID)).filter fun id => id ∉ sources.map (·.blocklistID)

abbrev perform (o : PurgeOp) : PurgeFlow o.Ans := act (C := purgeCalls) o

/-- The calls for one stale list; that one fails is logged. -/
def purgeList (id : String) : PurgeFlow Unit := do
  let _ ← attempt (perform (.deleteMetadata [("blocklist_id", .string id)]))
  let _ ← attempt (perform (.delete [("blocklist_id", .string id)]))
  let _ ← attempt (perform (.deleteBlocklist id))
  return ()

def purgeLists : List String → PurgeFlow Unit
  | [] => return ()
  | id :: ids => do
    purgeList id
    purgeLists ids

/-- `PurgeStale`. -/
def purgeStale (updater : Option UpdaterConfig) (sources : List BlocklistMetadata) :
    PurgeFlow Unit := do
  if sources.length < minSources updater then return ()
  else
    match ← attempt (perform .getMetadata) with
    | .error _ => return ()
    | .ok allMetadata =>
      let staleIDs := staleIDs sources allMetadata
      if staleIDs = [] then return ()
      else if maxStalePurge updater < staleIDs.length then return ()
      else purgeLists staleIDs

section Meets

variable {updater : Option UpdaterConfig} {sources : List BlocklistMetadata}
  {l : List purgeCalls.sig.Act}

/-- The metadata that have been read. -/
def Read (allMetadata : List BlocklistMetadata) (l : List purgeCalls.sig.Act) : Prop :=
  (⟨.getMetadata, .ok allMetadata⟩ : purgeCalls.sig.Act) ∈ l

/-- The list has been found stale, among not too many others. -/
def FoundStale (updater : Option UpdaterConfig) (sources : List BlocklistMetadata)
    (l : List purgeCalls.sig.Act) (id : String) : Prop :=
  minSources updater ≤ sources.length ∧ ∃ allMetadata, Read allMetadata l ∧
    id ∈ staleIDs sources allMetadata ∧ (staleIDs sources allMetadata).length ≤
      maxStalePurge updater

/-- What a purge knows when it makes a call. -/
def PurgeAllowed (updater : Option UpdaterConfig) (sources : List BlocklistMetadata)
    (l : List purgeCalls.sig.Act) :
    PurgeOp → Prop
  | .getMetadata => l = []
  | .deleteMetadata filter =>
    ∃ id, FoundStale updater sources l id ∧ filter = [("blocklist_id", .string id)]
  | .delete filter =>
    ∃ id, FoundStale updater sources l id ∧ filter = [("blocklist_id", .string id)]
  | .deleteBlocklist id => FoundStale updater sources l id

theorem FoundStale.mono {id : String} {l' : List purgeCalls.sig.Act}
    (h : FoundStale updater sources l id) (hl : l <+: l') :
    FoundStale updater sources l' id := by
  obtain ⟨hmin, allMetadata, hread, hid, hmax⟩ := h
  exact ⟨hmin, allMetadata, hl.subset hread, hid, hmax⟩

theorem purgeList_follows {id : String} (h : FoundStale updater sources l id) :
    Follows (PurgeAllowed updater sources) (fun _ _ => True) (purgeList id) l := by
  unfold purgeList
  refine follows_attempt_act_bind ⟨id, h, rfl⟩ fun r => ?_
  refine follows_attempt_act_bind ⟨id, h.mono (List.prefix_append _ _), rfl⟩ fun r' => ?_
  refine follows_attempt_act_bind ((h.mono (List.prefix_append _ _)).mono (List.prefix_append _ _))
    fun r'' => ?_
  exact follows_pure trivial

theorem purgeLists_follows {ids : List String} (h : ∀ id ∈ ids, FoundStale updater sources l id) :
    Follows (PurgeAllowed updater sources) (fun _ _ => True) (purgeLists ids) l := by
  induction ids generalizing l with
  | nil => exact follows_pure trivial
  | cons id ids ih =>
    obtain ⟨hid, hids⟩ := List.forall_mem_cons.1 h
    exact follows_bind (purgeList_follows hid) (fun _ _ _ _ => trivial)
      fun l' _ hl _ => ih fun id' hid' => (hids id' hid').mono hl

/-- **A purge deletes what it has found stale**, and nothing beyond its thresholds. -/
theorem purgeStale_follows :
    Follows (PurgeAllowed updater sources) (fun _ _ => True) (purgeStale updater sources) [] := by
  unfold purgeStale
  split
  · exact follows_pure trivial
  · next hmin =>
    refine follows_attempt_act_bind rfl fun r => ?_
    cases r with
    | error e => exact follows_pure trivial
    | ok allMetadata =>
      dsimp only
      split
      · exact follows_pure trivial
      · split
        · exact follows_pure trivial
        · next hmax =>
          refine purgeLists_follows fun id hid =>
            ⟨not_lt.1 hmin, allMetadata, ?_, hid, not_lt.1 hmax⟩
          exact List.mem_append_right _ (List.mem_singleton_self _)

end Meets

/-- Documents of the list `id` have been removed and no others; all of them, if the call is
`done`. -/
structure Removes {α : Type} (name : α → String) (id : String) (done : Prop) (docs docs' : List α) :
    Prop where
  sublist : docs'.Sublist docs
  others : docs'.filter (fun d => name d ≠ id) = docs.filter fun d => name d ≠ id
  done : done → docs' = docs.filter fun d => name d ≠ id

/-- What one call of a purge may do: remove what it names of one stale list. -/
def OneList (stale : String → Prop) (s : Stores) (e : Event purgeCalls.sig Unit) (s' : Stores) :
    Prop :=
  match e with
  | ⟨_, .getMetadata, r⟩ => s' = s ∧ ∀ allMetadata, r = .ok allMetadata → allMetadata = s.metadata
  | ⟨_, .deleteMetadata filter, r⟩ => ∃ id, stale id ∧ filter = [("blocklist_id", .string id)] ∧
      Removes BlocklistMetadata.blocklistID id (r = .ok ()) s.metadata s'.metadata ∧
        s' = { s with metadata := s'.metadata }
  | ⟨_, .delete filter, r⟩ => ∃ id, stale id ∧ filter = [("blocklist_id", .string id)] ∧
      Removes BlocklistContent.blocklistID id (r = .ok ()) s.content s'.content ∧
        s' = { s with content := s'.content }
  | ⟨_, .deleteBlocklist id, r⟩ => stale id ∧ s' = { s with redis := s'.redis } ∧
      (∀ key, key ≠ liveKey id → key ≠ exceptionsKey id → s'.redis key = s.redis key) ∧
      (r = .ok () → s'.redis (liveKey id) = none ∧ s'.redis (exceptionsKey id) = none)

/-- What is stored of the sources is as it was. -/
structure Spared (sources : List BlocklistMetadata) (s s' : Stores) : Prop where
  metadata : s'.metadata.filter (fun m => m.blocklistID ∈ sources.map (·.blocklistID)) =
    s.metadata.filter fun m => m.blocklistID ∈ sources.map (·.blocklistID)
  content : s'.content.filter (fun c => c.blocklistID ∈ sources.map (·.blocklistID)) =
    s.content.filter fun c => c.blocklistID ∈ sources.map (·.blocklistID)
  redis : ∀ id ∈ sources.map (·.blocklistID),
    s'.redis (liveKey id) = s.redis (liveKey id) ∧ s'.redis (exceptionsKey id) = s.redis
      (exceptionsKey id)

/-- The purge goes ahead with these lists. -/
def Purged (updater : Option UpdaterConfig) (sources allMetadata : List BlocklistMetadata)
    (id : String) : Prop :=
  minSources updater ≤ sources.length ∧ id ∈ staleIDs sources allMetadata ∧
    (staleIDs sources allMetadata).length ≤ maxStalePurge updater

/-- No key of a list that is purged is a key of a source. -/
def KeysApart (updater : Option UpdaterConfig) (sources allMetadata : List BlocklistMetadata) :
    Prop :=
  ∀ id, Purged updater sources allMetadata id → ∀ src ∈ sources.map (·.blocklistID),
    id ≠ src ++ ":exceptions" ∧ src ≠ id ++ ":exceptions"

section Runs

variable {repo : Repository} {updater : Option UpdaterConfig} {sources : List BlocklistMetadata}
  {s s' : Stores} {stale : String → Prop} {e : Event purgeCalls.sig Unit}

abbrev purgePool (updater : Option UpdaterConfig) (sources : List BlocklistMetadata) (s : Stores) :
    Pool purgeCalls.sig Unit Stores (Except Unit Unit) :=
      ⟨s, fun _ => (purgeStale updater sources).run⟩

theorem filter_filter_of_imp {α : Type} {p q : α → Bool} (h : ∀ a, p a = true → q a = true)
    (docs : List α) :
    (docs.filter q).filter p = docs.filter p := by
  rw [List.filter_filter]
  refine List.filter_congr fun a _ => ?_
  by_cases hp : p a = true
  · rw [hp, h a hp]
    rfl
  · rw [Bool.not_eq_true] at hp
    rw [hp, Bool.false_and]

theorem removes_deleteMany {α : Type} {name : α → String} {oid : α → ObjectID} {id : String}
    {holds : α → Bool} {docs : List α} (c : CallOutcome) (h : ∀ d, holds d = decide (name d = id)) :
    Removes name id (c.answer () = .ok ()) docs (c.deleteMany holds oid docs) := by
  have hholds : (fun d => !holds d) = fun d => decide (name d ≠ id) := by
    funext d
    rw [h, decide_not]
  cases c with
  | ok =>
    have hdocs : CallOutcome.ok.deleteMany holds oid docs = docs.filter fun d =>
        decide (name d ≠ id) := by
      rw [CallOutcome.deleteMany, hholds]
    rw [hdocs]
    exact ⟨List.filter_sublist, filter_filter_of_imp (fun _ hd => hd) docs, fun _ => rfl⟩
  | fail left applied =>
    refine ⟨List.filter_sublist, filter_filter_of_imp (fun d hd => ?_) docs, nofun⟩
    rw [h, decide_eq_false (of_decide_eq_true hd)]
    rfl

/-- **A step of a purge** does what it may. -/
theorem step_oneList {Q Q' : Pool purgeCalls.sig Unit Stores (Except Unit Unit)}
    {l : List purgeCalls.sig.Act} (hallowed : PurgeAllowed updater sources l e.op)
    (hst : Step (purgeHandler repo) Q e Q') :
    OneList (FoundStale updater sources l) Q.state e Q'.state := by
  obtain ⟨k, c, s, -, hc, rfl⟩ := step_iff.1 hst
  obtain ⟨who, op, r⟩ := e
  cases op with
  | getMetadata =>
    cases hc
    refine ⟨rfl, fun allMetadata hr => ?_⟩
    cases c with
    | ok => exact (Except.ok.inj hr).symm
    | fail left applied => cases hr
  | deleteMetadata filter =>
    cases hc
    obtain ⟨id, hid, rfl⟩ := hallowed
    exact ⟨id, hid, rfl, removes_deleteMany c fun m => rfl, rfl⟩
  | delete filter =>
    obtain ⟨id, hid, rfl⟩ := hallowed
    cases hc
    exact ⟨id, hid, rfl, removes_deleteMany c fun m => rfl, rfl⟩
  | deleteBlocklist id =>
    cases hc
    have hkeys : ∀ key, key ∈ [liveKey id, exceptionsKey id] ↔ key = liveKey id ∨
        key = exceptionsKey id := by simp
    refine ⟨hallowed, ?_, fun key hlive hexceptions => ?_, fun hr => ?_⟩
    · rw [Pool.set_state]
      split <;> rfl
    · rw [Pool.set_state]
      split
      · exact if_neg fun hkey => ((hkeys key).1 hkey).elim hlive hexceptions
      · rfl
    · cases c with
      | ok => exact ⟨if_pos ((hkeys _).2 (.inl rfl)), if_pos ((hkeys _).2 (.inr rfl))⟩
      | fail left applied => cases hr

theorem mem_staleIDs {allMetadata : List BlocklistMetadata} {id : String} :
    id ∈ staleIDs sources allMetadata ↔ id ∈ allMetadata.map (·.blocklistID) ∧
      id ∉ sources.map (·.blocklistID) := by
  unfold staleIDs
  rw [List.mem_filter, decide_eq_true_iff]

theorem liveKey_inj {a b : String} : liveKey a = liveKey b ↔ a = b := by
  unfold liveKey
  exact String.append_right_inj _

theorem exceptionsKey_eq (id : String) : exceptionsKey id = liveKey (id ++ ":exceptions") := by
  unfold liveKey exceptionsKey
  exact String.append_assoc

theorem exceptionsKey_inj {a b : String} : exceptionsKey a = exceptionsKey b ↔ a = b := by
  rw [exceptionsKey_eq, exceptionsKey_eq, liveKey_inj]
  exact String.append_left_inj _

theorem Removes.spared {α : Type} {name : α → String} {id : String} {done : Prop}
    {docs docs' : List α} (h : Removes name id done docs docs') {p : α → Bool}
    (hp : ∀ d, p d = true → name d ≠ id) :
    docs'.filter p = docs.filter p := by
  have hother : ∀ d, p d = true → decide (name d ≠ id) = true := fun d hd =>
    decide_eq_true (hp d hd)
  rw [← filter_filter_of_imp hother docs', h.others, filter_filter_of_imp hother]

/-- A call on a list that shares no key with a source spares the sources. -/
theorem OneList.spared (h : OneList stale s e s')
    (hstale : ∀ id, stale id → id ∉ sources.map (·.blocklistID) ∧
    ∀ src ∈ sources.map (·.blocklistID), id ≠ src ++ ":exceptions" ∧ src ≠ id ++ ":exceptions") :
    Spared sources s s' := by
  obtain ⟨who, op, r⟩ := e
  cases op with
  | getMetadata =>
    obtain ⟨rfl, -⟩ := h
    exact ⟨rfl, rfl, fun _ _ => ⟨rfl, rfl⟩⟩
  | deleteMetadata filter =>
    obtain ⟨id, hid, -, hremoves, hs⟩ := h
    refine ⟨hremoves.spared fun m hm hname => ?_, by rw [hs], fun _ _ => ⟨by rw [hs], by rw [hs]⟩⟩
    exact (hstale id hid).1 (hname ▸ of_decide_eq_true hm)
  | delete filter =>
    obtain ⟨id, hid, -, hremoves, hs⟩ := h
    refine ⟨by rw [hs], hremoves.spared fun m hm hname => ?_, fun _ _ => ⟨by rw [hs], by rw [hs]⟩⟩
    exact (hstale id hid).1 (hname ▸ of_decide_eq_true hm)
  | deleteBlocklist id =>
    obtain ⟨hid, hs, hother, -⟩ := h
    obtain ⟨hlive, hapart⟩ := hstale id hid
    refine ⟨by rw [hs], by rw [hs], fun src hsrc => ⟨hother _ ?_ ?_, hother _ ?_ ?_⟩⟩
    · rw [Ne, liveKey_inj]
      exact fun hsame => hlive (hsame ▸ hsrc)
    · rw [exceptionsKey_eq, Ne, liveKey_inj]
      exact (hapart src hsrc).2
    · rw [exceptionsKey_eq, Ne, liveKey_inj]
      exact fun hsame => (hapart src hsrc).1 hsame.symm
    · rw [Ne, exceptionsKey_inj]
      exact fun hsame => hlive (hsame ▸ hsrc)

theorem Spared.trans {s'' : Stores} (h : Spared sources s s') (h' : Spared sources s' s'') :
    Spared sources s s'' :=
  ⟨h'.metadata.trans h.metadata, h'.content.trans h.content,
    fun id hid =>
      ⟨(h'.redis id hid).1.trans (h.redis id hid).1, (h'.redis id hid).2.trans (h.redis id hid).2⟩⟩

theorem OneList.mono {stale' : String → Prop} (h : OneList stale s e s')
    (hstale : ∀ id, stale id → stale' id) :
    OneList stale' s e s' := by
  obtain ⟨who, op, r⟩ := e
  cases op with
  | getMetadata => exact h
  | deleteMetadata filter =>
    obtain ⟨id, hid, hrest⟩ := h
    exact ⟨id, hstale id hid, hrest⟩
  | delete filter =>
    obtain ⟨id, hid, hrest⟩ := h
    exact ⟨id, hstale id hid, hrest⟩
  | deleteBlocklist id => exact ⟨hstale id h.1, h.2⟩

theorem trace_unit (es : List (Event purgeCalls.sig Unit)) : trace () es = es.map fun e =>
    ⟨e.op, e.res⟩ := by
  induction es with
  | nil => rfl
  | cons e es ih =>
    obtain ⟨⟨⟩, op, r⟩ := e
    rw [trace_cons_self, ih]
    rfl

variable {es : List (Event purgeCalls.sig Unit)}
  {Q Q' : Pool purgeCalls.sig Unit Stores (Except Unit Unit)}

theorem purge_follows (i : Unit) :
    Meets (S := purgeCalls.sig) (PurgeAllowed updater sources) (fun _ _ => True)
    ((purgePool updater sources s).prog i) [] := follows_run purgeStale_follows

/-- The metadata that a purge reads are those it starts with. -/
theorem run_read (hr : Run (purgeHandler repo) Free (purgePool updater sources s) es Q)
    {allMetadata : List BlocklistMetadata} (hread : Read allMetadata (trace () es)) :
    allMetadata = s.metadata := by
  obtain ⟨es₁, es₂, rfl⟩ := List.append_of_mem (mem_trace.1 hread)
  obtain ⟨Q₁, Q₂, h₁, -, hst, -⟩ := run_mid hr
  have hfirst : trace () es₁ = [] := run_met_mid purge_follows hr
  have hnil : es₁ = [] := by simpa [trace_unit] using hfirst
  have hstart : Q₁.state = s := by
    cases h₁ with
    | nil => rfl
    | snoc => exact absurd hnil (List.append_ne_nil_of_right_ne_nil _ (List.cons_ne_nil _ _))
  have hone := step_oneList (run_met_mid purge_follows hr) hst
  rw [hstart] at hone
  exact hone.2 allMetadata rfl

theorem run_step (hr : Run (purgeHandler repo) Free (purgePool updater sources s) es Q)
    (hst : Step (purgeHandler repo) Q e Q') :
    OneList (Purged updater sources s.metadata) Q.state e Q'.state := by
  have hmet := run_met_mid purge_follows (hr.snoc trivial hst)
  refine (step_oneList hmet hst).mono fun id ⟨hmin, allMetadata, hread, hid, hmax⟩ => ?_
  obtain rfl := run_read hr hread
  exact ⟨hmin, hid, hmax⟩

/-- A purge whose keys are apart from those of the sources spares them. -/
theorem run_spared (hapart : KeysApart updater sources s.metadata)
    (hr : Run (purgeHandler repo) Free (purgePool updater sources s) es Q) :
    Spared sources s Q.state := by
  induction hr with
  | nil => exact ⟨rfl, rfl, fun _ _ => ⟨rfl, rfl⟩⟩
  | snoc hr _ hst ih =>
    refine ih.trans ((run_step hr hst).spared fun id hid =>
      ⟨(mem_staleIDs.1 hid.2.1).2, hapart id hid⟩)

/-- **Beyond its thresholds** a purge changes nothing. -/
theorem run_refused (hrefused : sources.length < minSources updater ∨
      maxStalePurge updater < (staleIDs sources s.metadata).length)
    (hr : Run (purgeHandler repo) Free (purgePool updater sources s) es Q) : Q.state = s := by
  have hnone : ∀ id, ¬ Purged updater sources s.metadata id := fun id ⟨hmin, _, hmax⟩ =>
    hrefused.elim (not_lt.2 hmin) (not_lt.2 hmax)
  induction hr with
  | nil => rfl
  | @snoc es Q R e hr _ hst ih =>
    have hone := run_step hr hst
    obtain ⟨who, op, r⟩ := e
    cases op with
    | getMetadata => exact hone.1.trans ih
    | deleteMetadata filter =>
      obtain ⟨id, hid, -⟩ := hone
      exact absurd hid (hnone id)
    | delete filter =>
      obtain ⟨id, hid, -⟩ := hone
      exact absurd hid (hnone id)
    | deleteBlocklist id => exact absurd hone.1 (hnone id)

/-! All the calls of a purge may succeed. -/

theorem exec_purgeList (repo : Repository) (id : String) (s : Stores) : ∃ l s',
    Exec (purgeHandler repo) () (purgeList id).run s l (.ok ()) s' ∧
      s'.redis = deleteBlocklist id s.redis :=
  ⟨_, _, ⟨.ok, .ok (), _, _, rfl, rfl, .ok, .ok (), _, _, rfl, rfl, .ok, .ok (), _, _, rfl, rfl,
    rfl, rfl, rfl⟩, rfl⟩

theorem exec_purgeLists (repo : Repository) (ids : List String) (s : Stores) : ∃ l s',
    Exec (purgeHandler repo) () (purgeLists ids).run s l (.ok ()) s' ∧
      (∀ key, s.redis key = none → s'.redis key = none) ∧
      ∀ id ∈ ids, s'.redis (liveKey id) = none ∧ s'.redis (exceptionsKey id) = none := by
  induction ids generalizing s with
  | nil => exact ⟨[], s, ⟨rfl, rfl, rfl⟩, fun _ hkey => hkey, List.forall_mem_nil _⟩
  | cons id ids ih =>
    obtain ⟨l₁, s₁, hexec₁, hredis⟩ := exec_purgeList repo id s
    obtain ⟨l₂, s₂, hexec₂, hkept, hgone⟩ := ih s₁
    refine ⟨l₁ ++ l₂, s₂, ?_, fun key hkey => hkept key ?_,
      List.forall_mem_cons.2 ⟨⟨hkept _ ?_, hkept _ ?_⟩, hgone⟩⟩
    · rw [purgeLists, run_bind, exec_bind]
      exact ⟨l₁, l₂, .ok (), s₁, rfl, hexec₁, hexec₂⟩
    · rw [hredis, deleteBlocklist, hkey, ite_self]
    · rw [hredis, deleteBlocklist, if_pos (List.mem_cons_self ..)]
    · rw [hredis, deleteBlocklist, if_pos (List.mem_cons_of_mem _ (List.mem_singleton_self _))]

/-- A purge that goes ahead can delete the sets of all the lists that it finds stale. -/
theorem run_purged (repo : Repository) {id : String} (hid : Purged updater sources s.metadata id) :
    ∃ es Q,
    Run (purgeHandler repo) Free (purgePool updater sources s) es Q ∧
      Q.state.redis (liveKey id) = none ∧ Q.state.redis (exceptionsKey id) = none := by
  obtain ⟨hmin, hstale, hmax⟩ := hid
  obtain ⟨l, s', hexec, -, hgone⟩ := exec_purgeLists repo (staleIDs sources s.metadata) s
  have hnonempty : staleIDs sources s.metadata ≠ [] := List.ne_nil_of_mem hstale
  have hpurge : Exec (purgeHandler repo) () (purgeStale updater sources).run s
      (⟨.getMetadata, .ok s.metadata⟩ :: l) (.ok ()) s' := by
    unfold purgeStale
    rw [if_neg (not_lt.2 hmin)]
    refine ⟨.ok, .ok s.metadata, s, l, rfl, rfl, ?_⟩
    show Exec _ _ (ExceptT.run (if _ then _ else if _ then _ else _)) _ _ _ _
    rw [if_neg hnonempty, if_neg (not_lt.2 hmax)]
    exact hexec
  exact ⟨_, _, run_exec rfl hpurge, hgone id hstale⟩

/-- A purge of a list that shares a key with a source can delete a set of the source. -/
theorem run_unspared (repo : Repository) (allMetadata : List BlocklistMetadata)
    (hapart : ¬ KeysApart updater sources allMetadata) : ∃ s es Q, s.metadata = allMetadata ∧
      Run (purgeHandler repo) Free (purgePool updater sources s) es Q ∧
        ¬ Spared sources s Q.state := by
  unfold KeysApart at hapart
  push Not at hapart
  obtain ⟨id, hid, src, hsrc, hshared⟩ := hapart
  obtain ⟨es, Q, hr, hlive, hexceptions⟩ := @run_purged updater sources
    { metadata := allMetadata, redis := fun _ => some ⟨∅, none⟩ } repo id hid
  refine ⟨_, es, Q, rfl, hr, fun hspared => ?_⟩
  obtain ⟨hkept, hkept'⟩ := hspared.redis src hsrc
  by_cases hsame : id = src ++ ":exceptions"
  · rw [exceptionsKey_eq, ← hsame, hlive] at hkept'
    cases hkept'
  · rw [hshared hsame, ← exceptionsKey_eq, hexceptions] at hkept
    cases hkept

end Runs

/-- **A purge leaves the live lists alone.** Whatever is stored and whichever calls fail, it changes
nothing beyond its thresholds, each of its calls removes what it names of one list that is not among
the sources, and what is stored of the sources stays, exactly when no key of a list that is purged
is a key of a source. -/
theorem purge_only_stale (repo : Repository) (updater : Option UpdaterConfig)
    (sources allMetadata : List BlocklistMetadata) :
    (∀ s es Q, s.metadata = allMetadata → Run (purgeHandler repo) Free
      (purgePool updater sources s) es Q →
        Spared sources s Q.state ∧
        (sources.length < minSources updater ∨ maxStalePurge updater <
          (staleIDs sources allMetadata).length → Q.state = s) ∧
        ∀ e Q', Step (purgeHandler repo) Q e Q' →
          OneList (fun id => id ∈ allMetadata.map (·.blocklistID) ∧
            id ∉ sources.map (·.blocklistID)) Q.state e Q'.state) ↔
      KeysApart updater sources allMetadata := by
  constructor
  · intro h
    by_contra hapart
    obtain ⟨s, es, Q, hs, hr, hspared⟩ := run_unspared repo allMetadata hapart
    exact hspared (h s es Q hs hr).1
  · rintro hapart s es Q rfl hr
    exact ⟨run_spared hapart hr, fun hrefused => run_refused hrefused hr,
      fun e Q' hst => (run_step hr hst).mono fun id hid => mem_staleIDs.1 hid.2.1⟩

/-- Sources and stored lists where a stale list has the key of the exceptions of a live one. -/
def sharedMetadata : List BlocklistMetadata :=
  [{ blocklistID := "hagezi_pro", name := "Pro", sourceUrl := "" },
    { blocklistID := "hagezi_pro:exceptions", name := "Pro exceptions", sourceUrl := "" }]

theorem exceptions_purged : ¬ ∀ s es Q, s.metadata = sharedMetadata →
    Run (purgeHandler ⟨fun _ => none, fun _ _ => false⟩) Free
      (purgePool none (sharedMetadata.take 1) s) es Q →
      Spared (sharedMetadata.take 1) s Q.state := by
  have hapart : ¬ KeysApart none (sharedMetadata.take 1) sharedMetadata := fun h =>
    (h "hagezi_pro:exceptions" ⟨by decide, by decide, by decide⟩ "hagezi_pro" (by decide)).1 rfl
  obtain ⟨s, es, Q, hs, hr, hspared⟩ :=
    run_unspared ⟨fun _ => none, fun _ _ => false⟩ sharedMetadata hapart
  exact fun h => hspared (h s es Q hs hr)

end ModDNS.Blocklists
