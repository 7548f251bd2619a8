import Mathlib.Data.Finset.Card
import ModDNS.Blocklists.Results

/-!
# A success repairs what failures have left

Failed updates leave documents, staging sets and half a publication behind. The next update that
succeeds removes all documents that it has found, whoever has written them, and replaces both sets.

* `names_of_parts`: the documents of an update hold its names, in order.
* `update_heals`: the list after a success that follows any number of failures.
-/

namespace ModDNS.Blocklists

open Go Conc Data

section Parts

variable {id : String} {docs : List BlocklistContent} {p : Plan}

/-- The names in the documents of a kind. -/
def namesOf (kind : String) (docs : List BlocklistContent) : List String :=
  (docs.filter (·.kind = kind)).flatMap fun c => split c.data '\n'

theorem namesOf_cons_same {kind : String} {c : BlocklistContent} (h : c.kind = kind) :
    namesOf kind (c :: docs) = split c.data '\n' ++ namesOf kind docs := by
  unfold namesOf
  rw [List.filter_cons, if_pos (decide_eq_true h), List.flatMap_cons]

theorem namesOf_cons_other {kind : String} {c : BlocklistContent} (h : c.kind ≠ kind) :
    namesOf kind (c :: docs) = namesOf kind docs := by
  unfold namesOf
  rw [List.filter_cons, if_neg (by simpa using h)]

theorem namesOf_append {kind : String} {docs' : List BlocklistContent} :
    namesOf kind (docs ++ docs') = namesOf kind docs ++ namesOf kind docs' := by
  unfold namesOf
  rw [List.filter_append, List.flatMap_append]

theorem namesOf_chunks {chunkIndex : ℕ} {cs : List (List String)}
    (h : docs.map BlocklistContent.held = chunkParts chunkIndex cs)
    (hcs : ∀ c ∈ cs, c ≠ [] ∧ ∀ d ∈ c, '\n' ∉ d.toList) :
    namesOf "" docs = cs.flatten ∧ namesOf contentKindExceptions docs = [] := by
  induction cs generalizing chunkIndex docs with
  | nil =>
    obtain rfl := List.map_eq_nil_iff.1 h
    exact ⟨rfl, rfl⟩
  | cons domains cs ih =>
    obtain ⟨c, docs, rfl, hc, hdocs⟩ := List.map_eq_cons_iff.1 h
    obtain ⟨⟨hne, hlines⟩, hcs⟩ := List.forall_mem_cons.1 hcs
    obtain ⟨hnames, hnone⟩ := ih hdocs hcs
    have hkind : c.kind = "" := congrArg (fun part => part.2.1) hc
    have hdata : c.data = join domains '\n' := congrArg (fun part => part.2.2) hc
    have hother : c.kind ≠ contentKindExceptions := by
      rw [hkind]
      decide
    rw [namesOf_cons_same hkind, namesOf_cons_other hother, hnames, hnone, hdata,
      split_join hne hlines]
    exact ⟨rfl, rfl⟩

theorem namesOf_exceptions {exceptions : List String}
    (h : docs.map BlocklistContent.held = exceptionParts exceptions)
    (hlines : ∀ d ∈ exceptions, '\n' ∉ d.toList) :
    namesOf "" docs = [] ∧ namesOf contentKindExceptions docs = exceptions := by
  unfold exceptionParts at h
  split at h
  · next hnone =>
    obtain rfl := List.map_eq_nil_iff.1 h
    exact ⟨rfl, hnone.symm⟩
  · next hne =>
    obtain ⟨c, docs, rfl, hc, hdocs⟩ := List.map_eq_cons_iff.1 h
    obtain rfl := List.map_eq_nil_iff.1 hdocs
    have hkind : c.kind = contentKindExceptions := congrArg (fun part => part.2.1) hc
    have hdata : c.data = join exceptions '\n' := congrArg (fun part => part.2.2) hc
    have hother : c.kind ≠ "" := by
      rw [hkind]
      decide
    rw [namesOf_cons_other hother, namesOf_cons_same hkind, hdata, split_join hne hlines]
    exact ⟨rfl, List.append_nil _⟩

/-- **The documents of an update hold its names**, in order, and its exceptions. -/
theorem names_of_parts (h : docs.map BlocklistContent.held = p.parts)
    (hlines : ∀ n : SetName, ∀ d ∈ p.names n, '\n' ∉ d.toList) :
    namesOf "" docs = p.validated ∧ namesOf contentKindExceptions docs = p.exceptions := by
  have hpos : 0 < maxDomainsPerDoc := by decide
  have hflat : (chunks maxDomainsPerDoc p.validated).flatten = p.validated := flatten_chunks hpos
  obtain ⟨docs₁, docs₂, rfl, h₁, h₂⟩ := List.map_eq_append_iff.1 h
  have hchunks : ∀ c ∈ chunks maxDomainsPerDoc p.validated, c ≠ [] ∧ ∀ d ∈ c, '\n' ∉ d.toList := by
    intro c hc
    refine ⟨(mem_chunks hpos hc).1, fun d hd => hlines .main d ?_⟩
    show d ∈ p.validated
    rw [← hflat]
    exact List.mem_flatten.2 ⟨c, hc, hd⟩
  obtain ⟨hnames, hnone⟩ := namesOf_chunks h₁ hchunks
  obtain ⟨hnone', hexceptions⟩ := namesOf_exceptions h₂ (hlines .exceptions)
  rw [namesOf_append, namesOf_append, hnames, hnone, hnone', hexceptions, hflat, List.append_nil,
    List.nil_append]
  exact ⟨rfl, rfl⟩

end Parts

section Metadata

variable {env : ServiceEnv} {src m : BlocklistMetadata} {l : List BlocklistAct} {grace : ℕ}
  {s s' : Stores} {p : Plan}

/-- A list has one metadata document afterwards. -/
theorem filter_upsertMetadata {metadata : List BlocklistMetadata}
    (h : (metadata.filter (·.blocklistID = m.blocklistID)).length ≤ 1) :
    (upsertMetadata m metadata).filter (·.blocklistID = m.blocklistID) = [m] := by
  induction metadata with
  | nil =>
    unfold upsertMetadata
    rw [List.filter_cons, if_pos (decide_eq_true rfl), List.filter_nil]
  | cons d metadata ih =>
    unfold upsertMetadata
    by_cases hd : d.blocklistID = m.blocklistID
    · rw [List.filter_cons, if_pos (decide_eq_true hd), List.length_cons] at h
      have hnone : metadata.filter (·.blocklistID = m.blocklistID) = [] :=
        List.length_eq_zero_iff.1 (by omega)
      rw [if_pos hd, List.filter_cons, if_pos (decide_eq_true rfl), hnone]
    · rw [List.filter_cons, if_neg (by simpa using hd)] at h
      rw [if_neg hd, List.filter_cons, if_neg (by simpa using hd), ih h]

theorem not_recorded {x : BlocklistAct} {o : BlocklistOp} (hop : x.1 = o)
    (ho : ∀ ctx m, o ≠ .upsertMetadata ctx m) :
    ¬ Recorded x := by
  rintro ⟨⟨ctx, m, h⟩, -⟩
  exact ho ctx m (hop.symm.trans h)

theorem prepare_unrecorded {r : Except BlocklistErr Plan} (h : Ends (prepare env src).run l r) :
    ∀ x ∈ l, ¬ Recorded x := by
  intro x hx
  have hreads := within_path within_prepare h x hx
  exact not_recorded rfl fun ctx m hop => by rw [hop] at hreads; exact hreads

/-- Before an update a list has one metadata document, or none. -/
theorem stored_one (hprepared : Prepared env src l p) (h : Trail grace s l s')
    (hsame : ∀ x ∈ l, ¬ Recorded x) :
    (s.metadata.filter (·.blocklistID = src.blocklistID)).length ≤ 1 := by
  obtain ⟨ms, hms, hlength⟩ := hprepared.stored
  obtain ⟨l₁, l₂, rfl⟩ := List.append_of_mem hms
  obtain ⟨s₁, h₁, s₂, ⟨d, c, hanswer, -⟩, -⟩ := trail_append.1 h
  have hmetadata := trail_unrecorded h₁ fun x hx => hsame x (List.mem_append_left _ hx)
  have hread : ms = s₁.metadata.filter (·.blocklistID = src.blocklistID) := call_ok hanswer
  rwa [← hmetadata, ← hread]

/-- **The metadata after a success.** -/
theorem exec_metadata (hexec : Exec (blocklistHandler grace) ()
    (processBlocklist env src).run s l (.ok m) s') :
    s'.metadata.filter (·.blocklistID = src.blocklistID) = [m] ∧
      ∃ p, Planned env src l p ∧ m.entries = p.validated.length ∧
        m.exceptionEntries = p.exceptions.length := by
  have htrail := trail_exec hexec
  have hended := ends_processBlocklist (exec_path hexec)
  cases hended with
  | @published l₁ l₂ l₃ l₄ p r hprepare hpersist hpublish h =>
    obtain ⟨start, deletes, rest, rfl, hstart, hdeletes, -, hok⟩ := ends_finish h
    obtain ⟨-, rfl, hlist, hentries, hexceptions⟩ := hok m rfl
    rw [(ends_prepare hprepare).blocklistID] at hlist
    obtain ⟨s₁, h₁, hrest₁⟩ := trail_append.1 htrail
    have hone := stored_one (ends_prepare hprepare) h₁ (prepare_unrecorded hprepare)
    rw [← List.append_assoc l₃, ← List.append_assoc l₂,
      ← List.append_assoc (l₂ ++ (l₃ ++ start))] at hrest₁
    obtain ⟨s₂, h₂, hlast⟩ := trail_snoc.1 hrest₁
    have hbefore : s₂.metadata = s₁.metadata := by
      refine trail_unrecorded h₂ ?_
      simp only [List.forall_mem_append]
      refine ⟨⟨fun x hx => ?_, fun x hx => ?_, fun x hx => not_recorded (hstart x hx) nofun⟩,
        fun x hx => ?_⟩
      · obtain hop | ⟨c, hop⟩ := persist_kind hpersist x hx
        · exact not_recorded hop nofun
        · exact not_recorded hop nofun
      · obtain hop | ⟨ctx, cmd, hop⟩ := publish_kind hpublish x hx
        · exact not_recorded hop nofun
        · exact not_recorded hop nofun
      · obtain ⟨n, -, hop⟩ := hdeletes x hx
        exact not_recorded hop nofun
    have hm : s'.metadata = upsertMetadata m s₂.metadata := next_metadata hlast
    rw [hm, hbefore, trail_unrecorded h₁ (prepare_unrecorded hprepare), ← hlist]
    rw [← hlist] at hone
    exact ⟨filter_upsertMetadata hone, p, ⟨l₁, List.prefix_append _ _, hprepare⟩,
      hentries, hexceptions⟩

end Metadata

section Repair

variable {env : ServiceEnv} {src m : BlocklistMetadata} {l : List BlocklistAct} {grace : ℕ}
  {id : String} {s₀ s s' : Stores}

/-- Updates of a list one after the other, each as far as it came: it may have failed at any step,
or have been cut off. -/
inductive Attempts (env : ServiceEnv) (grace : ℕ) (id : String) (s₀ : Stores) : Stores → Prop where
  | none : Attempts env grace id s₀ s₀
  | next {s : Stores} {src : BlocklistMetadata} {es : List (Event blocklistCalls.sig Unit)}
      {Q : Pool blocklistCalls.sig Unit Stores (Except BlocklistErr BlocklistMetadata)} :
      Attempts env grace id s₀ s → src.blocklistID = id →
      Run (blocklistHandler grace) Free (alone env src s) es Q →
      Attempts env grace id s₀ Q.state

theorem fresh_attempts (hfresh : Fresh id s₀) (h : Attempts env grace id s₀ s) : Fresh id s := by
  induction h with
  | none => exact hfresh
  | next _ hid hrun ih =>
    subst hid
    exact staging_run (publishing_alone ih) hrun

/-- As many different names as names. -/
theorem card_names {names : List String} : names.length = names.toFinset.card ↔ names.Nodup := by
  rw [List.card_toFinset]
  constructor
  · intro h
    rw [← (List.dedup_sublist names).eq_of_length h.symm]
    exact List.nodup_dedup names
  · intro h
    rw [h.dedup]

/-- A success has published both sets. -/
theorem published_exec (hexec : Exec (blocklistHandler grace) ()
    (processBlocklist env src).run s l (.ok m) s') (n : SetName) : ∃ x ∈ l, Published
    (n.key src.blocklistID) x := by
  have hmeets :=
    follows_run (follows_processBlocklist : Follows (Allowed env src) _
      (processBlocklist env src) [])
  obtain ⟨p, -, hpublished⟩ := meets_exec hmeets hexec m rfl
  exact (hpublished n).published

/-- The documents after a success are those that the plan asks for. -/
theorem documents_exec {p : Plan} (hplan : Planned env src l p)
    (hexec : Exec (blocklistHandler grace) () (processBlocklist env src).run s l (.ok m) s') :
    (s'.content.filter (·.blocklistID = src.blocklistID)).map BlocklistContent.held =
        chunkParts 1 (chunks maxDomainsPerDoc p.validated) ++ exceptionParts p.exceptions ∧
      namesOf "" (s'.content.filter (·.blocklistID = src.blocklistID)) = p.validated ∧
      namesOf contentKindExceptions (s'.content.filter (·.blocklistID = src.blocklistID)) =
      p.exceptions := by
  obtain ⟨kept, docs, hcollected⟩ := exec_collected hexec
  have hdocs : s'.content.filter (·.blocklistID = src.blocklistID) = docs := by
    have hnone : kept.filter (·.blocklistID = src.blocklistID) = [] :=
      List.filter_eq_nil_iff.2 fun c hc => by simpa using hcollected.cleaned m rfl c hc
    have hall : docs.filter (·.blocklistID = src.blocklistID) = docs :=
      List.filter_eq_self.2 fun c hc => decide_eq_true (hcollected.added c hc).1
    rw [hcollected.content, List.filter_append, hnone, hall, List.nil_append]
  obtain ⟨p', hplan', hheld⟩ := hcollected.complete (.inr (.inr ⟨m, rfl⟩))
  obtain rfl := hplan'.unique hplan
  have hlines : ∀ n : SetName, ∀ d ∈ p'.names n, '\n' ∉ d.toList := fun n d hd =>
    newline_of_valid (valid_of_planned hplan n d hd)
  rw [hdocs, hheld]
  exact ⟨rfl, names_of_parts hheld hlines⟩

/-- **A success repairs what failures have left.** -/
theorem update_heals (hgrace : processingTimeout + grace < stagingTTL) (hfresh : Fresh id s₀)
    (hattempts : Attempts env grace id s₀ s) (hid : src.blocklistID = id)
    (hexec : Exec (blocklistHandler grace) () (processBlocklist env src).run s l (.ok m) s') :
    ∃ p, Planned env src l p ∧
      (s'.content.filter (·.blocklistID = id)).map BlocklistContent.held =
        chunkParts 1 (chunks maxDomainsPerDoc p.validated) ++ exceptionParts p.exceptions ∧
      namesOf "" (s'.content.filter (·.blocklistID = id)) = p.validated ∧
      namesOf contentKindExceptions (s'.content.filter (·.blocklistID = id)) = p.exceptions ∧
      s'.redis (liveKey id) = publishedSet p.validated ∧
      s'.redis (exceptionsKey id) = publishedSet p.exceptions ∧
      s'.metadata.filter (·.blocklistID = id) = [m] ∧
      m.entries = p.validated.length ∧ m.exceptionEntries = p.exceptions.length ∧
      (m.entries = p.validated.toFinset.card ↔ p.validated.Nodup) ∧
      (m.exceptionEntries = p.exceptions.toFinset.card ↔ p.exceptions.Nodup) := by
  subst hid
  have hfresh' := fresh_attempts hfresh hattempts
  obtain ⟨hmetadata, p, hplan, hentries, hexceptions⟩ := exec_metadata hexec
  -- the clean-up leaves the documents of this run only
  obtain ⟨hheld, hnames, hnames'⟩ := documents_exec hplan hexec
  -- and it has published both sets
  have hsets : ∀ n : SetName, s'.redis (n.key src.blocklistID) = publishedSet (p.names n) := by
    intro n
    obtain ⟨x, hx, hpub⟩ := published_exec hexec n
    obtain ⟨hnone, -⟩ | ⟨-, q, hq, hset⟩ := exec_sets hgrace hfresh' hexec n
    · exact absurd hpub (hnone x hx)
    · obtain rfl := hq.unique hplan
      exact hset
  refine ⟨p, hplan, hheld, hnames, hnames', hsets .main, hsets .exceptions, hmetadata, hentries,
    hexceptions, ?_, ?_⟩
  · rw [hentries]
    exact card_names
  · rw [hexceptions]
    exact card_names

end Repair

section Examples

/-- A list is published for the first time; its one name is there twice. -/
theorem exec_repeated :
    ∃ l m s', Exec (blocklistHandler 0) () (processBlocklist plainEnv plainSource).run
    {} l (.ok m) s' ∧
    m.entries = 2 ∧ (s'.redis (liveKey plainSource.blocklistID)).map (·.members.card) = some 1 := by
  have hplays : ((processBlocklist plainEnv plainSource).run.exec (blocklistHandler 0) ()
      [⟨0, .ok⟩, ⟨0, .body (encode "example.org\nexample.org")⟩, ⟨0, .ok⟩, ⟨0, .ok⟩, ⟨0, .id 1⟩,
        ⟨0, .id 2⟩, ⟨0, .ok⟩,
        ⟨0, .ok⟩, ⟨0, .uuid "u"⟩, ⟨0, .ok⟩, ⟨0, .ok⟩, ⟨0, .ok⟩, ⟨0, .ok⟩, ⟨0, .ok⟩, ⟨0, .ok⟩]
        {}).map (fun x =>
          (x.2.1.toOption.map (·.entries), (x.2.2.redis (liveKey plainSource.blocklistID)).map
            (·.members.card))) =
        some (some 2, some 1) := by
    decide +kernel
  obtain ⟨⟨l, r, s'⟩, hexec, heq⟩ := Option.map_eq_some_iff.1 hplays
  obtain ⟨hresult, hcard⟩ := Prod.mk.inj heq
  cases r with
  | error e => cases hresult
  | ok m => exact ⟨l, m, s', exec_of_choices hexec, Option.some.inj hresult, hcard⟩

theorem fresh_empty (id : String) : Fresh id {} := fun _ _ _ => rfl

/-- A list of rules in the AdGuard format. -/
def rulesExtractor : Extractor where
  extractMetadata _ := some (0, "", 0)
  convert := Adguard.convert

def rulesEnv : ServiceEnv where
  extractors := ⟨rulesExtractor, rulesExtractor, rulesExtractor, rulesExtractor, rulesExtractor⟩
  minAllowed prev := prev / 2

def rulesSource : BlocklistMetadata :=
  { blocklistID := "adguard", name := "Ads", sourceUrl := "https://lists.example/rules" }

/-- The list has been published with one name. -/
def rulesStores : Stores where
  content := [⟨1, "adguard", 1, "", "example.com"⟩]
  metadata := [{ rulesSource with id := 2, entries := 1 }]
  redis key := if key = liveKey "adguard" then some ⟨{"example.com"}, none⟩ else none

theorem fresh_rules : Fresh rulesSource.blocklistID rulesStores := by
  intro n u _
  have hne : stagingKey (n.key "adguard") u ≠ SetName.main.key "adguard" := stagingKey_ne
  exact if_neg hne

/-- An update, as far as it comes with these answers. -/
def attempted (outcomes : List Outcome) (s : Stores) :=
  play (blocklistHandler 0) Free (outcomes.map fun o => ((), ⟨0, o⟩)) (alone rulesEnv rulesSource s)

theorem attempts_play {outcomes : List Outcome} {s : Stores}
    (h : Attempts rulesEnv 0 rulesSource.blocklistID rulesStores s)
    (hplays : (attempted outcomes s).isSome) :
    Attempts rulesEnv 0 rulesSource.blocklistID rulesStores
      ((attempted outcomes s).get hplays).2.state :=
  .next h rfl (run_play hplays)

/-- The documents and the exceptions are written, and then Redis does not answer. -/
def failedOutcomes : List Outcome :=
  [.ok, .body (encode "||example.org^\n@@||ok.example.org^"), .ok, .ok, .id 3, .ok, .id 4, .ok,
    .uuid "u", .ok, .ok, .ok, .ok, .uuid "v", .ok, .fail false, .fail false]

theorem failed_plays : (attempted failedOutcomes rulesStores).isSome := by decide +kernel

def failedStores : Stores := ((attempted failedOutcomes rulesStores).get failed_plays).2.state

/-- The next update is cut off when the exceptions are gone and the staging set is filled. -/
def cutOutcomes : List Outcome :=
  [.ok, .body (encode "||example.net^"), .ok, .ok, .id 5, .ok, .ok, .uuid "w", .ok]

theorem cut_plays : (attempted cutOutcomes failedStores).isSome := by decide +kernel

def leftStores : Stores := ((attempted cutOutcomes failedStores).get cut_plays).2.state

theorem attempts_left : Attempts rulesEnv 0 rulesSource.blocklistID rulesStores leftStores := by
  have hfailed : Attempts rulesEnv 0 rulesSource.blocklistID rulesStores failedStores :=
    attempts_play .none failed_plays
  exact attempts_play hfailed cut_plays

/-- Two names, one of them twice, and an exception. -/
def healingOutcomes : List Outcome :=
  [.ok, .body (encode "||example.org^\n@@||ok.example.org^\n||example.net^\n||example.org^"), .ok,
    .ok, .id 6, .ok,
    .id 7, .ok, .uuid "x", .ok, .ok, .ok, .ok, .uuid "y"] ++ List.replicate 10 .ok

/-- Both sets are there after it, and the documents have the names of the download. -/
def Healed (r : Except BlocklistErr BlocklistMetadata) (s : Stores) : Prop :=
  r.toOption.isSome ∧
    namesOf "" (s.content.filter (·.blocklistID = rulesSource.blocklistID)) =
      ["example.org", "example.net", "example.org"] ∧
    namesOf contentKindExceptions (s.content.filter (·.blocklistID = rulesSource.blocklistID)) =
      ["ok.example.org"] ∧
    (s.redis (liveKey rulesSource.blocklistID)).isSome ∧
    (s.redis (exceptionsKey rulesSource.blocklistID)).isSome

instance (r : Except BlocklistErr BlocklistMetadata) (s : Stores) : Decidable (Healed r s) :=
  inferInstanceAs (Decidable (_ ∧ _))

theorem exec_healing :
    ∃ l m s', Exec (blocklistHandler 0) () (processBlocklist rulesEnv rulesSource).run leftStores l
    (.ok m) s' ∧ Healed (.ok m) s' := by
  have hplays : ((processBlocklist rulesEnv rulesSource).run.exec (blocklistHandler 0) ()
      (healingOutcomes.map fun o => ⟨0, o⟩) leftStores).any (fun x => Healed x.2.1 x.2.2) := by
    decide +kernel
  obtain ⟨⟨l, r, s'⟩, hexec, hhealed⟩ := (Option.any_eq_true _ _).1 hplays
  have hfacts : Healed r s' := of_decide_eq_true hhealed
  cases r with
  | error e => cases hfacts.1
  | ok m => exact ⟨l, m, s', exec_of_choices hexec, hfacts⟩

/-- A failed update and one that was cut off have left three documents and a staging set, and no
exceptions. -/
theorem left_behind :
    (leftStores.content.filter (·.blocklistID = rulesSource.blocklistID)).length = 4 ∧
    (leftStores.redis (stagingKey (liveKey rulesSource.blocklistID) "w")).isSome ∧
    (leftStores.redis (exceptionsKey rulesSource.blocklistID)).isNone := by
  decide +kernel

/-- The success after them leaves two documents, and publishes both sets. -/
theorem update_heals_left : ∃ l m s',
    Attempts rulesEnv 0 rulesSource.blocklistID rulesStores leftStores ∧
      ((leftStores.content.filter (·.blocklistID = rulesSource.blocklistID)).length = 4 ∧
        (leftStores.redis (stagingKey (liveKey rulesSource.blocklistID) "w")).isSome ∧
        (leftStores.redis (exceptionsKey rulesSource.blocklistID)).isNone) ∧
      Exec (blocklistHandler 0) () (processBlocklist rulesEnv rulesSource).run leftStores l
      (.ok m) s' ∧
      (s'.content.filter (·.blocklistID = rulesSource.blocklistID)).map BlocklistContent.held =
        chunkParts 1 (chunks maxDomainsPerDoc ["example.org", "example.net", "example.org"]) ++
          exceptionParts ["ok.example.org"] ∧
      s'.redis (liveKey rulesSource.blocklistID) = publishedSet
      ["example.org", "example.net", "example.org"] ∧
      s'.redis (exceptionsKey rulesSource.blocklistID) = publishedSet ["ok.example.org"] ∧
      s'.metadata.filter (·.blocklistID = rulesSource.blocklistID) = [m] ∧
      m.entries = 3 ∧ m.exceptionEntries = 1 := by
  obtain ⟨l, m, s', hexec, -, hnames, hexceptions, -⟩ := exec_healing
  obtain ⟨p, -, hheld, hmain, hnames', hlive, hexcepted, hmetadata, hentries,
    hexceptionEntries, -⟩ :=
    update_heals (by decide) fresh_rules attempts_left rfl hexec
  have hvalidated : p.validated = ["example.org", "example.net", "example.org"] :=
    hmain.symm.trans hnames
  have hexceptions' : p.exceptions = ["ok.example.org"] := hnames'.symm.trans hexceptions
  rw [hvalidated] at hlive hentries hheld
  rw [hexceptions'] at hexcepted hexceptionEntries hheld
  exact ⟨l, m, s', attempts_left, left_behind, hexec, hheld, hlive, hexcepted, hmetadata, hentries,
    hexceptionEntries⟩

/-- A name that is repeated is counted twice. -/
theorem repeated_counted :
    ¬ ∀ (env : ServiceEnv) (src m : BlocklistMetadata) (s₀ s s' : Stores) (l : List BlocklistAct),
    Fresh src.blocklistID s₀ → Attempts env 0 src.blocklistID s₀ s →
      Exec (blocklistHandler 0) () (processBlocklist env src).run s l (.ok m) s' →
        (s'.redis (liveKey src.blocklistID)).map (·.members.card) = some m.entries := by
  intro hclaim
  obtain ⟨l, m, s', hexec, hentries, hcard⟩ := exec_repeated
  have hsize := hclaim _ _ _ _ _ _ _ (fresh_empty _) .none hexec
  rw [hcard, hentries] at hsize
  cases hsize

end Examples

end ModDNS.Blocklists
