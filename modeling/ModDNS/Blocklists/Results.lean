import ModDNS.Blocklists.Publication

/-!
# What an update leaves when it ends

The four parts of an update, one after the other, and what the collections and the two sets are at
its end: after a failure at any step, and after a success that follows any number of failures.
-/

namespace ModDNS.Blocklists

open Go Conc Data

section Ends

variable {env : ServiceEnv} {src : BlocklistMetadata} {p : Plan} {l : List BlocklistAct}
  {r : Except BlocklistErr BlocklistMetadata}

/-- How far an update has come. -/
inductive Ended (env : ServiceEnv) (src : BlocklistMetadata) :
    List BlocklistAct → Except BlocklistErr BlocklistMetadata → Prop where
  | rejected {l : List BlocklistAct} {e : BlocklistErr}
      (h : Ends (prepare env src).run l (.error e)) :
      Ended env src l (.error e)
  | unwritten {l₁ l₂ : List BlocklistAct} {p : Plan} {e : BlocklistErr}
      (hprepare : Ends (prepare env src).run l₁ (.ok p))
      (h : Ends (persist p).run l₂ (.error e)) : Ended env src (l₁ ++ l₂) (.error e)
  | unpublished {l₁ l₂ l₃ : List BlocklistAct} {p : Plan} {e : BlocklistErr}
      (hprepare : Ends (prepare env src).run l₁ (.ok p))
      (hpersist : Ends (persist p).run l₂ (.ok ())) (h : Ends (publish p).run l₃ (.error e)) :
      Ended env src (l₁ ++ (l₂ ++ l₃)) (.error e)
  | published {l₁ l₂ l₃ l₄ : List BlocklistAct} {p : Plan}
      {r : Except BlocklistErr BlocklistMetadata}
      (hprepare : Ends (prepare env src).run l₁ (.ok p))
      (hpersist : Ends (persist p).run l₂ (.ok ()))
      (hpublish : Ends (publish p).run l₃ (.ok ())) (h : Ends (finish p).run l₄ r) :
      Ended env src (l₁ ++ (l₂ ++ (l₃ ++ l₄))) r

theorem ends_processBlocklist (h : Ends (processBlocklist env src).run l r) :
    Ended env src l r := by
  unfold processBlocklist at h
  obtain ⟨e, hprepare, rfl⟩ | ⟨l₁, l₂, p, rfl, hprepare, hrest⟩ := ends_flow_bind h
  · exact .rejected hprepare
  obtain ⟨e, hpersist, rfl⟩ | ⟨l₃, l₄, a, rfl, hpersist, hrest'⟩ := ends_flow_bind hrest
  · exact .unwritten hprepare hpersist
  obtain ⟨e, hpublish, rfl⟩ | ⟨l₅, l₆, b, rfl, hpublish, hfinish⟩ := ends_flow_bind hrest'
  · exact .unpublished hprepare hpersist hpublish
  · exact .published hprepare hpersist hpublish hfinish

theorem within_createOrUpdateSet {A : BlocklistOp → Prop} (hredis : ∀ ctx cmd, A (.redis ctx cmd))
    {ctx : Context} {key data : String} (huuid : A .newUuid) :
    Within (C := blocklistCalls) A (createOrUpdateSet ctx key data) := by
  have hdiscard : ∀ {name : String} {step : BlocklistFlow Unit}, Within
    (C := blocklistCalls) A step →
      Within (C := blocklistCalls) A (orDiscard ctx name step) := by
    intro name step hstep
    unfold orDiscard discardStaging
    refine within_bind (within_attempt hstep) fun r => ?_
    cases r with
    | ok a => exact within_pure
    | error e =>
      exact within_bind (within_bind (within_attempt (within_act (hredis _ _))) fun _ =>
        within_pure) fun _ => within_throw
  unfold createOrUpdateSet
  refine within_bind (within_act huuid) fun uuid =>
    within_bind (hdiscard (within_populate fun _ _ => hredis _ _)) fun _ => ?_
  unfold swapBlocklist
  exact hdiscard (within_bind (within_attempt (within_act (hredis _ _))) fun _ =>
    within_act (hredis _ _))

theorem within_createOrUpdateBlocklistExceptions {A : BlocklistOp → Prop}
    (hredis : ∀ ctx cmd, A (.redis ctx cmd)) (huuid : A .newUuid) {ctx : Context}
    {id data : String} :
    Within (C := blocklistCalls) A (createOrUpdateBlocklistExceptions ctx id data) := by
  by_cases hblank : trimSpace data = ""
  · have hunlink : createOrUpdateBlocklistExceptions ctx id data = call
      (.redis ctx (.unlink [exceptionsKey id])) :=
      if_pos hblank
    rw [hunlink]
    exact within_act (hredis _ _)
  · have hset : createOrUpdateBlocklistExceptions ctx id data = createOrUpdateSet ctx
      (exceptionsKey id) data :=
      if_neg hblank
    rw [hset]
    exact within_createOrUpdateSet hredis huuid

/-- The publication sends commands to Redis only. -/
theorem within_publish {A : BlocklistOp → Prop} (hredis : ∀ ctx cmd, A (.redis ctx cmd))
    (huuid : A .newUuid) :
    Within (C := blocklistCalls) A (publish p) := by
  unfold publish createOrUpdateBlocklist
  apply within_bind
  · exact within_createOrUpdateBlocklistExceptions hredis huuid
  · intro a
    exact within_createOrUpdateSet hredis huuid

theorem removeOldContents_eq {ctx : Context} {existing : List BlocklistContent} :
    removeOldContents ctx existing = deleteContents ctx (existing.map (·.id)) := by
  unfold removeOldContents
  cases existing with
  | nil => rfl
  | cons c cs => exact if_pos (by simp)

/-- How the last part has ended: the documents that it was to delete, and the metadata. -/
theorem ends_finish (h : Ends (finish p).run l r) :
    ∃ start deletes rest, l = start ++ (deletes ++ rest) ∧ (∀ x ∈ start, x.1 = .now) ∧
      (∀ x ∈ deletes, ∃ n ∈ p.existing.map (·.id), x.1 = .delete p.ctx n) ∧
      (∀ x ∈ rest, ∃ m, x.1 = .upsertMetadata p.ctx m) ∧
      ∀ m, r = .ok m → deletes = (p.existing.map (·.id)).map (fun n => ⟨.delete p.ctx n, .ok ()⟩) ∧
        rest = [⟨.upsertMetadata p.ctx m, .ok ()⟩] ∧ m.blocklistID = p.metadata.blocklistID ∧
        m.entries = p.validated.length ∧ m.exceptionEntries = p.exceptions.length := by
  unfold finish at h
  rw [removeOldContents_eq] at h
  obtain ⟨e, rfl, rfl⟩ | ⟨updatedAt, l₁, rfl, hrest⟩ := ends_act_bind h
  · exact ⟨_, [], [], rfl, List.forall_mem_singleton.2 rfl, List.forall_mem_nil _,
      List.forall_mem_nil _, nofun⟩
  obtain ⟨e, hdeletes, rfl⟩ | ⟨l₂, l₃, a, rfl, hdeletes, hupsert⟩ := ends_flow_bind hrest
  · refine ⟨[⟨.now, .ok updatedAt⟩], l₁,
      [], by rw [List.append_nil]; rfl, List.forall_mem_singleton.2 rfl,
      (ends_deleteContents hdeletes).1, List.forall_mem_nil _, nofun⟩
  obtain ⟨hops, hdone⟩ := ends_deleteContents hdeletes
  refine ⟨[⟨.now, .ok updatedAt⟩], l₂, l₃, rfl, List.forall_mem_singleton.2 rfl, hops, ?_⟩
  obtain ⟨e, rfl, rfl⟩ | ⟨b, l₄, rfl, hend⟩ := ends_act_bind hupsert
  · exact ⟨List.forall_mem_singleton.2 ⟨_, rfl⟩, nofun⟩
  · obtain ⟨rfl, rfl⟩ := ends_flow_pure hend
    refine ⟨List.forall_mem_singleton.2 ⟨_, rfl⟩, fun m hm => ?_⟩
    obtain rfl := Except.ok.inj hm
    exact ⟨hdone rfl, rfl, rfl, rfl, rfl⟩

end Ends

section Content

variable {env : ServiceEnv} {src : BlocklistMetadata} {p : Plan} {l l' : List BlocklistAct}
  {grace : ℕ} {s s' : Stores} {r : Except BlocklistErr BlocklistMetadata}

/-- What an update has done to the content documents: the ones from before that are left, and the
new ones. -/
structure Collected (env : ServiceEnv) (src : BlocklistMetadata) (s s' : Stores)
    (l : List BlocklistAct) (r : Except BlocklistErr BlocklistMetadata)
    (kept docs : List BlocklistContent) : Prop where
  content : s'.content = kept ++ docs
  sublist : kept.Sublist s.content
  added : ∀ c ∈ docs, c.blocklistID = src.blocklistID ∧ c.id ∉ s.content.map (·.id)
  stored : docs = [] ↔ ∀ x ∈ l, ¬ Stored x
  unremoved : (∀ x ∈ l, ¬ Removed x) → kept = s.content
  complete : ((∃ x ∈ l, Removed x) ∨ (∃ x ∈ l, ∃ ctx cmd, x.1 = .redis ctx cmd) ∨ ∃ m, r = .ok m) →
    ∃ p, Planned env src l p ∧ docs.map BlocklistContent.held = p.parts
  cleaned : ∀ m, r = .ok m → ∀ c ∈ kept, c.blocklistID ≠ src.blocklistID

theorem not_stored {x : BlocklistAct} {o : BlocklistOp} (hop : x.1 = o)
    (ho : ∀ ctx c, o ≠ .upsertContent ctx c) : ¬ Stored x := by
  rintro ⟨⟨ctx, c, h⟩, -⟩
  exact ho ctx c (hop.symm.trans h)

theorem not_removed {x : BlocklistAct} {o : BlocklistOp} (hop : x.1 = o)
    (ho : ∀ ctx n, o ≠ .delete ctx n) : ¬ Removed x := by
  rintro ⟨⟨ctx, n, h⟩, -⟩
  exact ho ctx n (hop.symm.trans h)

/-- The preparation only reads. -/
theorem prepare_same {r : Except BlocklistErr Plan} (h : Ends (prepare env src).run l r) :
    ∀ x ∈ l, ¬ Stored x ∧ ¬ Removed x := by
  intro x hx
  have hreads := within_path within_prepare h x hx
  exact ⟨not_stored rfl fun ctx c hop => by rw [hop] at hreads; exact hreads,
    not_removed rfl fun ctx n hop => by rw [hop] at hreads; exact hreads⟩

theorem persist_kind {r : Except BlocklistErr Unit} (h : Ends (persist p).run l r) :
    ∀ x ∈ l, x.1 = .newObjectID ∨ ∃ c : BlocklistContent, x.1 = .upsertContent p.ctx c := by
  have honly : Within (C := blocklistCalls)
    (fun o => o = .newObjectID ∨ ∃ c, o = .upsertContent p.ctx c) (persist p) :=
    within_persist (.inl rfl) fun c _ => .inr ⟨c, rfl⟩
  exact within_path honly h

theorem publish_kind {r : Except BlocklistErr Unit} (h : Ends (publish p).run l r) :
    ∀ x ∈ l, x.1 = .newUuid ∨ ∃ ctx cmd, x.1 = .redis ctx cmd := by
  have honly : Within (C := blocklistCalls) (fun o => o = .newUuid ∨ ∃ ctx cmd, o = .redis ctx cmd)
    (publish p) :=
    within_publish (fun ctx cmd => .inr ⟨ctx, cmd, rfl⟩) (.inl rfl)
  exact within_path honly h

theorem publish_same {r : Except BlocklistErr Unit} (h : Ends (publish p).run l r) :
    ∀ x ∈ l, ¬ Stored x ∧ ¬ Removed x := by
  intro x hx
  obtain hop | ⟨ctx, cmd, hop⟩ := publish_kind h x hx
  · exact ⟨not_stored hop nofun, not_removed hop nofun⟩
  · exact ⟨not_stored hop nofun, not_removed hop nofun⟩

/-- The documents that the update has read are all that the list had. -/
theorem existing_eq (hprepared : Prepared env src l p) (h : Trail grace s l s')
    (hsame : ∀ x ∈ l, ¬ Stored x ∧ ¬ Removed x) :
    p.existing = s.content.filter (·.blocklistID = src.blocklistID) := by
  obtain ⟨l₁, l₂, rfl⟩ := List.append_of_mem hprepared.snapshot
  obtain ⟨s₁, h₁, s₂, ⟨d, c, hanswer, -⟩, -⟩ := trail_append.1 h
  have hcontent := trail_same h₁ fun x hx => hsame x (List.mem_append_left _ hx)
  rw [← hcontent]
  exact call_ok hanswer

/-- An update that has failed before the clean-up. -/
theorem collected_of_added {e : BlocklistErr} {docs : List BlocklistContent}
    (hadded : Added src.blocklistID s s' l docs) (hremoved : ∀ x ∈ l, ¬ Removed x)
    (hcomplete : (∃ x ∈ l, ∃ ctx cmd, x.1 = .redis ctx cmd) → ∃ p, Planned env src l p ∧
      docs.map BlocklistContent.held = p.parts) :
    Collected env src s s' l (.error e) s.content docs where
  content := hadded.1
  sublist := List.Sublist.refl _
  added := hadded.2.1
  stored := hadded.2.2
  unremoved := fun _ => rfl
  complete := by
    rintro (⟨x, hx, h⟩ | h | ⟨m, hm⟩)
    · exact absurd h (hremoved x hx)
    · exact hcomplete h
    · cases hm
  cleaned := nofun

/-- Until the publication nothing is removed, and nothing is sent to Redis. -/
theorem written_quiet {l₁ l₂ : List BlocklistAct} {r₁ : Except BlocklistErr Plan}
    {r₂ : Except BlocklistErr Unit} (h₁ : Ends (prepare env src).run l₁ r₁)
    (h₂ : Ends (persist p).run l₂ r₂) :
    ∀ x ∈ l₁ ++ l₂, ¬ Removed x ∧ ∀ ctx cmd, x.1 ≠ .redis ctx cmd := by
  intro x hx
  rcases List.mem_append.1 hx with hx | hx
  · refine ⟨(prepare_same h₁ x hx).2, fun ctx cmd hop => ?_⟩
    have hreads := within_path within_prepare h₁ x hx
    rw [hop] at hreads
    exact hreads
  · obtain hop | ⟨c, hop⟩ := persist_kind h₂ x hx
    · exact ⟨not_removed hop nofun, fun ctx cmd h => nomatch hop.symm.trans h⟩
    · exact ⟨not_removed hop nofun, fun ctx cmd h => nomatch hop.symm.trans h⟩

/-- What the first three parts have added. -/
theorem added_published {l₁ l₂ l₃ : List BlocklistAct} {s₁ : Stores} {r : Except BlocklistErr Unit}
    (h₁ : Ends (prepare env src).run l₁ (.ok p)) (h₂ : Ends (persist p).run l₂ (.ok ()))
    (h₃ : Ends (publish p).run l₃ r)
    (h : Trail grace s (l₁ ++ (l₂ ++ l₃)) s₁) :
    ∃ docs, Added src.blocklistID s s₁ (l₁ ++ (l₂ ++ l₃)) docs ∧
    docs.map BlocklistContent.held = p.parts := by
  obtain ⟨s₂, hprepare, hrest⟩ := trail_append.1 h
  obtain ⟨s₃, hpersist, hpublish⟩ := trail_append.1 hrest
  obtain ⟨docs, hadded, hheld⟩ := added_wrote (ends_persist h₂) hpersist
  rw [(ends_prepare h₁).blocklistID] at hadded
  have hend := hadded.append (added_none hpublish (publish_same h₃))
  rw [List.append_nil] at hend
  exact ⟨docs, (added_none hprepare (prepare_same h₁)).append hend, hheld rfl⟩

/-- What the clean-up has made of the documents. -/
theorem collected_finish {l₁ l₄ : List BlocklistAct} {s₁ : Stores} {docs : List BlocklistContent}
    (hexisting : p.existing = s.content.filter (·.blocklistID = src.blocklistID))
    (h₄ : Ends (finish p).run l₄ r)
    (hadded : Added src.blocklistID s s₁ l₁ docs) (h : Trail grace s₁ l₄ s')
    (hplan : Planned env src (l₁ ++ l₄) p) (hheld : docs.map BlocklistContent.held = p.parts) :
    ∃ kept, Collected env src s s' (l₁ ++ l₄) r kept docs := by
  obtain ⟨hcontent, hdocs, hstored⟩ := hadded
  obtain ⟨start, deletes, rest, rfl, hstart, hdeletes, hrest, hok⟩ := ends_finish h₄
  obtain ⟨s₂, htstart, ht⟩ := trail_append.1 h
  obtain ⟨s₃, htdeletes, htrest⟩ := trail_append.1 ht
  have hfresh : ∀ c ∈ docs, c.id ∉ p.existing.map (·.id) := by
    intro c hc hin
    obtain ⟨c', hc', hid⟩ := List.mem_map.1 hin
    rw [hexisting] at hc'
    exact (hdocs c hc).2 (List.mem_map.2 ⟨c', (List.mem_filter.1 hc').1, hid⟩)
  have hs₂ : s₂.content = s.content ++ docs := by
    rw [trail_same htstart fun x hx =>
      ⟨not_stored (hstart x hx) nofun, not_removed (hstart x hx) nofun⟩, hcontent]
  have hs' : s'.content = s₃.content := trail_same htrest fun x hx => by
    obtain ⟨m, hop⟩ := hrest x hx
    exact ⟨not_stored hop nofun, not_removed hop nofun⟩
  obtain ⟨kept, hsublist, hs₃, hkept⟩ := trail_deletes hdeletes htdeletes hs₂ hfresh
  refine ⟨kept, hs'.trans hs₃, hsublist, hdocs, ?_, fun hnone => hkept fun x hx => ?_,
    fun _ => ⟨p, hplan, hheld⟩, ?_⟩
  · have hlast : ∀ x ∈ start ++ (deletes ++ rest), ¬ Stored x := by
      refine List.forall_mem_append.2 ⟨fun x hx => not_stored (hstart x hx) nofun,
        List.forall_mem_append.2 ⟨fun x hx => ?_, fun x hx => ?_⟩⟩
      · obtain ⟨n, -, hop⟩ := hdeletes x hx
        exact not_stored hop nofun
      · obtain ⟨m, hop⟩ := hrest x hx
        exact not_stored hop nofun
    rw [hstored, List.forall_mem_append]
    exact ⟨fun hnone => ⟨hnone, hlast⟩, And.left⟩
  · exact hnone x (List.mem_append_right _ (List.mem_append_right _ (List.mem_append_left _ hx)))
  · rintro m hm c hc hid
    obtain ⟨rfl, -⟩ := hok m hm
    have hmem : c ∈ s₃.content := hs₃ ▸ List.mem_append_left _ hc
    rw [trail_deleted htdeletes] at hmem
    have hnot := of_decide_eq_true (List.mem_filter.1 hmem).2
    refine hnot (List.mem_map.2 ⟨c, ?_, rfl⟩)
    rw [hexisting]
    exact List.mem_filter.2 ⟨hsublist.subset hc, decide_eq_true hid⟩

/-- **What an update has done to the content documents when it ends.** -/
theorem exec_collected (hexec : Exec (blocklistHandler grace) ()
    (processBlocklist env src).run s l r s') :
    ∃ kept docs, Collected env src s s' l r kept docs := by
  have htrail := trail_exec hexec
  have hended := ends_processBlocklist (exec_path hexec)
  -- how far it came: nothing stored, some parts, all of them, or the sets published
  cases hended with
  | @rejected l e h =>
    have hsame := prepare_same h
    refine ⟨_, _, collected_of_added (added_none htrail hsame) (fun x hx => (hsame x hx).2) ?_⟩
    rintro ⟨x, hx, ctx, cmd, hop⟩
    have hreads := within_path within_prepare h x hx
    rw [hop] at hreads
    exact hreads.elim
  | @unwritten l₁ l₂ p e hprepare h =>
    obtain ⟨s₁, h₁, h₂⟩ := trail_append.1 htrail
    have hlist := (ends_prepare hprepare).blocklistID
    have hquiet := written_quiet hprepare h
    obtain ⟨docs, hadded, -⟩ := added_wrote (ends_persist h) h₂
    rw [hlist] at hadded
    have hall := (added_none h₁ (prepare_same hprepare)).append hadded
    refine ⟨_, _, collected_of_added hall (fun x hx => (hquiet x hx).1) ?_⟩
    rintro ⟨x, hx, ctx, cmd, hop⟩
    exact absurd hop ((hquiet x hx).2 ctx cmd)
  | @unpublished l₁ l₂ l₃ p e hprepare hpersist h =>
    obtain ⟨docs, hadded, hheld⟩ := added_published hprepare hpersist h htrail
    refine ⟨_, _, collected_of_added hadded ?_ fun _ =>
      ⟨p, ⟨l₁, List.prefix_append _ _, hprepare⟩, hheld⟩⟩
    rw [← List.append_assoc]
    exact List.forall_mem_append.2 ⟨fun x hx => (written_quiet hprepare hpersist x hx).1,
      fun x hx => (publish_same h x hx).2⟩
  | @published l₁ l₂ l₃ l₄ p r hprepare hpersist hpublish h =>
    rw [← List.append_assoc l₂, ← List.append_assoc l₁] at htrail ⊢
    obtain ⟨s₁, h₁, h₄⟩ := trail_append.1 htrail
    obtain ⟨docs, hadded, hheld⟩ := added_published hprepare hpersist hpublish h₁
    have hexisting :=
      existing_eq (ends_prepare hprepare) (trail_append.1 h₁).choose_spec.1 (prepare_same hprepare)
    have hplan : Planned env src (l₁ ++ (l₂ ++ l₃) ++ l₄) p := by
      refine ⟨l₁, ?_, hprepare⟩
      rw [List.append_assoc]
      exact List.prefix_append _ _
    obtain ⟨kept, hcollected⟩ := collected_finish hexisting h hadded h₄ hplan hheld
    exact ⟨kept, docs, hcollected⟩

end Content

section Exec

variable {env : ServiceEnv} {src : BlocklistMetadata} {l : List BlocklistAct} {grace : ℕ}
  {s s' : Stores} {r : Except BlocklistErr BlocklistMetadata}

/-- One update, as a pool of one thread. -/
def alone (env : ServiceEnv) (src : BlocklistMetadata) (s : Stores) :
    Pool blocklistCalls.sig Unit Stores (Except BlocklistErr BlocklistMetadata) :=
  ⟨s, fun _ => (processBlocklist env src).run⟩

theorem publishing_alone (hfresh : Fresh src.blocklistID s) :
    Publishing env src.blocklistID (fun _ => some src) (alone env src s) where
  list := by
    rintro _ _ ⟨⟩
    rfl
  permits := fun _ => meets_mono (follows_run follows_processBlocklist) fun _ _ _ _ => trivial
  fresh := hfresh

/-- What the update knew when it took an action. -/
theorem exec_allowed (hexec : Exec (blocklistHandler grace) ()
    (processBlocklist env src).run s l r s') {x : BlocklistAct} (hx : x ∈ l) : ∃ l₀, l₀ <+: l ∧
    Allowed env src l₀ x.1 := by
  obtain ⟨l₁, l₂, rfl⟩ := List.append_of_mem hx
  have hmeets :=
    follows_run (follows_processBlocklist : Follows (Allowed env src) _
      (processBlocklist env src) [])
  exact ⟨l₁, List.prefix_append _ _, meets_mid hmeets (exec_path hexec)⟩

/-- **What an update has done to the two sets when it ends.** -/
theorem exec_sets (hgrace : processingTimeout + grace < stagingTTL)
    (hfresh : Fresh src.blocklistID s)
    (hexec : Exec (blocklistHandler grace) () (processBlocklist env src).run s l r s')
    (n : SetName) :
    ((∀ x ∈ l, ¬ Published (n.key src.blocklistID) x) ∧
        (Lasting src.blocklistID s → s'.redis (n.key src.blocklistID) = s.redis
          (n.key src.blocklistID))) ∨
      (∃ x ∈ l, Published (n.key src.blocklistID) x) ∧
        ∃ p, Planned env src l p ∧ s'.redis (n.key src.blocklistID) = publishedSet (p.names n) := by
  have hrun : Run (blocklistHandler grace) Free (alone env src s)
    (l.map fun x => ⟨(), x.1, x.2⟩) _ :=
    run_exec rfl hexec
  have hshows := live_run (publishing_alone hfresh) hgrace hrun n
  unfold Shows at hshows
  cases hlast : lastPublisher (n.key src.blocklistID)
    (l.map fun x => (⟨(), x.1, x.2⟩ : Event blocklistCalls.sig Unit)) with
  | none =>
    rw [hlast] at hshows
    exact .inl ⟨fun x hx => lastPublisher_none.1 hlast _ (List.mem_map_of_mem hx), hshows⟩
  | some j =>
    rw [hlast] at hshows
    obtain ⟨src', p, hjob, hplan, hx⟩ := hshows
    cases hjob
    rw [trace_map] at hplan
    refine .inr ⟨?_, p, hplan, hx⟩
    by_contra hnone
    have hnot : lastPublisher (n.key src.blocklistID)
        (l.map fun x => (⟨(), x.1, x.2⟩ : Event blocklistCalls.sig Unit)) = none := by
      refine lastPublisher_none.2 fun e he hpub => hnone ?_
      obtain ⟨x, hx, rfl⟩ := List.mem_map.1 he
      exact ⟨x, hx, hpub⟩
    rw [hnot] at hlast
    cases hlast

/-- The action has written the metadata. -/
def Recorded (x : BlocklistAct) : Prop := (∃ ctx m, x.1 = .upsertMetadata ctx m) ∧ TookEffect x.2

theorem next_metadata {x : BlocklistAct} (h : Next grace s x s') :
    s'.metadata = onMetadata s.metadata x := by
  obtain ⟨d, c, -, rfl⟩ := h
  exact act_metadata _ x

/-- Only what is recorded shows. -/
theorem trail_unrecorded (h : Trail grace s l s') (hl : ∀ x ∈ l, ¬ Recorded x) :
    s'.metadata = s.metadata := by
  induction l generalizing s with
  | nil => exact congrArg Stores.metadata h.symm
  | cons x l ih =>
    obtain ⟨s₁, hx, hrest⟩ := h
    obtain ⟨hnot, hl⟩ := List.forall_mem_cons.1 hl
    have hsame : onMetadata s.metadata x = s.metadata := by
      unfold onMetadata
      split
      · next htook =>
        split
        · next ctx m hop => exact absurd ⟨⟨ctx, m, hop⟩, htook⟩ hnot
        · rfl
      · rfl
    rw [ih hrest hl, next_metadata hx, hsame]

/-- The list, as it was before: its two sets, its documents and its metadata. -/
structure Untouched (id : String) (s s' : Stores) : Prop where
  sets : ∀ n : SetName, s'.redis (n.key id) = s.redis (n.key id)
  content : s'.content.filter (·.blocklistID = id) = s.content.filter (·.blocklistID = id)
  metadata : s'.metadata.filter (·.blocklistID = id) = s.metadata.filter (·.blocklistID = id)

/-- An update that has stored no document has done nothing. -/
theorem untouched_unless (hgrace : processingTimeout + grace < stagingTTL)
    (hfresh : Fresh src.blocklistID s) (hlasting : Lasting src.blocklistID s)
    (hexec : Exec (blocklistHandler grace) () (processBlocklist env src).run s l r s')
    (hnone : ∀ x ∈ l, ¬ Stored x) :
    Untouched src.blocklistID s s' := by
  have hsaved : ∀ l₀, l₀ <+: l → ¬ Saved l₀ := by
    rintro l₀ hl₀ ⟨ctx, c, hc⟩
    exact hnone _ (hl₀.subset hc) ⟨⟨ctx, c, rfl⟩, trivial⟩
  have hremoved : ∀ x ∈ l, ¬ Removed x := by
    rintro x hx ⟨⟨ctx, n, hop⟩, -⟩
    obtain ⟨l₀, hl₀, hallowed⟩ := exec_allowed hexec hx
    rw [hop] at hallowed
    exact hsaved l₀ hl₀ hallowed
  have hrecorded : ∀ x ∈ l, ¬ Recorded x := by
    rintro x hx ⟨⟨ctx, m, hop⟩, -⟩
    obtain ⟨l₀, hl₀, hallowed⟩ := exec_allowed hexec hx
    rw [hop] at hallowed
    exact hsaved l₀ hl₀ hallowed
  have htrail := trail_exec hexec
  refine ⟨fun n => ?_, ?_, ?_⟩
  · obtain ⟨-, hsame⟩ | ⟨⟨x, hx, hpub⟩, -⟩ := exec_sets hgrace hfresh hexec n
    · exact hsame hlasting
    · obtain ⟨ctx, cmd, hop, -⟩ := published_iff.1 hpub
      obtain ⟨l₀, hl₀, hallowed⟩ := exec_allowed hexec hx
      rw [hop] at hallowed
      obtain ⟨p, -, -, hsaved', -⟩ := hallowed
      exact absurd hsaved' (hsaved l₀ hl₀)
  · rw [trail_same htrail fun x hx => ⟨hnone x hx, hremoved x hx⟩]
  · rw [trail_unrecorded htrail hrecorded]

/-- A document that was stored under a new id shows. -/
theorem Collected.touched {kept docs : List BlocklistContent}
    (h : Collected env src s s' l r kept docs) (hsame : Untouched src.blocklistID s s') :
    ∀ x ∈ l, ¬ Stored x := by
  rw [← h.stored, List.eq_nil_iff_forall_not_mem]
  intro c hc
  obtain ⟨hlist, hnew⟩ := h.added c hc
  have hin : c ∈ s'.content.filter (·.blocklistID = src.blocklistID) := by
    rw [h.content]
    exact List.mem_filter.2 ⟨List.mem_append_right _ hc, decide_eq_true hlist⟩
  rw [hsame.content] at hin
  exact hnew (List.mem_map.2 ⟨c, (List.mem_filter.1 hin).1, rfl⟩)

/-- **A failed update.** It leaves the list untouched exactly when it has stored no document, as
after every rejection. A later failure leaves the old documents, until the clean-up begins, when all
the new ones are there; each set as it was or whole and new, the main set not before the exceptions;
and the metadata as it was, unless they were written in the end. -/
theorem update_failed (hgrace : processingTimeout + grace < stagingTTL)
    (hfresh : Fresh src.blocklistID s) (hlasting : Lasting src.blocklistID s) {e : BlocklistErr}
    (hexec : Exec (blocklistHandler grace) () (processBlocklist env src).run s l (.error e) s') :
    (Ends (prepare env src).run l (.error e) → Untouched src.blocklistID s s') ∧
    (Untouched src.blocklistID s s' ↔ ∀ x ∈ l, ¬ Stored x) ∧
    (∃ kept docs, s'.content = kept ++ docs ∧ kept.Sublist s.content ∧
      (∀ c ∈ docs, c.blocklistID = src.blocklistID ∧ c.id ∉ s.content.map (·.id)) ∧
      ((∀ x ∈ l, ¬ Removed x) → kept = s.content) ∧
      ((∃ x ∈ l, Removed x) → ∃ p, Planned env src l p ∧
        docs.map BlocklistContent.held = p.parts)) ∧
    (∀ n : SetName, s'.redis (n.key src.blocklistID) = s.redis (n.key src.blocklistID) ∨
      ∃ p, Planned env src l p ∧ s'.redis (n.key src.blocklistID) = publishedSet (p.names n)) ∧
    ((∃ x ∈ l, Published (liveKey src.blocklistID) x) →
      ∃ p, Planned env src l p ∧ s'.redis (exceptionsKey src.blocklistID) =
        publishedSet p.exceptions) ∧
    ((∀ x ∈ l, ¬ Recorded x) → s'.metadata = s.metadata) := by
  -- the documents after the run: some of the old ones, then those it has stored
  obtain ⟨kept, docs, hcollected⟩ := exec_collected hexec
  have huntouched := untouched_unless hgrace hfresh hlasting hexec
  refine ⟨fun hrejected => ?_, ⟨hcollected.touched, huntouched⟩, ⟨kept, docs, ?_⟩,
    fun n => ?_, ?_, ?_⟩
  · exact huntouched fun x hx => (prepare_same hrejected x hx).1
  · exact ⟨hcollected.content, hcollected.sublist, hcollected.added, hcollected.unremoved,
      fun hremoved => hcollected.complete (.inl hremoved)⟩
  · obtain ⟨-, hsame⟩ | ⟨-, hnew⟩ := exec_sets hgrace hfresh hexec n
    · exact .inl (hsame hlasting)
    · exact .inr hnew
  -- the main set is published after the exceptions
  · rintro ⟨x, hx, hpub⟩
    obtain ⟨ctx, cmd, hop, hcmd, -⟩ := published_iff.1 hpub
    obtain ⟨l₀, hl₀, hallowed⟩ := exec_allowed hexec hx
    rw [hop] at hallowed
    obtain ⟨p, -, -, -, hknown⟩ := hallowed
    obtain ⟨y, hy, hready⟩ := (published_main hknown hcmd).published
    obtain ⟨hnone, -⟩ | ⟨-, hnew⟩ := exec_sets hgrace hfresh hexec .exceptions
    · exact absurd hready (hnone y (hl₀.subset hy))
    · exact hnew
  · exact trail_unrecorded (trail_exec hexec)

end Exec

section Examples

/-- A list with one name on each line. -/
def plainExtractor : Extractor where
  extractMetadata body := some (0, "", (split (text body) '\n').length)
  convert body := some (body, {})

def plainEnv : ServiceEnv where
  extractors := ⟨plainExtractor, plainExtractor, plainExtractor, plainExtractor, plainExtractor⟩
  minAllowed prev := prev / 2

def plainSource : BlocklistMetadata :=
  { blocklistID := "blp_ads", name := "Ads", sourceUrl := "https://lists.example/ads" }

/-- The list has been published with one name. -/
def plainStores : Stores where
  content := [⟨1, "blp_ads", 1, "", "example.com"⟩]
  metadata := [{ plainSource with id := 2, entries := 1 }]
  redis key := if key = liveKey "blp_ads" then some ⟨{"example.com"}, none⟩ else none

theorem fresh_plain : Fresh plainSource.blocklistID plainStores := by
  intro n u _
  have hne : stagingKey (n.key "blp_ads") u ≠ SetName.main.key "blp_ads" := stagingKey_ne
  exact if_neg hne

theorem lasting_plain : Lasting plainSource.blocklistID plainStores := by
  intro n x hx
  have hsome : (if n.key "blp_ads" = liveKey "blp_ads" then some ⟨{"example.com"}, none⟩
      else none) = some x := hx
  split at hsome
  · cases hsome
    rfl
  · cases hsome

/-- The document is written, and then Redis does not answer. -/
theorem exec_failing :
    ∃ l s', Exec (blocklistHandler 0) () (processBlocklist plainEnv plainSource).run plainStores l
    (.error (.store false)) s' ∧
    (s'.content.filter (·.blocklistID = plainSource.blocklistID)).length = 2 := by
  have hplays : ((processBlocklist plainEnv plainSource).run.exec (blocklistHandler 0) ()
      [⟨0, .ok⟩, ⟨0, .body (encode "example.org")⟩, ⟨0, .ok⟩, ⟨0, .ok⟩, ⟨0, .id 3⟩, ⟨0, .ok⟩,
        ⟨0, .fail false⟩]
      plainStores).map (fun x =>
      (x.2.1, (x.2.2.content.filter (·.blocklistID = plainSource.blocklistID)).length)) =
        some (.error (.store false), 2) := by
    decide +kernel
  obtain ⟨⟨l, r, s'⟩, hexec, heq⟩ := Option.map_eq_some_iff.1 hplays
  obtain ⟨rfl, hlength⟩ := Prod.mk.inj heq
  exact ⟨l, s', exec_of_choices hexec, hlength⟩

theorem update_failed_plain :
    ∃ l s', Exec (blocklistHandler 0) () (processBlocklist plainEnv plainSource).run plainStores l
    (.error (.store false)) s' ∧ (Untouched plainSource.blocklistID plainStores s' ↔
      ∀ x ∈ l, ¬ Stored x) := by
  obtain ⟨l, s', hexec, -⟩ := exec_failing
  exact ⟨l, s', hexec, (update_failed (by decide) fresh_plain lasting_plain hexec).2.1⟩

/-- A document of the failed update stays beside the old one. -/
theorem failure_shows :
    ¬ ∀ (env : ServiceEnv) (src : BlocklistMetadata) (s s' : Stores) (l : List BlocklistAct)
    (e : BlocklistErr), Fresh src.blocklistID s → Lasting src.blocklistID s →
      Exec (blocklistHandler 0) () (processBlocklist env src).run s l (.error e) s' →
        Untouched src.blocklistID s s' := by
  intro hclaim
  obtain ⟨l, s', hexec, hlength⟩ := exec_failing
  rw [(hclaim _ _ _ _ _ _ fresh_plain lasting_plain hexec).content] at hlength
  have hold : (plainStores.content.filter (·.blocklistID = plainSource.blocklistID)).length =
      1 := by decide
  omega

end Examples

end ModDNS.Blocklists
