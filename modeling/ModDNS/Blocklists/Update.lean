import ModDNS.Blocklists.Contents
import ModDNS.Blocklists.Staging

/-!
# What an update may do at each moment

An update reads and checks first (`Planned`), and only then writes: the documents, the exceptions,
the main set, the clean-up, the metadata. `Allowed` says what it knows when it takes an action, and
`update_follows` that it takes no other.
-/

namespace ModDNS.Blocklists

open Go Conc Data

/-- The names and the exceptions that are published for a download. -/
def Converts (env : ServiceEnv) (blocklistID : String) (body : Bytes)
    (validated exceptions : List String) : Prop :=
  ∃ info domains, extract env blocklistID body = .ok (info, domains, exceptions) ∧
    scanValidatedDomains domains = some validated

/-- The call reads, or draws a document id. -/
def BlocklistOp.Reads : BlocklistOp → Prop
  | .now => True
  | .newObjectID => True
  | .fetch _ _ _ => True
  | .getContent _ _ => True
  | .getMetadata _ _ => True
  | _ => False

/-- What an update knows once it is prepared. -/
structure Prepared (env : ServiceEnv) (src : BlocklistMetadata) (l : List BlocklistAct) (p : Plan) :
    Prop where
  started : ∃ (start : ℕ) (rest : List BlocklistAct), l = ⟨.now, .ok start⟩ :: rest ∧
    p.ctx = start + processingTimeout
  fetched : ∃ body, (⟨.fetch p.ctx src.blocklistID src.sourceUrl, .ok body⟩ : BlocklistAct) ∈ l ∧
    Converts env src.blocklistID body p.validated p.exceptions
  snapshot : (⟨.getContent p.ctx src.blocklistID, .ok p.existing⟩ : BlocklistAct) ∈ l
  stored : ∃ ms, (⟨.getMetadata p.ctx src.blocklistID, .ok ms⟩ : BlocklistAct) ∈ l ∧ ms.length ≤ 1
  blocklistID : p.metadata.blocklistID = src.blocklistID
  nonempty : p.validated ≠ []

section Prepare

variable {env : ServiceEnv} {src : BlocklistMetadata} {l : List BlocklistAct} {p : Plan}

theorem within_metadataID {ms : List BlocklistMetadata} :
    Within BlocklistOp.Reads (metadataID ms) := by
  match ms with
  | [] => exact within_act trivial
  | [m] => exact within_pure
  | _ :: _ :: _ => exact within_throw

theorem within_prepare : Within BlocklistOp.Reads (prepare env src) := by
  unfold prepare checkValidationGate
  refine within_bind (within_act trivial) fun start =>
    within_bind (within_act trivial) fun body => ?_
  refine within_bind ?_ fun res => ?_
  · unfold orThrow
    split
    · exact within_throw
    · exact within_pure
  obtain ⟨⟨lastModified, version, entries⟩, domains, exceptions⟩ := res
  refine within_bind (within_act trivial) fun existing =>
    within_bind (within_act trivial) fun ms => ?_
  refine within_bind within_metadataID fun id => within_bind ?_ fun validated => ?_
  · unfold orFail
    split
    · exact within_throw
    · exact within_pure
  exact within_bind (within_bind within_ensure fun _ => within_ensure) fun _ => within_pure

theorem ends_metadataID {ms : List BlocklistMetadata} {id : ObjectID}
    (h : Ends (metadataID ms).run l (.ok id)) :
    ms.length ≤ 1 := by
  match ms, h with
  | [], _ => exact Nat.zero_le _
  | [_], _ => exact Nat.le_refl _
  | _ :: _ :: _, h => cases (ends_throw h).2

theorem ends_gate {ms : List BlocklistMetadata} {n : ℕ}
    (h : Ends (checkValidationGate env ms n).run l (.ok ())) : n ≠ 0 := by
  unfold checkValidationGate at h
  obtain ⟨-, -, he⟩ | ⟨hne, -⟩ := ends_ensure_bind h
  · cases he
  · exact hne

theorem ends_orFail {α : Type} {e : BlocklistErr} {o : Option α} {a : α}
    (h : Ends (orFail e o).run l (.ok a)) : o = some a := by
  cases o with
  | none => cases (ends_throw h).2
  | some b =>
    cases (ends_flow_pure h).2
    rfl

theorem ends_orThrow {α : Type} {r : Except BlocklistErr α} {a : α}
    (h : Ends (orThrow r).run l (.ok a)) : r = .ok a := by
  cases r with
  | error e => cases (ends_throw h).2
  | ok b =>
    cases (ends_flow_pure h).2
    rfl

theorem ends_prepare (h : Ends (prepare env src).run l (.ok p)) : Prepared env src l p := by
  have hid : (named src).blocklistID = src.blocklistID := by
    unfold named
    split <;> rfl
  unfold prepare at h
  obtain ⟨start, l₁, rfl, hstart⟩ := ends_act_bind_ok h
  obtain ⟨body, l₂, rfl, hbody⟩ := ends_act_bind_ok hstart
  obtain ⟨l₃, l₄, res, rfl, hres, hextract⟩ := ends_flow_bind_ok hbody
  obtain ⟨⟨lastModified, version, entries⟩, domains, exceptions⟩ := res
  obtain ⟨existing, l₅, rfl, hexisting⟩ := ends_act_bind_ok hextract
  obtain ⟨ms, l₆, rfl, hmetadata⟩ := ends_act_bind_ok hexisting
  obtain ⟨l₇, l₈, id, rfl, hms, hrest⟩ := ends_flow_bind_ok hmetadata
  obtain ⟨l₉, l₁₀, validated, rfl, hscan, hvalidated⟩ := ends_flow_bind_ok hrest
  obtain ⟨l₁₁, l₁₂, passed, rfl, hgate, hend⟩ := ends_flow_bind_ok hvalidated
  obtain ⟨-, hp⟩ := ends_flow_pure hend
  obtain rfl := Except.ok.inj hp
  have hnonempty : validated ≠ [] := fun hnil => ends_gate hgate (by rw [hnil]; rfl)
  exact
    { started := ⟨start, _, rfl, rfl⟩
      fetched := ⟨body, by simp, _, domains, ends_orThrow hres, ends_orFail hscan⟩
      snapshot := by simp
      stored := ⟨ms, by simp, ends_metadataID hms⟩
      blocklistID := hid
      nonempty := hnonempty }

theorem valid_of_converts {blocklistID : String} {body : Bytes} {validated exceptions : List String}
    (h : Converts env blocklistID body validated exceptions) :
    (∀ d ∈ validated, validDomain d = true) ∧ ∀ d ∈ exceptions, validDomain d = true := by
  obtain ⟨info, domains, hextract, hscan⟩ := h
  refine ⟨scan_valid hscan, ?_⟩
  have hfilter : ∃ names : List String, exceptions = names.filter validDomain := by
    unfold extract at hextract
    cases hextr : newExtractor env.extractors blocklistID with
    | none => simp [hextr, bind, Except.bind] at hextract
    | some extr =>
      cases hinfo : extr.extractMetadata (trimBom body) with
      | none => simp [hextr, hinfo, bind, Except.bind] at hextract
      | some info' =>
        cases hconvert : extr.convert (trimBom body) with
        | none => simp [hextr, hinfo, hconvert, bind, Except.bind] at hextract
        | some res =>
          simp only [hextr, hinfo, hconvert, bind, Except.bind, pure, Except.pure, Except.ok.injEq,
            Prod.mk.injEq] at hextract
          exact ⟨_, hextract.2.2.symm⟩
  obtain ⟨names, rfl⟩ := hfilter
  exact fun d hd => (List.mem_filter.1 hd).2

end Prepare

theorem newline_of_valid {d : String} (h : validDomain d = true) : '\n' ∉ d.toList := by
  intro hc
  have hbounds := validDomain_bounds h hc
  revert hbounds
  decide

/-- Names that were joined are not blank. -/
theorem trimSpace_join {names : List String} (h : ∀ d ∈ names, validDomain d = true)
    (hne : names ≠ []) :
    trimSpace (join names '\n') ≠ "" := by
  obtain ⟨d, ds, rfl⟩ := List.exists_cons_of_ne_nil hne
  obtain ⟨c, cs, hd⟩ :=
    List.exists_cons_of_ne_nil (ne_empty_iff.1 (validDomain_ne (h d List.mem_cons_self)))
  have hspace : isSpace c = false := by
    have hbounds := validDomain_bounds (h d List.mem_cons_self) (hd ▸ List.mem_cons_self)
    simp only [isSpace, Bool.or_eq_false_iff, Bool.and_eq_false_iff, decide_eq_false_iff_not,
      beq_eq_false_iff_ne]
    omega
  have hjoin : ∃ rest, (join (d :: ds) '\n').toList = c :: rest := by
    unfold join
    rw [String.toList_ofList, List.map_cons, hd]
    by_cases hds : ds.map String.toList = []
    · rw [hds, List.intercalate_singleton]
      exact ⟨cs, rfl⟩
    · rw [List.intercalate_cons_of_ne_nil hds, List.append_assoc, List.cons_append]
      exact ⟨_, rfl⟩
  obtain ⟨rest, hrest⟩ := hjoin
  obtain ⟨rest', htrim⟩ := trimSpace_cons hrest hspace
  rw [ne_empty_iff, htrim]
  exact List.cons_ne_nil _ _

def Plan.names (p : Plan) : SetName → List String
  | .main => p.validated
  | .exceptions => p.exceptions

/-- The update was prepared with the plan. -/
def Planned (env : ServiceEnv) (src : BlocklistMetadata) (l : List BlocklistAct) (p : Plan) :
    Prop :=
  ∃ l₀, l₀ <+: l ∧ Ends (prepare env src).run l₀ (.ok p)

/-- A content document has been stored. -/
def Saved (l : List BlocklistAct) : Prop :=
  ∃ ctx c, (⟨.upsertContent ctx c, .ok ()⟩ : BlocklistAct) ∈ l

/-- The update has drawn the uuid. -/
def Drew (l : List BlocklistAct) (u : String) : Prop := (⟨.newUuid, .ok u⟩ : BlocklistAct) ∈ l

/-- The command replaces the set at the key, or removes it. -/
def RedisCmd.Publishes (key : String) : RedisCmd → Prop
  | .swap _ live => live = key
  | .unlink keys => key ∈ keys
  | _ => False

/-- The set has been published. -/
def PublishedBy (l : List BlocklistAct) (ctx : Context) (key : String) : Prop :=
  ∃ cmd : RedisCmd, cmd.Publishes key ∧ sent ctx cmd ∈ l

/-- All that was done since the uuid was drawn is to fill the staging set. -/
def Filled (l : List BlocklistAct) (ctx : Context) (live u : String) (names : List String) : Prop :=
  ∃ l₁ r, l = l₁ ++ ⟨.newUuid, .ok u⟩ :: ((populateCmds (stagingKey live u) names).map (sent ctx) ++
    [⟨.redis ctx (.unlink (legacyKeys live)), r⟩])

/-- What an update knows when it sends a command. -/
def CmdAllowed (id : String) (p : Plan) (l : List BlocklistAct) : RedisCmd → Prop
  | .sadd key _ => ∃ n u, key = stagingKey (SetName.key id n) u ∧ Drew l u
  | .expire key ttl => ttl = stagingTTL ∧ ∃ n u, key = stagingKey (SetName.key id n) u ∧ Drew l u
  | .unlink keys => (keys = [exceptionsKey id] ∧ p.exceptions = []) ∨
      ∀ key ∈ keys, (∃ n, key ∈ legacyKeys (SetName.key id n)) ∨
        ∃ n u, key = stagingKey (SetName.key id n) u ∧ Drew l u
  | .swap staging live =>
    ∃ n u, live = SetName.key id n ∧ staging = stagingKey live u ∧ p.names n ≠ [] ∧
      Filled l p.ctx live u (p.names n) ∧ (n = .main → PublishedBy l p.ctx (exceptionsKey id))

/-- What an update knows when it takes an action. -/
def Allowed (env : ServiceEnv) (src : BlocklistMetadata) (l : List BlocklistAct) :
    BlocklistOp → Prop
  | .upsertContent ctx c => ∃ p, Planned env src l p ∧ ctx = p.ctx ∧ c.blocklistID = src.blocklistID
  | .redis ctx cmd =>
    ∃ p, Planned env src l p ∧ ctx = p.ctx ∧ Saved l ∧ CmdAllowed src.blocklistID p l cmd
  | .delete _ _ => Saved l
  | .upsertMetadata _ _ => Saved l
  | .sismember _ _ => False
  | _ => True

section Follows

variable {env : ServiceEnv} {src : BlocklistMetadata} {l l' : List BlocklistAct} {p : Plan}
  {ctx : Context}

theorem Planned.mono (h : Planned env src l p) (hl : l <+: l') : Planned env src l' p := by
  obtain ⟨l₀, hpre, hends⟩ := h
  exact ⟨l₀, hpre.trans hl, hends⟩

theorem Planned.unique {p' : Plan} (h : Planned env src l p) (h' : Planned env src l p') :
    p = p' := by
  obtain ⟨l₀, hpre, hends⟩ := h
  obtain ⟨l₁, hpre', hends'⟩ := h'
  have heq := (ends_unique hends hends' hpre hpre').2
  exact Except.ok.inj heq

theorem Saved.mono (h : Saved l) (hl : l <+: l') : Saved l' := by
  obtain ⟨ctx, c, hc⟩ := h
  exact ⟨ctx, c, hl.subset hc⟩

theorem PublishedBy.mono {key : String} (h : PublishedBy l ctx key) (hl : l <+: l') :
    PublishedBy l' ctx key := by
  obtain ⟨cmd, hcmd, hin⟩ := h
  exact ⟨cmd, hcmd, hl.subset hin⟩

theorem Planned.prepared (h : Planned env src l p) : ∃ l₀, l₀ <+: l ∧ Prepared env src l₀ p := by
  obtain ⟨l₀, hpre, hends⟩ := h
  exact ⟨l₀, hpre, ends_prepare hends⟩

theorem valid_of_planned (h : Planned env src l p) (n : SetName) :
    ∀ d ∈ p.names n, validDomain d = true := by
  obtain ⟨l₀, -, hprepared⟩ := h.prepared
  obtain ⟨body, -, hconverts⟩ := hprepared.fetched
  cases n with
  | main => exact (valid_of_converts hconverts).1
  | exceptions => exact (valid_of_converts hconverts).2

/-- A command whose failure is passed over. -/
theorem follows_attempt_redis {α : Type} {A : List BlocklistAct → BlocklistOp → Prop}
    {Q : List BlocklistAct → Except BlocklistErr α → Prop} {cmd : RedisCmd}
    {f : Except BlocklistErr Unit → BlocklistFlow α}
    (hA : A l (.redis ctx cmd)) (hf : ∀ r, Follows A Q (f r) (l ++ [⟨.redis ctx cmd, r⟩])) :
    Follows A Q (attempt (call (.redis ctx cmd)) >>= f) l := follows_attempt_act_bind hA hf

theorem follows_call {A : List BlocklistAct → BlocklistOp → Prop} {o : BlocklistOp}
    {Q : List BlocklistAct → Except BlocklistErr o.Ans → Prop} (hA : A l o)
    (hQ : ∀ r, Q (l ++ [⟨o, r⟩]) r) :
    Follows A Q (call o) l := follows_act hA hQ

theorem follows_orDiscard {A : List BlocklistAct → BlocklistOp → Prop}
    {Q : List BlocklistAct → Except BlocklistErr Unit → Prop} {stagingName : String}
    {step : BlocklistFlow Unit} (hstep : Follows A Q step l)
    (hdiscard : ∀ l', l <+: l' → A l' (.redis ctx (.unlink [stagingName])))
    (hQ : ∀ l' e, Q l' (.error e)) :
    Follows A Q (orDiscard ctx stagingName step) l := by
  unfold orDiscard
  refine follows_attempt_bind hstep fun l' r hl hr => ?_
  cases r with
  | ok a => exact follows_pure hr
  | error e =>
    have hdone : Follows A (fun _ _ => True) (discardStaging ctx stagingName) l' :=
      follows_attempt_redis (hdiscard l' hl) fun r => follows_pure trivial
    exact follows_bind hdone (fun _ _ _ _ => hQ _ _) fun _ _ _ _ => follows_throw (hQ _ _)

/-- The history of an update that has drawn a uuid for the set `n`. -/
structure Drawn (env : ServiceEnv) (src : BlocklistMetadata) (p : Plan) (n : SetName) (u : String)
    (l : List BlocklistAct) :
    Prop where
  planned : Planned env src l p
  saved : Saved l
  drew : Drew l u
  ready : n = .main → PublishedBy l p.ctx (exceptionsKey src.blocklistID)

variable {n : SetName} {u : String}

theorem Drawn.mono (h : Drawn env src p n u l) (hl : l <+: l') : Drawn env src p n u l' :=
  ⟨h.planned.mono hl, h.saved.mono hl, hl.subset h.drew, fun hn => (h.ready hn).mono hl⟩

theorem Drawn.allowed (h : Drawn env src p n u l) {cmd : RedisCmd}
    (hcmd : CmdAllowed src.blocklistID p l cmd) :
    Allowed env src l (.redis p.ctx cmd) := ⟨p, h.planned, rfl, h.saved, hcmd⟩

theorem Drawn.discards (h : Drawn env src p n u l) :
    Allowed env src l (.redis p.ctx (.unlink [stagingKey (n.key src.blocklistID) u])) :=
  h.allowed (.inr fun _ hkey => .inr ⟨n, u, List.mem_singleton.1 hkey, h.drew⟩)

theorem follows_populate (h : Drawn env src p n u l) (hne : p.names n ≠ []) :
    Follows (Allowed env src) (fun l' r => r = .ok () →
      l' = l ++ (populateCmds (stagingKey (n.key src.blocklistID) u) (p.names n)).map (sent p.ctx))
      (populateStaging p.ctx (stagingKey (n.key src.blocklistID) u) (join (p.names n) '\n')) l := by
  have honly : Within (C := blocklistCalls)
    (fun o => ∃ cmd, o = BlocklistOp.redis p.ctx cmd ∧
      Populates (stagingKey (n.key src.blocklistID) u) cmd)
      (populateStaging p.ctx (stagingKey (n.key src.blocklistID) u) (join (p.names n) '\n')) :=
    within_populate fun cmd hcmd => ⟨cmd, rfl, hcmd⟩
  apply follows_of_only honly
  · rintro l' o hl ⟨cmd, rfl, hcmd⟩
    have hl' := h.mono hl
    rcases hcmd with ⟨members, rfl⟩ | rfl
    · exact hl'.allowed ⟨n, u, rfl, hl'.drew⟩
    · exact hl'.allowed ⟨rfl, n, u, rfl, hl'.drew⟩
  · rintro l' r hends rfl
    have hvalid := valid_of_planned h.planned n
    rw [populate_sends (fun d hd => newline_of_valid (hvalid d hd)) hne hends]

theorem follows_swap {l₁ : List BlocklistAct} (h : Drawn env src p n u l) (hne : p.names n ≠ [])
    (hl : l = l₁ ++ [⟨.newUuid, .ok u⟩] ++
      (populateCmds (stagingKey (n.key src.blocklistID) u) (p.names n)).map (sent p.ctx)) :
    Follows (Allowed env src) (fun l' r => r = .ok () →
      PublishedBy l' p.ctx (n.key src.blocklistID))
      (swapBlocklist p.ctx (stagingKey (n.key src.blocklistID) u) (n.key src.blocklistID)) l := by
  unfold swapBlocklist
  refine follows_attempt_redis (h.allowed (.inr fun key hkey => .inl ⟨n, hkey⟩)) fun r => ?_
  have hnext :=
    h.mono (List.prefix_append l [⟨.redis p.ctx (.unlink (legacyKeys (n.key src.blocklistID))), r⟩])
  have hfilled : Filled
    (l ++ [⟨.redis p.ctx (.unlink (legacyKeys (n.key src.blocklistID))), r⟩]) p.ctx
      (n.key src.blocklistID) u (p.names n) := by
    refine ⟨l₁, r, ?_⟩
    rw [hl]
    simp only [List.append_assoc, List.cons_append, List.nil_append]
  have hswap : CmdAllowed src.blocklistID p
    (l ++ [⟨.redis p.ctx (.unlink (legacyKeys (n.key src.blocklistID))), r⟩])
      (.swap (stagingKey (n.key src.blocklistID) u) (n.key src.blocklistID)) :=
    ⟨n, u, rfl, rfl, hne, hfilled, hnext.ready⟩
  refine follows_call (hnext.allowed hswap) ?_
  rintro r' rfl
  exact ⟨.swap _ _, rfl, List.mem_append_right _ (List.mem_singleton.2 rfl)⟩

/-- **A set that is published has been filled first.** -/
theorem follows_createOrUpdateSet (hplan : Planned env src l p) (hsaved : Saved l)
    (hne : p.names n ≠ []) (hmain : n = .main → PublishedBy l p.ctx
      (exceptionsKey src.blocklistID)) :
    Follows (Allowed env src) (fun l' r => r = .ok () →
      PublishedBy l' p.ctx (n.key src.blocklistID))
      (createOrUpdateSet p.ctx (n.key src.blocklistID) (join (p.names n) '\n')) l := by
  unfold createOrUpdateSet
  refine follows_act_bind trivial (fun e h => nomatch h) fun u => ?_
  have hpre : l <+: l ++ [⟨.newUuid, .ok u⟩] := List.prefix_append _ _
  have hdrawn : Drawn env src p n u (l ++ [⟨.newUuid, .ok u⟩]) :=
    ⟨hplan.mono hpre, hsaved.mono hpre, List.mem_append_right _ (List.mem_singleton.2 rfl),
      fun hn => (hmain hn).mono hpre⟩
  have hpopulate :=
    follows_orDiscard (follows_populate hdrawn hne) (fun l' hl => (hdrawn.mono hl).discards)
    fun _ _ h => nomatch h
  refine follows_bind hpopulate (fun _ _ _ _ h => nomatch h) fun l' a hl hfilled => ?_
  have hdrawn' := hdrawn.mono hl
  exact follows_orDiscard (follows_swap hdrawn' hne (hfilled rfl))
    (fun l'' hl' => (hdrawn'.mono hl').discards)
    fun _ _ h => nomatch h

theorem follows_persist (hplan : Planned env src l p) :
    Follows (Allowed env src) (fun l' r => r = .ok () → Saved l') (persist p) l := by
  obtain ⟨l₀, -, hprepared⟩ := hplan.prepared
  have honly : Within (C := blocklistCalls)
      (fun o => o = .newObjectID ∨ ∃ c : BlocklistContent, c.blocklistID = src.blocklistID ∧
        o = .upsertContent p.ctx c)
      (persist p) :=
    within_persist (.inl rfl) fun c hc => .inr ⟨c, hc.trans hprepared.blocklistID, rfl⟩
  apply follows_of_only honly
  · rintro l' o hl (rfl | ⟨c, hc, rfl⟩)
    · exact trivial
    · exact ⟨p, hplan.mono hl, rfl, hc⟩
  · rintro l' r hpersist rfl
    obtain ⟨docs, rest, rfl, -, ⟨-, -, hparts⟩ | ⟨hr, -⟩⟩ := ends_persist hpersist
    · have hparts' : docs ≠ [] := by
        rintro rfl
        obtain ⟨c, cs, hchunks⟩ := List.exists_cons_of_ne_nil
          (chunks_ne_nil (by decide : 0 < maxDomainsPerDoc) hprepared.nonempty)
        unfold Plan.parts at hparts
        rw [hchunks] at hparts
        cases hparts
      obtain ⟨c, docs, rfl⟩ := List.exists_cons_of_ne_nil hparts'
      exact ⟨p.ctx, c, by simp [saves]⟩
    · exact absurd rfl hr

/-- **The exceptions are published, or removed.** -/
theorem follows_createOrUpdateBlocklistExceptions (hplan : Planned env src l p) (hsaved : Saved l) :
    Follows (Allowed env src) (fun l' r => r = .ok () →
      PublishedBy l' p.ctx (exceptionsKey src.blocklistID))
      (createOrUpdateBlocklistExceptions p.ctx src.blocklistID (join p.exceptions '\n')) l := by
  by_cases hnone : p.exceptions = []
  · have hblank : trimSpace (join p.exceptions '\n') = "" := by
      rw [hnone]
      decide
    have hunlink : createOrUpdateBlocklistExceptions p.ctx src.blocklistID
      (join p.exceptions '\n') =
        call (.redis p.ctx (.unlink [exceptionsKey src.blocklistID])) := if_pos hblank
    rw [hunlink]
    have hallowed : Allowed env src l (.redis p.ctx (.unlink [exceptionsKey src.blocklistID])) :=
      ⟨p, hplan, rfl, hsaved, .inl ⟨rfl, hnone⟩⟩
    refine follows_call hallowed ?_
    rintro r rfl
    exact ⟨.unlink [exceptionsKey src.blocklistID], List.mem_singleton.2 rfl,
      List.mem_append_right _ (List.mem_singleton.2 rfl)⟩
  · have hfull : trimSpace (join p.exceptions '\n') ≠ "" :=
      trimSpace_join (valid_of_planned hplan .exceptions) hnone
    have hset : createOrUpdateBlocklistExceptions p.ctx src.blocklistID (join p.exceptions '\n') =
        createOrUpdateSet p.ctx (exceptionsKey src.blocklistID) (join p.exceptions '\n') :=
          if_neg hfull
    rw [hset]
    exact follows_createOrUpdateSet (n := .exceptions) hplan hsaved hnone nofun

theorem follows_publish (hplan : Planned env src l p) (hsaved : Saved l) :
    Follows (Allowed env src) (fun l' r => r = .ok () →
      ∀ n : SetName, PublishedBy l' p.ctx (n.key src.blocklistID))
      (publish p) l := by
  obtain ⟨l₀, -, hprepared⟩ := hplan.prepared
  unfold publish
  rw [hprepared.blocklistID]
  refine follows_bind (follows_createOrUpdateBlocklistExceptions hplan hsaved)
    (fun _ _ _ _ h => nomatch h)
    fun l' a hl hexceptions => ?_
  refine follows_mono (follows_createOrUpdateSet (n := .main) (hplan.mono hl)
    (hsaved.mono hl) hprepared.nonempty
    fun _ => hexceptions rfl) fun l'' r hl' hmain hr n => ?_
  cases n with
  | main => exact hmain hr
  | exceptions => exact (hexceptions rfl).mono hl'

theorem within_finish {A : BlocklistOp → Prop} (hnow : A .now) (hdelete : ∀ n, A (.delete p.ctx n))
    (hupsert : ∀ m, A (.upsertMetadata p.ctx m)) : Within (C := blocklistCalls) A (finish p) := by
  have hdeletes : ∀ ids, Within (C := blocklistCalls) A (deleteContents p.ctx ids) := by
    intro ids
    induction ids with
    | nil => exact within_pure
    | cons n ids ih =>
      unfold deleteContents
      exact within_bind (within_act (hdelete n)) fun _ => ih
  unfold finish removeOldContents
  refine within_bind (within_act hnow) fun updatedAt =>
    within_bind (within_ite (hdeletes _) within_pure) fun _ => ?_
  exact within_bind (within_act (hupsert _)) fun _ => within_pure

/-- **An update takes no action that is not allowed**, and if it succeeds, both sets have been
published. -/
theorem follows_processBlocklist : Follows (Allowed env src)
    (fun l r => ∀ m, r = .ok m → ∃ p, Planned env src l p ∧
      ∀ n : SetName, PublishedBy l p.ctx (n.key src.blocklistID))
    (processBlocklist env src) [] := by
  have hprepare : Follows (Allowed env src) (fun l r => ∀ p, r = .ok p → Planned env src l p)
      (prepare env src) [] := by
    have hreads : Within (C := blocklistCalls) BlocklistOp.Reads (prepare env src) := within_prepare
    apply follows_of_only hreads
    · intro l o _ ho
      cases o <;> first | exact trivial | exact ho.elim
    · rintro l r hends p rfl
      exact ⟨l, List.prefix_refl l, hends⟩
  unfold processBlocklist
  refine follows_bind hprepare (fun _ _ _ _ _ h => nomatch h) fun l p _ hplan => ?_
  have hplan := hplan p rfl
  refine follows_bind (follows_persist hplan) (fun _ _ _ _ _ h => nomatch h) fun l₁ a hl₁ hsaved =>
    ?_
  refine follows_bind (follows_publish (hplan.mono hl₁) (hsaved rfl)) (fun _ _ _ _ _ h => nomatch h)
    fun l₂ a hl₂ hpublished => ?_
  have hsaved := (hsaved rfl).mono hl₂
  have hfinish : Within (C := blocklistCalls)
    (fun o => o = .now ∨ (∃ n, o = .delete p.ctx n) ∨ ∃ m, o = .upsertMetadata p.ctx m)
      (finish p) := within_finish (.inl rfl) (fun n => .inr (.inl ⟨n, rfl⟩)) fun m =>
        .inr (.inr ⟨m, rfl⟩)
  apply follows_of_only hfinish
  · rintro l₃ o hl₃ (rfl | ⟨n, rfl⟩ | ⟨m, rfl⟩)
    · exact trivial
    · exact hsaved.mono hl₃
    · exact hsaved.mono hl₃
  · rintro l₃ r - m rfl
    have hl := List.prefix_append l₂ l₃
    exact ⟨p, (hplan.mono hl₁).mono (hl₂.trans hl), fun n => (hpublished rfl n).mono hl⟩

end Follows

end ModDNS.Blocklists
