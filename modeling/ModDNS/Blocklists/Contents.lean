import ModDNS.Blocklists.Publish

/-!
# The content documents of an update

An update adds its documents under new ids, and removes the old ones by the ids that it has read at
its beginning.

* `ends_persist`: the documents that an update has written when it goes on, or fails.
* `Grown`: what it leaves in the collection until the clean-up.
* `trail_deletes`: what the clean-up leaves.
-/

namespace ModDNS.Blocklists

open Go Conc Data

/-- What a content document holds: its part, its kind and its data. -/
def BlocklistContent.held (c : BlocklistContent) : ℕ × String × String := (c.part, c.kind, c.data)

/-- The parts for the chunks. -/
def chunkParts : ℕ → List (List String) → List (ℕ × String × String)
  | _, [] => []
  | chunkIndex, domains :: chunks =>
    (chunkIndex, "", join domains '\n') :: chunkParts (chunkIndex + 1) chunks

/-- The part for the exceptions. -/
def exceptionParts (exceptions : List String) : List (ℕ × String × String) :=
  if exceptions = [] then [] else [(1, contentKindExceptions, join exceptions '\n')]

/-- The parts that an update writes. -/
def Plan.parts (p : Plan) : List (ℕ × String × String) :=
  chunkParts 1 (chunks maxDomainsPerDoc p.validated) ++ exceptionParts p.exceptions

/-- The actions that store some documents. -/
def saves (ctx : Context) (docs : List BlocklistContent) : List BlocklistAct :=
  docs.flatMap fun c => [⟨.newObjectID, .ok c.id⟩, ⟨.upsertContent ctx c, .ok ()⟩]

/-- A document was asked for, or stored, in vain. -/
def Broken (ctx : Context) (id : String) (l : List BlocklistAct) : Prop :=
  (∀ x ∈ l, x.1 = .newObjectID) ∨
    ∃ c e, c.blocklistID = id ∧ l = [⟨.newObjectID, .ok c.id⟩, ⟨.upsertContent ctx c, .error e⟩]

/-- How the writing of some parts of a list has ended. -/
def Wrote (ctx : Context) (id : String) (parts : List (ℕ × String × String)) (l : List BlocklistAct)
    (r : Except BlocklistErr Unit) : Prop :=
  ∃ docs rest, l = saves ctx docs ++ rest ∧ (∀ c ∈ docs, c.blocklistID = id) ∧
    ((r = .ok () ∧ rest = [] ∧ docs.map BlocklistContent.held = parts) ∨
      (r ≠ .ok () ∧ Broken ctx id rest))

section Writes

variable {ctx : Context} {id : String} {parts parts' : List (ℕ × String × String)}
  {l l' : List BlocklistAct} {r : Except BlocklistErr Unit}

theorem saves_append {docs docs' : List BlocklistContent} :
    saves ctx (docs ++ docs') = saves ctx docs ++ saves ctx docs' :=
  List.flatMap_append

theorem Wrote.nil : Wrote ctx id [] [] (.ok ()) :=
  ⟨[], [], rfl, List.forall_mem_nil _, .inl ⟨rfl, rfl, rfl⟩⟩

/-- Where the first parts are not written, the others are not either. -/
theorem Wrote.error {e : BlocklistErr} (h : Wrote ctx id parts l (.error e)) :
    Wrote ctx id parts' l (.error e) := by
  obtain ⟨docs, rest, hl, hid, ⟨hr, -⟩ | hbroken⟩ := h
  · cases hr
  · exact ⟨docs, rest, hl, hid, .inr hbroken⟩

theorem Wrote.append (h : Wrote ctx id parts l (.ok ())) (h' : Wrote ctx id parts' l' r) :
    Wrote ctx id (parts ++ parts') (l ++ l') r := by
  obtain ⟨docs, rest, rfl, hid, ⟨-, rfl, hparts⟩ | ⟨hr, -⟩⟩ := h
  · obtain ⟨docs', rest', rfl, hid', hend⟩ := h'
    refine ⟨docs ++ docs', rest', ?_, List.forall_mem_append.2 ⟨hid, hid'⟩, ?_⟩
    · rw [saves_append, List.append_nil, List.append_assoc]
    · obtain ⟨hr, hrest, hparts'⟩ | hbroken := hend
      · exact .inl ⟨hr, hrest, by rw [List.map_append, hparts, hparts']⟩
      · exact .inr hbroken
  · exact absurd rfl hr

theorem ends_newBlocklistContent {number : ℕ} {data : List String} {c : BlocklistContent}
    (h : Ends (newBlocklistContent id number data).run l (.ok c)) :
    ∃ n, c = ⟨n, id, number, "", join data '\n'⟩ ∧ l = [⟨.newObjectID, .ok n⟩] := by
  unfold newBlocklistContent at h
  obtain ⟨-, -, he⟩ | ⟨-, hdraw⟩ := ends_ensure_bind h
  · cases he
  obtain ⟨n, l', rfl, hend⟩ := ends_act_bind_ok hdraw
  obtain ⟨rfl, hc⟩ := ends_flow_pure hend
  exact ⟨n, Except.ok.inj hc, rfl⟩

/-- One document, whose kind may have been set. -/
theorem ends_save {number : ℕ} {data : List String} {kind : String}
    {f : BlocklistContent → BlocklistContent}
    (hf : ∀ n, (f ⟨n, id, number, "", join data '\n'⟩).id = n ∧
      (f ⟨n, id, number, "", join data '\n'⟩).blocklistID = id ∧
      (f ⟨n, id, number, "", join data '\n'⟩).held = (number, kind, join data '\n'))
    (h : Ends (newBlocklistContent id number data >>= fun c => call
      (.upsertContent ctx (f c))).run l r) :
    Wrote ctx id [(number, kind, join data '\n')] l r := by
  have hnone : ∀ e, Wrote ctx id [(number, kind, join data '\n')] [] (.error e) := fun e =>
    ⟨[], [], rfl, List.forall_mem_nil _, .inr ⟨nofun, .inl (List.forall_mem_nil _)⟩⟩
  obtain ⟨e, hnew, rfl⟩ | ⟨l₁, l₂, c, rfl, hnew, hput⟩ := ends_flow_bind h
  · unfold newBlocklistContent at hnew
    obtain ⟨-, rfl, -⟩ | ⟨-, hdraw⟩ := ends_ensure_bind hnew
    · exact hnone e
    · obtain ⟨e', rfl, -⟩ | ⟨n, l', rfl, hend⟩ := ends_act_bind hdraw
      · exact ⟨[], _, rfl, List.forall_mem_nil _, .inr
          ⟨nofun, .inl (List.forall_mem_singleton.2 rfl)⟩⟩
      · cases (ends_flow_pure hend).2
  · obtain ⟨n, rfl, rfl⟩ := ends_newBlocklistContent hnew
    obtain ⟨hid, hlist, hheld⟩ := hf n
    obtain rfl := ends_act hput
    cases r with
    | ok a =>
      refine ⟨[f ⟨n, id, number, "", join data '\n'⟩], [], ?_, List.forall_mem_singleton.2 hlist,
        .inl ⟨rfl, rfl, ?_⟩⟩
      · unfold saves
        rw [List.flatMap_singleton, hid]
        rfl
      · rw [List.map_singleton, hheld]
    | error e =>
      refine ⟨[], _, rfl, List.forall_mem_nil _, .inr ⟨nofun, .inr ⟨_, e, hlist, ?_⟩⟩⟩
      rw [hid]
      rfl

theorem ends_saveChunk {chunkIndex : ℕ} {domains : List String}
    (h : Ends (saveChunk ctx id chunkIndex domains).run l r) :
    Wrote ctx id [(chunkIndex, "", join domains '\n')] l r := by
  unfold saveChunk at h
  exact ends_save (f := fun c => c) (fun n => ⟨rfl, rfl, rfl⟩) h

theorem ends_saveChunks {chunkIndex : ℕ} {cs : List (List String)}
    (h : Ends (saveChunks ctx id chunkIndex cs).run l r) :
    Wrote ctx id (chunkParts chunkIndex cs) l r := by
  induction cs generalizing chunkIndex l with
  | nil =>
    obtain ⟨rfl, rfl⟩ := ends_flow_pure h
    exact .nil
  | cons domains cs ih =>
    unfold saveChunks at h
    obtain ⟨e, hsave, rfl⟩ | ⟨l₁, l₂, a, rfl, hsave, hrest⟩ := ends_flow_bind h
    · exact (ends_saveChunk hsave).error
    · exact (ends_saveChunk hsave).append (ih hrest)

theorem ends_saveExceptions {exceptions : List String}
    (h : Ends (saveExceptions ctx id exceptions).run l r) :
    Wrote ctx id (exceptionParts exceptions) l r := by
  unfold saveExceptions at h
  unfold exceptionParts
  cases exceptions with
  | nil =>
    obtain ⟨rfl, rfl⟩ := ends_flow_pure h
    exact .nil
  | cons d ds =>
    rw [if_pos (by simp)] at h
    rw [if_neg (List.cons_ne_nil d ds)]
    exact ends_save (fun n => ⟨rfl, rfl, rfl⟩) h

theorem within_save {A : BlocklistOp → Prop} {number : ℕ} {data : List String}
    {f : BlocklistContent → BlocklistContent} (hdraw : A .newObjectID)
    (hput : ∀ n, A (.upsertContent ctx (f ⟨n, id, number, "", join data '\n'⟩))) :
    Within (C := blocklistCalls) A (newBlocklistContent id number data >>= fun c => call
      (.upsertContent ctx (f c))) := by
  refine within_bind_ends ?_ fun l c hc => ?_
  · unfold newBlocklistContent
    exact within_bind within_ensure fun _ => within_bind (within_act hdraw) fun _ => within_pure
  · obtain ⟨n, rfl, -⟩ := ends_newBlocklistContent hc
    exact within_act (hput n)

/-- An update writes documents of its list, within the time that it has. -/
theorem within_persist {A : BlocklistOp → Prop} {p : Plan} (hdraw : A .newObjectID)
    (hput : ∀ c : BlocklistContent, c.blocklistID = p.metadata.blocklistID →
      A (.upsertContent p.ctx c)) :
    Within (C := blocklistCalls) A (persist p) := by
  have hchunks : ∀ (cs : List (List String)) (chunkIndex : ℕ),
      Within (C := blocklistCalls) A (saveChunks p.ctx p.metadata.blocklistID chunkIndex cs) := by
    intro cs
    induction cs with
    | nil => exact fun _ => within_pure
    | cons domains cs ih =>
      intro chunkIndex
      unfold saveChunks saveChunk
      exact within_bind (within_save (f := fun c => c) hdraw fun n => hput _ rfl) fun _ => ih _
  unfold persist saveExceptions
  refine within_bind (hchunks _ _) fun _ =>
    within_ite (within_save hdraw fun n => hput _ rfl) within_pure

/-- **The documents that an update has written when it goes on, or fails.** -/
theorem ends_persist {p : Plan} (h : Ends (persist p).run l r) :
    Wrote p.ctx p.metadata.blocklistID p.parts l r := by
  unfold persist at h
  obtain ⟨e, hchunks, rfl⟩ | ⟨l₁, l₂, a, rfl, hchunks, hexceptions⟩ := ends_flow_bind h
  · exact (ends_saveChunks hchunks).error
  · exact (ends_saveChunks hchunks).append (ends_saveExceptions hexceptions)

end Writes

/-- The action has stored a document. -/
def Stored (x : BlocklistAct) : Prop := (∃ ctx c, x.1 = .upsertContent ctx c) ∧ TookEffect x.2

/-- The action has removed a document. -/
def Removed (x : BlocklistAct) : Prop := (∃ ctx id, x.1 = .delete ctx id) ∧ TookEffect x.2

/-- The actions have added the documents `docs` of the list `id`. -/
def Added (id : String) (s s' : Stores) (l : List BlocklistAct) (docs : List BlocklistContent) :
    Prop :=
  s'.content = s.content ++ docs ∧ (∀ c ∈ docs, c.blocklistID = id ∧ c.id ∉ s.content.map (·.id)) ∧
    (docs = [] ↔ ∀ x ∈ l, ¬ Stored x)

section Trails

variable {ctx : Context} {id : String} {grace : ℕ} {s s' s'' : Stores} {x : BlocklistAct}
  {l l' : List BlocklistAct} {c : BlocklistContent} {docs docs' : List BlocklistContent}

theorem next_content (h : Next grace s x s') : s'.content = onContent s.content x := by
  obtain ⟨d, o, -, rfl⟩ := h
  exact act_content _ x

theorem onContent_same {content : List BlocklistContent} (hstored : ¬ Stored x)
    (hremoved : ¬ Removed x) :
    onContent content x = content := by
  unfold onContent
  split
  · next htook =>
    split
    · next ctx c hop => exact absurd ⟨⟨ctx, c, hop⟩, htook⟩ hstored
    · next ctx n hop => exact absurd ⟨⟨ctx, n, hop⟩, htook⟩ hremoved
    · rfl
  · rfl

/-- Only what is stored or removed shows. -/
theorem trail_same (h : Trail grace s l s') (hl : ∀ x ∈ l, ¬ Stored x ∧ ¬ Removed x) :
    s'.content = s.content := by
  induction l generalizing s with
  | nil => exact congrArg Stores.content h.symm
  | cons x l ih =>
    obtain ⟨s₁, hx, hrest⟩ := h
    obtain ⟨⟨hstored, hremoved⟩, hl⟩ := List.forall_mem_cons.1 hl
    rw [ih hrest hl, next_content hx, onContent_same hstored hremoved]

/-- A new id is no document's. -/
theorem next_newObjectID {n : ObjectID} (h : Next grace s ⟨.newObjectID, .ok n⟩ s') :
    n ∉ s.content.map (·.id) ∧ s'.content = s.content := by
  have hsame := next_content h
  obtain ⟨d, o, hanswer, -⟩ := h
  refine ⟨?_, hsame⟩
  cases o with
  | id m =>
    have hnew : (if m ∈ s.content.map (·.id) ∨ m ∈ s.metadata.map (·.id) then none
        else some (.ok m) : Option (Except BlocklistErr ObjectID)) = some (.ok n) := hanswer
    split at hnew
    · cases hnew
    · next hnot =>
      obtain rfl := Except.ok.inj (Option.some.inj hnew)
      exact fun hin => hnot (.inl hin)
  | _ => cases hanswer

theorem upsertContent_new {content : List BlocklistContent} (h : c.id ∉ content.map (·.id)) :
    upsertContent content c = content ++ [c] := by
  unfold upsertContent
  rw [if_neg h]

theorem Added.append (h : Added id s s' l docs) (h' : Added id s' s'' l' docs') :
    Added id s s'' (l ++ l') (docs ++ docs') := by
  obtain ⟨hcontent, hdocs, hnone⟩ := h
  obtain ⟨hcontent', hdocs', hnone'⟩ := h'
  refine ⟨by rw [hcontent', hcontent, List.append_assoc], ?_, ?_⟩
  · refine List.forall_mem_append.2 ⟨hdocs, fun c hc =>
      ⟨(hdocs' c hc).1, fun hin => (hdocs' c hc).2 ?_⟩⟩
    rw [hcontent, List.map_append]
    exact List.mem_append_left _ hin
  · rw [List.append_eq_nil_iff, hnone, hnone', List.forall_mem_append]

theorem added_none (h : Trail grace s l s') (hl : ∀ x ∈ l, ¬ Stored x ∧ ¬ Removed x) :
    Added id s s' l [] := by
  refine ⟨?_, List.forall_mem_nil _, fun _ x hx => (hl x hx).1, fun _ => rfl⟩
  rw [trail_same h hl, List.append_nil]

/-- A document that is stored under a new id. -/
theorem added_one {r : Except BlocklistErr Unit} (hid : c.blocklistID = id)
    (h : Trail grace s [⟨.newObjectID, .ok c.id⟩, ⟨.upsertContent ctx c, r⟩] s') :
    Added id s s' [⟨.newObjectID, .ok c.id⟩, ⟨.upsertContent ctx c, r⟩]
    (if TookEffect r then [c] else []) := by
  obtain ⟨s₁, hdraw, s₂, hput, rfl⟩ := h
  obtain ⟨hnew, hsame⟩ := next_newObjectID hdraw
  have hdrawn : ¬ Stored ⟨.newObjectID, .ok c.id⟩ := fun ⟨⟨_, _, hop⟩, _⟩ => nomatch hop
  have hcontent : s₂.content = if TookEffect r then upsertContent s₁.content c else s₁.content :=
    next_content hput
  split
  · next htook =>
    rw [if_pos htook] at hcontent
    refine ⟨?_, List.forall_mem_singleton.2 ⟨hid, hnew⟩,
      fun hnil => absurd hnil (List.cons_ne_nil _ _), fun hnone => ?_⟩
    · rw [hcontent, hsame, upsertContent_new hnew]
    · exact absurd ⟨⟨ctx, c, rfl⟩, htook⟩
        (hnone _ (List.mem_cons_of_mem _ (List.mem_singleton.2 rfl)))
  · next htook =>
    rw [if_neg htook] at hcontent
    refine ⟨by rw [hcontent, hsame,
      List.append_nil], List.forall_mem_nil _, fun _ => ?_, fun _ => rfl⟩
    exact List.forall_mem_cons.2 ⟨hdrawn, List.forall_mem_singleton.2 fun hstored =>
      htook hstored.2⟩

theorem added_saves (hdocs : ∀ c ∈ docs, c.blocklistID = id)
    (h : Trail grace s (saves ctx docs) s') :
    Added id s s' (saves ctx docs) docs := by
  induction docs generalizing s with
  | nil => exact added_none h (List.forall_mem_nil _)
  | cons c docs ih =>
    obtain ⟨hc, hdocs⟩ := List.forall_mem_cons.1 hdocs
    obtain ⟨s₁, hone, hrest⟩ := trail_append.1 h
    exact (added_one hc hone).append (ih hdocs hrest)

/-- **What an update leaves in the collection while it writes**: documents of the list, under new
ids. -/
theorem added_wrote {parts : List (ℕ × String × String)} {r : Except BlocklistErr Unit}
    (hwrote : Wrote ctx id parts l r) (h : Trail grace s l s') :
    ∃ docs, Added id s s' l docs ∧ (r = .ok () → docs.map BlocklistContent.held = parts) := by
  obtain ⟨docs, rest, rfl, hdocs, hend⟩ := hwrote
  obtain ⟨s₁, hsaves, hrest⟩ := trail_append.1 h
  have hadded := added_saves hdocs hsaves
  obtain ⟨-, rfl, hparts⟩ | ⟨hr, hbroken⟩ := hend
  · obtain rfl : s₁ = s' := hrest
    rw [List.append_nil]
    exact ⟨docs, hadded, fun _ => hparts⟩
  · obtain hdraws | ⟨c, e, hc, rfl⟩ := hbroken
    · have hnone : ∀ x ∈ rest, ¬ Stored x ∧ ¬ Removed x := fun x hx =>
        ⟨fun ⟨⟨_, _, hop⟩, _⟩ => (nomatch (hdraws x hx).symm.trans hop),
          fun ⟨⟨_, _, hop⟩, _⟩ => (nomatch (hdraws x hx).symm.trans hop)⟩
      exact ⟨_, hadded.append (added_none hrest hnone), fun h => absurd h hr⟩
    · exact ⟨_, hadded.append (added_one hc hrest), fun h => absurd h hr⟩

/-! The clean-up. -/

/-- How the clean-up has ended: so many ids are gone. -/
theorem ends_deleteContents {ids : List ObjectID} {r : Except BlocklistErr Unit}
    (h : Ends (deleteContents ctx ids).run l r) :
    (∀ x ∈ l, ∃ n ∈ ids, x.1 = .delete ctx n) ∧
      (r = .ok () → l = ids.map fun n => ⟨.delete ctx n, .ok ()⟩) := by
  induction ids generalizing l with
  | nil =>
    obtain ⟨rfl, -⟩ := ends_flow_pure h
    exact ⟨List.forall_mem_nil _, fun _ => rfl⟩
  | cons n ids ih =>
    unfold deleteContents at h
    obtain ⟨e, rfl, rfl⟩ | ⟨a, l', rfl, hrest⟩ := ends_act_bind h
    · exact ⟨List.forall_mem_singleton.2 ⟨n, List.mem_cons_self, rfl⟩, nofun⟩
    · obtain ⟨hops, hdone⟩ := ih hrest
      refine ⟨List.forall_mem_cons.2 ⟨⟨n, List.mem_cons_self, rfl⟩, fun x hx => ?_⟩, fun hr => ?_⟩
      · obtain ⟨m, hm, hop⟩ := hops x hx
        exact ⟨m, List.mem_cons_of_mem _ hm, hop⟩
      · rw [hdone hr]
        rfl

/-- **What the clean-up leaves**: the documents with other ids, at least. -/
theorem trail_deletes {ids : List ObjectID} {old : List BlocklistContent}
    (hops : ∀ x ∈ l, ∃ n ∈ ids, x.1 = .delete ctx n) (h : Trail grace s l s')
    (hcontent : s.content = old ++ docs) (hdocs : ∀ c ∈ docs, c.id ∉ ids) :
    ∃ kept, kept.Sublist old ∧ s'.content = kept ++ docs ∧
    ((∀ x ∈ l, ¬ Removed x) → kept = old) := by
  induction l generalizing s old with
  | nil =>
    obtain rfl : s = s' := h
    exact ⟨old, List.Sublist.refl old, hcontent, fun _ => rfl⟩
  | cons x l ih =>
    obtain ⟨s₁, hx, hrest⟩ := h
    obtain ⟨⟨n, hn, hop⟩, hops⟩ := List.forall_mem_cons.1 hops
    have hstored : ¬ Stored x := fun ⟨⟨_, _, hop'⟩, _⟩ => nomatch hop.symm.trans hop'
    have hnext := next_content hx
    by_cases hremoved : Removed x
    · have hgone : s₁.content = old.filter (·.id ≠ n) ++ docs := by
        have hall : docs.filter (·.id ≠ n) = docs :=
          List.filter_eq_self.2 fun c hc => decide_eq_true fun hid => hdocs c hc (hid ▸ hn)
        rw [hnext, hcontent]
        unfold onContent
        rw [if_pos hremoved.2]
        simp only [hop]
        rw [List.filter_append, hall]
      obtain ⟨kept, hsub, hend, -⟩ := ih hops hrest hgone
      exact ⟨kept, hsub.trans (List.filter_sublist), hend,
        fun hnone => absurd hremoved (hnone x List.mem_cons_self)⟩
    · rw [onContent_same hstored hremoved, hcontent] at hnext
      obtain ⟨kept, hsub, hend, hsame⟩ := ih hops hrest hnext
      exact ⟨kept, hsub, hend, fun hnone => hsame fun y hy => hnone y (List.mem_cons_of_mem _ hy)⟩

/-- After a whole clean-up the documents with the ids are gone. -/
theorem trail_deleted {ids : List ObjectID}
    (h : Trail grace s (ids.map fun n => ⟨.delete ctx n, .ok ()⟩) s') :
    s'.content = s.content.filter (·.id ∉ ids) := by
  induction ids generalizing s with
  | nil =>
    obtain rfl : s = s' := h
    simp
  | cons n ids ih =>
    obtain ⟨s₁, hx, hrest⟩ := h
    have hnext : s₁.content = s.content.filter (·.id ≠ n) := next_content hx
    rw [ih hrest, hnext, List.filter_filter]
    refine List.filter_congr fun c _ => ?_
    simp [List.mem_cons, Bool.and_comm]

end Trails

end ModDNS.Blocklists
