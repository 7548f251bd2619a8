import ModDNS.Subscriptions.Migration

/-!
# Runs of the migration of the ids of subscriptions

Any number of runs, one after the other or at once, each of which may stop after any of its calls.

* `Kept`: what they leave of a collection.
* `run_safe`: no document is lost.
* `run_alone`: a run without failures rewrites every old id.
* `crash_safe`: both of them, and that there is nothing left to do for a run after them.
-/

namespace ModDNS.Subscriptions.Migration

open Conc

section Kept

variable {V : Type}

/-- Documents with an id each, no two of them with the same one. -/
structure Collection (V : Type) where
  docs : List (Document V)
  keyed : ∀ d ∈ docs, idOf d ≠ none
  unique : (docs.map idOf).Nodup

/-- What a run leaves of a collection. -/
structure Kept (docs coll : List (Document V)) : Prop where
  keyed : ∀ d ∈ coll, idOf d ≠ none
  unique : (coll.map idOf).Nodup
  /-- A document is an old one, or a rewritten one where there was none with the new id. -/
  origin : ∀ d ∈ coll, d ∈ docs ∨
    ∃ data, ∃ old ∈ docs, HasLegacy data old ∧ d = rewritten data old ∧
      ∀ d' ∈ docs, ¬ HasNew data d'
  other : ∀ d ∈ docs, ¬ Legacy d → d ∈ coll
  legacy : ∀ d ∈ docs, ∀ data, HasLegacy data d → d ∈ coll ∨ ∃ d' ∈ coll, HasNew data d'

variable {docs coll : List (Document V)} {d d' raw : Document V} {id : Value V} {data : List UInt8}

theorem not_legacy_of_new (h : HasNew data d) : ¬ Legacy d := by
  refine not_legacy fun subtype data' hid hsub => ?_
  unfold HasNew at h
  rw [h] at hid
  cases hid
  exact absurd hsub (by decide)

theorem Collection.kept (c : Collection V) : Kept c.docs c.docs where
  keyed := c.keyed
  unique := c.unique
  origin := fun _ hd => .inl hd
  other := fun _ hd _ => hd
  legacy := fun _ hd _ _ => .inl hd

/-- A document with an old id has not been rewritten. -/
theorem Kept.old (h : Kept docs coll) (hd : d ∈ coll) (hlegacy : Legacy d) : d ∈ docs := by
  rcases h.origin d hd with hmem | ⟨data, old, -, hold, rfl, -⟩
  · exact hmem
  · exact absurd hlegacy (not_legacy_of_new hold.rewritten)

/-- **An insertion** of a document that is rewritten, where there is none with the new id. -/
theorem Kept.insert (h : Kept docs coll) (hraw : raw ∈ docs) (hlegacy : HasLegacy data raw)
    (hnew : ∀ d' ∈ coll, idOf d' ≠ idOf (rewritten data raw)) :
    Kept docs (coll ++ [rewritten data raw]) := by
  have hid : idOf (rewritten data raw) = some (.binary 0x04 data) := hlegacy.rewritten
  refine ⟨?_, ?_, ?_, fun d hd hother => List.mem_append_left _ (h.other d hd hother),
    fun d hd data' hold => ?_⟩
  · intro d hd
    rcases List.mem_append.1 hd with hd | hd
    · exact h.keyed d hd
    · rw [List.mem_singleton.1 hd, hid]
      exact Option.some_ne_none _
  · rw [List.map_append, List.map_singleton, List.nodup_append]
    refine ⟨h.unique, List.nodup_singleton _, ?_⟩
    intro x hx y hy heq
    obtain ⟨d', hd', rfl⟩ := List.mem_map.1 hx
    exact hnew d' hd' (heq.trans (List.mem_singleton.1 hy))
  · intro d hd
    rcases List.mem_append.1 hd with hd | hd
    · exact h.origin d hd
    · refine .inr ⟨data, raw, hraw, hlegacy, List.mem_singleton.1 hd, fun d' hd' hd'new => ?_⟩
      -- what had the new id at first has it still
      refine hnew d' (h.other d' hd' (not_legacy_of_new hd'new)) ?_
      rw [hid]
      exact hd'new
  · rcases h.legacy d hd data' hold with hmem | ⟨d', hd', hnew'⟩
    · exact .inl (List.mem_append_left _ hmem)
    · exact .inr ⟨d', List.mem_append_left _ hd', hnew'⟩

variable [DecidableEq V]

/-- **A deletion** of an old id, where there is a document with the new one. -/
theorem Kept.delete {subtype : UInt8} (h : Kept docs coll) (hsub : subtype = 0x00 ∨ subtype = 0x03)
    (hnew : ∃ d' ∈ coll, HasNew data d') :
    Kept docs (coll.filter fun d => idOf d ≠ some (.binary subtype data)) := by
  have hkeep : ∀ d' ∈ coll, ¬ Legacy d' → d' ∈ coll.filter fun d =>
      idOf d ≠ some (.binary subtype data) := by
    intro d' hd' hother
    refine List.mem_filter.2 ⟨hd', ?_⟩
    rw [decide_eq_true_eq]
    exact fun heq => hother ⟨data, legacy_of heq hsub⟩
  refine ⟨fun d hd => h.keyed d (List.mem_filter.1 hd).1, ?_,
    fun d hd => h.origin d (List.mem_filter.1 hd).1,
    fun d hd hother => hkeep d (h.other d hd hother) hother, fun d hd data' hold => ?_⟩
  · exact h.unique.sublist (List.filter_sublist.map _)
  · have hstays : ∀ d' ∈ coll, HasNew data' d' → ∃ d' ∈ coll.filter fun d =>
      idOf d ≠ some (.binary subtype data), HasNew data' d' :=
      fun d' hd' hnew' => ⟨d', hkeep d' hd' (not_legacy_of_new hnew'), hnew'⟩
    rcases h.legacy d hd data' hold with hmem | ⟨d', hd', hnew'⟩
    · by_cases hgone : idOf d = some (.binary subtype data)
      · -- the one that is deleted
        have hdata : data' = data := by
          rcases hold with hold | hold
          all_goals
            rw [hgone] at hold
            simp only [Option.some.injEq, Value.binary.injEq] at hold
            exact hold.2.symm
        subst hdata
        obtain ⟨d', hd', hnew'⟩ := hnew
        exact .inr (hstays d' hd' hnew')
      · exact .inl (List.mem_filter.2 ⟨hmem, decide_eq_true hgone⟩)
    · exact .inr (hstays d' hd' hnew')

end Kept

section Runs

variable {V ι : Type}

/-- The state that the runs of a process find, none of them with a cursor. -/
def initial (docs : List (Document V)) : MigState ι V := ⟨docs, [], fun _ => none⟩

/-- So many runs as wanted, each with its rounds. -/
def runs (readable : Document V → Bool) (rounds : ι → ℕ) (s : MigState ι V) :
    Pool (MigSig V) ι (MigState ι V) (Option (Stats × Option MigErr)) :=
      ⟨s, fun i => migrate readable (rounds i)⟩

/-- The documents with an old id that a cursor may give are old ones. -/
structure Tracked (docs : List (Document V)) (s : MigState ι V) : Prop where
  kept : Kept docs s.coll
  opened : ∀ i cursor, s.cursors i = some cursor → ∀ d ∈ cursor.opened, Legacy d → d ∈ docs
  inserted : ∀ d ∈ s.inserted, ¬ Legacy d

/-- What a run has learned is so. -/
structure Sound (docs coll : List (Document V)) (l : List (MigSig V).Act) : Prop where
  given : ∀ raw, (⟨.next, Next.doc (some raw)⟩ : (MigSig V).Act) ∈ l → Legacy raw → raw ∈ docs
  known : ∀ data, Knows l data → ∃ d ∈ coll, HasNew data d

variable {docs coll coll' : List (Document V)} {l : List (MigSig V).Act} {x : (MigSig V).Act}

theorem Sound.nil : Sound docs coll [] where
  given := fun _ h => absurd h List.not_mem_nil
  known := by
    rintro data (h | ⟨d, -, h⟩)
    · exact absurd h List.not_mem_nil
    · exact absurd h List.not_mem_nil

/-- What is new is still there. -/
theorem Sound.mono (h : Sound docs coll l)
    (hnew : ∀ data, (∃ d ∈ coll, HasNew data d) → ∃ d ∈ coll', HasNew data d) :
    Sound docs coll' l := ⟨h.given, fun data hdata => hnew data (h.known data hdata)⟩

theorem Sound.snoc (h : Sound docs coll l)
    (hgiven : ∀ raw, x = ⟨.next, Next.doc (some raw)⟩ → Legacy raw → raw ∈ docs)
    (hfound : ∀ data, x = ⟨.findOne (.binary 0x04 data), Lookup.found⟩ → ∃ d ∈ coll, HasNew data d)
    (hinserted : ∀ d data, x = ⟨.insertOne d, true⟩ → HasNew data d → d ∈ coll) :
    Sound docs coll (l ++ [x]) := by
  refine ⟨fun raw hraw => ?_, ?_⟩
  · rcases List.mem_append.1 hraw with hraw | hraw
    · exact h.given raw hraw
    · exact hgiven raw (List.mem_singleton.1 hraw).symm
  · rintro data (hmem | ⟨d, hd, hmem⟩)
    · rcases List.mem_append.1 hmem with hmem | hmem
      · exact h.known data (.inl hmem)
      · exact hfound data (List.mem_singleton.1 hmem).symm
    · rcases List.mem_append.1 hmem with hmem | hmem
      · exact h.known data (.inr ⟨d, hd, hmem⟩)
      · exact ⟨d, hinserted d data (List.mem_singleton.1 hmem).symm hd, hd⟩

variable [DecidableEq V] [DecidableEq ι] {i : ι} {s s' : MigState ι V}

theorem has_eq_false {id : Option (Value V)} (h : has coll id = false) : ∀ d ∈ coll, idOf d ≠ id :=
  fun d hd heq =>
  Bool.false_ne_true (h.symm.trans (has_iff.2 ⟨d, hd, heq⟩))

/-- A call that is allowed leaves what is new. -/
theorem new_stays (he : Effect i s x s') (hA : Allowed l x.1) (data : List UInt8)
    (hnew : ∃ d ∈ s.coll, HasNew data d) :
    ∃ d ∈ s'.coll, HasNew data d := by
  obtain ⟨d, hd, hnew⟩ := hnew
  cases he with
  | opens => exact ⟨d, hd, hnew⟩
  | gives => exact ⟨d, hd, hnew⟩
  | ends => exact ⟨d, hd, hnew⟩
  | looks => exact ⟨d, hd, hnew⟩
  | fails => exact ⟨d, hd, hnew⟩
  | inserts => exact ⟨d, List.mem_append_left _ hd, hnew⟩
  | deletes id r =>
    obtain ⟨subtype, data', rfl, hsub, -⟩ := hA
    refine ⟨d, List.mem_filter.2 ⟨hd, ?_⟩, hnew⟩
    rw [decide_eq_true_eq]
    exact fun heq => not_legacy_of_new hnew ⟨data', legacy_of heq hsub⟩

omit [DecidableEq V] in
/-- A run has a new cursor, which may give old documents only. -/
theorem Tracked.cursor {cursor : Cursor V} (h : Tracked docs s)
    (hold : ∀ d ∈ cursor.opened, Legacy d → d ∈ docs) :
    Tracked docs { s with cursors := Function.update s.cursors i (some cursor) } := by
  refine ⟨h.kept, fun j cursor' hj d hd hlegacy => ?_, h.inserted⟩
  dsimp only at hj
  by_cases hij : j = i
  · subst hij
    rw [Function.update_self] at hj
    cases hj
    exact hold d hd hlegacy
  · rw [Function.update_of_ne hij] at hj
    exact h.opened j cursor' hj d hd hlegacy

/-- **A call that is allowed** keeps the documents. -/
theorem Tracked.step (h : Tracked docs s) (hl : Sound docs s.coll l) (he : Effect i s x s')
    (hA : Allowed l x.1) :
    Tracked docs s' := by
  cases he with
  | opens => exact h.cursor fun d hd => h.kept.old hd
  | @gives cursor d r hcursor hd hnew hr => exact h.cursor (h.opened i cursor hcursor)
  | ends => exact h
  | looks => exact h
  | fails => exact h
  | inserts r hnew =>
    obtain ⟨raw, data, hraw, hlegacy, rfl⟩ := hA
    refine ⟨h.kept.insert (hl.given raw hraw ⟨data, hlegacy⟩) hlegacy (has_eq_false hnew), h.opened,
      fun d hd => ?_⟩
    rcases List.mem_cons.1 hd with rfl | hd
    · exact not_legacy_of_new hlegacy.rewritten
    · exact h.inserted d hd
  | deletes id r =>
    obtain ⟨subtype, data, rfl, hsub, hknows⟩ := hA
    exact ⟨h.kept.delete hsub (hl.known data hknows), h.opened, h.inserted⟩

/-- **What a run learns** from a call. -/
theorem Sound.step (h : Tracked docs s) (hl : Sound docs s.coll l) (he : Effect i s x s')
    (hA : Allowed l x.1) :
    Sound docs s'.coll (l ++ [x]) := by
  refine (hl.mono (new_stays he hA)).snoc ?_ ?_ ?_
  · rintro raw rfl hlegacy
    cases he with
    | @gives cursor d r hcursor hd hnew hr =>
      rcases hr with hr | hr
      · cases hr
        rcases hd with hd | hd
        · exact h.opened i cursor hcursor _ hd hlegacy
        · exact absurd hlegacy (h.inserted _ hd)
      · cases hr
    | fails hx => cases hx
  · rintro data rfl
    cases he with
    | looks hr =>
      cases hhas : has s.coll (some (.binary 0x04 data)) with
      | true => exact has_iff.1 hhas
      | false =>
        rw [hhas] at hr
        cases hr
    | fails hx => cases hx
  · rintro d data rfl hnew
    cases he with
    | inserts => exact List.mem_append_right _ (List.mem_singleton_self _)
    | fails hx => cases hx

variable {readable : Document V → Bool} {rounds : ι → ℕ} {es : List (Event (MigSig V) ι)}
  {R : Pool (MigSig V) ι (MigState ι V) (Option (Stats × Option MigErr))}

/-- **Runs lose nothing**, wherever each of them stops. -/
theorem run_tracked (h : Tracked docs s) (hr : Run migHandler Free (runs readable rounds s) es R) :
    Tracked docs R.state ∧ ∀ i, Sound docs R.state.coll (trace i es) := by
  refine run_ind_meets (I := fun es R => Tracked docs R.state ∧
    ∀ i, Sound docs R.state.coll (trace i es))
    (fun i => migrate_meets readable (rounds i)) ⟨h, fun _ => .nil⟩ ?_ hr
  rintro es R e R' - ⟨htracked, hsound⟩ hA - hstep
  obtain ⟨k, c, s, -, hc, rfl⟩ := step_iff.1 hstep
  have he := effect hc
  refine ⟨htracked.step (hsound e.who) he hA, fun j => ?_⟩
  rw [trace_append]
  by_cases hj : e.who = j
  · subst hj
    have hself : trace e.who [e] = [⟨e.op, e.res⟩] := trace_cons_self
    rw [hself]
    exact Sound.step htracked (hsound e.who) he hA
  · have hother : trace j [e] = [] := by
      simp only [trace, List.filterMap_cons, if_neg hj, List.filterMap_nil]
    rw [hother, List.append_nil]
    exact (hsound j).mono (new_stays he hA)

end Runs

section Alone

/-! A run that nothing comes between, and that reports no failure. -/

variable {V : Type}

/-- An id that is rewritten. -/
def isLegacy : Value V → Bool
  | .binary subtype _ => subtype = 0x00 || subtype = 0x03
  | .other _ => false

def legacyIDs (coll : List (Document V)) : List (Value V) := (coll.filterMap idOf).filter isLegacy

/-- The ids that have been deleted, by the answers. -/
def deletions (l : List (MigSig V).Act) : List (Value V) :=
  l.filterMap fun
    | ⟨.deleteOne id, r⟩ => if r = true then some id else none
    | _ => none

variable {coll : List (Document V)} {d raw : Document V} {id : Value V} {data : List UInt8}
  {l : List (MigSig V).Act} {stats stats' : Stats} {err : Option MigErr}
  {readable : Document V → Bool} {rounds : ℕ}

theorem legacy_iff (hid : idOf d = some id) : Legacy d ↔ isLegacy id = true := by
  constructor
  · rintro ⟨data, h | h⟩
    · rw [hid] at h
      cases h
      rfl
    · rw [hid] at h
      cases h
      rfl
  · intro h
    cases id with
    | other v => cases h
    | binary subtype data =>
      have hsub : subtype = 0x00 ∨ subtype = 0x03 := by
        simpa only [isLegacy, Bool.or_eq_true, decide_eq_true_eq] using h
      exact ⟨data, legacy_of hid hsub⟩

theorem mem_legacyIDs :
    id ∈ legacyIDs coll ↔ isLegacy id = true ∧ ∃ d ∈ coll, idOf d = some id := by
  unfold legacyIDs
  rw [List.mem_filter, List.mem_filterMap, and_comm]

theorem legacyIDs_nil (h : ∀ d ∈ coll, ¬ Legacy d) : legacyIDs coll = [] := by
  refine List.eq_nil_iff_forall_not_mem.2 fun id hid => ?_
  obtain ⟨hlegacy, d, hd, heq⟩ := mem_legacyIDs.1 hid
  exact h d hd ((legacy_iff heq).2 hlegacy)

theorem legacyIDs_nodup (h : (coll.map idOf).Nodup) : (legacyIDs coll).Nodup := by
  refine List.Nodup.filter _ ?_
  have hmap : coll.filterMap idOf = (coll.map idOf).filterMap fun o => o := by
    rw [List.filterMap_map]
    rfl
  rw [hmap]
  exact h.filterMap fun a a' b ha ha' => ha.trans ha'.symm

/-- What is inserted has no old id. -/
theorem legacyIDs_snoc (h : ¬ Legacy d) : legacyIDs (coll ++ [d]) = legacyIDs coll := by
  unfold legacyIDs
  rw [List.filterMap_append, List.filter_append]
  have hnil : legacyIDs [d] = [] := legacyIDs_nil fun d' hd' => by
    rw [List.mem_singleton.1 hd']
    exact h
  unfold legacyIDs at hnil
  rw [hnil, List.append_nil]

variable [DecidableEq V]

theorem legacyIDs_delete (hnodup : (coll.map idOf).Nodup) (hid : id ∈ legacyIDs coll) :
    (id :: legacyIDs (coll.filter fun d => idOf d ≠ some id)).Perm (legacyIDs coll) := by
  have hfilter : (coll.filter fun d => idOf d ≠ some id).filterMap idOf =
      (coll.filterMap idOf).filter (· ≠ id) := by
    rw [List.filterMap_filter, List.filter_filterMap]
    refine List.filterMap_congr fun d _ => ?_
    cases hd : idOf d with
    | none => simp
    | some v => by_cases hv : v = id <;> simp [hv, Option.filter]
  have herase : legacyIDs (coll.filter fun d => idOf d ≠ some id) = (legacyIDs coll).erase id := by
    rw [(legacyIDs_nodup hnodup).erase_eq_filter]
    unfold legacyIDs
    rw [hfilter, List.filter_comm]
    refine List.filter_congr fun v _ => ?_
    by_cases hv : v = id <;> simp [hv]
  rw [herase]
  exact (List.perm_cons_erase hid).symm

variable {ι : Type} [DecidableEq ι] {i : ι} {s s' : MigState ι V} {cursor : Cursor V}

/-- What is left to do, with this cursor. -/
structure Alone (i : ι) (s : MigState ι V) (cursor : Cursor V) : Prop where
  own : s.cursors i = some cursor
  unique : (s.coll.map idOf).Nodup
  inserted : ∀ d ∈ s.inserted, ¬ Legacy d
  owed : ∀ d ∈ s.coll, Legacy d → d ∈ cursor.opened ∧ idOf d ∉ cursor.given
  there : ∀ d ∈ cursor.opened, Legacy d → idOf d ∉ cursor.given → d ∈ s.coll

omit [DecidableEq V] in
/-- A document without an old id changes nothing. -/
theorem Alone.skip (h : Alone i s cursor) (hd : ¬ Legacy d) :
    Alone i (s.gives i cursor d) { cursor with given := idOf d :: cursor.given } where
  own := Function.update_self ..
  unique := h.unique
  inserted := h.inserted
  owed := by
    intro d' hd' hlegacy
    obtain ⟨hopened, hgiven⟩ := h.owed d' hd' hlegacy
    refine ⟨hopened, fun hmem => ?_⟩
    rcases List.mem_cons.1 hmem with heq | hmem
    · -- the ids are the same
      obtain ⟨data, hdata⟩ := hlegacy
      refine hd ⟨data, ?_⟩
      unfold HasLegacy at hdata ⊢
      rwa [heq] at hdata
    · exact hgiven hmem
  there := fun d' hd' hlegacy hgiven => h.there d' hd' hlegacy fun hmem =>
    hgiven (List.mem_cons_of_mem _ hmem)

omit [DecidableEq ι] in
/-- What is inserted is no work. -/
theorem Alone.inserts (h : Alone i s cursor) (hd : ¬ Legacy d)
    (hnew : has s.coll (idOf d) = false) :
    Alone i (s.inserts d) cursor where
  own := h.own
  unique := by
    dsimp only [MigState.inserts]
    rw [List.map_append, List.map_singleton, List.nodup_append]
    refine ⟨h.unique, List.nodup_singleton _, ?_⟩
    intro v hv w hw heq
    obtain ⟨d', hd', rfl⟩ := List.mem_map.1 hv
    exact has_eq_false hnew d' hd' (heq.trans (List.mem_singleton.1 hw))
  inserted := by
    intro d' hd'
    rcases List.mem_cons.1 hd' with rfl | hd'
    · exact hd
    · exact h.inserted d' hd'
  owed := by
    intro d' hd' hlegacy
    rcases List.mem_append.1 hd' with hd' | hd'
    · exact h.owed d' hd' hlegacy
    · rw [List.mem_singleton.1 hd'] at hlegacy
      exact absurd hlegacy hd
  there := fun d' hd' hlegacy hgiven => List.mem_append_left _ (h.there d' hd' hlegacy hgiven)

/-- The document that has been given is gone. -/
theorem Alone.deletes (h : Alone i s cursor) (hid : idOf d = some id) :
    Alone i ((s.gives i cursor d).deletes id) { cursor with given := idOf d :: cursor.given } where
  own := Function.update_self ..
  unique := h.unique.sublist (List.filter_sublist.map _)
  inserted := h.inserted
  owed := by
    intro d' hd' hlegacy
    obtain ⟨hmem, hne⟩ := List.mem_filter.1 hd'
    obtain ⟨hopened, hgiven⟩ := h.owed d' hmem hlegacy
    refine ⟨hopened, fun hmem' => ?_⟩
    rcases List.mem_cons.1 hmem' with heq | hmem'
    · rw [decide_eq_true_eq] at hne
      exact hne (heq.trans hid)
    · exact hgiven hmem'
  there := by
    intro d' hd' hlegacy hgiven
    refine List.mem_filter.2 ⟨h.there d' hd' hlegacy fun hmem => hgiven
      (List.mem_cons_of_mem _ hmem), ?_⟩
    rw [decide_eq_true_eq, ← hid]
    exact fun heq => hgiven (heq ▸ List.mem_cons_self ..)

/-- **A rewriting** that does not fail deletes the old id, and nothing else. -/
theorem rewrite_alone {subtype : UInt8}
    (he : Exec migHandler i (rewriteIDSubtype readable raw subtype data) s l (.ok ()) s') :
    ∃ s₁, (s₁ = s ∨ has s.coll (idOf (rewritten data raw)) = false ∧
      s₁ = s.inserts (rewritten data raw)) ∧
      s' = s₁.deletes (.binary subtype data) ∧ deletions l = [.binary subtype data] := by
  unfold rewriteIDSubtype at he
  split at he
  · obtain ⟨-, herr, -⟩ := he
    cases herr
  -- the look for the new id decides whether it is inserted
  · obtain ⟨c, r, s₁, l', hc, rfl, he⟩ := he
    have hlook := effect hc
    cases r with
    | failed =>
      obtain ⟨-, herr, -⟩ := he
      cases herr
    -- the rewritten document is there: an earlier run has inserted it
    | found =>
      have hs₁ : s₁ = s := by
        cases hlook <;> rfl
      subst hs₁
      obtain ⟨c, r, s₂, l'', hc, rfl, he⟩ := he
      cases r with
      | false =>
        obtain ⟨-, herr, -⟩ := he
        cases herr
      | true =>
        obtain ⟨rfl, -, rfl⟩ := he
        cases effect hc with
        | deletes => exact ⟨s₁, .inl rfl, rfl, rfl⟩
        | fails hx => cases hx
    | notFound =>
      have hs₁ : s₁ = s := by
        cases hlook <;> rfl
      subst hs₁
      obtain ⟨c, r, s₂, l'', hc, rfl, he⟩ := he
      cases r with
      | false =>
        obtain ⟨-, herr, -⟩ := he
        cases herr
      | true =>
        -- it is inserted first, and the old one deleted after that
        have hinsert : has s₁.coll (idOf (rewritten data raw)) = false ∧
            s₂ = s₁.inserts (rewritten data raw) := by
          cases effect hc with
          | inserts _ hnew => exact ⟨hnew, rfl⟩
          | fails hx => cases hx
        obtain ⟨hnew, rfl⟩ := hinsert
        obtain ⟨c, r, s₃, l₃, hc, rfl, he⟩ := he
        cases r with
        | false =>
          obtain ⟨-, herr, -⟩ := he
          cases herr
        | true =>
          obtain ⟨rfl, -, rfl⟩ := he
          cases effect hc with
          | deletes => exact ⟨_, .inr ⟨hnew, rfl⟩, rfl, rfl⟩
          | fails hx => cases hx

omit [DecidableEq V] in
theorem deletions_append (l l' : List (MigSig V).Act) :
    deletions (l ++ l') = deletions l ++ deletions l' :=
  List.filterMap_append ..

omit [DecidableEq V] in
/-- The failures are only counted up. -/
theorem scan_failed (rounds : ℕ) (stats : Stats) (l : List (MigSig V).Act) :
    Meets (fun _ _ => True) (fun _ r => ∀ stats' err, r = some (stats', err) →
      stats.failed ≤ stats'.failed)
      (scan readable rounds stats) l := by
  induction rounds generalizing stats l with
  | zero => exact nofun
  | succ rounds ih =>
    refine ⟨trivial, fun r => ?_⟩
    cases r with
    | done =>
      rintro stats' err ⟨⟩
      exact Nat.le_refl _
    | failed =>
      rintro stats' err ⟨⟩
      exact Nat.le_refl _
    | doc raw =>
      have htreat : Meets (fun _ _ => True) (fun _ _ => True) (treat readable raw)
        (l ++ [⟨.next, Next.doc raw⟩]) :=
        meets_of_only (only_any _ fun _ => trivial) (fun _ _ _ _ => trivial) fun _ _ _ => trivial
      show Meets _ _ ((treat readable raw).bind fun o => scan readable rounds (stats.count o)) _
      refine meets_bind htreat fun l' o _ _ =>
        meets_mono (ih (stats.count o) l') fun _ r _ hr stats' err heq => ?_
      refine Nat.le_trans ?_ (hr stats' err heq)
      cases o with
      | migrated => exact Nat.le_refl _
      | skipped => exact Nat.le_refl _
      | failed => exact Nat.le_succ _

/-- **The loop of a run alone**, without a failure: each old id that is there is deleted, once. -/
theorem scan_alone (h : Alone i s cursor)
    (he : Exec migHandler i (scan readable rounds stats) s l (some (stats', none)) s')
    (hfailed : stats'.failed = 0) :
    (deletions l).Perm (legacyIDs s.coll) ∧ stats'.migrated = stats.migrated +
    (deletions l).length ∧
      ∀ d ∈ s'.coll, ¬ Legacy d := by
  induction rounds generalizing s cursor stats l with
  | zero =>
    obtain ⟨-, hnone, -⟩ := he
    cases hnone
  | succ rounds ih =>
    obtain ⟨c, r, s₁, l', hc, rfl, he⟩ := he
    have hcall := effect hc
    cases r with
    | failed =>
      obtain ⟨-, hend, -⟩ := he
      cases hend
    | done =>
      obtain ⟨rfl, hend, rfl⟩ := he
      cases hend
      cases hcall with
      | fails hx => cases hx
      | @ends cursor' hcursor hall =>
        rw [h.own] at hcursor
        cases hcursor
        have hgone : ∀ d ∈ s.coll, ¬ Legacy d := by
          intro d hd hlegacy
          obtain ⟨hopened, hgiven⟩ := h.owed d hd hlegacy
          exact (hall d hopened).elim hgiven fun habsent => habsent hd
        refine ⟨?_, rfl, hgone⟩
        rw [legacyIDs_nil hgone]
        exact .refl _
    | doc raw =>
      obtain ⟨l₁, l₂, o, s₂, rfl, htreat, hscan⟩ := exec_bind.1
        (show Exec migHandler i ((treat readable raw).bind fun o => scan readable rounds
          (stats.count o)) _ _ _ _ from he)
      have hcount : (stats.count o).failed = 0 := by
        have hle := meets_exec (scan_failed rounds (stats.count o) []) hscan _ _ rfl
        omega
      have ho : o ≠ .failed := by
        rintro rfl
        exact Nat.succ_ne_zero _ hcount
      cases hcall with
      | fails hx => cases hx
      | @gives cursor' d r hcursor hd hnew hr =>
        rw [h.own] at hcursor
        cases hcursor
        rcases hr with rfl | rfl
        · rcases treat_cases readable d with ⟨hother, heq⟩ | ⟨subtype, data, hid, hsub, heq⟩
          · rw [heq] at htreat
            obtain ⟨rfl, rfl, rfl⟩ := htreat
            obtain ⟨hperm, hmigrated, hgone⟩ := ih (h.skip hother) hscan
            exact ⟨hperm, hmigrated, hgone⟩
          · rw [heq] at htreat
            obtain ⟨l₃, l₄, res, s₃, rfl, hrewrite, rfl, rfl, rfl⟩ := exec_bind.1 htreat
            have hlegacy : HasLegacy data d := legacy_of hid hsub
            have hopened : d ∈ cursor.opened := hd.elim id fun hins =>
              absurd ⟨data, hlegacy⟩ (h.inserted d hins)
            have hthere : d ∈ s.coll := h.there d hopened ⟨data, hlegacy⟩ hnew
            cases res with
            | error e => exact absurd rfl ho
            | ok u =>
              obtain ⟨s₁, hs₁, rfl, hdel⟩ := rewrite_alone hrewrite
              -- the document is given before the new one is inserted, or after it: it is the same
              obtain ⟨s₀, h₀, rfl, hmem, hids⟩ : ∃ s₀, Alone i s₀ cursor ∧
                s₁ = s₀.gives i cursor d ∧ d ∈ s₀.coll ∧
                  legacyIDs s₀.coll = legacyIDs s.coll := by
                rcases hs₁ with rfl | ⟨habsent, rfl⟩
                · exact ⟨s, h, rfl, hthere, rfl⟩
                · have hrewritten : ¬ Legacy (rewritten data d) :=
                    not_legacy_of_new hlegacy.rewritten
                  exact ⟨s.inserts _, h.inserts hrewritten habsent, rfl,
                    List.mem_append_left _ hthere, legacyIDs_snoc hrewritten⟩
              obtain ⟨hperm, hmigrated, hgone⟩ := ih (h₀.deletes hid) hscan
              have hids' : Value.binary subtype data ∈ legacyIDs s₀.coll :=
                mem_legacyIDs.2 ⟨(legacy_iff hid).1 ⟨data, hlegacy⟩, d, hmem, hid⟩
              have hall : deletions (⟨.next, Next.doc (some d)⟩ :: ((l₃ ++ []) ++ l₂)) =
                  .binary subtype data :: deletions l₂ := by
                show deletions ((l₃ ++ []) ++ l₂) = _
                rw [List.append_nil, deletions_append, hdel, List.singleton_append]
              refine ⟨?_, ?_, hgone⟩
              · rw [hall, ← hids]
                exact (hperm.cons _).trans (legacyIDs_delete h₀.unique hids')
              · rw [hall, hmigrated, List.length_cons]
                show stats.migrated + 1 + _ = _
                omega
        · obtain ⟨-, rfl, -⟩ := htreat
          exact absurd rfl ho

/-- **A run alone**, without a failure. -/
theorem migrate_alone (hunique : (s.coll.map idOf).Nodup) (hinserted : ∀ d ∈ s.inserted, ¬ Legacy d)
    (he : Exec migHandler i (migrate readable rounds) s l (some (stats, none)) s')
    (hfailed : stats.failed = 0) :
    (deletions l).Perm (legacyIDs s.coll) ∧ stats.migrated = (deletions l).length ∧
    ∀ d ∈ s'.coll, ¬ Legacy d := by
  obtain ⟨c, r, s₁, l', hc, rfl, he⟩ := he
  cases r with
  | false =>
    obtain ⟨-, hend, -⟩ := he
    cases hend
  | true =>
    cases effect hc with
    | fails hx => cases hx
    | opens =>
      have h : Alone i (s.opens i) ⟨s.coll, []⟩ := ⟨Function.update_self .., hunique, hinserted,
        fun d hd _ => ⟨hd, List.not_mem_nil⟩, fun d hd _ _ => hd⟩
      obtain ⟨hperm, hmigrated, hgone⟩ := scan_alone h he hfailed
      refine ⟨hperm, ?_, hgone⟩
      rw [hmigrated]
      exact Nat.zero_add _

end Alone

section Smooth

variable {V : Type} {readable : Document V → Bool} {l l' : List (MigSig V).Act} {raw : Document V}
  {subtype : UInt8} {data : List UInt8} {stats : Stats}

/-- No call fails, and each document that is given can be read. -/
structure Smooth (readable : Document V → Bool) (l : List (MigSig V).Act) : Prop where
  succeeds : ∀ x ∈ l, ¬ Fails x
  reads : ∀ r, (⟨.next, Next.doc r⟩ : (MigSig V).Act) ∈ l → ∃ raw, r = some raw ∧
    readable raw = true

theorem Smooth.left (h : Smooth readable l') (hl : l <+: l') : Smooth readable l :=
  ⟨fun x hx => h.succeeds x (hl.subset hx), fun r hr => h.reads r (hl.subset hr)⟩

theorem not_smooth {x : (MigSig V).Act} (hx : Fails x) : ¬ Smooth readable (l ++ [x]) := fun h =>
  h.succeeds x (List.mem_append_right _ (List.mem_singleton_self _)) hx

theorem rewrite_smooth (hraw : readable raw = true) :
    Meets (fun _ _ => True) (fun l r => Smooth readable l → r = .ok ())
      (rewriteIDSubtype readable raw subtype data) l := by
  unfold rewriteIDSubtype
  rw [hraw, if_neg (by decide)]
  refine ⟨trivial, fun r => ?_⟩
  cases r with
  | failed => exact fun h => absurd h (not_smooth rfl)
  | found =>
    refine ⟨trivial, fun deleted => ?_⟩
    cases deleted with
    | false => exact fun h => absurd h (not_smooth rfl)
    | true => exact fun _ => rfl
  | notFound =>
    refine ⟨trivial, fun inserted => ?_⟩
    cases inserted with
    | false => exact fun h => absurd h (not_smooth rfl)
    | true =>
      refine ⟨trivial, fun deleted => ?_⟩
      cases deleted with
      | false => exact fun h => absurd h (not_smooth rfl)
      | true => exact fun _ => rfl

theorem treat_smooth {raw : Option (Document V)}
    (hraw : (⟨.next, Next.doc raw⟩ : (MigSig V).Act) ∈ l) :
    Meets (fun _ _ => True) (fun l o => Smooth readable l → o ≠ .failed)
    (treat readable raw) l := by
  cases raw with
  | none =>
    intro h
    obtain ⟨raw, hsome, -⟩ := h.reads none hraw
    cases hsome
  | some raw =>
    rcases treat_cases readable raw with ⟨-, heq⟩ | ⟨subtype, data, -, -, heq⟩
    · rw [heq]
      exact fun _ => Outcome.noConfusion
    · rw [heq]
      by_cases hread : readable raw = true
      · refine meets_bind (rewrite_smooth hread) fun l' r _ hr hsmooth => ?_
        rw [hr hsmooth]
        exact Outcome.noConfusion
      · -- the document cannot be read
        refine meets_of_only (only_any _ fun _ => trivial) (fun _ _ _ _ => trivial)
          fun l' o _ hsmooth => ?_
        obtain ⟨raw', hsome, hraw'⟩ := hsmooth.reads _ (List.mem_append_left _ hraw)
        cases hsome
        exact absurd hraw' hread

theorem scan_smooth (rounds : ℕ) (hstats : Smooth readable l → stats.failed = 0) :
    Meets (fun _ _ => True) (fun l r => Smooth readable l → ∀ stats err, r = some (stats, err) →
      stats.failed = 0 ∧ err = none)
      (scan readable rounds stats) l := by
  induction rounds generalizing stats l with
  | zero => exact fun _ => nofun
  | succ rounds ih =>
    refine ⟨trivial, fun r => ?_⟩
    cases r with
    | done =>
      rintro h stats' err ⟨⟩
      exact ⟨hstats (h.left (List.prefix_append _ _)), rfl⟩
    | failed => exact fun h => absurd h (not_smooth rfl)
    | doc raw =>
      show Meets _ _ ((treat readable raw).bind fun o => scan readable rounds (stats.count o)) _
      refine meets_bind (treat_smooth (List.mem_append_right _ (List.mem_singleton_self _)))
        fun l' o hl ho => ?_
      refine ih fun h => ?_
      have hzero := hstats (h.left ((List.prefix_append _ _).trans hl))
      cases o with
      | migrated => exact hzero
      | skipped => exact hzero
      | failed => exact absurd rfl (ho h)

/-- **A run without failures** reports none. -/
theorem migrate_smooth (readable : Document V → Bool) (rounds : ℕ) :
    Meets (fun _ _ => True) (fun l r => Smooth readable l → ∀ stats err, r = some (stats, err) →
      stats.failed = 0 ∧ err = none)
      (migrate readable rounds) [] := by
  refine ⟨trivial, fun opened => ?_⟩
  cases opened with
  | false => exact fun h => absurd h (not_smooth rfl)
  | true => exact scan_smooth rounds fun _ => rfl

end Smooth

section Settled

/-! Where there is no old id. -/

variable {V : Type} {readable : Document V → Bool} {l : List (MigSig V).Act} {stats : Stats}

/-- All the documents that have been given are left as they are. -/
def Idle (l : List (MigSig V).Act) : Prop :=
  ∀ raw, (⟨.next, Next.doc (some raw)⟩ : (MigSig V).Act) ∈ l → ¬ Legacy raw

/-- A run that has nothing to do writes nothing. -/
def Reads (l : List (MigSig V).Act) (o : MigOp V) : Prop :=
  Idle l → (∀ d, o ≠ .insertOne d) ∧ ∀ id, o ≠ .deleteOne id

def NoneMigrated (l : List (MigSig V).Act) : Option (Stats × Option MigErr) → Prop
  | some (stats, _) => Idle l → stats.migrated = 0
  | none => True

theorem treat_idle {raw : Option (Document V)}
    (hraw : (⟨.next, Next.doc raw⟩ : (MigSig V).Act) ∈ l) :
    Meets Reads (fun l o => Idle l → o ≠ .migrated) (treat readable raw) l := by
  cases raw with
  | none => exact fun _ => Outcome.noConfusion
  | some raw =>
    by_cases hlegacy : Legacy raw
    · refine meets_of_only (only_any _ fun _ => trivial) (fun l' o hl _ h => ?_) fun l' o _ h => ?_
      · exact absurd hlegacy (h raw (hl.subset hraw))
      · exact absurd hlegacy (h raw (List.mem_append_left _ hraw))
    · rcases treat_cases readable raw with ⟨-, heq⟩ | ⟨subtype, data, hid, hsub, -⟩
      · rw [heq]
        exact fun _ => Outcome.noConfusion
      · exact absurd ⟨data, legacy_of hid hsub⟩ hlegacy

theorem scan_idle (rounds : ℕ) (hstats : Idle l → stats.migrated = 0) :
    Meets Reads NoneMigrated (scan readable rounds stats) l := by
  induction rounds generalizing stats l with
  | zero => trivial
  | succ rounds ih =>
    refine ⟨fun _ => ⟨nofun, nofun⟩, fun r => ?_⟩
    have hleft : ∀ {l'}, l <+: l' → Idle l' → stats.migrated = 0 := fun hl h =>
      hstats fun raw hraw => h raw (hl.subset hraw)
    cases r with
    | done => exact hleft (List.prefix_append _ _)
    | failed => exact hleft (List.prefix_append _ _)
    | doc raw =>
      show Meets _ _ ((treat readable raw).bind fun o => scan readable rounds (stats.count o)) _
      refine meets_bind (treat_idle (List.mem_append_right _ (List.mem_singleton_self _)))
        fun l' o hl ho => ?_
      refine ih fun h => ?_
      have hzero := hleft ((List.prefix_append _ _).trans hl) h
      cases o with
      | migrated => exact absurd rfl (ho h)
      | skipped => exact hzero
      | failed => exact hzero

theorem migrate_idle (readable : Document V → Bool) (rounds : ℕ) :
    Meets Reads NoneMigrated (migrate readable rounds) [] := by
  refine ⟨fun _ => ⟨nofun, nofun⟩, fun opened => ?_⟩
  cases opened with
  | false => exact fun _ => rfl
  | true => exact scan_idle rounds fun _ => rfl

variable {ι : Type} [DecidableEq V] [DecidableEq ι] {docs : List (Document V)} {s : MigState ι V}
  {rounds : ι → ℕ} {es : List (Event (MigSig V) ι)}
  {R : Pool (MigSig V) ι (MigState ι V) (Option (Stats × Option MigErr))}

/-- **Runs change nothing** where there is no old id. -/
theorem run_settled (h : Tracked docs s) (hdocs : ∀ d ∈ docs, ¬ Legacy d)
    (hr : Run migHandler Free (runs readable rounds s) es R) :
    R.state.coll = s.coll ∧ ∀ i stats err, R.prog i = .pure (some (stats, err)) →
    stats.migrated = 0 := by
  have hidle : ∀ {es R}, Run migHandler Free (runs readable rounds s) es R →
    ∀ i, Idle (trace i es) :=
    fun hr i raw hraw hlegacy => hdocs raw (((run_tracked h hr).2 i).given raw hraw hlegacy) hlegacy
  refine ⟨?_, fun i stats err hi => run_ended
    (fun i => migrate_idle readable (rounds i)) hr hi (hidle hr i)⟩
  refine run_ind_meets (I := fun _ R => R.state.coll = s.coll)
    (fun i => migrate_idle readable (rounds i)) rfl ?_ hr
  rintro es R e R' hrun hcoll hA - hstep
  obtain ⟨k, c, s', -, hc, rfl⟩ := step_iff.1 hstep
  obtain ⟨hinsert, hdelete⟩ := hA (hidle hrun e.who)
  rw [← hcoll]
  obtain ⟨who, op, res⟩ := e
  cases effect hc with
  | opens => rfl
  | gives => rfl
  | ends => rfl
  | looks => rfl
  | fails => rfl
  | inserts => exact absurd rfl (hinsert _)
  | deletes => exact absurd rfl (hdelete _)

end Settled

section Safety

variable {V : Type}

/-- All fields but the id. -/
def others (d : Document V) : Document V := d.filter fun field => field.1 ≠ "_id"

/-- The document with its new id, and all its other fields. -/
def Moved (data : List UInt8) (d d' : Document V) : Prop := HasNew data d' ∧ others d' = others d

/-- Where two ids have the same bytes, one of them old, the documents differ in nothing else: they
are the copies that an interrupted run has left. -/
def Unambiguous (docs : List (Document V)) : Prop :=
  ∀ data, ∀ d ∈ docs, HasLegacy data d → ∀ d' ∈ docs, HasLegacy data d' ∨ HasNew data d' →
    others d' = others d

/-- The document that gets the new id, in any case: the one that has it, or one with an old id. -/
def Stands (docs : List (Document V)) (data : List UInt8) (d' : Document V) : Prop :=
  HasNew data d' ∧ (d' ∈ docs ∨ (∀ d ∈ docs, ¬ HasNew data d) ∧ ∃ old ∈ docs, HasLegacy data old ∧
    others d' = others old)

/-- Each document is there under its old id or, with all other fields unchanged, under the new
one. -/
def Present (docs coll : List (Document V)) : Prop :=
  ∀ d ∈ docs, d ∈ coll ∨ ∃ data, HasLegacy data d ∧ ∃ d' ∈ coll, Moved data d d'

/-- Each document is there under its old id, or another one has its new id. -/
def Answered (docs coll : List (Document V)) : Prop :=
  ∀ d ∈ docs, (¬ Legacy d → d ∈ coll) ∧ ∀ data, HasLegacy data d → d ∈ coll ∨
    ∃ d' ∈ coll, Stands docs data d'

variable {docs coll : List (Document V)} {d' : Document V} {data : List UInt8}

theorem Kept.stands (h : Kept docs coll) (hd' : d' ∈ coll) (hnew : HasNew data d') :
    Stands docs data d' := by
  refine ⟨hnew, ?_⟩
  rcases h.origin d' hd' with hmem | ⟨data', old, hold, hlegacy, rfl, hnone⟩
  · exact .inl hmem
  · have hdata : data' = data := by
      have hid : idOf (rewritten data' old) = some (.binary 0x04 data') := hlegacy.rewritten
      unfold HasNew at hnew
      rw [hid] at hnew
      simp only [Option.some.injEq, Value.binary.injEq, true_and] at hnew
      exact hnew
    subst hdata
    exact .inr ⟨hnone, old, hold, hlegacy, setID_other _ _⟩

theorem Kept.answered (h : Kept docs coll) : Answered docs coll := fun d hd =>
  ⟨h.other d hd, fun data hlegacy => (h.legacy d hd data hlegacy).imp_right fun ⟨d', hd', hnew⟩ =>
    ⟨d', hd', h.stands hd' hnew⟩⟩

/-- Where it is clear which documents are copies, what has the new id is the document. -/
theorem Answered.present (h : Answered docs coll) (hdocs : Unambiguous docs) :
    Present docs coll := by
  intro d hd
  by_cases hlegacy : Legacy d
  · obtain ⟨data, hlegacy⟩ := hlegacy
    refine ((h d hd).2 data hlegacy).imp_right fun ⟨d', hd', hnew, hfrom⟩ =>
      ⟨data, hlegacy, d', hd', hnew, ?_⟩
    rcases hfrom with hmem | ⟨-, old, hold, holdLegacy, heq⟩
    · exact hdocs data d hd hlegacy d' hmem (.inr hnew)
    · exact heq.trans (hdocs data d hd hlegacy old hold (.inl holdLegacy))
  · exact .inl ((h d hd).1 hlegacy)

variable {ι : Type} [DecidableEq V] [DecidableEq ι] {readable : Document V → Bool} {rounds : ι → ℕ}
  {es : List (Event (MigSig V) ι)}
  {R : Pool (MigSig V) ι (MigState ι V) (Option (Stats × Option MigErr))}

omit [DecidableEq V] [DecidableEq ι] in
theorem Collection.tracked (c : Collection V) : Tracked c.docs (initial c.docs : MigState ι V) :=
  ⟨c.kept, nofun, nofun⟩

/-- A run that ends where other ones stopped. -/
theorem Tracked.exec {i : ι} {rounds : ℕ} {s s' : MigState ι V} {l : List (MigSig V).Act}
    {r : Option (Stats × Option MigErr)} (h : Tracked docs s)
    (he : Exec migHandler i (migrate readable rounds) s l r s') : Tracked docs s' :=
  (run_tracked h (run_exec (P := runs readable (fun _ => rounds) s) rfl he)).1

/-- **The migration** can stop anywhere: after any calls of any runs, no document is lost. A run
without failures then rewrites each old id once, and there is nothing left to do for those after it.
Where two documents share the bytes of their ids, one of them stands for both. -/
theorem crash_safe (c : Collection V)
    (hr : Run migHandler Free (runs readable rounds (initial c.docs)) es R) :
    (Unambiguous c.docs → Present c.docs R.state.coll) ∧ Answered c.docs R.state.coll ∧
    (R.state.coll.map idOf).Nodup ∧
      (∀ i stats err, R.prog i = .pure (some (stats, err)) → Balanced stats) ∧
      ∀ i rounds' l stats err s', Exec migHandler i (migrate readable rounds') R.state l
      (some (stats, err)) s' →
        Smooth readable l →
          err = none ∧ stats.failed = 0 ∧ (deletions l).Perm (legacyIDs R.state.coll) ∧
            stats.migrated = (deletions l).length ∧
            (∀ d ∈ s'.coll, ¬ Legacy d) ∧ (Unambiguous c.docs → Present c.docs s'.coll) ∧
            Answered c.docs s'.coll ∧
              ∀ (rounds'' : ι → ℕ) es' R', Run migHandler Free
                (runs readable rounds'' (initial s'.coll)) es' R' →
                R'.state.coll = s'.coll ∧ ∀ j stats' err', R'.prog j = .pure (some (stats', err')) →
                  stats'.migrated = 0 ∧ Balanced stats' := by
  obtain ⟨htracked, -⟩ := run_tracked c.tracked hr
  have hanswered := htracked.kept.answered
  refine ⟨hanswered.present, hanswered, htracked.kept.unique, fun i stats err hi => ?_, ?_⟩
  · exact run_ended (fun i => migrate_meets readable (rounds i)) hr hi
  · intro i rounds' l stats err s' he hsmooth
    -- a run without failures, alone from wherever the others have stopped
    obtain ⟨hfailed, rfl⟩ := meets_exec (migrate_smooth readable rounds') he hsmooth stats err rfl
    obtain ⟨hperm, hmigrated, hgone⟩ :=
      migrate_alone htracked.kept.unique htracked.inserted he hfailed
    have hafter := (htracked.exec he).kept
    refine ⟨rfl, hfailed, hperm, hmigrated, hgone, hafter.answered.present, hafter.answered,
      fun rounds'' es' R' hr' => ?_⟩
    let c' : Collection V := ⟨s'.coll, hafter.keyed, hafter.unique⟩
    -- the runs after it find no old id
    obtain ⟨hcoll, hnone⟩ := run_settled c'.tracked hgone hr'
    refine ⟨hcoll, fun j stats' err' hj => ⟨hnone j stats' err' hj, ?_⟩⟩
    exact run_ended (fun i => migrate_meets readable (rounds'' i)) hr' hj

section Examples

def oldSubscription : Document Unit := [("_id", .binary 0x00 [1]), ("type", .other ())]

def newSubscription : Document Unit := [("_id", .binary 0x04 [1]), ("type", .other ())]

/-- One subscription, with an old id. -/
def oneOld : Collection Unit where
  docs := [oldSubscription]
  keyed := by decide
  unique := by decide

/-- The first run stops after its insertion. -/
def stopSchedule : List (Fin 2 × Choice Unit) :=
  [(thread 0, .ok), (thread 0, .gives oldSubscription true), (thread 0, .ok),
  (thread 0, .ok)]

theorem stopSchedule_plays :
    (play migHandler Free stopSchedule
      (runs (fun _ => true) (fun _ => 3) (initial oneOld.docs))).isSome := by
  decide

def stopped : MigState (Fin 2) Unit :=
  ((play migHandler Free stopSchedule (runs (fun _ => true) (fun _ => 3) (initial oneOld.docs))).get
    stopSchedule_plays).2.state

/-- The second one finds both copies. -/
def rerunActs : List (MigSig Unit).Act := [⟨.find, true⟩, ⟨.next, Next.doc (some newSubscription)⟩,
  ⟨.next, Next.doc (some oldSubscription)⟩, ⟨.findOne (.binary 0x04 [1]), Lookup.found⟩,
    ⟨.deleteOne (.binary 0x00 [1]), true⟩,
  ⟨.next, Next.done⟩]

def rerunChoices : List (Choice Unit) :=
  [.ok, .gives newSubscription true, .gives oldSubscription true, .ok, .ok, .ok]

theorem rerun_exec : ∃ s', Exec migHandler (thread 1) (migrate (fun _ => true) 3) stopped rerunActs
    (some ({ scanned := 2, migrated := 1, skipped := 1 }, none)) s' :=
  ⟨_, exec_of_choices
    (rfl : (migrate (fun _ => true) 3).exec migHandler (thread 1) rerunChoices stopped = some
      (rerunActs, _, _))⟩

theorem crash_safe_rerun :
    Present oneOld.docs stopped.coll ∧ (deletions rerunActs).Perm (legacyIDs stopped.coll) := by
  obtain ⟨hpresent, -, -, -, hafter⟩ := crash_safe oneOld (run_play stopSchedule_plays)
  refine ⟨hpresent fun data d hd _ d' hd' _ => ?_, ?_⟩
  · rw [List.mem_singleton.1 hd, List.mem_singleton.1 hd']
  · obtain ⟨s', he⟩ := rerun_exec
    have hsmooth : Smooth (fun _ => true) rerunActs := by
      unfold rerunActs
      refine ⟨fun x hx => ?_, fun r hr => ?_⟩
      · simp only [List.mem_cons, List.not_mem_nil, or_false] at hx
        rcases hx with rfl | rfl | rfl | rfl | rfl | rfl <;> exact nofun
      · simp only [List.mem_cons, List.not_mem_nil, or_false, Sigma.mk.injEq, reduceCtorEq,
          false_and, true_and, heq_eq_eq,
          Next.doc.injEq, false_or] at hr
        rcases hr with rfl | rfl
        · exact ⟨_, rfl, rfl⟩
        · exact ⟨_, rfl, rfl⟩
    exact (hafter _ _ _ _ _ _ he hsmooth).2.2.1

end Examples

end Safety

end ModDNS.Subscriptions.Migration
