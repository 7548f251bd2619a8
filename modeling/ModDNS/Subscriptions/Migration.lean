import Mathlib.Data.List.Nodup
import ModDNS.Conc.Meets

/-!
# The migration of the ids of subscriptions

`MigrateSubscriptionUUIDSubtype` gives each subscription whose id has an old binary subtype one of
subtype 0x04: it inserts the rewritten document, then deletes the old one. A run may stop after any
call, and any call may fail, carried out or not.

* `effect`: what a call does.
* `migrate_meets`: what a run knows before it inserts or deletes.
-/

namespace ModDNS.Subscriptions.Migration

open Conc

section Documents

/-- A value of BSON: binary data, or another one. -/
inductive Value (V : Type) where
  | binary (subtype : UInt8) (data : List UInt8)
  | other (v : V)
  deriving DecidableEq

/-- The fields, in their order. -/
abbrev Document (V : Type) := List (String × Value V)

variable {V : Type}

/-- `raw.Lookup("_id")`. -/
def idOf (d : Document V) : Option (Value V) := d.lookup "_id"

/-- The loop of `rewriteIDSubtype` over the fields. -/
def setID (id : Value V) : Document V → Document V
  | [] => []
  | (key, value) :: rest => if key = "_id" then (key, id) :: rest else (key, value) :: setID id rest

/-- The id has one of the subtypes that are rewritten, with these bytes. -/
def HasLegacy (data : List UInt8) (d : Document V) : Prop :=
  idOf d = some (.binary 0x00 data) ∨ idOf d = some (.binary 0x03 data)

/-- The id has the new subtype. -/
def HasNew (data : List UInt8) (d : Document V) : Prop := idOf d = some (.binary 0x04 data)

/-- The id is rewritten. -/
def Legacy (d : Document V) : Prop := ∃ data, HasLegacy data d

/-- The document with the id that these bytes get. -/
def rewritten (data : List UInt8) (d : Document V) : Document V := setID (.binary 0x04 data) d

theorem idOf_setID {d : Document V} {v id : Value V} (h : idOf d = some v) :
    idOf (setID id d) = some id := by
  unfold idOf at h ⊢
  induction d with
  | nil => cases h
  | cons field d ih =>
    obtain ⟨key, value⟩ := field
    unfold setID
    by_cases hkey : key = "_id"
    · rw [if_pos hkey, hkey, List.lookup_cons_self]
    · have hne : ("_id" == key) = false := beq_eq_false_iff_ne.2 (Ne.symm hkey)
      rw [List.lookup_cons, hne] at h
      rw [if_neg hkey, List.lookup_cons, hne]
      exact ih h

/-- All other fields are unchanged. -/
theorem setID_other (d : Document V) (id : Value V) :
    (setID id d).filter (fun field => field.1 ≠ "_id") = d.filter fun field => field.1 ≠ "_id" := by
  induction d with
  | nil => rfl
  | cons field d ih =>
    obtain ⟨key, value⟩ := field
    unfold setID
    by_cases hkey : key = "_id"
    · rw [if_pos hkey, List.filter_cons_of_neg (by simp [hkey]),
        List.filter_cons_of_neg (by simp [hkey])]
    · rw [if_neg hkey, List.filter_cons_of_pos (by simp [hkey]),
        List.filter_cons_of_pos (by simp [hkey]), ih]

theorem HasLegacy.rewritten {d : Document V} {data : List UInt8} (h : HasLegacy data d) :
    HasNew data (rewritten data d) := by
  rcases h with h | h
  · exact idOf_setID h
  · exact idOf_setID h

end Documents

section Store

variable {V : Type}

inductive MigOp (V : Type) where
  | find
  | next
  | findOne (id : Value V)
  | insertOne (d : Document V)
  | deleteOne (id : Value V)

/-- What `cursor.Next` comes to: a document, if it can be decoded, or the end, or an error. -/
inductive Next (V : Type) where
  | doc (raw : Option (Document V))
  | done
  | failed

inductive Lookup where
  | found
  | notFound
  | failed
  deriving DecidableEq

abbrev MigSig (V : Type) : Sig where
  Op := MigOp V
  Res
    | .next => Next V
    | .findOne _ => Lookup
    | _ => Bool

/-- A cursor: the documents that were there when it was opened, and the ids of those that it has
given. -/
structure Cursor (V : Type) where
  opened : List (Document V)
  given : List (Option (Value V))

structure MigState (ι V : Type) where
  coll : List (Document V)
  /-- All that has ever been inserted. -/
  inserted : List (Document V)
  cursors : ι → Option (Cursor V)

/-- What becomes of a call: it is carried out, or its answer is lost, or it fails; and a document
may be given, decoded or not. -/
inductive Choice (V : Type) where
  | ok
  | lost
  | failed
  | gives (d : Document V) (decoded : Bool)

variable [DecidableEq V] {ι : Type} [DecidableEq ι]

/-- A document has the id. -/
def has (coll : List (Document V)) (id : Option (Value V)) : Bool := coll.any fun d => idOf d = id

def MigState.opens (s : MigState ι V) (i : ι) : MigState ι V :=
  { s with cursors := Function.update s.cursors i (some ⟨s.coll, []⟩) }

def MigState.gives (s : MigState ι V) (i : ι) (cursor : Cursor V) (d : Document V) : MigState ι V :=
  { s with
    cursors := Function.update s.cursors i (some { cursor with given := idOf d :: cursor.given }) }

def MigState.inserts (s : MigState ι V) (d : Document V) : MigState ι V :=
  { s with coll := s.coll ++ [d], inserted := d :: s.inserted }

def MigState.deletes (s : MigState ι V) (id : Value V) : MigState ι V :=
  { s with coll := s.coll.filter fun d => idOf d ≠ some id }

/-- The store. A cursor gives the documents in batches: one that has been deleted since, or
inserted, may be given. It gives no id twice, and at its end all that it was opened with has been
given or is gone. -/
def migHandler : Handler (MigSig V) ι (MigState ι V) (Choice V) := fun i o c s =>
  match o, c with
  | .find, .ok => some (true, s.opens i)
  | .find, .failed => some (false, s)
  | .next, .gives d decoded =>
    match s.cursors i with
    | none => none
    | some cursor =>
      if (d ∈ cursor.opened ∨ d ∈ s.inserted) ∧ idOf d ∉ cursor.given then
        some (.doc (if decoded then some d else none), s.gives i cursor d)
      else none
  | .next, .ok =>
    match s.cursors i with
    | none => none
    | some cursor =>
      if ∀ d ∈ cursor.opened, idOf d ∈ cursor.given ∨ d ∉ s.coll then some (.done, s) else none
  | .next, .failed => some (.failed, s)
  | .findOne id, .ok => some (if has s.coll (some id) then .found else .notFound, s)
  | .findOne _, .failed => some (.failed, s)
  -- an id is not inserted twice
  | .insertOne d, .ok => some (if has s.coll (idOf d) then (false, s) else (true, s.inserts d))
  | .insertOne d, .lost => some (false, if has s.coll (idOf d) then s else s.inserts d)
  | .insertOne _, .failed => some (false, s)
  | .deleteOne id, .ok => some (true, s.deletes id)
  | .deleteOne id, .lost => some (false, s.deletes id)
  | .deleteOne _, .failed => some (false, s)
  | _, _ => none

/-- A call that has failed, as far as the run can tell. -/
def Fails : (MigSig V).Act → Prop
  | ⟨.find, r⟩ => r = false
  | ⟨.next, r⟩ => r = Next.failed
  | ⟨.findOne _, r⟩ => r = Lookup.failed
  | ⟨.insertOne _, r⟩ => r = false
  | ⟨.deleteOne _, r⟩ => r = false

/-- What a call does, with its answer. -/
inductive Effect (i : ι) (s : MigState ι V) : (MigSig V).Act → MigState ι V → Prop where
  | opens : Effect i s ⟨.find, true⟩ (s.opens i)
  | gives {cursor : Cursor V} {d : Document V} {r : Option (Document V)}
      (hcursor : s.cursors i = some cursor)
      (hd : d ∈ cursor.opened ∨ d ∈ s.inserted) (hnew : idOf d ∉ cursor.given)
      (hr : r = some d ∨ r = none) :
      Effect i s ⟨.next, Next.doc r⟩ (s.gives i cursor d)
  | ends {cursor : Cursor V} (hcursor : s.cursors i = some cursor)
      (hall : ∀ d ∈ cursor.opened, idOf d ∈ cursor.given ∨ d ∉ s.coll) :
      Effect i s ⟨.next, Next.done⟩ s
  | looks {id : Value V} {r : Lookup} (hr : r = if has s.coll (some id) then .found
      else .notFound) : Effect i s ⟨.findOne id, r⟩ s
  | inserts {d : Document V} (r : Bool) (hnew : has s.coll (idOf d) = false) : Effect i s
      ⟨.insertOne d, r⟩ (s.inserts d)
  | deletes (id : Value V) (r : Bool) : Effect i s ⟨.deleteOne id, r⟩ (s.deletes id)
  | fails {x : (MigSig V).Act} (hx : Fails x) : Effect i s x s

variable {i : ι} {o : MigOp V} {c : Choice V} {s s' : MigState ι V} {r : (MigSig V).Res o}

/-- **What a call can do.** -/
theorem effect (h : migHandler i o c s = some (r, s')) : Effect i s ⟨o, r⟩ s' := by
  cases o with
  | find =>
    cases c with
    | ok =>
      cases h
      exact .opens
    | failed =>
      cases h
      exact .fails rfl
    | lost => cases h
    | gives d decoded => cases h
  -- a result of the cursor: one document not yet seen, or its end once all were seen
  | next =>
    cases c with
    | ok =>
      dsimp only [migHandler] at h
      split at h
      · cases h
      · rename_i cursor hcursor
        split at h
        · rename_i hall
          cases h
          exact .ends hcursor hall
        · cases h
    | failed =>
      cases h
      exact .fails rfl
    | lost => cases h
    | gives d decoded =>
      dsimp only [migHandler] at h
      split at h
      · cases h
      · rename_i cursor hcursor
        split at h
        · rename_i hd
          cases h
          refine .gives hcursor hd.1 hd.2 ?_
          -- the document that does not decode is logged and passed over
          cases decoded
          · exact .inr rfl
          · exact .inl rfl
        · cases h
  | findOne id =>
    cases c with
    | ok =>
      cases h
      exact .looks rfl
    | failed =>
      cases h
      exact .fails rfl
    | lost => cases h
    | gives d decoded => cases h
  -- a write that is lost on the way back took effect: only its answer differs
  | insertOne d =>
    cases c with
    | ok =>
      dsimp only [migHandler] at h
      cases hhas : has s.coll (idOf d) with
      | true =>
        rw [hhas] at h
        cases h
        exact .fails rfl
      | false =>
        rw [hhas] at h
        cases h
        exact .inserts true hhas
    | lost =>
      dsimp only [migHandler] at h
      cases hhas : has s.coll (idOf d) with
      | true =>
        rw [hhas] at h
        cases h
        exact .fails rfl
      | false =>
        rw [hhas] at h
        cases h
        exact .inserts false hhas
    | failed =>
      cases h
      exact .fails rfl
    | gives d decoded => cases h
  -- the same of a deletion, which needs no document to be there
  | deleteOne id =>
    cases c with
    | ok =>
      cases h
      exact .deletes id true
    | lost =>
      cases h
      exact .deletes id false
    | failed =>
      cases h
      exact .fails rfl
    | gives d decoded => cases h

/-- A document has the id. -/
theorem has_iff {coll : List (Document V)} {id : Option (Value V)} :
    has coll id = true ↔ ∃ d ∈ coll, idOf d = id := by
  unfold has
  rw [List.any_eq_true]
  simp only [decide_eq_true_eq]

end Store

section Code

variable {V : Type}

structure Stats where
  scanned : ℕ := 0
  migrated : ℕ := 0
  skipped : ℕ := 0
  failed : ℕ := 0
  deriving DecidableEq

inductive MigErr where
  | find
  | cursor
  | unmarshal
  | check
  | insert
  | delete
  | deleteAfterPartial
  deriving DecidableEq

abbrev step (o : MigOp V) : Prog (MigSig V) ((MigSig V).Res o) := Prog.op (S := MigSig V) o

/-- `rewriteIDSubtype`, with the documents that `bson.Unmarshal` reads. -/
def rewriteIDSubtype (readable : Document V → Bool) (raw : Document V) (oldSubtype : UInt8)
    (idBytes : List UInt8) :
    Prog (MigSig V) (Except MigErr Unit) := do
  if readable raw = false then return .error .unmarshal
  else
    let newID : Value V := .binary 0x04 idBytes
    let oldID : Value V := .binary oldSubtype idBytes
    let doc := setID newID raw
    match (← step (.findOne newID) : Lookup) with
    | .found =>
      -- a run before this one was interrupted
      let deleted : Bool ← step (.deleteOne oldID)
      if deleted then return .ok () else return .error .deleteAfterPartial
    | .failed => return .error .check
    | .notFound =>
      let inserted : Bool ← step (.insertOne doc)
      if inserted then
        let deleted : Bool ← step (.deleteOne oldID)
        if deleted then return .ok () else return .error .delete
      else return .error .insert

/-- What a document counts as. -/
inductive Outcome where
  | migrated
  | skipped
  | failed
  deriving DecidableEq

def Stats.count (stats : Stats) : Outcome → Stats
  | .migrated => { stats with scanned := stats.scanned + 1, migrated := stats.migrated + 1 }
  | .skipped => { stats with scanned := stats.scanned + 1, skipped := stats.skipped + 1 }
  | .failed => { stats with scanned := stats.scanned + 1, failed := stats.failed + 1 }

/-- The body of the loop, for a document that is decoded or not. -/
def treat (readable : Document V → Bool) : Option (Document V) → Prog (MigSig V) Outcome
  | none => return .failed
  | some raw =>
    match idOf raw with
    | some (.binary subtype data) =>
      if subtype = 0x04 then return .skipped
      else if subtype ≠ 0x00 ∧ subtype ≠ 0x03 then return .skipped
      else do
        match ← rewriteIDSubtype readable raw subtype data with
        | .error _ => return .failed
        | .ok _ => return .migrated
    | _ => return .skipped

/-- The loop over the cursor, with so many rounds; none if there are more. -/
def scan (readable : Document V → Bool) :
    ℕ → Stats → Prog (MigSig V) (Option (Stats × Option MigErr))
  | 0, _ => return none
  | rounds + 1, stats => do
    match (← step .next : Next V) with
    | .done => return some (stats, none)
    | .failed => return some (stats, some .cursor)
    | .doc raw => do
      let outcome ← treat readable raw
      scan readable rounds (stats.count outcome)

/-- `MigrateSubscriptionUUIDSubtype`. -/
def migrate (readable : Document V → Bool) (rounds : ℕ) :
    Prog (MigSig V) (Option (Stats × Option MigErr)) := do
  let opened : Bool ← step .find
  if opened then scan readable rounds {} else return some ({}, some .find)

end Code

section Knowledge

variable {V : Type} {readable : Document V → Bool} {l : List (MigSig V).Act} {raw : Document V}
  {subtype : UInt8} {data : List UInt8} {stats : Stats}

/-- The run has seen that there is a document with the new id, or has inserted one. -/
def Knows (l : List (MigSig V).Act) (data : List UInt8) : Prop :=
  (⟨.findOne (.binary 0x04 data), Lookup.found⟩ : (MigSig V).Act) ∈ l ∨
    ∃ d, HasNew data d ∧ (⟨.insertOne d, true⟩ : (MigSig V).Act) ∈ l

/-- A run inserts what it has rewritten, and deletes an old id when there is a new one. -/
def Allowed (l : List (MigSig V).Act) : MigOp V → Prop
  | .insertOne d =>
    ∃ raw data, (⟨.next, Next.doc (some raw)⟩ : (MigSig V).Act) ∈ l ∧ HasLegacy data raw ∧
      d = rewritten data raw
  | .deleteOne id =>
    ∃ subtype data, id = .binary subtype data ∧ (subtype = 0x00 ∨ subtype = 0x03) ∧ Knows l data
  | _ => True

/-- Each document that the cursor has given is counted once more. -/
def Balanced (stats : Stats) : Prop := stats.scanned = stats.migrated + stats.skipped + stats.failed

/-- What a run reports is balanced. -/
def Reports : Option (Stats × Option MigErr) → Prop
  | some (stats, _) => Balanced stats
  | none => True

theorem legacy_of {subtype : UInt8} (hid : idOf raw = some (.binary subtype data))
    (hsub : subtype = 0x00 ∨ subtype = 0x03) :
    HasLegacy data raw := by
  rcases hsub with rfl | rfl
  · exact .inl hid
  · exact .inr hid

theorem not_legacy (h : ∀ subtype data, idOf raw = some (.binary subtype data) →
    ¬ (subtype = 0x00 ∨ subtype = 0x03)) :
    ¬ Legacy raw := by
  rintro ⟨data, hid | hid⟩
  · exact h _ _ hid (.inl rfl)
  · exact h _ _ hid (.inr rfl)

theorem rewrite_meets (hraw : (⟨.next, Next.doc (some raw)⟩ : (MigSig V).Act) ∈ l)
    (hid : idOf raw = some (.binary subtype data)) (hsub : subtype = 0x00 ∨ subtype = 0x03) :
    Meets Allowed (fun _ _ => True) (rewriteIDSubtype readable raw subtype data) l := by
  unfold rewriteIDSubtype
  split
  · trivial
  · refine ⟨trivial, fun r => ?_⟩
    cases r with
    | failed => trivial
    | found =>
      refine ⟨⟨subtype, data, rfl, hsub, .inl (by simp)⟩, fun deleted => ?_⟩
      cases deleted <;> trivial
    | notFound =>
      refine ⟨⟨raw, data, List.mem_append_left _ hraw, legacy_of hid hsub, rfl⟩, fun inserted => ?_⟩
      cases inserted with
      | false => trivial
      | true =>
        refine ⟨⟨subtype, data, rfl, hsub, .inr ⟨_, (legacy_of hid hsub).rewritten, ?_⟩⟩,
          fun deleted => ?_⟩
        · exact List.mem_append_right _ (List.mem_singleton_self _)
        · cases deleted <;> trivial

/-- The outcome of a rewriting. -/
def rewriteOutcome : Except MigErr Unit → Outcome
  | .error _ => .failed
  | .ok _ => .migrated

/-- **The body of the loop** skips a document, or rewrites it. -/
theorem treat_cases (readable : Document V → Bool) (raw : Document V) :
    (¬ Legacy raw ∧ treat readable (some raw) = pure .skipped) ∨
      ∃ subtype data, idOf raw = some (.binary subtype data) ∧ (subtype = 0x00 ∨ subtype = 0x03) ∧
        treat readable (some raw) = (rewriteIDSubtype readable raw subtype data).bind fun r =>
          .pure (rewriteOutcome r) := by
  cases hid : idOf raw with
  | none =>
    refine .inl ⟨not_legacy fun subtype data h => ?_, ?_⟩
    · rw [hid] at h
      cases h
    · unfold treat
      dsimp only
      rw [hid]
  | some id =>
    cases id with
    | other v =>
      refine .inl ⟨not_legacy fun subtype data h => ?_, ?_⟩
      · rw [hid] at h
        cases h
      · unfold treat
        dsimp only
        rw [hid]
    | binary subtype data =>
      by_cases hsub : subtype = 0x00 ∨ subtype = 0x03
      · refine .inr ⟨subtype, data, rfl, hsub, ?_⟩
        have hnew : subtype ≠ 0x04 := by
          rcases hsub with rfl | rfl <;> decide
        unfold treat
        dsimp only
        rw [hid]
        dsimp only
        rw [if_neg hnew, if_neg fun h => hsub.elim h.1 h.2]
        refine congrArg (Prog.bind _) (funext fun r => ?_)
        cases r <;> rfl
      · refine .inl ⟨not_legacy fun subtype' data' h => ?_, ?_⟩
        · rw [hid] at h
          cases h
          exact hsub
        · unfold treat
          dsimp only
          rw [hid]
          dsimp only
          rw [if_pos (not_or.1 hsub), ite_self]

theorem treat_meets {raw : Option (Document V)}
    (hraw : (⟨.next, Next.doc raw⟩ : (MigSig V).Act) ∈ l) :
    Meets Allowed (fun _ _ => True) (treat readable raw) l := by
  cases raw with
  | none => trivial
  | some raw =>
    rcases treat_cases readable raw with ⟨-, heq⟩ | ⟨subtype, data, hid, hsub, heq⟩
    · rw [heq]
      trivial
    · rw [heq]
      exact meets_bind (rewrite_meets hraw hid hsub) fun _ _ _ _ => trivial

theorem Balanced.count (h : Balanced stats) (o : Outcome) : Balanced (stats.count o) := by
  unfold Balanced at h ⊢
  cases o with
  | migrated =>
    dsimp only [Stats.count]
    omega
  | skipped =>
    dsimp only [Stats.count]
    omega
  | failed =>
    dsimp only [Stats.count]
    omega

theorem scan_meets (rounds : ℕ) (hstats : Balanced stats) :
    Meets Allowed (fun _ => Reports) (scan readable rounds stats) l := by
  induction rounds generalizing stats l with
  | zero => trivial
  | succ rounds ih =>
    refine ⟨trivial, fun r => ?_⟩
    cases r with
    | done => exact hstats
    | failed => exact hstats
    | doc raw =>
      show Meets Allowed (fun _ => Reports)
        ((treat readable raw).bind fun o => scan readable rounds (stats.count o)) _
      exact meets_bind (treat_meets (List.mem_append_right _ (List.mem_singleton_self _)))
        fun _ o _ _ => ih (hstats.count o)

/-- **What a run knows**, and what it reports. -/
theorem migrate_meets (readable : Document V → Bool) (rounds : ℕ) :
    Meets Allowed (fun _ => Reports) (migrate readable rounds) [] := by
  refine ⟨trivial, fun opened => ?_⟩
  cases opened with
  | false => exact rfl
  | true => exact scan_meets rounds rfl

end Knowledge

end ModDNS.Subscriptions.Migration
