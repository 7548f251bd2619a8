import Mathlib.Data.List.Nodup
import ModDNS.Data.Folds
import ModDNS.QueryLogs.Model

/-!
# Delivery of the query logs

The collector keeps events back until a batch is full or a tick comes, and hands them to the
emitter. The emitter inserts a batch into one collection after the other, and gives up at the first
insert that fails.

* `runs_deliver_iff`: the runs in which nothing is lost but what could not be inserted.
-/

namespace ModDNS.Collector.Delivery

open Data QueryLogs

variable {Log : Type}

structure EventQueryLog (Log : Type) where
  queryLog : Log
  retention : String

/-- What the store does with a batch: the order in which the map of the collections is ranged over,
which inserts fail, and what a failing one has stored nevertheless. -/
structure Store (Log : Type) where
  order : List Collection
  perm : order.Perm collections
  fails : Collection → Bool
  keeps : Collection → List Log → List Log
  sublist : ∀ c docs, (keeps c docs).Sublist docs

/-- A call of `InsertMany`. -/
structure Insert (Log : Type) where
  collection : Collection
  stored : List Log
  failed : Bool

/-- The documents of a batch for a collection. Those of an unknown retention are for none. -/
def docs (batch : List (EventQueryLog Log)) (c : Collection) : List Log :=
  (batch.filter fun e => queryLogsCollections e.retention = some c).map (·.queryLog)

/-- The loop over the map: an insert that fails ends it. -/
def insertLoop (store : Store Log) (docs : Collection → List Log) :
    List Collection → List (Insert Log)
  | [] => []
  | c :: cs =>
    if (docs c).length > 0 then
      if store.fails c then [⟨c, store.keeps c (docs c), true⟩]
      else ⟨c, docs c, false⟩ :: insertLoop store docs cs
    else insertLoop store docs cs

def insertBatch (store : Store Log) (batch : List (EventQueryLog Log)) : List (Insert Log) :=
  insertLoop store (docs batch) store.order

/-- The variables of `Collect`, what it has received, and the batches that it has handed over with
the inserts made of them. -/
structure QueryLogsCollector (Log : Type) where
  queryLogsToEmit : List (EventQueryLog Log)
  counter : ℤ
  stopped : Bool
  received : List (EventQueryLog Log)
  emitted : List (List (EventQueryLog Log) × List (Insert Log))

/-- What `Collect` selects, and the store at that time. -/
inductive Input (Log : Type) where
  | event (event : EventQueryLog Log) (store : Store Log)
  | closed
  | tick (store : Store Log)
  | stop

namespace QueryLogsCollector

def initial : QueryLogsCollector Log := ⟨[], 0, false, [], []⟩

def emit (s : QueryLogsCollector Log) (store : Store Log) : QueryLogsCollector Log :=
  { s with
    queryLogsToEmit := []
    counter := 0
    emitted := s.emitted ++ [(s.queryLogsToEmit, insertBatch store s.queryLogsToEmit)] }

def receive (s : QueryLogsCollector Log) (event : EventQueryLog Log) : QueryLogsCollector Log :=
  { s with
    queryLogsToEmit := s.queryLogsToEmit ++ [event]
    counter := s.counter + 1
    received := s.received ++ [event] }

/-- A round of `Collect`. After the stop there are no more. -/
def step (batchSize : ℤ) (s : QueryLogsCollector Log) (i : Input Log) : QueryLogsCollector Log :=
  if s.stopped then s
  else match i with
    | .event event store =>
      if (s.receive event).counter = batchSize then (s.receive event).emit store
      else s.receive event
    | .closed => s
    | .tick store => if s.queryLogsToEmit.length > 0 then s.emit store else s
    | .stop => { s with stopped := true }

def run (batchSize : ℤ) (inputs : List (Input Log)) : QueryLogsCollector Log :=
  inputs.foldl (step batchSize) initial

end QueryLogsCollector

/-- What a collection has got from some inserts. -/
def storedIn (c : Collection) (inserts : List (Insert Log)) : List Log :=
  (inserts.filter (·.collection = c)).flatMap (·.stored)

/-- What a collection has got. -/
def QueryLogsCollector.stored (s : QueryLogsCollector Log) (c : Collection) : List Log :=
  s.emitted.flatMap fun x => storedIn c x.2

/-- All documents for a collection have been stored, or an insert into it has failed. -/
def Settled (docs : Collection → List Log) (inserts : List (Insert Log)) (c : Collection) : Prop :=
  storedIn c inserts = docs c ∨ ∃ i ∈ inserts, i.collection = c ∧ i.failed = true

/-- Every event is handed over once and in order, or waits; no batch is too large; nothing waits
after the stop. A collection gets the events of its retention, each at most once, and all of them
unless an insert into it fails. -/
structure Delivered (batchSize : ℤ) (s : QueryLogsCollector Log) : Prop where
  order : (s.emitted.map Prod.fst).flatten ++ s.queryLogsToEmit = s.received
  size : ∀ x ∈ s.emitted, (x.1.length : ℤ) ≤ batchSize
  stopped : s.stopped = true → s.queryLogsToEmit = []
  stored : ∀ c, (s.stored c).Sublist (docs s.received c)
  settled : ∀ x ∈ s.emitted, ∀ e ∈ x.1, ∃ c, queryLogsCollections e.retention = some c ∧
    Settled (docs x.1) x.2 c

section Inserts

variable {store : Store Log} {batch : List (EventQueryLog Log)} {cs : List Collection}
  {c : Collection}

theorem storedIn_cons (i : Insert Log) (inserts : List (Insert Log)) :
    storedIn c (i :: inserts) = (if i.collection = c then i.stored else []) ++
      storedIn c inserts := by
  unfold storedIn
  rw [List.filter_cons]
  by_cases h : i.collection = c <;> simp [h]

theorem mem_insertLoop {docs : Collection → List Log} {i : Insert Log}
    (h : i ∈ insertLoop store docs cs) :
    i.collection ∈ cs ∧ i.stored.Sublist (docs i.collection) := by
  induction cs with
  | nil => cases h
  | cons c cs ih =>
    rw [insertLoop] at h
    split at h
    · split at h
      · rw [List.mem_singleton.1 h]
        exact ⟨List.mem_cons_self, store.sublist _ _⟩
      · rcases List.mem_cons.1 h with rfl | h
        · exact ⟨List.mem_cons_self, List.Sublist.refl _⟩
        · exact ⟨List.mem_cons_of_mem _ (ih h).1, (ih h).2⟩
    · exact ⟨List.mem_cons_of_mem _ (ih h).1, (ih h).2⟩

theorem storedIn_of_notMem {docs : Collection → List Log} (h : c ∉ cs) :
    storedIn c (insertLoop store docs cs) = [] := by
  have hnone : (insertLoop store docs cs).filter (·.collection = c) = [] := by
    refine List.filter_eq_nil_iff.2 fun i hi heq => h ?_
    rw [← of_decide_eq_true heq]
    exact (mem_insertLoop hi).1
  rw [storedIn, hnone]
  rfl

/-- A collection gets some of its documents. -/
theorem storedIn_sublist {docs : Collection → List Log} (h : cs.Nodup) :
    (storedIn c (insertLoop store docs cs)).Sublist (docs c) := by
  induction cs with
  | nil => exact List.nil_sublist _
  | cons c' cs ih =>
    obtain ⟨hnew, hnodup⟩ := List.nodup_cons.1 h
    rw [insertLoop]
    split
    · split
      · rw [storedIn_cons]
        split
        · next heq =>
          obtain rfl := heq
          have hkeeps := store.sublist c' (docs c')
          rwa [← List.append_nil (store.keeps c' (docs c'))] at hkeeps
        · exact List.nil_sublist _
      · rw [storedIn_cons]
        split
        · next heq =>
          obtain rfl := heq
          rw [storedIn_of_notMem hnew, List.append_nil]
        · exact ih hnodup
    · exact ih hnodup

/-- No insert that fails comes before another one. -/
def LastFails (store : Store Log) (docs : Collection → List Log) (cs : List Collection) : Prop :=
  cs.Pairwise fun c c' => ¬ (docs c ≠ [] ∧ store.fails c = true ∧ docs c' ≠ [])

theorem settled_cons {docs : Collection → List Log} {i : Insert Log} {inserts : List (Insert Log)}
    (hok : i.failed = false) (hother : i.collection ≠ c) :
    Settled docs (i :: inserts) c ↔ Settled docs inserts c := by
  unfold Settled
  rw [storedIn_cons, if_neg hother, List.nil_append]
  refine or_congr_right ⟨?_, fun ⟨j, hj, hboth⟩ => ⟨j, List.mem_cons_of_mem _ hj, hboth⟩⟩
  rintro ⟨j, hj, hc, hfailed⟩
  rcases List.mem_cons.1 hj with rfl | hj
  · rw [hok] at hfailed
    cases hfailed
  · exact ⟨j, hj, hc, hfailed⟩

/-- **What an insert loses**: nothing without an error of its own, as long as only the last insert
fails. -/
theorem insertLoop_iff {docs : Collection → List Log} (h : cs.Nodup) :
    (∀ c ∈ cs, Settled docs (insertLoop store docs cs) c) ↔ LastFails store docs cs := by
  induction cs with
  | nil => exact iff_of_true (List.forall_mem_nil _) List.Pairwise.nil
  | cons c cs ih =>
    obtain ⟨hnew, hnodup⟩ := List.nodup_cons.1 h
    have hne : ∀ c' ∈ cs, c ≠ c' := fun c' hc' heq => hnew (heq ▸ hc')
    unfold LastFails at ih ⊢
    rw [List.pairwise_cons, List.forall_mem_cons, insertLoop]
    by_cases hdocs : (docs c).length > 0
    · have hsome : docs c ≠ [] := List.length_pos_iff.1 hdocs
      rw [if_pos hdocs]
      by_cases hfails : store.fails c = true
      · rw [if_pos hfails]
        have hnone : ∀ c' ∈ cs, Settled docs [⟨c, store.keeps c (docs c), true⟩] c' ↔
            docs c' = [] := by
          intro c' hc'
          unfold Settled
          rw [storedIn_cons, if_neg (hne c' hc')]
          refine ⟨?_, fun hempty => .inl hempty.symm⟩
          rintro (hempty | ⟨i, hi, hc, -⟩)
          · exact hempty.symm
          · rw [List.mem_singleton.1 hi] at hc
            exact absurd hc (hne c' hc')
        constructor
        · rintro ⟨-, hempty⟩
          refine ⟨fun c' hc' hbad => hbad.2.2 ((hnone c' hc').1 (hempty c' hc')), ?_⟩
          exact List.pairwise_of_forall_mem_list fun c₁ hc₁ _ _ hbad =>
            hbad.1 ((hnone c₁ hc₁).1 (hempty c₁ hc₁))
        · rintro ⟨hlast, -⟩
          refine ⟨.inr ⟨_, List.mem_singleton_self _, rfl, rfl⟩, fun c' hc' => (hnone c' hc').2 ?_⟩
          by_contra hmore
          exact hlast c' hc' ⟨hsome, hfails, hmore⟩
      · rw [if_neg hfails, ← ih hnodup]
        refine and_congr (iff_of_true (.inl ?_) fun c' _ hbad => hfails hbad.2.1) ?_
        · rw [storedIn_cons, if_pos rfl, storedIn_of_notMem hnew, List.append_nil]
        · exact forall₂_congr fun c' hc' => settled_cons rfl (hne c' hc')
    · have hnone : docs c = [] := List.length_eq_zero_iff.1 (Nat.eq_zero_of_not_pos hdocs)
      rw [if_neg hdocs, ← ih hnodup]
      refine and_congr (iff_of_true (.inl ?_) fun c' _ hbad => hbad.1 hnone) Iff.rfl
      rw [storedIn_of_notMem hnew, hnone]

end Inserts

section Runs

variable {s : QueryLogsCollector Log} {batchSize : ℤ} {store : Store Log}
  {batch : List (EventQueryLog Log)} {i : Input Log} {inputs : List (Input Log)}

/-- The store loses nothing of the batch without an error of its own: all its retentions are known,
and no insert that fails comes before another one. -/
def LosesNothing (store : Store Log) (batch : List (EventQueryLog Log)) : Prop :=
  (∀ e ∈ batch, ∃ c, queryLogsCollections e.retention = some c) ∧
    LastFails store (docs batch) store.order

/-- What a round has to meet: a batch is handed over to a store that loses nothing of it, and at the
stop nothing waits. A batch that a tick hands over has to be within a size that there is. -/
def Meets (batchSize : ℤ) (s : QueryLogsCollector Log) (i : Input Log) : Prop :=
  s.stopped = true ∨
    match i with
    | .event event store =>
      s.counter + 1 = batchSize → LosesNothing store (s.queryLogsToEmit ++ [event])
    | .closed => True
    | .tick store => s.queryLogsToEmit ≠ [] → 1 ≤ batchSize ∧ LosesNothing store s.queryLogsToEmit
    | .stop => s.queryLogsToEmit = []

/-- What holds in every state: the counter is right, and what has been handed over and what waits
make what has been received. -/
structure Inv (s : QueryLogsCollector Log) : Prop where
  counter : s.counter = s.queryLogsToEmit.length
  order : (s.emitted.map Prod.fst).flatten ++ s.queryLogsToEmit = s.received
  stored : ∀ c, (s.stored c).Sublist (docs (s.emitted.map Prod.fst).flatten c)

/-- The batch is not full. -/
def Room (batchSize : ℤ) (s : QueryLogsCollector Log) : Prop :=
  1 ≤ batchSize → s.counter < batchSize

theorem docs_append (batch batch' : List (EventQueryLog Log)) (c : Collection) :
    docs (batch ++ batch') c = docs batch c ++ docs batch' c := by
  rw [docs, List.filter_append, List.map_append]
  rfl

theorem Store.nodup (store : Store Log) : store.order.Nodup := store.perm.nodup_iff.2 (by decide)

theorem Store.mem_order (store : Store Log) (c : Collection) : c ∈ store.order :=
  store.perm.mem_iff.2 (by cases c <;> decide)

/-- **What a batch loses.** -/
theorem losesNothing_iff :
    (∀ e ∈ batch, ∃ c, queryLogsCollections e.retention = some c ∧
      Settled (docs batch) (insertBatch store batch) c) ↔
      LosesNothing store batch := by
  rw [LosesNothing, ← insertLoop_iff store.nodup]
  constructor
  · intro h
    refine ⟨fun e he => (h e he).imp fun _ hc => hc.1, fun c _ => ?_⟩
    cases hdocs : docs batch c with
    | nil =>
      refine .inl ?_
      have hsub := @storedIn_sublist _ store _ c (docs batch) store.nodup
      rw [hdocs, List.sublist_nil] at hsub
      rw [hsub, hdocs]
    | cons doc rest =>
      have hdoc : doc ∈ docs batch c := hdocs ▸ List.mem_cons_self
      obtain ⟨e, he, -⟩ := List.mem_map.1 hdoc
      obtain ⟨hbatch, hown⟩ := List.mem_filter.1 he
      obtain ⟨c', hc', hsettled⟩ := h e hbatch
      obtain rfl := Option.some.inj ((of_decide_eq_true hown).symm.trans hc')
      exact hsettled
  · rintro ⟨hknown, hsettled⟩ e he
    obtain ⟨c, hc⟩ := hknown e he
    exact ⟨c, hc, hsettled c (store.mem_order c)⟩

theorem Inv.receive (h : Inv s) (event : EventQueryLog Log) : Inv (s.receive event) := by
  obtain ⟨hcounter, horder, hstored⟩ := h
  refine ⟨?_, ?_, hstored⟩
  · simp only [QueryLogsCollector.receive, hcounter, List.length_append, List.length_singleton]
    omega
  · simp only [QueryLogsCollector.receive, ← horder, List.append_assoc]

theorem Inv.emit (h : Inv s) (store : Store Log) : Inv (s.emit store) := by
  obtain ⟨hcounter, horder, hstored⟩ := h
  refine ⟨rfl, ?_, fun c => ?_⟩
  · simp only [QueryLogsCollector.emit, ← horder, List.map_append, List.flatten_append,
      List.map_cons, List.map_nil,
      List.flatten_singleton, List.append_nil]
  · simp only [QueryLogsCollector.emit, QueryLogsCollector.stored, List.map_append,
      List.flatten_append, List.map_cons,
      List.map_nil, List.flatten_singleton, List.flatMap_append,
      List.flatMap_singleton, docs_append]
    exact (hstored c).append (storedIn_sublist store.nodup)

theorem Inv.step (h : Inv s) (i : Input Log) : Inv (s.step batchSize i) := by
  unfold QueryLogsCollector.step
  split
  · exact h
  cases i with
  | event event store =>
    dsimp only
    split
    · exact (h.receive event).emit store
    · exact h.receive event
  | closed => exact h
  | tick store =>
    dsimp only
    split
    · exact h.emit store
    · exact h
  | stop => exact ⟨h.counter, h.order, h.stored⟩

theorem Room.step (h : Room batchSize s) (i : Input Log) : Room batchSize (s.step batchSize i) := by
  intro hsize
  have hroom := h hsize
  unfold QueryLogsCollector.step
  split
  · exact hroom
  cases i with
  | event event store =>
    dsimp only
    split
    · exact hsize
    · next hless =>
      change s.counter + 1 < batchSize
      change ¬ s.counter + 1 = batchSize at hless
      omega
  | closed => exact hroom
  | tick store =>
    dsimp only
    split
    · exact hsize
    · exact hroom
  | stop => exact hroom

/-- What does not hold in every state anyway. -/
theorem Inv.delivered_iff (h : Inv s) : Delivered batchSize s ↔
    (∀ x ∈ s.emitted, (x.1.length : ℤ) ≤ batchSize) ∧ (s.stopped = true → s.queryLogsToEmit = []) ∧
      ∀ x ∈ s.emitted, ∀ e ∈ x.1, ∃ c, queryLogsCollections e.retention = some c ∧
        Settled (docs x.1) x.2 c := by
  refine ⟨fun hd => ⟨hd.size, hd.stopped, hd.settled⟩, fun ⟨hsize, hstopped, hsettled⟩ => ?_⟩
  refine ⟨h.order, hsize, hstopped, fun c => ?_, hsettled⟩
  rw [← h.order, docs_append]
  exact (h.stored c).trans (List.sublist_append_left _ _)

/-- **A batch is handed over** as it should be if it is not too large and the store loses nothing of
it. -/
theorem delivered_emit (hinv : Inv s) (h : Delivered batchSize s) (store : Store Log) :
    Delivered batchSize (s.emit store) ↔
      (s.queryLogsToEmit.length : ℤ) ≤ batchSize ∧ LosesNothing store s.queryLogsToEmit := by
  have hempty : (s.emit store).stopped = true → (s.emit store).queryLogsToEmit = [] := fun _ => rfl
  rw [(hinv.emit store).delivered_iff, ← losesNothing_iff]
  simp only [QueryLogsCollector.emit, List.forall_mem_append, List.forall_mem_singleton,
    and_iff_right h.size,
    and_iff_right h.settled]
  tauto

theorem delivered_receive (hinv : Inv s) (h : Delivered batchSize s) (hopen : ¬ s.stopped = true)
    (event : EventQueryLog Log) : Delivered batchSize (s.receive event) :=
  (hinv.receive event).delivered_iff.2 ⟨h.size, fun hstopped => absurd hstopped hopen, h.settled⟩

/-- **One round.** -/
theorem delivered_step (hinv : Inv s) (hroom : Room batchSize s) (h : Delivered batchSize s)
    (i : Input Log) :
    Delivered batchSize (s.step batchSize i) ↔ Meets batchSize s i := by
  unfold QueryLogsCollector.step Meets
  split
  · next hstopped => exact iff_of_true h (.inl hstopped)
  next hopen =>
  rw [or_iff_right hopen]
  cases i with
  -- a full batch is sent with the event that fills it
  | event event store =>
    dsimp only
    split
    · next hfull =>
      change s.counter + 1 = batchSize at hfull
      have hlength : ((s.receive event).queryLogsToEmit.length : ℤ) ≤ batchSize := by
        rw [← (hinv.receive event).counter, ← hfull]
        exact le_refl _
      rw [delivered_emit (hinv.receive event) (delivered_receive hinv h hopen event),
        and_iff_right hlength]
      exact ⟨fun hloses _ => hloses, fun hloses => hloses hfull⟩
    · next hless =>
      exact iff_of_true (delivered_receive hinv h hopen event) fun hfull => absurd hfull hless
  | closed => exact iff_of_true h trivial
  -- a tick sends what waits, however little
  | tick store =>
    dsimp only
    split
    · next hwaits =>
      have hne := List.length_pos_iff.1 hwaits
      have hcounter := hinv.counter
      have hlength : (s.queryLogsToEmit.length : ℤ) ≤ batchSize ↔ 1 ≤ batchSize := by
        constructor
        · omega
        · intro hsize
          have hless := hroom hsize
          omega
      rw [delivered_emit hinv h, hlength]
      exact ⟨fun hboth _ => hboth, fun hboth => hboth hne⟩
    · next hempty => exact iff_of_true h fun hne => absurd (List.length_pos_iff.2 hne) hempty
  -- what waits at the stop is not sent any more
  | stop =>
    have hstop : Inv { s with stopped := true } := ⟨hinv.counter, hinv.order, hinv.stored⟩
    refine hstop.delivered_iff.trans ?_
    exact ⟨fun hd => hd.2.1 rfl, fun hempty => ⟨h.size, fun _ => hempty, h.settled⟩⟩

theorem inv_initial : Inv (QueryLogsCollector.initial : QueryLogsCollector Log) :=
  ⟨rfl, rfl, fun _ => List.Sublist.refl _⟩

/-- **Which runs deliver everything**: those in which every batch goes to a store that loses nothing
of it, and nothing waits at the stop. -/
theorem runs_deliver_iff (batchSize : ℤ) (inputs : List (Input Log)) :
    (∀ before, before <+: inputs → Delivered batchSize (QueryLogsCollector.run batchSize before)) ↔
      ∀ before i, before ++ [i] <+: inputs → Meets batchSize
        (QueryLogsCollector.run batchSize before) i := by
  have hkept : ∀ (s : QueryLogsCollector Log) i, Inv s ∧ Room batchSize s →
      Inv (s.step batchSize i) ∧ Room batchSize (s.step batchSize i) := fun s i h =>
        ⟨h.1.step i, h.2.step i⟩
  have hempty : Delivered batchSize (QueryLogsCollector.initial : QueryLogsCollector Log) :=
    inv_initial.delivered_iff.2 ⟨List.forall_mem_nil _, fun _ => rfl, List.forall_mem_nil _⟩
  exact prefixes_iff hkept ⟨inv_initial, fun hsize => hsize⟩ hempty
    (fun s i h hd => delivered_step h.1 h.2 hd i) inputs

end Runs

section Examples

/-- A store whose inserts for an hour fail, and store nothing. -/
def hourFails : Store ℕ where
  order := collections
  perm := List.Perm.refl _
  fails := fun c => c = .oneHour
  keeps := fun _ _ => []
  sublist := fun _ _ => List.nil_sublist _

/-- An event that waits at the stop is lost, and so is one whose collection comes after an insert
that fails. -/
theorem waits_and_aborted :
    ¬ Delivered 100 (QueryLogsCollector.run 100 [.event ⟨0, "6h"⟩ hourFails, .stop]) ∧
      ¬ Delivered 2
        (QueryLogsCollector.run 2 [.event ⟨0, "1h"⟩ hourFails, .event ⟨1, "6h"⟩ hourFails]) := by
  constructor
  · exact fun h => absurd (h.stopped rfl) (List.cons_ne_nil _ _)
  · intro h
    have hmem : ([⟨0, "1h"⟩, ⟨1, "6h"⟩], [⟨.oneHour, [], true⟩]) ∈
        (QueryLogsCollector.run 2 [.event ⟨0, "1h"⟩ hourFails,
          .event ⟨1, "6h"⟩ hourFails]).emitted := List.mem_cons_self
    obtain ⟨c, hc, hsettled⟩ :=
      h.settled _ hmem ⟨1, "6h"⟩ (List.mem_cons_of_mem _ List.mem_cons_self)
    obtain rfl := Option.some.inj hc
    rcases hsettled with hstored | ⟨i, hi, hsame, -⟩
    · exact absurd hstored (by decide)
    · rw [List.mem_singleton.1 hi] at hsame
      cases hsame

end Examples

end ModDNS.Collector.Delivery
