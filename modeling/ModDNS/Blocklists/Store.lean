import ModDNS.Blocklists.Adguard
import ModDNS.Conc.Flow
import ModDNS.Data.Chunks
import Mathlib.Data.Finset.Dedup
import Mathlib.Logic.Function.Basic

/-!
# The stores of the blocklist service

The calls of an update, and what they do to the collections and to Redis. Every repository call and
every Redis command is one atomic action; the commands of a pipeline are actions of their own, and
so are the documents of a `DeleteMany`. Before each of them time may pass, and each may fail, with
or without effect.

* `Trail`: the stores that a list of actions may lead to.
* `trail_exec`, `trail_run`: every execution and every run follows one.
-/

namespace ModDNS.Blocklists

open Go Conc

abbrev ObjectID := ℕ

/-- `BlocklistMetadata`, as far as an update changes it; times are in seconds. -/
structure BlocklistMetadata where
  id : ObjectID := 0
  blocklistID : String
  name : String
  entries : ℕ := 0
  exceptionEntries : ℕ := 0
  sourceUrl : String
  lastModified : ℕ := 0
  updatedAt : ℕ := 0
  version : String := ""
  type : String := ""
deriving DecidableEq

/-- `BlocklistContent`. -/
structure BlocklistContent where
  id : ObjectID
  blocklistID : String
  part : ℕ
  kind : String := ""
  data : String
deriving DecidableEq

def contentKindExceptions : String := "exceptions"

def blocklistTypePublic : String := "public"

inductive BlocklistErr where
  /-- The download, a store or Redis fails; `applied`: what was asked for has been done all the
  same. -/
  | store (applied : Bool)
  | unknownBlocklistID
  | metadata
  | convert
  | improperNumber
  | scan
  | empty
  | shrink
  | emptyID
deriving DecidableEq

/-- The deadline of a context. -/
abbrev Context := ℕ

inductive RedisCmd where
  | sadd (key : String) (members : List String)
  | expire (key : String) (ttl : ℕ)
  | unlink (keys : List String)
  /-- `swapScript`: `RENAME`, then `PERSIST`. -/
  | swap (staging live : String)
deriving DecidableEq

inductive BlocklistOp where
  | now
  /-- `primitive.NewObjectID` and `uuid.NewString`. -/
  | newObjectID
  | newUuid
  | fetch (ctx : Context) (blocklistID sourceUrl : String)
  | getContent (ctx : Context) (blocklistID : String)
  | getMetadata (ctx : Context) (blocklistID : String)
  | upsertContent (ctx : Context) (blocklist : BlocklistContent)
  | upsertMetadata (ctx : Context) (blocklist : BlocklistMetadata)
  /-- One document of a `DeleteMany`. -/
  | delete (ctx : Context) (id : ObjectID)
  | redis (ctx : Context) (cmd : RedisCmd)
  /-- A lookup of the proxy. -/
  | sismember (key member : String)
deriving DecidableEq

def BlocklistOp.Ans : BlocklistOp → Type
  | .now => ℕ
  | .newObjectID => ObjectID
  | .newUuid => String
  | .fetch _ _ _ => Bytes
  | .getContent _ _ => List BlocklistContent
  | .getMetadata _ _ => List BlocklistMetadata
  | .sismember _ _ => Bool
  | _ => Unit

abbrev blocklistCalls : Calls := ⟨BlocklistOp, BlocklistOp.Ans, BlocklistErr, fun _ => false⟩

abbrev BlocklistFlow := Flow blocklistCalls

abbrev BlocklistAct := blocklistCalls.sig.Act

abbrev call (o : BlocklistOp) : BlocklistFlow o.Ans := act (C := blocklistCalls) o

/-- A set in Redis; `expires` is set when it has a time to live. -/
structure RedisSet where
  members : Finset String
  expires : Option ℕ := none
deriving DecidableEq

def RedisSet.Expired (x : RedisSet) (now : ℕ) : Prop := ∃ e ∈ x.expires, e ≤ now

instance (x : RedisSet) (now : ℕ) : Decidable (x.Expired now) :=
  match h : x.expires with
  | none => .isFalse (by simp [RedisSet.Expired, h])
  | some e => decidable_of_iff (e ≤ now) (by simp [RedisSet.Expired, h])

structure Stores where
  now : ℕ := 0
  content : List BlocklistContent := []
  metadata : List BlocklistMetadata := []
  redis : String → Option RedisSet := fun _ => none
  /-- The uuids drawn so far. -/
  uuids : List String := []

/-- Time passes, and keys expire. -/
def Stores.elapse (s : Stores) (d : ℕ) : Stores :=
  { s with
    now := s.now + d
    redis := fun key => (s.redis key).filter fun x => ¬ x.Expired (s.now + d) }

/-- What a command does when it is carried out. -/
def RedisCmd.effect (now : ℕ) (redis : String → Option RedisSet) :
    RedisCmd → String → Option RedisSet
  | .sadd key members =>
    let x := (redis key).getD ⟨∅, none⟩
    Function.update redis key (some { x with members := x.members ∪ members.toFinset })
  | .expire key ttl =>
    Function.update redis key ((redis key).map fun x => { x with expires := some (now + ttl) })
  | .unlink keys => fun key => if key ∈ keys then none else redis key
  | .swap staging live =>
    match redis staging with
    | none => redis
    | some x =>
      Function.update (Function.update redis staging none) live (some { x with expires := none })

/-- `UpdateOne` with `$set` and upsert, by `_id`. -/
def upsertContent (content : List BlocklistContent) (c : BlocklistContent) :
    List BlocklistContent :=
  if c.id ∈ content.map (·.id) then content.map fun d => if d.id = c.id then c else d
  else content ++ [c]

/-- `UpdateOne` with `$set` and upsert, by `blocklist_id`: the first document that matches. -/
def upsertMetadata (m : BlocklistMetadata) : List BlocklistMetadata → List BlocklistMetadata
  | [] => [m]
  | d :: metadata =>
    if d.blocklistID = m.blocklistID then m :: metadata else d :: upsertMetadata m metadata

/-- What a call does when it is carried out. -/
def BlocklistOp.effect (s : Stores) : BlocklistOp → Stores
  | .upsertContent _ c => { s with content := Blocklists.upsertContent s.content c }
  | .upsertMetadata _ m => { s with metadata := Blocklists.upsertMetadata m s.metadata }
  | .delete _ id => { s with content := s.content.filter (·.id ≠ id) }
  | .redis _ cmd => { s with redis := cmd.effect s.now s.redis }
  | _ => s

/-- What the environment chooses at a call: that it is carried out, or fails, and what it answers
where the stores do not say. -/
inductive Outcome where
  | ok
  | fail (applied : Bool)
  | id (id : ObjectID)
  | uuid (uuid : String)
  | body (body : Bytes)

structure Choice where
  /-- How much time passes before the call. -/
  elapsed : ℕ := 0
  outcome : Outcome

/-- The call can still be carried out: at most `grace` after the deadline of its context. -/
def Stores.InTime (s : Stores) (grace : ℕ) (ctx : Context) : Prop := s.now ≤ ctx + grace

instance (s : Stores) (grace : ℕ) (ctx : Context) : Decidable (s.InTime grace ctx) :=
  inferInstanceAs (Decidable (_ ≤ _))

/-- A call that is carried out if it is in time, or fails. -/
def Outcome.call {α : Type} (inTime : Bool) (r : α) : Outcome → Option (Except BlocklistErr α)
  | .ok => if inTime then some (.ok r) else none
  | .fail applied => if applied && !inTime then none else some (.error (.store applied))
  | _ => none

/-- The answer of a call; `none` where the environment cannot choose so. -/
def BlocklistOp.answer (grace : ℕ) (s : Stores) (c : Outcome) :
    (o : BlocklistOp) → Option (Except BlocklistErr o.Ans)
  | .now => match c with
    | .ok => some (.ok s.now)
    | _ => none
  -- no document has a new id, and no uuid is drawn twice
  | .newObjectID => match c with
    | .id n => if n ∈ s.content.map (·.id) ∨ n ∈ s.metadata.map (·.id) then none else some (.ok n)
    | _ => none
  | .newUuid => match c with
    | .uuid u => if u ∈ s.uuids then none else some (.ok u)
    | _ => none
  | .fetch ctx _ _ => match c with
    | .body body => if s.InTime grace ctx then some (.ok body) else none
    | .fail applied => some (.error (.store applied))
    | _ => none
  | .getContent ctx id => c.call (s.InTime grace ctx) (s.content.filter (·.blocklistID = id))
  | .getMetadata ctx id => c.call (s.InTime grace ctx) (s.metadata.filter (·.blocklistID = id))
  | .upsertContent ctx _ => c.call (s.InTime grace ctx) ()
  -- the `_id` of a document cannot be changed
  | .upsertMetadata ctx m =>
    c.call (s.InTime grace ctx && (s.metadata.find? (·.blocklistID = m.blocklistID)).all
      (·.id = m.id)) ()
  | .delete ctx _ => c.call (s.InTime grace ctx) ()
  -- `RENAME` of a missing key is an error
  | .redis ctx (.swap staging _) => c.call (s.InTime grace ctx && (s.redis staging).isSome) ()
  | .redis ctx _ => c.call (s.InTime grace ctx) ()
  | .sismember key member => match c with
    | .ok => some (.ok ((s.redis key).any fun x => member ∈ x.members))
    | .fail applied => some (.error (.store applied))
    | _ => none

/-- The answer says that what was asked for has been done. -/
def TookEffect {α : Type} : Except BlocklistErr α → Prop
  | .ok _ => True
  | .error (.store applied) => applied = true
  | .error _ => False

instance {α : Type} (r : Except BlocklistErr α) : Decidable (TookEffect r) := by
  unfold TookEffect
  split <;> infer_instance

/-- The uuid that an action draws. -/
def drawn : BlocklistAct → Option String
  | ⟨.newUuid, .ok u⟩ => some u
  | _ => none

/-- The stores after one action. -/
def Stores.act (s : Stores) (x : BlocklistAct) : Stores :=
  let s := { s with uuids := (drawn x).toList ++ s.uuids }
  if TookEffect x.2 then x.1.effect s else s

def blocklistHandler (grace : ℕ) {ι : Type} : Handler blocklistCalls.sig ι Stores Choice :=
  fun _ o c s =>
  (o.answer grace (s.elapse c.elapsed) c.outcome).map fun r => (r, (s.elapse c.elapsed).act ⟨o, r⟩)

/-- What an action does to the documents of the contents. -/
def onContent (content : List BlocklistContent) (x : BlocklistAct) : List BlocklistContent :=
  if TookEffect x.2 then
    match x.1 with
    | .upsertContent _ c => upsertContent content c
    | .delete _ id => content.filter (·.id ≠ id)
    | _ => content
  else content

/-- What an action does to the metadata. -/
def onMetadata (metadata : List BlocklistMetadata) (x : BlocklistAct) : List BlocklistMetadata :=
  if TookEffect x.2 then
    match x.1 with
    | .upsertMetadata _ m => upsertMetadata m metadata
    | _ => metadata
  else metadata

/-- What an action does to Redis. -/
def onRedis (now : ℕ) (redis : String → Option RedisSet) (x : BlocklistAct) :
    String → Option RedisSet :=
  if TookEffect x.2 then
    match x.1 with
    | .redis _ cmd => cmd.effect now redis
    | _ => redis
  else redis

section Act

variable (s : Stores) (x : BlocklistAct) (d : ℕ)

@[simp] theorem act_now : (s.act x).now = s.now := by
  unfold Stores.act
  split
  · cases x.1 <;> rfl
  · rfl

theorem act_content : (s.act x).content = onContent s.content x := by
  unfold Stores.act onContent
  simp only
  split
  · cases x.1 <;> rfl
  · rfl

theorem act_metadata : (s.act x).metadata = onMetadata s.metadata x := by
  unfold Stores.act onMetadata
  simp only
  split
  · cases x.1 <;> rfl
  · rfl

theorem act_redis : (s.act x).redis = onRedis s.now s.redis x := by
  unfold Stores.act onRedis
  simp only
  split
  · cases x.1 <;> rfl
  · rfl

theorem act_uuids : (s.act x).uuids = (drawn x).toList ++ s.uuids := by
  unfold Stores.act
  split
  · cases x.1 <;> rfl
  · rfl

@[simp] theorem elapse_now : (s.elapse d).now = s.now + d := rfl

@[simp] theorem elapse_content : (s.elapse d).content = s.content := rfl

@[simp] theorem elapse_metadata : (s.elapse d).metadata = s.metadata := rfl

@[simp] theorem elapse_uuids : (s.elapse d).uuids = s.uuids := rfl

end Act

section Trail

variable {grace : ℕ} {s s' : Stores} {x : BlocklistAct} {l l' : List BlocklistAct}

/-- The action may be taken, after some time, and leads to `s'`. -/
def Next (grace : ℕ) (s : Stores) (x : BlocklistAct) (s' : Stores) : Prop :=
  ∃ d c, x.1.answer grace (s.elapse d) c = some x.2 ∧ s' = (s.elapse d).act x

/-- The actions may be taken one after the other, and lead to `s'`. -/
def Trail (grace : ℕ) : Stores → List BlocklistAct → Stores → Prop
  | s, [], s' => s = s'
  | s, x :: l, s' => ∃ s₁, Next grace s x s₁ ∧ Trail grace s₁ l s'

theorem trail_append :
    Trail grace s (l ++ l') s' ↔ ∃ s₁, Trail grace s l s₁ ∧ Trail grace s₁ l' s' := by
  induction l generalizing s with
  | nil => exact ⟨fun h => ⟨s, rfl, h⟩, fun ⟨_, h, h'⟩ => h ▸ h'⟩
  | cons x l ih =>
    constructor
    · rintro ⟨s₁, hx, hl⟩
      obtain ⟨s₂, h, h'⟩ := ih.1 hl
      exact ⟨s₂, ⟨s₁, hx, h⟩, h'⟩
    · rintro ⟨s₂, ⟨s₁, hx, h⟩, h'⟩
      exact ⟨s₁, hx, ih.2 ⟨s₂, h, h'⟩⟩

theorem trail_snoc :
    Trail grace s (l ++ [x]) s' ↔ ∃ s₁, Trail grace s l s₁ ∧ Next grace s₁ x s' := by
  rw [trail_append]
  constructor
  · rintro ⟨s₁, hl, s₂, hx, rfl⟩
    exact ⟨s₁, hl, hx⟩
  · rintro ⟨s₁, hl, hx⟩
    exact ⟨s₁, hl, s', hx, rfl⟩

theorem next_of_handler {ι : Type} {i : ι} {o : BlocklistOp} {c : Choice}
    {r : Except BlocklistErr o.Ans} (h : blocklistHandler grace i o c s = some (r, s')) :
    Next grace s ⟨o, r⟩ s' := by
  obtain ⟨r', hr, heq⟩ := Option.map_eq_some_iff.1 h
  cases heq
  exact ⟨c.elapsed, c.outcome, hr, rfl⟩

/-- Every execution is a trail. -/
theorem trail_exec {ι α : Type} {i : ι} {p : Prog blocklistCalls.sig α} {a : α}
    (h : Exec (blocklistHandler grace) i p s l a s') : Trail grace s l s' := by
  induction p generalizing s l with
  | pure b =>
    obtain ⟨rfl, -, rfl⟩ := h
    rfl
  | call o k ih =>
    obtain ⟨c, r, s₁, l', hc, rfl, hk⟩ := h
    exact ⟨s₁, next_of_handler hc, ih r hk⟩

/-- The actions of a list of events. -/
def acts {ι : Type} (es : List (Event blocklistCalls.sig ι)) : List BlocklistAct :=
  es.map fun e => ⟨e.op, e.res⟩

/-- Every run is a trail. -/
theorem trail_run {ι α : Type} [DecidableEq ι] {ok : Stores → Event blocklistCalls.sig ι → Prop}
    {P Q : Pool blocklistCalls.sig ι Stores α} {es : List (Event blocklistCalls.sig ι)}
    (h : Run (blocklistHandler grace) ok P es Q) : Trail grace P.state (acts es) Q.state := by
  induction h with
  | nil => rfl
  | snoc _ _ hs ih =>
    obtain ⟨k, c, s, -, hc, rfl⟩ := step_iff.1 hs
    unfold acts
    rw [List.map_append]
    exact trail_snoc.2 ⟨_, ih, next_of_handler hc⟩

/-- What a call answers. -/
theorem call_ok {α : Type} {inTime : Bool} {r a : α} {c : Outcome}
    (h : c.call inTime r = some (.ok a)) : a = r := by
  unfold Outcome.call at h
  cases c with
  | ok =>
    simp only [Option.ite_none_right_eq_some, Option.some.injEq, Except.ok.injEq] at h
    exact h.2.symm
  | fail applied =>
    simp only [Option.ite_none_left_eq_some, Option.some.injEq] at h
    cases h.2
  | _ => cases h

/-- A call that takes effect is in time. -/
theorem call_inTime {α : Type} {inTime : Bool} {r : α} {c : Outcome} {res : Except BlocklistErr α}
    (h : c.call inTime r = some res) (htook : TookEffect res) : inTime = true := by
  cases c with
  | ok =>
    unfold Outcome.call at h
    simp only [Option.ite_none_right_eq_some] at h
    exact h.1
  | fail applied =>
    unfold Outcome.call at h
    simp only [Option.ite_none_left_eq_some, Option.some.injEq] at h
    obtain ⟨hfail, rfl⟩ := h
    obtain rfl : applied = true := htook
    simpa using hfail
  | _ => cases h

/-- **What an action does to Redis**: nothing, or one command, in time. -/
theorem next_redis (h : Next grace s x s') : ∃ d, s'.now = s.now + d ∧
    ((s'.redis = (s.elapse d).redis ∧ ∀ ctx cmd, x.1 = .redis ctx cmd → ¬ TookEffect x.2) ∨
      ∃ ctx cmd, x.1 = .redis ctx cmd ∧ TookEffect x.2 ∧ s'.now ≤ ctx + grace ∧
        s'.redis = cmd.effect s'.now (s.elapse d).redis) := by
  obtain ⟨d, c, hanswer, rfl⟩ := h
  refine ⟨d, by rw [act_now, elapse_now], ?_⟩
  rw [act_redis, act_now]
  obtain ⟨o, r⟩ := x
  unfold onRedis
  by_cases htook : TookEffect r
  · rw [if_pos htook]
    cases o with
    | redis ctx cmd =>
      refine .inr ⟨ctx, cmd, rfl, htook, ?_, rfl⟩
      cases cmd with
      | swap staging live =>
        have hin := (Bool.and_eq_true _ _ ▸ call_inTime hanswer htook).1
        exact of_decide_eq_true hin
      | _ => exact of_decide_eq_true (call_inTime hanswer htook)
    | _ => exact .inl ⟨rfl, nofun⟩
  · rw [if_neg htook]
    exact .inl ⟨rfl, fun _ _ _ => htook⟩

theorem next_now (h : Next grace s x s') : s.now ≤ s'.now := by
  obtain ⟨d, c, -, rfl⟩ := h
  rw [act_now]
  exact Nat.le_add_right _ _

/-- Time goes on. -/
theorem trail_now (h : Trail grace s l s') : s.now ≤ s'.now := by
  induction l generalizing s with
  | nil => exact Nat.le_of_eq (congrArg Stores.now h)
  | cons x l ih =>
    obtain ⟨s₁, hx, hl⟩ := h
    exact Nat.le_trans (next_now hx) (ih hl)

/-- The uuids after a list of actions. -/
theorem mem_trail_uuids (h : Trail grace s l s') {u : String} :
    u ∈ s'.uuids ↔ u ∈ s.uuids ∨ ∃ x ∈ l, drawn x = some u := by
  induction l generalizing s with
  | nil =>
    rw [show s = s' from h]
    simp
  | cons x l ih =>
    obtain ⟨s₁, ⟨d, c, -, rfl⟩, hl⟩ := h
    rw [ih hl, act_uuids, List.mem_append, Option.mem_toList, elapse_uuids,
      List.exists_mem_cons_iff]
    tauto

end Trail

end ModDNS.Blocklists
