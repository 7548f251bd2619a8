import Mathlib.Algebra.Ring.Int.Defs
import ModDNS.Data.Lru
import ModDNS.Proxy.SettingsCache

/-!
# What the settings cache accounts for

The settings cache keeps the estimated size of its entries in a total of its own, and reports every
entry that its LRU removes to a hook, with a reason.

* `Accounted`: the total is the sum over the entries.
* `accounting`: it is so after every run of `Put`, `Get` and `Evict`, and each removal has been
  reported once.
-/

namespace ModDNS.Proxy.Accounting

open Data

section Estimate

def entryOverhead : ℤ := 256
def mapOverhead : ℤ := 48
def kvOverhead : ℤ := 32
def stringHeader : ℤ := 16

/-- A map without entries is nil. -/
def mapBytes (m : Hash) : ℤ :=
  if m = [] then 0
  else mapOverhead + (m.map fun kv => kvOverhead + kv.1.utf8ByteSize + kv.2.utf8ByteSize).sum

/-- `estimateBytes`. -/
def estimateBytes : Option ProfileSettings → ℤ
  | none => entryOverhead
  | some s =>
    entryOverhead
      + ([s.privacy, s.logs, s.dnssec, s.rebindingProtection, s.advanced,
        s.statistics].map mapBytes).sum
      + (s.blocklists.map fun v => stringHeader + v.utf8ByteSize).sum
      + (s.services.map fun v => stringHeader + v.utf8ByteSize).sum
      + (s.customRules.map mapBytes).sum

end Estimate

/-- An entry, with the size that has been estimated for it. -/
structure Entry where
  settings : Option ProfileSettings
  fetchedAt : ℤ
  size : ℤ

def evictionReasonSize : String := "size"
def evictionReasonDeleted : String := "deleted"

/-- `settingscache.Cache`, with the reasons that its hook has been called with. -/
structure Cache (L : Lru String Entry) where
  ttl : ℤ
  entries : L.State
  evictReason : String
  bytes : ℤ
  reported : List String

section Code

variable {L : Lru String Entry}

/-- `New`. -/
def newCache (L : Lru String Entry) (ttl size : ℤ) : Option (Cache L) :=
  (L.newWithEvict size).map fun entries =>
    { ttl, entries, evictReason := "", bytes := 0, reported := [] }

namespace Cache

variable (c : Cache L)

/-- The eviction callback. -/
def onEvicted (c : Cache L) (e : Entry) : Cache L :=
  { c with
    bytes := c.bytes - e.size
    reported := c.reported ++ [if c.evictReason = "" then evictionReasonSize else c.evictReason] }

/-- `Get`. -/
def get (now : ℤ) (id : String) : (Option ProfileSettings × CacheState) × Cache L :=
  let (found, entries) := L.get c.entries id
  let c := { c with entries }
  match found with
  | none => ((none, .miss), c)
  | some e => ((e.settings, if 0 < c.ttl ∧ c.ttl ≤ now - e.fetchedAt then .stale else .fresh), c)

/-- `Put`: a replacement in place does not call the callback. -/
def put (now : ℤ) (id : String) (settings : Option ProfileSettings) : Cache L :=
  let e : Entry := { settings, fetchedAt := now, size := estimateBytes settings }
  let c := { c with bytes := c.bytes - ((L.peek c.entries id).map Entry.size).getD 0 }
  let (evicted, entries) := L.add c.entries id e
  let c := evicted.foldl onEvicted { c with entries }
  { c with bytes := c.bytes + e.size }

/-- `Evict`. -/
def evict (id : String) : Cache L :=
  let c := { c with evictReason := evictionReasonDeleted }
  let (evicted, entries) := L.remove c.entries id
  let c := evicted.foldl onEvicted { c with entries }
  { c with evictReason := "" }

/-- `Len`. -/
def len : ℕ := L.len c.entries

/-- The profiles that have an entry. -/
def ids : List String := (L.entries c.entries).map Prod.fst

end Cache

inductive CacheOp where
  | put (now : ℤ) (id : String) (settings : Option ProfileSettings)
  | get (now : ℤ) (id : String)
  | evict (id : String)

def CacheOp.run (c : Cache L) : CacheOp → Cache L
  | .put now id settings => c.put now id settings
  | .get now id => (c.get now id).2
  | .evict id => c.evict id

/-- The reason for a removal by an operation. -/
def CacheOp.reason : CacheOp → String
  | .evict _ => evictionReasonDeleted
  | _ => evictionReasonSize

/-- The cache after a list of operations. -/
def after (c : Cache L) (ops : List CacheOp) : Cache L := ops.foldl CacheOp.run c

end Code

section Accounts

variable {L : Lru String Entry}

/-- **The accounts are in order**: the total is the sum over the entries, each of the size that is
estimated for its settings. -/
structure Accounted (c : Cache L) : Prop where
  valid : L.Valid c.entries
  room : 0 < L.size c.entries
  idle : c.evictReason = ""
  sizes : ∀ x ∈ L.entries c.entries, x.2.size = estimateBytes x.2.settings
  total : c.bytes = ((L.entries c.entries).map fun x => x.2.size).sum

variable {c : Cache L} {now : ℤ} {id : String} {settings : Option ProfileSettings}

/-- The callback, for all the entries that go in one call. -/
theorem foldl_onEvicted (evicted : List Entry) : evicted.foldl Cache.onEvicted c =
    { c with
      bytes := c.bytes - (evicted.map Entry.size).sum
      reported := c.reported ++ evicted.map fun _ => if c.evictReason = "" then evictionReasonSize
        else c.evictReason } := by
  induction evicted generalizing c with
  | nil => simp
  | cons e evicted ih =>
    rw [List.foldl_cons, ih]
    simp only [Cache.onEvicted, List.map_cons, List.sum_cons, List.append_assoc,
      List.singleton_append, Cache.mk.injEq,
      true_and]
    refine ⟨?_, rfl⟩
    omega

/-- The sizes of the entries. -/
def sizeOf (x : String × Entry) : ℤ := x.2.size

theorem lookup_size {l : List (String × Entry)} :
    ((l.lookup id).map fun e => sizeOf (id, e)) = (l.lookup id).map Entry.size := rfl

/-- What is left of the total after `Evict`, and what has been reported. -/
theorem evict_eq (hL : L.Lawful) (c : Cache L) (id : String) :
    (c.evict id).entries = (L.remove c.entries id).2 ∧
    (c.evict id).bytes = c.bytes - (((L.entries c.entries).lookup id).map Entry.size).getD 0 ∧
    (c.evict id).reported = c.reported ++ ((L.entries c.entries).lookup id).toList.map
    (fun _ => evictionReasonDeleted) ∧
    (c.evict id).evictReason = "" := by
  unfold Cache.evict
  dsimp only
  rw [foldl_onEvicted, hL.remove_evicted]
  cases (L.entries c.entries).lookup id with
  | none => simp
  | some e => simp [evictionReasonDeleted]

/-- The total after `Put`, and what has been reported. -/
theorem put_eq (hL : L.Lawful) (hidle : c.evictReason = "") (now : ℤ) (id : String)
    (settings : Option ProfileSettings) : ∃ e : Entry, e = ⟨settings, now, estimateBytes settings⟩ ∧
    (c.put now id settings).entries = (L.add c.entries id e).2 ∧
    (c.put now id settings).bytes = c.bytes
    - (((L.entries c.entries).lookup id).map Entry.size).getD 0 -
      ((((id, e) :: others (L.entries c.entries) id).drop (L.size c.entries)).map sizeOf).sum +
        e.size ∧
    (c.put now id settings).reported = c.reported ++
      (((id, e) :: others (L.entries c.entries) id).drop (L.size c.entries)).map
        (fun _ => evictionReasonSize) ∧
    (c.put now id settings).evictReason = "" ∧ (c.put now id settings).ttl = c.ttl := by
  refine ⟨_, rfl, ?_⟩
  unfold Cache.put
  dsimp only
  rw [foldl_onEvicted, hL.peek_value, hL.add_evicted, List.map_map, List.map_map]
  refine ⟨rfl, rfl, ?_, hidle, rfl⟩
  rw [hidle]
  rfl

theorem accounted_get (hL : L.Lawful) (hc : Accounted c) : Accounted (c.get now id).2 := by
  have hperm := hL.perm_get hc.valid (k := id)
  have hcache : (c.get now id).2 = { c with entries := (L.get c.entries id).2 } := by
    unfold Cache.get
    dsimp only
    split <;> rfl
  rw [hcache]
  refine ⟨hL.valid_get hc.valid, (hL.get_size _ _).symm ▸ hc.room, hc.idle,
    fun x hx => hc.sizes x (hperm.subset hx), ?_⟩
  exact hc.total.trans ((hperm.map _).sum_eq).symm

theorem accounted_evict (hL : L.Lawful) (hc : Accounted c) : Accounted (c.evict id) := by
  obtain ⟨hentries, hbytes, -, hidle⟩ := evict_eq hL c id
  refine ⟨?_, ?_, hidle, ?_, ?_⟩
  · rw [hentries]
    exact hL.valid_remove hc.valid
  · rw [hentries, hL.remove_size]
    exact hc.room
  · rw [hentries, hL.remove_entries]
    exact fun x hx => hc.sizes x (List.mem_filter.1 hx).1
  · rw [hentries, hL.remove_entries, hbytes, hc.total]
    exact (sum_others hc.valid.keys sizeOf).symm

theorem accounted_put (hL : L.Lawful) (hc : Accounted c) : Accounted (c.put now id settings) := by
  obtain ⟨e, he, hentries, hbytes, -, hidle, -⟩ := put_eq hL hc.idle now id settings
  refine ⟨?_, ?_, hidle, ?_, ?_⟩
  · rw [hentries]
    exact hL.valid_add hc.valid
  · rw [hentries, hL.add_size]
    exact hc.room
  · rw [hentries, hL.add_entries]
    intro x hx
    rcases List.mem_cons.1 (List.mem_of_mem_take hx) with rfl | hx
    · rw [he]
    · exact hc.sizes x (List.mem_filter.1 hx).1
  · rw [hentries, hL.add_entries, hbytes, hc.total]
    have hothers := sum_others (k := id) hc.valid.keys sizeOf
    rw [lookup_size] at hothers
    have hsplit :=
      List.take_append_drop (L.size c.entries) ((id, e) :: others (L.entries c.entries) id)
    have hsum := congrArg (fun l => (List.map sizeOf l).sum) hsplit
    simp only [List.map_append, List.sum_append, List.map_cons, List.sum_cons] at hsum
    change _ =
      ((List.take (L.size c.entries) ((id, e) :: others (L.entries c.entries) id)).map sizeOf).sum
    change ((L.entries c.entries).map sizeOf).sum - _ - _ + _ = _
    have hself : sizeOf (id, e) = e.size := rfl
    rw [hself] at hsum
    omega

theorem accounted_run (hL : L.Lawful) (hc : Accounted c) (op : CacheOp) : Accounted (op.run c) := by
  cases op with
  | put now id settings => exact accounted_put hL hc
  | get now id => exact accounted_get hL hc
  | evict id => exact accounted_evict hL hc

theorem accounted_new (hL : L.Lawful) {ttl size : ℤ} (h : newCache L ttl size = some c) :
    Accounted c ∧ (L.size c.entries : ℤ) = size := by
  obtain ⟨entries, hnew, rfl⟩ := Option.map_eq_some_iff.1 h
  obtain ⟨hentries, hpos, hsize⟩ := hL.new size entries hnew
  refine ⟨⟨hL.valid_new hnew, ?_, rfl, ?_, ?_⟩, hsize⟩
  · show 0 < L.size entries
    omega
  · rw [hentries]
    exact List.forall_mem_nil _
  · rw [hentries]
    rfl

end Accounts

section Removals

variable {L : Lru String Entry} {c : Cache L} {now : ℤ} {id : String}
  {settings : Option ProfileSettings}

/-- The profiles whose entries an operation removes. -/
def CacheOp.removed (c : Cache L) (op : CacheOp) : List String := c.ids.filter (· ∉ (op.run c).ids)

/-- What an addition drops of different keys: those that have been there before it and are not after
it. -/
theorem dropped_keys {l : List (String × Entry)} {e : Entry} {n : ℕ}
    (hkeys : (l.map Prod.fst).Nodup) (hn : 0 < n) (hroom : l.length ≤ n) :
    ((l.map Prod.fst).filter (· ∉ (((id, e) :: others l id).take n).map Prod.fst)).length =
      (((id, e) :: others l id).drop n).length := by
  cases hfound : l.lookup id with
  | some old =>
    have hlength := others_of_lookup hkeys hfound
    have hall : ((id, e) :: others l id).length ≤ n := by
      rw [List.length_cons]
      omega
    rw [List.drop_eq_nil_of_le hall, List.take_of_length_le hall]
    refine List.length_eq_zero_iff.2 (List.filter_eq_nil_iff.2 fun k hk => ?_)
    have hmem : k ∈ ((id, e) :: others l id).map Prod.fst := by
      obtain ⟨x, hx, rfl⟩ := List.mem_map.1 hk
      rcases List.mem_cons.1 ((perm_others hkeys hfound).subset hx) with rfl | hx
      · exact List.mem_cons_self ..
      · exact List.mem_cons_of_mem _ (List.mem_map_of_mem hx)
    exact fun h => of_decide_eq_true h hmem
  | none =>
    have habsent := lookup_none_iff.1 hfound
    obtain ⟨m, rfl⟩ := Nat.exists_eq_succ_of_ne_zero (Nat.pos_iff_ne_zero.1 hn)
    rw [others_of_not_mem habsent, List.take_succ_cons, List.drop_succ_cons]
    -- the keys up to the last that is kept, and those after it
    have hsplit : l.map Prod.fst = (l.take m).map Prod.fst ++ (l.drop m).map Prod.fst := by
      rw [← List.map_append, List.take_append_drop]
    have hkept : ((l.take m).map Prod.fst).filter
        (· ∉ ((id, e) :: l.take m).map Prod.fst) = [] := by
      refine List.filter_eq_nil_iff.2 fun k hk => ?_
      simpa using fun _ => hk
    have hdropped : ((l.drop m).map Prod.fst).filter (· ∉ ((id, e) :: l.take m).map Prod.fst) =
        (l.drop m).map Prod.fst := by
      refine List.filter_eq_self.2 fun k hk => decide_eq_true fun hmem => ?_
      rcases List.mem_cons.1 hmem with rfl | hmem
      · refine habsent ?_
        rw [hsplit]
        exact List.mem_append_right _ hk
      · rw [hsplit] at hkeys
        exact (List.nodup_append.1 hkeys).2.2 _ hmem _ hk rfl
    rw [hsplit, List.filter_append, hkept, hdropped, List.nil_append, List.length_map]

/-- What a removal takes away. -/
theorem removed_keys {l : List (String × Entry)} (hkeys : (l.map Prod.fst).Nodup) :
    ((l.map Prod.fst).filter (· ∉ (others l id).map Prod.fst)).length =
      (l.lookup id).toList.length := by
  cases hfound : l.lookup id with
  | none =>
    rw [others_of_not_mem (lookup_none_iff.1 hfound)]
    refine List.length_eq_zero_iff.2 (List.filter_eq_nil_iff.2 fun k hk h => ?_)
    exact of_decide_eq_true h hk
  | some e =>
    have hperm := ((perm_others hkeys hfound).map Prod.fst).filter fun k =>
      decide (k ∉ (others l id).map Prod.fst)
    have hhere : decide (id ∉ (others l id).map Prod.fst) = true := decide_eq_true not_mem_others
    have hnone : ((others l id).map Prod.fst).filter (· ∉ (others l id).map Prod.fst) = [] :=
      List.filter_eq_nil_iff.2 fun k hk h => of_decide_eq_true h hk
    rw [hperm.length_eq]
    have hone : (id :: (others l id).map Prod.fst).filter (· ∉ (others l id).map Prod.fst) = [id] :=
      (List.filter_cons_of_pos (p := fun k => decide (k ∉ (others l id).map Prod.fst)) hhere).trans
        (congrArg (id :: ·) hnone)
    exact congrArg List.length hone

/-- **Each removal is reported once**, with its reason. -/
theorem reported_run (hL : L.Lawful) (hc : Accounted c) (op : CacheOp) :
    (op.run c).reported = c.reported ++ (op.removed c).map fun _ => op.reason := by
  have hconst : ∀ {α β : Type} {l : List α} {l' : List β} (s : String), l.length = l'.length →
      (l.map fun _ => s) = l'.map fun _ => s := by
    intro α β l l' s h
    rw [List.map_const', List.map_const', h]
  cases op with
  -- an insertion drops what does not fit any more
  | put now id settings =>
    obtain ⟨e, -, hentries, -, hreported, -, -⟩ := put_eq hL hc.idle now id settings
    change (c.put now id settings).reported = _
    rw [hreported]
    refine congrArg (c.reported ++ ·) (hconst _ ?_)
    have hids : (c.put now id settings).ids =
        (((id, e) :: others (L.entries c.entries) id).take (L.size c.entries)).map Prod.fst := by
      unfold Cache.ids
      rw [hentries, hL.add_entries]
    unfold CacheOp.removed
    change _ = (c.ids.filter (· ∉ (c.put now id settings).ids)).length
    rw [hids]
    exact (dropped_keys hc.valid.keys hc.room hc.valid.room).symm
  -- a lookup drops nothing
  | get now id =>
    have hids : ((c.get now id).2.ids).Perm c.ids := by
      have hcache : (c.get now id).2.entries = (L.get c.entries id).2 := by
        unfold Cache.get
        dsimp only
        split <;> rfl
      unfold Cache.ids
      rw [hcache]
      exact (hL.perm_get hc.valid).map _
    have hnone : (CacheOp.get now id).removed c = [] := by
      refine List.filter_eq_nil_iff.2 fun k hk => ?_
      have hmem : k ∈ (c.get now id).2.ids := hids.symm.subset hk
      exact fun h => of_decide_eq_true h hmem
    rw [hnone, List.map_nil, List.append_nil]
    change (c.get now id).2.reported = _
    unfold Cache.get
    dsimp only
    split <;> rfl
  | evict id =>
    obtain ⟨hentries, -, hreported, -⟩ := evict_eq hL c id
    change (c.evict id).reported = _
    rw [hreported]
    refine congrArg (c.reported ++ ·) (hconst _ ?_)
    have hids : (c.evict id).ids = (others (L.entries c.entries) id).map Prod.fst := by
      unfold Cache.ids
      rw [hentries, hL.remove_entries]
    unfold CacheOp.removed
    change _ = (c.ids.filter (· ∉ (c.evict id).ids)).length
    rw [hids]
    exact (removed_keys hc.valid.keys).symm

/-- An entry that has just been put is found, and is fresh for its time to live. -/
theorem get_put (hL : L.Lawful) (hc : Accounted c) {now' : ℤ}
    (hnow : c.ttl ≤ 0 ∨ now' - now < c.ttl) :
    id ∈ (c.put now id settings).ids ∧ ((c.put now id settings).get now' id).1 =
    (settings, .fresh) := by
  obtain ⟨e, he, hentries, -, -, -, httl⟩ := put_eq hL hc.idle now id settings
  obtain ⟨n, hn⟩ := Nat.exists_eq_succ_of_ne_zero (Nat.pos_iff_ne_zero.1 hc.room)
  have hlist : L.entries (c.put now id settings).entries = (id, e) ::
      (others (L.entries c.entries) id).take n := by
    rw [hentries, hL.add_entries, hn]
    rfl
  refine ⟨?_, ?_⟩
  · unfold Cache.ids
    rw [hlist]
    exact List.mem_cons_self ..
  · unfold Cache.get
    dsimp only
    rw [hL.get_value, hlist, List.lookup_cons_self, httl, he]
    have hfresh : ¬ (0 < c.ttl ∧ c.ttl ≤ now' - now) := by omega
    dsimp only
    rw [if_neg hfresh]

end Removals

section Runs

variable {L : Lru String Entry} {c : Cache L}

theorem accounted_after (hL : L.Lawful) (hc : Accounted c) (ops : List CacheOp) :
    Accounted (after c ops) ∧ L.size (after c ops).entries = L.size c.entries ∧
      (after c ops).ttl = c.ttl := by
  induction ops using List.reverseRecOn with
  | nil => exact ⟨hc, rfl, rfl⟩
  | append_singleton ops op ih =>
    have hsnoc : after c (ops ++ [op]) = op.run (after c ops) := by
      unfold after
      rw [List.foldl_append]
      rfl
    rw [hsnoc]
    generalize after c ops = c' at ih
    obtain ⟨hc', hsize, httl⟩ := ih
    refine ⟨accounted_run hL hc' op, ?_⟩
    rw [← hsize, ← httl]
    cases op with
    | put now id settings =>
      obtain ⟨e, -, hentries, -, -, -, httl⟩ := put_eq hL hc'.idle now id settings
      refine ⟨?_, httl⟩
      change L.size (c'.put now id settings).entries = _
      rw [hentries, hL.add_size]
    | get now id =>
      change L.size (c'.get now id).2.entries = _ ∧ (c'.get now id).2.ttl = _
      unfold Cache.get
      dsimp only
      split <;> exact ⟨hL.get_size _ _, rfl⟩
    | evict id =>
      obtain ⟨hentries, -, -, -⟩ := evict_eq hL c' id
      refine ⟨?_, ?_⟩
      · change L.size (c'.evict id).entries = _
        rw [hentries, hL.remove_size]
      · change (c'.evict id).ttl = _
        unfold Cache.evict
        dsimp only
        rw [foldl_onEvicted]

/-- **The accounts of the cache**, after every sequence of operations on a new one: `Bytes` is the
sum of the estimates of the entries that are there, and they are no more than `size`; every entry
that the next operation removes is reported to the hook once, with its reason; and an entry that is
put is there, and fresh. -/
theorem accounting (hL : L.Lawful) {ttl size : ℤ} (h : newCache L ttl size = some c)
    (ops : List CacheOp) :
    (after c ops).bytes = ((L.entries (after c ops).entries).map fun x =>
      estimateBytes x.2.settings).sum ∧
      ((after c ops).len : ℤ) ≤ size ∧
      (∀ op : CacheOp, (op.run (after c ops)).reported = (after c ops).reported ++
        (op.removed (after c ops)).map fun _ => op.reason) ∧
      ∀ now now' id settings, ttl ≤ 0 ∨ now' - now < ttl →
      id ∈ ((after c ops).put now id settings).ids ∧
        (((after c ops).put now id settings).get now' id).1 = (settings, .fresh) := by
  obtain ⟨hnew, hsize⟩ := accounted_new hL h
  obtain ⟨hc, hsame, httl⟩ := accounted_after hL hnew ops
  have httl' : c.ttl = ttl := by
    obtain ⟨entries, -, rfl⟩ := Option.map_eq_some_iff.1 h
    rfl
  refine ⟨?_, ?_, reported_run hL hc, fun now now' id settings hnow => ?_⟩
  · rw [hc.total]
    exact congrArg List.sum (List.map_congr_left hc.sizes)
  · unfold Cache.len
    rw [hL.len, ← hsize, ← hsame]
    exact Int.ofNat_le.2 hc.valid.room
  · refine get_put hL hc ?_
    rw [httl, httl']
    exact hnow

/-- A cache of two entries. -/
def exampleCache : Cache (Lru.ofList String Entry) :=
  { ttl := 30, entries := ([], 2), evictReason := "", bytes := 0, reported := [] }

def exampleOps : List CacheOp :=
  [.put 0 "a" none, .put 1 "b" none, .get 2 "a", .put 3 "a" none, .put 4 "c" none, .evict "c",
  .evict "missing"]

example :
    (after exampleCache exampleOps).ids = ["a"] ∧ (after exampleCache exampleOps).reported =
    ["size", "deleted"] := by
  decide

theorem accounting_two : (after exampleCache exampleOps).bytes =
    (((Lru.ofList String Entry).entries (after exampleCache exampleOps).entries).map fun x =>
      estimateBytes x.2.settings).sum ∧
      ((after exampleCache exampleOps).len : ℤ) ≤ 2 := by
  have hall :=
    accounting Lru.lawful_ofList (show newCache (Lru.ofList String Entry) 30 2 =
      some exampleCache from rfl) exampleOps
  exact ⟨hall.1, hall.2.1⟩

end Runs

end ModDNS.Proxy.Accounting
