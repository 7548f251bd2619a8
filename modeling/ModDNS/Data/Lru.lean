import Mathlib.Algebra.BigOperators.Group.List.Basic
import Mathlib.Algebra.Ring.Int.Defs
import Mathlib.Data.List.Nodup

/-!
# LRU caches

The operations of a cache that keeps the entries that have been used last, and what they are
documented to do.

* `Lru.Lawful.valid_add`, `valid_get`, `valid_remove`: keys stay different, and entries no more than
  the cache has room for.
* `sum_others`: what is left of a sum over the entries without one of them.
-/

namespace ModDNS.Data

variable {κ ε : Type} [DecidableEq κ]

/-- The entries without one key. -/
def others (l : List (κ × ε)) (k : κ) : List (κ × ε) := l.filter (·.1 ≠ k)

/-- The operations of an LRU cache. Those that can remove entries say for which of them the eviction
callback has run inside the call. -/
structure Lru (κ ε : Type) where
  State : Type
  newWithEvict (size : ℤ) : Option State
  get (c : State) (k : κ) : Option ε × State
  peek (c : State) (k : κ) : Option ε
  add (c : State) (k : κ) (e : ε) : List ε × State
  remove (c : State) (k : κ) : List ε × State
  len (c : State) : ℕ
  /-- The keys and their values, the one that has been used last in front. -/
  entries (c : State) : List (κ × ε)
  size (c : State) : ℕ

/-- **What they do**: an entry that is added or found goes to the front; over capacity the last ones
go, through the callback, as does an entry that is removed. A replacement in place does not call
it. -/
structure Lru.Lawful (L : Lru κ ε) : Prop where
  new : ∀ n c, L.newWithEvict n = some c → L.entries c = [] ∧ 0 < n ∧ (L.size c : ℤ) = n
  get_value : ∀ c k, (L.get c k).1 = (L.entries c).lookup k
  get_entries : ∀ c k, L.entries (L.get c k).2 = ((L.entries c).lookup k).toList.map (k, ·) ++
    others (L.entries c) k
  get_size : ∀ c k, L.size (L.get c k).2 = L.size c
  peek_value : ∀ c k, L.peek c k = (L.entries c).lookup k
  add_entries : ∀ c k e, L.entries (L.add c k e).2 =
    ((k, e) :: others (L.entries c) k).take (L.size c)
  add_evicted : ∀ c k e, (L.add c k e).1 =
    (((k, e) :: others (L.entries c) k).drop (L.size c)).map (·.2)
  add_size : ∀ c k e, L.size (L.add c k e).2 = L.size c
  remove_entries : ∀ c k, L.entries (L.remove c k).2 = others (L.entries c) k
  remove_evicted : ∀ c k, (L.remove c k).1 = ((L.entries c).lookup k).toList
  remove_size : ∀ c k, L.size (L.remove c k).2 = L.size c
  len : ∀ c, L.len c = (L.entries c).length

section Others

variable {l : List (κ × ε)} {k : κ} {e : ε}

theorem others_of_not_mem (h : k ∉ l.map Prod.fst) : others l k = l := by
  refine List.filter_eq_self.2 fun x hx => decide_eq_true ?_
  rintro rfl
  exact h (List.mem_map_of_mem hx)

theorem nodup_others (h : (l.map Prod.fst).Nodup) : ((others l k).map Prod.fst).Nodup :=
  h.sublist (List.filter_sublist.map _)

theorem not_mem_others : k ∉ (others l k).map Prod.fst := by
  intro hmem
  obtain ⟨x, hx, hk⟩ := List.mem_map.1 hmem
  exact of_decide_eq_true (List.mem_filter.1 hx).2 hk

theorem lookup_none_iff : l.lookup k = none ↔ k ∉ l.map Prod.fst := by
  rw [List.lookup_eq_none_iff]
  constructor
  · intro h hmem
    obtain ⟨x, hx, rfl⟩ := List.mem_map.1 hmem
    simpa using h x hx
  · intro h x hx
    refine bne_iff_ne.2 ?_
    rintro rfl
    exact h (List.mem_map_of_mem hx)

/-- An entry and the others. -/
theorem perm_others (hkeys : (l.map Prod.fst).Nodup) (h : l.lookup k = some e) :
    l.Perm ((k, e) :: others l k) := by
  induction l with
  | nil => cases h
  | cons x l ih =>
    obtain ⟨k', e'⟩ := x
    rw [List.map_cons, List.nodup_cons] at hkeys
    by_cases hk : k = k'
    · subst hk
      rw [List.lookup_cons_self] at h
      cases h
      have hrest : others ((k, e) :: l) k = l := by
        unfold others
        rw [List.filter_cons_of_neg (by simp)]
        exact others_of_not_mem hkeys.1
      rw [hrest]
    · rw [List.lookup_cons, beq_false_of_ne hk] at h
      have hkeep : others ((k', e') :: l) k = (k', e') :: others l k :=
        List.filter_cons_of_pos (decide_eq_true (Ne.symm hk))
      rw [hkeep]
      exact ((ih hkeys.2 h).cons _).trans (List.Perm.swap _ _ _)

theorem others_of_lookup (hkeys : (l.map Prod.fst).Nodup) (h : l.lookup k = some e) :
    (others l k).length + 1 = l.length :=
  ((perm_others hkeys h).length_eq).symm

/-- **A sum over the entries**, without one of them. -/
theorem sum_others (hkeys : (l.map Prod.fst).Nodup) (w : κ × ε → ℤ) :
    ((others l k).map w).sum = (l.map w).sum - ((l.lookup k).map fun e => w (k, e)).getD 0 := by
  cases h : l.lookup k with
  | none =>
    rw [others_of_not_mem (lookup_none_iff.1 h)]
    simp
  | some e =>
    rw [((perm_others hkeys h).map w).sum_eq, List.map_cons, List.sum_cons]
    simp

end Others

/-- The keys are different, and there is room for the entries. -/
structure Lru.Valid (L : Lru κ ε) (c : L.State) : Prop where
  keys : ((L.entries c).map Prod.fst).Nodup
  room : (L.entries c).length ≤ L.size c

section Lawful

variable {L : Lru κ ε} {c : L.State} {k : κ} {e : ε}

theorem Lru.Lawful.valid_new (hL : L.Lawful) {n : ℤ} (h : L.newWithEvict n = some c) :
    L.Valid c := by
  obtain ⟨hentries, -, -⟩ := hL.new n c h
  refine ⟨?_, ?_⟩
  · rw [hentries]
    exact List.nodup_nil
  · rw [hentries]
    exact Nat.zero_le _

theorem Lru.Lawful.perm_get (hL : L.Lawful) (hc : L.Valid c) :
    (L.entries (L.get c k).2).Perm (L.entries c) := by
  rw [hL.get_entries]
  cases h : (L.entries c).lookup k with
  | none =>
    rw [others_of_not_mem (lookup_none_iff.1 h)]
    exact List.Perm.refl _
  | some e => exact (perm_others hc.keys h).symm

theorem Lru.Lawful.valid_get (hL : L.Lawful) (hc : L.Valid c) : L.Valid (L.get c k).2 := by
  have hperm := hL.perm_get hc (k := k)
  refine ⟨(hperm.map _).nodup_iff.2 hc.keys, ?_⟩
  rw [hperm.length_eq, hL.get_size]
  exact hc.room

theorem nodup_cons_others {l : List (κ × ε)} (hkeys : (l.map Prod.fst).Nodup) :
    (((k, e) :: others l k).map Prod.fst).Nodup :=
      List.nodup_cons.2 ⟨not_mem_others, nodup_others hkeys⟩

theorem Lru.Lawful.valid_add (hL : L.Lawful) (hc : L.Valid c) : L.Valid (L.add c k e).2 := by
  refine ⟨?_, ?_⟩
  · rw [hL.add_entries, List.map_take]
    exact (nodup_cons_others hc.keys).sublist (List.take_sublist _ _)
  · rw [hL.add_entries, hL.add_size]
    exact List.length_take_le _ _

theorem Lru.Lawful.valid_remove (hL : L.Lawful) (hc : L.Valid c) : L.Valid (L.remove c k).2 := by
  refine ⟨?_, ?_⟩
  · rw [hL.remove_entries]
    exact nodup_others hc.keys
  · rw [hL.remove_entries, hL.remove_size]
    exact Nat.le_trans (List.length_filter_le _ _) hc.room

end Lawful

section Lists

/-- The cache as the list of its entries, with its size. -/
def Lru.ofList (κ ε : Type) [DecidableEq κ] : Lru κ ε where
  State := List (κ × ε) × ℕ
  newWithEvict size := if 0 < size then some ([], size.toNat) else none
  get c k := (c.1.lookup k, ((c.1.lookup k).toList.map (k, ·) ++ others c.1 k, c.2))
  peek c k := c.1.lookup k
  add c k e :=
    ((((k, e) :: others c.1 k).drop c.2).map (·.2), (((k, e) :: others c.1 k).take c.2, c.2))
  remove c k := ((c.1.lookup k).toList, (others c.1 k, c.2))
  len c := c.1.length
  entries c := c.1
  size c := c.2

theorem Lru.lawful_ofList : (Lru.ofList κ ε).Lawful where
  new n c h := by
    obtain ⟨hpos, heq⟩ := Option.ite_none_right_eq_some.1 h
    cases heq
    exact ⟨rfl, hpos, Int.toNat_of_nonneg (Int.le_of_lt hpos)⟩
  get_value _ _ := rfl
  get_entries _ _ := rfl
  get_size _ _ := rfl
  peek_value _ _ := rfl
  add_entries _ _ _ := rfl
  add_evicted _ _ _ := rfl
  add_size _ _ _ := rfl
  remove_entries _ _ := rfl
  remove_evicted _ _ := rfl
  remove_size _ _ := rfl
  len _ := rfl

end Lists

end ModDNS.Data
