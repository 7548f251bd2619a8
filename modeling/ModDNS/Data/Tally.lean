import Mathlib.Algebra.Ring.Nat
import Mathlib.Data.List.AList
import Mathlib.Algebra.BigOperators.Group.List.Basic
import Mathlib.Algebra.Group.Basic

/-!
# Tallies

A finite map whose values are added up. What an insertion changes is the weight of its key
(`total_insert`); a map falls apart into the entries that a test selects and the others
(`total_keep`).
-/

namespace ModDNS.Data

variable {κ α M : Type}

abbrev Table (κ α : Type) := AList fun _ : κ => α

/-- The entries whose key passes the test. -/
def keep (t : Table κ α) (p : κ → Bool) : Table κ α :=
  ⟨t.entries.filter fun e => p e.1, t.nodupKeys.sublist List.filter_sublist⟩

def values (t : Table κ α) : List α := t.entries.map (·.2)

/-- The weights of the entries, added up. -/
def total [AddMonoid M] (t : Table κ α) (w : κ → α → M) : M :=
  (t.entries.map fun e => w e.1 e.2).sum

variable {t : Table κ α} {k : κ} {x : α}

@[simp] theorem total_empty [AddMonoid M] (w : κ → α → M) : total (∅ : Table κ α) w = 0 := rfl

theorem mem_keep {p : κ → Bool} {e : Sigma fun _ : κ => α} :
    e ∈ (keep t p).entries ↔ e ∈ t.entries ∧ p e.1 = true :=
  List.mem_filter

/-- The entries that pass a test, and the others. -/
theorem total_keep [AddCommMonoid M] (p : κ → Bool) (w : κ → α → M) :
    total (keep t p) w + total (keep t fun k => !p k) w = total t w := by
  unfold total keep
  simp only
  induction t.entries with
  | nil => simp
  | cons e l ih =>
    cases hp : p e.1 with
    | true => simp [hp, ← ih, add_assoc]
    | false => simp [hp, ← ih, add_left_comm]

variable [DecidableEq κ]

theorem mem_entries_of_lookup (h : t.lookup k = some x) :
    (⟨k, x⟩ : Sigma fun _ : κ => α) ∈ t.entries :=
  AList.mem_lookup_iff.1 h

theorem lookup_of_mem_entries {e : Sigma fun _ : κ => α} (h : e ∈ t.entries) :
    t.lookup e.1 = some e.2 :=
  AList.mem_lookup_iff.2 h

section Total

variable [AddCommMonoid M] {w : κ → α → M}

theorem total_insert_new (h : t.lookup k = none) : total (t.insert k x) w = w k x + total t w := by
  have hmem : k ∉ t := AList.lookup_eq_none.1 h
  unfold total
  rw [AList.entries_insert_of_notMem hmem]
  simp

theorem total_insert_old {y : α} (h : t.lookup k = some y) :
    w k y + total (t.insert k x) w = w k x + total t w := by
  unfold total
  have hperm : t.entries.Perm (⟨k, y⟩ :: List.kerase k t.entries) := by
    obtain ⟨z, l₁, l₂, hnot, hl, herase⟩ :=
      List.exists_of_kerase (AList.mem_keys.1 (AList.lookup_isSome.1 (by rw [h]; rfl)))
    have hz : z = y := by
      have hin : (⟨k, z⟩ : Sigma fun _ : κ => α) ∈ t.entries := by rw [hl]; simp
      have hlook := lookup_of_mem_entries hin
      rw [h] at hlook
      exact (Option.some.inj hlook).symm
    rw [herase, hl, hz]
    exact List.perm_middle
  have hsum := (hperm.map fun e => w e.1 e.2).sum_eq
  rw [AList.entries_insert, hsum]
  simp only [List.map_cons, List.sum_cons]
  rw [add_left_comm]

/-- What an insertion adds, when the weight of a key that is not there is 0. -/
theorem total_insert {d : M} [IsCancelAdd M] (hnew : t.lookup k = none → w k x = d)
    (hold : ∀ y, t.lookup k = some y → w k x = w k y + d) :
    total (t.insert k x) w = total t w + d := by
  cases h : t.lookup k with
  | none => rw [total_insert_new h, hnew h, add_comm]
  | some y =>
    have hsum := total_insert_old (x := x) (w := w) h
    rw [hold y h, add_assoc] at hsum
    rw [add_left_cancel hsum, add_comm]

end Total

/-- What is in a map after an insertion. -/
theorem mem_insert_entries {e : Sigma fun _ : κ => α} (h : e ∈ (t.insert k x).entries) :
    e = ⟨k, x⟩ ∨ e ∈ t.entries := by
  rw [AList.entries_insert, List.mem_cons] at h
  exact h.imp_right fun h => (List.kerase_sublist k t.entries).subset h

/-- An insertion leaves the other keys alone. -/
theorem mem_insert_of_ne {e : Sigma fun _ : κ => α} (h : e ∈ t.entries) (hne : e.1 ≠ k) :
    e ∈ (t.insert k x).entries := by
  have hlook : (t.insert k x).lookup e.1 = some e.2 := by
    rw [AList.lookup_insert_ne hne]
    exact lookup_of_mem_entries h
  exact mem_entries_of_lookup hlook

theorem mem_insert_self : (⟨k, x⟩ : Sigma fun _ : κ => α) ∈ (t.insert k x).entries := by
  rw [AList.entries_insert]
  exact List.mem_cons_self

end ModDNS.Data
