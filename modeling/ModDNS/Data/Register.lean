import Mathlib.Data.List.Induction
import Mathlib.Data.List.Pairwise

/-!
# Registers of names

A list of rows, each a key with a name, and the changes of such a list: a row is added, dropped or
renamed. All of it is about arbitrary keys and names.

* `distinct_add`, `distinct_drop`, `distinct_rename`: when keys and names stay distinct.
* `adds_sublist`, `kept_changes`: what a list of changes leaves of a register.
-/

namespace ModDNS.Data

variable {K N : Type}

inductive Change (K N : Type) where
  | add (k : K) (n : N)
  | drop (k : K)
  | rename (k : K) (n : N)
  | none

/-- The row that a change adds. -/
def Change.added : Change K N → Option (K × N)
  | .add k n => some (k, n)
  | _ => .none

/-- The change renames a row. -/
def Change.Renames : Change K N → Prop
  | .rename _ _ => True
  | _ => False

/-- The change adds a row or renames one. -/
def Change.Names : Change K N → Prop
  | .add _ _ | .rename _ _ => True
  | _ => False

/-- The change drops the row of a key. -/
def Change.Drops (k : K) : Change K N → Prop
  | .drop k' => k' = k
  | _ => False

/-- No two rows share a key or a name. -/
def Distinct (r : List (K × N)) : Prop := r.Pairwise fun a b => a.1 ≠ b.1 ∧ a.2 ≠ b.2

theorem distinct_iff {r : List (K × N)} :
    Distinct r ↔ (r.map Prod.fst).Nodup ∧ (r.map Prod.snd).Nodup := by
  unfold Distinct List.Nodup
  rw [List.pairwise_and_iff, List.pairwise_map, List.pairwise_map]

variable [DecidableEq K]

def Change.run (r : List (K × N)) : Change K N → List (K × N)
  | .add k n => r ++ [(k, n)]
  | .drop k => r.filter (·.1 ≠ k)
  | .rename k n => r.map fun row => if row.1 = k then (k, n) else row
  | .none => r

/-- The register after a list of changes. -/
def changed (r : List (K × N)) (cs : List (Change K N)) : List (K × N) := cs.foldl Change.run r

variable {r : List (K × N)} {k : K} {n : N} {c : Change K N} {cs : List (Change K N)}

theorem changed_concat : changed r (cs ++ [c]) = c.run (changed r cs) := by
  unfold changed
  rw [List.foldl_append]
  rfl

omit [DecidableEq K] in
theorem distinct_append (h : Distinct r) (hk : k ∉ r.map Prod.fst) (hn : n ∉ r.map Prod.snd) :
    Distinct (r ++ [(k, n)]) := by
  refine List.pairwise_append.2 ⟨h, List.pairwise_singleton _ _, fun a ha b hb => ?_⟩
  rw [List.mem_singleton.1 hb]
  refine ⟨fun heq => hk ?_, fun heq => hn ?_⟩
  · exact List.mem_map.2 ⟨a, ha, heq⟩
  · exact List.mem_map.2 ⟨a, ha, heq⟩

theorem distinct_drop (h : Distinct r) : Distinct ((Change.drop k).run r) :=
  h.sublist List.filter_sublist

/-- A row may get a name that no other row has. -/
theorem distinct_replace (h : Distinct r) (hn : ∀ row ∈ r, row.1 ≠ k → row.2 ≠ n) :
    Distinct ((Change.rename k n).run r) := by
  refine List.pairwise_map.2 (h.imp_of_mem fun {a b} ha hb hab => ?_)
  by_cases hka : a.1 = k
  · have hkb : b.1 ≠ k := fun heq => hab.1 (hka.trans heq.symm)
    rw [if_pos hka, if_neg hkb]
    exact ⟨hkb.symm, (hn b hb hkb).symm⟩
  · rw [if_neg hka]
    by_cases hkb : b.1 = k
    · rw [if_pos hkb]
      exact ⟨hka, hn a ha hka⟩
    · rw [if_neg hkb]
      exact hab

theorem distinct_rename (h : Distinct r) (hn : n ∉ r.map Prod.snd) :
    Distinct ((Change.rename k n).run r) :=
  distinct_replace h fun row hrow _ heq => hn (List.mem_map.2 ⟨row, hrow, heq⟩)

theorem keys_rename : ((Change.rename k n).run r).map Prod.fst = r.map Prod.fst := by
  show (r.map _).map Prod.fst = _
  rw [List.map_map]
  refine List.map_congr_left fun row _ => ?_
  show (if row.1 = k then (k, n) else row).1 = row.1
  split
  · next h => exact h.symm
  · rfl

/-- A change that renames nothing leaves a part of what there was, with what it adds. -/
theorem run_sublist (h : ¬ c.Renames) : (c.run r).Sublist (r ++ c.added.toList) := by
  cases c with
  | add k n => exact List.Sublist.refl _
  | drop k => exact (List.filter_sublist).trans (List.sublist_append_left _ _)
  | rename k n => exact absurd trivial h
  | none => exact List.sublist_append_left _ _

/-- **What is left, at most**: changes without a renaming. -/
theorem adds_sublist (h : ∀ c ∈ cs, ¬ c.Renames) :
    (changed r cs).Sublist (r ++ cs.filterMap Change.added) := by
  induction cs using List.reverseRecOn with
  | nil => exact List.sublist_append_left _ _
  | append_singleton cs c ih =>
    rw [changed_concat, List.filterMap_append, ← List.append_assoc]
    refine (run_sublist (h c (by simp))).trans ?_
    have hadded : c.added.toList = [c].filterMap Change.added := by
      cases hc : c.added <;> simp [hc]
    rw [hadded]
    exact (ih fun c' hc' => h c' (List.mem_append_left _ hc')).append_right _

/-- **What is left, at least**: a key that is not dropped. -/
theorem kept_changes (hk : k ∈ r.map Prod.fst) (h : ∀ c ∈ cs, ¬ c.Drops k) :
    k ∈ (changed r cs).map Prod.fst := by
  induction cs using List.reverseRecOn with
  | nil => exact hk
  | append_singleton cs c ih =>
    have hprev := ih fun c' hc' => h c' (List.mem_append_left _ hc')
    have hc := h c (by simp)
    rw [changed_concat]
    cases c with
    | add k' n =>
      exact List.mem_map.2 ((List.mem_map.1 hprev).imp fun row hrow =>
        ⟨List.mem_append_left _ hrow.1, hrow.2⟩)
    | drop k' =>
      obtain ⟨row, hrow, rfl⟩ := List.mem_map.1 hprev
      refine List.mem_map.2 ⟨row, List.mem_filter.2 ⟨hrow, ?_⟩, rfl⟩
      exact decide_eq_true fun heq => hc heq.symm
    | rename k' n =>
      rw [keys_rename]
      exact hprev
    | none => exact hprev

end ModDNS.Data
