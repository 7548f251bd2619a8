import Mathlib.Data.List.Basic
import Mathlib.Algebra.Order.Ring.Nat

/-!
# Chunks

A loop that goes through a list in slices of a fixed size loses nothing and invents nothing
(`flatten_chunks`), and no slice is empty or too long (`mem_chunks`).
-/

namespace ModDNS.Data

variable {α : Type}

/-- At most so many chunks. -/
def chunksUpTo (size : ℕ) : ℕ → List α → List (List α)
  | 0, _ => []
  | _ + 1, [] => []
  | fuel + 1, x :: l => (x :: l).take size :: chunksUpTo size fuel ((x :: l).drop size)

/-- The slices `l[start:end]` of a list, of which the last may be shorter. -/
def chunks (size : ℕ) (l : List α) : List (List α) := chunksUpTo size l.length l

variable {size fuel : ℕ} {l : List α}

theorem flatten_chunksUpTo (hsize : 0 < size) (hfuel : l.length ≤ fuel) :
    (chunksUpTo size fuel l).flatten = l := by
  induction fuel generalizing l with
  | zero =>
    have hl : l = [] := List.length_eq_zero_iff.1 (by omega)
    rw [hl]
    rfl
  | succ fuel ih =>
    cases l with
    | nil => rfl
    | cons x l =>
      have hrest : ((x :: l).drop size).length ≤ fuel := by
        rw [List.length_drop]
        omega
      unfold chunksUpTo
      rw [List.flatten_cons, ih hrest, List.take_append_drop]

theorem flatten_chunks (hsize : 0 < size) : (chunks size l).flatten = l :=
  flatten_chunksUpTo hsize (Nat.le_refl _)

theorem chunks_ne_nil (hsize : 0 < size) (hl : l ≠ []) : chunks size l ≠ [] := by
  intro hnil
  have hflat : (chunks size l).flatten = l := flatten_chunks hsize
  rw [hnil] at hflat
  exact hl hflat.symm

theorem mem_chunksUpTo (hsize : 0 < size) {c : List α} (h : c ∈ chunksUpTo size fuel l) :
    c ≠ [] ∧ c.length ≤ size := by
  induction fuel generalizing l with
  | zero => cases h
  | succ fuel ih =>
    cases l with
    | nil => cases h
    | cons x l =>
      unfold chunksUpTo at h
      rcases List.mem_cons.1 h with rfl | hrest
      · refine ⟨?_, List.length_take_le _ _⟩
        obtain ⟨n, rfl⟩ : ∃ n, size = n + 1 := ⟨size - 1, by omega⟩
        simp
      · exact ih hrest

theorem mem_chunks (hsize : 0 < size) {c : List α} (h : c ∈ chunks size l) :
    c ≠ [] ∧ c.length ≤ size :=
  mem_chunksUpTo hsize h

end ModDNS.Data
