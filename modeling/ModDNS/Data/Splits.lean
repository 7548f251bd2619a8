import Mathlib.Data.List.Basic

/-!
# Conditions on the splits of a list

A condition on a run says what has happened before an event, or what may come between two of them.
On a list that is given it can be evaluated.

* `forall_splits`: conditions on an element and those before it.
* `Between.mid`: conditions on an element, a later one, and those between them.
-/

namespace ModDNS.Data

variable {α : Type} {l l₁ l₂ l₃ : List α} {x y z : α}

/-- What holds of every element and those before it holds of every split. -/
theorem forall_splits {P : List α → α → Prop} (h : ∀ n (hn : n < l.length), P (l.take n) l[n])
    (l₁ : List α) (x : α) (l₂ : List α) (hl : l = l₁ ++ x :: l₂) : P l₁ x := by
  subst hl
  have hx := h l₁.length (by simp)
  simpa using hx

variable {P : α → Prop} {R : α → α → α → Prop}

/-- Behind each `x` with `P x`, any `y` that comes before a `z` is in the relation `R x y z`. -/
def Between (P : α → Prop) (R : α → α → α → Prop) (l : List α) : Prop :=
  ∀ n (hn : n < l.length), P l[n] → (l.drop (n + 1)).Pairwise (R l[n])

instance [DecidablePred P] [∀ x y z, Decidable (R x y z)] : Decidable (Between P R l) := by
  unfold Between
  infer_instance

theorem Between.split (h : Between P R (l₁ ++ x :: l₂)) (hx : P x) : l₂.Pairwise (R x) := by
  have hget : (l₁ ++ x :: l₂)[l₁.length]? = some x := by simp
  obtain ⟨hlength, hget⟩ := List.getElem?_eq_some_iff.1 hget
  have hpairs := h l₁.length hlength (by rwa [hget])
  have hdrop : (l₁ ++ x :: l₂).drop (l₁.length + 1) = l₂ := by
    rw [List.append_cons]
    exact List.drop_left' (by simp)
  rwa [hget, hdrop] at hpairs

/-- Any `y` between an `x` and a `z`. -/
theorem Between.mid (h : Between P R (l₁ ++ x :: (l₂ ++ z :: l₃))) (hx : P x) (hy : y ∈ l₂) :
    R x y z := by
  have hpairs := (List.pairwise_append.1 (h.split hx)).2.2
  exact hpairs y hy z List.mem_cons_self

end ModDNS.Data
