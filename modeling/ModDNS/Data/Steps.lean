import Mathlib.Data.List.Basic

/-!
# Lists of steps

What a list of steps makes of a state. A step may have several results, or none.

* `steps_regroup`: where the steps of one kind commute with those of the other, a list comes to what
  it comes to when all steps of the first kind are taken first.
-/

namespace ModDNS.Data

variable {σ α : Type} {R R' : σ → α → σ → Prop} {a b c : σ} {u : α} {l l₁ l₂ : List α}

/-- The steps of the list, one after the other, can take `a` to `b`. -/
inductive Steps (R : σ → α → σ → Prop) : σ → List α → σ → Prop where
  | nil (a : σ) : Steps R a [] a
  | cons {a b c : σ} {u : α} {l : List α} (hstep : R a u b)
      (hrest : Steps R b l c) : Steps R a (u :: l) c

theorem steps_nil (h : Steps R a [] b) : b = a := by
  cases h
  rfl

theorem steps_cons (h : Steps R a (u :: l) c) : ∃ b, R a u b ∧ Steps R b l c := by
  cases h with
  | cons hstep hrest => exact ⟨_, hstep, hrest⟩

theorem steps_append : Steps R a (l₁ ++ l₂) c ↔ ∃ b, Steps R a l₁ b ∧ Steps R b l₂ c := by
  induction l₁ generalizing a with
  | nil =>
    constructor
    · exact fun h => ⟨a, .nil a, h⟩
    · rintro ⟨b, hnil, h⟩
      rwa [steps_nil hnil] at h
  | cons u l₁ ih =>
    constructor
    · intro h
      obtain ⟨b, hstep, hrest⟩ := steps_cons h
      obtain ⟨m, h₁, h₂⟩ := ih.1 hrest
      exact ⟨m, .cons hstep h₁, h₂⟩
    · rintro ⟨m, h, h₂⟩
      obtain ⟨b, hstep, h₁⟩ := steps_cons h
      exact .cons hstep (ih.2 ⟨m, h₁, h₂⟩)

theorem steps_snoc (h : Steps R a (l ++ [u]) c) : ∃ b, Steps R a l b ∧ R b u c := by
  obtain ⟨b, hl, hu⟩ := steps_append.1 h
  obtain ⟨c', hstep, hnil⟩ := steps_cons hu
  obtain rfl := steps_nil hnil
  exact ⟨b, hl, hstep⟩

theorem steps_mono (hR : ∀ a u b, R a u b → R' a u b) (h : Steps R a l b) : Steps R' a l b := by
  induction h with
  | nil a => exact .nil a
  | cons hstep _ ih => exact .cons (hR _ _ _ hstep) ih

section Regroup

variable {p : α → Prop}

/-- A step of the second kind goes to the front. -/
theorem steps_front (hcomm : ∀ a b c u v, p u → ¬ p v → R a u b → R b v c → ∃ b', R a v b' ∧
    R b' u c) (hl : ∀ u ∈ l₁, p u)
    (hu : ¬ p u) (h : Steps R a (l₁ ++ u :: l₂) c) : Steps R a (u :: (l₁ ++ l₂)) c := by
  induction l₁ generalizing a with
  | nil => exact h
  | cons v l₁ ih =>
    obtain ⟨hv, hl⟩ := List.forall_mem_cons.1 hl
    obtain ⟨b, hstep, hrest⟩ := steps_cons h
    obtain ⟨b₁, hstep₁, hrest₁⟩ := steps_cons (ih hl hrest)
    obtain ⟨b', hfirst, hsecond⟩ := hcomm a b b₁ v u hv hu hstep hstep₁
    exact .cons hfirst (.cons hsecond hrest₁)

/-- **Steps of two kinds**, the first kind first, come to what they come to in the order of the
list. -/
theorem steps_regroup [DecidablePred p]
    (hcomm : ∀ a b c u v, p u → ¬ p v → R a u b → R b v c → ∃ b', R a v b' ∧ R b' u c)
    (h : Steps R a (l.filter (fun u => p u) ++ l.filter (fun u => ¬ p u)) c) : Steps R a l c := by
  induction l generalizing a with
  | nil => exact h
  | cons u l ih =>
    by_cases hu : p u
    · rw [List.filter_cons_of_pos (by simpa using hu),
        List.filter_cons_of_neg (by simpa using hu)] at h
      obtain ⟨b, hstep, hrest⟩ := steps_cons h
      exact .cons hstep (ih hrest)
    · rw [List.filter_cons_of_neg (by simpa using hu),
        List.filter_cons_of_pos (by simpa using hu)] at h
      have hfront := steps_front hcomm (fun v hv => by simpa using (List.mem_filter.1 hv).2) hu h
      obtain ⟨b, hstep, hrest⟩ := steps_cons hfront
      exact .cons hstep (ih hrest)

end Regroup

end ModDNS.Data
