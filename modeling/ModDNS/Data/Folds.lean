import Mathlib.Data.List.Induction

/-!
# Loops

What a loop over a list leaves in the list that it fills (`mem_foldl`), and what holds after each of
its turns (`prefixes_iff`). Of two loops that pass entries on, the stricter one gives the same only
where the tests agree (`filter_map_eq_iff`).
-/

namespace ModDNS.Data

variable {α β : Type} {x : β} {F : List β → α → List β} {p : α → Prop}

/-- The loop collects `x` at one of its turns, if at every turn it depends on the turn alone whether
`x` is added. An invariant `I` of what has been collected may be used. -/
theorem mem_foldl_of {I : List β → Prop} (hkept : ∀ acc a, I acc → I (F acc a))
    (h : ∀ acc a, I acc → (x ∈ F acc a ↔ x ∈ acc ∨ p a)) (l : List α) {acc : List β}
    (hacc : I acc) :
    x ∈ l.foldl F acc ↔ x ∈ acc ∨ ∃ a ∈ l, p a := by
  induction l generalizing acc with
  | nil => simp
  | cons a l ih =>
    simp only [List.foldl_cons, ih (hkept acc a hacc), h acc a hacc, List.mem_cons,
      exists_eq_or_imp, or_assoc]

theorem mem_foldl (h : ∀ acc a, x ∈ F acc a ↔ x ∈ acc ∨ p a) (l : List α) (acc : List β) :
    x ∈ l.foldl F acc ↔ x ∈ acc ∨ ∃ a ∈ l, p a :=
  mem_foldl_of (I := fun _ => True) (fun _ _ _ => trivial) (fun acc a _ => h acc a) l trivial

/-- Each entry that passes the test gives one. -/
theorem flatMap_filter {p : α → Bool} {f : α → β} (l : List α) :
    (l.flatMap fun a => if p a then [f a] else []) = (l.filter p).map f := by
  induction l with
  | nil => rfl
  | cons a l ih =>
    rw [List.flatMap_cons, ih]
    cases hp : p a with
    | true => rw [List.filter_cons_of_pos hp]; rfl
    | false => rw [List.filter_cons_of_neg (by simp [hp])]; rfl

/-- Of two tests the stricter one passes the same on exactly when it passes every entry that the
other does. -/
theorem filter_map_eq_iff {p q : α → Bool} {f : α → β} {l : List α}
    (h : ∀ a ∈ l, p a = true → q a = true) :
    (l.filter p).map f = (l.filter q).map f ↔ ∀ a ∈ l, q a = true → p a = true := by
  have hall : l.filter p = (l.filter q).filter p := by
    rw [List.filter_filter]
    refine List.filter_congr fun a ha => ?_
    cases hp : p a with
    | true => rw [h a ha hp, Bool.and_self]
    | false => rw [Bool.false_and]
  constructor
  · intro heq a ha hq
    have hlength : ((l.filter q).filter p).length = (l.filter q).length := by
      rw [← hall, ← List.length_map f, heq, List.length_map]
    have hsame := List.filter_sublist.eq_of_length hlength
    exact List.filter_eq_self.1 hsame a (List.mem_filter.2 ⟨ha, hq⟩)
  · intro hpass
    have hsame : (l.filter q).filter p = l.filter q :=
      List.filter_eq_self.2 fun a ha => hpass a (List.mem_filter.1 ha).1 (List.mem_filter.1 ha).2
    rw [hall, hsame]

section Fallible

variable {f : α → Option β} {l : List α} {l' : List β}

/-- A loop that can fail, in terms of its turns. -/
theorem mapM_eq_some_iff : l.mapM f = some l' ↔ l.map f = l'.map some := by
  induction l generalizing l' with
  | nil => cases l' <;> simp
  | cons a l ih =>
    rw [List.mapM_cons, List.map_cons]
    cases hfa : f a with
    | none => cases l' <;> simp
    | some b =>
      cases l' with
      | nil => cases l.mapM f <;> simp
      | cons b' l' =>
        rw [List.map_cons, List.cons.injEq, ← ih]
        cases l.mapM f <;> simp

theorem isSome_mapM : (l.mapM f).isSome = true ↔ ∀ a ∈ l, (f a).isSome = true := by
  induction l with
  | nil => simp
  | cons a l ih =>
    rw [List.mapM_cons, List.forall_mem_cons, ← ih]
    cases f a <;> cases l.mapM f <;> simp

theorem length_mapM (h : l.mapM f = some l') : l'.length = l.length := by
  have hmap := congrArg List.length (mapM_eq_some_iff.1 h)
  rw [List.length_map, List.length_map] at hmap
  exact hmap.symm

/-- A turn that fails is the end. -/
theorem mapM_none {a : α} (ha : a ∈ l) (h : f a = none) : l.mapM f = none := by
  rw [← Option.not_isSome_iff_eq_none, isSome_mapM]
  intro hall
  have hsome := hall a ha
  rw [h] at hsome
  cases hsome

end Fallible

section Prefixes

variable {S I : Type} {step : S → I → S} {Inv P : S → Prop} {C : S → I → Prop} {s : S}

theorem foldl_invariant (hkept : ∀ s i, Inv s → Inv (step s i)) (h : Inv s) (inputs : List I) :
    Inv (inputs.foldl step s) :=
  List.foldlRecOn inputs step h fun s hs i _ => hkept s i hs

/-- **A property of all states is a condition on all turns**, where a turn keeps the property under
the condition and no longer. -/
theorem prefixes_iff (hkept : ∀ s i, Inv s → Inv (step s i)) (hinv : Inv s) (h : P s)
    (hstep : ∀ s i, Inv s → P s → (P (step s i) ↔ C s i)) (inputs : List I) :
    (∀ before, before <+: inputs → P (before.foldl step s)) ↔
      ∀ before i, before ++ [i] <+: inputs → C (before.foldl step s) i := by
  have hsnoc : ∀ before i, (before ++ [i]).foldl step s = step (before.foldl step s) i :=
    fun _ _ => List.foldl_append
  constructor
  · intro hall before i hpre
    have hbefore := hall before ((List.prefix_append _ _).trans hpre)
    have hafter := hall _ hpre
    rw [hsnoc] at hafter
    exact (hstep _ i (foldl_invariant hkept hinv before) hbefore).1 hafter
  · intro hall before
    induction before using List.reverseRecOn with
    | nil => exact fun _ => h
    | append_singleton before i ih =>
      intro hpre
      have hbefore := ih ((List.prefix_append _ _).trans hpre)
      rw [hsnoc]
      exact (hstep _ i (foldl_invariant hkept hinv before) hbefore).2 (hall before i hpre)

end Prefixes

end ModDNS.Data
