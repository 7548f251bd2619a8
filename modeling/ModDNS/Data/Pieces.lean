import Mathlib.Data.List.Basic

/-!
# Pieces

A text as the pieces between the separators.

* `splitOn_led`, `exists_led`: a text and its pieces.
* `splitOn_glue`: the pieces of one text after another.
* `cut_unique`: what is before the first separator.
-/

namespace ModDNS.Data

variable {α : Type} {sep : α} {s₀ t : List α} {ss : List (List α)}

/-- Pieces, each after its separator. -/
def led (sep : α) (ss : List (List α)) : List α := ss.flatMap fun s => sep :: s

@[simp] theorem led_nil : led sep [] = [] := rfl

@[simp] theorem led_cons {s : List α} : led sep (s :: ss) = sep :: (s ++ led sep ss) := by
  unfold led
  rw [List.flatMap_cons, List.cons_append]

theorem led_append {ss' : List (List α)} : led sep (ss ++ ss') = led sep ss ++ led sep ss' :=
  List.flatMap_append ..

theorem intercalate_eq : [sep].intercalate (s₀ :: ss) = s₀ ++ led sep ss := by
  induction ss generalizing s₀ with
  | nil => simp [List.intercalate]
  | cons s ss ih =>
    rw [List.intercalate_cons_cons, ih, led_cons, List.append_assoc]
    rfl

/-- The text up to the first separator is one text only. -/
theorem cut_unique {a b x y : List α} (ha : sep ∉ a) (hb : sep ∉ b)
    (h : a ++ sep :: x = b ++ sep :: y) :
    a = b ∧ x = y := by
  induction a generalizing b with
  | nil =>
    cases b with
    | nil => exact ⟨rfl, (List.cons.inj h).2⟩
    | cons c b => exact absurd (List.cons.inj h).1 (fun heq => hb (heq ▸ List.mem_cons_self ..))
  | cons c a ih =>
    cases b with
    | nil => exact absurd (List.cons.inj h).1.symm (fun heq => ha (heq ▸ List.mem_cons_self ..))
    | cons d b =>
      obtain ⟨rfl, htail⟩ := List.cons.inj h
      obtain ⟨rfl, hxy⟩ :=
        ih (fun hm => ha (List.mem_cons_of_mem _ hm))
          (fun hm => hb (List.mem_cons_of_mem _ hm)) htail
      exact ⟨rfl, hxy⟩

/-- A character that is no separator is in the pieces. -/
theorem not_mem_led {c : α} (hc : c ≠ sep) : c ∉ led sep ss ↔ ∀ s ∈ ss, c ∉ s := by
  induction ss with
  | nil => simp
  | cons s ss ih =>
    rw [led_cons, List.mem_cons, List.mem_append, List.forall_mem_cons, ← ih, not_or, not_or,
      and_iff_right hc]

theorem not_mem_intercalate {c : α} (hc : c ≠ sep) (h : ∀ s ∈ ss, c ∉ s) :
    c ∉ [sep].intercalate ss := by
  cases ss with
  | nil => exact List.not_mem_nil
  | cons s ss =>
    rw [List.forall_mem_cons] at h
    rw [intercalate_eq, List.mem_append, not_or, not_mem_led hc]
    exact h

theorem intercalate_middle {x y : List α} {a b : List (List α)}
    (h : [sep].intercalate (a ++ x :: b) = [sep].intercalate (a ++ y :: b)) : x = y := by
  cases a with
  | nil =>
    rw [List.nil_append, List.nil_append, intercalate_eq, intercalate_eq] at h
    exact List.append_cancel_right h
  | cons s₀ ss =>
    rw [List.cons_append, List.cons_append, intercalate_eq, intercalate_eq, led_append, led_append,
      led_cons, led_cons] at h
    have hrest : sep :: (x ++ led sep b) = sep :: (y ++ led sep b) :=
      List.append_cancel_left (List.append_cancel_left h)
    exact List.append_cancel_right (List.cons.inj hrest).2

variable [DecidableEq α]

theorem ne_sep (h : sep ∉ s₀) : ∀ c ∈ s₀, decide (c ≠ sep) = true := by
  intro c hc
  apply decide_eq_true
  rintro rfl
  exact h hc

theorem takeWhile_cut (h : sep ∉ s₀) : (s₀ ++ led sep ss).takeWhile (· ≠ sep) = s₀ := by
  rw [List.takeWhile_append_of_pos (ne_sep h)]
  cases ss <;> simp

theorem dropWhile_cut (h : sep ∉ s₀) : (s₀ ++ led sep ss).dropWhile (· ≠ sep) = led sep ss := by
  rw [List.dropWhile_append_of_pos (ne_sep h)]
  cases ss <;> simp

theorem exists_first (sep : α) (t : List α) : ∃ first after, t.splitOn sep = first :: after :=
  List.exists_cons_of_ne_nil (List.splitOn_ne_nil sep t)

theorem exists_last (sep : α) (t : List α) : ∃ before last, t.splitOn sep = before ++ [last] :=
  ⟨_, _, (List.dropLast_append_getLast (List.splitOn_ne_nil sep t)).symm⟩

theorem splitOn_led (h₀ : sep ∉ s₀) (h : ∀ s ∈ ss, sep ∉ s) :
    (s₀ ++ led sep ss).splitOn sep = s₀ :: ss := by
  rw [← intercalate_eq]
  exact List.splitOn_intercalate sep (List.forall_mem_cons.2 ⟨h₀, h⟩) (List.cons_ne_nil _ _)

theorem led_inj {ss' : List (List α)} (h : ∀ s ∈ ss, sep ∉ s) (h' : ∀ s ∈ ss', sep ∉ s)
    (heq : led sep ss = led sep ss') :
    ss = ss' := by
  have hsplit : ∀ {ts : List (List α)}, (∀ s ∈ ts, sep ∉ s) → (led sep ts).splitOn sep = [] :: ts :=
    fun hts => splitOn_led List.not_mem_nil hts
  have hcons := hsplit h
  rw [heq, hsplit h'] at hcons
  exact (List.cons.inj hcons).2.symm

/-- No piece has the separator. -/
theorem not_mem_splitOn {s : List α} (h : s ∈ t.splitOn sep) : sep ∉ s := by
  induction t generalizing s with
  | nil =>
    rw [List.splitOn_nil, List.mem_singleton] at h
    rw [h]
    exact List.not_mem_nil
  | cons c t ih =>
    rw [List.splitOn_cons_eq_if_modifyHead] at h
    split at h
    · rcases List.mem_cons.1 h with rfl | h
      · exact List.not_mem_nil
      · exact ih h
    · rename_i hc
      obtain ⟨first, rest, hsplit⟩ := exists_first sep t
      rw [hsplit, List.modifyHead_cons] at h
      rcases List.mem_cons.1 h with rfl | h
      · have hfirst : sep ∉ first := ih (by rw [hsplit]; exact List.mem_cons_self ..)
        intro hmem
        rcases List.mem_cons.1 hmem with heq | hmem
        · exact hc (by simp [heq])
        · exact hfirst hmem
      · exact ih (by rw [hsplit]; exact List.mem_cons_of_mem _ h)

/-- The characters of a piece are in the text. -/
theorem mem_of_piece {s : List α} {c : α} (hs : s ∈ t.splitOn sep) (hc : c ∈ s) : c ∈ t := by
  obtain ⟨first, rest, hsplit⟩ := exists_first sep t
  have ht : t = first ++ led sep rest := by
    rw [← intercalate_eq, ← hsplit, List.intercalate_splitOn]
  rw [hsplit] at hs
  rw [ht]
  rcases List.mem_cons.1 hs with rfl | hs
  · exact List.mem_append_left _ hc
  · exact List.mem_append_right _ (List.mem_flatMap.2 ⟨s, hs, List.mem_cons_of_mem _ hc⟩)

/-- A text is its pieces. -/
theorem eq_led (h : t.splitOn sep = s₀ :: ss) :
    t = s₀ ++ led sep ss ∧ sep ∉ s₀ ∧ ∀ s ∈ ss, sep ∉ s := by
  refine ⟨?_, not_mem_splitOn (t := t) (by rw [h]; exact List.mem_cons_self ..), fun s hs => ?_⟩
  · rw [← intercalate_eq, ← h, List.intercalate_splitOn]
  · exact not_mem_splitOn (t := t) (by rw [h]; exact List.mem_cons_of_mem _ hs)

/-- Where one text follows another, the last piece of the one and the first piece of the other are
one piece. -/
theorem splitOn_glue {a b last first : List α} {before after : List (List α)}
    (ha : a.splitOn sep = before ++ [last]) (hb : b.splitOn sep = first :: after) :
    (a ++ b).splitOn sep = before ++ (last ++ first) :: after := by
  obtain ⟨rfl, hfirst, hafter⟩ := eq_led hb
  cases before with
  | nil =>
    obtain ⟨heq, hlast, -⟩ := eq_led ha
    rw [led_nil, List.append_nil] at heq
    rw [heq, ← List.append_assoc]
    exact splitOn_led (fun h => (List.mem_append.1 h).elim hlast hfirst) hafter
  | cons s₀ ss =>
    rw [List.cons_append] at ha
    obtain ⟨rfl, hs₀, hss⟩ := eq_led ha
    have hjoin : s₀ ++ led sep (ss ++ [last]) ++ (first ++ led sep after) = s₀ ++ led sep
        (ss ++ (last ++ first) :: after) := by
      simp [led_append]
    rw [hjoin]
    refine splitOn_led hs₀ fun s hs => ?_
    rcases List.mem_append.1 hs with hs | hs
    · exact hss s (List.mem_append_left _ hs)
    · rcases List.mem_cons.1 hs with rfl | hs
      · exact fun h =>
          (List.mem_append.1 h).elim
            (hss last (List.mem_append_right _ (List.mem_singleton_self _))) hfirst
      · exact hafter s hs

/-- A text without separators is in one piece. -/
theorem splitOn_between {a x b last first : List α} {before after : List (List α)}
    (ha : a.splitOn sep = before ++ [last]) (hx : sep ∉ x) (hb : b.splitOn sep = first :: after) :
    (a ++ (x ++ b)).splitOn sep = before ++ (last ++ (x ++ first)) :: after := by
  have hmiddle : (x ++ b).splitOn sep = [] ++ (x ++ first) :: after :=
    splitOn_glue (List.splitOn_eq_singleton hx) hb
  exact splitOn_glue ha hmiddle

end ModDNS.Data
