import Mathlib.Computability.RegularExpressions

/-!
# Regular expressions with character classes

Mathlib's regular expressions have single characters only. A class is the sum of its
characters, and a word in the language of an expression is taken apart by the lemmas here.
-/

namespace ModDNS.Rules.Regex

open RegularExpression

variable {α : Type} {cs x y : List α} {P Q : RegularExpression α} {a : α}

/-- One of the characters `cs`. -/
def cls : List α → RegularExpression α
  | [] => 0
  | c :: cs => char c + cls cs

/-- An optional part. -/
def opt (P : RegularExpression α) : RegularExpression α := 1 + P

theorem mem_char : x ∈ (char a).matches' ↔ x = [a] := Iff.rfl

theorem mem_cls : x ∈ (cls cs).matches' ↔ ∃ c ∈ cs, x = [c] := by
  induction cs with
  | nil => simp [cls, RegularExpression.matches'_zero]
  | cons c cs ih =>
    rw [cls, RegularExpression.matches'_add, Language.mem_add, ih, mem_char]
    simp

theorem mem_seq : x ∈ (P * Q).matches' ↔ ∃ y ∈ P.matches', ∃ z ∈ Q.matches', y ++ z = x := by
  rw [RegularExpression.matches'_mul, Language.mem_mul]

theorem mem_opt : x ∈ (opt P).matches' ↔ x = [] ∨ x ∈ P.matches' := by
  rw [opt, RegularExpression.matches'_add, Language.mem_add, RegularExpression.matches'_epsilon,
    Language.mem_one]

theorem mem_star :
    x ∈ P.star.matches' ↔ ∃ parts : List (List α), x = parts.flatten ∧
    ∀ y ∈ parts, y ∈ P.matches' := by
  rw [RegularExpression.matches'_star, Language.mem_kstar]

/-- A run of a class is any word over it. -/
theorem mem_star_cls : x ∈ (cls cs).star.matches' ↔ ∀ c ∈ x, c ∈ cs := by
  rw [mem_star]
  constructor
  · rintro ⟨parts, rfl, hparts⟩ c hc
    obtain ⟨y, hy, hc⟩ := List.mem_flatten.1 hc
    obtain ⟨d, hd, rfl⟩ := mem_cls.1 (hparts y hy)
    rwa [List.mem_singleton.1 hc]
  · intro h
    refine ⟨x.map fun c => [c], by simp [← List.flatMap_def], ?_⟩
    rintro y hy
    obtain ⟨c, hc, rfl⟩ := List.mem_map.1 hy
    exact mem_cls.2 ⟨c, h c hc, rfl⟩

end ModDNS.Rules.Regex
