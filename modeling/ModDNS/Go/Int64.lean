import Mathlib.Algebra.Order.Ring.Int
import ModDNS.Go.Strings

/-!
# Signed numbers of 64 bits

A number of Go is the integer that it stands for; an operation wraps. `Checked` also remembers
whether an operation on the way has wrapped, which the code cannot see.
-/

namespace ModDNS.Go

/-- What an `int64` holds. -/
def InInt64 (x : ℤ) : Prop := -2 ^ 63 ≤ x ∧ x < 2 ^ 63

instance : DecidablePred InInt64 := fun _ => inferInstanceAs (Decidable (_ ∧ _))

/-- An `int64`; on the platforms of the services, also an `int` and a `time.Duration`. -/
abbrev I64 := {x : ℤ // InInt64 x}

def wrap64 (x : ℤ) : ℤ := (x + 2 ^ 63) % 2 ^ 64 - 2 ^ 63

theorem wrap64_eq {x : ℤ} (h : InInt64 x) : wrap64 x = x := by
  unfold InInt64 at h
  unfold wrap64
  omega

/-- A number, and whether no operation has overflowed. -/
structure Checked where
  value : ℤ
  exact : Bool
  deriving DecidableEq

namespace Checked

def of (x : ℤ) : Checked := ⟨x, true⟩

def mul (a : Checked) (k : ℤ) : Checked := ⟨wrap64 (a.value * k), a.exact && InInt64 (a.value * k)⟩

def add (a b : Checked) : Checked :=
  ⟨wrap64 (a.value + b.value), a.exact && b.exact && InInt64 (a.value + b.value)⟩

variable {a b : Checked}

theorem add_eq (ha : a.exact = true) (hb : b.exact = true) (h : InInt64 (a.value + b.value)) :
    a.add b = of (a.value + b.value) := by
  unfold add of
  rw [ha, hb, wrap64_eq h, decide_eq_true h, Bool.and_self, Bool.and_self]

end Checked

/-- A decimal number with an optional sign. -/
def numeral (s : String) : Option ℤ :=
  match s.toList with
  | '-' :: cs => (parseDigits cs).map fun n => -(n : ℤ)
  | '+' :: cs => (parseDigits cs).map fun n => (n : ℤ)
  | cs => (parseDigits cs).map fun n => (n : ℤ)

/-- `strconv.Atoi`; `none` is an error. -/
def atoi (s : String) : Option ℤ := (numeral s).filter fun n => InInt64 n

end ModDNS.Go
