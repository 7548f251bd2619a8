import Mathlib.Algebra.Order.Ring.Nat
import Mathlib.Tactic.Ring

/-!
# Numerals in base 256

A number in bytes, the most significant one first. `digits i n` are its last `n` bytes and `size i`
is how many it needs, so that `digits i (size i)` is its shortest numeral.

* `value_digits`, `digits_value`: reading and writing undo each other.
* `size_value`: a numeral without a leading zero is as long as its number needs.
-/

namespace ModDNS.Data.BigEndian

/-- The number of the bytes, read behind those that make `acc`. -/
def value (acc : ℕ) (bs : List UInt8) : ℕ := bs.foldl (fun n b => n * 256 + b.toNat) acc

/-- The last `n` bytes of `i`. -/
def digits (i : ℕ) : ℕ → List UInt8
  | 0 => []
  | n + 1 => UInt8.ofNat (i >>> (n * 8)) :: digits i n

/-- How many bytes `i` takes; no number takes none. -/
def size (i : ℕ) : ℕ := if h : 255 < i then size (i >>> 8) + 1 else 1
  termination_by i
  decreasing_by
    rw [Nat.shiftRight_eq_div_pow]
    omega

variable {acc i n : ℕ} {b : UInt8} {bs : List UInt8}

@[simp] theorem value_nil : value acc [] = acc := rfl

@[simp] theorem value_cons : value acc (b :: bs) = value (acc * 256 + b.toNat) bs := rfl

@[simp] theorem length_digits : (digits i n).length = n := by
  induction n with
  | zero => rfl
  | succ n ih => simp [digits, ih]

/-- The byte at `n` is the one that `n` more bytes follow. -/
theorem toNat_digit (i n : ℕ) : (UInt8.ofNat (i >>> (n * 8))).toNat = i / 256 ^ n % 256 := by
  have hpow : 2 ^ (n * 8) = 256 ^ n := by rw [Nat.mul_comm, Nat.pow_mul]
  rw [UInt8.toNat_ofNat', Nat.shiftRight_eq_div_pow, hpow]

theorem value_append (acc : ℕ) (bs : List UInt8) :
    value acc bs = acc * 256 ^ bs.length + value 0 bs := by
  induction bs generalizing acc with
  | nil => simp
  | cons b bs ih =>
    rw [value_cons, value_cons, ih, ih (0 * 256 + b.toNat), List.length_cons, pow_succ]
    ring

theorem value_lt (bs : List UInt8) : value 0 bs < 256 ^ bs.length := by
  induction bs with
  | nil => simp
  | cons b bs ih =>
    have hb := b.toNat_lt
    have hmul : b.toNat * 256 ^ bs.length ≤ 255 * 256 ^ bs.length :=
      Nat.mul_le_mul_right _ (by omega)
    rw [value_cons, value_append, Nat.zero_mul, Nat.zero_add, List.length_cons, pow_succ]
    omega

theorem le_value (b : UInt8) (bs : List UInt8) : b.toNat * 256 ^ bs.length ≤ value 0 (b :: bs) := by
  rw [value_cons, value_append, Nat.zero_mul, Nat.zero_add]
  exact Nat.le_add_right _ _

theorem value_digits (acc i n : ℕ) : value acc (digits i n) = acc * 256 ^ n + i % 256 ^ n := by
  induction n generalizing acc with
  | zero => simp [digits, Nat.mod_one]
  | succ n ih =>
    have hsplit : i % 256 ^ (n + 1) = i / 256 ^ n % 256 * 256 ^ n + i % 256 ^ n := by
      rw [pow_succ, Nat.mod_mul]
      ring
    rw [digits, value_cons, toNat_digit, ih, hsplit, pow_succ]
    ring

/-- Only the last bytes of a number are in its numeral. -/
theorem digits_mod (h : n ≤ acc) : digits (i % 256 ^ acc) n = digits i n := by
  induction n with
  | zero => rfl
  | succ n ih =>
    have hdigit : i % 256 ^ acc / 256 ^ n % 256 = i / 256 ^ n % 256 := by
      obtain ⟨m, rfl⟩ := Nat.exists_eq_add_of_le h
      rw [show n + 1 + m = n +
        (m + 1) by omega, pow_add, Nat.mod_mul_right_div_self, pow_succ, Nat.mul_comm (256 ^ m),
        Nat.mod_mul_right_mod]
    rw [digits, digits, ih (by omega)]
    congr 1
    apply UInt8.toNat_inj.mp
    rw [toNat_digit, toNat_digit, hdigit]

theorem digits_value (bs : List UInt8) : digits (value 0 bs) bs.length = bs := by
  induction bs with
  | nil => rfl
  | cons b bs ih =>
    have hb := b.toNat_lt
    have hlt := value_lt bs
    have hvalue : value 0 (b :: bs) = b.toNat * 256 ^ bs.length + value 0 bs := by
      rw [value_cons, value_append, Nat.zero_mul, Nat.zero_add]
    have hhead : value 0 (b :: bs) / 256 ^ bs.length % 256 = b.toNat := by
      rw [hvalue, Nat.add_comm, Nat.add_mul_div_right _ _ (Nat.pow_pos (by decide)),
        Nat.div_eq_of_lt hlt, Nat.zero_add,
        Nat.mod_eq_of_lt hb]
    have htail : value 0 (b :: bs) % 256 ^ bs.length = value 0 bs := by
      rw [hvalue, Nat.add_comm, Nat.add_mul_mod_self_right, Nat.mod_eq_of_lt hlt]
    rw [List.length_cons, digits]
    congr 1
    · apply UInt8.toNat_inj.mp
      rw [toNat_digit, hhead]
    · rw [← digits_mod le_rfl, htail, ih]

theorem size_pos : 0 < size i := by
  unfold size
  split <;> omega

theorem lt_size (i : ℕ) : i < 256 ^ size i := by
  induction i using size.induct with
  | case1 i h ih =>
    rw [size, dif_pos h, pow_succ]
    rw [Nat.shiftRight_eq_div_pow] at ih ⊢
    omega
  | case2 i h =>
    rw [size, dif_neg h]
    omega

theorem size_le (i : ℕ) (h : i < 256 ^ n) (hn : 0 < n) : size i ≤ n := by
  induction i using size.induct generalizing n with
  | case1 i hi ih =>
    obtain ⟨m, rfl⟩ : ∃ m, n = m + 1 := ⟨n - 1, by omega⟩
    have hm : 0 < m := by
      by_contra h0
      obtain rfl : m = 0 := by omega
      omega
    rw [size, dif_pos hi]
    have hdiv : i >>> 8 < 256 ^ m := by
      rw [Nat.shiftRight_eq_div_pow]
      rw [pow_succ] at h
      omega
    have := ih hdiv hm
    omega
  | case2 i hi =>
    rw [size, dif_neg hi]
    exact hn

/-- **A numeral without a leading zero is the shortest one.** -/
theorem size_value (hb : b.toNat ≠ 0) : size (value 0 (b :: bs)) = (b :: bs).length := by
  apply Nat.le_antisymm (size_le _ (value_lt _) (by simp))
  by_contra hlt
  have hsize := lt_size (value 0 (b :: bs))
  have hle := le_value b bs
  have hpow : 256 ^ size (value 0 (b :: bs)) ≤ 256 ^ bs.length :=
    Nat.pow_le_pow_right (by omega) (by rw [List.length_cons] at hlt; omega)
  have hone : 1 * 256 ^ bs.length ≤ b.toNat * 256 ^ bs.length := Nat.mul_le_mul_right _ (by omega)
  omega

/-- The shortest numeral of a number that is not zero has no leading zero. -/
theorem head_digits (hi : 0 < i) : ∃ b bs, digits i (size i) = b :: bs ∧ b.toNat ≠ 0 := by
  obtain ⟨n, hn⟩ : ∃ n, size i = n + 1 := ⟨size i - 1, by have := size_pos (i := i); omega⟩
  refine ⟨_, _, by rw [hn, digits], ?_⟩
  intro hzero
  rw [toNat_digit] at hzero
  have hlt := lt_size i
  rw [hn, pow_succ] at hlt
  have hdiv : i / 256 ^ n < 256 := Nat.div_lt_of_lt_mul hlt
  have hsmall : i < 256 ^ n := by
    rw [Nat.mod_eq_of_lt hdiv] at hzero
    exact (Nat.div_eq_zero_iff.mp hzero).resolve_left (Nat.pow_pos (by decide)).ne'
  rcases Nat.eq_zero_or_pos n with rfl | hpos
  · omega
  · have := size_le i hsmall hpos
    omega

end ModDNS.Data.BigEndian
