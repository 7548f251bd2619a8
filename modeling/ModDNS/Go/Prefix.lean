import Mathlib.Algebra.Ring.Nat
import ModDNS.Go.Net

/-!
# Prefixes as ranges of addresses

The bytes of an address make a number, and a prefix of length `n` contains the addresses whose first
`n` bits are its own. The masks of `IPNet.Contains` compute this (`IPNet.contains_iff`).
-/

namespace ModDNS.Go

/-- An address as a number, the first byte in front. -/
def IP.value : IP → ℕ
  | [] => 0
  | b :: ip => b.toNat * 256 ^ ip.length + IP.value ip

/-- The form in which addresses are compared: the four bytes of an IPv4 or IPv4-mapped address. -/
def IP.normal (ip : IP) : IP := ip.to4.getD ip

/-- The address is one of the network: it has the same family and the same first bits. -/
def IPNet.InRange (n : IPNet) (ip : IP) : Prop :=
  ip.length = n.ip.length ∧ ip.value / 2 ^ (8 * ip.length - n.ones) = n.ip.value / 2 ^
    (8 * ip.length - n.ones)

instance (n : IPNet) (ip : IP) : Decidable (n.InRange ip) := inferInstanceAs (Decidable (_ ∧ _))

section Values

variable {ip ip' : IP} {a b : UInt8} {ones k : ℕ}

theorem IP.value_lt (ip : IP) : ip.value < 2 ^ (8 * ip.length) := by
  induction ip with
  | nil => exact Nat.one_pos
  | cons b ip ih =>
    have hb : b.toNat < 256 := b.toNat_lt
    have hpow : 256 ^ ip.length = 2 ^ (8 * ip.length) := by rw [Nat.pow_mul]
    have hstep : 2 ^ (8 * (ip.length + 1)) = 256 * 2 ^ (8 * ip.length) := by
      rw [Nat.mul_succ, Nat.pow_add, Nat.mul_comm]
    rw [IP.value, List.length_cons, hstep, hpow]
    have hle : (b.toNat + 1) * 2 ^ (8 * ip.length) ≤ 256 * 2 ^ (8 * ip.length) :=
      Nat.mul_le_mul_right _ hb
    rw [Nat.succ_mul] at hle
    omega

/-- A mask byte keeps the first bits and clears the others. -/
theorem and_mask : ∀ k ≤ 8, ∀ n < 256,
    (UInt8.ofNat n &&& UInt8.ofNat (256 - 2 ^ (8 - k))).toNat = n / 2 ^ (8 - k) * 2 ^ (8 - k) := by
  decide +kernel

theorem and_mask_eq_iff (hk : k ≤ 8) :
    a &&& UInt8.ofNat (256 - 2 ^ (8 - k)) = b &&& UInt8.ofNat (256 - 2 ^ (8 - k)) ↔
      a.toNat / 2 ^ (8 - k) = b.toNat / 2 ^ (8 - k) := by
  have ha := and_mask k hk a.toNat a.toNat_lt
  have hb := and_mask k hk b.toNat b.toNat_lt
  rw [UInt8.ofNat_toNat] at ha hb
  rw [← UInt8.toNat_inj, ha, hb]
  exact Nat.mul_left_inj (Nat.pos_iff_ne_zero.1 (Nat.two_pow_pos _))

theorem maskByte_succ (ones i : ℕ) : maskByte ones (i + 1) = maskByte (ones - 8) i := by
  have h : ones - 8 * (i + 1) = ones - 8 - 8 * i := by omega
  rw [maskByte, maskByte, h]

/-- The bytes agree under the masks. -/
def Agree (ones : ℕ) (ip ip' : IP) : Prop :=
  ∀ i < ip.length, ip'.getD i 0 &&& maskByte ones i = ip.getD i 0 &&& maskByte ones i

theorem agree_cons : Agree ones (a :: ip) (b :: ip') ↔
    b.toNat / 2 ^ (8 - min 8 ones) = a.toNat / 2 ^ (8 - min 8 ones) ∧ Agree (ones - 8) ip ip' := by
  have hfirst : (b &&& maskByte ones 0 = a &&& maskByte ones 0) ↔
      b.toNat / 2 ^ (8 - min 8 ones) = a.toNat / 2 ^ (8 - min 8 ones) :=
        and_mask_eq_iff (Nat.min_le_left _ _)
  rw [← hfirst]
  unfold Agree
  constructor
  · intro h
    refine ⟨h 0 (Nat.succ_pos _), fun i hi => ?_⟩
    have hnext := h (i + 1) (Nat.succ_lt_succ hi)
    rwa [maskByte_succ] at hnext
  · rintro ⟨h0, hrest⟩ i hi
    cases i with
    | zero => exact h0
    | succ i =>
      rw [maskByte_succ]
      exact hrest i (Nat.lt_of_succ_lt_succ hi)

section Leading

variable {k o x y v v' : ℕ}

/-- A leading digit of which all bits are left. -/
theorem div_whole (ho : o ≤ k) (x v : ℕ) :
    (x * 2 ^ k + v) / 2 ^ (k - o) = x * 2 ^ o + v / 2 ^ (k - o) := by
  have hsplit : 2 ^ k = 2 ^ o * 2 ^ (k - o) := by rw [← Nat.pow_add, Nat.add_sub_cancel' ho]
  rw [hsplit, ← Nat.mul_assoc, Nat.add_comm, Nat.add_mul_div_right _ _
    (Nat.two_pow_pos _), Nat.add_comm]

/-- One of which only the first bits are left. -/
theorem div_within (hv : v < 2 ^ k) (x o : ℕ) : (x * 2 ^ k + v) / 2 ^ (k + o) = x / 2 ^ o := by
  rw [Nat.pow_add, ← Nat.div_div_eq_div_mul, Nat.mul_comm x, Nat.mul_add_div (Nat.two_pow_pos _),
    Nat.div_eq_of_lt hv,
    Nat.add_zero]

theorem div_lt_pow (ho : o ≤ k) (hv : v < 2 ^ k) : v / 2 ^ (k - o) < 2 ^ o := by
  refine Nat.div_lt_of_lt_mul ?_
  rwa [← Nat.pow_add, Nat.sub_add_cancel ho]

/-- The digit and the rest are told by their sum. -/
theorem leading_inj (hv : v < 2 ^ o) (hv' : v' < 2 ^ o) :
    x * 2 ^ o + v = y * 2 ^ o + v' ↔ x = y ∧ v = v' := by
  constructor
  · intro h
    have hxy : x = y := by
      have hq := congrArg (· / 2 ^ o) h
      simp only [Nat.mul_add_div (Nat.two_pow_pos o), Nat.mul_comm _ (2 ^ o), Nat.div_eq_of_lt hv,
        Nat.div_eq_of_lt hv',
        Nat.add_zero] at hq
      exact hq
    rw [hxy] at h
    exact ⟨hxy, Nat.add_left_cancel h⟩
  · rintro ⟨rfl, rfl⟩
    rfl

end Leading

/-- **The masks of a prefix** compare what the value has in front. -/
theorem agree_iff (hlength : ip'.length = ip.length) (hones : ones ≤ 8 * ip.length) :
    Agree ones ip ip' ↔ ip.value / 2 ^ (8 * ip.length - ones) = ip'.value / 2 ^
      (8 * ip.length - ones) := by
  induction ip generalizing ip' ones with
  | nil =>
    obtain rfl := List.length_eq_zero_iff.1 hlength
    exact iff_of_true (fun i hi => absurd hi (Nat.not_lt_zero i)) rfl
  | cons a ip ih =>
    cases ip' with
    | nil => cases hlength
    | cons b ip' =>
      have hlength' : ip'.length = ip.length := Nat.succ.inj hlength
      have hlt := IP.value_lt ip
      have hlt' := IP.value_lt ip'
      rw [hlength'] at hlt'
      have hpow : 256 ^ ip.length = 2 ^ (8 * ip.length) := by rw [Nat.pow_mul]
      rw [agree_cons, IP.value, IP.value, hlength', hpow, List.length_cons]
      rw [List.length_cons] at hones
      by_cases hwhole : 8 ≤ ones
      · -- the whole byte belongs to the prefix, and the rest of it to the other bytes
        obtain ⟨o, rfl⟩ := Nat.exists_eq_add_of_le hwhole
        have ho : o ≤ 8 * ip.length := by omega
        have hexp : 8 * (ip.length + 1) - (8 + o) = 8 * ip.length - o := by omega
        have hrest : 8 + o - 8 = o := by omega
        have hmin : 8 - min 8 (8 + o) = 0 := by omega
        rw [hexp, hrest, hmin, div_whole ho, div_whole ho, ih hlength' ho, Nat.pow_zero,
          Nat.div_one, Nat.div_one,
          leading_inj (div_lt_pow ho hlt) (div_lt_pow ho hlt')]
        exact and_congr_left fun _ => eq_comm
      · -- the prefix ends within the byte
        have hexp : 8 * (ip.length + 1) - ones = 8 * ip.length + (8 - ones) := by omega
        have hzero : ones - 8 = 0 := by omega
        have hmin : 8 - min 8 ones = 8 - ones := by omega
        have hrest : Agree 0 ip ip' := by
          rw [ih hlength' (Nat.zero_le _), Nat.sub_zero, Nat.div_eq_of_lt hlt,
            Nat.div_eq_of_lt hlt']
        rw [hexp, div_within hlt, div_within hlt', hzero, hmin]
        exact ⟨fun h => h.1.symm, fun h => ⟨h.symm, hrest⟩⟩

theorem IP.normal_normal (ip : IP) : ip.normal.normal = ip.normal := by
  unfold IP.normal IP.to4
  split
  · next h => simp [h]
  · split
    · next h => simp [h.1]
    · next h h' => simp [h, h']

/-- **The masks compute the range.** -/
theorem IPNet.contains_iff {n : IPNet} (hones : n.ones ≤ 8 * n.ip.length) (ip : IP) :
    n.contains ip = true ↔ n.InRange ip.normal := by
  have hcontains : n.contains ip = true ↔ ip.normal.length = n.ip.length ∧
      Agree n.ones ip.normal n.ip := by
    simp only [IPNet.contains, IP.normal, Agree, Bool.and_eq_true, decide_eq_true_eq,
      List.all_eq_true, List.mem_range,
      beq_iff_eq]
  rw [hcontains, IPNet.InRange]
  refine and_congr_right fun hlength => ?_
  exact agree_iff hlength.symm (by rwa [hlength])

/-- Two forms of one address. -/
theorem normal_of_equal (h : ip.equal ip' = true) : ip.normal = ip'.normal := by
  unfold IP.equal at h
  split at h
  · rw [beq_iff_eq.1 h]
  · split at h
    · next hfour =>
      obtain ⟨hpre, hdrop⟩ := Bool.and_eq_true_iff.1 h
      simp [IP.normal, IP.to4, hfour.2, beq_iff_eq.1 hpre, beq_iff_eq.1 hdrop]
    · split at h
      · next hfour =>
        obtain ⟨hpre, hdrop⟩ := Bool.and_eq_true_iff.1 h
        simp [IP.normal, IP.to4, hfour.1, hfour.2, beq_iff_eq.1 hpre, beq_iff_eq.1 hdrop]
      · cases h

end Values

end ModDNS.Go
