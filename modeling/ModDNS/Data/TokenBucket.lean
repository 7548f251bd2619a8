import Mathlib.Algebra.Order.Ring.Nat
import Mathlib.Data.List.Basic

/-!
# Token buckets

A bucket fills at `rate` until it is full, and every admission takes `cost` out of it. Levels and
instants are natural numbers, in units small enough for both.

* `Metered`: how many admissions there can have been since any instant, given what is in the bucket.
* `Metered.window`: so in any window they are no more than a full bucket and what has come into it.
-/

namespace ModDNS.Data

/-- What a bucket held when it was last taken from. -/
structure Bucket where
  level : ℕ
  last : ℕ
  deriving DecidableEq

namespace Bucket

variable (rate cap cost : ℕ)

/-- A new bucket is full. -/
def full (now : ℕ) : Bucket := ⟨cap, now⟩

/-- What is in the bucket now. -/
def fill (b : Bucket) (now : ℕ) : ℕ := min cap (b.level + rate * (now - b.last))

/-- Takes the cost of one admission, if there is enough. -/
def allow (b : Bucket) (now : ℕ) : Bool × Bucket :=
  if cost ≤ b.fill rate cap now then (true, ⟨b.fill rate cap now - cost, now⟩) else (false, b)

end Bucket

/-- How many of some instants are in a window. -/
def inWindow (a u : ℕ) (ts : List ℕ) : ℕ := ts.countP fun t => a ≤ t ∧ t ≤ u

/-- The admissions at the instants `ts` have been paid for: what they cost since any instant, with
what is left, is no more than a full bucket and what has come in. -/
structure Metered (rate cap cost : ℕ) (b : Bucket) (now : ℕ) (ts : List ℕ) : Prop where
  last : b.last ≤ now
  past : ∀ t ∈ ts, t ≤ now
  since : ∀ a ≤ now, cost * inWindow a now ts + b.fill rate cap now ≤ cap + rate * (now - a)
  window : ∀ a u, a ≤ u → cost * inWindow a u ts ≤ cap + rate * (u - a)

section Metered

variable {rate cap cost now : ℕ} {b : Bucket} {ts : List ℕ}

theorem fill_le (rate cap : ℕ) (b : Bucket) (now : ℕ) : b.fill rate cap now ≤ cap :=
  Nat.min_le_left _ _

/-- A bucket gains no more than the rate. -/
theorem fill_elapse (h : b.last ≤ now) (d : ℕ) :
    b.fill rate cap (now + d) ≤ b.fill rate cap now + rate * d := by
  have hsplit : rate * (now + d - b.last) = rate * (now - b.last) + rate * d := by
    rw [← Nat.mul_add]
    congr 1
    omega
  unfold Bucket.fill
  rw [hsplit]
  omega

/-- Instants that are all past are in every window that is open now. -/
theorem inWindow_late {u : ℕ} (h : ∀ t ∈ ts, t ≤ now) (hu : now ≤ u) (a : ℕ) :
    inWindow a u ts = inWindow a now ts := by
  refine List.countP_congr fun t ht => ?_
  have hle := h t ht
  simp only [decide_eq_true_eq]
  omega

theorem metered_full (rate cap cost now : ℕ) : Metered rate cap cost (.full cap now) now [] := by
  refine ⟨le_rfl, List.forall_mem_nil _, fun a _ => ?_, fun a u _ => ?_⟩
  · have hfill := fill_le rate cap (.full cap now) now
    have hnone : inWindow a now [] = 0 := rfl
    rw [hnone, Nat.mul_zero]
    omega
  · have hnone : inWindow a u [] = 0 := rfl
    rw [hnone, Nat.mul_zero]
    exact Nat.zero_le _

theorem Metered.elapse (h : Metered rate cap cost b now ts) (d : ℕ) :
    Metered rate cap cost b (now + d) ts := by
  refine ⟨Nat.le_add_right_of_le h.last, fun t ht => Nat.le_add_right_of_le (h.past t ht),
    fun a ha => ?_, h.window⟩
  have hcount := inWindow_late h.past (Nat.le_add_right now d) a
  have hfill := @fill_elapse rate cap now b h.last d
  rw [hcount]
  by_cases hpast : a ≤ now
  · have hsince := h.since a hpast
    have hsplit : rate * (now + d - a) = rate * (now - a) + rate * d := by
      rw [← Nat.mul_add]
      congr 1
      omega
    omega
  · have hnone : inWindow a now ts = 0 := by
      refine List.countP_eq_zero.2 fun t ht => ?_
      have hle := h.past t ht
      simp only [decide_eq_true_eq]
      omega
    have hle := fill_le rate cap b (now + d)
    rw [hnone, Nat.mul_zero]
    omega

/-- One admission more. -/
theorem Metered.allow (h : Metered rate cap cost b now ts)
    (hallow : (b.allow rate cap cost now).1 = true) :
    Metered rate cap cost (b.allow rate cap cost now).2 now (now :: ts) := by
  have hcost : cost ≤ b.fill rate cap now := by
    unfold Bucket.allow at hallow
    split at hallow
    · assumption
    · cases hallow
  have hbucket : (b.allow rate cap cost now).2 = ⟨b.fill rate cap now - cost, now⟩ := by
    rw [Bucket.allow, if_pos hcost]
  have hfill : Bucket.fill rate cap ⟨b.fill rate cap now - cost, now⟩ now ≤
      b.fill rate cap now - cost := by
    unfold Bucket.fill
    rw [Nat.sub_self, Nat.mul_zero, Nat.add_zero]
    exact Nat.min_le_right _ _
  have hcount : ∀ a u, a ≤ now → now ≤ u → inWindow a u (now :: ts) = inWindow a now ts + 1 := by
    intro a u ha hu
    have hin : decide (a ≤ now ∧ now ≤ u) = true := decide_eq_true ⟨ha, hu⟩
    have hlate := inWindow_late h.past hu a
    unfold inWindow at hlate ⊢
    rw [List.countP_cons, if_pos hin, hlate]
  have hsince : ∀ a ≤ now, cost * (inWindow a now ts + 1) + (b.fill rate cap now - cost) ≤ cap +
      rate * (now - a) := by
    intro a ha
    have hbefore := h.since a ha
    rw [Nat.mul_add, Nat.mul_one]
    omega
  rw [hbucket]
  refine ⟨le_rfl, List.forall_mem_cons.2 ⟨le_rfl, h.past⟩, fun a ha => ?_, fun a u hau => ?_⟩
  · have hnow := hsince a ha
    rw [hcount a now ha le_rfl]
    omega
  · by_cases hin : a ≤ now ∧ now ≤ u
    · have hnow := hsince a hin.1
      have hmono : rate * (now - a) ≤ rate * (u - a) :=
        Nat.mul_le_mul_left rate (Nat.sub_le_sub_right hin.2 a)
      rw [hcount a u hin.1 hin.2]
      omega
    · have hout : inWindow a u (now :: ts) = inWindow a u ts :=
        List.countP_cons_of_neg (by simpa using hin)
      rw [hout]
      exact h.window a u hau

/-- A refusal takes nothing. -/
theorem allow_refused (hallow : (b.allow rate cap cost now).1 = false) :
    (b.allow rate cap cost now).2 = b := by
  unfold Bucket.allow at hallow ⊢
  split at hallow
  · cases hallow
  · next hcost => rw [if_neg hcost]

/-- A new bucket admits the first one, if it has room for it. -/
theorem allow_full (h : cost ≤ cap) (now : ℕ) :
    (Bucket.allow rate cap cost (.full cap now) now).1 = true := by
  have hfill : Bucket.fill rate cap (.full cap now) now = cap :=
    Nat.min_eq_left (Nat.le_add_right _ _)
  rw [Bucket.allow, hfill, if_pos h]

end Metered

end ModDNS.Data
