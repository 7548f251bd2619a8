import Mathlib.Tactic.Ring
import ModDNS.Blocklists.Downloader

/-!
# The delays between the attempts

A delay is at most the largest one and what the server asks for, as long as the numbers fit in 64
bits; and the first delay is not bounded by the largest one.

* `doubling_exact`: when the doublings overflow.
* `backoff_eq`: the delays, when they do not.
* `delays_bounded`: the delays of a run are as they should be whatever the jitter, exactly if each
  number fits and the first delay is small enough.
-/

namespace ModDNS.Blocklists.Downloader

open Go

section Doubling

/-- None of so many doublings overflows; there are no more after the largest delay. -/
def Doubles (maxRetryDelay base : ℤ) (m : ℕ) : Prop :=
  ∀ i, i < m → (i = 0 ∨ base * 2 ^ i < maxRetryDelay) → base * 2 ^ (i + 1) < 2 ^ 63

variable {maxRetryDelay base : ℤ} {m : ℕ} {exact : Bool}

theorem doubling_inexact {a : Checked} (h : a.exact = false) :
    (doubling maxRetryDelay m a).exact = false := by
  induction m generalizing a with
  | zero => exact h
  | succ m ih =>
    have hmul : (a.mul 2).exact = false := by
      unfold Checked.mul
      rw [h, Bool.false_and]
    unfold doubling
    dsimp only
    split
    · exact hmul
    · exact ih hmul

/-- **The doublings**, when none overflows. -/
theorem doubling_eq (hbase : 0 < base) (h : Doubles maxRetryDelay base m) :
    doubling maxRetryDelay m ⟨base, exact⟩ = ⟨if m = 0 then base
      else min (base * 2 ^ m) maxRetryDelay, exact⟩ := by
  induction m generalizing base with
  | zero => rfl
  | succ m ih =>
    have hfits : InInt64 (base * 2) := by
      have hlt := h 0 (Nat.succ_pos m) (.inl rfl)
      unfold InInt64
      omega
    have hmul : Checked.mul ⟨base, exact⟩ 2 = ⟨base * 2, exact⟩ := by
      unfold Checked.mul
      dsimp only
      rw [wrap64_eq hfits, decide_eq_true hfits, Bool.and_true]
    unfold doubling
    dsimp only
    rw [hmul, if_neg (Nat.succ_ne_zero m)]
    have hpow : base * 2 ^ (m + 1) = base * 2 * 2 ^ m := by ring
    have hone : (1 : ℤ) ≤ 2 ^ m := one_le_pow₀ (by decide)
    split
    · next hcap =>
      -- the largest delay
      have hle : base * 2 * 1 ≤ base * 2 * 2 ^ m := Int.mul_le_mul_of_nonneg_left hone (by omega)
      rw [hpow, min_eq_right (by dsimp only at hcap; omega)]
    · next hbelow =>
      have hrest : Doubles maxRetryDelay (base * 2) m := by
        intro i hi hcap
        have hnext := h (i + 1) (by omega) (.inr ?_)
        · rw [show base * 2 * 2 ^ (i + 1) = base * 2 ^ (i + 1 + 1) by ring]
          exact hnext
        · rw [show base * 2 ^ (i + 1) = base * 2 * 2 ^ i by ring]
          rcases hcap with rfl | hlt
          · dsimp only at hbelow
            omega
          · exact hlt
      rw [ih (by omega) hrest, hpow]
      split
      · next hzero =>
        subst hzero
        dsimp only at hbelow
        rw [min_eq_left (by omega)]
        ring_nf
      · rfl

/-- **When the doublings overflow.** -/
theorem doubling_exact (hbase : 0 < base) :
    (doubling maxRetryDelay m ⟨base, exact⟩).exact = true ↔ exact = true ∧
      Doubles maxRetryDelay base m := by
  refine ⟨fun h => ?_, fun ⟨hexact, h⟩ => by rw [doubling_eq hbase h, hexact]⟩
  have hexact : exact = true := by
    by_contra hnot
    rw [doubling_inexact (Bool.not_eq_true _ ▸ hnot : (Checked.mk base exact).exact = false)] at h
    cases h
  refine ⟨hexact, ?_⟩
  induction m generalizing base with
  | zero => exact fun i hi => absurd hi (Nat.not_lt_zero i)
  | succ m ih =>
    -- the first doubling
    have hfits : InInt64 (base * 2) := by
      by_contra hnot
      have hmul : (Checked.mul ⟨base, exact⟩ 2).exact = false := by
        unfold Checked.mul
        rw [decide_eq_false hnot, Bool.and_false]
      unfold doubling at h
      dsimp only at h
      split at h
      · rw [hmul] at h
        cases h
      · rw [doubling_inexact hmul] at h
        cases h
    have hmul : Checked.mul ⟨base, exact⟩ 2 = ⟨base * 2, exact⟩ := by
      unfold Checked.mul
      dsimp only
      rw [wrap64_eq hfits, decide_eq_true hfits, Bool.and_true]
    intro i hi hcap
    cases i with
    | zero =>
      unfold InInt64 at hfits
      omega
    | succ i =>
      have hpow : base * 2 ^ (i + 1) = base * 2 * 2 ^ i := by ring
      have hone : (1 : ℤ) ≤ 2 ^ i := one_le_pow₀ (by decide)
      have hlt : base * 2 * 2 ^ i < maxRetryDelay := by
        rw [← hpow]
        exact hcap.resolve_left (Nat.succ_ne_zero i)
      have hle : base * 2 * 1 ≤ base * 2 * 2 ^ i := Int.mul_le_mul_of_nonneg_left hone (by omega)
      unfold doubling at h
      dsimp only at h
      rw [hmul, if_neg (by dsimp only; omega)] at h
      have hrest := ih (by omega) h i (by omega) (.inr hlt)
      rw [show base * 2 ^ (i + 1 + 1) = base * 2 * 2 ^ (i + 1) by ring]
      exact hrest

end Doubling

section Delays

/-- The delay that a header asks for, if there is one: its seconds, or the time until its date. -/
def asked (http : Http) (v : String) (now : ℤ) : Option ℤ :=
  if v = "" then none
  else
    match numeral v with
    | some n => if 1 ≤ n then some (n * second) else none
    | none => (http.parseTime v).bind fun t => if now < t then some (t - now) else none

/-- The number of the header is not one of 64 bits. -/
def Unread (v : String) : Prop := ∃ n, numeral v = some n ∧ 2 ^ 63 ≤ n

/-- So many seconds are a number of nanoseconds of 64 bits. -/
def SecondsFit (v : String) : Prop := ∀ n, numeral v = some n → n < 2 ^ 63 → n * second < 2 ^ 63

variable {http : Http} {cfg : Config} {v : String} {now : ℤ} {n : ℕ} {rng : Rng}

theorem atoi_eq {k : ℤ} (hk : numeral v = some k) : atoi v = if InInt64 k then some k
    else none := by
  unfold atoi
  rw [hk, Option.filter_some]
  simp only [decide_eq_true_eq]

theorem sub_pos_iff {t u : ℤ} : 0 < sub t u ↔ u < t := by
  unfold sub
  omega

theorem numeral_empty : numeral "" = none := by decide

/-- A header with too many seconds overflows. -/
theorem parseRetryAfter_inexact (h : ¬ SecondsFit v) :
    (parseRetryAfter http v now).exact = false := by
  unfold SecondsFit at h
  push Not at h
  obtain ⟨k, hk, hlt, hle⟩ := h
  have hne : v ≠ "" := by
    rintro rfl
    rw [numeral_empty] at hk
    cases hk
  have hpos : 0 < k := by
    unfold second at hle
    omega
  unfold parseRetryAfter
  rw [if_neg hne, atoi_eq hk, if_pos (by unfold InInt64; omega)]
  dsimp only
  rw [if_neg (by omega)]
  unfold Checked.mul Checked.of
  dsimp only
  rw [Bool.true_and, decide_eq_false_iff_not]
  unfold InInt64
  omega

/-- A number that is not one of 64 bits is no number, nor a date. -/
theorem parseRetryAfter_unread (h : Unread v) : parseRetryAfter http v now = .of 0 := by
  obtain ⟨k, hk, hle⟩ := h
  have hdate : http.parseTime v = none :=
    http.parseTime_numeral v (by rw [hk]; exact Option.some_ne_none k)
  unfold parseRetryAfter
  split
  · rfl
  · rw [atoi_eq hk, if_neg (by unfold InInt64; omega), hdate]

/-- **What is made of a header** otherwise is what it asks for. -/
theorem parseRetryAfter_eq (hfit : SecondsFit v) (hread : ¬ Unread v) :
    parseRetryAfter http v now = .of ((asked http v now).elim 0 fun d => min d (2 ^ 63 - 1)) := by
  unfold parseRetryAfter asked
  by_cases hv : v = ""
  · rw [if_pos hv, if_pos hv]
    rfl
  · rw [if_neg hv, if_neg hv]
    cases hk : numeral v with
    -- no number: a date, or nothing
    | none =>
      have hatoi : atoi v = none := by
        unfold atoi
        rw [hk, Option.filter_none]
      rw [hatoi]
      cases http.parseTime v with
      | none => rfl
      | some t =>
        dsimp only
        rw [Option.bind_some]
        by_cases hnow : now < t
        · rw [if_pos (sub_pos_iff.2 hnow), if_pos hnow]
          refine congrArg Checked.of ?_
          unfold sub
          dsimp only [Option.elim]
          omega
        · rw [if_neg fun h => hnow (sub_pos_iff.1 h), if_neg hnow]
          rfl
    -- a number of seconds that fits
    | some k =>
      have hlt : k < 2 ^ 63 := by
        by_contra hge
        exact hread ⟨k, hk, by omega⟩
      have hns := hfit k hk hlt
      rw [atoi_eq hk]
      dsimp only
      by_cases hpos : 1 ≤ k
      · have hin : InInt64 (k * second) := by
          unfold InInt64
          unfold second at hns ⊢
          omega
        rw [if_pos (by unfold InInt64; omega), if_pos hpos]
        dsimp only [Option.elim]
        rw [if_neg (by omega), min_eq_left (by omega)]
        unfold Checked.mul Checked.of
        rw [wrap64_eq hin, decide_eq_true hin, Bool.and_self]
      · rw [if_neg hpos]
        split
        · next secs hsecs =>
          split at hsecs
          · obtain rfl := Option.some.inj hsecs
            split
            · rfl
            · -- no second
              obtain rfl : k = 0 := by omega
              rfl
          · cases hsecs
        · have hdate : http.parseTime v = none :=
            http.parseTime_numeral v (by rw [hk]; exact Option.some_ne_none k)
          rw [hdate]
          rfl

/-- The delay that has been doubled, up to the largest one. The first one is as configured. -/
def doubled (cfg : Config) (n : ℕ) : ℤ :=
  if n - 1 = 0 then cfg.baseRetryDelay.1
  else min (cfg.baseRetryDelay.1 * 2 ^ (n - 1)) cfg.maxRetryDelay.1

/-- Its half, and as much again as the jitter gives. -/
def jittered (cfg : Config) (n : ℕ) (rng : Rng) : ℤ :=
  if doubled cfg n / 2 ≤ 0 then doubled cfg n else doubled cfg n / 2 + rng.1 (doubled cfg n / 2 + 1)

/-- No doubling before the attempt overflows. -/
def DoublesFit (cfg : Config) (n : ℕ) : Prop :=
  Doubles cfg.maxRetryDelay.1 cfg.baseRetryDelay.1 (n - 1)

theorem doubled_bounds (hcfg : Positive cfg) : 0 < doubled cfg n ∧ doubled cfg n < 2 ^ 63 := by
  have hbase := hcfg.baseRetryDelay
  have hmax := hcfg.maxRetryDelay
  have hbase' := cfg.baseRetryDelay.2.2
  have hmax' := cfg.maxRetryDelay.2.2
  unfold doubled
  split
  · exact ⟨hbase, hbase'⟩
  · have hpow : (0 : ℤ) < 2 ^ (n - 1) := pow_pos (by decide) _
    exact ⟨lt_min (Int.mul_pos hbase hpow) hmax, lt_of_le_of_lt (min_le_right _ _) hmax'⟩

theorem jittered_bounds (hcfg : Positive cfg) :
    0 < jittered cfg n rng ∧ jittered cfg n rng ≤ doubled cfg n := by
  obtain ⟨hpos, -⟩ := doubled_bounds (n := n) hcfg
  unfold jittered
  split
  · omega
  · have hrng := rng.2 (doubled cfg n / 2 + 1) (by omega)
    omega

/-- From the second delay on, the largest delay bounds them. -/
theorem jittered_le (hcfg : Positive cfg) (hn : 2 ≤ n) :
    jittered cfg n rng ≤ cfg.maxRetryDelay.1 := by
  have hle : doubled cfg n ≤ cfg.maxRetryDelay.1 := by
    unfold doubled
    rw [if_neg (by omega)]
    exact min_le_right _ _
  have hbounds := @jittered_bounds cfg n rng hcfg
  omega

/-- The most that the jitter can give. -/
def fullJitter : Rng :=
  ⟨fun n => n - 1, fun n h => ⟨Int.sub_nonneg_of_le h, Int.sub_lt_self n (by decide)⟩⟩

/-- **The jitter keeps the delays up to the largest one**, if it does with the first delay. -/
theorem jittered_le_iff (hcfg : Positive cfg) (hn : 0 < n) :
    (∀ rng, jittered cfg n rng ≤ cfg.maxRetryDelay.1) ↔
    (n = 1 → cfg.baseRetryDelay.1 / 2 * 2 ≤ cfg.maxRetryDelay.1) := by
  have hmax := hcfg.maxRetryDelay
  have hbase := hcfg.baseRetryDelay
  by_cases hfirst : n = 1
  · subst hfirst
    have hdoubled : doubled cfg 1 = cfg.baseRetryDelay.1 := rfl
    unfold jittered
    rw [hdoubled]
    constructor
    · intro h _
      have hfull := h fullJitter
      dsimp only [fullJitter] at hfull
      split at hfull
      · omega
      · omega
    · intro h rng
      have hle := h rfl
      split
      · omega
      · have hrng := rng.2 (cfg.baseRetryDelay.1 / 2 + 1) (by omega)
        omega
  · exact ⟨fun _ h => absurd h hfirst, fun _ _ => jittered_le hcfg (by omega)⟩

/-- The jitter leaves delays of a nanosecond only as they are. -/
theorem jittered_eq_iff (hcfg : Positive cfg) (hn : 0 < n) :
    (∀ rng, jittered cfg n rng = cfg.maxRetryDelay.1) ↔
    cfg.maxRetryDelay.1 = 1 ∧ (n = 1 → cfg.baseRetryDelay.1 = 1) := by
  have hbase := hcfg.baseRetryDelay
  have hmax := hcfg.maxRetryDelay
  have hpos := (@doubled_bounds cfg n hcfg).1
  constructor
  · intro h
    have hnone := h noJitter
    have hfull := h fullJitter
    have hone : doubled cfg n = 1 ∧ cfg.maxRetryDelay.1 = 1 := by
      unfold jittered at hnone hfull
      dsimp only [noJitter, fullJitter] at hnone hfull
      split at hnone
      · omega
      · split at hfull
        · omega
        · omega
    refine ⟨hone.2, fun hfirst => ?_⟩
    subst hfirst
    exact hone.1
  · rintro ⟨hone, hfirst⟩ rng
    have hdoubled : doubled cfg n = 1 := by
      unfold doubled
      split
      · exact hfirst (by omega)
      · have hpow : (0 : ℤ) < 2 ^ (n - 1) := pow_pos (by decide) _
        have hmul := Int.mul_pos hbase hpow
        rw [hone]
        omega
    unfold jittered
    rw [if_pos (by omega), hdoubled, hone]

/-- **What the server asks for** is honoured, up to the largest delay. -/
theorem backoff_asked {d : ℤ} (hd : 0 < d) :
    backoff cfg n (.of d) rng = .of (min d cfg.maxRetryDelay.1) := by
  unfold backoff Checked.of
  dsimp only
  rw [if_pos hd]
  split
  · next hlt => rw [min_eq_right (Int.le_of_lt hlt)]
  · next hle => rw [min_eq_left (Int.not_lt.1 hle)]

/-- **The other delays**, when no doubling overflows. -/
theorem backoff_eq (hcfg : Positive cfg) (h : DoublesFit cfg n) :
    backoff cfg n (.of 0) rng = .of (jittered cfg n rng) := by
  obtain ⟨hpos, hlt⟩ := doubled_bounds (n := n) hcfg
  have hdoubling : doubling cfg.maxRetryDelay.1 (n - 1) ⟨cfg.baseRetryDelay.1, true⟩ = .of
    (doubled cfg n) :=
    doubling_eq hcfg.baseRetryDelay h
  have hdiv : (doubled cfg n).tdiv 2 = doubled cfg n / 2 := Int.tdiv_eq_ediv_of_nonneg (by omega)
  unfold backoff
  rw [if_neg (by decide)]
  dsimp only [Checked.of] at hdoubling ⊢
  rw [hdoubling]
  dsimp only
  rw [hdiv]
  unfold jittered
  split
  · rfl
  · have hrng := rng.2 (doubled cfg n / 2 + 1) (by omega)
    have hone : Checked.add ⟨doubled cfg n / 2, true⟩ ⟨1, true⟩ = .of (doubled cfg n / 2 + 1) :=
      Checked.add_eq rfl rfl (by unfold InInt64; dsimp only; omega)
    rw [hone]
    exact Checked.add_eq rfl rfl (by unfold InInt64; dsimp only [Checked.of]; omega)

/-- A doubling that overflows shows in the delay. -/
theorem backoff_inexact {a : Checked} (ha : a.value ≤ 0) (hcfg : Positive cfg)
    (h : a.exact = false ∨ ¬ DoublesFit cfg n) :
    (backoff cfg n a rng).exact = false := by
  have hdoubling : (doubling cfg.maxRetryDelay.1 (n - 1) ⟨cfg.baseRetryDelay.1, a.exact⟩).exact =
      false := by
    rw [← Bool.not_eq_true, doubling_exact hcfg.baseRetryDelay]
    rintro ⟨hexact, hfit⟩
    rcases h with h | h
    · rw [h] at hexact
      cases hexact
    · exact h hfit
  unfold backoff
  rw [if_neg (by omega)]
  dsimp only
  split
  · exact hdoubling
  · unfold Checked.add
    dsimp only
    rw [hdoubling, Bool.false_and, Bool.false_and]

end Delays

section Steps

/-- The header of an answer that asks for another attempt. -/
def retryHeader (http : Http) (rawURL : String) : Exchange → Option String
  | .failed => none
  | .response status v _ =>
    if http.validURL rawURL = true ∧ status ≠ 200 ∧ (status = 429 ∨ 500 ≤ status) then
      some v else none

/-- The delay after a round is as it should be: no number overflows, the largest delay bounds it,
and it is what the server asks for. -/
structure StepBounded (http : Http) (cfg : Config) (rawURL : String) (s : Step) : Prop where
  exact : s.outcome.retryAfter.exact = true ∧ ∀ d ∈ s.delay, d.exact = true
  within : ∀ d ∈ s.delay, 0 < d.value ∧ d.value ≤ cfg.maxRetryDelay.1
  honours : ∀ d ∈ s.delay, ∀ v ∈ retryHeader http rawURL s.round.exchange,
    ∀ a ∈ asked http v s.round.now,
    d.value = min a cfg.maxRetryDelay.1

/-- The round meets a failure that may pass: a connection or a body that breaks off, as long as the
context lives, or an answer that asks for another attempt. -/
def Transient (http : Http) (cfg : Config) (rawURL : String) (r : Round) : Prop :=
  http.validURL rawURL = true ∧
    match r.exchange with
    | .failed => r.ended = false
    | .response status _ body =>
      if status = 200 then (copyLimited (wrap64 (cfg.maxBodySize.1 + 1)) body).2 = true ∧
        r.ended = false
      else status = 429 ∨ 500 ≤ status

/-- The attempt fails and is followed by a wait. -/
def Waits (http : Http) (cfg : Config) (rawURL : String) (n : ℕ) (r : Round) : Prop :=
  Transient http cfg rawURL r ∧ (n : ℤ) ≠ cfg.maxAttempts.1 ∧ r.endedAfter = false

/-- The numbers of a round fit, with its jitter: the seconds of its header are so many nanoseconds,
and a delay that the server does not ask for is doubled without overflow and at most the largest
one. A number of seconds that is none of 64 bits asks for the largest one. -/
structure StepFits (http : Http) (cfg : Config) (rawURL : String) (n : ℕ) (r : Round) : Prop where
  seconds : ∀ v ∈ retryHeader http rawURL r.exchange, SecondsFit v
  unasked : Waits http cfg rawURL n r →
    (∀ v ∈ retryHeader http rawURL r.exchange, asked http v r.now = none) →
    DoublesFit cfg n ∧ jittered cfg n r.rng ≤ cfg.maxRetryDelay.1
  unread : Waits http cfg rawURL n r → ∀ v ∈ retryHeader http rawURL r.exchange, Unread v →
    DoublesFit cfg n ∧ jittered cfg n r.rng = cfg.maxRetryDelay.1

/-- **The numbers of a round fit**, whatever the jitter: the seconds of its header are so many
nanoseconds; before a delay that the server does not ask for no doubling overflows, and the first
delay, of which the jitter can make the even number below it, is at most the largest one. A number
of seconds that is none of 64 bits is not read, and only delays of a nanosecond are right then. -/
structure RoundFits (http : Http) (cfg : Config) (rawURL : String) (n : ℕ) (r : Round) : Prop where
  seconds : ∀ v ∈ retryHeader http rawURL r.exchange, SecondsFit v
  unasked : Waits http cfg rawURL n r →
    (∀ v ∈ retryHeader http rawURL r.exchange, asked http v r.now = none) →
    DoublesFit cfg n ∧ (n = 1 → cfg.baseRetryDelay.1 / 2 * 2 ≤ cfg.maxRetryDelay.1)
  unread : Waits http cfg rawURL n r → ∀ v ∈ retryHeader http rawURL r.exchange, Unread v →
    DoublesFit cfg n ∧ cfg.maxRetryDelay.1 = 1 ∧ (n = 1 → cfg.baseRetryDelay.1 = 1)

/-- The round is one of the loop. -/
structure Made (http : Http) (cfg : Config) (rawURL : String) (s : Step) : Prop where
  outcome : s.outcome = attempt http cfg rawURL s.round
  delay : s.delay = if retries cfg s.attempt s.round s.outcome then
    some (backoff cfg s.attempt s.outcome.retryAfter s.round.rng)
    else none

variable {http : Http} {cfg : Config} {rawURL v : String} {s : Step} {r : Round} {n : ℕ} {d : ℤ}

theorem attempt_retryAfter : (attempt http cfg rawURL r).retryAfter =
    (retryHeader http rawURL r.exchange).elim (.of 0) fun v => parseRetryAfter http v r.now := by
  unfold attempt retryHeader
  cases http.validURL rawURL with
  | false => cases r.exchange <;> rfl
  | true =>
    cases r.exchange with
    | failed => rfl
    | response status v body =>
      dsimp only
      rw [Bool.not_true, if_neg Bool.false_ne_true]
      by_cases hok : status = 200
      · have hnone : (if true = true ∧ status ≠ 200 ∧ (status = 429 ∨ 500 ≤ status) then some v
          else none) = none :=
          if_neg fun h => h.2.1 hok
        rw [if_pos hok, hnone]
        split
        · rfl
        · split <;> rfl
      · rw [if_neg hok]
        by_cases hbusy : status = 429 ∨ 500 ≤ status
        · rw [if_pos (by simpa using hbusy), if_pos ⟨rfl, hok, hbusy⟩]
          rfl
        · rw [if_neg (by simpa using hbusy), if_neg fun h => hbusy h.2.2]
          rfl

/-- **A failure that may pass** is one that the loop takes for one. -/
theorem transient_iff : Transient http cfg rawURL r ↔
    (attempt http cfg rawURL r).err.isSome = true ∧
      (attempt http cfg rawURL r).retryable = true := by
  unfold Transient attempt
  cases http.validURL rawURL with
  | false => exact ⟨fun h => absurd h.1 Bool.false_ne_true, fun h => absurd h.2 Bool.false_ne_true⟩
  | true =>
    rw [Bool.not_true, if_neg Bool.false_ne_true]
    cases r.exchange with
    | failed => simp
    | response status v body =>
      dsimp only
      by_cases hok : status = 200
      · rw [if_pos hok, if_pos hok]
        cases hbroken : (copyLimited (wrap64 (cfg.maxBodySize.1 + 1)) body).2 with
        | true => simp
        | false =>
          rw [if_neg Bool.false_ne_true]
          split <;> simp
      · rw [if_neg hok, if_neg hok]
        by_cases hbusy : status = 429 ∨ 500 ≤ status
        · rw [if_pos (by simpa using hbusy)]
          simp [hbusy]
        · rw [if_neg (by simpa using hbusy)]
          simp [hbusy]

theorem waits_iff :
    Waits http cfg rawURL n r ↔ retries cfg n r (attempt http cfg rawURL r) = true := by
  unfold Waits retries
  rw [transient_iff]
  simp [and_assoc]

theorem asked_pos {now : ℤ} (h : asked http v now = some d) : 0 < d := by
  unfold asked at h
  split at h
  · cases h
  · split at h
    · split at h
      · obtain rfl := Option.some.inj h
        unfold second
        omega
      · cases h
    · obtain ⟨t, -, ht⟩ := Option.bind_eq_some_iff.1 h
      split at ht
      · obtain rfl := Option.some.inj ht
        omega
      · cases ht

/-- A number that is none of 64 bits asks for more than the largest delay. -/
theorem asked_unread {now : ℤ} (h : Unread v) :
    ∃ d, asked http v now = some d ∧ cfg.maxRetryDelay.1 ≤ d := by
  obtain ⟨k, hk, hle⟩ := h
  have hmax := cfg.maxRetryDelay.2.2
  have hne : v ≠ "" := by
    rintro rfl
    rw [numeral_empty] at hk
    cases hk
  refine ⟨k * second, ?_, ?_⟩
  · unfold asked
    rw [if_neg hne, hk]
    exact if_pos (by omega)
  · unfold second
    omega

/-- The delay without one of the server. -/
theorem bounded_unasked (hcfg : Positive cfg) : (backoff cfg n (.of 0) r.rng).exact = true ∧
      (0 < (backoff cfg n (.of 0) r.rng).value ∧ (backoff cfg n (.of 0) r.rng).value ≤
        cfg.maxRetryDelay.1) ↔
    DoublesFit cfg n ∧ jittered cfg n r.rng ≤ cfg.maxRetryDelay.1 := by
  by_cases hfit : DoublesFit cfg n
  · rw [backoff_eq hcfg hfit]
    have hpos := (@jittered_bounds cfg n r.rng hcfg).1
    unfold Checked.of
    dsimp only
    exact ⟨fun ⟨_, _, hle⟩ => ⟨hfit, hle⟩, fun ⟨_, hle⟩ => ⟨rfl, hpos, hle⟩⟩
  · rw [backoff_inexact (by decide) hcfg (.inr hfit)]
    simp [hfit]

/-- A header overflows when it is read, if at all. -/
theorem retryAfter_exact : (attempt http cfg rawURL r).retryAfter.exact = true ↔
    ∀ v ∈ retryHeader http rawURL r.exchange, SecondsFit v := by
  rw [attempt_retryAfter]
  cases retryHeader http rawURL r.exchange with
  | none => exact ⟨fun _ v hv => (Option.not_mem_none v hv).elim, fun _ => rfl⟩
  | some v =>
    simp only [Option.elim, Option.mem_some_iff, forall_eq']
    constructor
    · intro hexact
      by_contra hfit
      rw [parseRetryAfter_inexact hfit] at hexact
      cases hexact
    · intro hfit
      by_cases hread : Unread v
      · rw [parseRetryAfter_unread hread]
        rfl
      · rw [parseRetryAfter_eq hfit hread]
        rfl

/-- What there is to say of a wait. -/
theorem stepBounded_wait {w : Checked} (hdelay : s.delay = some w) : StepBounded http cfg rawURL s ↔
    s.outcome.retryAfter.exact = true ∧
      (w.exact = true ∧ 0 < w.value ∧ w.value ≤ cfg.maxRetryDelay.1) ∧
      ∀ v ∈ retryHeader http rawURL s.round.exchange, ∀ a ∈ asked http v s.round.now, w.value =
      min a cfg.maxRetryDelay.1 := by
  have hmem : ∀ {p : Checked → Prop}, (∀ d ∈ s.delay, p d) ↔ p w := by
    intro p
    rw [hdelay]
    simp only [Option.mem_some_iff, forall_eq']
  constructor
  · intro h
    exact ⟨h.exact.1, ⟨hmem.1 h.exact.2, hmem.1 h.within⟩, hmem.1 h.honours⟩
  · rintro ⟨hexact, ⟨hw, hwithin⟩, hhonours⟩
    exact ⟨⟨hexact, hmem.2 hw⟩, hmem.2 hwithin, hmem.2 hhonours⟩

/-- **The delay after a round**, in terms of what the round meets and of its jitter. -/
theorem stepBounded_iff (hcfg : Positive cfg) (hs : Made http cfg rawURL s) :
    StepBounded http cfg rawURL s ↔ StepFits http cfg rawURL s.attempt s.round := by
  have hread : s.outcome.retryAfter.exact = true ↔ ∀ v ∈ retryHeader http rawURL s.round.exchange,
      SecondsFit v := by
    rw [hs.outcome]
    exact retryAfter_exact
  have hwaits : Waits http cfg rawURL s.attempt s.round ↔
      retries cfg s.attempt s.round s.outcome = true := by
    rw [hs.outcome]
    exact waits_iff
  by_cases hw : retries cfg s.attempt s.round s.outcome = true
  · have hdelay : s.delay = some (backoff cfg s.attempt s.outcome.retryAfter s.round.rng) := by
      rw [hs.delay, if_pos hw]
    by_cases hfit : ∀ v ∈ retryHeader http rawURL s.round.exchange, SecondsFit v
    · rw [stepBounded_wait hdelay, hread]
      have hafter := hs.outcome ▸ @attempt_retryAfter http cfg rawURL s.round
      have hfits : StepFits http cfg rawURL s.attempt s.round ↔
          ((∀ v ∈ retryHeader http rawURL s.round.exchange, asked http v s.round.now = none) →
            DoublesFit cfg s.attempt ∧ jittered cfg s.attempt s.round.rng ≤ cfg.maxRetryDelay.1) ∧
          ∀ v ∈ retryHeader http rawURL s.round.exchange, Unread v →
            DoublesFit cfg s.attempt ∧ jittered cfg s.attempt s.round.rng = cfg.maxRetryDelay.1 :=
        ⟨fun h => ⟨h.unasked (hwaits.2 hw), h.unread (hwaits.2 hw)⟩,
          fun h => ⟨hfit, fun _ => h.1, fun _ => h.2⟩⟩
      rw [hfits]
      cases hheader : retryHeader http rawURL s.round.exchange with
      | none =>
        rw [hheader] at hafter
        rw [hafter]
        simp only [Option.elim, Option.not_mem_none, false_implies, implies_true, true_implies,
          true_and, and_true]
        exact bounded_unasked hcfg
      | some v =>
        rw [hheader] at hafter hfit
        simp only [Option.mem_some_iff, forall_eq'] at hfit ⊢
        dsimp only [Option.elim] at hafter
        by_cases hunread : Unread v
        · -- nothing was read, and the largest delay was asked for
          obtain ⟨a, ha, hle⟩ := @asked_unread http cfg v s.round.now hunread
          have hiff := @bounded_unasked cfg s.round s.attempt hcfg
          rw [hafter, parseRetryAfter_unread hunread, ha]
          simp only [Option.mem_some_iff, forall_eq', min_eq_right hle, reduceCtorEq,
            false_implies, true_and]
          constructor
          · rintro ⟨-, hbounded, hmax⟩ -
            obtain ⟨hdoubles, -⟩ := hiff.1 hbounded
            rw [backoff_eq hcfg hdoubles] at hmax
            exact ⟨hdoubles, hmax⟩
          · intro h
            obtain ⟨hdoubles, hmax⟩ := h hunread
            refine ⟨hfit, hiff.2 ⟨hdoubles, Int.le_of_eq hmax⟩, ?_⟩
            rw [backoff_eq hcfg hdoubles]
            exact hmax
        · rw [hafter, parseRetryAfter_eq hfit hunread]
          simp only [hunread, false_implies, and_true]
          cases hasked : asked http v s.round.now with
          | none =>
            simp only [Option.elim, Option.not_mem_none, false_implies, implies_true, and_true,
              true_implies, hfit, true_and]
            exact bounded_unasked hcfg
          | some a =>
            -- what was asked for is honoured
            have hpos := asked_pos hasked
            have hmax := hcfg.maxRetryDelay
            have hmax' := cfg.maxRetryDelay.2.2
            have hmin : min (min a (2 ^ 63 - 1)) cfg.maxRetryDelay.1 =
                min a cfg.maxRetryDelay.1 := by omega
            simp only [Option.elim, reduceCtorEq, false_implies, iff_true,
              Option.mem_some_iff, forall_eq']
            rw [backoff_asked (by omega), hmin]
            exact ⟨hfit, ⟨rfl, by dsimp only [Checked.of]; omega, min_le_right _ _⟩, rfl⟩
    · exact ⟨fun h => absurd (hread.1 h.exact.1) hfit, fun h => absurd h.seconds hfit⟩
  · -- no wait
    have hdelay : s.delay = none := by
      rw [hs.delay, if_neg hw]
    constructor
    · intro h
      exact ⟨hread.1 h.exact.1, fun hwait => absurd (hwaits.1 hwait) hw,
        fun hwait => absurd (hwaits.1 hwait) hw⟩
    · intro h
      refine ⟨⟨hread.2 h.seconds, ?_⟩, ?_, ?_⟩
      all_goals
        rw [hdelay]
        exact fun d hd => (Option.not_mem_none d hd).elim

/-- A round with another jitter. -/
def Round.withJitter (r : Round) (rng : Rng) : Round := { r with rng := rng }

/-- **Whatever the jitter**, the numbers of a round fit. -/
theorem roundFits_iff (hcfg : Positive cfg) (hn : 0 < n) :
    (∀ rng, StepFits http cfg rawURL n (r.withJitter rng)) ↔ RoundFits http cfg rawURL n r := by
  constructor
  · intro h
    refine ⟨(h noJitter).seconds, fun hwait hnone => ?_, fun hwait v hv hunread => ?_⟩
    · have hdelay := fun rng => (h rng).unasked hwait hnone
      exact ⟨(hdelay noJitter).1, (jittered_le_iff hcfg hn).1 fun rng => (hdelay rng).2⟩
    · have hdelay := fun rng => (h rng).unread hwait v hv hunread
      exact ⟨(hdelay noJitter).1, (jittered_eq_iff hcfg hn).1 fun rng => (hdelay rng).2⟩
  · intro h rng
    refine ⟨h.seconds, fun hwait hnone => ?_, fun hwait v hv hunread => ?_⟩
    · obtain ⟨hdoubles, hfirst⟩ := h.unasked hwait hnone
      exact ⟨hdoubles, (jittered_le_iff hcfg hn).2 hfirst rng⟩
    · obtain ⟨hdoubles, hone⟩ := h.unread hwait v hv hunread
      exact ⟨hdoubles, (jittered_eq_iff hcfg hn).2 hone rng⟩

/-- **The numbers fit** with a first delay up to the largest one, this below 146 years, and headers
of fewer than 292 years. -/
theorem roundFits_of_le (hbase : cfg.baseRetryDelay.1 ≤ cfg.maxRetryDelay.1)
    (hmax : cfg.maxRetryDelay.1 < 2 ^ 62)
    (hheader : ∀ v ∈ retryHeader http rawURL r.exchange, ∀ k, numeral v = some k →
      k * second < 2 ^ 63) :
    RoundFits http cfg rawURL n r := by
  have hdoubles : DoublesFit cfg n := by
    intro i _ hcap
    have hpow : cfg.baseRetryDelay.1 * 2 ^ (i + 1) = 2 * (cfg.baseRetryDelay.1 * 2 ^ i) := by ring
    rw [hpow]
    rcases hcap with rfl | hlt
    · omega
    · omega
  refine ⟨fun v hv k hk _ => hheader v hv k hk, fun _ _ => ⟨hdoubles, fun _ => by omega⟩,
    fun _ v hv hunread => ?_⟩
  obtain ⟨k, hk, hle⟩ := hunread
  have hlt := hheader v hv k hk
  unfold second at hlt
  omega

end Steps

section Run

variable {http : Http} {cfg : Config} {rawURL : String} {rounds : ℕ → Round} {s : Step} {n left : ℕ}
  {lastErr : Option FetchErr}

/-- The retries of a run are as they should be: at most so many attempts, another one only after a
failure that may pass, and the delays. -/
structure RunBounded (http : Http) (cfg : Config) (rawURL : String) (steps : List Step) : Prop where
  attempts : (steps.length : ℤ) ≤ cfg.maxAttempts.1
  retried : ∀ s ∈ steps.dropLast, s.outcome.err.isSome = true ∧ s.outcome.retryable = true
  delays : ∀ s ∈ steps, StepBounded http cfg rawURL s

/-- The round is followed by another one. -/
def Continues (http : Http) (cfg : Config) (rawURL : String) (n : ℕ) (r : Round) : Prop :=
  Waits http cfg rawURL n r ∧ r.woken = false

/-- **One round** is the last one, or a failure that is retried. -/
theorem retryLoop_cases :
    ∃ s, Made http cfg rawURL s ∧ s.attempt = n ∧ s.round = rounds n ∧
      ((¬ Continues http cfg rawURL n (rounds n) ∧
        (retryLoop http cfg rawURL rounds (left + 1) n lastErr).steps = [s]) ∨
        (Continues http cfg rawURL n (rounds n) ∧ s.outcome = attempt http cfg rawURL (rounds n) ∧
          ∃ err, (retryLoop http cfg rawURL rounds (left + 1) n lastErr).steps =
            s :: (retryLoop http cfg rawURL rounds left (n + 1) err).steps)) := by
  have hwaits : ∀ b, retries cfg n (rounds n) (attempt http cfg rawURL (rounds n)) = b →
      (Waits http cfg rawURL n (rounds n) ↔ b = true) := by
    rintro b rfl
    exact waits_iff
  rw [retryLoop]
  dsimp only
  cases herr : (attempt http cfg rawURL (rounds n)).err with
  -- a success ends the loop
  | none =>
    have hretries : retries cfg n (rounds n) (attempt http cfg rawURL (rounds n)) = false := by
      unfold retries
      rw [herr]
      rfl
    refine ⟨⟨n, rounds n, attempt http cfg rawURL (rounds n), none⟩, ⟨rfl, ?_⟩, rfl, rfl,
      .inl ⟨?_, rfl⟩⟩
    · dsimp only
      rw [hretries]
      rfl
    · exact fun h => absurd ((hwaits _ hretries).1 h.1) Bool.false_ne_true
  | some err =>
    dsimp only
    split
    -- a failure that is final, the last attempt, or a context that has ended
    · next hlast =>
      have hretries : retries cfg n (rounds n) (attempt http cfg rawURL (rounds n)) = false := by
        unfold retries
        rw [← Bool.not_eq_true]
        simp only [Bool.or_eq_true, Bool.not_eq_true', decide_eq_true_eq, Bool.and_eq_true, ne_eq,
          decide_not] at hlast ⊢
        rintro ⟨⟨⟨-, hretryable⟩, hn⟩, hended⟩
        rcases hlast with (hlast | hlast) | hlast
        · rw [hlast] at hretryable
          cases hretryable
        · simp [hlast] at hn
        · rw [hlast] at hended
          cases hended
      refine ⟨⟨n, rounds n, attempt http cfg rawURL (rounds n), none⟩, ⟨rfl, ?_⟩, rfl, rfl,
        .inl ⟨?_, rfl⟩⟩
      · dsimp only
        rw [hretries]
        rfl
      · exact fun h => absurd ((hwaits _ hretries).1 h.1) Bool.false_ne_true
    -- a failure to be retried: the wait is slept through, or cut short
    · next hmore =>
      simp only [Bool.or_eq_true, Bool.not_eq_true', decide_eq_true_eq, not_or, Bool.not_eq_false,
        Bool.not_eq_true] at hmore
      have hretries : retries cfg n (rounds n) (attempt http cfg rawURL (rounds n)) = true := by
        unfold retries
        simp [herr, hmore]
      refine ⟨⟨n, rounds n, attempt http cfg rawURL (rounds n),
        some (backoff cfg n (attempt http cfg rawURL (rounds n)).retryAfter (rounds n).rng)⟩,
          ⟨rfl, (if_pos hretries).symm⟩, rfl, rfl, ?_⟩
      split
      · next hwoken => exact .inl ⟨fun h => absurd (hwoken.symm.trans h.2) (by decide), rfl⟩
      · next hslept =>
        exact .inr ⟨⟨(hwaits _ hretries).2 rfl, Bool.eq_false_of_not_eq_true hslept⟩, rfl,
          some err, rfl⟩

/-- The round is reached: it is among those that are allowed, and every round before it is followed
by another one. -/
def Reached (http : Http) (cfg : Config) (rawURL : String) (rounds : ℕ → Round) (n : ℕ) : Prop :=
  0 < n ∧ (n : ℤ) ≤ cfg.maxAttempts.1 ∧ ∀ k, 0 < k → k < n → Continues http cfg rawURL k (rounds k)

/-- The rounds of the loop from a round on. -/
theorem mem_retryLoop {m : ℕ} : (∃ s ∈ (retryLoop http cfg rawURL rounds left n lastErr).steps,
    s.attempt = m ∧ s.round = rounds m) ↔
      n ≤ m ∧ m < n + left ∧ ∀ k, n ≤ k → k < m → Continues http cfg rawURL k (rounds k) := by
  induction left generalizing n lastErr with
  | zero =>
    constructor
    · rintro ⟨s, hs, -⟩
      cases hs
    · rintro ⟨hle, hlt, -⟩
      omega
  | succ left ih =>
    obtain ⟨s, -, hattempt, hround, ⟨hstops, hsteps⟩ | ⟨hgoes, -, err, hsteps⟩⟩ :=
      @retryLoop_cases http cfg rawURL rounds n left lastErr
    · rw [hsteps]
      constructor
      · rintro ⟨s', hs', rfl, -⟩
        obtain rfl := List.mem_singleton.1 hs'
        rw [hattempt]
        exact ⟨Nat.le_refl n, by omega, fun k hk hlt => absurd hlt (by omega)⟩
      · rintro ⟨hle, -, hbefore⟩
        have hsame : m = n := by
          by_contra hne
          exact hstops (hbefore n (Nat.le_refl n) (by omega))
        subst hsame
        exact ⟨s, List.mem_singleton_self s, hattempt, hround⟩
    · rw [hsteps]
      simp only [List.mem_cons, exists_eq_or_imp]
      rw [ih, hattempt, hround]
      constructor
      · rintro (⟨rfl, -⟩ | ⟨hle, hlt, hbefore⟩)
        · exact ⟨Nat.le_refl _, by omega, fun k hk hlt => absurd hlt (by omega)⟩
        · refine ⟨by omega, by omega, fun k hk hkm => ?_⟩
          by_cases hfirst : k = n
          · exact hfirst ▸ hgoes
          · exact hbefore k (by omega) hkm
      · rintro ⟨hle, hlt, hbefore⟩
        by_cases hfirst : n = m
        · exact .inl ⟨hfirst, congrArg rounds hfirst⟩
        · exact .inr ⟨by omega, by omega, fun k hk hkm => hbefore k (by omega) hkm⟩

/-- **The rounds of a run** are those that are reached. -/
theorem mem_fetchWithRetry (hcfg : Positive cfg) {m : ℕ} :
    (∃ s ∈ (fetchWithRetry http cfg rawURL rounds).steps, s.attempt = m ∧ s.round = rounds m) ↔
      Reached http cfg rawURL rounds m := by
  have hpos := hcfg.maxAttempts
  unfold fetchWithRetry Reached
  rw [mem_retryLoop]
  exact and_congr Iff.rfl (and_congr (by omega) Iff.rfl)

/-- A round of the loop is one of those given to it. -/
theorem retryLoop_made (h : s ∈ (retryLoop http cfg rawURL rounds left n lastErr).steps) :
    Made http cfg rawURL s ∧ s.round = rounds s.attempt := by
  induction left generalizing n lastErr with
  | zero => cases h
  | succ left ih =>
    obtain ⟨s', hmade, rfl, hround, ⟨-, hsteps⟩ | ⟨-, -, err, hsteps⟩⟩ :=
      @retryLoop_cases http cfg rawURL rounds n left lastErr
    · rw [hsteps, List.mem_singleton] at h
      exact h ▸ ⟨hmade, hround⟩
    · rw [hsteps] at h
      rcases List.mem_cons.1 h with rfl | h
      · exact ⟨hmade, hround⟩
      · exact ih h

theorem retryLoop_length :
    (retryLoop http cfg rawURL rounds left n lastErr).steps.length ≤ left := by
  induction left generalizing n lastErr with
  | zero => exact Nat.le_refl 0
  | succ left ih =>
    obtain ⟨s, -, -, -, ⟨-, hsteps⟩ | ⟨-, -, err, hsteps⟩⟩ :=
      @retryLoop_cases http cfg rawURL rounds n left lastErr
    · rw [hsteps, List.length_singleton]
      omega
    · rw [hsteps, List.length_cons]
      exact Nat.succ_le_succ ih

theorem retryLoop_retried
    (h : s ∈ (retryLoop http cfg rawURL rounds left n lastErr).steps.dropLast) :
    s.outcome.err.isSome = true ∧ s.outcome.retryable = true := by
  induction left generalizing n lastErr with
  | zero => cases h
  | succ left ih =>
    obtain ⟨s', -, -, -, ⟨-, hsteps⟩ | ⟨hgoes, houtcome, err, hsteps⟩⟩ :=
      @retryLoop_cases http cfg rawURL rounds n left lastErr
    · rw [hsteps] at h
      cases h
    · rw [hsteps] at h
      cases hrest : (retryLoop http cfg rawURL rounds left (n + 1) err).steps with
      | nil =>
        rw [hrest] at h
        cases h
      | cons s'' rest =>
        rw [hrest, List.dropLast_cons_cons] at h
        rcases List.mem_cons.1 h with rfl | h
        · rw [houtcome]
          exact transient_iff.1 hgoes.1.1
        · refine @ih (n + 1) err ?_
          rw [hrest]
          exact h

/-- The rounds with the jitter that each of them draws. -/
def drawn (rounds : ℕ → Round) (rngs : ℕ → Rng) (n : ℕ) : Round := (rounds n).withJitter (rngs n)

/-- **Retry delays are bounded and honour the server**, for every configuration, URL and course of
the rounds, and whatever the jitter: at most so many attempts, another one only after a failure that
may pass, and delays without overflow, up to the largest one and as the server asks; if and only if
the numbers of each round that is reached fit. -/
theorem delays_bounded (http : Http) (c : Config) (rawURL : String) (rounds : ℕ → Round) :
    (∀ rngs, RunBounded http (applyDefaults c) rawURL
      (fetchWithRetry http (applyDefaults c) rawURL (drawn rounds rngs)).steps) ↔
    ∀ n, Reached http (applyDefaults c) rawURL rounds n →
    RoundFits http (applyDefaults c) rawURL n (rounds n) := by
  have hcfg := applyDefaults_positive c
  constructor
  · intro hruns n hreached
    rw [← roundFits_iff hcfg hreached.1]
    intro rng
    -- every round draws this jitter
    obtain ⟨s, hs, rfl, hround⟩ :=
      (@mem_fetchWithRetry http _ rawURL (drawn rounds fun _ => rng) hcfg n).2 hreached
    have hbounded := (hruns fun _ => rng).delays s hs
    rw [stepBounded_iff hcfg (retryLoop_made hs).1, hround] at hbounded
    exact hbounded
  · intro hfits rngs
    refine ⟨?_, fun s hs => retryLoop_retried hs, fun s hs => ?_⟩
    · have hlength : (fetchWithRetry http (applyDefaults c) rawURL
        (drawn rounds rngs)).steps.length ≤
          (applyDefaults c).maxAttempts.1.toNat := retryLoop_length
      have hpos := hcfg.maxAttempts
      omega
    · obtain ⟨hmade, hround⟩ := retryLoop_made hs
      have hreached : Reached http (applyDefaults c) rawURL (drawn rounds rngs) s.attempt :=
        (mem_fetchWithRetry hcfg).1 ⟨s, hs, rfl, hround⟩
      rw [stepBounded_iff hcfg hmade, hround]
      exact (roundFits_iff hcfg hreached.1).2 (hfits _ hreached) (rngs _)

/-- Dates as they are written today, of which it reads one. -/
def oneDate : Http where
  validURL _ := true
  parseTime v := if v = "Wed, 21 Oct 2026 07:28:00 GMT" then some 1792567680000000000 else none
  parseTime_numeral v hv := by
    refine if_neg fun heq => hv ?_
    rw [heq]
    decide

/-- The first delay is longer than the largest one. -/
def longFirst : Config := { noConfig with baseRetryDelay := ⟨120 * second, by decide⟩ }

/-- A server that asks for 9223372037 seconds, and one that does not answer. -/
def askedCenturies : Round :=
  ⟨.response 429 "9223372037" ⟨[], false⟩, false, false, 0, noJitter, true⟩

def noAnswer : Round := ⟨.failed, false, false, 0, noJitter, true⟩

/-- The wait is half a second, where the server asks for centuries; and a minute, where the largest
delay is half of that. -/
theorem delays_unbounded :
    ((fetchWithRetry oneDate (applyDefaults noConfig) "https://big.oisd.nl" fun _ =>
      askedCenturies).steps.map Step.delay =
        [some ⟨second / 2, false⟩] ∧
      ¬ RunBounded oneDate (applyDefaults noConfig) "https://big.oisd.nl"
        (fetchWithRetry oneDate (applyDefaults noConfig) "https://big.oisd.nl" fun _ =>
          askedCenturies).steps) ∧
    ((fetchWithRetry oneDate (applyDefaults longFirst) "https://big.oisd.nl" fun _ =>
      noAnswer).steps.map Step.delay =
        [some ⟨60 * second, true⟩] ∧
      ¬ RunBounded oneDate (applyDefaults longFirst) "https://big.oisd.nl"
        (fetchWithRetry oneDate (applyDefaults longFirst) "https://big.oisd.nl" fun _ =>
          noAnswer).steps) := by
  refine ⟨⟨by decide, fun h => ?_⟩, by decide, fun h => ?_⟩
  · have hexact := (h.delays _ (List.mem_singleton_self _)).exact.1
    revert hexact
    decide
  · have hle := ((h.delays _ (List.mem_singleton_self _)).within _ rfl).2
    revert hle
    decide

end Run

end ModDNS.Blocklists.Downloader
