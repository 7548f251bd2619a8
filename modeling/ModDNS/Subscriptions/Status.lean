import ModDNS.Go.Strings

/-!
# The status of a subscription

`GetStatus` reads two clocks: when the paid time ends, and when the subscription was last synced.
Instants are in nanoseconds since the Unix epoch; the dates come from Mongo, in UTC, where a day of
`AddDate` has 24 hours.

* `getStatus_eq`: the status as one case distinction over the dates.
* `status_waiting`: what waiting does to it.
-/

namespace ModDNS.Subscriptions

open Go

def hours (n : ℤ) : ℤ := n * 3600000000000

def days (n : ℤ) : ℤ := n * 86400000000000

/-- The zero `time.Time`: the first of January of the year 1. -/
def zeroTime : ℤ := -62135596800000000000

inductive SubscriptionStatus where
  | active
  | gracePeriod
  | limitedAccess
  | inactive
  | pendingDelete
  deriving DecidableEq

/-- The order of the statuses, the most permissive first. -/
def SubscriptionStatus.rank : SubscriptionStatus → ℕ
  | .active => 0
  | .gracePeriod => 1
  | .limitedAccess => 2
  | .inactive => 3
  | .pendingDelete => 4

/-- The tier of the Standard plan, by both of its names. -/
def hasStandardTier (tier : String) : Bool := contains tier "Tier 1" || contains tier "Standard"

structure Subscription where
  activeUntil : ℤ
  updatedAt : ℤ
  tier : String
  notified : Bool := false
  notifiedInactive : Bool := false
  deletionScheduledAt : Option ℤ := none
  deriving DecidableEq

section Predicates

variable (s : Subscription) (now : ℤ)

def Subscription.Retired : Prop := s.deletionScheduledAt ≠ none

instance : Decidable s.Retired := inferInstanceAs (Decidable (_ ≠ _))

/-- The last sync is more than 48 hours old. -/
def Subscription.IsOutage : Prop := s.updatedAt ≠ zeroTime ∧ s.updatedAt + hours 48 < now

instance : Decidable (s.IsOutage now) := inferInstanceAs (Decidable (_ ∧ _))

def Subscription.Active : Prop :=
  now < s.activeUntil ∧ hasStandardTier s.tier = false ∧ ¬ s.IsOutage now ∧ ¬ s.Retired

instance : Decidable (s.Active now) := inferInstanceAs (Decidable (_ ∧ _))

def Subscription.GracePeriodDays (n : ℤ) : Prop :=
  now < s.activeUntil + days n ∧ s.activeUntil < now

instance (n : ℤ) : Decidable (s.GracePeriodDays now n) := inferInstanceAs (Decidable (_ ∧ _))

def Subscription.OutageGracePeriodDays (n : ℤ) : Prop :=
  now < s.updatedAt + days n ∧ s.updatedAt < now

instance (n : ℤ) : Decidable (s.OutageGracePeriodDays now n) := inferInstanceAs (Decidable (_ ∧ _))

def Subscription.GracePeriod : Prop :=
  ¬ s.Retired ∧ s.IsOutage now ∧ s.GracePeriodDays now 3 ∧ s.OutageGracePeriodDays now 3

instance : Decidable (s.GracePeriod now) := inferInstanceAs (Decidable (_ ∧ _))

def Subscription.LimitedAccess : Prop :=
  ¬ s.Retired ∧ (s.GracePeriodDays now 14 ∨ s.OutageGracePeriodDays now 14 ∧ s.IsOutage now)

instance : Decidable (s.LimitedAccess now) := inferInstanceAs (Decidable (_ ∧ _))

def Subscription.Inactive : Prop :=
  ¬ s.Retired ∧ (hasStandardTier s.tier = true ∨ s.updatedAt + days 14 < now ∨
    s.activeUntil + days 14 < now)

instance : Decidable (s.Inactive now) := inferInstanceAs (Decidable (_ ∧ _))

def Subscription.getStatus : SubscriptionStatus :=
  if s.Retired then .pendingDelete
  else if s.Active now then .active
  else if s.GracePeriod now then .gracePeriod
  else if s.Inactive now then .inactive
  else if s.LimitedAccess now then .limitedAccess
  else .inactive

end Predicates

section Status

variable {s : Subscription} {now t₁ t₂ : ℤ}

theorem getStatus_retired (h : s.Retired) : s.getStatus now = .pendingDelete := if_pos h

theorem getStatus_active_iff : s.getStatus now = .active ↔ s.Active now := by
  unfold Subscription.getStatus
  constructor
  · intro h
    by_contra hnot
    rw [if_neg hnot] at h
    split_ifs at h
  · intro h
    rw [if_neg h.2.2.2, if_pos h]

theorem getStatus_grace_iff : s.getStatus now = .gracePeriod ↔ s.GracePeriod now := by
  unfold Subscription.getStatus
  constructor
  · intro h
    by_contra hnot
    rw [if_neg hnot] at h
    split_ifs at h
  · intro h
    have hactive : ¬ s.Active now := fun hactive => hactive.2.2.1 h.2.1
    rw [if_neg h.1, if_neg hactive, if_pos h]

theorem getStatus_limited_iff : s.getStatus now = .limitedAccess ↔
    s.LimitedAccess now ∧ ¬ s.Active now ∧ ¬ s.GracePeriod now ∧ ¬ s.Inactive now := by
  unfold Subscription.getStatus
  constructor
  · intro h
    split_ifs at h with h₁ h₂ h₃ h₄ h₅
    exact ⟨h₅, h₂, h₃, h₄⟩
  · rintro ⟨h₅, h₂, h₃, h₄⟩
    rw [if_neg h₅.1, if_neg h₂, if_neg h₃, if_neg h₄, if_pos h₅]

theorem getStatus_inactive_iff : s.getStatus now = .inactive ↔
    ¬ s.Retired ∧ ¬ s.Active now ∧ ¬ s.GracePeriod now ∧
      (s.Inactive now ∨ ¬ s.LimitedAccess now) := by
  unfold Subscription.getStatus
  constructor
  · intro h
    split_ifs at h with h₁ h₂ h₃ h₄ h₅
    · exact ⟨h₁, h₂, h₃, .inl h₄⟩
    · exact ⟨h₁, h₂, h₃, .inr h₅⟩
  · rintro ⟨h₁, h₂, h₃, h₄ | h₅⟩
    · rw [if_neg h₁, if_neg h₂, if_neg h₃, if_pos h₄]
    · rw [if_neg h₁, if_neg h₂, if_neg h₃, if_neg h₅, ite_self]

/-- An outage does not end by waiting. -/
theorem isOutage_mono (h : t₁ ≤ t₂) (hout : s.IsOutage t₁) : s.IsOutage t₂ :=
  ⟨hout.1, Int.lt_of_lt_of_le hout.2 h⟩

/-- Full access does not come back by waiting. -/
theorem active_anti (h : t₁ ≤ t₂) (hactive : s.Active t₂) : s.Active t₁ :=
  ⟨Int.lt_of_le_of_lt h hactive.1, hactive.2.1, fun hout => hactive.2.2.1 (isOutage_mono h hout),
    hactive.2.2.2⟩

/-- A grace period has been one since both its reasons hold. -/
theorem grace_anti (h : t₁ ≤ t₂) (hgrace : s.GracePeriod t₂) (hout : s.IsOutage t₁)
    (hend : s.activeUntil < t₁) :
    s.GracePeriod t₁ := by
  obtain ⟨hretired, -, hpaid, hsync⟩ := hgrace
  unfold Subscription.GracePeriodDays Subscription.OutageGracePeriodDays at *
  have hsynced : s.updatedAt < t₁ := by
    have := hout.2
    unfold hours at this
    omega
  exact ⟨hretired, hout, ⟨by omega, hend⟩, by omega, hsynced⟩

/-- The cut-off stays. -/
theorem inactive_mono (h : t₁ ≤ t₂) (hinactive : s.Inactive t₁) : s.Inactive t₂ := by
  obtain ⟨hretired, htier | hsync | hpaid⟩ := hinactive
  · exact ⟨hretired, .inl htier⟩
  · exact ⟨hretired, .inr (.inl (Int.lt_of_lt_of_le hsync h))⟩
  · exact ⟨hretired, .inr (.inr (Int.lt_of_lt_of_le hpaid h))⟩

theorem rank_le (status : SubscriptionStatus) :
    status.rank ≤ SubscriptionStatus.pendingDelete.rank := by
  cases status <;> decide

theorem not_pending (h : ¬ s.Retired) : s.getStatus now ≠ .pendingDelete := by
  unfold Subscription.getStatus
  rw [if_neg h]
  split_ifs <;> exact nofun

/-- Where an account is cut off although neither of its dates is 14 days old, one of them is about
to count: the paid time ends at this instant, or a date is 14 days old to the nanosecond. -/
theorem inactive_dates (htier : hasStandardTier s.tier = false) (h : s.getStatus now = .inactive) :
    s.Inactive now ∨ (s.activeUntil = now ∧ ¬ s.IsOutage now) ∨
      (s.activeUntil + days 14 = now ∧ (¬ s.IsOutage now ∨ s.updatedAt + days 14 = now)) ∨
      (s.updatedAt + days 14 = now ∧ now ≤ s.activeUntil ∧ s.IsOutage now) := by
  obtain ⟨hretired, hactive, hgrace, hinactive | hlimited⟩ := getStatus_inactive_iff.1 h
  · exact .inl hinactive
  by_cases hinactive : s.Inactive now
  · exact .inl hinactive
  right
  have hsync : ¬ s.updatedAt + days 14 < now := fun hsync => hinactive ⟨hretired, .inr (.inl hsync)⟩
  have hpaid : ¬ s.activeUntil + days 14 < now := fun hpaid =>
    hinactive ⟨hretired, .inr (.inr hpaid)⟩
  have hafter : ¬ s.GracePeriodDays now 14 := fun hafter => hlimited ⟨hretired, .inl hafter⟩
  unfold Subscription.GracePeriodDays days at *
  by_cases hout : s.IsOutage now
  · have hsynced : ¬ s.OutageGracePeriodDays now 14 := fun hsynced =>
      hlimited ⟨hretired, .inr ⟨hsynced, hout⟩⟩
    have hold := hout.2
    unfold hours at hold
    unfold Subscription.OutageGracePeriodDays days at hsynced
    simp only [hout, not_true_eq_false, and_false, false_or, and_true]
    omega
  · have hrunning : ¬ now < s.activeUntil := fun hrunning =>
      hactive ⟨hrunning, htier, hout, hretired⟩
    simp only [hout, not_false_eq_true, and_true, and_false, true_or, or_false]
    omega

/-- An account that is cut off does not get a grace period by waiting. -/
theorem not_grace_of_inactive (h : t₁ ≤ t₂) (htier : hasStandardTier s.tier = false)
    (hend : t₁ ≠ s.activeUntil) (hinactive : s.getStatus t₁ = .inactive) : ¬ s.GracePeriod t₂ := by
  rintro ⟨hretired, -, hpaid, hsync⟩
  unfold Subscription.GracePeriodDays Subscription.OutageGracePeriodDays at *
  rcases inactive_dates htier hinactive with hinactive | ⟨hpaid', -⟩ | ⟨hpaid', -⟩ | ⟨hsync', -, -⟩
  · obtain ⟨-, hstandard | hsync' | hpaid'⟩ := inactive_mono h hinactive
    · rw [htier] at hstandard
      cases hstandard
    · unfold days at *
      omega
    · unfold days at *
      omega
  · exact hend hpaid'.symm
  · unfold days at *
    omega
  · unfold days at *
    omega

/-- Nor limited access. -/
theorem not_limited_of_inactive (h : t₁ ≤ t₂) (htier : hasStandardTier s.tier = false)
    (hend : t₁ ≠ s.activeUntil) (hinactive : s.getStatus t₁ = .inactive) :
    s.getStatus t₂ ≠ .limitedAccess := by
  intro hlimited
  obtain ⟨⟨hretired, hreason⟩, -, -, hnot⟩ := getStatus_limited_iff.1 hlimited
  have hsync₂ : ¬ s.updatedAt + days 14 < t₂ := fun hsync => hnot ⟨hretired, .inr (.inl hsync)⟩
  have hpaid₂ : ¬ s.activeUntil + days 14 < t₂ := fun hpaid => hnot ⟨hretired, .inr (.inr hpaid)⟩
  unfold Subscription.GracePeriodDays Subscription.OutageGracePeriodDays days at *
  rcases inactive_dates htier hinactive with hinactive | ⟨hpaid', -⟩ | ⟨hpaid',
    hout | hsync'⟩ | ⟨hsync', hrunning, -⟩
  · exact hnot (inactive_mono h hinactive)
  · exact hend hpaid'.symm
  · -- the second instant is the first one
    unfold days at hpaid'
    obtain rfl : t₁ = t₂ := by omega
    rcases hreason with hafter | ⟨-, hout'⟩
    · omega
    · exact hout hout'
  · unfold days at *
    omega
  · unfold days at *
    omega

/-- **Waiting.** An account does not become active by waiting. Outside the Standard plan, and off
the very instant at which the paid time ends, its status loosens in one way only: from limited
access to the grace period, when the paid time has ended and the outage has begun, the later of the
two in between. -/
theorem status_waiting (s : Subscription) (h : t₁ ≤ t₂) :
    (s.getStatus t₂ = .active → s.getStatus t₁ = .active) ∧
      (hasStandardTier s.tier = false → t₁ ≠ s.activeUntil →
        (s.getStatus t₁).rank ≤ (s.getStatus t₂).rank ∨
          (s.getStatus t₁ = .limitedAccess ∧ s.getStatus t₂ = .gracePeriod ∧
            ¬ (s.IsOutage t₁ ∧ s.activeUntil < t₁))) := by
  refine ⟨fun h₂ => getStatus_active_iff.2 (active_anti h (getStatus_active_iff.1 h₂)),
    fun htier hend => ?_⟩
  by_cases hretired : s.Retired
  · rw [getStatus_retired hretired, getStatus_retired hretired]
    exact .inl (Nat.le_refl _)
  -- by the later status: what the earlier one cannot have been
  cases h₂ : s.getStatus t₂ with
  | active =>
    have h₁ := getStatus_active_iff.2 (active_anti h (getStatus_active_iff.1 h₂))
    rw [h₁]
    exact .inl (Nat.le_refl _)
  | pendingDelete => exact .inl (rank_le _)
  | inactive =>
    left
    cases h₁ : s.getStatus t₁ with
    | pendingDelete => exact absurd h₁ (not_pending hretired)
    | _ => decide
  | gracePeriod =>
    have hgrace := getStatus_grace_iff.1 h₂
    cases h₁ : s.getStatus t₁ with
    | pendingDelete => exact absurd h₁ (not_pending hretired)
    | inactive => exact absurd hgrace (not_grace_of_inactive h htier hend h₁)
    | limitedAccess =>
      refine .inr ⟨rfl, rfl, fun ⟨hout, hpaid⟩ => ?_⟩
      rw [getStatus_grace_iff.2 (grace_anti h hgrace hout hpaid)] at h₁
      cases h₁
    | _ => exact .inl (by decide)
  | limitedAccess =>
    left
    cases h₁ : s.getStatus t₁ with
    | pendingDelete => exact absurd h₁ (not_pending hretired)
    | inactive => exact absurd h₂ (not_limited_of_inactive h htier hend h₁)
    | _ => decide

end Status

section Examples

/-- Synced for the last time when the paid time ended. -/
def endedSubscription : Subscription where
  activeUntil := 0
  updatedAt := 0
  tier := "IVPN Tier 2"

/-- Restricted on the first day, and with full access again on the third. -/
theorem waiting_loosens :
    hours 24 ≤ hours 50 ∧
      ¬ (endedSubscription.getStatus (hours 24)).rank ≤
        (endedSubscription.getStatus (hours 50)).rank := by decide

theorem status_waiting_ended :
    (endedSubscription.getStatus (hours 50)).rank ≤
      (endedSubscription.getStatus (hours 80)).rank := by
  have hbefore : hours 50 ≤ hours 80 := by decide
  obtain hle | ⟨hlimited, -⟩ := (status_waiting endedSubscription hbefore).2 (by decide) (by decide)
  · exact hle
  · revert hlimited
    decide

-- the grace period does not look at the tier: the Standard plan gets access by waiting, too
example : ({ endedSubscription with tier := "IVPN Standard" }.getStatus (hours 24)) = .inactive ∧
    ({ endedSubscription with tier := "IVPN Standard" }.getStatus (hours 50)) = .gracePeriod := by
      decide

end Examples

end ModDNS.Subscriptions
