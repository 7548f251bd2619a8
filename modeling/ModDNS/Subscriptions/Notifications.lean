import ModDNS.Subscriptions.Status

/-!
# The candidates of the notification crons

The crons read candidates with a filter of the database and keep those that have the status they are
about. Dates are stored in milliseconds; a filter on a field that is not stored does not match.

* `filters_complete_iff`: when the filters miss nobody.
* `filters_miss`: whom they miss.
-/

namespace ModDNS.Subscriptions

open Go

/-- A document of the `subscriptions` collection, as far as the crons are concerned. A field may not
be stored. -/
structure SubscriptionDoc where
  activeUntil : Option ℤ
  updatedAt : Option ℤ
  tier : Option String
  notified : Option Bool
  notifiedInactive : Option Bool
  deletionScheduledAt : Option ℤ
  deriving DecidableEq

/-- The time of a stored date. -/
def dateTime (ms : ℤ) : ℤ := ms * 1000000

/-- The date that a filter has for a time: `NewDateTimeFromTime`. -/
def newDateTime (t : ℤ) : ℤ := t / 1000000

/-- A field that is not stored has the zero value. -/
def SubscriptionDoc.decode (d : SubscriptionDoc) : Subscription where
  activeUntil := (d.activeUntil.map dateTime).getD zeroTime
  updatedAt := (d.updatedAt.map dateTime).getD zeroTime
  tier := d.tier.getD ""
  notified := d.notified.getD false
  notifiedInactive := d.notifiedInactive.getD false
  deletionScheduledAt := d.deletionScheduledAt.map dateTime

/-- `$lt` on a date. -/
def before (field : Option ℤ) (bound : ℤ) : Bool :=
  match field with
  | some t => t < bound
  | none => false

/-- `$regex` with `Tier 1|Standard`. -/
def standardPattern (field : Option String) : Bool :=
  match field with
  | some tier => contains tier "Tier 1" || contains tier "Standard"
  | none => false

section Queries

variable (docs : List SubscriptionDoc) (now : ℤ)

def findExpiredUnnotified : List SubscriptionDoc :=
  docs.filter fun d => d.notified = some false &&
    (before d.activeUntil (newDateTime (now - hours 24)) || before d.updatedAt
      (newDateTime (now - hours 48)))

def findInactiveUnnotified : List SubscriptionDoc :=
  docs.filter fun d => d.notifiedInactive = some false &&
    (before d.activeUntil (newDateTime (now - days 14)) || before d.updatedAt
      (newDateTime (now - days 14)) ||
      standardPattern d.tier)

/-- The candidates that `NotifyExpiringSubscriptions` keeps. -/
def notifyExpiring : List SubscriptionDoc :=
  (findExpiredUnnotified docs now).filter fun d => d.decode.getStatus now = .limitedAccess

/-- The candidates that `NotifyInactiveSubscriptions` keeps. -/
def notifyInactive : List SubscriptionDoc :=
  (findInactiveUnnotified docs now).filter fun d => d.decode.getStatus now = .inactive

/-- The filters miss nobody. -/
def FiltersComplete : Prop :=
  (∀ d ∈ docs, d.decode.notified = false → d.decode.getStatus now = .limitedAccess →
    d ∈ findExpiredUnnotified docs now) ∧
    ∀ d ∈ docs, d.decode.notifiedInactive = false → d.decode.getStatus now = .inactive →
      d ∈ findInactiveUnnotified docs now

end Queries

section Conditions

variable (d : SubscriptionDoc) (now : ℤ)

/-- Neither retired nor on the Standard plan. -/
def SubscriptionDoc.Entitled : Prop :=
  d.deletionScheduledAt = none ∧ hasStandardTier d.decode.tier = false

/-- Restricted for less than a day: the paid time has not ended 24 hours ago and the last sync is
not 48 hours old, in whole milliseconds, and one of the two restricts the access: the end of the
paid time or the outage. -/
def SubscriptionDoc.FirstDay : Prop :=
  match d.activeUntil, d.updatedAt with
  | some paid, some synced =>
    newDateTime (now - hours 24) ≤ paid ∧ newDateTime (now - hours 48) ≤ synced ∧
      (dateTime paid < now ↔ ¬ dateTime synced + hours 48 < now)
  | _, _ => False

/-- The access is cut off at the end of the paid time itself, or in the millisecond in which a date
becomes 14 days old. -/
def OnEdge (paid synced : ℤ) : Prop :=
  dateTime synced + days 14 < now ∨ dateTime paid + days 14 < now ∨
    (dateTime paid = now ∧ ¬ dateTime synced + hours 48 < now) ∨
    (dateTime paid + days 14 = now ∧
      (¬ dateTime synced + hours 48 < now ∨ dateTime synced + days 14 = now)) ∨
    (dateTime synced + days 14 = now ∧ now ≤ dateTime paid)

/-- Cut off without a stored date that is 14 days old. -/
def SubscriptionDoc.Undated : Prop :=
  match d.activeUntil, d.updatedAt with
  | none, none => True
  | none, some synced => newDateTime (now - days 14) ≤ synced
  | some paid, none => newDateTime (now - days 14) ≤ paid ∧ dateTime paid ≤ now
  | some paid, some synced =>
    newDateTime (now - days 14) ≤ paid ∧ newDateTime (now - days 14) ≤ synced ∧
      OnEdge now paid synced

/-- The filters find the document wherever the crons need it. -/
def SubscriptionDoc.Seen : Prop :=
  (d.notified = none → d.decode.getStatus now ≠ .limitedAccess) ∧
    (d.notified = some false → d.Entitled → ¬ d.FirstDay now) ∧
    (d.notifiedInactive = none → d.decode.getStatus now ≠ .inactive) ∧
    (d.notifiedInactive = some false → d.Entitled → ¬ d.Undated now)

instance : Decidable d.Entitled := inferInstanceAs (Decidable (_ ∧ _))

instance : Decidable (d.FirstDay now) := by
  unfold SubscriptionDoc.FirstDay
  split <;> infer_instance

instance : Decidable (d.Undated now) := by
  unfold SubscriptionDoc.Undated OnEdge
  split <;> infer_instance

instance : Decidable (d.Seen now) := inferInstanceAs (Decidable (_ ∧ _ ∧ _ ∧ _))

end Conditions

section Proofs

variable {d : SubscriptionDoc} {docs : List SubscriptionDoc} {now : ℤ}

theorem before_false_iff {field : Option ℤ} {bound : ℤ} :
    before field bound = false ↔ ∀ t, field = some t → bound ≤ t := by
  cases field <;> simp [before]

theorem standardPattern_eq : standardPattern d.tier = hasStandardTier d.decode.tier := by
  cases h : d.tier with
  | none =>
    have hdecode : d.decode.tier = "" := by simp [SubscriptionDoc.decode, h]
    rw [hdecode]
    decide
  | some tier => simp [standardPattern, hasStandardTier, SubscriptionDoc.decode, h]

theorem retired_decode : d.decode.Retired ↔ d.deletionScheduledAt ≠ none := by
  simp [Subscription.Retired, SubscriptionDoc.decode]

theorem not_retired (h : d.Entitled) : ¬ d.decode.Retired := fun hretired =>
    retired_decode.1 hretired h.1

/-- Limited access is for accounts that are entitled. -/
theorem entitled_of_limited (h : d.decode.getStatus now = .limitedAccess) : d.Entitled := by
  obtain ⟨hlimited, -, -, hinactive⟩ := getStatus_limited_iff.1 h
  refine ⟨not_not.1 fun hne => hlimited.1 (retired_decode.2 hne), ?_⟩
  rw [← Bool.not_eq_true]
  exact fun htier => hinactive ⟨hlimited.1, .inl htier⟩

/-- Without one of its dates, an account is not in limited access. -/
theorem not_limited_of_zero (h0 : 0 ≤ now)
    (h : d.decode.activeUntil = zeroTime ∨ d.decode.updatedAt = zeroTime) :
    d.decode.getStatus now ≠ .limitedAccess := by
  intro hlimited
  obtain ⟨⟨hretired, -⟩, -, -, hinactive⟩ := getStatus_limited_iff.1 hlimited
  refine hinactive ⟨hretired, .inr ?_⟩
  unfold days zeroTime at *
  omega

/-- What the first filter leaves out of limited access. -/
theorem limited_iff_firstDay (h0 : 0 ≤ now) (hent : d.Entitled)
    (hpaid : before d.activeUntil (newDateTime (now - hours 24)) = false)
    (hsync : before d.updatedAt (newDateTime (now - hours 48)) = false) :
    d.decode.getStatus now = .limitedAccess ↔ d.FirstDay now := by
  rw [before_false_iff] at hpaid hsync
  unfold SubscriptionDoc.FirstDay
  cases ha : d.activeUntil with
  | none =>
    have hzero : d.decode.activeUntil = zeroTime := by simp [SubscriptionDoc.decode, ha]
    simp [not_limited_of_zero h0 (.inl hzero)]
  | some paid => cases hu : d.updatedAt with
    | none =>
      have hzero : d.decode.updatedAt = zeroTime := by simp [SubscriptionDoc.decode, hu]
      simp [not_limited_of_zero h0 (.inr hzero)]
    | some synced =>
      have hpaid' : d.decode.activeUntil = dateTime paid := by simp [SubscriptionDoc.decode, ha]
      have hsync' : d.decode.updatedAt = dateTime synced := by simp [SubscriptionDoc.decode, hu]
      have h₁ := hpaid paid ha
      have h₂ := hsync synced hu
      have hne : dateTime synced ≠ zeroTime := by
        unfold newDateTime hours at h₂
        unfold dateTime zeroTime
        omega
      have hout : d.decode.IsOutage now ↔ dateTime synced + hours 48 < now := by
        simp [Subscription.IsOutage, hsync', hne]
      simp only [getStatus_limited_iff, Subscription.LimitedAccess, Subscription.Active,
        Subscription.GracePeriod,
        Subscription.Inactive, Subscription.GracePeriodDays, Subscription.OutageGracePeriodDays,
        hout, hpaid', hsync',
        not_retired hent, hent.2]
      unfold newDateTime dateTime hours days at *
      simp only [h₁, h₂, true_and, not_false_eq_true, and_true, Bool.false_eq_true, false_or]
      omega

/-- What the second filter leaves out of the cut-off. -/
theorem inactive_iff_undated (h0 : 0 ≤ now) (hent : d.Entitled)
    (hpaid : before d.activeUntil (newDateTime (now - days 14)) = false)
    (hsync : before d.updatedAt (newDateTime (now - days 14)) = false) :
    d.decode.getStatus now = .inactive ↔ d.Undated now := by
  rw [before_false_iff] at hpaid hsync
  have hactive : d.decode.Active now ↔ now < d.decode.activeUntil ∧ ¬ d.decode.IsOutage now := by
    simp [Subscription.Active, hent.2, not_retired hent]
  have hinactive : d.decode.Inactive now ↔ d.decode.updatedAt + days 14 < now ∨
      d.decode.activeUntil + days 14 < now := by
    simp [Subscription.Inactive, hent.2, not_retired hent]
  unfold SubscriptionDoc.Undated
  rw [getStatus_inactive_iff, hactive, hinactive]
  simp only [Subscription.LimitedAccess, Subscription.GracePeriod, Subscription.GracePeriodDays,
    Subscription.OutageGracePeriodDays, not_retired hent, not_false_eq_true, true_and]
  cases ha : d.activeUntil with
  | none =>
    have hpaid' : d.decode.activeUntil = zeroTime := by simp [SubscriptionDoc.decode, ha]
    have hended : zeroTime + days 14 < now := by
      unfold zeroTime days
      omega
    have hnot : ¬ now < zeroTime + days 3 := by
      unfold zeroTime days
      omega
    have hrunning : ¬ now < zeroTime := by
      unfold zeroTime
      omega
    cases hu : d.updatedAt with
    | none => simp [hpaid', hended, hnot, hrunning]
    | some synced =>
      have h₂ := hsync synced hu
      simp [hpaid', hended, hnot, hrunning, h₂]
  | some paid =>
    have hpaid' : d.decode.activeUntil = dateTime paid := by simp [SubscriptionDoc.decode, ha]
    have h₁ := hpaid paid ha
    cases hu : d.updatedAt with
    | none =>
      have hsync' : d.decode.updatedAt = zeroTime := by simp [SubscriptionDoc.decode, hu]
      have hended : zeroTime + days 14 < now := by
        unfold zeroTime days
        omega
      have hout : ¬ d.decode.IsOutage now := fun hout => hout.1 hsync'
      simp [hpaid', hsync', hended, hout, h₁]
    | some synced =>
      have hsync' : d.decode.updatedAt = dateTime synced := by simp [SubscriptionDoc.decode, hu]
      have h₂ := hsync synced hu
      have hne : dateTime synced ≠ zeroTime := by
        unfold newDateTime days at h₂
        unfold dateTime zeroTime
        omega
      have hout : d.decode.IsOutage now ↔ dateTime synced + hours 48 < now := by
        simp [Subscription.IsOutage, hsync', hne]
      simp only [hpaid', hsync', hout, h₁, h₂, true_and]
      unfold OnEdge newDateTime dateTime hours days at *
      omega

theorem mem_findExpired : d ∈ findExpiredUnnotified docs now ↔ d ∈ docs ∧ d.notified = some false ∧
    (before d.activeUntil (newDateTime (now - hours 24)) = true ∨
      before d.updatedAt (newDateTime (now - hours 48)) = true) := by
  simp [findExpiredUnnotified]

theorem mem_findInactive :
    d ∈ findInactiveUnnotified docs now ↔ d ∈ docs ∧ d.notifiedInactive = some false ∧
    (before d.activeUntil (newDateTime (now - days 14)) = true ∨
      before d.updatedAt (newDateTime (now - days 14)) = true ∨
        hasStandardTier d.decode.tier = true) := by
  simp [findInactiveUnnotified, standardPattern_eq, or_assoc]

theorem expired_seen_iff (h0 : 0 ≤ now) (hd : d ∈ docs) :
    (d.decode.notified = false → d.decode.getStatus now = .limitedAccess →
      d ∈ findExpiredUnnotified docs now) ↔
      (d.notified = none → d.decode.getStatus now ≠ .limitedAccess) ∧
        (d.notified = some false → d.Entitled → ¬ d.FirstDay now) := by
  have hdecode : d.decode.notified = d.notified.getD false := rfl
  rw [mem_findExpired, hdecode]
  cases hn : d.notified with
  | none => simp [hd]
  | some notified => cases notified with
    | true => simp
    | false =>
      simp only [Option.getD_some, hd, true_and, reduceCtorEq, false_implies, forall_const]
      constructor
      · intro hfound hent hfirst
        by_cases hmatch : before d.activeUntil (newDateTime (now - hours 24)) = true ∨
            before d.updatedAt (newDateTime (now - hours 48)) = true
        · unfold SubscriptionDoc.FirstDay at hfirst
          cases ha : d.activeUntil with
          | none => simp [ha] at hfirst
          | some paid => cases hu : d.updatedAt with
            | none => simp [ha, hu] at hfirst
            | some synced =>
              simp only [ha, hu, before, decide_eq_true_eq] at hfirst hmatch
              omega
        · obtain ⟨hpaid, hsync⟩ := not_or.1 hmatch
          rw [Bool.not_eq_true] at hpaid hsync
          exact hmatch (hfound ((limited_iff_firstDay h0 hent hpaid hsync).2 hfirst))
      · intro hnot hlimited
        by_contra hmatch
        obtain ⟨hpaid, hsync⟩ := not_or.1 hmatch
        rw [Bool.not_eq_true] at hpaid hsync
        have hent := entitled_of_limited hlimited
        exact hnot hent ((limited_iff_firstDay h0 hent hpaid hsync).1 hlimited)

theorem inactive_seen_iff (h0 : 0 ≤ now) (hd : d ∈ docs) :
    (d.decode.notifiedInactive = false → d.decode.getStatus now = .inactive →
      d ∈ findInactiveUnnotified docs now) ↔
      (d.notifiedInactive = none → d.decode.getStatus now ≠ .inactive) ∧
        (d.notifiedInactive = some false → d.Entitled → ¬ d.Undated now) := by
  have hdecode : d.decode.notifiedInactive = d.notifiedInactive.getD false := rfl
  rw [mem_findInactive, hdecode]
  -- only a flag stored as `false` is looked for
  cases hn : d.notifiedInactive with
  | none => simp [hd]
  | some notified => cases notified with
    | true => simp
    | false =>
      simp only [Option.getD_some, hd, true_and, reduceCtorEq, false_implies, forall_const]
      constructor
      · intro hfound hent hundated
        by_cases hmatch : before d.activeUntil (newDateTime (now - days 14)) = true ∨
            before d.updatedAt (newDateTime (now - days 14)) = true
        -- found by a date: the document is not undated then
        · unfold SubscriptionDoc.Undated at hundated
          cases ha : d.activeUntil with
          | none => cases hu : d.updatedAt with
            | none => simp [ha, hu, before] at hmatch
            | some synced =>
              simp only [ha, hu, before, decide_eq_true_eq, Bool.false_eq_true, false_or]
                at hundated hmatch
              omega
          | some paid => cases hu : d.updatedAt with
            | none =>
              simp only [ha, hu, before, decide_eq_true_eq, Bool.false_eq_true, or_false]
                at hundated hmatch
              omega
            | some synced =>
              simp only [ha, hu, before, decide_eq_true_eq] at hundated hmatch
              omega
        · obtain ⟨hpaid, hsync⟩ := not_or.1 hmatch
          rw [Bool.not_eq_true] at hpaid hsync
          rcases hfound ((inactive_iff_undated h0 hent hpaid hsync).2 hundated) with h | h | h
          · exact hmatch (.inl h)
          · exact hmatch (.inr h)
          · rw [hent.2] at h
            cases h
      -- not found by any of the three, it would be undated
      · intro hnot hinactive
        by_contra hmatch
        obtain ⟨hpaid, hrest⟩ := not_or.1 hmatch
        obtain ⟨hsync, htier⟩ := not_or.1 hrest
        rw [Bool.not_eq_true] at hpaid hsync htier
        have hretired := (getStatus_inactive_iff.1 hinactive).1
        have hent : d.Entitled := ⟨not_not.1 fun hne => hretired (retired_decode.2 hne), htier⟩
        exact hnot hent ((inactive_iff_undated h0 hent hpaid hsync).1 hinactive)

/-- **The filters miss nobody** exactly if every document is seen: the flags are stored, nobody is
on the first day of a restriction, and nobody is cut off without a stored date that is 14 days
old. -/
theorem filters_complete_iff (docs : List SubscriptionDoc) (h0 : 0 ≤ now) :
    FiltersComplete docs now ↔ ∀ d ∈ docs, d.Seen now := by
  constructor
  · rintro ⟨hexpired, hinactive⟩ d hd
    obtain ⟨h₁, h₂⟩ := (expired_seen_iff h0 hd).1 (hexpired d hd)
    obtain ⟨h₃, h₄⟩ := (inactive_seen_iff h0 hd).1 (hinactive d hd)
    exact ⟨h₁, h₂, h₃, h₄⟩
  · intro hseen
    refine ⟨fun d hd => (expired_seen_iff h0 hd).2 ?_, fun d hd => (inactive_seen_iff h0 hd).2 ?_⟩
    · obtain ⟨h₁, h₂, -, -⟩ := hseen d hd
      exact ⟨h₁, h₂⟩
    · obtain ⟨-, -, h₃, h₄⟩ := hseen d hd
      exact ⟨h₃, h₄⟩

/-- Where the filters miss nobody, the status alone decides whom the crons keep. -/
theorem kept_iff (h : FiltersComplete docs now) (hd : d ∈ docs) :
    (d ∈ notifyExpiring docs now ↔ d.decode.notified = false ∧
      d.decode.getStatus now = .limitedAccess) ∧
      (d ∈ notifyInactive docs now ↔ d.decode.notifiedInactive = false ∧
        d.decode.getStatus now = .inactive) := by
  have hnotified : ∀ {field : Option Bool}, field = some false → field.getD false = false := by
    rintro _ rfl
    rfl
  simp only [notifyExpiring, notifyInactive, List.mem_filter, decide_eq_true_eq]
  refine ⟨⟨fun ⟨hfound, hstatus⟩ => ⟨?_, hstatus⟩, fun ⟨hn, hstatus⟩ =>
    ⟨h.1 d hd hn hstatus, hstatus⟩⟩,
    ⟨fun ⟨hfound, hstatus⟩ => ⟨?_, hstatus⟩, fun ⟨hn, hstatus⟩ => ⟨h.2 d hd hn hstatus, hstatus⟩⟩⟩
  · exact hnotified (mem_findExpired.1 hfound).2.1
  · exact hnotified (mem_findInactive.1 hfound).2.1

end Proofs

section Examples

/-- Stored without the date of a sync, with its paid time at its end. -/
def neverSynced : SubscriptionDoc where
  activeUntil := some 0
  updatedAt := none
  tier := some "IVPN Tier 2"
  notified := some false
  notifiedInactive := some false
  deletionScheduledAt := none

/-- One day after the end it is cut off, and the filter does not find it. -/
theorem filters_miss : neverSynced.decode.getStatus (hours 24) = .inactive ∧
    neverSynced ∉ findInactiveUnnotified [neverSynced] (hours 24) ∧
      ¬ FiltersComplete [neverSynced] (hours 24) := by
  have hstatus : neverSynced.decode.getStatus (hours 24) = .inactive := by decide
  have hmissed : neverSynced ∉ findInactiveUnnotified [neverSynced] (hours 24) := by decide
  exact ⟨hstatus, hmissed, fun h => hmissed (h.2 neverSynced (by simp) rfl hstatus)⟩

/-- Thirty days on, the paid time is over for five days, and the account was synced an hour ago. -/
def limitedDoc : SubscriptionDoc :=
  { neverSynced with activeUntil := some (25 * 86400000), updatedAt := some (719 * 3600000) }

/-- The paid time is over for twenty days, as is the last sync. -/
def cutOffDoc : SubscriptionDoc :=
  { neverSynced with activeUntil := some (10 * 86400000), updatedAt := some (10 * 86400000) }

/-- Cut off for its plan alone. -/
def standardDoc : SubscriptionDoc :=
  { limitedDoc with activeUntil := some (40 * 86400000), tier := some "IVPN Standard" }

/-- The filters find the accounts of both kinds. -/
theorem filters_complete_thirty : FiltersComplete [limitedDoc, cutOffDoc, standardDoc] (days 30) ∧
    findExpiredUnnotified [limitedDoc, cutOffDoc, standardDoc] (days 30) = [limitedDoc, cutOffDoc] ∧
    notifyExpiring [limitedDoc, cutOffDoc, standardDoc] (days 30) = [limitedDoc] ∧
    notifyInactive [limitedDoc, cutOffDoc, standardDoc] (days 30) = [cutOffDoc, standardDoc] := by
  have hseen : ∀ d ∈ [limitedDoc, cutOffDoc, standardDoc], d.Seen (days 30) := by decide
  exact ⟨(filters_complete_iff _ (by decide)).2 hseen, by decide, by decide, by decide⟩

end Examples

end ModDNS.Subscriptions
