import Mathlib.Data.List.DropRight

/-!
# The failover of the Redis client

`healthCheck` pings the primary at every tick. It counts the failures in a row, and moves `active`
to the fallback when there are enough of them, and back to the primary at the next success.

* `Tracks`: what counter and pointer say about the pings so far.
* `failover`: the client that is active is decided by the failures since the last success, and an
  outage moves it once each way at most.
-/

namespace ModDNS.Libs.Cache

def healthCheckThreshold : ℕ := 3

inductive Ping where
  | ok
  | failed
  deriving DecidableEq

inductive RedisClient where
  | primary
  | fallback
  deriving DecidableEq

/-- A `DualClient` with both clients, and the counter of its `healthCheck`. A ping takes seconds, so
the counter stays far from the bound of its type. -/
structure DualClient where
  active : RedisClient := .primary
  failures : ℕ := 0
  deriving DecidableEq

/-- What `healthCheck` does at a tick. -/
def DualClient.check (dc : DualClient) : Ping → DualClient
  | .failed =>
    let dc := { dc with failures := dc.failures + 1 }
    if healthCheckThreshold ≤ dc.failures ∧ dc.active ≠ .fallback then
      { dc with active := .fallback } else dc
  | .ok =>
    let dc :=
      if healthCheckThreshold ≤ dc.failures ∧ dc.active ≠ .primary then
        { dc with active := .primary } else dc
    { dc with failures := 0 }

/-- `healthCheck`, of a new client. -/
def healthCheck (pings : List Ping) : DualClient := pings.foldl DualClient.check {}

/-- How often `active` is moved to a client. -/
def switchesTo (target : RedisClient) (dc : DualClient) : List Ping → ℕ
  | [] => 0
  | p :: ps =>
    (if dc.active ≠ target ∧ (dc.check p).active = target then 1 else 0) + switchesTo target
      (dc.check p) ps

/-- The failures since the last success. -/
def outage (pings : List Ping) : List Ping := pings.rtakeWhile (· = .failed)

section Tracking

variable {pings before : List Ping} {p : Ping} {dc : DualClient}

theorem outage_failed : outage (pings ++ [.failed]) = outage pings ++ [.failed] := by simp [outage]

theorem outage_ok : outage (pings ++ [.ok]) = [] := by simp [outage]

theorem healthCheck_concat : healthCheck (pings ++ [p]) = (healthCheck pings).check p := by
  unfold healthCheck
  rw [List.foldl_append, List.foldl_cons, List.foldl_nil]

/-- There are enough failures at the end exactly if there have been enough in a row, and no success
after them. -/
theorem outage_iff {n : ℕ} : n ≤ (outage pings).length ↔
    ∃ before run after, pings = before ++ (run ++ after) ∧ n ≤ run.length ∧
      (∀ p ∈ run, p = .failed) ∧ ∀ p ∈ after, p ≠ .ok := by
  constructor
  · intro hlen
    refine ⟨pings.rdropWhile (· = .failed), outage pings, [], ?_, hlen, fun p hp => ?_,
      List.forall_mem_nil _⟩
    · rw [List.append_nil]
      exact (List.rdropWhile_append_rtakeWhile ..).symm
    · have hfailed := List.mem_rtakeWhile_imp hp
      simpa using hfailed
  · rintro ⟨before, run, after, rfl, hlen, hrun, hafter⟩
    -- the failures of the run, and all that follows, are at the end
    have hall : ∀ p ∈ run ++ after, p = .failed := by
      intro p hp
      rcases List.mem_append.1 hp with hp | hp
      · exact hrun p hp
      · have hne := hafter p hp
        cases p with
        | ok => exact absurd rfl hne
        | failed => rfl
    have hsuffix : run ++ after <:+ outage (before ++ (run ++ after)) := by
      unfold outage List.rtakeWhile
      rw [List.reverse_append, List.takeWhile_append_of_pos]
      · rw [List.reverse_append, List.reverse_reverse]
        exact List.suffix_append ..
      · intro p hp
        simpa using hall p (List.mem_reverse.1 hp)
    have hle := hsuffix.length_le
    rw [List.length_append] at hle
    omega

/-- A failed ping: one more failure, and the fallback is active from the threshold on. -/
theorem check_failed : dc.check .failed =
    ⟨if healthCheckThreshold ≤ dc.failures + 1 then .fallback else dc.active, dc.failures + 1⟩ := by
  obtain ⟨active, failures⟩ := dc
  unfold DualClient.check
  by_cases hmany : healthCheckThreshold ≤ failures + 1
  · cases active <;> simp [hmany]
  · simp [hmany]

/-- A ping that succeeds: the primary is active again, if its failures had been enough. -/
theorem check_ok :
    dc.check .ok = ⟨if healthCheckThreshold ≤ dc.failures then .primary else dc.active, 0⟩ := by
  obtain ⟨active, failures⟩ := dc
  unfold DualClient.check
  by_cases hmany : healthCheckThreshold ≤ failures
  · cases active <;> simp [hmany]
  · simp [hmany]

/-- **What the checks keep**: the counter is the number of failures in a row, and the fallback is
active if they are enough. -/
structure Tracks (pings : List Ping) (dc : DualClient) : Prop where
  failures : dc.failures = (outage pings).length
  active : dc.active = if healthCheckThreshold ≤ (outage pings).length then .fallback else .primary

theorem tracks_check (h : Tracks pings dc) (p : Ping) : Tracks (pings ++ [p]) (dc.check p) := by
  cases p with
  | failed =>
    have hlen : (outage (pings ++ [.failed])).length = (outage pings).length + 1 := by
      simp [outage_failed]
    rw [check_failed, h.failures, h.active]
    refine ⟨hlen.symm, ?_⟩
    rw [hlen]
    -- with one failure less the fallback may have been active already
    by_cases hmany : healthCheckThreshold ≤ (outage pings).length + 1
    · simp [hmany]
    · have hfew : ¬ healthCheckThreshold ≤ (outage pings).length := by omega
      simp [hmany, hfew]
  | ok =>
    have hnil : (outage (pings ++ [.ok])).length = 0 := by rw [outage_ok, List.length_nil]
    rw [check_ok, h.failures, h.active]
    refine ⟨hnil.symm, ?_⟩
    rw [hnil]
    have hzero : ¬ healthCheckThreshold ≤ 0 := by decide
    by_cases hmany : healthCheckThreshold ≤ (outage pings).length <;> simp [hmany, hzero]

/-- They are kept from the start. -/
theorem tracks (pings : List Ping) : Tracks pings (healthCheck pings) := by
  induction pings using List.reverseRecOn with
  | nil => exact ⟨rfl, rfl⟩
  | append_singleton pings p ih =>
    rw [healthCheck_concat]
    exact tracks_check ih p

theorem active_iff :
    (healthCheck pings).active = .fallback ↔ healthCheckThreshold ≤ (outage pings).length := by
  rw [(tracks pings).active]
  split
  · exact iff_of_true rfl ‹_›
  · exact iff_of_false nofun ‹_›

theorem active_ok : (healthCheck (pings ++ [.ok])).active = .primary := by
  rw [(tracks _).active, outage_ok]
  rfl

/-- The failure at which the fallback becomes active is the one that reaches the threshold. -/
theorem switch_failed (hbefore : (healthCheck pings).active = .primary)
    (hafter : (healthCheck (pings ++ [p])).active = .fallback) :
    p = .failed ∧ (outage (pings ++ [p])).length = healthCheckThreshold := by
  have hfew : ¬ healthCheckThreshold ≤ (outage pings).length := by
    rw [← active_iff, hbefore]
    nofun
  have hmany := active_iff.1 hafter
  cases p with
  | ok =>
    rw [active_ok] at hafter
    cases hafter
  | failed =>
    refine ⟨rfl, ?_⟩
    rw [outage_failed, List.length_append, List.length_singleton] at hmany ⊢
    omega

end Tracking

section Switches

variable {ps qs : List Ping} {dc : DualClient} {target : RedisClient}

theorem switchesTo_append : switchesTo target dc (ps ++ qs) =
    switchesTo target dc ps + switchesTo target (ps.foldl DualClient.check dc) qs := by
  induction ps generalizing dc with
  | nil => simp [switchesTo]
  | cons p ps ih =>
    rw [List.cons_append, switchesTo, switchesTo, ih, List.foldl_cons]
    omega

/-- While the pings fail, nothing moves to the primary, and once to the fallback at most. -/
theorem switches_failing (dc : DualClient) (h : ∀ p ∈ ps, p = .failed) :
    switchesTo .primary dc ps = 0 ∧
    switchesTo .fallback dc ps ≤ if dc.active = .fallback then 0 else 1 := by
  induction ps generalizing dc with
  | nil =>
    refine ⟨rfl, ?_⟩
    split <;> simp [switchesTo]
  | cons p ps ih =>
    obtain ⟨rfl, hps⟩ := List.forall_mem_cons.1 h
    obtain ⟨hprimary, hfallback⟩ := ih (dc.check .failed) hps
    -- the pointer stays where it is, or it moves to the fallback
    have hcheck : (dc.check .failed).active = dc.active ∨
        (dc.check .failed).active = .fallback := by
      rw [check_failed]
      split
      · exact .inr rfl
      · exact .inl rfl
    unfold switchesTo
    rw [hprimary]
    obtain ⟨active, failures⟩ := dc
    rcases hcheck with hsame | hmoved
    · rw [hsame] at hfallback ⊢
      cases active <;> simp_all
    · rw [hmoved] at hfallback ⊢
      cases active <;> simp_all

/-- **An outage** and the success that ends it move the pointer once each way at most. -/
theorem switches_outage (dc : DualClient) (h : ∀ p ∈ ps, p = .failed) :
    switchesTo .fallback dc (ps ++ [.ok]) ≤ 1 ∧
    switchesTo .primary dc (ps ++ [.ok]) ≤ 1 := by
  obtain ⟨hprimary, hfallback⟩ := switches_failing dc h
  rw [switchesTo_append, switchesTo_append, hprimary]
  generalize ps.foldl DualClient.check dc = dc'
  have hend : switchesTo .fallback dc' [.ok] = 0 := by
    unfold switchesTo
    rw [check_ok, switchesTo, Nat.add_zero, if_neg]
    rintro ⟨hne, heq⟩
    split at heq
    · cases heq
    · exact hne heq
  have hback : switchesTo .primary dc' [.ok] ≤ 1 := by
    unfold switchesTo
    rw [switchesTo]
    split <;> omega
  rw [hend]
  constructor
  · split at hfallback <;> omega
  · omega

end Switches

/-- **The failover.** After every sequence of pings, the fallback is active exactly if
`healthCheckThreshold` of them or more have failed in a row, with no success after that. So a
success makes the primary active, it takes that many failures to make the fallback active, and an
outage moves the pointer once each way at most. -/
theorem failover (pings : List Ping) :
    ((healthCheck pings).active = .fallback ↔ ∃ before run after, pings = before ++ (run ++ after) ∧
      healthCheckThreshold ≤ run.length ∧ (∀ p ∈ run, p = .failed) ∧ ∀ p ∈ after, p ≠ .ok) ∧
      (healthCheck (pings ++ [.ok])).active = .primary ∧
      (∀ p, (healthCheck pings).active = .primary →
        (healthCheck (pings ++ [p])).active = .fallback →
        p = .failed ∧ (outage (pings ++ [p])).length = healthCheckThreshold) ∧
      ∀ ps, (∀ p ∈ ps, p = .failed) → switchesTo .fallback (healthCheck pings) (ps ++ [.ok]) ≤ 1 ∧
        switchesTo .primary (healthCheck pings) (ps ++ [.ok]) ≤ 1 :=
  ⟨active_iff.trans outage_iff, active_ok, fun _ hbefore hafter => switch_failed hbefore hafter,
    fun _ hps => switches_outage (healthCheck pings) hps⟩

/-- Three failures, and a success. -/
example :
    ([1, 2, 3, 4].map fun n => (healthCheck ([.failed, .failed, .failed, .ok].take n)).active) =
    [.primary, .primary, .fallback, .primary] := by decide

end ModDNS.Libs.Cache
