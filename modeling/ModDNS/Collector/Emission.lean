import Mathlib.Algebra.Ring.Int.Defs
import ModDNS.Collector.Conservation
import ModDNS.Identity.ClientID
import ModDNS.Proxy.Request

/-!
# What the proxy counts of a query

A query is counted when it has been handled. Its profile comes from the path of a DoH request or
from a server name, so that a query over plain DNS has none, and is dropped.

* `consistent_sent`: a query has one encrypted transport, and a blocked one has one reason.
* `balanced_run`: so in every document that a collector emits the transports add up to the total,
  and the reasons to the blocked queries.
-/

namespace ModDNS.Collector

open Data Go Proxy Identity

/-- The protocols of the vendor proxy. -/
inductive Proto where
  | https
  | tls
  | quic
  | udp
  | tcp
  | dnsCrypt
  deriving DecidableEq

/-- What the profile of a request is read from: the decoded path of the HTTP request, if there is
one, and the server name that the client has sent. -/
structure ClientContext where
  proto : Proto
  path : Option String
  clientServerName : Except ClientIDError String

section Identification

variable (env : ClientIDEnv) (names : List String)

/-- The first of the server names that gives a profile. -/
def clientIDFromServerNames (cliSrvName : String) : Except ClientIDError (String × String) :=
  let found (hostSrvName : String) : Option (String × String) :=
    match clientIDFromClientServerName env hostSrvName cliSrvName false with
    | .ok r => if r.1 ≠ "" then some r else none
    | .error _ => none
  let failed (hostSrvName : String) : Option ClientIDError :=
    match clientIDFromClientServerName env hostSrvName cliSrvName false with
    | .ok _ => none
    | .error e => some e
  match names.findSome? found with
  | some r => .ok r
  | none =>
    if cliSrvName ∈ names then .ok ("", "")
    else
      match (names.filterMap failed).getLast? with
      | some lastErr => .error lastErr
      | none => .ok ("", "")

/-- The second half of `clientIDFromDNSContext`. -/
def clientIDFromName (pctx : ClientContext) : Except ClientIDError (String × String) :=
  if names = [] then .ok ("", "")
  else
    match pctx.clientServerName with
    | .error e => .error e
    | .ok cliSrvName => clientIDFromServerNames env names cliSrvName

def clientIDFromDNSContext (pctx : ClientContext) : Except ClientIDError (String × String) :=
  match pctx.proto with
  | .https =>
    match clientIDFromDNSContextHTTPS env pctx.path with
    | .error e => .error e
    | .ok r => if r.1 ≠ "" then .ok r else clientIDFromName env names pctx
  | .tls => clientIDFromName env names pctx
  | .quic => clientIDFromName env names pctx
  | _ => .ok ("", "")

end Identification

section Classes

def customRules : String := "custom_rules"

def rebinding : String := "rebinding_protection"

def blocklists : String := "blocklists"

def blocklistsSubdomains : String := "blocklists_subdomains_rule"

def blocklistPrefix : String := "blocklist: "

def services : String := "services"

def servicePrefix : String := "service: "

def defaultRule : String := "default_rule"

/-- The rank of a reason; 0 is that of none. -/
def classRank (r : String) : ℕ :=
  if r = customRules then 5
  else if r = rebinding then 4
  else if r = blocklists ∨ r = blocklistsSubdomains ∨ hasPrefix r blocklistPrefix = true then 3
  else if r = services ∨ hasPrefix r servicePrefix = true then 2
  else if r = defaultRule then 1
  else 0

def classifyReasons (reasons : List String) : ReasonClass :=
  match reasons.foldl (fun best r => if best < classRank r then classRank r else best) 0 with
  | 5 => .customRule
  | 4 => .rebinding
  | 3 => .blocklist
  | 2 => .service
  | 1 => .defaultRule
  | _ => .other

/-- The encrypted transports only. -/
def statisticsProtocol : Proto → Option StatisticsProtocol
  | .https => some .doH
  | .tls => some .doT
  | .quic => some .doQ
  | _ => none

def statisticsConsented (settings : Hash) : Bool :=
  let v := mapGet settings "enabled"
  if v = "" then false else (parseBool v).getD false

end Classes

/-- What `EmitStatistics` reads of the two contexts. `authenticatedData` is that of the response, if
there is one. -/
structure HandledQuery where
  profileId : String
  deviceId : String
  statisticsSettings : Hash
  filterResult : FilterResult
  proto : Proto
  authenticatedData : Option Bool

/-- The event of `EmitStatistics`. -/
def emitStatistics (q : HandledQuery) : EventStatistics where
  queries :=
    { total := 1
      blocked := if q.filterResult.status = .blocked then 1 else 0
      dnssec := if q.authenticatedData = some true then 1 else 0 }
  consented :=
    if statisticsConsented q.statisticsSettings then
      some
        { profileId := q.profileId
          deviceId := q.deviceId
          retention := mapGet q.statisticsSettings "retention"
          reasonClass :=
            if q.filterResult.status = .blocked then
              some (classifyReasons q.filterResult.reasons) else none
          protocol := statisticsProtocol q.proto }
    else none

/-- The event is of a query that `prepareRequest` has let in: its profile has been read from its
request. -/
def Sent (event : EventStatistics) : Prop :=
  ∃ (env : ClientIDEnv) (names : List String) (pctx : ClientContext) (q : HandledQuery),
    clientIDFromDNSContext env names pctx = .ok (q.profileId, q.deviceId) ∧ q.profileId ≠ "" ∧
      q.proto = pctx.proto ∧
      event = emitStatistics q

section Events

def reasonClasses : List ReasonClass :=
  [.blocklist, .service, .customRule, .rebinding, .defaultRule, .other]

def protocols : List StatisticsProtocol := [.doH, .doT, .doQ]

/-- The event counts as much for the reasons as it counts blocked queries, and as much for the
transports as queries. -/
structure Consistent (q : Queries) (cs : ConsentedStatistics) : Prop where
  nonneg : ∀ k, 0 ≤ contribution q cs k
  reasons : q.blocked = (reasonClasses.map fun r => contribution q cs (.reason r)).sum
  protocols : q.total = (protocols.map fun p => contribution q cs (.proto p)).sum

/-- A query with a profile is over an encrypted transport. -/
theorem identified_encrypted {env : ClientIDEnv} {names : List String} {pctx : ClientContext}
    {profileId deviceId : String} (h : clientIDFromDNSContext env names pctx = .ok
      (profileId, deviceId)) (hid : profileId ≠ "") :
    ∃ p, statisticsProtocol pctx.proto = some p := by
  unfold clientIDFromDNSContext at h
  cases hproto : pctx.proto with
  | https => exact ⟨_, rfl⟩
  | tls => exact ⟨_, rfl⟩
  | quic => exact ⟨_, rfl⟩
  | udp =>
    rw [hproto] at h
    cases h
    exact absurd rfl hid
  | tcp =>
    rw [hproto] at h
    cases h
    exact absurd rfl hid
  | dnsCrypt =>
    rw [hproto] at h
    cases h
    exact absurd rfl hid

/-- **A query that is let in** has one transport, and one reason if it is blocked. -/
theorem consistent_sent {event : EventStatistics} {cs : ConsentedStatistics} (h : Sent event)
    (hcs : event.consented = some cs) : Consistent event.queries cs := by
  obtain ⟨env, names, pctx, q, hid, hne, hproto, rfl⟩ := h
  obtain ⟨p, hp⟩ := identified_encrypted hid hne
  rw [← hproto] at hp
  unfold emitStatistics at hcs ⊢
  dsimp only at hcs ⊢
  split at hcs
  · cases hcs
    rw [hp]
    refine ⟨fun k => ?_, ?_, ?_⟩
    · cases k with
      | total => exact Int.zero_le_ofNat 1
      | blocked => dsimp only [contribution]; split <;> omega
      | dnssec => dsimp only [contribution]; split <;> omega
      | reason r => dsimp only [contribution]; split <;> omega
      | proto p' => dsimp only [contribution]; split <;> omega
    · dsimp only [contribution]
      by_cases hblocked : q.filterResult.status = .blocked
      · rw [if_pos hblocked, if_pos hblocked]
        cases classifyReasons q.filterResult.reasons <;> rfl
      · rw [if_neg hblocked, if_neg hblocked]
        rfl
    · cases p <;> rfl
  · cases hcs

end Events

section Documents

/-- The counters of the document add up. -/
structure Balanced (d : Statistics) : Prop where
  nonneg : ∀ k, 0 ≤ d.get k
  reasons : d.blocked = (reasonClasses.map fun r => d.get (.reason r)).sum
  protocols : d.total = (protocols.map fun p => d.get (.proto p)).sum

/-- Only the counters of a document matter. -/
theorem Balanced.congr {d d' : Statistics} (h : Balanced d) (hget : ∀ k, d'.get k = d.get k) :
    Balanced d' where
  nonneg k := hget k ▸ h.nonneg k
  reasons := by
    have hblocked : d'.blocked = d.blocked := hget .blocked
    simp only [hget, hblocked]
    exact h.reasons
  protocols := by
    have htotal : d'.total = d.total := hget .total
    simp only [hget, htotal]
    exact h.protocols

theorem Balanced.count {d : Statistics} {q : Queries} {cs : ConsentedStatistics} (h : Balanced d)
    (hc : Consistent q cs) :
    Balanced (d.count q cs) where
  nonneg k := by
    have hd := h.nonneg k
    have hq := hc.nonneg k
    rw [get_count]
    omega
  reasons := by
    have hblocked : (d.count q cs).blocked = d.blocked + q.blocked :=
      get_count (k := .blocked) d q cs
    simp only [get_count, List.sum_map_add]
    rw [hblocked, h.reasons, hc.reasons]
  protocols := by
    have htotal : (d.count q cs).total = d.total + q.total := get_count (k := .total) d q cs
    simp only [get_count, List.sum_map_add]
    rw [htotal, h.protocols, hc.protocols]

theorem get_forDay (d : Statistics) (k : Counter) : d.forDay.get k = d.get k := by
  cases k with
  | reason r => cases r <;> rfl
  | proto p => cases p <;> rfl
  | _ => rfl

variable {a : ConsentedAccumulator} {q : Queries} {cs : ConsentedStatistics} {now : ℤ}

theorem balanced_add (h : ∀ d ∈ values a.entries, Balanced d) (hc : Consistent q cs) :
    ∀ d ∈ values (a.add q cs now).entries, Balanced d := by
  obtain ⟨hentries, -⟩ := ConsentedAccumulator.place_entries a cs now
  -- the document that the event is counted in, or a new one
  have hdocument : Balanced ((a.place cs now).2.document (a.place cs now).1 cs.retention) := by
    unfold ConsentedAccumulator.document
    rw [hentries]
    cases hlook : a.entries.lookup (a.place cs now).1 with
    | none =>
      rw [Option.getD_none]
      refine ⟨fun k => ?_, rfl, rfl⟩
      cases k with
      | reason r => cases r <;> exact Int.le_refl 0
      | proto p => cases p <;> exact Int.le_refl 0
      | _ => exact Int.le_refl 0
    | some d =>
      rw [Option.getD_some]
      exact h d (List.mem_map.2 ⟨_, mem_entries_of_lookup hlook, rfl⟩)
  intro d hd
  obtain ⟨e, he, rfl⟩ := List.mem_map.1 hd
  unfold ConsentedAccumulator.add at he
  dsimp only at he
  rcases mem_insert_entries he with rfl | hold
  · refine Balanced.count (hdocument.congr fun k => ?_) hc
    cases k with
    | reason r => cases r <;> rfl
    | proto p => cases p <;> rfl
    | _ => rfl
  · rw [hentries] at hold
    exact h _ (List.mem_map.2 ⟨_, hold, rfl⟩)

/-- What is taken, and what stays, has been there. -/
theorem mem_taken (order : RangeOrder) {wantEntry wantDevices : ℤ → Bool} {d : Statistics}
    (h : d ∈ (a.take order wantEntry wantDevices).1 ∨
      d ∈ values (a.take order wantEntry wantDevices).2.entries) :
    d ∈ values a.entries := by
  unfold ConsentedAccumulator.take at h
  rcases h with h | h
  · obtain ⟨e, he, rfl⟩ := List.mem_map.1 ((order.perm _).subset h)
    exact List.mem_map.2 ⟨e, (mem_keep.1 he).1, rfl⟩
  · obtain ⟨e, he, rfl⟩ := List.mem_map.1 h
    exact List.mem_map.2 ⟨e, (mem_keep.1 he).1, rfl⟩

end Documents

section Runs

variable {config : Config} {s s' : System} {event : EventStatistics} {now : ℤ} {orders : Orders}

/-- The counters of every document and of every open entry add up. -/
structure System.AllBalanced (s : System) : Prop where
  quarter : ∀ d ∈ values s.collector.quarter.entries, Balanced d
  hour : ∀ d ∈ values s.collector.hour.entries, Balanced d
  left : ∀ d ∈ s.emitted ++ s.dropped, Balanced d

/-- All queries that have been counted were let in. -/
def System.AllSent (s : System) : Prop := ∀ e ∈ s.seen, Sent e.1

/-- **Invariant.** -/
def System.Sound (s : System) : Prop := s.AllSent → s.AllBalanced

theorem sound_record (h : s.Sound) : (s.record event now).Sound := by
  intro hseen
  have hsent : Sent event := hseen (event, now) (List.mem_append_right _ (List.mem_singleton.2 rfl))
  obtain ⟨hquarter, hhour, hleft⟩ := h fun e he => hseen e (List.mem_append_left _ he)
  unfold System.record StatisticsCollector.record
  cases hcs : event.consented with
  | none => exact ⟨hquarter, hhour, hleft⟩
  | some cs =>
    have hc : Consistent event.queries cs := consistent_sent hsent hcs
    exact ⟨balanced_add hquarter hc, balanced_add hhour hc, hleft⟩

theorem sound_flush (h : s.Sound) : s.flush.Sound := fun hseen =>
    ⟨(h hseen).quarter, (h hseen).hour, (h hseen).left⟩

theorem sound_flushConsented {all : Bool} {inTime : Option ℕ} (h : s.Sound) :
    (s.flushConsented all orders now inTime).Sound := by
  intro hseen
  obtain ⟨hquarter, hhour, hleft⟩ := h hseen
  obtain ⟨wantQuarter, wantQuarterDevices, wantHour, wantHourDevices, htake⟩ :=
    takeConsented_cases s.collector all orders now
  unfold System.flushConsented
  rw [htake]
  refine ⟨fun d hd => hquarter d (mem_taken orders.quarter (.inr hd)),
    fun d hd => hhour d (mem_taken orders.hour (.inr hd)), fun d hd => ?_⟩
  -- a document is old, or of the batch: an entry of a tier, or an entry of the hours for its day
  have hcases : d ∈ s.emitted ++ s.dropped ∨
    d ∈ (s.collector.quarter.take orders.quarter wantQuarter wantQuarterDevices).1 ++
      (s.collector.hour.take orders.hour wantHour wantHourDevices).1.flatMap fun h =>
        [h, h.forDay] := by
    rw [← emitConsented_append inTime
      ((s.collector.quarter.take orders.quarter wantQuarter wantQuarterDevices).1 ++
      (s.collector.hour.take orders.hour wantHour wantHourDevices).1.flatMap fun h =>
      [h, h.forDay])]
    simp only [List.mem_append] at hd ⊢
    tauto
  rcases hcases with hold | hbatch
  · exact hleft d hold
  · rcases List.mem_append.1 hbatch with hd | hd
    · exact hquarter d (mem_taken orders.quarter (.inl hd))
    · obtain ⟨hd', hmem, hd⟩ := List.mem_flatMap.1 hd
      have hbalanced : Balanced hd' := hhour hd' (mem_taken orders.hour (.inl hmem))
      rcases List.mem_cons.1 hd with rfl | hd
      · exact hbalanced
      · rw [List.mem_singleton.1 hd]
        exact hbalanced.congr fun k => get_forDay hd' k

theorem sound_add (h : s.Sound) : (s.add config event now orders).Sound := by
  rcases System.add_cases s config event now orders with hadd | hadd
  · rw [hadd]
    exact sound_record h
  · rw [hadd]
    exact sound_flushConsented (sound_record h)

theorem sound_drain {queue : List (EventStatistics × ℤ)} (h : s.Sound)
    (hdrain : s.drain queue = some s') : s'.Sound :=
  System.drain_induct (fun _ _ _ _ h => sound_record h) h hdrain

/-- **Step lemma.** -/
theorem sound_step {m : Move} (h : s.Sound) (hstep : s.step config m = some s') : s'.Sound := by
  cases m with
  | event event now orders =>
    obtain ⟨-, -, hs'⟩ := System.step_event hstep
    rcases hs' with rfl | rfl
    · exact sound_add h
    · exact sound_flush (sound_add h)
  | tick now orders =>
    obtain ⟨-, -, s₁, hs₁, rfl⟩ := System.step_tick hstep
    have hclock : System.Sound { s with clock := now } := fun hseen =>
      ⟨(h hseen).quarter, (h hseen).hour, (h hseen).left⟩
    rcases hs₁ with rfl | rfl
    · exact sound_flushConsented hclock
    · exact sound_flushConsented (sound_flush hclock)
  | stop queue orders inTime =>
    obtain ⟨s₁, hdrain, rfl⟩ := System.step_stop hstep
    have hflushed : (s₁.flush.flushConsented true orders s₁.clock (some inTime)).Sound :=
      sound_flushConsented (sound_flush (sound_drain h hdrain))
    exact fun hseen => ⟨(hflushed hseen).quarter, (hflushed hseen).hour, (hflushed hseen).left⟩

theorem sound_run (h : Reaches config s) : s.Sound := by
  induction h with
  | initial clock =>
    intro _
    exact ⟨fun d hd => absurd hd List.not_mem_nil, fun d hd => absurd hd List.not_mem_nil,
      fun d hd => absurd hd List.not_mem_nil⟩
  | step m _ hstep ih => exact sound_step ih hstep

/-- **Every document adds up**, if all queries that have been counted were let in. -/
theorem balanced_run (h : Reaches config s) (hsent : s.AllSent) :
    ∀ d ∈ s.emitted, Balanced d := fun d hd =>
  (sound_run h hsent).left d (List.mem_append_left _ hd)

end Runs

end ModDNS.Collector
