import Mathlib.Algebra.Order.BigOperators.Group.List
import ModDNS.Collector.Emission
import ModDNS.Statistics.Facets

/-!
# The answer adds up

The series, the devices, the reasons and the protocols of an answer are counted apart, and the
devices are cut off twice: in the database, and in the answer, where one entry takes what is left of
the totals.

* `foldl_keepDevice`: the loop keeps the first devices, and subtracts them.
* `devices_fold`: the entries add up to the totals, also when the database has cut the devices off.
* `answer_addsUp`: the whole answer, for all documents that collectors have emitted.
-/

namespace ModDNS.Statistics

open Data Mongo Pipeline Collector

section Order

variable {docs : List Statistics} {a b : StatisticsDevice} {devices : List StatisticsDevice}

/-- By total, the largest first, then by name. -/
def ComesBefore (a b : StatisticsDevice) : Prop :=
  b.total < a.total ∨ a.total = b.total ∧ a.deviceId < b.deviceId

theorem order_lt : a.order < b.order ↔ ComesBefore a b := by
  unfold StatisticsDevice.order deviceOrder ComesBefore
  rw [Prod.Lex.toLex_lt_toLex, neg_lt_neg_iff, neg_inj]

theorem deviceId_of_order (h : a.order = b.order) : a.deviceId = b.deviceId := by
  unfold StatisticsDevice.order deviceOrder at h
  exact (Prod.mk.inj (toLex_inj.1 h)).2

theorem mem_allDevices :
    a ∈ allDevices docs ↔ a = deviceOf docs a.deviceId ∧ ∃ d ∈ docs, d.deviceId = a.deviceId := by
  unfold allDevices
  rw [List.mem_map]
  constructor
  · rintro ⟨id, hid, rfl⟩
    exact ⟨rfl, List.mem_map.1 (List.mem_dedup.1 hid)⟩
  · rintro ⟨ha, hid⟩
    exact ⟨a.deviceId, List.mem_dedup.2 (List.mem_map.2 hid), ha.symm⟩

/-- Devices that are named alike are the same. -/
theorem device_inj (ha : a ∈ allDevices docs) (hb : b ∈ allDevices docs)
    (h : a.deviceId = b.deviceId) : a = b := by
  rw [(mem_allDevices.1 ha).1, (mem_allDevices.1 hb).1, h]

theorem ids_allDevices :
    (allDevices docs).map StatisticsDevice.deviceId = (docs.map fun d => d.deviceId).dedup := by
  unfold allDevices
  rw [List.map_map]
  exact List.map_id _

theorem ids_nodup : ((allDevices docs).map StatisticsDevice.deviceId).Nodup :=
  ids_allDevices ▸ List.nodup_dedup _

/-- Without a name twice, the order is strict. -/
theorem sorted_strict (hsorted : devices.Pairwise fun a b => a.order ≤ b.order)
    (hnd : (devices.map StatisticsDevice.deviceId).Nodup) :
    devices.Pairwise ComesBefore := by
  refine (hsorted.and (List.pairwise_map.1 hnd)).imp fun h => ?_
  exact order_lt.1 (lt_of_le_of_ne h.1 fun heq => h.2 (deviceId_of_order heq))

end Order

section Sums

variable {docs : List Statistics} {devices : List StatisticsDevice} {k : Counter}

theorem sumOf_nonneg (h : ∀ d ∈ docs, Balanced d) (k : Counter) : 0 ≤ sumOf docs k := by
  refine List.sum_nonneg fun x hx => ?_
  obtain ⟨d, hd, rfl⟩ := List.mem_map.1 hx
  exact (h d hd).nonneg k

theorem sumOf_split (P : Statistics → Bool) :
    sumOf docs k = sumOf (docs.filter P) k + sumOf (docs.filter fun d => !P d) k := by
  unfold sumOf
  rw [← List.sum_append, ← List.map_append]
  exact ((List.filter_append_perm P docs).symm.map _).sum_eq

/-- **Some of the devices** count the documents with their names. -/
theorem sum_devices {f : StatisticsDevice → ℤ}
    (hf : ∀ id, f (deviceOf docs id) = sumOf (docsOf docs id) k)
    (hall : ∀ d ∈ devices, d ∈ allDevices docs)
    (hnd : (devices.map StatisticsDevice.deviceId).Nodup) :
    (devices.map f).sum = sumOf (docs.filter fun d => d.deviceId ∈
      devices.map StatisticsDevice.deviceId) k := by
  have hkeys : ∀ d ∈ docs.filter (fun d => d.deviceId ∈ devices.map StatisticsDevice.deviceId),
      d.deviceId ∈ devices.map StatisticsDevice.deviceId := fun d hd =>
        of_decide_eq_true (List.mem_filter.1 hd).2
  unfold sumOf
  rw [← sum_fibers (fun d : Statistics => d.deviceId) hnd hkeys, List.map_map]
  refine congrArg List.sum (List.map_congr_left fun d hd => ?_)
  have hself : d.deviceId ∈ devices.map StatisticsDevice.deviceId := List.mem_map_of_mem hd
  have hcount : f d = sumOf (docsOf docs d.deviceId) k :=
    (congrArg f (mem_allDevices.1 (hall d hd)).1).trans (hf d.deviceId)
  rw [hcount, Function.comp_apply, List.filter_filter]
  unfold sumOf docsOf
  refine congrArg (fun l : List Statistics => (l.map fun d => d.get k).sum)
    (List.filter_congr fun d' _ => ?_)
  by_cases heq : d'.deviceId = d.deviceId
  · rw [heq, decide_eq_true hself, Bool.and_true]
  · rw [decide_eq_false heq, Bool.false_and]

end Sums

section Folds

variable {docs : List Statistics} {devices out kept folded : List StatisticsDevice}
  {other : StatisticsDevice}

/-- The device has a name of its own. -/
def own (d : StatisticsDevice) : Bool := d.deviceId ≠ otherDeviceID

/-- What the loop makes of the entry for all others. -/
def without (other : StatisticsDevice) (kept : List StatisticsDevice) : StatisticsDevice :=
  ⟨other.deviceId, other.total - (kept.map fun d => d.total).sum,
    other.blocked - (kept.map fun d => d.blocked).sum⟩

/-- **The loop** keeps the first devices, and subtracts them. -/
theorem foldl_keepDevice : out.foldl keepDevice (kept, other) =
    (kept ++ (out.filter own).take (statisticsMaxDevices - 1 - kept.length),
      without other ((out.filter own).take (statisticsMaxDevices - 1 - kept.length))) := by
  induction out generalizing kept other with
  | nil =>
    simp only [List.foldl_nil, List.filter_nil, List.take_nil, List.append_nil]
    unfold without
    simp only [List.map_nil, List.sum_nil, Int.sub_zero]
  | cons d out ih =>
    rw [List.foldl_cons]
    by_cases hown : d.deviceId ≠ otherDeviceID
    · rw [List.filter_cons_of_pos (show own d = true from decide_eq_true hown)]
      by_cases hroom : kept.length < statisticsMaxDevices - 1
      · have hkeep : keepDevice (kept, other) d =
            (kept ++ [d], ⟨other.deviceId, other.total - d.total, other.blocked - d.blocked⟩) :=
              if_pos ⟨hown, hroom⟩
        rw [hkeep, ih]
        obtain ⟨n, hn⟩ : ∃ n, statisticsMaxDevices - 1 - kept.length = n + 1 :=
          ⟨statisticsMaxDevices - 1 - kept.length - 1, by omega⟩
        have hrest : statisticsMaxDevices - 1 - (kept ++ [d]).length = n := by
          rw [List.length_append, List.length_singleton]
          omega
        rw [hrest, hn, List.take_succ_cons, List.append_assoc, List.singleton_append]
        unfold without
        simp only [List.map_cons, List.sum_cons, Int.sub_sub]
      · have hfull : statisticsMaxDevices - 1 - kept.length = 0 := by omega
        have hkeep : keepDevice (kept, other) d = (kept, other) := if_neg fun h => hroom h.2
        rw [hkeep, ih, hfull, List.take_zero, List.take_zero]
    · have hnot : ¬ own d = true := fun h => hown (of_decide_eq_true h)
      have hkeep : keepDevice (kept, other) d = (kept, other) := if_neg fun h => hown h.1
      rw [List.filter_cons_of_neg hnot, hkeep, ih]

/-- At most one device has the name of the entry for all others. -/
theorem length_own (hnd : (devices.map StatisticsDevice.deviceId).Nodup) :
    devices.length ≤ (devices.filter own).length + 1 := by
  have hcount : (devices.map StatisticsDevice.deviceId).count otherDeviceID ≤ 1 :=
    List.nodup_iff_count_le_one.1 hnd _
  have hnot : devices.countP (fun d => !own d) ≤ 1 := by
    refine le_trans (le_of_eq ?_) hcount
    rw [List.count, List.countP_map]
    refine List.countP_congr fun d _ => ?_
    unfold own
    simp
  have hsplit := List.length_eq_countP_add_countP own (l := devices)
  rw [← List.countP_eq_length_filter]
  simp only [Bool.not_eq_true, Bool.decide_eq_false] at hsplit
  omega

/-- What the entries of an answer are. -/
structure DevicesAddUp (docs : List Statistics) (devices : List StatisticsDevice) : Prop where
  total : (devices.map fun d => d.total).sum = sumOf docs .total
  blocked : (devices.map fun d => d.blocked).sum = sumOf docs .blocked
  length : devices.length ≤ statisticsMaxDevices
  nodup : (devices.map StatisticsDevice.deviceId).Nodup
  sorted : devices.Pairwise ComesBefore
  /-- An entry with a name of its own counts the documents with it. -/
  exact : ∀ d ∈ devices, d.deviceId ≠ otherDeviceID → d ∈ allDevices docs
  /-- Up to the limit, all devices are there. -/
  few : (allDevices docs).length ≤ statisticsMaxDevices → devices.Perm (allDevices docs)
  /-- Past it, the largest are. -/
  many : statisticsMaxDevices < (allDevices docs).length → devices.length = statisticsMaxDevices ∧
    otherDeviceID ∈ devices.map StatisticsDevice.deviceId ∧
      ∀ d ∈ devices, d.deviceId ≠ otherDeviceID →
      ∀ left ∈ allDevices docs, left.deviceId ≠ otherDeviceID → left ∉ devices → ComesBefore d left

/-- All devices, in order. -/
theorem addUp_few (hsort : Sorts StatisticsDevice.order (allDevices docs) devices)
    (hfew : (allDevices docs).length ≤ statisticsMaxDevices) : DevicesAddUp docs devices := by
  have hall : ∀ d ∈ devices, d ∈ allDevices docs := fun d hd => hsort.1.mem_iff.1 hd
  have hnd : (devices.map StatisticsDevice.deviceId).Nodup := (hsort.1.map _).nodup_iff.2 ids_nodup
  have hevery : docs.filter (fun d => d.deviceId ∈ devices.map StatisticsDevice.deviceId) =
      docs := by
    refine List.filter_eq_self.2 fun d hd => decide_eq_true ?_
    rw [(hsort.1.map _).mem_iff, ids_allDevices, List.mem_dedup]
    exact List.mem_map_of_mem hd
  refine ⟨?_, ?_, hsort.1.length_eq ▸ hfew, hnd, sorted_strict hsort.2 hnd, fun d hd _ => hall d hd,
    fun _ => hsort.1, fun hmany => ?_⟩
  · rw [sum_devices (k := .total) (fun _ => rfl) hall hnd, hevery]
  · rw [sum_devices (k := .blocked) (fun _ => rfl) hall hnd, hevery]
  · exact absurd hfew (Nat.not_le_of_lt hmany)

/-- The first devices, and the entry for all others. -/
theorem addUp_many {s : List StatisticsDevice}
    (hsort : Sorts StatisticsDevice.order (allDevices docs) s)
    (hmany : statisticsMaxDevices < (allDevices docs).length)
    (hkept : kept = (s.filter own).take (statisticsMaxDevices - 1))
    (hother : other = without ⟨otherDeviceID, sumOf docs .total, sumOf docs .blocked⟩ kept)
    (hfolded : Sorts StatisticsDevice.order (kept ++ [other]) folded) :
    DevicesAddUp docs folded := by
  have hsnd : (s.map StatisticsDevice.deviceId).Nodup := (hsort.1.map _).nodup_iff.2 ids_nodup
  have hsub : kept.Sublist s := hkept ▸ (List.take_sublist _ _).trans List.filter_sublist
  have hown : ∀ d ∈ kept, d.deviceId ≠ otherDeviceID := by
    intro d hd
    rw [hkept] at hd
    exact of_decide_eq_true (List.mem_filter.1 (List.mem_of_mem_take hd)).2
  have hlength : kept.length = statisticsMaxDevices - 1 := by
    have hlong := length_own hsnd
    rw [hsort.1.length_eq] at hlong
    rw [hkept, List.length_take]
    omega
  have hname : other.deviceId = otherDeviceID := hother ▸ rfl
  have hnd : (folded.map StatisticsDevice.deviceId).Nodup := by
    rw [(hfolded.1.map _).nodup_iff, List.map_append, List.map_singleton]
    refine List.nodup_append.2 ⟨hsnd.sublist (hsub.map _), List.nodup_singleton _,
      fun id hid id' hid' heq => ?_⟩
    obtain ⟨d, hd, rfl⟩ := List.mem_map.1 hid
    rw [List.mem_singleton.1 hid', hname] at heq
    exact hown d hd heq
  -- an entry with a name of its own has been kept
  have hentry : ∀ d ∈ folded, d.deviceId ≠ otherDeviceID → d ∈ kept := by
    intro d hd hne
    rcases List.mem_append.1 (hfolded.1.mem_iff.1 hd) with hd | hd
    · exact hd
    · rw [List.mem_singleton.1 hd] at hne
      exact absurd hname hne
  have hall : ∀ d ∈ kept, d ∈ allDevices docs := fun d hd => hsort.1.mem_iff.1 (hsub.subset hd)
  have hfew : folded.length = statisticsMaxDevices := by
    rw [hfolded.1.length_eq, List.length_append, hlength]
    rfl
  refine ⟨?_, ?_, le_of_eq hfew, hnd, sorted_strict hfolded.2 hnd,
    fun d hd hne => hall d (hentry d hd hne), fun hle => ?_,
    fun _ => ⟨hfew, ?_, fun d hd hne left hleft hown' hout => ?_⟩⟩
  · rw [(hfolded.1.map _).sum_eq, List.map_append, List.sum_append, List.map_singleton,
      List.sum_singleton, hother]
    dsimp only [without]
    omega
  · rw [(hfolded.1.map _).sum_eq, List.map_append, List.sum_append, List.map_singleton,
      List.sum_singleton, hother]
    dsimp only [without]
    omega
  · exact absurd hle (Nat.not_le_of_lt hmany)
  · rw [(hfolded.1.map _).mem_iff, ← hname]
    exact List.mem_map_of_mem (List.mem_append_right _ (List.mem_singleton.2 rfl))
  · -- both have a name of their own, and only one of them is among the first
    have hmem : left ∈ s.filter own :=
      List.mem_filter.2 ⟨hsort.1.mem_iff.2 hleft, decide_eq_true hown'⟩
    have hdrop : left ∈ (s.filter own).drop (statisticsMaxDevices - 1) := by
      rw [← List.take_append_drop (statisticsMaxDevices - 1) (s.filter own), ← hkept] at hmem
      refine (List.mem_append.1 hmem).resolve_left fun hin => hout ?_
      exact hfolded.1.mem_iff.2 (List.mem_append_left _ hin)
    have hstrict : (s.filter own).Pairwise ComesBefore :=
      (sorted_strict hsort.2 hsnd).sublist List.filter_sublist
    rw [← List.take_append_drop (statisticsMaxDevices - 1) (s.filter own), ← hkept] at hstrict
    exact (List.pairwise_append.1 hstrict).2.2 d (hentry d hd hne) left hdrop

/-- **The devices of an answer**: those that the database has cut off are in the entry for all
others. -/
theorem devices_fold (hdevices : Firsts StatisticsDevice.order (statisticsMaxDevices + 1)
    (allDevices docs) devices) (hfold :
    folded ∈ foldDevices devices ⟨sumOf docs .total, sumOf docs .blocked, sumOf docs .dnssec⟩) :
    DevicesAddUp docs folded := by
  obtain ⟨s, hsort, htake⟩ := hdevices
  obtain ⟨out, hout, hcases⟩ := hfold
  -- the devices come in order from the database
  have hself : Sorts StatisticsDevice.order devices devices :=
    ⟨List.Perm.refl _, hsort.2.sublist (htake ▸ List.take_sublist _ _)⟩
  have hin : ∀ d ∈ devices, d ∈ allDevices docs := fun d hd =>
    hsort.1.mem_iff.1 (List.mem_of_mem_take (htake ▸ hd))
  obtain rfl : out = devices := hout.unique hself fun a ha b hb heq =>
    device_inj (hin a ha) (hin b hb) (deviceId_of_order heq)
  have hlength : out.length = min (statisticsMaxDevices + 1) (allDevices docs).length := by
    rw [htake, List.length_take, hsort.1.length_eq]
  split at hcases
  · next hle =>
    have hfew : (allDevices docs).length ≤ statisticsMaxDevices := by omega
    have hwhole : out = s := by
      rw [htake, List.take_of_length_le]
      rw [hsort.1.length_eq]
      omega
    rw [hcases, hwhole]
    exact addUp_few hsort hfew
  · next hgt =>
    have hmany : statisticsMaxDevices < (allDevices docs).length := by omega
    rw [foldl_keepDevice] at hcases
    simp only [List.nil_append, List.length_nil, Nat.sub_zero] at hcases
    refine addUp_many hsort hmany ?_ rfl hcases
    -- enough of the devices that were read have a name of their own
    have hsnd : (s.map StatisticsDevice.deviceId).Nodup := (hsort.1.map _).nodup_iff.2 ids_nodup
    have hlong := length_own (hsnd.sublist ((List.take_sublist (statisticsMaxDevices + 1) s).map _))
    rw [← htake] at hlong
    conv_rhs =>
      rw [← List.take_append_drop (statisticsMaxDevices + 1) s, ← htake, List.filter_append]
    rw [List.take_append_of_le_length]
    omega

/-- Without the entry for all others, the entries have names of their own. -/
theorem split_other {d : StatisticsDevice} (hnd : (devices.map StatisticsDevice.deviceId).Nodup)
    (hd : d ∈ devices) (hother : d.deviceId = otherDeviceID) :
    devices.Perm (d :: devices.filter own) := by
  have hrest : devices.erase d = devices.filter own := by
    rw [List.Nodup.erase_eq_filter hnd.of_map]
    refine List.filter_congr fun d' hd' => ?_
    have hiff : d' ≠ d ↔ d'.deviceId ≠ otherDeviceID := by
      rw [← hother]
      exact not_congr ⟨congrArg _, List.inj_on_of_nodup_map hnd hd' hd⟩
    unfold own
    rw [Bool.eq_iff_iff, bne_iff_ne, decide_eq_true_eq]
    exact hiff
  rw [← hrest]
  exact List.perm_cons_erase hd

/-- **No count is negative.** -/
theorem DevicesAddUp.nonneg (h : DevicesAddUp docs devices) (hdocs : ∀ d ∈ docs, Balanced d) :
    ∀ d ∈ devices, 0 ≤ d.total ∧ 0 ≤ d.blocked := by
  intro d hd
  by_cases hother : d.deviceId = otherDeviceID
  · -- the entry for all others counts the documents of the devices that are left out
    have hperm := split_other h.nodup hd hother
    have hnd : ((devices.filter own).map StatisticsDevice.deviceId).Nodup :=
      h.nodup.sublist (List.filter_sublist.map _)
    have hall : ∀ d ∈ devices.filter own, d ∈ allDevices docs := fun d hd =>
      h.exact d (List.mem_filter.1 hd).1 (of_decide_eq_true (List.mem_filter.1 hd).2)
    have hleft : ∀ k, 0 ≤ sumOf (docs.filter fun d => !decide
      (d.deviceId ∈ (devices.filter own).map StatisticsDevice.deviceId)) k :=
      fun k => sumOf_nonneg (fun d hd => hdocs d (List.mem_filter.1 hd).1) k
    have hsplit : ∀ k, sumOf docs k = _ + _ := fun k =>
      sumOf_split fun d => decide (d.deviceId ∈ (devices.filter own).map StatisticsDevice.deviceId)
    constructor
    · have htotal := h.total
      rw [(hperm.map _).sum_eq, List.map_cons, List.sum_cons,
        sum_devices (k := .total) (fun _ => rfl) hall hnd,
        hsplit .total] at htotal
      have := hleft .total
      omega
    · have hblocked := h.blocked
      rw [(hperm.map _).sum_eq, List.map_cons, List.sum_cons,
        sum_devices (k := .blocked) (fun _ => rfl) hall hnd,
        hsplit .blocked] at hblocked
      have := hleft .blocked
      omega
  · rw [(mem_allDevices.1 (h.exact d hd hother)).1]
    have hof : ∀ k, 0 ≤ sumOf (docsOf docs d.deviceId) k :=
      sumOf_nonneg fun d hd => hdocs d (List.mem_filter.1 hd).1
    exact ⟨hof .total, hof .blocked⟩

end Folds

section Answers

variable {docs : List Statistics} {bucket start stop : ℤ} {resp : StatisticsResponse}
  {agg : StatisticsAggregate} {db : StatisticsDB} {clock : ℤ} {profileId timespan : String}
  {settings : Option ReadSettings} {missGuard : Bool}

/-- The document has been emitted by a collector, of queries that were let in. -/
def Stored (d : Statistics) : Prop :=
  ∃ (config : Config) (s : System), Reaches config s ∧ s.AllSent ∧ d ∈ s.emitted

theorem Stored.balanced {d : Statistics} (h : Stored d) : Balanced d := by
  obtain ⟨config, s, hreaches, hsent, hd⟩ := h
  exact balanced_run hreaches hsent d hd

/-- The answer is of these documents, and all of its parts add up to them. -/
structure AddsUp (docs : List Statistics) (bucket : ℤ) (resp : StatisticsResponse) : Prop where
  ascending : (resp.series.map fun p => p.ts).Pairwise (· < ·)
  grid : ∀ t, t ∈ resp.series.map (fun p => p.ts) ↔ t % bucket = 0 ∧ resp.windowFrom ≤ t ∧
    t < resp.windowTo
  points : ∀ p ∈ resp.series, p = pointOf docs bucket p.ts
  /-- No document is beside the grid. -/
  onGrid : ∀ d ∈ docs, truncate d.bucketStart bucket ∈ resp.series.map fun p => p.ts
  totals : resp.totals = ⟨sumOf docs .total, sumOf docs .blocked, sumOf docs .dnssec⟩
  seriesTotal : (resp.series.map fun p => p.total).sum = resp.totals.total
  seriesBlocked : (resp.series.map fun p => p.blocked).sum = resp.totals.blocked
  seriesDnssec : (resp.series.map fun p => p.dnssec).sum = resp.totals.dnssec
  devicesTotal : (resp.devices.map fun d => d.total).sum = resp.totals.total
  devicesBlocked : (resp.devices.map fun d => d.blocked).sum = resp.totals.blocked
  devices : DevicesAddUp docs resp.devices
  others : (resp.devices.map fun d => d.deviceId).count otherDeviceID ≤ 1
  reasons : resp.totals.blocked = resp.reasons.blocklist + resp.reasons.service +
    resp.reasons.customRule +
    resp.reasons.rebinding + resp.reasons.defaultRule + resp.reasons.other
  protocols : resp.totals.total = resp.protocols.doH + resp.protocols.doT + resp.protocols.doQ
  totalsNonneg : 0 ≤ resp.totals.total ∧ 0 ≤ resp.totals.blocked ∧ 0 ≤ resp.totals.dnssec
  pointsNonneg : ∀ p ∈ resp.series, 0 ≤ p.total ∧ 0 ≤ p.blocked ∧ 0 ≤ p.dnssec
  devicesNonneg : ∀ d ∈ resp.devices, 0 ≤ d.total ∧ 0 ≤ d.blocked
  reasonsNonneg : 0 ≤ resp.reasons.blocklist ∧ 0 ≤ resp.reasons.service ∧
    0 ≤ resp.reasons.customRule ∧
    0 ≤ resp.reasons.rebinding ∧ 0 ≤ resp.reasons.defaultRule ∧ 0 ≤ resp.reasons.other
  protocolsNonneg : 0 ≤ resp.protocols.doH ∧ 0 ≤ resp.protocols.doT ∧ 0 ≤ resp.protocols.doQ

/-- The reasons of the documents. -/
theorem sumOf_reasons (h : ∀ d ∈ docs, Balanced d) :
    sumOf docs .blocked = sumOf docs (.reason .blocklist) +
    sumOf docs (.reason .service) + sumOf docs (.reason .customRule) + sumOf docs
    (.reason .rebinding) +
    sumOf docs (.reason .defaultRule) + sumOf docs (.reason .other) := by
  unfold sumOf
  simp only [← List.sum_map_add]
  refine congrArg List.sum (List.map_congr_left fun d hd => (h d hd).reasons.trans ?_)
  simp only [reasonClasses, List.map_cons, List.map_nil, List.sum_cons, List.sum_nil]
  omega

/-- The transports of the documents. -/
theorem sumOf_protocols (h : ∀ d ∈ docs, Balanced d) :
    sumOf docs .total = sumOf docs (.proto .doH) + sumOf docs (.proto .doT) + sumOf docs
      (.proto .doQ) := by
  unfold sumOf
  simp only [← List.sum_map_add]
  refine congrArg List.sum (List.map_congr_left fun d hd => (h d hd).protocols.trans ?_)
  simp only [protocols, List.map_cons, List.map_nil, List.sum_cons, List.sum_nil]
  omega

/-- The points of the grid add up to the documents on it. -/
theorem sum_points {f : StatisticsPoint → ℤ} {k : Counter} (hb : 0 < bucket)
    (hf : ∀ ts, f (pointOf docs bucket ts) = sumOf (docsAt docs bucket ts) k)
    (hon : ∀ d ∈ docs, truncate d.bucketStart bucket ∈ grid start stop bucket) :
    (((grid start stop bucket).map (pointOf docs bucket)).map f).sum = sumOf docs k := by
  unfold sumOf
  rw [List.map_map, ← sum_fibers (fun d : Statistics => truncate d.bucketStart bucket)
    (grid_nodup hb) hon]
  exact congrArg List.sum (List.map_congr_left fun ts _ => hf ts)

/-- **An aggregate of documents of the window** makes an answer that adds up. -/
theorem addsUp_aggregate (hb : 0 < bucket) (hstart : resp.windowFrom % bucket = 0)
    (hrange : ∀ d ∈ docs, resp.windowFrom ≤ d.bucketStart ∧ d.bucketStart < resp.windowTo)
    (hdocs : ∀ d ∈ docs, Balanced d)
    (htotals : resp.totals = ⟨sumOf docs .total, sumOf docs .blocked, sumOf docs .dnssec⟩)
    (hreasons : resp.reasons = ⟨sumOf docs (.reason .blocklist), sumOf docs (.reason .service),
      sumOf docs (.reason .customRule),
      sumOf docs (.reason .rebinding), sumOf docs (.reason .defaultRule),
      sumOf docs (.reason .other)⟩)
    (hprotocols : resp.protocols = ⟨sumOf docs (.proto .doH), sumOf docs (.proto .doT),
      sumOf docs (.proto .doQ)⟩)
    (hseries : resp.series = (grid resp.windowFrom resp.windowTo bucket).map (pointOf docs bucket))
    (hdevices : DevicesAddUp docs resp.devices) : AddsUp docs bucket resp := by
  have hts : resp.series.map (fun p => p.ts) = grid resp.windowFrom resp.windowTo bucket := by
    rw [hseries, List.map_map]
    exact List.map_id _
  -- the start of its bucket is between the start of the window and the document
  have hon : ∀ d ∈ docs, truncate d.bucketStart bucket ∈
      grid resp.windowFrom resp.windowTo bucket := fun d hd =>
    (mem_grid hb hstart).2 ⟨truncate_mod _ _, truncate_mono hb hstart (hrange d hd).1,
      lt_of_le_of_lt (truncate_le _ hb) (hrange d hd).2⟩
  have hnonneg : ∀ k, 0 ≤ sumOf docs k := sumOf_nonneg hdocs
  have hpoint : ∀ p ∈ resp.series, p = pointOf docs bucket p.ts := by
    intro p hp
    rw [hseries] at hp
    obtain ⟨ts, -, rfl⟩ := List.mem_map.1 hp
    rfl
  constructor
  · rw [hts]
    exact grid_ascending hb
  · intro t
    rw [hts]
    exact mem_grid hb hstart
  · exact hpoint
  · intro d hd
    rw [hts]
    exact hon d hd
  · exact htotals
  · rw [hseries, htotals]
    exact sum_points hb (fun _ => rfl) hon
  · rw [hseries, htotals]
    exact sum_points hb (fun _ => rfl) hon
  · rw [hseries, htotals]
    exact sum_points hb (fun _ => rfl) hon
  · rw [htotals]
    exact hdevices.total
  · rw [htotals]
    exact hdevices.blocked
  · exact hdevices
  · exact List.nodup_iff_count_le_one.1 hdevices.nodup _
  · rw [htotals, hreasons]
    exact sumOf_reasons hdocs
  · rw [htotals, hprotocols]
    exact sumOf_protocols hdocs
  · rw [htotals]
    exact ⟨hnonneg _, hnonneg _, hnonneg _⟩
  · intro p hp
    have hat : ∀ k, 0 ≤ sumOf (docsAt docs bucket p.ts) k := sumOf_nonneg fun d hd =>
      hdocs d (List.mem_filter.1 hd).1
    rw [hpoint p hp]
    exact ⟨hat _, hat _, hat _⟩
  · exact hdevices.nonneg hdocs
  · rw [hreasons]
    exact ⟨hnonneg _, hnonneg _, hnonneg _, hnonneg _, hnonneg _, hnonneg _⟩
  · rw [hprotocols]
    exact ⟨hnonneg _, hnonneg _, hnonneg _⟩

/-- A range that is empty has no documents. -/
theorem documents_empty {tier : StatisticsTier} (h : stop ≤ start) :
    documents db profileId start stop tier = [] := by
  refine List.filter_eq_nil_iff.2 fun d _ hin => ?_
  obtain ⟨-, hstart, hstop⟩ := of_decide_eq_true hin
  omega

theorem documents_range {tier : StatisticsTier} {d : Statistics}
    (h : d ∈ documents db profileId start stop tier) :
    start ≤ d.bucketStart ∧ d.bucketStart < stop := (of_decide_eq_true (List.mem_filter.1 h).2).2

theorem documents_stored {tier : StatisticsTier} (hstored : ∀ coll, ∀ d ∈ db coll, Stored d) :
    ∀ d ∈ documents db profileId start stop tier, Balanced d := by
  intro d hd
  obtain ⟨coll, -, hcoll⟩ := List.mem_flatMap.1 (List.mem_filter.1 hd).1
  exact (hstored coll d hcoll).balanced

/-- The series of no rows. -/
theorem fillSeries_nil (hb : IsBucket bucket) (hstart : start % bucket = 0) :
    fillSeries [] start stop bucket = (grid start stop bucket).map (pointOf [] bucket) := by
  have hnone : Counts [] (fun d : Statistics => truncate d.bucketStart bucket) seriesCounters [] :=
    ⟨List.nodup_nil, fun _ => Iff.rfl, fun _ hrow => absurd hrow List.not_mem_nil⟩
  exact fillSeries_eq hb hstart hnone

/-- **The answer adds up**: its series, devices, reasons and transports are all of the documents of
the profile in the range of the query. With statistics off it is empty. -/
theorem answer_addsUp (hstored : ∀ coll, ∀ d ∈ db coll, Stored d)
    (h : .ok resp ∈ getProfileStatistics db clock profileId timespan settings missGuard) :
    ∃ spec, newStatisticsTimespan timespan = some spec ∧
      (resp.windowFrom, resp.windowTo) = computeWindow (truncate clock second) spec
        (statisticsRetention settings).2 ∧
      ((∃ s, settings = some s ∧ s.enabled = true ∧
          AddsUp (documents db profileId
            (keepSince resp.windowFrom s.historyDeletedAt spec.bucket) resp.windowTo spec.tier)
            spec.bucket resp) ∨
        ((∀ s, settings = some s → s.enabled = false) ∧ resp.series = [] ∧ resp.devices = [] ∧
          resp.totals = {} ∧
          resp.reasons = {} ∧ resp.protocols = {})) := by
  unfold getProfileStatistics at h
  cases hspec : newStatisticsTimespan timespan with
  | none =>
    rw [hspec] at h
    cases h
  | some spec =>
    rw [hspec] at h
    dsimp only at h
    have hb : IsBucket spec.bucket := isBucket_timespan hspec
    refine ⟨spec, rfl, ?_⟩
    -- statistics off: nothing is read
    cases settings with
    | none =>
      cases h
      refine ⟨rfl, .inr ⟨fun s hs => ?_, rfl, rfl, rfl, rfl, rfl⟩⟩
      cases hs
    | some s =>
      dsimp only at h
      generalize hwindow : computeWindow (truncate clock second) spec
        (statisticsRetention (some s)).2 = window at h ⊢
      have hstart : window.1 % spec.bucket = 0 := by
        rw [← hwindow]
        exact computeWindow_start
      have hafter : window.1 ≤ keepSince window.1 s.historyDeletedAt spec.bucket := le_keepSince
      split at h
      · next hoff =>
        cases h
        refine ⟨rfl, .inr ⟨fun s' hs' => ?_, rfl, rfl, rfl, rfl, rfl⟩⟩
        obtain rfl := Option.some.inj hs'
        exact hoff
      · next hon =>
        have hon' : s.enabled = true := by simpa using hon
        split at h
        · -- the whole window is before the deletion
          next hempty =>
          cases h
          refine ⟨rfl, .inl ⟨s, rfl, hon', ?_⟩⟩
          rw [documents_empty hempty]
          refine addsUp_aggregate hb.pos hstart ?_ ?_ rfl rfl rfl (fillSeries_nil hb hstart) ?_
          · exact fun d hd => absurd hd List.not_mem_nil
          · exact fun d hd => absurd hd List.not_mem_nil
          · exact addUp_few ⟨List.Perm.nil, List.Pairwise.nil⟩ (Nat.zero_le _)
        -- the aggregation ends in an error, or its devices are folded
        · split at h
          · cases h
          · rcases h with h | ⟨agg, hagg, devices, hfold, h⟩
            · cases h
            · cases h
              refine ⟨rfl, .inl ⟨s, rfl, hon', ?_⟩⟩
              have hread := aggregates_read hb hagg
              refine addsUp_aggregate hb.pos hstart ?_
                (documents_stored hstored) hread.totals hread.reasons hread.protocols
                (hread.series _ _ hstart) ?_
              · intro d hd
                obtain ⟨hfrom, hto⟩ := documents_range hd
                exact ⟨le_trans hafter hfrom, hto⟩
              · rw [hread.totals] at hfold
                exact devices_fold hread.devices hfold

end Answers

section Existence

variable {db : StatisticsDB} {clock : ℤ} {profileId timespan : String}
  {settings : Option ReadSettings} {start stop bucket : ℤ} {spec : TimespanSpec}

theorem exists_group {κ κ' : Type} [DecidableEq κ'] (id : κ → κ') (counters : List Counter)
    (rows : List (Row κ)) :
    ∃ g, g ∈ facetGroup id counters rows := ⟨_, List.Perm.refl _⟩

theorem exists_rows {colls : List StatisticsColl} (h : colls ≠ []) :
    ∃ rows, rows ∈ statisticsRows profileId start stop bucket db colls := by
  have hbranch : ∀ docs, ∃ o, o ∈ statisticsBranch profileId start stop bucket docs := by
    intro docs
    unfold statisticsBranch
    rw [filter_andThen]
    exact ⟨_, List.Perm.refl _⟩
  choose o ho using hbranch
  cases colls with
  | nil => exact absurd rfl h
  | cons first others =>
    refine ⟨((first :: others).map fun c => o (db c)).flatten, mem_unionWiths.2 ⟨_, ?_, rfl⟩⟩
    refine (List.forall₂_map_left_iff
      (f := fun c => (statisticsBranch profileId start stop bucket, db c))
      (l := first :: others)).2 ?_
    rw [List.forall₂_map_right_iff, List.forall₂_same]
    exact fun c _ => ho (db c)

theorem exists_aggregate (tier : StatisticsTier) :
    ∃ agg, agg ∈ readAggregate profileId start stop bucket db tier := by
  have hcolls : tierCollectionNames tier ≠ [] := by cases tier <;> decide
  have hread : ∃ rows, rows ∈ statisticsRows profileId start stop bucket db
      (tierCollectionNames tier) := exists_rows hcolls
  obtain ⟨rows, hrows⟩ := hread
  obtain ⟨series, hseries⟩ := exists_group Prod.fst [.total, .blocked, .dnssec] rows
  obtain ⟨sorted, hsorted⟩ := exists_sorts Prod.fst series
  obtain ⟨totals, htotals⟩ := exists_group (fun _ => ()) [.total, .blocked, .dnssec] rows
  obtain ⟨reasons, hreasons⟩ :=
    exists_group (fun _ => ()) [.reason .blocklist, .reason .service, .reason .customRule,
    .reason .rebinding, .reason .defaultRule, .reason .other] rows
  obtain ⟨protocols, hprotocols⟩ :=
    exists_group (fun _ => ()) [.proto .doH, .proto .doT, .proto .doQ] rows
  obtain ⟨devices, hdevices⟩ := exists_group Prod.snd [.total, .blocked] rows
  obtain ⟨ordered, hordered⟩ :=
    exists_sorts (fun row : Row String => deviceOrder (row.2 .total) row.1) devices
  exact ⟨_, ⟨sorted, totals, reasons, protocols, ordered.take (statisticsMaxDevices + 1)⟩,
    ⟨rows, hrows, ⟨series, hseries, hsorted⟩,
    htotals, hreasons, hprotocols, ordered, ⟨devices, hdevices, hordered⟩, rfl⟩, rfl⟩

theorem exists_folded (devices : List StatisticsDevice) (all : StatisticsTotals) :
    ∃ folded, folded ∈ foldDevices devices all := by
  obtain ⟨out, hout⟩ := exists_sorts StatisticsDevice.order devices
  by_cases hle : out.length ≤ statisticsMaxDevices
  · refine ⟨out, out, hout, ?_⟩
    rw [if_pos hle]
  · obtain ⟨folded, hfolded⟩ := exists_sorts StatisticsDevice.order
      ((out.foldl keepDevice ([], ⟨otherDeviceID, all.total, all.blocked⟩)).1 ++
        [(out.foldl keepDevice ([], ⟨otherDeviceID, all.total, all.blocked⟩)).2])
    refine ⟨folded, out, hout, ?_⟩
    rw [if_neg hle]
    exact hfolded

/-- A read that the guard lets through has an answer, unless the database fails. -/
theorem exists_answer (h : newStatisticsTimespan timespan = some spec) :
    ∃ resp, .ok resp ∈ getProfileStatistics db clock profileId timespan settings false := by
  unfold getProfileStatistics
  rw [h]
  dsimp only
  cases settings with
  | none => exact ⟨_, rfl⟩
  | some s =>
    dsimp only
    split
    · exact ⟨_, rfl⟩
    · split
      · exact ⟨_, rfl⟩
      · obtain ⟨agg, hagg⟩ := exists_aggregate spec.tier
        obtain ⟨folded, hfolded⟩ := exists_folded agg.devices agg.totals
        exact ⟨_, .inr ⟨agg, hagg, folded, hfolded, rfl⟩⟩

end Existence

section Runs

/-- A query of a profile with statistics on, over DoH. -/
def handledQuery (profileId deviceId : String) (result : Proxy.FilterResult) : HandledQuery :=
  ⟨profileId, deviceId, [("enabled", "true"), ("retention", "30d")], result, .https, some true⟩

/-- The proxy has read the profile and the device from the path. -/
theorem sent_handledQuery {profileId deviceId : String} {result : Proxy.FilterResult}
    (path : String)
    (hid : (clientIDFromDNSContext ⟨4, fun _ => true, fun _ _ => true⟩ []
      ⟨.https, some path, .ok ""⟩).toOption =
      some (profileId, deviceId)) (hne : profileId ≠ "") :
    Sent (emitStatistics (handledQuery profileId deviceId result)) := by
  refine ⟨⟨4, fun _ => true, fun _ _ => true⟩, [], ⟨.https, some path, .ok ""⟩,
    handledQuery profileId deviceId result,
    ?_, hne, rfl, rfl⟩
  cases hresult : clientIDFromDNSContext ⟨4, fun _ => true, fun _ _ => true⟩ []
    ⟨.https, some path, .ok ""⟩ with
  | error e =>
    rw [hresult] at hid
    cases hid
  | ok r =>
    rw [hresult] at hid
    exact congrArg Except.ok (Option.some.inj hid)

/-- Queries of two devices of a profile, of which one is blocked, and one of another profile. -/
def halfHour : List (EventStatistics × ℤ) :=
  [(emitStatistics (handledQuery "0a1b" "phone" ⟨.processed, []⟩), 738885 * day),
    (emitStatistics (handledQuery "9z8y" "phone" ⟨.processed, []⟩), 738885 * day + minute),
    (emitStatistics (handledQuery "0a1b" "laptop" ⟨.blocked, ["blocklists"]⟩),
      738885 * day + 2 * minute),
    (emitStatistics (handledQuery "0a1b" "phone" ⟨.processed, []⟩), 738885 * day + 20 * minute)]

theorem sent_halfHour : ∀ e ∈ halfHour, Sent e.1 := by
  intro e he
  simp only [halfHour, List.mem_cons, List.not_mem_nil, or_false] at he
  rcases he with rfl | rfl | rfl | rfl
  · exact sent_handledQuery "/dns-query/0a1b/phone" (by decide +kernel) (by decide)
  · exact sent_handledQuery "/dns-query/9z8y/phone" (by decide +kernel) (by decide)
  · exact sent_handledQuery "/dns-query/0a1b/laptop" (by decide +kernel) (by decide)
  · exact sent_handledQuery "/dns-query/0a1b/phone" (by decide +kernel) (by decide)

/-- The documents of their quarters of an hour. -/
def storedQuarters : List Statistics :=
  [{ bucketStart := 738885 * day, profileId := "0a1b", deviceId := "phone", total := 1
     dnssec := 1, protoDoH := 1,
     tier := .tier15Min, retention := "30d" },
    { bucketStart := 738885 * day, profileId := "9z8y", deviceId := "phone", total := 1
      dnssec := 1, protoDoH := 1,
      tier := .tier15Min, retention := "30d" },
    { bucketStart := 738885 * day, profileId := "0a1b", deviceId := "laptop", total := 1
      blocked := 1, dnssec := 1,
      reasonBlocklist := 1, protoDoH := 1, tier := .tier15Min, retention := "30d" },
    { bucketStart := 738885 * day + 15 * minute, profileId := "0a1b", deviceId := "phone"
      total := 1, dnssec := 1,
      protoDoH := 1, tier := .tier15Min, retention := "30d" }]

/-- A collector that stops with these queries in its queue, at the start of 2024. -/
theorem halfHour_plays : ((System.initial ⟨"ams1", 100, 0⟩ (738885 * day)).play ⟨"ams1", 100, 0⟩
    [.stop halfHour ⟨⟨id, List.Perm.refl⟩, ⟨id, List.Perm.refl⟩⟩ 1]).any fun s =>
      s.seen = halfHour ∧ ∀ d ∈ storedQuarters, d ∈ s.emitted := by
  decide +kernel

theorem stored_storedQuarters : ∀ d ∈ storedQuarters, Stored d := by
  obtain ⟨s, hplay, hfacts⟩ := (Option.any_eq_true _ _).1 halfHour_plays
  obtain ⟨hseen, hemitted⟩ := of_decide_eq_true hfacts
  intro d hd
  refine ⟨⟨"ams1", 100, 0⟩, s, reaches_play (.initial _) hplay, fun e he => ?_, hemitted d hd⟩
  rw [hseen] at he
  exact sent_halfHour e he

/-- Only these documents are stored. -/
def quartersDB : StatisticsDB := fun coll => if coll = .coll15min then storedQuarters else []

/-- An answer with the three queries of the profile, an hour later. -/
theorem answer_quarters :
    ∃ resp, .ok resp ∈ getProfileStatistics quartersDB (738885 * day + hour) "0a1b" "LAST_3_HOURS"
      (some ⟨true, none, none, "30d"⟩) false ∧ resp.totals = ⟨3, 1, 3⟩ ∧
      (resp.series.map fun p => p.total).sum = 3 ∧ (resp.devices.map fun d => d.total).sum = 3 ∧
      (resp.devices.map fun d => d.blocked).sum = 1 ∧
      pointOf (documents quartersDB "0a1b" (738885 * day - 2 * hour)
        (738885 * day + hour) .tier15Min) (15 * minute)
        (738885 * day + 15 * minute) ∈ resp.series := by
  have hspec : newStatisticsTimespan "LAST_3_HOURS" = some ⟨3 * hour, 15 * minute, .tier15Min⟩ := by
    decide
  have hstored : ∀ coll, ∀ d ∈ quartersDB coll, Stored d := by
    intro coll d hd
    unfold quartersDB at hd
    split at hd
    · exact stored_storedQuarters d hd
    · cases hd
  have hread : ∃ resp, .ok resp ∈ getProfileStatistics quartersDB
    (738885 * day + hour) "0a1b" "LAST_3_HOURS"
      (some ⟨true, none, none, "30d"⟩) false := exists_answer hspec
  obtain ⟨resp, hresp⟩ := hread
  obtain ⟨spec, hspec', hwindow, hcases⟩ := answer_addsUp hstored hresp
  obtain rfl := Option.some.inj (hspec.symm.trans hspec')
  rcases hcases with ⟨s, hs, -, hadds⟩ | ⟨hoff, -⟩
  · obtain rfl := Option.some.inj hs
    have hfrom : resp.windowFrom = 738885 * day - 2 * hour := congrArg Prod.fst hwindow
    have hto : resp.windowTo = 738885 * day + hour := congrArg Prod.snd hwindow
    rw [hfrom, hto] at hadds
    -- the sums over the stored documents, computed once
    have hsums :
      (⟨sumOf (documents quartersDB "0a1b" (738885 * day - 2 * hour)
        (738885 * day + hour) .tier15Min) .total,
        sumOf (documents quartersDB "0a1b" (738885 * day - 2 * hour)
          (738885 * day + hour) .tier15Min) .blocked,
        sumOf (documents quartersDB "0a1b" (738885 * day - 2 * hour)
          (738885 * day + hour) .tier15Min) .dnssec⟩ :
          StatisticsTotals) = ⟨3, 1, 3⟩ := by decide +kernel
    have htotals : resp.totals = ⟨3, 1, 3⟩ := hadds.totals.trans hsums
    have hpoint : 738885 * day + 15 * minute ∈ resp.series.map fun p => p.ts := by
      rw [hadds.grid, hfrom, hto]
      decide
    obtain ⟨p, hp, hts⟩ := List.mem_map.1 hpoint
    have hat := hadds.points p hp
    rw [hts] at hat
    refine ⟨resp, hresp, htotals, ?_, ?_, ?_, hat ▸ hp⟩
    · rw [hadds.seriesTotal, htotals]
    · rw [hadds.devicesTotal, htotals]
    · rw [hadds.devicesBlocked, htotals]
  · exact absurd (hoff _ rfl) (by decide)

/-- With statistics off, no bucket has a point. -/
theorem off_no_points :
    ¬ ∀ (db : StatisticsDB) (clock : ℤ) (profileId timespan : String)
      (settings : Option ReadSettings) (missGuard : Bool) (resp : StatisticsResponse), (∀ coll, ∀ d ∈ db coll, Stored d) →
    .ok resp ∈ getProfileStatistics db clock profileId timespan settings missGuard →
    ∀ spec, newStatisticsTimespan timespan = some spec → ∀ t, t % spec.bucket = 0 →
    resp.windowFrom ≤ t → t < resp.windowTo →
      t ∈ resp.series.map fun p => p.ts := by
  intro hclaim
  have hstored : ∀ coll, ∀ d ∈ (fun _ => [] : StatisticsDB) coll, Stored d := fun _ d hd =>
    absurd hd List.not_mem_nil
  have hspec : newStatisticsTimespan "LAST_3_HOURS" = some ⟨3 * hour, 15 * minute, .tier15Min⟩ := by
    decide
  have hresp : .ok ⟨false, none, none, "30d", "LAST_3_HOURS", 738885 * day - 2 * hour,
    738885 * day + hour, 900, {}, [], {}, {}, []⟩ ∈
      getProfileStatistics (fun _ => [])
        (738885 * day + hour) "0a1b" "LAST_3_HOURS" none false := by
    unfold getProfileStatistics
    rw [hspec]
    exact congrArg Except.ok (by decide +kernel)
  have hpoint :=
    hclaim _ _ _ _ _ _ _ hstored hresp _ hspec (738885 * day) (by decide) (by decide) (by decide)
  cases hpoint

end Runs
end ModDNS.Statistics
