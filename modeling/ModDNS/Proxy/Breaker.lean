import Mathlib.Data.List.Chain
import ModDNS.Conc.Meets

/-!
# The circuit breaker of the settings store

`FetchAllowed`, `StoreFailed` and `StoreRecovered` share one atomic word, `retryAt`: the instant
before which the store is not consulted, or zero. Each access to the word is a step of its own, and
so is each reading of the clock.

* `transitions_alternate`: outages are reported at their start and at their end, in turn.
* `breaker_run`: the probes of an outage are an interval apart, as long as no failure is marked with
  a reading of the clock from before a probe.
* `late_failure`: they are not, when a failure is.
-/

namespace ModDNS.Proxy.Breaker

open Conc

/-- The steps of the calls. -/
inductive BreakerOp where
  | load
  | now
  | compareAndSwap (old new : ℕ)
  | swap (new : ℕ)
  deriving DecidableEq

abbrev BreakerSig : Sig where
  Op := BreakerOp
  Res
    | .compareAndSwap _ _ => Bool
    | _ => ℕ

/-- The word, and the last reading of the clock; instants are in nanoseconds. -/
structure BreakerState where
  retryAt : ℕ
  clock : ℕ

/-- The environment chooses what the clock shows: it is positive and does not go back. -/
def breakerHandler {ι : Type} : Handler BreakerSig ι BreakerState ℕ := fun _ o t s =>
  match o with
  | .load => some (s.retryAt, s)
  | .now => if 0 < t ∧ s.clock ≤ t then some (t, { s with clock := t }) else none
  | .compareAndSwap old new =>
    some (decide (s.retryAt = old), if s.retryAt = old then { s with retryAt := new } else s)
  | .swap new => some (s.retryAt, { s with retryAt := new })

section Calls

variable (probeInterval : ℕ)

abbrev step (o : BreakerOp) : Prog BreakerSig (BreakerSig.Res o) := Prog.op (S := BreakerSig) o

/-- `FetchAllowed`. -/
def fetchAllowed : Prog BreakerSig Bool := do
  let retryAt : ℕ ← step .load
  if retryAt = 0 then return true
  else
    let now : ℕ ← step .now
    if now < retryAt then return false
    else step (.compareAndSwap retryAt (now + probeInterval))

/-- `StoreFailed`. -/
def storeFailed : Prog BreakerSig Bool := do
  let now : ℕ ← step .now
  let old : ℕ ← step (.swap (now + probeInterval))
  return old = 0

/-- `StoreRecovered`. -/
def storeRecovered : Prog BreakerSig Bool := do
  let old : ℕ ← step (.swap 0)
  return old ≠ 0

inductive Call where
  | fetchAllowed
  | storeFailed
  | storeRecovered
  deriving DecidableEq

def Call.prog : Call → Prog BreakerSig Bool
  | .fetchAllowed => Breaker.fetchAllowed probeInterval
  | .storeFailed => Breaker.storeFailed probeInterval
  | .storeRecovered => Breaker.storeRecovered

/-- Any number of calls, on a breaker in the state `s`. -/
def start {ι : Type} (s : BreakerState) (calls : ι → Call) : Pool BreakerSig ι BreakerState Bool :=
  ⟨s, fun i => (calls i).prog probeInterval⟩

end Calls

section Events

variable {ι : Type}

abbrev BreakerEvent (ι : Type) := Event BreakerSig ι

/-- The step lets a fetch through, for which its call returns true. -/
def Grants : BreakerEvent ι → Prop
  | ⟨_, .load, (retryAt : ℕ)⟩ => retryAt = 0
  | ⟨_, .compareAndSwap _ _, (swapped : Bool)⟩ => swapped = true
  | _ => False

/-- The step marks the store as failed. -/
def Fails (e : BreakerEvent ι) : Prop := ∃ n, e.op = .swap (n + 1)

/-- The step clears the mark. -/
def Recovers (e : BreakerEvent ι) : Prop := e.op = .swap 0

/-- What a step reports: that an outage starts, or that it ends. -/
def transition : BreakerEvent ι → Option Bool
  | ⟨_, .swap new, (old : ℕ)⟩ =>
    if old = 0 ∧ new ≠ 0 then some true else if old ≠ 0 ∧ new = 0 then some false else none
  | _ => none

def readingOf : BreakerSig.Act → Option ℕ
  | ⟨.now, (t : ℕ)⟩ => some t
  | _ => none

/-- The clock that a call has read. -/
def reading [DecidableEq ι] (i : ι) (es : List (BreakerEvent ι)) : Option ℕ :=
  ((trace i es).filterMap readingOf).head?

variable [DecidableEq ι]

theorem reading_append {i : ι} {es es' : List (BreakerEvent ι)} {t : ℕ}
    (h : reading i es = some t) :
    reading i (es ++ es') = some t := by
  unfold reading at h ⊢
  rw [trace_append, List.filterMap_append, List.head?_append, h]
  rfl

/-- **No failure is marked late**: between a probe and a failure of the same outage, the clock of
the failure has not been read before that of the probe. -/
def Timely (es : List (BreakerEvent ι)) : Prop :=
  ∀ es₁ es₂ es₃ e f t t', es = es₁ ++ e :: (es₂ ++ f :: es₃) → Grants e → Fails f →
    (∀ e' ∈ es₂, ¬ Recovers e') →
    reading e.who es = some t → reading f.who es = some t' → t ≤ t'

theorem Timely.left {es es' : List (BreakerEvent ι)} (h : Timely (es ++ es')) : Timely es := by
  rintro es₁ es₂ es₃ e f t t' rfl he hf hquiet ht ht'
  refine h es₁ es₂ (es₃ ++ es') e f t t' (by simp) he hf hquiet ?_ ?_
  · exact reading_append ht
  · exact reading_append ht'

instance (e : BreakerEvent ι) : Decidable (Grants e) :=
  match e with
  | ⟨_, .load, (retryAt : ℕ)⟩ => inferInstanceAs (Decidable (retryAt = 0))
  | ⟨_, .compareAndSwap _ _, (swapped : Bool)⟩ => inferInstanceAs (Decidable (swapped = true))
  | ⟨_, .now, _⟩ => .isFalse id
  | ⟨_, .swap _, _⟩ => .isFalse id

/-- The mark of a failure. -/
def BreakerOp.isMark : BreakerOp → Bool
  | .swap (_ + 1) => true
  | _ => false

/-- Failures that have read the clock after each probe before them are not late. -/
theorem timely_of_pairwise {es : List (BreakerEvent ι)}
    (h : es.Pairwise fun e f => Grants e → f.op.isMark = true →
      ∀ t ∈ reading e.who es, ∀ t' ∈ reading f.who es, t ≤ t') :
    Timely es := by
  rintro es₁ es₂ es₃ e f t t' rfl he ⟨n, hmark⟩ _ ht ht'
  have hafter := (List.pairwise_cons.1 (List.pairwise_append.1 h).2.1).1 f (by simp)
  exact hafter he (by rw [hmark]; rfl) t ht t' ht'

end Events

section Reports

/-- Reports of outages that start (`true`) and end in turn; `out`: one of them has not ended. -/
structure Alternate (reports : List Bool) (out : Prop) : Prop where
  chain : reports.IsChain (· ≠ ·)
  first : reports.head? ≠ some false
  last : reports.getLast? = some true ↔ out

theorem Alternate.congr {reports : List Bool} {out out' : Prop} (h : Alternate reports out)
    (hout : out' ↔ out) :
    Alternate reports out' := ⟨h.chain, h.first, h.last.trans hout.symm⟩

theorem Alternate.next {reports : List Bool} {b : Bool} (h : Alternate reports (b = false)) :
    Alternate (reports ++ [b]) (b = true) := by
  refine ⟨List.isChain_append.2 ⟨h.chain, List.isChain_singleton b, fun x hx y hy => ?_⟩, ?_, ?_⟩
  · obtain rfl : b = y := Option.some.inj hy
    have hlast := h.last
    rw [hx, Option.some.injEq] at hlast
    cases b <;> cases x <;> simp_all
  · cases reports with
    | nil =>
      have hlast := h.last
      cases b
      · exact absurd (hlast.2 rfl) nofun
      · nofun
    | cons x reports => exact h.first
  · rw [List.getLast?_concat, Option.some.injEq]

end Reports

section Steps

variable {probeInterval : ℕ}

/-- What a call has read when it takes a step. -/
def StepOf (probeInterval : ℕ) (l : List BreakerSig.Act) : BreakerOp → Prop
  | .load => l = []
  | .now => ∀ x ∈ l, x.1 = .load
  | .compareAndSwap old new =>
    ∃ t : ℕ, l = [⟨.load, old⟩, ⟨.now, t⟩] ∧ old ≠ 0 ∧ old ≤ t ∧ new = t + probeInterval
  | .swap new => new = 0 ∨ ∃ t : ℕ, l = [⟨.now, t⟩] ∧ new = t + probeInterval

theorem call_meets (c : Call) :
    Meets (StepOf probeInterval) (fun _ _ => True) (c.prog probeInterval) [] := by
  cases c with
  | fetchAllowed =>
    refine ⟨rfl, fun (retryAt : ℕ) => ?_⟩
    change Meets _ _ (if retryAt = 0 then _ else _) _
    split
    · trivial
    · next hmarked =>
      refine ⟨List.forall_mem_singleton.2 rfl, fun (t : ℕ) => ?_⟩
      change Meets _ _ (if t < retryAt then _ else _) _
      split
      · trivial
      · next hdue => exact ⟨⟨t, rfl, hmarked, Nat.le_of_not_lt hdue, rfl⟩, fun _ => trivial⟩
  | storeFailed =>
    exact ⟨List.forall_mem_nil _, fun (t : ℕ) => ⟨.inr ⟨t, rfl, rfl⟩, fun _ => trivial⟩⟩
  | storeRecovered => exact ⟨.inl rfl, fun _ => trivial⟩

/-- The step for which a call returns true. -/
def Call.Says {ι : Type} (e : BreakerEvent ι) : Call → Prop
  | .fetchAllowed => Grants e
  | .storeFailed => transition e = some true
  | .storeRecovered => transition e = some false

/-- What a call returns, when the clock is positive. -/
theorem call_says {ι : Type} (i : ι) (c : Call) : Meets (StepOf probeInterval)
    (fun l b => (∀ t : ℕ, (⟨.now, t⟩ : BreakerSig.Act) ∈ l → 0 < t) →
      (b = true ↔ ∃ x ∈ l, c.Says (⟨i, x.1, x.2⟩ : BreakerEvent ι))) (c.prog probeInterval) [] := by
  cases c with
  | fetchAllowed =>
    refine ⟨rfl, fun (retryAt : ℕ) => ?_⟩
    change Meets _ _ (if retryAt = 0 then _ else _) _
    split
    · next hzero => exact fun _ => iff_of_true rfl ⟨_, List.mem_singleton_self _, hzero⟩
    · next hmarked =>
      refine ⟨List.forall_mem_singleton.2 rfl, fun (t : ℕ) => ?_⟩
      change Meets _ _ (if t < retryAt then _ else _) _
      split
      · refine fun _ => iff_of_false nofun ?_
        simpa [Call.Says, Grants] using hmarked
      · next hdue =>
        refine ⟨⟨t, rfl, hmarked, Nat.le_of_not_lt hdue, rfl⟩, fun (b : Bool) => ?_⟩
        change _ → (b = true ↔ _)
        simp [Call.Says, Grants, hmarked]
  | storeFailed =>
    refine ⟨List.forall_mem_nil _, fun (t : ℕ) => ⟨.inr ⟨t, rfl, rfl⟩, fun (old : ℕ) hclock => ?_⟩⟩
    have hpos : 0 < t := hclock t (List.mem_cons_self ..)
    show decide (old = 0) = true ↔ _
    simp [Call.Says, transition]
    omega
  | storeRecovered =>
    refine ⟨.inl rfl, fun (old : ℕ) _ => ?_⟩
    show decide (old ≠ 0) = true ↔ _
    simp [Call.Says, transition]

end Steps

section Runs

variable {ι : Type} {probeInterval : ℕ} {s : BreakerState} {calls : ι → Call}
  {es es₁ es₂ : List (BreakerEvent ι)}

abbrev BreakerPool (ι : Type) := Pool BreakerSig ι BreakerState Bool

/-- What a step does to the word. -/
inductive WordStep : BreakerEvent ι → ℕ → ℕ → Prop
  | load {i} {w : ℕ} : WordStep ⟨i, .load, w⟩ w w
  | now {i} {t w : ℕ} (hpos : 0 < t) : WordStep ⟨i, .now, t⟩ w w
  | swapped {i} {old new : ℕ} : WordStep ⟨i, .compareAndSwap old new, true⟩ old new
  | missed {i} {old new w : ℕ} : WordStep ⟨i, .compareAndSwap old new, false⟩ w w
  | swap {i} {new w : ℕ} : WordStep ⟨i, .swap new, w⟩ w new

variable [DecidableEq ι] {P Q R : BreakerPool ι} {e f : BreakerEvent ι}

theorem wordStep (hst : Step breakerHandler P e Q) :
    WordStep e P.state.retryAt Q.state.retryAt := by
  obtain ⟨k, t, s', -, hhandled, rfl⟩ := step_iff.1 hst
  obtain ⟨i, o, r⟩ := e
  cases o with
  | load =>
    cases hhandled
    exact .load
  | now =>
    obtain ⟨⟨hpos, -⟩, heq⟩ := Option.ite_none_right_eq_some.1 hhandled
    cases heq
    exact .now hpos
  | compareAndSwap old new =>
    by_cases hold : P.state.retryAt = old
    · subst hold
      simp only [breakerHandler, if_true, decide_true] at hhandled
      cases hhandled
      exact .swapped
    · simp only [breakerHandler, if_neg hold, decide_eq_false hold] at hhandled
      cases hhandled
      exact .missed
  | swap new =>
    cases hhandled
    exact .swap

theorem run_stepOf (hr : Run breakerHandler Free (start probeInterval s calls)
    (es₁ ++ e :: es₂) R) :
    StepOf probeInterval (trace e.who es₁) e.op := run_met_mid (fun i => call_meets (calls i)) hr

theorem reading_trace {i : ι} {t : ℕ} {l : List BreakerSig.Act} (h : trace i es = l ++ [⟨.now, t⟩])
    (hl : ∀ x ∈ l, x.1 = .load) : reading i es = some t := by
  have hnone : l.filterMap readingOf = [] := by
    refine List.filterMap_eq_nil_iff.2 fun x hx => ?_
    obtain ⟨o, r⟩ := x
    obtain rfl : o = .load := hl _ hx
    rfl
  unfold reading
  rw [h, List.filterMap_append, hnone]
  rfl

/-- A mark stays until the store has recovered. -/
theorem marked_run (hr : Run breakerHandler Free (start probeInterval s calls) (es₁ ++ f :: es₂) Q)
    (hf : Fails f) (hquiet : ∀ e ∈ es₂, ¬ Recovers e) : Q.state.retryAt ≠ 0 := by
  induction es₂ using List.reverseRecOn generalizing Q with
  | nil =>
    obtain ⟨P, -, -, hst⟩ := run_last hr
    have hw := wordStep hst
    obtain ⟨n, hop⟩ := hf
    generalize Q.state.retryAt = w' at hw
    cases hw with
    | swap =>
      cases hop
      exact Nat.succ_ne_zero n
    | _ => cases hop
  | append_singleton es₂ e ih =>
    rw [← List.cons_append, ← List.append_assoc] at hr
    obtain ⟨P, hrun, -, hst⟩ := run_last hr
    have hmarked := ih hrun fun e' he' => hquiet e' (List.mem_append_left _ he')
    have hnot : ¬ Recovers e := hquiet e (List.mem_append_right _ (List.mem_singleton_self e))
    have hmet := run_stepOf hr
    have hw := wordStep hst
    generalize P.state.retryAt = w at hmarked hw
    generalize Q.state.retryAt = w' at hw ⊢
    cases hw with
    | swapped =>
      obtain ⟨t, -, hold, hdue, rfl⟩ := hmet
      omega
    | swap => exact fun hzero => hnot (congrArg BreakerOp.swap hzero)
    | _ => exact hmarked

/-- **After a probe** the word is an interval past its reading, or more, as long as the store has
not recovered. -/
theorem probe_run {old new : ℕ} (he : e.op = .compareAndSwap old new) (hgrants : Grants e)
    (hr : Run breakerHandler Free (start probeInterval s calls) (es₁ ++ e :: es₂) Q)
    (hcond : Timely (es₁ ++ e :: es₂))
    (hquiet : ∀ e' ∈ es₂, ¬ Recovers e') :
    ∃ t, reading e.who (es₁ ++ e :: es₂) = some t ∧ t + probeInterval ≤ Q.state.retryAt := by
  induction es₂ using List.reverseRecOn generalizing Q with
  | nil =>
    obtain ⟨P, -, -, hst⟩ := run_last hr
    have hmet := run_stepOf hr
    have hw := wordStep hst
    generalize Q.state.retryAt = w' at hw ⊢
    -- the probe itself
    cases hw with
    | swapped =>
      obtain ⟨t, htrace, -, -, rfl⟩ := hmet
      have hread := reading_trace (l := [⟨.load, _⟩]) htrace (List.forall_mem_singleton.2 rfl)
      exact ⟨t, reading_append hread, Nat.le_refl _⟩
    | missed => cases hgrants
    | _ => cases he
  | append_singleton es₂ e' ih =>
    rw [← List.cons_append, ← List.append_assoc] at hr hcond ⊢
    obtain ⟨P, hrun, -, hst⟩ := run_last hr
    obtain ⟨t, hread, hword⟩ := ih hrun hcond.left fun x hx => hquiet x (List.mem_append_left _ hx)
    refine ⟨t, reading_append hread, ?_⟩
    have hnot : ¬ Recovers e' := hquiet e' (List.mem_append_right _ (List.mem_singleton_self e'))
    have hmet := run_stepOf hr
    have hw := wordStep hst
    generalize P.state.retryAt = w at hword hw
    generalize Q.state.retryAt = w' at hw ⊢
    -- a later event: another probe needs the word to be due, a failure reads later
    cases hw with
    | swapped =>
      obtain ⟨t', -, -, hdue, rfl⟩ := hmet
      omega
    | @swap i _ w =>
      have hfails : Fails (⟨i, .swap w', w⟩ : BreakerEvent ι) := by
        obtain ⟨n, heq⟩ := Nat.exists_eq_succ_of_ne_zero fun hzero : w' = 0 =>
          hnot (congrArg BreakerOp.swap hzero)
        exact ⟨n, congrArg BreakerOp.swap heq⟩
      rcases hmet with rfl | ⟨t', htrace, rfl⟩
      · exact absurd rfl hnot
      have hread' : reading i (es₁ ++ e :: es₂) = some t' :=
        reading_trace htrace (List.forall_mem_nil _)
      have hlate : t ≤ t' := by
        refine hcond es₁ es₂ [] e _ t t' (by simp) hgrants hfails ?_ (reading_append hread)
          (reading_append hread')
        exact fun x hx => hquiet x (List.mem_append_left _ hx)
      exact Nat.add_le_add_right hlate _
    | _ => exact hword

/-- A fetch that is let through while there is a mark is a probe. -/
theorem probe_of_grant (hst : Step breakerHandler P e Q) (hgrants : Grants e)
    (hmarked : P.state.retryAt ≠ 0) :
    ∃ old new, e.op = .compareAndSwap old new ∧ P.state.retryAt = old := by
  have hw := wordStep hst
  generalize P.state.retryAt = w at hmarked hw ⊢
  generalize Q.state.retryAt = w' at hw
  cases hw with
  | load => exact absurd hgrants hmarked
  | swapped => exact ⟨_, _, rfl, rfl⟩
  | missed => cases hgrants
  | _ => exact hgrants.elim

/-- **Outages are reported in turn**, and one is reported now exactly if there is a mark. -/
theorem transitions_alternate {c : ℕ}
    (hr : Run breakerHandler Free (start probeInterval ⟨0, c⟩ calls) es Q) :
    Alternate (es.filterMap transition) (Q.state.retryAt ≠ 0) := by
  induction hr with
  | nil => exact ⟨.nil, nofun, iff_of_false nofun fun h => h rfl⟩
  | @snoc es P Q e hr _ hst ih =>
    have hmet := run_stepOf (hr.snoc trivial hst)
    have hw := wordStep hst
    generalize P.state.retryAt = w at ih hw
    generalize Q.state.retryAt = w' at hw ⊢
    rw [List.filterMap_append]
    have hquiet : transition e = none → (w' ≠ 0 ↔ w ≠ 0) →
        Alternate (es.filterMap transition ++ [e].filterMap transition) (w' ≠ 0) := by
      intro hnone hsame
      rw [List.filterMap_cons_none hnone, List.filterMap_nil, List.append_nil]
      exact ih.congr hsame
    have hreport : ∀ b, transition e = some b → (b = false ↔ w ≠ 0) → (w' ≠ 0 ↔ b = true) →
        Alternate (es.filterMap transition ++ [e].filterMap transition) (w' ≠ 0) := by
      intro b hsome hbefore hafter
      rw [List.filterMap_cons_some hsome, List.filterMap_nil]
      exact (ih.congr hbefore).next.congr hafter
    cases hw with
    | load => exact hquiet rfl Iff.rfl
    | now => exact hquiet rfl Iff.rfl
    | missed => exact hquiet rfl Iff.rfl
    | swapped =>
      obtain ⟨t, -, hold, hdue, rfl⟩ := hmet
      exact hquiet rfl (iff_of_true (by omega) hold)
    | @swap i _ w =>
      by_cases hw : w = 0 <;> by_cases hw' : w' = 0
      · exact hquiet (by simp [transition, hw, hw']) (by rw [hw, hw'])
      · exact hreport true (by simp [transition, hw, hw']) (by simp [hw]) (by simp [hw'])
      · exact hreport false (by simp [transition, hw, hw']) (by simp [hw]) (by simp [hw'])
      · exact hquiet (by simp [transition, hw, hw']) (iff_of_true hw' hw)

/-- **The breaker.** In every run in which no failure is marked late, outages are reported at their
start and at their end, in turn, and the fetches that are let through between a failure and the next
recovery have clocks an interval apart. -/
theorem breaker_run {c : ℕ} (hr : Run breakerHandler Free (start probeInterval ⟨0, c⟩ calls) es R)
    (hcond : Timely es) :
    Alternate (es.filterMap transition) (R.state.retryAt ≠ 0) ∧
      ∀ es₁ es₂ es₃ es₄ f e e', es = es₁ ++ f :: (es₂ ++ e :: (es₃ ++ e' :: es₄)) → Fails f →
        (∀ x ∈ es₂ ++ e :: es₃, ¬ Recovers x) → Grants e → Grants e' →
        ∃ t t', reading e.who es = some t ∧ reading e'.who es = some t' ∧
        t + probeInterval ≤ t' := by
  refine ⟨transitions_alternate hr, ?_⟩
  rintro es₁ es₂ es₃ es₄ f e e' rfl hf hquiet he he'
  have hsplit : es₁ ++ f :: (es₂ ++ e :: (es₃ ++ e' :: es₄)) = (es₁ ++ f :: es₂) ++ e ::
      (es₃ ++ e' :: es₄) := by simp
  have hsplit' : es₁ ++ f :: (es₂ ++ e :: (es₃ ++ e' :: es₄)) = ((es₁ ++ f :: es₂) ++ e :: es₃) ++
      e' :: es₄ := by simp
  -- the first of them is a probe
  obtain ⟨P₁, Q₁, hrun₁, -, hst₁, -⟩ := run_mid (hsplit ▸ hr)
  have hmarked₁ := marked_run hrun₁ hf fun x hx => hquiet x (List.mem_append_left _ hx)
  obtain ⟨old, new, hop, -⟩ := probe_of_grant hst₁ he hmarked₁
  -- and so is the second
  rw [hsplit'] at hr hcond ⊢
  obtain ⟨P₂, Q₂, hrun₂, -, hst₂, -⟩ := run_mid hr
  obtain ⟨t, hread, hword⟩ := probe_run hop he hrun₂ hcond.left fun x hx =>
    hquiet x (List.mem_append_right _ (List.mem_cons_of_mem _ hx))
  have hmarked₂ : P₂.state.retryAt ≠ 0 := by
    rw [show (es₁ ++ f :: es₂) ++ e :: es₃ = es₁ ++ f :: (es₂ ++ e :: es₃) by simp] at hrun₂
    exact marked_run hrun₂ hf hquiet
  obtain ⟨old', new', hop', hold'⟩ := probe_of_grant hst₂ he' hmarked₂
  have hmet := run_stepOf hr
  rw [hop'] at hmet
  obtain ⟨t', htrace, -, hdue, -⟩ := hmet
  have hread' := reading_trace (l := [⟨.load, old'⟩]) htrace (List.forall_mem_singleton.2 rfl)
  exact ⟨t, t', reading_append hread, reading_append hread', by omega⟩

/-- **What a call has returned** is what one of its steps says. -/
theorem ended_call {i : ι} {b : Bool}
    (hr : Run breakerHandler Free (start probeInterval s calls) es R) (hend : R.prog i = .pure b) :
    b = true ↔ ∃ e ∈ es, e.who = i ∧ (calls i).Says e := by
  have hsaid := run_ended (fun j => call_says j (calls j)) hr hend
  have hclock : ∀ t : ℕ, (⟨.now, t⟩ : BreakerSig.Act) ∈ trace i es → 0 < t := by
    intro t ht
    obtain ⟨es₁, es₂, rfl⟩ := List.append_of_mem (mem_trace.1 ht)
    obtain ⟨P, Q, -, -, hst, -⟩ := run_mid hr
    have hw := wordStep hst
    generalize P.state.retryAt = w at hw
    generalize Q.state.retryAt = w' at hw
    cases hw with
    | now hpos => exact hpos
  rw [hsaid hclock]
  constructor
  · rintro ⟨x, hx, hsaid⟩
    exact ⟨_, mem_trace.1 hx, rfl, hsaid⟩
  · rintro ⟨e, he, rfl, hsaid⟩
    exact ⟨⟨e.op, e.res⟩, mem_trace.2 he, hsaid⟩

end Runs

section Examples

/-- A failure, a probe that fails, another probe, and the recovery. -/
def probedCalls : Fin 5 → Call
  | 0 => .storeFailed
  | 1 => .fetchAllowed
  | 2 => .storeFailed
  | 3 => .fetchAllowed
  | 4 => .storeRecovered

def probedSchedule : List (Fin 5 × ℕ) :=
  [(thread 0, 10), (thread 0, 0), (thread 1, 0), (thread 1, 21), (thread 1, 0), (thread 2, 22),
    (thread 2, 0), (thread 3, 0), (thread 3, 40), (thread 3, 0), (thread 4, 0)]

theorem probedSchedule_plays :
    (play breakerHandler Free probedSchedule (start 10 ⟨0, 0⟩ probedCalls)).isSome := by
  decide

/-- From the mark of the failure to the first probe. -/
def probedOutage : List (BreakerEvent (Fin 5)) :=
  [⟨thread 1, .load, (20 : ℕ)⟩, ⟨thread 1, .now, (21 : ℕ)⟩]

/-- From the first probe to the second one. -/
def probedAgain : List (BreakerEvent (Fin 5)) :=
  [⟨thread 2, .now, (22 : ℕ)⟩, ⟨thread 2, .swap 32, (31 : ℕ)⟩, ⟨thread 3, .load, (32 : ℕ)⟩,
  ⟨thread 3, .now, (40 : ℕ)⟩]

def probedEvents : List (BreakerEvent (Fin 5)) :=
  [⟨thread 0, .now, (10 : ℕ)⟩] ++ ⟨thread 0, .swap 20, (0 : ℕ)⟩ ::
    (probedOutage ++ ⟨thread 1, .compareAndSwap 20 31, true⟩ ::
      (probedAgain ++ ⟨thread 3, .compareAndSwap 32 50, true⟩ :: [⟨thread 4, .swap 0, (50 : ℕ)⟩]))

/-- One outage is reported, from its start to its end, and its two probes are an interval apart. -/
theorem breaker_run_probed : Alternate (probedEvents.filterMap transition) False ∧
    ∃ t t', reading 1 probedEvents = some t ∧ reading 3 probedEvents = some t' ∧ t + 10 ≤ t' := by
  have hr : Run breakerHandler Free (start 10 ⟨0, 0⟩ probedCalls) probedEvents _ :=
    run_play probedSchedule_plays
  have htimely : Timely probedEvents := timely_of_pairwise (by decide +kernel)
  obtain ⟨halternate, hprobes⟩ := breaker_run hr htimely
  have hquiet : ∀ x ∈ probedOutage ++ ⟨thread 1, .compareAndSwap 20 31, true⟩ :: probedAgain,
      ¬ Recovers x := by
    simp [probedOutage, probedAgain, Recovers]
  refine ⟨halternate.congr (iff_of_false id (by decide)), ?_⟩
  exact hprobes _ _ _ _ _ _ _ rfl ⟨19, rfl⟩ hquiet rfl rfl

/-- Two failures, and two fetches. -/
def outageCalls : Fin 4 → Call := fun i => if i.val < 2 then .storeFailed else .fetchAllowed

/-- The second failure has read its clock before the first probe, and marks the store after it. -/
def lateSchedule : List (Fin 4 × ℕ) :=
  [(thread 0, 10), (thread 0, 0), (thread 1, 11), (thread 2, 0), (thread 2, 20),
  (thread 2, 0), (thread 1, 0), (thread 3, 0), (thread 3, 21), (thread 3, 0)]

theorem lateSchedule_plays :
    (play breakerHandler Free lateSchedule (start 10 ⟨0, 0⟩ outageCalls)).isSome := by decide

/-- Two probes of an outage are an instant apart. -/
theorem late_failure : ∃ es R, Run breakerHandler Free (start 10 ⟨0, 0⟩ outageCalls) es R ∧
    ∃ es₁ es₂ es₃ es₄ f e e', es = es₁ ++ f :: (es₂ ++ e :: (es₃ ++ e' :: es₄)) ∧ Fails f ∧
      (∀ x ∈ es₂ ++ e :: es₃, ¬ Recovers x) ∧ Grants e ∧ Grants e' ∧
      ∀ t t', reading e.who es = some t → reading e'.who es = some t' → ¬ t + 10 ≤ t' := by
  refine ⟨_, _, run_play lateSchedule_plays, [⟨thread 0, .now, (10 : ℕ)⟩],
    [⟨thread 1, .now, (11 : ℕ)⟩, ⟨thread 2, .load, (20 : ℕ)⟩, ⟨thread 2, .now, (20 : ℕ)⟩],
    [⟨thread 1, .swap 21, (30 : ℕ)⟩, ⟨thread 3, .load, (21 : ℕ)⟩, ⟨thread 3, .now, (21 : ℕ)⟩], [],
    ⟨thread 0, .swap 20, (0 : ℕ)⟩, ⟨thread 2, .compareAndSwap 20 30, true⟩,
    ⟨thread 3, .compareAndSwap 21 31, true⟩,
    rfl, ⟨19, rfl⟩, ?_, rfl, rfl, ?_⟩
  · simp [Recovers]
  · intro t t' ht ht'
    cases ht
    cases ht'
    decide

end Examples

end ModDNS.Proxy.Breaker
