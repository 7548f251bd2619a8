import Mathlib.Data.List.Dedup
import Mathlib.Data.List.Sort
import Mathlib.Data.String.Basic
import ModDNS.Proxy.Request

/-!
# Filter phases: stages and aggregation

A phase runs its stages (`runStages`), and aggregates all results of the request so
far (`getFinalFilteringResult`), unless a stage returned an error (`Filter.execute`).

The stages run concurrently, but each writes its own slot of `outcomes`, so the
order in which they finish does not show (`outcomes_order`).
-/

namespace ModDNS.Proxy

open Go

/-- An error of a stage: its text. -/
abbrev StageError := String

/-- How a stage's goroutine ends. -/
inductive StageRun where
  | returned (res : Option StageResult) (err : Option StageError)
  | panicked

/-- What the caller of a stage sees. Every stage defers `sentry.Recover()` and has
unnamed results, so a panic comes back as the zero results: no result, no error. -/
def StageRun.outcome : StageRun → Option StageResult × Option StageError
  | .returned res err => (res, err)
  | .panicked => (none, none)

structure Stage where
  name : String
  run : RequestContext → DNSContext → StageRun

/-- A stage that failed: its name and error, as recorded and joined by `runStages`. -/
structure StageFailure where
  phase : String
  stage : String
  err : StageError
  deriving DecidableEq

/-- The outcomes of the stages, in the order of the stages. -/
def outcomes (stages : List Stage) (reqCtx : RequestContext) (dctx : DNSContext) :
    List (Option StageResult × Option StageError) :=
  stages.map fun st => (st.run reqCtx dctx).outcome

/-- The outcome slots, which start as zero values and are written by the stages as
they finish: `order` lists the stages in that order. -/
def writeOutcomes (outs : List (Option StageResult × Option StageError)) (order : List ℕ)
    (slots : List (Option StageResult × Option StageError)) :
    List (Option StageResult × Option StageError) :=
  order.foldl (fun slots i => slots.set i (outs.getD i (none, none))) slots

theorem writeOutcomes_length (outs : List (Option StageResult × Option StageError)) (order : List ℕ)
    (slots : List (Option StageResult × Option StageError)) :
    (writeOutcomes outs order slots).length = slots.length := by
  induction order generalizing slots with
  | nil => rfl
  | cons i order ih => simpa [writeOutcomes] using ih (slots.set i (outs.getD i (none, none)))

/-- A slot holds its stage's outcome once that stage has finished. -/
theorem writeOutcomes_get (outs : List (Option StageResult × Option StageError)) (order : List ℕ)
    (slots : List (Option StageResult × Option StageError)) {j : ℕ} (hj : j < slots.length) :
    (writeOutcomes outs order slots)[j]? =
      if j ∈ order then some (outs.getD j (none, none)) else slots[j]? := by
  induction order generalizing slots with
  | nil => rfl
  | cons i order ih =>
    have h := ih (slots.set i (outs.getD i (none, none))) (by simpa using hj)
    rw [writeOutcomes, List.foldl_cons, ← writeOutcomes, h]
    by_cases hji : j = i
    · subst hji
      by_cases hjo : j ∈ order <;> simp [hjo, hj]
    · by_cases hjo : j ∈ order <;> simp [hjo, hji, Ne.symm hji]

/-- **The order does not show.** Once every stage has finished, in whatever order,
the slots are the outcomes. -/
theorem outcomes_order (stages : List Stage) (reqCtx : RequestContext) (dctx : DNSContext)
    {order : List ℕ} (hall : ∀ i < stages.length, i ∈ order) :
    writeOutcomes (outcomes stages reqCtx dctx) order (List.replicate stages.length (none, none)) =
      outcomes stages reqCtx dctx := by
  have hlen : (outcomes stages reqCtx dctx).length = stages.length := by simp [outcomes]
  refine List.ext_getElem? fun j => ?_
  by_cases hj : j < stages.length
  · rw [writeOutcomes_get _ _ _ (by simpa using hj), if_pos (hall j hj)]
    simp [List.getD, hlen, hj]
  · rw [List.getElem?_eq_none, List.getElem?_eq_none]
    · omega
    · rw [writeOutcomes_length]; simpa using hj

/-- The results a phase appends: those of the stages that returned no error. -/
def stageResults (stages : List Stage) (reqCtx : RequestContext) (dctx : DNSContext) :
    List StageResult :=
  (outcomes stages reqCtx dctx).filterMap fun (res, err) => if err.isSome then none else res

/-- The failures a phase records. -/
def stageFailures (phase : String) (stages : List Stage) (reqCtx : RequestContext)
    (dctx : DNSContext) :
    List StageFailure :=
  stages.filterMap fun st => (st.run reqCtx dctx).outcome.2.map fun e => ⟨phase, st.name, e⟩

/-- `runStages`: the request context with the new results appended, and the failures. -/
def runStages (phase : String) (stages : List Stage) (reqCtx : RequestContext) (dctx : DNSContext) :
    RequestContext × List StageFailure :=
  ({ reqCtx with
      partialFilteringResults :=
        reqCtx.partialFilteringResults ++ stageResults stages reqCtx dctx },
    stageFailures phase stages reqCtx dctx)

def tierDefaultRule : ℕ := 0
def tierBlocklists : ℕ := 100
def tierServices : ℕ := 100
def tierRebinding : ℕ := 150
def tierCustomRules : ℕ := 200

/-- The best tier of one action so far (`none` is `-1`), with the reasons of the
results at that tier. -/
structure Best where
  tier : Option ℕ
  reasons : List String

/-- One result of the action: a higher tier starts over, the same tier adds. -/
def Best.add (b : Best) (res : StageResult) : Best :=
  match b.tier with
  | none => ⟨some res.tier, res.reasons⟩
  | some t =>
    if t < res.tier then ⟨some res.tier, res.reasons⟩
    else if res.tier = t then ⟨some t, b.reasons ++ res.reasons⟩
    else b

/-- The loop of `getFinalFilteringResult`: the best Allow and the best Block. -/
def aggregate (results : List StageResult) : Best × Best :=
  results.foldl (fun (allow, block) res =>
    match res.decision with
    | .allow => (allow.add res, block)
    | .block => (allow, block.add res)
    | .none => (allow, block)) (⟨none, []⟩, ⟨none, []⟩)

/-- `dedupeAndSort`: the distinct non-empty reasons, sorted. -/
def dedupeAndSort (reasons : List String) : List String :=
  ((reasons.filter (· ≠ "")).dedup).insertionSort (· ≤ ·)

/-- `getFinalFilteringResult`: any Allow wins over every Block. -/
def getFinalFilteringResult (results : List StageResult) : FilterResult :=
  let best := aggregate results
  if best.1.tier.isSome then ⟨.processed, dedupeAndSort best.1.reasons⟩
  else if best.2.tier.isSome then ⟨.blocked, dedupeAndSort best.2.reasons⟩
  else ⟨.processed, []⟩

/-- A filter phase: its type and its stages. -/
structure Filter where
  filterType : String
  stages : List Stage

/-- `Execute`, which `DomainFilter` and `IPFilter` share: a failed stage makes the
query unavailable, whatever the others decided. -/
def Filter.execute (f : Filter) (reqCtx : RequestContext) (dctx : DNSContext) :
    RequestContext × List StageFailure :=
  let run := runStages f.filterType f.stages reqCtx dctx
  ({ run.1 with
      filterResult :=
        if run.2.isEmpty then getFinalFilteringResult run.1.partialFilteringResults
        else ⟨.unavailable, []⟩ }, run.2)

end ModDNS.Proxy
