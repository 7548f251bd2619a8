import ModDNS.Conc.Meets
import ModDNS.Proxy.Filters

/-!
# The loader of the services catalog

A reload reads the file and then records the outcome under the lock; `Get` reads the last catalog
and the last error under it, and reloads on its own when there is an error. A reload counts from
when its outcome is recorded.

* `ended_get`: what a `Get` has seen when it ends.
* `get_iff`: it answers with the last good catalog exactly if no failed reload is the last when it
  reads.
* `bad_file_inert`: after one the filter stages block nothing.
-/

namespace ModDNS.Proxy.CatalogLoader

open Conc Libs

/-- What `LoadFromFile` returns. -/
abbrev Loaded := Except StageError Catalog

/-- The steps: `LoadFromFile`, and the two locked sections. -/
inductive LoaderOp where
  | loadFromFile
  | record (outcome : Loaded)
  | read

abbrev LoaderSig : Sig where
  Op := LoaderOp
  Res
    | .loadFromFile => Loaded
    | .record _ => Unit
    | .read => Option Catalog × Option StageError

/-- `Loader`, as far as it is read. -/
structure Loader where
  catalog : Option Catalog
  lastErr : Option StageError

/-- The last known-good catalog is kept if a reload fails. -/
def Loader.record (l : Loader) : Loaded → Loader
  | .ok cat => { catalog := some cat, lastErr := none }
  | .error err => { l with lastErr := some err }

/-- The environment chooses what the file yields. -/
def loaderHandler {ι : Type} : Handler LoaderSig ι Loader Loaded := fun _ o file l =>
  match o with
  | .loadFromFile => some (file, l)
  | .record outcome => some ((), l.record outcome)
  | .read => some ((l.catalog, l.lastErr), l)

section Programs

abbrev step (o : LoaderOp) : Prog LoaderSig (LoaderSig.Res o) := Prog.op (S := LoaderSig) o

/-- `Reload`. -/
def reload : Prog LoaderSig (Option StageError) := do
  let outcome : Loaded ← step .loadFromFile
  let _ ← step (.record outcome)
  match outcome with
  | .ok _ => return none
  | .error err => return some err

/-- `Get`. -/
def get : Prog LoaderSig (Option Catalog × Option StageError) := do
  let (cat, err) ← step .read
  if cat.isSome ∧ err.isNone then return (cat, none)
  else
    match ← reload with
    | some err => return (none, some err)
    | none =>
      let (cat, err) ← step .read
      return (cat, err)

/-- A `Get`, or `Start` up to some tick of its ticker. -/
inductive Job where
  | get
  | start (ticks : ℕ)

def startLoop : ℕ → Prog LoaderSig Unit
  | 0 => return ()
  | n + 1 => do
    let _ ← reload
    startLoop n

def Job.prog : Job → Prog LoaderSig (Option (Option Catalog × Option StageError))
  | .get => do return some (← CatalogLoader.get)
  | .start ticks => do
    startLoop ticks
    return none

abbrev LoaderPool (ι : Type) :=
  Pool LoaderSig ι Loader (Option (Option Catalog × Option StageError))

/-- Any number of them, on a loader that `New` has created with the catalog `first`. -/
def startLoader {ι : Type} (first : Catalog) (jobs : ι → Job) : LoaderPool ι :=
  ⟨{ catalog := some first, lastErr := none }, fun i => (jobs i).prog⟩

end Programs

section Histories

variable {ι : Type}

abbrev LoaderEvent (ι : Type) := Event LoaderSig ι

/-- The outcome that a step records. -/
def recorded : LoaderEvent ι → Option Loaded
  | ⟨_, .record outcome, _⟩ => some outcome
  | _ => none

/-- The catalog of the last reload that has succeeded, or else the first one. -/
def lastGood (first : Catalog) (es : List (LoaderEvent ι)) : Catalog :=
  ((es.filterMap recorded).filterMap Except.toOption).getLast?.getD first

/-- The error of the last reload, if it has failed. -/
def lastFailure (es : List (LoaderEvent ι)) : Option StageError :=
  match (es.filterMap recorded).getLast? with
  | some (.error err) => some err
  | _ => none

end Histories

section Runs

variable {ι : Type} [DecidableEq ι] {first : Catalog} {jobs : ι → Job} {es : List (LoaderEvent ι)}
  {R : LoaderPool ι}

/-- The loader holds what has been recorded last. -/
theorem state_loader (hr : Run loaderHandler Free (startLoader first jobs) es R) :
    R.state = { catalog := some (lastGood first es), lastErr := lastFailure es } := by
  induction hr with
  | nil => rfl
  | @snoc es P Q e _ _ hst ih =>
    obtain ⟨k, file, l, -, hhandled, rfl⟩ := step_iff.1 hst
    obtain ⟨i, o, r⟩ := e
    have hquiet : recorded (⟨i, o, r⟩ : LoaderEvent ι) = none →
        lastGood first (es ++ [⟨i, o, r⟩]) = lastGood first es ∧
          lastFailure (es ++ [⟨i, o, r⟩]) = lastFailure es := by
      intro hnone
      have hsame : (es ++ [(⟨i, o, r⟩ : LoaderEvent ι)]).filterMap recorded =
          es.filterMap recorded := by
        rw [List.filterMap_append, List.filterMap_cons_none hnone, List.filterMap_nil,
          List.append_nil]
      unfold lastGood lastFailure
      rw [hsame]
      exact ⟨rfl, rfl⟩
    rw [Pool.set_state]
    cases o with
    | loadFromFile =>
      cases hhandled
      rw [(hquiet rfl).1, (hquiet rfl).2]
      exact ih
    | read =>
      cases hhandled
      rw [(hquiet rfl).1, (hquiet rfl).2]
      exact ih
    | record outcome =>
      cases hhandled
      rw [ih]
      have hlast : (es ++ [(⟨i, .record outcome, ()⟩ : LoaderEvent ι)]).filterMap recorded =
          es.filterMap recorded ++ [outcome] := by
        rw [List.filterMap_append]
        rfl
      unfold lastGood lastFailure
      rw [hlast, List.getLast?_concat, List.filterMap_append]
      cases outcome with
      | ok cat => simp [Loader.record, Except.toOption]
      | error err => simp [Loader.record, Except.toOption]

/-- What a read answers. -/
theorem read_loader {i : ι} {x : Option Catalog × Option StageError}
    {es₁ es₂ : List (LoaderEvent ι)}
    (hr : Run loaderHandler Free (startLoader first jobs) (es₁ ++ ⟨i, .read, x⟩ :: es₂) R) :
    x = (some (lastGood first es₁), lastFailure es₁) := by
  obtain ⟨P, Q, hrun, -, hst, -⟩ := run_mid hr
  obtain ⟨k, file, l, -, hhandled, -⟩ := step_iff.1 hst
  have hstate := state_loader hrun
  obtain ⟨hx, -⟩ := Prod.mk.inj (Option.some.inj hhandled)
  rw [hstate] at hx
  exact hx.symm

/-- How a call ends: with what its last read has answered, or with the error of its own reload. -/
def EndsGet (l : List LoaderSig.Act) : Option (Option Catalog × Option StageError) → Prop
  | none => True
  | some a => (∃ l₁, l = l₁ ++ [⟨.read, a⟩]) ∨
    ∃ (x : Option Catalog × Option StageError) (err : StageError), ¬ (x.1.isSome ∧ x.2.isNone) ∧
      a = (none, some err) ∧
      l = [⟨.read, x⟩, ⟨.loadFromFile, (.error err : Loaded)⟩, ⟨.record (.error err), ()⟩]

theorem startLoop_meets (n : ℕ) (l : List LoaderSig.Act) :
    Meets (fun _ _ => True) (fun l a => EndsGet l a)
      ((startLoop n).bind fun _ => .pure none) l := by
  induction n generalizing l with
  | zero => trivial
  | succ n ih =>
    refine ⟨trivial, fun (outcome : Loaded) => ⟨trivial, fun _ => ?_⟩⟩
    cases outcome with
    | ok cat => exact ih _
    | error err => exact ih _

theorem job_meets (job : Job) : Meets (fun _ _ => True) (fun l a => EndsGet l a) job.prog [] := by
  cases job with
  | start ticks => exact startLoop_meets ticks []
  | get =>
    refine ⟨trivial, fun (x : Option Catalog × Option StageError) => ?_⟩
    obtain ⟨cat, err⟩ := x
    by_cases hgood : cat.isSome ∧ err.isNone
    · change Meets _ _ (Prog.bind (if cat.isSome ∧ err.isNone then _ else _) _) _
      rw [if_pos hgood]
      obtain rfl : err = none := Option.isNone_iff_eq_none.1 hgood.2
      exact .inl ⟨[], rfl⟩
    · change Meets _ _ (Prog.bind (if cat.isSome ∧ err.isNone then _ else _) _) _
      rw [if_neg hgood]
      refine ⟨trivial, fun (outcome : Loaded) => ⟨trivial, fun _ => ?_⟩⟩
      cases outcome with
      | ok cat' => exact ⟨trivial, fun x => .inl ⟨_, rfl⟩⟩
      | error err' => exact .inr ⟨(cat, err), err', hgood, rfl, rfl⟩

/-- **The end of a `Get`**: its last read, with the reloads that have been recorded before it, and
what it answers. -/
theorem ended_get {i : ι} {a : Option Catalog × Option StageError}
    (hr : Run loaderHandler Free (startLoader first jobs) es R) (hend : R.prog i = .pure (some a)) :
    ∃ es₁ x es₂, es = es₁ ++ ⟨i, .read, x⟩ :: es₂ ∧ (∀ e ∈ es₂, e.who = i → e.op ≠ .read) ∧
      (a = (some (lastGood first es₁), lastFailure es₁) ∨ lastFailure es₁ ≠ none ∧
        ∃ err, a = (none, some err)) := by
  have hends : EndsGet (trace i es) (some a) := run_ended (fun j => job_meets (jobs j)) hr hend
  rcases hends with ⟨l₁, htrace⟩ | ⟨x, err, hbad, ha, htrace⟩
  · obtain ⟨es₁, es₂, rfl, -, hrest⟩ := trace_split htrace
    refine ⟨es₁, a, es₂, rfl, fun e he hi => ?_, .inl (read_loader hr)⟩
    have hmem : (⟨e.op, e.res⟩ : LoaderSig.Act) ∈ trace i es₂ :=
      mem_trace.2 (by rw [← hi]; exact he)
    rw [hrest] at hmem
    cases hmem
  · obtain ⟨es₁, es₂, rfl, -, hrest⟩ := trace_split (htrace.trans (List.nil_append _).symm)
    refine ⟨es₁, x, es₂, rfl, fun e he hi => ?_, .inr ⟨fun hnone => hbad ?_, err, ha⟩⟩
    · have hmem : (⟨e.op, e.res⟩ : LoaderSig.Act) ∈ trace i es₂ :=
        mem_trace.2 (by rw [← hi]; exact he)
      rw [hrest] at hmem
      rcases List.mem_cons.1 hmem with heq | hmem
      · have hop : e.op = .loadFromFile := congrArg Sigma.fst heq
        rw [hop]
        nofun
      · have hop : e.op = .record (.error err) := congrArg Sigma.fst (List.mem_singleton.1 hmem)
        rw [hop]
        nofun
    · have hx : x = (some (lastGood first es₁), lastFailure es₁) := read_loader hr
      rw [hx, hnone]
      exact ⟨rfl, rfl⟩

/-- What the filter stages get. -/
def getterOf : Option Catalog × Option StageError → CatalogGetter
  | (_, some err) => .error err
  | (cat, none) => .ok cat

/-- **A `Get`** answers with the catalog of the last reload that has succeeded, and no error,
exactly if the last reload that has been recorded when it reads has not failed. A filter stage has
that catalog then, and otherwise none. -/
theorem get_iff {i : ι} {a : Option Catalog × Option StageError}
    (hr : Run loaderHandler Free (startLoader first jobs) es R) (hend : R.prog i = .pure (some a)) :
    ∃ es₁ x es₂, es = es₁ ++ ⟨i, .read, x⟩ :: es₂ ∧ (∀ e ∈ es₂, e.who = i → e.op ≠ .read) ∧
      (a = (some (lastGood first es₁), none) ↔ lastFailure es₁ = none) ∧
      loadedCatalog (some (getterOf a)) = if lastFailure es₁ = none then some (lastGood first es₁)
      else none := by
  obtain ⟨es₁, x, es₂, hes, hlast, ha⟩ := ended_get hr hend
  refine ⟨es₁, x, es₂, hes, hlast, ?_⟩
  rcases ha with rfl | ⟨hfailed, err, rfl⟩
  · refine ⟨⟨fun h => (Prod.mk.inj h).2, fun h => by rw [h]⟩, ?_⟩
    cases lastFailure es₁ with
    | none => rfl
    | some err => rfl
  · refine ⟨iff_of_false nofun hfailed, ?_⟩
    rw [if_neg hfailed]
    rfl

end Runs

section Examples

/-- A catalog that blocks a domain. -/
def exampleCatalog : Catalog := ⟨[⟨"videos", "Videos", [], ["videos.com"], []⟩]⟩

def badFile : Loaded := .error "yaml: line 1"

/-- A reload, and a `Get` after it. -/
def exampleJobs : Fin 2 → Job := fun i => if i = thread 0 then .start 1 else .get

/-- The file is bad, for the reload and for the `Get`. -/
def badSchedule : List (Fin 2 × Loaded) :=
  [(thread 0, badFile), (thread 0, badFile), (thread 1, badFile), (thread 1, badFile),
  (thread 1, badFile)]

theorem badSchedule_plays :
    (play loaderHandler Free badSchedule (startLoader exampleCatalog exampleJobs)).isSome := by
      decide

/-- The `Get` answers with an error, and the stages have no catalog. -/
theorem bad_file_inert :
    ∃ es R a, Run loaderHandler Free (startLoader exampleCatalog exampleJobs) es R ∧
    R.prog 1 = .pure (some a) ∧ a.2 ≠ none ∧ loadedCatalog (some (getterOf a)) = none :=
  ⟨_, _, (none, some "yaml: line 1"), run_play badSchedule_plays, rfl, nofun, rfl⟩

/-- The file is good again when the `Get` reloads it. -/
def repairedSchedule : List (Fin 2 × Loaded) :=
  [(thread 0, badFile), (thread 0, badFile), (thread 1, badFile),
  (thread 1, .ok exampleCatalog), (thread 1, badFile), (thread 1, badFile)]

theorem repairedSchedule_plays :
    (play loaderHandler Free repairedSchedule (startLoader exampleCatalog exampleJobs)).isSome := by
      decide

theorem get_iff_repaired : ∃ es₁ x es₂,
    ((play loaderHandler Free repairedSchedule (startLoader exampleCatalog exampleJobs)).get
      repairedSchedule_plays).1 =
      es₁ ++ ⟨1, .read, x⟩ :: es₂ ∧
    loadedCatalog (some (getterOf (some exampleCatalog, none))) =
      if lastFailure es₁ = none then some (lastGood exampleCatalog es₁) else none := by
  obtain ⟨es₁, x, es₂, hes, -, -, hcatalog⟩ :=
    get_iff (i := 1) (run_play repairedSchedule_plays) rfl
  exact ⟨es₁, x, es₂, hes, hcatalog⟩

end Examples

end ModDNS.Proxy.CatalogLoader
