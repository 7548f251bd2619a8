import Mathlib.Data.List.Induction
import ModDNS.Conc.Path

/-!
# Interleaved runs

A pool is a shared state with one program per thread. `Run h ok P es Q`: some
interleaving takes the pool `P` to `Q`, its actions being the events `es`, in order,
each of them fired in a state where `ok` allows it. `Free` allows everything, so
`Run h Free` is every interleaving.

* `run_ind`: what holds at the start and is kept by every step holds at the end.
* `run_path`: every thread follows a path of its program.
* `play`: the interleaving named by a schedule (`run_of_play`).
-/

namespace ModDNS.Conc

/-- One action of a run: who took it, and how it was answered. -/
structure Event (S : Sig) (ι : Type) where
  who : ι
  op : S.Op
  res : S.Res op

/-- A shared state with one program per thread. -/
structure Pool (S : Sig) (ι σ α : Type) where
  state : σ
  prog : ι → Prog S α

variable {S : Sig} {ι σ κ α : Type} [DecidableEq ι] {h : Handler S ι σ κ}

/-- The pool after thread `i` went on with `p` in the state `s`. -/
def Pool.set (P : Pool S ι σ α) (i : ι) (p : Prog S α) (s : σ) : Pool S ι σ α :=
  ⟨s, Function.update P.prog i p⟩

@[simp] theorem Pool.set_state (P : Pool S ι σ α) (i : ι) (p : Prog S α) (s : σ) :
    (P.set i p s).state = s := rfl

@[simp] theorem Pool.set_self (P : Pool S ι σ α) (i : ι) (p : Prog S α) (s : σ) :
    (P.set i p s).prog i = p := by simp [Pool.set]

theorem Pool.set_ne (P : Pool S ι σ α) {i j : ι} (hij : j ≠ i) (p : Prog S α) (s : σ) :
    (P.set i p s).prog j = P.prog j := by simp [Pool.set, hij]

/-- One step: a thread takes its next action. -/
inductive Step (h : Handler S ι σ κ) : Pool S ι σ α → Event S ι → Pool S ι σ α → Prop where
  | mk {P : Pool S ι σ α} {i : ι} {o : S.Op} {k : S.Res o → Prog S α} {c : κ} {r : S.Res o} {s : σ}
      (hp : P.prog i = .call o k) (hc : h i o c P.state = some (r, s)) :
      Step h P ⟨i, o, r⟩ (P.set i (k r) s)

theorem step_iff {P Q : Pool S ι σ α} {e : Event S ι} :
    Step h P e Q ↔ ∃ k c s, P.prog e.who = .call e.op k ∧ h e.who e.op c P.state = some (e.res, s) ∧
      Q = P.set e.who (k e.res) s := by
  constructor
  · rintro ⟨hp, hc⟩
    exact ⟨_, _, _, hp, hc, rfl⟩
  · rintro ⟨k, c, s, hp, hc, rfl⟩
    exact .mk hp hc

/-- Every step is allowed. -/
def Free : σ → Event S ι → Prop := fun _ _ => True

/-- The interleaved runs whose steps are all allowed by `ok`. -/
inductive Run (h : Handler S ι σ κ) (ok : σ → Event S ι → Prop) (P : Pool S ι σ α) :
    List (Event S ι) → Pool S ι σ α → Prop where
  | nil : Run h ok P [] P
  | snoc {es : List (Event S ι)} {Q R : Pool S ι σ α} {e : Event S ι} :
      Run h ok P es Q → ok Q.state e → Step h Q e R → Run h ok P (es ++ [e]) R

variable {ok : σ → Event S ι → Prop} {P Q R : Pool S ι σ α} {es : List (Event S ι)}

/-- **Run rule.** A property of the events so far and the pool that holds at the
start and is kept by every allowed step holds after every run. -/
theorem run_ind {I : List (Event S ι) → Pool S ι σ α → Prop} (h0 : I [] P)
    (hstep : ∀ es Q e R, I es Q → ok Q.state e → Step h Q e R → I (es ++ [e]) R)
    (hr : Run h ok P es Q) : I es Q := by
  induction hr with
  | nil => exact h0
  | snoc _ hok hs ih => exact hstep _ _ _ _ ih hok hs

theorem run_mono {ok' : σ → Event S ι → Prop} (hok : ∀ s e, ok s e → ok' s e)
    (hr : Run h ok P es Q) : Run h ok' P es Q := by
  induction hr with
  | nil => exact .nil
  | snoc _ h1 hs ih => exact .snoc ih (hok _ _ h1) hs

theorem run_free (hr : Run h ok P es Q) : Run h Free P es Q := run_mono (fun _ _ _ => trivial) hr

theorem run_trans {es' : List (Event S ι)} (h1 : Run h ok P es Q) (h2 : Run h ok Q es' R) :
    Run h ok P (es ++ es') R := by
  induction h2 with
  | nil => simpa using h1
  | snoc _ hok hs ih => rw [← List.append_assoc]; exact .snoc ih hok hs

/-- The last step of a run. -/
theorem run_last {e : Event S ι} (hr : Run h ok P (es ++ [e]) R) :
    ∃ Q, Run h ok P es Q ∧ ok Q.state e ∧ Step h Q e R := by
  generalize hl : es ++ [e] = l at hr
  cases hr with
  | nil => simp at hl
  | snoc hq hok hs =>
    obtain ⟨rfl, he⟩ := List.append_inj' hl rfl
    cases he
    exact ⟨_, hq, hok, hs⟩

/-- A run can be cut at any point of its events. -/
theorem run_split {es' : List (Event S ι)} (hr : Run h ok P (es ++ es') R) :
    ∃ Q, Run h ok P es Q ∧ Run h ok Q es' R := by
  induction es' using List.reverseRecOn generalizing R with
  | nil => exact ⟨R, by simpa using hr, .nil⟩
  | append_singleton es' e ih =>
    rw [← List.append_assoc] at hr
    obtain ⟨Q, hq, hok, hs⟩ := run_last hr
    obtain ⟨Q', h1, h2⟩ := ih hq
    exact ⟨Q', h1, .snoc h2 hok hs⟩

/-- A run around one event of it. -/
theorem run_mid {e : Event S ι} {es' : List (Event S ι)} (hr : Run h ok P (es ++ e :: es') R) :
    ∃ Q Q', Run h ok P es Q ∧ ok Q.state e ∧ Step h Q e Q' ∧ Run h ok Q' es' R := by
  rw [List.append_cons] at hr
  obtain ⟨Q', h1, h2⟩ := run_split hr
  obtain ⟨Q, h3, hok, hs⟩ := run_last h1
  exact ⟨Q, Q', h3, hok, hs, h2⟩

/-- **Run rule, with the past.** Where a condition `C` on the events holds of every beginning of
them, a property that every step within `C` keeps, if it has held all along, holds all along. -/
theorem run_past {C I : List (Event S ι) → Prop}
    (hC : ∀ es₁ es₂, C (es₁ ++ es₂) → C es₁) (h0 : I [])
    (hstep : ∀ es e R, Run h ok P (es ++ [e]) R → C (es ++ [e]) → (∀ es₁, es₁ <+: es → I es₁) →
      I (es ++ [e]))
    (hr : Run h ok P es R) (hc : C es) : ∀ es₁, es₁ <+: es → I es₁ := by
  induction hr with
  | nil =>
    intro es₁ hes
    rw [List.prefix_nil.1 hes]
    exact h0
  | @snoc es Q R e hq hok hs ih =>
    have hpast := ih (hC es [e] hc)
    intro es₁ hes
    rcases List.prefix_concat_iff.1 hes with rfl | hes
    · exact hstep es e R (hq.snoc hok hs) hc hpast
    · exact hpast es₁ hes

/-- A run up to some event of it. -/
theorem run_at {e : Event S ι} {n : ℕ} (hr : Run h ok P es R) (hn : es[n]? = some e) :
    ∃ Q Q', Run h ok P (es.take n) Q ∧ ok Q.state e ∧ Step h Q e Q' ∧
      Run h ok Q' (es.drop (n + 1)) R := by
  obtain ⟨hlt, rfl⟩ := List.getElem?_eq_some_iff.1 hn
  apply run_mid
  simpa using hr

/-- Every event of a run was allowed, in some state. -/
theorem run_ok {e : Event S ι} (hr : Run h ok P es R) (he : e ∈ es) : ∃ s, ok s e := by
  obtain ⟨es₁, es₂, rfl⟩ := List.append_of_mem he
  obtain ⟨Q, -, -, hok, -⟩ := run_mid hr
  exact ⟨Q.state, hok⟩

/-- The actions of thread `i` among the events. -/
def trace (i : ι) (es : List (Event S ι)) : List ((o : S.Op) × S.Res o) :=
  es.filterMap fun e => if e.who = i then some ⟨e.op, e.res⟩ else none

/-- An element that is the only one of its kind splits a list in one way. -/
theorem split_unique {β : Type} {K : β → Prop} {l₁ l₂ m₁ m₂ : List β} {x y : β}
    (heq : l₁ ++ x :: l₂ = m₁ ++ y :: m₂) (hx : K x) (h₁ : ∀ z ∈ m₁, ¬ K z) (h₂ : ∀ z ∈ m₂, ¬ K z) :
    l₁ = m₁ ∧ x = y ∧ l₂ = m₂ := by
  rcases List.append_eq_append_iff.1 heq with ⟨t, rfl, ht⟩ | ⟨t, rfl, ht⟩
  · cases t with
    | nil => simpa using ht
    | cons z t =>
      obtain ⟨rfl, -⟩ := List.cons.inj ht
      exact absurd hx (h₁ x (by simp))
  · cases t with
    | nil => simpa [eq_comm] using ht
    | cons z t =>
      obtain ⟨rfl, rfl⟩ := List.cons.inj ht
      exact absurd hx (h₂ x (by simp))

/-- Two elements of a list are the same, or one comes before the other. -/
theorem mem_before {β : Type} {l : List β} {x y : β} (hx : x ∈ l) (hy : y ∈ l) :
    x = y ∨ (∃ l₁ l₂ l₃, l = l₁ ++ x :: (l₂ ++ y :: l₃)) ∨
      ∃ l₁ l₂ l₃, l = l₁ ++ y :: (l₂ ++ x :: l₃) := by
  obtain ⟨l₁, l₂, rfl⟩ := List.append_of_mem hx
  rcases List.mem_append.1 hy with hy | hy
  · obtain ⟨l₀, l₃, rfl⟩ := List.append_of_mem hy
    exact .inr (.inr ⟨l₀, l₃, l₂, by simp⟩)
  · rcases List.mem_cons.1 hy with rfl | hy
    · exact .inl rfl
    · obtain ⟨l₀, l₃, rfl⟩ := List.append_of_mem hy
      exact .inr (.inl ⟨l₁, l₀, l₃, rfl⟩)

theorem mem_trace {i : ι} {a : (o : S.Op) × S.Res o} :
    a ∈ trace i es ↔ (⟨i, a.1, a.2⟩ : Event S ι) ∈ es := by
  simp only [trace, List.mem_filterMap, Option.ite_none_right_eq_some, Option.some.injEq]
  constructor
  · rintro ⟨e, he, rfl, rfl⟩; exact he
  · intro h; exact ⟨_, h, rfl, rfl⟩

theorem trace_append {i : ι} {es es' : List (Event S ι)} :
    trace i (es ++ es') = trace i es ++ trace i es' := List.filterMap_append ..

theorem trace_cons {i : ι} {e : Event S ι} {es : List (Event S ι)} :
    trace i (e :: es) = trace i [e] ++ trace i es := by
  rw [← trace_append, List.singleton_append]

/-- The events around an action of a thread. -/
theorem trace_split {i : ι} {l₁ l₂ : List S.Act} {x : S.Act} (h : trace i es = l₁ ++ x :: l₂) :
    ∃ es₁ es₂, es = es₁ ++ ⟨i, x.1, x.2⟩ :: es₂ ∧ trace i es₁ = l₁ ∧ trace i es₂ = l₂ := by
  obtain ⟨es₁, es', rfl, h₁, h'⟩ := List.filterMap_eq_append_iff.1 h
  obtain ⟨es₀, e, es₂, rfl, h₀, he, h₂⟩ := List.filterMap_eq_cons_iff.1 h'
  refine ⟨es₁ ++ es₀, es₂, ?_, ?_, h₂⟩
  · split at he
    · rename_i hi
      cases he
      subst hi
      simp
    · cases he
  · rw [trace_append]
    have hnil : trace i es₀ = [] := List.filterMap_eq_nil_iff.2 h₀
    rw [hnil, List.append_nil]
    exact h₁

@[simp] theorem trace_cons_self {i : ι} {o : S.Op} {r : S.Res o} {es : List (Event S ι)} :
    trace i (⟨i, o, r⟩ :: es) = ⟨o, r⟩ :: trace i es := by simp [trace]

/-- In a run, every thread follows a path of its program. -/
theorem run_path (hr : Run h ok P es Q) (i : ι) : Path (P.prog i) (trace i es) (Q.prog i) := by
  induction hr with
  | nil => exact .nil
  | snoc _ _ hs ih =>
    cases hs with
    | @mk j o k c r s hp hc =>
      rw [trace, List.filterMap_append, ← trace]
      by_cases hij : j = i
      · subst hij
        simpa using path_snoc ih hp
      · rw [Pool.set_ne _ (Ne.symm hij)]
        simpa [hij] using ih

/-- A program that is run alone, as a run of the pool. -/
theorem run_exec {i : ι} {p : Prog S α} {s' : σ} {l : List S.Act} {a : α} (hp : P.prog i = p)
    (he : Exec h i p P.state l a s') :
    Run h Free P (l.map fun x => ⟨i, x.1, x.2⟩) (P.set i (.pure a) s') := by
  induction p generalizing P l with
  | pure b =>
    obtain ⟨rfl, rfl, rfl⟩ := he
    have hsame : P.set i (.pure b) P.state = P := by
      unfold Pool.set
      rw [← hp, Function.update_eq_self]
    rw [hsame]
    exact .nil
  | call o k ih =>
    obtain ⟨c, r, s₁, l', hc, rfl, hk⟩ := he
    have hfirst : Run h Free P [⟨i, o, r⟩] (P.set i (k r) s₁) := .snoc .nil trivial (.mk hp hc)
    have hrest := ih r (Pool.set_self P i (k r) s₁) hk
    have hset : (P.set i (k r) s₁).set i (.pure a) s' = P.set i (.pure a) s' := by
      unfold Pool.set
      rw [Function.update_idem]
    rw [hset] at hrest
    exact run_trans hfirst hrest

theorem trace_map {i : ι} {l : List S.Act} :
    trace i (l.map fun x => (⟨i, x.1, x.2⟩ : Event S ι)) = l := by
  induction l with
  | nil => rfl
  | cons x l ih =>
    rw [List.map_cons, trace_cons_self, ih]

/-- The steps of a run are within the actions of the programs. -/
theorem run_only {A : S.Op → Prop} (hA : ∀ i, Only A (P.prog i)) (hr : Run h ok P es Q) :
    Run h (fun s e => A e.op ∧ ok s e) P es Q := by
  induction hr with
  | nil => exact .nil
  | @snoc es Q R e hq hok hs ih =>
    refine .snoc ih ⟨?_, hok⟩ hs
    obtain ⟨k, c, s, hp, -, -⟩ := step_iff.1 hs
    have hpath := path_snoc (r := e.res) (run_path hq e.who) hp
    exact only_path (hA e.who) hpath ⟨e.op, e.res⟩ (by simp)

omit [DecidableEq ι] in
/-- One thread after the other: nothing comes between two events of a thread. -/
def Sequential (es : List (Event S ι)) : Prop :=
  ∀ es₁ x es₂ y es₃ z es₄, es = es₁ ++ x :: (es₂ ++ y :: (es₃ ++ z :: es₄)) →
  x.who = z.who → y.who = x.who

omit [DecidableEq ι] in
theorem Sequential.left {es es' : List (Event S ι)} (h : Sequential (es ++ es')) :
    Sequential es := by
  rintro es₁ x es₂ y es₃ z es₄ rfl
  exact h es₁ x es₂ y es₃ z (es₄ ++ es') (by simp)

omit [DecidableEq ι] in
/-- All that has come between is the thread's own. -/
theorem Sequential.own {x z : Event S ι} {es₁ es₂ : List (Event S ι)}
    (h : Sequential (es₁ ++ x :: (es₂ ++ [z]))) (hx : x.who = z.who) :
    ∀ y ∈ es₂, y.who = z.who := by
  intro y hy
  obtain ⟨es₃, es₄, rfl⟩ := List.append_of_mem hy
  rw [← hx]
  exact h es₁ x es₃ y es₄ z [] (by simp) hx

section Refine

variable {τ κ' : Type}

/-- The pool as it is seen in a part of its state. -/
def Pool.map (f : σ → τ) (P : Pool S ι σ α) : Pool S ι τ α := ⟨f P.state, P.prog⟩

/-- **Refinement rule.** A run is a run of another handler in a part of its state, if each of its
actions is one there. -/
theorem run_refine {h' : Handler S ι τ κ'} {f : σ → τ}
    (hf : ∀ i o c s r s', h i o c s = some (r, s') → ∃ c', h' i o c' (f s) = some (r, f s'))
    (hr : Run h Free P es Q) : Run h' Free (P.map f) es (Q.map f) := by
  induction hr with
  | nil => exact .nil
  | @snoc es Q R e _ _ hs ih =>
    obtain ⟨k, c, s, hp, hc, rfl⟩ := step_iff.1 hs
    obtain ⟨c', hc'⟩ := hf _ _ _ _ _ _ hc
    exact .snoc ih trivial (step_iff.2 ⟨k, c', f s, hp, hc', rfl⟩)

end Refine

section Play

variable (h : Handler S ι σ κ) (ok : σ → Event S ι → Prop) [∀ s e, Decidable (ok s e)]

/-- Thread `i` takes its next action under the choice `c`, if that is allowed. -/
def fire (P : Pool S ι σ α) (i : ι) (c : κ) : Option (Event S ι × Pool S ι σ α) :=
  match P.prog i with
  | .pure _ => none
  | .call o k => (h i o c P.state).bind fun (r, s) =>
    if ok P.state ⟨i, o, r⟩ then some (⟨i, o, r⟩, P.set i (k r) s) else none

/-- A thread of a pool of a few, by its number. -/
def thread {n : ℕ} (i : ℕ) : Fin (n + 1) := Fin.ofNat (n + 1) i

/-- The run of a schedule: which thread moves next, and the choice it gets. -/
def play : List (ι × κ) → Pool S ι σ α → Option (List (Event S ι) × Pool S ι σ α)
  | [], P => some ([], P)
  | (i, c) :: l, P => do
    let (e, Q) ← fire h ok P i c
    let (es, R) ← play l Q
    return (e :: es, R)

instance (s : σ) (e : Event S ι) : Decidable (Free s e) := .isTrue trivial

variable {h ok}

theorem step_of_fire {i : ι} {c : κ} {e : Event S ι} (hf : fire h ok P i c = some (e, Q)) :
    ok P.state e ∧ Step h P e Q := by
  unfold fire at hf
  split at hf
  · cases hf
  · rename_i o k hp
    obtain ⟨⟨r, s⟩, hc, hq⟩ := Option.bind_eq_some_iff.1 hf
    simp only [Option.ite_none_right_eq_some, Option.some.injEq, Prod.mk.injEq] at hq
    obtain ⟨hok, rfl, rfl⟩ := hq
    exact ⟨hok, .mk hp hc⟩

/-- A schedule that plays is a run. -/
theorem run_of_play {l : List (ι × κ)} (hp : play h ok l P = some (es, Q)) : Run h ok P es Q := by
  induction l generalizing P es with
  | nil => cases hp; exact .nil
  | cons x l ih =>
    obtain ⟨i, c⟩ := x
    simp only [play, Option.bind_eq_bind, Option.bind_eq_some_iff, Option.pure_def,
      Option.some.injEq,
      Prod.mk.injEq, Prod.exists] at hp
    obtain ⟨e, Q', hf, es', R, hl, rfl, rfl⟩ := hp
    obtain ⟨hok, hst⟩ := step_of_fire hf
    exact run_trans (.snoc .nil hok hst) (ih hl)

/-- The run of a schedule that plays. -/
theorem run_play {l : List (ι × κ)} (hp : (play h ok l P).isSome) :
    Run h ok P ((play h ok l P).get hp).1 ((play h ok l P).get hp).2 :=
  run_of_play (Option.some_get hp).symm

end Play

end ModDNS.Conc
