import ModDNS.Conc.Pool

/-!
# What a program does along its own history

`Meets A Q p l`: after the actions `l`, the program `p` takes only actions that `A` allows at
their moment, whatever the answers, and ends in `Q`. `A` sees the answers so far, so that it can
say what the program has to know before it acts.

* `meets_bind`: the sequential rule.
* `run_meets`, `run_ind_meets`: in a run, every thread still meets what its program met.
-/

namespace ModDNS.Conc

variable {S : Sig} {α β : Type}

def Meets (A : List S.Act → S.Op → Prop) (Q : List S.Act → α → Prop) : Prog S α → List S.Act → Prop
  | .pure a, l => Q l a
  | .call o k, l => A l o ∧ ∀ r, Meets A Q (k r) (l ++ [⟨o, r⟩])

variable {A : List S.Act → S.Op → Prop} {Q : List S.Act → α → Prop} {l : List S.Act}

theorem meets_op {o : S.Op} {Q : List S.Act → S.Res o → Prop} (ho : A l o)
    (hQ : ∀ r, Q (l ++ [⟨o, r⟩]) r) : Meets A Q (Prog.op o) l := ⟨ho, hQ⟩

/-- What has been met at the end may be weakened; the history has only grown. -/
theorem meets_mono {Q' : List S.Act → α → Prop} {p : Prog S α} (hp : Meets A Q p l)
    (hQ : ∀ l' a, l <+: l' → Q l' a → Q' l' a) : Meets A Q' p l := by
  induction p generalizing l with
  | pure a => exact hQ l a (List.prefix_refl l) hp
  | call o k ih =>
    refine ⟨hp.1, fun r => ih r (hp.2 r) fun l' a hl => ?_⟩
    exact hQ l' a ((List.prefix_append _ _).trans hl)

/-- **Sequential rule.** -/
theorem meets_bind {Q' : List S.Act → β → Prop} {p : Prog S α} {f : α → Prog S β}
    (hp : Meets A Q p l) (hf : ∀ l' a, l <+: l' → Q l' a → Meets A Q' (f a) l') :
    Meets A Q' (p.bind f) l := by
  induction p generalizing l with
  | pure a => exact hf l a (List.prefix_refl l) hp
  | call o k ih =>
    refine ⟨hp.1, fun r => ih r (hp.2 r) fun l' a hl => ?_⟩
    exact hf l' a ((List.prefix_append _ _).trans hl)

theorem meets_and {Q' : List S.Act → α → Prop} {p : Prog S α} (hp : Meets A Q p l)
    (hp' : Meets A Q' p l) :
    Meets A (fun l a => Q l a ∧ Q' l a) p l := by
  induction p generalizing l with
  | pure a => exact ⟨hp, hp'⟩
  | call o k ih => exact ⟨hp.1, fun r => ih r (hp.2 r) (hp'.2 r)⟩

/-- What is kept by every action of the program. -/
theorem meets_only {B : S.Op → Prop} {I : List S.Act → Prop} {p : Prog S α} (hp : Meets A Q p l)
    (hB : Only B p) (hl : I l) (hI : ∀ l o r, I l → B o → I (l ++ [⟨o, r⟩])) :
    Meets A (fun l _ => I l) p l := by
  induction p generalizing l with
  | pure a => exact hl
  | call o k ih => exact ⟨hp.1, fun r => ih r (hp.2 r) (hB.2 r) (hI l o r hl hB.1)⟩

/-- A program whose actions are allowed whatever its history since `l`, and that is judged by its
end. -/
theorem meets_of_only {B : S.Op → Prop} {p : Prog S α} (hB : Only B p)
    (hA : ∀ l' o, l <+: l' → B o → A l' o) (hQ : ∀ l' a, Ends p l' a → Q (l ++ l') a) :
    Meets A Q p l := by
  induction p generalizing l with
  | pure a =>
    have hend := hQ [] a .nil
    rwa [List.append_nil] at hend
  | call o k ih =>
    refine ⟨hA l o (List.prefix_refl l) hB.1, fun r => ih r (hB.2 r) (fun l' o' hl => ?_)
      fun l' a hend => ?_⟩
    · exact hA l' o' ((List.prefix_append _ _).trans hl)
    · rw [← List.append_cons]
      exact hQ _ a (.cons hend)

/-- A program whose actions are allowed after any of its own. -/
theorem meets_within {B : S.Op → Prop} {p : Prog S α} (hB : Only B p)
    (hA : ∀ l' o, (∀ x ∈ l', B x.1) → B o → A (l ++ l') o)
    (hQ : ∀ l' a, (∀ x ∈ l', B x.1) → Ends p l' a → Q (l ++ l') a) : Meets A Q p l := by
  induction p generalizing l with
  | pure a =>
    have hend := hQ [] a (List.forall_mem_nil _) .nil
    rwa [List.append_nil] at hend
  | call o k ih =>
    have hhere := hA [] o (List.forall_mem_nil _) hB.1
    rw [List.append_nil] at hhere
    refine ⟨hhere, fun r => ih r (hB.2 r) (fun l' o' hl' ho' => ?_) fun l' a hl' hend => ?_⟩
    · rw [← List.append_cons]
      exact hA _ o' (List.forall_mem_cons.2 ⟨hB.1, hl'⟩) ho'
    · rw [← List.append_cons]
      exact hQ _ a (List.forall_mem_cons.2 ⟨hB.1, hl'⟩) (.cons hend)

/-- What the program met at the end of a path. -/
theorem meets_path {p : Prog S α} {l' : List S.Act} {a : α} (hp : Meets A Q p l)
    (hl : Path p l' (.pure a)) :
    Q (l ++ l') a := by
  induction p generalizing l l' with
  | pure b =>
    obtain ⟨rfl, h⟩ := path_pure hl
    cases h
    rw [List.append_nil]
    exact hp
  | call o k ih =>
    rcases path_call hl with ⟨-, h⟩ | ⟨r, l', rfl, hk⟩
    · cases h
    · rw [List.append_cons]
      exact ih r (hp.2 r) hk

/-- What the program met when it took an action of a path. -/
theorem meets_mid {p q : Prog S α} {l₁ l₂ : List S.Act} {x : S.Act} (hp : Meets A Q p l)
    (hl : Path p (l₁ ++ x :: l₂) q) :
    A (l ++ l₁) x.1 := by
  induction l₁ generalizing p l with
  | nil =>
    rw [List.append_nil]
    cases hl with
    | cons _ => exact hp.1
  | cons y l₁ ih =>
    cases hl with
    | cons hk =>
      rw [List.append_cons]
      exact ih (hp.2 _) hk

/-- What the program met at the end of an execution. -/
theorem meets_exec {ι σ κ : Type} {h : Handler S ι σ κ} {i : ι} {p : Prog S α} {s s' : σ}
    {l' : List S.Act} {a : α} (hp : Meets A Q p l) (he : Exec h i p s l' a s') : Q (l ++ l') a :=
    meets_path hp (exec_path he)

section Runs

variable {ι σ κ : Type} [DecidableEq ι] {h : Handler S ι σ κ} {ok : σ → Event S ι → Prop}
  {P R : Pool S ι σ α} {es : List (Event S ι)} {A : ι → List S.Act → S.Op → Prop}
  {Q : ι → List S.Act → α → Prop}

theorem run_meets (h0 : ∀ i, Meets (A i) (Q i) (P.prog i) []) (hr : Run h ok P es R) :
    ∀ i, Meets (A i) (Q i) (R.prog i) (trace i es) := by
  induction hr with
  | nil => exact h0
  | snoc _ _ hs ih =>
    intro j
    cases hs with
    | @mk i o k c r s hp hc =>
      rw [trace_append]
      by_cases hij : i = j
      · subst hij
        have hi := ih i
        rw [hp] at hi
        simpa [trace] using hi.2 r
      · rw [Pool.set_ne _ (Ne.symm hij)]
        simpa [trace, hij] using ih j

/-- **Run rule.** What holds at the start and is kept by every step that meets what the programs
meet holds after every run. -/
theorem run_ind_meets {I : List (Event S ι) → Pool S ι σ α → Prop}
    (h0 : ∀ i, Meets (A i) (Q i) (P.prog i) []) (hI : I [] P)
    (hstep : ∀ es R e R', Run h ok P es R → I es R → A e.who (trace e.who es) e.op → ok R.state e →
      Step h R e R' → I (es ++ [e]) R')
    (hr : Run h ok P es R) : I es R := by
  induction hr with
  | nil => exact hI
  | @snoc es R R' e hr hok hs ih =>
    refine hstep _ _ _ _ hr ih ?_ hok hs
    have hm := run_meets h0 hr e.who
    obtain ⟨k, c, s, hp, -, -⟩ := step_iff.1 hs
    rw [hp] at hm
    exact hm.1

/-- What the program of a thread met when it took the action of an event. -/
theorem run_met_mid {es₁ es₂ : List (Event S ι)} {e : Event S ι}
    (h0 : ∀ i, Meets (A i) (Q i) (P.prog i) []) (hr : Run h ok P (es₁ ++ e :: es₂) R) :
    A e.who (trace e.who es₁) e.op := by
  obtain ⟨R₁, R₂, h1, -, hs, -⟩ := run_mid hr
  have hm := run_meets h0 h1 e.who
  obtain ⟨k, c, s, hp, -, -⟩ := step_iff.1 hs
  rw [hp] at hm
  exact hm.1

/-- What the program of a thread met when it took one of the actions of a run. -/
theorem run_met {e : Event S ι} {n : ℕ} (h0 : ∀ i, Meets (A i) (Q i) (P.prog i) [])
    (hr : Run h ok P es R) (hn : es[n]? = some e) : A e.who (trace e.who (es.take n)) e.op := by
  obtain ⟨R₁, R₂, h1, -, hs, -⟩ := run_at hr hn
  have hm := run_meets h0 h1 e.who
  obtain ⟨k, c, s, hp, -, -⟩ := step_iff.1 hs
  rw [hp] at hm
  exact hm.1

/-- What the program of a thread that has ended met. -/
theorem run_ended {i : ι} {a : α} (h0 : ∀ i, Meets (A i) (Q i) (P.prog i) []) (hr : Run h ok P es R)
    (hi : R.prog i = .pure a) : Q i (trace i es) a := by
  have hm := run_meets h0 hr i
  rw [hi] at hm
  exact hm

end Runs

end ModDNS.Conc
