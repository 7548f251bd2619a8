import ModDNS.Conc.Flow

/-!
# Programs with fewer actions

A program over some of the actions of a signature is one over all of them.

* `only_lift`, `ends_lift`: the actions and the ends of a lifted program are those of the program.
* `Erases`: one program is the other one but for some actions that have no part in its result.
* `exec_erases`: its executions are those of the other one, seen without these actions.
-/

namespace ModDNS.Conc

variable {S T : Sig} {α : Type} (f : S.Op → T.Op) (g : ∀ o, T.Res (f o) → S.Res o)

/-- The same program, with each action `o` taken as `f o`. -/
def Prog.lift : Prog S α → Prog T α
  | .pure a => .pure a
  | .call o k => .call (f o) fun r => (k (g o r)).lift

variable {f g} {p : Prog S α}

theorem only_lift {A : T.Op → Prop} (h : Only (fun o => A (f o)) p) : Only A (p.lift f g) := by
  induction p with
  | pure a => trivial
  | call o k ih => exact ⟨h.1, fun r => ih _ (h.2 _)⟩

/-- The actions of a lifted program, and those of the program itself. -/
theorem ends_lift {l : List T.Act} {a : α} (h : Ends (p.lift f g) l a) :
    ∃ xs : List ((o : S.Op) × T.Res (f o)), l = xs.map (fun x => ⟨f x.1, x.2⟩) ∧
      Ends p (xs.map fun x => ⟨x.1, g x.1 x.2⟩) a := by
  induction p generalizing l with
  | pure b =>
    obtain ⟨rfl, rfl⟩ := ends_pure h
    exact ⟨[], rfl, .nil⟩
  | call o k ih =>
    obtain ⟨r, l', rfl, hk⟩ := ends_call h
    obtain ⟨xs, rfl, hend⟩ := ih _ hk
    exact ⟨⟨o, r⟩ :: xs, rfl, .cons hend⟩

section Erases

variable {β : Type} {keep : T.Act → Option S.Act}

/-- A program that ends like `q` does: `keep` says which of its actions are those of `q`. -/
def Erases (keep : T.Act → Option S.Act) (p : Prog T α) (q : Prog S α) : Prop :=
  ∀ l a, Ends p l a → Ends q (l.filterMap keep) a

theorem ends_trans {p : Prog S α} {f : α → Prog S β} {l₁ l₂ : List S.Act} {a : α} {b : β}
    (hp : Ends p l₁ a) (hf : Ends (f a) l₂ b) : Ends (p.bind f) (l₁ ++ l₂) b := by
  induction p generalizing l₁ with
  | pure c =>
    obtain ⟨rfl, rfl⟩ := ends_pure hp
    exact hf
  | call o k ih =>
    obtain ⟨r, l', rfl, hk⟩ := ends_call hp
    exact .cons (ih r hk)

theorem erases_pure (a : α) : Erases keep (.pure a) (.pure a) := by
  intro l b h
  obtain ⟨rfl, rfl⟩ := ends_pure h
  exact .nil

theorem erases_bind {p : Prog T α} {q : Prog S α} {f : α → Prog T β} {g : α → Prog S β}
    (hp : Erases keep p q) (hf : ∀ a, Erases keep (f a) (g a)) :
    Erases keep (p.bind f) (q.bind g) := by
  intro l b h
  obtain ⟨l₁, a, l₂, rfl, h₁, h₂⟩ := ends_bind h
  rw [List.filterMap_append]
  exact ends_trans (hp l₁ a h₁) (hf a l₂ b h₂)

/-- A part without actions of `q`, that always ends with the same value. -/
theorem erases_silent {p : Prog T α} {q : Prog S β} {f : α → Prog T β} {a : α}
    (hp : ∀ l b, Ends p l b → l.filterMap keep = [] ∧ b = a) (hf : Erases keep (f a) q) :
    Erases keep (p.bind f) q := by
  intro l b h
  obtain ⟨l₁, a', l₂, rfl, h₁, h₂⟩ := ends_bind h
  obtain ⟨hl, rfl⟩ := hp l₁ a' h₁
  rw [List.filterMap_append, hl, List.nil_append]
  exact hf l₂ b h₂

theorem erases_lift {p : Prog S α} (hkeep : ∀ o (r : T.Res (f o)), keep ⟨f o, r⟩ =
    some ⟨o, g o r⟩) :
    Erases keep (p.lift f g) p := by
  intro l a h
  obtain ⟨xs, rfl, hend⟩ := ends_lift h
  have hcomp : keep ∘ (fun x : (o : S.Op) × T.Res (f o) => (⟨f x.1, x.2⟩ : T.Act)) = some ∘ fun x =>
    ⟨x.1, g x.1 x.2⟩ :=
    funext fun x => hkeep x.1 x.2
  rw [List.filterMap_map, hcomp, List.filterMap_eq_map]
  exact hend

variable {ι σ σ' κ κ' : Type} {h : Handler T ι σ κ} {h' : Handler S ι σ' κ'} {i : ι} {view : σ → σ'}

/-- An execution of a program, seen as one of the program that it is but for some actions: what
these do is out of sight. -/
theorem exec_erases {p : Prog T α} {q : Prog S α} {l : List T.Act} {s s' : σ} {a : α}
    (hpq : Erases keep p q) (hkeep : ∀ s s₁ c x y, h i x.1 c s = some (x.2, s₁) → keep x = some y →
      ∃ c', h' i y.1 c' (view s) = some (y.2, view s₁))
    (hdrop : ∀ s s₁ c x, h i x.1 c s = some (x.2, s₁) → keep x = none → view s₁ = view s)
    (he : Exec h i p s l a s') : Exec h' i q (view s) (l.filterMap keep) a (view s') := by
  obtain ⟨hends, hplays⟩ := exec_iff.1 he
  refine exec_iff.2 ⟨hpq l a hends, ?_⟩
  clear hends he hpq
  induction l generalizing s with
  | nil => exact congrArg view hplays
  | cons x l ih =>
    obtain ⟨c, s₁, hc, hrest⟩ := hplays
    cases hx : keep x with
    | none =>
      rw [List.filterMap_cons_none hx, ← hdrop s s₁ c x hc hx]
      exact ih hrest
    | some y =>
      rw [List.filterMap_cons_some hx]
      obtain ⟨c', hc'⟩ := hkeep s s₁ c x y hc hx
      exact ⟨c', view s₁, hc', ih hrest⟩

end Erases

end ModDNS.Conc
