import ModDNS.Conc.Prog

/-!
# Paths of a program

`Path p l q`: from `p`, the actions `l` (with their answers) lead to `q`. What a program
can do at all is read off its tree: `Only A p` says that it takes actions in `A` only.

* `path_bind`, `ends_bind`: the paths of a composition.
* `only_path`: every path of a program stays within its actions.
-/

namespace ModDNS.Conc

variable {S : Sig} {α β : Type}

inductive Path : Prog S α → List S.Act → Prog S α → Prop where
  | nil {p : Prog S α} : Path p [] p
  | cons {o : S.Op} {k : S.Res o → Prog S α} {r : S.Res o} {l : List S.Act} {q : Prog S α} :
      Path (k r) l q → Path (.call o k) (⟨o, r⟩ :: l) q

variable {l : List S.Act}

theorem path_nil {p q : Prog S α} (hp : Path p [] q) : q = p := by cases hp; rfl

theorem path_pure {a : α} {q : Prog S α} (hp : Path (.pure a) l q) : l = [] ∧ q = .pure a := by
  cases hp; exact ⟨rfl, rfl⟩

theorem path_call {o : S.Op} {k : S.Res o → Prog S α} {q : Prog S α} (hp : Path (.call o k) l q) :
    (l = [] ∧ q = .call o k) ∨ ∃ r l', l = ⟨o, r⟩ :: l' ∧ Path (k r) l' q := by
  cases hp with
  | nil => exact .inl ⟨rfl, rfl⟩
  | cons hp => exact .inr ⟨_, _, rfl, hp⟩

theorem path_op {o : S.Op} {f : S.Res o → Prog S β} {q : Prog S β}
    (hp : Path (Prog.op o >>= f) l q) :
    l = [] ∨ ∃ r l', l = ⟨o, r⟩ :: l' ∧ Path (f r) l' q :=
  (path_call hp).imp_left And.left

/-- A path through a composition ends in the first program, or goes through it. -/
theorem path_bind {p : Prog S α} {f : α → Prog S β} {q : Prog S β} (hp : Path (p.bind f) l q) :
    (∃ p', Path p l p' ∧ q = p'.bind f) ∨
      ∃ l₁ a l₂, l = l₁ ++ l₂ ∧ Path p l₁ (.pure a) ∧ Path (f a) l₂ q := by
  induction p generalizing l with
  | pure a => exact .inr ⟨[], a, l, rfl, .nil, hp⟩
  | call o k ih =>
    rcases path_call hp with ⟨rfl, rfl⟩ | ⟨r, l', rfl, hk⟩
    · exact .inl ⟨_, .nil, rfl⟩
    · rcases ih r hk with ⟨p', h1, h2⟩ | ⟨l₁, a, l₂, rfl, h1, h2⟩
      · exact .inl ⟨p', .cons h1, h2⟩
      · exact .inr ⟨_, a, l₂, rfl, .cons h1, h2⟩

theorem path_snoc {p q : Prog S α} {o : S.Op} {k : S.Res o → Prog S α} {r : S.Res o}
    (hp : Path p l q) (hq : q = .call o k) : Path p (l ++ [⟨o, r⟩]) (k r) := by
  induction hp with
  | nil => subst hq; exact .cons .nil
  | cons _ ih => exact .cons (ih hq)

/-- An execution is a path. -/
theorem exec_path {ι σ κ : Type} {h : Handler S ι σ κ} {i : ι} {p : Prog S α} {s s' : σ} {a : α}
    (he : Exec h i p s l a s') : Path p l (.pure a) := by
  induction p generalizing s l with
  | pure b =>
    obtain ⟨rfl, rfl, -⟩ := he
    exact .nil
  | call o k ih =>
    obtain ⟨c, r, s₁, l', -, rfl, hk⟩ := he
    exact .cons (ih r hk)

/-- The program ends with `a` after the actions `l`. -/
def Ends (p : Prog S α) (l : List S.Act) (a : α) : Prop := Path p l (.pure a)

theorem ends_pure {a b : α} (hp : Ends (.pure a) l b) : l = [] ∧ a = b := by
  obtain ⟨rfl, h⟩ := path_pure hp
  cases h
  exact ⟨rfl, rfl⟩

theorem ends_call {o : S.Op} {k : S.Res o → Prog S β} {b : β} (hp : Ends (.call o k) l b) :
    ∃ r l', l = ⟨o, r⟩ :: l' ∧ Ends (k r) l' b := by
  rcases path_call hp with ⟨-, h⟩ | h
  · cases h
  · exact h

theorem ends_op {o : S.Op} {f : S.Res o → Prog S β} {b : β} (hp : Ends (Prog.op o >>= f) l b) :
    ∃ r l', l = ⟨o, r⟩ :: l' ∧ Ends (f r) l' b := ends_call hp

theorem ends_bind {p : Prog S α} {f : α → Prog S β} {b : β} (hp : Ends (p.bind f) l b) :
    ∃ l₁ a l₂, l = l₁ ++ l₂ ∧ Ends p l₁ a ∧ Ends (f a) l₂ b := by
  rcases path_bind hp with ⟨p', h1, h2⟩ | h
  · cases p' with
    | pure a => exact ⟨l, a, [], by simp, h1, by rw [Ends, h2]; exact .nil⟩
    | call o k => cases h2
  · exact h

/-- The answers decide how a program ends. -/
theorem ends_unique {p : Prog S α} {l₁ l₂ : List S.Act} {a b : α} (h₁ : Ends p l₁ a)
    (h₂ : Ends p l₂ b) (hl₁ : l₁ <+: l) (hl₂ : l₂ <+: l) : l₁ = l₂ ∧ a = b := by
  induction p generalizing l l₁ l₂ with
  | pure c =>
    obtain ⟨rfl, rfl⟩ := ends_pure h₁
    obtain ⟨rfl, rfl⟩ := ends_pure h₂
    exact ⟨rfl, rfl⟩
  | call o k ih =>
    obtain ⟨r₁, m₁, rfl, hk₁⟩ := ends_call h₁
    obtain ⟨r₂, m₂, rfl, hk₂⟩ := ends_call h₂
    obtain ⟨t, rfl⟩ := hl₁
    rw [List.cons_append, List.cons_prefix_cons] at hl₂
    obtain ⟨hr, hm⟩ := hl₂
    cases hr
    obtain ⟨rfl, rfl⟩ := ih r₁ hk₁ hk₂ (List.prefix_append m₁ t) hm
    exact ⟨rfl, rfl⟩

/-- The actions, one after the other, take `s` to `s'`. -/
def Plays {ι σ κ : Type} (h : Handler S ι σ κ) (i : ι) : σ → List S.Act → σ → Prop
  | s, [], s' => s = s'
  | s, x :: l, s' => ∃ c s₁, h i x.1 c s = some (x.2, s₁) ∧ Plays h i s₁ l s'

/-- An execution is an end of the program, with actions that the state answers so. -/
theorem exec_iff {ι σ κ : Type} {h : Handler S ι σ κ} {i : ι} {p : Prog S α} {s s' : σ} {a : α} :
    Exec h i p s l a s' ↔ Ends p l a ∧ Plays h i s l s' := by
  induction p generalizing s l with
  | pure b =>
    constructor
    · rintro ⟨rfl, rfl, rfl⟩
      exact ⟨.nil, rfl⟩
    · rintro ⟨he, hs⟩
      obtain ⟨rfl, rfl⟩ := ends_pure he
      exact ⟨rfl, rfl, hs⟩
  | call o k ih =>
    constructor
    · rintro ⟨c, r, s₁, l', hc, rfl, hk⟩
      obtain ⟨he, hs⟩ := (ih r).1 hk
      exact ⟨.cons he, c, s₁, hc, hs⟩
    · rintro ⟨he, hs⟩
      obtain ⟨r, l', rfl, hk⟩ := ends_call he
      obtain ⟨c, s₁, hc, hs⟩ := hs
      exact ⟨c, r, s₁, l', hc, rfl, (ih r).2 ⟨hk, hs⟩⟩

theorem plays_append {ι σ κ : Type} {h : Handler S ι σ κ} {i : ι} {l₁ l₂ : List S.Act} {s s' : σ} :
    Plays h i s (l₁ ++ l₂) s' ↔ ∃ s₁, Plays h i s l₁ s₁ ∧ Plays h i s₁ l₂ s' := by
  induction l₁ generalizing s with
  | nil =>
    constructor
    · exact fun hs => ⟨s, rfl, hs⟩
    · rintro ⟨_, rfl, hs⟩
      exact hs
  | cons x l₁ ih =>
    constructor
    · rintro ⟨c, s₁, hc, hs⟩
      obtain ⟨s₂, h₁, h₂⟩ := ih.1 hs
      exact ⟨s₂, ⟨c, s₁, hc, h₁⟩, h₂⟩
    · rintro ⟨s₂, ⟨c, s₁, hc, h₁⟩, h₂⟩
      exact ⟨c, s₁, hc, ih.2 ⟨s₂, h₁, h₂⟩⟩

/-- The program takes actions in `A` only. -/
def Only (A : S.Op → Prop) : Prog S α → Prop
  | .pure _ => True
  | .call o k => A o ∧ ∀ r, Only A (k r)

variable {A : S.Op → Prop}

theorem only_any (p : Prog S α) (h : ∀ o, A o) : Only A p := by
  induction p with
  | pure a => trivial
  | call o k ih => exact ⟨h o, ih⟩

theorem only_op {o : S.Op} {f : S.Res o → Prog S β} (ho : A o) (hf : ∀ r, Only A (f r)) :
    Only A (Prog.op o >>= f) := ⟨ho, hf⟩

theorem only_bind {p : Prog S α} {f : α → Prog S β} (hp : Only A p) (hf : ∀ a, Only A (f a)) :
    Only A (p.bind f) := by
  induction p with
  | pure a => exact hf a
  | call o k ih => exact ⟨hp.1, fun r => ih r (hp.2 r)⟩

/-- The second program need stay within the actions only where the first one can end. -/
theorem only_bind_ends {p : Prog S α} {f : α → Prog S β} (hp : Only A p)
    (hf : ∀ l a, Ends p l a → Only A (f a)) :
    Only A (p.bind f) := by
  induction p with
  | pure a => exact hf [] a .nil
  | call o k ih => exact ⟨hp.1, fun r => ih r (hp.2 r) fun l a h => hf _ a (.cons h)⟩

theorem only_mono {B : S.Op → Prop} {p : Prog S α} (hAB : ∀ o, A o → B o) (hp : Only A p) :
    Only B p := by
  induction p with
  | pure a => trivial
  | call o k ih => exact ⟨hAB o hp.1, fun r => ih r (hp.2 r)⟩

/-- Every path stays within the actions of the program. -/
theorem only_path {p q : Prog S α} (hp : Only A p) (hl : Path p l q) : ∀ x ∈ l, A x.1 := by
  induction hl with
  | nil => simp
  | cons _ ih =>
    intro x hx
    rcases List.mem_cons.1 hx with rfl | hx
    · exact hp.1
    · exact ih (hp.2 _) x hx

/-- What is left of a program stays within its actions. -/
theorem only_left {p q : Prog S α} (hp : Only A p) (hl : Path p l q) : Only A q := by
  induction hl with
  | nil => exact hp
  | cons _ ih => exact ih (hp.2 _)

end ModDNS.Conc
