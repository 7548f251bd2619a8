import Mathlib.Logic.Function.Basic
import Mathlib.Data.List.Basic

/-!
# Programs over atomic actions

A program of a shared-state system is a tree: it ends with a value, or takes one
atomic action and goes on with the answer. `Sig` is the set of actions, `Handler`
says what an action does to the shared state. What one action does may depend on
a choice of the environment (a clock reading, a random value, a store failure).

`Exec` runs one program alone. Interleavings of many programs are in `Pool`.
-/

namespace ModDNS.Conc

/-- A signature of atomic actions: each action has the type of its answer. -/
structure Sig where
  Op : Type
  Res : Op → Type

/-- A program that takes the actions of `S` and ends with an `α`. -/
inductive Prog (S : Sig) (α : Type) where
  | pure (a : α)
  | call (o : S.Op) (k : S.Res o → Prog S α)

variable {S : Sig} {ι σ κ α β γ ε : Type}

/-- Sequential composition. -/
def Prog.bind : Prog S α → (α → Prog S β) → Prog S β
  | .pure a, f => f a
  | .call o k, f => .call o fun r => (k r).bind f

instance : Monad (Prog S) where
  pure := .pure
  bind := .bind

/-- The program that takes one action and ends with its answer. -/
def Prog.op (o : S.Op) : Prog S (S.Res o) := .call o .pure

/-- The value of a program that has ended. -/
def Prog.result : Prog S α → Option α
  | .pure a => some a
  | .call _ _ => none

theorem Prog.result_eq_some {p : Prog S α} {a : α} : p.result = some a ↔ p = .pure a := by
  cases p <;> simp [result]

@[simp] theorem Prog.pure_bind' (a : α) (f : α → Prog S β) : Prog.bind (.pure a) f = f a := rfl

@[simp] theorem Prog.call_bind (o : S.Op) (k : S.Res o → Prog S α) (f : α → Prog S β) :
    Prog.bind (.call o k) f = .call o fun r => (k r).bind f := rfl

theorem Prog.pure_def (a : α) : (pure a : Prog S α) = .pure a := rfl

theorem Prog.bind_pure' (p : Prog S α) : p.bind .pure = p := by
  induction p with
  | pure a => rfl
  | call o k ih => simp only [Prog.bind, ih]

theorem Prog.bind_assoc' (p : Prog S α) (f : α → Prog S β) (g : β → Prog S γ) :
    (p.bind f).bind g = p.bind fun a => (f a).bind g := by
  induction p with
  | pure a => rfl
  | call o k ih => simp only [Prog.bind, ih]

instance : LawfulMonad (Prog S) :=
  LawfulMonad.mk' _ (fun p => Prog.bind_pure' p) (fun _ _ => rfl) fun p f g =>
    Prog.bind_assoc' p f g

/-- What an action does: `h i o c s` is the answer to action `o` of thread `i` in
state `s` under the environment's choice `c`, with the new state; `none` where the
environment cannot make that choice. -/
abbrev Handler (S : Sig) (ι σ κ : Type) := ι → (o : S.Op) → κ → σ → Option (S.Res o × σ)

variable {h : Handler S ι σ κ} {i : ι}

/-- An action with its answer. -/
abbrev Sig.Act (S : Sig) := (o : S.Op) × S.Res o

/-- `Exec h i p s l a s'`: run alone by thread `i`, `p` can take `s` to `s'` by the actions
`l` and end with `a`. -/
def Exec (h : Handler S ι σ κ) (i : ι) : Prog S α → σ → List S.Act → α → σ → Prop
  | .pure a, s, l, b, s' => l = [] ∧ a = b ∧ s = s'
  | .call o k, s, l, b, s' =>
    ∃ c r s₁ l', h i o c s = some (r, s₁) ∧ l = ⟨o, r⟩ :: l' ∧ Exec h i (k r) s₁ l' b s'

variable {l : List S.Act}

theorem exec_bind {p : Prog S α} {f : α → Prog S β} {s s' : σ} {b : β} :
    Exec h i (p.bind f) s l b s' ↔
      ∃ l₁ l₂ a s₁, l = l₁ ++ l₂ ∧ Exec h i p s l₁ a s₁ ∧ Exec h i (f a) s₁ l₂ b s' := by
  induction p generalizing s l with
  | pure a =>
    constructor
    · intro hf; exact ⟨[], l, a, s, rfl, ⟨rfl, rfl, rfl⟩, hf⟩
    · rintro ⟨_, _, _, _, rfl, ⟨rfl, rfl, rfl⟩, hf⟩; exact hf
  | call o k ih =>
    constructor
    · rintro ⟨c, r, s₁, l', hc, rfl, hk⟩
      obtain ⟨l₁, l₂, a, s₂, rfl, hp, hf⟩ := (ih r).1 hk
      exact ⟨_, l₂, a, s₂, rfl, ⟨c, r, s₁, l₁, hc, rfl, hp⟩, hf⟩
    · rintro ⟨_, l₂, a, s₂, rfl, ⟨c, r, s₁, l₁, hc, rfl, hp⟩, hf⟩
      exact ⟨c, r, s₁, l₁ ++ l₂, hc, rfl, (ih r).2 ⟨l₁, l₂, a, s₂, rfl, hp, hf⟩⟩

/-- The execution under a list of choices, one for each action. -/
def Prog.exec (h : Handler S ι σ κ) (i : ι) : Prog S α → List κ → σ → Option (List S.Act × α × σ)
  | .pure a, [], s => some ([], a, s)
  | .call o k, c :: cs, s => do
    let (r, s₁) ← h i o c s
    let (l, b, s') ← (k r).exec h i cs s₁
    return (⟨o, r⟩ :: l, b, s')
  | _, _, _ => none

theorem exec_of_choices {p : Prog S α} {cs : List κ} {s s' : σ} {a : α}
    (hp : p.exec h i cs s = some (l, a, s')) :
    Exec h i p s l a s' := by
  induction p generalizing cs s l with
  | pure b =>
    cases cs with
    | nil => cases hp; exact ⟨rfl, rfl, rfl⟩
    | cons c cs => cases hp
  | call o k ih =>
    cases cs with
    | nil => cases hp
    | cons c cs =>
      simp only [Prog.exec, Option.bind_eq_bind, Option.bind_eq_some_iff, Option.pure_def,
        Option.some.injEq,
        Prod.mk.injEq, Prod.exists] at hp
      obtain ⟨r, s₁, hc, l', b, s₂, hk, rfl, rfl, rfl⟩ := hp
      exact ⟨c, r, s₁, l', hc, rfl, ih r hk⟩

end ModDNS.Conc
