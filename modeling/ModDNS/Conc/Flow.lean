import ModDNS.Conc.Meets

/-!
# Flows

A flow is a program whose actions may fail and that ends at once with an error when one does,
unless it says otherwise: `if err != nil { return err }`.

`Does A Q p l` is `Meets` for flows. Its rules are about the answers that are no errors. A flow that
ends without an error has had no error from the calls that have to succeed.
-/

namespace ModDNS.Conc

/-- Calls that answer a value or an error. -/
structure Calls where
  Op : Type
  Ans : Op → Type
  Err : Type
  /-- The calls whose failures a flow does not pass over. -/
  must : Op → Bool

abbrev Calls.sig (C : Calls) : Sig := ⟨C.Op, fun o => Except C.Err (C.Ans o)⟩

abbrev Flow (C : Calls) (α : Type) := ExceptT C.Err (Prog C.sig) α

variable {C : Calls} {α β : Type}

def act (o : C.Op) : Flow C (C.Ans o) := ExceptT.mk (Prog.op (S := C.sig) o)

/-- Goes on if `c` holds, and fails with `e` if not. -/
def ensure (c : Prop) [Decidable c] (e : C.Err) : Flow C Unit := if c then pure () else throw e

/-- The result of a flow, errors included. -/
def attempt (p : Flow C α) : Flow C (Except C.Err α) :=
  ExceptT.mk (p.run.bind fun r => .pure (.ok r))

theorem run_bind (p : Flow C α) (f : α → Flow C β) :
    (p >>= f).run = p.run.bind fun r => match r with
      | .ok a => (f a).run
      | .error e => .pure (.error e) := by
  simp only [ExceptT.run_bind]
  show Prog.bind _ _ = _
  congr 1
  funext r
  cases r <;> rfl

section Meets

/-- No call that has to succeed has failed. -/
def Clean (l : List C.sig.Act) : Prop := ∀ x ∈ l, C.must x.1 = true → ∃ a, x.2 = .ok a

variable {A : List C.sig.Act → C.Op → Prop} {Q : List C.sig.Act → α → Prop} {l : List C.sig.Act}

theorem Clean.ok {o : C.Op} {a : C.Ans o} (h : Clean l) : Clean (l ++ [⟨o, .ok a⟩]) := by
  intro x hx hm
  rcases List.mem_append.1 hx with hx | hx
  · exact h x hx hm
  · rw [List.mem_singleton.1 hx]; exact ⟨a, rfl⟩

theorem Clean.passed {o : C.Op} {r : Except C.Err (C.Ans o)} (h : Clean l) (ho : C.must o = false) :
    Clean (l ++ [⟨o, r⟩]) := by
  intro x hx hm
  rcases List.mem_append.1 hx with hx | hx
  · exact h x hx hm
  · rw [List.mem_singleton.1 hx, ho] at hm; cases hm

/-- `Meets` for a flow: `Q` is about its end without an error. -/
def Does (A : List C.sig.Act → C.Op → Prop) (Q : List C.sig.Act → α → Prop) (p : Flow C α)
    (l : List C.sig.Act) : Prop :=
  Clean l → Meets (S := C.sig) A (fun l r => ∀ a, r = .ok a → Clean l ∧ Q l a) p.run l

theorem does_pure {a : α} (hQ : Q l a) : Does A Q (pure a) l := by
  rintro hl b ⟨⟩
  exact ⟨hl, hQ⟩

theorem does_throw {e : C.Err} : Does A Q (throw e) l := by
  rintro - b ⟨⟩

theorem does_act (o : C.Op) {Q : List C.sig.Act → C.Ans o → Prop} (ho : A l o)
    (hQ : ∀ a, Q (l ++ [⟨o, .ok a⟩]) a) : Does A Q (act o) l := by
  intro hl
  refine meets_op ho ?_
  rintro r a rfl
  exact ⟨hl.ok, hQ a⟩

theorem does_ensure {c : Prop} [Decidable c] {e : C.Err} {Q : List C.sig.Act → Unit → Prop}
    (hQ : c → Q l ()) :
    Does A Q (ensure c e) l := by
  unfold ensure
  split
  · exact does_pure (hQ ‹c›)
  · exact does_throw

theorem does_bind {Q' : List C.sig.Act → β → Prop} {p : Flow C α} {f : α → Flow C β}
    (hp : Does A Q p l) (hf : ∀ l' a, l <+: l' → Q l' a → Does A Q' (f a) l') :
    Does A Q' (p >>= f) l := by
  intro hl
  rw [run_bind]
  refine meets_bind (hp hl) fun l' r hpre hQ => ?_
  cases r with
  | ok a =>
    obtain ⟨hl', hq⟩ := hQ a rfl
    exact hf l' a hpre hq hl'
  | error e => exact nofun

theorem does_act_bind {o : C.Op} {f : C.Ans o → Flow C α} (ho : A l o)
    (hf : ∀ a, Does A Q (f a) (l ++ [⟨o, .ok a⟩])) : Does A Q (act o >>= f) l := by
  intro hl
  refine ⟨ho, fun r => ?_⟩
  cases r with
  | ok a => exact hf a hl.ok
  | error e => exact nofun

theorem does_ensure_bind {c : Prop} [Decidable c] {e : C.Err} {f : Unit → Flow C α}
    (hf : c → Does A Q (f ()) l) :
    Does A Q (ensure c e >>= f) l := by
  unfold ensure
  split
  · exact hf ‹c›
  · exact does_throw

/-- A call whose failure may be passed over. -/
theorem does_attempt_bind {o : C.Op} {f : Except C.Err (C.Ans o) → Flow C α}
    (hm : C.must o = false) (ho : A l o) (hf : ∀ r, Does A Q (f r) (l ++ [⟨o, r⟩])) :
    Does A Q (attempt (act o) >>= f) l :=
  fun hl => ⟨ho, fun r => hf r (hl.passed hm)⟩

/-- A call whose failure is turned into another one. -/
theorem does_attempt_throw {o : C.Op} {f : Except C.Err (C.Ans o) → Flow C α} (ho : A l o)
    (hok : ∀ a, Does A Q (f (.ok a)) (l ++ [⟨o, .ok a⟩]))
    (herr : ∀ e, ∃ e', f (.error e) = throw e') :
    Does A Q (attempt (act o) >>= f) l := by
  refine fun hl => ⟨ho, fun r => ?_⟩
  cases r with
  | ok a => exact hok a hl.ok
  | error e =>
    obtain ⟨e', he'⟩ := herr e
    show Meets A _ (f (.error e)).run _
    rw [he']
    exact nofun

theorem does_mono {Q' : List C.sig.Act → α → Prop} {p : Flow C α} (hp : Does A Q p l)
    (hQ : ∀ l' a, l <+: l' → Q l' a → Q' l' a) : Does A Q' p l :=
  fun hl => meets_mono (hp hl) fun l' _ hpre hq a ha => ⟨(hq a ha).1, hQ l' a hpre (hq a ha).2⟩

/-- A flow whose failure may be passed over. -/
theorem does_attempt {p : Flow C α} {Q' : List C.sig.Act → Except C.Err α → Prop}
    (hp : Does A Q p l) (hm : Only (fun o => C.must o = false) p.run)
    (hok : ∀ l' a, l <+: l' → Q l' a → Q' l' (.ok a)) (herr : ∀ l' e, l <+: l' → Q' l' (.error e)) :
    Does A Q' (attempt p) l := by
  intro hl
  have hclean : Meets (S := C.sig) A (fun l _ => Clean l) p.run l :=
    meets_only (hp hl) hm hl fun l o r hl hm => hl.passed hm
  refine meets_bind (meets_and (hp hl) hclean) fun l' r hpre hq => ?_
  rintro r' ⟨⟩
  refine ⟨hq.2, ?_⟩
  cases r with
  | ok a => exact hok l' a hpre (hq.1 a rfl).2
  | error e => exact herr l' e hpre

theorem does_run {p : Flow C α} (hp : Does A Q p []) :
    Meets (S := C.sig) A (fun l r => ∀ a, r = .ok a → Clean l ∧ Q l a) p.run [] :=
      hp (List.forall_mem_nil _)

end Meets

-- the rules above are all there is to know about it
attribute [irreducible] Does

section Follows

variable {A : List C.sig.Act → C.Op → Prop} {Q : List C.sig.Act → Except C.Err α → Prop}
  {l : List C.sig.Act}

/-- `Meets` for a flow, with a `Q` that is about both kinds of ends. -/
def Follows (A : List C.sig.Act → C.Op → Prop) (Q : List C.sig.Act → Except C.Err α → Prop)
    (p : Flow C α) (l : List C.sig.Act) : Prop :=
  Meets (S := C.sig) A Q p.run l

theorem follows_pure {a : α} (hQ : Q l (.ok a)) : Follows A Q (pure a) l := hQ

theorem follows_throw {e : C.Err} (hQ : Q l (.error e)) : Follows A Q (throw e) l := hQ

theorem follows_act {o : C.Op} {Q : List C.sig.Act → Except C.Err (C.Ans o) → Prop} (ho : A l o)
    (hQ : ∀ r, Q (l ++ [⟨o, r⟩]) r) : Follows A Q (act o) l := meets_op ho hQ

theorem follows_act_bind {o : C.Op} {f : C.Ans o → Flow C α} (ho : A l o)
    (herr : ∀ e, Q (l ++ [⟨o, .error e⟩]) (.error e))
    (hf : ∀ a, Follows A Q (f a) (l ++ [⟨o, .ok a⟩])) :
    Follows A Q (act o >>= f) l := by
  refine ⟨ho, fun r => ?_⟩
  cases r with
  | ok a => exact hf a
  | error e => exact herr e

theorem follows_attempt_bind {p : Flow C β} {Q' : List C.sig.Act → Except C.Err β → Prop}
    {f : Except C.Err β → Flow C α} (hp : Follows A Q' p l)
    (hf : ∀ l' r, l <+: l' → Q' l' r → Follows A Q (f r) l') :
    Follows A Q (attempt p >>= f) l := by
  have hrun : (attempt p >>= f).run = p.run.bind fun x => (f x).run := by
    rw [run_bind]
    exact Prog.bind_assoc' ..
  unfold Follows
  rw [hrun]
  exact meets_bind hp hf

/-- A call whose failure may be passed over. -/
theorem follows_attempt_act_bind {o : C.Op} {f : Except C.Err (C.Ans o) → Flow C α} (ho : A l o)
    (hf : ∀ r, Follows A Q (f r) (l ++ [⟨o, r⟩])) :
    Follows A Q (attempt (act o) >>= f) l := ⟨ho, hf⟩

theorem follows_ensure_bind {c : Prop} [Decidable c] {e : C.Err} {f : Unit → Flow C α}
    (herr : ¬ c → Q l (.error e)) (hf : c → Follows A Q (f ()) l) :
    Follows A Q (ensure c e >>= f) l := by
  unfold ensure
  split
  · exact hf ‹c›
  · exact herr ‹¬ c›

theorem follows_bind {Q' : List C.sig.Act → Except C.Err β → Prop} {p : Flow C α} {f : α → Flow C β}
    (hp : Follows A Q p l) (herr : ∀ l' e, l <+: l' → Q l' (.error e) → Q' l' (.error e))
    (hf : ∀ l' a, l <+: l' → Q l' (.ok a) → Follows A Q' (f a) l') : Follows A Q' (p >>= f) l := by
  unfold Follows
  rw [run_bind]
  refine meets_bind hp fun l' r hl hq => ?_
  cases r with
  | ok a => exact hf l' a hl hq
  | error e => exact herr l' e hl hq

theorem follows_run {p : Flow C α} (hp : Follows A Q p l) : Meets (S := C.sig) A Q p.run l := hp

theorem follows_mono {Q' : List C.sig.Act → Except C.Err α → Prop} {p : Flow C α}
    (hp : Follows A Q p l) (hQ : ∀ l' r, l <+: l' → Q l' r → Q' l' r) : Follows A Q' p l :=
    meets_mono hp hQ

end Follows

section Yields

variable {Q : List C.sig.Act → Except C.Err α → Prop} {l : List C.sig.Act}

/-- The flow ends in `Q`, errors included, whatever the answers. -/
def Yields (Q : List C.sig.Act → Except C.Err α → Prop) (p : Flow C α) (l : List C.sig.Act) :
    Prop :=
  Meets (S := C.sig) (fun _ _ => True) Q p.run l

theorem yields_pure {a : α} (hQ : Q l (.ok a)) : Yields Q (pure a) l := hQ

theorem yields_throw {e : C.Err} (hQ : Q l (.error e)) : Yields Q (throw e) l := hQ

theorem yields_act_bind {o : C.Op} {f : C.Ans o → Flow C α}
    (herr : ∀ e, Q (l ++ [⟨o, .error e⟩]) (.error e))
    (hf : ∀ a, Yields Q (f a) (l ++ [⟨o, .ok a⟩])) : Yields Q (act o >>= f) l :=
    follows_act_bind trivial herr hf

theorem yields_attempt_bind {o : C.Op} {f : Except C.Err (C.Ans o) → Flow C α}
    (hf : ∀ r, Yields Q (f r) (l ++ [⟨o, r⟩])) : Yields Q (attempt (act o) >>= f) l := ⟨trivial, hf⟩

theorem yields_ensure_bind {c : Prop} [Decidable c] {e : C.Err} {f : Unit → Flow C α}
    (herr : ¬ c → Q l (.error e)) (hf : c → Yields Q (f ()) l) : Yields Q (ensure c e >>= f) l :=
    follows_ensure_bind herr hf

theorem yields_bind {Q' : List C.sig.Act → Except C.Err β → Prop} {p : Flow C α} {f : α → Flow C β}
    (hp : Yields Q p l) (herr : ∀ l' e, l <+: l' → Q l' (.error e) → Q' l' (.error e))
    (hf : ∀ l' a, l <+: l' → Q l' (.ok a) → Yields Q' (f a) l') : Yields Q' (p >>= f) l :=
    follows_bind hp herr hf

end Yields

section Within

/-- The flow makes calls in `A` only. -/
def Within (A : C.Op → Prop) (p : Flow C α) : Prop := Only (S := C.sig) A p.run

variable {A : C.Op → Prop}

theorem within_pure {a : α} : Within A (pure a : Flow C α) := trivial

theorem within_throw {e : C.Err} : Within A (throw e : Flow C α) := trivial

theorem within_act {o : C.Op} (ho : A o) : Within A (act o : Flow C (C.Ans o)) :=
  ⟨ho, fun _ => trivial⟩

theorem within_bind {p : Flow C α} {f : α → Flow C β} (hp : Within A p) (hf : ∀ a, Within A (f a)) :
    Within A (p >>= f) := by
  unfold Within
  rw [run_bind]
  refine only_bind hp fun r => ?_
  cases r with
  | ok a => exact hf a
  | error e => trivial

theorem within_bind_ends {p : Flow C α} {f : α → Flow C β} (hp : Within A p)
    (hf : ∀ l a, Ends p.run l (.ok a) → Within A (f a)) : Within A (p >>= f) := by
  unfold Within
  rw [run_bind]
  refine only_bind_ends hp fun l r hr => ?_
  cases r with
  | ok a => exact hf l a hr
  | error e => trivial

theorem within_mono {B : C.Op → Prop} {p : Flow C α} (hAB : ∀ o, A o → B o) (hp : Within A p) :
    Within B p :=
  only_mono hAB hp

theorem within_ensure {c : Prop} [Decidable c] {e : C.Err} :
    Within A (ensure c e : Flow C Unit) := by
  unfold ensure
  split <;> trivial

theorem within_ite {c : Prop} [Decidable c] {p q : Flow C α} (hp : Within A p) (hq : Within A q) :
    Within A (if c then p else q) := by
  split
  · exact hp
  · exact hq

theorem within_attempt {p : Flow C α} (hp : Within A p) : Within A (attempt p) :=
  only_bind hp fun _ => trivial

/-- A flow whose calls are allowed whatever its history since `l`, and that is judged by its end. -/
theorem follows_of_only {A : List C.sig.Act → C.Op → Prop} {B : C.Op → Prop}
    {Q : List C.sig.Act → Except C.Err α → Prop} {l : List C.sig.Act} {p : Flow C α}
    (hB : Within B p)
    (hA : ∀ l' o, l <+: l' → B o → A l' o) (hQ : ∀ l' r, Ends p.run l' r → Q (l ++ l') r) :
    Follows A Q p l :=
  meets_of_only hB hA hQ

/-- A flow whose calls are allowed after any of its own. -/
theorem follows_within {A : List C.sig.Act → C.Op → Prop} {B : C.Op → Prop}
    {Q : List C.sig.Act → Except C.Err α → Prop} {l : List C.sig.Act} {p : Flow C α}
    (hB : Within B p)
    (hA : ∀ l' o, (∀ x ∈ l', B x.1) → B o → A (l ++ l') o)
    (hQ : ∀ l' r, (∀ x ∈ l', B x.1) → Ends p.run l' r → Q (l ++ l') r) : Follows A Q p l :=
    meets_within hB hA hQ

theorem within_iff {p : Flow C α} : Within A p ↔ Only (S := C.sig) A p.run := Iff.rfl

/-- Every path of a flow stays within its calls. -/
theorem within_path {p : Flow C α} {q : Prog C.sig (Except C.Err α)} {l : List C.sig.Act}
    (hp : Within A p) (hl : Path (S := C.sig) p.run l q) : ∀ x ∈ l, A x.1 := only_path hp hl

end Within

-- the rules above are all there is to know about them
attribute [irreducible] Follows Within

section Ends

/-! How a flow ended: at an error, or past it. -/

variable {l : List C.sig.Act} {f : α → Flow C β} {r : Except C.Err β}

theorem ends_flow_pure {a : α} {r : Except C.Err α} (h : Ends (pure a : Flow C α).run l r) :
    l = [] ∧ r = .ok a := by
  obtain ⟨rfl, rfl⟩ := ends_pure h
  exact ⟨rfl, rfl⟩

theorem ends_throw {e : C.Err} {r : Except C.Err α} (h : Ends (throw e : Flow C α).run l r) :
    l = [] ∧ r = .error e := by
  obtain ⟨rfl, rfl⟩ := ends_pure h
  exact ⟨rfl, rfl⟩

theorem ends_act {o : C.Op} {r : Except C.Err (C.Ans o)}
    (h : Ends (act o : Flow C (C.Ans o)).run l r) :
    l = [⟨o, r⟩] := by
  obtain ⟨r', l', rfl, hend⟩ := ends_call h
  obtain ⟨rfl, rfl⟩ := ends_pure hend
  rfl

theorem ends_act_bind {o : C.Op} {f : C.Ans o → Flow C β} (h : Ends (act o >>= f).run l r) :
    (∃ e, l = [⟨o, .error e⟩] ∧ r = .error e) ∨ ∃ a l', l = ⟨o, .ok a⟩ :: l' ∧
      Ends (f a).run l' r := by
  obtain ⟨x, l', rfl, hnext⟩ := ends_call h
  cases x with
  | error e =>
    obtain ⟨rfl, rfl⟩ := ends_pure hnext
    exact .inl ⟨e, rfl, rfl⟩
  | ok a => exact .inr ⟨a, l', rfl, hnext⟩

theorem ends_flow_bind {p : Flow C α} (h : Ends (p >>= f).run l r) :
    (∃ e, Ends p.run l (.error e) ∧ r = .error e) ∨
      ∃ l₁ l₂ a, l = l₁ ++ l₂ ∧ Ends p.run l₁ (.ok a) ∧ Ends (f a).run l₂ r := by
  rw [run_bind] at h
  obtain ⟨l₁, x, l₂, rfl, hp, hf⟩ := ends_bind h
  cases x with
  | error e =>
    obtain ⟨rfl, rfl⟩ := ends_pure hf
    rw [List.append_nil]
    exact .inl ⟨e, hp, rfl⟩
  | ok a => exact .inr ⟨l₁, l₂, a, rfl, hp, hf⟩

/-- The parts of a flow that has ended without an error have done so as well. -/
theorem ends_act_bind_ok {o : C.Op} {f : C.Ans o → Flow C β} {b : β}
    (h : Ends (act o >>= f).run l (.ok b)) :
    ∃ a l', l = ⟨o, .ok a⟩ :: l' ∧ Ends (f a).run l' (.ok b) := by
  obtain ⟨e, -, he⟩ | h := ends_act_bind h
  · cases he
  · exact h

theorem ends_flow_bind_ok {p : Flow C α} {b : β} (h : Ends (p >>= f).run l (.ok b)) :
    ∃ l₁ l₂ a, l = l₁ ++ l₂ ∧ Ends p.run l₁ (.ok a) ∧ Ends (f a).run l₂ (.ok b) := by
  obtain ⟨e, -, he⟩ | h := ends_flow_bind h
  · cases he
  · exact h

theorem ends_ensure_bind {c : Prop} [Decidable c] {e : C.Err} {f : Unit → Flow C β}
    (h : Ends (ensure c e >>= f).run l r) :
    (¬ c ∧ l = [] ∧ r = .error e) ∨ (c ∧ Ends (f ()).run l r) := by
  unfold ensure at h
  split at h
  · exact .inr ⟨‹c›, h⟩
  · obtain ⟨rfl, rfl⟩ := ends_pure h
    exact .inl ⟨‹¬ c›, rfl, rfl⟩

theorem run_attempt_bind (p : Flow C α) (f : Except C.Err α → Flow C β) :
    (attempt p >>= f).run = p.run.bind fun x => (f x).run := by
  rw [run_bind]
  exact Prog.bind_assoc' ..

theorem ends_attempt_bind {p : Flow C α} {f : Except C.Err α → Flow C β}
    (h : Ends (attempt p >>= f).run l r) :
    ∃ l₁ l₂ x, l = l₁ ++ l₂ ∧ Ends p.run l₁ x ∧ Ends (f x).run l₂ r := by
  rw [run_attempt_bind] at h
  obtain ⟨l₁, x, l₂, rfl, hp, hf⟩ := ends_bind h
  exact ⟨l₁, l₂, x, rfl, hp, hf⟩

end Ends

end ModDNS.Conc
