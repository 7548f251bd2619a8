import ModDNS.Conc.Flow

/-!
# Pre- and postconditions

`Triple h i P p Q`: run alone from a state in `P`, the flow `p` ends in `Q`, if it ends. `Q` is
about its result, which may be an error, and about the state. `Lands` is the case of a flow whose
errors all leave the state in one `I`.
-/

namespace ModDNS.Conc

variable {C : Calls} {ι σ κ α β : Type} {h : Handler C.sig ι σ κ} {i : ι} {P P' I : σ → Prop}
  {p : Flow C α} {f : α → Flow C β}

def Triple (h : Handler C.sig ι σ κ) (i : ι) (P : σ → Prop) (p : Flow C α)
    (Q : Except C.Err α → σ → Prop) : Prop :=
  ∀ s l r s', P s → Exec h i p.run s l r s' → Q r s'

theorem exec_act {o : C.Op} {r : Except C.Err (C.Ans o)} {s s' : σ} {l : List C.sig.Act} :
    Exec h i (act o : Flow C (C.Ans o)).run s l r s' ↔ (∃ c, h i o c s = some (r, s')) ∧
      l = [⟨o, r⟩] := by
  constructor
  · rintro ⟨c, r', s₁, l', hc, rfl, rfl, rfl, rfl⟩
    exact ⟨⟨c, hc⟩, rfl⟩
  · rintro ⟨⟨c, hc⟩, rfl⟩
    exact ⟨c, r, s', [], hc, rfl, rfl, rfl, rfl⟩

/-- An execution of two flows ends with the error of the first one, or goes through both. -/
theorem exec_flow_bind {s s' : σ} {l : List C.sig.Act} {r : Except C.Err β} :
    Exec h i (p >>= f).run s l r s' ↔ (∃ e, Exec h i p.run s l (.error e) s' ∧ r = .error e) ∨
      ∃ l₁ l₂ a s₁, l = l₁ ++ l₂ ∧ Exec h i p.run s l₁ (.ok a) s₁ ∧
        Exec h i (f a).run s₁ l₂ r s' := by
  rw [run_bind, exec_bind]
  constructor
  · rintro ⟨l₁, l₂, x, s₁, rfl, h₁, h₂⟩
    cases x with
    | error e =>
      obtain ⟨rfl, rfl, rfl⟩ := h₂
      exact .inl ⟨e, by rwa [List.append_nil], rfl⟩
    | ok a => exact .inr ⟨l₁, l₂, a, s₁, rfl, h₁, h₂⟩
  · rintro (⟨e, h₁, rfl⟩ | ⟨l₁, l₂, a, s₁, rfl, h₁, h₂⟩)
    · exact ⟨l, [], .error e, s', (List.append_nil l).symm, h₁, rfl, rfl, rfl⟩
    · exact ⟨l₁, l₂, .ok a, s₁, rfl, h₁, h₂⟩

/-- An execution goes on after a flow whose error may be passed over. -/
theorem exec_attempt_bind {f : Except C.Err α → Flow C β} {s s' : σ} {l : List C.sig.Act}
    {r : Except C.Err β} (hexec : Exec h i (attempt p >>= f).run s l r s') :
    ∃ l₁ l₂ x s₁, l = l₁ ++ l₂ ∧ Exec h i p.run s l₁ x s₁ ∧ Exec h i (f x).run s₁ l₂ r s' := by
  have hrun : (attempt p >>= f).run = p.run.bind fun x => (f x).run := by
    rw [run_bind]
    exact Prog.bind_assoc' ..
  rw [hrun] at hexec
  exact exec_bind.1 hexec

section Rules

variable {Q R : Except C.Err α → σ → Prop} {Q' : Except C.Err β → σ → Prop}

theorem triple_pure {a : α} (hQ : ∀ s, P s → Q (.ok a) s) : Triple h i P (pure a) Q := by
  rintro s l r s' hP ⟨-, rfl, rfl⟩
  exact hQ s hP

theorem triple_throw {e : C.Err} (hQ : ∀ s, P s → Q (.error e) s) : Triple h i P (throw e) Q := by
  rintro s l r s' hP ⟨-, rfl, rfl⟩
  exact hQ s hP

theorem triple_act {o : C.Op} {Q : Except C.Err (C.Ans o) → σ → Prop}
    (hQ : ∀ s c r s', P s → h i o c s = some (r, s') → Q r s') : Triple h i P (act o) Q := by
  intro s l r s' hP hexec
  obtain ⟨⟨c, hc⟩, -⟩ := exec_act.1 hexec
  exact hQ s c r s' hP hc

/-- The second flow need meet its end only where the first one can end. -/
theorem triple_bind_ends (hp : Triple h i P p R) (herr : ∀ e s, R (.error e) s → Q' (.error e) s)
    (hf : ∀ l a, Ends p.run l (.ok a) → Triple h i (R (.ok a)) (f a) Q') :
    Triple h i P (p >>= f) Q' := by
  intro s l r s' hP hexec
  obtain ⟨e, h₁, rfl⟩ | ⟨l₁, l₂, a, s₁, rfl, h₁, h₂⟩ := exec_flow_bind.1 hexec
  · exact herr e s' (hp s l _ s' hP h₁)
  · exact hf l₁ a (exec_path h₁) s₁ l₂ r s' (hp s l₁ _ s₁ hP h₁) h₂

theorem triple_bind (hp : Triple h i P p R) (herr : ∀ e s, R (.error e) s → Q' (.error e) s)
    (hf : ∀ a, Triple h i (R (.ok a)) (f a) Q') : Triple h i P (p >>= f) Q' :=
  triple_bind_ends hp herr fun _ a _ => hf a

theorem triple_ensure {c : Prop} [Decidable c] {e : C.Err} {Q : Except C.Err Unit → σ → Prop}
    (herr : ∀ s, P s → Q (.error e) s) (hQ : c → ∀ s, P s → Q (.ok ()) s) :
    Triple h i P (ensure c e) Q := by
  unfold ensure
  split
  · exact triple_pure (hQ ‹c›)
  · exact triple_throw herr

theorem triple_ensure_bind {c : Prop} [Decidable c] {e : C.Err} {f : Unit → Flow C β}
    (herr : ∀ s, P s → Q' (.error e) s) (hf : c → Triple h i P (f ()) Q') :
    Triple h i P (ensure c e >>= f) Q' := by
  unfold ensure
  split
  · exact hf ‹c›
  · exact triple_throw herr

/-- A flow whose error may be passed over. -/
theorem triple_attempt_bind {f : Except C.Err α → Flow C β} (hp : Triple h i P p R)
    (hf : ∀ r, Triple h i (R r) (f r) Q') :
    Triple h i P (attempt p >>= f) Q' := by
  intro s l r s' hP hexec
  obtain ⟨l₁, l₂, x, s₁, rfl, h₁, h₂⟩ := exec_attempt_bind hexec
  exact hf x s₁ l₂ r s' (hp s l₁ x s₁ hP h₁) h₂

theorem triple_conseq (hp : Triple h i P p Q) (hP : ∀ s, P' s → P s) (hQ : ∀ r s, Q r s → R r s) :
    Triple h i P' p R :=
  fun s l r s' hP' hexec => hQ r s' (hp s l r s' (hP s hP') hexec)

end Rules

section Invariants

/-- The flow keeps `I`, whatever it ends with. -/
abbrev Keeps (h : Handler C.sig ι σ κ) (i : ι) (I : σ → Prop) (p : Flow C α) : Prop :=
  Triple h i I p fun _ => I

theorem keeps_pure {a : α} : Keeps h i I (pure a : Flow C α) := triple_pure fun _ hI => hI

theorem keeps_throw {e : C.Err} : Keeps h i I (throw e : Flow C α) := triple_throw fun _ hI => hI

theorem keeps_bind (hp : Keeps h i I p) (hf : ∀ a, Keeps h i I (f a)) : Keeps h i I (p >>= f) :=
  triple_bind hp (fun _ _ hI => hI) hf

theorem keeps_bind_ends (hp : Keeps h i I p)
    (hf : ∀ l a, Ends p.run l (.ok a) → Keeps h i I (f a)) : Keeps h i I (p >>= f) :=
  triple_bind_ends hp (fun _ _ hI => hI) hf

theorem keeps_ensure {c : Prop} [Decidable c] {e : C.Err} :
    Keeps h i I (ensure c e : Flow C Unit) :=
  triple_ensure (fun _ hI => hI) fun _ _ hI => hI

theorem keeps_ite {c : Prop} [Decidable c] {p q : Flow C α} (hp : Keeps h i I p)
    (hq : Keeps h i I q) :
    Keeps h i I (if c then p else q) := by
  split
  · exact hp
  · exact hq

theorem plays_kept {A : C.Op → Prop} {s s' : σ} {l : List C.sig.Act}
    (hA : ∀ o c s r s', A o → I s → h i o c s = some (r, s') → I s')
    (hl : ∀ x ∈ l, A x.1) (hI : I s)
    (hplays : Plays h i s l s') : I s' := by
  induction l generalizing s with
  | nil =>
    obtain rfl := hplays
    exact hI
  | cons x l ih =>
    obtain ⟨c, s₁, hc, hplays⟩ := hplays
    obtain ⟨hx, hl⟩ := List.forall_mem_cons.1 hl
    exact ih hl (hA _ _ _ _ _ hx hI hc) hplays

/-- A flow keeps what each of its calls keeps. -/
theorem keeps_within {A : C.Op → Prop} (hp : Within A p)
    (hA : ∀ o c s r s', A o → I s → h i o c s = some (r, s') → I s') :
    Keeps h i I p :=
  fun _ _ _ _ hI hexec => plays_kept hA (within_path hp (exec_path hexec)) hI (exec_iff.1 hexec).2

/-- What one of the calls brings about and the others keep holds in the end. -/
theorem triple_reaches {A : C.Op → Prop} {o : C.Op} (hp : Within A p)
    (hA : ∀ o c s r s', A o → I s → h i o c s = some (r, s') → I s')
    (hmade : ∀ l r, Ends p.run l r → ∃ x ∈ l, x.1 = o)
    (ho : ∀ c s r s', h i o c s = some (r, s') → I s') : Triple h i P p fun _ => I := by
  intro s l r s' _ hexec
  have hends := exec_path hexec
  have hcalls := within_path hp hends
  obtain ⟨x, hx, rfl⟩ := hmade l r hends
  obtain ⟨l₁, l₂, rfl⟩ := List.append_of_mem hx
  obtain ⟨s₁, -, hplays⟩ := plays_append.1 (exec_iff.1 hexec).2
  obtain ⟨c, s₂, hc, hrest⟩ := hplays
  have hlater : ∀ y ∈ l₂, A y.1 := fun y hy =>
    hcalls y (List.mem_append_right _ (List.mem_cons_of_mem _ hy))
  exact plays_kept hA hlater (ho _ _ _ _ hc) hrest

end Invariants

section Landing

/-- The flow ends in `Q`, or with an error in `I`. -/
def Lands (h : Handler C.sig ι σ κ) (i : ι) (I P : σ → Prop) (p : Flow C α) (Q : α → σ → Prop) :
    Prop :=
  Triple h i P p fun r s => match r with
    | .ok a => Q a s
    | .error _ => I s

variable {Q R : α → σ → Prop} {Q' : β → σ → Prop}

theorem lands_pure {a : α} (hQ : ∀ s, P s → Q a s) : Lands h i I P (pure a) Q := triple_pure hQ

theorem lands_throw {e : C.Err} (hI : ∀ s, P s → I s) : Lands h i I P (throw e) Q := triple_throw hI

theorem lands_bind (hp : Lands h i I P p R) (hf : ∀ a, Lands h i I (R a) (f a) Q') :
    Lands h i I P (p >>= f) Q' :=
  triple_bind hp (fun _ _ hI => hI) hf

theorem lands_ensure_bind {c : Prop} [Decidable c] {e : C.Err} {f : Unit → Flow C β}
    (hI : ∀ s, P s → I s) (hf : c → Lands h i I P (f ()) Q') :
    Lands h i I P (ensure c e >>= f) Q' := triple_ensure_bind hI hf

/-- A check of something that is known. -/
theorem lands_ensure_known {c : Prop} [Decidable c] {e : C.Err} {f : Unit → Flow C β}
    (hc : ∀ s, P s → c) (hf : Lands h i I P (f ()) Q') : Lands h i I P (ensure c e >>= f) Q' := by
  intro s l r s' hP hexec
  unfold ensure at hexec
  rw [if_pos (hc s hP)] at hexec
  exact hf s l r s' hP hexec

/-- What is known does not depend on the state. -/
theorem lands_known {c : Prop} (hp : c → Lands h i I P p Q) : Lands h i I (fun s => P s ∧ c) p Q :=
  fun s l r s' hP hexec => hp hP.2 s l r s' hP.1 hexec

theorem lands_attempt_bind {R : Except C.Err α → σ → Prop} {f : Except C.Err α → Flow C β}
    (hp : Triple h i P p R) (hf : ∀ r, Lands h i I (R r) (f r) Q') :
    Lands h i I P (attempt p >>= f) Q' := triple_attempt_bind hp hf

theorem lands_ite {c : Prop} [Decidable c] {p q : Flow C α} (hp : c → Lands h i I P p Q)
    (hq : ¬ c → Lands h i I P q Q) :
    Lands h i I P (if c then p else q) Q := by
  split
  · exact hp ‹c›
  · exact hq ‹¬ c›

theorem lands_conseq (hp : Lands h i I P p Q) (hP : ∀ s, P' s → P s) (hQ : ∀ a s, Q a s → R a s) :
    Lands h i I P' p R :=
  triple_conseq hp hP fun r s hr => match r with
    | .ok a => hQ a s hr
    | .error _ => hr

/-- A flow that lands in `I` keeps it. -/
theorem keeps_of_lands (hp : Lands h i I I p fun _ => I) : Keeps h i I p :=
  triple_conseq hp (fun _ hI => hI) fun r _ hr => match r with
    | .ok _ => hr
    | .error _ => hr

end Landing

end ModDNS.Conc
