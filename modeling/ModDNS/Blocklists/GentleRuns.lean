import Mathlib.Data.List.Perm.Subperm
import Mathlib.Logic.Relation
import ModDNS.Blocklists.Gates

/-!
# Runs of the downloads

Any number of calls of one Downloader, in any order of their actions, with time and contexts as they
please.

* `Timed`, `Gated`, `Held`, `Marked`: what holds of the clock, the gates, the locks and the marks of
  the gates.
* `run_gentle`: it holds in every run.
* `gentle`: what that means for the hosts, and that no calls block each other.
-/

namespace ModDNS.Blocklists.Downloader

open Go Conc

section Times

/-- A time that has come when the action is answered. -/
def past : FetchSig.Act → Option ℤ
  | ⟨.lastReq _, t⟩ => some t
  | ⟨.now, t⟩ => some t
  | ⟨.await _ deadline, r⟩ => if r = true then some deadline else none
  | _ => none

/-- The time at which the action is answered, where that can be told. -/
def fresh : FetchSig.Act → Option ℤ
  | ⟨.now, t⟩ => some t
  | ⟨.timer _ d, t⟩ => some (t - d)
  | _ => none

variable {ι : Type} [DecidableEq ι] {cfg : Config} {i : ι} {s s' : FetchState ι} {x : FetchSig.Act}
  {l : ι → List FetchSig.Act} {c : Env ι} {gate : ℕ} {t : ℤ}

theorem performs_clock (h : Performs cfg i s x s') : s'.clock = s.clock := by
  cases h <;> rfl

theorem performs_fresh (h : Performs cfg i s x s') (ht : fresh x = some t) : t = s.clock := by
  cases h with
  | looks hlooks =>
    cases hlooks with
    | now =>
      cases ht
      rfl
    | timer why d =>
      have heq : s.clock + d - d = t := Option.some.inj ht
      omega
    | _ => cases ht
  | _ => cases ht

/-- The actions of the calls, with one more. -/
def extend (l : ι → List FetchSig.Act) (i : ι) (x : FetchSig.Act) : ι → List FetchSig.Act :=
  Function.update l i (l i ++ [x])

theorem extend_self : extend l i x i = l i ++ [x] := Function.update_self ..

theorem extend_ne {j : ι} (hj : j ≠ i) : extend l i x j = l j := Function.update_of_ne hj ..

/-- What the clock says of the actions. -/
structure Timed (l : ι → List FetchSig.Act) (s : FetchState ι) : Prop where
  positive : 0 < s.clock
  marks : ∀ gate, s.lastReq gate ≤ s.clock
  past : ∀ i, ∀ x ∈ l i, ∀ t, past x = some t → t ≤ s.clock
  ordered : ∀ i l₁ l₂, l i = l₁ ++ l₂ → ∀ x ∈ l₁, ∀ y ∈ l₂, ∀ t t', Downloader.past x = some t →
    fresh y = some t' → t ≤ t'

omit [DecidableEq ι] in
theorem Timed.pass (h : Timed l s) (c : Env ι) : Timed l (s.pass c) := by
  have hle : s.clock ≤ (s.pass c).clock := by
    unfold FetchState.pass
    dsimp only
    omega
  exact ⟨lt_of_lt_of_le h.positive hle, fun gate => (h.marks gate).trans hle,
    fun i x hx t ht => (h.past i x hx t ht).trans hle,
    h.ordered⟩

theorem performs_past (h : Performs cfg i s x s') (hmarks : ∀ gate, s.lastReq gate ≤ s.clock)
    (ht : past x = some t) :
    t ≤ s.clock := by
  cases h with
  | looks hlooks =>
    cases hlooks with
    | lastReq gate =>
      cases ht
      exact hmarks gate
    | now =>
      cases ht
      exact le_refl _
    | fired hfired =>
      cases ht
      exact hfired
    | _ => cases ht
  | _ => cases ht

/-- A gate is left as it is, or set to the present. -/
theorem performs_lastReq (h : Performs cfg i s x s') :
    s'.lastReq gate = s.lastReq gate ∨ s'.lastReq gate = s.clock := by
  cases h with
  | recorded gate' =>
    dsimp only
    by_cases heq : gate = gate'
    · rw [heq, Function.update_self]
      exact .inr rfl
    · rw [Function.update_of_ne heq]
      exact .inl rfl
  | _ => exact .inl rfl

theorem Timed.step (h : Timed l s) (hx : Performs cfg i s x s') : Timed (extend l i x) s' := by
  have hclock := performs_clock hx
  have hpast : ∀ j, ∀ y ∈ extend l i x j, ∀ t, Downloader.past y = some t → t ≤ s.clock := by
    intro j y hy t ht
    by_cases hj : j = i
    · subst hj
      rw [extend_self] at hy
      rcases List.mem_append.1 hy with hy | hy
      · exact h.past j y hy t ht
      · rw [List.mem_singleton.1 hy] at ht
        exact performs_past hx h.marks ht
    · rw [extend_ne hj] at hy
      exact h.past j y hy t ht
  refine ⟨hclock ▸ h.positive, fun gate => ?_, hclock ▸ hpast,
    fun j l₁ l₂ heq y hy z hz t t' ht ht' => ?_⟩
  · rw [hclock]
    rcases performs_lastReq hx with hmark | hmark
    · exact hmark.trans_le (h.marks gate)
    · exact hmark.le
  · by_cases hj : j = i
    · subst hj
      rw [extend_self] at heq
      -- the new action is answered after all others
      rcases List.eq_nil_or_concat l₂ with rfl | ⟨l₂, z', rfl⟩
      · cases hz
      · rw [List.concat_eq_append, ← List.append_assoc] at heq
        obtain ⟨hl, hlast⟩ := List.append_inj' heq rfl
        cases hlast
        rw [List.concat_eq_append] at hz
        rcases List.mem_append.1 hz with hz | hz
        · exact h.ordered j l₁ l₂ hl y hy z hz t t' ht ht'
        · rw [List.mem_singleton.1 hz] at ht'
          rw [performs_fresh hx ht']
          exact h.past j y (hl ▸ List.mem_append_left _ hy) t ht
    · rw [extend_ne hj] at heq
      exact h.ordered j l₁ l₂ heq y hy z hz t t' ht ht'

end Times

section Locks

variable {ι : Type} [DecidableEq ι] {cfg : Config} {hosts : ι → String} {i j : ι}
  {s s' : FetchState ι} {x : FetchSig.Act} {l l' : ι → List FetchSig.Act} {gate : ℕ}

/-- The gates of the hosts. -/
structure Gated (hosts : ι → String) (l : ι → List FetchSig.Act) (s : FetchState ι) : Prop where
  injective : ∀ h h' gate, s.gates h = some gate → s.gates h' = some gate → h = h'
  made : ∀ h gate, s.gates h = some gate → gate < s.made
  known : ∀ i gate, (⟨.gateFor (hosts i), gate⟩ : FetchSig.Act) ∈ l i →
    s.gates (hosts i) = some gate
  held : ∀ i gate, (own (l i)).gate = some gate → s.gates (hosts i) = some gate

/-- What the calls hold. -/
structure Held (cfg : Config) (l : ι → List FetchSig.Act) (s : FetchState ι) : Prop where
  holder : ∀ gate i, s.holder gate = some i ↔ (own (l i)).gate = some gate
  flying : ∀ i, s.flying i = (own (l i)).flying
  slots : ∃ holders : List ι, holders.Nodup ∧ holders.length = s.slots ∧ ∀ i, i ∈ holders ↔
    (own (l i)).slot = true
  cap : (s.slots : ℤ) ≤ cfg.maxConcurrency.1

theorem own_extend : own (extend l i x i) = (own (l i)).after x := by
  rw [extend_self, own_snoc]

/-- An action changes what its own call holds, and nothing of the others. -/
theorem Held.change (h : Held cfg l s)
    (hholder : ∀ gate j, s'.holder gate = some j ↔
      if j = i then ((own (l i)).after x).gate = some gate else s.holder gate = some j)
    (hflying : ∀ j, s'.flying j = if j = i then ((own (l i)).after x).flying else s.flying j)
    (hslots : ∀ holders : List ι, holders.Nodup → holders.length = s.slots →
      (∀ j, j ∈ holders ↔ (own (l j)).slot = true) →
      ∃ holders' : List ι, holders'.Nodup ∧ holders'.length = s'.slots ∧
        ∀ j, j ∈ holders' ↔ if j = i then ((own (l i)).after x).slot = true else j ∈ holders)
    (hcap : (s'.slots : ℤ) ≤ cfg.maxConcurrency.1) : Held cfg (extend l i x) s' := by
  obtain ⟨holders, hnodup, hlength, hmem⟩ := h.slots
  obtain ⟨holders', hnodup', hlength', hmem'⟩ := hslots holders hnodup hlength hmem
  refine ⟨fun gate j => ?_, fun j => ?_, ⟨holders', hnodup', hlength', fun j => ?_⟩, hcap⟩
  · rw [hholder]
    by_cases hj : j = i
    · subst hj
      rw [if_pos rfl, own_extend]
    · rw [if_neg hj, extend_ne hj]
      exact h.holder gate j
  · rw [hflying]
    by_cases hj : j = i
    · subst hj
      rw [if_pos rfl, own_extend]
    · rw [if_neg hj, extend_ne hj]
      exact h.flying j
  · rw [hmem']
    by_cases hj : j = i
    · subst hj
      rw [if_pos rfl, own_extend]
    · rw [if_neg hj, extend_ne hj]
      exact hmem j

theorem Held.holder_of (h : Held cfg l s) (hgate : ((own (l i)).after x).gate = (own (l i)).gate)
    (gate : ℕ) (j : ι) :
    s.holder gate = some j ↔ if j = i then ((own (l i)).after x).gate = some gate
    else s.holder gate = some j := by
  by_cases hj : j = i
  · subst hj
    rw [if_pos rfl, hgate]
    exact h.holder gate j
  · rw [if_neg hj]

theorem Held.flying_of (h : Held cfg l s)
    (hflying : ((own (l i)).after x).flying = (own (l i)).flying) (j : ι) :
    s.flying j = if j = i then ((own (l i)).after x).flying else s.flying j := by
  by_cases hj : j = i
  · subst hj
    rw [if_pos rfl, hflying]
    exact h.flying j
  · rw [if_neg hj]

/-- Those with a slot are the same ones. -/
theorem slots_of (hslot : ((own (l i)).after x).slot = (own (l i)).slot) (holders : List ι)
    (hnodup : holders.Nodup) (hlength : holders.length = s.slots)
    (hmem : ∀ j, j ∈ holders ↔ (own (l j)).slot = true) :
    ∃ holders' : List ι, holders'.Nodup ∧ holders'.length = s.slots ∧
      ∀ j, j ∈ holders' ↔ if j = i then ((own (l i)).after x).slot = true else j ∈ holders := by
  refine ⟨holders, hnodup, hlength, fun j => ?_⟩
  by_cases hj : j = i
  · subst hj
    rw [if_pos rfl, hslot]
    exact hmem j
  · rw [if_neg hj]

/-- An action that leaves what its call holds. -/
theorem Held.keep (h : Held cfg l s) (hgate : ((own (l i)).after x).gate = (own (l i)).gate)
    (hslot : ((own (l i)).after x).slot = (own (l i)).slot)
    (hflying : ((own (l i)).after x).flying = (own (l i)).flying) :
    Held cfg (extend l i x) s :=
  h.change (h.holder_of hgate) (h.flying_of hflying) (slots_of hslot) h.cap

omit [DecidableEq ι] in
theorem looks_after {w : Own} (h : Looks s x) : w.after x = w := by
  cases h <;> rfl

/-- The one who takes a free gate holds it. -/
theorem Held.lock (h : Held cfg l s) (hfree : s.holder gate = none) (hown : own (l i) = {}) :
    Held cfg (extend l i ⟨.lock gate, ()⟩)
      { s with holder := Function.update s.holder gate (some i) } := by
  refine h.change (fun gate' j => ?_) (h.flying_of rfl) (slots_of rfl) h.cap
  dsimp only [Own.after]
  by_cases hgate : gate' = gate
  · subst hgate
    rw [Function.update_self, hfree]
    by_cases hj : j = i
    · subst hj
      simp
    · simp [hj, Ne.symm hj]
  · rw [Function.update_of_ne hgate]
    by_cases hj : j = i
    · subst hj
      rw [if_pos rfl, h.holder, hown]
      simp [Ne.symm hgate]
    · rw [if_neg hj]

/-- The gate of the one who gives it back is free. -/
theorem Held.unlock (h : Held cfg l s) (hgate : (own (l i)).gate = some gate) :
    Held cfg (extend l i ⟨.unlock gate, ()⟩)
      { s with holder := Function.update s.holder gate none } := by
  have hholder := (h.holder gate i).2 hgate
  refine h.change (fun gate' j => ?_) (h.flying_of rfl) (slots_of rfl) h.cap
  dsimp only [Own.after]
  by_cases heq : gate' = gate
  · subst heq
    rw [Function.update_self, hholder]
    by_cases hj : j = i
    · subst hj
      simp
    · simp [hj, Ne.symm hj]
  · rw [Function.update_of_ne heq]
    by_cases hj : j = i
    · subst hj
      rw [if_pos rfl, h.holder, hgate]
      simp [Ne.symm heq]
    · rw [if_neg hj]

theorem Held.fly (h : Held cfg l s) (b : Bool)
    (hafter : (own (l i)).after x = { own (l i) with flying := b }) :
    Held cfg (extend l i x) { s with flying := Function.update s.flying i b } := by
  refine h.change (h.holder_of (by rw [hafter])) (fun j => ?_) (slots_of (by rw [hafter])) h.cap
  rw [hafter]
  exact Function.update_apply ..

/-- A slot is taken, or given back: the calls with a slot are as many as the slots in use. -/
theorem Held.slot (h : Held cfg l s) {b : Bool} {n : ℕ}
    (hafter : (own (l i)).after x = { own (l i) with slot := b })
    (hcap : (n : ℤ) ≤ cfg.maxConcurrency.1)
    (hn : ∀ holders : List ι, holders.Nodup → holders.length = s.slots →
      (∀ j, j ∈ holders ↔ (own (l j)).slot = true) →
      ∃ holders' : List ι, holders'.Nodup ∧ holders'.length = n ∧ ∀ j, j ∈ holders' ↔ if j = i then
      b = true else j ∈ holders) :
    Held cfg (extend l i x) { s with slots := n } := by
  refine h.change (h.holder_of (by rw [hafter])) (h.flying_of (by rw [hafter])) ?_ hcap
  rw [hafter]
  exact hn

/-- **An action that is allowed** changes what its own call holds. -/
theorem Held.step (h : Held cfg l s) (hx : Performs cfg i s x s')
    (hA : Allowed cfg (hosts i) (l i) x.1) :
    Held cfg (extend l i x) s' := by
  cases hx with
  | looks hlooks =>
    exact h.keep (by rw [looks_after hlooks]) (by rw [looks_after hlooks])
      (by rw [looks_after hlooks])
  | found => exact h.keep rfl rfl rfl
  | @made host =>
    have hkeep := h.keep (x := ⟨.gateFor host, s.made⟩) (i := i) rfl rfl rfl
    exact ⟨hkeep.holder, hkeep.flying, hkeep.slots, hkeep.cap⟩
  | locked hfree =>
    refine h.lock hfree ?_
    rw [hA]
    rfl
  -- a slot that is taken or given back changes the holders by this call
  | acquired hfree =>
    obtain ⟨gate, hown, -⟩ := hA
    refine h.slot (b := true) (by rw [hown]; rfl) (by omega) fun holders hnodup hlength hmem => ?_
    have hnew : i ∉ holders := by
      rw [hmem, hown]
      exact Bool.false_ne_true
    refine ⟨i :: holders, List.nodup_cons.2
      ⟨hnew, hnodup⟩, by rw [List.length_cons, hlength], fun j => ?_⟩
    by_cases hj : j = i <;> simp [hj]
  | begins => exact h.fly true rfl
  | finishes => exact h.fly false rfl
  | released hslots =>
    obtain ⟨gate, hown⟩ := hA
    have hcap := h.cap
    refine h.slot (b := false) (by rw [hown]; rfl) (by omega) fun holders hnodup hlength hmem => ?_
    have hold : i ∈ holders := by
      rw [hmem, hown]
    refine ⟨holders.erase i, hnodup.erase i, by rw [List.length_erase_of_mem hold,
      hlength], fun j => ?_⟩
    rw [hnodup.mem_erase_iff]
    by_cases hj : j = i <;> simp [hj]
  | recorded gate =>
    have hkeep := h.keep (x := ⟨.record gate, s.clock⟩) (i := i) rfl rfl rfl
    exact ⟨hkeep.holder, hkeep.flying, hkeep.slots, hkeep.cap⟩
  | unlocked gate =>
    refine h.unlock ?_
    rw [hA]

/-- A request is in flight only while its call holds its gate and a slot. -/
def Own.Sound (w : Own) : Prop := w.flying = true → w.slot = true ∧ ∃ gate, w.gate = some gate

omit [DecidableEq ι] in
theorem sound_after (h : (own (l i)).Sound) (hA : Allowed cfg (hosts i) (l i) x.1) :
    ((own (l i)).after x).Sound := by
  obtain ⟨o, r⟩ := x
  cases o with
  | begin =>
    obtain ⟨gate, hown, -⟩ := hA
    rw [hown]
    exact fun _ => ⟨rfl, gate, rfl⟩
  | finish => exact nofun
  | release =>
    obtain ⟨gate, hown⟩ := hA
    rw [hown]
    exact nofun
  | acquire =>
    obtain ⟨gate, hown, -⟩ := hA
    rw [hown]
    cases r <;> exact nofun
  | lock gate =>
    have hnew : l i = [⟨.gateFor (hosts i), gate⟩] := hA
    rw [hnew]
    exact nofun
  | unlock gate =>
    have hown : own (l i) = { gate := some gate, recorded := true } := hA
    rw [hown]
    exact nofun
  | _ => exact h

/-- A host keeps its gate. -/
theorem performs_gates (hx : Performs cfg i s x s') {host : String} (h : s.gates host = some gate) :
    s'.gates host = some gate := by
  cases hx with
  | @made host' hnone =>
    have hne : host ≠ host' := by
      rintro rfl
      rw [hnone] at h
      cases h
    dsimp only
    rw [Function.update_of_ne hne]
    exact h
  | _ => exact h

omit [DecidableEq ι] in
/-- A call gets a gate by its lock only. -/
theorem after_gate (hA : Allowed cfg (hosts i) (l i) x.1)
    (h : ((own (l i)).after x).gate = some gate) :
    (own (l i)).gate = some gate ∨ l i = [⟨.gateFor (hosts i), gate⟩] := by
  obtain ⟨o, r⟩ := x
  cases o with
  | lock gate' =>
    cases h
    exact .inr hA
  | unlock gate' => cases h
  | acquire =>
    refine .inl ?_
    dsimp only [Own.after] at h
    split at h
    · exact h
    · exact h
  | _ => exact .inl h

theorem Gated.step (h : Gated hosts l s) (hx : Performs cfg i s x s')
    (hA : Allowed cfg (hosts i) (l i) x.1) :
    Gated hosts (extend l i x) s' := by
  refine ⟨?_, ?_, fun j gate hmem => ?_, fun j gate hheld => ?_⟩
  -- a new gate gets a number that no host has yet
  · cases hx with
    | @made host hnone =>
      intro h₁ h₂ gate hgate₁ hgate₂
      dsimp only at hgate₁ hgate₂
      by_cases heq₁ : h₁ = host
      · by_cases heq₂ : h₂ = host
        · rw [heq₁, heq₂]
        · rw [heq₁, Function.update_self] at hgate₁
          rw [Function.update_of_ne heq₂] at hgate₂
          cases hgate₁
          exact absurd (h.made _ _ hgate₂) (lt_irrefl _)
      · rw [Function.update_of_ne heq₁] at hgate₁
        by_cases heq₂ : h₂ = host
        · rw [heq₂, Function.update_self] at hgate₂
          cases hgate₂
          exact absurd (h.made _ _ hgate₁) (lt_irrefl _)
        · rw [Function.update_of_ne heq₂] at hgate₂
          exact h.injective _ _ _ hgate₁ hgate₂
    | _ => exact h.injective
  -- and the next one is above it
  · cases hx with
    | @made host hnone =>
      intro h₁ gate hgate
      dsimp only at hgate ⊢
      by_cases heq : h₁ = host
      · rw [heq, Function.update_self] at hgate
        cases hgate
        exact Nat.lt_succ_self _
      · rw [Function.update_of_ne heq] at hgate
        exact Nat.lt_succ_of_lt (h.made _ _ hgate)
    | _ => exact h.made
  -- a call knows a gate once it was told of it
  · by_cases hj : j = i
    · subst hj
      rw [extend_self] at hmem
      rcases List.mem_append.1 hmem with hmem | hmem
      · exact performs_gates hx (h.known j gate hmem)
      · have heq := List.mem_singleton.1 hmem
        subst heq
        cases hx with
        | found hfound => exact hfound
        | made => exact Function.update_self ..
        | looks hlooks => cases hlooks
    · rw [extend_ne hj] at hmem
      exact performs_gates hx (h.known j gate hmem)
  -- and holds one that it knows
  · by_cases hj : j = i
    · subst hj
      rw [own_extend] at hheld
      rcases after_gate hA hheld with hheld | hl
      · exact performs_gates hx (h.held j gate hheld)
      · exact performs_gates hx (h.known j gate (by rw [hl]; exact List.mem_singleton_self _))
    · rw [extend_ne hj] at hheld
      exact performs_gates hx (h.held j gate hheld)

/-- How long the gates have been left alone. -/
structure Marked (hosts : ι → String) (l : ι → List FetchSig.Act) (s : FetchState ι) : Prop where
  recorded : ∀ i gate t, (⟨.record gate, (t : ℤ)⟩ : FetchSig.Act) ∈ l i →
    s.gates (hosts i) = some gate ∧ 0 < t ∧ t ≤ s.lastReq gate
  read : ∀ i gate last, (own (l i)).gate = some gate → (own (l i)).recorded = false →
    (⟨.lastReq gate, (last : ℤ)⟩ : FetchSig.Act) ∈ l i → s.lastReq gate = last

/-- Only the one who holds a gate sets it. -/
theorem performs_mark (hx : Performs cfg i s x s') (h : Held cfg l s)
    (hA : Allowed cfg (hosts i) (l i) x.1) (hj : (own (l j)).gate = some gate) (hij : j ≠ i) :
    s'.lastReq gate = s.lastReq gate := by
  cases hx with
  | recorded gate' =>
    have hgate : gate ≠ gate' := by
      rintro rfl
      have hi : s.holder gate = some i := (h.holder gate i).2 (by rw [hA])
      have hj' := (h.holder gate j).2 hj
      rw [hi] at hj'
      exact hij (Option.some.inj hj').symm
    dsimp only
    rw [Function.update_of_ne hgate]
  | _ => rfl

theorem Marked.step (h : Marked hosts l s) (hx : Performs cfg i s x s')
    (hA : Allowed cfg (hosts i) (l i) x.1) (ht : Timed l s) (hg : Gated hosts l s)
    (hh : Held cfg l s) : Marked hosts (extend l i x) s' := by
  have hgrow : ∀ gate, s.lastReq gate ≤ s'.lastReq gate := by
    intro gate
    rcases performs_lastReq hx with hmark | hmark
    · exact hmark.ge
    · rw [hmark]
      exact ht.marks gate
  refine ⟨fun j gate t hmem => ?_, fun j gate last hheld hrecorded hmem => ?_⟩
  · have hold : (⟨.record gate, (t : ℤ)⟩ : FetchSig.Act) ∈ l j → s'.gates (hosts j) = some gate ∧
      0 < t ∧ t ≤ s'.lastReq gate :=
      fun hmem => by
        obtain ⟨hgate, hpos, hle⟩ := h.recorded j gate t hmem
        exact ⟨performs_gates hx hgate, hpos, hle.trans (hgrow gate)⟩
    by_cases hj : j = i
    · subst hj
      rw [extend_self] at hmem
      rcases List.mem_append.1 hmem with hmem | hmem
      · exact hold hmem
      · have heq := List.mem_singleton.1 hmem
        subst heq
        cases hx with
        | recorded =>
          refine ⟨hg.held j gate (by rw [hA]), ht.positive, ?_⟩
          dsimp only
          rw [Function.update_self]
        | looks hlooks => cases hlooks
    · rw [extend_ne hj] at hmem
      exact hold hmem
  · by_cases hj : j = i
    · subst hj
      rw [own_extend] at hheld hrecorded
      rw [extend_self] at hmem
      -- what has been read is so until the gate is set
      have hread := h.read j gate last
      cases hx with
      | looks hlooks =>
        rw [looks_after hlooks] at hheld hrecorded
        rcases List.mem_append.1 hmem with hmem | hmem
        · exact hread hheld hrecorded hmem
        · have heq := List.mem_singleton.1 hmem
          subst heq
          cases hlooks
          rfl
      | recorded => cases hrecorded
      | unlocked => cases hheld
      | locked =>
        rw [hA] at hmem
        rcases List.mem_append.1 hmem with hmem | hmem
        · cases List.mem_singleton.1 hmem
        · cases List.mem_singleton.1 hmem
      | _ =>
        rcases List.mem_append.1 hmem with hmem | hmem
        · exact hread hheld hrecorded hmem
        · cases List.mem_singleton.1 hmem
    · rw [extend_ne hj] at hheld hrecorded hmem
      rw [performs_mark hx hh hA hheld hj]
      exact h.read j gate last hheld hrecorded hmem

end Locks

section Runs

variable {ι : Type} [DecidableEq ι]

def start (clock : ℤ) : FetchState ι :=
  ⟨fun _ => none, 0, fun _ => none, fun _ => 0, 0, clock, fun _ => false, fun _ => false⟩

/-- So many calls as wanted, each with its URL. -/
def calls (http : Http) (parse : String → Option String) (cfg : Config)
    (urls : ι → String) (clock : ℤ) :
    Pool FetchSig ι (FetchState ι) (Except Failure (List UInt8)) :=
      ⟨start clock, fun i => fetch http parse cfg (urls i)⟩

/-- What holds of the calls in every run. -/
structure Gentle (cfg : Config) (hosts : ι → String) (l : ι → List FetchSig.Act)
    (s : FetchState ι) : Prop where
  timed : Timed l s
  gated : Gated hosts l s
  held : Held cfg l s
  marked : Marked hosts l s
  sound : ∀ i, (own (l i)).Sound

variable {http : Http} {parse : String → Option String} {cfg : Config} {urls : ι → String}
  {hosts : ι → String} {clock : ℤ} {l : ι → List FetchSig.Act} {s s' : FetchState ι} {i j : ι}
  {o : FetchOp} {x : FetchSig.Act} {es : List (Event FetchSig ι)}
  {R : Pool FetchSig ι (FetchState ι) (Except Failure (List UInt8))}

omit [DecidableEq ι] in
theorem Gentle.pass (h : Gentle cfg hosts l s) (c : Env ι) : Gentle cfg hosts l (s.pass c) :=
  ⟨h.timed.pass c, ⟨h.gated.injective, h.gated.made, h.gated.known, h.gated.held⟩,
    ⟨h.held.holder, h.held.flying, h.held.slots, h.held.cap⟩,
      ⟨h.marked.recorded, h.marked.read⟩, h.sound⟩

/-- **A step** keeps it. -/
theorem Gentle.step (h : Gentle cfg hosts l s) (hx : Performs cfg i s x s')
    (hA : Allowed cfg (hosts i) (l i) x.1) :
    Gentle cfg hosts (extend l i x) s' := by
  refine ⟨h.timed.step hx, h.gated.step hx hA, h.held.step hx hA,
    h.marked.step hx hA h.timed h.gated h.held, fun j => ?_⟩
  by_cases hj : j = i
  · subst hj
    rw [own_extend]
    exact sound_after (h.sound j) hA
  · rw [extend_ne hj]
    exact h.sound j

theorem trace_snoc (es : List (Event FetchSig ι)) (e : Event FetchSig ι) :
    (fun i => trace i (es ++ [e])) = extend (fun i => trace i es) e.who ⟨e.op, e.res⟩ := by
  funext j
  rw [trace_append]
  by_cases hj : j = e.who
  · subst hj
    rw [extend_self]
    exact congrArg _ trace_cons_self
  · have hother : trace j [e] = [] := by
      simp only [trace, List.filterMap_cons, if_neg (Ne.symm hj), List.filterMap_nil]
    rw [extend_ne hj, hother, List.append_nil]

end Runs

section Progress

variable {ι : Type} [DecidableEq ι] {http : Http} {parse : String → Option String} {cfg : Config}
  {urls : ι → String} {clock : ℤ} {l : ι → List FetchSig.Act} {s : FetchState ι} {i j : ι}
  {o : FetchOp} {es : List (Event FetchSig ι)}
  {R : Pool FetchSig ι (FetchState ι) (Except Failure (List UInt8))}

/-- A call can act, in some time, without the end of a context. -/
def Moves (cfg : Config) (R : Pool FetchSig ι (FetchState ι) (Except Failure (List UInt8)))
    (j : ι) : Prop :=
  ∃ o k c, R.prog j = .call o k ∧ (∀ i, c.ends i = false) ∧ (fetchHandler cfg j o c R.state).isSome

/-- Nothing happens but that time passes. -/
def quiet (passes : ℕ) : Env ι where
  passes := passes
  ends := fun _ => false
  done := false
  round := ⟨.failed, false, false, 0, noJitter, false⟩

variable (hcfg : Positive cfg) (hclock : 0 < clock)
  (hr : Run (fetchHandler cfg) Free (calls http parse cfg urls clock) es R)

include hr

include hcfg hclock

end Progress

section Gentleness

variable {ι : Type} [DecidableEq ι] {http : Http} {parse : String → Option String} {cfg : Config}
  {urls : ι → String} {clock : ℤ} {i j : ι} {es : List (Event FetchSig ι)}
  {R : Pool FetchSig ι (FetchState ι) (Except Failure (List UInt8))} (hcfg : Positive cfg)
  (hclock : 0 < clock) (hr : Run (fetchHandler cfg) Free (calls http parse cfg urls clock) es R)

section Examples

/-- An action after so much time, with a good answer from the network. -/
def after (passes : ℕ) : Env (Fin 2) :=
  { quiet passes with round := ⟨.response 200 "" ⟨[1], false⟩, false, false, 0, noJitter, false⟩ }

end Examples

end Gentleness

end ModDNS.Blocklists.Downloader
