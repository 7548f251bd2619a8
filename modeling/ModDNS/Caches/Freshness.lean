import Mathlib.Data.Fintype.Basic
import Mathlib.Tactic.FinCases
import ModDNS.Caches.Generation

/-!
# No answer from before a purge

What is around under a generation number: the answers that are cached under it, or about to be, and
those of the flights under its key. The invariant is that what is around under the present number of
a counter is from after its last increment; a thread that has taken a number relies on what is
around under it.

* `fresh_step`: the step lemma.
* `fresh_run`: no read returns an answer from before an increment that it has started after, as long
  as the counter never comes to a number under which such an answer is still around, and no read
  without a number joins a flight with such an answer.
* `number_reused`: the counter does come to such a number, when it expires.
-/

namespace ModDNS.Caches

variable {ι : Type}

section Freshness

variable (s : System ι)

/-- The thread has an answer as of `asOf` that others may come to under the number: to be stored, or
in a flight. -/
def Phase.Holds (gen asOf : ℕ) : Phase ι → Prop
  | .toCover _ gen' answer => gen'.getD 0 = gen ∧ answer.asOf = asOf
  | .toWrite _ gen' _ answer => gen' = gen ∧ answer.asOf = asOf
  | _ => False

/-- An answer as of `asOf` is cached under the number, about to be, or in a flight under it. -/
def System.Around (k : GenerationKey) (gen asOf : ℕ) : Prop :=
  (∃ view answer, view.scope = k.scope ∧ s.lookUp ⟨k.profileId, view, gen⟩ = some answer ∧
    answer.asOf = asOf) ∨
    ∃ i, (s.job i).key = k ∧ (s.phase i).Holds gen asOf

/-- The step increments the counter. -/
def System.Bumps (m : Move ι) (k : GenerationKey) : Prop :=
  s.phase m.who = .toIncr ∧ (s.job m.who).key = k ∧ m.outcome.applied = true

/-- The step is that of a read without a number, which comes upon the flight of `leader`. -/
def System.JoinsUnread (m : Move ι) (since : ℕ) (leader : ι) : Prop :=
  ∃ host profileId view, s.job m.who = .read host profileId view ∧
    s.phase m.who = .toShare since none ∧
    s.flights host ⟨profileId, view, 0⟩ = some leader

/-- The counter does not come to a number under which an answer is around that was queried before an
increment: neither by its expiry up to the step, nor by the step. A read that could not read the
counter does not come upon a flight that was queried before an increment after which the read has
started. -/
structure System.Renews (m : Move ι) : Prop where
  expiry : ∀ k, (s.tick m.time).generation k ≠ s.generation k → ∀ asOf,
    (s.tick m.time).Around k ((s.tick m.time).generation k) asOf → s.bumps k ≤ asOf
  bump : ∀ k, s.Bumps m k → ∀ asOf, ¬ (s.tick m.time).Around k
    ((s.tick m.time).generation k + 1) asOf
  flight : ∀ since leader, s.JoinsUnread m since leader →
    ∀ asOf, (s.phase leader).Holds 0 asOf → since ≤ asOf

/-- The thread leads a flight under the number. -/
def Phase.Leads (gen : ℕ) : Phase ι → Prop
  | .toQuery _ gen' => gen'.getD 0 = gen
  | .toCover _ gen' _ => gen'.getD 0 = gen
  | .toWrite _ gen' _ _ => gen' = gen
  | _ => False

/-- The thread leads a flight, or has led it; what it has found, if anything, is from after `since`
increments. -/
def Phase.Shares (since : ℕ) : Phase ι → Prop
  | .toQuery .. => True
  | .toCover _ _ answer => since ≤ answer.asOf
  | .toWrite _ _ _ answer => since ≤ answer.asOf
  | .returned _ (some answer) => since ≤ answer.asOf
  | .returned _ none => True
  | _ => False

/-- What a thread may rely on. -/
def System.PhaseFresh (k : GenerationKey) : Phase ι → Prop
  | .toLookUp since gen => since ≤ s.bumps k ∧ ∀ asOf, s.Around k gen asOf → since ≤ asOf
  | .toShare since (some gen) => since ≤ s.bumps k ∧ ∀ asOf, s.Around k gen asOf → since ≤ asOf
  | .toShare since none => since ≤ s.bumps k
  | .joined since leader =>
    (s.job leader).key = k ∧ since ≤ s.bumps k ∧ (s.phase leader).Shares since
  | .toQuery since _ => since ≤ s.bumps k
  | .toCover since _ answer => since ≤ answer.asOf
  | .toWrite since _ _ answer => since ≤ answer.asOf
  | .returned since (some answer) => since ≤ answer.asOf
  | _ => True

/-- **Invariant**: what is around under the present generation is from after the last increment, and
the flights are led by threads that are about their keys. -/
structure System.Fresh : Prop where
  current : ∀ k asOf, s.Around k (s.generation k) asOf → s.bumps k ≤ asOf
  threads : ∀ i, s.PhaseFresh (s.job i).key (s.phase i)
  led : ∀ host k leader, s.flights host k = some leader →
    (s.job leader).key = ⟨k.view.scope, k.profileId⟩ ∧ (s.phase leader).Leads k.gen

end Freshness

section Steps

variable {s s' : System ι} {k : GenerationKey} {gen asOf : ℕ} {answer : Answer} {p : Phase ι}

theorem at?_mono {α : Type} {x : Option (Stored α)} {a : α} {t t' : ℕ} (h : t ≤ t')
    (hx : Stored.at? x t' = some a) :
    Stored.at? x t = some a := by
  cases x with
  | none => cases hx
  | some x => cases hexp : x.expireAt with
    | none => simpa [Stored.at?, hexp] using hx
    | some e =>
      simp only [Stored.at?, hexp] at hx ⊢
      split at hx
      · rwa [if_pos (by omega)]
      · cases hx

/-- Waiting brings nothing back. -/
theorem around_tick {t : ℕ} (h : s.now ≤ t) (haround : (s.tick t).Around k gen asOf) :
    s.Around k gen asOf := by
  rcases haround with ⟨view, answer, hscope, hlook, hasOf⟩ | hholds
  · exact .inl ⟨view, answer, hscope, at?_mono h hlook, hasOf⟩
  · exact .inr hholds

/-- With less around and as many increments, a thread may rely on the same. -/
theorem phaseFresh_of_around (hjob : s'.job = s.job) (hbumps : s.bumps k ≤ s'.bumps k)
    (haround : ∀ gen asOf, s'.Around k gen asOf → s.Around k gen asOf ∨ s.bumps k ≤ asOf)
    (hshares : ∀ leader since, (s.job leader).key = k → since ≤ s.bumps k →
      (s.phase leader).Shares since →
      (s'.phase leader).Shares since)
    (h : s.PhaseFresh k p) : s'.PhaseFresh k p := by
  have hrest : ∀ since gen, (since ≤ s.bumps k ∧ ∀ asOf, s.Around k gen asOf → since ≤ asOf) →
      since ≤ s'.bumps k ∧ ∀ asOf, s'.Around k gen asOf → since ≤ asOf := by
    intro since gen hold
    refine ⟨by omega, fun asOf hasOf => ?_⟩
    rcases haround gen asOf hasOf with hasOf | hnew
    · exact hold.2 asOf hasOf
    · omega
  cases p with
  | toLookUp since gen => exact hrest since gen h
  | toShare since gen =>
    cases gen with
    | some gen => exact hrest since gen h
    | none => exact Nat.le_trans h hbumps
  | joined since leader =>
    obtain ⟨hkey, hsince, hleader⟩ := h
    refine ⟨?_, by omega, hshares leader since hkey hsince hleader⟩
    rw [hjob]
    exact hkey
  | toQuery since gen => exact Nat.le_trans h hbumps
  | returned since answer => cases answer <;> exact h
  | _ => exact h

/-- The clock. -/
theorem fresh_tick {t : ℕ} (h : s.now ≤ t) (hfresh : s.Fresh)
    (hexpiry : ∀ k, (s.tick t).generation k ≠ s.generation k → ∀ asOf,
      (s.tick t).Around k ((s.tick t).generation k) asOf →
        s.bumps k ≤ asOf) : (s.tick t).Fresh where
  current k asOf haround := by
    by_cases hgen : (s.tick t).generation k = s.generation k
    · rw [hgen] at haround
      exact hfresh.current k asOf (around_tick h haround)
    · exact hexpiry k hgen asOf haround
  threads i := by
    have hthread : s.PhaseFresh (s.job i).key (s.phase i) := hfresh.threads i
    have haround : ∀ gen asOf, (s.tick t).Around (s.job i).key gen asOf →
      s.Around (s.job i).key gen asOf :=
      fun gen asOf haround => around_tick h haround
    exact phaseFresh_of_around (s := s) rfl (Nat.le_refl _)
      (fun gen asOf h => .inl (haround gen asOf h))
      (fun _ _ _ _ h => h) hthread
  led := hfresh.led

/-- An increment: nothing is around under the number that it comes to. -/
theorem fresh_incr (hfresh : s.Fresh) (hnew : ∀ asOf, ¬ s.Around k (s.generation k + 1) asOf) :
    (s.incr k).Fresh := by
  have hself : (s.incr k).generation k = s.generation k + 1 := by
    unfold System.generation System.incr
    simp only [Function.update_self]
    cases hx : s.counters k with
    | none => rfl
    | some x => cases hgen : Stored.at? (some x) s.now with
      | none => rfl
      | some gen =>
        simp only [Stored.at?] at hgen ⊢
        cases hexp : x.expireAt with
        | none => simp_all
        | some e =>
          rw [hexp] at hgen
          simp only at hgen ⊢
          split at hgen
          · simp_all
          · cases hgen
  have hother : ∀ k', k' ≠ k → (s.incr k).generation k' = s.generation k' ∧
      (s.incr k).bumps k' = s.bumps k' := by
    intro k' hk
    simp [System.generation, System.incr, Function.update_of_ne hk]
  have hbumps : ∀ k', s.bumps k' ≤ (s.incr k).bumps k' := by
    intro k'
    by_cases hk : k' = k
    · subst hk
      simp [System.incr]
    · exact Nat.le_of_eq (hother k' hk).2.symm
  have haround : ∀ k' gen asOf, (s.incr k).Around k' gen asOf → s.Around k' gen asOf :=
    fun _ _ _ h => h
  refine ⟨fun k' asOf h => ?_, fun i => ?_, hfresh.led⟩
  · by_cases hk : k' = k
    · subst hk
      rw [hself] at h
      exact absurd (haround _ _ _ h) (hnew asOf)
    · obtain ⟨hgen, hbumps'⟩ := hother k' hk
      rw [hgen] at h
      rw [hbumps']
      exact hfresh.current k' asOf (haround _ _ _ h)
  · exact phaseFresh_of_around (s := s) rfl (hbumps _)
      (fun gen asOf h => .inl (haround _ gen asOf h))
      (fun _ _ _ _ h => h) (hfresh.threads i)

theorem generation_expire (k k' : GenerationKey) :
    (s.expire k).generation k' = s.generation k' := by
  unfold System.expire
  cases hx : s.counters k with
  | none => rfl
  | some x => cases hgen : Stored.at? (some x) s.now with
    | none => rfl
    | some gen =>
      by_cases hk : k' = k
      · subst hk
        have hvalue : x.value = gen := by
          simp only [Stored.at?] at hgen
          split at hgen
          · exact Option.some.inj hgen
          · split at hgen
            · exact Option.some.inj hgen
            · cases hgen
        have hlater : s.now < s.now + generationTTL := Nat.lt_add_of_pos_right (by decide)
        simp only [System.generation, Function.update_self, hx, hgen]
        simp [Stored.at?, hlater, hvalue]
      · simp [System.generation, Function.update_of_ne hk]

theorem fresh_expire (hfresh : s.Fresh) : (s.expire k).Fresh := by
  have hsame : (s.expire k).entries = s.entries ∧ (s.expire k).now = s.now ∧
    (s.expire k).bumps = s.bumps ∧
      (s.expire k).flights = s.flights ∧ (s.expire k).job = s.job ∧
        (s.expire k).phase = s.phase := by
    unfold System.expire
    split <;> exact ⟨rfl, rfl, rfl, rfl, rfl, rfl⟩
  obtain ⟨hentries, hnow, hbumps, hflights, hjob, hphase⟩ := hsame
  have haround : ∀ k' gen asOf, (s.expire k).Around k' gen asOf ↔ s.Around k' gen asOf := by
    intro k' gen asOf
    simp only [System.Around, System.lookUp, hentries, hnow, hjob, hphase]
  refine ⟨fun k' asOf h => ?_, fun i => ?_, fun host k' leader h => ?_⟩
  · rw [generation_expire, haround] at h
    rw [hbumps]
    exact hfresh.current k' asOf h
  · rw [hjob, hphase]
    refine phaseFresh_of_around hjob ?_ (fun gen asOf h => .inl ((haround _ gen asOf).1 h)) ?_
      (hfresh.threads i)
    · exact Nat.le_of_eq (by rw [hbumps])
    · intro leader since _ _ hshares
      rwa [hphase]
  · rw [hjob, hphase]
    exact hfresh.led host k' leader (hflights ▸ h)

/-- A write of an answer that is about to be written. -/
theorem fresh_setEntry {profileId : String} {view : View} {ttl : ℕ} (hfresh : s.Fresh)
    (haround : s.Around ⟨view.scope, profileId⟩ gen answer.asOf) :
    (s.setEntry ⟨profileId, view, gen⟩ answer ttl).Fresh := by
  have hold : ∀ k gen' asOf, (s.setEntry ⟨profileId, view, gen⟩ answer ttl).Around k gen' asOf →
      s.Around k gen' asOf := by
    rintro k gen' asOf (⟨view', answer', hscope, hlook, hasOf⟩ | hholds)
    · by_cases hkey : (⟨k.profileId, view', gen'⟩ : EntryKey) = ⟨profileId, view, gen⟩
      · obtain ⟨hprofile, rfl, rfl⟩ := EntryKey.mk.inj hkey
        have hanswer : answer' = answer := by
          simp only [System.lookUp, System.setEntry, hkey, Function.update_self,
            Stored.at?] at hlook
          rcases Option.ite_none_right_eq_some.1 hlook with ⟨-, heq⟩
          exact (Option.some.inj heq).symm
        have hk : k = ⟨view'.scope, profileId⟩ := by
          obtain ⟨scope, pid⟩ := k
          cases hscope
          cases hprofile
          rfl
        rw [hk, ← hasOf, hanswer]
        exact haround
      · simp only [System.lookUp, System.setEntry, Function.update_of_ne hkey] at hlook
        exact .inl ⟨view', answer', hscope, hlook, hasOf⟩
    · exact .inr hholds
  exact ⟨fun k asOf h => hfresh.current k asOf (hold _ _ _ h),
    fun i => phaseFresh_of_around (s := s) rfl (Nat.le_refl _)
      (fun gen asOf h => .inl (hold _ gen asOf h))
      (fun _ _ _ _ h => h) (hfresh.threads i), hfresh.led⟩

/-- With nothing older under the number, a flight under it can be joined. -/
theorem shares_of_leads {since : ℕ} (hleads : p.Leads gen)
    (hold : ∀ asOf, p.Holds gen asOf → since ≤ asOf) :
    p.Shares since := by
  cases p with
  | toQuery since' gen' => trivial
  | toCover since' gen' answer => exact hold answer.asOf ⟨hleads, rfl⟩
  | toWrite since' gen' ttl answer => exact hold answer.asOf ⟨hleads, rfl⟩
  | _ => exact hleads.elim

variable {i : ι}

/-- What a thread that goes on must keep for the others: what it comes to hold is from after the
last increment or has been around, those that have joined it can still rely on it, and a flight that
it leads it leads on. -/
structure System.Keeps (s : System ι) (i : ι) (p : Phase ι) : Prop where
  holds : ∀ gen asOf, p.Holds gen asOf → s.bumps (s.job i).key ≤ asOf ∨
    s.Around (s.job i).key gen asOf
  shares : ∀ since, since ≤ s.bumps (s.job i).key → (s.phase i).Shares since → p.Shares since
  leads : ∀ host k, s.flights host k = some i → p.Leads k.gen

/-- A thread that leads no flight and has led none goes on, holding nothing. -/
theorem keeps_of_alone (hfresh : s.Fresh) (hleads : ∀ gen, ¬ (s.phase i).Leads gen)
    (hshares : ∀ since, ¬ (s.phase i).Shares since) (hholds : ∀ gen asOf, ¬ p.Holds gen asOf) :
    s.Keeps i p where
  holds gen asOf h := absurd h (hholds gen asOf)
  shares since _ h := absurd h (hshares since)
  leads host k h := absurd (hfresh.led host k i h).2 (hleads k.gen)

theorem lead_flights_self {host : ℕ} {key : EntryKey} :
    (s.lead i host key).flights host key = some i := by
  simp [System.lead]

theorem lead_flights_ne {host host' : ℕ} {key key' : EntryKey} (h : ¬ (host' = host ∧ key' = key)) :
    (s.lead i host key).flights host' key' = s.flights host' key' := by
  by_cases hhost : host' = host
  · subst hhost
    have hkey : key' ≠ key := fun heq => h ⟨rfl, heq⟩
    simp [System.lead, Function.update_of_ne hkey]
  · simp [System.lead, Function.update_of_ne hhost]

/-- A flight begins. -/
theorem fresh_lead {host : ℕ} {key : EntryKey} (hfresh : s.Fresh)
    (hkey : (s.job i).key = ⟨key.view.scope, key.profileId⟩) (hleads : (s.phase i).Leads key.gen) :
    (s.lead i host key).Fresh where
  current := hfresh.current
  threads j :=
    phaseFresh_of_around (s := s) rfl (Nat.le_refl _) (fun _ _ h => .inl h) (fun _ _ _ _ h => h)
    (hfresh.threads j)
  led host' key' leader h := by
    by_cases hsame : host' = host ∧ key' = key
    · obtain ⟨rfl, rfl⟩ := hsame
      rw [lead_flights_self] at h
      cases h
      exact ⟨hkey, hleads⟩
    · rw [lead_flights_ne hsame] at h
      exact hfresh.led host' key' leader h

variable [DecidableEq ι]

@[simp] theorem go_phase_self : (s.go i p).phase i = p := Function.update_self ..

theorem go_phase_ne {j : ι} (h : j ≠ i) : (s.go i p).phase j = s.phase j :=
  Function.update_of_ne h ..

theorem around_go (h : (s.go i p).Around k gen asOf) :
    s.Around k gen asOf ∨ ((s.job i).key = k ∧ p.Holds gen asOf) := by
  rcases h with hentry | ⟨j, hkey, hphase⟩
  · exact .inl (.inl hentry)
  · by_cases hj : j = i
    · subst hj
      rw [go_phase_self] at hphase
      exact .inr ⟨hkey, hphase⟩
    · rw [go_phase_ne hj] at hphase
      exact .inl (.inr ⟨j, hkey, hphase⟩)

theorem fresh_go (hfresh : s.Fresh) (hp : s.PhaseFresh (s.job i).key p) (hkeeps : s.Keeps i p) :
    (s.go i p).Fresh := by
  have hnew : ∀ k gen asOf, (s.go i p).Around k gen asOf → s.Around k gen asOf ∨
      s.bumps k ≤ asOf := by
    intro k gen asOf h
    rcases around_go h with h | ⟨rfl, hholds⟩
    · exact .inl h
    · exact (hkeeps.holds gen asOf hholds).symm
  have hshares : ∀ k leader since, (s.job leader).key = k → since ≤ s.bumps k →
    (s.phase leader).Shares since →
      ((s.go i p).phase leader).Shares since := by
    intro k leader since hkey hsince h
    by_cases hleader : leader = i
    · subst hleader
      rw [go_phase_self]
      exact hkeeps.shares since (hkey ▸ hsince) h
    · rwa [go_phase_ne hleader]
  refine ⟨fun k asOf h => ?_, fun j => ?_, fun host k leader h => ?_⟩
  · rcases hnew k _ asOf h with h | h
    · exact hfresh.current k asOf h
    · exact h
  · have hj : s.PhaseFresh (s.job j).key ((s.go i p).phase j) := by
      by_cases hj : j = i
      · subst hj
        rwa [go_phase_self]
      · rw [go_phase_ne hj]
        exact hfresh.threads j
    exact phaseFresh_of_around (s := s) rfl (Nat.le_refl _) (fun gen asOf h => hnew _ gen asOf h)
      (hshares _) hj
  · obtain ⟨hkey, hleads⟩ := hfresh.led host k leader h
    refine ⟨hkey, ?_⟩
    by_cases hleader : leader = i
    · subst hleader
      rw [go_phase_self]
      exact hkeeps.leads host k h
    · rwa [go_phase_ne hleader]

theorem fresh_land (hfresh : s.Fresh) : (s.land i).Fresh where
  current := hfresh.current
  threads j :=
    phaseFresh_of_around (s := s) rfl (Nat.le_refl _) (fun _ _ h => .inl h) (fun _ _ _ _ h => h)
    (hfresh.threads j)
  led host k leader h := hfresh.led host k leader (Option.filter_eq_some_iff.1 h).1

/-- A read returns; those that have joined it can rely on its answer. -/
theorem fresh_finish {since : ℕ} {result : Option Answer} (hfresh : s.Fresh)
    (hp : ∀ answer, result = some answer → since ≤ answer.asOf)
    (hshares : ∀ since', since' ≤ s.bumps (s.job i).key → (s.phase i).Shares since' →
      ∀ answer, result = some answer → since' ≤ answer.asOf) : (s.finish i since result).Fresh := by
  refine fresh_go (fresh_land hfresh) ?_
    ⟨fun _ _ h => h.elim, fun since' hsince' h => ?_, fun host k h => ?_⟩
  · cases result with
    | none => trivial
    | some answer => exact hp answer rfl
  · cases result with
    | none => trivial
    | some answer => exact hshares since' hsince' h answer rfl
  · have hnot := (Option.filter_eq_some_iff.1 h).2
    simp at hnot

/-- A read comes to the flight of its key: it can rely on the leader, or it leads. -/
theorem fresh_share {host : ℕ} {key : EntryKey} {since : ℕ} {num : Option ℕ} (hfresh : s.Fresh)
    (hkey : (s.job i).key = ⟨key.view.scope, key.profileId⟩) (hgen : num.getD 0 = key.gen)
    (hphase : s.phase i = .toShare since num) (hsince : since ≤ s.bumps (s.job i).key)
    (hflight : ∀ leader asOf, s.flights host key = some leader →
      (s.phase leader).Holds key.gen asOf → since ≤ asOf) :
    (s.share i host key since num).Fresh := by
  have hkeeps : ∀ p, (∀ gen asOf, ¬ p.Holds gen asOf) → s.Keeps i p := fun p hholds =>
    keeps_of_alone hfresh (by rw [hphase]; exact fun _ h => h)
      (by rw [hphase]; exact fun _ h => h) hholds
  unfold System.share
  split
  · next leader hleader =>
    obtain ⟨hkey', hleads⟩ := hfresh.led host key leader hleader
    refine fresh_go hfresh ⟨hkey'.trans hkey.symm, hsince, ?_⟩ (hkeeps _ fun _ _ h => h)
    exact shares_of_leads hleads fun asOf hholds => hflight leader asOf hleader hholds
  · have hquery : (s.go i (.toQuery since num)).Fresh :=
      fresh_go hfresh hsince (hkeeps _ fun _ _ h => h)
    refine fresh_lead hquery hkey ?_
    rw [go_phase_self]
    exact hgen

/-- A thread has an answer that is to be stored, or returned at once. -/
theorem fresh_store {view : View} {since : ℕ} {num : Option ℕ} (hfresh : s.Fresh)
    (hsince : since ≤ answer.asOf) (hholds : s.bumps (s.job i).key ≤ answer.asOf ∨
      ∀ gen, num = some gen → s.Around (s.job i).key gen answer.asOf)
    (hshares : ∀ since', since' ≤ s.bumps (s.job i).key → (s.phase i).Shares since' →
      since' ≤ answer.asOf)
    (hleads : ∀ gen, (s.phase i).Leads gen → num.getD 0 = gen) :
    (s.store i view since num answer).Fresh := by
  unfold System.store
  split
  · next gen ttl =>
    refine fresh_go hfresh hsince ⟨fun gen' asOf h => ?_, hshares, fun host k h => ?_⟩
    · obtain ⟨rfl, rfl⟩ := h
      exact hholds.imp_right fun h => h _ rfl
    · exact hleads k.gen (hfresh.led host k i h).2
  · refine fresh_finish hfresh ?_ ?_
    · rintro _ ⟨⟩
      exact hsince
    · rintro since' hsince' h _ ⟨⟩
      exact hshares since' hsince' h

theorem fresh_miss {view : View} {since : ℕ} {num : Option ℕ} (hfresh : s.Fresh)
    (hleads : ∀ gen, ¬ (s.phase i).Leads gen) (hshares : ∀ since, ¬ (s.phase i).Shares since)
    (hsince : since ≤ s.bumps (s.job i).key)
    (hold : ∀ gen, num = some gen → ∀ asOf, s.Around (s.job i).key gen asOf → since ≤ asOf) :
    (s.go i (view.miss since num)).Fresh := by
  have hkeeps : s.Keeps i (view.miss since num) :=
    keeps_of_alone hfresh hleads hshares fun gen asOf => by cases view <;> exact fun h => h
  refine fresh_go hfresh ?_ hkeeps
  cases view with
  | top kind timespan =>
    cases num with
    | none => exact hsince
    | some gen => exact ⟨hsince, hold gen rfl⟩
  | _ => exact hsince

theorem fresh_readStep {m : Move ι} {host : ℕ} {profileId : String} {view : View} (hfresh : s.Fresh)
    (hjob : s.job m.who = .read host profileId view)
    (hstep : s.readStep m host profileId view (s.phase m.who) = some s')
    (hflight : ∀ since leader, s.JoinsUnread m since leader →
      ∀ asOf, (s.phase leader).Holds 0 asOf → since ≤ asOf) :
    s'.Fresh := by
  have hkey : (s.job m.who).key = ⟨view.scope, profileId⟩ := by rw [hjob]; rfl
  have hthread := hfresh.threads m.who
  rw [hkey] at hthread
  cases hphase : s.phase m.who with
  | start =>
    have halone : ∀ gen, ¬ (s.phase m.who).Leads gen := by rw [hphase]; exact fun _ h => h
    have hnone : ∀ since, ¬ (s.phase m.who).Shares since := by rw [hphase]; exact fun _ h => h
    simp only [System.readStep, hphase] at hstep
    cases hout : m.outcome with
    | ok =>
      rw [hout] at hstep
      cases hstep
      refine fresh_go hfresh ?_ (keeps_of_alone hfresh halone hnone fun _ _ h => h)
      rw [hkey]
      exact ⟨Nat.le_refl _, fun asOf haround => hfresh.current _ asOf haround⟩
    | fail applied =>
      rw [hout] at hstep
      cases hstep
      refine fresh_miss hfresh halone hnone ?_ nofun
      exact Nat.le_of_eq (by rw [hkey])
  | toLookUp since gen =>
    have halone : ∀ gen, ¬ (s.phase m.who).Leads gen := by rw [hphase]; exact fun _ h => h
    have hnone : ∀ since, ¬ (s.phase m.who).Shares since := by rw [hphase]; exact fun _ h => h
    simp only [System.readStep, hphase] at hstep hthread
    have hmiss : (s.go m.who (view.miss since (some gen))).Fresh := by
      refine fresh_miss hfresh halone hnone ?_ ?_
      · rw [hkey]
        exact hthread.1
      · rintro _ ⟨⟩ asOf haround
        exact hthread.2 asOf (hkey ▸ haround)
    cases hout : m.outcome with
    | ok =>
      rw [hout] at hstep
      cases hlook : s.lookUp ⟨profileId, view, gen⟩ with
      | some answer =>
        simp only [hlook] at hstep
        cases hstep
        refine fresh_finish hfresh ?_ fun since' _ h => absurd h (hnone since')
        rintro _ ⟨⟩
        exact hthread.2 answer.asOf (.inl ⟨view, answer, rfl, hlook, rfl⟩)
      | none =>
        simp only [hlook] at hstep
        cases hstep
        exact hmiss
    | fail applied =>
      rw [hout] at hstep
      cases hstep
      exact hmiss
  | toShare since gen =>
    simp only [System.readStep, hphase] at hstep
    split at hstep
    · cases hstep
      exact fresh_finish hfresh nofun fun _ _ _ => nofun
    · cases hstep
      rw [hphase] at hthread
      cases gen with
      | none =>
        -- the flight is that of number 0, whatever the counter is
        refine fresh_share hfresh hkey rfl hphase (hkey ▸ hthread) ?_
        intro leader asOf hleader hholds
        exact hflight since leader ⟨host, profileId, view, hjob, hphase, hleader⟩ asOf hholds
      | some gen =>
        refine fresh_share hfresh hkey rfl hphase (hkey ▸ hthread.1) ?_
        intro leader asOf hleader hholds
        exact hthread.2 asOf (.inr ⟨leader, (hfresh.led _ _ _ hleader).1, hholds⟩)
  | joined since leader =>
    simp only [System.readStep, hphase] at hstep
    rw [hphase] at hthread
    obtain ⟨-, -, hshares⟩ := hthread
    split at hstep
    · next since' answer hleader =>
      cases hstep
      rw [hleader] at hshares
      refine fresh_finish hfresh ?_ fun since'' _ h => absurd h (by rw [hphase]; exact fun h => h)
      rintro _ rfl
      exact hshares
    · cases hstep
  | toQuery since gen =>
    simp only [System.readStep, hphase] at hstep hthread
    cases hout : m.outcome with
    | ok =>
      rw [hout] at hstep
      have hnow : s.bumps (s.job m.who).key ≤ s.bumps ⟨view.scope, profileId⟩ :=
        Nat.le_of_eq (by rw [hkey])
      have hleads : ∀ gen', (s.phase m.who).Leads gen' → gen.getD 0 = gen' := by
        rw [hphase]; exact fun _ h => h
      have hstore :
        (s.store m.who view since gen
          ⟨m.payload, m.count, s.bumps ⟨view.scope, profileId⟩⟩).Fresh :=
        fresh_store hfresh hthread (.inl hnow)
        (fun since' hsince' _ => Nat.le_trans hsince' hnow) hleads
      cases view with
      | top kind timespan =>
        cases hstep
        refine fresh_go hfresh hthread
          ⟨?_, fun since' hsince' _ => Nat.le_trans hsince' hnow, fun host' k h => ?_⟩
        · rintro gen' asOf ⟨-, rfl⟩
          exact .inl hnow
        · exact hleads k.gen (hfresh.led host' k m.who h).2
      | statistics timespan =>
        cases hstep
        exact hstore
      | devices =>
        cases hstep
        exact hstore
    | fail applied =>
      rw [hout] at hstep
      cases hstep
      exact fresh_finish hfresh nofun fun _ _ _ => nofun
  | toCover since gen answer =>
    simp only [System.readStep, hphase] at hstep hthread
    have hshares : ∀ since', since' ≤ s.bumps (s.job m.who).key → (s.phase m.who).Shares since' →
        since' ≤ answer.asOf := by rw [hphase]; exact fun _ _ h => h
    cases hout : m.outcome with
    | ok =>
      rw [hout] at hstep
      cases hstep
      refine fresh_store hfresh hthread (.inr ?_) hshares ?_
      · rintro gen' rfl
        refine .inr ⟨m.who, rfl, ?_⟩
        rw [hphase]
        exact ⟨rfl, rfl⟩
      · rw [hphase]
        exact fun _ h => h
    | fail applied =>
      rw [hout] at hstep
      cases hstep
      refine fresh_finish hfresh ?_ ?_
      · rintro _ ⟨⟩
        exact hthread
      · rintro since' hsince' h _ ⟨⟩
        exact hshares since' hsince' h
  | toWrite since gen ttl answer =>
    simp only [System.readStep, hphase] at hstep hthread
    cases hstep
    have hwritten : (if m.outcome.applied = true then s.setEntry ⟨profileId, view, gen⟩ answer ttl
        else s).Fresh := by
      split
      · refine fresh_setEntry hfresh (.inr ⟨m.who, hkey, ?_⟩)
        rw [hphase]
        exact ⟨rfl, rfl⟩
      · exact hfresh
    refine fresh_finish hwritten ?_ ?_
    · rintro _ ⟨⟩
      exact hthread
    · have hsame : (if m.outcome.applied = true then
        s.setEntry ⟨profileId, view, gen⟩ answer ttl else s).phase
          m.who = .toWrite since gen ttl answer := by split <;> exact hphase
      rintro since' - h _ ⟨⟩
      rw [hsame] at h
      exact h
  | returned since answer =>
    cases (hphase ▸ hstep : System.readStep s m host profileId view
      (.returned since answer) = some s')
  | toIncr => cases (hphase ▸ hstep : System.readStep s m host profileId view .toIncr = some s')
  | toExpire => cases (hphase ▸ hstep : System.readStep s m host profileId view .toExpire = some s')
  | purged => cases (hphase ▸ hstep : System.readStep s m host profileId view .purged = some s')

/-- A purge takes no part in the flights. -/
theorem fresh_purging (hfresh : s.Fresh)
    (hold : s.phase i = .start ∨ s.phase i = .toIncr ∨ s.phase i = .toExpire)
    (hp : p = .toIncr ∨ p = .toExpire ∨ p = .purged) : (s.go i p).Fresh := by
  have halone : (∀ gen, ¬ (s.phase i).Leads gen) ∧ ∀ since, ¬ (s.phase i).Shares since := by
    rcases hold with hold | hold | hold
    all_goals
      rw [hold]
      exact ⟨fun _ h => h, fun _ h => h⟩
  refine fresh_go hfresh ?_ (keeps_of_alone hfresh halone.1 halone.2 ?_)
  · rcases hp with rfl | rfl | rfl <;> trivial
  · rcases hp with rfl | rfl | rfl <;> exact fun _ _ h => h

theorem fresh_purgeStep {m : Move ι} {profileId : String} {scope : Scope} (hfresh : s.Fresh)
    (hjob : s.job m.who = .purge profileId scope)
    (hstep : s.purgeStep m profileId scope (s.phase m.who) = some s')
    (hbump : ∀ k, s.Bumps m k → ∀ asOf, ¬ s.Around k (s.generation k + 1) asOf) : s'.Fresh := by
  have hkey : (s.job m.who).key = ⟨scope, profileId⟩ := by rw [hjob]; rfl
  cases hphase : s.phase m.who with
  | start =>
    simp only [System.purgeStep, hphase] at hstep
    split at hstep
    · cases hstep
      exact fresh_purging hfresh (.inl hphase) (.inl rfl)
    · cases hstep
      exact fresh_purging hfresh (.inl hphase) (.inr (.inr rfl))
  -- the bump: nothing from before it is around the next number
  | toIncr =>
    simp only [System.purgeStep, hphase] at hstep
    have hincr : (if m.outcome.applied = true then s.incr ⟨scope, profileId⟩ else s).Fresh := by
      split
      · exact fresh_incr hfresh (hbump _ ⟨hphase, hkey, ‹_›⟩)
      · exact hfresh
    have hsame : (if m.outcome.applied = true then s.incr ⟨scope, profileId⟩
        else s).phase m.who = .toIncr := by
      split <;> exact hphase
    generalize (if m.outcome.applied = true then s.incr ⟨scope, profileId⟩ else s) =
      s₁ at hstep hincr hsame
    split at hstep
    · cases hstep
      exact fresh_purging hincr (.inr (.inl hsame)) (.inr (.inl rfl))
    · cases hstep
      exact fresh_purging hincr (.inr (.inl hsame)) (.inr (.inr rfl))
  | toExpire =>
    simp only [System.purgeStep, hphase] at hstep
    cases hstep
    have hexpire : (if m.outcome.applied = true then s.expire ⟨scope, profileId⟩ else s).Fresh := by
      split
      · exact fresh_expire hfresh
      · exact hfresh
    have hsame : (if m.outcome.applied = true then s.expire ⟨scope, profileId⟩ else s).phase m.who =
        .toExpire := by
      split
      · unfold System.expire
        split <;> exact hphase
      · exact hphase
    exact fresh_purging hexpire (.inr (.inr hsame)) (.inr (.inr rfl))
  | _ =>
    rw [hphase] at hstep
    cases hstep

/-- **Step lemma.** -/
theorem fresh_step {m : Move ι} (hfresh : s.Fresh) (hrenews : s.Renews m)
    (hstep : s.step m = some s') : s'.Fresh := by
  unfold System.step at hstep
  split at hstep
  · cases hstep
  · next htime =>
    have hticked : (s.tick m.time).Fresh :=
      fresh_tick (Nat.le_of_not_lt htime) hfresh hrenews.expiry
    cases hjob : s.job m.who with
    | read host profileId view =>
      rw [hjob] at hstep
      exact fresh_readStep hticked hjob hstep hrenews.flight
    | purge profileId scope =>
      rw [hjob] at hstep
      exact fresh_purgeStep hticked hjob hstep hrenews.bump

omit [DecidableEq ι] in
theorem fresh_initial (job : ι → Job) : (System.initial job).Fresh where
  current k asOf := by
    rintro (⟨view, answer, -, hlook, -⟩ | ⟨i, -, hholds⟩)
    · cases hlook
    · exact hholds.elim
  threads i := trivial
  led host k leader h := by cases h

/-- The runs whose steps all renew. -/
inductive Reaches (job : ι → Job) : System ι → Prop where
  | initial : Reaches job (System.initial job)
  | step {s s' : System ι} {m : Move ι} : Reaches job s → s.Renews m → s.step m = some s' →
      Reaches job s'

/-- **No answer from before an increment is returned after it**, in every run in which the counter
never comes to a number under which such an answer is still around, and no read without a number
joins a flight with such an answer. -/
theorem fresh_run {job : ι → Job} (h : Reaches job s) {i : ι} {since : ℕ}
    (hret : s.phase i = .returned since (some answer)) : since ≤ answer.asOf := by
  have hfresh : s.Fresh := by
    clear hret
    induction h with
    | initial => exact fresh_initial job
    | step _ hrenews hstep ih => exact fresh_step ih hrenews hstep
  have hthread := hfresh.threads i
  rw [hret] at hthread
  exact hthread

/-- A step that takes no time, increments nothing, and is not that of a read without a number to a
flight. -/
theorem reaches_quiet {job : ι → Job} {m : Move ι} (h : Reaches job s) (htime : m.time = s.now)
    (hphase : s.phase m.who ≠ .toIncr) (hshare : ∀ since, s.phase m.who ≠ .toShare since none)
    (hstep : s.step m = some s') : Reaches job s' := by
  refine .step h ⟨fun k hne => ?_, fun k hbump => absurd hbump.1 hphase, ?_⟩ hstep
  · rw [htime] at hne
    exact absurd rfl hne
  · rintro since leader ⟨host, profileId, view, -, hjoin, -⟩
    exact absurd hjoin (hshare since)

/-- An increment that takes no time, to a number under which nothing is around. -/
theorem reaches_incr {job : ι → Job} {m : Move ι} (h : Reaches job s) (htime : m.time = s.now)
    (hphase : s.phase m.who = .toIncr) (hkey : (s.job m.who).key = k)
    (hentries : ∀ view, s.lookUp ⟨k.profileId, view, s.generation k + 1⟩ = none)
    (hholds : ∀ i asOf, ¬ (s.phase i).Holds (s.generation k + 1) asOf)
    (hstep : s.step m = some s') :
    Reaches job s' := by
  have hnow : s.tick m.time = s := by rw [htime]; rfl
  refine .step h ⟨fun k' hne => ?_, fun k' hbump asOf => ?_, ?_⟩ hstep
  · rw [hnow] at hne
    exact absurd rfl hne
  · rw [hnow, ← hbump.2.1, hkey]
    rintro (⟨view, answer, -, hlook, -⟩ | ⟨i, -, hi⟩)
    · rw [hentries view] at hlook
      cases hlook
    · exact hholds i asOf hi
  · rintro since leader ⟨host, profileId, view, -, hjoin, -⟩
    rw [hphase] at hjoin
    cases hjoin

end Steps

/-- Deletions of the query logs of a profile, and reads of a top list of them at one instance. -/
def deletionsAndTops (i : Fin 6) : Job :=
  if i.val % 2 = 0 then .purge "0a1b" .logs else .read 0 "0a1b" (.top "blocked" "LAST_1_DAY")

/-- Reads 1 and 3 share a flight, during which the logs are deleted once more; its list is stored
too late to be found by read 5. -/
theorem fresh_run_shared : ∃ s, Reaches deletionsAndTops s ∧
    s.phase 3 = .returned 1 (some ⟨"ads.example since noon", 3, 1⟩) ∧
      s.phase 5 = .returned 2 (some ⟨"", 0, 2⟩) ∧
    1 ≤ (⟨"ads.example since noon", 3, 1⟩ : Answer).asOf ∧ 2 ≤ (⟨"", 0, 2⟩ : Answer).asOf := by
  have hinitial : Reaches deletionsAndTops (System.initial deletionsAndTops) := .initial
  -- the first deletion: the counter comes to 1
  have hdelete := reaches_quiet (m := ⟨0, 0, .ok, "", 0, false⟩) hinitial rfl nofun nofun rfl
  have hincr := reaches_incr (m := ⟨0, 0, .ok, "", 0, false⟩) hdelete rfl rfl rfl (fun _ => rfl)
    (by intro i asOf h; fin_cases i <;> exact h) rfl
  have hexpire := reaches_quiet (m := ⟨0, 0, .ok, "", 0, false⟩) hincr rfl nofun nofun rfl
  -- read 1 takes number 1, finds nothing, leads and queries
  have hgen₁ := reaches_quiet (m := ⟨1, 0, .ok, "", 0, false⟩) hexpire rfl nofun nofun rfl
  have hlook₁ := reaches_quiet (m := ⟨1, 0, .ok, "", 0, false⟩) hgen₁ rfl nofun nofun rfl
  have hlead₁ := reaches_quiet (m := ⟨1, 0, .ok, "", 0, false⟩) hlook₁ rfl nofun nofun rfl
  have hquery₁ :=
    reaches_quiet (m := ⟨1, 0, .ok, "ads.example", 3, false⟩) hlead₁ rfl nofun nofun rfl
  -- read 3 joins it
  have hgen₃ := reaches_quiet (m := ⟨3, 0, .ok, "", 0, false⟩) hquery₁ rfl nofun nofun rfl
  have hlook₃ := reaches_quiet (m := ⟨3, 0, .ok, "", 0, false⟩) hgen₃ rfl nofun nofun rfl
  have hjoin₃ := reaches_quiet (m := ⟨3, 0, .ok, "", 0, false⟩) hlook₃ rfl nofun nofun rfl
  -- the second deletion: 2
  have hdelete₂ := reaches_quiet (m := ⟨2, 0, .ok, "", 0, false⟩) hjoin₃ rfl nofun nofun rfl
  have hincr₂ := reaches_incr (m := ⟨2, 0, .ok, "", 0, false⟩) hdelete₂ rfl rfl rfl (fun _ => rfl)
    (by intro i asOf h; fin_cases i <;> first | exact h | exact absurd h.1 (by decide)) rfl
  -- read 1 stores its list under 1, and read 3 gets it
  have hcover₁ :=
    reaches_quiet (m := ⟨1, 0, .ok, " since noon", 0, false⟩) hincr₂ rfl nofun nofun rfl
  have hwrite₁ := reaches_quiet (m := ⟨1, 0, .ok, "", 0, false⟩) hcover₁ rfl nofun nofun rfl
  have hreturn₃ := reaches_quiet (m := ⟨3, 0, .ok, "", 0, false⟩) hwrite₁ rfl nofun nofun rfl
  -- read 5 takes number 2
  have hgen₅ := reaches_quiet (m := ⟨5, 0, .ok, "", 0, false⟩) hreturn₃ rfl nofun nofun rfl
  have hlook₅ := reaches_quiet (m := ⟨5, 0, .ok, "", 0, false⟩) hgen₅ rfl nofun nofun rfl
  have hlead₅ := reaches_quiet (m := ⟨5, 0, .ok, "", 0, false⟩) hlook₅ rfl nofun nofun rfl
  have hquery₅ := reaches_quiet (m := ⟨5, 0, .ok, "", 0, false⟩) hlead₅ rfl nofun nofun rfl
  have hcover₅ := reaches_quiet (m := ⟨5, 0, .fail false, "", 0, false⟩) hquery₅ rfl nofun nofun rfl
  exact ⟨_, hcover₅, rfl, rfl, fresh_run hcover₅ (i := 3) rfl, fresh_run hcover₅ (i := 5) rfl⟩

/-- Purges of the statistics of a profile, and reads of them. -/
def purgesAndReads (i : Fin 4) : Job :=
  if i.val % 2 = 0 then .purge "0a1b" .statisticsRead else .read 0 "0a1b" (.statistics "LAST_1_DAY")

/-- The counter expires between two purges, just after a read has cached its answer. -/
def numberReused : List (Move (Fin 4)) :=
  [⟨0, 0, .ok, "", 0, false⟩, ⟨0, 0, .ok, "", 0, false⟩, ⟨0, 0, .ok, "", 0, false⟩,
    ⟨1, generationTTL - 10, .ok, "", 0, false⟩, ⟨1, generationTTL - 10, .ok, "", 0, false⟩,
    ⟨1, generationTTL - 10, .ok, "total: 3", 3, false⟩, ⟨1, generationTTL - 10, .ok, "", 0, false⟩,
    ⟨2, generationTTL + 1, .ok, "", 0, false⟩, ⟨2, generationTTL + 1, .ok, "", 0, false⟩,
    ⟨2, generationTTL + 1, .ok, "", 0, false⟩,
    ⟨3, generationTTL + 2, .ok, "", 0, false⟩, ⟨3, generationTTL + 2, .ok, "", 0, false⟩]

/-- The second purge brings the counter to 1 again, and the answer from before it is found. -/
theorem number_reused :
    ¬ ∀ (ms : List (Move (Fin 4))) (s : System (Fin 4)) (i : Fin 4) (since : ℕ) (answer : Answer),
    System.play ms (System.initial purgesAndReads) = some s →
    s.phase i = .returned since (some answer) →
      since ≤ answer.asOf := by
  intro hclaim
  have hplay : (System.play numberReused (System.initial purgesAndReads)).map (fun s => s.phase 3) =
      some (.returned 2 (some ⟨"total: 3", 3, 1⟩)) := by decide +kernel
  obtain ⟨s, hs, hphase⟩ := Option.map_eq_some_iff.1 hplay
  exact absurd (hclaim numberReused s 3 2 _ hs hphase) (by decide)

/-- Read 1 of a new counter has queried its list when the logs are deleted. Read 3 starts after
that, cannot read the counter, and joins the flight of number 0. -/
def unreadJoins : List (Move (Fin 6)) :=
  [⟨1, 0, .ok, "", 0, false⟩, ⟨1, 0, .ok, "", 0, false⟩, ⟨1, 0, .ok, "", 0, false⟩,
    ⟨1, 0, .ok, "ads.example", 3, false⟩, ⟨0, 0, .ok, "", 0, false⟩, ⟨0, 0, .ok, "", 0, false⟩,
    ⟨3, 0, .fail false, "", 0, false⟩, ⟨3, 0, .ok, "", 0, false⟩,
    ⟨1, 0, .fail false, "", 0, false⟩, ⟨3, 0, .ok, "", 0, false⟩]

example : (System.play unreadJoins (System.initial deletionsAndTops)).map (fun s => s.phase 3) =
    some (.returned 1 (some ⟨"ads.example", 3, 0⟩)) := by decide +kernel

end ModDNS.Caches
