import Mathlib.Data.List.Perm.Subperm
import ModDNS.Conc.Meets
import ModDNS.Data.TokenBucket
import ModDNS.Go.Netip

/-!
# Rate limits

The limiter of a key is looked up, and if there is none a new one is made and added, in steps of
their own. Time passes before any step. What the cache drops on its own, it drops in steps of their
own too.

* `ipKey_iff`: which addresses share a key.
* `one_limiter`: the calls for a key that find no limiter all make one; if there is one such call,
  all use the same.
* `admissions_bounded`: so no window has more admissions than the burst and the rate let through.
* `first_queries`: two first queries that arrive together get a burst each.
-/

namespace ModDNS.Proxy.RateLimit

open Conc Go Data

/-- The two layers, each with a store of its own. -/
inductive Layer where
  | ip
  | profile
  deriving DecidableEq

structure Config where
  perIPEnabled : Bool
  perIPRate : ℤ
  perIPBurst : ℤ
  perProfileEnabled : Bool
  perProfileRate : ℤ
  perProfileBurst : ℤ
  ipv6PrefixLen : ℤ

def defaultIPv6PrefixLen : ℤ := 64

/-- The configuration that `New` keeps. -/
def Config.new (cfg : Config) : Config :=
  if cfg.ipv6PrefixLen < 1 ∨ 128 < cfg.ipv6PrefixLen then
    { cfg with ipv6PrefixLen := defaultIPv6PrefixLen } else cfg

def Config.rate (cfg : Config) : Layer → ℤ
  | .ip => cfg.perIPRate
  | .profile => cfg.perProfileRate

def Config.burst (cfg : Config) : Layer → ℤ
  | .ip => cfg.perIPBurst
  | .profile => cfg.perProfileBurst

def ipKey (cfg : Config) (addr : Addr) : String :=
  let addr := addr.unmap
  if !addr.is6 then addr.string
  else
    match addr.prefixAddr cfg.ipv6PrefixLen with
    | none => addr.string
    | some masked => masked.string

section Limiters

/-- One token, in nanotokens: what a rate of one token per second adds in a nanosecond is one. -/
def token : ℕ := 1000000000

/-- `rate.Limiter`. A rate or a burst below zero lets nothing through. -/
structure Limiter where
  rps : ℕ
  burst : ℕ
  bucket : Bucket

def Limiter.new (rps burst : ℤ) (now : ℕ) : Limiter :=
  ⟨rps.toNat, burst.toNat, .full (token * burst.toNat) now⟩

/-- `Allow`. -/
def Limiter.allow (l : Limiter) (now : ℕ) : Bool × Limiter :=
  let r := l.bucket.allow l.rps (token * l.burst) token now
  (r.1, { l with bucket := r.2 })

end Limiters

/-- A key of a store. -/
abbrev Slot := Layer × String

/-- The steps. `create` is `rate.NewLimiter` with the first `Allow`, which no other call can see; it
answers where the limiter is and when its token was taken, as `allow` does. -/
inductive LimitOp where
  | get (slot : Slot)
  | create (rps burst : ℤ)
  | allow (limiter : ℕ)
  | add (slot : Slot) (limiter : ℕ)
  | evict (slot : Slot)
  deriving DecidableEq

abbrev LimitSig : Sig where
  Op := LimitOp
  Res
    | .get _ => Option ℕ
    | .create _ _ => ℕ × ℕ
    | .allow _ => Bool × ℕ
    | .add _ _ => Unit
    | .evict _ => Unit

/-- The limiters that there are, and which of them the stores know. -/
structure LimitState where
  now : ℕ
  store : Slot → Option ℕ
  limiters : List Limiter

/-- The environment chooses how much time passes before the step. -/
def limitHandler {ι : Type} : Handler LimitSig ι LimitState ℕ := fun _ o elapsed s =>
  let now := s.now + elapsed
  match o with
  | .get slot => some (s.store slot, { s with now := now })
  | .create rps burst =>
    let limiter := ((Limiter.new rps burst now).allow now).2
    some ((s.limiters.length, now), { s with now := now, limiters := s.limiters ++ [limiter] })
  | .allow r =>
    s.limiters[r]?.map fun limiter =>
      (((limiter.allow now).1, now),
        { s with now := now, limiters := s.limiters.set r (limiter.allow now).2 })
  | .add slot r => some ((), { s with now := now, store := Function.update s.store slot (some r) })
  | .evict slot => some ((), { s with now := now, store := Function.update s.store slot none })

section Programs

abbrev step (o : LimitOp) : Prog LimitSig (LimitSig.Res o) := Prog.op (S := LimitSig) o

def check (layer : Layer) (key : String) (rps burst : ℤ) : Prog LimitSig Bool := do
  let found : Option ℕ ← step (.get (layer, key))
  match found with
  | some limiter =>
    let allowed : Bool × ℕ ← step (.allow limiter)
    return allowed.1
  | none =>
    let limiter : ℕ × ℕ ← step (.create rps burst)
    let _ ← step (.add (layer, key) limiter.1)
    return true

def checkIP (cfg : Config) (addr : Addr) : Prog LimitSig Bool :=
  if !cfg.perIPEnabled then return true else check .ip (ipKey cfg addr) cfg.perIPRate cfg.perIPBurst

def checkProfile (cfg : Config) (profileID : String) : Prog LimitSig Bool :=
  if !cfg.perProfileEnabled then return true
  else check .profile profileID cfg.perProfileRate cfg.perProfileBurst

/-- A call, or the cache dropping a key. -/
inductive Job where
  | checkIP (addr : Addr)
  | checkProfile (profileID : String)
  | evict (slot : Slot)

def Job.prog (cfg : Config) : Job → Prog LimitSig Bool
  | .checkIP addr => RateLimit.checkIP cfg addr
  | .checkProfile profileID => RateLimit.checkProfile cfg profileID
  | .evict slot => do
    let _ ← step (.evict slot)
    return false

/-- The key that a call is checked under, if its layer is on. -/
def Job.slot (cfg : Config) : Job → Option Slot
  | .checkIP addr => if !cfg.perIPEnabled then none else some (.ip, ipKey cfg addr)
  | .checkProfile profileID => if !cfg.perProfileEnabled then none else some (.profile, profileID)
  | .evict _ => none

abbrev LimitPool (ι : Type) := Pool LimitSig ι LimitState Bool

/-- Any number of calls, on a rate limiter that `New` has created with `cfg`. -/
def startCalls {ι : Type} (cfg : Config) (now : ℕ) (jobs : ι → Job) : LimitPool ι :=
  ⟨⟨now, fun _ => none, []⟩, fun i => (jobs i).prog cfg.new⟩

end Programs

section Keys

/-- **One client**: the same IPv4 address, or IPv6 addresses with the same `n` leading bits. -/
def SameClient (n : ℕ) (a b : Addr) : Prop :=
  match a.unmap, b.unmap with
  | .v6 x _, .v6 y _ => ∀ i < n, x.getMsbD i = y.getMsbD i
  | a, b => a = b

theorem new_prefixLen (cfg : Config) : ∃ n : ℕ, cfg.new.ipv6PrefixLen = n ∧ 1 ≤ n ∧ n ≤ 128 := by
  unfold Config.new
  split
  · exact ⟨64, rfl, by decide⟩
  · next hin =>
    obtain ⟨n, hn⟩ := Int.eq_ofNat_of_zero_le (show 0 ≤ cfg.ipv6PrefixLen by omega)
    exact ⟨n, hn, by omega⟩

variable {cfg : Config} {n : ℕ} {addr : Addr}

theorem ipKey_v6 (hcfg : cfg.ipv6PrefixLen = n) (hn : n ≤ 128) {x : BitVec 128} {zone : String}
    (h : addr.unmap = .v6 x zone) : ipKey cfg addr = string6 (x &&& mask6 n) := by
  have hprefix : (Addr.v6 x zone).prefixAddr cfg.ipv6PrefixLen = some (.v6 (x &&& mask6 n) "") := by
    rw [Addr.prefixAddr, hcfg, if_neg (by omega), Int.toNat_natCast]
  have hnot : is4In6 (x &&& mask6 n) = false :=
    Bool.eq_false_iff.2 fun hmask => Bool.eq_false_iff.1 (unmap_not4In6 h) (is4In6_mask n hmask)
  have hmasked : (Addr.v6 (x &&& mask6 n) "").string = string6 (x &&& mask6 n) := by
    rw [Addr.string, hnot, if_neg Bool.false_ne_true, zoneText, if_pos rfl]
    exact String.append_empty
  unfold ipKey
  dsimp only
  rw [h, if_neg (show ¬ (!(Addr.v6 x zone).is6) = true from nofun), hprefix]
  exact hmasked

theorem ipKey_not6 (cfg : Config) (h : addr.unmap.is6 = false) :
    ipKey cfg addr = addr.unmap.string := by
  unfold ipKey
  dsimp only
  rw [h]
  rfl

theorem unmap_cases (addr : Addr) :
    (∃ x zone, addr.unmap = .v6 x zone) ∨ addr.unmap.is6 = false := by
  cases h : addr.unmap with
  | zero => exact .inr rfl
  | v4 a b c d => exact .inr rfl
  | v6 x zone => exact .inl ⟨x, zone, rfl⟩

theorem sameClient_v6 {a b : Addr} {x y : BitVec 128} {zone zone' : String}
    (ha : a.unmap = .v6 x zone) (hb : b.unmap = .v6 y zone') :
    SameClient n a b ↔ ∀ i < n, x.getMsbD i = y.getMsbD i := by
  unfold SameClient
  rw [ha, hb]

theorem sameClient_not6 {a b : Addr} (h : a.unmap.is6 = false ∨ b.unmap.is6 = false) :
    SameClient n a b ↔ a.unmap = b.unmap := by
  unfold SameClient
  split
  · next ha hb =>
    rw [ha, hb] at h
    rcases h with h | h <;> cases h
  · exact Iff.rfl

/-- **Addresses share a key exactly if they are of one client.** -/
theorem ipKey_iff (hcfg : cfg.ipv6PrefixLen = n) (hn : n ≤ 128) (a b : Addr) :
    ipKey cfg a = ipKey cfg b ↔ SameClient n a b := by
  rcases unmap_cases a with ⟨x, zone, ha⟩ | ha
  · rcases unmap_cases b with ⟨y, zone', hb⟩ | hb
    · rw [ipKey_v6 hcfg hn ha, ipKey_v6 hcfg hn hb, sameClient_v6 ha hb, ← mask6_inj hn]
      exact ⟨string6_inj, fun h => by rw [h]⟩
    · rw [ipKey_v6 hcfg hn ha, ipKey_not6 cfg hb, sameClient_not6 (.inr hb)]
      refine ⟨fun h => ?_, fun h => ?_⟩
      · exact absurd (h ▸ string6_colon (x &&& mask6 n)) (string_colon hb)
      · rw [← h, ha] at hb
        cases hb
  · rcases unmap_cases b with ⟨y, zone', hb⟩ | hb
    · rw [ipKey_v6 hcfg hn hb, ipKey_not6 cfg ha, sameClient_not6 (.inl ha)]
      refine ⟨fun h => ?_, fun h => ?_⟩
      · exact absurd (h ▸ string6_colon (y &&& mask6 n)) (string_colon ha)
      · rw [h, hb] at ha
        cases ha
    · rw [ipKey_not6 cfg ha, ipKey_not6 cfg hb, sameClient_not6 (.inl ha)]
      exact ⟨string_inj ha hb, fun h => by rw [h]⟩

end Keys

section Histories

variable {ι : Type}

abbrev LimitEvent (ι : Type) := Event LimitSig ι

/-- The call finds no limiter. -/
def Misses (slot : Slot) : LimitEvent ι → Prop
  | ⟨_, .get k, (found : Option ℕ)⟩ => k = slot ∧ found = none
  | _ => False

/-- The limiter that the step takes a token from, and when. -/
def admittedBy : LimitEvent ι → Option (ℕ × ℕ)
  | ⟨_, .create _ _, (limiter : ℕ × ℕ)⟩ => some limiter
  | ⟨_, .allow r, (allowed : Bool × ℕ)⟩ => if allowed.1 then some (r, allowed.2) else none
  | _ => none

/-- The call takes a token at `t`. -/
def TakesAt (es : List (LimitEvent ι)) (i : ι) (t : ℕ) : Prop :=
  ∃ e ∈ es, e.who = i ∧ ∃ r, admittedBy e = some (r, t)

/-- The call is for the key, has returned true, and has taken its token between `a` and `u`. -/
def AdmittedIn (cfg : Config) (jobs : ι → Job) (slot : Slot) (es : List (LimitEvent ι))
    (Q : LimitPool ι) (a u : ℕ) (i : ι) : Prop :=
  (jobs i).slot cfg.new = some slot ∧ (Q.prog i).result = some true ∧
  ∃ t, TakesAt es i t ∧ a ≤ t ∧ t ≤ u

/-- **First queries come apart**: no call looks the key up while another one, that has found no
limiter, has not added its own yet. -/
def Apart (slot : Slot) (es : List (LimitEvent ι)) : Prop :=
  ∀ es₁ es₂ es₃ e f, es = es₁ ++ e :: (es₂ ++ f :: es₃) → Misses slot e → f.op = .get slot →
    ∃ g ∈ es₂, g.who = e.who ∧ ∃ r, g.op = .add slot r

/-- **Bounded**: the calls for the key that return true are, in any window, no more than the burst
and what the rate adds. -/
def Bounded (cfg : Config) (jobs : ι → Job) (slot : Slot) (es : List (LimitEvent ι))
    (Q : LimitPool ι) : Prop :=
  ∀ a u, a ≤ u → ∀ calls : List ι, calls.Nodup →
  (∀ i ∈ calls, AdmittedIn cfg jobs slot es Q a u i) →
    token * calls.length ≤ token * (cfg.burst slot.1).toNat + (cfg.rate slot.1).toNat * (u - a)

/-- When the limiter gave a token, the last time first. -/
def spent (r : ℕ) (es : List (LimitEvent ι)) : List ℕ :=
  (es.filterMap fun e => (admittedBy e).bind fun p => if p.1 = r then some p.2 else none).reverse

theorem spent_snoc (r : ℕ) (es : List (LimitEvent ι)) (e : LimitEvent ι) :
    spent r (es ++ [e]) = ((admittedBy e).bind fun p => if p.1 = r then some p.2
      else none).toList ++ spent r es := by
  unfold spent
  rw [List.filterMap_append, List.reverse_append]
  congr 1
  cases h : (admittedBy e).bind fun p => if p.1 = r then some p.2 else none <;> simp [h]

theorem spent_other {r : ℕ} {es : List (LimitEvent ι)} {e : LimitEvent ι}
    (h : ∀ p ∈ admittedBy e, p.1 ≠ r) :
    spent r (es ++ [e]) = spent r es := by
  rw [spent_snoc]
  cases hp : admittedBy e with
  | none => rfl
  | some p => rw [Option.bind_some, if_neg (h p hp), Option.toList_none, List.nil_append]

theorem spent_own {r t : ℕ} {es : List (LimitEvent ι)} {e : LimitEvent ι}
    (h : admittedBy e = some (r, t)) :
    spent r (es ++ [e]) = t :: spent r es := by
  rw [spent_snoc, h, Option.bind_some, if_pos rfl]
  rfl

/-- Different calls that take a token from one limiter are as many of its tokens. -/
theorem length_le_spent {r a u : ℕ} {es : List (LimitEvent ι)} {calls : List ι} (hnd : calls.Nodup)
    (h : ∀ i ∈ calls, ∃ e ∈ es, e.who = i ∧ ∃ t, admittedBy e = some (r, t) ∧ a ≤ t ∧ t ≤ u) :
    calls.length ≤ inWindow a u (spent r es) := by
  have hsub : calls ⊆
    (es.filter fun e => (((admittedBy e).bind fun p => if p.1 = r then some p.2 else none).map
      fun t => decide (a ≤ t ∧ t ≤ u)).getD false).map Event.who := by
    intro i hi
    obtain ⟨e, he, rfl, t, hr, hin⟩ := h i hi
    refine List.mem_map.2 ⟨e, List.mem_filter.2 ⟨he, ?_⟩, rfl⟩
    rw [hr, Option.bind_some, if_pos rfl]
    exact decide_eq_true hin
  have hle := (List.subperm_of_subset hnd hsub).length_le
  rw [List.length_map, ← List.countP_eq_length_filter] at hle
  rwa [inWindow, spent, List.countP_reverse, List.countP_filterMap]

end Histories

section Steps

variable {cfg : Config} {slot : Slot}

/-- What a call for a key has done when it takes a step. -/
def StepOf (cfg : Config) (slot : Option Slot) (l : List LimitSig.Act) : LimitOp → Prop
  | .get k => slot = some k ∧ l = []
  | .create rps burst =>
    ∃ k, slot = some k ∧ l = [⟨.get k, (none : Option ℕ)⟩] ∧ rps = cfg.rate k.1 ∧
      burst = cfg.burst k.1
  | .allow r => ∃ k, slot = some k ∧ l = [⟨.get k, (some r : Option ℕ)⟩]
  | .add k r =>
    slot = some k ∧ ∃ t : ℕ, l = [⟨.get k, (none : Option ℕ)⟩,
      ⟨.create (cfg.rate k.1) (cfg.burst k.1), (r, t)⟩]
  | .evict _ => True

/-- What a call for a key has done when it returns. -/
def EndOf (cfg : Config) (slot : Option Slot) (l : List LimitSig.Act) (b : Bool) : Prop :=
  ∀ k, slot = some k →
    (b = true ∧ ∃ r t : ℕ,
      l = [⟨.get k, (none : Option ℕ)⟩, ⟨.create (cfg.rate k.1) (cfg.burst k.1), (r, t)⟩,
        ⟨.add k r, ()⟩]) ∨
    ∃ r t : ℕ, l = [⟨.get k, (some r : Option ℕ)⟩, ⟨.allow r, (b, t)⟩]

theorem check_meets (layer : Layer) (key : String) :
    Meets (StepOf cfg (some (layer, key))) (EndOf cfg (some (layer, key)))
      (check layer key (cfg.rate layer) (cfg.burst layer)) [] := by
  refine ⟨⟨rfl, rfl⟩, fun found => ?_⟩
  cases found with
  | none =>
    refine ⟨⟨_, rfl, rfl, rfl, rfl⟩, fun limiter => ⟨⟨rfl, limiter.2, rfl⟩, fun _ k hk => ?_⟩⟩
    cases hk
    exact .inl ⟨rfl, limiter.1, limiter.2, rfl⟩
  | some r =>
    refine ⟨⟨_, rfl, rfl⟩, fun allowed k hk => ?_⟩
    cases hk
    exact .inr ⟨r, allowed.2, rfl⟩

theorem job_meets (job : Job) :
    Meets (StepOf cfg (job.slot cfg)) (EndOf cfg (job.slot cfg)) (job.prog cfg) [] := by
  cases job with
  | checkIP addr =>
    rw [Job.slot, Job.prog, checkIP]
    split
    · nofun
    · exact check_meets .ip _
  | checkProfile profileID =>
    rw [Job.slot, Job.prog, checkProfile]
    split
    · nofun
    · exact check_meets .profile _
  | evict slot => exact ⟨trivial, fun _ => nofun⟩

end Steps

section Runs

variable {ι : Type} [DecidableEq ι] {cfg : Config} {now : ℕ} {jobs : ι → Job} {slot : Slot}
  {es : List (LimitEvent ι)} {Q : LimitPool ι}

theorem mem_of_trace {i : ι} {l : List LimitSig.Act} {o : LimitOp} {r : LimitSig.Res o}
    (h : trace i es = l) (hm : (⟨o, r⟩ : LimitSig.Act) ∈ l) : (⟨i, o, r⟩ : LimitEvent ι) ∈ es := by
  rw [← h] at hm
  exact mem_trace.1 hm

/-- What one step does. -/
theorem limit_step {Q R : LimitPool ι} {e : LimitEvent ι} (hs : Step limitHandler Q e R) :
    ∃ elapsed, R.state.now = Q.state.now + elapsed ∧
      match e.op, e.res with
      | .get k, (found : Option ℕ) =>
        found = Q.state.store k ∧ R.state.store = Q.state.store ∧
          R.state.limiters = Q.state.limiters
      | .create rps burst, (limiter : ℕ × ℕ) =>
        limiter = (Q.state.limiters.length, R.state.now) ∧ R.state.store = Q.state.store ∧
          R.state.limiters = Q.state.limiters ++
            [((Limiter.new rps burst R.state.now).allow R.state.now).2]
      | .allow r, (allowed : Bool × ℕ) => ∃ limiter, Q.state.limiters[r]? = some limiter ∧
          allowed = ((limiter.allow R.state.now).1, R.state.now) ∧ R.state.store = Q.state.store ∧
          R.state.limiters = Q.state.limiters.set r (limiter.allow R.state.now).2
      | .add k r, _ =>
        R.state.store = Function.update Q.state.store k (some r) ∧
          R.state.limiters = Q.state.limiters
      | .evict k, _ =>
        R.state.store = Function.update Q.state.store k none ∧
          R.state.limiters = Q.state.limiters := by
  obtain ⟨i, o, res⟩ := e
  obtain ⟨k, elapsed, s, hp, hc, rfl⟩ := step_iff.1 hs
  refine ⟨elapsed, ?_⟩
  cases o with
  | get k =>
    cases hc
    exact ⟨rfl, rfl, rfl, rfl⟩
  | create rps burst =>
    cases hc
    exact ⟨rfl, rfl, rfl, rfl⟩
  | allow r =>
    obtain ⟨limiter, hlimiter, hres⟩ := Option.map_eq_some_iff.1 hc
    cases hres
    exact ⟨rfl, limiter, hlimiter, rfl, rfl, rfl⟩
  | add k r =>
    cases hc
    exact ⟨rfl, rfl, rfl⟩
  | evict k =>
    cases hc
    exact ⟨rfl, rfl, rfl⟩

/-- The limiter has been made by a call that had found none for the key. -/
def Made (cfg : Config) (jobs : ι → Job) (slot : Slot) (r : ℕ) (es : List (LimitEvent ι)) : Prop :=
  ∃ i, ∃ t : ℕ, (jobs i).slot cfg.new = some slot ∧
    (⟨i, .get slot, (none : Option ℕ)⟩ : LimitEvent ι) ∈ es ∧
    (⟨i, .create (cfg.new.rate slot.1) (cfg.new.burst slot.1), (r, t)⟩ : LimitEvent ι) ∈ es

omit [DecidableEq ι] in
theorem Made.mono {r : ℕ} {es' : List (LimitEvent ι)} (h : Made cfg jobs slot r es)
    (hsub : es ⊆ es') :
    Made cfg jobs slot r es' := by
  obtain ⟨i, t, hi, hget, hcreate⟩ := h
  exact ⟨i, t, hi, hsub hget, hsub hcreate⟩

/-- What the stores know has been made for their keys. -/
theorem store_made (hr : Run limitHandler Free (startCalls cfg now jobs) es Q) {r : ℕ} :
    Q.state.store slot = some r → Made cfg jobs slot r es := by
  refine run_ind_meets (I := fun es (Q : LimitPool ι) => Q.state.store slot = some r →
    Made cfg jobs slot r es)
    (fun i => job_meets (jobs i)) (fun h : (none : Option ℕ) = some r => nomatch h)
    (fun es Q e R _ ih hdone _ hs hstore => ?_) hr
  have hkept : Q.state.store slot = some r → Made cfg jobs slot r (es ++ [e]) := fun h =>
    (ih h).mono (List.subset_append_left _ _)
  obtain ⟨elapsed, -, hres⟩ := limit_step hs
  obtain ⟨i, o, res⟩ := e
  cases o with
  | get k => exact hkept (hres.2.1 ▸ hstore)
  | create rps burst => exact hkept (hres.2.1 ▸ hstore)
  | allow r' =>
    obtain ⟨limiter, -, -, hsame, -⟩ := hres
    exact hkept (hsame ▸ hstore)
  | evict k =>
    rw [hres.1, Function.update_apply] at hstore
    split at hstore
    · cases hstore
    · exact hkept hstore
  | add k r' =>
    rw [hres.1, Function.update_apply] at hstore
    split at hstore
    · next hk =>
      cases hstore
      subst hk
      obtain ⟨hi, t, htrace⟩ := hdone
      refine ⟨i, t, hi, List.mem_append_left _ ?_, List.mem_append_left _ ?_⟩
      · exact mem_of_trace htrace List.mem_cons_self
      · exact mem_of_trace htrace (List.mem_cons_of_mem _ (List.mem_singleton.2 rfl))
    · exact hkept hstore

/-- What a call has found has been made. -/
theorem found_made (hr : Run limitHandler Free (startCalls cfg now jobs) es Q) {i : ι} {r : ℕ}
    (hm : (⟨i, .get slot, (some r : Option ℕ)⟩ : LimitEvent ι) ∈ es) : Made cfg jobs slot r es := by
  obtain ⟨es₁, es₂, rfl⟩ := List.append_of_mem hm
  obtain ⟨Q₁, R₁, hr₁, -, hs, -⟩ := run_mid hr
  obtain ⟨elapsed, -, hfound, -⟩ := limit_step hs
  exact (store_made hr₁ hfound.symm).mono (List.subset_append_left _ _)

/-- The calls for a key take their tokens from limiters that were made for it. -/
theorem admitted_made (hr : Run limitHandler Free (startCalls cfg now jobs) es Q)
    {e : LimitEvent ι} (he : e ∈ es) (hslot : (jobs e.who).slot cfg.new = some slot) {r t : ℕ}
    (hgives : admittedBy e = some (r, t)) :
    Made cfg jobs slot r es := by
  obtain ⟨es₁, es₂, rfl⟩ := List.append_of_mem he
  have hdone := run_met_mid (fun i => job_meets (jobs i)) hr
  obtain ⟨i, o, res⟩ := e
  cases o with
  | get k => cases hgives
  | add k r' => cases hgives
  | evict k => cases hgives
  | create rps burst =>
    obtain ⟨k, hk, htrace, rfl, rfl⟩ := hdone
    cases hslot.symm.trans hk
    cases hgives
    refine ⟨i, t, hslot, List.mem_append_left _ ?_, List.mem_append_right _ List.mem_cons_self⟩
    exact mem_of_trace htrace (List.mem_singleton.2 rfl)
  | allow r' =>
    obtain ⟨k, hk, htrace⟩ := hdone
    cases hslot.symm.trans hk
    have hr' : r' = r := by
      change (if (res : Bool × ℕ).1 then some (r', (res : Bool × ℕ).2) else none) = some
        (r, t) at hgives
      split at hgives
      · cases hgives
        rfl
      · cases hgives
    subst hr'
    exact found_made hr (List.mem_append_left _ (mem_of_trace htrace (List.mem_singleton.2 rfl)))

/-- A key that has been added stays, as long as it is not dropped. -/
theorem store_kept {P : LimitPool ι} (hr : Run limitHandler Free P es Q)
    (hkept : ∀ e ∈ es, e.op ≠ .evict slot)
    (hadded : (∃ e ∈ es, ∃ r, e.op = .add slot r) ∨ P.state.store slot ≠ none) :
    Q.state.store slot ≠ none := by
  induction hr with
  | nil => exact hadded.resolve_left (by simp)
  | @snoc es Q R e _ _ hs ih =>
    have hold : e.op ≠ .evict slot → (∀ r, e.op ≠ .add slot r) → Q.state.store slot ≠ none := by
      intro _ hadd
      refine ih (fun e he => hkept e (List.mem_append_left _ he)) (hadded.imp_left ?_)
      rintro ⟨f, hf, r, hr⟩
      rcases List.mem_append.1 hf with hf | hf
      · exact ⟨f, hf, r, hr⟩
      · exact absurd (List.mem_singleton.1 hf ▸ hr) (hadd r)
    have hlast := hkept e (List.mem_append_right _ (List.mem_singleton.2 rfl))
    obtain ⟨elapsed, -, hres⟩ := limit_step hs
    obtain ⟨i, o, res⟩ := e
    cases o with
    | get k => exact hres.2.1 ▸ hold hlast nofun
    | create rps burst => exact hres.2.1 ▸ hold hlast nofun
    | allow r =>
      obtain ⟨limiter, -, -, hsame, -⟩ := hres
      exact hsame ▸ hold hlast nofun
    | evict k =>
      have hne : slot ≠ k := fun h => hlast (h ▸ rfl)
      rw [hres.1, Function.update_of_ne hne]
      exact hold hlast nofun
    | add k r =>
      by_cases hk : slot = k
      · subst hk
        rw [hres.1, Function.update_self]
        exact Option.some_ne_none r
      · rw [hres.1, Function.update_of_ne hk]
        refine hold hlast fun r' h => hk ?_
        cases h
        rfl

/-- **Only one call finds no limiter**, if first queries come apart. -/
theorem misses_unique (hr : Run limitHandler Free (startCalls cfg now jobs) es Q)
    (hkept : ∀ e ∈ es, e.op ≠ .evict slot) (hapart : Apart slot es) {e f : LimitEvent ι}
    (he : e ∈ es) (hf : f ∈ es) (hmiss : Misses slot e) (hmiss' : Misses slot f) : e = f := by
  have horder : ∀ es₁ es₂ es₃ e f, es = es₁ ++ e :: (es₂ ++ f :: es₃) → Misses slot e →
      ¬ Misses slot f := by
    intro es₁ es₂ es₃ e f heq hmiss hmiss'
    have hop : f.op = .get slot ∧ ∀ Q R : LimitPool ι, Step limitHandler Q f R →
        Q.state.store slot = none := by
      obtain ⟨i, o, res⟩ := f
      cases o with
      | get k =>
        obtain ⟨rfl, hnone⟩ := hmiss'
        refine ⟨rfl, fun Q R hs => ?_⟩
        obtain ⟨elapsed, -, hfound, -⟩ := limit_step hs
        exact hfound.symm.trans hnone
      | create rps burst => exact hmiss'.elim
      | allow r => exact hmiss'.elim
      | add k r => exact hmiss'.elim
      | evict k => exact hmiss'.elim
    obtain ⟨g, hg, -, r, hadd⟩ := hapart es₁ es₂ es₃ e f heq hmiss hop.1
    rw [heq, ← List.cons_append, ← List.append_assoc] at hr
    obtain ⟨Q₁, R₁, hr₁, -, hs, -⟩ := run_mid hr
    refine store_kept hr₁ (fun e' he' => hkept e' ?_) (.inl ⟨g, ?_, r, hadd⟩) (hop.2 Q₁ R₁ hs)
    · rw [heq, ← List.cons_append, ← List.append_assoc]
      exact List.mem_append_left _ he'
    · exact List.mem_append_right _ (List.mem_cons_of_mem _ hg)
  rcases mem_before he hf with hsame | ⟨es₁, es₂, es₃, heq⟩ | ⟨es₁, es₂, es₃, heq⟩
  · exact hsame
  · exact absurd hmiss' (horder es₁ es₂ es₃ e f heq hmiss)
  · exact absurd hmiss (horder es₁ es₂ es₃ f e heq hmiss')

/-- A call makes one limiter at most. -/
theorem create_unique (hr : Run limitHandler Free (startCalls cfg now jobs) es Q) {i : ι}
    {rps burst rps' burst' : ℤ} {limiter limiter' : ℕ × ℕ}
    (h : (⟨i, .create rps burst, limiter⟩ : LimitEvent ι) ∈ es)
    (h' : (⟨i, .create rps' burst', limiter'⟩ : LimitEvent ι) ∈ es) : limiter = limiter' := by
  -- before a call makes one, its only step was the lookup
  have honce : ∀ es₁ es₂ es₃ : List (LimitEvent ι), ∀ rps burst rps' burst' : ℤ,
    ∀ limiter limiter' : ℕ × ℕ,
      es ≠ es₁ ++ ⟨i, .create rps burst, limiter⟩ ::
        (es₂ ++ ⟨i, .create rps' burst', limiter'⟩ :: es₃) := by
    intro es₁ es₂ es₃ rps burst rps' burst' limiter limiter' heq
    rw [heq, ← List.cons_append, ← List.append_assoc] at hr
    obtain ⟨k, -, htrace, -, -⟩ := run_met_mid (fun i => job_meets (jobs i)) hr
    have hin : (⟨.create rps burst, limiter⟩ : LimitSig.Act) ∈ trace i
      (es₁ ++ ⟨i, .create rps burst, limiter⟩ :: es₂) :=
      mem_trace.2 (List.mem_append_right _ List.mem_cons_self)
    rw [htrace] at hin
    exact absurd (congrArg Sigma.fst (List.mem_singleton.1 hin)) nofun
  rcases mem_before h h' with hsame | ⟨es₁, es₂, es₃, heq⟩ | ⟨es₁, es₂, es₃, heq⟩
  · cases hsame
    rfl
  · exact absurd heq (honce es₁ es₂ es₃ _ _ _ _ _ _)
  · exact absurd heq (honce es₁ es₂ es₃ _ _ _ _ _ _)

/-- If first queries come apart, the calls for a key all take their tokens from one limiter. -/
theorem one_limiter (hr : Run limitHandler Free (startCalls cfg now jobs) es Q)
    (hkept : ∀ e ∈ es, e.op ≠ .evict slot) (hapart : Apart slot es) {r r' : ℕ}
    (h : Made cfg jobs slot r es) (h' : Made cfg jobs slot r' es) : r = r' := by
  obtain ⟨i, t, -, hget, hcreate⟩ := h
  obtain ⟨j, t', -, hget', hcreate'⟩ := h'
  have hsame := misses_unique hr hkept hapart hget hget' ⟨rfl, rfl⟩ ⟨rfl, rfl⟩
  cases hsame
  exact congrArg Prod.fst (create_unique hr hcreate hcreate')

end Runs

section Books

variable {ι : Type} {s s' : LimitState} {es : List (LimitEvent ι)} {r : ℕ}

/-- What the limiter gives is metered. -/
def Limiter.Metered (l : Limiter) (now : ℕ) (ts : List ℕ) : Prop :=
  Data.Metered l.rps (token * l.burst) token l.bucket now ts

theorem Limiter.Metered.allow {l : Limiter} {now : ℕ} {ts : List ℕ} (h : l.Metered now ts) :
    (l.allow now).2.Metered now (if (l.allow now).1 then now :: ts else ts) := by
  change Data.Metered l.rps (token * l.burst) token
    (l.bucket.allow l.rps (token * l.burst) token now).2 now
    (if (l.bucket.allow l.rps (token * l.burst) token now).1 then now :: ts else ts)
  cases hallow : (l.bucket.allow l.rps (token * l.burst) token now).1 with
  | true => exact Data.Metered.allow h hallow
  | false =>
    rw [allow_refused hallow]
    exact h

/-- A new limiter gives a token, if it holds one at all. -/
theorem metered_new (rps : ℤ) {burst : ℤ} (h : 1 ≤ burst.toNat) (now : ℕ) :
    ((Limiter.new rps burst now).allow now).2.Metered now [now] := by
  have hgives : ((Limiter.new rps burst now).allow now).1 = true :=
    allow_full (Nat.le_mul_of_pos_right token h) now
  have hnew : (Limiter.new rps burst now).Metered now [] := metered_full _ _ _ _
  have hallow := hnew.allow
  rwa [hgives, if_pos rfl] at hallow

/-- The account of a limiter: what it has given, and what it was made with. -/
structure Books (r : ℕ) (es : List (LimitEvent ι)) (s : LimitState) : Prop where
  fresh : s.limiters[r]? = none → spent r es = []
  metered : ∀ l, s.limiters[r]? = some l → 1 ≤ l.burst → l.Metered s.now (spent r es)
  made : ∀ i rps burst, ∀ t : ℕ, (⟨i, .create rps burst, (r, t)⟩ : LimitEvent ι) ∈ es →
    ∃ l, s.limiters[r]? = some l ∧ l.rps = rps.toNat ∧ l.burst = burst.toNat

/-- A step that is not about the limiter. -/
theorem Books.keep (h : Books r es s) {e : LimitEvent ι} {elapsed : ℕ}
    (hnow : s'.now = s.now + elapsed) (hsame : s'.limiters[r]? = s.limiters[r]?)
    (hother : ∀ p ∈ admittedBy e, p.1 ≠ r) : Books r (es ++ [e]) s' := by
  have hspent : spent r (es ++ [e]) = spent r es := spent_other hother
  refine ⟨fun hnone => ?_, fun l hl hburst => ?_, fun i rps burst t hm => ?_⟩
  · rw [hspent]
    exact h.fresh (hsame ▸ hnone)
  · rw [hspent, hnow]
    exact Data.Metered.elapse (h.metered l (hsame ▸ hl) hburst) elapsed
  · rw [hsame]
    rcases List.mem_append.1 hm with hm | hm
    · exact h.made i rps burst t hm
    · exact absurd rfl (hother (r, t) (List.mem_singleton.1 hm ▸ rfl))

/-- The limiter is made. -/
theorem Books.create (h : Books r es s) {i : ι} {rps burst : ℤ} (hnone : s.limiters[r]? = none)
    (hnew : s'.limiters[r]? = some ((Limiter.new rps burst s'.now).allow s'.now).2) :
    Books r (es ++ [⟨i, .create rps burst, (r, s'.now)⟩]) s' := by
  refine ⟨fun h' => ?_, fun l hl hburst => ?_, fun j rps' burst' t hm => ?_⟩
  · rw [hnew] at h'
    cases h'
  · cases hnew.symm.trans hl
    rw [spent_own (t := s'.now) rfl, h.fresh hnone]
    exact metered_new rps hburst s'.now
  · rcases List.mem_append.1 hm with hm | hm
    · obtain ⟨l, hl, -⟩ := h.made j rps' burst' t hm
      rw [hnone] at hl
      cases hl
    · cases List.mem_singleton.1 hm
      exact ⟨_, hnew, rfl, rfl⟩

/-- The limiter is asked. -/
theorem Books.allow (h : Books r es s) {i : ι} {l : Limiter} {elapsed : ℕ}
    (hnow : s'.now = s.now + elapsed) (hl : s.limiters[r]? = some l)
    (hnew : s'.limiters[r]? = some (l.allow s'.now).2) :
    Books r (es ++ [⟨i, .allow r, ((l.allow s'.now).1, s'.now)⟩]) s' := by
  have hspent : spent r (es ++ [⟨i, .allow r, ((l.allow s'.now).1, s'.now)⟩]) =
      if (l.allow s'.now).1 then s'.now :: spent r es else spent r es := by
    split
    · next hgives => exact spent_own (t := s'.now) (if_pos hgives)
    · next hnot =>
      have hnone : admittedBy (⟨i, .allow r, ((l.allow s'.now).1, s'.now)⟩ : LimitEvent ι) = none :=
        if_neg hnot
      refine spent_other fun p hp => ?_
      rw [hnone] at hp
      cases hp
  refine ⟨fun h' => ?_, fun l' hl' hburst => ?_, fun j rps burst t hm => ?_⟩
  · rw [hnew] at h'
    cases h'
  · cases hnew.symm.trans hl'
    have hbefore : l.Metered s'.now (spent r es) := by
      rw [hnow]
      exact Data.Metered.elapse (h.metered l hl hburst) elapsed
    rw [hspent]
    exact hbefore.allow
  · rcases List.mem_append.1 hm with hm | hm
    · obtain ⟨l', hl', hmade⟩ := h.made j rps burst t hm
      cases hl.symm.trans hl'
      exact ⟨_, hnew, hmade⟩
    · cases List.mem_singleton.1 hm

/-- **Step lemma.** -/
theorem books_step [DecidableEq ι] {Q R : LimitPool ι} {e : LimitEvent ι} (h : Books r es Q.state)
    (hs : Step limitHandler Q e R) : Books r (es ++ [e]) R.state := by
  obtain ⟨elapsed, hnow, hres⟩ := limit_step hs
  obtain ⟨i, o, res⟩ := e
  cases o with
  | get k => exact h.keep hnow (by rw [hres.2.2]) nofun
  | add k r' => exact h.keep hnow (by rw [hres.2]) nofun
  | evict k => exact h.keep hnow (by rw [hres.2]) nofun
  | create rps burst =>
    obtain ⟨hlimiter, -, hlimiters⟩ := hres
    subst hlimiter
    by_cases hr : Q.state.limiters.length = r
    · subst hr
      have hnone : Q.state.limiters[Q.state.limiters.length]? = none := List.getElem?_eq_none le_rfl
      refine h.create hnone ?_
      rw [hlimiters, List.getElem?_concat_length]
    · -- another limiter: this one is where it was, or still to be made
      refine h.keep hnow ?_ fun p hp => ?_
      · rw [hlimiters, List.getElem?_append]
        split
        · rfl
        · next hge =>
          rw [List.getElem?_eq_none (l := Q.state.limiters) (by omega)]
          exact List.getElem?_eq_none (by rw [List.length_singleton]; omega)
      · cases hp
        exact hr
  -- an admission by this limiter is the one that is booked
  | allow r' =>
    obtain ⟨l, hl, hallowed, -, hlimiters⟩ := hres
    subst hallowed
    by_cases hr : r' = r
    · subst hr
      obtain ⟨hlt, -⟩ := List.getElem?_eq_some_iff.1 hl
      refine h.allow hnow hl ?_
      rw [hlimiters, List.getElem?_set_self hlt]
    · refine h.keep hnow ?_ fun p hp => ?_
      · rw [hlimiters, List.getElem?_set_ne hr]
      · change p ∈ (if (l.allow R.state.now).1 then some (r', R.state.now) else none) at hp
        split at hp
        · cases hp
          exact hr
        · cases hp

theorem books [DecidableEq ι] {cfg : Config} {now : ℕ} {jobs : ι → Job} {Q : LimitPool ι}
    (hrun : Run limitHandler Free (startCalls cfg now jobs) es Q) (r : ℕ) : Books r es Q.state := by
  induction hrun with
  | nil => exact ⟨fun _ => rfl, nofun, nofun⟩
  | snoc _ _ hs ih => exact books_step ih hs

end Books

section Bound

variable {ι : Type} [DecidableEq ι] {cfg : Config} {now : ℕ} {jobs : ι → Job} {slot : Slot}
  {es : List (LimitEvent ι)} {Q : LimitPool ι}

theorem takesAt_iff {i : ι} {t : ℕ} : TakesAt es i t ↔
    ∃ x ∈ trace i es, ∃ r, admittedBy (⟨i, x.1, x.2⟩ : LimitEvent ι) = some (r, t) := by
  constructor
  · rintro ⟨⟨_, o, res⟩, he, rfl, r, hgives⟩
    exact ⟨⟨o, res⟩, mem_trace.2 he, r, hgives⟩
  · rintro ⟨x, hx, r, hgives⟩
    exact ⟨_, mem_trace.1 hx, rfl, r, hgives⟩

/-- A call that has returned true has taken one token. -/
theorem takes_once (hr : Run limitHandler Free (startCalls cfg now jobs) es Q) {i : ι}
    (hslot : (jobs i).slot cfg.new = some slot) (htrue : (Q.prog i).result = some true) :
    ∃! t, TakesAt es i t := by
  have hend := run_ended (fun i => job_meets (jobs i)) hr (Prog.result_eq_some.1 htrue) slot hslot
  rcases hend with ⟨-, r, t, htrace⟩ | ⟨r, t, htrace⟩
  · refine ⟨t, takesAt_iff.2 ?_, fun t' h' => ?_⟩
    · rw [htrace]
      exact ⟨_, List.mem_cons_of_mem _ List.mem_cons_self, r, rfl⟩
    · obtain ⟨x, hx, r', hgives⟩ := takesAt_iff.1 h'
      rw [htrace] at hx
      simp only [List.mem_cons, List.not_mem_nil, or_false] at hx
      rcases hx with rfl | rfl | rfl
      · cases hgives
      · cases hgives
        rfl
      · cases hgives
  · refine ⟨t, takesAt_iff.2 ?_, fun t' h' => ?_⟩
    · rw [htrace]
      exact ⟨_, List.mem_cons_of_mem _ List.mem_cons_self, r, rfl⟩
    · obtain ⟨x, hx, r', hgives⟩ := takesAt_iff.1 h'
      rw [htrace] at hx
      simp only [List.mem_cons, List.not_mem_nil, or_false] at hx
      rcases hx with rfl | rfl
      · cases hgives
      · cases hgives
        rfl

/-- A limiter that was made for a key has the rate and the burst of its layer. -/
theorem made_window (hr : Run limitHandler Free (startCalls cfg now jobs) es Q) {r : ℕ}
    (hmade : Made cfg jobs slot r es) (hburst : 1 ≤ cfg.new.burst slot.1) {a u : ℕ} (hau : a ≤ u) :
    token * inWindow a u (spent r es) ≤ token * (cfg.new.burst slot.1).toNat +
    (cfg.new.rate slot.1).toNat * (u - a) := by
  obtain ⟨i, t, -, -, hcreate⟩ := hmade
  obtain ⟨l, hl, hrps, hlburst⟩ := (books hr r).made i _ _ t hcreate
  have hmetered := (books hr r).metered l hl (by omega)
  rw [← hrps, ← hlburst]
  exact Data.Metered.window hmetered a u hau

theorem new_rate (cfg : Config) : cfg.new.rate = cfg.rate ∧ cfg.new.burst = cfg.burst := by
  unfold Config.new
  split
  · exact ⟨funext fun layer => by cases layer <;> rfl, funext fun layer => by cases layer <;> rfl⟩
  · exact ⟨rfl, rfl⟩

/-- **Admissions are bounded**, if a limiter holds a token at all and first queries come apart;
addresses share a key exactly if they are of one client. -/
theorem admissions_bounded (cfg : Config) (now : ℕ) (jobs : ι → Job) (slot : Slot)
    (hburst : 1 ≤ cfg.burst slot.1) (hr : Run limitHandler Free (startCalls cfg now jobs) es Q)
    (hkept : ∀ e ∈ es, e.op ≠ .evict slot) (hapart : Apart slot es) :
    (∀ i, (jobs i).slot cfg.new = some slot → (Q.prog i).result = some true →
      ∃! t, TakesAt es i t) ∧
      Bounded cfg jobs slot es Q ∧
      ∀ a b, ipKey cfg.new a = ipKey cfg.new b ↔ SameClient cfg.new.ipv6PrefixLen.toNat a b := by
  refine ⟨fun i hslot htrue => takes_once hr hslot htrue, fun a u hau calls hnd hcalls => ?_,
    fun a b => ?_⟩
  -- every admission was made by a limiter
  · have hmade : ∀ i ∈ calls, ∃ e ∈ es, e.who = i ∧ ∃ r t, admittedBy e = some (r, t) ∧
      (a ≤ t ∧ t ≤ u) ∧
        Made cfg jobs slot r es := by
      intro i hi
      obtain ⟨hslot, -, t, ⟨e, he, rfl, r, hgives⟩, hin⟩ := hcalls i hi
      exact ⟨e, he, rfl, r, t, hgives, hin, admitted_made hr he hslot hgives⟩
    by_cases hnone : calls = []
    · rw [hnone]
      exact Nat.zero_le _
    obtain ⟨i, hi⟩ := List.exists_mem_of_ne_nil calls hnone
    obtain ⟨-, -, -, r, -, -, -, hr₀⟩ := hmade i hi
    -- by the same one: first queries come apart and it is not evicted
    have hsame : ∀ i ∈ calls, ∃ e ∈ es, e.who = i ∧ ∃ t, admittedBy e = some (r, t) ∧
        a ≤ t ∧ t ≤ u := by
      intro i hi
      obtain ⟨e, he, hwho, r', t, hgives, hin, hr'⟩ := hmade i hi
      cases one_limiter hr hkept hapart hr₀ hr'
      exact ⟨e, he, hwho, t, hgives, hin⟩
    -- and a token bucket bounds what it admits in a window
    have hwindow := made_window hr hr₀ ((new_rate cfg).2 ▸ hburst) hau
    rw [(new_rate cfg).1, (new_rate cfg).2] at hwindow
    exact Nat.le_trans (Nat.mul_le_mul_left token (length_le_spent hnd hsame)) hwindow
  · obtain ⟨n, hn, -, hle⟩ := new_prefixLen cfg
    rw [hn, Int.toNat_natCast]
    exact ipKey_iff hn hle a b

omit [DecidableEq ι] in
theorem misses_get {e : LimitEvent ι} (h : Misses slot e) : e.op = .get slot := by
  obtain ⟨i, o, r⟩ := e
  cases o with
  | get k => rw [h.1]
  | _ => exact h.elim

omit [DecidableEq ι] in
/-- The first lookup comes apart from the others, when they come after its limiter and find one. -/
theorem apart_of_first {e g : LimitEvent ι} {l₁ l₂ : List (LimitEvent ι)} {r : ℕ}
    (hwho : g.who = e.who) (hadd : g.op = .add slot r) (h₁ : ∀ f ∈ l₁, f.op ≠ .get slot)
    (h₂ : ∀ f ∈ l₂, ¬ Misses slot f) :
    Apart slot (e :: (l₁ ++ g :: l₂)) := by
  have hget : ∀ f ∈ l₁ ++ g :: l₂, f.op = .get slot → f ∈ l₂ := by
    intro f hf hop
    rcases List.mem_append.1 hf with hf | hf
    · exact absurd hop (h₁ f hf)
    · rcases List.mem_cons.1 hf with rfl | hf
      · rw [hadd] at hop
        cases hop
      · exact hf
  intro es₁ es₂ es₃ x f hes hmiss hop
  -- the first lookup, or a later one, which finds a limiter
  cases es₁ with
  | nil =>
    obtain ⟨rfl, hrest⟩ := List.cons.inj hes
    refine ⟨g, ?_, hwho, r, hadd⟩
    rcases List.append_eq_append_iff.1 hrest with ⟨l, hes₂, hl⟩ | ⟨l, hl₁, hl⟩
    · cases l with
      | nil =>
        obtain ⟨rfl, -⟩ := List.cons.inj hl
        rw [hadd] at hop
        cases hop
      | cons y l =>
        obtain ⟨rfl, -⟩ := List.cons.inj hl
        rw [hes₂]
        simp
    · cases l with
      | nil =>
        obtain ⟨rfl, -⟩ := List.cons.inj hl
        rw [hadd] at hop
        cases hop
      | cons y l =>
        obtain ⟨rfl, -⟩ := List.cons.inj hl
        exact absurd hop (h₁ f (by rw [hl₁]; simp))
  | cons y es₁ =>
    obtain ⟨-, hrest⟩ := List.cons.inj hes
    have hx : x ∈ l₁ ++ g :: l₂ := by
      rw [hrest]
      simp
    exact absurd hmiss (h₂ x (hget x hx (misses_get hmiss)))

/-- A limit of one query per second on each profile. -/
def perSecond (burst : ℤ) : Config where
  perIPEnabled := false
  perIPRate := 0
  perIPBurst := 0
  perProfileEnabled := true
  perProfileRate := 1
  perProfileBurst := burst
  ipv6PrefixLen := 0

def profileQueries : Fin 2 → Job := fun _ => .checkProfile "abc"

def profileSlot : Slot := (.profile, "abc")

/-- One of the queries alone. -/
def oneQuery (burst : ℤ) : List (LimitEvent (Fin 2)) :=
  [⟨thread 0, .get profileSlot, (none : Option ℕ)⟩, ⟨thread 0, .create 1 burst, ((0, 0) : ℕ × ℕ)⟩,
    ⟨thread 0, .add profileSlot 0, ()⟩]

/-- Four queries of a profile, one of another one, and the cache dropping that. -/
def turnQueries : Fin 6 → Job
  | 4 => .checkProfile "xyz"
  | 5 => .evict (.profile, "xyz")
  | _ => .checkProfile "abc"

/-- Queries 0 and 4 add their limiters; queries 1 and 2 come too early, and query 3 comes after a
second. -/
def queriesInTurn : List (Fin 6 × ℕ) :=
  ([0, 4, 0, 4, 0, 4, 1, 1, 5, 2].map fun i => (thread i, 0)) ++
    [(thread 2, 500000000), (thread 3, 0), (thread 3, 500000000)]

def otherSlot : Slot := (.profile, "xyz")

/-- What happens up to the limiter of query 0, and behind it. -/
def firstEvents : List (LimitEvent (Fin 6)) :=
  [⟨thread 4, .get otherSlot, (none : Option ℕ)⟩, ⟨thread 0, .create 1 1, ((0, 0) : ℕ × ℕ)⟩,
    ⟨thread 4, .create 1 1, ((1, 0) : ℕ × ℕ)⟩]

def laterEvents : List (LimitEvent (Fin 6)) :=
  [⟨thread 4, .add otherSlot 1, ()⟩, ⟨thread 1, .get profileSlot, (some 0 : Option ℕ)⟩,
    ⟨thread 1, .allow 0, ((false, 0) : Bool × ℕ)⟩, ⟨thread 5, .evict otherSlot, ()⟩,
    ⟨thread 2, .get profileSlot, (some 0 : Option ℕ)⟩,
    ⟨thread 2, .allow 0, ((false, 500000000) : Bool × ℕ)⟩,
    ⟨thread 3, .get profileSlot, (some 0 : Option ℕ)⟩,
    ⟨thread 3, .allow 0, ((true, 1000000000) : Bool × ℕ)⟩]

def turnEvents : List (LimitEvent (Fin 6)) :=
  ⟨thread 0, .get profileSlot, (none : Option ℕ)⟩ ::
    (firstEvents ++ ⟨thread 0, .add profileSlot 0, ()⟩ :: laterEvents)

theorem queriesInTurn_plays : (play limitHandler Free queriesInTurn
    (startCalls (perSecond 1) 0 turnQueries)).isSome := by decide

/-- In the second from the first query on, as many queries are let through as a burst of one
allows. -/
theorem admissions_bounded_turns : ∃ Q,
    Run limitHandler Free (startCalls (perSecond 1) 0 turnQueries) turnEvents Q ∧
      [0, 1, 2, 3].map (fun i => (Q.prog i).result) =
        [some true, some false, some false, some true] ∧
      (∃! t, TakesAt turnEvents 0 t) ∧ (∃! t, TakesAt turnEvents 3 t) ∧
      Bounded (perSecond 1) turnQueries profileSlot turnEvents Q := by
  have hrun : Run limitHandler Free (startCalls (perSecond 1) 0 turnQueries) turnEvents _ :=
    run_play queriesInTurn_plays
  have hmisses : ∀ f ∈ laterEvents, ¬ Misses profileSlot f := by
    simp [laterEvents, Misses]
  have hapart : Apart profileSlot turnEvents :=
    apart_of_first (e := ⟨0, .get profileSlot, (none : Option ℕ)⟩) (r := 0) rfl rfl
      (by decide) hmisses
  obtain ⟨honce, hbounded, -⟩ :=
    admissions_bounded (perSecond 1) 0 turnQueries profileSlot (by decide) hrun (by decide) hapart
  exact ⟨_, hrun, rfl, honce 0 rfl rfl, honce 3 rfl rfl, hbounded⟩

/-- Both look the profile up before either adds a limiter. -/
def bothQueries : List (LimitEvent (Fin 2)) :=
  [⟨thread 0, .get profileSlot, (none : Option ℕ)⟩, ⟨thread 1, .get profileSlot, (none : Option ℕ)⟩,
    ⟨thread 0, .create 1 1, ((0, 0) : ℕ × ℕ)⟩, ⟨thread 0, .add profileSlot 0, ()⟩,
    ⟨thread 1, .create 1 1, ((1, 0) : ℕ × ℕ)⟩, ⟨thread 1, .add profileSlot 1, ()⟩]

/-- **Two first queries that arrive together** are both let through by a burst of one; and a burst
of none lets a first query through. -/
theorem first_queries :
    (∃ Q, Run limitHandler Free (startCalls (perSecond 1) 0 profileQueries) bothQueries Q ∧
      (∀ e ∈ bothQueries, e.op ≠ .evict profileSlot) ∧
        ¬ Bounded (perSecond 1) profileQueries profileSlot bothQueries Q) ∧
    ∃ Q, Run limitHandler Free (startCalls (perSecond 0) 0 profileQueries) (oneQuery 0) Q ∧
      (∀ e ∈ oneQuery 0, e.op ≠ .evict profileSlot) ∧
        ¬ Bounded (perSecond 0) profileQueries profileSlot (oneQuery 0) Q := by
  have htogether : (play limitHandler Free
      [(thread 0, 0), (thread 1, 0), (thread 0, 0), (thread 0, 0), (thread 1, 0), (thread 1, 0)]
      (startCalls (perSecond 1) 0 profileQueries)).isSome := by decide
  have halone : (play limitHandler Free [(thread 0, 0), (thread 0, 0), (thread 0, 0)]
      (startCalls (perSecond 0) 0 profileQueries)).isSome := by decide
  refine ⟨⟨_, run_play htogether, by decide, fun h => ?_⟩,
    ⟨_, run_play halone, by decide, fun h => ?_⟩⟩
  · have hboth := h 0 0 le_rfl [thread 0, thread 1] (by decide) (List.forall_mem_cons.2
      ⟨⟨rfl, rfl, 0,
        ⟨⟨thread 0, .create 1 1, ((0, 0) : ℕ × ℕ)⟩, by simp [bothQueries], rfl, 0, rfl⟩,
        le_rfl, le_rfl⟩,
        List.forall_mem_singleton.2
      ⟨rfl, rfl, 0, ⟨⟨thread 1, .create 1 1, ((1, 0) : ℕ × ℕ)⟩, by simp [bothQueries], rfl, 1, rfl⟩,
        le_rfl, le_rfl⟩⟩)
    exact absurd hboth (by decide)
  · have hone := h 0 0 le_rfl [thread 0] (by decide) (List.forall_mem_singleton.2
      ⟨rfl, rfl, 0, ⟨⟨thread 0, .create 1 0, ((0, 0) : ℕ × ℕ)⟩, by simp [oneQuery], rfl, 0, rfl⟩,
        le_rfl, le_rfl⟩)
    exact absurd hone (by decide)

end Bound

end ModDNS.Proxy.RateLimit
