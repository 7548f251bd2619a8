import ModDNS.Profiles.Store

/-!
# What the proxy can serve

The proxy serves a profile whose `privacy` hash is in Redis. `HSET` makes the hash when it is
missing, and only `DEL` takes it away, so that the last of the two that has taken effect decides.

* `served_act`: what one call does.
* `served_after`: whether the hash is there after a list of calls.
-/

namespace ModDNS.Profiles

open Conc

/-- The privacy hash of the profile is not empty. -/
def CachedSettings.Served (c : CachedSettings) : Prop := ∃ f v, c.hashes .privacy f = some v

theorem not_served_absent : ¬ CachedSettings.absent.Served := nofun

/-- The call writes fields of the privacy hash of the profile. -/
def WritesPrivacy (pid : String) (o : ProfileOp) : Prop :=
  ∃ fields, fields ≠ [] ∧ o = .redis pid (.hset .privacy fields)

/-- The call deletes the privacy hash of the profile. -/
def ClearsPrivacy (pid : String) (o : ProfileOp) : Prop :=
  ∃ keys, .hash .privacy ∈ keys ∧ o = .redis pid (.del keys)

/-- The call has done so. -/
def Wrote (pid : String) (x : profileCalls.sig.Act) : Prop := WritesPrivacy pid x.1 ∧ TookEffect x.2

def Cleared (pid : String) (x : profileCalls.sig.Act) : Prop :=
  ClearsPrivacy pid x.1 ∧ TookEffect x.2

section Commands

variable {c : CachedSettings}

theorem hashes_del (keys : List SettingsKey) (h : SettingsHash) :
    ((RedisCmd.del keys).run c).hashes h = if .hash h ∈ keys then fun _ => none
      else c.hashes h := by
  simp only [RedisCmd.run]
  induction keys generalizing c with
  | nil => rfl
  | cons key keys ih =>
    rw [List.foldl_cons, ih]
    cases key with
    | hash k =>
      by_cases hk : k = h
      · subst hk
        simp [CachedSettings.del]
      · simp [CachedSettings.del, Ne.symm hk]
    | _ => simp [CachedSettings.del]

theorem hsetFields_eq_none {hash : String → Option FieldValue}
    {fields : List (String × FieldValue)} :
    (∃ f v, hsetFields hash fields f = some v) ↔ fields ≠ [] ∨ ∃ f v, hash f = some v := by
  unfold hsetFields
  induction fields generalizing hash with
  | nil => simp
  | cons field fields ih =>
    rw [List.foldl_cons, ih]
    have hwritten : ∃ f v, Function.update hash field.1 (some field.2) f = some v :=
      ⟨field.1, field.2, Function.update_self ..⟩
    simp [hwritten]

/-- What a command does to the privacy hash. -/
theorem served_run (cmd : RedisCmd) :
    (cmd.run c).Served ↔ (∃ fields, fields ≠ [] ∧ cmd = .hset .privacy fields) ∨
      c.Served ∧ ¬ ∃ keys, .hash .privacy ∈ keys ∧ cmd = .del keys := by
  cases cmd with
  | del keys =>
    unfold CachedSettings.Served
    rw [hashes_del]
    by_cases hkeys : .hash .privacy ∈ keys
    · simp [hkeys]
    · simp [hkeys]
  | hset h fields =>
    by_cases hh : h = .privacy
    · subst hh
      have hhash : ((RedisCmd.hset .privacy fields).run c).hashes .privacy = hsetFields
          (c.hashes .privacy) fields := by
        simp [RedisCmd.run]
      unfold CachedSettings.Served
      rw [hhash, hsetFields_eq_none]
      simp
    · have hhash : ((RedisCmd.hset h fields).run c).hashes .privacy = c.hashes .privacy :=
        Function.update_of_ne (Ne.symm hh) ..
      unfold CachedSettings.Served
      rw [hhash]
      simp [hh]
  | _ => simp [CachedSettings.Served, RedisCmd.run]

end Commands

section Actions

variable {s : Stores} {pid : String} {l : List profileCalls.sig.Act}

theorem redis_act_ne {x : profileCalls.sig.Act} (h : ∀ cmd, x.1 ≠ .redis pid cmd) :
    (s.act x).redis pid = s.redis pid := by
  obtain ⟨o, r⟩ := x
  unfold Stores.act
  split
  · cases o with
    | redis pid' cmd =>
      have hpid : pid ≠ pid' := by
        rintro rfl
        exact h cmd rfl
      exact Function.update_of_ne hpid ..
    | _ => rfl
  · rfl

theorem redis_act {cmd : RedisCmd} {r : Except ServiceErr Unit} (h : TookEffect r) :
    (s.act ⟨.redis pid cmd, r⟩).redis pid = cmd.run (s.redis pid) := by
  rw [act_effect h]
  exact Function.update_self ..

theorem served_act (x : profileCalls.sig.Act) :
    ((s.act x).redis pid).Served ↔ Wrote pid x ∨ (s.redis pid).Served ∧ ¬ Cleared pid x := by
  by_cases hx : ∃ cmd, x.1 = .redis pid cmd
  · obtain ⟨cmd, hcmd⟩ := hx
    obtain ⟨o, r⟩ := x
    obtain rfl : o = .redis pid cmd := hcmd
    unfold Wrote Cleared WritesPrivacy ClearsPrivacy
    by_cases htook : TookEffect r
    · rw [redis_act htook, served_run]
      simp [htook]
    · have hact : s.act ⟨.redis pid cmd, r⟩ = s := if_neg htook
      rw [hact]
      simp [htook]
  · rw [redis_act_ne fun cmd h => hx ⟨cmd, h⟩]
    have hwrote : ¬ Wrote pid x := fun ⟨⟨fields, _, h⟩, _⟩ => hx ⟨_, h⟩
    have hcleared : ¬ Cleared pid x := fun ⟨⟨keys, _, h⟩, _⟩ => hx ⟨_, h⟩
    simp [hwrote, hcleared]

theorem not_wrote_of_cleared {x : profileCalls.sig.Act} (h : Cleared pid x) : ¬ Wrote pid x := by
  rintro ⟨⟨fields, -, hw⟩, -⟩
  obtain ⟨⟨keys, -, hc⟩, -⟩ := h
  rw [hw] at hc
  cases hc

/-- The privacy hash has been deleted, or was not there, and has not been written since. -/
def StaysOff (s : Stores) (pid : String) (l : List profileCalls.sig.Act) : Prop :=
  (¬ (s.redis pid).Served ∧ ∀ x ∈ l, ¬ Wrote pid x) ∨
    ∃ l₁ x l₂, l = l₁ ++ x :: l₂ ∧ Cleared pid x ∧ ∀ y ∈ l₂, ¬ Wrote pid y

theorem staysOff_snoc {x : profileCalls.sig.Act} :
    StaysOff s pid (l ++ [x]) ↔ ¬ Wrote pid x ∧ (Cleared pid x ∨ StaysOff s pid l) := by
  constructor
  · rintro (⟨hoff, hnone⟩ | ⟨l₁, y, l₂, hl, hy, hnone⟩)
    · exact ⟨hnone x (by simp), .inr (.inl ⟨hoff, fun y hy => hnone y (by simp [hy])⟩)⟩
    · rcases List.eq_nil_or_concat l₂ with rfl | ⟨l₃, z, rfl⟩
      · obtain ⟨rfl, heq⟩ := List.append_inj' hl rfl
        obtain rfl := (List.cons.inj heq).1
        exact ⟨not_wrote_of_cleared hy, .inl hy⟩
      · rw [List.concat_eq_append] at hl hnone
        rw [← List.cons_append, ← List.append_assoc] at hl
        obtain ⟨rfl, heq⟩ := List.append_inj' hl rfl
        obtain rfl := (List.cons.inj heq).1
        exact ⟨hnone x (by simp), .inr
          (.inr ⟨l₁, y, l₃, rfl, hy, fun u hu => hnone u (by simp [hu])⟩)⟩
  · rintro ⟨hx, hcleared | ⟨hoff, hnone⟩ | ⟨l₁, y, l₂, rfl, hy, hnone⟩⟩
    · exact .inr ⟨l, x, [], rfl, hcleared, List.forall_mem_nil _⟩
    · refine .inl ⟨hoff, fun y hy => ?_⟩
      rcases List.mem_append.1 hy with hy | hy
      · exact hnone y hy
      · rwa [List.mem_singleton.1 hy]
    · refine .inr ⟨l₁, y, l₂ ++ [x], by simp, hy, fun u hu => ?_⟩
      rcases List.mem_append.1 hu with hu | hu
      · exact hnone u hu
      · rwa [List.mem_singleton.1 hu]

/-- **What the last call leaves.** -/
theorem served_after (s : Stores) (pid : String) (l : List profileCalls.sig.Act) :
    ¬ ((s.after l).redis pid).Served ↔ StaysOff s pid l := by
  induction l using List.reverseRecOn with
  | nil => simp [StaysOff]
  | append_singleton l x ih =>
    have hafter : s.after (l ++ [x]) = (s.after l).act x := after_append
    rw [hafter, served_act, staysOff_snoc, ← ih]
    tauto

end Actions

end ModDNS.Profiles
