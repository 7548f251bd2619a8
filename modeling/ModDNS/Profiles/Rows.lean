import ModDNS.Data.Register
import ModDNS.Profiles.Imports

/-!
# The profiles of an account, as a register

The ids and the names of the profiles of an account are a register; every call on the stores changes
it as one change of a register, or not at all.

* `rows_act`: the register after a call.
-/

namespace ModDNS.Profiles

open Conc Data

/-- The name that an update writes. -/
def ProfileFieldsUpdate.renames (upd : ProfileFieldsUpdate) : Option String :=
  (upd.set.filterMap fun f => match f with
    | (.name, .text n) => some n
    | _ => none).getLast?

theorem name_set (p : Profile) (path : PatchPath) (v : FieldValue) : (p.set path v).name =
    (match (path, v) with
      | (.name, .text n) => some n
      | _ => none).getD p.name := by
  cases path <;> cases v <;> rfl

theorem name_updateFields (p : Profile) (upd : ProfileFieldsUpdate) :
    (updateFields p upd).name = upd.renames.getD p.name := by
  have hfields : (updateFields p upd).name = (upd.set.foldl (fun p f => p.set f.1 f.2) p).name := by
    show (setFields p upd).name = _
    unfold setFields
    split <;> rfl
  rw [hfields]
  unfold ProfileFieldsUpdate.renames
  induction upd.set using List.reverseRecOn with
  | nil => rfl
  | append_singleton l f ih =>
    rw [List.foldl_append, List.foldl_cons, List.foldl_nil, name_set, ih, List.filterMap_append,
      List.getLast?_append,
      List.filterMap_cons, List.filterMap_nil]
    obtain ⟨path, v⟩ := f
    dsimp only
    split <;> rfl

section Rows

variable (s : Stores) (a : String)

/-- The profiles of an account. -/
def Stores.owned : List Profile := s.profiles.filter (·.accountId = a)

def Profile.row (p : Profile) : String × String := (p.profileId, p.name)

/-- The register of an account. -/
def Stores.rows : List (String × String) := (s.owned a).map Profile.row

/-- What a call that is carried out changes. -/
def ProfileOp.change : ProfileOp → Change String String
  | .createProfile p => if p.accountId = a then .add p.profileId p.name else .none
  | .deleteProfileById pid => .drop pid
  | .findOneAndUpdate pid upd => match upd.renames with
    | some n => .rename pid n
    | none => .none
  | _ => .none

def change (x : profileCalls.sig.Act) : Change String String :=
  if TookEffect x.2 then x.1.change a else .none

variable {s a}

theorem owned_onProfile {pid : String} {f : Profile → Profile}
    (hf : ∀ p, (f p).accountId = p.accountId) :
    (s.onProfile pid f).owned a = (s.owned a).map fun p =>
    if p.profileId = pid then f p else p := by
  unfold Stores.owned Stores.onProfile
  rw [List.filter_map]
  congr 1
  refine List.filter_congr fun p _ => ?_
  show decide ((if p.profileId = pid then f p else p).accountId = a) = _
  split
  · rw [hf p]
  · rfl

/-- An update in place of the documents of an id. -/
theorem rows_onProfile {pid : String} {f : Profile → Profile} {n : Option String}
    (hf : ∀ p, (f p).profileId = p.profileId ∧ (f p).accountId = p.accountId ∧
      (f p).name = n.getD p.name) :
    (s.onProfile pid f).rows a = (match n with
      | some n => Change.rename pid n
      | none => .none).run (s.rows a) := by
  unfold Stores.rows
  rw [owned_onProfile fun p => (hf p).2.1, List.map_map]
  cases n with
  | none =>
    refine List.map_congr_left fun p _ => ?_
    show (if p.profileId = pid then f p else p).row = p.row
    split
    · exact Prod.ext (hf p).1 (hf p).2.2
    · rfl
  | some n =>
    show _ = ((s.owned a).map Profile.row).map _
    rw [List.map_map]
    refine List.map_congr_left fun p _ => ?_
    show (if p.profileId = pid then f p else p).row = if p.profileId = pid then (pid, n) else p.row
    by_cases hp : p.profileId = pid
    · rw [if_pos hp, if_pos hp]
      exact Prod.ext ((hf p).1.trans hp) (hf p).2.2
    · rw [if_neg hp, if_neg hp]

theorem edit_frame (p : Profile) (e : ProfileEdit) :
    (e.run p).profileId = p.profileId ∧ (e.run p).accountId = p.accountId ∧
      (e.run p).name = p.name := by
  cases e <;> exact ⟨rfl, rfl, rfl⟩

/-- **The register after a call.** -/
theorem rows_act (s : Stores) (x : profileCalls.sig.Act) :
    (s.act x).rows a = (change a x).run (s.rows a) := by
  obtain ⟨o, r⟩ := x
  unfold Stores.act change
  split
  · next htook =>
    cases o with
    | createProfile p =>
      show (Stores.mk (s.profiles ++ [p]) _ _ _ _ _ _).rows a = _
      unfold Stores.rows Stores.owned ProfileOp.change
      dsimp only
      rw [List.filter_append, List.map_append]
      by_cases hp : p.accountId = a
      · rw [if_pos hp, List.filter_cons_of_pos (by simpa using hp)]
        rfl
      · rw [if_neg hp, List.filter_cons_of_neg (by simpa using hp)]
        exact List.append_nil _
    | deleteProfileById pid =>
      show (Stores.mk (s.profiles.filter _) _ _ _ _ _ _).rows a = _
      unfold Stores.rows Stores.owned
      dsimp only
      rw [List.filter_comm]
      show _ = ((s.profiles.filter _).map _).filter _
      rw [List.filter_map]
      rfl
    | edit pid e => exact rows_onProfile (n := none) fun p => edit_frame p e
    | findOneAndUpdate pid upd =>
      refine rows_onProfile fun p => ⟨updateFields_profileId p upd, ?_, name_updateFields p upd⟩
      exact (sameElse_setFields p upd).accountId
    | _ => rfl
  · rfl

/-- The register after a list of calls. -/
theorem rows_after (s : Stores) (l : Acts) :
    (s.after l).rows a = changed (s.rows a) (l.map (change a)) := by
  induction l generalizing s with
  | nil => rfl
  | cons x l ih =>
    rw [after_cons, ih, rows_act]
    rfl

end Rows

end ModDNS.Profiles
