import Mathlib.Data.List.Basic
import Mathlib.Logic.Function.Basic

/-!
# Deletions over several collections

`deleteEach` runs one `DeleteMany` after the other, each with the same filter, and stops at the
first error. An error does not say whether the deletion has been carried out.

* `deleteEach_cases`: a collection is as it was, or it is one of those asked for, without the
  documents of the filter.
* `deleteEach_mem`: without an error, all of them are.
-/

namespace ModDNS.Mongo

/-- How a `DeleteMany` ends: with its count, with an error after it has been carried out, or with
one before that. -/
inductive DeleteReply where
  | ok
  | lost
  | failed
  deriving DecidableEq

variable {C D : Type} [DecidableEq C]

/-- `DeleteMany` on a collection. -/
def deleteMany (reply : DeleteReply) (p : D → Bool) (c : C) (db : C → List D) : C → List D :=
  if reply = .failed then db else Function.update db c ((db c).filter fun d => !p d)

/-- What a list of deletions leaves and returns. -/
structure Deleted (C D : Type) where
  db : C → List D
  count : ℕ
  err : Bool

/-- `DeleteMany` on each of the collections, up to the first error; `count` are deleted already. -/
def deleteEach (replies : C → DeleteReply) (p : D → Bool) : List C → (C → List D) → ℕ → Deleted C D
  | [], db, count => ⟨db, count, false⟩
  | c :: cs, db, count =>
    let db' := deleteMany (replies c) p c db
    if replies c = .ok then deleteEach replies p cs db' (count + ((db c).length - (db' c).length))
    else ⟨db', count, true⟩

variable {reply : DeleteReply} {replies : C → DeleteReply} {p : D → Bool} {c d : C} {cs : List C}
  {db : C → List D} {count : ℕ}

theorem deleteMany_other (h : c ≠ d) : deleteMany reply p d db c = db c := by
  unfold deleteMany
  split
  · rfl
  · exact Function.update_of_ne h ..

theorem deleteMany_ok : deleteMany .ok p c db c = (db c).filter fun d => !p d := by
  unfold deleteMany
  rw [if_neg nofun, Function.update_self]

theorem deleteMany_cases :
    deleteMany reply p c db c = db c ∨ deleteMany reply p c db c = (db c).filter fun d => !p d := by
  unfold deleteMany
  split
  · exact .inl rfl
  · exact .inr (Function.update_self ..)

/-- Nothing is left to delete a second time. -/
theorem filter_deleted (l : List D) :
    (l.filter fun d => !p d).filter (fun d => !p d) = l.filter fun d => !p d := by
  rw [List.filter_filter]
  simp

/-- **What the deletions can do.** -/
theorem deleteEach_cases (c : C) : (deleteEach replies p cs db count).db c = db c ∨
    (c ∈ cs ∧ (deleteEach replies p cs db count).db c = (db c).filter fun d => !p d) := by
  induction cs generalizing db count with
  | nil => exact .inl rfl
  | cons d cs ih =>
    unfold deleteEach
    dsimp only
    generalize hdb' : deleteMany (replies d) p d db = db'
    -- the collection of this deletion, or another one
    have hstep : db' c = db c ∨ (c ∈ d :: cs ∧ db' c = (db c).filter fun d => !p d) := by
      rw [← hdb']
      by_cases hc : c = d
      · subst hc
        exact deleteMany_cases.imp_right fun h => ⟨List.mem_cons_self, h⟩
      · exact .inl (deleteMany_other hc)
    split
    · rcases @ih db' (count + ((db d).length - (db' d).length)) with hsame | ⟨hmem, hcut⟩
      · rw [hsame]
        exact hstep
      · refine .inr ⟨List.mem_cons_of_mem d hmem, hcut.trans ?_⟩
        rcases hstep with heq | ⟨-, heq⟩
        · rw [heq]
        · rw [heq, filter_deleted]
    · exact hstep

theorem deleteEach_ok (h : ∀ c ∈ cs, replies c = .ok) :
    (deleteEach replies p cs db count).err = false := by
  induction cs generalizing db count with
  | nil => rfl
  | cons d cs ih =>
    unfold deleteEach
    dsimp only
    rw [if_pos (h d List.mem_cons_self)]
    exact ih fun c hc => h c (List.mem_cons_of_mem d hc)

/-- **Without an error**, every collection has lost the documents of the filter. -/
theorem deleteEach_mem (herr : (deleteEach replies p cs db count).err = false) (hc : c ∈ cs) :
    (deleteEach replies p cs db count).db c = (db c).filter fun d => !p d := by
  induction cs generalizing db count with
  | nil => cases hc
  | cons d cs ih =>
    unfold deleteEach at herr ⊢
    dsimp only at herr ⊢
    split at herr
    · next hok =>
      rw [if_pos hok]
      by_cases hself : c = d
      · -- its documents are deleted now, and nothing brings them back
        have hcut : deleteMany (replies d) p d db c = (db c).filter fun d => !p d := by
          rw [hok, hself]
          exact deleteMany_ok
        rcases deleteEach_cases c with hsame | ⟨-, htwice⟩
        · rw [hsame, hcut]
        · rw [htwice, hcut, filter_deleted]
      · rw [ih herr ((List.mem_cons.1 hc).resolve_left hself), deleteMany_other hself]
    · cases herr

end ModDNS.Mongo
