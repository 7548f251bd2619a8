import Mathlib.Algebra.BigOperators.Group.List.Basic
import Mathlib.Data.List.Dedup
import Mathlib.Data.Set.Image
import ModDNS.Data.Sorting

/-!
# Aggregation pipelines

A pipeline makes of the documents that it reads one of several lists: `$sort` may put documents with
the same key in any order, and `$group` gives its groups in any order.

* `mem_unionWiths`: pipelines on several collections.
* `page_flatten`: a page of several collections, each cut off after the rows that the page can need.
* `groups_flatten`: the groups of several collections, merged.
* `sum_group`: the sums of the groups.
-/

namespace ModDNS.Mongo

open Data

/-- What a pipeline can make of the documents that it reads. -/
abbrev Pipeline (α β : Type) := List α → Set (List β)

variable {α β γ κ : Type}

namespace Pipeline

def nop : Pipeline α α := fun l => {l}

def andThen (p : Pipeline α β) (q : Pipeline β γ) : Pipeline α γ := fun l =>
    {o | ∃ m ∈ p l, o ∈ q m}

/-- `$match`. -/
def filter (p : α → Bool) : Pipeline α α := fun l => {l.filter p}

/-- `$sort`, by a key. -/
def sort [LinearOrder κ] (key : α → κ) : Pipeline α α := fun l => {s | Sorts key l s}

/-- `$limit`. -/
def limit (n : ℕ) : Pipeline α α := fun l => {l.take n}

/-- `$skip`. -/
def skip (n : ℕ) : Pipeline α α := fun l => {l.drop n}

/-- `$project`. -/
def project (f : α → β) : Pipeline α β := fun l => {l.map f}

/-- `$unwind`. -/
def unwind (f : α → List β) : Pipeline α β := fun l => {l.flatMap f}

/-- The groups of a list by a key, each with what `acc` makes of it. -/
def groups [DecidableEq κ] (key : α → κ) (acc : List α → β) (l : List α) : List (κ × β) :=
  (l.map key).dedup.map fun k => (k, acc (l.filter fun a => key a = k))

/-- `$group`. -/
def group [DecidableEq κ] (key : α → κ) (acc : List α → β) : Pipeline α (κ × β) := fun l =>
    {g | g.Perm (groups key acc l)}

/-- `$unionWith`: what `branch` makes of another collection comes after. -/
def unionWith (branch : Pipeline α β) (other : List α) : Pipeline β β := fun l =>
    {o | ∃ m ∈ branch other, o = l ++ m}

/-- A list of `$unionWith` stages, each a pipeline with its collection. -/
def unionWiths : List (Pipeline α β × List α) → Pipeline β β
  | [] => nop
  | b :: bs => (unionWith b.1 b.2).andThen (unionWiths bs)

end Pipeline

open Pipeline

section Stages

variable {p : Pipeline α β} {q : Pipeline β γ} {l l' m o : List α}

@[simp] theorem mem_nop : o ∈ nop l ↔ o = l := Iff.rfl

theorem mem_andThen {o : List γ} : o ∈ p.andThen q l ↔ ∃ m ∈ p l, o ∈ q m := Iff.rfl

theorem andThen_assoc {δ : Type} {r : Pipeline γ δ} :
    (p.andThen q).andThen r = p.andThen (q.andThen r) := by
  funext l
  ext o
  simp only [mem_andThen]
  constructor
  · rintro ⟨m, ⟨m', hm', hm⟩, ho⟩
    exact ⟨m', hm', m, hm, ho⟩
  · rintro ⟨m', hm', m, hm, ho⟩
    exact ⟨m, ⟨m', hm', hm⟩, ho⟩

@[simp] theorem nop_andThen : nop.andThen q = q := by
  funext l
  ext o
  simp [mem_andThen]

@[simp] theorem andThen_nop : p.andThen nop = p := by
  funext l
  ext o
  simp [mem_andThen]

@[simp] theorem filter_andThen {f : α → Bool} : (filter f).andThen p l = p (l.filter f) := by
  ext o
  simp [mem_andThen, filter]

theorem unwind_andThen {f : α → List β} : (unwind f).andThen q l = q (l.flatMap f) := by
  ext o
  simp [mem_andThen, unwind]

theorem sort_perm [LinearOrder κ] {key : α → κ} (h : l.Perm l') : sort key l = sort key l' := by
  ext s
  exact ⟨fun hs => Sorts.congr hs h, fun hs => Sorts.congr hs h.symm⟩

theorem andThen_congr (h : p l = p l') : p.andThen q l = p.andThen q l' := by
  ext o
  rw [mem_andThen, mem_andThen, h]

theorem mem_limit {n : ℕ} : o ∈ limit n l ↔ o = l.take n := Iff.rfl

theorem mem_skip {n : ℕ} : o ∈ skip n l ↔ o = l.drop n := Iff.rfl

theorem forall₂_eq_map {f : α → β} {l : List α} {m : List β} :
    List.Forall₂ (fun a b => b = f a) l m ↔ m = l.map f := by
  simp only [eq_comm (b := f _)]
  rw [← List.forall₂_map_left_iff, List.forall₂_eq_eq_eq, eq_comm]

/-- **Pipelines on several collections**: their results come one after the other. -/
theorem mem_unionWiths {c : List α} {bs : List (Pipeline α β × List α)} {o : List β} :
    o ∈ p.andThen (unionWiths bs) c ↔ ∃ os, List.Forall₂ (fun b o => o ∈ b.1 b.2)
      ((p, c) :: bs) os ∧ o = os.flatten := by
  have hrest : ∀ {m o : List β}, o ∈ unionWiths bs m ↔
      ∃ os, List.Forall₂ (fun b o => o ∈ b.1 b.2) bs os ∧ o = m ++ os.flatten := by
    induction bs with
    | nil =>
      intro m o
      constructor
      · rintro rfl
        exact ⟨[], .nil, (List.append_nil _).symm⟩
      · rintro ⟨os, hos, rfl⟩
        cases hos
        exact List.append_nil _
    | cons b bs ih =>
      intro m o
      constructor
      · rintro ⟨m', ⟨d', hd', rfl⟩, ho⟩
        obtain ⟨os, hos, rfl⟩ := ih.1 ho
        exact ⟨d' :: os, .cons hd' hos, by rw [List.flatten_cons, List.append_assoc]⟩
      · rintro ⟨os, hos, rfl⟩
        cases hos with
        | @cons _ d' _ os hd' hos =>
          exact ⟨_, ⟨d', hd', rfl⟩, ih.2 ⟨os, hos, by rw [List.flatten_cons, List.append_assoc]⟩⟩
  constructor
  · rintro ⟨m, hm, ho⟩
    obtain ⟨os, hos, rfl⟩ := hrest.1 ho
    exact ⟨m :: os, .cons hm hos, List.flatten_cons.symm⟩
  · rintro ⟨os, hos, rfl⟩
    cases hos with
    | @cons _ m _ os hm hos => exact ⟨m, hm, hrest.2 ⟨os, hos, List.flatten_cons⟩⟩

end Stages

section Pages

variable [LinearOrder κ] {key : α → κ} {k n : ℕ} {l : List α} {ls : List (List α)} {o : List α}

/-- The rows of a page. -/
def page (key : α → κ) (k n : ℕ) : Pipeline α α := ((sort key).andThen (skip k)).andThen (limit n)

theorem mem_page : o ∈ page key k n l ↔ ∃ s, Sorts key l s ∧ o = (s.drop k).take n := by
  constructor
  · rintro ⟨-, ⟨s, hs, rfl⟩, rfl⟩
    exact ⟨s, hs, rfl⟩
  · rintro ⟨s, hs, rfl⟩
    exact ⟨_, ⟨s, hs, rfl⟩, rfl⟩

/-- A page is part of the first rows. -/
theorem mem_page_firsts : o ∈ page key k n l ↔ ∃ t, Firsts key (k + n) l t ∧ o = t.drop k := by
  rw [mem_page]
  constructor
  · rintro ⟨s, hs, rfl⟩
    refine ⟨s.take (k + n), ⟨s, hs, rfl⟩, ?_⟩
    rw [List.drop_take, Nat.add_sub_cancel_left]
  · rintro ⟨t, ⟨s, hs, rfl⟩, rfl⟩
    refine ⟨s, hs, ?_⟩
    rw [List.drop_take, Nat.add_sub_cancel_left]

/-- **A page of several collections**, each of which is cut off after the first rows. -/
theorem page_flatten :
    (∃ ts, List.Forall₂ (Firsts key (k + n)) ls ts ∧ o ∈ page key k n ts.flatten) ↔
    o ∈ page key k n ls.flatten := by
  constructor
  · rintro ⟨ts, hts, ho⟩
    obtain ⟨t, ht, rfl⟩ := mem_page_firsts.1 ho
    exact mem_page_firsts.2 ⟨t, firsts_flatten.1 ⟨ts, hts, ht⟩, rfl⟩
  · intro ho
    obtain ⟨t, ht, rfl⟩ := mem_page_firsts.1 ho
    obtain ⟨ts, hts, ht'⟩ := firsts_flatten.2 ht
    exact ⟨ts, hts, mem_page_firsts.2 ⟨t, ht', rfl⟩⟩

/-- Sorted collections, sorted again. -/
theorem sort_flatten :
    (∃ ts, List.Forall₂ (Sorts key) ls ts ∧ Sorts key ts.flatten o) ↔ Sorts key ls.flatten o := by
  have hperm : ∀ {ls ts : List (List α)}, List.Forall₂ (Sorts key) ls ts →
      ts.flatten.Perm ls.flatten := by
    intro ls ts h
    induction h with
    | nil => exact List.Perm.refl _
    | cons hl _ ih =>
      rw [List.flatten_cons, List.flatten_cons]
      exact hl.1.append ih
  constructor
  · rintro ⟨ts, hts, ho⟩
    exact ho.congr (hperm hts)
  · intro ho
    have hts : ∀ ls : List (List α), ∃ ts, List.Forall₂ (Sorts key) ls ts := by
      intro ls
      induction ls with
      | nil => exact ⟨[], .nil⟩
      | cons l ls ih =>
        obtain ⟨t, ht⟩ := exists_sorts key l
        obtain ⟨ts, hts⟩ := ih
        exact ⟨t :: ts, .cons ht hts⟩
    obtain ⟨ts, hts⟩ := hts ls
    exact ⟨ts, hts, ho.congr (hperm hts).symm⟩

end Pages

section Groups

variable [DecidableEq κ] {key : α → κ} {acc : List α → β} {l l' : List α} {ls : List (List α)}
  {g : List (κ × β)} {gs : List (List (κ × β))}

theorem keys_groups : (groups key acc l).map Prod.fst = (l.map key).dedup := by
  unfold groups
  rw [List.map_map]
  exact List.map_id _

theorem nodup_keys : ((groups key acc l).map Prod.fst).Nodup := by
  rw [keys_groups]
  exact List.nodup_dedup _

theorem mem_groups {k : κ} {b : β} :
    (k, b) ∈ groups key acc l ↔ k ∈ l.map key ∧ b = acc (l.filter fun a => key a = k) := by
  unfold groups
  rw [List.mem_map]
  constructor
  · rintro ⟨k', hk', heq⟩
    obtain ⟨rfl, rfl⟩ := Prod.mk.inj heq
    exact ⟨List.mem_dedup.1 hk', rfl⟩
  · rintro ⟨hk, rfl⟩
    exact ⟨k, List.mem_dedup.2 hk, rfl⟩

theorem mem_key {k : κ} : k ∈ l.map key ↔ l.filter (fun a => key a = k) ≠ [] := by
  rw [List.mem_map, Ne, List.filter_eq_nil_iff]
  simp only [decide_eq_true_eq, not_forall, not_not, exists_prop]

/-- The groups do not depend on the order. -/
theorem groups_perm (hacc : ∀ l l', l.Perm l' → acc l = acc l') (h : l.Perm l') :
    (groups key acc l).Perm (groups key acc l') := by
  refine (List.perm_ext_iff_of_nodup nodup_keys.of_map nodup_keys.of_map).2 ?_
  rintro ⟨k, b⟩
  rw [mem_groups, mem_groups, (h.map key).mem_iff, hacc _ _ (h.filter _)]

/-- What a group has of one key. -/
theorem filter_group (h : g.Perm (groups key acc l)) (k : κ) :
    (g.filter fun x => x.1 = k).map Prod.snd =
      if k ∈ l.map key then [acc (l.filter fun a => key a = k)] else [] := by
  have hgroups : (groups key acc l).filter (fun x => x.1 = k) =
      if k ∈ l.map key then [(k, acc (l.filter fun a => key a = k))] else [] := by
    unfold groups
    rw [List.filter_map]
    have hkeys : ((l.map key).dedup.filter fun k' => decide (k' = k)) = if k ∈ l.map key then
        [k] else [] := by
      rw [List.filter_eq, List.count_dedup]
      split
      · rfl
      · rfl
    have hcomp : ((fun x : κ × β => decide (x.1 = k)) ∘ fun k' =>
      (k', acc (l.filter fun a => key a = k'))) =
        fun k' => decide (k' = k) := rfl
    rw [hcomp, hkeys]
    split
    · rfl
    · rfl
  have hperm := h.filter fun x => decide (x.1 = k)
  rw [hgroups] at hperm
  split at hperm
  · next hk =>
    rw [List.perm_singleton.1 hperm, if_pos hk]
    rfl
  · next hk =>
    rw [List.perm_nil.1 hperm, if_neg hk]
    rfl

/-- **The groups of several collections, merged**: `acc'` makes of the results of the parts that of
the whole. -/
theorem groups_flatten {acc' : List β → β}
    (hmerge : ∀ parts : List (List α), parts ≠ [] → (∀ l ∈ parts, l ≠ []) →
      acc' (parts.map acc) = acc parts.flatten)
    (h : List.Forall₂ (fun l g => g.Perm (groups key acc l)) ls gs) :
    (groups Prod.fst (fun rows => acc' (rows.map Prod.snd)) gs.flatten).Perm
    (groups key acc ls.flatten) := by
  refine (List.perm_ext_iff_of_nodup nodup_keys.of_map nodup_keys.of_map).2 ?_
  rintro ⟨k, b⟩
  -- the results for the key, one of each collection that has some
  obtain ⟨parts, hflatten, hne, hresults⟩ : ∃ parts : List (List α), parts.flatten =
    ls.flatten.filter (fun a => key a = k) ∧
      (∀ l ∈ parts, l ≠ []) ∧ (gs.flatten.filter fun x => x.1 = k).map Prod.snd =
        parts.map acc := by
    induction h with
    | nil => exact ⟨[], rfl, List.forall_mem_nil _, rfl⟩
    | @cons l g ls gs hg _ ih =>
      obtain ⟨parts, hflatten, hne, hresults⟩ := ih
      have hone := filter_group hg k
      rw [List.flatten_cons, List.flatten_cons, List.filter_append, List.filter_append,
        List.map_append, hresults, hone]
      by_cases hk : k ∈ l.map key
      · rw [if_pos hk]
        refine ⟨(l.filter fun a => key a = k) :: parts, ?_,
          List.forall_mem_cons.2 ⟨mem_key.1 hk, hne⟩, rfl⟩
        rw [List.flatten_cons, hflatten]
      · rw [if_neg hk]
        have hnil : l.filter (fun a => key a = k) = [] := by
          by_contra hne
          exact hk (mem_key.2 hne)
        exact ⟨parts, by rw [hflatten, hnil, List.nil_append], hne, rfl⟩
  have hkeys : k ∈ gs.flatten.map Prod.fst ↔ k ∈ ls.flatten.map key := by
    rw [mem_key, mem_key, ← hflatten, Ne, ← List.map_eq_nil_iff (f := Prod.snd), hresults,
      List.map_eq_nil_iff]
    constructor
    · intro hparts hnil
      obtain ⟨l, hl⟩ := List.exists_mem_of_ne_nil _ hparts
      exact hne l hl (List.flatten_eq_nil_iff.1 hnil l hl)
    · rintro hnot rfl
      exact hnot rfl
  rw [mem_groups, mem_groups, hkeys]
  refine and_congr_right fun hk => ?_
  have hparts : parts ≠ [] := by
    rintro rfl
    exact mem_key.1 hk hflatten.symm
  rw [hresults, hmerge parts hparts hne, hflatten]

/-- The number of elements for each key is that of the keys. -/
theorem groups_length : groups key List.length l = groups id List.length (l.map key) := by
  unfold groups
  rw [List.map_id]
  refine List.map_congr_left fun k _ => ?_
  rw [List.filter_map, List.length_map]
  rfl

theorem mem_group : g ∈ group key acc l ↔ g.Perm (groups key acc l) := Iff.rfl

theorem group_perm (hacc : ∀ l l', l.Perm l' → acc l = acc l') (h : l.Perm l') :
    group key acc l = group key acc l' := by
  ext g
  rw [mem_group, mem_group]
  exact ⟨fun hg => hg.trans (groups_perm hacc h), fun hg => hg.trans (groups_perm hacc h).symm⟩

/-- `$group` on several collections, and `$group` again on what they gave. -/
theorem group_flatten {acc' : List β → β}
    (hmerge : ∀ parts : List (List α), parts ≠ [] → (∀ l ∈ parts, l ≠ []) →
      acc' (parts.map acc) = acc parts.flatten) :
    (∃ gs, List.Forall₂ (fun l g => g ∈ group key acc l) ls gs ∧
      g ∈ group Prod.fst (fun rows => acc' (rows.map Prod.snd)) gs.flatten) ↔
        g ∈ group key acc ls.flatten := by
  constructor
  · rintro ⟨gs, hgs, hg⟩
    exact hg.trans (groups_flatten hmerge hgs)
  · intro hg
    have hgs : List.Forall₂ (fun l g => g ∈ group key acc l) ls (ls.map (groups key acc)) := by
      rw [List.forall₂_map_right_iff, List.forall₂_same]
      exact fun l _ => List.Perm.refl _
    exact ⟨_, hgs, hg.trans (groups_flatten hmerge hgs).symm⟩

end Groups

section Sums

variable {M : Type} [DecidableEq κ] [AddCommMonoid M] {key : α → κ} {acc : List α → β} {m : α → M}
  {l : List α} {g : List (κ × β)}

/-- One key of a list without duplicates. -/
theorem sum_ite_eq {ks : List κ} (hnd : ks.Nodup) {k : κ} (hk : k ∈ ks) (x : M) :
    (ks.map fun k' => if k = k' then x else 0).sum = x := by
  induction ks with
  | nil => cases hk
  | cons k' ks ih =>
    obtain ⟨hnot, hnd⟩ := List.nodup_cons.1 hnd
    rw [List.map_cons, List.sum_cons]
    rcases List.mem_cons.1 hk with rfl | hk
    · have hzero : (ks.map fun k' => if k = k' then x else 0).sum = 0 := by
        refine List.sum_eq_zero fun y hy => ?_
        obtain ⟨k', hk', rfl⟩ := List.mem_map.1 hy
        have hne : k ≠ k' := fun heq => hnot (heq.symm ▸ hk')
        exact if_neg hne
      rw [if_pos rfl, hzero, add_zero]
    · have hne : k ≠ k' := fun heq => hnot (heq ▸ hk)
      rw [if_neg hne, zero_add, ih hnd hk]

/-- **A sum, key by key.** -/
theorem sum_fibers (key : α → κ) {ks : List κ} (hnd : ks.Nodup) (h : ∀ a ∈ l, key a ∈ ks) :
    (ks.map fun k => ((l.filter fun a => key a = k).map m).sum).sum = (l.map m).sum := by
  induction l with
  | nil =>
    refine List.sum_eq_zero fun y hy => ?_
    obtain ⟨k, -, rfl⟩ := List.mem_map.1 hy
    rfl
  | cons a l ih =>
    obtain ⟨ha, hl⟩ := List.forall_mem_cons.1 h
    have hsplit : ∀ k, (((a :: l).filter fun a => key a = k).map m).sum =
        (if key a = k then m a else 0) + ((l.filter fun a => key a = k).map m).sum := by
      intro k
      rw [List.filter_cons]
      by_cases hk : key a = k
      · rw [if_pos (decide_eq_true hk), List.map_cons, List.sum_cons, if_pos hk]
      · rw [if_neg (by simpa using hk), if_neg hk, zero_add]
    rw [List.map_congr_left fun k _ => hsplit k, List.sum_map_add, sum_ite_eq hnd ha, ih hl,
      List.map_cons, List.sum_cons]

/-- **The sums of the groups** whose keys pass a test. -/
theorem sum_group {f : β → M} (hf : ∀ l, f (acc l) = (l.map m).sum) (h : g ∈ group key acc l)
    (P : κ → Bool) :
    ((g.filter fun x => P x.1).map fun x => f x.2).sum =
    ((l.filter fun a => P (key a)).map m).sum := by
  have hgroups : (groups key acc l).filter (fun x => P x.1) =
      ((l.map key).dedup.filter P).map fun k => (k, acc (l.filter fun a => key a = k)) :=
        List.filter_map ..
  rw [((mem_group.1 h).filter _ |>.map _).sum_eq, hgroups, List.map_map,
    ← sum_fibers key ((List.nodup_dedup (l.map key)).filter P)]
  · refine congrArg List.sum (List.map_congr_left fun k hk => ?_)
    have hP : P k = true := (List.mem_filter.1 hk).2
    rw [Function.comp_apply, hf, List.filter_filter]
    refine congrArg (fun l' => (List.map m l').sum) (List.filter_congr fun a _ => ?_)
    by_cases hk' : key a = k
    · rw [hk', hP, Bool.and_true]
    · rw [decide_eq_false hk', Bool.false_and]
  · intro a ha
    obtain ⟨hmem, hPa⟩ := List.mem_filter.1 ha
    exact List.mem_filter.2 ⟨List.mem_dedup.2 (List.mem_map_of_mem hmem), hPa⟩

end Sums
end ModDNS.Mongo
