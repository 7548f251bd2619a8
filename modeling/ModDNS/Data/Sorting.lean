import Mathlib.Data.List.Sort
import Mathlib.Data.Multiset.Basic
import Mathlib.Data.Multiset.UnionInter

/-!
# Sorting with ties

A list in the order of a key, where elements with the same key may come in any order, and the first
elements of such an order.

* `firsts_iff`: the first elements, without the order of the others.
* `firsts_flatten`: the first elements of several lists are among the first elements of each.
-/

namespace ModDNS.Data

variable {α κ : Type} [LinearOrder κ] {key : α → κ} {l l' s s' t : List α} {n : ℕ}

/-- `s` is `l`, in the order of the key. -/
def Sorts (key : α → κ) (l s : List α) : Prop := s.Perm l ∧ s.Pairwise fun a b => key a ≤ key b

/-- `t` is what comes first when `l` is sorted. -/
def Firsts (key : α → κ) (n : ℕ) (l t : List α) : Prop := ∃ s, Sorts key l s ∧ t = s.take n

theorem exists_sorts (key : α → κ) (l : List α) : ∃ s, Sorts key l s := by
  refine ⟨l.mergeSort fun a b => key a ≤ key b, List.mergeSort_perm _ _, ?_⟩
  have htrans : ∀ a b c, decide (key a ≤ key b) = true → decide (key b ≤ key c) = true →
    decide (key a ≤ key c) = true :=
    fun a b c hab hbc => decide_eq_true (le_trans (of_decide_eq_true hab) (of_decide_eq_true hbc))
  have htotal : ∀ a b, (decide (key a ≤ key b) || decide (key b ≤ key a)) = true := by
    intro a b
    rw [Bool.or_eq_true, decide_eq_true_eq, decide_eq_true_eq]
    exact le_total _ _
  have hsorted : (l.mergeSort fun a b => key a ≤ key b).Pairwise fun a b =>
    decide (key a ≤ key b) = true :=
    List.pairwise_mergeSort htrans htotal l
  exact hsorted.imp fun h => of_decide_eq_true h

theorem sorts_nil : Sorts key [] s ↔ s = [] := by
  constructor
  · intro h
    exact List.perm_nil.1 h.1
  · rintro rfl
    exact ⟨List.Perm.nil, List.Pairwise.nil⟩

theorem Sorts.congr (h : Sorts key l s) (hl : l.Perm l') : Sorts key l' s := ⟨h.1.trans hl, h.2⟩

/-- A list whose elements are sorted by what is made of them. -/
theorem Sorts.map {β : Type} {key : β → κ} (f : α → β) (h : Sorts (fun a => key (f a)) l s) :
    Sorts key (l.map f) (s.map f) :=
  ⟨h.1.map f, List.pairwise_map.2 h.2⟩

theorem Sorts.append {l₁ l₂ s₁ s₂ : List α} (h₁ : Sorts key l₁ s₁) (h₂ : Sorts key l₂ s₂)
    (hle : ∀ a ∈ l₁, ∀ b ∈ l₂, key a ≤ key b) : Sorts key (l₁ ++ l₂) (s₁ ++ s₂) := by
  refine ⟨h₁.1.append h₂.1, List.pairwise_append.2 ⟨h₁.2, h₂.2, fun a ha b hb => ?_⟩⟩
  exact hle a (h₁.1.mem_iff.1 ha) b (h₂.1.mem_iff.1 hb)

/-- The keys of a sorted list come in one order only. -/
theorem Sorts.keys (h : Sorts key l s) (h' : Sorts key l s') : s.map key = s'.map key := by
  have hperm : (s.map key).Perm (s'.map key) := (h.1.trans h'.1.symm).map key
  have hsorted : ∀ {s}, Sorts key l s → (s.map key).Pairwise (· ≤ ·) := fun h =>
    List.pairwise_map.2 h.2
  exact hperm.eq_of_pairwise (fun a b _ _ hab hba => le_antisymm hab hba) (hsorted h) (hsorted h')

/-- Without ties there is one order. -/
theorem Sorts.unique (h : Sorts key l s) (h' : Sorts key l s')
    (hinj : ∀ a ∈ l, ∀ b ∈ l, key a = key b → a = b) : s = s' := by
  refine (h.1.trans h'.1.symm).eq_of_pairwise (fun a b ha hb hab hba => ?_) h.2 h'.2
  exact hinj a (h.1.mem_iff.1 ha) b (h'.1.mem_iff.1 hb) (le_antisymm hab hba)

/-- **The first elements**: they are in order, as many as there can be, and no other comes before
any of them. -/
theorem firsts_iff :
    Firsts key n l t ↔ ∃ rest, (t ++ rest).Perm l ∧ t.Pairwise (fun a b => key a ≤ key b) ∧
    t.length = min n l.length ∧ ∀ a ∈ t, ∀ b ∈ rest, key a ≤ key b := by
  constructor
  · rintro ⟨s, ⟨hperm, hsorted⟩, rfl⟩
    refine ⟨s.drop n, ?_, hsorted.sublist (List.take_sublist _ _), ?_, ?_⟩
    · rw [List.take_append_drop]
      exact hperm
    · rw [List.length_take, hperm.length_eq]
    · rw [← List.take_append_drop n s] at hsorted
      exact (List.pairwise_append.1 hsorted).2.2
  · rintro ⟨rest, hperm, hsorted, hlength, hle⟩
    obtain ⟨s, hs⟩ := exists_sorts key rest
    refine ⟨t ++ s, ?_, ?_⟩
    · exact (Sorts.append ⟨List.Perm.refl t, hsorted⟩ hs hle).congr hperm
    · have htotal : (t ++ rest).length = l.length := hperm.length_eq
      rw [List.length_append] at htotal
      by_cases hn : t.length = n
      · rw [← hn, List.take_left']
        rfl
      · have hnil : rest = [] := List.length_eq_zero_iff.1 (by omega)
        rw [hnil, sorts_nil] at hs
        rw [hs, List.append_nil, List.take_of_length_le (by omega)]

theorem Firsts.congr (h : Firsts key n l t) (hl : l.Perm l') : Firsts key n l' t := by
  obtain ⟨s, hs, ht⟩ := h
  exact ⟨s, hs.congr hl, ht⟩

theorem exists_firsts (key : α → κ) (n : ℕ) (l : List α) : ∃ t, Firsts key n l t := by
  obtain ⟨s, hs⟩ := exists_sorts key l
  exact ⟨s.take n, s, hs, rfl⟩

/-- A split of two lists in one: each of the two is split alike. -/
theorem exists_split {t r l m : List α} (h : (t ++ r).Perm (l ++ m)) :
    ∃ t₁ t₂ r₁ r₂ : List α, (t₁ ++ t₂).Perm t ∧ (r₁ ++ r₂).Perm r ∧ (t₁ ++ r₁).Perm l ∧
      (t₂ ++ r₂).Perm m := by
  classical
  have hsum : (t : Multiset α) + r = l + m := by
    rw [Multiset.coe_add, Multiset.coe_add]
    exact Multiset.coe_eq_coe.2 h
  have hcount : ∀ a, (t : Multiset α).count a + (r : Multiset α).count a =
      (l : Multiset α).count a + (m : Multiset α).count a := by
    intro a
    rw [← Multiset.count_add, hsum, Multiset.count_add]
  have hlift : ∀ {x y : Multiset α} {z : List α}, x + y = z → (x.toList ++ y.toList).Perm z := by
    intro x y z hz
    rw [← Multiset.coe_eq_coe, ← Multiset.coe_add, Multiset.coe_toList, Multiset.coe_toList]
    exact hz
  refine ⟨((t : Multiset α) ∩ l).toList, ((t : Multiset α) - l).toList,
    ((l : Multiset α) - t).toList,
    ((m : Multiset α) - ((t : Multiset α) - l)).toList, hlift ?_, hlift ?_, hlift ?_, hlift ?_⟩
  all_goals
    ext a
    have ha := hcount a
    simp only [Multiset.count_add, Multiset.count_inter, Multiset.count_sub]
    omega

/-- A part of several lists: what it has of each of them. -/
theorem exists_splits {ls : List (List α)} {t r : List α} (h : (t ++ r).Perm ls.flatten) :
    ∃ ps : List (List α × List α), List.Forall₂ (fun l p => (p.1 ++ p.2).Perm l) ls ps ∧
      (ps.map Prod.fst).flatten.Perm t ∧ (ps.map Prod.snd).flatten.Perm r := by
  induction ls generalizing t r with
  | nil =>
    obtain ⟨rfl, rfl⟩ := List.append_eq_nil_iff.1 (List.perm_nil.1 h)
    exact ⟨[], .nil, List.Perm.refl _, List.Perm.refl _⟩
  | cons l ls ih =>
    rw [List.flatten_cons] at h
    obtain ⟨t₁, t₂, r₁, r₂, ht, hr, hl, hls⟩ := exists_split h
    obtain ⟨ps, hps, hfst, hsnd⟩ := ih hls
    refine ⟨(t₁, r₁) :: ps, .cons hl hps, ?_, ?_⟩
    · rw [List.map_cons, List.flatten_cons]
      exact (hfst.append_left t₁).trans ht
    · rw [List.map_cons, List.flatten_cons]
      exact (hsnd.append_left r₁).trans hr

section Flatten

variable {ls ts : List (List α)}

theorem append_append_perm (a b c d : List α) : (a ++ b ++ (c ++ d)).Perm (a ++ c ++ (b ++ d)) := by
  rw [List.append_assoc, List.append_assoc]
  refine List.Perm.append_left a ?_
  rw [← List.append_assoc, ← List.append_assoc]
  exact List.perm_append_comm.append_right d

/-- What is left of several lists when the first elements of each are taken. -/
theorem exists_rests (h : List.Forall₂ (Firsts key n) ls ts) :
    ∃ rest : List α, (ts.flatten ++ rest).Perm ls.flatten ∧
      ∀ b ∈ rest, ∃ t ∈ ts, t.length = n ∧ ∀ a ∈ t, key a ≤ key b := by
  induction h with
  | nil => exact ⟨[], List.Perm.refl _, List.forall_mem_nil _⟩
  | @cons l t ls ts hfirst _ ih =>
    obtain ⟨rest, hperm, -, hlength, hle⟩ := firsts_iff.1 hfirst
    obtain ⟨rests, hperms, hrests⟩ := ih
    refine ⟨rest ++ rests, ?_, ?_⟩
    · rw [List.flatten_cons, List.flatten_cons]
      exact (append_append_perm t ts.flatten rest rests).trans (hperm.append hperms)
    · intro b hb
      rcases List.mem_append.1 hb with hb | hb
      · refine ⟨t, List.mem_cons_self, ?_, fun a ha => hle a ha b hb⟩
        have hpos := List.length_pos_of_mem hb
        have htotal := hperm.length_eq
        rw [List.length_append] at htotal
        omega
      · obtain ⟨t', ht', hfull⟩ := hrests b hb
        exact ⟨t', List.mem_cons_of_mem _ ht', hfull⟩

/-- The first elements of the first elements of each list come before all that were left out. -/
theorem firsts_of_firsts (h : List.Forall₂ (Firsts key n) ls ts) (ht : Firsts key n ts.flatten t) :
    Firsts key n ls.flatten t := by
  obtain ⟨rest, hperm, hsorted, hlength, hle⟩ := firsts_iff.1 ht
  obtain ⟨rests, hperms, hrests⟩ := exists_rests h
  have htotal : (ts.flatten ++ rests).length = ls.flatten.length := hperms.length_eq
  rw [List.length_append] at htotal
  -- a list that has lost an element has given `n` others
  have hfull : ∀ b ∈ rests, t.length = n ∧ ∃ t' ∈ ts, t'.length = n ∧ ∀ a ∈ t', key a ≤ key b := by
    intro b hb
    obtain ⟨t', ht', hn, hbefore⟩ := hrests b hb
    have hlong : n ≤ ts.flatten.length := hn ▸ (List.sublist_flatten_of_mem ht').length_le
    exact ⟨by omega, t', ht', hn, hbefore⟩
  refine firsts_iff.2 ⟨rest ++ rests, ?_, hsorted, ?_, fun a ha b hb => ?_⟩
  · rw [← List.append_assoc]
    exact (hperm.append_right rests).trans hperms
  · cases rests with
    | nil =>
      rw [List.length_nil, Nat.add_zero] at htotal
      omega
    | cons b rests =>
      obtain ⟨hn, t', ht', hn', -⟩ := hfull b List.mem_cons_self
      have hlong : n ≤ ts.flatten.length := hn' ▸ (List.sublist_flatten_of_mem ht').length_le
      omega
  · rcases List.mem_append.1 hb with hb | hb
    · exact hle a ha b hb
    · -- if `b` came before `a`, so would all the `n` others, and there would be no place for `a`
      by_contra hlt
      rw [not_le] at hlt
      obtain ⟨hn, t', ht', hn', hbefore⟩ := hfull b hb
      have hsmall : t'.countP (fun x => decide (key x < key a)) = t'.length :=
        List.countP_eq_length.2 fun x hx => decide_eq_true (lt_of_le_of_lt (hbefore x hx) hlt)
      have hcount : t'.countP (fun x => decide (key x < key a)) ≤ (t ++ rest).countP
          (fun x => decide (key x < key a)) := by
        rw [hperm.countP_eq]
        exact (List.sublist_flatten_of_mem ht').countP_le
      have hnone : rest.countP (fun x => decide (key x < key a)) = 0 :=
        List.countP_eq_zero.2 fun x hx => by simpa using hle a ha x hx
      rw [List.countP_append, hnone, Nat.add_zero, hsmall, hn', ← hn] at hcount
      have hall : t.countP (fun x => decide (key x < key a)) = t.length :=
        le_antisymm List.countP_le_length hcount
      have hself := of_decide_eq_true (List.countP_eq_length.1 hall a ha)
      exact absurd hself (lt_irrefl _)

/-- First elements of a list that begin with the part `p.1`, and as many of the others as there is
room for. -/
theorem firsts_part {p : List α × List α} (hl : (p.1 ++ p.2).Perm l)
    (hle : ∀ a ∈ p.1, ∀ b ∈ p.2, key a ≤ key b) (hfit : p.1.length ≤ n) :
    ∃ t r r' : List α, Firsts key n l t ∧ t.Perm (p.1 ++ r) ∧ (r ++ r').Perm p.2 := by
  obtain ⟨s₁, hs₁⟩ := exists_sorts key p.1
  obtain ⟨s₂, hs₂⟩ := exists_sorts key p.2
  refine ⟨(s₁ ++ s₂).take n, s₂.take (n - s₁.length), s₂.drop (n - s₁.length),
    ⟨_, (hs₁.append hs₂ hle).congr hl, rfl⟩, ?_, ?_⟩
  · rw [List.take_append, List.take_of_length_le (hs₁.1.length_eq ▸ hfit)]
    exact hs₁.1.append_right _
  · rw [List.take_append_drop]
    exact hs₂.1

theorem firsts_parts {ps : List (List α × List α)}
    (h : List.Forall₂ (fun l p => (p.1 ++ p.2).Perm l) ls ps)
    (hle : ∀ p ∈ ps, ∀ a ∈ p.1, ∀ b ∈ p.2, key a ≤ key b) (hfit : ∀ p ∈ ps, p.1.length ≤ n) :
    ∃ (ts : List (List α)) (r r' : List α), List.Forall₂ (Firsts key n) ls ts ∧
      ts.flatten.Perm ((ps.map Prod.fst).flatten ++ r) ∧
        (r ++ r').Perm (ps.map Prod.snd).flatten := by
  induction h with
  | nil => exact ⟨[], [], [], .nil, List.Perm.refl _, List.Perm.refl _⟩
  | @cons l p ls ps hp _ ih =>
    obtain ⟨hle, hles⟩ := List.forall_mem_cons.1 hle
    obtain ⟨hfit, hfits⟩ := List.forall_mem_cons.1 hfit
    obtain ⟨t, r, r', hfirst, ht, hr⟩ := firsts_part hp hle hfit
    obtain ⟨ts, rs, rs', hfirsts, hts, hrs⟩ := ih hles hfits
    refine ⟨t :: ts, r ++ rs, r' ++ rs', .cons hfirst hfirsts, ?_, ?_⟩
    · rw [List.flatten_cons, List.map_cons, List.flatten_cons]
      exact (ht.append hts).trans (append_append_perm p.1 r _ rs)
    · rw [List.map_cons, List.flatten_cons]
      exact (append_append_perm r rs r' rs').trans (hr.append hrs)

/-- Any first elements of several lists can be had from first elements of each. -/
theorem exists_firsts_flatten (h : Firsts key n ls.flatten t) :
    ∃ ts, List.Forall₂ (Firsts key n) ls ts ∧ Firsts key n ts.flatten t := by
  obtain ⟨rest, hperm, hsorted, hlength, hle⟩ := firsts_iff.1 h
  obtain ⟨ps, hps, hfst, hsnd⟩ := exists_splits hperm
  have htaken : ∀ p ∈ ps, ∀ a ∈ p.1, a ∈ t := fun p hp a ha =>
    hfst.mem_iff.1 (List.mem_flatten.2 ⟨_, List.mem_map_of_mem hp, ha⟩)
  have hleft : ∀ p ∈ ps, ∀ b ∈ p.2, b ∈ rest := fun p hp b hb =>
    hsnd.mem_iff.1 (List.mem_flatten.2 ⟨_, List.mem_map_of_mem hp, hb⟩)
  have hfit : ∀ p ∈ ps, p.1.length ≤ n := by
    intro p hp
    have hpart : p.1.length ≤ t.length := by
      rw [← hfst.length_eq]
      exact (List.sublist_flatten_of_mem (List.mem_map_of_mem hp)).length_le
    omega
  obtain ⟨ts, r, r', hfirsts, hts, hr⟩ :=
    firsts_parts hps (fun p hp a ha b hb => hle a (htaken p hp a ha) b (hleft p hp b hb)) hfit
  have hperm' : (t ++ r).Perm ts.flatten := (hfst.symm.append_right r).trans hts.symm
  have hrest : ∀ b ∈ r, b ∈ rest := fun b hb =>
    hsnd.mem_iff.1 (hr.mem_iff.1 (List.mem_append_left _ hb))
  refine ⟨ts, hfirsts, firsts_iff.2 ⟨r, hperm', hsorted, ?_,
    fun a ha b hb => hle a ha b (hrest b hb)⟩⟩
  have h₁ := hperm'.length_eq
  have h₂ := hperm.length_eq
  have h₃ := (hr.trans hsnd).length_eq
  rw [List.length_append] at h₁ h₂ h₃
  omega

/-- **The first elements of several lists** are had from the first elements of each. -/
theorem firsts_flatten :
    (∃ ts, List.Forall₂ (Firsts key n) ls ts ∧ Firsts key n ts.flatten t) ↔
    Firsts key n ls.flatten t := by
  constructor
  · rintro ⟨ts, h, ht⟩
    exact firsts_of_firsts h ht
  · exact exists_firsts_flatten

end Flatten

section Pages

variable {i k : ℕ}

/-- No element before position `i` has the same key as one behind it. -/
def Separates (key : α → κ) (s : List α) (i : ℕ) : Prop :=
  ∀ a ∈ s.take i, ∀ b ∈ s.drop i, key a ≠ key b

theorem Sorts.pairwise_split (h : Sorts key l s) (i : ℕ) :
    ∀ a ∈ s.take i, ∀ b ∈ s.drop i, key a ≤ key b := by
  have hsorted := h.2
  rw [← List.take_append_drop i s] at hsorted
  exact (List.pairwise_append.1 hsorted).2.2

/-- Where the keys separate, every order has the same elements first. -/
theorem Sorts.take_perm (h : Sorts key l s) (h' : Sorts key l s') (hsep : Separates key s i) :
    (s.take i).Perm (s'.take i) := by
  have hkeys := h.keys h'
  have hlength : s.length = s'.length := (h.1.trans h'.1.symm).length_eq
  cases hdrop : s.drop i with
  | nil =>
    have hi : s.length ≤ i := List.drop_eq_nil_iff.1 hdrop
    rw [List.take_of_length_le hi, List.take_of_length_le (hlength ▸ hi)]
    exact h.1.trans h'.1.symm
  | cons b rest =>
    -- the elements before `b` are those with a smaller key
    have hfilter : ∀ {s : List α}, (∀ a ∈ s.take i, key a < key b) →
      (∀ a ∈ s.drop i, key b ≤ key a) →
        s.take i = s.filter fun a => decide (key a < key b) := by
      intro s hlt hle
      conv_rhs => rw [← List.take_append_drop i s]
      have hfirst : (s.take i).filter (fun a => decide (key a < key b)) = s.take i :=
        List.filter_eq_self.2 fun a ha => decide_eq_true (hlt a ha)
      have hlast : (s.drop i).filter (fun a => decide (key a < key b)) = [] :=
        List.filter_eq_nil_iff.2 fun a ha => by simpa using hle a ha
      rw [List.filter_append, hfirst, hlast, List.append_nil]
    have hb : b ∈ s.drop i := hdrop ▸ List.mem_cons_self
    have hlt : ∀ a ∈ s.take i, key a < key b := fun a ha =>
      lt_of_le_of_ne (h.pairwise_split i a ha b hb) (hsep a ha b hb)
    have hle : ∀ a ∈ s.drop i, key b ≤ key a := by
      intro a ha
      have hsorted := h.2.sublist (List.drop_sublist i s)
      rw [hdrop] at hsorted ha
      rcases List.mem_cons.1 ha with rfl | ha
      · exact le_rfl
      · exact (List.pairwise_cons.1 hsorted).1 a ha
    have htake : (s.take i).map key = (s'.take i).map key := by
      rw [List.map_take, List.map_take, hkeys]
    have hdrops : (s.drop i).map key = (s'.drop i).map key := by
      rw [List.map_drop, List.map_drop, hkeys]
    have hlt' : ∀ a ∈ s'.take i, key a < key b := by
      intro a ha
      have ha' : key a ∈ (s.take i).map key := htake ▸ List.mem_map_of_mem ha
      obtain ⟨c, hc, hca⟩ := List.mem_map.1 ha'
      exact hca ▸ hlt c hc
    have hle' : ∀ a ∈ s'.drop i, key b ≤ key a := by
      intro a ha
      have ha' : key a ∈ (s.drop i).map key := hdrops ▸ List.mem_map_of_mem ha
      obtain ⟨c, hc, hca⟩ := List.mem_map.1 ha'
      exact hca ▸ hle c hc
    rw [hfilter hlt hle, hfilter hlt' hle']
    exact (h.1.trans h'.1.symm).filter _

/-- One order tells whether the keys separate. -/
theorem Sorts.separates (h : Sorts key l s) (h' : Sorts key l s') (hsep : Separates key s i) :
    Separates key s' i := by
  have hkeys : s.map key = s'.map key := h.keys h'
  intro a ha b hb hab
  have hfirst : key a ∈ (s'.map key).take i := by
    rw [← List.map_take]
    exact List.mem_map_of_mem ha
  have hlast : key b ∈ (s'.map key).drop i := by
    rw [← List.map_drop]
    exact List.mem_map_of_mem hb
  rw [← hkeys, ← List.map_take] at hfirst
  rw [← hkeys, ← List.map_drop] at hlast
  obtain ⟨a', ha', hkeyA⟩ := List.mem_map.1 hfirst
  obtain ⟨b', hb', hkeyB⟩ := List.mem_map.1 hlast
  exact hsep a' ha' b' hb' (hkeyA.trans (hab.trans hkeyB.symm))

/-- Where they do not, some order has the other of the two elements first. -/
theorem Sorts.exists_swap {a b : α} (h : Sorts key l s) (ha : a ∈ s.take i) (hb : b ∈ s.drop i)
    (hab : key a = key b) :
    ∃ s', Sorts key l s' ∧ b ∈ s'.take i := by
  obtain ⟨u, v, huv⟩ := List.append_of_mem ha
  obtain ⟨w, z, hwz⟩ := List.append_of_mem hb
  have hs : s = (u ++ a :: v) ++ (w ++ b :: z) := by rw [← huv, ← hwz, List.take_append_drop]
  refine ⟨(u ++ b :: v) ++ (w ++ a :: z), ⟨?_, ?_⟩, ?_⟩
  · refine List.Perm.trans ?_ h.1
    rw [hs]
    have hmove : ∀ x y : α, ((u ++ x :: v) ++ (w ++ y :: z)).Perm
        (x :: y :: (u ++ v ++ (w ++ z))) := by
      intro x y
      exact (List.perm_middle.append List.perm_middle).trans (List.Perm.cons x List.perm_middle)
    exact (hmove b a).trans ((List.Perm.swap a b _).trans (hmove a b).symm)
  · have hsorted : (s.map key).Pairwise (· ≤ ·) := List.pairwise_map.2 h.2
    rw [hs] at hsorted
    refine List.pairwise_map.1 ?_
    simp only [List.map_append, List.map_cons, hab] at hsorted ⊢
    exact hsorted
  · have hlength : (u ++ b :: v).length = (s.take i).length := by
      rw [huv, List.length_append, List.length_append, List.length_cons, List.length_cons]
    have hle : (u ++ b :: v).length ≤ i := hlength ▸ List.length_take_le i s
    rw [List.take_append, List.take_of_length_le hle]
    exact List.mem_append_left _ (List.mem_append_right _ List.mem_cons_self)

/-- The first `k` pages of a list. -/
theorem flatten_pages (s : List α) (n k : ℕ) :
    ((List.range k).map fun j => (s.drop (j * n)).take n).flatten = s.take (k * n) := by
  induction k with
  | zero => simp
  | succ k ih =>
    rw [List.range_succ, List.map_append, List.flatten_append, ih, Nat.succ_mul, List.take_add]
    simp

end Pages

end ModDNS.Data
