import ModDNS.Go.Strings

/-!
# Domain names and their labels

The labels of a name are what its dots separate. A name is at or below another one if it ends with
its labels (`atOrBelow_iff`), and what is joined from the last labels of a name is such a name
(`joinDots_suffix`).
-/

namespace ModDNS.Go

/-- A name as it is compared: in lower case, without the dot at its end. -/
def normalName (name : String) : String := toLower (trimSuffix name ".")

/-- The name is the domain or lies below it: the domain stands at its end, behind a dot. -/
def AtOrBelow (name domain : String) : Prop := name = domain ∨ hasSuffix name ("." ++ domain) = true

instance (name domain : String) : Decidable (AtOrBelow name domain) :=
  inferInstanceAs (Decidable (_ ∨ _))

/-- The domain is a proper parent of the name. -/
def IsParent (name domain : String) : Prop := AtOrBelow name domain ∧ domain ≠ name

instance (name domain : String) : Decidable (IsParent name domain) :=
  inferInstanceAs (Decidable (_ ∧ _))

/-- How many labels a name has. -/
def labelCount (name : String) : ℕ := (splitDots name).length

section Labels

variable {s name domain label : String} {labels l : List String}

theorem splitDots_ne_nil (s : String) : splitDots s ≠ [] := by
  rw [splitDots, ne_eq, List.map_eq_nil_iff]
  exact List.splitOn_ne_nil _ _

theorem joinDots_eq (labels : List String) : joinDots labels = join labels '.' := by
  apply String.toList_injective
  rw [joinDots, join, String.toList_intercalate]
  exact String.toList_ofList.symm

theorem joinDots_splitDots (s : String) : joinDots (splitDots s) = s := by
  rw [joinDots_eq]
  exact join_split s '.'

theorem splitDots_joinDots (hne : labels ≠ []) (h : ∀ label ∈ labels, '.' ∉ label.toList) :
    splitDots (joinDots labels) = labels := by
  rw [joinDots_eq]
  exact split_join hne h

theorem joinDots_cons (label : String) (hne : labels ≠ []) :
    joinDots (label :: labels) = label ++ "." ++ joinDots labels :=
  String.intercalate_cons_of_ne_nil hne

/-- No label holds a dot. -/
theorem dot_not_mem (h : label ∈ splitDots s) : '.' ∉ label.toList := by
  obtain ⟨cs, hcs, rfl⟩ := List.mem_map.1 h
  rw [String.toList_ofList]
  have hall : ∀ xs : List Char, ∀ ds ∈ xs.splitOn '.', '.' ∉ ds := by
    intro xs
    induction xs with
    | nil =>
      intro ds hds
      rw [List.splitOn_nil, List.mem_singleton] at hds
      rw [hds]
      exact List.not_mem_nil
    | cons x xs ih =>
      intro ds hds
      rw [List.splitOn_cons_eq_if_modifyHead] at hds
      split at hds
      · rcases List.mem_cons.1 hds with rfl | hds
        · exact List.not_mem_nil
        · exact ih ds hds
      · next hx =>
        obtain ⟨first, rest, hsplit⟩ := List.exists_cons_of_ne_nil (List.splitOn_ne_nil '.' xs)
        rw [hsplit, List.modifyHead_cons] at hds
        rcases List.mem_cons.1 hds with rfl | hds
        · have hfirst := ih first (hsplit ▸ List.mem_cons_self)
          rintro hdot
          rcases List.mem_cons.1 hdot with rfl | hdot
          · exact hx BEq.rfl
          · exact hfirst hdot
        · exact ih ds (hsplit ▸ List.mem_cons_of_mem _ hds)
  exact hall _ _ hcs

theorem splitDots_injective {s t : String} (h : splitDots s = splitDots t) : s = t := by
  rw [← joinDots_splitDots s, h, joinDots_splitDots]

/-- **At or below is a matter of labels.** -/
theorem atOrBelow_iff : AtOrBelow name domain ↔ splitDots domain <:+ splitDots name := by
  constructor
  · rintro (rfl | h)
    · exact List.suffix_refl _
    · obtain ⟨front, hfront⟩ := hasSuffix_iff.1 h
      have htext : name.toList = front ++ '.' :: domain.toList := by
        rw [← hfront, String.toList_append]
        rfl
      rw [splitDots, splitDots, htext, List.splitOn_append_cons_self, List.map_append]
      exact List.suffix_append _ _
  · rintro ⟨before, hbefore⟩
    by_cases hnil : before = []
    · rw [hnil, List.nil_append] at hbefore
      exact .inl (splitDots_injective hbefore).symm
    · right
      have hname : name = joinDots before ++ ("." ++ domain) := by
        rw [← joinDots_splitDots name, ← hbefore, joinDots,
          String.intercalate_append_of_ne_nil hnil (splitDots_ne_nil _),
          ← joinDots, ← joinDots, joinDots_splitDots, String.append_assoc]
      rw [hasSuffix_iff, hname, @String.toList_append (joinDots before)]
      exact List.suffix_append _ _

/-- The last labels of a name make a domain that it is at or below. -/
theorem splitDots_suffix (hne : l ≠ []) (h : l <:+ splitDots name) : splitDots (joinDots l) = l :=
  splitDots_joinDots hne fun _ hlabel => dot_not_mem (h.subset hlabel)

/-- **The walks over a name**: what is joined from its last labels are the domains that it is at or
below. -/
theorem joinDots_suffix {p : String → Prop} {n : ℕ} (hn : 0 < n) :
    (∃ l, l <:+ splitDots name ∧ n ≤ l.length ∧ p (joinDots l)) ↔
      ∃ d, AtOrBelow name d ∧ n ≤ labelCount d ∧ p d := by
  constructor
  · rintro ⟨l, hl, hlength, hp⟩
    have hne : l ≠ [] := List.length_pos_iff.1 (by omega)
    have hsplit := splitDots_suffix hne hl
    exact ⟨joinDots l, atOrBelow_iff.2 (by rwa [hsplit]), by rwa [labelCount, hsplit], hp⟩
  · rintro ⟨d, hd, hcount, hp⟩
    exact ⟨splitDots d, atOrBelow_iff.1 hd, hcount, by rwa [joinDots_splitDots]⟩

/-- The parents are what is joined from some of the last labels, not all of them. -/
theorem joinDots_parents {p : String → Prop} {n : ℕ} (hn : 0 < n) :
    (∃ l, l <:+ (splitDots name).drop 1 ∧ n ≤ l.length ∧ p (joinDots l)) ↔
      ∃ d, IsParent name d ∧ n ≤ labelCount d ∧ p d := by
  have hlabels : ∃ first rest, splitDots name = first :: rest :=
    List.exists_cons_of_ne_nil (splitDots_ne_nil name)
  obtain ⟨first, rest, hname⟩ := hlabels
  constructor
  · rintro ⟨l, hl, hlength, hp⟩
    have hne : l ≠ [] := List.length_pos_iff.1 (by omega)
    have hsuffix : l <:+ splitDots name := hl.trans (List.drop_suffix _ _)
    have hsplit := splitDots_suffix hne hsuffix
    refine ⟨joinDots l, ⟨atOrBelow_iff.2 (by rwa [hsplit]), ?_⟩, by rwa [labelCount, hsplit], hp⟩
    intro heq
    have hle := hl.length_le
    rw [← hsplit, heq, List.length_drop, hname, List.length_cons] at hle
    omega
  · rintro ⟨d, hd, hcount, hp⟩
    refine ⟨splitDots d, ?_, hcount, by rwa [joinDots_splitDots]⟩
    have hsuffix := atOrBelow_iff.1 hd.1
    rw [hname] at hsuffix ⊢
    rcases List.suffix_cons_iff.1 hsuffix with heq | hrest
    · exact absurd (splitDots_injective (heq.trans hname.symm)) hd.2
    · exact hrest

end Labels

end ModDNS.Go
