import ModDNS.Libs.StampStable

/-!
# What is too much of an address

The bytes of an address behind its 255th are read as hashes, in front of those of the stamp. The
last of the fields has to end where it did, so that what is read is the hashes of the stamp, with
empty ones among them.

* `mem_of_shift`: a list that is found in itself, moved.
* `overhang_empty`: the bytes are read right only if each of them is the length of an empty hash.
* `overhang_read`: and then they are.
-/

namespace ModDNS.Libs.DnsStamps

open Go

section Shift

variable {α : Type} {a a' : α} {l t p u v x rest rest' : List α}

/-- A list behind which something stands, up to its first element the same list, and found there
once more: its elements come from what stands behind it. -/
theorem mem_of_shift (ht : t ≠ []) (h : p ++ a :: l = a' :: l ++ t) : a ∈ t := by
  have hlength : p.length = t.length := by
    have hlengths := congrArg List.length h
    simp only [List.length_append, List.length_cons] at hlengths
    omega
  have hpos : 0 < t.length := List.length_pos_of_ne_nil ht
  -- from each place of the list one goes on by the length of what stands behind it
  have hnext : ∀ i, i + t.length < l.length + 1 → (a :: l)[i]? = (a :: l)[i + t.length]? := by
    intro i hi
    have hat : (p ++ a :: l)[i + t.length]? = (a' :: l ++ t)[i + t.length]? := by rw [h]
    rw [List.getElem?_append_right (by omega), List.getElem?_append_left
      (by simpa using hi), hlength,
      Nat.add_sub_cancel] at hat
    rw [hat]
    obtain ⟨j, hj⟩ : ∃ j, i + t.length = j + 1 := ⟨i + t.length - 1, by omega⟩
    rw [hj]
    rfl
  have hlast : ∀ i, i < l.length + 1 → l.length + 1 ≤ i + t.length →
      (a :: l)[i]? = t[i + t.length - (l.length + 1)]? := by
    intro i hi hend
    have hat : (p ++ a :: l)[i + t.length]? = (a' :: l ++ t)[i + t.length]? := by rw [h]
    rw [List.getElem?_append_right (by omega), List.getElem?_append_right
      (by simpa using hend), hlength,
      Nat.add_sub_cancel] at hat
    exact hat
  have hall : ∀ n i, l.length + 1 ≤ i + n → ∀ y, (a :: l)[i]? = some y → y ∈ t := by
    intro n
    induction n with
    | zero =>
      intro i hi y hy
      rw [List.getElem?_eq_none (by simpa using hi)] at hy
      cases hy
    | succ n ih =>
      intro i hi y hy
      by_cases hin : i < l.length + 1
      · by_cases hstays : i + t.length < l.length + 1
        · rw [hnext i hstays] at hy
          exact ih _ (by omega) y hy
        · rw [hlast i hin (by omega)] at hy
          exact List.mem_of_getElem? hy
      · exact ih i (by omega) y hy
  exact hall (l.length + 1) 0 (by omega) a rfl

/-- Two lists of one length, of which the first has something in front. -/
theorem split_shifted (hlength : v.length = u.length) (h : x ++ v ++ rest = u ++ rest') :
    ∃ x', x ++ v = u ++ x' ∧ x' ++ rest = rest' ∧ x'.length = x.length := by
  rcases List.append_eq_append_iff.1 h with ⟨c, hu, hrest⟩ | ⟨c, hv, hrest⟩
  · have hlengths := congrArg List.length hu
    simp only [List.length_append] at hlengths
    obtain rfl : c = [] := List.length_eq_zero_iff.1 (by omega)
    obtain rfl : x = [] := List.length_eq_zero_iff.1 (by omega)
    refine ⟨[], ?_, hrest, rfl⟩
    rw [hu]
    simp
  · have hlengths := congrArg List.length hv
    simp only [List.length_append] at hlengths
    exact ⟨c, hv, hrest.symm, by omega⟩

end Shift

section Bytes

variable {hash : Bytes} {hashes raw : List Bytes} {x y : Bytes}

/-- The byte before a hash behind which another one follows. -/
def moreByte (hash : Bytes) : UInt8 := UInt8.ofNat ((lenByte hash).toNat % 128 + 128)

/-- The byte before the last hash. -/
def lastByte (hash : Bytes) : UInt8 := UInt8.ofNat ((lenByte hash).toNat % 128)

theorem hashFields_more (hash : Bytes) (h : raw ≠ []) :
    hashFields (hash :: raw) = moreByte hash :: hash ++ hashFields raw :=
  hashFields_cons hash h

theorem hashFields_single (hash : Bytes) : hashFields [hash] = lastByte hash :: hash := rfl

/-- Only the length of an empty hash is that of an empty hash. -/
theorem moreByte_ne (hne : hash ≠ []) (hfit : hash.length ≤ 127) : moreByte hash ≠ 0x80 := by
  intro heq
  have htoNat := (hash_toNat hfit).2
  have hpos := List.length_pos_of_ne_nil hne
  unfold moreByte at heq
  rw [heq] at htoNat
  have h128 : (0x80 : UInt8).toNat = 128 := rfl
  omega

theorem lastByte_ne (hfit : hash.length ≤ 127) :
    lastByte hash ≠ 0x80 ∧ lastByte hash ≠ moreByte hash := by
  obtain ⟨hlast, hmore⟩ := hash_toNat hfit
  refine ⟨fun heq => ?_, fun heq => ?_⟩
  · unfold lastByte at heq
    rw [heq] at hlast
    have h128 : (0x80 : UInt8).toNat = 128 := rfl
    omega
  · unfold lastByte moreByte at heq
    rw [heq, hmore] at hlast
    omega

theorem lastByte_pos (hne : hash ≠ []) (hfit : hash.length ≤ 127) : lastByte hash ≠ 0 := by
  intro heq
  have hlast := (hash_toNat hfit).1
  have hpos := List.length_pos_of_ne_nil hne
  unfold lastByte at heq
  rw [heq] at hlast
  have hzero : (0 : UInt8).toNat = 0 := rfl
  omega

/-- Empty hashes are lengths only. -/
theorem hashFields_empties (k : ℕ) :
    hashFields (List.replicate (k + 1) []) = List.replicate k 0x80 ++ [0] := by
  induction k with
  | zero => rfl
  | succ k ih =>
    rw [List.replicate_succ, hashFields_more _ (by simp), ih, List.replicate_succ]
    rfl

theorem hashFields_empties_append (k : ℕ) (hne : hashes ≠ []) :
    hashFields (List.replicate k [] ++ hashes) = List.replicate k 0x80 ++ hashFields hashes := by
  induction k with
  | zero => rfl
  | succ k ih =>
    rw [List.replicate_succ, List.cons_append, hashFields_more _ (by simp [hne]), ih,
      List.replicate_succ]
    rfl

/-- The hashes of a stamp do not start with an empty one that another one follows. -/
theorem hashFields_head (hhashes : ∀ hash ∈ hashes, hash ≠ [] ∧ hash.length ≤ 127) :
    ∃ b rest, hashFields hashes = b :: rest ∧ b ≠ 0x80 := by
  cases hashes with
  | nil => exact ⟨0, [], rfl, by decide⟩
  | cons hash hashes =>
    obtain ⟨hne, hfit⟩ := hhashes hash List.mem_cons_self
    by_cases hlast : hashes = []
    · subst hlast
      exact ⟨lastByte hash, hash, rfl, (lastByte_ne hfit).1⟩
    · exact ⟨moreByte hash, hash ++ hashFields hashes, hashFields_more hash hlast,
        moreByte_ne hne hfit⟩

theorem eq_empties (h : raw.filter (· ≠ []) = []) : raw = List.replicate raw.length [] := by
  refine List.eq_replicate_iff.2 ⟨rfl, fun hash hhash => ?_⟩
  have hempty := List.filter_eq_nil_iff.1 h hash hhash
  simpa using hempty

/-- **What is read right.** The hashes of a stamp, behind some bytes and before others, are read as
themselves with empty ones among them only if nothing stands behind them, and each byte before them
is the length of an empty hash. -/
theorem overhang_empty (hhashes : ∀ hash ∈ hashes, hash ≠ [] ∧ hash.length ≤ 127) (hne : raw ≠ [])
    (hraw : raw.filter (· ≠ []) = hashes) (h : x ++ hashFields hashes ++ y = hashFields raw) :
    y = [] ∧ ∀ b ∈ x, b = 0x80 := by
  induction raw generalizing x hashes with
  | nil => exact absurd rfl hne
  | cons hash raw ih =>
    by_cases hend : raw = []
    · -- nothing but the last hash is left
      subst hend
      have hsame : hashFields hashes = hashFields [hash] := by
        rw [← hraw]
        by_cases hempty : hash = []
        · rw [hempty]
          rfl
        · rw [List.filter_cons_of_pos (by simpa using hempty), List.filter_nil]
      rw [hsame] at h
      have hlengths := congrArg List.length h
      simp only [List.length_append] at hlengths
      obtain rfl : x = [] := List.length_eq_zero_iff.1 (by omega)
      exact ⟨List.length_eq_zero_iff.1 (by omega), List.forall_mem_nil _⟩
    · rw [hashFields_more hash hend] at h
      by_cases hempty : hash = []
      · -- an empty hash takes up a byte
        subst hempty
        rw [List.filter_cons_of_neg (by simp)] at hraw
        cases x with
        | nil =>
          obtain ⟨b, rest, hhead, hb⟩ := hashFields_head hhashes
          rw [hhead] at h
          exact absurd (List.cons.inj h).1 hb
        | cons b x =>
          obtain ⟨rfl, hrest⟩ := List.cons.inj h
          obtain ⟨hnothing, hbytes⟩ := ih hhashes hend hraw hrest
          exact ⟨hnothing, List.forall_mem_cons.2 ⟨rfl, hbytes⟩⟩
      · rw [List.filter_cons_of_pos (by simpa using hempty)] at hraw
        subst hraw
        obtain ⟨-, hfit⟩ := hhashes hash List.mem_cons_self
        by_cases hlast : raw.filter (· ≠ []) = []
        · -- empty hashes only are left
          rw [hlast, hashFields_single] at h
          have hlengths : (lastByte hash :: hash).length = (moreByte hash :: hash).length := rfl
          obtain ⟨x', hx, hrest, hlength⟩ := split_shifted hlengths h
          exfalso
          by_cases hnone : x' = []
          · subst hnone
            obtain rfl : x = [] := List.length_eq_zero_iff.1 hlength.symm
            rw [List.append_nil] at hx
            exact (lastByte_ne hfit).2 (List.cons.inj hx).1
          · have hmem : lastByte hash ∈ x' ++ y := List.mem_append_left _ (mem_of_shift hnone hx)
            obtain ⟨k, hk⟩ : ∃ k, raw.length = k + 1 := Nat.exists_eq_succ_of_ne_zero fun hzero =>
              hend (List.length_eq_zero_iff.1 hzero)
            rw [hrest, eq_empties hlast, hk, hashFields_empties] at hmem
            rcases List.mem_append.1 hmem with hmore | hzero
            · exact (lastByte_ne hfit).1 (List.eq_of_mem_replicate hmore)
            · exact lastByte_pos hempty hfit (List.mem_singleton.1 hzero)
        · -- the hash is read, and as many bytes are left before the next one
          rw [hashFields_more hash hlast, ← List.append_assoc, List.append_assoc _ _ y] at h
          have hlengths : (moreByte hash :: hash).length = (moreByte hash :: hash).length := rfl
          obtain ⟨x', hx, hrest, hlength⟩ := split_shifted hlengths h
          rw [← List.append_assoc] at hrest
          obtain ⟨hnothing, hbytes⟩ :=
            ih (fun hash' hhash' => hhashes hash' (List.mem_cons_of_mem _ hhash')) hend rfl hrest
          refine ⟨hnothing, ?_⟩
          by_cases hnone : x' = []
          · subst hnone
            obtain rfl : x = [] := List.length_eq_zero_iff.1 hlength.symm
            exact List.forall_mem_nil _
          · exact absurd (hbytes _ (mem_of_shift hnone hx)) (moreByte_ne hempty hfit)

/-- **Lengths of empty hashes** before the hashes of a stamp are read as such. -/
theorem overhang_read (hhashes : ∀ hash ∈ hashes, hash ≠ []) (hx : ∀ b ∈ x, b = 0x80) :
    ∃ raw, raw ≠ [] ∧ raw.filter (· ≠ []) = hashes ∧ hashFields raw = x ++ hashFields hashes := by
  have hbytes : x = List.replicate x.length 0x80 := List.eq_replicate_iff.2 ⟨rfl, hx⟩
  have hempties : ∀ n, (List.replicate n ([] : Bytes)).filter (· ≠ []) = [] := fun n => by simp
  rw [hbytes]
  generalize x.length = k
  by_cases hnone : hashes = []
  · subst hnone
    exact ⟨List.replicate (k + 1) [], by simp, hempties _, hashFields_empties k⟩
  · refine ⟨List.replicate k [] ++ hashes, by simp [hnone], ?_, hashFields_empties_append k hnone⟩
    rw [List.filter_append, hempties, List.nil_append]
    exact List.filter_eq_self.2 fun hash hhash => by simpa using hhashes hash hhash

end Bytes

end ModDNS.Libs.DnsStamps
