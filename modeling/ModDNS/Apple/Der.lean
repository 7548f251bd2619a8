import ModDNS.Apple.BerGrammar

/-!
# What BER is turned into

What is read is well formed, and what is written for it follows the distinguished rules as long as
its lengths fit into four bytes. These rules leave one encoding to each object.

* `ber2der_output`: the output is the distinguished encoding of the object that was read, and reads
  as it again.
* `ber2der_eq_self_iff`: exactly the distinguished encodings are left as they are.
-/

namespace ModDNS.Apple.Ber

open Go Data BigEndian

/-! ## Lengths -/

section Lengths

variable {n : ℕ} {lb : Bytes}

theorem encodeLength_short (h : n < 128) : encodeLength n = [UInt8.ofNat n] := by
  rw [encodeLength, if_neg (by omega)]

theorem encodeLength_long (h : 128 ≤ n) :
    encodeLength n = (0x80 ||| UInt8.ofNat (size n)) :: digits n (size n) := by
  rw [encodeLength, if_pos h]
  rfl

/-- What is written for a length is its shortest form. -/
theorem encodeLength_length (h : n < 2 ^ 31) : Length .distinguished (encodeLength n) n := by
  rcases Nat.lt_or_ge n 128 with hn | hn
  · have hnat : (UInt8.ofNat n).toNat = n := by
      rw [UInt8.toNat_ofNat']
      omega
    have hl : UInt8.ofNat n < 0x80 := by
      rw [UInt8.lt_iff_toNat_lt, hnat]
      exact hn
    have hshort := Length.short (r := .distinguished) hl
    rw [hnat] at hshort
    rw [encodeLength_short hn]
    exact hshort
  · obtain ⟨b, bs, hdigits, hb⟩ := head_digits (i := n) (by omega)
    have hlen : size n = (b :: bs).length := by rw [← hdigits, length_digits]
    have hfour : size n ≤ 4 := size_le n (by omega) (by omega)
    have hvalue : value 0 (b :: bs) = n := by
      rw [← hdigits, value_digits, Nat.zero_mul, Nat.zero_add, Nat.mod_eq_of_lt (lt_size n)]
    -- a fourth byte holds no more than what is left of the 31 bits
    have hsign : (b :: bs).length = 4 → b ≤ 0x7F := by
      intro h4
      have hle := le_value b bs
      rw [hvalue] at hle
      have hbs : bs.length = 3 := by
        rw [List.length_cons] at h4
        omega
      rw [hbs] at hle
      rw [UInt8.le_iff_toNat_le]
      change b.toNat ≤ 127
      omega
    have hlong := @Length.long .distinguished b bs (by omega)
      (by
        rintro rfl
        exact hb rfl)
      hsign (fun _ => by omega)
    rw [hvalue] at hlong
    rw [encodeLength_long hn, hdigits, hlen]
    exact hlong

theorem Length.canonical (h : Length .distinguished lb n) : lb = encodeLength n := by
  cases h with
  | @short l hl =>
    have hlt : l.toNat < 128 := UInt8.lt_iff_toNat_lt.mp hl
    rw [encodeLength_short hlt, UInt8.ofNat_toNat]
  | @long b bs hlen hb hsign hr =>
    have hb0 : b.toNat ≠ 0 := by
      intro h0
      exact hb (UInt8.toNat_inj.mp h0)
    rw [encodeLength_long (hr rfl), size_value hb0, digits_value]

end Lengths

/-! ## Objects -/

mutual

/-- The tag says how the object is built, and the length of a primitive one is that of its
content. -/
def Asn1Object.WellFormed : Asn1Object → Prop
  | .primitive tagBytes length content =>
    (∃ b more, tagBytes = b :: more ∧ Tag b more ∧ b &&& 0x20 = 0) ∧ content.length = length
  | .structured tagBytes content =>
    (∃ b more, tagBytes = b :: more ∧ Tag b more ∧ b &&& 0x20 ≠ 0) ∧ AllWellFormed content

def AllWellFormed : List Asn1Object → Prop
  | [] => True
  | obj :: objs => obj.WellFormed ∧ AllWellFormed objs

end

/-- The tag that a header holds. -/
theorem tag_of_readHeader {ber : Bytes} {offset : ℕ} {hd : Header}
    (h : readHeader ber offset = .ok hd) :
    ∃ b more, hd.tagBytes = b :: more ∧ Tag b more ∧ hd.kind = b &&& 0x20 := by
  obtain ⟨b, stop, hb, hstop, htag, hkind, -, -⟩ := of_readHeader h
  have hbytes := of_byteAt hb
  rcases of_tagEnd hstop with ⟨hshort, rfl⟩ | ⟨more, last, rest, hlong, hdrop, rfl, hmore, hlast⟩
  · refine ⟨b, [], ?_, .short hshort, hkind⟩
    rw [htag]
    have hone : ber.drop offset = [b] ++ ber.drop (offset + 1) := hbytes
    exact slice_append hone
  · refine ⟨b, more ++ [last], ?_, .long hlong hmore hlast, hkind⟩
    have hall : ber.drop offset = b :: (more ++ [last]) ++ rest := by
      rw [hbytes, hdrop, List.cons_append, List.append_assoc]
      rfl
    have hlen : offset + 1 + (more.length + 1) = offset + (b :: (more ++ [last])).length := by
      rw [List.length_cons, List.length_append, List.length_singleton]
      omega
    rw [htag, hlen, slice_append hall]

mutual

/-- What is read is well formed. -/
theorem wellFormed_of_readObject {ber : Bytes} : ∀ {fuel offset stop : ℕ} {obj : Asn1Object},
    readObject ber fuel offset = .ok (obj, stop) → obj.WellFormed
  | 0, _, _, _, h => by cases h
  | fuel + 1, offset, stop, obj, h => by
    rw [readObject] at h
    obtain ⟨hd, hhd, h⟩ := of_bind_ok h
    obtain ⟨b, more, htag, ht, hkind⟩ := tag_of_readHeader hhd
    obtain ⟨-, -, -, -, -, -, -, hlen⟩ := of_readHeader hhd
    split at h
    · next hzero =>
      cases h
      refine ⟨⟨b, more, htag, ht, by rw [← hkind, hzero]⟩, ?_⟩
      rw [slice, List.length_take, List.length_drop]
      omega
    · next hne =>
      obtain ⟨⟨objs, offset'⟩, hcontent, h⟩ := of_bind_ok h
      cases h
      exact ⟨⟨b, more, htag, ht, by rw [← hkind]; exact hne⟩, allWellFormed_of_readContent hcontent⟩

theorem allWellFormed_of_readContent {ber : Bytes} :
    ∀ {indefinite : Bool} {contentEnd fuel offset stop : ℕ} {objs : List Asn1Object},
      readContent ber indefinite contentEnd fuel offset = .ok (objs, stop) → AllWellFormed objs
  | _, _, 0, _, _, _, h => by cases h
  | indefinite, contentEnd, fuel + 1, offset, stop, objs, h => by
    rw [readContent] at h
    split at h
    · obtain ⟨⟨obj, offset'⟩, hobj, h⟩ := of_bind_ok h
      have hwf := wellFormed_of_readObject hobj
      obtain ⟨isEnd, -, h⟩ := of_bind_ok h
      split at h
      · cases h
        exact ⟨hwf, trivial⟩
      · obtain ⟨⟨objs', offset''⟩, hobjs, h⟩ := of_bind_ok h
        cases h
        exact ⟨hwf, allWellFormed_of_readContent hobjs⟩
    · cases h
      trivial

end

mutual

/-- What is written for an object follows the distinguished rules. -/
theorem encodes_encodeTo : ∀ {obj : Asn1Object}, obj.WellFormed → obj.encodeTo.length < 2 ^ 31 →
    Encodes .distinguished obj.encodeTo obj
  | .primitive tagBytes length content, ⟨⟨b, more, htag, ht, hk⟩, hlen⟩, h => by
    subst htag hlen
    rw [Asn1Object.encodeTo, List.append_assoc] at h ⊢
    simp only [List.length_append] at h
    exact .primitive ht hk (encodeLength_length (by omega))
  | .structured tagBytes content, ⟨⟨b, more, htag, ht, hk⟩, hall⟩, h => by
    subst htag
    rw [Asn1Object.encodeTo, List.append_assoc] at h ⊢
    simp only [List.length_append] at h
    have hcontent : (encodeAll content).length < 2 ^ 31 := by omega
    exact .definite ht hk (encodeLength_length hcontent) (encodesAll_encodeAll hall hcontent)

theorem encodesAll_encodeAll :
    ∀ {objs : List Asn1Object}, AllWellFormed objs → (encodeAll objs).length < 2 ^ 31 →
    EncodesAll .distinguished (encodeAll objs) objs
  | [], _, _ => .nil
  | obj :: objs, ⟨hobj, hobjs⟩, h => by
    rw [encodeAll, List.length_append] at h
    rw [encodeAll]
    exact .cons (encodes_encodeTo hobj (by omega)) (encodesAll_encodeAll hobjs (by omega))

end

mutual

/-- The distinguished rules leave no choice. -/
theorem Encodes.canonical {bs : Bytes} {obj : Asn1Object} :
    Encodes .distinguished bs obj → bs = obj.encodeTo
  | .primitive _ _ hl => by
    rw [Asn1Object.encodeTo, ← hl.canonical, List.append_assoc]
  | .definite _ _ hl hc => by
    rw [Asn1Object.encodeTo, ← hc.canonical, ← hl.canonical, List.append_assoc]
  | .indefinite hr _ _ _ _ _ => by cases hr

theorem EncodesAll.canonical {bs : Bytes} {objs : List Asn1Object} :
    EncodesAll .distinguished bs objs → bs = encodeAll objs
  | .nil => rfl
  | .cons ho hc => by rw [encodeAll, ← ho.canonical, ← hc.canonical]

end

/-! ## The conversion -/

section Conversion

variable {ber der : Bytes}

theorem of_ber2der (h : ber2der ber = .ok der) :
    ∃ obj stop, readObject ber (ber.length + 1) 0 = .ok (obj, stop) ∧ der = obj.encodeTo := by
  rw [ber2der] at h
  split at h
  · cases h
  · cases hread : readObject ber (ber.length + 1) 0 with
    | error e =>
      rw [hread] at h
      cases h
    | ok read =>
      rw [hread] at h
      cases h
      exact ⟨read.1, read.2, rfl, rfl⟩

/-- **The conversion keeps the object.** The output is the one distinguished encoding of what was
read; read again it gives the same object, ends with it, and is converted to itself. -/
theorem ber2der_output (h : ber2der ber = .ok der) (hlen : der.length < 2 ^ 31) :
    ∃ obj stop, readObject ber (ber.length + 1) 0 = .ok (obj, stop) ∧
      Encodes .distinguished der obj ∧
      readObject der (der.length + 1) 0 = .ok (obj, der.length) ∧ ber2der der = .ok der := by
  obtain ⟨obj, stop, hread, rfl⟩ := of_ber2der h
  have hder := encodes_encodeTo (wellFormed_of_readObject hread) hlen
  have hagain :=
    hder.reads obj.encodeTo 0 (obj.encodeTo.length + 1) [] (by omega) (List.append_nil _).symm
  have hsame := ber2der_encodes hder []
  rw [List.append_nil] at hsame
  rw [Nat.zero_add] at hagain
  exact ⟨obj, stop, hread, hder, hagain, hsame⟩

/-- An indefinite sequence of an integer whose length has a byte too many. -/
theorem ber2der_output_indefinite :
    ber2der [0x30, 0x80, 0x02, 0x81, 0x01, 0x05, 0x00, 0x00] = .ok [0x30, 0x03, 0x02, 0x01, 0x05] ∧
      ∃ obj stop, readObject [0x30, 0x80, 0x02, 0x81, 0x01, 0x05, 0x00, 0x00] 9 0 =
        .ok (obj, stop) ∧
        Encodes .distinguished [0x30, 0x03, 0x02, 0x01, 0x05] obj ∧
        readObject [0x30, 0x03, 0x02, 0x01, 0x05] 6 0 = .ok (obj, 5) ∧
        ber2der [0x30, 0x03, 0x02, 0x01, 0x05] = .ok [0x30, 0x03, 0x02, 0x01, 0x05] :=
  ⟨rfl, ber2der_output rfl (by decide)⟩

/-- **Exactly the distinguished encodings are left as they are.** -/
theorem ber2der_eq_self_iff (hlen : ber.length < 2 ^ 31) :
    ber2der ber = .ok ber ↔ ∃ obj, Encodes .distinguished ber obj := by
  constructor
  · intro h
    obtain ⟨obj, -, -, hder, -, -⟩ := ber2der_output h hlen
    exact ⟨obj, hder⟩
  · rintro ⟨obj, hder⟩
    have hself := ber2der_encodes hder []
    rwa [List.append_nil, ← hder.canonical] at hself

/-- A boolean is left alone, and in the long form of a length it is not. -/
theorem ber2der_eq_self_iff_boolean :
    (ber2der [0x01, 0x01, 0xFF] = .ok [0x01, 0x01, 0xFF] ∧
      ∃ obj, Encodes .distinguished [0x01, 0x01, 0xFF] obj) ∧
      ¬ ∃ obj, Encodes .distinguished [0x01, 0x81, 0x01, 0xFF] obj :=
  ⟨⟨rfl, (ber2der_eq_self_iff (by decide)).mp rfl⟩,
    fun h => nomatch (ber2der_eq_self_iff (by decide)).mpr h⟩

end Conversion

end ModDNS.Apple.Ber
