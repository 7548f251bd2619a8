import ModDNS.Apple.Ber

/-!
# What a BER encoding means

The grammar of the encodings of an object, under the basic rules and under the distinguished ones.
Of the basic rules it has what the code knows: a length takes four bytes at most and no leading
zero, and an indefinite object is not empty.

* `ber2der_encodes`: an encoding of an object is turned into the one that the code writes for it.
-/

namespace ModDNS.Apple.Ber

open Go Data BigEndian

inductive Rules where
  | basic
  | distinguished
  deriving DecidableEq

/-- The first byte of a tag and those behind it. -/
inductive Tag : UInt8 → Bytes → Prop
  | short {b : UInt8} (hb : b &&& 0x1F ≠ 0x1F) : Tag b []
  | long {b last : UInt8} {bs : Bytes} (hb : b &&& 0x1F = 0x1F) (hbs : ∀ x ∈ bs, 0x80 ≤ x)
      (hlast : last < 0x80) :
      Tag b (bs ++ [last])

/-- The bytes of a length; the distinguished rules want as few as there can be. -/
inductive Length (r : Rules) : Bytes → ℕ → Prop
  | short {l : UInt8} (hl : l < 0x80) : Length r [l] l.toNat
  | long {b : UInt8} {bs : Bytes} (hlen : (b :: bs).length ≤ 4) (hb : b ≠ 0)
      (hsign : (b :: bs).length = 4 → b ≤ 0x7F)
      (hr : r = .distinguished → 128 ≤ value 0 (b :: bs)) :
      Length r ((0x80 ||| UInt8.ofNat (b :: bs).length) :: b :: bs) (value 0 (b :: bs))

/-- The object that two zero bytes are. -/
def endOfContents : Asn1Object := .primitive [0] 0 []

mutual

inductive Encodes (r : Rules) : Bytes → Asn1Object → Prop
  | primitive {b : UInt8} {more lb content : Bytes} (ht : Tag b more) (hk : b &&& 0x20 = 0)
      (hl : Length r lb content.length) :
      Encodes r (b :: more ++ (lb ++ content)) (.primitive (b :: more) content.length content)
  | definite {b : UInt8} {more lb bs : Bytes} {objs : List Asn1Object} (ht : Tag b more)
      (hk : b &&& 0x20 ≠ 0)
      (hl : Length r lb bs.length) (hc : EncodesAll r bs objs) :
      Encodes r (b :: more ++ (lb ++ bs)) (.structured (b :: more) objs)
  | indefinite {b : UInt8} {more bs bs' : Bytes} {obj : Asn1Object} {objs : List Asn1Object}
      (hr : r = .basic)
      (ht : Tag b more) (hk : b &&& 0x20 ≠ 0) (ho : Encodes r bs obj) (hc : EncodesAll r bs' objs)
      (hend : ∀ o ∈ objs, o ≠ endOfContents) :
      Encodes r (b :: more ++ (0x80 :: (bs ++ bs' ++ [0, 0])))
      (.structured (b :: more) (obj :: objs))

/-- Objects one after the other. -/
inductive EncodesAll (r : Rules) : Bytes → List Asn1Object → Prop
  | nil : EncodesAll r [] []
  | cons {bs bs' : Bytes} {obj : Asn1Object} {objs : List Asn1Object} (ho : Encodes r bs obj)
      (hc : EncodesAll r bs' objs) : EncodesAll r (bs ++ bs') (obj :: objs)

end

section Offsets

variable {ber bs rest : Bytes} {offset : ℕ} {b : UInt8}

theorem byteAt_drop (h : ber.drop offset = b :: rest) : byteAt ber offset = .ok b := by
  have hget : ber[offset]? = some b := by
    rw [← List.head?_drop, h]
    rfl
  rw [byteAt, hget]

theorem drop_append (h : ber.drop offset = bs ++ rest) : ber.drop (offset + bs.length) = rest := by
  rw [← List.drop_drop, h, List.drop_left]

theorem drop_cons (h : ber.drop offset = b :: rest) : ber.drop (offset + 1) = rest := by
  rw [← List.drop_drop, h, List.drop_one, List.tail_cons]

theorem slice_append (h : ber.drop offset = bs ++ rest) :
    slice ber offset (offset + bs.length) = bs := by
  rw [slice, h, Nat.add_sub_cancel_left, List.take_left]

theorem length_of_drop (h : ber.drop offset = b :: rest) :
    ber.length = offset + (b :: rest).length := by
  have hlen := congrArg List.length h
  rw [List.length_drop, List.length_cons] at hlen
  rw [List.length_cons]
  omega

end Offsets

section Headers

variable {ber more bs lb rest : Bytes} {offset n : ℕ} {b last : UInt8} {r : Rules}

theorem longTag_append (hbs : ∀ x ∈ bs, 0x80 ≤ x) (hlast : last < 0x80) :
    longTag (bs ++ last :: rest) = .ok (bs.length + 1) := by
  induction bs with
  | nil => rw [List.nil_append, longTag, if_neg (by simpa using hlast), List.length_nil]
  | cons x bs ih =>
    have hx : 0x80 ≤ x := hbs x (by simp)
    rw [List.cons_append, longTag, if_pos hx, ih fun y hy => hbs y (by simp [hy])]
    rfl

theorem tagEnd_tag (ht : Tag b more) (h : ber.drop offset = more ++ rest) :
    tagEnd ber offset b = .ok (offset + more.length) := by
  cases ht with
  | short hb => rw [tagEnd, if_neg hb, List.length_nil, Nat.add_zero]
  | @long last bs hb hbs hlast =>
    rw [tagEnd, if_pos hb, h, List.append_assoc, List.singleton_append, longTag_append hbs hlast]
    rw [List.length_append, List.length_singleton]
    rfl

theorem lengthBytes_append (length : ℕ) (h : ber.drop offset = bs ++ rest) :
    lengthBytes ber bs.length length offset = .ok (value length bs, offset + bs.length) := by
  induction bs generalizing length offset with
  | nil => rfl
  | cons b bs ih =>
    have hstep := ih (length * 256 + b.toNat) (drop_cons h)
    rw [List.length_cons, lengthBytes, byteAt_drop h, value_cons]
    simp only [hstep]
    congr 2
    omega

/-- The first byte of a length of up to four bytes. -/
theorem longLength (hn : 0 < n) (h4 : n ≤ 4) :
    0x80 < 0x80 ||| UInt8.ofNat n ∧ ((0x80 ||| UInt8.ofNat n) &&& 0x7F).toNat = n := by
  rcases (by omega : n = 1 ∨ n = 2 ∨ n = 3 ∨ n = 4) with rfl | rfl | rfl | rfl <;> decide

theorem readLength_length (hl : Length r lb n) (h : ber.drop offset = lb ++ rest) :
    readLength ber offset = .ok (n, false, offset + lb.length) := by
  cases hl with
  | @short l hl =>
    have hnot : ¬ 0x80 < l := by
      intro hlt
      exact absurd (UInt8.lt_trans hlt hl) (by simp)
    have hne : l ≠ 0x80 := by
      intro heq
      exact absurd hl (by simp [heq])
    rw [readLength, byteAt_drop h, ok_bind, if_neg hnot, if_neg hne, List.length_singleton]
  | @long b bs hlen hb hsign _ =>
    obtain ⟨hgt, hcount⟩ := longLength (n := (b :: bs).length) (by simp) hlen
    have hb0 : ber.drop (offset + 1) = b :: bs ++ rest := drop_cons h
    have hneg : ¬ ((b :: bs).length = 4 ∧ 0x7F < b) := by
      rintro ⟨h4, hlt⟩
      exact absurd (hsign h4) (by simpa using hlt)
    have hloop := lengthBytes_append 0 hb0
    rw [readLength, byteAt_drop h, ok_bind, if_pos hgt, hcount, if_neg (Nat.not_lt.mpr hlen),
      byteAt_drop hb0, ok_bind,
      if_neg hneg, if_neg hb, hloop, ok_bind]
    congr 3
    rw [List.length_cons (a := 0x80 ||| UInt8.ofNat (b :: bs).length)]
    omega

theorem readHeader_definite (ht : Tag b more) (hl : Length r lb n) (hn : n ≤ rest.length)
    (h : ber.drop offset = b :: more ++ (lb ++ rest)) :
    readHeader ber offset =
      .ok ⟨b :: more, b &&& 0x20, n, false, offset + (b :: more).length + lb.length⟩ := by
  have hmore : ber.drop (offset + 1) = more ++ (lb ++ rest) := drop_cons h
  have hlen : ber.drop (offset + (b :: more).length) = lb ++ rest := drop_append h
  have hstop : offset + 1 + more.length = offset + (b :: more).length := by
    rw [List.length_cons]
    omega
  have hcons : ber.drop offset = b :: (more ++ (lb ++ rest)) := h
  have hsize := length_of_drop hcons
  have hfits : ¬ ber.length < offset + (b :: more).length + lb.length + n := by
    rw [hsize, List.length_cons, List.length_cons, List.length_append, List.length_append]
    omega
  rw [readHeader, byteAt_drop h, ok_bind, tagEnd_tag ht hmore, ok_bind, hstop,
    readLength_length hl hlen, ok_bind]
  simp only [if_neg hfits, Bool.false_eq_true, false_and, if_false, slice_append h]

theorem readHeader_indefinite (ht : Tag b more) (hk : b &&& 0x20 ≠ 0)
    (h : ber.drop offset = b :: more ++ (0x80 :: rest)) :
    readHeader ber offset = .ok ⟨b :: more, b &&& 0x20, 0, true,
      offset + (b :: more).length + 1⟩ := by
  have hmore : ber.drop (offset + 1) = more ++ (0x80 :: rest) := drop_cons h
  have hlen : ber.drop (offset + (b :: more).length) = 0x80 :: rest := drop_append h
  have hstop : offset + 1 + more.length = offset + (b :: more).length := by
    rw [List.length_cons]
    omega
  have hcons : ber.drop offset = b :: (more ++ (0x80 :: rest)) := h
  have hsize := length_of_drop hcons
  have hfits : ¬ ber.length < offset + (b :: more).length + 1 + 0 := by
    rw [hsize, List.length_cons, List.length_cons, List.length_append, List.length_cons]
    omega
  have hread : readLength ber (offset + (b :: more).length) = .ok
      (0, true, offset + (b :: more).length + 1) := by
    rw [readLength, byteAt_drop hlen, ok_bind, if_neg (by decide), if_pos rfl]
  rw [readHeader, byteAt_drop h, ok_bind, tagEnd_tag ht hmore, ok_bind, hstop, hread, ok_bind]
  simp only [if_neg hfits, hk, and_false, if_false, slice_append h]

end Headers

/-! ## Reading what was encoded -/

/-- Wherever the bytes stand, the object is read from them. -/
def Reads (bs : Bytes) (obj : Asn1Object) : Prop :=
  ∀ ber offset fuel rest, bs.length < fuel → ber.drop offset = bs ++ rest →
    readObject ber fuel offset = .ok (obj, offset + bs.length)

/-- The objects are read up to the end that their definite length gives. -/
def ReadsAll (bs : Bytes) (objs : List Asn1Object) : Prop :=
  ∀ ber offset fuel rest, bs.length + 1 < fuel → ber.drop offset = bs ++ rest →
    readContent ber false (offset + bs.length) fuel offset = .ok (objs, offset + bs.length)

/-- Behind a first object, the others are read up to the two zero bytes. -/
def ReadsOpen (bs : Bytes) (objs : List Asn1Object) : Prop :=
  ∀ bs₀ obj, 0 < bs₀.length → Reads bs₀ obj → ∀ ber offset stop fuel rest, bs₀.length +
    bs.length + 1 < fuel →
    ber.drop offset = bs₀ ++ (bs ++ 0 :: 0 :: rest) →
    readContent ber true stop fuel offset = .ok (obj :: objs, offset + bs₀.length + bs.length)

section Contents

variable {r : Rules} {bs bs' rest : Bytes} {obj : Asn1Object} {objs : List Asn1Object} {n : ℕ}

theorem Length.ne_nil {lb : Bytes} (h : Length r lb n) : lb ≠ [] := by
  cases h <;> simp

theorem Encodes.two_le (h : Encodes r bs obj) : 2 ≤ bs.length := by
  cases h with
  | primitive _ _ hl | definite _ _ hl _ =>
    have := List.length_pos_of_ne_nil hl.ne_nil
    simp only [List.length_append, List.length_cons]
    omega
  | indefinite _ _ _ _ _ _ =>
    simp only [List.length_append, List.length_cons]
    omega

/-- Only the end of the contents looks like it. -/
theorem Encodes.zeros (h : Encodes r bs obj) (hz : [0, 0] <+: bs ++ rest) :
    obj = endOfContents := by
  cases h with
  | @primitive b more lb content ht hk hl =>
    obtain ⟨more', hbytes⟩ := hz
    simp only [List.cons_append, List.append_assoc, List.cons.injEq] at hbytes
    obtain ⟨rfl, hbytes⟩ := hbytes
    cases ht with
    | long hb => exact absurd hb (by decide)
    | short _ =>
      generalize hn : content.length = n at hl
      cases hl with
      | @short l hl =>
        simp only [List.nil_append, List.cons_append, List.cons.injEq] at hbytes
        obtain ⟨rfl, -⟩ := hbytes
        obtain rfl : content = [] := List.length_eq_zero_iff.mp hn
        rfl
      | @long b' bs' hlen =>
        obtain ⟨hgt, -⟩ := longLength (n := (b' :: bs').length) (by simp) hlen
        simp only [List.nil_append, List.cons_append, List.cons.injEq] at hbytes
        rw [← hbytes.1] at hgt
        exact absurd hgt (by decide)
  | @definite b more lb bs objs ht hk hl hc =>
    obtain ⟨more', hbytes⟩ := hz
    simp only [List.cons_append, List.append_assoc, List.cons.injEq] at hbytes
    obtain ⟨rfl, -⟩ := hbytes
    exact absurd rfl hk
  | @indefinite b more bs bs' obj objs hr ht hk ho hc hend =>
    obtain ⟨more', hbytes⟩ := hz
    simp only [List.cons_append, List.append_assoc, List.cons.injEq] at hbytes
    obtain ⟨rfl, -⟩ := hbytes
    exact absurd rfl hk

theorem readsAll_nil : ReadsAll [] [] := by
  intro ber offset fuel rest hfuel _
  obtain ⟨fuel, rfl⟩ : ∃ f, fuel = f + 1 := ⟨fuel - 1, by omega⟩
  rw [readContent, List.length_nil, Nat.add_zero, if_neg (by simp)]

theorem readsAll_cons (ho : Encodes r bs obj) (hr : Reads bs obj) (hc : ReadsAll bs' objs) :
    ReadsAll (bs ++ bs') (obj :: objs) := by
  intro ber offset fuel rest hfuel h
  obtain ⟨fuel, rfl⟩ : ∃ f, fuel = f + 1 := ⟨fuel - 1, by omega⟩
  rw [List.length_append] at hfuel
  have htwo := ho.two_le
  have hbytes : ber.drop offset = bs ++ (bs' ++ rest) := by rw [h, List.append_assoc]
  have hread := hr ber offset fuel (bs' ++ rest) (by omega) hbytes
  have hrest := hc ber (offset + bs.length) fuel rest (by omega) (drop_append hbytes)
  have hmore : offset < offset + (bs ++ bs').length ∨ false = true := by
    rw [List.length_append]
    exact .inl (by omega)
  have hend : terminated ber false (offset + bs.length) = .ok false := rfl
  rw [readContent, if_pos hmore, hread, ok_bind, List.length_append, ← Nat.add_assoc]
  simp only [hend, ok_bind, Bool.false_eq_true, if_false, hrest]

theorem readsOpen_nil : ReadsOpen [] [] := by
  intro bs₀ obj _ hr ber offset stop fuel rest hfuel h
  obtain ⟨fuel, rfl⟩ : ∃ f, fuel = f + 1 := ⟨fuel - 1, by omega⟩
  have hread := hr ber offset fuel (0 :: 0 :: rest) (by omega) h
  have hend : ber.drop (offset + bs₀.length) = 0 :: 0 :: rest := drop_append h
  have hsize := length_of_drop hend
  have hterm : terminated ber true (offset + bs₀.length) = .ok true := by
    rw [terminated, if_pos rfl, isIndefiniteTermination,
      if_neg (by rw [hsize, List.length_cons, List.length_cons]; omega), hend]
    simp
  rw [readContent, if_pos (.inr rfl), hread, ok_bind]
  simp only [hterm, ok_bind, if_true, List.length_nil, Nat.add_zero]

theorem readsOpen_cons (ho : Encodes r bs obj) (hne : obj ≠ endOfContents) (hr : Reads bs obj)
    (hc : ReadsOpen bs' objs) : ReadsOpen (bs ++ bs') (obj :: objs) := by
  intro bs₀ obj₀ hpos hr₀ ber offset stop fuel rest hfuel h
  obtain ⟨fuel, rfl⟩ : ∃ f, fuel = f + 1 := ⟨fuel - 1, by omega⟩
  rw [List.length_append] at hfuel
  have htwo := ho.two_le
  have hread := hr₀ ber offset fuel _ (by omega) h
  have hnext : ber.drop (offset + bs₀.length) = bs ++ (bs' ++ 0 :: 0 :: rest) := by
    rw [drop_append h, List.append_assoc]
  have hsize : 2 ≤ ber.length - (offset + bs₀.length) := by
    have := congrArg List.length hnext
    rw [List.length_drop, List.length_append] at this
    simp only [List.length_append, List.length_cons] at this
    omega
  -- the next object does not look like the end
  have hterm : terminated ber true (offset + bs₀.length) = .ok false := by
    rw [terminated, if_pos rfl, isIndefiniteTermination, if_neg (by omega), hnext]
    congr 1
    apply decide_eq_false
    intro hz
    exact hne (ho.zeros hz)
  have hrest := hc bs obj (by omega) hr ber (offset + bs₀.length) stop fuel rest (by omega) hnext
  rw [readContent, if_pos (.inr rfl), hread, ok_bind]
  simp only [hterm, ok_bind, Bool.false_eq_true, if_false, hrest, List.length_append, Nat.add_assoc]

end Contents

mutual

/-- **What is encoded is read.** By recursion on the derivation of the encoding. -/
theorem Encodes.reads {r : Rules} {bs : Bytes} {obj : Asn1Object} : Encodes r bs obj → Reads bs obj
  | .primitive ht hk hl => by
    intro ber offset fuel rest hfuel h
    obtain ⟨fuel, rfl⟩ : ∃ f, fuel = f + 1 := ⟨fuel - 1, by omega⟩
    rw [List.append_assoc, List.append_assoc] at h
    have hcontent := drop_append (drop_append h)
    rw [readObject, readHeader_definite ht hl (by simp) h, ok_bind]
    simp only [hk, if_true, slice_append hcontent]
    congr 2
    simp only [List.length_append]
    omega
  | .definite ht hk hl hc => by
    intro ber offset fuel rest hfuel h
    obtain ⟨fuel, rfl⟩ : ∃ f, fuel = f + 1 := ⟨fuel - 1, by omega⟩
    have hlb := List.length_pos_of_ne_nil hl.ne_nil
    rw [List.length_append, List.length_append, List.length_cons] at hfuel
    rw [List.append_assoc, List.append_assoc] at h
    have hcontent := drop_append (drop_append h)
    have hread := hc.readsAll.1 ber _ fuel rest (by omega) hcontent
    rw [readObject, readHeader_definite ht hl (by simp) h, ok_bind]
    simp only [hk, if_false, hread, ok_bind, Bool.false_eq_true]
    congr 2
    simp only [List.length_append]
    omega
  | .indefinite hr ht hk ho hc hend => by
    intro ber offset fuel rest hfuel h
    obtain ⟨fuel, rfl⟩ : ∃ f, fuel = f + 1 := ⟨fuel - 1, by omega⟩
    simp only [List.length_append, List.length_cons, List.length_nil] at hfuel
    simp only [List.append_assoc, List.cons_append, List.nil_append] at h
    have hcontent := drop_cons (drop_append (show ber.drop offset = (_ :: _) ++ _ from h))
    have hread := hc.readsAll.2 hend _ _ (by have := ho.two_le; omega) ho.reads
    rw [readObject, readHeader_indefinite ht hk h, ok_bind]
    simp only [hk, if_false, if_true, hread ber _ _ fuel rest (by omega) hcontent, ok_bind]
    congr 2
    simp only [List.length_append, List.length_cons, List.length_nil]
    omega

/-- The same for the objects inside another one, whether its length is definite or not. -/
theorem EncodesAll.readsAll {r : Rules} {bs : Bytes} {objs : List Asn1Object} :
    EncodesAll r bs objs → ReadsAll bs objs ∧ ((∀ o ∈ objs, o ≠ endOfContents) → ReadsOpen bs objs)
  | .nil => ⟨readsAll_nil, fun _ => readsOpen_nil⟩
  | .cons ho hc => by
    have hr := ho.reads
    obtain ⟨hall, hopen⟩ := hc.readsAll
    refine ⟨readsAll_cons ho hr hall, ?_⟩
    intro hend
    rw [List.forall_mem_cons] at hend
    exact readsOpen_cons ho hend.1 hr (hopen hend.2)

end

/-- **An encoding is rewritten, whatever is behind it.** The output depends on the object alone. -/
theorem ber2der_encodes {r : Rules} {bs : Bytes} {obj : Asn1Object} (h : Encodes r bs obj)
    (rest : Bytes) :
    ber2der (bs ++ rest) = .ok obj.encodeTo := by
  have htwo := h.two_le
  have hne : bs ++ rest ≠ [] := by
    intro hnil
    rw [(List.append_eq_nil_iff.mp hnil).1, List.length_nil] at htwo
    omega
  have hread :=
    h.reads (bs ++ rest) 0 ((bs ++ rest).length + 1) rest (by rw [List.length_append]; omega) rfl
  rw [ber2der, if_neg hne, hread]
  rfl

/-- An integer whose length has a byte too many, in a sequence of indefinite length. -/
theorem encodes_indefinite :
    Encodes .basic
      (0x30 :: [] ++ (0x80 :: ((0x02 :: [] ++ ([0x81, 0x01] ++ [0x05])) ++ [] ++ [0, 0])))
      (.structured [0x30] [.primitive [0x02] 1 [0x05]]) :=
  .indefinite rfl (.short (by decide)) (by decide)
    (.primitive (.short (by decide)) (by decide)
      (@Length.long .basic 0x01 [] (by decide) (by decide) (by decide) nofun))
    .nil nofun

/-- It is rewritten with the byte behind it left out. -/
theorem ber2der_encodes_indefinite :
    Encodes .basic [0x30, 0x80, 0x02, 0x81, 0x01, 0x05, 0, 0]
      (.structured [0x30] [.primitive [0x02] 1 [0x05]]) ∧
      ber2der ([0x30, 0x80, 0x02, 0x81, 0x01, 0x05, 0, 0] ++ [0xFF]) = .ok
      [0x30, 0x03, 0x02, 0x01, 0x05] :=
  ⟨encodes_indefinite, ber2der_encodes encodes_indefinite [0xFF]⟩

end ModDNS.Apple.Ber
