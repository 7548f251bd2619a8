import ModDNS.Data.BigEndian
import ModDNS.Go.Bytes

/-!
# Reading BER

`ber2der` reads the tree of objects of an encoding and writes it again with lengths of the shortest
form. An object is read at an offset of the whole input; an index beyond its end panics.

* `ber2der_ends`: there is always fuel enough, since every object takes two bytes at least.
-/

namespace ModDNS.Apple.Ber

open Go Data

/-- What ends a reading: a panic, an error with its text, or the bound on the recursion of this
model. -/
inductive Failure where
  | panics
  | error (text : String)
  | outOfFuel
  deriving DecidableEq

abbrev Result := Except Failure

/-- `asn1Object`: `asn1Primitive` and `asn1Structured`. -/
inductive Asn1Object where
  | primitive (tagBytes : Bytes) (length : ℕ) (content : Bytes)
  | structured (tagBytes : Bytes) (content : List Asn1Object)

/-! ## Writing -/

/-- The byte length of an encoded length value. -/
def lengthLength (i : ℕ) : ℕ := BigEndian.size i

def marshalLongLength (i : ℕ) : Bytes := BigEndian.digits i (lengthLength i)

def encodeLength (length : ℕ) : Bytes :=
  if 128 ≤ length then (0x80 ||| UInt8.ofNat (lengthLength length)) :: marshalLongLength length
  else [UInt8.ofNat length]

mutual

def Asn1Object.encodeTo : Asn1Object → Bytes
  | .primitive tagBytes length content => tagBytes ++ encodeLength length ++ content
  | .structured tagBytes content =>
    tagBytes ++ encodeLength (encodeAll content).length ++ encodeAll content

def encodeAll : List Asn1Object → Bytes
  | [] => []
  | obj :: objs => obj.encodeTo ++ encodeAll objs

end

/-! ## Reading -/

/-- `ber[offset]`. -/
def byteAt (ber : Bytes) (offset : ℕ) : Result UInt8 :=
  match ber[offset]? with
  | some b => .ok b
  | none => .error .panics

/-- `ber[start:stop]`. -/
def slice (ber : Bytes) (start stop : ℕ) : Bytes := (ber.drop start).take (stop - start)

/-- The bytes of a long tag: those from 0x80 on, and one more. -/
def longTag : Bytes → Result ℕ
  | [] => .error .panics
  | b :: bs => if 0x80 ≤ b then (longTag bs).map (· + 1) else .ok 1

def tagEnd (ber : Bytes) (offset : ℕ) (b : UInt8) : Result ℕ :=
  if b &&& 0x1F = 0x1F then (longTag (ber.drop offset)).map (offset + ·) else .ok offset

/-- The loop over the bytes of a length; the offset behind them comes back with it. -/
def lengthBytes (ber : Bytes) : ℕ → ℕ → ℕ → Result (ℕ × ℕ)
  | 0, length, offset => .ok (length, offset)
  | n + 1, length, offset =>
    match byteAt ber offset with
    | .ok b => lengthBytes ber n (length * 256 + b.toNat) (offset + 1)
    | .error e => .error e

/-- What stands before the content of an object, and the offset of the content. -/
structure Header where
  tagBytes : Bytes
  kind : UInt8
  length : ℕ
  indefinite : Bool
  offset : ℕ

/-- The length of an object, whether it is indefinite, and the offset behind it. -/
def readLength (ber : Bytes) (offset : ℕ) : Result (ℕ × Bool × ℕ) := do
  let l ← byteAt ber offset
  if 0x80 < l then
    if 4 < (l &&& 0x7F).toNat then .error (.error "ber2der: BER tag length too long")
    else
      let first ← byteAt ber (offset + 1)
      if (l &&& 0x7F).toNat = 4 ∧ 0x7F < first then
        .error (.error "ber2der: BER tag length is negative")
      else if first = 0 then .error (.error "ber2der: BER tag length has leading zero")
      else
        let read ← lengthBytes ber (l &&& 0x7F).toNat 0 (offset + 1)
        .ok (read.1, false, read.2)
  else if l = 0x80 then .ok (0, true, offset + 1)
  else .ok (l.toNat, false, offset + 1)

/-- The part of `readObject` before the content. -/
def readHeader (ber : Bytes) (offset : ℕ) : Result Header := do
  let b ← byteAt ber offset
  let stop ← tagEnd ber (offset + 1) b
  let (length, indefinite, start) ← readLength ber stop
  if ber.length < start + length then
    .error (.error "ber2der: BER tag length is more than available data")
  else if indefinite ∧ b &&& 0x20 = 0 then
    .error (.error "ber2der: Indefinite form tag must have constructed encoding")
  else .ok ⟨slice ber offset stop, b &&& 0x20, length, indefinite, start⟩

def isIndefiniteTermination (ber : Bytes) (offset : ℕ) : Result Bool :=
  if ber.length - offset < 2 then .error (.error "ber2der: Invalid BER format")
  else .ok (decide ([0, 0] <+: ber.drop offset))

/-- The check behind an object; only an indefinite length asks for it. -/
def terminated (ber : Bytes) (indefinite : Bool) (offset : ℕ) : Result Bool :=
  if indefinite then isIndefiniteTermination ber offset else .ok false

mutual

/-- An object, and the offset behind it. -/
def readObject (ber : Bytes) : ℕ → ℕ → Result (Asn1Object × ℕ)
  | 0, _ => .error .outOfFuel
  | fuel + 1, offset => do
    let h ← readHeader ber offset
    let contentEnd := h.offset + h.length
    if h.kind = 0 then
      .ok (.primitive h.tagBytes h.length (slice ber h.offset contentEnd), contentEnd)
    else
      let (subObjects, offset) ← readContent ber h.indefinite contentEnd fuel h.offset
      .ok (.structured h.tagBytes subObjects, if h.indefinite then offset + 2 else contentEnd)

/-- The loop over the objects inside another one. A definite one ends at its `contentEnd`, which its
last object may have passed; an indefinite one ends at two zero bytes, which are looked for behind
each object. -/
def readContent (ber : Bytes) (indefinite : Bool) (contentEnd : ℕ) :
    ℕ → ℕ → Result (List Asn1Object × ℕ)
  | 0, _ => .error .outOfFuel
  | fuel + 1, offset =>
    if offset < contentEnd ∨ indefinite then do
      let (subObj, offset) ← readObject ber fuel offset
      let isEnd ← terminated ber indefinite offset
      if isEnd then .ok ([subObj], offset)
      else
        let (subObjects, offset) ← readContent ber indefinite contentEnd fuel offset
        .ok (subObj :: subObjects, offset)
    else .ok ([], offset)

end

/-- `ber2der`; bytes behind the first object are passed over. -/
def ber2der (ber : Bytes) : Result Bytes :=
  if ber = [] then .error (.error "ber2der: input ber is empty")
  else (readObject ber (ber.length + 1) 0).map fun read => read.1.encodeTo

/-! ## What a reading that succeeds has read -/

theorem ok_bind {α β : Type} (a : α) (f : α → Result β) : (.ok a >>= f : Result β) = f a := rfl

theorem of_bind_ok {α β : Type} {x : Result α} {f : α → Result β} {b : β} (h : x >>= f = .ok b) :
    ∃ a, x = .ok a ∧ f a = .ok b := by
  cases x with
  | error e => cases h
  | ok a => exact ⟨a, rfl, h⟩

section Pieces

variable {ber bs : Bytes} {offset n m stop : ℕ} {b : UInt8} {indefinite : Bool}

theorem of_byteAt (h : byteAt ber offset = .ok b) :
    ber.drop offset = b :: ber.drop (offset + 1) := by
  rw [byteAt] at h
  split at h
  · next x hx =>
    cases h
    exact (List.drop_eq_getElem?_toList_append ..).trans (by rw [hx]; rfl)
  · cases h

theorem of_longTag (h : longTag bs = .ok n) :
    ∃ more last rest, bs = more ++ last :: rest ∧ n = more.length + 1 ∧ (∀ x ∈ more, 0x80 ≤ x) ∧
      last < 0x80 := by
  induction bs generalizing n with
  | nil => cases h
  | cons x bs ih =>
    rw [longTag] at h
    split at h
    · next hx =>
      cases hbs : longTag bs with
      | error e =>
        rw [hbs] at h
        cases h
      | ok k =>
        rw [hbs] at h
        cases h
        obtain ⟨more, last, rest, rfl, rfl, hmore, hlast⟩ := ih hbs
        exact ⟨x :: more, last, rest, rfl, rfl, List.forall_mem_cons.mpr ⟨hx, hmore⟩, hlast⟩
    · next hx =>
      cases h
      exact ⟨[], x, bs, rfl, rfl, List.forall_mem_nil _, by simpa using hx⟩

theorem of_lengthBytes {k : ℕ} (h : lengthBytes ber n k offset = .ok (m, stop)) :
    stop = offset + n := by
  induction n generalizing k offset with
  | zero =>
    cases h
    rfl
  | succ n ih =>
    rw [lengthBytes] at h
    split at h
    · rw [ih h]
      omega
    · cases h

/-- A length takes a byte at least. -/
theorem of_readLength (h : readLength ber offset = .ok (m, indefinite, stop)) : offset < stop := by
  rw [readLength] at h
  obtain ⟨l, -, h⟩ := of_bind_ok h
  split at h
  · split at h
    · cases h
    · obtain ⟨first, -, h⟩ := of_bind_ok h
      split at h
      · cases h
      · split at h
        · cases h
        · obtain ⟨read, hread, h⟩ := of_bind_ok h
          cases h
          rw [of_lengthBytes hread]
          omega
  · split at h <;> cases h <;> exact Nat.lt_succ_self _

/-- The bytes behind the first one of a tag, as they stand in the input. -/
theorem of_tagEnd (h : tagEnd ber offset b = .ok stop) :
    (b &&& 0x1F ≠ 0x1F ∧ stop = offset) ∨
      ∃ more last rest, b &&& 0x1F = 0x1F ∧ ber.drop offset = more ++ last :: rest ∧
        stop = offset + (more.length + 1) ∧ (∀ x ∈ more, 0x80 ≤ x) ∧ last < 0x80 := by
  rw [tagEnd] at h
  split at h
  · next hb =>
    cases hlong : longTag (ber.drop offset) with
    | error e =>
      rw [hlong] at h
      cases h
    | ok k =>
      rw [hlong] at h
      cases h
      obtain ⟨more, last, rest, hdrop, rfl, hmore, hlast⟩ := of_longTag hlong
      exact .inr ⟨more, last, rest, hb, hdrop, rfl, hmore, hlast⟩
  · next hb =>
    cases h
    exact .inl ⟨hb, rfl⟩

/-- The header of an object takes two bytes at least, and its content is inside the input. -/
theorem of_readHeader {hd : Header} (h : readHeader ber offset = .ok hd) :
    ∃ b stop, byteAt ber offset = .ok b ∧ tagEnd ber (offset + 1) b = .ok stop ∧
      hd.tagBytes = slice ber offset stop ∧ hd.kind = b &&& 0x20 ∧ offset + 2 ≤ hd.offset ∧
      hd.offset + hd.length ≤ ber.length := by
  rw [readHeader] at h
  obtain ⟨b, hb, h⟩ := of_bind_ok h
  obtain ⟨stop, hstop, h⟩ := of_bind_ok h
  obtain ⟨⟨m, indefinite, start⟩, hlength, h⟩ := of_bind_ok h
  have hstart := of_readLength hlength
  have htag : offset + 1 ≤ stop := by
    rcases of_tagEnd hstop with ⟨-, rfl⟩ | ⟨more, last, rest, -, -, rfl, -, -⟩
    · exact le_rfl
    · exact Nat.le_add_right _ _
  dsimp only at h
  split at h
  · cases h
  · next hfits =>
    split at h
    · cases h
    · cases h
      refine ⟨b, stop, hb, hstop, rfl, rfl, ?_, ?_⟩
      · dsimp only
        omega
      · dsimp only
        omega

end Pieces

/-! ## The bound on the recursion -/

/-- The reading is not cut off. -/
def Ends {α : Type} (x : Result α) : Prop := x ≠ .error .outOfFuel

section Fuel

variable {α β : Type} {ber : Bytes} {offset : ℕ}

theorem Ends.bind {x : Result α} {f : α → Result β} (hx : Ends x)
    (hf : ∀ a, x = .ok a → Ends (f a)) :
    Ends (x >>= f) := by
  cases x with
  | error e =>
    intro h
    cases h
    exact hx rfl
  | ok a => exact hf a rfl

theorem ends_ok (a : α) : Ends (.ok a : Result α) := nofun

theorem ends_error (text : String) : Ends (.error (.error text) : Result α) := nofun

theorem ends_byteAt : Ends (byteAt ber offset) := by
  rw [byteAt]
  split <;> exact nofun

theorem ends_longTag (bs : Bytes) : Ends (longTag bs) := by
  induction bs with
  | nil => exact nofun
  | cons b bs ih =>
    rw [longTag]
    split
    · intro h
      cases hbs : longTag bs with
      | error e =>
        rw [hbs] at h ih
        cases h
        exact ih rfl
      | ok k =>
        rw [hbs] at h
        cases h
    · exact nofun

theorem ends_tagEnd {b : UInt8} : Ends (tagEnd ber offset b) := by
  rw [tagEnd]
  split
  · intro h
    cases hlong : longTag (ber.drop offset) with
    | error e =>
      rw [hlong] at h
      cases h
      exact ends_longTag _ hlong
    | ok k =>
      rw [hlong] at h
      cases h
  · exact nofun

theorem ends_lengthBytes (n length : ℕ) : Ends (lengthBytes ber n length offset) := by
  induction n generalizing length offset with
  | zero => exact nofun
  | succ n ih =>
    rw [lengthBytes]
    split
    · exact ih _
    · next e he =>
      intro h
      cases h
      exact ends_byteAt he

theorem ends_readLength : Ends (readLength ber offset) := by
  rw [readLength]
  apply ends_byteAt.bind
  intro l _
  split
  · split
    · exact ends_error _
    · apply ends_byteAt.bind
      intro first _
      split
      · exact ends_error _
      · split
        · exact ends_error _
        · exact (ends_lengthBytes _ _).bind fun _ _ => ends_ok _
  · split <;> exact ends_ok _

theorem ends_readHeader : Ends (readHeader ber offset) := by
  rw [readHeader]
  apply ends_byteAt.bind
  intro b _
  apply ends_tagEnd.bind
  intro stop _
  apply ends_readLength.bind
  intro read _
  dsimp only
  split
  · exact ends_error _
  · split
    · exact ends_error _
    · exact ends_ok _

theorem ends_terminated {indefinite : Bool} : Ends (terminated ber indefinite offset) := by
  rw [terminated, isIndefiniteTermination]
  split
  · split
    · exact ends_error _
    · exact ends_ok _
  · exact ends_ok _

mutual

/-- An object takes two bytes at least. -/
theorem readObject_offset : ∀ {fuel offset stop : ℕ} {obj : Asn1Object},
    readObject ber fuel offset = .ok (obj, stop) → offset + 2 ≤ stop ∧ offset + 2 ≤ ber.length
  | 0, _, _, _, h => by cases h
  | fuel + 1, offset, stop, obj, h => by
    rw [readObject] at h
    obtain ⟨hd, hhd, h⟩ := of_bind_ok h
    obtain ⟨-, -, -, -, -, -, htwo, hlen⟩ := of_readHeader hhd
    split at h
    · cases h
      exact ⟨by omega, by omega⟩
    · obtain ⟨⟨objs, offset'⟩, hcontent, h⟩ := of_bind_ok h
      have hle := readContent_offset hcontent
      dsimp only at h
      cases h
      refine ⟨?_, by omega⟩
      split <;> omega

theorem readContent_offset :
    ∀ {indefinite : Bool} {contentEnd fuel offset stop : ℕ} {objs : List Asn1Object},
    readContent ber indefinite contentEnd fuel offset = .ok (objs, stop) → offset ≤ stop
  | _, _, 0, _, _, _, h => by cases h
  | indefinite, contentEnd, fuel + 1, offset, stop, objs, h => by
    rw [readContent] at h
    split at h
    · obtain ⟨⟨obj, offset'⟩, hobj, h⟩ := of_bind_ok h
      obtain ⟨htwo, -⟩ := readObject_offset hobj
      obtain ⟨isEnd, -, h⟩ := of_bind_ok h
      split at h
      · cases h
        omega
      · obtain ⟨⟨objs', offset''⟩, hobjs, h⟩ := of_bind_ok h
        have hle := readContent_offset hobjs
        cases h
        omega
    · cases h
      exact le_rfl

end

mutual

/-- Every object takes two bytes of those that are left, and every level of the recursion one
object. -/
theorem ends_readObject :
    ∀ {fuel offset : ℕ}, ber.length - offset < fuel → Ends (readObject ber fuel offset)
  | 0, _, h => by omega
  | fuel + 1, offset, h => by
    rw [readObject]
    apply ends_readHeader.bind
    intro hd hhd
    obtain ⟨-, -, -, -, -, -, htwo, hlen⟩ := of_readHeader hhd
    split
    · exact ends_ok _
    · apply (ends_readContent (by omega)).bind
      intro read _
      exact ends_ok _

theorem ends_readContent :
    ∀ {indefinite : Bool} {contentEnd fuel offset : ℕ}, ber.length - offset + 1 < fuel →
    Ends (readContent ber indefinite contentEnd fuel offset)
  | _, _, 0, _, h => by omega
  | indefinite, contentEnd, fuel + 1, offset, h => by
    rw [readContent]
    split
    · apply (ends_readObject (by omega)).bind
      intro read hread
      obtain ⟨htwo, hlen⟩ := readObject_offset hread
      apply ends_terminated.bind
      intro isEnd _
      split
      · exact ends_ok _
      · apply (ends_readContent (by omega)).bind
        intro read' _
        exact ends_ok _
    · exact ends_ok _

end

/-- **Every input is read to an end.** -/
theorem ber2der_ends (ber : Bytes) : Ends (ber2der ber) := by
  rw [ber2der]
  split
  · exact ends_error _
  · have h : Ends (readObject ber (ber.length + 1) 0) := ends_readObject (by omega)
    cases hread : readObject ber (ber.length + 1) 0 with
    | error e =>
      rw [hread] at h
      intro he
      cases he
      exact h rfl
    | ok read => exact ends_ok _

end Fuel

end ModDNS.Apple.Ber
