import ModDNS.Go.Strings

/-!
# Bytes

Go's strings are bytes. Ranging over one decodes UTF-8; a byte that is part of no character is the
rune `U+FFFD`. An ASCII byte is always a character of its own (`mem_decode`), and an ASCII text is
read back from its bytes (`decode_map_byte`).
-/

namespace ModDNS.Go

abbrev Bytes := List UInt8

def runeError : Char := Char.ofNat 0xFFFD

/-- A continuation byte. -/
def isTail (n : ℕ) : Prop := 0x80 ≤ n ∧ n ≤ 0xBF

instance (n : ℕ) : Decidable (isTail n) := inferInstanceAs (Decidable (_ ∧ _))

/-- `utf8.DecodeRune` of a byte and those after it: the rune, and how many bytes it takes. A byte
that is missing reads as 0, which is no continuation byte. -/
def decodeRune (b : UInt8) (bs : Bytes) : Char × ℕ :=
  let x := b.toNat
  let y := (bs.getD 0 0).toNat
  let z := (bs.getD 1 0).toNat
  let w := (bs.getD 2 0).toNat
  if x < 0x80 then (Char.ofNat x, 1)
  else if 0xC2 ≤ x ∧ x ≤ 0xDF ∧ isTail y then (Char.ofNat ((x - 0xC0) * 64 + (y - 0x80)), 2)
  else if 0xE0 ≤ x ∧ x ≤ 0xEF ∧ isTail y ∧ (x = 0xE0 → 0xA0 ≤ y) ∧
    (x = 0xED → y ≤ 0x9F) ∧ isTail z then
    (Char.ofNat ((x - 0xE0) * 4096 + (y - 0x80) * 64 + (z - 0x80)), 3)
  else if 0xF0 ≤ x ∧ x ≤ 0xF4 ∧ isTail y ∧ (x = 0xF0 → 0x90 ≤ y) ∧ (x = 0xF4 → y ≤ 0x8F) ∧
    isTail z ∧ isTail w then
    (Char.ofNat ((x - 0xF0) * 262144 + (y - 0x80) * 4096 + (z - 0x80) * 64 + (w - 0x80)), 4)
  else (runeError, 1)

/-- The runes of a string; `skip` bytes belong to the last one. -/
def decodeFrom : ℕ → Bytes → List Char
  | _, [] => []
  | skip + 1, _ :: bs => decodeFrom skip bs
  | 0, b :: bs => (decodeRune b bs).1 :: decodeFrom ((decodeRune b bs).2 - 1) bs

def decode (bs : Bytes) : List Char := decodeFrom 0 bs

/-- The bytes of a text. -/
def encode (s : String) : Bytes := s.toList.flatMap String.utf8EncodeChar

/-- The byte of an ASCII character. -/
def byte (c : Char) : UInt8 := UInt8.ofNat c.toNat

/-- `strings.Cut` at a byte: what is before it, and what is after it if there is one. -/
def cut (sep : UInt8) (bs : Bytes) : Bytes × Option Bytes :=
  match bs.dropWhile (· ≠ sep) with
  | [] => (bs, none)
  | _ :: rest => (bs.takeWhile (· ≠ sep), some rest)

/-- `bufio.MaxScanTokenSize`. -/
def maxScanTokenSize : ℕ := 64 * 1024

/-- `dropCR`. -/
def dropCR (line : Bytes) : Bytes :=
  if line.getLast? = some (byte '\r') then line.dropLast else line

/-- The lines that a `bufio.Scanner` delivers; `none` is `ErrTooLong`. -/
def scanLines (bs : Bytes) : Option (List Bytes) :=
  let lines := bs.splitOn (byte '\n')
  let lines := if lines.getLast? = some [] then lines.dropLast else lines
  if lines.all fun line => line.length < maxScanTokenSize then some (lines.map dropCR) else none

section Ascii

variable {b : UInt8} {bs : Bytes}

/-- The bytes that a rune takes besides the first are continuation bytes. -/
theorem tail_decodeRune (b : UInt8) (bs : Bytes) :
    ∀ c ∈ bs.take ((decodeRune b bs).2 - 1), 0x80 ≤ c.toNat := by
  have hget : ∀ n, isTail (bs.getD n 0).toNat → ∀ c, bs[n]? = some c → 0x80 ≤ c.toNat := by
    intro n htail c hc
    rw [List.getD_eq_getElem?_getD, hc] at htail
    exact htail.1
  have htake : ∀ n, (∀ k < n, isTail (bs.getD k 0).toNat) → ∀ c ∈ bs.take n, 0x80 ≤ c.toNat := by
    intro n hall c hc
    obtain ⟨k, hk, hkn⟩ := List.mem_take_iff_getElem.1 hc
    have hlt : k < n := by omega
    have hlen : k < bs.length := by omega
    refine hget k (hall k hlt) c ?_
    rw [List.getElem?_eq_getElem hlen, hkn]
  unfold decodeRune
  simp only
  split
  · simp
  · split
    · next h =>
      refine htake 1 fun k hk => ?_
      obtain rfl : k = 0 := by omega
      exact h.2.2
    · split
      · next h =>
        refine htake 2 fun k hk => ?_
        obtain rfl | rfl : k = 0 ∨ k = 1 := by omega
        · exact h.2.2.1
        · exact h.2.2.2.2.2
      · split
        · next h =>
          refine htake 3 fun k hk => ?_
          obtain rfl | rfl | rfl : k = 0 ∨ k = 1 ∨ k = 2 := by omega
          · exact h.2.2.1
          · exact h.2.2.2.2.2.1
          · exact h.2.2.2.2.2.2
        · simp

theorem decodeRune_ascii (h : b.toNat < 0x80) (bs : Bytes) :
    decodeRune b bs = (Char.ofNat b.toNat, 1) := by
  unfold decodeRune
  rw [if_pos h]

/-- **An ASCII byte is a character of its own.** -/
theorem mem_decode (hb : b ∈ bs) (h : b.toNat < 0x80) : Char.ofNat b.toNat ∈ decode bs := by
  have hfrom : ∀ (bs : Bytes) (skip : ℕ), (∀ c ∈ bs.take skip, 0x80 ≤ c.toNat) → b ∈ bs →
      Char.ofNat b.toNat ∈ decodeFrom skip bs := by
    intro bs
    induction bs with
    | nil => intro skip _ hb; cases hb
    | cons c bs ih =>
      intro skip hskip hb
      cases skip with
      | zero =>
        unfold decodeFrom
        rcases List.mem_cons.1 hb with rfl | hb
        · rw [decodeRune_ascii h]
          exact List.mem_cons_self
        · exact List.mem_cons_of_mem _ (ih _ (tail_decodeRune c bs) hb)
      | succ skip =>
        unfold decodeFrom
        rw [List.take_succ_cons] at hskip
        rcases List.mem_cons.1 hb with rfl | hb
        · have hge := hskip b List.mem_cons_self
          omega
        · exact ih skip (fun d hd => hskip d (List.mem_cons_of_mem _ hd)) hb
  exact hfrom bs 0 (by simp) hb

theorem encode_char {c : Char} (h : c.toNat < 0x80) : String.utf8EncodeChar c = [byte c] := by
  have hle : c.val.toNat ≤ 0x7f := Nat.le_of_lt_succ h
  unfold String.utf8EncodeChar
  exact if_pos hle

theorem byte_toNat {c : Char} (h : c.toNat < 0x80) : (byte c).toNat = c.toNat := by
  unfold byte
  rw [UInt8.toNat_ofNat_of_lt' (Nat.lt_trans h (by decide))]

/-- A text in ASCII has a byte for each character. -/
theorem encode_ascii {s : String} (h : ∀ c ∈ s.toList, c.toNat < 0x80) :
    encode s = s.toList.map byte := by
  unfold encode
  rw [List.flatMap_def, List.map_congr_left (g := fun c => [byte c]) fun c hc =>
    encode_char (h c hc)]
  induction s.toList with
  | nil => rfl
  | cons c cs ih => rw [List.map_cons, List.map_cons, List.flatten_cons, ih, List.singleton_append]

/-- A text in ASCII is read back from its bytes. -/
theorem decode_map_byte {cs : List Char} (h : ∀ c ∈ cs, c.toNat < 0x80) :
    decode (cs.map byte) = cs := by
  unfold decode
  induction cs with
  | nil => rfl
  | cons c cs ih =>
    obtain ⟨hc, hcs⟩ := List.forall_mem_cons.1 h
    have hb : (byte c).toNat < 0x80 := by rwa [byte_toNat hc]
    rw [List.map_cons]
    unfold decodeFrom
    rw [decodeRune_ascii hb, byte_toNat hc, Char.ofNat_toNat]
    exact congrArg (c :: ·) (ih hcs)

end Ascii

end ModDNS.Go
