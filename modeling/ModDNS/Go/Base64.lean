import ModDNS.Data.Folds
import ModDNS.Go.Bytes

/-!
# Base64

`base64.RawURLEncoding`: three bytes are four characters of six bits each, and nothing pads the end.

* `decodeString_encodeToString`: what is encoded is decoded to itself.
-/

namespace ModDNS.Go.Base64

def encodeURL : List Char :=
  "ABCDEFGHIJKLMNOPQRSTUVWXYZabcdefghijklmnopqrstuvwxyz0123456789-_".toList

/-- The character of six bits. -/
def char (n : ℕ) : Char := encodeURL.getD n 'A'

/-- The six bits of a character. -/
def bits (c : Char) : Option ℕ := encodeURL.idxOf? c

def encodeBits : Bytes → List ℕ
  | a :: b :: c :: bs =>
    a.toNat / 4 :: (a.toNat % 4 * 16 + b.toNat / 16) :: (b.toNat % 16 * 4 + c.toNat / 64) ::
      c.toNat % 64 :: encodeBits bs
  | [a, b] => [a.toNat / 4, a.toNat % 4 * 16 + b.toNat / 16, b.toNat % 16 * 4]
  | [a] => [a.toNat / 4, a.toNat % 4 * 16]
  | [] => []

/-- One character alone is an error; the bits that do not fill a byte are dropped. -/
def decodeBits : List ℕ → Option Bytes
  | w :: x :: y :: z :: ns =>
    (decodeBits ns).map fun bs =>
      UInt8.ofNat (w * 4 + x / 16) :: UInt8.ofNat (x % 16 * 16 + y / 4) :: UInt8.ofNat
        (y % 4 * 64 + z) :: bs
  | [w, x, y] => some [UInt8.ofNat (w * 4 + x / 16), UInt8.ofNat (x % 16 * 16 + y / 4)]
  | [w, x] => some [UInt8.ofNat (w * 4 + x / 16)]
  | [_] => none
  | [] => some []

/-- `RawURLEncoding.EncodeToString`. -/
def encodeToString (bs : Bytes) : String := .ofList ((encodeBits bs).map char)

/-- `RawURLEncoding.DecodeString`; line ends are passed over. -/
def decodeString (s : String) : Option Bytes :=
  ((s.toList.filter fun c => c ≠ '\n' ∧ c ≠ '\r').mapM bits).bind decodeBits

theorem encodeBits_lt (bs : Bytes) : ∀ n ∈ encodeBits bs, n < 64 := by
  fun_induction encodeBits bs with
  | case1 a b c bs ih =>
    have ha := a.toNat_lt
    have hb := b.toNat_lt
    have hc := c.toNat_lt
    simp only [List.forall_mem_cons]
    exact ⟨by omega, by omega, by omega, by omega, ih⟩
  | case2 a b =>
    have ha := a.toNat_lt
    have hb := b.toNat_lt
    simp only [List.forall_mem_cons]
    exact ⟨by omega, by omega, by omega, List.forall_mem_nil _⟩
  | case3 a =>
    have ha := a.toNat_lt
    simp only [List.forall_mem_cons]
    exact ⟨by omega, by omega, List.forall_mem_nil _⟩
  | case4 => exact List.forall_mem_nil _

theorem ofNat_eq {a : UInt8} {n : ℕ} (h : n = a.toNat) : UInt8.ofNat n = a := by
  rw [h]
  exact UInt8.ofNat_toNat

theorem decodeBits_encodeBits (bs : Bytes) : decodeBits (encodeBits bs) = some bs := by
  fun_induction encodeBits bs with
  | case1 a b c bs ih =>
    have ha := a.toNat_lt
    have hb := b.toNat_lt
    have hc := c.toNat_lt
    rw [decodeBits, ih, Option.map_some, @ofNat_eq a _ (by omega), @ofNat_eq b _ (by omega),
      @ofNat_eq c _ (by omega)]
  | case2 a b =>
    have ha := a.toNat_lt
    have hb := b.toNat_lt
    rw [decodeBits, @ofNat_eq a _ (by omega), @ofNat_eq b _ (by omega)]
  | case3 a =>
    have ha := a.toNat_lt
    rw [decodeBits, @ofNat_eq a _ (by omega)]
  | case4 => rfl

theorem bits_char : ∀ n < 64, bits (char n) = some n ∧ char n ≠ '\n' ∧ char n ≠ '\r' := by decide

/-- **Round trip.** -/
theorem decodeString_encodeToString (bs : Bytes) : decodeString (encodeToString bs) = some bs := by
  have hchars : ∀ ns : List ℕ, (∀ n ∈ ns, n < 64) →
      ((ns.map char).filter fun c => c ≠ '\n' ∧ c ≠ '\r').mapM bits = some ns := by
    intro ns h
    have hkept : (ns.map char).filter (fun c => c ≠ '\n' ∧ c ≠ '\r') = ns.map char := by
      refine List.filter_eq_self.2 fun c hc => ?_
      obtain ⟨n, hn, rfl⟩ := List.mem_map.1 hc
      exact decide_eq_true (bits_char n (h n hn)).2
    rw [hkept, Data.mapM_eq_some_iff, List.map_map]
    exact List.map_congr_left fun n hn => (bits_char n (h n hn)).1
  rw [decodeString, encodeToString, String.toList_ofList, hchars _ (encodeBits_lt bs),
    Option.bind_some,
    decodeBits_encodeBits]

end ModDNS.Go.Base64
