import Mathlib.Data.List.DropRight
import Mathlib.Data.List.TakeWhile
import ModDNS.Go.Addr

/-!
# Go's `net/netip`

Addresses of both families, with their text: dotted decimal, or hexadecimal groups of which the
longest run of two or more zeros is left out, the first one if there are several.

* `string6_inj`: two IPv6 addresses with the same text are the same.
-/

namespace ModDNS.Go

/-- `netip.Addr`. -/
inductive Addr where
  | zero
  | v4 (a b c d : UInt8)
  | v6 (ip : BitVec 128) (zone : String)
  deriving DecidableEq

/-- `Is4In6`. -/
def is4In6 (ip : BitVec 128) : Bool := ip >>> 32 = 0xffff

def v4Bytes (ip : BitVec 128) : IP := [24, 16, 8, 0].map fun k => UInt8.ofNat (ip >>> k).toNat

def Addr.unmap : Addr → Addr
  | .v6 ip zone =>
    if is4In6 ip then
      .v4 (.ofNat (ip >>> 24).toNat) (.ofNat (ip >>> 16).toNat) (.ofNat (ip >>> 8).toNat)
        (.ofNat ip.toNat)
    else .v6 ip zone
  | addr => addr

def Addr.is6 : Addr → Bool
  | .v6 _ _ => true
  | _ => false

def hexChar (n : ℕ) : Char := "0123456789abcdef".toList.getD n '0'

/-- `appendHex`, of sixteen bits. -/
def hexText (x : ℕ) : String :=
  .ofList ((if 0x1000 ≤ x then [hexChar (x / 0x1000)] else []) ++
    (if 0x100 ≤ x then [hexChar (x / 0x100 % 0x10)] else []) ++
    (if 0x10 ≤ x then [hexChar (x / 0x10 % 0x10)] else []) ++ [hexChar (x % 0x10)])

/-- The eight groups of an IPv6 address. -/
def groups (ip : BitVec 128) : List ℕ := (List.range 8).map fun i =>
    (ip >>> (112 - 16 * i)).toNat % 0x10000

/-- How many groups are zero from the `i`-th on. -/
def zerosFrom (gs : List ℕ) (i : ℕ) : ℕ := ((gs.drop i).takeWhile (· = 0)).length

/-- Where the run of zeros that is left out starts and ends. -/
def zeroRun (gs : List ℕ) : Option (ℕ × ℕ) :=
  (List.range gs.length).foldl
    (fun best i =>
      if 2 ≤ zerosFrom gs i ∧ best.elim 0 (fun run => run.2 - run.1) < zerosFrom gs i then
        some (i, i + zerosFrom gs i)
      else best)
    none

/-- The groups on one side of the run. -/
def side (gs : List ℕ) : List String := if gs = [] then [""] else gs.map hexText

/-- What stands between the colons. -/
def tokens (gs : List ℕ) : List String :=
  match zeroRun gs with
  | none => gs.map hexText
  | some (s, e) => side (gs.take s) ++ "" :: side (gs.drop e)

/-- `string6`, without the zone. -/
def string6 (ip : BitVec 128) : String := join (tokens (groups ip)) ':'

def zoneText (zone : String) : String := if zone = "" then "" else "%" ++ zone

def Addr.string : Addr → String
  | .zero => "invalid IP"
  | .v4 a b c d => ipv4String [a, b, c, d]
  | .v6 ip zone =>
    if is4In6 ip then "::ffff:" ++ ipv4String (v4Bytes ip) ++ zoneText zone
    else string6 ip ++ zoneText zone

/-- `mask6`. -/
def mask6 (n : ℕ) : BitVec 128 := BitVec.allOnes 128 <<< (128 - n)

/-- The address of `Prefix`; `none` is an error. -/
def Addr.prefixAddr (n : ℤ) : Addr → Option Addr
  | .zero => if n < 0 then none else some .zero
  | .v4 a b c d =>
    if n < 0 ∨ 32 < n then none
    else
      let byte (i : ℕ) (x : UInt8) := x &&& maskByte n.toNat i
      some (.v4 (byte 0 a) (byte 1 b) (byte 2 c) (byte 3 d))
  | .v6 ip _ => if n < 0 ∨ 128 < n then none else some (.v6 (ip &&& mask6 n.toNat) "")

section Hex

/-- A group as a number again. -/
def readHex (s : String) : ℕ := s.toList.foldl (fun n c => 16 * n + (hexDigit c).getD 0) 0

theorem hexDigit_hexChar :
    ∀ n < 16, hexDigit (hexChar n) = some n ∧ hexChar n ≠ ':' ∧ hexChar n ≠ '.' := by decide

theorem readHex_hexText {x : ℕ} (h : x < 0x10000) : readHex (hexText x) = x := by
  have hdigit : ∀ n, n < 16 → (hexDigit (hexChar n)).getD 0 = n := fun n hn => by
    rw [(hexDigit_hexChar n hn).1, Option.getD_some]
  have h0 := hdigit (x % 0x10) (Nat.mod_lt _ (by decide))
  have h1 := hdigit (x / 0x10 % 0x10) (Nat.mod_lt _ (by decide))
  have h2 := hdigit (x / 0x100 % 0x10) (Nat.mod_lt _ (by decide))
  have h3 := hdigit (x / 0x1000) (by omega)
  rw [readHex, hexText, String.toList_ofList]
  split <;> split <;> split <;>
    simp only [List.nil_append, List.cons_append, List.foldl_cons, List.foldl_nil, h0, h1,
      h2, h3] <;> omega

theorem hexText_ne_nil (x : ℕ) : hexText x ≠ "" := by
  rw [ne_empty_iff, hexText, String.toList_ofList]
  exact List.append_ne_nil_of_right_ne_nil _ (List.cons_ne_nil _ _)

theorem hexText_colon {x : ℕ} (h : x < 0x10000) : ':' ∉ (hexText x).toList := by
  rw [hexText, String.toList_ofList]
  intro hm
  simp only [List.mem_append, List.mem_ite_nil_right, List.mem_singleton] at hm
  rcases hm with ((⟨-, hm⟩ | ⟨-, hm⟩) | ⟨-, hm⟩) | hm
  · exact (hexDigit_hexChar (x / 0x1000) (by omega)).2.1 hm.symm
  · exact (hexDigit_hexChar _ (Nat.mod_lt _ (by decide))).2.1 hm.symm
  · exact (hexDigit_hexChar _ (Nat.mod_lt _ (by decide))).2.1 hm.symm
  · exact (hexDigit_hexChar _ (Nat.mod_lt _ (by decide))).2.1 hm.symm

end Hex

section Tokens

variable {gs : List ℕ} {s e : ℕ}

/-- The run that is left out is one of zeros. -/
theorem zeroRun_zeros (h : zeroRun gs = some (s, e)) : s < e ∧ e ≤ gs.length ∧
    gs = gs.take s ++ List.replicate (e - s) 0 ++ gs.drop e := by
  have hstep : ∀ (is : List ℕ) (best : Option (ℕ × ℕ)),
    (∀ run ∈ best, ∃ i, 2 ≤ zerosFrom gs i ∧ run = (i, i + zerosFrom gs i)) →
      ∀ run ∈ is.foldl (fun best i =>
        if 2 ≤ zerosFrom gs i ∧ best.elim 0 (fun run => run.2 - run.1) < zerosFrom gs i then
          some (i, i + zerosFrom gs i)
        else best) best, ∃ i, 2 ≤ zerosFrom gs i ∧ run = (i, i + zerosFrom gs i) := by
    intro is
    induction is with
    | nil => exact fun _ h => h
    | cons i is ih =>
      intro best hbest
      refine ih _ fun run hrun => ?_
      dsimp only at hrun
      split at hrun
      · next hlong =>
        cases hrun
        exact ⟨i, hlong.1, rfl⟩
      · exact hbest run hrun
  obtain ⟨i, hlong, hrun⟩ := hstep _ none nofun (s, e) h
  obtain ⟨rfl, rfl⟩ := Prod.mk.inj hrun
  have hzeros : (gs.drop s).takeWhile (· = 0) = List.replicate (zerosFrom gs s) 0 :=
    List.eq_replicate_iff.2 ⟨rfl, fun x hx => by simpa using List.mem_takeWhile_imp hx⟩
  have hprefix : (gs.drop s).takeWhile (· = 0) ++ (gs.drop s).drop (zerosFrom gs s) =
      gs.drop s := by
    have hlength : (gs.drop s).takeWhile (· = 0) = (gs.drop s).take (zerosFrom gs s) :=
      List.prefix_iff_eq_take.1 (List.takeWhile_prefix _)
    rw [hlength, List.take_append_drop]
  refine ⟨Nat.lt_add_of_pos_right (Nat.lt_of_lt_of_le Nat.two_pos hlong), ?_, ?_⟩
  · have hle : zerosFrom gs s ≤ (gs.drop s).length := (List.takeWhile_prefix _).length_le
    rw [List.length_drop] at hle
    omega
  · rw [hzeros, List.drop_drop] at hprefix
    rw [Nat.add_sub_cancel_left, List.append_assoc, hprefix, List.take_append_drop]

/-- The groups that are written with some text between the colons. -/
def readTokens (ts : List String) : List ℕ :=
  if "" ∈ ts then
    let front := ts.takeWhile (· ≠ "")
    let back := ts.rtakeWhile (· ≠ "")
    front.map readHex ++ List.replicate (8 - front.length - back.length) 0 ++ back.map readHex
  else ts.map readHex

theorem map_readHex (h : ∀ x ∈ gs, x < 0x10000) : (gs.map hexText).map readHex = gs := by
  rw [List.map_map]
  exact (List.map_congr_left fun x hx => readHex_hexText (h x hx)).trans (List.map_id _)

theorem takeWhile_hole {front : List String} (h : ∀ t ∈ front, t ≠ "") (ts : List String) :
    (front ++ "" :: ts).takeWhile (· ≠ "") = front := by
  refine (List.takeWhile_append_of_pos fun t ht => decide_eq_true (h t ht)).trans ?_
  exact List.append_nil _

theorem mem_hexText {t : String} (h : t ∈ gs.map hexText) : t ≠ "" := by
  obtain ⟨x, -, rfl⟩ := List.mem_map.1 h
  exact hexText_ne_nil x

theorem takeWhile_side (gs : List ℕ) (ts : List String) :
    (side gs ++ "" :: ts).takeWhile (· ≠ "") = gs.map hexText := by
  unfold side
  split
  · next hnil =>
    rw [hnil]
    exact takeWhile_hole (List.forall_mem_nil _) _
  · exact takeWhile_hole (fun t ht => mem_hexText ht) _

theorem rtakeWhile_side (gs : List ℕ) (ts : List String) :
    (ts ++ "" :: side gs).rtakeWhile (· ≠ "") = gs.map hexText := by
  have hback : ∀ back : List String, (∀ t ∈ back, t ≠ "") →
      ∀ ts, (ts ++ "" :: back).rtakeWhile (· ≠ "") = back := by
    intro back h ts
    have hreverse : (ts ++ "" :: back).reverse = back.reverse ++ "" :: ts.reverse := by simp
    rw [List.rtakeWhile, hreverse, takeWhile_hole (fun t ht => h t (List.mem_reverse.1 ht)),
      List.reverse_reverse]
  unfold side
  split
  · next hnil =>
    rw [hnil, List.append_cons]
    exact hback [] (List.forall_mem_nil _) _
  · exact hback _ (fun t ht => mem_hexText ht) _

theorem readTokens_tokens (hlen : gs.length = 8) (h : ∀ x ∈ gs, x < 0x10000) :
    readTokens (tokens gs) = gs := by
  unfold tokens
  split
  · have hnone : "" ∉ gs.map hexText := by
      intro hm
      obtain ⟨x, -, hx⟩ := List.mem_map.1 hm
      exact hexText_ne_nil x hx
    rw [readTokens, if_neg hnone, map_readHex h]
  · next s e hrun =>
    obtain ⟨hlt, hle, hgs⟩ := zeroRun_zeros hrun
    have hcount : 8 - (gs.take s).length - (gs.drop e).length = e - s := by
      rw [List.length_take, List.length_drop, hlen]
      omega
    have hhole : "" ∈ side (gs.take s) ++ "" :: side (gs.drop e) :=
      List.mem_append_right _ List.mem_cons_self
    rw [readTokens, if_pos hhole]
    dsimp only
    rw [takeWhile_side, rtakeWhile_side, List.length_map, List.length_map, hcount,
      map_readHex fun x hx => h x (List.mem_of_mem_take hx), map_readHex fun x hx =>
        h x (List.mem_of_mem_drop hx)]
    exact hgs.symm

theorem tokens_colon (h : ∀ x ∈ gs, x < 0x10000) : ∀ t ∈ tokens gs, ':' ∉ t.toList := by
  have hside : ∀ l : List ℕ, (∀ x ∈ l, x < 0x10000) → ∀ t ∈ l.map hexText, ':' ∉ t.toList := by
    intro l hl t ht
    obtain ⟨x, hx, rfl⟩ := List.mem_map.1 ht
    exact hexText_colon (hl x hx)
  have hside' : ∀ l : List ℕ, (∀ x ∈ l, x < 0x10000) → ∀ t ∈ side l, ':' ∉ t.toList := by
    intro l hl
    unfold side
    split
    · exact List.forall_mem_singleton.2 (by decide)
    · exact hside l hl
  intro t ht
  unfold tokens at ht
  split at ht
  · exact hside gs h t ht
  · rcases List.mem_append.1 ht with ht | ht
    · exact hside' _ (fun x hx => h x (List.mem_of_mem_take hx)) t ht
    · rcases List.mem_cons.1 ht with rfl | ht
      · decide
      · exact hside' _ (fun x hx => h x (List.mem_of_mem_drop hx)) t ht

theorem side_ne_nil (gs : List ℕ) : side gs ≠ [] := by
  unfold side
  split
  · exact List.cons_ne_nil _ _
  · next hne => simpa using hne

/-- There are at least two tokens, so that the text has a colon. -/
theorem tokens_length (hlen : gs.length = 8) : 2 ≤ (tokens gs).length := by
  unfold tokens
  split
  · rw [List.length_map, hlen]
    decide
  · next s e _ =>
    have hfront := List.length_pos_iff.2 (side_ne_nil (gs.take s))
    rw [List.length_append, List.length_cons]
    omega

end Tokens

section V6

variable {x y : BitVec 128}

theorem length_groups (x : BitVec 128) : (groups x).length = 8 := by
  rw [groups, List.length_map, List.length_range]

theorem groups_lt (x : BitVec 128) : ∀ g ∈ groups x, g < 0x10000 := by
  intro g hg
  obtain ⟨i, -, rfl⟩ := List.mem_map.1 hg
  exact Nat.mod_lt _ (by decide)

theorem groups_inj (h : groups x = groups y) : x = y := by
  have hgroup : ∀ i < 8, (x >>> (112 - 16 * i)).toNat % 0x10000 =
      (y >>> (112 - 16 * i)).toNat % 0x10000 := by
    intro i hi
    exact List.map_inj_left.1 h i (List.mem_range.2 hi)
  refine BitVec.eq_of_getLsbD_eq fun j hj => ?_
  have hbit : ∀ z : BitVec 128, z.getLsbD j =
      ((z >>> (112 - 16 * (7 - j / 16))).toNat % 0x10000).testBit (j % 16) := by
    intro z
    have hat : 112 - 16 * (7 - j / 16) + j % 16 = j := by omega
    have hlow : j % 16 < 16 := Nat.mod_lt _ (by decide)
    rw [show 0x10000 = 2 ^ 16 from rfl, Nat.testBit_mod_two_pow, decide_eq_true hlow, Bool.true_and,
      BitVec.toNat_ushiftRight, Nat.testBit_shiftRight, hat]
    rfl
  rw [hbit x, hbit y, hgroup _ (by omega)]

theorem string6_inj (h : string6 x = string6 y) : x = y := by
  have htokens : ∀ z : BitVec 128, split (string6 z) ':' = tokens (groups z) := fun z =>
    split_join
      (List.length_pos_iff.1 (Nat.lt_of_lt_of_le Nat.two_pos (tokens_length (length_groups z))))
      (tokens_colon (groups_lt z))
  have hsame : tokens (groups x) = tokens (groups y) := by rw [← htokens x, ← htokens y, h]
  apply groups_inj
  rw [← readTokens_tokens (length_groups x) (groups_lt x), hsame,
    readTokens_tokens (length_groups y) (groups_lt y)]

/-- A text with two tokens or more has a colon. -/
theorem string6_colon (x : BitVec 128) : ':' ∈ (string6 x).toList := by
  by_contra hnone
  have hone : split (string6 x) ':' = [string6 x] := by
    rw [split, List.splitOn_eq_singleton hnone, List.map_singleton, String.ofList_toList]
  have htokens : split (string6 x) ':' = tokens (groups x) :=
    split_join
      (List.length_pos_iff.1 (Nat.lt_of_lt_of_le Nat.two_pos (tokens_length (length_groups x))))
      (tokens_colon (groups_lt x))
  have hlen := tokens_length (length_groups x)
  rw [← htokens, hone, List.length_singleton] at hlen
  omega

/-- A mask keeps the leading bits. -/
theorem mask6_bit (x : BitVec 128) (n : ℕ) {j : ℕ} (hj : j < 128) :
    (x &&& mask6 n).getLsbD j = (x.getLsbD j && decide (128 - n ≤ j)) := by
  rw [BitVec.getLsbD_and, mask6, BitVec.getLsbD_shiftLeft, BitVec.getLsbD_allOnes]
  congr 1
  rw [Bool.eq_iff_iff]
  simp only [Bool.and_eq_true, Bool.not_eq_true', decide_eq_true_eq, decide_eq_false_iff_not]
  omega

/-- Two addresses masked to the same prefix have its bits in common. -/
theorem mask6_inj {n : ℕ} (hn : n ≤ 128) :
    x &&& mask6 n = y &&& mask6 n ↔ ∀ i < n, x.getMsbD i = y.getMsbD i := by
  have hmask := fun (z : BitVec 128) (j : ℕ) (hj : j < 128) => mask6_bit z n hj
  have hmsb : ∀ (z : BitVec 128) (i : ℕ), i < 128 → z.getMsbD i = z.getLsbD (127 - i) := by
    intro z i hi
    rw [BitVec.getMsbD, decide_eq_true hi, Bool.true_and]
  constructor
  · intro h i hi
    have hbit : (x &&& mask6 n).getLsbD (127 - i) = (y &&& mask6 n).getLsbD (127 - i) := by rw [h]
    rw [hmask x _ (by omega), hmask y _ (by omega), decide_eq_true (by omega), Bool.and_true,
      Bool.and_true] at hbit
    rw [hmsb x i (by omega), hmsb y i (by omega), hbit]
  · intro h
    refine BitVec.eq_of_getLsbD_eq fun j hj => ?_
    rw [hmask x j hj, hmask y j hj]
    by_cases hin : 128 - n ≤ j
    · have hbit := h (127 - j) (by omega)
      rw [hmsb x _ (by omega), hmsb y _ (by omega), show 127 - (127 - j) = j by omega] at hbit
      rw [hbit]
    · rw [decide_eq_false hin, Bool.and_false, Bool.and_false]

/-- Masking makes no 4-in-6 address out of another one. -/
theorem is4In6_mask (n : ℕ) (h : is4In6 (x &&& mask6 n) = true) : is4In6 x = true := by
  have hhigh : (x &&& mask6 n) >>> 32 = 0xffff := of_decide_eq_true h
  have hbits : ∀ j, j < 96 → (x &&& mask6 n).getLsbD (32 + j) =
      (0xffff : BitVec 128).getLsbD j := by
    intro j _
    rw [← hhigh, BitVec.getLsbD_ushiftRight]
  have hlow : 128 - n ≤ 32 := by
    have hbit := hbits 0 (by decide)
    rw [mask6_bit x n (by decide)] at hbit
    have hset : (0xffff : BitVec 128).getLsbD 0 = true := by decide
    rw [hset, Bool.and_eq_true, decide_eq_true_eq] at hbit
    exact hbit.2
  refine decide_eq_true (BitVec.eq_of_getLsbD_eq fun j _ => ?_)
  by_cases hin : j < 96
  · rw [BitVec.getLsbD_ushiftRight, ← hbits j hin, mask6_bit x n (by omega),
      decide_eq_true (by omega), Bool.and_true]
  · have hzero : (0xffff : BitVec 128).getLsbD j = false := by
      have hpow : (0xffff : BitVec 128).toNat < 2 ^ j :=
        Nat.lt_of_lt_of_le (by decide) (Nat.pow_le_pow_right Nat.two_pos (Nat.not_lt.1 hin))
      exact Nat.testBit_lt_two_pow hpow
    rw [BitVec.getLsbD_ushiftRight, hzero]
    exact BitVec.getLsbD_of_ge _ _ (by omega)

end V6

section Text

/-- Unmapping leaves no 4-in-6 address. -/
theorem unmap_not4In6 {addr : Addr} {ip : BitVec 128} {zone : String}
    (h : addr.unmap = .v6 ip zone) :
    is4In6 ip = false := by
  cases addr with
  | zero => cases h
  | v4 a b c d => cases h
  | v6 ip' zone' =>
    rw [Addr.unmap] at h
    split at h
    · cases h
    · next hnot =>
      cases h
      exact Bool.eq_false_iff.2 hnot

/-- Only IPv6 addresses are written with colons. -/
theorem string_colon {addr : Addr} (h : addr.is6 = false) : ':' ∉ addr.string.toList := by
  cases addr with
  | zero => decide
  | v4 a b c d =>
    intro hc
    rcases mem_ipv4String hc with hdigit | hdot
    · exact absurd hdigit (by decide)
    · exact absurd hdot (by decide)
  | v6 ip zone => cases h

theorem string_inj {x y : Addr} (hx : x.is6 = false) (hy : y.is6 = false)
    (h : x.string = y.string) : x = y := by
  have hparse : ∀ a b c d : UInt8, parseIPv4Fields (Addr.v4 a b c d).string = some [a, b, c, d] :=
    fun a b c d =>
    parseIPv4Fields_ipv4String rfl
  have hinvalid : parseIPv4Fields Addr.zero.string = none := by decide
  cases x with
  | v6 ip zone => cases hx
  | zero =>
    cases y with
    | v6 ip zone => cases hy
    | zero => rfl
    | v4 a b c d =>
      rw [h, hparse] at hinvalid
      cases hinvalid
  | v4 a b c d =>
    have hfields := hparse a b c d
    cases y with
    | v6 ip zone => cases hy
    | zero =>
      rw [h, hinvalid] at hfields
      cases hfields
    | v4 a' b' c' d' =>
      rw [h, hparse] at hfields
      cases hfields
      rfl

end Text

end ModDNS.Go
