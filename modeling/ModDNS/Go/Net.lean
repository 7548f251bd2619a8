import ModDNS.Go.Strings

/-!
# Go's `net` package: addresses and prefixes

A `net.IP` is its bytes: four, sixteen, or none (`nil`).
-/

namespace ModDNS.Go

/-- `net.IP`; the empty list is `nil`. -/
abbrev IP := List UInt8

/-- `::ffff:0:0/96`, the prefix of an IPv4-mapped address. -/
def v4InV6Prefix : List UInt8 := [0, 0, 0, 0, 0, 0, 0, 0, 0, 0, 255, 255]

/-- `IP.To4`: the four-byte form of an IPv4 or IPv4-mapped address. -/
def IP.to4 (ip : IP) : Option IP :=
  if ip.length = 4 then some ip
  else if ip.length = 16 ∧ ip.take 12 = v4InV6Prefix then some (ip.drop 12)
  else none

/-- `IP.Equal`: an IPv4 address equals its mapped form. -/
def IP.equal (ip x : IP) : Bool :=
  if ip.length = x.length then ip == x
  else if ip.length = 4 ∧ x.length = 16 then x.take 12 == v4InV6Prefix && ip == x.drop 12
  else if ip.length = 16 ∧ x.length = 4 then ip.take 12 == v4InV6Prefix && ip.drop 12 == x
  else false

/-- `net.IPNet`: a network number with its prefix length. -/
structure IPNet where
  ip : IP
  ones : ℕ

/-- Byte `i` of the mask of a prefix of length `ones`. -/
def maskByte (ones i : ℕ) : UInt8 :=
  UInt8.ofNat (256 - 2 ^ (8 - min 8 (ones - 8 * i)))

/-- `IPNet.Contains`. -/
def IPNet.contains (n : IPNet) (ip : IP) : Bool :=
  let ip := ip.to4.getD ip
  ip.length = n.ip.length &&
    (List.range ip.length).all fun i =>
      n.ip.getD i 0 &&& maskByte n.ones i == ip.getD i 0 &&& maskByte n.ones i

/-- One field of a dotted quad: at most 255, no leading zero. -/
def parseOctet (s : String) : Option UInt8 :=
  if s.toList.head? = some '0' ∧ s.toList.length ≠ 1 then none
  else (parseDigits s.toList).bind fun n => if n ≤ 255 then some (UInt8.ofNat n) else none

/-- `parseIPv4Fields`: exactly four fields. -/
def parseIPv4Fields (s : String) : Option (List UInt8) :=
  if (splitDots s).length = 4 then (splitDots s).mapM parseOctet else none

/-- The value of a hexadecimal digit. -/
def hexDigit (c : Char) : Option ℕ :=
  if c.isDigit then some (c.toNat - '0'.toNat)
  else if 'a' ≤ c ∧ c ≤ 'f' then some (c.toNat - 'a'.toNat + 10)
  else if 'A' ≤ c ∧ c ≤ 'F' then some (c.toNat - 'A'.toNat + 10)
  else none

/-- The groups of an IPv6 address read so far: its bytes, and where `::` stood. -/
structure V6Acc where
  bytes : List UInt8
  ellipsis : Option ℕ

/-- The loop of `parseIPv6`: groups of one to four hexadecimal digits, one `::`, and
possibly a dotted quad in the end. Each round reads at least one character. -/
def parseIPv6Loop : ℕ → List Char → V6Acc → Option V6Acc
  | 0, _, _ => none
  | fuel + 1, s, acc =>
    if acc.bytes.length ≥ 16 then (if s.isEmpty then some acc else none)
    else
      let digits := s.takeWhile fun c => (hexDigit c).isSome
      let rest := s.drop digits.length
      let val := digits.foldl (fun n c => 16 * n + (hexDigit c).getD 0) 0
      if digits.isEmpty ∨ digits.length > 4 then none
      else if rest.head? = some '.' then
        if (acc.ellipsis.isNone ∧ acc.bytes.length ≠ 12) ∨ acc.bytes.length + 4 > 16 then none
        else (parseIPv4Fields (.ofList s)).map fun v4 => { acc with bytes := acc.bytes ++ v4 }
      else
        let acc :=
          { acc with bytes := acc.bytes ++ [UInt8.ofNat (val / 256), UInt8.ofNat (val % 256)] }
        match rest with
        | [] => some acc
        | ':' :: ':' :: rest =>
          if acc.ellipsis.isSome then none
          else
            let acc := { acc with ellipsis := some acc.bytes.length }
            if rest.isEmpty then some acc else parseIPv6Loop fuel rest acc
        | ':' :: c :: rest => parseIPv6Loop fuel (c :: rest) acc
        | _ => none

/-- The sixteen bytes: `::` stands for at least one zero group. -/
def V6Acc.expand (acc : V6Acc) : Option IP :=
  match acc.ellipsis with
  | none => if acc.bytes.length = 16 then some acc.bytes else none
  | some e =>
    if acc.bytes.length ≥ 16 then none
    else some (acc.bytes.take e ++ List.replicate (16 - acc.bytes.length) 0 ++ acc.bytes.drop e)

/-- `parseIPv6`, without a zone: `net.ParseIP` accepts none. -/
def parseIPv6 (s : String) : Option IP :=
  match s.toList with
  | [':', ':'] => some (List.replicate 16 0)
  | ':' :: ':' :: rest => (parseIPv6Loop (rest.length + 1) rest ⟨[], some 0⟩).bind V6Acc.expand
  | cs => (parseIPv6Loop (cs.length + 1) cs ⟨[], none⟩).bind V6Acc.expand

/-- `net.ParseIP`: the sixteen-byte form, `nil` on a syntax error. The first of `.`,
`:` and `%` in the text decides the family. -/
def parseIP (s : String) : IP :=
  match s.toList.find? fun c => c = '.' ∨ c = ':' ∨ c = '%' with
  | some '.' => ((parseIPv4Fields s).map (v4InV6Prefix ++ ·)).getD []
  | some ':' => if '%' ∈ s.toList then [] else (parseIPv6 s).getD []
  | _ => []

end ModDNS.Go
