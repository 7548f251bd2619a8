import Mathlib.Data.List.DropRight
import Mathlib.Data.List.TakeWhile
import ModDNS.Go.Addr
import ModDNS.Go.Base64

/-!
# DNS stamps

A stamp is a list of fields behind their lengths, in base64. The encoder leaves the default port of
the protocol out, and the decoder puts it behind an address without a port. A length is one byte:
the encoder writes 255 for all longer fields.

* `newServerStampFromString_string`: what the decoder makes of a text is what it makes of its bytes.
* `providerName_short`: no provider name that it reads is longer than a length can say.
-/

namespace ModDNS.Libs.DnsStamps

open Go

def defaultDNSCryptPort : ℕ := 443

def defaultDoHPort : ℕ := 443

def defaultDoTPort : ℕ := 843

def defaultDoQPort : ℕ := 784

def defaultPlainPort : ℕ := 53

def stampProtocol : String := "sdns://"

inductive StampProtoType where
  | plain
  | dnsCrypt
  | doH
  | tls
  | doQ
  deriving DecidableEq

def StampProtoType.code : StampProtoType → UInt8
  | .plain => 0
  | .dnsCrypt => 1
  | .doH => 2
  | .tls => 3
  | .doQ => 4

def StampProtoType.defaultPort : StampProtoType → ℕ
  | .plain => defaultPlainPort
  | .dnsCrypt => defaultDNSCryptPort
  | .doH => defaultDoHPort
  | .tls => defaultDoTPort
  | .doQ => defaultDoQPort

/-- `ServerStamp`; its texts are bytes. -/
structure ServerStamp where
  serverAddrStr : Bytes := []
  serverPk : Bytes := []
  hashes : List Bytes := []
  providerName : Bytes := []
  path : Bytes := []
  props : UInt64 := 0
  proto : StampProtoType
  deriving DecidableEq

inductive StampErr where
  | scheme
  | base64
  | tooShort
  | invalid
  | garbage
  | unsupported
  deriving DecidableEq

section Encode

/-- `binary.LittleEndian.PutUint64`, for `n` bytes. -/
def putUint : ℕ → ℕ → Bytes
  | 0, _ => []
  | n + 1, x => UInt8.ofNat (x % 256) :: putUint n (x / 256)

def lenByte (v : Bytes) : UInt8 := UInt8.ofNat (min v.length 255)

/-- A field behind its length. -/
def lenField (v : Bytes) : Bytes := lenByte v :: v

/-- The address without the default port. -/
def stripPort (port : ℕ) (addr : Bytes) : Bytes :=
  let suffix := encode (":" ++ toString port)
  if suffix.isSuffixOf addr then addr.take (addr.length - suffix.length) else addr

/-- The hashes: the high bit of a length says that another one follows. -/
def hashFields : List Bytes → Bytes
  | [] => [0]
  | [hash] => UInt8.ofNat ((lenByte hash).toNat % 128) :: hash
  | hash :: hashes => UInt8.ofNat ((lenByte hash).toNat % 128 + 128) :: hash ++ hashFields hashes

def header (stamp : ServerStamp) : Bytes := stamp.proto.code :: putUint 8 stamp.props.toNat

def bytes (stamp : ServerStamp) : Bytes :=
  let addr := lenField (stripPort stamp.proto.defaultPort stamp.serverAddrStr)
  match stamp.proto with
  | .plain => header stamp ++ addr
  | .dnsCrypt => header stamp ++ addr ++ lenField stamp.serverPk ++ lenField stamp.providerName
  | .doH =>
    header stamp ++ addr ++ hashFields stamp.hashes ++ lenField stamp.providerName ++
      lenField stamp.path
  | .tls | .doQ => header stamp ++ addr ++ hashFields stamp.hashes ++ lenField stamp.providerName

/-- `ServerStamp.String`. -/
def string (stamp : ServerStamp) : String := stampProtocol ++ Base64.encodeToString (bytes stamp)

end Encode

section Decode

/-- `binary.LittleEndian.Uint64`. -/
def readUint : Bytes → ℕ
  | [] => 0
  | b :: bs => b.toNat + 256 * readUint bs

/-- The next field, and what follows it; `more`: something has to. -/
def field (more : Bool) : Bytes → Except StampErr (Bytes × Bytes)
  | [] => .error .invalid
  | n :: bs =>
    if (if more then bs.length ≤ n.toNat else bs.length < n.toNat) then .error .invalid
    else .ok (bs.take n.toNat, bs.drop n.toNat)

/-- The loop over the hashes. Each round reads at least one byte. -/
def readHashes : ℕ → Bytes → Except StampErr (List Bytes × Bytes)
  | 0, _ => .error .invalid
  | _ + 1, [] => .error .invalid
  | fuel + 1, vlen :: bs =>
    let stampLen := vlen.toNat % 128
    if bs.length ≤ stampLen then .error .invalid
    else
      let hashes := if 0 < stampLen then [bs.take stampLen] else []
      if vlen.toNat < 128 then .ok (hashes, bs.drop stampLen)
      else (readHashes fuel (bs.drop stampLen)).map fun (more, bs) => (hashes ++ more, bs)

/-- The address with the default port, if it is an IP address alone. -/
def withPort (port : ℕ) (addr : Bytes) : Bytes :=
  let trimmed := (addr.dropWhile (· = byte '[')).rdropWhile (· = byte ']')
  if parseIP (.ofList (decode trimmed)) ≠ [] then addr ++ encode (":" ++ toString port) else addr

def checkLen (min : ℕ) (bin : Bytes) : Except StampErr Unit :=
  if bin.length < min then .error .tooShort else .ok ()

def checkEnd (bs : Bytes) : Except StampErr Unit := if bs ≠ [] then .error .garbage else .ok ()

def readProps (bin : Bytes) : UInt64 := UInt64.ofNat (readUint ((bin.drop 1).take 8))

def newPlainServerStamp (bin : Bytes) : Except StampErr ServerStamp := do
  checkLen 17 bin
  let (serverAddrStr, bs) ← field false (bin.drop 9)
  checkEnd bs
  return { proto := .plain, props := readProps bin
           serverAddrStr := withPort defaultPlainPort serverAddrStr }

def newDNSCryptServerStamp (bin : Bytes) : Except StampErr ServerStamp := do
  checkLen 66 bin
  let (serverAddrStr, bs) ← field true (bin.drop 9)
  let (serverPk, bs) ← field true bs
  let (providerName, bs) ← field false bs
  checkEnd bs
  return { proto := .dnsCrypt, props := readProps bin
           serverAddrStr := withPort defaultDNSCryptPort serverAddrStr,
           serverPk, providerName }

def newDoHServerStamp (bin : Bytes) : Except StampErr ServerStamp := do
  checkLen 22 bin
  let (serverAddrStr, bs) ← field true (bin.drop 9)
  let (hashes, bs) ← readHashes bs.length bs
  let (providerName, bs) ← field true bs
  let (path, bs) ← field false bs
  checkEnd bs
  return { proto := .doH, props := readProps bin
           serverAddrStr := withPort defaultDoHPort serverAddrStr, hashes,
           providerName, path }

def newDoTOrDoQServerStamp (stampType : StampProtoType) (defaultPort : ℕ) (bin : Bytes) :
    Except StampErr ServerStamp := do
  checkLen 22 bin
  let (serverAddrStr, bs) ← field true (bin.drop 9)
  let (hashes, bs) ← readHashes bs.length bs
  let (providerName, bs) ← field false bs
  checkEnd bs
  return { proto := stampType, props := readProps bin
           serverAddrStr := withPort defaultPort serverAddrStr, hashes,
           providerName }

def newServerStamp (bin : Bytes) : Except StampErr ServerStamp :=
  match bin with
  | [] => .error .tooShort
  | proto :: _ =>
    if proto = StampProtoType.plain.code then newPlainServerStamp bin
    else if proto = StampProtoType.dnsCrypt.code then newDNSCryptServerStamp bin
    else if proto = StampProtoType.doH.code then newDoHServerStamp bin
    else if proto = StampProtoType.tls.code then newDoTOrDoQServerStamp .tls defaultDoTPort bin
    else if proto = StampProtoType.doQ.code then newDoTOrDoQServerStamp .doQ defaultDoQPort bin
    else .error .unsupported

/-- `NewServerStampFromString`. -/
def newServerStampFromString (stampStr : String) : Except StampErr ServerStamp :=
  if hasPrefix stampStr stampProtocol then
    match Base64.decodeString (.ofList (stampStr.toList.drop stampProtocol.toList.length)) with
    | none => .error .base64
    | some bin => newServerStamp bin
  else .error .scheme

end Decode

section RoundTrip

variable {stamp : ServerStamp}

theorem putUint_length (n x : ℕ) : (putUint n x).length = n := by
  induction n generalizing x with
  | zero => rfl
  | succ n ih => rw [putUint, List.length_cons, ih]

theorem readUint_putUint {n x : ℕ} (h : x < 256 ^ n) : readUint (putUint n x) = x := by
  induction n generalizing x with
  | zero =>
    rw [pow_zero, Nat.lt_one_iff] at h
    exact h.symm
  | succ n ih =>
    have hrest : x / 256 < 256 ^ n := Nat.div_lt_of_lt_mul (by rwa [pow_succ, Nat.mul_comm] at h)
    have hbyte : (UInt8.ofNat (x % 256)).toNat = x % 256 := Nat.mod_mod _ _
    rw [putUint, readUint, ih hrest, hbyte]
    exact Nat.mod_add_div x 256

theorem header_length (stamp : ServerStamp) : (header stamp).length = 9 := by
  rw [header, List.length_cons, putUint_length]

theorem drop_header (bs : Bytes) : (header stamp ++ bs).drop 9 = bs :=
  List.drop_left' (header_length stamp)

theorem readProps_header (bs : Bytes) : readProps (header stamp ++ bs) = stamp.props := by
  have hprops : ((header stamp ++ bs).drop 1).take 8 = putUint 8 stamp.props.toNat :=
    List.take_left' (putUint_length 8 stamp.props.toNat)
  rw [readProps, hprops, readUint_putUint stamp.props.toNat_lt]
  exact UInt64.ofNat_toNat

theorem lenByte_toNat {v : Bytes} (h : v.length ≤ 255) : (lenByte v).toNat = v.length := by
  rw [lenByte, min_eq_left h]
  exact Nat.mod_eq_of_lt (Nat.lt_succ_of_le h)

theorem field_lenField {more : Bool} {v bs : Bytes} (h : v.length ≤ 255)
    (hmore : more = true → bs ≠ []) :
    field more (lenField v ++ bs) = .ok (v, bs) := by
  have hfits : ¬ if more = true then (v ++ bs).length ≤ v.length
      else (v ++ bs).length < v.length := by
    rw [List.length_append]
    split
    · next hm =>
      have hpos := List.length_pos_iff.2 (hmore hm)
      omega
    · omega
  rw [lenField, List.cons_append, field, lenByte_toNat h, if_neg hfits, List.take_left,
    List.drop_left]

theorem lenField_ne_nil (v : Bytes) : lenField v ≠ [] := List.cons_ne_nil _ _

theorem newServerStampFromString_string (stamp : ServerStamp) :
    newServerStampFromString (string stamp) = newServerStamp (bytes stamp) := by
  have hpre : hasPrefix (string stamp) stampProtocol = true := by
    rw [hasPrefix_iff, string, String.toList_append]
    exact List.prefix_append _ _
  rw [newServerStampFromString, if_pos hpre, string, String.toList_append, List.drop_left,
    String.ofList_toList,
    Base64.decodeString_encodeToString]

theorem checkEnd_nil : checkEnd [] = .ok () := rfl

theorem field_length {more : Bool} {bs v rest : Bytes} (h : field more bs = .ok (v, rest)) :
    v.length ≤ 255 := by
  cases bs with
  | nil => cases h
  | cons n bs =>
    have hlt := n.toNat_lt
    have htake : v = bs.take n.toNat := by
      by_cases hfits : if more = true then bs.length ≤ n.toNat else bs.length < n.toNat
      · rw [field, if_pos hfits] at h
        cases h
      · rw [field, if_neg hfits] at h
        cases h
        rfl
    rw [htake, List.length_take]
    omega

theorem ok_of_bind {α β : Type} {x : Except StampErr α} {f : α → Except StampErr β} {b : β}
    (h : x >>= f = .ok b) :
    ∃ a, x = .ok a ∧ f a = .ok b := by
  cases x with
  | error e => cases h
  | ok a => exact ⟨a, rfl, h⟩

/-- The name is a field with a length of one byte, in whichever place it comes. -/
theorem dot_providerName {stampType : StampProtoType} {port : ℕ} {bin : Bytes}
    (h : newDoTOrDoQServerStamp stampType port bin = .ok stamp) :
    stamp.providerName.length ≤ 255 := by
  obtain ⟨-, -, h⟩ := ok_of_bind h
  obtain ⟨_, -, h⟩ := ok_of_bind h
  obtain ⟨_, -, h⟩ := ok_of_bind h
  obtain ⟨_, hname, h⟩ := ok_of_bind h
  obtain ⟨-, -, h⟩ := ok_of_bind h
  cases h
  exact field_length hname

theorem newServerStamp_providerName {bin : Bytes} (h : newServerStamp bin = .ok stamp) :
    stamp.providerName.length ≤ 255 := by
  unfold newServerStamp at h
  split at h
  · cases h
  split_ifs at h
  · -- plain DNS: no name is read
    obtain ⟨-, -, h⟩ := ok_of_bind h
    obtain ⟨_, -, h⟩ := ok_of_bind h
    obtain ⟨-, -, h⟩ := ok_of_bind h
    cases h
    exact Nat.zero_le _
  · -- DNSCrypt: address, public key, name
    obtain ⟨-, -, h⟩ := ok_of_bind h
    obtain ⟨_, -, h⟩ := ok_of_bind h
    obtain ⟨_, -, h⟩ := ok_of_bind h
    obtain ⟨_, hname, h⟩ := ok_of_bind h
    obtain ⟨-, -, h⟩ := ok_of_bind h
    cases h
    exact field_length hname
  · -- DoH: address, hashes, name, path
    obtain ⟨-, -, h⟩ := ok_of_bind h
    obtain ⟨_, -, h⟩ := ok_of_bind h
    obtain ⟨_, -, h⟩ := ok_of_bind h
    obtain ⟨_, hname, h⟩ := ok_of_bind h
    obtain ⟨_, -, h⟩ := ok_of_bind h
    obtain ⟨-, -, h⟩ := ok_of_bind h
    cases h
    exact field_length hname
  · exact dot_providerName h
  · exact dot_providerName h

/-- **No longer provider name** comes out of a stamp. -/
theorem providerName_short {s : String} (h : newServerStampFromString s = .ok stamp) :
    stamp.providerName.length ≤ 255 := by
  unfold newServerStampFromString at h
  split at h
  · split at h
    · cases h
    · exact newServerStamp_providerName h
  · cases h

end RoundTrip

section Addr

variable {ip : IP} {port n : ℕ}

/-- The characters of an address with or without a port. -/
def AddrChar (c : Char) : Prop := c.isDigit = true ∨ c = '.' ∨ c = ':'

theorem AddrChar.lt {c : Char} (h : AddrChar c) : c.toNat < 0x80 := by
  rcases h with h | rfl | rfl
  · have hbounds := isDigit_bounds h
    omega
  · decide
  · decide

theorem AddrChar.bracket {c : Char} (h : AddrChar c) : c ≠ '[' ∧ c ≠ ']' := by
  constructor <;> rintro rfl <;> revert h <;> unfold AddrChar <;> decide

theorem byte_inj {c d : Char} (hc : c.toNat < 0x80) (hd : d.toNat < 0x80) (h : byte c = byte d) :
    c = d := by
  have hnat := congrArg UInt8.toNat h
  rw [byte_toNat hc, byte_toNat hd] at hnat
  exact Char.toNat_inj.1 hnat

/-- The decoder reads an address as the IP address it is. -/
theorem withPort_encode {t : String} (h : ∀ c ∈ t.toList, AddrChar c) :
    withPort port (encode t) = if parseIP t ≠ [] then encode t ++ encode (":" ++ toString port)
      else encode t := by
  have hlt : ∀ c ∈ t.toList, c.toNat < 0x80 := fun c hc => (h c hc).lt
  have htext : encode t = t.toList.map byte := encode_ascii hlt
  have hbyte : ∀ d : Char, d.toNat < 0x80 → d ∉ t.toList →
      ∀ b ∈ encode t, ¬ decide (b = byte d) = true := by
    intro d hd hnot b hb heq
    rw [htext] at hb
    obtain ⟨c, hc, rfl⟩ := List.mem_map.1 hb
    exact hnot (byte_inj (hlt c hc) hd (of_decide_eq_true heq) ▸ hc)
  have hopen : (encode t).dropWhile (· = byte '[') = encode t :=
    List.dropWhile_eq_self_iff.2 fun hl =>
      hbyte '[' (by decide) (fun hm => (h _ hm).bracket.1 rfl) _ (List.getElem_mem hl)
  have hclose : (encode t).rdropWhile (· = byte ']') = encode t :=
    List.rdropWhile_eq_self_iff.2 fun hl =>
      hbyte ']' (by decide) (fun hm => (h _ hm).bracket.2 rfl) _ (List.getLast_mem hl)
  have hparse : (String.ofList (decode (encode t))) = t := by
    rw [htext, decode_map_byte hlt, String.ofList_toList]
  simp only [withPort, hopen, hclose, hparse]

theorem encode_append (s t : String) : encode (s ++ t) = encode s ++ encode t := by
  rw [encode, String.toList_append, List.flatMap_append]
  rfl

theorem addrChar_ip {c : Char} (h : c ∈ (ipv4String ip).toList) : AddrChar c :=
  (mem_ipv4String h).imp_right .inl

theorem addrChar_port {c : Char} (h : c ∈ (":" ++ toString n).toList) : AddrChar c := by
  rw [String.toList_append, List.mem_append] at h
  rcases h with h | h
  · exact .inr (.inr (by simpa using h))
  · exact .inl (isDigit_toString h)

theorem addrChar_ip_port {c : Char} (h : c ∈ (ipv4String ip ++ ":" ++ toString n).toList) :
    AddrChar c := by
  rw [String.append_assoc, String.toList_append, List.mem_append] at h
  exact h.elim addrChar_ip addrChar_port

theorem colon_not_mem {t : String} (h : ∀ c ∈ t.toList, AddrChar c) (hcolon : ':' ∉ t.toList) :
    byte ':' ∉ encode t := by
  rw [encode_ascii fun c hc => (h c hc).lt]
  intro hm
  obtain ⟨c, hc, heq⟩ := List.mem_map.1 hm
  exact hcolon (byte_inj (h c hc).lt (by decide) heq ▸ hc)

theorem colon_ip : ':' ∉ (ipv4String ip).toList := by
  intro hm
  rcases mem_ipv4String hm with h | h <;> exact absurd h (by decide)

theorem colon_toString : ':' ∉ (toString n).toList := fun hm =>
    absurd (isDigit_toString hm) (by decide)

theorem encode_port (n : ℕ) : encode (":" ++ toString n) = byte ':' :: encode (toString n) := by
  rw [encode_append]
  rfl

theorem stripPort_ip (ip : IP) (port : ℕ) :
    stripPort port (encode (ipv4String ip)) = encode (ipv4String ip) := by
  refine if_neg ?_
  rw [List.isSuffixOf_iff_suffix, encode_port]
  exact fun hsuffix =>
    colon_not_mem (fun c => addrChar_ip) colon_ip (hsuffix.subset List.mem_cons_self)

/-- An address without a port gets the default port. -/
theorem withPort_ip (h : ip.length = 4) :
    withPort port (stripPort port (encode (ipv4String ip))) = encode
      (ipv4String ip ++ ":" ++ toString port) := by
  rw [stripPort_ip, withPort_encode fun c => addrChar_ip, if_pos (parseIP_ipv4String h),
    ← encode_append,
    String.append_assoc]

/-- What the encoder leaves of an address with a port. -/
theorem stripPort_port (ip : IP) (port n : ℕ) :
    stripPort port (encode (ipv4String ip ++ ":" ++ toString n)) = encode
      (ipv4String ip ++ ":" ++ toString n) ∨
      (stripPort port (encode (ipv4String ip ++ ":" ++ toString n)) = encode (ipv4String ip) ∧
        encode (ipv4String ip ++ ":" ++ toString n) = encode (ipv4String ip) ++ encode
          (":" ++ toString port)) := by
  have haddr : encode (ipv4String ip ++ ":" ++ toString n) = encode (ipv4String ip) ++ byte ':' ::
      encode (toString n) := by
    rw [String.append_assoc, encode_append, encode_port]
  unfold stripPort
  dsimp only
  split
  · next hsuffix =>
    obtain ⟨front, hfront⟩ := List.isSuffixOf_iff_suffix.1 hsuffix
    have hcut := hfront
    rw [haddr, encode_port] at hcut
    obtain ⟨hip, -, -⟩ :=
      (List.append_cons_inj_of_notMem (colon_not_mem (fun c => addrChar_ip) colon_ip)
      (colon_not_mem (fun c hc => .inl (isDigit_toString hc)) colon_toString)).1 hcut.symm
    rw [← hfront, List.length_append, Nat.add_sub_cancel, List.take_left, ← hip]
    exact .inr ⟨rfl, rfl⟩
  · exact .inl rfl

/-- An address with a port keeps it, also if it is the default port. -/
theorem withPort_port (h : ip.length = 4) :
    withPort port (stripPort port (encode (ipv4String ip ++ ":" ++ toString n))) =
      encode (ipv4String ip ++ ":" ++ toString n) := by
  rcases stripPort_port ip port n with hkept | ⟨hcut, hdefault⟩
  · rw [hkept, withPort_encode fun c => addrChar_ip_port, if_neg (not_not.2 (parseIP_port h _))]
  · rw [hcut, hdefault, withPort_encode fun c => addrChar_ip, if_pos (parseIP_ipv4String h)]

theorem encode_length {t : String} (h : ∀ c ∈ t.toList, AddrChar c) :
    (encode t).length = t.toList.length := by
  rw [encode_ascii fun c hc => (h c hc).lt, List.length_map]

theorem ip_length (h : ip.length = 4) :
    7 ≤ (encode (ipv4String ip)).length ∧ (encode (ipv4String ip)).length ≤ 15 := by
  rw [encode_length fun c => addrChar_ip]
  exact ⟨(ipv4String_length h).2, (ipv4String_length h).1⟩

/-- The address of a stamp is neither too short nor too long. -/
theorem stripPort_port_length (h : ip.length = 4) (hn : n < 2 ^ 63) :
    7 ≤ (stripPort port (encode (ipv4String ip ++ ":" ++ toString n))).length ∧
      (stripPort port (encode (ipv4String ip ++ ":" ++ toString n))).length ≤ 255 := by
  obtain ⟨hmin, hmax⟩ := ip_length h
  rcases stripPort_port ip port n with hkept | ⟨hcut, -⟩
  · have hdigits : (toString n).toList.length ≤ 19 := by
      rw [toList_toString, Nat.length_toDigits_le_iff (by decide) (by decide)]
      omega
    have hlen : (encode (ipv4String ip ++ ":" ++ toString n)).length =
        (encode (ipv4String ip)).length + (1 + (toString n).toList.length) := by
      rw [String.append_assoc, encode_append, encode_port, List.length_append, List.length_cons,
        encode_length fun c hc => .inl (isDigit_toString hc)]
      omega
    rw [hkept, hlen]
    omega
  · rw [hcut]
    omega

end Addr

end ModDNS.Libs.DnsStamps
