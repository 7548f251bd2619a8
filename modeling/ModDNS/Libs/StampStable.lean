import ModDNS.Libs.StampWire

/-!
# Encoding and decoding stamps

The encoder cuts the default port off an address, whatever stands before it, and the decoder puts it
behind an IP address alone. So the two undo each other for IP addresses with a port, and may not for
other texts.

* `stamps_round_trip`: encoding can be undone.
* `reencoded_iff`: which stamps are stable under decoding and encoding.
-/

namespace ModDNS.Libs.DnsStamps

open Go

section Addr

variable {port : ℕ} {addr bs : Bytes} {host digits : String}

/-- What the decoder takes for an IP address: brackets are passed over. -/
def trimmed (addr : Bytes) : Bytes := (addr.dropWhile (· = byte '[')).rdropWhile (· = byte ']')

def IsIP (addr : Bytes) : Prop := parseIP (.ofList (decode (trimmed addr))) ≠ []

instance (addr : Bytes) : Decidable (IsIP addr) := inferInstanceAs (Decidable (_ ≠ _))

/-- The text of a port behind an address. -/
def portText (port : ℕ) : Bytes := encode (":" ++ toString port)

theorem withPort_eq (port : ℕ) (addr : Bytes) :
    withPort port addr = if IsIP addr then addr ++ portText port else addr := rfl

theorem stripPort_append (port : ℕ) (bs : Bytes) : stripPort port (bs ++ portText port) = bs := by
  have hsuffix : (encode (":" ++ toString port)).isSuffixOf (bs ++ portText port) = true :=
    List.isSuffixOf_iff_suffix.2 (List.suffix_append _ _)
  unfold stripPort
  dsimp only
  rw [if_pos hsuffix, portText, List.length_append, Nat.add_sub_cancel, List.take_left]

theorem stripPort_of_not (h : ¬ portText port <:+ addr) : stripPort port addr = addr :=
  if_neg fun hsuffix => h (List.isSuffixOf_iff_suffix.1 hsuffix)

theorem stripPort_length (port : ℕ) (addr : Bytes) :
    (stripPort port addr).length ≤ addr.length := by
  unfold stripPort
  dsimp only
  split
  · exact List.length_take_le' _ _
  · exact Nat.le_refl _

/-- The address ends in the default port, and is an IP address neither with it nor without it. -/
def LosesPort (port : ℕ) (addr : Bytes) : Prop :=
  ¬ IsIP addr ∧ ∃ front, addr = front ++ portText port ∧ ¬ IsIP front

/-- **Which addresses are stable**: all but those that lose their port. -/
theorem withPort_stable :
    withPort port (stripPort port (withPort port addr)) = withPort port addr ↔
    ¬ LosesPort port addr := by
  by_cases hip : IsIP addr
  · rw [withPort_eq port addr, if_pos hip, stripPort_append, withPort_eq port addr, if_pos hip]
    exact iff_of_true rfl fun h => h.1 hip
  · rw [withPort_eq port addr, if_neg hip]
    by_cases hport : portText port <:+ addr
    · obtain ⟨front, rfl⟩ := hport
      rw [stripPort_append, withPort_eq]
      by_cases hfront : IsIP front
      · rw [if_pos hfront]
        refine iff_of_true rfl ?_
        rintro ⟨-, front', heq, hfront'⟩
        exact hfront' (List.append_cancel_right heq ▸ hfront)
      · rw [if_neg hfront]
        refine iff_of_false (fun heq => ?_) (not_not_intro ⟨hip, front, rfl, hfront⟩)
        have hlen := congrArg List.length heq
        rw [List.length_append, portText, encode_port, List.length_cons] at hlen
        omega
    · rw [stripPort_of_not hport, withPort_eq, if_neg hip]
      exact iff_of_true rfl fun ⟨_, front, heq, _⟩ => hport ⟨front, heq.symm⟩

theorem trimmed_open (bs : Bytes) : trimmed (byte '[' :: bs) = trimmed bs := by
  have hfirst : (byte '[' :: bs).dropWhile (· = byte '[') = bs.dropWhile (· = byte '[') :=
    List.dropWhile_cons_of_pos (decide_eq_true rfl)
  rw [trimmed, trimmed, hfirst]

theorem trimmed_close (bs : Bytes) : trimmed (bs ++ [byte ']']) = trimmed bs := by
  have hother : [byte ']'].dropWhile (· = byte '[') = [byte ']'] := by decide
  rw [trimmed, trimmed, List.dropWhile_append, hother]
  split
  · next hempty =>
    rw [List.isEmpty_iff.1 hempty]
    decide
  · exact List.rdropWhile_concat_pos _ _ _ (decide_eq_true rfl)

theorem trimmed_eq (hopen : ∀ b ∈ bs.head?, b ≠ byte '[')
    (hclose : ∀ b ∈ bs.getLast?, b ≠ byte ']') : trimmed bs = bs := by
  have hfirst : bs.dropWhile (· = byte '[') = bs := List.dropWhile_eq_self_iff.2 fun hl => by
    have hne := hopen bs[0] (List.head?_eq_getElem? ▸ List.getElem?_eq_getElem hl)
    simpa using hne
  have hlast : bs.rdropWhile (· = byte ']') = bs := List.rdropWhile_eq_self_iff.2 fun hl => by
    have hne := hclose (bs.getLast hl) (List.getLast?_eq_some_getLast hl)
    simpa using hne
  rw [trimmed, hfirst, hlast]

/-- The bytes of an IP address are its characters, and none of them is a bracket. -/
theorem encode_ip {c : Char} (h : parseIP host ≠ []) (hc : c = '[' ∨ c = ']') :
    ∀ b ∈ encode host, b ≠ byte c := by
  have hchars := parseIP_chars h
  have hlt : c.toNat < 0x80 := by rcases hc with rfl | rfl <;> decide
  rw [encode_ascii fun c hc => (hchars c hc).lt]
  intro b hb heq
  obtain ⟨d, hd, rfl⟩ := List.mem_map.1 hb
  have hsame := byte_inj (hchars d hd).lt hlt heq
  rcases hc with rfl | rfl
  · exact (hchars d hd).bracket.1 hsame
  · exact (hchars d hd).bracket.2 hsame

theorem decode_encode (h : parseIP host ≠ []) : String.ofList (decode (encode host)) = host := by
  have hlt : ∀ c ∈ host.toList, c.toNat < 0x80 := fun c hc => (parseIP_chars h c hc).lt
  rw [encode_ascii hlt, decode_map_byte hlt, String.ofList_toList]

theorem trimmed_ip (h : parseIP host ≠ []) : trimmed (encode host) = encode host :=
  trimmed_eq (fun b hb => encode_ip h (.inl rfl) b (List.mem_of_mem_head? hb))
    fun b hb => encode_ip h (.inr rfl) b (List.mem_of_mem_getLast? hb)

/-- A literal is an IP address. -/
theorem isIP_host (h : parseIP host ≠ []) : IsIP (encode host) := by
  rw [IsIP, trimmed_ip h, decode_encode h]
  exact h

theorem isIP_brackets (h : parseIP host ≠ []) : IsIP (byte '[' :: (encode host ++ [byte ']'])) := by
  rw [IsIP, trimmed_open, trimmed_close, trimmed_ip h, decode_encode h]
  exact h

/-- An address that keeps a bracket is no IP address. -/
theorem not_isIP_of_bracket (h : byte ']' ∈ trimmed addr) : ¬ IsIP addr := by
  intro hip
  have hmem := mem_decode h (by decide)
  have hchar := parseIP_chars hip ']' (by rw [String.toList_ofList]; exact hmem)
  exact hchar.bracket.2 rfl

/-- The last separator splits a list in one way. -/
theorem append_last_inj {α : Type} {a : α} {x x' z z' : List α} (hz : a ∉ z) (hz' : a ∉ z')
    (h : x ++ a :: z = x' ++ a :: z') :
    x = x' ∧ z = z' := by
  rcases List.append_eq_append_iff.1 h with ⟨mid, rfl, hmid⟩ | ⟨mid, rfl, hmid⟩
  · cases mid with
    | nil => exact ⟨(List.append_nil _).symm, (List.cons.inj hmid).2⟩
    | cons b mid =>
      refine absurd ?_ hz
      rw [(List.cons.inj hmid).2]
      exact List.mem_append_right _ List.mem_cons_self
  · cases mid with
    | nil => exact ⟨List.append_nil _, (List.cons.inj hmid).2.symm⟩
    | cons b mid =>
      refine absurd ?_ hz'
      rw [(List.cons.inj hmid).2]
      exact List.mem_append_right _ List.mem_cons_self

/-- An IPv4 literal, or an IPv6 literal in brackets, with a port. -/
def HasPort (addr : Bytes) : Prop :=
  ∃ host digits : String, parseIP host ≠ [] ∧ digits ≠ "" ∧
    (∀ c ∈ digits.toList, c.isDigit = true) ∧
    (':' ∉ host.toList ∧ addr = encode (host ++ ":" ++ digits) ∨
      ':' ∈ host.toList ∧ addr = encode ("[" ++ host ++ "]:" ++ digits))

theorem colon_digits (h : ∀ c ∈ digits.toList, c.isDigit = true) : byte ':' ∉ encode digits :=
  colon_not_mem (fun c hc => .inl (h c hc)) fun hcolon => absurd (h _ hcolon) (by decide)

/-- Nothing is passed over in front of a port that follows an address. -/
theorem trimmed_port (h : parseIP host ≠ []) (hdigits : ∀ c ∈ digits.toList, c.isDigit = true)
    (mid : Bytes) :
    trimmed (encode host ++ (mid ++ byte ':' :: encode digits)) = encode host ++
    (mid ++ byte ':' :: encode digits) := by
  have hne : encode host ≠ [] := by
    intro hempty
    refine h ?_
    rw [← decode_encode h, hempty]
    decide
  refine trimmed_eq (fun b hb => ?_) fun b hb => ?_
  · rw [List.head?_append_of_ne_nil _ hne] at hb
    exact encode_ip h (.inl rfl) b (List.mem_of_mem_head? hb)
  · rw [← List.append_assoc, List.getLast?_append_of_ne_nil _ (List.cons_ne_nil _ _)] at hb
    rcases List.mem_cons.1 (List.mem_of_mem_getLast? hb) with rfl | hb
    · decide
    · rw [encode_ascii fun c hc => AddrChar.lt (.inl (hdigits c hc))] at hb
      obtain ⟨c, hc, rfl⟩ := List.mem_map.1 hb
      exact fun heq =>
        AddrChar.bracket (.inl (hdigits c hc)) |>.2
          (byte_inj (AddrChar.lt (.inl (hdigits c hc))) (by decide) heq)

/-- Before the port stands an IP address, and with the port it is none. -/
theorem HasPort.split (h : HasPort addr) :
    ∃ front digits, addr = front ++ byte ':' :: encode digits ∧ IsIP front ∧
    ¬ IsIP addr ∧ byte ':' ∉ encode digits := by
  obtain ⟨host, digits, hip, -, hdigits, ⟨hv4, rfl⟩ | ⟨-, rfl⟩⟩ := h
  · have haddr : encode (host ++ ":" ++ digits) = encode host ++ byte ':' :: encode digits := by
      rw [String.append_assoc, encode_append, encode_append]
      rfl
    refine ⟨encode host, digits, haddr, isIP_host hip, fun hwith => ?_, colon_digits hdigits⟩
    have hlt : ∀ c ∈ (host ++ ":" ++ digits).toList, c.toNat < 0x80 := by
      simp only [String.toList_append, List.mem_append]
      rintro c ((hc | hc) | hc)
      · exact (parseIP_chars hip c hc).lt
      · obtain rfl : c = ':' := by simpa using hc
        decide
      · exact AddrChar.lt (.inl (hdigits c hc))
    have hnone : parseIP (host ++ ":" ++ digits) = [] := by
      rw [String.append_assoc]
      exact parseIP_colon hip hv4 (by simp [String.toList_append])
    have htrim : trimmed (encode (host ++ ":" ++ digits)) = encode (host ++ ":" ++ digits) := by
      rw [haddr]
      exact trimmed_port hip hdigits []
    rw [IsIP, htrim, encode_ascii hlt, decode_map_byte hlt, String.ofList_toList] at hwith
    exact hwith hnone
  · have haddr : encode ("[" ++ host ++ "]:" ++ digits) =
        byte '[' :: (encode host ++ ([byte ']'] ++ byte ':' :: encode digits)) := by
      rw [encode_append, encode_append, encode_append]
      simp only [List.append_assoc]
      rfl
    refine ⟨byte '[' :: (encode host ++ [byte ']']), digits, ?_, isIP_brackets hip, ?_,
      colon_digits hdigits⟩
    · rw [haddr]
      simp only [List.cons_append, List.nil_append, List.append_assoc]
    · refine not_isIP_of_bracket ?_
      rw [haddr, trimmed_open, trimmed_port hip hdigits]
      exact List.mem_append_right _ List.mem_cons_self

/-- **An address with a port** is decoded to itself. -/
theorem withPort_stripPort (h : HasPort addr) (port : ℕ) :
    withPort port (stripPort port addr) = addr := by
  obtain ⟨front, digits, haddr, hfront, hwith, hcolon⟩ := h.split
  by_cases hport : portText port <:+ addr
  · obtain ⟨front', hfront'⟩ := hport
    have hdefault : byte ':' ∉ encode (toString port) := colon_digits fun c => isDigit_toString
    rw [portText, encode_port, haddr] at hfront'
    obtain ⟨rfl, hdigits⟩ := append_last_inj hdefault hcolon hfront'
    have htext : portText port = byte ':' :: encode digits := by rw [portText, encode_port, hdigits]
    rw [haddr, ← htext, stripPort_append, withPort_eq, if_pos hfront]
  · rw [stripPort_of_not hport, withPort_eq, if_neg hwith]

end Addr

section Encoded

variable {stamp w : ServerStamp} {s : String}

/-- What the encoder puts on the wire: an address without the default port, and an empty hash where
there is none. -/
def sentStamp (stamp : ServerStamp) : ServerStamp :=
  { stamp with
    serverAddrStr := stripPort stamp.proto.defaultPort stamp.serverAddrStr
    hashes := if stamp.proto.hasHashes = true ∧ stamp.hashes = [] then [[]] else stamp.hashes }

theorem sentStamp_proto (stamp : ServerStamp) : (sentStamp stamp).proto = stamp.proto := by
  simp only [sentStamp]

theorem sentStamp_addr (stamp : ServerStamp) :
    (sentStamp stamp).serverAddrStr = stripPort stamp.proto.defaultPort stamp.serverAddrStr := by
      simp only [sentStamp]

theorem sentStamp_props (stamp : ServerStamp) : (sentStamp stamp).props = stamp.props := by
  simp only [sentStamp]

theorem sentStamp_pk (stamp : ServerStamp) : (sentStamp stamp).serverPk = stamp.serverPk := by
  simp only [sentStamp]

theorem sentStamp_name (stamp : ServerStamp) :
    (sentStamp stamp).providerName = stamp.providerName := by simp only [sentStamp]

theorem sentStamp_path (stamp : ServerStamp) : (sentStamp stamp).path = stamp.path := by
  simp only [sentStamp]

theorem readStamp_proto (w : ServerStamp) : (readStamp w).proto = w.proto := by
  simp only [readStamp]

theorem readStamp_addr (w : ServerStamp) :
    (readStamp w).serverAddrStr = withPort w.proto.defaultPort w.serverAddrStr := by
  simp only [readStamp]

theorem hashFields_sent (hashes : List Bytes) :
    hashFields (if hashes = [] then [[]] else hashes) = hashFields hashes := by
  split
  · next hempty =>
    rw [hempty]
    rfl
  · rfl

theorem bytes_eq (stamp : ServerStamp) : bytes stamp = wire (sentStamp stamp) := by
  obtain ⟨addr, pk, hashes, name, path, props, proto⟩ := stamp
  cases proto
  all_goals
    simp only [bytes, wire, wireFields, header, sentStamp, StampProtoType.hasHashes, true_and,
      hashFields_sent,
      List.append_assoc]

/-- A stamp that an encoder is given: an address with a port, fields that fit, hashes that are not
empty, and nothing in the fields that its protocol does not have. -/
structure Canonical (stamp : ServerStamp) : Prop where
  addr : HasPort stamp.serverAddrStr
  addr_short : stamp.serverAddrStr.length ≤ 255
  serverPk : stamp.serverPk.length ≤ 255
  hashes : ∀ hash ∈ stamp.hashes, 1 ≤ hash.length ∧ hash.length ≤ 127
  providerName : stamp.providerName.length ≤ 255
  path : stamp.path.length ≤ 255
  unused : UnusedEmpty stamp
  enough : stamp.proto.minLength ≤ (bytes stamp).length

theorem unusedEmpty_sent (h : UnusedEmpty stamp) : UnusedEmpty (sentStamp stamp) := by
  obtain ⟨addr, pk, hashes, name, path, props, proto⟩ := stamp
  cases proto with
  | plain =>
    obtain ⟨rfl, rfl, rfl, rfl⟩ : pk = [] ∧ hashes = [] ∧ name = [] ∧ path = [] := h
    exact ⟨rfl, rfl, rfl, rfl⟩
  | dnsCrypt =>
    obtain ⟨rfl, rfl⟩ : hashes = [] ∧ path = [] := h
    exact ⟨rfl, rfl⟩
  | doH =>
    obtain rfl : pk = [] := h
    exact rfl
  | tls =>
    obtain ⟨rfl, rfl⟩ : pk = [] ∧ path = [] := h
    exact ⟨rfl, rfl⟩
  | doQ =>
    obtain ⟨rfl, rfl⟩ : pk = [] ∧ path = [] := h
    exact ⟨rfl, rfl⟩

/-- What is sent is well formed, if it is long enough. -/
theorem wellFormed_sent
    (haddr : (stripPort stamp.proto.defaultPort stamp.serverAddrStr).length ≤ 255)
    (hpk : stamp.serverPk.length ≤ 255) (hhashes : ∀ hash ∈ stamp.hashes, hash.length ≤ 127)
    (hname : stamp.providerName.length ≤ 255) (hpath : stamp.path.length ≤ 255)
    (hunused : UnusedEmpty stamp) (henough : stamp.proto.minLength ≤ (bytes stamp).length) :
    WellFormed (sentStamp stamp) := by
  have hunused' := unusedEmpty_sent hunused
  rw [bytes_eq] at henough
  obtain ⟨addr, pk, hashes, name, path, props, proto⟩ := stamp
  unfold sentStamp at henough hunused' ⊢
  dsimp only at haddr hpk hhashes hname hpath henough hunused' ⊢
  constructor
  case addr => exact haddr
  case serverPk => exact hpk
  case providerName => exact hname
  case path => exact hpath
  case unused => exact hunused'
  case enough => exact henough
  case hashes =>
    intro hash hhash
    dsimp only at hhash
    split at hhash
    · rw [List.mem_singleton.1 hhash]
      exact Nat.zero_le _
    · exact hhashes hash hhash
  case hashes_ne =>
    intro hhas
    dsimp only
    split
    · exact List.cons_ne_nil _ _
    · next hsome => exact fun hempty => hsome ⟨hhas, hempty⟩

theorem Canonical.wellFormed (h : Canonical stamp) : WellFormed (sentStamp stamp) :=
  wellFormed_sent ((stripPort_length _ _).trans h.addr_short) h.serverPk
    (fun hash hhash => (h.hashes hash hhash).2)
    h.providerName h.path h.unused h.enough

/-- The empty hash that stands for none is dropped again. -/
theorem filter_sent (h : ∀ hash ∈ stamp.hashes, hash ≠ []) :
    (sentStamp stamp).hashes.filter (· ≠ []) = stamp.hashes := by
  unfold sentStamp
  dsimp only
  split
  · next hempty =>
    rw [hempty.2]
    rfl
  · exact List.filter_eq_self.2 fun hash hhash => decide_eq_true (h hash hhash)

/-- What is sent is read again, up to its address. -/
theorem readStamp_sent_addr (h : ∀ hash ∈ stamp.hashes, hash ≠ []) : readStamp (sentStamp stamp) =
    { stamp with
      serverAddrStr :=
        withPort stamp.proto.defaultPort
          (stripPort stamp.proto.defaultPort stamp.serverAddrStr) } := by
  have hfilter := filter_sent h
  unfold readStamp
  rw [hfilter]
  unfold sentStamp
  dsimp only

theorem readStamp_sent (haddr : withPort stamp.proto.defaultPort
    (stripPort stamp.proto.defaultPort stamp.serverAddrStr) =
    stamp.serverAddrStr) (hhashes : ∀ hash ∈ stamp.hashes, hash ≠ []) : readStamp
    (sentStamp stamp) = stamp := by
  rw [readStamp_sent_addr hhashes, haddr]

theorem decode_string (stamp : ServerStamp) :
    newServerStampFromString (string stamp) = newServerStamp (wire (sentStamp stamp)) := by
  rw [newServerStampFromString_string, bytes_eq]

theorem Canonical.decoded (h : Canonical stamp) :
    newServerStampFromString (string stamp) = .ok stamp := by
  have hhashes : ∀ hash ∈ stamp.hashes, hash ≠ [] := fun hash hhash =>
    List.length_pos_iff.1 (h.hashes hash hhash).1
  rw [decode_string, newServerStamp_wire h.wellFormed,
    readStamp_sent (withPort_stripPort h.addr _) hhashes]

/-- **Decoding undoes encoding**, for all five protocols, and no two stamps have the same text. -/
theorem stamps_round_trip (h : Canonical stamp) :
    newServerStampFromString (string stamp) = .ok stamp ∧
    ∀ other, Canonical other → string other = string stamp → other = stamp := by
  refine ⟨h.decoded, fun other hother htext => ?_⟩
  have hsame := hother.decoded
  rw [htext, h.decoded] at hsame
  exact (Except.ok.inj hsame).symm

/-- The stamps of a resolver that is reached by its certificate: they have neither key nor
hashes. -/
structure Plain (stamp : ServerStamp) : Prop where
  serverPk : stamp.serverPk = []
  hashes : stamp.hashes = []

/-- The address of a stamp after decoding. -/
def decodedAddr (stamp : ServerStamp) : Bytes :=
  withPort stamp.proto.defaultPort (stripPort stamp.proto.defaultPort stamp.serverAddrStr)

/-- The fields of a stamp fit behind their lengths, and there are not too few bytes. -/
structure Fits (stamp : ServerStamp) : Prop where
  addr : (stripPort stamp.proto.defaultPort stamp.serverAddrStr).length ≤ 255
  providerName : stamp.providerName.length ≤ 255
  path : stamp.path.length ≤ 255
  enough : 10 ≤ (stripPort stamp.proto.defaultPort stamp.serverAddrStr).length +
    stamp.providerName.length +
    stamp.path.length

/-- **Their stamps** are decoded to themselves, with their port. -/
theorem plain_roundTrip (hhas : stamp.proto.hasHashes = true) (hplain : Plain stamp)
    (hfits : Fits stamp) (hpath : stamp.proto ≠ .doH → stamp.path = []) :
    newServerStampFromString (string stamp) = .ok
    { stamp with serverAddrStr := decodedAddr stamp } := by
  obtain ⟨haddr, hname, hpath255, henough⟩ := hfits
  obtain ⟨hpk, hhashes⟩ := hplain
  have hnone : ∀ hash ∈ stamp.hashes, hash ≠ [] := by
    rw [hhashes]
    exact List.forall_mem_nil _
  have hunused : UnusedEmpty stamp := by
    unfold UnusedEmpty
    cases hproto : stamp.proto with
    | plain => rw [hproto] at hhas; cases hhas
    | dnsCrypt => rw [hproto] at hhas; cases hhas
    | doH => exact hpk
    | tls => exact ⟨hpk, hpath (by rw [hproto]; nofun)⟩
    | doQ => exact ⟨hpk, hpath (by rw [hproto]; nofun)⟩
  -- what is written is long enough to be read
  have hlong : stamp.proto.minLength ≤ (bytes stamp).length := by
    have hheader := header_length stamp
    have hzero : (hashFields []).length = 1 := rfl
    have hempty : stamp.proto ≠ .doH → stamp.path.length = 0 := fun hne =>
      congrArg List.length (hpath hne)
    unfold bytes
    rw [hhashes]
    cases hproto : stamp.proto with
    | plain => rw [hproto] at hhas; cases hhas
    | dnsCrypt => rw [hproto] at hhas; cases hhas
    | doH =>
      rw [hproto] at henough
      simp only [lenField, List.length_append, List.length_cons, StampProtoType.minLength]
      omega
    | tls =>
      have hshort := hempty (by rw [hproto]; nofun)
      rw [hproto] at henough
      simp only [lenField, List.length_append, List.length_cons, StampProtoType.minLength]
      omega
    | doQ =>
      have hshort := hempty (by rw [hproto]; nofun)
      rw [hproto] at henough
      simp only [lenField, List.length_append, List.length_cons, StampProtoType.minLength]
      omega
  have hshort : ∀ hash ∈ stamp.hashes, hash.length ≤ 127 := by
    rw [hhashes]
    exact List.forall_mem_nil _
  have hpk255 : stamp.serverPk.length ≤ 255 := by
    rw [hpk]
    exact Nat.zero_le _
  rw [decode_string, newServerStamp_wire
    (wellFormed_sent haddr hpk255 hshort hname hpath255 hunused hlong),
    readStamp_sent_addr hnone, decodedAddr]

end Encoded

section Reencoded

variable {stamp w : ServerStamp} {s : String} {raw : List Bytes} {port : ℕ} {addr : Bytes}

/-- The text is a stamp, and this is what it says. -/
def Carries (s : String) (w : ServerStamp) : Prop :=
  hasPrefix s stampProtocol = true ∧
    Base64.decodeString (.ofList (s.toList.drop stampProtocol.toList.length)) = some
      (wire w) ∧ WellFormed w

/-- How many bytes of empty hashes are dropped: one stays where there is no other hash. -/
def droppedHashes (raw : List Bytes) : ℕ := if raw.all (· = []) then raw.length - 1
    else raw.countP (· = [])

/-- How many bytes of a port are cut off an address that is no IP address. -/
def cutPort (port : ℕ) (addr : Bytes) : ℕ :=
  if ¬ IsIP addr ∧ portText port <:+ addr then (portText port).length else 0

theorem hashFields_length (raw : List Bytes) :
    (hashFields raw).length = max 1 raw.length + raw.flatten.length := by
  induction raw with
  | nil => rfl
  | cons hash raw ih =>
    cases raw with
    | nil =>
      rw [hashFields, List.flatten_singleton, List.length_cons, List.length_singleton]
      omega
    | cons hash' raw =>
      rw [hashFields_cons hash (List.cons_ne_nil _ _), List.length_append, ih,
        @List.flatten_cons _ hash, List.length_append]
      simp only [List.length_cons]
      omega

theorem hashFields_filter_length (raw : List Bytes) :
    (hashFields (raw.filter (· ≠ []))).length + droppedHashes raw = (hashFields raw).length := by
  have hcount : (raw.filter (· ≠ [])).length + raw.countP (· = []) = raw.length := by
    rw [← List.countP_eq_length_filter, Nat.add_comm, List.length_eq_countP_add_countP (· = [])]
    congr 2
    funext hash
    simp
  have hflat : (raw.filter (· ≠ [])).flatten = raw.flatten := List.flatten_filter_ne_nil
  rw [hashFields_length, hashFields_length, hflat, droppedHashes]
  split
  · next hall =>
    have hnone : raw.filter (· ≠ []) = [] := by
      rw [List.filter_eq_nil_iff]
      intro hash hhash
      simpa using List.all_eq_true.1 hall hash hhash
    rw [hnone] at hcount ⊢
    simp only [List.length_nil] at hcount ⊢
    omega
  · next hsome =>
    have hpos : 0 < (raw.filter (· ≠ [])).length := by
      rw [List.length_filter_pos_iff]
      simpa using hsome
    rw [max_eq_right hpos, max_eq_right (by omega : 1 ≤ raw.length), Nat.add_right_comm]
    exact congrArg (· + raw.flatten.length) hcount

theorem addr_length (port : ℕ) (addr : Bytes) :
    (stripPort port (withPort port addr)).length + cutPort port addr = addr.length := by
  unfold cutPort
  by_cases hip : IsIP addr
  · rw [withPort_eq, if_pos hip, stripPort_append, if_neg fun h => h.1 hip, Nat.add_zero]
  · rw [withPort_eq, if_neg hip]
    by_cases hport : portText port <:+ addr
    · rw [if_pos ⟨hip, hport⟩]
      obtain ⟨front, rfl⟩ := hport
      rw [stripPort_append, List.length_append]
    · rw [if_neg fun h => hport h.2, stripPort_of_not hport, Nat.add_zero]

/-- Without the bytes that are dropped, a stamp is as long as it was. -/
theorem reencoded_length (h : WellFormed w) :
    (bytes (readStamp w)).length + (cutPort w.proto.defaultPort w.serverAddrStr +
      droppedHashes w.hashes) =
      (wire w).length := by
  have haddr := addr_length w.proto.defaultPort w.serverAddrStr
  have hhashes := hashFields_filter_length w.hashes
  have hunused := h.unused
  obtain ⟨addr, pk, hashes, name, path, props, proto⟩ := w
  have hheader := header_length (readStamp ⟨addr, pk, hashes, name, path, props, proto⟩)
  have hnone : droppedHashes [] = 0 := rfl
  have hheader' := header_length ⟨addr, pk, hashes, name, path, props, proto⟩
  cases proto with
  | plain =>
    obtain ⟨rfl, rfl, rfl, rfl⟩ : pk = [] ∧ hashes = [] ∧ name = [] ∧ path = [] := hunused
    simp only [bytes, wire, wireFields, readStamp, lenField, List.length_append,
      List.length_cons] at *
    omega
  | dnsCrypt =>
    obtain ⟨rfl, rfl⟩ : hashes = [] ∧ path = [] := hunused
    simp only [bytes, wire, wireFields, readStamp, lenField, List.length_append,
      List.length_cons] at *
    omega
  | doH =>
    simp only [bytes, wire, wireFields, readStamp, lenField, List.length_append,
      List.length_cons] at *
    omega
  | tls =>
    simp only [bytes, wire, wireFields, readStamp, lenField, List.length_append,
      List.length_cons] at *
    omega
  | doQ =>
    simp only [bytes, wire, wireFields, readStamp, lenField, List.length_append,
      List.length_cons] at *
    omega

/-- What the decoder takes is a stamp on the wire. -/
theorem carries_of_ok (h : newServerStampFromString s = .ok stamp) :
    ∃ w, Carries s w ∧ stamp = readStamp w := by
  unfold newServerStampFromString at h
  split at h
  · next hpre =>
    split at h
    · cases h
    · next bin hbin =>
      obtain ⟨w, hw, rfl, rfl⟩ := newServerStamp_iff.1 h
      exact ⟨w, ⟨hpre, hbin, hw⟩, rfl⟩
  · cases h

theorem Carries.decoded (h : Carries s w) : newServerStampFromString s = .ok (readStamp w) := by
  obtain ⟨hpre, hbin, hw⟩ := h
  rw [newServerStampFromString, if_pos hpre, hbin]
  exact newServerStamp_wire hw

/-- Every stamp on the wire has a text. -/
theorem carries_wire (h : WellFormed w) :
    Carries (stampProtocol ++ Base64.encodeToString (wire w)) w := by
  refine ⟨?_, ?_, h⟩
  · rw [hasPrefix_iff, String.toList_append]
    exact List.prefix_append _ _
  · rw [String.toList_append, List.drop_left, String.ofList_toList,
      Base64.decodeString_encodeToString]

theorem unusedEmpty_read (h : UnusedEmpty w) : UnusedEmpty (readStamp w) := by
  obtain ⟨addr, pk, hashes, name, path, props, proto⟩ := w
  cases proto with
  | plain =>
    obtain ⟨rfl, rfl, rfl, rfl⟩ : pk = [] ∧ hashes = [] ∧ name = [] ∧ path = [] := h
    exact ⟨rfl, rfl, rfl, rfl⟩
  | dnsCrypt =>
    obtain ⟨rfl, rfl⟩ : hashes = [] ∧ path = [] := h
    exact ⟨rfl, rfl⟩
  | doH =>
    obtain rfl : pk = [] := h
    exact rfl
  | tls =>
    obtain ⟨rfl, rfl⟩ : pk = [] ∧ path = [] := h
    exact ⟨rfl, rfl⟩
  | doQ =>
    obtain ⟨rfl, rfl⟩ : pk = [] ∧ path = [] := h
    exact ⟨rfl, rfl⟩

theorem wellFormed_sent_read (h : WellFormed w)
    (henough : w.proto.minLength ≤ (bytes (readStamp w)).length) :
    WellFormed (sentStamp (readStamp w)) := by
  have haddr :
      (stripPort w.proto.defaultPort (withPort w.proto.defaultPort w.serverAddrStr)).length ≤
      255 := by
    have hlen := addr_length w.proto.defaultPort w.serverAddrStr
    have hshort := h.addr
    omega
  obtain ⟨-, hpk, hhashes, -, hname, hpath, hunused, -⟩ := h
  obtain ⟨addr, pk, hashes, name, path, props, proto⟩ := w
  refine wellFormed_sent haddr hpk (fun hash hhash => ?_) hname hpath
    (unusedEmpty_read hunused) henough
  exact hhashes hash (List.mem_of_mem_filter hhash)

/-- **Which stamps are stable**: those whose address does not lose its port, as long as enough bytes
are left without what is dropped. -/
theorem reencoded_iff (s : String) :
    (∀ S, newServerStampFromString s = .ok S → ∃ w, Carries s w) ∧
      ∀ w, Carries s w → ∃ S, newServerStampFromString s = .ok S ∧
        (newServerStampFromString (string S) = .ok S ↔
          ¬ LosesPort w.proto.defaultPort w.serverAddrStr ∧
            w.proto.minLength + (cutPort w.proto.defaultPort w.serverAddrStr +
              droppedHashes w.hashes) ≤
              (wire w).length) := by
  refine ⟨fun S hS => ?_, fun w h => ⟨readStamp w, h.decoded, ?_⟩⟩
  · obtain ⟨w, hw, -⟩ := carries_of_ok hS
    exact ⟨w, hw⟩
  have hw := h.2.2
  have hlength := reencoded_length hw
  have hhashes : ∀ hash ∈ (readStamp w).hashes, hash ≠ [] := by
    intro hash hhash
    simpa using List.of_mem_filter hhash
  -- what is sent again is read as the same stamp if its address is
  have hstable : withPort w.proto.defaultPort
    (stripPort w.proto.defaultPort (withPort w.proto.defaultPort w.serverAddrStr)) =
      withPort w.proto.defaultPort w.serverAddrStr ↔
        readStamp (sentStamp (readStamp w)) = readStamp w := by
    constructor
    · intro haddr
      refine readStamp_sent ?_ hhashes
      rwa [readStamp_addr, readStamp_proto]
    · intro hsame
      have haddr := congrArg ServerStamp.serverAddrStr hsame
      rwa [readStamp_addr, sentStamp_addr, sentStamp_proto, readStamp_addr,
        readStamp_proto] at haddr
  rw [← withPort_stable, hstable, decode_string]
  -- and it is read at all if it is long enough
  by_cases henough : w.proto.minLength ≤ (bytes (readStamp w)).length
  · rw [newServerStamp_wire (wellFormed_sent_read hw henough), Except.ok.injEq]
    exact (and_iff_left (by omega)).symm
  · refine iff_of_false (fun hdecoded => ?_) fun hlong => henough (by omega)
    obtain ⟨w', hw', hwire, hsame⟩ := newServerStamp_iff.1 hdecoded
    refine henough ?_
    have hproto := congrArg ServerStamp.proto hsame
    rw [readStamp_proto, readStamp_proto] at hproto
    rw [bytes_eq, hwire, hproto]
    exact hw'.enough

end Reencoded

section Examples

/-- A stamp of a DoH server with an IPv6 address, a port and the hash of its certificate. -/
def hashedStamp : ServerStamp where
  proto := .doH
  serverAddrStr := encode "[::1]:8443"
  hashes := [List.replicate 32 7]
  providerName := encode "dns.example.net"
  path := encode "/dns-query"

theorem canonical_hashed : Canonical hashedStamp where
  addr := ⟨"::1",
    "8443", by
      decide +kernel, by decide, List.all_eq_true.1 (by decide), .inr ⟨by decide, by decide⟩⟩
  addr_short := by decide
  serverPk := by decide
  hashes := by decide
  providerName := by decide
  path := by decide
  unused := rfl
  enough := by decide

theorem stamps_round_trip_hashed : newServerStampFromString (string hashedStamp) = .ok hashedStamp ∧
    ∀ other, Canonical other → string other = string hashedStamp → other = hashedStamp :=
  stamps_round_trip canonical_hashed

/-- A DoH stamp with a host name and the default port. -/
def namedStamp : ServerStamp where
  proto := .doH
  serverAddrStr := encode "dns.example.net:443"
  hashes := [[]]
  providerName := encode "dns.example.net"
  path := encode "/dns-query"

theorem wellFormed_named : WellFormed namedStamp where
  addr := by decide
  serverPk := by decide
  hashes := by decide
  hashes_ne := by decide
  providerName := by decide
  path := by decide
  unused := rfl
  enough := by decide

theorem reencoded_iff_named :
    ∃ S, newServerStampFromString (stampProtocol ++ Base64.encodeToString (wire namedStamp)) =
    .ok S ∧
    (newServerStampFromString (string S) = .ok S ↔
      ¬ LosesPort 443 namedStamp.serverAddrStr ∧
        22 + (cutPort 443 namedStamp.serverAddrStr + droppedHashes namedStamp.hashes) ≤
          (wire namedStamp).length) :=
  (reencoded_iff _).2 namedStamp (carries_wire wellFormed_named)

/-- The port of a host name is lost. -/
theorem hostPort_lost :
    ∃ s S, newServerStampFromString s = .ok S ∧ newServerStampFromString (string S) ≠ .ok S := by
  refine ⟨_, _, (carries_wire wellFormed_named).decoded, ?_⟩
  rw [decode_string]
  decide +kernel

end Examples

end ModDNS.Libs.DnsStamps
