import ModDNS.Libs.Overhang

/-!
# Stamp fields that are too long for their length byte

A length byte says at most 255, of a hash at most 127, and the whole field is written behind it.
What is too much is read as the fields that follow.

* `prefix_of_field`: where the lengths of two fields agree, the shorter one is a cut of the other.
* `fields_rest`: behind an address and hashes that fit, no later field can be too long and the stamp
  be accepted.
* `decoded_iff`: a stamp is read with its long fields cut exactly if no field is too long, or if
  what is too much happens to read as hashes.
* `truncated_iff`: of its fields, with hashes that fit: no field is too long, or each byte that is
  too much of the address is the length of an empty hash.
-/

namespace ModDNS.Libs.DnsStamps

open Go

section Statement

/-- The stamp with each field cut to what its length byte can say. -/
def truncated (stamp : ServerStamp) : ServerStamp :=
  { stamp with
    serverAddrStr := stamp.serverAddrStr.take 255
    serverPk := stamp.serverPk.take 255
    hashes := stamp.hashes.map (·.take 127)
    providerName := stamp.providerName.take 255
    path := stamp.path.take 255 }

/-- The fields that stand before the provider name fit. -/
structure FrontFits (stamp : ServerStamp) : Prop where
  addr : (stripPort stamp.proto.defaultPort stamp.serverAddrStr).length ≤ 255
  hashes : ∀ hash ∈ stamp.hashes, hash.length ≤ 127

/-- No field is too long. -/
structure FieldsFit (stamp : ServerStamp) : Prop extends FrontFits stamp where
  serverPk : stamp.serverPk.length ≤ 255
  providerName : stamp.providerName.length ≤ 255
  path : stamp.path.length ≤ 255

/-- The stamp that is sent, cut, with other hashes. -/
def cutStamp (stamp : ServerStamp) (raw : List Bytes) : ServerStamp :=
  { truncated stamp with
    serverAddrStr := (stripPort stamp.proto.defaultPort stamp.serverAddrStr).take 255
    hashes := raw }

/-- What is too much reads as empty hashes: the bytes are also those of the cut stamp, with empty
hashes among its own. -/
def ReadsAsHashes (stamp : ServerStamp) : Prop :=
  stamp.proto.hasHashes = true ∧ ¬ FrontFits stamp ∧ ∃ raw, raw ≠ [] ∧
    raw.filter (· ≠ []) = stamp.hashes.map (·.take 127) ∧
    bytes stamp = wire (cutStamp stamp raw)

/-- The stamp is one that the decoder could answer: an address with its port, or a name, no empty
hash, and nothing in the fields that the protocol does not have. -/
structure Readable (stamp : ServerStamp) : Prop where
  addr : withPort stamp.proto.defaultPort
    ((stripPort stamp.proto.defaultPort stamp.serverAddrStr).take 255) =
    stamp.serverAddrStr.take 255
  hashes : ∀ hash ∈ stamp.hashes, hash ≠ []
  unused : UnusedEmpty stamp
  enough : stamp.proto.minLength ≤ (bytes stamp).length

/-- The address comes back, cut: it is an IP address with the default port, or, cut, none. -/
def AddrReads (port : ℕ) (addr : Bytes) : Prop :=
  if portText port <:+ addr ∧ addr.length < 255 + (portText port).length then
    IsIP (addr.take (addr.length - (portText port).length)) ∧ addr.length ≤ 255
  else ¬ IsIP (addr.take 255)

/-- The bytes that the fields take up behind the header. -/
def fieldsLength (stamp : ServerStamp) : ℕ :=
  let addr := (stripPort stamp.proto.defaultPort stamp.serverAddrStr).length + 1
  let hashes := max 1 stamp.hashes.length + stamp.hashes.flatten.length
  match stamp.proto with
  | .plain => addr
  | .dnsCrypt => addr + (stamp.serverPk.length + 1) + (stamp.providerName.length + 1)
  | .doH => addr + hashes + (stamp.providerName.length + 1) + (stamp.path.length + 1)
  | .tls | .doQ => addr + hashes + (stamp.providerName.length + 1)

/-- **The fields are read right**, cut: they fit, apart from an address of which each byte that is
too much is the length of an empty hash. Its default port does not count, and comes back; and there
is nothing that the decoder drops or refuses. -/
structure FieldsRead (stamp : ServerStamp) : Prop where
  addr : AddrReads stamp.proto.defaultPort stamp.serverAddrStr
  overhang : ∀ b ∈ (stripPort stamp.proto.defaultPort stamp.serverAddrStr).drop 255,
    stamp.proto.hasHashes = true ∧ b = 0x80
  hashes : ∀ hash ∈ stamp.hashes, hash ≠ [] ∧ hash.length ≤ 127
  serverPk : stamp.serverPk.length ≤ 255
  providerName : stamp.providerName.length ≤ 255
  path : stamp.path.length ≤ 255
  unused : UnusedEmpty stamp
  enough : stamp.proto.minLength ≤ 9 + fieldsLength stamp

end Statement

section Fields

variable {v v' bs bs' : Bytes} {w stamp : ServerStamp} {raw raw' : List Bytes}

theorem lenByte_min (v : Bytes) : (lenByte v).toNat = min v.length 255 := by
  unfold lenByte
  exact Nat.mod_eq_of_lt (by omega)

/-- Where the bytes are the same, so are the fields, up to the cut. -/
theorem prefix_of_field (hv' : v'.length ≤ 255) (h : lenField v ++ bs = lenField v' ++ bs') :
    v' = v.take 255 ∧ v'.length = min v.length 255 := by
  obtain ⟨hbyte, hrest⟩ : lenByte v = lenByte v' ∧ v ++ bs = v' ++ bs' := List.cons.inj h
  have hlen : v'.length = min v.length 255 := by
    rw [← lenByte_min, hbyte, lenByte_toNat hv']
  have htake := congrArg (List.take v'.length) hrest
  rw [List.take_left, hlen, List.take_append_of_le_length (min_le_left _ _)] at htake
  refine ⟨?_, hlen⟩
  rw [← htake, List.take_eq_take_iff]
  omega

theorem field_inj (hv : v.length ≤ 255) (hv' : v'.length ≤ 255)
    (h : lenField v ++ bs = lenField v' ++ bs') :
    v' = v ∧ bs = bs' := by
  obtain ⟨hcut, -⟩ := prefix_of_field hv' h
  rw [List.take_of_length_le hv] at hcut
  subst hcut
  exact ⟨rfl, List.append_cancel_left h⟩

/-- Lists of hashes that fit end at the same place. -/
theorem hashes_rest (hne : raw ≠ []) (hraw : ∀ hash ∈ raw, hash.length ≤ 127) (hne' : raw' ≠ [])
    (hraw' : ∀ hash ∈ raw', hash.length ≤ 127) (hbs : bs ≠ []) (hbs' : bs' ≠ [])
    (h : hashFields raw ++ bs = hashFields raw' ++ bs') : bs = bs' := by
  have hread := readHashes_wire hne hraw hbs
  rw [h, readHashes_wire hne' hraw' hbs'] at hread
  exact (Prod.mk.inj (Except.ok.inj hread)).2.symm

theorem wireFields_addr (w : ServerStamp) :
    ∃ rest, wireFields w = lenField w.serverAddrStr ++ rest := by
  unfold wireFields
  cases w.proto with
  | plain => exact ⟨[], (List.append_nil _).symm⟩
  | _ => exact ⟨_, rfl⟩

theorem wireFields_eq {w w' : ServerStamp} (h : wire w = wire w') :
    wireFields w = wireFields w' := by
  rw [← drop_wire, h, drop_wire]

end Fields

section Read

variable {w stamp : ServerStamp} {raw : List Bytes}

theorem take_nil {α : Type} {l : List α} {n : ℕ} (h : l.take (n + 1) = []) : l = [] := by
  cases l with
  | nil => rfl
  | cons a l => cases h

/-- What a stamp on the wire and the cut stamp that it is read as have in common. -/
structure ReadAs (w stamp : ServerStamp) : Prop where
  proto : w.proto = stamp.proto
  props : w.props = stamp.props
  addr : withPort stamp.proto.defaultPort w.serverAddrStr = stamp.serverAddrStr.take 255
  serverPk : w.serverPk = stamp.serverPk.take 255
  hashes : w.hashes.filter (· ≠ []) = stamp.hashes.map (·.take 127)
  providerName : w.providerName = stamp.providerName.take 255
  path : w.path = stamp.path.take 255

theorem readAs_iff : readStamp w = truncated stamp ↔ ReadAs w stamp := by
  obtain ⟨addr, pk, hashes, name, path, props, proto⟩ := w
  obtain ⟨addr', pk', hashes', name', path', props', proto'⟩ := stamp
  unfold readStamp truncated
  rw [ServerStamp.mk.injEq]
  constructor
  · rintro ⟨haddr, hpk, hhashes, hname, hpath, hprops, hproto⟩
    dsimp only at haddr hpk hhashes hname hpath hprops hproto
    subst hproto
    exact ⟨rfl, hprops, haddr, hpk, hhashes, hname, hpath⟩
  · rintro ⟨hproto, hprops, haddr, hpk, hhashes, hname, hpath⟩
    dsimp only at haddr hpk hhashes hname hpath hprops hproto
    subst hproto
    exact ⟨haddr, hpk, hhashes, hname, hpath, hprops, rfl⟩

theorem ReadAs.unused (h : ReadAs w stamp) (hw : UnusedEmpty w) : UnusedEmpty stamp := by
  have hhashes : w.hashes = [] → stamp.hashes = [] := by
    intro hnone
    have hfilter := h.hashes
    rw [hnone] at hfilter
    exact List.map_eq_nil_iff.1 hfilter.symm
  have hpk : w.serverPk = [] → stamp.serverPk = [] := fun hnone =>
    take_nil (h.serverPk.symm.trans hnone)
  have hname : w.providerName = [] → stamp.providerName = [] := fun hnone =>
    take_nil (h.providerName.symm.trans hnone)
  have hpath : w.path = [] → stamp.path = [] := fun hnone => take_nil (h.path.symm.trans hnone)
  unfold UnusedEmpty at hw ⊢
  rw [h.proto] at hw
  cases hproto : stamp.proto with
  | plain =>
    rw [hproto] at hw
    exact ⟨hpk hw.1, hhashes hw.2.1, hname hw.2.2.1, hpath hw.2.2.2⟩
  | dnsCrypt =>
    rw [hproto] at hw
    exact ⟨hhashes hw.1, hpath hw.2⟩
  | doH =>
    rw [hproto] at hw
    exact hpk hw
  | tls =>
    rw [hproto] at hw
    exact ⟨hpk hw.1, hpath hw.2⟩
  | doQ =>
    rw [hproto] at hw
    exact ⟨hpk hw.1, hpath hw.2⟩

/-- The address on the wire is the one that is sent, up to the cut. -/
theorem addr_on_wire (hw : WellFormed w) (hbytes : bytes stamp = wire w) :
    w.serverAddrStr = (stripPort stamp.proto.defaultPort stamp.serverAddrStr).take 255 ∧
      w.serverAddrStr.length = min
        (stripPort stamp.proto.defaultPort stamp.serverAddrStr).length 255 := by
  rw [bytes_eq] at hbytes
  have hfields := wireFields_eq hbytes
  obtain ⟨rest, hrest⟩ := wireFields_addr (sentStamp stamp)
  obtain ⟨rest', hrest'⟩ := wireFields_addr w
  rw [hrest, hrest', sentStamp_addr] at hfields
  exact prefix_of_field hw.addr hfields

theorem ReadAs.readable (h : ReadAs w stamp) (hw : WellFormed w) (hbytes : bytes stamp = wire w) :
    Readable stamp where
  addr := by rw [← (addr_on_wire hw hbytes).1, h.addr]
  hashes := by
    rintro hash hhash rfl
    have hmem : [] ∈ stamp.hashes.map (·.take 127) := List.mem_map.2 ⟨[], hhash, rfl⟩
    rw [← h.hashes] at hmem
    have hne := List.of_mem_filter hmem
    simp at hne
  unused := h.unused hw.unused
  enough := by
    rw [hbytes, ← h.proto]
    exact hw.enough

theorem lenField_length (v : Bytes) : (lenField v).length = v.length + 1 := rfl

/-- The lengths of fields that are read without a slack are those of the fields that are written. -/
theorem ReadAs.lengths (h : ReadAs w stamp) : w.serverPk.length = min 255 stamp.serverPk.length ∧
    w.providerName.length = min 255 stamp.providerName.length ∧
      w.path.length = min 255 stamp.path.length := by
  rw [h.serverPk, h.providerName, h.path]
  exact ⟨List.length_take, List.length_take, List.length_take⟩

/-- Behind an address and hashes that fit, both sides go on at the same place. -/
theorem fields_rest (hw : WellFormed w) (hfront : FrontFits stamp)
    (hhas : stamp.proto.hasHashes = true) (hproto : w.proto = stamp.proto) {rest rest' : Bytes}
    (hrest : rest ≠ []) (hrest' : rest' ≠ [])
    (hfields : lenField (sentStamp stamp).serverAddrStr ++
      (hashFields (sentStamp stamp).hashes ++ rest) =
      lenField w.serverAddrStr ++ (hashFields w.hashes ++ rest')) : rest = rest' := by
  have hsent : (sentStamp stamp).hashes ≠ [] ∧ ∀ hash ∈ (sentStamp stamp).hashes,
      hash.length ≤ 127 := by
    unfold sentStamp
    dsimp only
    by_cases hnone : stamp.hashes = []
    · rw [if_pos ⟨hhas, hnone⟩]
      exact ⟨List.cons_ne_nil _ _, List.forall_mem_singleton.2 (Nat.zero_le _)⟩
    · rw [if_neg fun hboth => hnone hboth.2]
      exact ⟨hnone, hfront.hashes⟩
  have haddr : (sentStamp stamp).serverAddrStr.length ≤ 255 := by
    rw [sentStamp_addr]
    exact hfront.addr
  obtain ⟨-, hbehind⟩ := field_inj haddr hw.addr hfields
  exact hashes_rest hsent.1 hsent.2 (hw.hashes_ne (by rw [hproto]; exact hhas)) hw.hashes hrest
    hrest' hbehind

/-- Behind the hashes there is a name only. -/
theorem ReadAs.fits_name (h : ReadAs w stamp) (hw : WellFormed w) (hfront : FrontFits stamp)
    (hhas : stamp.proto.hasHashes = true) (hunused : stamp.serverPk = [] ∧ stamp.path = [])
    (hfields : lenField (sentStamp stamp).serverAddrStr ++
      (hashFields (sentStamp stamp).hashes ++ lenField stamp.providerName) =
      lenField w.serverAddrStr ++ (hashFields w.hashes ++ lenField w.providerName)) :
      FieldsFit stamp := by
  have hrest := fields_rest hw hfront hhas h.proto (lenField_ne_nil _) (lenField_ne_nil _) hfields
  have hlen := congrArg List.length hrest
  have hname := h.lengths.2.1
  rw [lenField_length, lenField_length] at hlen
  refine ⟨hfront, ?_, by omega, ?_⟩
  · rw [hunused.1]
    exact Nat.zero_le _
  · rw [hunused.2]
    exact Nat.zero_le _

/-- **A field that is too long is not read**: nothing but hashes takes up what is too much. -/
theorem ReadAs.fits (h : ReadAs w stamp) (hw : WellFormed w) (hbytes : bytes stamp = wire w)
    (hfront : stamp.proto.hasHashes = true → FrontFits stamp) : FieldsFit stamp := by
  have hunused := h.unused hw.unused
  obtain ⟨haddr, haddrlen⟩ := addr_on_wire hw hbytes
  obtain ⟨hpk, hname, hpath⟩ := h.lengths
  rw [bytes_eq] at hbytes
  -- the fields written are those of what is read, byte for byte
  have hfields := wireFields_eq hbytes
  have hsentaddr := sentStamp_addr stamp
  unfold UnusedEmpty at hunused
  unfold wireFields at hfields
  rw [sentStamp_proto, sentStamp_pk, sentStamp_name, sentStamp_path, h.proto] at hfields
  -- equal lengths bound each field; the hashes have to be taken off first
  cases hproto : stamp.proto with
  | plain =>
    rw [hproto] at hunused hfields
    dsimp only at hunused hfields
    obtain ⟨hpk0, hhashes0, hname0, hpath0⟩ := hunused
    have hlen := congrArg List.length hfields
    rw [lenField_length, lenField_length, hsentaddr] at hlen
    refine ⟨⟨by omega, ?_⟩, ?_, ?_, ?_⟩
    · rw [hhashes0]
      exact List.forall_mem_nil _
    · rw [hpk0]
      exact Nat.zero_le _
    · rw [hname0]
      exact Nat.zero_le _
    · rw [hpath0]
      exact Nat.zero_le _
  | dnsCrypt =>
    rw [hproto] at hunused hfields
    dsimp only at hunused hfields
    obtain ⟨hhashes0, hpath0⟩ := hunused
    have hlen := congrArg List.length hfields
    simp only [List.length_append, lenField_length, hsentaddr] at hlen
    refine ⟨⟨by omega, ?_⟩, by omega, by omega, ?_⟩
    · rw [hhashes0]
      exact List.forall_mem_nil _
    · rw [hpath0]
      exact Nat.zero_le _
  | doH =>
    have hhas : stamp.proto.hasHashes = true := by
      rw [hproto]
      rfl
    rw [hproto] at hunused hfields
    dsimp only at hunused hfields
    have hrest :=
      fields_rest hw (hfront hhas) hhas h.proto
        (List.append_ne_nil_of_left_ne_nil (lenField_ne_nil _) _)
      (List.append_ne_nil_of_left_ne_nil (lenField_ne_nil _) _) hfields
    have hlen := congrArg List.length hrest
    simp only [List.length_append, lenField_length] at hlen
    refine ⟨hfront hhas, ?_, by omega, by omega⟩
    rw [hunused]
    exact Nat.zero_le _
  | tls =>
    have hhas : stamp.proto.hasHashes = true := by
      rw [hproto]
      rfl
    rw [hproto] at hunused hfields
    dsimp only at hunused hfields
    exact h.fits_name hw (hfront hhas) hhas hunused hfields
  | doQ =>
    have hhas : stamp.proto.hasHashes = true := by
      rw [hproto]
      rfl
    rw [hproto] at hunused hfields
    dsimp only at hunused hfields
    exact h.fits_name hw (hfront hhas) hhas hunused hfields

/-- What stands on the wire is the cut stamp, with the hashes that are read. -/
theorem ReadAs.cut (h : ReadAs w stamp) (hw : WellFormed w) (hbytes : bytes stamp = wire w) :
    w = cutStamp stamp w.hashes := by
  obtain ⟨haddr, -⟩ := addr_on_wire hw hbytes
  obtain ⟨hproto, hprops, -, hpk, -, hname, hpath⟩ := h
  obtain ⟨addr, pk, hashes, name, path, props, proto⟩ := w
  dsimp only at haddr hproto hprops hpk hname hpath
  rw [haddr, hproto, hprops, hpk, hname, hpath]
  rfl

theorem FieldsFit.readAs (h : FieldsFit stamp) (hread : Readable stamp) :
    ReadAs (sentStamp stamp) stamp where
  proto := sentStamp_proto stamp
  props := sentStamp_props stamp
  addr := by rw [sentStamp_addr, ← hread.addr, List.take_of_length_le h.addr]
  serverPk := by rw [sentStamp_pk, List.take_of_length_le h.serverPk]
  hashes := by
    have hcut : stamp.hashes.map (·.take 127) = stamp.hashes :=
      (List.map_congr_left fun hash hhash => List.take_of_length_le (h.hashes hash hhash)).trans
        (List.map_id _)
    rw [filter_sent hread.hashes, hcut]
  providerName := by rw [sentStamp_name, List.take_of_length_le h.providerName]
  path := by rw [sentStamp_path, List.take_of_length_le h.path]

theorem cut_proto (stamp : ServerStamp) (raw : List Bytes) :
    (cutStamp stamp raw).proto = stamp.proto := by
  simp only [cutStamp, truncated]

theorem cut_addr (stamp : ServerStamp) (raw : List Bytes) : (cutStamp stamp raw).serverAddrStr =
    (stripPort stamp.proto.defaultPort stamp.serverAddrStr).take 255 := by simp only [cutStamp]

theorem cut_readAs (hread : Readable stamp)
    (hraw : raw.filter (· ≠ []) = stamp.hashes.map (·.take 127)) :
    ReadAs (cutStamp stamp raw) stamp where
  proto := cut_proto stamp raw
  props := by simp only [cutStamp, truncated]
  addr := by
    rw [cut_addr]
    exact hread.addr
  serverPk := by simp only [cutStamp, truncated]
  hashes := by
    simp only [cutStamp]
    exact hraw
  providerName := by simp only [cutStamp, truncated]
  path := by simp only [cutStamp, truncated]

theorem cut_wellFormed (hread : Readable stamp) (hne : raw ≠ [])
    (hraw : raw.filter (· ≠ []) = stamp.hashes.map (·.take 127))
    (hhas : stamp.proto.hasHashes = true) (hbytes : bytes stamp = wire (cutStamp stamp raw)) :
    WellFormed (cutStamp stamp raw) where
  addr := by
    rw [cut_addr]
    exact List.length_take_le _ _
  serverPk := List.length_take_le _ _
  hashes := by
    intro hash hhash
    by_cases hempty : hash = []
    · rw [hempty]
      exact Nat.zero_le _
    · have hmem : hash ∈ raw.filter (· ≠ []) := List.mem_filter.2 ⟨hhash, decide_eq_true hempty⟩
      rw [hraw] at hmem
      obtain ⟨long, -, rfl⟩ := List.mem_map.1 hmem
      exact List.length_take_le _ _
  hashes_ne := fun _ => hne
  providerName := List.length_take_le _ _
  path := List.length_take_le _ _
  unused := by
    have hunused := hread.unused
    unfold UnusedEmpty at hunused ⊢
    cases hproto : stamp.proto with
    | plain => rw [hproto] at hhas; cases hhas
    | dnsCrypt => rw [hproto] at hhas; cases hhas
    | doH =>
      rw [hproto] at hunused
      simp only [cutStamp, truncated, hproto, hunused, List.take_nil]
    | tls =>
      rw [hproto] at hunused
      simp only [cutStamp, truncated, hproto, hunused.1, hunused.2, List.take_nil, and_self]
    | doQ =>
      rw [hproto] at hunused
      simp only [cutStamp, truncated, hproto, hunused.1, hunused.2, List.take_nil, and_self]
  enough := by
    rw [← hbytes, cut_proto]
    exact hread.enough

/-- **A stamp is read with its long fields cut** exactly if it is one that the decoder could answer
and no field is too long, but for the coincidence that what is too much reads as empty hashes. -/
theorem decoded_iff (stamp : ServerStamp) :
    newServerStampFromString (string stamp) = .ok (truncated stamp) ↔
    Readable stamp ∧ (FieldsFit stamp ∨ ReadsAsHashes stamp) := by
  rw [newServerStampFromString_string]
  constructor
  · intro hdecoded
    obtain ⟨w, hw, hbytes, hread⟩ := newServerStamp_iff.1 hdecoded
    have h := readAs_iff.1 hread.symm
    refine ⟨h.readable hw hbytes, ?_⟩
    by_cases hfront : stamp.proto.hasHashes = true → FrontFits stamp
    · exact .inl (h.fits hw hbytes hfront)
    · obtain ⟨hhas, hlong⟩ := Classical.not_imp.1 hfront
      refine .inr ⟨hhas, hlong, w.hashes, hw.hashes_ne (by rw [h.proto]; exact hhas), h.hashes, ?_⟩
      rw [hbytes, ← h.cut hw hbytes]
  · rintro ⟨hread, hfits | ⟨hhas, -, raw, hne, hraw, hbytes⟩⟩
    · have hw :=
        wellFormed_sent hfits.addr hfits.serverPk hfits.hashes hfits.providerName hfits.path
          hread.unused hread.enough
      rw [bytes_eq, newServerStamp_wire hw]
      exact congrArg Except.ok (readAs_iff.2 (hfits.readAs hread))
    · rw [hbytes, newServerStamp_wire (cut_wellFormed hread hne hraw hhas hbytes)]
      exact congrArg Except.ok (readAs_iff.2 (cut_readAs hread hraw))

end Read

section Overhang

variable {stamp : ServerStamp} {raw : List Bytes} {port : ℕ} {addr : Bytes}

theorem withPort_iff : withPort port addr = addr ↔ ¬ IsIP addr := by
  rw [withPort_eq]
  split
  · next hip =>
    refine iff_of_false (fun heq => ?_) (not_not.2 hip)
    have hlengths := congrArg List.length heq
    rw [List.length_append, portText, encode_port, List.length_cons] at hlengths
    omega
  · next hip => exact iff_of_true rfl hip

/-- **Which addresses come back**, cut. -/
theorem addrReads_iff :
    withPort port ((stripPort port addr).take 255) = addr.take 255 ↔ AddrReads port addr := by
  unfold AddrReads
  by_cases hport : portText port <:+ addr
  · obtain ⟨front, rfl⟩ := hport
    have hlengths : (front ++ portText port).length = front.length + (portText port).length :=
      List.length_append
    have hpos : 0 < (portText port).length := by
      rw [portText, encode_port]
      exact Nat.succ_pos _
    rw [stripPort_append]
    by_cases hshort : front.length < 255
    · rw [if_pos ⟨List.suffix_append _ _, by omega⟩,
        List.take_of_length_le (Nat.le_of_lt hshort), withPort_eq]
      have hfront : (front ++ portText port).take
          ((front ++ portText port).length - (portText port).length) = front := by
        rw [hlengths, Nat.add_sub_cancel, List.take_left]
      rw [hfront]
      split
      · next hip =>
        exact ⟨fun heq => ⟨hip, List.take_eq_self_iff _ |>.1 heq.symm⟩,
          fun h => (List.take_of_length_le h.2).symm⟩
      · next hip =>
        refine iff_of_false (fun heq => ?_) fun h => hip h.1
        have hcut := congrArg List.length heq
        rw [List.length_take, hlengths] at hcut
        omega
    · rw [if_neg fun h => by omega, List.take_append_of_le_length (by omega)]
      exact withPort_iff
  · rw [if_neg fun h => hport h.1, stripPort_of_not hport]
    exact withPort_iff

theorem bytes_length (stamp : ServerStamp) : (bytes stamp).length = 9 + fieldsLength stamp := by
  have hheader := header_length stamp
  have hhashes := hashFields_length stamp.hashes
  unfold bytes fieldsLength
  cases stamp.proto with
  | _ =>
    simp only [lenField, List.length_append, List.length_cons]
    omega

theorem readable_iff : Readable stamp ↔ AddrReads stamp.proto.defaultPort stamp.serverAddrStr ∧
    (∀ hash ∈ stamp.hashes, hash ≠ []) ∧ UnusedEmpty stamp ∧
      stamp.proto.minLength ≤ 9 + fieldsLength stamp := by
  rw [← addrReads_iff, ← bytes_length]
  exact ⟨fun h => ⟨h.addr, h.hashes, h.unused, h.enough⟩, fun ⟨haddr, hhashes, hunused, henough⟩ =>
    ⟨haddr, hhashes, hunused, henough⟩⟩

/-- The fields behind the hashes. -/
def tailFields (w : ServerStamp) : Bytes :=
  if w.proto = .doH then lenField w.providerName ++ lenField w.path else lenField w.providerName

theorem wireFields_hashes {w : ServerStamp} (h : w.proto.hasHashes = true) :
    wireFields w = lenField w.serverAddrStr ++ (hashFields w.hashes ++ tailFields w) := by
  unfold wireFields tailFields
  cases hproto : w.proto with
  | plain => rw [hproto] at h; cases h
  | dnsCrypt => rw [hproto] at h; cases h
  | doH => rw [if_pos rfl]
  | tls => rw [if_neg (by decide)]
  | doQ => rw [if_neg (by decide)]

/-- The cut tail is as long as the tail only if nothing of it is cut. -/
theorem tailFields_length (hunused : UnusedEmpty stamp) (hhas : stamp.proto.hasHashes = true) :
    (tailFields (cutStamp stamp raw)).length ≤ (tailFields stamp).length ∧
      ((tailFields (cutStamp stamp raw)).length = (tailFields stamp).length ↔
        stamp.providerName.length ≤ 255 ∧ stamp.path.length ≤ 255) := by
  have hname : (cutStamp stamp raw).providerName = stamp.providerName.take 255 := by
    simp only [cutStamp, truncated]
  have hpath : (cutStamp stamp raw).path = stamp.path.take 255 := by simp only [cutStamp, truncated]
  unfold tailFields
  rw [cut_proto, hname, hpath]
  unfold UnusedEmpty at hunused
  cases hproto : stamp.proto with
  | plain => rw [hproto] at hhas; cases hhas
  | dnsCrypt => rw [hproto] at hhas; cases hhas
  | doH =>
    rw [if_pos rfl, if_pos rfl]
    simp only [List.length_append, lenField_length, List.length_take]
    omega
  | tls =>
    rw [hproto] at hunused
    rw [if_neg (by decide), if_neg (by decide), hunused.2]
    simp only [lenField_length, List.length_take, List.length_nil]
    omega
  | doQ =>
    rw [hproto] at hunused
    rw [if_neg (by decide), if_neg (by decide), hunused.2]
    simp only [lenField_length, List.length_take, List.length_nil]
    omega

/-- What the wire says of a stamp and of the cut one, from the end of the address on. -/
theorem bytes_cut_iff (hhas : stamp.proto.hasHashes = true) :
    bytes stamp = wire (cutStamp stamp raw) ↔
    (stripPort stamp.proto.defaultPort stamp.serverAddrStr).drop 255 ++ hashFields stamp.hashes ++
    tailFields stamp =
      hashFields raw ++ tailFields (cutStamp stamp raw) := by
  have hhas' : (cutStamp stamp raw).proto.hasHashes = true := by rw [cut_proto, hhas]
  have hheader : header (cutStamp stamp raw) = header stamp := by
    simp only [header, cutStamp, truncated]
  have hheader' : header (sentStamp stamp) = header stamp := by simp only [header, sentStamp]
  have hhashes : hashFields (sentStamp stamp).hashes = hashFields stamp.hashes := by
    have hsent : (sentStamp stamp).hashes = if stamp.hashes = [] then [[]] else stamp.hashes := by
      simp only [sentStamp, hhas, true_and]
    rw [hsent, hashFields_sent]
  have htail : tailFields (sentStamp stamp) = tailFields stamp := by
    unfold tailFields
    rw [sentStamp_proto, sentStamp_name, sentStamp_path]
  have hraw : (cutStamp stamp raw).hashes = raw := by simp only [cutStamp]
  generalize haddr : stripPort stamp.proto.defaultPort stamp.serverAddrStr = addr
  have hbyte : lenByte (addr.take 255) = lenByte addr := by
    unfold lenByte
    rw [List.length_take]
    congr 1
    omega
  rw [bytes_eq, wire, wire, hheader, hheader', List.append_cancel_left_eq,
    wireFields_hashes (by rw [sentStamp_proto, hhas]),
    wireFields_hashes hhas', sentStamp_addr, cut_addr, haddr, hhashes, htail, hraw, lenField,
    lenField, hbyte,
    List.cons_append, List.cons_append, List.cons.injEq, and_iff_right rfl]
  nth_rewrite 1 [← List.take_append_drop 255 addr]
  rw [List.append_assoc, List.append_cancel_left_eq, List.append_assoc]

/-- **What is too much of the address** is read as hashes only if each byte of it is the length of
an empty hash, and no other field is too long. -/
theorem readsAsHashes_iff (hhashes : ∀ hash ∈ stamp.hashes, hash ≠ [] ∧ hash.length ≤ 127)
    (hunused : UnusedEmpty stamp) :
    ReadsAsHashes stamp ↔ stamp.proto.hasHashes = true ∧
      255 < (stripPort stamp.proto.defaultPort stamp.serverAddrStr).length ∧
      (∀ b ∈ (stripPort stamp.proto.defaultPort stamp.serverAddrStr).drop 255, b = 0x80) ∧
      stamp.providerName.length ≤ 255 ∧ stamp.path.length ≤ 255 := by
  have hcut : stamp.hashes.map (·.take 127) = stamp.hashes :=
    (List.map_congr_left fun hash hhash => List.take_of_length_le (hhashes hash hhash).2).trans
      (List.map_id _)
  unfold ReadsAsHashes
  rw [hcut]
  constructor
  · rintro ⟨hhas, hlong, raw, hne, hraw, hbytes⟩
    rw [bytes_cut_iff hhas] at hbytes
    obtain ⟨hle, htails⟩ := @tailFields_length stamp raw hunused hhas
    -- the tail of the stamp is some bytes more, and the cut one
    have hsplit :=
      (List.take_append_drop ((tailFields stamp).length - (tailFields (cutStamp stamp raw)).length)
      (tailFields stamp)).symm
    rw [hsplit, ← List.append_assoc] at hbytes
    obtain ⟨hread, -⟩ := List.append_inj' hbytes (by rw [List.length_drop]; omega)
    obtain ⟨hnothing, hempty⟩ := overhang_empty hhashes hne hraw hread
    have hsame := congrArg List.length hnothing
    rw [List.length_take, List.length_nil] at hsame
    have hfits := htails.1 (by omega)
    have haddr : 255 < (stripPort stamp.proto.defaultPort stamp.serverAddrStr).length := by
      rw [← Nat.not_le]
      exact fun hshort => hlong ⟨hshort, fun hash hhash => (hhashes hash hhash).2⟩
    exact ⟨hhas, haddr, hempty, hfits⟩
  · rintro ⟨hhas, haddr, hempty, hfits⟩
    obtain ⟨raw, hne, hraw, hread⟩ :=
      overhang_read (fun hash hhash => (hhashes hash hhash).1) hempty
    refine ⟨hhas, fun hfront => absurd hfront.addr (by omega), raw, hne, hraw, ?_⟩
    rw [bytes_cut_iff hhas, hread]
    have hname : (cutStamp stamp raw).providerName = stamp.providerName := by
      simp only [cutStamp, truncated, List.take_of_length_le hfits.1]
    have hpath : (cutStamp stamp raw).path = stamp.path := by
      simp only [cutStamp, truncated, List.take_of_length_le hfits.2]
    have htails : tailFields (cutStamp stamp raw) = tailFields stamp := by
      unfold tailFields
      rw [cut_proto, hname, hpath]
    rw [htails]

/-- **A stamp is read with its long fields cut** if the fields are read right; and with hashes that
fit, only then. -/
theorem truncated_iff (stamp : ServerStamp) :
    (FieldsRead stamp → newServerStampFromString (string stamp) = .ok (truncated stamp)) ∧
    ((∀ hash ∈ stamp.hashes, hash.length ≤ 127) →
      newServerStampFromString (string stamp) = .ok (truncated stamp) → FieldsRead stamp) := by
  rw [decoded_iff, readable_iff]
  constructor
  · intro h
    refine ⟨⟨h.addr, fun hash hhash => (h.hashes hash hhash).1, h.unused, h.enough⟩, ?_⟩
    by_cases hshort : (stripPort stamp.proto.defaultPort stamp.serverAddrStr).length ≤ 255
    · exact .inl ⟨⟨hshort, fun hash hhash => (h.hashes hash hhash).2⟩, h.serverPk,
        h.providerName, h.path⟩
    · obtain ⟨b, hb⟩ := List.exists_mem_of_ne_nil _ fun hnil => hshort (List.drop_eq_nil_iff.1 hnil)
      rw [readsAsHashes_iff h.hashes h.unused]
      exact .inr
        ⟨(h.overhang b hb).1, by omega, fun b hb => (h.overhang b hb).2, h.providerName, h.path⟩
  · rintro hfit ⟨⟨haddr, hne, hunused, henough⟩, hcases⟩
    have hhashes : ∀ hash ∈ stamp.hashes, hash ≠ [] ∧ hash.length ≤ 127 :=
      fun hash hhash => ⟨hne hash hhash, hfit hash hhash⟩
    rcases hcases with hfields | hreads
    · refine ⟨haddr, fun b hb => ?_, hhashes, hfields.serverPk, hfields.providerName, hfields.path,
        hunused, henough⟩
      rw [List.drop_eq_nil_of_le hfields.addr] at hb
      cases hb
    · obtain ⟨hhas, -, hempty, hname, hpath⟩ := (readsAsHashes_iff hhashes hunused).1 hreads
      refine ⟨haddr, fun b hb => ⟨hhas, hempty b hb⟩, hhashes, ?_, hname, hpath, hunused, henough⟩
      -- a protocol with hashes has no public key
      have hpk : stamp.serverPk = [] := by
        unfold UnusedEmpty at hunused
        cases hproto : stamp.proto with
        | plain => rw [hproto] at hhas; cases hhas
        | dnsCrypt => rw [hproto] at hhas; cases hhas
        | doH => rwa [hproto] at hunused
        | tls => rw [hproto] at hunused; exact hunused.1
        | doQ => rw [hproto] at hunused; exact hunused.1
      rw [hpk]
      exact Nat.zero_le _

end Overhang

section Examples

/-- A DoH stamp with a path of 256 bytes. -/
def longPathStamp : ServerStamp where
  proto := .doH
  serverAddrStr := encode "192.0.2.1:443"
  providerName := encode "dns.example.net"
  path := byte '/' :: List.replicate 255 (byte 'p')

/-- The last byte of the path is taken for garbage behind the stamp. -/
theorem long_path_garbage : newServerStampFromString (string longPathStamp) = .error .garbage ∧
    newServerStampFromString (string longPathStamp) ≠ .ok (truncated longPathStamp) := by
  have hgarbage : newServerStampFromString (string longPathStamp) = .error .garbage := by
    rw [newServerStampFromString_string]
    decide +kernel
  refine ⟨hgarbage, fun hok => ?_⟩
  rw [hgarbage] at hok
  cases hok

/-- A DoH stamp with an address of 256 bytes, of which the last one is the length of an empty
hash. -/
def overhangStamp : ServerStamp where
  proto := .doH
  serverAddrStr := List.replicate 255 (byte 'a') ++ [0x80]
  hashes := [[1]]
  providerName := encode "dns.example.net"
  path := encode "/dns-query"

theorem truncated_iff_overhang :
    newServerStampFromString (string overhangStamp) = .ok (truncated overhangStamp) ∧
      (truncated overhangStamp).serverAddrStr.length = 255 := by
  refine ⟨(truncated_iff overhangStamp).1
    ⟨?_, ?_, by decide, by decide, by decide, by decide, rfl, by decide +kernel⟩,
    by decide +kernel⟩
  · unfold AddrReads
    decide +kernel
  · decide +kernel

/-- A DoH stamp of which the first hash has 128 bytes, each of them the length of a cut hash that
another one follows. -/
def chanceStamp : ServerStamp where
  proto := .doH
  serverAddrStr := encode "192.0.2.1:443"
  hashes := [List.replicate 128 0xFF, [1]]
  providerName := encode "dns.example.net"
  path := encode "/dns-query"

/-- A hash that is too long can be read right by chance: its own length byte is that of an empty
hash. -/
theorem long_hash_chance :
    newServerStampFromString (string chanceStamp) = .ok (truncated chanceStamp) ∧
    ¬ FieldsRead chanceStamp := by
  refine ⟨?_, fun h => ?_⟩
  · rw [newServerStampFromString_string]
    decide +kernel
  · have hlength := (h.hashes (List.replicate 128 0xFF) List.mem_cons_self).2
    rw [List.length_replicate] at hlength
    omega

end Examples

end ModDNS.Libs.DnsStamps
