import ModDNS.Libs.DnsStamps

/-!
# What a stamp is on the wire

A stamp on the wire is a header and the fields of its protocol. The decoder accepts the texts of
well-formed stamps and no others (`newServerStamp_iff`); it puts the port behind an address, and
drops empty hashes.
-/

namespace ModDNS.Libs.DnsStamps

open Go

/-- The least number of bytes that the decoder takes. -/
def StampProtoType.minLength : StampProtoType → ℕ
  | .plain => 17
  | .dnsCrypt => 66
  | .doH => 22
  | .tls => 22
  | .doQ => 22

def StampProtoType.hasHashes : StampProtoType → Bool
  | .plain => false
  | .dnsCrypt => false
  | .doH => true
  | .tls => true
  | .doQ => true

/-- The fields that the protocol of a stamp does not have are empty. -/
def UnusedEmpty (w : ServerStamp) : Prop :=
  match w.proto with
  | .plain => w.serverPk = [] ∧ w.hashes = [] ∧ w.providerName = [] ∧ w.path = []
  | .dnsCrypt => w.hashes = [] ∧ w.path = []
  | .doH => w.serverPk = []
  | .tls | .doQ => w.serverPk = [] ∧ w.path = []

/-- The fields of a stamp, as they are. -/
def wireFields (w : ServerStamp) : Bytes :=
  match w.proto with
  | .plain => lenField w.serverAddrStr
  | .dnsCrypt => lenField w.serverAddrStr ++ (lenField w.serverPk ++ lenField w.providerName)
  | .doH =>
    lenField w.serverAddrStr ++ (hashFields w.hashes ++
      (lenField w.providerName ++ lenField w.path))
  | .tls | .doQ => lenField w.serverAddrStr ++ (hashFields w.hashes ++ lenField w.providerName)

def wire (w : ServerStamp) : Bytes := header w ++ wireFields w

/-- The fields fit behind their lengths, and there are enough of them. -/
structure WellFormed (w : ServerStamp) : Prop where
  addr : w.serverAddrStr.length ≤ 255
  serverPk : w.serverPk.length ≤ 255
  hashes : ∀ hash ∈ w.hashes, hash.length ≤ 127
  hashes_ne : w.proto.hasHashes = true → w.hashes ≠ []
  providerName : w.providerName.length ≤ 255
  path : w.path.length ≤ 255
  unused : UnusedEmpty w
  enough : w.proto.minLength ≤ (wire w).length

/-- What the decoder makes of a stamp on the wire. -/
def readStamp (w : ServerStamp) : ServerStamp :=
  { w with
    serverAddrStr := withPort w.proto.defaultPort w.serverAddrStr
    hashes := w.hashes.filter (· ≠ []) }

section Hashes

variable {hash : Bytes} {raw : List Bytes} {bs : Bytes} {fuel : ℕ}

theorem hash_toNat (h : hash.length ≤ 127) :
    (UInt8.ofNat ((lenByte hash).toNat % 128)).toNat = hash.length ∧
      (UInt8.ofNat ((lenByte hash).toNat % 128 + 128)).toNat = hash.length + 128 := by
  rw [lenByte_toNat (by omega), Nat.mod_eq_of_lt (by omega : hash.length < 128)]
  exact ⟨Nat.mod_eq_of_lt (by omega), Nat.mod_eq_of_lt (by omega)⟩

theorem filter_hash (hash : Bytes) :
    (if 0 < hash.length then [hash] else []) = [hash].filter (· ≠ []) := by
  cases hash <;> rfl

theorem hashFields_ne_nil (raw : List Bytes) : hashFields raw ≠ [] := by
  unfold hashFields
  split <;> exact List.cons_ne_nil _ _

/-- The list of hashes is read back, without its empty ones. -/
theorem readHashes_hashFields (hne : raw ≠ []) (h : ∀ hash ∈ raw, hash.length ≤ 127) (hbs : bs ≠ [])
    (hfuel : raw.length ≤ fuel) :
    readHashes fuel (hashFields raw ++ bs) = .ok (raw.filter (· ≠ []), bs) := by
  induction raw generalizing fuel with
  | nil => exact absurd rfl hne
  | cons hash raw ih =>
    obtain ⟨fuel, rfl⟩ :=
      Nat.exists_eq_succ_of_ne_zero (Nat.ne_of_gt (Nat.lt_of_lt_of_le (Nat.succ_pos _) hfuel))
    obtain ⟨hlen, hraw⟩ := List.forall_mem_cons.1 h
    obtain ⟨hlast, hmore⟩ := hash_toNat hlen
    have hmod : (hash.length + 128) % 128 = hash.length := by omega
    cases raw with
    | nil =>
      have hpos := List.length_pos_iff.2 hbs
      have hshort : ¬ (hash ++ bs).length ≤ hash.length := by
        rw [List.length_append]
        omega
      rw [hashFields, List.cons_append, readHashes, hlast,
        Nat.mod_eq_of_lt (by omega : hash.length < 128)]
      dsimp only
      rw [if_neg hshort, if_pos (by omega), List.take_left, List.drop_left, filter_hash]
    | cons hash' raw =>
      have hpos := List.length_pos_iff.2 (hashFields_ne_nil (hash' :: raw))
      have hshort : ¬ (hash ++ (hashFields (hash' :: raw) ++ bs)).length ≤ hash.length := by
        rw [List.length_append, List.length_append]
        omega
      have hrest := ih (List.cons_ne_nil _ _) hraw (Nat.le_of_succ_le_succ hfuel)
      rw [hashFields, List.cons_append, List.cons_append, List.append_assoc,
        readHashes, hmore, hmod]
      dsimp only
      rw [if_neg hshort, if_neg (by omega), List.take_left, List.drop_left, hrest, filter_hash]
      exact congrArg (fun hashes => Except.ok (hashes, bs))
        (List.filter_append (p := (· ≠ [])) [hash] (hash' :: raw)).symm
      · exact List.cons_ne_nil _ _

theorem hash_length {vlen : UInt8} (h : vlen.toNat < 128) (hbs : hash.length = vlen.toNat) :
    UInt8.ofNat ((lenByte hash).toNat % 128) = vlen := by
  rw [lenByte_toNat (by omega), hbs, Nat.mod_eq_of_lt h]
  exact UInt8.ofNat_toNat

theorem hash_length_more {vlen : UInt8} (h : ¬ vlen.toNat < 128)
    (hbs : hash.length = vlen.toNat % 128) :
    UInt8.ofNat ((lenByte hash).toNat % 128 + 128) = vlen := by
  have hlt := vlen.toNat_lt
  have heq : (lenByte hash).toNat % 128 + 128 = vlen.toNat := by
    rw [lenByte_toNat (by omega)]
    omega
  rw [heq]
  exact UInt8.ofNat_toNat

theorem hashFields_cons (hash : Bytes) (h : raw ≠ []) :
    hashFields (hash :: raw) = UInt8.ofNat ((lenByte hash).toNat % 128 + 128) :: hash ++
      hashFields raw := by
  obtain ⟨hash', raw, rfl⟩ := List.exists_cons_of_ne_nil h
  rfl

/-- What is read is a list of hashes, with something behind it. -/
theorem hashFields_of_readHashes {hashes : List Bytes} {rest : Bytes}
    (h : readHashes fuel bs = .ok (hashes, rest)) :
    ∃ raw, raw ≠ [] ∧ (∀ hash ∈ raw, hash.length ≤ 127) ∧ bs = hashFields raw ++ rest ∧
      hashes = raw.filter (· ≠ []) ∧ rest ≠ [] := by
  induction fuel generalizing bs hashes with
  | zero => cases h
  | succ fuel ih =>
    cases bs with
    | nil => cases h
    | cons vlen bs =>
      rw [readHashes] at h
      dsimp only at h
      split at h
      · cases h
      next hlong =>
      have hlen : (bs.take (vlen.toNat % 128)).length = vlen.toNat % 128 := by
        rw [List.length_take]
        omega
      -- an empty hash is left out
      have hhash : (if 0 < vlen.toNat % 128 then [bs.take (vlen.toNat % 128)] else []) =
          [bs.take (vlen.toNat % 128)].filter (· ≠ []) := by
        rw [← filter_hash, hlen]
      rw [hhash] at h
      split at h
      · next hlast =>
        obtain ⟨rfl, rfl⟩ := Prod.mk.inj (Except.ok.inj h)
        rw [Nat.mod_eq_of_lt hlast] at hlen hlong ⊢
        refine ⟨[bs.take vlen.toNat], List.cons_ne_nil _ _, ?_, ?_, rfl, ?_⟩
        · exact List.forall_mem_singleton.2 (by omega)
        · rw [hashFields, hash_length hlast hlen, List.cons_append, List.take_append_drop]
        · rw [← List.length_pos_iff, List.length_drop]
          omega
      -- the top bit is set: another hash follows
      · next hmore =>
        cases hrest : readHashes fuel (bs.drop (vlen.toNat % 128)) with
        | error e =>
          rw [hrest] at h
          cases h
        | ok out =>
          rw [hrest] at h
          obtain ⟨rfl, rfl⟩ := Prod.mk.inj (Except.ok.inj h)
          obtain ⟨raw, hne, hall, hbs, hout, hafter⟩ := ih hrest
          refine ⟨bs.take (vlen.toNat % 128) :: raw, List.cons_ne_nil _ _, ?_, ?_, ?_, hafter⟩
          · exact List.forall_mem_cons.2 ⟨by omega, hall⟩
          · rw [hashFields_cons _ hne, hash_length_more hmore hlen, List.cons_append,
              List.cons_append, List.append_assoc,
              ← hbs, List.take_append_drop]
          · rw [hout, ← List.filter_append, List.singleton_append]

end Hashes

section Fields

variable {w : ServerStamp} {bs v rest : Bytes} {more : Bool}

/-- What is read is a field behind its length. -/
theorem lenField_of_field (h : field more bs = .ok (v, rest)) :
    bs = lenField v ++ rest ∧ v.length ≤ 255 ∧ (more = true → rest ≠ []) := by
  cases bs with
  | nil => cases h
  | cons n bs =>
    have hlt := n.toNat_lt
    by_cases hfits : if more = true then bs.length ≤ n.toNat else bs.length < n.toNat
    · rw [field, if_pos hfits] at h
      cases h
    rw [field, if_neg hfits] at h
    obtain ⟨rfl, rfl⟩ := Prod.mk.inj (Except.ok.inj h)
    have hlen : n.toNat ≤ bs.length ∧ (more = true → n.toNat < bs.length) := by
      cases more <;> simp at hfits ⊢ <;> omega
    have htake : (bs.take n.toNat).length = n.toNat := by
      rw [List.length_take]
      omega
    refine ⟨?_, by omega, fun hm => ?_⟩
    · have hbyte : lenByte (bs.take n.toNat) = n := by
        rw [← UInt8.toNat_inj, lenByte_toNat (by omega), htake]
      rw [lenField, hbyte, List.cons_append, List.take_append_drop]
    · rw [← List.length_pos_iff, List.length_drop]
      have hlong := hlen.2 hm
      omega

theorem putUint_readUint (bs : Bytes) : putUint bs.length (readUint bs) = bs := by
  induction bs with
  | nil => rfl
  | cons b bs ih =>
    have hlt := b.toNat_lt
    have hmod : (b.toNat + 256 * readUint bs) % 256 = b.toNat := by omega
    have hdiv : (b.toNat + 256 * readUint bs) / 256 = readUint bs := by omega
    rw [List.length_cons, putUint, readUint, hmod, hdiv, ih]
    exact congrArg (· :: bs) UInt8.ofNat_toNat

theorem readUint_lt (bs : Bytes) : readUint bs < 256 ^ bs.length := by
  induction bs with
  | nil => exact Nat.one_pos
  | cons b bs ih =>
    have hlt := b.toNat_lt
    rw [readUint, List.length_cons, Nat.pow_succ]
    omega

/-- Nine bytes and more start with a header. -/
theorem header_of_length {proto : StampProtoType} {bin : Bytes} (h : 9 ≤ (proto.code :: bin).length)
    (s : ServerStamp) (hproto : s.proto = proto)
    (hprops : s.props = readProps (proto.code :: bin)) :
    proto.code :: bin = header s ++ (proto.code :: bin).drop 9 := by
  have hlen : (bin.take 8).length = 8 := by
    rw [List.length_cons] at h
    rw [List.length_take]
    omega
  have hlt := readUint_lt (bin.take 8)
  rw [hlen] at hlt
  have hread : s.props.toNat = readUint (bin.take 8) := by
    rw [hprops]
    exact Nat.mod_eq_of_lt hlt
  have hput := putUint_readUint (bin.take 8)
  rw [hlen] at hput
  rw [header, hproto, hread, hput]
  exact congrArg (proto.code :: ·) (List.take_append_drop 8 bin).symm

end Fields

section Stamps

variable {w stamp : ServerStamp} {bin : Bytes}

theorem drop_wire (w : ServerStamp) : (wire w).drop 9 = wireFields w := drop_header _

theorem readProps_wire (w : ServerStamp) : readProps (wire w) = w.props := readProps_header _

theorem checkLen_of_le {min : ℕ} (h : min ≤ bin.length) : checkLen min bin = .ok () :=
  if_neg (Nat.not_lt.2 h)

/-- The hashes behind another field are read back. -/
theorem readHashes_wire {raw : List Bytes} {bs : Bytes} (hne : raw ≠ [])
    (h : ∀ hash ∈ raw, hash.length ≤ 127) (hbs : bs ≠ []) :
    readHashes (hashFields raw ++ bs).length (hashFields raw ++ bs) = .ok
    (raw.filter (· ≠ []), bs) := by
  refine readHashes_hashFields hne h hbs ?_
  have hlength : raw.length ≤ (hashFields raw).length := by
    clear hne h
    induction raw with
    | nil => exact Nat.zero_le _
    | cons hash raw ih =>
      cases raw with
      | nil => exact Nat.succ_le_succ (Nat.zero_le _)
      | cons hash' raw =>
        rw [hashFields_cons hash (List.cons_ne_nil _ _)]
        simp only [List.length_append, List.length_cons] at ih ⊢
        omega
  rw [List.length_append]
  omega

/-- A last field has nothing behind it to be read. -/
theorem field_last {bs : Bytes} (h : bs.length ≤ 255) :
    field false (lenField bs ++ []) = .ok (bs, []) :=
  field_lenField h fun hinner => absurd hinner Bool.false_ne_true

theorem newPlainServerStamp_wire (h : WellFormed w) (hproto : w.proto = .plain) :
    newPlainServerStamp (wire w) = .ok (readStamp w) := by
  obtain ⟨haddr, -, -, -, -, -, hunused, henough⟩ := h
  have hfields : wireFields w = lenField w.serverAddrStr ++ [] := by simp [wireFields, hproto]
  rw [hproto] at henough
  have hlong : 17 ≤ (wire w).length := henough
  have haddr₁ := field_last haddr
  rw [newPlainServerStamp, checkLen_of_le hlong, drop_wire, readProps_wire, hfields]
  simp only [bind, Except.bind, haddr₁, checkEnd_nil]
  obtain ⟨addr, pk, hashes, name, path, props, proto⟩ := w
  obtain rfl : proto = .plain := hproto
  obtain ⟨rfl, rfl, rfl, rfl⟩ : pk = [] ∧ hashes = [] ∧ name = [] ∧ path = [] := hunused
  rfl

theorem newDNSCryptServerStamp_wire (h : WellFormed w) (hproto : w.proto = .dnsCrypt) :
    newDNSCryptServerStamp (wire w) = .ok (readStamp w) := by
  obtain ⟨haddr, hpk, -, -, hname, -, hunused, henough⟩ := h
  have hfields : wireFields w = lenField w.serverAddrStr ++
      (lenField w.serverPk ++ (lenField w.providerName ++ [])) := by
    simp [wireFields, hproto]
  rw [hproto] at henough
  have hlong : 66 ≤ (wire w).length := henough
  have haddr₁ := @field_lenField true w.serverAddrStr _ haddr fun _ =>
    List.append_ne_nil_of_left_ne_nil (lenField_ne_nil w.serverPk) (lenField w.providerName ++ [])
  have hpk₁ := @field_lenField true w.serverPk _ hpk fun _ =>
    List.append_ne_nil_of_left_ne_nil (lenField_ne_nil w.providerName) []
  have hname₁ := field_last hname
  rw [newDNSCryptServerStamp, checkLen_of_le hlong, drop_wire, readProps_wire, hfields]
  simp only [bind, Except.bind, haddr₁, hpk₁, hname₁, checkEnd_nil]
  obtain ⟨addr, pk, hashes, name, path, props, proto⟩ := w
  obtain rfl : proto = .dnsCrypt := hproto
  obtain ⟨rfl, rfl⟩ : hashes = [] ∧ path = [] := hunused
  rfl

theorem newDoHServerStamp_wire (h : WellFormed w) (hproto : w.proto = .doH) :
    newDoHServerStamp (wire w) = .ok (readStamp w) := by
  obtain ⟨haddr, -, hhashes, hne, hname, hpath, hunused, henough⟩ := h
  have hfields : wireFields w = lenField w.serverAddrStr ++
      (hashFields w.hashes ++ (lenField w.providerName ++ (lenField w.path ++ []))) := by
    simp [wireFields, hproto]
  rw [hproto] at henough
  have hlong : 22 ≤ (wire w).length := henough
  have hhas : w.hashes ≠ [] := hne (by rw [hproto]; rfl)
  have haddr₁ := @field_lenField true w.serverAddrStr _ haddr fun _ =>
    List.append_ne_nil_of_left_ne_nil (hashFields_ne_nil w.hashes)
      (lenField w.providerName ++ (lenField w.path ++ []))
  have hhashes₁ := readHashes_wire hhas hhashes
    (List.append_ne_nil_of_left_ne_nil (lenField_ne_nil w.providerName) (lenField w.path ++ []))
  have hname₁ := @field_lenField true w.providerName _ hname fun _ =>
    List.append_ne_nil_of_left_ne_nil (lenField_ne_nil w.path) []
  have hpath₁ := field_last hpath
  rw [newDoHServerStamp, checkLen_of_le hlong, drop_wire, readProps_wire, hfields]
  simp only [bind, Except.bind, haddr₁, hhashes₁, hname₁, hpath₁, checkEnd_nil]
  obtain ⟨addr, pk, hashes, name, path, props, proto⟩ := w
  obtain rfl : proto = .doH := hproto
  obtain rfl : pk = [] := hunused
  rfl

theorem newDoTOrDoQServerStamp_wire {stampType : StampProtoType}
    (htype : stampType = .tls ∨ stampType = .doQ) (h : WellFormed w)
    (hproto : w.proto = stampType) :
    newDoTOrDoQServerStamp stampType stampType.defaultPort (wire w) = .ok (readStamp w) := by
  obtain ⟨haddr, -, hhashes, hne, hname, -, hunused, henough⟩ := h
  have hfields : wireFields w = lenField w.serverAddrStr ++
      (hashFields w.hashes ++ (lenField w.providerName ++ [])) := by
    rcases htype with rfl | rfl <;> simp [wireFields, hproto]
  rw [hproto] at henough
  have hlong : 22 ≤ (wire w).length := by rcases htype with rfl | rfl <;> exact henough
  have hhas : w.hashes ≠ [] := hne (by rcases htype with rfl | rfl <;> rw [hproto] <;> rfl)
  have haddr₁ := @field_lenField true w.serverAddrStr _ haddr fun _ =>
    List.append_ne_nil_of_left_ne_nil (hashFields_ne_nil w.hashes) (lenField w.providerName ++ [])
  have hhashes₁ :=
    readHashes_wire hhas hhashes (List.append_ne_nil_of_left_ne_nil
      (lenField_ne_nil w.providerName) [])
  have hname₁ := field_last hname
  rw [newDoTOrDoQServerStamp, checkLen_of_le hlong, drop_wire, readProps_wire, hfields]
  simp only [bind, Except.bind, haddr₁, hhashes₁, hname₁, checkEnd_nil]
  obtain ⟨addr, pk, hashes, name, path, props, proto⟩ := w
  obtain rfl : proto = stampType := hproto
  rcases htype with rfl | rfl <;> obtain ⟨rfl, rfl⟩ : pk = [] ∧ path = [] := hunused <;> rfl

/-- **A well-formed stamp is read.** -/
theorem newServerStamp_wire (h : WellFormed w) : newServerStamp (wire w) = .ok (readStamp w) := by
  cases hproto : w.proto with
  | tls =>
    rw [← newDoTOrDoQServerStamp_wire (.inl rfl) h hproto, wire, header, hproto]
    rfl
  | doQ =>
    rw [← newDoTOrDoQServerStamp_wire (.inr rfl) h hproto, wire, header, hproto]
    rfl
  | plain =>
    rw [← newPlainServerStamp_wire h hproto, wire, header, hproto]
    rfl
  | dnsCrypt =>
    rw [← newDNSCryptServerStamp_wire h hproto, wire, header, hproto]
    rfl
  | doH =>
    rw [← newDoHServerStamp_wire h hproto, wire, header, hproto]
    rfl

theorem le_of_checkLen {min : ℕ} {u : Unit} (h : checkLen min bin = .ok u) : min ≤ bin.length := by
  by_contra hshort
  rw [checkLen, if_pos (Nat.not_le.1 hshort)] at h
  cases h

theorem nil_of_checkEnd {u : Unit} (h : checkEnd bin = .ok u) : bin = [] := by
  by_contra hrest
  rw [checkEnd, if_pos hrest] at h
  cases h

/-- Bytes behind a protocol are the stamp whose fields they are. -/
theorem wire_of_fields {proto : StampProtoType} {tail : Bytes} (w : ServerStamp)
    (h : proto.minLength ≤ (proto.code :: tail).length) (hproto : w.proto = proto)
    (hprops : w.props = readProps (proto.code :: tail))
    (hfields : (proto.code :: tail).drop 9 = wireFields w)
    (hw : w.proto.minLength ≤ (wire w).length → WellFormed w) (hstamp : stamp = readStamp w) :
    ∃ w, WellFormed w ∧ proto.code :: tail = wire w ∧ stamp = readStamp w := by
  have hmin : 9 ≤ proto.minLength := by cases proto <;> decide
  have hwire : proto.code :: tail = wire w := by
    rw [wire, ← hfields]
    exact header_of_length (hmin.trans h) w hproto hprops
  exact ⟨w, hw (by rwa [hproto, ← hwire]), hwire, hstamp⟩

theorem wire_of_newPlain {tail : Bytes}
    (h : newPlainServerStamp (StampProtoType.plain.code :: tail) = .ok stamp) :
    ∃ w, WellFormed w ∧ StampProtoType.plain.code :: tail = wire w ∧ stamp = readStamp w := by
  obtain ⟨_, hlen, h⟩ := ok_of_bind h
  obtain ⟨⟨addr, rest⟩, haddr, h⟩ := ok_of_bind h
  obtain ⟨_, hend, h⟩ := ok_of_bind h
  obtain rfl := nil_of_checkEnd hend
  obtain ⟨hbytes, haddr255, -⟩ := lenField_of_field haddr
  refine wire_of_fields
    { proto := .plain, props := readProps (StampProtoType.plain.code :: tail)
      serverAddrStr := addr }
    (le_of_checkLen hlen) rfl rfl ?_ (fun henough => ?_) (Except.ok.inj h).symm
  · rw [hbytes, List.append_nil]
    rfl
  · exact ⟨haddr255, Nat.zero_le _, List.forall_mem_nil _, nofun, Nat.zero_le _, Nat.zero_le _,
      ⟨rfl, rfl, rfl, rfl⟩, henough⟩

theorem wire_of_newDNSCrypt {tail : Bytes}
    (h : newDNSCryptServerStamp (StampProtoType.dnsCrypt.code :: tail) = .ok stamp) :
    ∃ w, WellFormed w ∧ StampProtoType.dnsCrypt.code :: tail = wire w ∧ stamp = readStamp w := by
  obtain ⟨_, hlen, h⟩ := ok_of_bind h
  obtain ⟨⟨addr, rest₁⟩, haddr, h⟩ := ok_of_bind h
  obtain ⟨⟨pk, rest₂⟩, hpk, h⟩ := ok_of_bind h
  obtain ⟨⟨name, rest₃⟩, hname, h⟩ := ok_of_bind h
  obtain ⟨_, hend, h⟩ := ok_of_bind h
  obtain rfl := nil_of_checkEnd hend
  obtain ⟨hbytes₁, haddr255, -⟩ := lenField_of_field haddr
  obtain ⟨hbytes₂, hpk255, -⟩ := lenField_of_field hpk
  obtain ⟨hbytes₃, hname255, -⟩ := lenField_of_field hname
  refine wire_of_fields
    { proto := .dnsCrypt, props := readProps (StampProtoType.dnsCrypt.code :: tail)
      serverAddrStr := addr, serverPk := pk
      providerName := name }
    (le_of_checkLen hlen) rfl rfl ?_ (fun henough => ?_) (Except.ok.inj h).symm
  · rw [hbytes₁, hbytes₂, hbytes₃, List.append_nil]
    rfl
  · exact ⟨haddr255, hpk255, List.forall_mem_nil _, nofun, hname255, Nat.zero_le _,
      ⟨rfl, rfl⟩, henough⟩

theorem wire_of_newDoH {tail : Bytes}
    (h : newDoHServerStamp (StampProtoType.doH.code :: tail) = .ok stamp) :
    ∃ w, WellFormed w ∧ StampProtoType.doH.code :: tail = wire w ∧ stamp = readStamp w := by
  obtain ⟨_, hlen, h⟩ := ok_of_bind h
  obtain ⟨⟨addr, rest₁⟩, haddr, h⟩ := ok_of_bind h
  obtain ⟨⟨hashes, rest₂⟩, hhashes, h⟩ := ok_of_bind h
  obtain ⟨⟨name, rest₃⟩, hname, h⟩ := ok_of_bind h
  obtain ⟨⟨path, rest₄⟩, hpath, h⟩ := ok_of_bind h
  obtain ⟨_, hend, h⟩ := ok_of_bind h
  obtain rfl := nil_of_checkEnd hend
  obtain ⟨hbytes₁, haddr255, -⟩ := lenField_of_field haddr
  obtain ⟨raw, hne, hall, hbytes₂, rfl, -⟩ := hashFields_of_readHashes hhashes
  obtain ⟨hbytes₃, hname255, -⟩ := lenField_of_field hname
  obtain ⟨hbytes₄, hpath255, -⟩ := lenField_of_field hpath
  refine wire_of_fields
    { proto := .doH, props := readProps (StampProtoType.doH.code :: tail), serverAddrStr := addr
      hashes := raw
      providerName := name, path }
    (le_of_checkLen hlen) rfl rfl ?_ (fun henough => ?_) (Except.ok.inj h).symm
  · rw [hbytes₁, hbytes₂, hbytes₃, hbytes₄, List.append_nil]
    rfl
  · exact ⟨haddr255, Nat.zero_le _, hall, fun _ => hne, hname255, hpath255, rfl, henough⟩

theorem wire_of_newDoTOrDoQ {stampType : StampProtoType}
    (htype : stampType = .tls ∨ stampType = .doQ) {tail : Bytes}
    (h : newDoTOrDoQServerStamp stampType stampType.defaultPort
      (stampType.code :: tail) = .ok stamp) :
    ∃ w, WellFormed w ∧ stampType.code :: tail = wire w ∧ stamp = readStamp w := by
  obtain ⟨_, hlen, h⟩ := ok_of_bind h
  obtain ⟨⟨addr, rest₁⟩, haddr, h⟩ := ok_of_bind h
  obtain ⟨⟨hashes, rest₂⟩, hhashes, h⟩ := ok_of_bind h
  obtain ⟨⟨name, rest₃⟩, hname, h⟩ := ok_of_bind h
  obtain ⟨_, hend, h⟩ := ok_of_bind h
  obtain rfl := nil_of_checkEnd hend
  obtain ⟨hbytes₁, haddr255, -⟩ := lenField_of_field haddr
  obtain ⟨raw, hne, hall, hbytes₂, rfl, -⟩ := hashFields_of_readHashes hhashes
  obtain ⟨hbytes₃, hname255, -⟩ := lenField_of_field hname
  refine wire_of_fields
    { proto := stampType, props := readProps (stampType.code :: tail), serverAddrStr := addr
      hashes := raw
      providerName := name }
    ?_ rfl rfl ?_ (fun henough => ?_) (Except.ok.inj h).symm
  · rcases htype with rfl | rfl <;> exact le_of_checkLen hlen
  · rw [hbytes₁, hbytes₂, hbytes₃, List.append_nil]
    rcases htype with rfl | rfl <;> rfl
  · refine ⟨haddr255, Nat.zero_le _, hall, fun _ => hne, hname255, Nat.zero_le _, ?_, henough⟩
    rcases htype with rfl | rfl <;> exact ⟨rfl, rfl⟩

/-- **What the decoder accepts**: the stamps on the wire that are well formed. -/
theorem newServerStamp_iff :
    newServerStamp bin = .ok stamp ↔ ∃ w, WellFormed w ∧ bin = wire w ∧ stamp = readStamp w := by
  constructor
  · intro h
    unfold newServerStamp at h
    split at h
    · cases h
    · next code tail =>
      split_ifs at h with hplain hcrypt hdoH htls hdoQ
      · obtain rfl := hplain
        exact wire_of_newPlain h
      · obtain rfl := hcrypt
        exact wire_of_newDNSCrypt h
      · obtain rfl := hdoH
        exact wire_of_newDoH h
      · obtain rfl := htls
        exact wire_of_newDoTOrDoQ (.inl rfl) h
      · obtain rfl := hdoQ
        exact wire_of_newDoTOrDoQ (.inr rfl) h
  · rintro ⟨w, hw, rfl, rfl⟩
    exact newServerStamp_wire hw

end Stamps

end ModDNS.Libs.DnsStamps
