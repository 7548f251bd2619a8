import ModDNS.Libs.StampStable

/-!
# The positions of the stamp decoder

The decoder goes through the bytes with a position, which it compares with their number before it
takes a slice. Here its indices, its slices and the rounds of its loop may fail, and they do not.

* `reads_field`, `reads_hashes`: a read at a position inside the bytes is the read of what stands
  there.
* `indexed_eq`: the decoder with positions does what the decoder on lists does.
* `decoder_grammar`: it has no fault, and takes exactly the well-formed stamps.
-/

namespace ModDNS.Libs.DnsStamps.Indexed

open Go

/-- What would end the decoder without an answer, or keep it from one. -/
inductive Fault where
  | outOfRange
  | endless
  deriving DecidableEq

abbrev Decoder (α : Type) := ExceptT StampErr (Except Fault) α

section Decode

variable {α : Type}

def fault (f : Fault) : Decoder α := ExceptT.mk (.error f)

def answer (r : Except StampErr α) : Decoder α := ExceptT.mk (.ok r)

/-- `bin[pos]`. -/
def byteAt (bin : Bytes) (pos : ℕ) : Decoder UInt8 :=
  match bin[pos]? with
  | some b => pure b
  | none => fault .outOfRange

/-- `bin[lo:hi]`. -/
def slice (bin : Bytes) (lo hi : ℕ) : Decoder Bytes :=
  if lo ≤ hi ∧ hi ≤ bin.length then pure ((bin.take hi).drop lo) else fault .outOfRange

/-- One field, and the position behind it; `more`: something has to follow. -/
def readField (more : Bool) (bin : Bytes) (pos : ℕ) : Decoder (Bytes × ℕ) := do
  let vlen ← byteAt bin pos
  let stampLen := vlen.toNat
  if (if more then bin.length - pos ≤ 1 + stampLen else bin.length - pos ≤ stampLen) then
    throw .invalid
  else do
    let v ← slice bin (pos + 1) (pos + 1 + stampLen)
    return (v, pos + 1 + stampLen)

/-- A hash, which is appended to the others if it is not empty. -/
def hashAt (bin : Bytes) (pos stampLen : ℕ) : Decoder (List Bytes) :=
  if 0 < stampLen then do
    let hash ← slice bin pos (pos + stampLen)
    return [hash]
  else return []

/-- The loop over the hashes; `fuel` bounds its rounds. -/
def hashLoop : ℕ → Bytes → ℕ → List Bytes → Decoder (List Bytes × ℕ)
  | 0, _, _, _ => fault .endless
  | fuel + 1, bin, pos, hashes => do
    let vlen ← byteAt bin pos
    let stampLen := vlen.toNat % 128
    if bin.length - pos ≤ 1 + stampLen then throw .invalid
    else do
      let hash ← hashAt bin (pos + 1) stampLen
      let hashes := hashes ++ hash
      if vlen.toNat < 128 then return (hashes, pos + 1 + stampLen)
      else hashLoop fuel bin (pos + 1 + stampLen) hashes

def checkPos (bin : Bytes) (pos : ℕ) : Except StampErr Unit :=
  if pos ≠ bin.length then .error .garbage else .ok ()

/-- The properties, at `bin[1:9]`. -/
def propsAt (bin : Bytes) : Decoder UInt64 := do
  let bs ← slice bin 1 9
  return UInt64.ofNat (readUint bs)

def newPlainServerStamp (bin : Bytes) : Decoder ServerStamp := do
  answer (checkLen 17 bin)
  let props ← propsAt bin
  let (serverAddrStr, pos) ← readField false bin 9
  answer (checkPos bin pos)
  return { proto := .plain, props, serverAddrStr := withPort defaultPlainPort serverAddrStr }

def newDNSCryptServerStamp (bin : Bytes) : Decoder ServerStamp := do
  answer (checkLen 66 bin)
  let props ← propsAt bin
  let (serverAddrStr, pos) ← readField true bin 9
  let (serverPk, pos) ← readField true bin pos
  let (providerName, pos) ← readField false bin pos
  answer (checkPos bin pos)
  return { proto := .dnsCrypt, props, serverAddrStr := withPort defaultDNSCryptPort serverAddrStr
           serverPk, providerName }

def newDoHServerStamp (bin : Bytes) : Decoder ServerStamp := do
  answer (checkLen 22 bin)
  let props ← propsAt bin
  let (serverAddrStr, pos) ← readField true bin 9
  let (hashes, pos) ← hashLoop bin.length bin pos []
  let (providerName, pos) ← readField true bin pos
  let (path, pos) ← readField false bin pos
  answer (checkPos bin pos)
  return { proto := .doH, props, serverAddrStr := withPort defaultDoHPort serverAddrStr, hashes
           providerName, path }

def newDoTOrDoQServerStamp (stampType : StampProtoType) (defaultPort : ℕ) (bin : Bytes) :
    Decoder ServerStamp := do
  answer (checkLen 22 bin)
  let props ← propsAt bin
  let (serverAddrStr, pos) ← readField true bin 9
  let (hashes, pos) ← hashLoop bin.length bin pos []
  let (providerName, pos) ← readField false bin pos
  answer (checkPos bin pos)
  return { proto := stampType, props, serverAddrStr := withPort defaultPort serverAddrStr, hashes
           providerName }

def newServerStamp (bin : Bytes) : Decoder ServerStamp :=
  if bin.length < 1 then throw .tooShort
  else do
    let proto ← byteAt bin 0
    if proto = StampProtoType.plain.code then newPlainServerStamp bin
    else if proto = StampProtoType.dnsCrypt.code then newDNSCryptServerStamp bin
    else if proto = StampProtoType.doH.code then newDoHServerStamp bin
    else if proto = StampProtoType.tls.code then newDoTOrDoQServerStamp .tls defaultDoTPort bin
    else if proto = StampProtoType.doQ.code then newDoTOrDoQServerStamp .doQ defaultDoQPort bin
    else throw .unsupported

/-- `NewServerStampFromString`. -/
def newServerStampFromString (stampStr : String) : Decoder ServerStamp :=
  if hasPrefix stampStr stampProtocol then
    match Base64.decodeString (.ofList (stampStr.toList.drop stampProtocol.toList.length)) with
    | none => throw .base64
    | some bin => newServerStamp bin
  else throw .scheme

end Decode

section Reads

variable {α β : Type} {bin : Bytes} {pos : ℕ} {more : Bool}

theorem byteAt_lt (h : pos < bin.length) : byteAt bin pos = pure bin[pos] := by
  unfold byteAt
  rw [List.getElem?_eq_getElem h]

theorem slice_le {lo hi : ℕ} (hlo : lo ≤ hi) (hhi : hi ≤ bin.length) :
    slice bin lo hi = pure ((bin.take hi).drop lo) :=
  if_pos ⟨hlo, hhi⟩

/-- A read with positions ends as a read from a list does: with an error, or with a position where
the rest begins. -/
def Reads (bin : Bytes) (more : Bool) (d : Decoder (β × ℕ)) (r : Except StampErr (β × Bytes)) :
    Prop :=
  (∃ e, d = throw e ∧ r = .error e) ∨
    ∃ v pos, d = pure (v, pos) ∧ r = .ok (v, bin.drop pos) ∧ pos ≤ bin.length ∧
      (more = true → pos < bin.length)

theorem Reads.bind {d : Decoder (β × ℕ)} {r : Except StampErr (β × Bytes)} {f : β × ℕ → Decoder α}
    {g : β × Bytes → Except StampErr α} (h : Reads bin more d r)
    (hf : ∀ v pos, pos ≤ bin.length → (more = true → pos < bin.length) →
      f (v, pos) = answer (g (v, bin.drop pos))) :
    d >>= f = answer (r >>= g) := by
  obtain ⟨e, rfl, rfl⟩ | ⟨v, pos, rfl, rfl, hle, hlt⟩ := h
  · rfl
  · exact hf v pos hle hlt

theorem answer_bind {r : Except StampErr β} {f : β → Decoder α} {g : β → Except StampErr α}
    (hf : ∀ b, r = .ok b → f b = answer (g b)) : answer r >>= f = answer (r >>= g) := by
  cases r with
  | error e => rfl
  | ok b => exact hf b rfl

/-- A slice behind a position is what stands first behind it. -/
theorem slice_drop (pos n : ℕ) (bin : Bytes) :
    (bin.take (pos + n)).drop pos = (bin.drop pos).take n := by
  rw [List.drop_take, Nat.add_sub_cancel_left]

theorem reads_field (more : Bool) (h : pos < bin.length) :
    Reads bin more (readField more bin pos) (field more (bin.drop pos)) := by
  have hdrop : bin.drop pos = bin[pos] :: bin.drop (pos + 1) := List.drop_eq_getElem_cons h
  have hlen : (bin.drop (pos + 1)).length = bin.length - pos - 1 := by
    rw [List.length_drop]
    omega
  unfold readField
  rw [byteAt_lt h, pure_bind, hdrop, field]
  generalize bin[pos].toNat = n
  have hcheck : (if more = true then bin.length - pos ≤ 1 + n else bin.length - pos ≤ n) ↔
      if more = true then (bin.drop (pos + 1)).length ≤ n else (bin.drop (pos + 1)).length < n := by
    rw [hlen]
    cases more <;> simp <;> omega
  dsimp only
  by_cases hinvalid : if more = true then bin.length - pos ≤ 1 + n else bin.length - pos ≤ n
  · rw [if_pos hinvalid, if_pos (hcheck.1 hinvalid)]
    exact .inl ⟨.invalid, rfl, rfl⟩
  · have hfits : pos + 1 + n ≤ bin.length ∧ (more = true → pos + 1 + n < bin.length) := by
      cases more <;> simp at hinvalid ⊢ <;> omega
    rw [if_neg hinvalid, if_neg fun hlong => hinvalid (hcheck.2 hlong),
      slice_le (Nat.le_add_right _ _) hfits.1, pure_bind, slice_drop]
    refine .inr ⟨_, pos + 1 + n, rfl, ?_, hfits⟩
    rw [List.drop_drop]

theorem hashAt_le {stampLen : ℕ} (h : pos + stampLen ≤ bin.length) :
    hashAt bin pos stampLen = pure (if 0 < stampLen then [(bin.drop pos).take stampLen]
      else []) := by
  unfold hashAt
  rw [slice_le (Nat.le_add_right _ _) h, slice_drop]
  split <;> rfl

/-- **Each round of the loop reads at least one byte**, so there are no more of them than bytes. -/
theorem reads_hashes (n fuel : ℕ) (hashes : List Bytes) (h : pos < bin.length)
    (hn : bin.length - pos ≤ n) (hfuel : bin.length - pos ≤ fuel) :
    Reads bin true (hashLoop fuel bin pos hashes)
    ((readHashes n (bin.drop pos)).map fun (more, bs) => (hashes ++ more, bs)) := by
  induction n generalizing fuel pos hashes with
  | zero => omega
  | succ n ih =>
    cases fuel with
    | zero => omega
    | succ fuel =>
      have hdrop : bin.drop pos = bin[pos] :: bin.drop (pos + 1) := List.drop_eq_getElem_cons h
      unfold hashLoop
      rw [byteAt_lt h, pure_bind, hdrop, readHashes]
      dsimp only
      generalize bin[pos] = vlen
      have hlen : (bin.drop (pos + 1)).length = bin.length - pos - 1 := by
        rw [List.length_drop]
        omega
      rw [hlen]
      split
      · next hinvalid =>
        rw [if_pos (by omega)]
        exact .inl ⟨.invalid, rfl, rfl⟩
      · next hvalid =>
        have hinside : pos + 1 + vlen.toNat % 128 < bin.length := by omega
        have hlong : ¬ bin.length - pos - 1 ≤ vlen.toNat % 128 := by omega
        rw [if_neg hlong, hashAt_le hinside.le, pure_bind, List.drop_drop]
        split
        · exact .inr ⟨_, _, rfl, rfl, hinside.le, fun _ => hinside⟩
        · -- the position has moved by one byte at least
          have hnext :=
            ih fuel (hashes ++ if 0 < vlen.toNat % 128 then
              [(bin.drop (pos + 1)).take (vlen.toNat % 128)] else [])
            hinside (by omega) (by omega)
          cases hrest : readHashes n (bin.drop (pos + 1 + vlen.toNat % 128)) with
          | error e =>
            rw [hrest] at hnext
            exact hnext
          | ok rest =>
            rw [hrest] at hnext
            simp only [Except.map, List.append_assoc] at hnext ⊢
            exact hnext

theorem checkPos_eq (h : pos ≤ bin.length) : checkPos bin pos = checkEnd (bin.drop pos) := by
  unfold checkPos checkEnd
  by_cases hend : pos = bin.length
  · rw [if_neg (not_not.2 hend), if_neg (not_not.2 (List.drop_eq_nil_iff.2 hend.ge))]
  · rw [if_pos hend, if_pos fun hnil => hend (le_antisymm h (List.drop_eq_nil_iff.1 hnil))]

theorem propsAt_eq (h : 9 ≤ bin.length) : propsAt bin = pure (readProps bin) := by
  unfold propsAt
  rw [slice_le (by decide) h, pure_bind, readProps, ← slice_drop]

end Reads

section Stamps

variable {bin : Bytes} {stamp : ServerStamp}

theorem newPlainServerStamp_eq (bin : Bytes) :
    newPlainServerStamp bin = answer (DnsStamps.newPlainServerStamp bin) := by
  unfold newPlainServerStamp DnsStamps.newPlainServerStamp
  refine answer_bind fun _ hlen => ?_
  have hlong : 17 ≤ bin.length := le_of_checkLen hlen
  rw [propsAt_eq (by omega), pure_bind]
  refine (reads_field false (by omega)).bind fun addr pos hle _ => ?_
  dsimp only
  rw [checkPos_eq hle]
  exact answer_bind fun _ _ => rfl

theorem newDNSCryptServerStamp_eq (bin : Bytes) :
    newDNSCryptServerStamp bin = answer (DnsStamps.newDNSCryptServerStamp bin) := by
  unfold newDNSCryptServerStamp DnsStamps.newDNSCryptServerStamp
  refine answer_bind fun _ hlen => ?_
  have hlong : 66 ≤ bin.length := le_of_checkLen hlen
  rw [propsAt_eq (by omega), pure_bind]
  refine (reads_field true (by omega)).bind fun addr pos₁ _ hlt₁ => ?_
  refine (reads_field true (hlt₁ rfl)).bind fun pk pos₂ _ hlt₂ => ?_
  refine (reads_field false (hlt₂ rfl)).bind fun name pos₃ hle₃ _ => ?_
  dsimp only
  rw [checkPos_eq hle₃]
  exact answer_bind fun _ _ => rfl

/-- The loop of the decoder. -/
theorem reads_loop {pos : ℕ} (h : pos < bin.length) :
    Reads bin true (hashLoop bin.length bin pos [])
      (readHashes (bin.drop pos).length (bin.drop pos)) := by
  have hloop :=
    reads_hashes (bin.drop pos).length bin.length [] h (by rw [List.length_drop]) (Nat.sub_le _ _)
  cases hrest : readHashes (bin.drop pos).length (bin.drop pos) with
  | error e =>
    rw [hrest] at hloop
    exact hloop
  | ok rest =>
    rw [hrest] at hloop
    exact hloop

theorem newDoHServerStamp_eq (bin : Bytes) :
    newDoHServerStamp bin = answer (DnsStamps.newDoHServerStamp bin) := by
  unfold newDoHServerStamp DnsStamps.newDoHServerStamp
  refine answer_bind fun _ hlen => ?_
  have hlong : 22 ≤ bin.length := le_of_checkLen hlen
  rw [propsAt_eq (by omega), pure_bind]
  refine (reads_field true (by omega)).bind fun addr pos₁ _ hlt₁ => ?_
  refine (reads_loop (hlt₁ rfl)).bind fun hashes pos₂ _ hlt₂ => ?_
  refine (reads_field true (hlt₂ rfl)).bind fun name pos₃ _ hlt₃ => ?_
  refine (reads_field false (hlt₃ rfl)).bind fun path pos₄ hle₄ _ => ?_
  dsimp only
  rw [checkPos_eq hle₄]
  exact answer_bind fun _ _ => rfl

theorem newDoTOrDoQServerStamp_eq (stampType : StampProtoType) (defaultPort : ℕ) (bin : Bytes) :
    newDoTOrDoQServerStamp stampType defaultPort bin = answer
      (DnsStamps.newDoTOrDoQServerStamp stampType defaultPort bin) := by
  unfold newDoTOrDoQServerStamp DnsStamps.newDoTOrDoQServerStamp
  refine answer_bind fun _ hlen => ?_
  have hlong : 22 ≤ bin.length := le_of_checkLen hlen
  rw [propsAt_eq (by omega), pure_bind]
  refine (reads_field true (by omega)).bind fun addr pos₁ _ hlt₁ => ?_
  refine (reads_loop (hlt₁ rfl)).bind fun hashes pos₂ _ hlt₂ => ?_
  refine (reads_field false (hlt₂ rfl)).bind fun name pos₃ hle₃ _ => ?_
  dsimp only
  rw [checkPos_eq hle₃]
  exact answer_bind fun _ _ => rfl

theorem newServerStamp_eq (bin : Bytes) :
    newServerStamp bin = answer (DnsStamps.newServerStamp bin) := by
  cases bin with
  | nil => rfl
  | cons proto bs =>
    have hbyte : byteAt (proto :: bs) 0 = pure proto := byteAt_lt (Nat.succ_pos _)
    have hsome : ¬ (proto :: bs).length < 1 := by
      rw [List.length_cons]
      omega
    unfold newServerStamp DnsStamps.newServerStamp
    rw [if_neg hsome, hbyte, pure_bind]
    dsimp only
    split
    · exact newPlainServerStamp_eq _
    split
    · exact newDNSCryptServerStamp_eq _
    split
    · exact newDoHServerStamp_eq _
    split
    · exact newDoTOrDoQServerStamp_eq _ _ _
    split
    · exact newDoTOrDoQServerStamp_eq _ _ _
    · rfl

/-- **The decoder has no fault**, and answers as the decoder on lists. -/
theorem indexed_eq (s : String) :
    newServerStampFromString s = answer (DnsStamps.newServerStampFromString s) := by
  unfold newServerStampFromString DnsStamps.newServerStampFromString
  split
  · cases Base64.decodeString (.ofList (s.toList.drop stampProtocol.toList.length)) with
    | none => rfl
    | some bin => exact newServerStamp_eq bin
  · rfl

/-- **What the decoder does with any text**: it stays in range and ends, and it takes the text
exactly if this carries a well-formed stamp, whose fields it answers, an IP address with the default
port and the hashes without the empty ones. -/
theorem decoder_grammar (s : String) : ∃ r, (newServerStampFromString s).run = .ok r ∧
    ∀ stamp, r = .ok stamp ↔ ∃ w, Carries s w ∧ stamp = readStamp w := by
  refine ⟨DnsStamps.newServerStampFromString s, congrArg ExceptT.run (indexed_eq s),
    fun stamp => ⟨carries_of_ok, ?_⟩⟩
  rintro ⟨w, hw, rfl⟩
  exact hw.decoded

/-- A DoT stamp with two hashes, the first of them empty. -/
def emptyHashStamp : ServerStamp where
  proto := .tls
  hashes := [[], [1]]
  providerName := encode "dns.example.net"

/-- The empty hash is well formed, and is not among the fields that are read. -/
theorem empty_hash_dropped :
    ∃ s stamp, Carries s emptyHashStamp ∧ (newServerStampFromString s).run = .ok (.ok stamp) ∧
    stamp.hashes = [[1]] ∧ stamp.hashes ≠ emptyHashStamp.hashes := by
  have hw : WellFormed emptyHashStamp := by
    refine ⟨?_, ?_, ?_, ?_, ?_, ?_, ⟨rfl, rfl⟩, ?_⟩ <;> decide
  have hcarries := carries_wire hw
  refine ⟨_, readStamp emptyHashStamp, hcarries, ?_, by decide, by decide⟩
  rw [indexed_eq, hcarries.decoded]
  rfl

end Stamps

end ModDNS.Libs.DnsStamps.Indexed
