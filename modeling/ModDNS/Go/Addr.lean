import ModDNS.Data.Folds
import ModDNS.Go.Net

/-!
# The text of an IP address

* `parseIPv4Fields_ipv4String`: the text of an IPv4 address is read back.
* `parseIP_ipv4String`, `parseIP_port`: it is an IP address, and with a port it is none.
* `parseIP_chars`: the characters of what is an IP address.
-/

namespace ModDNS.Go

/-- An IPv4 address in dotted decimal. -/
def ipv4String (ip : IP) : String := join (ip.map fun b => toString b.toNat) '.'

theorem toString_ne_nil (n : ℕ) : (toString n).toList ≠ [] := by
  rw [toList_toString]
  exact Nat.toDigits_ne_nil

/-- A decimal of an octet has at most three digits, and no leading zero. -/
theorem toString_octet : ∀ n < 256, (toString n).toList.length ≤ 3 ∧
    ¬ ((toString n).toList.head? = some '0' ∧ (toString n).toList.length ≠ 1) := by
  simp only [toList_toString]
  decide +kernel

theorem parseOctet_toString (b : UInt8) : parseOctet (toString b.toNat) = some b := by
  have hlt : b.toNat < 256 := b.toNat_lt
  have hread : parseUint 8 (toString b.toNat) = some b.toNat := parseUint_toString hlt
  rw [parseUint] at hread
  obtain ⟨n, hn, hsome⟩ := Option.bind_eq_some_iff.1 hread
  obtain ⟨-, heq⟩ := Option.ite_none_right_eq_some.1 hsome
  obtain rfl := Option.some.inj heq
  rw [parseOctet, if_neg (toString_octet _ hlt).2, hn, Option.bind_some,
    if_pos (Nat.le_of_lt_succ hlt)]
  exact congrArg some UInt8.ofNat_toNat

theorem splitDots_ipv4String {ip : IP} (hip : ip ≠ []) : splitDots (ipv4String ip) = ip.map fun b =>
    toString b.toNat := by
  refine split_join (by simpa using hip) fun s hs hdot => ?_
  obtain ⟨b, -, rfl⟩ := List.mem_map.1 hs
  exact absurd (isDigit_toString hdot) (by decide)

theorem parseIPv4Fields_ipv4String {ip : IP} (h : ip.length = 4) :
    parseIPv4Fields (ipv4String ip) = some ip := by
  have hip : ip ≠ [] := by
    rintro rfl
    cases h
  have hall : (ip.map fun b => toString b.toNat).mapM parseOctet = some ip := by
    rw [Data.mapM_eq_some_iff, List.map_map]
    exact List.map_congr_left fun b _ => parseOctet_toString b
  rw [parseIPv4Fields, splitDots_ipv4String hip, List.length_map, if_pos h, hall]

/-- The characters of an IPv4 address. -/
theorem mem_ipv4String {ip : IP} {c : Char} (hc : c ∈ (ipv4String ip).toList) :
    c.isDigit = true ∨ c = '.' := by
  rcases mem_join hc with rfl | ⟨s, hs, hc⟩
  · exact .inr rfl
  · obtain ⟨b, -, rfl⟩ := List.mem_map.1 hs
    exact .inl (isDigit_toString hc)

theorem ipv4String_length {ip : IP} (h : ip.length = 4) : (ipv4String ip).toList.length ≤ 15 ∧
    7 ≤ (ipv4String ip).toList.length := by
  obtain ⟨a, b, c, d, rfl⟩ := List.length_eq_four.1 h
  have hoctet : ∀ x : UInt8, (toString x.toNat).toList.length ≤ 3 ∧
      0 < (toString x.toNat).toList.length := fun x =>
    ⟨(toString_octet _ x.toNat_lt).1, List.length_pos_iff.2 (toString_ne_nil _)⟩
  have ha := hoctet a
  have hb := hoctet b
  have hc := hoctet c
  have hd := hoctet d
  rw [ipv4String, join, String.toList_ofList]
  simp only [List.map_cons, List.map_nil, List.intercalate_cons_cons, List.intercalate_singleton,
    List.length_append,
    List.length_singleton]
  omega

/-- What `parseIP` looks at first in an IPv4 address. -/
theorem find_ipv4String {ip : IP} (h : ip.length = 4) (rest : String) :
    (ipv4String ip ++ rest).toList.find? (fun c => c = '.' ∨ c = ':' ∨ c = '%') = some '.' := by
  obtain ⟨a, b, c, d, rfl⟩ := List.length_eq_four.1 h
  have hnone : (toString a.toNat).toList.find? (fun c => c = '.' ∨ c = ':' ∨ c = '%') = none := by
    refine List.find?_eq_none.2 fun x hx => ?_
    have hdigit := isDigit_toString hx
    simp only [decide_eq_true_eq, not_or]
    refine ⟨?_, ?_, ?_⟩ <;> rintro rfl <;> exact absurd hdigit (by decide)
  rw [String.toList_append, ipv4String, join, String.toList_ofList]
  simp only [List.map_cons, List.map_nil, List.intercalate_cons_cons, List.append_assoc]
  rw [List.find?_append, hnone, Option.none_or]
  rfl

theorem parseIP_ipv4String {ip : IP} (h : ip.length = 4) : parseIP (ipv4String ip) ≠ [] := by
  have hfind := find_ipv4String h ""
  rw [String.append_empty] at hfind
  rw [parseIP, hfind, parseIPv4Fields_ipv4String h]
  exact List.append_ne_nil_of_left_ne_nil (List.cons_ne_nil _ _) _

theorem isDigit_of_parseDigits {cs : List Char} {n : ℕ} (h : parseDigits cs = some n) :
    ∀ c ∈ cs, c.isDigit = true := by
  have hfold : ∀ (cs : List Char) (init : ℕ) {n : ℕ},
      cs.foldlM (fun n c => if c.isDigit then some (10 * n + (c.toNat - '0'.toNat))
        else none) init = some n →
        ∀ c ∈ cs, c.isDigit = true := by
    intro cs
    induction cs with
    | nil => exact fun _ _ _ => List.forall_mem_nil _
    | cons c cs ih =>
      intro init n hsome
      rw [List.foldlM_cons] at hsome
      obtain ⟨m, hm, hrest⟩ := Option.bind_eq_some_iff.1 hsome
      exact List.forall_mem_cons.2 ⟨(Option.ite_none_right_eq_some.1 hm).1, ih m hrest⟩
  unfold parseDigits at h
  split at h
  · cases h
  · exact hfold cs 0 h

/-- The fields of an IPv4 address are digits between dots. -/
theorem parseIPv4Fields_chars {s : String} {ip : List UInt8} (h : parseIPv4Fields s = some ip) :
    ∀ c ∈ s.toList, c.isDigit = true ∨ c = '.' := by
  intro c hc
  unfold parseIPv4Fields at h
  obtain ⟨-, hfields⟩ := Option.ite_none_right_eq_some.1 h
  rw [← join_split s '.'] at hc
  rcases mem_join hc with hdot | ⟨part, hpart, hcolon⟩
  · exact .inr hdot
  · have hread : ((splitDots s).mapM parseOctet).isSome = true :=
      Option.isSome_iff_exists.2 ⟨ip, hfields⟩
    obtain ⟨b, hb⟩ := Option.isSome_iff_exists.1 (Data.isSome_mapM.1 hread part hpart)
    obtain ⟨-, hoctet⟩ := Option.ite_none_left_eq_some.1 hb
    obtain ⟨n, hn, -⟩ := Option.bind_eq_some_iff.1 hoctet
    exact .inl (isDigit_of_parseDigits hn c hcolon)

/-- No colon stands in the fields of an IPv4 address. -/
theorem parseIPv4Fields_colon {s : String} (h : ':' ∈ s.toList) : parseIPv4Fields s = none := by
  refine Option.eq_none_iff_forall_ne_some.2 fun ip hsome => ?_
  rcases parseIPv4Fields_chars hsome ':' h with hcolon | hcolon <;> exact absurd hcolon (by decide)

/-- The characters of an IP address. -/
def IPChar (c : Char) : Prop := (hexDigit c).isSome = true ∨ c = '.' ∨ c = ':'

theorem hexDigit_of_isDigit {c : Char} (h : c.isDigit = true) : (hexDigit c).isSome = true := by
  unfold hexDigit
  rw [if_pos h]
  rfl

theorem IPChar.lt {c : Char} (h : IPChar c) : c.toNat < 0x80 := by
  rcases h with h | rfl | rfl
  · unfold hexDigit at h
    split at h
    · next hdigit =>
      have hbounds := isDigit_bounds hdigit
      omega
    split at h
    · next hlower => exact Nat.lt_of_le_of_lt (UInt32.le_iff_toNat_le.1 hlower.2) (by decide)
    split at h
    · next hupper => exact Nat.lt_of_le_of_lt (UInt32.le_iff_toNat_le.1 hupper.2) (by decide)
    · cases h
  · decide
  · decide

theorem IPChar.bracket {c : Char} (h : IPChar c) : c ≠ '[' ∧ c ≠ ']' := by
  constructor <;> rintro rfl <;> revert h <;> unfold IPChar <;> decide

theorem parseIPv6Loop_chars {fuel : ℕ} {s : List Char} {acc acc' : V6Acc}
    (h : parseIPv6Loop fuel s acc = some acc') :
    ∀ c ∈ s, IPChar c := by
  induction fuel generalizing s acc with
  | zero => cases h
  | succ fuel ih =>
    rw [parseIPv6Loop] at h
    split at h
    · obtain ⟨hempty, -⟩ := Option.ite_none_right_eq_some.1 h
      rw [List.isEmpty_iff.1 hempty]
      exact List.forall_mem_nil _
    dsimp only at h
    split at h
    · cases h
    have hsplit :=
      List.prefix_iff_eq_append.1 (List.takeWhile_prefix (l := s) fun c => (hexDigit c).isSome)
    -- one field: its digits, then an IPv4 tail, an end, or colons
    have hdigits : ∀ c ∈ s.takeWhile (fun c => (hexDigit c).isSome), IPChar c := fun c hc =>
      .inl (List.all_eq_true.1 List.all_takeWhile c hc)
    split at h
    · split at h
      · cases h
      · obtain ⟨v4, hv4, -⟩ := Option.map_eq_some_iff.1 h
        intro c hc
        rw [← String.toList_ofList (l := s)] at hc
        exact (parseIPv4Fields_chars hv4 c hc).imp hexDigit_of_isDigit .inl
    · rw [← hsplit]
      refine List.forall_mem_append.2 ⟨hdigits, ?_⟩
      split at h
      · next hrest =>
        rw [hrest]
        exact List.forall_mem_nil _
      · next rest hrest =>
        rw [hrest]
        split at h
        · cases h
        have hall : ∀ c ∈ rest, IPChar c := by
          split at h
          · next hempty =>
            rw [List.isEmpty_iff.1 hempty]
            exact List.forall_mem_nil _
          · exact ih h
        exact List.forall_mem_cons.2
          ⟨.inr (.inr rfl), List.forall_mem_cons.2 ⟨.inr (.inr rfl), hall⟩⟩
      · next hrest =>
        rw [hrest]
        exact List.forall_mem_cons.2 ⟨.inr (.inr rfl), ih h⟩
      · cases h

/-- What is an IP address has no other characters. -/
theorem parseIP_chars {s : String} (h : parseIP s ≠ []) : ∀ c ∈ s.toList, IPChar c := by
  unfold parseIP at h
  split at h
  · cases hfields : parseIPv4Fields s with
    | none =>
      rw [hfields] at h
      exact absurd rfl h
    | some ip => exact fun c hc => (parseIPv4Fields_chars hfields c hc).imp hexDigit_of_isDigit .inl
  · split at h
    · exact absurd rfl h
    cases hparse : parseIPv6 s with
    | none =>
      rw [hparse] at h
      exact absurd rfl h
    | some ip =>
      unfold parseIPv6 at hparse
      split at hparse
      · next htext => rw [htext]; simp [IPChar]
      · next rest _ htext =>
        obtain ⟨acc, hacc, -⟩ := Option.bind_eq_some_iff.1 hparse
        rw [htext]
        exact List.forall_mem_cons.2
          ⟨.inr (.inr rfl), List.forall_mem_cons.2 ⟨.inr (.inr rfl), parseIPv6Loop_chars hacc⟩⟩
      · obtain ⟨acc, hacc, -⟩ := Option.bind_eq_some_iff.1 hparse
        exact parseIPv6Loop_chars hacc
  · exact absurd rfl h

/-- In an IPv4 address a dot comes first, and nothing with a colon behind it is one. -/
theorem parseIP_colon {host rest : String} (h : parseIP host ≠ []) (hv4 : ':' ∉ host.toList)
    (hrest : ':' ∈ rest.toList) :
    parseIP (host ++ rest) = [] := by
  have hfind : (host ++ rest).toList.find? (fun c => c = '.' ∨ c = ':' ∨ c = '%') = some '.' := by
    rw [String.toList_append, List.find?_append]
    unfold parseIP at h
    split at h
    · next hdot =>
      rw [hdot]
      rfl
    · next hcolon => exact absurd (List.mem_of_find?_eq_some hcolon) hv4
    · exact absurd rfl h
  have hcolon : ':' ∈ (host ++ rest).toList := by
    rw [String.toList_append]
    exact List.mem_append_right _ hrest
  rw [parseIP, hfind, parseIPv4Fields_colon hcolon]
  rfl

/-- An IPv4 address with a port is no IP address. -/
theorem parseIP_port {ip : IP} (h : ip.length = 4) (port : String) :
    parseIP (ipv4String ip ++ ":" ++ port) = [] := by
  rw [String.append_assoc]
  refine parseIP_colon (parseIP_ipv4String h) (fun hcolon => ?_) (by simp [String.toList_append])
  rcases mem_ipv4String hcolon with hc | hc <;> exact absurd hc (by decide)

end ModDNS.Go
