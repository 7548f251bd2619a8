import ModDNS.Identity.ClientID
import ModDNS.Libs.StampStable

/-!
# The artefacts of a profile and a device

What the API hands out for a profile and a device: the three stamps as texts, and the DNS settings
of a mobileconfig, for HTTPS or for TLS.

* `artefacts_agree`: they all name the same path and the same server name, the stamps are decoded to
  what they were built from, and a client can send the server name, exactly when its first label is
  short enough and does not start with a hyphen.
-/

namespace ModDNS.Identity

open Go Libs.DnsStamps

/-- `ServerConfig`, as far as the artefacts read it. -/
structure ServerConfig where
  dnsDomain : String
  serverAddresses : List String
  serverAddressesIPv6 : List String := []
  doTPort : ℕ := 853
  doQPort : ℕ := 853

/-- `NewDNSStampService`. -/
def newDNSStampService (cfg : ServerConfig) : DNSStampService :=
  { domain := cfg.dnsDomain, primaryIPv4 := cfg.serverAddresses.headD "", doTPort := cfg.doTPort
    doQPort := cfg.doQPort }

/-- DNSSEC, and no logs. -/
def defaultProps : UInt64 := 1 ||| 2

def toStamp (proto : StampProtoType) (stamp : ServerStamp) : Libs.DnsStamps.ServerStamp :=
  { proto, props := defaultProps, serverAddrStr := encode stamp.serverAddrStr
    providerName := encode stamp.providerName,
    path := encode stamp.path }

structure DNSStampResponse where
  doH : String
  doT : String
  doQ : String
  deriving DecidableEq

inductive GenerateErr where
  | config (err : DNSStampError)
  | roundTrip (proto : String) (err : StampErr)
  deriving DecidableEq

/-- The error of a text that is not decoded. -/
def stampErr (stamp : String) : Option StampErr :=
  match newServerStampFromString stamp with
  | .ok _ => none
  | .error err => some err

/-- The whole of `GenerateStamps`: the stamps as texts, once they have been decoded again. -/
def generateStampTexts (m : MapOrder) (s : DNSStampService) (profileId deviceId : String) :
    Except GenerateErr DNSStampResponse :=
  match generateStamps s profileId deviceId with
  | .error err => .error (.config err)
  | .ok stamps =>
    let resp : DNSStampResponse :=
      { doH := string (toStamp .doH stamps.doH), doT := string (toStamp .tls stamps.doT),
        doQ := string (toStamp .doQ stamps.doQ) }
    let texts := [("doh", resp.doH), ("dot", resp.doT), ("doq", resp.doQ)]
    match (m.order (texts.map Prod.fst)).findSome? fun proto =>
      (stampErr (mapGet texts proto)).map fun err => (proto, err) with
    | some (proto, err) => .error (.roundTrip proto err)
    | none => .ok resp

/-- `MobileConfigReq`; `encryptionType` is in its advanced options, if it has any. -/
structure MobileConfigReq where
  profileId : String
  deviceId : String
  encryptionType : Option String

inductive MobileConfigErr where
  | profileIDRequired
  | profileIDTooLong
  | invalidEncryptionType (encryptionType : String)
  deriving DecidableEq

def maxProfileIdLength : ℕ := 64

/-- `AppleService.validate`. -/
def validateMobileConfig (req : MobileConfigReq) : Except MobileConfigErr MobileConfigReq :=
  if req.profileId = "" then .error .profileIDRequired
  else if maxProfileIdLength < len req.profileId then .error .profileIDTooLong
  else
    match req.encryptionType with
    | none => .ok { req with deviceId := normalize req.deviceId }
    | some encryptionType =>
      if encryptionType ∉ ["", "https", "tls"] then .error (.invalidEncryptionType encryptionType)
      else .ok { req with deviceId := normalize req.deviceId }

structure MobileConfig where
  profileId : String
  deviceId : String
  deviceLabelEncoded : String
  encryptionType : String
  serverAddresses : List String
  serverDomain : String

/-- `newMobileConfig`. -/
def newMobileConfig (cfg : ServerConfig) (req : MobileConfigReq) : MobileConfig :=
  { profileId := req.profileId
    deviceId := req.deviceId
    deviceLabelEncoded := if req.deviceId ≠ "" then encodeLabel req.deviceId else ""
    encryptionType :=
      match req.encryptionType with
      | none => ""
      | some encryptionType => if encryptionType ≠ "" then encryptionType else "https"
    serverAddresses := cfg.serverAddresses ++ cfg.serverAddressesIPv6
    serverDomain := cfg.dnsDomain }

/-- One dictionary under `DNSSettings`. -/
inductive DNSSettings where
  | https (serverURL : String)
  | tls (serverAddresses : List String) (serverName : String)
  deriving DecidableEq

/-- The `DNSSettings` of the template. -/
def dnsSettings (c : MobileConfig) : List DNSSettings :=
  (if c.encryptionType = "https" ∨ c.encryptionType = "" then
    [.https (if c.deviceId ≠ "" then
        "https://" ++ c.serverDomain ++ "/dns-query/" ++ c.profileId ++ "/" ++ encodeURL c.deviceId
      else "https://" ++ c.serverDomain ++ "/dns-query/" ++ c.profileId)]
  else []) ++
  if c.encryptionType = "tls" then
    [.tls c.serverAddresses (if c.deviceId ≠ "" then
        c.deviceLabelEncoded ++ "-" ++ c.profileId ++ "." ++ c.serverDomain
      else c.profileId ++ "." ++ c.serverDomain)]
  else []

/-- The DNS settings of `GenerateMobileConfig`. -/
def generateMobileConfig (cfg : ServerConfig) (req : MobileConfigReq) :
    Except MobileConfigErr (List DNSSettings) :=
  (validateMobileConfig req).map fun req => dnsSettings (newMobileConfig cfg req)

/-- A DNS label that can stand in a host name. -/
structure ValidLabel (label : String) : Prop where
  nonempty : label ≠ ""
  length : len label ≤ 63
  chars : ∀ c ∈ label.toList, isAlphanumeric c = true ∨ c = '-'
  first : label.toList.head? ≠ some '-'
  last : label.toList.getLast? ≠ some '-'

def firstLabel (name : String) : String := (splitDots name).headD ""

/-- All the artefacts exist, and name the same path, the same server name and the same address. -/
def Agree (m : MapOrder) (cfg : ServerConfig) (p d : String) : Prop :=
  ∃ (addr path name : String) (stamps : DNSStamps) (resp : DNSStampResponse),
    cfg.serverAddresses.head? = some addr ∧
    generateStamps (newDNSStampService cfg) p d = .ok stamps ∧
    stamps.doH = ⟨addr, cfg.dnsDomain, path⟩ ∧
    stamps.doT = ⟨addr ++ ":" ++ toString cfg.doTPort, name, ""⟩ ∧
    stamps.doQ = ⟨addr ++ ":" ++ toString cfg.doQPort, name, ""⟩ ∧
    generateStampTexts m (newDNSStampService cfg) p d = .ok resp ∧
    newServerStampFromString resp.doH = .ok
    (toStamp .doH ⟨addr ++ ":" ++ toString defaultDoHPort, cfg.dnsDomain, path⟩) ∧
    newServerStampFromString resp.doT = .ok (toStamp .tls stamps.doT) ∧
    newServerStampFromString resp.doQ = .ok (toStamp .doQ stamps.doQ) ∧
    (∀ t ∈ [none, some "https"],
      generateMobileConfig cfg ⟨p, d, t⟩ = .ok [.https ("https://" ++ cfg.dnsDomain ++ path)]) ∧
    generateMobileConfig cfg ⟨p, d, some "tls"⟩ = .ok
    [.tls (cfg.serverAddresses ++ cfg.serverAddressesIPv6) name] ∧
    ValidLabel (firstLabel name)

/-- How long the first label of the server name is. -/
def labelLength (p d : String) : ℕ :=
  if d = "" then p.toList.length else d.toList.length + d.toList.count ' ' + 1 + p.toList.length

/-- A client can send the server name, and a stamp can hold it. -/
structure Sendable (cfg : ServerConfig) (p d : String) : Prop where
  first : d.toList.head? ≠ some ' ' ∧ d.toList.head? ≠ some '-'
  label : labelLength p d ≤ 63
  name : labelLength p d + 1 + (encode cfg.dnsDomain).length ≤ 255

section Label

variable {env : ClientIDEnv} {p d : String}

theorem labelOf_length (cs : List Char) : (labelOf cs).length = cs.length + cs.count ' ' := by
  induction cs with
  | nil => rfl
  | cons c cs ih =>
    by_cases hspace : c = ' '
    · subst hspace
      rw [labelOf_space, List.length_cons, List.length_cons, ih, List.count_cons_self,
        List.length_cons]
      omega
    · rw [labelOf_cons cs hspace, List.length_cons, ih, List.count_cons_of_ne hspace,
        List.length_cons]
      omega

theorem subdomainOf_length (p d : String) : (subdomainOf p d).toList.length = labelLength p d := by
  unfold subdomainOf labelLength
  by_cases hnil : d = ""
  · rw [if_neg (not_not.2 hnil), if_pos hnil]
  · rw [if_pos hnil, if_neg hnil, String.toList_append, String.toList_append, List.length_append,
      List.length_append,
      encodeLabel_toList, labelOf_length]
    rfl

theorem isAlphanumeric_of_profile (hp : IsProfileID env p) {c : Char} (hc : c ∈ p.toList) :
    isAlphanumeric c = true := by
  rcases hp.chars c hc with ⟨ha, hz⟩ | ⟨h0, h9⟩
  · simp [isAlphanumeric, ha, hz]
  · simp [isAlphanumeric, h0, h9]

theorem isAlphanumeric_of_allowed {c : Char} (h : allowed c = true) (hspace : c ≠ ' ')
    (hhyphen : c ≠ '-') :
    isAlphanumeric c = true := by
  simpa [allowed, isAlphanumeric, hspace, hhyphen] using h

theorem subdomainOf_chars (hp : IsProfileID env p) (hd : IsDeviceID d) :
    ∀ c ∈ (subdomainOf p d).toList, isAlphanumeric c = true ∨ c = '-' := by
  intro c hc
  unfold subdomainOf at hc
  split at hc
  · rw [String.toList_append, String.toList_append, encodeLabel_toList, List.mem_append,
      List.mem_append] at hc
    rcases hc with (hc | hc) | hc
    · obtain ⟨b, hb, hc⟩ := List.mem_flatMap.1 hc
      split at hc
      · exact .inr (by simpa using hc)
      · next hspace =>
        obtain rfl := List.mem_singleton.1 hc
        by_cases hhyphen : c = '-'
        · exact .inr hhyphen
        · exact .inl (isAlphanumeric_of_allowed ((isDeviceID_iff.1 hd).1 c hb) hspace hhyphen)
    · exact .inr (by simpa using hc)
    · exact .inl (isAlphanumeric_of_profile hp hc)
  · exact .inl (isAlphanumeric_of_profile hp hc)

theorem isAlphanumeric_lt {c : Char} (h : isAlphanumeric c = true ∨ c = '-') : c.toNat < 0x80 := by
  rcases h with h | rfl
  · simp only [isAlphanumeric, Bool.or_eq_true, Bool.and_eq_true, decide_eq_true_eq] at h
    rcases h with (⟨-, h⟩ | ⟨-, h⟩) | ⟨-, h⟩
    · exact Nat.lt_of_le_of_lt (show c.toNat ≤ 122 from h) (by decide)
    · exact Nat.lt_of_le_of_lt (show c.toNat ≤ 90 from h) (by decide)
    · exact Nat.lt_of_le_of_lt (show c.toNat ≤ 57 from h) (by decide)
  · decide

theorem len_ascii {s : String} (h : ∀ c ∈ s.toList, c.toNat < 0x80) : len s = s.toList.length := by
  have hsize : ∀ c ∈ s.toList, c.utf8Size = 1 := fun c hc => by
    rw [← String.length_utf8EncodeChar, encode_char (h c hc), List.length_singleton]
  rw [len, List.map_congr_left hsize, List.map_const']
  simp

theorem encode_subdomainOf_length (hp : IsProfileID env p) (hd : IsDeviceID d) :
    (encode (subdomainOf p d)).length = labelLength p d := by
  rw [encode_ascii fun c hc => isAlphanumeric_lt (subdomainOf_chars hp hd c hc), List.length_map,
    subdomainOf_length]

theorem firstLabel_dotSNI (hp : IsProfileID env p) (hd : IsDeviceID d) (domain : String) :
    firstLabel (dotSNI domain p d) = subdomainOf p d := by
  obtain ⟨-, hdot⟩ := subdomainOf_ok hp hd
  have htext : (dotSNI domain p d).toList = (subdomainOf p d).toList ++ '.' :: domain.toList := by
    rw [dotSNI_eq, String.toList_append, String.toList_append, List.append_assoc]
    rfl
  rw [firstLabel, splitDots, htext, List.splitOn_append_cons_self_of_not_mem hdot, List.map_cons,
    List.headD_cons,
    String.ofList_toList]

/-- **The first label** is one that can be sent exactly when it is short enough and the device id
starts with neither a space nor a hyphen. -/
theorem validLabel_iff (hp : IsProfileID env p) (hd : IsDeviceID d) :
    ValidLabel (subdomainOf p d) ↔
      (d.toList.head? ≠ some ' ' ∧ d.toList.head? ≠ some '-') ∧ labelLength p d ≤ 63 := by
  have hchars := subdomainOf_chars hp hd
  have hlen : len (subdomainOf p d) = labelLength p d := by
    rw [len_ascii fun c hc => isAlphanumeric_lt (hchars c hc), subdomainOf_length]
  have hprofile : '-' ∉ p.toList := hp.not_mem (by decide)
  have hlast : (subdomainOf p d).toList.getLast? ≠ some '-' := by
    have hsuffix : p.toList <:+ (subdomainOf p d).toList := by
      unfold subdomainOf
      split
      · rw [String.toList_append]
        exact List.suffix_append _ _
      · exact List.suffix_refl _
    obtain ⟨front, hfront⟩ := hsuffix
    rw [← hfront, List.getLast?_append_of_ne_nil _ (ne_empty_iff.1 hp.nonempty)]
    exact fun hhyphen => hprofile (List.mem_of_getLast? hhyphen)
  have hfirst : (subdomainOf p d).toList.head? ≠ some '-' ↔
      d.toList.head? ≠ some ' ' ∧ d.toList.head? ≠ some '-' := by
    by_cases hnil : d = ""
    · have hsub : subdomainOf p d = p := if_neg (not_not.2 hnil)
      rw [hsub, hnil]
      exact iff_of_true (fun hhyphen => hprofile (List.mem_of_head? hhyphen)) ⟨nofun, nofun⟩
    · obtain ⟨c, cs, hcs⟩ := List.exists_cons_of_ne_nil (ne_empty_iff.1 hnil)
      have hsub : (subdomainOf p d).toList = labelOf (c :: cs) ++ ("-" ++ p).toList := by
        rw [subdomainOf, if_pos hnil, String.append_assoc, String.toList_append,
          encodeLabel_toList, hcs]
      rw [hsub, hcs]
      by_cases hspace : c = ' '
      · subst hspace
        simp [labelOf_space]
      · simp [labelOf_cons cs hspace, hspace]
  constructor
  · exact fun h => ⟨hfirst.1 h.first, hlen ▸ h.length⟩
  · exact fun ⟨hd', hlength⟩ =>
      ⟨(subdomainOf_ok hp hd).1, hlen ▸ hlength, hchars, hfirst.2 hd', hlast⟩

end Label

section Agree

variable {env : ClientIDEnv} {m : MapOrder} {cfg : ServerConfig} {ip : IP} {p d : String}

/-- An escaped character takes at most three bytes. -/
theorem escaped_length {c : Char} (h : allowed c = true) :
    ((if shouldEscape c then (String.utf8EncodeChar c).flatMap escapeByte
      else [c]).flatMap String.utf8EncodeChar).length ≤ 3 := by
  by_cases hspace : c = ' '
  · subst hspace
    decide
  · have halnum : isAlphanumeric c = true ∨ c = '-' := by
      by_cases hhyphen : c = '-'
      · exact .inr hhyphen
      · exact .inl (isAlphanumeric_of_allowed h hspace hhyphen)
    have hplain : shouldEscape c = false := by
      rcases halnum with h | rfl
      · simp only [isAlphanumeric, Bool.or_eq_true] at h
        simp only [shouldEscape, Bool.not_eq_false', Bool.or_eq_true]
        tauto
      · decide
    rw [hplain, if_neg Bool.false_ne_true, List.flatMap_singleton,
      encode_char (isAlphanumeric_lt halnum),
      List.length_singleton]
    decide

theorem encode_encodeURL_length (hd : IsDeviceID d) : (encode (encodeURL d)).length ≤ 108 := by
  have hall : ∀ cs : List Char, (∀ c ∈ cs, allowed c = true) →
      ((cs.flatMap fun c => if shouldEscape c then (String.utf8EncodeChar c).flatMap escapeByte
        else [c]).flatMap
        String.utf8EncodeChar).length ≤ 3 * cs.length := by
    intro cs h
    induction cs with
    | nil => exact le_rfl
    | cons c cs ih =>
      obtain ⟨hc, hcs⟩ := List.forall_mem_cons.1 h
      have hc' := escaped_length hc
      have hcs' := ih hcs
      rw [List.flatMap_cons, List.flatMap_append, List.length_append, List.length_cons]
      omega
  obtain ⟨hchars, hlen⟩ := isDeviceID_iff.1 hd
  have hpath := hall d.toList hchars
  unfold encodeURL
  split
  · exact Nat.zero_le _
  · rw [pathEscape, encode, String.toList_ofList]
    unfold maxLength at hlen
    omega

theorem encode_profile_length (hp : IsProfileID env p) : (encode p).length = p.toList.length := by
  rw [encode_ascii fun c hc => isAlphanumeric_lt (.inl (isAlphanumeric_of_profile hp hc)),
    List.length_map]

theorem profile_le_label (p d : String) : p.toList.length ≤ labelLength p d := by
  unfold labelLength
  split <;> omega

theorem encode_dohPath_length (hp : IsProfileID env p) (hd : IsDeviceID d) :
    11 ≤ (encode (dohPath p d)).length ∧ (encode (dohPath p d)).length ≤ 120 + p.toList.length := by
  have hroot : (encode ("/" ++ segment ++ "/")).length = 11 := by decide
  have hslash : (encode "/").length = 1 := by decide
  have hurl := encode_encodeURL_length hd
  have hprofile := encode_profile_length hp
  unfold dohPath
  dsimp only
  split
  · rw [encode_append, List.length_append]
    omega
  · rw [encode_append, encode_append, encode_append, List.length_append, List.length_append,
      List.length_append]
    omega

/-- What the server is configured with: an IPv4 address first, a domain, and ports that are Go
integers. -/
structure Configured (cfg : ServerConfig) (ip : IP) : Prop where
  addr : cfg.serverAddresses.head? = some (ipv4String ip)
  ip : ip.length = 4
  domain : cfg.dnsDomain ≠ ""
  doTPort : cfg.doTPort < 2 ^ 63
  doQPort : cfg.doQPort < 2 ^ 63

theorem Configured.primary (h : Configured cfg ip) :
    (newDNSStampService cfg).primaryIPv4 = ipv4String ip := by
  rw [newDNSStampService, List.headD_eq_head?_getD, h.addr, Option.getD_some]

theorem generateStamps_eq (h : Configured cfg ip) (p d : String) :
    generateStamps (newDNSStampService cfg) p d =
    .ok { doH := ⟨ipv4String ip, cfg.dnsDomain, dohPath p d⟩
          doT := ⟨ipv4String ip ++ ":" ++ toString cfg.doTPort, dotSNI cfg.dnsDomain p d, ""⟩
          doQ := ⟨ipv4String ip ++ ":" ++ toString cfg.doQPort,
            dotSNI cfg.dnsDomain p d, ""⟩ } := by
  have hne : ipv4String ip ≠ "" := by
    rw [ne_empty_iff, ← List.length_pos_iff]
    exact Nat.lt_of_lt_of_le (by decide) (ipv4String_length h.ip).2
  rw [generateStamps, h.primary, if_neg hne]
  exact if_neg h.domain

theorem encode_ne_nil {s : String} (h : s ≠ "") : 0 < (encode s).length := by
  obtain ⟨c, cs, hcs⟩ := List.exists_cons_of_ne_nil (ne_empty_iff.1 h)
  rw [encode, hcs, List.flatMap_cons, List.length_append, String.length_utf8EncodeChar]
  exact Nat.lt_of_lt_of_le (Char.utf8Size_pos c) (Nat.le_add_right _ _)

theorem encode_dotSNI_length (hp : IsProfileID env p) (hd : IsDeviceID d) (domain : String) :
    (encode (dotSNI domain p d)).length = labelLength p d + 1 + (encode domain).length := by
  rw [dotSNI_eq, encode_append, encode_append, List.length_append, List.length_append,
    encode_subdomainOf_length hp hd]
  rfl

theorem labelLength_pos (hp : IsProfileID env p) (d : String) : 0 < labelLength p d :=
  Nat.lt_of_lt_of_le (List.length_pos_iff.2 (ne_empty_iff.1 hp.nonempty)) (profile_le_label p d)

/-- The DoH stamp is decoded to what it was built from, with the default port. -/
theorem doH_decoded (h : Configured cfg ip) (hp : IsProfileID env p) (hd : IsDeviceID d)
    (hs : Sendable cfg p d) :
    newServerStampFromString (string (toStamp .doH ⟨ipv4String ip, cfg.dnsDomain, dohPath p d⟩)) =
      .ok (toStamp .doH ⟨ipv4String ip ++ ":" ++ toString defaultDoHPort, cfg.dnsDomain,
        dohPath p d⟩) := by
  obtain ⟨hmin, hmax⟩ := ip_length h.ip
  have hstrip := stripPort_ip ip defaultDoHPort
  obtain ⟨hroot, hpath⟩ := encode_dohPath_length hp hd
  have hprofile := profile_le_label p d
  have hlabel := hs.label
  have hname := hs.name
  have hfits : Fits (toStamp .doH ⟨ipv4String ip, cfg.dnsDomain, dohPath p d⟩) := by
    refine ⟨?_, ?_, ?_, ?_⟩
    · show (stripPort defaultDoHPort (encode (ipv4String ip))).length ≤ 255
      rw [hstrip]
      omega
    · show (encode cfg.dnsDomain).length ≤ 255
      omega
    · show (encode (dohPath p d)).length ≤ 255
      omega
    · exact Nat.le_trans (Nat.le_of_succ_le hroot) (Nat.le_add_left _ _)
  rw [plain_roundTrip rfl ⟨rfl, rfl⟩ hfits fun hne => absurd rfl hne]
  have haddr : decodedAddr (toStamp .doH ⟨ipv4String ip, cfg.dnsDomain, dohPath p d⟩) =
      encode (ipv4String ip ++ ":" ++ toString defaultDoHPort) := withPort_ip h.ip
  rw [haddr]
  rfl

/-- A DoT or DoQ stamp with a port is decoded to what it was built from. -/
theorem named_decoded (h : Configured cfg ip) (hp : IsProfileID env p) (hd : IsDeviceID d)
    (hs : Sendable cfg p d) {proto : StampProtoType} (hproto : proto = .tls ∨ proto = .doQ)
    {port : ℕ} (hport : port < 2 ^ 63) :
    newServerStampFromString
        (string (toStamp proto ⟨ipv4String ip ++ ":" ++ toString port,
          dotSNI cfg.dnsDomain p d, ""⟩)) =
      .ok (toStamp proto ⟨ipv4String ip ++ ":" ++ toString port,
        dotSNI cfg.dnsDomain p d, ""⟩) := by
  obtain ⟨hmin, hmax⟩ := @stripPort_port_length ip proto.defaultPort port h.ip hport
  have hname := hs.name
  have hdomain := encode_ne_nil h.domain
  have hlabel := labelLength_pos hp d
  have hlength := encode_dotSNI_length hp hd cfg.dnsDomain
  have hfits : Fits
      (toStamp proto ⟨ipv4String ip ++ ":" ++ toString port, dotSNI cfg.dnsDomain p d, ""⟩) := by
    refine ⟨hmax, ?_, Nat.zero_le _, ?_⟩
    · show (encode (dotSNI cfg.dnsDomain p d)).length ≤ 255
      omega
    · show 10 ≤
        (stripPort proto.defaultPort (encode (ipv4String ip ++ ":" ++ toString port))).length +
        (encode (dotSNI cfg.dnsDomain p d)).length + 0
      omega
  have hhas :
      (toStamp proto ⟨ipv4String ip ++ ":" ++ toString port, dotSNI cfg.dnsDomain p d,
        ""⟩).proto.hasHashes = true := by
    rcases hproto with rfl | rfl <;> rfl
  rw [plain_roundTrip hhas ⟨rfl, rfl⟩ hfits fun _ => rfl]
  have haddr : decodedAddr
    (toStamp proto ⟨ipv4String ip ++ ":" ++ toString port, dotSNI cfg.dnsDomain p d, ""⟩) =
      encode (ipv4String ip ++ ":" ++ toString port) := withPort_port h.ip
  rw [haddr]
  rfl

theorem generateStampTexts_eq (h : Configured cfg ip) (hp : IsProfileID env p) (hd : IsDeviceID d)
    (hs : Sendable cfg p d) :
    generateStampTexts m (newDNSStampService cfg) p d =
      .ok { doH := string (toStamp .doH ⟨ipv4String ip, cfg.dnsDomain, dohPath p d⟩)
            doT := string
              (toStamp .tls ⟨ipv4String ip ++ ":" ++ toString cfg.doTPort,
                dotSNI cfg.dnsDomain p d, ""⟩)
            doQ := string
              (toStamp .doQ ⟨ipv4String ip ++ ":" ++ toString cfg.doQPort,
                dotSNI cfg.dnsDomain p d, ""⟩) } := by
  have hdoH := doH_decoded h hp hd hs
  have hdoT := named_decoded h hp hd hs (.inl rfl) h.doTPort
  have hdoQ := named_decoded h hp hd hs (.inr rfl) h.doQPort
  rw [generateStampTexts, generateStamps_eq h]
  dsimp only
  set doH := string (toStamp .doH ⟨ipv4String ip, cfg.dnsDomain, dohPath p d⟩)
  set doT :=
    string (toStamp .tls ⟨ipv4String ip ++ ":" ++ toString cfg.doTPort,
      dotSNI cfg.dnsDomain p d, ""⟩)
  set doQ :=
    string (toStamp .doQ ⟨ipv4String ip ++ ":" ++ toString cfg.doQPort,
      dotSNI cfg.dnsDomain p d, ""⟩)
  have hnone : ∀ proto ∈ m.order ["doh", "dot", "doq"],
      ((stampErr (mapGet [("doh", doH), ("dot", doT), ("doq", doQ)] proto)).map fun err =>
        (proto, err)) = none := by
    intro proto hproto
    rw [m.mem_order] at hproto
    simp only [List.mem_cons, List.not_mem_nil, or_false] at hproto
    rcases hproto with rfl | rfl | rfl
    · show (stampErr doH).map _ = none
      rw [stampErr, hdoH]
      rfl
    · show (stampErr doT).map _ = none
      rw [stampErr, hdoT]
      rfl
    · show (stampErr doQ).map _ = none
      rw [stampErr, hdoQ]
      rfl
  have hall : ((m.order ["doh", "dot", "doq"]).findSome? fun proto =>
      (stampErr (mapGet [("doh", doH), ("dot", doT), ("doq", doQ)] proto)).map fun err =>
        (proto, err)) = none :=
    List.findSome?_eq_none_iff.2 hnone
  simp only [List.map_cons, List.map_nil, hall]

/-- The DNS settings of a mobileconfig. -/
theorem generateMobileConfig_eq (hp : IsProfileID env p) (hd : IsDeviceID d)
    (hlength : p.toList.length ≤ maxProfileIdLength) (cfg : ServerConfig) :
    (∀ t ∈ [none, some "https"],
      generateMobileConfig cfg ⟨p, d, t⟩ = .ok
        [.https ("https://" ++ cfg.dnsDomain ++ dohPath p d)]) ∧
      generateMobileConfig cfg ⟨p, d, some "tls"⟩ =
        .ok [.tls (cfg.serverAddresses ++ cfg.serverAddressesIPv6) (dotSNI cfg.dnsDomain p d)] := by
  have hlen : ¬ maxProfileIdLength < len p := by
    rw [len_ascii fun c hc => isAlphanumeric_lt (.inl (isAlphanumeric_of_profile hp hc))]
    exact Nat.not_lt.2 hlength
  have hvalid : ∀ t : Option String, (∀ e ∈ t, e ∈ ["", "https", "tls"]) →
      generateMobileConfig cfg ⟨p, d, t⟩ = .ok (dnsSettings (newMobileConfig cfg ⟨p, d, t⟩)) := by
    intro t ht
    have hnormal : normalize d = d := hd.symm
    rw [generateMobileConfig, validateMobileConfig, if_neg hp.nonempty, if_neg hlen]
    cases t with
    | none => simp only [hnormal, Except.map]
    | some e => simp only [not_not.2 (ht e rfl), if_false, hnormal, Except.map]
  have hroot : "/" ++ segment ++ "/" ++ p = "/dns-query/" ++ p := rfl
  have hpath : "https://" ++ cfg.dnsDomain ++ dohPath p d = if d ≠ "" then
      "https://" ++ cfg.dnsDomain ++ "/dns-query/" ++ p ++ "/" ++ encodeURL d
      else "https://" ++ cfg.dnsDomain ++ "/dns-query/" ++ p := by
    unfold dohPath
    dsimp only
    rw [hroot]
    by_cases hnil : d = "" <;> simp only [hnil, ne_eq, not_true_eq_false, not_false_eq_true,
      if_true, if_false, String.append_assoc]
  constructor
  · intro t ht
    rw [hpath]
    simp only [List.mem_cons, List.not_mem_nil, or_false] at ht
    rcases ht with rfl | rfl
    · exact hvalid none nofun
    · exact hvalid (some "https") fun e he => by cases he; decide
  · have hname : dotSNI cfg.dnsDomain p d = if d ≠ "" then
        (if d ≠ "" then encodeLabel d else "") ++ "-" ++ p ++ "." ++ cfg.dnsDomain
          else p ++ "." ++ cfg.dnsDomain := by
      unfold dotSNI
      split <;> rfl
    rw [hname]
    exact hvalid (some "tls") fun e he => by cases he; decide

/-- All the artefacts agree, if the server name can be sent. -/
theorem agree_of_sendable (h : Configured cfg ip) (hp : IsProfileID env p) (hd : IsDeviceID d)
    (hs : Sendable cfg p d) :
    Agree m cfg p d := by
  have hlength : p.toList.length ≤ maxProfileIdLength :=
    Nat.le_trans (profile_le_label p d) (Nat.le_trans hs.label (by decide))
  obtain ⟨hhttps, htls⟩ := generateMobileConfig_eq hp hd hlength cfg
  refine ⟨ipv4String ip, dohPath p d, dotSNI cfg.dnsDomain p d, _, _, h.addr,
    generateStamps_eq h p d, rfl, rfl, rfl,
    generateStampTexts_eq h hp hd hs, doH_decoded h hp hd hs,
    named_decoded h hp hd hs (.inl rfl) h.doTPort,
    named_decoded h hp hd hs (.inr rfl) h.doQPort, hhttps, htls, ?_⟩
  rw [firstLabel_dotSNI hp hd]
  exact (validLabel_iff hp hd).2 ⟨hs.first, hs.label⟩

/-- Artefacts that agree have a server name that can be sent. -/
theorem sendable_of_agree (h : Configured cfg ip) (hp : IsProfileID env p) (hd : IsDeviceID d)
    (hagree : Agree m cfg p d) :
    Sendable cfg p d := by
  obtain ⟨addr, path, name, stamps, resp, -, hstamps, -, hdoT, -, -, -, hdecoded, -, -, -,
      hlabel⟩ := hagree
  rw [generateStamps_eq h] at hstamps
  obtain rfl := Except.ok.inj hstamps
  obtain rfl : dotSNI cfg.dnsDomain p d = name := congrArg ServerStamp.providerName hdoT
  rw [firstLabel_dotSNI hp hd] at hlabel
  obtain ⟨hfirst, hlength⟩ := (validLabel_iff hp hd).1 hlabel
  have hname : (encode (dotSNI cfg.dnsDomain p d)).length ≤ 255 := providerName_short hdecoded
  rw [encode_dotSNI_length hp hd] at hname
  exact ⟨hfirst, hlength, hname⟩

end Agree

/-- **Every artefact carries the same identity** exactly when a client can send the first label of
the server name: with its spaces doubled it has at most 63 bytes, and it starts with neither a space
nor a hyphen; and the server name fits into a stamp. -/
theorem artefacts_agree (env : ClientIDEnv) (m : MapOrder) (cfg : ServerConfig) (ip : IP)
    (p d : String) (hcfg : Configured cfg ip) (hp : IsProfileID env p) (hd : IsDeviceID d) :
    Agree m cfg p d ↔ Sendable cfg p d :=
  ⟨sendable_of_agree hcfg hp hd, agree_of_sendable hcfg hp hd⟩

section Examples

def exampleConfig : ServerConfig :=
  { dnsDomain := "dns.moddns.net", serverAddresses := ["192.0.2.1"] }

def exampleOrder : MapOrder := ⟨id, List.Perm.refl⟩

theorem exampleConfigured : Configured exampleConfig [192, 0, 2, 1] :=
  ⟨by decide, by decide, by decide, by decide, by decide⟩

/-- A device id of the greatest length, half of it spaces. -/
def spacedDevice : String := "a b c d e f g h i j k l m n o p q r "

theorem spaced_label :
    IsDeviceID spacedDevice ∧ ¬ Agree exampleOrder exampleConfig "abcde12345" spacedDevice := by
  have hd : IsDeviceID spacedDevice := by decide
  refine ⟨hd, fun hagree => ?_⟩
  have hlength := (sendable_of_agree exampleConfigured exampleProfile hd hagree).label
  exact absurd hlength (by decide)

theorem artefacts_agree_room : Agree exampleOrder exampleConfig "abcde12345" "Living Room-2" ↔
    Sendable exampleConfig "abcde12345" "Living Room-2" :=
  artefacts_agree exampleEnv exampleOrder exampleConfig
  [192, 0, 2, 1] "abcde12345" "Living Room-2" exampleConfigured
    exampleProfile (by decide)

end Examples

end ModDNS.Identity
