import ModDNS.Identity.DeviceID

/-!
# Profile and device of a request

What the API writes into a DNS stamp for a profile and a device, and how the proxy reads
the two back: from the path of a DoH request, and from the server name of a DoT or DoQ
connection.

* `doh_identity`: the path of a profile and a device id is read back as the two.
* `dot_identity`: so is the server name, exactly when the device id is unambiguous.
-/

namespace ModDNS.Identity

open Go

/-- A `dnsstamps.ServerStamp`, as far as the three stamps of a profile differ. -/
structure ServerStamp where
  serverAddrStr : String
  providerName : String
  path : String
  deriving DecidableEq

/-- `DNSStampService`: the configured domain, address and ports. -/
structure DNSStampService where
  domain : String
  primaryIPv4 : String
  doTPort : ℕ
  doQPort : ℕ

inductive DNSStampError where
  | noServerAddress
  | noServerDomain
  deriving DecidableEq

structure DNSStamps where
  doH : ServerStamp
  doT : ServerStamp
  doQ : ServerStamp
  deriving DecidableEq

/-- The server name of the DoT and DoQ stamps. -/
def dotSNI (domain profileId deviceId : String) : String :=
  if deviceId ≠ "" then encodeLabel deviceId ++ "-" ++ profileId ++ "." ++ domain
  else profileId ++ "." ++ domain

/-- `GenerateStamps`, before the stamps are encoded as text. -/
def generateStamps (s : DNSStampService) (profileId deviceId : String) :
    Except DNSStampError DNSStamps :=
  if s.primaryIPv4 = "" then .error .noServerAddress
  else if s.domain = "" then .error .noServerDomain
  else
    let dotSNI := dotSNI s.domain profileId deviceId
    .ok { doH := ⟨s.primaryIPv4, s.domain, dohPath profileId deviceId⟩
          doT := ⟨s.primaryIPv4 ++ ":" ++ toString s.doTPort, dotSNI, ""⟩
          doQ := ⟨s.primaryIPv4 ++ ":" ++ toString s.doQPort, dotSNI, ""⟩ }

/-- The configured length of a profile id, and the functions of `netutil` in use. -/
structure ClientIDEnv where
  profileIDMinLength : ℕ
  validateHostnameLabel : String → Bool
  isImmediateSubdomain : String → String → Bool

inductive ClientIDError where
  | noRequest
  | invalidPath (origPath : String)
  | tooManyParts (origPath : String)
  | undecodableDeviceID (part : String)
  | serverNameMismatch (cliSrvName hostSrvName : String)
  | noProfileID (subdomain : String)
  | invalidClientID (id : String)
  | sliceOutOfRange
  deriving DecidableEq

def isAlphanumeric (c : Char) : Bool :=
  ('a' ≤ c && c ≤ 'z') || ('A' ≤ c && c ≤ 'Z') || ('0' ≤ c && c ≤ '9')

/-- `isValidProfileID`. -/
def isValidProfileID (env : ClientIDEnv) (s : String) : Bool :=
  !(len s < env.profileIDMinLength) && s.toList.all isAlphanumeric

/-- The last of the parts that can be a profile id. -/
def profileIDIndex (env : ClientIDEnv) (parts : List String) : Option ℕ :=
  (List.range parts.length).reverse.find? fun i => isValidProfileID env (parts.getD i "")

/-- `clientIDFromClientServerName`. -/
def clientIDFromClientServerName (env : ClientIDEnv) (hostSrvName cliSrvName : String)
    (strict : Bool) :
    Except ClientIDError (String × String) :=
  if hostSrvName = cliSrvName then .ok ("", "")
  else if !env.isImmediateSubdomain cliSrvName hostSrvName then
    if !strict then .ok ("", "") else .error (.serverNameMismatch cliSrvName hostSrvName)
  else
    match sliceTo cliSrvName (len cliSrvName - len hostSrvName - 1) with
    | none => .error .sliceOutOfRange
    | some subdomain =>
      let parts := split subdomain '-'
      match profileIDIndex env parts with
      | none => .error (.noProfileID subdomain)
      | some i =>
        let clientID := parts.getD i ""
        let deviceId :=
          if 0 < i then normalize (decodeLabel (sanitizeForDNS (join (parts.take i) '-'))) else ""
        if env.validateHostnameLabel clientID then .ok (toLower clientID, deviceId)
        else .error (.invalidClientID clientID)

/-- `clientIDFromDNSContextHTTPS`, on the decoded path of the request, if there is one. -/
def clientIDFromDNSContextHTTPS (env : ClientIDEnv) :
    Option String → Except ClientIDError (String × String)
  | none => .error .noRequest
  | some origPath =>
    let parts := split (clean origPath) '/'
    let parts := if parts.head? = some "" then parts.tail else parts
    let validated (clientID deviceId : String) : Except ClientIDError (String × String) :=
      if env.validateHostnameLabel clientID then .ok (toLower clientID, deviceId)
      else .error (.invalidClientID clientID)
    if parts.head? ≠ some segment then .error (.invalidPath origPath)
    else
      match parts.tail with
      | [] => .ok ("", "")
      | [clientID] => validated clientID ""
      | [clientID, part] =>
        match queryUnescape part with
        | none => .error (.undecodableDeviceID part)
        | some deviceId => validated clientID (normalize deviceId)
      | _ => .error (.tooManyParts origPath)

/-- A DoH request for the path of the stamp: the HTTP server decodes the path once. -/
def dohIdentity (env : ClientIDEnv) (profileId deviceId : String) :
    Except ClientIDError (String × String) :=
  clientIDFromDNSContextHTTPS env (pathUnescape (dohPath profileId deviceId))

/-- A DoT or DoQ connection to the server name of the stamp. -/
def dotIdentity (env : ClientIDEnv) (strict : Bool) (domain profileId deviceId : String) :
    Except ClientIDError (String × String) :=
  clientIDFromClientServerName env domain (dotSNI domain profileId deviceId) strict

/-- A profile id as the API issues them: lower-case letters and digits, of at least the
configured length. The generator makes none that is empty. -/
structure IsProfileID (env : ClientIDEnv) (p : String) : Prop where
  chars : ∀ c ∈ p.toList, ('a' ≤ c ∧ c ≤ 'z') ∨ ('0' ≤ c ∧ c ≤ '9')
  length : env.profileIDMinLength ≤ p.toList.length
  nonempty : p ≠ ""

namespace IsProfileID

variable {env : ClientIDEnv} {p : String}

theorem toLower_eq (h : IsProfileID env p) : toLower p = p := by
  have hlist : p.toList.map toLowerRune = p.toList := by
    refine (List.map_congr_left fun c hc => toLowerRune_eq ?_).trans (List.map_id' _)
    rcases h.chars c hc with ⟨ha, hz⟩ | ⟨h0, h9⟩
    · have ha' : 97 ≤ c.toNat := ha
      have hz' : c.toNat ≤ 122 := hz
      omega
    · have h9' : c.toNat ≤ 57 := h9
      omega
  rw [toLower, hlist, String.ofList_toList]

/-- A character that no profile id has. -/
theorem not_mem (h : IsProfileID env p) {c : Char} (hc : c.toNat < 48) : c ∉ p.toList := by
  intro hm
  rcases h.chars c hm with ⟨ha, -⟩ | ⟨h0, -⟩
  · have ha' : 97 ≤ c.toNat := ha
    omega
  · have h0' : 48 ≤ c.toNat := h0
    omega

theorem valid (h : IsProfileID env p) : isValidProfileID env p = true := by
  have hlen : p.toList.length ≤ len p := by
    have hsum : ∀ cs : List Char, cs.length ≤ (cs.map Char.utf8Size).sum := by
      intro cs
      induction cs with
      | nil => exact Nat.le_refl _
      | cons c cs ih =>
        have hpos : 0 < c.utf8Size := Char.utf8Size_pos c
        simp only [List.length_cons, List.map_cons, List.sum_cons]
        omega
    exact hsum p.toList
  have hmin := h.length
  rw [isValidProfileID, Bool.and_eq_true]
  constructor
  · simp
    omega
  · refine List.all_eq_true.2 fun c hc => ?_
    rcases h.chars c hc with ⟨ha, hz⟩ | ⟨h0, h9⟩
    · simp [isAlphanumeric, ha, hz]
    · simp [isAlphanumeric, h0, h9]

end IsProfileID

section DoH

variable {env : ClientIDEnv} {p d : String}

/-- The elements of the path of a profile and a device. -/
def pathElems (p d : String) : List String := segment :: p :: if d = "" then [] else [d]

theorem allowed_plain {c : Char} (h : allowed c = true) :
    c ≠ '%' ∧ c ≠ '+' ∧ c ≠ '/' ∧ c ≠ '.' := by
  refine ⟨?_, ?_, ?_, ?_⟩ <;> rintro rfl <;> revert h <;> decide

/-- An escaped device id is decoded to itself. -/
theorem unescape_pathEscape (hd : ∀ c ∈ d.toList, allowed c = true) :
    unescape false (pathEscape d).toList = some d.toList := by
  rw [pathEscape, String.toList_ofList]
  generalize d.toList = cs at hd ⊢
  induction cs with
  | nil => rfl
  | cons c cs ih =>
    obtain ⟨hc, hcs⟩ := List.forall_mem_cons.1 hd
    rw [List.flatMap_cons]
    by_cases hspace : c = ' '
    · subst hspace
      have hcode : (if shouldEscape ' ' then (String.utf8EncodeChar ' ').flatMap escapeByte
        else [' ']) =
          ['%', '2', '0'] := by decide
      rw [hcode, List.cons_append, List.cons_append, List.cons_append, List.nil_append,
        unescape, ih hcs]
      rfl
    · have hplain : shouldEscape c = false := by
        have hc' := hc
        simp only [allowed, hspace, decide_false, Bool.or_false] at hc'
        simp only [shouldEscape, Bool.not_eq_false']
        grind
      rw [hplain, if_neg Bool.false_ne_true, List.singleton_append,
        unescape_cons _ (allowed_plain hc).1 (allowed_plain hc).2.1, ih hcs, Option.map_some]

theorem pathElems_ok (hp : IsProfileID env p) (hd : IsDeviceID d) :
    ∀ e ∈ pathElems p d, (e ≠ "" ∧ e ≠ "." ∧ e ≠ "..") ∧ ∀ c ∈ e.toList, c ≠ '%' ∧
      c ≠ '+' ∧ c ≠ '/' := by
  have hdots : ∀ e : String, e ≠ "" → '.' ∉ e.toList → e ≠ "" ∧ e ≠ "." ∧ e ≠ ".." := by
    intro e hne hdot
    refine ⟨hne, ?_, ?_⟩ <;> rintro rfl <;> simp at hdot
  have hchars := (isDeviceID_iff.1 hd).1
  intro e he
  rcases List.mem_cons.1 he with rfl | he
  · have hall : segment.toList.all (fun c => c ≠ '%' ∧ c ≠ '+' ∧ c ≠ '/') = true := by decide
    exact ⟨by decide, fun c hc => by simpa using List.all_eq_true.1 hall c hc⟩
  rcases List.mem_cons.1 he with rfl | he
  · refine ⟨hdots e hp.nonempty (hp.not_mem (by decide)), fun c hc => ?_⟩
    refine ⟨?_, ?_, ?_⟩ <;> rintro rfl <;> exact hp.not_mem (by decide) hc
  · by_cases hnil : d = ""
    · rw [if_pos hnil] at he
      cases he
    · rw [if_neg hnil] at he
      obtain rfl := List.mem_singleton.1 he
      refine ⟨hdots e hnil fun hdot => (allowed_plain (hchars _ hdot)).2.2.2 rfl, fun c hc => ?_⟩
      obtain ⟨hpercent, hplus, hslash, -⟩ := allowed_plain (hchars c hc)
      exact ⟨hpercent, hplus, hslash⟩

/-- The path of the stamp, after the HTTP server has decoded it. -/
theorem pathUnescape_dohPath (hp : IsProfileID env p) (hd : IsDeviceID d) :
    pathUnescape (dohPath p d) = some ("/" ++ join (pathElems p d) '/') := by
  have hprofile : ∀ c ∈ p.toList, c ≠ '%' ∧ c ≠ '+' := fun c hc => by
    refine ⟨?_, ?_⟩ <;> rintro rfl <;> exact hp.not_mem (by decide) hc
  have hplain : ∀ c ∈ ("/" ++ segment ++ "/" ++ p).toList, c ≠ '%' ∧ c ≠ '+' := by
    intro c hc
    rw [String.toList_append, List.mem_append] at hc
    rcases hc with hc | hc
    · have hall : ("/" ++ segment ++ "/").toList.all (fun c => c ≠ '%' ∧ c ≠ '+') = true := by
        decide
      simpa using List.all_eq_true.1 hall c hc
    · exact hprofile c hc
  rw [pathUnescape, dohPath]
  by_cases hnil : d = ""
  · have hpath := @unescape_append false _ [] hplain
    rw [List.append_nil] at hpath
    rw [if_pos hnil, hpath]
    simp [unescape, pathElems, join, hnil, String.toList_append]
  · have hplain' : ∀ c ∈ ("/" ++ segment ++ "/" ++ p ++ "/").toList, c ≠ '%' ∧ c ≠ '+' := by
      intro c hc
      rw [String.toList_append, List.mem_append] at hc
      rcases hc with hc | hc
      · exact hplain c hc
      · obtain rfl : c = '/' := by simpa using hc
        decide
    rw [if_neg hnil, encodeURL, if_neg hnil, String.toList_append, unescape_append _ hplain',
      unescape_pathEscape (isDeviceID_iff.1 hd).1]
    simp [pathElems, join, hnil, String.toList_append]

/-- Cleaning leaves the path, and it has no further segments. -/
theorem path_clean (hp : IsProfileID env p) (hd : IsDeviceID d) :
    clean ("/" ++ join (pathElems p d) '/') = "/" ++ join (pathElems p d) '/' ∧
      split ("/" ++ join (pathElems p d) '/') '/' = "" :: pathElems p d := by
  refine clean_rooted (fun e he => (pathElems_ok hp hd e he).1) (fun e he hslash => ?_)
    (List.cons_ne_nil _ _)
  exact ((pathElems_ok hp hd e he).2 '/' hslash).2.2 rfl

/-- A clean path of these segments is read as profile and device. -/
theorem clientIDFromDNSContextHTTPS_eq (hp : IsProfileID env p)
    (hlabel : env.validateHostnameLabel p = true) (hd : IsDeviceID d) {path : String}
    (hclean : clean path = path) (hsplit : split path '/' = "" :: pathElems p d) :
    clientIDFromDNSContextHTTPS env (some path) = .ok (p, d) := by
  unfold clientIDFromDNSContextHTTPS
  by_cases hnil : d = ""
  · simp [hclean, hsplit, pathElems, hnil, hlabel, hp.toLower_eq]
  · have hchars := (isDeviceID_iff.1 hd).1
    have hquery : queryUnescape d = some d := queryUnescape_eq fun c hc =>
      ⟨(allowed_plain (hchars c hc)).1, (allowed_plain (hchars c hc)).2.1⟩
    have hnorm : normalize d = d := hd.symm
    simp [hclean, hsplit, pathElems, hnil, hquery, hlabel, hnorm, hp.toLower_eq]

/-- A DoH request is read as its profile and device. -/
theorem dohIdentity_eq (hp : IsProfileID env p) (hlabel : env.validateHostnameLabel p = true)
    (hd : IsDeviceID d) :
    dohIdentity env p d = .ok (p, d) := by
  obtain ⟨hclean, hsplit⟩ := path_clean hp hd
  rw [dohIdentity, pathUnescape_dohPath hp hd]
  exact clientIDFromDNSContextHTTPS_eq hp hlabel hd hclean hsplit

/-- **The DoH path carries profile and device.** The decoded path is clean, has no segments but
theirs, and is read as the two; so two pairs never meet. -/
theorem doh_identity (env : ClientIDEnv) (p d : String) (hp : IsProfileID env p)
    (hlabel : env.validateHostnameLabel p = true) (hd : IsDeviceID d) :
    dohIdentity env p d = .ok (p, d) ∧
      (∃ path, pathUnescape (dohPath p d) = some path ∧ clean path = path ∧
        split path '/' = "" :: segment :: p :: if d = "" then [] else [d]) ∧
      ∀ p' d', IsProfileID env p' → env.validateHostnameLabel p' = true → IsDeviceID d' →
        dohIdentity env p' d' = dohIdentity env p d → p' = p ∧ d' = d := by
  refine ⟨dohIdentity_eq hp hlabel hd, ⟨_, pathUnescape_dohPath hp hd, path_clean hp hd⟩, ?_⟩
  intro p' d' hp' hlabel' hd' heq
  rw [dohIdentity_eq hp' hlabel' hd', dohIdentity_eq hp hlabel hd] at heq
  cases heq
  exact ⟨rfl, rfl⟩

end DoH

section DoT

variable {env : ClientIDEnv} {p d : String}

/-- The parts of the subdomain end in the profile id, which is found. -/
theorem profileIDIndex_append (hp : IsProfileID env p) (parts : List String) :
    profileIDIndex env (parts ++ [p]) = some parts.length := by
  rw [profileIDIndex, List.length_append, List.length_singleton, List.range_succ,
    List.reverse_append,
    List.reverse_singleton, List.singleton_append, List.find?_cons_of_pos]
  simpa using hp.valid

/-- The device part of a server name, as the proxy reads it. -/
theorem deviceOf_label (hd : IsDeviceID d) :
    normalize (decodeLabel (sanitizeForDNS (encodeLabel d))) = decodeLabel (encodeLabel d) := by
  obtain ⟨hread, hchain⟩ := decodeLabel_isDeviceID hd
  have hnorm : normalize (decodeLabel (encodeLabel d)) = decodeLabel (encodeLabel d) := hread.symm
  rw [sanitizeForDNS, hnorm, (decodeLabel_encodeLabel _).2 hchain, hnorm]

theorem label_no_dot (hd : IsDeviceID d) : '.' ∉ (encodeLabel d).toList := by
  rw [encodeLabel_toList]
  intro h
  obtain ⟨c, hc, hdot⟩ := List.mem_flatMap.1 h
  split at hdot
  · simp at hdot
  · obtain rfl := List.mem_singleton.1 hdot
    exact (allowed_plain ((isDeviceID_iff.1 hd).1 _ hc)).2.2.2 rfl

/-- The subdomain of the server name, in front of the domain. -/
def subdomainOf (p d : String) : String := if d ≠ "" then encodeLabel d ++ "-" ++ p else p

theorem dotSNI_eq (domain p d : String) : dotSNI domain p d = subdomainOf p d ++ "." ++ domain := by
  unfold dotSNI subdomainOf
  split <;> rfl

theorem subdomainOf_ok (hp : IsProfileID env p) (hd : IsDeviceID d) :
    subdomainOf p d ≠ "" ∧ '.' ∉ (subdomainOf p d).toList := by
  unfold subdomainOf
  split
  · constructor
    · intro hnil
      have hlist := congrArg String.toList hnil
      simp [String.toList_append] at hlist
    · rw [String.toList_append, String.toList_append]
      simp only [List.mem_append, not_or]
      exact ⟨⟨label_no_dot hd, by decide⟩, hp.not_mem (by decide)⟩
  · exact ⟨hp.nonempty, hp.not_mem (by decide)⟩

/-- What the proxy cuts off the server name. -/
theorem sliceTo_dotSNI (domain p d : String) :
    sliceTo (dotSNI domain p d) (len (dotSNI domain p d) - len domain - 1) = some
      (subdomainOf p d) := by
  have hdot : len "." = 1 := by decide
  have hlen : len (dotSNI domain p d) - len domain - 1 = len (subdomainOf p d) := by
    rw [dotSNI_eq, len_append, len_append, hdot]
    omega
  rw [hlen, dotSNI_eq, String.append_assoc, sliceTo_append]

theorem dotSNI_ne (domain p d : String) : domain ≠ dotSNI domain p d := by
  intro heq
  have hlen := congrArg (fun s => s.toList.length) heq
  rw [dotSNI_eq] at hlen
  simp [String.toList_append] at hlen
  omega

/-- The parts of the subdomain: those of the label, and the profile id. -/
theorem split_subdomainOf (hp : IsProfileID env p) :
    split (subdomainOf p d) '-' = (if d ≠ "" then split (encodeLabel d) '-' else []) ++ [p] := by
  have hhyphen : '-' ∉ p.toList := hp.not_mem (by decide)
  unfold subdomainOf
  split
  · have hsep : "-" = String.singleton '-' := by
      rw [← String.toList_inj, String.toList_singleton]; rfl
    rw [hsep]
    exact split_append p hhyphen
  · rw [split, List.splitOn_eq_singleton hhyphen]
    simp

/-- The server name of a stamp is read as its profile, and as what its label says. -/
theorem dotIdentity_eq (hsub : ∀ label host : String, label ≠ "" → '.' ∉ label.toList →
      env.isImmediateSubdomain (label ++ "." ++ host) host = true)
    (strict : Bool) (domain : String) (hp : IsProfileID env p)
    (hlabel : env.validateHostnameLabel p = true)
    (hd : IsDeviceID d) :
    dotIdentity env strict domain p d = .ok (p, decodeLabel (encodeLabel d)) := by
  obtain ⟨hne, hdot⟩ := subdomainOf_ok hp hd
  have himm : env.isImmediateSubdomain (dotSNI domain p d) domain = true := by
    rw [dotSNI_eq]
    exact hsub _ _ hne hdot
  rw [dotIdentity, clientIDFromClientServerName, if_neg (dotSNI_ne domain p d), himm,
    sliceTo_dotSNI]
  simp only [split_subdomainOf hp, profileIDIndex_append hp]
  by_cases hnil : d = ""
  · subst hnil
    simp [hlabel, hp.toLower_eq, encodeLabel, decodeLabel]
  · have hparts : split (encodeLabel d) '-' ≠ [] := by simp [split]
    have hpos : 0 < (split (encodeLabel d) '-').length := List.length_pos_iff.2 hparts
    simp [hnil, hpos, hlabel, hp.toLower_eq, join_split, deviceOf_label hd]

/-- **The DoT server name carries profile and device** exactly when no hyphen of the device id
stands before a hyphen or a space; and then the DoH path agrees. Two device ids of this form are
never read as one. -/
theorem dot_identity (env : ClientIDEnv) (strict : Bool) (domain p d : String)
    (hsub : ∀ label host : String, label ≠ "" → '.' ∉ label.toList →
      env.isImmediateSubdomain (label ++ "." ++ host) host = true)
    (hp : IsProfileID env p) (hlabel : env.validateHostnameLabel p = true) (hd : IsDeviceID d) :
    ((dotIdentity env strict domain p d = .ok (p, d) ∧
        dotIdentity env strict domain p d = dohIdentity env p d) ↔ Unambiguous d) ∧
      ∀ d', IsDeviceID d' → Unambiguous d → Unambiguous d' →
        dotIdentity env strict domain p d' = dotIdentity env strict domain p d → d' = d := by
  have hread : ∀ d', IsDeviceID d' →
      (dotIdentity env strict domain p d' = .ok (p, d') ↔ Unambiguous d') := by
    intro d' hd'
    rw [dotIdentity_eq hsub strict domain hp hlabel hd', ← decodeLabel_encodeLabel]
    simp
  refine ⟨?_, fun d' hd' h h' heq => ?_⟩
  · rw [dohIdentity_eq hp hlabel hd, and_self]
    exact hread d hd
  · rw [(hread d' hd').2 h', (hread d hd).2 h] at heq
    cases heq
    rfl

end DoT

section Examples

/-- `netutil` as far as the examples need it. -/
def exampleEnv : ClientIDEnv where
  profileIDMinLength := 10
  validateHostnameLabel s := s ≠ "" && len s ≤ 63 && s.toList.all fun c =>
    isAlphanumeric c || c = '-'
  isImmediateSubdomain domain top :=
    hasSuffix domain ("." ++ top) && domain.toList.count '.' = top.toList.count '.' + 1

theorem exampleEnv_subdomain (label host : String) (_ : label ≠ "") (hdot : '.' ∉ label.toList) :
    exampleEnv.isImmediateSubdomain (label ++ "." ++ host) host = true := by
  have hsuffix : hasSuffix (label ++ "." ++ host) ("." ++ host) = true := by
    rw [hasSuffix, List.isSuffixOf_iff_suffix]
    exact ⟨label.toList, by simp [String.toList_append]⟩
  have hcount : (label ++ "." ++ host).toList.count '.' = host.toList.count '.' + 1 := by
    simp [String.toList_append, List.count_eq_zero_of_not_mem hdot]
  show (hasSuffix _ _ && decide (_ = _)) = true
  rw [hsuffix, hcount]
  simp

theorem exampleProfile : IsProfileID exampleEnv "abcde12345" := by
  have hall : "abcde12345".toList.all (fun c => ('a' ≤ c ∧ c ≤ 'z') ∨ ('0' ≤ c ∧ c ≤ '9')) =
      true := by decide
  exact ⟨fun c hc => by simpa using List.all_eq_true.1 hall c hc, by decide, by decide⟩

/-- A device id with two hyphens in a row is read as another device, and not as the DoH path has
it. -/
theorem hyphens_read_as_space :
    IsProfileID exampleEnv "abcde12345" ∧ exampleEnv.validateHostnameLabel "abcde12345" = true ∧
      IsDeviceID "a--b" ∧ IsDeviceID "a b" ∧
      dotIdentity exampleEnv false "dns.moddns.net" "abcde12345" "a--b" ≠ .ok
      ("abcde12345", "a--b") ∧
      dotIdentity exampleEnv false "dns.moddns.net" "abcde12345" "a--b" ≠
        dohIdentity exampleEnv "abcde12345" "a--b" ∧
      dotIdentity exampleEnv false "dns.moddns.net" "abcde12345" "a--b" =
        dotIdentity exampleEnv false "dns.moddns.net" "abcde12345" "a b" := by
  have hlabel : exampleEnv.validateHostnameLabel "abcde12345" = true := by decide
  have hdevice : IsDeviceID "a--b" := by decide
  have hdevice' : IsDeviceID "a b" := by decide
  rw [dotIdentity_eq exampleEnv_subdomain false _ exampleProfile hlabel hdevice,
    dotIdentity_eq exampleEnv_subdomain false _ exampleProfile hlabel hdevice',
    dohIdentity_eq exampleProfile hlabel hdevice]
  exact ⟨exampleProfile, hlabel, hdevice, hdevice', by decide, by decide, by decide⟩

theorem dot_identity_room :
    ((dotIdentity exampleEnv false "dns.moddns.net" "abcde12345" "Living Room-2" =
          .ok ("abcde12345", "Living Room-2") ∧
        dotIdentity exampleEnv false "dns.moddns.net" "abcde12345" "Living Room-2" =
          dohIdentity exampleEnv "abcde12345" "Living Room-2") ↔ Unambiguous "Living Room-2") ∧
      ∀ d', IsDeviceID d' → Unambiguous "Living Room-2" → Unambiguous d' →
        dotIdentity exampleEnv false "dns.moddns.net" "abcde12345" d' =
          dotIdentity exampleEnv false "dns.moddns.net" "abcde12345" "Living Room-2" →
            d' = "Living Room-2" :=
  dot_identity exampleEnv false "dns.moddns.net" "abcde12345" "Living Room-2" exampleEnv_subdomain
    exampleProfile (by decide) (by decide)

theorem doh_identity_room :
    dohIdentity exampleEnv "abcde12345" "Living Room-2" = .ok ("abcde12345", "Living Room-2") :=
  (doh_identity exampleEnv "abcde12345" "Living Room-2" exampleProfile (by decide) (by decide)).1

end Examples

end ModDNS.Identity
