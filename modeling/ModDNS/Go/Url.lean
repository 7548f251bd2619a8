import ModDNS.Go.Net

/-!
# Go's `net/url` escapes and `path.Clean`

The escape functions work on bytes. What they decode is kept as the character of its
byte, which is the text itself as long as it is ASCII.
-/

namespace ModDNS.Go

def upperHex (n : ℕ) : Char := "0123456789ABCDEF".toList.getD n '0'

/-- `shouldEscape(c, encodePathSegment)`. -/
def shouldEscape (c : Char) : Bool :=
  !(('a' ≤ c && c ≤ 'z') || ('A' ≤ c && c ≤ 'Z') || ('0' ≤ c && c ≤ '9') ||
    c ∈ ['-', '_', '.', '~', '$', '&', '+', '=', ':', '@'])

def escapeByte (b : UInt8) : List Char := ['%', upperHex (b.toNat / 16), upperHex (b.toNat % 16)]

/-- `url.PathEscape`. -/
def pathEscape (s : String) : String :=
  .ofList (s.toList.flatMap fun c =>
    if shouldEscape c then (String.utf8EncodeChar c).flatMap escapeByte else [c])

/-- `unescape`; `none` is an invalid escape. The query mode reads `+` as a space. -/
def unescape (query : Bool) : List Char → Option (List Char)
  | [] => some []
  | '%' :: a :: b :: cs => do
    let hi ← hexDigit a
    let lo ← hexDigit b
    return Char.ofNat (16 * hi + lo) :: (← unescape query cs)
  | c :: cs =>
    if c = '%' then none
    else (unescape query cs).map ((if query && c = '+' then ' ' else c) :: ·)

/-- `url.PathUnescape`, which is also how the HTTP server reads `URL.Path`. -/
def pathUnescape (s : String) : Option String := (unescape false s.toList).map .ofList

/-- `url.QueryUnescape`. -/
def queryUnescape (s : String) : Option String := (unescape true s.toList).map .ofList

/-- One element of the path in `path.Clean`. -/
def cleanStep (rooted : Bool) (out : List String) (elem : String) : List String :=
  if elem = "" ∨ elem = "." then out
  else if elem = ".." then
    match out.getLast? with
    | some e => if e = ".." then out ++ [elem] else out.dropLast
    | none => if rooted then out else out ++ [elem]
  else out ++ [elem]

/-- `path.Clean`. -/
def clean (path : String) : String :=
  let rooted := hasPrefix path "/"
  let elems := (split path '/').foldl (cleanStep rooted) []
  let out := (if rooted then "/" else "") ++ join elems '/'
  if out = "" then "." else out

theorem unescape_cons {query : Bool} {c : Char} (cs : List Char) (h : c ≠ '%') (hplus : c ≠ '+') :
    unescape query (c :: cs) = (unescape query cs).map (c :: ·) := by
  rw [unescape]
  · simp [h, hplus]
  · rintro a b cs' rfl
    exact absurd rfl h

/-- A text without `%` and `+` is read as it is. -/
theorem unescape_append {query : Bool} {cs : List Char} (ds : List Char)
    (h : ∀ c ∈ cs, c ≠ '%' ∧ c ≠ '+') :
    unescape query (cs ++ ds) = (unescape query ds).map (cs ++ ·) := by
  induction cs with
  | nil => simp
  | cons c cs ih =>
    obtain ⟨⟨hc, hplus⟩, hcs⟩ := List.forall_mem_cons.1 h
    rw [List.cons_append, unescape_cons _ hc hplus, ih hcs, Option.map_map]
    rfl

theorem queryUnescape_eq {s : String} (h : ∀ c ∈ s.toList, c ≠ '%' ∧ c ≠ '+') :
    queryUnescape s = some s := by
  have hlist : unescape true (s.toList ++ []) = some (s.toList ++ []) := unescape_append [] h
  rw [List.append_nil] at hlist
  rw [queryUnescape, hlist, Option.map_some, String.ofList_toList]

/-- Cleaning keeps elements that are neither empty nor dots. -/
theorem foldl_cleanStep {rooted : Bool} {elems : List String}
    (h : ∀ e ∈ elems, e ≠ "" ∧ e ≠ "." ∧ e ≠ "..") (out : List String) :
    elems.foldl (cleanStep rooted) out = out ++ elems := by
  induction elems generalizing out with
  | nil => rw [List.foldl_nil, List.append_nil]
  | cons e elems ih =>
    obtain ⟨⟨hempty, hdot, hdots⟩, helems⟩ := List.forall_mem_cons.1 h
    have hstep : cleanStep rooted out e = out ++ [e] := by simp [cleanStep, hempty, hdot, hdots]
    rw [List.foldl_cons, hstep, ih helems, List.append_assoc, List.singleton_append]

/-- A rooted path of such elements is clean. -/
theorem clean_rooted {elems : List String} (h : ∀ e ∈ elems, e ≠ "" ∧ e ≠ "." ∧ e ≠ "..")
    (hslash : ∀ e ∈ elems, '/' ∉ e.toList) (hne : elems ≠ []) :
    clean ("/" ++ join elems '/') = "/" ++ join elems '/' ∧
      split ("/" ++ join elems '/') '/' = "" :: elems := by
  have hsplit : split ("/" ++ join elems '/') '/' = "" :: elems := by
    have hcons : ("/" ++ join elems '/').toList = [] ++ '/' :: ['/'].intercalate
        (elems.map String.toList) := by
      simp [join, String.toList_append]
    have hparts : (['/'].intercalate (elems.map String.toList)).splitOn '/' =
      elems.map String.toList :=
      List.splitOn_intercalate '/' (by simpa using hslash) (by simpa using hne)
    rw [split, hcons, List.splitOn_append_cons_self_of_not_mem (by simp), hparts]
    simp [Function.comp_def]
  refine ⟨?_, hsplit⟩
  have hrooted : hasPrefix ("/" ++ join elems '/') "/" = true := by
    simp [hasPrefix, String.toList_append]
  have hfold : ("" :: elems).foldl (cleanStep true) [] = elems := by
    rw [List.foldl_cons, show cleanStep true [] "" = [] from rfl, foldl_cleanStep h,
      List.nil_append]
  rw [clean, hrooted, hsplit, hfold, if_pos rfl, if_neg]
  intro hnil
  have hlist := congrArg String.toList hnil
  simp [String.toList_append] at hlist

end ModDNS.Go
