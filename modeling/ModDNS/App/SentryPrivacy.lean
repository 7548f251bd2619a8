import Mathlib.Data.List.Basic
import ModDNS.Go.Net

/-!
# The URLs that are reported to Sentry

`scrubUrl` takes the identifiers of profiles and devices out of a URL, a path or a message. A text
is the list of its characters, and an exception is `none`.
-/

namespace ModDNS.App.SentryPrivacy

open Go (hexDigit)

abbrev Text := List Char

section Language

/-- `\s` of a regular expression. -/
def isSpace (c : Char) : Bool :=
  (0x09 ≤ c.toNat && c.toNat ≤ 0x0D) || (0x2000 ≤ c.toNat && c.toNat ≤ 0x200A) ||
    c.toNat ∈ [0x20, 0xA0, 0x1680, 0x2028, 0x2029, 0x202F, 0x205F, 0x3000, 0xFEFF]

/-- `s.split(sep, 2)`: the first piece, and the second one; what follows is dropped. -/
def split2 (sep : Char) (s : Text) : Text × Option Text :=
  (s.takeWhile (· ≠ sep),
    match s.dropWhile (· ≠ sep) with
    | [] => none
    | _ :: rest => some (rest.takeWhile (· ≠ sep)))

/-- A byte that is escaped, and what follows. -/
def escapedByte : Text → Option (ℕ × Text)
  | '%' :: a :: b :: cs => do
    let hi ← hexDigit a
    let lo ← hexDigit b
    return (16 * hi + lo, cs)
  | _ => none

/-- A further byte of a character. -/
def continuation (s : Text) : Option (ℕ × Text) := do
  let (b, rest) ← escapedByte s
  if 0x80 ≤ b ∧ b < 0xC0 then return (b - 0x80, rest) else none

/-- A character of UTF-8 whose bytes are escaped. -/
def escapedChar (s : Text) : Option (Char × Text) := do
  let (b, rest) ← escapedByte s
  if b < 0x80 then return (Char.ofNat b, rest)
  else if 0xC0 ≤ b ∧ b < 0xE0 then
    let (x, rest) ← continuation rest
    let code := (b - 0xC0) * 0x40 + x
    if 0x80 ≤ code then return (Char.ofNat code, rest) else none
  else if 0xE0 ≤ b ∧ b < 0xF0 then
    let (x, rest) ← continuation rest
    let (y, rest) ← continuation rest
    let code := ((b - 0xE0) * 0x40 + x) * 0x40 + y
    if 0x800 ≤ code ∧ ¬ (0xD800 ≤ code ∧ code < 0xE000) then
      return (Char.ofNat code, rest) else none
  else if 0xF0 ≤ b ∧ b < 0xF8 then
    let (x, rest) ← continuation rest
    let (y, rest) ← continuation rest
    let (z, rest) ← continuation rest
    let code := (((b - 0xF0) * 0x40 + x) * 0x40 + y) * 0x40 + z
    if 0x10000 ≤ code ∧ code < 0x110000 then return (Char.ofNat code, rest) else none
  else none

/-- The loop of `decodeURIComponent`, with as many rounds as there are characters. -/
def decodeLoop : ℕ → Text → Option Text
  | _, [] => some []
  | 0, _ => none
  | n + 1, c :: cs =>
    if c = '%' then do
      let (d, rest) ← escapedChar (c :: cs)
      let ds ← decodeLoop n rest
      return d :: ds
    else (decodeLoop n cs).map (c :: ·)

/-- `decodeURIComponent`; `none` is a `URIError`. -/
def decodeURIComponent (s : Text) : Option Text := decodeLoop s.length s

/-- `toLowerCase`, of ASCII: no other character has a lower case that is in the name of a
parameter. -/
def toLowerCase (s : Text) : Text := s.map Char.toLower

end Language

section Code

def FILTERED : Text := "[Filtered]".toList

def ID_PARAMS : List Text :=
  ["device_id", "device", "profile_id", "profile", "id"].map String.toList

/-- `[^/?#\s]`. -/
def inSegment (c : Char) : Bool := c ≠ '/' && c ≠ '?' && c ≠ '#' && !isSpace c

/-- `replace(/(marker)[^/?#\s]+/gi, "$1label")`, with so many characters that have been replaced
already. -/
def replaceAfter (marker label : Text) : ℕ → Text → Text
  | _, [] => []
  | skip + 1, _ :: cs => replaceAfter marker label skip cs
  | 0, c :: cs =>
    let run := ((c :: cs).drop marker.length).takeWhile inSegment
    if marker.isPrefixOf (toLowerCase (c :: cs)) ∧ run ≠ [] then
      (c :: cs).take marker.length ++ label ++ replaceAfter marker label
        (marker.length + run.length - 1) cs
    else c :: replaceAfter marker label 0 cs

def cleanPath (path : Text) : Text :=
  replaceAfter "/dns-query/".toList ":profile_id".toList 0
    (replaceAfter "/devices/".toList ":device_id".toList 0
      (replaceAfter "/profiles/".toList ":profile_id".toList 0 path))

/-- A parameter of the query. -/
def scrubPair (pair : Text) : Option Text :=
  match split2 '=' pair with
  | (_, none) => some pair
  | (k, some _) => do
    let name ← decodeURIComponent k
    return if toLowerCase name ∈ ID_PARAMS then k ++ '=' :: FILTERED else pair

def scrubQuery (query : Text) : Option Text := do
  let params ← (query.splitOn '&').mapM scrubPair
  return ['&'].intercalate params

/-- What is before the fragment. -/
def scrubBefore (beforeHash : Text) : Option Text :=
  match split2 '?' beforeHash with
  | (path, none) => some (cleanPath path)
  | (path, some query) => (scrubQuery query).map fun params => cleanPath path ++ '?' :: params

def scrubUrl (url : Text) : Option Text :=
  if url = [] then some url
  else
    match split2 '#' url with
    | (beforeHash, none) => scrubBefore beforeHash
    | (beforeHash, some hash) => (scrubBefore beforeHash).map fun out => out ++ '#' :: hash

end Code

/-- A parameter whose value is an identifier. -/
def namesId (pair : Text) : Bool :=
  (split2 '=' pair).2.isSome && (decodeURIComponent (split2 '=' pair).1).any fun name =>
    toLowerCase name ∈ ID_PARAMS

end ModDNS.App.SentryPrivacy
