import Mathlib.Data.List.Chain
import ModDNS.Go.Url

/-!
# Device ids

A device id is text of letters, digits, spaces and hyphens. A DNS label has no spaces:
`encodeLabel` writes each as two hyphens, and `decodeLabel` reads two hyphens as a space.

* `decodeLabel_encodeLabel`: reading a written device id gives it back exactly when no
  hyphen of it stands before a hyphen or a space.
-/

namespace ModDNS.Identity

open Go

def maxLength : ℕ := 36

/-- The characters `[A-Za-z0-9 -]` that `Normalize` keeps. -/
def allowed (c : Char) : Bool :=
  ('a' ≤ c && c ≤ 'z') || ('A' ≤ c && c ≤ 'Z') || ('0' ≤ c && c ≤ '9') || c = ' ' || c = '-'

/-- `deviceid.Normalize`. -/
def normalize (raw : String) : String := .ofList ((raw.toList.filter allowed).take maxLength)

/-- `deviceid.EncodeLabel`. -/
def encodeLabel (logical : String) : String :=
  if logical = "" then "" else replaceAll logical " " "--"

/-- `deviceid.DecodeLabel`. -/
def decodeLabel (label : String) : String :=
  if label = "" then "" else replaceAll label "--" " "

/-- `deviceid.EncodeURL`. -/
def encodeURL (logical : String) : String :=
  if logical = "" then "" else pathEscape logical

/-- `deviceid.SanitizeForDNS`. -/
def sanitizeForDNS (device : String) : String := encodeLabel (normalize (decodeLabel device))

/-- `dohpath.Segment`. -/
def segment : String := "dns-query"

/-- `dohpath.For`. -/
def dohPath (profileId deviceId : String) : String :=
  let p := "/" ++ segment ++ "/" ++ profileId
  if deviceId = "" then p else p ++ "/" ++ encodeURL deviceId

/-- A device id that the API accepts: `deviceIDValidation`. -/
def IsDeviceID (d : String) : Prop := d = normalize d

instance (d : String) : Decidable (IsDeviceID d) := inferInstanceAs (Decidable (_ = _))

/-- No hyphen stands before a hyphen or a space. -/
def Unambiguous (d : String) : Prop := d.toList.IsChain fun a b => a = '-' → b ≠ '-' ∧ b ≠ ' '

instance (d : String) : Decidable (Unambiguous d) :=
  inferInstanceAs (Decidable (List.IsChain _ _))

theorem isDeviceID_iff {d : String} :
    IsDeviceID d ↔ (∀ c ∈ d.toList, allowed c = true) ∧ d.toList.length ≤ maxLength := by
  constructor
  · intro h
    have hlist : d.toList = (d.toList.filter allowed).take maxLength := by
      conv_lhs => rw [h]
      rw [normalize, String.toList_ofList]
    constructor
    · intro c hc
      rw [hlist] at hc
      exact (List.mem_filter.1 (List.mem_of_mem_take hc)).2
    · rw [hlist, List.length_take]
      exact Nat.min_le_left _ _
  · rintro ⟨hchars, hlen⟩
    rw [IsDeviceID, normalize, List.filter_eq_self.2 hchars, List.take_of_length_le hlen,
      String.ofList_toList]

section Label

/-- The label of a device id: each space as two hyphens. -/
def labelOf (cs : List Char) : List Char := cs.flatMap fun c => if c = ' ' then ['-', '-'] else [c]

/-- What `decodeLabel` reads in a label. -/
def readLabel : List Char → List Char
  | '-' :: '-' :: cs => ' ' :: readLabel cs
  | c :: cs => c :: readLabel cs
  | [] => []

theorem encodeLabel_toList (d : String) : (encodeLabel d).toList = labelOf d.toList := by
  have hlist : ∀ cs : List Char, replaceAllList [' '] ['-', '-'] 0 cs = labelOf cs := by
    intro cs
    induction cs with
    | nil => rfl
    | cons c cs ih =>
      rw [replaceAllList, labelOf, List.flatMap_cons]
      by_cases hc : c = ' '
      · subst hc
        simpa [labelOf] using ih
      · simpa [List.isPrefixOf, hc, Ne.symm hc, labelOf] using ih
  unfold encodeLabel
  split
  · next h => rw [h]; rfl
  · rw [replaceAll, String.toList_ofList]
    exact hlist d.toList

theorem decodeLabel_toList (label : String) :
    (decodeLabel label).toList = readLabel label.toList := by
  have hlist : ∀ cs : List Char, replaceAllList ['-', '-'] [' '] 0 cs = readLabel cs := by
    intro cs
    fun_induction readLabel cs with
    | case1 cs ih => simpa [replaceAllList, List.isPrefixOf] using ih
    | case2 c cs hne ih =>
      rw [replaceAllList, ih, if_neg]
      intro hpre
      obtain ⟨t, ht⟩ := List.isPrefixOf_iff_prefix.1 hpre
      cases ht
      exact hne t rfl rfl
    | case3 => rfl
  unfold decodeLabel
  split
  · next h => rw [h]; rfl
  · rw [replaceAll, String.toList_ofList]
    exact hlist label.toList

theorem labelOf_space (cs : List Char) : labelOf (' ' :: cs) = '-' :: '-' :: labelOf cs := rfl

theorem labelOf_cons {c : Char} (cs : List Char) (h : c ≠ ' ') :
    labelOf (c :: cs) = c :: labelOf cs := by
  simp [labelOf, h]

theorem space_not_mem_labelOf (cs : List Char) : ' ' ∉ labelOf cs := by
  intro h
  obtain ⟨c, -, hc⟩ := List.mem_flatMap.1 h
  split at hc
  · simp at hc
  · next hne => exact hne (List.mem_singleton.1 hc).symm

theorem readLabel_hyphens (cs : List Char) :
    readLabel ('-' :: '-' :: cs) = ' ' :: readLabel cs := rfl

theorem readLabel_cons {c : Char} {cs : List Char} (h : c = '-' → cs.head? ≠ some '-') :
    readLabel (c :: cs) = c :: readLabel cs := by
  rw [readLabel]
  rintro cs' rfl rfl
  exact h rfl rfl

/-- Reading a label gives no more characters than were written, also behind a hyphen. -/
theorem readLabel_length (cs : List Char) :
    (readLabel (labelOf cs)).length ≤ cs.length ∧ (readLabel ('-' :: labelOf cs)).length ≤
      cs.length + 1 := by
  induction cs with
  | nil => exact ⟨Nat.le_refl _, Nat.le_refl _⟩
  | cons c cs ih =>
    obtain ⟨hplain, hbehind⟩ := ih
    by_cases hspace : c = ' '
    · subst hspace
      rw [labelOf_space, readLabel_hyphens, readLabel_hyphens]
      simp only [List.length_cons]
      omega
    · rw [labelOf_cons cs hspace]
      by_cases hhyphen : c = '-'
      · subst hhyphen
        rw [readLabel_hyphens]
        simp only [List.length_cons]
        omega
      · rw [@readLabel_cons '-' (c :: labelOf cs) (by simpa using hhyphen),
          readLabel_cons (by simp [hhyphen])]
        simp only [List.length_cons]
        omega

theorem mem_readLabel {c : Char} {cs : List Char} (h : c ∈ readLabel cs) : c ∈ cs ∨ c = ' ' := by
  fun_induction readLabel cs with
  | case1 cs ih =>
    rcases List.mem_cons.1 h with rfl | h
    · exact .inr rfl
    · exact (ih h).imp_left fun h => List.mem_cons_of_mem _ (List.mem_cons_of_mem _ h)
  | case2 d cs _ ih =>
    rcases List.mem_cons.1 h with rfl | h
    · exact .inl (List.mem_cons_self ..)
    · exact (ih h).imp_left (List.mem_cons_of_mem _)
  | case3 => cases h

/-- What is read in a label never has a hyphen before a hyphen or a space. -/
theorem readLabel_chain {cs : List Char} (h : ' ' ∉ cs) :
    (readLabel cs).IsChain fun a b => a = '-' → b ≠ '-' ∧ b ≠ ' ' := by
  fun_induction readLabel cs with
  | case1 cs ih =>
    have hcs : ' ' ∉ cs := fun hm => h (List.mem_cons_of_mem _ (List.mem_cons_of_mem _ hm))
    exact List.IsChain.cons (ih hcs) fun b _ hb => absurd hb (by decide)
  | case2 c cs hne ih =>
    refine List.IsChain.cons (ih fun hm => h (List.mem_cons_of_mem _ hm)) ?_
    rintro b hb rfl
    -- the character behind a single hyphen is read as it stands
    cases cs with
    | nil => cases hb
    | cons d cs =>
      have hd : d ≠ '-' := fun hd => hne cs rfl (by rw [hd])
      rw [readLabel_cons (fun hd' => absurd hd' hd)] at hb
      obtain rfl : d = b := by simpa using hb
      exact ⟨hd, fun hspace => h (by simp [hspace])⟩
  | case3 => exact .nil

theorem readLabel_labelOf {cs : List Char} (h : cs.IsChain fun a b => a = '-' → b ≠ '-' ∧ b ≠ ' ') :
    readLabel (labelOf cs) = cs := by
  induction cs with
  | nil => rfl
  | cons c cs ih =>
    have ih' := ih h.tail
    by_cases hspace : c = ' '
    · subst hspace
      rw [labelOf_space, readLabel_hyphens, ih']
    · rw [labelOf_cons cs hspace, readLabel_cons, ih']
      rintro rfl
      cases cs with
      | nil => exact nofun
      | cons d cs =>
        obtain ⟨hd, hd'⟩ := (List.isChain_cons_cons.1 h).1 rfl
        rw [labelOf_cons cs hd']
        simpa using hd

/-- **Labels are read back** exactly when no hyphen stands before a hyphen or a space. -/
theorem decodeLabel_encodeLabel (d : String) : decodeLabel (encodeLabel d) = d ↔ Unambiguous d := by
  rw [← String.toList_inj, decodeLabel_toList, encodeLabel_toList]
  constructor
  · intro h
    have hchain := readLabel_chain (space_not_mem_labelOf d.toList)
    rwa [h] at hchain
  · exact readLabel_labelOf

/-- What is read in the label of a device id is one again, and reads back. -/
theorem decodeLabel_isDeviceID {d : String} (hd : IsDeviceID d) :
    IsDeviceID (decodeLabel (encodeLabel d)) ∧ Unambiguous (decodeLabel (encodeLabel d)) := by
  have hlist : (decodeLabel (encodeLabel d)).toList = readLabel (labelOf d.toList) := by
    rw [decodeLabel_toList, encodeLabel_toList]
  obtain ⟨hchars, hlen⟩ := isDeviceID_iff.1 hd
  refine ⟨isDeviceID_iff.2 ⟨fun c hc => ?_, ?_⟩, ?_⟩
  · rw [hlist] at hc
    rcases mem_readLabel hc with hc | rfl
    · obtain ⟨b, hb, hc⟩ := List.mem_flatMap.1 hc
      split at hc
      · obtain rfl : c = '-' := by simpa using hc
        rfl
      · rw [List.mem_singleton.1 hc]
        exact hchars b hb
    · rfl
  · rw [hlist]
    exact Nat.le_trans (readLabel_length _).1 hlen
  · rw [Unambiguous, hlist]
    exact readLabel_chain (space_not_mem_labelOf _)

end Label

end ModDNS.Identity
