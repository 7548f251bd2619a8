import ModDNS.App.SentryPrivacy
import ModDNS.Data.Pieces

/-!
# The segments of a path

One replacement of `scrubUrl`, on the segments of a path: the segment after the word is replaced,
and it is not read as the word for the one after it.

* `replaceAfter_eq`: a replacement is `runOne`.
-/

namespace ModDNS.App.SentryPrivacy

open Data (led led_nil led_cons cut_unique)

section Replace

/-- No capital is a slash. -/
theorem toLower_slash {c : Char} : c.toLower = '/' ↔ c = '/' := by
  constructor
  · intro h
    by_cases hc : 65 ≤ c.val ∧ c.val ≤ 90
    · have hval := congrArg UInt32.toNat (Go.toLower_capital hc)
      rw [h, UInt32.toNat_add, show ('a'.val - 'A'.val).toNat = 32 from rfl,
        show ('/' : Char).val.toNat = 47 from rfl] at hval
      have hA : 65 ≤ c.val.toNat := hc.1
      have hZ : c.val.toNat ≤ 90 := hc.2
      omega
    · rwa [Go.toLower_other hc] at h
  · rintro rfl
    rfl

variable {s t x word label marker : Text} {ss : List Text}

theorem mem_toLowerCase_slash : '/' ∈ toLowerCase s ↔ '/' ∈ s := by
  unfold toLowerCase
  rw [List.mem_map]
  constructor
  · rintro ⟨c, hc, heq⟩
    rwa [toLower_slash.1 heq] at hc
  · exact fun h => ⟨'/', h, rfl⟩

/-- The marker of a word. -/
def slashed (word : Text) : Text := '/' :: (word ++ ['/'])

theorem replaceAfter_skip (marker label : Text) (n : ℕ) (t : Text) :
    replaceAfter marker label n t = replaceAfter marker label 0 (t.drop n) := by
  induction t generalizing n with
  | nil =>
    rw [List.drop_nil]
    cases n <;> rfl
  | cons c t ih =>
    cases n with
    | zero => rfl
    | succ n => exact ih n

/-- There is nothing to replace before the next slash. -/
theorem replaceAfter_plain (hs : '/' ∉ s) :
    replaceAfter (slashed word) label 0 (s ++ t) = s ++ replaceAfter (slashed word) label 0 t := by
  induction s with
  | nil => rfl
  | cons c s ih =>
    have hc : c ≠ '/' := fun heq => hs (heq ▸ List.mem_cons_self ..)
    have hno : ¬ (slashed word).isPrefixOf (toLowerCase (c :: (s ++ t))) = true := by
      intro hpre
      have heq : ('/' == c.toLower) = true := by
        unfold slashed toLowerCase at hpre
        rw [List.map_cons, List.isPrefixOf, Bool.and_eq_true] at hpre
        exact hpre.1
      exact hc (toLower_slash.1 (eq_of_beq heq).symm)
    rw [List.cons_append, replaceAfter, if_neg fun h => hno h.1,
      ih fun h => hs (List.mem_cons_of_mem _ h), List.cons_append]

/-- A segment that starts with an identifier. -/
def starts (s : Text) : Bool := s.takeWhile inSegment ≠ []

/-- The identifier at the start of a segment has been replaced. -/
def relabel (label s : Text) : Text := label ++ s.dropWhile inSegment

/-- One replacement, on segments; it is armed after the word. -/
def runOne (word label : Text) : Bool → List Text → List Text
  | _, [] => []
  | armed, s :: ss =>
    if armed && starts s then relabel label s :: runOne word label false ss
    else s :: runOne word label (toLowerCase s = word) ss

/-- The marker is there where the segment is the word. -/
theorem slashed_iff (hword : '/' ∉ word) (hs : '/' ∉ s) :
    (slashed word).isPrefixOf (toLowerCase ('/' :: (s ++ '/' :: t))) = true ↔
      toLowerCase s = word := by
  have hlower : toLowerCase ('/' :: (s ++ '/' :: t)) = '/' ::
      (toLowerCase s ++ '/' :: toLowerCase t) := by
    unfold toLowerCase
    rw [List.map_cons, List.map_append, List.map_cons]
    rfl
  rw [hlower, List.isPrefixOf_iff_prefix]
  unfold slashed
  constructor
  · rintro ⟨rest, heq⟩
    rw [List.cons_append, List.append_assoc] at heq
    exact (cut_unique hword (fun h => hs (mem_toLowerCase_slash.1 h)) (List.cons.inj heq).2).1.symm
  · rintro rfl
    exact ⟨toLowerCase t, by simp⟩

/-- The last segment is no marker. -/
theorem slashed_last (hs : '/' ∉ s) :
    ¬ (slashed word).isPrefixOf (toLowerCase ('/' :: s)) = true := by
  rw [List.isPrefixOf_iff_prefix]
  rintro ⟨rest, heq⟩
  have hlower : toLowerCase ('/' :: s) = '/' :: toLowerCase s := rfl
  unfold slashed at heq
  rw [hlower, List.cons_append] at heq
  have hmem : '/' ∈ toLowerCase s := by
    rw [← (List.cons.inj heq).2]
    simp
  exact hs (mem_toLowerCase_slash.1 hmem)

/-- An identifier ends at a slash. -/
theorem takeWhile_led : (s ++ led '/' ss).takeWhile inSegment = s.takeWhile inSegment := by
  induction s with
  | nil =>
    cases ss with
    | nil => rfl
    | cons s ss =>
      rw [led_cons, List.nil_append]
      rfl
  | cons c s ih =>
    rw [List.cons_append, List.takeWhile_cons, List.takeWhile_cons, ih]

theorem starts_iff : starts s = true ↔ s.takeWhile inSegment ≠ [] := by
  unfold starts
  exact decide_eq_true_iff

/-- What is left of a segment after its identifier. -/
theorem drop_run : s.drop (s.takeWhile inSegment).length = s.dropWhile inSegment := by
  have hsplit := List.takeWhile_append_dropWhile (p := inSegment) (l := s)
  calc s.drop (s.takeWhile inSegment).length
      = (s.takeWhile inSegment ++ s.dropWhile inSegment).drop (s.takeWhile inSegment).length := by
        rw [hsplit]
    _ = s.dropWhile inSegment := List.drop_left

/-- A word, and a segment after it. -/
theorem replaceAfter_word (hword : '/' ∉ word) (hs : '/' ∉ s) (heq : toLowerCase s = word)
    (hx : starts x = true) (hslash : '/' ∉ x) :
    replaceAfter (slashed word) label 0 ('/' :: (s ++ '/' :: (x ++ led '/' ss))) =
      '/' :: (s ++ '/' :: (relabel label x ++ replaceAfter (slashed word) label 0
        (led '/' ss))) := by
  have hlength : (slashed word).length = s.length + 2 := by
    unfold slashed
    rw [← heq]
    simp [toLowerCase]
  have hsplit : '/' :: (s ++ '/' :: (x ++ led '/' ss)) = ('/' :: (s ++ ['/'])) ++
      (x ++ led '/' ss) := by simp
  have hhead : ('/' :: (s ++ ['/'])).length = s.length + 2 := by simp
  have hdrop : ('/' :: (s ++ '/' :: (x ++ led '/' ss))).drop (slashed word).length = x ++
      led '/' ss := by
    rw [hlength, hsplit, ← hhead, List.drop_left]
  have htake : ('/' :: (s ++ '/' :: (x ++ led '/' ss))).take (slashed word).length = '/' ::
      (s ++ ['/']) := by
    rw [hlength, hsplit, ← hhead, List.take_left]
  have hrun : (x ++ led '/' ss).takeWhile inSegment ≠ [] := by
    rw [takeWhile_led]
    exact starts_iff.1 hx
  rw [replaceAfter, hdrop, if_pos ⟨(slashed_iff hword hs).2 heq, hrun⟩, htake, replaceAfter_skip,
    takeWhile_led, hlength]
  have hskip : (s ++ '/' :: (x ++ led '/' ss)).drop
    (s.length + 2 + (x.takeWhile inSegment).length - 1) =
      x.dropWhile inSegment ++ led '/' ss := by
    have hle : (x.takeWhile inSegment).length ≤ x.length := (List.takeWhile_prefix _).length_le
    have hcount : s.length + 2 + (x.takeWhile inSegment).length - 1 = (s ++ ['/']).length +
        (x.takeWhile inSegment).length := by
      rw [List.length_append, List.length_singleton]
      omega
    have hslashed : s ++ '/' :: (x ++ led '/' ss) = (s ++ ['/']) ++ (x ++ led '/' ss) := by simp
    rw [hcount, ← List.drop_drop, hslashed, List.drop_left,
      List.drop_append_of_le_length hle, drop_run]
  rw [hskip, replaceAfter_plain fun h => hslash ((List.dropWhile_suffix _).subset h)]
  unfold relabel
  simp

/-- **One replacement**, on segments: after a word, it skips the segment that it replaces. -/
theorem replaceAfter_led (hword : '/' ∉ word) (hss : ∀ s ∈ ss, '/' ∉ s) :
    replaceAfter (slashed word) label 0 (led '/' ss) = led '/' (runOne word label false ss) := by
  induction ss using List.twoStepInduction with
  | nil => rfl
  | singleton s =>
    have hs := hss s (List.mem_singleton_self s)
    have hplain : replaceAfter (slashed word) label 0 (s ++ []) = s ++ [] := replaceAfter_plain hs
    rw [List.append_nil] at hplain
    rw [led_cons, led_nil, List.append_nil, replaceAfter,
      if_neg fun h => slashed_last hs h.1, hplain]
    simp [runOne]
  | cons_cons s x ss ih ih' =>
    have hs : '/' ∉ s := hss s (List.mem_cons_self ..)
    have hx : '/' ∉ x := hss x (List.mem_cons_of_mem _ (List.mem_cons_self ..))
    rw [led_cons, led_cons]
    by_cases hword' : toLowerCase s = word ∧ starts x = true
    -- the word, and a segment after it that is replaced
    · obtain ⟨heq, hstarts⟩ := hword'
      have hrest : ∀ t ∈ ss, '/' ∉ t := fun t ht =>
        hss t (List.mem_cons_of_mem _ (List.mem_cons_of_mem _ ht))
      have hone : runOne word label false (s :: x :: ss) = s :: relabel label x ::
          runOne word label false ss := by
        simp [runOne, heq, hstarts]
      rw [replaceAfter_word hword hs heq hstarts hx, ih hrest, hone, led_cons, led_cons]
    · have hone : runOne word label false (s :: x :: ss) = s :: runOne word label false
          (x :: ss) := by
        by_cases hstarts : starts x = true
        · have hne : toLowerCase s ≠ word := fun heq => hword' ⟨heq, hstarts⟩
          simp [runOne, hne]
        · simp [runOne, hstarts]
      -- no match starts at this slash
      have hno :
        ¬ ((slashed word).isPrefixOf (toLowerCase ('/' :: (s ++ '/' :: (x ++ led '/' ss)))) = true ∧
          (('/' :: (s ++ '/' :: (x ++ led '/' ss))).drop (slashed word).length).takeWhile
            inSegment ≠ []) := by
        rintro ⟨hpre, hrun⟩
        have heq := (slashed_iff hword hs).1 hpre
        have hlength : (slashed word).length = ('/' :: (s ++ ['/'])).length := by
          unfold slashed
          rw [← heq]
          simp [toLowerCase]
        have hsplit : '/' :: (s ++ '/' :: (x ++ led '/' ss)) = ('/' :: (s ++ ['/'])) ++
            (x ++ led '/' ss) := by simp
        rw [hlength, hsplit, List.drop_left, takeWhile_led] at hrun
        exact hword' ⟨heq, starts_iff.2 hrun⟩
      have hnext := ih' x fun t ht => hss t (List.mem_cons_of_mem _ ht)
      rw [led_cons] at hnext
      rw [replaceAfter, if_neg hno, replaceAfter_plain hs, hnext, hone, led_cons]

/-- **One replacement** of a path. -/
theorem replaceAfter_eq (hword : '/' ∉ word) (hs : '/' ∉ s) (hss : ∀ s ∈ ss, '/' ∉ s) :
    replaceAfter (slashed word) label 0 (s ++ led '/' ss) = s ++ led '/'
      (runOne word label false ss) := by
  rw [replaceAfter_plain hs, replaceAfter_led hword hss]

end Replace

end ModDNS.App.SentryPrivacy
