import Mathlib.Data.List.DropRight
import ModDNS.App.ScrubSegments

/-!
# The paths that are reported to Sentry

The three replacements of a path are one pass over its segments, which remembers the route whose
word it has just read. The segment after the word is replaced. If that is the word of a route
itself, it still counts for a replacement that was made earlier, since that one has seen it, and for
no later one.

* `cleanPath_eq`: `cleanPath` is one pass.
* `run_run`: there is nothing to replace in what a pass leaves.
* `run_eq_iff`: which passes over the same segments leave the same.
-/

namespace ModDNS.App.SentryPrivacy

open Data (led led_nil led_cons eq_led splitOn_led)

/-- What the segments of a path can be replaced after, in the order of the replacements. -/
inductive Route
  | profiles
  | devices
  | dnsQuery
  deriving DecidableEq

namespace Route

def word : Route → Text
  | profiles => "profiles".toList
  | devices => "devices".toList
  | dnsQuery => "dns-query".toList

def label : Route → Text
  | profiles => ":profile_id".toList
  | devices => ":device_id".toList
  | dnsQuery => ":profile_id".toList

def rank : Route → ℕ
  | profiles => 0
  | devices => 1
  | dnsQuery => 2

variable {q : Route}

theorem word_slash : '/' ∉ q.word := by
  cases q <;> decide

theorem word_head : ∃ c s, q.word = c :: s ∧ inSegment c = true ∧ c ≠ ':' := by
  cases q
  · exact ⟨'p', "rofiles".toList, rfl, by decide, by decide⟩
  · exact ⟨'d', "evices".toList, rfl, by decide, by decide⟩
  · exact ⟨'d', "ns-query".toList, rfl, by decide, by decide⟩

theorem label_head : ∃ s, q.label = ':' :: s := by
  cases q
  · exact ⟨"profile_id".toList, rfl⟩
  · exact ⟨"device_id".toList, rfl⟩
  · exact ⟨"profile_id".toList, rfl⟩

theorem label_slash : '/' ∉ q.label := by
  cases q <;> decide

theorem label_inSegment : ∀ c ∈ q.label, inSegment c = true := by
  have hall : q.label.all inSegment = true := by
    cases q <;> rfl
  exact List.all_eq_true.1 hall

end Route

section Words

/-- The route whose word a segment is. -/
def routeOf (s : Text) : Option Route :=
  [Route.profiles, .devices, .dnsQuery].find? fun r => toLowerCase s = r.word

variable {c : Char} {s : Text} {q : Option Route} {p r : Route}

theorem routeOf_eq : routeOf s = some r ↔ toLowerCase s = r.word := by
  unfold routeOf
  constructor
  · intro h
    have hfound : decide (toLowerCase s = r.word) = true :=
      List.find?_some (p := fun r : Route => toLowerCase s = r.word) h
    exact of_decide_eq_true hfound
  · intro h
    cases r <;> rw [h] <;> rfl

theorem inSegment_toLower (h : inSegment c.toLower = true) : inSegment c = true := by
  by_cases hc : 65 ≤ c.val ∧ c.val ≤ 90
  · have hA : 65 ≤ c.toNat := hc.1
    have hZ : c.toNat ≤ 90 := hc.2
    have hne : ∀ d : Char, d.toNat < 65 → c ≠ d := by
      rintro d hd rfl
      omega
    have hspace : isSpace c = false := by
      unfold isSpace
      simp only [List.mem_cons, List.not_mem_nil, or_false, Bool.or_eq_false_iff,
        Bool.and_eq_false_iff,
        decide_eq_false_iff_not]
      omega
    unfold inSegment
    rw [hspace, decide_eq_true (hne '/' (by decide)), decide_eq_true (hne '?' (by decide)),
      decide_eq_true (hne '#' (by decide))]
    rfl
  · rwa [Go.toLower_other hc] at h

theorem starts_cons : starts (c :: s) = inSegment c := by
  unfold starts
  rw [List.takeWhile_cons]
  cases inSegment c <;> rfl

/-- A word starts with an identifier. -/
theorem starts_of_word (h : toLowerCase s = r.word) : starts s = true := by
  obtain ⟨d, w, hword, hd, -⟩ := r.word_head
  rw [hword] at h
  cases s with
  | nil => exact absurd h (List.cons_ne_nil d w).symm
  | cons c s =>
    rw [starts_cons]
    have hhead : c.toLower = d := (List.cons.inj h).1
    exact inSegment_toLower (hhead ▸ hd)

/-- What has been replaced is no word. -/
theorem relabel_word : toLowerCase (relabel p.label s) ≠ r.word := by
  intro h
  obtain ⟨l, hlabel⟩ := p.label_head
  obtain ⟨d, w, hword, -, hd⟩ := r.word_head
  rw [hword] at h
  unfold relabel at h
  rw [hlabel, List.cons_append] at h
  exact hd (List.cons.inj h).1.symm

theorem routeOf_relabel : routeOf (relabel p.label s) = none :=
  Option.eq_none_iff_forall_not_mem.2 fun _ h => relabel_word (routeOf_eq.1 h)

theorem routeOf_plain (h : starts s = false) : routeOf s = none := by
  refine Option.eq_none_iff_forall_not_mem.2 fun r hr => ?_
  have hstarts : starts s = true := starts_of_word (routeOf_eq.1 hr)
  rw [h] at hstarts
  exact Bool.false_ne_true hstarts

theorem relabel_relabel : relabel p.label (relabel p.label s) = relabel p.label s := by
  unfold relabel
  rw [List.dropWhile_append_of_pos p.label_inSegment, List.dropWhile_idempotent]

theorem starts_relabel : starts (relabel p.label s) = true := by
  obtain ⟨l, hlabel⟩ := p.label_head
  unfold relabel
  rw [hlabel, List.cons_append, starts_cons]
  rfl

end Words

section Pass

/-- The route that is in force after a segment. -/
def next (q : Option Route) (s : Text) : Option Route :=
  (routeOf s).filter fun r => q.all fun p => r.rank < p.rank

/-- What becomes of a segment. -/
def out : Option Route → Text → Text
  | none, s => s
  | some q, s => if starts s then relabel q.label s else s

def run : Option Route → List Text → List Text
  | _, [] => []
  | q, s :: ss => out q s :: run (next q s) ss

/-- The route that is in force after segments. -/
def state (q : Option Route) (ss : List Text) : Option Route := ss.foldl next q

variable {s : Text} {ss ts : List Text} {q n n' : Option Route} {p r : Route} {armed : Bool}

theorem next_eq : next q s = some r ↔ toLowerCase s = r.word ∧ ∀ p ∈ q, r.rank < p.rank := by
  unfold next
  rw [Option.filter_eq_some_iff, routeOf_eq, Option.all_eq_true]
  simp

@[simp] theorem next_none : next none s = routeOf s := by
  unfold next
  cases routeOf s <;> rfl

theorem next_of_routeOf (h : routeOf s = none) : next q s = none := by
  unfold next
  rw [h]
  rfl

theorem runOne_cons {word label : Text} : runOne word label armed (s :: ss) =
    (if armed && starts s then relabel label s else s) ::
      runOne word label (!(armed && starts s) && toLowerCase s = word) ss := by
  rw [runOne]
  cases armed && starts s
  · rw [if_neg Bool.false_ne_true, if_neg Bool.false_ne_true, Bool.not_false, Bool.true_and]
  · rw [if_pos rfl, if_pos rfl, Bool.not_true, Bool.false_and]

/-- **The three replacements** are one pass. -/
theorem passes_eq :
    runOne Route.dnsQuery.word Route.dnsQuery.label (q = some .dnsQuery)
      (runOne Route.devices.word Route.devices.label (q = some .devices)
        (runOne Route.profiles.word Route.profiles.label (q = some .profiles) ss)) = run q ss := by
  induction ss generalizing q with
  | nil => rfl
  | cons s ss ih =>
    rw [runOne_cons, runOne_cons, runOne_cons, run, ← ih]
    cases q with
    | none => simp [out, routeOf_eq]
    | some p =>
      by_cases hs : starts s = true
      · cases p <;> simp [out, hs, relabel_word, next_eq, Route.rank]
      · have hno : ∀ r : Route, toLowerCase s ≠ r.word := fun r h => hs (starts_of_word h)
        have hnext : next (some p) s = none :=
          next_of_routeOf (routeOf_plain (Bool.eq_false_iff.2 hs))
        simp [out, hs, hno, hnext]

theorem run_append : run q (ss ++ ts) = run q ss ++ run (state q ss) ts := by
  induction ss generalizing q with
  | nil => rfl
  | cons s ss ih =>
    rw [List.cons_append, run, ih, run, List.cons_append]
    rfl

theorem out_plain (h : starts s = false) : out q s = s := by
  cases q with
  | none => rfl
  | some p => simp [out, h]

theorem out_starts (h : starts s = true) : out (some p) s = relabel p.label s := by
  simp [out, h]

/-- The label that comes in the place of the identifier after the segment `w`, which has itself been
replaced for `q`: that of the route whose word `w` is, if its replacement has been made before. -/
def labelAfter (q : Route) (w : Text) : Option Text :=
  ((routeOf w).filter fun r => r.rank < q.rank).map Route.label

/-- What becomes of a segment, in terms of the identifier it starts with. -/
theorem out_labelled (h : starts s = true) :
    out q s = (q.map Route.label).getD (s.takeWhile inSegment) ++ s.dropWhile inSegment := by
  cases q with
  | none => exact (List.takeWhile_append_dropWhile).symm
  | some p => rw [out_starts h, relabel, Option.map_some, Option.getD_some]

/-- When a segment is treated alike after two segments that were replaced. -/
theorem out_next_iff {w w' : Text} : out (next (some p) w) s = out (next (some p) w') s ↔
    (starts s = true → (labelAfter p w).getD (s.takeWhile inSegment) = (labelAfter p w').getD
      (s.takeWhile inSegment)) := by
  have hlabel : ∀ w, (next (some p) w).map Route.label = labelAfter p w := fun w => by
    simp [next, labelAfter]
  cases hs : starts s with
  | false => simp [out_plain hs]
  | true =>
    rw [out_labelled hs, out_labelled hs, hlabel, hlabel, List.append_left_inj]
    exact ⟨fun heq _ => heq, fun heq => heq rfl⟩

/-- What a pass leaves of a segment, the same pass and a new one leave as it is, and they go on
alike. -/
theorem out_out (hn : n = q ∨ n = none) : out n (out q s) = out q s ∧
    (next n (out q s) = next q s ∨ next n (out q s) = none) := by
  cases q with
  | none =>
    obtain rfl : n = none := hn.elim id id
    exact ⟨rfl, .inl rfl⟩
  | some p =>
    by_cases hs : starts s = true
    · rw [out_starts hs]
      refine ⟨?_, .inr (next_of_routeOf routeOf_relabel)⟩
      rcases hn with rfl | rfl
      · rw [out_starts starts_relabel, relabel_relabel]
      · rfl
    · have hplain : starts s = false := Bool.eq_false_iff.2 hs
      rw [out_plain hplain, out_plain hplain]
      exact ⟨rfl, .inr (next_of_routeOf (routeOf_plain hplain))⟩

/-- **There is nothing to replace** in what a pass leaves. -/
theorem run_run (hn : n = q ∨ n = none) : run n (run q ss) = run q ss := by
  induction ss generalizing n q with
  | nil => rfl
  | cons s ss ih =>
    obtain ⟨hout, hnext⟩ := out_out (s := s) hn
    rw [run, run, hout, ih hnext]

/-- The last replacement is in force only where none has been made before. -/
theorem next_some_ne : next (some p) s ≠ some .dnsQuery := by
  intro h
  have hrank : Route.dnsQuery.rank < p.rank := (next_eq.1 h).2 p rfl
  cases p <;> exact absurd hrank (by decide)

/-- Routes that replace a segment by the same go on alike after it. -/
theorem next_of_out (hn : n ≠ some .dnsQuery) (hn' : n' ≠ some .dnsQuery) (h : out n s = out n' s) :
    next n s = next n' s := by
  by_cases hs : starts s = true
  · cases n with
    | none =>
      cases n' with
      | none => rfl
      | some p' =>
        rw [out_starts hs] at h
        have hroute : routeOf s = none := by
          rw [show s = relabel p'.label s from h]
          exact routeOf_relabel
        rw [next_of_routeOf hroute, next_of_routeOf hroute]
    | some p =>
      cases n' with
      | none =>
        rw [out_starts hs] at h
        have hroute : routeOf s = none := by
          rw [show s = relabel p.label s from h.symm]
          exact routeOf_relabel
        rw [next_of_routeOf hroute, next_of_routeOf hroute]
      | some p' =>
        rw [out_starts hs, out_starts hs] at h
        have hlabel : p.label = p'.label := List.append_cancel_right h
        -- Of the labels, only that of the last route is also the label of another one.
        have hp : p = p' := by
          cases p <;> cases p' <;>
            first
              | rfl
              | exact absurd rfl hn
              | exact absurd rfl hn'
              | exact absurd hlabel (by decide)
        rw [hp]
  · have hroute : routeOf s = none := routeOf_plain (Bool.eq_false_iff.2 hs)
    rw [next_of_routeOf hroute, next_of_routeOf hroute]

/-- **Two passes** over the same segments leave the same if and only if they leave the same of the
first one. -/
theorem run_eq_iff (hn : n ≠ some .dnsQuery) (hn' : n' ≠ some .dnsQuery) :
    run n ss = run n' ss ↔ ∀ s ∈ ss.head?, out n s = out n' s := by
  cases ss with
  | nil => exact ⟨fun _ s hs => absurd hs (Option.not_mem_none s), fun _ => rfl⟩
  | cons s ss =>
    constructor
    · rintro h x ⟨⟩
      exact (List.cons.inj h).1
    · intro h
      have hout : out n s = out n' s := h s rfl
      rw [run, run, hout, next_of_out hn hn' hout]

end Pass

section Path

variable {c : Char} {s t path word label : Text} {ss : List Text} {q : Option Route} {p : Route}
  {armed : Bool}

/-- A replacement brings in the characters of its label only. -/
theorem mem_runOne (hc : c ∉ label) (hss : ∀ s ∈ ss, c ∉ s) :
    ∀ s ∈ runOne word label armed ss, c ∉ s := by
  induction ss generalizing armed with
  | nil => exact fun s hs => absurd hs List.not_mem_nil
  | cons s ss ih =>
    rw [runOne_cons]
    refine List.forall_mem_cons.2 ⟨?_, ih fun s hs => hss s (List.mem_cons_of_mem _ hs)⟩
    have hs : c ∉ s := hss s (List.mem_cons_self ..)
    split
    · exact fun h => (List.mem_append.1 h).elim hc fun h => hs ((List.dropWhile_suffix _).subset h)
    · exact hs

/-- **The segments of a path** after the replacements: the first one is before any word. -/
theorem cleanPath_eq (h : path.splitOn '/' = s :: ss) :
    cleanPath path = s ++ led '/' (run none ss) := by
  obtain ⟨rfl, hs, hss⟩ := eq_led h
  have hfirst : ∀ s ∈ runOne Route.profiles.word Route.profiles.label false ss, '/' ∉ s :=
    mem_runOne Route.label_slash hss
  have hsecond : ∀ s ∈ runOne Route.devices.word Route.devices.label false
      (runOne Route.profiles.word Route.profiles.label false ss), '/' ∉ s :=
        mem_runOne Route.label_slash hfirst
  have hmarkers : cleanPath (s ++ led '/' ss) =
      replaceAfter (slashed Route.dnsQuery.word) Route.dnsQuery.label 0
        (replaceAfter (slashed Route.devices.word) Route.devices.label 0
          (replaceAfter (slashed Route.profiles.word) Route.profiles.label 0 (s ++ led '/' ss))) :=
            rfl
  rw [hmarkers, replaceAfter_eq Route.word_slash hs hss, replaceAfter_eq Route.word_slash hs hfirst,
    replaceAfter_eq Route.word_slash hs hsecond, ← passes_eq]
  rfl

/-- A pass brings in the characters of the labels only. -/
theorem mem_run (hc : ∀ p : Route, c ∉ p.label) (hss : ∀ s ∈ ss, c ∉ s) :
    ∀ s ∈ run q ss, c ∉ s := by
  rw [← passes_eq]
  exact mem_runOne (hc _) (mem_runOne (hc _) (mem_runOne (hc _) hss))

end Path

end ModDNS.App.SentryPrivacy
