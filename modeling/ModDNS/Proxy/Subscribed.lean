import ModDNS.Go.Names
import ModDNS.Proxy.Match

/-!
# Which blocklist matches a name

A list hits a name that it holds, or, if the profile wants so, one of whose parents it holds; and it
leaves alone what its exceptions cover. The two walks over a name take the same parents, those of
two labels and more.

* `matchDomainAgainstBlocklists_iff`: the first subscribed list that blocks the name is found, and
  no other.
-/

namespace ModDNS.Proxy

open Go

/-- What the blocklists hold: their names, and their exceptions. -/
structure Lists where
  main : String → String → Bool
  exceptions : String → String → Bool

/-- A store that holds the lists and answers every lookup. -/
def Lists.store (ls : Lists) : BlocklistStore where
  getBlocklistEntry id d := .ok (ls.main id d)
  getBlocklistExceptionEntry id d := .ok (ls.exceptions id d)

/-- The subdomains rule of the profile is to block. -/
def SubdomainsBlocked (reqCtx : RequestContext) : Prop :=
  mapGet reqCtx.privacySettings subdomainsRuleSetting = ruleBlock

namespace Lists

variable (ls : Lists) (reqCtx : RequestContext) (id name : String)

/-- A proper parent of two labels and more is in the list. -/
def HitsParent : Prop := ∃ d, IsParent name d ∧ 2 ≤ labelCount d ∧ ls.main id d = true

/-- The list has the name, or covers it with one of its parents. -/
def Hits : Prop := ls.main id name = true ∨ SubdomainsBlocked reqCtx ∧ ls.HitsParent id name

/-- The name, or a parent of it, is one of the exceptions, as far as it has two labels and more. -/
def Excepts : Prop := ∃ d, AtOrBelow name d ∧ 2 ≤ labelCount d ∧ ls.exceptions id d = true

/-- The list blocks the name. -/
def Blocks : Prop := ls.Hits reqCtx id name ∧ ¬ ls.Excepts id name

end Lists

section Walks

variable (ls : Lists) (reqCtx : RequestContext) (id name : String)

/-- The walk from the right: it looks at what is joined from more labels than it starts with. -/
theorem matchParents_eq {parts : List String} (labels : List String) (hparts : parts ≠ []) :
    ∃ r, matchParents ls.store id (joinDots parts) labels = .ok r ∧ (∀ m ∈ r, m = ⟨id, true⟩) ∧
      (r.isSome ↔ ∃ l, l <:+ labels.reverse ++ parts ∧ parts.length < l.length ∧
        ls.main id (joinDots l) = true) := by
  induction labels generalizing parts with
  | nil =>
    refine ⟨none, rfl, nofun, ?_⟩
    refine iff_of_false Bool.false_ne_true ?_
    rintro ⟨l, hl, hlength, -⟩
    rw [List.reverse_nil, List.nil_append] at hl
    exact absurd hl.length_le (Nat.not_le.2 hlength)
  | cons label labels ih =>
    have hcandidate : label ++ "." ++ joinDots parts = joinDots (label :: parts) :=
      (joinDots_cons label hparts).symm
    have hstep : matchParents ls.store id (joinDots parts) (label :: labels) =
        if ls.main id (joinDots (label :: parts)) then .ok (some ⟨id, true⟩)
        else matchParents ls.store id (joinDots (label :: parts)) labels := by
      rw [← hcandidate]
      rfl
    have hsplit : (label :: labels).reverse ++ parts = labels.reverse ++ label :: parts := by
      rw [List.reverse_cons, List.append_assoc, List.singleton_append]
    rw [hstep, hsplit]
    split
    · next hmain =>
      exact ⟨_, rfl, fun m hm => (Option.some.inj hm).symm,
        iff_of_true rfl ⟨label :: parts, List.suffix_append _ _, Nat.lt_succ_self _, hmain⟩⟩
    · next hmain =>
      obtain ⟨r, hr, hparent, hsome⟩ := ih (List.cons_ne_nil label parts)
      refine ⟨r, hr, hparent, hsome.trans ⟨?_, ?_⟩⟩
      · rintro ⟨l, hl, hlength, hin⟩
        exact ⟨l, hl, (Nat.lt_succ_self _).trans hlength, hin⟩
      · rintro ⟨l, hl, hlength, hin⟩
        refine ⟨l, hl, lt_of_le_of_ne hlength fun heq => hmain ?_, hin⟩
        have hlast :=
          List.suffix_of_suffix_length_le (List.suffix_append labels.reverse (label :: parts)) hl
            (le_of_eq heq)
        rw [hlast.eq_of_length heq]
        exact hin

/-- A name that the list does not have: its parents count, under the rule for subdomains. -/
theorem matchDomainAgainstBlocklist_parents (hmain : ls.main id name = false) {labels : List String}
    (hlabels : ((splitDots name).drop 1).reverse = labels) :
    matchDomainAgainstBlocklist ls.store reqCtx id name =
      if mapGet reqCtx.privacySettings subdomainsRuleSetting = ruleBlock then
        labels.head?.elim (.ok none) fun tld => matchParents ls.store id tld labels.tail
      else .ok none := by
  have hentry : ls.store.getBlocklistEntry id name = .ok (ls.main id name) := rfl
  unfold matchDomainAgainstBlocklist
  rw [hentry, hmain, hlabels]
  cases labels with
  | nil => rfl
  | cons tld labels => rfl

/-- One list: the name itself, then its parents. -/
theorem matchDomainAgainstBlocklist_iff :
    ∃ r, matchDomainAgainstBlocklist ls.store reqCtx id name = .ok r ∧
      (r.isSome ↔ ls.Hits reqCtx id name) ∧
      ∀ m ∈ r, m = ⟨id, !ls.main id name⟩ := by
  have hempty : ∀ m ∈ (none : Option BlocklistMatch), m = ⟨id, !ls.main id name⟩ :=
    fun m hm => by cases hm
  cases hmain : ls.main id name with
  | true =>
    have hread : matchDomainAgainstBlocklist ls.store reqCtx id name = .ok (some ⟨id, false⟩) := by
      have hentry : ls.store.getBlocklistEntry id name = .ok (ls.main id name) := rfl
      unfold matchDomainAgainstBlocklist
      rw [hentry, hmain]
      rfl
    exact ⟨_, hread, iff_of_true rfl (.inl hmain), fun m hm => (Option.some.inj hm).symm⟩
  | false =>
    rw [hmain] at hempty
    have hhits : ls.Hits reqCtx id name ↔ SubdomainsBlocked reqCtx ∧ ls.HitsParent id name := by
      rw [Lists.Hits, hmain]
      exact or_iff_right Bool.false_ne_true
    generalize hlabels : ((splitDots name).drop 1).reverse = labels
    rw [matchDomainAgainstBlocklist_parents ls reqCtx id name hmain hlabels]
    by_cases hrule : mapGet reqCtx.privacySettings subdomainsRuleSetting = ruleBlock
    · have hhits' : ls.Hits reqCtx id name ↔ ls.HitsParent id name :=
        hhits.trans (and_iff_right hrule)
      rw [if_pos hrule, hhits', Lists.HitsParent, ← joinDots_parents
        (p := (ls.main id · = true)) Nat.two_pos]
      rw [← List.reverse_reverse ((splitDots name).drop 1), hlabels]
      cases labels with
      | nil =>
        refine ⟨none, rfl, iff_of_false Bool.false_ne_true ?_, hempty⟩
        rintro ⟨l, hl, hlength, -⟩
        have hle := hl.length_le
        rw [List.reverse_nil, List.length_nil] at hle
        omega
      | cons tld labels =>
        have hsingle : joinDots [tld] = tld := String.intercalate_singleton
        obtain ⟨r, hr, hparent, hsome⟩ := matchParents_eq ls id labels (List.cons_ne_nil tld [])
        rw [hsingle] at hr
        rw [List.reverse_cons]
        exact ⟨r, hr, hsome, hparent⟩
    · rw [if_neg hrule, hhits]
      exact ⟨none, rfl, iff_of_false Bool.false_ne_true fun h => hrule h.1, hempty⟩

/-- The walk from the left: it looks at what is joined from two of the labels and more. -/
theorem matchDomainAgainstExceptions_iff :
    ∃ b, matchDomainAgainstExceptions ls.store id name = .ok b ∧
      (b = true ↔ ls.Excepts id name) := by
  rw [Lists.Excepts, ← joinDots_suffix (p := (ls.exceptions id · = true)) Nat.two_pos]
  unfold matchDomainAgainstExceptions
  induction splitDots name with
  | nil =>
    refine ⟨false, rfl, iff_of_false Bool.false_ne_true ?_⟩
    rintro ⟨l, hl, hlength, -⟩
    have hle := hl.length_le
    rw [List.length_nil] at hle
    omega
  | cons a rest ih =>
    cases rest with
    | nil =>
      refine ⟨false, rfl, iff_of_false Bool.false_ne_true ?_⟩
      rintro ⟨l, hl, hlength, -⟩
      have hle := hl.length_le
      rw [List.length_singleton] at hle
      omega
    | cons b rest =>
      have hgo : matchDomainAgainstExceptions.go ls.store id (a :: b :: rest) =
          if ls.exceptions id (joinDots (a :: b :: rest)) then .ok true
          else matchDomainAgainstExceptions.go ls.store id (b :: rest) := rfl
      rw [hgo]
      split
      · next hfound =>
        exact ⟨true, rfl, iff_of_true rfl ⟨_, List.suffix_refl _, by simp, hfound⟩⟩
      · next hnot =>
        obtain ⟨found, hr, hiff⟩ := ih
        refine ⟨found, hr, hiff.trans ⟨?_, ?_⟩⟩
        · rintro ⟨l, hl, hlength, hin⟩
          exact ⟨l, hl.trans (List.suffix_cons _ _), hlength, hin⟩
        · rintro ⟨l, hl, hlength, hin⟩
          rcases List.suffix_cons_iff.1 hl with rfl | hl
          · exact absurd hin hnot
          · exact ⟨l, hl, hlength, hin⟩

/-- The list that the search over the subscribed lists finds. -/
def FirstBlocking (blocklists : List String) (m : BlocklistMatch) : Prop :=
  ∃ before after, blocklists = before ++ m.blocklistID :: after ∧
    (∀ id ∈ before, ¬ ls.Blocks reqCtx id name) ∧
    ls.Blocks reqCtx m.blocklistID name ∧ m.viaParent = !ls.main m.blocklistID name

variable {ls reqCtx id name}

theorem firstBlocking_cons {blocklists : List String} {m : BlocklistMatch} :
    FirstBlocking ls reqCtx name (id :: blocklists) m ↔
      (ls.Blocks reqCtx id name ∧ m = ⟨id, !ls.main id name⟩) ∨
        (¬ ls.Blocks reqCtx id name ∧ FirstBlocking ls reqCtx name blocklists m) := by
  constructor
  · rintro ⟨before, after, heq, hnone, hblocks, hvia⟩
    cases before with
    | nil =>
      rw [List.nil_append] at heq
      obtain ⟨rfl, rfl⟩ := List.cons.inj heq
      obtain ⟨id, via⟩ := m
      exact .inl ⟨hblocks, by rw [← hvia]⟩
    | cons id' before =>
      rw [List.cons_append] at heq
      obtain ⟨rfl, rfl⟩ := List.cons.inj heq
      obtain ⟨hid, hnone⟩ := List.forall_mem_cons.1 hnone
      exact .inr ⟨hid, before, after, rfl, hnone, hblocks, hvia⟩
  · rintro (⟨hblocks, rfl⟩ | ⟨hid, before, after, rfl, hnone, hblocks, hvia⟩)
    · exact ⟨[], blocklists, rfl, List.forall_mem_nil _, hblocks, rfl⟩
    · exact ⟨id :: before, after, rfl, List.forall_mem_cons.2 ⟨hid, hnone⟩, hblocks, hvia⟩

/-- The search over the subscribed lists. -/
theorem matchDomainAgainstBlocklists_eq (ls : Lists) (reqCtx : RequestContext)
    (blocklists : List String) (name : String) :
    ∃ r, matchDomainAgainstBlocklists ls.store reqCtx blocklists name = .ok r ∧
      (r = none ↔ ∀ id ∈ blocklists, ¬ ls.Blocks reqCtx id name) ∧
      ∀ m, r = some m ↔ FirstBlocking ls reqCtx name blocklists m := by
  induction blocklists with
  | nil =>
    refine ⟨none, rfl, iff_of_true rfl (List.forall_mem_nil _), fun m => iff_of_false nofun ?_⟩
    rintro ⟨before, after, heq, -⟩
    cases before <;> cases heq
  | cons id blocklists ih =>
    obtain ⟨r, hr, hsome, hmatch⟩ := matchDomainAgainstBlocklist_iff ls reqCtx id name
    obtain ⟨excepted, he, hexcepts⟩ := matchDomainAgainstExceptions_iff ls id name
    obtain ⟨rest, hrest, hnone, hfirst⟩ := ih
    -- the list is passed over if it does not hit, and also if its exceptions withdraw the hit
    have hpass : ¬ ls.Blocks reqCtx id name →
      (rest = none ↔ ∀ id' ∈ id :: blocklists, ¬ ls.Blocks reqCtx id' name) ∧
        ∀ m, rest = some m ↔ FirstBlocking ls reqCtx name (id :: blocklists) m := by
      intro hid
      refine ⟨hnone.trans ?_, fun m => (hfirst m).trans ?_⟩
      · rw [List.forall_mem_cons, and_iff_right hid]
      · rw [firstBlocking_cons]
        exact ⟨fun h => .inr ⟨hid, h⟩, fun h => h.elim (fun h => absurd h.1 hid) And.right⟩
    unfold matchDomainAgainstBlocklists
    cases r with
    | none =>
      have hid : ¬ ls.Blocks reqCtx id name := fun h => absurd (hsome.2 h.1) Bool.false_ne_true
      rw [hr]
      exact ⟨rest, hrest, hpass hid⟩
    | some m =>
      have hhits : ls.Hits reqCtx id name := hsome.1 rfl
      obtain rfl := hmatch m rfl
      rw [hr]
      simp only [bind, Except.bind, he]
      cases excepted with
      | true =>
        rw [if_pos rfl]
        exact ⟨rest, hrest, hpass fun h => h.2 (hexcepts.1 rfl)⟩
      | false =>
        have hid : ls.Blocks reqCtx id name :=
          ⟨hhits, fun h => absurd (hexcepts.2 h) Bool.false_ne_true⟩
        rw [if_neg Bool.false_ne_true]
        refine ⟨_, rfl, iff_of_false nofun fun h => h id List.mem_cons_self hid, fun m => ?_⟩
        rw [firstBlocking_cons, Option.some.injEq]
        exact ⟨fun h => .inl ⟨hid, h.symm⟩, fun h => h.elim (fun h => h.2.symm) fun h =>
          absurd hid h.1⟩

/-- A list in which every name is also an exception is hit where its exceptions are, apart from the
name itself. -/
theorem walks_agree (names : String → Bool) (reqCtx : RequestContext) (id name : String) :
    (∃ m, matchDomainAgainstBlocklist
      (Lists.store ⟨fun _ => names, fun _ => names⟩) reqCtx id name = .ok (some m)) ↔
      names name = true ∨ (SubdomainsBlocked reqCtx ∧
        matchDomainAgainstExceptions (Lists.store ⟨fun _ => names, fun _ => names⟩) id name =
          .ok true) := by
  obtain ⟨r, hr, hsome, -⟩ :=
    matchDomainAgainstBlocklist_iff ⟨fun _ => names, fun _ => names⟩ reqCtx id name
  obtain ⟨b, hb, hexcepts⟩ :=
    matchDomainAgainstExceptions_iff ⟨fun _ => names, fun _ => names⟩ id name
  rw [hr, hb]
  simp only [Except.ok.injEq, ← Option.isSome_iff_exists, hsome, hexcepts]
  constructor
  · rintro (hname | ⟨hrule, d, hd, hcount, hin⟩)
    · exact .inl hname
    · exact .inr ⟨hrule, d, hd.1, hcount, hin⟩
  · rintro (hname | ⟨hrule, d, hd, hcount, hin⟩)
    · exact .inl hname
    · by_cases heq : d = name
      · exact .inl (heq ▸ hin)
      · exact .inr ⟨hrule, d, ⟨hd, heq⟩, hcount, hin⟩

/-- **The first list that blocks the name is found**, and whether it was the name itself; and the
walks over the names of a list and over its exceptions take the same parents. -/
theorem matchDomainAgainstBlocklists_iff (ls : Lists) (reqCtx : RequestContext)
    (blocklists : List String) (name : String) :
    (∃ r, matchDomainAgainstBlocklists ls.store reqCtx blocklists name = .ok r ∧
      (r = none ↔ ∀ id ∈ blocklists, ¬ ls.Blocks reqCtx id name) ∧
      ∀ m, r = some m ↔ FirstBlocking ls reqCtx name blocklists m) ∧
    ∀ (names : String → Bool) (id : String),
      (∃ m, matchDomainAgainstBlocklist
        (Lists.store ⟨fun _ => names, fun _ => names⟩) reqCtx id name = .ok (some m)) ↔
        names name = true ∨ (SubdomainsBlocked reqCtx ∧
          matchDomainAgainstExceptions
            (Lists.store ⟨fun _ => names, fun _ => names⟩) id name = .ok true) :=
  ⟨matchDomainAgainstBlocklists_eq ls reqCtx blocklists name,
    fun names id => walks_agree names reqCtx id name⟩

/-- A list with a name of one label, which is also one of its exceptions. -/
def oneLabel : Lists := ⟨fun _ d => d = "lan", fun _ d => d = "lan"⟩

/-- The exception is not looked up. -/
theorem oneLabel_blocks :
    matchDomainAgainstBlocklists oneLabel.store (newRequestContext "p" .empty) ["home"] "lan" = .ok
      (some ⟨"home", false⟩) ∧
      oneLabel.exceptions "home" "lan" = true := by
  decide

end Walks

end ModDNS.Proxy
