import ModDNS.Blocklists.Repair
import ModDNS.Proxy.Match

/-!
# The lookups of the proxy

The proxy reads the two sets of a list name by name. Alone, a lookup is the proxy's match on the
sets of the moment (`lookup_match`). Between updates, every read sees a whole set, and what is read
of the exceptions is not older than what was read of the main set before (`lookups_consistent`).
-/

namespace ModDNS.Blocklists

open Go Conc Data Proxy

def getBlocklistEntry (blocklistId domain : String) : BlocklistFlow Bool :=
  call (.sismember (liveKey blocklistId) domain)

def getBlocklistExceptionEntry (blocklistId domain : String) : BlocklistFlow Bool :=
  call (.sismember (exceptionsKey blocklistId) domain)

/-- The parent-domain walk of `matchDomainAgainstBlocklist`. -/
def walkParents (blocklistId : String) :
    String → List String → BlocklistFlow (Option BlocklistMatch)
  | _, [] => pure none
  | candidate, label :: labels => do
    let blocklisted ← getBlocklistEntry blocklistId (label ++ "." ++ candidate)
    if blocklisted then pure (some ⟨blocklistId, true⟩)
    else walkParents blocklistId (label ++ "." ++ candidate) labels

/-- `matchDomainAgainstBlocklist`. -/
def lookupBlocklist (reqCtx : RequestContext) (blocklistId fqdn : String) :
    BlocklistFlow (Option BlocklistMatch) := do
  let blocklisted ← getBlocklistEntry blocklistId fqdn
  if blocklisted then pure (some ⟨blocklistId, false⟩)
  else if mapGet reqCtx.privacySettings subdomainsRuleSetting = ruleBlock then
    match ((splitDots fqdn).drop 1).reverse with
    | [] => pure none
    | tld :: labels => walkParents blocklistId tld labels
  else pure none

/-- `matchDomainAgainstExceptions`. -/
def lookupExceptions (blocklistId : String) : List String → BlocklistFlow Bool
  | a :: b :: parts => do
    let excepted ← getBlocklistExceptionEntry blocklistId (joinDots (a :: b :: parts))
    if excepted then pure true else lookupExceptions blocklistId (b :: parts)
  | _ => pure false

/-- `matchDomainAgainstBlocklists`. -/
def lookupBlocklists (reqCtx : RequestContext) (fqdn : String) :
    List String → BlocklistFlow (Option BlocklistMatch)
  | [] => pure none
  | blocklistId :: blocklists => do
    match ← lookupBlocklist reqCtx blocklistId fqdn with
    | none => lookupBlocklists reqCtx fqdn blocklists
    | some m =>
      let excepted ← lookupExceptions blocklistId (splitDots fqdn)
      if excepted then lookupBlocklists reqCtx fqdn blocklists else pure (some m)

/-- A read of a set of one of the lists. -/
def Consults (blocklists : List String) (o : BlocklistOp) : Prop :=
  ∃ id ∈ blocklists, ∃ (n : SetName) (member : String), o = .sismember (n.key id) member

/-- The sets as the proxy reads them. -/
def storeOf (redis : String → Option RedisSet) : BlocklistStore where
  getBlocklistEntry id domain := .ok ((redis (liveKey id)).any fun x => domain ∈ x.members)
  getBlocklistExceptionEntry id domain :=
    .ok ((redis (exceptionsKey id)).any fun x => domain ∈ x.members)

section Alone

variable {reqCtx : RequestContext} {blocklistId fqdn : String} {l l' : List BlocklistAct}
  {redis : String → Option RedisSet}

/-- The answers are those of the sets. -/
def Answers (redis : String → Option RedisSet) (l : List BlocklistAct) : Prop :=
  ∀ key member (found : Bool), (⟨.sismember key member, .ok found⟩ : BlocklistAct) ∈ l →
    found = (redis key).any fun x => member ∈ x.members

theorem Answers.left (h : Answers redis (l ++ l')) : Answers redis l := fun key member found hin =>
  h key member found (List.mem_append_left _ hin)

theorem Answers.right (h : Answers redis (l ++ l')) : Answers redis l' :=
  fun key member found hin =>
  h key member found (List.mem_append_right _ hin)

/-- A read of a set, and what follows. -/
theorem ends_lookup {α : Type} {key member : String} {f : Bool → BlocklistFlow α} {a : α}
    (h : Ends (call (.sismember key member) >>= f).run l (.ok a)) (hl : Answers redis l) :
    ∃ l', Answers redis l' ∧ Ends (f ((redis key).any fun x => member ∈ x.members)).run l'
    (.ok a) := by
  obtain ⟨found, l', rfl, hrest⟩ := ends_act_bind_ok h
  have hfound : found = (redis key).any fun x => member ∈ x.members :=
    hl key member found List.mem_cons_self
  refine ⟨l', fun key member found hin => hl key member found (List.mem_cons_of_mem _ hin), ?_⟩
  rw [← hfound]
  exact hrest

theorem ends_walkParents {candidate : String} {labels : List String} {m : Option BlocklistMatch}
    (h : Ends (walkParents blocklistId candidate labels).run l (.ok m)) (hl : Answers redis l) :
    matchParents (storeOf redis) blocklistId candidate labels = .ok m := by
  induction labels generalizing candidate l with
  | nil =>
    obtain ⟨-, hm⟩ := ends_flow_pure h
    obtain rfl := Except.ok.inj hm
    rfl
  | cons label labels ih =>
    unfold walkParents at h
    obtain ⟨l', hl', hrest⟩ := ends_lookup h hl
    have hmatch : matchParents (storeOf redis) blocklistId candidate (label :: labels) =
        if (redis (liveKey blocklistId)).any fun x =>
          label ++ "." ++ candidate ∈ x.members then .ok (some ⟨blocklistId, true⟩)
        else matchParents (storeOf redis) blocklistId (label ++ "." ++ candidate) labels := rfl
    rw [hmatch]
    split at hrest
    · next hfound =>
      obtain ⟨-, hm⟩ := ends_flow_pure hrest
      obtain rfl := Except.ok.inj hm
      exact if_pos hfound
    · next hfound =>
      rw [if_neg hfound]
      exact ih hrest hl'

/-- A lookup in one list. -/
theorem ends_lookupBlocklist {m : Option BlocklistMatch}
    (h : Ends (lookupBlocklist reqCtx blocklistId fqdn).run l (.ok m)) (hl : Answers redis l) :
    matchDomainAgainstBlocklist (storeOf redis) reqCtx blocklistId fqdn = .ok m := by
  unfold lookupBlocklist at h
  obtain ⟨l', hl', hrest⟩ := ends_lookup h hl
  have hmatch : matchDomainAgainstBlocklist (storeOf redis) reqCtx blocklistId fqdn =
      if (redis (liveKey blocklistId)).any fun x =>
        fqdn ∈ x.members then .ok (some ⟨blocklistId, false⟩)
      else if mapGet reqCtx.privacySettings subdomainsRuleSetting = ruleBlock then
        match ((splitDots fqdn).drop 1).reverse with
        | [] => .ok none
        | tld :: labels => matchParents (storeOf redis) blocklistId tld labels
      else .ok none := rfl
  have hnone : ∀ {l : List BlocklistAct}, Ends
    (pure none : BlocklistFlow (Option BlocklistMatch)).run l (.ok m) →
      (.ok none : Except StageError (Option BlocklistMatch)) = .ok m := by
    intro l hend
    obtain ⟨-, hm⟩ := ends_flow_pure hend
    obtain rfl := Except.ok.inj hm
    rfl
  rw [hmatch]
  split at hrest
  · next hfound =>
    obtain ⟨-, hm⟩ := ends_flow_pure hrest
    obtain rfl := Except.ok.inj hm
    exact if_pos hfound
  · next hfound =>
    rw [if_neg hfound]
    split at hrest
    · next hrule =>
      rw [if_pos hrule]
      revert hrest
      cases ((splitDots fqdn).drop 1).reverse with
      | nil => exact hnone
      | cons tld labels => exact fun hrest => ends_walkParents hrest hl'
    · next hrule =>
      rw [if_neg hrule]
      exact hnone hrest

theorem ends_lookupExceptions {parts : List String} {excepted : Bool}
    (h : Ends (lookupExceptions blocklistId parts).run l (.ok excepted)) (hl : Answers redis l) :
    matchDomainAgainstExceptions.go (storeOf redis) blocklistId parts = .ok excepted := by
  induction parts generalizing l with
  | nil =>
    obtain ⟨-, hm⟩ := ends_flow_pure h
    obtain rfl := Except.ok.inj hm
    rfl
  | cons a parts ih =>
    cases parts with
    | nil =>
      obtain ⟨-, hm⟩ := ends_flow_pure h
      obtain rfl := Except.ok.inj hm
      rfl
    | cons b parts =>
      unfold lookupExceptions at h
      obtain ⟨l', hl', hrest⟩ := ends_lookup h hl
      have hmatch : matchDomainAgainstExceptions.go (storeOf redis) blocklistId (a :: b :: parts) =
          if (redis (exceptionsKey blocklistId)).any fun x =>
            joinDots (a :: b :: parts) ∈ x.members then .ok true
          else matchDomainAgainstExceptions.go (storeOf redis) blocklistId (b :: parts) := rfl
      rw [hmatch]
      split at hrest
      · next hfound =>
        obtain ⟨-, hm⟩ := ends_flow_pure hrest
        obtain rfl := Except.ok.inj hm
        exact if_pos hfound
      · next hfound =>
        rw [if_neg hfound]
        exact ih hrest hl'

/-- The lookup of a name is the proxy's match, on the sets that have answered. -/
theorem ends_lookupBlocklists {blocklists : List String} {m : Option BlocklistMatch}
    (h : Ends (lookupBlocklists reqCtx fqdn blocklists).run l (.ok m)) (hl : Answers redis l) :
    matchDomainAgainstBlocklists (storeOf redis) reqCtx blocklists fqdn = .ok m := by
  induction blocklists generalizing l with
  | nil =>
    obtain ⟨-, hm⟩ := ends_flow_pure h
    obtain rfl := Except.ok.inj hm
    rfl
  | cons blocklistId blocklists ih =>
    unfold lookupBlocklists at h
    obtain ⟨l₁, l₂, found, rfl, hmain, hrest⟩ := ends_flow_bind_ok h
    unfold matchDomainAgainstBlocklists
    rw [ends_lookupBlocklist hmain hl.left]
    cases found with
    | none => exact ih hrest hl.right
    | some m' =>
      obtain ⟨l₃, l₄, excepted, rfl, hexceptions, hend⟩ := ends_flow_bind_ok hrest
      have hgo := ends_lookupExceptions hexceptions hl.right.left
      have hmatch : ∀ r : Except StageError (Option BlocklistMatch),
          (matchDomainAgainstExceptions (storeOf redis) blocklistId fqdn >>= fun excepted =>
            if excepted then r else .ok (some m')) = if excepted then r else .ok (some m') := by
        intro r
        unfold matchDomainAgainstExceptions
        rw [hgo]
        rfl
      refine (hmatch _).trans ?_
      split at hend
      · next hex =>
        rw [if_pos hex]
        exact ih hend hl.right.right
      · next hex =>
        rw [if_neg hex]
        obtain ⟨-, hm⟩ := ends_flow_pure hend
        obtain rfl := Except.ok.inj hm
        rfl

/-! What is read, and when the sets are those of one moment. -/

variable {blocklists : List String} {grace : ℕ} {s s' : Stores}

theorem within_entry {id member : String} (hid : id ∈ blocklists) (n : SetName) :
    Within (C := blocklistCalls) (Consults blocklists) (call (.sismember (n.key id) member)) :=
  within_act ⟨id, hid, n, member, rfl⟩

theorem within_walkParents {candidate : String} {labels : List String}
    (hid : blocklistId ∈ blocklists) :
    Within (C := blocklistCalls) (Consults blocklists)
      (walkParents blocklistId candidate labels) := by
  induction labels generalizing candidate with
  | nil => exact within_pure
  | cons label labels ih =>
    unfold walkParents
    exact within_bind (within_entry hid .main) fun found => within_ite within_pure ih

theorem within_lookupBlocklist (hid : blocklistId ∈ blocklists) :
    Within (C := blocklistCalls) (Consults blocklists)
      (lookupBlocklist reqCtx blocklistId fqdn) := by
  unfold lookupBlocklist
  refine within_bind (within_entry hid .main) fun found =>
    within_ite within_pure (within_ite ?_ within_pure)
  cases ((splitDots fqdn).drop 1).reverse with
  | nil => exact within_pure
  | cons tld labels => exact within_walkParents hid

theorem within_lookupExceptions {parts : List String} (hid : blocklistId ∈ blocklists) :
    Within (C := blocklistCalls) (Consults blocklists) (lookupExceptions blocklistId parts) := by
  induction parts with
  | nil => exact within_pure
  | cons a parts ih =>
    cases parts with
    | nil => exact within_pure
    | cons b parts =>
      unfold lookupExceptions
      exact within_bind (within_entry hid .exceptions) fun found => within_ite within_pure ih

/-- A lookup reads the sets of its lists. -/
theorem within_lookupBlocklists {lists : List String} (hlists : lists ⊆ blocklists) :
    Within (C := blocklistCalls) (Consults blocklists) (lookupBlocklists reqCtx fqdn lists) := by
  induction lists with
  | nil => exact within_pure
  | cons id lists ih =>
    obtain ⟨hid, hlists⟩ := List.cons_subset.1 hlists
    unfold lookupBlocklists
    refine within_bind (within_lookupBlocklist hid) fun found => ?_
    cases found with
    | none => exact ih hlists
    | some m =>
      exact within_bind (within_lookupExceptions hid) fun excepted =>
        within_ite (ih hlists) within_pure

theorem next_sismember {key member : String} {found : Bool}
    (h : Next grace s ⟨.sismember key member, .ok found⟩ s') :
    ∃ d, found = ((s.elapse d).redis key).any (fun x => member ∈ x.members) ∧
    s'.redis = (s.elapse d).redis := by
  obtain ⟨d, c, hanswer, rfl⟩ := h
  refine ⟨d, ?_, act_redis _ _⟩
  cases c with
  | ok => exact (Except.ok.inj (Option.some.inj hanswer)).symm
  | _ => cases hanswer

/-- Reads of sets that do not expire are answered from the sets of the first moment. -/
theorem trail_answers (hl : ∀ x ∈ l, Consults blocklists x.1)
    (hlasting : ∀ id ∈ blocklists, Lasting id s) (h : Trail grace s l s') : Answers s.redis l := by
  induction l generalizing s with
  | nil => exact fun _ _ _ hin => nomatch hin
  | cons x l ih =>
    obtain ⟨s₁, hx, hrest⟩ := h
    obtain ⟨⟨id, hid, n, name, hop⟩, hconsults⟩ := List.forall_mem_cons.1 hl
    obtain ⟨d, hredis⟩ : ∃ d, s₁.redis = (s.elapse d).redis := by
      obtain ⟨d, -, ⟨hredis, -⟩ | ⟨ctx, cmd, hop', -⟩⟩ := next_redis hx
      · exact ⟨d, hredis⟩
      · cases hop.symm.trans hop'
    have hsame : ∀ id ∈ blocklists, ∀ n : SetName, (s.elapse d).redis (n.key id) = s.redis
        (n.key id) := fun id hid n =>
      elapse_lasting fun x hx => hlasting id hid n x hx
    have hlasting' : ∀ id ∈ blocklists, Lasting id s₁ := by
      intro id hid n x hx
      rw [hredis, hsame id hid n] at hx
      exact hlasting id hid n x hx
    intro key member found hin
    have hkey : s₁.redis key = s.redis key := by
      obtain ⟨id', hid', n', name', hop'⟩ := hl _ hin
      obtain ⟨rfl, -⟩ := BlocklistOp.sismember.inj hop'
      rw [hredis, hsame id' hid' n']
    rcases List.mem_cons.1 hin with hhead | hin
    · rw [← hhead] at hx
      obtain ⟨d', hfound, hredis'⟩ := next_sismember hx
      rw [hfound, ← hredis', hkey]
    · rw [← hkey]
      exact ih hconsults hlasting' hrest key member found hin

/-- **Alone, a lookup is the proxy's match on the sets of the moment.** -/
theorem lookup_match {m : Option BlocklistMatch} (hlasting : ∀ id ∈ blocklists, Lasting id s)
    (hexec : Exec (blocklistHandler grace) ()
      (lookupBlocklists reqCtx fqdn blocklists).run s l (.ok m) s') :
    matchDomainAgainstBlocklists (storeOf s.redis) reqCtx blocklists fqdn = .ok m := by
  have hreads : ∀ x ∈ l, Consults blocklists x.1 :=
    within_path (within_lookupBlocklists (List.Subset.refl _)) (exec_path hexec)
  exact ends_lookupBlocklists (exec_path hexec) (trail_answers hreads hlasting (trail_exec hexec))

end Alone

/-! Updates of a list by one publisher, and lookups. -/

inductive Thread where
  | run (n : ℕ)
  | lookup (k : ℕ)
deriving DecidableEq

/-- What the proxy looks up for a request. -/
structure Lookup where
  reqCtx : RequestContext
  blocklists : List String
  fqdn : String

abbrev ThreadResult :=
  Except BlocklistErr BlocklistMetadata ⊕ Except BlocklistErr (Option BlocklistMatch)

def Thread.prog (env : ServiceEnv) (srcs : ℕ → BlocklistMetadata) (lookups : ℕ → Lookup) :
    Thread → Prog blocklistCalls.sig ThreadResult
  | .run n => (processBlocklist env (srcs n)).run.bind fun r => .pure (.inl r)
  | .lookup k =>
    (lookupBlocklists (lookups k).reqCtx (lookups k).fqdn (lookups k).blocklists).run.bind fun r =>
      .pure (.inr r)

/-- The publisher and the proxies, from the stores `s`. -/
def publisher (env : ServiceEnv) (srcs : ℕ → BlocklistMetadata) (lookups : ℕ → Lookup)
    (s : Stores) :
    Pool blocklistCalls.sig Thread Stores ThreadResult :=
  ⟨s, Thread.prog env srcs lookups⟩

/-- The update that a thread runs. -/
def Thread.job (srcs : ℕ → BlocklistMetadata) : Thread → Option BlocklistMetadata
  | .run n => some (srcs n)
  | .lookup _ => none

/-- The updates are run one after the other. -/
def Successive (es : List (Event blocklistCalls.sig Thread)) : Prop :=
  es.Pairwise fun e e' => ∀ n n', e.who = .run n → e'.who = .run n' → n ≤ n'

section Readers

variable {env : ServiceEnv} {srcs : ℕ → BlocklistMetadata} {lookups : ℕ → Lookup} {id : String}
  {grace : ℕ} {s : Stores} {es : List (Event blocklistCalls.sig Thread)}
  {Q : Pool blocklistCalls.sig Thread Stores ThreadResult}

theorem publishing_publisher (hsrcs : ∀ n, (srcs n).blocklistID = id) (hfresh : Fresh id s) :
    Publishing env id (Thread.job srcs) (publisher env srcs lookups s) where
  list := by
    intro i src hjob
    cases i with
    | run n =>
      cases hjob
      exact hsrcs n
    | lookup k => cases hjob
  permits := by
    intro i
    cases i with
    | run n =>
      have hupdate :=
        follows_run (follows_processBlocklist : Follows (Allowed env (srcs n)) _
          (processBlocklist env (srcs n)) [])
      exact meets_bind hupdate fun _ _ _ _ => trivial
    | lookup k =>
      have hreads : Within (C := blocklistCalls) (Consults (lookups k).blocklists)
          (lookupBlocklists (lookups k).reqCtx (lookups k).fqdn (lookups k).blocklists) :=
        within_lookupBlocklists (List.Subset.refl _)
      have hlookup : Meets (S := blocklistCalls.sig) (Permits env (Thread.job srcs (.lookup k)))
        (fun _ _ => True)
          (lookupBlocklists (lookups k).reqCtx (lookups k).fqdn (lookups k).blocklists).run [] := by
        refine meets_of_only (within_iff.1 hreads) ?_ fun _ _ _ => trivial
        rintro l o - ⟨id', -, n, member, rfl⟩
        exact ⟨_, _, rfl⟩
      exact meets_bind hlookup fun _ _ _ _ => trivial
  fresh := hfresh

/-- A set is published by an update. -/
theorem publisher_run (hsrcs : ∀ n, (srcs n).blocklistID = id) (hfresh : Fresh id s)
    {es₁ es₂ : List (Event blocklistCalls.sig Thread)} {e : Event blocklistCalls.sig Thread}
    {key : String}
    (hrun : Run (blocklistHandler grace) Free (publisher env srcs lookups s) (es₁ ++ e :: es₂) Q)
    (hpub : Published key ⟨e.op, e.res⟩) :
    ∃ n p cmd, e.who = .run n ∧ Planned env (srcs n) (trace (.run n) es₁) p ∧ cmd.Publishes key ∧
      CmdAllowed id p (trace (.run n) es₁) cmd := by
  have hP : Publishing env id (Thread.job srcs) (publisher env srcs lookups s) :=
    publishing_publisher hsrcs hfresh
  have hallowed := run_met_mid hP.permits hrun
  obtain ⟨ctx, cmd, hop, hcmd, -⟩ := published_iff.1 hpub
  simp only at hop
  rw [hop] at hallowed
  obtain ⟨src, p, hjob, hplan, -, -, hknown⟩ := hP.command hallowed
  cases hwho : e.who with
  | run n =>
    rw [hwho] at hjob hplan hknown
    cases hjob
    exact ⟨n, p, cmd, rfl, hplan, hcmd, hknown⟩
  | lookup k =>
    rw [hwho] at hjob
    cases hjob

/-- **The exceptions are not older than the main set.** -/
theorem exceptions_follow (hsrcs : ∀ n, (srcs n).blocklistID = id) (hfresh : Fresh id s)
    (hrun : Run (blocklistHandler grace) Free (publisher env srcs lookups s) es Q)
    (hsucc : Successive es) {a b n : ℕ}
    (hab : a ≤ b) (hlast : lastPublisher (liveKey id) (es.take a) = some (.run n)) :
    ∃ n' ≥ n, lastPublisher (exceptionsKey id) (es.take b) = some (.run n') := by
  have hruns : ∀ {c es₁ e es₂}, es.take c = es₁ ++ e :: es₂ →
      Run (blocklistHandler grace) Free (publisher env srcs lookups s)
        (es₁ ++ e :: (es₂ ++ es.drop c)) Q := by
    intro c es₁ e es₂ htake
    rw [← List.cons_append, ← List.append_assoc, ← htake, List.take_append_drop]
    exact hrun
  -- the run has published its exceptions before
  obtain ⟨es₁, e, es₂, htake, hwho, hpub, -⟩ := lastPublisher_some hlast
  obtain ⟨n₀, p, cmd, hrunner, -, hcmd, hknown⟩ := publisher_run hsrcs hfresh (hruns htake) hpub
  cases hwho.symm.trans hrunner
  obtain ⟨x, hx, hready⟩ := (published_main hknown hcmd).published
  have hbefore : (⟨.run n, x.1, x.2⟩ : Event blocklistCalls.sig Thread) ∈ es.take b := by
    have hin : (⟨.run n, x.1, x.2⟩ : Event blocklistCalls.sig Thread) ∈ es.take a := by
      rw [htake]
      exact List.mem_append_left _ (mem_trace.1 hx)
    exact (List.take_sublist_take_left hab).subset hin
  -- and whoever has published them last did so then, or later
  cases hlast' : lastPublisher (exceptionsKey id) (es.take b) with
  | none => exact absurd hready (lastPublisher_none.1 hlast' _ hbefore)
  | some i =>
    obtain ⟨m₁, e', m₂, htake', hwho', hpub', hnone⟩ := lastPublisher_some hlast'
    obtain ⟨n', p', cmd', hrunner', -⟩ := publisher_run hsrcs hfresh (hruns htake') hpub'
    obtain rfl := hwho'.symm.trans hrunner'
    refine ⟨n', ?_, rfl⟩
    have hsucc' : Successive (es.take b) := List.Pairwise.sublist (List.take_sublist _ _) hsucc
    rw [htake'] at hbefore hsucc'
    rcases List.mem_append.1 hbefore with hin | hin
    · exact (List.pairwise_append.1 hsucc').2.2 _ hin _ List.mem_cons_self n n' rfl hrunner'
    · rcases List.mem_cons.1 hin with heq | hin
      · rw [← heq] at hrunner'
        cases hrunner'
        exact Nat.le_refl _
      · exact absurd hready (hnone _ hin)

/-- **What a read sees** is a whole set: the one that was last published, or the one from before. -/
theorem read_whole (hsrcs : ∀ n, (srcs n).blocklistID = id)
    (hgrace : processingTimeout + grace < stagingTTL) (hfresh : Fresh id s)
    (hlasting : Lasting id s) (hrun : Run (blocklistHandler grace) Free
      (publisher env srcs lookups s) es Q) {m k : ℕ} {n : SetName} {member : String}
    {found : Bool} (hread : es[m]? = some ⟨.lookup k, .sismember (n.key id) member, .ok found⟩) :
    ∃ x : Option RedisSet, found = x.any (fun y => member ∈ y.members) ∧
      ((lastPublisher (n.key id) (es.take m) = none ∧ x = s.redis (n.key id)) ∨
        ∃ r p, lastPublisher (n.key id) (es.take m) = some (.run r) ∧
          Planned env (srcs r) (trace (.run r) (es.take m)) p ∧ x = publishedSet (p.names n)) := by
  have hP : Publishing env id (Thread.job srcs) (publisher env srcs lookups s) :=
    publishing_publisher hsrcs hfresh
  obtain ⟨R, R', hbefore, -, hstep, -⟩ := run_at hrun hread
  obtain ⟨d, hfound, -⟩ := next_sismember (next_of_step hstep)
  refine ⟨(R.state.elapse d).redis (n.key id), hfound, ?_⟩
  have hshows := (live_run hP hgrace hbefore n).elapse (d := d)
  unfold Shows at hshows
  cases hlast : lastPublisher (n.key id) (es.take m) with
  | none =>
    rw [hlast] at hshows
    exact .inl ⟨rfl, hshows hlasting⟩
  | some i =>
    rw [hlast] at hshows
    obtain ⟨src, p, hjob, hplan, hx⟩ := hshows
    cases i with
    | run r =>
      cases hjob
      exact .inr ⟨r, p, rfl, hplan, hx⟩
    | lookup k => cases hjob

/-- **Lookups between updates.** However the updates end and overlap, every read sees a whole set.
If the updates are successive, the exceptions that a lookup reads are not older than the main set
that it has read before. -/
theorem lookups_consistent (hsrcs : ∀ n, (srcs n).blocklistID = id)
    (hgrace : processingTimeout + grace < stagingTTL) (hfresh : Fresh id s)
    (hlasting : Lasting id s) (hrun : Run (blocklistHandler grace) Free
      (publisher env srcs lookups s) es Q) :
    (∀ (m k : ℕ) (n : SetName) (member : String) (found : Bool),
      es[m]? = some ⟨.lookup k, .sismember (n.key id) member, .ok found⟩ →
      ∃ x : Option RedisSet, found = x.any (fun y => member ∈ y.members) ∧
        ((lastPublisher (n.key id) (es.take m) = none ∧ x = s.redis (n.key id)) ∨
          ∃ r p, lastPublisher (n.key id) (es.take m) = some (.run r) ∧
            Planned env (srcs r) (trace (.run r) (es.take m)) p ∧ x = publishedSet (p.names n))) ∧
    (Successive es → ∀ (a b k n : ℕ) (member member' : String) (found found' : Bool), a < b →
      es[a]? = some ⟨.lookup k, .sismember (liveKey id) member, .ok found⟩ →
      es[b]? = some ⟨.lookup k, .sismember (exceptionsKey id) member', .ok found'⟩ →
      lastPublisher (liveKey id) (es.take a) = some (.run n) →
      ∃ n' ≥ n, lastPublisher (exceptionsKey id) (es.take b) = some (.run n')) := by
  constructor
  · intro m k n member found hread
    exact read_whole hsrcs hgrace hfresh hlasting hrun hread
  · intro hsucc a b k n member member' found found' hab _ _ hlast
    exact exceptions_follow hsrcs hfresh hrun hsucc (Nat.le_of_lt hab) hlast

end Readers

section Examples

/-- A request for a name that the updates below block, and then except. -/
def rulesLookup : Lookup where
  reqCtx := ⟨"p", [], [], [], [], [], [], ⟨.unset, []⟩, none⟩
  blocklists := [rulesSource.blocklistID]
  fqdn := "example.org"

/-- An update up to its exceptions. -/
def untilExceptions (body : String) (id : ObjectID) (uuid : String) : List Outcome :=
  [.ok, .body (encode body), .ok, .ok, .id id, .ok, .id (id + 1), .ok, .uuid uuid, .ok,
    .ok, .ok, .ok]

/-- Its main set. -/
def mainPublished (uuid : String) : List Outcome := [.uuid uuid, .ok, .ok, .ok, .ok]

/-- Two updates. The second one excepts the name, and is between its two sets when the first lookup
reads; the second lookup comes after both. -/
def lookupBetween : List (Thread × Choice) :=
  (untilExceptions "||example.org^\n@@||ok.example.org^" 3 "u" ++ mainPublished "v" ++
      List.replicate 3 Outcome.ok).map (fun o => (Thread.run 0, ⟨0, o⟩)) ++
    (untilExceptions "||example.org^\n@@||example.org^" 5 "w").map
    (fun o => (Thread.run 1, ⟨0, o⟩)) ++
    (Thread.lookup 0, ⟨0, .ok⟩) ::
    (mainPublished "x").map (fun o => (Thread.run 1, ⟨0, o⟩)) ++
    [(Thread.lookup 0, ⟨0, .ok⟩), (Thread.lookup 1, ⟨0, .ok⟩), (Thread.lookup 1, ⟨0, .ok⟩)]

/-- What an event has read. -/
def readOf : Event blocklistCalls.sig Thread → Option (Thread × String × String × Bool)
  | ⟨who, .sismember key member, .ok found⟩ => some (who, key, member, found)
  | _ => none

theorem readOf_some {e : Event blocklistCalls.sig Thread} {who : Thread} {key member : String}
    {found : Bool} (h : readOf e = some (who, key, member, found)) :
    e = ⟨who, .sismember key member, .ok found⟩ := by
  unfold readOf at h
  split at h
  · cases h
    rfl
  · cases h

theorem read_at {es : List (Event blocklistCalls.sig Thread)} {m : ℕ} {who : Thread}
    {key member : String} {found : Bool} (h : es[m]?.bind readOf = some (who, key, member, found)) :
    es[m]? = some ⟨who, .sismember key member, .ok found⟩ := by
  obtain ⟨e, he, hread⟩ := Option.bind_eq_some_iff.1 h
  rw [he, readOf_some hread]

/-- Two threads that are not updates in the wrong order. -/
def Thread.inOrder : Thread → Thread → Bool
  | .run n, .run n' => n ≤ n'
  | _, _ => true

theorem successive_of_who {es : List (Event blocklistCalls.sig Thread)}
    (h : (es.map Event.who).Pairwise fun i j => i.inOrder j = true) : Successive es := by
  refine (List.pairwise_map.1 h).imp ?_
  intro e e' horder n n' hn hn'
  rw [hn, hn'] at horder
  exact of_decide_eq_true horder

theorem lasting_rules : Lasting rulesSource.blocklistID rulesStores := by
  intro n x hx
  have hsome : (if n.key "adguard" = liveKey "adguard" then
    some ⟨{"example.com"}, none⟩ else none) =
      some x := hx
  split at hsome
  · cases hsome
    rfl
  · cases hsome

/-- The first lookup reads the main set of the first update and the exceptions of the second one,
the second lookup reads both sets of the second update. -/
theorem lookups_consistent_between : ∃ es Q,
    Run (blocklistHandler 0) Free
        (publisher rulesEnv (fun _ => rulesSource) (fun _ => rulesLookup) rulesStores) es Q ∧
      lastPublisher (liveKey rulesSource.blocklistID) (es.take 34) = some (.run 0) ∧
      (∃ p, Planned rulesEnv rulesSource (trace (.run 0) (es.take 34)) p ∧
        (publishedSet p.validated).any fun y => "example.org" ∈ y.members) ∧
      lastPublisher (exceptionsKey rulesSource.blocklistID) (es.take 40) = some (.run 1) ∧
      lastPublisher (liveKey rulesSource.blocklistID) (es.take 41) = some (.run 1) ∧
      ∃ n' ≥ 1, lastPublisher (exceptionsKey rulesSource.blocklistID) (es.take 42) = some
      (.run n') := by
  have hplays : (play (blocklistHandler 0) Free lookupBetween
      (publisher rulesEnv (fun _ => rulesSource) (fun _ => rulesLookup) rulesStores)).any (fun x =>
        x.1[34]?.bind readOf = some (.lookup 0, liveKey rulesSource.blocklistID,
          "example.org", true) ∧
          x.1[41]?.bind readOf = some
          (.lookup 1, liveKey rulesSource.blocklistID, "example.org", true) ∧
          x.1[42]?.bind readOf = some
          (.lookup 1, exceptionsKey rulesSource.blocklistID, "example.org", true) ∧
          lastPublisher (liveKey rulesSource.blocklistID) (x.1.take 34) = some (.run 0) ∧
          lastPublisher (exceptionsKey rulesSource.blocklistID) (x.1.take 40) = some (.run 1) ∧
          lastPublisher (liveKey rulesSource.blocklistID) (x.1.take 41) = some (.run 1) ∧
          (x.1.map Event.who).Pairwise fun i j => i.inOrder j = true) := by
    decide +kernel
  obtain ⟨⟨es, Q⟩, hplay, hfacts⟩ := (Option.any_eq_true _ _).1 hplays
  obtain ⟨hfirst, hmain, hexceptions, hlast, hbetween, hlast', hwho⟩ := of_decide_eq_true hfacts
  have hrun := run_of_play hplay
  obtain ⟨hwhole, hfollows⟩ :=
    lookups_consistent (fun _ => rfl) (by decide) fresh_rules lasting_rules hrun
  obtain ⟨x, hfound, hx⟩ := hwhole 34 0 .main _ _ (read_at hfirst)
  obtain ⟨hnone, -⟩ | ⟨r, p, hr, hplan, hset⟩ := hx
  · cases hnone.symm.trans hlast
  cases hlast.symm.trans hr
  exact ⟨es, Q, hrun, hlast, ⟨p, hplan, hset ▸ hfound.symm⟩, hbetween, hlast',
    hfollows (successive_of_who hwho) 41 42 1 1 _ _ _ _ (by decide) (read_at hmain)
      (read_at hexceptions) hlast'⟩

end Examples

end ModDNS.Blocklists
