import ModDNS.Go.Int64

/-!
# The downloads of the lists

A `Downloader` retries a failed download, after a delay that the server asks for or that doubles.
What the network does in a round is an input of the model, and so are the readings of the clock, the
random numbers and the end of the context.

* `applyDefaults_positive`: the configuration in use.
-/

namespace ModDNS.Blocklists.Downloader

open Go

section Config

def second : ℤ := 1000000000

/-- The tuning knobs; durations are in nanoseconds. -/
structure Config where
  timeout : I64
  maxConcurrency : I64
  perHostMinInterval : I64
  maxAttempts : I64
  baseRetryDelay : I64
  maxRetryDelay : I64
  maxBodySize : I64
  userAgent : String

def defaultTimeout : I64 := ⟨30 * second, by decide⟩

def defaultMaxConcurrency : I64 := ⟨4, by decide⟩

def defaultPerHostMinInterval : I64 := ⟨2 * second, by decide⟩

def defaultMaxAttempts : I64 := ⟨3, by decide⟩

def defaultBaseRetryDelay : I64 := ⟨1 * second, by decide⟩

def defaultMaxRetryDelay : I64 := ⟨30 * second, by decide⟩

def defaultMaxBodySize : I64 := ⟨100 * 1024 * 1024, by decide⟩

def defaultUserAgent : String := "moddns-blocklists/1.0 (+https://www.moddns.net)"

/-- A field that is not positive has its default. -/
def orDefault (x default : I64) : I64 := if x.1 ≤ 0 then default else x

def applyDefaults (c : Config) : Config where
  timeout := orDefault c.timeout defaultTimeout
  maxConcurrency := orDefault c.maxConcurrency defaultMaxConcurrency
  -- a negative interval switches the spacing off
  perHostMinInterval :=
    if c.perHostMinInterval.1 < 0 then ⟨0, by decide⟩
    else if c.perHostMinInterval.1 = 0 then defaultPerHostMinInterval
    else c.perHostMinInterval
  maxAttempts := orDefault c.maxAttempts defaultMaxAttempts
  baseRetryDelay := orDefault c.baseRetryDelay defaultBaseRetryDelay
  maxRetryDelay := orDefault c.maxRetryDelay defaultMaxRetryDelay
  maxBodySize := orDefault c.maxBodySize defaultMaxBodySize
  userAgent := if c.userAgent = "" then defaultUserAgent else c.userAgent

theorem orDefault_positive {x default : I64} (h : 0 < default.1) : 0 < (orDefault x default).1 := by
  unfold orDefault
  split
  · exact h
  · omega

/-- What the loops rely on. -/
structure Positive (cfg : Config) : Prop where
  maxConcurrency : 0 < cfg.maxConcurrency.1
  perHostMinInterval : 0 ≤ cfg.perHostMinInterval.1
  maxAttempts : 0 < cfg.maxAttempts.1
  baseRetryDelay : 0 < cfg.baseRetryDelay.1
  maxRetryDelay : 0 < cfg.maxRetryDelay.1

/-- **The configuration in use** has no number that is not positive, but for an interval that is
switched off. -/
theorem applyDefaults_positive (c : Config) : Positive (applyDefaults c) where
  maxConcurrency := orDefault_positive (by decide)
  perHostMinInterval := by
    unfold applyDefaults
    dsimp only
    split
    · decide
    · split
      · decide
      · omega
  maxAttempts := orDefault_positive (by decide)
  baseRetryDelay := orDefault_positive (by decide)
  maxRetryDelay := orDefault_positive (by decide)

/-- Without a configuration. -/
def noConfig : Config :=
  ⟨⟨0, by decide⟩, ⟨0, by decide⟩, ⟨0, by decide⟩, ⟨0, by decide⟩, ⟨0, by decide⟩, ⟨0, by decide⟩,
  ⟨0, by decide⟩, ""⟩

end Config

section Attempt

/-- What the packages for HTTP read. -/
structure Http where
  /-- A request can be made for the URL. -/
  validURL : String → Bool
  /-- `http.ParseTime`, in nanoseconds; `none` is an error. -/
  parseTime : String → Option ℤ
  /-- No layout of a date is a number. -/
  parseTime_numeral : ∀ v, numeral v ≠ none → parseTime v = none

/-- A body, of which the reading can break off. -/
structure Body where
  bytes : List UInt8
  broken : Bool

/-- What becomes of a request. -/
inductive Exchange where
  | failed
  | response (status : ℕ) (retryAfter : String) (body : Body)

/-- `rand.Int63n`. -/
abbrev Rng := {rng : ℤ → ℤ // ∀ n, 0 < n → 0 ≤ rng n ∧ rng n < n}

def noJitter : Rng := ⟨fun _ => 0, fun _ h => ⟨Int.le_refl 0, h⟩⟩

/-- What a round meets. -/
structure Round where
  exchange : Exchange
  /-- The context has ended when the request or the reading fails. -/
  ended : Bool
  /-- It has ended when the attempt returns. -/
  endedAfter : Bool
  now : ℤ
  rng : Rng
  /-- The sleep returns an error. -/
  woken : Bool

inductive FetchErr where
  | request
  | transport
  | body
  | tooLarge (maxBodySize : ℤ)
  | badStatus (status : ℕ)
  | sleep
  deriving DecidableEq

/-- What an attempt returns. -/
structure Attempt where
  body : List UInt8 := []
  retryAfter : Checked := .of 0
  retryable : Bool := false
  err : Option FetchErr := none

/-- `Time.Sub`, which saturates. -/
def sub (t u : ℤ) : ℤ := max (-2 ^ 63) (min (2 ^ 63 - 1) (t - u))

/-- The delay that a header asks for; nothing is asked by one that is absent, not valid, or in the
past. -/
def parseRetryAfter (http : Http) (v : String) (now : ℤ) : Checked :=
  if v = "" then .of 0
  else
    match atoi v with
    | some secs => if secs < 0 then .of 0 else (Checked.of secs).mul second
    | none =>
      match http.parseTime v with
      | some t => if 0 < sub t now then .of (sub t now) else .of 0
      | none => .of 0

/-- The bytes that a `LimitReader` lets through, and whether the reading fails before. -/
def copyLimited (limit : ℤ) (b : Body) : List UInt8 × Bool :=
  (b.bytes.take limit.toNat, b.broken && b.bytes.length < limit)

def attempt (http : Http) (cfg : Config) (rawURL : String) (r : Round) : Attempt :=
  if !http.validURL rawURL then { err := some .request }
  else
    match r.exchange with
    | .failed => { retryable := !r.ended, err := some .transport }
    | .response status retryAfter body =>
      if status = 200 then
        let (buf, broken) := copyLimited (wrap64 (cfg.maxBodySize.1 + 1)) body
        if broken then { retryable := !r.ended, err := some .body }
        else if cfg.maxBodySize.1 < buf.length then { err := some (.tooLarge cfg.maxBodySize.1) }
        else { body := buf }
      else if status = 429 || 500 ≤ status then
        { retryAfter := parseRetryAfter http retryAfter r.now, retryable := true
          err := some (.badStatus status) }
      else { err := some (.badStatus status) }

end Attempt

section Retry

/-- The loop of `backoff`, with the doublings that are left. -/
def doubling (maxRetryDelay : ℤ) : ℕ → Checked → Checked
  | 0, base => base
  | n + 1, base =>
    let base := base.mul 2
    if maxRetryDelay ≤ base.value then ⟨maxRetryDelay, base.exact⟩
    else doubling maxRetryDelay n base

/-- The delay before the next attempt: what the server asks for, or one that doubles, with jitter,
up to the largest one. -/
def backoff (cfg : Config) (attempt : ℕ) (retryAfter : Checked) (rng : Rng) : Checked :=
  if 0 < retryAfter.value then
    if cfg.maxRetryDelay.1 < retryAfter.value then { retryAfter with value := cfg.maxRetryDelay.1 }
    else retryAfter
  else
    let base := doubling cfg.maxRetryDelay.1 (attempt - 1) ⟨cfg.baseRetryDelay.1, retryAfter.exact⟩
    let half : Checked := { base with value := base.value.tdiv 2 }
    if half.value ≤ 0 then base else half.add
      { (half.add (.of 1)) with value := rng.1 (half.add (.of 1)).value }

/-- A round that has been made. -/
structure Step where
  attempt : ℕ
  round : Round
  outcome : Attempt
  /-- The wait after it. -/
  delay : Option Checked

/-- The rounds, and what is returned; without a round it is neither a body nor an error. -/
structure Fetched where
  steps : List Step
  body : List UInt8
  err : Option FetchErr

/-- An attempt is followed by another one, if the sleep is not cut off. -/
def retries (cfg : Config) (n : ℕ) (r : Round) (a : Attempt) : Bool :=
  a.err.isSome && a.retryable && (n : ℤ) ≠ cfg.maxAttempts.1 && !r.endedAfter

/-- The loop from an attempt on, with the rounds that are left. -/
def retryLoop (http : Http) (cfg : Config) (rawURL : String) (rounds : ℕ → Round) :
    ℕ → ℕ → Option FetchErr → Fetched
  | 0, _, lastErr => ⟨[], [], lastErr⟩
  | left + 1, n, _ =>
    let r := rounds n
    let a := attempt http cfg rawURL r
    match a.err with
    | none => ⟨[⟨n, r, a, none⟩], a.body, none⟩
    | some err =>
      if !a.retryable || (n : ℤ) = cfg.maxAttempts.1 || r.endedAfter then
        ⟨[⟨n, r, a, none⟩], [], some err⟩
      else
        let delay := backoff cfg n a.retryAfter r.rng
        if r.woken then ⟨[⟨n, r, a, some delay⟩], [], some .sleep⟩
        else
          let rest := retryLoop http cfg rawURL rounds left (n + 1) (some err)
          { rest with steps := ⟨n, r, a, some delay⟩ :: rest.steps }

def fetchWithRetry (http : Http) (cfg : Config) (rawURL : String) (rounds : ℕ → Round) : Fetched :=
  retryLoop http cfg rawURL rounds cfg.maxAttempts.1.toNat 1 none

end Retry

end ModDNS.Blocklists.Downloader
