import Mathlib.Data.List.Basic
import Mathlib.Algebra.Order.Ring.Int

/-!
# The data collection of a profile, in the browser

The state machine behind the control: what a save of the staged state changes, the note under it,
and the dialog that asks before data is deleted. Times are in milliseconds since 1970; the texts of
dates are those of the browser.

* `transitionFor_lower`: what a save that lowers the retention of the statistics announces.
-/

namespace ModDNS.App.DataCollection

section Text

/-- What is before the first occurrence of a text, and what is after it. -/
def cutAt (sub : List Char) : List Char → Option (List Char × List Char)
  | [] => if sub = [] then some ([], []) else none
  | c :: cs =>
    if sub.isPrefixOf (c :: cs) then some ([], (c :: cs).drop sub.length)
    else (cutAt sub cs).map fun (before, after) => (c :: before, after)

/-- `body.replace` with a text that has no `$`. -/
def replaceFirst (body old new : String) : String :=
  match cutAt old.toList body.toList with
  | none => body
  | some (before, after) => .ofList (before ++ new.toList ++ after)

/-- The sentence goes after the first one. -/
def afterFirstSentence (body sentence : String) : String :=
  match cutAt ". ".toList body.toList with
  | none => body ++ " " ++ sentence
  | some (before, after) => .ofList before ++ ". " ++ sentence ++ " " ++ .ofList after

end Text

section Model

inductive LogsRetention where
  | oneHour
  | sixHours
  | oneDay
  | oneWeek
  | oneMonth
  deriving DecidableEq

/-- The key of `LOGS_RETENTION_WORDS`. -/
def LogsRetention.ofValue (value : String) : Option LogsRetention :=
  if value = "1h" then some .oneHour
  else if value = "6h" then some .sixHours
  else if value = "1d" then some .oneDay
  else if value = "1w" then some .oneWeek
  else if value = "1m" then some .oneMonth
  else none

/-- `LOGS_RETENTION_WORDS`. -/
def LogsRetention.words : LogsRetention → String
  | .oneHour => "1 hour"
  | .sixHours => "6 hours"
  | .oneDay => "1 day"
  | .oneWeek => "1 week"
  | .oneMonth => "1 month"

/-- `LOGS_RETENTION_HOURS`. -/
def LogsRetention.hours : LogsRetention → ℕ
  | .oneHour => 1
  | .sixHours => 6
  | .oneDay => 24
  | .oneWeek => 168
  | .oneMonth => 720

inductive StatsRetention where
  | days30
  | days90
  | year
  deriving DecidableEq

/-- An entry of `STATS_RETENTION_OPTIONS`. -/
structure StatsRetentionOption where
  value : String
  words : String
  days : ℤ

/-- `STATS_RETENTION_OPTIONS`. -/
def StatsRetention.option : StatsRetention → StatsRetentionOption
  | .days30 => ⟨"30d", "30 days", 30⟩
  | .days90 => ⟨"90d", "90 days", 90⟩
  | .year => ⟨"1y", "1 year", 365⟩

/-- An empty or unknown value reads as 30 days. -/
def normalizeStatsRetention (value : Option String) : StatsRetention :=
  ([StatsRetention.days30, .days90, .year].find? fun o => some o.option.value = value).getD .days30

def statsRetentionWords (r : StatsRetention) : String := r.option.words

def statsDays (r : StatsRetention) : ℤ := r.option.days

/-- `settings.logs` of a profile. -/
structure ModelLogs where
  enabled : Option Bool
  logDomains : Option Bool
  logClientsIPs : Option Bool
  retention : Option String

/-- `settings.statistics` of a profile. -/
structure ModelStatistics where
  enabled : Option Bool
  enabledAt : Option String
  historyDeletedAt : Option String
  retention : Option String

/-- The settings of a profile that the control looks at. -/
structure ModelProfile where
  logs : Option ModelLogs
  statistics : Option ModelStatistics

structure DataCollectionState where
  stats : Bool
  logs : Bool
  statsRetention : StatsRetention
  domains : Bool
  ips : Bool
  retention : LogsRetention
  deriving DecidableEq

def fromProfile (profile : ModelProfile) : DataCollectionState where
  stats := (profile.statistics.bind (·.enabled)).getD false
  logs := (profile.logs.bind (·.enabled)).getD false
  statsRetention := normalizeStatsRetention (profile.statistics.bind (·.retention))
  domains := (profile.logs.bind (·.logDomains)).getD true
  ips := (profile.logs.bind (·.logClientsIPs)).getD false
  retention := ((profile.logs.bind (·.retention)).bind LogsRetention.ofValue).getD .oneHour

inductive StateKey where
  | off
  | statistics
  | both
  | logs
  deriving DecidableEq

def stateKey (s : DataCollectionState) : StateKey :=
  if s.logs then if s.stats then .both else .logs else if s.stats then .statistics else .off

inductive Change where
  | raise
  | lower
  deriving DecidableEq

/-- Of the statistics, while they stay on. -/
def retentionChange (saved pending : DataCollectionState) : Option Change :=
  if !saved.stats || !pending.stats || saved.statsRetention = pending.statsRetention then none
  else if statsDays pending.statsRetention > statsDays saved.statsRetention then some .raise
  else some .lower

/-- Of the query logs, while they stay on. -/
def logsRetentionChange (saved pending : DataCollectionState) : Option Change :=
  if !saved.logs || !pending.logs || saved.retention = pending.retention then none
  else if pending.retention.hours > saved.retention.hours then some .raise
  else some .lower

def logsFieldsChanged (saved pending : DataCollectionState) : Bool :=
  pending.logs && (pending.domains ≠ saved.domains || pending.ips ≠ saved.ips)

end Model

section Held

/-- What the browser brings: its reading of timestamps, and its texts of times, for a time zone and
a language. -/
structure Browser where
  /-- `Date.parse`, or `NaN`. -/
  parse : String → Option ℤ
  getFullYear : ℤ → ℤ
  toDateString : ℤ → String
  /-- A month and a day in UTC. -/
  utcDate : ℤ → String
  /-- A month and a day, with the year or without it. -/
  formatDate : Bool → ℤ → String
  /-- An hour and a minute, after the date or without it. -/
  formatTime : Bool → ℤ → String

def dayMs : ℤ := 86400000

/-- What the stored counts cover: the oldest one, and the first daily bucket. -/
structure StatsHeld where
  nowMs : ℤ
  oldestMs : ℤ
  firstDayMs : ℤ
  deriving DecidableEq

def parseTime (b : Browser) (v : Option String) : Option ℤ := v.bind b.parse

def floorDay (ms : ℤ) : ℤ := ms / dayMs * dayMs

/-- `Math.max` of a time and one that may be `-Infinity`. -/
def maxTime (t : Option ℤ) (u : ℤ) : ℤ := t.elim u (max u)

/-- Nothing without a start of counting. -/
def statsHeld (b : Browser) (profile : ModelProfile) (nowMs : ℤ) : Option StatsHeld :=
  match profile.statistics with
  | none => none
  | some s =>
    if s.enabled.getD false = false then none
    else
      let enabledAt := parseTime b s.enabledAt
      let deletedAt := parseTime b s.historyDeletedAt
      if enabledAt = none ∧ deletedAt = none then none
      else
        let limit := nowMs - statsDays (normalizeStatsRetention s.retention) * dayMs
        -- the bucket of the deletion also held older counts
        some
          { nowMs := nowMs
            oldestMs := maxTime enabledAt (maxTime deletedAt limit)
            firstDayMs :=
              maxTime (enabledAt.map floorDay)
                (maxTime (deletedAt.map fun t => floorDay t + dayMs) (floorDay limit)) }

def days (n : ℤ) : String := toString n ++ " " ++ if n = 1 then "day" else "days"

def localDate (b : Browser) (ms nowMs : ℤ) : String :=
  b.formatDate (b.getFullYear ms ≠ b.getFullYear nowMs) ms

def localTime (b : Browser) (ms nowMs : ℤ) : String :=
  b.formatTime (b.toDateString ms ≠ b.toDateString nowMs) ms

/-- Every stored count. -/
def heldSentence (b : Browser) (h : StatsHeld) : String :=
  let n := (h.nowMs - h.oldestMs) / dayMs
  if n < 1 then s!"The counts go back to {localTime b h.oldestMs h.nowMs}."
  else s!"The counts go back to {localDate b h.oldestMs h.nowMs} ({days n})."

/-- Days that a lowering deletes. -/
structure LostDays where
  count : ℤ
  first : ℤ
  last : ℤ
  deriving DecidableEq

/-- `Math.round` of a quotient. -/
def roundDiv (m n : ℤ) : ℤ := (2 * m + n) / (2 * n)

/-- The days of `lostSentence`. -/
def lostDays (h : StatsHeld) (keepDays : ℤ) : Option LostDays :=
  let cutoff := floorDay (h.nowMs - keepDays * dayMs)
  let n := roundDiv (cutoff - h.firstDayMs) dayMs
  if n < 1 then none else some ⟨n, h.firstDayMs, cutoff - dayMs⟩

def LostDays.sentence (b : Browser) (l : LostDays) : String :=
  if l.count = 1 then s!"That is 1 day of counts, {b.utcDate l.first}."
  else s!"That is {days l.count} of counts, from {b.utcDate l.first} to {b.utcDate l.last}."

/-- The daily buckets that a lowering deletes. -/
def lostSentence (b : Browser) (h : StatsHeld) (keepDays : ℤ) : Option String :=
  (lostDays h keepDays).map (LostDays.sentence b)

end Held

section Transitions

structure Dialog where
  title : String
  body : String
  confirm : String
  deriving DecidableEq

structure Transition where
  id : String
  label : String
  toast : String
  note : Option String := none
  dialog : Option Dialog := none
  /-- Of the statistics, in the same save. -/
  retention : Option Change := none
  /-- Of the query logs, in the same save. -/
  logsRetention : Option Change := none
  /-- How many counts a lowering deletes. -/
  lost : Option String := none
  /-- No count is older than the new retention. -/
  nothingOlder : Bool := false
  deriving DecidableEq

def undone : String := "This action cannot be undone."

/-- Turning statistics off deletes every stored count. -/
def deletesStats : List String := ["T4", "T6", "T7", "T9"]

def withHeld (b : Browser) (t : Option Transition) (h : Option StatsHeld) : Option Transition :=
  match t, h with
  | some t, some h =>
    match t.dialog with
    | none => some t
    | some d =>
      if t.id ∈ deletesStats then some
        { t with dialog := some { d with body := afterFirstSentence d.body (heldSentence b h) } }
      else some t
  | t, _ => t

def firstCounts : String := " The first counts appear at the next quarter hour."

def stateTransition (source target : StateKey) (logsWords statsWords : String) :
    Option Transition :=
  match source, target with
  | .off, .statistics => some
    { id := "T1"
      label := "Turn on statistics"
      toast := "Statistics turned on."
      note := some
        (s!"modDNS will start counting this profile's queries per device and keep the counts for {statsWords}. "
        ++ "No domains or addresses are stored." ++ firstCounts) }
  | .off, .both => some
    { id := "T2"
      label := "Turn on statistics and query logs"
      toast := "Statistics and query logs turned on."
      note := some
        (s!"modDNS will record each query for {logsWords} and keep counts per device for {statsWords}." ++ firstCounts) }
  | .off, .logs => some
    { id := "T3"
      label := "Turn on query logs"
      toast := "Query logs turned on."
      note := some s!"modDNS will record each query for {logsWords}. No counts are kept." }
  | .statistics, .off => some
    { id := "T4"
      label := "Turn off"
      toast := "Statistics turned off and deleted."
      dialog := some
        { title := "Turn off statistics?"
          body := s!"All statistics for this profile will be permanently deleted. {undone}"
          confirm := "Turn off and delete" } }
  | .statistics, .both => some
    { id := "T5"
      label := "Turn on query logs"
      toast := "Query logs turned on."
      note := some s!"modDNS will also record each query for {logsWords}." }
  | .statistics, .logs => some
    { id := "T6"
      label := "Save changes"
      toast := "Data collection updated."
      note := some s!"modDNS will record each query for {logsWords}. No counts are kept."
      dialog := some
        { title := "Switch to query logs only?"
          body := "All statistics for this profile will be permanently deleted, and modDNS will start recording each query for "
            ++ s!"{logsWords}. {undone}"
          confirm := "Switch and delete statistics" } }
  | .both, .off => some
    { id := "T7"
      label := "Turn off"
      toast := "Data collection turned off. Logs and statistics deleted."
      dialog := some
        { title := "Turn off data collection?"
          body := s!"All query logs and statistics for this profile will be permanently deleted. {undone}"
          confirm := "Turn off and delete" } }
  | .both, .statistics => some
    { id := "T8"
      label := "Save changes"
      toast := "Query logs turned off and deleted."
      dialog := some
        { title := "Turn off query logs?"
          body := s!"All query logs for this profile will be permanently deleted. Statistics stay on. {undone}"
          confirm := "Delete logs" } }
  | .both, .logs => some
    { id := "T9"
      label := "Save changes"
      toast := "Statistics turned off and deleted."
      dialog := some
        { title := "Stop keeping statistics?"
          body := s!"All statistics for this profile will be permanently deleted. Query logs stay on. {undone}"
          confirm := "Delete statistics" } }
  | .logs, .off => some
    { id := "T10"
      label := "Turn off"
      toast := "Query logs turned off and deleted."
      dialog := some
        { title := "Turn off query logs?"
          body := s!"All query logs for this profile will be permanently deleted. {undone}"
          confirm := "Turn off and delete" } }
  | .logs, .statistics => some
    { id := "T11"
      label := "Save changes"
      toast := "Data collection updated."
      note := some
        (s!"modDNS will start counting this profile's queries per device and keep the counts for {statsWords}." ++ firstCounts)
      dialog := some
        { title := "Switch to statistics?"
          body := "All query logs for this profile will be permanently deleted, and modDNS will start counting queries per device "
            ++ s!"for {statsWords}. {undone}"
          confirm := "Switch and delete logs" } }
  | .logs, .both => some
    { id := "T12"
      label := "Turn on statistics"
      toast := "Statistics turned on."
      note := some (s!"modDNS will also keep counts per device for {statsWords}." ++ firstCounts) }
  | .off, .off => none
  | .statistics, .statistics => none
  | .both, .both => none
  | .logs, .logs => none

def logsKeepNote (logsWords : String) : String :=
  s!"modDNS will keep this profile's query logs for up to {logsWords}."

def logsOlder (logsWords : String) : String :=
  s!"Query logs older than {logsWords} will be permanently deleted."

/-- With nothing else in the save. -/
def logsRetentionAlone (change : Change) (logsWords : String) : Transition :=
  match change with
  | .raise =>
    { id := "T17"
      label := s!"Keep for {logsWords}"
      toast := s!"Query logs are now kept for {logsWords}."
      note := some (logsKeepNote logsWords)
      logsRetention := some change }
  | .lower =>
    { id := "T18"
      label := "Save changes"
      toast := s!"Query logs are now kept for {logsWords}. Older logs deleted."
      dialog :=
        some ⟨s!"Keep query logs for {logsWords}?", s!"{logsOlder logsWords} {undone}",
          "Delete older logs"⟩
      logsRetention := some change }

/-- The dialog is that of the state change, and not one of a lower retention. -/
def stateDialog (t : Transition) : Bool := t.id ∈ ["T4", "T5", "T6", "T7", "T8", "T9", "T10", "T11"]

/-- A note after the one that is there. -/
def addNote (t : Transition) (note : String) : Option String :=
  some (t.note.elim note fun first => s!"{first} {note}")

/-- Added to another change: the note of the raise, or the sentence of the lowering in the one
dialog. -/
def withLogsRetention (t : Transition) (change : Option Change) (logsWords : String) : Transition :=
  match change with
  | some .raise => { t with note := addNote t (logsKeepNote logsWords), logsRetention := change }
  | none => t
  | some .lower =>
    match t.dialog with
    | none =>
      { t with
        logsRetention := change
        dialog :=
          some ⟨s!"Keep query logs for {logsWords}?", s!"{logsOlder logsWords} {undone}",
            "Delete older logs"⟩ }
    | some d =>
      let body := replaceFirst d.body undone s!"{logsOlder logsWords} {undone}"
      -- the dialog of the lower statistics names both
      let (title, confirm) :=
        if stateDialog t then (d.title, d.confirm)
        else ("Delete older counts and logs?", "Delete older data")
      { t with logsRetention := change, dialog := some ⟨title, body, confirm⟩ }

/-- No count is older. -/
def keepNote (statsWords : String) : String :=
  s!"No counts are older than {statsWords} yet, so nothing is deleted."

/-- What the retention of the statistics adds to another change. -/
def withRetention (t : Transition) (retention : Option Change) (lost : Option String)
    (nothingOlder : Bool) (statsWords : String) :
    Transition :=
  if retention = some .raise then
    { t with
      note := addNote t s!"modDNS will keep this profile's counts for up to {statsWords}."
      retention := retention }
  else if nothingOlder then
    match t.dialog with
    | some _ => { t with retention := retention, nothingOlder := true }
    | none =>
      { t with
        note := addNote t (keepNote statsWords), retention := retention, nothingOlder := true }
  else if retention = some .lower then
    let older :=
      s!"Counts older than {statsWords} will be permanently deleted." ++ lost.elim "" fun lost =>
        s!" {lost}"
    { t with
      retention := retention
      lost := lost
      dialog :=
        match t.dialog with
        | some d => some { d with body := replaceFirst d.body undone s!"{older} {undone}" }
        | none =>
          some ⟨s!"Keep statistics for {statsWords}?", s!"{older} {undone}",
            "Delete older counts"⟩ }
  else t

/-- A longer retention of the statistics, with nothing else in the save. -/
def raisedAlone (statsWords : String) : Transition where
  id := "T14"
  label := s!"Keep for {statsWords}"
  toast := s!"Statistics are now kept for {statsWords}."
  note := some s!"modDNS will keep this profile's counts for up to {statsWords}."
  retention := some .raise

/-- A lower retention of the statistics, with nothing else in the save. -/
def loweredAlone (statsWords : String) (lost : Option String) (nothingOlder : Bool) : Transition :=
  if nothingOlder then
    { id := "T15"
      label := s!"Keep for {statsWords}"
      toast := s!"Statistics are now kept for {statsWords}."
      note := some (keepNote statsWords)
      retention := some .lower
      nothingOlder := nothingOlder }
  else
    { id := "T15"
      label := "Save changes"
      toast := s!"Statistics are now kept for {statsWords}. Older counts deleted."
      dialog := some
        { title := s!"Keep statistics for {statsWords}?"
          body := s!"Counts older than {statsWords} will be permanently deleted. " ++
            (lost.elim "" fun lost => s!"{lost} ") ++ undone
          confirm := "Delete older counts" }
      retention := some .lower
      lost := lost }

/-- Changes of the options. -/
def optionsChanged : Transition where
  id := "T13"
  label := "Save changes"
  toast := "Data collection updated."

/-- What a save changes. What the counts cover adds how much a deletion loses. -/
def transitionFor (b : Browser) (saved pending : DataCollectionState) (held : Option StatsHeld) :
    Option Transition :=
  let logsWords := pending.retention.words
  let statsWords := statsRetentionWords pending.statsRetention
  let retention := retentionChange saved pending
  let logsRetention := logsRetentionChange saved pending
  let logsSubs := logsFieldsChanged saved pending || logsRetention.isSome
  let lost := if retention = some .lower then held.bind fun h =>
    lostSentence b h (statsDays pending.statsRetention) else none
  let nothingOlder := retention = some .lower && held.isSome && lost.isNone
  let withRetentions (t : Transition) : Transition :=
    withLogsRetention (withRetention t retention lost nothingOlder statsWords)
      logsRetention logsWords
  match withHeld b (stateTransition (stateKey saved) (stateKey pending) logsWords statsWords) held
    with
  | some t => some (withRetentions t)
  | none =>
    if retention = some .raise && !logsSubs then some (raisedAlone statsWords)
    else if retention = some .lower && !logsSubs then
      some (loweredAlone statsWords lost nothingOlder)
    else if logsRetention.isSome && retention.isNone && !logsFieldsChanged saved pending then
      logsRetention.map fun change => logsRetentionAlone change logsWords
    else if retention.isNone && !logsSubs then none
    else some (withRetentions optionsChanged)

end Transitions

section Lower

variable {b : Browser} {saved pending : DataCollectionState} {held : Option StatsHeld}
  {t : Transition} {lost : Option String} {nothingOlder : Bool} {words : String}
  {change : Option Change}

/-- The save deletes query logs, which it asks about. -/
def DeletesLogs (saved pending : DataCollectionState) : Prop :=
  saved.logs = true ∧ pending.logs = false ∨ logsRetentionChange saved pending = some .lower

/-- What a transition says about a lower retention of the statistics. -/
structure TellsLower (t : Transition) (lost : Option String) (nothingOlder : Bool) : Prop where
  retention : t.retention = some .lower
  lost : t.lost = lost
  nothingOlder : t.nothingOlder = nothingOlder

theorem withRetention_tells (hlost : t.lost = none) (hnothing : nothingOlder = true → lost = none)
    (hfalse : t.nothingOlder = false) :
    TellsLower (withRetention t (some .lower) lost nothingOlder words) lost nothingOlder ∧
      ((withRetention t (some .lower) lost nothingOlder words).dialog.isSome ↔
        nothingOlder = false ∨ t.dialog.isSome) := by
  unfold withRetention
  rw [if_neg (by decide)]
  cases nothingOlder with
  | true =>
    rw [if_pos rfl, hnothing rfl]
    cases hdialog : t.dialog with
    | none => exact ⟨⟨rfl, hlost, rfl⟩, by simp⟩
    | some d => exact ⟨⟨rfl, hlost, rfl⟩, by simp⟩
  | false =>
    rw [if_neg (by decide), if_pos rfl]
    refine ⟨⟨rfl, rfl, hfalse⟩, ?_⟩
    cases t.dialog with
    | none => simp
    | some d => simp

theorem withLogsRetention_tells (h : TellsLower t lost nothingOlder) :
    TellsLower (withLogsRetention t change words) lost nothingOlder ∧
    ((withLogsRetention t change words).dialog.isSome ↔ t.dialog.isSome ∨
      change = some .lower) := by
  unfold withLogsRetention
  cases change with
  | none => exact ⟨h, by simp⟩
  | some change =>
    cases change with
    | raise => exact ⟨⟨h.retention, h.lost, h.nothingOlder⟩, by simp⟩
    | lower =>
      cases hdialog : t.dialog with
      | none => exact ⟨⟨h.retention, h.lost, h.nothingOlder⟩, by simp⟩
      | some d => exact ⟨⟨h.retention, h.lost, h.nothingOlder⟩, by simp⟩

/-- What is said of the two retentions, together. -/
theorem whole_tells (t : Transition) (change : Option Change) (logsWords : String)
    (hlost : t.lost = none) (hfalse : t.nothingOlder = false)
    (hnothing : nothingOlder = true → lost = none) :
    TellsLower
    (withLogsRetention (withRetention t (some .lower) lost nothingOlder words) change logsWords)
    lost nothingOlder ∧
      ((withLogsRetention (withRetention t (some .lower) lost nothingOlder words)
        change logsWords).dialog.isSome ↔
        nothingOlder = false ∨ t.dialog.isSome ∨ change = some .lower) := by
  obtain ⟨htells, hasks⟩ := @withRetention_tells t lost nothingOlder words hlost hnothing hfalse
  obtain ⟨htells', hasks'⟩ := @withLogsRetention_tells _ lost nothingOlder logsWords change htells
  rw [hasks, or_assoc] at hasks'
  exact ⟨htells', hasks'⟩

theorem on_of_lower (h : retentionChange saved pending = some .lower) :
    saved.stats = true ∧ pending.stats = true := by
  unfold retentionChange at h
  split at h
  · cases h
  · next hon =>
    simp only [Bool.or_eq_true, Bool.not_eq_eq_eq_not, Bool.not_true, decide_eq_true_eq, not_or,
      Bool.not_eq_false] at hon
    exact hon.1

theorem stateKey_on (h : saved.stats = true) : stateKey saved = if saved.logs then .both
    else .statistics := by
  unfold stateKey
  rw [if_pos h, if_pos h]

theorem logsRetentionChange_off (h : saved.logs = false ∨ pending.logs = false) :
    logsRetentionChange saved pending = none := by
  unfold logsRetentionChange
  refine if_pos ?_
  rcases h with h | h
  · simp [h]
  · simp [h]

/-- What keeps the counts says nothing of them. -/
theorem withHeld_kept (h : t.id ∉ deletesStats) : withHeld b (some t) held = some t := by
  cases held with
  | none => rfl
  | some held =>
    unfold withHeld
    dsimp only
    cases t.dialog with
    | none => rfl
    | some d => exact if_neg h

/-- Turning the logs on asks nothing, and turning them off asks; neither deletes counts. -/
theorem stateTransition_logs (on : Bool) (logsWords statsWords : String) :
    ∃ t, stateTransition (if on then .statistics else .both)
      (if on then .both else .statistics) logsWords statsWords = some t ∧
      t.id ∉ deletesStats ∧ t.lost = none ∧ t.nothingOlder = false ∧ t.dialog.isSome = !on := by
  cases on with
  | true => exact ⟨_, rfl, (by decide : "T5" ∉ deletesStats), rfl, rfl, rfl⟩
  | false => exact ⟨_, rfl, (by decide : "T8" ∉ deletesStats), rfl, rfl, rfl⟩

/-- **A save that lowers the retention** says what is lost, or that no count is older, and asks
before it deletes. -/
theorem transitionFor_lower (h : retentionChange saved pending = some .lower) :
    ∃ t, transitionFor b saved pending held = some t ∧
      TellsLower t (held.bind fun h => lostSentence b h (statsDays pending.statsRetention))
        (held.isSome && (held.bind fun h => lostSentence b h
          (statsDays pending.statsRetention)).isNone) ∧
      (t.dialog.isSome ↔ t.nothingOlder = false ∨ DeletesLogs saved pending) := by
  obtain ⟨hsaved, hpending⟩ := on_of_lower h
  unfold transitionFor
  dsimp only
  rw [h, if_pos rfl, stateKey_on hsaved, stateKey_on hpending]
  -- what is lost and whether no count is older, as the dialog is given them
  generalize hlost : (held.bind fun h => lostSentence b h (statsDays pending.statsRetention)) = lost
  rw [show (decide (some Change.lower = some .lower) && held.isSome && lost.isNone) =
    (held.isSome && lost.isNone) by simp]
  generalize hnothing : (held.isSome && lost.isNone) = nothingOlder
  have hnone : nothingOlder = true → lost = none := by
    rintro rfl
    exact Option.isNone_iff_eq_none.1 (Bool.and_eq_true_iff.1 hnothing).2
  unfold DeletesLogs
  by_cases hlogs : saved.logs = pending.logs
  · -- no state change
    have hkey : ∀ (on : Bool) l s,
        withHeld b (stateTransition (if on then .both else .statistics)
          (if on then .both else .statistics) l s) held = none := by
      intro on l s
      cases on with
      | true => rfl
      | false => rfl
    have hdeletes : saved.logs = true ∧ pending.logs = false ∨
      logsRetentionChange saved pending = some .lower ↔
        logsRetentionChange saved pending = some .lower := by
      rw [hlogs]
      simp
    rw [hdeletes, hlogs, hkey]
    dsimp only
    rw [if_neg (by simp)]
    by_cases hsubs : (logsFieldsChanged saved pending ||
      (logsRetentionChange saved pending).isSome) = false
    · -- the lower retention alone
      have hsame : logsRetentionChange saved pending = none := by
        have hnone := (Bool.or_eq_false_iff.1 hsubs).2
        rwa [Option.isSome_eq_false_iff, Option.isNone_iff_eq_none] at hnone
      rw [if_pos (by simp [hsubs]), hsame]
      refine ⟨_, rfl, ?_⟩
      unfold loweredAlone
      cases nothingOlder with
      | true => exact ⟨⟨rfl, (hnone rfl).symm, rfl⟩, by simp⟩
      | false => exact ⟨⟨rfl, rfl, rfl⟩, by simp⟩
    -- with other changes of the options
    · rw [if_neg (by simpa using hsubs), if_neg (by simp), if_neg (by simp)]
      obtain ⟨htells, hasks⟩ :=
        whole_tells optionsChanged (logsRetentionChange saved pending)
          pending.retention.words rfl rfl hnone
      refine ⟨_, rfl, htells, ?_⟩
      rw [hasks, htells.nothingOlder]
      simp [optionsChanged]
  · -- the logs are turned on, or off with a dialog
    have hoff : saved.logs = !pending.logs := by
      revert hlogs
      cases saved.logs <;> cases pending.logs <;> simp
    obtain ⟨t, ht, hid, hlost', hfalse, hdialog⟩ :=
      stateTransition_logs pending.logs pending.retention.words
        (statsRetentionWords pending.statsRetention)
    have hkey : (if saved.logs = true then StateKey.both else .statistics) = if pending.logs =
        true then .statistics else .both := by
      rw [hoff]
      cases pending.logs <;> rfl
    have hkept : logsRetentionChange saved pending = none := by
      refine logsRetentionChange_off ?_
      rw [hoff]
      cases pending.logs <;> simp
    rw [hkey, ht, withHeld_kept hid, hkept]
    obtain ⟨htells, hasks⟩ := whole_tells t none pending.retention.words hlost' hfalse hnone
    refine ⟨_, rfl, htells, ?_⟩
    rw [hasks, htells.nothingOlder, hdialog, hoff]
    cases pending.logs <;> simp

end Lower

end ModDNS.App.DataCollection
