import Mathlib.Algebra.Ring.Nat
import Mathlib.Data.Prod.Lex
import Mathlib.Data.String.Basic
import Mathlib.Order.WithBot
import ModDNS.Go.Strings
import ModDNS.Libs.Catalog
import ModDNS.Mongo.Pipeline

/-!
# Reads of the query logs

A profile's rows are in five collections, one for each retention that the profile had when they were
written. A read runs its pipeline on those that have rows of the profile, and merges what they give.

Instants are in milliseconds, as Mongo stores them.
-/

namespace ModDNS.QueryLogs

open Go Libs.FilterReasons Mongo Mongo.Pipeline

def minute : ℤ := 60 * 1000
def hour : ℤ := 60 * minute

def collNameQueryLogs : String := "query_logs"

/-- The collections of `QueryLogsRepository`. -/
inductive Collection where
  | oneHour
  | sixHours
  | oneDay
  | oneWeek
  | oneMonth
  deriving DecidableEq

def Collection.name : Collection → String
  | .oneHour => collNameQueryLogs ++ "_1h"
  | .sixHours => collNameQueryLogs ++ "_6h"
  | .oneDay => collNameQueryLogs ++ "_1d"
  | .oneWeek => collNameQueryLogs ++ "_1w"
  | .oneMonth => collNameQueryLogs ++ "_1m"

/-- `queryLogsCollections`, by the retention. -/
def queryLogsCollections : String → Option Collection
  | "1h" => some .oneHour
  | "6h" => some .sixHours
  | "1d" => some .oneDay
  | "1w" => some .oneWeek
  | "1m" => some .oneMonth
  | _ => none

/-- `queryLogsCollectionNames`. -/
def collections : List Collection := [.oneHour, .sixHours, .oneDay, .oneWeek, .oneMonth]

theorem queryLogsCollections_name (c : Collection) :
    queryLogsCollections (trimPrefix c.name (collNameQueryLogs ++ "_")) = some c := by
  cases c <;> decide

/-- `Retention.Window`. -/
def window : String → ℤ
  | "6h" => 6 * hour
  | "1d" => 24 * hour
  | "1w" => 7 * 24 * hour
  | "1m" => 30 * 24 * hour
  | _ => hour

/-- The fields of a row that the reads use; `none` is a field that the row does not have. -/
structure QueryLog where
  id : ℕ
  timestamp : ℤ
  profileId : String
  deviceId : Option String
  status : String
  reasons : List String
  outcome : String
  domain : Option String
  clientIp : Option String
  deriving DecidableEq

abbrev Database := Collection → List QueryLog

/-- All rows, whatever their collection. -/
def Database.rows (db : Database) : List QueryLog := (collections.map db).flatten

def queryLogStatusAll : String := "all"
def queryLogStatusBlocked : String := "blocked"
def queryLogStatusUnanswered : String := "unanswered"

def unansweredOutcomes : List String :=
  ["servfail_upstream", "timeout", "network_error", "refused", "filter_unavailable"]

/-- `readFrom`: the earliest timestamp that a read returns. -/
def readFrom (now : ℤ) (retention : String) (timespanHours : ℤ) : ℤ :=
  let since := now - window retention
  if timespanHours > 0 then
    let t := now - timespanHours * hour
    if since < t then t else since
  else since

/-- What every read matches on. -/
def inRead (profileId : String) (since : ℤ) (row : QueryLog) : Bool :=
  row.profileId = profileId && since ≤ row.timestamp

/-- `$nin: ["", nil]`. -/
def present (field : Option String) : Bool := field ≠ some "" && field ≠ none

/-- What `$sort` and `$group` take a field for: one that is missing comes before every text. -/
def fieldKey (field : Option String) : WithBot String := field.elim ⊥ fun s => s

section Union

variable (db : Database) (profileId : String) (since : ℤ) {β γ : Type}

/-- The pipeline that finds out if a collection has rows. -/
def probe (name : String) : Pipeline QueryLog String :=
  ((filter (inRead profileId since)).andThen (limit 1)).andThen (project fun _ => name)

/-- `populatedCollections`. -/
def populatedCollections : Set (List Collection) :=
  let others := [Collection.sixHours, .oneDay, .oneWeek, .oneMonth]
  let pipeline := (probe profileId since Collection.oneHour.name).andThen
    (unionWiths (others.map fun c => (probe profileId since c.name, db c)))
  (fun names => names.filterMap fun name => queryLogsCollections
    (trimPrefix name (collNameQueryLogs ++ "_"))) ''
    pipeline (db .oneHour)

/-- `aggregateUnion`; `none` is the nil cursor. -/
def aggregateUnion (branch : Pipeline QueryLog β) (merge : Pipeline β β) (tail : Pipeline β γ) :
    Set (Option (List γ)) :=
  {o | ∃ colls ∈ populatedCollections db profileId since, match colls with
    | [] => o = none
    | [coll] => ∃ rows ∈ branch.andThen tail (db coll), o = some rows
    | coll :: others =>
      ∃ rows ∈ ((branch.andThen (unionWiths (others.map fun c => (branch, db c)))).andThen
        merge).andThen tail
        (db coll), o = some rows}

/-- `cursor.All` into an empty list. -/
def cursorAll (cursor : Option (List γ)) : List γ := cursor.getD []

end Union

/-- The arguments of `GetQueryLogs`, the page apart. -/
structure LogsQuery where
  profileId : String
  retention : String
  status : String
  timespan : ℤ
  deviceId : String
  search : String
  sortBy : String
  deriving DecidableEq

section Logs

variable (matchesSearch : String → String → Bool)

/-- `matchFilter`; `matchesSearch` is the case-insensitive match of Mongo. -/
def matchFilter (q : LogsQuery) (since : ℤ) (row : QueryLog) : Bool :=
  inRead q.profileId since row &&
    (if q.status = queryLogStatusAll then true
    else if q.status = queryLogStatusUnanswered then row.outcome ∈ unansweredOutcomes
    else row.status = q.status) &&
    (q.deviceId = "" || row.deviceId = some q.deviceId) &&
    (q.search = "" || row.domain.any (matchesSearch q.search))

abbrev SortKey := WithBot String ×ₗ ℤᵒᵈ

/-- `buildSortSpec`: the key that the rows are sorted by, the latest first where the rest is the
same. -/
def buildSortSpec (sortBy : String) (row : QueryLog) : SortKey :=
  match sortBy with
  | "domain" => toLex (fieldKey row.domain, OrderDual.toDual row.timestamp)
  | "client_ip" => toLex (fieldKey row.clientIp, OrderDual.toDual row.timestamp)
  | _ => toLex (⊥, OrderDual.toDual row.timestamp)

/-- `GetQueryLogs`. -/
def getQueryLogs (db : Database) (now : ℤ) (q : LogsQuery) (page pageSize : ℤ) :
    Set (List QueryLog) :=
  let since := readFrom now q.retention q.timespan
  let sortStage := sort (buildSortSpec q.sortBy)
  let branch := (filter (matchFilter matchesSearch q since)).andThen sortStage
  cursorAll '' (if pageSize > 0 then
    let page := if page ≤ 0 then 1 else page
    aggregateUnion db q.profileId since (branch.andThen (limit (page * pageSize).toNat)) nop
      ((sortStage.andThen (skip ((page - 1) * pageSize).toNat)).andThen (limit pageSize.toNat))
  else aggregateUnion db q.profileId since branch nop sortStage)

end Logs

/-- `$max`, of no values at first. -/
def latest (timestamps : List (WithBot ℤ)) : WithBot ℤ := timestamps.foldr max ⊥

structure QueryLogDevice where
  deviceId : String
  lastSeen : WithBot ℤ
  deriving DecidableEq

/-- `GetQueryLogDevices`. -/
def getQueryLogDevices (db : Database) (now : ℤ) (profileId retention : String) :
    Set (List QueryLogDevice) :=
  let since := readFrom now retention 0
  let branch := (filter fun row => inRead profileId since row && present row.deviceId).andThen
    (group (fun row => fieldKey row.deviceId) fun rows => latest
      (rows.map fun row => row.timestamp))
  let merge := group Prod.fst fun groups => latest (groups.map Prod.snd)
  let tail := (sort Prod.fst).andThen (limit 500)
  (fun rows => (cursorAll rows).map fun row => ⟨row.1.unbotD "", row.2⟩) '' aggregateUnion db
  profileId since branch merge tail

/-- `$group` with the count of each group. -/
def countBy {α : Type} (key : α → WithBot String) : Pipeline α (WithBot String × ℕ) :=
  group key List.length

def topCountMerge : Pipeline (WithBot String × ℕ) (WithBot String × ℕ) :=
  group Prod.fst fun groups => (groups.map Prod.snd).sum

/-- `topRankTail`: most frequent first, then by the key. -/
def topRankTail (n : ℕ) : Pipeline (WithBot String × ℕ) (WithBot String × ℕ) :=
  (sort fun row => toLex (OrderDual.toDual row.2, row.1)).andThen (limit n)

section Tops

variable (db : Database) (now : ℤ) (profileId retention : String)

/-- `topGroup`. -/
def topGroup (since : ℤ) (matching : QueryLog → Bool) (groupExpr : QueryLog → Option String)
    (n : ℕ) : Set (List (String × ℕ)) :=
  let branch := (filter matching).andThen (countBy fun row => fieldKey (groupExpr row))
  (fun rows => (cursorAll rows).map fun row => (row.1.unbotD "", row.2)) ''
    aggregateUnion db profileId since branch topCountMerge (topRankTail n)

/-- `GetQueryLogTopDomains`. -/
def getQueryLogTopDomains (status : String) (timespanHours : ℤ) (n : ℕ) : Set (List (String × ℕ)) :=
  let since := readFrom now retention timespanHours
  topGroup db profileId since (fun row => inRead profileId since row && row.status = status &&
    present row.domain)
    QueryLog.domain n

/-- `GetQueryLogTopClients`. -/
def getQueryLogTopClients (timespanHours : ℤ) (n : ℕ) : Set (List (String × ℕ)) :=
  let since := readFrom now retention timespanHours
  topGroup db profileId since (fun row => inRead profileId since row && present row.clientIp)
  QueryLog.clientIp n

/-- The tokens of the blocklists that blocked a row. -/
def blocklistTokens : Pipeline QueryLog String :=
  (unwind QueryLog.reasons).andThen (filter fun reason => hasPrefix reason blocklistPrefix)

/-- `GetQueryLogTopBlocklists`, with `topBlocklistsBranch`. -/
def getQueryLogTopBlocklists (timespanHours : ℤ) (n : ℕ) : Set (List (String × ℕ)) :=
  let since := readFrom now retention timespanHours
  let branch :=
    (filter fun row => inRead profileId since row && row.status = queryLogStatusBlocked).andThen
    (blocklistTokens.andThen (countBy fun token => token))
  (fun rows => (cursorAll rows).map fun row =>
    (trimPrefix (row.1.unbotD "") blocklistPrefix, row.2)) ''
    aggregateUnion db profileId since branch topCountMerge (topRankTail n)

/-- `GetQueryLogCoveredFrom`. -/
def getQueryLogCoveredFrom (timespanHours : ℤ) : Set (Option ℤ) :=
  let since := readFrom now retention timespanHours
  let branch :=
    (((filter (inRead profileId since)).andThen (sort QueryLog.timestamp)).andThen
      (limit 1)).andThen
    (project QueryLog.timestamp)
  (fun rows => (cursorAll rows).head?.map fun t => t - t % minute) ''
    aggregateUnion db profileId since branch nop ((sort id).andThen (limit 1))

end Tops

end ModDNS.QueryLogs
