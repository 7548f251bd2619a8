import ModDNS.Blocklists.Store

/-!
# Updating a blocklist

`processBlocklist` with the Redis cache behind it, in four parts: what is downloaded and checked
(`prepare`), the content documents (`persist`), the two Redis sets (`publish`), and what is left to
do after that (`finish`).
-/

namespace ModDNS.Blocklists

open Go Conc Data

/-- The `Extractor` interface: last modification, version and number of entries; the names and the
exceptions. -/
structure Extractor where
  extractMetadata : Bytes → Option (ℕ × String × ℕ)
  convert : Bytes → Option (Bytes × ConversionResult)

/-- The extractors of the formats. -/
structure Extractors where
  hagezi : Extractor
  oisd : Extractor
  adguard : Extractor
  stevenBlack : Extractor
  domains : Extractor

/-- `NewExtractor`; `none` is an unknown blocklist ID. -/
def newExtractor (e : Extractors) (blocklistID : String) : Option Extractor :=
  if hasPrefix blocklistID "hagezi" then some e.hagezi
  else if hasPrefix blocklistID "oisd" then some e.oisd
  else if hasPrefix blocklistID "adguard" then some e.adguard
  else if hasPrefix blocklistID "steven_black" then some e.stevenBlack
  else if ["blp_", "ut1_", "shadowwhisperer_", "someonewhocares_", "peter_lowe", "1hosts_",
    "certpl_"].any
      (hasPrefix blocklistID ·) then some e.domains
  else none

structure ServiceEnv where
  extractors : Extractors
  /-- `int(float64(prev) * (1 - ShrinkThreshold))`. -/
  minAllowed : ℕ → ℤ

/-! The cache; times are in seconds. -/

def chunkSize : ℕ := 5000

def flushEvery : ℕ := 50

def stagingTTL : ℕ := 30 * 60

def processingTimeout : ℕ := 2 * 60

def liveKey (blocklistId : String) : String := "blocklist:" ++ blocklistId

def exceptionsKey (blocklistId : String) : String := "blocklist:" ++ blocklistId ++ ":exceptions"

def stagingKey (liveName uuid : String) : String := liveName ++ ":tmp:" ++ uuid

/-- `pipe.Exec`: all the commands are sent, and the first error is the result. -/
def exec (ctx : Context) : List RedisCmd → BlocklistFlow Unit
  | [] => pure ()
  | cmd :: pipe => do
    let first ← attempt (call (.redis ctx cmd))
    let rest ← attempt (exec ctx pipe)
    match first, rest with
    | .error e, _ => throw e
    | .ok _, .error e => throw e
    | .ok _, .ok _ => pure ()

/-- The loop of `populateStaging` over the chunks of the lines; `pipe` are the buffered commands. -/
def populateLoop (ctx : Context) (stagingName : String) :
    Bool → List (List String) → List RedisCmd → BlocklistFlow Unit
  | _, [], pipe => if pipe.length > 0 then exec ctx pipe else pure ()
  | first, chunk :: chunks, pipe =>
    let pipe :=
      pipe ++ [.sadd stagingName chunk] ++ if first then [.expire stagingName stagingTTL] else []
    if pipe.length ≥ flushEvery then do
      exec ctx pipe
      populateLoop ctx stagingName false chunks []
    else populateLoop ctx stagingName false chunks pipe

@[irreducible] def populateStaging (ctx : Context) (stagingName data : String) :
    BlocklistFlow Unit :=
  populateLoop ctx stagingName true ((chunks chunkSize (split data '\n')).filter (· ≠ [])) []

/-- `discardStaging`, whose failure is passed over. -/
def discardStaging (ctx : Context) (stagingName : String) : BlocklistFlow Unit := do
  let _ ← attempt (call (.redis ctx (.unlink [stagingName])))
  pure ()

def swapBlocklist (ctx : Context) (stagingName liveName : String) : BlocklistFlow Unit := do
  -- what previous versions of the code may have left
  let _ ← attempt (call (.redis ctx (.unlink [liveName ++ "_old", liveName ++ "_temp"])))
  call (.redis ctx (.swap stagingName liveName))

/-- A step on the staging set; where it fails, the set is discarded. -/
def orDiscard (ctx : Context) (stagingName : String) (step : BlocklistFlow Unit) :
    BlocklistFlow Unit := do
  match ← attempt step with
  | .ok _ => pure ()
  | .error e => do
    discardStaging ctx stagingName
    throw e

def createOrUpdateSet (ctx : Context) (liveName data : String) : BlocklistFlow Unit := do
  let uuid : String ← call .newUuid
  let stagingName := stagingKey liveName uuid
  orDiscard ctx stagingName (populateStaging ctx stagingName data)
  orDiscard ctx stagingName (swapBlocklist ctx stagingName liveName)

def createOrUpdateBlocklist (ctx : Context) (blocklistId data : String) : BlocklistFlow Unit :=
  createOrUpdateSet ctx (liveKey blocklistId) data

/-- `CreateOrUpdateBlocklistExceptions`: without exceptions there is no set. -/
def createOrUpdateBlocklistExceptions (ctx : Context) (blocklistId data : String) :
    BlocklistFlow Unit :=
  if trimSpace data = "" then call (.redis ctx (.unlink [exceptionsKey blocklistId]))
  else createOrUpdateSet ctx (exceptionsKey blocklistId) data

/-! The service. -/

def maxDomainsPerDoc : ℕ := 100000

def orFail {α : Type} (e : BlocklistErr) : Option α → BlocklistFlow α
  | none => throw e
  | some a => pure a

def orThrow {α : Type} : Except BlocklistErr α → BlocklistFlow α
  | .error e => throw e
  | .ok a => pure a

/-- `bytes.TrimPrefix` of the byte order mark. -/
def trimBom (bs : Bytes) : Bytes :=
  if (encode bom).isPrefixOf bs then bs.drop (encode bom).length else bs

/-- `checkValidationGate`, without the warning about the upstream's count. -/
def checkValidationGate (env : ServiceEnv) (existingMetadata : List BlocklistMetadata)
    (newCount : ℕ) :
    BlocklistFlow Unit := do
  ensure (newCount ≠ 0) .empty
  let prev := match existingMetadata with
    | [m] => m.entries
    | _ => 0
  ensure (¬ (prev > 0 ∧ (newCount : ℤ) < env.minAllowed prev)) .shrink

/-- The id of the metadata document. -/
def metadataID : List BlocklistMetadata → BlocklistFlow ObjectID
  | [] => call .newObjectID
  | [m] => pure m.id
  | _ => throw .improperNumber

/-- A list without a name gets one. -/
def named (metadata : BlocklistMetadata) : BlocklistMetadata :=
  if metadata.name = "" then { metadata with name := "My First Blocklist" } else metadata

/-- What an update has found out before it writes anything. -/
structure Plan where
  ctx : Context
  metadata : BlocklistMetadata
  existing : List BlocklistContent
  validated : List String
  exceptions : List String
  lastModified : ℕ
  version : String

/-- The names and the exceptions that are published for a download. -/
def extract (env : ServiceEnv) (blocklistID : String) (body : Bytes) :
    Except BlocklistErr ((ℕ × String × ℕ) × Bytes × List String) := do
  let extr ← match newExtractor env.extractors blocklistID with
    | none => .error .unknownBlocklistID
    | some extr => .ok extr
  let info ← match extr.extractMetadata (trimBom body) with
    | none => .error .metadata
    | some info => .ok info
  let (domains, convRes) ← match extr.convert (trimBom body) with
    | none => .error .convert
    | some res => .ok res
  return (info, domains, (convRes.exceptions.map normalizeDomain).filter validDomain)

/-- The part of `processBlocklist` up to the validation gate. -/
def prepare (env : ServiceEnv) (metadata : BlocklistMetadata) : BlocklistFlow Plan := do
  let start : ℕ ← call .now
  let ctx := start + processingTimeout
  let body : Bytes ← call (.fetch ctx metadata.blocklistID metadata.sourceUrl)
  let ((lastModified, version, _), domains, exceptions) ← orThrow
    (extract env metadata.blocklistID body)
  let existing : List BlocklistContent ← call (.getContent ctx metadata.blocklistID)
  let existingMetadata : List BlocklistMetadata ← call (.getMetadata ctx metadata.blocklistID)
  let id ← metadataID existingMetadata
  let validated ← orFail .scan (scanValidatedDomains domains)
  checkValidationGate env existingMetadata validated.length
  return { ctx, metadata := { named metadata with id }, existing, validated, exceptions
           lastModified, version }

/-- `NewBlocklistContent`. -/
def newBlocklistContent (blocklistId : String) (partNum : ℕ) (data : List String) :
    BlocklistFlow BlocklistContent := do
  ensure (blocklistId ≠ "") .emptyID
  let id : ObjectID ← call .newObjectID
  return { id, blocklistID := blocklistId, part := partNum, data := join data '\n' }

def saveChunk (ctx : Context) (blocklistID : String) (chunkIndex : ℕ) (domains : List String) :
    BlocklistFlow Unit := do
  let partialBlocklistContent ← newBlocklistContent blocklistID chunkIndex domains
  call (.upsertContent ctx partialBlocklistContent)

def saveChunks (ctx : Context) (blocklistID : String) : ℕ → List (List String) → BlocklistFlow Unit
  | _, [] => pure ()
  | chunkIndex, domains :: chunks => do
    saveChunk ctx blocklistID chunkIndex domains
    saveChunks ctx blocklistID (chunkIndex + 1) chunks

def saveExceptions (ctx : Context) (blocklistID : String) (exceptions : List String) :
    BlocklistFlow Unit :=
  if exceptions.length > 0 then do
    let exceptionsContent ← newBlocklistContent blocklistID 1 exceptions
    call (.upsertContent ctx { exceptionsContent with kind := contentKindExceptions })
  else pure ()

/-- The part that writes the documents. -/
def persist (p : Plan) : BlocklistFlow Unit := do
  saveChunks p.ctx p.metadata.blocklistID 1 (chunks maxDomainsPerDoc p.validated)
  saveExceptions p.ctx p.metadata.blocklistID p.exceptions

/-- The part that publishes the sets, the exceptions first. -/
def publish (p : Plan) : BlocklistFlow Unit := do
  createOrUpdateBlocklistExceptions p.ctx p.metadata.blocklistID (join p.exceptions '\n')
  createOrUpdateBlocklist p.ctx p.metadata.blocklistID (join p.validated '\n')

/-- `DeleteMany` by `_id`: document by document. -/
def deleteContents (ctx : Context) : List ObjectID → BlocklistFlow Unit
  | [] => pure ()
  | id :: ids => do
    call (.delete ctx id)
    deleteContents ctx ids

/-- The clean-up of the content documents from before. -/
def removeOldContents (ctx : Context) (existing : List BlocklistContent) : BlocklistFlow Unit :=
  if existing.length > 0 then deleteContents ctx (existing.map (·.id)) else pure ()

/-- The part after the publication. -/
def finish (p : Plan) : BlocklistFlow BlocklistMetadata := do
  let updatedAt : ℕ ← call .now
  let metadata :=
    { p.metadata with
      lastModified := p.lastModified
      version := p.version
      entries := p.validated.length
      exceptionEntries := p.exceptions.length
      type := blocklistTypePublic
      updatedAt }
  removeOldContents p.ctx p.existing
  call (.upsertMetadata p.ctx metadata)
  return metadata

def processBlocklist (env : ServiceEnv) (metadata : BlocklistMetadata) :
    BlocklistFlow BlocklistMetadata := do
  let p ← prepare env metadata
  persist p
  publish p
  finish p

end ModDNS.Blocklists
