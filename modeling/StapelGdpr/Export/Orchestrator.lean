import StapelGdpr.Export.Models
import Mathlib.Data.List.Infix

/-!
# StapelGdpr.Export.Orchestrator

The export half of `orchestrator.py`, with the retention task of `tasks.py` and the download
view: every function that reads or writes an export row, a staged file, an uploaded slice or
an archive, as a program over `ExportDb`.

`ExportOp` has one label for each statement and each outside call of the source. The ones a
failure can strike while the database works are `ExportOp.fallible`: providers, the bus, the
file system, the two object stores and the emit. All of them but the look at the staging
directory after a publication are `ExportOp.outside`: whichever of these fails, what is
published stays so.
-/

namespace StapelGdpr.Export

/-! ### Surroundings of a call -/

/-- `Storage.get_available_name`: the name itself when it is free, a fresh one otherwise. -/
structure Names where
  available : String → List String → String
  free : ∀ key taken, key ∉ taken → available key taken = key
  fresh : ∀ key taken, available key taken ∉ taken

/-- The longest of the names. -/
def longest (names : List String) : Nat := names.foldr (fun name n => max name.length n) 0

theorem length_le_longest {name : String} {names : List String} (h : name ∈ names) :
    name.length ≤ longest names := by
  induction names with
  | nil => exact absurd h List.not_mem_nil
  | cons first rest ih =>
      rw [longest, List.foldr_cons]
      rcases List.mem_cons.mp h with rfl | hrest
      · exact le_max_left _ _
      · exact (ih hrest).trans (le_max_right _ _)

/-- Fresh names by a suffix that makes them longer than any name taken. -/
def Names.suffixed : Names where
  available key taken :=
    if key ∈ taken then key ++ String.ofList (List.replicate (longest taken + 1) '_') else key
  free key taken h := if_neg h
  fresh key taken := by
    split
    · intro h
      have hle := length_le_longest h
      rw [String.length_append, String.length_ofList, List.length_replicate] at hle
      omega
    · assumption

/-- What one call of the export side finds around it. -/
structure Exporter where
  env : Env := {}
  /-- `GDPR_COLLECTING_SERVICES`. -/
  collecting : List String := []
  /-- `provider.export_to_staging`: the files the provider of a section writes for a user. -/
  exports : String → UserId → List (String × Bytes) := fun _ _ => []
  /-- How much of the slice of a service is on disk when a write of it is interrupted. -/
  written : Nat → String → Nat := fun _ _ => 0
  /-- `export_bucket_prefix`: `EXPORT_BUCKET_PREFIX`, formatted; "" when opted out. -/
  bucketPrefix : Option Uuid → String :=
    fun id => "gdpr/" ++ id.elim "None" toString ++ "/"
  downloadTtlHours : ℚ := 24
  /-- `archive_key`: where the archive of a request goes. -/
  archiveKey : Option Uuid → Nat → String :=
    fun id pk => "exports/" ++ id.elim "None" toString ++ "/export_" ++ toString pk ++ ".zip"
  names : Names := .suffixed
  strftime : String → Time → String := fun _ _ => ""

/-- `timedelta(hours=float(DOWNLOAD_TTL_HOURS or 24))`. -/
def Exporter.downloadTtl (x : Exporter) : Delta :=
  hours (if x.downloadTtlHours = 0 then 24 else x.downloadTtlHours)

/-- `_collecting_services`. -/
def Exporter.collectingServices (x : Exporter) : List String :=
  (x.collecting ++ x.env.sections).foldl
    (fun expected name => if name ∈ expected then expected else expected ++ [name])
    x.env.report.names

/-- `token in text`. -/
def contains (text token : String) : Bool := token.toList <:+: text.toList

/-- `_BUCKET_PATH_REJECTED`, and the line breaks. -/
def bucketPathRejected : List String := ["..", "\\", "://", "\x00", "\r", "\n"]

/-- `is_safe_bucket_path`. -/
def Exporter.isSafeBucketPath (x : Exporter) (bucketPath : String) (id : Option Uuid) : Bool :=
  let start := x.bucketPrefix id
  bucketPath ≠ "" && !bucketPath.startsWith "/" && !bucketPath.startsWith "~" &&
    !bucketPathRejected.any (contains bucketPath) &&
    (start = "" || bucketPath.startsWith start)

/-! ### Statements and outside calls -/

inductive ExportOp
  /-- Any query, of the database or of the staging directory. -/
  | select
  | createRequest (userId : UserId)
  | createPart (request : Nat) (service : String)
  /-- The bus event `gdpr.export.requested`. -/
  | announce (request : Nat)
  /-- `run_export`: the locked status flip. -/
  | start (request : Nat)
  /-- `_secure_mkdir(self._staging_dir(request_id))`. -/
  | stagingDir (request : Nat)
  /-- `provider_dir.mkdir`. -/
  | sectionDir (request : Nat) (service : String)
  /-- `provider.export_to_staging`: what it writes. -/
  | exportToStaging (request : Nat) (service : String)
  /-- `provider.export_to_staging`: its return. -/
  | exported (request : Nat) (service : String)
  | savePart (part : Nat)
  /-- `mark_part_ready`: the conditional part update. -/
  | partReady (request : Nat) (service : String)
  /-- `_try_assemble`: the locked status transaction. -/
  | lock (request : Nat)
  /-- `_download_bucket_parts`: the parts to download. -/
  | listParts (request : Nat)
  | partDir (request : Nat) (service : String)
  /-- `dest_file.exists()`, before the slice under `key` is opened. -/
  | fileExists (request : Nat) (service key : String)
  /-- `default_storage.open` and `src.read()`. -/
  | openPart (request : Nat) (service key : String)
  /-- `dest_file.write_bytes`: the file is there, with the first of its bytes. -/
  | copyPart (request : Nat) (service : String)
  /-- `dest_file.write_bytes`: all of them. -/
  | copiedPart (request : Nat) (service : String)
  /-- `_missing_services`. -/
  | missing (request : Nat)
  | buildDir (request : Nat)
  /-- The ZIP, README included. -/
  | zip (request : Nat)
  | saveArchive (request : Nat)
  /-- `finally: zip_path.unlink(missing_ok=True)`, with the archive stored or not. -/
  | unlinkZip (request : Nat) (stored : Bool)
  /-- The unit of READY, token and `user.export_ready`. -/
  | publish (request : Nat)
  /-- `_try_assemble`: back to PROCESSING. -/
  | giveBack (request : Nat)
  /-- `staging_dir.exists()`, after the publication. -/
  | stagingExists (request : Nat)
  | clearStaging (request : Nat)
  /-- `_purge_bucket_parts`: the parts to purge. -/
  | listStaged (request : Nat)
  /-- `default_storage.exists`. -/
  | bucketExists (part : Nat) (key : String)
  /-- `default_storage.delete`. -/
  | bucketDelete (part : Nat) (key : String)
  /-- `_purge_bucket_parts`: the row of a deleted slice. -/
  | purgePart (part : Nat)
  | notify (request : Nat)
  | deleteArchive (stored : String)
  | archiveExists (stored : String)
  /-- `expire_export`: the row. -/
  | expireRow (request : Nat)
  /-- `consume_download_token`. -/
  | consume (request : Nat)
  | openArchive (stored : String)
  /-- `_serve`: the archive path is cleared. -/
  | nullPath (request : Nat)
  deriving DecidableEq, Repr

/-- Calls that leave the database: providers, bus, file system, object stores, emit; all but
`stagingExists`, whose failure takes back what has been published. -/
def ExportOp.outside : ExportOp → Bool
  | announce _ | stagingDir _ | sectionDir .. | exportToStaging .. | exported .. | partDir .. |
    fileExists .. | openPart .. | copyPart .. | copiedPart .. | buildDir _ | zip _ |
    saveArchive _ | unlinkZip .. | publish _ | clearStaging _ | bucketExists .. |
    bucketDelete .. | notify _ | deleteArchive _ | archiveExists _ | openArchive _ => true
  | _ => false

/-- All calls that leave the database. -/
def ExportOp.fallible : ExportOp → Bool
  | stagingExists _ => true
  | op => op.outside

/-- A call of the export side, with result `α`. -/
abbrev ExportProgram (α : Type) := Prog ExportOp ExportDb ExportError α

/-- A query. -/
def ExportProgram.select {α : Type} (g : ExportDb → α) : ExportProgram α := Prog.query .select g

/-! ### Requesting an export -/

/-- The row `request_export` creates. -/
def newRequest (x : Exporter) (userId : UserId) (correlationId : Uuid) : DataExportRequest where
  userId := userId
  correlationId := some correlationId
  expectedServices := x.collectingServices
  createdAt := x.env.now
  deadline := x.env.now + hours 24

/-- `DataExportPart.objects.create(request=req, service=section)`. -/
def createPart (request : Nat) (service : String) : ExportProgram Unit :=
  Prog.atomic (.createPart request service) fun db =>
    if db.parts.any fun p => p.request = request && p.service = service then
      .error .integrityError
    else .ok ((), { db with parts := db.parts.insert { request := request, service := service } })

/-- `request_export`. -/
def requestExport (x : Exporter) (userId : UserId) : ExportProgram (Stored DataExportRequest) := do
  let recent ← ExportProgram.select fun db => db.requests.any fun r =>
    r.userId = userId && x.env.now - days 30 ≤ r.createdAt &&
      (r.status = .pending || r.status = .processing || r.status = .ready)
  if recent then Prog.raise (.valueError "export_cooldown")
  else do
    let req ← Prog.atomic (.createRequest userId) fun db =>
      let row := newRequest x userId db.uuid4
      .ok (⟨db.requests.nextPk, row⟩, { db with requests := db.requests.insert row })
    req.row.expectedServices.forM (createPart req.pk)
    Prog.external (.announce req.pk)
    return req

/-! ### Assembling the archive -/

/-- `_missing_services`: expected sections with nothing in the archive, declared owners first. -/
def missingServices (report : RegistryReport) (db : ExportDb) (req : Stored DataExportRequest) :
    List String :=
  let expected := report.names ++ req.row.expectedServices.filter (· ∉ report.names)
  expected.filter (· ∉ db.doneServices req.pk)

/-- `default_storage.open(key)` and `src.read()`. -/
def openPart (request : Nat) (service key : String) : ExportProgram Bytes :=
  Prog.atomic (.openPart request service key) fun db =>
    match db.readObject key with
    | some bytes => .ok (bytes, db)
    | none => .error (.osError key)

/-- `dest_file.write_bytes(bytes)`: what is on disk when it fails half way is a first part. -/
def copyPart (x : Exporter) (request : Nat) (service : String) (bytes : Bytes) :
    ExportProgram Unit := do
  Prog.write (.copyPart request service)
    (·.stage request (exportPath service) (bytes.take (x.written request service)))
  Prog.write (.copiedPart request service) (·.stage request (exportPath service) bytes)

/-- One part of `_download_bucket_parts`; `staged` are the parts whose bytes are in staging. -/
def downloadPart (x : Exporter) (req : Stored DataExportRequest) (staged : List Nat)
    (part : Stored DataExportPart) : ExportProgram (List Nat) := do
  let service := part.row.service
  let key := part.row.bucketPath.getD ""
  Prog.external (.partDir req.pk service)
  let there ← Prog.query (.fileExists req.pk service key) (·.hasFile req.pk (exportPath service))
  if there then return staged ++ [part.pk]
  else if x.isSafeBucketPath key req.row.correlationId = false then return staged
  else
    let body : ExportProgram (List Nat) := do
      let bytes ← openPart req.pk service key
      copyPart x req.pk service bytes
      return staged ++ [part.pk]
    body.tryCatch fun _ => return staged

/-- The parts `_download_bucket_parts` goes through. -/
def ExportDb.uploadedParts (db : ExportDb) (request : Nat) : List (Stored DataExportPart) :=
  db.parts.select fun p => p.request = request && p.status = .done && p.bucketPath ≠ none

/-- `_download_bucket_parts`. -/
def downloadBucketParts (x : Exporter) (req : Stored DataExportRequest) :
    ExportProgram (List Nat) := do
  let parts ← Prog.query (.listParts req.pk) (·.uploadedParts req.pk)
  parts.foldlM (downloadPart x req) []

/-- One part of `_purge_bucket_parts`. -/
def purgeBucketPart (part : Stored DataExportPart) : ExportProgram PUnit := do
  let key := part.row.bucketPath.getD ""
  let body : ExportProgram Bool := do
    let there ← Prog.query (.bucketExists part.pk key) fun db => (db.readObject key).isSome
    if there then do
      Prog.write (.bucketDelete part.pk key) fun db =>
        { db with bucketDeleted := key :: db.bucketDeleted }
      return true
    else return true
  let gone ← body.tryCatch fun _ => return false
  if gone then
    Prog.write (.purgePart part.pk) (·.modifyPart part.pk fun p => { p with bucketPath := none })
  else return ()

/-- The parts `_purge_bucket_parts` goes through. -/
def ExportDb.stagedParts (db : ExportDb) (request : Nat) (staged : List Nat) :
    List (Stored DataExportPart) :=
  (db.parts.select fun p => p.request = request && p.bucketPath ≠ none).filter (·.pk ∈ staged)

/-- `_purge_bucket_parts`. -/
def purgeBucketParts (req : Stored DataExportRequest) (staged : List Nat) :
    ExportProgram PUnit := do
  if staged = [] then return ()
  else do
    let parts ← Prog.query (.listStaged req.pk) (·.stagedParts req.pk staged)
    parts.forM purgeBucketPart

/-- `_build_readme`, its lines. -/
def buildReadme (x : Exporter) (req : Stored DataExportRequest) (isPartial : Bool)
    (missing done : List String) : List String :=
  ["Your personal data export",
    "Requested: " ++ x.strftime "%Y-%m-%d %H:%M UTC" req.row.createdAt, ""] ++
  (if isPartial then
    ["NOTE: This is a PARTIAL export. The following sections could not be",
      "included within the processing window, or hold data this deployment",
      "cannot currently account for:"] ++ missing.map ("  - " ++ ·) ++
    ["Please contact privacy@yourdomain.com to request the missing data.", ""]
   else []) ++
  "Included sections:" :: done.map ("  - " ++ ·)

/-- The ZIP of the staging directory. -/
def zipArchive (x : Exporter) (req : Stored DataExportRequest) (isPartial : Bool)
    (missing : List String) (db : ExportDb) : Archive where
  root := "export_" ++ x.strftime "%Y-%m-%d" req.row.createdAt
  readme := buildReadme x req isPartial missing (db.doneServices req.pk)
  files := db.filesOf req.pk

/-- The key `save_archive` stores under. -/
def storedKey (x : Exporter) (req : Stored DataExportRequest) (db : ExportDb) : String :=
  x.names.available (x.archiveKey req.row.correlationId req.pk) (db.archives.map (·.1))

/-- `save_archive`. -/
def saveArchive (x : Exporter) (req : Stored DataExportRequest) (archive : Archive) :
    ExportProgram String :=
  Prog.atomic (.saveArchive req.pk) fun db =>
    let key := storedKey x req db
    .ok (key, { db with archives := (key, archive) :: db.archives })

/-- The READY flip and `generate_download_token`. -/
def DataExportRequest.publish (r : DataExportRequest) (x : Exporter) (key : String)
    (isPartial : Bool) (missing : List String) (token : TokenHash) : DataExportRequest :=
  { r with
    archivePath := some key
    status := .ready
    isPartial := isPartial
    missingServices := missing
    downloadTokenHash := some token
    downloadConsumedAt := none
    downloadExpiresAt := some (x.env.now + x.downloadTtl) }

/-- The unit that publishes an archive: the row, its token, `user.export_ready`. -/
def ExportDb.publish (db : ExportDb) (x : Exporter) (req : Stored DataExportRequest) (key : String)
    (isPartial : Bool) (missing : List String) : ExportDb :=
  { db.modifyRequest req.pk (·.publish x key isPartial missing db.tokens) with
    outbox := db.outbox ++ [
      { userId := req.row.userId
        requestId := req.pk
        downloadExpiresAt := x.env.now + x.downloadTtl
        isPartial := isPartial
        missingServices := missing }]
    tokens := db.tokens + 1 }

/-- `_assemble_zip` from the published archive on: the files it leaves behind are removed and
the user is told, each as far as it goes. -/
def afterPublication (req : Stored DataExportRequest) (staged : List Nat) :
    ExportProgram PUnit := do
  -- nothing catches this one
  Prog.external (.stagingExists req.pk)
  (Prog.write (.clearStaging req.pk) (·.clearStaging req.pk)).tryCatch fun _ => return ()
  purgeBucketParts req staged
  (Prog.external (.notify req.pk)).tryCatch fun _ => return ()

/-- `_assemble_zip`: the ZIP, and the archive it becomes in the export store. -/
def buildArchive (x : Exporter) (req : Stored DataExportRequest) (isPartial : Bool)
    (missing : List String) : ExportProgram String := do
  let archive ← Prog.query (.zip req.pk) (zipArchive x req isPartial missing)
  saveArchive x req archive

/-- `_assemble_zip`. -/
def assembleZip (x : Exporter) (req : Stored DataExportRequest) (isPartial : Bool) :
    ExportProgram PUnit := do
  let staged ← downloadBucketParts x req
  let missing ← Prog.query (.missing req.pk) (missingServices x.env.report · req)
  let isPartial := isPartial || missing ≠ [] || x.env.report.problems ≠ []
  Prog.external (.buildDir req.pk)
  let key ← (buildArchive x req isPartial missing).tryFinally fun stored =>
    Prog.external (.unlinkZip req.pk stored)
  Prog.write (.publish req.pk) (·.publish x req key isPartial missing)
  afterPublication req staged

/-- The locked transaction of `_try_assemble`: the request, when this call is to build it. -/
def lockForAssembly (x : Exporter) (request : Nat) (force : Bool) :
    ExportProgram (Option (Stored DataExportRequest)) :=
  Prog.atomic (.lock request) fun db =>
    match db.requests.get? request with
    | none => .error .doesNotExist
    | some r =>
        if r.isOpen = false then .ok (none, db)
        else if (db.allPartsDone request || force || r.deadline ≤ x.env.now) = false then
          .ok (none, db)
        else
          .ok (some ⟨request, { r with status := .assembling }⟩,
            db.modifyRequest request fun r => { r with status := .assembling })

/-- `_try_assemble`. -/
def tryAssemble (x : Exporter) (request : Nat) (force : Bool) : ExportProgram PUnit := do
  let locked ← lockForAssembly x request force
  match locked with
  | none => return ()
  | some locked =>
      let body : ExportProgram PUnit := do
        let complete ← ExportProgram.select (·.allPartsDone request)
        assembleZip x locked (!complete)
      body.tryCatch fun e => do
        Prog.write (.giveBack request) (·.modifyRequest request fun r =>
          { r with status := .processing, error := some e.text })
        Prog.raise e

/-! ### The callers of assembly -/

/-- The locked flip of `run_export`. -/
def startExport (request : Nat) : ExportProgram (Option (Stored DataExportRequest)) :=
  Prog.atomic (.start request) fun db =>
    match db.requests.get? request with
    | none => .error .doesNotExist
    | some r =>
        if r.isOpen = false then .ok (none, db)
        else .ok (some ⟨request, { r with status := .processing }⟩,
          db.modifyRequest request fun r => { r with status := .processing })

/-- One provider of `run_export`, up to its outcome: the columns `part.save` writes. -/
def exportOutcome (x : Exporter) (req : Stored DataExportRequest) (part : DataExportPart) :
    ExportProgram DataExportPart :=
  let body : ExportProgram DataExportPart := do
    Prog.external (.sectionDir req.pk part.service)
    Prog.write (.exportToStaging req.pk part.service)
      (·.stageAll req.pk part.service (x.exports part.service req.row.userId))
    Prog.external (.exported req.pk part.service)
    return { part with status := .done, completedAt := some x.env.now }
  body.tryCatch fun e => return { part with status := .failed, error := some e.text }

/-- One provider of `run_export`. -/
def exportPart (x : Exporter) (req : Stored DataExportRequest) (service : String) :
    ExportProgram PUnit := do
  let found ← ExportProgram.select
    (·.parts.first? fun p => p.request = req.pk && p.service = service)
  match found with
  | none => return ()
  | some part =>
      if part.row.status = .done then return ()
      else do
        let outcome ← exportOutcome x req part.row
        Prog.write (.savePart part.pk) (·.modifyPart part.pk fun p => { p with
          status := outcome.status, completedAt := outcome.completedAt, error := outcome.error })

/-- `run_export`. -/
def runExport (x : Exporter) (request : Nat) : ExportProgram PUnit := do
  let started ← startExport request
  match started with
  | none => return ()
  | some req => do
      Prog.external (.stagingDir request)
      x.env.sections.forM (exportPart x req)
      tryAssemble x request false

/-- Does `mark_part_ready` refuse this path? -/
def refusesPath (x : Exporter) (bucketPath : Option String) (id : Option Uuid) : Bool :=
  bucketPath.any fun path => path ≠ "" && !x.isSafeBucketPath path id

/-- A part that is not DONE yet. -/
def DataExportPart.awaits (p : DataExportPart) (request : Nat) (service : String) : Bool :=
  p.request = request && p.service = service && p.status ≠ .done

/-- `mark_part_ready`. -/
def markPartReady (x : Exporter) (correlationId : Uuid) (service : String)
    (bucketPath : Option String) : ExportProgram PUnit := do
  let found ← ExportProgram.select (·.requests.first? (·.correlationId = some correlationId))
  match found with
  | none => return ()
  | some req =>
      if refusesPath x bucketPath req.row.correlationId then return ()
      else do
        let updated ← Prog.atomic (.partReady req.pk service) fun db =>
          .ok (db.parts.any (·.awaits req.pk service), { db with
            parts := db.parts.update (·.awaits req.pk service) fun p =>
              { p with status := .done, bucketPath := bucketPath, completedAt := some x.env.now } })
        if updated = false then return ()
        else do
          let fresh ← ExportProgram.select (·.requests.get? req.pk)
          match fresh with
          | none => Prog.raise .doesNotExist
          | some _ => tryAssemble x req.pk false

/-- `Meta.ordering`: newest first. -/
def newestFirst (rows : List (Stored DataExportRequest)) : List (Stored DataExportRequest) :=
  rows.insertionSort fun r r' => r'.row.createdAt ≤ r.row.createdAt

theorem mem_newestFirst {rows : List (Stored DataExportRequest)}
    {req : Stored DataExportRequest} : req ∈ newestFirst rows ↔ req ∈ rows :=
  List.mem_insertionSort _

/-- The requests `sweep_deadlines` goes through. -/
def ExportDb.expiredExports (db : ExportDb) (now : Time) : List (Stored DataExportRequest) :=
  newestFirst (db.requests.select fun r => r.status = .processing && r.deadline ≤ now)

/-- `sweep_deadlines`. -/
def sweepDeadlines (x : Exporter) : ExportProgram PUnit := do
  let expired ← ExportProgram.select (·.expiredExports x.env.now)
  expired.forM fun req => tryAssemble x req.pk true

/-! ### Retention and download -/

/-- `delete_archive`: was anything deleted? -/
def deleteArchive (stored : String) : ExportProgram Bool :=
  if stored = "" then return false
  else
    let body : ExportProgram Bool := Prog.atomic (.deleteArchive stored) fun db =>
      .ok ((db.archive? stored).isSome, db.removeArchive stored)
    body.tryCatch fun e => if e.isStorage then return false else Prog.raise e

/-- `stored_archive_exists`. -/
def storedArchiveExists (stored : Option String) : ExportProgram Bool :=
  match stored with
  | none | some "" => return false
  | some stored =>
      let body : ExportProgram Bool :=
        Prog.query (.archiveExists stored) fun db => (db.archive? stored).isSome
      body.tryCatch fun e =>
        if e.isStorage then return false else Prog.raise e

/-- `expire_export` up to its row: the archive is deleted, as far as that goes, and looked for
again for the log. -/
def deleteStored (stored : Option String) : ExportProgram PUnit :=
  match stored with
  | none | some "" => return ()
  | some stored => do
      let deleted ← deleteArchive stored
      if deleted then return ()
      else do
        let _ ← storedArchiveExists (some stored)
        return ()

/-- `expire_export`. -/
def expireExport (req : Stored DataExportRequest) : ExportProgram PUnit := do
  deleteStored req.row.archivePath
  Prog.write (.expireRow req.pk) (·.modifyRequest req.pk fun r =>
    { r with status := .expired, archivePath := none, downloadTokenHash := none })

/-- The exports whose download window closed. -/
def ExportDb.staleExports (db : ExportDb) (now : Time) : List (Stored DataExportRequest) :=
  newestFirst (db.requests.select fun r =>
    r.downloadExpiresAt.any (· ≤ now) && r.status ≠ .expired)

/-- The consumed downloads that still have an archive. -/
def ExportDb.orphanExports (db : ExportDb) : List (Stored DataExportRequest) :=
  newestFirst (db.requests.select fun r => r.downloadConsumedAt ≠ none && r.archivePath ≠ none)

/-- `purge_expired_exports`. -/
def purgeExpiredExports (x : Exporter) : ExportProgram Nat := do
  let stale ← ExportProgram.select (·.staleExports x.env.now)
  stale.forM expireExport
  let orphans ← ExportProgram.select (·.orphanExports)
  orphans.forM expireExport
  return stale.length + orphans.length

/-- What the download view answers. -/
inductive DownloadAnswer
  | notFound | consumed | notReady | expired | internal
  | file (archive : Archive)
  deriving DecidableEq, Repr

/-- `DataExportDownloadView._serve`; `none` is the empty token. -/
def serve (x : Exporter) (userId : UserId) (token : Option TokenHash) :
    ExportProgram DownloadAnswer :=
  match token with
  | none => return .notFound
  | some token => do
      let found ← ExportProgram.select
        (·.requests.first? fun r => r.userId = userId && r.downloadTokenHash = some token)
      match found with
      | none => return .notFound
      | some req =>
          if req.row.downloadConsumedAt ≠ none then return .consumed
          else if req.row.status ≠ .ready then return .notReady
          else if req.row.downloadExpiresAt.any (· < x.env.now) then do
            expireExport req
            return .expired
          else do
            let there ← storedArchiveExists req.row.archivePath
            if there = false then return .internal
            else do
              let spent ← Prog.atomic (.consume req.pk) fun db =>
                let spendable := (db.requests.get? req.pk).any fun r =>
                  r.downloadTokenHash = some token && r.downloadConsumedAt = none
                .ok (spendable, if spendable then db.modifyRequest req.pk fun r =>
                  { r with downloadConsumedAt := some x.env.now } else db)
              if spent = false then return .consumed
              else do
                let stored := req.row.archivePath.getD ""
                let archive ← Prog.atomic (.openArchive stored) fun db =>
                  match db.archive? stored with
                  | some archive => .ok (archive, db)
                  | none => .error (.osError stored)
                let _ ← deleteArchive stored
                Prog.write (.nullPath req.pk)
                  (·.modifyRequest req.pk fun r => { r with archivePath := none })
                return .file archive

/-! ### Everyone who works on exports -/

inductive Caller
  /-- `request_export`. -/
  | request (userId : UserId)
  /-- `run_export`: the worker task, and its retries. -/
  | run (request : Nat)
  /-- `mark_part_ready`: the bus consumer and the HTTP callback. -/
  | partReady (correlationId : Uuid) (service : String) (bucketPath : Option String)
  /-- `sweep_deadlines`. -/
  | sweep
  /-- `purge_expired_exports`. -/
  | purge
  /-- `DataExportDownloadView`. -/
  | download (userId : UserId) (token : Option TokenHash)

/-- The call, its result dropped. -/
def Caller.prog (x : Exporter) : Caller → ExportProgram Unit
  | request userId => requestExport x userId >>= fun _ => pure ()
  | run pk => runExport x pk
  | partReady correlationId service bucketPath => markPartReady x correlationId service bucketPath
  | sweep => sweepDeadlines x
  | purge => purgeExpiredExports x >>= fun _ => pure ()
  | download userId token => serve x userId token >>= fun _ => pure ()

/-- One thread for each call. -/
def callers {κ : Type} (calls : κ → Exporter × Caller) (k : κ) : ExportProgram Unit :=
  (calls k).2.prog (calls k).1

/-! ### A deployment -/

/-- One owner exports in process, the other uploads its slice. -/
def exporter : Exporter where
  env := {
    settings := {
      dataOwners := .list [.bare "profiles", .dict { name := some "media", kind := some "remote" }] }
    sections := ["profiles"] }
  exports service _ := if service = "profiles" then [("profile.json", [1])] else []

/-- The key of that slice, for the first request. -/
def mediaKey : String := "gdpr/0/media/export.json"

/-- Nothing is requested, and the slice is uploaded. -/
def uploaded : ExportDb where
  bucket := [(mediaKey, [7])]

end StapelGdpr.Export
