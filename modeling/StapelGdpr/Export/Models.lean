import StapelGdpr.Store

/-!
# StapelGdpr.Export.Models

The export side of `models.py` and `export_store.py`: the two tables, and the files a data
export passes through on its way to its owner.

A peer uploads its slice to the **bucket**; the orchestrator copies it to the request's
**staging** directory, where in-process providers write theirs; the ZIP of that directory goes
to the **archives** of the export store and its key on the request row. `ExportDb` holds all
of them, because each is read and written by several processes and every failure is about
what one of them says of another.
-/

namespace StapelGdpr.Export

/-! ### Rows -/

/-- `DataExportRequest.STATUS_*`. -/
inductive ExportStatus
  | pending | processing | assembling | ready | failed | expired
  deriving DecidableEq, Repr

/-- `DataExportPart.STATUS_*`. -/
inductive PartStatus
  | pending | done | failed
  deriving DecidableEq, Repr

/-- A download token, by its digest: `hash_download_token` is taken to be injective. -/
abbrev TokenHash := Nat

structure DataExportRequest where
  userId : UserId
  status : ExportStatus := .pending
  correlationId : Option Uuid
  expectedServices : List String
  /-- The key of the archive, or the absolute path of an old one. -/
  archivePath : Option String := none
  downloadTokenHash : Option TokenHash := none
  downloadConsumedAt : Option Time := none
  isPartial : Bool := false
  missingServices : List String := []
  createdAt : Time
  deadline : Time
  downloadExpiresAt : Option Time := none
  error : Option String := none
  deriving DecidableEq, Repr

structure DataExportPart where
  request : Nat
  service : String
  status : PartStatus := .pending
  /-- Where the owner uploaded its slice; null when it wrote to staging. -/
  bucketPath : Option String := none
  completedAt : Option Time := none
  error : Option String := none
  deriving DecidableEq, Repr

/-- Can a build of this request start? (`status in (PENDING, PROCESSING)`) -/
def DataExportRequest.isOpen (r : DataExportRequest) : Bool :=
  r.status = .pending || r.status = .processing

/-- The archive has been published: READY, or EXPIRED since. -/
def DataExportRequest.isSettled (r : DataExportRequest) : Bool :=
  r.status = .ready || r.status = .expired

/-! ### Files -/

abbrev Bytes := List UInt8

/-- A file below the staging directory of one request. -/
structure StagedFile where
  request : Nat
  /-- Relative to the request's directory. -/
  path : String
  bytes : Bytes
  deriving DecidableEq, Repr

/-- What a ZIP holds: its top directory, the lines of its README, and the staged files. -/
structure Archive where
  root : String
  readme : List String
  files : List (String × Bytes)
  deriving DecidableEq, Repr

/-- The action `user.export_ready`, with its payload. -/
structure ExportReady where
  userId : UserId
  requestId : Nat
  downloadExpiresAt : Time
  isPartial : Bool
  missingServices : List String
  deriving DecidableEq, Repr

/-- Where a service's slice stands in the staging directory, and in the ZIP. -/
def exportPath (service : String) : String := service ++ "/export.json"

/-! ### The store -/

structure ExportDb where
  requests : Table DataExportRequest := {}
  parts : Table DataExportPart := {}
  staging : List StagedFile := []
  /-- The export store, by key. -/
  archives : List (String × Archive) := []
  /-- ZIPs written before there were keys, by absolute path. -/
  legacy : List (String × Archive) := []
  /-- What peers have uploaded to `default_storage`, by key; an object is written once. -/
  bucket : List (String × Bytes) := []
  /-- The keys deleted from it since. -/
  bucketDeleted : List String := []
  /-- Committed `user.export_ready` actions, oldest first. -/
  outbox : List ExportReady := []
  /-- Above every token drawn so far. -/
  tokens : Nat := 0
  deriving DecidableEq

/-- Exceptions, as far as some handler tells them apart; `str(e)` where it is stored. -/
inductive ExportError
  | valueError (text : String)
  | doesNotExist
  | integrityError
  | osError (text : String)
  | notImplementedError
  /-- Anything else. -/
  | failure (text : String)
  deriving DecidableEq, Repr

/-- `str(e)`. -/
def ExportError.text : ExportError → String
  | valueError text => text
  | doesNotExist => "DataExportRequest matching query does not exist."
  | integrityError => "UNIQUE constraint failed"
  | osError text => text
  | notImplementedError => ""
  | failure text => text

/-- `(OSError, ValueError, NotImplementedError)`, what `delete_archive` swallows. -/
def ExportError.isStorage : ExportError → Bool
  | valueError _ | osError _ | notImplementedError => true
  | _ => false

namespace ExportDb

/-- `str(uuid.uuid4())`: a correlation id no request carries. -/
def uuid4 (db : ExportDb) : Uuid :=
  db.requests.bound fun r => r.correlationId.elim 0 (· + 1)

/-- `all_parts_done`. -/
def allPartsDone (db : ExportDb) (request : Nat) : Bool :=
  !db.parts.any fun p => p.request = request && p.status ≠ .done

/-- The services of the DONE parts. -/
def doneServices (db : ExportDb) (request : Nat) : List String :=
  (db.parts.select fun p => p.request = request && p.status = .done).map (·.row.service)

/-- Everything below the staging directory of a request. -/
def filesOf (db : ExportDb) (request : Nat) : List (String × Bytes) :=
  (db.staging.filter (·.request = request)).map fun f => (f.path, f.bytes)

/-- `path.exists()`. -/
def hasFile (db : ExportDb) (request : Nat) (path : String) : Bool :=
  db.staging.any fun f => f.request = request && f.path = path

/-- `path.write_bytes(bytes)`. -/
def stage (db : ExportDb) (request : Nat) (path : String) (bytes : Bytes) : ExportDb :=
  { db with staging := ⟨request, path, bytes⟩ ::
      db.staging.filter fun f => ¬ (f.request = request ∧ f.path = path) }

/-- What a provider wrote into its directory. -/
def stageAll (db : ExportDb) (request : Nat) (dir : String) (files : List (String × Bytes)) :
    ExportDb :=
  files.foldl (fun db f => db.stage request (dir ++ "/" ++ f.1) f.2) db

/-- `shutil.rmtree(staging_dir)`. -/
def clearStaging (db : ExportDb) (request : Nat) : ExportDb :=
  { db with staging := db.staging.filter (·.request ≠ request) }

/-- The object a peer uploaded under a key. -/
def object? (db : ExportDb) (key : String) : Option Bytes :=
  (db.bucket.find? (·.1 = key)).map (·.2)

/-- `default_storage.open(key).read()`, when the object is there. -/
def readObject (db : ExportDb) (key : String) : Option Bytes :=
  if key ∈ db.bucketDeleted then none else db.object? key

/-- `os.path.isabs`. -/
def isLegacyPath (stored : String) : Bool := stored.toList.head? = some '/'

/-- The archive an `archive_path` names, wherever it is. -/
def archive? (db : ExportDb) (stored : String) : Option Archive :=
  let kept := if isLegacyPath stored then db.legacy else db.archives
  (kept.find? (·.1 = stored)).map (·.2)

/-- Remove the archive an `archive_path` names. -/
def removeArchive (db : ExportDb) (stored : String) : ExportDb :=
  if isLegacyPath stored then { db with legacy := db.legacy.filter (·.1 ≠ stored) }
  else { db with archives := db.archives.filter (·.1 ≠ stored) }

/-- Change one request row. -/
def modifyRequest (db : ExportDb) (pk : Nat) (f : DataExportRequest → DataExportRequest) :
    ExportDb :=
  { db with requests := db.requests.modify pk f }

/-- Change one part row. -/
def modifyPart (db : ExportDb) (pk : Nat) (f : DataExportPart → DataExportPart) : ExportDb :=
  { db with parts := db.parts.modify pk f }

theorem mem_doneServices {db : ExportDb} {request : Nat} {service : String} :
    service ∈ db.doneServices request ↔ ∃ i p, db.parts.get? i = some p ∧ p.request = request ∧
      p.status = .done ∧ p.service = service := by
  unfold doneServices
  constructor
  · intro h
    obtain ⟨o, ho, rfl⟩ := List.mem_map.mp h
    obtain ⟨hget, hp⟩ := Table.mem_select.mp ho
    simp only [Bool.and_eq_true, decide_eq_true_eq] at hp
    exact ⟨o.pk, o.row, hget, hp.1, hp.2, rfl⟩
  · rintro ⟨i, p, hget, hreq, hdone, rfl⟩
    exact List.mem_map.mpr ⟨⟨i, p⟩, Table.mem_select.mpr ⟨hget, by simp [hreq, hdone]⟩, rfl⟩

theorem mem_filesOf {db : ExportDb} {request : Nat} {path : String} {bytes : Bytes} :
    (path, bytes) ∈ db.filesOf request ↔ ⟨request, path, bytes⟩ ∈ db.staging := by
  unfold filesOf
  constructor
  · intro h
    obtain ⟨f, hf, heq⟩ := List.mem_map.mp h
    obtain ⟨hmem, hreq⟩ := List.mem_filter.mp hf
    obtain ⟨rfl, rfl⟩ := Prod.mk.inj heq
    obtain rfl : f.request = request := by simpa using hreq
    exact hmem
  · intro h
    exact List.mem_map.mpr ⟨⟨request, path, bytes⟩, List.mem_filter.mpr ⟨h, by simp⟩, rfl⟩

/-- A written file is there, and every other file is what it was. -/
theorem mem_stage {db : ExportDb} {request : Nat} {path : String} {bytes : Bytes}
    {f : StagedFile} : f ∈ (db.stage request path bytes).staging ↔
      f = ⟨request, path, bytes⟩ ∨ f ∈ db.staging ∧ ¬ (f.request = request ∧ f.path = path) := by
  simp only [stage, List.mem_cons, List.mem_filter, decide_eq_true_eq]

theorem stageAll_cons (db : ExportDb) (request : Nat) (dir : String) (f : String × Bytes)
    (files : List (String × Bytes)) : db.stageAll request dir (f :: files) =
      (db.stage request (dir ++ "/" ++ f.1) f.2).stageAll request dir files := rfl

/-- A provider writes to the staging directory of the request and to nothing else. -/
theorem stageAll_frame (db : ExportDb) (request : Nat) (dir : String)
    (files : List (String × Bytes)) : ∃ staging, db.stageAll request dir files =
      { db with staging := staging } ∧
      ∀ f, f.request ≠ request → (f ∈ staging ↔ f ∈ db.staging) := by
  induction files generalizing db with
  | nil => exact ⟨db.staging, rfl, fun f _ => Iff.rfl⟩
  | cons g files ih =>
      obtain ⟨staging, heq, hmem⟩ := ih (db.stage request (dir ++ "/" ++ g.1) g.2)
      refine ⟨staging, by rw [stageAll_cons, heq]; rfl, fun f hf => ?_⟩
      rw [hmem f hf, mem_stage]
      constructor
      · rintro (rfl | ⟨h, -⟩)
        · exact absurd rfl hf
        · exact h
      · intro h
        exact .inr ⟨h, fun heq => hf heq.1⟩

section Frame

variable (db : ExportDb) (request : Nat) (dir : String) (files : List (String × Bytes))
  (stored : String)

@[simp] theorem stageAll_requests : (db.stageAll request dir files).requests = db.requests := by
  obtain ⟨staging, heq, -⟩ := stageAll_frame db request dir files
  rw [heq]

@[simp] theorem stageAll_parts : (db.stageAll request dir files).parts = db.parts := by
  obtain ⟨staging, heq, -⟩ := stageAll_frame db request dir files
  rw [heq]

@[simp] theorem stageAll_archives : (db.stageAll request dir files).archives = db.archives := by
  obtain ⟨staging, heq, -⟩ := stageAll_frame db request dir files
  rw [heq]

@[simp] theorem stageAll_bucket : (db.stageAll request dir files).bucket = db.bucket := by
  obtain ⟨staging, heq, -⟩ := stageAll_frame db request dir files
  rw [heq]

@[simp] theorem stageAll_bucketDeleted :
    (db.stageAll request dir files).bucketDeleted = db.bucketDeleted := by
  obtain ⟨staging, heq, -⟩ := stageAll_frame db request dir files
  rw [heq]

@[simp] theorem stageAll_outbox : (db.stageAll request dir files).outbox = db.outbox := by
  obtain ⟨staging, heq, -⟩ := stageAll_frame db request dir files
  rw [heq]

/-- Removing an archive takes it out of one of the two stores. -/
theorem removeArchive_frame : ∃ archives legacy, db.removeArchive stored =
    { db with archives := archives, legacy := legacy } ∧ archives ⊆ db.archives := by
  unfold removeArchive
  split
  · exact ⟨db.archives, _, rfl, List.Subset.refl _⟩
  · exact ⟨_, db.legacy, rfl, List.filter_subset_self _⟩

@[simp] theorem removeArchive_requests : (db.removeArchive stored).requests = db.requests := by
  obtain ⟨archives, legacy, heq, -⟩ := removeArchive_frame db stored
  rw [heq]

@[simp] theorem removeArchive_parts : (db.removeArchive stored).parts = db.parts := by
  obtain ⟨archives, legacy, heq, -⟩ := removeArchive_frame db stored
  rw [heq]

@[simp] theorem removeArchive_staging : (db.removeArchive stored).staging = db.staging := by
  obtain ⟨archives, legacy, heq, -⟩ := removeArchive_frame db stored
  rw [heq]

@[simp] theorem removeArchive_bucket : (db.removeArchive stored).bucket = db.bucket := by
  obtain ⟨archives, legacy, heq, -⟩ := removeArchive_frame db stored
  rw [heq]

@[simp] theorem removeArchive_bucketDeleted :
    (db.removeArchive stored).bucketDeleted = db.bucketDeleted := by
  obtain ⟨archives, legacy, heq, -⟩ := removeArchive_frame db stored
  rw [heq]

@[simp] theorem removeArchive_outbox : (db.removeArchive stored).outbox = db.outbox := by
  obtain ⟨archives, legacy, heq, -⟩ := removeArchive_frame db stored
  rw [heq]

end Frame

end ExportDb

/-! ### What may happen to a request row

A row is written by whoever builds its archive, by the retention sweep and by the download
view. Whatever they do in whatever order, a row they have once settled stays settled. -/

/-- The later versions of a request row. -/
structure RowLater (r r' : DataExportRequest) : Prop where
  expected : r'.expectedServices = r.expectedServices
  correlation : r'.correlationId = r.correlationId
  expired : r.status = .expired → r'.status = .expired
  ready : r.status = .ready → r'.status = .ready ∨ r'.status = .expired
  token : r.isSettled = true →
    r'.downloadTokenHash = r.downloadTokenHash ∨ r'.downloadTokenHash = none
  path : r.isSettled = true → r'.archivePath = r.archivePath ∨ r'.archivePath = none

variable {a b c db : ExportDb} {r r' : DataExportRequest} {pk : Nat}

theorem DataExportRequest.isSettled_iff : r.isSettled = true ↔
    r.status = .ready ∨ r.status = .expired := by
  simp [DataExportRequest.isSettled]

theorem DataExportRequest.isOpen_iff : r.isOpen = true ↔
    r.status = .pending ∨ r.status = .processing := by
  simp [DataExportRequest.isOpen]

theorem RowLater.refl (r : DataExportRequest) : RowLater r r :=
  ⟨rfl, rfl, id, .inl, fun _ => .inl rfl, fun _ => .inl rfl⟩

theorem RowLater.settled (h : RowLater r r') (hs : r.isSettled = true) : r'.isSettled = true := by
  rw [DataExportRequest.isSettled_iff] at hs ⊢
  rcases hs with hs | hs
  · exact h.ready hs
  · exact .inr (h.expired hs)

theorem RowLater.trans {r'' : DataExportRequest} (h : RowLater r r') (h' : RowLater r' r'') :
    RowLater r r'' where
  expected := h'.expected.trans h.expected
  correlation := h'.correlation.trans h.correlation
  expired hs := h'.expired (h.expired hs)
  ready hs := by
    rcases h.ready hs with hs | hs
    · exact h'.ready hs
    · exact .inr (h'.expired hs)
  token hs := by
    rcases h'.token (h.settled hs) with htok | htok
    · rw [htok]
      exact h.token hs
    · exact .inr htok
  path hs := by
    rcases h'.path (h.settled hs) with hpath | hpath
    · rw [hpath]
      exact h.path hs
    · exact .inr hpath

/-- A row that is not settled may become anything that expects the same services under the same
id. -/
theorem RowLater.of_unsettled (h : r.isSettled = false)
    (he : r'.expectedServices = r.expectedServices) (hc : r'.correlationId = r.correlationId) :
    RowLater r r' := by
  have hno : ¬ r.isSettled = true := by simp [h]
  exact ⟨he, hc, fun hs => absurd (DataExportRequest.isSettled_iff.mpr (.inr hs)) hno,
    fun hs => absurd (DataExportRequest.isSettled_iff.mpr (.inl hs)) hno,
    fun hs => absurd hs hno, fun hs => absurd hs hno⟩

/-- `b` is a later version of `a`: every row is kept, as a later version of itself, and a part
stays the part of its request and service. -/
structure Later (a b : ExportDb) : Prop where
  rows : ∀ pk r, a.requests.get? pk = some r → ∃ r', b.requests.get? pk = some r' ∧ RowLater r r'
  parts : ∀ i p, a.parts.get? i = some p → ∃ p', b.parts.get? i = some p' ∧
    p'.request = p.request ∧ p'.service = p.service

theorem Later.refl (a : ExportDb) : Later a a :=
  ⟨fun _ r h => ⟨r, h, .refl r⟩, fun _ p h => ⟨p, h, rfl, rfl⟩⟩

theorem Later.trans (h : Later a b) (h' : Later b c) : Later a c where
  rows pk r hr := by
    obtain ⟨r', hr', hrow⟩ := h.rows pk r hr
    obtain ⟨r'', hr'', hrow'⟩ := h'.rows pk r' hr'
    exact ⟨r'', hr'', hrow.trans hrow'⟩
  parts i p hp := by
    obtain ⟨p', hp', hreq, hservice⟩ := h.parts i p hp
    obtain ⟨p'', hp'', hreq', hservice'⟩ := h'.parts i p' hp'
    exact ⟨p'', hp'', hreq'.trans hreq, hservice'.trans hservice⟩

/-- The request is published: READY, or EXPIRED since. -/
def Settled (db : ExportDb) (pk : Nat) : Prop :=
  ∃ r, db.requests.get? pk = some r ∧ r.isSettled = true

theorem Later.settled (h : Later a b) (hs : Settled a pk) : Settled b pk := by
  obtain ⟨r, hr, hset⟩ := hs
  obtain ⟨r', hr', hrow⟩ := h.rows pk r hr
  exact ⟨r', hr', hrow.settled hset⟩

/-- The stored row has what never changes of the copy in hand: its id and the services it was
created to ask. -/
def Snapshot (db : ExportDb) (req : Stored DataExportRequest) : Prop :=
  ∃ r, db.requests.get? req.pk = some r ∧ r.expectedServices = req.row.expectedServices ∧
    r.correlationId = req.row.correlationId

theorem Later.snapshot {req : Stored DataExportRequest} (h : Later a b) (hs : Snapshot a req) :
    Snapshot b req := by
  obtain ⟨r, hr, hexp, hid⟩ := hs
  obtain ⟨r', hr', hrow⟩ := h.rows req.pk r hr
  exact ⟨r', hr', hrow.expected.trans hexp, hrow.correlation.trans hid⟩

/-- The part is one of the request. -/
def PartOf (db : ExportDb) (i pk : Nat) : Prop :=
  ∃ p, db.parts.get? i = some p ∧ p.request = pk

theorem Later.partOf {i : Nat} (h : Later a b) (hs : PartOf a i pk) : PartOf b i pk := by
  obtain ⟨p, hp, heq⟩ := hs
  obtain ⟨p', hp', hreq, -⟩ := h.parts i p hp
  exact ⟨p', hp', hreq.trans heq⟩

end StapelGdpr.Export
