import StapelGdpr.Lifecycle
import StapelGdpr.Subprocessors

/-!
# StapelGdpr.Orchestrator

`GDPROrchestrator` on the erasure side (`orchestrator.py`): account closure, subject-scoped
erasure, receipts, certification and the deadline sweep.

A row object is read once and used until the function returns, as in the source; what a
`save(update_fields=...)` writes are the named columns of the row that is stored then.
`execute_deletion` is cut into the functions its comments announce, and `_maybe_finalize`
at the flip: `certify` is everything from `completed_at = timezone.now()` on.
-/

namespace StapelGdpr

/-! ### Closure and cancellation -/

/-- The row `initiate_closure` creates. -/
def newClosure (env : Env) (userId : UserId) (trigger : ClosureTrigger) :
    AccountClosureRequest where
  userId := userId
  trigger := trigger
  registryVersion := env.report.version
  initiatedAt := env.now
  graceEndsAt := env.now + days 30

/-- `initiate_closure`. -/
def initiateClosure (env : Env) (userId : UserId) (trigger : ClosureTrigger) :
    Program (Stored AccountClosureRequest) := do
  let held ← Program.select (·.isHeld userId)
  if held then Program.valueError "legal_hold"
  else do
    let pending ← Program.select (·.closures.any fun c =>
      c.userId = userId && (c.status = .grace || c.status = .deleting))
    if pending then Program.valueError "closure_already_pending"
    else Prog.atomic (.closureUnit userId) fun db => do
      let closure := newClosure env userId trigger
      let created := { db with closures := db.closures.insert closure }
      let (_, revoked) ← (created.setActive userId false).2.revokeSessions env userId
      return (⟨db.closures.nextPk, closure⟩,
        revoked.emit [.deletionInitiated userId trigger closure.graceEndsAt])

/-- `cancel_closure`. -/
def cancelClosure (env : Env) (userId : UserId) : Program (Stored AccountClosureRequest) := do
  let found ← Program.select (·.closures.first? fun c => c.userId = userId && c.status = .grace)
  match found with
  | none => Program.valueError "no_active_closure"
  | some closure =>
      Prog.atomic (.cancelUnit closure.pk) fun db =>
        let db := { db with closures := db.closures.modify closure.pk (·.cancel env.now) }
        .ok (⟨closure.pk, closure.row.cancel env.now⟩, (db.setActive userId true).2.emit
            [.deletionCancelled userId env.now closure.row.trigger])

/-! ### Opening an erasure -/

/-- `requested_by`: nobody, a user's primary key, or a text off the wire. -/
inductive Requester
  | nobody
  | user (id : UserId)
  | text (value : String)
  deriving DecidableEq, Repr

/-- What the `UUIDField` stores, unless it refuses the value. -/
def Requester.stored (host : Host) : Requester → Option (Option UserId)
  | .nobody => some none
  | .user id => some (some id)
  | .text value => (host.parseUuid value).map some

/-- `str(requested_by) if requested_by else ""`. -/
def Requester.printed : Requester → String
  | .nobody => ""
  | .user id => id
  | .text value => value

/-- The keyword arguments of `request_erasure`. -/
structure ErasureArgs where
  workspaceId : Option String := none
  requestedBy : Requester := .nobody
  origin : ErasureOrigin := .user
  correlationId : Option Uuid := none
  closure : Option Nat := none
  graceEndsAt : Option Time := none
  sourceRequest : Option Nat := none
  restoredFrom : Option Time := none
  note : String := ""
  idempotencyKey : String := ""
  deriving DecidableEq, Repr

/-- The row `request_erasure` inserts. -/
def ErasureArgs.row (args : ErasureArgs) (env : Env) (subjectType subjectKey : String)
    (requestedBy : Option UserId) (correlationId : Uuid) : ErasureRequest where
  subjectType := subjectType
  subjectKey := subjectKey
  workspaceId := args.workspaceId.filter (· ≠ "")
  requestedBy := requestedBy
  origin := args.origin
  requestedAt := env.now
  graceEndsAt := args.graceEndsAt
  dueAt := env.now + days env.settings.slaDays
  state := .erasing
  correlationId := some correlationId
  registryVersion := env.report.version
  closure := args.closure
  sourceRequest := args.sourceRequest
  restoredFrom := args.restoredFrom
  note := args.note
  idempotencyKey := args.idempotencyKey

/-- One receipt slot per claiming owner. -/
def DataOwner.part (owner : DataOwner) (request : Nat) (now : Time) : ErasurePart where
  request := request
  owner := owner.name
  kind := owner.kind
  deadline := some (now + owner.timeout)

/-- The constraints of the request table: three unique ones and two foreign keys. -/
def Ledger.violates (l : Ledger) (r : ErasureRequest) : Bool :=
  l.requests.any (fun r' =>
    r'.correlationId = r.correlationId ||
    (r.idempotencyKey ≠ "" && r'.idempotencyKey = r.idempotencyKey) ||
    (r.sourceRequest.isSome && r'.sourceRequest = r.sourceRequest && r'.origin = r.origin)) ||
  r.closure.any (fun pk => (l.closures.get? pk).isNone) ||
  r.sourceRequest.any (fun pk => (l.requests.get? pk).isNone)

/-- The receipt slots of a new request. -/
def Env.slots (env : Env) (subjectType : String) (request : Nat) : List ErasurePart :=
  (env.report.ownersFor subjectType).map (·.part request env.now)

/-- Do the claiming owners have distinct names? `(request, owner)` is unique. -/
def Env.distinctOwners (env : Env) (subjectType : String) : Bool :=
  ((env.report.ownersFor subjectType).map DataOwner.name).Nodup

/-- `gdpr.erasure.requested`. -/
def ErasureArgs.announcement (args : ErasureArgs) (pk : Nat) (row : ErasureRequest)
    (correlationId : Uuid) : Action :=
  .erasureRequested pk correlationId row.subjectType row.subjectKey (row.workspaceId.getD "")
    args.requestedBy.printed row.origin row.dueAt

/-- The unit of `request_erasure`: the row, its parts, `gdpr.erasure.requested`. -/
def Db.openErasure (db : Db) (env : Env) (subjectType subjectKey : String) (args : ErasureArgs) :
    Except Error (Stored ErasureRequest × Db) :=
  match args.requestedBy.stored env.host with
  | none => .error .validationError
  | some requestedBy =>
      let correlationId := args.correlationId.getD db.uuid4
      let row := args.row env subjectType subjectKey requestedBy correlationId
      let pk := db.requests.nextPk
      let announcement := args.announcement pk row correlationId
      if db.violates row = true ∨ env.distinctOwners subjectType = false then
        .error .integrityError
      else .ok (⟨pk, row⟩, { db with
        requests := db.requests.insert row
        parts := db.parts.insertAll (env.slots subjectType pk)
        outbox := db.outbox ++ [announcement]
        users := env.host.onErasureRequested announcement db.users
        uuids := if args.correlationId.isSome then db.uuids else db.uuid4 + 1 })

/-- `ErasureRequest.objects.filter(idempotency_key=key).first()`. -/
def Ledger.keyed (l : Ledger) (key : String) : Option (Stored ErasureRequest) :=
  l.requests.first? (·.idempotencyKey = key)

/-- `ErasureRequest.objects.filter(correlation_id=correlation_id).first()`. -/
def Ledger.correlated (l : Ledger) (correlationId : Uuid) : Option (Stored ErasureRequest) :=
  l.requests.first? (·.correlationId = some correlationId)

/-- `request_erasure` from the insert on: a loser of a race returns the winner. -/
def insertErasure (env : Env) (subjectType subjectKey : String) (args : ErasureArgs) :
    Program (Stored ErasureRequest) :=
  let unit := Prog.atomic (.erasureUnit subjectType subjectKey) fun db =>
    db.openErasure env subjectType subjectKey args
  unit.tryCatch fun e =>
    if e = .integrityError ∧ args.idempotencyKey ≠ "" then do
      let winner ← Program.select (·.keyed args.idempotencyKey)
      match winner with
      | some winner => return winner
      | none => Prog.raise e
    else Prog.raise e

/-- `request_erasure`. -/
def requestErasure (env : Env) (subjectType subjectKey : String) (args : ErasureArgs) :
    Program (Stored ErasureRequest) :=
  if subjectType ∉ env.subjectTypes then Program.valueError "unknown_subject_type"
  else if args.idempotencyKey = "" then insertErasure env subjectType subjectKey args
  else do
    let existing ← Program.select (·.keyed args.idempotencyKey)
    match existing with
    | some existing => return existing
    | none => insertErasure env subjectType subjectKey args

/-! ### Certification -/

/-- The closure conditions of `_maybe_finalize`; an entity erasure has none. -/
def closureAllows (closure : Option (Stored AccountClosureRequest)) : Bool :=
  closure.all (·.row.erased)

/-- `blockers`: what stands against DELETED. -/
def finalizeBlockers (report : RegistryReport) (subjectType : String)
    (unreceipted : List String) : List String :=
  report.problems ++
  (if report.ownersFor subjectType = [] then
    [s!"no declared data owner claims subject_type='{subjectType}'"] else []) ++
  (if unreceipted = [] then []
   else [s!"owners without an erasure receipt: {commaJoin unreceipted}"])

/-- `request.closure`: the object the request was created with, or a read of the row. -/
def requestClosure (request : Stored ErasureRequest)
    (cached : Option (Stored AccountClosureRequest)) :
    Program (Option (Stored AccountClosureRequest)) :=
  match request.row.closure, cached with
  | none, _ => return none
  | some _, some closure => return some closure
  | some pk, none => do
      let found ← Program.select (·.closures.get? pk)
      match found with
      | some row => return some ⟨pk, row⟩
      | none => Prog.raise .doesNotExist

/-- `_maybe_finalize` from the flip on. -/
def certify (env : Env) (request : Stored ErasureRequest)
    (closure : Option (Stored AccountClosureRequest)) (waived : Bool) : Program Unit := do
  Prog.write (.certify request.pk) fun db => { db with
    requests := db.requests.modify request.pk (·.certify env.now waived) }
  let _ ← recordSubprocessorObligations env ⟨request.pk, request.row.certify env.now waived⟩
  match closure with
  | some closure =>
      Prog.write (.closureDeleted closure.pk) fun db => { db with
        closures := db.closures.modify closure.pk (·.delete env.now waived) }
  | none => return ()

/-- `_maybe_finalize`. -/
def maybeFinalize (env : Env) (request : Stored ErasureRequest)
    (cached : Option (Stored AccountClosureRequest)) : Program Unit :=
  if request.row.state.isOpen = false then return ()
  else do
    let closure ← requestClosure request cached
    if closureAllows closure = false then return ()
    else do
      let unreceipted ← Program.select (·.unreceiptedOwners request.pk)
      let blockers := finalizeBlockers env.report request.row.subjectType unreceipted
      if blockers ≠ [] ∧ env.settings.allowErasureWithoutReceipts = false then return ()
      else certify env request closure (blockers ≠ [])

/-! ### Executing a deletion -/

/-- `_store_reregistration_hashes`: never raises. -/
def storeReregistrationHashes (env : Env) (userId : UserId) : Program Unit :=
  let body : Program Unit := do
    let found ← Program.select (·.user userId)
    match found with
    | none => return ()
    | some user => do
        let _ ← storeHashes env userId (user.attr "email") (user.attr "phone")
        return ()
  body.tryCatch fun _ => return ()

/-- `provider.anonymize(user_id)` for one provider; a crash is collected. -/
def anonymizeSection (userId : UserId) (failed : List String) (name : String) :
    Program (List String) :=
  let body : Program (List String) := do
    Prog.external (.anonymize name userId)
    return failed
  body.tryCatch fun _ => return failed ++ [name]

/-- `provider.delete(user_id)` for one provider; a crash is collected once. -/
def deleteSection (userId : UserId) (failed : List String) (name : String) :
    Program (List String) :=
  let body : Program (List String) := do
    Prog.external (.delete name userId)
    return failed
  body.tryCatch fun _ => return if name ∈ failed then failed else failed ++ [name]

/-- `_run_deletion_inprocess`: the sections that failed. -/
def runDeletionInprocess (env : Env) (userId : UserId) : Program (List String) := do
  let failed ← env.sections.foldlM (anonymizeSection userId) []
  env.sections.foldlM (deleteSection userId) failed

/-- One owner of `_record_local_receipts`. -/
def recordLocalReceipt (env : Env) (request : Nat) (failed : List String) (owner : DataOwner) :
    Program PUnit :=
  if owner.isLocal = false ∨ owner.name ∈ failed ∨ owner.name ∈ env.report.missing then return ()
  else do
    let found ← Program.select (·.parts.first? fun p => p.request = request && p.owner = owner.name)
    match found with
    | none => return ()
    | some part =>
        if part.row.state = .done then return ()
        else Prog.write (.localReceipt part.pk) fun db => { db with
          parts := db.parts.modify part.pk (·.recordReceipt env.now part.row.counts) }

/-- `_record_local_receipts`. -/
def recordLocalReceipts (env : Env) (request : Stored ErasureRequest) (failed : List String) :
    Program PUnit :=
  (env.report.ownersFor request.row.subjectType).forM (recordLocalReceipt env request.pk failed)

/-- The arguments under which a closure's own erasure is opened. -/
def closureErasureArgs (closure : Stored AccountClosureRequest) (correlationId : Uuid) :
    ErasureArgs where
  requestedBy := .user closure.row.userId
  origin := if closure.row.trigger = .inactivity then .inactivity else .user
  correlationId := some correlationId
  closure := some closure.pk
  graceEndsAt := some closure.row.graceEndsAt

/-- `execute_deletion` up to `status = DELETING` included: the correlation id, drawn when
the object has none. -/
def startDeleting (env : Env) (closure : Stored AccountClosureRequest) : Program Uuid :=
  Prog.atomic (.startDeleting closure.pk) fun db =>
    let correlationId := closure.row.correlationId.getD db.uuid4
    .ok (correlationId, { db with
      closures := db.closures.modify closure.pk (·.startDeleting correlationId env.report.version)
      uuids := if closure.row.correlationId.isSome then db.uuids else db.uuid4 + 1 })

/-- The erasure of a closure: found by its correlation id, or opened now. The second
component is the closure object cached on a request that was just created. -/
def closureErasure (env : Env) (closure : Stored AccountClosureRequest) (correlationId : Uuid) :
    Program (Stored ErasureRequest × Bool) := do
  let found ← Program.select (·.correlated correlationId)
  match found with
  | some erasure => return (erasure, false)
  | none => do
      let erasure ← requestErasure env subjectAccount closure.row.userId
        (closureErasureArgs closure correlationId)
      return (erasure, true)

/-- `erase_identity` inside `execute_deletion`: did it return? -/
def identityErased (env : Env) (userId : UserId) : Program Bool :=
  let body : Program Bool := do
    let _ ← eraseIdentity env userId
    return true
  body.tryCatch fun _ => return false

/-- The local work of `execute_deletion`, on the erasure it found or opened: `none` when
an early `return` leaves the closure in DELETING. -/
def eraseSubject (env : Env) (closure : Stored AccountClosureRequest) (correlationId : Uuid)
    (erasure : Stored ErasureRequest) : Program (Option (Stored AccountClosureRequest)) := do
  storeReregistrationHashes env closure.row.userId
  let failed ← runDeletionInprocess env closure.row.userId
  recordLocalReceipts env erasure failed
  if failed ≠ [] then return none
  else do
    let erased ← identityErased env closure.row.userId
    if erased = false then return none
    else do
      Prog.write (.identityErased closure.pk) fun db => { db with
        closures := db.closures.modify closure.pk (·.eraseIdentity env.now) }
      Prog.write (.localDoneUnit closure.pk) fun db => Db.emit { db with
        closures := db.closures.modify closure.pk (·.finishLocal) }
        [.userDeleted closure.row.userId correlationId closure.row.trigger]
      return some ⟨closure.pk, (closure.row.eraseIdentity env.now).finishLocal⟩

/-- `execute_deletion`. -/
def executeDeletion (env : Env) (closure : Stored AccountClosureRequest) : Program Unit := do
  let held ← Program.select (·.isHeld closure.row.userId)
  if held then Program.valueError "legal_hold"
  else do
    let correlationId ← startDeleting env closure
    let started : Stored AccountClosureRequest :=
      ⟨closure.pk, closure.row.startDeleting correlationId env.report.version⟩
    let (erasure, created) ← closureErasure env started correlationId
    let erased ← eraseSubject env started correlationId erasure
    match erased with
    | none => return ()
    | some erased => maybeFinalize env erasure (if created then some erased else none)

/-! ### Receipts and deadlines -/

/-- `mark_section_erased`. -/
def markSectionErased (env : Env) (correlationId : Uuid) (service : String)
    (receiptId : String) (counts : Counts) : Program Unit := do
  let found ← Program.select (·.correlated correlationId)
  match found with
  | none => return ()
  | some request => do
      let updated ← Prog.atomic (.receipt request.pk service) fun db =>
        .ok ((db.parts.select (·.awaits request.pk service)).length, { db with
          parts := db.parts.update (·.awaits request.pk service)
            (·.receive env.now correlationId receiptId counts) })
      if updated = 0 then return ()
      else do
        let refreshed ← Program.select (·.requests.get? request.pk)
        match refreshed with
        | some row => maybeFinalize env ⟨request.pk, row⟩ none
        | none => Prog.raise .doesNotExist

/-- The requests a sweep announces: of the affected ones, those still open, latest first
(requests of one moment in key order). -/
def Ledger.announced (l : Ledger) (affected : List (Nat × String)) :
    List (Stored ErasureRequest) :=
  (l.requests.entries.filter fun r =>
    r.pk ∈ affected.map Prod.fst && r.row.state.isOpen).insertionSort
      fun r r' => r'.row.requestedAt ≤ r.row.requestedAt

/-- The owners of one request among the affected parts. -/
def silentOwners (affected : List (Nat × String)) (request : Nat) : List String :=
  sorted ((affected.filter (·.1 = request)).map Prod.snd)

theorem mem_silentOwners {affected : List (Nat × String)} {request : Nat} {owner : String} :
    owner ∈ silentOwners affected request ↔ (request, owner) ∈ affected := by
  simp [silentOwners, sorted]

/-- The unit of one request in the sweep. -/
def announceTimeout (affected : List (Nat × String)) (request : Stored ErasureRequest) :
    Program PUnit :=
  Prog.write (.timeoutUnit request.pk) fun db => Db.emit { db with
    requests := db.requests.modify request.pk (·.timeOut) }
    [.erasureTimeout request.pk request.row.correlationId request.row.subjectType
      request.row.subjectKey (silentOwners affected request.pk) request.row.dueAt]

/-- `sweep_deletion_deadlines`: how many parts timed out. -/
def sweepDeletionDeadlines (env : Env) : Program Nat := do
  let affected ← Program.select fun db =>
    (db.parts.select (·.overdue env.now)).map fun p => (p.row.request, p.row.owner)
  let count ← Prog.atomic .sweepParts fun db =>
    .ok ((db.parts.select (·.overdue env.now)).length, { db with
      parts := db.parts.update (·.overdue env.now) (·.timeOut) })
  if count = 0 then return 0
  else do
    let requests ← Program.select (·.announced affected)
    requests.forM (announceTimeout affected)
    return count

end StapelGdpr
