import StapelGdpr.Orchestrator

/-!
# StapelGdpr.Tasks

The doors of the erasure side other than the orchestrator's own methods: the grace worker,
the inactivity checker and the retention cleanup (`tasks.py`), the wire intake
(`functions.py`, `actions.py`), `POST /erasures` (`views.py`) and the restore re-queue command.
-/

namespace StapelGdpr

/-! ### The account closure worker -/

/-- The worker's query: closures whose grace elapsed, less those of held users. -/
def Db.expiredGrace (db : Db) (now : Time) : List (Stored AccountClosureRequest) :=
  db.closures.select fun c => c.status = .grace && c.graceEndsAt ≤ now && !db.isHeld c.userId

/-- One closure of the worker's list; an exception is logged and the loop goes on. -/
def expireClosure (env : Env) (closure : Stored AccountClosureRequest) : Program PUnit :=
  (executeDeletion env closure).tryCatch fun _ => return ()

/-- `process_expired_grace_periods`. -/
def processExpiredGracePeriods (env : Env) : Program PUnit := do
  let expired ← Program.select (·.expiredGrace env.now)
  expired.forM (expireClosure env)

/-! ### The inactivity checker -/

/-- One user `check_inactive_accounts` closes; an exception is logged and the loop goes on. -/
def closeInactive (env : Env) (user : User) : Program PUnit :=
  let body : Program PUnit := do
    let pending ← Program.select (·.closures.any fun c =>
      c.userId = user.id && (c.status = .grace || c.status = .deleting))
    if pending then return ()
    else do
      let _ ← initiateClosure env user.id .inactivity
      return ()
  body.tryCatch fun _ => return ()

/-- `check_inactive_accounts`, less its warning emails; `lapsed` is what the host's
`last_login` column says of a row. -/
def checkInactiveAccounts (env : Env) (lapsed : User → Bool) : Program PUnit := do
  let users ← Program.select (·.users.filter fun u => u.isActive && lapsed u)
  users.forM (closeInactive env)

/-! ### Retention -/

/-- The hashes past their retention, less those of users held when the task started. -/
def ReRegistrationHash.isExpired (h : ReRegistrationHash) (now : Time) (held : List UserId) :
    Bool :=
  h.expiresAt ≤ now && h.userIdWas ∉ held

/-- `run_retention_cleanup`. -/
def runRetentionCleanup (env : Env) : Program PUnit := do
  let held ← Program.select fun db =>
    (db.holds.select (·.releasedAt = none)).map (·.row.userId)
  let _ ← Program.select fun db => (db.hashes.filter (·.isExpired env.now held)).length
  Prog.write .retentionCleanup fun db =>
    { db with hashes := db.hashes.filter fun h => !h.isExpired env.now held }

/-! ### The wire intake -/

/-- A payload of `gdpr.erasure.open` or `gdpr.erasure.request`; the schema makes every
value a string. -/
structure ErasurePayload where
  subjectType : Option String := none
  subjectKey : Option String := none
  workspaceId : Option String := none
  requestedBy : Option String := none
  origin : Option String := none
  idempotencyKey : Option String := none
  deriving DecidableEq, Repr

/-- `str(payload.get(key) or "").strip()`. -/
def payloadText (value : Option String) : String := strip (value.getD "")

/-- `... or None`. -/
def orNone (text : String) : Option String := if text = "" then none else some text

/-- The origin column as a value of the vocabulary. -/
def ErasureOrigin.ofText (text : String) : ErasureOrigin :=
  match text with
  | "user" => .user
  | "dsar" => .dsar
  | "inactivity" => .inactivity
  | "restore_requeue" => .restoreRequeue
  | "admin" => .admin
  | text => .other text

/-- The keyword arguments a payload comes down to. -/
def ErasurePayload.args (payload : ErasurePayload) : ErasureArgs where
  workspaceId := orNone (payloadText payload.workspaceId)
  requestedBy := ((orNone (payloadText payload.requestedBy)).map Requester.text).getD .nobody
  origin := .ofText ((orNone (payloadText payload.origin)).getD "user")
  idempotencyKey := payloadText payload.idempotencyKey

/-- `open_from_payload`. -/
def openFromPayload (env : Env) (payload : ErasurePayload) : Program (Stored ErasureRequest) :=
  let subjectType := payloadText payload.subjectType
  let subjectKey := payloadText payload.subjectKey
  if subjectType = "" ∨ subjectKey = "" then
    Program.valueError "subject_type and subject_key are required"
  else requestErasure env subjectType subjectKey payload.args

/-- The `gdpr.erasure.request` Function: id, due date and state of the request. -/
def erasureRequest (env : Env) (payload : ErasurePayload) :
    Program (Nat × Time × ErasureState) := do
  let request ← openFromPayload env payload
  return (request.pk, request.row.dueAt, request.row.state)

/-- The `gdpr.erasure.open` handler: a `ValueError` is logged and the message dropped. -/
def handleErasureOpen (env : Env) (payload : ErasurePayload) : Program Unit :=
  let body : Program Unit := do
    let _ ← openFromPayload env payload
    return ()
  body.tryCatch fun e =>
    match e with
    | .valueError _ => return ()
    | e => Prog.raise e

/-- An event of `gdpr.section.erased`. -/
structure SectionErased where
  correlationId : Option Uuid
  owner : Option String := none
  service : Option String := none
  /-- The envelope's `event.service`. -/
  emitter : String := ""
  receiptId : String := ""
  counts : Counts := []
  deriving DecidableEq, Repr

/-- Who the event says erased: `owner`, else `service`, else the envelope. -/
def SectionErased.ownerName (event : SectionErased) : String :=
  (event.owner.filter (· ≠ "")).getD ((event.service.filter (· ≠ "")).getD event.emitter)

/-- The `gdpr.section.erased` handler. -/
def handleSectionErased (env : Env) (event : SectionErased) : Program Unit :=
  match event.correlationId with
  | none => return ()
  | some correlationId =>
      if event.ownerName = "" then return ()
      else markSectionErased env correlationId event.ownerName event.receiptId event.counts

/-! ### `POST /erasures` -/

/-- What the view answers; a 202 carries the request. -/
inductive ErasureAnswer
  | accepted (request : Stored ErasureRequest)
  | badRequest
  | forbidden
  | unknownSubject
  | internalError
  deriving DecidableEq, Repr

/-- The body of a POST. -/
structure ErasurePost where
  subjectType : String := ""
  subjectKey : String := ""
  workspaceId : Option String := none
  deriving DecidableEq, Repr

/-- `ErasureRequestView.post`, for a caller `user` whom its permission classes have let in;
`authorized` is what `erasure_authorized` says of this request. -/
def postErasure (env : Env) (user : UserId) (authorized : String → String → Bool)
    (post : ErasurePost) : Program ErasureAnswer :=
  let subjectType := strip post.subjectType
  let subjectKey := strip post.subjectKey
  if subjectType = "" ∨ subjectKey = "" then return .badRequest
  else if authorized subjectType subjectKey = false then return .forbidden
  else
    let body : Program ErasureAnswer := do
      let erasure ← requestErasure env subjectType subjectKey
        { workspaceId := post.workspaceId.filter (· ≠ ""), requestedBy := .user user }
      return .accepted erasure
    body.tryCatch fun e =>
      match e with
      | .valueError text =>
          return if text = "unknown_subject_type" then .unknownSubject else .internalError
      | e => Prog.raise e

/-! ### Re-queue after a restore -/

/-- `SLACK`: how far before the restore point to look. -/
def slack : Delta := days 1

/-- The requests whose erasure the restore may have undone, in key order. -/
def Ledger.requeueCandidates (l : Ledger) (restoredFrom : Time) : List (Stored ErasureRequest) :=
  (l.requests.select fun r =>
    r.state = .deleted && r.completedAt.any (restoredFrom - slack ≤ ·)).filter fun r =>
      !l.requests.any fun r' => r'.sourceRequest = some r.pk && r'.origin = .restoreRequeue

/-- The arguments under which a candidate is opened again. -/
def requeueArgs (source : Stored ErasureRequest) (restoredFrom : Time) : ErasureArgs where
  workspaceId := source.row.workspaceId
  requestedBy := (source.row.requestedBy.map Requester.user).getD .nobody
  origin := .restoreRequeue
  sourceRequest := some source.pk
  restoredFrom := some restoredFrom
  note := s!"re-queued after restore from {restoredFrom}"

/-- One candidate: requeued, or skipped on the two errors the command expects. -/
def requeue (env : Env) (restoredFrom : Time) (totals : Nat × Nat)
    (source : Stored ErasureRequest) : Program (Nat × Nat) :=
  let body : Program (Nat × Nat) := do
    let _ ← requestErasure env source.row.subjectType source.row.subjectKey
      (requeueArgs source restoredFrom)
    return (totals.1 + 1, totals.2)
  body.tryCatch fun e =>
    match e with
    | .integrityError | .valueError _ => return (totals.1, totals.2 + 1)
    | e => Prog.raise e

/-- `gdpr_requeue_after_restore`: how many were requeued, how many skipped. -/
def requeueAfterRestore (env : Env) (restoredFrom : Time) (dryRun : Bool) :
    Program (Nat × Nat) := do
  let candidates ← Program.select (·.requeueCandidates restoredFrom)
  if dryRun then return (candidates.length, 0)
  else candidates.foldlM (requeue env restoredFrom) (0, 0)

end StapelGdpr
