import StapelGdpr.Owners
import StapelGdpr.Lib.Prog

/-!
# StapelGdpr.Store

The database the orchestrator works on, and what a call brings to it.

* `Ledger` — the four tables an erasure is accounted in;
* `Db` — the ledger plus the host's users, legal holds, re-registration hashes and the
  transactional outbox;
* `Env` — what a call finds around it: settings, registered providers, the clock, and
  the host functions the source calls but does not define;
* `Op` — the database statements and outside calls, as step labels: one per `save`,
  `update`, `create`, provider call or `mutate_and_emit()` unit of the source;
* `Program` — a call of the orchestrator.
-/

namespace StapelGdpr

/-- Exceptions, as far as some handler tells them apart. -/
inductive Error
  | valueError (text : String)
  | integrityError
  | validationError
  | doesNotExist
  | sessionRevocationUnavailable
  | runtimeError (text : String)
  | overflowError
  /-- Anything else: the database, the bus, a provider. -/
  | failure
  deriving DecidableEq, Repr

/-- The comm actions this module emits, with their payloads. -/
inductive Action
  | deletionInitiated (userId : UserId) (trigger : ClosureTrigger) (graceEndsAt : Time)
  | sessionsRevoked (userId : UserId) (reason : String)
  | deletionCancelled (userId : UserId) (cancelledAt : Time) (trigger : ClosureTrigger)
  | erasureRequested (requestId : Nat) (correlationId : Uuid) (subjectType subjectKey : String)
      (workspaceId : String) (requestedBy : String) (origin : ErasureOrigin) (dueAt : Time)
  | userDeleted (userId : UserId) (correlationId : Uuid) (trigger : ClosureTrigger)
  | erasureTimeout (requestId : Nat) (correlationId : Option Uuid)
      (subjectType subjectKey : String) (owners : List String) (dueAt : Time)
  deriving DecidableEq, Repr

/-! ### Tables -/

/-- The tables an erasure is accounted in. -/
structure Ledger where
  closures : Table AccountClosureRequest := {}
  requests : Table ErasureRequest := {}
  parts : Table ErasurePart := {}
  obligations : Table SubprocessorObligation := {}
  deriving DecidableEq

structure Db extends Ledger where
  users : List User := []
  holds : Table LegalHold := {}
  hashes : List ReRegistrationHash := []
  /-- Committed actions, oldest first. -/
  outbox : List Action := []
  /-- Above every `uuid4` drawn so far. -/
  uuids : Nat := 0
  deriving DecidableEq

namespace Ledger

/-- `request.parts.exclude(state=DONE)`. -/
def openParts (l : Ledger) (request : Nat) : List (Stored ErasurePart) :=
  l.parts.select fun p => p.request = request && p.state ≠ .done

/-- `ErasureRequest.unreceipted_owners`: what blocks DELETED. -/
def unreceiptedOwners (l : Ledger) (request : Nat) : List String :=
  sorted ((l.openParts request).map (·.row.owner))

/-- `ErasureRequest.unanswered_owners`: silence, not a refusal. -/
def unansweredOwners (l : Ledger) (request : Nat) : List String :=
  sorted ((l.parts.select fun p => p.request = request &&
    (p.state = .pending || p.state = .timeout) && p.receiptAt = none).map (·.row.owner))

/-- `ErasureRequest.outcome`. -/
def outcome (l : Ledger) (request : Stored ErasureRequest) : Outcome :=
  if request.row.state = .timeout then .incomplete
  else if request.row.state ≠ .deleted then .pending
  else if request.row.completenessWaived || l.unreceiptedOwners request.pk ≠ [] then .incomplete
  else .complete

/-- `ErasureRequest.fully_erased_by`: the latest of our own SLA and every window. -/
def fullyErasedBy (l : Ledger) (request : Stored ErasureRequest) : Time :=
  (l.obligations.select (·.request = request.pk)).foldl (fun latest o => max latest o.row.dueAt)
    request.row.dueAt

/-- Nothing is unreceipted exactly when every part is DONE. -/
theorem unreceiptedOwners_eq_nil {l : Ledger} {request : Nat} :
    l.unreceiptedOwners request = [] ↔
      ∀ i p, l.parts.get? i = some p → p.request = request → p.state = .done := by
  rw [unreceiptedOwners, sorted, ← List.length_eq_zero_iff, List.length_insertionSort,
    List.length_eq_zero_iff, List.map_eq_nil_iff, List.eq_nil_iff_forall_not_mem]
  constructor
  · intro h i p hp hreq
    by_contra hdone
    exact h ⟨i, p⟩ (Table.mem_select.mpr ⟨hp, by simp [hreq, hdone]⟩)
  · intro h o ho
    obtain ⟨hget, hp⟩ := Table.mem_select.mp ho
    simp only [Bool.and_eq_true, decide_eq_true_eq] at hp
    exact hp.2 (h o.pk o.row hget hp.1)

end Ledger

/-- `LegalHold.is_held`. -/
def Db.isHeld (db : Db) (userId : UserId) : Bool :=
  db.holds.any fun h => h.userId = userId && h.releasedAt = none

/-- `User.objects.filter(pk=user_id).first()`. -/
def Db.user (db : Db) (userId : UserId) : Option User := db.users.find? (·.id = userId)

/-- Append actions to the outbox, inside a `mutate_and_emit()` unit. -/
def Db.emit (db : Db) (actions : List Action) : Db := { db with outbox := db.outbox ++ actions }

/-- `uuid4()`: an id that was never drawn and that no request carries. -/
def Db.uuid4 (db : Db) : Uuid :=
  max db.uuids (db.requests.bound fun r => r.correlationId.elim 0 (· + 1))

theorem Db.uuid4_fresh {db : Db} {pk : Nat} {r : ErasureRequest}
    (h : db.requests.get? pk = some r) : r.correlationId ≠ some db.uuid4 := by
  intro heq
  have hle := Table.le_bound (fun r : ErasureRequest => r.correlationId.elim 0 (· + 1)) h
  simp only [heq, Option.elim_some] at hle
  have : db.requests.bound (fun r => r.correlationId.elim 0 (· + 1)) ≤ db.uuid4 :=
    le_max_right _ _
  omega

/-! ### Surroundings of a call -/

/-- How `_resolve_revoker` says a closure's sessions get revoked. -/
inductive RevocationSeam
  | configured
  | stapelAuth
  | commInprocess
  | commBroker
  | none
  deriving DecidableEq, Repr

/-- `PRIMARY_IDENTITY_ERASURE`: scrub in place, drop the row, or a host callable (its
result is what it leaves of the row, `none` when it deletes it). -/
inductive IdentityErasure
  | anonymize
  | delete
  | custom (dotted : String) (erase : User → Option User)

/-- What the source calls and does not define: `stapel_core`, `hmac`, the Unicode tables
behind `str.lower` and `str.isdigit`, and the in-process subscribers of
`gdpr.erasure.requested`, which run inside the emit and may touch the user rows. -/
structure Host where
  identifyingFields : List String := ["email", "phone", "username"]
  anonymizeIdentity : User → User := fun u => { u with attrs := [] }
  tombstoneEmailSuffix : String := "@deleted.invalid"
  lower : String → String := fun s => String.ofList (s.toList.map Char.toLower)
  isDigit : Char → Bool := Char.isDigit
  hmac : String → String := id
  /-- The SHA-256 of the text with the key in front of it. -/
  saltedSha256 : String → String := fun s => "sha256:" ++ s
  /-- The id a `UUIDField` reads from a text, if it accepts the text. -/
  parseUuid : String → Option UserId := some
  onErasureRequested : Action → List User → List User := fun _ users => users

/-- What one call finds around it. -/
structure Env where
  settings : Settings := {}
  /-- `gdpr_registry.providers`, by section, in registration order. -/
  sections : List String := []
  now : Time := 0
  revocation : RevocationSeam := .configured
  identityErasure : IdentityErasure := .anonymize
  host : Host := {}

/-- `data_owner_report()`, as this call sees it. -/
def Env.report (env : Env) : RegistryReport := dataOwnerReport env.settings env.sections

/-- `subject_types()`, as this call sees it. -/
def Env.subjectTypes (env : Env) : List String := declaredSubjectTypes env.settings

/-- Database statements and outside calls. -/
inductive Op
  /-- Any query. -/
  | select
  /-- `initiate_closure`'s unit. -/
  | closureUnit (userId : UserId)
  /-- `cancel_closure`'s unit. -/
  | cancelUnit (closure : Nat)
  /-- `execute_deletion`: status, correlation id and registry version. -/
  | startDeleting (closure : Nat)
  /-- `request_erasure`'s unit: the row, its parts, the announcement. -/
  | erasureUnit (subjectType subjectKey : String)
  /-- `store_hashes`: one row. -/
  | storeHash (userId : UserId)
  /-- `provider.anonymize(user_id)`. -/
  | anonymize (owner : String) (userId : UserId)
  /-- `provider.delete(user_id)`. -/
  | delete (owner : String) (userId : UserId)
  /-- `ErasurePart.record_receipt`. -/
  | localReceipt (part : Nat)
  /-- The strategy of `erase_identity`. -/
  | eraseIdentity (userId : UserId)
  /-- `execute_deletion`: `identity_erased_at`. -/
  | identityErased (closure : Nat)
  /-- `execute_deletion`: `local_erasure_done` and `user.deleted`. -/
  | localDoneUnit (closure : Nat)
  /-- `mark_section_erased`: the conditional part update. -/
  | receipt (request : Nat) (owner : String)
  /-- `_maybe_finalize`: the request row. -/
  | certify (request : Nat)
  /-- `record_subprocessor_obligations`: the lookup of one row. -/
  | obligationQuery (request : Nat) (provider : String)
  /-- `record_subprocessor_obligations`: one row. -/
  | obligation (request : Nat) (provider : String)
  /-- `_maybe_finalize`: the closure row. -/
  | closureDeleted (closure : Nat)
  /-- `sweep_deletion_deadlines`: the bulk part update. -/
  | sweepParts
  /-- `sweep_deletion_deadlines`: one request and its `gdpr.erasure.timeout`. -/
  | timeoutUnit (request : Nat)
  /-- `run_retention_cleanup`: the expired re-registration hashes. -/
  | retentionCleanup
  /-- `purge_unverified_hashes`. -/
  | purgeUnverified
  deriving DecidableEq, Repr

/-- A call of the orchestrator, with result `α`. -/
abbrev Program (α : Type) := Prog Op Db Error α

/-- A query. -/
def Program.select {α : Type} (g : Db → α) : Program α := Prog.query .select g

/-- `raise ValueError(text)`. -/
def Program.valueError {α : Type} (text : String) : Program α := .raise (.valueError text)

end StapelGdpr
