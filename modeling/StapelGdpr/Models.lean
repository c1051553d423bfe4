import StapelGdpr.Conf
import StapelGdpr.Lib.Table

/-!
# StapelGdpr.Models

The rows of `models.py` on the erasure side: closures, erasure requests, their per-owner
parts, the subprocessor ledger, legal holds and re-registration hashes, with the column
defaults the source declares. The user table is the host's; its rows carry what this
module reads of them.

Foreign keys are primary keys of `Table`s. Columns no modelled function reads or writes
are left out.
-/

namespace StapelGdpr

/-- A user id: the canonical text of the UUID, which is also `str(user_id)`. -/
abbrev UserId := String

/-- A `uuid4` drawn by this module. Ids are only compared and printed. -/
abbrev Uuid := Nat

/-- A host user row: the activation flag and the named attributes `getattr` finds. -/
structure User where
  id : UserId
  isActive : Bool := true
  attrs : List (String × String) := []
  deriving DecidableEq, Repr

/-- `getattr(user, name, None)`. -/
def User.attr (user : User) (name : String) : Option String := user.attrs.lookup name

/-! ### Account closure -/

inductive ClosureTrigger
  | manual
  | inactivity
  | platform
  deriving DecidableEq, Repr

inductive ClosureStatus
  | grace
  | deleting
  | deleted
  | cancelled
  deriving DecidableEq, Repr

structure AccountClosureRequest where
  userId : UserId
  trigger : ClosureTrigger
  status : ClosureStatus := .grace
  correlationId : Option Uuid := none
  /-- Every local provider erased successfully. -/
  localErasureDone : Bool := false
  registryVersion : String := ""
  completenessWaived : Bool := false
  /-- When the primary user row itself was erased. -/
  identityErasedAt : Option Time := none
  initiatedAt : Time
  graceEndsAt : Time
  deletedAt : Option Time := none
  cancelledAt : Option Time := none
  deriving DecidableEq, Repr

namespace AccountClosureRequest

/-! The columns each `save(update_fields=...)` of the orchestrator writes. -/

def cancel (c : AccountClosureRequest) (now : Time) : AccountClosureRequest :=
  { c with status := .cancelled, cancelledAt := some now }

def startDeleting (c : AccountClosureRequest) (correlationId : Uuid) (version : String) :
    AccountClosureRequest :=
  { c with status := .deleting, correlationId := some correlationId, registryVersion := version }

def eraseIdentity (c : AccountClosureRequest) (now : Time) : AccountClosureRequest :=
  { c with identityErasedAt := some now }

def finishLocal (c : AccountClosureRequest) : AccountClosureRequest :=
  { c with localErasureDone := true }

def delete (c : AccountClosureRequest) (now : Time) (waived : Bool) : AccountClosureRequest :=
  { c with status := .deleted, deletedAt := some now, completenessWaived := waived }

/-- Has everything but the receipts happened? The closure conditions of certification. -/
def erased (c : AccountClosureRequest) : Bool :=
  c.status = .deleting && c.localErasureDone && c.identityErasedAt.isSome

end AccountClosureRequest

/-! ### Erasure requests and their receipts -/

/-- `origin`: the declared choices, or whatever else a payload carried (`choices` is not
enforced on insert). -/
inductive ErasureOrigin
  | user
  | dsar
  | inactivity
  | restoreRequeue
  | admin
  | other (text : String)
  deriving DecidableEq, Repr

inductive ErasureState
  | queued
  | erasing
  | deleted
  | timeout
  deriving DecidableEq, Repr

/-- The states `_maybe_finalize` still acts on. -/
def ErasureState.isOpen : ErasureState → Bool
  | .queued | .erasing => true
  | .deleted | .timeout => false

theorem ErasureState.ne_deleted {state : ErasureState} (h : state.isOpen = true) :
    state ≠ .deleted := by
  intro hdel
  rw [hdel] at h
  cases h

structure ErasureRequest where
  subjectType : String
  subjectKey : String
  workspaceId : Option String := none
  requestedBy : Option UserId := none
  origin : ErasureOrigin := .user
  requestedAt : Time
  graceEndsAt : Option Time := none
  dueAt : Time
  state : ErasureState := .queued
  completedAt : Option Time := none
  correlationId : Option Uuid := none
  registryVersion : String := ""
  completenessWaived : Bool := false
  closure : Option Nat := none
  sourceRequest : Option Nat := none
  restoredFrom : Option Time := none
  note : String := ""
  idempotencyKey : String := ""
  deriving DecidableEq, Repr

/-- The columns the flip writes. -/
def ErasureRequest.certify (r : ErasureRequest) (now : Time) (waived : Bool) : ErasureRequest :=
  { r with state := .deleted, completedAt := some now, completenessWaived := waived }

/-- The column the sweep writes. -/
def ErasureRequest.timeOut (r : ErasureRequest) : ErasureRequest := { r with state := .timeout }

inductive PartState
  | pending
  | done
  | failed
  | timeout
  deriving DecidableEq, Repr

inductive OwnerKind
  | local
  | remote
  deriving DecidableEq, Repr

/-- What an owner removed, by its own count. -/
abbrev Counts := List (String × Int)

structure ErasurePart where
  request : Nat
  owner : String
  state : PartState := .pending
  kind : OwnerKind := .remote
  receiptId : String := ""
  receiptAt : Option Time := none
  counts : Counts := []
  deadline : Option Time := none
  note : String := ""
  deriving DecidableEq, Repr

/-- The note `sweep_deletion_deadlines` leaves on a part it times out. -/
def timedOutNote : String := "owner did not confirm erasure before its deadline"

namespace ErasurePart

/-- `record_receipt()`, as `_record_local_receipts` calls it on the part it read: the
columns it saves. The counts are those of the object. -/
def recordReceipt (p : ErasurePart) (now : Time) (counts : Counts) : ErasurePart :=
  { p with state := .done, receiptId := s!"local:{now}", receiptAt := some now, counts := counts }

/-- The columns the conditional update of `mark_section_erased` writes. -/
def receive (p : ErasurePart) (now : Time) (correlationId : Uuid) (receiptId : String)
    (counts : Counts) : ErasurePart :=
  { p with
    state := .done
    receiptId := if receiptId = "" then s!"{p.owner}:{correlationId}" else receiptId
    receiptAt := some now
    counts := counts }

/-- The rows of that update: the owner's part, unless it is already DONE. -/
def awaits (p : ErasurePart) (request : Nat) (service : String) : Bool :=
  p.request = request && p.owner = service && p.state ≠ .done

/-- The columns the sweep's bulk update writes. -/
def timeOut (p : ErasurePart) : ErasurePart := { p with state := .timeout, note := timedOutNote }

/-- The rows of that update, at `now`. -/
def overdue (p : ErasurePart) (now : Time) : Bool :=
  p.state = .pending && p.deadline.any (· ≤ now)

theorem overdue_iff {p : ErasurePart} {now : Time} :
    p.overdue now = true ↔ p.state = .pending ∧ ∃ d, p.deadline = some d ∧ d ≤ now := by
  unfold overdue
  cases p.deadline <;> simp

theorem awaits_iff {p : ErasurePart} {request : Nat} {service : String} :
    p.awaits request service = true ↔
      p.request = request ∧ p.owner = service ∧ p.state ≠ .done := by
  simp [awaits, and_assoc]

end ErasurePart

inductive Outcome
  | pending
  | complete
  | incomplete
  deriving DecidableEq, Repr

/-! ### The subprocessor ledger, legal holds, re-registration hashes -/

inductive ObligationState
  | pending
  | confirmed
  | overdue
  deriving DecidableEq, Repr

structure SubprocessorObligation where
  request : Nat
  provider : String
  windowDays : Int := 0
  recordedAt : Time
  dueAt : Time
  state : ObligationState := .pending
  deriving DecidableEq, Repr

structure LegalHold where
  userId : UserId
  reason : String
  releasedAt : Option Time := none
  deriving DecidableEq, Repr

inductive HashType
  | email
  | phone
  deriving DecidableEq, Repr

inductive HashScheme
  | hmacV1
  | legacy
  | unverified
  deriving DecidableEq, Repr

structure ReRegistrationHash where
  hashType : HashType
  hashValue : String
  scheme : HashScheme := .unverified
  userIdWas : String
  createdAt : Time
  expiresAt : Time
  deriving DecidableEq, Repr

end StapelGdpr
