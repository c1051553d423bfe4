import StapelGdpr.Orchestrator
import StapelGdpr.Export.Orchestrator

/-!
# StapelGdpr.Dsar

The intake of data-subject requests: `DsarRequest` of `models.py`, `dsar.py`, the staff view
that triages a request, and `sweep_dsar_deadlines` of `tasks.py`.

A `Desk` is the store of both orchestrators with the requests beside them. `wireDsar` runs
the real `initiateClosure` and `requestExport` on their parts of it.
-/

namespace StapelGdpr

open Export (ExportDb ExportOp ExportError Exporter)

/-! ### The model -/

inductive DsarKind
  | access | erasure | rectification | portability
  deriving DecidableEq, Repr

inductive DsarChannel
  | app | form | email
  deriving DecidableEq, Repr

inductive DsarState
  | received | acknowledged | inProgress | resolved | rejected
  deriving DecidableEq, Repr

/-- `STATE_CHOICES`, by their stored values. -/
def DsarState.choices : List (String × DsarState) :=
  [("received", .received), ("acknowledged", .acknowledged), ("in_progress", .inProgress),
    ("resolved", .resolved), ("rejected", .rejected)]

/-- `datetime.weekday()`: Monday is 0; the epoch was a Thursday. -/
def weekday (moment : Time) : Int := (moment / days 1 + 3) % 7

theorem weekday_next (moment : Time) : weekday (moment + days 1) = (weekday moment + 1) % 7 := by
  unfold weekday
  have hday : (moment + days 1) / days 1 = moment / days 1 + 1 :=
    Int.add_ediv_of_dvd_right (Int.dvd_refl _) |>.trans (by rw [Int.ediv_self (by decide)])
  rw [hday]
  omega

/-- `business_days_from`. -/
def businessDaysFrom (moment : Time) (remaining : Nat) : Time :=
  if remaining = 0 then moment
  else if weekday (moment + days 1) < 5 then
    businessDaysFrom (moment + days 1) (remaining - 1)
  else businessDaysFrom (moment + days 1) remaining
termination_by (remaining, (7 - weekday moment).toNat)
decreasing_by
  · exact Prod.Lex.left _ _ (by omega)
  · -- no working day follows: it is Friday or Saturday, and Sunday is nearer
    have hnext := weekday_next moment
    have hlow : 0 ≤ weekday moment := Int.emod_nonneg _ (by decide)
    have hhigh : weekday moment < 7 := Int.emod_lt_of_pos _ (by decide)
    refine Prod.Lex.right _ ?_
    omega

structure DsarRequest where
  kind : DsarKind
  channel : DsarChannel
  subjectEmail : String
  userId : Option UserId
  receivedAt : Time
  ackDueAt : Time
  ackSentAt : Option Time := none
  resolveDueAt : Time
  erasureRequest : Option Nat := none
  exportRequest : Option Nat := none
  state : DsarState := .received
  note : String
  /-- Idempotency mark of `sweep_dsar_deadlines`. -/
  overdueNotifiedAt : Option Time := none
  deriving DecidableEq, Repr

def DsarRequest.ackBusinessDays : Nat := 3
def DsarRequest.resolveDays : Int := 30

/-- `state__in=open_states`. -/
def DsarRequest.isOpen (r : DsarRequest) : Bool :=
  r.state ∈ [DsarState.received, .acknowledged, .inProgress]

inductive DsarDeadline
  | acknowledgement | resolution
  deriving DecidableEq, Repr

/-- The action `gdpr.dsar.overdue`, with its payload. -/
structure DsarOverdue where
  dsarId : Nat
  kind : DsarKind
  channel : DsarChannel
  state : DsarState
  deadline : DsarDeadline
  dueAt : Time
  receivedAt : Time
  deriving DecidableEq, Repr

/-! ### The store -/

structure Desk where
  core : Db := {}
  exports : ExportDb := {}
  dsars : Table DsarRequest := {}
  /-- Committed `gdpr.dsar.overdue` actions, oldest first. -/
  overdue : List DsarOverdue := []
  deriving DecidableEq

inductive DeskError
  | core (e : Error)
  | exports (e : ExportError)
  | validationError
  | doesNotExist
  /-- Anything else. -/
  | failure
  deriving DecidableEq, Repr

inductive DeskOp
  | select
  | createDsar
  /-- `request_notification`. -/
  | notify (notificationType email : String)
  /-- `dsar.save(update_fields=...)`. -/
  | saveDsar (dsar : Nat)
  /-- A statement of `initiate_closure`. -/
  | core (op : Op)
  /-- A statement of `request_export`. -/
  | exports (op : ExportOp)
  /-- `run_data_export.delay`. -/
  | dispatch (request : Nat)
  /-- The unit of the mark and `gdpr.dsar.overdue`. -/
  | overdueUnit (dsar : Nat) (deadline : DsarDeadline)
  deriving DecidableEq, Repr

/-- A call of the intake, with result `α`. -/
abbrev DeskProgram (α : Type) := Prog DeskOp Desk DeskError α

/-- A query. -/
def DeskProgram.select {α : Type} (g : Desk → α) : DeskProgram α := Prog.query .select g

/-- A call of the orchestrator, made from the intake. -/
def DeskProgram.ofCore {α : Type} (p : Program α) : DeskProgram α :=
  p.lift Desk.core (fun core desk => { desk with core := core }) .core .core fun e =>
    match e with
    | .core e => e
    | _ => .failure

/-- A call of the export side, made from the intake. -/
def DeskProgram.ofExports {α : Type} (p : Export.ExportProgram α) : DeskProgram α :=
  p.lift Desk.exports (fun exports desk => { desk with exports := exports }) .exports .exports
    fun e =>
      match e with
      | .exports e => e
      | _ => .failure "database"

/-- What a call of the intake finds around it. -/
structure DeskEnv where
  exporter : Exporter := {}
  /-- `DSAR_STAFF_EMAILS`. -/
  staffEmails : List String := []
  /-- What `request_notification` answers, when it does not raise. -/
  queues : Bool := true
  /-- `str(e)`. -/
  str : DeskError → String := fun _ => ""

def DeskEnv.env (env : DeskEnv) : Env := env.exporter.env

/-! ### Intake -/

/-- `dsar.save(update_fields=...)`: the object's values of these fields. -/
def saveDsar (dsar : Stored DsarRequest) (fields : DsarRequest → DsarRequest → DsarRequest) :
    DeskProgram Unit :=
  Prog.write (.saveDsar dsar.pk) fun desk =>
    { desk with dsars := desk.dsars.modify dsar.pk (fields dsar.row) }

/-- `update_fields=["ack_sent_at", "state"]`. -/
def ackFields (r row : DsarRequest) : DsarRequest :=
  { row with ackSentAt := r.ackSentAt, state := r.state }

/-- `update_fields=["note"]`. -/
def noteFields (r row : DsarRequest) : DsarRequest := { row with note := r.note }

/-- `update_fields=["note", "state"]`. -/
def closureFields (r row : DsarRequest) : DsarRequest :=
  { row with note := r.note, state := r.state }

/-- `update_fields=["export_request", "state"]`. -/
def exportFields (r row : DsarRequest) : DsarRequest :=
  { row with exportRequest := r.exportRequest, state := r.state }

/-- `_acknowledge`: the object it leaves. -/
def acknowledge (env : DeskEnv) (dsar : Stored DsarRequest) : DeskProgram (Stored DsarRequest) := do
  let request : DeskProgram Bool := do
    Prog.external (.notify "gdpr.dsar.received" dsar.row.subjectEmail)
    return env.queues
  let queued ← request.tryCatch fun _ => return false
  if queued = false then return dsar
  else do
    let dsar : Stored DsarRequest :=
      { dsar with row := { dsar.row with ackSentAt := some env.env.now, state := .acknowledged } }
    saveDsar dsar ackFields
    return dsar

/-- `_notify_staff`. -/
def notifyStaff (env : DeskEnv) : DeskProgram PUnit :=
  env.staffEmails.forM fun email =>
    (Prog.external (.notify "gdpr.dsar.opened" email)).tryCatch fun _ => return ()

/-- `dsar.note = (dsar.note + text).strip()`. -/
def DsarRequest.append (r : DsarRequest) (text : String) : DsarRequest :=
  { r with note := strip (r.note ++ text) }

/-- The handlers of `wire_dsar`: the reason is kept on the row. -/
def notAutomated (env : DeskEnv) (dsar : Stored DsarRequest) (e : DeskError) :
    DeskProgram (Stored DsarRequest) := do
  let dsar := { dsar with row := dsar.row.append ("\nnot automated: " ++ env.str e) }
  saveDsar dsar noteFields
  return dsar

/-- The erasure branch of `wire_dsar`. -/
def wireErasure (env : DeskEnv) (dsar : Stored DsarRequest) (userId : UserId) :
    DeskProgram (Stored DsarRequest) := do
  let closure ← (DeskProgram.ofCore do
    let closure ← initiateClosure env.env userId .manual
    return Except.ok closure).tryCatch fun e => return .error e
  match closure with
  | .error e => notAutomated env dsar e
  | .ok closure => do
      let row := { dsar.row.append ("\nclosure=" ++ toString closure.pk) with
        state := .inProgress }
      let body : DeskProgram (Stored DsarRequest) := do
        saveDsar { dsar with row := row } closureFields
        return { dsar with row := row }
      body.tryCatch (notAutomated env { dsar with row := row })

/-- The access and portability branch of `wire_dsar`. -/
def wireExport (env : DeskEnv) (dsar : Stored DsarRequest) (userId : UserId) :
    DeskProgram (Stored DsarRequest) := do
  let dataExport ← (do
    let dataExport ← DeskProgram.ofExports (Export.requestExport env.exporter userId)
    Prog.external (.dispatch dataExport.pk)
    return Except.ok dataExport).tryCatch fun e => return .error e
  match dataExport with
  | .error e => notAutomated env dsar e
  | .ok dataExport => do
      let row := { dsar.row with exportRequest := some dataExport.pk, state := .inProgress }
      let body : DeskProgram (Stored DsarRequest) := do
        saveDsar { dsar with row := row } exportFields
        return { dsar with row := row }
      body.tryCatch (notAutomated env { dsar with row := row })

/-- `wire_dsar`: the object it leaves. -/
def wireDsar (env : DeskEnv) (dsar : Stored DsarRequest) : DeskProgram (Stored DsarRequest) :=
  match dsar.row.userId with
  | none => return dsar
  | some userId =>
      if dsar.row.erasureRequest ≠ none ∨ dsar.row.exportRequest ≠ none then return dsar
      else match dsar.row.kind with
        | .erasure => wireErasure env dsar userId
        | .access | .portability => wireExport env dsar userId
        | .rectification => return dsar

/-- `DsarRequest.save`: a new row with both clocks. -/
def newDsar (env : DeskEnv) (kind : DsarKind) (subjectEmail : String) (channel : DsarChannel)
    (userId : Option UserId) (note : String) : DsarRequest where
  kind := kind
  channel := channel
  subjectEmail := subjectEmail
  userId := userId
  receivedAt := env.env.now
  ackDueAt := businessDaysFrom env.env.now DsarRequest.ackBusinessDays
  resolveDueAt := env.env.now + days DsarRequest.resolveDays
  note := note

/-- `create_dsar`. -/
def createDsar (env : DeskEnv) (kind : DsarKind) (subjectEmail : String) (channel : DsarChannel)
    (userId : Option UserId) (note : String) : DeskProgram (Stored DsarRequest) := do
  let dsar ← Prog.atomic .createDsar fun desk =>
    let row := newDsar env kind subjectEmail channel userId note
    .ok (⟨desk.dsars.nextPk, row⟩, { desk with dsars := desk.dsars.insert row })
  let dsar ← acknowledge env dsar
  notifyStaff env
  wireDsar env dsar

/-! ### Triage -/

/-- What the staff view answers. -/
inductive PatchAnswer
  | notFound | badRequest
  | updated (row : DsarRequest)
  deriving DecidableEq, Repr

/-- The fields of a PATCH body; an absent one is `none`. -/
structure DsarPatch where
  state : Option String := none
  note : Option String := none
  userId : Option String := none

/-- `DsarDetailView.patch`, up to its `save`: the object, unless the state is none of the
choices. A truthy `user_id` matches the request to an account. -/
def DsarPatch.apply (patch : DsarPatch) (r : DsarRequest) : Option DsarRequest := do
  let state ← match patch.state with
    | none => some r.state
    | some text => DsarState.choices.lookup text
  return { r with state := state, note := patch.note.getD r.note }

/-- The account a PATCH names, when it names one. -/
def DsarPatch.matches (patch : DsarPatch) : Option String :=
  patch.userId.filter (· ≠ "")

/-- The columns a PATCH writes. -/
def DsarPatch.fields (patch : DsarPatch) (r row : DsarRequest) : DsarRequest :=
  { row with
    state := if patch.state = none then row.state else r.state
    note := if patch.note = none then row.note else r.note
    userId := if patch.matches = none then row.userId else r.userId }

/-- `DsarDetailView.patch`. -/
def patchDsar (env : DeskEnv) (pk : Nat) (patch : DsarPatch) : DeskProgram PatchAnswer := do
  let found ← DeskProgram.select (·.dsars.get? pk)
  match found with
  | none => return .notFound
  | some row =>
      match patch.apply row with
      | none => return .badRequest
      | some changed =>
          match patch.matches with
          | none => do
              if patch.state ≠ none ∨ patch.note ≠ none then saveDsar ⟨pk, changed⟩ patch.fields
              else pure ()
              return .updated changed
          | some text =>
              match env.env.host.parseUuid text with
              | none => Prog.raise .validationError
              | some userId => do
                  let changed := { changed with userId := some userId }
                  saveDsar ⟨pk, changed⟩ patch.fields
                  let _ ← wireDsar env ⟨pk, changed⟩
                  let fresh ← DeskProgram.select (·.dsars.get? pk)
                  match fresh with
                  | none => Prog.raise .doesNotExist
                  | some fresh => return .updated fresh

/-! ### The sweep -/

/-- `Meta.ordering`: the latest request first. -/
def latestFirst (rows : List (Stored DsarRequest)) : List (Stored DsarRequest) :=
  rows.insertionSort fun r r' => r'.row.receivedAt ≤ r.row.receivedAt

/-- The acknowledgement is owed: the request is open, the deadline over, nothing sent. -/
def DsarRequest.unacknowledged (r : DsarRequest) (now : Time) : Bool :=
  r.ackSentAt = none && r.ackDueAt ≤ now && r.isOpen

/-- The answer is owed: the request is open and the deadline over. -/
def DsarRequest.unresolved (r : DsarRequest) (now : Time) : Bool :=
  r.resolveDueAt ≤ now && r.isOpen

/-- Is the clock missed? -/
def DsarRequest.missed (r : DsarRequest) (deadline : DsarDeadline) (now : Time) : Bool :=
  match deadline with
  | .acknowledgement => r.unacknowledged now
  | .resolution => r.unresolved now

def DsarRequest.dueAt (r : DsarRequest) : DsarDeadline → Time
  | .acknowledgement => r.ackDueAt
  | .resolution => r.resolveDueAt

/-- One of the two queries of `sweep_dsar_deadlines`. -/
def Desk.owed (desk : Desk) (deadline : DsarDeadline) (now : Time) : List (Stored DsarRequest) :=
  latestFirst (desk.dsars.select fun r => r.missed deadline now && r.overdueNotifiedAt = none)

/-- The payload of `_emit`. -/
def overduePayload (deadline : DsarDeadline) (dsar : Stored DsarRequest) : DsarOverdue where
  dsarId := dsar.pk
  kind := dsar.row.kind
  channel := dsar.row.channel
  state := dsar.row.state
  deadline := deadline
  dueAt := dsar.row.dueAt deadline
  receivedAt := dsar.row.receivedAt

/-- `_emit`. -/
def Desk.announce (desk : Desk) (now : Time) (deadline : DsarDeadline)
    (dsar : Stored DsarRequest) : Desk :=
  { desk with
    dsars := desk.dsars.modify dsar.pk fun r => { r with overdueNotifiedAt := some now }
    overdue := desk.overdue ++ [overduePayload deadline dsar] }

/-- `sweep_dsar_deadlines`. -/
def sweepDsarDeadlines (now : Time) : DeskProgram Nat := do
  let unacknowledged ← DeskProgram.select (·.owed .acknowledgement now)
  unacknowledged.forM fun dsar =>
    Prog.write (.overdueUnit dsar.pk .acknowledgement) (·.announce now .acknowledgement dsar)
  let unresolved ← DeskProgram.select (·.owed .resolution now)
  unresolved.forM fun dsar =>
    Prog.write (.overdueUnit dsar.pk .resolution) (·.announce now .resolution dsar)
  return unacknowledged.length + unresolved.length

end StapelGdpr
