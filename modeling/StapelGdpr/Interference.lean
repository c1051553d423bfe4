import StapelGdpr.Certificate
import StapelGdpr.Statements

/-!
# StapelGdpr.Interference

What a statement of any call does while other calls run beside it.

The guards of `Move` are things a call has read, and beside others most of them may have
changed by the time the statement runs. `Act` keeps of each guard what no call can undo: the
columns a row was opened with, a flag that is set, a full set of receipts. `Persists` is what
no call can undo, and no act does (`Act.persists`).
-/

namespace StapelGdpr

open Prog

/-! ### What nobody undoes -/

/-- A closure keeps whose it is, why and until when, and its marks stay. -/
structure ClosurePersists (c c' : AccountClosureRequest) : Prop where
  userId : c'.userId = c.userId
  trigger : c'.trigger = c.trigger
  initiatedAt : c'.initiatedAt = c.initiatedAt
  graceEndsAt : c'.graceEndsAt = c.graceEndsAt
  localErasureDone : c.localErasureDone = true → c'.localErasureDone = true
  identityErasedAt : c.identityErasedAt.isSome = true → c'.identityErasedAt.isSome = true
  cancelledAt : c.cancelledAt.isSome = true → c'.cancelledAt.isSome = true

/-- A request keeps everything but the three columns of its outcome. -/
structure RequestPersists (r r' : ErasureRequest) : Prop where
  columns : r' = { r with
    state := r'.state, completedAt := r'.completedAt, completenessWaived := r'.completenessWaived }
  completedAt : r.completedAt.isSome = true → r'.completedAt.isSome = true

/-- A part keeps its slot and its clock, and a receipt is not taken back. -/
structure PartPersists (p p' : ErasurePart) : Prop where
  request : p'.request = p.request
  owner : p'.owner = p.owner
  kind : p'.kind = p.kind
  deadline : p'.deadline = p.deadline
  done : p.state = .done → p'.state = .done

/-- What no statement of any call undoes, whatever the call had read. -/
structure Persists (a b : Db) : Prop where
  closures : a.closures.Evolves (fun _ => ClosurePersists) (fun _ _ => True) b.closures
  requests : a.requests.Evolves (fun _ => RequestPersists) (fun _ _ => True) b.requests
  parts : a.parts.Evolves (fun _ => PartPersists) (fun _ p => a.requests.nextPk ≤ p.request)
    b.parts
  outbox : a.outbox <+: b.outbox

variable {env : Env} {op : Op} {a b c db db' : Db} {pk : Nat}

theorem ClosurePersists.refl (c : AccountClosureRequest) : ClosurePersists c c :=
  ⟨rfl, rfl, rfl, rfl, id, id, id⟩

theorem ClosurePersists.trans {c c' c'' : AccountClosureRequest} (h : ClosurePersists c c')
    (h' : ClosurePersists c' c'') : ClosurePersists c c'' where
  userId := h'.userId.trans h.userId
  trigger := h'.trigger.trans h.trigger
  initiatedAt := h'.initiatedAt.trans h.initiatedAt
  graceEndsAt := h'.graceEndsAt.trans h.graceEndsAt
  localErasureDone := h'.localErasureDone ∘ h.localErasureDone
  identityErasedAt := h'.identityErasedAt ∘ h.identityErasedAt
  cancelledAt := h'.cancelledAt ∘ h.cancelledAt

theorem RequestPersists.refl (r : ErasureRequest) : RequestPersists r r := ⟨rfl, id⟩

theorem RequestPersists.trans {r r' r'' : ErasureRequest} (h : RequestPersists r r')
    (h' : RequestPersists r' r'') : RequestPersists r r'' where
  columns := by
    rw [h'.columns, h.columns]
  completedAt := h'.completedAt ∘ h.completedAt

theorem RequestPersists.subjectType {r r' : ErasureRequest} (h : RequestPersists r r') :
    r'.subjectType = r.subjectType := by rw [h.columns]

theorem RequestPersists.closure {r r' : ErasureRequest} (h : RequestPersists r r') :
    r'.closure = r.closure := by rw [h.columns]

theorem RequestPersists.correlationId {r r' : ErasureRequest} (h : RequestPersists r r') :
    r'.correlationId = r.correlationId := by rw [h.columns]

theorem PartPersists.refl (p : ErasurePart) : PartPersists p p := ⟨rfl, rfl, rfl, rfl, id⟩

theorem PartPersists.trans {p p' p'' : ErasurePart} (h : PartPersists p p')
    (h' : PartPersists p' p'') : PartPersists p p'' where
  request := h'.request.trans h.request
  owner := h'.owner.trans h.owner
  kind := h'.kind.trans h.kind
  deadline := h'.deadline.trans h.deadline
  done := h'.done ∘ h.done

theorem Persists.refl (a : Db) : Persists a a where
  closures := .refl fun _ c _ => .refl c
  requests := .refl fun _ r _ => .refl r
  parts := .refl fun _ p _ => .refl p
  outbox := List.prefix_rfl

theorem Persists.trans (h : Persists a b) (h' : Persists b c) : Persists a c where
  closures := h.closures.trans h'.closures (fun _ _ _ _ => .trans) fun _ _ _ _ _ => trivial
  requests := h.requests.trans h'.requests (fun _ _ _ _ => .trans) fun _ _ _ _ _ => trivial
  parts := h.parts.comp h'.parts (fun _ _ _ _ => .trans)
    (fun _ _ _ hnew hkept => hkept.request.symm ▸ hnew)
    fun _ _ hnew => h.requests.nextPk_le.trans hnew
  outbox := h.outbox.trans h'.outbox

/-- What the host writes is not among it. -/
theorem Persists.host (users : List User) (holds : Table LegalHold)
    (hashes : List ReRegistrationHash) :
    Persists a { a with users := users, holds := holds, hashes := hashes } where
  closures := .refl fun _ c _ => .refl c
  requests := .refl fun _ r _ => .refl r
  parts := .refl fun _ p _ => .refl p
  outbox := List.prefix_rfl

/-- A full set of receipts stays full: later slots belong to later requests. -/
theorem Persists.allDone (h : Persists a b) {r : ErasureRequest}
    (hr : a.requests.get? pk = some r) (hall : AllDone a.toLedger pk) : AllDone b.toLedger pk := by
  intro i p' hp' hreq
  rcases h.parts.row hp' with ⟨p, hp, hkept⟩ | ⟨-, hnew⟩
  · exact hkept.done (hall i p hp (hkept.request.symm.trans hreq))
  · have hlt := Table.get?_lt hr
    rw [hreq] at hnew
    omega

/-- A closure that was erased locally stays erased. -/
theorem Persists.closureErased (h : Persists a b) {r r' : ErasureRequest}
    (hclosure : r'.closure = r.closure) (he : ClosureErased a.toLedger r) :
    ClosureErased b.toLedger r' := by
  intro k hk
  obtain ⟨c, hc, hlocal, hid⟩ := he k (hclosure.symm.trans hk)
  obtain ⟨c', hc', hkept⟩ := h.closures.kept hc
  exact ⟨c', hc', hkept.localErasureDone hlocal, hkept.identityErasedAt hid⟩

/-- The registry's word is about the settings, and receipts are not taken back. -/
theorem Persists.complete (h : Persists a b) {r : ErasureRequest} {subjectType : String}
    (hr : a.requests.get? pk = some r) (hc : Complete env a.toLedger pk subjectType) :
    Complete env b.toLedger pk subjectType := by
  obtain ⟨hsound, hclaimed, hreceipts⟩ := hc
  exact ⟨hsound, hclaimed, Ledger.unreceiptedOwners_eq_nil.mpr
    (h.allDone hr (Ledger.unreceiptedOwners_eq_nil.mp hreceipts))⟩

/-! ### Copies -/

/-- The object was read from the row it names, now or earlier. -/
def ClosureCopy (closure : Stored AccountClosureRequest) (db : Db) : Prop :=
  ∃ c, db.closures.get? closure.pk = some c ∧ ClosurePersists closure.row c

def RequestCopy (request : Stored ErasureRequest) (db : Db) : Prop :=
  ∃ r, db.requests.get? request.pk = some r ∧ RequestPersists request.row r

theorem ClosureCopy.persists {closure : Stored AccountClosureRequest} (h : ClosureCopy closure a)
    (hp : Persists a b) : ClosureCopy closure b := by
  obtain ⟨c, hc, hcopy⟩ := h
  obtain ⟨c', hc', hkept⟩ := hp.closures.kept hc
  exact ⟨c', hc', hcopy.trans hkept⟩

theorem RequestCopy.persists {request : Stored ErasureRequest} (h : RequestCopy request a)
    (hp : Persists a b) : RequestCopy request b := by
  obtain ⟨r, hr, hcopy⟩ := h
  obtain ⟨r', hr', hkept⟩ := hp.requests.kept hr
  exact ⟨r', hr', hcopy.trans hkept⟩

theorem RequestCopy.read {request : Stored ErasureRequest}
    (h : db.requests.get? request.pk = some request.row) : RequestCopy request db :=
  ⟨_, h, .refl _⟩

theorem ClosureCopy.read {closure : Stored AccountClosureRequest}
    (h : db.closures.get? closure.pk = some closure.row) : ClosureCopy closure db :=
  ⟨_, h, .refl _⟩

/-! ### Statements -/

/-- May these settings certify at all, with a waiver or without one? -/
structure Env.MayCertify (env : Env) (waived : Bool) : Prop where
  sound : waived = false → env.report.problems = []
  hatch : waived = true → env.settings.allowErasureWithoutReceipts = true

/-- A row that a statement adds to the memory is a hash of this component's own. -/
def OwnHashes (op : Op) (old new : List ReRegistrationHash) : Prop :=
  ∀ h ∈ new, h ∈ old ∨ (∃ userId, op = .storeHash userId) ∧ h.scheme = .hmacV1

/-- Does the unit of `initiate_closure` refuse under this environment? -/
def Env.refusesClosure (env : Env) : Prop :=
  env.revocation = .none ∧ env.settings.allowClosureWithoutSessionRevocation = false

instance (env : Env) : Decidable env.refusesClosure :=
  inferInstanceAs (Decidable (_ ∧ _))

/-- The statements of the component beside others, by label. -/
inductive Act (env : Env) : Op → Db → Db → Prop
  /-- Queries, provider calls, failed steps; writes of user rows and hashes. -/
  | elsewhere {op : Op} {db : Db} (users : List User) (hashes : List ReRegistrationHash)
      (hown : OwnHashes op db.hashes hashes) :
      Act env op db { db with users := users, hashes := hashes }
  | closureOpened {db : Db} (userId : UserId) (trigger : ClosureTrigger) (users : List User)
      (hallowed : ¬ env.refusesClosure) :
      Act env (.closureUnit userId) db { db with
        closures := db.closures.insert (newClosure env userId trigger)
        users := users
        outbox := db.outbox ++ [.sessionsRevoked userId "gdpr_closure",
          .deletionInitiated userId trigger (newClosure env userId trigger).graceEndsAt] }
  | closureCancelled {db : Db} {pk : Nat} {c : AccountClosureRequest} (users : List User)
      (hc : db.closures.get? pk = some c) :
      Act env (.cancelUnit pk) db { db with
        closures := db.closures.modify pk (·.cancel env.now)
        users := users, outbox := db.outbox ++ [.deletionCancelled c.userId env.now c.trigger] }
  | deletionStarted {db : Db} (pk : Nat) (correlationId : Uuid) (uuids : Nat) :
      Act env (.startDeleting pk) db { db with
        closures := db.closures.modify pk (·.startDeleting correlationId env.report.version)
        uuids := uuids }
  | erasureOpened {db db' : Db} {subjectType subjectKey : String} {args : ErasureArgs}
      {request : Stored ErasureRequest}
      (h : db.openErasure env subjectType subjectKey args = .ok (request, db')) :
      Act env (.erasureUnit subjectType subjectKey) db db'
  | localReceipt {db : Db} (pk : Nat) (counts : Counts) :
      Act env (.localReceipt pk) db { db with
        parts := db.parts.modify pk (·.recordReceipt env.now counts) }
  | identityErased {db : Db} (pk : Nat) :
      Act env (.identityErased pk) db { db with
        closures := db.closures.modify pk (·.eraseIdentity env.now) }
  | localDone {db : Db} {pk : Nat} {c : AccountClosureRequest} (correlationId : Uuid)
      (hc : db.closures.get? pk = some c) (hidentity : c.identityErasedAt.isSome = true) :
      Act env (.localDoneUnit pk) db { db with
        closures := db.closures.modify pk (·.finishLocal)
        outbox := db.outbox ++ [.userDeleted c.userId correlationId c.trigger] }
  | receipted {db : Db} (request : Nat) (service : String) (correlationId : Uuid)
      (receiptId : String) (counts : Counts) :
      Act env (.receipt request service) db { db with
        parts := db.parts.update (·.awaits request service)
          (·.receive env.now correlationId receiptId counts) }
  | certified {db : Db} {pk : Nat} {r : ErasureRequest} {waived : Bool}
      (hr : db.requests.get? pk = some r) (hclosure : ClosureErased db.toLedger r)
      (hcomplete : waived = false → Complete env db.toLedger pk r.subjectType)
      (hhatch : waived = true → env.settings.allowErasureWithoutReceipts = true) :
      Act env (.certify pk) db { db with
        requests := db.requests.modify pk (·.certify env.now waived) }
  | obligation {db : Db} (request : Nat) (provider : String) (o : SubprocessorObligation) :
      Act env (.obligation request provider) db { db with
        obligations := db.obligations.insert o }
  | closureDeleted {db : Db} {pk : Nat} {c : AccountClosureRequest} (waived : Bool)
      (hc : db.closures.get? pk = some c) (hlocal : c.localErasureDone = true)
      (hidentity : c.identityErasedAt.isSome = true) (hmay : env.MayCertify waived) :
      Act env (.closureDeleted pk) db { db with
        closures := db.closures.modify pk (·.delete env.now waived) }
  | partsTimedOut {db : Db} :
      Act env .sweepParts db { db with
        parts := db.parts.update (·.overdue env.now) (·.timeOut) }
  | requestTimedOut {db : Db} {pk : Nat} {r : ErasureRequest} (owners : List String)
      (hr : db.requests.get? pk = some r) :
      Act env (.timeoutUnit pk) db { db with
        requests := db.requests.modify pk (·.timeOut)
        outbox := db.outbox ++ [.erasureTimeout pk r.correlationId r.subjectType r.subjectKey
          owners r.dueAt] }

theorem Act.idle : Act env op db db := .elsewhere db.users db.hashes fun _ => .inl

/-- One part across one statement. -/
inductive PartAct : ErasurePart → ErasurePart → Prop
  | same (p : ErasurePart) : PartAct p p
  | receipted {p p' : ErasurePart} (hdone : p'.state = .done) (hid : p'.receiptId ≠ "")
      (hat : p'.receiptAt.isSome = true)
      (hkept : p' = { p with
        state := p'.state, receiptId := p'.receiptId, receiptAt := p'.receiptAt,
        counts := p'.counts }) : PartAct p p'
  | timedOut {p : ErasurePart} (hpending : p.state = .pending) : PartAct p p.timeOut

/-- One request across one statement on `db`. -/
inductive RequestAct (env : Env) (db : Db) (pk : Nat) : ErasureRequest → ErasureRequest → Prop
  | same (r : ErasureRequest) : RequestAct env db pk r r
  | certified {r : ErasureRequest} {waived : Bool} (hclosure : ClosureErased db.toLedger r)
      (hcomplete : waived = false → Complete env db.toLedger pk r.subjectType)
      (hhatch : waived = true → env.settings.allowErasureWithoutReceipts = true) :
      RequestAct env db pk r (r.certify env.now waived)
  | timedOut (r : ErasureRequest) : RequestAct env db pk r r.timeOut

/-- One closure across one statement. -/
inductive ClosureAct (env : Env) : AccountClosureRequest → AccountClosureRequest → Prop
  | same (c : AccountClosureRequest) : ClosureAct env c c
  | cancelled (c : AccountClosureRequest) (now : Time) : ClosureAct env c (c.cancel now)
  | started (c : AccountClosureRequest) (correlationId : Uuid) (version : String) :
      ClosureAct env c (c.startDeleting correlationId version)
  | identityErased (c : AccountClosureRequest) (now : Time) :
      ClosureAct env c (c.eraseIdentity now)
  | localDone {c : AccountClosureRequest} (hidentity : c.identityErasedAt.isSome = true) :
      ClosureAct env c c.finishLocal
  | deleted {c : AccountClosureRequest} (now : Time) (waived : Bool)
      (hlocal : c.localErasureDone = true) (hidentity : c.identityErasedAt.isSome = true)
      (hmay : env.MayCertify waived) : ClosureAct env c (c.delete now waived)

/-- A request as it is opened. -/
structure OpenedRow (env : Env) (db : Db) (pk : Nat) (r : ErasureRequest) : Prop where
  key : pk = db.requests.nextPk
  row : ∃ args st sk requestedBy correlationId,
    r = ErasureArgs.row args env st sk requestedBy correlationId

theorem Act.parts (h : Act env op db db') : db.parts.Evolves (fun _ => PartAct)
    (fun _ p => ∃ o : DataOwner, p = o.part db.requests.nextPk env.now) db'.parts := by
  have hsame : ∀ (i : Nat) (p : ErasurePart), db.parts.get? i = some p → PartAct p p :=
    fun _ p _ => .same p
  cases h with
  | erasureOpened ho =>
      obtain ⟨by', -, -, -, -, hdb⟩ := openErasure_ok ho
      rw [hdb]
      refine .insertAll hsame fun _ p hp => ?_
      obtain ⟨o, -, rfl⟩ := mem_slots.mp hp
      exact ⟨o, rfl⟩
  | localReceipt pk counts =>
      exact .modify (fun i p hi _ => hsame i p hi) fun p _ =>
        .receipted rfl (recordReceipt_receiptId p env.now counts) rfl rfl
  | receipted request service correlationId receiptId counts =>
      refine .update fun i p _ => ?_
      split
      · exact .receipted rfl (receive_receiptId p env.now correlationId receiptId counts) rfl rfl
      · exact .same p
  | partsTimedOut =>
      refine .update fun i p _ => ?_
      split
      · rename_i hover
        exact .timedOut (ErasurePart.overdue_iff.mp hover).1
      · exact .same p
  | _ => exact .refl hsame

theorem Act.requests (h : Act env op db db') :
    db.requests.Evolves (RequestAct env db) (OpenedRow env db) db'.requests := by
  have hsame : ∀ (i : Nat) (r : ErasureRequest), db.requests.get? i = some r →
      RequestAct env db i r r := fun _ r _ => .same r
  cases h with
  | erasureOpened ho =>
      obtain ⟨by', -, hrow, -, -, hdb⟩ := openErasure_ok ho
      rw [hdb]
      exact .insert hsame ⟨rfl, _, _, _, _, _, by rw [hrow]⟩
  | certified hr hclosure hcomplete hhatch =>
      refine .modify (fun i r hi _ => hsame i r hi) fun r hget => ?_
      obtain rfl := Option.some.inj (hr.symm.trans hget)
      exact .certified hclosure hcomplete hhatch
  | requestTimedOut owners hr =>
      exact .modify (fun i r hi _ => hsame i r hi) fun r _ => .timedOut r
  | _ => exact .refl hsame

theorem Act.closures (h : Act env op db db') :
    db.closures.Evolves (fun _ => ClosureAct env)
      (fun pk c => pk = db.closures.nextPk ∧ ¬ env.refusesClosure ∧
        ∃ userId trigger, c = newClosure env userId trigger) db'.closures := by
  have hsame : ∀ (i : Nat) (c : AccountClosureRequest), db.closures.get? i = some c →
      ClosureAct env c c := fun _ c _ => .same c
  have hwrite : ∀ {pk : Nat} {f : AccountClosureRequest → AccountClosureRequest},
      (∀ c, db.closures.get? pk = some c → ClosureAct env c (f c)) →
      db.closures.Evolves (fun _ => ClosureAct env)
        (fun pk c => pk = db.closures.nextPk ∧ ¬ env.refusesClosure ∧
          ∃ userId trigger, c = newClosure env userId trigger) (db.closures.modify pk f) :=
    fun hf => .modify (fun i c hi _ => hsame i c hi) hf
  cases h with
  | closureOpened userId trigger users hallowed =>
      exact .insert hsame ⟨rfl, hallowed, userId, trigger, rfl⟩
  | erasureOpened ho =>
      obtain ⟨by', -, -, -, -, hdb⟩ := openErasure_ok ho
      rw [hdb]
      exact .refl hsame
  | closureCancelled users hc => exact hwrite fun c _ => .cancelled c env.now
  | deletionStarted pk correlationId uuids => exact hwrite fun c _ => .started c correlationId _
  | identityErased pk => exact hwrite fun c _ => .identityErased c env.now
  | localDone correlationId hc hidentity =>
      refine hwrite fun c hget => ?_
      obtain rfl := Option.some.inj (hc.symm.trans hget)
      exact .localDone hidentity
  | closureDeleted waived hc hlocal hidentity hmay =>
      refine hwrite fun c hget => ?_
      obtain rfl := Option.some.inj (hc.symm.trans hget)
      exact .deleted env.now waived hlocal hidentity hmay
  | _ => exact .refl hsame

theorem PartAct.persists {p p' : ErasurePart} (h : PartAct p p') : PartPersists p p' := by
  cases h with
  | same => exact .refl p
  | receipted hdone hid hat hkept =>
      exact ⟨by rw [hkept], by rw [hkept], by rw [hkept], by rw [hkept], fun _ => hdone⟩
  | timedOut hpending =>
      exact ⟨rfl, rfl, rfl, rfl, fun hdone => absurd (hdone.symm.trans hpending) (by simp)⟩

theorem RequestAct.persists {r r' : ErasureRequest} (h : RequestAct env db pk r r') :
    RequestPersists r r' := by
  cases h with
  | same => exact .refl r
  | certified => exact ⟨rfl, fun _ => rfl⟩
  | timedOut => exact ⟨rfl, id⟩

theorem ClosureAct.persists {c c' : AccountClosureRequest} (h : ClosureAct env c c') :
    ClosurePersists c c' := by
  cases h with
  | same => exact .refl c
  | cancelled => exact ⟨rfl, rfl, rfl, rfl, id, id, fun _ => rfl⟩
  | started => exact ⟨rfl, rfl, rfl, rfl, id, id, id⟩
  | identityErased => exact ⟨rfl, rfl, rfl, rfl, id, fun _ => rfl, id⟩
  | localDone => exact ⟨rfl, rfl, rfl, rfl, fun _ => rfl, id, id⟩
  | deleted => exact ⟨rfl, rfl, rfl, rfl, id, id, id⟩

/-- What was announced stays announced. -/
theorem Act.outbox (h : Act env op db db') : db.outbox <+: db'.outbox := by
  cases h with
  | erasureOpened ho =>
      obtain ⟨by', -, -, -, -, hdb⟩ := openErasure_ok ho
      rw [hdb]
      exact List.prefix_append _ _
  | closureOpened | closureCancelled | localDone | requestTimedOut =>
      exact List.prefix_append _ _
  | _ => exact List.prefix_rfl

/-- **No statement undoes what persists.** -/
theorem Act.persists (h : Act env op db db') : Persists db db' where
  closures := h.closures.mono (fun _ _ _ => ClosureAct.persists) fun _ _ _ => trivial
  requests := h.requests.mono (fun _ _ _ => RequestAct.persists) fun _ _ _ => trivial
  parts := h.parts.mono (fun _ _ _ => PartAct.persists) fun _ p hnew => by
    obtain ⟨o, rfl⟩ := hnew
    exact le_rfl
  outbox := h.outbox

end StapelGdpr
