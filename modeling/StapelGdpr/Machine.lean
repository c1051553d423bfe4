import StapelGdpr.Tasks

/-!
# StapelGdpr.Machine

The erasure machine: what one database statement of any call may do.

`Move env op db db'` is the step relation of the component, written from what it is for:
each constructor is one kind of step with the guard under which it may be taken. The
certifying step is the one that carries the promise — a request is flipped only while it
is open, with its closure's own erasure finished, and, unless the hatch is on, against a
sound registry and a full set of receipts.

`Refinement` proves that every statement of every call is a `Move`; the invariants of the
component are proved once, over `Move`. They are read off three relations that say what
may become of a row: `PartStep`, `RequestStep`, `ClosureStep`.
-/

namespace StapelGdpr

/-- Certification without waiver: a sound registry, at least one claiming owner, and a
receipt in every slot. -/
def Complete (env : Env) (l : Ledger) (request : Nat) (subjectType : String) : Prop :=
  env.report.problems = [] ∧ env.report.ownersFor subjectType ≠ [] ∧
    l.unreceiptedOwners request = []

/-- The steps of the component, by label. -/
inductive Move (env : Env) : Op → Db → Db → Prop
  /-- Queries, provider calls, failed steps; writes of user rows and hashes. -/
  | elsewhere {op : Op} {db : Db} (users : List User) (hashes : List ReRegistrationHash) :
      Move env op db { db with users := users, hashes := hashes }
  | closureOpened {db : Db} (userId : UserId) (trigger : ClosureTrigger) (users : List User)
      (hfree : ∀ pk c, db.closures.get? pk = some c → c.userId = userId →
        c.status ≠ .grace ∧ c.status ≠ .deleting) :
      Move env (.closureUnit userId) db { db with
        closures := db.closures.insert (newClosure env userId trigger)
        users := users
        outbox := db.outbox ++ [.sessionsRevoked userId "gdpr_closure",
          .deletionInitiated userId trigger (newClosure env userId trigger).graceEndsAt] }
  | closureCancelled {db : Db} {pk : Nat} {c : AccountClosureRequest} (userId : UserId)
      (users : List User) (hc : db.closures.get? pk = some c) (hgrace : c.status = .grace) :
      Move env (.cancelUnit pk) db { db with
        closures := db.closures.modify pk (·.cancel env.now)
        users := users, outbox := db.outbox ++ [.deletionCancelled userId env.now c.trigger] }
  | deletionStarted {db : Db} {pk : Nat} (correlationId : Uuid) (uuids : Nat) :
      Move env (.startDeleting pk) db { db with
        closures := db.closures.modify pk (·.startDeleting correlationId env.report.version)
        uuids := uuids }
  | erasureOpened {db db' : Db} {subjectType subjectKey : String} {args : ErasureArgs}
      {request : Stored ErasureRequest}
      (h : db.openErasure env subjectType subjectKey args = .ok (request, db')) :
      Move env (.erasureUnit subjectType subjectKey) db db'
  | localReceipt {db : Db} {pk : Nat} {p : ErasurePart} (counts : Counts)
      (hp : db.parts.get? pk = some p) (hopen : p.state ≠ .done) :
      Move env (.localReceipt pk) db { db with
        parts := db.parts.modify pk (·.recordReceipt env.now counts) }
  | identityErased {db : Db} (pk : Nat) :
      Move env (.identityErased pk) db { db with
        closures := db.closures.modify pk (·.eraseIdentity env.now) }
  | localDone {db : Db} (pk : Nat) (userId : UserId) (correlationId : Uuid)
      (trigger : ClosureTrigger) :
      Move env (.localDoneUnit pk) db { db with
        closures := db.closures.modify pk (·.finishLocal)
        outbox := db.outbox ++ [.userDeleted userId correlationId trigger] }
  | receipted {db : Db} (request : Nat) (service : String) (correlationId : Uuid)
      (receiptId : String) (counts : Counts) :
      Move env (.receipt request service) db { db with
        parts := db.parts.update (·.awaits request service)
          (·.receive env.now correlationId receiptId counts) }
  | certified {db : Db} {pk : Nat} {r : ErasureRequest} {waived : Bool}
      (hr : db.requests.get? pk = some r) (hopen : r.state.isOpen = true)
      (hclosure : ∀ k, r.closure = some k → ∃ c, db.closures.get? k = some c ∧ c.erased = true)
      (hcomplete : waived = false → Complete env db.toLedger pk r.subjectType)
      (hhatch : waived = true → env.settings.allowErasureWithoutReceipts = true) :
      Move env (.certify pk) db { db with
        requests := db.requests.modify pk (·.certify env.now waived) }
  | obligation {db db' : Db} {o : SubprocessorObligation} {r : ErasureRequest}
      (hr : db.requests.get? o.request = some r) (h : db.createObligation o = .ok (true, db')) :
      Move env (.obligation o.request o.provider) db db'
  | closureDeleted {db : Db} {pk : Nat} {c : AccountClosureRequest} (waived : Bool)
      (hc : db.closures.get? pk = some c) (herased : c.erased = true) :
      Move env (.closureDeleted pk) db { db with
        closures := db.closures.modify pk (·.delete env.now waived) }
  | partsTimedOut {db : Db} :
      Move env .sweepParts db { db with
        parts := db.parts.update (·.overdue env.now) (·.timeOut) }
  | requestTimedOut {db : Db} {pk : Nat} {r : ErasureRequest} (owners : List String)
      (hr : db.requests.get? pk = some r) (hopen : r.state.isOpen = true)
      (hnote : ∃ i p, db.parts.get? i = some p ∧ p.request = pk ∧ p.note = timedOutNote) :
      Move env (.timeoutUnit pk) db { db with
        requests := db.requests.modify pk (·.timeOut)
        outbox := db.outbox ++ [.erasureTimeout pk r.correlationId r.subjectType r.subjectKey
          owners r.dueAt] }

variable {env : Env} {op : Op} {db db' : Db}

theorem Move.idle : Move env op db db := .elsewhere db.users db.hashes

/-! ### What may become of a row -/

/-- One part across one step. -/
inductive PartStep : ErasurePart → ErasurePart → Prop
  | same (p : ErasurePart) : PartStep p p
  | receipted {p p' : ErasurePart} (hopen : p.state ≠ .done) (hdone : p'.state = .done)
      (hid : p'.receiptId ≠ "") (hat : p'.receiptAt.isSome = true)
      (hrequest : p'.request = p.request) (howner : p'.owner = p.owner) (hnote : p'.note = p.note) :
      PartStep p p'
  | timedOut {p : ErasurePart} (hpending : p.state = .pending) : PartStep p p.timeOut

/-- One request across one step from `db`. -/
inductive RequestStep (env : Env) (db : Db) (pk : Nat) : ErasureRequest → ErasureRequest → Prop
  | same (r : ErasureRequest) : RequestStep env db pk r r
  | certified {r : ErasureRequest} {waived : Bool} (hopen : r.state.isOpen = true)
      (hclosure : ∀ k, r.closure = some k → ∃ c, db.closures.get? k = some c ∧ c.erased = true)
      (hcomplete : waived = false → Complete env db.toLedger pk r.subjectType)
      (hhatch : waived = true → env.settings.allowErasureWithoutReceipts = true) :
      RequestStep env db pk r (r.certify env.now waived)
  | timedOut {r : ErasureRequest} (hopen : r.state.isOpen = true)
      (hnote : ∃ i p, db.parts.get? i = some p ∧ p.request = pk ∧ p.note = timedOutNote) :
      RequestStep env db pk r r.timeOut

/-- One closure across one step. -/
inductive ClosureStep : AccountClosureRequest → AccountClosureRequest → Prop
  | same (c : AccountClosureRequest) : ClosureStep c c
  | cancelled {c : AccountClosureRequest} {now : Time} (hgrace : c.status = .grace) :
      ClosureStep c (c.cancel now)
  | started {c : AccountClosureRequest} {correlationId : Uuid} {version : String} :
      ClosureStep c (c.startDeleting correlationId version)
  | identityErased {c : AccountClosureRequest} {now : Time} : ClosureStep c (c.eraseIdentity now)
  | localDone {c : AccountClosureRequest} : ClosureStep c c.finishLocal
  | deleted {c : AccountClosureRequest} {now : Time} {waived : Bool} (herased : c.erased = true) :
      ClosureStep c (c.delete now waived)

/-- A part a request is born with. -/
structure NewPart (env : Env) (db : Db) (p : ErasurePart) : Prop where
  pending : p.state = .pending
  request : p.request = db.requests.nextPk
  silent : p.note = ""

/-- A request as it is born. -/
structure NewRequest (env : Env) (db db' : Db) (pk : Nat) (r : ErasureRequest) : Prop where
  key : pk = db.requests.nextPk
  erasing : r.state = .erasing
  unwaived : r.completenessWaived = false
  correlated : ∃ id, r.correlationId = some id ∧
    ∀ i r', db.requests.get? i = some r' → r'.correlationId ≠ some id
  slots : ∀ o ∈ env.report.ownersFor r.subjectType,
    ∃ i p, db'.parts.get? i = some p ∧ p.request = pk ∧ p.owner = o.name

/-- A closure as it is born: its user has no other under way. -/
structure NewClosure (env : Env) (db : Db) (pk : Nat) (c : AccountClosureRequest) : Prop where
  key : pk = db.closures.nextPk
  opened : ∃ userId trigger, c = newClosure env userId trigger
  free : ∀ i c', db.closures.get? i = some c' → c'.userId = c.userId →
    c'.status ≠ .grace ∧ c'.status ≠ .deleting

/-! ### Opening an erasure, unfolded -/

/-- What the unit of `request_erasure` did when it committed. -/
theorem openErasure_ok {st sk : String} {args : ErasureArgs} {request : Stored ErasureRequest}
    (h : db.openErasure env st sk args = .ok (request, db')) :
    ∃ requestedBy, args.requestedBy.stored env.host = some requestedBy ∧
      request = ⟨db.requests.nextPk,
        args.row env st sk requestedBy (args.correlationId.getD db.uuid4)⟩ ∧
      db.violates request.row = false ∧ env.distinctOwners st = true ∧
      db' = { db with
        requests := db.requests.insert request.row
        parts := db.parts.insertAll (env.slots st db.requests.nextPk)
        outbox := db.outbox ++
          [args.announcement request.pk request.row (args.correlationId.getD db.uuid4)]
        users := db'.users, uuids := db'.uuids } := by
  unfold Db.openErasure at h
  cases hby : args.requestedBy.stored env.host with
  | none => rw [hby] at h; exact absurd h (by simp)
  | some requestedBy =>
      rw [hby] at h
      dsimp only at h
      by_cases hbad : db.violates
          (args.row env st sk requestedBy (args.correlationId.getD db.uuid4)) = true ∨
          env.distinctOwners st = false
      · rw [if_pos hbad] at h
        exact absurd h (by simp)
      · rw [if_neg hbad] at h
        obtain ⟨hv, hd⟩ := not_or.mp hbad
        obtain ⟨rfl, rfl⟩ := Prod.mk.inj (Except.ok.inj h)
        exact ⟨requestedBy, rfl, rfl, Bool.eq_false_iff.mpr hv, by simpa using hd, rfl⟩

theorem mem_slots {st : String} {request : Nat} {p : ErasurePart} :
    p ∈ env.slots st request ↔
      ∃ o ∈ env.report.ownersFor st, p = o.part request env.now := by
  simp only [Env.slots, List.mem_map]
  constructor
  · rintro ⟨o, ho, rfl⟩
    exact ⟨o, ho, rfl⟩
  · rintro ⟨o, ho, rfl⟩
    exact ⟨o, ho, rfl⟩

theorem violates_correlation {r : ErasureRequest} (h : db.violates r = false) {i : Nat}
    {r' : ErasureRequest} (hr' : db.requests.get? i = some r') :
    r'.correlationId ≠ r.correlationId := by
  intro heq
  have hany : db.requests.any (fun r' =>
      r'.correlationId = r.correlationId ||
      (r.idempotencyKey ≠ "" && r'.idempotencyKey = r.idempotencyKey) ||
      (r.sourceRequest.isSome && r'.sourceRequest = r.sourceRequest && r'.origin = r.origin)) =
      true := Table.any_eq_true.mpr ⟨i, r', hr', by simp [heq]⟩
  unfold Ledger.violates at h
  rw [hany] at h
  simp at h

theorem createObligation_ok {o : SubprocessorObligation} {b : Bool}
    (h : db.createObligation o = .ok (b, db')) :
    b = true ∧ db.hasObligation o.request o.provider = false ∧ 0 ≤ o.windowDays ∧
      db' = { db with obligations := db.obligations.insert o } := by
  unfold Db.createObligation at h
  by_cases hbad : db.hasObligation o.request o.provider = true ∨ o.windowDays < 0
  · rw [if_pos hbad] at h
    exact absurd h (by simp)
  · rw [if_neg hbad] at h
    obtain ⟨hhas, hwindow⟩ := not_or.mp hbad
    obtain ⟨rfl, rfl⟩ := Prod.mk.inj (Except.ok.inj h)
    exact ⟨rfl, Bool.eq_false_iff.mpr hhas, Int.not_lt.mp hwindow, rfl⟩

/-! ### What a step does to each table -/

/-- A local receipt id names its moment; it is never empty. -/
theorem recordReceipt_receiptId (p : ErasurePart) (now : Time) (counts : Counts) :
    (p.recordReceipt now counts).receiptId ≠ "" := by
  intro h
  simp only [ErasurePart.recordReceipt, String.append_eq_empty_iff] at h
  exact absurd h.1 (by decide)

/-- An owner that sends no receipt id gets one from its name and the correlation id. -/
theorem receive_receiptId (p : ErasurePart) (now : Time) (correlationId : Uuid)
    (receiptId : String) (counts : Counts) :
    (p.receive now correlationId receiptId counts).receiptId ≠ "" := by
  unfold ErasurePart.receive
  by_cases hid : receiptId = ""
  · simp [hid, String.append_eq_empty_iff]
  · simp [hid]

theorem PartStep.recordReceipt {p : ErasurePart} (hopen : p.state ≠ .done) (now : Time)
    (counts : Counts) : PartStep p (p.recordReceipt now counts) :=
  .receipted hopen rfl (recordReceipt_receiptId p now counts) rfl rfl rfl rfl

theorem PartStep.receive {p : ErasurePart} (hopen : p.state ≠ .done) (now : Time)
    (correlationId : Uuid) (receiptId : String) (counts : Counts) :
    PartStep p (p.receive now correlationId receiptId counts) :=
  .receipted hopen rfl (receive_receiptId p now correlationId receiptId counts) rfl rfl rfl rfl

theorem Move.parts (h : Move env op db db') :
    Table.Evolves (fun _ => PartStep) (fun _ => NewPart env db) db.parts db'.parts := by
  have hsame : ∀ (i : Nat) (p : ErasurePart), db.parts.get? i = some p → PartStep p p :=
    fun _ p _ => .same p
  cases h with
  | elsewhere | closureOpened | closureCancelled | deletionStarted | identityErased | localDone |
      certified | closureDeleted | requestTimedOut => exact .refl hsame
  | obligation hr ho =>
      obtain ⟨-, -, -, rfl⟩ := createObligation_ok ho
      exact .refl hsame
  | erasureOpened ho =>
      obtain ⟨by', -, -, -, -, hdb⟩ := openErasure_ok ho
      rw [hdb]
      refine .insertAll hsame fun _ p hp => ?_
      obtain ⟨o, -, rfl⟩ := mem_slots.mp hp
      exact ⟨rfl, rfl, rfl⟩
  | localReceipt counts hp hopen =>
      refine .modify (fun i p hi _ => hsame i p hi) fun p hget => ?_
      rw [hp] at hget
      exact .recordReceipt (Option.some.inj hget ▸ hopen) env.now counts
  | receipted request service correlationId receiptId counts =>
      refine .update fun i p _ => ?_
      by_cases haw : p.awaits request service = true
      · rw [if_pos haw]
        exact .receive (ErasurePart.awaits_iff.mp haw).2.2 env.now correlationId receiptId counts
      · rw [if_neg haw]
        exact .same p
  | partsTimedOut =>
      refine .update fun i p _ => ?_
      by_cases hover : p.overdue env.now = true
      · rw [if_pos hover]
        exact .timedOut (ErasurePart.overdue_iff.mp hover).1
      · rw [if_neg hover]
        exact .same p

theorem Move.requests (h : Move env op db db') :
    Table.Evolves (RequestStep env db) (NewRequest env db db') db.requests db'.requests := by
  have hsame : ∀ (i : Nat) (r : ErasureRequest), db.requests.get? i = some r →
      RequestStep env db i r r := fun _ r _ => .same r
  cases h with
  | elsewhere | closureOpened | closureCancelled | deletionStarted | identityErased | localDone |
      closureDeleted | localReceipt | receipted | partsTimedOut => exact .refl hsame
  | obligation hr ho =>
      obtain ⟨-, -, -, rfl⟩ := createObligation_ok ho
      exact .refl hsame
  | erasureOpened ho =>
      rename_i st sk args request
      obtain ⟨by', -, hrow, hv, -, hdb⟩ := openErasure_ok ho
      have hreq : db'.requests = db.requests.insert request.row := by rw [hdb]
      rw [hreq]
      have hst : request.row.subjectType = st := by rw [hrow]; rfl
      refine .insert hsame ⟨rfl, by rw [hrow]; rfl, by rw [hrow]; rfl, ?_, ?_⟩
      · refine ⟨args.correlationId.getD db.uuid4, by rw [hrow]; rfl, fun i r' hr' => ?_⟩
        have hne := violates_correlation hv hr'
        rwa [hrow] at hne
      · intro o ho'
        rw [hst] at ho'
        obtain ⟨i, hi⟩ := Table.exists_get?_insertAll (t := db.parts)
          (mem_slots.mpr ⟨o, ho', rfl⟩ : o.part db.requests.nextPk env.now ∈
            env.slots st db.requests.nextPk)
        exact ⟨i, _, by rw [hdb]; exact hi, rfl, rfl⟩
  | certified hr hopen hclosure hcomplete hhatch =>
      refine .modify (fun i r hi _ => hsame i r hi) fun r hget => ?_
      rw [hr] at hget
      obtain rfl := Option.some.inj hget
      exact .certified hopen hclosure hcomplete hhatch
  | requestTimedOut owners hr hopen hnote =>
      refine .modify (fun i r hi _ => hsame i r hi) fun r hget => ?_
      rw [hr] at hget
      obtain rfl := Option.some.inj hget
      exact .timedOut hopen hnote

theorem Move.closures (h : Move env op db db') :
    Table.Evolves (fun _ => ClosureStep) (NewClosure env db) db.closures db'.closures := by
  have hsame : ∀ (i : Nat) (c : AccountClosureRequest), db.closures.get? i = some c →
      ClosureStep c c := fun _ c _ => .same c
  cases h with
  | elsewhere | localReceipt | receipted | partsTimedOut | certified | requestTimedOut =>
      exact .refl hsame
  | obligation hr ho =>
      obtain ⟨-, -, -, rfl⟩ := createObligation_ok ho
      exact .refl hsame
  | erasureOpened ho =>
      obtain ⟨by', -, -, -, -, hdb⟩ := openErasure_ok ho
      rw [hdb]
      exact .refl hsame
  | closureOpened userId trigger users hfree =>
      exact .insert hsame ⟨rfl, ⟨userId, trigger, rfl⟩, hfree⟩
  | closureCancelled userId users hc hgrace =>
      refine .modify (fun i c hi _ => hsame i c hi) fun c hget => ?_
      rw [hc] at hget
      exact .cancelled (Option.some.inj hget ▸ hgrace)
  | deletionStarted => exact .modify (fun i c hi _ => hsame i c hi) fun _ _ => .started
  | identityErased => exact .modify (fun i c hi _ => hsame i c hi) fun _ _ => .identityErased
  | localDone => exact .modify (fun i c hi _ => hsame i c hi) fun _ _ => .localDone
  | closureDeleted waived hc herased =>
      refine .modify (fun i c hi _ => hsame i c hi) fun c hget => ?_
      rw [hc] at hget
      exact .deleted (Option.some.inj hget ▸ herased)

/-- Obligations are only added: one a pair of request and processor. -/
theorem Move.obligations (h : Move env op db db') :
    Table.Evolves (fun _ o o' => o = o')
      (fun pk o => pk = db.obligations.nextPk ∧ db.hasObligation o.request o.provider = false)
      db.obligations db'.obligations := by
  cases h with
  | obligation hr ho =>
      obtain ⟨-, hhas, -, rfl⟩ := createObligation_ok ho
      exact .insert (fun _ _ _ => rfl) ⟨rfl, hhas⟩
  | erasureOpened ho =>
      obtain ⟨by', -, -, -, -, hdb⟩ := openErasure_ok ho
      rw [hdb]
      exact .refl fun _ _ _ => rfl
  | _ => exact .refl fun _ _ _ => rfl

/-! ### Opening and announcing -/

/-- Is this the announcement of an erasure of the subject? -/
def Action.announces (subjectType subjectKey : String) : Action → Prop
  | .erasureRequested _ _ st sk _ _ _ _ => st = subjectType ∧ sk = subjectKey
  | _ => False

/-- A committed announcement stays in the outbox, and only the unit of `request_erasure`
announces an erasure. -/
theorem Move.emits (h : Move env op db db') : ∃ new, db'.outbox = db.outbox ++ new ∧
    ∀ a ∈ new, ∀ st sk, a.announces st sk → op = .erasureUnit st sk := by
  cases h with
  | obligation hr ho =>
      obtain ⟨-, -, -, rfl⟩ := createObligation_ok ho
      exact ⟨[], by simp, by simp⟩
  | erasureOpened ho =>
      obtain ⟨by', -, hrow, -, -, hdb⟩ := openErasure_ok ho
      refine ⟨_, by rw [hdb], fun a ha st sk hann => ?_⟩
      rw [List.mem_singleton.mp ha, hrow] at hann
      obtain ⟨rfl, rfl⟩ := hann
      rfl
  | closureOpened | closureCancelled | localDone | requestTimedOut =>
      exact ⟨_, rfl, fun a ha st sk hann => by
        simp only [List.mem_cons, List.not_mem_nil, or_false] at ha
        rcases ha with rfl | rfl <;> exact hann.elim⟩
  | _ => exact ⟨[], by simp, by simp⟩

/-- A request appears only with the unit that opens its subject. -/
theorem Move.opens (h : Move env op db db') {pk : Nat} {r : ErasureRequest}
    (hr : db'.requests.get? pk = some r) (hno : db.requests.get? pk = none) :
    op = .erasureUnit r.subjectType r.subjectKey := by
  cases h with
  | obligation hr ho =>
      obtain ⟨-, -, -, rfl⟩ := createObligation_ok ho
      rw [hno] at hr
      exact absurd hr (by simp)
  | erasureOpened ho =>
      obtain ⟨by', -, hrow, -, -, hdb⟩ := openErasure_ok ho
      rw [hdb, hrow] at hr
      rw [Table.get?_insert] at hr
      by_cases hpk : pk = db.requests.nextPk
      · rw [if_pos hpk] at hr
        rw [← Option.some.inj hr]
        rfl
      · rw [if_neg hpk, hno] at hr
        exact absurd hr (by simp)
  | certified | requestTimedOut =>
      rw [Table.get?_modify, hno] at hr
      simp at hr
  | _ =>
      rw [hno] at hr
      exact absurd hr (by simp)

end StapelGdpr
