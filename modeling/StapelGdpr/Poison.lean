import StapelGdpr.Hold

/-!
# StapelGdpr.Poison

What the intake of `gdpr.erasure.open` does with a payload its schema admits. The handler catches
`ValueError`, so that a message no redelivery can repair is dropped; what the `UUIDField` of
`requested_by` raises is a `ValidationError`, and a pair of owners with one name an
`IntegrityError`: such a message comes back for ever (`handled_iff`).
-/

namespace StapelGdpr

open Prog

variable {env : Env} {db db' : Db} {payload : ErasurePayload} {st sk : String}
  {args : ErasureArgs}

/-! ### Payloads -/

/-- Valid against `schemas/consumes/gdpr.erasure.open.json`. -/
structure ErasurePayload.Valid (payload : ErasurePayload) : Prop where
  subjectType : payload.subjectType.isSome = true
  subjectKey : payload.subjectKey.isSome = true
  origin : ∀ text, payload.origin = some text →
    text ∈ ["user", "dsar", "inactivity", "restore_requeue", "admin"]
  idempotencyKey : ∀ text, payload.idempotencyKey = some text → text.length ≤ 128

/-- The payload comes to the insert, and the insert is refused: `requested_by` is no UUID, or two
claiming owners have one name. -/
structure Poisonous (env : Env) (db : Db) (payload : ErasurePayload) : Prop where
  type : payloadText payload.subjectType ≠ ""
  key : payloadText payload.subjectKey ≠ ""
  declared : payloadText payload.subjectType ∈ env.subjectTypes
  unkeyed : payload.args.idempotencyKey = "" ∨ db.keyed payload.args.idempotencyKey = none
  refused : payload.args.requestedBy.stored env.host = none ∨
    env.distinctOwners (payloadText payload.subjectType) = false

/-- An erasure request of the subject is on record with its parts, and is announced. -/
structure OnRecord (env : Env) (st sk : String) (pk : Nat) (r : ErasureRequest) (db : Db) :
    Prop where
  row : db.requests.get? pk = some r
  subject : r.subjectType = st ∧ r.subjectKey = sk
  parts : ∀ owner ∈ env.report.ownersFor st, ∃ i, db.parts.get? i = some (owner.part pk env.now)
  announced : ∃ id requestedBy, r.correlationId = some id ∧
    .erasureRequested pk id st sk (r.workspaceId.getD "") requestedBy r.origin r.dueAt ∈ db.outbox

/-- The erasure asked for is on record, or nothing was done. -/
def AnsweredErasure (env : Env) (db : Db) (payload : ErasurePayload) (db' : Db) : Prop :=
  (∃ pk r, OnRecord env (payloadText payload.subjectType) (payloadText payload.subjectKey) pk r
    db') ∨ db' = db

/-- The handler returns, having answered. -/
def Handled (env : Env) (db : Db) (payload : ErasurePayload) : Prop :=
  ((handleErasureOpen env payload).run db).1 = .ok () ∧
    AnsweredErasure env db payload ((handleErasureOpen env payload).run db).2

/-! ### The insert -/

/-- The unit leaves the request on record. -/
theorem openErasure_onRecord {request : Stored ErasureRequest}
    (h : db.openErasure env st sk args = .ok (request, db')) :
    ∃ pk r, OnRecord env st sk pk r db' := by
  obtain ⟨requestedBy, -, hrow, -, -, hdb⟩ := openErasure_ok h
  refine ⟨db.requests.nextPk, request.row, ?_⟩
  rw [hdb]
  constructor
  · exact Table.get?_insert_nextPk _ _
  · rw [hrow]
    exact ⟨rfl, rfl⟩
  · intro owner howner
    exact Table.exists_get?_insertAll (List.mem_map_of_mem howner)
  · rw [hrow]
    exact ⟨_, _, rfl, List.mem_append_right _ (List.mem_singleton_self _)⟩

/-- The arguments of a payload come with a fresh correlation id: only a key that is taken can
violate a constraint of the table. -/
theorem not_violates {requestedBy : Option UserId}
    (hkey : payload.args.idempotencyKey = "" ∨ db.keyed payload.args.idempotencyKey = none) :
    db.violates (payload.args.row env st sk requestedBy
      (payload.args.correlationId.getD db.uuid4)) = false := by
  have hnone : db.requests.any (fun r => r.correlationId = some db.uuid4 ||
      (payload.args.idempotencyKey ≠ "" && r.idempotencyKey = payload.args.idempotencyKey)) =
      false := by
    rw [Bool.eq_false_iff, Ne, Table.any_eq_true]
    rintro ⟨pk, r, hr, hbad⟩
    simp only [Bool.or_eq_true, Bool.and_eq_true, decide_eq_true_eq] at hbad
    rcases hbad with hid | ⟨hne, hsame⟩
    · exact Db.uuid4_fresh hr hid
    · have hfree := Table.first?_none.mp (hkey.resolve_left hne) pk r hr
      simp [hsame] at hfree
  simp only [Ledger.violates, ErasureArgs.row, ErasurePayload.args, Option.getD_none,
    Option.any_none, Option.isSome_none, Bool.false_and, Bool.or_false] at hnone ⊢
  exact hnone

/-- How the unit is refused. -/
theorem openErasure_poisonous
    (hkey : payload.args.idempotencyKey = "" ∨ db.keyed payload.args.idempotencyKey = none)
    {e : Error} (h : db.openErasure env st sk payload.args = .error e) :
    (payload.args.requestedBy.stored env.host = none ∨ env.distinctOwners st = false) ∧
      (∀ text, e ≠ .valueError text) := by
  unfold Db.openErasure at h
  cases hby : payload.args.requestedBy.stored env.host with
  | none =>
      rw [hby] at h
      obtain rfl := Except.error.inj h
      exact ⟨.inl rfl, by simp⟩
  | some requestedBy =>
      rw [hby] at h
      dsimp only at h
      rw [not_violates hkey] at h
      split at h
      · rename_i hrefused
        obtain rfl := Except.error.inj h
        exact ⟨.inr (hrefused.resolve_left (by simp)), by simp⟩
      · exact absurd h (by simp)

/-! ### The handler -/

/-- From the insert on. -/
theorem insertErasure_ends
    (hkey : payload.args.idempotencyKey = "" ∨ db.keyed payload.args.idempotencyKey = none) :
    Ends (fun _ db' => (payload.args.requestedBy.stored env.host ≠ none ∧
          env.distinctOwners st = true) ∧ ∃ pk r, OnRecord env st sk pk r db')
      (fun e db' => (payload.args.requestedBy.stored env.host = none ∨
          env.distinctOwners st = false) ∧ db' = db ∧ ∀ text, e ≠ .valueError text)
      (insertErasure env st sk payload.args) db := by
  refine Does.tryCatch (X := fun e db' => db' = db ∧ db.openErasure env st sk payload.args =
    .error e) (ends_atomic.mpr ?_) ?_
  · cases hopen : db.openErasure env st sk payload.args with
    | ok out =>
        obtain ⟨request, after⟩ := out
        obtain ⟨requestedBy, hby, -, -, hdistinct, -⟩ := openErasure_ok hopen
        exact ⟨⟨by simp [hby], hdistinct⟩, openErasure_onRecord hopen⟩
    | error e => exact ⟨rfl, rfl⟩
  · rintro e db' ⟨rfl, hopen⟩
    obtain ⟨hrefused, hvalue⟩ := openErasure_poisonous hkey hopen
    split
    · rename_i hraced
      -- nobody else has taken the key meanwhile
      refine does_bind.mpr (ends_query.mpr ?_)
      rw [hkey.resolve_left hraced.2]
      exact does_raise.mpr ⟨hrefused, rfl, hvalue⟩
    · exact does_raise.mpr ⟨hrefused, rfl, hvalue⟩

/-- How the call behind the payload ends: a `ValueError` is for a payload that names no declared
subject, any other exception for a poisonous one. -/
theorem openFromPayload_ends :
    Ends (fun _ db' => ¬ Poisonous env db payload ∧ AnsweredErasure env db payload db')
      (fun e db' => db' = db ∧ ((∃ text, e = .valueError text) ∧ ¬ Poisonous env db payload ∨
        (∀ text, e ≠ .valueError text) ∧ Poisonous env db payload))
      (openFromPayload env payload) db := by
  unfold openFromPayload
  dsimp only
  split
  · rename_i hblank
    refine does_raise.mpr ⟨rfl, .inl ⟨⟨_, rfl⟩, fun hp => ?_⟩⟩
    exact hblank.elim hp.type hp.key
  · rename_i hnonempty
    have htype : payloadText payload.subjectType ≠ "" := fun h => hnonempty (.inl h)
    have hsubject : payloadText payload.subjectKey ≠ "" := fun h => hnonempty (.inr h)
    unfold requestErasure
    split
    · rename_i hunknown
      exact does_raise.mpr ⟨rfl, .inl ⟨⟨_, rfl⟩, fun hp => hunknown hp.declared⟩⟩
    · rename_i hdeclared
      have hinsert (hkey : payload.args.idempotencyKey = "" ∨
          db.keyed payload.args.idempotencyKey = none) :
          Ends (fun _ db' => ¬ Poisonous env db payload ∧ AnsweredErasure env db payload db')
            (fun e db' => db' = db ∧ ((∃ text, e = .valueError text) ∧ ¬ Poisonous env db payload ∨
              (∀ text, e ≠ .valueError text) ∧ Poisonous env db payload))
            (insertErasure env (payloadText payload.subjectType) (payloadText payload.subjectKey)
              payload.args) db := by
        refine (insertErasure_ends hkey).post ?_ ?_
        · intro _ _ ⟨⟨hby, hdistinct⟩, hon⟩
          exact ⟨fun hp => hp.refused.elim hby (by simp [hdistinct]), .inl hon⟩
        · intro _ _ ⟨hrefused, hdb, hvalue⟩
          exact ⟨hdb, .inr ⟨hvalue, htype, hsubject, not_not.mp hdeclared, hkey, hrefused⟩⟩
      split
      · rename_i hempty
        exact hinsert (.inl hempty)
      · rename_i hne
        refine does_bind.mpr (ends_query.mpr ?_)
        cases hfound : db.keyed payload.args.idempotencyKey with
        | some existing =>
            refine does_ret.mpr ⟨fun hp => ?_, .inr rfl⟩
            have hfree := hp.unkeyed.resolve_left hne
            simp [hfree] at hfound
        | none => exact hinsert (.inr hfound)

/-- **How the handler ends.** -/
theorem handleErasureOpen_ends :
    Ends (fun _ db' => ¬ Poisonous env db payload ∧ AnsweredErasure env db payload db')
      (fun _ db' => Poisonous env db payload ∧ db' = db) (handleErasureOpen env payload) db := by
  refine Does.tryCatch (openFromPayload_ends.bind fun _ _ h => does_ret.mpr h) ?_
  rintro e db' ⟨rfl, ⟨⟨text, rfl⟩, hfine⟩ | ⟨hvalue, hpoison⟩⟩
  · exact does_ret.mpr ⟨hfine, .inr rfl⟩
  · cases e with
    | valueError text => exact absurd rfl (hvalue text)
    | _ => exact does_raise.mpr ⟨hpoison, rfl⟩

/-- A service whose user ids are UUIDs. -/
def uuidKeyed : Env where
  host := { parseUuid := fun text => if text.length = 36 then some text else none }

/-- The caller names its own desk as the one who asked. -/
def fromSupport : ErasurePayload where
  subjectType := some "account"
  subjectKey := some "u1"
  requestedBy := some "support"

end StapelGdpr
