import StapelGdpr.Invariants
import StapelGdpr.Statements

/-!
# StapelGdpr.Hold

A legal hold, door by door. `initiate_closure`, `execute_deletion` and the grace worker ask
`LegalHold`; `request_erasure` and the four doors that end in it do not.
`quiet_iff_not_opens` is the exact account: started under a hold, a call leaves the held
account alone on every run it has, unless it is one of those doors and `request_erasure`
admits what it asks for.
-/

namespace StapelGdpr

open Prog

variable {env : Env} {op : Op} {db db' : Db} {userId : UserId}

/-! ### Leaving an account alone -/

/-- Does the statement erase something of the user? -/
def Op.erases (userId : UserId) : Op → Prop
  | .anonymize _ u | .delete _ u | .eraseIdentity u => u = userId
  | _ => False

/-- Is this a request for the erasure of the account? -/
def ErasureRequest.concerns (r : ErasureRequest) (userId : UserId) : Prop :=
  r.subjectType = subjectAccount ∧ r.subjectKey = userId

/-- Between `db` and `db'` no erasure of the account was opened and none was announced. -/
structure Unopened (userId : UserId) (db db' : Db) : Prop where
  requests : ∀ pk r, db'.requests.get? pk = some r → db.requests.get? pk = none →
    ¬ r.concerns userId
  announcements : ∃ new, db'.outbox = db.outbox ++ new ∧
    ∀ a ∈ new, ¬ a.announces subjectAccount userId

/-- The call opens, announces and performs no erasure of the account, wherever it fails
and wherever it stops. -/
def Quiet (env : Env) (call : Call) (db : Db) (userId : UserId) : Prop :=
  ∀ tr p db', Runs (fun _ => True) (call.prog env) db tr p db' →
    Unopened userId db db' ∧ ∀ op ∈ tr, ¬ op.erases userId

/-- A step that leaves the account alone: if it is the opening of its erasure, it was
refused. -/
structure Spares (env : Env) (userId : UserId) (op : Op) (a b : Db) : Prop where
  move : Move env op a b
  erases : ¬ op.erases userId
  refused : op = .erasureUnit subjectAccount userId → b = a

theorem Spares.idle (h : ¬ op.erases userId) : Spares env userId op db db :=
  ⟨.idle, h, fun _ => rfl⟩

theorem Unopened.refl (userId : UserId) (db : Db) : Unopened userId db db where
  requests pk r hr hno := by
    rw [hno] at hr
    exact absurd hr (by simp)
  announcements := ⟨[], by simp, by simp⟩

theorem Unopened.step {a b c : Db} (h : Unopened userId a b) (hs : Spares env userId op b c) :
    Unopened userId a c where
  requests pk r' hr' hno := by
    rintro ⟨htype, hkey⟩
    rcases hs.move.requests.row hr' with ⟨r, hr, hstep⟩ | ⟨hnone, -⟩
    · obtain ⟨htype', hkey', -, -⟩ := hstep.keeps
      exact h.requests pk r hr hno ⟨htype' ▸ htype, hkey' ▸ hkey⟩
    · have hop := hs.move.opens hr' hnone
      rw [htype, hkey] at hop
      rw [hs.refused hop, hnone] at hr'
      exact absurd hr' (by simp)
  announcements := by
    obtain ⟨old, hold, hnot⟩ := h.announcements
    obtain ⟨new, hnew, hann⟩ := hs.move.emits
    refine ⟨old ++ new, by rw [hnew, hold, List.append_assoc], fun a ha => ?_⟩
    rcases List.mem_append.mp ha with ha | ha
    · exact hnot a ha
    · intro hsub
      have hsame := hs.refused (hann a ha _ _ hsub)
      rw [hsame] at hnew
      have hnil : new = [] := by simpa using hnew
      rw [hnil] at ha
      exact absurd ha (by simp)

/-- A call whose every step spares the account is quiet. -/
theorem quiet_of_spares {call : Call}
    (h : Does (fun _ => True) (Spares env userId) (fun _ _ => True) (fun _ _ => True)
      (call.prog env) db) : Quiet env call db userId := by
  intro tr p db' hrun
  refine ⟨?_, h.labels hrun fun _ _ _ hs => hs.erases⟩
  have hchain := h.chain hrun (N := fun a b => ∃ op, Spares env userId op a b)
    fun op _ _ hs => ⟨op, hs⟩
  clear hrun
  induction hchain with
  | refl => exact .refl userId db
  | tail _ hstep ih =>
      obtain ⟨op, hs⟩ := hstep
      exact ih.step hs

/-! ### Statements that cannot concern the account -/

/-- A statement that neither erases the account nor opens its erasure. -/
def Op.harmless (userId : UserId) : Op → Prop
  | .anonymize _ u | .delete _ u | .eraseIdentity u => u ≠ userId
  | .erasureUnit subjectType subjectKey => ¬ (subjectType = subjectAccount ∧ subjectKey = userId)
  | _ => True

theorem Op.harmless.spares (h : op.harmless userId) (hm : Move env op db db') :
    Spares env userId op db db' where
  move := hm
  erases herases := by
    cases op <;> first | exact herases.elim | exact h herases
  refused heq := by
    subst heq
    exact absurd ⟨rfl, rfl⟩ h

theorem spares_of_harmless {α : Type} {Q : α → Db → Prop} {E : Error → Db → Prop}
    {p : Program α} (h : Does (fun _ => True) (fun op a b => Move env op a b ∧ op.harmless userId)
      Q E p db) : Does (fun _ => True) (Spares env userId) Q E p db :=
  h.imp (fun _ _ _ hs => hs.2.spares hs.1) (fun _ _ h => h) fun _ _ h => h

/-- A call that can issue no statement of the account's erasure. -/
theorem spares_of_may {call : Call} (hl : call.Loaded db)
    (h : ∀ op, call.may op → op.harmless userId) :
    Does (fun _ => True) (Spares env userId) (fun _ _ => True) (fun _ _ => True)
      (call.prog env) db :=
  (Call.does hl).imp (fun _ _ _ hs => (h _ hs.2).spares hs.1) (fun _ _ h => h) fun _ _ h => h

/-- An execution for somebody else never touches the account. -/
theorem DeletionOp.harmless {pk : Nat} {other : UserId} (h : DeletionOp pk other op)
    (hne : other ≠ userId) : op.harmless userId := by
  cases op <;> first
    | exact trivial
    | exact fun heq => hne ((h.resolve_right id).symm.trans heq)
    | exact fun heq => hne (h.2.symm.trans heq.2)

/-! ### What `request_erasure` admits -/

/-- `request_erasure` admits the request: its subject type is declared, its key is empty or
new, `requested_by` is an id, no constraint of the table refuses the row, and the claiming
owners have distinct names. -/
structure Admits (env : Env) (db : Db) (subjectType subjectKey : String) (args : ErasureArgs) :
    Prop where
  declared : subjectType ∈ env.subjectTypes
  unkeyed : args.idempotencyKey = "" ∨ db.keyed args.idempotencyKey = none
  distinct : env.distinctOwners subjectType = true
  stored : ∃ requestedBy, args.requestedBy.stored env.host = some requestedBy ∧
    db.violates (args.row env subjectType subjectKey requestedBy
      (args.correlationId.getD db.uuid4)) = false

variable {st sk : String} {args : ErasureArgs}

theorem Admits.opens (h : Admits env db st sk args) :
    ∃ out, db.openErasure env st sk args = .ok out := by
  obtain ⟨requestedBy, hby, hv⟩ := h.stored
  unfold Db.openErasure
  rw [hby]
  dsimp only
  rw [if_neg (by simp [hv, h.distinct])]
  exact ⟨_, rfl⟩

theorem admits_of_openErasure {out : Stored ErasureRequest × Db}
    (h : db.openErasure env st sk args = .ok out) (hdecl : st ∈ env.subjectTypes)
    (hkey : args.idempotencyKey = "" ∨ db.keyed args.idempotencyKey = none) :
    Admits env db st sk args := by
  obtain ⟨request, after⟩ := out
  obtain ⟨requestedBy, hby, hrow, hv, hd, -⟩ := openErasure_ok h
  refine ⟨hdecl, hkey, hd, requestedBy, hby, ?_⟩
  rwa [hrow] at hv

/-- The errors a caller of `request_erasure` handles. -/
def Error.refusal : Error → Prop
  | .integrityError | .valueError _ => True
  | _ => False

theorem openErasure_error {e : Error} (h : db.openErasure env st sk args = .error e)
    (hby : args.requestedBy.stored env.host ≠ none) : e = .integrityError := by
  unfold Db.openErasure at h
  cases hst : args.requestedBy.stored env.host with
  | none => exact absurd hst hby
  | some requestedBy =>
      rw [hst] at h
      dsimp only at h
      split at h
      · exact (Except.error.inj h).symm
      · exact absurd h (by simp)

/-- How a `request_erasure` in which nothing fails ends: the unit committed, or the request
was not one it admits and nothing changed. -/
theorem requestErasure_ends :
    Ends (fun request db' => db.openErasure env st sk args = .ok (request, db') ∨
        (¬ Admits env db st sk args ∧ db' = db))
      (fun e db' => ¬ Admits env db st sk args ∧ db' = db ∧
        (args.requestedBy.stored env.host ≠ none → e.refusal))
      (requestErasure env st sk args) db := by
  have hinsert : (args.idempotencyKey = "" ∨ db.keyed args.idempotencyKey = none) →
      Ends (fun request db' => db.openErasure env st sk args = .ok (request, db') ∨
          (¬ Admits env db st sk args ∧ db' = db))
        (fun e db' => ¬ Admits env db st sk args ∧ db' = db ∧
          (args.requestedBy.stored env.host ≠ none → e.refusal))
        (insertErasure env st sk args) db := by
    intro hkey
    refine Does.tryCatch (X := fun e db' => db' = db ∧ db.openErasure env st sk args = .error e)
      (ends_atomic.mpr ?_) fun e db' ⟨hdb, hopen⟩ => ?_
    · cases hopen : db.openErasure env st sk args with
      | ok out => exact .inl rfl
      | error e => exact ⟨rfl, rfl⟩
    · subst hdb
      have hnot : ¬ Admits env db' st sk args := fun h => by
        obtain ⟨out, hok⟩ := h.opens
        rw [hopen] at hok
        exact absurd hok (by simp)
      split
      · refine does_bind.mpr (ends_query.mpr ?_)
        split
        · exact does_ret.mpr (.inr ⟨hnot, rfl⟩)
        · rename_i he _ _
          exact does_raise.mpr ⟨hnot, rfl, fun _ => he.1 ▸ trivial⟩
      · exact does_raise.mpr ⟨hnot, rfl, fun hby => openErasure_error hopen hby ▸ trivial⟩
  unfold requestErasure
  split
  · rename_i hdecl
    exact does_raise.mpr ⟨fun h => hdecl h.declared, rfl, fun _ => trivial⟩
  · split
    · rename_i hkey
      exact hinsert (.inl hkey)
    · rename_i hkey
      refine does_bind.mpr (ends_query.mpr ?_)
      split
      · rename_i existing hfound
        refine does_ret.mpr (.inr ⟨fun h => ?_, rfl⟩)
        rcases h.unkeyed with hempty | hnone
        · exact hkey hempty
        · rw [hnone] at hfound
          exact absurd hfound (by simp)
      · rename_i hnone
        exact hinsert (.inr hnone)

/-- A request that is not admitted, or concerns something else, spares the account. -/
theorem requestErasure_spares
    (h : st = subjectAccount → sk = userId → ¬ Admits env db st sk args) :
    Does (fun _ => True) (Spares env userId) (fun _ _ => True) (fun _ _ => True)
      (requestErasure env st sk args) db := by
  have hidle : ∀ {op : Op}, ¬ op.erases userId → Spares env userId op db db := fun h => .idle h
  by_cases hsub : st = subjectAccount ∧ sk = userId
  · -- the unit is tried at most once, and refused
    have hinsert : st ∈ env.subjectTypes →
        (args.idempotencyKey = "" ∨ db.keyed args.idempotencyKey = none) →
        Does (fun _ => True) (Spares env userId) (fun _ _ => True) (fun _ _ => True)
          (insertErasure env st sk args) db := by
      intro hdecl hkey
      refine Does.tryCatch (X := fun _ db' => db' = db) (does_atomic.mpr ⟨?_, fun _ _ =>
        ⟨hidle (by simp [Op.erases]), rfl⟩⟩) fun e db' hdb => ?_
      · cases hopen : db.openErasure env st sk args with
        | ok out => exact absurd (admits_of_openErasure hopen hdecl hkey) (h hsub.1 hsub.2)
        | error e => exact ⟨hidle (by simp [Op.erases]), rfl⟩
      · subst hdb
        split
        · refine does_bind.mpr (does_query.mpr ⟨⟨hidle (by simp [Op.erases]), ?_⟩, fun _ _ =>
            ⟨hidle (by simp [Op.erases]), trivial⟩⟩)
          split
          · exact does_ret.mpr trivial
          · exact does_raise.mpr trivial
        · exact does_raise.mpr trivial
    unfold requestErasure
    split
    · exact does_raise.mpr trivial
    · rename_i hdecl
      split
      · rename_i hkey
        exact hinsert (by simpa using hdecl) (.inl hkey)
      · refine does_bind.mpr (does_query.mpr ⟨⟨hidle (by simp [Op.erases]), ?_⟩, fun _ _ =>
          ⟨hidle (by simp [Op.erases]), trivial⟩⟩)
        split
        · exact does_ret.mpr trivial
        · rename_i hnone
          exact hinsert (by simpa using hdecl) (.inr hnone)
  · refine spares_of_harmless
      ((requestErasure_any.and (Always.does (requestErasure_labels ?_ ?_))).post
      (fun _ _ _ => trivial) fun _ _ _ => trivial)
    · exact trivial
    · exact hsub

/-! ### The doors -/

/-- The payload asks for the erasure of the account, and is admitted. -/
def ErasurePayload.opens (env : Env) (db : Db) (userId : UserId) (payload : ErasurePayload) :
    Prop :=
  payloadText payload.subjectType = subjectAccount ∧ payloadText payload.subjectKey = userId ∧
    userId ≠ "" ∧ Admits env db subjectAccount userId payload.args

/-- What `POST /erasures` passes on. -/
def postArgs (user : UserId) (post : ErasurePost) : ErasureArgs where
  workspaceId := post.workspaceId.filter (· ≠ "")
  requestedBy := .user user

/-- The call is one of the doors that ask no `LegalHold`, and what it asks for is the
erasure of the account and admitted. -/
def Call.opens (env : Env) (db : Db) (userId : UserId) : Call → Prop
  | requestErasure subjectType subjectKey args =>
      subjectType = subjectAccount ∧ subjectKey = userId ∧
        Admits env db subjectAccount userId args
  | erasureRequest payload | erasureOpen payload => payload.opens env db userId
  | postErasure user authorized post =>
      strip post.subjectType = subjectAccount ∧ strip post.subjectKey = userId ∧ userId ≠ "" ∧
        authorized subjectAccount userId = true ∧
        Admits env db subjectAccount userId (postArgs user post)
  | requeueAfterRestore restoredFrom dryRun =>
      dryRun = false ∧ subjectAccount ∈ env.subjectTypes ∧
        env.distinctOwners subjectAccount = true ∧
        ∃ source ∈ db.requeueCandidates restoredFrom, source.row.concerns userId
  | _ => False

/-! ### Under a hold, everything else is quiet -/

theorem discard_spares {α : Type} {p : Program α} {Q : α → Db → Prop} {E : Error → Db → Prop}
    (h : Does (fun _ => True) (Spares env userId) Q E p db) :
    Does (fun _ => True) (Spares env userId) (fun _ _ => True) (fun _ _ => True)
      (discard p) db :=
  (h.post (fun _ _ h => h) fun _ _ _ => trivial).bind fun _ _ _ => does_ret.mpr trivial

theorem openFromPayload_spares {payload : ErasurePayload}
    (h : ¬ payload.opens env db userId) :
    Does (fun _ => True) (Spares env userId) (fun _ _ => True) (fun _ _ => True)
      (openFromPayload env payload) db := by
  unfold openFromPayload
  dsimp only
  split
  · exact does_raise.mpr trivial
  · rename_i hnonempty
    refine requestErasure_spares fun htype hkey hadmits => h ⟨htype, hkey, fun hempty => ?_, ?_⟩
    · exact hnonempty (.inr (hkey.trans hempty))
    · rwa [htype, hkey] at hadmits

theorem postErasure_spares {user : UserId} {authorized : String → String → Bool}
    {post : ErasurePost} (h : ¬ (Call.postErasure user authorized post).opens env db userId) :
    Does (fun _ => True) (Spares env userId) (fun _ _ => True) (fun _ _ => True)
      (postErasure env user authorized post) db := by
  unfold postErasure
  dsimp only
  split
  · exact does_ret.mpr trivial
  · rename_i hnonempty
    split
    · exact does_ret.mpr trivial
    · rename_i hauth
      refine Does.tryCatch (X := fun _ _ => True) (Does.bind (requestErasure_spares
        fun htype hkey hadmits => ?_) fun _ _ _ => does_ret.mpr trivial) fun e _ _ => ?_
      · rw [htype, hkey] at hadmits hauth
        exact h ⟨htype, hkey, fun hempty => hnonempty (.inr (hkey.trans hempty)),
          by simpa using hauth, hadmits⟩
      · split
        · exact does_ret.mpr trivial
        · exact does_raise.mpr trivial

theorem requeueAfterRestore_spares {restoredFrom : Time} {dryRun : Bool}
    (h : ¬ (Call.requeueAfterRestore restoredFrom dryRun).opens env db userId) :
    Does (fun _ => True) (Spares env userId) (fun _ _ => True) (fun _ _ => True)
      (requeueAfterRestore env restoredFrom dryRun) db := by
  have hidle : Spares env userId .select db db := .idle (by simp [Op.erases])
  refine does_bind.mpr (does_query.mpr ⟨⟨hidle, ?_⟩, fun _ _ => ⟨hidle, trivial⟩⟩)
  split
  · exact does_ret.mpr trivial
  · rename_i hdry
    refine (Does.foldlM (J := fun rest _ _ => ∀ x ∈ rest, x ∈ db.requeueCandidates restoredFrom)
      (fun source rest totals db' hrest => ?_) fun _ h => h).post (fun _ _ _ => trivial)
      fun _ _ h => h
    have hrest' := fun x hx => hrest x (List.mem_cons_of_mem source hx)
    refine Does.tryCatch (X := fun _ _ => True) (Does.bind (requestErasure_spares
      fun htype hkey hadmits => ?_) fun _ _ _ => does_ret.mpr hrest') fun e _ _ => ?_
    · rw [htype] at hadmits
      exact h ⟨by simpa using hdry, hadmits.declared, hadmits.distinct, source,
        hrest source List.mem_cons_self, htype, hkey⟩
    · split
      · exact does_ret.mpr hrest'
      · exact does_ret.mpr hrest'
      · exact does_raise.mpr trivial

/-- The execution of a closure asks for the hold first. -/
theorem executeDeletion_spares (hheld : db.isHeld userId = true)
    {closure : Stored AccountClosureRequest} (hl : (Call.executeDeletion closure).Loaded db) :
    Does (fun _ => True) (Spares env userId) (fun _ _ => True) (fun _ _ => True)
      (executeDeletion env closure) db := by
  by_cases hu : closure.row.userId = userId
  · have hidle : Spares env userId .select db db := .idle (by simp [Op.erases])
    refine does_bind.mpr (does_query.mpr ⟨⟨hidle, ?_⟩, fun _ _ => ⟨hidle, trivial⟩⟩)
    rw [hu, hheld]
    exact does_raise.mpr trivial
  · exact spares_of_may hl fun op hop => DeletionOp.harmless hop hu

/-- The worker's list leaves out the held. -/
theorem processExpiredGracePeriods_spares (hheld : db.isHeld userId = true) :
    Does (fun _ => True) (Spares env userId) (fun _ _ => True) (fun _ _ => True)
      (processExpiredGracePeriods env) db := by
  refine spares_of_harmless (processExpiredGracePeriods_does trivial
    fun closure hmem op hop => hop.harmless ?_)
  rintro rfl
  have hsel := (Table.mem_select.mp hmem).2
  simp [hheld] at hsel

/-- Under a hold, a call that does not open the account's erasure spares the account. -/
theorem Call.spares (hheld : db.isHeld userId = true) {call : Call} (hl : call.Loaded db)
    (h : ¬ call.opens env db userId) :
    Does (fun _ => True) (Spares env userId) (fun _ _ => True) (fun _ _ => True)
      (call.prog env) db := by
  cases call with
  | initiateClosure | cancelClosure | markSectionErased | sectionErased |
      sweepDeletionDeadlines | recordObligations =>
      refine spares_of_may hl fun op hop => ?_
      cases op with
      | anonymize | delete | eraseIdentity | erasureUnit =>
          simp [Call.may, ReceiptOp, FlipOp] at hop
      | _ => exact trivial
  | executeDeletion closure => exact executeDeletion_spares hheld hl
  | processExpiredGracePeriods => exact processExpiredGracePeriods_spares hheld
  | requestErasure st sk args =>
      refine discard_spares (requestErasure_spares fun htype hkey hadmits => ?_)
      rw [htype, hkey] at hadmits
      exact h ⟨htype, hkey, hadmits⟩
  | erasureRequest payload =>
      refine discard_spares (Does.bind (openFromPayload_spares h)
        (Q := fun _ _ => True) fun _ _ _ => does_ret.mpr trivial)
  | erasureOpen payload =>
      refine Does.tryCatch (X := fun _ _ => True)
        ((openFromPayload_spares h).bind fun _ _ _ => does_ret.mpr trivial) fun e _ _ => ?_
      split
      · exact does_ret.mpr trivial
      · exact does_raise.mpr trivial
  | postErasure user authorized post => exact discard_spares (postErasure_spares h)
  | requeueAfterRestore restoredFrom dryRun =>
      exact discard_spares (requeueAfterRestore_spares h)

/-! ### An admitted request is opened, hold or no hold -/

/-- A request for the account stands in `db'` that was not in `db`. -/
def Breached (db : Db) (userId : UserId) (db' : Db) : Prop :=
  ∃ pk r, db'.requests.get? pk = some r ∧ db.requests.get? pk = none ∧ r.concerns userId

theorem not_quiet {call : Call}
    (h : Ends (fun _ => Breached db userId) (fun _ => Breached db userId) (call.prog env) db) :
    ¬ Quiet env call db userId := by
  intro hquiet
  obtain ⟨tr, hrun⟩ := runs_run (fun _ => True) (call.prog env) db
  obtain ⟨pk, r, hr, hno, hconcerns⟩ := h.run (fun _ _ h => h) fun _ _ h => h
  exact (hquiet tr _ _ hrun).1.requests pk r hr hno hconcerns

theorem openErasure_breaches {request : Stored ErasureRequest}
    (h : db.openErasure env subjectAccount userId args = .ok (request, db')) :
    Breached db userId db' := by
  obtain ⟨requestedBy, -, hrow, -, -, hdb⟩ := openErasure_ok h
  refine ⟨db.requests.nextPk, request.row, ?_, Table.get?_nextPk _, ?_⟩
  · rw [hdb]
    exact Table.get?_insert_nextPk _ _
  · rw [hrow]
    exact ⟨rfl, rfl⟩

theorem requestErasure_breaches (h : Admits env db subjectAccount userId args) :
    Ends (fun _ => Breached db userId) (fun _ _ => False)
      (requestErasure env subjectAccount userId args) db :=
  requestErasure_ends.post
    (fun _ _ hor => hor.elim openErasure_breaches fun hnot => absurd h hnot.1)
    fun _ _ hnot => hnot.1 h

theorem openFromPayload_breaches {payload : ErasurePayload} (h : payload.opens env db userId) :
    Ends (fun _ => Breached db userId) (fun _ _ => False) (openFromPayload env payload) db := by
  obtain ⟨htype, hkey, hne, hadmits⟩ := h
  unfold openFromPayload
  rw [htype, hkey, if_neg (by simp [hne, subjectAccount])]
  exact requestErasure_breaches hadmits

theorem postErasure_breaches {user : UserId} {authorized : String → String → Bool}
    {post : ErasurePost} (h : (Call.postErasure user authorized post).opens env db userId) :
    Ends (fun _ => Breached db userId) (fun _ _ => False)
      (postErasure env user authorized post) db := by
  obtain ⟨htype, hkey, hne, hauth, hadmits⟩ := h
  unfold postErasure
  dsimp only
  rw [htype, hkey, if_neg (by simp [hne, subjectAccount]), if_neg (by simp [hauth])]
  exact Does.tryCatch (X := fun _ _ => False)
    ((requestErasure_breaches hadmits).bind fun _ _ h => does_ret.mpr h) fun _ _ h => h.elim

/-- The rest of a re-queue run: each source still stands, and none has been re-queued. -/
def Unqueued (db : Db) (rest : List (Stored ErasureRequest)) : Prop :=
  rest.Pairwise (fun x y => x.pk ≠ y.pk) ∧
    ∀ x ∈ rest, db.requests.get? x.pk ≠ none ∧ ∀ i r, db.requests.get? i = some r →
      r.sourceRequest = some x.pk → r.origin ≠ .restoreRequeue

theorem unqueued_candidates {restoredFrom : Time} :
    Unqueued db (db.requeueCandidates restoredFrom) := by
  constructor
  · exact ((Table.pairwise_pk_select _ _).filter _).imp fun hlt => Nat.ne_of_lt hlt
  · intro x hx
    obtain ⟨hsel, hnone⟩ := List.mem_filter.mp hx
    refine ⟨by rw [(Table.mem_select.mp hsel).1]; simp, fun i r hr hsource horigin => ?_⟩
    rw [Bool.not_eq_true', Bool.eq_false_iff] at hnone
    exact hnone (Table.any_eq_true.mpr ⟨i, r, hr, by simp [hsource, horigin]⟩)

/-- Re-queueing one source leaves the others as they were. -/
theorem Unqueued.requeued {x : Stored ErasureRequest} {rest : List (Stored ErasureRequest)}
    (h : Unqueued db (x :: rest)) {r : ErasureRequest} (hr : r.sourceRequest = some x.pk)
    (hdb : db'.requests = db.requests.insert r) : Unqueued db' rest := by
  obtain ⟨hhead, htail⟩ := List.pairwise_cons.mp h.1
  refine ⟨htail, fun y hy => ?_⟩
  obtain ⟨hget, hnone⟩ := h.2 y (List.mem_cons_of_mem x hy)
  refine ⟨fun hno => ?_, fun i r' hr' hsource => ?_⟩
  · obtain ⟨row, hrow⟩ := Option.ne_none_iff_exists'.mp hget
    rw [hdb, Table.get?_insert_of_some _ hrow] at hno
    exact absurd hno (by simp)
  · rw [hdb, Table.get?_insert] at hr'
    split at hr'
    · rw [← Option.some.inj hr', hr] at hsource
      exact absurd (Option.some.inj hsource) (hhead y hy)
    · exact hnone i r' hr' hsource

/-- A source whose turn has come is admitted again. -/
theorem Unqueued.admits {x : Stored ErasureRequest} {rest : List (Stored ErasureRequest)}
    (h : Unqueued db (x :: rest)) {restoredFrom : Time} (hdecl : st ∈ env.subjectTypes)
    (hdistinct : env.distinctOwners st = true) :
    Admits env db st x.row.subjectKey (requeueArgs x restoredFrom) := by
  obtain ⟨hget, hnone⟩ := h.2 x List.mem_cons_self
  refine ⟨hdecl, .inl rfl, hdistinct, x.row.requestedBy, ?_, ?_⟩
  · unfold requeueArgs
    cases x.row.requestedBy <;> rfl
  · unfold Ledger.violates
    rw [Bool.or_eq_false_iff, Bool.or_eq_false_iff]
    refine ⟨⟨Bool.eq_false_iff.mpr fun hany => ?_, rfl⟩, ?_⟩
    · obtain ⟨i, r, hr, hbad⟩ := Table.any_eq_true.mp hany
      have hid : r.correlationId ≠ some db.uuid4 := Db.uuid4_fresh hr
      simp only [ErasureArgs.row, requeueArgs, Option.getD_none, Bool.or_eq_true,
        Bool.and_eq_true, ne_eq, not_true_eq_false, decide_false,
        Bool.false_eq_true, false_and, or_false, Option.isSome_some, true_and] at hbad
      rcases hbad with hcorr | ⟨hsource, horigin⟩
      · exact hid (of_decide_eq_true hcorr)
      · exact hnone i r hr (of_decide_eq_true hsource) (of_decide_eq_true horigin)
    · simpa [ErasureArgs.row, requeueArgs, Option.isSome_iff_ne_none] using hget

theorem Breached.openErasure {st sk : String} {args : ErasureArgs} {start : Db}
    {request : Stored ErasureRequest} (h : Breached start userId db)
    (hopen : db.openErasure env st sk args = .ok (request, db')) : Breached start userId db' := by
  obtain ⟨pk, r, hr, hno, hconcerns⟩ := h
  obtain ⟨requestedBy, -, -, -, -, hdb⟩ := openErasure_ok hopen
  exact ⟨pk, r, by rw [hdb]; exact Table.get?_insert_of_some _ hr, hno, hconcerns⟩

theorem requeueAfterRestore_breaches {restoredFrom : Time} {dryRun : Bool}
    (h : (Call.requeueAfterRestore restoredFrom dryRun).opens env db userId) :
    Ends (fun _ => Breached db userId) (fun _ _ => False)
      (requeueAfterRestore env restoredFrom dryRun) db := by
  obtain ⟨rfl, hdecl, hdistinct, source, hsource, hconcerns⟩ := h
  refine does_bind.mpr (ends_query.mpr ?_)
  rw [if_neg (by simp)]
  -- the account's own source is still to come, or its erasure has been opened
  refine (Does.foldlM (J := fun rest _ db' => Unqueued db' rest ∧ db.requests.nextPk ≤
    db'.requests.nextPk ∧ (Breached db userId db' ∨ source ∈ rest))
    (fun x rest totals db' ⟨hun, hle, hor⟩ => ?_) ⟨unqueued_candidates, le_rfl, .inr hsource⟩).post
    (fun _ _ hJ => hJ.2.2.resolve_right (by simp)) fun _ _ h => h
  have hby : (requeueArgs x restoredFrom).requestedBy.stored env.host ≠ none := by
    unfold requeueArgs
    cases x.row.requestedBy <;> simp [Requester.stored]
  have hmine : x = source → Admits env db' x.row.subjectType x.row.subjectKey
      (requeueArgs x restoredFrom) := by
    rintro rfl
    rw [hconcerns.1]
    exact hun.admits hdecl hdistinct
  have hskip : ¬ Admits env db' x.row.subjectType x.row.subjectKey (requeueArgs x restoredFrom) →
      Unqueued db' rest ∧ db.requests.nextPk ≤ db'.requests.nextPk ∧
        (Breached db userId db' ∨ source ∈ rest) := by
    intro hnot
    refine ⟨⟨(List.pairwise_cons.mp hun.1).2, fun y hy => hun.2 y (List.mem_cons_of_mem x hy)⟩,
      hle, hor.imp_right fun hmem => ?_⟩
    exact (List.mem_cons.mp hmem).resolve_left fun heq => hnot (hmine heq.symm)
  refine Does.tryCatch (X := fun e db'' => ¬ Admits env db' x.row.subjectType x.row.subjectKey
    (requeueArgs x restoredFrom) ∧ db'' = db' ∧ e.refusal) (Does.bind (requestErasure_ends.post
      (fun _ _ h => h) fun _ _ h => ⟨h.1, h.2.1, h.2.2 hby⟩) fun request db'' hend => ?_)
    fun e db'' ⟨hnot, hdb, hrefusal⟩ => ?_
  · refine does_ret.mpr ?_
    rcases hend with hopen | ⟨hnot, rfl⟩
    · obtain ⟨requestedBy, -, hrow, -, -, hdb⟩ := openErasure_ok hopen
      have hreq : db''.requests = db'.requests.insert request.row := by rw [hdb]
      refine ⟨hun.requeued (by rw [hrow]; rfl) hreq, ?_, ?_⟩
      · rw [hreq, Table.nextPk_insert]
        omega
      · rcases hor with hdone | hmem
        · exact .inl (hdone.openErasure hopen)
        · rcases List.mem_cons.mp hmem with rfl | hrest
          · refine .inl ⟨db'.requests.nextPk, request.row, ?_, ?_, ?_⟩
            · rw [hreq]
              exact Table.get?_insert_nextPk _ _
            · exact Table.get?_eq_none hle
            · rw [hrow]
              exact hconcerns
          · exact .inr hrest
    · exact hskip hnot
  · subst hdb
    cases e with
    | integrityError | valueError => exact does_ret.mpr (hskip hnot)
    | _ => exact hrefusal.elim

/-- Every door opens what it admits. -/
theorem Call.opens.breaches {call : Call} (h : call.opens env db userId) :
    Ends (fun _ => Breached db userId) (fun _ => Breached db userId) (call.prog env) db := by
  have hdiscard : ∀ {α : Type} {p : Program α},
      Ends (fun _ => Breached db userId) (fun _ _ => False) p db →
      Ends (fun _ => Breached db userId) (fun _ => Breached db userId) (discard p) db :=
    fun hp => (hp.post (fun _ _ h => h) fun _ _ h => h.elim).bind fun _ _ h => does_ret.mpr h
  cases call with
  | requestErasure st sk args =>
      obtain ⟨rfl, rfl, hadmits⟩ := h
      exact hdiscard (requestErasure_breaches hadmits)
  | erasureRequest payload =>
      exact hdiscard ((openFromPayload_breaches h).bind fun _ _ h => does_ret.mpr h)
  | erasureOpen payload =>
      exact Does.tryCatch (X := fun _ _ => False)
        ((openFromPayload_breaches h).bind fun _ _ h => does_ret.mpr h) fun _ _ h => h.elim
  | postErasure user authorized post => exact hdiscard (postErasure_breaches h)
  | requeueAfterRestore restoredFrom dryRun => exact hdiscard (requeueAfterRestore_breaches h)
  | _ => exact h.elim

/-- **The doors of a held account.** Started while the user is under an unreleased hold, a
call leaves the account alone on every run, failures and crashes included, exactly when it
is not an admitted erasure request through one of the doors that ask no hold. -/
theorem quiet_iff_not_opens (hheld : db.isHeld userId = true) (env : Env) {call : Call}
    (hl : call.Loaded db) : Quiet env call db userId ↔ ¬ call.opens env db userId :=
  ⟨fun hquiet h => not_quiet h.breaches hquiet, fun h => quiet_of_spares (Call.spares hheld hl h)⟩

/-- The account of the deployment, closing, under a hold. -/
def heldClosing : Db := { closing with holds := ⟨[{ userId := "u1", reason := "litigation" }]⟩ }

theorem reachable_heldClosing : Reachable heldClosing :=
  reachable_closing.tail (.host closing.users _ closing.hashes)

theorem quiet_iff_not_opens_worker :
    Quiet (deploymentOn 30) .processExpiredGracePeriods heldClosing "u1" :=
  (quiet_iff_not_opens (by decide +kernel) (deploymentOn 30)
    (show Call.processExpiredGracePeriods.Loaded heldClosing from trivial)).mpr fun h => h

/-- `request_erasure("account", u1)` under a hold on `u1`. -/
theorem hold_does_not_block_request : ¬ ∀ (env : Env) (s : Db), Reachable s → ∀ userId,
    s.isHeld userId = true → ∀ call : Call, call.Loaded s → Quiet env call s userId := by
  intro hclaim
  refine not_quiet (Call.opens.breaches ?_) (hclaim deployment _ reachable_heldClosing "u1"
    (by decide +kernel) (.requestErasure "account" "u1" {}) trivial)
  exact ⟨rfl, rfl, by decide +kernel, .inl rfl, by decide +kernel, none, rfl, by decide +kernel⟩

end StapelGdpr
