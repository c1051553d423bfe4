import StapelGdpr.Lib.Recall
import StapelGdpr.Run

/-!
# StapelGdpr.Statements

Which statements a deletion can issue at all, on any store: those of `DeletionOp`. It works
on one closure and one user, and every other row it touches is reached through its erasure
request.
-/

namespace StapelGdpr

open Prog

/-- The statements of a certification, from the flip on. -/
def FlipOp : Op → Prop
  | .certify _ | .obligationQuery .. | .obligation .. | .closureDeleted _ => True
  | _ => False

/-- The statements of the local work of an execution. -/
def LocalOp (pk : Nat) (userId : UserId) : Op → Prop
  | .select | .storeHash _ | .localReceipt _ => True
  | .identityErased k | .localDoneUnit k => k = pk
  | .anonymize _ u | .delete _ u | .eraseIdentity u => u = userId
  | _ => False

/-- The statements of an execution of closure `pk`, of user `userId`. -/
def DeletionOp (pk : Nat) (userId : UserId) : Op → Prop
  | .startDeleting k => k = pk
  | .erasureUnit subjectType subjectKey => subjectType = subjectAccount ∧ subjectKey = userId
  | op => LocalOp pk userId op ∨ FlipOp op

def Op.isSelect (op : Op) : Bool := op = .select

variable {env : Env} {M : Op → Db → Db → Prop} {P : Op → Prop} {α : Type}

theorem DeletionOp.ofLocal {pk : Nat} {userId : UserId} {op : Op} (h : LocalOp pk userId op) :
    DeletionOp pk userId op := by
  cases op <;> first | exact .inl h | exact h.elim

theorem DeletionOp.ofFlip {pk : Nat} {userId : UserId} {op : Op} (h : FlipOp op) :
    DeletionOp pk userId op := by
  cases op <;> first | exact .inr h | exact h.elim

theorem always_select {g : Db → α} (h : ∀ db, M .select db db) :
    Always M (Program.select g) := .query h

theorem labels_select {g : Db → α} (h : P .select) : Labels P (Program.select g) :=
  labels_query h

/-! ### Functions that keep nothing in mind

What these do to the store does not depend on what they read before: they satisfy any `M`
their statements satisfy one by one. -/

theorem getOrCreateHash_always {userId : UserId} {hashType : HashType} {value : String}
    (hs : ∀ db, M .select db db)
    (hh : ∀ (db : Db) new, M (.storeHash userId) db { db with hashes := db.hashes ++ new }) :
    Always M (getOrCreateHash env userId hashType value) := by
  refine (always_select hs).bind fun existing => ?_
  split
  · exact always_ret
  · refine Always.tryCatch (.atomic fun db => ⟨by simpa using hh db [], fun _ db' hok => ?_⟩)
      fun e => ?_
    · split at hok
      · exact absurd hok (by simp)
      · obtain ⟨-, rfl⟩ := Prod.mk.inj (Except.ok.inj hok)
        exact hh db _
    · split
      · refine (always_select hs).bind fun raced => ?_
        split
        · exact always_ret
        · exact always_raise
      · exact always_raise

theorem storeHashes_always {userId : UserId} {email phone : Option String}
    (hs : ∀ db, M .select db db)
    (hh : ∀ (db : Db) new, M (.storeHash userId) db { db with hashes := db.hashes ++ new }) :
    Always M (storeHashes env userId email phone) := by
  refine Always.foldlM fun written f _ => ?_
  cases f.2 with
  | none => exact always_ret
  | some value =>
      dsimp only
      split
      · exact always_ret
      · exact (getOrCreateHash_always hs hh).bind fun _ => always_ret

theorem storeReregistrationHashes_always {userId : UserId} (hs : ∀ db, M .select db db)
    (hh : ∀ (db : Db) new, M (.storeHash userId) db { db with hashes := db.hashes ++ new }) :
    Always M (storeReregistrationHashes env userId) := by
  refine Always.tryCatch ((always_select hs).bind fun found => ?_) fun _ => always_ret
  cases found with
  | none => exact always_ret
  | some user => exact (storeHashes_always hs hh).bind fun _ => always_ret

theorem runDeletionInprocess_always {userId : UserId}
    (ha : ∀ name db, M (.anonymize name userId) db db)
    (hd : ∀ name db, M (.delete name userId) db db) :
    Always M (runDeletionInprocess env userId) := by
  refine Always.bind (Always.foldlM fun failed name _ => ?_) fun failed =>
    Always.foldlM fun failed name _ => ?_
  · exact ((Always.external (ha name)).bind fun _ => always_ret).tryCatch fun _ => always_ret
  · exact ((Always.external (hd name)).bind fun _ => always_ret).tryCatch fun _ => always_ret

theorem recordLocalReceipts_always {request : Stored ErasureRequest} {failed : List String}
    (hs : ∀ db, M .select db db)
    (hr : ∀ i (db : Db), M (.localReceipt i) db db ∧ ∀ counts, M (.localReceipt i) db { db with
      parts := db.parts.modify i (·.recordReceipt env.now counts) }) :
    Always M (recordLocalReceipts env request failed) := by
  refine Always.forM fun owner _ => ?_
  unfold recordLocalReceipt
  split
  · exact always_ret
  · refine (always_select hs).bind fun found => ?_
    cases found with
    | none => exact always_ret
    | some part =>
        dsimp only
        split
        · exact always_ret
        · exact Always.write fun db => ⟨(hr part.pk db).1, (hr part.pk db).2 part.row.counts⟩

theorem identityErased_always {userId : UserId} (hs : ∀ db, M .select db db)
    (he : ∀ (db : Db) users, M (.eraseIdentity userId) db { db with users := users }) :
    Always M (identityErased env userId) := by
  refine Always.tryCatch (Always.bind ?_ fun _ => always_ret) fun _ => always_ret
  refine (always_select hs).bind fun found => ?_
  cases found with
  | none => exact always_ret
  | some user =>
      refine (Always.write fun db => ⟨he db db.users, he db _⟩).bind fun _ =>
        (always_select hs).bind fun after => ?_
      dsimp only
      split
      · exact always_raise
      · exact always_ret

theorem insertErasure_always {st sk : String} {args : ErasureArgs} (hs : ∀ db, M .select db db)
    (hu : ∀ db, M (.erasureUnit st sk) db db ∧ ∀ request db',
      db.openErasure env st sk args = .ok (request, db') → M (.erasureUnit st sk) db db') :
    Always M (insertErasure env st sk args) := by
  refine Always.tryCatch (.atomic hu) fun e => ?_
  split
  · refine (always_select hs).bind fun winner => ?_
    cases winner with
    | none => exact always_raise
    | some winner => exact always_ret
  · exact always_raise

theorem requestErasure_always {st sk : String} {args : ErasureArgs} (hs : ∀ db, M .select db db)
    (hu : ∀ db, M (.erasureUnit st sk) db db ∧ ∀ request db',
      db.openErasure env st sk args = .ok (request, db') → M (.erasureUnit st sk) db db') :
    Always M (requestErasure env st sk args) := by
  unfold requestErasure
  split
  · exact always_raise
  · split
    · exact insertErasure_always hs hu
    · refine (always_select hs).bind fun existing => ?_
      cases existing with
      | none => exact insertErasure_always hs hu
      | some existing => exact always_ret

theorem getOrCreateObligation_always {request : Nat} {anchor : Time} {name : String}
    {window : Int} (hq : ∀ db, M (.obligationQuery request name) db db)
    (ho : ∀ db : Db, M (.obligation request name) db db ∧ ∀ o,
      M (.obligation request name) db { db with obligations := db.obligations.insert o }) :
    Always M (getOrCreateObligation env request anchor name window) := by
  unfold getOrCreateObligation
  split
  · exact always_raise
  · refine (Always.query hq).bind fun existing => ?_
    split
    · exact always_ret
    · refine Always.tryCatch (.atomic fun db => ⟨(ho db).1, fun created db' hok => ?_⟩)
        fun e => ?_
      · obtain ⟨-, -, -, rfl⟩ := createObligation_ok hok
        exact (ho db).2 _
      · split
        · refine (Always.query hq).bind fun raced => ?_
          split
          · exact always_ret
          · exact always_raise
        · exact always_raise

theorem recordSubprocessorObligations_always {request : Stored ErasureRequest}
    {providers : List String} (hq : ∀ name db, M (.obligationQuery request.pk name) db db)
    (ho : ∀ name (db : Db), M (.obligation request.pk name) db db ∧ ∀ o,
      M (.obligation request.pk name) db { db with obligations := db.obligations.insert o }) :
    Always M (recordSubprocessorObligations env request providers) := by
  unfold recordSubprocessorObligations
  split
  · exact always_raise
  · exact Always.foldlM fun written p _ =>
      (getOrCreateObligation_always (hq p.1) (ho p.1)).bind fun _ => always_ret

/-- A recording leaves requests and closures alone, and only adds obligations. -/
structure OnlyObliges (a b : Db) : Prop where
  requests : b.requests = a.requests
  closures : b.closures = a.closures
  obligations : ∀ i o, a.obligations.get? i = some o → b.obligations.get? i = some o

theorem OnlyObliges.refl (a : Db) : OnlyObliges a a := ⟨rfl, rfl, fun _ _ h => h⟩

theorem OnlyObliges.trans {a b c : Db} (h : OnlyObliges a b) (h' : OnlyObliges b c) :
    OnlyObliges a c :=
  ⟨h'.requests.trans h.requests, h'.closures.trans h.closures,
    fun i o ho => h'.obligations i o (h.obligations i o ho)⟩

theorem OnlyObliges.insert (a : Db) (o : SubprocessorObligation) :
    OnlyObliges a { a with obligations := a.obligations.insert o } :=
  ⟨rfl, rfl, fun _ _ h => Table.get?_insert_of_some _ h⟩

theorem OnlyObliges.hasObligation {a b : Db} (h : OnlyObliges a b) {request : Nat}
    {name : String} (hhas : a.hasObligation request name = true) :
    b.hasObligation request name = true := by
  obtain ⟨i, o, ho, hp⟩ := Table.any_eq_true.mp hhas
  exact Table.any_eq_true.mpr ⟨i, o, h.obligations i o ho, hp⟩

/-! ### Executions -/

/-- What is asked of the statements of a certification. -/
structure FlipSteps (env : Env) (M : Op → Db → Db → Prop) : Prop where
  select : ∀ db, M .select db db
  certify : ∀ pk (db : Db), M (.certify pk) db db ∧ ∀ waived, M (.certify pk) db { db with
    requests := db.requests.modify pk (·.certify env.now waived) }
  query : ∀ request name db, M (.obligationQuery request name) db db
  obligation : ∀ request name (db : Db), M (.obligation request name) db db ∧ ∀ o,
    M (.obligation request name) db { db with obligations := db.obligations.insert o }
  delete : ∀ pk (db : Db), M (.closureDeleted pk) db db ∧ ∀ waived, M (.closureDeleted pk) db
    { db with closures := db.closures.modify pk (·.delete env.now waived) }

/-- What is asked of the statements of the local work on closure `pk`, of user `userId`, once
the hashes are stored. -/
structure StoredSteps (env : Env) (pk : Nat) (userId : UserId) (M : Op → Db → Db → Prop) :
    Prop where
  select : ∀ db, M .select db db
  anonymize : ∀ name db, M (.anonymize name userId) db db
  delete : ∀ name db, M (.delete name userId) db db
  localReceipt : ∀ i (db : Db), M (.localReceipt i) db db ∧ ∀ counts, M (.localReceipt i) db
    { db with parts := db.parts.modify i (·.recordReceipt env.now counts) }
  eraseIdentity : ∀ (db : Db) users, M (.eraseIdentity userId) db { db with users := users }
  identityErased : ∀ db : Db, M (.identityErased pk) db db ∧ M (.identityErased pk) db
    { db with closures := db.closures.modify pk (·.eraseIdentity env.now) }
  localDone : ∀ db : Db, M (.localDoneUnit pk) db db ∧ ∀ correlationId trigger,
    M (.localDoneUnit pk) db (Db.emit { db with closures := db.closures.modify pk (·.finishLocal) }
      [.userDeleted userId correlationId trigger])

/-- What is asked of all of them. -/
structure LocalSteps (env : Env) (pk : Nat) (userId : UserId) (M : Op → Db → Db → Prop) :
    Prop extends StoredSteps env pk userId M where
  storeHash : ∀ (db : Db) new, M (.storeHash userId) db { db with hashes := db.hashes ++ new }

theorem certify_always {request : Stored ErasureRequest}
    {closure : Option (Stored AccountClosureRequest)} {waived : Bool} (h : FlipSteps env M) :
    Always M (certify env request closure waived) := by
  refine (Always.write fun db => ⟨(h.certify _ db).1, (h.certify _ db).2 waived⟩).bind fun _ => ?_
  refine (recordSubprocessorObligations_always (h.query _) (h.obligation _)).bind fun _ => ?_
  cases closure with
  | none => exact always_ret
  | some closure => exact .write fun db => ⟨(h.delete _ db).1, (h.delete _ db).2 waived⟩

theorem maybeFinalize_always {request : Stored ErasureRequest}
    {cached : Option (Stored AccountClosureRequest)} (h : FlipSteps env M) :
    Always M (maybeFinalize env request cached) := by
  unfold maybeFinalize
  split
  · exact always_ret
  · refine Always.bind ?_ fun closure => ?_
    · unfold requestClosure
      split
      · exact always_ret
      · exact always_ret
      · refine (always_select h.select).bind fun found => ?_
        cases found with
        | none => exact always_raise
        | some row => exact always_ret
    · split
      · exact always_ret
      · refine (always_select h.select).bind fun unreceipted => ?_
        dsimp only
        split
        · exact always_ret
        · exact certify_always h

/-- `eraseSubject` once the hashes are stored. -/
def eraseStored (env : Env) (closure : Stored AccountClosureRequest) (correlationId : Uuid)
    (erasure : Stored ErasureRequest) : Program (Option (Stored AccountClosureRequest)) := do
  let failed ← runDeletionInprocess env closure.row.userId
  recordLocalReceipts env erasure failed
  if failed ≠ [] then return none
  else do
    let erased ← identityErased env closure.row.userId
    if erased = false then return none
    else do
      Prog.write (.identityErased closure.pk) fun db => { db with
        closures := db.closures.modify closure.pk (·.eraseIdentity env.now) }
      Prog.write (.localDoneUnit closure.pk) fun db => Db.emit { db with
        closures := db.closures.modify closure.pk (·.finishLocal) }
        [.userDeleted closure.row.userId correlationId closure.row.trigger]
      return some ⟨closure.pk, (closure.row.eraseIdentity env.now).finishLocal⟩

theorem eraseSubject_eq (closure : Stored AccountClosureRequest) (correlationId : Uuid)
    (erasure : Stored ErasureRequest) : eraseSubject env closure correlationId erasure =
      storeReregistrationHashes env closure.row.userId >>= fun _ =>
        eraseStored env closure correlationId erasure := rfl

theorem eraseStored_always {closure : Stored AccountClosureRequest} {correlationId : Uuid}
    {erasure : Stored ErasureRequest} (h : StoredSteps env closure.pk closure.row.userId M) :
    Always M (eraseStored env closure correlationId erasure) := by
  refine (runDeletionInprocess_always h.anonymize h.delete).bind fun failed => ?_
  refine (recordLocalReceipts_always h.select h.localReceipt).bind fun _ => ?_
  split
  · exact always_ret
  · refine Always.bind (identityErased_always h.select h.eraseIdentity) fun erased => ?_
    split
    · exact always_ret
    · refine Always.bind (.write fun db => h.identityErased db) fun _ => ?_
      exact Always.bind (.write fun db => ⟨(h.localDone db).1, (h.localDone db).2 _ _⟩)
        fun _ => always_ret

theorem eraseSubject_always {closure : Stored AccountClosureRequest} {correlationId : Uuid}
    {erasure : Stored ErasureRequest} (h : LocalSteps env closure.pk closure.row.userId M) :
    Always M (eraseSubject env closure correlationId erasure) := by
  rw [eraseSubject_eq]
  exact (storeReregistrationHashes_always h.select h.storeHash).bind fun _ =>
    eraseStored_always h.toStoredSteps

theorem startDeleting_always {closure : Stored AccountClosureRequest}
    (h : ∀ db : Db, M (.startDeleting closure.pk) db db ∧ M (.startDeleting closure.pk) db { db with
      closures := db.closures.modify closure.pk (·.startDeleting
        (closure.row.correlationId.getD db.uuid4) env.report.version)
      uuids := if closure.row.correlationId.isSome then db.uuids else db.uuid4 + 1 }) :
    Always M (startDeleting env closure) :=
  .atomic fun db => ⟨(h db).1, fun id db' hok => by
    obtain ⟨-, rfl⟩ := Prod.mk.inj (Except.ok.inj hok)
    exact (h db).2⟩

theorem closureErasure_always {closure : Stored AccountClosureRequest} {correlationId : Uuid}
    (hs : ∀ db, M .select db db)
    (hu : ∀ db, M (.erasureUnit subjectAccount closure.row.userId) db db ∧ ∀ request db',
      db.openErasure env subjectAccount closure.row.userId
        (closureErasureArgs closure correlationId) = .ok (request, db') →
      M (.erasureUnit subjectAccount closure.row.userId) db db') :
    Always M (closureErasure env closure correlationId) := by
  refine (always_select hs).bind fun found => ?_
  cases found with
  | some erasure => exact always_ret
  | none => exact (requestErasure_always hs hu).bind fun _ => always_ret

/-- An execution, from its own first write and its own opening on. -/
theorem executeDeletion_always {closure : Stored AccountClosureRequest}
    (hstart : Always M (startDeleting env closure))
    (hopen : ∀ id, Always M (closureErasure env
      ⟨closure.pk, closure.row.startDeleting id env.report.version⟩ id))
    (hlocal : LocalSteps env closure.pk closure.row.userId M) (hflip : FlipSteps env M) :
    Always M (executeDeletion env closure) := by
  refine (always_select hlocal.select).bind fun held => ?_
  split
  · exact always_raise
  · refine hstart.bind fun id => (hopen id).bind fun ⟨erasure, created⟩ => ?_
    refine Always.bind (eraseSubject_always hlocal) fun erased => ?_
    cases erased with
    | none => exact always_ret
    | some erased => exact maybeFinalize_always hflip

/-- The same, of an execution that remembers what it has read. -/
theorem executeDeletion_recalls {T : List (Memo Op Db) → Op → Db → Db → Prop}
    {closure : Stored AccountClosureRequest} {past : List (Memo Op Db)}
    (hheld : ∀ db, T past .select db db)
    (hstart : ∀ db, Recalls T (fun _ _ => True) (startDeleting env closure)
      (past ++ [⟨.select, db, db, true⟩]))
    (hopen : ∀ id past', past <+: past' → Recalls T (fun _ _ => True) (closureErasure env
      ⟨closure.pk, closure.row.startDeleting id env.report.version⟩ id) past')
    (hlocal : ∀ id erasure past', past <+: past' → Recalls T (fun _ _ => True) (eraseSubject env
      ⟨closure.pk, closure.row.startDeleting id env.report.version⟩ id erasure) past')
    (hflip : ∀ request cached past', past <+: past' →
      Recalls T (fun _ _ => True) (maybeFinalize env request cached) past') :
    Recalls T (fun _ _ => True) (executeDeletion env closure) past := by
  refine Recalls.query_bind fun db => ⟨hheld db, ?_⟩
  have hpast := List.prefix_append past [⟨.select, db, db, true⟩]
  split
  · exact trivial
  · refine (hstart db).bind fun id past₁ h₁ _ => ?_
    refine (hopen id _ (hpast.trans h₁)).bind fun ⟨erasure, created⟩ past₂ h₂ _ => ?_
    refine (hlocal id erasure _ (hpast.trans (h₁.trans h₂))).bind fun erased past₃ h₃ _ => ?_
    cases erased with
    | none => exact trivial
    | some erased => exact hflip _ _ _ (hpast.trans (h₁.trans (h₂.trans h₃)))

/-- A relation that admits every statement of a certification, whatever it does. -/
theorem FlipSteps.ofOps (hs : ∀ db, M .select db db) (hf : ∀ op a b, FlipOp op → M op a b) :
    FlipSteps env M where
  select := hs
  certify _ _ := ⟨hf (.certify _) _ _ trivial, fun _ => hf (.certify _) _ _ trivial⟩
  query _ _ _ := hf (.obligationQuery _ _) _ _ trivial
  obligation _ _ _ := ⟨hf (.obligation _ _) _ _ trivial, fun _ => hf (.obligation _ _) _ _ trivial⟩
  delete _ _ := ⟨hf (.closureDeleted _) _ _ trivial, fun _ => hf (.closureDeleted _) _ _ trivial⟩

/-- A relation that admits every statement of the local work, whatever it does. -/
theorem LocalSteps.ofOps {pk : Nat} {userId : UserId}
    (h : ∀ op a b, LocalOp pk userId op → M op a b) : LocalSteps env pk userId M where
  select _ := h .select _ _ trivial
  storeHash _ _ := h (.storeHash _) _ _ trivial
  anonymize _ _ := h (.anonymize _ _) _ _ rfl
  delete _ _ := h (.delete _ _) _ _ rfl
  localReceipt _ _ := ⟨h (.localReceipt _) _ _ trivial, fun _ => h (.localReceipt _) _ _ trivial⟩
  eraseIdentity _ _ := h (.eraseIdentity _) _ _ rfl
  identityErased _ := ⟨h (.identityErased _) _ _ rfl, h (.identityErased _) _ _ rfl⟩
  localDone _ := ⟨h (.localDoneUnit _) _ _ rfl, fun _ _ => h (.localDoneUnit _) _ _ rfl⟩

theorem FlipSteps.ofLabels (hs : P .select) (hf : ∀ op, FlipOp op → P op) :
    FlipSteps env fun op _ _ => P op :=
  .ofOps (fun _ => hs) fun op _ _ => hf op

theorem LocalSteps.ofLabels {pk : Nat} {userId : UserId}
    (h : ∀ op, LocalOp pk userId op → P op) : LocalSteps env pk userId fun op _ _ => P op :=
  .ofOps fun op _ _ => h op

theorem eraseSubject_labels {closure : Stored AccountClosureRequest} {correlationId : Uuid}
    {erasure : Stored ErasureRequest} (h : ∀ op, LocalOp closure.pk closure.row.userId op → P op) :
    Labels P (eraseSubject env closure correlationId erasure) :=
  eraseSubject_always (.ofLabels h)

theorem requestErasure_labels {st sk : String} {args : ErasureArgs} (hs : P .select)
    (hu : P (.erasureUnit st sk)) : Labels P (requestErasure env st sk args) :=
  requestErasure_always (fun _ => hs) fun _ => ⟨hu, fun _ _ _ => hu⟩

/-- An execution works on its own closure and its own user. -/
theorem executeDeletion_labels {closure : Stored AccountClosureRequest} :
    Labels (DeletionOp closure.pk closure.row.userId) (executeDeletion env closure) := by
  have hs : DeletionOp closure.pk closure.row.userId .select := .inl trivial
  have hu : DeletionOp closure.pk closure.row.userId
      (.erasureUnit subjectAccount closure.row.userId) := ⟨rfl, rfl⟩
  have hstart : DeletionOp closure.pk closure.row.userId (.startDeleting closure.pk) := rfl
  exact executeDeletion_always (startDeleting_always fun _ => ⟨hstart, hstart⟩)
    (fun _ => closureErasure_always (fun _ => hs) fun _ => ⟨hu, fun _ _ _ => hu⟩)
    (.ofLabels fun _ => .ofLocal) (.ofLabels hs fun _ => .ofFlip)

theorem expireClosure_labels {closure : Stored AccountClosureRequest} :
    Labels (DeletionOp closure.pk closure.row.userId) (expireClosure env closure) :=
  executeDeletion_labels.tryCatch fun _ => always_ret

/-- A run of the worker: the closures it selects, and no others, are worked on. -/
theorem processExpiredGracePeriods_does {db : Db} (hs : P .select)
    (h : ∀ closure ∈ db.expiredGrace env.now, ∀ op,
      DeletionOp closure.pk closure.row.userId op → P op) :
    Does (fun _ => True) (fun op a b => Move env op a b ∧ P op) (fun _ _ => True)
      (fun _ _ => True) (processExpiredGracePeriods env) db := by
  have hworker : Moves env (fun _ _ => True) (fun _ _ => True) (processExpiredGracePeriods env) db :=
    processExpiredGracePeriods_moves
  have hmoves := (does_query.mp (does_bind.mp hworker)).1.2
  have hlabels : Labels P ((db.expiredGrace env.now).forM (expireClosure env)) :=
    Always.forM fun closure hmem => expireClosure_labels.mono fun op _ _ => h closure hmem op
  refine does_bind.mpr (does_query.mpr ⟨⟨⟨.idle, hs⟩, ?_⟩, fun _ _ => ⟨⟨.idle, hs⟩, trivial⟩⟩)
  exact (hmoves.and hlabels.does).post (fun _ _ _ => trivial) fun _ _ _ => trivial

/-! ### Closure, receipts, deadlines -/

theorem initiateClosure_labels {userId : UserId} {trigger : ClosureTrigger} (hs : P .select)
    (hu : P (.closureUnit userId)) : Labels P (initiateClosure env userId trigger) := by
  refine (labels_select hs).bind fun held => ?_
  split
  · exact always_raise
  · refine (labels_select hs).bind fun pending => ?_
    split
    · exact always_raise
    · exact labels_atomic hu

theorem cancelClosure_labels {userId : UserId} (hs : P .select) (hu : ∀ pk, P (.cancelUnit pk)) :
    Labels P (cancelClosure env userId) := by
  refine (labels_select hs).bind fun found => ?_
  cases found with
  | none => exact always_raise
  | some closure => exact labels_atomic (hu closure.pk)

theorem markSectionErased_always {correlationId : Uuid} {service receiptId : String}
    {counts : Counts} (hr : ∀ request (db : Db), M (.receipt request service) db db ∧
      M (.receipt request service) db { db with
        parts := db.parts.update (·.awaits request service)
          (·.receive env.now correlationId receiptId counts) })
    (hf : FlipSteps env M) :
    Always M (markSectionErased env correlationId service receiptId counts) := by
  refine (always_select hf.select).bind fun found => ?_
  cases found with
  | none => exact always_ret
  | some request =>
      refine Always.bind (.atomic fun db => ⟨(hr request.pk db).1, fun _ db' hok => ?_⟩)
        fun updated => ?_
      · obtain ⟨-, rfl⟩ := Prod.mk.inj (Except.ok.inj hok)
        exact (hr request.pk db).2
      · split
        · exact always_ret
        · refine (always_select hf.select).bind fun refreshed => ?_
          cases refreshed with
          | none => exact always_raise
          | some row => exact maybeFinalize_always hf

theorem markSectionErased_labels {correlationId : Uuid} {service receiptId : String}
    {counts : Counts} (hs : P .select) (hr : ∀ request, P (.receipt request service))
    (hf : ∀ op, FlipOp op → P op) :
    Labels P (markSectionErased env correlationId service receiptId counts) :=
  markSectionErased_always (fun request _ => ⟨hr request, hr request⟩) (.ofLabels hs hf)

theorem handleSectionErased_labels {event : SectionErased} (hs : P .select)
    (hr : ∀ request service, P (.receipt request service)) (hf : ∀ op, FlipOp op → P op) :
    Labels P (handleSectionErased env event) := by
  unfold handleSectionErased
  split
  · exact always_ret
  · split
    · exact always_ret
    · exact markSectionErased_labels hs (fun request => hr request _) hf

theorem sweepDeletionDeadlines_always (hs : ∀ db, M .select db db)
    (hp : ∀ db : Db, M .sweepParts db db ∧ M .sweepParts db { db with
      parts := db.parts.update (·.overdue env.now) (·.timeOut) })
    (hu : ∀ request (db : Db), M (.timeoutUnit request) db db ∧ ∀ actions,
      M (.timeoutUnit request) db
        (Db.emit { db with requests := db.requests.modify request (·.timeOut) } actions)) :
    Always M (sweepDeletionDeadlines env) := by
  refine (always_select hs).bind fun affected => ?_
  refine Always.bind (.atomic fun db => ⟨(hp db).1, fun _ db' hok => ?_⟩) fun count => ?_
  · obtain ⟨-, rfl⟩ := Prod.mk.inj (Except.ok.inj hok)
    exact (hp db).2
  · split
    · exact always_ret
    · refine (always_select hs).bind fun requests => Always.bind ?_ fun _ => always_ret
      exact Always.forM fun request _ => .write fun db =>
        ⟨(hu request.pk db).1, (hu request.pk db).2 _⟩

theorem sweepDeletionDeadlines_labels (hs : P .select) (hp : P .sweepParts)
    (hu : ∀ request, P (.timeoutUnit request)) : Labels P (sweepDeletionDeadlines env) :=
  sweepDeletionDeadlines_always (fun _ => hs) (fun _ => ⟨hp, hp⟩)
    fun request _ => ⟨hu request, fun _ => hu request⟩

/-! ### The doors of `request_erasure` -/

theorem discard_labels {p : Program α} (h : Labels P p) : Labels P (discard p) :=
  h.bind fun _ => always_ret

theorem openFromPayload_labels {payload : ErasurePayload} (hs : P .select)
    (hu : P (.erasureUnit (payloadText payload.subjectType) (payloadText payload.subjectKey))) :
    Labels P (openFromPayload env payload) := by
  unfold openFromPayload
  dsimp only
  split
  · exact always_raise
  · exact requestErasure_labels hs hu

theorem handleErasureOpen_labels {payload : ErasurePayload} (hs : P .select)
    (hu : P (.erasureUnit (payloadText payload.subjectType) (payloadText payload.subjectKey))) :
    Labels P (handleErasureOpen env payload) := by
  refine Always.tryCatch ((openFromPayload_labels hs hu).bind fun _ => always_ret) fun e => ?_
  split
  · exact always_ret
  · exact always_raise

theorem postErasure_labels {user : UserId} {authorized : String → String → Bool}
    {post : ErasurePost} (hs : P .select)
    (hu : P (.erasureUnit (strip post.subjectType) (strip post.subjectKey))) :
    Labels P (postErasure env user authorized post) := by
  unfold postErasure
  dsimp only
  split
  · exact always_ret
  · split
    · exact always_ret
    · refine Always.tryCatch ((requestErasure_labels hs hu).bind fun _ => always_ret) fun e => ?_
      split
      · exact always_ret
      · exact always_raise

theorem requeueAfterRestore_labels {restoredFrom : Time} {dryRun : Bool} (hs : P .select)
    (hu : ∀ st sk, P (.erasureUnit st sk)) :
    Labels P (requeueAfterRestore env restoredFrom dryRun) := by
  refine (labels_select hs).bind fun candidates => ?_
  split
  · exact always_ret
  · refine Always.foldlM fun totals source _ => ?_
    refine Always.tryCatch ((requestErasure_labels hs (hu _ _)).bind fun _ => always_ret) fun e => ?_
    split
    · exact always_ret
    · exact always_ret
    · exact always_raise

/-! ### Every call -/

/-- The statements a receipt can lead to. -/
def ReceiptOp : Op → Prop
  | .select | .receipt .. => True
  | op => FlipOp op

/-- The statements a call can issue. -/
def Call.may : Call → Op → Prop
  | initiateClosure userId _, op => op = .select ∨ op = .closureUnit userId
  | cancelClosure _, op => op = .select ∨ ∃ pk, op = .cancelUnit pk
  | executeDeletion closure, op => DeletionOp closure.pk closure.row.userId op
  | processExpiredGracePeriods, op => ∃ pk userId, DeletionOp pk userId op
  | requestErasure subjectType subjectKey _, op =>
      op = .select ∨ op = .erasureUnit subjectType subjectKey
  | erasureRequest payload, op | erasureOpen payload, op =>
      op = .select ∨
        op = .erasureUnit (payloadText payload.subjectType) (payloadText payload.subjectKey)
  | postErasure _ _ post, op =>
      op = .select ∨ op = .erasureUnit (strip post.subjectType) (strip post.subjectKey)
  | requeueAfterRestore .., op => op = .select ∨ ∃ st sk, op = .erasureUnit st sk
  | markSectionErased .., op | sectionErased _, op => ReceiptOp op
  | sweepDeletionDeadlines, op =>
      op = .select ∨ op = .sweepParts ∨ ∃ request, op = .timeoutUnit request
  | recordObligations request _, op =>
      ∃ name, op = .obligationQuery request.pk name ∨ op = .obligation request.pk name

theorem ReceiptOp.ofFlip {op : Op} (h : FlipOp op) : ReceiptOp op := by
  cases op <;> first | exact h | exact h.elim

theorem processExpiredGracePeriods_labels :
    Labels (fun op => ∃ pk userId, DeletionOp pk userId op) (processExpiredGracePeriods env) :=
  (labels_select ⟨0, "", .inl trivial⟩).bind fun _ => Always.forM fun _ _ =>
    expireClosure_labels.mono fun _ _ _ h => ⟨_, _, h⟩

theorem Call.labels (env : Env) (call : Call) : Labels call.may (call.prog env) := by
  unfold Call.prog
  cases call with
  | initiateClosure => exact discard_labels (initiateClosure_labels (.inl rfl) (.inr rfl))
  | cancelClosure => exact discard_labels (cancelClosure_labels (.inl rfl) fun pk => .inr ⟨pk, rfl⟩)
  | executeDeletion => exact executeDeletion_labels
  | processExpiredGracePeriods => exact processExpiredGracePeriods_labels
  | requestErasure => exact discard_labels (requestErasure_labels (.inl rfl) (.inr rfl))
  | erasureRequest =>
      exact discard_labels ((openFromPayload_labels (.inl rfl) (.inr rfl)).bind fun _ => always_ret)
  | erasureOpen => exact handleErasureOpen_labels (.inl rfl) (.inr rfl)
  | postErasure => exact discard_labels (postErasure_labels (.inl rfl) (.inr rfl))
  | requeueAfterRestore =>
      exact discard_labels (requeueAfterRestore_labels (.inl rfl) fun st sk => .inr ⟨st, sk, rfl⟩)
  | markSectionErased =>
      exact markSectionErased_labels trivial (fun _ => trivial) fun _ => .ofFlip
  | sectionErased =>
      exact handleSectionErased_labels trivial (fun _ _ => trivial) fun _ => .ofFlip
  | sweepDeletionDeadlines =>
      exact discard_labels (sweepDeletionDeadlines_labels (.inl rfl) (.inr (.inl rfl))
        fun request => .inr (.inr ⟨request, rfl⟩))
  | recordObligations =>
      exact discard_labels (recordSubprocessorObligations_always (fun name _ => ⟨name, .inl rfl⟩)
        fun name _ => ⟨⟨name, .inr rfl⟩, fun _ => ⟨name, .inr rfl⟩⟩)

/-- A recording, wherever it ends. -/
theorem Call.recordObligations_only {may : Op → Prop} {request : Stored ErasureRequest}
    {providers : List String} {a b : Db} {tr : List Op} {p : Program Unit}
    (h : Runs may ((Call.recordObligations request providers).prog env) a tr p b) :
    OnlyObliges a b := by
  have honly : Always (fun _ => OnlyObliges)
      (recordSubprocessorObligations env request providers) :=
    recordSubprocessorObligations_always (fun _ => .refl) fun _ db => ⟨.refl db, .insert db⟩
  have hcall : Always (fun _ => OnlyObliges)
      ((Call.recordObligations request providers).prog env) := honly.bind fun _ => always_ret
  exact hcall.keeps h (fun _ _ _ h => h) .refl .trans

/-- Every step of a call is a move with one of the call's statements. -/
theorem Call.does {db : Db} {call : Call} (hl : call.Loaded db) :
    Does (fun _ => True) (fun op a b => Move env op a b ∧ call.may op) (fun _ _ => True)
      (fun _ _ => True) (call.prog env) db :=
  ((Call.refines hl).and (Call.labels env call).does).post (fun _ _ _ => trivial)
    fun _ _ _ => trivial

end StapelGdpr
