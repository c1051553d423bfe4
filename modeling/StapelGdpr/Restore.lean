import StapelGdpr.Invariants
import StapelGdpr.Statements

/-!
# StapelGdpr.Restore

`gdpr_requeue_after_restore`: what the command opens (`Requeues`), what of the restored data
it leaves out, and what a second run opens.

The command looks at requests, by state and completion time; what a restore brings back is
decided slot by slot. It covers an owner exactly when the owner is already being asked
about the subject, or some DELETED request of the subject completed inside the window and
was never re-queued (`covers_iff`). And since a clone is a request like any other, one that
completes between two runs is a candidate of the second (`requeues_nothing_iff`).
-/

namespace StapelGdpr

open Prog

/-! ### What a run of the command does -/

/-- Can an erasure of the subject type be opened at all? -/
def Env.openable (env : Env) (subjectType : String) : Bool :=
  subjectType ∈ env.subjectTypes && env.distinctOwners subjectType

theorem Env.openable_iff {env : Env} {st : String} :
    env.openable st = true ↔ st ∈ env.subjectTypes ∧ env.distinctOwners st = true := by
  simp [openable]

/-- One pass over the candidates: each is opened again if it can be, and left out if not. -/
inductive Requeues (env : Env) (restoredFrom : Time) :
    List (Stored ErasureRequest) → Db → Db → Prop
  | nil {db : Db} : Requeues env restoredFrom [] db db
  | opened {source request : Stored ErasureRequest} {rest : List (Stored ErasureRequest)}
      {db db' db'' : Db} (hopenable : env.openable source.row.subjectType = true)
      (hopen : db.openErasure env source.row.subjectType source.row.subjectKey
        (requeueArgs source restoredFrom) = .ok (request, db'))
      (hrest : Requeues env restoredFrom rest db' db'') :
      Requeues env restoredFrom (source :: rest) db db''
  | skipped {source : Stored ErasureRequest} {rest : List (Stored ErasureRequest)} {db db' : Db}
      (hopenable : env.openable source.row.subjectType = false)
      (hrest : Requeues env restoredFrom rest db db') :
      Requeues env restoredFrom (source :: rest) db db'

/-- A clone of the request: the same subject, open, tied to its source. -/
structure IsClone (source : Stored ErasureRequest) (r : ErasureRequest) : Prop where
  subjectType : r.subjectType = source.row.subjectType
  subjectKey : r.subjectKey = source.row.subjectKey
  erasing : r.state = .erasing
  origin : r.origin = .restoreRequeue
  source : r.sourceRequest = some source.pk

/-- Has the request been re-queued? -/
def Recloned (l : Ledger) (source : Nat) : Prop :=
  ∃ pk r, l.requests.get? pk = some r ∧ r.sourceRequest = some source ∧
    r.origin = .restoreRequeue

variable {env : Env} {restoredFrom : Time} {db db' db'' : Db}
  {source request : Stored ErasureRequest} {sources : List (Stored ErasureRequest)}

theorem mem_requeueCandidates {l : Ledger} {c : Stored ErasureRequest} :
    c ∈ l.requeueCandidates restoredFrom ↔ l.requests.get? c.pk = some c.row ∧
      c.row.state = .deleted ∧ (∃ t, c.row.completedAt = some t ∧ restoredFrom - slack ≤ t) ∧
      ¬ Recloned l c.pk := by
  have hclone : (l.requests.any fun r' => r'.sourceRequest = some c.pk &&
      r'.origin = .restoreRequeue) = true ↔ Recloned l c.pk := by
    rw [Table.any_eq_true]
    simp [Recloned]
  have hwindow : c.row.completedAt.any (restoredFrom - slack ≤ ·) = true ↔
      ∃ t, c.row.completedAt = some t ∧ restoredFrom - slack ≤ t := by
    cases c.row.completedAt <;> simp
  rw [Ledger.requeueCandidates, List.mem_filter, Table.mem_select, Bool.and_eq_true,
    decide_eq_true_eq, hwindow, Bool.not_eq_true', ← hclone, Bool.not_eq_true]
  tauto

/-- What opening a clone writes. -/
theorem openErasure_clone (h : db.openErasure env source.row.subjectType source.row.subjectKey
    (requeueArgs source restoredFrom) = .ok (request, db')) :
    IsClone source request.row ∧ db'.requests = db.requests.insert request.row ∧
      db'.parts = db.parts.insertAll (env.slots source.row.subjectType db.requests.nextPk) := by
  obtain ⟨by', -, hrow, -, -, hdb⟩ := openErasure_ok h
  have hreq : db'.requests = db.requests.insert request.row := by rw [hdb]
  refine ⟨?_, hreq, by rw [hdb]⟩
  rw [hrow]
  exact ⟨rfl, rfl, rfl, rfl, rfl⟩

/-- A source that stands and was never re-queued meets no constraint but the owners'. -/
theorem openErasure_source (hsource : ∃ r, db.requests.get? source.pk = some r)
    (hfree : ¬ Recloned db.toLedger source.pk) :
    if env.distinctOwners source.row.subjectType = true then
      ∃ request db', db.openErasure env source.row.subjectType source.row.subjectKey
        (requeueArgs source restoredFrom) = .ok (request, db')
    else db.openErasure env source.row.subjectType source.row.subjectKey
      (requeueArgs source restoredFrom) = .error .integrityError := by
  obtain ⟨r, hr⟩ := hsource
  have hstored : ∃ by', (requeueArgs source restoredFrom).requestedBy.stored env.host = some by' := by
    unfold requeueArgs
    cases source.row.requestedBy <;> exact ⟨_, rfl⟩
  obtain ⟨by', hby⟩ := hstored
  have hvalid : db.violates ((requeueArgs source restoredFrom).row env source.row.subjectType
      source.row.subjectKey by' db.uuid4) = false := by
    have hnone : db.requests.any (fun r' => r'.correlationId = some db.uuid4 ||
        (r'.sourceRequest = some source.pk && r'.origin = .restoreRequeue)) = false := by
      rw [Bool.eq_false_iff, Ne, Table.any_eq_true]
      rintro ⟨pk, r', hr', hbad⟩
      simp only [Bool.or_eq_true, Bool.and_eq_true, decide_eq_true_eq] at hbad
      rcases hbad with hid | hclone
      · exact Db.uuid4_fresh hr' hid
      · exact hfree ⟨pk, r', hr', hclone⟩
    unfold Ledger.violates
    simpa [ErasureArgs.row, requeueArgs, hr] using hnone
  unfold Db.openErasure
  rw [hby]
  dsimp only
  rw [show (requeueArgs source restoredFrom).correlationId.getD db.uuid4 = db.uuid4 from rfl, hvalid]
  by_cases howners : env.distinctOwners source.row.subjectType = true
  · rw [if_pos howners, if_neg (by simp [howners])]
    exact ⟨_, _, rfl⟩
  · rw [if_neg howners, if_pos (by simp [howners])]

/-- One candidate: opened again exactly when it can be. -/
theorem requeue_ends {totals : Nat × Nat} (hsource : ∃ r, db.requests.get? source.pk = some r)
    (hfree : ¬ Recloned db.toLedger source.pk) :
    Ends (fun _ db' => Requeues env restoredFrom [source] db db') (fun _ _ => False)
      (requeue env restoredFrom totals source) db := by
  have hskip : env.openable source.row.subjectType = false →
      Requeues env restoredFrom [source] db db := fun h => .skipped h .nil
  unfold requeue
  refine Does.tryCatch (X := fun e db' => db' = db ∧ env.openable source.row.subjectType = false ∧
    (e = .integrityError ∨ ∃ text, e = .valueError text)) ?_ ?_
  · refine Does.bind (P := fun _ db' => Requeues env restoredFrom [source] db db') ?_
      fun _ _ h => does_ret.mpr h
    unfold requestErasure
    split
    · rename_i hst
      refine does_raise.mpr ⟨rfl, ?_, .inr ⟨_, rfl⟩⟩
      simp [Env.openable, hst]
    · rename_i hst
      rw [if_pos (show (requeueArgs source restoredFrom).idempotencyKey = "" from rfl)]
      have hopen := @openErasure_source env restoredFrom db source hsource hfree
      refine Does.tryCatch (X := fun e db' => db' = db ∧ e = .integrityError ∧
        env.openable source.row.subjectType = false) (ends_atomic.mpr ?_) fun e db' ⟨hdb, he, hno⟩ => ?_
      · split_ifs at hopen with howners
        · obtain ⟨request, db', hok⟩ := hopen
          rw [hok]
          exact .opened (Env.openable_iff.mpr ⟨by simpa using hst, howners⟩) hok .nil
        · rw [hopen]
          exact ⟨rfl, rfl, by simp [Env.openable, howners]⟩
      · rw [if_neg (fun h => h.2 rfl)]
        exact does_raise.mpr ⟨hdb, hno, .inl he⟩
  · rintro e db' ⟨rfl, hno, rfl | ⟨text, rfl⟩⟩
    · exact does_ret.mpr (hskip hno)
    · exact does_ret.mpr (hskip hno)

/-! ### What a pass leaves -/

/-- Requests are only added, each a clone of a source that can be opened. -/
theorem Requeues.requests (h : Requeues env restoredFrom sources db db') :
    db.requests.Evolves (fun _ r r' => r = r')
      (fun _ r => ∃ c ∈ sources, env.openable c.row.subjectType = true ∧ IsClone c r)
      db'.requests := by
  induction h with
  | nil => exact .refl fun _ _ _ => rfl
  | @opened source request rest db db' db'' hopenable hopen hrest ih =>
      obtain ⟨hclone, hreq, -⟩ := openErasure_clone hopen
      have hfirst : db.requests.Evolves (fun _ r r' => r = r') (fun _ r => ∃ c ∈ source :: rest,
          env.openable c.row.subjectType = true ∧ IsClone c r) db'.requests := by
        rw [hreq]
        exact .insert (fun _ _ _ => rfl) ⟨source, List.mem_cons_self, hopenable, hclone⟩
      refine hfirst.trans (ih.mono (fun _ _ _ h => h) fun _ r ⟨c, hc, h⟩ =>
        ⟨c, List.mem_cons_of_mem _ hc, h⟩) (fun _ _ _ _ h h' => h.trans h') fun _ _ _ h heq => heq ▸ h
  | skipped hopenable hrest ih =>
      exact ih.mono (fun _ _ _ h => h) fun _ r ⟨c, hc, h⟩ => ⟨c, List.mem_cons_of_mem _ hc, h⟩

/-- Parts are only added, each to a request that is new. -/
theorem Requeues.parts (h : Requeues env restoredFrom sources db db') :
    db.parts.Evolves (fun _ p p' => p = p') (fun _ p => db.requests.nextPk ≤ p.request)
      db'.parts := by
  induction h with
  | nil => exact .refl fun _ _ _ => rfl
  | @opened source request rest db db' db'' hopenable hopen hrest ih =>
      obtain ⟨-, hreq, hparts⟩ := openErasure_clone hopen
      have hfirst : db.parts.Evolves (fun _ p p' => p = p')
          (fun _ p => db.requests.nextPk ≤ p.request) db'.parts := by
        rw [hparts]
        refine .insertAll (fun _ _ _ => rfl) fun _ p hp => ?_
        obtain ⟨o, -, rfl⟩ := mem_slots.mp hp
        exact le_rfl
      refine hfirst.trans (ih.mono (fun _ _ _ h => h) fun _ p hp => ?_)
        (fun _ _ _ _ h h' => h.trans h') fun _ _ _ h heq => heq ▸ h
      rw [hreq, Table.nextPk_insert] at hp
      omega
  | skipped hopenable hrest ih => exact ih

/-- Every source that can be opened has a clone, with an open slot for each claiming owner. -/
theorem Requeues.opens (h : Requeues env restoredFrom sources db db')
    {c : Stored ErasureRequest} (hc : c ∈ sources)
    (hopenable : env.openable c.row.subjectType = true) :
    ∃ pk r, db'.requests.get? pk = some r ∧ db.requests.nextPk ≤ pk ∧ IsClone c r ∧
      ∀ o ∈ env.report.ownersFor c.row.subjectType, ∃ i p, db'.parts.get? i = some p ∧
        p.request = pk ∧ p.owner = o.name ∧ p.state = .pending := by
  induction h with
  | nil => exact absurd hc List.not_mem_nil
  | @opened source request rest db db' db'' _ hopen hrest ih =>
      obtain ⟨hclone, hreq, hparts⟩ := openErasure_clone hopen
      rcases List.mem_cons.mp hc with rfl | hmem
      · have hnew : db'.requests.get? db.requests.nextPk = some request.row := by
          rw [hreq]
          exact Table.get?_insert_nextPk _ _
        obtain ⟨r, hr, rfl⟩ := hrest.requests.kept hnew
        refine ⟨_, _, hr, le_rfl, hclone, fun o ho => ?_⟩
        obtain ⟨i, hi⟩ := Table.exists_get?_insertAll (t := db.parts) (mem_slots.mpr ⟨o, ho, rfl⟩ :
          o.part db.requests.nextPk env.now ∈ env.slots c.row.subjectType db.requests.nextPk)
        obtain ⟨p, hp, rfl⟩ := hrest.parts.kept (hparts ▸ hi)
        exact ⟨i, _, hp, rfl, rfl, rfl⟩
      · obtain ⟨pk, r, hr, hle, hrest⟩ := ih hmem
        rw [hreq, Table.nextPk_insert] at hle
        exact ⟨pk, r, hr, by omega, hrest⟩
  | @skipped source rest db db' hskip hrest ih =>
      rcases List.mem_cons.mp hc with rfl | hmem
      · rw [hskip] at hopenable
        exact absurd hopenable (by simp)
      · exact ih hmem

/-- A pass in which nothing can be opened changes nothing. -/
theorem Requeues.idle (h : Requeues env restoredFrom sources db db')
    (hnone : ∀ c ∈ sources, env.openable c.row.subjectType = false) : db' = db := by
  induction h with
  | nil => rfl
  | opened hopenable hopen hrest ih =>
      rw [hnone _ List.mem_cons_self] at hopenable
      exact absurd hopenable (by simp)
  | skipped hopenable hrest ih => exact ih fun c hc => hnone c (List.mem_cons_of_mem _ hc)

/-- The candidates come one a request. -/
theorem pairwise_requeueCandidates (l : Ledger) :
    (l.requeueCandidates restoredFrom).Pairwise fun c c' => c.pk ≠ c'.pk :=
  ((l.requests.pairwise_pk_select _).filter _).imp fun h => Nat.ne_of_lt h

/-- Clones of other sources leave a source as it is. -/
theorem Requeues.recloned (h : Requeues env restoredFrom sources db db') {pk : Nat}
    (hother : ∀ c ∈ sources, c.pk ≠ pk) (hfree : ¬ Recloned db.toLedger pk) :
    ¬ Recloned db'.toLedger pk := by
  rintro ⟨i, r, hr, hsource, horigin⟩
  rcases h.requests.row hr with ⟨r', hr', rfl⟩ | ⟨-, c, hc, -, hclone⟩
  · exact hfree ⟨i, _, hr', hsource, horigin⟩
  · rw [hclone.source] at hsource
    exact hother c hc (Option.some.inj hsource)

/-- **The command** is one pass over its candidates, and it does not raise. -/
theorem requeueAfterRestore_ends (env : Env) (restoredFrom : Time) (db : Db) :
    Ends (fun _ db' => Requeues env restoredFrom (db.requeueCandidates restoredFrom) db db')
      (fun _ _ => False) (requeueAfterRestore env restoredFrom false) db := by
  have hprepend : ∀ {c : Stored ErasureRequest} {rest : List (Stored ErasureRequest)} {a b d : Db},
      Requeues env restoredFrom [c] a b → Requeues env restoredFrom rest b d →
      Requeues env restoredFrom (c :: rest) a d := by
    intro c rest a b d h h'
    cases h with
    | opened hopenable hopen hnil => cases hnil; exact .opened hopenable hopen h'
    | skipped hopenable hnil => cases hnil; exact .skipped hopenable h'
  -- what is left of the list stands, was never re-queued, and completes the pass
  let J : List (Stored ErasureRequest) → Nat × Nat → Db → Prop := fun rest _ b =>
    (∀ d, Requeues env restoredFrom rest b d →
      Requeues env restoredFrom (db.requeueCandidates restoredFrom) db d) ∧
    rest.Pairwise (fun c c' => c.pk ≠ c'.pk) ∧
    ∀ c ∈ rest, (∃ r, b.requests.get? c.pk = some r) ∧ ¬ Recloned b.toLedger c.pk
  refine does_bind.mpr (ends_query.mpr ?_)
  rw [if_neg (by simp)]
  refine (Does.foldlM (J := J) (fun c rest totals b ⟨hpass, hpair, hall⟩ => ?_) ⟨fun _ h => h,
    pairwise_requeueCandidates _, fun c hc => ?_⟩).post (fun _ b ⟨h, _⟩ => h b .nil) fun _ _ h => h
  · obtain ⟨hpair, hrest⟩ := List.pairwise_cons.mp hpair
    obtain ⟨hsource, hfree⟩ := hall c List.mem_cons_self
    refine (requeue_ends hsource hfree).post (fun _ d hd => ?_) fun _ _ h => h
    refine ⟨fun e he => hpass e (hprepend hd he), hrest, fun c' hc' => ⟨?_, ?_⟩⟩
    · obtain ⟨r, hr⟩ := (hall c' (List.mem_cons_of_mem c hc')).1
      obtain ⟨r', hr', -⟩ := hd.requests.kept hr
      exact ⟨r', hr'⟩
    · exact hd.recloned (fun x hx => List.mem_singleton.mp hx ▸ hpair c' hc')
        (hall c' (List.mem_cons_of_mem c hc')).2
  · obtain ⟨hget, -, -, hfree⟩ := mem_requeueCandidates.mp hc
    exact ⟨⟨c.row, hget⟩, hfree⟩

/-- The store the command leaves. -/
def requeuedStore (env : Env) (restoredFrom : Time) (db : Db) : Db :=
  ((requeueAfterRestore env restoredFrom false).run db).2

theorem requeues_requeuedStore (env : Env) (restoredFrom : Time) (db : Db) :
    (∃ totals, ((requeueAfterRestore env restoredFrom false).run db).1 = .ok totals) ∧
      Requeues env restoredFrom (db.requeueCandidates restoredFrom) db
        (requeuedStore env restoredFrom db) := by
  have h := ends_iff_run.mp (requeueAfterRestore_ends env restoredFrom db)
  unfold requeuedStore
  revert h
  cases (requeueAfterRestore env restoredFrom false).run db with
  | mk result db' =>
      cases result with
      | ok totals => exact fun h => ⟨⟨totals, rfl⟩, h⟩
      | error e => exact fun h => h.elim

/-! ### What a restore brings back -/

/-- The restore undid this owner's erasure: the part was receipted inside the window (or a
day before it), its subject may still be erased, and its owner still claims it. -/
structure Undone (env : Env) (restoredFrom : Time) (l : Ledger) (p : ErasurePart)
    (r : ErasureRequest) : Prop where
  stored : ∃ i, l.parts.get? i = some p
  request : l.requests.get? p.request = some r
  done : p.state = .done
  received : ∃ t, p.receiptAt = some t ∧ restoredFrom - slack ≤ t
  declared : r.subjectType ∈ env.subjectTypes
  claimed : ∃ o ∈ env.report.ownersFor r.subjectType, o.name = p.owner

/-- Some request of the subject still waits for the owner. -/
def Asked (l : Ledger) (subjectType subjectKey owner : String) : Prop :=
  ∃ pk r, l.requests.get? pk = some r ∧ r.subjectType = subjectType ∧
    r.subjectKey = subjectKey ∧
    ∃ i p, l.parts.get? i = some p ∧ p.request = pk ∧ p.owner = owner ∧ p.state ≠ .done

/-- Every owner whose erasure was undone is asked again. -/
def Covers (env : Env) (restoredFrom : Time) (before after : Ledger) : Prop :=
  ∀ p r, Undone env restoredFrom before p r → Asked after r.subjectType r.subjectKey p.owner

/-- The command finds a request to open again for the subject. -/
def Requeueable (env : Env) (restoredFrom : Time) (l : Ledger) (subjectType subjectKey : String) :
    Prop :=
  env.distinctOwners subjectType = true ∧ ∃ c ∈ l.requeueCandidates restoredFrom,
    c.row.subjectType = subjectType ∧ c.row.subjectKey = subjectKey

/-- **What the command covers**: of the undone erasures, those whose owner is being asked
already and those whose subject has a DELETED request that completed inside the window and
was never re-queued. -/
theorem covers_iff (env : Env) (restoredFrom : Time) (db : Db) :
    Covers env restoredFrom db.toLedger (requeuedStore env restoredFrom db).toLedger ↔
      ∀ p r, Undone env restoredFrom db.toLedger p r →
        Asked db.toLedger r.subjectType r.subjectKey p.owner ∨
          Requeueable env restoredFrom db.toLedger r.subjectType r.subjectKey := by
  obtain ⟨-, hpass⟩ := requeues_requeuedStore env restoredFrom db
  constructor
  · intro hcovers p r hundone
    obtain ⟨pk, q, hq, hst, hsk, i, p', hp', hreq, howner, hopen⟩ := hcovers p r hundone
    rcases hpass.requests.row hq with ⟨q', hq', rfl⟩ | ⟨-, c, hc, hopenable, hclone⟩
    · -- an old request has only its old parts
      rcases hpass.parts.row hp' with ⟨p'', hp'', rfl⟩ | ⟨-, hnew⟩
      · exact .inl ⟨pk, _, hq', hst, hsk, i, _, hp'', hreq, howner, hopen⟩
      · rw [hreq] at hnew
        exact absurd (Table.get?_lt hq') (by omega)
    · rw [hclone.subjectType] at hst
      rw [hclone.subjectKey] at hsk
      exact .inr ⟨hst ▸ (Env.openable_iff.mp hopenable).2, c, hc, hst, hsk⟩
  · intro hpre p r hundone
    rcases hpre p r hundone with ⟨pk, q, hq, hst, hsk, i, p', hp', hrest⟩ |
      ⟨howners, c, hc, hst, hsk⟩
    · obtain ⟨q', hq', rfl⟩ := hpass.requests.kept hq
      obtain ⟨p'', hp'', rfl⟩ := hpass.parts.kept hp'
      exact ⟨pk, _, hq', hst, hsk, i, _, hp'', hrest⟩
    · have hopenable : env.openable c.row.subjectType = true :=
        Env.openable_iff.mpr ⟨hst ▸ hundone.declared, hst ▸ howners⟩
      obtain ⟨pk, q, hq, -, hclone, hslots⟩ := hpass.opens hc hopenable
      obtain ⟨o, ho, hname⟩ := hundone.claimed
      obtain ⟨i, p', hp', hreq, howner, hpending⟩ := hslots o (hst ▸ ho)
      refine ⟨pk, q, hq, hclone.subjectType.trans hst, hclone.subjectKey.trans hsk, i, p', hp', hreq,
        howner.trans hname, ?_⟩
      rw [hpending]
      simp

/-- The account's own provider erased on day 30 and the remote owner is still at work when
a backup of that day is restored: the provider is never asked again. -/
theorem restored_and_left_out : ¬ ∀ (env : Env) (restoredFrom : Time) (db : Db), Reachable db →
    Covers env restoredFrom db.toLedger (requeuedStore env restoredFrom db).toLedger := by
  intro hclaim
  have hcovers := hclaim (deploymentOn 31) (days 30) erasing reachable_erasing
  have hpart : (erasing.parts.get? 0).any fun p => (erasing.requests.get? p.request).any fun r =>
      p.state = .done ∧ p.receiptAt = some (days 30) ∧ p.owner = "auth" ∧
      r.subjectType = "account" ∧ r.subjectKey = "u1" := by decide +kernel
  obtain ⟨p, hp, hpart⟩ := (Option.any_eq_true _ _).mp hpart
  obtain ⟨r, hr, hpart⟩ := (Option.any_eq_true _ _).mp hpart
  obtain ⟨hdone, hat, howner, hst, hsk⟩ := of_decide_eq_true hpart
  have hundone : Undone (deploymentOn 31) (days 30) erasing.toLedger p r := by
    refine ⟨⟨0, hp⟩, hr, hdone, ⟨_, hat, by decide⟩, ?_, ?_⟩
    · rw [hst]
      decide +kernel
    · rw [hst, howner]
      decide +kernel
  have hnone : ¬ Asked (requeuedStore (deploymentOn 31) (days 30) erasing).toLedger "account" "u1"
      "auth" := by
    rintro ⟨pk, q, -, -, -, i, p', hp', -, howner', hopen⟩
    have hall : ∀ p' ∈ (requeuedStore (deploymentOn 31) (days 30) erasing).parts.rows,
        p'.owner = "auth" → p'.state = .done := by decide +kernel
    exact hopen (hall p' (List.mem_of_getElem? hp') howner')
  have hasked := hcovers p r hundone
  rw [hst, hsk, howner] at hasked
  exact hnone hasked

/-! ### A second run -/

/-- The calls that may come between two runs: receipts and sweeps. -/
def Call.progresses : Call → Prop
  | markSectionErased .. | sectionErased _ | sweepDeletionDeadlines => True
  | _ => False

/-- Any number of receipts and sweeps, each under its own environment, each free to fail or
to die on the way. -/
def Between : Db → Db → Prop :=
  Relation.ReflTransGen fun a b => ∃ env call, call.progresses ∧ CallStep env call a b

/-- A request that is settled stays as it is, and all keep what they were opened with. -/
structure Kept (r r' : ErasureRequest) : Prop where
  settled : r.state.isOpen = false → r' = r
  subjectType : r'.subjectType = r.subjectType
  source : r'.sourceRequest = r.sourceRequest
  origin : r'.origin = r.origin

/-- No request is opened, and all are kept. -/
def NoneOpened (a b : Db) : Prop :=
  a.requests.Evolves (fun _ => Kept) (fun _ _ => False) b.requests

theorem NoneOpened.refl (a : Db) : NoneOpened a a :=
  Table.Evolves.refl fun _ _ _ => ⟨fun _ => rfl, rfl, rfl, rfl⟩

theorem NoneOpened.trans {a b c : Db} (h : NoneOpened a b) (h' : NoneOpened b c) :
    NoneOpened a c := by
  refine Table.Evolves.trans h h' (fun _ p q r hpq hqr => ⟨fun hp => ?_,
    hqr.subjectType.trans hpq.subjectType, hqr.source.trans hpq.source,
    hqr.origin.trans hpq.origin⟩) fun _ _ _ h _ => h
  obtain rfl := hpq.settled hp
  exact hqr.settled hp

theorem Move.noneOpened {op : Op} {a b : Db} (h : Move env op a b)
    (hop : ∀ st sk, op ≠ .erasureUnit st sk) : NoneOpened a b where
  kept hr := by
    obtain ⟨r', hr', hstep⟩ := h.requests.kept hr
    refine ⟨r', hr', hstep.settled, hstep.keeps.1, ?_, ?_⟩ <;> cases hstep <;> rfl
  added hr hle := hop _ _ (h.opens hr (Table.get?_eq_none hle))

theorem Call.progresses.noneOpened {call : Call} {op : Op} (h : call.progresses)
    (hop : call.may op) : ∀ st sk, op ≠ .erasureUnit st sk := by
  rintro st sk rfl
  cases call with
  | markSectionErased | sectionErased => exact hop.elim
  | sweepDeletionDeadlines => rcases hop with hop | hop | ⟨_, hop⟩ <;> exact absurd hop (by simp)
  | _ => exact h.elim

theorem Between.noneOpened {a b : Db} (h : Between a b) : NoneOpened a b := by
  induction h with
  | refl => exact .refl a
  | tail _ hstep ih =>
      obtain ⟨env, call, hprogresses, hloaded, tr, p, hrun⟩ := hstep
      have hchain := (Call.does hloaded).chain hrun (N := NoneOpened) fun op _ _ hm =>
        hm.1.noneOpened (hprogresses.noneOpened hm.2)
      refine ih.trans ?_
      clear hrun
      induction hchain with
      | refl => exact .refl _
      | tail _ hstep ih => exact ih.trans hstep

/-- A pass opens nothing exactly when nothing of its list can be opened. -/
theorem Requeues.opens_none_iff (h : Requeues env restoredFrom sources db db') :
    db'.requests.nextPk = db.requests.nextPk ↔
      ∀ c ∈ sources, env.openable c.row.subjectType = false := by
  constructor
  · intro heq c hc
    by_contra hopenable
    obtain ⟨pk, r, hr, hle, -⟩ := h.opens hc (by simpa using hopenable)
    have := Table.get?_lt hr
    omega
  · intro hnone
    rw [h.idle hnone]

/-- **A second run**, for the same restore point or a later one, opens nothing exactly when
no request that was completed between the two runs is a candidate that can be opened. -/
theorem requeues_nothing_iff (env : Env) (t₁ t₂ : Time) {R₁ R₂ : Time} (hR : R₁ ≤ R₂) (db db' : Db)
    (hbetween : Between (requeuedStore { env with now := t₁ } R₁ db) db') :
    (requeuedStore { env with now := t₂ } R₂ db').requests.nextPk = db'.requests.nextPk ↔
      ∀ c ∈ db'.requeueCandidates R₂, env.openable c.row.subjectType = true →
        ∃ r, (requeuedStore { env with now := t₁ } R₁ db).requests.get? c.pk = some r ∧
          r.state = .deleted := by
  obtain ⟨-, hfirst⟩ := requeues_requeuedStore { env with now := t₁ } R₁ db
  obtain ⟨-, hsecond⟩ := requeues_requeuedStore { env with now := t₂ } R₂ db'
  have hkept := hbetween.noneOpened
  rw [hsecond.opens_none_iff]
  constructor
  · intro hnone c hc hopenable
    rw [show env.openable c.row.subjectType = false from hnone c hc] at hopenable
    exact absurd hopenable (by simp)
  · intro hcompleted c hc
    by_contra hopenable
    have hopenable : env.openable c.row.subjectType = true := by
      rw [← Bool.not_eq_false]
      exact hopenable
    obtain ⟨hget, hdeleted, ⟨t, hat, hle⟩, hfree⟩ := mem_requeueCandidates.mp hc
    obtain ⟨r, hr, hdel⟩ := hcompleted c hc hopenable
    -- it was DELETED when the first run ended, so it is the row the first run saw
    obtain ⟨r', hr', hkeep⟩ := hkept.kept hr
    obtain rfl : r' = r := hkeep.settled (by rw [hdel]; rfl)
    rw [hget] at hr'
    obtain rfl := Option.some.inj hr'
    rcases hfirst.requests.row hr with ⟨r₀, hr₀, rfl⟩ | ⟨-, c₀, -, -, hclone⟩
    · -- so the first run opened it again, and the clone is still there
      have hcandidate : c ∈ db.requeueCandidates R₁ := by
        refine mem_requeueCandidates.mpr
          ⟨hr₀, hdel, ⟨t, hat, (Int.sub_le_sub_right hR slack).trans hle⟩, ?_⟩
        rintro ⟨pk, q, hq, hsource, horigin⟩
        obtain ⟨q₁, hq₁, rfl⟩ := hfirst.requests.kept hq
        obtain ⟨q₂, hq₂, hkeep'⟩ := hkept.kept hq₁
        exact hfree ⟨pk, q₂, hq₂, hkeep'.source.trans hsource, hkeep'.origin.trans horigin⟩
      obtain ⟨pk, q, hq, -, hclone, -⟩ := hfirst.opens hcandidate hopenable
      obtain ⟨q', hq', hkeep'⟩ := hkept.kept hq
      exact hfree ⟨pk, q', hq', hkeep'.source.trans hclone.source,
        hkeep'.origin.trans hclone.origin⟩
    · rw [hclone.erasing] at hdel
      exact absurd hdel (by simp)

/-- A document was erased. -/
def documentErased : Db :=
  (Call.markSectionErased 0 "media" "job-1" []).after documents
    ((Call.requestErasure "document" "doc-1" {}).after documents {})

theorem reachable_documentErased : Reachable documentErased :=
  (Onward.run .refl (.requestErasure _ _ _) _ trivial).run (.markSectionErased _ _ _ _) _ trivial

/-- Its backup was restored, and the erasure re-queued. -/
def requeuedOnce : Db := requeuedStore documents 0 documentErased

/-- A second run of the same day, with the clone still open, opens nothing. -/
theorem requeues_nothing_iff_requeuedOnce :
    (requeuedStore documents 0 requeuedOnce).requests.nextPk = requeuedOnce.requests.nextPk := by
  have hnone : requeuedOnce.requeueCandidates 0 = [] := by decide +kernel
  have hsecond := requeues_nothing_iff documents 0 0 (le_refl 0) documentErased requeuedOnce .refl
  exact hsecond.mpr fun c hc _ => absurd (hnone ▸ hc) List.not_mem_nil

/-- The clone is confirmed. -/
def cloneErased : Db := (Call.markSectionErased 1 "media" "job-2" []).after documents requeuedOnce

theorem between_cloneErased : Between requeuedOnce cloneErased := by
  obtain ⟨tr, hrun⟩ := runs_run (fun _ => True)
    ((Call.markSectionErased 1 "media" "job-2" []).prog documents) requeuedOnce
  exact .single ⟨documents, .markSectionErased 1 "media" "job-2" [], trivial, trivial, tr, _, hrun⟩

/-- Now the second run opens a clone of the clone. -/
theorem requeued_again : ¬ ∀ (env : Env) (t₁ t₂ R₁ R₂ : Time) (db db' : Db), Reachable db →
    R₁ ≤ R₂ → Between (requeuedStore { env with now := t₁ } R₁ db) db' →
    (requeuedStore { env with now := t₂ } R₂ db').requests.nextPk = db'.requests.nextPk := by
  intro hclaim
  have hsame := hclaim documents 0 0 0 0 documentErased cloneErased reachable_documentErased
    (le_refl 0) between_cloneErased
  have hmore : (requeuedStore documents 0 cloneErased).requests.nextPk ≠
      cloneErased.requests.nextPk := by decide +kernel
  exact hmore hsame

end StapelGdpr
