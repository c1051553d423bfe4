import StapelGdpr.Completion

/-!
# StapelGdpr.Windows

The date by which everything is erased. `fully_erased_by` is the latest of the SLA date and the
obligations' dates; the SLA date is set when the request is opened, and an obligation when its
processor is first recorded, by the completion or by an owner before it. None of them moves
afterwards. So the date covers the completion and the windows declared then whenever something
that stands, or a window that the completion itself opens, reaches that far
(`windows_covered`).
-/

namespace StapelGdpr

open Prog

variable {env : Env} {op : Op} {a b c db : Db} {l : Ledger} {pk : Nat} {r : ErasureRequest}
  {may : Op → Prop} {wanted : Nat → Prop} {α : Type}

/-! ### The published date -/

/-- The SLA date or some obligation of the request is at `moment` or later. -/
def Ledger.reaches (l : Ledger) (pk : Nat) (dueAt moment : Time) : Prop :=
  moment ≤ dueAt ∨ ∃ i o, l.obligations.get? i = some o ∧ o.request = pk ∧ moment ≤ o.dueAt

theorem le_foldl_latest {moment latest : Time} {os : List (Stored SubprocessorObligation)} :
    moment ≤ os.foldl (fun latest o => max latest o.row.dueAt) latest ↔
      moment ≤ latest ∨ ∃ o ∈ os, moment ≤ o.row.dueAt := by
  induction os generalizing latest with
  | nil => simp
  | cons o os ih =>
      rw [List.foldl_cons, ih, le_max_iff]
      simp [or_assoc]

/-- `fully_erased_by` is no earlier than what its request reaches. -/
theorem le_fullyErasedBy {moment : Time} :
    moment ≤ l.fullyErasedBy ⟨pk, r⟩ ↔ l.reaches pk r.dueAt moment := by
  rw [Ledger.fullyErasedBy, le_foldl_latest]
  refine or_congr Iff.rfl ⟨fun h => ?_, fun h => ?_⟩
  · obtain ⟨o, ho, hle⟩ := h
    obtain ⟨hget, hreq⟩ := Table.mem_select.mp ho
    exact ⟨o.pk, o.row, hget, by simpa using hreq, hle⟩
  · obtain ⟨i, o, hget, hreq, hle⟩ := h
    exact ⟨⟨i, o⟩, Table.mem_select.mpr ⟨hget, by simpa using hreq⟩, hle⟩

/-! ### What a call does to the dates -/

/-- `declared_subprocessors()`, as far as the setting can be read. -/
def Settings.windows (settings : Settings) : List (String × Int) :=
  match declaredSubprocessors settings [] with
  | .ok declared => declared
  | .error _ => []

theorem Settings.windows_nodup (settings : Settings) : (settings.windows.map Prod.fst).Nodup := by
  unfold Settings.windows
  split
  · rename_i declared h
    exact declaredSubprocessors_nodup h
  · exact List.nodup_nil

/-- What a call under `env` leaves of the dates: obligations stay; those it adds are declared
windows from now on; the requests it completes are completed now. -/
structure Dated (env : Env) (a b : Db) : Prop where
  kept : ∀ i o, a.obligations.get? i = some o → b.obligations.get? i = some o
  added : ∀ i o, b.obligations.get? i = some o → a.obligations.get? i = some o ∨
    ((o.provider, o.windowDays) ∈ env.settings.windows ∧ o.dueAt = env.now + days o.windowDays)
  completed : ∀ pk r, b.requests.get? pk = some r → r.state = .deleted →
    a.requests.get? pk = some r ∨ r.completedAt = some env.now

theorem Dated.refl (env : Env) (a : Db) : Dated env a a :=
  ⟨fun _ _ h => h, fun _ _ h => .inl h, fun _ _ h _ => .inl h⟩

theorem Dated.trans (h : Dated env a b) (h' : Dated env b c) : Dated env a c where
  kept i o ho := h'.kept i o (h.kept i o ho)
  added i o ho := by
    rcases h'.added i o ho with hold | hnew
    · exact h.added i o hold
    · exact .inr hnew
  completed pk r hr hdel := by
    rcases h'.completed pk r hr hdel with hold | hnew
    · exact h.completed pk r hold hdel
    · exact .inr hnew

theorem Dated.hasObligation (h : Dated env a b) {name : String}
    (hhas : a.hasObligation pk name = true) : b.hasObligation pk name = true := by
  obtain ⟨i, o, ho, hp⟩ := Table.any_eq_true.mp hhas
  exact Table.any_eq_true.mpr ⟨i, o, h.kept i o ho, hp⟩

/-- A statement that neither completes a request nor records an obligation. -/
structure Dateless (a b : Db) : Prop where
  obligations : b.obligations = a.obligations
  completed : ∀ pk r, b.requests.get? pk = some r → r.state = .deleted →
    a.requests.get? pk = some r

theorem Dateless.same (ho : b.obligations = a.obligations) (hr : b.requests = a.requests) :
    Dateless a b := ⟨ho, fun _ _ h _ => hr ▸ h⟩

theorem Dateless.refl (a : Db) : Dateless a a := .same rfl rfl

theorem Dateless.dated (h : Dateless a b) : Dated env a b where
  kept i o ho := by rwa [h.obligations]
  added i o ho := .inl (by rwa [h.obligations] at ho)
  completed pk r hr hdel := .inl (h.completed pk r hr hdel)

theorem openErasure_dateless {st sk : String} {args : ErasureArgs} {request : Stored ErasureRequest}
    (h : a.openErasure env st sk args = .ok (request, b)) : Dateless a b := by
  obtain ⟨requestedBy, -, hrow, -, -, hdb⟩ := openErasure_ok h
  rw [hdb]
  refine ⟨rfl, fun i r hr hdel => ?_⟩
  rw [Table.get?_insert] at hr
  split at hr
  · rw [← Option.some.inj hr, hrow] at hdel
    exact absurd hdel (by simp [ErasureArgs.row])
  · exact hr

theorem Move.dateless (h : Move env op a b) (hop : ¬ FlipOp op) : Dateless a b := by
  cases h with
  | certified | obligation | closureDeleted => exact absurd trivial hop
  | erasureOpened hopened => exact openErasure_dateless hopened
  | requestTimedOut owners hr hopen hnote =>
      refine ⟨rfl, fun i r' hr' hdel => ?_⟩
      obtain ⟨q, hq, ⟨-, rfl⟩ | ⟨-, rfl⟩⟩ := get?_modify_some hr'
      · exact absurd hdel (by simp [ErasureRequest.timeOut])
      · exact hq
  | _ => exact .same rfl rfl

/-! ### The recording of one completion -/

/-- From `a` a call has come to `b`: the dates it left, and for every request in `wanted` that
it completed a row of each processor declared. -/
structure Entered (env : Env) (wanted : Nat → Prop) (a b : Db) : Prop extends Dated env a b where
  recorded : ∀ pk r, wanted pk → b.requests.get? pk = some r → r.state = .deleted →
    a.requests.get? pk = some r ∨
      ∀ q ∈ env.settings.windows, b.hasObligation pk q.1 = true

theorem Entered.refl (env : Env) (wanted : Nat → Prop) (a : Db) : Entered env wanted a a :=
  ⟨.refl env a, fun _ _ _ h _ => .inl h⟩

/-- A statement that completes nothing leaves entered what was entered. -/
theorem Entered.step (h : Entered env wanted a b) (hstep : Dated env b c)
    (hold : ∀ pk r, c.requests.get? pk = some r → r.state = .deleted →
      b.requests.get? pk = some r) : Entered env wanted a c := by
  refine ⟨h.toDated.trans hstep, fun pk r hpk hr hdel => ?_⟩
  rcases h.recorded pk r hpk (hold pk r hr hdel) hdel with hbefore | hall
  · exact .inl hbefore
  · exact .inr fun q hq => hstep.hasObligation (hall q hq)

theorem Entered.dateless (h : Entered env wanted a b) (hstep : Dateless b c) :
    Entered env wanted a c := h.step hstep.dated hstep.completed

/-- Runs from `db` to dates that fit what stood at `a`. -/
abbrev Enters (env : Env) (may : Op → Prop) (wanted : Nat → Prop) (a : Db) (p : Program α)
    (db : Db) : Prop :=
  Does may (fun _ => Dated env) (fun _ b => Entered env wanted a b)
    (fun _ b => Entered env wanted a b) p db

theorem always_enters {p : Program α} (hp : Always (fun _ => Dateless) p)
    (h : Entered env wanted a db) : Enters env may wanted a p db :=
  (hp.does.inv (I := Entered env wanted a) (fun _ _ _ hstep hf => hf.dateless hstep) h).imp
    (fun _ _ _ h => h.1.dated) (fun _ _ h => h.2) fun _ _ h => h.2

/-- The recordings in `wanted` do not fail: not by a statement, and not by a processor the ledger
does not take. -/
def Unfailing (env : Env) (may : Op → Prop) (wanted : Nat → Prop) (a : Db) : Prop :=
  ∀ pk, wanted pk →
    (∀ name, ¬ may (.obligationQuery pk name) ∧ ¬ may (.obligation pk name)) ∧
    ∀ q ∈ env.settings.windows, a.accepts pk env.now q

/-- Everything but the request under way is entered. -/
abbrev EnteredBut (env : Env) (wanted : Nat → Prop) (pk : Nat) : Db → Db → Prop :=
  Entered env fun i => wanted i ∧ i ≠ pk

theorem Dated.insert {q : String × Int} (hq : q ∈ env.settings.windows) :
    Dated env db { db with
      obligations := db.obligations.insert (newObligation env pk env.now q) } where
  kept i o ho := Table.get?_insert_of_some _ ho
  added i o ho := by
    rw [Table.get?_insert] at ho
    split at ho
    · rw [← Option.some.inj ho]
      exact .inr ⟨hq, rfl⟩
    · exact .inl ho
  completed i r hr _ := .inl hr

theorem Entered.insert {q : String × Int} (h : Entered env wanted a db)
    (hq : q ∈ env.settings.windows) : Entered env wanted a { db with
      obligations := db.obligations.insert (newObligation env pk env.now q) } :=
  h.step (.insert hq) fun _ _ hr _ => hr

/-- One processor of a completion: recorded, unless its statements may fail. -/
theorem getOrCreateObligation_enters {q : String × Int} (hfail : Unfailing env may wanted a)
    (hq : q ∈ env.settings.windows) (h : EnteredBut env wanted pk a db) :
    Does may (fun _ => Dated env)
      (fun _ b => EnteredBut env wanted pk a b ∧ Dated env db b ∧
        (wanted pk → b.hasObligation pk q.1 = true))
      (fun _ b => EnteredBut env wanted pk a b ∧ ¬ wanted pk)
      (getOrCreateObligation env pk env.now q.1 q.2) db := by
  have hunwanted : ∀ name, may (.obligationQuery pk name) ∨ may (.obligation pk name) →
      ¬ wanted pk := fun name hmay hpk =>
    hmay.elim ((hfail pk hpk).1 name).1 ((hfail pk hpk).1 name).2
  by_cases hd : Representable (env.now + days q.2)
  · rw [getOrCreateObligation_eq hd]
    refine does_bind.mpr (does_query.mpr ⟨⟨.refl env db, ?_⟩, fun hmay _ =>
      ⟨.refl env db, h, hunwanted q.1 (.inl hmay)⟩⟩)
    split
    · rename_i hhas
      exact does_ret.mpr ⟨h, .refl env db, fun _ => hhas⟩
    · rename_i hno
      refine Does.tryCatch (X := fun _ b => b = db ∧ ¬ wanted pk)
        (does_atomic.mpr ⟨?_, fun hmay _ => ⟨.refl env db, rfl, hunwanted q.1 (.inr hmay)⟩⟩)
        fun e b hb => ?_
      · cases hcreate : db.createObligation (newObligation env pk env.now (q.1, q.2)) with
        | ok out =>
            obtain ⟨created, db'⟩ := out
            obtain ⟨-, -, -, rfl⟩ := createObligation_ok hcreate
            refine ⟨.insert hq, h.insert hq, .insert hq, fun _ => ?_⟩
            rw [hasObligation_insert]
            simp [newObligation]
        | error e =>
            refine ⟨.refl env db, rfl, fun hpk => ?_⟩
            -- no row, and a window that fits: the insert cannot have been refused
            have hfree : a.hasObligation pk q.1 = false := by
              by_contra hhas
              exact hno (h.toDated.hasObligation (by simpa using hhas))
            have hw : 0 ≤ q.2 := ((hfail pk hpk).2 q hq).2 hfree
            rw [createObligation_new (p := (q.1, q.2)) (by simpa using hno) hw] at hcreate
            exact absurd hcreate (by simp)
      · obtain ⟨rfl, hpk⟩ := hb
        unfold racedObligation
        split
        · refine does_bind.mpr (does_query.mpr ⟨⟨.refl env b, ?_⟩, fun _ _ =>
            ⟨.refl env b, h, hpk⟩⟩)
          split
          · exact does_ret.mpr ⟨h, .refl env b, fun hwanted => absurd hwanted hpk⟩
          · exact does_raise.mpr ⟨h, hpk⟩
        · exact does_raise.mpr ⟨h, hpk⟩
  · rw [getOrCreateObligation_late hd]
    exact does_raise.mpr ⟨h, fun hpk => hd ((hfail pk hpk).2 q hq).1⟩

/-- The recording of a completion: a row of each processor, unless it may fail. -/
theorem recordSubprocessorObligations_enters {request : Stored ErasureRequest}
    (hfail : Unfailing env may wanted a) (hnow : request.row.completedAt = some env.now)
    (h : EnteredBut env wanted request.pk a db) :
    Does may (fun _ => Dated env)
      (fun _ b => EnteredBut env wanted request.pk a b ∧ (wanted request.pk →
        ∀ q ∈ env.settings.windows, b.hasObligation request.pk q.1 = true))
      (fun _ b => EnteredBut env wanted request.pk a b ∧ (wanted request.pk →
        ∀ q ∈ env.settings.windows, b.hasObligation request.pk q.1 = true))
      (recordSubprocessorObligations env request) db := by
  unfold recordSubprocessorObligations
  split
  · rename_i e herr
    refine does_raise.mpr ⟨h, fun _ q hq => ?_⟩
    rw [Settings.windows, herr] at hq
    exact absurd hq (by simp)
  · rename_i declared hdecl
    have hwindows : env.settings.windows = declared := by rw [Settings.windows, hdecl]
    rw [hnow, Option.getD_some]
    refine (Does.foldlM (J := fun rest _ b => EnteredBut env wanted request.pk a b ∧
        (∀ q ∈ rest, q ∈ env.settings.windows) ∧ (wanted request.pk →
          ∀ q ∈ env.settings.windows, q ∈ rest ∨ b.hasObligation request.pk q.1 = true))
      (E := fun _ b => EnteredBut env wanted request.pk a b ∧ ¬ wanted request.pk)
      (fun q rest written b hb => ?_)
      ⟨h, fun q hq => hwindows ▸ hq, fun _ q hq => .inl (hwindows ▸ hq)⟩).post
      (fun _ b hb => ⟨hb.1, fun hpk q hq => (hb.2.2 hpk q hq).resolve_left (by simp)⟩)
      fun _ b hb => ⟨hb.1, fun hpk => absurd hpk hb.2⟩
    obtain ⟨hentered, hrest, hdone⟩ := hb
    refine (getOrCreateObligation_enters hfail (hrest q List.mem_cons_self) hentered).bind
      fun created b' hb' => does_ret.mpr ?_
    obtain ⟨hentered', hstep, hhas⟩ := hb'
    refine ⟨hentered', fun q' hq' => hrest q' (List.mem_cons_of_mem q hq'), fun hpk q' hq' => ?_⟩
    rcases hdone hpk q' hq' with hmem | hbefore
    · rcases List.mem_cons.mp hmem with rfl | hlater
      · exact .inr (hhas hpk)
      · exact .inl hlater
    · exact .inr (hstep.hasObligation hbefore)

/-! ### Calls -/

theorem Dated.certify {waived : Bool} : Dated env db { db with
    requests := db.requests.modify pk (·.certify env.now waived) } where
  kept i o ho := ho
  added i o ho := .inl ho
  completed i r' hr' _ := by
    obtain ⟨q, hq, ⟨-, rfl⟩ | ⟨-, rfl⟩⟩ := get?_modify_some hr'
    · exact .inr rfl
    · exact .inl hq

theorem Entered.certify {waived : Bool} (h : Entered env wanted a db) :
    EnteredBut env wanted pk a { db with
      requests := db.requests.modify pk (·.certify env.now waived) } := by
  refine ⟨h.toDated.trans .certify, fun i r' hi hr' hdel => ?_⟩
  obtain ⟨q, hq, ⟨rfl, -⟩ | ⟨-, rfl⟩⟩ := get?_modify_some hr'
  · exact absurd rfl hi.2
  · exact h.recorded i _ hi.1 hq hdel

theorem EnteredBut.entered (h : EnteredBut env wanted pk a db)
    (hall : wanted pk → ∀ q ∈ env.settings.windows, db.hasObligation pk q.1 = true) :
    Entered env wanted a db := by
  refine ⟨h.toDated, fun i r hi hr hdel => ?_⟩
  by_cases hpk : i = pk
  · subst hpk
    exact .inr (hall hi)
  · exact h.recorded i r ⟨hi, hpk⟩ hr hdel

theorem certify_enters {request : Stored ErasureRequest}
    {closure : Option (Stored AccountClosureRequest)} {waived : Bool}
    (hfail : Unfailing env may wanted a) (h : Entered env wanted a db) :
    Enters env may wanted a (certify env request closure waived) db := by
  refine does_bind.mpr (does_write.mpr ⟨⟨.certify, ?_⟩, fun _ _ => ⟨.refl env db, h⟩⟩)
  refine ((recordSubprocessorObligations_enters hfail rfl (Entered.certify h)).post
    (fun _ _ hb => EnteredBut.entered hb.1 hb.2) fun _ _ hb => EnteredBut.entered hb.1 hb.2).bind
    fun _ b hb => ?_
  cases closure with
  | none => exact does_ret.mpr hb
  | some cl => exact always_enters (.write fun _ => ⟨.refl _, .same rfl rfl⟩) hb

theorem maybeFinalize_enters {request : Stored ErasureRequest}
    {cached : Option (Stored AccountClosureRequest)} (hfail : Unfailing env may wanted a)
    (h : Entered env wanted a db) :
    Enters env may wanted a (maybeFinalize env request cached) db := by
  unfold maybeFinalize
  split
  · exact does_ret.mpr h
  · have hread : Always (fun _ => Dateless) (requestClosure request cached) := by
      unfold requestClosure
      split
      · exact always_ret
      · exact always_ret
      · refine (always_select .refl).bind fun found => ?_
        cases found with
        | none => exact always_raise
        | some row => exact always_ret
    refine (always_enters hread h).bind fun closure b hb => ?_
    split
    · exact does_ret.mpr hb
    · refine (always_enters (always_select .refl) hb).bind fun unreceipted b' hb' => ?_
      dsimp only
      split
      · exact does_ret.mpr hb'
      · exact certify_enters hfail hb'

theorem localSteps_dateless {userId : UserId} :
    LocalSteps env pk userId fun _ => Dateless where
  select := .refl
  storeHash _ _ := .same rfl rfl
  anonymize _ := .refl
  delete _ := .refl
  localReceipt _ db := ⟨.refl db, fun _ => .same rfl rfl⟩
  eraseIdentity _ _ := .same rfl rfl
  identityErased db := ⟨.refl db, .same rfl rfl⟩
  localDone db := ⟨.refl db, fun _ _ => .same rfl rfl⟩

theorem executeDeletion_enters {closure : Stored AccountClosureRequest}
    (hfail : Unfailing env may wanted a) (h : Entered env wanted a db) :
    Enters env may wanted a (executeDeletion env closure) db := by
  refine (always_enters (always_select .refl) h).bind fun held b₁ h₁ => ?_
  split
  · exact does_raise.mpr h₁
  · refine (always_enters (startDeleting_always fun db => ⟨.refl db, .same rfl rfl⟩) h₁).bind
      fun id b₂ h₂ => ?_
    refine (always_enters (closureErasure_always .refl fun db => ⟨.refl db, fun _ _ =>
      openErasure_dateless⟩) h₂).bind fun out b₃ h₃ => ?_
    obtain ⟨erasure, created⟩ := out
    refine (always_enters (eraseSubject_always localSteps_dateless) h₃).bind fun erased b₄ h₄ => ?_
    cases erased with
    | none => exact does_ret.mpr h₄
    | some erased => exact maybeFinalize_enters hfail h₄

theorem processExpiredGracePeriods_enters (hfail : Unfailing env may wanted a)
    (h : Entered env wanted a db) :
    Enters env may wanted a (processExpiredGracePeriods env) db := by
  refine (always_enters (always_select .refl) h).bind fun expired b hb => ?_
  refine Does.forM (J := fun _ b => Entered env wanted a b) (fun closure rest b' hb' => ?_) hb
  exact (executeDeletion_enters hfail hb').tryCatch fun _ _ h' => does_ret.mpr h'

theorem markSectionErased_enters {correlationId : Uuid} {service receiptId : String}
    {counts : Counts} (hfail : Unfailing env may wanted a) (h : Entered env wanted a db) :
    Enters env may wanted a (markSectionErased env correlationId service receiptId counts) db := by
  refine (always_enters (always_select .refl) h).bind fun found b hb => ?_
  cases found with
  | none => exact does_ret.mpr hb
  | some request =>
      refine Does.bind (always_enters (Always.atomic fun db => ⟨.refl db, fun n db' hok => ?_⟩) hb)
        fun updated b₁ h₁ => ?_
      · obtain ⟨-, rfl⟩ := Prod.mk.inj (Except.ok.inj hok)
        exact .same rfl rfl
      · split
        · exact does_ret.mpr h₁
        · refine (always_enters (always_select .refl) h₁).bind fun refreshed b₂ h₂ => ?_
          cases refreshed with
          | none => exact does_raise.mpr h₂
          | some row => exact maybeFinalize_enters hfail h₂

/-- A call that certifies nothing. -/
theorem dateless_enters {p : Program Unit} {E : Error → Db → Prop} {Q : Unit → Db → Prop}
    (hm : Moves env Q E p db) (hl : Labels (fun op => ¬ FlipOp op) p)
    (h : Entered env wanted a db) :
    Enters env may wanted a p db :=
  (((hm.and hl.does).inv (I := Entered env wanted a)
    (fun _ _ _ hstep hf => hf.dateless (hstep.1.dateless hstep.2)) h).restrict fun _ _ =>
      trivial).imp (fun _ _ _ h => (h.1.1.dateless h.1.2).dated) (fun _ _ h => h.2) fun _ _ h => h.2

theorem Call.enters {call : Call} (hl : call.Loaded db)
    (hown : ∀ request providers, call ≠ .recordObligations request providers)
    (hfail : Unfailing env may wanted a) (h : Entered env wanted a db) :
    Enters env may wanted a (call.prog env) db := by
  have hplain : (∀ op, call.may op → ¬ FlipOp op) → Enters env may wanted a (call.prog env) db :=
    fun hop => dateless_enters (Call.refines hl) ((Call.labels env call).mono fun op _ _ => hop op) h
  cases call with
  | executeDeletion closure => exact executeDeletion_enters hfail h
  | processExpiredGracePeriods => exact processExpiredGracePeriods_enters hfail h
  | markSectionErased => exact markSectionErased_enters hfail h
  | sectionErased event =>
      show Enters env may wanted a (handleSectionErased env event) db
      unfold handleSectionErased
      split
      · exact does_ret.mpr h
      · split
        · exact does_ret.mpr h
        · exact markSectionErased_enters hfail h
  | initiateClosure => exact hplain fun op hop => by rcases hop with rfl | rfl <;> exact id
  | cancelClosure => exact hplain fun op hop => by rcases hop with rfl | ⟨-, rfl⟩ <;> exact id
  | requestErasure => exact hplain fun op hop => by rcases hop with rfl | rfl <;> exact id
  | erasureRequest => exact hplain fun op hop => by rcases hop with rfl | rfl <;> exact id
  | erasureOpen => exact hplain fun op hop => by rcases hop with rfl | rfl <;> exact id
  | postErasure => exact hplain fun op hop => by rcases hop with rfl | rfl <;> exact id
  | requeueAfterRestore =>
      exact hplain fun op hop => by rcases hop with rfl | ⟨-, -, rfl⟩ <;> exact id
  | sweepDeletionDeadlines =>
      exact hplain fun op hop => by rcases hop with rfl | rfl | ⟨-, rfl⟩ <;> exact id
  | recordObligations request providers => exact absurd rfl (hown request providers)

/-! ### Completions that are covered -/

/-- The lengths that count from a completion: none, and each window declared. -/
def Settings.spans (settings : Settings) : List Int := 0 :: settings.windows.map Prod.snd

/-- The recording goes through: no statement of it fails, the call is not cut off, and the ledger
takes every processor. -/
structure Recordable (env : Env) (may : Op → Prop) (p : Program Unit) (l : Ledger) (pk : Nat) :
    Prop where
  done : p.Done
  statements : ∀ name, ¬ may (.obligationQuery pk name) ∧ ¬ may (.obligation pk name)
  fits : ∀ q ∈ env.settings.windows, l.accepts pk env.now q

/-- What stands before the call reaches from the completion over every declared window; or the
recording goes through, and what stands or a window it opens does. -/
def Spanned (env : Env) (may : Op → Prop) (p : Program Unit) (l : Ledger) (pk : Nat)
    (dueAt : Time) : Prop :=
  (∀ w ∈ env.settings.spans, l.reaches pk dueAt (env.now + days w)) ∨
    Recordable env may p l pk ∧ ∀ w ∈ env.settings.spans,
      l.reaches pk dueAt (env.now + days w) ∨
        ∃ q ∈ env.settings.windows, l.hasObligation pk q.1 = false ∧ w ≤ q.2

theorem isDeleted_iff :
    l.isDeleted pk = true ↔ ∃ r, l.requests.get? pk = some r ∧ r.state = .deleted := by
  unfold Ledger.isDeleted
  cases l.requests.get? pk <;> simp

/-- A DELETED row is not one of a request that is not DELETED. -/
theorem not_deleted_before (hnew : l.isDeleted pk = false) (hdel : r.state = .deleted) :
    l.requests.get? pk ≠ some r := by
  intro hr
  rw [isDeleted_iff.mpr ⟨r, hr, hdel⟩] at hnew
  exact absurd hnew (by simp)

theorem Ledger.reaches.dated (h : Dated env a b) {dueAt moment : Time}
    (hreach : a.reaches pk dueAt moment) : b.reaches pk dueAt moment := by
  rcases hreach with hle | ⟨i, o, ho, hreq, hle⟩
  · exact .inl hle
  · exact .inr ⟨i, o, h.kept i o ho, hreq, hle⟩

/-- A window the completion opens reaches its own length. -/
theorem Dated.opened (h : Dated env a b) {q : String × Int} (hq : q ∈ env.settings.windows)
    (hno : a.hasObligation pk q.1 = false) (hhas : b.hasObligation pk q.1 = true) :
    ∃ i o, b.obligations.get? i = some o ∧ o.request = pk ∧ o.dueAt = env.now + days q.2 := by
  obtain ⟨i, o, ho, hp⟩ := Table.any_eq_true.mp hhas
  have hkey : o.request = pk ∧ o.provider = q.1 := by simpa using hp
  rcases h.added i o ho with hold | ⟨hmem, hdue⟩
  · have hhad : a.hasObligation pk q.1 = true := Table.any_eq_true.mpr ⟨i, o, hold, hp⟩
    rw [hno] at hhad
    exact absurd hhad (by simp)
  · -- one window is declared for a name
    have hsame : ((o.provider, o.windowDays) : String × Int) = q :=
      List.inj_on_of_nodup_map env.settings.windows_nodup hmem hq hkey.2
    refine ⟨i, o, ho, hkey.1, ?_⟩
    rw [hdue, show o.windowDays = q.2 from congrArg Prod.snd hsame]

theorem Entered.reaches (h : Entered env (· = pk) a b) (hr : b.requests.get? pk = some r)
    (hdel : r.state = .deleted) (hnew : a.isDeleted pk = false) {q : String × Int}
    (hq : q ∈ env.settings.windows) (hno : a.hasObligation pk q.1 = false) {w : Int}
    (hw : w ≤ q.2) : b.reaches pk r.dueAt (env.now + days w) := by
  rcases h.recorded pk r rfl hr hdel with hold | hall
  · exact absurd hold (not_deleted_before hnew hdel)
  · obtain ⟨i, o, ho, hreq, hdue⟩ := h.toDated.opened hq hno (hall q hq)
    refine .inr ⟨i, o, ho, hreq, ?_⟩
    rw [hdue]
    exact Int.add_le_add_left (days_mono hw) _

variable {call : Call} {tr : List Op} {p : Program Unit}

theorem Call.dated (hl : call.Loaded a)
    (hown : ∀ request providers, call ≠ .recordObligations request providers)
    (h : Runs may (call.prog env) a tr p b) : Dated env a b := by
  have hfail : Unfailing env may (fun _ => False) a := fun _ hpk => hpk.elim
  have hchain := (Call.enters hl hown hfail (.refl env _ a)).chain h fun _ _ _ hstep => hstep
  clear h
  induction hchain with
  | refl => exact .refl env a
  | tail _ hstep ih => exact ih.trans hstep

/-- A completion that is covered: completed now, and the published date covers it. -/
theorem Spanned.covers (hl : call.Loaded a)
    (hown : ∀ request providers, call ≠ .recordObligations request providers)
    (h : Runs may (call.prog env) a tr p b)
    (hr : b.requests.get? pk = some r) (hdel : r.state = .deleted)
    (hnew : a.isDeleted pk = false) (hspanned : Spanned env may p a.toLedger pk r.dueAt) :
    r.completedAt = some env.now ∧
      ∀ w ∈ env.settings.spans, env.now + days w ≤ b.fullyErasedBy ⟨pk, r⟩ := by
  have hdated : Dated env a b := Call.dated hl hown h
  refine ⟨?_, fun w hw => le_fullyErasedBy.mpr ?_⟩
  · rcases hdated.completed pk r hr hdel with hold | hnow
    · exact absurd hold (not_deleted_before hnew hdel)
    · exact hnow
  · rcases hspanned with hall | ⟨hrec, hall⟩
    · exact (hall w hw).dated hdated
    · have hfail : Unfailing env may (· = pk) a := fun i hi => by
        rw [hi]
        exact ⟨hrec.statements, hrec.fits⟩
      have hentered : Entered env (· = pk) a b := by
        have henters := Call.enters hl hown hfail (.refl env _ a)
        have hdone := hrec.done
        cases p with
        | ret v => exact henters.returned h
        | raise e => exact henters.raised h
        | step l u n f => exact hdone.elim
      rcases hall w hw with hreach | ⟨q, hq, hno, hle⟩
      · exact hreach.dated hdated
      · exact hentered.reaches hr hdel hnew hq hno hle

/-! ### Runs -/

/-- Under which surroundings each request completed, once a call has run under `env`. -/
def completedIn (env : Env) (l l' : Ledger) (completed : Nat → Option Env) (pk : Nat) :
    Option Env :=
  if l.isDeleted pk = false ∧ l'.isDeleted pk = true then some env else completed pk

/-- Runs from the empty store: calls, recordings by owners among them, and the host at work on its
own tables. Every completion meets `cond`. -/
inductive WindowRun (cond : Env → (Op → Prop) → Program Unit → Ledger → Nat → Time → Prop) :
    (Nat → Option Env) → Db → Prop
  | start : WindowRun cond (fun _ => none) {}
  | call {completed : Nat → Option Env} {s t : Db} {env : Env} {call : Call} {may : Op → Prop}
      {tr : List Op} {p : Program Unit} (hrun : WindowRun cond completed s) (hl : call.Loaded s)
      (h : Runs may (call.prog env) s tr p t)
      (hcond : ∀ pk r, t.requests.get? pk = some r → r.state = .deleted →
        s.isDeleted pk = false → cond env may p s.toLedger pk r.dueAt) :
      WindowRun cond (completedIn env s.toLedger t.toLedger completed) t
  | host {completed : Nat → Option Env} {s : Db} (hrun : WindowRun cond completed s)
      (users : List User) (holds : Table LegalHold) (hashes : List ReRegistrationHash) :
      WindowRun cond completed { s with users := users, holds := holds, hashes := hashes }

/-- Every DELETED request completed under some surroundings, and what is published covers it. -/
def DatesHold (completed : Nat → Option Env) (l : Ledger) : Prop :=
  ∀ pk r, l.requests.get? pk = some r → r.state = .deleted →
    ∃ env, completed pk = some env ∧ r.completedAt = some env.now ∧
      ∀ w ∈ env.settings.spans, env.now + days w ≤ l.fullyErasedBy ⟨pk, r⟩

/-- What is covered stays so while the DELETED requests and the obligations stay. -/
theorem DatesHold.kept {completed completed' : Nat → Option Env} {l l' : Ledger}
    (h : DatesHold completed l) (hobl : ∀ i o, l.obligations.get? i = some o →
      l'.obligations.get? i = some o) (hr : l.requests.get? pk = some r)
    (hdel : r.state = .deleted) (hsame : completed' pk = completed pk) :
    ∃ env, completed' pk = some env ∧ r.completedAt = some env.now ∧
      ∀ w ∈ env.settings.spans, env.now + days w ≤ l'.fullyErasedBy ⟨pk, r⟩ := by
  obtain ⟨env, hcompleted, hat, hall⟩ := h pk r hr hdel
  refine ⟨env, hsame.trans hcompleted, hat, fun w hw => le_fullyErasedBy.mpr ?_⟩
  rcases le_fullyErasedBy.mp (hall w hw) with hle | ⟨i, o, ho, hreq, hle⟩
  · exact .inl hle
  · exact .inr ⟨i, o, hobl i o ho, hreq, hle⟩

/-- A DELETED request stays as it is across a call. -/
theorem Call.settled (hl : call.Loaded a) (h : Runs may (call.prog env) a tr p b)
    (hr : a.requests.get? pk = some r) (hdel : r.state = .deleted) :
    b.requests.get? pk = some r := by
  have hclosed : r.state.isOpen = false := by rw [hdel]; rfl
  have hcall : CallStep env call a b := ⟨hl, tr, p, h.mono fun _ _ => trivial⟩
  have hmoved : Moved env a b := hcall.moved
  refine hmoved.induct (P := fun db => db.requests.get? pk = some r) (fun op c d hm hc => ?_) hr
  obtain ⟨r', hr', hstep⟩ := hm.requests.kept hc
  rwa [hstep.settled hclosed] at hr'

theorem WindowRun.covered {completed : Nat → Option Env} (h : WindowRun Spanned completed db) :
    DatesHold completed db.toLedger := by
  induction h with
  | start => exact fun pk r hr => absurd hr (by simp [Table.get?])
  | @call completed s t env call may tr p _ hl hruns hcond ih =>
      intro pk r hr hdel
      by_cases hown : ∃ request providers, call = .recordObligations request providers
      · -- a recording completes nothing
        obtain ⟨request, providers, rfl⟩ := hown
        have honly : OnlyObliges s t := Call.recordObligations_only hruns
        have hbefore : s.requests.get? pk = some r := honly.requests ▸ hr
        refine ih.kept honly.obligations hbefore hdel (if_neg fun hnew => ?_)
        exact absurd hbefore (not_deleted_before hnew.1 hdel)
      replace hown : ∀ request providers, call ≠ .recordObligations request providers :=
        fun request providers heq => hown ⟨request, providers, heq⟩
      by_cases hbefore : s.isDeleted pk = true
      · -- it was DELETED before the call, and is the same row
        obtain ⟨r₀, hr₀, hdel₀⟩ := isDeleted_iff.mp hbefore
        have hkept := Call.settled hl hruns hr₀ hdel₀
        obtain rfl : r₀ = r := Option.some.inj (hkept.symm.trans hr)
        refine ih.kept (Call.dated hl hown hruns).kept hr₀ hdel (if_neg fun hnew => ?_)
        rw [hbefore] at hnew
        exact absurd hnew.1 (by simp)
      · have hnew : s.isDeleted pk = false := by simpa using hbefore
        have hafter : t.isDeleted pk = true := isDeleted_iff.mpr ⟨r, hr, hdel⟩
        obtain ⟨hat, hall⟩ := (hcond pk r hr hdel hnew).covers hl hown hruns hr hdel hnew
        exact ⟨env, if_pos ⟨hnew, hafter⟩, hat, hall⟩
  | host _ users holds hashes ih => exact ih

/-- **The published date is never too early, when every completion is covered.** In every run
of calls, recordings by owners among them, in which each completion is reached, and so is the end of
each window declared then, by the SLA date, by an obligation that stands, or by a window that
the completion opens itself, the published date of a DELETED request is no earlier than its
completion and than each of those ends. -/
theorem windows_covered {completed : Nat → Option Env} (h : WindowRun Spanned completed db)
    (hr : db.requests.get? pk = some r) (hdel : r.state = .deleted) :
    ∃ env, completed pk = some env ∧ r.completedAt = some env.now ∧
      env.now ≤ db.fullyErasedBy ⟨pk, r⟩ ∧
      ∀ declared, declaredSubprocessors env.settings [] = .ok declared →
        ∀ q ∈ declared, env.now + days q.2 ≤ db.fullyErasedBy ⟨pk, r⟩ := by
  obtain ⟨env, hcompleted, hat, hall⟩ := h.covered pk r hr hdel
  refine ⟨env, hcompleted, hat, ?_, fun declared hdecl q hq => hall q.2 ?_⟩
  · have hzero := hall 0 List.mem_cons_self
    rwa [show days 0 = 0 from rfl, Int.add_zero] at hzero
  · refine List.mem_cons_of_mem _ (List.mem_map.mpr ⟨q, ?_, rfl⟩)
    rwa [Settings.windows, hdecl]

/-! ### Runs that can be computed, with their dates -/

theorem WindowRun.after {cond : Env → (Op → Prop) → Program Unit → Ledger → Nat → Time → Prop}
    {completed : Nat → Option Env} (h : WindowRun cond completed db) (call : Call) (env : Env)
    (hl : call.Loaded db)
    (hcond : ∀ pk r, (call.after env db).requests.get? pk = some r → r.state = .deleted →
      ∀ p, p.Done → cond env (fun _ => False) p db.toLedger pk r.dueAt) :
    WindowRun cond (completedIn env db.toLedger (call.after env db).toLedger completed)
      (call.after env db) := by
  obtain ⟨tr, hrun⟩ := runs_run (fun _ => False) (call.prog env) db
  refine h.call hl hrun fun pk r hr hdel _ => hcond pk r hr hdel _ ?_
  cases ((call.prog env).run db).1 <;> exact trivial

theorem not_deleted (h : db.requests.any (·.state = .deleted) = false) {pk : Nat}
    {r : ErasureRequest} (hr : db.requests.get? pk = some r) : r.state ≠ .deleted := by
  intro hdel
  have hany : db.requests.any (·.state = .deleted) = true :=
    Table.any_eq_true.mpr ⟨pk, r, hr, by simpa using hdel⟩
  rw [h] at hany
  exact absurd hany (by simp)

theorem windows_covered_erased : ∃ (r : ErasureRequest) (env : Env),
    erased.requests.get? 0 = some r ∧ r.completedAt = some env.now ∧
      env.now ≤ erased.fullyErasedBy ⟨0, r⟩ := by
  have hstart : WindowRun Spanned (fun _ => none) (storeOf [account]) :=
    WindowRun.start.host [account] {} []
  have hclosing : WindowRun Spanned _ closing :=
    hstart.after (.initiateClosure "u1" .manual) deployment trivial fun pk r hr hdel =>
      absurd hdel (not_deleted (show closing.requests.any (·.state = .deleted) = false by
        decide +kernel) hr)
  have herasing : WindowRun Spanned _ erasing :=
    hclosing.after .processExpiredGracePeriods (deploymentOn 30) trivial fun pk r hr hdel =>
      absurd hdel (not_deleted (show erasing.requests.any (·.state = .deleted) = false by
        decide +kernel) hr)
  have hwindows : (deploymentOn 30).settings.windows = [("mailer", 30)] := by decide +kernel
  have hrow : (erased.requests.get? 0).map (fun r => (r.state, r.dueAt)) =
      some (.deleted, days 60) := by decide +kernel
  obtain ⟨r, hr, heq⟩ := Option.map_eq_some_iff.mp hrow
  obtain ⟨hdel, hdue⟩ := Prod.mk.inj heq
  obtain ⟨completed, herased⟩ : ∃ completed, WindowRun Spanned completed erased := by
    refine ⟨_, herasing.after (.markSectionErased 0 "media" "job-7" []) (deploymentOn 30) trivial
      fun pk r' hr' _ p hdone => .inr ⟨⟨hdone, fun _ => ⟨id, id⟩, ?_⟩, ?_⟩⟩
    · rw [hwindows]
      intro q hq
      obtain rfl := List.mem_singleton.mp hq
      exact ⟨by decide, fun _ => by decide⟩
    · -- the SLA date reaches the completion, and the mailer's window is opened by it
      have hpk : pk = 0 := by
        have hlt := Table.get?_lt hr'
        have hone : erased.requests.nextPk = 1 := by decide +kernel
        have hlt' : pk < 1 := hone ▸ hlt
        omega
      subst hpk
      obtain rfl : r = r' := Option.some.inj (hr.symm.trans hr')
      have hno : erasing.hasObligation 0 "mailer" = false := by decide +kernel
      rw [Settings.spans, hwindows, hdue]
      intro w hw
      rcases List.mem_cons.mp hw with rfl | hw
      · exact .inl (.inl (by decide))
      · obtain rfl : w = 30 := by simpa using hw
        exact .inr ⟨("mailer", 30), by simp, hno, Int.le_refl 30⟩
  obtain ⟨env, -, hat, hle, -⟩ := windows_covered herased hr hdel
  exact ⟨r, env, hr, hat, hle⟩

/-- Nothing fails, and the call runs to its end. -/
def Smooth (_ : Env) (may : Op → Prop) (p : Program Unit) (_ : Ledger) (_ : Nat)
    (_ : Time) : Prop :=
  p.Done ∧ ∀ op, ¬ may op

/-- The date published is day 30. -/
theorem published_too_early : ¬ ∀ (completed : Nat → Option Env) (db : Db),
    WindowRun Smooth completed db →
    ∀ pk r, db.requests.get? pk = some r → r.state = .deleted →
    ∃ env, completed pk = some env ∧ r.completedAt = some env.now ∧
      env.now ≤ db.fullyErasedBy ⟨pk, r⟩ ∧
      ∀ declared, declaredSubprocessors env.settings [] = .ok declared →
        ∀ q ∈ declared, env.now + days q.2 ≤ db.fullyErasedBy ⟨pk, r⟩ := by
  intro hclaim
  have hasked : WindowRun Smooth _ asked :=
    WindowRun.start.after (.requestErasure "document" "d1" {}) (mailed 0) trivial
      fun _ _ _ _ p hdone => ⟨hdone, fun _ => id⟩
  have hearly : WindowRun Smooth _ recordedEarly :=
    hasked.after (.recordObligations askedRequest ["mailer"]) (mailed 0) askedRequest_loaded
      fun _ _ _ _ p hdone => ⟨hdone, fun _ => id⟩
  have hlate : WindowRun Smooth _ completedLate :=
    hearly.after (.markSectionErased 0 "media" "job-7" []) (mailed 40) trivial
      fun _ _ _ _ p hdone => ⟨hdone, fun _ => id⟩
  have hrow : (completedLate.requests.get? 0).map (fun r => (r.state, r.completedAt,
      completedLate.fullyErasedBy ⟨0, r⟩)) = some (.deleted, some (days 40), days 30) := by
    decide +kernel
  obtain ⟨r, hr, heq⟩ := Option.map_eq_some_iff.mp hrow
  simp only [Prod.mk.injEq] at heq
  obtain ⟨hdel, hat, hdate⟩ := heq
  obtain ⟨env, -, hat', hle, -⟩ := hclaim _ completedLate hlate 0 r hr hdel
  rw [hdate, show env.now = days 40 from Option.some.inj (hat'.symm.trans hat)] at hle
  exact absurd hle (by decide)

end StapelGdpr
