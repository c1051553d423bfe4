import StapelGdpr.Machine

/-!
# StapelGdpr.Refinement

Every statement of every call is a `Move` of the erasure machine, whichever statements
fail on the way and wherever the call dies: one lemma for each function of the
orchestrator, each used by its callers.

The lemmas carry just enough state to discharge the guards: that a row read earlier in the
same call still stands, that a closure executed by this call has its flags set.
-/

namespace StapelGdpr

open Prog

variable {α : Type} {env : Env} {db : Db} {Q : α → Db → Prop} {E : Error → Db → Prop}

/-- From `db`, `p` takes only moves, whatever fails on the way. -/
abbrev Moves (env : Env) (Q : α → Db → Prop) (E : Error → Db → Prop) (p : Program α) (db : Db) :
    Prop :=
  Does (fun _ => True) (Move env) Q E p db

theorem moves_query {op : Op} {g : Db → α} :
    Moves env Q E (Prog.query op g) db ↔ Q (g db) db ∧ ∀ e, E e db := by
  simp [Moves, does_query, Move.idle]

theorem moves_select {g : Db → α} :
    Moves env Q E (Program.select g) db ↔ Q (g db) db ∧ ∀ e, E e db := moves_query

theorem moves_external {Q : Unit → Db → Prop} {op : Op} :
    Moves env Q E (Prog.external op) db ↔ Q () db ∧ ∀ e, E e db := by
  simp [Moves, does_external, Move.idle]

/-- A single write, failing or not. -/
theorem moves_write {Q : Unit → Db → Prop} {op : Op} {u : Db → Db} (hm : Move env op db (u db))
    (hQ : Q () (u db)) (hE : ∀ e, E e db) : Moves env Q E (Prog.write op u) db :=
  does_write.mpr ⟨⟨hm, hQ⟩, fun _ e => ⟨.idle, hE e⟩⟩

/-- A transaction: committed, refused, or failing. -/
theorem moves_atomic {op : Op} {t : Db → Except Error (α × Db)}
    (hok : ∀ a db', t db = .ok (a, db') → Move env op db db' ∧ Q a db') (hE : ∀ e, E e db) :
    Moves env Q E (Prog.atomic op t) db := by
  refine does_atomic.mpr ⟨?_, fun _ e => ⟨.idle, hE e⟩⟩
  cases ht : t db with
  | ok r => exact hok r.1 r.2 ht
  | error e => exact ⟨.idle, hE e⟩

/-! ### Steps outside the ledger -/

section Outside

variable {l : Ledger}

/-- Runs only moves and leaves the ledger at `l`. -/
abbrev Outside (env : Env) (l : Ledger) (p : Program α) (db : Db) : Prop :=
  Moves env (fun _ db' => db'.toLedger = l) (fun _ db' => db'.toLedger = l) p db

theorem getOrCreateHash_outside {userId : UserId} {hashType : HashType} {value : String}
    (hl : db.toLedger = l) : Outside env l (getOrCreateHash env userId hashType value) db := by
  refine does_bind.mpr (moves_select.mpr ⟨?_, fun _ => hl⟩)
  by_cases hex : db.hasHash hashType (computeHash env.host hashType value) = true
  · rw [if_pos hex]
    exact does_ret.mpr hl
  · rw [if_neg hex]
    refine Does.tryCatch (X := fun _ db' => db'.toLedger = l) ?_ fun e db' hl' => ?_
    · refine moves_atomic (fun a db' hok => ?_) fun _ => hl
      rw [if_neg hex] at hok
      obtain ⟨rfl, rfl⟩ := Prod.mk.inj (Except.ok.inj hok)
      exact ⟨.elsewhere _ _, hl⟩
    · by_cases he : e = .integrityError
      · rw [if_pos he]
        refine does_bind.mpr (moves_select.mpr ⟨?_, fun _ => hl'⟩)
        split
        · exact does_ret.mpr hl'
        · exact does_raise.mpr hl'
      · rw [if_neg he]
        exact does_raise.mpr hl'

theorem storeHashes_outside {userId : UserId} {email phone : Option String}
    (hl : db.toLedger = l) : Outside env l (storeHashes env userId email phone) db := by
  refine Does.foldlM (J := fun _ _ (db' : Db) => db'.toLedger = l) (fun f _ written db' hl' => ?_) hl
  cases f.2 with
  | none => exact does_ret.mpr hl'
  | some value =>
      dsimp only
      by_cases hskip : value = "" ∨ isTombstone env.host value = true
      · rw [if_pos hskip]
        exact does_ret.mpr hl'
      · rw [if_neg hskip]
        exact (getOrCreateHash_outside hl').bind fun _ _ h => does_ret.mpr h

theorem storeReregistrationHashes_outside {userId : UserId} (hl : db.toLedger = l) :
    Outside env l (storeReregistrationHashes env userId) db := by
  refine Does.tryCatch (X := fun _ db' => db'.toLedger = l) ?_ fun _ _ h => does_ret.mpr h
  refine does_bind.mpr (moves_select.mpr ⟨?_, fun _ => hl⟩)
  cases db.user userId with
  | none => exact does_ret.mpr hl
  | some user => exact (storeHashes_outside hl).bind fun _ _ h => does_ret.mpr h

theorem anonymizeSection_outside {userId : UserId} {failed : List String} {name : String}
    (hl : db.toLedger = l) : Outside env l (anonymizeSection userId failed name) db := by
  refine Does.tryCatch (X := fun _ db' => db'.toLedger = l) ?_ fun _ _ h => does_ret.mpr h
  exact does_bind.mpr (moves_external.mpr ⟨does_ret.mpr hl, fun _ => hl⟩)

theorem deleteSection_outside {userId : UserId} {failed : List String} {name : String}
    (hl : db.toLedger = l) : Outside env l (deleteSection userId failed name) db := by
  refine Does.tryCatch (X := fun _ db' => db'.toLedger = l) ?_ fun _ _ h => does_ret.mpr h
  exact does_bind.mpr (moves_external.mpr ⟨does_ret.mpr hl, fun _ => hl⟩)

theorem runDeletionInprocess_outside {userId : UserId} (hl : db.toLedger = l) :
    Outside env l (runDeletionInprocess env userId) db := by
  refine Does.bind (P := fun _ db' => db'.toLedger = l) ?_ fun _ _ h => ?_
  · exact Does.foldlM (J := fun _ _ (db' : Db) => db'.toLedger = l)
      (fun _ _ _ _ h => anonymizeSection_outside h) hl
  · exact Does.foldlM (J := fun _ _ (db' : Db) => db'.toLedger = l)
      (fun _ _ _ _ h => deleteSection_outside h) h

theorem eraseIdentity_outside {userId : UserId} (hl : db.toLedger = l) :
    Outside env l (eraseIdentity env userId) db := by
  refine does_bind.mpr (moves_select.mpr ⟨?_, fun _ => hl⟩)
  cases db.user userId with
  | none => exact does_ret.mpr hl
  | some user =>
      refine does_bind.mpr (moves_write (.elsewhere _ _) ?_ fun _ => hl)
      refine does_bind.mpr (moves_select.mpr ⟨?_, fun _ => hl⟩)
      dsimp only
      split
      · exact does_raise.mpr hl
      · exact does_ret.mpr hl

theorem identityErased_outside {userId : UserId} (hl : db.toLedger = l) :
    Outside env l (identityErased env userId) db := by
  refine Does.tryCatch (X := fun _ db' => db'.toLedger = l) ?_ fun _ _ h => does_ret.mpr h
  exact (eraseIdentity_outside hl).bind fun _ _ h => does_ret.mpr h

end Outside

/-! ### Closure, cancellation, opening -/

theorem not_pending {userId : UserId} (h : ¬ db.closures.any (fun c =>
      c.userId = userId && (c.status = .grace || c.status = .deleting)) = true) {pk : Nat}
    {c : AccountClosureRequest} (hc : db.closures.get? pk = some c) (hu : c.userId = userId) :
    c.status ≠ .grace ∧ c.status ≠ .deleting := by
  refine ⟨fun hst => h ?_, fun hst => h ?_⟩ <;>
    exact Table.any_eq_true.mpr ⟨pk, c, hc, by simp [hu, hst]⟩

theorem initiateClosure_moves {userId : UserId} {trigger : ClosureTrigger} :
    Moves env (fun _ _ => True) (fun _ _ => True) (initiateClosure env userId trigger) db := by
  refine does_bind.mpr (moves_select.mpr ⟨?_, fun _ => trivial⟩)
  split
  · exact does_raise.mpr trivial
  · refine does_bind.mpr (moves_select.mpr ⟨?_, fun _ => trivial⟩)
    split
    · exact does_raise.mpr trivial
    · rename_i hpending
      refine moves_atomic (fun a db' hok => ⟨?_, trivial⟩) fun _ => trivial
      obtain ⟨⟨seam, revoked⟩, hrev, hret⟩ := ok_of_bind hok
      rw [setActive_eq] at hrev
      obtain rfl := revokeSessions_ok hrev
      obtain ⟨-, rfl⟩ := Prod.mk.inj (Except.ok.inj hret)
      simpa only [Db.emit, List.append_assoc, List.singleton_append] using
        Move.closureOpened userId trigger _ fun pk c hc hu => not_pending hpending hc hu

theorem cancelClosure_moves {userId : UserId} :
    Moves env (fun _ _ => True) (fun _ _ => True) (cancelClosure env userId) db := by
  refine does_bind.mpr (moves_select.mpr ⟨?_, fun _ => trivial⟩)
  split
  · exact does_raise.mpr trivial
  · rename_i closure hfound
    obtain ⟨hget, hgrace⟩ := Table.first?_some hfound
    simp only [Bool.and_eq_true, decide_eq_true_eq] at hgrace
    refine moves_atomic (fun a db' hok => ⟨?_, trivial⟩) fun _ => trivial
    obtain ⟨-, rfl⟩ := Prod.mk.inj (Except.ok.inj hok)
    rw [setActive_eq]
    exact .closureCancelled _ _ hget hgrace.2

/-- What a caller of `request_erasure` knows when it returns. -/
def Opened (db : Db) (subjectType : String) (args : ErasureArgs) (request : Stored ErasureRequest)
    (db' : Db) : Prop :=
  db'.closures = db.closures ∧ db'.requests.get? request.pk = some request.row ∧
    (args.idempotencyKey = "" →
      request.row.closure = args.closure ∧ request.row.subjectType = subjectType)

theorem insertErasure_moves {st sk : String} {args : ErasureArgs} :
    Moves env (Opened db st args) (fun _ db' => db'.closures = db.closures)
      (insertErasure env st sk args) db := by
  refine Does.tryCatch (X := fun _ db' => db' = db) ?_ fun e db' hdb => ?_
  · refine moves_atomic (fun request db' hok => ⟨.erasureOpened hok, ?_⟩) fun _ => rfl
    obtain ⟨by', -, hrow, -, -, hdb⟩ := openErasure_ok hok
    refine ⟨by rw [hdb], ?_, fun _ => by rw [hrow]; exact ⟨rfl, rfl⟩⟩
    rw [hdb, show request.pk = db.requests.nextPk by rw [hrow]]
    exact Table.get?_insert_nextPk _ _
  · subst hdb
    split
    · rename_i hkey
      refine does_bind.mpr (moves_select.mpr ⟨?_, fun _ => rfl⟩)
      split
      · rename_i winner hwinner
        exact does_ret.mpr ⟨rfl, (Table.first?_some hwinner).1, fun h => absurd h hkey.2⟩
      · exact does_raise.mpr rfl
    · exact does_raise.mpr rfl

theorem requestErasure_moves {st sk : String} {args : ErasureArgs} :
    Moves env (Opened db st args) (fun _ db' => db'.closures = db.closures)
      (requestErasure env st sk args) db := by
  unfold requestErasure
  split
  · exact does_raise.mpr rfl
  · split
    · exact insertErasure_moves
    · rename_i hkey
      refine does_bind.mpr (moves_select.mpr ⟨?_, fun _ => rfl⟩)
      split
      · rename_i existing hfound
        exact does_ret.mpr ⟨rfl, (Table.first?_some hfound).1, fun h => absurd h hkey⟩
      · exact insertErasure_moves

/-! ### Certification -/

theorem getOrCreateObligation_moves {request : Nat} {anchor : Time} {name : String}
    {window : Int} {t : Table AccountClosureRequest} {q : Table ErasureRequest}
    {r : ErasureRequest} (hr : q.get? request = some r)
    (ht : db.closures = t ∧ db.requests = q) :
    Moves env (fun _ db' => db'.closures = t ∧ db'.requests = q)
      (fun _ db' => db'.closures = t ∧ db'.requests = q)
      (getOrCreateObligation env request anchor name window) db := by
  unfold getOrCreateObligation
  split
  · exact does_raise.mpr ht
  refine does_bind.mpr (moves_query.mpr ⟨?_, fun _ => ht⟩)
  split
  · exact does_ret.mpr ht
  · refine Does.tryCatch (X := fun _ db' => db'.closures = t ∧ db'.requests = q) ?_
      fun e db' ht' => ?_
    · refine moves_atomic (fun created db' hok => ?_) fun _ => ht
      obtain ⟨rfl, -, -, hdb⟩ := createObligation_ok hok
      refine ⟨.obligation (ht.2 ▸ hr) hok, ?_⟩
      rw [hdb]
      exact ht
    · split
      · refine does_bind.mpr (moves_query.mpr ⟨?_, fun _ => ht'⟩)
        split
        · exact does_ret.mpr ht'
        · exact does_raise.mpr ht'
      · exact does_raise.mpr ht'

theorem recordSubprocessorObligations_moves {request : Stored ErasureRequest}
    {providers : List String} {t : Table AccountClosureRequest} {q : Table ErasureRequest}
    {r : ErasureRequest} (hr : q.get? request.pk = some r)
    (ht : db.closures = t ∧ db.requests = q) :
    Moves env (fun _ db' => db'.closures = t ∧ db'.requests = q)
      (fun _ db' => db'.closures = t ∧ db'.requests = q)
      (recordSubprocessorObligations env request providers) db := by
  unfold recordSubprocessorObligations
  split
  · exact does_raise.mpr ht
  · refine Does.foldlM (J := fun _ _ (db' : Db) => db'.closures = t ∧ db'.requests = q)
      (fun p _ _ _ ht' => ?_) ht
    exact (getOrCreateObligation_moves hr ht').bind fun _ _ h => does_ret.mpr h

/-- The closure a request waits for, as certification reads it: the stored row has its
erasure finished whenever the copy in hand says so. -/
def Reflects (db : Db) (request : Stored ErasureRequest)
    (closure : Option (Stored AccountClosureRequest)) : Prop :=
  match closure with
  | none => request.row.closure = none
  | some cl => request.row.closure = some cl.pk ∧
      ∃ c, db.closures.get? cl.pk = some c ∧ (cl.row.erased = true → c.erased = true)

theorem certify_moves {request : Stored ErasureRequest}
    {closure : Option (Stored AccountClosureRequest)} {waived : Bool}
    (hr : db.requests.get? request.pk = some request.row)
    (hopen : request.row.state.isOpen = true) (hcl : Reflects db request closure)
    (hallow : closureAllows closure = true)
    (hcomplete : waived = false → Complete env db.toLedger request.pk request.row.subjectType)
    (hhatch : waived = true → env.settings.allowErasureWithoutReceipts = true) :
    Moves env (fun _ _ => True) (fun _ _ => True) (certify env request closure waived) db := by
  have hmove : Move env (.certify request.pk) db { db with
      requests := db.requests.modify request.pk (·.certify env.now waived) } := by
    refine .certified hr hopen (fun k hk => ?_) hcomplete hhatch
    cases closure with
    | none => rw [show request.row.closure = none from hcl] at hk; exact absurd hk (by simp)
    | some cl =>
        obtain ⟨hpk, c, hc, himp⟩ := hcl
        rw [hpk] at hk
        obtain rfl := Option.some.inj hk
        exact ⟨c, hc, himp hallow⟩
  refine does_bind.mpr (moves_write hmove ?_ fun _ => trivial)
  have hobligations : Moves env (fun _ db' => db'.closures = db.closures ∧ _) (fun _ db' => _)
      (recordSubprocessorObligations env ⟨request.pk, request.row.certify env.now waived⟩)
      { db with requests := db.requests.modify request.pk (·.certify env.now waived) } :=
    recordSubprocessorObligations_moves (Table.get?_modify_self _ hr) ⟨rfl, rfl⟩
  refine (hobligations.post (fun _ _ h => h) fun _ _ _ => trivial).bind fun _ db' ⟨ht, _⟩ => ?_
  cases closure with
  | none => exact does_ret.mpr trivial
  | some cl =>
      obtain ⟨-, c, hc, himp⟩ := hcl
      exact moves_write (.closureDeleted waived (ht ▸ hc) (himp hallow)) trivial fun _ => trivial

theorem requestClosure_moves {request : Stored ErasureRequest}
    {cached : Option (Stored AccountClosureRequest)}
    (hcached : ∀ cl k, cached = some cl → request.row.closure = some k →
      k = cl.pk ∧ ∃ c, db.closures.get? cl.pk = some c ∧ c.erased = true) :
    Moves env (fun closure db' => db' = db ∧ Reflects db request closure)
      (fun _ db' => db' = db) (requestClosure request cached) db := by
  unfold requestClosure
  split
  · rename_i hnone
    exact does_ret.mpr ⟨rfl, hnone⟩
  · rename_i k cl hk
    obtain ⟨rfl, c, hc, her⟩ := hcached cl k rfl hk
    exact does_ret.mpr ⟨rfl, hk, c, hc, fun _ => her⟩
  · rename_i k hk
    refine does_bind.mpr (moves_select.mpr ⟨?_, fun _ => rfl⟩)
    split
    · rename_i row hrow
      exact does_ret.mpr ⟨rfl, hk, row, hrow, id⟩
    · exact does_raise.mpr rfl

/-- Nothing blocks exactly when the certificate can be honest. -/
theorem finalizeBlockers_eq_nil {report : RegistryReport} {subjectType : String}
    {unreceipted : List String} :
    finalizeBlockers report subjectType unreceipted = [] ↔
      report.problems = [] ∧ report.ownersFor subjectType ≠ [] ∧ unreceipted = [] := by
  unfold finalizeBlockers
  by_cases ho : report.ownersFor subjectType = [] <;> by_cases hu : unreceipted = [] <;>
    simp [ho, hu]

theorem maybeFinalize_moves {request : Stored ErasureRequest}
    {cached : Option (Stored AccountClosureRequest)}
    (hr : db.requests.get? request.pk = some request.row)
    (hcached : ∀ cl k, cached = some cl → request.row.closure = some k →
      k = cl.pk ∧ ∃ c, db.closures.get? cl.pk = some c ∧ c.erased = true) :
    Moves env (fun _ _ => True) (fun _ _ => True) (maybeFinalize env request cached) db := by
  unfold maybeFinalize
  split
  · exact does_ret.mpr trivial
  · rename_i hopen
    refine ((requestClosure_moves hcached).post (fun _ _ h => h) fun _ _ _ => trivial).bind
      fun closure db' ⟨hdb, hcl⟩ => ?_
    subst hdb
    split
    · exact does_ret.mpr trivial
    · rename_i hallow
      refine does_bind.mpr (moves_select.mpr ⟨?_, fun _ => trivial⟩)
      dsimp only
      split
      · exact does_ret.mpr trivial
      · rename_i hpass
        refine certify_moves hr (by simpa using hopen) hcl (by simpa using hallow) ?_ ?_
        · intro hw
          exact finalizeBlockers_eq_nil.mp (by simpa using hw)
        · intro hw
          by_contra hoff
          exact hpass ⟨by simpa using hw, by simpa using hoff⟩

/-! ### Executing a deletion -/

theorem recordLocalReceipt_moves {request : Nat} {failed : List String} {owner : DataOwner}
    {r : Table ErasureRequest} {c : Table AccountClosureRequest}
    (h : db.requests = r ∧ db.closures = c) :
    Moves env (fun _ db' => db'.requests = r ∧ db'.closures = c) (fun _ _ => True)
      (recordLocalReceipt env request failed owner) db := by
  unfold recordLocalReceipt
  split
  · exact does_ret.mpr h
  · refine does_bind.mpr (moves_select.mpr ⟨?_, fun _ => trivial⟩)
    split
    · exact does_ret.mpr h
    · rename_i part hfound
      split
      · exact does_ret.mpr h
      · rename_i hopen
        exact moves_write (.localReceipt _ (Table.first?_some hfound).1 hopen) h fun _ => trivial

theorem recordLocalReceipts_moves {request : Stored ErasureRequest} {failed : List String}
    {r : Table ErasureRequest} {c : Table AccountClosureRequest}
    (h : db.requests = r ∧ db.closures = c) :
    Moves env (fun _ db' => db'.requests = r ∧ db'.closures = c) (fun _ _ => True)
      (recordLocalReceipts env request failed) db :=
  Does.forM (J := fun _ (db' : Db) => db'.requests = r ∧ db'.closures = c)
    (fun _ _ _ h' => recordLocalReceipt_moves h') h

/-- The closure with this key is under erasure. -/
def Deleting (db : Db) (pk : Nat) : Prop :=
  ∃ c, db.closures.get? pk = some c ∧ c.status = .deleting

theorem startDeleting_moves {closure : Stored AccountClosureRequest}
    (hc : ∃ c, db.closures.get? closure.pk = some c) :
    Moves env (fun _ db' => Deleting db' closure.pk) (fun _ _ => True)
      (startDeleting env closure) db := by
  refine moves_atomic (fun id db' hok => ?_) fun _ => trivial
  obtain ⟨-, rfl⟩ := Prod.mk.inj (Except.ok.inj hok)
  obtain ⟨c, hc⟩ := hc
  exact ⟨.deletionStarted _ _, _, Table.get?_modify_self _ hc, rfl⟩

theorem closureErasure_moves {closure : Stored AccountClosureRequest} {correlationId : Uuid} :
    Moves env (fun out db' => db'.closures = db.closures ∧
        db'.requests.get? out.1.pk = some out.1.row ∧
        (out.2 = true → out.1.row.closure = some closure.pk)) (fun _ _ => True)
      (closureErasure env closure correlationId) db := by
  refine does_bind.mpr (moves_select.mpr ⟨?_, fun _ => trivial⟩)
  split
  · rename_i erasure hfound
    exact does_ret.mpr ⟨rfl, (Table.first?_some hfound).1, fun h => absurd h (by simp)⟩
  · refine (requestErasure_moves.post (fun _ _ h => h) fun _ _ _ => trivial).bind
      fun erasure db' ⟨hcl, hget, hnew⟩ => ?_
    exact does_ret.mpr ⟨hcl, hget, fun _ => (hnew rfl).1⟩

/-- The local work leaves the requests alone, and when it finishes the stored closure has
everything certification asks of it. -/
theorem eraseSubject_moves {closure : Stored AccountClosureRequest} {correlationId : Uuid}
    {erasure : Stored ErasureRequest} (hdel : Deleting db closure.pk) :
    Moves env (fun out db' => db'.requests = db.requests ∧ ∀ cl, out = some cl →
        cl.pk = closure.pk ∧ ∃ c, db'.closures.get? cl.pk = some c ∧ c.erased = true)
      (fun _ _ => True) (eraseSubject env closure correlationId erasure) db := by
  have hstop : ∀ db' : Db, db'.requests = db.requests →
      db'.requests = db.requests ∧ ∀ cl, (none : Option (Stored AccountClosureRequest)) = some cl →
        cl.pk = closure.pk ∧ ∃ c, db'.closures.get? cl.pk = some c ∧ c.erased = true :=
    fun db' h => ⟨h, fun cl hcl => absurd hcl (by simp)⟩
  refine ((storeReregistrationHashes_outside (l := db.toLedger) rfl).post (fun _ _ h => h)
    fun _ _ _ => trivial).bind fun _ db₁ h₁ => ?_
  refine ((runDeletionInprocess_outside h₁).post (fun _ _ h => h)
    fun _ _ _ => trivial).bind fun failed db₂ h₂ => ?_
  refine (recordLocalReceipts_moves (r := db.requests) (c := db.closures)
    ⟨congrArg Ledger.requests h₂, congrArg Ledger.closures h₂⟩).bind fun _ db₃ ⟨hreq, hclo⟩ => ?_
  split
  · exact does_ret.mpr (hstop db₃ hreq)
  · refine ((identityErased_outside (l := db₃.toLedger) rfl).post (fun _ _ h => h)
      fun _ _ _ => trivial).bind fun erased db₄ h₄ => ?_
    have hreq₄ : db₄.requests = db.requests := (congrArg Ledger.requests h₄).trans hreq
    have hclo₄ : db₄.closures = db.closures := (congrArg Ledger.closures h₄).trans hclo
    split
    · exact does_ret.mpr (hstop db₄ hreq₄)
    · obtain ⟨c, hc, hst⟩ := hdel
      rw [← hclo₄] at hc
      refine does_bind.mpr (moves_write (.identityErased _) ?_ fun _ => trivial)
      refine does_bind.mpr (moves_write (.localDone _ _ _ _) ?_ fun _ => trivial)
      refine does_ret.mpr ⟨hreq₄, fun cl hcl => ?_⟩
      obtain rfl := Option.some.inj hcl
      refine ⟨rfl, _, Table.get?_modify_self _ (Table.get?_modify_self _ hc), ?_⟩
      simp [AccountClosureRequest.erased, AccountClosureRequest.finishLocal,
        AccountClosureRequest.eraseIdentity, hst]

theorem executeDeletion_moves {closure : Stored AccountClosureRequest}
    (hc : ∃ c, db.closures.get? closure.pk = some c) :
    Moves env (fun _ _ => True) (fun _ _ => True) (executeDeletion env closure) db := by
  refine does_bind.mpr (moves_select.mpr ⟨?_, fun _ => trivial⟩)
  split
  · exact does_raise.mpr trivial
  · refine (startDeleting_moves hc).bind fun id db₁ hdel => ?_
    dsimp only
    refine closureErasure_moves.bind fun ⟨erasure, created⟩ db₂ ⟨hclo, hget, hnew⟩ => ?_
    refine Does.bind (eraseSubject_moves ?running) fun out db₃ ⟨hreq, hout⟩ => ?_
    case running =>
      obtain ⟨c, hc, hst⟩ := hdel
      exact ⟨c, by rw [hclo]; exact hc, hst⟩
    cases out with
    | none => exact does_ret.mpr trivial
    | some done =>
        refine maybeFinalize_moves (hreq ▸ hget) fun cached k hcached hk => ?_
        cases created with
        | false => exact absurd hcached (by simp)
        | true =>
            obtain rfl : done = cached := by simpa using hcached
            obtain ⟨hpk', c, hcget, her⟩ := hout done rfl
            have hk' := hnew rfl
            dsimp only at hk hk'
            rw [hk'] at hk
            exact ⟨(Option.some.inj hk).symm.trans hpk'.symm, c, hcget, her⟩

/-! ### Receipts and deadlines -/

theorem markSectionErased_moves {correlationId : Uuid} {service receiptId : String}
    {counts : Counts} :
    Moves env (fun _ _ => True) (fun _ _ => True)
      (markSectionErased env correlationId service receiptId counts) db := by
  refine does_bind.mpr (moves_select.mpr ⟨?_, fun _ => trivial⟩)
  split
  · exact does_ret.mpr trivial
  · refine Does.bind (P := fun _ _ => True) (moves_atomic (fun updated db' hok => ?_)
      fun _ => trivial) fun updated db₁ _ => ?_
    · obtain ⟨-, rfl⟩ := Prod.mk.inj (Except.ok.inj hok)
      exact ⟨.receipted _ _ _ _ _, trivial⟩
    · split
      · exact does_ret.mpr trivial
      · refine does_bind.mpr (moves_select.mpr ⟨?_, fun _ => trivial⟩)
        split
        · rename_i row hrow
          exact maybeFinalize_moves hrow fun cl k h => absurd h (by simp)
        · exact does_raise.mpr trivial

theorem mem_announced {l : Ledger} {affected : List (Nat × String)} {r : Stored ErasureRequest} :
    r ∈ l.announced affected ↔ l.requests.get? r.pk = some r.row ∧
      (∃ owner, (r.pk, owner) ∈ affected) ∧ r.row.state.isOpen = true := by
  simp [Ledger.announced, Table.mem_entries]

/-- A sweep announces a request once. -/
theorem announced_pairwise (l : Ledger) (affected : List (Nat × String)) :
    (l.announced affected).Pairwise fun r r' => r.pk ≠ r'.pk := by
  refine (List.perm_insertionSort _ _).symm.pairwise ?_ fun h => Ne.symm h
  have h := (Table.pairwise_pk_select l.requests fun _ => true).filter
    fun r => r.pk ∈ affected.map Prod.fst && r.row.state.isOpen
  rw [Table.select, List.filter_true] at h
  exact h.imp fun hlt => Nat.ne_of_lt hlt

/-- After the bulk update, what the sweep found overdue carries its note. -/
theorem overdue_noted {now : Time} {pk : Nat} {owner : String}
    (h : (pk, owner) ∈ (db.parts.select (·.overdue now)).map fun p => (p.row.request, p.row.owner)) :
    ∃ i p, (db.parts.update (·.overdue now) (·.timeOut)).get? i = some p ∧ p.request = pk ∧
      p.owner = owner ∧ p.note = timedOutNote := by
  obtain ⟨p, hp, heq⟩ := List.mem_map.mp h
  obtain ⟨hget, hover⟩ := Table.mem_select.mp hp
  obtain ⟨rfl, rfl⟩ := Prod.mk.inj heq
  refine ⟨p.pk, p.row.timeOut, ?_, rfl, rfl, rfl⟩
  rw [Table.get?_update, hget, Option.map_some, if_pos hover]

theorem announceTimeout_moves {affected : List (Nat × String)} {r : Stored ErasureRequest}
    (hr : db.requests.get? r.pk = some r.row) (hopen : r.row.state.isOpen = true)
    (hnote : ∃ i p, db.parts.get? i = some p ∧ p.request = r.pk ∧ p.note = timedOutNote)
    {Q : PUnit → Db → Prop} {E : Error → Db → Prop}
    (hQ : ∀ db', db'.parts = db.parts → db'.requests = db.requests.modify r.pk (·.timeOut) →
      Q () db') (hE : ∀ e, E e db) :
    Moves env Q E (announceTimeout affected r) db :=
  moves_write (.requestTimedOut _ hr hopen hnote) (hQ _ rfl rfl) hE

theorem sweepDeletionDeadlines_moves :
    Moves env (fun _ _ => True) (fun _ _ => True) (sweepDeletionDeadlines env) db := by
  refine does_bind.mpr (moves_select.mpr ⟨?_, fun _ => trivial⟩)
  let affected := (db.parts.select (·.overdue env.now)).map fun p => (p.row.request, p.row.owner)
  let noted : Db → Prop := fun db' => ∀ pk owner, (pk, owner) ∈ affected →
    ∃ i p, db'.parts.get? i = some p ∧ p.request = pk ∧ p.note = timedOutNote
  refine Does.bind (P := fun _ db' => noted db') (moves_atomic (fun count db' hok => ?_)
    fun _ => trivial) fun count db₁ hnoted => ?_
  · obtain ⟨-, rfl⟩ := Prod.mk.inj (Except.ok.inj hok)
    refine ⟨.partsTimedOut, fun pk owner hmem => ?_⟩
    obtain ⟨i, p, hget, hreq, -, hnote⟩ := overdue_noted hmem
    exact ⟨i, p, hget, hreq, hnote⟩
  · split
    · exact does_ret.mpr trivial
    · refine does_bind.mpr (moves_select.mpr ⟨?_, fun _ => trivial⟩)
      refine Does.bind (P := fun _ _ => True) ?_ fun _ _ _ => does_ret.mpr trivial
      -- what is left to announce still stands in the table as it was read
      refine (Does.forM (J := fun rest (db' : Db) => noted db' ∧
        rest.Pairwise (fun r r' => r.pk ≠ r'.pk) ∧ ∀ r ∈ rest,
          db'.requests.get? r.pk = some r.row ∧ (∃ owner, (r.pk, owner) ∈ affected) ∧
            r.row.state.isOpen = true) (fun r rest db' ⟨hn, hpw, hrest⟩ => ?_)
        ⟨hnoted, announced_pairwise _ _, fun r hr => mem_announced.mp hr⟩).post
        (fun _ _ _ => trivial) fun _ _ h => h
      obtain ⟨hget, ⟨owner, howner⟩, hopen⟩ := hrest r List.mem_cons_self
      obtain ⟨hhead, htail⟩ := List.pairwise_cons.mp hpw
      refine announceTimeout_moves hget hopen (hn r.pk owner howner)
        (fun db'' hparts hreqs => ⟨?_, htail, fun r' hr' => ?_⟩) fun _ => trivial
      · exact fun pk owner hmem => by rw [hparts]; exact hn pk owner hmem
      · obtain ⟨hget', howner', hopen'⟩ := hrest r' (List.mem_cons_of_mem r hr')
        refine ⟨?_, howner', hopen'⟩
        rw [hreqs, Table.get?_modify_of_ne _ (hhead r' hr').symm, hget']

end StapelGdpr
