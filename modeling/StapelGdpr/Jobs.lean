import StapelGdpr.Interference
import StapelGdpr.Remembering

/-!
# StapelGdpr.Jobs

Every statement of every job is an `Act`, whatever the others write meanwhile, whichever
statements fail and wherever a job dies: one lemma for each function of the orchestrator, each
used by its callers.

`Amid` is the judgment of `Refinement` with interference in place of a store left alone, so what
a lemma carries from one statement to the next is only what lasts: that an object in hand is a
copy of its row, that a closure has its flags set.
-/

namespace StapelGdpr

open Prog

variable {env : Env} {op : Op} {db : Db} {α β : Type}

/-! ### The judgment -/

/-- From `db`, beside others that undo nothing of what persists, `p` takes only acts. -/
abbrev Amid (env : Env) (Q : α → Db → Prop) (p : Program α) (db : Db) : Prop :=
  Beside Persists (fun _ => True) (Act env) Q (fun _ _ => True) p db

/-- A property that no statement of anybody undoes. -/
def Enduring (I : Db → Prop) : Prop := ∀ a b, Persists a b → I a → I b

section Rules

variable {Q : α → Db → Prop} {P : β → Db → Prop} {I : Db → Prop}

theorem amid_raise {e : Error} : Amid env Q (Prog.raise e) db :=
  safe_raise.mpr fun _ _ => trivial

theorem amid_ret {v : α} (hI : Enduring (Q v)) (h : Q v db) : Amid env Q (Prog.ret v) db :=
  safe_ret.mpr fun db' hp => hI db db' hp h

theorem amid_done {v : α} : Amid env (fun _ _ => True) (Prog.ret v) db :=
  safe_ret.mpr fun _ _ => trivial

theorem Amid.bind {p : Program β} {k : β → Program α} (hp : Amid env P p db)
    (hk : ∀ v db', P v db' → Amid env Q (k v) db') : Amid env Q (p >>= k) db :=
  Safe.bind .refl hp hk

theorem Amid.tryCatch {p : Program α} {h : Error → Program α} (hp : Amid env Q p db)
    (hh : ∀ e db', Amid env Q (h e) db') : Amid env Q (p.tryCatch h) db :=
  Safe.tryCatch .refl hp fun e db' _ => hh e db'

theorem Amid.imp {Q' : α → Db → Prop} {p : Program α} (h : Amid env Q p db)
    (hQ : ∀ v db', Q v db' → Q' v db') : Amid env Q' p db :=
  Beside.post h hQ fun _ _ h => h

theorem Amid.select_bind {g : Db → β} {k : β → Program α}
    (h : ∀ db', Persists db db' → Amid env Q (k (g db')) db') :
    Amid env Q (Program.select g >>= k) db :=
  Safe.query_bind fun db' hp => ⟨⟨.idle, h db' hp⟩, fun _ _ => ⟨.idle, amid_raise⟩⟩

theorem Amid.write_bind {op : Op} {u : Db → Db} {k : Unit → Program α}
    (h : ∀ db', Persists db db' → Act env op db' (u db') ∧ Amid env Q (k ()) (u db')) :
    Amid env Q (Prog.write op u >>= k) db :=
  Safe.write_bind fun db' hp => ⟨h db' hp, fun _ _ => ⟨.idle, amid_raise⟩⟩

theorem Amid.write {op : Op} {u : Db → Db}
    (h : ∀ db', Persists db db' → Act env op db' (u db')) :
    Amid env (fun _ _ => True) (Prog.write op u) db :=
  Beside.write fun db' hp => ⟨⟨h db' hp, fun _ _ => trivial⟩, fun _ => ⟨.idle, fun _ _ _ => trivial⟩⟩

theorem Amid.atomic {op : Op} {t : Db → Except Error (α × Db)}
    (h : ∀ db', Persists db db' → ∀ v db'', t db' = .ok (v, db'') →
      Act env op db' db'' ∧ Enduring (Q v) ∧ Q v db'') :
    Amid env Q (Prog.atomic op t) db := by
  refine Beside.atomic (fun db' hp => ?_) fun db' hp _ => ⟨.idle, fun _ _ _ => trivial⟩
  cases ht : t db' with
  | error e => exact ⟨.idle, fun _ _ => trivial⟩
  | ok r =>
      obtain ⟨hact, henduring, hQ⟩ := h db' hp r.1 r.2 ht
      exact ⟨hact, fun db'' hp' => henduring _ _ hp' hQ⟩

/-- What lasts holds at the end as well. -/
theorem Amid.keeps {p : Program α} (h : Amid env Q p db) (hI : Enduring I) (hs : I db) :
    Amid env (fun v db' => Q v db' ∧ I db') p db :=
  (Beside.inv h hI (fun _ a b hact => hI a b hact.persists) hs).imp
    (fun _ _ _ _ hact => hact.1) (fun _ _ h => h) fun _ _ _ => trivial

theorem Amid.always {p : Program α} (h : Always (Act env) p) : Amid env (fun _ _ => True) p db :=
  h.safe

/-- A program that reads nothing it acts on, in front of one that relies on what lasts. -/
theorem Amid.always_bind {p : Program β} {k : β → Program α} (hp : Always (Act env) p)
    (hI : Enduring I) (hs : I db) (hk : ∀ v db', I db' → Amid env Q (k v) db') :
    Amid env Q (p >>= k) db :=
  ((Amid.always hp).keeps hI hs).bind fun v db' h => hk v db' h.2

end Rules

theorem enduring_true : Enduring fun _ => True := fun _ _ _ _ => trivial

theorem enduring_closureCopy (closure : Stored AccountClosureRequest) :
    Enduring (ClosureCopy closure) := fun _ _ hp h => h.persists hp

theorem enduring_requestCopy (request : Stored ErasureRequest) : Enduring (RequestCopy request) :=
  fun _ _ hp h => h.persists hp

theorem Enduring.and {I J : Db → Prop} (hI : Enduring I) (hJ : Enduring J) :
    Enduring fun db => I db ∧ J db :=
  fun a b hp h => ⟨hI a b hp h.1, hJ a b hp h.2⟩

theorem enduring_const (p : Prop) : Enduring fun _ => p := fun _ _ _ h => h

/-! ### Functions that rely on nothing they read -/

theorem act_forget {keep : ReRegistrationHash → Bool} :
    Act env op db { db with hashes := db.hashes.filter keep } :=
  .elsewhere db.users _ fun _ hh => .inl (List.mem_of_mem_filter hh)

theorem act_users {users : List User} : Act env op db { db with users := users } :=
  .elsewhere users db.hashes fun _ => .inl

theorem initiateClosure_act {userId : UserId} {trigger : ClosureTrigger} :
    Always (Act env) (initiateClosure env userId trigger) := by
  refine (always_select fun _ => .idle).bind fun held => ?_
  split
  · exact always_raise
  · refine (always_select fun _ => .idle).bind fun pending => ?_
    split
    · exact always_raise
    · refine .atomic fun db => ⟨.idle, fun closure db' hok => ?_⟩
      obtain ⟨⟨seam, revoked⟩, hrevoke, hrest⟩ := ok_of_bind hok
      obtain ⟨-, rfl⟩ := Prod.mk.inj (Except.ok.inj hrest)
      have hallowed : ¬ env.refusesClosure := by
        intro hrefuses
        unfold Db.revokeSessions at hrevoke
        rw [if_pos (show _ ∧ _ from hrefuses)] at hrevoke
        exact absurd hrevoke (by simp)
      rw [setActive_eq] at hrevoke
      obtain rfl := revokeSessions_ok hrevoke
      simpa only [Db.emit, List.append_assoc, List.singleton_append] using
        Act.closureOpened userId trigger _ hallowed

theorem checkInactiveAccounts_act {lapsed : User → Bool} :
    Always (Act env) (checkInactiveAccounts env lapsed) := by
  refine (always_select fun _ => .idle).bind fun users => Always.forM fun user _ => ?_
  refine Always.tryCatch ((always_select fun _ => .idle).bind fun pending => ?_) fun _ => always_ret
  split
  · exact always_ret
  · exact initiateClosure_act.bind fun _ => always_ret

theorem runRetentionCleanup_act : Always (Act env) (runRetentionCleanup env) := by
  refine (always_select fun _ => .idle).bind fun held => ?_
  exact (always_select fun _ => .idle).bind fun _ => .write fun db => ⟨.idle, act_forget⟩

theorem purgeUnverifiedHashes_act {includeLegacy : Bool} :
    Always (Act env) (purgeUnverifiedHashes includeLegacy) := by
  refine (always_select fun _ => .idle).bind fun count => ?_
  exact Always.bind (.write fun db => ⟨.idle, act_forget⟩) fun _ => always_ret

theorem requestErasure_act {st sk : String} {args : ErasureArgs} :
    Always (Act env) (requestErasure env st sk args) :=
  requestErasure_always (fun _ => .idle) fun _ => ⟨.idle, fun _ _ h => .erasureOpened h⟩

theorem openFromPayload_act {payload : ErasurePayload} :
    Always (Act env) (openFromPayload env payload) := by
  unfold openFromPayload
  dsimp only
  split
  · exact always_raise
  · exact requestErasure_act

theorem erasureRequest_act {payload : ErasurePayload} :
    Always (Act env) (erasureRequest env payload) :=
  openFromPayload_act.bind fun _ => always_ret

theorem handleErasureOpen_act {payload : ErasurePayload} :
    Always (Act env) (handleErasureOpen env payload) := by
  unfold handleErasureOpen
  refine Always.tryCatch (openFromPayload_act.bind fun _ => always_ret) fun e => ?_
  split
  · exact always_ret
  · exact always_raise

theorem postErasure_act {user : UserId} {authorized : String → String → Bool}
    {post : ErasurePost} : Always (Act env) (postErasure env user authorized post) := by
  unfold postErasure
  dsimp only
  split
  · exact always_ret
  · split
    · exact always_ret
    · refine Always.tryCatch (requestErasure_act.bind fun _ => always_ret) fun e => ?_
      split
      · exact always_ret
      · exact always_raise

theorem requeueAfterRestore_act {restoredFrom : Time} {dryRun : Bool} :
    Always (Act env) (requeueAfterRestore env restoredFrom dryRun) := by
  refine (always_select fun _ => .idle).bind fun candidates => ?_
  split
  · exact always_ret
  · refine Always.foldlM fun totals source _ => ?_
    unfold requeue
    refine Always.tryCatch (requestErasure_act.bind fun _ => always_ret) fun e => ?_
    split
    · exact always_ret
    · exact always_ret
    · exact always_raise

theorem recordSubprocessorObligations_act {request : Stored ErasureRequest}
    {providers : List String} :
    Always (Act env) (recordSubprocessorObligations env request providers) :=
  recordSubprocessorObligations_always (fun _ _ => .idle) fun name _ =>
    ⟨.idle, fun o => .obligation request.pk name o⟩

theorem Remembers.act {db' : Db} {userId : UserId} {past : List (Memo Op Db)}
    (h : Remembers env userId past op db db') : Act env op db db' := by
  obtain rfl | ⟨hashType, value, rfl, -, rfl⟩ := h
  · exact .idle
  · refine .elsewhere db.users _ fun h hh => ?_
    rcases List.mem_append.mp hh with hold | hnew
    · exact .inl hold
    · obtain rfl := List.mem_singleton.mp hnew
      exact .inr ⟨⟨userId, rfl⟩, rfl⟩

theorem storeReregistrationHashes_act {userId : UserId} :
    Always (Act env) (storeReregistrationHashes env userId) := by
  have hempty : Nonempty Db := ⟨{}⟩
  exact (@storeReregistrationHashes_recalls env [] userId).forget fun _ _ _ _ h => h.act

theorem runDeletionInprocess_act {userId : UserId} :
    Always (Act env) (runDeletionInprocess env userId) :=
  runDeletionInprocess_always (fun _ _ => .idle) fun _ _ => .idle

theorem recordLocalReceipts_act {request : Stored ErasureRequest} {failed : List String} :
    Always (Act env) (recordLocalReceipts env request failed) :=
  recordLocalReceipts_always (fun _ => .idle) fun i _ => ⟨.idle, fun counts => .localReceipt i counts⟩

theorem identityErased_act {userId : UserId} : Always (Act env) (identityErased env userId) :=
  identityErased_always (fun _ => .idle) fun _ _ => act_users

theorem startDeleting_act {closure : Stored AccountClosureRequest} :
    Always (Act env) (startDeleting env closure) :=
  startDeleting_always fun _ => ⟨.idle, .deletionStarted _ _ _⟩

/-! ### Cancellation -/

theorem cancelClosure_amid {userId : UserId} :
    Amid env (fun _ _ => True) (cancelClosure env userId) db := by
  refine Amid.select_bind fun db₁ _ => ?_
  cases hfound : db₁.closures.first? fun c => c.userId = userId && c.status = .grace with
  | none => exact amid_raise
  | some closure =>
      refine Amid.atomic fun db₂ hp v db₃ hok => ⟨?_, enduring_true, trivial⟩
      obtain ⟨-, rfl⟩ := Prod.mk.inj (Except.ok.inj hok)
      obtain ⟨hget, hmine⟩ := Table.first?_some hfound
      simp only [Bool.and_eq_true, decide_eq_true_eq] at hmine
      obtain ⟨c, hc, hcopy⟩ := (ClosureCopy.read hget).persists hp
      have huser : c.userId = userId := hcopy.userId.trans hmine.1
      rw [setActive_eq, ← hcopy.trigger, ← huser]
      exact .closureCancelled _ hc

/-! ### Opening -/

theorem insertErasure_amid {st sk : String} {args : ErasureArgs} :
    Amid env (fun request db' => RequestCopy request db' ∧
      (args.idempotencyKey = "" → request.row.closure = args.closure))
      (insertErasure env st sk args) db := by
  refine Amid.tryCatch (Amid.atomic fun db₁ _ request db₂ hok => ?_) fun e db₁ => ?_
  · refine ⟨.erasureOpened hok, (enduring_requestCopy request).and (enduring_const _), ?_⟩
    obtain ⟨by', -, hrow, -, -, hdb⟩ := openErasure_ok hok
    refine ⟨RequestCopy.read ?_, fun _ => by rw [hrow]; rfl⟩
    rw [hdb, show request.pk = db₁.requests.nextPk by rw [hrow]]
    exact Table.get?_insert_nextPk _ _
  · split
    · rename_i hkey
      refine Amid.select_bind fun db₂ _ => ?_
      cases hwinner : db₂.keyed args.idempotencyKey with
      | none => exact amid_raise
      | some winner =>
          exact amid_ret ((enduring_requestCopy winner).and (enduring_const _))
            ⟨.read (Table.first?_some hwinner).1, fun h => absurd h hkey.2⟩
    · exact amid_raise

theorem requestErasure_amid {st sk : String} {args : ErasureArgs} :
    Amid env (fun request db' => RequestCopy request db' ∧
      (args.idempotencyKey = "" → request.row.closure = args.closure))
      (requestErasure env st sk args) db := by
  unfold requestErasure
  split
  · exact amid_raise
  · split
    · exact insertErasure_amid
    · rename_i hkey
      refine Amid.select_bind fun db₁ _ => ?_
      cases hfound : db₁.keyed args.idempotencyKey with
      | none => exact insertErasure_amid
      | some existing =>
          exact amid_ret ((enduring_requestCopy existing).and (enduring_const _))
            ⟨.read (Table.first?_some hfound).1, fun h => absurd h hkey⟩

/-- The request found or opened for a closure; one just opened names the closure. -/
def Acquired (closure : Stored AccountClosureRequest) (out : Stored ErasureRequest × Bool)
    (db : Db) : Prop :=
  RequestCopy out.1 db ∧ (out.2 = true → out.1.row.closure = some closure.pk)

theorem enduring_acquired (closure : Stored AccountClosureRequest)
    (out : Stored ErasureRequest × Bool) : Enduring (Acquired closure out) :=
  (enduring_requestCopy out.1).and (enduring_const _)

theorem closureErasure_amid {closure : Stored AccountClosureRequest} {correlationId : Uuid} :
    Amid env (Acquired closure) (closureErasure env closure correlationId) db := by
  refine Amid.select_bind fun db₁ _ => ?_
  cases hfound : db₁.correlated correlationId with
  | some erasure =>
      exact amid_ret (enduring_acquired closure _)
        ⟨.read (Table.first?_some hfound).1, fun h => absurd h (by simp)⟩
  | none =>
      refine requestErasure_amid.bind fun erasure db₂ h => ?_
      exact amid_ret (enduring_acquired closure _) ⟨h.1, fun _ => h.2 rfl⟩

/-! ### Certification -/

/-- The stored closure has its local erasure behind it. -/
def LocalDone (pk : Nat) (db : Db) : Prop :=
  ∃ c, db.closures.get? pk = some c ∧ c.localErasureDone = true ∧ c.identityErasedAt.isSome = true

theorem enduring_localDone (pk : Nat) : Enduring (LocalDone pk) := by
  intro a b hp h
  obtain ⟨c, hc, hlocal, hidentity⟩ := h
  obtain ⟨c', hc', hkept⟩ := hp.closures.kept hc
  exact ⟨c', hc', hkept.localErasureDone hlocal, hkept.identityErasedAt hidentity⟩

/-- The closure object certification looks at is the request's, and what it says of the local
erasure the stored row says too. -/
def Mirrors (request : Stored ErasureRequest) (closure : Option (Stored AccountClosureRequest))
    (db : Db) : Prop :=
  match closure with
  | none => request.row.closure = none
  | some cl => request.row.closure = some cl.pk ∧ (cl.row.erased = true → LocalDone cl.pk db)

theorem enduring_mirrors (request : Stored ErasureRequest)
    (closure : Option (Stored AccountClosureRequest)) : Enduring (Mirrors request closure) := by
  intro a b hp h
  cases closure with
  | none => exact h
  | some cl => exact ⟨h.1, fun her => enduring_localDone cl.pk a b hp (h.2 her)⟩

theorem Mirrors.closureErased {request : Stored ErasureRequest}
    {closure : Option (Stored AccountClosureRequest)} {r : ErasureRequest}
    (h : Mirrors request closure db) (hallow : closureAllows closure = true)
    (hr : r.closure = request.row.closure) : ClosureErased db.toLedger r := by
  intro k hk
  rw [hr] at hk
  cases closure with
  | none => exact absurd (h.symm.trans hk) (by simp)
  | some cl =>
      obtain rfl := Option.some.inj (h.1.symm.trans hk)
      exact h.2 hallow

theorem certify_amid {request : Stored ErasureRequest}
    {closure : Option (Stored AccountClosureRequest)} {waived : Bool}
    (hr : RequestCopy request db) (hcl : Mirrors request closure db)
    (hallow : closureAllows closure = true)
    (hcomplete : waived = false → Complete env db.toLedger request.pk request.row.subjectType)
    (hhatch : waived = true → env.settings.allowErasureWithoutReceipts = true) :
    Amid env (fun _ _ => True) (certify env request closure waived) db := by
  refine Amid.write_bind fun db₁ hp => ⟨?_, ?_⟩
  · obtain ⟨r, hget, hcopy⟩ := hr.persists hp
    refine .certified hget ((enduring_mirrors request closure _ _ hp hcl).closureErased hallow
      hcopy.closure) (fun hw => ?_) hhatch
    rw [hcopy.subjectType]
    obtain ⟨r₀, hget₀, -⟩ := hr
    exact hp.complete hget₀ (hcomplete hw)
  · have hafter : Mirrors request closure { db₁ with
        requests := db₁.requests.modify request.pk (·.certify env.now waived) } := by
      have hmirrors := enduring_mirrors request closure _ _ hp hcl
      cases closure with
      | none => exact hmirrors
      | some cl => exact hmirrors
    refine Amid.always_bind recordSubprocessorObligations_act (enduring_mirrors request closure)
      hafter fun _ db₂ hcl₂ => ?_
    cases closure with
    | none => exact amid_done
    | some cl =>
        refine Amid.write fun db₃ hp₃ => ?_
        obtain ⟨c, hc, hlocal, hidentity⟩ := enduring_localDone cl.pk _ _ hp₃ (hcl₂.2 hallow)
        exact .closureDeleted waived hc hlocal hidentity ⟨fun hw => (hcomplete hw).1, hhatch⟩

/-- The closure object of the call, when it passes one on, is the request's and erased. -/
def Cached (request : Stored ErasureRequest) (cached : Option (Stored AccountClosureRequest))
    (db : Db) : Prop :=
  ∀ cl, cached = some cl → request.row.closure = some cl.pk ∧ LocalDone cl.pk db

theorem requestClosure_amid {request : Stored ErasureRequest}
    {cached : Option (Stored AccountClosureRequest)} (hcached : Cached request cached db) :
    Amid env (Mirrors request) (requestClosure request cached) db := by
  unfold requestClosure
  split
  · rename_i hnone
    exact amid_ret (enduring_mirrors request none) hnone
  · rename_i k cl hk
    obtain ⟨hpk, herased⟩ := hcached cl rfl
    exact amid_ret (enduring_mirrors request (some cl)) ⟨hpk, fun _ => herased⟩
  · rename_i k hk
    refine Amid.select_bind fun db₁ _ => ?_
    cases hrow : db₁.closures.get? k with
    | none => exact amid_raise
    | some row =>
        refine amid_ret (enduring_mirrors request _) ⟨hk, fun her => ⟨row, hrow, ?_⟩⟩
        exact (AccountClosureRequest.erased_iff.mp her).2

theorem maybeFinalize_amid {request : Stored ErasureRequest}
    {cached : Option (Stored AccountClosureRequest)} (hr : RequestCopy request db)
    (hcached : Cached request cached db) :
    Amid env (fun _ _ => True) (maybeFinalize env request cached) db := by
  unfold maybeFinalize
  split
  · exact amid_done
  · refine ((requestClosure_amid hcached).keeps (enduring_requestCopy request) hr).bind
      fun closure db₁ h => ?_
    split
    · exact amid_done
    · rename_i hallow
      refine Amid.select_bind fun db₂ hp => ?_
      dsimp only
      split
      · exact amid_done
      · rename_i hpass
        refine certify_amid (h.2.persists hp) (enduring_mirrors request closure _ _ hp h.1)
          (by simpa using hallow) (fun hw => finalizeBlockers_eq_nil.mp (by simpa using hw))
          fun hw => ?_
        by_contra hoff
        exact hpass ⟨by simpa using hw, by simpa using hoff⟩

/-! ### Executing a deletion -/

/-- The closure whose erasure the call has just finished. -/
def Carried (closure : Stored AccountClosureRequest) (out : Option (Stored AccountClosureRequest))
    (db : Db) : Prop :=
  ∀ cl, out = some cl → cl.pk = closure.pk ∧ LocalDone cl.pk db

theorem enduring_carried (closure : Stored AccountClosureRequest)
    (out : Option (Stored AccountClosureRequest)) : Enduring (Carried closure out) :=
  fun a b hp h cl hcl => ⟨(h cl hcl).1, enduring_localDone cl.pk a b hp (h cl hcl).2⟩

/-- The stored closure has its identity erased, and the object in hand is a copy of it. -/
def IdentityErased (closure : Stored AccountClosureRequest) (db : Db) : Prop :=
  ∃ c, db.closures.get? closure.pk = some c ∧ ClosurePersists closure.row c ∧
    c.identityErasedAt.isSome = true

theorem enduring_identityErased (closure : Stored AccountClosureRequest) :
    Enduring (IdentityErased closure) := by
  intro a b hp h
  obtain ⟨c, hc, hcopy, hidentity⟩ := h
  obtain ⟨c', hc', hkept⟩ := hp.closures.kept hc
  exact ⟨c', hc', hcopy.trans hkept, hkept.identityErasedAt hidentity⟩

theorem eraseSubject_amid {closure : Stored AccountClosureRequest} {correlationId : Uuid}
    {erasure : Stored ErasureRequest} (hc : ClosureCopy closure db) :
    Amid env (Carried closure) (eraseSubject env closure correlationId erasure) db := by
  have hstop : ∀ db' : Db, Amid env (Carried closure) (Prog.ret none) db' := fun db' =>
    amid_ret (enduring_carried closure none) fun cl hcl => absurd hcl (by simp)
  have hcopy := enduring_closureCopy closure
  refine Amid.always_bind storeReregistrationHashes_act hcopy hc fun _ db₁ hc => ?_
  refine Amid.always_bind runDeletionInprocess_act hcopy hc fun failed db₂ hc => ?_
  refine Amid.always_bind recordLocalReceipts_act hcopy hc fun _ db₃ hc => ?_
  split
  · exact hstop db₃
  · refine Amid.always_bind identityErased_act hcopy hc fun erased db₄ hc => ?_
    split
    · exact hstop db₄
    · refine Amid.write_bind fun db₅ hp => ⟨.identityErased closure.pk, ?_⟩
      obtain ⟨c, hget, hkept⟩ := hc.persists hp
      have hmarked : IdentityErased closure { db₅ with
          closures := db₅.closures.modify closure.pk (·.eraseIdentity env.now) } :=
        ⟨_, Table.get?_modify_self _ hget,
          hkept.trans (@ClosureAct.persists env _ _ (.identityErased c env.now)), rfl⟩
      refine Amid.write_bind fun db₆ hp₆ => ?_
      obtain ⟨c₆, hget₆, hkept₆, hidentity₆⟩ := enduring_identityErased closure _ _ hp₆ hmarked
      constructor
      · rw [← hkept₆.userId, ← hkept₆.trigger]
        exact .localDone correlationId hget₆ hidentity₆
      · refine amid_ret (enduring_carried closure _) fun cl hcl => ?_
        obtain rfl := Option.some.inj hcl
        exact ⟨rfl, _, Table.get?_modify_self _ hget₆, rfl, hidentity₆⟩

theorem executeDeletion_amid {closure : Stored AccountClosureRequest} (hc : ClosureCopy closure db) :
    Amid env (fun _ _ => True) (executeDeletion env closure) db := by
  refine Amid.select_bind fun db₁ hp => ?_
  split
  · exact amid_raise
  · refine Amid.always_bind startDeleting_act (enduring_closureCopy closure) (hc.persists hp)
      fun id db₂ hc => ?_
    dsimp only
    -- the object is the row as it was read, with the columns of this save
    have hstarted : ClosureCopy ⟨closure.pk, closure.row.startDeleting id env.report.version⟩ db₂ :=
      hc.imp fun c h => ⟨h.1, ⟨h.2.userId, h.2.trigger, h.2.initiatedAt, h.2.graceEndsAt,
        h.2.localErasureDone, h.2.identityErasedAt, h.2.cancelledAt⟩⟩
    refine (closureErasure_amid.keeps (enduring_closureCopy _) hstarted).bind
      fun ⟨erasure, created⟩ db₃ ⟨hacquired, hc₃⟩ => ?_
    refine ((eraseSubject_amid hc₃).keeps (enduring_acquired _ _) hacquired).bind
      fun out db₄ ⟨hout, hacquired⟩ => ?_
    cases out with
    | none => exact amid_done
    | some done =>
        refine maybeFinalize_amid hacquired.1 fun cl hcl => ?_
        cases created with
        | false => exact absurd hcl (by simp)
        | true =>
            obtain rfl : done = cl := by simpa using hcl
            obtain ⟨hpk, herased⟩ := hout done rfl
            exact ⟨(hacquired.2 rfl).trans (congrArg some hpk.symm), herased⟩

theorem expireClosure_amid {closure : Stored AccountClosureRequest} (hc : ClosureCopy closure db) :
    Amid env (fun _ _ => True) (expireClosure env closure) db :=
  (executeDeletion_amid hc).tryCatch fun _ _ => amid_done

theorem processExpiredGracePeriods_amid :
    Amid env (fun _ _ => True) (processExpiredGracePeriods env) db := by
  refine Amid.select_bind fun db₁ _ => ?_
  let present : Db → Prop := fun db' => ∀ closure ∈ db₁.expiredGrace env.now, ClosureCopy closure db'
  have henduring : Enduring present := fun a b hp h closure hmem => (h closure hmem).persists hp
  have hread : present db₁ := fun closure hmem => .read (Table.mem_select.mp hmem).1
  let J : List (Stored AccountClosureRequest) → Db → Prop := fun rest db' =>
    present db' ∧ ∀ closure ∈ rest, closure ∈ db₁.expiredGrace env.now
  have hloop : Amid env (fun _ db' => J [] db')
      ((db₁.expiredGrace env.now).forM (expireClosure env)) db₁ := by
    refine Beside.forM .refl (fun closure rest db' h => ?_)
      (fun rest a b hp h => ⟨henduring a b hp h.1, h.2⟩) ⟨hread, fun _ h => h⟩
    have hmem := h.2 closure List.mem_cons_self
    exact ((expireClosure_amid (h.1 closure hmem)).keeps henduring h.1).imp
      fun _ db'' hp => ⟨hp.2, fun cl hcl => h.2 cl (List.mem_cons_of_mem closure hcl)⟩
  exact hloop.imp fun _ _ _ => trivial

/-! ### Receipts and deadlines -/

theorem markSectionErased_amid {correlationId : Uuid} {service receiptId : String}
    {counts : Counts} :
    Amid env (fun _ _ => True)
      (markSectionErased env correlationId service receiptId counts) db := by
  refine Amid.select_bind fun db₁ _ => ?_
  cases db₁.correlated correlationId with
  | none => exact amid_done
  | some request =>
      have hupdate : Amid env (fun _ _ => True) (Prog.atomic (.receipt request.pk service)
          fun db : Db => .ok ((db.parts.select (·.awaits request.pk service)).length, { db with
            parts := db.parts.update (·.awaits request.pk service)
              (·.receive env.now correlationId receiptId counts) })) db₁ :=
        Amid.atomic fun db₂ _ v db₃ hok => by
          obtain ⟨-, rfl⟩ := Prod.mk.inj (Except.ok.inj hok)
          exact ⟨.receipted _ _ _ _ _, enduring_true, trivial⟩
      refine hupdate.bind fun updated db₂ _ => ?_
      split
      · exact amid_done
      · refine Amid.select_bind fun db₃ _ => ?_
        cases hrow : db₃.requests.get? request.pk with
        | none => exact amid_raise
        | some row => exact maybeFinalize_amid (.read hrow) fun cl hcl => absurd hcl (by simp)

theorem handleSectionErased_amid {event : SectionErased} :
    Amid env (fun _ _ => True) (handleSectionErased env event) db := by
  unfold handleSectionErased
  split
  · exact amid_done
  · split
    · exact amid_done
    · exact markSectionErased_amid

theorem announceTimeout_amid {affected : List (Nat × String)} {request : Stored ErasureRequest}
    (hr : RequestCopy request db) :
    Amid env (fun _ _ => True) (announceTimeout affected request) db := by
  refine Amid.write fun db₁ hp => ?_
  obtain ⟨r, hget, hcopy⟩ := hr.persists hp
  have hsame : r.correlationId = request.row.correlationId ∧ r.subjectType = request.row.subjectType ∧
      r.subjectKey = request.row.subjectKey ∧ r.dueAt = request.row.dueAt := by
    rw [hcopy.columns]
    exact ⟨rfl, rfl, rfl, rfl⟩
  rw [← hsame.1, ← hsame.2.1, ← hsame.2.2.1, ← hsame.2.2.2]
  exact .requestTimedOut _ hget

theorem sweepDeletionDeadlines_amid :
    Amid env (fun _ _ => True) (sweepDeletionDeadlines env) db := by
  refine Amid.select_bind fun db₁ _ => ?_
  refine Amid.bind (P := fun _ _ => True) (Amid.atomic fun db₂ _ v db₃ hok => ?_)
    fun count db₂ _ => ?_
  · obtain ⟨-, rfl⟩ := Prod.mk.inj (Except.ok.inj hok)
    exact ⟨.partsTimedOut, enduring_true, trivial⟩
  · split
    · exact amid_done
    · refine Amid.select_bind fun db₃ _ => ?_
      let copies : List (Stored ErasureRequest) → Db → Prop := fun rest db' =>
        ∀ r ∈ rest, RequestCopy r db'
      have henduring : ∀ rest, Enduring (copies rest) := fun rest a b hp h r hr =>
        (h r hr).persists hp
      refine Amid.bind (P := fun _ _ => True) ?_ fun _ _ _ => amid_done
      refine (Beside.forM Persists.refl (J := copies) (fun r rest db' h => ?_)
        (fun rest a b hp h => henduring rest a b hp h) fun r hr => ?_).post
        (fun _ _ _ => trivial) fun _ _ h => h
      · have hrest : copies rest db' := fun r' hr' => h r' (List.mem_cons_of_mem r hr')
        exact ((announceTimeout_amid (h r List.mem_cons_self)).keeps (henduring rest) hrest).imp
          fun _ _ h => h.2
      · exact .read (mem_announced.mp hr).1

/-! ### Jobs -/

/-- The calls and scheduled tasks of the erasure side. -/
inductive Job
  | call (c : Call)
  | checkInactiveAccounts (lapsed : User → Bool)
  | runRetentionCleanup
  | purgeUnverifiedHashes (includeLegacy : Bool)

/-- The code of a job, its result dropped. -/
def Job.prog (env : Env) : Job → Program Unit
  | call c => c.prog env
  | checkInactiveAccounts lapsed => StapelGdpr.checkInactiveAccounts env lapsed
  | runRetentionCleanup => StapelGdpr.runRetentionCleanup env
  | purgeUnverifiedHashes includeLegacy => discard (StapelGdpr.purgeUnverifiedHashes includeLegacy)

/-- The closure object of `execute_deletion` was read from its row, now or earlier. -/
def Job.Read (db : Db) : Job → Prop
  | call (.executeDeletion closure) => ClosureCopy closure db
  | _ => True

theorem discard_amid {p : Program α} {Q : α → Db → Prop} (h : Amid env Q p db) :
    Amid env (fun _ _ => True) (discard p) db :=
  h.bind fun _ _ _ => amid_done

/-- **Every statement of every job is an act**, whatever the others write meanwhile. -/
theorem Job.amid {job : Job} (h : job.Read db) :
    Amid env (fun _ _ => True) (job.prog env) db := by
  unfold Job.prog
  cases job with
  | checkInactiveAccounts => exact .always checkInactiveAccounts_act
  | runRetentionCleanup => exact .always runRetentionCleanup_act
  | purgeUnverifiedHashes => exact discard_amid (.always purgeUnverifiedHashes_act)
  | call c =>
      dsimp only
      unfold Call.prog
      cases c with
      | initiateClosure => exact discard_amid (.always initiateClosure_act)
      | cancelClosure => exact discard_amid cancelClosure_amid
      | executeDeletion => exact executeDeletion_amid h
      | processExpiredGracePeriods => exact processExpiredGracePeriods_amid
      | requestErasure => exact discard_amid (.always requestErasure_act)
      | erasureRequest => exact discard_amid (.always erasureRequest_act)
      | erasureOpen => exact .always handleErasureOpen_act
      | postErasure => exact discard_amid (.always postErasure_act)
      | requeueAfterRestore => exact discard_amid (.always requeueAfterRestore_act)
      | markSectionErased => exact markSectionErased_amid
      | sectionErased => exact handleSectionErased_amid
      | sweepDeletionDeadlines => exact discard_amid sweepDeletionDeadlines_amid
      | recordObligations => exact discard_amid (.always recordSubprocessorObligations_act)

/-! ### Who does the local work -/

/-- The statements of the local work of an execution, whoever it is about. -/
def LocalWork : Op → Prop
  | .storeHash _ | .anonymize .. | .delete .. | .localReceipt _ | .eraseIdentity _
  | .identityErased _ | .localDoneUnit _ => True
  | _ => False

theorem Call.noLocalWork {call : Call} (hexec : ∀ closure, call ≠ .executeDeletion closure)
    (hworker : call ≠ .processExpiredGracePeriods) (h : call.may op) : ¬ LocalWork op := by
  intro hwork
  cases call with
  | executeDeletion closure => exact hexec closure rfl
  | processExpiredGracePeriods => exact hworker rfl
  | markSectionErased | sectionErased =>
      cases op with
      | storeHash | anonymize | delete | localReceipt | eraseIdentity | identityErased
      | localDoneUnit => exact h
      | _ => exact hwork
  | initiateClosure | requestErasure | erasureRequest | erasureOpen | postErasure =>
      obtain rfl | rfl := h <;> exact hwork
  | cancelClosure =>
      obtain rfl | ⟨pk, rfl⟩ := h <;> exact hwork
  | requeueAfterRestore =>
      obtain rfl | ⟨st, sk, rfl⟩ := h <;> exact hwork
  | sweepDeletionDeadlines =>
      obtain rfl | rfl | ⟨request, rfl⟩ := h <;> exact hwork
  | recordObligations =>
      obtain ⟨name, rfl | rfl⟩ := h <;> exact hwork

/-- No job but an execution or the worker does any of it. -/
theorem Job.noLocalWork {job : Job} (hexec : ∀ closure, job ≠ .call (.executeDeletion closure))
    (hworker : job ≠ .call .processExpiredGracePeriods) :
    Labels (fun op => ¬ LocalWork op) (job.prog env) := by
  have hselect : ¬ LocalWork .select := id
  unfold Job.prog
  cases job with
  | call c =>
      exact (Call.labels env c).mono fun op _ _ hop => Call.noLocalWork
        (fun closure h => hexec closure (by rw [h])) (fun h => hworker (by rw [h])) hop
  | checkInactiveAccounts =>
      refine (labels_select hselect).bind fun users => Always.forM fun user _ => ?_
      refine Always.tryCatch ((labels_select hselect).bind fun pending => ?_) fun _ => always_ret
      split
      · exact always_ret
      · exact (initiateClosure_labels hselect id).bind fun _ => always_ret
  | runRetentionCleanup =>
      refine (labels_select hselect).bind fun held => ?_
      exact (labels_select hselect).bind fun count => labels_write id
  | purgeUnverifiedHashes =>
      exact discard_labels ((labels_select hselect).bind fun _ =>
        Always.bind (labels_write id) fun _ => always_ret)

end StapelGdpr
