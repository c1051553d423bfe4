import StapelGdpr.Refinement

/-!
# StapelGdpr.Run

Whole runs: any sequence of calls, each under its own settings, providers and clock, each
alone in the store, each free to fail at any statement or to die after any prefix of its
steps; between calls the host writes its users and staff place and release holds.

`Onward.induct` is the induction every run-level result uses: what each `Move` preserves,
every run preserves.
-/

namespace StapelGdpr

open Prog

/-- The calls the erasure side answers. -/
inductive Call
  | initiateClosure (userId : UserId) (trigger : ClosureTrigger)
  | cancelClosure (userId : UserId)
  /-- On a closure object loaded at any earlier time. -/
  | executeDeletion (closure : Stored AccountClosureRequest)
  | processExpiredGracePeriods
  | requestErasure (subjectType subjectKey : String) (args : ErasureArgs)
  | erasureRequest (payload : ErasurePayload)
  | erasureOpen (payload : ErasurePayload)
  | postErasure (user : UserId) (authorized : String → String → Bool) (post : ErasurePost)
  | requeueAfterRestore (restoredFrom : Time) (dryRun : Bool)
  | markSectionErased (correlationId : Uuid) (service receiptId : String) (counts : Counts)
  | sectionErased (event : SectionErased)
  | sweepDeletionDeadlines
  /-- By an owner, on a request object loaded at any earlier time. -/
  | recordObligations (request : Stored ErasureRequest) (providers : List String)

/-- Run a program for its effect. -/
def discard {α : Type} (p : Program α) : Program Unit := do
  let _ ← p
  return ()

/-- The code of a call, its result dropped. -/
def Call.prog (env : Env) : Call → Program Unit
  | initiateClosure userId trigger => discard (StapelGdpr.initiateClosure env userId trigger)
  | cancelClosure userId => discard (StapelGdpr.cancelClosure env userId)
  | executeDeletion closure => StapelGdpr.executeDeletion env closure
  | processExpiredGracePeriods => StapelGdpr.processExpiredGracePeriods env
  | requestErasure st sk args => discard (StapelGdpr.requestErasure env st sk args)
  | erasureRequest payload => discard (StapelGdpr.erasureRequest env payload)
  | erasureOpen payload => handleErasureOpen env payload
  | postErasure user authorized post =>
      discard (StapelGdpr.postErasure env user authorized post)
  | requeueAfterRestore restoredFrom dryRun =>
      discard (StapelGdpr.requeueAfterRestore env restoredFrom dryRun)
  | markSectionErased correlationId service receiptId counts =>
      StapelGdpr.markSectionErased env correlationId service receiptId counts
  | sectionErased event => handleSectionErased env event
  | sweepDeletionDeadlines => discard (StapelGdpr.sweepDeletionDeadlines env)
  | recordObligations request providers =>
      discard (recordSubprocessorObligations env request providers)

/-- An object that was loaded names a row that exists. -/
def Call.Loaded (db : Db) : Call → Prop
  | executeDeletion closure => ∃ c, db.closures.get? closure.pk = some c
  | recordObligations request _ => ∃ r, db.requests.get? request.pk = some r
  | _ => True

/-! ### Every call refines the machine -/

variable {env : Env} {db db' : Db} {α : Type} {Q : α → Db → Prop} {E : Error → Db → Prop}

theorem discard_moves {p : Program α} (h : Moves env Q E p db) :
    Moves env (fun _ _ => True) (fun _ _ => True) (discard p) db :=
  (h.post (fun _ _ h => h) fun _ _ _ => trivial).bind fun _ _ _ => does_ret.mpr trivial

theorem requestErasure_any {st sk : String} {args : ErasureArgs} :
    Moves env (fun _ _ => True) (fun _ _ => True) (requestErasure env st sk args) db :=
  requestErasure_moves.post (fun _ _ _ => trivial) fun _ _ _ => trivial

theorem openFromPayload_moves {payload : ErasurePayload} :
    Moves env (fun _ _ => True) (fun _ _ => True) (openFromPayload env payload) db := by
  unfold openFromPayload
  dsimp only
  split
  · exact does_raise.mpr trivial
  · exact requestErasure_any

theorem erasureRequest_moves {payload : ErasurePayload} :
    Moves env (fun _ _ => True) (fun _ _ => True) (erasureRequest env payload) db :=
  openFromPayload_moves.bind fun _ _ _ => does_ret.mpr trivial

theorem handleErasureOpen_moves {payload : ErasurePayload} :
    Moves env (fun _ _ => True) (fun _ _ => True) (handleErasureOpen env payload) db := by
  unfold handleErasureOpen
  refine Does.tryCatch (X := fun _ _ => True) ?_ fun e db' _ => ?_
  · exact openFromPayload_moves.bind fun _ _ _ => does_ret.mpr trivial
  · split
    · exact does_ret.mpr trivial
    · exact does_raise.mpr trivial

theorem postErasure_moves {user : UserId} {authorized : String → String → Bool}
    {post : ErasurePost} :
    Moves env (fun _ _ => True) (fun _ _ => True) (postErasure env user authorized post) db := by
  unfold postErasure
  dsimp only
  split
  · exact does_ret.mpr trivial
  · split
    · exact does_ret.mpr trivial
    · refine Does.tryCatch (X := fun _ _ => True) ?_ fun e db' _ => ?_
      · exact requestErasure_any.bind fun _ _ _ => does_ret.mpr trivial
      · split
        · exact does_ret.mpr trivial
        · exact does_raise.mpr trivial

theorem requeueAfterRestore_moves {restoredFrom : Time} {dryRun : Bool} :
    Moves env (fun _ _ => True) (fun _ _ => True)
      (requeueAfterRestore env restoredFrom dryRun) db := by
  refine does_bind.mpr (moves_select.mpr ⟨?_, fun _ => trivial⟩)
  split
  · exact does_ret.mpr trivial
  · refine Does.foldlM (J := fun _ _ _ => True) (fun source _ totals db' _ => ?_) trivial
    unfold requeue
    refine Does.tryCatch (X := fun _ _ => True) ?_ fun e db'' _ => ?_
    · exact requestErasure_any.bind fun _ _ _ => does_ret.mpr trivial
    · split
      · exact does_ret.mpr trivial
      · exact does_ret.mpr trivial
      · exact does_raise.mpr trivial

theorem expireClosure_moves {closure : Stored AccountClosureRequest}
    (hc : ∃ c, db.closures.get? closure.pk = some c) :
    Moves env (fun _ _ => True) (fun _ _ => True) (expireClosure env closure) db :=
  Does.tryCatch (executeDeletion_moves hc) fun _ _ _ => does_ret.mpr trivial

/-- A closure row is never removed. -/
theorem Move.closure_kept {op : Op} (h : Move env op db db') {pk : Nat}
    (hc : ∃ c, db.closures.get? pk = some c) : ∃ c, db'.closures.get? pk = some c := by
  obtain ⟨c, hc⟩ := hc
  obtain ⟨c', hc', -⟩ := h.closures.kept hc
  exact ⟨c', hc'⟩

theorem processExpiredGracePeriods_moves :
    Moves env (fun _ _ => True) (fun _ _ => True) (processExpiredGracePeriods env) db := by
  refine does_bind.mpr (moves_select.mpr ⟨?_, fun _ => trivial⟩)
  let present : Db → Prop := fun db' => ∀ closure ∈ db.expiredGrace env.now,
    ∃ c, db'.closures.get? closure.pk = some c
  refine (Does.forM (J := fun rest db' => present db' ∧ ∀ closure ∈ rest,
    closure ∈ db.expiredGrace env.now) (E := fun _ _ => True)
    (fun closure rest db' ⟨hp, hrest⟩ => ?_) ⟨fun closure hmem => ?_, fun _ h => h⟩).post
    (fun _ _ _ => trivial) fun _ _ h => h
  · refine ((expireClosure_moves (hp closure (hrest closure List.mem_cons_self))).inv (I := present)
      (fun op a b hm ha cl hcl => hm.closure_kept (ha cl hcl)) hp).imp (fun _ _ _ h => h.1)
      (fun _ _ h => ⟨h.2, fun cl hcl => hrest cl (List.mem_cons_of_mem closure hcl)⟩)
      fun _ _ _ => trivial
  · exact ⟨closure.row, (Table.mem_select.mp hmem).1⟩

theorem handleSectionErased_moves {event : SectionErased} :
    Moves env (fun _ _ => True) (fun _ _ => True) (handleSectionErased env event) db := by
  unfold handleSectionErased
  split
  · exact does_ret.mpr trivial
  · split
    · exact does_ret.mpr trivial
    · exact markSectionErased_moves

/-- Every statement of every call is a `Move`. -/
theorem Call.refines {call : Call} (h : call.Loaded db) :
    Moves env (fun _ _ => True) (fun _ _ => True) (call.prog env) db := by
  unfold Call.prog
  cases call with
  | initiateClosure => exact discard_moves initiateClosure_moves
  | cancelClosure => exact discard_moves cancelClosure_moves
  | executeDeletion => exact executeDeletion_moves h
  | processExpiredGracePeriods => exact processExpiredGracePeriods_moves
  | requestErasure => exact discard_moves requestErasure_moves
  | erasureRequest => exact discard_moves erasureRequest_moves
  | erasureOpen => exact handleErasureOpen_moves
  | postErasure => exact discard_moves postErasure_moves
  | requeueAfterRestore => exact discard_moves requeueAfterRestore_moves
  | markSectionErased => exact markSectionErased_moves
  | sectionErased => exact handleSectionErased_moves
  | sweepDeletionDeadlines => exact discard_moves sweepDeletionDeadlines_moves
  | recordObligations request providers =>
      obtain ⟨r, hr⟩ := h
      have hmoves : Moves env (fun _ db' => _ ∧ _) (fun _ db' => _ ∧ _)
          (recordSubprocessorObligations env request providers) db :=
        recordSubprocessorObligations_moves hr ⟨rfl, rfl⟩
      exact discard_moves hmoves

/-! ### Runs of calls -/

/-- `db'` is reached from `db` by (a prefix of) one call under `env`. -/
def CallStep (env : Env) (call : Call) (db db' : Db) : Prop :=
  call.Loaded db ∧ ∃ tr p, Runs (fun _ => True) (call.prog env) db tr p db'

/-- One stage of a run: a call, or the host at work on its own tables. -/
inductive Stage : Db → Db → Prop
  | call {env : Env} {call : Call} {db db' : Db} (h : CallStep env call db db') : Stage db db'
  | host {db : Db} (users : List User) (holds : Table LegalHold)
      (hashes : List ReRegistrationHash) :
      Stage db { db with users := users, holds := holds, hashes := hashes }

/-- `t` comes later than `s` in some run. -/
def Onward : Db → Db → Prop := Relation.ReflTransGen Stage

/-- The states of the runs that start from an empty store. -/
def Reachable (db : Db) : Prop := Onward {} db

/-- A chain of moves under one environment. -/
abbrev Moved (env : Env) : Db → Db → Prop :=
  Relation.ReflTransGen fun a b => ∃ op, Move env op a b

theorem CallStep.moved {call : Call} (h : CallStep env call db db') : Moved env db db' := by
  obtain ⟨hloaded, tr, p, hrun⟩ := h
  exact (Call.refines hloaded).chain hrun fun op a b hm => ⟨op, hm⟩

theorem Moved.induct {P : Db → Prop} (h : Moved env db db')
    (hmove : ∀ op a b, Move env op a b → P a → P b) (hs : P db) : P db' := by
  induction h with
  | refl => exact hs
  | tail _ hstep ih =>
      obtain ⟨op, hm⟩ := hstep
      exact hmove op _ _ hm ih

/-- What every step preserves and the host cannot touch holds along every run. -/
theorem Onward.induct {P : Db → Prop} (h : Onward db db')
    (hmove : ∀ env op a b, Move env op a b → P a → P b)
    (hhost : ∀ a users holds hashes, P a →
      P { a with users := users, holds := holds, hashes := hashes }) (hs : P db) : P db' := by
  induction h with
  | refl => exact hs
  | tail _ hstage ih =>
      cases hstage with
      | call hcall => exact hcall.moved.induct (hmove _) ih
      | host users holds hashes => exact hhost _ users holds hashes ih

theorem Reachable.onward {s t : Db} (hs : Reachable s) (h : Onward s t) : Reachable t :=
  hs.trans h

/-! ### Runs that can be computed -/

/-- The store after a call in which nothing fails. -/
def Call.after (call : Call) (env : Env) (db : Db) : Db := ((call.prog env).run db).2

theorem Onward.run {s t : Db} (h : Onward s t) (call : Call) (env : Env) (hl : call.Loaded t) :
    Onward s (call.after env t) := by
  obtain ⟨tr, hrun⟩ := runs_run (fun _ => True) (call.prog env) t
  exact h.tail (.call ⟨hl, tr, _, hrun⟩)

/-- The store after a call whose `n`-th statement (from 0) raises. -/
def Call.afterFault (call : Call) (env : Env) (n : Nat) (db : Db) : Db :=
  ((call.prog env).runFault n .failure db).2

theorem Onward.runFault {s t : Db} (h : Onward s t) (call : Call) (env : Env) (n : Nat)
    (hl : call.Loaded t) : Onward s (call.afterFault env n t) := by
  obtain ⟨tr, hrun⟩ := runs_runFault n .failure (call.prog env) t
  exact h.tail (.call ⟨hl, tr, _, hrun⟩)

/-- A store with these users and nothing else. -/
def storeOf (users : List User) : Db := { users := users }

theorem reachable_storeOf (users : List User) : Reachable (storeOf users) :=
  .single (.host users {} [])

/-- A deployment with one provider in process, one remote owner and one processor. -/
def deployment : Env where
  settings := {
    dataOwners := .list [.bare "auth", .bare "media"]
    subprocessors := [.dict (some "mailer") (.int 30)] }
  sections := ["auth"]

/-- The same deployment, `n` days on. -/
def deploymentOn (n : Int) : Env := { deployment with now := days n }

/-- One remote owner, which holds documents and nothing else. -/
def documents : Env where
  settings := { dataOwners := .map [("media", .subjects (some (.one "document")))] }

/-- The account of the first deployment. -/
def account : User where
  id := "u1"
  attrs := [("email", "u1@example.org")]

/-- The account asked for its closure on day 0. -/
def closing : Db := (Call.initiateClosure "u1" .manual).after deployment (storeOf [account])

/-- The closure of the account, when its grace has ended. -/
def closed : Stored AccountClosureRequest :=
  ⟨0, (closing.closures.get? 0).get (by decide +kernel)⟩

/-- The grace worker ran on day 30. -/
def erasing : Db := Call.processExpiredGracePeriods.after (deploymentOn 30) closing

/-- The remote owner confirmed the same day. -/
def erased : Db := (Call.markSectionErased 0 "media" "job-7" []).after (deploymentOn 30) erasing

theorem reachable_closing : Reachable closing :=
  (reachable_storeOf _).run (.initiateClosure _ _) _ trivial

theorem reachable_erasing : Reachable erasing :=
  reachable_closing.run .processExpiredGracePeriods _ trivial

theorem reachable_erased : Reachable erased :=
  reachable_erasing.run (.markSectionErased _ _ _ _) _ trivial

end StapelGdpr
