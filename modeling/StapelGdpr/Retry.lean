import StapelGdpr.Statements

/-!
# StapelGdpr.Retry

Who retries an incomplete deletion. `execute_deletion` writes DELETING before anything that
can fail, and the grace worker selects GRACE: a closure one of its executions left half
done is out of its reach. `worker_leaves_deleting` says so for every store and every run of
the worker.
-/

namespace StapelGdpr

open Prog

variable {env : Env} {op : Op} {db db' : Db}

/-- The closure a statement writes on behalf of that closure's own caller. -/
def Op.worksOn : Op → Option Nat
  | .cancelUnit k | .startDeleting k | .identityErased k | .localDoneUnit k => some k
  | _ => none

/-- Certification writes closures that are ready for it; every other statement writes the
closure it works on. -/
theorem Move.closure_untouched (h : Move env op db db') {pk : Nat} {c : AccountClosureRequest}
    (hc : db.closures.get? pk = some c) (hready : c.erased = false)
    (hop : op.worksOn ≠ some pk) : db'.closures.get? pk = some c := by
  cases h with
  | elsewhere | localReceipt | receipted | partsTimedOut | certified | requestTimedOut => exact hc
  | obligation hr ho => obtain ⟨-, -, -, rfl⟩ := createObligation_ok ho; exact hc
  | erasureOpened ho =>
      obtain ⟨by', -, -, -, -, hdb⟩ := openErasure_ok ho
      rw [hdb]
      exact hc
  | closureOpened => exact Table.get?_insert_of_some _ hc
  | @closureCancelled _ k | @deletionStarted _ k | identityErased k | localDone k =>
      have hne : pk ≠ k := fun heq => hop (by rw [heq]; rfl)
      exact (Table.get?_modify_of_ne _ hne).trans hc
  | @closureDeleted _ k c' waived hc' herased =>
      have hne : pk ≠ k := by
        rintro rfl
        rw [hc] at hc'
        rw [Option.some.inj hc', herased] at hready
        exact absurd hready (by simp)
      exact (Table.get?_modify_of_ne _ hne).trans hc

/-- A statement of an execution of closure `k` works on `k` or on no closure. -/
theorem DeletionOp.worksOn {k : Nat} {userId : UserId} (h : DeletionOp k userId op) {pk : Nat}
    (hne : k ≠ pk) : op.worksOn ≠ some pk := by
  cases op <;> simp only [Op.worksOn, ne_eq, reduceCtorEq, not_false_eq_true, Option.some.injEq]
    at h ⊢ <;> first
      | exact (h.elim id id).elim
      | exact fun heq => hne (h.symm.trans heq)
      | exact fun heq => hne ((h.resolve_right id).symm.trans heq)

/-- A step that leaves closure `pk` to others. -/
def Elsewhere (env : Env) (pk : Nat) (op : Op) (a b : Db) : Prop :=
  Move env op a b ∧ op.worksOn ≠ some pk

/-- The worker leaves a closure it did not select to others. -/
theorem processExpiredGracePeriods_elsewhere {pk : Nat}
    (hpk : ∀ closure ∈ db.expiredGrace env.now, closure.pk ≠ pk) :
    Does (fun _ => True) (Elsewhere env pk) (fun _ _ => True) (fun _ _ => True)
      (processExpiredGracePeriods env) db :=
  processExpiredGracePeriods_does (P := fun op => op.worksOn ≠ some pk) (by simp [Op.worksOn])
    fun closure hmem _ hop => hop.worksOn (hpk closure hmem)

/-- **The worker never retries.** A closure left DELETING with its local erasure undone is
not in the worker's list; no run of the worker, whatever fails in it and wherever it stops,
starts an execution of it or changes its row. -/
theorem worker_leaves_deleting {s t : Db} {pk : Nat} {c : AccountClosureRequest}
    (hc : s.closures.get? pk = some c) (hst : c.status = .deleting)
    (hlocal : c.localErasureDone = false) (env : Env) {tr : List Op} {p : Program PUnit}
    (hrun : Runs (fun _ => True) (processExpiredGracePeriods env) s tr p t) :
    (∀ closure ∈ s.expiredGrace env.now, closure.pk ≠ pk) ∧ Op.startDeleting pk ∉ tr ∧
      t.closures.get? pk = some c := by
  have hlist : ∀ closure ∈ s.expiredGrace env.now, closure.pk ≠ pk := by
    rintro closure hmem rfl
    obtain ⟨hget, hsel⟩ := Table.mem_select.mp hmem
    rw [hc] at hget
    rw [← Option.some.inj hget, hst] at hsel
    exact absurd hsel (by simp)
  have hready : c.erased = false := by simp [AccountClosureRequest.erased, hlocal]
  have hdoes := processExpiredGracePeriods_elsewhere hlist
  refine ⟨hlist, fun hmem => ?_, ?_⟩
  · exact hdoes.labels hrun (P := fun op => op.worksOn ≠ some pk) (fun _ _ _ h => h.2) _ hmem rfl
  · have hchain := hdoes.chain hrun (N := fun a b => a.closures.get? pk = some c →
      b.closures.get? pk = some c) fun op a b h ha => h.1.closure_untouched ha hready h.2
    clear hrun
    induction hchain with
    | refl => exact hc
    | tail _ hstep ih => exact hstep ih

/-- The account's closure after an execution whose provider raised. -/
def providerFailed : Db := Call.processExpiredGracePeriods.afterFault (deploymentOn 30) 8 closing

theorem reachable_providerFailed : Reachable providerFailed :=
  reachable_closing.runFault .processExpiredGracePeriods _ _ trivial

theorem worker_leaves_deleting_providerFailed :
    ∃ c, providerFailed.closures.get? 0 = some c ∧
      (Call.processExpiredGracePeriods.after (deploymentOn 31) providerFailed).closures.get? 0 =
        some c := by
  have hrow : (providerFailed.closures.get? 0).map (fun c => (c.status, c.localErasureDone)) =
      some (.deleting, false) := by decide +kernel
  obtain ⟨c, hc, heq⟩ := Option.map_eq_some_iff.mp hrow
  obtain ⟨hst, hlocal⟩ := Prod.mk.inj heq
  obtain ⟨tr, hrun⟩ := runs_run (fun _ => True)
    (processExpiredGracePeriods (deploymentOn 31)) providerFailed
  exact ⟨c, hc, (worker_leaves_deleting hc hst hlocal (deploymentOn 31) hrun).2.2⟩

/-- The failure does not recur, the user is not held, the grace has passed: the next run of
the worker still leaves the erasure undone. -/
theorem worker_does_not_retry : ¬ ∀ (env : Env) (s : Db), Reachable s → ∀ pk c,
    s.closures.get? pk = some c → c.status = .deleting → c.localErasureDone = false →
      s.isHeld c.userId = false → c.graceEndsAt ≤ env.now →
        ((Call.processExpiredGracePeriods.after env s).closures.get? pk).map
          (·.localErasureDone) = some true := by
  intro hclaim
  have hrow : (providerFailed.closures.get? 0).map (fun c =>
      (c.status, c.localErasureDone, c.userId, c.graceEndsAt)) =
      some (.deleting, false, "u1", days 30) := by decide +kernel
  have hheld : providerFailed.isHeld "u1" = false := by decide +kernel
  obtain ⟨c, hc, heq⟩ := Option.map_eq_some_iff.mp hrow
  simp only [Prod.mk.injEq] at heq
  obtain ⟨hst, hlocal, huser, hgrace⟩ := heq
  have hafter := hclaim (deploymentOn 31) _ reachable_providerFailed 0 c hc hst hlocal
    (huser ▸ hheld) (hgrace ▸ (by decide : days 30 ≤ days 31))
  have hstill : ((Call.processExpiredGracePeriods.after (deploymentOn 31)
      providerFailed).closures.get? 0).map (·.localErasureDone) = some false := by decide +kernel
  rw [hstill] at hafter
  exact absurd hafter (by simp)

end StapelGdpr
