import StapelGdpr.Jobs

/-!
# StapelGdpr.Concurrent

The states the component can be in at all: any jobs side by side, each under its own settings,
providers and clock, interleaved statement by statement, any statement failing and any job
dying; between two such storms the host writes its users and staff place and release holds.

`Concurrently.induct` is the induction of every result about them: what each `Act` preserves
holds at every moment. Here it is used for the certificate: what DELETED without a waiver
promises, it keeps beside any others.
-/

namespace StapelGdpr

open Prog

variable {env : Env} {op : Op} {db db' s t u : Db} {pk : Nat}

/-! ### Storms of jobs -/

/-- The jobs side by side, each under its own environment. -/
def concurrently {κ : Type} (jobs : κ → Env × Job) : Pool Op Db Error Unit κ :=
  fun k => (jobs k).2.prog (jobs k).1

section Pool

variable {κ : Type} [DecidableEq κ] {jobs : κ → Env × Job} {start : Db}
  {tr : List (Pool.Event κ Op Db)} {P : Pool Op Db Error Unit κ}

/-- Every event of a run is an act of its thread. -/
theorem concurrently_act (hread : ∀ k, (jobs k).2.Read start)
    (hrun : Pool.Runs (fun _ _ => True) (concurrently jobs) start tr P db) :
    ∀ e ∈ tr, Act (jobs e.thread).1 e.label e.before e.after := by
  have hsafe : Pool.Safe (fun _ => Persists) (fun _ _ => True)
      (fun k op a b _ => Act (jobs k).1 op a b) (fun _ _ _ => True) (fun _ _ _ => True)
      (concurrently jobs) start := fun k => Job.amid (hread k)
  obtain ⟨-, hall⟩ := hrun.safe (fun _ => Persists.refl) (fun _ _ _ _ => Persists.trans)
    (H := fun _ => True) (fun _ _ hact _ _ _ => hact.persists) hsafe fun _ _ => trivial
  intro e he
  obtain ⟨-, h⟩ := hall e he
  exact h

end Pool

/-- One stage: jobs side by side, or the host at work on its own tables. -/
inductive Storm : Db → Db → Prop
  | jobs {κ : Type} [DecidableEq κ] {jobs : κ → Env × Job} {db db' : Db}
      {tr : List (Pool.Event κ Op Db)} {P : Pool Op Db Error Unit κ}
      (hread : ∀ k, (jobs k).2.Read db)
      (hrun : Pool.Runs (fun _ _ => True) (concurrently jobs) db tr P db') : Storm db db'
  | host {db : Db} (users : List User) (holds : Table LegalHold)
      (hashes : List ReRegistrationHash) :
      Storm db { db with users := users, holds := holds, hashes := hashes }

/-- `t` comes later than `s`. -/
def Concurrently : Db → Db → Prop := Relation.ReflTransGen Storm

/-- The states of the histories that start from an empty store. -/
def Concurrent (db : Db) : Prop := Concurrently {} db

/-- What every act preserves and the host cannot touch holds along every history. -/
theorem Concurrently.induct {I : Db → Prop} (h : Concurrently s t)
    (hact : ∀ env op a b, Act env op a b → I a → I b)
    (hhost : ∀ a users holds hashes, I a →
      I { a with users := users, holds := holds, hashes := hashes }) (hs : I s) : I t := by
  induction h with
  | refl => exact hs
  | tail _ hstage ih =>
      cases hstage with
      | jobs hread hrun =>
          exact (hrun.chain (fun e he ha => hact _ _ _ _ (concurrently_act hread hrun e he) ha) ih).1
      | host users holds hashes => exact hhost _ users holds hashes ih

/-- Every moment of a storm is one of these states. -/
theorem Concurrent.moments {κ : Type} [DecidableEq κ] {jobs : κ → Env × Job}
    {tr : List (Pool.Event κ Op Db)} {P : Pool Op Db Error Unit κ} (hs : Concurrent s)
    (hread : ∀ k, (jobs k).2.Read s)
    (hrun : Pool.Runs (fun _ _ => True) (concurrently jobs) s tr P t) :
    ∀ e ∈ tr, Concurrent e.before ∧ Concurrent e.after := by
  intro e he
  obtain ⟨pre, post, rfl⟩ := List.append_of_mem he
  rw [List.append_cons] at hrun
  obtain ⟨P₂, s₂, hupto, -⟩ := hrun.split
  obtain ⟨P₁, s₁, hpre, hlast⟩ := hupto.split
  obtain ⟨rfl, P₃, hnil⟩ := hlast.head
  obtain ⟨rfl, rfl⟩ : P₂ = P₃ ∧ s₂ = e.after := by
    cases hnil
    exact ⟨rfl, rfl⟩
  exact ⟨hs.tail (.jobs hread hpre), hs.tail (.jobs hread hupto)⟩

theorem Concurrent.onward (hs : Concurrent s) (h : Concurrently s t) : Concurrent t :=
  Relation.ReflTransGen.trans hs h

/-- Nothing that persists is undone by anybody. -/
theorem Concurrently.persists (h : Concurrently s t) : Persists s t :=
  h.induct (I := Persists s) (fun _ _ _ _ hact hp => hp.trans hact.persists)
    (fun _ users holds hashes hp => hp.trans (.host users holds hashes)) (.refl s)

/-! ### The books, beside others -/

/-- A part has its receipt exactly when it is DONE, and it is never FAILED. -/
structure ErasurePart.Receipted (p : ErasurePart) : Prop where
  unfailed : p.state ≠ .failed
  receipt : p.state = .done ↔ p.receiptAt.isSome = true
  receiptId : p.state = .done ↔ p.receiptId ≠ ""

/-- Every part is receipted or waiting, and every certificate is backed by the rows it speaks
about. -/
structure Backed (l : Ledger) : Prop where
  parts : ∀ i p, l.parts.get? i = some p → p.Receipted
  certified : ∀ pk r, l.requests.get? pk = some r → r.state = .deleted →
    r.completenessWaived = false →
      r.completedAt.isSome = true ∧ AllDone l pk ∧ ClosureErased l r

theorem backed_empty : Backed {} where
  parts i p h := absurd h (by simp [Table.get?])
  certified pk r h := absurd h (by simp [Table.get?])

theorem PartAct.receipted_step {p p' : ErasurePart} (h : PartAct p p') (hp : p.Receipted) :
    p'.Receipted := by
  cases h with
  | same => exact hp
  | receipted hdone hid hat hkept =>
      exact ⟨by simp [hdone], by simp [hdone, hat], by simp [hdone, hid]⟩
  | timedOut hpending =>
      have hat : ¬ p.receiptAt.isSome = true := fun h => by simpa [hpending] using hp.receipt.mpr h
      have hid : ¬ p.receiptId ≠ "" := fun h => by simpa [hpending] using hp.receiptId.mpr h
      exact ⟨by simp [ErasurePart.timeOut], by simpa [ErasurePart.timeOut] using hat,
        by simpa [ErasurePart.timeOut] using hid⟩

/-- One act of any job keeps the books. -/
theorem Backed.step (hs : Backed db.toLedger) (h : Act env op db db') : Backed db'.toLedger where
  parts i p' hp' := by
    rcases h.parts.row hp' with ⟨p, hp, hact⟩ | ⟨-, o, rfl⟩
    · exact hact.receipted_step (hs.parts i p hp)
    · exact ⟨by simp [DataOwner.part], by simp [DataOwner.part], by simp [DataOwner.part]⟩
  certified pk r' hr' hdel hw := by
    have hp := h.persists
    rcases h.requests.row hr' with ⟨r, hr, hact⟩ | ⟨-, hnew⟩
    · cases hact with
      | same =>
          obtain ⟨hat, hall, hcl⟩ := hs.certified pk r' hr hdel hw
          exact ⟨hat, hp.allDone hr hall, hp.closureErased rfl hcl⟩
      | certified hclosure hcomplete =>
          obtain ⟨-, -, hreceipts⟩ := hcomplete hw
          exact ⟨rfl, hp.allDone hr (Ledger.unreceiptedOwners_eq_nil.mp hreceipts),
            hp.closureErased rfl hclosure⟩
      | timedOut => exact absurd hdel (by simp [ErasureRequest.timeOut])
    · obtain ⟨args, st, sk, by', id, rfl⟩ := hnew.row
      exact absurd hdel (by simp [ErasureArgs.row])

theorem Concurrent.backed (h : Concurrent s) : Backed s.toLedger :=
  h.induct (I := fun db => Backed db.toLedger) (fun _ _ _ _ hact hb => hb.step hact)
    (fun _ _ _ _ hb => hb) backed_empty

/-! ### Histories that can be computed -/

theorem Concurrent.schedule {κ : Type} [DecidableEq κ] {jobs : κ → Env × Job} (hs : Concurrent s)
    (hread : ∀ k, (jobs k).2.Read s) (turns : List κ) :
    Concurrent (Pool.schedule turns (concurrently jobs) s).2.2 :=
  hs.tail (.jobs hread (Pool.runs_schedule _ _ _ _))

/-- A job left alone is a storm of one. -/
theorem Storm.run (job : Job) (env : Env) (hread : job.Read s) :
    Storm s ((job.prog env).run s).2 := by
  obtain ⟨ls, hrun⟩ := runs_run (fun _ => True) (job.prog env) s
  obtain ⟨tr, hpool⟩ := Pool.Runs.alone hrun
  have hall : ∀ k : Unit, ((fun _ => (env, job)) k).2.Read s := fun _ => hread
  exact .jobs hall hpool

theorem Concurrent.run (hs : Concurrent s) (job : Job) (env : Env) (hread : job.Read s) :
    Concurrent ((job.prog env).run s).2 :=
  hs.tail (.run job env hread)

theorem concurrent_storeOf (users : List User) : Concurrent (storeOf users) :=
  .single (.host users {} [])

theorem concurrent_closing : Concurrent closing :=
  (concurrent_storeOf [account]).run (.call (.initiateClosure "u1" .manual)) deployment trivial

/-- The grace worker, and the receipt of the remote owner. -/
def erasers (worker : Bool) : Env × Job :=
  bif worker then (deploymentOn 30, .call .processExpiredGracePeriods)
  else (deploymentOn 30, .call (.markSectionErased 0 "media" "job-7" []))

/-- The receipt lands before the worker has touched the local data, and the worker certifies. -/
def stormed : Db :=
  (Pool.schedule (List.replicate 7 true ++ List.replicate 4 false ++ List.replicate 15 true)
    (concurrently erasers) closing).2.2

theorem concurrent_stormed : Concurrent stormed :=
  concurrent_closing.schedule (fun k => by cases k <;> trivial) _

/-! ### What a certificate is worth beside others -/

/-- What stays of a certificate, whatever happens to the row that carries it. -/
structure Evidence (l : Ledger) (pk : Nat) (r : ErasureRequest) : Prop where
  completed : r.completedAt.isSome = true
  receipts : ∀ i p, l.parts.get? i = some p → p.request = pk →
    p.state = .done ∧ p.receiptId ≠ "" ∧ p.receiptAt.isSome = true
  closure : ClosureErased l r

theorem Backed.receipts {l : Ledger} (h : Backed l) (hall : AllDone l pk) :
    ∀ i p, l.parts.get? i = some p → p.request = pk →
      p.state = .done ∧ p.receiptId ≠ "" ∧ p.receiptAt.isSome = true := by
  intro i p hp hreq
  have hdone := hall i p hp hreq
  exact ⟨hdone, (h.parts i p hp).receiptId.mp hdone, (h.parts i p hp).receipt.mp hdone⟩

theorem Backed.certificate {l : Ledger} (h : Backed l) {r : ErasureRequest}
    (hr : l.requests.get? pk = some r) (hdel : r.state = .deleted)
    (hw : r.completenessWaived = false) : Certified l pk r := by
  obtain ⟨hat, hall, hcl⟩ := h.certified pk r hr hdel hw
  refine ⟨hat, h.receipts hall, hcl, ?_⟩
  simp [Ledger.outcome, hdel, hw, Ledger.unreceiptedOwners_eq_nil.mpr hall]

/-- **Certificates beside others.** However jobs interleave, fail and die, a DELETED request
whose completeness was not waived is certified, and the evidence is there for ever: no later
storm takes back a receipt, the erasure of the closure or the moment of completion, not even one
that writes over the state of the request. -/
theorem certificate_beside_others (hs : Concurrent s) (ht : Concurrently s t) {r : ErasureRequest}
    (hr : s.requests.get? pk = some r) (hdel : r.state = .deleted)
    (hw : r.completenessWaived = false) :
    Certified s.toLedger pk r ∧
      ∃ r', t.requests.get? pk = some r' ∧ RequestPersists r r' ∧ Evidence t.toLedger pk r' := by
  obtain ⟨hat, hall, hcl⟩ := hs.backed.certified pk r hr hdel hw
  have hp := ht.persists
  obtain ⟨r', hr', hkept⟩ := hp.requests.kept hr
  exact ⟨hs.backed.certificate hr hdel hw, r', hr', hkept, hkept.completedAt hat,
    (hs.onward ht).backed.receipts (hp.allDone hr hall), hp.closureErased hkept.closure hcl⟩

theorem certificate_beside_others_stormed : ∃ r, stormed.requests.get? 0 = some r ∧
    Certified stormed.toLedger 0 r := by
  have hstate : (stormed.requests.get? 0).map (fun r => (r.state, r.completenessWaived)) =
      some (.deleted, false) := by decide +kernel
  obtain ⟨r, hr, hrow⟩ := Option.map_eq_some_iff.mp hstate
  obtain ⟨hdel, hw⟩ := Prod.mk.inj hrow
  exact ⟨r, hr, (certificate_beside_others concurrent_stormed .refl hr hdel hw).1⟩

/-! ### What a report says beside others -/

/-- Nothing but a receipt is missing from a part that is not DONE. -/
theorem Backed.unanswered {l : Ledger} (h : Backed l) (request : Nat) :
    l.unansweredOwners request = l.unreceiptedOwners request := by
  have hsame : ∀ o ∈ l.parts.entries, (o.row.request = request &&
      (o.row.state = .pending || o.row.state = .timeout) && o.row.receiptAt = none : Bool) =
        (o.row.request = request && o.row.state ≠ .done : Bool) := by
    intro o ho
    have hpart := h.parts o.pk o.row (Table.mem_entries.mp ho)
    have hat : o.row.receiptAt = none ↔ o.row.state ≠ .done := by
      rw [← Option.not_isSome_iff_eq_none, ← hpart.receipt]
    have hfailed := hpart.unfailed
    cases hstate : o.row.state <;> simp_all
  unfold Ledger.unansweredOwners Ledger.unreceiptedOwners Ledger.openParts Table.select
  rw [List.filter_congr hsame]

/-- **The report is exact beside others.** At every moment a request reports itself complete
exactly when it is DELETED without a waiver, incomplete exactly when it is DELETED under one or
has timed out, and the owners it is waiting for are those that have not answered: no part is
FAILED, and none has a receipt without being DONE. -/
theorem report_exact (hs : Concurrent s) {r : ErasureRequest} (hr : s.requests.get? pk = some r) :
    (s.outcome ⟨pk, r⟩ = .complete ↔ r.state = .deleted ∧ r.completenessWaived = false) ∧
      (s.outcome ⟨pk, r⟩ = .incomplete ↔
        r.state = .timeout ∨ r.state = .deleted ∧ r.completenessWaived = true) ∧
      s.unansweredOwners pk = s.unreceiptedOwners pk ∧
      ∀ i p, s.parts.get? i = some p → p.Receipted := by
  have hnone : r.state = .deleted → r.completenessWaived = false → s.unreceiptedOwners pk = [] :=
    fun hdel hw => Ledger.unreceiptedOwners_eq_nil.mpr (hs.backed.certified pk r hr hdel hw).2.1
  refine ⟨?_, ?_, hs.backed.unanswered pk, hs.backed.parts⟩
  · unfold Ledger.outcome
    cases hstate : r.state <;> cases hw : r.completenessWaived <;> simp_all
  · unfold Ledger.outcome
    cases hstate : r.state <;> cases hw : r.completenessWaived <;> simp_all

theorem report_exact_stormed : ∃ r, stormed.requests.get? 0 = some r ∧
    (stormed.outcome ⟨0, r⟩ = .complete ↔
      r.state = .deleted ∧ r.completenessWaived = false) := by
  have hsome : (stormed.requests.get? 0).isSome = true := by decide +kernel
  obtain ⟨r, hr⟩ := Option.isSome_iff_exists.mp hsome
  exact ⟨r, hr, (report_exact concurrent_stormed hr).1⟩

end StapelGdpr
