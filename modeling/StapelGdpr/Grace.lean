import StapelGdpr.Outbox

/-!
# StapelGdpr.Grace

What stands before any destruction. A provider is told to anonymize or delete, and the identity
is erased, only in a thread of the grace worker, and only for a user whose closure that thread
has itself found in GRACE, thirty days old and not held; by then the closure had been announced
and the sessions revoked (`warned_and_waited`). It holds of every destructive statement of every
storm, whatever runs beside the worker.
-/

namespace StapelGdpr

open Prog

variable {env : Env} {db db' s start : Db} {op : Op} {userId : UserId}

/-- The statement destroys data of the user. -/
def Destroys (userId : UserId) : Op → Prop
  | .anonymize _ u | .delete _ u | .eraseIdentity u => u = userId
  | _ => False

/-! ### Terms of grace -/

/-- Every closure was given thirty days. -/
def GraceTerm (l : Ledger) : Prop :=
  ∀ pk c, l.closures.get? pk = some c → c.graceEndsAt = c.initiatedAt + days 30

theorem GraceTerm.step (hs : GraceTerm db.toLedger) (h : Act env op db db') :
    GraceTerm db'.toLedger := by
  intro pk c' hc'
  rcases h.closures.row hc' with ⟨c, hc, hact⟩ | ⟨-, -, -, u, trigger, rfl⟩
  · have hkept := hact.persists
    rw [hkept.graceEndsAt, hkept.initiatedAt]
    exact hs pk c hc
  · rfl

theorem Concurrent.graceTerm (h : Concurrent s) : GraceTerm s.toLedger :=
  h.induct (I := fun db => GraceTerm db.toLedger) (fun _ _ _ _ hact hc => hc.step hact)
    (fun _ _ _ _ hc => hc) fun pk c hc => absurd hc (by simp [Table.get?])

/-! ### Who destroys -/

theorem destroys_of_deletionOp {pk : Nat} {u : UserId} (h : DeletionOp pk u op)
    (hd : Destroys userId op) : u = userId := by
  cases op with
  | anonymize | delete | eraseIdentity =>
      have hu := h.resolve_right id
      exact hu.symm.trans hd
  | _ => exact hd.elim

theorem Destroys.localWork (h : Destroys userId op) : LocalWork op := by
  cases op with
  | anonymize | delete | eraseIdentity => trivial
  | _ => exact h.elim

/-! ### What the worker has seen -/

/-- The store in which a thread of the worker found the closure it works on. -/
structure Due (now : Time) (userId : UserId) (seen : Db) (pk : Nat) (c : AccountClosureRequest) :
    Prop where
  found : seen.closures.get? pk = some c
  user : c.userId = userId
  grace : c.status = .grace
  waited : c.initiatedAt + days 30 ≤ now
  unheld : seen.isHeld userId = false
  revoked : ∃ reason, .sessionsRevoked userId reason ∈ seen.outbox
  announced : .deletionInitiated userId c.trigger (c.initiatedAt + days 30) ∈ seen.outbox

theorem mem_expiredGrace {now : Time} {o : Stored AccountClosureRequest} :
    o ∈ db.expiredGrace now ↔ db.closures.get? o.pk = some o.row ∧ o.row.status = .grace ∧
      o.row.graceEndsAt ≤ now ∧ db.isHeld o.row.userId = false := by
  simp [Db.expiredGrace, Table.mem_select, and_assoc]

/-- A closure of the worker's list is due. -/
theorem due_of_expired {now : Time} {o : Stored AccountClosureRequest} (hs : Concurrent s)
    (h : o ∈ s.expiredGrace now) : Due now o.row.userId s o.pk o.row := by
  obtain ⟨hget, hgrace, hends, hheld⟩ := mem_expiredGrace.mp h
  have hterm := hs.graceTerm o.pk o.row hget
  have hagrees := (outbox_agrees hs .refl).1
  have hrow := Table.mem_entries.mpr hget
  refine ⟨hget, rfl, hgrace, hterm ▸ hends, hheld, ?_, ?_⟩
  · have hmem : o.row.userId ∈ s.outbox.filterMap Action.revocation :=
      hagrees.revocations ▸ List.mem_map_of_mem hrow
    obtain ⟨a, ha, hsay⟩ := List.mem_filterMap.mp hmem
    cases a with
    | sessionsRevoked u reason =>
        obtain rfl := Option.some.inj hsay
        exact ⟨reason, ha⟩
    | _ => exact absurd hsay (by simp [Action.revocation])
  · have hmem : closingOf o ∈ s.outbox.filterMap Action.closing :=
      hagrees.closings ▸ List.mem_map_of_mem hrow
    obtain ⟨a, ha, hsay⟩ := List.mem_filterMap.mp hmem
    cases a with
    | deletionInitiated u trigger ends =>
        obtain ⟨rfl, rfl, rfl⟩ : u = o.row.userId ∧ trigger = o.row.trigger ∧
            ends = o.row.graceEndsAt := by
          simpa [Action.closing, closingOf] using hsay
        exact hterm ▸ ha
    | _ => exact absurd hsay (by simp [Action.closing])

section Pool

variable {κ : Type} [DecidableEq κ] {jobs : κ → Env × Job} {tr : List (Pool.Event κ Op Db)}
  {P : Pool Op Db Error Unit κ}

omit [DecidableEq κ] in
/-- The events of a thread of the worker: it looks once, and what it destroys is on its list. -/
theorem worker_looked {p' : Program Unit} {es : List (Pool.Event κ Op Db)}
    (h : Pool.Follows (fun _ => True) (processExpiredGracePeriods env) es p')
    {e : Pool.Event κ Op Db} (he : e ∈ es) (hd : Destroys userId e.label) :
    ∃ d rest, es = d :: rest ∧ d.label = .select ∧ e ∈ rest ∧
      ∃ o ∈ d.before.expiredGrace env.now, o.row.userId = userId := by
  rcases Pool.Follows.query_bind h with rfl | ⟨d, rest, rfl, hlabel, hrest⟩
  · exact absurd he List.not_mem_nil
  · have hmem : e ∈ rest := by
      rcases List.mem_cons.mp he with rfl | hmem
      · rw [hlabel] at hd
        exact hd.elim
      · exact hmem
    rcases hrest with rfl | hloop
    · exact absurd hmem List.not_mem_nil
    · have hlabels : Labels (fun op => Destroys userId op →
          ∃ o ∈ d.before.expiredGrace env.now, o.row.userId = userId)
          ((d.before.expiredGrace env.now).forM (expireClosure env)) :=
        Always.forM fun o ho => expireClosure_labels.mono fun op _ _ hop hd =>
          ⟨o, ho, destroys_of_deletionOp hop hd⟩
      exact ⟨d, rest, rfl, hlabel, hmem, hloop.always hlabels e hmem hd⟩

/-- **Nothing is destroyed before its time.** In every storm in which executions are the
worker's, every statement that destroys data of a user comes after one in which its own thread
found a closure of that user in GRACE, thirty days old, not held and announced. -/
theorem warned_and_waited (hs : Concurrent start) (hread : ∀ k, (jobs k).2.Read start)
    (hexec : ∀ k closure, (jobs k).2 ≠ .call (.executeDeletion closure))
    (hrun : Pool.Runs (fun _ _ => True) (concurrently jobs) start tr P db) :
    ∀ pre e post, tr = pre ++ e :: post → ∀ userId, Destroys userId e.label →
      ∃ d ∈ pre, d.thread = e.thread ∧ d.label = .select ∧
        ∃ pk c, Due (jobs e.thread).1.now userId d.before pk c := by
  rintro pre e post rfl userId hd
  rw [List.append_cons] at hrun
  obtain ⟨P₁, s₁, hupto, -⟩ := hrun.split
  have hfollows := hupto.follows e.thread
  rw [List.filter_append, List.filter_cons_of_pos (by simp), List.filter_nil] at hfollows
  have hworker : (jobs e.thread).2 = .call .processExpiredGracePeriods := by
    by_contra hno
    exact hfollows.always (Job.noLocalWork (hexec e.thread) hno) e (by simp) hd.localWork
  have hprog : concurrently jobs e.thread = processExpiredGracePeriods (jobs e.thread).1 := by
    rw [concurrently, hworker]
    rfl
  rw [hprog] at hfollows
  obtain ⟨d, rest, hes, hlabel, hrest, o, ho, rfl⟩ := worker_looked hfollows (by simp) hd
  -- the thread has looked before this statement, which is its last so far
  have hpre : d ∈ pre.filter (·.thread = e.thread) := by
    cases hfilter : pre.filter (·.thread = e.thread) with
    | nil =>
        rw [hfilter, List.nil_append] at hes
        obtain ⟨-, rfl⟩ := List.cons.inj hes
        exact absurd hrest List.not_mem_nil
    | cons d' rest' =>
        rw [hfilter, List.cons_append] at hes
        rw [(List.cons.inj hes).1]
        exact List.mem_cons_self
  obtain ⟨hmem, hthread⟩ := List.mem_filter.mp hpre
  have hmoment := hs.moments hread hupto d (List.mem_append_left _ hmem)
  exact ⟨d, hmem, by simpa using hthread, hlabel, o.pk, o.row, due_of_expired hmoment.1 ho⟩

end Pool

/-- The storm of the sample: the first provider is called after the worker has looked. -/
theorem warned_and_waited_stormed : ∃ pre e post,
    (Pool.schedule (List.replicate 7 true ++ List.replicate 4 false ++ List.replicate 15 true)
      (concurrently erasers) closing).1 = pre ++ e :: post ∧ e.label = .anonymize "auth" "u1" ∧
    ∃ d ∈ pre, d.thread = e.thread ∧ ∃ pk c, Due (days 30) "u1" d.before pk c := by
  have hrun := Pool.runs_schedule (fun _ _ => True)
    (List.replicate 7 true ++ List.replicate 4 false ++ List.replicate 15 true)
    (concurrently erasers) closing
  have hmem : ∃ e ∈ (Pool.schedule (List.replicate 7 true ++ List.replicate 4 false ++
      List.replicate 15 true) (concurrently erasers) closing).1,
      e.label = .anonymize "auth" "u1" ∧ e.thread = true := by decide +kernel
  obtain ⟨e, he, hlabel, hthread⟩ := hmem
  obtain ⟨pre, post, hcut⟩ := List.append_of_mem he
  obtain ⟨d, hd, hsame, -, pk, c, hdue⟩ := warned_and_waited concurrent_closing
    (fun k => by cases k <;> trivial) (fun k closure h => by cases k <;> cases h) hrun pre e post
    hcut "u1" (by rw [hlabel]; rfl)
  rw [hthread] at hdue
  exact ⟨pre, e, post, hcut, hlabel, d, hd, hsame, pk, c, hdue⟩

end StapelGdpr
