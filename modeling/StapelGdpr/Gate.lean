import StapelGdpr.CloseEndpoints
import StapelGdpr.Watching

/-!
# StapelGdpr.Gate

The gate in front of every endpoint (`guards.py`): the permission of the views for erasures and
closures, and the middleware for all the others. It reads the closures and nothing else, so it
stays shut once the deletion of an account has started (`erasing_account_refused`): no token, no
write of `is_active` and no later call opens it again.
-/

namespace StapelGdpr

open Prog

variable {env : Env} {op : Op} {a b s t : Db} {userId : UserId} {wire : Wire}

/-- What the middleware does with a request. -/
inductive Gated (β : Type)
  | denied
  | passed (response : β)
  deriving DecidableEq, Repr

/-- `AccountClosureGuardMiddleware.__call__`. -/
def accountClosureGuard {β : Type} (l : Ledger) (user : Option Caller) (response : β) : Gated β :=
  match user with
  | none => .passed response
  | some caller => if l.isAccessDenied caller.pk then .denied else .passed response

/-- A deletion that has started is not called off. -/
theorem ClosureStep.erasing {c c' : AccountClosureRequest} (h : ClosureStep c c')
    (hc : c.status = .deleting ∨ c.status = .deleted) :
    c'.status = .deleting ∨ c'.status = .deleted := by
  cases h with
  | same => exact hc
  | cancelled hgrace => rcases hc with h | h <;> rw [hgrace] at h <;> cases h
  | started => exact .inl rfl
  | identityErased => exact hc
  | localDone => exact hc
  | deleted => exact .inr rfl

theorem Move.accessDenied (h : Move env op a b) (hs : a.isAccessDenied userId = true) :
    b.isAccessDenied userId = true := by
  obtain ⟨pk, c, hc, huser, hstatus⟩ := isAccessDenied_iff.mp hs
  obtain ⟨c', hc', hstep⟩ := h.closures.kept hc
  exact isAccessDenied_iff.mpr ⟨pk, c', hc', hstep.fixed.1.trans huser, hstep.erasing hstatus⟩

theorem Onward.accessDenied (h : Onward s t) (hs : s.isAccessDenied userId = true) :
    t.isAccessDenied userId = true :=
  h.induct (P := fun db => db.isAccessDenied userId = true) (fun _ _ _ _ hm hd => hm.accessDenied hd)
    (fun _ _ _ _ hd => hd) hs

/-- **The gate stays shut.** Once the deletion of an account has started, then after any further
calls, whichever of their statements fail and wherever they die, and whatever the host writes to
its users, `is_active` included: the middleware denies every request of its sessions, and the
endpoints for erasures and for the closing of the account refuse them and change nothing. They
are not shown the erasure of their own account either, not even its opener, and open no other;
they cannot close it again or cancel. -/
theorem erasing_account_refused {caller : Caller} (h : Onward s t)
    (hs : s.isAccessDenied caller.pk = true) :
    (∀ (β : Type) (response : β), accountClosureGuard t.toLedger (some caller) response = .denied) ∧
    (∀ authorizer post, (erasureRequestView env authorizer (some caller) post).run t =
      (.ok .accountClosed, t)) ∧
    (∀ authorizer pk, erasureStatus authorizer (some caller) t.toLedger pk = .accountClosed) ∧
    myErasures (some caller) t.toLedger = .accountClosed ∧
    (∀ retryAfter, (postClose env wire retryAfter (some caller.pk)).run t =
      (.ok .accountClosed, t)) ∧
    (postCancelClose env wire { user := some caller.pk }).run t = (.ok .accountClosed, t) ∧
    (getCloseStatus env wire { user := some caller.pk }).run t =
      (.ok (.error .accountClosed), t) := by
  have hdenied : t.isAccessDenied caller.pk = true := h.accessDenied hs
  have hguarded : ∀ {β : Type} {view : ReadAnswer β},
      guarded t.toLedger (some caller) view = .accountClosed := by
    intro β view
    simp [guarded, accountNotClosed, hdenied]
  have hsubject : (closureSubject (some caller.pk)).run t = (.ok (.error .accountClosed), t) := by
    rw [closureSubject_run]
    dsimp only
    rw [if_pos hdenied]
  refine ⟨fun _ _ => if_pos hdenied, fun authorizer post => ?_, fun _ _ => hguarded, hguarded,
    fun retryAfter => ?_, ?_, ?_⟩
  · have hgate : accountNotClosed t.toLedger (some caller) = false := by
      simp [accountNotClosed, hdenied]
    unfold erasureRequestView
    dsimp only
    rw [select_run, hgate]
    rfl
  · unfold postClose
    dsimp only
    rw [select_run, hdenied]
    rfl
  · show (closureSubject (some caller.pk) >>= _).run t = _
    rw [run_bind, hsubject]
    rfl
  · show (closureSubject (some caller.pk) >>= _).run t = _
    rw [run_bind, hsubject]
    rfl

/-- The account of the sample after the worker and a sweep, with its row active again. -/
theorem erasing_account_refused_erasing :
    accountClosureGuard
      { Call.sweepDeletionDeadlines.after (deploymentOn 31) erasing with users := [account] }.toLedger
      (some { pk := "u1" }) () = .denied := by
  have honward : Onward erasing
      { Call.sweepDeletionDeadlines.after (deploymentOn 31) erasing with users := [account] } :=
    (Onward.run .refl .sweepDeletionDeadlines (deploymentOn 31) trivial).tail
      (.host [account] _ _)
  have hdenied : erasing.isAccessDenied (Caller.mk "u1" false).pk = true := by decide +kernel
  exact (@erasing_account_refused deployment erasing _ unary _ honward hdenied).1 Unit ()

end StapelGdpr
