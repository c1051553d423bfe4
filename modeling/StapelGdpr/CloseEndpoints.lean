import StapelGdpr.Reactivation
import StapelGdpr.Statements
import StapelGdpr.TokenScope

/-!
# StapelGdpr.CloseEndpoints

The other two endpoints of a closure (`views.py`): the POST that opens one and hands back its
token, and the GET that polls it, with the same two credentials as the cancellation.

The poll says what the cancellation would do (`status_agrees_with_cancel`), and until the end of
the grace period nothing but a cancellation takes the account out of it, so the token the 202
handed out gives the account back (`grace_can_be_cancelled`).
-/

namespace StapelGdpr

open Prog

variable {env : Env} {op : Op} {a b db s s' : Db} {t : Time} {wire : Wire} {userId : UserId}

/-! ### The endpoints -/

/-- `ClosureStatusDTO`. -/
structure ClosureStatusDto where
  status : ClosureStatus
  graceEndsAt : Time
  canCancel : Bool
  closureToken : Option String
  deriving DecidableEq, Repr

/-- `_closure_dto`. -/
def closureDto (closure : AccountClosureRequest) (canCancel : Bool)
    (closureToken : Option String) : ClosureStatusDto where
  status := closure.status
  graceEndsAt := closure.graceEndsAt
  canCancel := canCancel
  closureToken := closureToken

/-- What `POST user/account/close` answers. -/
inductive CloseAnswer
  | unauthorized
  | accountClosed
  | throttled (retryAfter : Int)
  | accepted (body : ClosureStatusDto)
  | closureUnavailable
  | closurePending
  | legalHold
  | internalError
  deriving DecidableEq, Repr

/-- `AccountCloseView.post` behind its permissions, for a caller whose budget `spend` answered
with `retryAfter`. -/
def postClose (env : Env) (wire : Wire) (retryAfter : Int) (user : Option UserId) :
    Program CloseAnswer :=
  match user with
  | none => return .unauthorized
  | some userId => do
      let denied ← Program.select (·.isAccessDenied userId)
      if denied then return .accountClosed
      else if retryAfter ≠ 0 then return .throttled retryAfter
      else
        let body : Program CloseAnswer := do
          let closure ← initiateClosure env userId .manual
          return .accepted (closureDto closure.row true (some (makeClosureToken wire closure)))
        body.tryCatch fun e =>
          match e with
          | .sessionRevocationUnavailable => return .closureUnavailable
          | .valueError text =>
              return if text = "closure_already_pending" then .closurePending
                else if text = "legal_hold" then .legalHold
                else .internalError
          | e => Prog.raise e

/-- `order_by("-initiated_at")`. -/
def recentFirst (c c' : Stored AccountClosureRequest) : Prop :=
  c'.row.initiatedAt ≤ c.row.initiatedAt

instance : DecidableRel recentFirst := fun _ _ => inferInstanceAs (Decidable (_ ≤ _))

/-- The closure the session is shown: the latest that was not cancelled. -/
def Ledger.shownClosure (l : Ledger) (userId : UserId) : Option (Stored AccountClosureRequest) :=
  ((l.closures.select fun c => c.userId = userId && c.status ≠ .cancelled).insertionSort
    recentFirst).head?

/-- What the poll shows of a closure. -/
def shown (closure : AccountClosureRequest) : ClosureStatusDto :=
  closureDto closure (closure.status = .grace) none

/-- The poll of a session that was let in. -/
def sessionStatus (userId : UserId) : Program (Except CancelAnswer ClosureStatusDto) := do
  let closure ← Program.select (·.shownClosure userId)
  match closure with
  | none => return .error .noActiveClosure
  | some closure => return .ok (shown closure.row)

/-- `AccountCloseStatusView.get`; a refusal is one of those of the cancellation. -/
def getCloseStatus (env : Env) (wire : Wire) (get : CancelPost) :
    Program (Except CancelAnswer ClosureStatusDto) := do
  let presented ← closureFromToken env wire get.token
  match presented with
  | .error answer => return .error answer
  | .ok (some closure) => return .ok (shown closure.row)
  | .ok none => do
      let subject ← closureSubject get.user
      match subject with
      | .error answer => return .error answer
      | .ok userId => sessionStatus userId

/-! ### What both views do first -/

/-- The refusals of a credential. -/
def CancelAnswer.refuses : CancelAnswer → Bool
  | .ok _ | .noActiveClosure => false
  | _ => true

/-- What is known of a credential that was let through with a closure. -/
def Presented (l : Ledger) : Except CancelAnswer (Option (Stored AccountClosureRequest)) → Prop
  | .error answer => answer.refuses = true
  | .ok none => True
  | .ok (some closure) => l.closures.get? closure.pk = some closure.row ∧
      ∀ newest, (l.closuresOf closure.row.userId).head? = some newest → newest.pk = closure.pk

theorem namedClosure_reads (cid : Nat) (subject : UserId) :
    Ends (fun presented t => t = s ∧ Presented s.toLedger presented) (fun _ t => t = s)
      (namedClosure cid subject) s := by
  refine does_bind.mpr (does_query.mpr ⟨⟨trivial, ?_⟩, fun h => h.elim⟩)
  cases hfound : (s.closures.get? cid).filter fun c => c.userId = subject with
  | none => exact does_ret.mpr ⟨rfl, rfl⟩
  | some row =>
      obtain ⟨hrow, -⟩ := Option.filter_eq_some_iff.mp hfound
      refine does_bind.mpr (does_query.mpr ⟨⟨trivial, ?_⟩, fun h => h.elim⟩)
      split
      · exact does_ret.mpr ⟨rfl, rfl⟩
      · rename_i hnewest
        refine does_ret.mpr ⟨rfl, hrow, fun newest hn => ?_⟩
        rw [hn] at hnewest
        simpa using hnewest

theorem closureFromToken_reads (env : Env) (wire : Wire) (s : Db) (raw : String) :
    Ends (fun presented t => t = s ∧ Presented s.toLedger presented) (fun _ t => t = s)
      (closureFromToken env wire raw) s := by
  unfold closureFromToken
  split
  · exact does_ret.mpr ⟨rfl, trivial⟩
  · split
    · exact does_ret.mpr ⟨rfl, rfl⟩
    · exact does_ret.mpr ⟨rfl, rfl⟩
    · split
      · exact does_raise.mpr rfl
      · exact namedClosure_reads _ _

/-- A query in front of the rest. -/
theorem select_run {α β : Type} (g : Db → β) (k : β → Program α) :
    (Program.select g >>= k).run s = (k (g s)).run s := rfl

theorem closureSubject_run (user : Option UserId) : (closureSubject user).run s =
    (.ok (match user with
      | none => .error .unauthorized
      | some userId =>
          if s.isAccessDenied userId then .error .accountClosed else .ok userId), s) := by
  cases user with
  | none => rfl
  | some userId =>
      show (Program.select (·.isAccessDenied userId) >>= _).run s = _
      rw [select_run]
      dsimp only
      split <;> rfl

/-! ### The cancellation -/

/-- The closure `cancel_closure` finds. -/
def Ledger.graceClosure (l : Ledger) (userId : UserId) : Option (Stored AccountClosureRequest) :=
  l.closures.first? fun c => c.userId = userId && c.status = .grace

theorem answerCancel_none (h : s.graceClosure userId = none) :
    (answerCancel env userId).run s = (.ok .noActiveClosure, s) := by
  have hrun : (cancelClosure env userId).run s =
      (.error (.valueError "no_active_closure"), s) := by
    rw [cancelClosure, select_run]
    unfold Ledger.graceClosure at h
    rw [h]
    rfl
  unfold answerCancel
  dsimp only
  rw [run_tryCatch, run_bind, hrun]
  rfl

/-- The store a cancellation leaves. -/
def Db.cancelled (db : Db) (now : Time) (userId : UserId) (closure : Stored AccountClosureRequest) :
    Db :=
  (Db.setActive { db with closures := db.closures.modify closure.pk (·.cancel now) } userId
    true).2.emit [.deletionCancelled userId now closure.row.trigger]

theorem answerCancel_some {closure : Stored AccountClosureRequest}
    (h : s.graceClosure userId = some closure) : (answerCancel env userId).run s =
      (.ok (.ok ⟨closure.pk, closure.row.cancel env.now⟩), s.cancelled env.now userId closure) := by
  have hrun : (cancelClosure env userId).run s =
      (.ok ⟨closure.pk, closure.row.cancel env.now⟩, s.cancelled env.now userId closure) := by
    rw [cancelClosure, select_run]
    unfold Ledger.graceClosure at h
    rw [h]
    rfl
  unfold answerCancel
  dsimp only
  rw [run_tryCatch, run_bind, hrun]
  rfl

theorem graceClosure_some {closure : Stored AccountClosureRequest}
    (h : s.graceClosure userId = some closure) : s.closures.get? closure.pk = some closure.row ∧
      closure.row.userId = userId ∧ closure.row.status = .grace := by
  obtain ⟨hget, hsel⟩ := Table.first?_some h
  simp only [Bool.and_eq_true, decide_eq_true_eq] at hsel
  exact ⟨hget, hsel⟩

theorem graceClosure_none {c : AccountClosureRequest} {pk : Nat} (h : s.graceClosure userId = none)
    (hc : s.closures.get? pk = some c) (huser : c.userId = userId) : c.status ≠ .grace := by
  intro hgrace
  have hno := Table.first?_none.mp h pk c hc
  simp [huser, hgrace] at hno

/-! ### The poll and the cancellation -/

/-- The answers of the two endpoints to one credential. -/
inductive Agree : Except Error CancelAnswer → Except Error (Except CancelAnswer ClosureStatusDto) →
    Prop
  /-- The poll offers a cancellation, and it happens, to the closure shown. -/
  | cancels {closure : Stored AccountClosureRequest} {body : ClosureStatusDto}
      (hgrace : body.status = .grace) (hcan : body.canCancel = true)
      (hstatus : closure.row.status = .cancelled)
      (hends : closure.row.graceEndsAt = body.graceEndsAt) : Agree (.ok (.ok closure)) (.ok (.ok body))
  /-- It offers none, and there is none. -/
  | over {body : ClosureStatusDto} (hgrace : body.status ≠ .grace) (hcan : body.canCancel = false) :
      Agree (.ok .noActiveClosure) (.ok (.ok body))
  /-- Nothing to show or to cancel. -/
  | absent : Agree (.ok .noActiveClosure) (.ok (.error .noActiveClosure))
  /-- One refusal for both. -/
  | refused {answer : CancelAnswer} (hrefuses : answer.refuses = true) :
      Agree (.ok answer) (.ok (.error answer))
  | raised (e : Error) : Agree (.error e) (.error e)

/-- The closure of a credential that was let through: it is in grace exactly when there is one
to cancel, and then it is the one. -/
theorem Chronicle.presented (h : Chronicle t s.toLedger) (closure : Stored AccountClosureRequest)
    (hget : s.closures.get? closure.pk = some closure.row)
    (hnewest : ∀ newest, (s.closuresOf closure.row.userId).head? = some newest →
      newest.pk = closure.pk) :
    (∃ g, s.graceClosure closure.row.userId = some g ∧ closure.row.status = .grace ∧
      g = closure) ∨
    (s.graceClosure closure.row.userId = none ∧ closure.row.status ≠ .grace) := by
  cases hg : s.graceClosure closure.row.userId with
  | none => exact .inr ⟨rfl, graceClosure_none hg hget rfl⟩
  | some g =>
      obtain ⟨hrow, huser, hgrace⟩ := graceClosure_some hg
      have hpk : g.pk = closure.pk := h.cancels hnewest hrow huser hgrace
      have hsame : g = closure := by
        obtain ⟨i, row⟩ := g
        obtain rfl : i = closure.pk := hpk
        rw [hget] at hrow
        exact congrArg (Stored.mk _) (Option.some.inj hrow).symm
      exact .inl ⟨g, rfl, hsame ▸ hgrace, hsame⟩

theorem agree_presented {closure : Stored AccountClosureRequest} (h : Chronicle t s.toLedger)
    (hget : s.closures.get? closure.pk = some closure.row)
    (hnewest : ∀ newest, (s.closuresOf closure.row.userId).head? = some newest →
      newest.pk = closure.pk) :
    Agree ((answerCancel env closure.row.userId).run s).1 (.ok (.ok (shown closure.row))) := by
  rcases h.presented closure hget hnewest with ⟨g, hg, hgrace, rfl⟩ | ⟨hnone, hno⟩
  · rw [answerCancel_some hg]
    exact .cancels hgrace (decide_eq_true hgrace) rfl rfl
  · rw [answerCancel_none hnone]
    exact .over hno (decide_eq_false hno)

theorem isAccessDenied_iff {l : Ledger} : l.isAccessDenied userId = true ↔
    ∃ pk c, l.closures.get? pk = some c ∧ c.userId = userId ∧
      (c.status = .deleting ∨ c.status = .deleted) := by
  have hhas : ∀ status, l.hasClosure userId status = true ↔
      ∃ pk c, l.closures.get? pk = some c ∧ c.userId = userId ∧ c.status = status := by
    intro status
    simp [Ledger.hasClosure, Table.any_eq_true]
  unfold Ledger.isAccessDenied Ledger.accessState
  by_cases hdeleted : l.hasClosure userId .deleted = true
  · obtain ⟨pk, c, hc, huser, hstatus⟩ := (hhas _).mp hdeleted
    rw [if_pos hdeleted]
    exact ⟨fun _ => ⟨pk, c, hc, huser, .inr hstatus⟩, fun _ => by simp⟩
  · rw [if_neg hdeleted]
    by_cases hdeleting : l.hasClosure userId .deleting = true
    · obtain ⟨pk, c, hc, huser, hstatus⟩ := (hhas _).mp hdeleting
      rw [if_pos hdeleting]
      exact ⟨fun _ => ⟨pk, c, hc, huser, .inl hstatus⟩, fun _ => by simp⟩
    · rw [if_neg hdeleting]
      constructor
      · intro h
        split at h <;> simp at h
      · intro h
        obtain ⟨pk, c, hc, huser, hstatus | hstatus⟩ := h
        · exact absurd ((hhas _).mpr ⟨pk, c, hc, huser, hstatus⟩) hdeleting
        · exact absurd ((hhas _).mpr ⟨pk, c, hc, huser, hstatus⟩) hdeleted

/-- The closures of an account that is let in are in grace or cancelled. -/
theorem status_of_allowed {l : Ledger} {pk : Nat} {c : AccountClosureRequest}
    (hin : l.isAccessDenied userId = false) (hc : l.closures.get? pk = some c)
    (huser : c.userId = userId) (hstatus : c.status ≠ .cancelled) : c.status = .grace := by
  have hno : ¬ (c.status = .deleting ∨ c.status = .deleted) := fun h => by
    rw [isAccessDenied_iff.mpr ⟨pk, c, hc, huser, h⟩] at hin
    cases hin
  cases h : c.status with
  | grace => rfl
  | cancelled => exact absurd h hstatus
  | deleting => exact absurd (.inl h) hno
  | deleted => exact absurd (.inr h) hno

theorem sessionStatus_store : ((sessionStatus userId).run s).2 = s := by
  rw [sessionStatus, select_run]
  cases s.shownClosure userId <;> rfl

/-- The session sees the closure it can cancel: an account that is let in has none further on. -/
theorem agree_session (h : Chronicle t s.toLedger) (hin : s.isAccessDenied userId = false) :
    Agree ((answerCancel env userId).run s).1 ((sessionStatus userId).run s).1 := by
  have hmem : ∀ {c : Stored AccountClosureRequest}, s.closures.get? c.pk = some c.row →
      c.row.userId = userId → c.row.status ≠ .cancelled → c ∈ (s.closures.select fun c =>
        c.userId = userId && c.status ≠ .cancelled).insertionSort recentFirst := by
    intro c hget huser hstatus
    rw [List.mem_insertionSort, Table.mem_select]
    exact ⟨hget, by simp [huser, hstatus]⟩
  rw [sessionStatus, select_run]
  cases hshown : s.shownClosure userId with
  | none =>
      have hnone : s.graceClosure userId = none := by
        cases hg : s.graceClosure userId with
        | none => rfl
        | some g =>
            obtain ⟨hrow, huser, hgrace⟩ := graceClosure_some hg
            have hin := hmem hrow huser (by simp [hgrace])
            rw [List.head?_eq_none_iff.mp hshown] at hin
            exact absurd hin List.not_mem_nil
      rw [answerCancel_none hnone]
      exact .absent
  | some closure =>
      have hsel := List.mem_of_head? hshown
      rw [List.mem_insertionSort, Table.mem_select] at hsel
      simp only [Bool.and_eq_true, decide_eq_true_eq] at hsel
      obtain ⟨hget, huser, hstatus⟩ := hsel
      have hgrace := status_of_allowed hin hget huser hstatus
      cases hg : s.graceClosure userId with
      | none => exact absurd hgrace (graceClosure_none hg hget huser)
      | some g =>
          obtain ⟨hrow, hguser, hggrace⟩ := graceClosure_some hg
          have hpk : g.pk = closure.pk := le_antisymm
            (h.last closure.pk g.pk closure.row g.row hget hrow hgrace (hguser.trans huser.symm))
            (h.last g.pk closure.pk g.row closure.row hrow hget hggrace (huser.trans hguser.symm))
          rw [hpk, hget] at hrow
          rw [answerCancel_some hg]
          exact .cancels hgrace (decide_eq_true hgrace) rfl
            (congrArg (·.graceEndsAt) (Option.some.inj hrow)).symm

/-- **The poll is honest.** After any run whose clock never goes back, for every credential (a
session, any text in the token header, both or neither), at every moment: the poll changes
nothing; it says `can_cancel` exactly when the cancellation with the same credential would
succeed, and shows the closure it would cancel; it says otherwise, or 404, exactly when the
cancellation would answer 404; and a credential the one refuses is refused by the other with the
same answer. -/
theorem status_agrees_with_cancel (h : Timed (t, {}) (t', s)) (credential : CancelPost) :
    ((getCloseStatus env wire credential).run s).2 = s ∧
      Agree ((postCancelClose env wire credential).run s).1
        ((getCloseStatus env wire credential).run s).1 := by
  have hchron : Chronicle t' s.toLedger := h.chronicle (chronicle_empty t)
  have hreads := ends_iff_run.mp (closureFromToken_reads env wire s credential.token)
  unfold getCloseStatus postCancelClose
  rw [run_bind, run_bind]
  cases hrun : (closureFromToken env wire credential.token).run s with
  | mk out after =>
      rw [hrun] at hreads
      cases out with
      | error e =>
          obtain rfl : after = s := hreads
          exact ⟨rfl, .raised e⟩
      | ok presented =>
          obtain ⟨rfl, hpresented⟩ := hreads
          cases presented with
          | error answer => exact ⟨rfl, .refused hpresented⟩
          | ok found =>
              cases found with
              | some closure =>
                  exact ⟨rfl, agree_presented hchron hpresented.1 hpresented.2⟩
              | none =>
                  -- no token: both views ask the session
                  show ((closureSubject credential.user >>= _).run after).2 = after ∧
                    Agree ((closureSubject credential.user >>= _).run after).1
                      ((closureSubject credential.user >>= _).run after).1
                  rw [run_bind, run_bind, closureSubject_run]
                  cases credential.user with
                  | none => exact ⟨rfl, .refused rfl⟩
                  | some userId =>
                      by_cases hdenied : after.isAccessDenied userId = true
                      · simp only [if_pos hdenied]
                        exact ⟨rfl, .refused rfl⟩
                      · simp only [if_neg hdenied]
                        exact ⟨sessionStatus_store, agree_session hchron (by simpa using hdenied)⟩

/-! ### Until the end of grace -/

/-- One stage of a run in which executions are the worker's. -/
inductive WorkedStage : Time × Db → Time × Db → Prop
  | call {t : Time} {env : Env} {call : Call} {db db' : Db} (htime : t ≤ env.now)
      (hexec : ∀ closure, call ≠ .executeDeletion closure) (h : CallStep env call db db') :
      WorkedStage (t, db) (env.now, db')
  | host {t : Time} {db : Db} (users : List User) (holds : Table LegalHold)
      (hashes : List ReRegistrationHash) :
      WorkedStage (t, db) (t, { db with users := users, holds := holds, hashes := hashes })

/-- The second moment comes later than the first, and only the worker has executed closures. -/
def Worked : Time × Db → Time × Db → Prop := Relation.ReflTransGen WorkedStage

theorem Worked.timed {x y : Time × Db} (h : Worked x y) : Timed x y := by
  refine Relation.ReflTransGen.mono (fun x y hstage => ?_) x y h
  cases hstage with
  | call htime _ hcall => exact .call htime hcall
  | host users holds hashes => exact .host users holds hashes

theorem Worked.later {x y : Time × Db} (h : Worked x y) : x.1 ≤ y.1 := by
  induction h with
  | refl => exact le_rfl
  | tail _ hstage ih =>
      cases hstage with
      | call htime => exact ih.trans htime
      | host => exact ih

/-- The closure is in its grace period, or was cancelled; whose it is and until when. -/
def Pausing (pk : Nat) (userId : UserId) (graceEndsAt : Time) (l : Ledger) : Prop :=
  ∃ c, l.closures.get? pk = some c ∧ c.userId = userId ∧ c.graceEndsAt = graceEndsAt ∧
    (c.status = .grace ∨ c.status = .cancelled)

variable {pk : Nat} {graceEndsAt : Time} {call : Call}

/-- Every statement but the one that starts its deletion leaves it there. -/
theorem Pausing.step (hs : Pausing pk userId graceEndsAt a.toLedger) (h : Move env op a b)
    (hop : op ≠ .startDeleting pk) : Pausing pk userId graceEndsAt b.toLedger := by
  obtain ⟨c, hc, huser, hends, hstatus⟩ := hs
  have hmodify : ∀ (i : Nat) (f : AccountClosureRequest → AccountClosureRequest),
      (i = pk → (f c).userId = userId ∧ (f c).graceEndsAt = graceEndsAt ∧
        ((f c).status = .grace ∨ (f c).status = .cancelled)) →
      ∃ c', (a.closures.modify i f).get? pk = some c' ∧ c'.userId = userId ∧
        c'.graceEndsAt = graceEndsAt ∧ (c'.status = .grace ∨ c'.status = .cancelled) := by
    intro i f hf
    by_cases hi : i = pk
    · subst hi
      exact ⟨f c, Table.get?_modify_self f hc, hf rfl⟩
    · rw [Table.get?_modify_of_ne f (Ne.symm hi)]
      exact ⟨c, hc, huser, hends, hstatus⟩
  cases h with
  | closureOpened =>
      exact ⟨c, Table.get?_insert_of_some _ hc, huser, hends, hstatus⟩
  | closureCancelled userId' users hc' hgrace =>
      exact hmodify _ _ fun _ => ⟨huser, hends, .inr rfl⟩
  | deletionStarted => exact hmodify _ _ fun hi => absurd (congrArg Op.startDeleting hi) hop
  | identityErased => exact hmodify _ _ fun _ => ⟨huser, hends, hstatus⟩
  | localDone => exact hmodify _ _ fun _ => ⟨huser, hends, hstatus⟩
  | closureDeleted waived hc' herased =>
      refine hmodify _ _ fun hi => ?_
      subst hi
      rw [Option.some.inj (hc'.symm.trans hc)] at herased
      simp only [AccountClosureRequest.erased, Bool.and_eq_true, decide_eq_true_eq] at herased
      rw [herased.1.1] at hstatus
      rcases hstatus with h | h <;> cases h
  | erasureOpened ho =>
      obtain ⟨by', -, -, -, -, hdb⟩ := openErasure_ok ho
      rw [hdb]
      exact ⟨c, hc, huser, hends, hstatus⟩
  | obligation hr ho =>
      obtain ⟨-, -, -, hdb⟩ := createObligation_ok ho
      rw [hdb]
      exact ⟨c, hc, huser, hends, hstatus⟩
  | _ => exact ⟨c, hc, huser, hends, hstatus⟩

theorem Call.startless (hexec : ∀ closure, call ≠ .executeDeletion closure)
    (hworker : call ≠ .processExpiredGracePeriods) (h : call.may op) : op ≠ .startDeleting pk := by
  rintro rfl
  cases call with
  | executeDeletion closure => exact hexec closure rfl
  | processExpiredGracePeriods => exact hworker rfl
  | markSectionErased | sectionErased => exact h
  | initiateClosure | requestErasure | erasureRequest | erasureOpen | postErasure =>
      obtain h | h := h <;> cases h
  | cancelClosure =>
      obtain h | ⟨i, h⟩ := h <;> cases h
  | requeueAfterRestore =>
      obtain h | ⟨st, sk, h⟩ := h <;> cases h
  | sweepDeletionDeadlines =>
      obtain h | h | ⟨request, h⟩ := h <;> cases h
  | recordObligations =>
      obtain ⟨name, h | h⟩ := h <;> cases h

/-- Before the end of its grace the worker does not touch it, and nobody else may. -/
theorem Call.startless_does (hloaded : call.Loaded db)
    (hs : Pausing pk userId graceEndsAt db.toLedger)
    (hterm : env.now < graceEndsAt) (hexec : ∀ closure, call ≠ .executeDeletion closure) :
    Does (fun _ => True) (fun op a b => Move env op a b ∧ op ≠ .startDeleting pk)
      (fun _ _ => True) (fun _ _ => True) (call.prog env) db := by
  by_cases hworker : call = .processExpiredGracePeriods
  · subst hworker
    refine processExpiredGracePeriods_does (by simp) fun closure hmem op hop => ?_
    rintro rfl
    obtain rfl : pk = closure.pk := hop
    obtain ⟨c, hc, -, hends, -⟩ := hs
    obtain ⟨hget, hsel⟩ := Table.mem_select.mp hmem
    simp only [Bool.and_eq_true, decide_eq_true_eq] at hsel
    rw [Option.some.inj (hget.symm.trans hc), hends] at hsel
    exact absurd hsel.1.2 (not_le.mpr hterm)
  · have hmoves : Moves env (fun _ _ => True) (fun _ _ => True) (call.prog env) db :=
      Call.refines hloaded
    have hlabels : Labels (fun op => op ≠ .startDeleting pk) (call.prog env) :=
      (Call.labels env call).mono fun op _ _ => Call.startless hexec hworker
    exact (hmoves.and hlabels.does).post (fun _ _ _ => trivial) fun _ _ _ => trivial

/-- Nobody takes the account further before the end of its grace. -/
theorem Worked.pausing {x y : Time × Db} (h : Worked x y) (hterm : y.1 < graceEndsAt)
    (hs : Pausing pk userId graceEndsAt x.2.toLedger) :
    Pausing pk userId graceEndsAt y.2.toLedger := by
  induction h with
  | refl => exact hs
  | tail _ hstage ih =>
      cases hstage with
      | host users holds hashes => exact ih hterm
      | call htime hexec hcall =>
          have hbefore := ih (lt_of_le_of_lt htime hterm)
          obtain ⟨hloaded, tr, p, hrun⟩ := hcall
          have hchain := (Call.startless_does hloaded hbefore hterm hexec).chain hrun
            (N := fun a b => Pausing pk userId graceEndsAt a.toLedger →
              Pausing pk userId graceEndsAt b.toLedger)
            fun op a b hm hp => hp.step hm.1 hm.2
          clear hrun
          induction hchain with
          | refl => exact hbefore
          | tail _ hstep ih' => exact hstep (ih' hterm)

/-- The closure a POST opened, and the body that says so. -/
structure OpenedBy (env : Env) (wire : Wire) (userId : UserId) (s s' : Db)
    (body : ClosureStatusDto) : Prop where
  row : s'.closures.get? s.closures.nextPk = some (newClosure env userId .manual)
  body : body = closureDto (newClosure env userId .manual) true
    (some (makeClosureToken wire ⟨s.closures.nextPk, newClosure env userId .manual⟩))
  after : s' = (Call.initiateClosure userId .manual).after env s

theorem initiateClosure_opens (env : Env) (userId : UserId) (s : Db) :
    Ends (fun closure s' => closure.pk = s.closures.nextPk ∧
      closure.row = newClosure env userId .manual ∧
      s'.closures = s.closures.insert (newClosure env userId .manual)) (fun _ _ => True)
    (initiateClosure env userId .manual) s := by
  refine does_bind.mpr (does_query.mpr ⟨⟨trivial, ?_⟩, fun h => h.elim⟩)
  split
  · exact does_raise.mpr trivial
  · refine does_bind.mpr (does_query.mpr ⟨⟨trivial, ?_⟩, fun h => h.elim⟩)
    split
    · exact does_raise.mpr trivial
    · refine ends_atomic.mpr ?_
      split
      · rename_i r hr
        obtain ⟨⟨seam, revoked⟩, hrevoke, hret⟩ := ok_of_bind hr
        obtain rfl := Except.ok.inj hret
        have hdb := revokeSessions_ok hrevoke
        rw [setActive_eq] at hdb
        exact ⟨rfl, rfl, by rw [hdb]; rfl⟩
      · exact trivial

theorem postClose_accepted {retryAfter : Int} {body : ClosureStatusDto}
    (h : (postClose env wire retryAfter (some userId)).run s = (.ok (.accepted body), s')) :
    OpenedBy env wire userId s s' body := by
  unfold postClose at h
  dsimp only at h
  rw [select_run] at h
  have hopens := ends_iff_run.mp (initiateClosure_opens env userId s)
  have hafter : (Call.initiateClosure userId .manual).after env s =
      ((initiateClosure env userId .manual).run s).2 := by
    show ((discard (initiateClosure env userId .manual)).run s).2 = _
    rw [discard, run_bind]
    cases (initiateClosure env userId .manual).run s with
    | mk out after => cases out <;> rfl
  split at h
  · cases h
  · split at h
    · cases h
    · rw [run_tryCatch, run_bind] at h
      cases hrun : (initiateClosure env userId .manual).run s with
      | mk out after =>
          rw [hrun] at h hopens hafter
          cases out with
          | ok closure =>
              obtain ⟨hpk, hrow, hclosures⟩ := hopens
              obtain ⟨pk, row⟩ := closure
              obtain ⟨hbody, rfl⟩ := Prod.mk.inj h
              have hbody := CloseAnswer.accepted.inj (Except.ok.inj hbody)
              subst hpk hrow
              exact ⟨by rw [hclosures]; exact Table.get?_insert_nextPk _ _, hbody.symm,
                hafter.symm⟩
          | error e =>
              cases e with
              | valueError text =>
                  dsimp only at h
                  split at h
                  · cases h
                  · split at h <;> cases h
              | _ => cases h

/-- A closure in grace is named by its own token. -/
theorem Chronicle.named {c : AccountClosureRequest} (h : Chronicle t s.toLedger)
    (hc : s.closures.get? pk = some c) (huser : c.userId = userId) (hgrace : c.status = .grace) :
    (namedClosure pk userId).run s = (.ok (.ok (some ⟨pk, c⟩)), s) ∧
      s.graceClosure userId = some ⟨pk, c⟩ := by
  have hnewest : ∀ newest, (s.closuresOf c.userId).head? = some newest → newest.pk = pk := by
    intro newest hn
    obtain ⟨hget, hnuser⟩ := mem_closuresOf.mp (List.mem_of_head? hn)
    exact le_antisymm (h.last pk newest.pk c newest.row hc hget hgrace hnuser)
      (h.newest hn hc rfl)
  constructor
  · have hfound : (s.closures.get? pk).filter (fun q => q.userId = userId) = some c :=
      Option.filter_eq_some_iff.mpr ⟨hc, decide_eq_true huser⟩
    have hno : (s.closuresOf c.userId).head?.any (·.pk ≠ pk) = false := by
      cases hhead : (s.closuresOf c.userId).head? with
      | none => rfl
      | some n => simp [hnewest n hhead]
    unfold namedClosure
    rw [select_run, hfound]
    dsimp only
    rw [select_run, hno]
    rfl
  · rcases h.presented ⟨pk, c⟩ hc hnewest with ⟨g, hg, -, rfl⟩ | ⟨-, hno⟩
    · exact huser ▸ hg
    · exact absurd hgrace hno

/-- **The account can be had back until its last day.** Take any run whose clock never goes
back, a POST in it that was accepted, and whatever happens after it while the executions are the
worker's. At every moment before the end of grace the 202 named, the closure is still in grace or
was cancelled; and if it is in grace, presenting the token of the 202, with any session or none,
cancels it: the answer is 200, the closure is the one of the token, and the account is active
again. -/
theorem grace_can_be_cancelled (hwire : wire.Ideal) {first t₀ t : Time} {s₀ s₁ : Db}
    {env₀ : Env} {retryAfter : Int} {body : ClosureStatusDto} {session : Option UserId}
    (hrun₀ : Timed (first, {}) (t₀, s₀)) (hclock₀ : t₀ ≤ env₀.now)
    (hpost : (postClose env₀ wire retryAfter (some userId)).run s₀ = (.ok (.accepted body), s₁))
    (hrun : Worked (env₀.now, s₁) (t, s)) (hterm : t < body.graceEndsAt)
    (hnow : env.now ≤ body.graceEndsAt) (hid : env.host.parseUuid userId = some userId) :
    ∃ pk c token, body.closureToken = some token ∧ s.closures.get? pk = some c ∧
      c.userId = userId ∧ c.graceEndsAt = body.graceEndsAt ∧
      (c.status = .cancelled ∨ c.status = .grace ∧ ∃ closure s',
        (postCancelClose env wire ⟨token, session⟩).run s = (.ok (.ok closure), s') ∧
        closure.pk = pk ∧ (∀ active, s'.active userId = some active → active = true) ∧
        s'.closures.get? pk = some (c.cancel env.now)) := by
  obtain ⟨hrow, hbody, hafter⟩ := postClose_accepted hpost
  have htimed : Timed (first, {}) (env₀.now, s₁) := by
    rw [hafter]
    exact hrun₀.run env₀ (.initiateClosure userId .manual) hclock₀ trivial
  have hchron : Chronicle t s.toLedger :=
    Timed.chronicle (htimed.trans hrun.timed) (chronicle_empty first)
  have hends : body.graceEndsAt = (newClosure env₀ userId .manual).graceEndsAt := by rw [hbody]; rfl
  have hpausing : Pausing s₀.closures.nextPk userId body.graceEndsAt s₁.toLedger :=
    ⟨_, hrow, rfl, hends.symm, .inl rfl⟩
  obtain ⟨c, hc, huser, hcends, hstatus⟩ := hrun.pausing hterm hpausing
  refine ⟨_, c, _, by rw [hbody]; rfl, hc, huser, hcends, ?_⟩
  rcases hstatus with hgrace | hcancelled
  · obtain ⟨hnamed, hgraceClosure⟩ := hchron.named hc huser hgrace
    refine .inr ⟨hgrace, ⟨_, c.cancel env.now⟩,
      s.cancelled env.now userId ⟨s₀.closures.nextPk, c⟩, ?_, rfl, fun active hactive => ?_, ?_⟩
    · rw [postCancelClose, run_bind, closureFromToken_make hwire,
        if_neg (not_lt.mpr (hends ▸ hnow)), show (newClosure env₀ userId .manual).userId = userId
          from rfl, hid]
      dsimp only
      rw [hnamed]
      dsimp only
      rw [huser, answerCancel_some hgraceClosure]
      rfl
    · rw [Db.cancelled, active_emit, active_setActive] at hactive
      obtain ⟨_, -, rfl⟩ := Option.map_eq_some_iff.mp hactive
      rfl
    · rw [Db.cancelled, setActive_eq]
      exact Table.get?_modify_self (·.cancel env.now) hc
  · exact .inl hcancelled

/-! ### A closure taken back -/

theorem postClose_run {closure : Stored AccountClosureRequest} (wire : Wire)
    (hin : s.isAccessDenied userId = false)
    (hrun : (initiateClosure env userId .manual).run s = (.ok closure, s')) :
    (postClose env wire 0 (some userId)).run s = (.ok (.accepted (closureDto closure.row true
      (some (makeClosureToken wire closure)))), s') := by
  unfold postClose
  dsimp only
  rw [select_run, hin, if_neg Bool.false_ne_true, if_neg (by simp), run_tryCatch, run_bind, hrun]
  rfl

/-- On day 0 the poll with the token of the sample agrees with the cancellation. -/
theorem status_agrees_with_cancel_closing :
    Agree ((postCancelClose deployment unary ⟨makeClosureToken unary firstClosure, none⟩).run
        closing).1
      ((getCloseStatus deployment unary ⟨makeClosureToken unary firstClosure, none⟩).run
        closing).1 :=
  (status_agrees_with_cancel timed_closing _).2

/-- The worker of day 29 has left the closure of day 0 where it was. -/
theorem grace_can_be_cancelled_closing : ∃ pk c,
    (Call.processExpiredGracePeriods.after (deploymentOn 29) closing).closures.get? pk = some c ∧
      (c.status = .cancelled ∨ c.status = .grace) := by
  have hopened : (initiateClosure deployment "u1" .manual).run (storeOf [account]) =
      (.ok firstClosure, closing) := by
    refine Prod.ext ?_ ?_
    · decide +kernel
    · decide +kernel
  have hpost := postClose_run unary (by decide +kernel) hopened
  obtain ⟨tr, hrun⟩ := runs_run (fun _ => True)
    (Call.processExpiredGracePeriods.prog (deploymentOn 29)) closing
  have hstep : CallStep (deploymentOn 29) .processExpiredGracePeriods closing
      (Call.processExpiredGracePeriods.after (deploymentOn 29) closing) := ⟨trivial, tr, _, hrun⟩
  have hworked : Worked (deployment.now, closing)
      (days 29, Call.processExpiredGracePeriods.after (deploymentOn 29) closing) :=
    .single (.call (by decide) (fun _ => by simp) hstep)
  have hstart : Timed (0, {}) (0, storeOf [account]) := .single (.host [account] {} [])
  have hnow : (deploymentOn 29).now ≤ days 30 := by decide
  obtain ⟨pk, c, token, -, hc, -, -, hstatus⟩ := @grace_can_be_cancelled (deploymentOn 29) _ unary
    "u1" unary_ideal 0 0 (days 29) _ _ deployment 0 _ none hstart le_rfl hpost hworked (by decide)
    hnow rfl
  exact ⟨pk, c, hc, hstatus.imp id fun h => h.1⟩

end StapelGdpr
