import StapelGdpr.Hold
import StapelGdpr.Lib.Pool

/-!
# StapelGdpr.Exclusion

`cancel_closure` against the grace worker, statement by statement. Each side acts on a row
it read earlier and writes its columns without asking again, so neither excludes the other:
`cancelled_and_erased` is the cancel that commits between the worker's query and its first
write. What the code does keep is `exclusive_of_guarded`: in a run in which no write of
DELETING or CANCELLED meets a row that has left GRACE, the two exclude each other.
-/

namespace StapelGdpr

open Prog

/-- The two sides of a race. -/
inductive Party
  | worker
  | canceller
  deriving DecidableEq

/-- Who may fail: the worker, at any statement. -/
def Party.may : Party → Op → Prop
  | .worker, _ => True
  | .canceller, _ => False

/-- The worker beside the cancellation of one user, each under its own environment. -/
def race (worker canceller : Env) (userId : UserId) : Pool Op Db Error Unit Party
  | .worker => processExpiredGracePeriods worker
  | .canceller => discard (cancelClosure canceller userId)

/-- One statement of a race. -/
abbrev Moment := Pool.Event Party Op Db

/-- The status stored for a closure. -/
def Ledger.closureStatus (l : Ledger) (pk : Nat) : Option ClosureStatus :=
  (l.closures.get? pk).map (·.status)

/-- The statement commits CANCELLED for the closure. -/
def Cancels (e : Moment) (pk : Nat) : Prop :=
  e.label = .cancelUnit pk ∧ e.after.closureStatus pk = some .cancelled

/-- The statement writes DELETING for the closure. -/
def Starts (e : Moment) (pk : Nat) : Prop :=
  e.label = .startDeleting pk ∧ e.after.closureStatus pk = some .deleting

/-- The two sides exclude each other. -/
structure Exclusive (userId : UserId) (tr : List Moment) (P : Pool Op Db Error Unit Party) :
    Prop where
  /-- Once the cancellation is committed, the closure is not deleted and nothing is erased. -/
  cancelled : ∀ pre e post pk, tr = pre ++ e :: post → Cancels e pk → ∀ e' ∈ post,
    e'.after.closureStatus pk ≠ some .deleting ∧ e'.after.closureStatus pk ≠ some .deleted ∧
      ¬ e'.label.erases userId
  /-- Once the deletion has started, the cancellation changes nothing and is refused. -/
  started : ∀ pre e post pk, tr = pre ++ e :: post → Starts e pk →
    (∃ c, e.after.closures.get? pk = some c ∧ c.userId = userId) →
    (∀ e' ∈ pre, ¬ Cancels e' pk) →
      (∀ e' ∈ tr, e'.thread = .canceller → e'.after = e'.before) ∧
      ((P .canceller).Done → P .canceller = .raise (.valueError "no_active_closure"))

/-- A write of DELETING or CANCELLED finds the closure still in its grace period. -/
def Guarded : Op → Db → Prop
  | .startDeleting pk, db | .cancelUnit pk, db => db.closureStatus pk = some .grace
  | _, _ => True

instance : ∀ (op : Op) (db : Db), Decidable (Guarded op db)
  | .startDeleting pk, db | .cancelUnit pk, db =>
      inferInstanceAs (Decidable (db.closureStatus pk = some .grace))
  | .select, _ | .closureUnit _, _ | .erasureUnit .., _ | .storeHash _, _ | .anonymize .., _
  | .delete .., _ | .localReceipt _, _ | .eraseIdentity _, _ | .identityErased _, _
  | .localDoneUnit _, _ | .receipt .., _ | .certify _, _ | .obligationQuery .., _
  | .obligation .., _ | .closureDeleted _, _ | .sweepParts, _ | .timeoutUnit _, _
  | .retentionCleanup, _
  | .purgeUnverified, _ => .isTrue trivial

/-! ### What both sides keep under the guard -/

/-- Under erasure, or erased. -/
def ClosureStatus.underway : ClosureStatus → Prop
  | .deleting | .deleted => True
  | _ => False

/-- A status never comes back to GRACE, and CANCELLED and the erasure are for good. -/
structure Abides (c c' : AccountClosureRequest) : Prop where
  user : c'.userId = c.userId
  grace : c'.status = .grace → c.status = .grace
  cancelled : c.status = .cancelled → c'.status = .cancelled
  underway : c.status.underway → c'.status.underway

/-- No closure is opened, and each abides. -/
def Abiding (a b : Db) : Prop :=
  a.closures.Evolves (fun _ => Abides) (fun _ _ => False) b.closures

variable {env : Env} {start a b db : Db} {op : Op} {pk : Nat} {userId : UserId}

theorem Abides.refl (c : AccountClosureRequest) : Abides c c := ⟨rfl, id, id, id⟩

theorem Abiding.of_closures (h : b.closures = a.closures) : Abiding a b := by
  rw [Abiding, h]
  exact .refl fun _ c _ => .refl c

theorem Abiding.refl (a : Db) : Abiding a a := .of_closures rfl

theorem Abiding.trans {c : Db} (h : Abiding a b) (h' : Abiding b c) : Abiding a c :=
  Table.Evolves.trans h h' (fun _ _ _ _ h h' => ⟨h'.user.trans h.user, h.grace ∘ h'.grace,
    h'.cancelled ∘ h.cancelled, h'.underway ∘ h.underway⟩) fun _ _ _ h _ => h

/-- One closure row is changed. -/
theorem Abiding.modify {f : AccountClosureRequest → AccountClosureRequest}
    (hb : b.closures = a.closures.modify pk f)
    (hf : ∀ c, a.closures.get? pk = some c → Abides c (f c)) : Abiding a b := by
  rw [Abiding, hb]
  exact .modify (fun _ c _ _ => .refl c) hf

/-- A row of the later store is a row of the earlier one. -/
theorem Abiding.row (h : Abiding a b) {c' : AccountClosureRequest}
    (hc : b.closures.get? pk = some c') : ∃ c, a.closures.get? pk = some c ∧ Abides c c' := by
  rcases Table.Evolves.row h hc with hold | ⟨-, hnew⟩
  · exact hold
  · exact hnew.elim

theorem closureStatus_eq_some {l : Ledger} {status : ClosureStatus} :
    l.closureStatus pk = some status ↔ ∃ c, l.closures.get? pk = some c ∧ c.status = status :=
  Option.map_eq_some_iff

theorem Abiding.stays_cancelled (h : Abiding a b) (hc : a.closureStatus pk = some .cancelled) :
    b.closureStatus pk = some .cancelled := by
  obtain ⟨c, hc, hst⟩ := closureStatus_eq_some.mp hc
  obtain ⟨c', hc', habides⟩ := Table.Evolves.kept h hc
  exact closureStatus_eq_some.mpr ⟨c', hc', habides.cancelled hst⟩

/-- The closure is under erasure, or erased. -/
def Underway (pk : Nat) (db : Db) : Prop :=
  ∃ c, db.closures.get? pk = some c ∧ c.status.underway

theorem Abiding.stays_underway (h : Abiding a b) (hc : Underway pk a) : Underway pk b := by
  obtain ⟨c, hc, hst⟩ := hc
  obtain ⟨c', hc', habides⟩ := Table.Evolves.kept h hc
  exact ⟨c', hc', habides.underway hst⟩

theorem Underway.status_ne (h : Underway pk db) {status : ClosureStatus}
    (hst : db.closureStatus pk = some status) : status ≠ .grace ∧ status ≠ .cancelled := by
  obtain ⟨c, hc, hun⟩ := h
  obtain ⟨c', hc', rfl⟩ := closureStatus_eq_some.mp hst
  rw [hc] at hc'
  obtain rfl := Option.some.inj hc'
  constructor <;> intro heq <;> rw [heq] at hun <;> exact hun

/-- The closure was in its user's grace period when the race began. -/
def InGrace (start : Db) (pk : Nat) (userId : UserId) : Prop :=
  ∃ c, start.closures.get? pk = some c ∧ c.status = .grace ∧ c.userId = userId

/-- What is in grace now was in grace at the start. -/
theorem Abiding.inGrace (h : Abiding start db) {c : AccountClosureRequest}
    (hc : db.closures.get? pk = some c) (hst : c.status = .grace) :
    InGrace start pk c.userId := by
  obtain ⟨c₀, hc₀, habides⟩ := h.row hc
  exact ⟨c₀, hc₀, habides.grace hst, habides.user.symm⟩

/-! ### The worker -/

/-- What the worker's statements do, from the store `start` on: under the guard they abide,
they remove no closure, and they erase a user only on behalf of a closure of the list, which
is by then under erasure. -/
structure WorkerStep (start : Db) (op : Op) (a b : Db) : Prop where
  abiding : Guarded op a → Abiding a b
  kept : ∀ pk, (∃ c, a.closures.get? pk = some c) → ∃ c, b.closures.get? pk = some c
  cancels : ∀ pk, op ≠ .cancelUnit pk
  starts : ∀ pk, op = .startDeleting pk → ∃ userId, InGrace start pk userId
  erases : ∀ userId, op.erases userId → ∃ pk, InGrace start pk userId ∧ Underway pk a

/-- What the statements of one execution do after its first write. -/
structure ErasureStep (userId : UserId) (op : Op) (a b : Db) : Prop where
  abiding : Abiding a b
  writes : ∀ pk, op ≠ .cancelUnit pk ∧ op ≠ .startDeleting pk
  erases : ∀ u, op.erases u → u = userId

/-- A statement that leaves the closures alone. -/
theorem ErasureStep.of_closures (h : b.closures = a.closures)
    (hop : ∀ pk, op ≠ .cancelUnit pk ∧ op ≠ .startDeleting pk := by simp)
    (herases : ∀ u, op.erases u → u = userId := by simp [Op.erases]) :
    ErasureStep userId op a b :=
  ⟨.of_closures h, hop, herases⟩

/-- After the first write, the steps of an execution are steps of the worker. -/
theorem ErasureStep.worker (h : ErasureStep userId op a b) (hgrace : InGrace start pk userId)
    (hun : Underway pk a) : WorkerStep start op a b where
  abiding _ := h.abiding
  kept pk hc := by
    obtain ⟨c, hc⟩ := hc
    obtain ⟨c', hc', -⟩ := Table.Evolves.kept h.abiding hc
    exact ⟨c', hc'⟩
  cancels pk := (h.writes pk).1
  starts pk hop := absurd hop (h.writes pk).2
  erases u hu := by
    obtain rfl := h.erases u hu
    exact ⟨pk, hgrace, hun⟩

/-- Runs beside the cancellation, with steps of an execution. -/
abbrev Erasing (userId : UserId) {α : Type} (Q : α → Db → Prop) (p : Program α) (db : Db) : Prop :=
  Beside Abiding (fun _ => True) (ErasureStep userId) Q (fun _ _ => True) p db

variable {α : Type}

theorem Erasing.of_always {p : Program α} (h : Always (ErasureStep userId) p) :
    Erasing userId (fun _ _ => True) p db := h.safe

/-- A closure under erasure stays so, whatever the cancellation does. -/
theorem Erasing.underway {Q : α → Db → Prop} {p : Program α} (h : Erasing userId Q p db)
    (hun : Underway pk db) : Beside Abiding (fun _ => True)
      (fun op a b => ErasureStep userId op a b ∧ Underway pk a)
      (fun a b => Q a b ∧ Underway pk b) (fun _ b => True ∧ Underway pk b) p db :=
  h.inv (fun _ _ hR => hR.stays_underway) (fun _ _ _ hM => hM.abiding.stays_underway) hun

/-- What an execution does after its first write is the worker's. -/
theorem Erasing.worker {Q : α → Db → Prop} {p : Program α} (h : Erasing userId Q p db)
    (hgrace : InGrace start pk userId) (hun : Underway pk db) :
    Beside Abiding (fun _ => True) (WorkerStep start) (fun a b => Q a b ∧ Underway pk b)
      (fun _ _ => True) p db :=
  (h.underway hun).imp (fun _ _ _ _ h => h.1.worker hgrace h.2) (fun _ _ h => h)
    fun _ _ _ => trivial

theorem erasing_select {g : Db → α} {Q : α → Db → Prop}
    (h : ∀ b, Abiding db b → ∀ c, Abiding b c → Q (g b) c) :
    Erasing userId Q (Program.select g) db :=
  Beside.query fun b hb => ⟨.of_closures rfl, h b hb, fun _ _ _ _ => trivial⟩

/-- Opening an erasure touches no closure; a request that was inserted carries the closure
it was asked for. -/
theorem requestErasure_erasing {st sk : String} {args : ErasureArgs}
    (hkey : args.idempotencyKey = "") :
    Erasing userId (fun request _ => request.row.closure = args.closure)
      (requestErasure env st sk args) db := by
  unfold requestErasure
  split
  · exact safe_raise.mpr fun _ _ => trivial
  · refine Safe.tryCatch Abiding.refl (X := fun _ _ => True) (Beside.atomic (fun b _ => ?_)
      fun b _ _ => ⟨.of_closures rfl, fun _ _ _ => trivial⟩) fun e b _ => ?_
    · cases hopen : b.openErasure env st sk args with
      | error e => exact ⟨.of_closures rfl, fun _ _ => trivial⟩
      | ok out =>
          obtain ⟨request, b'⟩ := out
          obtain ⟨by', -, hrow, -, -, hdb⟩ := openErasure_ok hopen
          refine ⟨.of_closures (by rw [hdb]), fun _ _ => ?_⟩
          rw [hrow]
          rfl
    · rw [if_neg (fun h => h.2 hkey)]
      exact safe_raise.mpr fun _ _ => trivial

theorem closureErasure_erasing {closure : Stored AccountClosureRequest} {correlationId : Uuid} :
    Erasing userId (fun out _ => out.2 = true → out.1.row.closure = some closure.pk)
      (closureErasure env closure correlationId) db := by
  refine Safe.bind Abiding.refl (P := fun _ _ => True) (erasing_select fun _ _ _ _ => trivial)
    fun found b _ => ?_
  cases found with
  | some erasure => exact safe_ret.mpr fun _ _ h => absurd h (by simp)
  | none =>
      exact Safe.bind Abiding.refl (requestErasure_erasing rfl) fun _ _ h =>
        safe_ret.mpr fun _ _ _ => h

/-- The local work keeps the closure under erasure and hands on its key. -/
theorem eraseSubject_erasing {closure : Stored AccountClosureRequest} {correlationId : Uuid}
    {erasure : Stored ErasureRequest} :
    Erasing closure.row.userId (fun out _ => ∀ cl, out = some cl → cl.pk = closure.pk)
      (eraseSubject env closure correlationId erasure) db := by
  have hs : ∀ db, ErasureStep closure.row.userId .select db db := fun _ => .of_closures rfl
  refine Safe.bind Abiding.refl (Erasing.of_always (storeReregistrationHashes_always hs
    fun _ _ => .of_closures rfl)) fun _ _ _ => ?_
  refine Safe.bind Abiding.refl (Erasing.of_always (runDeletionInprocess_always
    (fun _ _ => .of_closures rfl) fun _ _ => .of_closures rfl)) fun failed _ _ => ?_
  refine Safe.bind Abiding.refl (Erasing.of_always (recordLocalReceipts_always hs
    fun _ _ => ⟨.of_closures rfl, fun _ => .of_closures rfl⟩)) fun _ _ _ => ?_
  split
  · exact safe_ret.mpr fun _ _ _ h => absurd h (by simp)
  · refine Safe.bind Abiding.refl (Erasing.of_always (identityErased_always hs
      fun _ _ => .of_closures rfl)) fun erased _ _ => ?_
    split
    · exact safe_ret.mpr fun _ _ _ h => absurd h (by simp)
    · have hwrite : ∀ {op : Op} {u : Db → Db} {f : AccountClosureRequest → AccountClosureRequest},
          (∀ b, (u b).closures = b.closures.modify closure.pk f) → (∀ c, Abides c (f c)) →
          (∀ pk, op ≠ .cancelUnit pk ∧ op ≠ .startDeleting pk) →
          (∀ u, op.erases u → u = closure.row.userId) → ∀ b,
          Erasing closure.row.userId (fun _ _ => True) (Prog.write op u) b := by
        intro op u f hu hf hop herases b
        exact Beside.write fun c _ => ⟨⟨⟨.modify (hu c) fun q _ => hf q, hop, herases⟩,
          fun _ _ => trivial⟩, fun _ => ⟨⟨.refl c, hop, herases⟩, fun _ _ _ => trivial⟩⟩
      refine Safe.bind Abiding.refl (hwrite (f := (·.eraseIdentity env.now)) (fun _ => rfl)
        (fun c => ⟨rfl, id, id, id⟩) (by simp) (by simp [Op.erases]) _) fun _ b _ => ?_
      refine Safe.bind Abiding.refl (hwrite (f := (·.finishLocal)) (fun _ => rfl)
        (fun c => ⟨rfl, id, id, id⟩) (by simp) (by simp [Op.erases]) b) fun _ _ _ => ?_
      exact safe_ret.mpr fun _ _ cl hcl => by rw [← Option.some.inj hcl]

/-- The rest of a flip deletes no closure but one under erasure. -/
theorem certify_erasing {request : Stored ErasureRequest}
    {closure : Option (Stored AccountClosureRequest)} {waived : Bool}
    (hun : ∀ cl, closure = some cl → Underway cl.pk db) :
    Erasing userId (fun _ _ => True) (certify env request closure waived) db := by
  have hcertify : Erasing userId (fun _ b => ∀ cl, closure = some cl → Underway cl.pk b)
      (Prog.write (.certify request.pk) fun db => { db with
        requests := db.requests.modify request.pk (·.certify env.now waived) }) db :=
    Beside.write fun b hb => ⟨⟨.of_closures rfl, fun c hc cl hcl =>
      hc.stays_underway (hb.stays_underway (hun cl hcl))⟩,
      fun _ => ⟨.of_closures rfl, fun _ _ _ => trivial⟩⟩
  refine Safe.bind Abiding.refl hcertify fun _ b hun' => ?_
  refine Safe.bind Abiding.refl (P := fun _ c => ∀ cl, closure = some cl → Underway cl.pk c) ?_
    fun _ c hun'' => ?_
  · refine ((Erasing.of_always (recordSubprocessorObligations_always
      (fun _ _ => .of_closures rfl) fun _ _ => ⟨.of_closures rfl, fun _ => .of_closures rfl⟩)).inv
      (I := fun c => ∀ cl, closure = some cl → Underway cl.pk c)
      (fun _ _ hR h cl hcl => hR.stays_underway (h cl hcl))
      (fun _ _ _ hM h cl hcl => hM.abiding.stays_underway (h cl hcl)) hun').imp
      (fun _ _ _ _ h => h.1) (fun _ _ h => h.2) fun _ _ _ => trivial
  · cases closure with
    | none => exact safe_ret.mpr fun _ _ => trivial
    | some cl =>
        refine Beside.write fun d hd => ⟨⟨⟨.modify rfl fun q hq => ?_, by simp,
          by simp [Op.erases]⟩, fun _ _ => trivial⟩,
          fun _ => ⟨.of_closures rfl, fun _ _ _ => trivial⟩⟩
        -- the row is under erasure here, whoever wrote to it since it was read
        obtain ⟨c', hc', hst⟩ := hd.stays_underway (hun'' cl rfl)
        rw [hq] at hc'
        obtain rfl := Option.some.inj hc'
        refine ⟨rfl, fun h => ClosureStatus.noConfusion h, fun h => ?_, fun _ => trivial⟩
        rw [h] at hst
        exact hst.elim

theorem maybeFinalize_erasing {request : Stored ErasureRequest}
    {cached : Option (Stored AccountClosureRequest)}
    (hun : ∀ cl, cached = some cl → Underway cl.pk db) :
    Erasing userId (fun _ _ => True) (maybeFinalize env request cached) db := by
  unfold maybeFinalize
  split
  · exact safe_ret.mpr fun _ _ => trivial
  · -- the closure in hand is under erasure, or it does not allow the flip
    refine Safe.bind Abiding.refl (P := fun closure b => closureAllows closure = true →
      ∀ cl, closure = some cl → Underway cl.pk b) ?_ fun closure b hclosure => ?_
    · unfold requestClosure
      split
      · exact safe_ret.mpr fun _ _ _ _ h => absurd h (by simp)
      · rename_i cl hcl
        refine safe_ret.mpr fun b hb _ cl' hcl' => ?_
        obtain rfl := Option.some.inj hcl'
        exact hb.stays_underway (hun _ rfl)
      · rename_i k hk
        refine Safe.bind Abiding.refl (P := fun found b => ∀ row, found = some row →
          row.status = .deleting → Underway k b) (erasing_select fun b hb c hc row hrow hst => ?_)
          fun found b hfound => ?_
        · exact hc.stays_underway ⟨row, hrow, by rw [hst]; trivial⟩
        · cases found with
          | none => exact safe_raise.mpr fun _ _ => trivial
          | some row =>
              refine safe_ret.mpr fun c hc hallows cl hcl => ?_
              obtain rfl := Option.some.inj hcl
              have herased : row.erased = true := hallows
              exact hc.stays_underway
                (hfound row rfl (AccountClosureRequest.erased_iff.mp herased).1)
    · split
      · exact safe_ret.mpr fun _ _ => trivial
      · rename_i hallows
        have hun' := hclosure (by simpa using hallows)
        refine Safe.bind Abiding.refl (P := fun _ c => ∀ cl, closure = some cl → Underway cl.pk c)
          (erasing_select fun c hc d hd cl hcl => hd.stays_underway (hc.stays_underway (hun' cl hcl)))
          fun unreceipted c hun'' => ?_
        dsimp only
        split
        · exact safe_ret.mpr fun _ _ => trivial
        · exact certify_erasing hun''

/-- One execution of a closure of the worker's list. -/
theorem executeDeletion_worker {closure : Stored AccountClosureRequest}
    (hgrace : InGrace start closure.pk closure.row.userId)
    (hc : ∃ c, db.closures.get? closure.pk = some c) :
    Beside Abiding (fun _ => True) (WorkerStep start) (fun _ _ => True) (fun _ _ => True)
      (executeDeletion env closure) db := by
  have hidle : ∀ {op : Op}, (∀ pk, op ≠ .cancelUnit pk) →
      (∀ pk, op = .startDeleting pk → pk = closure.pk) → (∀ u, ¬ op.erases u) → ∀ b,
      WorkerStep start op b b := fun hop hstart herases b =>
    ⟨fun _ => .refl b, fun _ h => h, hop, fun pk h => ⟨_, hstart pk h ▸ hgrace⟩,
      fun u hu => absurd hu (herases u)⟩
  refine Safe.bind Abiding.refl (P := fun _ b => ∃ c, b.closures.get? closure.pk = some c)
    (Beside.query fun b hb => ⟨hidle (by simp) (by simp) (by simp [Op.erases]) b,
      fun d hd => ?_, fun _ _ _ _ => trivial⟩) fun held b hc => ?_
  · obtain ⟨c, hc⟩ := hc
    obtain ⟨c', hc', -⟩ := Table.Evolves.kept (hb.trans hd) hc
    exact ⟨c', hc'⟩
  · split
    · exact safe_raise.mpr fun _ _ => trivial
    · refine Safe.bind Abiding.refl (P := fun _ b => Underway closure.pk b) ?_ fun id b hun => ?_
      · refine Beside.atomic (fun d hd => ?_) fun d _ _ =>
          ⟨hidle (by simp) (by simp) (by simp [Op.erases]) d, fun _ _ _ => trivial⟩
        obtain ⟨c, hc⟩ := hc
        obtain ⟨c', hc', -⟩ := Table.Evolves.kept hd hc
        refine ⟨⟨fun hguard => .modify rfl fun q hq => ?_, fun pk hpk => ?_, by simp, ?_,
          by simp [Op.erases]⟩, fun d' hd' => hd'.stays_underway
            ⟨_, Table.get?_modify_self _ hc', trivial⟩⟩
        · obtain ⟨q', hq', hst⟩ := closureStatus_eq_some.mp hguard
          rw [hq] at hq'
          obtain rfl := Option.some.inj hq'
          exact ⟨rfl, fun _ => hst, fun h => by rw [hst] at h; exact absurd h (by simp),
            fun _ => trivial⟩
        · obtain ⟨q, hq⟩ := hpk
          rw [Table.get?_modify, hq]
          split <;> exact ⟨_, rfl⟩
        · intro pk hpk
          obtain rfl : closure.pk = pk := by simpa using hpk
          exact ⟨_, hgrace⟩
      · dsimp only
        refine Safe.bind Abiding.refl ((show Erasing closure.row.userId _ _ _ from
          closureErasure_erasing).worker hgrace hun) fun opened c hopened => ?_
        obtain ⟨erasure, created⟩ := opened
        refine Safe.bind Abiding.refl (eraseSubject_erasing.worker hgrace hopened.2)
          fun erased d herased => ?_
        obtain ⟨hpk, hun₂⟩ := herased
        cases erased with
        | none => exact safe_ret.mpr fun _ _ => trivial
        | some done =>
            refine ((maybeFinalize_erasing fun cl hcl => ?_).worker hgrace hun₂).post
              (fun _ _ _ => trivial) fun _ _ _ => trivial
            cases created with
            | false => exact absurd hcl (by simp)
            | true =>
                obtain rfl : done = cl := by simpa using hcl
                rw [hpk done rfl]
                exact hun₂

/-- A run of the worker. -/
theorem processExpiredGracePeriods_worker (hstart : Abiding start db) :
    Beside Abiding (fun _ => True) (WorkerStep start) (fun _ _ => True) (fun _ _ => True)
      (processExpiredGracePeriods env) db := by
  -- what is left of the list was in grace at the start, and its rows stand
  let J : List (Stored AccountClosureRequest) → Db → Prop := fun rest b => ∀ closure ∈ rest,
    InGrace start closure.pk closure.row.userId ∧ ∃ c, b.closures.get? closure.pk = some c
  have hidle : ∀ b, WorkerStep start .select b b := fun b =>
    ⟨fun _ => .refl b, fun _ h => h, by simp, by simp, by simp [Op.erases]⟩
  have hkept : ∀ rest b c, (∀ pk, (∃ q, b.closures.get? pk = some q) →
      ∃ q, c.closures.get? pk = some q) → J rest b → J rest c :=
    fun rest b c h hJ closure hmem => ⟨(hJ closure hmem).1, h _ (hJ closure hmem).2⟩
  have habiding : ∀ {b c}, Abiding b c → ∀ pk, (∃ q, b.closures.get? pk = some q) →
      ∃ q, c.closures.get? pk = some q := by
    rintro b c h pk ⟨q, hq⟩
    obtain ⟨q', hq', -⟩ := Table.Evolves.kept h hq
    exact ⟨q', hq'⟩
  refine Safe.bind Abiding.refl (P := J) (Beside.query fun b hb => ⟨hidle b, fun c hc closure hmem =>
    ?_, fun _ _ _ _ => trivial⟩) fun expired b hJ => ?_
  · obtain ⟨hget, hexp⟩ := Table.mem_select.mp hmem
    simp only [Bool.and_eq_true, decide_eq_true_eq] at hexp
    exact ⟨(hstart.trans hb).inGrace hget hexp.1.1, habiding hc _ ⟨_, hget⟩⟩
  · refine (Beside.forM Abiding.refl (J := J) (fun closure rest c hc => ?_)
      (fun rest c d h => hkept rest c d (habiding h)) hJ).post (fun _ _ _ => trivial) fun _ _ h => h
    obtain ⟨hgrace, hrow⟩ := hc closure List.mem_cons_self
    refine (Beside.inv (M := WorkerStep start) (Q := fun _ _ => True) (E := fun _ _ => True)
      (I := J rest) ?_ (fun c d h => hkept rest c d (habiding h))
      (fun _ c d h => hkept rest c d h.kept) fun x hx => hc x (List.mem_cons_of_mem closure hx)).imp
      (fun _ _ _ _ h => h.1) (fun _ _ h => h.2) fun _ _ _ => trivial
    exact Safe.tryCatch Abiding.refl (X := fun _ _ => True) (executeDeletion_worker hgrace hrow)
      fun _ _ _ => safe_ret.mpr fun _ _ => trivial

/-! ### The cancellation -/

/-- What the cancellation's statements do: one write, on a closure the user had in grace. -/
structure CancellerStep (start : Db) (userId : UserId) (op : Op) (a b : Db) : Prop where
  abiding : Guarded op a → Abiding a b
  commits : ∀ pk, op = .cancelUnit pk → InGrace start pk userId ∧
    b.closureStatus pk = some .cancelled
  reads : (∀ pk, op ≠ .cancelUnit pk) → b = a
  starts : ∀ pk, op ≠ .startDeleting pk
  erases : ∀ u, ¬ op.erases u

/-- A closure the user had in grace is cancelled. -/
def Committed (start : Db) (userId : UserId) (db : Db) : Prop :=
  ∃ pk, InGrace start pk userId ∧ db.closureStatus pk = some .cancelled

/-- A cancellation that returned has cancelled a closure the user had in grace; one that
raised found none. -/
theorem cancelClosure_canceller (hstart : Abiding start db) :
    Beside Abiding (fun _ => False) (CancellerStep start userId)
      (fun _ b => Committed start userId b) (fun e _ => e = Error.valueError "no_active_closure")
      (cancelClosure env userId) db := by
  refine Safe.bind Abiding.refl (P := fun found b => ∀ closure, found = some closure →
    InGrace start closure.pk userId ∧ ∃ c, b.closures.get? closure.pk = some c)
    (Beside.query fun b hb => ⟨⟨fun _ => .refl b, by simp, fun _ => rfl, by simp, by simp [Op.erases]⟩,
      fun c hc closure hfound => ?_, fun h => h.elim⟩) fun found b hfound => ?_
  · obtain ⟨hget, hsel⟩ := Table.first?_some hfound
    simp only [Bool.and_eq_true, decide_eq_true_eq] at hsel
    obtain ⟨c', hc', -⟩ := Table.Evolves.kept hc hget
    exact ⟨hsel.1 ▸ (hstart.trans hb).inGrace hget hsel.2, c', hc'⟩
  · cases found with
    | none => exact safe_raise.mpr fun _ _ => rfl
    | some closure =>
        obtain ⟨hgrace, c, hc⟩ := hfound closure rfl
        refine Beside.atomic (fun d hd => ?_) fun _ _ h => h.elim
        obtain ⟨c', hc', -⟩ := Table.Evolves.kept hd hc
        dsimp only
        rw [setActive_eq]
        have hcancelled : ∀ b : Db, b.closures = d.closures.modify closure.pk (·.cancel env.now) →
            b.closureStatus closure.pk = some .cancelled := fun b hb =>
          closureStatus_eq_some.mpr ⟨_, by rw [hb]; exact Table.get?_modify_self _ hc', rfl⟩
        refine ⟨⟨fun hguard => .modify (f := (·.cancel env.now)) rfl fun q hq => ?_,
          fun pk hpk => ?_, fun h => absurd rfl (h closure.pk), by simp, by simp [Op.erases]⟩,
          fun b hb => ⟨closure.pk, hgrace, hb.stays_cancelled (hcancelled _ rfl)⟩⟩
        · obtain ⟨q', hq', hst⟩ := closureStatus_eq_some.mp hguard
          rw [hq] at hq'
          obtain rfl := Option.some.inj hq'
          refine ⟨rfl, fun h => absurd h (by simp [AccountClosureRequest.cancel]), fun _ => rfl,
            fun h => ?_⟩
          rw [hst] at h
          exact h.elim
        · obtain rfl : closure.pk = pk := by simpa using hpk
          exact ⟨hgrace, hcancelled _ rfl⟩

/-! ### The race -/

/-- The steps of the two sides. -/
def PartyStep (start : Db) (userId : UserId) : Party → Op → Db → Db → Prop
  | .worker, op, a, b => WorkerStep start op a b
  | .canceller, op, a, b => CancellerStep start userId op a b

/-- Where the two sides may end. -/
def PartyReturns (start : Db) (userId : UserId) : Party → Db → Prop
  | .worker, _ => True
  | .canceller, b => Committed start userId b

def PartyRaises : Party → Error → Prop
  | .worker, _ => True
  | .canceller, e => e = .valueError "no_active_closure"

theorem race_safe (worker canceller : Env) (userId : UserId) (start : Db) :
    Pool.Safe (fun _ => Abiding) Party.may (fun k l a b _ => PartyStep start userId k l a b)
      (fun k _ b => PartyReturns start userId k b) (fun k e _ => PartyRaises k e)
      (race worker canceller userId) start
  | .worker => processExpiredGracePeriods_worker (.refl start)
  | .canceller => Safe.bind Abiding.refl (cancelClosure_canceller (.refl start))
      fun _ _ ⟨pk, hgrace, hst⟩ => safe_ret.mpr fun _ hc => ⟨pk, hgrace, hc.stays_cancelled hst⟩

variable {worker canceller : Env} {tr : List Moment} {P : Pool Op Db Error Unit Party}

/-- In a guarded race every statement abides and is one its side describes. -/
theorem guarded_race (hrun : Pool.Runs Party.may (race worker canceller userId) start tr P db)
    (hguard : ∀ e ∈ tr, e.ok = true → Guarded e.label e.before) :
    Pool.Safe (fun _ => Abiding) Party.may (fun k l a b _ => PartyStep start userId k l a b)
      (fun k _ b => PartyReturns start userId k b) (fun k e _ => PartyRaises k e) P db ∧
    ∀ e ∈ tr, PartyStep start userId e.thread e.label e.before e.after ∧
      Abiding e.before e.after := by
  have habiding : ∀ e : Moment, PartyStep start userId e.thread e.label e.before e.after →
      ((e.ok = true → Guarded e.label e.before) ∧ (e.ok = false → e.after = e.before)) →
      Abiding e.before e.after := by
    intro e hstep ⟨hg, hsame⟩
    cases hok : e.ok with
    | false =>
        rw [hsame hok]
        exact .refl _
    | true =>
        cases hk : e.thread with
        | worker => rw [hk] at hstep; exact WorkerStep.abiding hstep (hg hok)
        | canceller => rw [hk] at hstep; exact CancellerStep.abiding hstep (hg hok)
  have hH : ∀ e ∈ tr, (e.ok = true → Guarded e.label e.before) ∧
      (e.ok = false → e.after = e.before) := fun e he =>
    ⟨hguard e he, fun hok => (hrun.failed e he hok).1⟩
  obtain ⟨hend, hall⟩ := hrun.safe (fun _ => Abiding.refl) (fun _ => Abiding.trans)
    (fun e _ hstep hH j _ => habiding e hstep hH) (race_safe worker canceller userId start) hH
  refine ⟨hend, fun e he => ?_⟩
  obtain ⟨_, hstep⟩ := hall e he
  exact ⟨hstep, habiding e hstep (hH e he)⟩

/-- The one closure the user had in grace. -/
theorem inGrace_unique (h : OneGrace start.toLedger) {i j : Nat} (hi : InGrace start i userId)
    (hj : InGrace start j userId) : i = j := by
  obtain ⟨c, hc, hst, hu⟩ := hi
  obtain ⟨c', hc', hst', hu'⟩ := hj
  exact h i j c c' hc hc' hst hst' (hu.trans hu'.symm)

variable {e : Moment}

/-- Only the cancellation commits CANCELLED, on the closure the user had in grace. -/
theorem PartyStep.cancels (h : PartyStep start userId e.thread e.label e.before e.after)
    (hop : e.label = .cancelUnit pk) :
    InGrace start pk userId ∧ e.after.closureStatus pk = some .cancelled := by
  cases hk : e.thread with
  | worker => rw [hk] at h; exact absurd hop (WorkerStep.cancels h pk)
  | canceller => rw [hk] at h; exact CancellerStep.commits h pk hop

/-- Only the worker starts a deletion, of a closure of its list. -/
theorem PartyStep.starts (h : PartyStep start userId e.thread e.label e.before e.after)
    (hop : e.label = .startDeleting pk) : ∃ u, InGrace start pk u := by
  cases hk : e.thread with
  | worker => rw [hk] at h; exact WorkerStep.starts h pk hop
  | canceller => rw [hk] at h; exact absurd hop (CancellerStep.starts h pk)

/-- Only the worker erases, on behalf of a closure under erasure. -/
theorem PartyStep.erases {u : UserId}
    (h : PartyStep start userId e.thread e.label e.before e.after) (hop : e.label.erases u) :
    ∃ pk, InGrace start pk u ∧ Underway pk e.before := by
  cases hk : e.thread with
  | worker => rw [hk] at h; exact WorkerStep.erases h u hop
  | canceller => rw [hk] at h; exact absurd hop (CancellerStep.erases h u)

/-- The worker starts the deletion, and the cancellation comes after it. -/
def late : List Moment × Pool Op Db Error Unit Party × Db :=
  Pool.schedule [.worker, .worker, .worker, .canceller]
    (race (deploymentOn 30) (deploymentOn 30) "u1") closing

/-- The cancellation commits between the worker's query and its first write. -/
def interrupted : List Moment × Pool Op Db Error Unit Party × Db :=
  Pool.schedule ([.worker, .canceller, .canceller] ++ List.replicate 8 .worker)
    (race (deploymentOn 30) (deploymentOn 30) "u1") closing

end StapelGdpr
