import StapelGdpr.Promises

/-!
# StapelGdpr.Confluence

Receipts and local erasure, in any order. The deliveries of `mark_section_erased` for one request
and, when it is a closure's, its execution are interleaved statement by statement. Every one of
them ends in a finalization of its own, from its own copy of the request.

`confluence` says that they come to one end: whoever makes the last receipt or the last flag
visible goes on to flip the request, and whoever flips it first goes on to record the obligations
and to delete the closure.
-/

namespace StapelGdpr

open Prog

/-- No closure is DELETED before it is erased locally. -/
theorem Reachable.deleted_erased {s : Db} (h : Reachable s) {k : Nat} {c : AccountClosureRequest}
    (hc : s.closures.get? k = some c) (hdel : c.status = .deleted) : c.localErasureDone = true := by
  have hall : ∀ k c, s.closures.get? k = some c → c.status = .deleted →
      c.localErasureDone = true := by
    apply h.induct (P := fun db => ∀ k c, db.closures.get? k = some c → c.status = .deleted →
      c.localErasureDone = true)
    · intro env op a b hm ha k c hc hdel
      rcases hm.closures.row hc with ⟨c₀, hc₀, hstep⟩ | ⟨-, hnew⟩
      · cases hstep with
        | same => exact ha k c hc₀ hdel
        | cancelled | started => exact absurd hdel (by
            simp [AccountClosureRequest.cancel, AccountClosureRequest.startDeleting])
        | identityErased => exact ha k c₀ hc₀ hdel
        | localDone => rfl
        | deleted herased => exact (AccountClosureRequest.erased_iff.mp herased).2.1
      · obtain ⟨userId, trigger, rfl⟩ := hnew.opened
        exact absurd hdel (by simp [newClosure])
    · intro a users holds hashes ha
      exact ha
    · intro k c hc
      exact absurd hc (by simp [Table.get?])
  exact hall k c hc hdel

namespace JointErasure

variable {j : JointErasure} {op : Op} {a b s : Db} {k : Nat}

/-! ### The calls together -/

/-- The calls that finish an erasure between them. -/
inductive Participant
  /-- A receipt of one owner. -/
  | delivery (service receiptId : String) (counts : Counts)
  /-- The execution of the closure, which finds the request. -/
  | execution (closure : Stored AccountClosureRequest)
  /-- The execution that has just opened the request, from there on. -/
  | opened (closure : Stored AccountClosureRequest) (erasure : Stored ErasureRequest)

namespace Participant

def executes : Participant → Bool
  | delivery .. => false
  | execution _ | opened .. => true

/-- The code that is left to run. -/
def prog (j : JointErasure) (now : Time) : Participant → Program Unit
  | delivery service receiptId counts =>
      markSectionErased (j.envAt now) j.correlationId service receiptId counts
  | execution closure => executeDeletion (j.envAt now) closure
  | opened closure erasure => deleteLocally (j.envAt now) closure.row.userId erasure >>=
      finishDeletion (j.envAt now) closure j.correlationId erasure true

/-- What the call leaves behind. -/
def leaves (j : JointErasure) : Participant → Db → Prop
  | delivery service _ _, t => j.Answered service t.toLedger
  | execution _, _ | opened .., _ => True

end Participant

section Together

variable {κ : Type} [DecidableEq κ] {calls : κ → Time × Participant} {start final : Db}

/-- One thread for each call, each with its own clock. -/
def participants (j : JointErasure) (calls : κ → Time × Participant) :
    Pool Op Db Error Unit κ :=
  fun i => (calls i).2.prog j (calls i).1

/-- The store in which they begin: the request is open, its parts are slots of its claiming owners,
and something is left to do. -/
structure Begins (j : JointErasure) (start : Db) : Prop where
  reachable : Reachable start
  request : ∃ r, start.requests.get? j.pk = some r ∧ r.correlationId = some j.correlationId ∧
    r.subjectType = j.subjectType ∧ r.closure = j.closure ∧ r.state.isOpen = true
  parts : ∀ i p, start.parts.get? i = some p → p.request = j.pk → ∃ o ∈ j.owners, o.name = p.owner
  /-- What owners have recorded before is of processors that are still declared. -/
  declared : ∀ i o, start.obligations.get? i = some o → o.request = j.pk →
    o.provider ∈ j.env.settings.processors
  /-- The execution is still to set the flag. -/
  closure : ∀ k, j.closure = some k → Unflagged k start.toLedger
  /-- Without a closure, some receipt is still to come in. -/
  waiting : j.closure = none → ¬ AllDone start.toLedger j.pk

/-- The calls: deliveries of this request, at least one for every owner that is not receipted in
process, and for a closure's request one execution. -/
structure Joined (j : JointErasure) (start : Db) (calls : κ → Time × Participant) : Prop where
  delivered : ∀ o ∈ j.owners, o.isLocal = false ∨ j.closure = none →
    ∃ i receiptId counts, (calls i).2 = .delivery o.name receiptId counts
  execution : ∀ i closure, (calls i).2 = .execution closure →
    j.closure = some closure.pk ∧ closure.row.correlationId = some j.correlationId
  opened : ∀ i closure erasure, (calls i).2 = .opened closure erasure →
    j.closure = some closure.pk ∧ erasure.pk = j.pk ∧
      start.requests.get? j.pk = some erasure.row ∧ Deleting closure.pk start.toLedger
  one : ∀ i i', (calls i).2.executes = true → (calls i').2.executes = true → i = i'

/-- Where every order ends. -/
structure Concluded (j : JointErasure) (l : Ledger) : Prop where
  request : ∃ r, l.requests.get? j.pk = some r ∧ r.state = .deleted ∧ r.completenessWaived = false
  closure : ∀ k, j.closure = some k → ∃ c, l.closures.get? k = some c ∧ c.status = .deleted
  parts : AllDone l j.pk
  obligations : OneEach l j.pk j.env.settings.processors
  /-- And there are no others. -/
  only : ∀ i o, l.obligations.get? i = some o → o.request = j.pk →
    o.provider ∈ j.env.settings.processors

theorem Begins.unflipped (h : j.Begins start) : ¬ j.Flipped start.toLedger := by
  obtain ⟨r, hr, -, -, -, hopen⟩ := h.request
  intro ⟨r', hr', hdel⟩
  obtain rfl := Option.some.inj (hr.symm.trans hr')
  exact ErasureState.ne_deleted hopen hdel

theorem Begins.sound (h : j.Begins start) : j.Sound start.toLedger := by
  obtain ⟨r, hr, hid, htype, hclosure, hopen⟩ := h.request
  refine ⟨⟨r, hr, hid, htype, hclosure, .inl hopen⟩, h.reachable.correlated, h.reachable.slotted,
    fun hf => absurd hf h.unflipped, fun k hk => ?_, h.declared, h.reachable.obliged⟩
  obtain ⟨c, hc, hdone⟩ := h.closure k hk
  refine ⟨c, hc, fun hset => ?_, fun hdel => ?_⟩
  · rw [hdone] at hset
    exact absurd hset (by simp)
  · rw [h.reachable.deleted_erased hc hdel] at hdone
    exact absurd hdone (by simp)

theorem Begins.uncleared (h : j.Begins start) : ¬ j.Cleared start.toLedger := by
  cases hk : j.closure with
  | none => exact fun hcleared => h.waiting hk hcleared.receipts
  | some k => exact (h.closure k hk).uncleared hk

omit [DecidableEq κ] in
/-- Every call keeps its promises, and leaves what it is for. -/
theorem participants_judged (hg : ∀ i, j.Gated (calls i).1) (hb : j.Begins start)
    (hc : j.Joined start calls) :
    Pool.Safe (fun i => j.Relies (calls i).2.executes) (fun _ _ => False)
      (fun i => j.Promise (calls i).2.executes) (fun i _ => (calls i).2.leaves j)
      (fun i _ => (calls i).2.leaves j) (participants j calls) start := by
  have hs := hb.sound
  intro i
  have hgated := hg i
  have hexecution := hc.execution i
  have hopened := hc.opened i
  show j.Judged (calls i).2.executes (fun _ => (calls i).2.leaves j)
    (fun _ => (calls i).2.leaves j) ((calls i).2.prog j (calls i).1) start
  generalize calls i = call at hgated hexecution hopened
  obtain ⟨now, call⟩ := call
  cases call with
  | delivery service receiptId counts => exact markSectionErased_judged hgated hs
  | execution closure =>
      obtain ⟨hk, hid⟩ := hexecution closure rfl
      exact executeDeletion_judged hgated hk hid hs (hb.closure _ hk)
  | opened closure erasure =>
      obtain ⟨hk, hpk, hrow, hdeleting⟩ := hopened closure erasure rfl
      obtain ⟨r, hr, hid, htype, hclosure, hopen⟩ := hb.request
      obtain rfl := Option.some.inj (hr.symm.trans hrow)
      exact deletion_judged hgated hk hpk ⟨hid, htype, hclosure, .inl hopen⟩ hopen hs hdeleting

omit [DecidableEq κ] in
/-- What one call does is among what the others rely on. -/
theorem Effect.relied (hone : ∀ i i', (calls i).2.executes = true → (calls i').2.executes = true →
      i = i') {i i' : κ} (h : j.Effect (calls i).2.executes op a b) (hne : i' ≠ i) :
    j.Relies (calls i').2.executes a b := by
  apply h.1.mono
  intro hexecutes
  cases hi : (calls i).2.executes with
  | false => rfl
  | true => exact absurd (hone i' i hexecutes hi) hne

/-- **Receipts and local erasure are confluent.** In whatever order the statements of the
deliveries and of the execution come, when every call has ended and the execution has got as far
as `user.deleted`, the request is DELETED and not waived, its closure is DELETED, every part is
DONE, and there is one obligation for each declared processor. -/
theorem confluence (hg : ∀ i, j.Gated (calls i).1) (hb : j.Begins start) (hc : j.Joined start calls)
    {tr : List (Pool.Event κ Op Db)} {P : Pool Op Db Error Unit κ}
    (hrun : Pool.Runs (fun _ _ => False) (participants j calls) start tr P final)
    (hdone : Pool.Done P)
    (hexecuted : ∀ k, j.closure = some k → ∃ e ∈ tr, e.label = .localDoneUnit k) :
    j.Concluded final.toLedger := by
  have hrefl : ∀ i a, j.Relies (calls i).2.executes a a := fun i a => .refl _ a
  have htrans : ∀ i {a b c}, j.Relies (calls i).2.executes a b →
      j.Relies (calls i).2.executes b c → j.Relies (calls i).2.executes a c :=
    fun i _ _ _ h h' => h.trans h'
  have hothers : ∀ i op a b, j.Effect (calls i).2.executes op a b → ∀ i', i' ≠ i →
      j.Relies (calls i').2.executes a b := fun i op a b h i' hne => h.relied hc.one hne
  have hjudged := participants_judged hg hb hc
  obtain ⟨hend, hevents⟩ := hrun.safe hrefl htrans (H := fun _ => True)
    (fun e p hp _ => hothers e.thread e.label e.before e.after hp.1) hjudged fun _ _ => trivial
  have heffect : ∀ e ∈ tr, j.Effect (calls e.thread).2.executes e.label e.before e.after := by
    intro e he
    obtain ⟨p, hp⟩ := hevents e he
    exact hp.1
  obtain ⟨⟨hsf, hadv⟩, hall⟩ := hrun.chain
    (I := fun t => j.Sound t.toLedger ∧ j.Advances start.toLedger t.toLedger)
    (fun e he h => ⟨(heffect e he).sound h.1, h.2.trans ((heffect e he).advances h.1)⟩)
    ⟨hb.sound, .refl _⟩
  have hlocal : ∀ k, j.closure = some k → j.LocalsAnswered final.toLedger ∧
      j.LocallyErased final.toLedger := by
    intro k hk
    obtain ⟨e, he, hlabel⟩ := hexecuted k hk
    have hset := (heffect e he).2 k hlabel (hall e he).1.1
    obtain ⟨pre, post, rfl⟩ := List.append_of_mem he
    obtain ⟨P₁, s₁, -, hfrom⟩ := hrun.split
    obtain ⟨-, P₂, hafter⟩ := hfrom.head
    have hpost : ∀ e' ∈ post, e' ∈ pre ++ e :: post := fun e' he' =>
      List.mem_append_right _ (List.mem_cons_of_mem _ he')
    obtain ⟨⟨-, hlocals, herased⟩, -⟩ := hafter.chain (I := fun t => j.Sound t.toLedger ∧
      j.LocalsAnswered t.toLedger ∧ j.LocallyErased t.toLedger)
      (fun e' he' h => by
        have hstep := heffect e' (hpost e' he')
        have hadv' := hstep.advances h.1
        exact ⟨hstep.sound h.1, fun o ho hlocal => hadv'.answered (h.2.1 o ho hlocal),
          hadv'.locallyErased h.2.2⟩) ⟨(hall e he).2.1, hset⟩
    exact ⟨hlocals, herased⟩
  have hreceipts : AllDone final.toLedger j.pk := by
    intro i p' hp' hreq
    obtain ⟨p, hp, hkept⟩ := (hadv.parts.row hp').resolve_right fun hnew => hnew.2
    obtain ⟨o, ho, howner⟩ := hb.parts i p hp (hkept.1.symm.trans hreq)
    have hanswered : j.Answered o.name final.toLedger := by
      by_cases hremote : o.isLocal = false ∨ j.closure = none
      · obtain ⟨i', receiptId, counts, hcall⟩ := hc.delivered o ho hremote
        have hleaves : (calls i').2.leaves j final := by
          rcases hend.finished hrefl (hdone i') with ⟨_, -, h⟩ | ⟨_, -, h⟩
          · exact h
          · exact h
        rw [hcall] at hleaves
        exact hleaves
      · obtain ⟨hinprocess, hsome⟩ := not_or.mp hremote
        obtain ⟨k, hk⟩ := Option.ne_none_iff_exists'.mp hsome
        exact (hlocal k hk).1 o ho (by simpa using hinprocess)
    exact hanswered i p' hp' hreq (hkept.2.1.trans howner.symm)
  have hcleared : j.Cleared final.toLedger :=
    ⟨hreceipts, fun k hk => (hlocal k hk).2 k hk⟩
  -- whoever cleared the way has flipped the request, and whoever flipped it has finished
  have hflipped : j.Flipped final.toLedger := by
    refine Pool.Runs.handoff (A := fun t => j.Cleared t.toLedger)
      (F := fun t => j.Flipped t.toLedger) hrefl htrans hothers (fun i => ?_) hrun hdone
      hb.uncleared hcleared
    exact (hjudged i).imp (fun _ _ _ _ hp => ⟨hp.1, hp.2.1⟩) (fun _ _ _ => trivial)
      fun _ _ _ => trivial
  have hfinished : j.Finished final.toLedger := by
    refine Pool.Runs.handoff (A := fun t => j.Flipped t.toLedger)
      (F := fun t => j.Finished t.toLedger) hrefl htrans hothers (fun i => ?_) hrun hdone
      hb.unflipped hflipped
    exact (hjudged i).imp (fun _ _ _ _ hp => ⟨hp.1, hp.2.2⟩) (fun _ _ _ => trivial)
      fun _ _ _ => trivial
  refine ⟨?_, hfinished.closure, hreceipts, fun name hname => ?_, hsf.declared⟩
  · obtain ⟨r, hr, hrow⟩ := hsf.request
    obtain ⟨r', hr', hdel⟩ := hflipped
    obtain rfl := Option.some.inj (hr.symm.trans hr')
    rcases hrow.state with hopen | ⟨-, hunwaived⟩
    · exact absurd hdel (ErasureState.ne_deleted hopen)
    · exact ⟨r, hr, hdel, hunwaived⟩
  · obtain ⟨i, o, ho, hp⟩ := Table.any_eq_true.mp (hfinished.obligations name hname)
    simp only [Bool.and_eq_true, decide_eq_true_eq] at hp
    refine ⟨i, ⟨o, ho, hp⟩, fun i' h' => ?_⟩
    obtain ⟨o', ho', hreq', hprov'⟩ := h'
    exact hsf.unique i' i o' o ho' ho (hreq'.trans hp.1.symm) (hprov'.trans hp.2.symm)

end Together

/-! ### Two runs -/

/-- The account's closure, when the provider in process raised in its first execution. -/
def interrupted : Db := (Call.executeDeletion closed).afterFault (deploymentOn 30) 7 closing

theorem reachable_interrupted : Reachable interrupted := by
  have hloaded : ∃ c, closing.closures.get? closed.pk = some c :=
    ⟨_, Option.some_get (x := closing.closures.get? 0) (by decide +kernel) |>.symm⟩
  exact reachable_closing.runFault (.executeDeletion _) _ _ hloaded

def restarted : JointErasure where
  env := deploymentOn 30
  pk := 0
  correlationId := 0
  subjectType := subjectAccount
  closure := some 0
  sound := by decide +kernel

/-- The second execution, and the receipt of the remote owner. -/
def restart : Bool → Time × Participant
  | true => (days 31, .execution ⟨0, (interrupted.closures.get? 0).get (by decide +kernel)⟩)
  | false => (days 31, .delivery "media" "job-7" [])

/-- They take turns. -/
def turns : List (Pool.Event Bool Op Db) × Pool Op Db Error Unit Bool × Db :=
  Pool.schedule (List.replicate 30 [true, false]).flatten (participants restarted restart)
    interrupted

/-- A property of every part, from the rows. -/
theorem parts_of_rows {db : Db} {P : ErasurePart → Prop} (h : ∀ p ∈ db.parts.rows, P p) {i : Nat}
    {part : ErasurePart} (hp : db.parts.get? i = some part) : P part :=
  h part (List.mem_of_getElem? hp)

theorem begins_interrupted : restarted.Begins interrupted where
  reachable := reachable_interrupted
  request := by
    have hrow : (interrupted.requests.get? 0).map (fun r =>
        (r.correlationId, r.subjectType, r.closure, r.state.isOpen)) =
          some (some 0, subjectAccount, some 0, true) := by decide +kernel
    obtain ⟨r, hr, heq⟩ := Option.map_eq_some_iff.mp hrow
    simp only [Prod.mk.injEq] at heq
    exact ⟨r, hr, heq⟩
  parts := by
    have hrows : ∀ p ∈ interrupted.parts.rows, ∃ o ∈ restarted.owners, o.name = p.owner := by
      decide +kernel
    exact fun i p hp _ => parts_of_rows hrows hp
  declared := by
    have hrows : interrupted.obligations.rows = [] := by decide +kernel
    exact fun i o ho _ => absurd ho (by simp [Table.get?, hrows])
  closure := by
    have hrow : (interrupted.closures.get? 0).map (·.localErasureDone) = some false := by
      decide +kernel
    intro k hk
    obtain rfl : 0 = k := Option.some.inj hk
    exact Option.map_eq_some_iff.mp hrow
  waiting hnone := absurd hnone (by simp [restarted])

theorem joined_restart : restarted.Joined interrupted restart where
  delivered := by
    have hremote : ∀ o ∈ restarted.owners, o.isLocal = false → o.name = "media" := by decide +kernel
    intro o ho h
    have hname := hremote o ho (h.resolve_right (by simp [restarted]))
    exact ⟨false, "job-7", [], by rw [hname]; rfl⟩
  execution := by
    have hid : ((interrupted.closures.get? 0).map (·.correlationId)) = some (some 0) := by
      decide +kernel
    intro i closure hcall
    cases i with
    | false => exact absurd hcall (by simp [restart])
    | true =>
        obtain rfl := Participant.execution.inj hcall
        obtain ⟨c, hc, hcid⟩ := Option.map_eq_some_iff.mp hid
        refine ⟨rfl, ?_⟩
        simp only [hc, Option.get_some]
        exact hcid
  opened i closure erasure hcall := by
    cases i <;> exact absurd hcall (by simp [restart])
  one i i' hi hi' := by
    cases i <;> cases i' <;> simp_all [restart, Participant.executes]

theorem confluence_turns : restarted.Concluded turns.2.2.toLedger := by
  have hdone : ∀ i, (turns.2.1 i).Done := by decide +kernel
  have hexecuted : turns.1.any (fun e => e.label = .localDoneUnit 0) = true := by decide +kernel
  have hgated : restarted.Gated (days 31) :=
    ⟨by decide +kernel, by decide +kernel, [("mailer", 30)],
      deployment_declares (n := 31) (by decide)⟩
  refine confluence (fun i => by cases i <;> exact hgated) begins_interrupted joined_restart
    (Pool.runs_schedule _ _ _ _) hdone fun k hk => ?_
  obtain rfl : 0 = k := Option.some.inj hk
  obtain ⟨e, he, hlabel⟩ := List.any_eq_true.mp hexecuted
  exact ⟨e, he, by simpa using hlabel⟩

/-- Two remote owners of documents, and the escape hatch. -/
def hatched : JointErasure where
  env := { settings := {
    dataOwners := .map [("media", .subjects (some (.one "document"))),
      ("files", .subjects (some (.one "document")))]
    allowErasureWithoutReceipts := true } }
  pk := 0
  correlationId := 0
  subjectType := "document"
  closure := none
  sound := by decide +kernel

/-- One document is to be erased. -/
def requested : Db := (Call.requestErasure "document" "d1" {}).after hatched.env (storeOf [])

/-- One receipt of each owner. -/
def receipts : Bool → Time × Participant
  | true => (0, .delivery "media" "job-1" [])
  | false => (0, .delivery "files" "job-2" [])

/-- The second comes after the first. -/
def inTurn : List (Pool.Event Bool Op Db) × Pool Op Db Error Unit Bool × Db :=
  Pool.schedule (List.replicate 10 true ++ List.replicate 10 false) (participants hatched receipts)
    requested

/-- With the hatch open the first receipt certifies, waived. -/
theorem first_receipt_waives : ¬ ∀ (j : JointErasure) (calls : Bool → Time × Participant)
    (start final : Db) (tr : List (Pool.Event Bool Op Db)) (P : Pool Op Db Error Unit Bool),
    j.Begins start → j.Joined start calls →
    Pool.Runs (fun _ _ => False) (participants j calls) start tr P final → Pool.Done P →
    (∀ k, j.closure = some k → ∃ e ∈ tr, e.label = .localDoneUnit k) →
    j.Concluded final.toLedger := by
  intro hclaim
  have hbegins : hatched.Begins requested := {
    reachable := (reachable_storeOf _).run (.requestErasure _ _ _) _ trivial
    request := by
      have hrow : (requested.requests.get? 0).map (fun r =>
          (r.correlationId, r.subjectType, r.closure, r.state.isOpen)) =
            some (some 0, "document", none, true) := by decide +kernel
      obtain ⟨r, hr, heq⟩ := Option.map_eq_some_iff.mp hrow
      simp only [Prod.mk.injEq] at heq
      exact ⟨r, hr, heq⟩
    parts := by
      have hrows : ∀ p ∈ requested.parts.rows, ∃ o ∈ hatched.owners, o.name = p.owner := by
        decide +kernel
      exact fun i p hp _ => parts_of_rows hrows hp
    declared := by
      have hrows : requested.obligations.rows = [] := by decide +kernel
      exact fun i o ho _ => absurd ho (by simp [Table.get?, hrows])
    closure := fun k hk => absurd hk (by simp [hatched])
    waiting := by
      have hpart : (requested.parts.get? 0).map (fun p => (p.request, p.state)) =
          some (0, .pending) := by decide +kernel
      intro _ hall
      obtain ⟨p, hp, heq⟩ := Option.map_eq_some_iff.mp hpart
      obtain ⟨hreq, hstate⟩ := Prod.mk.inj heq
      have hdone := hall 0 p hp hreq
      rw [hstate] at hdone
      exact absurd hdone (by simp) }
  have hjoined : hatched.Joined requested receipts := {
    delivered := by
      have hnames : ∀ o ∈ hatched.owners, o.name = "media" ∨ o.name = "files" := by decide +kernel
      intro o ho _
      rcases hnames o ho with hname | hname
      · exact ⟨true, "job-1", [], by rw [hname]; rfl⟩
      · exact ⟨false, "job-2", [], by rw [hname]; rfl⟩
    execution := fun i closure hcall => by cases i <;> exact absurd hcall (by simp [receipts])
    opened := fun i closure erasure hcall => by
      cases i <;> exact absurd hcall (by simp [receipts])
    one := fun i i' hi _ => by
      cases i <;> exact absurd hi (by simp [receipts, Participant.executes]) }
  have hdone : ∀ i, (inTurn.2.1 i).Done := by decide +kernel
  have hwaived : (inTurn.2.2.requests.get? 0).map (·.completenessWaived) = some true := by
    decide +kernel
  obtain ⟨r, hr, -, hunwaived⟩ := (hclaim hatched receipts requested _ _ _ hbegins hjoined
    (Pool.runs_schedule _ _ _ _) hdone fun k hk => absurd hk (by simp [hatched])).request
  rw [show inTurn.2.2.requests.get? 0 = some r from hr, Option.map_some, hunwaived] at hwaived
  exact absurd hwaived (by simp)

end JointErasure

end StapelGdpr
