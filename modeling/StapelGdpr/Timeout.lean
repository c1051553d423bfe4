import StapelGdpr.Invariants
import StapelGdpr.Statements

/-!
# StapelGdpr.Timeout

The deadline sweep and its announcements. A sweep times out parts in one statement, and
announces them request by request in units of their own, for the requests that are still
open. A part it timed out is never looked at again, so its owner is named by that sweep or
by none.

`timeout_announced` is about whole runs: as long as every sweep finds its overdue parts on
open requests and no emit of a sweep fails, every timed-out part has been announced and its
request is closed. `silent_timeout` is a run in which the deadlines of one request are
staggered, and the second owner is never named.
-/

namespace StapelGdpr

open Prog

variable {env : Env} {op : Op} {db db' : Db} {request : Nat} {owner : String}

/-- A committed `gdpr.erasure.timeout` of the request names the owner. -/
def Named (outbox : List Action) (request : Nat) (owner : String) : Prop :=
  ∃ correlationId subjectType subjectKey owners dueAt,
    Action.erasureTimeout request correlationId subjectType subjectKey owners dueAt ∈ outbox ∧
      owner ∈ owners

/-- The request is neither QUEUED nor ERASING. -/
def Closed (l : Ledger) (request : Nat) : Prop :=
  ∃ r, l.requests.get? request = some r ∧ r.state.isOpen = false

/-- The owner's silence has been announced, and its request is closed. -/
def Reported (db : Db) (request : Nat) (owner : String) : Prop :=
  Named db.outbox request owner ∧ Closed db.toLedger request

theorem Named.append {outbox : List Action} (h : Named outbox request owner)
    (new : List Action) : Named (outbox ++ new) request owner := by
  obtain ⟨id, st, sk, owners, due, hmem, howner⟩ := h
  exact ⟨id, st, sk, owners, due, List.mem_append_left new hmem, howner⟩

/-- A report is for ever. -/
theorem Reported.step (h : Reported db request owner) (hm : Move env op db db') :
    Reported db' request owner := by
  obtain ⟨hnamed, r, hr, hclosed⟩ := h
  obtain ⟨new, hnew, -⟩ := hm.emits
  obtain ⟨r', hr', hstep⟩ := hm.requests.kept hr
  refine ⟨hnew ▸ hnamed.append new, r', hr', ?_⟩
  rw [hstep.settled hclosed]
  exact hclosed

/-! ### The invariant -/

/-- Every part a sweep has timed out is reported, also when its receipt came later. -/
def AllReported (db : Db) : Prop :=
  ∀ i p, db.parts.get? i = some p → p.note = timedOutNote → Reported db p.request p.owner

theorem allReported_empty : AllReported {} := fun i p hp =>
  absurd hp (by simp [Table.get?])

/-- Only the sweep's bulk update writes the note. -/
theorem Move.notes (h : Move env op db db') (hop : op ≠ .sweepParts) :
    Table.Evolves (fun _ p p' => p'.request = p.request ∧ p'.owner = p.owner ∧ p'.note = p.note)
      (fun _ p => p.note = "") db.parts db'.parts := by
  have hsame : ∀ (i : Nat) (p : ErasurePart), db.parts.get? i = some p →
      p.request = p.request ∧ p.owner = p.owner ∧ p.note = p.note := fun _ _ _ => ⟨rfl, rfl, rfl⟩
  cases h with
  | partsTimedOut => exact absurd rfl hop
  | obligation hr ho =>
      obtain ⟨-, -, -, rfl⟩ := createObligation_ok ho
      exact .refl hsame
  | erasureOpened ho =>
      obtain ⟨by', -, -, -, -, hdb⟩ := openErasure_ok ho
      rw [hdb]
      refine .insertAll hsame fun _ p hp => ?_
      obtain ⟨o, -, rfl⟩ := mem_slots.mp hp
      rfl
  | localReceipt => exact .modify (fun i p hi _ => hsame i p hi) fun _ _ => ⟨rfl, rfl, rfl⟩
  | receipted request service =>
      refine .update fun i p _ => ?_
      split <;> exact ⟨rfl, rfl, rfl⟩
  | _ => exact .refl hsame

/-- Every statement but that update keeps the invariant. -/
theorem AllReported.step (h : AllReported db) (hm : Move env op db db')
    (hop : op ≠ .sweepParts) : AllReported db' := by
  intro i p' hp' hnote
  rcases (hm.notes hop).row hp' with ⟨p, hp, hreq, howner, hsame⟩ | ⟨-, hempty⟩
  · rw [hreq, howner]
    exact (h i p hp (hsame ▸ hnote)).step hm
  · rw [hempty] at hnote
    exact absurd hnote (by decide)

/-! ### One sweep -/

/-- The condition on a sweep: what it finds overdue belongs to requests still open. -/
def Timely (env : Env) (db : Db) : Prop :=
  ∀ i p, db.parts.get? i = some p → p.overdue env.now = true →
    ∃ r, db.requests.get? p.request = some r ∧ r.state.isOpen = true

/-- The unit of one request reports every owner the sweep found silent on it. -/
theorem reported_announceTimeout {affected : List (Nat × String)} {r : Stored ErasureRequest}
    (hr : db.requests.get? r.pk ≠ none) (howner : (r.pk, owner) ∈ affected) :
    Reported (Db.emit { db with requests := db.requests.modify r.pk (·.timeOut) }
      [.erasureTimeout r.pk r.row.correlationId r.row.subjectType r.row.subjectKey
        (silentOwners affected r.pk) r.row.dueAt]) r.pk owner := by
  obtain ⟨row, hrow⟩ := Option.ne_none_iff_exists'.mp hr
  refine ⟨⟨_, _, _, _, _, List.mem_append_right _ (List.mem_singleton.mpr rfl),
    mem_silentOwners.mpr howner⟩, row.timeOut, Table.get?_modify_self _ hrow, rfl⟩

/-- Timing out another request keeps a report. -/
theorem Reported.announceTimeout {pk : Nat} {actions : List Action}
    (h : Reported db request owner) :
    Reported (Db.emit { db with requests := db.requests.modify pk (·.timeOut) } actions)
      request owner := by
  obtain ⟨hnamed, r, hr, hclosed⟩ := h
  refine ⟨hnamed.append actions, ?_⟩
  by_cases hpk : request = pk
  · subst hpk
    exact ⟨r.timeOut, Table.get?_modify_self _ hr, rfl⟩
  · exact ⟨r, (Table.get?_modify_of_ne _ hpk).trans hr, hclosed⟩

/-- Request and owner of every overdue part: what a sweep remembers of them. -/
def Ledger.overdueOwners (l : Ledger) (now : Time) : List (Nat × String) :=
  (l.parts.select (·.overdue now)).map fun p => (p.row.request, p.row.owner)

theorem mem_overdueOwners {l : Ledger} {now : Time} :
    (request, owner) ∈ l.overdueOwners now ↔ ∃ i p, l.parts.get? i = some p ∧
      p.overdue now = true ∧ p.request = request ∧ p.owner = owner := by
  constructor
  · intro h
    obtain ⟨p, hp, heq⟩ := List.mem_map.mp h
    obtain ⟨hget, hover⟩ := Table.mem_select.mp hp
    obtain ⟨hreq, howner⟩ := Prod.mk.inj heq
    exact ⟨p.pk, p.row, hget, hover, hreq, howner⟩
  · rintro ⟨i, p, hget, hover, rfl, rfl⟩
    exact List.mem_map.mpr ⟨⟨i, p⟩, Table.mem_select.mpr ⟨hget, hover⟩, rfl⟩

/-- A sweep from `start` between two units: `rest` is still to be announced. -/
structure Announcing (now : Time) (start : Db) (rest : List (Stored ErasureRequest)) (db : Db) :
    Prop where
  parts : db.parts = start.parts.update (·.overdue now) (·.timeOut)
  present : ∀ pk, start.requests.get? pk ≠ none → db.requests.get? pk ≠ none
  old : ∀ pk o, Reported start pk o → Reported db pk o
  new : ∀ pk o, (pk, o) ∈ start.overdueOwners now → pk ∈ rest.map Stored.pk ∨ Reported db pk o

theorem Timely.present (h : Timely env db) (hmem : (request, owner) ∈ db.overdueOwners env.now) :
    ∃ r, db.requests.get? request = some r ∧ r.state.isOpen = true := by
  obtain ⟨i, p, hget, hover, rfl, -⟩ := mem_overdueOwners.mp hmem
  exact h i p hget hover

/-- After the bulk update every overdue request is on the list. -/
theorem announcing_start (htimely : Timely env db) :
    Announcing env.now db ((db.toLedger).announced (db.overdueOwners env.now))
      { db with parts := db.parts.update (·.overdue env.now) (·.timeOut) } where
  parts := rfl
  present _ h := h
  old _ _ h := h
  new pk o hmem := by
    obtain ⟨r, hr, hopen⟩ := htimely.present hmem
    exact .inl (List.mem_map.mpr ⟨⟨pk, r⟩, mem_announced.mpr ⟨hr, ⟨o, hmem⟩, hopen⟩, rfl⟩)

/-- One unit of the sweep. -/
theorem Announcing.unit {start : Db} {r : Stored ErasureRequest}
    {rest : List (Stored ErasureRequest)} (h : Announcing env.now start (r :: rest) db)
    (htimely : Timely env start) :
    Announcing env.now start rest (Db.emit { db with
        requests := db.requests.modify r.pk (·.timeOut) }
      [.erasureTimeout r.pk r.row.correlationId r.row.subjectType r.row.subjectKey
        (silentOwners (start.overdueOwners env.now) r.pk) r.row.dueAt]) where
  parts := h.parts
  present pk hpk := by
    obtain ⟨row, hrow⟩ := Option.ne_none_iff_exists'.mp (h.present pk hpk)
    by_cases heq : pk = r.pk
    · subst heq
      exact Option.ne_none_iff_exists'.mpr ⟨_, Table.get?_modify_self _ hrow⟩
    · exact Option.ne_none_iff_exists'.mpr ⟨row, (Table.get?_modify_of_ne _ heq).trans hrow⟩
  old pk o hrep := (h.old pk o hrep).announceTimeout
  new pk o hmem := by
    rcases h.new pk o hmem with hrest | hrep
    · rcases List.mem_cons.mp hrest with rfl | hrest
      · obtain ⟨row, hrow, -⟩ := htimely.present hmem
        exact .inr (reported_announceTimeout (h.present r.pk (by rw [hrow]; simp)) hmem)
      · exact .inl hrest
    · exact .inr hrep.announceTimeout

/-- At the end of the sweep nothing noted is unreported. -/
theorem Announcing.finish {start : Db} (h : Announcing env.now start [] db)
    (hstart : AllReported start) : AllReported db := by
  intro i p' hp' hnote
  rw [h.parts, Table.get?_update] at hp'
  obtain ⟨p, hp, rfl⟩ := Option.map_eq_some_iff.mp hp'
  by_cases hover : p.overdue env.now = true
  · rw [if_pos hover]
    exact (h.new _ _ (mem_overdueOwners.mpr ⟨i, p, hp, hover, rfl, rfl⟩)).resolve_left (by simp)
  · rw [if_neg hover] at hnote ⊢
    exact h.old _ _ (hstart i p hp hnote)

/-- A sweep in which nothing fails reports everything it times out. -/
theorem sweepDeletionDeadlines_reports (h : AllReported db) (htimely : Timely env db) :
    Ends (fun _ => AllReported) (fun _ _ => False) (sweepDeletionDeadlines env) db := by
  refine does_bind.mpr (ends_query.mpr (does_bind.mpr (ends_atomic.mpr ?_)))
  have hstart := announcing_start htimely
  dsimp only
  split
  · rename_i hcount
    -- nothing was overdue, so nothing is on the list
    have hnil : db.overdueOwners env.now = [] := by
      rw [Ledger.overdueOwners, List.length_eq_zero_iff.mp hcount, List.map_nil]
    refine does_ret.mpr (Announcing.finish ⟨hstart.parts, hstart.present, hstart.old, ?_⟩ h)
    intro pk o hmem
    rw [hnil] at hmem
    exact absurd hmem (by simp)
  · refine does_bind.mpr (ends_query.mpr (Does.bind (Does.forM
      (J := Announcing env.now db) (fun r rest db' hJ => ?_) hstart) fun _ _ hJ => ?_))
    · exact does_write.mpr ⟨⟨trivial, hJ.unit htimely⟩, fun h => h.elim⟩
    · exact does_ret.mpr (hJ.finish h)

/-! ### Runs -/

/-- A sweep that completes; of its statements only the emits may fail. -/
def Sweep (env : Env) (db db' : Db) : Prop :=
  ∃ tr p, Runs (fun op => ∃ request, op = .timeoutUnit request)
    (Call.sweepDeletionDeadlines.prog env) db tr p db' ∧ p.Done

/-- A sweep that completes, every emit of it succeeding. -/
def CleanSweep (env : Env) (db db' : Db) : Prop :=
  ∃ tr p, Runs (fun _ => False) (Call.sweepDeletionDeadlines.prog env) db tr p db' ∧ p.Done

/-- One stage of a run whose sweeps meet the condition; any other call may fail or stop
anywhere. -/
inductive TimelyStage : Db → Db → Prop
  | call {env : Env} {call : Call} {db db' : Db} (h : CallStep env call db db')
      (hother : call ≠ .sweepDeletionDeadlines) : TimelyStage db db'
  | sweep {env : Env} {db db' : Db} (htimely : Timely env db) (h : CleanSweep env db db') :
      TimelyStage db db'
  | host {db : Db} (users : List User) (holds : Table LegalHold)
      (hashes : List ReRegistrationHash) :
      TimelyStage db { db with users := users, holds := holds, hashes := hashes }

/-- No other call issues the bulk update. -/
theorem Call.may_ne_sweepParts {call : Call} (h : call ≠ .sweepDeletionDeadlines)
    (hop : call.may op) : op ≠ .sweepParts := by
  rintro rfl
  cases call <;> first
    | exact h rfl
    | simp [Call.may, ReceiptOp, DeletionOp, LocalOp, FlipOp] at hop

theorem AllReported.stage (h : AllReported db) (hstage : TimelyStage db db') :
    AllReported db' := by
  cases hstage with
  | call hcall hother =>
      obtain ⟨hl, tr, p, hrun⟩ := hcall
      have hchain := (Call.does hl).chain hrun (N := fun a b => AllReported a → AllReported b)
        fun op a b hs ha => ha.step hs.1 (Call.may_ne_sweepParts hother hs.2)
      clear hrun
      induction hchain with
      | refl => exact h
      | tail _ hstep ih => exact hstep ih
  | @sweep env _ _ htimely hclean =>
      obtain ⟨tr, p, hrun, hdone⟩ := hclean
      have hends : Ends (fun _ => AllReported) (fun _ _ => False)
          (Call.sweepDeletionDeadlines.prog env) db :=
        (sweepDeletionDeadlines_reports h htimely).bind fun _ _ h => does_ret.mpr h
      cases p with
      | ret a => exact hends.returned hrun
      | raise e => exact (hends.raised hrun).elim
      | step l u n f => exact hdone.elim
  | host => exact h

theorem CleanSweep.callStep (h : CleanSweep env db db') :
    CallStep env .sweepDeletionDeadlines db db' := by
  obtain ⟨tr, p, hrun, -⟩ := h
  exact ⟨trivial, tr, p, hrun.mono fun _ h => h.elim⟩

theorem TimelyStage.stage (h : TimelyStage db db') : Stage db db' := by
  cases h with
  | call hcall hother => exact .call hcall
  | sweep htimely hclean => exact .call hclean.callStep
  | host users holds hashes => exact .host users holds hashes

/-- The states of a run whose sweeps meet the condition. -/
def TimelyRun : Db → Db → Prop := Relation.ReflTransGen TimelyStage

theorem TimelyRun.onward (h : TimelyRun db db') : Onward db db' :=
  Relation.ReflTransGen.mono (fun _ _ => TimelyStage.stage) _ _ h

theorem TimelyRun.allReported (h : TimelyRun {} db) : AllReported db := by
  induction h with
  | refl => exact allReported_empty
  | tail _ hstage ih => exact ih.stage hstage

/-- A part times out with the note of the sweep. -/
theorem Reachable.timedOut_noted {s : Db} (h : Reachable s) {i : Nat} {p : ErasurePart}
    (hp : s.parts.get? i = some p) (htimeout : p.state = .timeout) : p.note = timedOutNote := by
  refine h.induct (P := fun db => ∀ i p, db.parts.get? i = some p → p.state = .timeout →
    p.note = timedOutNote) (fun env op a b hm ha j q hq hstate => ?_) (fun _ _ _ _ ha => ha)
    (fun j q hq => absurd hq (by simp [Table.get?])) i p hp htimeout
  rcases hm.parts.row hq with ⟨q₀, hq₀, hstep⟩ | ⟨-, hnew⟩
  · cases hstep with
    | same => exact ha j q hq₀ hstate
    | receipted hopen hdone =>
        rw [hdone] at hstate
        exact absurd hstate (by simp)
    | timedOut => rfl
  · rw [hnew.pending] at hstate
    exact absurd hstate (by simp)

/-- A part keeps its slot and its note along a run. -/
theorem Onward.slot {s t : Db} (h : Onward s t) {i : Nat} {p : ErasurePart}
    (hp : s.parts.get? i = some p) (hnote : p.note = timedOutNote) :
    ∃ q, t.parts.get? i = some q ∧ q.request = p.request ∧ q.owner = p.owner ∧
      q.note = timedOutNote :=
  h.induct (P := fun db => ∃ q, db.parts.get? i = some q ∧ q.request = p.request ∧
      q.owner = p.owner ∧ q.note = timedOutNote)
    (fun _ _ _ _ hm ⟨q, hq, hreq, howner, hq'⟩ => by
      obtain ⟨q₁, hq₁, hstep⟩ := hm.parts.kept hq
      obtain ⟨hreq₁, howner₁, hnote₁⟩ := hstep.slot
      exact ⟨q₁, hq₁, hreq₁.trans hreq, howner₁.trans howner, hnote₁ hq'⟩)
    (fun _ _ _ _ ha => ha) ⟨p, hp, rfl, rfl, hnote⟩

/-- **No silent timeout, while the condition lasts.** In every run from the empty store whose
sweeps find overdue parts on open requests only and whose sweeps' emits succeed, a part that
stands at TIMEOUT in some state `t`, the end of the sweep that flipped it among them, is named
in a committed announcement of its request in `t` and in every later state, and that request
is neither QUEUED nor ERASING there. -/
theorem timeout_announced {t u : Db} (ht : TimelyRun {} t) (hu : TimelyRun t u) {i : Nat}
    {p : ErasurePart} (hp : t.parts.get? i = some p) (htimeout : p.state = .timeout) :
    Named u.outbox p.request p.owner ∧ Closed u.toLedger p.request := by
  obtain ⟨q, hq, hreq, howner, hnote⟩ :=
    hu.onward.slot hp (Reachable.timedOut_noted ht.onward hp htimeout)
  have hreported := TimelyRun.allReported (ht.trans hu) i q hq hnote
  rwa [hreq, howner] at hreported

/-! ### Staggered deadlines -/

/-- Two remote owners of documents, one with a day to answer, one with two. -/
def staggered (now : Time) : Env where
  now := now
  settings := { dataOwners := .map [
    ("media", .dict { timeoutHours := some 24, subjectTypes := some (.one "document") }),
    ("search", .dict { timeoutHours := some 48, subjectTypes := some (.one "document") })] }

/-- A document's erasure was requested on day 0 and nobody answered: the store after the
sweeps of the first `n` days. -/
def unanswered : Nat → Db
  | 0 => (Call.requestErasure "document" "d1" {}).after (staggered 0) (storeOf [])
  | n + 1 => Call.sweepDeletionDeadlines.after (staggered (days (n + 1))) (unanswered n)

theorem reachable_unanswered (n : Nat) : Reachable (unanswered n) := by
  induction n with
  | zero => exact (reachable_storeOf _).run (.requestErasure _ _ _) _ trivial
  | succ n ih => exact ih.run .sweepDeletionDeadlines _ trivial

theorem cleanSweep_after (env : Env) (db : Db) :
    CleanSweep env db (Call.sweepDeletionDeadlines.after env db) := by
  obtain ⟨tr, hrun⟩ := runs_run (fun _ => False) (Call.sweepDeletionDeadlines.prog env) db
  refine ⟨tr, _, hrun, ?_⟩
  cases ((Call.sweepDeletionDeadlines.prog env).run db).1 <;> exact trivial

theorem CleanSweep.sweep (h : CleanSweep env db db') : Sweep env db db' := by
  obtain ⟨tr, p, hrun, hdone⟩ := h
  exact ⟨tr, p, hrun.mono fun _ h => h.elim, hdone⟩

/-- The first owner's silence is announced. -/
theorem timeout_announced_unanswered :
    Named (unanswered 1).outbox 0 "media" ∧ Closed (unanswered 1).toLedger 0 := by
  have hopened : TimelyStage (storeOf []) (unanswered 0) := by
    let call := Call.requestErasure "document" "d1" {}
    obtain ⟨tr, hrun⟩ := runs_run (fun _ => True) (call.prog (staggered 0)) (storeOf [])
    have hstep : CallStep (staggered 0) call (storeOf []) (unanswered 0) := ⟨trivial, tr, _, hrun⟩
    exact .call hstep (by simp [call])
  have htimely : Timely (staggered (days 1)) (unanswered 0) := by
    intro i p hp hover
    have hreq : ∀ q ∈ (unanswered 0).parts.rows, q.request = 0 := by decide +kernel
    rw [hreq p (List.mem_of_getElem? hp)]
    have hopen : ((unanswered 0).requests.get? 0).map (·.state.isOpen) = some true := by
      decide +kernel
    exact Option.map_eq_some_iff.mp hopen
  have hrun : TimelyRun {} (unanswered 1) :=
    ((Relation.ReflTransGen.single (.host [] {} [])).tail hopened).tail
      (.sweep htimely (cleanSweep_after _ _))
  have hpart : ((unanswered 1).parts.get? 0).map (fun p => (p.state, p.request, p.owner)) =
      some (.timeout, 0, "media") := by decide +kernel
  obtain ⟨p, hp, heq⟩ := Option.map_eq_some_iff.mp hpart
  simp only [Prod.mk.injEq] at heq
  obtain ⟨hstate, hreq, howner⟩ := heq
  have h := timeout_announced hrun .refl hp hstate
  rwa [hreq, howner] at h

/-- The second owner's is not: by then its request is TIMEOUT, and the sweep that flips the
part passes over it, as does every later one. -/
theorem silent_timeout : ¬ ∀ (env env' : Env) (s t u v : Db), Reachable s → Sweep env s t →
    Onward t u → CleanSweep env' u v → ∀ i p q, s.parts.get? i = some p → p.state = .pending →
      t.parts.get? i = some q → q.state = .timeout →
        Named v.outbox q.request q.owner ∧ Closed v.toLedger q.request := by
  intro hclaim
  have hbefore : ((unanswered 1).parts.get? 1).map (·.state) = some .pending := by decide +kernel
  have hafter : ((unanswered 2).parts.get? 1).map (fun p => (p.state, p.request, p.owner)) =
      some (.timeout, 0, "search") := by decide +kernel
  obtain ⟨p, hp, hpending⟩ := Option.map_eq_some_iff.mp hbefore
  obtain ⟨q, hq, heq⟩ := Option.map_eq_some_iff.mp hafter
  simp only [Prod.mk.injEq] at heq
  obtain ⟨hstate, hreq, howner⟩ := heq
  obtain ⟨⟨id, st, sk, owners, due, hmem, hin⟩, -⟩ := hclaim (staggered (days 2))
    (staggered (days 3)) _ _ _ _ (reachable_unanswered 1) (cleanSweep_after _ _).sweep .refl
    (cleanSweep_after _ (unanswered 2)) 1 p q hp hpending hq hstate
  rw [howner] at hin
  have hnames : ∀ a ∈ (unanswered 3).outbox, ∀ request id st sk owners due,
      a = .erasureTimeout request id st sk owners due → owners = ["media"] := by
    have hall : (unanswered 3).outbox.all (fun a => match a with
        | .erasureTimeout _ _ _ _ owners _ => owners = ["media"]
        | _ => true) = true := by decide +kernel
    intro a ha request id st sk owners due heq
    have h := List.all_eq_true.mp hall a ha
    rw [heq] at h
    exact of_decide_eq_true h
  rw [hnames _ hmem _ _ _ _ _ _ rfl] at hin
  exact absurd hin (by decide)

end StapelGdpr
