import StapelGdpr.Concurrent
import StapelGdpr.Lib.Journal

/-!
# StapelGdpr.Outbox

The transactional outbox against the tables. Every announcement is made in the commit of the
write it announces, so at every moment, however jobs interleave and die, the outbox and the
tables tell one story (`outbox_agrees`): the openings and the closures are listed in it, in
order and once each; what it says was deleted, cancelled or overdue has its row; and no row is
deleted, cancelled or overdue without having been announced.
-/

namespace StapelGdpr

open Prog

variable {env : Env} {op : Op} {db db' s : Db}

/-! ### What the actions say -/

/-- What `gdpr.erasure.requested` says of its request. -/
def Action.opening : Action →
    Option (Nat × Option Uuid × String × String × String × ErasureOrigin × Time)
  | .erasureRequested pk id st sk ws _ origin dueAt => some (pk, some id, st, sk, ws, origin, dueAt)
  | _ => none

/-- The same, read off the row. -/
def openingOf (o : Stored ErasureRequest) :
    Nat × Option Uuid × String × String × String × ErasureOrigin × Time :=
  (o.pk, o.row.correlationId, o.row.subjectType, o.row.subjectKey, o.row.workspaceId.getD "",
    o.row.origin, o.row.dueAt)

/-- What `gdpr.deletion.initiated` says of its closure. -/
def Action.closing : Action → Option (UserId × ClosureTrigger × Time)
  | .deletionInitiated userId trigger graceEndsAt => some (userId, trigger, graceEndsAt)
  | _ => none

def closingOf (o : Stored AccountClosureRequest) : UserId × ClosureTrigger × Time :=
  (o.row.userId, o.row.trigger, o.row.graceEndsAt)

/-- Whose sessions `user.sessions.revoke` ends. -/
def Action.revocation : Action → Option UserId
  | .sessionsRevoked userId _ => some userId
  | _ => none

/-- `user.deleted` of this closure. -/
def TellsDeleted (a : Action) (o : Stored AccountClosureRequest) : Prop :=
  ∃ correlationId, a = .userDeleted o.row.userId correlationId o.row.trigger

/-- `gdpr.deletion.cancelled` of this closure, at the moment it carries. -/
def TellsCancelled (a : Action) (o : Stored AccountClosureRequest) : Prop :=
  ∃ at', o.row.cancelledAt = some at' ∧ a = .deletionCancelled o.row.userId at' o.row.trigger

/-- `gdpr.erasure.timeout` of this request. -/
def TellsTimeout (a : Action) (o : Stored ErasureRequest) : Prop :=
  ∃ owners, a = .erasureTimeout o.pk o.row.correlationId o.row.subjectType o.row.subjectKey
    owners o.row.dueAt

/-! ### One story -/

/-- The outbox and the tables agree. -/
structure Agrees (db : Db) : Prop where
  openings : Table.Journal Action.opening openingOf db.outbox db.requests
  closings : Table.Journal Action.closing closingOf db.outbox db.closures
  revocations : Table.Journal Action.revocation (·.row.userId) db.outbox db.closures
  deleted : Table.Announces (·.localErasureDone = true) TellsDeleted db.outbox db.closures
  cancelled : Table.Announces (·.cancelledAt.isSome = true) TellsCancelled db.outbox db.closures
  timedOut : Table.Announces (·.state = .timeout) TellsTimeout db.outbox db.requests
  backsDeleted : Table.Backs (fun a => ∃ u id trigger, a = .userDeleted u id trigger)
    (fun a o => TellsDeleted a o ∧ o.row.localErasureDone = true ∧
      o.row.identityErasedAt.isSome = true) db.outbox db.closures
  backsCancelled : Table.Backs (fun a => ∃ u at' trigger, a = .deletionCancelled u at' trigger)
    (fun a o => (∃ at', a = .deletionCancelled o.row.userId at' o.row.trigger) ∧
      o.row.cancelledAt.isSome = true) db.outbox db.closures
  backsTimeout : Table.Backs
    (fun a => ∃ pk id st sk owners dueAt, a = .erasureTimeout pk id st sk owners dueAt)
    TellsTimeout db.outbox db.requests

theorem agrees_empty : Agrees {} where
  openings := .empty
  closings := .empty
  revocations := .empty
  deleted := .empty
  cancelled := .empty
  timedOut := .empty
  backsDeleted := .empty
  backsCancelled := .empty
  backsTimeout := .empty

theorem Act.openings (h : Act env op db db')
    (hs : Table.Journal Action.opening openingOf db.outbox db.requests) :
    Table.Journal Action.opening openingOf db'.outbox db'.requests := by
  cases h with
  | erasureOpened ho =>
      obtain ⟨by', -, hrow, -, -, hdb⟩ := openErasure_ok ho
      rw [hdb, hrow]
      exact hs.insert rfl
  | certified => exact hs.modify fun _ _ => rfl
  | requestTimedOut => exact .quiet (hs.modify fun _ _ => rfl) rfl
  | closureOpened | closureCancelled | localDone => exact hs.quiet rfl
  | _ => exact hs

/-- A journal of the closures: its entry comes with the insert, and no other statement makes one
or shows in the view. -/
theorem Act.closings {β : Type} {say : Action → Option β}
    {view : Stored AccountClosureRequest → β} (h : Act env op db db')
    (hopen : ∀ userId trigger, [Action.sessionsRevoked userId "gdpr_closure",
      .deletionInitiated userId trigger (newClosure env userId trigger).graceEndsAt].filterMap say =
        [view ⟨db.closures.nextPk, newClosure env userId trigger⟩])
    (hquiet : ∀ a, (∀ u reason, a ≠ .sessionsRevoked u reason) →
      (∀ u trigger ends, a ≠ .deletionInitiated u trigger ends) → say a = none)
    (hview : ∀ pk c c', ClosurePersists c c' → view ⟨pk, c'⟩ = view ⟨pk, c⟩)
    (hs : Table.Journal say view db.outbox db.closures) :
    Table.Journal say view db'.outbox db'.closures := by
  have hone : ∀ a, (∀ u reason, a ≠ .sessionsRevoked u reason) →
      (∀ u trigger ends, a ≠ .deletionInitiated u trigger ends) → [a].filterMap say = [] :=
    fun a hr hi => by simp [hquiet a hr hi]
  have hact : ∀ {c c'}, ClosureAct env c c' → ClosurePersists c c' := ClosureAct.persists
  cases h with
  | closureOpened userId trigger => exact hs.insert (hopen userId trigger)
  | erasureOpened ho =>
      obtain ⟨by', -, hrow, -, -, hdb⟩ := openErasure_ok ho
      rw [hdb]
      exact hs.quiet (hone _ nofun nofun)
  | closureCancelled =>
      exact (hs.modify fun c _ => hview _ _ _ (hact (.cancelled c _))).quiet (hone _ nofun nofun)
  | localDone id hc hidentity =>
      refine (hs.modify fun c hget => hview _ _ _ (hact (.localDone ?_))).quiet
        (hone _ nofun nofun)
      obtain rfl := Option.some.inj (hc.symm.trans hget)
      exact hidentity
  | requestTimedOut => exact hs.quiet (hone _ nofun nofun)
  | deletionStarted => exact hs.modify fun c _ => hview _ _ _ (hact (.started c _ _))
  | identityErased => exact hs.modify fun c _ => hview _ _ _ (hact (.identityErased c _))
  | closureDeleted waived hc hlocal hidentity hmay =>
      refine hs.modify fun c hget => hview _ _ _ (hact (.deleted _ waived ?_ ?_ hmay))
      all_goals
        obtain rfl := Option.some.inj (hc.symm.trans hget)
        assumption
  | _ => exact hs

theorem Act.deleted (h : Act env op db db')
    (hs : Table.Announces (·.localErasureDone = true) TellsDeleted db.outbox db.closures) :
    Table.Announces (·.localErasureDone = true) TellsDeleted db'.outbox db'.closures := by
  have hgrow := hs.grow h.outbox
  cases h with
  | closureOpened => exact hgrow.insert (by simp [newClosure])
  | erasureOpened ho =>
      obtain ⟨by', -, -, -, -, hdb⟩ := openErasure_ok ho
      rw [hdb] at hgrow ⊢
      exact hgrow
  | localDone id hc =>
      refine hgrow.modify fun c hget _ => .inr ⟨_, List.mem_append_right _ List.mem_cons_self, id, ?_⟩
      obtain rfl := Option.some.inj (hc.symm.trans hget)
      rfl
  | closureCancelled | deletionStarted | identityErased | closureDeleted =>
      exact hgrow.modify fun c _ hpassed => .inl ⟨hpassed, fun _ => id⟩
  | _ => exact hgrow

theorem Act.cancelled (h : Act env op db db')
    (hs : Table.Announces (·.cancelledAt.isSome = true) TellsCancelled db.outbox db.closures) :
    Table.Announces (·.cancelledAt.isSome = true) TellsCancelled db'.outbox db'.closures := by
  have hgrow := hs.grow h.outbox
  cases h with
  | closureOpened => exact hgrow.insert (by simp [newClosure])
  | erasureOpened ho =>
      obtain ⟨by', -, -, -, -, hdb⟩ := openErasure_ok ho
      rw [hdb] at hgrow ⊢
      exact hgrow
  | closureCancelled users hc =>
      refine hgrow.modify fun c hget _ =>
        .inr ⟨_, List.mem_append_right _ List.mem_cons_self, env.now, rfl, ?_⟩
      obtain rfl := Option.some.inj (hc.symm.trans hget)
      rfl
  | localDone | deletionStarted | identityErased | closureDeleted =>
      exact hgrow.modify fun c _ hpassed => .inl ⟨hpassed, fun _ => id⟩
  | _ => exact hgrow

theorem Act.timedOut (h : Act env op db db')
    (hs : Table.Announces (·.state = .timeout) TellsTimeout db.outbox db.requests) :
    Table.Announces (·.state = .timeout) TellsTimeout db'.outbox db'.requests := by
  have hgrow := hs.grow h.outbox
  cases h with
  | erasureOpened ho =>
      obtain ⟨by', -, hrow, -, -, hdb⟩ := openErasure_ok ho
      rw [hdb] at hgrow ⊢
      exact hgrow.insert (by simp [hrow, ErasureArgs.row])
  | certified =>
      exact hgrow.modify fun r _ hpassed => absurd hpassed (by simp [ErasureRequest.certify])
  | requestTimedOut owners hr =>
      refine hgrow.modify fun r hget _ =>
        .inr ⟨_, List.mem_append_right _ List.mem_cons_self, owners, ?_⟩
      obtain rfl := Option.some.inj (hr.symm.trans hget)
      rfl
  | _ => exact hgrow

/-- What a statement adds to the outbox, of the kinds that are about an old row. -/
theorem Act.backs (h : Act env op db db') : ∃ new, db'.outbox = db.outbox ++ new ∧
    (∀ u id trigger, .userDeleted u id trigger ∈ new → ∃ pk c, db'.closures.get? pk = some c ∧
      c.userId = u ∧ c.trigger = trigger ∧ c.localErasureDone = true ∧
      c.identityErasedAt.isSome = true) ∧
    (∀ u at' trigger, .deletionCancelled u at' trigger ∈ new → ∃ pk c,
      db'.closures.get? pk = some c ∧ c.userId = u ∧ c.trigger = trigger ∧
      c.cancelledAt.isSome = true) ∧
    (∀ pk id st sk owners dueAt, .erasureTimeout pk id st sk owners dueAt ∈ new →
      ∃ r, db'.requests.get? pk = some r ∧ r.correlationId = id ∧ r.subjectType = st ∧
        r.subjectKey = sk ∧ r.dueAt = dueAt) := by
  cases h with
  | erasureOpened ho =>
      obtain ⟨by', -, hrow, -, -, hdb⟩ := openErasure_ok ho
      refine ⟨_, by rw [hdb], ?_, ?_, ?_⟩ <;> simp [ErasureArgs.announcement]
  | closureOpened => exact ⟨_, rfl, by simp, by simp, by simp⟩
  | closureCancelled users hc =>
      refine ⟨_, rfl, by simp, fun u at' trigger hmem => ?_, by simp⟩
      obtain ⟨rfl, -, rfl⟩ := by simpa using hmem
      exact ⟨_, _, Table.get?_modify_self _ hc, rfl, rfl, rfl⟩
  | localDone id hc hidentity =>
      refine ⟨_, rfl, fun u id' trigger hmem => ?_, by simp, by simp⟩
      obtain ⟨rfl, -, rfl⟩ := by simpa using hmem
      exact ⟨_, _, Table.get?_modify_self _ hc, rfl, rfl, rfl, hidentity⟩
  | requestTimedOut owners hr =>
      refine ⟨_, rfl, by simp, by simp, fun pk id st sk owners' dueAt hmem => ?_⟩
      obtain ⟨rfl, rfl, rfl, rfl, -, rfl⟩ := by simpa using hmem
      exact ⟨_, Table.get?_modify_self _ hr, rfl, rfl, rfl, rfl⟩
  | _ => exact ⟨[], by simp, by simp, by simp, by simp⟩

theorem Agrees.step (hs : Agrees db) (h : Act env op db db') : Agrees db' := by
  obtain ⟨new, hnew, hdeleted, hcancelled, htimeout⟩ := h.backs
  have hclosures := h.persists.closures
  have hrequests := h.persists.requests
  refine ⟨h.openings hs.openings, ?_, ?_, h.deleted hs.deleted, h.cancelled hs.cancelled,
    h.timedOut hs.timedOut, ?_, ?_, ?_⟩
  · refine h.closings (fun _ _ => rfl) (fun a _ hi => ?_) (fun pk c c' hp => ?_) hs.closings
    · cases a <;> first | rfl | exact absurd rfl (hi _ _ _)
    · rw [closingOf, closingOf, hp.userId, hp.trigger, hp.graceEndsAt]
  · refine h.closings (fun _ _ => rfl) (fun a hr _ => ?_) (fun pk c c' hp => hp.userId)
      hs.revocations
    cases a <;> first | rfl | exact absurd rfl (hr _ _)
  · rw [hnew]
    refine hs.backsDeleted.step hclosures (fun a pk c c' hp habout => ?_) fun a ha hkind => ?_
    · obtain ⟨⟨id, rfl⟩, hlocal, hidentity⟩ := habout
      exact ⟨⟨id, by rw [hp.userId, hp.trigger]⟩, hp.localErasureDone hlocal,
        hp.identityErasedAt hidentity⟩
    · obtain ⟨u, id, trigger, rfl⟩ := hkind
      obtain ⟨pk, c, hc, rfl, rfl, hlocal, hidentity⟩ := hdeleted u id trigger ha
      exact ⟨pk, c, hc, ⟨id, rfl⟩, hlocal, hidentity⟩
  · rw [hnew]
    refine hs.backsCancelled.step hclosures (fun a pk c c' hp habout => ?_) fun a ha hkind => ?_
    · obtain ⟨⟨at', rfl⟩, hat⟩ := habout
      exact ⟨⟨at', by rw [hp.userId, hp.trigger]⟩, hp.cancelledAt hat⟩
    · obtain ⟨u, at', trigger, rfl⟩ := hkind
      obtain ⟨pk, c, hc, rfl, rfl, hat⟩ := hcancelled u at' trigger ha
      exact ⟨pk, c, hc, ⟨at', rfl⟩, hat⟩
  · rw [hnew]
    refine hs.backsTimeout.step hrequests (fun a pk r r' hp habout => ?_) fun a ha hkind => ?_
    · obtain ⟨owners, rfl⟩ := habout
      exact ⟨owners, by rw [hp.columns]⟩
    · obtain ⟨pk, id, st, sk, owners, dueAt, rfl⟩ := hkind
      obtain ⟨r, hr, rfl, rfl, rfl, rfl⟩ := htimeout pk id st sk owners dueAt ha
      exact ⟨pk, r, hr, owners, rfl⟩

/-- The outbox and the tables agree at every moment, and what was once announced is announced in
the same order for ever. -/
theorem outbox_agrees {t : Db} (hs : Concurrent s) (ht : Concurrently s t) :
    Agrees s ∧ Agrees t ∧ s.outbox <+: t.outbox := by
  have hall : ∀ {db}, Concurrent db → Agrees db := fun h =>
    h.induct (I := Agrees) (fun _ _ _ _ hact hi => hi.step hact)
      (fun a users holds hashes hi => ⟨hi.openings, hi.closings, hi.revocations, hi.deleted,
        hi.cancelled, hi.timedOut, hi.backsDeleted, hi.backsCancelled, hi.backsTimeout⟩)
      agrees_empty
  exact ⟨hall hs, hall (hs.onward ht), ht.persists.outbox⟩

theorem outbox_agrees_stormed : Agrees stormed :=
  (outbox_agrees concurrent_stormed .refl).1

end StapelGdpr
