import StapelGdpr.Invariants

/-!
# StapelGdpr.Redelivery

A second delivery of a receipt. `mark_section_erased` returns before it looks at the
request when its conditional update matched no row, so a delivery for a request with every
part DONE changes nothing: whatever kept the request open when the last receipt landed —
a registry problem since repaired, a handler that died between its two writes — no
redelivery gets it certified any more.
-/

namespace StapelGdpr

open Prog

variable {env : Env} {db : Db}

/-- All that stands between the request and DELETED is somebody calling `_maybe_finalize`. -/
structure Ready (env : Env) (l : Ledger) (pk : Nat) (r : ErasureRequest) : Prop where
  isOpen : r.state.isOpen = true
  receipts : AllDone l pk
  sound : env.report.problems = []
  claimed : env.report.ownersFor r.subjectType ≠ []
  closure : ∀ k, r.closure = some k → ∃ c, l.closures.get? k = some c ∧ c.erased = true

/-- With every part of the request DONE the update finds no row. -/
theorem select_awaits_eq_nil {pk : Nat} {service : String} (hall : AllDone db.toLedger pk) :
    db.parts.select (·.awaits pk service) = [] := by
  rw [List.eq_nil_iff_forall_not_mem]
  intro p hp
  obtain ⟨hget, haw⟩ := Table.mem_select.mp hp
  obtain ⟨hreq, -, hopen⟩ := ErasurePart.awaits_iff.mp haw
  exact hopen (hall p.pk p.row hget hreq)

theorem update_awaits_eq_self {pk : Nat} {service : String} {f : ErasurePart → ErasurePart}
    (hall : AllDone db.toLedger pk) : db.parts.update (·.awaits pk service) f = db.parts := by
  unfold Table.update
  congr 1
  refine (List.map_congr_left fun p hp => ?_).trans (List.map_id _)
  obtain ⟨i, hi⟩ := List.mem_iff_getElem?.mp hp
  refine if_neg fun haw => ?_
  obtain ⟨hreq, -, hopen⟩ := ErasurePart.awaits_iff.mp haw
  exact hopen (hall i p hi hreq)

/-- The delivery reads the request, updates no row, and returns. -/
theorem markSectionErased_run_of_allDone {pk : Nat} {r : ErasureRequest} {id : Uuid}
    {service receiptId : String} {counts : Counts} (hc : Correlated db.toLedger)
    (hr : db.requests.get? pk = some r) (hid : r.correlationId = some id)
    (hall : AllDone db.toLedger pk) :
    (markSectionErased env id service receiptId counts).run db = (.ok (), db) := by
  simp only [markSectionErased, Program.select, Prog.query, Prog.atomic, step_bind, run, id_eq,
    ret_bind, hc.lookup hr hid, select_awaits_eq_nil hall, update_awaits_eq_self hall,
    List.length_nil, if_true, pure_def]

/-- **No redelivery finalizes a fully receipted request**: in every reachable state, and
under whatever settings the delivery finds, it leaves the store as it was and the request
open. -/
theorem redelivery_leaves_open {s : Db} (hs : Reachable s) {pk : Nat} {r : ErasureRequest}
    (hr : s.requests.get? pk = some r) (hopen : r.state.isOpen = true)
    (hall : AllDone s.toLedger pk) {id : Uuid} (hid : r.correlationId = some id) (env : Env)
    (service receiptId : String) (counts : Counts) :
    (markSectionErased env id service receiptId counts).run s = (.ok (), s) ∧
      r.state ≠ .deleted := by
  exact ⟨markSectionErased_run_of_allDone hs.correlated hr hid hall,
    ErasureState.ne_deleted hopen⟩

/-- The deployment of `documents` while a provider is registered that nobody declared. -/
def undeclaredProvider : Env := { documents with sections := ["billing"] }

/-- Its only receipt lands while the registry has that problem. -/
def receiptedTooEarly : Db :=
  (Call.markSectionErased 0 "media" "job-3" []).after undeclaredProvider <|
    (Call.requestErasure "document" "d1" {}).after documents (storeOf [])

theorem reachable_receiptedTooEarly : Reachable receiptedTooEarly :=
  ((reachable_storeOf _).run (.requestErasure _ _ _) _ trivial).run
    (.markSectionErased _ _ _ _) _ trivial

theorem ready_receiptedTooEarly : ∃ r, receiptedTooEarly.requests.get? 0 = some r ∧
    Ready documents receiptedTooEarly.toLedger 0 r ∧ r.correlationId = some 0 := by
  have hrow : (receiptedTooEarly.requests.get? 0).map (fun r =>
      (r.state, r.subjectType, r.closure, r.correlationId)) =
      some (.erasing, "document", none, some 0) := by decide +kernel
  obtain ⟨r, hr, heq⟩ := Option.map_eq_some_iff.mp hrow
  simp only [Prod.mk.injEq] at heq
  obtain ⟨hstate, htype, hclosure, hid⟩ := heq
  refine ⟨r, hr, ⟨by rw [hstate]; rfl, ?_, by decide +kernel, ?_, fun k hk => ?_⟩, hid⟩
  · exact Ledger.unreceiptedOwners_eq_nil.mp (by decide +kernel)
  · rw [htype]
    decide +kernel
  · rw [hclosure] at hk
    exact absurd hk (by simp)

theorem redelivery_leaves_open_receiptedTooEarly :
    (markSectionErased documents 0 "media" "job-3" []).run receiptedTooEarly =
      (.ok (), receiptedTooEarly) := by
  obtain ⟨r, hr, hready, hid⟩ := ready_receiptedTooEarly
  exact (redelivery_leaves_open reachable_receiptedTooEarly hr hready.isOpen hready.receipts hid
    documents "media" "job-3" []).1

/-- The registry is repaired, the owner delivers its receipt again, and the request stays
ERASING. -/
theorem redelivery_does_not_finalize : ¬ ∀ (env : Env) (s : Db), Reachable s →
    ∀ pk r id, s.requests.get? pk = some r → Ready env s.toLedger pk r →
      r.correlationId = some id → ∀ i p, s.parts.get? i = some p → p.request = pk →
        ((((markSectionErased env id p.owner p.receiptId p.counts).run s).2.requests.get? pk).map
          (·.state)) = some .deleted := by
  intro hclaim
  obtain ⟨r, hr, hready, hid⟩ := ready_receiptedTooEarly
  have hpart : (receiptedTooEarly.parts.get? 0).map (·.request) = some 0 := by decide +kernel
  obtain ⟨p, hp, hreq⟩ := Option.map_eq_some_iff.mp hpart
  have hafter := hclaim documents _ reachable_receiptedTooEarly 0 r 0 hr hready hid 0 p hp hreq
  rw [markSectionErased_run_of_allDone reachable_receiptedTooEarly.correlated hr hid
    hready.receipts, hr] at hafter
  have hdel : r.state = .deleted := Option.some.inj hafter
  exact ErasureState.ne_deleted hready.isOpen hdel

end StapelGdpr
