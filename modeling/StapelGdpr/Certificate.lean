import StapelGdpr.Invariants

/-!
# StapelGdpr.Certificate

What DELETED and TIMEOUT are worth. The invariant `Accounted` says that every terminal
request is backed by its rows — a certificate by receipts and a finished closure, a timeout
by a part the sweep gave up on — and `Accounted.step` is its one step lemma. A terminal
request never moves again (`Onward.settled`), so what was certified stays certified.
-/

namespace StapelGdpr

open Prog

variable {env : Env} {op : Op} {db db' : Db}

/-! ### The invariant -/

/-- The closure a request carries has been erased locally, identity included. -/
def ClosureErased (l : Ledger) (r : ErasureRequest) : Prop :=
  ∀ k, r.closure = some k → ∃ c, l.closures.get? k = some c ∧
    c.localErasureDone = true ∧ c.identityErasedAt.isSome = true

/-- Some owner of the request let a deadline pass. -/
def Lapsed (l : Ledger) (request : Nat) : Prop :=
  ∃ i p, l.parts.get? i = some p ∧ p.request = request ∧ p.note = timedOutNote

/-- Every terminal row is backed by the rows it speaks about. -/
structure Accounted (l : Ledger) : Prop where
  receipts : ∀ i p, l.parts.get? i = some p → p.state = .done →
    p.receiptId ≠ "" ∧ p.receiptAt.isSome = true
  certified : ∀ pk r, l.requests.get? pk = some r → r.state = .deleted →
    r.completenessWaived = false →
      r.completedAt.isSome = true ∧ AllDone l pk ∧ ClosureErased l r
  lapsed : ∀ pk r, l.requests.get? pk = some r → r.state = .timeout → Lapsed l pk

theorem accounted_empty : Accounted {} where
  receipts i p h := absurd h (by simp [Table.get?])
  certified pk r h := absurd h (by simp [Table.get?])
  lapsed pk r h := absurd h (by simp [Table.get?])

theorem Move.receipts_step (h : Move env op db db')
    (hs : ∀ i p, db.parts.get? i = some p → p.state = .done →
      p.receiptId ≠ "" ∧ p.receiptAt.isSome = true) {i : Nat} {p' : ErasurePart}
    (hp : db'.parts.get? i = some p') (hdone : p'.state = .done) :
    p'.receiptId ≠ "" ∧ p'.receiptAt.isSome = true := by
  rcases h.parts.row hp with ⟨p, hold, hstep⟩ | ⟨-, hnew⟩
  · cases hstep with
    | same => exact hs i p' hold hdone
    | receipted _ _ hid hat => exact ⟨hid, hat⟩
    | timedOut => exact absurd hdone (by simp [ErasurePart.timeOut])
  · rw [hnew.pending] at hdone
    exact absurd hdone (by simp)

theorem Move.closureErased_step (h : Move env op db db') {r : ErasureRequest}
    (hcl : ClosureErased db.toLedger r) : ClosureErased db'.toLedger r := by
  intro k hk
  obtain ⟨c, hc, hlocal, hid⟩ := hcl k hk
  obtain ⟨c', hc', hstep⟩ := h.closures.kept hc
  exact ⟨c', hc', hstep.flags.1 hlocal, hstep.flags.2 hid⟩

theorem Move.lapsed_step (h : Move env op db db') {pk : Nat} (hl : Lapsed db.toLedger pk) :
    Lapsed db'.toLedger pk := by
  obtain ⟨i, p, hp, hreq, hnote⟩ := hl
  obtain ⟨p', hp', hstep⟩ := h.parts.kept hp
  exact ⟨i, p', hp', hstep.slot.1.trans hreq, hstep.slot.2.2 hnote⟩

/-- One step of any call keeps the books. -/
theorem Accounted.step (hs : Accounted db.toLedger) (h : Move env op db db') :
    Accounted db'.toLedger where
  receipts _ _ := h.receipts_step hs.receipts
  certified pk r' hr' hdel hw := by
    rcases h.requests.row hr' with ⟨r, hr, hstep⟩ | ⟨-, hnew⟩
    · cases hstep with
      | same =>
          obtain ⟨hat, hall, hcl⟩ := hs.certified pk r' hr hdel hw
          exact ⟨hat, h.allDone_step hr hall, h.closureErased_step hcl⟩
      | certified hopen hclosure hcomplete =>
          obtain ⟨-, -, hreceipts⟩ := hcomplete hw
          refine ⟨rfl, h.allDone_step hr (Ledger.unreceiptedOwners_eq_nil.mp hreceipts),
            h.closureErased_step fun k hk => ?_⟩
          obtain ⟨c, hc, her⟩ := hclosure k hk
          exact ⟨c, hc, (AccountClosureRequest.erased_iff.mp her).2⟩
      | timedOut => exact absurd hdel (by simp [ErasureRequest.timeOut])
    · rw [hnew.erasing] at hdel
      exact absurd hdel (by simp)
  lapsed pk r' hr' htimeout := by
    rcases h.requests.row hr' with ⟨r, hr, hstep⟩ | ⟨-, hnew⟩
    · cases hstep with
      | same => exact h.lapsed_step (hs.lapsed pk r' hr htimeout)
      | certified => exact absurd htimeout (by simp [ErasureRequest.certify])
      | timedOut hopen hnote => exact h.lapsed_step hnote
    · rw [hnew.erasing] at htimeout
      exact absurd htimeout (by simp)

theorem Onward.accounted {s t : Db} (h : Onward s t) (hs : Accounted s.toLedger) :
    Accounted t.toLedger :=
  h.induct (P := fun db => Accounted db.toLedger) (fun _ _ _ _ hm ha => ha.step hm)
    (fun _ _ _ _ ha => ha) hs

theorem Reachable.accounted {s : Db} (h : Reachable s) : Accounted s.toLedger :=
  Onward.accounted h accounted_empty

/-! ### What a certificate says -/

/-- The certificate of a DELETED request: when, by which receipts, for which closure, and
what the report makes of it. -/
structure Certified (l : Ledger) (pk : Nat) (r : ErasureRequest) : Prop where
  completed : r.completedAt.isSome = true
  receipts : ∀ i p, l.parts.get? i = some p → p.request = pk →
    p.state = .done ∧ p.receiptId ≠ "" ∧ p.receiptAt.isSome = true
  closure : ∀ k, r.closure = some k → ∃ c, l.closures.get? k = some c ∧
    c.localErasureDone = true ∧ c.identityErasedAt.isSome = true
  outcome : l.outcome ⟨pk, r⟩ = .complete

theorem Accounted.certificate {l : Ledger} (hl : Accounted l) {pk : Nat} {r : ErasureRequest}
    (hr : l.requests.get? pk = some r) (hdel : r.state = .deleted)
    (hw : r.completenessWaived = false) : Certified l pk r := by
  obtain ⟨hat, hall, hcl⟩ := hl.certified pk r hr hdel hw
  refine ⟨hat, fun i p hp hreq => ⟨hall i p hp hreq, hl.receipts i p hp (hall i p hp hreq)⟩,
    hcl, ?_⟩
  simp [Ledger.outcome, hdel, hw, Ledger.unreceiptedOwners_eq_nil.mpr hall]

/-- **Certificate soundness.** In every reachable state a DELETED request whose
completeness was not waived is certified, and it stays so, as the same row, in every state
any later calls lead to. -/
theorem certificate_sound {s t : Db} (hs : Reachable s) (ht : Onward s t) {pk : Nat}
    {r : ErasureRequest} (hr : s.requests.get? pk = some r) (hdel : r.state = .deleted)
    (hw : r.completenessWaived = false) :
    Certified s.toLedger pk r ∧ t.requests.get? pk = some r ∧ Certified t.toLedger pk r := by
  have hrt : t.requests.get? pk = some r := ht.settled hr (by rw [hdel]; rfl)
  exact ⟨hs.accounted.certificate hr hdel hw, hrt,
    (hs.onward ht).accounted.certificate hrt hdel hw⟩

/-- The closure of the sample account is certified, and a sweep a year later finds it so. -/
theorem certificate_sound_erased : ∃ r, erased.requests.get? 0 = some r ∧
    Certified erased.toLedger 0 r ∧
    Certified (Call.sweepDeletionDeadlines.after (deploymentOn 395) erased).toLedger 0 r := by
  have hstate : (erased.requests.get? 0).map (·.state) = some .deleted := by decide +kernel
  have hwaived : (erased.requests.get? 0).map (·.completenessWaived) = some false := by
    decide +kernel
  obtain ⟨r, hr, hdel⟩ := Option.map_eq_some_iff.mp hstate
  rw [hr] at hwaived
  obtain ⟨hs, -, ht⟩ := certificate_sound reachable_erased
    (Onward.run .refl .sweepDeletionDeadlines (deploymentOn 395) trivial) hr hdel
    (Option.some.inj hwaived)
  exact ⟨r, hr, hs, ht⟩

/-! ### What an incomplete report says -/

theorem Accounted.incomplete {l : Ledger} (hl : Accounted l) {pk : Nat} {r : ErasureRequest}
    (hr : l.requests.get? pk = some r) (hinc : l.outcome ⟨pk, r⟩ = .incomplete) :
    r.completenessWaived = true ∨ l.unreceiptedOwners pk ≠ [] ∨
      (r.state = .timeout ∧ Lapsed l pk) := by
  by_cases htimeout : r.state = .timeout
  · exact Or.inr (Or.inr ⟨htimeout, hl.lapsed pk r hr htimeout⟩)
  · by_contra hno
    obtain ⟨hw, hun, -⟩ := by simpa only [not_or] using hno
    have hun' : l.unreceiptedOwners pk = [] := not_not.mp hun
    simp only [Ledger.outcome, htimeout, hw, hun', if_false, ne_eq, not_true, decide_false,
      Bool.or_false, Bool.false_eq_true] at hinc
    split at hinc <;> exact absurd hinc (by simp)

/-- **An incomplete report names its reason**: a waiver, an owner without a receipt, or an
owner whose deadline a sweep saw pass. The last one is final: no later call reopens the
request or clears the note, whatever receipts still arrive. -/
theorem incomplete_reason {s t : Db} (hs : Reachable s) (ht : Onward s t) {pk : Nat}
    {r : ErasureRequest} (hr : s.requests.get? pk = some r)
    (hinc : s.outcome ⟨pk, r⟩ = .incomplete) :
    r.completenessWaived = true ∨ s.unreceiptedOwners pk ≠ [] ∨
      (r.state = .timeout ∧ Lapsed s.toLedger pk ∧
        t.requests.get? pk = some r ∧ Lapsed t.toLedger pk) := by
  rcases hs.accounted.incomplete hr hinc with hw | hun | ⟨htimeout, hlapsed⟩
  · exact Or.inl hw
  · exact Or.inr (Or.inl hun)
  · refine Or.inr (Or.inr ⟨htimeout, hlapsed, ht.settled hr (by rw [htimeout]; rfl), ?_⟩)
    exact ht.induct (P := fun db => Lapsed db.toLedger pk) (fun _ _ _ _ hm hl => hm.lapsed_step hl)
      (fun _ _ _ _ hl => hl) hlapsed

/-- The deadline of a document's only owner passes, then its receipt arrives. -/
def lateReceipt : Db :=
  (Call.markSectionErased 0 "media" "job-9" []).after { documents with now := days 3 } <|
    Call.sweepDeletionDeadlines.after { documents with now := days 2 } <|
      (Call.requestErasure "document" "d1" {}).after documents (storeOf [])

theorem reachable_lateReceipt : Reachable lateReceipt :=
  (((reachable_storeOf _).run (.requestErasure _ _ _) _ trivial).run
    .sweepDeletionDeadlines _ trivial).run (.markSectionErased _ _ _ _) _ trivial

theorem incomplete_reason_lateReceipt : ∃ r, lateReceipt.requests.get? 0 = some r ∧
    (r.completenessWaived = true ∨ lateReceipt.unreceiptedOwners 0 ≠ [] ∨
      (r.state = .timeout ∧ Lapsed lateReceipt.toLedger 0 ∧
        lateReceipt.requests.get? 0 = some r ∧ Lapsed lateReceipt.toLedger 0)) := by
  have hout : (lateReceipt.requests.get? 0).map (fun r => lateReceipt.outcome ⟨0, r⟩) =
      some .incomplete := by decide +kernel
  obtain ⟨r, hr, hinc⟩ := Option.map_eq_some_iff.mp hout
  exact ⟨r, hr, incomplete_reason reachable_lateReceipt .refl hr hinc⟩

/-- With every receipt in, nothing waived and a sound registry, a request that once timed
out still reports itself incomplete. -/
theorem incomplete_without_reason : ¬ ∀ s, Reachable s → ∀ pk r,
    s.requests.get? pk = some r → s.outcome ⟨pk, r⟩ = .incomplete →
      r.completenessWaived = true ∨ s.unreceiptedOwners pk ≠ [] := by
  intro hclaim
  have hout : (lateReceipt.requests.get? 0).map (fun r => (lateReceipt.outcome ⟨0, r⟩,
      r.completenessWaived, r.closure)) = some (.incomplete, false, none) := by decide +kernel
  have hun : lateReceipt.unreceiptedOwners 0 = [] := by decide +kernel
  obtain ⟨r, hr, hrow⟩ := Option.map_eq_some_iff.mp hout
  obtain ⟨hinc, hrest⟩ := Prod.mk.inj hrow
  rcases hclaim _ reachable_lateReceipt 0 r hr hinc with hw | hne
  · rw [(Prod.mk.inj hrest).1] at hw
    exact absurd hw (by simp)
  · exact hne hun

end StapelGdpr
