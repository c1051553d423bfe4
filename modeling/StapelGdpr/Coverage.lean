import StapelGdpr.Invariants

/-!
# StapelGdpr.Coverage

The receipt slots of a request are a snapshot of the registry at the call that opened it;
certification compares them with nothing. `Since` follows the slots through one call, and
`certified_covered_iff` says when a certificate covers the registry it was given under:
exactly when every owner claiming the subject had its slot before the call, or the call
itself opened the request.
-/

namespace StapelGdpr

open Prog

variable {env : Env} {op : Op} {db db' : Db}

/-- Every owner the registry now declares for the subject has a slot on the request. -/
def HasSlots (env : Env) (l : Ledger) (pk : Nat) (subjectType : String) : Prop :=
  ∀ o ∈ env.report.ownersFor subjectType,
    ∃ i p, l.parts.get? i = some p ∧ p.request = pk ∧ p.owner = o.name

/-- Every owner the registry now declares for the subject has given its receipt, and there
is at least one receipt. -/
def Covered (env : Env) (l : Ledger) (pk : Nat) (subjectType : String) : Prop :=
  (∀ o ∈ env.report.ownersFor subjectType,
    ∃ i p, l.parts.get? i = some p ∧ p.request = pk ∧ p.owner = o.name ∧ p.state = .done) ∧
  ∃ i p, l.parts.get? i = some p ∧ p.request = pk ∧ p.state = .done

/-- What a call under `env` has made of the slots and certificates of `s`. -/
structure Since (env : Env) (s t : Db) : Prop where
  grows : s.requests.nextPk ≤ t.requests.nextPk
  kept : ∀ i p, s.parts.get? i = some p →
    ∃ p', t.parts.get? i = some p' ∧ p'.request = p.request ∧ p'.owner = p.owner
  old : ∀ i p', t.parts.get? i = some p' → p'.request < s.requests.nextPk →
    ∃ p, s.parts.get? i = some p ∧ p.request = p'.request ∧ p.owner = p'.owner
  opened : ∀ pk r, t.requests.get? pk = some r → s.requests.get? pk = none →
    HasSlots env t.toLedger pk r.subjectType
  flipped : ∀ pk r, t.requests.get? pk = some r → r.state = .deleted →
    r.completenessWaived = false → (∀ q, s.requests.get? pk = some q → q.state ≠ .deleted) →
      AllDone t.toLedger pk ∧ env.report.ownersFor r.subjectType ≠ []

theorem Since.refl (env : Env) (s : Db) : Since env s s where
  grows := le_rfl
  kept i p hp := ⟨p, hp, rfl, rfl⟩
  old i p hp _ := ⟨p, hp, rfl, rfl⟩
  opened pk r hr hno := by rw [hr] at hno; exact absurd hno (by simp)
  flipped pk r hr hdel _ hnot := absurd hdel (hnot r hr)

theorem Move.hasSlots_step (h : Move env op db db') {pk : Nat} {st : String}
    (hs : HasSlots env db.toLedger pk st) : HasSlots env db'.toLedger pk st := by
  intro o ho
  obtain ⟨i, p, hp, hreq, hown⟩ := hs o ho
  obtain ⟨p', hp', hstep⟩ := h.parts.kept hp
  exact ⟨i, p', hp', hstep.slot.1.trans hreq, hstep.slot.2.1.trans hown⟩

/-- One more step of the call. -/
theorem Since.step {s : Db} (hs : Since env s db) (h : Move env op db db') : Since env s db' where
  grows := hs.grows.trans h.requests.nextPk_le
  kept i p hp := by
    obtain ⟨p₁, hp₁, hreq, hown⟩ := hs.kept i p hp
    obtain ⟨p₂, hp₂, hstep⟩ := h.parts.kept hp₁
    exact ⟨p₂, hp₂, hstep.slot.1.trans hreq, hstep.slot.2.1.trans hown⟩
  old i p' hp' hlt := by
    rcases h.parts.row hp' with ⟨p₁, hp₁, hstep⟩ | ⟨-, hnew⟩
    · rw [hstep.slot.1] at hlt
      obtain ⟨p, hp, hreq, hown⟩ := hs.old i p₁ hp₁ hlt
      exact ⟨p, hp, hreq.trans hstep.slot.1.symm, hown.trans hstep.slot.2.1.symm⟩
    · -- a new slot belongs to a request the call has just opened
      rw [hnew.request] at hlt
      exact absurd hs.grows (by omega)
  opened pk r' hr' hno := by
    rcases h.requests.row hr' with ⟨r, hr, hstep⟩ | ⟨-, hnew⟩
    · rw [hstep.keeps.1]
      exact h.hasSlots_step (hs.opened pk r hr hno)
    · exact hnew.slots
  flipped pk r' hr' hdel hw hnot := by
    rcases h.requests.row hr' with ⟨r, hr, hstep⟩ | ⟨-, hnew⟩
    · cases hstep with
      | same =>
          obtain ⟨hall, hne⟩ := hs.flipped pk r' hr hdel hw hnot
          exact ⟨h.allDone_step hr hall, hne⟩
      | certified _ _ hcomplete =>
          obtain ⟨-, hne, hreceipts⟩ := hcomplete hw
          exact ⟨h.allDone_step hr (Ledger.unreceiptedOwners_eq_nil.mp hreceipts), hne⟩
      | timedOut => exact absurd hdel (by simp [ErasureRequest.timeOut])
    · rw [hnew.erasing] at hdel
      exact absurd hdel (by simp)

theorem CallStep.since {call : Call} {s t : Db} (h : CallStep env call s t) : Since env s t :=
  h.moved.induct (fun _ _ _ hm hs => hs.step hm) (.refl env s)

/-- With every slot receipted, covering the registry is having the slots. -/
theorem covered_of_hasSlots {l : Ledger} {pk : Nat} {st : String} (hs : HasSlots env l pk st)
    (hall : AllDone l pk) (hne : env.report.ownersFor st ≠ []) : Covered env l pk st := by
  have hdone : ∀ o ∈ env.report.ownersFor st, ∃ i p, l.parts.get? i = some p ∧ p.request = pk ∧
      p.owner = o.name ∧ p.state = .done := by
    intro o ho
    obtain ⟨i, p, hp, hreq, hown⟩ := hs o ho
    exact ⟨i, p, hp, hreq, hown, hall i p hp hreq⟩
  refine ⟨hdone, ?_⟩
  obtain ⟨o, ho⟩ := List.exists_mem_of_ne_nil _ hne
  obtain ⟨i, p, hp, hreq, -, hst⟩ := hdone o ho
  exact ⟨i, p, hp, hreq, hst⟩

/-- **When a certificate covers the registry.** A call flips a request to DELETED without
waiver. Every owner the registry declares for the subject at that call then has a DONE
part on it, and there is at least one, if and only if each of them had a part on it before
the call, or the call itself opened the request. -/
theorem certified_covered_iff {call : Call} {s t : Db} (h : CallStep env call s t) {pk : Nat}
    {r : ErasureRequest} (hr : t.requests.get? pk = some r) (hdel : r.state = .deleted)
    (hw : r.completenessWaived = false)
    (hbefore : ∀ q, s.requests.get? pk = some q → q.state ≠ .deleted) :
    Covered env t.toLedger pk r.subjectType ↔
      (s.requests.get? pk = none ∨ HasSlots env s.toLedger pk r.subjectType) := by
  have hsince := h.since
  obtain ⟨hall, hne⟩ := hsince.flipped pk r hr hdel hw hbefore
  constructor
  · intro hcov
    cases hold : s.requests.get? pk with
    | none => exact Or.inl rfl
    | some q =>
        refine Or.inr fun o ho => ?_
        obtain ⟨i, p', hp', hreq', hown', -⟩ := hcov.1 o ho
        have hlt : p'.request < s.requests.nextPk := by
          rw [hreq']
          exact Table.get?_lt hold
        obtain ⟨p, hp, hreq, hown⟩ := hsince.old i p' hp' hlt
        exact ⟨i, p, hp, hreq.trans hreq', hown.trans hown'⟩
  · rintro (hno | hslots)
    · exact covered_of_hasSlots (hsince.opened pk r hr hno) hall hne
    · refine covered_of_hasSlots (fun o ho => ?_) hall hne
      obtain ⟨i, p, hp, hreq, hown⟩ := hslots o ho
      obtain ⟨p', hp', hreq', hown'⟩ := hsince.kept i p hp
      exact ⟨i, p', hp', hreq'.trans hreq, hown'.trans hown⟩

theorem callStep_after (call : Call) (env : Env) {s : Db} (hl : call.Loaded s) :
    CallStep env call s (call.after env s) := by
  obtain ⟨tr, hrun⟩ := runs_run (fun _ => True) (call.prog env) s
  exact ⟨hl, tr, _, hrun⟩

/-- The remote owner's receipt certifies the sample closure, and both its owners had their
slots. -/
theorem certified_covered_iff_erased : ∃ r, erased.requests.get? 0 = some r ∧
    (Covered (deploymentOn 30) erased.toLedger 0 r.subjectType ↔
      (erasing.requests.get? 0 = none ∨
        HasSlots (deploymentOn 30) erasing.toLedger 0 r.subjectType)) := by
  have hrow : (erased.requests.get? 0).map (fun r => (r.state, r.completenessWaived)) =
      some (.deleted, false) := by decide +kernel
  have hold : (erasing.requests.get? 0).map (·.state) = some .erasing := by decide +kernel
  obtain ⟨r, hr, heq⟩ := Option.map_eq_some_iff.mp hrow
  obtain ⟨hdel, hw⟩ := Prod.mk.inj heq
  refine ⟨r, hr, certified_covered_iff
    (callStep_after (.markSectionErased 0 "media" "job-7" []) (deploymentOn 30) trivial)
    hr hdel hw fun q hq => ?_⟩
  rw [hq] at hold
  rw [show q.state = .erasing from Option.some.inj hold]
  simp

/-- A deployment whose inventory was forgotten. -/
def unconfigured : Env where
  settings := {}
  now := days 30

/-- The inventory that should have been there. -/
def configured : Env := { unconfigured with settings := { dataOwners := .list [.bare "media"] } }

/-- The account's closure was executed without an inventory: nobody was asked. -/
def askedNobody : Db := Call.processExpiredGracePeriods.after unconfigured <|
  (Call.initiateClosure "u1" .manual).after deployment (storeOf [account])

theorem reachable_askedNobody : Reachable askedNobody :=
  ((reachable_storeOf _).run (.initiateClosure _ _) _ trivial).run
    .processExpiredGracePeriods _ trivial

/-- The closure as an operator loads it for a second execution. -/
def stuckClosure : Stored AccountClosureRequest :=
  ⟨0, ((askedNobody.closures.get? 0).getD (newClosure deployment "" .manual))⟩

/-- Executed again with the inventory in place, the erasure is certified with no receipt at
all. -/
theorem certified_with_zero_receipts : ¬ ∀ (env : Env) (call : Call) (s t : Db), Reachable s →
    CallStep env call s t → ∀ pk r, t.requests.get? pk = some r → r.state = .deleted →
      r.completenessWaived = false →
        (∀ q, s.requests.get? pk = some q → q.state ≠ .deleted) →
          Covered env t.toLedger pk r.subjectType := by
  intro hclaim
  have hloaded : (askedNobody.closures.get? 0).isSome = true := by decide +kernel
  have hstep : CallStep configured (.executeDeletion stuckClosure) askedNobody
      ((Call.executeDeletion stuckClosure).after configured askedNobody) :=
    callStep_after _ _ (Option.isSome_iff_exists.mp hloaded)
  have hrow : (((Call.executeDeletion stuckClosure).after configured askedNobody).requests.get?
      0).map (fun r => (r.state, r.completenessWaived)) = some (.deleted, false) := by
    decide +kernel
  have hold : (askedNobody.requests.get? 0).map (·.state) = some .erasing := by decide +kernel
  have hparts : ((Call.executeDeletion stuckClosure).after configured askedNobody).parts.rows =
      [] := by decide +kernel
  obtain ⟨r, hr, heq⟩ := Option.map_eq_some_iff.mp hrow
  obtain ⟨hdel, hw⟩ := Prod.mk.inj heq
  obtain ⟨-, i, p, hp, -⟩ := hclaim _ _ _ _ reachable_askedNobody hstep 0 r hr hdel hw
    fun q hq => by
      rw [hq] at hold
      rw [show q.state = .erasing from Option.some.inj hold]
      simp
  rw [Table.get?, hparts] at hp
  exact absurd hp (by simp)

end StapelGdpr
