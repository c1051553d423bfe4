import StapelGdpr.Run

/-!
# StapelGdpr.Invariants

What the steps of the machine never undo, row by row, and the invariants every run keeps
that more than one result needs: a receipted part stays as it is, a terminal request stays
as it is, a flag of a closure stays set, and no two requests share a correlation id.
-/

namespace StapelGdpr

variable {env : Env} {op : Op} {db db' : Db}

/-! ### Rows that no longer move -/

theorem PartStep.done {p p' : ErasurePart} (h : PartStep p p') (hdone : p.state = .done) :
    p' = p := by
  cases h with
  | same => rfl
  | receipted hopen => exact absurd hdone hopen
  | timedOut hpending => rw [hdone] at hpending; exact absurd hpending (by simp)

/-- A part keeps its slot, and the note of a sweep is for ever. -/
theorem PartStep.slot {p p' : ErasurePart} (h : PartStep p p') :
    p'.request = p.request ∧ p'.owner = p.owner ∧
    (p.note = timedOutNote → p'.note = timedOutNote) := by
  cases h with
  | same => exact ⟨rfl, rfl, id⟩
  | receipted _ _ _ _ hrequest howner hnote => exact ⟨hrequest, howner, fun h => hnote.trans h⟩
  | timedOut => exact ⟨rfl, rfl, fun _ => rfl⟩

/-- DELETED and TIMEOUT are final. -/
theorem RequestStep.settled {pk : Nat} {r r' : ErasureRequest} (h : RequestStep env db pk r r')
    (hclosed : r.state.isOpen = false) : r' = r := by
  cases h with
  | same => rfl
  | certified hopen => rw [hclosed] at hopen; exact absurd hopen (by simp)
  | timedOut hopen => rw [hclosed] at hopen; exact absurd hopen (by simp)

/-- The flags of a closure are set once and for all. -/
theorem ClosureStep.flags {c c' : AccountClosureRequest} (h : ClosureStep c c') :
    (c.localErasureDone = true → c'.localErasureDone = true) ∧
      (c.identityErasedAt.isSome = true → c'.identityErasedAt.isSome = true) := by
  cases h <;> exact ⟨by simp [AccountClosureRequest.cancel, AccountClosureRequest.startDeleting,
      AccountClosureRequest.eraseIdentity, AccountClosureRequest.finishLocal,
      AccountClosureRequest.delete],
    by simp [AccountClosureRequest.cancel, AccountClosureRequest.startDeleting,
      AccountClosureRequest.eraseIdentity, AccountClosureRequest.finishLocal,
      AccountClosureRequest.delete]⟩

theorem AccountClosureRequest.erased_iff {c : AccountClosureRequest} :
    c.erased = true ↔
      c.status = .deleting ∧ c.localErasureDone = true ∧ c.identityErasedAt.isSome = true := by
  simp [AccountClosureRequest.erased, and_assoc]

/-- A request keeps what it was opened with. -/
theorem RequestStep.keeps {pk : Nat} {r r' : ErasureRequest} (h : RequestStep env db pk r r') :
    r'.subjectType = r.subjectType ∧ r'.subjectKey = r.subjectKey ∧
      r'.correlationId = r.correlationId ∧ r'.closure = r.closure := by
  cases h <;> exact ⟨rfl, rfl, rfl, rfl⟩

/-- A terminal request is the same row for ever. -/
theorem Onward.settled {s t : Db} (h : Onward s t) {pk : Nat} {r : ErasureRequest}
    (hr : s.requests.get? pk = some r) (hclosed : r.state.isOpen = false) :
    t.requests.get? pk = some r :=
  h.induct (P := fun db => db.requests.get? pk = some r)
    (fun env op a b hm ha => by
      obtain ⟨r', hr', hstep⟩ := hm.requests.kept ha
      rwa [hstep.settled hclosed] at hr')
    (fun _ _ _ _ ha => ha) hr

/-! ### Closures in their grace period -/

/-- A user has at most one closure in its grace period. -/
def OneGrace (l : Ledger) : Prop :=
  ∀ i j c c', l.closures.get? i = some c → l.closures.get? j = some c' →
    c.status = .grace → c'.status = .grace → c.userId = c'.userId → i = j

/-- A closure keeps its user, and none returns to its grace period. -/
theorem ClosureStep.grace {c c' : AccountClosureRequest} (h : ClosureStep c c') :
    c'.userId = c.userId ∧ (c'.status = .grace → c.status = .grace) := by
  cases h <;> exact ⟨rfl, by simp [AccountClosureRequest.cancel, AccountClosureRequest.startDeleting,
    AccountClosureRequest.eraseIdentity, AccountClosureRequest.finishLocal,
    AccountClosureRequest.delete]⟩

theorem OneGrace.step (hs : OneGrace db.toLedger) (h : Move env op db db') :
    OneGrace db'.toLedger := by
  intro i j c₁ c₂ h₁ h₂ hg₁ hg₂ hu
  rcases h.closures.row h₁ with ⟨q₁, hq₁, hstep₁⟩ | ⟨-, hnew₁⟩
  · obtain ⟨hu₁, hold₁⟩ := hstep₁.grace
    rcases h.closures.row h₂ with ⟨q₂, hq₂, hstep₂⟩ | ⟨-, hnew₂⟩
    · obtain ⟨hu₂, hold₂⟩ := hstep₂.grace
      exact hs i j q₁ q₂ hq₁ hq₂ (hold₁ hg₁) (hold₂ hg₂) (by rw [← hu₁, ← hu₂, hu])
    · exact absurd (hold₁ hg₁) (hnew₂.free i q₁ hq₁ (by rw [← hu₁, hu])).1
  · rcases h.closures.row h₂ with ⟨q₂, hq₂, hstep₂⟩ | ⟨-, hnew₂⟩
    · obtain ⟨hu₂, hold₂⟩ := hstep₂.grace
      exact absurd (hold₂ hg₂) (hnew₁.free j q₂ hq₂ (by rw [← hu₂, hu])).1
    · exact hnew₁.key.trans hnew₂.key.symm

theorem Reachable.oneGrace {s : Db} (h : Reachable s) : OneGrace s.toLedger :=
  h.induct (P := fun db => OneGrace db.toLedger) (fun _ _ _ _ hm hc => hc.step hm)
    (fun _ _ _ _ hc => hc) (fun i j c c' hc => absurd hc (by simp [Table.get?]))

/-! ### Full sets of receipts -/

/-- Every slot of the request is receipted. -/
def AllDone (l : Ledger) (request : Nat) : Prop :=
  ∀ i p, l.parts.get? i = some p → p.request = request → p.state = .done

/-- A full set of receipts stays full: later slots belong to later requests. -/
theorem Move.allDone_step (h : Move env op db db') {pk : Nat} {r : ErasureRequest}
    (hr : db.requests.get? pk = some r) (hall : AllDone db.toLedger pk) :
    AllDone db'.toLedger pk := by
  intro i p' hp hreq
  rcases h.parts.row hp with ⟨p, hold, hstep⟩ | ⟨-, hnew⟩
  · have hdone := hall i p hold (hstep.slot.1 ▸ hreq)
    rw [hstep.done hdone]
    exact hdone
  · rw [hnew.request] at hreq
    exact absurd (Table.get?_lt hr) (by omega)

/-! ### Parts belong to requests -/

/-- Every part is a slot of a request that exists: the foreign key of the parts. -/
def Linked (l : Ledger) : Prop :=
  ∀ i p, l.parts.get? i = some p → p.request < l.requests.nextPk

theorem Linked.step (hs : Linked db.toLedger) (h : Move env op db db') : Linked db'.toLedger := by
  intro i p' hp
  rcases h.parts.row hp with ⟨p, hold, hstep⟩ | ⟨hno, hnew⟩
  · rw [hstep.slot.1]
    exact Nat.lt_of_lt_of_le (hs i p hold) h.requests.nextPk_le
  · rw [hnew.request]
    cases h with
    | erasureOpened ho =>
        obtain ⟨by', -, -, -, -, hdb⟩ := openErasure_ok ho
        rw [hdb]
        simp
    | obligation hr ho =>
        obtain ⟨-, -, -, rfl⟩ := createObligation_ok ho
        exact absurd (hp.symm.trans hno) (by simp)
    | localReceipt | receipted | partsTimedOut =>
        simp only [Table.get?_modify, Table.get?_update, hno] at hp
        simp at hp
    | _ => exact absurd (hp.symm.trans hno) (by simp)

theorem Reachable.linked {s : Db} (h : Reachable s) : Linked s.toLedger :=
  h.induct (P := fun db => Linked db.toLedger) (fun _ _ _ _ hm hc => hc.step hm)
    (fun _ _ _ _ hc => hc) (fun i p hp => absurd hp (by simp [Table.get?]))

/-! ### The subprocessor ledger -/

/-- There is one obligation for a pair of request and processor. -/
def Obliged (l : Ledger) : Prop :=
  ∀ i j o o', l.obligations.get? i = some o → l.obligations.get? j = some o' →
    o.request = o'.request → o.provider = o'.provider → i = j

theorem obliged_empty : Obliged {} :=
  fun _ _ _ _ h => absurd h (by simp [Table.get?])

theorem hasObligation_eq_false {l : Ledger} {request : Nat} {provider : String} :
    l.hasObligation request provider = false ↔ ∀ i o, l.obligations.get? i = some o →
      o.request = request → o.provider ≠ provider := by
  rw [← Bool.not_eq_true, Ledger.hasObligation, Table.any_eq_true]
  constructor
  · intro h i o ho hreq hprov
    exact h ⟨i, o, ho, by simp [hreq, hprov]⟩
  · rintro h ⟨i, o, ho, hp⟩
    simp only [Bool.and_eq_true, decide_eq_true_eq] at hp
    exact h i o ho hp.1 hp.2

theorem Obliged.step (hs : Obliged db.toLedger) (h : Move env op db db') :
    Obliged db'.toLedger := by
  intro i j o₁ o₂ h₁ h₂ hreq hprov
  rcases h.obligations.row h₁ with ⟨q₁, hq₁, rfl⟩ | ⟨-, hi, hnew₁⟩
  · rcases h.obligations.row h₂ with ⟨q₂, hq₂, rfl⟩ | ⟨-, -, hnew₂⟩
    · exact hs i j _ _ hq₁ hq₂ hreq hprov
    · exact absurd hprov (hasObligation_eq_false.mp hnew₂ i _ hq₁ hreq)
  · rcases h.obligations.row h₂ with ⟨q₂, hq₂, rfl⟩ | ⟨-, hj, -⟩
    · exact absurd hprov.symm (hasObligation_eq_false.mp hnew₁ j _ hq₂ hreq.symm)
    · exact hi.trans hj.symm

theorem Reachable.obliged {s : Db} (h : Reachable s) : Obliged s.toLedger :=
  h.induct (P := fun db => Obliged db.toLedger) (fun _ _ _ _ hm hc => hc.step hm)
    (fun _ _ _ _ hc => hc) obliged_empty

/-! ### Correlation ids -/

/-- Every request has a correlation id, and it has it alone. -/
structure Correlated (l : Ledger) : Prop where
  present : ∀ i r, l.requests.get? i = some r → ∃ id, r.correlationId = some id
  unique : ∀ i j r r' id, l.requests.get? i = some r → l.requests.get? j = some r' →
    r.correlationId = some id → r'.correlationId = some id → i = j

theorem correlated_empty : Correlated {} where
  present i r h := absurd h (by simp [Table.get?])
  unique i j r r' id h := absurd h (by simp [Table.get?])

/-- Requests that keep their ids stay correlated. -/
theorem Correlated.kept {l l' : Ledger} (h : Correlated l)
    (hold : ∀ i r', l'.requests.get? i = some r' →
      ∃ r, l.requests.get? i = some r ∧ r'.correlationId = r.correlationId) : Correlated l' where
  present i r' hr' := by
    obtain ⟨r, hr, hid⟩ := hold i r' hr'
    exact hid ▸ h.present i r hr
  unique i j r₁ r₂ id h₁ h₂ hid₁ hid₂ := by
    obtain ⟨q₁, hq₁, heq₁⟩ := hold i r₁ h₁
    obtain ⟨q₂, hq₂, heq₂⟩ := hold j r₂ h₂
    exact h.unique i j q₁ q₂ id hq₁ hq₂ (heq₁ ▸ hid₁) (heq₂ ▸ hid₂)

theorem Correlated.step (hs : Correlated db.toLedger) (h : Move env op db db') :
    Correlated db'.toLedger where
  present i r' hr' := by
    rcases h.requests.row hr' with ⟨r, hr, hstep⟩ | ⟨-, hnew⟩
    · rw [hstep.keeps.2.2.1]
      exact hs.present i r hr
    · exact hnew.correlated.imp fun _ hid => hid.1
  unique i j r₁ r₂ id h₁ h₂ hid₁ hid₂ := by
    rcases h.requests.row h₁ with ⟨q₁, hq₁, hstep₁⟩ | ⟨-, hnew₁⟩
    · rw [hstep₁.keeps.2.2.1] at hid₁
      rcases h.requests.row h₂ with ⟨q₂, hq₂, hstep₂⟩ | ⟨-, hnew₂⟩
      · rw [hstep₂.keeps.2.2.1] at hid₂
        exact hs.unique i j q₁ q₂ id hq₁ hq₂ hid₁ hid₂
      · obtain ⟨id', hid', hfresh⟩ := hnew₂.correlated
        rw [hid'] at hid₂
        exact absurd (hid₁.trans hid₂.symm) (hfresh i q₁ hq₁)
    · rcases h.requests.row h₂ with ⟨q₂, hq₂, hstep₂⟩ | ⟨-, hnew₂⟩
      · rw [hstep₂.keeps.2.2.1] at hid₂
        obtain ⟨id', hid', hfresh⟩ := hnew₁.correlated
        rw [hid'] at hid₁
        exact absurd (hid₂.trans hid₁.symm) (hfresh j q₂ hq₂)
      · exact hnew₁.key.trans hnew₂.key.symm

theorem Reachable.correlated {s : Db} (h : Reachable s) : Correlated s.toLedger :=
  h.induct (P := fun db => Correlated db.toLedger) (fun _ _ _ _ hm hc => hc.step hm)
    (fun _ _ _ _ hc => hc) correlated_empty

/-- The lookup by correlation id finds the one request that carries it. -/
theorem Correlated.lookup {l : Ledger} (h : Correlated l) {pk : Nat} {r : ErasureRequest}
    {id : Uuid} (hr : l.requests.get? pk = some r) (hid : r.correlationId = some id) :
    l.correlated id = some ⟨pk, r⟩ :=
  Table.first?_eq_some hr (by simpa using hid)
    fun i r' hr' hid' => h.unique i pk r' r id hr' hr (by simpa using hid') hid

end StapelGdpr
