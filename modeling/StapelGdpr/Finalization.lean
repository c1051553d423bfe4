import StapelGdpr.Completion
import StapelGdpr.LocalReceipts

/-!
# StapelGdpr.Finalization

An erasure that several calls finish between them. Each of them writes what it is for, a receipt
or the flags of the closure, and then looks at what the others have written. Whoever sees
everything flips the request, records the obligations and deletes the closure, and several may be
at it at once.

`Cleared`, `Flipped` and `Finished` are the three milestones, in the order in which they are
passed. `Sound` is what every statement of every call keeps, and `Relies` is what a call may count
on while the others move: a milestone stays passed, and the flags of the closure are the
execution's own.
-/

namespace StapelGdpr

open Prog

/-- An erasure that several calls finish: the settings and providers they share, the keys of the
request, its subject type and its closure. -/
structure JointErasure where
  env : Env
  pk : Nat
  correlationId : Uuid
  subjectType : String
  closure : Option Nat
  /-- The registry has no problems. -/
  sound : env.report.problems = []

namespace JointErasure

variable (j : JointErasure)

/-- The owners that claim the subject. -/
def owners : List DataOwner := j.env.report.ownersFor j.subjectType

/-- What one of the calls finds around it: everything but the clock is shared. -/
def envAt (now : Time) : Env := { j.env with now := now }

/-- What a certification at this moment takes besides receipts and a sound registry. -/
structure Gated (now : Time) : Prop where
  /-- Nothing is certified without receipts. -/
  hatch : j.env.settings.allowErasureWithoutReceipts = false
  /-- Some owner claims the subject. -/
  claimed : j.owners ≠ []
  /-- The declaration of the processors can be read, every window fits its column, and a
  `datetime` holds every date. -/
  declares : ∃ declared, (j.envAt now).Declares declared

/-! ### Milestones -/

/-- The owner's slot is receipted. -/
def Answered (name : String) (l : Ledger) : Prop :=
  ∀ i p, l.parts.get? i = some p → p.request = j.pk → p.owner = name → p.state = .done

/-- The execution is through with the closure: both of its flags are set. -/
def LocallyErased (l : Ledger) : Prop :=
  ∀ k, j.closure = some k → ∃ c, l.closures.get? k = some c ∧
    c.localErasureDone = true ∧ c.identityErasedAt.isSome = true

/-- Nothing stands against DELETED any more. -/
structure Cleared (l : Ledger) : Prop where
  receipts : AllDone l j.pk
  erased : j.LocallyErased l

/-- The request is DELETED. -/
def Flipped (l : Ledger) : Prop :=
  ∃ r, l.requests.get? j.pk = some r ∧ r.state = .deleted

/-- The request is DELETED, and so is all that follows from it. -/
structure Finished (l : Ledger) : Prop where
  flipped : j.Flipped l
  closure : ∀ k, j.closure = some k → ∃ c, l.closures.get? k = some c ∧ c.status = .deleted
  obligations : ∀ name ∈ j.env.settings.processors, l.hasObligation j.pk name = true

/-! ### What holds all along -/

/-- The row of the request. It is DELETED only without a waiver. -/
structure Row (r : ErasureRequest) : Prop where
  correlationId : r.correlationId = some j.correlationId
  subjectType : r.subjectType = j.subjectType
  closure : r.closure = j.closure
  state : r.state.isOpen = true ∨ r.state = .deleted ∧ r.completenessWaived = false

/-- The row of the closure. It is DELETED only after the request. -/
structure Standing (l : Ledger) (c : AccountClosureRequest) : Prop where
  underway : c.localErasureDone = true → c.status = .deleting ∨ c.status = .deleted
  deleted : c.status = .deleted → j.Flipped l

/-- What every statement of every call keeps. -/
structure Sound (l : Ledger) : Prop where
  request : ∃ r, l.requests.get? j.pk = some r ∧ j.Row r
  correlated : Correlated l
  slotted : Slotted l
  cleared : j.Flipped l → j.Cleared l
  closure : ∀ k, j.closure = some k → ∃ c, l.closures.get? k = some c ∧ j.Standing l c
  declared : ∀ i o, l.obligations.get? i = some o → o.request = j.pk →
    o.provider ∈ j.env.settings.processors
  unique : ∀ i i' o o', l.obligations.get? i = some o → l.obligations.get? i' = some o' →
    o.request = o'.request → o.provider = o'.provider → i = i'

/-! ### What no call undoes -/

/-- A part keeps its slot and its receipt. -/
def PartKept (p p' : ErasurePart) : Prop :=
  p'.request = p.request ∧ p'.owner = p.owner ∧ (p.state = .done → p'.state = .done)

/-- A closure keeps its flags, and stays DELETED. -/
def ClosureKept (c c' : AccountClosureRequest) : Prop :=
  (c.localErasureDone = true → c'.localErasureDone = true) ∧
    (c.identityErasedAt.isSome = true → c'.identityErasedAt.isSome = true) ∧
      (c.status = .deleted → c'.status = .deleted)

/-- What no call undoes. -/
structure Advances (l l' : Ledger) : Prop where
  parts : Table.Evolves (fun _ => PartKept) (fun _ _ => False) l.parts l'.parts
  closures : ∀ k c, j.closure = some k → l.closures.get? k = some c →
    ∃ c', l'.closures.get? k = some c' ∧ ClosureKept c c'
  flipped : j.Flipped l → j.Flipped l'
  obligations : ∀ name, l.hasObligation j.pk name = true → l'.hasObligation j.pk name = true

/-- The closure is as the execution left it, but that a finalization may have deleted it. -/
def Spares (l l' : Ledger) : Prop :=
  ∀ k c, j.closure = some k → l.closures.get? k = some c → ∃ c', l'.closures.get? k = some c' ∧
    c'.localErasureDone = c.localErasureDone ∧ (c'.status = c.status ∨ j.Flipped l')

/-- What a call counts on while the others move the store. Only the execution, whose `own` the
flags are, counts on them. -/
def Relies (own : Bool) (a b : Db) : Prop :=
  j.Sound a.toLedger → j.Sound b.toLedger ∧ j.Advances a.toLedger b.toLedger ∧
    (own = true → j.Spares a.toLedger b.toLedger)

variable {j} {a b c db s t : Db} {l l' : Ledger} {own : Bool} {k : Nat} {name : String}

theorem Advances.refl (l : Ledger) : j.Advances l l where
  parts := .refl fun _ _ _ => ⟨rfl, rfl, id⟩
  closures _ c _ hc := ⟨c, hc, id, id, id⟩
  flipped := id
  obligations _ := id

theorem PartKept.trans {p p' p'' : ErasurePart} (h : PartKept p p') (h' : PartKept p' p'') :
    PartKept p p'' :=
  ⟨h'.1.trans h.1, h'.2.1.trans h.2.1, fun hdone => h'.2.2 (h.2.2 hdone)⟩

theorem ClosureKept.trans {c c' c'' : AccountClosureRequest} (h : ClosureKept c c')
    (h' : ClosureKept c' c'') : ClosureKept c c'' :=
  ⟨fun hdone => h'.1 (h.1 hdone), fun hat => h'.2.1 (h.2.1 hat), fun hdel => h'.2.2 (h.2.2 hdel)⟩

theorem Advances.trans {l'' : Ledger} (h : j.Advances l l') (h' : j.Advances l' l'') :
    j.Advances l l'' where
  parts := h.parts.trans h'.parts (fun _ _ _ _ hp hp' => hp.trans hp') fun _ _ _ hnew _ => hnew
  closures k c hk hc := by
    obtain ⟨c', hc', hkept⟩ := h.closures k c hk hc
    obtain ⟨c'', hc'', hkept'⟩ := h'.closures k c' hk hc'
    exact ⟨c'', hc'', hkept.trans hkept'⟩
  flipped hf := h'.flipped (h.flipped hf)
  obligations name hhas := h'.obligations name (h.obligations name hhas)

theorem Relies.refl (own : Bool) (a : Db) : j.Relies own a a :=
  fun hs => ⟨hs, .refl _, fun _ _ c _ hc => ⟨c, hc, rfl, .inl rfl⟩⟩

theorem Relies.trans (h : j.Relies own a b) (h' : j.Relies own b c) : j.Relies own a c := by
  intro hs
  obtain ⟨hs', hadv, hspares⟩ := h hs
  obtain ⟨hs'', hadv', hspares'⟩ := h' hs'
  refine ⟨hs'', hadv.trans hadv', fun hown k q hk hq => ?_⟩
  obtain ⟨q', hq', hdone, hst⟩ := hspares hown k q hk hq
  obtain ⟨q'', hq'', hdone', hst'⟩ := hspares' hown k q' hk hq'
  refine ⟨q'', hq'', hdone'.trans hdone, ?_⟩
  rcases hst' with hst' | hflipped
  · rcases hst with hst | hflipped
    · exact .inl (hst'.trans hst)
    · exact .inr (hadv'.flipped hflipped)
  · exact .inr hflipped

/-- Who relies on less can be told more. -/
theorem Relies.mono {own' : Bool} (h : j.Relies own a b) (hle : own' = true → own = true) :
    j.Relies own' a b := by
  intro hs
  obtain ⟨hs', hadv, hspares⟩ := h hs
  exact ⟨hs', hadv, fun hown => hspares (hle hown)⟩

/-! ### What stays -/

theorem Advances.answered (h : j.Advances l l') (ha : j.Answered name l) : j.Answered name l' := by
  intro i p' hp' hreq howner
  obtain ⟨p, hp, hreq', howner', hdone⟩ := (h.parts.row hp').resolve_right fun hnew => hnew.2
  exact hdone (ha i p hp (hreq'.symm.trans hreq) (howner'.symm.trans howner))

theorem Advances.allDone (h : j.Advances l l') (hall : AllDone l j.pk) : AllDone l' j.pk := by
  intro i p' hp' hreq
  obtain ⟨p, hp, hreq', -, hdone⟩ := (h.parts.row hp').resolve_right fun hnew => hnew.2
  exact hdone (hall i p hp (hreq'.symm.trans hreq))

theorem Advances.locallyErased (h : j.Advances l l') (he : j.LocallyErased l) :
    j.LocallyErased l' := by
  intro k hk
  obtain ⟨c, hc, hdone, hat⟩ := he k hk
  obtain ⟨c', hc', hkept⟩ := h.closures k c hk hc
  exact ⟨c', hc', hkept.1 hdone, hkept.2.1 hat⟩

theorem Advances.cleared (h : j.Advances l l') (hc : j.Cleared l) : j.Cleared l' :=
  ⟨h.allDone hc.receipts, h.locallyErased hc.erased⟩

theorem Advances.finished (h : j.Advances l l') (hf : j.Finished l) : j.Finished l' where
  flipped := h.flipped hf.flipped
  closure k hk := by
    obtain ⟨c, hc, hdel⟩ := hf.closure k hk
    obtain ⟨c', hc', hkept⟩ := h.closures k c hk hc
    exact ⟨c', hc', hkept.2.2 hdel⟩
  obligations name hname := h.obligations name (hf.obligations name hname)

/-! ### The statements, one by one -/

/-- A statement that leaves the ledger alone. -/
theorem Relies.same (h : b.toLedger = a.toLedger) : j.Relies own a b := by
  intro hs
  rw [h]
  exact Relies.refl own a hs

/-- A receipt: the parts advance, and nothing else changes. -/
theorem Relies.parts (hparts : Table.Evolves (fun _ => PartKept) (fun _ _ => False) a.parts b.parts)
    (hreq : b.requests = a.requests) (hclo : b.closures = a.closures)
    (hobl : b.obligations = a.obligations) : j.Relies own a b := by
  intro hs
  have hflipped : j.Flipped b.toLedger → j.Flipped a.toLedger := by
    rw [Flipped, hreq]
    exact id
  have hadv : j.Advances a.toLedger b.toLedger := by
    refine ⟨hparts, fun k c _ hc => ⟨c, by rw [hclo]; exact hc, id, id, id⟩, ?_,
      fun name hhas => ?_⟩
    · rw [Flipped, Flipped, hreq]
      exact id
    · rwa [Ledger.hasObligation, hobl]
  refine ⟨⟨?_, ?_, ?_, fun hf => hadv.cleared (hs.cleared (hflipped hf)), ?_, ?_, ?_⟩, hadv,
    fun _ k c _ hc => ⟨c, by rw [hclo]; exact hc, rfl, .inl rfl⟩⟩
  · rw [hreq]
    exact hs.request
  · exact hs.correlated.kept fun i r hr => ⟨r, hreq ▸ hr, rfl⟩
  · exact hs.slotted.evolves hparts fun _ _ _ hp => ⟨hp.1, hp.2.1⟩
  · intro k hk
    obtain ⟨c, hc, hst⟩ := hs.closure k hk
    exact ⟨c, by rw [hclo]; exact hc, hst.underway, fun hdel => hadv.flipped (hst.deleted hdel)⟩
  · rw [hobl]
    exact hs.declared
  · rw [hobl]
    exact hs.unique

/-- The request save of a certification. -/
theorem Relies.certify {now : Time} (hcleared : j.Cleared a.toLedger) :
    j.Relies own a { a with requests := a.requests.modify j.pk (·.certify now false) } := by
  intro hs
  obtain ⟨r, hr, hrow⟩ := hs.request
  have hget : (a.requests.modify j.pk (·.certify now false)).get? j.pk =
      some (r.certify now false) := Table.get?_modify_self _ hr
  have hflipped : j.Flipped { a with
      requests := a.requests.modify j.pk (·.certify now false) }.toLedger := ⟨_, hget, rfl⟩
  refine ⟨⟨?_, ?_, hs.slotted, fun _ => ⟨hcleared.receipts, hcleared.erased⟩, ?_, hs.declared,
    hs.unique⟩, ⟨.refl fun _ _ _ => ⟨rfl, rfl, id⟩, fun _ c _ hc => ⟨c, hc, id, id, id⟩,
      fun _ => hflipped, fun _ => id⟩, fun _ _ c _ hc => ⟨c, hc, rfl, .inl rfl⟩⟩
  · exact ⟨_, hget, hrow.correlationId, hrow.subjectType, hrow.closure, .inr ⟨rfl, rfl⟩⟩
  · refine hs.correlated.kept fun i r' hr' => ?_
    obtain ⟨q, hq, ⟨-, rfl⟩ | ⟨-, rfl⟩⟩ := get?_modify_some hr'
    · exact ⟨q, hq, rfl⟩
    · exact ⟨_, hq, rfl⟩
  · intro k hk
    obtain ⟨c, hc, hst⟩ := hs.closure k hk
    exact ⟨c, hc, hst.underway, fun _ => hflipped⟩

/-- The row of one processor, when there was none. -/
theorem Relies.obligation {o : SubprocessorObligation} (hreq : o.request = j.pk)
    (hname : o.provider ∈ j.env.settings.processors)
    (hnone : a.hasObligation o.request o.provider = false) :
    j.Relies own a { a with obligations := a.obligations.insert o } := by
  intro hs
  have hfree := hasObligation_eq_false.mp hnone
  have hrow : ∀ {i o'}, (a.obligations.insert o).get? i = some o' →
      i = a.obligations.nextPk ∧ o' = o ∨ a.obligations.get? i = some o' := by
    intro i o' ho'
    rw [Table.get?_insert] at ho'
    split at ho'
    · exact .inl ⟨‹_›, (Option.some.inj ho').symm⟩
    · exact .inr ho'
  refine ⟨⟨hs.request, ⟨hs.correlated.present, hs.correlated.unique⟩, hs.slotted, fun hf =>
    ⟨(hs.cleared hf).receipts, (hs.cleared hf).erased⟩, fun k hk => ?_, ?_, ?_⟩,
    ⟨.refl fun _ _ _ => ⟨rfl, rfl, id⟩, fun _ c _ hc => ⟨c, hc, id, id, id⟩, id, ?_⟩,
    fun _ _ c _ hc => ⟨c, hc, rfl, .inl rfl⟩⟩
  · obtain ⟨c, hc, hst⟩ := hs.closure k hk
    exact ⟨c, hc, hst.underway, hst.deleted⟩
  · intro i o' ho' hreq'
    rcases hrow ho' with ⟨-, rfl⟩ | hold
    · exact hname
    · exact hs.declared i o' hold hreq'
  · intro i i' o₁ o₂ h₁ h₂ hreq' hprov
    rcases hrow h₁ with ⟨rfl, rfl⟩ | hold₁
    · rcases hrow h₂ with ⟨rfl, -⟩ | hold₂
      · rfl
      · exact absurd hprov.symm (hfree i' o₂ hold₂ hreq'.symm)
    · rcases hrow h₂ with ⟨rfl, rfl⟩ | hold₂
      · exact absurd hprov (hfree i o₁ hold₁ hreq')
      · exact hs.unique i i' o₁ o₂ hold₁ hold₂ hreq' hprov
  · intro name hhas
    show ({ a with obligations := a.obligations.insert o } : Db).hasObligation j.pk name = true
    rw [hasObligation_insert, hhas, Bool.true_or]

/-- A save of the closure. -/
theorem Relies.closure {f : AccountClosureRequest → AccountClosureRequest}
    (hk : j.closure = some k) (hclo : b.closures = a.closures.modify k f)
    (hreq : b.requests = a.requests) (hparts : b.parts = a.parts)
    (hobl : b.obligations = a.obligations)
    (hf : j.Sound a.toLedger → ∀ c, a.closures.get? k = some c → j.Standing a.toLedger c →
      ClosureKept c (f c) ∧ j.Standing a.toLedger (f c) ∧ (own = true →
        (f c).localErasureDone = c.localErasureDone ∧
          ((f c).status = c.status ∨ j.Flipped a.toLedger))) : j.Relies own a b := by
  intro hs
  obtain ⟨c, hc, hst⟩ := hs.closure k hk
  obtain ⟨hkept, hst', hspares⟩ := hf hs c hc hst
  have hget : b.closures.get? k = some (f c) := by
    rw [hclo]
    exact Table.get?_modify_self f hc
  -- the erasure has one closure
  have hone : ∀ k' q, j.closure = some k' → a.closures.get? k' = some q → k' = k ∧ q = c := by
    intro k' q hk' hq
    obtain rfl := Option.some.inj (hk'.symm.trans hk)
    exact ⟨rfl, Option.some.inj (hq.symm.trans hc)⟩
  have hflipped : j.Flipped b.toLedger ↔ j.Flipped a.toLedger := by
    rw [Flipped, Flipped, hreq]
  have hadv : j.Advances a.toLedger b.toLedger := by
    refine ⟨by rw [hparts]; exact .refl fun _ _ _ => ⟨rfl, rfl, id⟩, fun k' q hk' hq => ?_,
      hflipped.mpr, fun name hhas => ?_⟩
    · obtain ⟨rfl, rfl⟩ := hone k' q hk' hq
      exact ⟨f q, hget, hkept⟩
    · rwa [Ledger.hasObligation, hobl]
  refine ⟨⟨?_, ?_, ?_, fun hf => hadv.cleared (hs.cleared (hflipped.mp hf)), ?_, ?_, ?_⟩, hadv,
    fun hown k' q hk' hq => ?_⟩
  · rw [hreq]
    exact hs.request
  · exact hs.correlated.kept fun i r hr => ⟨r, hreq ▸ hr, rfl⟩
  · intro i i' p q hp hq
    rw [hparts] at hp hq
    exact hs.slotted i i' p q hp hq
  · intro k' hk'
    obtain rfl := Option.some.inj (hk'.symm.trans hk)
    exact ⟨f c, hget, hst'.underway, fun hdel => hflipped.mpr (hst'.deleted hdel)⟩
  · rw [hobl]
    exact hs.declared
  · rw [hobl]
    exact hs.unique
  · obtain ⟨rfl, rfl⟩ := hone k' q hk' hq
    obtain ⟨hdone, hstatus⟩ := hspares hown
    exact ⟨f q, hget, hdone, hstatus.imp_right hflipped.mpr⟩

end JointErasure

end StapelGdpr
