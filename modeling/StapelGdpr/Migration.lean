import StapelGdpr.Store

/-!
# StapelGdpr.Migration

`move_deletion_parts_into_erasures` of migration 0004: the receipts of a 0.4.x closure become
those of an erasure request.

The state of a migrated request is read off its closure's status alone, where the machine it
joins ties it to the parts: `sweep_deletion_deadlines` never leaves a part TIMEOUT under a
request that is still open. So a closure that was waiting on a timed-out owner arrives as
pending, and the migration lands where the machine could be exactly when no such closure exists
(`lands_iff`).
-/

namespace StapelGdpr

/-! ### The 0.4.x tables -/

/-- `AccountDeletionPart`: the receipt slot of one service in one closure. -/
structure AccountDeletionPart where
  closure : Nat
  service : String
  status : PartState := .pending
  kind : OwnerKind := .remote
  receiptId : String := ""
  completedAt : Option Time := none
  deadline : Option Time := none
  error : Option String := none
  deriving DecidableEq, Repr

/-- A 0.4.x database, with the two constraints of its tables that the migration meets. -/
structure LegacyDb where
  closures : Table AccountClosureRequest := {}
  parts : Table AccountDeletionPart := {}
  /-- `correlation_id` is unique, where it is set. -/
  distinct : ∀ i j c c', closures.get? i = some c → closures.get? j = some c' →
    c.correlationId ≠ none → c.correlationId = c'.correlationId → i = j
  /-- The foreign key of a part. -/
  owned : ∀ i p, parts.get? i = some p → (closures.get? p.closure).isSome = true

/-- `AccountDeletionPart.objects.filter(closure_id=closure.pk)`. -/
def LegacyDb.partsOf (old : LegacyDb) (closure : Nat) : List AccountDeletionPart :=
  (old.parts.select (·.closure = closure)).map (·.row)

/-! ### The migration -/

/-- The state a migrated request starts in. -/
def ClosureStatus.migrated : ClosureStatus → ErasureState
  | .grace => .queued
  | .deleting => .erasing
  | .deleted => .deleted
  | .cancelled => .queued

/-- The request of a closure. -/
def AccountClosureRequest.erasure (closure : AccountClosureRequest) (pk : Nat) :
    ErasureRequest where
  subjectType := "account"
  subjectKey := closure.userId
  requestedBy := some closure.userId
  origin := if closure.trigger = .inactivity then .inactivity else .user
  requestedAt := closure.initiatedAt
  graceEndsAt := some closure.graceEndsAt
  -- the 0.4.x machine ran on the grace period itself
  dueAt := closure.graceEndsAt
  state := closure.status.migrated
  completedAt := closure.deletedAt
  correlationId := closure.correlationId
  registryVersion := closure.registryVersion
  completenessWaived := closure.completenessWaived
  closure := some pk

/-- The receipt slot of a part. -/
def AccountDeletionPart.moved (part : AccountDeletionPart) (request : Nat) : ErasurePart where
  request := request
  owner := part.service
  state := part.status
  kind := part.kind
  receiptId := part.receiptId
  receiptAt := part.completedAt
  deadline := part.deadline
  note := part.error.getD ""

/-- `ErasureRequest.objects.create`: `correlation_id` is unique, where it is set. -/
def Ledger.createErasure (l : Ledger) (row : ErasureRequest) : Except Error (Nat × Ledger) :=
  if l.requests.any (fun r => row.correlationId ≠ none && r.correlationId = row.correlationId) then
    .error .integrityError
  else .ok (l.requests.nextPk, { l with requests := l.requests.insert row })

/-- One turn of the loop. -/
def LegacyDb.moveClosure (old : LegacyDb) (l : Ledger) (closure : Stored AccountClosureRequest) :
    Except Error Ledger :=
  let parts := old.partsOf closure.pk
  if parts = [] then .ok l
  else do
    let (erasure, l) ← l.createErasure (closure.row.erasure closure.pk)
    return { l with parts := l.parts.insertAll (parts.map (·.moved erasure)) }

/-- `move_deletion_parts_into_erasures`, into the tables the migration has just created. -/
def LegacyDb.moveDeletionPartsIntoErasures (old : LegacyDb) : Except Error Ledger :=
  old.closures.entries.foldlM old.moveClosure { closures := old.closures }

/-! ### What it leaves -/

/-- The parts of a request, in key order. -/
def Ledger.partsOf (l : Ledger) (request : Nat) : List ErasurePart :=
  (l.parts.select (·.request = request)).map (·.row)

/-- The closures that have parts, of a list of them. -/
def LegacyDb.carried (old : LegacyDb) (closures : List (Stored AccountClosureRequest)) :
    List (Stored AccountClosureRequest) :=
  closures.filter fun c => old.partsOf c.pk ≠ []

/-- The loop has come past these closures. -/
structure CarriedOver (old : LegacyDb) (closures : List (Stored AccountClosureRequest)) (l : Ledger) :
    Prop where
  kept : l.closures = old.closures
  requests : l.requests.rows = (old.carried closures).map fun c => c.row.erasure c.pk
  parts : ∀ i c, (old.carried closures)[i]? = some c →
    l.partsOf i = (old.partsOf c.pk).map (·.moved i)
  owned : ∀ i, l.requests.nextPk ≤ i → l.partsOf i = []

theorem carried_append {old : LegacyDb} {closures : List (Stored AccountClosureRequest)}
    {c : Stored AccountClosureRequest} : old.carried (closures ++ [c]) =
      old.carried closures ++ if old.partsOf c.pk = [] then [] else [c] := by
  unfold LegacyDb.carried
  rw [List.filter_append]
  by_cases hnone : old.partsOf c.pk = [] <;> simp [hnone]

theorem partsOf_insertAll {l l' : Ledger} {moved : List AccountDeletionPart} {i request : Nat}
    (h : l'.parts = l.parts.insertAll (moved.map (·.moved i))) : l'.partsOf request =
      l.partsOf request ++ if request = i then moved.map (·.moved i) else [] := by
  have hown : ∀ p ∈ moved.map (·.moved i), p.request = i := by
    intro p hp
    obtain ⟨part, -, rfl⟩ := List.mem_map.mp hp
    rfl
  unfold Ledger.partsOf
  rw [Table.map_row_select, Table.map_row_select, h]
  show List.filter _ (l.parts.rows ++ _) = _
  rw [List.filter_append]
  congr 1
  by_cases hsame : request = i
  · rw [if_pos hsame, hsame]
    exact List.filter_eq_self.mpr fun p hp => by simpa using hown p hp
  · rw [if_neg hsame]
    refine List.filter_eq_nil_iff.mpr fun p hp => ?_
    rw [hown p hp]
    simpa using fun h : i = request => hsame h.symm

/-- One turn: a closure whose correlation id is new comes across with its parts. -/
theorem CarriedOver.moveClosure {old : LegacyDb} {closures : List (Stored AccountClosureRequest)}
    {l : Ledger} {c : Stored AccountClosureRequest} (h : CarriedOver old closures l)
    (hfresh : ∀ c' ∈ closures, c.row.correlationId ≠ none →
      c'.row.correlationId ≠ c.row.correlationId) :
    ∃ l', old.moveClosure l c = .ok l' ∧ CarriedOver old (closures ++ [c]) l' := by
  by_cases hnone : old.partsOf c.pk = []
  · refine ⟨l, by simp [LegacyDb.moveClosure, hnone], h.kept, ?_, ?_, h.owned⟩
    · rw [carried_append, if_pos hnone, List.append_nil]
      exact h.requests
    · rw [carried_append, if_pos hnone, List.append_nil]
      exact h.parts
  have hcreate : l.createErasure (c.row.erasure c.pk) = .ok (l.requests.nextPk,
      { l with requests := l.requests.insert (c.row.erasure c.pk) }) := by
    refine if_neg fun hclash => ?_
    obtain ⟨pk, r, hr, hsame⟩ := Table.any_eq_true.mp hclash
    have hmem : r ∈ l.requests.rows := List.mem_of_getElem? hr
    rw [h.requests] at hmem
    obtain ⟨c', hc', rfl⟩ := List.mem_map.mp hmem
    simp only [Bool.and_eq_true, decide_eq_true_eq] at hsame
    exact hfresh c' (List.mem_of_mem_filter hc') hsame.1 hsame.2
  have hlength : (old.carried closures).length = l.requests.nextPk := by
    rw [Table.nextPk, h.requests, List.length_map]
  have hmoved : old.moveClosure l c = .ok { l with
      requests := l.requests.insert (c.row.erasure c.pk)
      parts := l.parts.insertAll ((old.partsOf c.pk).map (·.moved l.requests.nextPk)) } := by
    rw [LegacyDb.moveClosure, if_neg hnone, hcreate]
    rfl
  refine ⟨_, hmoved, h.kept, ?_, ?_, ?_⟩
  · rw [carried_append, if_neg hnone, List.map_append, ← h.requests]
    rfl
  · intro i c' hc'
    rw [carried_append, if_neg hnone] at hc'
    rw [partsOf_insertAll (l := l) rfl]
    by_cases hlast : i = l.requests.nextPk
    · -- the request that has just been created had no parts
      rw [hlast, ← hlength, List.getElem?_append_right (Nat.le_refl _), Nat.sub_self] at hc'
      obtain rfl := Option.some.inj hc'
      rw [if_pos hlast, h.owned i hlast.ge, hlast, List.nil_append]
    · have hold : i < (old.carried closures).length := by
        have hlt := (List.getElem?_eq_some_iff.mp hc').1
        rw [List.length_append] at hlt
        simp only [List.length_cons, List.length_nil] at hlt
        omega
      rw [List.getElem?_append_left hold] at hc'
      rw [if_neg hlast, List.append_nil]
      exact h.parts i c' hc'
  · intro i hle
    rw [partsOf_insertAll (l := l) rfl]
    have hlast : i ≠ l.requests.nextPk := by
      rw [Table.nextPk_insert] at hle
      omega
    rw [if_neg hlast, List.append_nil]
    exact h.owned i (by rw [Table.nextPk_insert] at hle; omega)

theorem entries_ordered (old : LegacyDb) :
    old.closures.entries.Pairwise fun o o' => o.pk < o'.pk := by
  have hselect := old.closures.pairwise_pk_select fun _ => true
  simpa [Table.select] using hselect

/-- Whoever comes later in the loop has a correlation id of their own. -/
theorem entries_fresh {old : LegacyDb} {closures rest : List (Stored AccountClosureRequest)}
    {c : Stored AccountClosureRequest} (hentries : old.closures.entries = closures ++ c :: rest) :
    ∀ c' ∈ closures, c.row.correlationId ≠ none → c'.row.correlationId ≠ c.row.correlationId := by
  intro c' hc' hset hsame
  have hrow : old.closures.get? c.pk = some c.row :=
    Table.mem_entries.mp (hentries ▸ List.mem_append_right _ (List.mem_cons_self ..))
  have hrow' : old.closures.get? c'.pk = some c'.row :=
    Table.mem_entries.mp (hentries ▸ List.mem_append_left _ hc')
  have hpk := old.distinct _ _ _ _ hrow hrow' hset hsame.symm
  have hordered := entries_ordered old
  rw [hentries] at hordered
  have hlt := (List.pairwise_append.mp hordered).2.2 c' hc' c (List.mem_cons_self ..)
  omega

/-- The migration comes past every closure. -/
theorem moveDeletionPartsIntoErasures_ok (old : LegacyDb) :
    ∃ l, old.moveDeletionPartsIntoErasures = .ok l ∧ CarriedOver old old.closures.entries l := by
  have hloop : ∀ (rest closures : List (Stored AccountClosureRequest)) (l : Ledger),
      old.closures.entries = closures ++ rest → CarriedOver old closures l →
      ∃ l', rest.foldlM old.moveClosure l = .ok l' ∧ CarriedOver old old.closures.entries l' := by
    intro rest
    induction rest with
    | nil =>
        intro closures l hentries h
        rw [List.append_nil] at hentries
        exact ⟨l, rfl, hentries ▸ h⟩
    | cons c rest ih =>
        intro closures l hentries h
        obtain ⟨l₁, hmove, h₁⟩ := h.moveClosure (entries_fresh hentries)
        obtain ⟨l₂, hrest, h₂⟩ := ih (closures ++ [c]) l₁ (by rw [hentries]; simp) h₁
        refine ⟨l₂, ?_, h₂⟩
        rw [List.foldlM_cons, hmove]
        exact hrest
  refine hloop _ [] _ rfl ⟨rfl, rfl, fun i c hc => absurd hc (by simp [LegacyDb.carried]), ?_⟩
  intro i _
  rfl

/-! ### Where it lands -/

/-- What the migration is to leave. -/
structure Lands (old : LegacyDb) (l : Ledger) : Prop where
  /-- The closures are left as they are. -/
  closures : l.closures = old.closures
  /-- A closure with parts has exactly one request, which carries its correlation id. -/
  one : ∀ pk c, old.closures.get? pk = some c → old.partsOf pk ≠ [] →
    ∃ i r, l.requests.get? i = some r ∧ r.closure = some pk ∧ r.correlationId = c.correlationId ∧
      ∀ j r', l.requests.get? j = some r' → (r'.closure = some pk ∨
        c.correlationId ≠ none ∧ r'.correlationId = c.correlationId) → j = i
  /-- Nothing else has a request. -/
  only : ∀ i r, l.requests.get? i = some r →
    ∃ pk c, r.closure = some pk ∧ old.closures.get? pk = some c ∧ old.partsOf pk ≠ []
  /-- The parts of a request are those of its closure, one for one. -/
  parts : ∀ i r pk, l.requests.get? i = some r → r.closure = some pk →
    l.partsOf i = (old.partsOf pk).map (·.moved i)
  /-- No old part is left behind. -/
  moved : ∀ i p, old.parts.get? i = some p →
    ∃ j r, l.requests.get? j = some r ∧ r.closure = some p.closure ∧ p.moved j ∈ l.partsOf j
  /-- No part is without a request. -/
  owned : ∀ i p, l.parts.get? i = some p → (l.requests.get? p.request).isSome = true
  /-- A request that waits on a timed-out owner is timed out, and says so. -/
  timeout : ∀ i r, l.requests.get? i = some r → r.state ≠ .deleted →
    (∃ p ∈ l.partsOf i, p.state = .timeout) → r.state = .timeout ∧ l.outcome ⟨i, r⟩ = .incomplete

/-- A migrated request is that of a closure which was carried over. -/
theorem CarriedOver.request {old : LegacyDb} {l : Ledger} {i : Nat} {r : ErasureRequest}
    (h : CarriedOver old old.closures.entries l) (hr : l.requests.get? i = some r) :
    ∃ c : Stored AccountClosureRequest, (old.carried old.closures.entries)[i]? = some c ∧
      r = c.row.erasure c.pk ∧ old.closures.get? c.pk = some c.row ∧ old.partsOf c.pk ≠ [] := by
  rw [Table.get?, h.requests, List.getElem?_map] at hr
  obtain ⟨c, hc, rfl⟩ := Option.map_eq_some_iff.mp hr
  obtain ⟨hentry, hparts⟩ := List.mem_filter.mp (List.mem_of_getElem? hc)
  exact ⟨c, hc, rfl, Table.mem_entries.mp hentry, by simpa using hparts⟩

/-- A closure with parts is carried over. -/
theorem carried_closure {old : LegacyDb} {pk : Nat} {c : AccountClosureRequest}
    (hc : old.closures.get? pk = some c) (hparts : old.partsOf pk ≠ []) :
    ∃ i : Nat, (old.carried old.closures.entries)[i]? = some ⟨pk, c⟩ :=
  List.mem_iff_getElem?.mp (List.mem_filter.mpr ⟨Table.mem_entries.mpr hc, by simpa using hparts⟩)

/-- It is carried over once. -/
theorem carried_once {old : LegacyDb} {i j : Nat} {c c' : Stored AccountClosureRequest}
    (hc : (old.carried old.closures.entries)[i]? = some c)
    (hc' : (old.carried old.closures.entries)[j]? = some c') (hpk : c.pk = c'.pk) : i = j := by
  have hordered : (old.carried old.closures.entries).Pairwise fun o o' => o.pk < o'.pk :=
    (entries_ordered old).filter _
  have hlt : ∀ {i j : Nat} {c c' : Stored AccountClosureRequest}, i < j →
      (old.carried old.closures.entries)[i]? = some c →
      (old.carried old.closures.entries)[j]? = some c' → c.pk < c'.pk := by
    intro i j c c' hij hc hc'
    obtain ⟨hi, rfl⟩ := List.getElem?_eq_some_iff.mp hc
    obtain ⟨hj, rfl⟩ := List.getElem?_eq_some_iff.mp hc'
    exact List.pairwise_iff_getElem.mp hordered i j hi hj hij
  rcases Nat.lt_trichotomy i j with hij | hij | hij
  · exact absurd (hlt hij hc hc') (by omega)
  · exact hij
  · exact absurd (hlt hij hc' hc) (by omega)

/-- Without a closure that waits on a timed-out owner the migration lands. -/
theorem CarriedOver.lands {old : LegacyDb} {l : Ledger}
    (h : CarriedOver old old.closures.entries l)
    (htimeout : ∀ pk c, old.closures.get? pk = some c → c.status ≠ .deleted →
      ∀ p ∈ old.partsOf pk, p.status ≠ .timeout) : Lands old l where
  closures := h.kept
  one pk c hc hparts := by
    obtain ⟨i, hi⟩ := carried_closure hc hparts
    have hr : l.requests.get? i = some (c.erasure pk) := by
      rw [Table.get?, h.requests, List.getElem?_map, hi]
      rfl
    refine ⟨i, _, hr, rfl, rfl, fun j r' hr' hsame => ?_⟩
    obtain ⟨c', hj, rfl, hc', -⟩ := h.request hr'
    refine carried_once hj hi ?_
    rcases hsame with hpk | ⟨hset, hcorr⟩
    · exact Option.some.inj hpk
    · exact (old.distinct _ _ _ _ hc hc' hset hcorr.symm).symm
  only i r hr := by
    obtain ⟨c, -, rfl, hc, hparts⟩ := h.request hr
    exact ⟨c.pk, c.row, rfl, hc, hparts⟩
  parts i r pk hr hpk := by
    obtain ⟨c, hi, rfl, -, -⟩ := h.request hr
    obtain rfl : c.pk = pk := Option.some.inj hpk
    exact h.parts i c hi
  moved i p hp := by
    obtain ⟨c, hc⟩ := Option.isSome_iff_exists.mp (old.owned i p hp)
    have hpart : p ∈ old.partsOf p.closure :=
      List.mem_map.mpr ⟨⟨i, p⟩, Table.mem_select.mpr ⟨hp, by simp⟩, rfl⟩
    obtain ⟨j, hj⟩ := carried_closure hc (List.ne_nil_of_mem hpart)
    have hr : l.requests.get? j = some (c.erasure p.closure) := by
      rw [Table.get?, h.requests, List.getElem?_map, hj]
      rfl
    refine ⟨j, _, hr, rfl, ?_⟩
    rw [h.parts j _ hj]
    exact List.mem_map.mpr ⟨p, hpart, rfl⟩
  owned i p hp := by
    by_contra hnone
    have hlate : l.requests.nextPk ≤ p.request := by
      rw [Option.not_isSome_iff_eq_none] at hnone
      exact List.getElem?_eq_none_iff.mp hnone
    have hpart : p ∈ l.partsOf p.request :=
      List.mem_map.mpr ⟨⟨i, p⟩, Table.mem_select.mpr ⟨hp, by simp⟩, rfl⟩
    rw [h.owned p.request hlate] at hpart
    exact absurd hpart List.not_mem_nil
  timeout i r hr hopen hwaits := by
    obtain ⟨c, hi, rfl, hc, -⟩ := h.request hr
    obtain ⟨p, hp, htimedOut⟩ := hwaits
    rw [h.parts i c hi] at hp
    obtain ⟨part, hpart, rfl⟩ := List.mem_map.mp hp
    have hstatus : c.row.status ≠ .deleted := by
      intro hdeleted
      exact hopen (by simp [AccountClosureRequest.erasure, hdeleted, ClosureStatus.migrated])
    exact absurd htimedOut (htimeout c.pk c.row hc hstatus part hpart)

/-- **Where the migration lands.** It always succeeds, and what it leaves is what the machine it
joins could have reached exactly when no closure that is not deleted waits on a timed-out
owner. -/
theorem lands_iff (old : LegacyDb) : ∃ l, old.moveDeletionPartsIntoErasures = .ok l ∧
    (Lands old l ↔ ∀ pk c, old.closures.get? pk = some c → c.status ≠ .deleted →
      ∀ p ∈ old.partsOf pk, p.status ≠ .timeout) := by
  obtain ⟨l, hmove, hl⟩ := moveDeletionPartsIntoErasures_ok old
  refine ⟨l, hmove, fun hlands pk c hc hstatus p hp htimedOut => ?_, hl.lands⟩
  have hparts : old.partsOf pk ≠ [] := List.ne_nil_of_mem hp
  obtain ⟨i, r, hr, hpk, -, -⟩ := hlands.one pk c hc hparts
  obtain ⟨c', hi, rfl, hc', -⟩ := hl.request hr
  obtain rfl : c'.pk = pk := Option.some.inj hpk
  obtain rfl : c'.row = c := Option.some.inj (hc'.symm.trans hc)
  have hmoved : p.moved i ∈ l.partsOf i := by
    rw [hl.parts i c' hi]
    exact List.mem_map.mpr ⟨p, hp, rfl⟩
  -- its state was read off the closure, which is not deleted
  have hopen : c'.row.status.migrated ≠ .deleted ∧ c'.row.status.migrated ≠ .timeout := by
    cases hcase : c'.row.status with
    | deleted => exact absurd hcase hstatus
    | grace => decide
    | deleting => decide
    | cancelled => decide
  exact hopen.2 (hlands.timeout i _ hr hopen.1 ⟨_, hmoved, htimedOut⟩).1

/-! ### A closure that waits -/

/-- A 0.4.x closure in execution, whose owner was swept. -/
def waitingClosure : AccountClosureRequest where
  userId := "u1"
  trigger := .manual
  status := .deleting
  correlationId := some 0
  initiatedAt := 0
  graceEndsAt := days 30

def waiting : LegacyDb where
  closures := ⟨[waitingClosure]⟩
  parts := ⟨[{ closure := 0, service := "media", status := .timeout, deadline := some (days 31) }]⟩
  distinct i j c c' hc hc' _ _ := by
    have hi : i < 1 := Table.get?_lt hc
    have hj : j < 1 := Table.get?_lt hc'
    omega
  owned i p hp := by
    have hi : i < 1 := Table.get?_lt hp
    obtain rfl : i = 0 := by omega
    obtain rfl := Option.some.inj hp
    rfl

/-- The request arrives as pending. -/
theorem waiting_pending : ¬ ∀ old : LegacyDb, ∃ l,
    old.moveDeletionPartsIntoErasures = .ok l ∧ Lands old l := by
  intro hclaim
  obtain ⟨l, hmove, hlands⟩ := hclaim waiting
  have hstate : waiting.moveDeletionPartsIntoErasures.toOption.map
      (fun l => (l.requests.get? 0).map (·.state)) = some (some .erasing) := by decide +kernel
  have hparts : waiting.moveDeletionPartsIntoErasures.toOption.map
      (fun l => (l.partsOf 0).map (·.state)) = some [.timeout] := by decide +kernel
  rw [hmove] at hstate hparts
  obtain ⟨r, hr, hopen⟩ := Option.map_eq_some_iff.mp (Option.some.inj hstate)
  have htimedOut : PartState.timeout ∈ (l.partsOf 0).map (·.state) := by
    have hstates : (l.partsOf 0).map (·.state) = [.timeout] := Option.some.inj hparts
    rw [hstates]
    exact List.mem_singleton.mpr rfl
  obtain ⟨p, hp, hpstate⟩ := List.mem_map.mp htimedOut
  have hsaid := (hlands.timeout 0 r hr (by rw [hopen]; decide) ⟨p, hp, hpstate⟩).1
  rw [hopen] at hsaid
  exact absurd hsaid (by decide)

end StapelGdpr
