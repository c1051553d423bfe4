import StapelGdpr.Invariants
import StapelGdpr.Statements
import StapelGdpr.Lib.Pool

/-!
# StapelGdpr.OneErasure

One erasure a closure. `execute_deletion` finds the erasure of a closure by the correlation
id on the copy it was given, draws an id when that copy has none, and writes it without a
condition: two workers that read the closure before either wrote draw two ids and open two
erasures (`two_erasures`).

What holds is `one_erasure_per_closure`: in a run in which every execution starts on a copy
that carries the id then stored, or before any is stored, ids are never overwritten, and with
them a closure has one request and one announcement.
-/

namespace StapelGdpr

open Prog

/-! ### The erasure of a closure -/

/-- The correlation id stored on a closure. -/
def Ledger.closureId (l : Ledger) (pk : Nat) : Option Uuid :=
  (l.closures.get? pk).bind (·.correlationId)

/-- Does the action announce this request? -/
def Action.asks (request : Nat) : Action → Bool
  | .erasureRequested id .. => id = request
  | _ => false

/-- How often the request was announced. -/
def Db.asked (db : Db) (request : Nat) : Nat := db.outbox.countP (·.asks request)

/-- Every closure has at most one request, the one that carries its id, announced once. -/
structure Tied (db : Db) : Prop where
  below : ∀ i x, db.closureId i = some x → x < db.uuids
  unique : ∀ i j x, db.closureId i = some x → db.closureId j = some x → i = j
  tied : ∀ i x j r, db.closureId i = some x → db.requests.get? j = some r →
    r.correlationId = some x → r.closure = some i
  own : ∀ i j r, db.requests.get? j = some r → r.closure = some i →
    db.closureId i = r.correlationId
  correlated : Correlated db.toLedger
  asked : ∀ j r, db.requests.get? j = some r → r.closure.isSome = true → db.asked j = 1
  unasked : ∀ j, db.requests.nextPk ≤ j → db.asked j = 0

/-- The closure has exactly one request, announced once. -/
def HasOneErasure (db : Db) (pk : Nat) : Prop :=
  ∃ j r, db.requests.get? j = some r ∧ r.closure = some pk ∧ db.asked j = 1 ∧
    ∀ j' r', db.requests.get? j' = some r' → r'.closure = some pk → j' = j

/-- A request carries the id of the closure. -/
def Passed (pk : Nat) (db : Db) : Prop :=
  ∃ x j r, db.closureId pk = some x ∧ db.requests.get? j = some r ∧ r.correlationId = some x

variable {env : Env} {op : Op} {a b c db : Db} {pk : Nat}

/-- A closure has no second request. -/
theorem Tied.atMostOne (h : Tied db) {i j : Nat} {r r' : ErasureRequest}
    (hr : db.requests.get? i = some r) (hr' : db.requests.get? j = some r')
    (hpk : r.closure = some pk) (hpk' : r'.closure = some pk) : i = j := by
  obtain ⟨x, hx⟩ := h.correlated.present i r hr
  have hid : db.closureId pk = some x := (h.own pk i r hr hpk).trans hx
  exact h.correlated.unique i j r r' x hr hr' hx ((h.own pk j r' hr' hpk').symm.trans hid)

theorem Tied.hasOne (h : Tied db) (hpassed : Passed pk db) : HasOneErasure db pk := by
  obtain ⟨x, j, r, hid, hr, hx⟩ := hpassed
  have hpk := h.tied pk x j r hid hr hx
  exact ⟨j, r, hr, hpk, h.asked j r hr (by rw [hpk]; rfl),
    fun j' r' hr' hpk' => h.atMostOne hr' hr hpk' hpk⟩

/-! ### What steps keep -/

/-- A request keeps its id and its closure. -/
def SameErasure (r r' : ErasureRequest) : Prop :=
  r'.correlationId = r.correlationId ∧ r'.closure = r.closure

/-- What no statement takes away, guarded or not. -/
structure Grows (a b : Db) : Prop where
  rows : ∀ pk, (a.closures.get? pk).isSome = true → (b.closures.get? pk).isSome = true
  ids : ∀ pk, (a.closureId pk).isSome = true → (b.closureId pk).isSome = true
  holds : b.holds = a.holds

/-- What others rely on: an id that is written stays, and so does all that hangs on it. -/
structure Keeping (a b : Db) : Prop where
  rows : ∀ pk, (a.closures.get? pk).isSome = true → (b.closures.get? pk).isSome = true
  holds : b.holds = a.holds
  ids : ∀ pk x, a.closureId pk = some x → b.closureId pk = some x
  requests : a.requests.Evolves (fun _ => SameErasure) (fun _ _ => True) b.requests
  tied : Tied a → Tied b

theorem Keeping.refl (a : Db) : Keeping a a :=
  ⟨fun _ => id, rfl, fun _ _ => id, .refl fun _ _ _ => ⟨rfl, rfl⟩, id⟩

theorem Keeping.trans (h : Keeping a b) (h' : Keeping b c) : Keeping a c where
  rows pk := h'.rows pk ∘ h.rows pk
  holds := h'.holds.trans h.holds
  ids pk x := h'.ids pk x ∘ h.ids pk x
  requests := h.requests.trans h'.requests
    (fun _ _ _ _ h h' => ⟨h'.1.trans h.1, h'.2.trans h.2⟩) fun _ _ _ _ _ => trivial
  tied := h'.tied ∘ h.tied

theorem Keeping.grows (h : Keeping a b) : Grows a b where
  rows := h.rows
  holds := h.holds
  ids pk hsome := by
    obtain ⟨x, hx⟩ := Option.isSome_iff_exists.mp hsome
    rw [h.ids pk x hx]
    rfl

theorem Keeping.passed (h : Keeping a b) (hp : Passed pk a) : Passed pk b := by
  obtain ⟨x, j, r, hid, hr, hx⟩ := hp
  obtain ⟨r', hr', hsame⟩ := h.requests.kept hr
  exact ⟨x, j, r', h.ids pk x hid, hr', hsame.1.trans hx⟩

/-- A statement that leaves ids, requests and announcements as they are. -/
structure Harmless (a b : Db) : Prop where
  rows : ∀ pk, (b.closures.get? pk).isSome = (a.closures.get? pk).isSome
  ids : ∀ pk, b.closureId pk = a.closureId pk
  requests : a.requests.Evolves (fun _ => SameErasure) (fun _ _ => False) b.requests
  uuids : a.uuids ≤ b.uuids
  holds : b.holds = a.holds
  asked : ∀ j, b.asked j = a.asked j

theorem Tied.harmless (h : Tied a) (hq : Harmless a b) : Tied b := by
  have hold : ∀ {j r'}, b.requests.get? j = some r' →
      ∃ r, a.requests.get? j = some r ∧ SameErasure r r' := fun hr' =>
    (hq.requests.row hr').resolve_right fun h => h.2
  constructor
  · intro i x hi
    exact (h.below i x ((hq.ids i).symm.trans hi)).trans_le hq.uuids
  · intro i j x hi hj
    exact h.unique i j x ((hq.ids i).symm.trans hi) ((hq.ids j).symm.trans hj)
  · intro i x j r' hi hr' hx
    obtain ⟨r, hr, hid, hclosure⟩ := hold hr'
    exact hclosure.trans (h.tied i x j r ((hq.ids i).symm.trans hi) hr (hid.symm.trans hx))
  · intro i j r' hr' hclosure'
    obtain ⟨r, hr, hid, hclosure⟩ := hold hr'
    exact (hq.ids i).trans ((h.own i j r hr (hclosure.symm.trans hclosure')).trans hid.symm)
  · exact h.correlated.kept fun i r' hr' => by
      obtain ⟨r, hr, hid, -⟩ := hold hr'
      exact ⟨r, hr, hid⟩
  · intro j r' hr' hsome
    obtain ⟨r, hr, -, hclosure⟩ := hold hr'
    exact (hq.asked j).trans (h.asked j r hr (hclosure ▸ hsome))
  · intro j hle
    rw [hq.requests.nextPk_eq] at hle
    exact (hq.asked j).trans (h.unasked j hle)

theorem Harmless.keeping (h : Harmless a b) : Keeping a b :=
  ⟨fun pk hs => (h.rows pk).trans hs, h.holds, fun pk _ hx => (h.ids pk).trans hx,
    h.requests.mono (fun _ _ _ h => h) fun _ _ h => h.elim, fun ht => ht.harmless h⟩

/-- Closures, requests, ids, holds and outbox untouched. -/
theorem Harmless.of_same (hc : b.closures = a.closures) (hr : b.requests = a.requests)
    (hu : b.uuids = a.uuids) (hh : b.holds = a.holds) (ho : b.outbox = a.outbox) :
    Harmless a b where
  rows pk := by rw [hc]
  ids pk := by rw [Ledger.closureId, hc, Ledger.closureId]
  requests := by rw [hr]; exact .refl fun _ _ _ => ⟨rfl, rfl⟩
  uuids := hu.ge
  holds := hh
  asked j := by rw [Db.asked, ho, Db.asked]

theorem Harmless.same (a : Db) : Harmless a a := .of_same rfl rfl rfl rfl rfl

/-- One closure row is written, its id is not, and nothing is announced. -/
theorem Harmless.modify {f : AccountClosureRequest → AccountClosureRequest} {new : List Action}
    (hc : b.closures = a.closures.modify pk f) (hf : ∀ q, (f q).correlationId = q.correlationId)
    (hr : b.requests = a.requests) (hu : b.uuids = a.uuids) (hh : b.holds = a.holds)
    (ho : b.outbox = a.outbox ++ new) (hnew : ∀ j, new.countP (·.asks j) = 0) : Harmless a b where
  rows k := by
    rw [hc, Table.get?_modify]
    split <;> simp
  ids k := by
    rw [Ledger.closureId, hc, Table.get?_modify, Ledger.closureId]
    split
    · cases a.closures.get? k with
      | none => rfl
      | some q => exact hf q
    · rfl
  requests := by rw [hr]; exact .refl fun _ _ _ => ⟨rfl, rfl⟩
  uuids := hu.ge
  holds := hh
  asked j := by rw [Db.asked, ho, List.countP_append, hnew, Db.asked, Nat.add_zero]

theorem flipSteps_harmless : FlipSteps env fun _ => Harmless where
  select := .same
  certify _ db := ⟨.same db, fun _ =>
    ⟨fun _ => rfl, fun _ => rfl, .modify (fun _ _ _ _ => ⟨rfl, rfl⟩) fun _ _ => ⟨rfl, rfl⟩, le_rfl,
      rfl, fun _ => rfl⟩⟩
  query _ _ := .same
  obligation _ _ db := ⟨.same db, fun _ => .of_same rfl rfl rfl rfl rfl⟩
  delete _ db := ⟨.same db, fun waived =>
    .modify (f := (·.delete env.now waived)) rfl (fun _ => rfl) rfl rfl rfl
      (List.append_nil _).symm fun _ => rfl⟩

theorem localSteps_harmless {userId : UserId} : LocalSteps env pk userId fun _ => Harmless where
  select := .same
  storeHash _ _ := .of_same rfl rfl rfl rfl rfl
  anonymize _ := .same
  delete _ := .same
  localReceipt _ db := ⟨.same db, fun _ => .of_same rfl rfl rfl rfl rfl⟩
  eraseIdentity _ _ := .of_same rfl rfl rfl rfl rfl
  identityErased db := ⟨.same db,
    .modify (f := (·.eraseIdentity env.now)) rfl (fun _ => rfl) rfl rfl rfl
      (List.append_nil _).symm fun _ => rfl⟩
  localDone db := ⟨.same db, fun _ _ =>
    .modify (f := (·.finishLocal)) rfl (fun _ => rfl) rfl rfl rfl rfl fun _ => rfl⟩

/-! ### Writing the id, and opening under it -/

/-- The write of an id leaves the id that is stored, if one is. -/
def Respects (op : Op) (a b : Db) : Prop :=
  ∀ pk x, op = .startDeleting pk → a.closureId pk = some x → b.closureId pk = some x

/-- A step of an execution of closure `pk`: one the others can rely on, or the write of an
id, which they can rely on when it respects the stored one. -/
inductive Executing (pk : Nat) (op : Op) (a b : Db) : Prop
  | keeps (h : Keeping a b)
  | writes (hop : op = .startDeleting pk) (hgrows : Grows a b)
      (hkeeps : (∀ x, a.closureId pk = some x → b.closureId pk = some x) → Keeping a b)
      (hothers : ∀ k, k ≠ pk → Passed k a → Passed k b)

theorem Executing.grows (h : Executing pk op a b) : Grows a b := by
  cases h with
  | keeps h => exact h.grows
  | writes _ h => exact h

theorem Executing.others (h : Executing pk op a b) {k : Nat} (hk : k ≠ pk) (hp : Passed k a) :
    Passed k b := by
  cases h with
  | keeps h => exact h.passed hp
  | writes _ _ _ h => exact h k hk hp

theorem Executing.respectful (h : Executing pk op a b) (hr : Respects op a b) : Keeping a b := by
  cases h with
  | keeps h => exact h
  | writes hop _ h => exact h fun x => hr pk x hop

/-- What `execute_deletion` first writes on the closure. -/
def writeId (env : Env) (closure : Stored AccountClosureRequest) (db : Db) : Db := { db with
  closures := db.closures.modify closure.pk (·.startDeleting
    (closure.row.correlationId.getD db.uuid4) env.report.version)
  uuids := if closure.row.correlationId.isSome then db.uuids else db.uuid4 + 1 }

variable {closure : Stored AccountClosureRequest}

/-- A copy of the closure was read from the store: the row is there, and so is an id when the
copy has one. -/
structure ReadFrom (db : Db) (closure : Stored AccountClosureRequest) : Prop where
  row : (db.closures.get? closure.pk).isSome = true
  id : closure.row.correlationId.isSome = true → (db.closureId closure.pk).isSome = true

theorem ReadFrom.grows (h : ReadFrom a closure) (hg : Grows a b) : ReadFrom b closure :=
  ⟨hg.rows _ h.row, fun hsome => hg.ids _ (h.id hsome)⟩

theorem closureId_writeId (hrow : (a.closures.get? closure.pk).isSome = true) :
    (writeId env closure a).closureId closure.pk =
      some (closure.row.correlationId.getD a.uuid4) := by
  obtain ⟨q, hq⟩ := Option.isSome_iff_exists.mp hrow
  rw [Ledger.closureId, writeId, Table.get?_modify_self _ hq]
  rfl

theorem closureId_writeId_of_ne {k : Nat} (hk : k ≠ closure.pk) :
    (writeId env closure a).closureId k = a.closureId k := by
  rw [Ledger.closureId, writeId, Table.get?_modify_of_ne _ hk, Ledger.closureId]

theorem uuids_le_uuid4 (db : Db) : db.uuids ≤ db.uuid4 := le_max_left _ _

/-- A closure without an id is given a fresh one: nothing carries it yet. -/
theorem Tied.fresh (h : Tied a) (hrow : (a.closures.get? closure.pk).isSome = true)
    (hnone : a.closureId closure.pk = none) (hcopy : closure.row.correlationId = none) :
    Tied (writeId env closure a) := by
  have hid : (writeId env closure a).closureId closure.pk = some a.uuid4 := by
    rw [closureId_writeId hrow, hcopy, Option.getD_none]
  have huuids : (writeId env closure a).uuids = a.uuid4 + 1 := by
    rw [writeId, hcopy]
    rfl
  have hold : ∀ {i x}, (writeId env closure a).closureId i = some x → i ≠ closure.pk →
      a.closureId i = some x := fun hi hne => (closureId_writeId_of_ne hne).symm.trans hi
  have hless : ∀ {i x}, a.closureId i = some x → x < a.uuid4 := fun hi =>
    (h.below _ _ hi).trans_le (uuids_le_uuid4 a)
  constructor
  · intro i x hi
    rw [huuids]
    by_cases hne : i = closure.pk
    · rw [hne, hid] at hi
      rw [← Option.some.inj hi]
      exact Nat.lt_succ_self _
    · exact (hless (hold hi hne)).trans (Nat.lt_succ_self _)
  · intro i j x hi hj
    by_cases hi' : i = closure.pk
    · by_cases hj' : j = closure.pk
      · exact hi'.trans hj'.symm
      · rw [hi', hid] at hi
        have hlt := hless (hold hj hj')
        rw [Option.some.inj hi] at hlt
        exact absurd hlt (lt_irrefl _)
    · by_cases hj' : j = closure.pk
      · rw [hj', hid] at hj
        have hlt := hless (hold hi hi')
        rw [Option.some.inj hj] at hlt
        exact absurd hlt (lt_irrefl _)
      · exact h.unique i j x (hold hi hi') (hold hj hj')
  · intro i x j r hi hr hx
    by_cases hne : i = closure.pk
    · rw [hne, hid] at hi
      rw [← Option.some.inj hi] at hx
      exact absurd hx (Db.uuid4_fresh hr)
    · exact h.tied i x j r (hold hi hne) hr hx
  · intro i j r hr hclosure
    by_cases hne : i = closure.pk
    · -- a request of this closure would carry its id, and it has none
      obtain ⟨x, hx⟩ := h.correlated.present j r hr
      have hsome := (h.own i j r hr hclosure).trans hx
      rw [hne, hnone] at hsome
      exact absurd hsome (by simp)
    · exact (closureId_writeId_of_ne hne).trans (h.own i j r hr hclosure)
  · exact ⟨h.correlated.present, h.correlated.unique⟩
  · exact h.asked
  · exact h.unasked

theorem writeId_executing (hread : ReadFrom a closure) :
    Executing closure.pk (.startDeleting closure.pk) a (writeId env closure a) := by
  have hrows : ∀ k, ((writeId env closure a).closures.get? k).isSome =
      (a.closures.get? k).isSome := by
    intro k
    rw [writeId, Table.get?_modify]
    split <;> simp
  have huuids : a.uuids ≤ (writeId env closure a).uuids := by
    rw [writeId]
    dsimp only
    split
    · exact le_rfl
    · exact (uuids_le_uuid4 a).trans (Nat.le_succ _)
  refine .writes rfl ⟨fun k => (hrows k).trans, fun k hsome => ?_, rfl⟩ (fun hrespects => ?_)
    fun k hk hpassed => ?_
  · by_cases hk : k = closure.pk
    · rw [hk, closureId_writeId hread.row]
      rfl
    · rwa [closureId_writeId_of_ne hk]
  · cases hnone : a.closureId closure.pk with
    | some x =>
        have hx := hrespects x hnone
        refine Harmless.keeping ⟨hrows, fun k => ?_, .refl fun _ _ _ => ⟨rfl, rfl⟩, huuids, rfl,
          fun _ => rfl⟩
        by_cases hk : k = closure.pk
        · rw [hk, hx, hnone]
        · exact closureId_writeId_of_ne hk
    | none =>
        have hcopy : closure.row.correlationId = none := by
          by_contra hsome
          have := hread.id (Option.isSome_iff_ne_none.mpr hsome)
          rw [hnone] at this
          exact absurd this (by simp)
        refine ⟨fun k => (hrows k).trans, rfl, fun k x hx => ?_, .refl fun _ _ _ => ⟨rfl, rfl⟩,
          fun h => h.fresh hread.row hnone hcopy⟩
        have hk : k ≠ closure.pk := by
          rintro rfl
          rw [hnone] at hx
          exact absurd hx (by simp)
        exact (closureId_writeId_of_ne hk).trans hx
  · obtain ⟨x, j, r, hid, hr, hx⟩ := hpassed
    exact ⟨x, j, r, (closureId_writeId_of_ne hk).trans hid, hr, hx⟩

theorem openErasure_uuids {st sk : String} {args : ErasureArgs} {request : Stored ErasureRequest}
    (hok : a.openErasure env st sk args = .ok (request, b)) : a.uuids ≤ b.uuids := by
  unfold Db.openErasure at hok
  split at hok
  · exact absurd hok (by simp)
  · dsimp only at hok
    split at hok
    · exact absurd hok (by simp)
    · obtain ⟨-, rfl⟩ := Prod.mk.inj (Except.ok.inj hok)
      dsimp only
      split
      · exact le_rfl
      · exact (uuids_le_uuid4 a).trans (Nat.le_succ _)

/-- Why the unit of a closure's erasure is refused: its id is taken, or the owners clash. -/
theorem openErasure_refused {st sk : String} {id : Uuid} {e : Error}
    (hrow : (a.closures.get? closure.pk).isSome = true)
    (hbad : a.openErasure env st sk (closureErasureArgs closure id) = .error e) :
    (∃ j r, a.requests.get? j = some r ∧ r.correlationId = some id) ∨
      env.distinctOwners st = false := by
  have hstored : (closureErasureArgs closure id).requestedBy.stored env.host =
      some (some closure.row.userId) := rfl
  unfold Db.openErasure at hbad
  rw [hstored] at hbad
  dsimp only at hbad
  split at hbad
  · rename_i hrefused
    refine hrefused.imp_left fun hviolates => ?_
    obtain ⟨q, hq⟩ := Option.isSome_iff_exists.mp hrow
    simpa [Ledger.violates, closureErasureArgs, ErasureArgs.row, hq, Table.any_eq_true] using
      hviolates
  · exact absurd hbad (by simp)

/-- The unit under the id of its closure: one new request, announced. -/
structure OpensFor (pk : Nat) (id : Uuid) (a b : Db) : Prop where
  request : ∃ r, b.requests = a.requests.insert r ∧ r.correlationId = some id ∧
    r.closure = some pk ∧ ∀ j r', a.requests.get? j = some r' → r'.correlationId ≠ some id
  closures : b.closures = a.closures
  uuids : a.uuids ≤ b.uuids
  holds : b.holds = a.holds
  asked : ∀ j, b.asked j = a.asked j + if a.requests.nextPk = j then 1 else 0

theorem openErasure_opensFor {st sk : String} {id : Uuid} {request : Stored ErasureRequest}
    (hok : a.openErasure env st sk (closureErasureArgs closure id) = .ok (request, b)) :
    OpensFor closure.pk id a b := by
  have huuids := openErasure_uuids hok
  obtain ⟨by', -, rfl, hv, -, hdb⟩ := openErasure_ok hok
  refine ⟨⟨_, by rw [hdb], rfl, rfl, fun j r' hr' => violates_correlation hv hr'⟩, by rw [hdb],
    huuids, by rw [hdb], fun j => ?_⟩
  rw [Db.asked, hdb, List.countP_append, Db.asked]
  simp [ErasureArgs.announcement, Action.asks, List.countP_singleton]

theorem OpensFor.tied {id : Uuid} (h : OpensFor pk id a b) (hid : a.closureId pk = some id)
    (ht : Tied a) : Tied b := by
  obtain ⟨new, hnew, hx, hpk, hfresh⟩ := h.request
  have hids : ∀ i, b.closureId i = a.closureId i := fun i => by
    rw [Ledger.closureId, h.closures, Ledger.closureId]
  have hrow : ∀ {j r}, b.requests.get? j = some r →
      (j = a.requests.nextPk ∧ r = new) ∨ (j ≠ a.requests.nextPk ∧ a.requests.get? j = some r) := by
    intro j r hr
    rw [hnew, Table.get?_insert] at hr
    by_cases hj : j = a.requests.nextPk
    · rw [if_pos hj] at hr
      exact .inl ⟨hj, (Option.some.inj hr).symm⟩
    · rw [if_neg hj] at hr
      exact .inr ⟨hj, hr⟩
  constructor
  · intro i x hi
    exact (ht.below i x ((hids i).symm.trans hi)).trans_le h.uuids
  · intro i j x hi hj
    exact ht.unique i j x ((hids i).symm.trans hi) ((hids j).symm.trans hj)
  · intro i x j r hi hr hrx
    rw [hids] at hi
    rcases hrow hr with ⟨-, rfl⟩ | ⟨-, hold⟩
    · obtain rfl : id = x := Option.some.inj (hx.symm.trans hrx)
      rw [hpk, ht.unique pk i id hid hi]
    · exact ht.tied i x j r hi hold hrx
  · intro i j r hr hclosure
    rw [hids]
    rcases hrow hr with ⟨-, rfl⟩ | ⟨-, hold⟩
    · obtain rfl : pk = i := Option.some.inj (hpk.symm.trans hclosure)
      exact hid.trans hx.symm
    · exact ht.own i j r hold hclosure
  · constructor
    · intro j r hr
      rcases hrow hr with ⟨-, rfl⟩ | ⟨-, hold⟩
      · exact ⟨id, hx⟩
      · exact ht.correlated.present j r hold
    · intro i j r r' x hr hr' hrx hrx'
      rcases hrow hr with ⟨rfl, rfl⟩ | ⟨-, hold⟩
      · obtain rfl : id = x := Option.some.inj (hx.symm.trans hrx)
        rcases hrow hr' with ⟨rfl, -⟩ | ⟨-, hold'⟩
        · rfl
        · exact absurd hrx' (hfresh j r' hold')
      · rcases hrow hr' with ⟨rfl, rfl⟩ | ⟨-, hold'⟩
        · obtain rfl : id = x := Option.some.inj (hx.symm.trans hrx')
          exact absurd hrx (hfresh i r hold)
        · exact ht.correlated.unique i j r r' x hold hold' hrx hrx'
  · intro j r hr hsome
    rw [h.asked]
    rcases hrow hr with ⟨rfl, -⟩ | ⟨hne, hold⟩
    · rw [if_pos rfl, ht.unasked _ le_rfl]
    · rw [if_neg (Ne.symm hne), ht.asked j r hold hsome]
  · intro j hle
    rw [hnew, Table.nextPk_insert] at hle
    rw [h.asked, if_neg (by omega), ht.unasked j (by omega)]

theorem OpensFor.keeping {id : Uuid} (h : OpensFor pk id a b) (hid : a.closureId pk = some id) :
    Keeping a b ∧ Passed pk b := by
  have hids : ∀ i, b.closureId i = a.closureId i := fun i => by
    rw [Ledger.closureId, h.closures, Ledger.closureId]
  obtain ⟨new, hnew, hx, -⟩ := h.request
  refine ⟨⟨fun k hs => by rwa [h.closures], h.holds, fun k x hk => (hids k).trans hk, ?_,
    h.tied hid⟩, id, a.requests.nextPk, new, (hids pk).trans hid, ?_, hx⟩
  · rw [hnew]
    exact .insert (fun _ _ _ => ⟨rfl, rfl⟩) trivial
  · rw [hnew]
    exact Table.get?_insert_nextPk _ _

/-! ### One execution beside others -/

/-- Can this environment open the erasure of a closure at all? -/
def Env.opensClosures (env : Env) : Bool :=
  subjectAccount ∈ env.subjectTypes && env.distinctOwners subjectAccount

/-- The request of the closure is there, unless something kept the execution from opening it. -/
def Settled (env : Env) (may : Op → Prop) (closure : Stored AccountClosureRequest) (db : Db) :
    Prop :=
  (env.opensClosures = true → (∀ op, ¬ may op) → db.isHeld closure.row.userId = false →
    Passed closure.pk db)

/-- An execution of closure `pk` beside others that keep every id. -/
abbrev Executes (may : Op → Prop) (pk : Nat) {α : Type} (Q : α → Db → Prop)
    (E : Error → Db → Prop) (p : Program α) (db : Db) : Prop :=
  Beside Keeping may (Executing pk) Q E p db

variable {may : Op → Prop} {α : Type}

theorem Keeping.settled (h : Keeping a b) (hs : Settled env may closure a) :
    Settled env may closure b := by
  intro hopens hmay hheld
  rw [Db.isHeld, h.holds] at hheld
  exact h.passed (hs hopens hmay hheld)

theorem Settled.of_passed (h : Passed closure.pk db) : Settled env may closure db :=
  fun _ _ _ => h

theorem Settled.of_may {op : Op} (h : may op) : Settled env may closure db :=
  fun _ hmay _ => absurd h (hmay op)

theorem executes_select {g : Db → α} {Q : α → Db → Prop} {E : Error → Db → Prop}
    (hQ : ∀ s, Keeping db s → ∀ t, Keeping s t → Q (g s) t) (hE : ∀ e s, may .select → E e s) :
    Executes may pk Q E (Program.select g) db :=
  Beside.query fun s hs => ⟨.keeps (.refl s), hQ s hs, fun hmay e t _ => hE e t hmay⟩

theorem startDeleting_executes (hread : ReadFrom db closure) :
    Executes may closure.pk (fun id s => s.closureId closure.pk = some id)
      (fun _ s => Settled env may closure s) (startDeleting env closure) db := by
  refine Beside.atomic (fun s hs => ?_) fun s hs hmay =>
    ⟨.keeps (.refl s), fun _ t _ => .of_may hmay⟩
  have hread := hread.grows hs.grows
  refine ⟨writeId_executing hread, fun t ht => ?_⟩
  exact ht.ids _ _ (closureId_writeId hread.row)

theorem insertErasure_executes {st : String} {id : Uuid} (hst : st = subjectAccount)
    (hrow : (db.closures.get? closure.pk).isSome = true) (hid : db.closureId closure.pk = some id) :
    Executes may closure.pk (fun _ s => Passed closure.pk s)
      (fun _ s => Settled env may closure s)
      (insertErasure env st closure.row.userId (closureErasureArgs closure id)) db := by
  refine Safe.tryCatch Keeping.refl (X := fun _ s => Settled env may closure s)
    (Beside.atomic (fun s hs => ?_) fun s hs hmay =>
      ⟨.keeps (.refl s), fun _ t _ => .of_may hmay⟩) fun e s hs => ?_
  · have hid := hs.ids _ _ hid
    cases hok : s.openErasure env st closure.row.userId (closureErasureArgs closure id) with
    | ok out =>
        obtain ⟨hkeeps, hpassed⟩ := (openErasure_opensFor hok).keeping hid
        exact ⟨.keeps hkeeps, fun t ht => ht.passed hpassed⟩
    | error e =>
        refine ⟨.keeps (.refl s), fun t ht => ht.settled ?_⟩
        rcases openErasure_refused (hs.rows _ hrow) hok with ⟨j, r, hr, hx⟩ | hclash
        · exact .of_passed ⟨id, j, r, hid, hr, hx⟩
        · intro hopens
          rw [hst] at hclash
          simp [Env.opensClosures, hclash] at hopens
  · rw [if_neg fun h => h.2 rfl]
    exact safe_raise.mpr fun t ht => ht.settled hs

theorem closureErasure_executes {q : Stored AccountClosureRequest} {id : Uuid}
    (hrow : (db.closures.get? q.pk).isSome = true) (hid : db.closureId q.pk = some id) :
    Executes may q.pk (fun _ s => Passed q.pk s)
      (fun _ s => Settled env may q s) (closureErasure env q id) db := by
  refine Safe.bind Keeping.refl (P := fun found s => s.closureId q.pk = some id ∧
    (s.closures.get? q.pk).isSome = true ∧ (found.isSome = true → Passed q.pk s))
    (executes_select (fun s hs t ht => ?_) fun e s => .of_may) fun found s hfound => ?_
  · refine ⟨ht.ids _ _ (hs.ids _ _ hid), ht.rows _ (hs.rows _ hrow), fun hsome => ht.passed ?_⟩
    obtain ⟨r, hr⟩ := Option.isSome_iff_exists.mp hsome
    obtain ⟨hget, hx⟩ := Table.first?_some hr
    exact ⟨id, r.pk, r.row, hs.ids _ _ hid, hget, by simpa using hx⟩
  · obtain ⟨hid, hrow, hpassed⟩ := hfound
    cases found with
    | some r => exact safe_ret.mpr fun t ht => ht.passed (hpassed rfl)
    | none =>
        refine Safe.bind Keeping.refl (P := fun _ s => Passed q.pk s) ?_
          fun _ s hs => safe_ret.mpr fun t ht => ht.passed hs
        unfold requestErasure
        split
        · rename_i hunknown
          refine safe_raise.mpr fun t ht hopens => ?_
          simp [Env.opensClosures, hunknown] at hopens
        · exact insertErasure_executes rfl hrow hid

/-- What comes after the opening keeps every request. -/
theorem Executes.passed {p : Program α} (h : Always (fun _ => Harmless) p)
    (hs : Passed closure.pk db) : Executes may closure.pk (fun _ s => Passed closure.pk s)
      (fun _ s => Settled env may closure s) p db := by
  refine (Beside.inv (R := Keeping) (I := Passed closure.pk) h.safe (fun _ _ hR => hR.passed)
    (fun _ _ _ hM => hM.keeping.passed) hs).imp (fun _ _ _ _ hM => .keeps hM.1.keeping)
    (fun _ _ hQ => hQ.2) fun _ _ hE => .of_passed hE.2

/-- **One execution.** On a copy that was read from the store, an execution that returns has
a request of its closure to show, under the id it wrote or found. -/
theorem executeDeletion_executes (hread : ReadFrom db closure) :
    Executes may closure.pk (fun _ s => Passed closure.pk s)
      (fun _ s => Settled env may closure s) (executeDeletion env closure) db := by
  refine Safe.bind Keeping.refl (P := fun held s => ReadFrom s closure ∧
    held = s.isHeld closure.row.userId) (executes_select (fun s hs t ht => ?_) fun e s => .of_may)
    fun held s hs => ?_
  · refine ⟨hread.grows (hs.trans ht).grows, ?_⟩
    rw [Db.isHeld, Db.isHeld, ht.holds]
  · obtain ⟨hread, hheld⟩ := hs
    split
    · rename_i hyes
      refine safe_raise.mpr fun t ht => ht.settled fun _ _ hno => ?_
      rw [← hheld, hyes] at hno
      exact absurd hno (by simp)
    · refine Safe.bind Keeping.refl (P := fun id t => t.closureId closure.pk = some id ∧
        (t.closures.get? closure.pk).isSome = true) ?_ fun id t ht => ?_
      · refine (Beside.inv (startDeleting_executes hread)
          (I := fun t => (t.closures.get? closure.pk).isSome = true) (fun _ _ hR => hR.rows _)
          (fun _ _ _ hM => hM.grows.rows _) hread.row).imp (fun _ _ _ _ hM => hM.1)
          (fun _ _ hQ => hQ) fun _ _ hE => hE.1
      · refine Safe.bind Keeping.refl (P := fun _ t => Passed closure.pk t)
          (closureErasure_executes (q := ⟨closure.pk, _⟩) ht.2 ht.1) fun out t ht => ?_
        refine Executes.passed ?_ ht
        refine Always.bind (eraseSubject_always localSteps_harmless) fun erased => ?_
        cases erased with
        | none => exact always_ret
        | some erased => exact maybeFinalize_always flipSteps_harmless

/-! ### The runners -/

/-- Who executes closures. -/
inductive Runner
  /-- `process_expired_grace_periods`. -/
  | worker
  /-- A retry on a copy it loads itself. -/
  | retry (pk : Nat)
  /-- A retry on a copy loaded earlier. -/
  | stale (closure : Stored AccountClosureRequest)

/-- The copies a runner executes, when its own query sees the store `seen`. -/
def Runner.copies (env : Env) (seen : Db) : Runner → List (Stored AccountClosureRequest)
  | worker => seen.expiredGrace env.now
  | retry pk => ((seen.closures.get? pk).map (Stored.mk pk)).toList
  | stale closure => [closure]

/-- `AccountClosureRequest.objects.get(pk=pk)`, executed. -/
def retryDeletion (env : Env) (pk : Nat) : Program Unit := do
  let found ← Program.select (·.closures.get? pk)
  match found with
  | some row => executeDeletion env ⟨pk, row⟩
  | none => Prog.raise .doesNotExist

def Runner.prog (env : Env) : Runner → Program Unit
  | worker => processExpiredGracePeriods env
  | retry pk => retryDeletion env pk
  | stale closure => executeDeletion env closure

variable {κ : Type} [DecidableEq κ] {calls : κ → Env × Runner} {start : Db}
  {tr : List (Pool.Event κ Op Db)} {P : Pool Op Db Error Unit κ}

/-- The runners side by side, each under its own environment. -/
def runners (calls : κ → Env × Runner) : Pool Op Db Error Unit κ :=
  fun k => (calls k).2.prog (calls k).1

/-- The copies thread `k` executes in the run `tr`: what it read with its first statement. -/
def copiesIn (calls : κ → Env × Runner) (tr : List (Pool.Event κ Op Db)) (k : κ) :
    List (Stored AccountClosureRequest) :=
  match tr.find? (·.thread = k) with
  | some e => (calls k).2.copies (calls k).1 e.before
  | none => []

/-- The step writes no id, or it writes it over none, or over the id that the copy it
executes has carried from the start. -/
def Carries (calls : κ → Env × Runner) (tr : List (Pool.Event κ Op Db))
    (e : Pool.Event κ Op Db) : Bool :=
  match e.label with
  | .startDeleting pk => (copiesIn calls tr e.thread).all fun closure =>
      closure.pk ≠ pk || e.before.closureId pk = none ||
        e.before.closureId pk = closure.row.correlationId
  | _ => true

/-! ### What a runner writes -/

/-- A write of an id is `writeId` on one of these copies. -/
def WritesOf (env : Env) (copies : List (Stored AccountClosureRequest)) (op : Op) (a b : Db) :
    Prop :=
  ∀ pk, op = .startDeleting pk → b = a ∨ ∃ c ∈ copies, c.pk = pk ∧ b = writeId env c a

variable {copies : List (Stored AccountClosureRequest)}

theorem WritesOf.of_ne (h : ∀ pk, op ≠ .startDeleting pk) : WritesOf env copies op a b :=
  fun pk hop => absurd hop (h pk)

theorem executeDeletion_writesOf (hmem : closure ∈ copies) :
    Always (WritesOf env copies) (executeDeletion env closure) := by
  refine executeDeletion_always (startDeleting_always fun db => ⟨fun pk _ => .inl rfl, fun pk hpk =>
    .inr ⟨closure, hmem, Op.startDeleting.inj hpk, rfl⟩⟩) (fun id => closureErasure_always
    (fun _ => .of_ne (by simp)) fun db => ⟨.of_ne (by simp), fun _ _ _ => .of_ne (by simp)⟩) ?_ ?_
  · refine .ofOps fun op a b hop => .of_ne ?_
    rintro pk rfl
    exact hop
  · refine .ofOps (fun _ => .of_ne (by simp)) fun op a b hop => .of_ne ?_
    rintro pk rfl
    exact hop

omit [DecidableEq κ] in
/-- What a call that starts with a query writes, it writes on what it read. -/
theorem writesOf_read (env : Env) (copies : Db → List (Stored AccountClosureRequest)) {β : Type}
    {g : Db → β} {k : β → Program Unit} {p : Program Unit} {es : List (Pool.Event κ Op Db)}
    (h : Pool.Follows may (Program.select g >>= k) es p)
    (hk : ∀ seen, Always (WritesOf env (copies seen)) (k (g seen))) {e : Pool.Event κ Op Db}
    (he : e ∈ es) : ∃ first, es.head? = some first ∧
      WritesOf env (copies first.before) e.label e.before e.after := by
  rcases h.query_bind with rfl | ⟨first, rest, rfl, hlabel, hrest⟩
  · exact absurd he List.not_mem_nil
  · refine ⟨first, rfl, ?_⟩
    rcases List.mem_cons.mp he with rfl | he
    · exact .of_ne fun pk heq => by rw [hlabel] at heq; exact absurd heq (by simp)
    · rcases hrest with rfl | hrest
      · exact absurd he List.not_mem_nil
      · exact hrest.always (hk first.before) e he

/-- What a runner writes, it writes on the copies that its first statement read. -/
theorem writesOf_copies {may : κ → Op → Prop} (hrun : Pool.Runs may (runners calls) start tr P db)
    {e : Pool.Event κ Op Db} (he : e ∈ tr) :
    WritesOf (calls e.thread).1 (copiesIn calls tr e.thread) e.label e.before e.after := by
  have hmem : e ∈ tr.filter (·.thread = e.thread) := List.mem_filter.mpr ⟨he, by simp⟩
  have hfollows := hrun.follows e.thread
  rw [runners] at hfollows
  unfold copiesIn
  rw [← List.head?_filter]
  generalize tr.filter (·.thread = e.thread) = es at hfollows hmem ⊢
  generalize calls e.thread = call at hfollows ⊢
  obtain ⟨env, runner⟩ := call
  cases runner with
  | worker =>
      obtain ⟨first, hfirst, hwrites⟩ := writesOf_read env (fun seen => seen.expiredGrace env.now)
        hfollows (fun seen => Always.forM
          fun c hc => (executeDeletion_writesOf hc).tryCatch fun _ => always_ret) hmem
      rw [hfirst]
      exact hwrites
  | retry pk =>
      obtain ⟨first, hfirst, hwrites⟩ := writesOf_read env
        (fun seen => ((seen.closures.get? pk).map (Stored.mk pk)).toList) hfollows
        (fun seen => by
          cases hrow : seen.closures.get? pk with
          | none => exact always_raise
          | some row => exact executeDeletion_writesOf (by simp)) hmem
      rw [hfirst]
      exact hwrites
  | stale closure =>
      have hall := hfollows.always (executeDeletion_writesOf (List.mem_singleton_self closure)) e hmem
      cases es with
      | nil => exact absurd hmem List.not_mem_nil
      | cons first rest => exact hall

/-- A step that carries the id respects the one that is stored. -/
theorem respects_of_carries {e : Pool.Event κ Op Db}
    (hwrites : WritesOf (calls e.thread).1 (copiesIn calls tr e.thread) e.label e.before e.after)
    (hrow : ∀ pk x, e.before.closureId pk = some x → (e.before.closures.get? pk).isSome = true)
    (hcarries : Carries calls tr e = true) : Respects e.label e.before e.after := by
  intro pk x hop hx
  rcases hwrites pk hop with hsame | ⟨c, hc, rfl, hwrite⟩
  · rwa [hsame]
  · simp only [Carries, hop, List.all_eq_true] at hcarries
    have hcopy := hcarries c hc
    simp only [hx, Bool.or_eq_true, decide_eq_true_eq, ne_eq, not_true_eq_false, false_or,
      reduceCtorEq] at hcopy
    rw [hwrite, closureId_writeId (hrow _ x hx), ← hcopy, Option.getD_some]

/-! ### The runners beside each other -/

/-- A step of a runner. -/
def Stepping (op : Op) (a b : Db) : Prop := ∃ pk, Executing pk op a b

/-- All that is known of a runner that has executed these copies. -/
def AllSettled (env : Env) (may : Op → Prop) (copies : List (Stored AccountClosureRequest))
    (db : Db) : Prop :=
  ∀ c ∈ copies, Settled env may c db

theorem executeDeletion_settled (hread : ReadFrom db closure) :
    Beside Keeping may Stepping (fun _ s => Passed closure.pk s)
      (fun _ s => Settled env may closure s) (executeDeletion env closure) db :=
  (executeDeletion_executes hread).imp (fun _ _ _ _ h => ⟨closure.pk, h⟩) (fun _ _ h => h)
    fun _ _ h => h

theorem readFrom_select {p : AccountClosureRequest → Bool} (hmem : closure ∈ db.closures.select p) :
    ReadFrom db closure := by
  obtain ⟨hget, -⟩ := Table.mem_select.mp hmem
  refine ⟨by rw [hget]; rfl, fun hsome => ?_⟩
  rw [Ledger.closureId, hget]
  exact hsome

/-- **The worker's loop.** The executions of a list settle every closure of it: none undoes
what an earlier one has done. -/
theorem expireClosures_settled (hread : ∀ c ∈ copies, ReadFrom db c)
    (hdistinct : copies.Pairwise fun c c' => c.pk < c'.pk) :
    Beside Keeping may Stepping (fun _ s => AllSettled env may copies s) (fun _ _ => False)
      (copies.forM (expireClosure env)) db := by
  let J : List (Stored AccountClosureRequest) → Db → Prop := fun rest s =>
    ∃ done, copies = done ++ rest ∧ AllSettled env may done s ∧ ∀ c ∈ rest, ReadFrom s c
  refine (Beside.forM Keeping.refl (J := J) (fun c rest s hJ => ?_) (fun rest s t ht hJ => ?_)
    ⟨[], rfl, fun c hc => absurd hc List.not_mem_nil, hread⟩).post (fun _ s hJ => ?_)
    fun _ _ h => h
  · obtain ⟨done, hsplit, hdone, hrest⟩ := hJ
    -- beside its own closure an execution keeps whatever was settled before it
    have hne : ∀ c' ∈ done, c'.pk ≠ c.pk := by
      intro c' hc'
      rw [hsplit, List.pairwise_append] at hdistinct
      exact Nat.ne_of_lt (hdistinct.2.2 c' hc' c List.mem_cons_self)
    have hkeep : ∀ a b op, Executing c.pk op a b →
        (AllSettled env may done a ∧ ∀ q ∈ rest, ReadFrom a q) →
        AllSettled env may done b ∧ ∀ q ∈ rest, ReadFrom b q := by
      intro a b op hstep h
      refine ⟨fun c' hc' hopens hmay hheld => ?_, fun q hq => (h.2 q hq).grows hstep.grows⟩
      rw [Db.isHeld, hstep.grows.holds] at hheld
      exact hstep.others (hne c' hc') (h.1 c' hc' hopens hmay hheld)
    have hexec : Beside Keeping may (Executing c.pk) (fun _ t => Settled env may c t)
        (fun _ _ => False) (expireClosure env c) s :=
      Safe.tryCatch Keeping.refl (X := fun _ t => Settled env may c t)
        ((executeDeletion_executes (hrest c List.mem_cons_self)).post (fun _ _ h => .of_passed h)
          fun _ _ h => h) fun e t ht => safe_ret.mpr fun u hu => hu.settled ht
    refine (hexec.inv (I := fun t => AllSettled env may done t ∧ ∀ q ∈ rest, ReadFrom t q)
      (fun a b hR => hkeep a b .select (.keeps hR)) (fun op a b => hkeep a b op)
      ⟨hdone, fun q hq => hrest q (List.mem_cons_of_mem c hq)⟩).imp
      (fun _ _ _ _ hM => ⟨c.pk, hM.1⟩) (fun _ t hQ => ?_) fun _ _ hE => hE.1
    refine ⟨done ++ [c], by simp [hsplit], fun q hq => ?_, hQ.2.2⟩
    rcases List.mem_append.mp hq with hq | hq
    · exact hQ.2.1 q hq
    · obtain rfl := List.mem_singleton.mp hq
      exact hQ.1
  · obtain ⟨done, hsplit, hdone, hrest⟩ := hJ
    exact ⟨done, hsplit, fun c hc => ht.settled (hdone c hc), fun c hc => (hrest c hc).grows ht.grows⟩
  · obtain ⟨done, hsplit, hdone, -⟩ := hJ
    rw [hsplit, List.append_nil]
    exact hdone

theorem expiredGrace_settled (seen : Db) :
    Beside Keeping may Stepping (fun _ s => AllSettled env may (seen.expiredGrace env.now) s)
      (fun _ s => AllSettled env may (seen.expiredGrace env.now) s)
      ((seen.expiredGrace env.now).forM (expireClosure env)) seen :=
  (expireClosures_settled (fun _ hc => readFrom_select hc) (Table.pairwise_pk_select _ _)).post
    (fun _ _ h => h) fun _ _ h => h.elim

theorem retry_settled (seen : Db) (pk : Nat) :
    Beside Keeping may Stepping
      (fun _ s => AllSettled env may (((seen.closures.get? pk).map (Stored.mk pk)).toList) s)
      (fun _ s => AllSettled env may (((seen.closures.get? pk).map (Stored.mk pk)).toList) s)
      (match seen.closures.get? pk with
        | some row => executeDeletion env ⟨pk, row⟩
        | none => Prog.raise .doesNotExist) seen := by
  cases hrow : seen.closures.get? pk with
  | none => exact safe_raise.mpr fun _ _ c hc => absurd hc (by simp)
  | some row =>
      have hread : ReadFrom seen ⟨pk, row⟩ := by
        refine ⟨by rw [hrow]; rfl, fun hsome => ?_⟩
        rw [Ledger.closureId, hrow]
        exact hsome
      have hsingle : ∀ s, Settled env may ⟨pk, row⟩ s →
          AllSettled env may ((some row).map (Stored.mk pk)).toList s := by
        intro s hs c hc
        obtain rfl : c = ⟨pk, row⟩ := by simpa using hc
        exact hs
      exact (executeDeletion_settled hread).post (fun _ s h => hsingle s (.of_passed h))
        fun _ s h => hsingle s h

variable {may : κ → Op → Prop}

/-- What a returned runner has to show, when it was given its copy. -/
def Runner.shows : Runner → Db → Prop
  | stale closure, db => Passed closure.pk db
  | _, _ => True

/-- What a runner that raised has to show, when it was given its copy. -/
def Runner.leaves (env : Env) (may : Op → Prop) : Runner → Db → Prop
  | stale closure, db => Settled env may closure db
  | _, _ => True

omit [DecidableEq κ] in
theorem runners_safe (hloaded : ∀ k c, (calls k).2 = .stale c → ReadFrom start c) :
    Pool.Safe (fun _ => Keeping) may (fun _ op a b _ => Stepping op a b)
      (fun k _ s => (calls k).2.shows s)
      (fun k _ s => (calls k).2.leaves (calls k).1 (may k) s) (runners calls) start := by
  intro k
  have hk := hloaded k
  change Beside Keeping (may k) Stepping (fun _ s => (calls k).2.shows s)
    (fun _ s => (calls k).2.leaves (calls k).1 (may k) s) ((calls k).2.prog (calls k).1) start
  generalize calls k = call at hk ⊢
  obtain ⟨env, runner⟩ := call
  cases runner with
  | stale c => exact executeDeletion_settled (hk c rfl)
  | worker =>
      refine Safe.bind Keeping.refl (P := fun expired s => ∃ seen, Keeping seen s ∧
        expired = Db.expiredGrace seen env.now) (Beside.query fun s hs => ⟨⟨0, .keeps (.refl s)⟩,
        fun t ht => ⟨s, ht, rfl⟩, fun _ _ _ _ => trivial⟩) fun expired s hex => ?_
      obtain ⟨seen, hseen, rfl⟩ := hex
      exact (Prog.Safe.rely (R := Keeping) Keeping.trans (expiredGrace_settled seen) hseen).imp
        (fun _ _ _ _ h => h) (fun _ _ _ => trivial) fun _ _ _ => trivial
  | retry pk =>
      refine Safe.bind Keeping.refl (P := fun found s => ∃ seen, Keeping seen s ∧
        found = seen.closures.get? pk) (Beside.query fun s hs => ⟨⟨0, .keeps (.refl s)⟩,
        fun t ht => ⟨s, ht, rfl⟩, fun _ _ _ _ => trivial⟩) fun found s hex => ?_
      obtain ⟨seen, hseen, rfl⟩ := hex
      exact (Prog.Safe.rely (R := Keeping) Keeping.trans (retry_settled seen pk) hseen).imp
        (fun _ _ _ _ h => h) (fun _ _ _ => trivial) fun _ _ _ => trivial

/-- At most one erasure of the closure, and it was announced once. -/
def AtMostOneErasure (db : Db) (pk : Nat) : Prop :=
  ∀ j r, db.requests.get? j = some r → r.closure = some pk → db.asked j = 1 ∧
    ∀ j' r', db.requests.get? j' = some r' → r'.closure = some pk → j' = j

theorem Tied.atMostOneErasure (h : Tied db) (pk : Nat) : AtMostOneErasure db pk :=
  fun j r hr hpk => ⟨h.asked j r hr (by rw [hpk]; rfl),
    fun j' r' hr' hpk' => h.atMostOne hr' hr hpk' hpk⟩

/-- A thread in which nothing fails settles every copy it executes. -/
theorem allSettled_of_done (hloaded : ∀ k c, (calls k).2 = .stale c → ReadFrom start c)
    (hrun : Pool.Runs may (runners calls) start tr P db)
    (hresp : ∀ e ∈ tr, Respects e.label e.before e.after) {k : κ} (hdone : (P k).Done)
    (hmay : ∀ op, ¬ may k op) :
    AllSettled (calls k).1 (may k) (copiesIn calls tr k) db := by
  have hsafe : Pool.Safe (fun _ => Keeping) may (fun _ op a b _ => Stepping op a b)
      (fun k _ s => (calls k).2.shows s)
      (fun k _ s => (calls k).2.leaves (calls k).1 (may k) s) (runners calls) start :=
    runners_safe hloaded
  have hrely : ∀ (e : Pool.Event κ Op Db) (p : Program Unit), Stepping e.label e.before e.after →
      Respects e.label e.before e.after → ∀ j, j ≠ e.thread → Keeping e.before e.after := by
    rintro e - ⟨pk, hstep⟩ hr - -
    exact hstep.respectful hr
  have hprog : runners calls k = (calls k).2.prog (calls k).1 := rfl
  unfold copiesIn
  generalize hcall : calls k = call at hprog ⊢
  obtain ⟨env, runner⟩ := call
  cases runner with
  | stale c =>
      obtain ⟨hend, -⟩ := hrun.safe (R := fun _ => Keeping) (fun _ => Keeping.refl)
        (fun _ => Keeping.trans) hrely hsafe hresp
      have hsettled : Settled env (may k) c db := by
        rcases hend.finished (fun _ => Keeping.refl) hdone with ⟨_, -, hQ⟩ | ⟨_, -, hE⟩
        · rw [hcall] at hQ
          exact .of_passed hQ
        · rwa [hcall] at hE
      intro q hq
      split at hq
      · obtain rfl := List.mem_singleton.mp hq
        exact hsettled
      · exact absurd hq List.not_mem_nil
  | worker =>
      obtain ⟨e, he, hend⟩ := hrun.read (R := fun _ => Keeping) (fun _ => Keeping.refl)
        (fun _ => Keeping.trans) hrely (F := fun expired _ s => AllSettled env (may k) expired s)
        (X := fun expired _ s => AllSettled env (may k) expired s) hprog hmay
        (fun t => expiredGrace_settled t) hsafe hresp hdone
      rw [he]
      rcases hend with ⟨_, -, h⟩ | ⟨_, -, h⟩
      · exact h
      · exact h
  | retry pk =>
      obtain ⟨e, he, hend⟩ := hrun.read (R := fun _ => Keeping) (fun _ => Keeping.refl)
        (fun _ => Keeping.trans) hrely
        (F := fun found _ s => AllSettled env (may k) (found.map (Stored.mk pk)).toList s)
        (X := fun found _ s => AllSettled env (may k) (found.map (Stored.mk pk)).toList s) hprog
        hmay (fun t => retry_settled t pk) hsafe hresp hdone
      rw [he]
      rcases hend with ⟨_, -, h⟩ | ⟨_, -, h⟩
      · exact h
      · exact h

/-- **One erasure per closure**, in every run whose executions carry the id they find. An id
never changes once it is written, and at every moment a closure has at most one erasure,
announced once. It has exactly one when an execution given its copy has returned, and when a
runner in which nothing fails is done with it. -/
theorem one_erasure_per_closure (hs : Tied start)
    (hloaded : ∀ k c, (calls k).2 = .stale c → ReadFrom start c)
    (hrun : Pool.Runs may (runners calls) start tr P db)
    (hcarries : ∀ e ∈ tr, e.ok = true → Carries calls tr e = true) :
    ((∀ pk, AtMostOneErasure db pk) ∧ ∀ e ∈ tr, (∀ pk, AtMostOneErasure e.after pk) ∧
      ∀ pk x, e.before.closureId pk = some x → e.after.closureId pk = some x) ∧
    (∀ k c, (calls k).2 = .stale c → P k = .ret () → HasOneErasure db c.pk) ∧
    ∀ k, (P k).Done → (∀ op, ¬ may k op) → (calls k).1.opensClosures = true →
      ∀ c ∈ copiesIn calls tr k, start.isHeld c.row.userId = false → HasOneErasure db c.pk := by
  have hresp : ∀ e ∈ tr, Respects e.label e.before e.after := by
    intro e he
    cases hok : e.ok with
    | false =>
        rw [(hrun.failed e he hok).1]
        exact fun _ _ _ hx => hx
    | true =>
        refine respects_of_carries (writesOf_copies hrun he) (fun pk x hx => ?_) (hcarries e he hok)
        cases hrow : e.before.closures.get? pk with
        | some q => rfl
        | none =>
            rw [Ledger.closureId, hrow] at hx
            exact absurd hx (by simp)
  obtain ⟨hend, hall⟩ := hrun.safe (R := fun _ => Keeping) (fun _ => Keeping.refl)
    (fun _ => Keeping.trans) (H := fun e => Respects e.label e.before e.after)
    (fun e _ hstep hr _ _ => by
      obtain ⟨pk, hstep⟩ := hstep
      exact hstep.respectful hr) (runners_safe hloaded) hresp
  have hkeeps : ∀ e ∈ tr, Keeping e.before e.after := by
    intro e he
    obtain ⟨-, pk, hstep⟩ := hall e he
    exact hstep.respectful (hresp e he)
  obtain ⟨⟨htied, hholds⟩, hmoments⟩ := hrun.chain (I := fun s => Tied s ∧ s.holds = start.holds)
    (fun e he h => ⟨(hkeeps e he).tied h.1, (hkeeps e he).holds.trans h.2⟩) ⟨hs, rfl⟩
  refine ⟨⟨htied.atMostOneErasure, fun e he => ⟨(hmoments e he).2.1.atMostOneErasure,
    (hkeeps e he).ids⟩⟩, fun k c hcall hret => ?_, fun k hdone hmay hopens c hc hheld => ?_⟩
  · have hk := hend k
    rw [hret] at hk
    have hshows : (calls k).2.shows db := safe_ret.mp hk db (.refl db)
    rw [hcall] at hshows
    exact htied.hasOne hshows
  · refine htied.hasOne (allSettled_of_done hloaded hrun hresp hdone hmay c hc hopens hmay ?_)
    rwa [Db.isHeld, hholds]

/-- A store in which no erasure was ever asked for. -/
theorem tied_of_none (hids : ∀ i, db.closureId i = none) (hrequests : db.requests = {})
    (hasked : ∀ j, db.asked j = 0) : Tied db := by
  have hno : ∀ {j r}, db.requests.get? j ≠ some r := by
    intro j r
    rw [hrequests]
    simp [Table.get?]
  constructor
  · intro i x hi
    rw [hids] at hi
    exact absurd hi (by simp)
  · intro i j x hi
    rw [hids] at hi
    exact absurd hi (by simp)
  · intro i x j r _ hr
    exact absurd hr hno
  · intro i j r hr
    exact absurd hr hno
  · exact ⟨fun _ _ hr => absurd hr hno, fun _ _ _ _ _ hr => absurd hr hno⟩
  · intro j r hr
    exact absurd hr hno
  · exact fun j _ => hasked j

theorem tied_closing : Tied closing := by
  refine tied_of_none (fun i => ?_) (by decide +kernel) fun j => ?_
  · cases i with
    | zero => decide +kernel
    | succ i => rfl
  · have houtbox : closing.outbox = [.sessionsRevoked "u1" "gdpr_closure",
        .deletionInitiated "u1" .manual (days 30)] := by decide +kernel
    rw [Db.asked, houtbox]
    rfl

/-- The worker, and a retry of the closure. -/
def retrying : Bool → Env × Runner := fun isWorker =>
  (deploymentOn 30, if isWorker = true then .worker else .retry 0)

/-- The retry reads the closure when the worker is done with it. -/
def inOrder : List (Pool.Event Bool Op Db) × Pool Op Db Error Unit Bool × Db :=
  Pool.schedule (List.replicate 30 true ++ List.replicate 30 false) (runners retrying) closing

theorem one_erasure_per_closure_inOrder : HasOneErasure inOrder.2.2 0 := by
  have hdone : (inOrder.2.1 false).returned?.isSome = true := by decide +kernel
  obtain ⟨u, hu⟩ := Option.isSome_iff_exists.mp hdone
  have hloaded : ∀ k c, (retrying k).2 = .stale c → ReadFrom closing c := by
    intro k c hc
    cases k <;> simp [retrying] at hc
  have hrun : Pool.Runs (fun _ _ => False) (runners retrying) closing inOrder.1 inOrder.2.1
      inOrder.2.2 := Pool.runs_schedule _ _ _ _
  have hcarries : ∀ e ∈ inOrder.1, e.ok = true → Carries retrying inOrder.1 e = true := by
    decide +kernel
  obtain ⟨-, -, hall⟩ := one_erasure_per_closure tied_closing hloaded hrun hcarries
  have hcopies : (copiesIn retrying inOrder.1 false).any (fun c =>
      c.pk = 0 && closing.isHeld c.row.userId = false) = true := by decide +kernel
  obtain ⟨c, hc, hpk⟩ := List.any_eq_true.mp hcopies
  simp only [Bool.and_eq_true, decide_eq_true_eq] at hpk
  have hone := hall false (by rw [returned?_eq_some.mp hu]; trivial) (fun _ h => h)
    (by decide +kernel) c hc hpk.2
  rwa [hpk.1] at hone

/-- Two workers, both with the closure on their list before either executes it. -/
def bothRead : List (Pool.Event Bool Op Db) × Pool Op Db Error Unit Bool × Db :=
  Pool.schedule ([true, false] ++ List.replicate 30 true ++ List.replicate 30 false)
    (runners fun _ => (deploymentOn 30, .worker)) closing

/-- The second worker finds no id on its copy, draws one and opens a second erasure. -/
theorem two_erasures : ¬ ∀ (κ : Type) (_ : DecidableEq κ) (calls : κ → Env × Runner)
    (start db : Db) (tr : List (Pool.Event κ Op Db)) (P : Pool Op Db Error Unit κ),
    Tied start → (∀ k c, (calls k).2 = .stale c → ReadFrom start c) →
    Pool.Runs (fun _ _ => False) (runners calls) start tr P db → ∀ pk, AtMostOneErasure db pk := by
  intro hclaim
  have hone := hclaim Bool inferInstance (fun _ => (deploymentOn 30, .worker)) closing bothRead.2.2
    bothRead.1 bothRead.2.1 tied_closing (fun _ _ h => absurd h (by simp))
    (Pool.runs_schedule _ _ _ _) 0
  have htwo : ∀ j < 2, (bothRead.2.2.requests.get? j).any (·.closure = some 0) = true := by
    decide +kernel
  obtain ⟨r, hr, hpk⟩ := (Option.any_eq_true _ _).mp (htwo 0 (by decide))
  obtain ⟨r', hr', hpk'⟩ := (Option.any_eq_true _ _).mp (htwo 1 (by decide))
  obtain ⟨-, honly⟩ := hone 0 r hr (by simpa using hpk)
  exact absurd (honly 1 r' hr' (by simpa using hpk')) (by decide)

end StapelGdpr
