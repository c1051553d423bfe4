import StapelGdpr.Invariants
import StapelGdpr.Statements
import Mathlib.Data.List.DropRight

/-!
# StapelGdpr.AllOrNothing

One certification, and the statement of it that fails. `certify` writes three tables in
sequence with no transaction around them: the request, the obligations of the declared
processors (a lookup each, and an insert where an owner has recorded no row before), the
closure.

`certify_fault_iff` says which failures are harmless: that of the request save, and those that
come after the last statement the certificate needs; and what the declaration has to be for
there to be such a last statement at all.
-/

namespace StapelGdpr

open Prog

variable {env : Env} {db : Db}

/-- Nothing of the certificate is written. -/
def Unwritten (l l' : Ledger) : Prop :=
  l'.requests = l.requests ∧ l'.closures = l.closures ∧ l'.obligations = l.obligations

/-- The whole certificate is written. -/
structure Written (env : Env) (request : Stored ErasureRequest) (l : Ledger) : Prop where
  flipped : ∃ r, l.requests.get? request.pk = some r ∧ r.state = .deleted
  closure : ∀ k, request.row.closure = some k →
    ∃ c, l.closures.get? k = some c ∧ c.status = .deleted
  obligations : ∃ declared, declaredSubprocessors env.settings [] = .ok declared ∧
    ∀ p ∈ declared, l.hasObligation request.pk p.1 = true

/-- Either none of request, closure and obligations changed or all of them did. -/
def AllOrNothing (env : Env) (request : Stored ErasureRequest) (l l' : Ledger) : Prop :=
  Unwritten l l' ∨ Written env request l'

/-! ### What the recording needs -/

/-- The ledger takes the processor: a `datetime` holds its date, and its window, if there is no
row yet, fits the column. -/
def Ledger.accepts (l : Ledger) (request : Nat) (anchor : Time) (p : String × Int) : Prop :=
  Representable (anchor + days p.2) ∧ (l.hasObligation request p.1 = false → 0 ≤ p.2)

/-- The statements of these processors: a lookup each, and an insert where there is no row. -/
def Ledger.recordingSteps (l : Ledger) (request : Nat) (ps : List (String × Int)) : Nat :=
  (ps.map fun p => if l.hasObligation request p.1 then 1 else 2).sum

/-- The processors that the recording has to get through: all of them when the closure's save is
behind them, and otherwise those up to the last that has no row yet. -/
def Ledger.awaited (l : Ledger) (request : Nat) (closure : Option (Stored AccountClosureRequest))
    (declared : List (String × Int)) : List (String × Int) :=
  if closure.isSome then declared else declared.rdropWhile fun p => l.hasObligation request p.1

/-- The statements up to the last that the certificate needs: the request save, those of the
processors it has to get through, and the closure save when there is a closure. -/
def Ledger.flipSteps (l : Ledger) (request : Nat) (closure : Option (Stored AccountClosureRequest))
    (declared : List (String × Int)) : Nat :=
  1 + l.recordingSteps request (l.awaited request closure declared) + closure.toList.length

/-- The certificate is complete when the `n`-th statement fails: the setting can be read, the
processors it has to get through are accepted, and the failure comes behind them. -/
def GetsThrough (env : Env) (l : Ledger) (request : Nat)
    (closure : Option (Stored AccountClosureRequest)) (n : Nat) : Prop :=
  ∃ declared, declaredSubprocessors env.settings [] = .ok declared ∧
    (∀ p ∈ l.awaited request closure declared, l.accepts request env.now p) ∧
    l.flipSteps request closure declared ≤ n

/-! ### One processor -/

section Loop

variable {request : Nat} {anchor : Time} {name : String} {window : Int} {n : Nat} {e : Error}
  {l : Ledger}

/-- The row `get_or_create` inserts. -/
def newObligation (env : Env) (request : Nat) (anchor : Time) (p : String × Int) :
    SubprocessorObligation where
  request := request
  provider := p.1
  windowDays := p.2
  recordedAt := env.now
  dueAt := anchor + days p.2

theorem createObligation_new {p : String × Int} (hno : db.hasObligation request p.1 = false)
    (hw : 0 ≤ p.2) : db.createObligation (newObligation env request anchor p) =
      .ok (true, { db with
        obligations := db.obligations.insert (newObligation env request anchor p) }) := by
  refine if_neg fun h => ?_
  rcases h with hhas | hneg
  · exact absurd (hhas.symm.trans hno) (by simp)
  · exact absurd hneg (Int.not_lt.mpr hw)

theorem createObligation_negative {p : String × Int} (hw : p.2 < 0) :
    db.createObligation (newObligation env request anchor p) = .error .integrityError :=
  if_pos (.inr hw)

/-- The handler around the insert: a row lost to a race is looked up again. -/
def racedObligation (request : Nat) (name : String) (e : Error) : Program Bool :=
  if e = .integrityError then do
    let raced ← Prog.query (.obligationQuery request name) (·.hasObligation request name)
    if raced then return false else Prog.raise .integrityError
  else Prog.raise e

theorem getOrCreateObligation_eq (hd : Representable (anchor + days window)) :
    getOrCreateObligation env request anchor name window =
      Prog.query (.obligationQuery request name) (·.hasObligation request name) >>= fun existing =>
        if existing then return false
        else (Prog.atomic (.obligation request name) fun db => db.createObligation
          (newObligation env request anchor (name, window))).tryCatch
          (racedObligation request name) :=
  if_neg (not_not.mpr hd)

theorem getOrCreateObligation_late (hd : ¬ Representable (anchor + days window)) :
    getOrCreateObligation env request anchor name window = Prog.raise .overflowError :=
  if_pos hd

/-- With no such row in the store the handler writes nothing and raises. -/
theorem racedObligation_run {k : Bool → Program Unit} {e' : Error}
    (hno : db.hasObligation request name = false) :
    ((racedObligation request name e' >>= k).run db).2 = db := by
  unfold racedObligation
  split
  · simp only [Prog.query, step_bind, run, id, hno]
    rfl
  · rfl

theorem racedObligation_runFault {k : Bool → Program Unit} {e' : Error}
    (hno : db.hasObligation request name = false) :
    ((racedObligation request name e' >>= k).runFault n e db).2 = db := by
  unfold racedObligation
  split
  · cases n with
    | zero => rfl
    | succ n =>
        simp only [Prog.query, step_bind, runFault, id, hno]
        cases n <;> rfl
  · cases n <;> rfl

theorem recordingSteps_cons {p : String × Int} {ps : List (String × Int)} :
    l.recordingSteps request (p :: ps) =
      (if l.hasObligation request p.1 then 1 else 2) + l.recordingSteps request ps :=
  rfl

/-- A failure in the statements of one processor, or a processor that is not accepted, ends the
call and leaves the store as it was. -/
theorem getOrCreateObligation_stops {k : Bool → Program Unit}
    (h : db.accepts request anchor (name, window) →
      n < if db.hasObligation request name then 1 else 2) :
    ((getOrCreateObligation env request anchor name window >>= k).runFault n e db).2 = db := by
  by_cases hd : Representable (anchor + days window)
  · rw [getOrCreateObligation_eq hd]
    by_cases hhas : db.hasObligation request name = true
    · have hn := h ⟨hd, fun hno => absurd (hno.symm.trans hhas) (by simp)⟩
      rw [if_pos hhas] at hn
      obtain rfl : n = 0 := by omega
      rfl
    · have hno : db.hasObligation request name = false := by simpa using hhas
      rw [if_neg hhas] at h
      rcases n with _ | _ | n
      · rfl
      · simp only [Prog.query, Prog.atomic, step_bind, runFault, id, hno, Bool.false_eq_true,
          if_false, ret_bind, Prog.tryCatch]
        exact racedObligation_run hno
      · have hneg : window < 0 := by
          by_contra hw
          have hn := h ⟨hd, fun _ => Int.not_lt.mp hw⟩
          omega
        simp only [Prog.query, Prog.atomic, step_bind, runFault, id, hno, Bool.false_eq_true,
          if_false, ret_bind, Prog.tryCatch, createObligation_negative (p := (name, window)) hneg]
        exact racedObligation_runFault hno
  · -- the date of the window
    rw [getOrCreateObligation_late hd]
    cases n <;> rfl

theorem hasObligation_insert {o : SubprocessorObligation} {provider : String} :
    ({ db with obligations := db.obligations.insert o } : Db).hasObligation request provider =
      (db.hasObligation request provider ||
        decide (o.request = request ∧ o.provider = provider)) := by
  simp [Ledger.hasObligation, Table.any, Table.insert, Bool.decide_and]

/-- Otherwise the row is there afterwards and the call goes on. -/
theorem getOrCreateObligation_goes (env : Env) {k : Bool → Program Unit}
    (h : db.accepts request anchor (name, window)) :
    ∃ created db', (getOrCreateObligation env request anchor name window >>= k).runFault
        ((if db.hasObligation request name then 1 else 2) + n) e db =
          (k created).runFault n e db' ∧ OnlyObliges db db' ∧
      ∀ q, db'.hasObligation request q = (db.hasObligation request q || decide (name = q)) := by
  obtain ⟨hd, hw⟩ := h
  rw [getOrCreateObligation_eq hd]
  by_cases hhas : db.hasObligation request name = true
  · refine ⟨false, db, ?_, .refl db, fun q => ?_⟩
    · rw [if_pos hhas, Nat.add_comm]
      simp only [Prog.query, step_bind, runFault, id, hhas, if_true, ret_bind]
      rfl
    · by_cases hq : name = q
      · subst hq
        rw [hhas, Bool.true_or]
      · simp [hq]
  · have hno : db.hasObligation request name = false := by simpa using hhas
    refine ⟨true, _, ?_, .insert db (newObligation env request anchor (name, window)), fun q => ?_⟩
    · rw [if_neg hhas, Nat.add_comm]
      simp only [Prog.query, Prog.atomic, step_bind, runFault, id, hno, Bool.false_eq_true,
        if_false, ret_bind, Prog.tryCatch, createObligation_new (p := (name, window)) hno (hw hno)]
    · rw [hasObligation_insert]
      simp [newObligation]

/-! ### All of them -/

/-- The body of the loop over the declared processors. -/
def recordObligation (env : Env) (request : Nat) (anchor : Time) (written : Nat)
    (p : String × Int) : Program Nat := do
  let created ← getOrCreateObligation env request anchor p.1 p.2
  return written + created.toNat

theorem recordObligation_bind {k : Nat → Program Unit} {written : Nat} {p : String × Int} :
    recordObligation env request anchor written p >>= k =
      getOrCreateObligation env request anchor p.1 p.2 >>= fun created =>
        k (written + created.toNat) := by
  rw [recordObligation, Prog.bind_assoc]
  rfl

theorem recordObligation_only {written : Nat} {p : String × Int} :
    Always (fun _ => OnlyObliges) (recordObligation env request anchor written p) :=
  (getOrCreateObligation_always .refl fun db => ⟨.refl db, .insert db⟩).bind fun _ => always_ret

/-- The ledger `db` has the same of these rows as `l`. -/
def SameObligations (request : Nat) (l : Ledger) (ps : List (String × Int)) (db : Db) : Prop :=
  ∀ p ∈ ps, db.hasObligation request p.1 = l.hasObligation request p.1

/-- Writing the first processor's row decides nothing about the others. -/
theorem SameObligations.tail {db' : Db} {p : String × Int} {ps : List (String × Int)}
    (h : SameObligations request l (p :: ps) db) (hnd : ((p :: ps).map Prod.fst).Nodup)
    (hnew : ∀ q, db'.hasObligation request q = (db.hasObligation request q || decide (p.1 = q))) :
    SameObligations request l ps db' := by
  intro q hq
  have hne : p.1 ≠ q.1 := by
    intro heq
    rw [List.map_cons, List.nodup_cons] at hnd
    exact hnd.1 (heq ▸ List.mem_map_of_mem hq)
  rw [hnew, decide_eq_false hne, Bool.or_false, h q (List.mem_cons_of_mem p hq)]

theorem SameObligations.accepts {p : String × Int} {ps : List (String × Int)}
    (h : SameObligations request l (p :: ps) db) :
    db.accepts request anchor p ↔ l.accepts request anchor p := by
  unfold Ledger.accepts
  rw [h p List.mem_cons_self]

/-- A loop over accepted processors, with statements enough before the failure, writes their
rows and goes on. -/
theorem recordObligations_goes {ps : List (String × Int)} {k : Nat → Program Unit}
    (rest : List (String × Int)) (written : Nat) (hnd : (ps.map Prod.fst).Nodup) (hsame : SameObligations request l ps db)
    (haccepts : ∀ p ∈ ps, l.accepts request anchor p) :
    ∃ written' db', ((ps ++ rest).foldlM (recordObligation env request anchor) written >>=
        k).runFault (l.recordingSteps request ps + n) e db =
          (rest.foldlM (recordObligation env request anchor) written' >>= k).runFault n e db' ∧
      OnlyObliges db db' ∧ ∀ p ∈ ps, db'.hasObligation request p.1 = true := by
  induction ps generalizing written db with
  | nil => exact ⟨written, db, by rw [show l.recordingSteps request [] = 0 from rfl, Nat.zero_add,
      List.nil_append], .refl db, by simp⟩
  | cons p ps ih =>
      obtain ⟨created, db₁, hrun₁, honly₁, hnew⟩ := getOrCreateObligation_goes env
        (n := l.recordingSteps request ps + n) (e := e)
        (k := fun created => (ps ++ rest).foldlM (recordObligation env request anchor)
          (written + created.toNat) >>= k) (hsame.accepts.mpr (haccepts p List.mem_cons_self))
      obtain ⟨written', db', hrun, honly, hall⟩ := ih (written + created.toNat)
        (List.nodup_cons.mp (by simpa using hnd)).2 (hsame.tail hnd hnew)
        fun q hq => haccepts q (List.mem_cons_of_mem p hq)
      refine ⟨written', db', ?_, honly₁.trans honly, fun q hq => ?_⟩
      · rw [List.cons_append, List.foldlM_cons, Prog.bind_assoc, recordObligation_bind,
          recordingSteps_cons, ← hsame p List.mem_cons_self, Nat.add_assoc, hrun₁]
        exact hrun
      · rcases List.mem_cons.mp hq with rfl | hmem
        · refine honly.hasObligation ?_
          rw [hnew, decide_eq_true rfl, Bool.or_true]
        · exact hall q hmem

/-- A loop that fails somewhere, or meets a processor that is not accepted, ends the call, and
does not come to the last of them. -/
theorem recordObligations_stops {ps rest : List (String × Int)} {k : Nat → Program Unit}
    {written : Nat} (hnd : (ps.map Prod.fst).Nodup) (hsame : SameObligations request l ps db)
    (h : (∀ p ∈ ps, l.accepts request anchor p) → n < l.recordingSteps request ps) {out : Db}
    (hout : (((ps ++ rest).foldlM (recordObligation env request anchor) written >>= k).runFault
      n e db).2 = out) :
    out.requests = db.requests ∧ out.closures = db.closures ∧
      ∀ p, ps.getLast? = some p → out.hasObligation request p.1 = l.hasObligation request p.1 := by
  induction ps generalizing n written db with
  | nil => exact absurd (h (by simp)) (Nat.not_lt_zero n)
  | cons p ps ih =>
      rw [List.cons_append, List.foldlM_cons, Prog.bind_assoc, recordObligation_bind] at hout
      by_cases hgoes : db.accepts request anchor p ∧
          (if db.hasObligation request p.1 then 1 else 2) ≤ n
      · obtain ⟨haccepts, hle⟩ := hgoes
        obtain ⟨m, rfl⟩ := Nat.exists_eq_add_of_le hle
        obtain ⟨created, db₁, hrun₁, honly₁, hnew⟩ := getOrCreateObligation_goes env
          (n := m) (e := e) (k := fun created => (ps ++ rest).foldlM
            (recordObligation env request anchor) (written + created.toNat) >>= k) haccepts
        rw [hrun₁] at hout
        have hrest : (∀ q ∈ ps, l.accepts request anchor q) → m < l.recordingSteps request ps := by
          intro hall
          have hlt := h (List.forall_mem_cons.mpr ⟨hsame.accepts.mp haccepts, hall⟩)
          rw [recordingSteps_cons, ← hsame p List.mem_cons_self] at hlt
          omega
        obtain ⟨hreq, hclo, hlast⟩ := ih (List.nodup_cons.mp (by simpa using hnd)).2
          (hsame.tail hnd hnew) hrest hout
        refine ⟨hreq.trans honly₁.requests, hclo.trans honly₁.closures, fun q hq => ?_⟩
        cases ps with
        | nil => exact absurd (hrest (by simp)) (Nat.not_lt_zero m)
        | cons q' ps' => exact hlast q (by rwa [List.getLast?_cons_cons] at hq)
      · have hstop : db.accepts request anchor (p.1, p.2) →
            n < if db.hasObligation request p.1 then 1 else 2 := fun haccepts =>
          Nat.lt_of_not_le fun hle => hgoes ⟨haccepts, hle⟩
        rw [getOrCreateObligation_stops hstop] at hout
        subst hout
        exact ⟨rfl, rfl, fun q hq => hsame q (List.mem_of_getLast? hq)⟩

end Loop

/-! ### One certification -/

/-- The last statement of the flip. -/
def saveClosure (env : Env) (closure : Option (Stored AccountClosureRequest)) (waived : Bool) :
    Program Unit :=
  match closure with
  | some closure =>
      Prog.write (.closureDeleted closure.pk) fun db => { db with
        closures := db.closures.modify closure.pk (·.delete env.now waived) }
  | none => return ()

section Flip

variable {request : Stored ErasureRequest} {closure : Option (Stored AccountClosureRequest)}
  {waived : Bool} {n : Nat} {e : Error}

/-- Behind the request save: the loop, when the setting can be read, then the closure. -/
theorem certify_runFault_succ (env : Env) (db : Db) :
    (certify env request closure waived).runFault (n + 1) e db =
      (recordSubprocessorObligations env ⟨request.pk, request.row.certify env.now waived⟩ >>=
        fun _ => saveClosure env closure waived).runFault n e { db with
          requests := db.requests.modify request.pk (·.certify env.now waived) } :=
  rfl

theorem recordSubprocessorObligations_ok {declared : List (String × Int)}
    (h : declaredSubprocessors env.settings [] = .ok declared) :
    recordSubprocessorObligations env ⟨request.pk, request.row.certify env.now waived⟩ =
      declared.foldlM (recordObligation env request.pk env.now) 0 := by
  unfold recordSubprocessorObligations
  rw [h]
  rfl

theorem recordSubprocessorObligations_error {e' : Error} {k : Nat → Program Unit}
    (h : declaredSubprocessors env.settings [] = .error e') :
    ((recordSubprocessorObligations env request >>= k).runFault n e db).2 = db := by
  unfold recordSubprocessorObligations
  rw [h]
  cases n <;> rfl

/-- The closure save, reached with `n` statements to go before the failure. -/
theorem saveClosure_runFault (env : Env) (pk : Nat) (waived : Bool) (hcl : ∀ cl, closure = some cl →
      ∃ c, db.closures.get? cl.pk = some c ∧ c.status ≠ .deleted) {out : Db}
    (hout : ((saveClosure env closure waived).runFault n e db).2 = out) :
    out.requests = db.requests ∧
      (∀ name, out.hasObligation pk name = db.hasObligation pk name) ∧
      ((∀ cl, closure = some cl → ∃ c, out.closures.get? cl.pk = some c ∧ c.status = .deleted) ↔
        closure.toList.length ≤ n) := by
  subst hout
  cases closure with
  | none =>
      have hret : (saveClosure env none waived).runFault n e db = (.ok (), db) := by cases n <;> rfl
      rw [hret]
      exact ⟨rfl, fun _ => rfl, by simp⟩
  | some cl =>
      obtain ⟨c, hc, hst⟩ := hcl cl rfl
      cases n with
      | zero =>
          refine ⟨rfl, fun _ => rfl, fun h => ?_, fun h => absurd h (by simp)⟩
          obtain ⟨c', hc', hdel⟩ := h cl rfl
          rw [show db.closures.get? cl.pk = some c' from hc'] at hc
          exact absurd (Option.some.inj hc ▸ hdel) hst
      | succ n =>
          have hrun : (saveClosure env (some cl) waived).runFault (n + 1) e db =
              (.ok (), { db with
                closures := db.closures.modify cl.pk (·.delete env.now waived) }) := by
            cases n <;> rfl
          rw [hrun]
          refine ⟨rfl, fun _ => rfl, fun _ => by simp, fun _ cl' hcl' => ?_⟩
          obtain rfl := Option.some.inj hcl'
          exact ⟨_, Table.get?_modify_self _ hc, rfl⟩

/-- The stored closure is DELETING when the flip starts. -/
theorem Reflects.closing (h : Reflects db request closure) (hallow : closureAllows closure = true) :
    ∀ cl, closure = some cl → ∃ c, db.closures.get? cl.pk = some c ∧ c.status ≠ .deleted := by
  intro cl hcl
  subst hcl
  obtain ⟨-, c, hc, himp⟩ := h
  refine ⟨c, hc, ?_⟩
  rw [(AccountClosureRequest.erased_iff.mp (himp hallow)).1]
  simp

theorem Reflects.closure_iff (h : Reflects db request closure) {k : Nat} :
    request.row.closure = some k ↔ ∃ cl, closure = some cl ∧ cl.pk = k := by
  cases closure with
  | none => simp [show request.row.closure = none from h]
  | some cl => simp [h.1]

/-- The processors that are awaited come first, and the others have their rows. -/
theorem awaited_append (l : Ledger) (request : Nat)
    (closure : Option (Stored AccountClosureRequest)) (declared : List (String × Int)) :
    ∃ rest, l.awaited request closure declared ++ rest = declared ∧
      (closure.isSome = true → rest = []) ∧
      ∀ p ∈ rest, l.hasObligation request p.1 = true := by
  unfold Ledger.awaited
  split
  · exact ⟨[], List.append_nil declared, fun _ => rfl, by simp⟩
  · rename_i hnone
    exact ⟨declared.rtakeWhile fun p => l.hasObligation request p.1,
      List.rdropWhile_append_rtakeWhile, fun hsome => absurd hsome hnone, fun p hp => by
        simpa using List.mem_rtakeWhile_imp hp⟩

/-- Without a closure the last of them has no row. -/
theorem awaited_last {l : Ledger} {pk : Nat} {declared : List (String × Int)} {p : String × Int}
    (h : (l.awaited pk none declared).getLast? = some p) : l.hasObligation pk p.1 = false := by
  change (declared.rdropWhile _).getLast? = some p at h
  have hne : declared.rdropWhile (fun p => l.hasObligation pk p.1) ≠ [] := by
    intro hnil
    rw [hnil] at h
    exact absurd h (by simp)
  rw [List.getLast?_eq_some_getLast hne] at h
  have hlast := List.rdropWhile_last_not _ _ hne
  rw [Option.some.inj h] at hlast
  simpa using hlast

theorem getsThrough_iff {l : Ledger} {pk : Nat} {declared : List (String × Int)}
    (hdecl : declaredSubprocessors env.settings [] = .ok declared) :
    GetsThrough env l pk closure n ↔
      (∀ p ∈ l.awaited pk closure declared, l.accepts pk env.now p) ∧
        l.flipSteps pk closure declared ≤ n := by
  constructor
  · intro ⟨declared', hok, h⟩
    obtain rfl := Except.ok.inj (hdecl.symm.trans hok)
    exact h
  · exact fun h => ⟨declared, hdecl, h⟩

/-- What is left behind the awaited processors: nothing a certificate without closure needs, and
otherwise the closure save. -/
theorem rest_runFault {rest : List (String × Int)} {written pk : Nat} (waived : Bool)
    (hrest : closure.isSome = true → rest = []) (hcl : ∀ cl, closure = some cl →
      ∃ c, db.closures.get? cl.pk = some c ∧ c.status ≠ .deleted) {out : Db}
    (hout : ((rest.foldlM (recordObligation env pk env.now) written >>= fun _ =>
      saveClosure env closure waived).runFault n e db).2 = out) :
    out.requests = db.requests ∧
      (∀ name, db.hasObligation pk name = true → out.hasObligation pk name = true) ∧
      ((∀ cl, closure = some cl → ∃ c, out.closures.get? cl.pk = some c ∧ c.status = .deleted) ↔
        closure.toList.length ≤ n) := by
  cases closure with
  | none =>
      have hkeeps : Always (fun _ => OnlyObliges) (rest.foldlM
          (recordObligation env pk env.now) written >>= fun _ => saveClosure env none waived) :=
        (Always.foldlM fun _ _ _ => recordObligation_only).bind fun _ => always_ret
      obtain ⟨tr, hruns⟩ := runs_runFault n e (rest.foldlM (recordObligation env pk env.now)
        written >>= fun _ => saveClosure env none waived) db
      have honly : OnlyObliges db out :=
        hout ▸ hkeeps.keeps hruns (fun _ _ _ h => h) .refl .trans
      exact ⟨honly.requests, fun name hhas => honly.hasObligation hhas, by simp⟩
  | some cl =>
      obtain rfl := hrest rfl
      obtain ⟨hreq, hsame, hiff⟩ := saveClosure_runFault env pk waived hcl hout
      exact ⟨hreq, fun name hhas => (hsame name).trans hhas, hiff⟩

/-- Once the request is saved, "nothing" is out of reach. -/
theorem not_unwritten (hr : db.requests.get? request.pk = some request.row)
    (hopen : request.row.state.isOpen = true) {out : Db}
    (hreq : out.requests = db.requests.modify request.pk (·.certify env.now waived)) :
    ¬ Unwritten db.toLedger out.toLedger := by
  intro hnone
  have heq : db.requests.get? request.pk = some (request.row.certify env.now waived) := by
    rw [← show out.requests = db.requests from hnone.1, hreq]
    exact Table.get?_modify_self _ hr
  rw [hr] at heq
  rw [Option.some.inj heq] at hopen
  exact absurd rfl (ErasureState.ne_deleted hopen)

/-- And "all" is, when neither the closure nor the last of the awaited processors has been
reached. -/
theorem not_written {declared ps : List (String × Int)}
    (hdecl : declaredSubprocessors env.settings [] = .ok declared)
    (hcl : Reflects db request closure)
    (hallow : closureAllows closure = true) (hne : ps ≠ []) (hsub : ∀ p ∈ ps, p ∈ declared)
    (hlast : ∀ p, closure = none → ps.getLast? = some p →
      db.hasObligation request.pk p.1 = false) {out : Db} (hclo : out.closures = db.closures)
    (hmiss : ∀ p, ps.getLast? = some p →
      out.hasObligation request.pk p.1 = db.hasObligation request.pk p.1) :
    ¬ Written env request out.toLedger := by
  intro hall
  cases hcopy : closure with
  | some cl =>
      obtain ⟨c, hc, hst⟩ := hcl.closing hallow cl hcopy
      obtain ⟨c', hc', hdel⟩ := hall.closure cl.pk (hcl.closure_iff.mpr ⟨cl, hcopy, rfl⟩)
      obtain rfl := Option.some.inj (hc.symm.trans (hclo ▸ hc'))
      exact hst hdel
  | none =>
      obtain ⟨declared', hok, hhas⟩ := hall.obligations
      obtain rfl := Except.ok.inj (hdecl.symm.trans hok)
      have hp := List.getLast?_eq_some_getLast hne
      have hno := (hmiss _ hp).trans (hlast _ hcopy hp)
      exact absurd ((hhas _ (hsub _ (List.getLast_mem hne))).symm.trans hno) (by simp)

/-- **All or nothing, exactly.** For every request that `_maybe_finalize` is about to certify
and every statement of the certification that raises: none or all of request, closure and
obligations are written if and only if the failing statement is the request save, or comes
after the last one the certificate needs, of a declaration that can be read and of processors
that are accepted. -/
theorem certify_fault_iff (hr : db.requests.get? request.pk = some request.row)
    (hopen : request.row.state.isOpen = true) (hcl : Reflects db request closure)
    (hallow : closureAllows closure = true) (n : Nat) (e : Error) :
    AllOrNothing env request db.toLedger
        ((certify env request closure waived).runFault n e db).2.toLedger ↔
      n = 0 ∨ GetsThrough env db.toLedger request.pk closure n := by
  cases n with
  | zero => exact ⟨fun _ => .inl rfl, fun _ => .inl ⟨rfl, rfl, rfl⟩⟩
  | succ n =>
      rw [certify_runFault_succ, or_iff_right (Nat.succ_ne_zero n)]
      set flipped : Db := { db with
        requests := db.requests.modify request.pk (·.certify env.now waived) } with hflipped
      cases hdecl : declaredSubprocessors env.settings [] with
      | error e' =>
          -- the setting cannot be read, and the request is saved
          rw [recordSubprocessorObligations_error hdecl]
          refine iff_of_false (fun h => ?_) fun ⟨declared, hok, _⟩ => ?_
          · rcases h with hnone | hall
            · exact not_unwritten hr hopen rfl hnone
            · obtain ⟨declared, hok, -⟩ := hall.obligations
              cases hdecl.symm.trans hok
          · cases hdecl.symm.trans hok
      | ok declared =>
          rw [recordSubprocessorObligations_ok hdecl, getsThrough_iff hdecl, Ledger.flipSteps]
          obtain ⟨rest, hsplit, hrest, hthere⟩ :=
            awaited_append db.toLedger request.pk closure declared
          have hlast : ∀ p, closure = none → (db.awaited request.pk closure declared).getLast? =
              some p → db.hasObligation request.pk p.1 = false := by
            rintro p rfl hp
            exact awaited_last hp
          generalize db.awaited request.pk closure declared = ps at hsplit hlast
          have hnd : (ps.map Prod.fst).Nodup := by
            have hall := declaredSubprocessors_nodup hdecl
            rw [← hsplit, List.map_append] at hall
            exact hall.of_append_left
          have hsame : SameObligations request.pk db.toLedger ps flipped := fun _ _ => rfl
          by_cases hgoes : (∀ p ∈ ps, db.accepts request.pk env.now p) ∧
              db.recordingSteps request.pk ps ≤ n
          · -- the awaited processors are recorded, and what is left is the closure
            obtain ⟨haccepts, hle⟩ := hgoes
            obtain ⟨m, rfl⟩ := Nat.exists_eq_add_of_le hle
            obtain ⟨written', db', hrun, honly, hall⟩ := recordObligations_goes (n := m) (e := e)
              (k := fun _ => saveClosure env closure waived) rest 0 hnd hsame haccepts
            rw [← hsplit, hrun]
            obtain ⟨hreq, hold, hiff⟩ := rest_runFault waived hrest
              (fun cl h => honly.closures ▸ hcl.closing hallow cl h) rfl
            have hreq' := hreq.trans honly.requests
            refine ⟨fun h => ⟨haccepts, ?_⟩, fun ⟨_, hm⟩ => .inr ⟨?_, fun k hk => ?_,
              declared, hdecl, fun p hp => hold p.1 ?_⟩⟩
            · rcases h with hnone | hwritten
              · exact absurd hnone (not_unwritten hr hopen hreq')
              · have hclosed := hiff.mp fun cl h =>
                  hwritten.closure cl.pk (hcl.closure_iff.mpr ⟨cl, h, rfl⟩)
                omega
            · refine ⟨request.row.certify env.now waived, ?_, rfl⟩
              rw [hreq']
              exact Table.get?_modify_self _ hr
            · obtain ⟨cl, hcl', rfl⟩ := hcl.closure_iff.mp hk
              exact hiff.mpr (by omega) cl hcl'
            · rw [← hsplit] at hp
              rcases List.mem_append.mp hp with hmem | hmem
              · exact hall p hmem
              · exact honly.hasObligation (hthere p hmem)
          · -- the recording is cut off: the closure is not saved, and the last awaited has no row
            have hstop : (∀ p ∈ ps, db.accepts request.pk env.now p) →
                n < db.recordingSteps request.pk ps := fun haccepts =>
              Nat.lt_of_not_le fun hle => hgoes ⟨haccepts, hle⟩
            rw [← hsplit]
            obtain ⟨hreq, hclo, hmiss⟩ := recordObligations_stops hnd hsame hstop rfl
            have hne : ps ≠ [] := by
              rintro rfl
              exact hgoes ⟨by simp, Nat.zero_le n⟩
            have hsub : ∀ p ∈ ps, p ∈ declared := fun p hp =>
              hsplit ▸ List.mem_append_left rest hp
            refine iff_of_false (fun h => ?_) fun ⟨haccepts, hle⟩ => hgoes ⟨haccepts, by omega⟩
            rcases h with hnone | hall
            · exact not_unwritten hr hopen hreq hnone
            · exact not_written hdecl hcl hallow hne hsub hlast hclo hmiss hall

end Flip

end StapelGdpr
