import StapelGdpr.AllOrNothing
import StapelGdpr.Retry

/-!
# StapelGdpr.Completion

Certification over whole runs. `Coherent` is what certification is for: a request that
carries a closure is DELETED exactly when that closure is, and a DELETED request has the
obligation of every processor that was declared when it completed. In the middle of a flip
it does not hold; every other statement keeps it, and a flip that is not interrupted
restores it.

`CertifiedRun` are the runs in which no flip is interrupted. What was declared when a
request completed is history, so the run carries it.
-/

namespace StapelGdpr

open Prog

variable {env : Env} {op : Op} {db db' : Db} {l l' : Ledger} {completed : Nat → List String}
  {α : Type} {Q : α → Db → Prop} {E : Error → Db → Prop}

/-- `SUBPROCESSORS` declares these processors; each window fits its column, and a `datetime` holds
each date that it gives now. -/
structure Env.Declares (env : Env) (declared : List (String × Int)) : Prop where
  read : declaredSubprocessors env.settings [] = .ok declared
  windows : ∀ p ∈ declared, 0 ≤ p.2
  dates : ∀ p ∈ declared, Representable (env.now + days p.2)

/-- The processors `SUBPROCESSORS` declares, as far as it can be read. -/
def Settings.processors (settings : Settings) : List String :=
  match declaredSubprocessors settings [] with
  | .ok declared => declared.map Prod.fst
  | .error _ => []

/-! ### The invariant -/

/-- The invariant outside a flip; `completed` names the processors declared when a request
completed. -/
structure Consistent (completed : Nat → List String) (l : Ledger) : Prop where
  correlated : Correlated l
  closure : ∀ pk r k, l.requests.get? pk = some r → r.closure = some k →
    ∃ c, l.closures.get? k = some c ∧ c.correlationId = r.correlationId ∧
      (r.state = .deleted ↔ c.status = .deleted)
  recorded : ∀ pk r, l.requests.get? pk = some r → r.state = .deleted →
    ∀ name ∈ completed pk, l.hasObligation pk name = true

/-- The invariant inside a call: for a request not yet DELETED, `completed` names the
processors this call would find. -/
structure Coherent (env : Env) (completed : Nat → List String) (l : Ledger) : Prop
    extends Consistent completed l where
  current : ∀ pk, (∀ r, l.requests.get? pk = some r → r.state ≠ .deleted) →
    completed pk = env.settings.processors

/-- Two requests do not share a closure. -/
theorem Coherent.closure_unique (h : Coherent env completed l) {i j k : Nat}
    {r r' : ErasureRequest} (hr : l.requests.get? i = some r) (hr' : l.requests.get? j = some r')
    (hk : r.closure = some k) (hk' : r'.closure = some k) : i = j := by
  obtain ⟨c, hc, hid, -⟩ := h.closure i r k hr hk
  obtain ⟨c', hc', hid', -⟩ := h.closure j r' k hr' hk'
  obtain ⟨id, hsome⟩ := h.correlated.present i r hr
  rw [hc] at hc'
  obtain rfl := Option.some.inj hc'
  exact h.correlated.unique i j r r' id hr hr' hsome (by rw [← hid', hid, hsome])

/-- Closures may move, as long as none that a request carries becomes or stops being
DELETED. -/
theorem Coherent.closures (h : Coherent env completed l) (hreq : l'.requests = l.requests)
    (hobl : l'.obligations = l.obligations)
    (hclo : ∀ i r k c, l.requests.get? i = some r → r.closure = some k →
      l.closures.get? k = some c → ∃ c', l'.closures.get? k = some c' ∧
        c'.correlationId = c.correlationId ∧ (c'.status = .deleted ↔ c.status = .deleted)) :
    Coherent env completed l' where
  correlated := ⟨fun i r hr => h.correlated.present i r (hreq ▸ hr),
    fun i j r r' id hr hr' => h.correlated.unique i j r r' id (hreq ▸ hr) (hreq ▸ hr')⟩
  closure pk r k hr hk := by
    obtain ⟨c, hc, hid, hiff⟩ := h.closure pk r k (hreq ▸ hr) hk
    obtain ⟨c', hc', hid', hiff'⟩ := hclo pk r k c (hreq ▸ hr) hk hc
    exact ⟨c', hc', hid'.trans hid, hiff.trans hiff'.symm⟩
  recorded pk r hr hdel name hname := by
    rw [Ledger.hasObligation, hobl]
    exact h.recorded pk r (hreq ▸ hr) hdel name hname
  current pk hpk := h.current pk fun r hr => hpk r (hreq ▸ hr)

theorem Coherent.same (h : Coherent env completed l) (hreq : l'.requests = l.requests)
    (hclo : l'.closures = l.closures) (hobl : l'.obligations = l.obligations) :
    Coherent env completed l' :=
  h.closures hreq hobl fun _ _ _ c _ _ hc => ⟨c, by rw [hclo]; exact hc, rfl, Iff.rfl⟩

theorem Coherent.modifyClosure (h : Coherent env completed l) {pk : Nat}
    {f : AccountClosureRequest → AccountClosureRequest}
    (hclo : l'.closures = l.closures.modify pk f) (hreq : l'.requests = l.requests)
    (hobl : l'.obligations = l.obligations)
    (hf : ∀ i r c, l.requests.get? i = some r → r.closure = some pk →
      l.closures.get? pk = some c → (f c).correlationId = c.correlationId ∧
        ((f c).status = .deleted ↔ c.status = .deleted)) : Coherent env completed l' := by
  refine h.closures hreq hobl fun i r k c hr hcarried hc => ?_
  rw [hclo]
  by_cases hk : k = pk
  · subst hk
    exact ⟨f c, Table.get?_modify_self f hc, hf i r c hr hcarried hc⟩
  · exact ⟨c, (Table.get?_modify_of_ne f hk).trans hc, rfl, Iff.rfl⟩

/-- What a modified request was. -/
theorem get?_modify_some {t : Table ErasureRequest} {i pk : Nat}
    {f : ErasureRequest → ErasureRequest} {r' : ErasureRequest}
    (h : (t.modify pk f).get? i = some r') :
    ∃ r, t.get? i = some r ∧ (i = pk ∧ r' = f r ∨ i ≠ pk ∧ r' = r) := by
  by_cases hi : i = pk
  · subst hi
    rw [Table.get?_modify, if_pos rfl] at h
    obtain ⟨r, hr, rfl⟩ := Option.map_eq_some_iff.mp h
    exact ⟨r, hr, .inl ⟨rfl, rfl⟩⟩
  · exact ⟨r', (Table.get?_modify_of_ne f hi).symm.trans h, .inr ⟨hi, rfl⟩⟩

/-- An open request that times out is DELETED neither before nor after. -/
theorem Coherent.timeOut (h : Coherent env completed l) {pk : Nat} {r : ErasureRequest}
    (hr : l.requests.get? pk = some r) (hopen : r.state.isOpen = true)
    (hreq : l'.requests = l.requests.modify pk (·.timeOut)) (hclo : l'.closures = l.closures)
    (hobl : l'.obligations = l.obligations) (hcorr : Correlated l') :
    Coherent env completed l' := by
  have hold : ∀ {i r'}, l'.requests.get? i = some r' → ∃ q, l.requests.get? i = some q ∧
      r'.correlationId = q.correlationId ∧ r'.closure = q.closure ∧
      (r'.state = .deleted ↔ q.state = .deleted) := by
    intro i r' hr'
    rw [hreq] at hr'
    obtain ⟨q, hq, ⟨rfl, rfl⟩ | ⟨-, rfl⟩⟩ := get?_modify_some hr'
    · rw [hr] at hq
      obtain rfl := Option.some.inj hq
      exact ⟨r, hr, rfl, rfl, by simp [ErasureRequest.timeOut],
        fun hdel => absurd hdel (ErasureState.ne_deleted hopen)⟩
    · exact ⟨_, hq, rfl, rfl, Iff.rfl⟩
  refine ⟨⟨hcorr, fun i r' k hr' hk => ?_, fun i r' hr' hdel name hname => ?_⟩, fun i hi => ?_⟩
  · obtain ⟨q, hq, hid, hcl, hiff⟩ := hold hr'
    obtain ⟨c, hc, hid', hiff'⟩ := h.closure i q k hq (hcl ▸ hk)
    exact ⟨c, hclo ▸ hc, hid'.trans hid.symm, hiff.trans hiff'⟩
  · obtain ⟨q, hq, -, -, hiff⟩ := hold hr'
    rw [Ledger.hasObligation, hobl]
    exact h.recorded i q hq (hiff.mp hdel) name hname
  · refine h.current i fun q hq hdel => ?_
    have hkept : ∃ r', l'.requests.get? i = some r' ∧ r'.state = .deleted := by
      by_cases hipk : i = pk
      · subst hipk
        obtain rfl := Option.some.inj (hr.symm.trans hq)
        exact absurd hdel (ErasureState.ne_deleted hopen)
      · exact ⟨q, by rw [hreq, Table.get?_modify_of_ne _ hipk, hq], hdel⟩
    obtain ⟨r', hr', hdel'⟩ := hkept
    exact hi r' hr' hdel'

/-- A statement that neither flips, nor opens a request, nor starts a deletion. -/
def Op.plain : Op → Prop
  | .certify _ | .closureDeleted _ | .startDeleting _ | .erasureUnit .. => False
  | _ => True

theorem Coherent.step (h : Coherent env completed db.toLedger) (hm : Move env op db db')
    (hop : op.plain) : Coherent env completed db'.toLedger := by
  have hcorr := h.correlated.step hm
  cases hm with
  | elsewhere | localReceipt | receipted | partsTimedOut => exact h.same rfl rfl rfl
  | deletionStarted | erasureOpened | certified | closureDeleted => exact hop.elim
  | closureOpened =>
      exact h.closures rfl rfl fun _ _ k c _ _ hc =>
        ⟨c, Table.get?_insert_of_some _ hc, rfl, Iff.rfl⟩
  | closureCancelled userId users hc hgrace =>
      refine h.modifyClosure rfl rfl rfl fun _ _ c _ _ hget => ⟨rfl, ?_⟩
      rw [hc] at hget
      rw [← Option.some.inj hget, hgrace]
      simp [AccountClosureRequest.cancel]
  | identityErased => exact h.modifyClosure rfl rfl rfl fun _ _ _ _ _ _ => ⟨rfl, Iff.rfl⟩
  | localDone => exact h.modifyClosure rfl rfl rfl fun _ _ _ _ _ _ => ⟨rfl, Iff.rfl⟩
  | obligation hr ho =>
      obtain ⟨-, -, -, rfl⟩ := createObligation_ok ho
      refine ⟨⟨⟨h.correlated.present, h.correlated.unique⟩, h.closure,
        fun pk r hr hdel name hname => ?_⟩, h.current⟩
      rw [hasObligation_insert, h.recorded pk r hr hdel name hname, Bool.true_or]
  | requestTimedOut owners hr hopen hnote =>
      exact h.timeOut hr hopen rfl rfl rfl hcorr

/-! ### An uninterrupted flip -/

/-- A statement between the request save and the end of the flip. -/
def Op.inFlip : Op → Prop
  | .obligationQuery .. | .obligation .. | .closureDeleted _ => True
  | _ => False

/-- Runs `p` without interrupting a flip: any other statement may fail. -/
abbrev Uncut (Q : α → Db → Prop) (E : Error → Db → Prop) (p : Program α) (db : Db) : Prop :=
  Does (fun op => ¬ op.inFlip) (fun _ _ _ => True) Q E p db

/-- One processor, the ledger left to itself: looked up, and written when it is missing. -/
theorem getOrCreateObligation_uncut {request : Nat} {anchor : Time} {name : String}
    {window : Int} (hw : 0 ≤ window) (hd : Representable (anchor + days window)) :
    Uncut (fun _ db' => db'.requests = db.requests ∧ db'.closures = db.closures ∧
        ∀ r q, db'.hasObligation r q = true ↔
          db.hasObligation r q = true ∨ (r = request ∧ q = name)) (fun _ _ => False)
      (getOrCreateObligation env request anchor name window) db := by
  rw [getOrCreateObligation_eq hd]
  refine does_bind.mpr (does_query.mpr ⟨⟨trivial, ?_⟩, fun h => absurd trivial h⟩)
  split
  · rename_i hhas
    refine does_ret.mpr ⟨rfl, rfl, fun r q => ⟨.inl, fun h => h.elim id ?_⟩⟩
    rintro ⟨rfl, rfl⟩
    exact hhas
  · rename_i hno
    have hcreate : db.createObligation (newObligation env request anchor (name, window)) = _ :=
      createObligation_new (Bool.not_eq_true _ ▸ hno) hw
    refine Does.tryCatch (X := fun _ _ => False) (does_atomic.mpr ⟨?_, fun h => absurd trivial h⟩)
      fun _ _ h => h.elim
    rw [hcreate]
    refine ⟨trivial, rfl, rfl, fun r q => ?_⟩
    rw [hasObligation_insert, Bool.or_eq_true, decide_eq_true_eq]
    exact or_congr_right ⟨fun h => ⟨h.1.symm, h.2.symm⟩, fun h => ⟨h.1.symm, h.2.symm⟩⟩

/-- The loop records every processor and nothing else. -/
theorem recordSubprocessorObligations_uncut {request : Stored ErasureRequest}
    {declared : List (String × Int)} (hdecl : env.Declares declared)
    (hnow : request.row.completedAt = some env.now) :
    Uncut (fun _ db' => db'.requests = db.requests ∧ db'.closures = db.closures ∧
        (∀ r q, db.hasObligation r q = true → db'.hasObligation r q = true) ∧
        ∀ name ∈ env.settings.processors, db'.hasObligation request.pk name = true)
      (fun _ _ => False) (recordSubprocessorObligations env request) db := by
  unfold recordSubprocessorObligations Settings.processors
  rw [hdecl.read, hnow]
  refine (Does.foldlM (J := fun rest _ (db' : Db) => db'.requests = db.requests ∧
      db'.closures = db.closures ∧
      (∀ r q, db.hasObligation r q = true → db'.hasObligation r q = true) ∧
      (∀ p ∈ rest, p ∈ declared) ∧
      ∀ p ∈ declared, p ∈ rest ∨ db'.hasObligation request.pk p.1 = true)
    (fun p rest written db' ⟨hreq, hclo, hold, hsub, hall⟩ => ?_)
    ⟨rfl, rfl, fun _ _ h => h, fun _ h => h, fun p hp => .inl hp⟩).post
    (fun _ db' ⟨hreq, hclo, hold, _, hall⟩ => ⟨hreq, hclo, hold, fun name hname => ?_⟩)
    fun _ _ h => h
  · have hp := hsub p List.mem_cons_self
    refine (getOrCreateObligation_uncut (hdecl.windows p hp) (hdecl.dates p hp)).bind
      fun created db'' ⟨hreq', hclo', hiff⟩ => does_ret.mpr ⟨hreq'.trans hreq, hclo'.trans hclo,
        fun r q h => (hiff r q).mpr (.inl (hold r q h)),
        fun q hq => hsub q (List.mem_cons_of_mem p hq), fun q hq => ?_⟩
    rcases hall q hq with hmem | hhas
    · rcases List.mem_cons.mp hmem with rfl | hrest
      · exact .inr ((hiff _ _).mpr (.inr ⟨rfl, rfl⟩))
      · exact .inl hrest
    · exact .inr ((hiff _ _).mpr (.inl hhas))
  · obtain ⟨p, hp, rfl⟩ := List.mem_map.mp hname
    exact (hall p hp).resolve_left (by simp)

/-- What an uninterrupted flip leaves is coherent again. -/
theorem Coherent.certified (h : Coherent env completed l) {pk : Nat} {r : ErasureRequest}
    {waived : Bool} (hr : l.requests.get? pk = some r) (hopen : r.state.isOpen = true)
    (hreq : l'.requests = l.requests.modify pk (·.certify env.now waived))
    (hclo : l'.closures = match r.closure with
      | some k => l.closures.modify k (·.delete env.now waived)
      | none => l.closures)
    (hold : ∀ i q, l.hasObligation i q = true → l'.hasObligation i q = true)
    (hnew : ∀ name ∈ env.settings.processors, l'.hasObligation pk name = true) :
    Coherent env completed l' where
  correlated := h.correlated.kept fun i r' hr' => by
    obtain ⟨q, hq, ⟨-, rfl⟩ | ⟨-, rfl⟩⟩ := get?_modify_some (hreq ▸ hr')
    · exact ⟨q, hq, rfl⟩
    · exact ⟨_, hq, rfl⟩
  closure i r' k hr' hk := by
    obtain ⟨q, hq, ⟨rfl, rfl⟩ | ⟨hne, rfl⟩⟩ := get?_modify_some (hreq ▸ hr')
    · rw [hr] at hq
      obtain rfl := Option.some.inj hq
      obtain ⟨c, hc, hid, -⟩ := h.closure i r k hr hk
      rw [show r.closure = some k from hk] at hclo
      refine ⟨c.delete env.now waived, by rw [hclo]; exact Table.get?_modify_self _ hc, hid, ?_⟩
      exact ⟨fun _ => rfl, fun _ => rfl⟩
    · obtain ⟨c, hc, hid, hiff⟩ := h.closure i _ k hq hk
      refine ⟨c, ?_, hid, hiff⟩
      cases hcl : r.closure with
      | none =>
          rw [hcl] at hclo
          exact hclo ▸ hc
      | some k' =>
          rw [hcl] at hclo
          have hk' : k ≠ k' := fun heq => hne (h.closure_unique hq hr hk (heq ▸ hcl))
          rw [hclo, Table.get?_modify_of_ne _ hk', hc]
  recorded i r' hr' hdel name hname := by
    obtain ⟨q, hq, ⟨rfl, -⟩ | ⟨-, rfl⟩⟩ := get?_modify_some (hreq ▸ hr')
    · refine hnew name (h.current i (fun q' hq' hdel' => ?_) ▸ hname)
      obtain rfl := Option.some.inj (hr.symm.trans hq')
      exact absurd hdel' (ErasureState.ne_deleted hopen)
    · exact hold i name (h.recorded i _ hq hdel name hname)
  current i hi := by
    refine h.current i fun q hq hdel => ?_
    by_cases hipk : i = pk
    · subst hipk
      obtain rfl := Option.some.inj (hr.symm.trans hq)
      exact absurd hdel (ErasureState.ne_deleted hopen)
    · exact hi q (by rw [hreq, Table.get?_modify_of_ne _ hipk, hq]) hdel

/-- The store is coherent wherever the program ends. -/
abbrev Keeps (env : Env) (completed : Nat → List String) (p : Program α) (db : Db) : Prop :=
  Uncut (fun _ db' => Coherent env completed db'.toLedger)
    (fun _ db' => Coherent env completed db'.toLedger) p db

/-- Plain statements keep what they are known to keep, and coherence. -/
theorem uncut_plain {p : Program α} (hm : Moves env Q E p db) (hl : Labels Op.plain p)
    (h : Coherent env completed db.toLedger) :
    Uncut (fun a db' => Q a db' ∧ Coherent env completed db'.toLedger)
      (fun e db' => E e db' ∧ Coherent env completed db'.toLedger) p db :=
  (((hm.and hl.does).inv (I := fun db => Coherent env completed db.toLedger)
    (fun _ _ _ hs hc => hc.step hs.1 hs.2) h).restrict fun _ _ => trivial).imp
    (fun _ _ _ _ => trivial) (fun _ _ h => ⟨h.1.1, h.2⟩) fun _ _ h => ⟨h.1.1, h.2⟩

theorem Keeps.discard {p : Program α} (h : Keeps env completed p db) :
    Keeps env completed (discard p) db :=
  h.bind fun _ _ hc => does_ret.mpr hc

theorem certify_keeps {request : Stored ErasureRequest}
    {closure : Option (Stored AccountClosureRequest)} {waived : Bool}
    {declared : List (String × Int)} (hdecl : env.Declares declared)
    (h : Coherent env completed db.toLedger)
    (hr : db.requests.get? request.pk = some request.row)
    (hopen : request.row.state.isOpen = true) (hcl : Reflects db request closure) :
    Keeps env completed (certify env request closure waived) db := by
  refine does_bind.mpr (does_write.mpr ⟨⟨trivial, ?_⟩, fun _ _ => ⟨trivial, h⟩⟩)
  refine ((recordSubprocessorObligations_uncut hdecl rfl).post (fun _ _ h => h)
    fun _ _ h => h.elim).bind fun _ db' ⟨hreq, hclo, hold, hnew⟩ => ?_
  cases closure with
  | none =>
      have hnone : request.row.closure = none := hcl
      exact does_ret.mpr (h.certified hr hopen hreq (by rw [hnone]; exact hclo) hold hnew)
  | some cl =>
      refine does_write.mpr ⟨⟨trivial, ?_⟩, fun h => absurd trivial h⟩
      refine h.certified hr hopen hreq ?_ hold hnew
      rw [hcl.1]
      exact congrArg (·.modify cl.pk (·.delete env.now waived)) hclo

theorem maybeFinalize_keeps {request : Stored ErasureRequest}
    {cached : Option (Stored AccountClosureRequest)} {declared : List (String × Int)}
    (hdecl : env.Declares declared) (h : Coherent env completed db.toLedger)
    (hr : db.requests.get? request.pk = some request.row)
    (hcached : ∀ cl k, cached = some cl → request.row.closure = some k →
      k = cl.pk ∧ ∃ c, db.closures.get? cl.pk = some c ∧ c.erased = true) :
    Keeps env completed (maybeFinalize env request cached) db := by
  unfold maybeFinalize
  split
  · exact does_ret.mpr h
  · rename_i hopen
    have hread : Uncut (fun closure db' => db' = db ∧ Reflects db request closure)
        (fun _ db' => db' = db) (requestClosure request cached) db :=
      ((requestClosure_moves hcached : Moves env _ _ _ db).restrict fun _ _ => trivial).imp
        (fun _ _ _ _ => trivial) (fun _ _ h => h) fun _ _ h => h
    refine (hread.post (fun _ _ h => h) fun _ _ hdb => hdb ▸ h).bind fun closure db' ⟨hdb, hcl⟩ => ?_
    subst hdb
    split
    · exact does_ret.mpr h
    · refine does_bind.mpr (does_query.mpr ⟨⟨trivial, ?_⟩, fun _ _ => ⟨trivial, h⟩⟩)
      dsimp only
      split
      · exact does_ret.mpr h
      · exact certify_keeps hdecl h hr (by simpa using hopen) hcl

/-! ### Opening a request -/

/-- The closure a request may be opened for: one that is not DELETED, under its id. -/
def Entitled (l : Ledger) (args : ErasureArgs) : Prop :=
  ∀ k, args.closure = some k → ∃ c id, l.closures.get? k = some c ∧ c.status ≠ .deleted ∧
    c.correlationId = some id ∧ args.correlationId = some id

theorem Coherent.opened {st sk : String} {args : ErasureArgs} {request : Stored ErasureRequest}
    (h : Coherent env completed db.toLedger) (hargs : Entitled db.toLedger args)
    (hopen : db.openErasure env st sk args = .ok (request, db')) :
    Coherent env completed db'.toLedger := by
  have hcorr := h.correlated.step (Move.erasureOpened hopen)
  obtain ⟨requestedBy, -, hrow, -, -, hdb⟩ := openErasure_ok hopen
  have hreq : db'.requests = db.requests.insert request.row := by rw [hdb]
  have hclo : db'.closures = db.closures := by rw [hdb]
  have hobl : db'.obligations = db.obligations := by rw [hdb]
  have hold : ∀ {i r'}, db'.requests.get? i = some r' →
      db.requests.get? i = some r' ∨ r' = request.row := by
    intro i r' hr'
    rw [hreq, Table.get?_insert] at hr'
    split at hr'
    · exact .inr (Option.some.inj hr').symm
    · exact .inl hr'
  refine ⟨⟨hcorr, fun i r' k hr' hk => ?_, fun i r' hr' hdel name hname => ?_⟩, fun i hi => ?_⟩
  · rw [hclo]
    rcases hold hr' with hr | rfl
    · exact h.closure i r' k hr hk
    · rw [hrow] at hk ⊢
      obtain ⟨c, id, hc, hst, hid, hargsid⟩ := hargs k hk
      refine ⟨c, hc, ?_, fun hdel => absurd hdel (by simp [ErasureArgs.row]),
        fun hdel => absurd hdel hst⟩
      simp [ErasureArgs.row, hargsid, hid]
  · rw [Ledger.hasObligation, hobl]
    rcases hold hr' with hr | rfl
    · exact h.recorded i r' hr hdel name hname
    · rw [hrow] at hdel
      exact absurd hdel (by simp [ErasureArgs.row])
  · exact h.current i fun r hr => hi r (hreq ▸ Table.get?_insert_of_some _ hr)

theorem requestErasure_keeps {st sk : String} {args : ErasureArgs}
    (h : Coherent env completed db.toLedger) (hargs : Entitled db.toLedger args) :
    Keeps env completed (requestErasure env st sk args) db := by
  have hinsert : Keeps env completed (insertErasure env st sk args) db := by
    refine Does.tryCatch (X := fun _ db' => Coherent env completed db'.toLedger)
      (does_atomic.mpr ⟨?_, fun _ _ => ⟨trivial, h⟩⟩) fun e db' h' => ?_
    · cases hopen : db.openErasure env st sk args with
      | ok out => exact ⟨trivial, h.opened hargs hopen⟩
      | error e => exact ⟨trivial, h⟩
    · split
      · refine does_bind.mpr (does_query.mpr ⟨⟨trivial, ?_⟩, fun _ _ => ⟨trivial, h'⟩⟩)
        split
        · exact does_ret.mpr h'
        · exact does_raise.mpr h'
      · exact does_raise.mpr h'
  unfold requestErasure
  split
  · exact does_raise.mpr h
  · split
    · exact hinsert
    · refine does_bind.mpr (does_query.mpr ⟨⟨trivial, ?_⟩, fun _ _ => ⟨trivial, h⟩⟩)
      split
      · exact does_ret.mpr h
      · exact hinsert

/-! ### Executing a deletion -/

/-- The closure object is the row as it stands, and the row is not DELETED. -/
def Fresh (l : Ledger) (closure : Stored AccountClosureRequest) : Prop :=
  l.closures.get? closure.pk = some closure.row ∧ closure.row.status ≠ .deleted

theorem startDeleting_keeps {closure : Stored AccountClosureRequest}
    (h : Coherent env completed db.toLedger) (hfresh : Fresh db.toLedger closure) :
    Uncut (fun id db' => Coherent env completed db'.toLedger ∧ db'.closures.get? closure.pk =
        some (closure.row.startDeleting id env.report.version))
      (fun _ db' => Coherent env completed db'.toLedger) (startDeleting env closure) db := by
  obtain ⟨hget, hst⟩ := hfresh
  refine does_atomic.mpr ⟨⟨trivial, ?_, Table.get?_modify_self _ hget⟩, fun _ _ => ⟨trivial, h⟩⟩
  refine h.modifyClosure rfl rfl rfl fun i r c hr hcarried hc => ⟨?_, ?_⟩
  · -- a closure that a request carries has its id already
    obtain ⟨c', hc', hid, -⟩ := h.closure i r closure.pk hr hcarried
    obtain ⟨id, hsome⟩ := h.correlated.present i r hr
    have hrow : closure.row.correlationId = some id := by
      rw [hget] at hc'
      rw [Option.some.inj hc', hid, hsome]
    rw [hget] at hc
    rw [← Option.some.inj hc, hrow]
    rfl
  · rw [hget] at hc
    rw [← Option.some.inj hc]
    exact ⟨fun hdel => absurd hdel (by simp [AccountClosureRequest.startDeleting]),
      fun hdel => absurd hdel hst⟩

theorem closureErasure_keeps {closure : Stored AccountClosureRequest} {id : Uuid}
    (h : Coherent env completed db.toLedger) (hget : db.closures.get? closure.pk = some closure.row)
    (hst : closure.row.status = .deleting) (hid : closure.row.correlationId = some id) :
    Keeps env completed (closureErasure env closure id) db := by
  refine does_bind.mpr (does_query.mpr ⟨⟨trivial, ?_⟩, fun _ _ => ⟨trivial, h⟩⟩)
  split
  · exact does_ret.mpr h
  · refine (requestErasure_keeps h fun k hk => ?_).bind fun _ _ hc => does_ret.mpr hc
    obtain rfl := Option.some.inj hk
    exact ⟨closure.row, id, hget, by simp [hst], hid, rfl⟩

/-- Facts of the machine that hold at the end, beside what keeps the store coherent. -/
theorem uncut_with_moves {p : Program α} (hm : Moves env Q E p db)
    (hk : Keeps env completed p db) :
    Uncut (fun a db' => Q a db' ∧ Coherent env completed db'.toLedger)
      (fun _ db' => Coherent env completed db'.toLedger) p db :=
  ((hm.restrict fun _ _ => trivial).and hk).imp (fun _ _ _ _ => trivial)
    (fun _ _ h => h) fun _ _ h => h.2

theorem eraseSubject_plain {closure : Stored AccountClosureRequest} {correlationId : Uuid}
    {erasure : Stored ErasureRequest} :
    Labels Op.plain (eraseSubject env closure correlationId erasure) :=
  eraseSubject_labels fun op h => by cases op <;> first | exact trivial | exact h.elim

theorem executeDeletion_keeps {closure : Stored AccountClosureRequest}
    {declared : List (String × Int)} (hdecl : env.Declares declared)
    (h : Coherent env completed db.toLedger) (hfresh : Fresh db.toLedger closure) :
    Keeps env completed (executeDeletion env closure) db := by
  refine does_bind.mpr (does_query.mpr ⟨⟨trivial, ?_⟩, fun _ _ => ⟨trivial, h⟩⟩)
  split
  · exact does_raise.mpr h
  · refine (startDeleting_keeps h hfresh).bind fun id db₁ ⟨h₁, hget₁⟩ => ?_
    dsimp only
    refine (uncut_with_moves closureErasure_moves
      (closureErasure_keeps h₁ hget₁ rfl rfl)).bind
        fun ⟨erasure, created⟩ db₂ ⟨⟨hclo, hget, hnew⟩, h₂⟩ => ?_
    refine Does.bind ((uncut_plain (eraseSubject_moves ?running) eraseSubject_plain h₂).post
      (fun _ _ h => h) fun _ _ h => h.2) fun out db₃ ⟨⟨hreq, hout⟩, h₃⟩ => ?_
    case running => exact ⟨_, by rw [hclo]; exact hget₁, rfl⟩
    cases out with
    | none => exact does_ret.mpr h₃
    | some done =>
        refine maybeFinalize_keeps hdecl h₃ (hreq ▸ hget) fun cached k hcached hk => ?_
        cases created with
        | false => exact absurd hcached (by simp)
        | true =>
            obtain rfl : done = cached := by simpa using hcached
            obtain ⟨hpk', c, hcget, her⟩ := hout done rfl
            have hk' := hnew rfl
            dsimp only at hk hk'
            rw [hk'] at hk
            exact ⟨(Option.some.inj hk).symm.trans hpk'.symm, c, hcget, her⟩

theorem markSectionErased_keeps {correlationId : Uuid} {service receiptId : String}
    {counts : Counts} {declared : List (String × Int)} (hdecl : env.Declares declared)
    (h : Coherent env completed db.toLedger) :
    Keeps env completed (markSectionErased env correlationId service receiptId counts) db := by
  refine does_bind.mpr (does_query.mpr ⟨⟨trivial, ?_⟩, fun _ _ => ⟨trivial, h⟩⟩)
  split
  · exact does_ret.mpr h
  · refine Does.bind (P := fun _ db' => Coherent env completed db'.toLedger) (does_atomic.mpr
      ⟨⟨trivial, h.same rfl rfl rfl⟩, fun _ _ => ⟨trivial, h⟩⟩) fun updated db₁ h₁ => ?_
    split
    · exact does_ret.mpr h₁
    · refine does_bind.mpr (does_query.mpr ⟨⟨trivial, ?_⟩, fun _ _ => ⟨trivial, h₁⟩⟩)
      split
      · rename_i row hrow
        exact maybeFinalize_keeps hdecl h₁ hrow fun cl k h => absurd h (by simp)
      · exact does_raise.mpr h₁

theorem handleSectionErased_keeps {event : SectionErased} {declared : List (String × Int)}
    (hdecl : env.Declares declared) (h : Coherent env completed db.toLedger) :
    Keeps env completed (handleSectionErased env event) db := by
  unfold handleSectionErased
  split
  · exact does_ret.mpr h
  · split
    · exact does_ret.mpr h
    · exact markSectionErased_keeps hdecl h

/-! ### The worker and the doors -/

/-- What is left of the worker's list stands as it was read. -/
def Waiting (rest : List (Stored AccountClosureRequest)) (db : Db) : Prop :=
  ∀ closure ∈ rest, db.closures.get? closure.pk = some closure.row ∧ closure.row.status = .grace

/-- The execution of another closure leaves the rest of the list as it was. -/
theorem expireClosure_waiting {closure : Stored AccountClosureRequest}
    {rest : List (Stored AccountClosureRequest)}
    (hget : ∃ c, db.closures.get? closure.pk = some c)
    (hne : ∀ cl ∈ rest, closure.pk ≠ cl.pk) (h : Waiting rest db) :
    Uncut (fun _ db' => Waiting rest db') (fun _ db' => Waiting rest db')
      (expireClosure env closure) db := by
  refine ((((expireClosure_moves hget).and expireClosure_labels.does).inv (I := Waiting rest)
    (fun op a b hm ha cl hcl => ?_) h).restrict fun _ _ => trivial).imp
      (fun _ _ _ _ => trivial) (fun _ _ h => h.2) fun _ _ h => h.2
  obtain ⟨hcl', hst⟩ := ha cl hcl
  exact ⟨hm.1.closure_untouched hcl' (by simp [AccountClosureRequest.erased, hst])
    (hm.2.worksOn (hne cl hcl)), hst⟩

theorem expireClosure_keeps {closure : Stored AccountClosureRequest}
    {declared : List (String × Int)} (hdecl : env.Declares declared)
    (h : Coherent env completed db.toLedger) (hfresh : Fresh db.toLedger closure) :
    Keeps env completed (expireClosure env closure) db :=
  Does.tryCatch (executeDeletion_keeps hdecl h hfresh) fun _ _ h => does_ret.mpr h

theorem processExpiredGracePeriods_keeps {declared : List (String × Int)}
    (hdecl : env.Declares declared) (h : Coherent env completed db.toLedger) :
    Keeps env completed (processExpiredGracePeriods env) db := by
  refine does_bind.mpr (does_query.mpr ⟨⟨trivial, ?_⟩, fun _ _ => ⟨trivial, h⟩⟩)
  refine (Does.forM (J := fun rest db' => Coherent env completed db'.toLedger ∧
      Waiting rest db' ∧ rest.Pairwise fun cl cl' => cl.pk ≠ cl'.pk)
    (fun closure rest db' ⟨hc, hw, hpw⟩ => ?_) ⟨h, fun closure hmem => ?_, ?_⟩).post
    (fun _ _ hJ => hJ.1) fun _ _ h => h
  · obtain ⟨hget, hst⟩ := hw closure List.mem_cons_self
    obtain ⟨hhead, htail⟩ := List.pairwise_cons.mp hpw
    have hrest : Waiting rest db' := fun cl hcl => hw cl (List.mem_cons_of_mem closure hcl)
    exact ((expireClosure_keeps hdecl hc ⟨hget, by simp [hst]⟩).and
      (expireClosure_waiting ⟨_, hget⟩ hhead hrest)).imp (fun _ _ _ _ => trivial)
        (fun _ _ h => ⟨h.1, h.2, htail⟩) fun _ _ h => h.1
  · obtain ⟨hget, hsel⟩ := Table.mem_select.mp hmem
    simp only [Bool.and_eq_true, decide_eq_true_eq] at hsel
    exact ⟨hget, hsel.1.1⟩
  · exact (Table.pairwise_pk_select _ _).imp fun hlt => Nat.ne_of_lt hlt

theorem openFromPayload_keeps {payload : ErasurePayload}
    (h : Coherent env completed db.toLedger) :
    Keeps env completed (openFromPayload env payload) db := by
  unfold openFromPayload
  dsimp only
  split
  · exact does_raise.mpr h
  · exact requestErasure_keeps h fun k hk => absurd hk (by simp [ErasurePayload.args])

theorem handleErasureOpen_keeps {payload : ErasurePayload}
    (h : Coherent env completed db.toLedger) :
    Keeps env completed (handleErasureOpen env payload) db := by
  refine Does.tryCatch ((openFromPayload_keeps h).bind fun _ _ hc => does_ret.mpr hc)
    fun e _ hc => ?_
  split
  · exact does_ret.mpr hc
  · exact does_raise.mpr hc

theorem postErasure_keeps {user : UserId} {authorized : String → String → Bool}
    {post : ErasurePost} (h : Coherent env completed db.toLedger) :
    Keeps env completed (postErasure env user authorized post) db := by
  unfold postErasure
  dsimp only
  split
  · exact does_ret.mpr h
  · split
    · exact does_ret.mpr h
    · refine Does.tryCatch ((requestErasure_keeps h fun k hk => absurd hk (by simp)).bind
        fun _ _ hc => does_ret.mpr hc) fun e _ hc => ?_
      split
      · exact does_ret.mpr hc
      · exact does_raise.mpr hc

theorem requeueAfterRestore_keeps {restoredFrom : Time} {dryRun : Bool}
    (h : Coherent env completed db.toLedger) :
    Keeps env completed (requeueAfterRestore env restoredFrom dryRun) db := by
  refine does_bind.mpr (does_query.mpr ⟨⟨trivial, ?_⟩, fun _ _ => ⟨trivial, h⟩⟩)
  split
  · exact does_ret.mpr h
  · refine Does.foldlM (J := fun _ _ (db' : Db) => Coherent env completed db'.toLedger)
      (fun source _ totals db' hc => ?_) h
    refine Does.tryCatch ((requestErasure_keeps hc fun k hk =>
      absurd hk (by simp [requeueArgs])).bind fun _ _ hc => does_ret.mpr hc) fun e _ hc => ?_
    split
    · exact does_ret.mpr hc
    · exact does_ret.mpr hc
    · exact does_raise.mpr hc

/-! ### Whole runs -/

/-- The call as this module makes it: only `execute_deletion` opens a request for a closure,
and it is given the closure's row as it stands, not DELETED. Owners make the recordings. -/
def Call.Proper (db : Db) : Call → Prop
  | requestErasure _ _ args => args.closure = none
  | executeDeletion closure => Fresh db.toLedger closure
  | recordObligations .. => False
  | _ => True

theorem Call.keeps {call : Call} {declared : List (String × Int)}
    (hdecl : env.Declares declared) (h : Coherent env completed db.toLedger)
    (hproper : call.Proper db) : Keeps env completed (call.prog env) db := by
  have hplain : ∀ {p : Program Unit}, Moves env (fun _ _ => True) (fun _ _ => True) p db →
      Labels Op.plain p → Keeps env completed p db := fun hm hl =>
    (uncut_plain hm hl h).post (fun _ _ h => h.2) fun _ _ h => h.2
  unfold Call.prog
  cases call with
  | initiateClosure =>
      exact hplain (discard_moves initiateClosure_moves)
        (discard_labels (initiateClosure_labels trivial trivial))
  | cancelClosure =>
      exact hplain (discard_moves cancelClosure_moves)
        (discard_labels (cancelClosure_labels trivial fun _ => trivial))
  | executeDeletion closure => exact executeDeletion_keeps hdecl h hproper
  | processExpiredGracePeriods => exact processExpiredGracePeriods_keeps hdecl h
  | requestErasure st sk args =>
      refine (requestErasure_keeps h fun k hk => ?_).discard
      rw [show args.closure = none from hproper] at hk
      exact absurd hk (by simp)
  | erasureRequest =>
      exact Keeps.discard ((openFromPayload_keeps h).bind fun _ _ hc => does_ret.mpr hc)
  | erasureOpen => exact handleErasureOpen_keeps h
  | postErasure => exact (postErasure_keeps h).discard
  | requeueAfterRestore => exact (requeueAfterRestore_keeps h).discard
  | markSectionErased => exact markSectionErased_keeps hdecl h
  | sectionErased => exact handleSectionErased_keeps hdecl h
  | sweepDeletionDeadlines =>
      exact hplain (discard_moves sweepDeletionDeadlines_moves)
        (discard_labels (sweepDeletionDeadlines_labels trivial trivial fun _ => trivial))
  | recordObligations => exact hproper.elim

/-- Is the request DELETED? -/
def Ledger.isDeleted (l : Ledger) (pk : Nat) : Bool :=
  (l.requests.get? pk).any (·.state = .deleted)

/-- What was declared when each request completed, once a call has run under `env`. -/
def completedAfter (env : Env) (l : Ledger) (completed : Nat → List String) (pk : Nat) :
    List String :=
  if l.isDeleted pk then completed pk else env.settings.processors

/-- Runs from the empty store in which no flip is interrupted: the setting can be read, the
calls complete, and what fails in them is not a statement between a request save and the end
of its flip. The recordings that owners make may fail or stop anywhere. -/
inductive CertifiedRun : (Nat → List String) → Db → Prop
  | start : CertifiedRun (fun _ => []) {}
  | call {completed : Nat → List String} {s t : Db} {env : Env} {call : Call}
      {declared : List (String × Int)} {tr : List Op} {p : Program Unit}
      (hrun : CertifiedRun completed s) (hdecl : env.Declares declared)
      (hproper : call.Proper s) (h : Runs (fun op => ¬ op.inFlip) (call.prog env) s tr p t)
      (hdone : p.Done) : CertifiedRun (completedAfter env s.toLedger completed) t
  | record {completed : Nat → List String} {s t : Db} {env : Env}
      {request : Stored ErasureRequest} {providers : List String}
      (hrun : CertifiedRun completed s)
      (h : CallStep env (.recordObligations request providers) s t) : CertifiedRun completed t
  | host {completed : Nat → List String} {s : Db} (hrun : CertifiedRun completed s)
      (users : List User) (holds : Table LegalHold) (hashes : List ReRegistrationHash) :
      CertifiedRun completed { s with users := users, holds := holds, hashes := hashes }

theorem consistent_empty (completed : Nat → List String) : Consistent completed {} where
  correlated := correlated_empty
  closure pk r k h := absurd h (by simp [Table.get?])
  recorded pk r h := absurd h (by simp [Table.get?])

/-- A recording changes nothing that a completed request is held to. -/
theorem Consistent.record {request : Stored ErasureRequest} {providers : List String}
    (h : Consistent completed db.toLedger)
    (hcall : CallStep env (.recordObligations request providers) db db') :
    Consistent completed db'.toLedger := by
  obtain ⟨hloaded, tr, p, hruns⟩ := hcall
  have honly : OnlyObliges db db' := Call.recordObligations_only hruns
  refine ⟨⟨fun i r hr => h.correlated.present i r (honly.requests ▸ hr), fun i j r r' id hr hr' =>
    h.correlated.unique i j r r' id (honly.requests ▸ hr) (honly.requests ▸ hr')⟩,
    fun pk r k hr hk => ?_, fun pk r hr hdel name hname => ?_⟩
  · rw [honly.closures]
    exact h.closure pk r k (honly.requests ▸ hr) hk
  · exact honly.hasObligation (h.recorded pk r (honly.requests ▸ hr) hdel name hname)

/-- A call starts coherent. -/
theorem Consistent.coherent (h : Consistent completed l) (env : Env) :
    Coherent env (completedAfter env l completed) l where
  correlated := h.correlated
  closure := h.closure
  recorded pk r hr hdel name hname := by
    have hdeleted : l.isDeleted pk = true := by simp [Ledger.isDeleted, hr, hdel]
    rw [completedAfter, if_pos hdeleted] at hname
    exact h.recorded pk r hr hdel name hname
  current pk hpk := by
    have hnot : l.isDeleted pk = false := by
      unfold Ledger.isDeleted
      cases hr : l.requests.get? pk with
      | none => rfl
      | some r => simpa using hpk r hr
    rw [completedAfter, hnot]
    rfl

theorem CertifiedRun.consistent {s : Db} (h : CertifiedRun completed s) :
    Consistent completed s.toLedger := by
  induction h with
  | start => exact consistent_empty _
  | @call _ _ _ _ _ _ _ p _ hdecl hproper hruns hdone ih =>
      have hkeeps := Call.keeps hdecl (ih.coherent _) hproper
      cases p with
      | ret a => exact (hkeeps.returned hruns).toConsistent
      | raise e => exact (hkeeps.raised hruns).toConsistent
      | step l u n f => exact hdone.elim
  | record _ hcall ih => exact ih.record hcall
  | host _ users holds hashes ih => exact ⟨ih.correlated, ih.closure, ih.recorded⟩

theorem Call.Proper.loaded {s : Db} {call : Call} (h : call.Proper s) : call.Loaded s := by
  cases call with
  | executeDeletion closure => exact ⟨_, h.1⟩
  | recordObligations => exact h.elim
  | _ => exact trivial

theorem CertifiedRun.reachable {s : Db} (h : CertifiedRun completed s) : Reachable s := by
  induction h with
  | start => exact .refl
  | call _ _ hproper hruns _ ih =>
      exact ih.tail (.call ⟨hproper.loaded, _, _, hruns.mono fun _ _ => trivial⟩)
  | record _ hcall ih => exact ih.tail (.call hcall)
  | host _ users holds hashes ih => exact ih.tail (.host users holds hashes)

/-- The obligations of a completed request: one per processor declared when it completed. -/
def OneEach (l : Ledger) (pk : Nat) (names : List String) : Prop :=
  ∀ name ∈ names, ∃! i, ∃ o, l.obligations.get? i = some o ∧ o.request = pk ∧ o.provider = name

theorem Obliged.one {l : Ledger} (h : Obliged l) {pk : Nat} {name : String}
    (hhas : l.hasObligation pk name = true) :
    ∃! i, ∃ o, l.obligations.get? i = some o ∧ o.request = pk ∧ o.provider = name := by
  obtain ⟨i, o, ho, hp⟩ := Table.any_eq_true.mp hhas
  simp only [Bool.and_eq_true, decide_eq_true_eq] at hp
  refine ⟨i, ⟨o, ho, hp⟩, fun j ⟨o', ho', hreq, hprov⟩ => ?_⟩
  exact h j i o' o ho' ho (hreq.trans hp.1.symm) (hprov.trans hp.2.symm)

/-- **Certification is all or nothing, while no flip is interrupted.** First, for every
certification and every statement of it that raises: none or all of request, closure and
obligations are written exactly when the failing statement is the request save, or the
certificate is complete by then. Second, in every run in which no flip is interrupted, whatever
owners record meanwhile, a request that carries a closure is DELETED if and only if the closure
is, and a DELETED request has one obligation per processor declared when it completed. -/
theorem certification_atomic (env : Env) (completed : Nat → List String) :
    (∀ (db : Db) (request : Stored ErasureRequest)
      (closure : Option (Stored AccountClosureRequest)) (waived : Bool) (n : Nat) (e : Error),
      db.requests.get? request.pk = some request.row → request.row.state.isOpen = true →
      Reflects db request closure → closureAllows closure = true →
      (AllOrNothing env request db.toLedger
          ((certify env request closure waived).runFault n e db).2.toLedger ↔
        n = 0 ∨ GetsThrough env db.toLedger request.pk closure n)) ∧
    (∀ s : Db, CertifiedRun completed s → ∀ pk r, s.requests.get? pk = some r →
        (∀ k, r.closure = some k → ∃ c, s.closures.get? k = some c ∧
          (r.state = .deleted ↔ c.status = .deleted)) ∧
        (r.state = .deleted → OneEach s.toLedger pk (completed pk))) := by
  refine ⟨fun db request closure waived n e hr hopen hcl hallow =>
    certify_fault_iff hr hopen hcl hallow n e, fun s hrun pk r hr => ⟨fun k hk => ?_,
      fun hdel name hname => ?_⟩⟩
  · obtain ⟨c, hc, -, hiff⟩ := hrun.consistent.closure pk r k hr hk
    exact ⟨c, hc, hiff⟩
  · exact hrun.reachable.obliged.one (hrun.consistent.recorded pk r hr hdel name hname)

theorem CertifiedRun.after {s : Db} (h : CertifiedRun completed s) (call : Call) (env : Env)
    {declared : List (String × Int)} (hdecl : env.Declares declared)
    (hproper : call.Proper s) :
    CertifiedRun (completedAfter env s.toLedger completed) (call.after env s) := by
  obtain ⟨tr, hrun⟩ := runs_run (fun op => ¬ op.inFlip) (call.prog env) s
  refine h.call hdecl hproper hrun ?_
  cases ((call.prog env).run s).1 <;> exact trivial

/-- The last receipt is in, and the handler died before it looked at the request. -/
def fullyReceipted : Db :=
  (Call.markSectionErased 0 "media" "job-7" []).afterFault (deploymentOn 30) 2 erasing

theorem reachable_fullyReceipted : Reachable fullyReceipted :=
  reachable_erasing.runFault (.markSectionErased _ _ _ _) _ _ trivial

theorem deployment_declares {n : Int} (h : Representable (days n + days 30)) :
    (deploymentOn n).Declares [("mailer", 30)] where
  read := by
    change declaredSubprocessors deployment.settings [] = _
    decide +kernel
  windows := by simp
  dates p hp := by
    obtain rfl := List.mem_singleton.mp hp
    exact h

/-- What stands of the account's request and closure then. -/
theorem fullyReceipted_rows : ∃ r c, fullyReceipted.requests.get? 0 = some r ∧
    r.state.isOpen = true ∧ r.closure = some 0 ∧ fullyReceipted.closures.get? 0 = some c ∧
    c.erased = true := by
  have hreq : (fullyReceipted.requests.get? 0).map (fun r => (r.state.isOpen, r.closure)) =
      some (true, some 0) := by decide +kernel
  have hclo : (fullyReceipted.closures.get? 0).map (·.erased) = some true := by decide +kernel
  obtain ⟨r, hr, heq⟩ := Option.map_eq_some_iff.mp hreq
  obtain ⟨c, hc, herased⟩ := Option.map_eq_some_iff.mp hclo
  obtain ⟨hopen, hclosure⟩ := Prod.mk.inj heq
  exact ⟨r, c, hr, hopen, hclosure, hc, herased⟩

/-- All its statements go through before the fifth. -/
theorem fullyReceipted_getsThrough {c : AccountClosureRequest} :
    GetsThrough (deploymentOn 30) fullyReceipted.toLedger 0 (some ⟨0, c⟩) 4 := by
  have hdeclares : (deploymentOn 30).Declares [("mailer", 30)] := deployment_declares (by decide)
  refine ⟨_, hdeclares.read, fun p hp =>
    ⟨hdeclares.dates p hp, fun _ => hdeclares.windows p hp⟩, ?_⟩
  have hsteps : fullyReceipted.recordingSteps 0 [("mailer", 30)] = 2 := by decide +kernel
  simp only [Ledger.flipSteps, Ledger.awaited, Option.isSome_some, if_true, hsteps,
    Option.toList_some, List.length_singleton]
  decide

/-- The documents' owner, whose mails a processor keeps for 30 days. -/
def mailed (n : Int) : Env where
  settings := { documents.settings with subprocessors := [.dict (some "mailer") (.int 30)] }
  now := days n

/-- The erasure of a document is asked for on day 0. -/
def asked : Db := (Call.requestErasure "document" "d1" {}).after (mailed 0) {}

/-- Its request. -/
def askedRequest : Stored ErasureRequest :=
  ⟨0, (asked.requests.get? 0).get (by decide +kernel)⟩

/-- The owner records the mailer at once. -/
def recordedEarly : Db :=
  (Call.recordObligations askedRequest ["mailer"]).after (mailed 0) asked

/-- Its receipt arrives on day 40. -/
def completedLate : Db :=
  (Call.markSectionErased 0 "media" "job-7" []).after (mailed 40) recordedEarly

theorem askedRequest_loaded : (Call.recordObligations askedRequest ["mailer"]).Loaded asked :=
  ⟨askedRequest.row, by decide +kernel⟩

theorem mailed_declares {n : Int} (h : Representable (days n + days 30)) :
    (mailed n).Declares [("mailer", 30)] where
  read := by
    change declaredSubprocessors (mailed 0).settings [] = _
    decide +kernel
  windows := by simp
  dates p hp := by
    obtain rfl := List.mem_singleton.mp hp
    exact h

/-- With the row there before, a lookup that fails leaves nothing unwritten. -/
theorem recordedEarly_getsThrough :
    GetsThrough (mailed 40) recordedEarly.toLedger 0 none 1 := by
  have hawaited : recordedEarly.awaited 0 none [("mailer", 30)] = [] := by decide +kernel
  refine ⟨_, (mailed_declares (n := 40) (by decide)).read, ?_, ?_⟩
  · rw [hawaited]
    simp
  · rw [Ledger.flipSteps, hawaited]
    decide

theorem certification_atomic_erased :
    (∃ request closure, AllOrNothing (deploymentOn 30) request fullyReceipted.toLedger
      ((certify (deploymentOn 30) request closure false).runFault 4 .failure
        fullyReceipted).2.toLedger) ∧
    AllOrNothing (mailed 40) askedRequest recordedEarly.toLedger
      ((certify (mailed 40) askedRequest none false).runFault 1 .failure
        recordedEarly).2.toLedger ∧
    OneEach erased.toLedger 0 ["mailer"] ∧ OneEach completedLate.toLedger 0 ["mailer"] := by
  refine ⟨?_, ?_, ?_, ?_⟩
  · obtain ⟨r, c, hr, hopen, hclosure, hc, herased⟩ := fullyReceipted_rows
    exact ⟨⟨0, r⟩, some ⟨0, c⟩,
      ((certification_atomic (deploymentOn 30) fun _ => []).1 fullyReceipted ⟨0, r⟩
      (some ⟨0, c⟩) false 4 .failure hr hopen ⟨hclosure, c, hc, id⟩
      (by simpa [closureAllows] using herased)).mpr (.inr fullyReceipted_getsThrough)⟩
  · have hr : recordedEarly.requests.get? 0 = some askedRequest.row := by decide +kernel
    have hnone : askedRequest.row.closure = none := by decide +kernel
    exact ((certification_atomic (mailed 40) fun _ => []).1 recordedEarly askedRequest none false 1
      .failure hr (by decide +kernel) hnone rfl).mpr (.inr recordedEarly_getsThrough)
  · have hstart : CertifiedRun (fun _ => []) (storeOf [account]) :=
      CertifiedRun.start.host [account] {} []
    have hclosing : CertifiedRun _ closing :=
      hstart.after (.initiateClosure "u1" .manual) (deploymentOn 0)
        (deployment_declares (by decide)) trivial
    have herasing : CertifiedRun _ erasing :=
      hclosing.after .processExpiredGracePeriods (deploymentOn 30)
        (deployment_declares (by decide)) trivial
    have herased : CertifiedRun _ erased :=
      herasing.after (.markSectionErased 0 "media" "job-7" []) (deploymentOn 30)
        (deployment_declares (by decide)) trivial
    have hrow : (erased.requests.get? 0).map (·.state) = some .deleted := by decide +kernel
    obtain ⟨r, hr, hdel⟩ := Option.map_eq_some_iff.mp hrow
    have hone := ((certification_atomic deployment _).2 _ herased 0 r hr).2 hdel
    have hnames : completedAfter (deploymentOn 30) erasing.toLedger (completedAfter
        (deploymentOn 30) closing.toLedger (completedAfter (deploymentOn 0)
          (storeOf [account]).toLedger fun _ => [])) 0 = ["mailer"] := by decide +kernel
    rwa [hnames] at hone
  · have hasked : CertifiedRun _ asked :=
      CertifiedRun.start.after (.requestErasure "document" "d1" {}) (mailed 0)
        (mailed_declares (by decide)) rfl
    obtain ⟨tr, hruns⟩ := runs_run (fun _ => True)
      ((Call.recordObligations askedRequest ["mailer"]).prog (mailed 0)) asked
    have hearly : CertifiedRun _ recordedEarly :=
      hasked.record ⟨askedRequest_loaded, tr, _, hruns⟩
    have hlate : CertifiedRun _ completedLate :=
      hearly.after (.markSectionErased 0 "media" "job-7" []) (mailed 40)
        (mailed_declares (by decide)) trivial
    have hrow : (completedLate.requests.get? 0).map (·.state) = some .deleted := by decide +kernel
    obtain ⟨r, hr, hdel⟩ := Option.map_eq_some_iff.mp hrow
    have hone := ((certification_atomic deployment _).2 _ hlate 0 r hr).2 hdel
    have hnames : completedAfter (mailed 40) recordedEarly.toLedger (completedAfter (mailed 0)
        ({} : Db).toLedger fun _ => []) 0 = ["mailer"] := by decide +kernel
    rwa [hnames] at hone

/-- The first statement after the request save fails, and the request alone is written. -/
theorem certification_half_written : ¬ ∀ (env : Env) (db : Db) (request : Stored ErasureRequest)
    (closure : Option (Stored AccountClosureRequest)) (waived : Bool) (n : Nat) (e : Error),
    Reachable db → db.requests.get? request.pk = some request.row →
    request.row.state.isOpen = true → Reflects db request closure →
    closureAllows closure = true →
    AllOrNothing env request db.toLedger
      ((certify env request closure waived).runFault n e db).2.toLedger := by
  intro hclaim
  obtain ⟨r, c, hr, hopen, hclosure, hc, herased⟩ := fullyReceipted_rows
  have hallow : closureAllows (some ⟨0, c⟩) = true := by simpa [closureAllows] using herased
  have hcl : Reflects fullyReceipted ⟨0, r⟩ (some ⟨0, c⟩) := ⟨hclosure, c, hc, id⟩
  rcases (certify_fault_iff hr hopen hcl hallow 1 .failure).mp
    (hclaim (deploymentOn 30) fullyReceipted ⟨0, r⟩ (some ⟨0, c⟩) false 1 .failure
      reachable_fullyReceipted hr hopen hcl hallow) with h | ⟨declared, -, -, hle⟩
  · exact absurd h (by simp)
  · -- the closure save would have to come before the failure
    simp only [Ledger.flipSteps, Option.toList_some, List.length_singleton] at hle
    omega

end StapelGdpr
