import StapelGdpr.Invariants
import StapelGdpr.Lib.Pool

/-!
# StapelGdpr.Idempotency

Any number of `request_erasure` calls that carry one idempotency key, in process or through
either wire door, statement by statement and free to fail anywhere.

The pre-check is a race, but the insert is not: the unit writes the row, its parts and the
announcement at once, and the store refuses a second row with the key. So the store takes
exactly one step (`Progress`), and whoever returns has read the row that step wrote.
-/

namespace StapelGdpr

open Prog

/-- One call of `request_erasure`, by the door it comes through. -/
inductive Intake
  | inProcess (subjectType subjectKey : String) (args : ErasureArgs)
  /-- `gdpr.erasure.open`. -/
  | action (payload : ErasurePayload)
  /-- `gdpr.erasure.request`. -/
  | function (payload : ErasurePayload)

/-- The key the call carries. -/
def Intake.key : Intake → String
  | .inProcess _ _ args => args.idempotencyKey
  | .action payload | .function payload => payload.args.idempotencyKey

/-- What a call comes back with: the row object, the row or the refusal the handler logs,
the answer of the Function. -/
inductive Reply
  | request (request : Stored ErasureRequest)
  | opened (request : Stored ErasureRequest)
  | dropped
  | identity (pk : Nat) (dueAt : Time) (state : ErasureState)
  deriving DecidableEq, Repr

/-- The code behind each door. -/
def Intake.prog (env : Env) : Intake → Program Reply
  | .inProcess subjectType subjectKey args => do
      let request ← requestErasure env subjectType subjectKey args
      return .request request
  | .action payload =>
      let body : Program Reply := do
        let request ← openFromPayload env payload
        return .opened request
      body.tryCatch fun e =>
        match e with
        | .valueError _ => return .dropped
        | e => Prog.raise e
  | .function payload => do
      let answer ← erasureRequest env payload
      return .identity answer.1 answer.2.1 answer.2.2

/-- The reply is this request. -/
def Reply.names (request : Stored ErasureRequest) : Reply → Prop
  | .request r | .opened r => r = request
  | .dropped => False
  | .identity pk dueAt state =>
      pk = request.pk ∧ dueAt = request.row.dueAt ∧ state = request.row.state

/-! ### The one step of the store -/

variable {env : Env} {envs : Env → Prop} {key : String} {start a b c db : Db}
  {request : Stored ErasureRequest}

/-- A call under one of the environments, with the key, has opened the request from the
store the calls began with. -/
def Inserted (envs : Env → Prop) (key : String) (start : Db) (request : Stored ErasureRequest)
    (db : Db) : Prop :=
  ∃ env st sk args, envs env ∧ args.idempotencyKey = key ∧
    start.openErasure env st sk args = .ok (request, db)

/-- The store as it was, or with the request opened. -/
def Progress (envs : Env → Prop) (key : String) (start db : Db) : Prop :=
  db = start ∨ ∃ request, Inserted envs key start request db

/-- What the calls do to the store: nothing, or the one step. -/
def Advance (envs : Env → Prop) (key : String) (start a b : Db) : Prop :=
  a = b ∨ (a = start ∧ ∃ request, Inserted envs key start request b)

theorem Advance.trans (h : Advance envs key start a b) (h' : Advance envs key start b c) :
    Advance envs key start a c := by
  rcases h with heq | ⟨ha, hopened⟩
  · exact heq ▸ h'
  · rcases h' with heq | ⟨-, hopened'⟩
    · exact .inr ⟨ha, heq ▸ hopened⟩
    · exact .inr ⟨ha, hopened'⟩

theorem Progress.advance (h : Progress envs key start a) (hab : Advance envs key start a b) :
    Progress envs key start b := by
  rcases hab with rfl | ⟨-, hopened⟩
  · exact h
  · exact .inr hopened

/-- The request is opened, and it is the one the key finds. -/
def Holds (envs : Env → Prop) (key : String) (start : Db) (request : Stored ErasureRequest)
    (db : Db) : Prop :=
  Inserted envs key start request db ∧ db.keyed key = some request

/-- No request with the key stands at the start. -/
theorem unkeyed (hnone : start.keyed key = none) {pk : Nat} {r : ErasureRequest}
    (hr : start.requests.get? pk = some r) : r.idempotencyKey ≠ key := by
  have := Table.first?_none.mp hnone pk r hr
  simpa using this

/-- The new row is the only one with the key. -/
theorem Inserted.only (hnone : start.keyed key = none) (h : Inserted envs key start request db) :
    db.requests.get? request.pk = some request.row ∧ request.row.idempotencyKey = key ∧
      ∀ pk r, db.requests.get? pk = some r → r.idempotencyKey = key → pk = request.pk := by
  obtain ⟨env, st, sk, args, -, rfl, hopen⟩ := h
  obtain ⟨by', -, hrow, -, -, hdb⟩ := openErasure_ok hopen
  have hpk : request.pk = start.requests.nextPk := by rw [hrow]
  have hreq : db.requests = start.requests.insert request.row := by rw [hdb]
  refine ⟨by rw [hreq, hpk]; exact Table.get?_insert_nextPk _ _, by rw [hrow]; rfl,
    fun pk r hr hkey => ?_⟩
  rw [hreq, Table.get?_insert] at hr
  by_cases heq : pk = start.requests.nextPk
  · exact heq.trans hpk.symm
  · rw [if_neg heq] at hr
    exact absurd hkey (unkeyed hnone hr)

theorem Inserted.holds (hnone : start.keyed key = none) (h : Inserted envs key start request db) :
    Holds envs key start request db := by
  obtain ⟨hstored, hkey, honly⟩ := h.only hnone
  exact ⟨h, Table.first?_eq_some hstored (by simpa using hkey) fun i r hr hk =>
    honly i r hr (by simpa using hk)⟩

/-- The row the key finds is the one the calls opened. -/
theorem Progress.found (hnone : start.keyed key = none) (h : Progress envs key start db)
    (hfound : db.keyed key = some request) : Holds envs key start request db := by
  rcases h with heq | ⟨winner, hopened⟩
  · rw [heq, hnone] at hfound
    exact absurd hfound (by simp)
  · obtain ⟨-, hkeyed⟩ := hopened.holds hnone
    rw [hkeyed] at hfound
    obtain rfl := Option.some.inj hfound
    exact ⟨hopened, hkeyed⟩

theorem Holds.advance (hnone : start.keyed key = none) (h : Holds envs key start request a)
    (hab : Advance envs key start a b) : Holds envs key start request b := by
  rcases hab with heq | ⟨ha, -⟩
  · exact heq ▸ h
  · have hkeyed := h.2
    rw [ha, hnone] at hkeyed
    exact absurd hkeyed (by simp)

/-- Two rows with one non-empty key do not stand together. -/
theorem violates_key {l : Ledger} {r r' : ErasureRequest} {pk : Nat} (hkey : key ≠ "")
    (hr : l.requests.get? pk = some r) (hrk : r.idempotencyKey = key)
    (hrk' : r'.idempotencyKey = key) : l.violates r' = true := by
  have hany : l.requests.any (fun q =>
      q.correlationId = r'.correlationId ||
      (r'.idempotencyKey ≠ "" && q.idempotencyKey = r'.idempotencyKey) ||
      (r'.sourceRequest.isSome && q.sourceRequest = r'.sourceRequest && q.origin = r'.origin)) =
      true := Table.any_eq_true.mpr ⟨pk, r, hr, by simp [hrk, hrk', hkey]⟩
  unfold Ledger.violates
  rw [hany]
  rfl

/-- Once the request is opened, no call opens another. -/
theorem Inserted.closed (hkey : key ≠ "") (hnone : start.keyed key = none)
    (h : Inserted envs key start request db) {st sk : String} {args : ErasureArgs}
    (hargs : args.idempotencyKey = key) {out : Stored ErasureRequest × Db} :
    db.openErasure env st sk args ≠ .ok out := by
  intro hopen
  obtain ⟨new, db'⟩ := out
  obtain ⟨by', -, hrow, hv, -⟩ := openErasure_ok hopen
  obtain ⟨hstored, hrk, -⟩ := h.only hnone
  have hnew : new.row.idempotencyKey = key := by rw [hrow]; exact hargs
  have hbad := violates_key hkey hstored hrk hnew
  rw [hv] at hbad
  exact absurd hbad (by simp)

/-! ### The calls -/

/-- Beside calls like itself, free to fail, and back with the one request. -/
abbrev Keyed (envs : Env → Prop) (key : String) (start : Db) {α : Type} (Q : α → Db → Prop)
    (p : Program α) (db : Db) : Prop :=
  Beside (Advance envs key start) (fun _ => True) (fun _ => Advance envs key start) Q
    (fun _ _ => True) p db

/-- The lookup by key, whatever it is for. -/
theorem keyed_lookup {α : Type} {Q : α → Db → Prop} (hnone : start.keyed key = none)
    {k : Option (Stored ErasureRequest) → Program α} (hdb : Progress envs key start db)
    (hsome : ∀ request b, Holds envs key start request b →
      Keyed envs key start Q (k (some request)) b)
    (hcold : ∀ b, Progress envs key start b → Keyed envs key start Q (k none) b) :
    Keyed envs key start Q (Program.select (·.keyed key) >>= k) db := by
  refine Safe.bind (fun _ => .inl rfl) (P := fun found b => Progress envs key start b ∧
    ∀ request, found = some request → Holds envs key start request b) (Beside.query fun b hb => ?_)
    fun found b ⟨hb, hfound⟩ => ?_
  · have hprog := hdb.advance hb
    exact ⟨.inl rfl, fun c hc => ⟨hprog.advance hc, fun request hf =>
      (hprog.found hnone hf).advance hnone hc⟩, fun _ _ _ _ => trivial⟩
  · cases found with
    | none => exact hcold b hb
    | some request => exact hsome request b (hfound request rfl)

theorem insertErasure_keyed (hkey : key ≠ "") (hnone : start.keyed key = none) (henv : envs env)
    {st sk : String} {args : ErasureArgs} (hargs : args.idempotencyKey = key)
    (hdb : Progress envs key start db) :
    Keyed envs key start (Holds envs key start) (insertErasure env st sk args) db := by
  refine Safe.tryCatch (fun _ => .inl rfl) (X := fun _ => Progress envs key start)
    (Beside.atomic (fun b hb => ?_) fun b hb _ => ⟨.inl rfl, fun _ c hc =>
      (hdb.advance hb).advance hc⟩) fun e b hb => ?_
  · have hprog := hdb.advance hb
    cases hopen : b.openErasure env st sk args with
    | error e => exact ⟨.inl rfl, fun c hc => hprog.advance hc⟩
    | ok out =>
        rcases hprog with heq | ⟨winner, hopened⟩
        · have hnew : Inserted envs key start out.1 out.2 :=
            ⟨env, st, sk, args, henv, hargs, heq ▸ hopen⟩
          exact ⟨.inr ⟨heq, _, hnew⟩, fun c hc => (hnew.holds hnone).advance hnone hc⟩
        · exact absurd hopen (hopened.closed hkey hnone hargs)
  · -- the loser of the race reads the winner
    split
    · rw [hargs]
      exact keyed_lookup hnone hb (fun request c hc => safe_ret.mpr fun d hd => hc.advance hnone hd)
        fun c _ => safe_raise.mpr fun _ _ => trivial
    · exact safe_raise.mpr fun _ _ => trivial

theorem requestErasure_keyed (hkey : key ≠ "") (hnone : start.keyed key = none) (henv : envs env)
    {st sk : String} {args : ErasureArgs} (hargs : args.idempotencyKey = key)
    (hdb : Progress envs key start db) :
    Keyed envs key start (Holds envs key start) (requestErasure env st sk args) db := by
  unfold requestErasure
  split
  · exact safe_raise.mpr fun _ _ => trivial
  · rw [if_neg (hargs.trans_ne hkey), hargs]
    exact keyed_lookup hnone hdb (fun request b hb => safe_ret.mpr fun c hc => hb.advance hnone hc)
      fun b hb => insertErasure_keyed hkey hnone henv hargs hb

theorem openFromPayload_keyed (hkey : key ≠ "") (hnone : start.keyed key = none)
    (henv : envs env) {payload : ErasurePayload} (hargs : payload.args.idempotencyKey = key)
    (hdb : Progress envs key start db) :
    Keyed envs key start (Holds envs key start) (openFromPayload env payload) db := by
  unfold openFromPayload
  dsimp only
  split
  · exact safe_raise.mpr fun _ _ => trivial
  · exact requestErasure_keyed hkey hnone henv hargs hdb

/-- The reply names the request that is opened, unless it is a refusal. -/
def Replied (envs : Env → Prop) (key : String) (start : Db) (reply : Reply) (db : Db) : Prop :=
  reply ≠ .dropped → ∃ request, Holds envs key start request db ∧ reply.names request

theorem Intake.keyed (hkey : key ≠ "") (hnone : start.keyed key = none) (henv : envs env)
    {intake : Intake} (hintake : intake.key = key) :
    Keyed envs key start (Replied envs key start) (intake.prog env) start := by
  have hret : ∀ {reply : Reply} {request : Stored ErasureRequest} {b : Db}, reply.names request →
      Holds envs key start request b →
      Keyed envs key start (Replied envs key start) (Prog.ret reply) b := fun hnames hb =>
    safe_ret.mpr fun c hc _ => ⟨_, hb.advance hnone hc, hnames⟩
  cases intake with
  | inProcess st sk args =>
      exact Safe.bind (fun _ => .inl rfl)
        (requestErasure_keyed hkey hnone henv hintake (.inl rfl)) fun request b hb => hret rfl hb
  | action payload =>
      refine Safe.tryCatch (fun _ => .inl rfl) (X := fun _ _ => True) (Safe.bind (fun _ => .inl rfl)
        (openFromPayload_keyed hkey hnone henv hintake (.inl rfl)) fun request b hb => hret rfl hb)
        fun e b _ => ?_
      split
      · exact safe_ret.mpr fun _ _ h => absurd rfl h
      · exact safe_raise.mpr fun _ _ => trivial
  | function payload =>
      refine Safe.bind (fun _ => .inl rfl) (P := fun answer b => ∃ request,
        Holds envs key start request b ∧ answer = (request.pk, request.row.dueAt, request.row.state))
        ?_ fun answer b ⟨request, hb, hanswer⟩ => hret (by rw [hanswer]; exact ⟨rfl, rfl, rfl⟩) hb
      exact Safe.bind (fun _ => .inl rfl)
        (openFromPayload_keyed hkey hnone henv hintake (.inl rfl)) fun request b hb =>
          safe_ret.mpr fun c hc => ⟨request, hb.advance hnone hc, rfl⟩

/-! ### All of them -/

/-- The calls side by side, each under its own environment. -/
def deliveries {κ : Type} (calls : κ → Env × Intake) : Pool Op Db Error Reply κ :=
  fun k => (calls k).2.prog (calls k).1

/-- The request is the one with its key, it has one part for each owner that claims its
subject in the creating call's registry report, and it was announced once: nothing else was
emitted since the calls began. -/
structure CreatedOnce (env : Env) (key : String) (start : Db) (request : Stored ErasureRequest)
    (db : Db) : Prop where
  stored : db.requests.get? request.pk = some request.row
  keyed : request.row.idempotencyKey = key
  only : ∀ pk r, db.requests.get? pk = some r → r.idempotencyKey = key → pk = request.pk
  parts : (db.parts.select (·.request = request.pk)).map (·.row.owner) =
    (env.report.ownersFor request.row.subjectType).map DataOwner.name
  distinct : ((env.report.ownersFor request.row.subjectType).map DataOwner.name).Nodup
  announced : ∃ id requestedBy, request.row.correlationId = some id ∧
    db.outbox = start.outbox ++ [.erasureRequested request.pk id request.row.subjectType
      request.row.subjectKey (request.row.workspaceId.getD "") requestedBy request.row.origin
      request.row.dueAt]

/-- The slots of the new request are all the parts it has. -/
theorem select_slots (hlinked : Linked start.toLedger) (st : String) :
    ((start.parts.insertAll (env.slots st start.requests.nextPk)).select
      (·.request = start.requests.nextPk)).map (·.row.owner) =
    (env.report.ownersFor st).map DataOwner.name := by
  have hold : start.parts.rows.filter (fun p => decide (p.request = start.requests.nextPk)) = [] := by
    refine List.filter_eq_nil_iff.mpr fun p hp => ?_
    obtain ⟨i, hi⟩ := List.mem_iff_getElem?.mp hp
    have hlt := hlinked i p hi
    simp only [decide_eq_true_eq]
    omega
  have hnew : (env.slots st start.requests.nextPk).filter
      (fun p => decide (p.request = start.requests.nextPk)) =
        env.slots st start.requests.nextPk := by
    refine List.filter_eq_self.mpr fun p hp => ?_
    obtain ⟨o, -, rfl⟩ := mem_slots.mp hp
    exact decide_eq_true rfl
  have hrows : ((start.parts.insertAll (env.slots st start.requests.nextPk)).select
      (·.request = start.requests.nextPk)).map (·.row) = env.slots st start.requests.nextPk := by
    rw [Table.map_row_select, Table.insertAll, List.filter_append, hold, hnew, List.nil_append]
  calc ((start.parts.insertAll (env.slots st start.requests.nextPk)).select
        (·.request = start.requests.nextPk)).map (·.row.owner)
      = (((start.parts.insertAll (env.slots st start.requests.nextPk)).select
        (·.request = start.requests.nextPk)).map (·.row)).map ErasurePart.owner := by
          rw [List.map_map]; rfl
    _ = (env.slots st start.requests.nextPk).map ErasurePart.owner := by rw [hrows]
    _ = (env.report.ownersFor st).map DataOwner.name := by
          rw [Env.slots, List.map_map]; rfl

theorem Inserted.created (hlinked : Linked start.toLedger) (hnone : start.keyed key = none)
    (h : Inserted envs key start request db) :
    ∃ env, envs env ∧ CreatedOnce env key start request db := by
  obtain ⟨hstored, hrk, honly⟩ := h.only hnone
  obtain ⟨env, st, sk, args, henv, rfl, hopen⟩ := h
  obtain ⟨by', -, hrow, -, hdistinct, hdb⟩ := openErasure_ok hopen
  have hst : request.row.subjectType = st := by rw [hrow]; rfl
  have hpk : request.pk = start.requests.nextPk := by rw [hrow]
  refine ⟨env, henv, hstored, hrk, honly, ?_, ?_, args.correlationId.getD start.uuid4,
    args.requestedBy.printed, by rw [hrow]; rfl, by rw [hdb]; rfl⟩
  · rw [hst, hpk, show db.parts = _ from congrArg (·.parts) hdb]
    exact select_slots hlinked st
  · rw [hst]
    exact of_decide_eq_true hdistinct

/-- **One request a key.** However the calls interleave and wherever they fail, the store
holds at most the one request, created by one of them; and once a call has come back with a
request, it stands, and that is the request. -/
theorem one_request_per_key {κ : Type} [DecidableEq κ] (calls : κ → Env × Intake) (key : String)
    {start db : Db} {tr : List (Pool.Event κ Op Db)} {P : Pool Op Db Error Reply κ}
    (hkey : key ≠ "") (hcalls : ∀ k, (calls k).2.key = key) (hlinked : Linked start.toLedger)
    (hnone : start.keyed key = none)
    (hrun : Pool.Runs (fun _ _ => True) (deliveries calls) start tr P db) :
    (db = start ∨ ∃ k request, CreatedOnce (calls k).1 key start request db) ∧
    ∀ i reply, P i = .ret reply → reply ≠ .dropped →
      ∃ k request, CreatedOnce (calls k).1 key start request db ∧ reply.names request := by
  let envs : Env → Prop := fun env => ∃ k, (calls k).1 = env
  have hcreated : ∀ request, Inserted envs key start request db →
      ∃ k, CreatedOnce (calls k).1 key start request db := by
    intro request hopened
    obtain ⟨env, ⟨k, rfl⟩, hcreated⟩ := hopened.created hlinked hnone
    exact ⟨k, hcreated⟩
  have hsafe : Pool.Safe (fun _ => Advance envs key start) (fun _ _ => True)
      (fun _ _ a b _ => Advance envs key start a b) (fun _ => Replied envs key start)
      (fun _ _ _ => True) (deliveries calls) start :=
    fun k => Intake.keyed hkey hnone ⟨k, rfl⟩ (hcalls k)
  obtain ⟨hend, hall⟩ := hrun.safe (R := fun _ => Advance envs key start) (fun _ _ => .inl rfl)
    (fun _ => Advance.trans) (H := fun _ => True) (fun _ _ h _ _ _ => h) hsafe fun _ _ => trivial
  have hprog : Progress envs key start db := by
    refine (hrun.chain (I := Progress envs key start) (fun e he h => ?_) (.inl rfl)).1
    obtain ⟨-, hstep⟩ := hall e he
    exact h.advance hstep
  refine ⟨?_, fun i reply hP hdropped => ?_⟩
  · rcases hprog with heq | ⟨request, hopened⟩
    · exact .inl heq
    · obtain ⟨k, hk⟩ := hcreated request hopened
      exact .inr ⟨k, request, hk⟩
  · have hreply : Replied envs key start reply db := by
      have hi := hend i
      rw [hP] at hi
      exact safe_ret.mp hi db (.inl rfl)
    obtain ⟨request, ⟨hopened, -⟩, hnames⟩ := hreply hdropped
    obtain ⟨k, hk⟩ := hcreated request hopened
    exact ⟨k, request, hk, hnames⟩

/-- A retried Action and a Function call, with one key. -/
def retried : Bool → Env × Intake := fun isAction =>
  (documents, if isAction = true then .action payload else .function payload)
where
  payload : ErasurePayload :=
    { subjectType := some "document", subjectKey := some "doc-1", idempotencyKey := some "purge-7" }

/-- Both pass the pre-check, the Action's insert wins, and the Function reads its row. -/
def contested : List (Pool.Event Bool Op Db) × Pool Op Db Error Reply Bool × Db :=
  Pool.schedule [true, false, true, false, false] (deliveries retried) {}

theorem one_request_per_key_contested : ∃ request,
    CreatedOnce documents "purge-7" {} request contested.2.2 ∧
      (Reply.identity 0 (days 30) .erasing).names request := by
  have hreply : contested.2.1 false = .ret (.identity 0 (days 30) .erasing) :=
    returned?_eq_some.mp (by decide +kernel)
  have hempty : Linked ({} : Db).toLedger := fun i p hp => absurd hp (by simp [Table.get?])
  obtain ⟨-, hreplied⟩ := one_request_per_key retried "purge-7" (by decide) (by decide +kernel)
    hempty rfl (Pool.runs_schedule _ _ _ _)
  obtain ⟨k, request, hcreated, hnames⟩ := hreplied false _ hreply (by simp)
  exact ⟨request, hcreated, hnames⟩

end StapelGdpr
