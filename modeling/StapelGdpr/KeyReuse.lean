import StapelGdpr.Idempotency

/-!
# StapelGdpr.KeyReuse

What `request_erasure` returns, whoever else works on the store and whatever fails.

There are three ways to return: the row that was created, the row the pre-check found, and the
row the loser of a race reads again. The first is about the subject that was asked. The other
two were looked up by the idempotency key alone, and a key that another caller has used for
another subject brings that subject back (`key_of_another`). So the request is about the asked
subject, or it is one that carries the asked key (`asked_or_keyed`).
-/

namespace StapelGdpr

open Prog

variable {κ : Type} {may : Op → Prop} {es : List (Pool.Event κ Op Db)} {env : Env}
  {st sk : String} {args : ErasureArgs} {request : Stored ErasureRequest}

/-! ### What a call returns -/

/-- The subject a call asks for. -/
def Intake.subject : Intake → String × String
  | .inProcess st sk _ => (st, sk)
  | .action payload | .function payload =>
      (payloadText payload.subjectType, payloadText payload.subjectKey)

/-- The request was a row of the store, at one of these steps. -/
def Stands (es : List (Pool.Event κ Op Db)) (request : Stored ErasureRequest) : Prop :=
  ∃ e ∈ es, e.before.requests.get? request.pk = some request.row ∨
    e.after.requests.get? request.pk = some request.row

/-- The request is about this subject, or it carries this key. -/
def AskedOrKeyed (subject : String × String) (key : String) (request : Stored ErasureRequest) :
    Prop :=
  (request.row.subjectType, request.row.subjectKey) = subject ∨
    key ≠ "" ∧ request.row.idempotencyKey = key

theorem Stands.mono {es' : List (Pool.Event κ Op Db)} (h : Stands es request) (hsub : es ⊆ es') :
    Stands es' request := by
  obtain ⟨e, he, hrow⟩ := h
  exact ⟨e, hsub he, hrow⟩

/-- A lookup by key that found something. -/
theorem keyed_follows {key : String} (h : Pool.Follows may
    (Program.select (·.keyed key) : Program (Option (Stored ErasureRequest))) es
      (.ret (some request))) : Stands es request ∧ request.row.idempotencyKey = key := by
  obtain ⟨e, rfl, -, hfound⟩ := h.query_ret
  obtain ⟨hrow, hkey⟩ := Table.first?_some hfound
  exact ⟨⟨e, by simp, .inl hrow⟩, by simpa using hkey⟩

theorem insertErasure_follows
    (h : Pool.Follows may (insertErasure env st sk args) es (.ret request)) :
    Stands es request ∧ AskedOrKeyed (st, sk) args.idempotencyKey request := by
  rcases h.tryCatch_ret with h | ⟨es₁, e, es₂, rfl, -, h⟩
  · -- created
    obtain ⟨e, rfl, -, hopen⟩ := h.atomic_ret
    obtain ⟨by', -, hrow, -, -, hdb⟩ := openErasure_ok hopen
    refine ⟨⟨e, by simp, .inr ?_⟩, .inl (by rw [hrow]; rfl)⟩
    rw [hdb, hrow]
    exact Table.get?_insert_nextPk _ _
  · -- lost the race
    split at h
    · rename_i hlost
      obtain ⟨es₃, found, es₄, rfl, hlookup, h⟩ := h.bind_ret
      cases found with
      | none => exact absurd h Pool.Follows.not_raised
      | some winner =>
          obtain ⟨rfl, rfl⟩ := Pool.Follows.ret_iff.mp h
          obtain ⟨hstands, hkey⟩ := keyed_follows hlookup
          exact ⟨hstands.mono (by simp), .inr ⟨hlost.2, hkey⟩⟩
    · exact absurd h Pool.Follows.not_raised

theorem requestErasure_follows
    (h : Pool.Follows may (requestErasure env st sk args) es (.ret request)) :
    Stands es request ∧ AskedOrKeyed (st, sk) args.idempotencyKey request := by
  unfold requestErasure at h
  split at h
  · exact absurd h Pool.Follows.not_raised
  split at h
  · exact insertErasure_follows h
  rename_i hkeyed
  obtain ⟨es₁, found, es₂, rfl, hlookup, h⟩ := h.bind_ret
  cases found with
  | none =>
      obtain ⟨hstands, hasked⟩ := insertErasure_follows h
      exact ⟨hstands.mono (by simp), hasked⟩
  | some existing =>
      obtain ⟨rfl, rfl⟩ := Pool.Follows.ret_iff.mp h
      obtain ⟨hstands, hkey⟩ := keyed_follows hlookup
      exact ⟨hstands.mono (by simp), .inr ⟨hkeyed, hkey⟩⟩

theorem openFromPayload_follows {payload : ErasurePayload}
    (h : Pool.Follows may (openFromPayload env payload) es (.ret request)) :
    Stands es request ∧ AskedOrKeyed (payloadText payload.subjectType,
      payloadText payload.subjectKey) payload.args.idempotencyKey request := by
  unfold openFromPayload at h
  dsimp only at h
  split at h
  · exact absurd h Pool.Follows.not_raised
  · exact requestErasure_follows h

theorem Intake.follows {intake : Intake} {reply : Reply}
    (h : Pool.Follows may (intake.prog env) es (.ret reply)) (hopened : reply ≠ .dropped) :
    ∃ request, reply.names request ∧ Stands es request ∧
      AskedOrKeyed intake.subject intake.key request := by
  cases intake with
  | inProcess st sk args =>
      obtain ⟨es₁, request, es₂, rfl, hreq, h⟩ := h.bind_ret
      obtain ⟨rfl, rfl⟩ := Pool.Follows.ret_iff.mp h
      obtain ⟨hstands, hasked⟩ := requestErasure_follows hreq
      exact ⟨request, rfl, hstands.mono (by simp), hasked⟩
  | action payload =>
      rcases h.tryCatch_ret with h | ⟨es₁, e, es₂, rfl, -, h⟩
      · obtain ⟨es₁, request, es₂, rfl, hreq, h⟩ := h.bind_ret
        obtain ⟨rfl, rfl⟩ := Pool.Follows.ret_iff.mp h
        obtain ⟨hstands, hasked⟩ := openFromPayload_follows hreq
        exact ⟨request, rfl, hstands.mono (by simp), hasked⟩
      · split at h
        · exact absurd (Pool.Follows.ret_iff.mp h).2 hopened
        · exact absurd h Pool.Follows.not_raised
  | function payload =>
      obtain ⟨es₁, answer, es₂, rfl, hanswer, h⟩ := h.bind_ret
      obtain ⟨rfl, rfl⟩ := Pool.Follows.ret_iff.mp h
      obtain ⟨es₃, request, es₄, rfl, hreq, h⟩ := hanswer.bind_ret
      obtain ⟨rfl, rfl⟩ := Pool.Follows.ret_iff.mp h
      obtain ⟨hstands, hasked⟩ := openFromPayload_follows hreq
      exact ⟨request, ⟨rfl, rfl, rfl⟩, hstands.mono (by simp), hasked⟩

/-! ### Every run -/

/-- **What comes back was asked for by its subject or by its key**: whatever the other threads
are, from any store, and whatever fails. -/
theorem asked_or_keyed [DecidableEq κ] {may : κ → Op → Prop}
    {P P' : Pool Op Db Error Reply κ} {start db : Db} {tr : List (Pool.Event κ Op Db)} {k : κ}
    {intake : Intake} {reply : Reply} (hk : P k = intake.prog env)
    (hrun : Pool.Runs may P start tr P' db) (hreply : P' k = .ret reply)
    (hopened : reply ≠ .dropped) : ∃ request, reply.names request ∧ Stands tr request ∧
      AskedOrKeyed intake.subject intake.key request := by
  have hfollows := hrun.follows k
  rw [hk, hreply] at hfollows
  obtain ⟨request, hnames, hstands, hasked⟩ := Intake.follows hfollows hopened
  exact ⟨request, hnames, hstands.mono (List.filter_subset_self _), hasked⟩

/-- Two services that number their requests alike. -/
def collision : Bool → Env × Intake := fun first =>
  (documents, .inProcess "document" (if first then "doc-1" else "doc-2")
    { idempotencyKey := "1" })

/-- The second call comes when the first is done. -/
def collided : List (Pool.Event Bool Op Db) × Pool Op Db Error Reply Bool × Db :=
  Pool.schedule [true, true, false] (deliveries collision) {}

theorem asked_or_keyed_contested : ∃ request,
    (Reply.identity 0 (days 30) .erasing).names request ∧ Stands contested.1 request ∧
      AskedOrKeyed ("document", "doc-1") "purge-7" request :=
  asked_or_keyed (k := false)
    (show deliveries retried false = (retried false).2.prog documents from rfl)
    (Pool.runs_schedule (fun _ _ => True) [true, false, true, false, false] (deliveries retried) {})
    (returned?_eq_some.mp (by decide +kernel)) (by simp)

/-- The second caller is told that its document is being erased, and nobody was asked. -/
theorem key_of_another : ¬ ∀ (P P' : Pool Op Db Error Reply Bool) (start db : Db)
    (tr : List (Pool.Event Bool Op Db)) (k : Bool) (env : Env) (intake : Intake) (reply : Reply),
    P k = intake.prog env → Pool.Runs (fun _ _ => False) P start tr P' db → P' k = .ret reply →
    reply ≠ .dropped → ∃ request, reply.names request ∧ Stands tr request ∧
      (request.row.subjectType, request.row.subjectKey) = intake.subject := by
  intro hclaim
  have hreply : collided.2.1 false = .ret (.request
      ⟨0, ErasureArgs.row { idempotencyKey := "1" } documents "document" "doc-1" none 0⟩) :=
    returned?_eq_some.mp (by decide +kernel)
  obtain ⟨request, hnames, -, hasked⟩ := hclaim _ _ _ _ _ false documents (collision false).2 _ rfl
    (Pool.runs_schedule (fun _ _ => False) [true, true, false] (deliveries collision) {}) hreply
    (by simp)
  have hrequest : _ = request := hnames
  subst hrequest
  exact absurd hasked (by decide)

end StapelGdpr
