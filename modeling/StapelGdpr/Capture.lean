import StapelGdpr.Reregistration

/-!
# StapelGdpr.Capture

When an execution captures the identifiers of its user. `execute_deletion` announces the
erasure before it stores the re-registration hashes, and whoever subscribes in process runs
inside that announcement: what is remembered is what it leaves on the user row
(`captured_iff`).
-/

namespace StapelGdpr

open Prog

variable {env : Env} {db db' : Db} {userId : UserId} {hashType : HashType} {e : String}
  {closure : Stored AccountClosureRequest} {may : Op → Prop}

/-! ### What the capture finds -/

/-- The correlation id the execution works under. -/
def erasureId (closure : Stored AccountClosureRequest) (db : Db) : Uuid :=
  closure.row.correlationId.getD db.uuid4

/-- The announcement the execution emits, when it opens the erasure. -/
def erasureAnnouncement (env : Env) (closure : Stored AccountClosureRequest) (db : Db) : Action :=
  let args := closureErasureArgs closure (erasureId closure db)
  args.announcement db.requests.nextPk
    (args.row env subjectAccount closure.row.userId (some closure.row.userId)
      (erasureId closure db)) (erasureId closure db)

/-- The user rows at the capture: those of the start when the erasure was open already, and
what the subscribers of its announcement leave of them when it was not. -/
def usersAtCapture (env : Env) (closure : Stored AccountClosureRequest) (db : Db) : List User :=
  if (db.correlated (erasureId closure db)).isSome then db.users
  else env.host.onErasureRequested (erasureAnnouncement env closure db) db.users

/-- The user row at the capture carries the identifier, in any spelling. -/
def CarriesAtCapture (env : Env) (closure : Stored AccountClosureRequest) (hashType : HashType)
    (e : String) (db : Db) : Prop :=
  ∃ user e', (usersAtCapture env closure db).find? (·.id = closure.row.userId) = some user ∧
    user.attr hashType.text = some e' ∧ e' ≠ "" ∧ isTombstone env.host e' = false ∧
    computeHash env.host hashType e' = computeHash env.host hashType e

/-! ### Up to the capture -/

theorem startDeleting_returns : Does may (fun _ _ _ => True) (fun id db' =>
      id = erasureId closure db ∧ db'.users = db.users ∧ db'.hashes = db.hashes ∧
        db'.requests = db.requests) (fun _ _ => True) (startDeleting env closure) db :=
  does_atomic.mpr ⟨⟨trivial, rfl, rfl, rfl, rfl⟩, fun _ _ => ⟨trivial, trivial⟩⟩

/-- The unit of `request_erasure` runs the subscribers of its announcement. -/
theorem openErasure_users {st sk : String} {args : ErasureArgs} {request : Stored ErasureRequest}
    (h : db.openErasure env st sk args = .ok (request, db')) : db'.hashes = db.hashes ∧
      ∃ requestedBy, args.requestedBy.stored env.host = some requestedBy ∧
        db'.users = env.host.onErasureRequested (args.announcement db.requests.nextPk
          (args.row env st sk requestedBy (args.correlationId.getD db.uuid4))
          (args.correlationId.getD db.uuid4)) db.users := by
  unfold Db.openErasure at h
  split at h
  · exact absurd h (by simp)
  · rename_i requestedBy hby
    dsimp only at h
    split at h
    · exact absurd h (by simp)
    · obtain ⟨-, rfl⟩ := Prod.mk.inj (Except.ok.inj h)
      exact ⟨rfl, requestedBy, hby, rfl⟩

/-- When the erasure is there, its subscribers have run, and no hash has been stored. -/
theorem closureErasure_returns {id : Uuid} : Does may (fun _ _ _ => True) (fun _ db' =>
      db'.hashes = db.hashes ∧ db'.users = if (db.correlated id).isSome then db.users else
        env.host.onErasureRequested ((closureErasureArgs closure id).announcement
          db.requests.nextPk ((closureErasureArgs closure id).row env subjectAccount
            closure.row.userId (some closure.row.userId) id) id) db.users)
      (fun _ _ => True) (closureErasure env closure id) db := by
  refine does_bind.mpr (does_query.mpr ⟨⟨trivial, ?_⟩, fun _ _ => ⟨trivial, trivial⟩⟩)
  cases hfound : db.correlated id with
  | some erasure => exact does_ret.mpr ⟨rfl, rfl⟩
  | none =>
      refine Does.bind ?_ fun _ _ h => does_ret.mpr h
      have hkey : (closureErasureArgs closure id).idempotencyKey = "" := rfl
      rw [Option.isSome_none, if_neg Bool.false_ne_true, requestErasure]
      split
      · exact does_raise.mpr trivial
      refine Does.tryCatch (X := fun _ _ => True) (does_atomic.mpr ⟨?_, fun _ _ =>
        ⟨trivial, trivial⟩⟩) fun e db' _ => ?_
      · split
        · rename_i r hopen
          obtain ⟨hhashes, requestedBy, hby, husers⟩ := openErasure_users hopen
          obtain rfl : some closure.row.userId = requestedBy := Option.some.inj hby
          exact ⟨trivial, hhashes, husers⟩
        · exact ⟨trivial, trivial⟩
      · -- a closure's erasure has no idempotency key, so there is no winner to return
        rw [hkey, if_neg (by simp)]
        exact does_raise.mpr trivial

/-- The capture stores what it finds on the row. -/
theorem storeReregistrationHashes_returns (hselect : ¬ may .select)
    (hstore : ∀ userId, ¬ may (.storeHash userId)) :
    Does may (fun _ _ _ => True) (fun _ db' => db' = match db.user userId with
        | none => db
        | some user => db.rememberBoth env userId (user.attr "email") (user.attr "phone"))
      (fun _ _ => False) (storeReregistrationHashes env userId) db := by
  refine Does.tryCatch (X := fun _ _ => False) (does_bind.mpr (does_query.mpr ⟨⟨trivial, ?_⟩,
    fun hl _ => absurd hl hselect⟩)) fun _ _ h => h.elim
  cases db.user userId with
  | none => exact does_ret.mpr rfl
  | some user =>
      refine Does.bind (storeHashes_stores.post (fun _ _ h => h) fun _ _ h => ?_)
        fun _ _ h => does_ret.mpr h
      exact h.elim hselect (hstore _)

/-- What is stored depends on the hashes alone. -/
theorem hashes_rememberOne {a b : Db} {value : Option String} (h : a.hashes = b.hashes) :
    (a.rememberOne env userId hashType value).hashes =
      (b.rememberOne env userId hashType value).hashes := by
  unfold Db.rememberOne
  cases value with
  | none => exact h
  | some v =>
      dsimp only
      split
      · exact h
      · unfold Db.remember Db.hasHash
        rw [h]
        split
        · exact h
        · rfl

theorem hashes_rememberBoth {a b : Db} {email phone : Option String} (h : a.hashes = b.hashes) :
    (a.rememberBoth env userId email phone).hashes =
      (b.rememberBoth env userId email phone).hashes :=
  hashes_rememberOne (hashes_rememberOne h)

/-! ### From the capture on -/

/-- Nothing an execution does after the capture touches the hashes. -/
theorem afterCapture_hashes {id : Uuid} {erasure : Stored ErasureRequest} {created : Bool} :
    Always (fun _ a b => b.hashes = a.hashes) (eraseStored env closure id erasure >>= fun erased =>
      match erased with
      | none => (return () : Program Unit)
      | some erased => maybeFinalize env erasure (if created then some erased else none)) := by
  refine (eraseStored_always {
    select := fun _ => rfl
    anonymize := fun _ _ => rfl
    delete := fun _ _ => rfl
    localReceipt := fun _ _ => ⟨rfl, fun _ => rfl⟩
    eraseIdentity := fun _ _ => rfl
    identityErased := fun _ => ⟨rfl, rfl⟩
    localDone := fun _ => ⟨rfl, fun _ _ => rfl⟩ }).bind fun erased => ?_
  cases erased with
  | none => exact always_ret
  | some erased =>
      exact maybeFinalize_always {
        select := fun _ => rfl
        certify := fun _ _ => ⟨rfl, fun _ => rfl⟩
        query := fun _ _ _ => rfl
        obligation := fun _ _ _ => ⟨rfl, fun _ => rfl⟩
        delete := fun _ _ => ⟨rfl, fun _ => rfl⟩ }

/-- The hashes of an execution that has come to `identity_erased_at`. -/
theorem executeDeletion_hashes {tr : List Op} {p : Program Unit} (hselect : ¬ may .select)
    (hstore : ∀ userId, ¬ may (.storeHash userId))
    (hrun : Runs may (executeDeletion env closure) db tr p db')
    (hreached : .identityErased closure.pk ∈ tr) :
    db'.hashes = match (usersAtCapture env closure db).find? (·.id = closure.row.userId) with
      | none => db.hashes
      | some user => (db.rememberBoth env closure.row.userId (user.attr "email")
          (user.attr "phone")).hashes := by
  obtain ⟨_, held, db₀, _, hheld, hrun₁, hreached₁⟩ := hrun.reached hreached
    (labels_select (by simp))
  obtain rfl : db₀ = db := (Does.returned (M := fun _ _ _ => True) (E := fun _ _ => True)
    (Q := fun _ s => s = db) (does_query.mpr ⟨⟨trivial, rfl⟩, fun _ _ => ⟨trivial, trivial⟩⟩)
    hheld)
  split at hrun₁
  · cases hrun₁
    exact absurd hreached₁ List.not_mem_nil
  obtain ⟨_, id, db₁, _, hstart, hrun₂, hreached₂⟩ := hrun₁.reached hreached₁
    (labels_atomic (by simp))
  obtain ⟨rfl, husers, hhashes, hrequests⟩ := startDeleting_returns.returned hstart
  obtain ⟨_, ⟨erasure, created⟩, db₂, _, hopen, hrun₃, hreached₃⟩ := hrun₂.reached hreached₂
    (closureErasure_always (fun _ => by simp) fun _ => ⟨by simp, fun _ _ _ => by simp⟩)
  obtain ⟨hhashes', husers'⟩ := closureErasure_returns.returned hopen
  dsimp only at hrun₃
  rw [eraseSubject_eq, Prog.bind_assoc] at hrun₃
  obtain ⟨_, _, db₃, _, hstored, hrun₄, -⟩ := hrun₃.reached hreached₃
    (storeReregistrationHashes_always (fun _ => by simp) fun _ _ => by simp)
  have hcapture := (storeReregistrationHashes_returns hselect hstore).returned hstored
  have hlast : db'.hashes = db₃.hashes := by
    refine afterCapture_hashes.keeps (R := fun a b => b.hashes = a.hashes) hrun₄
      (fun _ _ _ h => h) (fun _ => rfl) ?_
    intro a b c h h'
    exact h'.trans h
  have hfound : db₂.users = usersAtCapture env closure db₀ := by
    rw [husers', usersAtCapture, erasureAnnouncement, ← hrequests, ← husers]
    unfold Ledger.correlated
    rw [hrequests]
    rfl
  have hkept : db₂.hashes = db₀.hashes := hhashes'.trans hhashes
  rw [hlast, hcapture, Db.user, hfound]
  change Db.hashes (match (usersAtCapture env closure db₀).find? (·.id = closure.row.userId) with
    | none => db₂
    | some user => db₂.rememberBoth env closure.row.userId (user.attr "email")
        (user.attr "phone")) = _
  cases (usersAtCapture env closure db₀).find? (·.id = closure.row.userId) with
  | none => exact hkept
  | some user => exact hashes_rememberBoth hkept

/-! ### What is remembered -/

theorem identifier_attr {user : User} :
    identifier hashType (user.attr "email") (user.attr "phone") = user.attr hashType.text := by
  cases hashType <;> rfl

/-- The rows of the identifier after the capture: a new one when the capture found it and there
was none, and otherwise those from before. -/
theorem captured_rows (hashType : HashType) (e : String) {h : ReRegistrationHash}
    (hhashes : db'.hashes = match (usersAtCapture env closure db).find?
        (·.id = closure.row.userId) with
      | none => db.hashes
      | some user => (db.rememberBoth env closure.row.userId (user.attr "email")
          (user.attr "phone")).hashes) :
    h ∈ db'.hashRows hashType (computeHash env.host hashType e) ↔
      h ∈ db.hashRows hashType (computeHash env.host hashType e) ∨
      db.hashRows hashType (computeHash env.host hashType e) = [] ∧
      ∃ user v, (usersAtCapture env closure db).find? (·.id = closure.row.userId) = some user ∧
        user.attr hashType.text = some v ∧ v ≠ "" ∧ isTombstone env.host v = false ∧
        computeHash env.host hashType v = computeHash env.host hashType e ∧
        h = newHash env closure.row.userId hashType v := by
  rw [mem_hashRows, hhashes, mem_hashRows]
  cases hfind : (usersAtCapture env closure db).find? (·.id = closure.row.userId) with
  | none => simp
  | some user =>
      dsimp only
      rw [mem_rememberBoth]
      constructor
      · rintro ⟨hold | ⟨t, v, hid, hne, hlive, hnone, rfl⟩, htype, hdigest⟩
        · exact .inl ⟨hold, htype, hdigest⟩
        · -- the row that was written is one of this type and this digest
          obtain rfl : t = hashType := htype
          have hsame : computeHash env.host t v = computeHash env.host t e := hdigest
          rw [hsame] at hnone
          exact .inr ⟨hnone, user, v, rfl, identifier_attr ▸ hid, hne, hlive, hsame, rfl⟩
      · rintro (⟨hold, htype, hdigest⟩ | ⟨hnone, user', v, hu, hid, hne, hlive, hsame, rfl⟩)
        · exact ⟨.inl hold, htype, hdigest⟩
        · obtain rfl := Option.some.inj hu
          refine ⟨.inr ⟨hashType, v, identifier_attr.trans hid, hne, hlive, ?_, rfl⟩, rfl, hsame⟩
          rw [hsame]
          exact hnone

/-- **What is captured.** When an execution in which nothing fails that the capture needs has
come to `identity_erased_at`, an identifier is known for the whole term if and only if the row
still carried it after the announcement of the erasure and the table had no row of it, or the
table had one that lasts as long. -/
theorem captured_iff {tr : List Op} {p : Program Unit} (he : e ≠ "") (hselect : ¬ may .select)
    (hstore : ∀ userId, ¬ may (.storeHash userId))
    (hrun : Runs may (executeDeletion env closure) db tr p db')
    (hreached : .identityErased closure.pk ∈ tr) :
    Lasting env hashType e db' ↔
      CarriesAtCapture env closure hashType e db ∧
        db.hashRows hashType (computeHash env.host hashType e) = [] ∨
      ∃ h ∈ db.hashRows hashType (computeHash env.host hashType e),
        h.scheme = .hmacV1 ∧ env.now + retention ≤ h.expiresAt := by
  have hrows := fun h => captured_rows hashType e (h := h)
    (executeDeletion_hashes hselect hstore hrun hreached)
  rw [lasting_iff he]
  constructor
  · rintro ⟨h, hmem, hscheme, hexpiry⟩
    rcases (hrows h).mp hmem with hold | ⟨hnone, user, v, hfind, hattr, hne, hlive, hsame, -⟩
    · exact .inr ⟨h, hold, hscheme, hexpiry⟩
    · exact .inl ⟨⟨user, v, hfind, hattr, hne, hlive, hsame⟩, hnone⟩
  · rintro (⟨⟨user, v, hfind, hattr, hne, hlive, hsame⟩, hnone⟩ | ⟨h, hold, hscheme, hexpiry⟩)
    · have hnew := (hrows _).mpr (.inr ⟨hnone, user, v, hfind, hattr, hne, hlive, hsame, rfl⟩)
      exact ⟨_, hnew, rfl, le_rfl⟩
    · exact ⟨h, (hrows h).mpr (.inl hold), hscheme, hexpiry⟩

/-- The user row at the end of the grace: the initiation has deactivated it. -/
def leaving : User := { account with isActive := false }

theorem captured_iff_closed : Lasting (deploymentOn 30) .email "u1@example.org"
    ((executeDeletion (deploymentOn 30) closed).run closing).2 := by
  have hrun := runs_labels (fun _ => False) (executeDeletion (deploymentOn 30) closed) closing
  refine (captured_iff (by decide) id (fun _ => id) hrun (by decide +kernel)).mpr
    (.inl ⟨⟨leaving, "u1@example.org", ?_⟩, by decide +kernel⟩)
  decide +kernel

/-- A subscriber in process that scrubs the user rows when it hears of an erasure. -/
def scrubbing : Env :=
  { deploymentOn 30 with
    host := { onErasureRequested := fun _ users => users.map fun u => { u with attrs := [] } } }

/-- The address is gone before it is captured. -/
theorem scrubbed_forgotten : ¬ ∀ (env : Env) (closure : Stored AccountClosureRequest)
    (hashType : HashType) (e : String) (user : User) (db db' : Db) (tr : List Op)
    (p : Program Unit), db.user closure.row.userId = some user →
    user.attr hashType.text = some e → e ≠ "" → isTombstone env.host e = false →
    Runs (fun op => ∀ userId, op ≠ .storeHash userId) (executeDeletion env closure) db tr p db' →
    .identityErased closure.pk ∈ tr → Lasting env hashType e db' := by
  intro hclaim
  have hrun := runs_labels (fun op => ∀ userId, op ≠ .storeHash userId)
    (executeDeletion scrubbing closed) closing
  have hlasting := hclaim scrubbing closed .email "u1@example.org" leaving closing _ _ _
    (by decide +kernel) (by decide) (by decide) (by decide +kernel) hrun (by decide +kernel)
  obtain ⟨h, hmem, -⟩ := (lasting_iff (by decide)).mp hlasting
  have hnone : ((executeDeletion scrubbing closed).run closing).2.hashes = [] := by decide +kernel
  rw [Db.hashRows, hnone] at hmem
  exact absurd hmem (by simp)

end StapelGdpr
