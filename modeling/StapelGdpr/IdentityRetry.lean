import StapelGdpr.Capture

/-!
# StapelGdpr.IdentityRetry

Erasing an identity twice. `erase_identity` reads the identifying fields before and after the
strategy and raises when one is unchanged. The second time it compares the tombstones of the
first run with themselves, so it returns exactly when the first run left nothing to compare: no
row, or a row without any identifying field (`retry_iff`). An execution whose last emit failed
is retried after that point, and a retry that raises there never sets `local_erasure_done`.
-/

namespace StapelGdpr

open Prog

variable {env : Env} {may : Op → Prop} {db s t : Db} {userId : UserId}
  {closure : Stored AccountClosureRequest}

/-! ### Erasing twice -/

/-- The configured strategy leaves alone what it has left. -/
def Env.idempotent (env : Env) : Prop := ∀ user user',
  env.identityErasure.leaves env.host user = some user' →
    env.identityErasure.leaves env.host user' = some user'

/-- No identifying field is on the user's row, if there is one. -/
def Db.scrubbed (db : Db) (env : Env) (userId : UserId) : Bool :=
  (db.user userId).all fun user => (identitySnapshot env user).isEmpty

/-- The strategy changes nothing on the user's row. -/
def Erased (env : Env) (userId : UserId) (db : Db) : Prop :=
  ∀ user, db.user userId = some user → env.identityErasure.leaves env.host user = some user

theorem Erased.of_user (h : Erased env userId t) (hsame : s.user userId = t.user userId) :
    Erased env userId s := fun user huser => h user (hsame ▸ huser)

/-- What the strategy leaves of a table of users. -/
def Env.eraseRow (env : Env) (userId : UserId) (user : User) : Option User :=
  if user.id = userId then env.identityErasure.leaves env.host user else some user

/-- Every row that is found afterwards is one the strategy has left. -/
theorem erased_filterMap (hidem : env.idempotent) {users : List User} {user : User}
    (h : (users.filterMap (env.eraseRow userId)).find? (·.id = userId) = some user) :
    env.identityErasure.leaves env.host user = some user := by
  have hid : user.id = userId := by simpa using List.find?_some h
  obtain ⟨old, -, hleft⟩ := List.mem_filterMap.mp (List.mem_of_find?_eq_some h)
  unfold Env.eraseRow at hleft
  split at hleft
  · exact hidem old user hleft
  · rename_i hother
    rw [Option.some.inj hleft] at hother
    exact absurd hid hother

/-- A row the strategy leaves alone is found again. -/
theorem find?_filterMap {users : List User} {user : User}
    (h : users.find? (·.id = userId) = some user)
    (hfixed : env.identityErasure.leaves env.host user = some user) :
    (users.filterMap (env.eraseRow userId)).find? (·.id = userId) = some user := by
  induction users with
  | nil => exact absurd h (by simp)
  | cons first users ih =>
      rw [List.find?_cons] at h
      by_cases hid : first.id = userId
      · rw [decide_eq_true hid] at h
        obtain rfl : first = user := Option.some.inj h
        have hrow : env.eraseRow userId first = some first := by
          rw [Env.eraseRow, if_pos hid, hfixed]
        rw [List.filterMap_cons_some hrow, List.find?_cons, decide_eq_true hid]
      · rw [decide_eq_false hid] at h
        have hrow : env.eraseRow userId first = some first := by rw [Env.eraseRow, if_neg hid]
        rw [List.filterMap_cons_some hrow, List.find?_cons, decide_eq_false hid]
        exact ih h

/-- Compared with itself, a row has kept every field. -/
theorem survivedFields_self (user : User) :
    survivedFields (identitySnapshot env user) user =
      (identitySnapshot env user).map Prod.fst := by
  unfold survivedFields
  congr 1
  refine List.filter_eq_self.mpr fun field hfield => ?_
  obtain ⟨name, -, hread⟩ := List.mem_filterMap.mp hfield
  cases hattr : user.attr name with
  | none => simp [hattr] at hread
  | some value =>
      rw [hattr] at hread
      dsimp only at hread
      split at hread
      · exact absurd hread (by simp)
      · obtain rfl := Option.some.inj hread
        simpa using hattr

/-- An erasure that returns leaves a row the strategy would not change. -/
theorem eraseIdentity_erases (hidem : env.idempotent) : Does may (fun _ _ _ => True)
    (fun _ db' => Erased env userId db') (fun _ _ => True) (eraseIdentity env userId) db := by
  refine does_bind.mpr (does_query.mpr ⟨⟨trivial, ?_⟩, fun _ _ => ⟨trivial, trivial⟩⟩)
  cases hfound : db.user userId with
  | none => exact does_ret.mpr fun user huser => absurd (hfound.symm.trans huser) (by simp)
  | some user =>
      refine does_bind.mpr (does_write.mpr ⟨⟨trivial, ?_⟩, fun _ _ => ⟨trivial, trivial⟩⟩)
      refine does_bind.mpr (does_query.mpr ⟨⟨trivial, ?_⟩, fun _ _ => ⟨trivial, trivial⟩⟩)
      dsimp only
      split
      · exact does_raise.mpr trivial
      · exact does_ret.mpr fun left hleft => erased_filterMap hidem hleft

/-- A second erasure in which nothing fails returns exactly when nothing is left to compare. -/
theorem eraseIdentity_again (herased : Erased env userId db) :
    Ends (fun _ db' => db.scrubbed env userId = true ∧ db'.toLedger = db.toLedger)
      (fun _ db' => db.scrubbed env userId = false ∧ db'.toLedger = db.toLedger)
      (eraseIdentity env userId) db := by
  refine does_bind.mpr (does_query.mpr ⟨⟨trivial, ?_⟩, fun hfails _ => hfails.elim⟩)
  cases hfound : db.user userId with
  | none => exact does_ret.mpr ⟨by simp [Db.scrubbed, hfound], rfl⟩
  | some user =>
      refine does_bind.mpr (does_write.mpr ⟨⟨trivial, ?_⟩, fun hfails _ => hfails.elim⟩)
      refine does_bind.mpr (does_query.mpr ⟨⟨trivial, ?_⟩, fun hfails _ => hfails.elim⟩)
      have hagain : Db.user { db with users := db.users.filterMap (env.eraseRow userId) } userId =
          some user := find?_filterMap hfound (herased user hfound)
      have hscrubbed : db.scrubbed env userId = (identitySnapshot env user).isEmpty := by
        simp [Db.scrubbed, hfound]
      change Does _ _ _ _ (if ((Db.user { db with
        users := db.users.filterMap (env.eraseRow userId) } userId).map
          (survivedFields (identitySnapshot env user))).getD [] ≠ [] then _ else _) _
      rw [hagain, Option.map_some, Option.getD_some, survivedFields_self, hscrubbed]
      cases identitySnapshot env user with
      | nil => exact does_ret.mpr ⟨rfl, rfl⟩
      | cons field rest => exact does_raise.mpr ⟨rfl, rfl⟩

/-! ### An execution that came to its emit -/

/-- The closure's row carries the correlation id of a request that exists. -/
def Referred (pk : Nat) (userId : UserId) (db : Db) : Prop :=
  ∃ row id, db.closures.get? pk = some row ∧ row.userId = userId ∧ row.correlationId = some id ∧
    ∃ i r, db.requests.get? i = some r ∧ r.correlationId = some id

/-- The statement keeps that. -/
def KeepsReferred (pk : Nat) (userId : UserId) (a b : Db) : Prop :=
  Referred pk userId a → Referred pk userId b

theorem KeepsReferred.of_rows {pk : Nat} {a b : Db}
    (hc : ∀ row, a.closures.get? pk = some row → ∃ row', b.closures.get? pk = some row' ∧
      row'.userId = row.userId ∧ row'.correlationId = row.correlationId)
    (hr : ∀ i r, a.requests.get? i = some r → ∃ r', b.requests.get? i = some r' ∧
      r'.correlationId = r.correlationId) : KeepsReferred pk userId a b := by
  rintro ⟨row, id, hrow, huser, hid, i, r, hget, hcorr⟩
  obtain ⟨row', hrow', huser', hid'⟩ := hc row hrow
  obtain ⟨r', hget', hcorr'⟩ := hr i r hget
  exact ⟨row', id, hrow', huser'.trans huser, hid'.trans hid, i, r', hget', hcorr'.trans hcorr⟩

theorem KeepsReferred.of_same {pk : Nat} {a b : Db} (hc : b.closures = a.closures)
    (hr : b.requests = a.requests) : KeepsReferred pk userId a b :=
  .of_rows (fun row h => ⟨row, hc ▸ h, rfl, rfl⟩) fun _ r h => ⟨r, hr ▸ h, rfl⟩

theorem KeepsReferred.of_closure {pk k : Nat} {a b : Db}
    {f : AccountClosureRequest → AccountClosureRequest} (hc : b.closures = a.closures.modify k f)
    (hf : ∀ row, (f row).userId = row.userId ∧ (f row).correlationId = row.correlationId)
    (hr : b.requests = a.requests) : KeepsReferred pk userId a b := by
  refine .of_rows (fun row h => ?_) fun _ r h => ⟨r, hr ▸ h, rfl⟩
  rw [hc, Table.get?_modify, h]
  by_cases hsame : pk = k
  · rw [if_pos hsame]
    exact ⟨_, rfl, hf row⟩
  · rw [if_neg hsame]
    exact ⟨row, rfl, rfl, rfl⟩

theorem localSteps_referred {pk k : Nat} {user : UserId} :
    LocalSteps env k user fun _ => KeepsReferred pk userId where
  select _ := .of_same rfl rfl
  anonymize _ _ := .of_same rfl rfl
  delete _ _ := .of_same rfl rfl
  localReceipt _ _ := ⟨.of_same rfl rfl, fun _ => .of_same rfl rfl⟩
  eraseIdentity _ _ := .of_same rfl rfl
  identityErased _ := ⟨.of_same rfl rfl, .of_closure rfl (fun _ => ⟨rfl, rfl⟩) rfl⟩
  localDone _ := ⟨.of_same rfl rfl, fun _ _ => .of_closure rfl (fun _ => ⟨rfl, rfl⟩) rfl⟩
  storeHash _ _ := .of_same rfl rfl

theorem flipSteps_referred {pk : Nat} : FlipSteps env fun _ => KeepsReferred pk userId where
  select _ := .of_same rfl rfl
  certify k db := by
    refine ⟨.of_same rfl rfl, fun waived => .of_rows (fun row h => ⟨row, h, rfl, rfl⟩)
      fun i r h => ?_⟩
    show ∃ r', (db.requests.modify k _).get? i = some r' ∧ _
    rw [Table.get?_modify, h]
    split
    · exact ⟨_, rfl, rfl⟩
    · exact ⟨r, rfl, rfl⟩
  query _ _ _ := .of_same rfl rfl
  obligation _ _ _ := ⟨.of_same rfl rfl, fun _ => .of_same rfl rfl⟩
  delete _ _ := ⟨.of_same rfl rfl, fun _ => .of_closure rfl (fun _ => ⟨rfl, rfl⟩) rfl⟩

/-- `execute_deletion` writes the id it goes on with. -/
theorem startDeleting_closures : Does may (fun _ _ _ => True) (fun id db' =>
      db'.closures = db.closures.modify closure.pk (·.startDeleting id env.report.version))
    (fun _ _ => True) (startDeleting env closure) db :=
  does_atomic.mpr ⟨⟨trivial, rfl⟩, fun _ _ => ⟨trivial, trivial⟩⟩

/-- The erasure is found or created under that id. -/
theorem closureErasure_requests {id : Uuid} : Does may (fun _ _ _ => True) (fun _ db' =>
      db'.closures = db.closures ∧ ∃ i r, db'.requests.get? i = some r ∧
        r.correlationId = some id)
    (fun _ _ => True) (closureErasure env closure id) db := by
  refine does_bind.mpr (does_query.mpr ⟨⟨trivial, ?_⟩, fun _ _ => ⟨trivial, trivial⟩⟩)
  cases hfound : db.correlated id with
  | some erasure =>
      obtain ⟨hget, hid⟩ := Table.first?_some hfound
      exact does_ret.mpr ⟨rfl, _, _, hget, by simpa using hid⟩
  | none =>
      refine Does.bind ?_ fun _ _ h => does_ret.mpr h
      rw [requestErasure]
      split
      · exact does_raise.mpr trivial
      refine Does.tryCatch (X := fun _ _ => True) (does_atomic.mpr ⟨?_, fun _ _ =>
        ⟨trivial, trivial⟩⟩) fun e db' _ => ?_
      · split
        · rename_i r hopen
          obtain ⟨by', -, hrow, -, -, hdb⟩ := openErasure_ok hopen
          refine ⟨trivial, by rw [hdb], db.requests.nextPk, r.1.row, ?_, by rw [hrow]; rfl⟩
          rw [hdb]
          exact Table.get?_insert_nextPk _ _
        · exact ⟨trivial, trivial⟩
      · rw [if_neg (fun h => h.2 rfl)]
        exact does_raise.mpr trivial

/-- `erase_identity` returned inside `execute_deletion`. -/
theorem identityErased_erases (hidem : env.idempotent) : Does may (fun _ _ _ => True)
    (fun erased db' => erased = true → Erased env userId db') (fun _ _ => True)
    (identityErased env userId) db := by
  have hbody : Does may (fun _ _ _ => True)
      (fun erased db' => erased = true → Erased env userId db') (fun _ _ => True) (do
        let _ ← eraseIdentity env userId
        return true) db :=
    (eraseIdentity_erases hidem).bind fun _ _ h => does_ret.mpr fun _ => h
  exact hbody.tryCatch fun _ _ _ => does_ret.mpr fun h => absurd h (by simp)

/-- The local work that has come to its emit has erased the identity. -/
theorem eraseStored_erases (closure : Stored AccountClosureRequest) {id : Uuid}
    {erasure : Stored ErasureRequest} {tr : List Op} {p : Program Unit}
    {k : Option (Stored AccountClosureRequest) → Program Unit}
    (hidem : env.idempotent) (hnone : k none = .ret ())
    (hkeeps : ∀ erased, Always (fun _ a b => b.users = a.users) (k erased))
    (hrun : Runs may (eraseStored env closure id erasure >>= k) db tr p t)
    (hreached : .localDoneUnit closure.pk ∈ tr) : Erased env closure.row.userId t := by
  unfold eraseStored at hrun
  rw [Prog.bind_assoc] at hrun
  obtain ⟨_, failed, db₁, _, -, hrun₁, hreached₁⟩ := hrun.reached hreached
    (runDeletionInprocess_always (fun _ _ => by simp) fun _ _ => by simp)
  rw [Prog.bind_assoc] at hrun₁
  obtain ⟨_, _, db₂, _, -, hrun₂, hreached₂⟩ := hrun₁.reached hreached₁
    (recordLocalReceipts_always (fun _ => by simp) fun _ _ => ⟨by simp, fun _ => by simp⟩)
  split at hrun₂
  · rw [show (return none : Program (Option _)) >>= k = k none from rfl, hnone] at hrun₂
    cases hrun₂
    exact absurd hreached₂ List.not_mem_nil
  rw [Prog.bind_assoc] at hrun₂
  obtain ⟨_, erased, db₃, _, herased, hrun₃, hreached₃⟩ := hrun₂.reached hreached₂
    (identityErased_always (fun _ => by simp) fun _ _ => by simp)
  split at hrun₃
  · rw [show (return none : Program (Option _)) >>= k = k none from rfl, hnone] at hrun₃
    cases hrun₃
    exact absurd hreached₃ List.not_mem_nil
  · rename_i hyes
    have hfixed := (identityErased_erases hidem).returned herased (by simpa using hyes)
    have hrest : Always (fun _ a b => b.users = a.users) ((do
        Prog.write (.identityErased closure.pk) fun db => { db with
          closures := db.closures.modify closure.pk (·.eraseIdentity env.now) }
        Prog.write (.localDoneUnit closure.pk) fun db => Db.emit { db with
          closures := db.closures.modify closure.pk (·.finishLocal) }
          [.userDeleted closure.row.userId id closure.row.trigger]
        return some ⟨closure.pk, (closure.row.eraseIdentity env.now).finishLocal⟩) >>= k) :=
      Always.bind (.bind (.write fun _ => ⟨rfl, rfl⟩) fun _ =>
        .bind (.write fun _ => ⟨rfl, rfl⟩) fun _ => always_ret) hkeeps
    have husers : t.users = db₃.users := by
      refine hrest.keeps (R := fun a b => b.users = a.users) hrun₃ (fun _ _ _ h => h)
        (fun _ => rfl) ?_
      intro a b c h h'
      exact h'.trans h
    exact hfixed.of_user (by unfold Db.user; rw [husers])

/-- **What an execution that came to its emit leaves.** The closure's row names its request, and
the strategy would not change the user's row. -/
theorem executeDeletion_emits {tr : List Op} {p : Program Unit} (hidem : env.idempotent)
    (hloaded : db.closures.get? closure.pk = some closure.row)
    (hrun : Runs may (executeDeletion env closure) db tr p t)
    (hreached : .localDoneUnit closure.pk ∈ tr) :
    Referred closure.pk closure.row.userId t ∧ Erased env closure.row.userId t := by
  obtain ⟨_, held, db₀, _, hheld, hrun₁, hreached₁⟩ := hrun.reached hreached
    (labels_select (by simp))
  obtain rfl : db₀ = db := (Does.returned (M := fun _ _ _ => True) (E := fun _ _ => True)
    (Q := fun _ s => s = db) (does_query.mpr ⟨⟨trivial, rfl⟩, fun _ _ => ⟨trivial, trivial⟩⟩)
    hheld)
  split at hrun₁
  · cases hrun₁
    exact absurd hreached₁ List.not_mem_nil
  obtain ⟨_, id, db₁, _, hstart, hrun₂, hreached₂⟩ := hrun₁.reached hreached₁
    (labels_atomic (by simp))
  have hclosures := startDeleting_closures.returned hstart
  obtain ⟨_, ⟨erasure, created⟩, db₂, _, hopen, hrun₃, hreached₃⟩ := hrun₂.reached hreached₂
    (closureErasure_always (fun _ => by simp) fun _ => ⟨by simp, fun _ _ _ => by simp⟩)
  obtain ⟨hclosures', i, r, hr, hid⟩ := closureErasure_requests.returned hopen
  have hreferred : Referred closure.pk closure.row.userId db₂ := by
    refine ⟨closure.row.startDeleting id env.report.version, id, ?_, rfl, rfl, i, r, hr, hid⟩
    rw [hclosures', hclosures]
    exact Table.get?_modify_self _ hloaded
  dsimp only at hrun₃
  constructor
  · refine Always.keeps (M := fun _ => KeepsReferred closure.pk closure.row.userId)
      (R := KeepsReferred closure.pk closure.row.userId) ?_ hrun₃ (fun _ _ _ h => h)
      (fun _ h => h) (fun h h' => h' ∘ h) hreferred
    refine (eraseSubject_always localSteps_referred).bind fun erased => ?_
    cases erased with
    | none => exact always_ret
    | some erased => exact maybeFinalize_always flipSteps_referred
  · rw [eraseSubject_eq, Prog.bind_assoc] at hrun₃
    obtain ⟨_, _, db₃, _, -, hrun₄, hreached₄⟩ := hrun₃.reached hreached₃
      (storeReregistrationHashes_always (fun _ => by simp) fun _ _ => by simp)
    refine eraseStored_erases ⟨closure.pk, closure.row.startDeleting id env.report.version⟩
      hidem rfl (fun erased => ?_) hrun₄ hreached₄
    cases erased with
    | none => exact always_ret
    | some erased =>
        exact maybeFinalize_always {
          select := fun _ => rfl
          certify := fun _ _ => ⟨rfl, fun _ => rfl⟩
          query := fun _ _ _ => rfl
          obligation := fun _ _ _ => ⟨rfl, fun _ => rfl⟩
          delete := fun _ _ => ⟨rfl, fun _ => rfl⟩ }

/-! ### The retry -/

/-- Users and closures are those of before. -/
def SameRows (a b : Db) : Prop := b.users = a.users ∧ b.closures = a.closures

/-- A part of the execution that cannot raise and leaves users and closures alone. -/
theorem ends_sameRows {α : Type} {p : Program α} {Q : α → Db → Prop}
    (hsame : Always (fun _ => SameRows) p) (hends : Ends Q (fun _ _ => False) p db) :
    Ends (fun a db' => Q a db' ∧ SameRows db db') (fun _ _ => False) p db := by
  have hdoes : Does (fun _ => False) (fun _ => SameRows) (fun _ _ => True) (fun _ _ => True) p db :=
    hsame.does
  have hboth := hends.and hdoes
  have hinv := hboth.inv (I := SameRows db)
    (fun _ _ _ hab ha => ⟨hab.2.1.trans ha.1, hab.2.2.trans ha.2⟩) ⟨rfl, rfl⟩
  exact hinv.imp (fun _ _ _ _ => trivial) (fun _ _ h => ⟨h.1.1, h.2⟩) fun _ _ h => h.1.1

/-- The capture never raises. -/
theorem storeReregistrationHashes_ends : Ends (fun _ db' => SameRows db db') (fun _ _ => False)
    (storeReregistrationHashes env userId) db := by
  have hsame : Always (fun _ => SameRows) (storeReregistrationHashes env userId) :=
    storeReregistrationHashes_always (fun _ => ⟨rfl, rfl⟩) fun _ _ => ⟨rfl, rfl⟩
  exact (ends_sameRows hsame (storeReregistrationHashes_returns not_false fun _ =>
    not_false)).post (fun _ _ h => h.2) fun _ _ h => h

/-- Where nothing fails, every provider returns. -/
theorem runDeletionInprocess_ends : Ends (fun failed db' => failed = [] ∧ db' = db)
    (fun _ _ => False) (runDeletionInprocess env userId) db := by
  refine Does.bind (P := fun failed db' => failed = [] ∧ db' = db) ?_ ?_
  · refine Does.foldlM (J := fun _ failed db' => failed = [] ∧ db' = db) ?_ ⟨rfl, rfl⟩
    rintro name rest failed db' ⟨rfl, rfl⟩
    refine Does.tryCatch (X := fun _ _ => False) ?_ fun _ _ h => h.elim
    exact does_bind.mpr (does_external.mpr ⟨⟨trivial, does_ret.mpr ⟨rfl, rfl⟩⟩, fun h => h.elim⟩)
  · rintro failed db' ⟨rfl, rfl⟩
    refine Does.foldlM (J := fun _ failed db'' => failed = [] ∧ db'' = db') ?_ ⟨rfl, rfl⟩
    rintro name rest failed db' ⟨rfl, rfl⟩
    refine Does.tryCatch (X := fun _ _ => False) ?_ fun _ _ h => h.elim
    exact does_bind.mpr (does_external.mpr ⟨⟨trivial, does_ret.mpr ⟨rfl, rfl⟩⟩, fun h => h.elim⟩)

/-- Where nothing fails, the receipts of the local owners are recorded. -/
theorem recordLocalReceipts_ends {erasure : Stored ErasureRequest} {failed : List String} :
    Ends (fun _ _ => True) (fun _ _ => False) (recordLocalReceipts env erasure failed) db := by
  refine Does.forM (J := fun _ _ => True) (fun owner rest db' _ => ?_) trivial
  unfold recordLocalReceipt
  split
  · exact does_ret.mpr trivial
  refine does_bind.mpr (ends_query.mpr ?_)
  cases db'.parts.first? fun p => p.request = erasure.pk && p.owner = owner.name with
  | none => exact does_ret.mpr trivial
  | some part =>
      dsimp only
      split
      · exact does_ret.mpr trivial
      · exact does_write.mpr ⟨⟨trivial, trivial⟩, fun h => h.elim⟩

/-- The identity is erased again exactly when nothing identifying is left. -/
theorem identityErased_again (herased : Erased env userId db) :
    Ends (fun erased db' => erased = db.scrubbed env userId ∧ db'.toLedger = db.toLedger)
      (fun _ _ => False) (identityErased env userId) db := by
  refine Does.tryCatch (X := fun _ db' => db.scrubbed env userId = false ∧
    db'.toLedger = db.toLedger) ?_ fun _ db' h => does_ret.mpr ⟨h.1.symm, h.2⟩
  refine does_bind.mpr ((eraseIdentity_again herased).imp (fun _ _ _ h => h) ?_ fun _ _ h => h)
  exact fun _ db' h => does_ret.mpr ⟨h.1.symm, h.2⟩

/-- The flag of a closure. -/
def Db.localDone (db : Db) (pk : Nat) : Bool :=
  (db.closures.get? pk).any (·.localErasureDone)

/-- The local work of a retry sets the flag exactly when nothing identifying is left. -/
theorem eraseStored_again (closure : Stored AccountClosureRequest) (id : Uuid)
    (erasure : Stored ErasureRequest) {row : AccountClosureRequest}
    (hrow : db.closures.get? closure.pk = some row) (hopen : row.localErasureDone = false)
    (herased : Erased env closure.row.userId db) :
    Ends (fun _ db' => db'.localDone closure.pk = db.scrubbed env closure.row.userId)
      (fun _ _ => False) (eraseStored env closure id erasure) db := by
  refine Does.bind runDeletionInprocess_ends ?_
  rintro _ db₀ ⟨rfl, rfl⟩
  have hsame : Always (fun _ => SameRows) (recordLocalReceipts env erasure []) :=
    recordLocalReceipts_always (fun _ => ⟨rfl, rfl⟩) fun _ _ => ⟨⟨rfl, rfl⟩, fun _ => ⟨rfl, rfl⟩⟩
  refine Does.bind (ends_sameRows hsame recordLocalReceipts_ends) ?_
  rintro _ db₁ ⟨-, husers, hclosures⟩
  rw [if_neg (by simp)]
  have huser : db₁.user closure.row.userId = db₀.user closure.row.userId := by
    unfold Db.user
    rw [husers]
  have hscrubbed : db₁.scrubbed env closure.row.userId = db₀.scrubbed env closure.row.userId := by
    unfold Db.scrubbed
    rw [huser]
  refine Does.bind (identityErased_again (herased.of_user huser)) ?_
  rintro erased db₂ ⟨rfl, hledger⟩
  have hrow₂ : db₂.closures.get? closure.pk = some row := by
    rw [show db₂.closures = db₁.closures from congrArg Ledger.closures hledger, hclosures, hrow]
  rw [hscrubbed]
  split
  · rename_i hleft
    refine does_ret.mpr ?_
    rw [Db.localDone, hrow₂, hleft, Option.any_some, hopen]
  · rename_i hgone
    refine does_bind.mpr (does_write.mpr ⟨⟨trivial, ?_⟩, fun h => h.elim⟩)
    refine does_bind.mpr (does_write.mpr ⟨⟨trivial, does_ret.mpr ?_⟩, fun h => h.elim⟩)
    have hdone := Table.get?_modify_self (·.finishLocal)
      (Table.get?_modify_self (·.eraseIdentity env.now) hrow₂)
    rw [Bool.not_eq_false] at hgone
    rw [hgone]
    show Option.any _ (Table.get? (Table.modify _ _ _) _) = true
    rw [hdone]
    rfl

/-- Finalization does not touch the flag. -/
theorem flipSteps_localDone {pk : Nat} :
    FlipSteps env fun _ a b => b.localDone pk = a.localDone pk where
  select _ := rfl
  certify _ _ := ⟨rfl, fun _ => rfl⟩
  query _ _ _ := rfl
  obligation _ _ _ := ⟨rfl, fun _ => rfl⟩
  delete k db := by
    refine ⟨rfl, fun waived => ?_⟩
    show Option.any _ ((db.closures.modify k _).get? pk) = Option.any _ _
    rw [Table.get?_modify]
    split
    · cases db.closures.get? pk <;> rfl
    · rfl

/-- **The retry.** Where nothing fails it sets the flag exactly when nothing identifying is
left. -/
theorem executeDeletion_again (hrow : db.closures.get? closure.pk = some closure.row)
    (hopen : closure.row.localErasureDone = false) (hfree : db.isHeld closure.row.userId = false)
    (hreferred : Referred closure.pk closure.row.userId db)
    (herased : Erased env closure.row.userId db) :
    ((executeDeletion env closure).run db).2.localDone closure.pk =
      db.scrubbed env closure.row.userId := by
  obtain ⟨row, id, hget, -, hid, i, r, hr, hcorr⟩ := hreferred
  obtain rfl : closure.row = row := Option.some.inj (hrow.symm.trans hget)
  have hends : Ends (fun _ db' => db'.localDone closure.pk = db.scrubbed env closure.row.userId)
      (fun _ db' => db'.localDone closure.pk = db.scrubbed env closure.row.userId)
      (executeDeletion env closure) db := by
    refine does_bind.mpr (ends_query.mpr ?_)
    rw [hfree, if_neg Bool.false_ne_true]
    refine does_bind.mpr (does_atomic.mpr ⟨⟨trivial, ?_⟩, fun h => h.elim⟩)
    rw [hid, Option.getD_some]
    refine does_bind.mpr (does_bind.mpr (ends_query.mpr ?_))
    -- the request of the first execution is found by the closure's correlation id
    cases hfound : Ledger.correlated _ id with
    | none => exact absurd (Table.first?_none.mp hfound i r hr) (by simp [hcorr])
    | some erasure =>
        refine does_ret.mpr ?_
        dsimp only
        rw [eraseSubject_eq, Prog.bind_assoc]
        refine Does.bind (storeReregistrationHashes_ends.post (fun _ _ h => h) ?_) ?_
        · exact fun _ _ h => h.elim
        rintro _ db₁ ⟨husers, hclosures⟩
        have huser : db₁.user closure.row.userId = db.user closure.row.userId := by
          unfold Db.user
          rw [husers]
        have hrow₁ : db₁.closures.get? closure.pk =
            some (closure.row.startDeleting id env.report.version) := by
          rw [hclosures]
          exact Table.get?_modify_self _ hrow
        have hscrubbed : db₁.scrubbed env closure.row.userId =
            db.scrubbed env closure.row.userId := by
          unfold Db.scrubbed
          rw [huser]
        have hstored := eraseStored_again
          ⟨closure.pk, closure.row.startDeleting id env.report.version⟩ id erasure hrow₁ hopen
          (herased.of_user huser)
        refine Does.bind (hstored.post (fun _ _ h => h) fun _ _ h => h.elim) ?_
        intro erased db₂ hflag
        cases erased with
        | none => exact does_ret.mpr (hflag.trans hscrubbed)
        | some erased =>
            have hkeeps : Always (fun _ a b => b.localDone closure.pk = a.localDone closure.pk)
                (maybeFinalize env erasure none) := maybeFinalize_always flipSteps_localDone
            have hfinal := hkeeps.within
              (I := fun db' => db'.localDone closure.pk = db.scrubbed env closure.row.userId)
              (fun _ _ hab ha => hab.trans ha) (hflag.trans hscrubbed)
            exact (hfinal.restrict fun _ h => h.elim).imp (fun _ _ _ _ => trivial)
              (fun _ _ h => h) fun _ _ h => h
  exact hends.run (fun _ _ h => h) fun _ _ h => h

/-- `s` is a state in which the execution of `closure` that left `t` is retried on `row`: the
flag is still unset, and the user's row is as it was. -/
structure Retried (closure : Stored AccountClosureRequest) (row : AccountClosureRequest)
    (t s : Db) : Prop where
  user : s.user closure.row.userId = t.user closure.row.userId
  referred : KeepsReferred closure.pk closure.row.userId t s
  loaded : s.closures.get? closure.pk = some row
  undone : row.localErasureDone = false
  free : s.isHeld closure.row.userId = false

/-- **Erasing again.** With an idempotent strategy, an erasure that has returned returns again
if and only if the row is gone or carries no identifying field any more, and an execution whose
emit failed comes to `local_erasure_done` when it is retried in exactly that case. -/
theorem retry_iff (hidem : env.idempotent) :
    (∀ (db t s : Db) (userId : UserId) (tr : List Op) (strategy : String),
      Runs (fun _ => True) (eraseIdentity env userId) db tr (.ret strategy) t →
      s.user userId = t.user userId →
      (((eraseIdentity env userId).run s).1.isOk = true ↔ s.scrubbed env userId = true)) ∧
    ∀ (db t s : Db) (closure : Stored AccountClosureRequest) (row : AccountClosureRequest)
      (now : Time) (tr : List Op) (p : Program Unit),
      db.closures.get? closure.pk = some closure.row →
      Runs (fun _ => True) (executeDeletion env closure) db tr p t →
      .localDoneUnit closure.pk ∈ tr → Retried closure row t s →
      (((executeDeletion { env with now := now } ⟨closure.pk, row⟩).run s).2.localDone closure.pk =
        true ↔ s.scrubbed env closure.row.userId = true) := by
  constructor
  · intro db t s userId tr strategy hrun hsame
    have herased := (eraseIdentity_erases hidem).returned hrun
    have hagain := ends_iff_run.mp (eraseIdentity_again (herased.of_user hsame))
    rcases hres : (eraseIdentity env userId).run s with ⟨result, s'⟩
    rw [hres] at hagain
    cases result with
    | ok strategy' => simp [Except.isOk, Except.toBool, hagain.1]
    | error e => simp [Except.isOk, Except.toBool, hagain.1]
  · intro db t s closure row now tr p hloaded hrun hreached hretried
    obtain ⟨hreferred, herased⟩ := executeDeletion_emits hidem hloaded hrun hreached
    obtain ⟨row', id, hget, huser, -⟩ := hretried.referred hreferred
    obtain rfl : row = row' := Option.some.inj (hretried.loaded.symm.trans hget)
    have herased' := herased.of_user hretried.user
    have hreferred' := hretried.referred hreferred
    have hfree := hretried.free
    rw [← huser] at hreferred' herased' hfree ⊢
    have hagain : ((executeDeletion { env with now := now } ⟨closure.pk, row⟩).run s).2.localDone
        closure.pk = s.scrubbed env row.userId :=
      executeDeletion_again hget hretried.undone hfree hreferred' herased'
    rw [hagain]

/-- The execution on day 30, whose last emit fails. -/
def emitFailed (env : Env) : Db :=
  ((executeDeletion env closed).runFault 15 .failure closing).2

/-- The closure's row it leaves. -/
def unfinished (env : Env) : AccountClosureRequest :=
  ((emitFailed env).closures.get? 0).getD closed.row

theorem retry_iff_scrubbed :
    ((eraseIdentity (deploymentOn 30) "u1").run
      ((eraseIdentity (deploymentOn 30) "u1").run closing).2).1.isOk = true ∧
    ((executeDeletion (deploymentOn 31) ⟨0, unfinished (deploymentOn 30)⟩).run
      (emitFailed (deploymentOn 30))).2.localDone 0 = true := by
  have hidem : (deploymentOn 30).idempotent := fun _ _ h => Option.some.inj h ▸ rfl
  have hfirst := runs_labels (fun _ => True) (eraseIdentity (deploymentOn 30) "u1") closing
  have hexecution := runs_labelsFault 15 .failure (executeDeletion (deploymentOn 30) closed) closing
  obtain ⟨herase, hexecute⟩ := retry_iff hidem
  constructor
  · exact (herase closing _ _ "u1" _ "anonymize" hfirst rfl).mpr (by decide +kernel)
  · refine (hexecute closing _ _ closed _ (days 31) _ _ (by decide +kernel) hexecution
      (by decide +kernel) ⟨rfl, id, ?_, ?_, ?_⟩).mpr ?_
    all_goals decide +kernel

/-- A host callable that puts a tombstone of the primary key in place of the address. -/
def tombstoned : Env :=
  { deploymentOn 30 with
    identityErasure := .custom "accounts.erase" fun user =>
      some { user with attrs := [("email", "deleted-" ++ user.id ++ "@deleted.invalid")] } }

/-- The second erasure finds the tombstone before and after, and raises: the retry never comes
to the flag. -/
theorem tombstone_survives :
    (¬ ∀ (env : Env) (db t s : Db) (userId : UserId) (tr : List Op) (strategy : String),
      env.idempotent → Runs (fun _ => True) (eraseIdentity env userId) db tr (.ret strategy) t →
      s.user userId = t.user userId → ((eraseIdentity env userId).run s).1.isOk = true) ∧
    ¬ ∀ (env : Env) (db t s : Db) (closure : Stored AccountClosureRequest)
      (row : AccountClosureRequest) (now : Time) (tr : List Op) (p : Program Unit),
      env.idempotent → db.closures.get? closure.pk = some closure.row →
      Runs (fun _ => True) (executeDeletion env closure) db tr p t →
      .localDoneUnit closure.pk ∈ tr → Retried closure row t s →
      ((executeDeletion { env with now := now } ⟨closure.pk, row⟩).run s).2.localDone closure.pk =
        true := by
  have hidem : tombstoned.idempotent := fun _ _ h => Option.some.inj h ▸ rfl
  constructor
  · intro hclaim
    have hfirst := runs_labels (fun _ => True) (eraseIdentity tombstoned "u1") closing
    have hsecond := hclaim tombstoned closing _ _ "u1" _ "accounts.erase" hidem hfirst rfl
    exact absurd hsecond (by decide +kernel)
  · intro hclaim
    have hexecution := runs_labelsFault 15 .failure (executeDeletion tombstoned closed) closing
    have hretried := hclaim tombstoned closing _ _ closed (unfinished tombstoned) (days 31) _ _
      hidem (by decide +kernel) hexecution (by decide +kernel)
      ⟨rfl, id, by decide +kernel, by decide +kernel, by decide +kernel⟩
    exact absurd hretried (by decide +kernel)

end StapelGdpr
