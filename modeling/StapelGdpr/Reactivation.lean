import StapelGdpr.Run

/-!
# StapelGdpr.Reactivation

What closing and cancelling do to the account between them. The initiation deactivates the
user row and finds nothing to do on one that is inactive already; the cancellation activates
it whatever it was. The pair therefore restores an account that was active, and only that one
(`restored_iff`).
-/

namespace StapelGdpr

open Prog

variable {env : Env} {db s t s' t' : Db} {userId : UserId}

/-- `is_active` of the user, if the row is there. -/
def Db.active (db : Db) (userId : UserId) : Option Bool := (db.user userId).map (·.isActive)

theorem user_map {users : List User} {f : User → User} (hid : ∀ u, (f u).id = u.id) :
    (users.map f).find? (·.id = userId) = (users.find? (·.id = userId)).map f := by
  induction users with
  | nil => rfl
  | cons u users ih =>
      rw [List.map_cons, List.find?_cons, List.find?_cons, hid, ih]
      split <;> rfl

/-- After `set_active` the row says so, if there is one. -/
theorem active_setActive (active : Bool) :
    (db.setActive userId active).2.active userId = (db.active userId).map fun _ => active := by
  unfold Db.setActive
  cases hu : db.user userId with
  | none => simp [Db.active, hu]
  | some user =>
      have hid : user.id = userId := by simpa using List.find?_some hu
      dsimp only
      split
      · rename_i hsame
        simp [Db.active, hu, hsame]
      · -- the row is found again under its id
        let flip : User → User := fun u =>
          if u.id = userId then { u with isActive := active } else u
        have hold : db.users.find? (·.id = userId) = some user := hu
        have hfind : (db.users.map flip).find? (·.id = userId) = some (flip user) := by
          rw [user_map (fun u => by dsimp only [flip]; split <;> rfl), hold, Option.map_some]
        have hflip : flip user = { user with isActive := active } := if_pos hid
        rw [hflip] at hfind
        change Option.map (·.isActive) ((db.users.map flip).find? (·.id = userId)) = _
        simp [hfind, Db.active, hu]

theorem active_emit (actions : List Action) : (db.emit actions).active userId = db.active userId :=
  rfl

/-- `set_active` reads nothing but user rows. -/
theorem users_setActive {a b : Db} {active : Bool} (h : b.users = a.users) :
    (b.setActive userId active).2.users = (a.setActive userId active).2.users := by
  unfold Db.setActive Db.user
  rw [h]
  cases a.users.find? (·.id = userId) with
  | none => exact h
  | some user =>
      dsimp only
      split
      · exact h
      · rfl

/-- A closure of the user is in its grace or being executed. -/
def Db.closing (db : Db) (userId : UserId) : Bool :=
  db.closures.any fun c => c.userId = userId && (c.status = .grace || c.status = .deleting)

/-- What the initiation of a closure finds and leaves. -/
structure Initiates (env : Env) (userId : UserId) (trigger : ClosureTrigger) (a b : Db) : Prop where
  unheld : a.isHeld userId = false
  free : a.closing userId = false
  closures : b.closures = a.closures.insert (newClosure env userId trigger)
  holds : b.holds = a.holds
  users : b.users = (a.setActive userId false).2.users

/-- Whatever fails, `initiate_closure` leaves the store alone or initiates one closure. -/
theorem initiateClosure_within {trigger : ClosureTrigger} {I : Db → Prop} (hnow : I db)
    (hinit : ∀ db', Initiates env userId trigger db db' → I db') :
    Within I (initiateClosure env userId trigger) db := by
  refine does_bind.mpr (does_query.mpr ⟨⟨hnow, ?_⟩, fun _ _ => ⟨hnow, hnow⟩⟩)
  cases hheld : db.isHeld userId with
  | true => exact does_raise.mpr hnow
  | false =>
      refine does_bind.mpr (does_query.mpr ⟨⟨hnow, ?_⟩, fun _ _ => ⟨hnow, hnow⟩⟩)
      show Does _ _ _ _ (if db.closing userId = true then _ else _) db
      cases hclosing : db.closing userId with
      | true => exact does_raise.mpr hnow
      | false =>
          refine does_atomic.mpr ⟨?_, fun _ _ => ⟨hnow, hnow⟩⟩
          split
          · rename_i r hr
            obtain ⟨⟨seam, revoked⟩, hrevoke, hret⟩ := ok_of_bind hr
            obtain rfl := Except.ok.inj hret
            have hdb := revokeSessions_ok hrevoke
            rw [setActive_eq] at hdb
            have hafter : I (revoked.emit [.deletionInitiated userId trigger
                (newClosure env userId trigger).graceEndsAt]) := by
              refine hinit _ ⟨hheld, hclosing, ?_, ?_, ?_⟩
              · rw [hdb]
                rfl
              · rw [hdb]
                rfl
              · rw [hdb]
                exact users_setActive rfl
            exact ⟨hafter, hafter⟩
          · exact ⟨hnow, hnow⟩

/-- A closure that was initiated leaves the user inactive. -/
theorem initiateClosure_deactivates {trigger : ClosureTrigger} :
    Does (fun _ => True) (fun _ _ _ => True)
      (fun _ s' => s'.active userId = (s.active userId).map fun _ => false) (fun _ _ => True)
      (initiateClosure env userId trigger) s := by
  refine does_bind.mpr (does_query.mpr ⟨⟨trivial, ?_⟩, fun _ _ => ⟨trivial, trivial⟩⟩)
  split
  · exact does_raise.mpr trivial
  refine does_bind.mpr (does_query.mpr ⟨⟨trivial, ?_⟩, fun _ _ => ⟨trivial, trivial⟩⟩)
  split
  · exact does_raise.mpr trivial
  · refine does_atomic.mpr ⟨?_, fun _ _ => ⟨trivial, trivial⟩⟩
    split
    · rename_i r hr
      refine ⟨trivial, ?_⟩
      obtain ⟨⟨seam, revoked⟩, hrevoked, hret⟩ := ok_of_bind hr
      obtain rfl := Except.ok.inj hret
      rw [active_emit, revokeSessions_ok hrevoked, active_emit, active_setActive]
      rfl
    · exact ⟨trivial, trivial⟩

/-- A closure that was cancelled leaves the user active. -/
theorem cancelClosure_activates :
    Does (fun _ => True) (fun _ _ _ => True)
      (fun _ s' => s'.active userId = (s.active userId).map fun _ => true) (fun _ _ => True)
      (cancelClosure env userId) s := by
  refine does_bind.mpr (does_query.mpr ⟨⟨trivial, ?_⟩, fun _ _ => ⟨trivial, trivial⟩⟩)
  split
  · exact does_raise.mpr trivial
  · refine does_atomic.mpr ⟨⟨trivial, ?_⟩, fun _ _ => ⟨trivial, trivial⟩⟩
    rw [active_emit, active_setActive]
    rfl

/-- **Exactly the active accounts are restored.** When a closure is initiated, and cancelled
after anything that left the flag alone, `is_active` is what it was if and only if the user
was not inactive before. -/
theorem restored_iff {env' : Env} {trigger : ClosureTrigger} {tr tr' : List Op}
    {closure closure' : Stored AccountClosureRequest}
    (hinit : Runs (fun _ => True) (initiateClosure env userId trigger) s tr (.ret closure) s')
    (hbetween : t.active userId = s'.active userId)
    (hcancel : Runs (fun _ => True) (cancelClosure env' userId) t tr' (.ret closure') t') :
    t'.active userId = s.active userId ↔ s.active userId ≠ some false := by
  have hinactive := initiateClosure_deactivates.returned hinit
  have hactive := cancelClosure_activates.returned hcancel
  rw [hactive, hbetween, hinactive]
  cases s.active userId with
  | none => simp
  | some was => cases was <;> simp

/-- The closed account, a day later. -/
def cancelledNextDay (db : Db) : Db := (Call.cancelClosure "u1").after (deploymentOn 1) db

theorem restored_iff_active : (cancelledNextDay closing).active "u1" =
    (storeOf [account]).active "u1" := by
  obtain ⟨closure, tr, hinit⟩ := runs_of_isOk (fun _ => True)
    (show ((initiateClosure deployment "u1" .manual).run (storeOf [account])).1.isOk = true by
      decide +kernel)
  obtain ⟨closure', tr', hcancel⟩ := runs_of_isOk (fun _ => True)
    (show ((cancelClosure (deploymentOn 1) "u1").run closing).1.isOk = true by decide +kernel)
  exact (restored_iff hinit rfl hcancel).mpr (by decide)

/-- An account that support has suspended. -/
def suspended : User := { account with isActive := false }

/-- Closing and cancelling activates it. -/
theorem suspended_activated : ¬ ∀ (env env' : Env) (userId : UserId) (trigger : ClosureTrigger)
    (s s' t t' : Db) (tr tr' : List Op) (closure closure' : Stored AccountClosureRequest),
    Runs (fun _ => True) (initiateClosure env userId trigger) s tr (.ret closure) s' →
    t.active userId = s'.active userId →
    Runs (fun _ => True) (cancelClosure env' userId) t tr' (.ret closure') t' →
    t'.active userId = s.active userId := by
  intro hclaim
  obtain ⟨closure, tr, hinit⟩ := runs_of_isOk (fun _ => True)
    (show ((initiateClosure deployment "u1" .platform).run (storeOf [suspended])).1.isOk = true by
      decide +kernel)
  obtain ⟨closure', tr', hcancel⟩ := runs_of_isOk (fun _ => True)
    (show ((cancelClosure (deploymentOn 1) "u1").run
      ((initiateClosure deployment "u1" .platform).run (storeOf [suspended])).2).1.isOk = true by
      decide +kernel)
  exact absurd (hclaim _ _ _ _ _ _ _ _ _ _ _ _ hinit rfl hcancel) (by decide)

end StapelGdpr
