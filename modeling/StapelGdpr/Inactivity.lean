import StapelGdpr.Tasks
import StapelGdpr.Reactivation

/-!
# StapelGdpr.Inactivity

`check_inactive_accounts` with its warning letters, over any schedule.

A call closes the accounts whose last login is a year old and asks for a warning where it lies
within twelve hours of sixty or fourteen days before that. The first test is open-ended and the
second is a window, so a closure follows its warnings only if earlier calls fell into both
windows (`warned_first`; a missed day is enough to lose one, `warning_missed`). Nothing but the
last login counts: cancelling a closure is no login, and an account that cancels without one is
closed again by the next call (`reopened_lapsed`, `reopened_next_day`).
-/

namespace StapelGdpr

open Prog

/-! ### The model -/

/-- The letter `gdpr.inactivity_warning`, as it was requested. -/
structure Warning where
  userId : UserId
  email : String
  daysRemaining : Int
  sentAt : Time
  deriving DecidableEq, Repr

/-- The orchestrator's store, with the `last_login` column of its users and the warnings that
were requested. -/
structure Watch where
  core : Db := {}
  lastLogin : UserId → Option Time := fun _ => none
  /-- Oldest first. -/
  warnings : List Warning := []

inductive WatchOp
  | select
  /-- A statement of `initiate_closure`, or of its guard. -/
  | core (op : Op)
  /-- `request_notification`. -/
  | warn (userId : UserId) (daysBefore : Int)
  deriving DecidableEq, Repr

/-- A call of the checker, with result `α`. -/
abbrev WatchProgram (α : Type) := Prog WatchOp Watch Error α

/-- A call of the orchestrator, made from the checker. -/
def WatchProgram.ofCore {α : Type} (p : Program α) : WatchProgram α :=
  p.lift Watch.core (fun core w => { w with core := core }) .core id id

/-- `last_login__lte=cutoff_close`. -/
def Watch.lapsed (w : Watch) (now : Time) (userId : UserId) : Bool :=
  (w.lastLogin userId).any (· ≤ now - days 365)

/-- `last_login__range=(window_start, window_end)`. -/
def inWarningWindow (now : Time) (daysBefore : Int) (lastLogin : Time) : Bool :=
  let cutoff := now - days (365 - daysBefore)
  cutoff - hours 12 ≤ lastLogin && lastLogin ≤ cutoff + hours 12

/-- `inactive_to_close`. -/
def Watch.inactiveToClose (w : Watch) (now : Time) : List User :=
  w.core.users.filter fun u => u.isActive && w.lapsed now u.id

/-- The users of one warning window. -/
def Watch.toWarn (w : Watch) (now : Time) (daysBefore : Int) : List User :=
  w.core.users.filter fun u =>
    u.isActive && (w.lastLogin u.id).any (inWarningWindow now daysBefore)

/-- `_send_inactivity_warn_60` and `_send_inactivity_warn_14`; an exception is logged and the
loop goes on. -/
def sendInactivityWarn (env : Env) (daysBefore : Int) (user : User) : WatchProgram PUnit :=
  (Prog.write (.warn user.id daysBefore) fun w =>
    { w with warnings := w.warnings ++
        [⟨user.id, (user.attr "email").getD "", daysBefore, env.now⟩] }).tryCatch fun _ => return ()

/-- One turn of the loop over the warnings. -/
def warnBefore (env : Env) (daysBefore : Int) : WatchProgram PUnit := do
  let users ← Prog.query .select (·.toWarn env.now daysBefore)
  users.forM (sendInactivityWarn env daysBefore)

/-- The turns of that loop. -/
def warningDays : List Int := [60, 14]

/-- `check_inactive_accounts`, less the letter that follows a closure. -/
def Watch.checkInactiveAccounts (env : Env) : WatchProgram PUnit := do
  let inactiveToClose ← Prog.query .select (·.inactiveToClose env.now)
  inactiveToClose.forM fun user => WatchProgram.ofCore (closeInactive env user)
  warningDays.forM (warnBefore env)

variable {env : Env} {w w' start : Watch} {userId : UserId} {daysBefore : Int} {lastLogin : Time}

/-! ### Whom a call closes -/

/-- The user has an active row and a last login a year old. -/
def Watch.inactive (w : Watch) (now : Time) (userId : UserId) : Bool :=
  w.core.users.any (fun u => u.id = userId && u.isActive) && w.lapsed now userId

/-- The closures that came are of users who are due, and whom nothing stood against at first. -/
structure OnlyDue (due : UserId → Prop) (a b : Db) : Prop where
  holds : b.holds = a.holds
  closing : ∀ userId, a.closing userId = true → b.closing userId = true
  fresh : ∀ pk c, a.closures.nextPk ≤ pk → b.closures.get? pk = some c →
    due c.userId ∧ a.isHeld c.userId = false ∧ a.closing c.userId = false

theorem OnlyDue.refl (due : UserId → Prop) (a : Db) : OnlyDue due a a where
  holds := rfl
  closing _ h := h
  fresh pk c hle hc := absurd hc (by simp [Table.get?_eq_none hle])

theorem isHeld_congr {a b : Db} (h : b.holds = a.holds) : b.isHeld userId = a.isHeld userId := by
  unfold Db.isHeld
  rw [h]

theorem OnlyDue.initiates {due : UserId → Prop} {a b c : Db} {trigger : ClosureTrigger}
    (h : OnlyDue due a b) (hdue : due userId) (hinit : Initiates env userId trigger b c) :
    OnlyDue due a c where
  holds := hinit.holds.trans h.holds
  closing other hclosing := by
    obtain ⟨pk, row, hrow, hmatch⟩ := Table.any_eq_true.mp (h.closing other hclosing)
    refine Table.any_eq_true.mpr ⟨pk, row, ?_, hmatch⟩
    rw [hinit.closures]
    exact Table.get?_insert_of_some _ hrow
  fresh pk row hle hrow := by
    rw [hinit.closures, Table.get?_insert] at hrow
    split at hrow
    · -- the new closure: what stands against it now stood against it then
      obtain rfl := Option.some.inj hrow
      have hunheld : a.isHeld userId = false := by rw [← isHeld_congr h.holds]; exact hinit.unheld
      refine ⟨hdue, hunheld, ?_⟩
      cases hclosing : a.closing userId with
      | false => exact hclosing
      | true => exact absurd (h.closing userId hclosing) (by simp [hinit.free])
    · exact h.fresh pk row hle hrow

theorem closeInactive_within {due : UserId → Prop} {a b : Db} {user : User} (h : OnlyDue due a b)
    (hdue : due user.id) : Within (OnlyDue due a) (closeInactive env user) b := by
  have hbody : Within (OnlyDue due a) (do
      let pending ← Program.select (·.closures.any fun c =>
        c.userId = user.id && (c.status = .grace || c.status = .deleting))
      if pending then return ()
      else do
        let _ ← initiateClosure env user.id .inactivity
        return ()) b := by
    refine does_bind.mpr (does_query.mpr ⟨⟨h, ?_⟩, fun _ _ => ⟨h, h⟩⟩)
    split
    · exact does_ret.mpr h
    · exact (initiateClosure_within h fun c hinit => h.initiates hdue hinit).bind
        fun _ _ h => does_ret.mpr h
  exact hbody.tryCatch fun _ _ h => does_ret.mpr h

/-- What asking for a warning changes: nothing but the list of warnings, which grows. -/
def Asks (a b : Watch) : Prop :=
  b.core = a.core ∧ b.lastLogin = a.lastLogin ∧ a.warnings ⊆ b.warnings

theorem Asks.refl (a : Watch) : Asks a a := ⟨rfl, rfl, fun _ h => h⟩

theorem Asks.trans {a b c : Watch} (h : Asks a b) (h' : Asks b c) : Asks a c :=
  ⟨h'.1.trans h.1, h'.2.1.trans h.2.1, List.Subset.trans h.2.2 h'.2.2⟩

theorem sendInactivityWarn_asks {user : User} :
    Always (fun _ a b => Asks a b) (sendInactivityWarn env daysBefore user) := by
  refine Always.tryCatch (.write fun w => ⟨.refl w, rfl, rfl, ?_⟩) fun _ => always_ret
  exact List.subset_append_left _ _

theorem warnBefore_asks : Always (fun _ a b => Asks a b) (warnBefore env daysBefore) :=
  (Always.query .refl).bind fun _ => .forM fun _ _ => sendInactivityWarn_asks

theorem WatchProgram.ofCore_within {α : Type} {p : Program α} {J : Db → Prop} {I : Watch → Prop}
    (h : Within J p w.core) (hI : ∀ core, J core → I { w with core := core }) :
    Within I (WatchProgram.ofCore p) w := by
  unfold WatchProgram.ofCore
  refine Within.lift ?_ ?_ ?_ h hI
  all_goals intros; rfl

/-- Whatever fails, a call closes only accounts that were due when it started, and logs nobody
in. -/
theorem checkInactiveAccounts_closes : Within (fun w' => w'.lastLogin = w.lastLogin ∧
    OnlyDue (fun userId => w.inactive env.now userId = true) w.core w'.core)
    (Watch.checkInactiveAccounts env) w := by
  have hnow : w.lastLogin = w.lastLogin ∧
      OnlyDue (fun userId => w.inactive env.now userId = true) w.core w.core := ⟨rfl, .refl _ _⟩
  refine does_bind.mpr (does_query.mpr ⟨⟨hnow, ?_⟩, fun _ _ => ⟨hnow, hnow⟩⟩)
  refine Within.bind (.forM (fun user hlisted w' hw' => ?_) hnow) fun _ w' hw' => ?_
  · -- a listed user is due
    have hdue : w.inactive env.now user.id = true := by
      obtain ⟨hrow, hmatch⟩ := List.mem_filter.mp hlisted
      obtain ⟨hactive, hlapsed⟩ := Bool.and_eq_true_iff.mp hmatch
      exact Bool.and_eq_true_iff.mpr ⟨List.any_eq_true.mpr ⟨user, hrow, by simp [hactive]⟩, hlapsed⟩
    exact WatchProgram.ofCore_within (closeInactive_within hw'.2 hdue) fun core hcore =>
      ⟨hw'.1, hcore⟩
  · refine .forM (fun daysBefore _ w'' hw'' => warnBefore_asks.within ?_ hw'') hw'
    intro a b hab ha
    exact ⟨hab.2.1.trans ha.1, by rw [hab.1]; exact ha.2⟩

/-! ### Whom a call warns -/

/-- The warning was requested at this moment. -/
def Watch.warned (w : Watch) (userId : UserId) (daysBefore : Int) (sentAt : Time) : Prop :=
  ∃ n ∈ w.warnings, n.userId = userId ∧ n.daysRemaining = daysBefore ∧ n.sentAt = sentAt

theorem Asks.warned {a b : Watch} {sentAt : Time} (h : Asks a b)
    (ha : a.warned userId daysBefore sentAt) : b.warned userId daysBefore sentAt := by
  obtain ⟨n, hn, hmatch⟩ := ha
  exact ⟨n, h.2.2 hn, hmatch⟩

/-- A turn of the loop warns every listed user whose letter does not fail. -/
theorem warnBefore_warns {may : WatchOp → Prop} {user : User}
    (hmay : ¬ may (.warn user.id daysBefore)) (huser : user ∈ w.toWarn env.now daysBefore) :
    Does may (fun _ _ _ => True) (fun _ w' => w'.warned user.id daysBefore env.now)
      (fun _ _ => True) (warnBefore env daysBefore) w := by
  refine does_bind.mpr (does_query.mpr ⟨⟨trivial, ?_⟩, fun _ _ => ⟨trivial, trivial⟩⟩)
  refine (Does.forM (J := fun rest w' => user ∈ rest ∨ w'.warned user.id daysBefore env.now) ?_
    (.inl huser)).post (fun _ w' h => h.resolve_left (List.not_mem_nil)) fun _ _ h => h
  intro other rest w' hw'
  refine does_tryCatch.mpr (does_write.mpr ⟨⟨trivial, ?_⟩, fun hfails e => ⟨trivial, ?_⟩⟩)
  · rcases hw' with hleft | hdone
    · rcases List.mem_cons.mp hleft with rfl | hleft
      · exact .inr ⟨_, List.mem_append_right _ (List.mem_singleton.mpr rfl), rfl, rfl, rfl⟩
      · exact .inl hleft
    · obtain ⟨n, hn, hmatch⟩ := hdone
      exact .inr ⟨n, List.mem_append_left _ hn, hmatch⟩
  · -- this letter failed, so it was another user's
    refine does_ret.mpr ?_
    rcases hw' with hleft | hdone
    · rcases List.mem_cons.mp hleft with rfl | hleft
      · exact absurd hfails hmay
      · exact .inl hleft
    · exact .inr hdone

theorem mem_setActive {db : Db} {user : User} {active : Bool} (hrow : user ∈ db.users)
    (hother : user.id ≠ userId) : user ∈ (db.setActive userId active).2.users := by
  unfold Db.setActive
  cases db.user userId with
  | none => exact hrow
  | some found =>
      dsimp only
      split
      · exact hrow
      · exact List.mem_map.mpr ⟨user, hrow, if_neg hother⟩

/-- Closing one account leaves the rows of the others. -/
theorem closeInactive_keepsRow {db : Db} {user closed : User} (hrow : user ∈ db.users)
    (hother : user.id ≠ closed.id) :
    Within (fun db' => user ∈ db'.users) (closeInactive env closed) db := by
  have hbody : Within (fun db' => user ∈ db'.users) (do
      let pending ← Program.select (·.closures.any fun c =>
        c.userId = closed.id && (c.status = .grace || c.status = .deleting))
      if pending then return ()
      else do
        let _ ← initiateClosure env closed.id .inactivity
        return ()) db := by
    refine does_bind.mpr (does_query.mpr ⟨⟨hrow, ?_⟩, fun _ _ => ⟨hrow, hrow⟩⟩)
    split
    · exact does_ret.mpr hrow
    · refine (initiateClosure_within hrow fun db' hinit => ?_).bind fun _ _ h => does_ret.mpr h
      rw [hinit.users]
      exact mem_setActive hrow hother
  exact hbody.tryCatch fun _ _ h => does_ret.mpr h

/-- Twelve hours of every warning are less than the days it comes before the closure. -/
theorem window_before_closing {now : Time} (hdays : daysBefore ∈ warningDays)
    (hwindow : inWarningWindow now daysBefore lastLogin = true) :
    now - days 365 < lastLogin ∧ lastLogin ≤ now := by
  have hhours : hours 12 = 43200000000 := by decide +kernel
  unfold inWarningWindow at hwindow
  rw [hhours] at hwindow
  obtain ⟨hlow, hhigh⟩ := Bool.and_eq_true_iff.mp hwindow
  have hlow := of_decide_eq_true hlow
  have hhigh := of_decide_eq_true hhigh
  have harith : ∀ n l k : Int, k = 60 ∨ k = 14 → n - (365 - k) * 86400000000 - 43200000000 ≤ l →
      l ≤ n - (365 - k) * 86400000000 + 43200000000 → n - 365 * 86400000000 < l ∧ l ≤ n := by
    intro n l k hk _ _
    rcases hk with rfl | rfl <;> omega
  exact harith now lastLogin daysBefore (by simpa [warningDays] using hdays) hlow hhigh

/-- The accounts that are closed are not those a window is about. -/
theorem closing_keepsRow {user : User} (hdays : daysBefore ∈ warningDays)
    (hrow : user ∈ w.core.users) (hlogin : w.lastLogin user.id = some lastLogin)
    (hwindow : inWarningWindow env.now daysBefore lastLogin = true) :
    Within (fun w' => w'.lastLogin = w.lastLogin ∧ user ∈ w'.core.users)
      ((w.inactiveToClose env.now).forM fun closed =>
        WatchProgram.ofCore (closeInactive env closed)) w := by
  refine .forM (fun closed hlisted w' hw' => ?_) ⟨rfl, hrow⟩
  have hother : user.id ≠ closed.id := by
    intro hsame
    have hlapsed := (Bool.and_eq_true_iff.mp (List.mem_filter.mp hlisted).2).2
    rw [← hsame, Watch.lapsed, hlogin] at hlapsed
    have hold : lastLogin ≤ env.now - days 365 := by simpa using hlapsed
    exact absurd (window_before_closing hdays hwindow).1 (Int.not_lt.mpr hold)
  exact WatchProgram.ofCore_within (closeInactive_keepsRow hw'.2 hother) fun core hcore =>
    ⟨hw'.1, hcore⟩

theorem warnBefore_does {may : WatchOp → Prop} : Does may (fun _ _ _ => True)
    (fun _ w' => Asks w w') (fun _ _ => True) (warnBefore env daysBefore) w := by
  have hwithin : Within (Asks w) (warnBefore env daysBefore) w :=
    warnBefore_asks.within (fun _ _ hab ha => ha.trans hab) (.refl w)
  exact (hwithin.restrict fun _ _ => trivial).imp (fun _ _ _ _ => trivial) (fun _ _ h => h)
    fun _ _ _ => trivial

/-- A call that returns has warned a user with an active row and a last login in the window, if
the letter did not fail. -/
theorem checkInactiveAccounts_warns {may : WatchOp → Prop} {user : User}
    (hdays : daysBefore ∈ warningDays) (hmay : ¬ may (.warn user.id daysBefore))
    (hrow : user ∈ w.core.users) (hactive : user.isActive = true)
    (hlogin : w.lastLogin user.id = some lastLogin)
    (hwindow : inWarningWindow env.now daysBefore lastLogin = true) :
    Does may (fun _ _ _ => True) (fun _ w' => w'.warned user.id daysBefore env.now)
      (fun _ _ => True) (Watch.checkInactiveAccounts env) w := by
  refine does_bind.mpr (does_query.mpr ⟨⟨trivial, ?_⟩, fun _ _ => ⟨trivial, trivial⟩⟩)
  have hclosing := closing_keepsRow hdays hrow hlogin hwindow
  refine Does.bind ((hclosing.restrict fun _ _ => trivial).imp (fun _ _ _ _ => trivial)
    (fun _ _ h => h) fun _ _ _ => trivial) fun _ w₁ hw₁ => ?_
  -- until its turn comes the user stays listed, and from then on the warning is there
  refine (Does.forM (J := fun rest w₂ => (w₂.lastLogin = w.lastLogin ∧ user ∈ w₂.core.users) ∧
    (daysBefore ∈ rest ∨ w₂.warned user.id daysBefore env.now)) ?_ ⟨hw₁, .inl hdays⟩).post
    (fun _ _ h => h.2.resolve_left List.not_mem_nil) fun _ _ h => h
  rintro turn rest w₂ ⟨hstands, hleft⟩
  have hturn : Does may (fun _ _ _ => True)
      (fun _ w₃ => daysBefore ∈ rest ∨ w₃.warned user.id daysBefore env.now) (fun _ _ => True)
      (warnBefore env turn) w₂ := by
    by_cases hsame : daysBefore = turn
    · subst hsame
      have hlisted : user ∈ w₂.toWarn env.now daysBefore := by
        refine List.mem_filter.mpr ⟨hstands.2, ?_⟩
        rw [hstands.1, hlogin]
        simp [hactive, hwindow]
      exact (warnBefore_warns hmay hlisted).post (fun _ _ h => .inr h) fun _ _ h => h
    · refine warnBefore_does.post (fun _ w₃ hasks => ?_) fun _ _ h => h
      rcases hleft with hleft | hdone
      · exact .inl ((List.mem_cons.mp hleft).resolve_left hsame)
      · exact .inr (hasks.warned hdone)
  refine (warnBefore_does.and hturn).imp (fun _ _ _ _ => trivial) ?_ fun _ _ _ => trivial
  rintro _ w₃ ⟨hasks, hdone⟩
  exact ⟨⟨hasks.2.1.trans hstands.1, by rw [hasks.1]; exact hstands.2⟩, hdone⟩

/-- A call takes no warning back. -/
theorem checkInactiveAccounts_keepsWarnings :
    Within (fun w' => w.warnings ⊆ w'.warnings) (Watch.checkInactiveAccounts env) w := by
  have hcalls : Always (fun _ a b => a.warnings ⊆ b.warnings)
      (Watch.checkInactiveAccounts env) := by
    have hclose : ∀ user, Always (fun _ a b => a.warnings ⊆ b.warnings)
        (WatchProgram.ofCore (closeInactive env user)) := fun user =>
      Always.lift (fun _ _ w => List.Subset.refl w.warnings)
        (fun _ w => List.Subset.refl w.warnings) _
    have hwarn : ∀ turn, Always (fun _ a b => a.warnings ⊆ b.warnings) (warnBefore env turn) :=
      fun turn => warnBefore_asks.mono fun _ _ _ h => h.2.2
    exact (Always.query fun w => List.Subset.refl w.warnings).bind fun _ =>
      Always.bind (.forM fun user _ => hclose user) fun _ => .forM fun turn _ => hwarn turn
  exact hcalls.within (fun _ _ hab ha => List.Subset.trans ha hab) (List.Subset.refl _)

/-! ### Any schedule -/

/-- One call of the checker: when it ran, what could fail in it, and whether it returned. -/
structure Visit where
  now : Time
  may : WatchOp → Prop
  returned : Bool
  before : Watch
  after : Watch

inductive WatchEvent
  | check (visit : Visit)
  /-- A closure of the user was cancelled. -/
  | cancelled (userId : UserId) (moment : Time)

/-- A run: calls of the checker at any times, which may fail or die anywhere, cancellations,
changes of a last login, and whatever else the orchestrator does. -/
inductive WatchRun (start : Watch) : List WatchEvent → Watch → Prop
  | start : WatchRun start [] start
  | check {log : List WatchEvent} {w w' : Watch} {env : Env} {may : WatchOp → Prop}
      {tr : List WatchOp} {p : WatchProgram PUnit} (h : WatchRun start log w) (returned : Bool)
      (hrun : Runs may (Watch.checkInactiveAccounts env) w tr p w')
      (hreturned : returned = true → p = .ret ⟨⟩) :
      WatchRun start (log ++ [.check ⟨env.now, may, returned, w, w'⟩]) w'
  | cancel {log : List WatchEvent} {w : Watch} {env : Env} {userId : UserId} {core' : Db}
      {tr : List Op} {closure : Stored AccountClosureRequest} (h : WatchRun start log w)
      (hrun : Runs (fun _ => True) (cancelClosure env userId) w.core tr (.ret closure) core') :
      WatchRun start (log ++ [.cancelled userId env.now]) { w with core := core' }
  | login {log : List WatchEvent} {w : Watch} (h : WatchRun start log w) (userId : UserId)
      (moment : Option Time) :
      WatchRun start log { w with lastLogin := Function.update w.lastLogin userId moment }
  | core {log : List WatchEvent} {w : Watch} {α : Type} {call p : Program α} {core' : Db}
      {tr : List Op} (h : WatchRun start log w)
      (hrun : Runs (fun _ => True) call w.core tr p core') :
      WatchRun start log { w with core := core' }

/-- The call started a closure of the user. -/
def Visit.closed (v : Visit) (userId : UserId) : Prop :=
  ∃ pk c, v.before.core.closures.nextPk ≤ pk ∧ v.after.core.closures.get? pk = some c ∧
    c.userId = userId

/-- The call finds the account due, and nothing against closing it. -/
def Visit.due (v : Visit) (userId : UserId) : Bool :=
  v.before.inactive v.now userId && !v.before.core.isHeld userId && !v.before.core.closing userId

/-- The call finds the account active in the window of a warning, and neither its letter nor the
call itself fails. -/
def Visit.forewarns (v : Visit) (userId : UserId) (lastLogin : Time) (daysBefore : Int) : Prop :=
  v.returned = true ∧ ¬ v.may (.warn userId daysBefore) ∧
    (∃ user ∈ v.before.core.users, user.id = userId ∧ user.isActive = true) ∧
    v.before.lastLogin userId = some lastLogin ∧
    inWarningWindow v.now daysBefore lastLogin = true

/-- What one call does. -/
structure Visit.Faithful (v : Visit) : Prop where
  closes : ∀ userId, v.closed userId → v.due userId = true
  warns : ∀ userId lastLogin, ∀ daysBefore ∈ warningDays,
    v.forewarns userId lastLogin daysBefore → v.after.warned userId daysBefore v.now

/-- What a run has recorded: its calls, and the warnings of each from then on. -/
structure Recorded (log : List WatchEvent) (w : Watch) : Prop where
  visits : ∀ earlier v later, log = earlier ++ .check v :: later → v.Faithful ∧
    ∀ v', .check v' ∈ earlier → v'.after.warnings ⊆ v.before.warnings
  kept : ∀ v, .check v ∈ log → v.after.warnings ⊆ w.warnings

theorem check_faithful {may : WatchOp → Prop} {tr : List WatchOp} {p : WatchProgram PUnit}
    {returned : Bool} (hrun : Runs may (Watch.checkInactiveAccounts env) w tr p w')
    (hreturned : returned = true → p = .ret ⟨⟩) :
    Visit.Faithful ⟨env.now, may, returned, w, w'⟩ where
  closes userId hclosed := by
    obtain ⟨pk, c, hle, hc, rfl⟩ := hclosed
    have hafter := checkInactiveAccounts_closes.reached (hrun.mono fun _ _ => trivial)
      ⟨rfl, .refl _ _⟩
    obtain ⟨hdue, hunheld, hfree⟩ := hafter.2.fresh pk c hle hc
    simp [Visit.due, hdue, hunheld, hfree]
  warns userId lastLogin daysBefore hdays hforewarns := by
    obtain ⟨hdone, hmay, ⟨user, hrow, rfl, hactive⟩, hlogin, hwindow⟩ := hforewarns
    obtain rfl := hreturned hdone
    exact (checkInactiveAccounts_warns hdays hmay hrow hactive hlogin hwindow).returned hrun

theorem Recorded.other {log : List WatchEvent} {e : WatchEvent} (h : Recorded log w)
    (hother : ∀ v, e ≠ .check v) (hsame : w'.warnings = w.warnings) :
    Recorded (log ++ [e]) w' where
  visits earlier v later hcut := by
    rcases cut_snoc hcut with ⟨-, hv⟩ | ⟨later', hcut'⟩
    · exact absurd hv.symm (hother v)
    · exact h.visits earlier v later' hcut'
  kept v hv := by
    rw [hsame]
    rcases List.mem_append.mp hv with hv | hv
    · exact h.kept v hv
    · exact absurd (List.mem_singleton.mp hv).symm (hother v)

theorem WatchRun.recorded {log : List WatchEvent} (h : WatchRun start log w) : Recorded log w := by
  induction h with
  | start => exact ⟨fun _ _ _ hcut => absurd hcut (by simp), fun _ hv => absurd hv (by simp)⟩
  | @check log w w' env may tr p _ returned hrun hreturned ih =>
      have hkeeps := checkInactiveAccounts_keepsWarnings.reached
        (hrun.mono fun _ _ => trivial) (List.Subset.refl w.warnings)
      constructor
      · intro earlier v later hcut
        rcases cut_snoc hcut with ⟨rfl, hv⟩ | ⟨later', hcut'⟩
        · obtain rfl := WatchEvent.check.inj hv
          exact ⟨check_faithful hrun hreturned, ih.kept⟩
        · exact ih.visits earlier v later' hcut'
      · intro v hv
        rcases List.mem_append.mp hv with hv | hv
        · exact List.Subset.trans (ih.kept v hv) hkeeps
        · obtain rfl := WatchEvent.check.inj (List.mem_singleton.mp hv)
          exact List.Subset.refl _
  | cancel _ _ ih => exact ih.other (fun _ => by simp) rfl
  | login _ _ _ ih => exact ⟨ih.visits, ih.kept⟩
  | core _ _ ih => exact ⟨ih.visits, ih.kept⟩

/-- Every call that finds an account to close comes after calls that found it in the window of
each warning, since the same login. -/
def Forewarned (log : List WatchEvent) : Prop :=
  ∀ earlier v later, log = earlier ++ .check v :: later → ∀ userId lastLogin,
    v.due userId = true → v.before.lastLogin userId = some lastLogin →
    ∀ daysBefore ∈ warningDays, ∃ v', .check v' ∈ earlier ∧ v'.forewarns userId lastLogin daysBefore

theorem Forewarned.snoc {log : List WatchEvent} {v : Visit} (h : Forewarned log)
    (hlast : ∀ userId lastLogin, v.due userId = true → v.before.lastLogin userId = some lastLogin →
      ∀ daysBefore ∈ warningDays, ∃ v', .check v' ∈ log ∧
        v'.forewarns userId lastLogin daysBefore) : Forewarned (log ++ [.check v]) := by
  intro earlier v' later hcut
  rcases cut_snoc hcut with ⟨rfl, hv⟩ | ⟨later', hcut'⟩
  · obtain rfl := WatchEvent.check.inj hv
    exact hlast
  · exact h earlier v' later' hcut'

theorem Visit.due_lastLogin {v : Visit} (h : v.due userId = true) :
    ∃ lastLogin, v.before.lastLogin userId = some lastLogin ∧ lastLogin ≤ v.now - days 365 := by
  unfold Visit.due Watch.inactive Watch.lapsed at h
  simp only [Bool.and_eq_true] at h
  obtain ⟨lastLogin, hlogin, hold⟩ := (Option.any_eq_true ..).mp h.1.1.2
  exact ⟨lastLogin, hlogin, of_decide_eq_true hold⟩

/-- **Warnings come first.** When every account a call finds to close was found in both windows
by calls before it, every closure a call starts comes after both its warnings, requested since
the last login. -/
theorem warned_first {log : List WatchEvent} (h : WatchRun start log w)
    (hforewarned : Forewarned log) {earlier later : List WatchEvent} {v : Visit}
    (hcut : log = earlier ++ .check v :: later) (hclosed : v.closed userId) :
    ∃ lastLogin, v.before.lastLogin userId = some lastLogin ∧ ∀ daysBefore ∈ warningDays,
      ∃ v', .check v' ∈ earlier ∧ lastLogin ≤ v'.now ∧
        v.before.warned userId daysBefore v'.now := by
  obtain ⟨hfaithful, hkept⟩ := h.recorded.visits earlier v later hcut
  have hdue := hfaithful.closes userId hclosed
  obtain ⟨lastLogin, hlogin, -⟩ := Visit.due_lastLogin hdue
  refine ⟨lastLogin, hlogin, fun daysBefore hdays => ?_⟩
  obtain ⟨v', hv', hforewarns⟩ := hforewarned earlier v later hcut userId lastLogin hdue hlogin
    daysBefore hdays
  obtain ⟨earlier', later', rfl⟩ := List.mem_iff_append.mp hv'
  have hcut' : log = earlier' ++ .check v' :: (later' ++ .check v :: later) := by rw [hcut]; simp
  obtain ⟨hfaithful', -⟩ := h.recorded.visits earlier' v' _ hcut'
  obtain ⟨n, hn, hmatch⟩ := hfaithful'.warns userId lastLogin daysBefore hdays hforewarns
  exact ⟨v', hv', (window_before_closing hdays hforewarns.2.2.2.2).2, n, hkept v' hv' hn, hmatch⟩

/-- **Nobody is closed before the last login is a year old.** In every run, whatever was
cancelled before, a call starts a closure only for a user whose last login, as it finds it, is
365 days back; so none within 365 days of a cancellation the user has logged in since. -/
theorem reopened_lapsed {log earlier later : List WatchEvent} {v : Visit}
    (h : WatchRun start log w) (hcut : log = earlier ++ .check v :: later)
    (hclosed : v.closed userId) :
    ∃ lastLogin, v.before.lastLogin userId = some lastLogin ∧ lastLogin + days 365 ≤ v.now ∧
      ∀ moment, .cancelled userId moment ∈ earlier → moment ≤ lastLogin →
        moment + days 365 ≤ v.now := by
  obtain ⟨hfaithful, -⟩ := h.recorded.visits earlier v later hcut
  obtain ⟨lastLogin, hlogin, hold⟩ := Visit.due_lastLogin (hfaithful.closes userId hclosed)
  have harith : ∀ l m n k : Int, l ≤ n - k → (m ≤ l → m + k ≤ n) ∧ l + k ≤ n := by
    intro l m n k _
    omega
  exact ⟨lastLogin, hlogin, (harith _ 0 _ _ hold).2, fun moment _ => (harith _ moment _ _ hold).1⟩

/-! ### Two schedules of one account -/

/-- The account of the first deployment, logged in at the epoch and never since. -/
def dormant : Watch where
  core := storeOf [account]
  lastLogin userId := if userId = "u1" then some 0 else none

/-- What a call on this day leaves, when nothing fails. -/
def Watch.visited (w : Watch) (day : Int) : Watch :=
  ((Watch.checkInactiveAccounts (deploymentOn day)).run w).2

/-- The call. -/
def Watch.visit (w : Watch) (day : Int) : Visit where
  now := days day
  may _ := False
  returned := true
  before := w
  after := w.visited day

theorem WatchRun.visit {log : List WatchEvent} (h : WatchRun start log w) (day : Int)
    (hok : ((Watch.checkInactiveAccounts (deploymentOn day)).run w).1.isOk = true) :
    WatchRun start (log ++ [.check (w.visit day)]) (w.visited day) := by
  obtain ⟨a, tr, hrun⟩ := runs_of_isOk (fun _ => False) hok
  exact h.check true hrun fun _ => rfl

theorem lastLogin_visited (day : Int) : (w.visited day).lastLogin = w.lastLogin := by
  obtain ⟨tr, hrun⟩ := runs_run (fun _ => True)
    (Watch.checkInactiveAccounts (deploymentOn day)) w
  exact (checkInactiveAccounts_closes.reached hrun ⟨rfl, .refl _ _⟩).1

theorem dormant_login {lastLogin : Time} (hsame : w.lastLogin = dormant.lastLogin)
    (h : w.lastLogin userId = some lastLogin) : userId = "u1" ∧ lastLogin = 0 := by
  rw [hsame] at h
  change (if userId = "u1" then some (0 : Time) else none) = some lastLogin at h
  split at h
  · exact ⟨‹_›, (Option.some.inj h).symm⟩
  · exact absurd h (by simp)

theorem closed_visit {day : Int} (hrow : ((w.visited day).core.closures.get?
    w.core.closures.nextPk).map (·.userId) = some userId) : (w.visit day).closed userId := by
  obtain ⟨c, hc, huser⟩ := Option.map_eq_some_iff.mp hrow
  exact ⟨_, c, Nat.le_refl _, hc, huser⟩

/-- Runs on the days of the two warnings. -/
def warnedTwice : Watch := (dormant.visited 305).visited 351

theorem warnedTwice_run : WatchRun dormant
    [.check (dormant.visit 305), .check ((dormant.visited 305).visit 351)] warnedTwice :=
  (WatchRun.start.visit 305 (by decide +kernel)).visit 351 (by decide +kernel)

theorem lastLogin_warnedTwice : warnedTwice.lastLogin = dormant.lastLogin :=
  (lastLogin_visited 351).trans (lastLogin_visited 305)

/-- On those days the account is not due yet. -/
theorem warnedTwice_forewarned : Forewarned
    [.check (dormant.visit 305), .check ((dormant.visited 305).visit 351)] := by
  have hnone : Forewarned [] := fun earlier v later hcut => absurd hcut (by simp)
  have hfirst : (dormant.visit 305).due "u1" = false := by decide +kernel
  have hsecond : ((dormant.visited 305).visit 351).due "u1" = false := by decide +kernel
  have hone : Forewarned [.check (dormant.visit 305)] := by
    refine hnone.snoc fun userId lastLogin hdue hlogin => ?_
    obtain ⟨rfl, -⟩ := dormant_login rfl hlogin
    exact absurd hdue (by simp [hfirst])
  refine hone.snoc fun userId lastLogin hdue hlogin => ?_
  obtain ⟨rfl, -⟩ := dormant_login (lastLogin_visited 305) hlogin
  exact absurd hdue (by simp [hsecond])

/-- The account is closed a year after its login, warned both times. -/
theorem warned_first_twice : ∃ lastLogin, warnedTwice.lastLogin "u1" = some lastLogin ∧
    ∀ daysBefore ∈ warningDays, ∃ v',
      .check v' ∈ [WatchEvent.check (dormant.visit 305), .check ((dormant.visited 305).visit 351)] ∧
        lastLogin ≤ v'.now ∧ warnedTwice.warned "u1" daysBefore v'.now := by
  have hrun := warnedTwice_run.visit 365 (by decide +kernel)
  have hclosed : (warnedTwice.visit 365).closed "u1" :=
    closed_visit (by decide +kernel)
  refine warned_first hrun (warnedTwice_forewarned.snoc fun userId lastLogin _ hlogin => ?_)
    rfl hclosed
  obtain ⟨rfl, rfl⟩ := dormant_login lastLogin_warnedTwice hlogin
  intro daysBefore hdays
  rcases List.mem_cons.mp hdays with rfl | hdays
  · exact ⟨_, List.mem_cons_self .., rfl, not_false, ⟨account, by decide +kernel, rfl, rfl⟩, rfl,
      by decide +kernel⟩
  · obtain rfl := List.mem_singleton.mp hdays
    refine ⟨_, List.mem_cons_of_mem _ (List.mem_cons_self ..), rfl, not_false,
      ⟨account, by decide +kernel, rfl, rfl⟩, ?_, by decide +kernel⟩
    exact congrFun (lastLogin_visited 305) "u1"

/-- The same days but for the 305th, which is missed. -/
def warnedOnce : Watch := ((dormant.visited 304).visited 306).visited 351

theorem warnedOnce_run : WatchRun dormant
    [.check (dormant.visit 304), .check ((dormant.visited 304).visit 306),
      .check (((dormant.visited 304).visited 306).visit 351)] warnedOnce :=
  ((WatchRun.start.visit 304 (by decide +kernel)).visit 306 (by decide +kernel)).visit 351
    (by decide +kernel)

/-- The account is closed with one warning. -/
theorem warning_missed : ¬ ∀ (start w : Watch) (log earlier later : List WatchEvent) (v : Visit)
    (userId : UserId), WatchRun start log w → log = earlier ++ .check v :: later →
    v.closed userId → ∃ lastLogin, v.before.lastLogin userId = some lastLogin ∧
      ∀ daysBefore ∈ warningDays, ∃ v', .check v' ∈ earlier ∧ lastLogin ≤ v'.now ∧
        v.before.warned userId daysBefore v'.now := by
  intro hclaim
  have hclosed : (warnedOnce.visit 365).closed "u1" :=
    closed_visit (by decide +kernel)
  obtain ⟨_, -, hwarned⟩ := hclaim _ _ _ _ [] _ _ (warnedOnce_run.visit 365 (by decide +kernel))
    rfl hclosed
  obtain ⟨v', -, -, n, hn, -, hdays, -⟩ := hwarned 60 (by decide)
  have hnone : warnedOnce.warnings.all (·.daysRemaining ≠ 60) = true := by decide +kernel
  exact absurd hdays (of_decide_eq_true (List.all_eq_true.mp hnone n hn))

/-- The account was closed on day 365, and its owner cancels without logging in. -/
def cancelledOnce : Watch :=
  { dormant.visited 365 with
    core := ((cancelClosure (deploymentOn 366) "u1").run (dormant.visited 365).core).2 }

theorem cancelledOnce_run : WatchRun dormant
    [.check (dormant.visit 365), .cancelled "u1" (days 366)] cancelledOnce := by
  obtain ⟨closure, tr, hcancel⟩ := runs_of_isOk (fun _ => True)
    (show ((cancelClosure (deploymentOn 366) "u1").run
      (dormant.visited 365).core).1.isOk = true by decide +kernel)
  exact (WatchRun.start.visit 365 (by decide +kernel)).cancel hcancel

/-- The next call closes it again. -/
theorem reopened_next_day : ¬ ∀ (start w : Watch) (log earlier between later : List WatchEvent)
    (v : Visit) (userId : UserId) (moment : Time), WatchRun start log w →
    log = earlier ++ .cancelled userId moment :: (between ++ .check v :: later) →
    v.now < moment + days 365 → ¬ v.closed userId := by
  intro hclaim
  have hclosed : (cancelledOnce.visit 367).closed "u1" :=
    closed_visit (by decide +kernel)
  exact hclaim _ _ _ [.check (dormant.visit 365)] [] [] _ "u1" (days 366)
    (cancelledOnce_run.visit 367 (by decide +kernel)) rfl (by decide +kernel) hclosed

/-- Two days after the first closure the last login is still the one at the epoch. -/
theorem reopened_lapsed_dormant : ∃ lastLogin,
    cancelledOnce.lastLogin "u1" = some lastLogin ∧ lastLogin + days 365 ≤ days 367 ∧
      ∀ moment, .cancelled "u1" moment ∈
        [WatchEvent.check (dormant.visit 365), .cancelled "u1" (days 366)] → moment ≤ lastLogin →
        moment + days 365 ≤ days 367 :=
  reopened_lapsed (cancelledOnce_run.visit 367 (by decide +kernel))
    rfl (closed_visit (by decide +kernel))

end StapelGdpr
