import StapelGdpr.Statements

/-!
# StapelGdpr.LiveClosures

At most one closure of a user is in GRACE or DELETING, as far as the code sees to it. Nothing
in the store does: `initiate_closure` looks before its transaction and not in it, and
`execute_deletion` writes DELETING without looking at all. So two callers that both looked
leave two live closures (`two_live_closures`), and what holds is `one_live_closure`: a run in
which no closure of the user becomes live between a call's look and its write has one live closure
at every moment.
-/

namespace StapelGdpr

open Prog

/-! ### What a statement does to the closures -/

/-- The closure rows a statement writes, on any store and whatever the call has read before. -/
def ClosureEffect (env : Env) (op : Op) (a b : Db) : Prop :=
  b.closures = a.closures ∨
  match op with
  | .closureUnit userId => ∃ trigger, b.closures = a.closures.insert (newClosure env userId trigger)
  | .startDeleting pk => ∃ id,
      b.closures = a.closures.modify pk (·.startDeleting id env.report.version)
  | .cancelUnit pk => b.closures = a.closures.modify pk (·.cancel env.now)
  | .identityErased pk => b.closures = a.closures.modify pk (·.eraseIdentity env.now)
  | .localDoneUnit pk => b.closures = a.closures.modify pk (·.finishLocal)
  | .closureDeleted pk => ∃ waived, b.closures = a.closures.modify pk (·.delete env.now waived)
  | _ => False

variable {env : Env} {op : Op} {a b db : Db} {userId : UserId}

theorem ClosureEffect.of_closures (h : b.closures = a.closures) : ClosureEffect env op a b := .inl h

theorem ClosureEffect.same (a : Db) : ClosureEffect env op a a := .inl rfl

theorem ClosureEffect.openErasure {st sk : String} {args : ErasureArgs}
    {request : Stored ErasureRequest} (h : a.openErasure env st sk args = .ok (request, b)) :
    ClosureEffect env op a b := by
  obtain ⟨by', -, -, -, -, hdb⟩ := openErasure_ok h
  exact .of_closures (by rw [hdb])

theorem flipSteps_closureEffect : FlipSteps env (ClosureEffect env) where
  select := .same
  certify _ db := ⟨.same db, fun _ => .of_closures rfl⟩
  query _ _ := .same
  obligation _ _ db := ⟨.same db, fun _ => .of_closures rfl⟩
  delete _ db := ⟨.same db, fun waived => .inr ⟨waived, rfl⟩⟩

theorem localSteps_closureEffect {pk : Nat} : LocalSteps env pk userId (ClosureEffect env) where
  select := .same
  storeHash _ _ := .of_closures rfl
  anonymize _ := .same
  delete _ := .same
  localReceipt _ db := ⟨.same db, fun _ => .of_closures rfl⟩
  eraseIdentity _ _ := .of_closures rfl
  identityErased db := ⟨.same db, .inr rfl⟩
  localDone db := ⟨.same db, fun _ _ => .inr rfl⟩

theorem initiateClosure_effect {trigger : ClosureTrigger} :
    Always (ClosureEffect env) (initiateClosure env userId trigger) := by
  refine (always_select .same).bind fun held => ?_
  split
  · exact always_raise
  · refine (always_select .same).bind fun pending => ?_
    split
    · exact always_raise
    · refine .atomic fun db => ⟨.same db, fun closure db' hok => ?_⟩
      obtain ⟨⟨seam, revoked⟩, hrevoke, hrest⟩ := ok_of_bind hok
      obtain ⟨-, rfl⟩ := Prod.mk.inj (Except.ok.inj hrest)
      rw [revokeSessions_ok hrevoke, setActive_eq]
      exact .inr ⟨trigger, rfl⟩

theorem cancelClosure_effect : Always (ClosureEffect env) (cancelClosure env userId) := by
  refine (always_select .same).bind fun found => ?_
  cases found with
  | none => exact always_raise
  | some closure =>
      refine .atomic fun db => ⟨.same db, fun _ db' hok => ?_⟩
      obtain ⟨-, rfl⟩ := Prod.mk.inj (Except.ok.inj hok)
      rw [setActive_eq]
      exact .inr rfl

theorem executeDeletion_effect {closure : Stored AccountClosureRequest} :
    Always (ClosureEffect env) (executeDeletion env closure) :=
  executeDeletion_always
    (startDeleting_always fun db => ⟨.same db, .inr ⟨_, rfl⟩⟩)
    (fun _ => closureErasure_always .same fun db => ⟨.same db, fun _ _ h => .openErasure h⟩)
    localSteps_closureEffect flipSteps_closureEffect

theorem processExpiredGracePeriods_effect :
    Always (ClosureEffect env) (processExpiredGracePeriods env) :=
  (always_select .same).bind fun _ => Always.forM fun _ _ =>
    executeDeletion_effect.tryCatch fun _ => always_ret

theorem checkInactiveAccounts_effect {lapsed : User → Bool} :
    Always (ClosureEffect env) (checkInactiveAccounts env lapsed) := by
  refine (always_select .same).bind fun users => Always.forM fun user _ => ?_
  refine Always.tryCatch ((always_select .same).bind fun pending => ?_) fun _ => always_ret
  split
  · exact always_ret
  · exact initiateClosure_effect.bind fun _ => always_ret

/-! ### The callers -/

/-- Who starts, cancels and executes closures. -/
inductive ClosureCaller
  /-- `POST /user/account/close`, and the wiring of a DSAR. -/
  | initiate (userId : UserId) (trigger : ClosureTrigger)
  /-- `check_inactive_accounts`. -/
  | inactivity (lapsed : User → Bool)
  | cancel (userId : UserId)
  /-- `process_expired_grace_periods`. -/
  | worker
  /-- `execute_deletion` on a closure object loaded at any time. -/
  | execute (closure : Stored AccountClosureRequest)

def ClosureCaller.prog (env : Env) : ClosureCaller → Program Unit
  | initiate userId trigger => discard (initiateClosure env userId trigger)
  | inactivity lapsed => checkInactiveAccounts env lapsed
  | cancel userId => discard (cancelClosure env userId)
  | worker => processExpiredGracePeriods env
  | execute closure => executeDeletion env closure

theorem ClosureCaller.effect (env : Env) (caller : ClosureCaller) :
    Always (ClosureEffect env) (caller.prog env) := by
  unfold ClosureCaller.prog
  cases caller with
  | initiate => exact initiateClosure_effect.bind fun _ => always_ret
  | inactivity => exact checkInactiveAccounts_effect
  | cancel => exact cancelClosure_effect.bind fun _ => always_ret
  | worker => exact processExpiredGracePeriods_effect
  | execute => exact executeDeletion_effect

/-- The callers side by side, each under its own environment. -/
def callers {κ : Type} (calls : κ → Env × ClosureCaller) : Pool Op Db Error Unit κ :=
  fun k => (calls k).2.prog (calls k).1

variable {κ : Type} [DecidableEq κ] {calls : κ → Env × ClosureCaller} {start : Db}
  {tr : List (Pool.Event κ Op Db)} {P : Pool Op Db Error Unit κ}

theorem callers_effect (hrun : Pool.Runs (fun _ _ => True) (callers calls) start tr P db) :
    ∀ e ∈ tr, ClosureEffect (calls e.thread).1 e.label e.before e.after := by
  have hsafe : Pool.Safe (fun _ _ _ => True) (fun _ _ => True)
      (fun k op a b _ => ClosureEffect (calls k).1 op a b) (fun _ _ _ => True) (fun _ _ _ => True)
      (callers calls) start := fun k => ((calls k).2.effect (calls k).1).safe
  obtain ⟨-, hall⟩ := hrun.safe (R := fun _ _ _ => True) (fun _ _ => trivial)
    (fun _ _ _ _ _ _ => trivial) (H := fun _ => True) (fun _ _ _ _ _ _ => trivial) hsafe
    fun _ _ => trivial
  intro e he
  obtain ⟨-, h⟩ := hall e he
  exact h

/-! ### One live closure -/

/-- GRACE or DELETING. -/
def AccountClosureRequest.isLive (c : AccountClosureRequest) : Bool :=
  c.status = .grace || c.status = .deleting

/-- At most one closure of the user is live. -/
def OneLive (userId : UserId) (l : Ledger) : Prop :=
  ∀ i j c c', l.closures.get? i = some c → l.closures.get? j = some c' →
    c.userId = userId → c'.userId = userId → c.isLive = true → c'.isLive = true → i = j

/-- The keys of the live closures of the user. -/
def Ledger.live (l : Ledger) (userId : UserId) : List Nat :=
  (l.closures.select fun c => c.userId = userId && c.isLive).map (·.pk)

theorem mem_live {l : Ledger} {i : Nat} : i ∈ l.live userId ↔
    ∃ c, l.closures.get? i = some c ∧ c.userId = userId ∧ c.isLive = true := by
  unfold Ledger.live
  rw [List.mem_map]
  constructor
  · rintro ⟨o, ho, rfl⟩
    obtain ⟨hget, hlive⟩ := Table.mem_select.mp ho
    exact ⟨o.row, hget, by simpa using hlive⟩
  · rintro ⟨c, hc, hu, hlive⟩
    exact ⟨⟨i, c⟩, Table.mem_select.mpr ⟨hc, by simp [hu, hlive]⟩, rfl⟩

/-- A row whose write makes nothing live. -/
theorem OneLive.modify {pk : Nat} {f : AccountClosureRequest → AccountClosureRequest}
    (hs : OneLive userId a.toLedger) (hb : b.closures = a.closures.modify pk f)
    (hf : ∀ c, (f c).userId = c.userId ∧ ((f c).isLive = true → c.isLive = true)) :
    OneLive userId b.toLedger := by
  have hold : ∀ i c', b.closures.get? i = some c' → ∃ c, a.closures.get? i = some c ∧
      c'.userId = c.userId ∧ (c'.isLive = true → c.isLive = true) := by
    intro i c' hc'
    rw [hb, Table.get?_modify] at hc'
    by_cases hi : i = pk
    · rw [if_pos hi] at hc'
      obtain ⟨c, hc, rfl⟩ := Option.map_eq_some_iff.mp hc'
      exact ⟨c, hc, hf c⟩
    · rw [if_neg hi] at hc'
      exact ⟨c', hc', rfl, id⟩
  intro i j c₁ c₂ h₁ h₂ hu₁ hu₂ hl₁ hl₂
  obtain ⟨q₁, hq₁, hqu₁, hql₁⟩ := hold i c₁ h₁
  obtain ⟨q₂, hq₂, hqu₂, hql₂⟩ := hold j c₂ h₂
  exact hs i j q₁ q₂ hq₁ hq₂ (hqu₁.symm.trans hu₁) (hqu₂.symm.trans hu₂) (hql₁ hl₁) (hql₂ hl₂)

/-- A row that becomes live when no other is. -/
theorem OneLive.revive {a b : Db} (pk : Nat)
    (hother : ∀ i c, a.closures.get? i = some c → c.userId = userId → c.isLive = true → i = pk)
    (hb : ∀ i c, b.closures.get? i = some c → i ≠ pk → a.closures.get? i = some c) :
    OneLive userId b.toLedger := by
  have honly : ∀ i c, b.closures.get? i = some c → c.userId = userId → c.isLive = true → i = pk := by
    intro i c hc hu hlive
    by_contra hi
    exact hi (hother i c (hb i c hc hi) hu hlive)
  intro i j c₁ c₂ h₁ h₂ hu₁ hu₂ hl₁ hl₂
  exact (honly i c₁ h₁ hu₁ hl₁).trans (honly j c₂ h₂ hu₂ hl₂).symm

/-- The user's rows are as they were. -/
theorem OneLive.others (hs : OneLive userId a.toLedger)
    (hb : ∀ i c, b.closures.get? i = some c → c.userId = userId → a.closures.get? i = some c) :
    OneLive userId b.toLedger := by
  intro i j c₁ c₂ h₁ h₂ hu₁ hu₂
  exact hs i j c₁ c₂ (hb i c₁ h₁ hu₁) (hb j c₂ h₂ hu₂) hu₁ hu₂

/-- A new closure, when its user has no live one. -/
theorem OneLive.insert {c : AccountClosureRequest} (hs : OneLive userId a.toLedger)
    (hb : b.closures = a.closures.insert c) (hfree : c.userId = userId → a.live userId = []) :
    OneLive userId b.toLedger := by
  by_cases hu : c.userId = userId
  · refine .revive a.closures.nextPk (fun i q hq hqu hlive =>
      absurd (mem_live.mpr ⟨q, hq, hqu, hlive⟩) (by rw [hfree hu]; exact List.not_mem_nil))
      fun i q hq hi => ?_
    rwa [hb, Table.get?_insert, if_neg hi] at hq
  · refine hs.others fun i q hq hqu => ?_
    rw [hb, Table.get?_insert] at hq
    by_cases hi : i = a.closures.nextPk
    · rw [if_pos hi] at hq
      obtain rfl := Option.some.inj hq
      exact absurd hqu hu
    · rwa [if_neg hi] at hq

/-- The row is another user's, or no other closure of the user is live. -/
def Sole (userId : UserId) (pk : Nat) (db : Db) : Prop :=
  (∃ c, db.closures.get? pk = some c ∧ c.userId ≠ userId) ∨ ∀ i ∈ db.live userId, i = pk

/-- A write of DELETING, on a row of another user or beside no live one. -/
theorem OneLive.deleting {pk : Nat} {id : Uuid} {version : String} (hs : OneLive userId a.toLedger)
    (hb : b.closures = a.closures.modify pk (·.startDeleting id version))
    (hsole : Sole userId pk a) : OneLive userId b.toLedger := by
  rcases hsole with ⟨c, hc, hother⟩ | hsole
  · refine hs.others fun i q hq hqu => ?_
    rw [hb, Table.get?_modify] at hq
    by_cases hi : i = pk
    · rw [if_pos hi, hi, hc] at hq
      obtain rfl := Option.some.inj hq
      exact absurd hqu hother
    · rwa [if_neg hi] at hq
  · refine @OneLive.revive userId a b pk (fun i q hq hqu hlive => ?_) fun i q hq hi => ?_
    · exact hsole i (mem_live.mpr ⟨q, hq, hqu, hlive⟩)
    · rwa [hb, Table.get?_modify_of_ne _ hi] at hq

/-- **One statement.** -/
theorem OneLive.step (hs : OneLive userId a.toLedger) (heffect : ClosureEffect env op a b)
    (hinsert : op = .closureUnit userId → a.live userId = [])
    (hdelete : ∀ pk, op = .startDeleting pk → Sole userId pk a) : OneLive userId b.toLedger := by
  rcases heffect with heq | heffect
  · exact hs.others fun i c hc _ => heq ▸ hc
  · cases op with
    | closureUnit u =>
        obtain ⟨trigger, hb⟩ := heffect
        exact hs.insert hb fun hu => hinsert (congrArg Op.closureUnit hu)
    | startDeleting pk =>
        obtain ⟨id, hb⟩ := heffect
        exact hs.deleting hb (hdelete pk rfl)
    | cancelUnit pk =>
        exact hs.modify heffect fun c => ⟨rfl, fun h => absurd h (by
          simp [AccountClosureRequest.cancel, AccountClosureRequest.isLive])⟩
    | identityErased pk => exact hs.modify heffect fun c => ⟨rfl, id⟩
    | localDoneUnit pk => exact hs.modify heffect fun c => ⟨rfl, id⟩
    | closureDeleted pk =>
        obtain ⟨waived, hb⟩ := heffect
        exact hs.modify hb fun c => ⟨rfl, fun h => absurd h (by
          simp [AccountClosureRequest.delete, AccountClosureRequest.isLive])⟩
    | _ => exact heffect.elim

/-- Whose closure a row is does not change. -/
theorem ClosureEffect.keepsUser {pk : Nat} {c : AccountClosureRequest} (h : ClosureEffect env op a b)
    (hc : a.closures.get? pk = some c) :
    ∃ c', b.closures.get? pk = some c' ∧ c'.userId = c.userId := by
  have hmodify : ∀ {i f}, b.closures = a.closures.modify i f → (∀ c, (f c).userId = c.userId) →
      ∃ c', b.closures.get? pk = some c' ∧ c'.userId = c.userId := by
    intro i f hb hf
    by_cases hi : pk = i
    · subst hi
      exact ⟨f c, by rw [hb, Table.get?_modify_self _ hc], hf c⟩
    · exact ⟨c, by rw [hb, Table.get?_modify_of_ne _ hi, hc], rfl⟩
  rcases h with heq | heffect
  · exact ⟨c, heq ▸ hc, rfl⟩
  · cases op with
    | closureUnit u =>
        obtain ⟨trigger, hb⟩ := heffect
        exact ⟨c, by rw [hb, Table.get?_insert_of_some _ hc], rfl⟩
    | startDeleting i =>
        obtain ⟨id, hb⟩ := heffect
        exact hmodify hb fun _ => rfl
    | closureDeleted i =>
        obtain ⟨waived, hb⟩ := heffect
        exact hmodify hb fun _ => rfl
    | cancelUnit | identityErased | localDoneUnit => exact hmodify heffect fun _ => rfl
    | _ => exact heffect.elim

/-! ### What a caller has looked at -/

/-- The first query of a call is the choice of this closure: the worker finds it due, an execution
is given it. -/
def ClosureCaller.Chooses (env : Env) (caller : ClosureCaller) (m : Memo Op Db) (pk : Nat) : Prop :=
  match caller with
  | worker => ∃ o ∈ m.after.expiredGrace env.now, o.pk = pk
  | execute closure => closure.pk = pk
  | _ => False

/-- An insert comes after a query that found no live closure of the user, a write of DELETING in a
call whose first query is the choice of the closure. -/
def Looks (env : Env) (caller : ClosureCaller) (past : List (Memo Op Db)) (op : Op) (_ _ : Db) :
    Prop :=
  (∀ u, op = .closureUnit u → ∃ m, lastOf Op.isSelect past = some m ∧ m.after.live u = []) ∧
    ∀ pk, op = .startDeleting pk → ∃ m, past.head? = some m ∧ m.after = m.before ∧
      caller.Chooses env m pk

section Recalls

variable {α : Type} {caller : ClosureCaller} {past : List (Memo Op Db)}

/-- A program without these statements. -/
theorem looks_of_labels {p : Program α} (h : Labels
    (fun op => (∀ u, op ≠ .closureUnit u) ∧ ∀ pk, op ≠ .startDeleting pk) p) :
    Recalls (Looks env caller) (fun _ _ => True) p past :=
  Recalls.always h fun _ _ _ _ _ hno =>
    ⟨fun u hop => absurd hop (hno.1 u), fun pk hop => absurd hop (hno.2 pk)⟩

theorem initiateClosure_looks {trigger : ClosureTrigger} :
    Recalls (Looks env caller) (fun _ _ => True) (initiateClosure env userId trigger) past := by
  refine Recalls.query_bind fun db => ⟨⟨nofun, nofun⟩, ?_⟩
  split
  · exact trivial
  refine Recalls.query_bind fun db₁ => ⟨⟨nofun, nofun⟩, ?_⟩
  split
  · exact trivial
  · rename_i hpending
    have hnone : db₁.live userId = [] := by
      refine List.eq_nil_iff_forall_not_mem.mpr fun i hi => hpending ?_
      obtain ⟨c, hc, hu, hlive⟩ := mem_live.mp hi
      exact Table.any_eq_true.mpr ⟨i, c, hc, by simpa [hu, AccountClosureRequest.isLive] using hlive⟩
    refine Recalls.atomic fun db₂ => ⟨?_, fun _ _ _ => ⟨?_, trivial⟩⟩
    all_goals
      refine ⟨fun u hop => ?_, nofun⟩
      obtain rfl := Op.closureUnit.inj hop
      exact ⟨_, lastOf_concat, hnone⟩

theorem executeDeletion_looks {closure : Stored AccountClosureRequest}
    (hchosen : ∀ db, ∃ m, (past ++ [Memo.mk Op.select db db true]).head? = some m ∧
      m.after = m.before ∧ caller.Chooses env m closure.pk) :
    Recalls (Looks env caller) (fun _ _ => True) (executeDeletion env closure) past := by
  refine executeDeletion_recalls (fun db => ⟨nofun, nofun⟩) (fun db => ?_) (fun _ _ _ => ?_)
    (fun _ _ _ _ => ?_) fun _ _ _ _ => ?_
  · unfold startDeleting
    refine Recalls.atomic fun db' => ⟨?_, fun _ _ _ => ⟨?_, trivial⟩⟩
    all_goals
      refine ⟨nofun, fun pk hop => ?_⟩
      obtain rfl := Op.startDeleting.inj hop
      exact hchosen db
  · exact looks_of_labels (closureErasure_always (fun _ => by simp) fun _ =>
      ⟨by simp, fun _ _ _ => by simp⟩)
  · refine looks_of_labels (eraseSubject_always ?_)
    refine ⟨?_, fun _ _ => by simp⟩
    constructor <;> simp
  · refine looks_of_labels (maybeFinalize_always ?_)
    constructor <;> simp

theorem ClosureCaller.looks (env : Env) (caller : ClosureCaller) :
    Recalls (Looks env caller) (fun _ _ => True) (caller.prog env) [] := by
  cases caller with
  | initiate => exact initiateClosure_looks.bind fun _ _ _ _ => trivial
  | inactivity =>
      refine Recalls.query_bind fun _ => ⟨⟨nofun, nofun⟩, Recalls.forM fun user _ past' _ => ?_⟩
      refine Recalls.tryCatch (Recalls.query_bind fun _ => ⟨⟨nofun, nofun⟩, ?_⟩)
        fun _ _ _ => trivial
      split
      · exact trivial
      · exact initiateClosure_looks.bind fun _ _ _ _ => trivial
  | cancel u =>
      refine looks_of_labels (discard_labels ?_)
      exact cancelClosure_labels ⟨nofun, nofun⟩ fun _ => ⟨nofun, nofun⟩
  | worker =>
      refine Recalls.query_bind fun db => ⟨⟨nofun, nofun⟩, Recalls.forM fun o ho past' hpre => ?_⟩
      refine (executeDeletion_looks fun db' => ?_).tryCatch fun _ _ _ => trivial
      obtain ⟨rest, rfl⟩ := hpre
      exact ⟨⟨.select, db, db, true⟩, rfl, rfl, o, ho, rfl⟩
  | execute closure => exact executeDeletion_looks fun db => ⟨_, rfl, rfl, rfl⟩

end Recalls

/-! ### Whole runs -/

/-- The event makes no closure of the user live, except perhaps one. -/
def NoneLive (userId : UserId) (pk : Option Nat) (e : Pool.Event κ Op Db) : Bool :=
  (e.after.live userId).all fun i => i ∈ e.before.live userId || pk = some i

/-- Between a call's look at the closures of the user and the write with which it makes one live,
no other closure of the user becomes live. The look of `initiate_closure` is its pending check,
that of an execution the first statement of its call. -/
def InTurn (userId : UserId) (past : List (Pool.Event κ Op Db)) (e : Pool.Event κ Op Db) : Bool :=
  match e.label with
  | .closureUnit u =>
      u ≠ userId || (Pool.since Op.isSelect e.thread past).all (NoneLive userId none ·)
  | .startDeleting pk =>
      (e.before.closures.get? pk).any (·.userId ≠ userId) ||
        (Pool.sinceFirst e.thread past).all (NoneLive userId (some pk) ·)
  | _ => true

/-- `execute_deletion` is called on a closure beside which no other of the user is live. -/
def CalledSole (calls : κ → Env × ClosureCaller) (userId : UserId)
    (past : List (Pool.Event κ Op Db)) (e : Pool.Event κ Op Db) : Bool :=
  past.any (·.thread = e.thread) || match (calls e.thread).2 with
    | .execute closure => (e.before.closures.get? closure.pk).any (·.userId ≠ userId) ||
        (e.before.live userId).all (· = closure.pk)
    | _ => true

omit [DecidableEq κ] in
theorem live_eq_nil_of_noneLive {e : Pool.Event κ Op Db} (h : NoneLive userId none e = true)
    (hs : e.before.live userId = []) : e.after.live userId = [] := by
  refine List.eq_nil_iff_forall_not_mem.mpr fun i hi => ?_
  have hold := List.all_eq_true.mp h i hi
  simp [hs] at hold

omit [DecidableEq κ] in
theorem Sole.step {pk : Nat} {e : Pool.Event κ Op Db} {env : Env}
    (heffect : ClosureEffect env e.label e.before e.after)
    (h : NoneLive userId (some pk) e = true) (hs : Sole userId pk e.before) :
    Sole userId pk e.after := by
  rcases hs with ⟨c, hc, hother⟩ | hsole
  · obtain ⟨c', hc', hu⟩ := heffect.keepsUser hc
    exact .inl ⟨c', hc', hu ▸ hother⟩
  · refine .inr fun i hi => ?_
    have hold := List.all_eq_true.mp h i hi
    simp only [Bool.or_eq_true, decide_eq_true_eq] at hold
    rcases hold with hold | hpk
    · exact hsole i hold
    · exact (Option.some.inj hpk).symm

/-- **At most one live closure**, at every moment of a run in which no closure of the user becomes
live between a call's look and its write, and `execute_deletion` is called on no closure beside a
live one. -/
theorem one_live_closure (userId : UserId) (hs : OneLive userId start.toLedger)
    (hrun : Pool.Runs (fun _ _ => True) (callers calls) start tr P db)
    (hturn : ∀ pre e post, tr = pre ++ e :: post → InTurn userId pre e = true)
    (hcalled : ∀ pre e post, tr = pre ++ e :: post → CalledSole calls userId pre e = true) :
    OneLive userId db.toLedger ∧
      ∀ e ∈ tr, OneLive userId e.before.toLedger ∧ OneLive userId e.after.toLedger := by
  have heffect := callers_effect hrun
  refine hrun.course (I := fun db => OneLive userId db.toLedger) (fun pre e post hcut hpast h => ?_)
    hs
  obtain ⟨hinsert, hdelete⟩ :=
    hrun.recalls (fun k => (calls k).2.looks (calls k).1) pre e post hcut
  have hquiet := hturn pre e post hcut
  refine h.step (heffect e (hcut ▸ by simp)) (fun hop => ?_) fun pk hop => ?_
  · -- the pending check found none, and none has come since
    obtain ⟨m, hlast, hnone⟩ := hinsert userId hop
    rw [InTurn, hop] at hquiet
    subst hcut
    refine hrun.since (I := fun db => db.live userId = []) hlast hnone fun d hd =>
      live_eq_nil_of_noneLive ?_
    exact List.all_eq_true.mp (by simpa using hquiet) d hd
  · obtain ⟨m, hfirst, hsame, hchosen⟩ := hdelete pk hop
    rw [InTurn, hop] at hquiet
    obtain ⟨before, d, rest, hpre, hsince, hthread, rfl, hbefore⟩ := Pool.cut_sinceFirst hfirst
    rcases Bool.or_eq_true_iff.mp hquiet with hother | hquiet
    · obtain ⟨c, hc, hu⟩ := (Option.any_eq_true _ _).mp hother
      exact .inl ⟨c, hc, by simpa using hu⟩
    subst hpre
    have hd : Sole userId pk d.after := by
      have hone := (hpast d (by simp)).2
      generalize hcaller : (calls e.thread).2 = caller at hchosen
      cases caller with
      | worker =>
          -- the worker has found the closure live
          obtain ⟨o, ho, rfl⟩ := hchosen
          obtain ⟨hget, hdue⟩ := Table.mem_select.mp ho
          simp only [Bool.and_eq_true, decide_eq_true_eq] at hdue
          by_cases hu : o.row.userId = userId
          · refine .inr fun i hi => ?_
            obtain ⟨c, hc, hcu, hlive⟩ := mem_live.mp hi
            exact hone i o.pk c o.row hc hget hcu hu hlive
              (by simp [AccountClosureRequest.isLive, hdue.1.1])
          · exact .inl ⟨o.row, hget, hu⟩
      | execute closure =>
          obtain rfl : closure.pk = pk := hchosen
          have hcall := hcalled before d (rest ++ e :: post) (by simpa using hcut)
          have hnew : before.any (·.thread = d.thread) = false := by
            simpa [hthread] using hbefore
          rw [CalledSole, hnew, hthread, hcaller, Bool.false_or, Bool.or_eq_true] at hcall
          have hsame' : d.after = d.before := hsame
          rw [hsame']
          rcases hcall with hother | hsole
          · obtain ⟨c, hc, hu⟩ := (Option.any_eq_true _ _).mp hother
            exact .inl ⟨c, hc, by simpa using hu⟩
          · exact .inr fun i hi => by simpa using List.all_eq_true.mp hsole i hi
      | _ => exact hchosen.elim
    have hall : ∀ d' ∈ rest, NoneLive userId (some pk) d' = true := fun d' hd' =>
      List.all_eq_true.mp hquiet d' (by rw [hsince]; exact List.mem_cons_of_mem _ hd')
    have hcut' : tr = before ++ d :: (rest ++ e :: post) := by simpa using hcut
    subst hcut'
    obtain ⟨P₁, s₁, -, hfrom⟩ := hrun.split
    obtain ⟨-, P₂, hfrom⟩ := hfrom.head
    obtain ⟨P₃, s₃, hrest, hpost⟩ := hfrom.split
    rw [hpost.head.1]
    exact (hrest.chain (I := Sole userId pk) (fun d' hd' hs' =>
      hs'.step (heffect d' (by simp [hd'])) (hall d' hd')) hd).1

theorem oneLive_storeOf (users : List User) : OneLive userId (storeOf users).toLedger :=
  fun _ _ _ _ h => absurd h (by simp [storeOf, Table.get?])

/-- The user closes the account while the inactivity checker looks at it. -/
def closers : Bool → Env × ClosureCaller := fun self =>
  (deployment, if self = true then .initiate "u1" .manual else .inactivity fun _ => true)

/-- The checker finds the closure pending. -/
def inTurn : List (Pool.Event Bool Op Db) × Pool Op Db Error Unit Bool × Db :=
  Pool.schedule [true, true, true, false, false] (callers closers) (storeOf [account])

theorem one_live_closure_inTurn : OneLive "u1" inTurn.2.2.toLedger := by
  have hrun : Pool.Runs (fun _ _ => True) (callers closers) (storeOf [account]) inTurn.1 inTurn.2.1
      inTurn.2.2 := Pool.runs_schedule _ _ _ _
  exact (one_live_closure "u1" (oneLive_storeOf _) hrun (by decide +kernel) (by decide +kernel)).1

/-- Both look before either inserts. -/
def bothClosed : List (Pool.Event Bool Op Db) × Pool Op Db Error Unit Bool × Db :=
  Pool.schedule [true, true, false, false, false, false, true, false] (callers closers)
    (storeOf [account])

theorem two_live_closures : ¬ ∀ (κ : Type) (_ : DecidableEq κ) (calls : κ → Env × ClosureCaller)
    (userId : UserId) (start db : Db) (tr : List (Pool.Event κ Op Db))
    (P : Pool Op Db Error Unit κ),
    Reachable start → OneLive userId start.toLedger →
    Pool.Runs (fun _ _ => True) (callers calls) start tr P db → OneLive userId db.toLedger := by
  intro hclaim
  have hone := hclaim Bool inferInstance closers "u1" (storeOf [account]) bothClosed.2.2
    bothClosed.1
    bothClosed.2.1 (reachable_storeOf _) (oneLive_storeOf _) (Pool.runs_schedule _ _ _ _)
  have htwo : ∀ i < 2, (bothClosed.2.2.closures.get? i).any fun c =>
      c.userId = "u1" && c.isLive := by decide +kernel
  obtain ⟨c, hc, hlive⟩ := (Option.any_eq_true _ _).mp (htwo 0 (by decide))
  obtain ⟨c', hc', hlive'⟩ := (Option.any_eq_true _ _).mp (htwo 1 (by decide))
  simp only [Bool.and_eq_true, decide_eq_true_eq] at hlive hlive'
  exact absurd (hone 0 1 c c' hc hc' hlive.1 hlive'.1 hlive.2 hlive'.2) (by decide)

end StapelGdpr
