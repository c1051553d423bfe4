import StapelGdpr.ClosureToken
import StapelGdpr.Invariants

/-!
# StapelGdpr.TokenScope

What a closure token can do: cancel the closure it was minted for, while that closure is in
its grace period and the newest of its user, and nothing else.

The view looks a token up by closure and then cancels by user, so the result rests on an
invariant of runs whose clock never goes back: `Chronicle`, by which keys follow moments and a
closure in grace is the last of its user.
-/

namespace StapelGdpr

open Prog

/-! ### Runs with a clock -/

/-- One stage of a run whose clock never goes back. -/
inductive TimedStage : Time × Db → Time × Db → Prop
  | call {t : Time} {env : Env} {call : Call} {db db' : Db} (htime : t ≤ env.now)
      (h : CallStep env call db db') : TimedStage (t, db) (env.now, db')
  | host {t : Time} {db : Db} (users : List User) (holds : Table LegalHold)
      (hashes : List ReRegistrationHash) :
      TimedStage (t, db) (t, { db with users := users, holds := holds, hashes := hashes })

/-- The second moment comes later than the first in some run. -/
def Timed : Time × Db → Time × Db → Prop := Relation.ReflTransGen TimedStage

variable {env : Env} {op : Op} {a b db db' s s' : Db} {t t' : Time}

/-- What every step preserves while the clock stands, and what a later clock and the host
leave alone, holds along every run. -/
theorem Timed.induct {I : Time → Db → Prop} {x y : Time × Db} (h : Timed x y)
    (hmove : ∀ env op a b, Move env op a b → I env.now a → I env.now b)
    (hclock : ∀ t t' a, t ≤ t' → I t a → I t' a)
    (hhost : ∀ t a users holds hashes, I t a →
      I t { a with users := users, holds := holds, hashes := hashes })
    (hs : I x.1 x.2) : I y.1 y.2 := by
  induction h with
  | refl => exact hs
  | tail _ hstage ih =>
      cases hstage with
      | call htime hcall => exact hcall.moved.induct (hmove _) (hclock _ _ _ htime ih)
      | host users holds hashes => exact hhost _ _ users holds hashes ih

/-- Keys follow moments, none of them ahead of the clock, and a closure in its grace period
is the last one of its user. -/
structure Chronicle (t : Time) (l : Ledger) : Prop where
  past : ∀ i c, l.closures.get? i = some c → c.initiatedAt ≤ t
  ordered : ∀ i j c c', l.closures.get? i = some c → l.closures.get? j = some c' → i ≤ j →
    c.initiatedAt ≤ c'.initiatedAt
  last : ∀ i j c c', l.closures.get? i = some c → l.closures.get? j = some c' →
    c.status = .grace → c'.userId = c.userId → j ≤ i

/-- A closure keeps its user and its dates. -/
theorem ClosureStep.fixed {c c' : AccountClosureRequest} (h : ClosureStep c c') :
    c'.userId = c.userId ∧ c'.initiatedAt = c.initiatedAt ∧ c'.graceEndsAt = c.graceEndsAt := by
  cases h <;> exact ⟨rfl, rfl, rfl⟩

theorem Chronicle.step (hs : Chronicle env.now a.toLedger) (h : Move env op a b) :
    Chronicle env.now b.toLedger where
  past i c' hc' := by
    rcases h.closures.row hc' with ⟨c, hc, hstep⟩ | ⟨-, hnew⟩
    · rw [hstep.fixed.2.1]
      exact hs.past i c hc
    · obtain ⟨userId, trigger, rfl⟩ := hnew.opened
      exact le_rfl
  ordered i j c₁ c₂ h₁ h₂ hij := by
    rcases h.closures.row h₂ with ⟨q₂, hq₂, hstep₂⟩ | ⟨-, hnew₂⟩
    · rw [hstep₂.fixed.2.1]
      rcases h.closures.row h₁ with ⟨q₁, hq₁, hstep₁⟩ | ⟨-, hnew₁⟩
      · rw [hstep₁.fixed.2.1]
        exact hs.ordered i j q₁ q₂ hq₁ hq₂ hij
      · have hlt := Table.get?_lt hq₂
        rw [hnew₁.key] at hij
        exact absurd hlt (Nat.not_lt.mpr hij)
    · obtain ⟨userId, trigger, rfl⟩ := hnew₂.opened
      rcases h.closures.row h₁ with ⟨q₁, hq₁, hstep₁⟩ | ⟨-, hnew₁⟩
      · rw [hstep₁.fixed.2.1]
        exact hs.past i q₁ hq₁
      · obtain ⟨userId', trigger', rfl⟩ := hnew₁.opened
        exact le_rfl
  last i j c₁ c₂ h₁ h₂ hgrace huser := by
    rcases h.closures.row h₂ with ⟨q₂, hq₂, hstep₂⟩ | ⟨-, hnew₂⟩
    · rcases h.closures.row h₁ with ⟨q₁, hq₁, hstep₁⟩ | ⟨-, hnew₁⟩
      · rw [hstep₁.grace.1, hstep₂.grace.1] at huser
        exact hs.last i j q₁ q₂ hq₁ hq₂ (hstep₁.grace.2 hgrace) huser
      · rw [hnew₁.key]
        exact (Table.get?_lt hq₂).le
    · rcases h.closures.row h₁ with ⟨q₁, hq₁, hstep₁⟩ | ⟨-, hnew₁⟩
      · -- a new closure has no company in grace
        have hfree := hnew₂.free i q₁ hq₁ (by rw [huser, hstep₁.grace.1])
        exact absurd (hstep₁.grace.2 hgrace) hfree.1
      · rw [hnew₁.key, hnew₂.key]

theorem Timed.chronicle {x y : Time × Db} (h : Timed x y) (hs : Chronicle x.1 x.2.toLedger) :
    Chronicle y.1 y.2.toLedger :=
  h.induct (I := fun t db => Chronicle t db.toLedger) (fun _ _ _ _ hm hc => hc.step hm)
    (fun _ _ _ hle hc => ⟨fun i c hi => (hc.past i c hi).trans hle, hc.ordered, hc.last⟩)
    (fun _ _ _ _ _ hc => hc) hs

theorem chronicle_empty (t : Time) : Chronicle t {} where
  past i c h := absurd h (by simp [Table.get?])
  ordered i j c c' h := absurd h (by simp [Table.get?])
  last i j c c' h := absurd h (by simp [Table.get?])

/-- A closure keeps its user and its dates along a run. -/
theorem Timed.closure {x y : Time × Db} (h : Timed x y) {pk : Nat} {c : AccountClosureRequest}
    (hc : x.2.closures.get? pk = some c) : ∃ c', y.2.closures.get? pk = some c' ∧
      c'.userId = c.userId ∧ c'.graceEndsAt = c.graceEndsAt := by
  refine h.induct (I := fun _ db => ∃ c', db.closures.get? pk = some c' ∧
    c'.userId = c.userId ∧ c'.graceEndsAt = c.graceEndsAt) (fun env op a b hm hI => ?_)
    (fun _ _ _ _ hI => hI) (fun _ _ _ _ _ hI => hI) ⟨c, hc, rfl, rfl⟩
  obtain ⟨q, hq, huser, hends⟩ := hI
  obtain ⟨q', hq', hstep⟩ := hm.closures.kept hq
  exact ⟨q', hq', hstep.fixed.1.trans huser, hstep.fixed.2.2.trans hends⟩

/-! ### The newest closure -/

instance : Std.Total newerFirst where
  total c c' := by
    unfold newerFirst
    rcases lt_trichotomy c.row.initiatedAt c'.row.initiatedAt with hlt | heq | hgt
    · exact .inr (.inl hlt)
    · rcases Nat.le_total c.pk c'.pk with hle | hle
      · exact .inr (.inr ⟨heq, hle⟩)
      · exact .inl (.inr ⟨heq.symm, hle⟩)
    · exact .inl (.inl hgt)

instance : IsTrans (Stored AccountClosureRequest) newerFirst where
  trans c c' c'' h h' := by
    rcases h with hlt | ⟨heq, hle⟩ <;> rcases h' with hlt' | ⟨heq', hle'⟩
    · exact .inl (hlt'.trans hlt)
    · exact .inl (heq' ▸ hlt)
    · exact .inl (heq ▸ hlt')
    · exact .inr ⟨heq'.trans heq, hle'.trans hle⟩

theorem mem_closuresOf {l : Ledger} {userId : UserId} {c : Stored AccountClosureRequest} :
    c ∈ l.closuresOf userId ↔ l.closures.get? c.pk = some c.row ∧ c.row.userId = userId := by
  rw [Ledger.closuresOf, List.mem_insertionSort, Table.mem_select, decide_eq_true_eq]

/-- The query for the newest finds one no closure of the user is newer than. -/
theorem newest_le {l : Ledger} {userId : UserId} {c d : Stored AccountClosureRequest}
    (hnewest : (l.closuresOf userId).head? = some c) (hd : d ∈ l.closuresOf userId) :
    newerFirst c d := by
  have hsorted := List.pairwise_insertionSort newerFirst (l.closures.select (·.userId = userId))
  rw [← Ledger.closuresOf] at hsorted
  cases hlist : l.closuresOf userId with
  | nil =>
      rw [hlist] at hd
      exact absurd hd List.not_mem_nil
  | cons first rest =>
      rw [hlist] at hnewest hd hsorted
      obtain rfl : first = c := Option.some.inj hnewest
      rcases List.mem_cons.mp hd with rfl | hmem
      · exact .inr ⟨rfl, le_rfl⟩
      · exact (List.pairwise_cons.mp hsorted).1 d hmem

/-- When keys follow moments the newest closure has the last key. -/
theorem Chronicle.newest {l : Ledger} (h : Chronicle t l) {userId : UserId}
    {c : Stored AccountClosureRequest} (hnewest : (l.closuresOf userId).head? = some c) {j : Nat}
    {q : AccountClosureRequest} (hq : l.closures.get? j = some q) (huser : q.userId = userId) :
    j ≤ c.pk := by
  obtain ⟨hget, -⟩ := mem_closuresOf.mp (List.mem_of_head? hnewest)
  rcases newest_le (d := ⟨j, q⟩) hnewest (mem_closuresOf.mpr ⟨hq, huser⟩) with hlt | ⟨-, hle⟩
  · by_contra hgt
    have hle := h.ordered c.pk j c.row q hget hq (Nat.le_of_not_le hgt)
    exact absurd hlt (not_lt.mpr hle)
  · exact hle

/-! ### One request -/

/-- What is said of `django.core.signing` under one salt: a text is accepted exactly when it
was dumped, and no dump is empty. -/
structure Wire.Ideal (wire : Wire) : Prop where
  loads_iff : ∀ raw v, wire.loads raw = some v ↔ raw = wire.dumps v
  dumps_ne : ∀ v, wire.dumps v ≠ ""
  /-- An aware moment reads back from its own text. -/
  round_trip : ∀ moment, wire.fromisoformat (wire.isoformat moment) = some (.aware moment)

/-- A minted token reads back as what it was minted for, until its grace is over. -/
theorem readClosureToken_make {wire : Wire} (hwire : wire.Ideal) (now : Time)
    (c : Stored AccountClosureRequest) :
    readClosureToken wire now (makeClosureToken wire c) =
      if now > c.row.graceEndsAt then .error .expired
      else .ok ⟨c.pk, c.row.userId, wire.isoformat c.row.graceEndsAt⟩ := by
  unfold readClosureToken makeClosureToken
  rw [if_neg (hwire.dumps_ne _), (hwire.loads_iff _ _).mpr rfl]
  dsimp only
  rw [hwire.round_trip]

/-- The view, given a minted token. -/
theorem closureFromToken_make {wire : Wire} (hwire : wire.Ideal)
    (c : Stored AccountClosureRequest) :
    closureFromToken env wire (makeClosureToken wire c) =
      if env.now > c.row.graceEndsAt then .ret (.error .closureTokenExpired)
      else match env.host.parseUuid c.row.userId with
        | none => .raise .validationError
        | some subject => namedClosure c.pk subject := by
  unfold closureFromToken
  rw [if_neg (show makeClosureToken wire c ≠ "" from hwire.dumps_ne _),
    readClosureToken_make hwire]
  by_cases hlate : env.now > c.row.graceEndsAt
  · simp only [if_pos hlate, pure_def]
  · cases hparse : env.host.parseUuid c.row.userId with
    | none => simp [if_neg hlate, hparse]
    | some subject => simp [if_neg hlate, hparse]

/-- The one thing a token may do: cancel its closure, in its grace period, the newest of its
user, and no later than the token says. -/
structure Acts (env : Env) (c : Stored AccountClosureRequest) (s s' : Db) : Prop where
  grace : ∃ row, s.closures.get? c.pk = some row ∧ row.status = .grace ∧
    ∀ j q, s.closures.get? j = some q → q.userId = c.row.userId →
      j ≤ c.pk ∧ q.initiatedAt ≤ row.initiatedAt
  timely : env.now ≤ c.row.graceEndsAt
  changed : s'.closures = s.closures.modify c.pk (·.cancel env.now)

variable {c : Stored AccountClosureRequest} {wire : Wire}

/-- What the view knows when it lets a token through. -/
def Admitted (env : Env) (c : Stored AccountClosureRequest) (s : Db) :
    Except CancelAnswer (Option (Stored AccountClosureRequest)) → Prop
  | .ok (some closure) => closure.pk = c.pk ∧ s.closures.get? c.pk = some closure.row ∧
      env.now ≤ c.row.graceEndsAt ∧ ∀ n, (s.closuresOf closure.row.userId).head? = some n →
        n.pk = c.pk
  | .ok none => False
  | .error answer => ∀ c', answer ≠ .ok c'

theorem namedClosure_admits {subject : UserId} (htime : env.now ≤ c.row.graceEndsAt) :
    Does (fun _ => True) (fun _ a b => a = s ∧ b = s)
      (fun presented t => t = s ∧ Admitted env c s presented) (fun _ _ => True)
      (namedClosure c.pk subject) s := by
  refine does_bind.mpr (does_query.mpr ⟨⟨⟨rfl, rfl⟩, ?_⟩, fun _ _ => ⟨⟨rfl, rfl⟩, trivial⟩⟩)
  cases hfound : (s.closures.get? c.pk).filter fun q => q.userId = subject with
  | none => exact does_ret.mpr ⟨rfl, fun c' => by simp⟩
  | some row =>
      obtain ⟨hrow, -⟩ := Option.filter_eq_some_iff.mp hfound
      refine does_bind.mpr (does_query.mpr ⟨⟨⟨rfl, rfl⟩, ?_⟩, fun _ _ => ⟨⟨rfl, rfl⟩, trivial⟩⟩)
      split
      · exact does_ret.mpr ⟨rfl, fun c' => by simp⟩
      · rename_i hnewest
        refine does_ret.mpr ⟨rfl, rfl, hrow, htime, fun n hn => ?_⟩
        rw [hn] at hnewest
        simpa using hnewest

theorem closureFromToken_admits (hwire : wire.Ideal) :
    Does (fun _ => True) (fun _ a b => a = s ∧ b = s)
      (fun presented t => t = s ∧ Admitted env c s presented) (fun _ _ => True)
      (closureFromToken env wire (makeClosureToken wire c)) s := by
  rw [closureFromToken_make hwire]
  split
  · exact does_ret.mpr ⟨rfl, fun c' => by simp⟩
  · rename_i hlate
    cases env.host.parseUuid c.row.userId with
    | none => exact does_raise.mpr trivial
    | some subject => exact namedClosure_admits (Int.not_lt.mp hlate)

/-- The program has answered 200 with this closure, and the token has acted. -/
def Answered (env : Env) (c : Stored AccountClosureRequest) (s : Db) (p : Program CancelAnswer)
    (b : Db) : Prop :=
  ∃ closure, p = .ret (.ok closure) ∧ closure.pk = c.pk ∧ Acts env c s b

/-- What a request with the token for its credential does: every step reads, but for one that
acts, and it is the last. -/
abbrev Scoped (env : Env) (c : Stored AccountClosureRequest) (s : Db) (p : Program CancelAnswer) :
    Prop :=
  Safe (fun a b => a = b) (fun _ => True) (fun _ a b p => a = s ∧ (b = s ∨ Answered env c s p b))
    (fun answer b => ∀ closure, answer = .ok closure → closure.pk = c.pk ∧ Acts env c s b)
    (fun _ _ => True) p s

/-- An answer that is not 200 needs nothing done. -/
theorem Scoped.ret {answer : CancelAnswer} (h : ∀ closure, answer ≠ .ok closure) :
    Scoped env c s (.ret answer) :=
  safe_ret.mpr fun _ _ closure hok => absurd hok (h closure)

/-- **The cancellation by user finds the closure of the token.** The closure the token names
is the newest of its user, and one in grace is the last. -/
theorem Chronicle.cancels {g : Stored AccountClosureRequest} {userId : UserId}
    (h : Chronicle t s.toLedger) (hnewest : ∀ n, (s.closuresOf userId).head? = some n → n.pk = c.pk)
    (hg : s.closures.get? g.pk = some g.row) (huser : g.row.userId = userId)
    (hgrace : g.row.status = .grace) : g.pk = c.pk := by
  have hmem : g ∈ s.closuresOf userId := mem_closuresOf.mpr ⟨hg, huser⟩
  cases hhead : (s.closuresOf userId).head? with
  | none =>
      rw [List.head?_eq_none_iff.mp hhead] at hmem
      exact absurd hmem List.not_mem_nil
  | some n =>
      obtain ⟨hn, hnuser⟩ := mem_closuresOf.mp (List.mem_of_head? hhead)
      have hle := h.newest hhead hg huser
      have hge := h.last g.pk n.pk g.row n.row hg hn hgrace (hnuser.trans huser.symm)
      rw [← hnewest n hhead]
      exact le_antisymm hle hge

theorem answerCancel_scoped {closure : Stored AccountClosureRequest}
    (h : Chronicle t s.toLedger) (huser : closure.row.userId = c.row.userId)
    (hadmitted : Admitted env c s (.ok (some closure))) :
    Scoped env c s (answerCancel env closure.row.userId) := by
  obtain ⟨-, hrow, htime, hnewest⟩ := hadmitted
  refine Safe.tryCatch (fun _ => rfl) (X := fun _ b => b = s) ?_ fun e b hb => ?_
  · rw [cancelClosure, bind_assoc]
    refine Safe.query_bind fun b hb => ?_
    subst hb
    refine ⟨⟨⟨rfl, .inl rfl⟩, ?_⟩, fun _ e => ⟨⟨rfl, .inl rfl⟩, safe_raise.mpr fun _ hb => hb.symm⟩⟩
    cases hfound : s.closures.first? fun q => q.userId = closure.row.userId && q.status = .grace with
    | none => exact safe_raise.mpr fun _ hb => hb.symm
    | some g =>
        obtain ⟨hg, hsel⟩ := Table.first?_some hfound
        simp only [Bool.and_eq_true, decide_eq_true_eq] at hsel
        have hpk : g.pk = c.pk := h.cancels hnewest hg hsel.1 hsel.2
        refine Safe.atomic_bind (fun b hb => ?_) fun b hb _ e =>
          ⟨⟨hb.symm, .inl hb.symm⟩, safe_raise.mpr fun _ hb' => (hb.trans hb').symm⟩
        subst hb
        have hacts : Acts env c s ((Db.setActive { s with
            closures := s.closures.modify g.pk (·.cancel env.now) } closure.row.userId true).2.emit
              [.deletionCancelled closure.row.userId env.now g.row.trigger]) := by
          rw [hpk] at hg ⊢
          refine ⟨⟨g.row, hg, hsel.2, fun j q hq hqu => ?_⟩, htime, by rw [setActive_eq]; rfl⟩
          have hle := h.last c.pk j g.row q hg hq hsel.2
            (hqu.trans (huser.symm.trans hsel.1.symm))
          exact ⟨hle, h.ordered j c.pk q g.row hq hg hle⟩
        exact ⟨⟨rfl, .inr ⟨_, rfl, hpk, hacts⟩⟩,
          safe_ret.mpr fun b hb closure hok => by
            obtain rfl := CancelAnswer.ok.inj hok
            exact ⟨hpk, hb ▸ hacts⟩⟩
  · subst hb
    cases e with
    | valueError text => exact Scoped.ret fun _ => by simp
    | _ => exact safe_raise.mpr fun _ _ => trivial

/-- The view, with a token for its credential. -/
theorem postCancelClose_scoped {row : AccountClosureRequest} (hwire : wire.Ideal)
    (h : Chronicle t s.toLedger) (hrow : s.closures.get? c.pk = some row)
    (huser : row.userId = c.row.userId) (user : Option UserId) :
    Scoped env c s (postCancelClose env wire ⟨makeClosureToken wire c, user⟩) := by
  refine Safe.bind (fun _ => rfl) (P := fun presented b => b = s ∧ Admitted env c s presented)
    ((closureFromToken_admits hwire).beside.imp (fun _ _ _ _ hM => ⟨hM.1, .inl hM.2⟩)
      (fun _ _ h => h) fun _ _ _ => trivial) fun presented b hb => ?_
  obtain ⟨rfl, hadmitted⟩ := hb
  cases presented with
  | error answer => exact Scoped.ret hadmitted
  | ok found =>
      cases found with
      | none => exact hadmitted.elim
      | some closure =>
          refine answerCancel_scoped h ?_ hadmitted
          obtain ⟨-, hget, -⟩ := hadmitted
          rw [hrow] at hget
          rw [← Option.some.inj hget, huser]

/-! ### An ideal wire -/

/-- Numbers in unary, each text behind its length. -/
def unaryDumps : Signed → String
  | .claims claims => String.ofList ('c' :: (List.replicate claims.cid '1' ++ '.' ::
      (List.replicate claims.sub.toList.length '1' ++ '.' ::
        (claims.sub.toList ++ claims.exp.toList))))
  | .other text => String.ofList ('o' :: text.toList)

/-- The value a text would be a dump of. -/
def unaryValue (raw : String) : Option Signed :=
  match raw.toList with
  | 'c' :: signed =>
      match signed.dropWhile (· = '1') with
      | '.' :: texts =>
          let length := (texts.takeWhile (· = '1')).length
          match texts.dropWhile (· = '1') with
          | '.' :: both => some (.claims {
              cid := (signed.takeWhile (· = '1')).length
              sub := String.ofList (both.take length), exp := String.ofList (both.drop length) })
          | _ => none
      | _ => none
  | 'o' :: text => some (.other (String.ofList text))
  | _ => none

theorem unaryValue_dumps (v : Signed) : unaryValue (unaryDumps v) = some v := by
  cases v <;> simp [unaryValue, unaryDumps]

/-- A wire that accepts its own dumps and nothing else. -/
def unary : Wire where
  dumps := unaryDumps
  loads raw := (unaryValue raw).filter fun v => unaryDumps v = raw
  isoformat moment :=
    String.ofList ((if 0 ≤ moment then '+' else '-') :: List.replicate moment.natAbs '1')
  fromisoformat text :=
    match text.toList with
    | '+' :: digits => some (.aware digits.length)
    | '-' :: digits => some (.aware (-digits.length))
    | _ => none
  makeAware clock := clock

theorem unary_ideal : unary.Ideal where
  loads_iff raw v := by
    rw [show unary.loads raw = (unaryValue raw).filter fun v => unaryDumps v = raw from rfl,
      Option.filter_eq_some_iff]
    constructor
    · rintro ⟨-, hdumps⟩
      exact (of_decide_eq_true hdumps).symm
    · rintro rfl
      exact ⟨unaryValue_dumps v, decide_eq_true rfl⟩
  dumps_ne v := by
    intro h
    have hlist := congrArg String.toList h
    cases v <;> simp [unary, unaryDumps] at hlist
  round_trip moment := by
    rcases Int.le_total 0 moment with hpos | hneg
    · simp [unary, hpos]
    · rcases Int.lt_or_eq_of_le hneg with hlt | rfl
      · have habs : -|moment| = moment := by rw [abs_of_neg hlt, neg_neg]
        simp [unary, Int.not_le.mpr hlt, habs]
      · simp [unary]

/-! ### The scope of a token -/

/-- **What a token can do.** Take any run with a clock that never goes back, a token minted in
it for a closure, and any later moment. A request that carries the token and answers 200 has
cancelled that closure, which was in its grace period, the newest of its user and not past the
end the token was minted with, and no other. A request that answers anything else, raises or
dies on the way has changed no closure and no user. So a token whose closure has a successor
can do nothing. -/
theorem token_scope (hwire : wire.Ideal) {first : Time} {s₀ : Db} {t₀ : Time}
    (hrun₀ : Timed (first, {}) (t₀, s₀)) (hminted : s₀.closures.get? c.pk = some c.row)
    (hrun : Timed (t₀, s₀) (t, s)) {user : Option UserId} {tr : List Op} {p : Program CancelAnswer}
    (hpost : Runs (fun _ => True) (postCancelClose env wire ⟨makeClosureToken wire c, user⟩) s tr p
      s') :
    (∀ closure, p = .ret (.ok closure) → closure.pk = c.pk ∧ Acts env c s s') ∧
    ((∀ closure, p ≠ .ret (.ok closure)) →
      s'.closures = s.closures ∧ s'.users = s.users) ∧
    ∀ j q, s.closures.get? j = some q → q.userId = c.row.userId → c.pk < j →
      s'.closures = s.closures ∧ s'.users = s.users := by
  have hchron : Chronicle t s.toLedger :=
    Timed.chronicle (hrun₀.trans hrun) (chronicle_empty first)
  obtain ⟨row, hrow, huser, -⟩ := Timed.closure hrun hminted
  have hscoped : Scoped env c s (postCancelClose env wire ⟨makeClosureToken wire c, user⟩) :=
    postCancelClose_scoped hwire hchron hrow huser user
  have hok : ∀ closure, p = .ret (.ok closure) → closure.pk = c.pk ∧ Acts env c s s' := by
    intro closure hp
    have hend := hscoped.runs (fun _ => rfl) hpost
    rw [hp] at hend
    exact safe_ret.mp hend s' rfl closure rfl
  have hother : (∀ closure, p ≠ .ret (.ok closure)) → s' = s := by
    intro hp
    rcases List.eq_nil_or_concat tr with rfl | ⟨tr', l, rfl⟩
    · exact (Runs.nil_iff.mp hpost).2
    · rw [List.concat_eq_append] at hpost
      obtain ⟨a, -, hlast⟩ := hscoped.last (fun _ => rfl) hpost
      rcases hlast with rfl | ⟨closure, hret, -⟩
      · rfl
      · exact absurd hret (hp closure)
  refine ⟨hok, fun hp => by rw [hother hp]; exact ⟨rfl, rfl⟩, fun j q hq hqu hlt => ?_⟩
  by_cases hp : ∃ closure, p = .ret (.ok closure)
  · obtain ⟨closure, hp⟩ := hp
    obtain ⟨-, ⟨⟨row, -, -, hall⟩, -, -⟩⟩ := hok closure hp
    exact absurd (hall j q hq hqu).1 (Nat.not_le.mpr hlt)
  · rw [hother fun closure hret => hp ⟨closure, hret⟩]
    exact ⟨rfl, rfl⟩

theorem Timed.run (env : Env) {x : Time × Db} (h : Timed x (t, db)) (call : Call)
    (htime : t ≤ env.now) (hl : call.Loaded db) : Timed x (env.now, call.after env db) := by
  obtain ⟨tr, hrun⟩ := runs_run (fun _ => True) (call.prog env) db
  exact h.tail (.call htime ⟨hl, tr, _, hrun⟩)

/-- The closure of day 0, as its token was minted for it. -/
def firstClosure : Stored AccountClosureRequest := ⟨0, newClosure deployment "u1" .manual⟩

/-- Its token is presented on day `n`. -/
def presented (n : Int) (db : Db) : Except Error CancelAnswer × Db :=
  (postCancelClose (deploymentOn n) unary ⟨makeClosureToken unary firstClosure, none⟩).run db

/-- The account was closed again on day 2, after a cancellation on day 1. -/
def closedTwice : Db :=
  (Call.initiateClosure "u1" .manual).after (deploymentOn 2)
    ((Call.cancelClosure "u1").after (deploymentOn 1) closing)

theorem timed_closing : Timed (0, {}) (0, closing) :=
  Timed.run deployment (.single (.host [account] {} [])) (.initiateClosure "u1" .manual)
    le_rfl trivial

theorem timed_closedTwice : Timed (0, closing) (days 2, closedTwice) :=
  Timed.run (deploymentOn 2) (Timed.run (deploymentOn 1) .refl (.cancelClosure "u1")
    (by decide) trivial) (.initiateClosure "u1" .manual) (by decide) trivial

/-- Presented on day 1 the token cancels its closure; presented on day 2 it does nothing to
the second one. -/
theorem token_scope_twice : Acts (deploymentOn 1) firstClosure closing (presented 1 closing).2 ∧
    (presented 2 closedTwice).2.closures = closedTwice.closures := by
  have hminted : closing.closures.get? 0 = some firstClosure.row := by decide +kernel
  constructor
  · have hok : (presented 1 closing).1 =
        .ok (.ok ⟨0, (newClosure deployment "u1" .manual).cancel (days 1)⟩) := by
      rw [presented, postCancelClose, closureFromToken_make unary_ideal]
      decide +kernel
    obtain ⟨tr, hrun⟩ := runs_run (fun _ => True) (postCancelClose (deploymentOn 1) unary
      ⟨makeClosureToken unary firstClosure, none⟩) closing
    rw [← presented, hok] at hrun
    obtain ⟨hacts, -⟩ := token_scope unary_ideal timed_closing hminted .refl hrun
    exact (hacts _ rfl).2
  · obtain ⟨tr, hrun⟩ := runs_run (fun _ => True) (postCancelClose (deploymentOn 2) unary
      ⟨makeClosureToken unary firstClosure, none⟩) closedTwice
    rw [← presented] at hrun
    obtain ⟨-, -, hsuperseded⟩ :=
      token_scope unary_ideal timed_closing hminted timed_closedTwice hrun
    have hsecond : closedTwice.closures.get? 1 = some (newClosure (deploymentOn 2) "u1" .manual) := by
      decide +kernel
    exact (hsuperseded 1 _ hsecond rfl (by decide)).1

end StapelGdpr
