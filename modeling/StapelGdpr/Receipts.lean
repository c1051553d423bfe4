import StapelGdpr.Statements

/-!
# StapelGdpr.Receipts

What executions, deliveries and sweeps do to the parts of an erasure, statement by statement
and side by side. A delivery updates the part unless it is DONE; an execution reads the part,
looks at the copy and saves its columns whatever the row has become. Receipts are immutable
as long as no receipt of a part is recorded between such a read and its save
(`receipts_immutable`).
-/

namespace StapelGdpr

open Prog

variable {env : Env} {op : Op} {a b c db start : Db} {i pk : Nat} {p : ErasurePart}

/-! ### Statements -/

/-- What a statement makes of the parts. -/
inductive Receives : Op → Table ErasurePart → Table ErasurePart → Prop
  | same {op : Op} {t : Table ErasurePart} : Receives op t t
  | slots {st sk : String} {t : Table ErasurePart} {parts : List ErasurePart} :
      Receives (.erasureUnit st sk) t (t.insertAll parts)
  | saved {i : Nat} {t : Table ErasurePart} {now : Time} {counts : Counts} :
      Receives (.localReceipt i) t (t.modify i (·.recordReceipt now counts))
  | delivered {request : Nat} {service : String} {t : Table ErasurePart} {now : Time} {id : Uuid}
      {receiptId : String} {counts : Counts} :
      Receives (.receipt request service) t
        (t.update (·.awaits request service) (·.receive now id receiptId counts))
  | timedOut {t : Table ErasurePart} {now : Time} :
      Receives .sweepParts t (t.update (·.overdue now) (·.timeOut))

/-- What a statement makes of the requests. -/
inductive Decides : Op → Table ErasureRequest → Table ErasureRequest → Prop
  | same {op : Op} {t : Table ErasureRequest} : Decides op t t
  | opened {st sk : String} {t : Table ErasureRequest} {row : ErasureRequest} :
      Decides (.erasureUnit st sk) t (t.insert row)
  | certified {pk : Nat} {t : Table ErasureRequest} {now : Time} {waived : Bool} :
      Decides (.certify pk) t (t.modify pk (·.certify now waived))
  | timedOut {pk : Nat} {t : Table ErasureRequest} :
      Decides (.timeoutUnit pk) t (t.modify pk (·.timeOut))

/-- What a statement makes of both. -/
structure Books (op : Op) (a b : Db) : Prop where
  parts : Receives op a.parts b.parts
  requests : Decides op a.requests b.requests

theorem Books.same (hp : b.parts = a.parts) (hr : b.requests = a.requests) : Books op a b :=
  ⟨hp ▸ .same, hr ▸ .same⟩

theorem Books.refl (op : Op) (a : Db) : Books op a a := .same rfl rfl

theorem openErasure_books {st sk : String} {args : ErasureArgs} {request : Stored ErasureRequest}
    (h : a.openErasure env st sk args = .ok (request, b)) : Books (.erasureUnit st sk) a b := by
  unfold Db.openErasure at h
  split at h
  · exact absurd h (by simp)
  · dsimp only at h
    split at h
    · exact absurd h (by simp)
    · obtain ⟨-, rfl⟩ := Prod.mk.inj (Except.ok.inj h)
      exact ⟨.slots, .opened⟩

theorem flipSteps_books : FlipSteps env Books where
  select := .refl _
  certify _ db := ⟨.refl _ db, fun _ => ⟨.same, .certified⟩⟩
  query _ _ := .refl _
  obligation _ _ db := ⟨.refl _ db, fun _ => .same rfl rfl⟩
  delete _ db := ⟨.refl _ db, fun _ => .same rfl rfl⟩

theorem localSteps_books {userId : UserId} : LocalSteps env pk userId Books where
  select := .refl _
  storeHash _ _ := .same rfl rfl
  anonymize _ := .refl _
  delete _ := .refl _
  localReceipt _ db := ⟨.refl _ db, fun _ => ⟨.saved, .same⟩⟩
  eraseIdentity _ _ := .same rfl rfl
  identityErased db := ⟨.refl _ db, .same rfl rfl⟩
  localDone db := ⟨.refl _ db, fun _ _ => .same rfl rfl⟩

theorem executeDeletion_books {closure : Stored AccountClosureRequest} :
    Always Books (executeDeletion env closure) :=
  executeDeletion_always (startDeleting_always fun db => ⟨.refl _ db, .same rfl rfl⟩)
    (fun _ => closureErasure_always (.refl _) fun db => ⟨.refl _ db, fun _ _ => openErasure_books⟩)
    localSteps_books flipSteps_books

theorem markSectionErased_books {correlationId : Uuid} {service receiptId : String}
    {counts : Counts} :
    Always Books (markSectionErased env correlationId service receiptId counts) :=
  markSectionErased_always (fun _ db => ⟨.refl _ db, .delivered, .same⟩) flipSteps_books

theorem sweepDeletionDeadlines_books : Always Books (sweepDeletionDeadlines env) :=
  sweepDeletionDeadlines_always (.refl _) (fun db => ⟨.refl _ db, .timedOut, .same⟩)
    fun _ db => ⟨.refl _ db, fun _ => ⟨.same, .timedOut⟩⟩

/-! ### Calls side by side -/

/-- The calls that account for an erasure: executions, deliveries, sweeps. -/
def Call.accounts : Call → Bool
  | .executeDeletion _ | .processExpiredGracePeriods | .markSectionErased .. | .sectionErased _ |
    .sweepDeletionDeadlines => true
  | _ => false

theorem Call.books {call : Call} (h : call.accounts = true) : Always Books (call.prog env) := by
  unfold Call.prog
  cases call with
  | executeDeletion => exact executeDeletion_books
  | processExpiredGracePeriods =>
      exact (always_select (.refl _)).bind fun _ => Always.forM fun _ _ =>
        executeDeletion_books.tryCatch fun _ => always_ret
  | markSectionErased => exact markSectionErased_books
  | sectionErased event =>
      dsimp only [handleSectionErased]
      split
      · exact always_ret
      split
      · exact always_ret
      · exact markSectionErased_books
  | sweepDeletionDeadlines => exact sweepDeletionDeadlines_books.bind fun _ => always_ret
  | _ => exact absurd h (by simp [Call.accounts])

/-- The calls side by side, each under its own environment. -/
def accounting {κ : Type} (calls : κ → Env × Call) : Pool Op Db Error Unit κ :=
  fun k => (calls k).2.prog (calls k).1

variable {κ : Type} [DecidableEq κ] {calls : κ → Env × Call} {may : κ → Op → Prop}
  {tr : List (Pool.Event κ Op Db)} {P : Pool Op Db Error Unit κ}

theorem accounting_books (hcalls : ∀ k, (calls k).2.accounts = true)
    (hrun : Pool.Runs may (accounting calls) start tr P db) :
    ∀ e ∈ tr, Books e.label e.before e.after :=
  hrun.always (M := fun _ => Books) fun k => Call.books (hcalls k)

/-! ### Receipts -/

/-- A part that is DONE stays DONE with its receipt. -/
def KeepsReceipts (a b : Db) : Prop :=
  ∀ i p, a.parts.get? i = some p → p.state = .done → ∃ p', b.parts.get? i = some p' ∧
    p'.state = .done ∧ p'.receiptId = p.receiptId ∧ p'.receiptAt = p.receiptAt ∧
    p'.counts = p.counts

theorem KeepsReceipts.refl (a : Db) : KeepsReceipts a a := fun _ p hp hdone =>
  ⟨p, hp, hdone, rfl, rfl, rfl⟩

theorem KeepsReceipts.trans (h : KeepsReceipts a b) (h' : KeepsReceipts b c) :
    KeepsReceipts a c := by
  intro i p hp hdone
  obtain ⟨p₁, hp₁, hdone₁, hid₁, hat₁, hcounts₁⟩ := h i p hp hdone
  obtain ⟨p₂, hp₂, hdone₂, hid₂, hat₂, hcounts₂⟩ := h' i p₁ hp₁ hdone₁
  exact ⟨p₂, hp₂, hdone₂, hid₂.trans hid₁, hat₂.trans hat₁, hcounts₂.trans hcounts₁⟩

/-- Every other statement leaves a DONE part as it is. -/
theorem Receives.done {t t' : Table ErasurePart} (h : Receives op t t')
    (hp : t.get? i = some p) (hdone : p.state = .done) (hother : op ≠ .localReceipt i) :
    t'.get? i = some p := by
  cases h with
  | same => exact hp
  | slots => exact Table.get?_insertAll_of_some _ hp
  | @saved j =>
      have hne : i ≠ j := fun heq => hother (heq ▸ rfl)
      rw [Table.get?_modify_of_ne _ hne, hp]
  | @delivered request service =>
      have hskip : ¬ p.awaits request service = true := fun h =>
        (ErasurePart.awaits_iff.mp h).2.2 hdone
      rw [Table.get?_update, hp, Option.map_some, if_neg hskip]
  | @timedOut _ now =>
      have hskip : ¬ p.overdue now = true := fun h => by
        have hpending := (ErasurePart.overdue_iff.mp h).1
        rw [hdone] at hpending
        exact absurd hpending (by decide)
      rw [Table.get?_update, hp, Option.map_some, if_neg hskip]

theorem Books.keepsReceipts (h : Books op a b)
    (hfresh : ∀ i p, op = .localReceipt i → a.parts.get? i = some p → p.state ≠ .done) :
    KeepsReceipts a b := by
  intro i p hp hdone
  have hother : op ≠ .localReceipt i := fun hop => hfresh i p hop hp hdone
  exact ⟨p, h.parts.done hp hdone hother, hdone, rfl, rfl, rfl⟩

/-! ### What an execution has read -/

/-- The part is there, without a receipt. -/
def Unreceipted (i : Nat) (db : Db) : Prop := ∃ p, db.parts.get? i = some p ∧ p.state ≠ .done

/-- A local receipt is saved on a part that the thread's last query found without one. -/
def SavesRead (past : List (Memo Op Db)) (op : Op) (_ _ : Db) : Prop :=
  ∀ i, op = .localReceipt i → ∃ m, lastOf Op.isSelect past = some m ∧ Unreceipted i m.after

section Recalls

variable {α : Type} {past : List (Memo Op Db)}

/-- A program without local receipts. -/
theorem savesRead_of_labels {p : Program α} (h : Labels (fun op => ∀ i, op ≠ .localReceipt i) p) :
    Recalls SavesRead (fun _ _ => True) p past :=
  Recalls.always h fun _ _ _ _ _ hno i hop => absurd hop (hno i)

theorem noReceipt_of_flip (op : Op) (h : FlipOp op) (i : Nat) : op ≠ .localReceipt i := by
  rintro rfl
  exact h

theorem recordLocalReceipts_recalls {request : Stored ErasureRequest} {failed : List String} :
    Recalls SavesRead (fun _ _ => True) (recordLocalReceipts env request failed) past := by
  refine Recalls.forM fun owner _ past' _ => ?_
  unfold recordLocalReceipt
  split
  · exact trivial
  refine Recalls.query_bind fun s => ⟨nofun, ?_⟩
  cases hfound : s.parts.first? fun p => p.request = request.pk && p.owner = owner.name with
  | none => exact trivial
  | some part =>
      dsimp only
      split
      · exact trivial
      · rename_i hopen
        have hread : SavesRead (past' ++ [⟨.select, s, s, true⟩]) (.localReceipt part.pk) s s := by
          intro i hop
          obtain rfl := Op.localReceipt.inj hop
          exact ⟨_, lastOf_concat, part.row, (Table.first?_some hfound).1, hopen⟩
        exact Recalls.write fun _ => ⟨⟨hread, hread⟩, trivial⟩

theorem eraseSubject_savesRead {closure : Stored AccountClosureRequest} {correlationId : Uuid}
    {erasure : Stored ErasureRequest} : Recalls SavesRead (fun _ _ => True)
      (eraseSubject env closure correlationId erasure) past := by
  rw [eraseSubject_eq]
  refine (savesRead_of_labels (storeReregistrationHashes_always (fun _ => by simp)
    fun _ _ => by simp)).bind fun _ past₁ _ _ => ?_
  refine (savesRead_of_labels (runDeletionInprocess_always (fun _ _ => by simp)
    fun _ _ => by simp)).bind fun failed past₂ _ _ => ?_
  refine recordLocalReceipts_recalls.bind fun _ past₃ _ _ => savesRead_of_labels ?_
  split
  · exact always_ret
  · refine Always.bind (identityErased_always (fun _ => by simp) fun _ _ => by simp) fun erased => ?_
    split
    · exact always_ret
    · refine Always.bind (.write fun _ => ⟨by simp, by simp⟩) fun _ => ?_
      exact Always.bind (.write fun _ => ⟨by simp, by simp⟩) fun _ => always_ret

theorem executeDeletion_savesRead {closure : Stored AccountClosureRequest} :
    Recalls SavesRead (fun _ _ => True) (executeDeletion env closure) past := by
  refine executeDeletion_recalls (fun db => nofun) (fun _ => ?_) (fun _ _ _ => ?_)
    (fun _ _ _ _ => eraseSubject_savesRead) fun _ _ _ _ => ?_
  · exact savesRead_of_labels (startDeleting_always fun _ => ⟨by simp, by simp⟩)
  · exact savesRead_of_labels (closureErasure_always (fun _ => by simp) fun _ =>
      ⟨by simp, fun _ _ _ => by simp⟩)
  · refine savesRead_of_labels (maybeFinalize_always ?_)
    constructor <;> simp

end Recalls

theorem Call.savesRead {call : Call} (h : call.accounts = true) :
    Recalls SavesRead (fun _ _ => True) (call.prog env) [] := by
  unfold Call.prog
  cases call with
  | executeDeletion => exact executeDeletion_savesRead
  | processExpiredGracePeriods =>
      exact Recalls.query_bind fun _ => ⟨nofun, Recalls.forM fun _ _ _ _ =>
        executeDeletion_savesRead.tryCatch fun _ _ _ => trivial⟩
  | markSectionErased =>
      exact savesRead_of_labels (markSectionErased_labels nofun (fun _ => nofun) noReceipt_of_flip)
  | sectionErased =>
      exact savesRead_of_labels
        (handleSectionErased_labels nofun (fun _ _ => nofun) noReceipt_of_flip)
  | sweepDeletionDeadlines =>
      exact savesRead_of_labels
        (discard_labels (sweepDeletionDeadlines_labels nofun nofun fun _ => nofun))
  | _ => simp [Call.accounts] at h

/-! ### Whole runs -/

/-- The event records a receipt of the part. -/
def Records (i : Nat) (e : Pool.Event κ Op Db) : Bool :=
  e.ok && match e.label with
    | .localReceipt j => j = i
    | .receipt request service => (e.before.parts.get? i).any (·.awaits request service)
    | _ => false

/-- Between an execution's read of a part and its save, no receipt of the part is recorded. -/
def NotOvertaken (past : List (Pool.Event κ Op Db)) (e : Pool.Event κ Op Db) : Bool :=
  match e.label with
  | .localReceipt i => (Pool.since Op.isSelect e.thread past).all (!Records i ·)
  | _ => true

omit [DecidableEq κ] in
/-- Nothing else gives a part a receipt. -/
theorem Books.unreceipted {e : Pool.Event κ Op Db} (h : Books e.label e.before e.after)
    (hok : e.ok = true) (hno : Records i e = false) (hs : Unreceipted i e.before) :
    Unreceipted i e.after := by
  obtain ⟨p, hp, hopen⟩ := hs
  unfold Records at hno
  rw [hok, hp, Bool.true_and] at hno
  obtain ⟨hparts, -⟩ := h
  generalize e.label = op at hparts hno
  generalize e.before.parts = t at hparts hp
  unfold Unreceipted
  generalize e.after.parts = t' at hparts
  cases hparts with
  | same => exact ⟨p, hp, hopen⟩
  | slots => exact ⟨p, Table.get?_insertAll_of_some _ hp, hopen⟩
  | @saved j =>
      have hne : i ≠ j := fun heq => by simp [heq] at hno
      exact ⟨p, by rw [Table.get?_modify_of_ne _ hne, hp], hopen⟩
  | @delivered request service =>
      have hskip : ¬ p.awaits request service = true := by simpa using hno
      exact ⟨p, by rw [Table.get?_update, hp, Option.map_some, if_neg hskip], hopen⟩
  | @timedOut _ now =>
      refine ⟨_, by rw [Table.get?_update, hp, Option.map_some], ?_⟩
      split
      · exact nofun
      · exact hopen

/-- **Receipts are immutable.** In every run of executions, deliveries and sweeps in which no
receipt of a part is recorded between an execution's read of the part and its save, a part that is
DONE at some moment is DONE with the same receipt at every later one. -/
theorem receipts_immutable (hcalls : ∀ k, (calls k).2.accounts = true)
    (hrun : Pool.Runs may (accounting calls) start tr P db)
    (hfresh : ∀ pre e post, tr = pre ++ e :: post → NotOvertaken pre e = true) :
    (Pool.stores start tr).Pairwise KeepsReceipts := by
  have hbooks := accounting_books hcalls hrun
  refine hrun.pairwise (fun e he => ?_) KeepsReceipts.trans
  cases hok : e.ok with
  | false =>
      -- a statement that failed has changed nothing
      rw [(hrun.failed e he hok).1]
      exact .refl _
  | true =>
      refine (hbooks e he).keepsReceipts fun i p hop hp => ?_
      obtain ⟨pre, post, hcut⟩ := List.append_of_mem he
      -- the save comes after a read that found the part without a receipt
      obtain ⟨m, hlast, hread⟩ :=
        hrun.recalls (fun k => Call.savesRead (hcalls k)) pre e post hcut i hop
      have hquiet := hfresh pre e post hcut
      rw [NotOvertaken, hop] at hquiet
      subst hcut
      have hopen : Unreceipted i e.before := by
        refine hrun.since hlast hread fun d hd hs => ?_
        have hmem : d ∈ pre ++ e :: post :=
          List.mem_append_left _ (List.IsSuffix.subset (List.rtakeWhile_suffix _ _) hd)
        cases hdok : d.ok with
        | false => exact (hrun.failed d hmem hdok).1 ▸ hs
        | true =>
            have hno : Records i d = false := by simpa using List.all_eq_true.mp hquiet d hd
            exact (hbooks d hmem).unreceipted hdok hno hs
      obtain ⟨p', hp', hopen'⟩ := hopen
      exact Option.some.inj (hp'.symm.trans hp) ▸ hopen'

/-- An execution, and a delivery for its local owner. -/
def overtaking : Bool → Env × Call
  | false => (deploymentOn 30, .executeDeletion closed)
  | true => (deploymentOn 30, .markSectionErased 0 "auth" "job-7" [("rows", 3)])

/-- The delivery lands between the read of the part and its save. -/
def overtaken : List (Pool.Event Bool Op Db) × Pool Op Db Error Unit Bool × Db :=
  Pool.schedule (List.replicate 10 false ++ [true, true, false]) (accounting overtaking) closing

/-- Its stores. -/
def overtakenStore (n : Nat) : Db := (Pool.stores closing overtaken.1).getD n closing

/-- The execution reads the part, the delivery its request; the receipt is saved, and the delivery
finds the part DONE. -/
def outrun : List (Pool.Event Bool Op Db) × Pool Op Db Error Unit Bool × Db :=
  Pool.schedule (List.replicate 10 false ++ [true, false, true] ++ List.replicate 12 false)
    (accounting overtaking) closing

theorem receipts_immutable_outrun : (Pool.stores closing outrun.1).Pairwise KeepsReceipts := by
  have hrun : Pool.Runs (fun _ _ => False) (accounting overtaking) closing outrun.1 outrun.2.1
      outrun.2.2 := Pool.runs_schedule _ _ _ _
  exact receipts_immutable (by decide) hrun (by decide +kernel)

/-- The receipt of the delivery is lost. -/
theorem receipt_overwritten : ¬ ∀ (calls : Bool → Env × Call) (start db : Db)
    (tr : List (Pool.Event Bool Op Db)) (P : Pool Op Db Error Unit Bool),
    (∀ k, (calls k).2.accounts = true) →
    Pool.Runs (fun _ _ => True) (accounting calls) start tr P db →
    (Pool.stores start tr).Pairwise KeepsReceipts := by
  intro hclaim
  have hrun : Pool.Runs (fun _ _ => True) (accounting overtaking) closing overtaken.1
      overtaken.2.1 overtaken.2.2 := Pool.runs_schedule _ _ _ _
  have hall := hclaim overtaking closing _ _ _ (by decide) hrun
  have hlen : 13 < (Pool.stores closing overtaken.1).length := by decide +kernel
  have hkeeps : KeepsReceipts (overtakenStore 12) (overtakenStore 13) :=
    Pool.getD_stores hall closing (by omega) hlen
  have hbefore : ((overtakenStore 12).parts.get? 0).map (fun p => (p.state, p.receiptId)) =
      some (.done, "job-7") := by decide +kernel
  have hafter : ((overtakenStore 13).parts.get? 0).any (fun p => p.receiptId = "job-7") = false := by
    decide +kernel
  obtain ⟨p, hp, hreceipt⟩ := Option.map_eq_some_iff.mp hbefore
  obtain ⟨hdone, hid⟩ := Prod.mk.inj hreceipt
  obtain ⟨p', hp', -, hkept, -, -⟩ := hkeeps 0 p hp hdone
  rw [hp', Option.any_some, hkept, hid] at hafter
  exact absurd hafter (by decide)

end StapelGdpr
