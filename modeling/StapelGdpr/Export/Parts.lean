import StapelGdpr.Export.Publication
import StapelGdpr.Export.Statements

/-!
# StapelGdpr.Export.Parts

A part of an export that is DONE is finished: its owner's slice is there, and the time it came.
`mark_part_ready` respects that with a conditional update. The provider loop of `run_export`
does not: it reads a part, calls the provider, and saves the outcome over whatever the row has
become in the meantime (`finished_lost`). Runs in which nobody completes a part between the
loop's read of it and its save lose nothing (`finished_kept`).
-/

namespace StapelGdpr.Export

open Prog

variable {κ : Type} [DecidableEq κ] {calls : κ → Exporter × Caller} {may : κ → ExportOp → Prop}
  {P : Pool ExportOp ExportDb ExportError Unit κ} {start db a b : ExportDb}
  {tr : List (Pool.Event κ ExportOp ExportDb)} {x : Exporter} {op : ExportOp}

/-! ### The condition -/

/-- The step completes the part. -/
def Completes (i : Nat) (e : Pool.Event κ ExportOp ExportDb) : Prop :=
  ¬ Finished e.before i ∧ Finished e.after i

/-- Nobody has completed the part that is saved since the loop read it. -/
def ReadStillTrue (pre : List (Pool.Event κ ExportOp ExportDb))
    (e : Pool.Event κ ExportOp ExportDb) : Prop :=
  ∀ i ∈ e.label.saves, ∀ d ∈ Pool.since ExportOp.isSelect e.thread pre, ¬ Completes i d

instance (db : ExportDb) (i : Nat) : Decidable (Finished db i) :=
  decidable_of_iff (∃ p ∈ db.parts.get? i, p.status = .done) Iff.rfl

omit [DecidableEq κ] in
instance (i : Nat) (e : Pool.Event κ ExportOp ExportDb) : Decidable (Completes i e) :=
  inferInstanceAs (Decidable (_ ∧ _))

instance (pre : List (Pool.Event κ ExportOp ExportDb)) (e : Pool.Event κ ExportOp ExportDb) :
    Decidable (ReadStillTrue pre e) :=
  inferInstanceAs (Decidable (∀ i ∈ e.label.saves, ∀ d ∈ _, _))

/-! ### What a save is preceded by -/

/-- A statement keeps what is finished, or it saves a part that the call's last read has found
unfinished. -/
def KeepsOrSaves (past : List (Memo ExportOp ExportDb)) (op : ExportOp) (a b : ExportDb) : Prop :=
  KeepsFinished a b ∨ ∃ i m f, op = .savePart i ∧ lastOf ExportOp.isSelect past = some m ∧
    ¬ Finished m.after i ∧ b = a.modifyPart i f

theorem Caller.keepsOrSaves (x : Exporter) (caller : Caller) :
    Recalls KeepsOrSaves (fun _ _ => True) (caller.prog x) [] := by
  have hretires : ∀ {α : Type} {p : ExportProgram α}, Always Retires p →
      Recalls KeepsOrSaves (fun _ _ => True) p [] :=
    fun h => Recalls.always h fun _ _ _ _ _ hop => .inl (.same hop.2)
  refine caller.recalls (fun _ _ _ _ h => .inl h.kept) (fun past m i f db hread hopen => ?_)
    (hretires purgeExpiredExports_retires) fun _ _ => hretires serve_retires
  exact ⟨.inr ⟨i, m, f, rfl, hread, hopen, rfl⟩, .inl (.same rfl)⟩

/-! ### Every run -/

/-- **A finished part stays finished**, with the time it was finished at, from any moment of a
run to any later one: whatever calls race and whatever fails, as long as nobody completes a part
between the provider loop's read of it and its save. -/
theorem finished_kept (hrun : Pool.Runs may (callers calls) start tr P db)
    (hsave : ∀ pre e post, tr = pre ++ e :: post → ReadStillTrue pre e) :
    (stores start tr).Pairwise KeepsFinished := by
  have hsteps : ∀ e ∈ tr, KeepsFinished e.before e.after := by
    intro e he
    obtain ⟨pre, post, rfl⟩ := List.append_of_mem he
    have hstep := hrun.recalls (T := fun _ => KeepsOrSaves) (Q := fun _ _ => True)
      (fun k => (calls k).2.keepsOrSaves (calls k).1) pre e post rfl
    rcases hstep with hkept | ⟨i, m, f, hop, hread, hopen, hafter⟩
    · exact hkept
    · -- the part is unfinished when it is saved, as it was when it was read
      have hunfinished : ¬ Finished e.before i := by
        refine hrun.since (I := fun db => ¬ Finished db i) hread hopen fun d hd hbefore hdone => ?_
        exact hsave pre e post rfl i (by rw [hop]; rfl) d hd ⟨hbefore, hdone⟩
      rw [hafter]
      exact .modify fun p hp hdone => absurd ⟨p, hp, hdone⟩ hunfinished
  exact hrun.pairwise hsteps KeepsFinished.trans

theorem finished_kept_raced : (stores uploaded raceRun.1).Pairwise KeepsFinished ∧
    raceRun.2.2.doneServices 0 = ["profiles", "media"] :=
  ⟨finished_kept (Pool.runs_schedule (fun _ op => op.outside = true) raceOrder (callers race)
    uploaded) (by decide +kernel), by decide +kernel⟩

/-! ### A part un-finished -/

/-- The request, and two deliveries of its worker task. -/
def redelivery : Fin 3 → Exporter × Caller := fun k => match k with
  | 0 => (exporter, .request "u1")
  | _ => (exporter, .run 0)

/-- Both workers find the part of the provider unfinished. One exports it; then the provider
fails the other. -/
def redeliveryOrder : List (Fin 3 × Option ExportError) :=
  List.replicate 5 (0, none) ++ List.replicate 3 (1, none) ++ List.replicate 3 (2, none) ++
    List.replicate 4 (1, none) ++ [(2, some (.failure "disk full")), (2, none)]

def redeliveryRun : List (Pool.Event (Fin 3) ExportOp ExportDb) ×
    Pool ExportOp ExportDb ExportError Unit (Fin 3) × ExportDb :=
  Pool.scheduleFaults redeliveryOrder (callers redelivery) uploaded

/-- The part is DONE, and then FAILED. -/
theorem finished_lost : ¬ ∀ (calls : Fin 3 → Exporter × Caller) (may : Fin 3 → ExportOp → Prop)
    (start db : ExportDb) (tr : List (Pool.Event (Fin 3) ExportOp ExportDb))
    (P : Pool ExportOp ExportDb ExportError Unit (Fin 3)), Sound start →
    (∀ k op, may k op → op.outside = true) → Pool.Runs may (callers calls) start tr P db →
    (stores start tr).Pairwise KeepsFinished := by
  intro hclaim
  have hrun : Pool.Runs (fun _ op => op.outside = true) (callers redelivery) uploaded
      redeliveryRun.1 redeliveryRun.2.1 redeliveryRun.2.2 :=
    Pool.runs_scheduleFaults (by decide +kernel)
  have hkept := Pool.getD_stores (hclaim _ _ _ _ _ _ (sound_of_empty rfl rfl rfl)
    (fun _ _ h => h) hrun) uploaded (i := 15) (j := 17) (by decide) (by decide +kernel)
  obtain ⟨p', hp', hdone, -⟩ := hkept 0 ⟨0, "profiles", .done, none, some 0, none⟩
    (by decide +kernel) rfl
  have hlost : ((Pool.stores uploaded redeliveryRun.1).getD 17 uploaded).parts.get? 0 =
      some ⟨0, "profiles", .failed, none, none, some "disk full"⟩ := by decide +kernel
  obtain rfl := Option.some.inj (hp'.symm.trans hlost)
  exact absurd hdone (by decide)

end StapelGdpr.Export
