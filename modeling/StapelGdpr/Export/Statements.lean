import StapelGdpr.Export.Orchestrator
import StapelGdpr.Lib.Recall

/-!
# StapelGdpr.Export.Statements

What the functions of the export side do statement by statement, whatever fails and whatever
others do meanwhile. Two kinds of statement are apart from all others: the save at the end of a
provider's turn (`savePart`) and the ones by which a row lets go of its archive (`expireRow`,
`nullPath`). Every other one **gathers**: it un-finishes no part.

`exportPart` has the only save, and it has read the part before (`exportPart_recalls`).
`expireExport` and `serve` have the others. `Caller.recalls` puts together what a thread recalls.
-/

namespace StapelGdpr.Export

open Prog

variable {x : Exporter} {a b c : ExportDb} {op : ExportOp} {req : Stored DataExportRequest}
  {pk : Nat}

/-! ### Finished parts -/

/-- Every finished part of `a` is finished in `b`, since the same time. -/
def KeepsFinished (a b : ExportDb) : Prop :=
  ∀ i p, a.parts.get? i = some p → p.status = .done →
    ∃ p', b.parts.get? i = some p' ∧ p'.status = .done ∧ p'.completedAt = p.completedAt

theorem KeepsFinished.trans (h : KeepsFinished a b) (h' : KeepsFinished b c) :
    KeepsFinished a c := by
  intro i p hp hdone
  obtain ⟨p', hp', hdone', htime⟩ := h i p hp hdone
  obtain ⟨p'', hp'', hdone'', htime'⟩ := h' i p' hp' hdone'
  exact ⟨p'', hp'', hdone'', htime'.trans htime⟩

theorem KeepsFinished.same (h : b.parts = a.parts) : KeepsFinished a b := by
  intro i p hp hdone
  exact ⟨p, by rw [h]; exact hp, hdone, rfl⟩

/-- A row may be changed where it is not finished, or in its other columns. -/
theorem KeepsFinished.modify {i : Nat} {f : DataExportPart → DataExportPart}
    (hf : ∀ p, a.parts.get? i = some p → p.status = .done →
      (f p).status = .done ∧ (f p).completedAt = p.completedAt) :
    KeepsFinished a (a.modifyPart i f) := by
  intro j p hp hdone
  by_cases hj : j = i
  · subst hj
    exact ⟨f p, Table.get?_modify_self f hp, hf p hp hdone⟩
  · exact ⟨p, (Table.get?_modify_of_ne f hj).trans hp, hdone, rfl⟩

/-- The part is DONE. -/
def Finished (db : ExportDb) (i : Nat) : Prop := ∃ p, db.parts.get? i = some p ∧ p.status = .done

/-! ### Kinds of statements -/

/-- Does the statement read the database? -/
def ExportOp.isSelect (op : ExportOp) : Bool := op = .select

/-- The part the provider loop saves. -/
def ExportOp.saves : ExportOp → Option Nat
  | savePart i => some i
  | _ => none

/-- The request whose row lets go of its archive. -/
def ExportOp.releases : ExportOp → Option Nat
  | expireRow pk | nullPath pk => some pk
  | _ => none

/-- What every other statement does. -/
structure Gathers (op : ExportOp) (a b : ExportDb) : Prop where
  saves : op.saves = none
  releases : op.releases = none
  kept : KeepsFinished a b

/-- A statement that leaves the parts alone. -/
theorem Gathers.of_parts (hs : op.saves = none) (hr : op.releases = none)
    (h : b.parts = a.parts) : Gathers op a b := ⟨hs, hr, .same h⟩

section Ways

variable {α : Type}

theorem gathers_query {g : ExportDb → α} (hs : op.saves = none) (hr : op.releases = none) :
    Always Gathers (Prog.query op g : ExportProgram α) :=
  .query fun _ => .of_parts hs hr rfl

theorem gathers_write {u : ExportDb → ExportDb} (hs : op.saves = none) (hr : op.releases = none)
    (hu : ∀ db, KeepsFinished db (u db)) : Always Gathers (Prog.write op u : ExportProgram Unit) :=
  .write fun db => ⟨.of_parts hs hr rfl, hs, hr, hu db⟩

theorem gathers_atomic {u : ExportDb → Except ExportError (α × ExportDb)} (hs : op.saves = none)
    (hr : op.releases = none) (hu : ∀ db r db', u db = .ok (r, db') → KeepsFinished db db') :
    Always Gathers (Prog.atomic op u : ExportProgram α) :=
  .atomic fun db => ⟨.of_parts hs hr rfl, fun r db' h => ⟨hs, hr, hu db r db' h⟩⟩

end Ways

/-! ### Requesting an export -/

theorem createPart_gathers {service : String} : Always Gathers (createPart pk service) := by
  refine gathers_atomic rfl rfl fun db _ db' h => ?_
  split at h
  · exact absurd h (by simp)
  · obtain ⟨-, rfl⟩ := Prod.mk.inj (Except.ok.inj h)
    intro i p hp hdone
    exact ⟨p, Table.get?_insert_of_some _ hp, hdone, rfl⟩

theorem requestExport_gathers {userId : UserId} : Always Gathers (requestExport x userId) := by
  refine (gathers_query rfl rfl).bind fun recent => ?_
  split
  · exact always_raise
  refine Always.bind (gathers_atomic rfl rfl fun db _ db' h => ?_) fun req => ?_
  · obtain ⟨-, rfl⟩ := Prod.mk.inj (Except.ok.inj h)
    exact .same rfl
  refine (Always.forM fun _ _ => createPart_gathers).bind fun _ => ?_
  exact (gathers_query rfl rfl).bind fun _ => always_ret

/-! ### Assembling the archive -/

theorem downloadPart_gathers {staged : List Nat} {part : Stored DataExportPart} :
    Always Gathers (downloadPart x req staged part) := by
  refine (gathers_query rfl rfl).bind fun _ => (gathers_query rfl rfl).bind fun there => ?_
  split
  · exact always_ret
  split
  · exact always_ret
  refine Always.tryCatch ?_ fun _ => always_ret
  refine Always.bind (gathers_atomic rfl rfl fun db _ db' h => ?_) fun bytes => ?_
  · split at h
    · obtain ⟨-, rfl⟩ := Prod.mk.inj (Except.ok.inj h)
      exact .same rfl
    · exact absurd h (by simp)
  refine Always.bind ?_ fun _ => always_ret
  exact Always.bind (gathers_write rfl rfl fun _ => .same rfl) fun _ =>
    gathers_write rfl rfl fun _ => .same rfl

theorem downloadBucketParts_gathers : Always Gathers (downloadBucketParts x req) :=
  (gathers_query rfl rfl).bind fun _ => Always.foldlM fun _ _ _ => downloadPart_gathers

theorem purgeBucketParts_gathers {staged : List Nat} :
    Always Gathers (purgeBucketParts req staged) := by
  unfold purgeBucketParts
  split
  · exact always_ret
  refine (gathers_query rfl rfl).bind fun parts => Always.forM fun part _ => ?_
  refine Always.bind (Always.tryCatch ((gathers_query rfl rfl).bind fun there => ?_)
    fun _ => always_ret) fun gone => ?_
  · split
    · exact Always.bind (gathers_write rfl rfl fun _ => .same rfl) fun _ => always_ret
    · exact always_ret
  · split
    · exact gathers_write rfl rfl fun _ => .modify fun _ _ hdone => ⟨hdone, rfl⟩
    · exact always_ret

theorem afterPublication_gathers {staged : List Nat} :
    Always Gathers (afterPublication req staged) := by
  refine (gathers_query rfl rfl).bind fun _ => ?_
  refine Always.bind (Always.tryCatch (gathers_write rfl rfl fun _ => .same rfl)
    fun _ => always_ret) fun _ => ?_
  refine purgeBucketParts_gathers.bind fun _ => ?_
  exact (gathers_query rfl rfl).tryCatch fun _ => always_ret

theorem buildArchive_gathers {isPartial : Bool} {missing : List String} :
    Always Gathers (buildArchive x req isPartial missing) := by
  refine (gathers_query rfl rfl).bind fun archive => gathers_atomic rfl rfl fun db _ db' h => ?_
  obtain ⟨-, rfl⟩ := Prod.mk.inj (Except.ok.inj h)
  exact .same rfl

theorem assembleZip_gathers {isPartial : Bool} : Always Gathers (assembleZip x req isPartial) := by
  refine downloadBucketParts_gathers.bind fun staged => (gathers_query rfl rfl).bind fun _ => ?_
  refine (gathers_query rfl rfl).bind fun _ => ?_
  refine (buildArchive_gathers.tryFinally fun _ => gathers_query rfl rfl).bind fun _ => ?_
  exact Always.bind (gathers_write rfl rfl fun _ => .same rfl) fun _ => afterPublication_gathers

theorem tryAssemble_gathers {force : Bool} : Always Gathers (tryAssemble x pk force) := by
  refine Always.bind (gathers_atomic rfl rfl fun db _ db' h => ?_) fun locked => ?_
  · split at h
    · exact absurd h (by simp)
    split at h
    · obtain ⟨-, rfl⟩ := Prod.mk.inj (Except.ok.inj h)
      exact .same rfl
    split at h
    · obtain ⟨-, rfl⟩ := Prod.mk.inj (Except.ok.inj h)
      exact .same rfl
    · obtain ⟨-, rfl⟩ := Prod.mk.inj (Except.ok.inj h)
      exact .same rfl
  cases locked with
  | none => exact always_ret
  | some locked =>
      refine Always.tryCatch ((gathers_query rfl rfl).bind fun _ => assembleZip_gathers)
        fun e => ?_
      exact Always.bind (gathers_write rfl rfl fun _ => .same rfl) fun _ => always_raise

/-! ### The callers of assembly -/

theorem startExport_gathers : Always Gathers (startExport pk) := by
  refine gathers_atomic rfl rfl fun db _ db' h => ?_
  split at h
  · exact absurd h (by simp)
  split at h
  · obtain ⟨-, rfl⟩ := Prod.mk.inj (Except.ok.inj h)
    exact .same rfl
  · obtain ⟨-, rfl⟩ := Prod.mk.inj (Except.ok.inj h)
    exact .same rfl

/-- The turn of a provider reads nothing from the database. -/
theorem exportOutcome_gathers {part : DataExportPart} :
    Always (fun op a b => Gathers op a b ∧ op.isSelect = false) (exportOutcome x req part) := by
  refine Always.tryCatch ?_ fun _ => always_ret
  refine Always.bind (Always.external fun _ => ⟨.of_parts rfl rfl rfl, rfl⟩) fun _ => ?_
  refine Always.bind (Always.write fun db => ⟨⟨.of_parts rfl rfl rfl, rfl⟩,
    .of_parts rfl rfl (by simp), rfl⟩) fun _ => ?_
  exact Always.bind (Always.external fun _ => ⟨.of_parts rfl rfl rfl, rfl⟩) fun _ => always_ret

theorem markPartReady_gathers {id : Uuid} {service : String} {path : Option String} :
    Always Gathers (markPartReady x id service path) := by
  refine (gathers_query rfl rfl).bind fun found => ?_
  cases found with
  | none => exact always_ret
  | some req =>
      dsimp only
      split
      · exact always_ret
      refine Always.bind (gathers_atomic rfl rfl fun db _ db' h => ?_) fun updated => ?_
      · obtain ⟨-, rfl⟩ := Prod.mk.inj (Except.ok.inj h)
        -- `exclude(status=DONE)`
        intro i p hp hdone
        refine ⟨p, ?_, hdone, rfl⟩
        rw [Table.get?_update, hp]
        simp [DataExportPart.awaits, hdone]
      split
      · exact always_ret
      refine (gathers_query rfl rfl).bind fun fresh => ?_
      cases fresh with
      | none => exact always_raise
      | some _ => exact tryAssemble_gathers

theorem sweepDeadlines_gathers : Always Gathers (sweepDeadlines x) :=
  (gathers_query rfl rfl).bind fun _ => Always.forM fun _ _ => tryAssemble_gathers

/-! ### Retention and download -/

/-- What the statements of retention and download do. -/
def Retires (op : ExportOp) (a b : ExportDb) : Prop := op.saves = none ∧ b.parts = a.parts

theorem deleteArchive_retires {stored : String} : Always Retires (deleteArchive stored) := by
  unfold deleteArchive
  split
  · exact always_ret
  refine Always.tryCatch (Always.atomic fun db => ⟨⟨rfl, rfl⟩, fun _ db' h => ?_⟩) fun e => ?_
  · obtain ⟨-, rfl⟩ := Prod.mk.inj (Except.ok.inj h)
    exact ⟨rfl, by simp⟩
  · split
    · exact always_ret
    · exact always_raise

/-- It reads, and lets go of nothing. -/
theorem storedArchiveExists_retires {stored : Option String} :
    Always (fun op a b => Retires op a b ∧ op.releases = none) (storedArchiveExists stored) := by
  unfold storedArchiveExists
  split
  · exact always_ret
  · exact always_ret
  refine Always.tryCatch (Always.query fun _ => ⟨⟨rfl, rfl⟩, rfl⟩) fun e => ?_
  split
  · exact always_ret
  · exact always_raise

theorem expireExport_retires : Always Retires (expireExport req) := by
  refine Always.bind ?_ fun _ => Always.write fun _ => ⟨⟨rfl, rfl⟩, rfl, rfl⟩
  unfold deleteStored
  split
  · exact always_ret
  · exact always_ret
  refine deleteArchive_retires.bind fun deleted => ?_
  split
  · exact always_ret
  · exact (storedArchiveExists_retires.mono fun _ _ _ h => h.1).bind fun _ => always_ret

theorem purgeExpiredExports_retires : Always Retires (purgeExpiredExports x) := by
  refine Always.bind (Always.query fun _ => ⟨rfl, rfl⟩) fun stale => ?_
  refine Always.bind (Always.forM fun _ _ => expireExport_retires) fun _ => ?_
  refine Always.bind (Always.query fun _ => ⟨rfl, rfl⟩) fun orphans => ?_
  exact Always.bind (Always.forM fun _ _ => expireExport_retires) fun _ => always_ret

theorem serve_retires {userId : UserId} {token : Option TokenHash} :
    Always Retires (serve x userId token) := by
  unfold serve
  split
  · exact always_ret
  refine Always.bind (Always.query fun _ => ⟨rfl, rfl⟩) fun found => ?_
  cases found with
  | none => exact always_ret
  | some req =>
      dsimp only
      split
      · exact always_ret
      split
      · exact always_ret
      split
      · exact expireExport_retires.bind fun _ => always_ret
      refine Always.bind (storedArchiveExists_retires.mono fun _ _ _ h => h.1) fun there => ?_
      split
      · exact always_ret
      refine Always.bind (Always.atomic fun db => ⟨⟨rfl, rfl⟩, fun _ db' h => ?_⟩) fun spent => ?_
      · obtain ⟨-, rfl⟩ := Prod.mk.inj (Except.ok.inj h)
        split <;> exact ⟨rfl, rfl⟩
      split
      · exact always_ret
      refine Always.bind (Always.atomic fun db => ⟨⟨rfl, rfl⟩, fun _ db' h => ?_⟩) fun _ => ?_
      · split at h
        · obtain ⟨-, rfl⟩ := Prod.mk.inj (Except.ok.inj h)
          exact ⟨rfl, rfl⟩
        · exact absurd h (by simp)
      refine deleteArchive_retires.bind fun _ => ?_
      exact Always.bind (Always.write fun _ => ⟨⟨rfl, rfl⟩, rfl, rfl⟩) fun _ => always_ret

/-! ### What a thread recalls -/

section Recalls

variable {T : List (Memo ExportOp ExportDb) → ExportOp → ExportDb → ExportDb → Prop}
  {past : List (Memo ExportOp ExportDb)}

theorem Gathers.recalls {α : Type} {p : ExportProgram α} (h : Always Gathers p)
    (hquiet : ∀ past op a b, Gathers op a b → T past op a b) :
    Recalls T (fun _ _ => True) p past :=
  Recalls.always h fun _ _ _ _ _ hop => hquiet _ _ _ _ hop

/-- What a save is preceded by: the last thing read is that the part is unfinished. -/
def SavesRead (T : List (Memo ExportOp ExportDb) → ExportOp → ExportDb → ExportDb → Prop) : Prop :=
  ∀ past m i f db, lastOf ExportOp.isSelect past = some m → ¬ Finished m.after i →
    T past (.savePart i) db (db.modifyPart i f) ∧ T past (.savePart i) db db

/-- One turn of the loop: it reads, it asks the provider, it saves. -/
theorem exportPart_recalls {service : String}
    (hquiet : ∀ past op a b, Gathers op a b → T past op a b) (hsave : SavesRead T) :
    Recalls T (fun _ _ => True) (exportPart x req service) past := by
  refine Recalls.query_bind fun db => ⟨hquiet _ _ _ _ (.of_parts rfl rfl rfl), ?_⟩
  cases hfound : db.parts.first? fun p => p.request = req.pk && p.service = service with
  | none => exact trivial
  | some part =>
      dsimp only
      split
      · exact trivial
      rename_i hopen
      refine (Recalls.unread exportOutcome_gathers fun past' op a b _ h =>
        ⟨hquiet past' op a b h.1, h.2⟩).bind fun outcome past' _ hlast => Recalls.write fun db' => ?_
      rw [lastOf_concat] at hlast
      refine ⟨hsave past' _ part.pk _ db' hlast fun ⟨p, hp, hdone⟩ => hopen ?_, trivial⟩
      obtain rfl := Option.some.inj (hp.symm.trans (Table.first?_some hfound).1)
      exact hdone

theorem runExport_recalls (hquiet : ∀ past op a b, Gathers op a b → T past op a b)
    (hsave : SavesRead T) : Recalls T (fun _ _ => True) (runExport x pk) past := by
  refine (Gathers.recalls startExport_gathers hquiet).bind fun started past₁ _ _ => ?_
  cases started with
  | none => exact trivial
  | some req =>
      refine (Gathers.recalls (gathers_query rfl rfl) hquiet).bind fun _ past₂ _ _ => ?_
      refine (Recalls.forM fun _ _ _ _ => exportPart_recalls hquiet hsave).bind
        fun _ past₃ _ _ => ?_
      exact Gathers.recalls tryAssemble_gathers hquiet

/-- What every call recalls, when its statements do and its retention does. -/
theorem Caller.recalls (caller : Caller) (hquiet : ∀ past op a b, Gathers op a b → T past op a b)
    (hsave : SavesRead T) (hpurge : Recalls T (fun _ _ => True) (purgeExpiredExports x) [])
    (hserve : ∀ userId token, Recalls T (fun _ _ => True) (serve x userId token) []) :
    Recalls T (fun _ _ => True) (caller.prog x) [] := by
  cases caller with
  | request userId =>
      exact Gathers.recalls (requestExport_gathers.bind fun _ => always_ret) hquiet
  | run pk => exact runExport_recalls hquiet hsave
  | partReady id service path => exact Gathers.recalls markPartReady_gathers hquiet
  | sweep => exact Gathers.recalls sweepDeadlines_gathers hquiet
  | purge => exact hpurge.bind fun _ _ _ _ => trivial
  | download userId token => exact (hserve userId token).bind fun _ _ _ _ => trivial

end Recalls

end StapelGdpr.Export
