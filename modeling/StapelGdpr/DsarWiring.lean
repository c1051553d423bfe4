import StapelGdpr.Dsar
import StapelGdpr.Export.Cooldown
import StapelGdpr.Reactivation

/-!
# StapelGdpr.DsarWiring

How many closures and exports one data-subject request starts.

`wire_dsar` starts something unless the row already links to what it started. The export branch
makes that link last, after the worker task was dispatched, and the erasure branch makes none:
what keeps a second PATCH from starting again is the guard inside `initiate_closure`, which no
longer stands once the person has cancelled (`started_again`). `Desk.refuses` says when a PATCH
starts nothing, and a life in which every later PATCH is refused starts one thing at most
(`started_once`).
-/

namespace StapelGdpr

open Prog
open Export (ExportDb Exporter)

variable {env : DeskEnv} {desk desk' start a b c : Desk} {dsar : Stored DsarRequest}
  {userId : UserId} {pk : Nat}

/-! ### What stands against starting anything -/

/-- `wire_dsar` starts nothing for this row. -/
def Desk.refuses (desk : Desk) (now : Time) (row : DsarRequest) : Bool :=
  match row.userId with
  | none => true
  | some userId =>
      row.erasureRequest ≠ none || row.exportRequest ≠ none ||
        match row.kind with
        | .erasure => desk.core.isHeld userId || desk.core.closing userId
        | .access | .portability => desk.exports.coolingDown userId now
        | .rectification => true

/-- How many closures and exports there are. -/
def Desk.started (desk : Desk) : Nat := desk.core.closures.nextPk + desk.exports.requests.nextPk

/-- The intake's own statements create nothing. -/
def SameStores (a b : Desk) : Prop :=
  b.core = a.core ∧ b.exports = a.exports ∧ b.dsars.nextPk = a.dsars.nextPk

theorem SameStores.refl (a : Desk) : SameStores a a := ⟨rfl, rfl, rfl⟩

theorem SameStores.trans (h : SameStores a b) (h' : SameStores b c) : SameStores a c :=
  ⟨h'.1.trans h.1, h'.2.1.trans h.2.1, h'.2.2.trans h.2.2⟩

theorem SameStores.started (h : SameStores a b) : b.started = a.started := by
  unfold Desk.started
  rw [h.1, h.2.1]

theorem SameStores.refuses (h : SameStores a b) (now : Time) (row : DsarRequest) :
    b.refuses now row = a.refuses now row := by
  unfold Desk.refuses
  rw [h.1, h.2.1]

/-! ### The intake's own statements -/

theorem saveDsar_same {fields : DsarRequest → DsarRequest → DsarRequest} :
    Always (fun _ a b => SameStores a b) (saveDsar dsar fields) :=
  .write fun desk => ⟨.refl desk, rfl, rfl, Table.nextPk_modify _ _ _⟩

theorem saveDsar_within {fields : DsarRequest → DsarRequest → DsarRequest} :
    Within (SameStores desk) (saveDsar dsar fields) desk :=
  saveDsar_same.within (fun _ _ hab ha => ha.trans hab) (.refl desk)

theorem notAutomated_same {e : DeskError} :
    Always (fun _ a b => SameStores a b) (notAutomated env dsar e) :=
  saveDsar_same.bind fun _ => always_ret

theorem acknowledge_same : Always (fun _ a b => SameStores a b) (acknowledge env dsar) := by
  refine Always.bind (((Always.external .refl).bind fun _ => always_ret).tryCatch fun _ =>
    always_ret) fun queued => ?_
  split
  · exact always_ret
  · exact saveDsar_same.bind fun _ => always_ret

theorem notifyStaff_same : Always (fun _ a b => SameStores a b) (notifyStaff env) :=
  .forM fun _ _ => (Always.external .refl).tryCatch fun _ => always_ret

/-! ### What one call starts -/

/-- `n` requests have ever been made, and `m` things were started at most. -/
def Desk.AtMost (n m : Nat) (desk : Desk) : Prop := desk.dsars.nextPk = n ∧ desk.started ≤ m

theorem AtMost.same {n m : Nat} (h : SameStores a b) (ha : a.AtMost n m) : b.AtMost n m :=
  ⟨h.2.2.trans ha.1, h.started.le.trans ha.2⟩

theorem AtMost.of_same {n m : Nat} {α : Type} {p : DeskProgram α}
    (h : Always (fun _ a b => SameStores a b) p) (hdesk : desk.AtMost n m) :
    Within (Desk.AtMost n m) p desk :=
  h.within (fun _ _ hab ha => AtMost.same hab ha) hdesk

/-- `initiate_closure` creates one closure, and none for a user held or closing. -/
theorem initiateClosure_starts {n : Nat} (e : Env) (db : Db) (trigger : ClosureTrigger)
    (hn : db.closures.nextPk + (if db.isHeld userId || db.closing userId then 0 else 1) ≤ n) :
    Within (fun t => t.closures.nextPk ≤ n) (initiateClosure e userId trigger) db := by
  refine initiateClosure_within (by omega) fun t ht => ?_
  have hroom : db.closures.nextPk + 1 ≤ n := by simpa [ht.unheld, ht.free] using hn
  rw [ht.closures, Table.nextPk_insert]
  exact hroom

/-- `request_export` creates one request, and none for a user cooling down. -/
theorem requestExport_starts {n : Nat} (x : Exporter) (db : ExportDb)
    (hn : db.requests.nextPk + (if db.coolingDown userId x.env.now then 0 else 1) ≤ n) :
    Within (fun t => t.requests.nextPk ≤ n) (Export.requestExport x userId) db := by
  have hnow : db.requests.nextPk ≤ n := by omega
  rw [Export.requestExport_eq]
  refine does_bind.mpr (does_query.mpr ⟨⟨hnow, ?_⟩, fun _ _ => ⟨hnow, hnow⟩⟩)
  cases hcooling : db.coolingDown userId x.env.now with
  | true => exact does_raise.mpr hnow
  | false =>
      have hroom : db.requests.nextPk + 1 ≤ n := by simpa [hcooling] using hn
      have hpk : (db.requests.insert (Export.newRequest x userId db.uuid4)).nextPk ≤ n := by
        rw [Table.nextPk_insert]
        exact hroom
      exact does_bind.mpr (does_atomic.mpr ⟨⟨hpk, (Export.enroll_always _).within
        (fun _ _ hab ha => by rw [hab]; exact ha) hpk⟩, fun _ _ => ⟨hnow, hnow⟩⟩)

theorem ofCore_within {n m : Nat} {α : Type} {p : Program α} (hn : desk.dsars.nextPk = n)
    (h : Within (fun t => t.closures.nextPk + desk.exports.requests.nextPk ≤ m) p desk.core) :
    Within (Desk.AtMost n m) (DeskProgram.ofCore p) desk := by
  have hput : ∀ core : Db, core.closures.nextPk + desk.exports.requests.nextPk ≤ m →
      Desk.AtMost n m { desk with core := core } := fun _ hcore => ⟨hn, hcore⟩
  unfold DeskProgram.ofCore
  refine Within.lift ?_ ?_ ?_ h hput
  all_goals intros; rfl

theorem ofExports_within {n m : Nat} {α : Type} {p : Export.ExportProgram α}
    (hn : desk.dsars.nextPk = n)
    (h : Within (fun t => desk.core.closures.nextPk + t.requests.nextPk ≤ m) p desk.exports) :
    Within (Desk.AtMost n m) (DeskProgram.ofExports p) desk := by
  have hput : ∀ exports : ExportDb, desk.core.closures.nextPk + exports.requests.nextPk ≤ m →
      Desk.AtMost n m { desk with exports := exports } := fun _ hexports => ⟨hn, hexports⟩
  unfold DeskProgram.ofExports
  refine Within.lift ?_ ?_ ?_ h hput
  all_goals intros; rfl

/-- The erasure branch of `wire_dsar`. -/
theorem wireErasure_within {n m : Nat} (hn : desk.dsars.nextPk = n)
    (hm : desk.started + (if desk.core.isHeld userId || desk.core.closing userId then 0 else 1) ≤
      m) : Within (Desk.AtMost n m) (wireErasure env dsar userId) desk := by
  have hcreated : Within (fun t => t.closures.nextPk + desk.exports.requests.nextPk ≤ m)
      (do
        let closure ← initiateClosure env.env userId .manual
        return (Except.ok closure : Except DeskError _)) desk.core := by
    have hroom : desk.core.closures.nextPk + (if desk.core.isHeld userId ||
        desk.core.closing userId then 0 else 1) ≤ m - desk.exports.requests.nextPk := by
      unfold Desk.started at hm
      omega
    have hfits : desk.exports.requests.nextPk ≤ m := by
      unfold Desk.started at hm
      omega
    have hclosure := initiateClosure_starts env.env desk.core .manual hroom
    refine Does.bind (hclosure.imp (fun _ _ t ht => ?_) (fun _ t ht => ?_) fun _ t ht => ?_)
      fun _ _ ht => does_ret.mpr ht
    all_goals omega
  have hcaught := (ofCore_within hn hcreated).tryCatch (h := fun e => return .error e)
    fun _ _ ht => does_ret.mpr ht
  refine hcaught.bind fun closure t ht => ?_
  cases closure with
  | error e => exact AtMost.of_same notAutomated_same ht
  | ok closure => exact AtMost.of_same ((saveDsar_same.bind fun _ => always_ret).tryCatch fun _ =>
      notAutomated_same) ht

/-- The access and portability branch. -/
theorem wireExport_within {n m : Nat} (hn : desk.dsars.nextPk = n)
    (hm : desk.started + (if desk.exports.coolingDown userId env.env.now then 0 else 1) ≤ m) :
    Within (Desk.AtMost n m) (wireExport env dsar userId) desk := by
  have hcreated : Within (fun t => desk.core.closures.nextPk + t.requests.nextPk ≤ m)
      (Export.requestExport env.exporter userId) desk.exports := by
    have hroom : desk.exports.requests.nextPk + (if desk.exports.coolingDown userId
        env.exporter.env.now then 0 else 1) ≤ m - desk.core.closures.nextPk := by
      have hm' : desk.core.closures.nextPk + desk.exports.requests.nextPk +
        (if desk.exports.coolingDown userId env.exporter.env.now then 0 else 1) ≤ m := hm
      omega
    have hfits : desk.core.closures.nextPk ≤ m := by
      unfold Desk.started at hm
      omega
    refine (requestExport_starts env.exporter desk.exports hroom).imp (fun _ _ t ht => ?_)
      (fun _ t ht => ?_) fun _ t ht => ?_
    all_goals omega
  have hdispatched := (ofExports_within hn hcreated).bind (k := fun dataExport => do
      Prog.external (.dispatch dataExport.pk)
      return (Except.ok dataExport : Except DeskError _))
    fun _ _ ht => AtMost.of_same ((Always.external .refl).bind fun _ => always_ret) ht
  have hcaught := hdispatched.tryCatch (h := fun e => return .error e)
    fun _ _ ht => does_ret.mpr ht
  refine hcaught.bind fun dataExport t ht => ?_
  cases dataExport with
  | error e => exact AtMost.of_same notAutomated_same ht
  | ok dataExport => exact AtMost.of_same ((saveDsar_same.bind fun _ =>
      always_ret).tryCatch fun _ => notAutomated_same) ht

/-- `wire_dsar` starts one thing at most, and nothing for a request that is refused. -/
theorem wireDsar_within {n m : Nat} (hn : desk.dsars.nextPk = n)
    (hm : desk.started + (if desk.refuses env.env.now dsar.row then 0 else 1) ≤ m) :
    Within (Desk.AtMost n m) (wireDsar env dsar) desk := by
  have hnow : desk.AtMost n m := ⟨hn, by omega⟩
  unfold wireDsar
  cases huser : dsar.row.userId with
  | none => exact does_ret.mpr hnow
  | some userId =>
      dsimp only
      split
      · exact does_ret.mpr hnow
      rename_i hlinked
      rw [not_or, not_not, not_not] at hlinked
      cases hkind : dsar.row.kind with
      | erasure =>
          exact wireErasure_within hn (by simpa [Desk.refuses, huser, hkind, hlinked] using hm)
      | access =>
          exact wireExport_within hn (by simpa [Desk.refuses, huser, hkind, hlinked] using hm)
      | portability =>
          exact wireExport_within hn (by simpa [Desk.refuses, huser, hkind, hlinked] using hm)
      | rectification => exact does_ret.mpr hnow

/-! ### Intake and triage -/

/-- `create_dsar` starts nothing before its request exists, and one thing at most after. -/
theorem createDsar_within {kind : DsarKind} {subjectEmail : String} {channel : DsarChannel}
    {user : Option UserId} {note : String} :
    Within (fun t => t.AtMost desk.dsars.nextPk desk.started ∨
        t.AtMost (desk.dsars.nextPk + 1) (desk.started + 1))
      (createDsar env kind subjectEmail channel user note) desk := by
  have hnow : desk.AtMost desk.dsars.nextPk desk.started := ⟨rfl, Nat.le_refl _⟩
  refine does_bind.mpr (does_atomic.mpr ⟨?_, fun _ _ => ⟨.inl hnow, .inl hnow⟩⟩)
  -- the rest of the call is about the row that now exists
  have hcreated : ({ desk with dsars := desk.dsars.insert (newDsar env kind subjectEmail channel
      user note) } : Desk).AtMost (desk.dsars.nextPk + 1) desk.started :=
    ⟨Table.nextPk_insert _ _, Nat.le_refl _⟩
  have hlater : ∀ t : Desk, t.AtMost (desk.dsars.nextPk + 1) desk.started →
      t.AtMost (desk.dsars.nextPk + 1) (desk.started + 1) :=
    fun t ht => ⟨ht.1, ht.2.trans (by omega)⟩
  have hbefore : ∀ {α : Type} {p : DeskProgram α} {t : Desk},
      Always (fun _ a b => SameStores a b) p → t.AtMost (desk.dsars.nextPk + 1) desk.started →
      Does (fun _ => True) (fun _ _ t' => t'.AtMost (desk.dsars.nextPk + 1) (desk.started + 1))
        (fun _ t' => t'.AtMost (desk.dsars.nextPk + 1) desk.started)
        (fun _ t' => t'.AtMost (desk.dsars.nextPk + 1) (desk.started + 1)) p t :=
    fun hp ht => (AtMost.of_same hp ht).imp (fun _ _ => hlater) (fun _ _ h => h) fun _ => hlater
  refine ⟨.inr (hlater _ hcreated), Within.mono ?_ fun _ => .inr⟩
  refine (hbefore acknowledge_same hcreated).bind fun dsar t ht => ?_
  refine (hbefore notifyStaff_same ht).bind fun _ u hu => ?_
  refine wireDsar_within hu.1 ?_
  have hone : (if u.refuses env.env.now dsar.row = true then 0 else 1) ≤ 1 := by split <;> omega
  have hfew := hu.2
  omega

/-- The row a PATCH hands to `wire_dsar`. -/
def Desk.wired (desk : Desk) (env : DeskEnv) (pk : Nat) (patch : DsarPatch) :
    Option DsarRequest := do
  let row ← desk.dsars.get? pk
  let changed ← patch.apply row
  let text ← patch.matches
  let userId ← env.env.host.parseUuid text
  return { changed with userId := some userId }

/-- A PATCH starts one thing at most, and nothing when its request is refused. -/
theorem patchDsar_within {patch : DsarPatch} :
    Within (Desk.AtMost desk.dsars.nextPk (desk.started +
        if (desk.wired env pk patch).all (desk.refuses env.env.now) then 0 else 1))
      (patchDsar env pk patch) desk := by
  have hnow : ∀ k, desk.AtMost desk.dsars.nextPk (desk.started + k) :=
    fun k => ⟨rfl, Nat.le_add_right _ _⟩
  refine does_bind.mpr (does_query.mpr ⟨⟨hnow _, ?_⟩, fun _ _ => ⟨hnow _, hnow _⟩⟩)
  cases hrow : desk.dsars.get? pk with
  | none => exact does_ret.mpr (hnow _)
  | some row =>
      dsimp only
      cases hchanged : patch.apply row with
      | none => exact does_ret.mpr (hnow _)
      | some changed =>
          dsimp only
          cases hmatches : patch.matches with
          | none =>
              refine AtMost.of_same ?_ (hnow _)
              dsimp only
              split
              · exact saveDsar_same.bind fun _ => always_ret
              · exact always_ret.bind fun _ => always_ret
          | some text =>
              dsimp only
              cases hparse : env.env.host.parseUuid text with
              | none => exact does_raise.mpr (hnow _)
              | some userId =>
                  have hwired : desk.wired env pk patch =
                      some { changed with userId := some userId } := by
                    simp [Desk.wired, hrow, hchanged, hmatches, hparse]
                  rw [hwired, Option.all_some]
                  -- the row is saved first, which changes neither store
                  refine Does.bind (saveDsar_within.imp (fun _ _ t ht => AtMost.same ht (hnow _))
                    (fun _ _ h => h) fun _ t ht => AtMost.same ht (hnow _)) fun _ t ht => ?_
                  have hroom := ht.refuses env.env.now { changed with userId := some userId }
                  refine Within.bind (wireDsar_within ht.2.2 ?_) fun _ u hu => ?_
                  · rw [hroom, ht.started]
                  refine does_bind.mpr (does_query.mpr ⟨⟨hu, ?_⟩, fun _ _ => ⟨hu, hu⟩⟩)
                  cases u.dsars.get? pk with
                  | none => exact does_raise.mpr hu
                  | some fresh => exact does_ret.mpr hu

/-! ### A whole life -/

/-- A call that may have run `wire_dsar` on a request, with the row it was handed. -/
structure Wiring where
  dsar : Nat
  now : Time
  row : Option DsarRequest
  before : Desk
  after : Desk

/-- What the call started. -/
def Wiring.started (w : Wiring) : Nat := w.after.started - w.before.started

/-- The call was refused, by what it found. -/
def Wiring.refused (w : Wiring) : Bool := w.row.all (w.before.refuses w.now)

/-- How many closures and exports a request has started. -/
def startedBy (log : List Wiring) (pk : Nat) : Nat :=
  ((log.filter (·.dsar = pk)).map Wiring.started).sum

/-- A run of the desk, with the calls that wire a request: intake, triage, and any call on either
orchestrator's store, each ended or dead anywhere. -/
inductive DsarRun (start : Desk) : List Wiring → Desk → Prop
  | start : DsarRun start [] start
  | create {log : List Wiring} {desk desk' : Desk} {env : DeskEnv} {kind : DsarKind}
      {subjectEmail : String} {channel : DsarChannel} {user : Option UserId} {note : String}
      {tr : List DeskOp} {p : DeskProgram (Stored DsarRequest)} (h : DsarRun start log desk)
      (hrun : Runs (fun _ => True) (createDsar env kind subjectEmail channel user note) desk tr p
        desk') :
      DsarRun start (log ++ [⟨desk.dsars.nextPk, env.env.now,
        some (newDsar env kind subjectEmail channel user note), desk, desk'⟩]) desk'
  | patch {log : List Wiring} {desk desk' : Desk} {env : DeskEnv} {pk : Nat} {patch : DsarPatch}
      {tr : List DeskOp} {p : DeskProgram PatchAnswer} (h : DsarRun start log desk)
      (hrun : Runs (fun _ => True) (patchDsar env pk patch) desk tr p desk') :
      DsarRun start (log ++ [⟨pk, env.env.now, desk.wired env pk patch, desk, desk'⟩]) desk'
  | core {log : List Wiring} {desk : Desk} {α : Type} {call p : Program α} {core' : Db}
      {tr : List Op} (h : DsarRun start log desk)
      (hrun : Runs (fun _ => True) call desk.core tr p core') :
      DsarRun start log { desk with core := core' }
  | exports {log : List Wiring} {desk : Desk} {α : Type} {call p : Export.ExportProgram α}
      {exports' : ExportDb} {tr : List Export.ExportOp} (h : DsarRun start log desk)
      (hrun : Runs (fun _ => True) call desk.exports tr p exports') :
      DsarRun start log { desk with exports := exports' }

/-- Every call on a request that has started something finds it refused. -/
def LaterRefused (log : List Wiring) : Prop :=
  ∀ earlier w later, log = earlier ++ w :: later → 0 < startedBy earlier w.dsar → w.refused = true

theorem startedBy_append {log : List Wiring} {w : Wiring} :
    startedBy (log ++ [w]) pk = startedBy log pk + if w.dsar = pk then w.started else 0 := by
  unfold startedBy
  rw [List.filter_append, List.map_append, List.sum_append]
  by_cases hpk : w.dsar = pk <;> simp [hpk]

theorem laterRefused_append {log : List Wiring} {w : Wiring} : LaterRefused (log ++ [w]) ↔
    LaterRefused log ∧ (0 < startedBy log w.dsar → w.refused = true) := by
  constructor
  · intro h
    refine ⟨fun earlier v later hlog => ?_, h log w [] rfl⟩
    exact h earlier v (later ++ [w]) (by rw [hlog]; simp)
  · rintro ⟨hlog, hlast⟩ earlier v later heq
    -- the call is the last one, or it was there before
    rcases cut_snoc heq with ⟨rfl, rfl⟩ | ⟨later', hbefore⟩
    · exact hlast
    · exact hlog earlier v later' hbefore

/-- What such a run has started of a request: one thing at most, and nothing of a request that
does not exist yet. -/
structure Sparing (log : List Wiring) (desk : Desk) : Prop where
  once : ∀ pk, startedBy log pk ≤ 1
  unborn : ∀ pk, desk.dsars.nextPk ≤ pk → startedBy log pk = 0

theorem Sparing.create {log : List Wiring} {w : Wiring} (h : Sparing log w.before)
    (hpk : w.dsar = w.before.dsars.nextPk)
    (hafter : w.after.AtMost w.before.dsars.nextPk w.before.started ∨
      w.after.AtMost (w.before.dsars.nextPk + 1) (w.before.started + 1)) :
    Sparing (log ++ [w]) w.after := by
  have hnone := h.unborn w.dsar hpk.ge
  constructor
  · intro pk
    rw [startedBy_append]
    by_cases hsame : w.dsar = pk
    · subst hsame
      rw [if_pos rfl, hnone, Wiring.started]
      rcases hafter with hafter | hafter <;> have hfew := hafter.2 <;> omega
    · rw [if_neg hsame]
      exact h.once pk
  · intro pk hle
    rw [startedBy_append]
    rcases hafter with hafter | hafter
    · have hfew := hafter.2
      have hzero : w.started = 0 := by
        unfold Wiring.started
        omega
      rw [hzero, h.unborn pk (by rw [← hafter.1]; exact hle)]
      simp
    · have hnext := hafter.1
      rw [h.unborn pk (by omega), if_neg (by omega)]

theorem Sparing.patch {log : List Wiring} {w : Wiring} (h : Sparing log w.before)
    (hrefused : 0 < startedBy log w.dsar → w.refused = true)
    (hunborn : w.before.dsars.nextPk ≤ w.dsar → w.refused = true)
    (hafter : w.after.AtMost w.before.dsars.nextPk
      (w.before.started + if w.refused = true then 0 else 1)) :
    Sparing (log ++ [w]) w.after := by
  have hfew := hafter.2
  constructor
  · intro pk
    rw [startedBy_append]
    by_cases hsame : w.dsar = pk
    · subst hsame
      have honce := h.once w.dsar
      rw [if_pos rfl, Wiring.started]
      split at hfew
      · omega
      · have hfirst : ¬ 0 < startedBy log w.dsar := fun hpos => absurd (hrefused hpos) ‹_›
        omega
    · rw [if_neg hsame]
      exact h.once pk
  · intro pk hle
    rw [startedBy_append, h.unborn pk (by rw [← hafter.1]; exact hle)]
    by_cases hsame : w.dsar = pk
    · rw [hunborn (by rw [hsame, ← hafter.1]; exact hle), if_pos rfl] at hfew
      rw [if_pos hsame, Wiring.started]
      omega
    · rw [if_neg hsame]

/-- A request starts one closure or export at most, if every later call on it is refused. -/
theorem started_once {log : List Wiring} (h : DsarRun start log desk) (hrefused : LaterRefused log)
    (pk : Nat) : startedBy log pk ≤ 1 := by
  have hsparing : Sparing log desk := by
    clear pk
    induction h with
    | start => exact ⟨fun _ => Nat.zero_le _, fun _ _ => rfl⟩
    | create _ hrun ih =>
        obtain ⟨hbefore, -⟩ := laterRefused_append.mp hrefused
        exact (ih hbefore).create rfl (createDsar_within.reached hrun
          (.inl ⟨rfl, Nat.le_refl _⟩))
    | @patch log desk desk' env pk patch tr p _ hrun ih =>
        obtain ⟨hbefore, hlast⟩ := laterRefused_append.mp hrefused
        refine (ih hbefore).patch hlast (fun hle => ?_) (patchDsar_within.reached hrun
          ⟨rfl, Nat.le_add_right _ _⟩)
        -- a PATCH of a request that is not there wires nothing
        simp [Wiring.refused, Desk.wired, Table.get?_eq_none hle]
    | core _ _ ih => exact ⟨(ih hrefused).once, (ih hrefused).unborn⟩
    | exports _ _ ih => exact ⟨(ih hrefused).once, (ih hrefused).unborn⟩
  exact hsparing.once pk

/-! ### A person who changed their mind -/

/-- The desk of the first deployment on a given day. -/
def deskOn (day : Int) : DeskEnv := { exporter := { env := deploymentOn day } }

/-- The account of the first deployment, with no request yet. -/
def quietDesk : Desk := { core := storeOf [account] }

/-- The person asks for an erasure: the closure starts. -/
def erasureAsked : Desk :=
  ((createDsar (deskOn 0) .erasure "ada@example.com" .app (some "u1") "").run quietDesk).2

/-- They cancel it the next day. -/
def erasureCancelled : Desk :=
  { erasureAsked with core := ((cancelClosure (deploymentOn 1) "u1").run erasureAsked.core).2 }

/-- Staff match the request to its account. -/
def matching : DsarPatch := { userId := some "u1" }

/-- What a PATCH on the second day leaves. -/
def Desk.matched (desk : Desk) : Desk := ((patchDsar (deskOn 2) 0 matching).run desk).2

/-- The intake of the request. -/
def asking : Wiring :=
  ⟨0, days 0, some (newDsar (deskOn 0) .erasure "ada@example.com" .app (some "u1") ""), quietDesk,
    erasureAsked⟩

/-- The PATCH. -/
def Desk.matching (desk : Desk) : Wiring :=
  ⟨0, days 2, desk.wired (deskOn 2) 0 StapelGdpr.matching, desk, desk.matched⟩

theorem asking_run : DsarRun quietDesk [asking] erasureAsked := by
  obtain ⟨tr, hrun⟩ := runs_run (fun _ => True)
    (createDsar (deskOn 0) .erasure "ada@example.com" .app (some "u1") "") quietDesk
  exact .create .start hrun

theorem DsarRun.matching {log : List Wiring} (h : DsarRun start log desk) :
    DsarRun start (log ++ [desk.matching]) desk.matched := by
  obtain ⟨tr, hrun⟩ := runs_run (fun _ => True) (patchDsar (deskOn 2) 0 StapelGdpr.matching) desk
  exact h.patch hrun

/-- While the closure is in its grace the PATCH is refused. -/
theorem started_once_pending : startedBy [asking, erasureAsked.matching] 0 ≤ 1 := by
  have hnil : LaterRefused [] := fun earlier v later heq => by simp at heq
  have hasking : LaterRefused ([] ++ [asking]) :=
    laterRefused_append.mpr ⟨hnil, fun h => absurd h (by decide)⟩
  exact started_once asking_run.matching
    (laterRefused_append.mpr ⟨hasking, fun _ => by decide +kernel⟩) 0

/-- The cancelled closure is started again. -/
theorem started_again : ¬ ∀ (start desk : Desk) (log : List Wiring) (pk : Nat),
    DsarRun start log desk → startedBy log pk ≤ 1 := by
  intro hclaim
  obtain ⟨tr, hrun⟩ := runs_run (fun _ => True) (cancelClosure (deploymentOn 1) "u1")
    erasureAsked.core
  have hcancelled : DsarRun quietDesk [asking] erasureCancelled := asking_run.core hrun
  have hcount : startedBy [asking, erasureCancelled.matching] 0 = 2 := by decide +kernel
  have honce := hclaim _ _ _ 0 hcancelled.matching
  exact absurd (hcount.symm.le.trans honce) (by decide)

end StapelGdpr
