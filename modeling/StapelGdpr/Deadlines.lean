import StapelGdpr.Dsar

/-!
# StapelGdpr.Deadlines

How often `sweep_dsar_deadlines` announces a missed clock. A request has two clocks and one
idempotency mark: the first announcement sets it, and no sweep announces a marked request. So
over its whole life a request is announced at most once, and each of its missed clocks is
announced exactly once if and only if only one of them is ever missed
(`announced_once_iff`).
-/

namespace StapelGdpr

open Prog

variable {desk desk' start : Desk} {now : Time} {pk : Nat} {deadline deadline' : DsarDeadline}

/-! ### What a request has of the sweeps -/

/-- The idempotency mark of a request. -/
def Desk.notified (desk : Desk) (pk : Nat) : Option Time :=
  (desk.dsars.get? pk).bind (·.overdueNotifiedAt)

/-- How often a clock of a request was announced. -/
def Desk.announced (desk : Desk) (pk : Nat) (deadline : DsarDeadline) : Nat :=
  desk.overdue.countP fun e => e.dsarId = pk && e.deadline = deadline

/-- Does the request miss the clock? -/
def Desk.misses (desk : Desk) (pk : Nat) (deadline : DsarDeadline) (now : Time) : Bool :=
  (desk.dsars.get? pk).any (·.missed deadline now)

/-! ### One pass of a sweep -/

/-- What the loop over one of the two queries leaves. -/
def Desk.announceAll (desk : Desk) (now : Time) (deadline : DsarDeadline)
    (rows : List (Stored DsarRequest)) : Desk :=
  rows.foldl (fun desk dsar => desk.announce now deadline dsar) desk

theorem overdue_announceAll (rows : List (Stored DsarRequest)) :
    (desk.announceAll now deadline rows).overdue =
      desk.overdue ++ rows.map (overduePayload deadline) := by
  induction rows generalizing desk with
  | nil => simp [Desk.announceAll]
  | cons dsar rows ih =>
      have hrest := @ih (desk.announce now deadline dsar)
      have hone : (desk.announce now deadline dsar).overdue =
          desk.overdue ++ [overduePayload deadline dsar] := rfl
      rw [hone] at hrest
      simpa [Desk.announceAll] using hrest

theorem get?_announceAll (rows : List (Stored DsarRequest)) :
    (desk.announceAll now deadline rows).dsars.get? pk = (desk.dsars.get? pk).map fun r =>
      if rows.any (·.pk = pk) then { r with overdueNotifiedAt := some now } else r := by
  induction rows generalizing desk with
  | nil => simp [Desk.announceAll]
  | cons dsar rows ih =>
      have hrest := @ih (desk.announce now deadline dsar)
      have hone : (desk.announce now deadline dsar).dsars.get? pk =
          if pk = dsar.pk then (desk.dsars.get? pk).map fun r =>
            { r with overdueNotifiedAt := some now } else desk.dsars.get? pk :=
        Table.get?_modify _ _ _ _
      change (Desk.announceAll (desk.announce now deadline dsar) now deadline rows).dsars.get? pk = _
      rw [hrest, hone]
      by_cases hpk : pk = dsar.pk
      · cases desk.dsars.get? pk with
        | none => simp
        | some r => by_cases hlater : rows.any (·.pk = pk) = true <;> simp [hpk]
      · have hother : ¬ dsar.pk = pk := fun h => hpk h.symm
        simp [hpk, hother]

/-- The pass over one of the queries. -/
def Desk.pass (desk : Desk) (now : Time) (deadline : DsarDeadline) : Desk :=
  desk.announceAll now deadline (desk.owed deadline now)

/-- The pass announces the request. -/
def Desk.announces (desk : Desk) (pk : Nat) (deadline : DsarDeadline) (now : Time) : Bool :=
  desk.misses pk deadline now && desk.notified pk = none

theorem countP_owed : (desk.owed deadline now).countP (·.pk = pk) =
    if desk.announces pk deadline now = true then 1 else 0 := by
  have hperm := List.perm_insertionSort
    (fun r r' : Stored DsarRequest => r'.row.receivedAt ≤ r.row.receivedAt)
    (desk.dsars.select fun r => r.missed deadline now && r.overdueNotifiedAt = none)
  rw [Desk.owed, latestFirst, hperm.countP_eq, Table.countP_pk_select]
  unfold Desk.announces Desk.misses Desk.notified
  cases desk.dsars.get? pk <;> rfl

theorem announced_pass : (desk.pass now deadline).announced pk deadline' =
    desk.announced pk deadline' +
      if deadline' = deadline ∧ desk.announces pk deadline now = true then 1 else 0 := by
  rw [Desk.announced, Desk.pass, overdue_announceAll, List.countP_append, List.countP_map]
  congr 1
  by_cases hsame : deadline' = deadline
  · subst hsame
    simp only [true_and, ← countP_owed]
    refine List.countP_congr fun o _ => ?_
    change (decide (o.pk = pk) && decide (deadline' = deadline')) = true ↔ decide (o.pk = pk) = true
    simp
  · have hother : ¬ deadline = deadline' := fun h => hsame h.symm
    rw [if_neg fun h => hsame h.1]
    exact List.countP_eq_zero.mpr fun o _ => by simp [overduePayload, hother]

/-- The pass lists a request exactly when it announces it. -/
theorem any_owed : (desk.owed deadline now).any (·.pk = pk) = desk.announces pk deadline now := by
  have hcount : (desk.owed deadline now).countP (·.pk = pk) =
      if desk.announces pk deadline now = true then 1 else 0 := countP_owed
  cases hann : desk.announces pk deadline now with
  | true =>
      rw [hann, if_pos rfl] at hcount
      have hpos : 0 < (desk.owed deadline now).countP (·.pk = pk) := by omega
      obtain ⟨o, ho, hpk⟩ := List.countP_pos_iff.mp hpos
      exact List.any_eq_true.mpr ⟨o, ho, hpk⟩
  | false =>
      rw [hann, if_neg Bool.false_ne_true] at hcount
      have hnone := List.countP_eq_zero.mp hcount
      simpa using hnone

theorem notified_pass : (desk.pass now deadline).notified pk =
    if desk.announces pk deadline now = true then some now else desk.notified pk := by
  rw [Desk.notified, Desk.pass, get?_announceAll, any_owed]
  cases hget : desk.dsars.get? pk with
  | none =>
      have hno : desk.announces pk deadline now = false := by
        simp [Desk.announces, Desk.misses, hget]
      simp [hno, Desk.notified, hget]
  | some r => cases hann : desk.announces pk deadline now <;> simp [Desk.notified, hget]

/-- The mark plays no part in what is missed. -/
theorem misses_pass : (desk.pass now deadline).misses pk deadline' now =
    desk.misses pk deadline' now := by
  rw [Desk.misses, Desk.pass, get?_announceAll, Option.any_map]
  have hmark : ∀ r : DsarRequest, ∀ b : Bool, (if b then { r with overdueNotifiedAt := some now }
      else r).missed deadline' now = r.missed deadline' now := by
    intro r b
    cases b <;> cases deadline' <;> rfl
  simp only [hmark]
  rfl

/-! ### One sweep -/

/-- What a sweep leaves. The second query is made after the first loop has set its marks. -/
def Desk.swept (desk : Desk) (now : Time) : Desk :=
  (desk.pass now .acknowledgement).pass now .resolution

/-- A sweep that returns has made both passes. -/
theorem sweepDsarDeadlines_passes {may : DeskOp → Prop} : Does may (fun _ _ _ => True)
    (fun _ desk' => desk' = desk.swept now) (fun _ _ => True) (sweepDsarDeadlines now) desk := by
  have hloop : ∀ (desk : Desk) (deadline : DsarDeadline),
      Does may (fun _ _ _ => True) (fun _ desk' => desk' = desk.pass now deadline)
        (fun _ _ => True) ((desk.owed deadline now).forM fun dsar =>
          (Prog.write (.overdueUnit dsar.pk deadline) (·.announce now deadline dsar) :
            DeskProgram Unit)) desk := by
    intro desk deadline
    -- what is left of the list is still to be announced
    refine Does.post (Does.forM (J := fun rest desk' =>
      desk'.announceAll now deadline rest = desk.pass now deadline) ?_ rfl)
      (fun _ _ h => h) fun _ _ h => h
    intro dsar rest desk' h
    exact does_write.mpr ⟨⟨trivial, h⟩, fun _ _ => ⟨trivial, trivial⟩⟩
  refine does_bind.mpr (does_query.mpr ⟨⟨trivial, ?_⟩, fun _ _ => ⟨trivial, trivial⟩⟩)
  refine (hloop desk .acknowledgement).bind fun _ desk₁ h₁ => ?_
  refine does_bind.mpr (does_query.mpr ⟨⟨trivial, ?_⟩, fun _ _ => ⟨trivial, trivial⟩⟩)
  refine (hloop desk₁ .resolution).bind fun _ desk₂ h₂ => does_ret.mpr ?_
  rw [h₂, h₁]
  rfl

/-- The clock a sweep announces, of an unmarked request: the acknowledgement first. -/
def Desk.firstMissed (desk : Desk) (pk : Nat) (now : Time) : Option DsarDeadline :=
  if desk.misses pk .acknowledgement now = true then some .acknowledgement
  else if desk.misses pk .resolution now = true then some .resolution
  else none

/-- A marked request is left alone. -/
theorem swept_marked (h : desk.notified pk ≠ none) :
    (desk.swept now).notified pk = desk.notified pk ∧
      ∀ deadline, (desk.swept now).announced pk deadline = desk.announced pk deadline := by
  have hfirst : desk.announces pk .acknowledgement now = false := by simp [Desk.announces, h]
  have hmid : (desk.pass now .acknowledgement).notified pk = desk.notified pk := by
    rw [notified_pass, hfirst, if_neg Bool.false_ne_true]
  have hsecond : (desk.pass now .acknowledgement).announces pk .resolution now = false := by
    simp [Desk.announces, hmid, h]
  constructor
  · rw [Desk.swept, notified_pass, hsecond, if_neg Bool.false_ne_true, hmid]
  · intro deadline
    rw [Desk.swept, announced_pass, announced_pass, hfirst, hsecond]
    simp

/-- An unmarked request that misses a clock is announced once and marked. -/
theorem swept_unmarked (h : desk.notified pk = none) :
    (desk.swept now).notified pk = (desk.firstMissed pk now).map (fun _ => now) ∧
      ∀ deadline, (desk.swept now).announced pk deadline = desk.announced pk deadline +
        if desk.firstMissed pk now = some deadline then 1 else 0 := by
  have hfirst : desk.announces pk .acknowledgement now = desk.misses pk .acknowledgement now := by
    simp [Desk.announces, h]
  cases hack : desk.misses pk .acknowledgement now with
  | true =>
      rw [hack] at hfirst
      have hmid : (desk.pass now .acknowledgement).notified pk = some now := by
        rw [notified_pass, hfirst, if_pos rfl]
      have hsecond : (desk.pass now .acknowledgement).announces pk .resolution now = false := by
        simp [Desk.announces, hmid]
      have hmissed : desk.firstMissed pk now = some .acknowledgement := by
        rw [Desk.firstMissed, hack, if_pos rfl]
      constructor
      · rw [Desk.swept, notified_pass, hsecond, if_neg Bool.false_ne_true, hmid, hmissed]
        rfl
      · intro deadline
        rw [Desk.swept, announced_pass, announced_pass, hfirst, hsecond, hmissed]
        cases deadline <;> simp
  | false =>
      rw [hack] at hfirst
      have hmid : (desk.pass now .acknowledgement).notified pk = none := by
        rw [notified_pass, hfirst, if_neg Bool.false_ne_true, h]
      have hsecond : (desk.pass now .acknowledgement).announces pk .resolution now =
          desk.misses pk .resolution now := by
        simp [Desk.announces, hmid, misses_pass]
      have hmissed : desk.firstMissed pk now =
          if desk.misses pk .resolution now = true then some .resolution else none := by
        rw [Desk.firstMissed, hack, if_neg Bool.false_ne_true]
      constructor
      · rw [Desk.swept, notified_pass, hsecond, hmid, hmissed]
        cases desk.misses pk .resolution now <;> simp
      · intro deadline
        rw [Desk.swept, announced_pass, announced_pass, hfirst, hsecond, hmissed]
        cases desk.misses pk .resolution now <;> cases deadline <;> simp

/-! ### The other writers -/

/-- The marks and the announcements are left alone. -/
def KeepsMarks (a b : Desk) : Prop := (∀ pk, b.notified pk = a.notified pk) ∧ b.overdue = a.overdue

theorem KeepsMarks.refl (a : Desk) : KeepsMarks a a := ⟨fun _ => rfl, rfl⟩

theorem KeepsMarks.trans {a b c : Desk} (h : KeepsMarks a b) (h' : KeepsMarks b c) :
    KeepsMarks a c :=
  ⟨fun pk => (h'.1 pk).trans (h.1 pk), h'.2.trans h.2⟩

theorem KeepsMarks.announced {a b : Desk} (h : KeepsMarks a b) :
    b.announced pk deadline = a.announced pk deadline := by
  rw [Desk.announced, Desk.announced, h.2]

/-- A `save` with these columns keeps the mark. -/
theorem saveDsar_keeps {dsar : Stored DsarRequest}
    (fields : DsarRequest → DsarRequest → DsarRequest)
    (h : ∀ r row, (fields r row).overdueNotifiedAt = row.overdueNotifiedAt) :
    Always (fun _ a b => KeepsMarks a b) (saveDsar dsar fields) := by
  refine .write fun desk => ⟨.refl _, fun pk => ?_, rfl⟩
  change ((desk.dsars.modify dsar.pk (fields dsar.row)).get? pk).bind _ = _
  rw [Table.get?_modify, Desk.notified]
  split
  · cases desk.dsars.get? pk with
    | none => rfl
    | some row => exact h dsar.row row
  · rfl

theorem acknowledge_keeps {env : DeskEnv} {dsar : Stored DsarRequest} :
    Always (fun _ a b => KeepsMarks a b) (acknowledge env dsar) := by
  have hask : Always (fun _ a b => KeepsMarks a b)
      (Prog.external (.notify "gdpr.dsar.received" dsar.row.subjectEmail) : DeskProgram Unit) :=
    .external .refl
  refine ((hask.bind fun _ => always_ret).tryCatch fun _ => always_ret).bind fun queued => ?_
  split
  · exact always_ret
  · exact (saveDsar_keeps ackFields fun _ _ => rfl).bind fun _ => always_ret

theorem notifyStaff_keeps {env : DeskEnv} :
    Always (fun _ a b => KeepsMarks a b) (notifyStaff env) :=
  .forM fun _ _ => (Always.external .refl).tryCatch fun _ => always_ret

theorem notAutomated_keeps {env : DeskEnv} {dsar : Stored DsarRequest} {e : DeskError} :
    Always (fun _ a b => KeepsMarks a b) (notAutomated env dsar e) :=
  (saveDsar_keeps noteFields fun _ _ => rfl).bind fun _ => always_ret

theorem ofCore_keeps {α : Type} (p : Program α) :
    Always (fun _ a b => KeepsMarks a b) (DeskProgram.ofCore p) :=
  Always.lift (fun _ _ _ => ⟨fun _ => rfl, rfl⟩) (fun _ => .refl) p

theorem ofExports_keeps {α : Type} (p : Export.ExportProgram α) :
    Always (fun _ a b => KeepsMarks a b) (DeskProgram.ofExports p) :=
  Always.lift (fun _ _ _ => ⟨fun _ => rfl, rfl⟩) (fun _ => .refl) p

theorem wireErasure_keeps {env : DeskEnv} {dsar : Stored DsarRequest} {userId : UserId} :
    Always (fun _ a b => KeepsMarks a b) (wireErasure env dsar userId) := by
  refine Always.bind ((ofCore_keeps _).tryCatch fun _ => always_ret) fun closure => ?_
  cases closure with
  | error e => exact notAutomated_keeps
  | ok closure =>
      exact ((saveDsar_keeps closureFields fun _ _ => rfl).bind fun _ => always_ret).tryCatch fun _ =>
        notAutomated_keeps

theorem wireExport_keeps {env : DeskEnv} {dsar : Stored DsarRequest} {userId : UserId} :
    Always (fun _ a b => KeepsMarks a b) (wireExport env dsar userId) := by
  refine Always.bind (Always.tryCatch ((ofExports_keeps _).bind fun _ =>
    (Always.external .refl).bind fun _ => always_ret) fun _ => always_ret) fun dataExport => ?_
  cases dataExport with
  | error e => exact notAutomated_keeps
  | ok dataExport =>
      exact ((saveDsar_keeps exportFields fun _ _ => rfl).bind fun _ => always_ret).tryCatch fun _ =>
        notAutomated_keeps

theorem wireDsar_keeps {env : DeskEnv} {dsar : Stored DsarRequest} :
    Always (fun _ a b => KeepsMarks a b) (wireDsar env dsar) := by
  unfold wireDsar
  split
  · exact always_ret
  split
  · exact always_ret
  cases dsar.row.kind with
  | erasure => exact wireErasure_keeps
  | access => exact wireExport_keeps
  | portability => exact wireExport_keeps
  | rectification => exact always_ret

/-- What people do at the desk. -/
inductive DeskCall
  | create (kind : DsarKind) (subjectEmail : String) (channel : DsarChannel)
      (userId : Option UserId) (note : String)
  | acknowledge (dsar : Stored DsarRequest)
  | patch (pk : Nat) (changes : DsarPatch)

/-- The code of a call, its result dropped. -/
def DeskCall.prog (env : DeskEnv) : DeskCall → DeskProgram Unit
  | create kind subjectEmail channel userId note =>
      discard (createDsar env kind subjectEmail channel userId note)
  | acknowledge dsar => discard (StapelGdpr.acknowledge env dsar)
  | patch pk changes => discard (patchDsar env pk changes)

theorem createDsar_keeps {env : DeskEnv} {kind : DsarKind} {subjectEmail : String}
    {channel : DsarChannel} {userId : Option UserId} {note : String} :
    Always (fun _ a b => KeepsMarks a b)
      (createDsar env kind subjectEmail channel userId note) := by
  refine Always.bind (.atomic fun desk => ⟨.refl _, fun dsar desk' h => ⟨fun pk => ?_, ?_⟩⟩)
    fun _ => acknowledge_keeps.bind fun _ => notifyStaff_keeps.bind fun _ => wireDsar_keeps
  · obtain ⟨-, rfl⟩ := Prod.mk.inj (Except.ok.inj h)
    rw [Desk.notified, Desk.notified, Table.get?_insert]
    split
    · -- the new row is not marked, and there was none
      rename_i hpk
      rw [hpk, Table.get?_nextPk]
      rfl
    · rfl
  · obtain ⟨-, rfl⟩ := Prod.mk.inj (Except.ok.inj h)
    rfl

theorem patchDsar_keeps {env : DeskEnv} {patch : DsarPatch} :
    Always (fun _ a b => KeepsMarks a b) (patchDsar env pk patch) := by
  have hsel : ∀ {α : Type} (g : Desk → α),
      Always (fun _ a b => KeepsMarks a b) (DeskProgram.select g) := fun g => .query .refl
  refine (hsel _).bind fun found => ?_
  cases found with
  | none => exact always_ret
  | some row =>
      dsimp only
      split
      · exact always_ret
      split
      · split
        · exact (saveDsar_keeps patch.fields fun _ _ => rfl).bind fun _ => always_ret
        · exact always_ret.bind fun _ => always_ret
      split
      · exact always_raise
      refine (saveDsar_keeps patch.fields fun _ _ => rfl).bind fun _ => wireDsar_keeps.bind fun _ =>
        (hsel _).bind fun fresh => ?_
      cases fresh with
      | none => exact always_raise
      | some fresh => exact always_ret

/-- A call keeps the marks, wherever it ends. -/
theorem DeskCall.keeps {env : DeskEnv} {call : DeskCall} {tr : List DeskOp} {p : DeskProgram Unit}
    (h : Runs (fun _ => True) (call.prog env) desk tr p desk') : KeepsMarks desk desk' := by
  have hcall : Always (fun _ a b => KeepsMarks a b) (call.prog env) := by
    cases call with
    | create => exact createDsar_keeps.bind fun _ => always_ret
    | acknowledge => exact acknowledge_keeps.bind fun _ => always_ret
    | patch => exact patchDsar_keeps.bind fun _ => always_ret
  exact hcall.keeps h (fun _ _ _ h => h) .refl .trans

/-! ### A whole life -/

/-- A run of the desk, with the moment and the store of each of its sweeps: sweeps that return,
calls that may fail or die anywhere, and whatever else happens to the rest of the store. -/
inductive DeskRun (start : Desk) : List (Time × Desk) → Desk → Prop
  | start : DeskRun start [] start
  | sweep {sweeps : List (Time × Desk)} {desk desk' : Desk} {now : Time} {may : DeskOp → Prop}
      {tr : List DeskOp} {n : Nat} (h : DeskRun start sweeps desk)
      (hrun : Runs may (sweepDsarDeadlines now) desk tr (.ret n) desk') :
      DeskRun start (sweeps ++ [(now, desk)]) desk'
  | call {sweeps : List (Time × Desk)} {desk desk' : Desk} {env : DeskEnv} {call : DeskCall}
      {tr : List DeskOp} {p : DeskProgram Unit} (h : DeskRun start sweeps desk)
      (hrun : Runs (fun _ => True) (call.prog env) desk tr p desk') : DeskRun start sweeps desk'
  | elsewhere {sweeps : List (Time × Desk)} {desk desk' : Desk} (h : DeskRun start sweeps desk)
      (hkeeps : KeepsMarks desk desk') : DeskRun start sweeps desk'

/-- Some sweep of the run finds the clock missed. -/
def Missed (sweeps : List (Time × Desk)) (pk : Nat) (deadline : DsarDeadline) : Prop :=
  ∃ s ∈ sweeps, s.2.misses pk deadline s.1 = true

/-- What a run has done about a request: nothing while no clock was missed, and one
announcement, of a clock that was missed, from then on. -/
structure Told (sweeps : List (Time × Desk)) (desk : Desk) (pk : Nat) : Prop where
  silent : desk.notified pk = none → ∀ deadline,
    ¬ Missed sweeps pk deadline ∧ desk.announced pk deadline = 0
  once : desk.notified pk ≠ none →
    desk.announced pk .acknowledgement + desk.announced pk .resolution = 1 ∧
      ∀ deadline, desk.announced pk deadline = 1 → Missed sweeps pk deadline

theorem missed_append {sweeps : List (Time × Desk)} {s : Time × Desk} :
    Missed (sweeps ++ [s]) pk deadline ↔
      Missed sweeps pk deadline ∨ s.2.misses pk deadline s.1 = true := by
  simp [Missed, or_and_right, exists_or]

theorem firstMissed_misses (h : desk.firstMissed pk now = some deadline) :
    desk.misses pk deadline now = true := by
  unfold Desk.firstMissed at h
  split at h
  · exact Option.some.inj h ▸ ‹_›
  split at h
  · exact Option.some.inj h ▸ ‹_›
  · exact absurd h (by simp)

theorem firstMissed_none (h : desk.firstMissed pk now = none) (deadline : DsarDeadline) :
    desk.misses pk deadline now = false := by
  unfold Desk.firstMissed at h
  split at h
  · exact absurd h (by simp)
  split at h
  · exact absurd h (by simp)
  · cases deadline <;> simp_all

/-- A sweep keeps the account. -/
theorem Told.sweep {sweeps : List (Time × Desk)} (h : Told sweeps desk pk) :
    Told (sweeps ++ [(now, desk)]) (desk.swept now) pk := by
  cases hmark : desk.notified pk with
  | some at' =>
      have hsome : desk.notified pk ≠ none := by simp [hmark]
      obtain ⟨hkept, hcount⟩ : (desk.swept now).notified pk = desk.notified pk ∧
          ∀ deadline, (desk.swept now).announced pk deadline = desk.announced pk deadline :=
        swept_marked hsome
      obtain ⟨hone, hwhich⟩ := h.once hsome
      refine ⟨fun hnone => absurd (hkept.symm.trans hnone) hsome, fun _ => ?_⟩
      rw [hcount, hcount]
      refine ⟨hone, fun deadline hd => missed_append.mpr (.inl (hwhich deadline ?_))⟩
      rwa [hcount] at hd
  | none =>
      obtain ⟨hkept, hcount⟩ : (desk.swept now).notified pk =
          (desk.firstMissed pk now).map (fun _ => now) ∧ ∀ deadline,
            (desk.swept now).announced pk deadline = desk.announced pk deadline +
              if desk.firstMissed pk now = some deadline then 1 else 0 := swept_unmarked hmark
      have hsilent := h.silent hmark
      cases hfirst : desk.firstMissed pk now with
      | none =>
          rw [hfirst] at hkept hcount
          refine ⟨fun _ deadline => ?_, fun hsome => absurd hkept hsome⟩
          rw [missed_append, hcount]
          simp [hsilent deadline, firstMissed_none hfirst deadline]
      | some first =>
          rw [hfirst] at hkept hcount
          refine ⟨fun hnone => absurd (hkept.symm.trans hnone) (by simp), fun _ => ?_⟩
          rw [hcount, hcount, (hsilent _).2, (hsilent _).2]
          constructor
          · cases first <;> simp
          · intro deadline hd
            rw [hcount, (hsilent _).2] at hd
            have hsame : first = deadline := by
              by_contra hne
              simp [hne] at hd
            exact missed_append.mpr (.inr (firstMissed_misses (hsame ▸ hfirst)))

theorem Told.keeps {sweeps : List (Time × Desk)} (h : Told sweeps desk pk)
    (hkeeps : KeepsMarks desk desk') : Told sweeps desk' pk where
  silent hnone deadline := by
    rw [hkeeps.announced]
    exact h.silent ((hkeeps.1 pk).symm.trans hnone) deadline
  once hsome := by
    rw [hkeeps.announced, hkeeps.announced]
    simp only [hkeeps.announced]
    exact h.once fun hnone => hsome ((hkeeps.1 pk).trans hnone)

theorem DeskRun.told {sweeps : List (Time × Desk)} (h : DeskRun start sweeps desk)
    (hmark : start.notified pk = none) (hquiet : ∀ deadline, start.announced pk deadline = 0) :
    Told sweeps desk pk := by
  induction h with
  | start =>
      exact ⟨fun _ deadline => ⟨by simp [Missed], hquiet deadline⟩, fun h => absurd hmark h⟩
  | sweep _ hrun ih =>
      rw [sweepDsarDeadlines_passes.returned hrun]
      exact ih.sweep
  | call _ hrun ih => exact ih.keeps (DeskCall.keeps hrun)
  | elsewhere _ hkeeps ih => exact ih.keeps hkeeps

/-- **One clock, one alarm.** Over the whole life of a request, each clock that a sweep finds
missed is announced exactly once if and only if the sweeps do not find both missed. -/
theorem announced_once_iff {sweeps : List (Time × Desk)} (h : DeskRun start sweeps desk)
    (hmark : start.notified pk = none) (hquiet : ∀ deadline, start.announced pk deadline = 0) :
    (∀ deadline, Missed sweeps pk deadline → desk.announced pk deadline = 1) ↔
      ¬ (Missed sweeps pk .acknowledgement ∧ Missed sweeps pk .resolution) := by
  have htold := h.told hmark hquiet
  constructor
  · rintro honce ⟨hack, hres⟩
    have hsome : desk.notified pk ≠ none := fun hnone => (htold.silent hnone _).1 hack
    have hone := (htold.once hsome).1
    rw [honce _ hack, honce _ hres] at hone
    omega
  · intro hnot deadline hmissed
    have hsome : desk.notified pk ≠ none := fun hnone => (htold.silent hnone _).1 hmissed
    obtain ⟨hone, hwhich⟩ := htold.once hsome
    by_contra hother
    -- then the other clock was announced, and so it was missed too
    cases deadline with
    | acknowledgement => exact hnot ⟨hmissed, hwhich .resolution (by omega)⟩
    | resolution => exact hnot ⟨hwhich .acknowledgement (by omega), hmissed⟩

/-- A request from the public form, received on day 0. -/
def formRequest : DsarRequest where
  kind := .access
  channel := .form
  subjectEmail := "a@example.org"
  userId := none
  receivedAt := 0
  ackDueAt := days 5
  resolveDueAt := days 30
  note := ""

/-- The desk with one request. -/
def deskOf (dsar : DsarRequest) : Desk := { dsars := { rows := [dsar] } }

/-- Its acknowledgement went out, and nobody answered. -/
def acknowledged : DsarRequest := { formRequest with ackSentAt := some 0, state := .acknowledged }

theorem announced_once_iff_acknowledged :
    (((sweepDsarDeadlines (days 31)).run (deskOf acknowledged)).2).announced 0 .resolution = 1 := by
  obtain ⟨n, tr, hrun⟩ := runs_of_isOk (fun _ => False)
    (show ((sweepDsarDeadlines (days 31)).run (deskOf acknowledged)).1.isOk = true by
      decide +kernel)
  refine (announced_once_iff (DeskRun.sweep .start hrun)
    (show (deskOf acknowledged).notified 0 = none from rfl) (fun _ => rfl)).mpr ?_
    .resolution ⟨_, List.mem_singleton.mpr rfl, by decide⟩
  rintro ⟨⟨s, hs, hmissed⟩, -⟩
  obtain rfl := List.mem_singleton.mp hs
  exact absurd hmissed (by decide)

/-- The acknowledgement did not go out, and nobody answered: the second alarm never comes. -/
theorem second_clock_silent : ¬ ∀ (start desk : Desk) (sweeps : List (Time × Desk)) (pk : Nat),
    DeskRun start sweeps desk → start.notified pk = none →
    (∀ deadline, start.announced pk deadline = 0) →
    ∀ deadline, Missed sweeps pk deadline → desk.announced pk deadline = 1 := by
  intro hclaim
  let alarmed : Desk := ((sweepDsarDeadlines (days 6)).run (deskOf formRequest)).2
  obtain ⟨n₁, tr₁, hfirst⟩ := runs_of_isOk (fun _ => False)
    (show ((sweepDsarDeadlines (days 6)).run (deskOf formRequest)).1.isOk = true by decide +kernel)
  obtain ⟨n₂, tr₂, hsecond⟩ := runs_of_isOk (fun _ => False)
    (show ((sweepDsarDeadlines (days 31)).run alarmed).1.isOk = true by decide +kernel)
  have hmissed : alarmed.misses 0 .resolution (days 31) = true := by decide +kernel
  have honce := hclaim _ _ _ 0 (.sweep (.sweep .start hfirst) hsecond) rfl (fun _ => rfl)
    .resolution
    ⟨(days 31, alarmed), List.mem_append_right _ (List.mem_singleton.mpr rfl), hmissed⟩
  have hnone : ((sweepDsarDeadlines (days 31)).run alarmed).2.announced 0 .resolution = 0 := by
    decide +kernel
  exact absurd (hnone.symm.trans honce) (by decide)

end StapelGdpr
